/-
Aii.Node.MetaKeys — the key space of the `Meta` column family
(`aii-node/src/{lib,staking,validator_registry,dpos,governance}.rs`).

Nine stores keep their records in one column family, and a key belongs to
one of them.
-/
import Aii.Node.LogQuery
import Aii.Node.Recover
import Aii.Node.StakeLedger

namespace Aii.Node

open Common Chain StakeTable Governance

/-- The kinds of records in the `Meta` column family. -/
inductive MetaKind where
  | stake
  | validatorKey
  | election
  | proposal
  | vote
  | tally
  | slash
  | fork
  | postRoot
  | blockNumber
  | head
  | headHash
  deriving DecidableEq

def MetaKind.keyPrefix : MetaKind → Bytes
  | .stake => StakeTable.KEY_PREFIX
  | .validatorKey => ValidatorRegistry.KEY_PREFIX
  | .election => Dpos.KEY_PREFIX
  | .proposal => Governance.PROP_PREFIX
  | .vote => Governance.VOTE_PREFIX
  | .tally => Governance.TALLY_PREFIX
  | .slash => META_KEY_SLASH_PREFIX
  | .fork => META_KEY_FORK_PREFIX
  | .postRoot => META_KEY_POSTROOT_PREFIX
  | .blockNumber => ascii ['n', ':']
  | .head => META_KEY_HEAD
  | .headHash => META_KEY_HEAD_HASH

inductive MetaRecord where
  | stake (addr : Address)
  | validatorKey (addr : Address)
  | election (epoch : UInt64)
  | proposal (id : UInt64)
  | vote (id : UInt64) (voter : Address)
  | tally (id : UInt64)
  | slash (validatorIndex : UInt32) (height : UInt64) (phase : Bft.VotePhase)
  | fork (height : UInt64) (forkHash : H256)
  | postRoot (blockHash : H256)
  | blockNumber (n : UInt64)
  | head
  | headHash

namespace MetaRecord

def kind : MetaRecord → MetaKind
  | .stake _ => .stake
  | .validatorKey _ => .validatorKey
  | .election _ => .election
  | .proposal _ => .proposal
  | .vote _ _ => .vote
  | .tally _ => .tally
  | .slash _ _ _ => .slash
  | .fork _ _ => .fork
  | .postRoot _ => .postRoot
  | .blockNumber _ => .blockNumber
  | .head => .head
  | .headHash => .headHash

/-- What follows the prefix. -/
def suffix : MetaRecord → Bytes
  | .stake addr => addr.toList
  | .validatorKey addr => addr.toList
  | .election epoch => u64Be epoch
  | .proposal id => u64Be id
  | .vote id voter => u64Be id ++ voter.toList
  | .tally id => u64Be id
  | .slash validatorIndex height phase =>
    u32Be validatorIndex ++ (u64Be height ++ [(phaseTag phase).1])
  | .fork height forkHash => u64Be height ++ forkHash.toList
  | .postRoot blockHash => blockHash.toList
  | .blockNumber n => u64Be n
  | .head => []
  | .headHash => []

def key : MetaRecord → Bytes
  | .stake addr => StakeTable.key addr
  | .validatorKey addr => ValidatorRegistry.key addr
  | .election epoch => Dpos.key epoch
  | .proposal id => Governance.propKey id
  | .vote id voter => Governance.voteKey id voter
  | .tally id => Governance.tallyKey id
  | .slash validatorIndex height phase =>
    META_KEY_SLASH_PREFIX ++ u32Be validatorIndex ++ u64Be height ++ [(phaseTag phase).1]
  | .fork height forkHash => META_KEY_FORK_PREFIX ++ u64Be height ++ forkHash.toList
  | .postRoot blockHash => META_KEY_POSTROOT_PREFIX ++ blockHash.toList
  | .blockNumber n => numberKey n
  | .head => META_KEY_HEAD
  | .headHash => META_KEY_HEAD_HASH

end MetaRecord

/-! ## Keys -/

def MetaKind.Key (kind : MetaKind) (cf : ColumnFamily) (k : Bytes) : Prop :=
  cf = .metaCf ∧ kind.keyPrefix <+: k

lemma MetaKind.keyPrefix_apart {kind kind' : MetaKind} (h : kind ≠ kind') :
    Apart kind.keyPrefix kind'.keyPrefix := by
  revert h
  cases kind <;> cases kind' <;> decide

lemma MetaKind.Key.unique {kind kind' : MetaKind} {cf : ColumnFamily} {k : Bytes}
    (h : kind.Key cf k) (h' : kind'.Key cf k) : kind = kind' := by
  by_contra hne
  exact prefix_excludes h.2 (keyPrefix_apart hne) h'.2

namespace MetaRecord

lemma key_eq (r : MetaRecord) : r.key = r.kind.keyPrefix ++ r.suffix := by
  cases r with
  | vote | fork => exact List.append_assoc _ _ _
  | slash =>
    simp only [key, kind, suffix, MetaKind.keyPrefix, List.append_assoc]
  | head | headHash => exact (List.append_nil _).symm
  | _ => rfl

lemma key_kind (r : MetaRecord) : r.kind.Key .metaCf r.key :=
  ⟨rfl, by rw [key_eq]; exact List.prefix_append _ _⟩

lemma phaseTag_inj {p q : Bft.VotePhase} (h : (phaseTag p).1 = (phaseTag q).1) : p = q := by
  revert h
  cases p <;> cases q <;> decide

lemma suffix_inj {r r' : MetaRecord} (hk : r.kind = r'.kind) (h : r.suffix = r'.suffix) :
    r = r' := by
  cases r <;> cases r' <;> try cases hk
  case stake.stake addr addr' => exact congrArg stake (toList_inj.mp h)
  case validatorKey.validatorKey addr addr' => exact congrArg validatorKey (toList_inj.mp h)
  case election.election epoch epoch' => exact congrArg election (u64Be_inj h)
  case proposal.proposal id id' => exact congrArg proposal (u64Be_inj h)
  case vote.vote id voter id' voter' =>
    obtain ⟨hid, hvr⟩ := append_field_inj (by simp) h
    rw [u64Be_inj hid, toList_inj.mp hvr]
  case tally.tally id id' => exact congrArg tally (u64Be_inj h)
  case slash.slash validatorIndex height phase validatorIndex' height' phase' =>
    obtain ⟨hie, hrs⟩ := append_field_inj (by simp) h
    obtain ⟨hhg, hph⟩ := append_field_inj (by simp) hrs
    rw [u32Be_inj hie, u64Be_inj hhg, phaseTag_inj (List.cons.inj hph).1]
  case fork.fork height forkHash height' forkHash' =>
    obtain ⟨hhg, hhs⟩ := append_field_inj (by simp) h
    rw [u64Be_inj hhg, toList_inj.mp hhs]
  case postRoot.postRoot blockHash blockHash' => exact congrArg postRoot (toList_inj.mp h)
  case blockNumber.blockNumber n n' => exact congrArg blockNumber (u64Be_inj h)
  case head.head => rfl
  case headHash.headHash => rfl

lemma key_inj : Function.Injective key := by
  intro r r' h
  have hk := (h ▸ r.key_kind).unique r'.key_kind
  rw [key_eq, key_eq, hk] at h
  exact suffix_inj hk (List.append_cancel_left h)

end MetaRecord

inductive MetaScan where
  | stakes
  | elections
  | proposals
  | votes (id : UInt64)
  | slashings
  | forks

namespace MetaScan

def kind : MetaScan → MetaKind
  | .stakes => .stake
  | .elections => .election
  | .proposals => .proposal
  | .votes _ => .vote
  | .slashings => .slash
  | .forks => .fork

def scanned : MetaScan → Bytes
  | .stakes => StakeTable.KEY_PREFIX
  | .elections => Dpos.KEY_PREFIX
  | .proposals => Governance.PROP_PREFIX
  | .votes id => Governance.VOTE_PREFIX ++ u64Be id
  | .slashings => META_KEY_SLASH_PREFIX
  | .forks => META_KEY_FORK_PREFIX

lemma keyPrefix_scanned (scan : MetaScan) : scan.kind.keyPrefix <+: scan.scanned := by
  cases scan with
  | votes => exact List.prefix_append _ _
  | _ => exact List.prefix_refl _

lemma kind_of_scanned {scan : MetaScan} {r : MetaRecord} (h : scan.scanned <+: r.key) :
    r.kind = scan.kind :=
  r.key_kind.unique ⟨rfl, scan.keyPrefix_scanned.trans h⟩

end MetaScan

/-! ## Writes -/

/-- The functions that write the column family. -/
inductive MetaOp where
  | stake (call : StakeCall)
  | register (addr : Address) (keys : ValidatorKeys)
  | persistValidatorSet (epoch : UInt64) (set : List ValidatorEntry)
  | propose (proposer : Address) (title : Bytes) (votingEndsAt : UInt64)
  | castVote (id : UInt64) (voter : Address) (support : Bool) (blockHeight : UInt64)
  | tally (id : UInt64) (blockHeight : UInt64)
  | recordSlashing (ev : Bft.EquivocationEvidence)
  | recordFork (height : UInt64) (canonical forkHash : H256)
  | persistPostRoots (blockHash stateRoot receiptsRoot : H256) (bloom : Bloom)
  | persistBlock (block : Block)
  | setHead (blocks : BlockStore) (n : UInt64)

namespace MetaOp

/-- The store after the call; a call that fails leaves it. -/
def exec (c : Crypto) (b : Backend) : MetaOp → Backend
  | .stake call => call.exec b
  | .register addr keys => ValidatorRegistry.register b addr keys
  | .persistValidatorSet epoch set => Dpos.persistValidatorSet b epoch set
  | .propose proposer title ends => (Governance.propose b proposer title ends).1
  | .castVote id voter support height =>
    ((Governance.castVote b id voter support height).toOption.map Prod.fst).getD b
  | .tally id height => ((Governance.tally b id height).toOption.map Prod.fst).getD b
  | .recordSlashing ev => Node.recordSlashing b ev
  | .recordFork height canonical forkHash => Node.recordFork b height canonical forkHash
  | .persistPostRoots blockHash stateRoot receiptsRoot bloom =>
    Node.persistPostRoots b blockHash stateRoot receiptsRoot bloom
  | .persistBlock block => Node.persistBlock c b block
  | .setHead blocks n => (Node.setHead ⟨0, b, blocks⟩ n).backend

/-- The kinds of records the call may write. -/
def writes : MetaOp → List MetaKind
  | .stake _ => [.stake]
  | .register _ _ => [.validatorKey]
  | .persistValidatorSet _ _ => [.election]
  | .propose _ _ _ => [.proposal]
  | .castVote _ _ _ _ => [.vote]
  | .tally _ _ => [.proposal, .tally]
  | .recordSlashing _ => [.slash]
  | .recordFork _ _ _ => [.fork]
  | .persistPostRoots _ _ _ _ => [.postRoot]
  | .persistBlock _ => [.blockNumber]
  | .setHead _ _ => [.head, .headHash]

end MetaOp

section Writes

variable {b : Backend} {kind : MetaKind}

lemma not_key_of_ne {r : MetaRecord} (h : kind ≠ r.kind) : ¬ kind.Key .metaCf r.key :=
  fun hk => h (hk.unique r.key_kind)

lemma agree_put_record (r : MetaRecord) (v : Bytes) (h : kind ≠ r.kind) :
    Backend.AgreeOn kind.Key (b.put .metaCf r.key v) b :=
  .put_outside (not_key_of_ne h)

lemma agree_delete_record (r : MetaRecord) (h : kind ≠ r.kind) :
    Backend.AgreeOn kind.Key (b.delete .metaCf r.key) b := by
  intro cf k hk
  refine Backend.get_delete_ne ?_
  rintro rfl rfl
  exact not_key_of_ne h hk

lemma stakeCall_agree (b : Backend) (call : StakeCall) (h : kind ≠ .stake) :
    Backend.AgreeOn kind.Key (call.exec b) b := by
  have hsp := step_exec b call
  generalize call.exec b = b' at hsp
  obtain ⟨addr, op⟩ := call
  cases hsp with
  | bond | beginUnbond | slash => exact agree_put_record (.stake addr) _ h
  | sweep => exact agree_delete_record (.stake addr) h
  | noRecord | early => exact .refl b

lemma castVote_agree_other (id : UInt64) (voter : Address) (support : Bool) (height : UInt64)
    (h : kind ≠ .vote) : Backend.AgreeOn kind.Key
      (((castVote b id voter support height).toOption.map Prod.fst).getD b) b := by
  cases hvt : castVote b id voter support height with
  | error => exact .refl b
  | ok out =>
    obtain ⟨b', vote⟩ := out
    rw [castVote_ok hvt]
    exact agree_put_record (.vote id voter) _ h

lemma tally_agree_other (id height : UInt64) (hpp : kind ≠ .proposal) (hty : kind ≠ .tally) :
    Backend.AgreeOn kind.Key (((tally b id height).toOption.map Prod.fst).getD b) b := by
  unfold tally
  cases get b id with
  | none => exact .refl b
  | some =>
    dsimp only
    split_ifs
    · exact .refl b
    · exact .refl b
    · exact (agree_put_record (.tally id) _ hty).trans (agree_put_record (.proposal id) _ hpp)

lemma MetaOp.exec_agree (c : Crypto) (b : Backend) (op : MetaOp) (h : kind ∉ op.writes) :
    Backend.AgreeOn kind.Key (op.exec c b) b := by
  have hne : ∀ kind' ∈ op.writes, kind ≠ kind' := by
    rintro kind' hm rfl
    exact h hm
  cases op with
  | stake call => exact stakeCall_agree b call (hne _ List.mem_cons_self)
  | register addr =>
    exact agree_put_record (.validatorKey addr) _ (hne _ List.mem_cons_self)
  | persistValidatorSet epoch =>
    exact agree_put_record (.election epoch) _ (hne _ List.mem_cons_self)
  | propose =>
    exact agree_put_record (.proposal (nextId b)) _ (hne _ List.mem_cons_self)
  | castVote id voter support height =>
    exact castVote_agree_other id voter support height (hne _ List.mem_cons_self)
  | tally id height =>
    exact tally_agree_other id height (hne _ List.mem_cons_self)
      (hne _ (List.mem_cons_of_mem _ List.mem_cons_self))
  | recordSlashing ev =>
    exact agree_put_record (.slash ev.validatorIndex ev.height ev.phase) _
      (hne _ List.mem_cons_self)
  | recordFork height _ forkHash =>
    exact agree_put_record (.fork height forkHash) _ (hne _ List.mem_cons_self)
  | persistPostRoots blockHash =>
    exact agree_put_record (.postRoot blockHash) _ (hne _ List.mem_cons_self)
  | persistBlock block =>
    rintro cf k ⟨rfl, hk⟩
    refine persistBlock_meta (fun hn => hne .blockNumber List.mem_cons_self ?_) b block
    exact MetaKind.Key.unique (⟨rfl, hk⟩ : kind.Key .metaCf k) ⟨rfl, hn⟩
  | setHead _ n =>
    exact setHead_agree (not_key_of_ne (r := .head) (hne _ List.mem_cons_self))
      (not_key_of_ne (r := .headHash) (hne _ (List.mem_cons_of_mem _ List.mem_cons_self))) _ n

end Writes

def SameReads (b b' : Backend) : MetaKind → Prop
  | .stake =>
    (∀ addr, StakeTable.get b' addr = StakeTable.get b addr) ∧
      StakeTable.listAll b' = StakeTable.listAll b ∧
      StakeTable.totalBonded b' = StakeTable.totalBonded b
  | .validatorKey => ∀ addr, ValidatorRegistry.get b' addr = ValidatorRegistry.get b addr
  | .election =>
    (∀ epoch, Dpos.readValidatorSet b' epoch = Dpos.readValidatorSet b epoch) ∧
      Dpos.latestValidatorSet b' = Dpos.latestValidatorSet b
  | .proposal =>
    (∀ id, Governance.get b' id = Governance.get b id) ∧
      Governance.nextId b' = Governance.nextId b ∧ Governance.listAll b' = Governance.listAll b
  | .vote => ∀ id, Governance.votesOn b' id = Governance.votesOn b id
  | .tally => ∀ id, Governance.tallyOf b' id = Governance.tallyOf b id
  | .slash => listSlashings b' = listSlashings b
  | .fork => listForks b' = listForks b
  | .postRoot => ∀ blockHash, postRoots b' blockHash = postRoots b blockHash
  | .blockNumber => ∀ n, b'.get .metaCf (numberKey n) = b.get .metaCf (numberKey n)
  | .head => storedHead b' = storedHead b
  | .headHash => b'.get .metaCf META_KEY_HEAD_HASH = b.get .metaCf META_KEY_HEAD_HASH

section Reads

variable {b b' : Backend} {kind : MetaKind}

lemma sameReads_of_agree (h : Backend.AgreeOn kind.Key b' b) : SameReads b b' kind := by
  have hrc : ∀ r : MetaRecord, r.kind = kind → b'.get .metaCf r.key = b.get .metaCf r.key := by
    rintro r rfl
    exact h .metaCf r.key r.key_kind
  have hsc : ∀ pre, kind.keyPrefix <+: pre →
      b'.iterPrefix .metaCf pre = b.iterPrefix .metaCf pre := by
    intro pre hp
    exact h.iterPrefix fun k hk => ⟨rfl, hp.trans hk⟩
  cases kind with
  | stake =>
    have hls := listAll_congr fun k hk => h .metaCf k ⟨rfl, hk⟩
    refine ⟨stake_congr h, hls, ?_⟩
    rw [totalBonded, hls, totalBonded]
  | validatorKey =>
    intro addr
    have hg : b'.get .metaCf (ValidatorRegistry.key addr) = _ := hrc (.validatorKey addr) rfl
    rw [ValidatorRegistry.get, hg]
    rfl
  | election =>
    exact ⟨Dpos.readValidatorSet_congr h fun k hk => ⟨rfl, hk⟩,
      Dpos.latestValidatorSet_congr h fun k hk => ⟨rfl, hk⟩⟩
  | proposal =>
    refine ⟨get_congr h, Governance.nextId_congr h, ?_⟩
    rw [Governance.listAll, hsc Governance.PROP_PREFIX (List.prefix_refl _), Governance.listAll]
  | vote => exact Governance.votesOn_agree h
  | tally => exact Governance.tallyOf_congr h
  | slash =>
    change listSlashings b' = listSlashings b
    rw [listSlashings, hsc META_KEY_SLASH_PREFIX (List.prefix_refl _), listSlashings]
  | fork =>
    change listForks b' = listForks b
    rw [listForks, hsc META_KEY_FORK_PREFIX (List.prefix_refl _), listForks]
  | postRoot =>
    intro blockHash
    have hg : b'.get .metaCf (META_KEY_POSTROOT_PREFIX ++ blockHash.toList) = _ :=
      hrc (.postRoot blockHash) rfl
    rw [postRoots, hg]
    rfl
  | blockNumber => exact fun n => hrc (.blockNumber n) rfl
  | head =>
    have hg : b'.get .metaCf META_KEY_HEAD = _ := hrc .head rfl
    change storedHead b' = storedHead b
    rw [storedHead, hg]
    rfl
  | headHash => exact hrc .headHash rfl

end Reads

/-- **Metadata stores do not interfere**. -/
theorem meta_stores_disjoint (c : Crypto) : Function.Injective MetaRecord.key ∧
      (∀ (b : Backend) (scan : MetaScan) (r : MetaRecord) (v : Bytes),
        (r.key, v) ∈ b.iterPrefix .metaCf scan.scanned → r.kind = scan.kind) ∧
      ∀ (b : Backend) (op : MetaOp) (kind : MetaKind), kind ∈ op.writes ∨
        (∀ r : MetaRecord, r.kind = kind → (op.exec c b).get .metaCf r.key = b.get .metaCf r.key) ∧
          SameReads b (op.exec c b) kind := by
  refine ⟨MetaRecord.key_inj, ?_, ?_⟩
  · intro b scan r v hm
    exact MetaScan.kind_of_scanned (Backend.mem_iterPrefix.mp hm).2
  · intro b op kind
    by_cases hw : kind ∈ op.writes
    · exact .inl hw
    · have hag := op.exec_agree c b hw
      refine .inr ⟨?_, sameReads_of_agree hag⟩
      rintro r rfl
      exact hag .metaCf r.key r.key_kind

end Aii.Node
