/-
Aii.Node.Governance — proposals, votes and tallies
(`aii-node/src/governance.rs`).

A vote is weighted when it is cast, and compared with the stake bonded at
the tally.
-/
import Aii.Node.Staking

namespace Aii.Node

open Common List Backend UInt64

/-! ## UTF-8 -/

/-- `core::str::Utf8Error`: where the valid part ends, and how many bytes
are wrong there (`none`: the input ends too early). -/
structure Utf8Error where
  validUpTo : Nat
  errorLen : Option Nat
  deriving DecidableEq

def Utf8Error.text (e : Utf8Error) : String :=
  match e.errorLen with
  | some n => "invalid utf-8 sequence of " ++ toString n ++ " bytes from index " ++
      toString e.validUpTo
  | none => "incomplete utf-8 byte sequence from index " ++ toString e.validUpTo

def isContinuation (b : UInt8) : Bool := 0x80 ≤ b && b ≤ 0xBF

/-- The range of the second byte of a sequence that starts with `first`. -/
def secondByteRange (first : UInt8) : Option (UInt8 × UInt8) :=
  if 0xC2 ≤ first ∧ first ≤ 0xDF then some (0x80, 0xBF)
  else if first = 0xE0 then some (0xA0, 0xBF)
  else if first = 0xED then some (0x80, 0x9F)
  else if 0xE1 ≤ first ∧ first ≤ 0xEF then some (0x80, 0xBF)
  else if first = 0xF0 then some (0x90, 0xBF)
  else if 0xF1 ≤ first ∧ first ≤ 0xF3 then some (0x80, 0xBF)
  else if first = 0xF4 then some (0x80, 0x8F)
  else none

/-- Check the bytes after the second one: `k` continuations, the next of
which is byte number `i` of the sequence. Gives what is left. -/
def continuations : Nat → Nat → Bytes → Except (Option Nat) Bytes
  | 0, _, bs => .ok bs
  | _ + 1, _, [] => .error none
  | k + 1, i, b :: bs => if isContinuation b then continuations k (i + 1) bs else .error (some i)

/-- One character: what is left after it. -/
def utf8Char (first : UInt8) (rest : Bytes) : Except (Option Nat) Bytes :=
  if first < 0x80 then .ok rest
  else
    match secondByteRange first with
    | none => .error (some 1)
    | some (lo, hi) =>
      match rest with
      | [] => .error none
      | second :: rest =>
        if lo ≤ second ∧ second ≤ hi then
          continuations (if first < 0xE0 then 0 else if first < 0xF0 then 1 else 2) 2 rest
        else .error (some 1)

/-- The check, at position `pos`; every character takes a byte, so the
length of the input is enough fuel. -/
def utf8From : Nat → Nat → Bytes → Option Utf8Error
  | _, _, [] => none
  | 0, pos, _ :: _ => some ⟨pos, none⟩
  | fuel + 1, pos, first :: rest =>
    match utf8Char first rest with
    | .error n => some ⟨pos, n⟩
    | .ok left => utf8From fuel (pos + (rest.length + 1 - left.length)) left

/-- `str::from_utf8`: the error, if the bytes are not valid UTF-8. -/
def utf8Error? (bs : Bytes) : Option Utf8Error := utf8From bs.length 0 bs

/-! ## Records -/

inductive ProposalStatus where
  | pending
  | passed
  | rejected
  | executed
  deriving DecidableEq

def ProposalStatus.asByte : ProposalStatus → UInt8
  | .pending => 0
  | .passed => 1
  | .rejected => 2
  | .executed => 3

/-- `from_byte`: an unknown byte reads as pending. -/
def ProposalStatus.fromByte (b : UInt8) : ProposalStatus :=
  if b = 1 then .passed else if b = 2 then .rejected else if b = 3 then .executed else .pending

/-- `Proposal`. -/
structure GovProposal where
  id : UInt64
  title : Bytes
  votingEndsAt : UInt64
  status : ProposalStatus
  proposer : Address
  deriving DecidableEq

/-- `Vote`. -/
structure GovVote where
  proposalId : UInt64
  voter : Address
  support : Bool
  weightWei : U256
  deriving DecidableEq

namespace Governance

def PROP_PREFIX : Bytes := ascii ['p', 'r', 'o', 'p', ':']

def VOTE_PREFIX : Bytes := ascii ['v', 'o', 't', 'e', ':']

def TALLY_PREFIX : Bytes := ascii ['t', 'a', 'l', 'l', 'y', ':']

def propKey (id : UInt64) : Bytes := PROP_PREFIX ++ u64Be id

def voteKey (id : UInt64) (voter : Address) : Bytes := VOTE_PREFIX ++ u64Be id ++ voter.toList

def tallyKey (id : UInt64) : Bytes := TALLY_PREFIX ++ u64Be id

/-- `encode_proposal`; a title that does not fit a `u32` length is written
with the largest one. -/
def encodeProposal (p : GovProposal) : Bytes :=
  u64Be p.id ++ u64Be p.votingEndsAt ++ [p.status.asByte] ++ p.proposer.toList ++
    toBe 4 (min p.title.length (2 ^ 32 - 1)) ++ p.title

def decodeProposal (bytes : Bytes) : Option GovProposal :=
  if bytes.length < 8 + 8 + 1 + 20 + 4 then none
  else
    let titleLen := ofBe ((bytes.drop 37).take 4)
    let title := (bytes.drop 41).take titleLen
    if bytes.length < 41 + titleLen then none
    else if (utf8Error? title).isSome then none
    else
      (arr? 20 ((bytes.drop 17).take 20)).map fun proposer =>
        { id := u64OfBe (bytes.take 8)
          title := title
          votingEndsAt := u64OfBe ((bytes.drop 8).take 8)
          status := .fromByte (bytes.getD 16 0)
          proposer := proposer }

def encodeVote (v : GovVote) : Bytes :=
  (if v.support then 1 else 0) :: toBe 32 v.weightWei.toNat

def decodeVote (proposalId : UInt64) (voter : Address) (bytes : Bytes) : Option GovVote :=
  if bytes.length ≠ 1 + 32 then none
  else
    some ⟨proposalId, voter, bytes.getD 0 0 != 0, BitVec.ofNat 256 (ofBe (bytes.drop 1))⟩

/-- `next_id`: one above the largest id on record, in `u64`. -/
def nextId (b : Backend) : UInt64 :=
  let ids := (b.iterPrefix .metaCf PROP_PREFIX).filterMap fun e =>
    let suffix := e.1.drop PROP_PREFIX.length
    if suffix.length ≠ 8 then none else some (u64OfBe suffix)
  ids.foldl (fun m id => if m < id then id else m) 0 + 1

/-- `propose`: the assigned id. -/
def propose (b : Backend) (proposer : Address) (title : Bytes) (votingEndsAt : UInt64) :
    Backend × UInt64 :=
  let id := nextId b
  (b.put .metaCf (propKey id) (encodeProposal ⟨id, title, votingEndsAt, .pending, proposer⟩), id)

def get (b : Backend) (id : UInt64) : Option GovProposal :=
  (b.get .metaCf (propKey id)).bind decodeProposal

def hexEncode (bs : Bytes) : String :=
  String.ofList (bs.flatMap fun b => [Nat.digitChar (b.toNat / 16), Nat.digitChar (b.toNat % 16)])

def castVote (b : Backend) (id : UInt64) (voter : Address) (support : Bool)
    (blockHeight : UInt64) : Except String (Backend × GovVote) :=
  match get b id with
  | none => .error ("proposal " ++ toString id.toNat ++ " not found")
  | some p =>
    if p.votingEndsAt ≤ blockHeight then
      .error ("proposal " ++ toString id.toNat ++ " voting window closed at " ++
        toString p.votingEndsAt.toNat)
    else
      match StakeTable.get b voter with
      | none => .error ("voter " ++ hexEncode voter.toList ++ " has no bonded stake")
      | some stake =>
        if !stake.isBonded then .error "voter is unbonding — no vote weight"
        else
          let vote : GovVote := ⟨id, voter, support, stake.amountWei⟩
          .ok (b.put .metaCf (voteKey id voter) (encodeVote vote), vote)

/-- The votes the scan of `tally` reads. -/
def votesOn (b : Backend) (id : UInt64) : List GovVote :=
  let votePrefix := VOTE_PREFIX ++ u64Be id
  (b.iterPrefix .metaCf votePrefix).filterMap fun e =>
    (arr? 20 (e.1.drop votePrefix.length)).bind fun voter => decodeVote id voter e.2

/-- The loop of `tally`: the yes sum and the no sum. -/
def countVotes (votes : List GovVote) : U256 × U256 :=
  votes.foldl (fun sums vote =>
    if vote.support then (satAdd256 sums.1 vote.weightWei, sums.2)
    else (sums.1, satAdd256 sums.2 vote.weightWei)) (0, 0)

/-- The pass condition of `tally`. -/
def passes (yes total : U256) : Bool :=
  (satMul256 total 2).toNat < (satMul256 yes 3).toNat && total != 0

/-- The status `tally` gives a proposal whose window is over. -/
def finalStatus (b : Backend) (id : UInt64) : ProposalStatus :=
  if passes (countVotes (votesOn b id)).1 (StakeTable.totalBonded b) then .passed else .rejected

/-- What `tally` writes then: the record with its status, and the sums. -/
def finish (b : Backend) (id : UInt64) (p : GovProposal) : Backend :=
  let sums := countVotes (votesOn b id)
  (b.put .metaCf (propKey id) (encodeProposal { p with status := finalStatus b id })).put .metaCf
    (tallyKey id) (toBe 32 sums.1.toNat ++ toBe 32 sums.2.toNat)

def tally (b : Backend) (id : UInt64) (blockHeight : UInt64) :
    Except String (Backend × ProposalStatus) :=
  match get b id with
  | none => .error ("proposal " ++ toString id.toNat ++ " not found")
  | some p =>
    if p.status = .passed ∨ p.status = .rejected ∨ p.status = .executed then .ok (b, p.status)
    else if blockHeight < p.votingEndsAt then .ok (b, p.status)
    else .ok (finish b id p, finalStatus b id)

def tallyOf (b : Backend) (id : UInt64) : Option (U256 × U256) :=
  (b.get .metaCf (tallyKey id)).bind fun bytes =>
    if bytes.length ≠ 64 then none
    else
      some (BitVec.ofNat 256 (ofBe (bytes.take 32)), BitVec.ofNat 256 (ofBe (bytes.drop 32)))

def listAll (b : Backend) : List GovProposal :=
  (b.iterPrefix .metaCf PROP_PREFIX).filterMap fun e => decodeProposal e.2

lemma decodeVote_encodeVote (vote : GovVote) :
    decodeVote vote.proposalId vote.voter (encodeVote vote) = some vote := by
  have hl : (encodeVote vote).length = 1 + 32 := by simp [encodeVote, Nat.add_comm]
  have hsu : ((encodeVote vote).getD 0 0 != 0) = vote.support := by
    cases hs : vote.support <;> simp [encodeVote, hs]
  have hw : (encodeVote vote).drop 1 = toBe 32 vote.weightWei.toNat := rfl
  rw [decodeVote, if_neg (not_not.mpr hl), hsu, hw, ofNat_ofBe_toBe]

lemma fromByte_asByte (status : ProposalStatus) : .fromByte status.asByte = status := by
  cases status <;> decide

/-- The title as the record gives it back: a longer one is cut off. -/
def keptTitle (title : Bytes) : Bytes := title.take (min title.length (2 ^ 32 - 1))

lemma decodeProposal_encodeProposal (p : GovProposal) :
    decodeProposal (encodeProposal p) = if (utf8Error? (keptTitle p.title)).isSome then none
      else some { p with title := keptTitle p.title } := by
  have hl : (encodeProposal p).length = 41 + p.title.length := by
    simp only [encodeProposal, length_append, u64Be_length, length_singleton,
      length_toList, toBe_length]
  have ht : ofBe (((encodeProposal p).drop 37).take 4) = min p.title.length (2 ^ 32 - 1) := by
    have hdp : (encodeProposal p).drop 37 =
        toBe 4 (min p.title.length (2 ^ 32 - 1)) ++ p.title := by
      rw [encodeProposal, append_assoc]
      exact drop_left' (by simp)
    rw [hdp, take_left' (toBe_length 4 _), ofBe_toBe_of_lt]
    exact (Nat.min_le_right _ _).trans_lt (by decide)
  have htt : (encodeProposal p).drop 41 = p.title := drop_left' (by simp)
  have hp : ((encodeProposal p).drop 17).take 20 = p.proposer.toList := by
    have hdp : (encodeProposal p).drop 17 =
        p.proposer.toList ++ (toBe 4 (min p.title.length (2 ^ 32 - 1)) ++ p.title) := by
      rw [encodeProposal, append_assoc, append_assoc]
      exact drop_left' (by simp)
    rw [hdp, take_left' (length_toList _)]
  have hid : (encodeProposal p).take 8 = u64Be p.id := by
    simp only [encodeProposal, append_assoc]
    exact take_left' (u64Be_length _)
  have he : ((encodeProposal p).drop 8).take 8 = u64Be p.votingEndsAt := by
    simp only [encodeProposal, append_assoc]
    rw [drop_left' (u64Be_length _), take_left' (u64Be_length _)]
  have hs : (encodeProposal p).getD 16 0 = p.status.asByte := by
    simp [encodeProposal, getD_eq_getElem?_getD, getElem?_append]
  have hfi : ¬ 41 + p.title.length < 41 + min p.title.length (2 ^ 32 - 1) := by omega
  rw [decodeProposal, if_neg (by rw [hl]; omega)]
  simp only [hl, ht, htt, hp, hid, he, hs, arr?_toList, if_neg hfi,
    u64OfBe_u64Be, fromByte_asByte, Option.map_some]
  rfl

variable {id id' : UInt64} {bytes : Bytes} {vote : GovVote} {f g : Family} {k : Bytes}
  {p : GovProposal} {voter : Address}

lemma keptTitle_of_decode (h : decodeProposal bytes = some p) :
    keptTitle p.title = p.title ∧ (utf8Error? p.title).isSome = false := by
  unfold decodeProposal at h
  dsimp only at h
  split_ifs at h with hsh hc hu
  obtain ⟨_, -, rfl⟩ := Option.map_eq_some_iff.mp h
  refine ⟨take_of_length_le ?_, by simpa using hu⟩
  have hfd : ((bytes.drop 37).take 4).length = 4 := by
    rw [length_take, length_drop]
    omega
  have hlt := ofBe_lt ((bytes.drop 37).take 4)
  rw [hfd] at hlt
  rw [length_take, length_drop]
  omega

/-! ## Keys -/

lemma propKey_inj (h : propKey id = propKey id') : id = id' := u64Be_inj (append_cancel_left h)

lemma tallyKey_inj (h : tallyKey id = tallyKey id') : id = id' := u64Be_inj (append_cancel_left h)

lemma voteKey_inj {voter' : Address} (h : voteKey id voter = voteKey id' voter') :
    id = id' ∧ voter = voter' := by
  rw [voteKey, voteKey, append_assoc, append_assoc] at h
  obtain ⟨hid, hvr⟩ := append_field_inj (by simp) (append_cancel_left h)
  exact ⟨u64Be_inj hid, toList_inj.mp hvr⟩

/-- The three families of records, and the stake table. -/
inductive Family where
  | prop
  | vote
  | tally
  | stake
  deriving DecidableEq

def Family.keyPrefix : Family → Bytes
  | .prop => PROP_PREFIX
  | .vote => VOTE_PREFIX
  | .tally => TALLY_PREFIX
  | .stake => StakeTable.KEY_PREFIX

def Family.Key (f : Family) (cf : ColumnFamily) (k : Bytes) : Prop :=
  cf = .metaCf ∧ f.keyPrefix <+: k

lemma propKey_family (id : UInt64) : Family.prop.Key .metaCf (propKey id) :=
  ⟨rfl, prefix_append _ _⟩

lemma voteKey_family (id : UInt64) (voter : Address) :
    Family.vote.Key .metaCf (voteKey id voter) := by
  refine ⟨rfl, ?_⟩
  rw [voteKey, append_assoc]
  exact prefix_append _ _

lemma tallyKey_family (id : UInt64) : Family.tally.Key .metaCf (tallyKey id) :=
  ⟨rfl, prefix_append _ _⟩

lemma stakeKey_family (addr : Address) : Family.stake.Key .metaCf (StakeTable.key addr) :=
  ⟨rfl, prefix_append _ _⟩

lemma Family.Key.unique {cf : ColumnFamily} (hf : f.Key cf k) (hg : g.Key cf k) : f = g := by
  have haa : ∀ f g : Family, f ≠ g → Apart f.keyPrefix g.keyPrefix := by
    rintro (_ | _ | _ | _) (_ | _ | _ | _) <;> decide
  by_contra hne
  exact prefix_excludes hf.2 (haa f g hne) hg.2

variable {b b' : Backend}

lemma agree_put {v : Bytes} (hk : f.Key .metaCf k) (hne : g ≠ f) :
    Backend.AgreeOn g.Key (b.put .metaCf k v) b :=
  .put_outside fun hg => hne (hg.unique hk)

lemma agree_delete (hk : f.Key .metaCf k) (hne : g ≠ f) :
    Backend.AgreeOn g.Key (b.delete .metaCf k) b := by
  intro cf k' hk'
  refine get_delete_ne ?_
  rintro rfl rfl
  exact hne (hk'.unique hk)

lemma get_congr (h : Backend.AgreeOn Family.prop.Key b' b) (id : UInt64) :
    get b' id = get b id := by
  rw [get, h _ _ (propKey_family id), get]

lemma nextId_congr (h : Backend.AgreeOn Family.prop.Key b' b) : nextId b' = nextId b := by
  have hsc : b'.iterPrefix .metaCf PROP_PREFIX = b.iterPrefix .metaCf PROP_PREFIX :=
    h.iterPrefix fun k hk => ⟨rfl, hk⟩
  rw [nextId, hsc, nextId]

lemma votesOn_congr
    (h : ∀ k, VOTE_PREFIX ++ u64Be id <+: k → b'.get .metaCf k = b.get .metaCf k) :
    votesOn b' id = votesOn b id := by
  have hsc : b'.iterPrefix .metaCf (VOTE_PREFIX ++ u64Be id) =
      b.iterPrefix .metaCf (VOTE_PREFIX ++ u64Be id) :=
    OrderedMap.entriesWhere_congr fun k hk => h k <| isPrefixOf_iff_prefix.mp hk
  rw [votesOn, hsc, votesOn]

lemma votesOn_agree (h : Backend.AgreeOn Family.vote.Key b' b) (id : UInt64) :
    votesOn b' id = votesOn b id :=
  votesOn_congr fun k hk => h _ k ⟨rfl, (prefix_append _ _).trans hk⟩

lemma tallyOf_congr (h : Backend.AgreeOn Family.tally.Key b' b) (id : UInt64) :
    tallyOf b' id = tallyOf b id := by
  rw [tallyOf, h _ _ (tallyKey_family id), tallyOf]

lemma stake_congr (h : Backend.AgreeOn Family.stake.Key b' b) (addr : Address) :
    StakeTable.get b' addr = StakeTable.get b addr := by
  rw [StakeTable.get, h _ _ (stakeKey_family addr), StakeTable.get]

/-! ## Reads after writes -/

lemma get_put_prop_self (id : UInt64) (p : GovProposal) :
    get (b.put .metaCf (propKey id) (encodeProposal p)) id = decodeProposal (encodeProposal p) := by
  rw [get, get_put_self, Option.bind_some]

lemma get_put_prop_ne (v : Bytes) (h : id' ≠ id) :
    get (b.put .metaCf (propKey id) v) id' = get b id' := by
  rw [get, get_put_ne fun _ heq => h (propKey_inj heq), get]

lemma votesOn_put_vote_ne (voter : Address) (v : Bytes) (h : id' ≠ id) :
    votesOn (b.put .metaCf (voteKey id voter) v) id' = votesOn b id' := by
  refine votesOn_congr fun k hk => get_put_ne fun _ heq => h ?_
  obtain ⟨_, rfl⟩ := hk
  rw [voteKey, append_assoc, append_assoc] at heq
  exact u64Be_inj (append_field_inj (by simp) (append_cancel_left heq)).1

section Finish

variable {id : UInt64} {p : GovProposal}

lemma get_finish_self (h : get b id = some p) :
    get (finish b id p) id = some { p with status := finalStatus b id } := by
  obtain ⟨_, -, hbt⟩ := Option.bind_eq_some_iff.mp h
  obtain ⟨hkp, hu⟩ := keptTitle_of_decode hbt
  rw [finish, get_congr (agree_put (tallyKey_family id) (by decide)), get_put_prop_self,
    decodeProposal_encodeProposal, hkp, hu]
  rfl

lemma get_finish_ne {id' : UInt64} (h : id' ≠ id) : get (finish b id p) id' = get b id' := by
  rw [finish, get_congr (agree_put (tallyKey_family id) (by decide)), get_put_prop_ne _ h]

lemma tallyOf_finish_self : tallyOf (finish b id p) id = some (countVotes (votesOn b id)) := by
  rw [finish, tallyOf, get_put_self, Option.bind_some, if_neg (by simp),
    take_left' (toBe_length 32 _), drop_left' (toBe_length 32 _), ofNat_ofBe_toBe, ofNat_ofBe_toBe]

lemma tallyOf_finish_ne {id' : UInt64} (h : id' ≠ id) :
    tallyOf (finish b id p) id' = tallyOf b id' := by
  have hpp := tallyOf_congr (b := b) (agree_put (propKey_family id) (by decide)
    (v := encodeProposal { p with status := finalStatus b id })) id'
  rw [← hpp, finish, tallyOf, get_put_ne fun _ heq => h (tallyKey_inj heq), tallyOf]

lemma finish_agree {f : Family} (hpp : f ≠ .prop) (hty : f ≠ .tally) :
    Backend.AgreeOn f.Key (finish b id p) b :=
  (agree_put (tallyKey_family id) hty).trans (agree_put (propKey_family id) hpp)

end Finish

/-! ## Scans -/

def voteAt (b : Backend) (id : UInt64) (voter : Address) : Option GovVote :=
  (b.get .metaCf (voteKey id voter)).bind (decodeVote id voter)

lemma decodeVote_names (h : decodeVote id voter bytes = some vote) :
    vote.proposalId = id ∧ vote.voter = voter := by
  unfold decodeVote at h
  split_ifs at h
  cases h
  exact ⟨rfl, rfl⟩

lemma entry_of_read {e : Bytes × Bytes} (hm : e ∈ b.iterPrefix .metaCf (VOTE_PREFIX ++ u64Be id))
    (hread : ((arr? 20 (e.1.drop (VOTE_PREFIX ++ u64Be id).length)).bind fun voter =>
      decodeVote id voter e.2) = some vote) :
    e.1 = voteKey id vote.voter ∧ decodeVote id vote.voter e.2 = some vote := by
  obtain ⟨-, _, hk⟩ := mem_iterPrefix.mp hm
  obtain ⟨_, hvr, hvt⟩ := Option.bind_eq_some_iff.mp hread
  rw [← hk, drop_left' rfl, arr?_eq_some_iff] at hvr
  obtain rfl := (decodeVote_names hvt).2
  exact ⟨by rw [← hk, ← hvr, voteKey], hvt⟩

lemma mem_votesOn : vote ∈ votesOn b id ↔ voteAt b id vote.voter = some vote := by
  rw [votesOn, mem_filterMap]
  constructor
  · rintro ⟨e, hm, hread⟩
    obtain ⟨hk, hvt⟩ := entry_of_read hm hread
    rw [voteAt, ← hk, (mem_iterPrefix.mp hm).1]
    exact hvt
  · intro h
    obtain ⟨v, hg, hvt⟩ := Option.bind_eq_some_iff.mp h
    refine ⟨(voteKey id vote.voter, v), mem_iterPrefix.mpr ⟨hg, prefix_append _ _⟩, ?_⟩
    rw [voteKey, drop_left' rfl, arr?_toList]
    exact hvt

lemma votesOn_distinct (b : Backend) (id : UInt64) :
    (votesOn b id).Pairwise fun v w => v.voter ≠ w.voter := by
  refine pairwise_filterMap.mpr ((b.iterPrefix_distinct _ _).imp_of_mem ?_)
  intro e e' he he' hne _ hvt _ hvt' heq
  refine hne ?_
  rw [(entry_of_read he hvt).1, (entry_of_read he' hvt').1, heq]

lemma foldl_largest (l : List UInt64) (m : UInt64) :
    (∀ x ∈ m :: l, x ≤ l.foldl (fun m id => if m < id then id else m) m) ∧
      l.foldl (fun m id => if m < id then id else m) m ∈ m :: l := by
  induction l generalizing m with
  | nil => simp
  | cons x _ ih =>
    rw [foldl_cons]
    obtain ⟨hle, hm⟩ := ih (if m < x then x else m)
    have hft := hle _ mem_cons_self
    split_ifs at hle hm hft ⊢ with hlt
    · refine ⟨?_, mem_cons_of_mem _ hm⟩
      intro y hy
      rcases mem_cons.mp hy with rfl | hy
      · exact UInt64.le_trans (UInt64.le_of_lt hlt) hft
      · exact hle y hy
    · refine ⟨?_, ?_⟩
      · intro y hy
        rcases mem_cons.mp hy with rfl | hy
        · exact hft
        · rcases mem_cons.mp hy with rfl | hy
          · exact UInt64.le_trans (UInt64.not_lt.mp hlt) hft
          · exact hle y (mem_cons_of_mem _ hy)
      · rcases mem_cons.mp hm with h | h
        · exact mem_cons.mpr (.inl h)
        · exact mem_cons_of_mem _ (mem_cons_of_mem _ h)

lemma nextId_spec (b : Backend) :
    ∃ m, nextId b = m + 1 ∧ (∀ id, (b.get .metaCf (propKey id)).isSome → id ≤ m) ∧
      (m = 0 ∨ (b.get .metaCf (propKey m)).isSome) := by
  have hsc : ∀ id, _ ↔ ∃ v, b.get .metaCf (propKey id) = some v := fun _ => mem_suffixes
  unfold nextId
  generalize (b.iterPrefix .metaCf PROP_PREFIX).filterMap _ = ids at hsc ⊢
  obtain ⟨hle, hm⟩ := foldl_largest ids 0
  refine ⟨_, rfl, fun id hid => ?_, ?_⟩
  · exact hle id (mem_cons_of_mem _ ((hsc id).mpr (Option.isSome_iff_exists.mp hid)))
  · exact (mem_cons.mp hm).imp_right fun h => Option.isSome_iff_exists.mpr ((hsc _).mp h)

def weights (support : Bool) (votes : List GovVote) : List U256 :=
  (votes.filter fun v => v.support == support).map GovVote.weightWei

lemma countVotes_eq (votes : List GovVote) :
    countVotes votes = (satSum256 0 (weights true votes), satSum256 0 (weights false votes)) := by
  have hlp : ∀ (votes : List GovVote) (sums : U256 × U256), votes.foldl (fun sums vote =>
        if vote.support then (satAdd256 sums.1 vote.weightWei, sums.2)
        else (sums.1, satAdd256 sums.2 vote.weightWei)) sums =
      (satSum256 sums.1 (weights true votes), satSum256 sums.2 (weights false votes)) := by
    intro votes
    induction votes with
    | nil => intro sums; rfl
    | cons v _ ih =>
      intro _
      rw [foldl_cons, ih]
      cases hs : v.support <;> simp [weights, hs, satSum256]
  exact hlp votes (0, 0)

def weightSum (support : Bool) (votes : List GovVote) : Nat :=
  ((weights support votes).map BitVec.toNat).sum

lemma countVotes_toNat (votes : List GovVote) :
    (countVotes votes).1.toNat = min (weightSum true votes) u256Max ∧
      (countVotes votes).2.toNat = min (weightSum false votes) u256Max := by
  rw [countVotes_eq]
  rw [satSum256_toNat, satSum256_toNat]
  simp [weightSum]

end Governance

end Aii.Node
