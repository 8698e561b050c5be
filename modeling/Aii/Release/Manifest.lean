/-
Aii.Release.Manifest — signed release manifests
(`aii-crypto/src/release.rs`, `ed25519.rs` and the checks of
`announce_release` and `poll_once` in `aii-rpc`).

The two paths on which manifests arrive check the signature in their own
way and agree.
-/
import Aii.Node.ChainBinding

namespace Aii.Release

open Common Node List UInt8

/-- `s.trim_start_matches("0x")`. -/
def trim0x : Bytes → Bytes
  | 0x30 :: 0x78 :: rest => trim0x rest
  | s => s

/-- `to_ascii_lowercase`. (`to_lowercase` differs on text that is not
hexadecimal before or after.) -/
def toAsciiLowercase (s : Bytes) : Bytes :=
  s.map fun ch => if 0x41 ≤ ch ∧ ch ≤ 0x5a then ch + 0x20 else ch

lemma hexPairs_cons_ok {index : Nat} {hi lo : UInt8} {rest bs : Bytes} :
    hexPairs index (hi :: lo :: rest) = .ok bs ↔
      ∃ h l tail, hexValue hi = some h ∧ hexValue lo = some l ∧
        hexPairs (index + 2) rest = .ok tail ∧ (h * 16 + l) :: tail = bs := by
  rw [hexPairs]
  cases hexValue hi with
  | none => simp
  | some =>
    cases hexValue lo with
    | none => simp
    | some => cases hexPairs (index + 2) rest <;> simp

lemma hexValue_digit : ∀ n < 16,
    hexValue (if ofNat n < 10 then 0x30 + ofNat n else 0x61 + (ofNat n - 10)) = some (ofNat n) := by
  decide

lemma hexPairs_hexText (bs : Bytes) (index : Nat) : hexPairs index (hexText bs) = .ok bs := by
  induction bs generalizing index with
  | nil => rfl
  | cons b bs ih =>
    have hb := b.toNat_lt
    have h16 : (16 : UInt8).toNat = 16 := rfl
    have hhh : b / 16 = ofNat (b.toNat / 16) := by simp_all
    have hl : b % 16 = ofNat (b.toNat % 16) := by simp_all
    have hbe : b / 16 * 16 + b % 16 = b := by grind
    refine hexPairs_cons_ok.mpr ⟨b / 16, b % 16, bs, ?_, ?_, ih (index + 2), by rw [hbe]⟩
    · rw [hhh]
      exact hexValue_digit _ (by omega)
    · rw [hl]
      exact hexValue_digit _ (Nat.mod_lt _ (by decide))

lemma hexText_length (bs : Bytes) : (hexText bs).length = 2 * bs.length := by
  induction bs with
  | nil => rfl
  | cons _ _ ih =>
    rw [hexText, flatMap_cons, length_append, ← hexText, ih, length_cons]
    simp
    omega

lemma hexDecode_hexText (bs : Bytes) : hexDecode (hexText bs) = .ok bs := by
  rw [hexDecode, if_neg (by rw [hexText_length]; omega), hexPairs_hexText]

lemma hexValue_lowercase (ch : UInt8) :
    hexValue (if 0x41 ≤ ch ∧ ch ≤ 0x5a then ch + 0x20 else ch) = hexValue ch := by
  have ha : ∀ n < 256, hexValue
      (if 0x41 ≤ ofNat n ∧ ofNat n ≤ 0x5a then ofNat n + 0x20
        else ofNat n) = hexValue (ofNat n) := by
    decide +kernel
  simpa using ha ch.toNat ch.toNat_lt

lemma hexPairs_lowercase : ∀ (index : Nat) (s bs : Bytes),
    hexPairs index (toAsciiLowercase s) = .ok bs ↔ hexPairs index s = .ok bs
  | _, [], _ | _, [_], _ => Iff.rfl
  | index, hi :: lo :: rest, bs => by
    have hrs := hexPairs_lowercase (index + 2) rest
    rw [toAsciiLowercase, map_cons, map_cons, hexPairs_cons_ok, hexPairs_cons_ok,
      hexValue_lowercase, hexValue_lowercase]
    simp only [← hrs, toAsciiLowercase]

lemma hexDecode_lowercase {s bs : Bytes} :
    hexDecode (toAsciiLowercase s) = .ok bs ↔ hexDecode s = .ok bs := by
  have hl : (toAsciiLowercase s).length = s.length := length_map _
  unfold hexDecode
  rw [hl]
  split_ifs
  · simp
  · exact hexPairs_lowercase 0 s bs

/-- `ReleaseManifest`. Texts are their UTF-8 bytes. -/
structure ReleaseManifest where
  version : Bytes
  sha256Hex : Bytes
  timestampUnix : UInt64
  ed25519SigHex : Bytes
  deriving DecidableEq

structure BootPending where
  version : Bytes
  preInstallHead : UInt64
  installTs : UInt64

structure ReleaseCrypto where
  /-- SHA-256. -/
  sha256 : Bytes → Arr 32
  /-- `VerifyingKey::verify`: key, message, signature. -/
  ed25519Verify : Arr 32 → Bytes → Arr 64 → Bool
  /-- `serde_json::to_vec` of the boot sentinel. -/
  bootJson : BootPending → Bytes

def DOMAIN_TAG : Bytes :=
  ascii ['a', 'i', 'i', '-', 'r', 'e', 'l', 'e', 'a', 's', 'e', '-', 'v', '1'] ++ [0]

/-- `RELEASE_SIGNING_PUBKEY_HEX`, decoded. -/
def RELEASE_SIGNING_PUBKEY : Arr 32 :=
  arrOfNat 32 0xf845c1bbf443bbf3e18f1a97599c34d39cac4a03fb22c80110f37491c92c0669

def pinnedReleasePubkeys : List (Arr 32) := [RELEASE_SIGNING_PUBKEY]

def canonicalPayload (version : Bytes) (sha256 : Arr 32) (timestampUnix : UInt64) : Bytes :=
  DOMAIN_TAG ++ version ++ [0] ++ sha256.toList ++ u64Be timestampUnix

/-- `CryptoError`, as far as the release code meets it. -/
inductive CryptoError where
  | hex (e : FromHexError)
  | badLength (expected got : Nat)
  | ed25519
  deriving DecidableEq

def signatureFromHex (s : Bytes) : Except CryptoError (Arr 64) :=
  match hexDecode (trim0x s) with
  | .error e => .error (.hex e)
  | .ok raw =>
    match arr? 64 raw with
    | some sig => .ok sig
    | none => .error (.badLength 64 raw.length)

/-- `ReleaseError`, as far as checking a signature gives it. -/
inductive ReleaseError where
  | hex (e : FromHexError)
  | length (got : Nat)
  | noPubkeys
  | crypto (e : CryptoError)
  deriving DecidableEq

variable (c : ReleaseCrypto)

def verifyManifestSignatureAny (pubkeys : List (Arr 32)) (m : ReleaseManifest) :
    Except ReleaseError Unit :=
  if pubkeys.isEmpty then .error .noPubkeys
  else
    match hexDecode (toAsciiLowercase (trim0x m.sha256Hex)) with
    | .error e => .error (.hex e)
    | .ok bytes =>
      match arr? 32 bytes with
      | none => .error (.length bytes.length)
      | some digest =>
        match signatureFromHex m.ed25519SigHex with
        | .error e => .error (.crypto e)
        | .ok sig =>
          let payload := canonicalPayload m.version digest m.timestampUnix
          if pubkeys.any (c.ed25519Verify · payload sig) then .ok ()
          else .error (.crypto .ed25519)

/-- Why `aii_announceRelease` turns a manifest down. -/
inductive AnnounceRefusal where
  | shaNotHex
  | malformedSignature (e : CryptoError)
  | notVerified (pubkeys : Nat)
  | notNewer
  deriving DecidableEq

def ReleaseManifest.digest? (m : ReleaseManifest) : Option (Arr 32) :=
  match hexDecode (trim0x m.sha256Hex) with
  | .ok bytes => arr? 32 bytes
  | .error _ => none

/-- What `announce_release` checks before it hands a manifest on. -/
def checkAnnouncement (m : ReleaseManifest) : Except AnnounceRefusal Unit :=
  match m.digest? with
  | none => .error .shaNotHex
  | some sha =>
    let payload := canonicalPayload m.version sha m.timestampUnix
    match signatureFromHex m.ed25519SigHex with
    | .error e => .error (.malformedSignature e)
    | .ok sig =>
      if pinnedReleasePubkeys.any (c.ed25519Verify · payload sig) then .ok ()
      else .error (.notVerified pinnedReleasePubkeys.length)

def ReleaseManifest.Verified (m : ReleaseManifest) : Prop :=
  ∃ digest sig, m.digest? = some digest ∧ signatureFromHex m.ed25519SigHex = .ok sig ∧
    ∃ key ∈ pinnedReleasePubkeys,
      c.ed25519Verify key (canonicalPayload m.version digest m.timestampUnix) sig = true

lemma checkAnnouncement_ok_iff (m : ReleaseManifest) :
    checkAnnouncement c m = .ok () ↔ m.Verified c := by
  unfold checkAnnouncement ReleaseManifest.Verified
  cases m.digest? with
  | none => simp
  | some =>
    cases signatureFromHex m.ed25519SigHex with
    | error | ok => simp

lemma digest?_eq_some_iff {m : ReleaseManifest} {digest : Arr 32} :
    m.digest? = some digest ↔ hexDecode (trim0x m.sha256Hex) = .ok digest.toList := by
  unfold ReleaseManifest.digest?
  cases hexDecode (trim0x m.sha256Hex) with
  | error => simp
  | ok =>
    rw [Except.ok.injEq]
    exact arr?_eq_some_iff.trans eq_comm

/-- The poller lowers the case of the SHA-256 first; it checks the same. -/
lemma verifyAny_ok_iff (pubkeys : List (Arr 32)) (m : ReleaseManifest) :
    verifyManifestSignatureAny c pubkeys m = .ok () ↔
      ∃ digest sig, m.digest? = some digest ∧ signatureFromHex m.ed25519SigHex = .ok sig ∧
        ∃ key ∈ pubkeys,
          c.ed25519Verify key (canonicalPayload m.version digest m.timestampUnix) sig = true := by
  have hl : ∀ digest, m.digest? = some digest ↔
      hexDecode (toAsciiLowercase (trim0x m.sha256Hex)) = .ok digest.toList := fun digest =>
    digest?_eq_some_iff.trans hexDecode_lowercase.symm
  simp only [hl, verifyManifestSignatureAny]
  cases hks : pubkeys.isEmpty with
  | true => simp [isEmpty_iff.mp hks]
  | false =>
    cases hexDecode (toAsciiLowercase (trim0x m.sha256Hex)) with
    | error => simp
    | ok bytes =>
      cases hd : arr? 32 bytes with
      | none =>
        have hnn : ∀ digest : Arr 32, bytes ≠ digest.toList := by
          rintro digest rfl
          simp at hd
        simp [hd, hnn]
      | some =>
        obtain rfl := arr?_eq_some_iff.mp hd
        cases signatureFromHex m.ed25519SigHex with
        | error => simp
        | ok => simp [toList_inj]

lemma verifyManifestSignatureAny_ok_iff (m : ReleaseManifest) :
    verifyManifestSignatureAny c pinnedReleasePubkeys m = .ok () ↔ m.Verified c :=
  verifyAny_ok_iff c _ m

/-- Every signed release has a payload of its own, and a manifest is
accepted when some listed key verifies that payload. -/
theorem release_signature_scope :
    (∀ version sha ts version' sha' ts',
      canonicalPayload version sha ts = canonicalPayload version' sha' ts' →
        version = version' ∧ sha = sha' ∧ ts = ts') ∧
      ∀ pubkeys m, verifyManifestSignatureAny c pubkeys m = .ok () ↔
        ∃ digest sig, m.digest? = some digest ∧ signatureFromHex m.ed25519SigHex = .ok sig ∧
          ∃ key ∈ pubkeys,
            c.ed25519Verify key (canonicalPayload m.version digest m.timestampUnix) sig = true := by
  refine ⟨fun version sha ts version' sha' ts' h => ?_, verifyAny_ok_iff c⟩
  -- the version is all that stands before the last 41 bytes, NUL bytes included
  obtain ⟨h, hts⟩ := append_inj' h (by simp)
  obtain ⟨h, hs⟩ := append_inj' h (by simp)
  exact ⟨append_cancel_left (append_cancel_right h), toList_inj.mp hs, u64Be_inj hts⟩

def ReleaseManifest.newer (m l : ReleaseManifest) : Prop :=
  l.timestampUnix < m.timestampUnix ∨ m.timestampUnix = l.timestampUnix ∧ l.version < m.version
deriving Decidable

/-- `is_strictly_newer`: anything is newer than no manifest. -/
def isStrictlyNewer (remote : ReleaseManifest) : Option ReleaseManifest → Bool
  | none => true
  | some l => decide (remote.newer l)

lemma newer_irrefl (m : ReleaseManifest) : ¬ m.newer m := by
  rintro (h | ⟨-, h⟩)
  · exact UInt64.lt_irrefl _ h
  · exact List.lt_irrefl _ h

lemma newer_trans {a b d : ReleaseManifest} (hab : a.newer b) (hbd : b.newer d) : a.newer d := by
  rcases hab with hab | ⟨hab, hab'⟩ <;> rcases hbd with hbd | ⟨hbd, hbd'⟩
  · exact .inl (UInt64.lt_trans hbd hab)
  · exact .inl (hbd ▸ hab)
  · exact .inl (hab ▸ hbd)
  · exact .inr ⟨hab.trans hbd, List.lt_trans hbd' hab'⟩

end Aii.Release
