/-
Aii.Wallet.Keystore — encrypted key files (`aii-wallet/src/keystore.rs`).

The counter is `Ctr64BE`, and the MAC covers neither the initial counter
block nor the address.
-/
import Aii.Release.Manifest

namespace Aii.Wallet

open Common Node Release List Except

/-- The primitives of the wallet. `address?` is the address of a secret, if
it is a valid scalar. -/
structure WalletCrypto where
  aes : Arr 16 → Arr 16 → Arr 16
  scrypt : Bytes → Bytes → UInt32 → UInt32 → UInt32 → Option (Arr 32)
  keccak256 : Bytes → H256
  address? : Arr 32 → Option Address

inductive KeystoreError where
  | unsupportedVersion (version : UInt32)
  | unsupportedCipher (cipher : Bytes)
  | unsupportedKdf (kdf : Bytes)
  | invalidScryptN (n : UInt32)
  | scrypt
  | badMac
  | badIvLength (got : Nat)
  | badCiphertextLength (got : Nat)
  | badAddressLength (got : Nat)
  | hex (e : FromHexError)
  | walletConstruct
  deriving DecidableEq

structure ScryptParams where
  n : UInt32
  r : UInt32
  p : UInt32

/-- The `Crypto` block of a record, with its nested parameters. -/
structure CryptoBlock where
  ciphertext : Bytes
  iv : Bytes
  cipher : Bytes
  kdf : Bytes
  dklen : UInt32
  salt : Bytes
  params : ScryptParams
  mac : Bytes

structure EncryptedKeystore where
  version : UInt32
  address : Bytes
  crypto : CryptoBlock

structure EncryptedBytes where
  version : UInt32
  label : Bytes
  crypto : CryptoBlock

structure LocalWallet (k : WalletCrypto) where
  secret : Arr 32
  address : Address
  valid : k.address? secret = some address

open LocalWallet

/-- The `i`-th counter block of `Ctr64BE`. -/
def counter64 (iv : Arr 16) (i : Nat) : Arr 16 :=
  arrOfNat 16 (ofBe iv.toList / 2 ^ 64 * 2 ^ 64 + (ofBe iv.toList + i) % 2 ^ 64)

/-- The `i`-th counter block of the standard: a 128-bit number. -/
def counter128 (iv : Arr 16) (i : Nat) : Arr 16 := arrOfNat 16 (ofBe iv.toList + i)

def blockCount (data : Bytes) : Nat := (data.length + 15) / 16

def applyKeystream (cipher : Arr 16 → Arr 16) (counter : Nat → Arr 16) (data : Bytes) : Bytes :=
  data.zipWith (· ^^^ ·) ((List.range (blockCount data)).flatMap fun i =>
    (cipher (counter i)).toList)

lemma zipWith_xor_cancel : ∀ {data stream : Bytes}, data.length ≤ stream.length →
    (data.zipWith (· ^^^ ·) stream).zipWith (· ^^^ ·) stream = data
  | [], _, _ => rfl
  | b :: data, s :: stream, h => by
    rw [zipWith_cons_cons, zipWith_cons_cons, zipWith_xor_cancel (by simpa using h),
      UInt8.xor_assoc, UInt8.xor_self, UInt8.xor_zero]

lemma zipWith_xor_eq_iff : ∀ {data stream stream' : Bytes}, data.length ≤ stream.length →
    data.length ≤ stream'.length →
    (data.zipWith (· ^^^ ·) stream = data.zipWith (· ^^^ ·) stream' ↔
      stream.take data.length = stream'.take data.length)
  | [], _, _, _, _ => by simp
  | b :: data, s :: stream, s' :: stream', h, h' => by
    have ih := @zipWith_xor_eq_iff data stream stream' (by simpa using h) (by simpa using h')
    simp [ih]

section Keystream

variable (cipher : Arr 16 → Arr 16) (counter : Nat → Arr 16)

lemma length_keystream (n : Nat) :
    ((range n).flatMap fun i => (cipher (counter i)).toList).length = n * 16 := by
  simp [length_flatMap]

lemma applyKeystream_length (data : Bytes) :
    (applyKeystream cipher counter data).length = data.length := by
  rw [applyKeystream, length_zipWith, length_keystream, blockCount]
  omega

lemma applyKeystream_twice (data : Bytes) :
    applyKeystream cipher counter (applyKeystream cipher counter data) = data := by
  have hbc : blockCount (applyKeystream cipher counter data) = blockCount data := by
    rw [blockCount, applyKeystream_length, blockCount]
  rw [applyKeystream, hbc, applyKeystream]
  refine zipWith_xor_cancel ?_
  rw [length_keystream, blockCount]
  omega

/-- The whole blocks of the stream, then a piece of the next one. -/
lemma take_keystream (data : Bytes) :
    ((range (blockCount data)).flatMap fun i => (cipher (counter i)).toList).take data.length =
      ((range (data.length / 16)).map fun i => cipher (counter i)).flatMap List.Vector.toList ++
        (cipher (counter (data.length / 16))).toList.take (data.length % 16) := by
  have hlen := length_keystream cipher counter (data.length / 16)
  rw [flatMap_map]
  by_cases hrest : data.length % 16 = 0
  · have hcount : blockCount data = data.length / 16 := by rw [blockCount]; omega
    rw [hcount, hrest, take_zero, append_nil, take_of_length_le (by omega)]
  · have hcount : blockCount data = data.length / 16 + 1 := by rw [blockCount]; omega
    rw [hcount, range_succ, flatMap_append, take_append, take_of_length_le (by omega), hlen,
      flatMap_singleton]
    congr 2
    omega

lemma applyKeystream_eq_iff (counter' : Nat → Arr 16) (data : Bytes) :
    applyKeystream cipher counter data = applyKeystream cipher counter' data ↔
      (∀ i < data.length / 16, cipher (counter i) = cipher (counter' i)) ∧
        (cipher (counter (data.length / 16))).toList.take (data.length % 16) =
          (cipher (counter' (data.length / 16))).toList.take (data.length % 16) := by
  have hlong : ∀ counter : Nat → Arr 16, data.length ≤
      ((range (blockCount data)).flatMap fun i => (cipher (counter i)).toList).length := by
    intro counter
    rw [length_keystream, blockCount]
    omega
  rw [applyKeystream, applyKeystream, zipWith_xor_eq_iff (hlong _) (hlong _), take_keystream,
    take_keystream]
  constructor
  · intro h
    obtain ⟨hblocks, htail⟩ := append_inj h (by simp [length_flatMap, Function.comp_def])
    refine ⟨fun i hi => ?_, htail⟩
    exact map_inj_left.mp (flatMap_toList_inj (by decide) hblocks) i (mem_range.mpr hi)
  · rintro ⟨hblocks, htail⟩
    rw [htail, map_inj_left.mpr fun i hi => hblocks i (mem_range.mp hi)]

end Keystream

lemma counter64_eq {iv : Arr 16} {i : Nat} (h : ofBe iv.toList % 2 ^ 64 + i < 2 ^ 64) :
    counter64 iv i = counter128 iv i := by
  rw [counter64, counter128]
  congr 1
  omega

lemma ofBe_arrOfNat (n x : Nat) : ofBe (arrOfNat n x).toList = x % 256 ^ n := ofBe_toBe n x

lemma counters_eq_iff {iv : Arr 16} {n : Nat} :
    (∀ i < n, counter64 iv i = counter128 iv i) ↔ ofBe iv.toList % 2 ^ 64 + n ≤ 2 ^ 64 := by
  refine ⟨fun h => ?_, fun h i hi => counter64_eq (by omega)⟩
  by_contra hwrap
  -- the first block after the wrap has the low half 0, with and without a carry
  have heq := congrArg (ofBe ·.toList) (h (2 ^ 64 - ofBe iv.toList % 2 ^ 64) (by omega))
  have hlt := ofBe_lt iv.toList
  simp only [counter64, counter128, ofBe_arrOfNat, length_toList] at heq hlt
  omega

def AES_128_CTR : Bytes := ascii ['a', 'e', 's', '-', '1', '2', '8', '-', 'c', 't', 'r']

def SCRYPT : Bytes := ascii ['s', 'c', 'r', 'y', 'p', 't']

def cipherKey (derived : Arr 32) : Arr 16 := ⟨derived.toList.take 16, by simp⟩

def aesCtr (k : WalletCrypto) (counter : Arr 16 → Nat → Arr 16) (derived : Arr 32) (iv : Arr 16) :
    Bytes → Bytes :=
  applyKeystream (k.aes (cipherKey derived)) (counter iv)

def macKey (derived : Arr 32) : Bytes := derived.toList.drop 16

lemma macKey_length (derived : Arr 32) : (macKey derived).length = 16 := by simp [macKey]

def ensure (p : Prop) [Decidable p] (e : KeystoreError) : Except KeystoreError Unit :=
  if p then .ok () else .error e

def hexField (s : Bytes) : Except KeystoreError Bytes := (hexDecode s).mapError .hex

def sized (n : Nat) (bs : Bytes) (e : KeystoreError) : Except KeystoreError (Arr n) :=
  (arr? n bs).elim (.error e) .ok

section Records

variable (k : WalletCrypto)

/-- `derive_key`. No 32-bit number has 32 trailing zeros but 0, which is
refused as not a power of two. -/
def deriveKey (password salt : Bytes) (params : ScryptParams) : Except KeystoreError (Arr 32) :=
  if ∃ logN < 32, params.n.toNat = 2 ^ logN then
    (k.scrypt password salt params.n params.r params.p).elim (.error .scrypt) .ok
  else .error (.invalidScryptN params.n)

/-- What both `encrypt` functions do, with the salt and the initial counter
block that were drawn. -/
def encryptBlock (salt : Arr 32) (iv : Arr 16) (data password : Bytes) (params : ScryptParams) :
    Except KeystoreError CryptoBlock := do
  let derived ← deriveKey k password salt.toList params
  let ciphertext := aesCtr k counter64 derived iv data
  .ok {
    ciphertext := hexText ciphertext
    iv := hexText iv.toList
    cipher := AES_128_CTR
    kdf := SCRYPT
    dklen := 32
    salt := hexText salt.toList
    params := params
    mac := hexText (k.keccak256 (macKey derived ++ ciphertext)).toList }

def EncryptedKeystore.encrypt (salt : Arr 32) (iv : Arr 16) (wallet : LocalWallet k)
    (password : Bytes) (params : ScryptParams) : Except KeystoreError EncryptedKeystore := do
  let crypto ← encryptBlock k salt iv wallet.secret.toList password params
  .ok ⟨3, hexText wallet.address.toList, crypto⟩

def EncryptedBytes.encrypt (salt : Arr 32) (iv : Arr 16) (payload password : Bytes)
    (params : ScryptParams) (label : Bytes) : Except KeystoreError EncryptedBytes := do
  let crypto ← encryptBlock k salt iv payload password params
  .ok ⟨1, label, crypto⟩

def LocalWallet.fromSecretBytes (secret : Arr 32) : Except KeystoreError (LocalWallet k) :=
  match h : k.address? secret with
  | some address => .ok ⟨secret, address, h⟩
  | none => .error .walletConstruct

def EncryptedKeystore.decrypt (ks : EncryptedKeystore) (password : Bytes) :
    Except KeystoreError (LocalWallet k) := do
  ensure (ks.version = 3) (.unsupportedVersion ks.version)
  ensure (ks.crypto.cipher = AES_128_CTR) (.unsupportedCipher ks.crypto.cipher)
  ensure (ks.crypto.kdf = SCRYPT) (.unsupportedKdf ks.crypto.kdf)
  let salt ← hexField ks.crypto.salt
  let iv ← hexField ks.crypto.iv
  let ciphertext ← hexField ks.crypto.ciphertext
  let expectedMac ← hexField ks.crypto.mac
  let iv ← sized 16 iv (.badIvLength iv.length)
  let ciphertext ← sized 32 ciphertext (.badCiphertextLength ciphertext.length)
  let derived ← deriveKey k password salt ks.crypto.params
  ensure ((k.keccak256 (macKey derived ++ ciphertext.toList)).toList = expectedMac) .badMac
  LocalWallet.fromSecretBytes k
    ⟨aesCtr k counter64 derived iv ciphertext.toList, by simp [aesCtr, applyKeystream_length]⟩

def EncryptedKeystore.parsedAddress (ks : EncryptedKeystore) : Except KeystoreError Address := do
  let bytes ← hexField ks.address
  sized 20 bytes (.badAddressLength bytes.length)

end Records

variable {k : WalletCrypto} {password : Bytes} {params : ScryptParams} {salt : Arr 32} {iv : Arr 16}

lemma ensure_ok {p : Prop} [Decidable p] {e : KeystoreError} {u : Unit} :
    ensure p e = .ok u ↔ p := by
  unfold ensure
  split_ifs with h <;> simp [h]

lemma hexField_ok {s bs : Bytes} : hexField s = .ok bs ↔ hexDecode s = .ok bs := by
  unfold hexField
  cases hexDecode s <;> simp [Except.mapError]

lemma sized_ok {n : Nat} {bs : Bytes} {e : KeystoreError} {a : Arr n} :
    sized n bs e = .ok a ↔ a.toList = bs := by
  rw [← arr?_eq_some_iff, sized]
  cases arr? n bs <;> simp

lemma LocalWallet.ext_secret {w w' : LocalWallet k} (h : w.secret = w'.secret) : w = w' := by
  obtain ⟨secret, address, hw⟩ := w
  obtain ⟨secret', address', hw'⟩ := w'
  obtain rfl : secret = secret' := h
  obtain rfl : address = address' := Option.some.inj (hw.symm.trans hw')
  rfl

lemma LocalWallet.fromSecretBytes_ok {secret : Arr 32} {w : LocalWallet k} :
    fromSecretBytes k secret = .ok w ↔ w.secret = secret := by
  unfold fromSecretBytes
  constructor
  · intro h
    split at h
    · injection h with h
      rw [← h]
    · cases h
  · rintro rfl
    split
    · exact congrArg ok (ext_secret rfl)
    · rename_i h
      rw [w.valid] at h
      cases h

lemma encryptBlock_ok {data : Bytes} {crypto : CryptoBlock}
    (h : encryptBlock k salt iv data password params = .ok crypto) :
    ∃ derived, deriveKey k password salt.toList params = .ok derived ∧
      crypto = ⟨hexText (aesCtr k counter64 derived iv data), hexText iv.toList, AES_128_CTR,
        SCRYPT, 32, hexText salt.toList, params,
        hexText (k.keccak256 (macKey derived ++ aesCtr k counter64 derived iv data)).toList⟩ := by
  obtain ⟨derived, hdv, h⟩ := bind_ok.mp h
  injection h with h
  exact ⟨derived, hdv, h.symm⟩

lemma hexText_inj {a b : Bytes} (h : hexText a = hexText b) : a = b := by
  have hdc := hexDecode_hexText a
  rw [h, hexDecode_hexText] at hdc
  exact (ok.inj hdc).symm

/-! ## Interoperability -/

/-- The crypto block holds the standard encryption of the data, and who
knows the key reads the data from it. -/
def StandardFor (k : WalletCrypto) (salt : Arr 32) (iv : Arr 16) (data password : Bytes)
    (params : ScryptParams) (crypto : CryptoBlock) : Prop :=
  ∃ derived, deriveKey k password salt.toList params = .ok derived ∧
    crypto.ciphertext = hexText (aesCtr k counter128 derived iv data) ∧
    (hexDecode crypto.ciphertext).map (aesCtr k counter128 derived iv) = .ok data

/-- The low half of the counter does not wrap within the whole blocks of
the data. It may wrap in the piece after them if the two keystreams agree
there. -/
def Unwrapped (k : WalletCrypto) (salt : Arr 32) (iv : Arr 16) (data password : Bytes)
    (params : ScryptParams) : Prop :=
  ofBe iv.toList % 2 ^ 64 + data.length / 16 ≤ 2 ^ 64 ∧
    (ofBe iv.toList % 2 ^ 64 + blockCount data ≤ 2 ^ 64 ∨
      ∀ derived, deriveKey k password salt.toList params = .ok derived →
        (k.aes (cipherKey derived) (counter64 iv (data.length / 16))).toList.take
            (data.length % 16) =
          (k.aes (cipherKey derived) (counter128 iv (data.length / 16))).toList.take
            (data.length % 16))

lemma aesCtr_standard_iff (haes : ∀ key, Function.Injective (k.aes key)) {derived : Arr 32}
    (hderived : deriveKey k password salt.toList params = .ok derived) (data : Bytes) :
    aesCtr k counter64 derived iv data = aesCtr k counter128 derived iv data ↔
      Unwrapped k salt iv data password params := by
  rw [aesCtr, aesCtr, applyKeystream_eq_iff, Unwrapped, ← counters_eq_iff]
  simp only [(haes _).eq_iff]
  refine and_congr_right fun _ => ⟨fun htail => .inr fun derived' hderived' => ?_, ?_⟩
  · cases hderived.symm.trans hderived'
    exact htail
  · rintro (hfits | htail)
    · by_cases hrest : data.length % 16 = 0
      · rw [hrest, take_zero, take_zero]
      · rw [counter64_eq]
        rw [blockCount] at hfits
        omega
    · exact htail derived hderived

lemma encryptBlock_standard_iff (haes : ∀ key, Function.Injective (k.aes key)) {data : Bytes}
    {crypto : CryptoBlock} (h : encryptBlock k salt iv data password params = .ok crypto) :
    StandardFor k salt iv data password params crypto ↔
      Unwrapped k salt iv data password params := by
  obtain ⟨derived, hderived, rfl⟩ := encryptBlock_ok h
  rw [← aesCtr_standard_iff haes hderived]
  constructor
  · rintro ⟨derived', hderived', hciphertext, -⟩
    cases hderived.symm.trans hderived'
    exact hexText_inj hciphertext
  · intro heq
    refine ⟨derived, hderived, congrArg hexText heq, ?_⟩
    rw [heq, hexDecode_hexText]
    exact congrArg ok (applyKeystream_twice _ _ data)

/-- **Interoperability.** With a cipher that is a permutation, a record
holds standard AES-128-CTR exactly when the low half of the counter does
not wrap within the message. A wallet secret has two blocks. -/
theorem keystore_standard_ctr_iff (k : WalletCrypto) (haes : ∀ key, Function.Injective (k.aes key))
    (salt : Arr 32) (iv : Arr 16) (password : Bytes) (params : ScryptParams) :
    (∀ (wallet : LocalWallet k) (ks : EncryptedKeystore),
      EncryptedKeystore.encrypt k salt iv wallet password params = .ok ks →
      (StandardFor k salt iv wallet.secret.toList password params ks.crypto ↔
        ofBe iv.toList % 2 ^ 64 + 2 ≤ 2 ^ 64)) ∧
    ∀ (payload label : Bytes) (eb : EncryptedBytes),
      EncryptedBytes.encrypt k salt iv payload password params label = .ok eb →
      (StandardFor k salt iv payload password params eb.crypto ↔
        Unwrapped k salt iv payload password params) := by
  constructor
  · intro _ ks h
    obtain ⟨crypto, hcrypto, h⟩ := bind_ok.mp h
    cases h
    rw [encryptBlock_standard_iff haes hcrypto, Unwrapped, blockCount, length_toList]
    exact ⟨fun h => h.1, fun h => ⟨h, .inl h⟩⟩
  · intro _ _ eb h
    obtain ⟨_, hcrypto, h⟩ := bind_ok.mp h
    cases h
    exact encryptBlock_standard_iff haes hcrypto

/-- A toy instance: the cipher adds the key, and the MAC half of a derived
key determines the other half. -/
def WalletCrypto.reference : WalletCrypto where
  aes key block := arrOfNat 16 (ofBe key.toList + ofBe block.toList)
  scrypt password salt _ _ _ :=
    let half := toBe 16 (ofBe (password ++ salt))
    some ⟨half ++ half, by simp [half]⟩
  keccak256 := referenceHash
  address? secret :=
    if ofBe secret.toList = 0 then none else some (arrOfNat 20 (ofBe secret.toList))

def sampleWallet : LocalWallet .reference := ⟨arrOfNat 32 1, arrOfNat 20 1, by decide +kernel⟩

def ScryptParams.light : ScryptParams := ⟨4096, 8, 6⟩

/-- What the sample wallet is written as, under the password 7. -/
def sampleKeystore (iv : Nat) : EncryptedKeystore :=
  (EncryptedKeystore.encrypt .reference (arrOfNat 32 5) (arrOfNat 16 iv) sampleWallet [7]
    .light).toOption.getD ⟨0, [], ⟨[], [], [], [], 0, [], .light, []⟩⟩

lemma sampleKeystore_ok (iv : Nat) :
    EncryptedKeystore.encrypt .reference (arrOfNat 32 5) (arrOfNat 16 iv) sampleWallet [7] .light =
      .ok (sampleKeystore iv) := rfl

lemma reference_aes_injective (key : Arr 16) :
    Function.Injective (WalletCrypto.reference.aes key) := by
  intro a b h
  have heq := congrArg (ofBe ·.toList) h
  have ha := ofBe_lt a.toList
  have hb := ofBe_lt b.toList
  simp only [WalletCrypto.reference, ofBe_arrOfNat, length_toList] at heq ha hb
  have hnum : ofBe a.toList = ofBe b.toList := by omega
  rw [← toList_inj, ← toBe_ofBe a.toList, ← toBe_ofBe b.toList, hnum, length_toList, length_toList]

/-- From `2 ^ 64 - 2` the second block is the last before the wrap. -/
theorem keystore_standard_ctr_last :
    StandardFor .reference (arrOfNat 32 5) (arrOfNat 16 (2 ^ 64 - 2)) sampleWallet.secret.toList
      [7] .light (sampleKeystore (2 ^ 64 - 2)).crypto :=
  ((keystore_standard_ctr_iff .reference reference_aes_injective _ _ _ _).1 sampleWallet _
    (sampleKeystore_ok _)).mpr (by decide +kernel)

/-- From `2 ^ 64 - 1` the second counter block is 0, and not `2 ^ 64`. -/
theorem wrapped_counter_differs :
    EncryptedKeystore.encrypt .reference (arrOfNat 32 5) (arrOfNat 16 (2 ^ 64 - 1)) sampleWallet
        [7] .light = .ok (sampleKeystore (2 ^ 64 - 1)) ∧
      ¬ StandardFor .reference (arrOfNat 32 5) (arrOfNat 16 (2 ^ 64 - 1))
        sampleWallet.secret.toList [7] .light (sampleKeystore (2 ^ 64 - 1)).crypto := by
  refine ⟨sampleKeystore_ok _, fun h => ?_⟩
  obtain ⟨crypto, hcrypto, hks⟩ := bind_ok.mp (sampleKeystore_ok (2 ^ 64 - 1))
  rw [← ok.inj hks, encryptBlock_standard_iff reference_aes_injective hcrypto] at h
  exact absurd h.1 (by decide +kernel)

/-! ## Integrity -/

def EncryptedKeystore.key (k : WalletCrypto) (ks : EncryptedKeystore) (password : Bytes) :
    Except KeystoreError (Arr 32) := do
  deriveKey k password (← hexField ks.crypto.salt) ks.crypto.params

/-- The record passes the checks of `decrypt`: its fields name the key, the
initial counter block and the ciphertext, and the MAC is theirs. -/
structure Passes (k : WalletCrypto) (password : Bytes) (ks : EncryptedKeystore) (derived : Arr 32)
    (iv : Arr 16) (ct : Arr 32) : Prop where
  version : ks.version = 3
  cipher : ks.crypto.cipher = AES_128_CTR
  kdf : ks.crypto.kdf = SCRYPT
  key : ks.key k password = .ok derived
  iv : hexDecode ks.crypto.iv = .ok iv.toList
  ciphertext : hexDecode ks.crypto.ciphertext = .ok ct.toList
  mac : hexDecode ks.crypto.mac = .ok (k.keccak256 (macKey derived ++ ct.toList)).toList

lemma decrypt_ok_iff {ks : EncryptedKeystore} {w : LocalWallet k} :
    ks.decrypt k password = .ok w ↔ ∃ derived iv ct, Passes k password ks derived iv ct ∧
      w.secret.toList = aesCtr k counter64 derived iv ct.toList := by
  simp only [EncryptedKeystore.decrypt, bind_ok, ensure_ok, hexField_ok, sized_ok, exists_const]
  constructor
  · rintro ⟨hversion, hcipher, hkdf, salt, hsalt, _, hiv, _, hct, _, hmac, iv, rfl, ct, rfl,
      derived, hderived, rfl, hsecret⟩
    exact ⟨derived, iv, ct, ⟨hversion, hcipher, hkdf,
      bind_ok.mpr ⟨salt, hexField_ok.mpr hsalt, hderived⟩, hiv, hct, hmac⟩,
      congrArg List.Vector.toList (fromSecretBytes_ok.mp hsecret)⟩
  · rintro ⟨derived, iv, ct, h, hsecret⟩
    obtain ⟨salt, hsalt, hderived⟩ := bind_ok.mp h.key
    exact ⟨h.version, h.cipher, h.kdf, salt, hexField_ok.mp hsalt, _, h.iv, _, h.ciphertext, _,
      h.mac, iv, rfl, ct, rfl, derived, hderived, rfl,
      fromSecretBytes_ok.mpr (toList_inj.mp hsecret)⟩

/-- The hash has no collision on the MAC inputs of the two records, and key
derivation none on the MAC half of their keys. -/
structure NoCollision (k : WalletCrypto) (password : Bytes) (ks ks' : EncryptedKeystore) : Prop
    where
  mac : ∀ d d' ct ct', ks.key k password = .ok d → ks'.key k password = .ok d' →
    hexDecode ks.crypto.ciphertext = .ok ct → hexDecode ks'.crypto.ciphertext = .ok ct' →
    k.keccak256 (macKey d ++ ct) = k.keccak256 (macKey d' ++ ct') →
    macKey d ++ ct = macKey d' ++ ct'
  key : ∀ d d', ks.key k password = .ok d → ks'.key k password = .ok d' → macKey d = macKey d' →
    d = d'

/-- One MAC stands for one key and one ciphertext. -/
lemma Passes.unique {ks ks' : EncryptedKeystore} {d d' ct ct' : Arr 32} {iv iv' : Arr 16}
    (h : Passes k password ks d iv ct) (h' : Passes k password ks' d' iv' ct')
    (hcollision : NoCollision k password ks ks')
    (hmac : hexDecode ks'.crypto.mac = hexDecode ks.crypto.mac) : d' = d ∧ ct' = ct := by
  rw [h.mac, h'.mac] at hmac
  have hinput := hcollision.mac _ _ _ _ h.key h'.key h.ciphertext h'.ciphertext
    (toList_inj.mp (ok.inj hmac)).symm
  obtain ⟨hhalf, hct⟩ := append_inj hinput (by rw [macKey_length, macKey_length])
  exact ⟨(hcollision.key _ _ h.key h'.key hhalf).symm, toList_inj.mp hct.symm⟩

lemma aesCtr_iv_inj (haes : ∀ key, Function.Injective (k.aes key)) {derived ct : Arr 32}
    {iv iv' : Arr 16}
    (h : aesCtr k counter64 derived iv ct.toList = aesCtr k counter64 derived iv' ct.toList) :
    iv = iv' := by
  have hfirst := haes _ (((applyKeystream_eq_iff _ _ _ _).mp h).1 0 (by simp))
  have hcounter : ∀ iv : Arr 16, counter64 iv 0 = iv := by
    intro iv
    have hnum : ofBe iv.toList / 2 ^ 64 * 2 ^ 64 + (ofBe iv.toList + 0) % 2 ^ 64 =
        ofBe iv.toList := by omega
    have hbytes := toBe_ofBe iv.toList
    rw [length_toList] at hbytes
    rw [counter64, hnum, ← toList_inj]
    exact hbytes
  rwa [hcounter, hcounter] at hfirst

/-- How a changed record gets through the checks of `decrypt`: it names
another address; or it keeps the MAC and has another initial counter
block; or it has another MAC, that of its own key and ciphertext, and
hides another secret. -/
def Slips (k : WalletCrypto) (password : Bytes) (wallet : LocalWallet k)
    (ks ks' : EncryptedKeystore) : Prop :=
  ∃ derived iv ct, Passes k password ks' derived iv ct ∧ ∃ w : LocalWallet k,
    w.secret.toList = aesCtr k counter64 derived iv ct.toList ∧
    (ks'.parsedAddress ≠ .ok wallet.address ∨
      hexDecode ks'.crypto.mac = hexDecode ks.crypto.mac ∧
        hexDecode ks'.crypto.iv ≠ hexDecode ks.crypto.iv ∨
      hexDecode ks'.crypto.mac ≠ hexDecode ks.crypto.mac ∧ w.secret ≠ wallet.secret)

lemma encrypt_passes {wallet : LocalWallet k} {ks : EncryptedKeystore}
    (h : EncryptedKeystore.encrypt k salt iv wallet password params = .ok ks) :
    ∃ derived ct, Passes k password ks derived iv ct ∧
      wallet.secret.toList = aesCtr k counter64 derived iv ct.toList := by
  obtain ⟨_, hcrypto, h⟩ := bind_ok.mp h
  cases h
  obtain ⟨derived, hderived, rfl⟩ := encryptBlock_ok hcrypto
  exact ⟨derived, ⟨aesCtr k counter64 derived iv wallet.secret.toList, by
      simp [aesCtr, applyKeystream_length]⟩, ⟨rfl, rfl, rfl,
    bind_ok.mpr ⟨_, hexField_ok.mpr (hexDecode_hexText _), hderived⟩, hexDecode_hexText _,
    hexDecode_hexText _, hexDecode_hexText _⟩, (applyKeystream_twice _ _ _).symm⟩

def withIv (ks : EncryptedKeystore) (iv : Nat) : EncryptedKeystore :=
  { ks with crypto := { ks.crypto with iv := hexText (arrOfNat 16 iv).toList } }

end Aii.Wallet
