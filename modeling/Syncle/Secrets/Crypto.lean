import Syncle.Lib.Base64

/-!
# Secrets at rest (`CryptoService`)

A ciphertext is `iv:tag:data`, all base64, of AES-256-GCM. One key encrypts; keys that used to are
tried for decrypting only, "GCM's tag says whether a key fits".

The cipher is a parameter, with what the service relies on (`Gcm.Lawful`). Where the keys come from
is left out: `configured` holds those of `SYNCLE_MASTER_KEY_PREVIOUS`, and after them the key of the
data dir's file where an env key has taken its place. Base64 is read strictly: a text that is none
comes from no `encrypt`.
-/

namespace Syncle.Secrets

open Lib

abbrev Bytes := List (BitVec 8)

/-- The text of a ciphertext. -/
abbrev Payload := List Char

def IV_LENGTH : ℕ := 12
def TAG_LENGTH : ℕ := 16

/-- `randomBytes(IV_LENGTH)` -/
abbrev Iv := { bytes : Bytes // bytes.length = IV_LENGTH }

/-- The bytes of a text, in UTF-8. -/
def utf8 (text : String) : Bytes := text.toByteArray.data.toList.map UInt8.toBitVec

/-- The text of bytes; none where they are no UTF-8. -/
def ofUtf8 (bytes : Bytes) : Option String :=
  String.fromUTF8? ⟨(bytes.map UInt8.ofBitVec).toArray⟩

theorem ofUtf8_utf8 (text : String) : ofUtf8 (utf8 text) = some text := by
  have back : (⟨((utf8 text).map UInt8.ofBitVec).toArray⟩ : ByteArray) = text.toByteArray := by
    simp [utf8, Function.comp_def]
  rw [ofUtf8, back, String.fromUTF8?, dif_pos text.isValidUTF8]
  rfl

theorem length_utf8 (text : String) : (utf8 text).length = text.utf8ByteSize := by
  simp [utf8]

theorem utf8_eq_nil {text : String} : utf8 text = [] ↔ text = "" := by
  rw [← List.length_eq_zero_iff, length_utf8, String.utf8ByteSize_eq_zero_iff]

/-- AES-256-GCM, of `node:crypto`. -/
structure Gcm (K : Type*) where
  /-- of a key, an iv and what is to be kept secret: the data and the tag -/
  cipher : K → Bytes → Bytes → Bytes × Bytes
  /-- of a key, an iv, a tag and the data; none where `final` throws -/
  decipher : K → Bytes → Bytes → Bytes → Option Bytes

/-- What the service relies on. -/
structure Gcm.Lawful {K : Type*} (gcm : Gcm K) : Prop where
  opens : ∀ key iv plain,
    gcm.decipher key iv (gcm.cipher key iv plain).2 (gcm.cipher key iv plain).1 = some plain
  /-- the tag says whether a key fits -/
  fits : ∀ {key other} iv plain, other ≠ key →
    gcm.decipher other iv (gcm.cipher key iv plain).2 (gcm.cipher key iv plain).1 = none
  tag : ∀ key iv plain, (gcm.cipher key iv plain).2.length = TAG_LENGTH
  /-- as many bytes as it was given -/
  data : ∀ key iv plain, (gcm.cipher key iv plain).1.length = plain.length

/-- A cipher that hides nothing; its tag is the key. -/
def openGcm : Gcm (BitVec 8) where
  cipher key _ plain := (plain, List.replicate TAG_LENGTH key)
  decipher key _ tag data := if tag = List.replicate TAG_LENGTH key then some data else none

theorem openGcm_lawful : openGcm.Lawful where
  opens _ _ _ := if_pos rfl
  fits _ _ ne := if_neg fun same =>
    ne ((List.replicate_inj.mp same).2.resolve_left (by decide)).symm
  tag _ _ _ := List.length_replicate
  data _ _ _ := rfl

def zeroIv : Iv := ⟨List.replicate IV_LENGTH 0, rfl⟩

variable {K : Type*}

section

variable (gcm : Gcm K)

def encrypt (key : K) (iv : Iv) (plaintext : String) : Payload :=
  let (data, tag) := gcm.cipher key iv (utf8 plaintext)
  Base64.encode iv ++ ':' :: Base64.encode tag ++ ':' :: Base64.encode data

/-- none: it throws -/
def decryptWith (key : K) (payload : Payload) : Option String :=
  match payload.splitOn ':' with
  | ivB64 :: tagB64 :: dataB64 :: _ =>
    if ivB64 = [] ∨ tagB64 = [] ∨ dataB64 = [] then none -- Malformed ciphertext
    else do
      let tag ← Base64.decode tagB64
      if tag.length ≠ TAG_LENGTH then none -- Malformed ciphertext
      else
        let iv ← Base64.decode ivB64
        let data ← Base64.decode dataB64
        let plain ← gcm.decipher key iv tag data
        ofUtf8 plain
  | _ => none

end

variable {gcm : Gcm K} {key other : K} {plaintext : String} {payload : Payload}

theorem splitOn_encrypt (key : K) (iv : Iv) (plaintext : String) :
    (encrypt gcm key iv plaintext).splitOn ':' =
      [Base64.encode iv, Base64.encode (gcm.cipher key iv (utf8 plaintext)).2,
        Base64.encode (gcm.cipher key iv (utf8 plaintext)).1] := by
  have colon : ':' ∉ Base64.alphabet := by
    rw [Base64.alphabet_eq]
    decide
  have whole : ∀ bytes, (Base64.encode bytes).splitOn ':' = [Base64.encode bytes] := fun bytes =>
    List.splitOn_eq_singleton (Base64.not_mem_encode colon (by decide) bytes)
  simp only [encrypt]
  rw [List.splitOn_append_cons_self, List.splitOn_append_cons_self, whole, whole, whole]
  rfl

/-- A ciphertext of something is given to the cipher as it came from it. -/
theorem decryptWith_encrypt (lawful : gcm.Lawful) (some : plaintext ≠ "") (iv : Iv) :
    decryptWith gcm other (encrypt gcm key iv plaintext) =
      (gcm.decipher other iv (gcm.cipher key iv (utf8 plaintext)).2
        (gcm.cipher key iv (utf8 plaintext)).1).bind ofUtf8 := by
  have hasIv : iv.1 ≠ [] := by
    rw [← List.length_pos_iff, iv.2]
    decide
  have hasTag : (gcm.cipher key iv (utf8 plaintext)).2 ≠ [] := by
    rw [← List.length_pos_iff, lawful.tag]
    decide
  have hasData : (gcm.cipher key iv (utf8 plaintext)).1 ≠ [] := by
    rw [← List.length_pos_iff, lawful.data, List.length_pos_iff]
    exact mt utf8_eq_nil.mp some
  simp [decryptWith, splitOn_encrypt, hasIv, hasTag, hasData, Base64.decode_encode, lawful.tag]

/-- **Under its own key a secret is what was encrypted.** -/
theorem decryptWith_self (lawful : gcm.Lawful) (some : plaintext ≠ "") (iv : Iv) :
    decryptWith gcm key (encrypt gcm key iv plaintext) = plaintext := by
  rw [decryptWith_encrypt lawful some, lawful.opens, Option.bind_some, ofUtf8_utf8]

/-- **No other key fits.** -/
theorem decryptWith_other (lawful : gcm.Lawful) (some : plaintext ≠ "") (iv : Iv)
    (ne : other ≠ key) : decryptWith gcm other (encrypt gcm key iv plaintext) = none := by
  rw [decryptWith_encrypt lawful some, lawful.fits iv _ ne, Option.bind_none]

/-- The ciphertext of the empty string has no data, and is taken for a malformed one. -/
theorem decryptWith_empty (lawful : gcm.Lawful) (iv : Iv) :
    decryptWith gcm other (encrypt gcm key iv "") = none := by
  have noData : (gcm.cipher key iv (utf8 "")).1 = [] := by
    rw [← List.length_eq_zero_iff, lawful.data, utf8_eq_nil.mpr rfl, List.length_nil]
  simp [decryptWith, splitOn_encrypt, noData]

/-- A ciphertext of a secret under a key. -/
def Encrypts (gcm : Gcm K) (key : K) (payload : Payload) (plaintext : String) : Prop :=
  plaintext ≠ "" ∧ ∃ iv, payload = encrypt gcm key iv plaintext

/-! ## Several keys -/

/-- The key that encrypts, and keys that used to, as they are configured. -/
structure Keys (K : Type*) where
  current : K
  configured : List K

instance : Membership K (Keys K) where
  mem keys key := key = keys.current ∨ key ∈ keys.configured

variable {keys : Keys K}

theorem Keys.mem_def : key ∈ keys ↔ key = keys.current ∨ key ∈ keys.configured := Iff.rfl

instance [DecidableEq K] : Decidable (key ∈ keys) :=
  inferInstanceAs (Decidable (key = keys.current ∨ key ∈ keys.configured))

theorem Keys.current_mem (keys : Keys K) : keys.current ∈ keys := .inl rfl

theorem Keys.ne_current (missing : key ∉ keys) : key ≠ keys.current := by
  rintro rfl
  exact missing keys.current_mem

variable [DecidableEq K]

/-- Once each, and not the current one. -/
def Keys.previousKeys (keys : Keys K) : List K :=
  keys.configured.foldl
    (fun previous key =>
      if key ≠ keys.current ∧ key ∉ previous then previous ++ [key] else previous) []

theorem Keys.mem_previousKeys :
    key ∈ keys.previousKeys ↔ key ∈ keys.configured ∧ key ≠ keys.current := by
  have collected : ∀ (more previous : List K),
      key ∈ more.foldl
        (fun previous key =>
          if key ≠ keys.current ∧ key ∉ previous then previous ++ [key] else previous) previous ↔
      key ∈ previous ∨ key ∈ more ∧ key ≠ keys.current := by
    intro more
    induction more with
    | nil => simp
    | cons first more ih =>
      intro previous
      rw [List.foldl_cons, ih]
      by_cases new : first ≠ keys.current ∧ first ∉ previous
      · rw [if_pos new, List.mem_append, List.mem_singleton, List.mem_cons]
        constructor
        · rintro ((there | rfl) | ⟨mem, ne⟩)
          · exact .inl there
          · exact .inr ⟨.inl rfl, new.1⟩
          · exact .inr ⟨.inr mem, ne⟩
        · rintro (there | ⟨rfl | mem, ne⟩)
          · exact .inl (.inl there)
          · exact .inl (.inr rfl)
          · exact .inr ⟨mem, ne⟩
      · rw [if_neg new, List.mem_cons]
        constructor
        · rintro (there | ⟨mem, ne⟩)
          · exact .inl there
          · exact .inr ⟨.inr mem, ne⟩
        · rintro (there | ⟨rfl | mem, ne⟩)
          · exact .inl there
          · exact .inl (by simpa [ne] using new)
          · exact .inr ⟨mem, ne⟩
  simpa [previousKeys] using collected keys.configured []

section

variable (gcm : Gcm K)

structure Opened where
  plaintext : String
  underPreviousKey : Bool
  deriving DecidableEq

/-- `open` -/
def openPayload (keys : Keys K) (payload : Payload) : Option Opened :=
  match decryptWith gcm keys.current payload with
  | some plaintext => some { plaintext := plaintext, underPreviousKey := false }
  | none =>
    (keys.previousKeys.findSome? fun key => decryptWith gcm key payload).map
      fun plaintext => { plaintext := plaintext, underPreviousKey := true }

def decrypt (keys : Keys K) (payload : Payload) : Option String :=
  (openPayload gcm keys payload).map Opened.plaintext

/-- The same secret under the current key; `some none` when there is nothing to do, none when no key
fits. -/
def reencrypt (keys : Keys K) (iv : Iv) (payload : Payload) : Option (Option Payload) :=
  (openPayload gcm keys payload).map fun opened =>
    if opened.underPreviousKey then some (encrypt gcm keys.current iv opened.plaintext) else none

end

theorem openPayload_current (lawful : gcm.Lawful)
    (h : Encrypts gcm keys.current payload plaintext) :
    openPayload gcm keys payload = some { plaintext := plaintext, underPreviousKey := false } := by
  obtain ⟨some, iv, rfl⟩ := h
  simp [openPayload, decryptWith_self lawful some]

theorem openPayload_previous (lawful : gcm.Lawful) (h : Encrypts gcm key payload plaintext)
    (mem : key ∈ keys.configured) (ne : key ≠ keys.current) :
    openPayload gcm keys payload = some { plaintext := plaintext, underPreviousKey := true } := by
  obtain ⟨some, iv, rfl⟩ := h
  have found : (keys.previousKeys.findSome? fun k =>
      decryptWith gcm k (encrypt gcm key iv plaintext)) = plaintext := by
    cases first : keys.previousKeys.findSome? fun k =>
        decryptWith gcm k (encrypt gcm key iv plaintext) with
    | none =>
      have none' := List.findSome?_eq_none_iff.mp first key (Keys.mem_previousKeys.mpr ⟨mem, ne⟩)
      simp [decryptWith_self lawful some] at none'
    | some opened =>
      -- the key that opens it is the one it was encrypted with
      obtain ⟨other, _, opens⟩ := List.exists_of_findSome?_eq_some first
      by_cases same : other = key
      · rw [same, decryptWith_self lawful some] at opens
        exact opens.symm
      · simp [decryptWith_other lawful some iv same] at opens
  simp [openPayload, decryptWith_other lawful some iv ne.symm, found]

theorem openPayload_missing (lawful : gcm.Lawful) (h : Encrypts gcm key payload plaintext)
    (missing : key ∉ keys) : openPayload gcm keys payload = none := by
  obtain ⟨some, iv, rfl⟩ := h
  have closed : ∀ other ∈ keys, decryptWith gcm other (encrypt gcm key iv plaintext) = none := by
    intro other mem
    refine decryptWith_other lawful some iv ?_
    rintro rfl
    exact missing mem
  have previous : (keys.previousKeys.findSome? fun k =>
      decryptWith gcm k (encrypt gcm key iv plaintext)) = none := by
    rw [List.findSome?_eq_none_iff]
    intro other mem
    exact closed other (.inr (Keys.mem_previousKeys.mp mem).1)
  simp [openPayload, closed _ keys.current_mem, previous]

/-- **With the key among them, a secret can be read.** -/
theorem decrypt_encrypts (lawful : gcm.Lawful) (h : Encrypts gcm key payload plaintext)
    (mem : key ∈ keys) : decrypt gcm keys payload = plaintext := by
  by_cases current : key = keys.current
  · simp [decrypt, openPayload_current lawful (current ▸ h)]
  · simp [decrypt, openPayload_previous lawful h (mem.resolve_left current) current]

/-- What a turn of the rotation makes of a ciphertext. -/
theorem reencrypt_encrypts (lawful : gcm.Lawful) (h : Encrypts gcm key payload plaintext)
    (iv : Iv) :
    reencrypt gcm keys iv payload =
      if key = keys.current then some none
      else if key ∈ keys then some (some (encrypt gcm keys.current iv plaintext))
      else none := by
  by_cases current : key = keys.current
  · simp [reencrypt, openPayload_current lawful (current ▸ h), current]
  · rw [if_neg current]
    by_cases mem : key ∈ keys
    · simp [reencrypt, openPayload_previous lawful h (mem.resolve_left current) current, mem]
    · simp [reencrypt, openPayload_missing lawful h mem, mem]

end Syncle.Secrets
