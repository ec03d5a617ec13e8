import Mathlib.Data.List.Chain
import Mathlib.Tactic.Common

/-!
# Base64

Three bytes as four letters, a shorter last group filled up with `=`.
-/

namespace Syncle.Lib.Base64

def alphabet : List Char :=
  "ABCDEFGHIJKLMNOPQRSTUVWXYZabcdefghijklmnopqrstuvwxyz0123456789+/".toList

/-- The letter of a six-bit number. -/
def letter (n : ℕ) : Char := alphabet.getD n '='

/-- The six-bit number of a letter. -/
def value (c : Char) : Option ℕ := alphabet.idxOf? c

def encode : List (BitVec 8) → List Char
  | [] => []
  | [a] => [letter (a.toNat / 4), letter (a.toNat % 4 * 16), '=', '=']
  | [a, b] =>
    [letter (a.toNat / 4), letter (a.toNat % 4 * 16 + b.toNat / 16), letter (b.toNat % 16 * 4), '=']
  | a :: b :: c :: rest =>
    letter (a.toNat / 4) :: letter (a.toNat % 4 * 16 + b.toNat / 16) ::
      letter (b.toNat % 16 * 4 + c.toNat / 64) :: letter (c.toNat % 64) :: encode rest

/-- One group of four letters, as the bytes it holds. -/
def group (p q r s : Char) : Option (List (BitVec 8)) := do
  let a ← value p
  let b ← value q
  let first := BitVec.ofNat 8 (a * 4 + b / 16)
  if r = '=' then return [first]
  let c ← value r
  let second := BitVec.ofNat 8 (b % 16 * 16 + c / 4)
  if s = '=' then return [first, second]
  let d ← value s
  return [first, second, BitVec.ofNat 8 (c % 4 * 64 + d)]

def decode : List Char → Option (List (BitVec 8))
  | p :: q :: r :: s :: rest => do
    let bytes ← group p q r s
    let more ← decode rest
    return bytes ++ more
  | [] => some []
  | _ => none

theorem alphabet_eq : alphabet = ['A', 'B', 'C', 'D', 'E', 'F', 'G', 'H', 'I', 'J', 'K', 'L', 'M', 'N',
    'O', 'P', 'Q', 'R', 'S', 'T', 'U', 'V', 'W', 'X', 'Y', 'Z', 'a', 'b', 'c', 'd', 'e', 'f', 'g', 'h',
    'i', 'j', 'k', 'l', 'm', 'n', 'o', 'p', 'q', 'r', 's', 't', 'u', 'v', 'w', 'x', 'y', 'z', '0', '1',
    '2', '3', '4', '5', '6', '7', '8', '9', '+', '/'] := String.toList_ofList

/-- The code of a character, moved so that the alphabet goes up. -/
def place (c : Char) : ℕ :=
  if c.toNat < 48 then c.toNat + 200 else if c.toNat < 65 then c.toNat + 100 else c.toNat

theorem alphabet_nodup : alphabet.Nodup := by
  have up : (alphabet.map place).IsChain (· < ·) := by
    rw [alphabet_eq]
    decide +kernel
  have distinct := List.pairwise_map.mp (List.isChain_iff_pairwise.mp up)
  refine distinct.imp ?_
  intro a b less same
  rw [same] at less
  exact Nat.lt_irrefl _ less

theorem length_alphabet : alphabet.length = 64 := by
  rw [alphabet_eq]
  rfl

theorem value_letter (n : ℕ) (h : n < 64) : value (letter n) = some n := by
  have there : n < alphabet.length := by
    rw [length_alphabet]
    exact h
  have here : letter n = alphabet[n] := by
    rw [letter, List.getD_eq_getElem?_getD, List.getElem?_eq_getElem there, Option.getD_some]
  rw [value, here, List.idxOf?_eq_some_iff]
  refine ⟨there, rfl, ?_⟩
  intro j before
  exact List.pairwise_iff_getElem.mp alphabet_nodup j n (by omega) there before

theorem letter_ne : ∀ n < 64, letter n ≠ '=' := by
  unfold letter
  rw [alphabet_eq]
  decide +kernel

theorem byte_of {n : ℕ} {a : BitVec 8} (h : n = a.toNat) : BitVec.ofNat 8 n = a := by
  simp [h]

variable (a b c : BitVec 8)

theorem group_one :
    group (letter (a.toNat / 4)) (letter (a.toNat % 4 * 16)) '=' '=' = some [a] := by
  have ha := a.isLt
  simp only [group, value_letter _ (show a.toNat / 4 < 64 by omega),
    value_letter _ (show a.toNat % 4 * 16 < 64 by omega), Option.bind_eq_bind, Option.bind_some,
    if_true, Option.pure_def, Option.some.injEq, List.cons.injEq, and_true]
  exact byte_of (by omega)

theorem group_two :
    group (letter (a.toNat / 4)) (letter (a.toNat % 4 * 16 + b.toNat / 16))
      (letter (b.toNat % 16 * 4)) '=' = some [a, b] := by
  have ha := a.isLt
  have hb := b.isLt
  simp only [group, value_letter _ (show a.toNat / 4 < 64 by omega),
    value_letter _ (show a.toNat % 4 * 16 + b.toNat / 16 < 64 by omega),
    value_letter _ (show b.toNat % 16 * 4 < 64 by omega),
    letter_ne _ (show b.toNat % 16 * 4 < 64 by omega), Option.bind_eq_bind, Option.bind_some,
    if_true, if_false, Option.pure_def, Option.some.injEq, List.cons.injEq, and_true]
  exact ⟨byte_of (by omega), byte_of (by omega)⟩

theorem group_three :
    group (letter (a.toNat / 4)) (letter (a.toNat % 4 * 16 + b.toNat / 16))
      (letter (b.toNat % 16 * 4 + c.toNat / 64)) (letter (c.toNat % 64)) = some [a, b, c] := by
  have ha := a.isLt
  have hb := b.isLt
  have hc := c.isLt
  simp only [group, value_letter _ (show a.toNat / 4 < 64 by omega),
    value_letter _ (show a.toNat % 4 * 16 + b.toNat / 16 < 64 by omega),
    value_letter _ (show b.toNat % 16 * 4 + c.toNat / 64 < 64 by omega),
    value_letter _ (show c.toNat % 64 < 64 by omega),
    letter_ne _ (show b.toNat % 16 * 4 + c.toNat / 64 < 64 by omega),
    letter_ne _ (show c.toNat % 64 < 64 by omega), Option.bind_eq_bind, Option.bind_some,
    if_false, Option.pure_def, Option.some.injEq, List.cons.injEq, and_true]
  exact ⟨byte_of (by omega), byte_of (by omega), byte_of (by omega)⟩

/-- Bytes come out as they went in. -/
theorem decode_encode (bytes : List (BitVec 8)) : decode (encode bytes) = some bytes := by
  induction bytes using encode.induct with
  | case1 => rfl
  | case2 a => simp [encode, decode, group_one]
  | case3 a b => simp [encode, decode, group_two]
  | case4 a b c rest ih => simp [encode, decode, group_three, ih]

/-! ## Which letters come up -/

theorem letter_mem (n : ℕ) : letter n ∈ alphabet ∨ letter n = '=' := by
  by_cases h : n < alphabet.length
  · left
    rw [letter, List.getD_eq_getElem?_getD, List.getElem?_eq_getElem h, Option.getD_some]
    exact List.getElem_mem h
  · right
    rw [letter, List.getD_eq_getElem?_getD, List.getElem?_eq_none (Nat.le_of_not_lt h),
      Option.getD_none]

/-- A character that is no letter of the alphabet, and does not fill up. -/
theorem not_mem_encode {x : Char} (letters : x ∉ alphabet) (fill : x ≠ '=')
    (bytes : List (BitVec 8)) : x ∉ encode bytes := by
  have other : ∀ n, x ≠ letter n := by
    rintro n rfl
    exact (letter_mem n).elim letters fill
  induction bytes using encode.induct with
  | case1 => simp [encode]
  | case2 a => simp [encode, other, fill]
  | case3 a b => simp [encode, other, fill]
  | case4 a b c rest ih => simp [encode, other, ih]

@[simp] theorem encode_eq_nil {bytes : List (BitVec 8)} : encode bytes = [] ↔ bytes = [] := by
  induction bytes using encode.induct with
  | case1 => simp [encode]
  | case2 a => simp [encode]
  | case3 a b => simp [encode]
  | case4 a b c rest _ => simp [encode]

/-! ## Reading what may be no base64 -/

/-- The six bits of a character: what is no letter is passed over, and the two that stand for `+` and
`/` in a URL are taken. -/
def sixBits (c : Char) : Option ℕ :=
  value (if c = '-' then '+' else if c = '_' then '/' else c)

/-- Six bits a letter; what is left over at the end is no byte. -/
def joinBits : List ℕ → List (BitVec 8)
  | a :: b :: c :: d :: rest =>
    BitVec.ofNat 8 (a * 4 + b / 16) :: BitVec.ofNat 8 (b % 16 * 16 + c / 4) ::
      BitVec.ofNat 8 (c % 4 * 64 + d) :: joinBits rest
  | [a, b, c] => [BitVec.ofNat 8 (a * 4 + b / 16), BitVec.ofNat 8 (b % 16 * 16 + c / 4)]
  | [a, b] => [BitVec.ofNat 8 (a * 4 + b / 16)]
  | _ => []

def read (text : String) : List (BitVec 8) := joinBits (text.toList.filterMap sixBits)

theorem letter_url : ∀ n < 64, letter n ≠ '-' ∧ letter n ≠ '_' := by
  unfold letter
  rw [alphabet_eq]
  decide +kernel

theorem sixBits_letter (n : ℕ) (h : n < 64) : sixBits (letter n) = some n := by
  obtain ⟨dash, line⟩ := letter_url n h
  rw [sixBits, if_neg dash, if_neg line, value_letter n h]

theorem sixBits_fill : sixBits '=' = none := by
  rw [sixBits, if_neg (by decide), if_neg (by decide), value, alphabet_eq]
  rfl

/-- Bytes come out as they went in. -/
theorem joinBits_encode (bytes : List (BitVec 8)) :
    joinBits ((encode bytes).filterMap sixBits) = bytes := by
  induction bytes using encode.induct with
  | case1 => rfl
  | case2 a =>
    have ha := a.isLt
    simp only [encode, List.filterMap_cons, sixBits_letter _ (show a.toNat / 4 < 64 by omega),
      sixBits_letter _ (show a.toNat % 4 * 16 < 64 by omega), sixBits_fill, List.filterMap_nil, joinBits,
      List.cons.injEq, and_true]
    exact byte_of (by omega)
  | case3 a b =>
    have ha := a.isLt
    have hb := b.isLt
    simp only [encode, List.filterMap_cons, sixBits_letter _ (show a.toNat / 4 < 64 by omega),
      sixBits_letter _ (show a.toNat % 4 * 16 + b.toNat / 16 < 64 by omega),
      sixBits_letter _ (show b.toNat % 16 * 4 < 64 by omega), sixBits_fill, List.filterMap_nil, joinBits,
      List.cons.injEq, and_true]
    exact ⟨byte_of (by omega), byte_of (by omega)⟩
  | case4 a b c rest ih =>
    have ha := a.isLt
    have hb := b.isLt
    have hc := c.isLt
    simp only [encode, List.filterMap_cons, sixBits_letter _ (show a.toNat / 4 < 64 by omega),
      sixBits_letter _ (show a.toNat % 4 * 16 + b.toNat / 16 < 64 by omega),
      sixBits_letter _ (show b.toNat % 16 * 4 + c.toNat / 64 < 64 by omega),
      sixBits_letter _ (show c.toNat % 64 < 64 by omega), joinBits, List.cons.injEq, ih, and_true]
    exact ⟨byte_of (by omega), byte_of (by omega),
      byte_of (by omega)⟩

theorem read_encode (data : List (BitVec 8)) :
    read (String.ofList (encode data)) = data := by
  simp [read, joinBits_encode]

/-! ## In a URL -/

/-- `base64url`: nothing fills the last group up, and two letters are others. -/
def encodeUrl (bytes : List (BitVec 8)) : List Char :=
  ((encode bytes).filter (· ≠ '=')).map fun c => if c = '+' then '-' else if c = '/' then '_' else c

theorem filterMap_sixBits_url (text : List Char) :
    ((text.filter (· ≠ '=')).map fun c =>
      if c = '+' then '-' else if c = '/' then '_' else c).filterMap sixBits =
        text.filterMap sixBits := by
  induction text with
  | nil => rfl
  | cons c text ih =>
    by_cases fill : c = '='
    · simp only [fill, ne_eq, not_true_eq_false, decide_false, Bool.false_eq_true, not_false_eq_true,
        List.filter_cons_of_neg, List.filterMap_cons, sixBits_fill]
      exact ih
    · have same : sixBits (if c = '+' then '-' else if c = '/' then '_' else c) = sixBits c := by
        by_cases plus : c = '+'
        · subst plus
          rfl
        · by_cases slash : c = '/'
          · subst slash
            rfl
          · simp [plus, slash]
      simp only [ne_eq, fill, not_false_eq_true, decide_true, List.filter_cons_of_pos, List.map_cons,
        List.filterMap_cons, same]
      rw [← ih]

theorem read_encodeUrl (data : List (BitVec 8)) : read (String.ofList (encodeUrl data)) = data := by
  simp only [read, encodeUrl, String.toList_ofList, filterMap_sixBits_url, joinBits_encode]

/-- A character that is no letter of a URL's alphabet is not in the text. -/
theorem not_mem_encodeUrl {x : Char} (letters : x ∉ alphabet) (dash : x ≠ '-') (line : x ≠ '_')
    (bytes : List (BitVec 8)) : x ∉ encodeUrl bytes := by
  intro mem
  obtain ⟨c, there, is⟩ := List.mem_map.mp mem
  obtain ⟨there, fill⟩ := List.mem_filter.mp there
  split at is
  · exact dash is.symm
  · split at is
    · exact line is.symm
    · subst is
      exact not_mem_encode letters (by simpa using fill) bytes there

/-- Six bits a letter, and nothing fills the last group up. -/
theorem length_encodeUrl (bytes : List (BitVec 8)) :
    (encodeUrl bytes).length = (8 * bytes.length + 5) / 6 := by
  have kept (n : ℕ) (small : n < 64) (text : List Char) :
      ((letter n :: text).filter (· ≠ '=')).length = (text.filter (· ≠ '=')).length + 1 := by
    rw [List.filter_cons_of_pos (by simpa using letter_ne n small), List.length_cons]
  rw [encodeUrl, List.length_map]
  induction bytes using encode.induct with
  | case1 => rfl
  | case2 a =>
    have ha := a.isLt
    rw [encode, kept _ (by omega), kept _ (by omega)]
    simp
  | case3 a b =>
    have ha := a.isLt
    have hb := b.isLt
    rw [encode, kept _ (by omega), kept _ (by omega), kept _ (by omega)]
    simp
  | case4 a b c rest ih =>
    have ha := a.isLt
    have hb := b.isLt
    have hc := c.isLt
    rw [encode, kept _ (by omega), kept _ (by omega), kept _ (by omega), kept _ (by omega), ih]
    simp only [List.length_cons]
    omega

end Syncle.Lib.Base64
