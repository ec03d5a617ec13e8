import Mathlib.Tactic.Common
import Mathlib.Tactic.Ring

/-!
# Decimal texts, in the order of texts

A text comes before another where they first differ, or where it ends first. For the digits of two
numbers that is the order of the numbers as long as the texts are of one length. Where the second
is longer, only as many of its digits count as the first has: the first comes before it when its
number is at most the one those leading digits spell (`digits_lt_iff`).
-/

namespace Syncle.Lib

/-- The code units of a text (UTF-16), by which texts are compared. -/
def codeUnits (text : List Char) : List ℕ :=
  text.flatMap fun c =>
    if c.toNat < 0x10000 then [c.toNat]
    else [0xD800 + (c.toNat - 0x10000) / 0x400, 0xDC00 + (c.toNat - 0x10000) % 0x400]

@[simp] theorem codeUnits_append (a b : List Char) :
    codeUnits (a ++ b) = codeUnits a ++ codeUnits b := by
  simp [codeUnits]

/-- A number is read back from its text. -/
theorem toString_inj {m n : ℕ} (h : toString m = toString n) : m = n := by
  have digits : Nat.toDigits 10 m = Nat.toDigits 10 n := by
    rw [Nat.toString_eq_ofList_toDigits, Nat.toString_eq_ofList_toDigits] at h
    exact String.ofList_injective h
  rw [← Nat.ofDigitChars_ten_toDigits (n := m), digits, Nat.ofDigitChars_ten_toDigits]

/-- Digits in front, up to a width. -/
def padStart (width : ℕ) (digits : List Char) : List Char :=
  List.replicate (width - digits.length) '0' ++ digits

@[simp] theorem length_padStart (width : ℕ) (digits : List Char) :
    (padStart width digits).length = max width digits.length := by
  simp only [padStart, List.length_append, List.length_replicate]
  omega

@[simp] theorem ofDigitChars_padStart (width n : ℕ) :
    Nat.ofDigitChars 10 (padStart width (Nat.toDigits 10 n)) 0 = n := by
  simp [padStart, Nat.ofDigitChars_append]

theorem isDigit_padStart {width n : ℕ} {c : Char}
    (h : c ∈ padStart width (Nat.toDigits 10 n)) : c.isDigit = true := by
  rcases List.mem_append.mp h with h | h
  · obtain rfl := List.eq_of_mem_replicate h
    rfl
  · exact Nat.isDigit_of_mem_toDigits (by decide) (by decide) h

/-! ## The order of digits -/

theorem digit_bounds {c : Char} (h : c.isDigit = true) : 48 ≤ c.toNat ∧ c.toNat ≤ 57 := by
  simp only [Char.isDigit, Bool.and_eq_true, decide_eq_true_eq] at h
  exact ⟨by simpa using UInt32.le_iff_toNat_le.mp h.1, by simpa using UInt32.le_iff_toNat_le.mp h.2⟩

theorem codeUnits_digits {digits : List Char} (h : ∀ c ∈ digits, c.isDigit = true) :
    codeUnits digits = digits.map Char.toNat := by
  induction digits with
  | nil => rfl
  | cons c digits ih =>
    have bounds := digit_bounds (h c List.mem_cons_self)
    have small : c.toNat < 0x10000 := by omega
    have rest := ih fun d hd => h d (List.mem_cons_of_mem _ hd)
    simp only [codeUnits, List.flatMap_cons, small, if_true] at rest ⊢
    rw [rest]
    rfl

theorem ofDigitChars_cons' (c : Char) (digits : List Char) :
    Nat.ofDigitChars 10 (c :: digits) 0 =
      (c.toNat - 48) * 10 ^ digits.length + Nat.ofDigitChars 10 digits 0 := by
  rw [Nat.ofDigitChars_cons, Nat.ofDigitChars_eq_ofDigitChars_zero, Nat.mul_zero, Nat.zero_add,
    Nat.mul_comm]
  rfl

/-- Digits spell less than the next power of ten. -/
theorem ofDigitChars_lt {digits : List Char} (h : ∀ c ∈ digits, c.isDigit = true) :
    Nat.ofDigitChars 10 digits 0 < 10 ^ digits.length := by
  induction digits with
  | nil => simp
  | cons c digits ih =>
    have bounds := digit_bounds (h c List.mem_cons_self)
    have rest := ih fun d hd => h d (List.mem_cons_of_mem _ hd)
    rw [ofDigitChars_cons', List.length_cons, pow_succ]
    have head : (c.toNat - 48) * 10 ^ digits.length ≤ 9 * 10 ^ digits.length :=
      Nat.mul_le_mul_right _ (by omega)
    omega

/-- The leading digit decides, and the rest where it is the same. -/
theorem lead_lt_iff {x y v w p : ℕ} (hv : v < p) (hw : w < p) :
    x * p + v < y * p + w ↔ x < y ∨ x = y ∧ v < w := by
  rcases Nat.lt_trichotomy x y with h | rfl | h
  · have : (x + 1) * p ≤ y * p := Nat.mul_le_mul_right p h
    rw [Nat.succ_mul] at this
    omega
  · omega
  · have : (y + 1) * p ≤ x * p := Nat.mul_le_mul_right p h
    rw [Nat.succ_mul] at this
    omega

theorem lead_le_iff {x y v w p : ℕ} (hv : v < p) (hw : w < p) :
    x * p + v ≤ y * p + w ↔ x < y ∨ x = y ∧ v ≤ w := by
  rcases Nat.lt_trichotomy x y with h | rfl | h
  · have : (x + 1) * p ≤ y * p := Nat.mul_le_mul_right p h
    rw [Nat.succ_mul] at this
    omega
  · omega
  · have : (y + 1) * p ≤ x * p := Nat.mul_le_mul_right p h
    rw [Nat.succ_mul] at this
    omega

/-- **The order of digits.** Of a text that is no longer than the other. -/
theorem digits_lt_iff {a b : List Char} (ha : ∀ c ∈ a, c.isDigit = true)
    (hb : ∀ c ∈ b, c.isDigit = true) (len : a.length ≤ b.length) :
    a.map Char.toNat < b.map Char.toNat ↔
      a.length < b.length ∧
          Nat.ofDigitChars 10 a 0 * 10 ^ (b.length - a.length) ≤ Nat.ofDigitChars 10 b 0 ∨
        a.length = b.length ∧ Nat.ofDigitChars 10 a 0 < Nat.ofDigitChars 10 b 0 := by
  induction a generalizing b with
  | nil =>
    cases b with
    | nil => simp
    | cons d b => simp
  | cons c a ih =>
    cases b with
    | nil => simp at len
    | cons d b =>
      have len' : a.length ≤ b.length := by simpa using len
      have restA : ∀ c ∈ a, c.isDigit = true := fun c hc => ha c (List.mem_cons_of_mem _ hc)
      have restB : ∀ c ∈ b, c.isDigit = true := fun c hc => hb c (List.mem_cons_of_mem _ hc)
      have hc := digit_bounds (ha c List.mem_cons_self)
      have hd := digit_bounds (hb d List.mem_cons_self)
      have ltA := ofDigitChars_lt restA
      have ltB := ofDigitChars_lt restB
      obtain ⟨k, hk⟩ := Nat.exists_eq_add_of_le len'
      rw [List.map_cons, List.map_cons, List.cons_lt_cons_iff, ih restA restB len',
        ofDigitChars_cons', ofDigitChars_cons']
      simp only [List.length_cons, Nat.add_sub_add_right, Nat.add_lt_add_iff_right,
        Nat.add_right_cancel_iff, hk, Nat.add_sub_cancel_left]
      rw [hk] at ltB
      have shift : ((c.toNat - 48) * 10 ^ a.length + Nat.ofDigitChars 10 a 0) * 10 ^ k =
          (c.toNat - 48) * 10 ^ (a.length + k) + Nat.ofDigitChars 10 a 0 * 10 ^ k := by
        ring
      have ltA' : Nat.ofDigitChars 10 a 0 * 10 ^ k < 10 ^ (a.length + k) := by
        rw [pow_add]
        exact Nat.mul_lt_mul_of_pos_right ltA (Nat.pow_pos (by decide))
      rw [shift, lead_le_iff ltA' ltB]
      rcases Nat.eq_zero_or_pos k with rfl | pos
      · rw [Nat.add_zero, lead_lt_iff ltA (by simpa using ltB)]
        omega
      · have shorter : a.length < a.length + k := by omega
        have other : a.length ≠ a.length + k := by omega
        simp only [shorter, other, true_and, false_and, or_false]
        omega

end Syncle.Lib
