import Mathlib.Tactic.Common
import Syncle.Lib.Glob

/-!
# UTF-8 and UTF-16

What a letter is written with: bytes, or code units of two bytes.
-/

namespace Syncle.Lib

def utf8 (c : Char) : List ℕ :=
  let n := c.toNat
  if n < 0x80 then [n]
  else if n < 0x800 then [0xC0 + n / 0x40, 0x80 + n % 0x40]
  else if n < 0x10000 then [0xE0 + n / 0x1000, 0x80 + n / 0x40 % 0x40, 0x80 + n % 0x40]
  else [0xF0 + n / 0x40000, 0x80 + n / 0x1000 % 0x40, 0x80 + n / 0x40 % 0x40, 0x80 + n % 0x40]

def utf16 (c : Char) : List ℕ :=
  let n := c.toNat
  if n < 0x10000 then [n]
  else [0xD800 + (n - 0x10000) / 0x400, 0xDC00 + (n - 0x10000) % 0x400]

def Ascii (c : Char) : Prop := c.toNat < 0x80

instance (c : Char) : Decidable (Ascii c) := inferInstanceAs (Decidable (c.toNat < 0x80))

theorem utf8_of_ascii {c : Char} (ascii : Ascii c) : utf8 c = [c.toNat] := if_pos ascii

theorem utf16_of_ascii {c : Char} (ascii : Ascii c) : utf16 c = [c.toNat] :=
  if_pos (Nat.lt_trans ascii (by decide))

theorem toNat_lt (c : Char) : c.toNat < 0x110000 := by
  rcases c.valid with low | ⟨-, high⟩
  · exact Nat.lt_trans low (by decide)
  · exact high

/-- A letter is no half of a surrogate pair. -/
theorem toNat_scalar (c : Char) : c.toNat < 0xD800 ∨ 0xE000 ≤ c.toNat := by
  rcases c.valid with low | ⟨high, -⟩
  · exact Or.inl low
  · exact Or.inr high

/-! ## Reading from the left -/

/-- The first letter of a text, and what is behind it. -/
def readUtf8 : List ℕ → Option (ℕ × List ℕ)
  | a :: s =>
    if a < 0x80 then some (a, s)
    else match s with
    | [] => none
    | b :: s =>
      if a < 0xE0 then some ((a - 0xC0) * 0x40 + (b - 0x80), s)
      else match s with
      | [] => none
      | c :: s =>
        if a < 0xF0 then some ((a - 0xE0) * 0x1000 + (b - 0x80) * 0x40 + (c - 0x80), s)
        else match s with
        | [] => none
        | d :: s =>
          some ((a - 0xF0) * 0x40000 + (b - 0x80) * 0x1000 + (c - 0x80) * 0x40 + (d - 0x80), s)
  | [] => none

def readUtf16 : List ℕ → Option (ℕ × List ℕ)
  | a :: s =>
    if a < 0xD800 ∨ 0xE000 ≤ a then some (a, s)
    else match s with
    | [] => none
    | b :: s => some (0x10000 + (a - 0xD800) * 0x400 + (b - 0xDC00), s)
  | [] => none

theorem readUtf8_utf8 {c : Char} {s : List ℕ} : readUtf8 (utf8 c ++ s) = some (c.toNat, s) := by
  have bound := toNat_lt c
  simp only [utf8]
  split
  · rename_i small
    simp [readUtf8, small]
  · split
    · simp only [List.cons_append, List.nil_append, readUtf8]
      rw [if_neg (by omega), if_pos (by omega)]
      simp only [Option.some.injEq, Prod.mk.injEq, and_true]
      omega
    · split
      · simp only [List.cons_append, List.nil_append, readUtf8]
        rw [if_neg (by omega), if_neg (by omega), if_pos (by omega)]
        simp only [Option.some.injEq, Prod.mk.injEq, and_true]
        omega
      · simp only [List.cons_append, List.nil_append, readUtf8]
        rw [if_neg (by omega), if_neg (by omega), if_neg (by omega)]
        simp only [Option.some.injEq, Prod.mk.injEq, and_true]
        omega

theorem readUtf16_utf16 {c : Char} {s : List ℕ} : readUtf16 (utf16 c ++ s) = some (c.toNat, s) := by
  have bound := toNat_lt c
  have scalar := toNat_scalar c
  simp only [utf16]
  split
  · simp [readUtf16, scalar]
  · simp only [List.cons_append, List.nil_append, readUtf16]
    rw [if_neg (by omega)]
    simp only [Option.some.injEq, Prod.mk.injEq, and_true]
    omega

/-- Two texts that are read alike begin with one letter. -/
theorem unique_of_read {code : Char → List ℕ} {read : List ℕ → Option (ℕ × List ℕ)}
    (reads : ∀ c s, read (code c ++ s) = some (c.toNat, s)) (c c' : Char) (s s' : List ℕ)
    (same : code c ++ s = code c' ++ s') : c = c' ∧ s = s' := by
  have one := reads c s
  rw [same, reads c' s'] at one
  obtain ⟨letter, rest⟩ := Prod.mk.inj (Option.some.inj one)
  exact ⟨(Char.toNat_inj.mp letter).symm, rest.symm⟩

/-- A letter outside ASCII is more bytes than code units. -/
theorem length_utf16_le_utf8 (c : Char) :
    (utf16 c).length ≤ (utf8 c).length ∧ (¬ Ascii c → (utf16 c).length < (utf8 c).length) := by
  simp only [utf16, utf8, Ascii]
  split_ifs <;> simp <;> omega

theorem length_flatMap_utf16_lt {text : List Char} (foreign : ∃ c ∈ text, ¬ Ascii c) :
    (text.flatMap utf16).length < (text.flatMap utf8).length := by
  have atMost : ∀ text : List Char, (text.flatMap utf16).length ≤ (text.flatMap utf8).length := by
    intro text
    induction text with
    | nil => exact Nat.le_refl _
    | cons c text ih =>
      have := (length_utf16_le_utf8 c).1
      simp only [List.flatMap_cons, List.length_append]
      omega
  obtain ⟨c, mem, foreign⟩ := foreign
  obtain ⟨before, after, rfl⟩ := List.append_of_mem mem
  have := (length_utf16_le_utf8 c).2 foreign
  have := atMost before
  have := atMost after
  simp only [List.flatMap_append, List.flatMap_cons, List.length_append]
  omega

def utf8Sync : SelfSync utf8 where
  leads u := u < 0x80 ∨ 0xC0 ≤ u
  first c := by
    have bound := toNat_lt c
    simp only [utf8]
    split
    · exact ⟨_, _, rfl, by omega, by simp⟩
    · split
      · exact ⟨_, _, rfl, by omega, by simp; omega⟩
      · split
        · exact ⟨_, _, rfl, by omega, by simp; omega⟩
        · exact ⟨_, _, rfl, by omega, by simp; omega⟩
  unique := unique_of_read fun _ _ => readUtf8_utf8

def utf16Sync : SelfSync utf16 where
  leads u := u < 0xDC00 ∨ 0xE000 ≤ u
  first c := by
    have scalar := toNat_scalar c
    have bound := toNat_lt c
    simp only [utf16]
    split
    · exact ⟨_, _, rfl, by omega, by simp⟩
    · exact ⟨_, _, rfl, by omega, by simp; omega⟩
  unique := unique_of_read fun _ _ => readUtf16_utf16

theorem flatMap_ascii {code : Char → List ℕ} (one : ∀ {c}, Ascii c → code c = [c.toNat])
    {text : List Char} (ascii : ∀ c ∈ text, Ascii c) : text.flatMap code = text.map Char.toNat := by
  induction text with
  | nil => rfl
  | cons c text ih =>
    rw [List.flatMap_cons, one (ascii c List.mem_cons_self),
      ih fun c mem => ascii c (List.mem_cons_of_mem _ mem)]
    rfl

theorem map_toNat_inj {a b : List Char} (same : a.map Char.toNat = b.map Char.toNat) : a = b :=
  List.map_injective_iff.mpr (fun _ _ is => Char.toNat_inj.mp is) same

/-- The units of a letter that is not ASCII are no ASCII letters. -/
theorem not_ascii_utf8 {c : Char} (other : ¬ Ascii c) {x : ℕ} (mem : x ∈ utf8 c) : 0x80 ≤ x := by
  have least : 0x80 ≤ c.toNat := Nat.not_lt.mp other
  simp only [utf8] at mem
  split at mem
  · omega
  · split at mem
    · simp at mem
      omega
    · split at mem
      · simp at mem
        omega
      · simp at mem
        omega

theorem not_ascii_utf16 {c : Char} (other : ¬ Ascii c) {x : ℕ} (mem : x ∈ utf16 c) : 0x80 ≤ x := by
  have least : 0x80 ≤ c.toNat := Nat.not_lt.mp other
  simp only [utf16] at mem
  split at mem
  · simp at mem
    omega
  · simp at mem
    omega

end Syncle.Lib
