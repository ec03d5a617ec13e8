import Syncle.Shape.Lineage

/-!
# What the planned types take

A column of a table that is created has the type that the plan gave it, in PostgreSQL's spelling
whichever engine it is for. A cast makes a value of the type it is planned to have, but for three of
them: a whole number may be too large for `bigint`, a point in time may be none that `timestamptz`
reads, and JSON may be a text that is no JSON, or null.
-/

namespace Syncle.Shape

open Lib Js

/-! ## Values and types -/

/-- A value that is there. -/
def Given (v : Value) : Prop := v ≠ .null ∧ v ≠ .undefined ∧ v ≠ .unchanged

instance (v : Value) : Decidable (Given v) := inferInstanceAs (Decidable (_ ∧ _ ∧ _))

section

variable (rt : Runtime)
  /- the texts that are read as a point in time -/
  (instant : String → Prop)

/-- In 64 bits. -/
def takesBigint : Value → Prop
  | .number (.finite q) => q.den = 1 ∧ -2 ^ 63 ≤ q.num ∧ q.num < 2 ^ 63
  | .number .negativeZero => True
  | .bigint n => -2 ^ 63 ≤ n ∧ n < 2 ^ 63
  | _ => False

def takesDouble : Value → Prop
  | .number (.finite _) | .number .negativeZero | .bigint _ => True
  | _ => False

def takesInstant : Value → Prop
  | .date _ => True
  | .string s => instant s
  | _ => False

/-- A text is sent as it is, so it has to be JSON; anything else is written as JSON. -/
def takesJson : Value → Prop
  | .string s => (rt.parseJson s).isSome = true
  | _ => True

/-- What a column takes that the steps gave its type. -/
def takesPlanned (type : String) (v : Value) : Prop :=
  if type = "text" then ∃ s, v = .string s
  else if type = "double precision" then takesDouble v
  else if type = "bigint" then takesBigint v
  else if type = "boolean" then ∃ b, v = .bool b
  else if type = "timestamptz" then takesInstant instant v
  else takesJson rt v

/-- What a cast makes fits its type: a text, a number and a boolean always, a whole number in 64 bits, a
point in time that the type reads, and JSON, unless it is a text that is not JSON. -/
def Fitting : CastTo → Value → Prop
  | .string, _ | .number, _ | .boolean, _ => True
  | .integer, w => takesBigint w
  | .date, w => takesInstant instant w
  | .json, w => takesJson rt w

end

/-! ## What a cast makes -/

section

variable {rt : Runtime} {instant : String → Prop}

theorem given_string (s : String) : Given (.string s) := by simp [Given]

theorem takesPlanned_text {v : Value} : takesPlanned rt instant "text" v ↔ ∃ s, v = .string s := by
  simp [takesPlanned]

theorem cast_string {v w : Value} (given : Given v) (is : cast rt .string v = some (some w)) : ∃ s, w = .string s := by
  have read (is : ((text rt v).map fun s => some (Value.string s)) = some (some w)) : ∃ s, w = .string s := by
    obtain ⟨s, -, is⟩ := Option.map_eq_some_iff.mp is
    exact ⟨s, (Option.some.inj is).symm⟩
  cases v with
  | null => exact absurd rfl given.1
  | undefined => exact absurd rfl given.2.1
  | _ => exact read is

theorem cast_boolean {v w : Value} (given : Given v) (is : cast rt .boolean v = some (some w)) : ∃ b, w = .bool b := by
  have read (is : ((text rt v).map fun s =>
        let s := rt.toLowerCase (rt.trim s)
        if trueTexts.contains s then some (Value.bool true)
        else if falseTexts.contains s then some (.bool false)
        else none) = some (some w)) : ∃ b, w = .bool b := by
    obtain ⟨s, -, is⟩ := Option.map_eq_some_iff.mp is
    dsimp only at is
    split at is
    · exact ⟨true, (Option.some.inj is).symm⟩
    · split at is
      · exact ⟨false, (Option.some.inj is).symm⟩
      · cases is
  cases v with
  | null => exact absurd rfl given.1
  | undefined => exact absurd rfl given.2.1
  | bool b => exact ⟨b, (Option.some.inj (Option.some.inj is)).symm⟩
  | number n => exact ⟨_, (Option.some.inj (Option.some.inj is)).symm⟩
  | _ => exact read is

theorem cast_date {v w : Value} (given : Given v) (is : cast rt .date v = some (some w)) : ∃ s, w = .string s := by
  have made (d : Option String) (is : d.map Value.string = some w) : ∃ s, w = .string s := by
    obtain ⟨s, -, is⟩ := Option.map_eq_some_iff.mp is
    exact ⟨s, is.symm⟩
  have read (is : ((text rt v).map fun s => (rt.dateOf (rt.trim s)).map Value.string) = some (some w)) :
      ∃ s, w = .string s := by
    obtain ⟨s, -, is⟩ := Option.map_eq_some_iff.mp is
    exact made _ is
  cases v with
  | null => exact absurd rfl given.1
  | undefined => exact absurd rfl given.2.1
  | date iso => exact ⟨iso, (Option.some.inj (Option.some.inj is)).symm⟩
  | invalidDate => cases is
  | number n => exact made _ (Option.some.inj is)
  | _ => exact read is

theorem takes_castNumber {into : CastTo} {n : Number} {s : String} {w : Value} (is : castNumber rt into n s = some w) :
    Given w ∧ takesDouble w := by
  unfold castNumber at is
  split at is
  · cases is
  · split at is
    · obtain rfl := Option.some.inj is
      exact ⟨by simp [Given], trivial⟩
    · obtain rfl := Option.some.inj is
      exact ⟨by simp [Given], trivial⟩
    · cases is
    · cases is

/-- What is cast to a number is one, or a `bigint`. -/
theorem cast_numeric {into : CastTo} (numeric : into = .number ∨ into = .integer) {v w : Value} (given : Given v)
    (is : cast rt into v = some (some w)) : Given w ∧ takesDouble w := by
  have number (n : Number) (is : ((text rt v).map fun s => castNumber rt into n s) = some (some w)) :
      Given w ∧ takesDouble w := by
    obtain ⟨s, -, is⟩ := Option.map_eq_some_iff.mp is
    exact takes_castNumber is
  have read (is : ((text rt v).map fun s => castNumber rt into (rt.numberOf (rt.trim s)) s) = some (some w)) :
      Given w ∧ takesDouble w := by
    obtain ⟨s, -, is⟩ := Option.map_eq_some_iff.mp is
    exact takes_castNumber is
  rcases numeric with rfl | rfl <;> cases v with
  | null => exact absurd rfl given.1
  | undefined => exact absurd rfl given.2.1
  | bool b =>
    obtain rfl := Option.some.inj (Option.some.inj is)
    exact ⟨by simp [Given], trivial⟩
  | bigint n =>
    obtain rfl := Option.some.inj (Option.some.inj is)
    exact ⟨by simp [Given], trivial⟩
  | number n => exact number n is
  | _ => exact read is

theorem mask_null {m : Mask} {v : Value} (null : m.mode = .null) (given : Given v) : mask rt m v = some .null := by
  unfold mask
  split
  · exact absurd rfl given.1
  · exact absurd rfl given.2.1
  · rw [null]

/-- What is hidden is a text. -/
theorem mask_given {m : Mask} {v w : Value} (hides : m.mode ≠ .null) (given : Given v) (is : mask rt m v = some w) :
    ∃ s, w = .string s := by
  unfold mask at is
  split at is
  · exact absurd rfl given.1
  · exact absurd rfl given.2.1
  · split at is
    · exact absurd ‹_› hides
    · obtain ⟨s, -, is⟩ := Option.map_eq_some_iff.mp is
      exact ⟨_, is.symm⟩
    · obtain ⟨s, -, is⟩ := Option.map_eq_some_iff.mp is
      exact ⟨_, is.symm⟩
    · obtain ⟨s, -, is⟩ := Option.map_eq_some_iff.mp is
      dsimp only at is
      split at is
      · exact ⟨_, is.symm⟩
      · exact ⟨_, is.symm⟩

end

end Syncle.Shape
