import Mathlib.Algebra.Order.Group.Nat
import Syncle.Lib.Glob

/-!
# JavaScript: a part of its regular expressions

The text of a regular expression between `^` and `$`: letters, escaped letters, classes, and a class
followed by `*`. A text that is no such one is `beyond` what is read here; a text that no JavaScript
engine reads is a `syntaxError`.
-/

namespace Syncle.Js

open Syncle.Lib

inductive RegExpFault where
  | syntaxError
  | beyond
  deriving DecidableEq

def syntaxCharacters : List ℕ :=
  ['^', '$', '\\', '.', '*', '+', '?', '(', ')', '[', ']', '{', '}', '|'].map Char.toNat

/-! ## Classes -/

def isSpace (u : ℕ) : Bool :=
  (9 ≤ u ∧ u ≤ 13) ∨ (0x2000 ≤ u ∧ u ≤ 0x200A) ∨
    u ∈ [0x20, 0xA0, 0x1680, 0x2028, 0x2029, 0x202F, 0x205F, 0x3000, 0xFEFF]

/-- `text.trim()` -/
def trim (text : List Char) : List Char :=
  ((text.dropWhile fun c => isSpace c.toNat).reverse.dropWhile fun c => isSpace c.toNat).reverse

section Trim

variable {p : Char → Bool}

/-- A letter that stays keeps what comes before it. -/
theorem dropWhile_concat {c : Char} (stays : p c = false) (text : List Char) :
    (text ++ [c]).dropWhile p = text.dropWhile p ++ [c] := by
  induction text with
  | nil => simp [stays]
  | cons a text ih =>
    cases goes : p a with
    | true => simpa [goes] using ih
    | false => simp [goes]

/-- Nothing of what is left goes. -/
theorem dropWhile_head (text : List Char) :
    text.dropWhile p = [] ∨ ∃ c rest, text.dropWhile p = c :: rest ∧ p c = false := by
  induction text with
  | nil => exact Or.inl rfl
  | cons a text ih =>
    cases goes : p a with
    | true => simpa [goes] using ih
    | false => exact Or.inr ⟨a, text, by simp [goes], goes⟩

theorem dropWhile_dropWhile (text : List Char) : (text.dropWhile p).dropWhile p = text.dropWhile p := by
  obtain none | ⟨c, rest, is, stays⟩ := @dropWhile_head p text
  · rw [none]
    rfl
  · simp [is, stays]

end Trim

theorem trim_trim (text : List Char) : trim (trim text) = trim text := by
  obtain none | ⟨c, rest, is, stays⟩ := @dropWhile_head (fun c => isSpace c.toNat) text
  · simp [trim, none]
  · have once : trim text = c :: (rest.reverse.dropWhile fun c => isSpace c.toNat).reverse := by
      rw [trim, is, List.reverse_cons, dropWhile_concat stays, List.reverse_append]
      rfl
    rw [once, trim, List.dropWhile_cons_of_neg (by simpa using stays), List.reverse_cons,
      List.reverse_reverse, dropWhile_concat stays, dropWhile_dropWhile, List.reverse_append]
    rfl

inductive ClassAtom where
  | unit (u : ℕ)
  | space
  | nonSpace

inductive ClassMember where
  | range (least most : ℕ)
  | space
  | nonSpace

def ClassMember.has (u : ℕ) : ClassMember → Bool
  | .range least most => least ≤ u && u ≤ most
  | .space => isSpace u
  | .nonSpace => !isSpace u

def ClassAtom.member : ClassAtom → ClassMember
  | .unit u => .range u u
  | .space => .space
  | .nonSpace => .nonSpace

def classEscape (u : ℕ) : Except RegExpFault ClassAtom :=
  if u = 's'.toNat then .ok .space
  else if u = 'S'.toNat then .ok .nonSpace
  else if u ∈ syntaxCharacters then .ok (.unit u)
  else .error .beyond

/-- The atoms of a class up to the bracket that closes it, and how many units that is. -/
@[grind =]
def classAtoms : List ℕ → Except RegExpFault (List ClassAtom × ℕ)
  | [] => .error .syntaxError
  | u :: rest =>
    if u = ']'.toNat then .ok ([], 1)
    else if u = '\\'.toNat then
      match rest with
      | [] => .error .syntaxError
      | e :: rest => do
        let atom ← classEscape e
        let (atoms, length) ← classAtoms rest
        return (atom :: atoms, length + 2)
    else do
      let (atoms, length) ← classAtoms rest
      return (.unit u :: atoms, length + 1)

/-- A dash between two atoms makes a range of them, which goes up; `skip` atoms were read before. -/
def classRanges : ℕ → List ClassAtom → Except RegExpFault (List ClassMember)
  | _, [] => .ok []
  | skip + 1, _ :: rest => classRanges skip rest
  | 0, a :: rest =>
    match rest.take 2 with
    | [.unit dash, b] =>
      if dash = '-'.toNat then
        match a, b with
        | .unit least, .unit most =>
          if most < least then .error .syntaxError
          else do return .range least most :: (← classRanges 2 rest)
        | _, _ => .error .beyond
      else do return a.member :: (← classRanges 0 rest)
    | _ => do return a.member :: (← classRanges 0 rest)

/-- What a class takes. -/
def hasMember (members : List ClassMember) (negated : Bool) (u : ℕ) : Bool :=
  (members.any (·.has u)) != negated

/-! ## A regular expression -/

/-- The terms up to the `$` at the end; `skip` units of a term were read before. -/
@[grind =]
def terms : ℕ → List ℕ → Except RegExpFault (List (GlobItem ℕ))
  | _, [] => .error .beyond
  | skip + 1, _ :: rest => terms skip rest
  | 0, u :: rest =>
    if u = '$'.toNat then (if rest = [] then .ok [] else .error .beyond)
    else if u = '\\'.toNat then
      match rest.head? with
      | none => .error .syntaxError
      | some e =>
        if e ∈ syntaxCharacters then do return .letter e :: (← terms 1 rest)
        else .error .beyond
    else if u = '['.toNat then do
      let negated : Bool := rest.head? = some '^'.toNat
      let opening := if negated then 1 else 0
      let (atoms, length) ← classAtoms (rest.drop opening)
      let members ← classRanges 0 atoms
      if (rest.drop (opening + length)).head? = some '*'.toNat then
        return .many (hasMember members negated) :: (← terms (opening + length + 1) rest)
      else return .one (hasMember members negated) :: (← terms (opening + length) rest)
    else if u ∈ syntaxCharacters then .error .beyond
    else do return .letter u :: (← terms 0 rest)

def regExp : List ℕ → Except RegExpFault (List (GlobItem ℕ))
  | u :: rest => if u = '^'.toNat then terms 0 rest else .error .beyond
  | [] => .error .beyond

/-- `new RegExp(text).test(value)` -/
def regExpTest (text value : List ℕ) : Except RegExpFault Bool := do
  return accepts (← regExp text) value

/-! ## Reading a text from the left -/

theorem ok_bind {α β : Type} {x : α} {f : α → Except RegExpFault β} : (Except.ok x >>= f) = f x := rfl

theorem classAtoms_close {rest : List ℕ} : classAtoms (']'.toNat :: rest) = .ok ([], 1) := by
  rw [classAtoms.eq_def]
  exact if_pos rfl

theorem classAtoms_escape {e : ℕ} {rest : List ℕ} {atom : ClassAtom} {atoms : List ClassAtom}
    {length : ℕ} (escape : classEscape e = .ok atom) (read : classAtoms rest = .ok (atoms, length)) :
    classAtoms ('\\'.toNat :: e :: rest) = .ok (atom :: atoms, length + 2) := by
  rw [classAtoms, if_neg (by decide), if_pos rfl]
  simp only [escape, read, ok_bind]
  rfl

theorem classAtoms_unit {u : ℕ} {rest : List ℕ} {atoms : List ClassAtom} {length : ℕ}
    (bracket : u ≠ ']'.toNat) (backslash : u ≠ '\\'.toNat)
    (read : classAtoms rest = .ok (atoms, length)) :
    classAtoms (u :: rest) = .ok (.unit u :: atoms, length + 1) := by
  rw [classAtoms.eq_def]
  simp only [if_neg bracket, if_neg backslash, read, ok_bind]
  rfl

theorem terms_skip (front : List ℕ) {rest : List ℕ} {skip : ℕ} (is : front.length = skip) :
    terms skip (front ++ rest) = terms 0 rest := by
  induction front generalizing skip with
  | nil => rw [← is]; rfl
  | cons u front ih =>
    rw [← is, List.length_cons, List.cons_append]
    cases h : front ++ rest with
    | nil =>
      obtain ⟨rfl, rfl⟩ := List.append_eq_nil_iff.mp h
      rfl
    | cons v more =>
      rw [terms, ← h, ih rfl]

theorem terms_letter {u : ℕ} {rest : List ℕ} (plain : u ∉ syntaxCharacters) :
    terms 0 (u :: rest) = (terms 0 rest).map (.letter u :: ·) := by
  have apart {v : ℕ} (mem : v ∈ syntaxCharacters) : u ≠ v := fun is => plain (is ▸ mem)
  rw [terms, if_neg (apart (by decide)), if_neg (apart (by decide)), if_neg (apart (by decide)),
    if_neg plain]
  rfl

theorem terms_escaped {u : ℕ} {rest : List ℕ} (mem : u ∈ syntaxCharacters) :
    terms 0 ('\\'.toNat :: u :: rest) = (terms 0 rest).map (.letter u :: ·) := by
  rw [terms, if_neg (by decide), if_pos rfl]
  simp only [List.head?_cons, if_pos mem]
  have read : terms 1 (u :: rest) = terms 0 rest := terms_skip [u] rfl
  rw [read]
  rfl

theorem terms_class (negated : Bool) (text rest : List ℕ) {atoms : List ClassAtom}
    (caret : negated = false → text.head? ≠ some '^'.toNat) (some_ : text ≠ [])
    (read : classAtoms (text ++ rest) = .ok (atoms, text.length)) :
    terms 0 ('['.toNat :: ((if negated then ['^'.toNat] else []) ++ text ++ rest)) =
      (classRanges 0 atoms).bind fun members =>
        if rest.head? = some '*'.toNat then
          (terms 0 rest.tail).map (.many (hasMember members negated) :: ·)
        else (terms 0 rest).map (.one (hasMember members negated) :: ·) := by
  rw [terms, if_neg (by decide), if_neg (by decide), if_pos rfl]
  have opened : decide (((if negated then ['^'.toNat] else []) ++ text ++ rest).head? =
      some '^'.toNat) = negated := by
    cases negated with
    | true => simp
    | false =>
      cases text with
      | nil => exact absurd rfl some_
      | cons u text => simpa using caret rfl
  have front : ((if negated then ['^'.toNat] else []) ++ text ++ rest).drop
      (if negated then 1 else 0) = text ++ rest := by
    cases negated <;> simp
  have behind : ((if negated then ['^'.toNat] else []) ++ text ++ rest).drop
      ((if negated then 1 else 0) + text.length) = rest := by
    rw [← List.drop_drop, front, List.drop_left]
  have skipped : terms ((if negated then 1 else 0) + text.length)
      ((if negated then ['^'.toNat] else []) ++ text ++ rest) = terms 0 rest :=
    terms_skip _ (by cases negated <;> simp [Nat.add_comm])
  simp only [opened, front, read, ok_bind]
  show (classRanges 0 atoms).bind _ = _
  refine congrArg _ (funext fun members => ?_)
  rw [behind]
  split
  · rename_i starred
    cases rest with
    | nil => simp at starred
    | cons star rest =>
      have read : terms ((if negated then 1 else 0) + text.length + 1)
          ((if negated then ['^'.toNat] else []) ++ text ++ star :: rest) = terms 0 rest := by
        rw [List.append_cons]
        exact terms_skip _ (by cases negated <;> simp [Nat.add_comm])
      rw [read]
      rfl
  · rw [skipped]
    rfl

end Syncle.Js
