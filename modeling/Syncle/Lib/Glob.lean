import Mathlib.Data.List.Infix
import Mathlib.Tactic.Common

/-!
# Globs

A glob is a list of items, each one letter of some set or any stretch of such letters. The same glob
may be read over the letters of a text and over the units the letters are written with (bytes, code
units). The two readings accept the same texts where a unit that begins a letter is told from the
others, and every item takes whole letters of those it can meet (`Meets`).
-/

namespace Syncle.Lib

variable {α β : Type*}

/-! ## Items -/

inductive GlobItem (α : Type*) where
  | many (p : α → Bool)
  | one (p : α → Bool)

abbrev GlobItem.any : GlobItem α := .one fun _ => true

abbrev GlobItem.star : GlobItem α := .many fun _ => true

/-- A stretch of letters of `p`, as long as it has to be. -/
def stretch (p : α → Bool) (rest : List α → Bool) : List α → Bool
  | [] => rest []
  | c :: s => rest (c :: s) || (p c && stretch p rest s)

@[grind =]
def accepts : List (GlobItem α) → List α → Bool
  | [], s => s.isEmpty
  | .many p :: rest, s => stretch p (accepts rest) s
  | .one p :: rest, s =>
    match s with
    | [] => false
    | c :: s => p c && accepts rest s

@[simp] theorem accepts_nil {s : List α} : accepts [] s = true ↔ s = [] := by
  simp [accepts]

theorem stretch_eq {p : α → Bool} {rest : List α → Bool} {s : List α} :
    stretch p rest s = true ↔ ∃ front back, s = front ++ back ∧ front.all p = true ∧ rest back = true := by
  induction s with
  | nil => simp [stretch]
  | cons c s ih =>
    rw [stretch, Bool.or_eq_true, Bool.and_eq_true, ih]
    constructor
    · rintro (here | ⟨fits, front, back, rfl, all, later⟩)
      · exact ⟨[], c :: s, rfl, rfl, here⟩
      · exact ⟨c :: front, back, rfl, by rw [List.all_cons, fits, all]; rfl, later⟩
    · rintro ⟨front, back, is, all, later⟩
      cases front with
      | nil => exact Or.inl (by rw [is]; exact later)
      | cons c' front =>
        obtain ⟨rfl, rfl⟩ := List.cons.inj is
        rw [List.all_cons, Bool.and_eq_true] at all
        exact Or.inr ⟨all.1, front, back, rfl, all.2, later⟩

theorem accepts_star {rest : List (GlobItem α)} {s : List α} :
    accepts (.star :: rest) s = true ↔ ∃ front back, s = front ++ back ∧ accepts rest back = true := by
  rw [accepts, stretch_eq]
  simp

@[simp] theorem accepts_one_nil {p : α → Bool} {rest : List (GlobItem α)} :
    accepts (.one p :: rest) [] = false := rfl

@[simp] theorem accepts_one_cons {p : α → Bool} {rest : List (GlobItem α)} {c : α} {s : List α} :
    accepts (.one p :: rest) (c :: s) = (p c && accepts rest s) := rfl

section Literal

variable [DecidableEq α]

abbrev GlobItem.letter (c : α) : GlobItem α := .one fun u => decide (u = c)

def literal (text : List α) : List (GlobItem α) := text.map .letter

@[simp] theorem literal_nil : literal ([] : List α) = [] := rfl

@[simp] theorem literal_cons {u : α} {text : List α} :
    literal (u :: text) = .letter u :: literal text := rfl

theorem accepts_literal {text : List α} {rest : List (GlobItem α)} {s : List α} :
    accepts (literal text ++ rest) s = true ↔ ∃ t, s = text ++ t ∧ accepts rest t = true := by
  induction text generalizing s with
  | nil => simp
  | cons u text ih =>
    rw [literal_cons, List.cons_append]
    cases s with
    | nil => simp
    | cons c s =>
      rw [accepts_one_cons, Bool.and_eq_true, decide_eq_true_eq, ih]
      constructor
      · rintro ⟨rfl, t, rfl, accepted⟩
        exact ⟨t, rfl, accepted⟩
      · rintro ⟨t, is, accepted⟩
        obtain ⟨rfl, rfl⟩ := List.cons.inj is
        exact ⟨rfl, t, rfl, accepted⟩

end Literal

/-! ## Codes -/

/-- A code whose first unit is told from the others, and that can be read from the left. -/
structure SelfSync (code : β → List α) where
  leads : α → Prop
  first : ∀ b, ∃ u t, code b = u :: t ∧ leads u ∧ ∀ x ∈ t, ¬ leads x
  unique : ∀ b b' s s', code b ++ s = code b' ++ s' → b = b' ∧ s = s'

/-- A cut through a written text falls between two letters, or into one. -/
theorem SelfSync.cut {code : β → List α} (sync : SelfSync code) {s : List β} {front back : List α}
    (is : s.flatMap code = front ++ back) :
    ∃ s₁ s₂ t, s = s₁ ++ s₂ ∧ back = t ++ s₂.flatMap code ∧
      (t = [] ∨ ∃ s₀ b u inner, s₁ = s₀ ++ [b] ∧ code b = u :: inner ∧ ∀ x ∈ t, x ∈ inner) := by
  induction s generalizing front with
  | nil =>
    obtain ⟨-, rfl⟩ := List.append_eq_nil_iff.mp is.symm
    exact ⟨[], [], [], rfl, rfl, Or.inl rfl⟩
  | cons b s ih =>
    obtain ⟨u, inner, coded, -, -⟩ := sync.first b
    cases front with
    | nil => exact ⟨[], b :: s, [], rfl, is.symm, Or.inl rfl⟩
    | cons v front =>
      rw [List.flatMap_cons, coded, List.cons_append, List.cons_append] at is
      obtain ⟨-, is⟩ := List.cons.inj is
      rcases List.append_eq_append_iff.mp is with ⟨more, -, is⟩ | ⟨more, split, is⟩
      · obtain ⟨s₁, s₂, t, rfl, rest, within⟩ := ih is
        refine ⟨b :: s₁, s₂, t, rfl, rest, within.imp_right ?_⟩
        rintro ⟨s₀, b', u', inner', rfl, coded', within⟩
        exact ⟨b :: s₀, b', u', inner', rfl, coded', within⟩
      · refine ⟨[b], s, more, rfl, is, Or.inr ⟨[], b, u, inner, rfl, coded, fun x mem => ?_⟩⟩
        rw [split]
        exact List.mem_append_right _ mem

/-! ## A glob over letters and over units -/

/-- An item of a glob over letters. That one letter of a set is taken is good for the texts in which
the item meets none but `letters`. -/
inductive LetterItem (β : Type*) where
  | star
  | letter (b : β)
  | one (p : β → Bool) (letters : β → Prop)

def LetterItem.item [DecidableEq β] : LetterItem β → GlobItem β
  | .star => .star
  | .letter b => .letter b
  | .one p _ => .one p

/-- No item comes to stand before a letter of the text that it is not good for. -/
def Meets : List (LetterItem β) → List β → Prop
  | [], _ => True
  | .star :: is, s => ∀ front back, s = front ++ back → Meets is back
  | .letter b :: is, s => ∀ rest, s = b :: rest → Meets is rest
  | .one p letters :: is, s => ∀ c rest, s = c :: rest → letters c ∧ (p c = true → Meets is rest)

/-- A set of units that takes the letters of `p`, each one unit long. -/
structure Whole (code : β → List α) (letters : β → Prop) (p : β → Bool) (q : α → Bool) : Prop where
  first : ∀ b, letters b → ∀ u t, code b = u :: t → q u = p b ∧ (p b = true → t = [])
  inner : ∀ b, letters b → ∀ u t, code b = u :: t → ∀ x ∈ t, q x = false

/-- How a glob over letters is spelled over their units. -/
inductive Spelled [DecidableEq α] (code : β → List α) :
    List (LetterItem β) → List (GlobItem α) → Prop
  | nil : Spelled code [] []
  | star {is : List (LetterItem β)} {us : List (GlobItem α)} (rest : Spelled code is us) :
    Spelled code (.star :: is) (.star :: us)
  | letter (b : β) {is : List (LetterItem β)} {us : List (GlobItem α)} (rest : Spelled code is us) :
    Spelled code (.letter b :: is) (literal (code b) ++ us)
  | one {letters : β → Prop} {p : β → Bool} {q : α → Bool} (whole : Whole code letters p q)
    {is : List (LetterItem β)} {us : List (GlobItem α)} (rest : Spelled code is us) :
    Spelled code (.one p letters :: is) (.one q :: us)

namespace Spelled

variable [DecidableEq α] {code : β → List α} {is : List (LetterItem β)} {us : List (GlobItem α)}

/-- What is accepted after the units that are left of a letter is accepted without them, if the items
are good for that letter too. -/
theorem drop_inner (spelled : Spelled code is us) (sync : SelfSync code) {b : β} {u : α}
    {inner : List α} (coded : code b = u :: inner) {t : List α} (within : ∀ x ∈ t, x ∈ inner)
    {s : List β} {rest : List α} (meets : Meets is (b :: s)) (accepted : accepts us (t ++ rest) = true) :
    accepts us rest = true := by
  induction spelled generalizing t with
  | nil => exact accepts_nil.mpr (List.append_eq_nil_iff.mp (accepts_nil.mp accepted)).2
  | star _ ih =>
    obtain ⟨front, back, is, later⟩ := accepts_star.mp accepted
    rcases List.append_eq_append_iff.mp is with ⟨more, -, rfl⟩ | ⟨more, split, rfl⟩
    · exact accepts_star.mpr ⟨more, back, rfl, later⟩
    · refine accepts_star.mpr ⟨[], rest, rfl, ih (fun x mem => within x ?_) (meets [] _ rfl) later⟩
      rw [split]
      exact List.mem_append_right _ mem
  | letter c _ _ =>
    cases t with
    | nil => exact accepted
    | cons x t =>
      obtain ⟨u', inner', coded', -, inside⟩ := sync.first b
      obtain ⟨rfl, rfl⟩ := List.cons.inj (coded.symm.trans coded')
      obtain ⟨v, tail, first, leads, -⟩ := sync.first c
      obtain ⟨rest, is, -⟩ := accepts_literal.mp accepted
      rw [first, List.cons_append, List.cons_append] at is
      obtain ⟨rfl, -⟩ := List.cons.inj is
      exact absurd leads (inside _ (within _ List.mem_cons_self))
  | one whole _ _ =>
    cases t with
    | nil => exact accepted
    | cons x t =>
      have good := (meets b s rfl).1
      rw [List.cons_append, accepts_one_cons,
        whole.inner b good u inner coded x (within x List.mem_cons_self)] at accepted
      exact absurd accepted Bool.false_ne_true

/-- A glob and its spelling accept the same texts, of those it is good for. -/
theorem accepts_flatMap [DecidableEq β] (spelled : Spelled code is us) (sync : SelfSync code)
    {s : List β} (meets : Meets is s) :
    accepts us (s.flatMap code) = accepts (is.map LetterItem.item) s := by
  induction spelled generalizing s with
  | nil =>
    rw [Bool.eq_iff_iff, accepts_nil, List.map_nil, accepts_nil]
    cases s with
    | nil => simp
    | cons b s =>
      obtain ⟨u, t, coded, -⟩ := sync.first b
      simp [coded]
  | @star is us rest ih =>
    rw [List.map_cons, LetterItem.item, Bool.eq_iff_iff, accepts_star, accepts_star]
    constructor
    · rintro ⟨front, back, is, accepted⟩
      obtain ⟨s₁, s₂, t, rfl, rfl, inside⟩ := sync.cut is
      refine ⟨s₁, s₂, rfl, ?_⟩
      rw [← ih (meets s₁ s₂ rfl)]
      rcases inside with rfl | ⟨s₀, b, u, inner, rfl, coded, within⟩
      · exact accepted
      · exact rest.drop_inner sync coded within (meets s₀ (b :: s₂) (by simp)) accepted
    · rintro ⟨front, back, rfl, accepted⟩
      refine ⟨front.flatMap code, back.flatMap code, List.flatMap_append, ?_⟩
      rw [ih (meets front back rfl)]
      exact accepted
  | @letter b is us _ ih =>
    rw [List.map_cons, LetterItem.item, Bool.eq_iff_iff, accepts_literal]
    cases s with
    | nil =>
      obtain ⟨u, t, coded, -⟩ := sync.first b
      simp [coded]
    | cons b' s =>
      rw [accepts_one_cons, Bool.and_eq_true, decide_eq_true_eq, List.flatMap_cons]
      constructor
      · rintro ⟨t, is, accepted⟩
        obtain ⟨rfl, rfl⟩ := sync.unique _ _ _ _ is
        exact ⟨rfl, (ih (meets s rfl)).symm.trans accepted⟩
      · rintro ⟨rfl, accepted⟩
        exact ⟨s.flatMap code, rfl, (ih (meets s rfl)).trans accepted⟩
  | @one letters p q whole is us _ ih =>
    rw [List.map_cons, LetterItem.item]
    cases s with
    | nil => rfl
    | cons b s =>
      obtain ⟨u, t, coded, -⟩ := sync.first b
      obtain ⟨good, later⟩ := meets b s rfl
      obtain ⟨same, short⟩ := whole.first b good u t coded
      rw [List.flatMap_cons, coded, List.cons_append, accepts_one_cons, accepts_one_cons, same]
      cases taken : p b with
      | false => rfl
      | true =>
        obtain rfl := short taken
        rw [List.nil_append, ih (later taken)]

end Spelled

end Syncle.Lib
