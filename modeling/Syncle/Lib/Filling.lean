import Mathlib.Data.List.Infix
import Mathlib.Logic.Function.Basic
import Mathlib.Tactic.Common

/-!
# Patterns

A pattern is letters and variables; filled in, it is a word. Whether two fillings come to the same
word is told from the pattern and their words, slot by slot: one of the two is ahead by some letters,
and the other has to catch up with just those (`keepStep_iff`). Where one variable alone is filled
otherwise, it cannot (`fill_inj_of_agree`); nor where each variable is closed by a letter that no word
has (`agree_of_closed`). Where a pattern has two variables, one of them at one place only, it can
(`exists_same_fill`).
-/

namespace Syncle.Lib

variable {α ν : Type*}

inductive Slot (α ν : Type*) where
  | letter (a : α)
  | var (v : ν)

def fill (s : ν → List α) : List (Slot α ν) → List α
  | [] => []
  | .letter a :: p => a :: fill s p
  | .var v :: p => s v ++ fill s p

section Fill

variable {s s' : ν → List α} {p : List (Slot α ν)} {v : ν}

@[simp] theorem fill_nil : fill s ([] : List (Slot α ν)) = [] := rfl

@[simp] theorem fill_letter {a : α} : fill s (.letter a :: p) = a :: fill s p := rfl

@[simp] theorem fill_var : fill s (.var v :: p) = s v ++ fill s p := rfl

@[simp] theorem fill_append {q : List (Slot α ν)} : fill s (p ++ q) = fill s p ++ fill s q := by
  induction p with
  | nil => rfl
  | cons slot p ih =>
    cases slot with
    | letter a => simp [ih]
    | var v => simp [ih]

theorem fill_congr (agree : ∀ v, .var v ∈ p → s v = s' v) : fill s p = fill s' p := by
  induction p with
  | nil => rfl
  | cons slot p ih =>
    have rest := ih fun v mem => agree v (List.mem_cons_of_mem _ mem)
    cases slot with
    | letter a => rw [fill_letter, fill_letter, rest]
    | var v => rw [fill_var, fill_var, agree v List.mem_cons_self, rest]

/-! ## One variable -/

section One

variable (agree : ∀ u, u ≠ v → s u = s' u)

include agree

theorem length_fill_le (shorter : (s v).length ≤ (s' v).length) :
    (fill s p).length ≤ (fill s' p).length := by
  induction p with
  | nil => exact Nat.le_refl 0
  | cons slot p ih =>
    cases slot with
    | letter a => exact Nat.succ_le_succ ih
    | var u =>
      have here : (s u).length ≤ (s' u).length := by
        by_cases is : u = v
        · rw [is]
          exact shorter
        · rw [agree u is]
      rw [fill_var, fill_var, List.length_append, List.length_append]
      exact Nat.add_le_add here ih

theorem length_fill_lt (shorter : (s v).length < (s' v).length) (mem : .var v ∈ p) :
    (fill s p).length < (fill s' p).length := by
  obtain ⟨front, back, rfl⟩ := List.append_of_mem mem
  have before := length_fill_le (p := front) agree shorter.le
  have after := length_fill_le (p := back) agree shorter.le
  simp only [fill_append, fill_var, List.length_append]
  omega

/-- Fillings that differ in one variable of a pattern come to different words. -/
theorem fill_inj_of_agree (mem : .var v ∈ p) (same : fill s p = fill s' p) : s v = s' v := by
  have length : (s v).length = (s' v).length := by
    rcases Nat.lt_trichotomy (s v).length (s' v).length with shorter | equal | longer
    · exact absurd (congrArg List.length same) (length_fill_lt agree shorter mem).ne
    · exact equal
    · have back : ∀ u, u ≠ v → s' u = s u := fun u apart => (agree u apart).symm
      exact absurd (congrArg List.length same) (length_fill_lt back longer mem).ne'
  induction p with
  | nil => cases mem
  | cons slot p ih =>
    cases slot with
    | letter a =>
      refine ih ?_ (List.cons.inj same).2
      simpa using mem
    | var u =>
      by_cases is : u = v
      · rw [is] at same
        exact List.append_inj_left same length
      · refine ih ?_ ?_
        · simpa [Ne.symm is] using mem
        · rw [fill_var, fill_var, agree u is] at same
          exact List.append_cancel_left same

end One

/-! ## Two fillings, side by side -/

/-- Both fillings are read slot by slot; the first is ahead of the second by some letters. They keep
step if the second comes by just those letters, and at the end neither is ahead. -/
def keepStep [DecidableEq α] (s s' : ν → List α) : List α → List (Slot α ν) → Bool
  | ahead, [] => ahead.isEmpty
  | [], .letter _ :: p => keepStep s s' [] p
  | b :: ahead, .letter a :: p => b = a && keepStep s s' (ahead ++ [a]) p
  | ahead, .var v :: p =>
    if s' v <+: ahead ++ s v then keepStep s s' ((ahead ++ s v).drop (s' v).length) p
    else if ahead ++ s v <+: s' v then
      -- now it is the second that is ahead
      keepStep s' s ((s' v).drop (ahead ++ s v).length) p
    else false

variable [DecidableEq α]

/-- **Fillings come to the same word where they keep step.** -/
theorem keepStep_iff {ahead : List α} :
    keepStep s s' ahead p = true ↔ ahead ++ fill s p = fill s' p := by
  induction p generalizing s s' ahead with
  | nil => simp [keepStep]
  | cons slot p ih =>
    cases slot with
    | letter a =>
      cases ahead with
      | nil => simp [keepStep, ih]
      | cons b ahead =>
        simp only [keepStep, Bool.and_eq_true, decide_eq_true_eq, ih, fill_letter, List.cons_append,
          List.cons.injEq, List.append_assoc, List.nil_append]
    | var v =>
      rw [keepStep, fill_var, fill_var, ← List.append_assoc]
      split_ifs with shorter longer
      · obtain ⟨more, is⟩ := shorter
        rw [ih, ← is, List.drop_left, List.append_assoc, List.append_cancel_left_eq]
      · obtain ⟨more, is⟩ := longer
        rw [ih, ← is, List.drop_left, List.append_assoc (ahead ++ s v), List.append_cancel_left_eq]
        exact eq_comm
      · simp only [false_iff]
        intro same
        rcases List.append_eq_append_iff.mp same with ⟨more, is, -⟩ | ⟨more, is, -⟩
        · exact longer ⟨more, is.symm⟩
        · exact shorter ⟨more, is.symm⟩

/-! ## A letter behind each variable -/

/-- Behind each variable there is a letter of those, or nothing. -/
def Closed (letters : α → Prop) : List (Slot α ν) → Prop
  | [] => True
  | .letter _ :: p => Closed letters p
  | .var _ :: [] => True
  | .var _ :: .letter a :: p => letters a ∧ Closed letters p
  | .var _ :: .var _ :: _ => False

omit [DecidableEq α] in
/-- A word up to the first letter of a kind. -/
theorem append_cons_inj_of_free {letters : α → Prop} {a : α} (letter : letters a)
    {w w' rest rest' : List α} (free : ∀ b ∈ w, ¬ letters b) (free' : ∀ b ∈ w', ¬ letters b)
    (same : w ++ a :: rest = w' ++ a :: rest') : w = w' ∧ rest = rest' := by
  induction w generalizing w' with
  | nil =>
    cases w' with
    | nil => exact ⟨rfl, (List.cons.inj same).2⟩
    | cons b w' =>
      obtain ⟨rfl, -⟩ := List.cons.inj same
      exact absurd letter (free' _ List.mem_cons_self)
  | cons b w ih =>
    cases w' with
    | nil =>
      obtain ⟨rfl, -⟩ := List.cons.inj same
      exact absurd letter (free _ List.mem_cons_self)
    | cons b' w' =>
      obtain ⟨rfl, tails⟩ := List.cons.inj same
      obtain ⟨rfl, rest⟩ := ih (fun b mem => free b (List.mem_cons_of_mem _ mem))
        (fun b mem => free' b (List.mem_cons_of_mem _ mem)) tails
      exact ⟨rfl, rest⟩

omit [DecidableEq α] in
/-- Where no word has one of the letters, fillings that come to the same word agree. -/
theorem agree_of_closed {letters : α → Prop} : ∀ {p : List (Slot α ν)}, Closed letters p →
    (∀ v, .var v ∈ p → (∀ a ∈ s v, ¬ letters a) ∧ ∀ a ∈ s' v, ¬ letters a) →
      fill s p = fill s' p → ∀ v, .var v ∈ p → s v = s' v
  | [], _, _, _, v, mem => by cases mem
  | .letter a :: p, closed, free, same, v, mem => by
    have inner : Closed letters p := closed
    refine agree_of_closed inner (fun v mem => free v (List.mem_cons_of_mem _ mem))
      (List.cons.inj same).2 v ?_
    simpa using mem
  | [.var u], _, _, same, v, mem => by
    obtain rfl : v = u := by simpa using mem
    simpa using same
  | .var u :: .letter a :: p, closed, free, same, v, mem => by
    obtain ⟨letter, inner⟩ := closed
    obtain ⟨word, rest⟩ := append_cons_inj_of_free letter (free u List.mem_cons_self).1
      (free u List.mem_cons_self).2 same
    by_cases is : v = u
    · rw [is]
      exact word
    · refine agree_of_closed inner (fun v mem => free v ?_) rest v ?_
      · exact List.mem_cons_of_mem _ (List.mem_cons_of_mem _ mem)
      · simpa [is] using mem
  | .var _ :: .var _ :: _, closed, _, _, _, _ => absurd closed id

end Fill

/-! ## Two variables -/

section Two

variable [DecidableEq ν] (c : ν → List α) (u : ν)

theorem exists_prefix_fill (p : List (Slot α ν)) :
    ∃ t, ∀ w, c u ++ t <+: w → fill c p <+: fill (Function.update c u w) p := by
  induction p with
  | nil => exact ⟨[], fun _ _ => List.prefix_rfl⟩
  | cons slot p ih =>
    obtain ⟨t, longer⟩ := ih
    cases slot with
    | letter a => exact ⟨t, fun w begins => (List.prefix_cons_inj a).mpr (longer w begins)⟩
    | var v =>
      by_cases is : v = u
      · subst is
        refine ⟨fill c p, fun w begins => ?_⟩
        rw [fill_var, fill_var, Function.update_self]
        exact begins.trans (List.prefix_append _ _)
      · refine ⟨t, fun w begins => ?_⟩
        rw [fill_var, fill_var, Function.update_of_ne is]
        exact (List.prefix_append_right_inj _).mpr (longer w begins)

theorem exists_suffix_fill (p : List (Slot α ν)) :
    ∃ t, ∀ w, t ++ c u <:+ w → fill c p <:+ fill (Function.update c u w) p := by
  induction p using List.reverseRecOn with
  | nil => exact ⟨[], fun _ _ => List.suffix_rfl⟩
  | append_singleton p slot ih =>
    obtain ⟨t, longer⟩ := ih
    cases slot with
    | letter a =>
      refine ⟨t, fun w ends => ?_⟩
      obtain ⟨front, is⟩ := longer w ends
      exact ⟨front, by simp [← is]⟩
    | var v =>
      by_cases is : v = u
      · subst is
        refine ⟨fill c p, fun w ends => ?_⟩
        simp only [fill_append, fill_var, fill_nil, List.append_nil, Function.update_self]
        exact ends.trans (List.suffix_append _ _)
      · refine ⟨t, fun w ends => ?_⟩
        obtain ⟨front, same⟩ := longer w ends
        exact ⟨front, by simp [← same, Function.update_of_ne is]⟩

variable {c u}

/-- **A pattern with two variables, one of them at one place, has fillings that come to the same
word**: the other's word can be one that begins and ends as what stood around the one. -/
theorem exists_same_fill (some : ∀ v, c v ≠ []) {v : ν} (apart : u ≠ v) {front back : List (Slot α ν)}
    (before : .var v ∉ front) (after : .var v ∉ back) :
    ∃ s s' : ν → List α, (∀ x, s x ≠ []) ∧ (∀ x, s' x ≠ []) ∧ s u ≠ s' u ∧
      fill s (front ++ .var v :: back) = fill s' (front ++ .var v :: back) := by
  obtain ⟨t, begins⟩ := exists_prefix_fill c u front
  obtain ⟨t', ends⟩ := exists_suffix_fill c u back
  let w := (c u ++ t) ++ (t' ++ c u)
  obtain ⟨more, hmore⟩ := begins w (List.prefix_append _ _)
  obtain ⟨less, hless⟩ := ends w (List.suffix_append _ _)
  have longer : (c u).length < w.length := by
    have := List.length_pos_iff.mpr (some u)
    simp only [w, List.length_append]
    omega
  -- the variable at one place takes up what is left
  have kept (x : ν → List α) (b : List α) {p : List (Slot α ν)} (off : .var v ∉ p) :
      fill (Function.update x v b) p = fill x p :=
    fill_congr fun y mem => Function.update_of_ne (fun is => off (is ▸ mem)) _ _
  have nonempty {x : ν → List α} (some : ∀ y, x y ≠ []) {z : ν} {b : List α} (b' : b ≠ []) (y : ν) :
      Function.update x z b y ≠ [] := by
    by_cases is : y = z
    · subst is
      rwa [Function.update_self]
    · rw [Function.update_of_ne is]
      exact some y
  have w' : w ≠ [] := List.ne_nil_of_length_pos (Nat.zero_lt_of_lt longer)
  refine ⟨Function.update c v (more ++ c v ++ less), Function.update (Function.update c u w) v (c v),
    nonempty some ?_, nonempty (nonempty some w') (some v), ?_, ?_⟩
  · simp [some v]
  · rw [Function.update_of_ne apart, Function.update_of_ne apart, Function.update_self]
    exact fun same => longer.ne (congrArg List.length same)
  · simp only [fill_append, fill_var, Function.update_self, kept _ _ before, kept _ _ after,
      ← hmore, ← hless, List.append_assoc]

end Two

end Syncle.Lib
