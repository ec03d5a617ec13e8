import Mathlib.Tactic.Common
import Mathlib.Data.Option.Basic
import Mathlib.Data.List.Forall2

/-!
# Folds that may fail

`List.foldlM` in `Option` runs steps over a state until one fails. What every step keeps, the whole
fold keeps; and two folds over the same steps stay related if every step keeps them so. `mapM` is
the same without a state.
-/

namespace Syncle.Lib

variable {α σ τ : Type*} {f : σ → α → Option σ} {g : τ → α → Option τ}

/-- What every step keeps holds at the end. -/
theorem foldlM_keeps {I : σ → Prop} {l : List α}
    (step : ∀ x ∈ l, ∀ s s', I s → f s x = some s' → I s') {s s' : σ} (start : I s)
    (h : l.foldlM f s = some s') : I s' := by
  induction l generalizing s with
  | nil =>
    obtain rfl : s = s' := Option.some.inj h
    exact start
  | cons x l ih =>
    rw [List.foldlM_cons] at h
    obtain ⟨t, ht, rest⟩ := Option.bind_eq_some_iff.mp h
    have next := step x List.mem_cons_self s t start ht
    exact ih (fun y hy => step y (List.mem_cons_of_mem _ hy)) next rest

/-- Two folds that both reach their end, there. -/
theorem foldlM_related {R : σ → τ → Prop} {l : List α}
    (step : ∀ x ∈ l, ∀ s s' t t', R s t → f s x = some s' → g t x = some t' → R s' t')
    {s s' : σ} {t t' : τ} (start : R s t) (hf : l.foldlM f s = some s')
    (hg : l.foldlM g t = some t') : R s' t' := by
  induction l generalizing s t with
  | nil =>
    obtain rfl : s = s' := Option.some.inj hf
    obtain rfl : t = t' := Option.some.inj hg
    exact start
  | cons x l ih =>
    rw [List.foldlM_cons] at hf hg
    obtain ⟨u, hu, restf⟩ := Option.bind_eq_some_iff.mp hf
    obtain ⟨v, hv, restg⟩ := Option.bind_eq_some_iff.mp hg
    have next := step x List.mem_cons_self s u t v start hu hv
    exact ih (fun y hy => step y (List.mem_cons_of_mem _ hy)) next restf restg

/-- Two folds beside a third that reaches its end: every step fails in both, or keeps them related. -/
theorem foldlM_rel_beside {υ : Type*} {k : υ → α → Option υ} {R : σ → τ → υ → Prop} {l : List α}
    (step : ∀ x ∈ l, ∀ s t u u', R s t u → k u x = some u' →
      Option.Rel (fun s' t' => R s' t' u') (f s x) (g t x))
    {s : σ} {t : τ} {u u' : υ} (start : R s t u) (hk : l.foldlM k u = some u') :
    Option.Rel (fun s' t' => R s' t' u') (l.foldlM f s) (l.foldlM g t) := by
  induction l generalizing s t u with
  | nil =>
    obtain rfl : u = u' := Option.some.inj hk
    exact .some start
  | cons x l ih =>
    rw [List.foldlM_cons] at hk
    obtain ⟨v, hv, rest⟩ := Option.bind_eq_some_iff.mp hk
    rw [List.foldlM_cons, List.foldlM_cons]
    have here := step x List.mem_cons_self s t u v start hv
    generalize f s x = a at here ⊢
    generalize g t x = b at here ⊢
    cases here with
    | none => exact .none
    | some next => exact ih (fun y hy => step y (List.mem_cons_of_mem _ hy)) next rest

/-- What a map that may fail makes of each element. -/
theorem forall₂_of_mapM {f : α → Option σ} {l : List α} {l' : List σ} (h : l.mapM f = some l') :
    List.Forall₂ (fun x y => f x = some y) l l' := by
  induction l generalizing l' with
  | nil =>
    obtain rfl : [] = l' := Option.some.inj h
    exact .nil
  | cons x l ih =>
    rw [List.mapM_cons] at h
    obtain ⟨y, hy, rest⟩ := Option.bind_eq_some_iff.mp h
    obtain ⟨ys, hys, done⟩ := Option.bind_eq_some_iff.mp rest
    obtain rfl : y :: ys = l' := Option.some.inj done
    exact .cons hy (ih hys)

/-- What it made, it made of one of the elements. -/
theorem mem_mapM {f : α → Option σ} {l : List α} {l' : List σ} (h : l.mapM f = some l') {y : σ} :
    y ∈ l' ↔ ∃ x ∈ l, f x = some y := by
  have each := forall₂_of_mapM h
  clear h
  induction each with
  | nil => simp
  | @cons x z l l' here _ ih =>
    rw [List.mem_cons, List.exists_mem_cons_iff, here, Option.some.injEq]
    exact or_congr eq_comm ih

/-- And it made something of every one. -/
theorem isSome_of_mapM {f : α → Option σ} {l : List α} {l' : List σ} (h : l.mapM f = some l') {x : α}
    (mem : x ∈ l) : ∃ y, f x = some y := by
  have each := forall₂_of_mapM h
  clear h
  induction each with
  | nil => cases mem
  | @cons z y l l' here _ ih =>
    rcases List.mem_cons.mp mem with rfl | mem
    · exact ⟨y, here⟩
    · exact ih mem

/-- A map that may fail comes to what another does that finds the same wherever it finds. -/
theorem mapM_of_imp {f g : α → Option σ} {l : List α}
    (same : ∀ x ∈ l, ∀ y, f x = some y → g x = some y) {l' : List σ} (h : l.mapM f = some l') :
    l.mapM g = some l' := by
  induction l generalizing l' with
  | nil => exact h
  | cons x l ih =>
    rw [List.mapM_cons] at h ⊢
    obtain ⟨y, hy, rest⟩ := Option.bind_eq_some_iff.mp h
    obtain ⟨ys, hys, done⟩ := Option.bind_eq_some_iff.mp rest
    rw [same x List.mem_cons_self y hy, ih (fun z hz => same z (List.mem_cons_of_mem _ hz)) hys]
    exact done

end Syncle.Lib
