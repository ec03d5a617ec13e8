import Mathlib.Data.Finset.Card
import Mathlib.Data.List.Chain

/-!
# Walks that keep finding something new

An edge begins at one place and has any number of ends. A walk goes on at an end of its last edge, and
each of its edges has an end where the walk had not begun before (`Trail`).

Over finitely many edges such a walk is short (`Trail.length_le`), unless the edges have a ring: a walk
that comes back to where it began, with an end off the walk at every edge. Round a ring the walk finds
something new for ever.
-/

namespace Syncle.Lib

variable {E V : Type*} (source : E → V) (targets : E → List V)

/-- A walk, its latest edge first. -/
inductive Trail : List E → Prop
  | nil : Trail []
  | cons {e : E} {walk : List E} (trail : Trail walk)
      (from_ : ∀ before ∈ walk.head?, source e ∈ targets before)
      (finds : ∃ v ∈ targets e, v ∉ walk.map source) : Trail (e :: walk)

/-- A walk that comes back to where it began, in the order in which it goes. -/
structure Ring (e : E) (walk : List E) : Prop where
  links : List.IsChain (fun x y => source y ∈ targets x) (e :: walk ++ [e])
  finds : ∀ x ∈ e :: walk, ∃ v ∈ targets x, v ∉ (e :: walk).map source

variable {source targets}

/-- A ring goes on at its next edge, and stays the ring it is. -/
theorem Ring.next {e : E} {walk : List E} (ring : Ring source targets e walk) :
    ∃ next walk', Ring source targets next walk' ∧ source next ∈ targets e ∧
      ∀ x, x ∈ next :: walk' ↔ x ∈ e :: walk := by
  cases walk with
  | nil => exact ⟨e, [], ring, (List.isChain_cons_cons.mp ring.links).1, fun _ => Iff.rfl⟩
  | cons next walk =>
    obtain ⟨first, rest⟩ := List.isChain_cons_cons.mp ring.links
    have same (x : E) : x ∈ next :: (walk ++ [e]) ↔ x ∈ e :: next :: walk := by
      simp [or_comm, or_left_comm]
    refine ⟨next, walk ++ [e], ⟨?_, fun x mem => ?_⟩, first, same⟩
    · refine List.isChain_append.mpr ⟨rest, .singleton _, fun x last y is => ?_⟩
      have last : (next :: walk ++ [e]).getLast? = some x := last
      rw [List.getLast?_concat] at last
      obtain rfl := Option.some.inj last
      obtain rfl := Option.some.inj is
      exact first
    · obtain ⟨v, end_, off⟩ := ring.finds x ((same x).mp mem)
      refine ⟨v, end_, fun on => off ?_⟩
      obtain ⟨y, among, rfl⟩ := List.mem_map.mp on
      exact List.mem_map_of_mem ((same y).mp among)

namespace Trail

theorem of_append (later : List E) {walk : List E} (trail : Trail source targets (later ++ walk)) :
    Trail source targets walk := by
  induction later with
  | nil => exact trail
  | cons e later ih =>
    cases trail with
    | cons trail => exact ih trail

theorem links {walk : List E} (trail : Trail source targets walk) :
    List.IsChain (fun newer older => source newer ∈ targets older) walk := by
  induction trail with
  | nil => exact .nil
  | cons _ from_ _ ih => exact List.isChain_cons.mpr ⟨from_, ih⟩

theorem finds {later walk : List E} {e : E} (trail : Trail source targets (later ++ e :: walk)) :
    ∃ v ∈ targets e, v ∉ walk.map source := by
  cases trail.of_append later with
  | cons _ _ finds => exact finds

variable {edges : List E}
  (noRing : ¬ ∃ e walk, (∀ x ∈ e :: walk, x ∈ edges) ∧ Ring source targets e walk)

include noRing

/-- **Where a walk only comes to places it has been to, it takes no edge twice.** -/
theorem nodup {later walk : List E} (trail : Trail source targets (later ++ walk))
    (sub : ∀ x ∈ later ++ walk, x ∈ edges) (known : ∀ x ∈ later, source x ∈ walk.map source) :
    later.Nodup := by
  induction later with
  | nil => exact .nil
  | cons e later ih =>
    have known' (x : E) (mem : x ∈ later) := known x (List.mem_cons_of_mem _ mem)
    refine List.nodup_cons.mpr ⟨fun again => ?_,
      ih (of_append [e] trail) (fun x mem => sub x (List.mem_cons_of_mem _ mem)) known'⟩
    obtain ⟨before, after, rfl⟩ := List.append_of_mem again
    -- the walk has come back to `e`
    have within (x : E) (mem : x ∈ e :: before.reverse) : x ∈ e :: (before ++ e :: after) := by
      rcases List.mem_cons.mp mem with rfl | mem
      · exact List.mem_cons_self
      · exact List.mem_cons_of_mem _ (List.mem_append_left _ (List.mem_reverse.mp mem))
    refine noRing ⟨e, before.reverse, fun x mem => ?_, ?_, fun x mem => ?_⟩
    · exact sub x (List.mem_append_left _ (within x mem))
    · have links : List.IsChain (fun newer older => source newer ∈ targets older)
          ((e :: before ++ [e]) ++ (after ++ walk)) := by simpa using trail.links
      have back := List.isChain_reverse.mpr (List.isChain_append.mp links).1
      simpa using back
    · have among : x ∈ before ++ [e] := by simpa [or_comm] using mem
      obtain ⟨newer, older, is⟩ := List.append_of_mem among
      have split : e :: (before ++ e :: after) ++ walk = (e :: newer) ++ x :: (older ++ after ++ walk) := by
        have : before ++ e :: after = (before ++ [e]) ++ after := by simp
        simp [this, is]
      obtain ⟨v, end_, new⟩ := finds (split ▸ trail)
      refine ⟨v, end_, fun on => new ?_⟩
      obtain ⟨y, mem, rfl⟩ := List.mem_map.mp on
      rw [List.map_append]
      exact List.mem_append_right _ (known y (within y mem))

omit noRing in
/-- The latest part of a walk in which it came to no new place. -/
theorem split (source : E → V) (walk : List E) : ∃ later rest, walk = later ++ rest ∧
    (∀ x ∈ later, source x ∈ rest.map source) ∧
      ∀ e earlier, rest = e :: earlier → source e ∉ earlier.map source := by
  induction walk with
  | nil => exact ⟨[], [], rfl, fun _ mem => (nomatch mem), fun _ _ is => nomatch is⟩
  | cons e walk ih =>
    by_cases known : source e ∈ walk.map source
    · obtain ⟨later, rest, rfl, sub, new⟩ := ih
      refine ⟨e :: later, rest, rfl, fun x mem => ?_, new⟩
      rcases List.mem_cons.mp mem with rfl | mem
      · rw [List.map_append] at known
        refine (List.mem_append.mp known).elim (fun known => ?_) id
        obtain ⟨y, mem, is⟩ := List.mem_map.mp known
        exact is ▸ sub y mem
      · exact sub x mem
    · refine ⟨[], e :: walk, rfl, fun _ mem => (nomatch mem), fun e' earlier is => ?_⟩
      obtain ⟨rfl, rfl⟩ := List.cons.inj is
      exact known

/-- **Without a ring, a walk that keeps finding something new is short.** -/
theorem length_le {walk : List E} (trail : Trail source targets walk)
    (sub : ∀ x ∈ walk, x ∈ edges) : walk.length ≤ edges.length * (edges.length + 1) := by
  classical
  have byPlaces : walk.length ≤ (walk.map source).toFinset.card * (edges.length + 1) := by
    induction length : walk.length using Nat.strong_induction_on generalizing walk with
    | _ n ih =>
      subst length
      obtain ⟨later, rest, is, known, new⟩ := split source walk
      rw [is] at trail sub
      have short : later.length ≤ edges.length :=
        ((nodup noRing trail sub known).subperm fun x mem =>
          sub x (List.mem_append_left _ mem)).length_le
      cases rest with
      | nil =>
        have none : later = [] := List.eq_nil_iff_forall_not_mem.mpr fun x mem => by
          simpa using known x mem
        simp [is, none]
      | cons e earlier =>
        have earlier_ := ih earlier.length (by simp [is]; omega)
          (of_append (later ++ [e]) (by simpa using trail))
          (fun x mem => sub x (List.mem_append_right _ (List.mem_cons_of_mem _ mem))) rfl
        have places : (earlier.map source).toFinset.card + 1 ≤ (walk.map source).toFinset.card := by
          have fresh : source e ∉ (earlier.map source).toFinset := by
            simpa using new e earlier rfl
          rw [← Finset.card_insert_of_notMem fresh]
          refine Finset.card_le_card fun v mem => ?_
          simp only [is, List.mem_toFinset, Finset.mem_insert, List.map_append, List.map_cons,
            List.mem_append, List.mem_cons] at mem ⊢
          exact .inr mem
        have all := Nat.mul_le_mul_right (edges.length + 1) places
        rw [Nat.add_mul, Nat.one_mul] at all
        simp only [is, List.length_append, List.length_cons] at all ⊢
        omega
  refine byPlaces.trans (Nat.mul_le_mul_right _ ?_)
  refine (Finset.card_le_card (t := (edges.map source).toFinset) fun v mem => ?_).trans
    ((List.toFinset_card_le _).trans (List.length_map source).le)
  obtain ⟨x, among, rfl⟩ := List.mem_map.mp (List.mem_toFinset.mp mem)
  exact List.mem_toFinset.mpr (List.mem_map_of_mem (sub x among))

end Trail

end Syncle.Lib
