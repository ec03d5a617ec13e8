import Mathlib.Data.List.Induction
import Mathlib.Data.List.Perm.Basic
import Syncle.Lib.OrderedMap

/-!
# Batches of a list

A list is cut into slices of a size, or gathered into groups by a key, the groups in the order their
keys first come. Both are the list again: slices one after the other (`flatten_slices`), groups up to
the order (`perm_gathered`). And what is done element by element, each step of which may fail, does
not depend on the order of elements whose steps commute (`foldlM_perm`).
-/

namespace Syncle.Lib

variable {α σ : Type*}

/-! ## Slices -/

/-- `list.slice(i, i + size)`, for `i` by steps of `size`; `fuel` is the length of the list. -/
def slices (size : ℕ) : ℕ → List α → List (List α)
  | 0, _ => []
  | fuel + 1, list => if list = [] then [] else list.take size :: slices size fuel (list.drop size)

theorem flatten_slices {size fuel : ℕ} (pos : 0 < size) {list : List α} (enough : list.length ≤ fuel) :
    (slices size fuel list).flatten = list := by
  induction fuel generalizing list with
  | zero =>
    have none : list = [] := List.length_eq_zero_iff.mp (Nat.le_zero.mp enough)
    simp [slices, none]
  | succ fuel ih =>
    rw [slices]
    split
    case isTrue none => rw [none, List.flatten_nil]
    case isFalse some_ =>
      have rest : (list.drop size).length ≤ fuel := by
        rw [List.length_drop]
        omega
      rw [List.flatten_cons, ih rest, List.take_append_drop]

theorem length_of_mem_slices {size fuel : ℕ} {list slice : List α}
    (mem : slice ∈ slices size fuel list) : slice.length ≤ size := by
  induction fuel generalizing list with
  | zero => cases mem
  | succ fuel ih =>
    rw [slices] at mem
    split at mem
    case isTrue => cases mem
    case isFalse =>
      rcases List.mem_cons.mp mem with rfl | mem
      · exact List.length_take_le _ _
      · exact ih mem

/-! ## Groups -/

section Groups

variable {K G : Type*} [DecidableEq K] (key : α → K) (start : α → G) (push : G → α → G)

/-- One element: to the group of its key, or to a new one. -/
def gatherOne (groups : OrderedMap K G) (x : α) : OrderedMap K G :=
  groups.set (key x) (match groups.get? (key x) with
    | some g => push g x
    | none => start x)

/-- The groups of a list. -/
def gather (list : List α) : OrderedMap K G := list.foldl (gatherOne key start push) .empty

/-- The group of some elements. -/
def groupOf : List α → Option G
  | [] => none
  | x :: rest => some (rest.foldl push (start x))

variable {key start push}

theorem groupOf_concat (list : List α) (x : α) :
    groupOf start push (list ++ [x]) = some (match groupOf start push list with
      | some g => push g x
      | none => start x) := by
  cases list with
  | nil => rfl
  | cons y list => simp [groupOf]

theorem gather_concat (list : List α) (x : α) :
    gather key start push (list ++ [x]) = gatherOne key start push (gather key start push list) x := by
  simp [gather]

theorem eraseDups_concat (keys : List K) (k : K) :
    (keys ++ [k]).eraseDups = if k ∈ keys then keys.eraseDups else keys.eraseDups ++ [k] := by
  rw [List.eraseDups_append]
  by_cases old : k ∈ keys
  · simp [old, List.removeAll]
  · have new : [k].removeAll keys = [k] := by simp [List.removeAll, old]
    rw [if_neg old, new]
    rfl

/-- **A group holds the elements of its key**, in their order. -/
theorem get?_gather (list : List α) (k : K) :
    (gather key start push list).get? k = groupOf start push (list.filter fun x => key x = k) := by
  induction list using List.reverseRecOn with
  | nil => rfl
  | append_singleton list x ih =>
    rw [gather_concat, gatherOne, OrderedMap.get?_set]
    by_cases here : k = key x
    · subst here
      rw [if_pos rfl, ih, List.filter_append, List.filter_cons_of_pos (by simp), List.filter_nil,
        groupOf_concat]
    · have other : ¬ key x = k := fun same => here same.symm
      rw [if_neg here, ih, List.filter_append, List.filter_cons_of_neg (by simp [other]),
        List.filter_nil, List.append_nil]

/-- **The groups come as their keys first do.** -/
theorem keys_gather (list : List α) :
    (gather key start push list).keys = (list.map key).eraseDups := by
  induction list using List.reverseRecOn with
  | nil => rfl
  | append_singleton list x ih =>
    rw [gather_concat, gatherOne, List.map_append, List.map_singleton, eraseDups_concat]
    by_cases old : key x ∈ list.map key
    · have there : key x ∈ (gather key start push list).keys := by
        rw [ih]
        exact List.mem_eraseDups.mpr old
      rw [if_pos old, OrderedMap.keys, OrderedMap.set_of_mem there, OrderedMap.keys_replaced, ih]
    · have absent : key x ∉ (gather key start push list).keys := by
        rw [ih]
        exact fun mem => old (List.mem_eraseDups.mp mem)
      rw [if_neg old, OrderedMap.keys, OrderedMap.set_of_not_mem absent, List.map_append, ← ih]
      rfl

end Groups

/-! ## Key by key -/

/-- Key by key, in any order of the keys, the elements are the same ones. -/
theorem perm_of_keys {K : Type*} [DecidableEq K] (key : α → K) {keys : List K} (nodup : keys.Nodup)
    {list : List α} (all : ∀ x ∈ list, key x ∈ keys) :
    (keys.flatMap fun k => list.filter fun x => key x = k).Perm list := by
  induction keys generalizing list with
  | nil =>
    have none : list = [] := List.eq_nil_iff_forall_not_mem.mpr fun x mem => by simpa using all x mem
    simp [none]
  | cons k keys ih =>
    obtain ⟨fresh, nodup⟩ := List.nodup_cons.mp nodup
    have others : ∀ x ∈ list.filter (fun x => !decide (key x = k)), key x ∈ keys := by
      intro x mem
      obtain ⟨mem, other⟩ := List.mem_filter.mp mem
      rcases List.mem_cons.mp (all x mem) with here | there
      · simp [here] at other
      · exact there
    have later : (keys.flatMap fun k' => list.filter fun x => key x = k') =
        keys.flatMap fun k' => (list.filter fun x => !decide (key x = k)).filter fun x => key x = k' := by
      refine List.flatMap_congr fun k' mem => ?_
      rw [List.filter_filter]
      refine List.filter_congr fun x _ => ?_
      by_cases there : key x = k'
      · have apart : k' ≠ k := fun same => fresh (same ▸ mem)
        simp [there, apart]
      · simp [there]
    rw [List.flatMap_cons, later]
    have rest := (ih nodup others).append_left (list.filter fun x => key x = k)
    exact rest.trans (List.filter_append_perm _ _)

/-- The elements key by key, the keys in the order they first come. -/
def gathered {K : Type*} [DecidableEq K] (key : α → K) (list : List α) : List α :=
  (list.map key).eraseDups.flatMap fun k => list.filter fun x => key x = k

/-- They are the same elements. -/
theorem perm_gathered {K : Type*} [DecidableEq K] (key : α → K) (list : List α) :
    (gathered key list).Perm list :=
  perm_of_keys key (nodup_eraseDups _) fun _ mem =>
    List.mem_eraseDups.mpr (List.mem_map_of_mem mem)

theorem eraseDups_filter {K : Type*} [DecidableEq K] (p : K → Bool) (keys : List K) :
    (keys.filter p).eraseDups = keys.eraseDups.filter p := by
  induction keys using List.reverseRecOn with
  | nil => rfl
  | append_singleton keys k ih =>
    rw [List.filter_append, eraseDups_concat]
    cases keep : p k with
    | false =>
      rw [List.filter_singleton, keep, Bool.cond_false, List.append_nil, ih]
      split
      · rfl
      · rw [List.filter_append, List.filter_singleton, keep, Bool.cond_false, List.append_nil]
    | true =>
      rw [List.filter_singleton, keep, Bool.cond_true, eraseDups_concat, ih]
      by_cases old : k ∈ keys
      · rw [if_pos old, if_pos (List.mem_filter.mpr ⟨old, keep⟩)]
      · have new : k ∉ keys.filter p := fun mem => old (List.mem_filter.mp mem).1
        rw [if_neg old, if_neg new, List.filter_append, List.filter_singleton, keep, Bool.cond_true]

/-- Elements may be left out before or after, by their keys. -/
theorem gathered_filter {K : Type*} [DecidableEq K] (key : α → K) (p : K → Bool) (list : List α) :
    gathered key (list.filter fun x => p (key x)) = (gathered key list).filter fun x => p (key x) := by
  have keys : (list.filter fun x => p (key x)).map key = (list.map key).filter p := by
    rw [List.filter_map]
    rfl
  unfold gathered
  rw [keys, eraseDups_filter, List.filter_flatMap]
  generalize (list.map key).eraseDups = keys
  induction keys with
  | nil => rfl
  | cons k keys ih =>
    have same : ∀ keep : Bool, p k = keep → ((list.filter fun x => key x = k).filter fun x => p (key x)) =
        if keep then ((list.filter fun x => p (key x)).filter fun x => key x = k) else [] := by
      intro keep is
      cases keep with
      | false =>
        refine List.filter_eq_nil_iff.mpr fun x mem => ?_
        have there : key x = k := by simpa using (List.mem_filter.mp mem).2
        simp [there, is]
      | true => exact List.filter_comm _ _ _
    rw [List.flatMap_cons, ← ih, same _ rfl]
    cases keep : p k with
    | false => rw [List.filter_cons_of_neg (by simp [keep])]; rfl
    | true => rw [List.filter_cons_of_pos keep, List.flatMap_cons]; rfl

/-- Elements of one key are a group as they come. -/
theorem gathered_of_same {K : Type*} [DecidableEq K] {key : α → K} {k : K} {list : List α}
    (same : ∀ x ∈ list, key x = k) : gathered key list = list := by
  cases list with
  | nil => rfl
  | cons x list =>
    have all : ((x :: list).map key).eraseDups = [k] := by
      rw [List.map_cons, same x List.mem_cons_self, List.eraseDups_cons]
      have others : (list.map key).filter (fun b => !b == k) = [] := by
        refine List.filter_eq_nil_iff.mpr fun b mem => ?_
        obtain ⟨y, there, rfl⟩ := List.mem_map.mp mem
        simp [same y (List.mem_cons_of_mem _ there)]
      rw [others]
      rfl
    rw [gathered, all, List.flatMap_cons, List.flatMap_nil, List.append_nil]
    exact List.filter_eq_self.mpr fun y mem => decide_eq_true (same y mem)

section Members

variable {K G : Type*} [DecidableEq K] {key : α → K} {start : α → G} {push : G → α → G}

/-- Every group is that of the elements of a key. -/
theorem mem_gather {list : List α} {g : G} (mem : g ∈ (gather key start push list).values) :
    ∃ k, groupOf start push (list.filter fun x => key x = k) = some g := by
  rw [OrderedMap.values_eq] at mem
  obtain ⟨k, -, found⟩ := List.mem_filterMap.mp mem
  exact ⟨k, (get?_gather list k).symm.trans found⟩

variable {members : G → List α} (first : ∀ x, members (start x) = [x])
  (next : ∀ g x, members (push g x) = members g ++ [x])
include first next

theorem members_groupOf (list : List α) :
    ((groupOf start push list).map members).getD [] = list := by
  induction list using List.reverseRecOn with
  | nil => rfl
  | append_singleton list x ih =>
    rw [groupOf_concat]
    cases group : groupOf start push list with
    | none =>
      rw [group] at ih
      have none : list = [] := ih.symm
      simp [none, first]
    | some g =>
      rw [group] at ih
      have all : members g = list := ih
      simp [next, all]

/-- **The members of the groups are the elements**, key by key. -/
theorem flatMap_gather (list : List α) :
    (gather key start push list).values.flatMap members = gathered key list := by
  unfold gathered
  rw [OrderedMap.values_eq, keys_gather]
  generalize (list.map key).eraseDups = keys
  induction keys with
  | nil => rfl
  | cons k keys ih =>
    have here := members_groupOf first next (list.filter fun x => key x = k)
    rw [← get?_gather] at here
    rw [List.flatMap_cons, ← ih, ← here]
    cases group : (gather key start push list).get? k with
    | none => rw [List.filterMap_cons_none group]; rfl
    | some g => rw [List.filterMap_cons_some group]; rfl

end Members

/-! ## Steps that may fail -/

theorem foldlM_eq_of {f g : σ → α → Option σ} {list : List α}
    (same : ∀ x ∈ list, ∀ s, f s x = g s x) (s : σ) : list.foldlM f s = list.foldlM g s := by
  induction list generalizing s with
  | nil => rfl
  | cons x list ih =>
    rw [List.forall_mem_cons] at same
    rw [List.foldlM_cons, List.foldlM_cons, same.1]
    exact congrArg _ (funext fun t => ih same.2 t)

/-- Part by part, each part element by element. -/
theorem foldlM_flatMap {β : Type*} {f : σ → β → Option σ} {parts : α → List β} (list : List α) (s : σ) :
    (list.flatMap parts).foldlM f s = list.foldlM (fun s x => (parts x).foldlM f s) s := by
  induction list generalizing s with
  | nil => rfl
  | cons x list ih =>
    rw [List.flatMap_cons, List.foldlM_append, List.foldlM_cons]
    exact congrArg _ (funext fun t => ih t)

/-- To make all and then write them comes to making and writing one after the other: of a list with one
that cannot be made, or is refused, nothing is left either way. -/
theorem mapM_bind_foldlM {β : Type*} (make : α → Option β) (write : σ → β → Option σ)
    (list : List α) (s : σ) :
    (list.mapM make).bind (fun made => made.foldlM write s) =
      list.foldlM (fun s a => (make a).bind (write s)) s := by
  induction list generalizing s with
  | nil => rfl
  | cons a list ih =>
    rw [List.mapM_cons, List.foldlM_cons]
    cases made : make a with
    | none => rfl
    | some b =>
      cases written : write s b with
      | none =>
        cases list.mapM make with
        | none => simp [written]
        | some bs => simp [written]
      | some s' =>
        rw [Option.bind_some, written]
        refine Eq.trans ?_ (ih s')
        cases list.mapM make with
        | none => rfl
        | some bs => simp [written]

/-- **Steps that commute may be taken in any order.** -/
theorem foldlM_perm {f : σ → α → Option σ} {l l' : List α} (perm : l.Perm l')
    (commute : l.Pairwise fun a b => ∀ s, (f s a).bind (f · b) = (f s b).bind (f · a)) (s : σ) :
    l.foldlM f s = l'.foldlM f s := by
  induction perm generalizing s with
  | nil => rfl
  | cons a _ ih =>
    simp only [List.foldlM_cons]
    exact congrArg _ (funext fun t => ih (List.pairwise_cons.mp commute).2 t)
  | swap a b l =>
    have both := (List.pairwise_cons.mp commute).1 a List.mem_cons_self s
    simp only [List.foldlM_cons, Option.bind_eq_bind, ← Option.bind_assoc] at both ⊢
    rw [both]
  | trans first _ ih ih' =>
    have symmetric : ∀ a b, (∀ s, (f s a).bind (f · b) = (f s b).bind (f · a)) →
        ∀ s, (f s b).bind (f · a) = (f s a).bind (f · b) := fun a b h s => (h s).symm
    rw [ih commute s]
    exact ih' (first.pairwise commute (symmetric _ _)) s

end Syncle.Lib
