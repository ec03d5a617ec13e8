import Mathlib.Algebra.BigOperators.Group.List.Basic
import Mathlib.Data.List.Induction
import Mathlib.Data.List.Nodup
import Mathlib.Tactic.Abel
import Mathlib.Tactic.Common

/-!
# Sets and maps in the order their elements came in

What JavaScript's `Set` and `Map` are. `List.eraseDups` is the set of a list: what is there already
is not added again. In an `OrderedMap`, setting a key that is there replaces its value in place,
setting a new one puts it last; its keys are distinct by construction.
-/

namespace Syncle.Lib

/-! ## A set in the order its elements came in -/

theorem nodup_eraseDups {α : Type*} [DecidableEq α] (l : List α) : l.eraseDups.Nodup := by
  induction h : l.length using Nat.strong_induction_on generalizing l with
  | _ n ih =>
    cases l with
    | nil => simp
    | cons a l =>
      rw [List.eraseDups_cons, List.nodup_cons]
      have shorter : (l.filter fun b => !b == a).length < n := by
        have := List.length_filter_le (fun b => !b == a) l
        simp only [List.length_cons] at h
        omega
      exact ⟨by simp [List.mem_eraseDups], ih _ shorter _ rfl⟩

theorem eraseDups_of_nodup {α : Type*} [DecidableEq α] {l : List α} (h : l.Nodup) :
    l.eraseDups = l := by
  induction l with
  | nil => rfl
  | cons a l ih =>
    obtain ⟨fresh, nodup⟩ := List.nodup_cons.mp h
    have kept : (l.filter fun b => !b == a) = l :=
      List.filter_eq_self.mpr fun b mem => by
        have : b ≠ a := fun same => fresh (same ▸ mem)
        simpa using this
    rw [List.eraseDups_cons, kept, ih nodup]

/-- Of rows with distinct keys, as many are taken out as there are keys. -/
theorem length_filter_not_mem {R K : Type*} [DecidableEq K] (key : R → K) {rows : List R}
    {gone : List K} (nodup : (rows.map key).Nodup) (goneOnce : gone.Nodup)
    (sub : ∀ k ∈ gone, k ∈ rows.map key) :
    (rows.filter fun r => key r ∉ gone).length = rows.length - gone.length := by
  have taken : ((rows.filter fun r => key r ∈ gone).map key).Perm gone := by
    refine (List.perm_ext_iff_of_nodup (nodup.sublist (List.filter_sublist.map _)) goneOnce).mpr ?_
    intro k
    constructor
    · intro mem
      obtain ⟨r, hr, rfl⟩ := List.mem_map.mp mem
      simpa using (List.mem_filter.mp hr).2
    · intro mem
      obtain ⟨r, hr, rfl⟩ := List.mem_map.mp (sub k mem)
      exact List.mem_map_of_mem (List.mem_filter.mpr ⟨hr, by simpa using mem⟩)
  have split := List.length_eq_length_filter_add (fun r : R => decide (key r ∈ gone)) (l := rows)
  have count := taken.length_eq
  rw [List.length_map] at count
  have flipped : (rows.filter fun r => !decide (key r ∈ gone)) = rows.filter fun r => key r ∉ gone := by
    refine List.filter_congr fun r _ => ?_
    simp
  rw [flipped] at split
  omega

/-- A list without repetitions, less its first elements. -/
theorem filter_not_mem_take {K : Type*} [DecidableEq K] {l : List K} (nodup : l.Nodup) (n : Nat) :
    (l.filter fun k => k ∉ l.take n) = l.drop n := by
  have whole := List.take_append_drop n l
  have apart : (l.take n ++ l.drop n).Nodup := by rwa [whole]
  have none : ((l.take n).filter fun k => k ∉ l.take n) = [] :=
    List.filter_eq_nil_iff.mpr fun k hk => by simp [hk]
  have all : ((l.drop n).filter fun k => k ∉ l.take n) = l.drop n := by
    refine List.filter_eq_self.mpr fun k hk => ?_
    simp only [decide_eq_true_eq]
    intro early
    exact (List.nodup_append.mp apart).2.2 k early k hk rfl
  calc (l.filter fun k => k ∉ l.take n)
      = (l.take n ++ l.drop n).filter fun k => k ∉ l.take n := by rw [whole]
    _ = l.drop n := by rw [List.filter_append, none, all, List.nil_append]

/-! ## Maps -/

structure OrderedMap (K V : Type*) where
  entries : List (K × V)
  nodup_keys : (entries.map Prod.fst).Nodup

namespace OrderedMap

variable {K V : Type*}

def empty : OrderedMap K V := ⟨[], List.nodup_nil⟩

variable (m : OrderedMap K V)

def keys : List K := m.entries.map Prod.fst

def values : List V := m.entries.map Prod.snd

def size : Nat := m.entries.length

@[simp] theorem keys_empty : (empty : OrderedMap K V).keys = [] := rfl

@[simp] theorem values_empty : (empty : OrderedMap K V).values = [] := rfl

theorem length_keys : m.keys.length = m.size := List.length_map _

variable [DecidableEq K]

def get? (k : K) : Option V := (m.entries.find? fun e => e.1 = k).map Prod.snd

/-- The entries with the value of `k` replaced. -/
def replaced (k : K) (v : V) : List (K × V) :=
  m.entries.map fun e => if e.1 = k then (k, v) else e

theorem keys_replaced (k : K) (v : V) : (m.replaced k v).map Prod.fst = m.keys := by
  simp only [replaced, keys, List.map_map]
  refine List.map_congr_left fun e _ => ?_
  by_cases h : e.1 = k <;> simp [h]

def set (k : K) (v : V) : OrderedMap K V :=
  if h : k ∈ m.keys then ⟨m.replaced k v, by rw [keys_replaced]; exact m.nodup_keys⟩
  else
    ⟨m.entries ++ [(k, v)], by
      rw [List.map_append]
      refine List.nodup_append.mpr ⟨m.nodup_keys, by simp, ?_⟩
      intro a old b new same
      simp only [List.map_cons, List.map_nil, List.mem_singleton] at new
      exact h (new ▸ same ▸ old)⟩

def setAll (es : List (K × V)) : OrderedMap K V := es.foldl (fun m e => m.set e.1 e.2) m

def filter (p : K → Bool) : OrderedMap K V :=
  ⟨m.entries.filter fun e => p e.1, m.nodup_keys.sublist (List.filter_sublist.map _)⟩

/-- The value of a key, if there is one, is another. -/
def modify (k : K) (f : V → V) : OrderedMap K V :=
  ⟨m.entries.map fun e => if e.1 = k then (e.1, f e.2) else e, by
    have same : (m.entries.map fun e => if e.1 = k then (e.1, f e.2) else e).map Prod.fst =
        m.entries.map Prod.fst := by
      rw [List.map_map]
      refine List.map_congr_left fun e _ => ?_
      by_cases h : e.1 = k <;> simp [h]
    rw [same]
    exact m.nodup_keys⟩

variable {m}

theorem set_of_not_mem {k : K} {v : V} (h : k ∉ m.keys) :
    (m.set k v).entries = m.entries ++ [(k, v)] := by
  simp [set, h]

theorem set_of_mem {k : K} {v : V} (h : k ∈ m.keys) : (m.set k v).entries = m.replaced k v := by
  simp [set, h]

theorem mem_keys_set {k a : K} {v : V} : a ∈ (m.set k v).keys ↔ a ∈ m.keys ∨ a = k := by
  by_cases h : k ∈ m.keys
  · have same : (m.set k v).keys = m.keys := by
      rw [keys, set_of_mem h]
      exact m.keys_replaced k v
    rw [same]
    constructor
    · exact Or.inl
    · rintro (old | rfl)
      · exact old
      · exact h
  · rw [keys, set_of_not_mem h]
    simp [keys]

theorem mem_keys_setAll {es : List (K × V)} {a : K} :
    a ∈ (m.setAll es).keys ↔ a ∈ m.keys ∨ a ∈ es.map Prod.fst := by
  induction es generalizing m with
  | nil => simp [setAll]
  | cons e es ih =>
    have step : (m.setAll (e :: es)).keys = ((m.set e.1 e.2).setAll es).keys := rfl
    rw [step, ih, mem_keys_set, List.map_cons, List.mem_cons, or_assoc]

/-- New keys, each once, go to the end. -/
theorem entries_setAll {es : List (K × V)} (nodup : (es.map Prod.fst).Nodup)
    (new : ∀ k ∈ es.map Prod.fst, k ∉ m.keys) : (m.setAll es).entries = m.entries ++ es := by
  induction es generalizing m with
  | nil => simp [setAll]
  | cons e es ih =>
    obtain ⟨fresh, rest⟩ := List.nodup_cons.mp nodup
    have first : e.1 ∉ m.keys := new e.1 (by simp)
    have later : ∀ k ∈ es.map Prod.fst, k ∉ (m.set e.1 e.2).keys := by
      intro k mem old
      rcases mem_keys_set.mp old with old | rfl
      · exact new k (List.mem_cons_of_mem _ mem) old
      · exact fresh mem
    have step := ih rest later
    rw [set_of_not_mem first] at step
    simpa [setAll] using step

theorem get?_eq_some {k : K} {v : V} : m.get? k = some v ↔ (k, v) ∈ m.entries := by
  unfold get?
  constructor
  · intro h
    obtain ⟨e, found, rfl⟩ := Option.map_eq_some_iff.mp h
    have name : e.1 = k := by simpa using List.find?_some found
    rw [← name]
    exact List.mem_of_find?_eq_some found
  · intro mem
    cases found : m.entries.find? fun e => e.1 = k with
    | none => simpa using List.find?_eq_none.mp found _ mem
    | some e =>
      have name : e.1 = k := by simpa using List.find?_some found
      have same : e = (k, v) :=
        List.inj_on_of_nodup_map m.nodup_keys (List.mem_of_find?_eq_some found) mem name
      rw [same]
      rfl

theorem get?_eq_none {k : K} : m.get? k = none ↔ k ∉ m.keys := by
  unfold get? keys
  rw [Option.map_eq_none_iff, List.find?_eq_none]
  simp only [List.mem_map, decide_eq_true_eq]
  exact ⟨fun h ⟨e, mem, same⟩ => h e mem same, fun h e mem same => h ⟨e, mem, same⟩⟩

theorem get?_filter (p : K → Bool) (k : K) :
    (m.filter p).get? k = if p k then m.get? k else none := by
  refine Option.ext fun v => ?_
  rw [get?_eq_some]
  simp only [filter, List.mem_filter]
  split
  case isTrue kept => rw [get?_eq_some, and_iff_left kept]
  case isFalse gone => simp [gone]

theorem get?_modify (k : K) (f : V → V) (a : K) :
    (m.modify k f).get? a = if a = k then (m.get? k).map f else m.get? a := by
  unfold get? modify
  simp only
  induction m.entries with
  | nil => simp
  | cons e es ih =>
    rw [List.map_cons, List.find?_cons, List.find?_cons]
    by_cases same : a = k
    · subst same
      by_cases here : e.1 = a <;> simp_all
    · by_cases here : e.1 = k
      · have there : e.1 ≠ a := fun h => same (h.symm.trans here)
        simp_all
      · by_cases there : e.1 = a <;> simp_all

theorem get?_set (k : K) (v : V) (a : K) :
    (m.set k v).get? a = if a = k then some v else m.get? a := by
  by_cases old : k ∈ m.keys
  · have found : m.get? k ≠ none := fun h => get?_eq_none.mp h old
    have same : (m.set k v).entries = (m.modify k fun _ => v).entries := by
      rw [set_of_mem old]
      refine List.map_congr_left fun e _ => ?_
      by_cases h : e.1 = k <;> simp [h]
    have modified := get?_modify (m := m) k (fun _ => v) a
    unfold get? at modified ⊢
    rw [same, modified]
    cases there : (m.entries.find? fun e => e.1 = k).map Prod.snd with
    | none => exact absurd there found
    | some u => rfl
  · have absent : m.get? k = none := get?_eq_none.mpr old
    unfold get? at absent ⊢
    rw [set_of_not_mem old, List.find?_append]
    by_cases same : a = k
    · subst same
      rw [Option.map_eq_none_iff] at absent
      simp [absent]
    · have other : k ≠ a := fun h => same h.symm
      simp [same, other]

/-- The values are those of the keys. -/
theorem values_eq : m.values = m.keys.filterMap m.get? := by
  have each : ∀ e ∈ m.entries, m.get? e.1 = some e.2 := fun e mem => get?_eq_some.mpr mem
  unfold values keys
  rw [List.filterMap_map]
  generalize m.entries = es at each
  induction es with
  | nil => rfl
  | cons e es ih =>
    rw [List.forall_mem_cons] at each
    rw [List.map_cons, List.filterMap_cons_some (by simpa using each.1), ih each.2]

omit [DecidableEq K] in
theorem ext {m' : OrderedMap K V} (h : m.entries = m'.entries) : m = m' := by
  cases m
  cases m'
  cases h
  rfl

/-- What a key has already changes nothing. -/
theorem set_eq_self {k : K} {v : V} (h : m.get? k = some v) : m.set k v = m := by
  have mem : (k, v) ∈ m.entries := get?_eq_some.mp h
  refine ext ?_
  rw [set_of_mem (show k ∈ m.keys from List.mem_map_of_mem mem), replaced]
  conv_rhs => rw [← List.map_id m.entries]
  refine List.map_congr_left fun e he => ?_
  split
  case isTrue same => exact List.inj_on_of_nodup_map m.nodup_keys mem he same.symm
  case isFalse other => rfl

theorem setAll_eq_self {es : List (K × V)} (h : ∀ e ∈ es, m.get? e.1 = some e.2) :
    m.setAll es = m := by
  induction es with
  | nil => rfl
  | cons e es ih =>
    rw [List.forall_mem_cons] at h
    have step : m.setAll (e :: es) = (m.set e.1 e.2).setAll es := rfl
    rw [step, set_eq_self h.1, ih h.2]

theorem get?_setAll_of_not_mem {es : List (K × V)} {k : K} (h : k ∉ es.map Prod.fst) :
    (m.setAll es).get? k = m.get? k := by
  induction es generalizing m with
  | nil => rfl
  | cons e es ih =>
    rw [List.map_cons, List.mem_cons, not_or] at h
    have step : m.setAll (e :: es) = (m.set e.1 e.2).setAll es := rfl
    rw [step, ih h.2, get?_set, if_neg h.1]

theorem get?_setAll_of_mem {es : List (K × V)} (nodup : (es.map Prod.fst).Nodup) {e : K × V}
    (mem : e ∈ es) : (m.setAll es).get? e.1 = some e.2 := by
  induction es generalizing m with
  | nil => cases mem
  | cons first es ih =>
    obtain ⟨fresh, nodup⟩ := List.nodup_cons.mp nodup
    have step : m.setAll (first :: es) = (m.set first.1 first.2).setAll es := rfl
    rw [step]
    rcases List.mem_cons.mp mem with rfl | mem
    · rw [get?_setAll_of_not_mem fresh, get?_set, if_pos rfl]
    · exact ih nodup mem

/-- What a key is set to, it was set to at some time. -/
theorem of_get?_setAll {es : List (K × V)} {k : K} {v : V}
    (is : ((empty : OrderedMap K V).setAll es).get? k = some v) : (k, v) ∈ es := by
  induction es using List.reverseRecOn with
  | nil => cases is
  | append_singleton es e ih =>
    rw [setAll, List.foldl_append, List.foldl_cons, List.foldl_nil, get?_set] at is
    split at is
    · rename_i here
      obtain rfl := Option.some.inj is
      rw [here]
      exact List.mem_append_right _ List.mem_cons_self
    · exact List.mem_append_left _ (ih is)

/-- Set to one value only, a key has it. -/
theorem get?_setAll_of_same {es : List (K × V)} {k : K} {v : V}
    (mem : (k, v) ∈ es) (same : ∀ w, (k, w) ∈ es → w = v) :
    ((empty : OrderedMap K V).setAll es).get? k = some v := by
  induction es using List.reverseRecOn with
  | nil => cases mem
  | append_singleton es e ih =>
    rw [setAll, List.foldl_append, List.foldl_cons, List.foldl_nil, get?_set]
    by_cases here : k = e.1
    · rw [if_pos here]
      have last : (k, e.2) ∈ es ++ [e] := by
        rw [here]
        exact List.mem_append_right _ List.mem_cons_self
      rw [same e.2 last]
    · rw [if_neg here]
      have before : (k, v) ∈ es := by
        rcases List.mem_append.mp mem with before | last
        · exact before
        · exact absurd (congrArg Prod.fst (List.mem_singleton.mp last)) here
      exact ih before fun w there => same w (List.mem_append_left _ there)

/-! ## Sums over the values -/

section Sums

variable {M : Type*} [AddCommGroup M] (f : V → M)

def sum (m : OrderedMap K V) : M := (m.values.map f).sum

omit [DecidableEq K] in
@[simp] theorem sum_empty : sum f (empty : OrderedMap K V) = 0 := rfl

omit [DecidableEq K] in
theorem sum_eq : m.sum f = (m.entries.map fun e => f e.2).sum := by
  unfold sum values
  rw [List.map_map]
  rfl

/-- Replacing one value of a list without repeated keys. -/
theorem sum_replace {k : K} {v : V} {es : List (K × V)} (nodup : (es.map Prod.fst).Nodup) {old : V}
    (mem : (k, old) ∈ es) :
    ((es.map fun e => if e.1 = k then (k, v) else e).map fun e => f e.2).sum =
      (es.map fun e => f e.2).sum - f old + f v := by
  induction es with
  | nil => cases mem
  | cons e es ih =>
    obtain ⟨fresh, nodup⟩ := List.nodup_cons.mp nodup
    simp only [List.map_cons, List.sum_cons]
    rcases List.mem_cons.mp mem with rfl | later
    · have others : (es.map fun e => if e.1 = k then (k, v) else e) = es := by
        refine (List.map_congr_left fun e he => ?_).trans (List.map_id es)
        refine if_neg fun same => fresh ?_
        exact List.mem_map.mpr ⟨e, he, same⟩
      rw [others]
      simp only [if_true]
      abel
    · have other : e.1 ≠ k := by
        intro same
        rw [same] at fresh
        exact fresh (List.mem_map.mpr ⟨_, later, rfl⟩)
      rw [if_neg other, ih nodup later]
      abel

/-- The old value's share goes, the new one's comes. -/
theorem sum_set (k : K) (v : V) :
    (m.set k v).sum f = m.sum f - ((m.get? k).map f).getD 0 + f v := by
  cases found : m.get? k with
  | none =>
    rw [sum_eq, sum_eq, set_of_not_mem (get?_eq_none.mp found)]
    simp
  | some old =>
    have mem : (k, old) ∈ m.entries := get?_eq_some.mp found
    rw [sum_eq, sum_eq, set_of_mem (List.mem_map.mpr ⟨_, mem, rfl⟩)]
    exact sum_replace f m.nodup_keys mem

theorem sum_setAll {es : List (K × V)} (nodup : (es.map Prod.fst).Nodup)
    (new : ∀ k ∈ es.map Prod.fst, k ∉ m.keys) :
    (m.setAll es).sum f = m.sum f + (es.map fun e => f e.2).sum := by
  rw [sum_eq, sum_eq, entries_setAll nodup new, List.map_append, List.sum_append]

end Sums

end OrderedMap

end Syncle.Lib
