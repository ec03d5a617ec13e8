import Mathlib.Data.List.Nodup
import Syncle.Cdc.Stream

/-!
# What a search comes to, and what it did on the way

`isolateFailures` is asked for every attempt function, so the attempts it made can be told by an
attempt function that writes them down (`recorded`). Three things are shown of them: they stay
within the budget, none of them writes a target again, and a row that is set aside failed in one
of them alone.

Where failing is a property of single rows, the rows set aside are the failing ones. The queue
gives them in the order of the levels of the halving, not in the order of the batch: of three
rows the last is alone a level before the first (`breadthFirst`).
-/

namespace Syncle.Cdc

variable {σ R T : Type*}

/-- An attempt that was made. -/
structure Attempted (R T : Type*) where
  rows : List R
  skip : List T
  outcome : IsolationAttempt T

/-- What `earlier` committed of its rows, `later` does not write again. -/
def Attempted.Spares (earlier later : Attempted R T) : Prop :=
  ∀ row ∈ earlier.rows, row ∈ later.rows → earlier.outcome.succeededTargets ⊆ later.skip

/-- `attempt`, with what was tried written down. -/
def recorded (attempt : σ → List R → List T → IsolationAttempt T × σ)
    (w : σ × List (Attempted R T)) (rows : List R) (skip : List T) :
    IsolationAttempt T × (σ × List (Attempted R T)) :=
  let answered := attempt w.1 rows skip
  (answered.1, answered.2, w.2 ++ [{ rows := rows, skip := skip, outcome := answered.1 }])

section Recorded

variable [DecidableEq T]
variable {attempt : σ → List R → List T → IsolationAttempt T × σ} {opts : IsolationOptions T}

/-- The search without what was written down. -/
def Search.forget (s : Search (σ × List (Attempted R T)) R T) : Search σ R T where
  queue := s.queue
  nextId := s.nextId
  successes := s.successes
  result := s.result
  world := s.world.1

/-- Writing it down changes nothing. -/
theorem isolateLoop_recorded : ∀ (fuel : Nat) (s : Search (σ × List (Attempted R T)) R T),
    (isolateLoop (recorded attempt) opts fuel s).1 = (isolateLoop attempt opts fuel s.forget).1 := by
  intro fuel
  induction fuel with
  | zero => intro s; rfl
  | succ fuel ih =>
    intro s
    rw [isolateLoop, isolateLoop]
    cases hq : s.queue with
    | nil => simp only [Search.forget, hq]
    | cons segment rest =>
      simp only [Search.forget, hq, recorded]
      split
      · exact ih _
      · split
        · rfl
        · by_cases ok : (attempt s.world.1 segment.rows segment.skip).1.ok = true
          · simp only [ok, ↓reduceIte]
            exact ih _
          · simp only [ok, Bool.false_eq_true, ↓reduceIte, Search.failed]
            by_cases systemic :
              s.successes = 0 ∧ s.result.attempts + 1 ≥ opts.failuresBeforeSystemic
            · simp only [eq_true systemic, ↓reduceIte]
              rfl
            · simp only [eq_false systemic, ↓reduceIte]
              rcases segment.rows with _ | ⟨row, _ | ⟨second, rest⟩⟩
              · exact ih _
              · simp only [Search.poison, List.length_append, List.length_singleton]
                by_cases many : s.result.poisoned.length + 1 > opts.maxPoisoned
                · simp only [many, ↓reduceIte]
                  rfl
                · simp only [many, ↓reduceIte]
                  exact ih _
              · exact ih _

theorem isolateFailures_recorded (w : σ) (rows : List R) :
    (isolateFailures (recorded attempt) opts (w, []) rows).1 =
      (isolateFailures attempt opts w rows).1 := by
  match rows with
  | [] => rfl
  | [_] => rfl
  | first :: second :: rest =>
    rw [isolateFailures_many (by simp), isolateFailures_many (by simp)]
    exact isolateLoop_recorded _ _

end Recorded

/-! ## Targets -/

section Targets

variable [DecidableEq T]

theorem mem_addTargets {skip targets : List T} {t : T} :
    t ∈ addTargets skip targets ↔ t ∈ skip ∨ t ∈ targets := by
  unfold addTargets
  induction targets generalizing skip with
  | nil => simp
  | cons u targets ih =>
    rw [List.foldl_cons, ih]
    by_cases h : u ∈ skip
    · rw [if_pos h, List.mem_cons]
      constructor
      · rintro (h | h)
        · exact .inl h
        · exact .inr (.inr h)
      · rintro (h | rfl | h')
        · exact .inl h
        · exact .inl h
        · exact .inr h'
    · rw [if_neg h]
      simp [or_assoc]

theorem subset_addTargets_left (skip targets : List T) : skip ⊆ addTargets skip targets :=
  fun _ h => mem_addTargets.mpr (.inl h)

theorem subset_addTargets_right (skip targets : List T) : targets ⊆ addTargets skip targets :=
  fun _ h => mem_addTargets.mpr (.inr h)

end Targets

/-! ## The attempts -/

/-- What is known of the attempts made so far. -/
structure Search.Written (opts : IsolationOptions T)
    (s : Search (σ × List (Attempted R T)) R T) : Prop where
  attempts : s.world.2.length = s.result.attempts
  budget : s.result.attempts ≤ opts.maxAttempts
  alone : ∀ p ∈ s.result.poisoned,
    ∃ a ∈ s.world.2, a.rows = [p.row] ∧ a.outcome.ok = false
  spared : ∀ a ∈ s.world.2, opts.alreadySucceeded ⊆ a.skip
  notAgain : s.world.2.Pairwise Attempted.Spares

/-- A group still queued skips what was committed before, of all of the batch and of its rows. -/
structure Segment.Carries (opts : IsolationOptions T) (made : List (Attempted R T))
    (x : Segment R T) : Prop where
  all : opts.alreadySucceeded ⊆ x.skip
  own : ∀ a ∈ made, ∀ row ∈ a.rows, row ∈ x.rows → a.outcome.succeededTargets ⊆ x.skip

/-- Of fewer rows, with more skipped. -/
theorem Segment.Carries.mono {opts : IsolationOptions T} {made : List (Attempted R T)}
    {x y : Segment R T} (carries : x.Carries opts made) (rows : y.rows ⊆ x.rows)
    (skip : x.skip ⊆ y.skip) : y.Carries opts made where
  all := List.Subset.trans carries.all skip
  own a ha row hrow hy :=
    List.Subset.trans (carries.own a ha row hrow (rows hy)) skip

/-- With an attempt on other rows. -/
theorem Segment.Carries.other {opts : IsolationOptions T} {made : List (Attempted R T)}
    {x : Segment R T} (carries : x.Carries opts made) {a : Attempted R T}
    (other : ∀ row ∈ a.rows, row ∉ x.rows) : x.Carries opts (made ++ [a]) where
  all := carries.all
  own b hb row hrow hx := by
    rcases List.mem_append.mp hb with hb | hb
    · exact carries.own b hb row hrow hx
    · obtain rfl : b = a := by simpa using hb
      exact absurd hx (other row hrow)

/-- What the queue carries on. -/
structure Search.Carried (opts : IsolationOptions T)
    (s : Search (σ × List (Attempted R T)) R T) : Prop where
  written : s.Written opts
  distinct : (queued s.queue).Nodup
  carries : ∀ x ∈ s.queue, x.Carries opts s.world.2

theorem rows_split {id : Nat} {rows : List R} {skip : List T} {x : Segment R T}
    (h : x ∈ split id rows skip) : x.rows ⊆ rows ∧ x.skip = skip := by
  simp only [split, List.mem_cons, List.not_mem_nil, or_false] at h
  rcases h with rfl | rfl
  · exact ⟨List.take_subset _ _, rfl⟩
  · exact ⟨List.drop_subset _ _, rfl⟩

section Attempts

variable {attempt : σ → List R → List T → IsolationAttempt T × σ} {opts : IsolationOptions T}
variable {s : Search (σ × List (Attempted R T)) R T} {segment : Segment R T}
variable {rest : List (Segment R T)} {outcome : IsolationAttempt T}
variable {w : σ × List (Attempted R T)}

/-- What an attempt on the group at the head of the queue adds. -/
theorem Search.Carried.attempted (carried : s.Carried opts) (hq : s.queue = segment :: rest)
    (budget : s.result.attempts < opts.maxAttempts)
    (made : recorded attempt s.world segment.rows segment.skip = (outcome, w)) :
    (s.failed rest w).Written opts ∧
      w.2 = s.world.2 ++ [{ rows := segment.rows, skip := segment.skip, outcome := outcome }] := by
  simp only [recorded, Prod.mk.injEq] at made
  obtain ⟨rfl, rfl⟩ := made
  have head := carried.carries segment (by simp [hq])
  refine ⟨⟨?_, ?_, ?_, ?_, ?_⟩, rfl⟩
  · simp [Search.failed, carried.written.attempts]
  · exact budget
  · intro p hp
    obtain ⟨a, ha, alone⟩ := carried.written.alone p hp
    exact ⟨a, List.mem_append_left _ ha, alone⟩
  · intro a ha
    rcases List.mem_append.mp ha with ha | ha
    · exact carried.written.spared a ha
    · obtain rfl := List.mem_singleton.mp ha
      exact head.all
  · refine List.pairwise_append.mpr ⟨carried.written.notAgain, List.pairwise_singleton _ _, ?_⟩
    intro a ha b hb
    obtain rfl := List.mem_singleton.mp hb
    exact head.own a ha

/-- The groups behind the head have other rows. -/
theorem Search.Carried.others (carried : s.Carried opts) (hq : s.queue = segment :: rest)
    (outcome : IsolationAttempt T) : ∀ x ∈ rest, x.Carries opts
      (s.world.2 ++ [{ rows := segment.rows, skip := segment.skip, outcome := outcome }]) := by
  intro x hx
  have distinct := carried.distinct
  simp only [hq, queued, List.flatMap_cons] at distinct
  refine (carried.carries x (by simp [hq, hx])).other fun row hrow hxrow => ?_
  exact (List.nodup_append.mp distinct).2.2 row hrow row
    (List.mem_flatMap.mpr ⟨x, hx, hxrow⟩) rfl

theorem Search.Carried.behind (carried : s.Carried opts) (hq : s.queue = segment :: rest) :
    (queued rest).Nodup := by
  have distinct := carried.distinct
  simp only [hq, queued, List.flatMap_cons] at distinct
  exact (List.nodup_append.mp distinct).2.1

/-- A group that is split stays in the queue. -/
theorem Search.Carried.distinct_split (carried : s.Carried opts) (hq : s.queue = segment :: rest)
    (id : Nat) (skip : List T) : (queued (rest ++ split id segment.rows skip)).Nodup := by
  have distinct := carried.distinct
  simp only [hq, queued, List.flatMap_cons] at distinct
  rw [queued_append, queued_split]
  exact (List.perm_append_comm.nodup_iff).mp distinct

theorem rounds_carried [DecidableEq T] :
    Rounds (recorded attempt) opts (Search.Carried opts) (Search.Written opts) where
  last carried := carried.written
  known {s segment rest} carried hq _ := by
    refine ⟨⟨carried.written.attempts, carried.written.budget, carried.written.alone,
      carried.written.spared, carried.written.notAgain⟩, carried.distinct_split hq _ _, ?_⟩
    intro x hx
    rcases List.mem_append.mp hx with hx | hx
    · exact carried.carries x (by simp [hq, hx])
    · obtain ⟨rows, skip⟩ := rows_split hx
      exact (carried.carries segment (by simp [hq])).mono rows (by rw [skip]; exact fun _ => id)
  delivers {s segment rest outcome w} carried hq budget made _ := by
    obtain ⟨written, hw⟩ := carried.attempted hq budget made
    refine ⟨⟨written.attempts, written.budget, written.alone, written.spared, written.notAgain⟩,
      ?_, ?_⟩
    · have hm := marked_map (fun x : Segment R T => x.rows) (fun _ => rfl) segment.sibling rest
      simp only [Search.deliver, queued, List.flatMap, hm]
      exact carried.behind hq
    · intro x hx
      obtain ⟨y, hy, rfl⟩ := List.mem_map.mp hx
      have keeps := carried.others hq outcome y hy
      simp only [Search.deliver, hw]
      split
      · exact keeps.mono (fun _ => id) (fun _ => id)
      · exact keeps
  fails carried hq budget made _ := (carried.attempted hq budget made).1
  poisons {s segment rest outcome w row} error carried hq budget made bad hrow := by
    obtain ⟨written, hw⟩ := carried.attempted hq budget made
    refine ⟨⟨written.attempts, written.budget, ?_, written.spared, written.notAgain⟩,
      carried.behind hq, ?_⟩
    · intro p hp
      rcases List.mem_append.mp hp with hp | hp
      · exact written.alone p hp
      · obtain rfl := List.mem_singleton.mp hp
        refine ⟨{ rows := segment.rows, skip := segment.skip, outcome := outcome }, ?_, hrow, bad⟩
        show _ ∈ w.2
        rw [hw]
        exact List.mem_append_right _ (List.mem_singleton.mpr rfl)
    · intro x hx
      show x.Carries opts w.2
      rw [hw]
      exact carried.others hq outcome x hx
  halves {s segment rest outcome w} carried hq budget made _ _ := by
    obtain ⟨written, hw⟩ := carried.attempted hq budget made
    refine ⟨⟨written.attempts, written.budget, written.alone, written.spared, written.notAgain⟩,
      carried.distinct_split hq _ _, ?_⟩
    intro x hx
    show x.Carries opts w.2
    rw [hw]
    rcases List.mem_append.mp hx with hx | hx
    · exact carried.others hq outcome x hx
    · obtain ⟨rows, skip⟩ := rows_split hx
      have head := carried.carries segment (by simp [hq])
      refine ⟨?_, ?_⟩
      · rw [skip]
        exact List.Subset.trans head.all (subset_addTargets_left _ _)
      · intro a ha row hrow hx
        rw [skip]
        rcases List.mem_append.mp ha with ha | ha
        · exact List.Subset.trans (head.own a ha row hrow (rows hx)) (subset_addTargets_left _ _)
        · obtain rfl := List.mem_singleton.mp ha
          exact subset_addTargets_right _ _

end Attempts

/-! ## The order in which the rows come to be alone -/

/-- The halves a group is split in; none of a row that is alone. -/
def halves (rows : List R) : List (List R) :=
  if 1 < rows.length then
    [rows.take ((rows.length + 1) / 2), rows.drop ((rows.length + 1) / 2)]
  else []

/-- The rows that are alone in their groups. -/
def aloneOf (rows : List R) : List R := if rows.length = 1 then rows else []

/-- Level by level: the rows alone at this one, then those alone further down. -/
def levels : Nat → List (List R) → List R
  | 0, _ => []
  | n + 1, level => level.flatMap aloneOf ++ levels n (level.flatMap halves)

/-- The rows of a batch as the halving comes to them. -/
def breadthFirst (rows : List R) : List R := levels rows.length [rows]

theorem flatten_halves (rows : List R) : aloneOf rows ++ (halves rows).flatten = rows := by
  unfold aloneOf halves
  split
  · next h => simp [h]
  · split
    · simp
    · have : rows.length = 0 := by omega
      simp [List.length_eq_zero_iff.mp this]

theorem length_halves {rows half : List R} (h : half ∈ halves rows) :
    half.length < rows.length ∧ half.length ≠ 0 := by
  unfold halves at h
  split at h
  · simp only [List.mem_cons, List.not_mem_nil, or_false] at h
    rcases h with rfl | rfl
    · rw [List.length_take]; omega
    · rw [List.length_drop]; omega
  · simp at h

theorem levels_perm : ∀ (n : Nat) (level : List (List R)), (∀ g ∈ level, g.length ≤ n) →
    (levels n level).Perm level.flatten := by
  intro n
  induction n with
  | zero =>
    intro level small
    have : level.flatten = [] := by
      simp only [List.flatten_eq_nil_iff]
      intro g hg
      simpa using small g hg
    rw [this]
    exact .refl _
  | succ n ih =>
    intro level small
    have below : ∀ g ∈ level.flatMap halves, g.length ≤ n := by
      intro g hg
      obtain ⟨whole, hw, hg⟩ := List.mem_flatMap.mp hg
      have := small whole hw
      have := length_halves hg
      omega
    refine (List.Perm.append_left _ (ih _ below)).trans ?_
    clear ih below small
    induction level with
    | nil => simp
    | cons g level ih =>
      simp only [List.flatMap_cons, List.flatten_append, List.flatten_cons]
      calc aloneOf g ++ level.flatMap aloneOf ++
            ((halves g).flatten ++ (level.flatMap halves).flatten)
          _ = aloneOf g ++ (level.flatMap aloneOf ++ (halves g).flatten) ++
                (level.flatMap halves).flatten := by simp
          _ |>.Perm (aloneOf g ++ ((halves g).flatten ++ level.flatMap aloneOf) ++
                (level.flatMap halves).flatten) :=
              (List.Perm.append_left _ List.perm_append_comm).append_right _
          _ = (aloneOf g ++ (halves g).flatten) ++
                (level.flatMap aloneOf ++ (level.flatMap halves).flatten) := by simp
          _ |>.Perm (g ++ level.flatten) := by
              rw [flatten_halves]
              exact ih.append_left _

/-- It is the batch, every row once. -/
theorem breadthFirst_perm (rows : List R) : (breadthFirst rows).Perm rows := by
  simpa [breadthFirst] using levels_perm rows.length [rows] (by simp)

@[simp] theorem levels_nil (n : Nat) : levels n ([] : List (List R)) = [] := by
  induction n with
  | zero => rfl
  | succ n ih => simp [levels, ih]

/-! ## The rows set aside, where failing is a property of single rows -/

/-- An attempt goes through when none of its rows fails. -/
def FailsByRow (attempt : σ → List R → List T → IsolationAttempt T × σ) (fails : R → Bool) : Prop :=
  ∀ w rows skip, (attempt w rows skip).1.ok = !rows.any fails

section Order

variable {fails : R → Bool}

/-- A group without a failing row adds none, at its level or further down. -/
theorem filter_levels : ∀ (n : Nat) (before sound after : List (List R)),
    (∀ g ∈ sound, ∀ row ∈ g, fails row = false) →
    (levels n (before ++ sound ++ after)).filter fails =
      (levels n (before ++ after)).filter fails := by
  intro n
  induction n with
  | zero => intro _ _ _ _; rfl
  | succ n ih =>
    intro before sound after none
    have alone : (sound.flatMap aloneOf).filter fails = [] := by
      simp only [List.filter_eq_nil_iff]
      intro row hrow
      obtain ⟨g, hg, hrow⟩ := List.mem_flatMap.mp hrow
      have hmem : row ∈ g := by
        rw [← flatten_halves g]
        exact List.mem_append_left _ hrow
      simp [none g hg row hmem]
    have below : ∀ g ∈ sound.flatMap halves, ∀ row ∈ g, fails row = false := by
      intro g hg row hrow
      obtain ⟨whole, hw, hg⟩ := List.mem_flatMap.mp hg
      have hmem : row ∈ whole := by
        rw [← flatten_halves whole]
        exact List.mem_append_right _ (List.mem_flatten.mpr ⟨g, hg, hrow⟩)
      exact none whole hw row hmem
    simp only [levels, List.flatMap_append, List.filter_append, alone, List.append_nil]
    rw [ih _ _ _ below]

/-- Where the queue stands: `now` of the level it is at, and `next` of the one below. -/
structure Search.At (s : Search σ R T) (n : Nat) (now next : List (List R)) : Prop where
  queue : s.queue.map (·.rows) = now ++ next
  now : ∀ g ∈ now, g.length ≤ n + 1
  next : ∀ g ∈ next, g.length ≤ n

/-- What the rows set aside and the queue amount to. -/
def toCome (n : Nat) (now next : List (List R)) : List R :=
  now.flatMap aloneOf ++ levels n (next ++ now.flatMap halves)

/-- The rows set aside so far, and the failing rows to come, are those of the batch. -/
structure Search.InOrder (fails : R → Bool) (rows : List R) (s : Search σ R T) : Prop where
  nonempty : ∀ x ∈ s.queue, x.rows ≠ []
  order : ∃ n now next, s.At n now next ∧
    s.result.poisoned.map (·.row) ++ (toCome n now next).filter fails =
      (breadthFirst rows).filter fails

variable {rows : List R} {s : Search σ R T} {segment : Segment R T} {rest : List (Segment R T)}

/-- At the end of a level, the next begins. -/
theorem Search.InOrder.head (inOrder : s.InOrder fails rows) (hq : s.queue = segment :: rest) :
    ∃ n now next, rest.map (·.rows) = now ++ next ∧
      (∀ g ∈ segment.rows :: now, g.length ≤ n + 1) ∧ (∀ g ∈ next, g.length ≤ n) ∧
      s.result.poisoned.map (·.row) ++ (toCome n (segment.rows :: now) next).filter fails =
        (breadthFirst rows).filter fails := by
  obtain ⟨n, now, next, at_, order⟩ := inOrder.order
  have queue := at_.queue
  rw [hq, List.map_cons] at queue
  cases now with
  | cons g now =>
    simp only [List.cons_append, List.cons.injEq] at queue
    obtain ⟨rfl, behind⟩ := queue
    exact ⟨n, now, next, behind, at_.now, at_.next, order⟩
  | nil =>
    rw [List.nil_append] at queue
    have small := at_.next
    rw [← queue] at small
    have some : segment.rows.length ≠ 0 := by
      simpa using inOrder.nonempty segment (by simp [hq])
    have := small segment.rows List.mem_cons_self
    obtain ⟨m, rfl⟩ : ∃ m, n = m + 1 := ⟨n - 1, by omega⟩
    refine ⟨m, rest.map (·.rows), [], by simp, small, by simp, ?_⟩
    rw [← order, ← queue]
    simp [toCome, levels]

theorem Search.InOrder.behind (inOrder : s.InOrder fails rows) (hq : s.queue = segment :: rest) :
    ∀ x ∈ rest, x.rows ≠ [] :=
  fun x hx => inOrder.nonempty x (by simp [hq, hx])

/-- A group that is split gives way to its halves, a level further down. -/
theorem Search.InOrder.split (inOrder : s.InOrder fails rows) (hq : s.queue = segment :: rest)
    (many : 1 < segment.rows.length) (t : Search σ R T)
    (same : t.result.poisoned = s.result.poisoned) (skip : List T) :
    (t.pushSplit rest segment.rows skip).InOrder fails rows := by
  obtain ⟨n, now, next, behind, small, below, order⟩ := inOrder.head hq
  have twoHalves : halves segment.rows =
      (Cdc.split t.nextId segment.rows skip).map (·.rows) := by
    simp [halves, many, Cdc.split]
  refine ⟨?_, n, now, next ++ halves segment.rows, ⟨?_, ?_, ?_⟩, ?_⟩
  · intro x hx
    rcases List.mem_append.mp hx with hx | hx
    · exact inOrder.behind hq x hx
    · exact split_ne_nil many _ _ x hx
  · simp [Search.pushSplit, behind, twoHalves]
  · exact fun g hg => small g (List.mem_cons_of_mem _ hg)
  · intro g hg
    rcases List.mem_append.mp hg with hg | hg
    · exact below g hg
    · have := length_halves hg
      have := small segment.rows List.mem_cons_self
      omega
  · have alone : aloneOf segment.rows = [] := by
      rw [aloneOf, if_neg (by omega)]
    rw [← order]
    simp [Search.pushSplit, same, toCome, alone]

theorem rounds_inOrder [DecidableEq T]
    {attempt : σ → List R → List T → IsolationAttempt T × σ} {opts : IsolationOptions T}
    (byRow : FailsByRow attempt fails) (rows : List R) :
    Rounds attempt opts (Search.InOrder fails rows) (fun _ => True) where
  last _ := trivial
  known {s segment rest} inOrder hq many := inOrder.split hq many s rfl _
  delivers {s segment rest outcome w} inOrder hq _ made ok := by
    obtain ⟨n, now, next, behind, small, below, order⟩ := inOrder.head hq
    have sound : ∀ row ∈ segment.rows, fails row = false := by
      have answered := byRow s.world segment.rows segment.skip
      rw [made, ok] at answered
      simpa using answered
    refine ⟨?_, n, now, next, ⟨?_, ?_, below⟩, ?_⟩
    · intro x hx
      obtain ⟨y, hy, rfl⟩ := List.mem_map.mp hx
      split
      · exact inOrder.behind hq y hy
      · exact inOrder.behind hq y hy
    · rw [← behind]
      exact marked_map (fun x : Segment R T => x.rows) (fun _ => rfl) segment.sibling rest
    · exact fun g hg => small g (List.mem_cons_of_mem _ hg)
    · have soundHalves : ∀ g ∈ halves segment.rows, ∀ row ∈ g, fails row = false := by
        intro g hg row hrow
        refine sound row ?_
        rw [← flatten_halves segment.rows]
        exact List.mem_append_right _ (List.mem_flatten.mpr ⟨g, hg, hrow⟩)
      have alone : (aloneOf segment.rows).filter fails = [] := by
        simp only [List.filter_eq_nil_iff]
        intro row hrow
        have : row ∈ segment.rows := by
          rw [← flatten_halves segment.rows]
          exact List.mem_append_left _ hrow
        simp [sound row this]
      rw [← order]
      simp only [Search.deliver, toCome, List.flatMap_cons, List.filter_append, alone,
        List.nil_append]
      rw [← List.append_assoc next, filter_levels n next _ _ soundHalves]
  fails _ _ _ _ _ := trivial
  poisons {s segment rest outcome w row} error inOrder hq _ made bad hrow := by
    obtain ⟨n, now, next, behind, small, below, order⟩ := inOrder.head hq
    have failing : fails row = true := by
      have answered := byRow s.world segment.rows segment.skip
      rw [made, bad, hrow] at answered
      simpa using answered
    refine ⟨inOrder.behind hq, n, now, next, ⟨behind, ?_, below⟩, ?_⟩
    · exact fun g hg => small g (List.mem_cons_of_mem _ hg)
    · rw [← order]
      simp [Search.poison, Search.failed, toCome, hrow, aloneOf, halves, failing]
  halves {s segment rest outcome w} inOrder hq _ _ _ many := inOrder.split hq many (s.failed rest w) rfl _

/-- How the search of a batch begins. -/
theorem Search.InOrder.start (opts : IsolationOptions T) [DecidableEq T] (w : σ)
    (many : 1 < rows.length) : (Search.start opts w rows).InOrder fails rows := by
  obtain ⟨n, hn⟩ : ∃ n, rows.length = n + 1 := ⟨rows.length - 1, by omega⟩
  have twoHalves : halves rows =
      (Cdc.split 0 rows (addTargets [] opts.alreadySucceeded)).map (·.rows) := by
    simp [Cdc.halves, many, Cdc.split]
  have alone : aloneOf rows = [] := by
    rw [aloneOf, if_neg (by omega)]
  refine ⟨split_ne_nil many _ _, n, [], halves rows, ⟨?_, by simp, ?_⟩, ?_⟩
  · simp [Search.start, twoHalves]
  · intro g hg
    have := length_halves hg
    omega
  · simp [Search.start, toCome, breadthFirst, hn, levels, alone]

end Order

/-! ## The whole search -/

/-- What a search comes to, and the attempts it made. -/
structure Isolates (opts : IsolationOptions T) (rows : List R) (out : IsolationResult R T)
    (made : List (Attempted R T)) : Prop where
  attempts : made.length = out.attempts
  budget : out.attempts ≤ opts.maxAttempts
  whole : out.systemic = false → (out.delivered ++ out.poisoned.map (·.row)).Perm rows
  apart : out.systemic = false → out.delivered.Disjoint (out.poisoned.map (·.row))
  alone : 1 < rows.length → ∀ p ∈ out.poisoned,
    ∃ a ∈ made, a.rows = [p.row] ∧ a.outcome.ok = false
  spared : ∀ a ∈ made, opts.alreadySucceeded ⊆ a.skip
  notAgain : made.Pairwise Attempted.Spares

/-- The rows set aside are the failing ones, as `order` has them. -/
def SetsAside (order : List R → List R) (fails : R → Bool) (rows : List R)
    (out : IsolationResult R T) : Prop :=
  out.systemic = false → out.poisoned.map (·.row) = (order rows).filter fails

section Whole

variable [DecidableEq T] {attempt : σ → List R → List T → IsolationAttempt T × σ}

/-- One row, or none, costs no attempt. -/
theorem isolateFailures_few {rows : List R} {opts : IsolationOptions T} {w : σ}
    (few : ¬ 1 < rows.length) : (isolateFailures attempt opts w rows).2 = w ∧
      (isolateFailures attempt opts w rows).1.attempts = 0 := by
  match rows with
  | [] => exact ⟨rfl, rfl⟩
  | [_] => exact ⟨rfl, rfl⟩
  | _ :: _ :: _ => simp at few

theorem isolates (opts : IsolationOptions T) (w : σ) {rows : List R} (distinct : rows.Nodup) :
    Isolates opts rows (isolateFailures (recorded attempt) opts (w, []) rows).1
      (isolateFailures (recorded attempt) opts (w, []) rows).2.2 := by
  have whole : (isolateFailures (recorded attempt) opts (w, []) rows).1.systemic = false → _ :=
    isolateFailures_perm (w, []) rows
  have apart : ∀ {out : IsolationResult R T}, out.systemic = false →
      (out.systemic = false → (out.delivered ++ out.poisoned.map (·.row)).Perm rows) →
      out.delivered.Disjoint (out.poisoned.map (·.row)) := fun h whole =>
    List.disjoint_of_nodup_append ((whole h).nodup_iff.mpr distinct)
  by_cases many : 1 < rows.length
  · have start : (Search.start opts ((w, []) : σ × List (Attempted R T)) rows).Carried opts := by
      refine ⟨⟨rfl, Nat.zero_le _, by simp [Search.start], by simp [Search.start], .nil⟩, ?_, ?_⟩
      · simpa [Search.start] using distinct
      · intro x hx
        refine ⟨?_, by simp [Search.start]⟩
        rw [(rows_split hx).2]
        exact subset_addTargets_right _ _
    rw [isolateFailures_many many] at whole ⊢
    have rounds : Rounds (recorded attempt) opts (Search.Carried opts) (Search.Written opts) :=
      rounds_carried
    obtain ⟨t, ends⟩ := isolateLoop_ends rounds _ _ (.start many _) start
    refine ⟨?_, ?_, whole, fun h => apart h whole, ?_, ?_, ?_⟩
    · rw [ends.world, ends.attempts]
      exact ends.last.attempts
    · rw [ends.attempts]
      exact ends.last.budget
    · intro _ p hp
      rw [ends.poisoned] at hp
      rw [ends.world]
      exact ends.last.alone p hp
    · rw [ends.world]
      exact ends.last.spared
    · rw [ends.world]
      exact ends.last.notAgain
  · obtain ⟨world, attempts⟩ :
        (isolateFailures (recorded attempt) opts (w, []) rows).2 = (w, []) ∧
          (isolateFailures (recorded attempt) opts (w, []) rows).1.attempts = 0 :=
      isolateFailures_few many
    refine ⟨?_, ?_, whole, fun h => apart h whole, fun h => absurd h many, ?_, ?_⟩
    · rw [world, attempts]
      rfl
    · rw [attempts]
      exact Nat.zero_le _
    · rw [world]
      simp
    · rw [world]
      exact .nil

theorem setsAside {opts : IsolationOptions T} {fails : R → Bool} (byRow : FailsByRow attempt fails)
    (w : σ) {rows : List R} (failed : rows.any fails = true) :
    SetsAside breadthFirst fails rows (isolateFailures attempt opts w rows).1 := by
  intro h
  by_cases many : 1 < rows.length
  · rw [isolateFailures_many many] at h ⊢
    obtain ⟨t, ends⟩ := isolateLoop_ends (rounds_inOrder byRow rows) _ _ (.start many w)
      (.start opts w many)
    obtain ⟨inOrder, empty⟩ := ends.whole h
    obtain ⟨n, now, next, at_, order⟩ := inOrder.order
    have queue := at_.queue
    rw [empty, List.map_nil] at queue
    obtain ⟨rfl, rfl⟩ := List.append_eq_nil_iff.mp queue.symm
    rw [ends.poisoned]
    simpa [toCome] using order
  · match rows with
    | [] => simp at failed
    | [row] =>
      have failing : fails row = true := by simpa using failed
      simp [isolateFailures, breadthFirst, levels, aloneOf, failing]
    | _ :: _ :: _ => simp at many

/-- **Isolation is exact, and bounded.** Of a batch of rows, no two of which are the same one, and
for whatever the attempts answer. The rows of a batch that failed are given level by level. -/
theorem isolates_breadthFirst (attempt : σ → List R → List T → IsolationAttempt T × σ)
    (opts : IsolationOptions T) (w : σ) (rows : List R) (distinct : rows.Nodup) :
    Isolates opts rows (isolateFailures (recorded attempt) opts (w, []) rows).1
        (isolateFailures (recorded attempt) opts (w, []) rows).2.2 ∧
      (isolateFailures (recorded attempt) opts (w, []) rows).1 =
        (isolateFailures attempt opts w rows).1 ∧
      (1 < rows.length → ∀ fuel, 2 * rows.length ≤ fuel →
        isolateLoop attempt opts fuel (.start opts w rows) = isolateFailures attempt opts w rows) ∧
      (breadthFirst rows).Perm rows ∧
      ∀ fails, FailsByRow attempt fails → rows.any fails = true →
        SetsAside breadthFirst fails rows (isolateFailures attempt opts w rows).1 := by
  refine ⟨isolates opts w distinct, isolateFailures_recorded w rows, ?_, breadthFirst_perm rows, fun _ byRow failed =>
    setsAside byRow w failed⟩
  intro many fuel enough
  obtain ⟨extra, rfl⟩ := Nat.exists_eq_add_of_le enough
  rw [isolateFailures_many many]
  exact isolateLoop_more (.start many w) extra

end Whole

/-! ## Three rows -/

/-- A destination that rejects every group with such a row, as a transaction does. -/
def rejecting (fails : R → Bool) (w : Unit) (rows : List R) (_ : List String) :
    IsolationAttempt String × Unit :=
  if rows.any fails then ({ ok := false, error := some "rejected", succeededTargets := [] }, w)
  else ({ ok := true, error := none, succeededTargets := [] }, w)

theorem rejecting_failsByRow (fails : R → Bool) : FailsByRow (rejecting fails) fails := by
  intro w rows skip
  unfold rejecting
  split
  · next h => simp [h]
  · next h => simpa using h

/-- The third row is alone a level before the first. -/
theorem three_rows_outOfOrder :
    FailsByRow (rejecting fun row : ℕ => row ≠ 2) (fun row => row ≠ 2) ∧
      (isolateFailures (rejecting fun row : ℕ => row ≠ 2) (isolationOptions "rejected" []) () [1, 2, 3]).1.attempts
        = 4 ∧
      ¬ SetsAside id (fun row : ℕ => row ≠ 2) [1, 2, 3]
        (isolateFailures (rejecting fun row : ℕ => row ≠ 2) (isolationOptions "rejected" []) () [1, 2, 3]).1 := by
  refine ⟨rejecting_failsByRow _, rfl, fun inOrder => ?_⟩
  have order := inOrder rfl
  exact absurd order (by decide)

/-- The theorem, of these rows. -/
theorem isolates_three_rows :
    [1, 2, 3].Nodup ∧
      Isolates (isolationOptions "rejected" []) [1, 2, 3]
        (isolateFailures (recorded (rejecting fun row : ℕ => row ≠ 2)) (isolationOptions "rejected" [])
          ((), []) [1, 2, 3]).1
        (isolateFailures (recorded (rejecting fun row : ℕ => row ≠ 2)) (isolationOptions "rejected" [])
          ((), []) [1, 2, 3]).2.2 :=
  ⟨by decide, (isolates_breadthFirst (rejecting fun row : ℕ => row ≠ 2) (isolationOptions "rejected" []) ()
    [1, 2, 3] (by decide)).1⟩

end Syncle.Cdc
