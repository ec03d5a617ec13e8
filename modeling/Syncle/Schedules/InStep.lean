import Syncle.Schedules.Reconcile

/-!
# The queue and the bridges

While anything is under way a scheduler may be wrong, as long as somebody is about to put it right:
`Agrees`. A save and a delete leave every bridge so, and so does each thing `reconcile` does to the
queue where it goes well (`goesWell`). What it has yet to do is in `Due`: a page it has yet to read,
a key it has yet to look at, a bridge it has yet to register.
-/

namespace Syncle.Schedules

open Lib

variable {ι : Type*} [DecidableEq ι]

namespace World

variable (w : World ι)

/-- The scheduler is what the bridge calls for, or a sync of the bridge as stored is still to come, or
the bridge is about to go. -/
def Agrees (id : ι) : Prop := w.there id = w.line id ∨ w.Coming id ∨ id ∈ w.removals

/-- Not written since `reconcile` began, and not wanted then. -/
def Quiet (id : ι) : Prop := id ∉ w.since ∧ id ∉ w.wanted.map Prod.fst

/-- What was written since agrees, and what was not is as `reconcile` read it. -/
structure Tracked : Prop where
  written : ∀ id ∈ w.since, w.Agrees id
  unwanted : ∀ id, w.Quiet id → w.line id = none

/-- What `reconcile` will not come to any more agrees. -/
def Due : Prop :=
  match w.phase with
  | .idle => True
  | .paging _ => w.Tracked ∧ ∀ id, w.Quiet id → w.Agrees id ∨ .schedule id ∉ w.seen
  | .looking _ size rest =>
    w.Tracked ∧ ∀ id, w.Quiet id → w.Agrees id ∨
      if size < pageSize then .schedule id ∈ rest else .schedule id ∉ w.seen
  | .dropping stale _ size rest =>
    w.Tracked ∧ ∀ id, w.Quiet id → w.Agrees id ∨ id = stale ∨
      if size < pageSize then .schedule id ∈ rest else .schedule id ∉ w.seen
  | .registering rest => ∀ id, w.Agrees id ∨ id ∉ w.since ∧ id ∈ rest.map Prod.fst
  | .done => ∀ id, w.Agrees id

structure Inv : Prop where
  others : w.LeavesOthers
  due : w.Due

end World

variable {w w' : World ι}

theorem lineOf_isSome (bridge : Bridge) : (lineOf bridge).isSome = (wantsScheduler bridge).isSome :=
  Option.isSome_map

theorem World.line_eq_none {id : ι} (none_ : ((w.bridges.get? id).bind wantsScheduler).isSome = false) :
    w.line id = none := by
  unfold World.line
  cases is : w.bridges.get? id with
  | none => rfl
  | some bridge =>
    rw [is, Option.bind_some, ← lineOf_isSome] at none_
    rw [Option.bind_some]
    exact Option.not_isSome_iff_eq_none.mp (by rw [none_]; exact Bool.false_ne_true)

theorem World.line_of_fetch {id : ι} {answers : Bool}
    (calls : ((w.fetch id answers).bind wantsScheduler).isSome = true) : w.line id ≠ none := by
  obtain ⟨schedule, is⟩ := Option.isSome_iff_exists.mp calls
  obtain ⟨bridge, fetched, wants⟩ := Option.bind_eq_some_iff.mp is
  have there : w.bridges.get? id = some bridge := by
    unfold World.fetch at fetched
    split at fetched
    · exact fetched
    · cases fetched
  have some_ := lineOf_isSome bridge
  rw [wants] at some_
  intro none_
  rw [World.line, there, Option.bind_some] at none_
  rw [none_] at some_
  cases some_

/-!
## A step beside `reconcile`

Saves, deletes and ticks go on while `reconcile` is at work. What each leaves to be put right is its
own to do, and stays within `Due`.
-/

/-- What a step beside `reconcile` may do. -/
structure Beside (w w' : World ι) : Prop where
  phase : w'.phase = w.phase
  wanted : w'.wanted = w.wanted
  seen : w'.seen = w.seen
  since : ∀ id ∈ w.since, id ∈ w'.since
  agrees : ∀ id, w.Agrees id → w'.Agrees id
  written : ∀ id ∈ w'.since, id ∈ w.since ∨ w'.Agrees id
  line : ∀ id, id ∉ w'.since → w'.line id = w.line id

theorem World.Due.beside (due : w.Due) (beside : Beside w w') : w'.Due := by
  have quiet {id : ι} (quiet : w'.Quiet id) : w.Quiet id :=
    ⟨fun mem => quiet.1 (beside.since id mem), beside.wanted ▸ quiet.2⟩
  have tracked (tracked : w.Tracked) : w'.Tracked := by
    constructor
    · intro id mem
      rcases beside.written id mem with before | now
      · exact beside.agrees id (tracked.written id before)
      · exact now
    · intro id here
      rw [beside.line id here.1]
      exact tracked.unwanted id (quiet here)
  unfold World.Due at due ⊢
  rw [beside.phase]
  cases phase : w.phase with
  | idle => trivial
  | paging start =>
    rw [phase] at due
    refine ⟨tracked due.1, ?_⟩
    intro id here
    rw [beside.seen]
    exact (due.2 id (quiet here)).imp_left (beside.agrees id)
  | looking start size rest =>
    rw [phase] at due
    refine ⟨tracked due.1, ?_⟩
    intro id here
    rw [beside.seen]
    exact (due.2 id (quiet here)).imp_left (beside.agrees id)
  | dropping stale start size rest =>
    rw [phase] at due
    refine ⟨tracked due.1, ?_⟩
    intro id here
    rw [beside.seen]
    exact (due.2 id (quiet here)).imp_left (beside.agrees id)
  | registering rest =>
    rw [phase] at due
    intro id
    rcases due id with agrees | ⟨fresh, mem⟩
    · exact .inl (beside.agrees id agrees)
    · by_cases written : id ∈ w'.since
      · exact .inl ((beside.written id written).resolve_left fresh)
      · exact .inr ⟨written, mem⟩
  | done =>
    rw [phase] at due
    intro id
    exact beside.agrees id (due id)

/-- What a step does to a bridge of which it changes nothing that counts. -/
theorem World.Agrees.of_same {id : ι} (agrees : w.Agrees id) (there : w'.there id = w.there id)
    (line : w'.line id = w.line id) (syncs : ∀ s ∈ w.syncs, s.1 = id → s ∈ w'.syncs)
    (removals : id ∈ w.removals → id ∈ w'.removals) : w'.Agrees id := by
  rcases agrees with same | ⟨s, mem, own, calls⟩ | leaving
  · exact .inl (by rw [there, line, same])
  · exact .inr (.inl ⟨s, syncs s mem own, own, by rw [line, calls]⟩)
  · exact .inr (.inr (removals leaving))

/-- A scheduler is written, or taken, as the bridge is stored; or that is still to come. -/
theorem World.Agrees.of_put {id : ι} (key : w'.there id = w'.line id ∨ w'.Coming id) :
    w'.Agrees id :=
  key.elim .inl fun coming => .inr (.inl coming)

theorem mem_eraseIdx_of_ne {α : Type*} {l : List α} {n : ℕ} {a b : α} (at_ : l[n]? = some a)
    (mem : b ∈ l) (ne : b ≠ a) : b ∈ l.eraseIdx n := by
  rw [List.mem_eraseIdx_iff_getElem?]
  obtain ⟨m, is⟩ := List.mem_iff_getElem?.mp mem
  refine ⟨m, ?_, is⟩
  intro same
  subst same
  rw [at_] at is
  exact ne (Option.some.inj is).symm

theorem get?_filter_ne {bridges : OrderedMap ι Bridge} (id k : ι) :
    (bridges.filter fun other => other ≠ id).get? k = if k = id then none else bridges.get? k := by
  rw [OrderedMap.get?_filter]
  by_cases same : k = id <;> simp [same]

/-! What is called for is known from the bridge as stored; each of these writes the one and leaves the
other to come, or has it come. -/

theorem beside_save (id : ι) (bridge : Bridge) :
    Beside w { w with
      bridges := w.bridges.set id bridge
      syncs := w.syncs ++ [(id, bridge)]
      since := id :: w.since } := by
  have line (k : ι) (ne : k ≠ id) :
      ((w.bridges.set id bridge).get? k).bind lineOf = (w.bridges.get? k).bind lineOf := by
    rw [OrderedMap.get?_set, if_neg ne]
  have own : ((w.bridges.set id bridge).get? id).bind lineOf = lineOf bridge := by
    rw [OrderedMap.get?_set, if_pos rfl, Option.bind_some]
  have coming : World.Agrees { w with
      bridges := w.bridges.set id bridge
      syncs := w.syncs ++ [(id, bridge)]
      since := id :: w.since } id :=
    .inr (.inl ⟨(id, bridge), List.mem_append_right _ List.mem_cons_self, rfl, own.symm⟩)
  refine ⟨rfl, rfl, rfl, fun k mem => List.mem_cons_of_mem _ mem, ?_, ?_, ?_⟩
  · intro k agrees
    by_cases same : k = id
    · subst same
      exact coming
    · exact agrees.of_same rfl (line k same) (fun s mem _ => List.mem_append_left _ mem) fun mem => mem
  · intro k mem
    rcases List.mem_cons.mp mem with rfl | before
    · exact .inr coming
    · exact .inl before
  · intro k fresh
    exact line k fun same => fresh (List.mem_cons.mpr (.inl same))

theorem Beside.of_kept (phase : w'.phase = w.phase) (wanted : w'.wanted = w.wanted)
    (seen : w'.seen = w.seen) (since : w'.since = w.since) (bridges : w'.bridges = w.bridges)
    (agrees : ∀ id, w.Agrees id → w'.Agrees id) : Beside w w' where
  phase := phase
  wanted := wanted
  seen := seen
  since id mem := since ▸ mem
  agrees := agrees
  written id mem := .inl (since ▸ mem)
  line id _ := by rw [World.line, bridges, World.line]

theorem there_put {id k : ι} {line : Option Line} {n : ℕ} :
    (put w.queue (.schedule id) line n).get? (.schedule k) = if k = id then line else w.there k := by
  rw [get?_put]
  by_cases same : k = id
  · rw [if_pos same, if_pos (congrArg Key.schedule same)]
  · rw [if_neg same, if_neg fun h => same (Key.schedule.inj h)]
    rfl

theorem there_remove {id k : ι} :
    (removeJobScheduler w.queue (.schedule id)).get? (.schedule k) =
      if k = id then none else w.there k :=
  @there_put ι _ w id k none 0

theorem beside_sync {n position : ℕ} {s : ι × Bridge} (at_ : w.syncs[n]? = some s)
    (allowed : goesWell w (.sync n position)) :
    Beside w { w with
      queue := put w.queue (.schedule s.1) (lineOf s.2) position
      syncs := w.syncs.eraseIdx n } := by
  refine Beside.of_kept rfl rfl rfl rfl rfl ?_
  intro k agrees
  by_cases same : k = s.1
  · subst same
    apply World.Agrees.of_put
    refine (allowed s at_).imp (fun as_ => ?_) (fun coming => coming)
    show (put w.queue (.schedule s.1) (lineOf s.2) position).get? (.schedule s.1) = w.line s.1
    rw [there_put, if_pos rfl, as_]
  · refine agrees.of_same ?_ rfl (fun t mem own => mem_eraseIdx_of_ne at_ mem ?_) fun mem => mem
    · show (put w.queue (.schedule s.1) (lineOf s.2) position).get? (.schedule k) = w.there k
      rw [there_put, if_neg same]
    · intro is
      subst is
      exact same own.symm

theorem beside_teardown (id : ι) :
    Beside w { w with
      queue := removeJobScheduler w.queue (.schedule id)
      removals := w.removals ++ [id] } := by
  refine Beside.of_kept rfl rfl rfl rfl rfl ?_
  intro k agrees
  by_cases same : k = id
  · subst same
    exact .inr (.inr (List.mem_append_right _ List.mem_cons_self))
  · refine agrees.of_same ?_ rfl (fun t mem _ => mem) fun mem => List.mem_append_left _ mem
    show (removeJobScheduler w.queue (.schedule id)).get? (.schedule k) = w.there k
    rw [there_remove, if_neg same]

theorem beside_erase {n : ℕ} {id : ι} (at_ : w.removals[n]? = some id)
    (allowed : goesWell w (.erase n)) :
    Beside w { w with
      bridges := w.bridges.filter fun k => k ≠ id
      removals := w.removals.eraseIdx n
      since := id :: w.since } := by
  have line (k : ι) (ne : k ≠ id) :
      ((w.bridges.filter fun k => k ≠ id).get? k).bind lineOf = (w.bridges.get? k).bind lineOf := by
    rw [get?_filter_ne, if_neg ne]
  have gone : World.Agrees { w with
      bridges := w.bridges.filter fun k => k ≠ id
      removals := w.removals.eraseIdx n
      since := id :: w.since } id := by
    refine .inl ?_
    show w.there id = ((w.bridges.filter fun k => k ≠ id).get? id).bind lineOf
    rw [allowed id at_, get?_filter_ne, if_pos rfl, Option.bind_none]
  refine ⟨rfl, rfl, rfl, fun k mem => List.mem_cons_of_mem _ mem, ?_, ?_, ?_⟩
  · intro k agrees
    by_cases same : k = id
    · subst same
      exact gone
    · exact agrees.of_same rfl (line k same) (fun s mem _ => mem)
        fun mem => mem_eraseIdx_of_ne at_ mem same
  · intro k mem
    rcases List.mem_cons.mp mem with rfl | before
    · exact .inr gone
    · exact .inl before
  · intro k fresh
    exact line k fun same => fresh (List.mem_cons.mpr (.inl same))

/-- A scheduler that is taken while its bridge calls for none, or will be put back. -/
theorem agrees_remove {id k : ι} {w' : World ι} (uncalled : w.line id = none ∨ w.Coming id)
    (queue : w'.queue = removeJobScheduler w.queue (.schedule id)) (bridges : w'.bridges = w.bridges)
    (syncs : w'.syncs = w.syncs) (removals : w'.removals = w.removals) (agrees : k = id ∨ w.Agrees k) :
    w'.Agrees k := by
  have line (k : ι) : w'.line k = w.line k := by rw [World.line, bridges, World.line]
  have there (k : ι) : w'.there k = if k = id then none else w.there k := by
    rw [World.there, queue, there_remove]
  have coming (k : ι) : w.Coming k → w'.Coming k := by
    intro ⟨s, mem, own, calls⟩
    exact ⟨s, syncs ▸ mem, own, by rw [line, calls]⟩
  by_cases same : k = id
  · subst same
    apply World.Agrees.of_put
    refine uncalled.imp (fun none_ => ?_) (coming k)
    rw [there, if_pos rfl, line, none_]
  · refine (agrees.resolve_left same).of_same ?_ (line k) (fun s mem _ => syncs ▸ mem)
      fun mem => removals ▸ mem
    rw [there, if_neg same]

theorem beside_retire {n : ℕ} {id : ι} (at_ : w.retiring[n]? = some id)
    (allowed : goesWell w (.retire n)) :
    Beside w { w with
      queue := removeJobScheduler w.queue (.schedule id)
      retiring := w.retiring.eraseIdx n } := by
  refine Beside.of_kept rfl rfl rfl rfl rfl ?_
  intro k agrees
  exact agrees_remove (allowed id at_) rfl rfl rfl rfl (.inr agrees)

theorem beside_fires (key : Key ι) (position : ℕ) :
    Beside w { w with queue := move w.queue key position } := by
  refine Beside.of_kept rfl rfl rfl rfl rfl ?_
  intro k agrees
  exact agrees.of_same (get?_move _ _ _ _) rfl (fun s mem _ => mem) fun mem => mem

theorem beside_others (name : String) (line : Option Line) (position : ℕ) :
    Beside w { w with
      queue := put w.queue (.other name) line position
      theirs := fun other => if other = name then line else w.theirs other } := by
  refine Beside.of_kept rfl rfl rfl rfl rfl ?_
  intro k agrees
  refine agrees.of_same ?_ rfl (fun s mem _ => mem) fun mem => mem
  show (put w.queue (.other name) line position).get? (.schedule k) = w.there k
  rw [get?_put, if_neg (by simp)]
  rfl

/-!
## The steps of `reconcile`

It reads the keys page by page, drops what nobody wants, and then writes what is wanted.
-/

theorem World.Tracked.of_same (tracked : w.Tracked) (agrees : ∀ id, w.Agrees id → w'.Agrees id)
    (since : w'.since = w.since) (wanted : w'.wanted = w.wanted) (bridges : w'.bridges = w.bridges) :
    w'.Tracked where
  written id mem := agrees id (tracked.written id (since ▸ mem))
  unwanted id quiet := by
    have before : w.Quiet id := ⟨since ▸ quiet.1, wanted ▸ quiet.2⟩
    rw [World.line, bridges]
    exact tracked.unwanted id before

/-- **`reconcile` begins.** What calls for a scheduler is wanted. -/
theorem due_begin : World.Due { w with
    phase := .paging 0
    wanted := w.bridges.entries.filter fun e => (wantsScheduler e.2).isSome
    seen := []
    since := [] } := by
  refine ⟨⟨?_, ?_⟩, ?_⟩
  · intro id mem
    cases mem
  · intro id quiet
    apply World.line_eq_none
    rw [Bool.eq_false_iff]
    intro calls
    obtain ⟨bridge, is⟩ : ∃ bridge, w.bridges.get? id = some bridge := by
      cases is : w.bridges.get? id with
      | none => simp [is] at calls
      | some bridge => exact ⟨bridge, rfl⟩
    rw [is, Option.bind_some] at calls
    exact quiet.2 (List.mem_map.mpr
      ⟨(id, bridge), List.mem_filter.mpr ⟨OrderedMap.get?_eq_some.mp is, calls⟩, rfl⟩)
  · intro id quiet
    exact .inr List.not_mem_nil

/-- **A page is read.** A short one is the rest of the queue. -/
theorem due_page {start : ℕ} (phase : w.phase = .paging start) (due : w.Due)
    (allowed : goesWell w .page) : World.Due { w with
      phase := .looking start ((w.queue.keys.drop start).take pageSize).length
        ((w.queue.keys.drop start).take pageSize) } := by
  unfold World.Due at due
  unfold goesWell at allowed
  rw [phase] at due
  simp only [phase] at allowed
  refine ⟨due.1.of_same (fun id agrees => agrees) rfl rfl rfl, ?_⟩
  intro id quiet
  rcases due.2 id quiet with agrees | unseen
  · exact .inl agrees
  split
  · next short =>
    have whole : (w.queue.keys.drop start).take pageSize = w.queue.keys.drop start := by
      apply List.take_of_length_le
      rw [List.length_take] at short
      omega
    rw [whole]
    by_cases mem : .schedule id ∈ w.queue.keys
    · rw [← List.take_append_drop start w.queue.keys] at mem
      rcases List.mem_append.mp mem with before | after
      · exact absurd (allowed _ before rfl) unseen
      · exact .inr after
    · refine .inl (.inl ?_)
      show w.there id = w.line id
      rw [World.there, OrderedMap.get?_eq_none.mpr mem, due.1.unwanted id quiet]
  · exact .inr unseen

/-- A key that is looked at and left where it is. -/
theorem due_pass {start size : ℕ} {key : Key ι} {rest : List (Key ι)}
    (phase : w.phase = .looking start size (key :: rest)) (due : w.Due)
    (other : ∀ id, w.Quiet id → key ≠ .schedule id) : (w.pass key start size rest).Due := by
  unfold World.Due at due
  rw [phase] at due
  refine ⟨due.1.of_same (fun id agrees => agrees) rfl rfl rfl, ?_⟩
  intro id quiet
  refine (due.2 id quiet).imp_right fun ahead => ?_
  have ne := other id quiet
  split at ahead
  · next short =>
    rw [if_pos short]
    exact (List.mem_cons.mp ahead).resolve_left (Ne.symm ne)
  · next full =>
    rw [if_neg full]
    intro mem
    rcases List.mem_cons.mp mem with same | before
    · exact ne same.symm
    · exact ahead before

/-- A key that is taken for a stale one. -/
theorem due_stale {start size : ℕ} {stale : ι} {rest : List (Key ι)}
    (phase : w.phase = .looking start size (.schedule stale :: rest)) (due : w.Due) :
    World.Due { w with phase := .dropping stale start size rest, seen := .schedule stale :: w.seen } := by
  unfold World.Due at due
  rw [phase] at due
  refine ⟨due.1.of_same (fun id agrees => agrees) rfl rfl rfl, ?_⟩
  intro id quiet
  rcases due.2 id quiet with agrees | ahead
  · exact .inl agrees
  by_cases same : id = stale
  · exact .inr (.inl same)
  refine .inr (.inr ?_)
  split at ahead
  · next short =>
    rw [if_pos short]
    exact (List.mem_cons.mp ahead).resolve_left fun is => same (Key.schedule.inj is)
  · next full =>
    rw [if_neg full]
    intro mem
    rcases List.mem_cons.mp mem with is | before
    · exact same (Key.schedule.inj is)
    · exact ahead before

theorem due_drop {start size : ℕ} {stale : ι} {rest : List (Key ι)}
    (phase : w.phase = .dropping stale start size rest) (due : w.Due) (allowed : goesWell w .drop) :
    World.Due { w with
      queue := removeJobScheduler w.queue (.schedule stale)
      phase := .looking start size rest } := by
  unfold World.Due at due
  unfold goesWell at allowed
  rw [phase] at due
  simp only [phase] at allowed
  have after (id : ι) (agrees : id = stale ∨ w.Agrees id) : World.Agrees { w with
      queue := removeJobScheduler w.queue (.schedule stale)
      phase := .looking start size rest } id :=
    agrees_remove allowed rfl rfl rfl rfl agrees
  refine ⟨due.1.of_same (fun id agrees => after id (.inr agrees)) rfl rfl rfl, ?_⟩
  intro id quiet
  rcases due.2 id quiet with agrees | same | ahead
  · exact .inl (after id (.inr agrees))
  · exact .inl (after id (.inl same))
  · exact .inr ahead

/-- **The page is through**; after a short one, the bridges are registered. -/
theorem due_turn {start size : ℕ} (phase : w.phase = .looking start size []) (due : w.Due) :
    World.Due { w with
      phase := if size < pageSize then .registering w.wanted else .paging (start + pageSize) } := by
  unfold World.Due at due
  rw [phase] at due
  by_cases short : size < pageSize
  · rw [if_pos short]
    intro id
    by_cases written : id ∈ w.since
    · exact .inl (due.1.written id written)
    by_cases mem : id ∈ w.wanted.map Prod.fst
    · exact .inr ⟨written, mem⟩
    rcases due.2 id ⟨written, mem⟩ with agrees | ahead
    · exact .inl agrees
    · rw [if_pos short] at ahead
      cases ahead
  · rw [if_neg short]
    refine ⟨due.1.of_same (fun id agrees => agrees) rfl rfl rfl, ?_⟩
    intro id quiet
    refine (due.2 id quiet).imp_right fun ahead => ?_
    rwa [if_neg short] at ahead

theorem due_register {position : ℕ} {own : ι} {bridge : Bridge} {rest : List (ι × Bridge)}
    (phase : w.phase = .registering ((own, bridge) :: rest)) (due : w.Due)
    (allowed : goesWell w (.register position)) : World.Due { w with
      queue := put w.queue (.schedule own) (lineOf bridge) position
      phase := .registering rest } := by
  unfold World.Due at due
  unfold goesWell at allowed
  rw [phase] at due
  simp only [phase] at allowed
  intro id
  by_cases same : id = own
  · subst same
    refine .inl (World.Agrees.of_put (allowed.imp (fun as_ => ?_) fun coming => coming))
    show (put w.queue (.schedule id) (lineOf bridge) position).get? (.schedule id) = w.line id
    rw [there_put, if_pos rfl, as_]
  · rcases due id with agrees | ⟨fresh, mem⟩
    · refine .inl (agrees.of_same ?_ rfl (fun s mem _ => mem) fun mem => mem)
      show (put w.queue (.schedule own) (lineOf bridge) position).get? (.schedule id) = w.there id
      rw [there_put, if_neg same]
    · exact .inr ⟨fresh, (List.mem_cons.mp mem).resolve_left same⟩

/-! ## Every run -/

theorem others_put {key : Key ι} {line : Option Line} {n : ℕ} (others : w.LeavesOthers)
    (ours : key.isOurs = true) (name : String) :
    (put w.queue key line n).get? (.other name) = w.theirs name := by
  rw [get?_put, if_neg, others name]
  intro same
  subst same
  cases ours

theorem others_remove {id : ι} (others : w.LeavesOthers) (name : String) :
    (removeJobScheduler w.queue (.schedule id)).get? (.other name) = w.theirs name :=
  @others_put ι _ w (.schedule id) none 0 others rfl name

theorem World.Inv.step {e : ScheduleStep ι} (inv : w.Inv) (allowed : goesWell w e)
    (move : step w e = some w') : w'.Inv := by
  obtain ⟨others, due⟩ := inv
  cases e with
  | save id bridge =>
    obtain rfl := Option.some.inj move
    exact ⟨others, due.beside (beside_save id bridge)⟩
  | sync n position =>
    obtain ⟨s, at_, rfl⟩ := Option.map_eq_some_iff.mp move
    exact ⟨others_put others rfl, due.beside (beside_sync at_ allowed)⟩
  | teardown id =>
    obtain rfl := Option.some.inj move
    exact ⟨others_remove others, due.beside (beside_teardown id)⟩
  | erase n =>
    obtain ⟨id, at_, rfl⟩ := Option.map_eq_some_iff.mp move
    exact ⟨others, due.beside (beside_erase at_ allowed)⟩
  | tick id answers =>
    simp only [Schedules.step] at move
    split at move
    · obtain rfl := Option.some.inj move
      exact ⟨others, due⟩
    · obtain rfl := Option.some.inj move
      refine ⟨others, due.beside (Beside.of_kept rfl rfl rfl rfl rfl ?_)⟩
      intro k agrees
      exact agrees
  | retire n =>
    obtain ⟨id, at_, rfl⟩ := Option.map_eq_some_iff.mp move
    exact ⟨others_remove others, due.beside (beside_retire at_ allowed)⟩
  | fires key position =>
    obtain rfl := Option.some.inj move
    refine ⟨?_, due.beside (beside_fires key position)⟩
    intro name
    show (Schedules.move w.queue key position).get? (.other name) = w.theirs name
    rw [get?_move, others name]
  | others name line position =>
    obtain rfl := Option.some.inj move
    refine ⟨?_, due.beside (beside_others name line position)⟩
    intro other
    show (put w.queue (.other name) line position).get? (.other other) =
      if other = name then line else w.theirs other
    rw [get?_put]
    by_cases same : other = name
    · rw [if_pos same, if_pos (congrArg Key.other same)]
    · rw [if_neg same, if_neg fun h => same (Key.other.inj h), others other]
  | begin =>
    simp only [Schedules.step] at move
    split at move
    · obtain rfl := Option.some.inj move
      exact ⟨others, due_begin⟩
    · obtain rfl := Option.some.inj move
      exact ⟨others, due_begin⟩
    · cases move
  | page =>
    simp only [Schedules.step] at move
    split at move
    · next phase =>
      obtain rfl := Option.some.inj move
      exact ⟨others, due_page phase due allowed⟩
    · cases move
  | look answers =>
    simp only [Schedules.step] at move
    split at move
    · next phase =>
      obtain rfl := Option.some.inj move
      exact ⟨others, due_turn phase due⟩
    · next name rest phase =>
      obtain rfl := Option.some.inj move
      refine ⟨others, due_pass phase due ?_⟩
      intro id _ same
      cases same
    · next start size stale rest phase =>
      split at move
      · next wanted =>
        obtain rfl := Option.some.inj move
        refine ⟨others, due_pass phase due ?_⟩
        intro id quiet same
        exact quiet.2 (Key.schedule.inj same ▸ wanted)
      · split at move
        · next calls =>
          obtain rfl := Option.some.inj move
          refine ⟨others, due_pass phase due ?_⟩
          intro id quiet same
          obtain rfl := Key.schedule.inj same
          -- a bridge that calls for one now and did not then has been written since
          have tracked : w.Tracked := by
            unfold World.Due at due
            rw [phase] at due
            exact due.1
          exact World.line_of_fetch calls (tracked.unwanted _ quiet)
        · obtain rfl := Option.some.inj move
          exact ⟨others, due_stale phase due⟩
    · cases move
  | drop =>
    simp only [Schedules.step] at move
    split at move
    · next phase =>
      obtain rfl := Option.some.inj move
      exact ⟨others_remove others, due_drop phase due allowed⟩
    · cases move
  | register position =>
    simp only [Schedules.step] at move
    split at move
    · next phase =>
      obtain rfl := Option.some.inj move
      exact ⟨others_put others rfl, due_register phase due allowed⟩
    · next phase =>
      obtain rfl := Option.some.inj move
      refine ⟨others, ?_⟩
      intro id
      unfold World.Due at due
      rw [phase] at due
      rcases due id with agrees | ⟨-, mem⟩
      · exact agrees
      · cases mem
    · cases move

/-- With any bridges and any schedulers at the start, in any order, and with any saves, deletes, ticks
and fires between any two of its steps: in a run whose steps all go well, once `reconcile` is over and
no save or delete is half done, the schedulers are those that the bridges call for as they are stored;
and those of other services are, all along, as these left them. -/
theorem inStep_of_goesWell {es : List (ScheduleStep ι)} (idle : w.phase = .idle)
    (others : w.LeavesOthers) (run : Run step goesWell w es w') :
    w'.LeavesOthers ∧ (w'.Settled → w'.InStep) := by
  have start : w.Inv := by
    refine ⟨others, ?_⟩
    unfold World.Due
    rw [idle]
    trivial
  have inv : w'.Inv := by
    apply run.invariant start
    intro s e s' allowed inv move
    exact inv.step allowed move
  refine ⟨inv.others, ?_⟩
  rintro ⟨over_, saved, gone⟩ id
  have due := inv.due
  unfold World.Due at due
  rw [over_] at due
  rcases due id with agrees | ⟨s, mem, _⟩ | mem
  · exact agrees
  · rw [saved] at mem
    cases mem
  · rw [gone] at mem
    cases mem

/-! ## Two queues -/

section Nightly

instance (w : World ι) (e : ScheduleStep ι) : Decidable (goesWell w e) := by
  unfold goesWell
  split
  · split <;> infer_instance
  · split <;> infer_instance
  · infer_instance
  · split <;> infer_instance
  · infer_instance
  · infer_instance
  · infer_instance

def atTwo : Line := ⟨"0 2 * * *", "UTC"⟩

def nightly : Bridge := ⟨.replay (some ⟨"0 2 * * *", "UTC", true⟩), true⟩

theorem nodup_range (n : ℕ) :
    (((List.range n).map fun id => (Key.schedule id, atTwo)).map Prod.fst).Nodup := by
  rw [List.map_map]
  refine List.nodup_range.map ?_
  intro id other same
  exact Key.schedule.inj same

/-- 201 schedulers of bridges that are no more. -/
def stale : World ℕ where
  bridges := .empty
  queue := ⟨_, nodup_range 201⟩

/-- The page is emptied, and what stood behind it moves up to where the next page does not look. -/
def twoPages : List (ScheduleStep ℕ) :=
  [.begin, .page] ++ (List.replicate 200 [.look true, .drop]).flatten ++
    [.look true, .page, .look true, .register 0]

instance (w : World ι) : Decidable w.Settled :=
  inferInstanceAs (Decidable (w.phase = .done ∧ w.syncs = [] ∧ w.removals = []))

/-- A run that ends with a scheduler that is not what its bridge calls for. -/
theorem not_inStep_of_eval {w : World ι} {es : List (ScheduleStep ι)} (id : ι)
    (ends : (runEvents step w es).any (fun w => w.Settled ∧ w.there id ≠ w.line id) = true) :
    ∃ w', Run step anyStep w es w' ∧ w'.Settled ∧ ¬ w'.InStep := by
  obtain ⟨w', ran, holds⟩ := (Option.any_eq_true _ _).mp ends
  obtain ⟨settled, differs⟩ := of_decide_eq_true holds
  refine ⟨w', run_of_eval ran, settled, ?_⟩
  intro inStep
  exact differs (inStep id)

/-- What is left of a queue once the schedulers of some bridges are taken out of it. -/
def without (q : Queue (Key ι)) (ids : List ι) : Queue (Key ι) :=
  ids.foldl (fun q id => removeJobScheduler q (.schedule id)) q

theorem entries_without (q : Queue (Key ι)) (ids : List ι) :
    (without q ids).entries = q.entries.filter fun e => e.1 ∉ ids.map Key.schedule := by
  induction ids generalizing q with
  | nil => simp [without]
  | cons id ids ih =>
    have next : without q (id :: ids) = without (removeJobScheduler q (.schedule id)) ids := rfl
    rw [next, ih, removeJobScheduler, OrderedMap.filter, List.filter_filter]
    apply List.filter_congr
    intro e _
    by_cases own : e.1 = .schedule id <;> simp [own]

/-- A page of schedulers of bridges that are no more is emptied. -/
theorem run_drops {start size : ℕ} (ids : List ι) {w : World ι}
    (phase : w.phase = .looking start size (ids.map .schedule)) (bridges : w.bridges = .empty)
    (wanted : w.wanted = []) :
    ∃ seen, Run step anyStep w (List.replicate ids.length [.look true, .drop]).flatten
      { w with queue := without w.queue ids, phase := .looking start size [], seen := seen } := by
  induction ids generalizing w with
  | nil =>
    refine ⟨w.seen, ?_⟩
    have same : w = { w with
        queue := without w.queue [], phase := .looking start size [], seen := w.seen } := by
      obtain ⟨_, _, _, _, _, _, _, _, _⟩ := w
      obtain rfl := phase
      rfl
    rw [← same]
    exact .nil w
  | cons id ids ih =>
    have look : step w (.look true) = some { w with
        phase := .dropping id start size (ids.map .schedule), seen := .schedule id :: w.seen } := by
      have gone : w.fetch id true = none := by
        rw [World.fetch, if_pos rfl, bridges]
        rfl
      simp [step, phase, wanted, gone]
    obtain ⟨seen, ran⟩ := @ih { w with
      queue := removeJobScheduler w.queue (.schedule id)
      phase := .looking start size (ids.map .schedule)
      seen := .schedule id :: w.seen } rfl bridges wanted
    exact ⟨seen, .cons trivial look (.cons trivial rfl ran)⟩

theorem entries_stale : (without stale.queue (List.range 200)).entries =
    [(.schedule 200, atTwo)] := by
  have all : stale.queue.entries =
      (List.range 200).map (fun id => (.schedule id, atTwo)) ++ [(.schedule 200, atTwo)] := by
    have split := @List.map_append _ _ (fun id => (Key.schedule id, atTwo)) (List.range 200) [200]
    rw [← List.range_succ] at split
    exact split
  rw [entries_without, all, List.filter_append, List.filter_eq_nil_iff.mpr, List.nil_append]
  · simp
    omega
  · intro e mem
    obtain ⟨id, below, rfl⟩ := List.mem_map.mp mem
    simp [List.mem_range.mp below]

/-- **The last of 201 stale schedulers stays.** -/
theorem one_stays : ∃ w, Run step anyStep stale twoPages w ∧ w.Settled ∧ ¬ w.InStep := by
  have page : (stale.queue.keys.drop 0).take pageSize = (List.range 200).map Key.schedule := by
    have keys : stale.queue.keys = (List.range 201).map Key.schedule := List.map_map
    rw [List.drop_zero, keys, ← List.map_take, List.take_range]
    rfl
  obtain ⟨seen, drops⟩ := @run_drops ℕ _ 0 200 (List.range 200) { stale with
    phase := .looking 0 200 ((List.range 200).map .schedule) } rfl rfl rfl
  have begins : Run step anyStep stale [.begin, .page] { stale with
      phase := .looking 0 200 ((List.range 200).map .schedule) } := by
    refine .cons trivial rfl (.cons trivial ?_ (.nil _))
    have first : step { stale with phase := .paging 0 } .page = some { stale with
        phase := .looking 0 ((stale.queue.keys.drop 0).take pageSize).length
          ((stale.queue.keys.drop 0).take pageSize) } := rfl
    rw [page, List.length_map, List.length_range] at first
    exact first
  have left : without stale.queue (List.range 200) = ⟨[(.schedule 200, atTwo)], List.nodup_singleton _⟩ :=
    OrderedMap.ext entries_stale
  rw [List.length_range, left] at drops
  refine ⟨_, (begins.append drops).append
    (.cons trivial rfl (.cons trivial rfl (.cons trivial rfl (.cons trivial rfl (.nil _))))), ?_, ?_⟩
  · exact ⟨rfl, rfl, rfl⟩
  · intro inStep
    have fires : some atTwo = none := inStep 200
    cases fires

/-- A bridge, a scheduler of one that is no more, and one of another service. -/
def leftover : World ℕ where
  bridges := OrderedMap.empty.set 1 nightly
  queue := OrderedMap.empty.setAll [(.schedule 7, atTwo), (.other "digest", ⟨"0 9 * * 1", "UTC"⟩)]
  theirs name := if name = "digest" then some ⟨"0 9 * * 1", "UTC"⟩ else none

/-- A bridge that is switched off after it was read, and before it is registered, goes on firing. -/
theorem fires_switched_off : ∃ w, Run step anyStep leftover
    [.begin, .page, .look true, .drop, .look true, .look true,
      .save 1 { nightly with enabled := false }, .sync 0 0, .register 0, .register 0] w ∧
        w.Settled ∧ ¬ w.InStep :=
  not_inStep_of_eval 1 (by decide +kernel)

/-- More than a page: two hundred bridges, a scheduler of one that is no more, and one of another
service. -/
def busy : World ℕ where
  bridges := ⟨(List.range 200).map fun id => (id, nightly), by
    rw [List.map_map]
    exact List.nodup_range.map fun _ _ => id⟩
  queue := (⟨_, nodup_range 201⟩ : Queue (Key ℕ)).set (.other "digest") ⟨"0 9 * * 1", "UTC"⟩
  theirs name := if name = "digest" then some ⟨"0 9 * * 1", "UTC"⟩ else none

theorem leavesOthers_busy : busy.LeavesOthers := by
  intro name
  refine (OrderedMap.get?_set (m := ⟨_, nodup_range 201⟩) _ _ _).trans ?_
  by_cases digest : name = "digest"
  · subst digest
    rfl
  · have absent : OrderedMap.get? (⟨_, nodup_range 201⟩ : Queue (Key ℕ)) (.other name) = none := by
      rw [OrderedMap.get?_eq_none]
      simp [OrderedMap.keys]
    rw [absent, if_neg (by simp [digest])]
    exact (if_neg digest).symm

/-- …and one that is made while `reconcile` runs, between two pages, is in step. -/
theorem made_meanwhile : ∃ es w, Run step goesWell busy es w ∧ w.LeavesOthers ∧
    (w.Settled → w.InStep) ∧ w.Settled := by
  have ends : (runEvents (guarded step goesWell) busy
      ([.begin, .page] ++ List.replicate 201 (.look true) ++
        [.save 700 nightly, .page, .look true, .drop, .sync 0 201, .look true, .look true] ++
        List.replicate 201 (.register 0))).any (fun w => w.Settled) = true := by decide +kernel
  obtain ⟨w, ran, settled⟩ := (Option.any_eq_true _ _).mp ends
  have run := run_iff_runEvents.mpr ran
  obtain ⟨others, inStep⟩ := inStep_of_goesWell rfl leavesOthers_busy run
  exact ⟨_, w, run, others, inStep, of_decide_eq_true settled⟩

end Nightly

end Syncle.Schedules
