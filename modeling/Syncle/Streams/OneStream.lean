import Syncle.Streams.Registry

/-!
# One stream, and none after a stop

That a bridge is not streaming is asked before its key is read (`resolvePrimaryKey`), and its stream is
registered after. Between the two another start can register its own, and a stop can find nothing to
stop. The lemmas say what a step can do to the map, to the streams and to what the stops know; the
invariant follows from them.
-/

namespace Syncle.Streams

open Lib

/-!
## What the registry keeps to

What there is to be at most one of, and the gaps in which another request can come in between.
-/

namespace Registry

variable (s : Registry)

def Open (i : Nat) : Prop := s.providers i = .opened

/-- A teardown has taken the entry, and will stop its stream. -/
def TakenDown (i : Nat) : Prop :=
  ∃ t task, s.tasks t = some task ∧ (task.at_ = .settling i ∨ task.at_ = .draining i)

/-- No two streams are open; one that is open is registered or being taken down; and none is open once
a stop has returned, until a start is requested. -/
structure OneStream : Prop where
  one : ∀ i j, s.Open i → s.Open j → i = j
  accounted : ∀ i, s.Open i → s.registered = some i ∨ s.TakenDown i
  none : s.returned = true → ∀ i, ¬ s.Open i

/-!
## The invariant

What a request knows at the point it has come to, as long as nobody has disturbed it there.
-/

/-- What is known to a stop that no start has followed. -/
def Knows : Await → Prop
  | .settling i => (∀ j, s.registered = some j → j = i) ∧ ∀ j, s.Open j → j = i
  | .draining i => s.registered = none ∧ ∀ j, s.Open j → j = i
  | .closing | .reading | .pausing => s.registered = none ∧ ∀ j, ¬ s.Open j
  | _ => False

structure Inv : Prop where
  one : ∀ i j, s.Open i → s.Open j → i = j
  /-- while a stream is registered, no other is open -/
  registered : ∀ i, s.registered = some i → ∀ j, s.Open j → j = i
  accounted : ∀ i, s.Open i → s.registered = some i ∨ s.TakenDown i
  made : ∀ i, s.next ≤ i → s.providers i = .pending
  /-- an entry is opened by one task, and not open before -/
  opening : ∀ t task i, s.tasks t = some task → task.at_ = .opening i →
    i < s.next ∧ s.providers i = .pending
  alone : ∀ t task t' task' i, s.tasks t = some task → s.tasks t' = some task' →
    task.at_ = .opening i → task'.at_ = .opening i → t = t'
  stops : ∀ t task, s.tasks t = some task → task.role = .stop → task.fresh = true →
    s.asked = true ∧ s.Knows task.at_
  returned : s.returned = true → s.asked = true ∧ s.registered = none ∧ ∀ j, ¬ s.Open j

theorem Inv.oneStream {s : Registry} (inv : s.Inv) : s.OneStream :=
  ⟨inv.one, inv.accounted, fun is => (inv.returned is).2.2⟩

end Registry

/-- A step that does not run into another: a stream is registered when none is open and nobody has
asked for a stop since the last start; a teardown finds the entry it took, or one that is not open, or
that another teardown has taken too; and a stop finds what is open in the map. -/
def undisturbed (s : Registry) : RegistryEvent → Prop
  | .request _ .stop => ∀ i, s.Open i → s.registered = some i
  | .go t _ => ∀ task, s.tasks t = some task →
    match task.at_ with
    | .keying => (∀ i, ¬ s.Open i) ∧ s.asked = false
    | .settling i => ∀ j, s.registered = some j → j ≠ i → s.Open j →
        ∃ t' task', t' ≠ t ∧ s.tasks t' = some task' ∧ task'.at_ = .settling j
    | _ => True
  | _ => True

/-!
## Steps that leave the streams alone

Most of a request's steps: they wait, read or store, and open and close nothing.
-/

/-- An await at which no entry is held. -/
def Await.free : Await → Prop
  | .opening _ | .settling _ | .draining _ => False
  | _ => True

/-- Only the task goes on, to an await at which it holds no entry. A stop goes on to one of its own. -/
structure Quiet (s s' : Registry) (t : Nat) (task : Task) : Prop where
  registered : s'.registered = s.registered
  providers : s'.providers = s.providers
  next : s'.next = s.next
  asked : s'.asked = s.asked
  returned : s'.returned = true → s.returned = true ∨ (task.role = .stop ∧ task.fresh = true)
  tasks : ∃ new, s'.tasks = Function.update s.tasks t new ∧
    ∀ task', new = some task' → task'.role = task.role ∧ task'.fresh = task.fresh ∧
      task'.at_.free ∧ (task.role = .stop → task.fresh = true →
        task'.at_ = .reading ∨ task'.at_ = .pausing)

/-- The job's row and the `opening` set are nothing to the streams. -/
theorem Quiet.same {s s₀ s' : Registry} {t : Nat} {task : Task} (quiet : Quiet s₀ s' t task)
    (registered : s₀.registered = s.registered) (providers : s₀.providers = s.providers)
    (next : s₀.next = s.next) (asked : s₀.asked = s.asked) (returned : s₀.returned = s.returned)
    (tasks : s₀.tasks = s.tasks) : Quiet s s' t task := by
  obtain ⟨h₁, h₂, h₃, h₄, h₅, h₆⟩ := quiet
  rw [registered] at h₁
  rw [providers] at h₂
  rw [next] at h₃
  rw [asked] at h₄
  rw [returned] at h₅
  rw [tasks] at h₆
  exact ⟨h₁, h₂, h₃, h₄, h₅, h₆⟩

/-- A stop that no start has followed. -/
def Task.Stops (task : Task) : Prop := task.role = .stop ∧ task.fresh = true

namespace Registry

variable {s s' : Registry} {t : Nat} {task : Task}

theorem quiet_end : Quiet s (s.put t none) t task :=
  ⟨rfl, rfl, rfl, rfl, Or.inl, none, rfl, fun _ is => nomatch is⟩

theorem quiet_goOn (plain : ¬ task.Stops) {at_ : Await} (free : at_.free) :
    Quiet s (s.put t (some { task with at_ := at_ })) t task := by
  refine ⟨rfl, rfl, rfl, rfl, Or.inl, _, rfl, fun task' is => ?_⟩
  obtain rfl := Option.some.inj is
  exact ⟨rfl, rfl, free, fun role fresh => absurd ⟨role, fresh⟩ plain⟩

theorem quiet_stop {at_ : Await} (own : at_ = .reading ∨ at_ = .pausing) :
    Quiet s (s.put t (some { task with at_ := at_ })) t task := by
  refine ⟨rfl, rfl, rfl, rfl, Or.inl, _, rfl, fun task' is => ?_⟩
  obtain rfl := Option.some.inj is
  refine ⟨rfl, rfl, ?_, fun _ _ => own⟩
  rcases own with rfl | rfl <;> trivial

theorem quiet_leaveOpening (thrown : Bool) : Quiet s (s.leaveOpening t task thrown) t task := by
  have out {new : Option Task} (quiet : Quiet { s with opening := false }
      (Registry.put { s with opening := false } t new) t task) :
      Quiet s (Registry.put { s with opening := false } t new) t task :=
    quiet.same rfl rfl rfl rfl rfl rfl
  unfold leaveOpening
  split
  · exact quiet_end
  · next role =>
    have plain : ¬ task.Stops := fun stops => nomatch role.symm.trans stops.1
    split
    · exact out (quiet_goOn plain trivial)
    · split
      · exact out quiet_end
      · exact out (quiet_goOn plain trivial)
  · exact out quiet_end

theorem quiet_resumeJob (plain : ¬ task.Stops) : Quiet s (s.resumeJob t task) t task := by
  unfold resumeJob
  split
  · split
    · split
      · exact quiet_end
      · exact quiet_goOn plain trivial
    · exact quiet_end
  · split
    · exact quiet_leaveOpening false
    · exact Quiet.same (quiet_goOn plain trivial) rfl rfl rfl rfl rfl rfl

theorem quiet_beginStream (plain : ¬ task.Stops) : Quiet s (s.beginStream t task) t task := by
  unfold beginStream
  split
  · exact quiet_leaveOpening true
  · exact quiet_goOn plain trivial

theorem quiet_returns : Quiet s (s.returns t task) t task := by
  refine ⟨rfl, rfl, rfl, rfl, fun is => ?_, none, rfl, fun _ is => nomatch is⟩
  simpa [returns, put] using is

theorem quiet_read (answer : Answer) : Quiet s (s.read t task answer) t task := by
  have plain {role : Role} (is : task.role = role) (other : role ≠ .stop) : ¬ task.Stops :=
    fun stops => other (is.symm.trans stops.1)
  unfold read
  dsimp only
  split
  · next role =>
    split
    · exact quiet_goOn (plain role nofun) trivial
    · exact quiet_end
  · next role =>
    split
    · exact quiet_goOn (plain role nofun) trivial
    · exact quiet_end
  · next role =>
    split
    · exact quiet_resumeJob (plain role nofun)
    · exact quiet_end
  · next role =>
    split
    · exact quiet_goOn (plain role nofun) trivial
    · split
      · exact quiet_resumeJob (plain role nofun)
      · exact quiet_end
  · next role =>
    split
    · exact quiet_stop (Or.inr rfl)
    · exact quiet_returns
  · exact quiet_end

theorem quiet_prepare (plain : ¬ task.Stops) (answer : Answer) :
    Quiet s (s.prepare t task answer) t task := by
  unfold prepare
  split
  · exact Quiet.same (quiet_goOn plain trivial) rfl rfl rfl rfl rfl rfl
  · exact quiet_end
  · exact quiet_beginStream plain
  · exact Quiet.same (quiet_leaveOpening false) rfl rfl rfl rfl rfl rfl
  · exact quiet_leaveOpening false
  · exact quiet_leaveOpening true

theorem quiet_afterTeardown : Quiet s (s.afterTeardown t task) t task := by
  unfold afterTeardown
  split
  · exact quiet_stop (Or.inl rfl)
  · next role =>
    split
    · exact quiet_stop (Or.inl rfl)
    · exact quiet_end
  · exact quiet_end

/-! ## The invariant is kept by the steps that leave the streams alone -/

/-- Of a task after a step: it is the one that took the step, or it is where it was. -/
theorem put_task {new : Option Task} (tasks : s'.tasks = Function.update s.tasks t new) {u : Nat}
    {task' : Task} (is : s'.tasks u = some task') :
    (u = t ∧ new = some task') ∨ (u ≠ t ∧ s.tasks u = some task') := by
  rw [tasks, Function.update_apply] at is
  split at is
  · next same => exact Or.inl ⟨same, is⟩
  · next other => exact Or.inr ⟨other, is⟩

theorem put_other {new : Option Task} (tasks : s'.tasks = Function.update s.tasks t new) {u : Nat}
    (other : u ≠ t) : s'.tasks u = s.tasks u := by
  rw [tasks, Function.update_of_ne other]

/-- No stream is registered, and none is open. -/
def Silent (s : Registry) : Prop := s.registered = none ∧ ∀ j, ¬ s.Open j

theorem Inv.silent (inv : s.Inv) (at_ : s.tasks t = some task) (free : task.at_.free)
    (stops : task.Stops) : s.Silent := by
  have knows := (inv.stops t task at_ stops.1 stops.2).2
  unfold Knows at knows
  split at knows
  · next is => exact absurd free (is ▸ id)
  · next is => exact absurd free (is ▸ id)
  · exact knows
  · exact knows
  · exact knows
  · exact knows.elim

/-- What a stop knows is about the map and the streams. It may be about fewer of them. -/
theorem Knows.weaken {await : Await} (knows : s.Knows await)
    (registered : ∀ i, s'.registered = some i → s.registered = some i)
    (provider : ∀ i, s'.Open i → s.Open i) : s'.Knows await := by
  have unregistered (absent : s.registered = none) : s'.registered = none := by
    cases is : s'.registered with
    | none => rfl
    | some i => exact nomatch (registered i is).symm.trans absent
  unfold Knows at knows ⊢
  split at knows
  · exact ⟨fun j is => knows.1 j (registered j is), fun j is => knows.2 j (provider j is)⟩
  · exact ⟨unregistered knows.1, fun j is => knows.2 j (provider j is)⟩
  · exact ⟨unregistered knows.1, fun j is => knows.2 j (provider j is)⟩
  · exact ⟨unregistered knows.1, fun j is => knows.2 j (provider j is)⟩
  · exact ⟨unregistered knows.1, fun j is => knows.2 j (provider j is)⟩
  · exact knows.elim

theorem Inv.quiet (inv : s.Inv) (quiet : Quiet s s' t task) (at_ : s.tasks t = some task)
    (free : task.at_.free) : s'.Inv := by
  obtain ⟨new, tasks, goes⟩ := quiet.tasks
  have isOpen (i : Nat) : s'.Open i ↔ s.Open i := by rw [Open, Open, quiet.providers]
  -- where an entry is held, nothing has changed
  have holding {u : Nat} {task' : Task} (is : s'.tasks u = some task') (held : ¬ task'.at_.free) :
      s.tasks u = some task' := by
    rcases put_task tasks is with ⟨_, is⟩ | ⟨_, is⟩
    · exact absurd (goes task' is).2.2.1 held
    · exact is
  constructor
  · intro i j hi hj
    exact inv.one i j ((isOpen i).mp hi) ((isOpen j).mp hj)
  · intro i is j hj
    exact inv.registered i (quiet.registered ▸ is) j ((isOpen j).mp hj)
  · intro i hi
    rcases inv.accounted i ((isOpen i).mp hi) with is | ⟨u, task', is, held⟩
    · exact Or.inl (quiet.registered.trans is)
    · have other : u ≠ t := by
        rintro rfl
        obtain rfl := Option.some.inj (at_.symm.trans is)
        rcases held with held | held <;> exact absurd free (held ▸ id)
      exact Or.inr ⟨u, task', (put_other tasks other).trans is, held⟩
  · intro i is
    rw [quiet.providers]
    exact inv.made i (quiet.next ▸ is)
  · intro u task' i is held
    rw [quiet.next, quiet.providers]
    exact inv.opening u task' i (holding is (held ▸ id)) held
  · intro u task₁ v task₂ i is is' held held'
    exact inv.alone u task₁ v task₂ i (holding is (held ▸ id)) (holding is' (held' ▸ id)) held held'
  · intro u task' is role fresh
    rw [quiet.asked]
    rcases put_task tasks is with ⟨_, is⟩ | ⟨_, is⟩
    · obtain ⟨sameRole, sameFresh, _, own⟩ := goes task' is
      have stops : task.Stops := ⟨sameRole ▸ role, sameFresh ▸ fresh⟩
      have silent := inv.silent at_ free stops
      refine ⟨(inv.stops t task at_ stops.1 stops.2).1, ?_⟩
      have none : s'.registered = none ∧ ∀ j, ¬ s'.Open j :=
        ⟨quiet.registered.trans silent.1, fun j hj => silent.2 j ((isOpen j).mp hj)⟩
      rcases own stops.1 stops.2 with here | here <;> rw [here] <;> exact none
    · have before := inv.stops u task' is role fresh
      exact ⟨before.1, Knows.weaken before.2 (fun i => quiet.registered ▸ id)
        fun i => (isOpen i).mp⟩
  · intro is
    have silent : s.asked = true ∧ s.Silent := by
      rcases quiet.returned is with before | stops
      · exact inv.returned before
      · exact ⟨(inv.stops t task at_ stops.1 stops.2).1, inv.silent at_ free stops⟩
    exact ⟨quiet.asked.trans silent.1, quiet.registered.trans silent.2.1,
      fun j hj => silent.2.2 j ((isOpen j).mp hj)⟩

/-!
## And by those that register, open and close

The steps that the two guards are for: what they find registered decides what they open.
-/

/-- No stop that no start has followed is at an await where nothing is known to it. -/
theorem Inv.plain (inv : s.Inv) (at_ : s.tasks t = some task) (ignorant : ¬ s.Knows task.at_) :
    ¬ task.Stops :=
  fun stops => ignorant (inv.stops t task at_ stops.1 stops.2).2

/-- A stream is registered when none is open and no stop has been asked for. -/
theorem Inv.register (inv : s.Inv) (at_ : s.tasks t = some task)
    (none : ∀ i, ¬ s.Open i) (unasked : s.asked = false) : (s.register t task).Inv := by
  have tasks : (s.register t task).tasks = Function.update s.tasks t
    (some { task with at_ := .opening s.next }) := rfl
  constructor
  · intro i j hi
    exact absurd hi (none i)
  · intro i _ j hj
    exact absurd hj (none j)
  · intro i hi
    exact absurd hi (none i)
  · intro i above
    exact inv.made i (Nat.le_of_succ_le above)
  · intro u task' i is held
    rcases put_task tasks is with ⟨_, is⟩ | ⟨_, is⟩
    · obtain rfl := Option.some.inj is
      obtain rfl := Await.opening.inj held
      exact ⟨Nat.lt_succ_self _, inv.made _ (Nat.le_refl _)⟩
    · have before := inv.opening u task' i is held
      exact ⟨Nat.lt_succ_of_lt before.1, before.2⟩
  · intro u task₁ v task₂ i is is' held held'
    -- an entry that is being opened was made before this one
    have older {w : Nat} {task' : Task} (is : s.tasks w = some task')
        (held : task'.at_ = .opening s.next) : False :=
      Nat.lt_irrefl _ (inv.opening w task' _ is held).1
    rcases put_task tasks is with ⟨mine, new⟩ | ⟨_, old⟩ <;>
      rcases put_task tasks is' with ⟨mine', new'⟩ | ⟨_, old'⟩
    · exact mine.trans mine'.symm
    · obtain rfl := Option.some.inj new
      obtain rfl := Await.opening.inj held
      exact (older old' held').elim
    · obtain rfl := Option.some.inj new'
      obtain rfl := Await.opening.inj held'
      exact (older old held).elim
    · exact inv.alone u task₁ v task₂ i old old' held held'
  · intro u task' is role fresh
    have stops : s.asked = true := by
      rcases put_task tasks is with ⟨_, is⟩ | ⟨_, is⟩
      · obtain rfl := Option.some.inj is
        exact (inv.stops t task at_ role fresh).1
      · exact (inv.stops u task' is role fresh).1
    exact nomatch unasked.symm.trans stops
  · intro is
    exact nomatch unasked.symm.trans (inv.returned is).1

/-- `startStream` has handed its stream over: it is the one of the map, or it is stopped at once. -/
theorem Inv.started (inv : s.Inv) (i : Nat) (at_ : s.tasks t = some task)
    (here : task.at_ = .opening i) : (s.started t task i).Inv := by
  have plain : ¬ task.Stops := inv.plain at_ (by rw [here]; exact id)
  let provider := if s.registered = some i then Provider.opened else .stopped
  have quiet : Quiet { s with providers := Function.update s.providers i provider }
      (s.started t task i) t task := quiet_leaveOpening false
  obtain ⟨registered, providers, next, asked, returned, new, tasks, goes⟩ := quiet
  dsimp only at registered providers next asked returned tasks
  have handed (is : provider = .opened) : s.registered = some i := by
    by_contra none
    simp [provider, none] at is
  have isOpen {j : Nat} (open_ : (s.started t task i).Open j) :
      (j = i ∧ s.registered = some i) ∨ (j ≠ i ∧ s.Open j) := by
    rw [Open, providers, Function.update_apply] at open_
    split at open_
    · next same => exact Or.inl ⟨same, handed open_⟩
    · next other => exact Or.inr ⟨other, open_⟩
  -- the map's stream is the only one that can have been open
  have only {j k : Nat} (is : s.registered = some k) (open_ : (s.started t task i).Open j) : j = k := by
    rcases isOpen open_ with ⟨rfl, is'⟩ | ⟨_, open_⟩
    · exact Option.some.inj (is'.symm.trans is)
    · exact inv.registered k is j open_
  have opening {u : Nat} {task' : Task} {j : Nat} (is : (s.started t task i).tasks u = some task')
      (held : task'.at_ = .opening j) : s.tasks u = some task' ∧ j ≠ i := by
    rcases put_task tasks is with ⟨_, is⟩ | ⟨other, is⟩
    · exact absurd (goes task' is).2.2.1 (held ▸ id)
    · exact ⟨is, fun same => other (inv.alone u task' t task j is at_ held (same ▸ here))⟩
  constructor
  · intro j k hj hk
    rcases isOpen hj with ⟨rfl, is⟩ | ⟨_, hj'⟩
    · exact (only is hk).symm
    · rcases isOpen hk with ⟨rfl, is⟩ | ⟨_, hk'⟩
      · exact only is hj
      · exact inv.one j k hj' hk'
  · intro k is j hj
    exact only (registered ▸ is) hj
  · intro j hj
    rcases isOpen hj with ⟨rfl, is⟩ | ⟨_, hj'⟩
    · exact Or.inl (registered.trans is)
    · rcases inv.accounted j hj' with is | ⟨u, task', is, held⟩
      · exact Or.inl (registered.trans is)
      · have other : u ≠ t := by
          rintro rfl
          obtain rfl := Option.some.inj (at_.symm.trans is)
          rcases held with held | held <;> exact nomatch here.symm.trans held
        exact Or.inr ⟨u, task', (put_other tasks other).trans is, held⟩
  · intro j above
    have made := (inv.opening t task i at_ here).1
    rw [providers, Function.update_of_ne (by omega)]
    exact inv.made j (next ▸ above)
  · intro u task' j is held
    obtain ⟨is, other⟩ := opening is held
    rw [providers, next, Function.update_of_ne other]
    exact inv.opening u task' j is held
  · intro u task₁ v task₂ j is is' held held'
    exact inv.alone u task₁ v task₂ j (opening is held).1 (opening is' held').1 held held'
  · intro u task' is role fresh
    rcases put_task tasks is with ⟨_, is⟩ | ⟨_, is⟩
    · obtain ⟨sameRole, sameFresh, _⟩ := goes task' is
      exact absurd ⟨sameRole ▸ role, sameFresh ▸ fresh⟩ plain
    · have before := inv.stops u task' is role fresh
      refine ⟨asked.trans before.1, ?_⟩
      by_cases mine : s.registered = some i
      · -- only a stop that has taken this entry, and has not let go of it yet, can be there
        have knows := before.2
        unfold Knows at knows ⊢
        split at knows
        · obtain rfl := knows.1 i mine
          exact ⟨fun j is => (Option.some.inj (mine.symm.trans (registered ▸ is))).symm,
            fun j hj => only mine hj⟩
        · exact nomatch mine.symm.trans knows.1
        · exact nomatch mine.symm.trans knows.1
        · exact nomatch mine.symm.trans knows.1
        · exact nomatch mine.symm.trans knows.1
        · exact knows.elim
      · refine Knows.weaken before.2 (fun j => registered ▸ id) fun j hj => ?_
        rcases isOpen hj with ⟨_, is⟩ | ⟨_, hj⟩
        · exact absurd is mine
        · exact hj
  · intro is
    have before := inv.returned ((returned is).resolve_right plain)
    refine ⟨asked.trans before.1, registered.trans before.2.1, fun j hj => ?_⟩
    rcases isOpen hj with ⟨_, is⟩ | ⟨_, hj⟩
    · exact nomatch is.symm.trans before.2.1
    · exact before.2.2 j hj

theorem Inv.startFailed (inv : s.Inv) (i : Nat) (at_ : s.tasks t = some task)
    (here : task.at_ = .opening i) : (s.startFailed t task i).Inv := by
  have plain : ¬ task.Stops := inv.plain at_ (by rw [here]; exact id)
  have tasks : (s.startFailed t task i).tasks = Function.update s.tasks t
    (some { task with at_ := .failing }) := rfl
  have shut : ¬ s.Open i := by
    rw [Open, (inv.opening t task i at_ here).2]
    nofun
  have registered {j : Nat} (is : (s.startFailed t task i).registered = some j) :
      s.registered = some j := by
    change (if s.registered = some i then none else s.registered) = some j at is
    split at is
    · cases is
    · exact is
  have opening {u : Nat} {task' : Task} {j : Nat} (is : (s.startFailed t task i).tasks u = some task')
      (held : task'.at_ = .opening j) : s.tasks u = some task' := by
    rcases put_task tasks is with ⟨_, is⟩ | ⟨_, is⟩
    · obtain rfl := Option.some.inj is
      cases held
    · exact is
  constructor
  · exact inv.one
  · exact fun j is => inv.registered j (registered is)
  · intro j hj
    rcases inv.accounted j hj with is | ⟨u, task', is, held⟩
    · refine Or.inl ?_
      have other : s.registered ≠ some i := fun is' =>
        shut (Option.some.inj (is.symm.trans is') ▸ hj)
      exact (if_neg other).trans is
    · have other : u ≠ t := by
        rintro rfl
        obtain rfl := Option.some.inj (at_.symm.trans is)
        rcases held with held | held <;> exact nomatch here.symm.trans held
      exact Or.inr ⟨u, task', (put_other tasks other).trans is, held⟩
  · exact inv.made
  · exact fun u task' j is held => inv.opening u task' j (opening is held) held
  · exact fun u task₁ v task₂ j is is' held held' =>
      inv.alone u task₁ v task₂ j (opening is held) (opening is' held') held held'
  · intro u task' is role fresh
    rcases put_task tasks is with ⟨_, is⟩ | ⟨_, is⟩
    · obtain rfl := Option.some.inj is
      exact absurd ⟨role, fresh⟩ plain
    · have before := inv.stops u task' is role fresh
      exact ⟨before.1, Knows.weaken before.2 (fun j => registered) fun j => id⟩
  · intro is
    have before := inv.returned is
    exact ⟨before.1, if_neg (by rw [before.2.1]; nofun) |>.trans before.2.1, before.2.2⟩

/-- The map's entry is taken out by a teardown that took another, or this one: no open stream is lost
when that is the one it took, or one another teardown has. -/
theorem Inv.delete (inv : s.Inv) (i : Nat) (at_ : s.tasks t = some task)
    (here : task.at_ = .settling i)
    (kept : ∀ j, s.registered = some j → j ≠ i → s.Open j →
      ∃ t' task', t' ≠ t ∧ s.tasks t' = some task' ∧ task'.at_ = .settling j) :
    (s.delete t task i).Inv := by
  have tasks : (s.delete t task i).tasks = Function.update s.tasks t
    (some { task with at_ := .draining i }) := rfl
  have mine : (s.delete t task i).TakenDown i :=
    ⟨t, { task with at_ := .draining i }, by rw [tasks, Function.update_self], Or.inr rfl⟩
  have opening {u : Nat} {task' : Task} {j : Nat} (is : (s.delete t task i).tasks u = some task')
      (held : task'.at_ = .opening j) : s.tasks u = some task' := by
    rcases put_task tasks is with ⟨_, is⟩ | ⟨_, is⟩
    · obtain rfl := Option.some.inj is
      cases held
    · exact is
  constructor
  · exact inv.one
  · nofun
  · intro j hj
    refine Or.inr ?_
    by_cases same : j = i
    · exact same ▸ mine
    · rcases inv.accounted j hj with is | ⟨u, task', is, held⟩
      · obtain ⟨u, task', other, is, held⟩ := kept j is same hj
        exact ⟨u, task', (put_other tasks other).trans is, Or.inl held⟩
      · have other : u ≠ t := by
          rintro rfl
          obtain rfl := Option.some.inj (at_.symm.trans is)
          rcases held with held | held
          · exact same (Await.settling.inj (held.symm.trans here))
          · exact nomatch here.symm.trans held
        exact ⟨u, task', (put_other tasks other).trans is, held⟩
  · exact inv.made
  · exact fun u task' j is held => inv.opening u task' j (opening is held) held
  · exact fun u task₁ v task₂ j is is' held held' =>
      inv.alone u task₁ v task₂ j (opening is held) (opening is' held') held held'
  · intro u task' is role fresh
    rcases put_task tasks is with ⟨_, is⟩ | ⟨_, is⟩
    · obtain rfl := Option.some.inj is
      have before := inv.stops t task at_ role fresh
      have knows := before.2
      rw [here] at knows
      exact ⟨before.1, rfl, knows.2⟩
    · have before := inv.stops u task' is role fresh
      exact ⟨before.1, Knows.weaken before.2 nofun fun j => id⟩
  · intro is
    have before := inv.returned is
    exact ⟨before.1, rfl, before.2.2⟩

theorem Inv.stopHandle (inv : s.Inv) (i : Nat) (at_ : s.tasks t = some task)
    (here : task.at_ = .draining i) : (s.stopHandle t task i).Inv := by
  have tasks : (s.stopHandle t task i).tasks = Function.update s.tasks t
    (some { task with at_ := .closing }) := rfl
  have isOpen {j : Nat} (open_ : (s.stopHandle t task i).Open j) : j ≠ i ∧ s.Open j := by
    simp only [Open, Registry.stopHandle, Registry.put, Function.update_apply] at open_
    split at open_
    · split at open_
      · cases open_
      · next shut => exact absurd open_ shut
    · next other => exact ⟨other, open_⟩
  have pending {j : Nat} (is : s.providers j = .pending) :
      (s.stopHandle t task i).providers j = .pending := by
    simp only [Registry.stopHandle, Registry.put, Function.update_apply]
    split
    · next same =>
      rw [← same, is]
      rfl
    · exact is
  have opening {u : Nat} {task' : Task} {j : Nat} (is : (s.stopHandle t task i).tasks u = some task')
      (held : task'.at_ = .opening j) : s.tasks u = some task' := by
    rcases put_task tasks is with ⟨_, is⟩ | ⟨_, is⟩
    · obtain rfl := Option.some.inj is
      cases held
    · exact is
  constructor
  · exact fun j k hj hk => inv.one j k (isOpen hj).2 (isOpen hk).2
  · exact fun j is k hk => inv.registered j is k (isOpen hk).2
  · intro j hj
    obtain ⟨another, hj⟩ := isOpen hj
    rcases inv.accounted j hj with is | ⟨u, task', is, held⟩
    · exact Or.inl is
    · have other : u ≠ t := by
        rintro rfl
        obtain rfl := Option.some.inj (at_.symm.trans is)
        rcases held with held | held
        · exact nomatch here.symm.trans held
        · exact another (Await.draining.inj (held.symm.trans here))
      exact Or.inr ⟨u, task', (put_other tasks other).trans is, held⟩
  · exact fun j above => pending (inv.made j above)
  · intro u task' j is held
    have before := inv.opening u task' j (opening is held) held
    exact ⟨before.1, pending before.2⟩
  · exact fun u task₁ v task₂ j is is' held held' =>
      inv.alone u task₁ v task₂ j (opening is held) (opening is' held') held held'
  · intro u task' is role fresh
    rcases put_task tasks is with ⟨_, is⟩ | ⟨_, is⟩
    · obtain rfl := Option.some.inj is
      have before := inv.stops t task at_ role fresh
      have knows := before.2
      rw [here] at knows
      refine ⟨before.1, knows.1, fun j hj => ?_⟩
      exact (isOpen hj).1 (knows.2 j (isOpen hj).2)
    · have before := inv.stops u task' is role fresh
      exact ⟨before.1, Knows.weaken before.2 (fun j => id) fun j hj => (isOpen hj).2⟩
  · intro is
    have before := inv.returned is
    exact ⟨before.1, before.2.1, fun j hj => before.2.2 j (isOpen hj).2⟩

/-!
## Requests

Each kind of request, put together from its steps.
-/

/-- A new task, which holds at most the entry that is registered, and has not opened any. -/
theorem Inv.begin (inv : s.Inv) (free : s.tasks t = none) (unopened : ∀ i, task.at_ ≠ .opening i)
    (asked : Bool) (still : s.asked = true → asked = true)
    (stops : task.Stops → asked = true ∧ s.Knows task.at_) :
    ({ s with asked := asked }.put t (some task)).Inv := by
  have tasks : ({ s with asked := asked }.put t (some task)).tasks =
    Function.update s.tasks t (some task) := rfl
  have opening {u : Nat} {task' : Task} {j : Nat}
      (is : ({ s with asked := asked }.put t (some task)).tasks u = some task')
      (held : task'.at_ = .opening j) : s.tasks u = some task' := by
    rcases put_task tasks is with ⟨_, is⟩ | ⟨_, is⟩
    · obtain rfl := Option.some.inj is
      exact absurd held (unopened j)
    · exact is
  constructor
  · exact inv.one
  · exact inv.registered
  · intro j hj
    rcases inv.accounted j hj with is | ⟨u, task', is, held⟩
    · exact Or.inl is
    · have other : u ≠ t := by
        rintro rfl
        exact nomatch free.symm.trans is
      exact Or.inr ⟨u, task', (put_other tasks other).trans is, held⟩
  · exact inv.made
  · exact fun u task' j is held => inv.opening u task' j (opening is held) held
  · exact fun u task₁ v task₂ j is is' held held' =>
      inv.alone u task₁ v task₂ j (opening is held) (opening is' held') held held'
  · intro u task' is role fresh
    rcases put_task tasks is with ⟨_, is⟩ | ⟨_, is⟩
    · obtain rfl := Option.some.inj is
      have knows := stops ⟨role, fresh⟩
      exact ⟨knows.1, Knows.weaken knows.2 (fun j => id) fun j => id⟩
    · have before := inv.stops u task' is role fresh
      exact ⟨still before.1, Knows.weaken before.2 (fun j => id) fun j => id⟩
  · intro is
    have before := inv.returned is
    exact ⟨still before.1, before.2⟩

/-- A start: every stop so far is before it. -/
theorem Inv.start (inv : s.Inv) (free : s.tasks t = none) (request : s.request t .start = some s') :
    s'.Inv := by
  obtain rfl := Option.some.inj request
  have before {u : Nat} {task' : Task}
      (is : Function.update (fun t => (s.tasks t).map fun task => { task with fresh := false }) t
        (some { role := .start, at_ := .reading }) u = some task') :
      (task'.role = .start ∧ task'.at_ = .reading) ∨
      (task'.fresh = false ∧ ∃ old, s.tasks u = some old ∧ old.at_ = task'.at_) := by
    rw [Function.update_apply] at is
    split at is
    · obtain rfl := Option.some.inj is
      exact Or.inl ⟨rfl, rfl⟩
    · obtain ⟨old, was, rfl⟩ := Option.map_eq_some_iff.mp is
      exact Or.inr ⟨rfl, old, was, rfl⟩
  constructor
  · exact inv.one
  · exact inv.registered
  · intro j hj
    rcases inv.accounted j hj with is | ⟨u, task', is, held⟩
    · exact Or.inl is
    · have other : u ≠ t := by
        rintro rfl
        exact nomatch free.symm.trans is
      refine Or.inr ⟨u, { task' with fresh := false }, ?_, held⟩
      simp only [Function.update_of_ne other, is, Option.map_some]
  · exact inv.made
  · intro u task' j is held
    rcases before is with ⟨_, here⟩ | ⟨_, old, is, same⟩
    · exact nomatch here.symm.trans held
    · exact inv.opening u old j is (same.trans held)
  · intro u task₁ v task₂ j is is' held held'
    rcases before is with ⟨_, here⟩ | ⟨_, old, is, same⟩
    · exact nomatch here.symm.trans held
    · rcases before is' with ⟨_, here⟩ | ⟨_, old', is', same'⟩
      · exact nomatch here.symm.trans held'
      · exact inv.alone u old v old' j is is' (same.trans held) (same'.trans held')
  · intro u task' is role fresh
    rcases before is with ⟨here, _⟩ | ⟨here, _⟩
    · exact nomatch here.symm.trans role
    · exact nomatch here.symm.trans fresh
  · nofun

theorem Inv.request (inv : s.Inv) (free : s.tasks t = none) (role : Role)
    (found : role = .stop → ∀ i, s.Open i → s.registered = some i)
    (request : s.request t role = some s') : s'.Inv := by
  -- the entry that is registered, or none, is what a teardown holds
  have teardown (asked : Bool) (still : s.asked = true → asked = true)
      (stop : role = .stop → asked = true) :
      ({ s with asked := asked }.teardown t { role := role, at_ := .reading } .reading).Inv := by
    unfold Registry.teardown
    split
    · next i is =>
      change s.registered = some i at is
      refine inv.begin free ?_ asked still fun stops => ⟨stop stops.1, ?_, inv.registered i is⟩
      · nofun
      · exact fun j is' => Option.some.inj (is'.symm.trans is)
    · next other =>
      have unregistered : s.registered = none := Option.eq_none_iff_forall_ne_some.mpr other
      refine inv.begin free ?_ asked still fun stops => ⟨stop stops.1, unregistered, fun j hj => ?_⟩
      · nofun
      · exact other j (found stops.1 j hj)
  have plain (other : role ≠ .stop) :
      (s.put t (some { role := role, at_ := .reading })).Inv := by
    refine inv.begin free ?_ s.asked id fun stops => absurd stops.1 other
    nofun
  cases role with
  | start => exact inv.start free request
  | pass =>
    simp only [Registry.request] at request
    split at request
    · exact Option.some.inj request ▸ plain nofun
    · cases request
  | another =>
    simp only [Registry.request] at request
    split at request
    · cases request
    · exact Option.some.inj request ▸ plain nofun
  | reroute =>
    simp only [Registry.request] at request
    split at request
    · exact Option.some.inj request ▸ teardown s.asked id nofun
    · cases request
  | stop => exact Option.some.inj request ▸ teardown true (fun _ => rfl) fun _ => rfl
  | standDown =>
    simp only [Registry.request] at request
    split at request
    · exact Option.some.inj request ▸ teardown s.asked id nofun
    · cases request

/-! ## Steps and runs -/

theorem Inv.go (inv : s.Inv) (answer : Answer) (at_ : s.tasks t = some task)
    (allowed : undisturbed s (.go t answer)) : (s.go t task answer).Inv := by
  have allowed := allowed task at_
  have plain := inv.plain at_
  unfold Registry.go
  split
  · next here => exact inv.quiet (quiet_read answer) at_ (by rw [here]; trivial)
  · next here =>
    split
    · exact inv.quiet quiet_end at_ (by rw [here]; trivial)
    · exact inv.quiet (quiet_resumeJob (plain (by rw [here]; exact id))) at_ (by rw [here]; trivial)
  · next here =>
    exact inv.quiet (quiet_prepare (plain (by rw [here]; exact id)) answer) at_ (by rw [here]; trivial)
  · next here =>
    exact inv.quiet (quiet_beginStream (plain (by rw [here]; exact id))) at_ (by rw [here]; trivial)
  · next here =>
    rw [here] at allowed
    exact inv.register at_ allowed.1 allowed.2
  · next i here =>
    split
    · exact inv.started i at_ here
    · exact inv.startFailed i at_ here
  · next here =>
    refine inv.quiet (Quiet.same (quiet_leaveOpening true) rfl rfl rfl rfl rfl rfl) at_ ?_
    rw [here]
    trivial
  · next here =>
    refine inv.quiet (Quiet.same (quiet_goOn (plain (by rw [here]; exact id)) trivial)
      rfl rfl rfl rfl rfl rfl) at_ ?_
    rw [here]
    trivial
  · next i here =>
    rw [here] at allowed
    exact inv.delete i at_ here allowed
  · next i here => exact inv.stopHandle i at_ here
  · next here => exact inv.quiet quiet_afterTeardown at_ (by rw [here]; trivial)
  · next here =>
    refine inv.quiet (Quiet.same quiet_returns rfl rfl rfl rfl rfl rfl) at_ ?_
    rw [here]
    trivial
  · next here =>
    have free : task.at_.free := by
      rw [here]
      trivial
    split
    · exact inv.quiet (quiet_goOn (plain (by rw [here]; exact id)) trivial) at_ free
    · exact inv.quiet quiet_end at_ free

theorem Inv.step (inv : s.Inv) {e : RegistryEvent} (allowed : undisturbed s e)
    (move : registryStep s e = some s') : s'.Inv := by
  cases e with
  | request t role =>
    simp only [registryStep] at move
    split at move
    · cases move
    · next free =>
      refine inv.request (Option.not_isSome_iff_eq_none.mp free) role ?_ move
      rintro rfl
      exact allowed
  | lead leads =>
    obtain rfl := Option.some.inj move
    exact ⟨inv.one, inv.registered, inv.accounted, inv.made, inv.opening, inv.alone,
      fun u task' is role fresh =>
        have before := inv.stops u task' is role fresh
        ⟨before.1, Knows.weaken before.2 (fun _ => id) fun _ => id⟩,
      inv.returned⟩
  | go t answer =>
    obtain ⟨task, at_, rfl⟩ := Option.map_eq_some_iff.mp move
    exact inv.go answer at_ allowed

theorem inv_init : ({} : Registry).Inv := by
  have shut (i : Nat) : ¬ ({} : Registry).Open i := fun is => nomatch is
  have idle (t : Nat) (task : Task) : ({} : Registry).tasks t ≠ some task := fun is => nomatch is
  exact ⟨fun i _ hi => absurd hi (shut i), fun _ _ j hj => absurd hj (shut j),
    fun i hi => absurd hi (shut i), fun _ _ => rfl, fun t task _ is => absurd is (idle t task),
    fun t task _ _ _ is => absurd is (idle t task), fun t task is => absurd is (idle t task),
    fun is => nomatch is⟩

end Registry

/-- Whatever interleaves, a run in which no step runs into another has one stream at most, loses
none, and leaves none to a stop that has returned. -/
theorem oneStream_of_undisturbed {es : List RegistryEvent} {s : Registry}
    (run : Run registryStep undisturbed {} es s) : s.OneStream :=
  Registry.Inv.oneStream <|
    run.invariant Registry.inv_init fun _ _ _ allowed inv move => inv.step allowed move

/-! ## A stop in the gap, and a second start -/

namespace BeforeRegistering

/-- A start, up to where it reads the key. -/
def starting : List RegistryEvent := [.request 0 .start, .go 0 .done, .go 0 .done, .go 0 .done]

/-- It is opened, and stopped. -/
def stopped : List RegistryEvent :=
  starting ++ [.go 0 .done, .go 0 .done, .request 1 .stop, .go 1 .done, .go 1 .done, .go 1 .done,
    .go 1 .done, .go 1 .done]

/-- The pass has read the row as soon as it said `running`, and comes to it while the start reads the
key: both find nothing registered. -/
def openedTwice : List RegistryEvent :=
  [.request 0 .start, .go 0 .done, .go 0 .done, .request 1 .pass, .go 1 .done, .go 1 .done, .go 1 .done,
    .go 0 .done, .go 0 .done, .go 0 .done, .go 1 .done, .go 1 .done]

/-- The stop finds nothing registered and pauses the job, and the stream is registered then. -/
def openedAfterStop : List RegistryEvent :=
  starting ++ [.request 1 .stop, .go 1 .done, .go 1 .done, .go 0 .done, .go 0 .done]

theorem allowed_go {s : Registry} {t : Nat} {answer : Answer} {task : Task}
    (at_ : s.tasks t = some task) (plain : task.at_ ≠ .keying) (holds : ∀ i, task.at_ ≠ .settling i) :
    undisturbed s (.go t answer) := by
  intro task' is
  obtain rfl := Option.some.inj (at_.symm.trans is)
  split
  · next here => exact absurd here plain
  · next i here => exact absurd here (holds i)
  · trivial

theorem oneStream_of_undisturbed_stopped :
    ∃ s, Run registryStep undisturbed {} stopped s ∧ s.returned = true ∧ s.providers 0 = .stopped ∧
      s.OneStream := by
  have run : ∃ s, Run registryStep undisturbed {} stopped s ∧ s.returned = true ∧
      s.providers 0 = .stopped := by
    refine ⟨_, .cons ?_ rfl (.cons ?_ rfl (.cons ?_ rfl (.cons ?_ rfl (.cons ?_ rfl (.cons ?_ rfl
      (.cons ?_ rfl (.cons ?_ rfl (.cons ?_ rfl (.cons ?_ rfl (.cons ?_ rfl (.cons ?_ rfl
      (.nil _)))))))))))), rfl, rfl⟩
    case refine_1 => trivial
    case refine_5 =>
      intro task is
      obtain rfl := Option.some.inj is
      exact ⟨fun i is => (nomatch is), rfl⟩
    case refine_7 =>
      intro i is
      rcases i with _ | i
      · rfl
      · cases is
    case refine_8 =>
      intro task is
      obtain rfl := Option.some.inj is
      intro j is other
      exact absurd (Option.some.inj is).symm other
    all_goals exact allowed_go rfl nofun nofun
  obtain ⟨s, run, returned, shut⟩ := run
  exact ⟨s, run, returned, shut, oneStream_of_undisturbed run⟩

/-- Two streams are open, the first of which nobody has any more; and one is open after its stop. -/
theorem opened_twice_and_after_stop :
    (¬ ∀ es s, Run registryStep anyStep {} es s → ∀ i j, s.Open i → s.Open j → i = j) ∧
    (¬ ∀ es s, Run registryStep anyStep {} es s →
      ∀ i, s.Open i → s.registered = some i ∨ s.TakenDown i) ∧
    ¬ ∀ es s, Run registryStep anyStep {} es s → s.returned = true → ∀ i, ¬ s.Open i := by
  refine ⟨fun all => ?_, fun all => ?_, fun all => ?_⟩
  · exact nomatch all openedTwice _ (run_of_eval rfl) 0 1 rfl rfl
  · rcases all openedTwice _ (run_of_eval rfl) 0 rfl with is | ⟨t, task, is, _⟩
    · cases is
    · rcases t with _ | _ | t <;> exact nomatch is
  · exact all openedAfterStop _ (run_of_eval rfl) rfl 0 rfl

end BeforeRegistering

end Syncle.Streams
