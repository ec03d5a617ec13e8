import Mathlib.Logic.Function.Basic
import Syncle.Lib.Run

/-!
# Tasks that interleave at their awaits

Requests are served by one process that runs a task up to its next await before it turns to
another. What they share is a state `σ`; what a task has read and where it stands is a `τ`. A step
begins a task, takes one from its await to the next, or is the world's.

The rule is that of rely and guarantee. `Knows s task` is what a task may go by while it waits: it
holds when the task begins, the task's own steps keep it, and no step of another breaks it.
-/

namespace Syncle.Lib

/-- How the tasks of a process go: what a request begins as, what a task does up to its next await
(`none` for the rest of it: it has ended), and what else may happen. -/
structure TaskSystem (σ τ ρ α ε : Type*) where
  init : ρ → τ
  resume : σ → τ → α → Option (σ × Option τ)
  world : σ → ε → Option σ

/-- What is shared, and the tasks under way. -/
structure Tasks (σ τ : Type*) where
  shared : σ
  running : ℕ → Option τ

inductive TaskEvent (ρ α ε : Type*) where
  | begin (t : ℕ) (request : ρ)
  /-- the task's await is over, with this answer -/
  | go (t : ℕ) (answer : α)
  | world (e : ε)
  deriving DecidableEq

variable {σ τ ρ α ε : Type*}

/-- Nothing is under way. -/
def Tasks.idle (s : σ) : Tasks σ τ := { shared := s, running := fun _ => none }

/-- A task comes to `next`. -/
def Tasks.put (w : Tasks σ τ) (t : ℕ) (s : σ) (next : Option τ) : Tasks σ τ :=
  { shared := s, running := Function.update w.running t next }

@[simp] theorem Tasks.put_shared (w : Tasks σ τ) (t : ℕ) (s : σ) (next : Option τ) :
    (w.put t s next).shared = s := rfl

theorem Tasks.put_running {w : Tasks σ τ} {t u : ℕ} {s : σ} {next : Option τ} {task : τ}
    (h : (w.put t s next).running u = some task) :
    u = t ∧ next = some task ∨ u ≠ t ∧ w.running u = some task := by
  by_cases same : u = t
  · subst same
    exact .inl ⟨rfl, by simpa [put] using h⟩
  · exact .inr ⟨same, by simpa [put, same] using h⟩

/-- A condition on what a task is about to do, read at the state it does it in. -/
def onGo (allowed : σ → τ → α → Prop) (w : Tasks σ τ) : TaskEvent ρ α ε → Prop
  | .go t answer => ∀ task ∈ w.running t, allowed w.shared task answer
  | _ => True

instance (allowed : σ → τ → α → Prop) [∀ s task answer, Decidable (allowed s task answer)]
    (w : Tasks σ τ) (e : TaskEvent ρ α ε) : Decidable (onGo allowed w e) :=
  match e with
  | .go t answer => inferInstanceAs (Decidable (∀ task ∈ w.running t, allowed w.shared task answer))
  | .begin _ _ => .isTrue trivial
  | .world _ => .isTrue trivial

/-- The names have been drawn, and no two tasks have one. -/
structure NamesApart (name : τ → Option ℕ) (drawn : σ → ℕ) (w : Tasks σ τ) : Prop where
  drawn : ∀ {t task k}, w.running t = some task → name task = some k → k < drawn w.shared
  apart : ∀ {t u task other k}, t ≠ u → w.running t = some task → w.running u = some other →
    name task = some k → name other = some k → False

theorem NamesApart.idle {name : τ → Option ℕ} {drawn : σ → ℕ} {s : σ} :
    NamesApart name drawn (Tasks.idle s) where
  drawn running := by simp [Tasks.idle] at running
  apart _ running := by simp [Tasks.idle] at running

/-- A task that has no name its own or has drawn a new one. -/
theorem NamesApart.put {name : τ → Option ℕ} {drawn : σ → ℕ} {w : Tasks σ τ} {t : ℕ} {s : σ}
    {next : Option τ} (h : NamesApart name drawn w) (mono : drawn w.shared ≤ drawn s)
    (names : ∀ n, next = some n → ∀ k, name n = some k →
      (∃ task, w.running t = some task ∧ name task = some k) ∨ drawn w.shared ≤ k ∧ k < drawn s) :
    NamesApart name drawn (w.put t s next) := by
  have other : ∀ {n u other k}, next = some n → u ≠ t → w.running u = some other →
      name n = some k → name other = some k → False := by
    intro n u other k comesTo ne running hn ho
    rcases names n comesTo k hn with ⟨task, was, hk⟩ | ⟨late, _⟩
    · exact h.apart ne running was ho hk
    · exact absurd (h.drawn running ho) (by omega)
  constructor
  · intro u task k running hk
    rcases Tasks.put_running running with ⟨_, comesTo⟩ | ⟨_, was⟩
    · rcases names task comesTo k hk with ⟨task', was, hk'⟩ | ⟨_, early⟩
      · exact Nat.lt_of_lt_of_le (h.drawn was hk') mono
      · exact early
    · exact Nat.lt_of_lt_of_le (h.drawn was hk) mono
  · intro u v task task' k ne running running' hk hk'
    rcases Tasks.put_running running with ⟨rfl, comesTo⟩ | ⟨nu, was⟩
    · rcases Tasks.put_running running' with ⟨rfl, _⟩ | ⟨nv, was'⟩
      · exact ne rfl
      · exact other comesTo nv was' hk hk'
    · rcases Tasks.put_running running' with ⟨rfl, comesTo'⟩ | ⟨_, was'⟩
      · exact other comesTo' nu was hk' hk
      · exact h.apart ne was was' hk hk'

namespace TaskSystem

variable (system : TaskSystem σ τ ρ α ε)

def step (w : Tasks σ τ) : TaskEvent ρ α ε → Option (Tasks σ τ)
  | .begin t request =>
    if (w.running t).isSome then none else some (w.put t w.shared (some (system.init request)))
  | .go t answer =>
    match w.running t with
    | none => none
    | some task =>
      (system.resume w.shared task answer).map fun (s, next) => w.put t s next
  | .world e => (system.world w.shared e).map fun s => { w with shared := s }

variable {system}

/-- What a step can be. -/
theorem step_cases {w w' : Tasks σ τ} {e : TaskEvent ρ α ε} (h : system.step w e = some w') :
    (∃ t request, e = .begin t request ∧ w.running t = none ∧
      w' = w.put t w.shared (some (system.init request))) ∨
    (∃ t answer task s next, e = .go t answer ∧ w.running t = some task ∧
      system.resume w.shared task answer = some (s, next) ∧ w' = w.put t s next) ∨
    ∃ e' s, e = .world e' ∧ system.world w.shared e' = some s ∧ w' = { w with shared := s } := by
  cases e with
  | begin t request =>
    simp only [step] at h
    split at h
    · cases h
    · next free =>
      exact .inl ⟨t, request, rfl, by simpa using free, (Option.some.inj h).symm⟩
  | go t answer =>
    simp only [step] at h
    split at h
    · cases h
    · next task running =>
      obtain ⟨⟨s, next⟩, resumed, rfl⟩ := Option.map_eq_some_iff.mp h
      exact .inr (.inl ⟨t, answer, task, s, next, rfl, running, resumed, rfl⟩)
  | world e' =>
    obtain ⟨s, moved, rfl⟩ := Option.map_eq_some_iff.mp h
    exact .inr (.inr ⟨e', s, rfl, moved, rfl⟩)

/-- What holds of the shared state, and what each task goes by. -/
structure Holds (Inv : σ → Prop) (Knows : σ → τ → Prop) (w : Tasks σ τ) : Prop where
  shared : Inv w.shared
  tasks : ∀ t task, w.running t = some task → Knows w.shared task

theorem Holds.idle {Inv : σ → Prop} {Knows : σ → τ → Prop} {s : σ} (h : Inv s) :
    Holds Inv Knows (Tasks.idle s) where
  shared := h
  tasks _ _ running := by simp [Tasks.idle] at running

/-- Rely and guarantee: what the steps that `ok` allows owe one another. -/
structure Keeps (system : TaskSystem σ τ ρ α ε) (ok : Tasks σ τ → TaskEvent ρ α ε → Prop)
    (Inv : σ → Prop) (Knows : σ → τ → Prop) : Prop where
  /-- a task begins with what it may go by -/
  begins : ∀ {w t request}, ok w (.begin t request) → Inv w.shared →
    Knows w.shared (system.init request)
  /-- its own step -/
  goes : ∀ {w t answer task s next}, ok w (.go t answer) → Holds Inv Knows w →
    w.running t = some task → system.resume w.shared task answer = some (s, next) →
    Inv s ∧ ∀ n, next = some n → Knows s n
  /-- the step of another -/
  stays : ∀ {w t answer task s next u other}, ok w (.go t answer) → Holds Inv Knows w →
    w.running t = some task → system.resume w.shared task answer = some (s, next) →
    u ≠ t → w.running u = some other → Knows s other
  /-- the world's -/
  world : ∀ {w e s}, ok w (.world e) → Holds Inv Knows w → system.world w.shared e = some s →
    Holds Inv Knows { w with shared := s }

variable {ok : Tasks σ τ → TaskEvent ρ α ε → Prop} {Inv : σ → Prop} {Knows : σ → τ → Prop}

theorem Keeps.step (keeps : system.Keeps ok Inv Knows) {w w' : Tasks σ τ} {e : TaskEvent ρ α ε}
    (allowed : ok w e) (holds : Holds Inv Knows w) (move : system.step w e = some w') :
    Holds Inv Knows w' := by
  rcases step_cases move with ⟨t, request, rfl, _, rfl⟩ |
    ⟨t, answer, task, s, next, rfl, running, resumed, rfl⟩ | ⟨e', s, rfl, moved, rfl⟩
  · refine ⟨holds.shared, fun u other hu => ?_⟩
    rcases Tasks.put_running hu with ⟨_, begun⟩ | ⟨_, was⟩
    · obtain rfl := Option.some.inj begun
      exact keeps.begins (w := w) allowed holds.shared
    · exact holds.tasks u other was
  · obtain ⟨inv, own⟩ := keeps.goes allowed holds running resumed
    refine ⟨inv, fun u other hu => ?_⟩
    rcases Tasks.put_running hu with ⟨_, comesTo⟩ | ⟨another, was⟩
    · exact own other comesTo
    · exact keeps.stays allowed holds running resumed another was
  · exact keeps.world allowed holds moved

/-- **The rule of a run.** -/
theorem Keeps.run (keeps : system.Keeps ok Inv Knows) {w w' : Tasks σ τ}
    {es : List (TaskEvent ρ α ε)} (run : Run system.step ok w es w') (start : Holds Inv Knows w) :
    Holds Inv Knows w' :=
  run.invariant start fun _ _ _ allowed holds move => keeps.step allowed holds move

/-- What the steps keep may be asked of each of them. -/
theorem Keeps.also (keeps : system.Keeps ok Inv Knows) {w w' : Tasks σ τ}
    {es : List (TaskEvent ρ α ε)} (run : Run system.step ok w es w') (start : Holds Inv Knows w) :
    Run system.step (fun w e => ok w e ∧ Holds Inv Knows w) w es w' :=
  run.also start fun _ _ _ allowed holds move => keeps.step allowed holds move

/-! ## What tasks hold -/

/-- Something that was opened is kept with what is shared, or a task holds it. -/
def Accounted (live kept : σ → Prop) (holds : τ → Prop) (w : Tasks σ τ) : Prop :=
  live w.shared → kept w.shared ∨ ∃ t task, w.running t = some task ∧ holds task

/-- A step that finds something open leaves it kept or held, or has nothing to do with it. -/
structure Accounts (system : TaskSystem σ τ ρ α ε) (ok : Tasks σ τ → TaskEvent ρ α ε → Prop)
    (live kept : σ → Prop) (holds : τ → Prop) : Prop where
  goes : ∀ {w t answer task s next}, ok w (.go t answer) → w.running t = some task →
    system.resume w.shared task answer = some (s, next) → live s →
    kept s ∨ (∃ n, next = some n ∧ holds n) ∨ live w.shared ∧ ¬ kept w.shared ∧ ¬ holds task
  world : ∀ {w e s}, ok w (.world e) → system.world w.shared e = some s → live s →
    kept s ∨ live w.shared ∧ ¬ kept w.shared

theorem Accounts.run {live kept : σ → Prop} {holds : τ → Prop}
    (accounts : system.Accounts ok live kept holds) {w w' : Tasks σ τ}
    {es : List (TaskEvent ρ α ε)} (run : Run system.step ok w es w')
    (start : Accounted live kept holds w) : Accounted live kept holds w' := by
  refine run.invariant start fun w e w' allowed was move isLive => ?_
  rcases step_cases move with ⟨t, request, rfl, free, rfl⟩ |
    ⟨t, answer, task, s, next, rfl, running, resumed, rfl⟩ | ⟨e', s, rfl, moved, rfl⟩
  · refine (was isLive).imp_right fun ⟨u, other, hu, held⟩ => ⟨u, other, ?_, held⟩
    have ne : u ≠ t := by
      rintro rfl
      simp [free] at hu
    simpa [Tasks.put, ne] using hu
  · rcases accounts.goes allowed running resumed isLive with kept | ⟨n, rfl, held⟩ | ⟨live, lost, own⟩
    · exact .inl kept
    · exact .inr ⟨t, n, by simp [Tasks.put], held⟩
    · rcases was live with kept | ⟨u, other, hu, held⟩
      · exact absurd kept lost
      · have ne : u ≠ t := by
          rintro rfl
          obtain rfl := Option.some.inj (running.symm.trans hu)
          exact own held
        exact .inr ⟨u, other, by simpa [Tasks.put, ne] using hu, held⟩
  · rcases accounts.world allowed moved isLive with kept | ⟨live, lost⟩
    · exact .inl kept
    · exact (was live).imp_left fun kept => absurd kept lost

/-! ## Names that tasks draw from a counter -/

/-- Tasks draw their names from a counter: a name that a step gives is one that was not drawn. -/
structure DrawsNames (system : TaskSystem σ τ ρ α ε) (name : τ → Option ℕ) (drawn : σ → ℕ) :
    Prop where
  init : ∀ request, name (system.init request) = none
  resume : ∀ {s task answer s' next}, system.resume s task answer = some (s', next) →
    drawn s ≤ drawn s' ∧ ∀ n, next = some n → ∀ k, name n = some k →
      name task = some k ∨ drawn s ≤ k ∧ k < drawn s'
  world : ∀ {s e s'}, system.world s e = some s' → drawn s ≤ drawn s'

theorem DrawsNames.step {name : τ → Option ℕ} {drawn : σ → ℕ}
    (draws : system.DrawsNames name drawn) {w w' : Tasks σ τ} {e : TaskEvent ρ α ε}
    (h : NamesApart name drawn w) (move : system.step w e = some w') :
    NamesApart name drawn w' := by
  rcases step_cases move with ⟨t, request, rfl, _, rfl⟩ |
    ⟨t, answer, task, s, next, rfl, running, resumed, rfl⟩ | ⟨e', s, rfl, moved, rfl⟩
  · refine h.put (Nat.le_refl _) fun n same k hk => ?_
    obtain rfl := Option.some.inj same
    simp [draws.init request] at hk
  · obtain ⟨mono, names⟩ := draws.resume resumed
    refine h.put mono fun n comesTo k hk => ?_
    exact (names n comesTo k hk).imp_left fun hk' => ⟨task, running, hk'⟩
  · exact ⟨fun running hk => Nat.lt_of_lt_of_le (h.drawn running hk) (draws.world moved), h.apart⟩

/-- Tasks that draw their names have names of their own, at every step of a run. -/
theorem DrawsNames.run {name : τ → Option ℕ} {drawn : σ → ℕ}
    (draws : system.DrawsNames name drawn) {s : σ} {w' : Tasks σ τ}
    {es : List (TaskEvent ρ α ε)} (run : Run system.step ok (Tasks.idle s) es w') :
    Run system.step (fun w e => ok w e ∧ NamesApart name drawn w) (Tasks.idle s) es w' :=
  run.also .idle fun _ _ _ _ h move => draws.step h move

end TaskSystem

end Syncle.Lib
