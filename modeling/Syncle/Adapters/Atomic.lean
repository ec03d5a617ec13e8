import Syncle.Adapters.Transaction

/-!
# Calls that meet their own transactions are atomic

What is done on a connection by a call leaves of the others what it finds (`Conn.Touches`): what it
commits is the call's, and the transaction that is open afterwards was open before, or is the
call's. A call in its transaction goes by `InTransaction`: it has applied nothing yet, and the
transaction that it began, where it is open still, holds what it wrote.
-/

namespace Syncle.Adapters

open Lib

variable {α : Type*}

/-!
## The writes of a call

A write carries the call that made it, so what a call has applied can be read off the tables.
-/

theorem writesOf_append (l l' : List (Write α)) (call : ℕ) :
    writesOf (l ++ l') call = writesOf l call ++ writesOf l' call := by
  simp [writesOf]

theorem writesOf_other {l : List (Write α)} {call call' : ℕ} (all : ∀ w ∈ l, w.call = call)
    (ne : call ≠ call') : writesOf l call' = [] := by
  simp only [writesOf, List.map_eq_nil_iff, List.filter_eq_nil_iff, decide_eq_true_eq]
  intro w mem same
  exact ne ((all w mem).symm.trans same)

theorem writesOf_own (l : List α) (call : ℕ) : writesOf (l.map (Write.mk call)) call = l := by
  induction l with
  | nil => rfl
  | cons a l ih => simpa [writesOf] using ih

/-- What a transaction holds was written by the call that began it. -/
def Open.Own (tx : Open α) : Prop := ∀ w ∈ tx.writes, w.call = tx.call

namespace Conn

/-- Where a transaction is open on the connection, it is the call's. -/
def Owns (conn : Conn α) (call : ℕ) : Prop := ∀ tx, conn.tx = some tx → tx.call = call ∧ tx.Own

/-- What something that a call does on a connection leaves of the others. -/
structure Touches (call : ℕ) (conn conn' : Conn α) : Prop where
  committed : ∃ new, conn'.committed = conn.committed ++ new ∧ ∀ w ∈ new, w.call = call
  tx : ∀ tx, conn'.tx = some tx → conn.tx = some tx ∨ tx.call = call ∧ tx.Own

theorem Touches.refl (call : ℕ) (conn : Conn α) : Touches call conn conn :=
  ⟨⟨[], by simp, by simp⟩, fun _ h => .inl h⟩

theorem Touches.closed {call : ℕ} {conn : Conn α} {new : List (Write α)}
    (own : ∀ w ∈ new, w.call = call) :
    Touches call conn { committed := conn.committed ++ new, tx := none } :=
  ⟨⟨new, rfl, own⟩, fun _ h => by simp at h⟩

theorem touches_rollback (call : ℕ) (conn : Conn α) : Touches call conn conn.rollback :=
  ⟨⟨[], by simp [rollback], by simp⟩, fun _ h => by simp [rollback] at h⟩

theorem touches_begin (conn : Conn α) (call : ℕ) (ok : Bool) :
    Touches call conn (conn.begin_ call ok).1 := by
  unfold begin_
  split
  · refine ⟨⟨[], by simp, by simp⟩, fun tx h => .inr ?_⟩
    obtain rfl := Option.some.inj h
    exact ⟨rfl, by simp [Open.Own]⟩
  · exact .refl call conn

theorem touches_commit (engine : Engine) {conn : Conn α} {call : ℕ} (owns : conn.Owns call)
    (commits : Commits) : Touches call conn (conn.commit engine commits).1 := by
  unfold commit
  split
  · exact .refl call conn
  · next tx opened =>
    obtain ⟨same, own⟩ := owns tx opened
    split
    · exact touches_rollback call conn
    · cases commits with
      | refused => exact .refl call conn
      | ok | lost => exact .closed fun w mem => (own w mem).trans same

theorem touches_run (engine : Engine) {conn : Conn α} (write : Write α)
    (owns : conn.Owns write.call) (ran : Ran) :
    Touches write.call conn (conn.run engine write ran).1 := by
  unfold run
  split
  · next opened =>
    cases ran with
    | ok => exact ⟨⟨[write], rfl, by simp⟩, fun tx h => .inl h⟩
    | failed | undone => exact .refl _ conn
  · next tx opened =>
    obtain ⟨same, own⟩ := owns tx opened
    split
    · exact .refl _ conn
    · cases ran with
      | ok =>
        refine ⟨⟨[], by simp, by simp⟩, fun tx' h => .inr ?_⟩
        obtain rfl := Option.some.inj h
        refine ⟨same, fun w mem => ?_⟩
        rcases List.mem_append.mp mem with mem | mem
        · exact own w mem
        · exact (List.mem_singleton.mp mem) ▸ same.symm
      | failed =>
        simp only
        split
        · refine ⟨⟨[], by simp, by simp⟩, fun tx' h => .inr ?_⟩
          obtain rfl := Option.some.inj h
          exact ⟨same, own⟩
        · exact .refl _ conn
      | undone => exact touches_rollback _ conn

/-- A statement on a connection with a transaction commits nothing, and what is open afterwards
holds what it held, and the statement where it was answered. -/
theorem run_open (engine : Engine) {conn : Conn α} {tx : Open α} (opened : conn.tx = some tx)
    (write : Write α) (ran : Ran) :
    (conn.run engine write ran).1.committed = conn.committed ∧
      ∀ tx', (conn.run engine write ran).1.tx = some tx' →
        tx'.writes = if (conn.run engine write ran).2 then tx.writes ++ [write] else tx.writes := by
  unfold run
  rw [opened]
  simp only
  split
  · refine ⟨rfl, fun tx' h => ?_⟩
    obtain rfl := Option.some.inj (opened.symm.trans h)
    rfl
  · cases ran with
    | ok => exact ⟨rfl, fun tx' h => Option.some.inj h ▸ rfl⟩
    | failed =>
      simp only
      split
      · exact ⟨rfl, fun tx' h => Option.some.inj h ▸ rfl⟩
      · refine ⟨rfl, fun tx' h => ?_⟩
        obtain rfl := Option.some.inj (opened.symm.trans h)
        rfl
    | undone => exact ⟨rfl, fun tx' h => by simp at h⟩

theorem begin_committed (conn : Conn α) (call : ℕ) (ok : Bool) :
    (conn.begin_ call ok).1.committed = conn.committed := by
  unfold begin_
  split <;> rfl

/-- On a connection with no transaction, what is open after a BEGIN holds nothing. -/
theorem begin_writes {conn : Conn α} (free : conn.tx = none) {call : ℕ} {ok : Bool} {tx : Open α}
    (h : (conn.begin_ call ok).1.tx = some tx) : tx.writes = [] := by
  unfold begin_ at h
  split at h
  · exact Option.some.inj h ▸ rfl
  · simp [free] at h

end Conn

/-!
## What the calls share

The committed writes, the handle and the outcomes; and the footprint of a call, which is what the
others may rely on.
-/

structure Database.Sound (engine : Engine) (db : Database α) : Prop where
  outcomes : ∀ o ∈ db.outcomes, db.applied o.call = if o.succeeded then o.writes else []
  drawnOutcomes : ∀ o ∈ db.outcomes, o.call < db.calls
  drawnWrites : ∀ w ∈ db.committed, w.call < db.calls
  drawnHandle : ∀ tx, db.handle = some tx → tx.call < db.calls
  isolated : ∀ tx, db.handle = some tx → tx.Own
  handleOnly : engine.lends ≠ some .theHandle → db.handle = none

/-- What a step of a call leaves of the others. -/
structure Footprint (call : ℕ) (db db' : Database α) : Prop where
  calls : db.calls ≤ db'.calls
  outcomes : ∀ o ∈ db'.outcomes, o ∈ db.outcomes ∨ o.call = call
  committed : ∀ call', call' ≠ call → db'.applied call' = db.applied call'
  handle : ∀ tx, db'.handle = some tx → db.handle = some tx ∨ tx.call = call

theorem Conn.Touches.applied {call call' : ℕ} {conn conn' : Conn α} (h : conn.Touches call conn')
    (ne : call' ≠ call) : writesOf conn'.committed call' = writesOf conn.committed call' := by
  obtain ⟨new, grown, own⟩ := h.committed
  rw [grown, writesOf_append, writesOf_other own ne.symm, List.append_nil]

namespace AdapterTask

variable {engine : Engine} {db : Database α} {task : AdapterTask α} {conn : Conn α}

@[simp] theorem moves_calls (at_ : Stands α) :
    (task.moves engine db conn at_).1.calls = db.calls := by
  unfold moves; split <;> rfl

@[simp] theorem moves_outcomes (at_ : Stands α) :
    (task.moves engine db conn at_).1.outcomes = db.outcomes := by
  unfold moves; split <;> rfl

@[simp] theorem moves_applied (at_ : Stands α) (call : ℕ) :
    (task.moves engine db conn at_).1.applied call = writesOf conn.committed call := by
  unfold moves; split <;> rfl

@[simp] theorem moves_committed (at_ : Stands α) :
    (task.moves engine db conn at_).1.committed = conn.committed := by
  unfold moves; split <;> rfl

@[simp] theorem moves_call (at_ : Stands α) :
    (task.moves engine db conn at_).2.call = task.call := by
  unfold moves; split <;> rfl

@[simp] theorem moves_at (at_ : Stands α) : (task.moves engine db conn at_).2.at_ = at_ := by
  unfold moves; split <;> rfl

@[simp] theorem moves_wrote (at_ : Stands α) :
    (task.moves engine db conn at_).2.wrote = task.wrote := by
  unfold moves; split <;> rfl

@[simp] theorem conn_committed : (task.conn engine db).committed = db.committed := rfl

/-- The connection is what it was left as. -/
theorem conn_moves (at_ : Stands α) :
    ((task.moves engine db conn at_).2.conn engine (task.moves engine db conn at_).1).tx =
      conn.tx := by
  unfold moves AdapterTask.conn
  split <;> rfl

/-- The handle is what it was, or is what the connection was left as. -/
theorem handle_moves (at_ : Stands α) {tx : Open α}
    (h : (task.moves engine db conn at_).1.handle = some tx) :
    engine.lends = some .theHandle ∧ conn.tx = some tx ∨
      engine.lends ≠ some .theHandle ∧ db.handle = some tx := by
  unfold moves at h
  split at h
  · exact .inl ⟨‹_›, h⟩
  · exact .inr ⟨‹_›, h⟩

theorem conn_handle (shared : engine.lends = some .theHandle) :
    (task.conn engine db).tx = db.handle := if_pos shared

theorem footprint_moves (task : AdapterTask α) {call : ℕ} (touches : (task.conn engine db).Touches call conn)
    (at_ : Stands α) : Footprint call db (task.moves engine db conn at_).1 where
  calls := by simp
  outcomes o mem := .inl (by simpa using mem)
  committed call' ne := (moves_applied at_ call').trans (touches.applied ne)
  handle tx h := by
    rcases handle_moves at_ h with ⟨shared, left⟩ | ⟨_, was⟩
    · rcases touches.tx tx left with was | ⟨same, _⟩
      · exact .inl (conn_handle shared ▸ was)
      · exact .inr same
    · exact .inl was

/-- What a call in its transaction goes by. -/
structure InTransaction (engine : Engine) (db : Database α) (task : AdapterTask α) : Prop where
  drawn : task.call < db.calls
  underWay : ∀ o ∈ db.outcomes, o.call ≠ task.call
  nothing : db.applied task.call = []
  /-- the transaction that it began, where it is open, holds what it wrote -/
  holds : ∀ tx, (task.conn engine db).tx = some tx → tx.call = task.call →
    tx.writes = task.wrote.map (Write.mk task.call)
  own : ∀ tx, task.own = some tx → engine.lends ≠ some .theHandle ∧ tx.call = task.call
  beginning : task.at_ = .beginning → task.own = none ∧ task.wrote = []

/-- A call has a name once it has been lent a connection. -/
def name (task : AdapterTask α) : Option ℕ :=
  match task.at_ with
  | .statement _ | .acquiring => none
  | .beginning | .inCallback | .committing | .rollingBack => some task.call

/-- What a call goes by. -/
def Knows (engine : Engine) (db : Database α) (task : AdapterTask α) : Prop :=
  (task.name = none → task.own = none) ∧ (task.name.isSome → task.InTransaction engine db)

theorem own_of_writes {task : AdapterTask α} {tx : Open α} (same : tx.call = task.call)
    (holds : tx.writes = task.wrote.map (Write.mk task.call)) : tx.Own := by
  intro w mem
  rw [holds] at mem
  obtain ⟨s, _, rfl⟩ := List.mem_map.mp mem
  exact same.symm

/-- Where no other call's transaction is open on the handle, the connection is the call's. -/
theorem InTransaction.owns (h : task.InTransaction engine db)
    (meets : engine.lends = some .theHandle → ∀ tx ∈ db.handle, tx.call = task.call) :
    (task.conn engine db).Owns task.call := by
  intro tx opened
  have same : tx.call = task.call := by
    by_cases shared : engine.lends = some .theHandle
    · exact meets shared tx ((conn_handle shared).symm.trans opened)
    · have own : task.own = some tx := by simpa [conn, shared] using opened
      exact (h.own tx own).2
  exact ⟨same, own_of_writes same (h.holds tx opened same)⟩

/-- What another call goes by is kept by a step that leaves it its own. -/
theorem InTransaction.stays {db' : Database α} {call : ℕ} (h : task.InTransaction engine db)
    (foot : Footprint call db db') (ne : task.call ≠ call) : task.InTransaction engine db' where
  drawn := Nat.lt_of_lt_of_le h.drawn foot.calls
  underWay o mem same := by
    rcases foot.outcomes o mem with was | its
    · exact h.underWay o was same
    · exact ne (same.symm.trans its)
  nothing := (foot.committed _ ne).trans h.nothing
  holds tx opened same := by
    by_cases shared : engine.lends = some .theHandle
    · rw [conn_handle shared] at opened
      rcases foot.handle tx opened with was | its
      · exact h.holds tx ((conn_handle shared).trans was) same
      · exact absurd (same.symm.trans its) ne
    · refine h.holds tx ?_ same
      simpa [conn, shared] using opened
  own := h.own
  beginning := h.beginning

end AdapterTask

/-!
## What a step keeps

One lemma for each point a call stands at, from being lent a connection to its COMMIT or ROLLBACK.
-/

/-- What is done on a call's connection keeps what the calls share. -/
theorem Database.Sound.moves {engine : Engine} {db : Database α} (task : AdapterTask α)
    {conn : Conn α} (h : db.Sound engine) (drawn : task.call < db.calls)
    (underWay : ∀ o ∈ db.outcomes, o.call ≠ task.call)
    (touches : (task.conn engine db).Touches task.call conn) (at_ : Stands α) :
    (task.moves engine db conn at_).1.Sound engine where
  outcomes o mem := by
    have was : o ∈ db.outcomes := by simpa using mem
    rw [AdapterTask.moves_applied, touches.applied (underWay o was)]
    exact h.outcomes o was
  drawnOutcomes o mem := by simpa using h.drawnOutcomes o (by simpa using mem)
  drawnWrites w mem := by
    rw [AdapterTask.moves_committed] at mem
    obtain ⟨new, grown, own⟩ := touches.committed
    rw [grown] at mem
    rw [AdapterTask.moves_calls]
    rcases List.mem_append.mp mem with was | mem
    · exact h.drawnWrites w was
    · exact (own w mem) ▸ drawn
  drawnHandle tx opened := by
    rw [AdapterTask.moves_calls]
    rcases (AdapterTask.footprint_moves task touches at_).handle tx opened with was | same
    · exact h.drawnHandle tx was
    · exact same ▸ drawn
  isolated tx opened := by
    rcases AdapterTask.handle_moves at_ opened with ⟨shared, left⟩ | ⟨_, was⟩
    · rcases touches.tx tx left with was | ⟨_, own⟩
      · exact h.isolated tx (AdapterTask.conn_handle shared ▸ was)
      · exact own
    · exact h.isolated tx was
  handleOnly lent := by
    unfold AdapterTask.moves
    rw [if_neg lent]
    exact h.handleOnly lent

/-- A call is over that has applied what it says. -/
theorem Database.Sound.finish {engine : Engine} {db : Database α} {o : Outcome α}
    (h : db.Sound engine) (drawn : o.call < db.calls)
    (applied : db.applied o.call = if o.succeeded then o.writes else []) :
    (db.finish o).Sound engine where
  outcomes o' mem := by
    rcases List.mem_append.mp mem with was | mem
    · exact h.outcomes o' was
    · obtain rfl := List.mem_singleton.mp mem
      exact applied
  drawnOutcomes o' mem := by
    rcases List.mem_append.mp mem with was | mem
    · exact h.drawnOutcomes o' was
    · obtain rfl := List.mem_singleton.mp mem
      exact drawn
  drawnWrites := h.drawnWrites
  drawnHandle := h.drawnHandle
  isolated := h.isolated
  handleOnly := h.handleOnly

namespace AdapterTask

variable {engine : Engine} {db : Database α} {task : AdapterTask α} {conn : Conn α}

/-- A call goes on that has committed nothing, and whose transaction holds what it wrote. -/
theorem InTransaction.goesOn (h : task.InTransaction engine db) (wrote : List α)
    (touches : (task.conn engine db).Touches task.call conn)
    (nothing : conn.committed = db.committed)
    (holds : ∀ tx, conn.tx = some tx → tx.call = task.call →
      tx.writes = wrote.map (Write.mk task.call))
    {at_ : Stands α} (begun : at_ ≠ .beginning) :
    (({ task with wrote := wrote } : AdapterTask α).moves engine db conn at_).2.InTransaction engine
      (({ task with wrote := wrote } : AdapterTask α).moves engine db conn at_).1 where
  drawn := by simpa using h.drawn
  underWay o mem := by simpa using h.underWay o (by simpa using mem)
  nothing := by
    rw [moves_applied, moves_call, nothing]
    exact h.nothing
  holds tx opened same := by
    rw [conn_moves] at opened
    simpa using holds tx opened (by simpa using same)
  own tx opened := by
    unfold moves at opened ⊢
    split at opened
    · next shared => exact absurd shared (h.own tx opened).1
    · next lent =>
      rw [if_neg lent]
      refine ⟨lent, ?_⟩
      rcases touches.tx tx opened with was | ⟨same, _⟩
      · exact (h.own tx (by simpa [AdapterTask.conn, lent] using was)).2
      · exact same
  beginning same := absurd (by simpa using same) begun

end AdapterTask

theorem Footprint.finish {call : ℕ} {db db' : Database α} {o : Outcome α}
    (h : Footprint call db db') (its : o.call = call) : Footprint call db (db'.finish o) where
  calls := h.calls
  outcomes o' mem := by
    rcases List.mem_append.mp mem with was | mem
    · exact h.outcomes o' was
    · exact .inr ((List.mem_singleton.mp mem) ▸ its)
  committed := h.committed
  handle := h.handle

/-- The database after a call has taken the next name, and committed what it wrote at once. -/
def Database.draw (db : Database α) (new : List (Write α)) : Database α :=
  { db with committed := db.committed ++ new, calls := db.calls + 1 }

namespace Database

variable {engine : Engine} {db : Database α} {new : List (Write α)}

theorem applied_draw (call : ℕ) :
    (db.draw new).applied call = db.applied call ++ writesOf new call := writesOf_append _ _ _

/-- A name that has not been drawn has written nothing. -/
theorem Sound.applied_calls (h : db.Sound engine) : db.applied db.calls = [] := by
  simp only [applied, writesOf, List.map_eq_nil_iff, List.filter_eq_nil_iff, decide_eq_true_eq]
  intro w mem same
  exact absurd (h.drawnWrites w mem) (by omega)

theorem Sound.draw (h : db.Sound engine) (its : ∀ w ∈ new, w.call = db.calls) :
    (db.draw new).Sound engine where
  outcomes o mem := by
    have drawn := h.drawnOutcomes o mem
    rw [applied_draw, writesOf_other its (by omega), List.append_nil]
    exact h.outcomes o mem
  drawnOutcomes o mem := Nat.lt_succ_of_lt (h.drawnOutcomes o mem)
  drawnWrites w mem := by
    rcases List.mem_append.mp mem with was | mem
    · exact Nat.lt_succ_of_lt (h.drawnWrites w was)
    · exact (its w mem) ▸ Nat.lt_succ_self _
  drawnHandle tx opened := Nat.lt_succ_of_lt (h.drawnHandle tx opened)
  isolated := h.isolated
  handleOnly := h.handleOnly

theorem footprint_draw (its : ∀ w ∈ new, w.call = db.calls) :
    Footprint db.calls db (db.draw new) where
  calls := Nat.le_succ _
  outcomes _ mem := .inl mem
  committed call' ne := by
    rw [applied_draw, writesOf_other its ne.symm, List.append_nil]
  handle _ opened := .inl opened

/-- A statement outside of any transaction, where none is open on the handle. -/
theorem Sound.ran (h : db.Sound engine) (free : db.handle = none) (statement : α) (ran : Ran) :
    ∃ new, (∀ w ∈ new, w.call = db.calls) ∧
      let pooled := Conn.run engine { committed := db.committed, tx := db.handle }
        { call := db.calls, statement := statement } ran
      { db with committed := pooled.1.committed, handle := pooled.1.tx, calls := db.calls + 1 }
        = db.draw new ∧
      (db.draw new).applied db.calls = if pooled.2 then [statement] else [] := by
  cases ran with
  | ok =>
    refine ⟨[{ call := db.calls, statement := statement }], by simp, ?_, ?_⟩
    · simp [Conn.run, free, Database.draw]
    · rw [applied_draw, h.applied_calls]
      simp [Conn.run, free, writesOf]
  | failed | undone =>
    refine ⟨[], by simp, ?_, ?_⟩
    · simp [Conn.run, free, Database.draw]
    · rw [applied_draw, h.applied_calls]
      simp [Conn.run, free, writesOf]

end Database

/-- What a step of a call leads to. -/
structure Led (engine : Engine) (call : ℕ) (db db' : Database α) (next : Option (AdapterTask α)) :
    Prop where
  sound : db'.Sound engine
  footprint : Footprint call db db'
  knows : ∀ n, next = some n → n.Knows engine db'

namespace AdapterTask

variable {engine : Engine} {db db' : Database α} {task : AdapterTask α}
  {next : Option (AdapterTask α)}

theorem name_eq_some {task : AdapterTask α} {at_ : Stands α} (h : task.at_ = at_)
    (inside : at_ = .beginning ∨ at_ = .inCallback ∨ at_ = .committing ∨ at_ = .rollingBack) :
    task.name = some task.call := by
  rcases inside with rfl | rfl | rfl | rfl <;> simp [name, h]

theorem InTransaction.knows (h : task.InTransaction engine db)
    (named : task.name = some task.call) : task.Knows engine db :=
  ⟨fun unnamed => by simp [named] at unnamed, fun _ => h⟩

/-- The call goes on. -/
theorem led_goesOn (sound : db.Sound engine) (h : task.InTransaction engine db) (wrote : List α)
    {conn : Conn α} (touches : (task.conn engine db).Touches task.call conn)
    (nothing : conn.committed = db.committed)
    (holds : ∀ tx, conn.tx = some tx → tx.call = task.call →
      tx.writes = wrote.map (Write.mk task.call))
    {at_ : Stands α} (inside : at_ = .inCallback ∨ at_ = .committing ∨ at_ = .rollingBack)
    (led : AdapterTask.goesOn engine db { task with wrote := wrote } conn at_ = (db', next)) :
    Led engine task.call db db' next := by
  obtain ⟨rfl, rfl⟩ := Prod.mk.inj led
  have begun : at_ ≠ .beginning := by rcases inside with rfl | rfl | rfl <;> simp
  refine ⟨Database.Sound.moves { task with wrote := wrote } sound h.drawn h.underWay touches at_,
    footprint_moves { task with wrote := wrote } touches at_, fun n same => ?_⟩
  obtain rfl := Option.some.inj same
  refine (h.goesOn wrote touches nothing holds begun).knows (name_eq_some (moves_at at_) ?_)
  exact .inr inside

/-- The call is over. -/
theorem led_ends (sound : db.Sound engine) (h : task.InTransaction engine db) {conn : Conn α}
    (touches : (task.conn engine db).Touches task.call conn) {succeeded : Bool}
    (applied : writesOf conn.committed task.call = if succeeded then task.wrote else [])
    (led : task.ends engine db conn succeeded = (db', next)) :
    Led engine task.call db db' next := by
  obtain ⟨rfl, rfl⟩ := Prod.mk.inj led
  refine ⟨(sound.moves task h.drawn h.underWay touches _).finish ?_ ?_,
    (footprint_moves task touches _).finish rfl, by simp⟩
  · simpa using h.drawn
  · simpa using applied

/-- A call that has a connection is in its transaction, and goes by its name. -/
theorem named_of_stands (knows : task.Knows engine db) {at_ : Stands α} (stands : task.at_ = at_)
    (inside : at_ = .beginning ∨ at_ = .inCallback ∨ at_ = .committing ∨ at_ = .rollingBack) :
    task.InTransaction engine db ∧ task.name.getD db.calls = task.call := by
  have named := name_eq_some stands inside
  exact ⟨knows.2 (by simp [named]), by simp [named]⟩

/-! One lemma for each await, which says what a step is there. -/

attribute [local simp] resume

/-- `execPooled` -/
theorem led_statement (sound : db.Sound engine) {statement : α} {ran : Ran}
    (stands : task.at_ = .statement statement) (meets : MeetsItsOwn engine db task (.ran ran))
    (resumed : task.resume engine db (.ran ran) = some (db', next)) :
    Led engine (task.name.getD db.calls) db db' next := by
  have free : db.handle = none := by
    by_cases shared : engine.lends = some .theHandle
    · exact meets shared
    · exact sound.handleOnly shared
  obtain ⟨new, its, drawn, applied⟩ := sound.ran free statement ran
  simp only [resume, stands] at resumed
  obtain ⟨rfl, rfl⟩ := Prod.mk.inj (Option.some.inj resumed)
  rw [drawn, show task.name = none by simp [name, stands]]
  exact ⟨(sound.draw its).finish (Nat.lt_succ_self _) applied,
    (Database.footprint_draw its).finish rfl, by simp⟩

/-- A call is lent a connection, or it is over. -/
theorem led_acquiring (lends : engine.lends.isSome = true) (sound : db.Sound engine) {ok : Bool}
    (stands : task.at_ = .acquiring) (resumed : task.resume engine db (.did ok) = some (db', next)) :
    Led engine (task.name.getD db.calls) db db' next := by
  have sound' : (db.draw []).Sound engine := sound.draw (by simp)
  have footprint : Footprint db.calls db (db.draw []) := Database.footprint_draw (by simp)
  have draw : { db with calls := db.calls + 1 } = db.draw [] := by simp [Database.draw]
  simp only [resume, stands, draw, lends, ↓reduceIte] at resumed
  have applied : (db.draw []).applied db.calls = [] := by
    rw [Database.applied_draw, sound.applied_calls]
    rfl
  rw [show task.name = none by simp [name, stands]]
  split at resumed
  · obtain ⟨rfl, rfl⟩ := Prod.mk.inj (Option.some.inj resumed)
    refine ⟨sound', footprint, fun n same => ?_⟩
    obtain rfl := Option.some.inj same
    refine InTransaction.knows ?_ rfl
    refine ⟨Nat.lt_succ_self _, fun o mem same => ?_, applied, fun tx opened same => ?_, by simp,
      by simp⟩
    · exact absurd (sound.drawnOutcomes o mem) (by simp [same])
    · by_cases shared : engine.lends = some .theHandle
      · rw [conn_handle shared] at opened
        exact absurd (sound.drawnHandle tx opened) (by simp [same])
      · simp [conn, shared] at opened
  · obtain ⟨rfl, rfl⟩ := Prod.mk.inj (Option.some.inj resumed)
    exact ⟨sound'.finish (Nat.lt_succ_self _) applied, footprint.finish rfl, by simp⟩

theorem led_beginning (sound : db.Sound engine) (h : task.InTransaction engine db) {ok : Bool}
    (stands : task.at_ = .beginning) (meets : MeetsItsOwn engine db task (.did ok))
    (resumed : task.resume engine db (.did ok) = some (db', next)) :
    Led engine task.call db db' next := by
  obtain ⟨none, fresh⟩ := h.beginning stands
  have free : (task.conn engine db).tx = .none := by
    by_cases shared : engine.lends = some .theHandle
    · rw [conn_handle shared]
      simp only [MeetsItsOwn, stands] at meets
      exact meets shared
    · simpa [conn, shared] using none
  simp only [resume, stands] at resumed
  refine led_goesOn sound h task.wrote (Conn.touches_begin _ _ ok)
    (Conn.begin_committed _ _ _) (fun tx opened _ => ?_) ?_ (Option.some.inj resumed)
  · rw [Conn.begin_writes free opened, fresh]
    rfl
  · cases ((task.conn engine db).begin_ task.call ok).2 <;> simp

/-- A statement of the callback, in the transaction that the call began. -/
theorem led_runs (sound : db.Sound engine) (h : task.InTransaction engine db) {statement : α}
    {ran : Ran} (stands : task.at_ = .inCallback)
    (meets : MeetsItsOwn engine db task (.runs statement ran))
    (resumed : task.resume engine db (.runs statement ran) = some (db', next)) :
    Led engine task.call db db' next := by
  obtain ⟨tx, opened, same⟩ := meets
  have owns : (task.conn engine db).Owns task.call := by
    refine h.owns fun shared tx' opened' => ?_
    obtain rfl := Option.some.inj ((conn_handle shared ▸ opened).symm.trans opened')
    exact same
  obtain ⟨nothing, holds⟩ := Conn.run_open engine opened
    { call := task.call, statement := statement } ran
  simp only [resume, stands] at resumed
  refine led_goesOn sound h _ (Conn.touches_run engine { call := task.call, statement } owns ran)
    nothing (fun tx' opened' _ => ?_) (.inl rfl) (Option.some.inj resumed)
  rw [holds tx' opened', h.holds tx opened same]
  split <;> simp

/-- A COMMIT makes all that the call wrote, or nothing. -/
theorem led_committing (sound : db.Sound engine) (h : task.InTransaction engine db)
    {commits : Commits} (stands : task.at_ = .committing)
    (meets : MeetsItsOwn engine db task (.commits commits))
    (resumed : task.resume engine db (.commits commits) = some (db', next)) :
    Led engine task.call db db' next := by
  simp only [resume, stands] at resumed
  obtain ⟨heard, own⟩ := meets
  cases opened : (task.conn engine db).tx with
  | none =>
    simp only [opened] at own
    have refused : (task.conn engine db).commit engine commits = (task.conn engine db, false) := by
      simp only [Conn.commit, opened]
      simp [own]
    simp only [refused, Bool.false_eq_true, ↓reduceIte] at resumed
    exact led_goesOn sound h task.wrote (.refl _ _) rfl h.holds (.inr (.inr rfl))
      (Option.some.inj resumed)
  | some tx =>
    simp only [opened] at own
    have owns : (task.conn engine db).Owns task.call := by
      intro tx' opened'
      obtain rfl := Option.some.inj (opened.symm.trans opened')
      exact ⟨own.1, own_of_writes own.1 (h.holds tx opened own.1)⟩
    have touches := Conn.touches_commit engine owns commits
    cases commits with
    | lost => exact absurd rfl heard
    | refused =>
      have refused : (task.conn engine db).commit engine .refused =
          (task.conn engine db, false) := by simp [Conn.commit, opened, own.2]
      simp only [refused, Bool.false_eq_true, ↓reduceIte] at resumed
      exact led_goesOn sound h task.wrote (.refl _ _) rfl h.holds (.inr (.inr rfl))
        (Option.some.inj resumed)
    | ok =>
      have made : (task.conn engine db).commit engine .ok =
          ({ committed := db.committed ++ tx.writes, tx := none }, true) := by
        simp [Conn.commit, opened, own.2]
      simp only [made, ↓reduceIte] at resumed
      rw [made] at touches
      refine led_ends sound h touches ?_ (Option.some.inj resumed)
      have nothing : writesOf db.committed task.call = [] := h.nothing
      rw [writesOf_append, h.holds tx opened own.1, writesOf_own, nothing]
      rfl

/-- **A call that meets its own** keeps what the calls share and what it goes by itself. -/
theorem led_resume (transactions : engine.transactions = true) (sound : db.Sound engine)
    (knows : task.Knows engine db) {answer : AdapterAnswer α}
    (meets : MeetsItsOwn engine db task answer)
    (resumed : task.resume engine db answer = some (db', next)) :
    Led engine (task.name.getD db.calls) db db' next := by
  have lends : engine.lends.isSome = true := by cases engine <;> first | rfl | cases transactions
  have moves := resumed
  unfold resume at moves
  split at moves
  · next statement ran stands => exact led_statement sound stands meets resumed
  · next ok stands => exact led_acquiring lends sound stands resumed
  · next ok stands =>
    obtain ⟨h, its⟩ := named_of_stands knows stands (by simp)
    exact its ▸ led_beginning sound h stands meets resumed
  · next statement ran stands =>
    obtain ⟨h, its⟩ := named_of_stands knows stands (by simp)
    exact its ▸ led_runs sound h stands meets resumed
  · next stands =>
    obtain ⟨h, its⟩ := named_of_stands knows stands (by simp)
    rw [its]
    simp only [lends, ↓reduceIte] at moves
    exact led_goesOn sound h task.wrote (.refl _ _) rfl h.holds (.inr (.inl rfl))
      (Option.some.inj moves)
  · next stands =>
    obtain ⟨h, its⟩ := named_of_stands knows stands (by simp)
    rw [its]
    simp only [lends, ↓reduceIte] at moves
    exact led_goesOn sound h task.wrote (.refl _ _) rfl h.holds (.inr (.inr rfl))
      (Option.some.inj moves)
  · next commits stands =>
    obtain ⟨h, its⟩ := named_of_stands knows stands (by simp)
    exact its ▸ led_committing sound h stands meets resumed
  · next ok stands =>
    obtain ⟨h, its⟩ := named_of_stands knows stands (by simp)
    rw [its]
    exact led_ends sound h (Conn.touches_rollback _ _) (h.nothing.trans (by simp))
      (Option.some.inj moves)
  · cases moves

end AdapterTask

/-!
## Runs

The calls take turns in any order; what one goes by, the footprints of the others leave.
-/

namespace AdapterTask

variable {engine : Engine} {db db' : Database α} {task : AdapterTask α}
  {next : Option (AdapterTask α)}

theorem call_of_name {k : ℕ} (h : task.name = some k) : k = task.call := by
  unfold name at h
  split at h <;> simp_all

/-- The name a call goes on with is its own. -/
theorem draws_goesOn {task' : AdapterTask α} {conn : Conn α} {at_ : Stands α}
    (named : task.name = some task.call) (same : task'.call = task.call)
    (led : task'.goesOn engine db conn at_ = (db', next)) :
    db.calls ≤ db'.calls ∧ ∀ n, next = some n → ∀ k, n.name = some k →
      task.name = some k ∨ db.calls ≤ k ∧ k < db'.calls := by
  obtain ⟨rfl, rfl⟩ := Prod.mk.inj led
  refine ⟨by simp, fun n comesTo k hk => .inl ?_⟩
  obtain rfl := Option.some.inj comesTo
  rw [named, call_of_name hk, moves_call, same]

theorem draws_ends {conn : Conn α} {succeeded : Bool}
    (led : task.ends engine db conn succeeded = (db', next)) :
    db.calls ≤ db'.calls ∧ ∀ n, next = some n → ∀ k, n.name = some k →
      task.name = some k ∨ db.calls ≤ k ∧ k < db'.calls := by
  obtain ⟨rfl, rfl⟩ := Prod.mk.inj led
  exact ⟨by simp [Database.finish], by simp⟩

end AdapterTask

theorem adapterSystem_draws (engine : Engine) :
    (adapterSystem α engine).DrawsNames AdapterTask.name Database.calls where
  init request := by cases request <;> rfl
  resume := by
    intro db task answer db' next resumed
    simp only [adapterSystem, AdapterTask.resume] at resumed
    split at resumed
    · obtain ⟨rfl, rfl⟩ := Prod.mk.inj (Option.some.inj resumed)
      exact ⟨Nat.le_succ _, by simp⟩
    · split at resumed <;> obtain ⟨rfl, rfl⟩ := Prod.mk.inj (Option.some.inj resumed)
      · refine ⟨Nat.le_succ _, fun n same k hk => .inr ?_⟩
        obtain rfl := Option.some.inj same
        obtain rfl := AdapterTask.call_of_name hk
        exact ⟨Nat.le_refl _, Nat.lt_succ_self _⟩
      · exact ⟨Nat.le_succ _, by simp⟩
    · next stands =>
      have named := AdapterTask.name_eq_some stands (by simp)
      exact AdapterTask.draws_goesOn named rfl (Option.some.inj resumed)
    · next stands =>
      have named := AdapterTask.name_eq_some stands (by simp)
      refine AdapterTask.draws_goesOn named ?_ (Option.some.inj resumed)
      rfl
    iterate 2
      · next stands =>
        have named := AdapterTask.name_eq_some stands (by simp)
        split at resumed
        · exact AdapterTask.draws_goesOn named rfl (Option.some.inj resumed)
        · exact AdapterTask.draws_ends (Option.some.inj resumed)
    · next stands =>
      have named := AdapterTask.name_eq_some stands (by simp)
      split at resumed
      · exact AdapterTask.draws_ends (Option.some.inj resumed)
      · exact AdapterTask.draws_goesOn named rfl (Option.some.inj resumed)
    · exact AdapterTask.draws_ends (Option.some.inj resumed)
    · cases resumed
  world := by
    intro _ e
    exact nomatch e

theorem adapterSystem_keeps {engine : Engine} (transactions : engine.transactions = true) :
    (adapterSystem α engine).Keeps
      (fun w e => onGo (MeetsItsOwn engine) w e ∧ NamesApart AdapterTask.name Database.calls w)
      (Database.Sound engine) (AdapterTask.Knows engine) where
  begins {_ _ request} _ _ := by
    cases request <;> exact ⟨fun _ => rfl, by simp [adapterSystem, AdapterTask.name]⟩
  goes {w t answer task s next} allowed holds running resumed := by
    have led := AdapterTask.led_resume transactions holds.shared (holds.tasks t task running)
      (allowed.1 task running) resumed
    exact ⟨led.sound, led.knows⟩
  stays {w t answer task s next u other} allowed holds running resumed another hu := by
    have led := AdapterTask.led_resume transactions holds.shared (holds.tasks t task running)
      (allowed.1 task running) resumed
    have knows := holds.tasks u other hu
    refine ⟨knows.1, fun named => ?_⟩
    obtain ⟨k, hk⟩ := Option.isSome_iff_exists.mp named
    obtain rfl := AdapterTask.call_of_name hk
    refine (knows.2 named).stays led.footprint fun same => ?_
    cases its : task.name with
    | none =>
      rw [its, Option.getD_none] at same
      exact absurd (allowed.2.drawn hu hk) (by omega)
    | some k =>
      rw [its, Option.getD_some] at same
      exact allowed.2.apart another hu running hk (same ▸ its)
  world := by
    intro _ e
    exact nomatch e

theorem sound_start (engine : Engine) : (Database.start : Database α).Sound engine where
  outcomes := by simp [Database.start]
  drawnOutcomes := by simp [Database.start]
  drawnWrites := by simp [Database.start]
  drawnHandle := by simp [Database.start]
  isolated := by simp [Database.start]
  handleOnly _ := rfl

/-- **On one adapter, calls that meet their own transactions are atomic and isolated.** -/
theorem atomic_of_meetsItsOwn {engine : Engine} (transactions : engine.transactions = true)
    {es : List (TaskEvent (AdapterRequest α) (AdapterAnswer α) Empty)}
    {w : Tasks (Database α) (AdapterTask α)}
    (run : Run (adapterSystem α engine).step (onGo (MeetsItsOwn engine)) (Tasks.idle .start) es w) :
    Atomic w := by
  have holds := (adapterSystem_keeps transactions).run ((adapterSystem_draws engine).run run)
    (.idle (sound_start engine))
  refine ⟨holds.shared.outcomes, fun tx opened => ?_⟩
  rcases opened with handle | ⟨t, task, running, own⟩
  · exact holds.shared.isolated tx handle
  · have knows := holds.tasks t task running
    cases named : task.name with
    | none => simp [knows.1 named] at own
    | some k =>
      have inside := knows.2 (by simp [named])
      obtain ⟨lent, same⟩ := inside.own tx own
      exact AdapterTask.own_of_writes same
        (inside.holds tx (by simpa [AdapterTask.conn, lent] using own) same)

/-- On SQLite, a statement comes between a BEGIN and its ROLLBACK: it was answered, and is undone.
And a second BEGIN fails, its ROLLBACK undoes what the first transaction wrote, and what that
writes afterwards stays though it fails. -/
theorem shared_handle :
    (∃ w, Run (adapterSystem String .sqlite).step anyStep (Tasks.idle .start)
        [.begin 0 .withTransaction, .go 0 (.did true), .go 0 (.did true), .go 0 (.runs "a" .ok),
          .begin 1 (.statement "b"), .go 1 (.ran .ok), .go 0 .throws, .go 0 (.did true)] w ∧
      ¬ Atomic w) ∧
    ∃ w, Run (adapterSystem String .sqlite).step anyStep (Tasks.idle .start)
        [.begin 0 .withTransaction, .go 0 (.did true), .go 0 (.did true), .go 0 (.runs "a" .ok),
          .begin 1 .withTransaction, .go 1 (.did true), .go 1 (.did true), .go 1 (.did true),
          .go 0 (.runs "b" .ok), .go 0 .returns, .go 0 (.commits .ok), .go 0 (.did true)] w ∧
      ¬ Atomic w := by
  refine ⟨⟨_, run_of_eval rfl, fun atomic => ?_⟩, ⟨_, run_of_eval rfl, fun atomic => ?_⟩⟩
  · exact absurd (atomic.outcomes { call := 1, succeeded := true, writes := ["b"] } (by decide))
      (by decide)
  · exact absurd
      (atomic.outcomes { call := 0, succeeded := false, writes := ["a", "b"] } (by decide))
      (by decide)

/-- On SQLite, one transaction and after it a statement and another transaction. -/
theorem one_transaction_at_a_time :
    Engine.sqlite.transactions = true ∧
      ∃ w, Run (adapterSystem String .sqlite).step (onGo (MeetsItsOwn .sqlite))
          (Tasks.idle .start)
          [.begin 0 .withTransaction, .begin 1 (.statement "b"), .begin 2 .withTransaction,
            .go 0 (.did true), .go 2 (.did true), .go 0 (.did true), .go 0 (.runs "a" .ok),
            .go 0 .throws, .go 0 (.did true), .go 1 (.ran .ok), .go 2 (.did true),
            .go 2 (.runs "c" .ok), .go 2 .returns, .go 2 (.commits .ok)] w ∧
        Atomic w := by
  have run : ∃ w, Run (adapterSystem String .sqlite).step (onGo (MeetsItsOwn .sqlite))
      (Tasks.idle .start)
      [.begin 0 .withTransaction, .begin 1 (.statement "b"), .begin 2 .withTransaction,
        .go 0 (.did true), .go 2 (.did true), .go 0 (.did true), .go 0 (.runs "a" .ok),
        .go 0 .throws, .go 0 (.did true), .go 1 (.ran .ok), .go 2 (.did true),
        .go 2 (.runs "c" .ok), .go 2 .returns, .go 2 (.commits .ok)] w :=
    ⟨_, run_iff_runEvents.mpr rfl⟩
  obtain ⟨w, run⟩ := run
  exact ⟨rfl, w, run, atomic_of_meetsItsOwn rfl run⟩

end Syncle.Adapters
