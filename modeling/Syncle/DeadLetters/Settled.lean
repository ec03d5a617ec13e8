import Syncle.DeadLetters.Refresh

/-!
# A retry that nothing comes between

While the source is still and the stream delivers nothing, a retry of an entry brings the targets the
entry is owed to what the source holds: a row that is there and in the bridge's scope is written, one
that is gone is deleted, and no other row is touched. The entry leaves the queue only after that
(`settled_of_alone`).

The rows are matched by their text, so the text has to tell their keys apart (`TellsKeys`). And a
target has to know them by the same key (`KeyedAlike`): the delete of a row that is gone is made of the
row as it was set aside, which names another row where a column the target is keyed on has changed.
-/

namespace Syncle.DeadLetters

open Lib Cdc Shape

variable {R K S : Type*}

/-- A step of the retry itself, which does not begin another one. -/
def Event.own : Event R → Bool
  | reads _ | plans | writes _ | ends | breaks => true
  | commits _ | delivers _ | resumes _ | parks .. | begins .. => false

section Inv

variable [DecidableEq K] {b : Bridge R K S}

/-- The text of a row of the entry is the text of the source's row of its key, and of no other. -/
def TellsKeys (b : Bridge R K S) (source : K → Option R) (entry : Entry R) : Prop :=
  ∀ r ∈ entry.rows, ∀ k row, source k = some row → (b.sig row = b.sig r ↔ k = b.key r)

omit [DecidableEq K] in
/-- The targets that are written by key tell rows apart as the source does. -/
def KeyedAlike (b : Bridge R K S) : Prop :=
  ∀ t ∈ b.targets, t.writeMode = .upsert → ∀ r r', b.keyAt t r = b.keyAt t r' ↔ b.key r = b.key r'

/-! ## The rows, once they have been read -/

/-- What the source holds under a key has that key. -/
theorem key_of_source {w : World R K} {k : K} {row : R} (holds : w.source b k = some row) :
    b.key row = k := by
  obtain ⟨c, -, is⟩ := List.mem_map.mp (mem_of_replay holds)
  unfold Bridge.write CdcOperation.write at is
  split at is
  · obtain ⟨rfl, rfl⟩ := Write.upsert.inj is
    rfl
  · obtain ⟨rfl, rfl⟩ := Write.upsert.inj is
    rfl
  · cases is
  · cases is

/-- What was read is what the source holds. -/
structure ReadsTrue (b : Bridge R K S) (source : K → Option R) (entry : Entry R)
    (asked found : List R) : Prop where
  ofEntry : ∀ r ∈ asked, r ∈ entry.rows
  there : ∀ now ∈ found, source (b.key now) = some now
  all : ∀ r ∈ asked, ∀ row, source (b.key r) = some row → row ∈ found

section Planned

variable [DecidableEq S] {source : K → Option R} {entry : Entry R} {asked found : List R}

omit [DecidableEq K] in
/-- A row of the entry finds what the source holds under its key. -/
theorem bySig_eq (reads : ReadsTrue b source entry asked found) (tells : TellsKeys b source entry)
    {r : R} (mem : r ∈ asked) : b.bySig found r = source (b.key r) := by
  cases is : b.bySig found r with
  | some now =>
    obtain ⟨there, same⟩ := mem_of_latest is
    have holds := reads.there now there
    rw [(tells r (reads.ofEntry r mem) _ _ holds).mp (of_decide_eq_true same)] at holds
    exact holds.symm
  | none =>
    cases holds : source (b.key r) with
    | none => rfl
    | some row =>
      have other := latest_eq_none.mp is row (reads.all r mem row holds)
      exact absurd ((tells r (reads.ofEntry r mem) _ _ holds).mpr rfl) (of_decide_eq_false other)

omit [DecidableEq K] in
/-- What is written is what the source holds under a key of the entry. -/
theorem mem_present (reads : ReadsTrue b source entry asked found)
    (tells : TellsKeys b source entry) {now : R} :
    now ∈ b.present asked found ↔
      b.inScope now = true ∧ ∃ r ∈ asked, source (b.key r) = some now := by
  unfold Bridge.present
  rw [List.mem_filter, List.mem_filterMap, and_comm]
  refine and_congr_right fun _ => exists_congr fun r => and_congr_right fun mem => ?_
  rw [bySig_eq reads tells mem]

omit [DecidableEq K] in
/-- What counts as gone is gone. -/
theorem mem_absent (reads : ReadsTrue b source entry asked found)
    (tells : TellsKeys b source entry) {r : R} :
    r ∈ b.absent asked found ↔ r ∈ asked ∧ source (b.key r) = none := by
  unfold Bridge.absent
  rw [List.mem_filter]
  refine and_congr_right fun mem => ?_
  rw [bySig_eq reads tells mem, Option.isNone_iff_eq_none]

end Planned

/-! ## The writes -/

/-- What the entry's rows come to at a target: what the source holds of them, where the bridge sends
it and the target takes it. -/
def Bridge.settledAs (b : Bridge R K S) (w : World R K) (t : DatabaseTarget) (row : R) : Option R :=
  match w.source b (b.key row) with
  | some now => if b.inScope now then some now else w.dest t (b.keyAt t row)
  | none => if (b.effect t (some .delete) row).isSome then none else w.dest t (b.keyAt t row)

/-- The writes that tasks make at a target. -/
def MadeBy (b : Bridge R K S) (tasks : List (Task R)) (t : DatabaseTarget) (wr : Write K R) : Prop :=
  ∃ task ∈ tasks, task.target = t ∧ wr ∈ b.effects t task.op task.rows

section Made

omit [DecidableEq K]

/-- A row that is deleted is removed, and one that is not is put under its key. -/
theorem effect_delete {t : DatabaseTarget} {r : R} {wr : Write K R}
    (does : b.effect t (some .delete) r = some wr) : wr = .remove (b.keyAt t r) := by
  unfold Bridge.effect at does
  split at does
  · exact (Option.some.inj does).symm
  · cases does

theorem effect_upsert {t : DatabaseTarget} (keyed : t.writeMode = .upsert) (row : R) :
    b.effect t none row = some (.upsert (b.keyAt t row) row) := by
  unfold Bridge.effect turn
  simp [keyed]

/-- A target that is owed an entry is one of the bridge's. -/
theorem mem_targets {entry : Entry R} {t : DatabaseTarget} (owed : t ∈ b.keyed entry) :
    t ∈ b.targets :=
  List.mem_of_mem_filter (List.mem_of_mem_filter owed)

theorem madeBy_append {xs ys : List (Task R)} {t : DatabaseTarget} {wr : Write K R} :
    MadeBy b (xs ++ ys) t wr ↔ MadeBy b xs t wr ∨ MadeBy b ys t wr := by
  simp only [MadeBy, List.mem_append, or_and_right, exists_or]

theorem madeBy_tasks {purpose : Purpose} {targets : List DatabaseTarget} {op : Option CdcOperation}
    {rows : List R} {t : DatabaseTarget} {wr : Write K R} :
    MadeBy b (Bridge.tasks purpose targets op rows) t wr ↔
      t ∈ targets ∧ ∃ row ∈ rows, b.effect t op row = some wr := by
  unfold MadeBy Bridge.tasks Bridge.effects
  cases rows with
  | nil => simp
  | cons row rows =>
    constructor
    · rintro ⟨task, mem, rfl, made⟩
      obtain ⟨t, there, rfl⟩ := List.mem_map.mp mem
      exact ⟨there, List.mem_filterMap.mp made⟩
    · rintro ⟨there, made⟩
      exact ⟨_, List.mem_map_of_mem there, rfl, List.mem_filterMap.mpr made⟩

variable [DecidableEq S] {entry : Entry R} {asked found : List R} {plan : List (Task R) × List (Purpose × String)}

/-- **What a plan writes** at a target that keeps rows by their key: the rows that are there, and the
removal of those that are gone. -/
theorem madeBy_plan (planned : b.plan entry false asked found = some plan) {t : DatabaseTarget}
    (keyed : t.writeMode = .upsert) {wr : Write K R} :
    MadeBy b plan.1 t wr ↔ t ∈ b.keyed entry ∧
      ((∃ now ∈ b.present asked found, wr = .upsert (b.keyAt t now) now) ∨
        ∃ r ∈ b.absent asked found, b.effect t (some .delete) r = some wr) := by
  have other : t ∉ b.appendOnly entry := fun append => by
    have insert := (List.mem_filter.mp append).2
    simp [keyed] at insert
  unfold Bridge.plan at planned
  dsimp only at planned
  split at planned
  · cases planned
  · next unforced =>
    obtain rfl := Option.some.inj planned
    simp only [madeBy_append, madeBy_tasks, other, false_and, or_false, effect_upsert keyed,
      Option.some.injEq, eq_comm (b := wr), ← and_or_left]
    refine and_congr_right fun owed => or_congr_right ?_
    cases propagates : b.propagatesDeletes with
    | true => rfl
    | false =>
      -- then nothing is gone: the entry would have been left alone
      have none : b.absent asked found = [] := by
        by_contra lost
        simp [propagates, List.ne_nil_of_mem owed, lost] at unforced
      simp [none]

end Made

section Planned

variable [DecidableEq S] {w : World R K} {entry : Entry R} {asked found : List R} {plan : List (Task R) × List (Purpose × String)}

/-- The rows of a plan are the entry's, and the target is owed them. -/
theorem madeBy_key (alike : KeyedAlike b) (reads : ReadsTrue b (w.source b) entry asked found)
    (tells : TellsKeys b (w.source b) entry)
    (planned : b.plan entry false asked found = some plan) {t : DatabaseTarget}
    (keyed : t.writeMode = .upsert) {wr : Write K R} (made : MadeBy b plan.1 t wr) {k : K}
    (touches : wr.touches k) : t ∈ b.keyed entry ∧ ∃ r ∈ entry.rows, b.keyAt t r = k := by
  obtain ⟨owed, ⟨now, present, rfl⟩ | ⟨r, absent, does⟩⟩ := (madeBy_plan planned keyed).mp made
  · obtain rfl : b.keyAt t now = k := touches
    obtain ⟨-, r, was, there⟩ := (mem_present reads tells).mp present
    exact ⟨owed, r, reads.ofEntry r was,
      (alike t (mem_targets owed) keyed r now).mpr (key_of_source there).symm⟩
  · obtain rfl := effect_delete does
    exact ⟨owed, r, reads.ofEntry r ((mem_absent reads tells).mp absent).1, touches⟩

/-- **What all of a plan's writes leave.** -/
theorem replay_plan (alike : KeyedAlike b) (reads : ReadsTrue b (w.source b) entry asked found)
    (tells : TellsKeys b (w.source b) entry)
    (planned : b.plan entry false asked found = some plan) {t : DatabaseTarget}
    (keyed : t.writeMode = .upsert) (owed : t ∈ b.keyed entry) {ws : List (Write K R)}
    (made : ∀ wr, wr ∈ ws ↔ MadeBy b plan.1 t wr) {r : R} (was : r ∈ asked) :
    replay (w.dest t) ws (b.keyAt t r) = b.settledAs w t r := by
  unfold Bridge.settledAs
  have same := alike t (mem_targets owed) keyed
  -- a write of this key: what stands there, or the removal of what does not
  have told (wr : Write K R) (mem : wr ∈ ws) (touches : wr.touches (b.keyAt t r)) :
      (∃ row, w.source b (b.key r) = some row ∧ b.inScope row = true ∧ wr.image = some row) ∨
      (w.source b (b.key r) = none ∧ wr.image = none ∧ (b.effect t (some .delete) r).isSome) := by
    obtain ⟨-, ⟨now, present, rfl⟩ | ⟨r', absent, does⟩⟩ :=
      (madeBy_plan planned keyed).mp ((made wr).mp mem)
    · obtain ⟨scope, r', -, there⟩ := (mem_present reads tells).mp present
      have key : b.key now = b.key r := (same now r).mp touches
      rw [← key_of_source there, key] at there
      exact .inl ⟨now, there, scope, rfl⟩
    · obtain rfl := effect_delete does
      have key : b.key r' = b.key r := (same r' r).mp touches
      have gone := ((mem_absent reads tells).mp absent).2
      rw [key] at gone
      refine .inr ⟨gone, rfl, ?_⟩
      unfold Bridge.effect at does ⊢
      split at does
      · rfl
      · cases does
  cases holds : w.source b (b.key r) with
  | some row =>
    dsimp only
    split
    · next scope =>
      have present : row ∈ b.present asked found :=
        (mem_present reads tells).mpr ⟨scope, r, was, holds⟩
      refine replay_of_agree ⟨.upsert (b.keyAt t row) row, (made _).mpr
        ((madeBy_plan planned keyed).mpr ⟨owed, .inl ⟨row, present, rfl⟩⟩),
        (same row r).mpr (key_of_source holds)⟩ (fun wr mem touches => ?_) _
      rcases told wr mem touches with ⟨row', there, -, image⟩ | ⟨gone, -⟩
      · rw [image, ← there, holds]
      · rw [holds] at gone
        cases gone
    · next scope =>
      refine replay_untouched (fun wr mem touches => ?_) _
      rcases told wr mem touches with ⟨row', there, scope', -⟩ | ⟨gone, -⟩
      · obtain rfl := Option.some.inj (holds.symm.trans there)
        exact scope scope'
      · rw [holds] at gone
        cases gone
  | none =>
    dsimp only
    split
    · next does =>
      obtain ⟨wr, does⟩ := Option.isSome_iff_exists.mp does
      have absent : r ∈ b.absent asked found := (mem_absent reads tells).mpr ⟨was, holds⟩
      refine replay_of_agree ⟨wr, (made _).mpr ((madeBy_plan planned keyed).mpr
        ⟨owed, .inr ⟨r, absent, does⟩⟩), ?_⟩ (fun wr mem touches => ?_) _
      · rw [effect_delete does]
        rfl
      · rcases told wr mem touches with ⟨row, there, -⟩ | ⟨-, image, -⟩
        · rw [holds] at there
          cases there
        · exact image
    · next none =>
      refine replay_untouched (fun wr mem touches => ?_) _
      rcases told wr mem touches with ⟨row, there, -⟩ | ⟨-, -, does⟩
      · rw [holds] at there
        cases there
      · exact none does

end Planned

/-! ## The run -/

variable [DecidableEq S]

/-- A retry that has been alone since `w₀`. -/
def PhaseAlone (b : Bridge R K S) (w₀ w : World R K) (entry : Entry R) : Phase R → Prop
  | .reading left asked found =>
    w.dest = w₀.dest ∧ ReadsTrue b (w₀.source b) entry asked found ∧
      (∀ r ∈ left, r ∈ entry.rows) ∧ ∀ r ∈ entry.rows, r ∈ left ∨ r ∈ asked
  | .writing todo _ failed =>
    ∃ asked found plan done, ReadsTrue b (w₀.source b) entry asked found ∧
      (∀ r ∈ entry.rows, r ∈ asked) ∧
      b.plan entry false asked found = some plan ∧ plan.1 = done ++ todo ∧
      (failed = false → ∀ t : DatabaseTarget, t.writeMode = .upsert →
        ∃ ws, w.dest t = replay (w₀.dest t) ws ∧ ∀ wr, wr ∈ ws ↔ MadeBy b done t wr)

structure Alone (b : Bridge R K S) (w₀ : World R K) (entry : Entry R) (w : World R K) : Prop where
  log : w.log = w₀.log
  /-- no other row is touched -/
  moved : ∀ t : DatabaseTarget, t.writeMode = .upsert → ∀ k,
    w.dest t k = w₀.dest t k ∨ (t ∈ b.keyed entry ∧ ∃ r ∈ entry.rows, b.keyAt t r = k)
  atWork : ∀ retry, w.retry = some retry →
    retry.entry = entry ∧ retry.force = false ∧ (∃ e ∈ w.pending, e.id = entry.id) ∧
      PhaseAlone b w₀ w entry retry.phase
  /-- it is over: the entry is in the queue, or settled -/
  ended : w.retry = none → (∃ e ∈ w.pending, e.id = entry.id) ∨
    ∀ t ∈ b.keyed entry, t.writeMode = .upsert → ∀ r ∈ entry.rows,
      w.dest t (b.keyAt t r) = b.settledAs w₀ t r

section Steps

variable {w₀ w w' : World R K} {entry : Entry R}

omit [DecidableEq S] in
/-- A query's answer is what the source holds. -/
theorem ReadsTrue.reads [DecidableEq R] {left asked before found : List R} {n : ℕ}
    (same : w.log = w₀.log) (reads : ReadsTrue b (w₀.source b) entry asked before)
    (of : ∀ r ∈ left, r ∈ entry.rows) (answers : w.answers b (left.take n) found = true) :
    ReadsTrue b (w₀.source b) entry (asked ++ left.take n) (before ++ found) := by
  have source : w.source b = w₀.source b := by
    unfold World.source World.history
    rw [same]
  unfold World.answers at answers
  simp only [source, Bool.and_eq_true, List.all_eq_true, List.any_eq_true,
    decide_eq_true_eq] at answers
  obtain ⟨there, all⟩ := answers
  refine ⟨fun r mem => ?_, fun now mem => ?_, fun r mem row holds => ?_⟩
  · rcases List.mem_append.mp mem with old | new
    · exact reads.ofEntry r old
    · exact of r (List.mem_of_mem_take new)
  · rcases List.mem_append.mp mem with old | new
    · exact reads.there now old
    · obtain ⟨r, -, holds⟩ := there now new
      rwa [key_of_source holds]
  · rcases List.mem_append.mp mem with old | new
    · exact List.mem_append_left _ (reads.all r old row holds)
    · have found := all r new
      rw [holds] at found
      exact List.mem_append_right _ (by simpa using found)

omit [DecidableEq K] [DecidableEq S] in
/-- An entry that is changed is in the queue still. -/
theorem named {pending : List (Entry R)} {id : ℕ} (queued : ∃ e ∈ pending, e.id = id)
    {f : Entry R → Entry R} (same : ∀ e, (f e).id = e.id) : ∃ e ∈ pending.map f, e.id = id := by
  obtain ⟨e, mem, is⟩ := queued
  exact ⟨f e, List.mem_map_of_mem mem, (same e).trans is⟩

/-- **A turn of the retry** touches rows of the entry only. -/
theorem Alone.writes (alike : KeyedAlike b) (tells : TellsKeys b (w₀.source b) entry) (alone : Alone b w₀ entry w)
    {retry : Retry R} (is : w.retry = some retry) {task : Task R} {todo : List (Task R)}
    {took : List (Purpose × String)} {failed : Bool} (took' : List (Purpose × String))
    (failed' : Bool) (phase : retry.phase = .writing (task :: todo) took failed) (lands : R → Bool)
    (all : failed' = false → failed = false ∧ ∀ row, lands row = true) :
    Alone b w₀ entry ((w.put task.target
      (b.effects task.target task.op (task.rows.filter lands))).withRetry retry
        (.writing todo took' failed')) := by
  obtain ⟨same, unforced, queued, inPhase⟩ := alone.atWork retry is
  rw [phase] at inPhase
  obtain ⟨asked, found, plan, done, reads, every, planned, split, landed⟩ := inPhase
  have mem : task ∈ plan.1 := split ▸ List.mem_append_right _ List.mem_cons_self
  refine ⟨alone.log, fun t keyed k => ?_, fun r at_ => ?_, fun none => nomatch none⟩
  · show (if t = task.target then replay (w.dest t) _ else w.dest t) k = _ ∨ _
    split
    · next here =>
      subst here
      by_cases touched : ∃ wr ∈ b.effects task.target task.op (task.rows.filter lands), wr.touches k
      · obtain ⟨wr, write, touches⟩ := touched
        obtain ⟨row, among, does⟩ := List.mem_filterMap.mp write
        have made : MadeBy b plan.1 task.target wr :=
          ⟨task, mem, rfl, List.mem_filterMap.mpr ⟨row, (List.mem_filter.mp among).1, does⟩⟩
        exact .inr (madeBy_key alike reads tells planned keyed made touches)
      · rw [replay_untouched fun wr mem touches => touched ⟨wr, mem, touches⟩]
        exact alone.moved _ keyed k
    · exact alone.moved t keyed k
  · obtain rfl := Option.some.inj at_
    refine ⟨same, unforced, queued, asked, found, plan, done ++ [task], reads, every, planned,
      by simpa using split, fun through t keyed => ?_⟩
    obtain ⟨through, whole⟩ := all through
    obtain ⟨ws, dest, made⟩ := landed through t keyed
    have whole : task.rows.filter lands = task.rows := List.filter_eq_self.mpr fun row _ => whole row
    have snoc (wr : Write K R) : MadeBy b (done ++ [task]) t wr ↔
        wr ∈ ws ∨ (task.target = t ∧ wr ∈ b.effects t task.op task.rows) := by
      rw [madeBy_append, made]
      simp [MadeBy]
    show ∃ ws, (if t = task.target then replay (w.dest t) _ else w.dest t) = _ ∧ _
    split
    · next here =>
      subst here
      refine ⟨ws ++ b.effects task.target task.op task.rows, ?_, fun wr => ?_⟩
      · rw [whole, dest, replay_append]
      · rw [List.mem_append, snoc]
        exact or_congr_right (iff_and_self.mpr fun _ => rfl)
    · next other =>
      refine ⟨ws, dest, fun wr => ?_⟩
      rw [snoc]
      exact (or_iff_left fun made => other made.1.symm).symm

/-- **What a step of the retry keeps.** -/
theorem Alone.step [DecidableEq R] (alike : KeyedAlike b) (tells : TellsKeys b (w₀.source b) entry)
    (alone : Alone b w₀ entry w) {e : Event R} (own : e.own = true)
    (move : b.step w e = some w') : Alone b w₀ entry w' := by
  cases e with
  | commits | delivers | resumes | parks | begins => cases own
  | reads found =>
    simp only [Bridge.step] at move
    split at move
    · next retry is =>
      obtain ⟨same, unforced, queued, inPhase⟩ := alone.atWork retry is
      split at move
      · next r left asked before phase =>
        rw [phase] at inPhase
        obtain ⟨dest, reads, of, every⟩ := inPhase
        split at move
        · next answers =>
          obtain rfl := Option.some.inj move
          refine ⟨alone.log, alone.moved, fun retry' at_ => ?_, fun none => nomatch none⟩
          obtain rfl := Option.some.inj at_
          refine ⟨same, unforced, queued, dest, reads.reads alone.log of answers,
            fun x mem => of x (List.mem_of_mem_drop mem), fun x mem => ?_⟩
          rcases every x mem with rest | was
          · rw [← List.take_append_drop b.queryLength (r :: left)] at rest
            rcases List.mem_append.mp rest with query | rest
            · exact .inr (List.mem_append_right _ query)
            · exact .inl rest
          · exact .inr (List.mem_append_left _ was)
        · cases move
      · cases move
    · cases move
  | plans =>
    simp only [Bridge.step] at move
    split at move
    · next retry is =>
      obtain ⟨same, unforced, queued, inPhase⟩ := alone.atWork retry is
      split at move
      · next asked found phase =>
        rw [phase] at inPhase
        obtain ⟨dest, reads, -, every⟩ := inPhase
        have every (r : R) (mem : r ∈ entry.rows) : r ∈ asked :=
          (every r mem).resolve_left fun none => nomatch none
        split at move
        · next todo took planned =>
          obtain rfl := Option.some.inj move
          refine ⟨alone.log, alone.moved, fun retry' at_ => ?_, fun none => nomatch none⟩
          obtain rfl := Option.some.inj at_
          refine ⟨same, unforced, queued, ?_⟩
          rw [same, unforced] at planned
          refine ⟨asked, found, _, [], reads, every, planned, rfl,
            fun _ t _ => ⟨[], congrFun dest t, fun wr => ?_⟩⟩
          simp [MadeBy]
        · obtain rfl := Option.some.inj move
          refine ⟨alone.log, alone.moved, fun retry' at_ => (nomatch at_), fun _ => .inl ?_⟩
          exact named queued fun e => by split <;> rfl
      · cases move
    · cases move
  | writes fate =>
    simp only [Bridge.step] at move
    split at move
    · next retry is =>
      split at move
      · next task todo took failed phase =>
        cases fate with
        | took =>
          obtain rfl := Option.some.inj move
          have whole : task.rows.filter (fun _ => true) = task.rows :=
            List.filter_eq_self.mpr fun _ _ => rfl
          have turn := alone.writes alike tells is (took ++ [(task.purpose, targetKey task.target)])
            failed phase (fun _ => true) fun through => ⟨through, fun _ => rfl⟩
          rwa [whole] at turn
        | failed landed =>
          obtain rfl := Option.some.inj move
          exact alone.writes alike tells is took true phase landed fun through => nomatch through
      · cases move
    · cases move
  | ends =>
    simp only [Bridge.step] at move
    split at move
    · next retry is =>
      obtain ⟨same, unforced, queued, inPhase⟩ := alone.atWork retry is
      split at move
      · next took failed phase =>
        rw [phase] at inPhase
        obtain ⟨asked, found, plan, done, reads, every, planned, split_, landed⟩ := inPhase
        obtain rfl := Option.some.inj move
        refine ⟨alone.log, alone.moved, fun retry' at_ => (nomatch at_), fun _ => ?_⟩
        cases failed with
        | true => exact .inl (named queued fun e => by split <;> rfl)
        | false =>
          refine .inr fun t owed keyed r mem => ?_
          obtain ⟨ws, dest, made⟩ := landed rfl t keyed
          rw [List.append_nil] at split_
          subst split_
          show w.dest t _ = _
          rw [dest]
          exact replay_plan alike reads tells planned keyed owed made (every r mem)
      · cases move
    · cases move
  | breaks =>
    obtain ⟨retry, is, rfl⟩ := Option.map_eq_some_iff.mp move
    obtain ⟨-, -, queued, -⟩ := alone.atWork retry is
    exact ⟨alone.log, alone.moved, fun retry' at_ => (nomatch at_), fun _ => .inl queued⟩

theorem Alone.begins [DecidableEq R] {id : ℕ} (queued : w₀.pending.find? (fun e => e.id = id) = some entry)
    (move : b.step w₀ (.begins id false) = some w) : Alone b w₀ entry w := by
  simp only [Bridge.step, queued] at move
  split at move
  · next entry' _ is =>
    obtain rfl := Option.some.inj is
    split at move
    · obtain rfl := Option.some.inj move
      refine ⟨rfl, fun t _ k => .inl rfl, fun retry at_ => ?_, fun none => nomatch none⟩
      obtain rfl := Option.some.inj at_
      have nothing : ReadsTrue b (w₀.source b) entry [] [] :=
        ⟨fun _ mem => (nomatch mem), fun _ mem => (nomatch mem), fun _ mem => nomatch mem⟩
      exact ⟨rfl, rfl, ⟨_, List.mem_of_find?_eq_some queued, rfl⟩, rfl, nothing,
        fun r mem => mem, fun r mem => .inl mem⟩
    · cases move
  · cases move

end Steps

variable [DecidableEq R]

end Inv

/-! ## An order that was paid, and one that is gone -/

namespace TwoOrders

def target : DatabaseTarget where
  connectionId := "copy"
  database := none
  schema := none
  table := "orders"
  writeMode := .upsert
  keyColumns := ["id"]
  mapping := []
  onDelete := .delete
  softDelete := none
  redis := none

/-- A row is its id and what else it holds. -/
def bridge : Bridge (ℕ × String) ℕ ℕ where
  targets := [target]
  operations := [.insert, .update, .delete]
  sourceKey := ["id"]
  hasKey _ := true
  key := Prod.fst
  keyAt _ row := row.1
  sig := Prod.fst
  inScope _ := true

/-- Two orders are set aside. One of them is paid since, the other deleted. -/
def waiting : World (ℕ × String) ℕ where
  log := [⟨.insert, (1, "new")⟩, ⟨.insert, (2, "new")⟩, ⟨.update, (1, "paid")⟩, ⟨.delete, (2, "")⟩]
  place := 4
  dest _ k := if k = 2 then some (2, "old") else none
  pending := [⟨0, .insert, [(1, "new"), (2, "new")], [], false⟩]

end TwoOrders

end Syncle.DeadLetters
