import Syncle.Snapshot.Hold

/-!
# What is held reaches the destination, unless the stream is stopped while it is held

The held changes and the ones already handed over are one queue, in the order things happened:
hearing a change appends to it (and takes an older change of the key out of its held part),
handing one over moves the border. While the copy runs, a key is level when nothing has been heard of
it since the stream was opened and the copy has seen it; once the copy is done, when nothing is held of
it. A stop drops the held part. With nothing held that loses nothing, and what is level stays level for
every cursor the stream can be opened at again.
-/

namespace Syncle.Snapshot.Hold

open Lib Cdc

variable {K R O : Type*} [LinearOrder O] [DecidableEq K] {job : Job K R O}

/-!
## What a step can do

`copyThenFollow` as rules, as `Cdc.Moves` has them of the pipeline.
-/

namespace Job

variable (job)

/-- The change the stream hears next is one too many to hold. -/
def overflows (w : World K R O) : Bool :=
  match w.log[w.heard]? with
  | none => false
  | some e =>
    !job.own (job.key e.row) &&
      match w.phase with
      | .copying _ held | .draining held =>
        job.holdMax < (held.add job.key (heardChange w.heard e)).byKey.length
      | _ => false

/-- The read of the table has failed as often as it may. -/
def givesUp (w : World K R O) : Bool :=
  match w.phase with
  | .copying c _ => max 1 job.readAttempts ≤ c.failures + 1
  | _ => false

end Job

inductive Moves (job : Job K R O) : World K R O → Event R O → World K R O → Prop
  | commit {w : World K R O} (e : KeyChange R) :
    Moves job w (.commit e) { w with log := w.log ++ [e] }
  | passes {w : World K R O} {e : KeyChange R} (he : w.log[w.heard]? = some e)
    (own : job.own (job.key e.row) = true) (hl : w.phase.listening = true) :
    Moves job w .hear w.pass
  | overflows {w : World K R O} (ho : job.overflows w = true) :
    Moves job w .hear (w.hears.goto .stopped)
  | holdsCopying {w : World K R O} {e : KeyChange R} {c : Copying R O}
    {held : HeldChanges K (Cursor O) R} (he : w.log[w.heard]? = some e)
    (own : job.own (job.key e.row) = false) (hp : w.phase = .copying c held) :
    Moves job w .hear
      (w.hears.goto (.copying c (held.add job.key (heardChange w.heard e))))
  | holdsDraining {w : World K R O} {e : KeyChange R} {held : HeldChanges K (Cursor O) R}
    (he : w.log[w.heard]? = some e) (own : job.own (job.key e.row) = false)
    (hp : w.phase = .draining held) :
    Moves job w .hear (w.hears.goto (.draining (held.add job.key (heardChange w.heard e))))
  | handsOn {w : World K R O} {e : KeyChange R} (he : w.log[w.heard]? = some e)
    (hp : w.phase = .live) : Moves job w .hear (w.hears.emit (heardChange w.heard e))
  | persist {w : World K R O} {n : Nat} {c : Cursor O} (hc : w.handed[n]? = some c) :
    Moves job w (.persist n) { w with persisted := some c }
  | stop {w : World K R O} (hp : w.phase.listening = true) : Moves job w .stop (w.goto .stopped)
  | start {w v : World K R O} (hp : w.phase = .stopped) (hv : job.startStream w = some v) :
    Moves job w .start v
  | beginRead {w : World K R O} {c : Copying R O} {held : HeldChanges K (Cursor O) R}
    (hp : w.phase = .copying c held) :
    Moves job w .beginRead (w.goto (.copying { c with
      reader := some
        { index := c.next, cursor := resumeCursor c.key, asked := none, page := []
          next := some (resumeCursor c.key) } } held))
  | askPage {w : World K R O} {c : Copying R O} {held : HeldChanges K (Cursor O) R} {rd : Scan R O}
    (hp : w.phase = .copying c held) (hrd : c.reader = some rd) (hpage : rd.page = []) :
    Moves job w .askPage (w.goto (.copying { c with
      reader := some { rd with asked := some w.log.length } } held))
  | page {w : World K R O} {c : Copying R O} {held : HeldChanges K (Cursor O) R} {rd : Scan R O}
    {rows : List R} {next cursor : Option O} {asked : Nat} (hp : w.phase = .copying c held)
    (hrd : c.reader = some rd) (hasked : rd.asked = some asked) (hnext : rd.next = some cursor)
    (ha : c.paging = .cursor → job.Answers w.log asked cursor rows next) :
    Moves job w (.page rows next) (w.goto (.copying { c with
      reader := some (job.takePage w.log c.paging rd cursor rows next) } held))
  | handRow {w : World K R O} {c : Copying R O} {held : HeldChanges K (Cursor O) R} {rd : Scan R O}
    {row : R} {rest : List R} (hp : w.phase = .copying c held) (hrd : c.reader = some rd)
    (hpage : rd.page = row :: rest) : Moves job w .handRow (job.handRow w c held rd row rest)
  | copied {w : World K R O} {c : Copying R O} {held : HeldChanges K (Cursor O) R} {rd : Scan R O}
    (hp : w.phase = .copying c held) (hrd : c.reader = some rd) (hpage : rd.page = [])
    (hnext : rd.next = none) : Moves job w .copied (w.endCopy c held)
  | readFails {w : World K R O} {c : Copying R O} {held : HeldChanges K (Cursor O) R}
    (hp : w.phase = .copying c held) :
    Moves job w .readFails
      (w.goto (.copying { c with failures := c.failures + 1, reader := none } held))
  | givesUp {w : World K R O} (hg : job.givesUp w = true) (hl : w.phase.listening = true) :
    Moves job w .readFails (w.goto .stopped)
  | drain {w : World K R O} {held : HeldChanges K (Cursor O) R} {k : Option K}
    {change : CdcChange (Cursor O) R} {rest : List (Option K × CdcChange (Cursor O) R)}
    (hp : w.phase = .draining held) (hh : held.byKey = (k, change) :: rest) :
    Moves job w .drain ((w.emit change).goto (.draining { held with byKey := rest }))
  | openGate {w : World K R O} {held : HeldChanges K (Cursor O) R} (hp : w.phase = .draining held)
    (hh : held.byKey = []) : Moves job w .openGate (w.goto .live)

theorem Moves.of_hear {w v : World K R O} {e : KeyChange R} (he : w.log[w.heard]? = some e)
    (h : job.hear w e = some v) : Moves job w .hear v := by
  unfold Job.hear at h
  split at h
  · cases h
  · next hl =>
    have hl : w.phase.listening = true := by simpa using hl
    split at h
    · next own =>
      obtain rfl := Option.some.inj h
      exact .passes he own hl
    · next own =>
      have own : job.own (job.key e.row) = false := by simpa using own
      unfold Job.onChange at h
      cases hp : w.phase with
      | stopped => simp [hp] at h
      | copying c held =>
        simp only [hp, Option.some.injEq] at h
        unfold Job.hold at h
        dsimp only at h
        split at h
        · next full =>
          subst h
          exact .overflows (by simp [Job.overflows, he, own, hp, full])
        · subst h
          exact .holdsCopying he own hp
      | draining held =>
        simp only [hp, Option.some.injEq] at h
        unfold Job.hold at h
        dsimp only at h
        split at h
        · next full =>
          subst h
          exact .overflows (by simp [Job.overflows, he, own, hp, full])
        · subst h
          exact .holdsDraining he own hp
      | live =>
        simp only [hp, Option.some.injEq] at h
        subst h
        exact .handsOn he hp

theorem Moves.of_step [DecidableEq R] {w v : World K R O} {e : Event R O} (h : job.step w e = some v) :
    Moves job w e v := by
  unfold Job.step at h
  split at h
  · obtain rfl := Option.some.inj h
    exact .commit _
  · obtain ⟨e, he, hv⟩ := Option.bind_eq_some_iff.mp h
    exact .of_hear he hv
  · obtain ⟨c, hc, rfl⟩ := Option.map_eq_some_iff.mp h
    exact .persist hc
  · cases h
  · next hp =>
    obtain rfl := Option.some.inj h
    refine .stop ?_
    cases hq : w.phase <;> first | rfl | exact absurd hq hp
  · next hp => exact .start hp h
  · next c held hp =>
    split at h
    · obtain rfl := Option.some.inj h
      exact .beginRead hp
    · cases h
  · next c held hp =>
    split at h
    · next rd hrd =>
      split at h
      · next cond =>
        obtain rfl := Option.some.inj h
        exact .askPage hp hrd cond.1
      · cases h
    · cases h
  · next rows next c held hp =>
    split at h
    · next rd hrd =>
      split at h
      · next asked cursor hasked hnext =>
        split at h
        · next ha =>
          obtain rfl := Option.some.inj h
          exact .page hp hrd hasked hnext ha
        · cases h
      · cases h
    · cases h
  · next c held hp =>
    split at h
    · next rd hrd =>
      split at h
      · next row rest hpage =>
        obtain rfl := Option.some.inj h
        exact .handRow hp hrd hpage
      · cases h
    · cases h
  · next c held hp =>
    split at h
    · next rd hrd =>
      split at h
      · next cond =>
        obtain rfl := Option.some.inj h
        exact .copied hp hrd cond.1 cond.2
      · cases h
    · cases h
  · next c held hp =>
    split at h
    · next full =>
      obtain rfl := Option.some.inj h
      exact .givesUp (by simp [Job.givesUp, hp, full]) (by simp [hp, Phase.listening])
    · obtain rfl := Option.some.inj h
      exact .readFails hp
  · next held hp =>
    split at h
    · next k change rest hh =>
      obtain rfl := Option.some.inj h
      exact .drain hp hh
    · cases h
  · next held hp =>
    split at h
    · next hh =>
      obtain rfl := Option.some.inj h
      exact .openGate hp hh
    · cases h
  · cases h

/-! ## The two tables

What the emitted changes leave at the destination, and what the log has left at the source. -/

namespace Job

variable (job)

/-- What the emitted changes leave in an empty destination keyed on the key. -/
def dest (w : World K R O) : K → Option R := folded job.key w.out

def sourceAt (w : World K R O) : K → Option R := replay (fun _ => none) (job.writes w.log)

end Job

/-- The entries of the log that a list of changes hands over. -/
def entries (l : List (CdcChange (Cursor O) R)) : List Nat :=
  l.filterMap fun c =>
    match c.cursor with
    | .snapshot _ => none
    | .live n => some n

/-- Copy-then-follow, with nothing held any more: every change heard has been handed over, or a newer
one of its key has; nothing overtook anything; and where nothing went unheard, the destination is
the source. -/
structure Follows (job : Job K R O) (w : World K R O) : Prop where
  delivered : w.phase = .live → ∀ i ∈ w.heardAt, ∀ e, w.log[i]? = some e →
    ∃ j e', i ≤ j ∧ w.log[j]? = some e' ∧ job.key e'.row = job.key e.row ∧
      heardChange j e' ∈ w.out
  inOrder : (entries w.out).Pairwise (· < ·)
  drained : w.phase = .live → w.heard = w.log.length →
    ∀ k ∉ w.missed, job.own k = false → job.dest w k = job.sourceAt w k

/-!
## What is level

The log is read as writes, and a world by no more than its `View`. What is held is the newest of each
key (`Holding`); a row the copy has passed is level, and one it has not is ahead of it (`Scans`).
-/

/-- What the argument reads of a world: the log as writes, the destination, how long the log was when
the stream was opened and how much of it the stream is past, and the keys the destination answers for. -/
structure View (K R : Type*) where
  ws : List (Write K R)
  d : K → Option R
  since : Nat
  heard : Nat
  scope : K → Prop

namespace View

def source (v : View K R) : K → Option R := replay (fun _ => none) v.ws

def commit (v : View K R) (w : Write K R) : View K R := { v with ws := v.ws ++ [w] }

def hear (v : View K R) : View K R := { v with heard := v.heard + 1 }

def put (v : View K R) (w : Write K R) : View K R := { v with d := w.apply v.d }

end View

def viewOf (job : Job K R O) (w : World K R O) : View K R :=
  { ws := job.writes w.log, d := job.dest w, since := w.since, heard := w.heard
    scope := fun k => k ∉ w.missed ∧ job.own k = false }

/-- The rows a checkpoint stands for as handed over. -/
def reaches (job : Job K R O) : Option (Checkpoint O) → R → Prop
  | some (.cursor page), r => behind job.place page r = false
  | _, _ => False

/-- The rows a cursor stands for. -/
def seenBy (job : Job K R O) : Cursor O → K → R → Prop
  | .live _, _, _ => True
  | .snapshot c, _, r => c.done = false → reaches job c.key r

def Holds (held : HeldChanges K (Cursor O) R) (k : K) : Prop := ∃ e ∈ held.byKey, e.1 = some k

/-- What has been heard and is yet to be handed on. -/
structure Holding (job : Job K R O) (v : View K R) (held : HeldChanges K (Cursor O) R) : Prop where
  column : held.keyColumn ≠ none
  keyed : ∀ e ∈ held.byKey, e.1 = some (job.key e.2.row)
  distinct : held.byKey.Pairwise fun a b => a.1 ≠ b.1
  foreign : ∀ e ∈ held.byKey, job.own (job.key e.2.row) = false
  single : ∀ e ∈ held.byKey, ∀ k, (e.2.write job.key).touches k ↔ job.key e.2.row = k
  latest : ∀ e ∈ held.byKey, Untouched v.ws v.heard (job.key e.2.row) →
    v.source (job.key e.2.row) = (e.2.write job.key).image

/-- The reader: the rows up to the page's cursor are level; and a row no entry has written since is
level, in the page, or behind the next one's cursor. -/
structure Scans (job : Job K R O) (v : View K R) (rd : Scan R O) : Prop where
  pageUpTo : ∀ k, v.scope k →
    SettledAt v.ws v.d v.since (fun _ r => behind job.place rd.cursor r = false) k
  asRead : ∀ x ∈ rd.page, v.scope (job.key x) → Untouched v.ws v.since (job.key x) →
    v.source (job.key x) = some x
  covers : ∀ r, v.scope (job.key r) → Untouched v.ws v.since (job.key r) →
    v.source (job.key r) = some r →
    v.d (job.key r) = some r ∨ r ∈ rd.page ∨ ∃ c ∈ rd.next, behind job.place c r = true
  asked : ∀ t ∈ rd.asked, v.since ≤ t ∧ rd.page = []

structure Copies (job : Job K R O) (v : View K R) (c : Copying R O)
    (held : HeldChanges K (Cursor O) R) : Prop where
  paging : c.paging = .cursor
  holding : Holding job v held
  unheard : ∀ k, job.own k = false → Untouched v.ws v.heard k → ¬ Holds held k →
    Untouched v.ws v.since k
  marked : ∀ k, v.scope k → SettledAt v.ws v.d v.since (fun _ r => reaches job c.key r) k
  reads : ∀ rd, c.reader = some rd → Scans job v rd

/-- What is not held is level. -/
def LevelBut (v : View K R) (held : K → Prop) : Prop :=
  ∀ k, v.scope k → ¬ held k → SettledAt v.ws v.d v.heard allSeen k

/-- A cursor of the copy, and what is level at it. -/
def OfCopy (job : Job K R O) (v : View K R) : Cursor O → Prop
  | .live _ => False
  | .snapshot s => s.done = false ∧
    ∀ k, v.scope k → SettledAt v.ws v.d v.since (fun _ r => reaches job s.key r) k

def AtPhase (job : Job K R O) (v : View K R) (cursors : List (Cursor O)) : Phase K R O → Prop
  | .stopped => ∀ b ∈ cursors, ∀ k, v.scope k → SettledAt v.ws v.d v.heard (seenBy job b) k
  | .copying c held => Copies job v c held ∧ ∀ b ∈ cursors, OfCopy job v b
  | .draining held => Holding job v held ∧ LevelBut v (Holds held)
  | .live => LevelBut v fun _ => False

/-- The changes handed over, and behind them the ones held. -/
def queue (w : World K R O) : List (CdcChange (Cursor O) R) := w.out ++ w.phase.held.map (·.2)

structure InStep (job : Job K R O) (w : World K R O) : Prop where
  ordered : w.since ≤ w.heard ∧ w.heard ≤ w.log.length
  past : ∀ i ∈ w.heardAt, i < w.heard
  queued : (entries (queue w)).Pairwise (· < ·) ∧ ∀ i ∈ entries (queue w), i < w.heard
  delivered : ∀ i ∈ w.heardAt, ∀ e, w.log[i]? = some e →
    ∃ j e', i ≤ j ∧ w.log[j]? = some e' ∧ job.key e'.row = job.key e.row ∧
      heardChange j e' ∈ queue w
  phase : AtPhase job (viewOf job w) (w.persisted.toList ++ w.handed) w.phase

/-! ### The log grows -/

section Steps

variable {v : View K R} {w : Write K R}

theorem source_commit {n : Nat} {k : K} (hn : n ≤ v.ws.length)
    (hk : Untouched (v.commit w).ws n k) : (v.commit w).source k = v.source k :=
  replay_of_untouched_append hk hn

theorem Holding.commit {held : HeldChanges K (Cursor O) R} (h : Holding job v held)
    (hn : v.heard ≤ v.ws.length) (w : Write K R) : Holding job (v.commit w) held :=
  { h with latest := fun e he hk => (source_commit hn hk).trans (h.latest e he hk.of_append) }

theorem Scans.commit {rd : Scan R O} (h : Scans job v rd) (hn : v.since ≤ v.ws.length)
    (w : Write K R) : Scans job (v.commit w) rd where
  pageUpTo k hk := (h.pageUpTo k hk).grow hn [w]
  asRead x hx hs hk := (source_commit hn hk).trans (h.asRead x hx hs hk.of_append)
  covers r hs hk hr := h.covers r hs hk.of_append ((source_commit hn hk).symm.trans hr)
  asked := h.asked

theorem Copies.commit {c : Copying R O} {held : HeldChanges K (Cursor O) R}
    (h : Copies job v c held) (hs : v.since ≤ v.ws.length) (hn : v.heard ≤ v.ws.length)
    (w : Write K R) : Copies job (v.commit w) c held where
  paging := h.paging
  holding := h.holding.commit hn w
  unheard k ho hk hh := by
    have last : ∀ u ∈ [w], ¬ u.touches k := hk.of_append_right hn
    exact (h.unheard k ho hk.of_append hh).append last
  marked k hk := (h.marked k hk).grow hs [w]
  reads rd hrd := (h.reads rd hrd).commit hs w

theorem AtPhase.commit {cursors : List (Cursor O)} {p : Phase K R O}
    (h : AtPhase job v cursors p) (hs : v.since ≤ v.ws.length) (hn : v.heard ≤ v.ws.length)
    (w : Write K R) : AtPhase job (v.commit w) cursors p := by
  cases p with
  | stopped => exact fun b hb k hk => (h b hb k hk).grow hn [w]
  | copying c held =>
    refine ⟨h.1.commit hs hn w, fun b hb => ?_⟩
    have := h.2 b hb
    cases b with
    | live n => exact this
    | snapshot s => exact ⟨this.1, fun k hk => (this.2 k hk).grow hs [w]⟩
  | draining held => exact ⟨h.1.commit hn w, fun k hk hh => (h.2 k hk hh).grow hn [w]⟩
  | live => exact fun k hk hh => (h k hk hh).grow hn [w]

/-! ### The stream is past an entry -/

omit [DecidableEq K] in
/-- A key the entry did not write is as untouched as it was. -/
theorem unhear {k : K} (hw : v.ws[v.heard]? = some w) (ht : ¬ w.touches k)
    (hk : Untouched v.hear.ws v.hear.heard k) : Untouched v.ws v.heard k :=
  hk.of_succ hw ht

theorem Holding.pass {held : HeldChanges K (Cursor O) R} (h : Holding job v held)
    (hw : v.ws[v.heard]? = some w) (own : ∀ k, w.touches k → job.own k = true) :
    Holding job v.hear held := by
  refine { h with latest := fun e he hk => h.latest e he (unhear hw ?_ hk) }
  intro ht
  have := own _ ht
  rw [h.foreign e he] at this
  cases this

theorem LevelBut.pass {held : K → Prop} (h : LevelBut v held) (hw : v.ws[v.heard]? = some w)
    (own : ∀ k, w.touches k → ¬ v.scope k) : LevelBut v.hear held :=
  fun k hk hh => (h k hk hh).shift (unhear hw fun ht => own k ht hk)

/-! ### A change is held -/

theorem add_byKey (job : Job K R O) {held : HeldChanges K (Cursor O) R} (hc : held.keyColumn ≠ none)
    (c : CdcChange (Cursor O) R) :
    (held.add job.key c).byKey =
      held.byKey.filter (fun e => e.1 ≠ some (job.key c.row)) ++ [(some (job.key c.row), c)] ∧
    (held.add job.key c).keyColumn = held.keyColumn := by
  unfold HeldChanges.add
  cases h : held.keyColumn with
  | none => exact absurd h hc
  | some column => exact ⟨rfl, rfl⟩

theorem holds_add {held : HeldChanges K (Cursor O) R} (hc : held.keyColumn ≠ none)
    (c : CdcChange (Cursor O) R) (k : K) :
    Holds (held.add job.key c) k ↔ job.key c.row = k ∨ Holds held k := by
  unfold Holds
  rw [(add_byKey job hc c).1]
  constructor
  · rintro ⟨e, he, hk⟩
    rcases List.mem_append.mp he with old | new
    · exact Or.inr ⟨e, (List.mem_filter.mp old).1, hk⟩
    · obtain rfl := List.mem_singleton.mp new
      exact Or.inl (Option.some.inj hk)
  · intro h
    by_cases hk : job.key c.row = k
    · exact ⟨_, List.mem_append_right _ (List.mem_singleton.mpr rfl), congrArg some hk⟩
    · obtain ⟨e, he, hek⟩ := h.resolve_left hk
      refine ⟨e, List.mem_append_left _ (List.mem_filter.mpr ⟨he, ?_⟩), hek⟩
      simp [hek, Ne.symm hk]

variable {c : CdcChange (Cursor O) R}

theorem Holding.add {held : HeldChanges K (Cursor O) R} (h : Holding job v held)
    (hw : v.ws[v.heard]? = some (c.write job.key)) (own : job.own (job.key c.row) = false)
    (single : ∀ k, (c.write job.key).touches k ↔ job.key c.row = k) :
    Holding job v.hear (held.add job.key c) := by
  obtain ⟨hbyKey, hcolumn⟩ := add_byKey job h.column c
  have members : ∀ e ∈ (held.add job.key c).byKey,
      (e ∈ held.byKey ∧ e.1 ≠ some (job.key c.row)) ∨ e = (some (job.key c.row), c) := by
    intro e he
    rw [hbyKey] at he
    rcases List.mem_append.mp he with old | new
    · exact Or.inl ⟨(List.mem_filter.mp old).1, by simpa using (List.mem_filter.mp old).2⟩
    · exact Or.inr (List.mem_singleton.mp new)
  constructor
  · exact hcolumn ▸ h.column
  · intro e he
    rcases members e he with ⟨old, -⟩ | rfl
    · exact h.keyed e old
    · rfl
  · rw [hbyKey]
    refine List.pairwise_append.mpr ⟨h.distinct.filter _, List.pairwise_singleton _ _, ?_⟩
    intro a ha b hb
    obtain rfl := List.mem_singleton.mp hb
    simpa using (List.mem_filter.mp ha).2
  · intro e he
    rcases members e he with ⟨old, -⟩ | rfl
    · exact h.foreign e old
    · exact own
  · intro e he
    rcases members e he with ⟨old, -⟩ | rfl
    · exact h.single e old
    · exact single
  · intro e he hk
    rcases members e he with ⟨old, hne⟩ | rfl
    · refine h.latest e old (unhear hw ?_ hk)
      intro ht
      exact hne ((h.keyed e old).trans (congrArg some ((single _).mp ht).symm))
    · exact replay_of_untouched hw ((single _).mpr rfl) hk

theorem LevelBut.add {held : HeldChanges K (Cursor O) R} (h : LevelBut v (Holds held))
    (hcolumn : held.keyColumn ≠ none) (hw : v.ws[v.heard]? = some (c.write job.key))
    (single : ∀ k, (c.write job.key).touches k ↔ job.key c.row = k) :
    LevelBut v.hear (Holds (held.add job.key c)) := by
  intro k hk hh
  rw [holds_add hcolumn] at hh
  have other : ¬ (c.write job.key).touches k := fun ht => hh (Or.inl ((single k).mp ht))
  exact (h k hk fun old => hh (Or.inr old)).shift (unhear hw other)

theorem Copies.add {k : Copying R O} {held : HeldChanges K (Cursor O) R}
    (h : Copies job v k held) (hw : v.ws[v.heard]? = some (c.write job.key))
    (own : job.own (job.key c.row) = false)
    (single : ∀ k, (c.write job.key).touches k ↔ job.key c.row = k) :
    Copies job v.hear k (held.add job.key c) where
  paging := h.paging
  holding := h.holding.add hw own single
  unheard k' ho hk hh := by
    rw [holds_add h.holding.column] at hh
    have other : ¬ (c.write job.key).touches k' := fun ht => hh (Or.inl ((single k').mp ht))
    exact h.unheard k' ho (unhear hw other hk) fun old => hh (Or.inr old)
  marked := h.marked
  reads rd hrd := ⟨(h.reads rd hrd).pageUpTo, (h.reads rd hrd).asRead, (h.reads rd hrd).covers,
    (h.reads rd hrd).asked⟩

theorem Copies.pass {k : Copying R O} {held : HeldChanges K (Cursor O) R}
    (h : Copies job v k held) (hw : v.ws[v.heard]? = some w)
    (own : ∀ k, w.touches k → job.own k = true) : Copies job v.hear k held where
  paging := h.paging
  holding := h.holding.pass hw own
  unheard k' ho hk hh := by
    refine h.unheard k' ho (unhear hw ?_ hk) hh
    intro ht
    rw [own k' ht] at ho
    cases ho
  marked := h.marked
  reads rd hrd := ⟨(h.reads rd hrd).pageUpTo, (h.reads rd hrd).asRead, (h.reads rd hrd).covers,
    (h.reads rd hrd).asked⟩

/-! ### A change is handed on -/

/-- With the gate open, an entry is handed on as it is heard. -/
theorem LevelBut.handOn (h : LevelBut v fun _ => False) (hw : v.ws[v.heard]? = some w) :
    LevelBut (v.hear.put w) fun _ => False :=
  fun k hk hh => (h k hk hh).advance hw

/-- The oldest of the held changes is handed over, and its key is level. -/
theorem LevelBut.drain {held : HeldChanges K (Cursor O) R}
    {rest : List (Option K × CdcChange (Cursor O) R)} {e : Option K × CdcChange (Cursor O) R}
    (h : LevelBut v (Holds held)) (hh : Holding job v held) (hd : held.byKey = e :: rest) :
    LevelBut (v.put (e.2.write job.key)) (Holds { held with byKey := rest }) := by
  have he : e ∈ held.byKey := hd ▸ List.mem_cons_self
  intro k hk hrest
  by_cases ht : (e.2.write job.key).touches k
  · obtain rfl := (hh.single e he k).mp ht
    apply SettledAt.of_image
    intro hu
    exact (Write.apply_of_touches ht v.d).trans (hh.latest e he hu).symm
  · have before : ¬ Holds held k := by
      rintro ⟨e', he', hk'⟩
      rcases List.mem_cons.mp (hd ▸ he') with rfl | he'
      · have := (hh.keyed e' he).symm.trans hk'
        exact ht ((hh.single e' he k).mpr (Option.some.inj this))
      · exact hrest ⟨e', he', hk'⟩
    exact ((h k hk before).put fun ht' => absurd ht' ht).narrow fun _ _ => Or.inl trivial

theorem Holding.drain {held : HeldChanges K (Cursor O) R}
    {rest : List (Option K × CdcChange (Cursor O) R)} {e : Option K × CdcChange (Cursor O) R}
    (h : Holding job v held) (hd : held.byKey = e :: rest) (w : Write K R) :
    Holding job (v.put w) { held with byKey := rest } := by
  have sub : ∀ x ∈ rest, x ∈ held.byKey := fun x hx => hd ▸ List.mem_cons_of_mem e hx
  exact
    { column := h.column
      keyed := fun x hx => h.keyed x (sub x hx)
      distinct := (List.pairwise_cons.mp (hd ▸ h.distinct)).2
      foreign := fun x hx => h.foreign x (sub x hx)
      single := fun x hx => h.single x (sub x hx)
      latest := fun x hx => h.latest x (sub x hx) }

/-! ### The copy -/

omit [DecidableEq K] in
theorem writes_keyed (log : List (KeyChange R)) : Keyed job.key (job.writes log) := by
  intro k r h
  obtain ⟨⟨gone, row⟩, -, he⟩ := List.mem_map.mp h
  cases gone <;> cases he
  rfl

theorem Copies.begin {c : Copying R O} {held : HeldChanges K (Cursor O) R}
    (h : Copies job v c held) (index : Nat) :
    Scans job v
      { index := index, cursor := resumeCursor c.key, asked := none, page := []
        next := some (resumeCursor c.key) } := by
  have reached : ∀ r, behind job.place (resumeCursor c.key) r = false → reaches job c.key r := by
    intro r hr
    unfold resumeCursor at hr
    split at hr
    · next page hk => rwa [hk]
    · simp [behind] at hr
  constructor
  · exact fun k hk => (h.marked k hk).narrow reached
  · simp
  · intro r hs hk hr
    cases hb : behind job.place (resumeCursor c.key) r with
    | true => exact Or.inr (Or.inr ⟨_, rfl, hb⟩)
    | false => exact Or.inl ((h.marked _ hs).same r hk hr (reached r hb))
  · simp

theorem Scans.page {log : List (KeyChange R)} {rd : Scan R O} {rows : List R}
    {next cursor : Option O} {asked : Nat} (h : Scans job v rd) (hws : v.ws = job.writes log)
    (hasked : rd.asked = some asked) (hnext : rd.next = some cursor)
    (ha : job.Answers log asked cursor rows next) :
    Scans job v (job.takePage log .cursor rd cursor rows next) := by
  obtain ⟨hsince, hpage⟩ := h.asked asked hasked
  have table : ∀ r, r ∈ job.tableOf log ↔ v.source (job.key r) = some r := by
    intro r
    rw [View.source, hws]
    exact mem_rowsOf (writes_keyed log)
  have level : ∀ r, v.scope (job.key r) → Untouched v.ws v.since (job.key r) →
      v.source (job.key r) = some r → v.d (job.key r) = some r ∨ behind job.place cursor r = true := by
    intro r hs hk hr
    rcases h.covers r hs hk hr with done | hin | ⟨c, hc, hb⟩
    · exact Or.inl done
    · rw [hpage] at hin
      cases hin
    · obtain rfl : cursor = c := Option.some.inj (hnext.symm.trans hc)
      exact Or.inr hb
  constructor
  · intro k hk
    refine ⟨fun r hu hr hb => ?_, (h.pageUpTo k hk).gone⟩
    have hkey : job.key r = k := (hws ▸ writes_keyed log : Keyed job.key v.ws).key_of_replay hr
    subst hkey
    rcases level r hk hu hr with done | hbehind
    · exact done
    · exact absurd (hb.symm.trans hbehind) Bool.false_ne_true
  · intro x hx hs hk
    exact (table x).mp (ha.2 x hx (hws ▸ hk.mono hsince))
  · intro r hs hk hr
    rcases level r hs hk hr with done | hb
    · exact Or.inl done
    · right
      by_cases hin : ∀ c ∈ next, behind job.place (some c) r = false
      · exact Or.inl (ha.1 r ((table r).mpr hr) (hws ▸ hk.mono hsince) hb hin)
      · simp only [not_forall, Bool.not_eq_false] at hin
        obtain ⟨c, hc, hcb⟩ := hin
        exact Or.inr ⟨some c, Option.mem_map_of_mem some hc, hcb⟩
  · intro t ht
    cases ht

theorem Holding.put {held : HeldChanges K (Cursor O) R} (h : Holding job v held)
    (w : Write K R) : Holding job (v.put w) held :=
  { h with latest := h.latest }

/-- A row of the page is what the source has, if nothing has been written under its key since. -/
theorem Scans.right {rd : Scan R O} (h : Scans job v rd) {x : R} (hx : x ∈ rd.page) {k : K}
    (hs : v.scope k) (ht : (Write.upsert (job.key x) x).touches k) (hu : Untouched v.ws v.since k) :
    v.source k = (Write.upsert (job.key x) x).image := by
  obtain rfl : job.key x = k := ht
  exact h.asRead x hx hs hu

theorem Scans.hand {rd : Scan R O} {x : R} {rest : List R} (h : Scans job v rd)
    (hpage : rd.page = x :: rest) (i : Nat) :
    Scans job (v.put (.upsert (job.key x) x)) { rd with page := rest, index := i } := by
  have hx : x ∈ rd.page := hpage ▸ List.mem_cons_self
  constructor
  · exact fun k hk => ((h.pageUpTo k hk).put fun ht => h.right hx hk ht).narrow fun _ => Or.inl
  · exact fun y hy => h.asRead y (hpage ▸ List.mem_cons_of_mem x hy)
  · intro r hs hk hr
    show (Write.upsert (job.key x) x).apply v.d (job.key r) = some r ∨ _
    by_cases ht : (Write.upsert (job.key x) x).touches (job.key r)
    · rw [Write.apply_of_touches ht, ← h.right hx hs ht hk]
      exact Or.inl hr
    · rw [Write.apply_of_not_touches ht]
      rcases h.covers r hs hk hr with done | hin | later
      · exact Or.inl done
      · rcases List.mem_cons.mp (hpage ▸ hin) with rfl | hin
        · exact absurd rfl ht
        · exact Or.inr (Or.inl hin)
      · exact Or.inr (Or.inr later)
  · intro t ht
    have := (h.asked t ht).2
    rw [hpage] at this
    cases this

/-- One of Syncle's own keys is left out. -/
theorem Scans.leaveOut {rd : Scan R O} {x : R} {rest : List R} (h : Scans job v rd)
    (hpage : rd.page = x :: rest) (hx : ¬ v.scope (job.key x)) :
    Scans job v { rd with page := rest } := by
  constructor
  · exact h.pageUpTo
  · exact fun y hy => h.asRead y (hpage ▸ List.mem_cons_of_mem x hy)
  · intro r hs hk hr
    rcases h.covers r hs hk hr with done | hin | later
    · exact Or.inl done
    · rcases List.mem_cons.mp (hpage ▸ hin) with rfl | hin
      · exact absurd hs hx
      · exact Or.inr (Or.inl hin)
    · exact Or.inr (Or.inr later)
  · intro t ht
    have := (h.asked t ht).2
    rw [hpage] at this
    cases this

/-- The end of the copy: what is not held is level. -/
theorem Copies.all {c : Copying R O} {held : HeldChanges K (Cursor O) R} {rd : Scan R O}
    (h : Copies job v c held) (hrd : c.reader = some rd) (hpage : rd.page = [])
    (hnext : rd.next = none) (keyed : Keyed job.key v.ws)
    (inScope : ∀ k, v.scope k → job.own k = false) : LevelBut v (Holds held) := by
  intro k hk hh
  have scan := h.reads rd hrd
  have all : SettledAt v.ws v.d v.since allSeen k := by
    refine ⟨fun r hu hr _ => ?_, (scan.pageUpTo k hk).gone⟩
    have hkey : job.key r = k := keyed.key_of_replay hr
    subst hkey
    rcases scan.covers r hk hu hr with done | hin | ⟨c', hc', -⟩
    · exact done
    · rw [hpage] at hin
      cases hin
    · rw [hnext] at hc'
      cases hc'
  exact all.shift fun hu => h.unheard k (inScope k hk) hu hh

end Steps

/-!
## The whole step

The pieces above, put together for each rule of `Moves`: what is heard, handed on, drained and copied
moves the borders between them, and no key loses its newest version.
-/

section Worlds

variable {w w' : World K R O} {e : KeyChange R}

omit [DecidableEq K] [LinearOrder O] in
@[simp] theorem entries_append (l₁ l₂ : List (CdcChange (Cursor O) R)) :
    entries (l₁ ++ l₂) = entries l₁ ++ entries l₂ :=
  List.filterMap_append

omit [DecidableEq K] in
theorem length_writes (log : List (KeyChange R)) : (job.writes log).length = log.length := by
  simp [Job.writes]

omit [DecidableEq K] in
theorem writes_at (job : Job K R O) (he : w.log[w.heard]? = some e) :
    (job.writes w.log)[w.heard]? = some ((heardChange (O := O) w.heard e).write job.key) := by
  simp [Job.writes, he, heardChange, CdcChange.write]

omit [DecidableEq K] in
theorem heardChange_single (job : Job K R O) (n : Nat) (e : KeyChange R) (k : K) :
    ((heardChange (O := O) n e).write job.key).touches k ↔ job.key e.row = k := by
  obtain ⟨gone, row⟩ := e
  cases gone <;> rfl

/-- A step that hears nothing, and leaves in the queue what was in it. -/
theorem InStep.quiet (h : InStep job w) (hlog : w'.log = w.log) (hsince : w'.since = w.since)
    (hheard : w'.heard = w.heard) (hat : w'.heardAt = w.heardAt)
    (hentries : entries (queue w') = entries (queue w)) (hsub : queue w ⊆ queue w')
    (phase : AtPhase job (viewOf job w') (w'.persisted.toList ++ w'.handed) w'.phase) :
    InStep job w' where
  ordered := by
    rw [hsince, hheard, hlog]
    exact h.ordered
  past := by
    rw [hat, hheard]
    exact h.past
  queued := by
    rw [hentries, hheard]
    exact h.queued
  delivered := by
    rw [hat, hlog]
    intro i hi e he
    obtain ⟨j, e', hij, he', hkey, hin⟩ := h.delivered i hi e he
    exact ⟨j, e', hij, he', hkey, hsub hin⟩
  phase := phase

theorem InStep.goto (h : InStep job w) {p : Phase K R O} (hheld : p.held = w.phase.held)
    (hp : AtPhase job (viewOf job w) (w.persisted.toList ++ w.handed) p) :
    InStep job (w.goto p) := by
  have same : queue (w.goto p) = queue w := by
    show w.out ++ p.held.map (·.2) = _
    rw [hheld]
    rfl
  exact h.quiet rfl rfl rfl rfl (congrArg entries same) (same ▸ List.Subset.refl _) hp

/-- A change is heard: it is in the queue, behind everything else, and what it took out of it was a
change of its own key. -/
theorem InStep.hears (h : InStep job w) (he : w.log[w.heard]? = some e) (hlog : w'.log = w.log)
    (hsince : w'.since = w.since) (hheard : w'.heard = w.heard + 1)
    (hat : w'.heardAt = w.heardAt ++ [w.heard])
    (sub : List.Sublist (queue w') (queue w ++ [heardChange w.heard e]))
    (new : heardChange w.heard e ∈ queue w')
    (kept : ∀ c ∈ queue w, c ∈ queue w' ∨ job.key c.row = job.key e.row)
    (phase : AtPhase job (viewOf job w') (w'.persisted.toList ++ w'.handed) w'.phase) :
    InStep job w' := by
  have there : w.heard < w.log.length := (List.getElem?_eq_some_iff.mp he).1
  have appended : entries (queue w ++ [heardChange w.heard e]) = entries (queue w) ++ [w.heard] :=
    entries_append _ _
  have subEntries : List.Sublist (entries (queue w')) (entries (queue w) ++ [w.heard]) :=
    appended ▸ sub.filterMap _
  refine ⟨?_, ?_, ⟨?_, ?_⟩, ?_, phase⟩
  · rw [hsince, hheard, hlog]
    exact ⟨Nat.le_succ_of_le h.ordered.1, there⟩
  · rw [hat, hheard]
    intro i hi
    rcases List.mem_append.mp hi with old | new
    · exact Nat.lt_succ_of_lt (h.past i old)
    · exact List.mem_singleton.mp new ▸ Nat.lt_succ_self _
  · refine List.Pairwise.sublist subEntries ?_
    refine List.pairwise_append.mpr ⟨h.queued.1, List.pairwise_singleton _ _, ?_⟩
    intro i hi j hj
    exact List.mem_singleton.mp hj ▸ h.queued.2 i hi
  · rw [hheard]
    intro i hi
    rcases List.mem_append.mp (subEntries.subset hi) with old | new
    · exact Nat.lt_succ_of_lt (h.queued.2 i old)
    · exact List.mem_singleton.mp new ▸ Nat.lt_succ_self _
  · rw [hat, hlog]
    intro i hi e₀ he₀
    rcases List.mem_append.mp hi with old | now
    · obtain ⟨j, e', hij, he', hkey, hin⟩ := h.delivered i old e₀ he₀
      rcases kept _ hin with stays | same
      · exact ⟨j, e', hij, he', hkey, stays⟩
      · exact ⟨w.heard, e, (h.past i old).le, he, same.symm.trans hkey, new⟩
    · obtain rfl := List.mem_singleton.mp now
      obtain rfl : e = e₀ := Option.some.inj (he.symm.trans he₀)
      exact ⟨w.heard, e, le_rfl, he, rfl, new⟩

theorem viewOf_commit (e : KeyChange R) :
    viewOf job { w with log := w.log ++ [e] } =
      (viewOf job w).commit (e.op.write (job.key e.row) e.row) := by
  have : job.writes (w.log ++ [e]) = job.writes w.log ++ [e.op.write (job.key e.row) e.row] := by
    simp [Job.writes]
  unfold viewOf View.commit
  rw [this]
  rfl

theorem InStep.commit (h : InStep job w) (e : KeyChange R) :
    InStep job { w with log := w.log ++ [e] } := by
  have length : (viewOf job w).ws.length = w.log.length := length_writes _
  have longer : w.log.length ≤ (w.log ++ [e]).length := by simp
  have earlier : ∀ (j : Nat) (e' : KeyChange R),
      w.log[j]? = some e' → (w.log ++ [e])[j]? = some e' := by
    intro j e' hj
    rw [List.getElem?_append_left (List.getElem?_eq_some_iff.mp hj).1]
    exact hj
  refine ⟨⟨h.ordered.1, h.ordered.2.trans longer⟩, h.past, h.queued, ?_, ?_⟩
  · intro i hi e₀ he₀
    have hi' : i < w.log.length := (h.past i hi).trans_le h.ordered.2
    rw [List.getElem?_append_left hi'] at he₀
    obtain ⟨j, e', hij, he', hkey, hin⟩ := h.delivered i hi e₀ he₀
    exact ⟨j, e', hij, earlier j e' he', hkey, hin⟩
  · rw [viewOf_commit]
    exact h.phase.commit (length.symm ▸ h.ordered.1.trans h.ordered.2) (length.symm ▸ h.ordered.2) _

theorem InStep.pass (h : InStep job w) (he : w.log[w.heard]? = some e)
    (own : job.own (job.key e.row) = true) (hl : w.phase.listening = true) :
    InStep job w.pass := by
  have hw := writes_at job he
  have single := heardChange_single job w.heard e
  have owned : ∀ k, ((heardChange (O := O) w.heard e).write job.key).touches k →
      job.own k = true := fun k ht => (single k).mp ht ▸ own
  have outside : ∀ k, ((heardChange (O := O) w.heard e).write job.key).touches k →
      ¬ (viewOf job w).scope k := by
    intro k ht hs
    exact absurd ((owned k ht).symm.trans hs.2) Bool.false_ne_true.symm
  refine ⟨⟨Nat.le_succ_of_le h.ordered.1, ?_⟩, ?_, ⟨h.queued.1, ?_⟩, h.delivered, ?_⟩
  · exact (List.getElem?_eq_some_iff.mp he).1
  · exact fun i hi => Nat.lt_succ_of_lt (h.past i hi)
  · exact fun i hi => Nat.lt_succ_of_lt (h.queued.2 i hi)
  · have phase := h.phase
    show AtPhase job (viewOf job w).hear (w.persisted.toList ++ w.handed) w.phase
    cases hp : w.phase with
    | stopped => simp [hp, Phase.listening] at hl
    | copying c held =>
      rw [hp] at phase
      exact ⟨phase.1.pass hw owned, phase.2⟩
    | draining held =>
      rw [hp] at phase
      exact ⟨phase.1.pass hw owned, phase.2.pass hw outside⟩
    | live =>
      rw [hp] at phase
      exact LevelBut.pass phase hw outside

/-- What holding a change does to the queue. -/
theorem queue_hold {held : HeldChanges K (Cursor O) R} (hheld : w.phase.held = held.byKey)
    (h : Holding job (viewOf job w) held) {p : Phase K R O}
    (hp : p.held = (held.add job.key (heardChange w.heard e)).byKey) :
    List.Sublist (queue (w.hears.goto p)) (queue w ++ [heardChange w.heard e]) ∧
      heardChange w.heard e ∈ queue (w.hears.goto p) ∧
        ∀ c ∈ queue w, c ∈ queue (w.hears.goto p) ∨ job.key c.row = job.key e.row := by
  have after : queue (w.hears.goto p) = w.out ++
      ((held.byKey.filter fun x => x.1 ≠ some (job.key e.row)).map (·.2) ++
        [heardChange w.heard e]) := by
    show w.out ++ p.held.map (·.2) = _
    rw [hp, (add_byKey job h.column _).1, List.map_append]
    rfl
  have before : queue w = w.out ++ held.byKey.map (·.2) := by
    show w.out ++ w.phase.held.map (·.2) = _
    rw [hheld]
  rw [after, before]
  refine ⟨?_, by simp, ?_⟩
  · rw [List.append_assoc]
    refine List.Sublist.append (List.Sublist.refl _) (List.Sublist.append ?_ (List.Sublist.refl _))
    exact List.filter_sublist.map _
  · intro c hc
    rcases List.mem_append.mp hc with out | inHeld
    · exact Or.inl (List.mem_append_left _ out)
    · obtain ⟨x, hx, rfl⟩ := List.mem_map.mp inHeld
      by_cases hk : x.1 = some (job.key e.row)
      · exact Or.inr (Option.some.inj ((h.keyed x hx).symm.trans hk))
      · left
        refine List.mem_append_right _ (List.mem_append_left _ ?_)
        exact List.mem_map_of_mem (List.mem_filter.mpr ⟨hx, by simpa using hk⟩)

theorem InStep.copying (h : InStep job w) {c : Copying R O} {held : HeldChanges K (Cursor O) R}
    (hp : w.phase = .copying c held) : Copies job (viewOf job w) c held ∧
      ∀ b ∈ w.persisted.toList ++ w.handed, OfCopy job (viewOf job w) b := by
  have := h.phase
  rwa [hp] at this

theorem InStep.draining (h : InStep job w) {held : HeldChanges K (Cursor O) R}
    (hp : w.phase = .draining held) :
    Holding job (viewOf job w) held ∧ LevelBut (viewOf job w) (Holds held) := by
  have := h.phase
  rwa [hp] at this

theorem InStep.holdsCopying (h : InStep job w) {c : Copying R O}
    {held : HeldChanges K (Cursor O) R} (he : w.log[w.heard]? = some e)
    (own : job.own (job.key e.row) = false) (hp : w.phase = .copying c held) :
    InStep job (w.hears.goto (.copying c (held.add job.key (heardChange w.heard e)))) := by
  obtain ⟨copies, cursors⟩ := h.copying hp
  have hw := writes_at job he
  obtain ⟨sub, new, kept⟩ := queue_hold (e := e) (by rw [hp]; rfl) copies.holding
    (p := .copying c (held.add job.key (heardChange w.heard e))) rfl
  exact h.hears he rfl rfl rfl rfl sub new kept
    ⟨copies.add hw own (heardChange_single job _ _), cursors⟩

theorem InStep.holdsDraining (h : InStep job w) {held : HeldChanges K (Cursor O) R}
    (he : w.log[w.heard]? = some e) (own : job.own (job.key e.row) = false)
    (hp : w.phase = .draining held) :
    InStep job (w.hears.goto (.draining (held.add job.key (heardChange w.heard e)))) := by
  obtain ⟨holding, level⟩ := h.draining hp
  have hw := writes_at job he
  have single := heardChange_single job w.heard e
  obtain ⟨sub, new, kept⟩ := queue_hold (e := e) (by rw [hp]; rfl) holding
    (p := .draining (held.add job.key (heardChange w.heard e))) rfl
  exact h.hears he rfl rfl rfl rfl sub new kept
    ⟨holding.add hw own single, level.add holding.column hw single⟩

theorem viewOf_emit (c : CdcChange (Cursor O) R) :
    viewOf job (w.emit c) = (viewOf job w).put (c.write job.key) := by
  have applied : job.dest (w.emit c) = (c.write job.key).apply (job.dest w) := folded_snoc _ _ _
  show View.mk _ (job.dest (w.emit c)) _ _ _ = _
  rw [applied]
  rfl

theorem InStep.handsOn (h : InStep job w) (he : w.log[w.heard]? = some e) (hp : w.phase = .live) :
    InStep job (w.hears.emit (heardChange w.heard e)) := by
  have phase : LevelBut (viewOf job w) fun _ => False := by
    have := h.phase
    rwa [hp] at this
  have after : queue (w.hears.emit (heardChange w.heard e)) = queue w ++ [heardChange w.heard e] := by
    show (w.out ++ [_]) ++ w.phase.held.map (·.2) = (w.out ++ w.phase.held.map (·.2)) ++ [_]
    rw [hp]
    simp [Phase.held]
  refine h.hears he rfl rfl rfl rfl (after ▸ List.Sublist.refl _) (after ▸ by simp)
    (fun c hc => Or.inl (after ▸ List.mem_append_left _ hc)) ?_
  rw [viewOf_emit]
  show AtPhase job _ _ w.phase
  rw [hp]
  exact phase.handOn (writes_at job he)

theorem InStep.drain (h : InStep job w) {held : HeldChanges K (Cursor O) R} {k : Option K}
    {c : CdcChange (Cursor O) R} {rest : List (Option K × CdcChange (Cursor O) R)}
    (hp : w.phase = .draining held) (hh : held.byKey = (k, c) :: rest) :
    InStep job ((w.emit c).goto (.draining { held with byKey := rest })) := by
  obtain ⟨holding, level⟩ := h.draining hp
  have same : queue ((w.emit c).goto (.draining { held with byKey := rest })) = queue w := by
    show (w.out ++ [c]) ++ rest.map (·.2) = w.out ++ w.phase.held.map (·.2)
    rw [hp]
    simp [Phase.held, hh]
  refine h.quiet rfl rfl rfl rfl (congrArg entries same) (same ▸ List.Subset.refl _) ?_
  show AtPhase job (viewOf job (w.emit c)) _ _
  rw [viewOf_emit]
  exact ⟨holding.drain hh _, level.drain holding hh⟩

/-- The read begins, asks for a page, takes one or begins again: the copy is where it was. -/
theorem InStep.reread (h : InStep job w) {c : Copying R O} {held : HeldChanges K (Cursor O) R}
    (hp : w.phase = .copying c held) {failures : Nat} {reader : Option (Scan R O)}
    (reads : ∀ rd, reader = some rd → Scans job (viewOf job w) rd) :
    InStep job (w.goto (.copying { c with failures := failures, reader := reader } held)) := by
  obtain ⟨⟨paging, holding, unheard, marked, -⟩, cursors⟩ := h.copying hp
  refine h.goto ?_ ⟨⟨paging, holding, unheard, marked, reads⟩, cursors⟩
  rw [hp]
  rfl

/-- What a row of the page writes is right about the keys nothing has written since, so whatever was
level stays level. -/
theorem Scans.put {v : View K R} {rd : Scan R O} (h : Scans job v rd) {x : R} (hx : x ∈ rd.page)
    {k : K} {seen : K → R → Prop} (hk : v.scope k) (level : SettledAt v.ws v.d v.since seen k) :
    SettledAt v.ws ((Write.upsert (job.key x) x).apply v.d) v.since seen k :=
  (level.put fun ht => h.right hx hk ht).narrow fun _ => Or.inl

theorem InStep.handRow (h : InStep job w) {c : Copying R O} {held : HeldChanges K (Cursor O) R}
    {rd : Scan R O} {x : R} {rest : List R} (hp : w.phase = .copying c held)
    (hrd : c.reader = some rd) (hpage : rd.page = x :: rest) :
    InStep job (job.handRow w c held rd x rest) := by
  obtain ⟨⟨paging, holding, unheard, marked, reads⟩, cursors⟩ := h.copying hp
  have scans := reads rd hrd
  have hx : x ∈ rd.page := hpage ▸ List.mem_cons_self
  unfold Job.handRow
  split
  · next own =>
    refine h.reread hp fun rd' hrd' => ?_
    obtain rfl := Option.some.inj hrd'
    exact scans.leaveOut hpage fun hs => absurd (own.2.symm.trans hs.2) Bool.false_ne_true.symm
  · have upTo := fun k hk => scans.put hx hk (scans.pageUpTo k hk)
    refine h.quiet rfl rfl rfl rfl ?_ ?_ ?_
    · show entries ((w.out ++ [_]) ++ held.byKey.map (·.2)) =
        entries (w.out ++ w.phase.held.map (·.2))
      rw [hp]
      simp [entries, Phase.held]
    · intro y hy
      have hy : y ∈ w.out ++ w.phase.held.map (·.2) := hy
      rw [hp] at hy
      show y ∈ (w.out ++ [_]) ++ held.byKey.map (·.2)
      rcases List.mem_append.mp hy with out | inHeld
      · exact List.mem_append_left _ (List.mem_append_left _ out)
      · exact List.mem_append_right _ inHeld
    · let row : CdcChange (Cursor O) R :=
        { op := .insert, row := x
          cursor := .snapshot
            { index := rd.index, key := some (.cursor rd.cursor), streamFrom := (), done := false } }
      show AtPhase job (viewOf job (w.emit row)) (w.persisted.toList ++ (w.handed ++ [row.cursor])) _
      rw [viewOf_emit]
      refine ⟨⟨paging, holding.put _, unheard, upTo, ?_⟩, ?_⟩
      · intro rd' hrd'
        obtain rfl := Option.some.inj hrd'
        exact scans.hand hpage _
      · intro b hb
        rw [← List.append_assoc] at hb
        rcases List.mem_append.mp hb with old | new
        · have := cursors b old
          cases b with
          | live n => exact this
          | snapshot s => exact ⟨this.1, fun k hk => scans.put hx hk (this.2 k hk)⟩
        · obtain rfl := List.mem_singleton.mp new
          exact ⟨rfl, upTo⟩

theorem InStep.endCopy (h : InStep job w) {c : Copying R O} {held : HeldChanges K (Cursor O) R}
    {rd : Scan R O} (hp : w.phase = .copying c held) (hrd : c.reader = some rd)
    (hpage : rd.page = []) (hnext : rd.next = none) : InStep job (w.endCopy c held) := by
  obtain ⟨copies, -⟩ := h.copying hp
  have same : queue (w.endCopy c held) = queue w := by
    show w.out ++ held.byKey.map (·.2) = w.out ++ w.phase.held.map (·.2)
    rw [hp]
    rfl
  refine h.quiet rfl rfl rfl rfl (congrArg entries same) (same ▸ List.Subset.refl _) ?_
  exact ⟨copies.holding, copies.all hrd hpage hnext (writes_keyed _) fun k hk => hk.2⟩

theorem AtPhase.of_subset {v : View K R} {cs cs' : List (Cursor O)} {p : Phase K R O}
    (h : AtPhase job v cs p) (hsub : ∀ b ∈ cs', b ∈ cs) : AtPhase job v cs' p := by
  cases p with
  | stopped => exact fun b hb => h b (hsub b hb)
  | copying c held => exact ⟨h.1, fun b hb => h.2 b (hsub b hb)⟩
  | draining held => exact h
  | live => exact h

theorem InStep.persist (h : InStep job w) {n : Nat} {c : Cursor O} (hc : w.handed[n]? = some c) :
    InStep job { w with persisted := some c } := by
  refine h.quiet rfl rfl rfl rfl rfl (List.Subset.refl _) (h.phase.of_subset fun b hb => ?_)
  rcases List.mem_append.mp hb with stored | handed
  · obtain rfl : c = b := Option.some.inj (Option.mem_toList.mp stored)
    exact List.mem_append_right _ (List.mem_of_getElem? hc)
  · exact List.mem_append_right _ handed

/-- **A stop with nothing held**: what is level at a cursor stays level while nothing listens. -/
theorem InStep.stop (h : InStep job w) (hheld : w.phase.held = []) :
    InStep job (w.goto .stopped) := by
  refine h.goto (p := .stopped) hheld.symm fun b hb k hk => ?_
  have phase := h.phase
  cases hp : w.phase with
  | stopped =>
    rw [hp] at phase
    exact phase b hb k hk
  | copying c held =>
    rw [hp] at phase hheld
    have hheld : held.byKey = [] := hheld
    have level := phase.2 b hb
    have none_held : ¬ Holds held k := by simp [Holds, hheld]
    cases b with
    | live n => exact level.elim
    | snapshot s =>
      refine ((level.2 k hk).shift fun hu => phase.1.unheard k hk.2 hu none_held).narrow ?_
      exact fun r hr => hr level.1
  | draining held =>
    rw [hp] at phase hheld
    have hheld : held.byKey = [] := hheld
    exact (phase.2 k hk (by simp [Holds, hheld])).narrow fun _ _ => trivial
  | live =>
    rw [hp] at phase
    exact (phase k hk id).narrow fun _ _ => trivial

omit [DecidableEq K] in
/-- The order a keyspace is copied in, when it is not by OFFSET. -/
theorem scanOrder (paged : ¬ job.source.ReadByOffset) {o : TableOrder}
    (ho : job.source.copyOrder = some o) : o.paging = .cursor ∧ o.keysetColumn ≠ none := by
  obtain ⟨hcursor, hpk⟩ := job.scanned
  have notOwn : job.source.ownOrder = false := by
    simpa [TableSource.ReadByOffset, hcursor] using paged
  obtain ⟨hr, quiet⟩ := TableSource.copyOrder_eq_some.mp ho
  rcases resolveOrder_cases hr quiet with ⟨-, rfl⟩ | ⟨hc, -, -⟩ | ⟨c, cs, hc, -, -, -⟩
  · rw [cursorOrder_paging]
    simp [cursorOrder, notOwn, TableSource.singlePk, hpk]
  · exact absurd (hcursor.symm.trans hc) Bool.false_ne_true.symm
  · exact absurd (hcursor.symm.trans hc) Bool.false_ne_true.symm

/-- What the stored cursor stands for is level, of the keys nothing went unheard of, also at the
moment the stream is opened again. -/
theorem InStep.reopened (h : InStep job w) (hp : w.phase = .stopped) {b : Cursor O}
    (hb : w.persisted = some b) (p : Phase K R O) {k : K} (hk : (viewOf job (job.listen w p)).scope k) :
    SettledAt (job.writes w.log) (job.dest w) w.log.length (seenBy job b) k := by
  have phase := h.phase
  rw [hp] at phase
  have missed : (job.listen w p).missed =
      w.missed ++ (w.log.drop w.heard).map fun e => job.key e.row := by
    simp [Job.listen, hb]
  obtain ⟨hmissed, own⟩ := hk
  rw [missed, List.mem_append, not_or] at hmissed
  have untouched : Untouched (job.writes w.log) w.heard k := by
    intro u hu ht
    rw [Job.writes, ← List.map_drop] at hu
    obtain ⟨e, he, rfl⟩ := List.mem_map.mp hu
    exact hmissed.2 (List.mem_map.mpr
      ⟨e, he, (heardChange_single job 0 e k).mp ht⟩)
  exact (phase b (by simp [hb]) k ⟨hmissed.1, own⟩).shift fun _ => untouched

theorem InStep.listen (h : InStep job w) (hp : w.phase = .stopped) {p : Phase K R O}
    (hheld : p.held = [])
    (phase : AtPhase job (viewOf job (job.listen w p)) w.persisted.toList p) :
    InStep job (job.listen w p) := by
  have same : queue (job.listen w p) = queue w := by
    show w.out ++ p.held.map (·.2) = w.out ++ w.phase.held.map (·.2)
    rw [hp, hheld]
    rfl
  refine ⟨⟨le_rfl, le_rfl⟩, ?_, ?_, ?_, phase.of_subset fun b hb => ?_⟩
  · exact fun i hi => (h.past i hi).trans_le h.ordered.2
  · rw [same]
    exact ⟨h.queued.1, fun i hi => (h.queued.2 i hi).trans_le h.ordered.2⟩
  · rw [same]
    exact h.delivered
  · rcases List.mem_append.mp hb with hb | hb <;> exact hb

theorem InStep.start (h : InStep job w) (paged : ¬ job.source.ReadByOffset)
    (resumes : w.persisted = none → w.out = []) (hp : w.phase = .stopped)
    (hv : job.startStream w = some w') : InStep job w' := by
  -- the copy starts, or goes on, with nothing held and nothing read
  have copies : ∀ (o : TableOrder) (next : Nat) (key : Option (Checkpoint O)),
      job.source.copyOrder = some o →
      (∀ p k, (viewOf job (job.listen w p)).scope k →
        SettledAt (job.writes w.log) (job.dest w) w.log.length (fun _ r => reaches job key r) k) →
      (∀ p, ∀ b ∈ w.persisted.toList, OfCopy job (viewOf job (job.listen w p)) b) →
      InStep job (job.listen w (.copying
        { paging := o.paging, next := next, key := key, failures := 0, reader := none }
        (HeldChanges.empty o.keysetColumn))) := by
    intro o next key ho marked cursors
    obtain ⟨hpaging, hcolumn⟩ := scanOrder paged ho
    refine h.listen hp rfl ⟨⟨hpaging, ?_, fun _ _ hu _ => hu, marked _, fun _ hrd => ?_⟩, cursors _⟩
    · exact
        { column := hcolumn
          keyed := by simp [HeldChanges.empty]
          distinct := List.Pairwise.nil
          foreign := by simp [HeldChanges.empty]
          single := by simp [HeldChanges.empty]
          latest := by simp [HeldChanges.empty] }
    · cases hrd
  unfold Job.startStream at hv
  cases hs : w.persisted with
  | none =>
    rw [hs] at hv
    obtain ⟨o, ho, rfl⟩ := Option.map_eq_some_iff.mp hv
    refine copies o 0 none ho (fun _ k _ => ⟨fun _ _ _ hr => hr.elim, fun _ _ => ?_⟩) ?_
    · rw [Job.dest, resumes hs]
      rfl
    · simp [hs]
  | some b =>
    have level := fun p {k} => h.reopened hp hs p (k := k)
    rw [hs] at hv
    cases b with
    | live n =>
      obtain rfl := Option.some.inj hv
      exact h.listen hp rfl fun k hk _ => level _ hk
    | snapshot c =>
      by_cases hd : c.done = true
      · simp only [hd, if_true] at hv
        obtain rfl := Option.some.inj hv
        refine h.listen hp rfl fun k hk _ => (level _ hk).narrow ?_
        exact fun _ _ open' => absurd (hd.symm.trans open') Bool.false_ne_true.symm
      · have hd : c.done = false := by simpa using hd
        simp only [hd, Bool.false_eq_true, if_false] at hv
        obtain ⟨o, ho, rfl⟩ := Option.map_eq_some_iff.mp hv
        have marked : ∀ p k, (viewOf job (job.listen w p)).scope k →
            SettledAt (job.writes w.log) (job.dest w) w.log.length
              (fun _ r => reaches job c.key r) k :=
          fun p k hk => (level p hk).narrow fun _ hr _ => hr
        refine copies o _ _ ho marked fun p b hb => ?_
        obtain rfl : b = .snapshot c := by simpa [hs] using hb
        exact ⟨hd, marked p⟩

/-!
### Runs

A run is of one stream after another. What is asked of it is that the stream is never stopped while
something is held (`Gentle`).
-/

namespace Job

variable (job)

/-- The stream is only ever opened at a stored cursor, once anything has been emitted. -/
def Resumes (w : World K R O) (e : Event R O) : Prop :=
  e = .start → w.persisted = none → w.out = []

/-- Whatever stops the stream stops it with nothing held. -/
def Keeps (w : World K R O) : Event R O → Prop
  | .stop => w.phase.held = []
  | .readFails => job.givesUp w = true → w.phase.held = []
  | .hear => job.overflows w = false
  | _ => True

def Gentle (w : World K R O) (e : Event R O) : Prop := Resumes w e ∧ job.Keeps w e

instance [DecidableEq R] (w : World K R O) (e : Event R O) : Decidable (Resumes w e) := by
  unfold Resumes
  infer_instance

instance [DecidableEq R] (w : World K R O) (e : Event R O) : Decidable (job.Keeps w e) := by
  cases e <;> unfold Keeps <;> infer_instance

instance [DecidableEq R] (w : World K R O) (e : Event R O) : Decidable (job.Gentle w e) := by
  unfold Gentle
  infer_instance

/-- Copy-then-follow in hold mode converges, whatever the run. -/
def Converges [DecidableEq R] : Prop :=
  ∀ events w, Run job.step Resumes World.empty events w → Follows job w

end Job

theorem InStep.empty : InStep job (World.empty : World K R O) where
  ordered := ⟨le_rfl, le_rfl⟩
  past := by simp [World.empty]
  queued := by simp [World.empty, queue, entries, Phase.held]
  delivered := by simp [World.empty]
  phase := by
    intro b hb
    cases hb

theorem InStep.step (h : InStep job w) (paged : ¬ job.source.ReadByOffset) {e : Event R O}
    (ok : job.Gentle w e) (hm : Moves job w e w') : InStep job w' := by
  cases hm with
  | commit e => exact h.commit e
  | passes he own hl => exact h.pass he own hl
  | overflows ho => exact absurd (ok.2.symm.trans ho) Bool.false_ne_true
  | holdsCopying he own hp => exact h.holdsCopying he own hp
  | holdsDraining he own hp => exact h.holdsDraining he own hp
  | handsOn he hp => exact h.handsOn he hp
  | persist hc => exact h.persist hc
  | stop hl => exact h.stop ok.2
  | start hp hv => exact h.start paged (ok.1 rfl) hp hv
  | beginRead hp =>
    refine h.reread hp fun rd hrd => ?_
    obtain rfl := Option.some.inj hrd
    exact (h.copying hp).1.begin _
  | @askPage c held rd hp hrd hpage =>
    obtain ⟨pageUpTo, asRead, covers, -⟩ := (h.copying hp).1.reads rd hrd
    refine h.reread hp fun rd' hrd' => ?_
    obtain rfl := Option.some.inj hrd'
    refine ⟨pageUpTo, asRead, covers, fun t ht => ?_⟩
    obtain rfl := Option.some.inj ht
    exact ⟨h.ordered.1.trans h.ordered.2, hpage⟩
  | @page c held rd rows next cursor asked hp hrd hasked hnext ha =>
    have paging := (h.copying hp).1.paging
    refine h.reread hp fun rd' hrd' => ?_
    obtain rfl := Option.some.inj hrd'
    rw [paging]
    exact ((h.copying hp).1.reads rd hrd).page rfl hasked hnext (ha paging)
  | handRow hp hrd hpage => exact h.handRow hp hrd hpage
  | copied hp hrd hpage hnext => exact h.endCopy hp hrd hpage hnext
  | readFails hp => exact h.reread hp fun rd hrd => by cases hrd
  | givesUp hg hl => exact h.stop (ok.2 hg)
  | drain hp hh => exact h.drain hp hh
  | openGate hp hh =>
    refine h.goto ?_ fun k hk _ => (h.draining hp).2 k hk ?_
    · rw [hp]
      exact hh.symm
    · simp [Holds, hh]

theorem InStep.follows (h : InStep job w) : Follows job w := by
  constructor
  · intro hp i hi e he
    obtain ⟨j, e', hij, he', hkey, hin⟩ := h.delivered i hi e he
    refine ⟨j, e', hij, he', hkey, ?_⟩
    simpa [queue, hp, Phase.held] using hin
  · refine List.Pairwise.sublist ?_ h.queued.1
    rw [queue, entries_append]
    exact List.sublist_append_left _ _
  · intro hp hheard k hmissed own
    have phase := h.phase
    rw [hp] at phase
    have level := phase k ⟨hmissed, own⟩ id
    have whole : w.heard = (job.writes w.log).length := by rw [hheard, length_writes]
    have untouched : Untouched (job.writes w.log) w.heard k := by simp [Untouched, whole]
    show job.dest w k = replay (fun _ => none) (job.writes w.log) k
    cases hr : replay (fun _ => none) (job.writes w.log) k with
    | none => exact level.gone untouched hr
    | some r => exact level.same r untouched hr trivial

/-- **Copy-then-follow in hold mode**, over any run in which nothing stops the stream while it holds
a change, of a keyspace that is not read by OFFSET. -/
theorem follows_of_gentle [DecidableEq R] (job : Job K R O) (paged : ¬ job.source.ReadByOffset)
    {events : List (Event R O)} {w : World K R O}
    (run : Run job.step job.Gentle World.empty events w) : Follows job w :=
  (run.invariant InStep.empty fun _ _ _ ok inv move =>
    inv.step paged ok (Moves.of_step move)).follows

end Worlds

/-! ## A stop after the end marker

The copy's end goes out, and is stored, before what is held: a stream stopped between the two is
opened again as if there were nothing left. -/

namespace StoppedWhileHolding

/-- A string key: its name and its value. -/
abbrev Entry := Nat × Nat

def keyspace : Job Nat Entry Nat where
  source :=
    { table := "keys", sort := []
      probe := { primaryKey := ["key"], columns := [{ name := "key" }, { name := "value" }], total := none }
      cursorPaging := true, keysetPaging := false, schema := none }
  scanned := ⟨rfl, rfl⟩
  key := Prod.fst
  place := Prod.fst
  own := fun _ => false
  pageSize := 100
  readAttempts := 5
  holdMax := 1000

def set (key value : Nat) : Event Entry Nat := .commit { gone := false, row := (key, value) }

/-- The key is copied, then changed; the change is held when the stream is stopped. -/
def events : List (Event Entry Nat) :=
  [set 1 10, .start, .beginRead, .askPage, .page [(1, 10)] none, .handRow, set 1 11, .hear, .copied,
    .persist 1, .stop, .start]

theorem held_lost : ¬ keyspace.Converges := by
  intro h
  have run : Run keyspace.step Job.Resumes World.empty events _ := run_iff_runEvents.mpr rfl
  have drained := (h _ _ run).drained rfl rfl 1 (by decide) rfl
  revert drained
  decide

/-- The stream is stopped twice, in the middle of the copy before anything is heard and once the held
changes have been handed over; while it holds, a key is changed twice and another is removed. -/
def gentle : List (Event Entry Nat) :=
  [set 1 10, set 2 20, .start, .beginRead, .askPage, .page [(1, 10)] (some 1), .handRow, .persist 0,
    .stop, .start, .beginRead, .askPage, .page [(1, 10)] (some 1), .handRow, set 1 11, .hear,
    .askPage, .page [(2, 20)] none, .commit { gone := true, row := (2, 20) }, .hear, set 1 12, .hear,
    .handRow, .copied, .drain, set 2 21, .hear, .drain, .drain, .openGate, .persist 3, .stop, .start,
    set 1 13, .hear]

theorem gentle_follows :
    ∃ w, Run keyspace.step keyspace.Gentle World.empty gentle w ∧ w.phase = .live ∧
      w.heard = w.log.length ∧ Follows keyspace w := by
  have run : Run keyspace.step keyspace.Gentle World.empty gentle _ := run_iff_runEvents.mpr rfl
  exact ⟨_, run, rfl, rfl, follows_of_gentle keyspace (by decide) run⟩

end StoppedWhileHolding

end Syncle.Snapshot.Hold
