import Mathlib.Data.Nat.Basic
import Syncle.Lib.Run
import Syncle.Lib.Replay
import Syncle.Cdc.Moves

/-!
# Live delivery into a keyed destination

After a reconnect the provider may hand over items again, also items of which the first copy is
still in the batch or in flight. `accept` compares a change with the *durable* watermark only, so
such a copy is taken for new: it joins the batch behind newer versions of its row, and it sets the
reach of the batch back. `notePosition` compares with the reach of the batch, and so is wrong only
of a position that is in flight. `repeats` names what is taken for new although it is not, and
`Orderly` holds a run to handing over no such item; what is handed over again once it is durable is
dropped, and is allowed.

What `Orderly` buys is an order. The durable watermark, the reach of the delivery in flight, the
reach of the batch and the change the chain is at are positions one past the other, with everything
handed over so far at or before one of them and everything else beyond them all (`Marks`). Then an
item that passes its test is one that was never handed over, so what was sent, what waits and what
is pending are, in this order, the changes handed over so far (`Ordered.inPlace`). Each step of the
pipeline keeps this, `level_step`. With nothing under way and nothing to come the deliveries are the
changes of the source, once each; and the cursor only goes on, because a reach lies past the
watermark it replaces.
-/

namespace Syncle.Cdc

open Lib

variable {γ R Sig : Type*}

/-! ## What a destination keyed on the row's identity holds -/

/-- What a row of a batch does at the destination. -/
def rowWrite (b : Bridge γ R Sig) (op : CdcOperation) (row : R) : Option (Write Sig R) :=
  match op with
  | .insert | .update => (b.keySignature row).map fun k => .upsert k row
  | .delete => (b.keySignature row).map .remove
  | .truncate => some .clear

def writeOf (b : Bridge γ R Sig) (c : CdcChange γ R) : Option (Write Sig R) := rowWrite b c.op c.row

section Keyed

variable [DecidableEq Sig]

/-- The destination after the deliveries that succeeded. -/
def destState (b : Bridge γ R Sig) (w : World γ R Sig) : Sig → Option R :=
  replay (fun _ => none) (w.dest.flatMap fun batch =>
    batch.items.filterMap fun i => batch.op.bind fun op => rowWrite b op i.row)

/-- The source's changes, folded in order. -/
def sourceState (b : Bridge γ R Sig) (src : List (StreamItem γ R)) : Sig → Option R :=
  replay (fun _ => none) ((changes src).filterMap (writeOf b))

end Keyed

/-! ## Positions

What the argument reads of the pipeline: the changes at the destination or on their way there, the
changes in the batch, the one the chain is at, and how far each stage reaches. -/

structure View (γ R : Type*) where
  /-- the provider's place -/
  next : Nat
  sent : List (CdcChange γ R)
  waiting : List (CdcChange γ R)
  /-- the change the chain is at, past the watermark test -/
  pending : List (CdcChange γ R)
  /-- the batch's reach -/
  tail : Option γ
  /-- the durable watermark -/
  mark : Option γ
  /-- the reach of the delivery in flight -/
  reach : Option γ

namespace View

def take (v : View γ R) (c : CdcChange γ R) : View γ R :=
  { v with next := v.next + 1, pending := [c] }

/-- An item goes by: dropped, or not a change. -/
def pass (v : View γ R) : View γ R := { v with next := v.next + 1 }

def note (v : View γ R) (cursor : γ) : View γ R := { v with tail := some cursor }

def join (v : View γ R) (c : CdcChange γ R) : View γ R :=
  { v with waiting := v.waiting ++ [c], pending := [], tail := some c.cursor }

def depart (v : View γ R) (reach : γ) : View γ R :=
  { v with sent := v.sent ++ v.waiting, waiting := [], tail := none, reach := some reach }

def settle (v : View γ R) (reach : γ) : View γ R := { v with mark := some reach, reach := none }

def resend (v : View γ R) (n : Nat) : View γ R := { v with next := n }

/-- The positions of the pipeline, from the destination to the chain. -/
def marks (v : View γ R) : List γ :=
  v.mark.toList ++ v.reach.toList ++ v.tail.toList ++ v.pending.map (·.cursor)

end View

section Positions

variable [LinearOrder γ] {src : List (StreamItem γ R)}

/-- The positions `ps` follow one another, with the first `h` items of the source at or before one
of them, and the others beyond them all. -/
structure Marks (src : List (StreamItem γ R)) (ps : List γ) (h : Nat) : Prop where
  sorted : ps.Pairwise (· < ·)
  reached : ∀ item ∈ src.take h, ∃ p ∈ ps, item.cursor ≤ p
  fresh : ∀ item ∈ src.drop h, ∀ p ∈ ps, p < item.cursor

namespace Marks

variable {ps qs : List γ} {h n : Nat} {item : StreamItem γ R}

theorem start (src : List (StreamItem γ R)) : Marks src [] 0 where
  sorted := .nil
  reached := fun _ hi => by cases hi
  fresh := fun _ _ _ hp => by cases hp

/-- An item at or before one of the positions was handed over. -/
theorem behind (hm : Marks src ps h) (hitem : src[n]? = some item) {p : γ} (hp : p ∈ ps)
    (le : item.cursor ≤ p) : n < h := by
  by_contra ge
  have late : item ∈ src.drop h := by
    refine List.mem_of_getElem? (i := n - h) ?_
    rw [List.getElem?_drop, Nat.add_sub_cancel' (Nat.le_of_not_lt ge)]
    exact hitem
  exact absurd (hm.fresh item late p hp) (not_lt_of_ge le)

/-- An item beyond all the positions was not. -/
theorem ahead (hm : Marks src ps h) (hitem : src[n]? = some item)
    (beyond : ∀ p ∈ ps, p < item.cursor) : h ≤ n := by
  by_contra lt
  have early : item ∈ src.take h := by
    refine List.mem_of_getElem? (i := n) ?_
    rw [List.getElem?_take_of_lt (Nat.lt_of_not_le lt)]
    exact hitem
  obtain ⟨p, hp, le⟩ := hm.reached item early
  exact absurd (beyond p hp) (not_lt_of_ge le)

/-- The next item is handed over. -/
theorem snoc (ho : InOrder src) (hm : Marks src ps h) (hitem : src[h]? = some item) :
    Marks src (ps ++ [item.cursor]) (h + 1) := by
  obtain ⟨hlen, rfl⟩ := List.getElem?_eq_some_iff.mp hitem
  have drop : src.drop h = src[h] :: src.drop (h + 1) := List.drop_eq_getElem_cons hlen
  have later : (src[h] :: src.drop (h + 1)).Pairwise fun x y => x.cursor < y.cursor :=
    drop ▸ List.Pairwise.drop ho
  refine ⟨List.pairwise_append.mpr ⟨hm.sorted, List.pairwise_singleton _ _, fun p hp q hq => ?_⟩,
    fun i hi => ?_, fun i hi p hp => ?_⟩
  · obtain rfl := List.mem_singleton.mp hq
    exact hm.fresh _ (drop ▸ List.mem_cons_self) p hp
  · rw [List.take_succ_eq_append_getElem hlen] at hi
    rcases List.mem_append.mp hi with hi | hi
    · obtain ⟨p, hp, le⟩ := hm.reached i hi
      exact ⟨p, List.mem_append_left _ hp, le⟩
    · obtain rfl := List.mem_singleton.mp hi
      exact ⟨_, List.mem_append_right _ List.mem_cons_self, le_refl _⟩
  · rcases List.mem_append.mp hp with hp | hp
    · exact hm.fresh i (drop ▸ List.mem_cons_of_mem _ hi) p hp
    · obtain rfl := List.mem_singleton.mp hp
      exact List.rel_of_pairwise_cons later hi

/-- A position gives way to a later one. -/
theorem thin (hm : Marks src ps h) (sub : qs.Sublist ps) (covered : ∀ p ∈ ps, ∃ q ∈ qs, p ≤ q) :
    Marks src qs h := by
  refine ⟨hm.sorted.sublist sub, fun i hi => ?_, fun i hi q hq => hm.fresh i hi q (sub.subset hq)⟩
  obtain ⟨p, hp, le⟩ := hm.reached i hi
  obtain ⟨q, hq, le'⟩ := covered p hp
  exact ⟨q, hq, le_trans le le'⟩

/-- The position before another gives way to it. -/
theorem merge {before after : List γ} {old : Option γ} {p : γ}
    (hm : Marks src (before ++ old.toList ++ p :: after) h) :
    Marks src (before ++ p :: after) h := by
  cases old with
  | none => simpa using hm
  | some o =>
    rw [List.append_assoc] at hm
    refine hm.thin ((List.sublist_cons_self o _).append_left before) fun q hq => ?_
    rcases List.mem_append.mp hq with hq | hq
    · exact ⟨q, List.mem_append_left _ hq, le_refl q⟩
    · rcases List.mem_cons.mp hq with rfl | hq
      · have lt : q < p := List.rel_of_pairwise_cons
          (List.pairwise_append.mp hm.sorted).2.1 List.mem_cons_self
        exact ⟨p, List.mem_append_right _ List.mem_cons_self, lt.le⟩
      · exact ⟨q, List.mem_append_right _ hq, le_refl q⟩

end Marks

/-- **The invariant.** `h` is how far the provider has ever come. -/
structure Ordered (src : List (StreamItem γ R)) (v : View γ R) (h : Nat) : Prop where
  next : v.next ≤ h
  /-- each change handed over is in the pipeline once, and in its place -/
  inPlace : v.sent ++ v.waiting ++ v.pending = changes (src.take h)
  marks : Marks src v.marks h

namespace Ordered

variable {v : View γ R} {h : Nat} {item : StreamItem γ R}

theorem start (src : List (StreamItem γ R)) :
    Ordered src ⟨0, [], [], [], none, none, none⟩ 0 :=
  ⟨le_refl 0, rfl, .start src⟩

/-- An item that is handed over again and leaves nothing behind. -/
theorem pass (hv : Ordered src v h) (again : v.next < h) : Ordered src v.pass h :=
  ⟨again, hv.inPlace, hv.marks⟩

/-- An item beyond everything in the pipeline is handed over for the first time. -/
theorem next_eq (hv : Ordered src v h) (hitem : src[v.next]? = some item)
    (beyond : ∀ p ∈ v.marks, p < item.cursor) : v.next = h :=
  le_antisymm hv.next (hv.marks.ahead hitem beyond)

omit [LinearOrder γ] in
theorem changes_succ (hitem : src[h]? = some item) :
    changes (src.take (h + 1)) = changes (src.take h) ++ changes [item] := by
  obtain ⟨hlen, rfl⟩ := List.getElem?_eq_some_iff.mp hitem
  rw [List.take_succ_eq_append_getElem hlen, changes, List.filterMap_append]
  rfl

/-- The chain takes a change for the first time. -/
theorem take (ho : InOrder src) (hv : Ordered src v h) {c : CdcChange γ R}
    (hitem : src[v.next]? = some (.change c)) (idle : v.pending = [])
    (beyond : ∀ p ∈ v.marks, p < c.cursor) : Ordered src (v.take c) (h + 1) := by
  have first := hv.next_eq hitem beyond
  rw [first] at hitem
  refine ⟨Nat.succ_le_succ first.le, ?_, ?_⟩
  · rw [changes_succ hitem, ← hv.inPlace, idle, List.append_nil]
    rfl
  · have taken := hv.marks.snoc ho hitem
    rwa [View.marks, idle, List.map_nil, List.append_nil] at taken

/-- The batch's reach is extended to an item that is handed over for the first time. -/
theorem note (ho : InOrder src) (hv : Ordered src v h) (hitem : src[v.next]? = some item)
    (bare : changes [item] = []) (idle : v.pending = [])
    (beyond : ∀ p ∈ v.marks, p < item.cursor) :
    Ordered src (v.pass.note item.cursor) (h + 1) := by
  have first := hv.next_eq hitem beyond
  rw [first] at hitem
  refine ⟨Nat.succ_le_succ first.le, ?_, ?_⟩
  · rw [changes_succ hitem, ← hv.inPlace, bare, List.append_nil]
    rfl
  · have noted := hv.marks.snoc ho hitem
    rw [View.marks, idle, List.map_nil, List.append_nil] at noted
    have extended := noted.merge
    rwa [View.marks, show (v.pass.note item.cursor).pending = [] from idle, List.map_nil,
      List.append_nil]

/-- The change the chain is at joins the batch. -/
theorem join (hv : Ordered src v h) {c : CdcChange γ R} (pending : v.pending = [c]) :
    Ordered src (v.join c) h := by
  refine ⟨hv.next, ?_, ?_⟩
  · rw [← hv.inPlace, pending]
    simp [View.join]
  · have joined := hv.marks
    rw [View.marks, pending] at joined
    have merged := joined.merge
    simpa [View.marks, View.join] using merged

/-- The batch is taken, with no delivery before it in flight. -/
theorem depart (hv : Ordered src v h) {t : γ} (tail : v.tail = some t) (free : v.reach = none) :
    Ordered src (v.depart t) h := by
  refine ⟨hv.next, ?_, ?_⟩
  · rw [← hv.inPlace]
    simp [View.depart]
  · have departed := hv.marks
    rw [View.marks, tail, free] at departed
    simpa [View.marks, View.depart] using departed

/-- The delivery in flight is durable. -/
theorem settle (hv : Ordered src v h) {r : γ} (reach : v.reach = some r) :
    Ordered src (v.settle r) h := by
  refine ⟨hv.next, hv.inPlace, ?_⟩
  have settled : Marks src ([] ++ v.mark.toList ++
      r :: (v.tail.toList ++ v.pending.map (·.cursor))) h := by
    simpa [View.marks, reach] using hv.marks
  simpa [View.marks, View.settle] using settled.merge

/-- The provider goes back. -/
theorem resend (hv : Ordered src v h) {n : Nat} (hn : n ≤ v.next) : Ordered src (v.resend n) h :=
  ⟨le_trans hn hv.next, hv.inPlace, hv.marks⟩

/-- What is in flight reaches past what is durable. -/
theorem advances (hv : Ordered src v h) {r m : γ} (reach : v.reach = some r)
    (mark : v.mark = some m) : m ≤ r := by
  have sorted := hv.marks.sorted
  simp only [View.marks, reach, mark, Option.toList_some, List.cons_append] at sorted
  exact (List.rel_of_pairwise_cons sorted List.mem_cons_self).le

/-- **With nothing under way and nothing to come, each change was sent once, and in order.** -/
theorem sent_eq (hv : Ordered src v h) (done : v.next = src.length) (waiting : v.waiting = [])
    (idle : v.pending = []) : v.sent = changes src := by
  have all : src.take h = src := List.take_of_length_le (done ▸ hv.next)
  have placed := hv.inPlace
  rwa [waiting, idle, List.append_nil, List.append_nil, all] at placed

end Ordered

end Positions

/-! ## The pipeline, seen this way -/

def Then.pending : Then γ R Sig → List (CdcChange γ R)
  | .join i => [i.change]
  | .emptied c => [c]
  | _ => []

def Task.pending : Task γ R Sig → List (CdcChange γ R)
  | .examining c => [c]
  | .recognising c => [c]
  | .flushing next => next.pending
  | _ => []

/-- The changes on their way to the destination, and not there yet. -/
def Stream.leaving (s : Stream γ R Sig) : List (CdcChange γ R) :=
  match s.inflight with
  | some d =>
    match d.stage with
    | .attempting => d.items.map (·.change)
    | _ => []
  | none => []

def view (w : World γ R Sig) (s : Stream γ R Sig) : View γ R :=
  { next := w.next
    sent := (w.dest.flatMap fun batch => batch.items.map (·.change)) ++ s.leaving
    waiting := s.buffer.map (·.change)
    pending := s.task.pending
    tail := s.tailCursor
    mark := s.watermark
    reach := s.inflight.map (·.reach) }

/-- A row of a batch under `op` is a change of the source, as the source made it. -/
def Genuine (src : List (StreamItem γ R)) (op : Option CdcOperation) (i : Buffered γ R Sig) : Prop :=
  i.change ∈ changes src ∧ i.row = i.change.row ∧ op = some i.change.op

def PlainTask (src : List (StreamItem γ R)) (s : Stream γ R Sig) : Task γ R Sig → Prop
  | .idle => True
  | .examining c => c ∈ changes src
  | .recognising c => c ∈ changes src ∧ s.buffer = []
  | .flushing .done => True
  | .flushing (.join i) => i.change ∈ changes src ∧ i.row = i.change.row
  | .flushing (.emptied c) => c ∈ changes src
  | _ => False

structure PlainDelivery (src : List (StreamItem γ R)) (d : Delivery γ R Sig) : Prop where
  genuine : ∀ i ∈ d.items, Genuine src d.op i
  stage : match d.stage with
    | .settling (.failed _ _) _ => False
    | .settling .nothing _ => d.items = []
    | _ => True

theorem PlainDelivery.succeeded {src : List (StreamItem γ R)} {d : Delivery γ R Sig}
    (h : PlainDelivery src d) {outcome : Outcome} {tries : Nat}
    (stage : d.stage = .settling outcome tries) :
    ∀ error targets, outcome ≠ .failed error targets := by
  rintro error targets rfl
  have ok := h.stage
  rw [stage] at ok
  exact ok

/-- A pipeline in which everything has gone well so far. -/
structure Tidy (src : List (StreamItem γ R)) (w : World γ R Sig) (s : Stream γ R Sig) : Prop where
  live : s.halted = none
  mark : s.watermark = w.cursorJson
  empty : s.tailCursor = none → s.buffer = []
  buffer : ∀ i ∈ s.buffer, Genuine src s.bufferOp i
  task : PlainTask src s s.task
  delivery : ∀ d, s.inflight = some d → PlainDelivery src d
  dest : ∀ batch ∈ w.dest, ∀ i ∈ batch.items, Genuine src batch.op i

section Simulation

variable {b : Bridge γ R Sig} {src : List (StreamItem γ R)} {w : World γ R Sig}
variable {s s' : Stream γ R Sig}

/-- What the chain's functions leave alone, and what they keep of the batch. -/
structure Steady (src : List (StreamItem γ R)) (s s' : Stream γ R Sig) : Prop where
  halted : s'.halted = s.halted
  watermark : s'.watermark = s.watermark
  inflight : s'.inflight = s.inflight
  empty : s'.tailCursor = none → s'.buffer = []
  buffer : ∀ i ∈ s'.buffer, Genuine src s'.bufferOp i

/-- …and where they leave the chain. -/
structure Chained (src : List (StreamItem γ R)) (s s' : Stream γ R Sig) : Prop
    extends Steady src s s' where
  task : PlainTask src s' s'.task

theorem Tidy.chain (h : Tidy src w s) (hc : Chained src s s') {n : Nat} :
    Tidy src { w with next := n, stream := some s' } s' :=
  ⟨hc.halted.trans h.live, hc.watermark.trans h.mark, hc.empty, hc.buffer, hc.task,
    fun d hd => h.delivery d (hc.inflight ▸ hd), h.dest⟩

theorem plainTask_congr {task : Task γ R Sig} (h : s'.buffer = s.buffer)
    (ht : PlainTask src s task) : PlainTask src s' task := by
  cases task with
  | recognising c => exact ⟨ht.1, h.trans ht.2⟩
  | flushing next => cases next <;> exact ht
  | _ => exact ht

theorem view_goto_idle (s : Stream γ R Sig) :
    view w (s.goto .idle) = { view w s with pending := [] } := rfl

theorem view_pass (w : World γ R Sig) (cursor : γ) (yes : Bool) (s : Stream γ R Sig) :
    view (w.pass cursor yes) s = view w s ∧ (w.pass cursor yes).cursorJson = w.cursorJson ∧
      (w.pass cursor yes).next = w.next ∧ (w.pass cursor yes).dest = w.dest := by
  unfold World.pass
  split
  · exact ⟨rfl, rfl, rfl, rfl⟩
  · exact ⟨rfl, rfl, rfl, rfl⟩

theorem view_scheduleFlush (s : Stream γ R Sig) : view w s.scheduleFlush = view w s := by
  unfold Stream.scheduleFlush
  split
  · rfl
  · rfl

theorem view_flushAndFinish (s : Stream γ R Sig) :
    view w s.flushAndFinish = { view w s with pending := [] } := by
  unfold Stream.flushAndFinish
  split
  · rfl
  · rfl

theorem view_joinBatch (s : Stream γ R Sig) (i : Buffered γ R Sig) :
    view w (s.joinBatch b i) = (view w s).join i.change := by
  have pushed : { view w (s.push b i) with pending := [] } = (view w s).join i.change := by
    simp only [view, View.join, Stream.push, List.map_append, List.map_cons, List.map_nil]
    rfl
  unfold Stream.joinBatch
  dsimp only
  split
  · rw [view_flushAndFinish, pushed]
  · rw [view_goto_idle, view_scheduleFlush, pushed]

theorem Tidy.steady (h : Tidy src w s) : Steady src s s :=
  ⟨rfl, rfl, rfl, h.empty, h.buffer⟩

theorem Steady.goto (h : Steady src s s') {task : Task γ R Sig} (ht : PlainTask src s' task) :
    Chained src s (s'.goto task) :=
  ⟨⟨h.halted, h.watermark, h.inflight, h.empty, h.buffer⟩, plainTask_congr rfl ht⟩

theorem Steady.clearTimer (h : Steady src s s') : Steady src s s'.clearTimer :=
  ⟨h.halted, h.watermark, h.inflight, h.empty, h.buffer⟩

theorem Steady.scheduleFlush (h : Steady src s s') : Steady src s s'.scheduleFlush := by
  unfold Stream.scheduleFlush
  split
  · exact h
  · exact ⟨h.halted, h.watermark, h.inflight, h.empty, h.buffer⟩

theorem Steady.flushAndFinish (h : Steady src s s') : Chained src s s'.flushAndFinish := by
  unfold Stream.flushAndFinish
  split
  · exact h.clearTimer.goto trivial
  · exact h.clearTimer.goto trivial

theorem Chained.notePosition (h : Chained src s s') (idle : s'.task = .idle) {cursor : γ} :
    Chained src s (s'.notePosition b cursor) := by
  unfold Stream.notePosition
  split
  · exact h
  · split
    · exact h
    · have extended : Steady src s (s'.extendTo cursor) :=
        ⟨h.halted, h.watermark, h.inflight, fun h => (nomatch h), h.buffer⟩
      refine ⟨extended.scheduleFlush, ?_⟩
      rw [scheduleFlush_task, show (s'.extendTo cursor).task = s'.task from rfl, idle]
      trivial

theorem view_notePosition (live : s.halted = none) (cursor : γ) :
    view w (s.notePosition b cursor) =
      if b.cursorAfter cursor (s.tailCursor <|> s.watermark) then (view w s).note cursor
      else view w s := by
  unfold Stream.notePosition
  rw [if_neg (by simp [live])]
  cases b.cursorAfter cursor (s.tailCursor <|> s.watermark) with
  | true => exact view_scheduleFlush _
  | false => rfl

theorem Steady.joinBatch (h : Steady src s s') {i : Buffered γ R Sig}
    (genuine : i.change ∈ changes src ∧ i.row = i.change.row)
    (op : s'.buffer = [] ∨ s'.bufferOp = some i.change.op) : Chained src s (s'.joinBatch b i) := by
  have pushed : Steady src s (s'.push b i) := by
    refine ⟨h.halted, h.watermark, h.inflight, fun h => (nomatch h), fun j hj => ?_⟩
    rcases List.mem_append.mp hj with hj | hj
    · rcases op with none | same
      · rw [none] at hj
        cases hj
      · obtain ⟨mem, row, jop⟩ := h.buffer j hj
        exact ⟨mem, row, same.symm.trans jop⟩
    · obtain rfl := List.mem_singleton.mp hj
      exact ⟨genuine.1, genuine.2, rfl⟩
  unfold Stream.joinBatch
  dsimp only
  split
  · exact pushed.flushAndFinish
  · exact pushed.scheduleFlush.goto trivial

/-- `work` of a delivery that succeeded, or had nothing to deliver, gets to its checkpoint. -/
theorem runWork_smooth {d : Delivery γ R Sig} {outcome : Outcome} {a : Worked}
    (recorded : a.recorded = true) (ok : ∀ error targets, outcome ≠ .failed error targets) :
    ∃ n seq, runWork b w s d outcome a = (w, { s with consecutiveFailures := n }, .next seq) := by
  cases outcome with
  | nothing => exact ⟨s.consecutiveFailures, s.seq, rfl⟩
  | success => exact ⟨0, d.seq + 1, by simp [runWork, recorded]⟩
  | failed error targets => exact absurd rfl (ok error targets)

end Simulation

/-! ## Runs in which every delivery succeeds -/

/-- An unfiltered stream of complete rows, and an exact order on its cursors. -/
structure Plain [LT γ] (b : Bridge γ R Sig) (src : List (StreamItem γ R)) : Prop where
  exact : ∀ cursor mark, b.cursorAfter cursor mark = true ↔ ∀ m ∈ mark, m < cursor
  complete : ∀ c ∈ changes src, b.hasUnchanged c.row = false
  matching : b.handlesSourceFilters = true ∨
    ∀ c ∈ changes src, b.rowMatchesFilters c.op c.row = true
  quiet : ∀ cursor, StreamItem.notice cursor ∉ src

/-- What the environment answers when nothing fails, and nothing is an echo. -/
def smooth : Event R → Bool
  | .examined ⟨_, .clear, .none⟩ => true
  | .recognised .none => true
  | .attempted .success => true
  | .work a => a.recorded
  | .checkpoint written _ => written
  | .take | .timer | .timedFlush | .flush | .drained | .reconnect _ => true
  | _ => false

/-- A reconnect hands over again what lies after the last acknowledged cursor. -/
def ResendsAfterAck [LT γ] (src : List (StreamItem γ R)) (w : World γ R Sig) (e : Event R) : Prop :=
  ∀ n, e = .reconnect n → ∀ item ∈ src.drop n, ∀ a ∈ w.acked, a < item.cursor

/-! ### What is taken for new

A first item past the watermark is new. One that is handed over again need not be, and each handler
knows only what it compares with. -/

/-- What an item's cursor is compared with: `notePosition` asks the reach of the batch first. -/
def Stream.compared (s : Stream γ R Sig) : StreamItem γ R → Option γ
  | .skip _ => s.tailCursor <|> s.watermark
  | _ => s.watermark

/-- Is a copy of the item in the batch, or in flight? -/
def Stream.carries [LinearOrder γ] (s : Stream γ R Sig) (item : StreamItem γ R) : Bool :=
  s.tailCursor.any (decide <| item.cursor ≤ ·) || s.inflight.any (decide <| item.cursor ≤ ·.reach)

/-- The item passes the comparison, and is a copy. -/
def repeats [LinearOrder γ] (b : Bridge γ R Sig) (s : Stream γ R Sig) (item : StreamItem γ R) :
    Bool :=
  b.cursorAfter item.cursor (s.compared item) && s.carries item

/-- The step condition: what is handed over is no copy that is taken for new. -/
def Orderly [LinearOrder γ] (b : Bridge γ R Sig) (src : List (StreamItem γ R))
    (w : World γ R Sig) (e : Event R) : Prop :=
  match w.stream, e with
  | some s, .take => (src[w.next]?).any (repeats b s) = false
  | _, _ => True

instance [LinearOrder γ] (b : Bridge γ R Sig) (src : List (StreamItem γ R)) (w : World γ R Sig)
    (e : Event R) : Decidable (Orderly b src w e) := by
  unfold Orderly
  split
  · infer_instance
  · infer_instance

section Comparing

variable [LinearOrder γ] {b : Bridge γ R Sig} {src : List (StreamItem γ R)} {w : World γ R Sig}
variable {s : Stream γ R Sig} {h : Nat} {item : StreamItem γ R}

theorem Orderly.new (orderly : Orderly b src w .take) (hs : w.stream = some s)
    (hitem : src[w.next]? = some item) : repeats b s item = false := by
  simpa only [Orderly, hs, hitem, Option.any_some] using orderly

omit [LinearOrder γ] in
/-- What the cursor is compared with is a position of the pipeline… -/
theorem mem_marks_of_compared {p : γ} (hp : s.compared item = some p) : p ∈ (view w s).marks := by
  have mark (hp : s.watermark = some p) : p ∈ (view w s).marks := by simp [View.marks, view, hp]
  cases item with
  | skip cursor =>
    cases tail : s.tailCursor with
    | none => exact mark (by simpa [Stream.compared, tail] using hp)
    | some t =>
      obtain rfl : t = p := by simpa [Stream.compared, tail] using hp
      simp [View.marks, view, tail]
  | change c => exact mark hp
  | notice cursor => exact mark hp

/-- …and none of what is durable lies beyond it. -/
theorem le_compared (hv : Ordered src (view w s) h) {m : γ} (hm : s.watermark = some m) :
    ∃ p, s.compared item = some p ∧ m ≤ p := by
  cases item with
  | skip cursor =>
    cases tail : s.tailCursor with
    | none => exact ⟨m, by simp [Stream.compared, tail, hm], le_refl m⟩
    | some t =>
      refine ⟨t, by simp [Stream.compared, tail], ?_⟩
      have sorted := hv.marks.sorted
      simp only [View.marks, view, hm, tail, Option.toList_some, List.cons_append] at sorted
      exact (List.rel_of_pairwise_cons sorted (by simp)).le
  | change c => exact ⟨m, hm, le_refl m⟩
  | notice cursor => exact ⟨m, hm, le_refl m⟩

/-- An item that passes, and is no copy, lies beyond the whole pipeline. -/
theorem beyond_of_new (plain : Plain b src) (hv : Ordered src (view w s) h) (idle : s.task = .idle)
    (new : repeats b s item = false)
    (passes : b.cursorAfter item.cursor (s.compared item) = true) :
    ∀ p ∈ (view w s).marks, p < item.cursor := by
  have past := (plain.exact _ _).mp passes
  obtain ⟨batch, flight⟩ : s.tailCursor.any (decide <| item.cursor ≤ ·) = false ∧
      s.inflight.any (decide <| item.cursor ≤ ·.reach) = false := by
    simpa only [repeats, passes, Bool.true_and, Stream.carries, Bool.or_eq_false_iff] using new
  intro p hp
  simp only [View.marks, view, idle, Task.pending, List.map_nil, List.append_nil, List.mem_append,
    Option.mem_toList, Option.map_eq_some_iff] at hp
  rcases hp with (mark | ⟨d, hd, rfl⟩) | hp
  · obtain ⟨q, hq, le⟩ := le_compared hv mark
    exact lt_of_le_of_lt le (past q hq)
  · rw [hd, Option.any_some, decide_eq_false_iff_not] at flight
    exact lt_of_not_ge flight
  · rw [hp, Option.any_some, decide_eq_false_iff_not] at batch
    exact lt_of_not_ge batch

/-- An item that does not pass was handed over before. -/
theorem again_of_dropped (plain : Plain b src) (hv : Ordered src (view w s) h)
    (hitem : src[w.next]? = some item)
    (dropped : b.cursorAfter item.cursor (s.compared item) = false) : w.next < h := by
  obtain ⟨p, hp, le⟩ : ∃ p, s.compared item = some p ∧ item.cursor ≤ p := by
    have := mt (plain.exact item.cursor (s.compared item)).mpr (by simp [dropped])
    push Not at this
    exact this
  exact hv.marks.behind hitem (mem_marks_of_compared hp) le

end Comparing

section Steps

variable [LinearOrder γ] {b : Bridge γ R Sig} {src : List (StreamItem γ R)} {w : World γ R Sig}
variable {s : Stream γ R Sig} {h : Nat}

/-- `accept` and `handleSkip`, up to their first wait. -/
theorem takeItem_spec (ho : InOrder src) (plain : Plain b src) (tidy : Tidy src w s)
    (hv : Ordered src (view w s) h) (idle : s.task = .idle) {item : StreamItem γ R}
    (hitem : src[w.next]? = some item) (new : repeats b s item = false) :
    Chained src s (s.takeItem b item) ∧
      ∃ h', Ordered src (view { w with next := w.next + 1 } (s.takeItem b item)) h' := by
  have stays : Chained src s s := ⟨tidy.steady, tidy.task⟩
  have pending : (view w s).pending = [] := by rw [view, idle]; rfl
  have passed := fun dropped => hv.pass (again_of_dropped plain hv hitem dropped)
  have beyond := beyond_of_new plain hv idle new
  cases item with
  | skip cursor =>
    refine ⟨stays.notePosition idle, ?_⟩
    rw [Stream.takeItem, view_notePosition tidy.live]
    cases after : b.cursorAfter cursor (s.tailCursor <|> s.watermark) with
    | false => exact ⟨h, passed after⟩
    | true => exact ⟨h + 1, hv.note ho hitem rfl pending (beyond after)⟩
  | notice cursor => exact absurd (List.mem_of_getElem? hitem) (plain.quiet cursor)
  | change c =>
    have mem : c ∈ changes src := mem_changes.mpr (List.mem_of_getElem? hitem)
    simp only [Stream.takeItem, tidy.live, Option.isSome_none, Bool.false_eq_true, if_false]
    cases after : b.cursorAfter c.cursor s.watermark with
    | false => exact ⟨stays, h, passed after⟩
    | true =>
      have taken := hv.take ho hitem pending (beyond after)
      simp only [Bool.not_true, Bool.false_eq_true, if_false]
      split
      · unfold Stream.startFlush
        split
        · next empty =>
          have bare : s.tailCursor = none := by simpa [tidy.live] using empty
          have live : s.clearTimer.halted = none := tidy.live
          rw [Stream.afterFlush, if_neg (by simp [live])]
          have ok : PlainTask src s.clearTimer (.recognising c) := ⟨mem, tidy.empty bare⟩
          exact ⟨tidy.steady.clearTimer.goto ok, _, taken⟩
        · have ok : PlainTask src s.clearTimer (.flushing (.emptied c)) := mem
          exact ⟨tidy.steady.clearTimer.goto ok, _, taken⟩
      · have ok : PlainTask src s (.examining c) := mem
        exact ⟨tidy.steady.goto ok, _, taken⟩

/-- `accept`, once what it waits for has answered. -/
theorem examine_spec [DecidableEq Sig] (plain : Plain b src) (tidy : Tidy src w s)
    (hv : Ordered src (view w s) h) {c : CdcChange γ R} (task : s.task = .examining c)
    {a : Examined R} (ok : smooth (.examined a) = true) :
    Chained src s (s.examine b c a).1 ∧ Ordered src (view w (s.examine b c a).1) h := by
  obtain ⟨clear, new⟩ : a.drift = .clear ∧ a.echo = .none := by
    revert ok
    unfold smooth
    split <;> simp_all
  have mem : c ∈ changes src := by
    have ok := tidy.task
    rw [task] at ok
    exact ok
  have pending : (view w s).pending = [c] := by rw [view, task]; rfl
  have completed : Stream.completeRow b c a.completion = some c := by
    simp [Stream.completeRow, plain.complete c mem]
  have matching : (!b.handlesSourceFilters && !b.rowMatchesFilters c.op c.row) = false := by
    rcases plain.matching with hs | hm
    · simp [hs]
    · simp [hm c mem]
  -- looking at the columns changes nothing that matters here
  generalize hseen : s.see b c = seen
  obtain ⟨steady, same⟩ : Steady src s seen ∧ view w seen = view w s := by
    subst hseen
    unfold Stream.see
    split
    · exact ⟨⟨rfl, rfl, rfl, tidy.empty, tidy.buffer⟩, rfl⟩
    · exact ⟨tidy.steady, rfl⟩
  have live : seen.halted = none := steady.halted.trans tidy.live
  have examined : s.examine b c a = (seen.acceptRow b c, false) := by
    simp only [Stream.examine, completed, Stream.acceptChecked, clear, new, tidy.live,
      Option.isSome_none, Bool.false_eq_true, if_false, ite_self, hseen, Stream.acceptMatching,
      matching]
  rw [examined]
  unfold Stream.acceptRow
  dsimp only
  split
  · next conflicts =>
    have full : seen.tailCursor ≠ none := fun none => by
      simp [Stream.conflicts, steady.empty none] at conflicts
    have waits : ¬ (seen.tailCursor.isNone = true ∨ seen.halted.isSome = true) := by
      simp [live, full]
    simp only [Stream.startFlush, waits, if_false]
    refine ⟨steady.clearTimer.goto ⟨mem, rfl⟩, ?_⟩
    have goes : view w (seen.clearTimer.goto (.flushing (.join ⟨c, c.row, b.keySignature c.row⟩))) =
        { view w seen with pending := [c] } := rfl
    rw [goes, same, ← pending]
    exact hv
  · next free =>
    refine ⟨steady.joinBatch ⟨mem, rfl⟩ ?_, ?_⟩
    · simp only [Stream.conflicts, Bool.and_eq_true, Bool.or_eq_true, not_and, not_or] at free
      by_cases empty : seen.buffer = []
      · exact Or.inl empty
      · have differs := (free (by simpa using empty)).1
        exact Or.inr (by simpa using differs)
    · rw [view_joinBatch, same]
      exact hv.join pending

/-- `accept` of a truncate, once everything before it is on its way. -/
theorem acceptTruncate_spec (tidy : Tidy src w s) (hv : Ordered src (view w s) h)
    {c : CdcChange γ R} (task : s.task = .recognising c) :
    Chained src s (s.acceptTruncate b c .none).1 ∧
      Ordered src (view w (s.acceptTruncate b c .none).1) h := by
  obtain ⟨mem, empty⟩ : c ∈ changes src ∧ s.buffer = [] := by
    have ok := tidy.task
    rw [task] at ok
    exact ok
  have pending : (view w s).pending = [c] := by rw [view, task]; rfl
  have pushed : Steady src s (s.pushTruncate c c.row) := by
    refine ⟨rfl, rfl, rfl, fun h => (nomatch h), fun i hi => ?_⟩
    have only : i = ⟨c, c.row, none⟩ := by simpa [Stream.pushTruncate, empty] using hi
    subst only
    exact ⟨mem, rfl, rfl⟩
  rw [Stream.acceptTruncate, if_neg (by simp [tidy.live])]
  refine ⟨pushed.flushAndFinish, ?_⟩
  have joined : { view w (s.pushTruncate c c.row) with pending := [] } = (view w s).join c := by
    simp only [view, View.join, Stream.pushTruncate, List.map_append, List.map_cons, List.map_nil]
    rfl
  rw [view_flushAndFinish, joined]
  exact hv.join pending

omit [LinearOrder γ] in
theorem tidy_takeBatch (tidy : Tidy src w s) {next : Then γ R Sig}
    (task : s.task = .flushing next) :
    Tidy src w s.takeBatch ∧ s.takeBatch.task = s.task ∧ s.takeBatch.buffer = [] := by
  unfold Stream.takeBatch
  split
  · next bare => exact ⟨tidy, rfl, tidy.empty bare⟩
  · next reach hreach =>
    rw [if_neg (by simp [tidy.live])]
    refine ⟨⟨tidy.live, tidy.mark, fun _ => rfl, fun _ h => (nomatch h), ?_, fun d hd => ?_,
      tidy.dest⟩, rfl, rfl⟩
    · have ok := tidy.task
      show PlainTask src _ s.task
      rw [task] at ok ⊢
      cases next <;> exact ok
    · obtain rfl := Option.some.inj hd
      refine ⟨tidy.buffer, ?_⟩
      dsimp only
      cases empty : s.buffer.isEmpty with
      | true => exact List.isEmpty_iff.mp empty
      | false => trivial

theorem ordered_takeBatch (tidy : Tidy src w s) (hv : Ordered src (view w s) h)
    (free : s.inflight = none) : Ordered src (view w s.takeBatch) h := by
  unfold Stream.takeBatch
  split
  · exact hv
  · next reach hreach =>
    rw [if_neg (by simp [tidy.live])]
    have departed := hv.depart (t := reach) hreach (by rw [view, free]; rfl)
    have leaving : s.leaving = [] := by rw [Stream.leaving, free]
    have sent : (view w s).sent ++ (view w s).waiting =
        (w.dest.flatMap fun batch => batch.items.map (·.change)) ++ s.buffer.map (·.change) := by
      simp [view, leaving]
    rw [View.depart, sent] at departed
    cases empty : s.buffer.isEmpty with
    | true =>
      rw [List.isEmpty_iff.mp empty] at departed ⊢
      exact departed
    | false => exact departed

/-- `flush`, once the delivery before it is over. -/
theorem flush_spec [DecidableEq Sig] (tidy : Tidy src w s) (hv : Ordered src (view w s) h)
    (free : s.inflight = none) {next : Then γ R Sig} (task : s.task = .flushing next) :
    Tidy src (w.withStream (s.takeBatch.afterFlush b next)) (s.takeBatch.afterFlush b next) ∧
      Ordered src (view w (s.takeBatch.afterFlush b next)) h := by
  obtain ⟨taken, sameTask, emptied⟩ := tidy_takeBatch tidy task
  have ordered := ordered_takeBatch tidy hv free
  have ok := tidy.task
  rw [task] at ok
  have pending : (view w s.takeBatch).pending = next.pending := by rw [view, sameTask, task]; rfl
  have live : s.takeBatch.halted = none := taken.live
  suffices Chained src s.takeBatch (s.takeBatch.afterFlush b next) ∧
      Ordered src (view w (s.takeBatch.afterFlush b next)) h from ⟨taken.chain this.1, this.2⟩
  cases next with
  | done =>
    refine ⟨taken.steady.goto trivial, ?_⟩
    have : view w (s.takeBatch.goto .idle) = view w s.takeBatch := by
      rw [view_goto_idle, ← show (view w s.takeBatch).pending = [] from pending]
    exact this ▸ ordered
  | join i =>
    refine ⟨taken.steady.joinBatch ok (Or.inl emptied), ?_⟩
    have joined := ordered.join pending
    rw [← view_joinBatch (b := b)] at joined
    exact joined
  | emptied c =>
    rw [Stream.afterFlush, if_neg (by simp [live])]
    have recognising : PlainTask src s.takeBatch (.recognising c) := ⟨ok, emptied⟩
    refine ⟨taken.steady.goto recognising, ?_⟩
    have goes : view w (s.takeBatch.goto (.recognising c)) =
        { view w s.takeBatch with pending := [c] } := rfl
    rw [goes, ← show (view w s.takeBatch).pending = [c] from pending]
    exact ordered
  | notice cursor => exact ok.elim
  | halt status => exact ok.elim

/-! ### The step -/

/-- The pipeline's invariant. -/
def Level (src : List (StreamItem γ R)) (w : World γ R Sig) : Prop :=
  ∃ s, w.stream = some s ∧ Tidy src w s ∧ ∃ h, Ordered src (view w s) h

/-- The persisted cursor of `w'` is not before the one of `w`. -/
def NotBefore (w w' : World γ R Sig) : Prop :=
  ∀ p ∈ w.cursorJson, ∃ p' ∈ w'.cursorJson, p ≤ p'

theorem NotBefore.of_eq {w w' : World γ R Sig} (h : w'.cursorJson = w.cursorJson) :
    NotBefore w w' :=
  fun p hp => ⟨p, h ▸ hp, le_refl p⟩

/-- The chain has moved, and the change it was at may have been noted as passed. -/
theorem level_pass (tidy : Tidy src w s) {s' : Stream γ R Sig} {cursor : γ} {yes : Bool}
    (chained : Chained src s s') (ordered : Ordered src (view w s') h) :
    Level src ((w.pass cursor yes).withStream s') ∧
      NotBefore w ((w.pass cursor yes).withStream s') := by
  obtain ⟨sameView, sameCursor, _, sameDest⟩ := view_pass w cursor yes s'
  have chain := tidy.chain (n := w.next) chained
  refine ⟨⟨s', rfl, ⟨chain.live, chain.mark.trans sameCursor.symm, chain.empty, chain.buffer,
    chain.task, chain.delivery, fun batch hb => chain.dest batch ?_⟩, h, ?_⟩, .of_eq sameCursor⟩
  · exact sameDest ▸ hb
  · exact sameView ▸ ordered

/-- The delivery in flight has arrived. -/
theorem level_delivered (tidy : Tidy src w s) (hv : Ordered src (view w s) h) {d : Delivery γ R Sig}
    (hd : s.inflight = some d) (stage : d.stage = .attempting) :
    Level src { w with
      dest := w.dest ++ [{ op := d.op, items := d.items }]
      stream := some (s.deliver (some (d.at (.settling .success 0)))) } := by
  obtain ⟨genuine, _⟩ := tidy.delivery d hd
  have leaving : s.leaving = d.items.map (·.change) := by rw [Stream.leaving, hd]; simp only [stage]
  refine ⟨_, rfl, ⟨tidy.live, tidy.mark, tidy.empty, tidy.buffer, plainTask_congr rfl tidy.task,
    fun d' hd' => ?_, fun batch hb => ?_⟩, h, ?_⟩
  · obtain rfl := Option.some.inj hd'
    exact ⟨genuine, trivial⟩
  · rcases List.mem_append.mp hb with hb | hb
    · exact tidy.dest batch hb
    · obtain rfl := List.mem_singleton.mp hb
      exact genuine
  · -- what was on its way is at the destination
    have same : view { w with
        dest := w.dest ++ [{ op := d.op, items := d.items }]
        stream := some (s.deliver (some (d.at (.settling .success 0)))) }
        (s.deliver (some (d.at (.settling .success 0)))) = view w s := by
      simp only [view, leaving, List.flatMap_append, hd]
      simp [Stream.leaving, Stream.deliver, Delivery.at]
    exact same ▸ hv

/-- The delivery that has arrived is recorded. -/
theorem level_worked (tidy : Tidy src w s) (hv : Ordered src (view w s) h) {d : Delivery γ R Sig}
    {outcome : Outcome} {tries : Nat} (hd : s.inflight = some d)
    (stage : d.stage = .settling outcome tries) (n seq : Nat) :
    Level src (w.withStream (({ s with consecutiveFailures := n } : Stream γ R Sig).deliver
      (some (d.at (.checkpointing outcome seq tries))))) := by
  have leaving : s.leaving = [] := by rw [Stream.leaving, hd]; simp only [stage]
  have same : view w (({ s with consecutiveFailures := n } : Stream γ R Sig).deliver
      (some (d.at (.checkpointing outcome seq tries)))) = view w s := by
    simp only [view, leaving, hd]
    rfl
  refine ⟨_, rfl, ⟨tidy.live, tidy.mark, tidy.empty, tidy.buffer, plainTask_congr rfl tidy.task,
    fun d' hd' => ?_, tidy.dest⟩, h, same ▸ hv⟩
  obtain rfl := Option.some.inj hd'
  exact ⟨(tidy.delivery d hd).genuine, trivial⟩

/-- The delivery is durable, and the cursor has gone on. -/
theorem level_checkpointed (tidy : Tidy src w s) (hv : Ordered src (view w s) h)
    {d : Delivery γ R Sig} {outcome : Outcome} {nextSeq tries : Nat} (hd : s.inflight = some d)
    (stage : d.stage = .checkpointing outcome nextSeq tries) (acked : Bool) :
    Level src (w.persist (s.deliver none) nextSeq d.reach acked) ∧
      NotBefore w (w.persist (s.deliver none) nextSeq d.reach acked) := by
  have leaving : s.leaving = [] := by rw [Stream.leaving, hd]; simp only [stage]
  have reach : (view w s).reach = some d.reach := by rw [view, hd]; rfl
  have same : view (w.persist (s.deliver none) nextSeq d.reach acked)
      { s.deliver none with seq := nextSeq, watermark := some d.reach } =
      (view w s).settle d.reach := by
    simp only [view, leaving, View.settle]
    rfl
  refine ⟨⟨_, rfl, ⟨tidy.live, rfl, tidy.empty, tidy.buffer, plainTask_congr rfl tidy.task,
    fun _ h => (nomatch h), tidy.dest⟩, h, same ▸ hv.settle reach⟩, fun p hp => ?_⟩
  exact ⟨d.reach, rfl, hv.advances reach (tidy.mark.trans hp)⟩

/-- The chain starts a flush that a timer asked for. -/
theorem level_timedFlush (tidy : Tidy src w s) (hv : Ordered src (view w s) h)
    (idle : s.task = .idle) (n : Nat) :
    Level src (w.withStream ({ s with timedFlushes := n } : Stream γ R Sig).flushAndFinish) := by
  have steady : Steady src s { s with timedFlushes := n } :=
    ⟨rfl, rfl, rfl, tidy.empty, tidy.buffer⟩
  have pending : (view w s).pending = [] := by rw [view, idle]; rfl
  have same : view w ({ s with timedFlushes := n } : Stream γ R Sig).flushAndFinish = view w s := by
    rw [view_flushAndFinish, ← pending]
    rfl
  exact ⟨_, rfl, tidy.chain steady.flushAndFinish, h, same ▸ hv⟩

/-- **A step in which nothing fails keeps the invariant, and the cursor does not go back.** -/
theorem level_step [DecidableEq Sig] (ho : InOrder src) (plain : Plain b src)
    {w w' : World γ R Sig} {e : Event R}
    (ok : smooth e = true) (orderly : Orderly b src w e) (level : Level src w)
    (move : World.step b src w e = some w') : Level src w' ∧ NotBefore w w' := by
  obtain ⟨s, hs, tidy, h, hv⟩ := level
  have here {t : Stream γ R Sig} (ht : w.stream = some t) : t = s :=
    Option.some.inj (ht.symm.trans hs)
  cases Moves.of_step move with
  | @take t item ht idle hitem =>
    obtain rfl := here ht
    obtain ⟨chained, h', ordered⟩ :=
      takeItem_spec ho plain tidy hv idle hitem (orderly.new ht hitem)
    exact ⟨⟨_, rfl, tidy.chain chained, h', ordered⟩, .of_eq rfl⟩
  | @examined t c a ht task =>
    obtain rfl := here ht
    obtain ⟨chained, ordered⟩ := examine_spec plain tidy hv task ok
    exact level_pass tidy chained ordered
  | @recognised t c a ht task =>
    obtain rfl := here ht
    obtain rfl : a = .none := by
      cases a with
      | none => rfl
      | drop => cases ok
      | forward row => cases ok
    obtain ⟨chained, ordered⟩ := acceptTruncate_spec tidy hv task
    exact level_pass tidy chained ordered
  | @timer t x ht armed =>
    obtain rfl := here ht
    exact ⟨⟨_, rfl, ⟨tidy.live, tidy.mark, tidy.empty, tidy.buffer, plainTask_congr rfl tidy.task,
      tidy.delivery, tidy.dest⟩, h, hv⟩, .of_eq rfl⟩
  | @timedFlush t n ht idle fired =>
    obtain rfl := here ht
    exact ⟨level_timedFlush tidy hv idle n, .of_eq rfl⟩
  | @flush t next ht task free =>
    obtain rfl := here ht
    obtain ⟨tidy', ordered⟩ := flush_spec (b := b) tidy hv free task
    exact ⟨⟨_, rfl, tidy', h, ordered⟩, .of_eq rfl⟩
  | @noticeDrained t cursor ht task free =>
    obtain rfl := here ht
    have plainTask := tidy.task
    rw [task] at plainTask
    exact plainTask.elim
  | @haltDrained t status ht task free =>
    obtain rfl := here ht
    have plainTask := tidy.task
    rw [task] at plainTask
    exact plainTask.elim
  | noticeHalted => cases ok
  | noticed => cases ok
  | noticeThrew => cases ok
  | noticeGivenUp => cases ok
  | fatal => cases ok
  | @delivered t d ht hd stage =>
    obtain rfl := here ht
    exact ⟨level_delivered tidy hv hd stage, .of_eq rfl⟩
  | refused => cases ok
  | @abandoned t d _ ht hd halted =>
    obtain rfl := here ht
    rw [tidy.live] at halted
    cases halted
  | @worked t d outcome tries a w₁ s₁ seq ht hd stage live hw =>
    obtain rfl := here ht
    obtain ⟨count, seq', smoothly⟩ := runWork_smooth (b := b) (w := w) (s := t) ok
      ((tidy.delivery d hd).succeeded stage)
    obtain ⟨hw₁, rfl, -⟩ : w₁ = w ∧ s₁ = { t with consecutiveFailures := count } ∧ seq = seq' := by
      simpa using hw.symm.trans smoothly
    subst hw₁
    exact ⟨level_worked tidy hv hd stage count seq, .of_eq rfl⟩
  | @workThrew t d outcome tries a w₁ s₁ ht hd stage live hw =>
    obtain rfl := here ht
    obtain ⟨count, seq, smoothly⟩ := runWork_smooth (b := b) (w := w) (s := t) ok
      ((tidy.delivery d hd).succeeded stage)
    cases smoothly.symm.trans hw
  | @workStopped t d outcome tries a w₁ s₁ ht hd stage live hw =>
    obtain rfl := here ht
    obtain ⟨count, seq, smoothly⟩ := runWork_smooth (b := b) (w := w) (s := t) ok
      ((tidy.delivery d hd).succeeded stage)
    cases smoothly.symm.trans hw
  | @checkpointed t d outcome nextSeq tries acked ht hd stage live =>
    obtain rfl := here ht
    exact level_checkpointed tidy hv hd stage acked
  | checkpointThrew => cases ok
  | @reconnect t n ht hn =>
    obtain rfl := here ht
    exact ⟨⟨t, ht, ⟨tidy.live, tidy.mark, tidy.empty, tidy.buffer, tidy.task, tidy.delivery,
      tidy.dest⟩, h, hv.resend hn⟩, .of_eq rfl⟩
  | crash => cases ok
  | restart => cases ok

theorem level_fresh : Level src (World.fresh : World γ R Sig) :=
  ⟨Stream.start none 0, rfl, ⟨rfl, rfl, fun _ => rfl, fun _ h => (nomatch h), trivial,
    fun _ h => (nomatch h), fun _ h => (nomatch h)⟩, 0, .start src⟩

end Steps

/-! ## The statement -/

section Statement

variable [DecidableEq Sig]

/-- Each delivered row does what its change does at the source. -/
theorem destState_eq {b : Bridge γ R Sig} {src : List (StreamItem γ R)} {w : World γ R Sig}
    (genuine : ∀ batch ∈ w.dest, ∀ i ∈ batch.items, Genuine src batch.op i) :
    destState b w = replay (fun _ => none)
      ((w.dest.flatMap fun batch => batch.items.map (·.change)).filterMap (writeOf b)) := by
  unfold destState
  congr 1
  rw [List.filterMap_flatMap]
  refine List.flatMap_congr fun batch hb => ?_
  rw [List.filterMap_map]
  refine List.filterMap_congr fun i hi => ?_
  obtain ⟨_, row, op⟩ := genuine batch hb i hi
  rw [op, row]
  rfl

variable [LinearOrder γ]

/-- Everything has been handed over, and nothing is on its way. -/
def Drained (src : List (StreamItem γ R)) (w : World γ R Sig) : Prop :=
  w.next = src.length ∧
    ∃ s, w.stream = some s ∧ s.task = .idle ∧ s.buffer = [] ∧ s.inflight = none

/-- In every run whose steps meet `ok`, a drained stream leaves the destination equal to the fold
of the source's changes. -/
def DrainsToSource (b : Bridge γ R Sig) (src : List (StreamItem γ R))
    (ok : World γ R Sig → Event R → Prop) : Prop :=
  ∀ es w, Run (World.step b src) ok World.fresh es w → Drained src w →
    destState b w = sourceState b src

/-- In every run whose steps meet `ok`, the persisted cursor never moves backwards. -/
def CursorAdvances (b : Bridge γ R Sig) (src : List (StreamItem γ R))
    (ok : World γ R Sig → Event R → Prop) : Prop :=
  ∀ es w es' w', Run (World.step b src) ok World.fresh es w → Run (World.step b src) ok w es' w' →
    NotBefore w w'

def Converges (b : Bridge γ R Sig) (src : List (StreamItem γ R))
    (ok : World γ R Sig → Event R → Prop) : Prop :=
  DrainsToSource b src ok ∧ CursorAdvances b src ok

/-- The steps in which every delivery succeeds, held to the condition. -/
def SmoothOrderly (b : Bridge γ R Sig) (src : List (StreamItem γ R)) (w : World γ R Sig)
    (e : Event R) : Prop := smooth e = true ∧ Orderly b src w e

theorem level_of_run {b : Bridge γ R Sig} {src : List (StreamItem γ R)} (ho : InOrder src)
    (plain : Plain b src) {w w' : World γ R Sig} {es : List (Event R)} (level : Level src w)
    (run : Run (World.step b src) (SmoothOrderly b src) w es w') : Level src w' :=
  run.invariant level fun _ _ _ ok level move => (level_step ho plain ok.1 ok.2 level move).1

omit [DecidableEq Sig] in
theorem sent_of_drained {src : List (StreamItem γ R)} {w : World γ R Sig} (level : Level src w)
    (drained : Drained src w) :
    (∀ batch ∈ w.dest, ∀ i ∈ batch.items, Genuine src batch.op i) ∧
      (w.dest.flatMap fun batch => batch.items.map (·.change)) = changes src := by
  obtain ⟨s, hs, tidy, h, hv⟩ := level
  obtain ⟨done, s', hs', idle, buffer, free⟩ := drained
  obtain rfl : s = s' := Option.some.inj (hs.symm.trans hs')
  have arrived : (view w s).sent = w.dest.flatMap fun batch => batch.items.map (·.change) := by
    rw [view, Stream.leaving, free]
    exact List.append_nil _
  have all := hv.sent_eq done (by simp [view, buffer]) (by rw [view, idle]; rfl)
  exact ⟨tidy.dest, arrived ▸ all⟩

theorem destState_of_drained {b : Bridge γ R Sig} {src : List (StreamItem γ R)}
    {w : World γ R Sig} (level : Level src w) (drained : Drained src w) :
    destState b w = sourceState b src := by
  obtain ⟨genuine, sent⟩ := sent_of_drained level drained
  rw [destState_eq genuine, sent, sourceState]

/-- Live delivery converges under re-sends in every run whose steps meet the condition. -/
theorem converges_of_orderly (b : Bridge γ R Sig) (src : List (StreamItem γ R))
    (ho : InOrder src) (plain : Plain b src) : Converges b src (SmoothOrderly b src) := by
  refine ⟨fun es w run drained => ?_, fun es w es' w' run run' => ?_⟩
  · exact destState_of_drained (level_of_run ho plain level_fresh run) drained
  · refine run'.related (Level src) NotBefore (level_of_run ho plain level_fresh run)
      (fun _ _ _ ok level move => (level_step ho plain ok.1 ok.2 level move).1)
      (fun _ => .of_eq rfl) (fun s t u h₁ h₂ p hp => ?_)
      (fun _ _ _ ok level move => (level_step ho plain ok.1 ok.2 level move).2)
    obtain ⟨p', hp', hle⟩ := h₁ p hp
    obtain ⟨p'', hp'', hle'⟩ := h₂ p' hp'
    exact ⟨p'', hp'', le_trans hle hle'⟩

end Statement

/-! ### An older copy delivered last

One row, inserted and then updated. The insert is in flight and the update waits when the provider
reconnects and hands the insert over again: it is not durable, so it is taken as new, and waits
behind the update. By the time the update is handed over again, its first copy *is* durable, and it
is dropped. The copy of the insert is what remains. -/

namespace OlderCopyLast

def bridge : Bridge Nat (Nat × String) Nat where
  cursorAfter cursor mark := match mark with | some m => decide (m < cursor) | none => true
  handlesSourceFilters := true
  tracksSchema := false
  rowMatchesFilters _ _ := true
  keySignature row := some row.1
  columnSignature _ := "id,name"
  hasUnchanged _ := false
  jsonLength _ := 0
  maxBatch := 100
  cdcBatchBytes := 0
  onError := .abort
  databaseDestination := true
  insertTarget := false
  maxConsecutiveFailures := 3
  deadLetterMaxRows := 1000

def src : List (StreamItem Nat (Nat × String)) :=
  [.change { op := .insert, row := (7, "old"), cursor := 1 },
   .change { op := .update, row := (7, "new"), cursor := 2 }]

def accepted : List (Event (Nat × String)) :=
  [.take, .examined { completion := .stopped, drift := .clear, echo := .none }]

def delivered : List (Event (Nat × String)) :=
  [.attempted .success,
   .work { recorded := true, isolation := [], counted := true, parked := .ok,
           recordedAfter := true },
   .checkpoint true true]

/-- The insert is in flight, and the update waits in the batch. -/
def before : List (Event (Nat × String)) := accepted ++ accepted ++ [.flush]

/-- The insert again; the update's first copy goes out, and is durable. -/
def overtaken : List (Event (Nat × String)) :=
  accepted ++ delivered ++ [.flush] ++ delivered

/-- The update again, dropped; the waiting copy of the insert goes out. -/
def after : List (Event (Nat × String)) := [.take, .timer, .timedFlush, .flush] ++ delivered

theorem src_plain : InOrder src ∧ Plain bridge src := by
  refine ⟨?_, fun cursor mark => ?_, fun _ _ => rfl, Or.inl rfl, fun cursor => ?_⟩
  · unfold InOrder src
    simp [StreamItem.cursor]
  · cases mark <;> simp [bridge]
  · simp [src]

/-- The steps of a run in which every delivery succeeds, and a reconnect hands over again what
lies after the last acknowledged cursor. -/
def SmoothResends (w : World Nat (Nat × String) Nat) (e : Event (Nat × String)) : Prop :=
  smooth e = true ∧ ResendsAfterAck src w e

theorem run_of_smooth {w w' : World Nat (Nat × String) Nat} {es : List (Event (Nat × String))}
    (h : runEvents (World.step bridge src) w es = some w')
    (calm : ∀ e ∈ es, smooth e = true ∧ ∀ n, e ≠ .reconnect n) :
    Run (World.step bridge src) SmoothResends w es w' := by
  induction es generalizing w with
  | nil =>
    obtain rfl : w = w' := by simpa [runEvents] using h
    exact .nil w
  | cons e es ih =>
    obtain ⟨u, hu, rest⟩ := Option.bind_eq_some_iff.mp h
    obtain ⟨ok, stays⟩ := calm e List.mem_cons_self
    exact .cons ⟨ok, fun n hn => absurd hn (stays n)⟩ hu
      (ih rest fun e he => calm e (List.mem_cons_of_mem _ he))

/-- The three stretches of the run, and what can be read off at their ends. -/
theorem shown : ∃ w₁ w₂ w₃,
    runEvents (World.step bridge src) World.fresh before = some w₁ ∧
    w₁.next = 2 ∧ w₁.acked = none ∧
    runEvents (World.step bridge src) { w₁ with next := 0 } overtaken = some w₂ ∧
    w₂.cursorJson = some 2 ∧
    runEvents (World.step bridge src) w₂ after = some w₃ ∧
    w₃.cursorJson = some 1 ∧ Drained src w₃ ∧ destState bridge w₃ 7 = some (7, "old") :=
  ⟨_, _, _, rfl, rfl, rfl, rfl, rfl, rfl, rfl, ⟨rfl, _, rfl, rfl, rfl, rfl⟩, rfl⟩

theorem sourceState_new : sourceState bridge src 7 = some (7, "new") := rfl

/-- Both halves fail: the destination keeps the old row, and the cursor goes back from 2 to 1. -/
theorem not_converges : InOrder src ∧ Plain bridge src ∧
    ¬ DrainsToSource bridge src SmoothResends ∧ ¬ CursorAdvances bridge src SmoothResends := by
  obtain ⟨w₁, w₂, w₃, first, next, acked, second, forth, third, back, drained, old⟩ := shown
  have run₁ := run_of_smooth first (by simp [before, accepted, smooth])
  have run₂ := run_of_smooth second (by simp [overtaken, accepted, delivered, smooth])
  have run₃ := run_of_smooth third (by simp [after, delivered, smooth])
  have resend : World.step bridge src w₁ (.reconnect 0) = some { w₁ with next := 0 } := by
    obtain ⟨s, hs⟩ : ∃ s, w₁.stream = some s := by
      cases hs : w₁.stream with
      | some s => exact ⟨s, rfl⟩
      | none => simp [overtaken, accepted, runEvents, World.step, hs] at second
    simp [World.step, hs, World.running]
  have ok : SmoothResends w₁ (.reconnect 0) :=
    ⟨rfl, fun _ _ _ _ a ha => by simp [acked] at ha⟩
  have run : Run (World.step bridge src) SmoothResends World.fresh _ w₂ :=
    (run₁.snoc ok resend).append run₂
  refine ⟨src_plain.1, src_plain.2, fun always => ?_, fun always => ?_⟩
  · have same := congrFun (always _ _ (run.append run₃) drained) 7
    rw [old, sourceState_new] at same
    exact absurd same (by decide)
  · obtain ⟨p, hp, hle⟩ := always _ _ _ _ run run₃ 2 forth
    rw [back] at hp
    cases hp
    exact absurd hle (by decide)

/-- The reconnect comes once the insert is durable, and while the update waits: the insert is handed
over again and dropped. Once the update is durable too it is handed over again, and dropped. -/
def resent : List (Event (Nat × String)) :=
  before ++ delivered ++ [.reconnect 0, .take] ++ [.timer, .timedFlush, .flush] ++ delivered ++
    [.take]

instance (w : World Nat (Nat × String) Nat) (e : Event (Nat × String)) :
    Decidable (SmoothOrderly bridge src w e) :=
  inferInstanceAs (Decidable (_ ∧ _))

/-- That run meets the condition. -/
theorem converges_resent : Converges bridge src (SmoothOrderly bridge src) ∧
    ∃ w, Run (World.step bridge src) (SmoothOrderly bridge src) World.fresh resent w ∧
      Drained src w ∧ destState bridge w 7 = some (7, "new") := by
  obtain ⟨w, run, drained, new⟩ : ∃ w,
      runEvents (guarded (World.step bridge src) (SmoothOrderly bridge src)) World.fresh resent =
        some w ∧ Drained src w ∧ destState bridge w 7 = some (7, "new") :=
    ⟨_, rfl, ⟨rfl, _, rfl, rfl, rfl, rfl⟩, rfl⟩
  exact ⟨converges_of_orderly bridge src src_plain.1 src_plain.2, w, run_iff_runEvents.mpr run,
    drained, new⟩

end OlderCopyLast

end Syncle.Cdc
