import Syncle.Lib.Run
import Syncle.Lib.Redelivery
import Syncle.Spool.Entry

/-!
# Through the spool, and into the destination

The reader appends each batch to the bridge's stream in Redis (`CdcSpoolService.append`), and the
consumer reads the stream's head in windows, delivers what it has read run by run, and trims each run
once it is delivered (`startConsumer`, `deliverSpooled`). An append may land in part and is then made
again as a whole, so entries can stand in the stream twice; a consumer that is stopped between a
delivery and its trim delivers the run again.

All of that is early delivery of entries that are delivered again later on, which rows under keys
absorb (`Lib.Patch.laterWins`). What can go wrong is before and beside it: a row that does not come
out of its text as it went in, and a key that cannot be serialised, on which the consumer stops for
good.
-/

namespace Syncle.Spool

open Js Cdc Lib

/-! ## The destination -/

section Destination

variable {K : Type*} [DecidableEq K]

/-- The columns a row is written with: one the change did not carry is left out. -/
def written (row : Row) (column : String) : Option Value :=
  match row.get column with
  | some .unchanged => none
  | value => value

/-- What an entry does to a destination that keys its rows by `key`. -/
def patchOf (key : Row → K) (entry : SpoolEntry) : Patch K String Value :=
  match entry.op with
  | .change .insert | .change .update => .merge (key entry.row) (written entry.row)
  | .change .delete => .remove (key entry.row)
  | .change .truncate => .clear
  | .notice => .keep

/-- One entry, delivered. -/
def deliverEntry (key : Row → K) (d : K → Option (String → Option Value)) (entry : SpoolEntry) :
    K → Option (String → Option Value) :=
  (patchOf key entry).apply d

/-- The direct path: each batch is one delivery, in order. -/
def direct (key : Row → K) (d : K → Option (String → Option Value))
    (batches : List (List SpoolEntry)) : K → Option (String → Option Value) :=
  batches.foldl (fun d batch => batch.foldl (deliverEntry key) d) d

theorem direct_eq_foldl (key : Row → K) (d : K → Option (String → Option Value))
    (batches : List (List SpoolEntry)) :
    direct key d batches = batches.flatten.foldl (deliverEntry key) d := by
  induction batches generalizing d with
  | nil => rfl
  | cons batch batches ih =>
    rw [List.flatten_cons, List.foldl_append]
    exact ih _

theorem laterWins_deliverEntry (key : Row → K) : LaterWins (deliverEntry key) where
  again d e := Patch.laterWins.again d (patchOf key e)
  between d d' e x same := Patch.laterWins.between d d' (patchOf key e) (patchOf key x) same

end Destination

/-! ## The stream -/

/-- An entry as the stream holds it. -/
structure Stored where
  id : StreamId
  text : EntryText
  deriving DecidableEq

/-- A Redis stream: its entries, and the last id it has given. -/
structure RedisStream where
  entries : List Stored := []
  lastId : StreamId := ⟨0, 0⟩
  deriving DecidableEq

namespace RedisStream

/-- The id `*` stands for. -/
def nextId (s : RedisStream) (now : ℕ) : StreamId :=
  if s.lastId.ms < now then ⟨now, 0⟩ else ⟨s.lastId.ms, s.lastId.seq + 1⟩

def xadd (s : RedisStream) (now : ℕ) (entry : SpoolEntry) : RedisStream :=
  { entries := s.entries ++ [{ id := s.nextId now, text := encodeEntry entry }]
    lastId := s.nextId now }

/-- The pipeline of one `append`: each XADD lands or is refused. -/
def pipeline (now : ℕ) : RedisStream → List (SpoolEntry × Bool) → RedisStream
  | s, [] => s
  | s, (entry, true) :: rest => pipeline now (s.xadd now entry) rest
  | s, (_, false) :: rest => pipeline now s rest

/-- `XTRIM MINID` -/
def xtrim (s : RedisStream) (id : StreamId) : RedisStream :=
  { s with entries := s.entries.filter fun e => !e.id.before id }

def decoded (e : Stored) : Option SpooledItem :=
  (decodeEntry e.text).map fun entry => { id := e.id, entry := entry }

/-- `read`: the first `count` entries. -/
def read (s : RedisStream) (count : ℕ) : List SpooledItem := (s.entries.take count).filterMap decoded

/-- …and an entry among them that cannot be read is deleted. -/
def discard (s : RedisStream) (count : ℕ) : RedisStream :=
  { s with
    entries := (s.entries.take count).filter (fun e => (decoded e).isSome) ++ s.entries.drop count }

end RedisStream

/-! ## The reader and the consumer -/

inductive Consumer where
  | idle
  | delivering (run : List SpooledItem) (rest : List (List SpooledItem))
  /-- the run has been delivered -/
  | trimming (run : List SpooledItem) (rest : List (List SpooledItem))
  /-- it has thrown, and nothing starts it again -/
  | stopped
  deriving DecidableEq

structure World (K : Type*) where
  /-- the batches the reader has yet to append -/
  upcoming : List (List SpoolEntry)
  stream : RedisStream
  consumer : Consumer
  dest : K → Option (String → Option Value)

inductive Event where
  /-- one `append` of the next batch, as far as its commands landed -/
  | append (now : ℕ) (landed : List Bool)
  | read (count : ℕ)
  | deliver
  | trim
  /-- the stream is stopped, or the process dies; a new consumer starts -/
  | restart
  deriving DecidableEq

section Code

variable {K : Type*} [DecidableEq K]

/-- The consumer goes on to its next run. -/
def Consumer.nextRun : List (List SpooledItem) → Consumer
  | [] => .idle
  | run :: rest => .delivering run rest

def step (pk : Option (List String)) (key : Row → K) (w : World K) : Event → Option (World K)
  | .append now landed =>
    match w.upcoming with
    | [] => none
    | batch :: rest =>
      if landed.length = batch.length then
        some { w with
          stream := w.stream.pipeline now (batch.zip landed)
          upcoming := if landed.all id then rest else batch :: rest }
      else none
  | .read count =>
    match w.consumer with
    | .idle =>
      some { w with
        stream := w.stream.discard count
        consumer :=
          match deliverableRuns (w.stream.read count) pk with
          | none => .stopped
          | some runs => .nextRun runs }
    | _ => none
  | .deliver =>
    match w.consumer with
    | .delivering run rest =>
      some { w with
        dest := (run.map SpooledItem.entry).foldl (deliverEntry key) w.dest
        consumer := .trimming run rest }
    | _ => none
  | .trim =>
    match w.consumer with
    | .trimming run rest =>
      some { w with
        stream :=
          match run.getLast? with
          | some last => w.stream.xtrim (nextStreamId last.id)
          | none => w.stream
        consumer := .nextRun rest }
    | _ => none
  | .restart => some { w with consumer := .idle }

/-- A bridge that has spooled nothing yet. -/
def start (d : K → Option (String → Option Value)) (batches : List (List SpoolEntry)) : World K :=
  { upcoming := batches, stream := {}, consumer := .idle, dest := d }

/-- Everything has gone through the spool. -/
def World.Drained (w : World K) : Prop := w.upcoming = [] ∧ w.stream.entries = []

/-! ## What the spool promises -/

/-- **The spooled path delivers what the direct path delivers.** -/
structure DeliversAsDirect (pk : Option (List String)) (key : Row → K)
    (d : K → Option (String → Option Value)) (batches : List (List SpoolEntry)) : Prop where
  /-- every entry comes out as it went in -/
  entries : ∀ e ∈ batches.flatten, decodeEntry (encodeEntry e) = some e
  /-- every window of entries is cut into runs, in order -/
  windows : ∀ items : List SpooledItem, (∀ i ∈ items, i.entry ∈ batches.flatten) →
    ∃ runs, deliverableRuns items pk = some runs ∧ runs.flatten = items ∧
      ∀ run ∈ runs, Deliverable pk run
  /-- the consumer never gives up -/
  consumes : ∀ es w, Run (step pk key) anyStep (start d batches) es w → w.consumer ≠ .stopped
  /-- and once the spool is empty the destination is what the direct path makes it -/
  drained : ∀ es w, Run (step pk key) anyStep (start d batches) es w → w.Drained →
    w.dest = direct key d batches

end Code

/-! ## The stream's order -/

section Ids

theorem StreamId.before_iff {a b : StreamId} :
    a.before b = true ↔ a.ms < b.ms ∨ a.ms = b.ms ∧ a.seq < b.seq := by
  simp [StreamId.before]

theorem StreamId.before_trans {a b c : StreamId} (hab : a.before b = true)
    (hbc : b.before c = true) : a.before c = true := by
  rw [StreamId.before_iff] at *
  omega

theorem RedisStream.lastId_before_nextId (s : RedisStream) (now : ℕ) :
    s.lastId.before (s.nextId now) = true := by
  rw [StreamId.before_iff, RedisStream.nextId]
  split <;> simp_all

/-- Trimming below the successor of an id trims that id… -/
theorem before_nextStreamId_self (id : StreamId) : id.before (nextStreamId id) = true := by
  simp [StreamId.before, nextStreamId]

/-- …and what comes before it, and nothing that comes after it. -/
theorem before_nextStreamId_of_before {a id : StreamId} (h : a.before id = true) :
    a.before (nextStreamId id) = true := by
  rw [StreamId.before_iff] at *
  simp only [nextStreamId]
  omega

theorem not_before_nextStreamId {a id : StreamId} (h : id.before a = true) :
    a.before (nextStreamId id) = false := by
  rw [StreamId.before_iff] at h
  rw [← Bool.not_eq_true, StreamId.before_iff]
  simp only [nextStreamId]
  omega

end Ids

/-- The stream holds exactly these items, in the order of their ids. -/
structure Holds (s : RedisStream) (items : List SpooledItem) : Prop where
  entries : s.entries = items.map fun i => { id := i.id, text := encodeEntry i.entry }
  sorted : items.Pairwise fun i j => i.id.before j.id = true
  last : ∀ i ∈ items, i.id = s.lastId ∨ i.id.before s.lastId = true

namespace Holds

variable {s : RedisStream} {items : List SpooledItem}

theorem xadd (h : Holds s items) (now : ℕ) (entry : SpoolEntry) :
    Holds (s.xadd now entry) (items ++ [{ id := s.nextId now, entry := entry }]) where
  entries := by simp [RedisStream.xadd, h.entries]
  sorted := by
    refine List.pairwise_append.mpr ⟨h.sorted, by simp, ?_⟩
    intro i hi j hj
    obtain rfl := List.mem_singleton.mp hj
    rcases h.last i hi with heq | hlt
    · rw [heq]
      exact s.lastId_before_nextId now
    · exact StreamId.before_trans hlt (s.lastId_before_nextId now)
  last i hi := by
    rcases List.mem_append.mp hi with hi | hi
    · refine Or.inr ?_
      rcases h.last i hi with heq | hlt
      · rw [heq]
        exact s.lastId_before_nextId now
      · exact StreamId.before_trans hlt (s.lastId_before_nextId now)
    · rw [List.mem_singleton.mp hi]
      exact Or.inl rfl

/-- What an `append` leaves behind: some of the batch's entries, all of them if all landed. -/
theorem pipeline (h : Holds s items) (now : ℕ) (sent : List (SpoolEntry × Bool)) :
    ∃ more, Holds (s.pipeline now sent) (items ++ more) ∧
      more.map SpooledItem.entry = (sent.filter Prod.snd).map Prod.fst := by
  induction sent generalizing s items with
  | nil => exact ⟨[], by simpa [RedisStream.pipeline] using h, rfl⟩
  | cons command rest ih =>
    obtain ⟨entry, landed⟩ := command
    cases landed with
    | true =>
      obtain ⟨more, hmore, entries⟩ := ih (h.xadd now entry)
      exact ⟨_, by simpa [RedisStream.pipeline] using hmore, by simp [entries]⟩
    | false => exact ih h

/-- What is read is what is held. -/
theorem read (h : Holds s items) (storable : ∀ i ∈ items, i.entry.Storable) (count : ℕ) :
    s.read count = items.take count := by
  have decoded : ∀ l : List SpooledItem, (∀ i ∈ l, i.entry.Storable) →
      (l.map fun i => ({ id := i.id, text := encodeEntry i.entry } : Stored)).filterMap
        RedisStream.decoded = l := by
    intro l hl
    induction l with
    | nil => rfl
    | cons i l ih =>
      simp only [List.forall_mem_cons] at hl
      simp [RedisStream.decoded, decodeEntry_encodeEntry hl.1, ih hl.2]
  rw [RedisStream.read, h.entries, ← List.map_take]
  exact decoded _ fun i hi => storable i (List.mem_of_mem_take hi)

theorem discard (h : Holds s items) (storable : ∀ i ∈ items, i.entry.Storable) (count : ℕ) :
    s.discard count = s := by
  have kept : (s.entries.take count).filter (fun e => (RedisStream.decoded e).isSome) =
      s.entries.take count := by
    rw [List.filter_eq_self]
    intro e he
    have he := List.mem_of_mem_take he
    rw [h.entries] at he
    obtain ⟨i, hi, rfl⟩ := List.mem_map.mp he
    simp [RedisStream.decoded, decodeEntry_encodeEntry (storable i hi)]
  rw [RedisStream.discard, kept, List.take_append_drop]

/-- Trimming through the last item of a run at the head leaves what comes after the run. -/
theorem xtrim {run rest : List SpooledItem} {last : SpooledItem} (h : Holds s (run ++ rest))
    (hlast : run.getLast? = some last) : Holds (s.xtrim (nextStreamId last.id)) rest := by
  have sorted := List.pairwise_append.mp h.sorted
  obtain ⟨front, hrun⟩ := List.getLast?_eq_some_iff.mp hlast
  have trimmed : ∀ i ∈ run, i.id.before (nextStreamId last.id) = true := by
    intro i hi
    rw [hrun] at hi sorted
    rcases List.mem_append.mp hi with hi | hi
    · exact before_nextStreamId_of_before
        ((List.pairwise_append.mp sorted.1).2.2 i hi last (by simp))
    · rw [List.mem_singleton.mp hi]
      exact before_nextStreamId_self _
  have kept : ∀ i ∈ rest, i.id.before (nextStreamId last.id) = false := fun i hi =>
    not_before_nextStreamId (sorted.2.2 last (by simp [hrun]) i hi)
  constructor
  · simp only [RedisStream.xtrim, h.entries, List.filter_map, List.filter_append]
    rw [List.filter_eq_nil_iff.mpr fun i hi => by simp [trimmed i hi],
      List.filter_eq_self.mpr fun i hi => by simp [kept i hi], List.nil_append]
  · exact sorted.2.1
  · intro i hi
    exact h.last i (List.mem_append_right _ hi)

end Holds

/-! ## The invariant -/

section Invariant

variable {K : Type*} [DecidableEq K]
variable {pk : Option (List String)} {key : Row → K} {d : K → Option (String → Option Value)}
variable {all : List SpoolEntry} {items : List SpooledItem} {w w' : World K}

/-- Where the consumer stands in what the stream holds. -/
def Consumer.Stands (pk : Option (List String)) (delivered : List SpoolEntry → Prop)
    (items : List SpooledItem) : Consumer → Prop
  | .idle => True
  | .delivering run rest =>
    (∀ r ∈ run :: rest, Deliverable pk r) ∧ ∃ tail, items = run ++ (rest.flatten ++ tail)
  | .trimming run rest =>
    (∀ r ∈ run :: rest, Deliverable pk r) ∧ (∃ tail, items = run ++ (rest.flatten ++ tail)) ∧
      delivered (run.map SpooledItem.entry)
  | .stopped => False

theorem Consumer.Stands.append {delivered : List SpoolEntry → Prop} {c : Consumer}
    (h : c.Stands pk delivered items) (more : List SpooledItem) :
    c.Stands pk delivered (items ++ more) := by
  cases c with
  | idle => trivial
  | delivering run rest =>
    obtain ⟨runs, tail, rfl⟩ := h
    exact ⟨runs, tail ++ more, by simp⟩
  | trimming run rest =>
    obtain ⟨runs, ⟨tail, rfl⟩, hdelivered⟩ := h
    exact ⟨runs, ⟨tail ++ more, by simp⟩, hdelivered⟩
  | stopped => exact h.elim

theorem Consumer.stands_nextRun {delivered : List SpoolEntry → Prop}
    {runs : List (List SpooledItem)} (hruns : ∀ r ∈ runs, Deliverable pk r)
    {tail : List SpooledItem} (hitems : items = runs.flatten ++ tail) :
    (Consumer.nextRun runs).Stands pk delivered items := by
  cases runs with
  | nil => trivial
  | cons run rest => exact ⟨hruns, tail, by simpa using hitems⟩

/-- **What the destination will be is decided**: by what it holds, what waits in the spool and what
the reader still has. -/
structure Inv (pk : Option (List String)) (key : Row → K) (d : K → Option (String → Option Value))
    (all : List SpoolEntry) (w : World K) (items : List SpooledItem) : Prop where
  holds : Holds w.stream items
  known : ∀ i ∈ items, i.entry ∈ all
  upcoming : ∀ e ∈ w.upcoming.flatten, e ∈ all
  consumer : w.consumer.Stands pk
    (fun run => run.foldl (deliverEntry key) w.dest = w.dest) items
  decided : (items.map SpooledItem.entry ++ w.upcoming.flatten).foldl (deliverEntry key) w.dest =
    all.foldl (deliverEntry key) d

theorem Inv.start (batches : List (List SpoolEntry)) :
    Inv pk key d batches.flatten (start d batches) [] where
  holds := ⟨rfl, by simp, by simp⟩
  known := by simp
  upcoming := fun _ he => he
  consumer := trivial
  decided := rfl

theorem Inv.append {now : ℕ} {landed : List Bool} (h : Inv pk key d all w items)
    (hstep : step pk key w (.append now landed) = some w') : ∃ items', Inv pk key d all w' items' := by
  simp only [step] at hstep
  split at hstep
  · cases hstep
  · next batch rest hup =>
    split at hstep
    · next hlength =>
      obtain rfl := Option.some.inj hstep
      obtain ⟨more, hmore, hentries⟩ := h.holds.pipeline now (batch.zip landed)
      have decided := h.decided
      simp only [hup, List.flatten_cons] at decided
      have sub : ∀ e ∈ more.map SpooledItem.entry, e ∈ batch := by
        intro e he
        rw [hentries] at he
        obtain ⟨c, hc, rfl⟩ := List.mem_map.mp he
        exact (List.of_mem_zip (List.mem_filter.mp hc).1).1
      have known : ∀ i ∈ items ++ more, i.entry ∈ all := by
        intro i hi
        rcases List.mem_append.mp hi with hi | hi
        · exact h.known i hi
        · apply h.upcoming
          simp only [hup, List.flatten_cons, List.mem_append]
          exact Or.inl (sub _ (List.mem_map_of_mem hi))
      have upcoming := h.upcoming
      simp only [hup, List.flatten_cons] at upcoming
      refine ⟨items ++ more, hmore, known, ?_, h.consumer.append more, ?_⟩
      · intro e he
        split at he
        · exact upcoming e (List.mem_append_right _ he)
        · exact upcoming e he
      · split
        · next landedAll =>
          -- everything landed: the batch has moved from the reader to the spool
          have full : more.map SpooledItem.entry = batch := by
            rw [hentries, List.filter_eq_self.mpr]
            · exact List.map_fst_zip (Nat.le_of_eq hlength.symm)
            · intro c hc
              simpa using List.all_eq_true.mp landedAll _ (List.of_mem_zip hc).2
          simpa [full] using decided
        · -- what landed of it comes again with the batch
          rw [List.map_append, List.append_assoc, List.foldl_append,
            (laterWins_deliverEntry key).absorb, ← List.foldl_append]
          · exact decided
          · intro e he
            simp only [List.flatten_cons, List.mem_append]
            exact Or.inl (sub e he)
    · cases hstep

theorem Inv.read {count : ℕ} (h : Inv pk key d all w items)
    (storable : ∀ e ∈ all, e.Storable) (keyable : ∀ e ∈ all, Keyable pk e.row)
    (hstep : step pk key w (.read count) = some w') : Inv pk key d all w' items := by
  have stored : ∀ i ∈ items, i.entry.Storable := fun i hi => storable _ (h.known i hi)
  simp only [step] at hstep
  split at hstep
  · obtain rfl := Option.some.inj hstep
    simp only [h.holds.read stored, h.holds.discard stored]
    have cuts : (deliverableRuns (items.take count) pk).isSome :=
      deliverableRuns_isSome.mpr fun i hi =>
        keyable _ (h.known i (List.mem_of_mem_take hi))
    obtain ⟨runs, hruns⟩ := Option.isSome_iff_exists.mp cuts
    obtain ⟨hflat, deliverable⟩ := deliverableRuns_spec hruns
    simp only [hruns]
    refine ⟨h.holds, h.known, h.upcoming, ?_, h.decided⟩
    apply Consumer.stands_nextRun deliverable
    rw [hflat, List.take_append_drop]
  · cases hstep

theorem Inv.deliver (h : Inv pk key d all w items) (hstep : step pk key w .deliver = some w') :
    Inv pk key d all w' items := by
  simp only [step] at hstep
  split at hstep
  · next run rest hconsumer =>
    obtain rfl := Option.some.inj hstep
    have stands := h.consumer
    rw [hconsumer] at stands
    obtain ⟨runs, tail, hitems⟩ := stands
    refine ⟨h.holds, h.known, h.upcoming,
      ⟨runs, ⟨tail, hitems⟩, (laterWins_deliverEntry key).settled _ _⟩, ?_⟩
    -- the run is still in the spool, so delivering it now is delivering it early
    rw [← List.foldl_append, (laterWins_deliverEntry key).absorb, h.decided]
    intro e he
    simp only [hitems, List.map_append, List.mem_append]
    exact Or.inl (Or.inl he)
  · cases hstep

theorem Inv.trim (h : Inv pk key d all w items) (hstep : step pk key w .trim = some w') :
    ∃ items', Inv pk key d all w' items' := by
  simp only [step] at hstep
  split at hstep
  · next run rest hconsumer =>
    obtain rfl := Option.some.inj hstep
    have stands := h.consumer
    rw [hconsumer] at stands
    obtain ⟨runs, ⟨tail, rfl⟩, delivered⟩ := stands
    have nonempty := (runs run List.mem_cons_self).nonempty
    have hlast := List.getLast?_eq_some_getLast nonempty
    simp only [hlast]
    refine ⟨rest.flatten ++ tail, h.holds.xtrim hlast, ?_, h.upcoming, ?_, ?_⟩
    · intro i hi
      exact h.known i (List.mem_append_right _ hi)
    · exact Consumer.stands_nextRun (fun r hr => runs r (List.mem_cons_of_mem _ hr)) rfl
    · have decided := h.decided
      rw [List.map_append, List.append_assoc, List.foldl_append, delivered] at decided
      exact decided
  · cases hstep

/-- One step keeps the invariant. -/
theorem Inv.step {e : Event} (h : Inv pk key d all w items)
    (storable : ∀ e ∈ all, e.Storable) (keyable : ∀ e ∈ all, Keyable pk e.row)
    (hstep : step pk key w e = some w') : ∃ items', Inv pk key d all w' items' := by
  cases e with
  | append now landed => exact h.append hstep
  | read count => exact ⟨items, h.read storable keyable hstep⟩
  | deliver => exact ⟨items, h.deliver hstep⟩
  | trim => exact h.trim hstep
  | restart =>
    obtain rfl := Option.some.inj hstep
    exact ⟨items, h.holds, h.known, h.upcoming, trivial, h.decided⟩

end Invariant

section Runs

variable {K : Type*} [DecidableEq K]
variable (pk : Option (List String)) (key : Row → K) (d : K → Option (String → Option Value))
variable (batches : List (List SpoolEntry))

theorem inv_of_run (storable : ∀ e ∈ batches.flatten, e.Storable)
    (keyable : ∀ e ∈ batches.flatten, Keyable pk e.row) {es : List Event} {w : World K}
    (run : Run (step pk key) anyStep (start d batches) es w) :
    ∃ items, Inv pk key d batches.flatten w items := by
  have keep : ∀ (w : World K) (e : Event) (w' : World K), anyStep w e →
      (∃ items, Inv pk key d batches.flatten w items) → step pk key w e = some w' →
      ∃ items, Inv pk key d batches.flatten w' items := by
    rintro w e w' - ⟨items, h⟩ hstep
    exact h.step storable keyable hstep
  exact run.invariant ⟨[], .start batches⟩ keep

/-- **The spooled path delivers what the direct path delivers if and only if** every row can be
stored and every key serialised: each value survives the codec, no column is called `__proto__`, and
no key column holds a `bigint`. -/
theorem deliversAsDirect_iff :
    DeliversAsDirect pk key d batches ↔
      ∀ e ∈ batches.flatten, e.Storable ∧ Keyable pk e.row := by
  constructor
  · intro h e he
    refine ⟨(decodeEntry_encodeEntry_iff e).mp (h.entries e he), ?_⟩
    obtain ⟨runs, hruns, -⟩ := h.windows [{ id := ⟨0, 0⟩, entry := e }] (by simpa using he)
    have cuts := deliverableRuns_isSome.mp (Option.isSome_iff_exists.mpr ⟨runs, hruns⟩)
    exact cuts _ List.mem_cons_self
  · intro h
    have storable := fun e he => (h e he).1
    have keyable := fun e he => (h e he).2
    constructor
    · intro e he
      exact decodeEntry_encodeEntry (storable e he)
    · intro items hitems
      have cuts : (deliverableRuns items pk).isSome :=
        deliverableRuns_isSome.mpr fun i hi => keyable _ (hitems i hi)
      obtain ⟨runs, hruns⟩ := Option.isSome_iff_exists.mp cuts
      exact ⟨runs, hruns, deliverableRuns_spec hruns⟩
    · intro es w run stopped
      obtain ⟨items, inv⟩ := inv_of_run pk key d batches storable keyable run
      have stands := inv.consumer
      rw [stopped] at stands
      exact stands
    · rintro es w run ⟨read, empty⟩
      obtain ⟨items, inv⟩ := inv_of_run pk key d batches storable keyable run
      have none : items = [] := by
        have := inv.holds.entries
        rw [empty] at this
        simpa using this.symm
      have decided := inv.decided
      rw [none, read] at decided
      rw [direct_eq_foldl]
      exact decided

end Runs

/-! A table keyed on a `BIGINT` column. -/

namespace BigintKey

def inserted : SpoolEntry :=
  { op := .change .insert, cursor := "1"
    row := { columns := .cons "id" (.bigint 9007199254740993) .nil } }

/-- The key of the row is a `bigint`: `deliverableRuns` throws. -/
theorem not_deliversAsDirect :
    ¬ DeliversAsDirect (some ["id"]) (fun row => row.get "id") (fun _ => none) [[inserted]] := by
  intro h
  obtain ⟨runs, hruns, -⟩ := h.windows [{ id := ⟨1, 0⟩, entry := inserted }] (by simp)
  cases hruns

end BigintKey

end Syncle.Spool
