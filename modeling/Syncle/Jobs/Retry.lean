import Syncle.Jobs.Replay
import Syncle.Lib.Pages

/-!
# What a retry sends

`retryFailed` puts the job's position back to the start. The worker reads the source anew
(`TableReaderService.rows`), gathers batches, and passes over a batch whose number is settled
(`execute`, `flush` of `bridge-job.processor.ts`). A failed delivery is remembered by its number, and
the number stands for a place in the reading, not for rows.
-/

namespace Syncle.Jobs

open Lib

variable {R K O : Type*} [LinearOrder O]

/-! ## The table, read anew -/

/-- How a source is read. By its own cursor an engine answers with what pages it likes. -/
inductive Paging (R O : Type*) where
  | keyset (rank : R → O)
  | offset (rank : R → O)
  /-- `own`: `isSyncleOwnKey` of the row's key -/
  | cursor (pages : List (List R)) (own : R → Bool)
  /-- a query, read at once -/
  | query

namespace Paging

/-- Empty pages are not the end; the last page is. -/
def cursorRows (own : R → Bool) : List (List R) → List R
  | [] => []
  | page :: pages => (page.filter fun r => !own r) ++ cursorRows own pages

/-- `rows`, from the start. -/
def rows (pageSize : Nat) (table : List R) : Paging R O → List R
  | .keyset rank => readAfter rank pageSize table (table.length + 1) none
  | .offset rank => readFrom rank pageSize table (table.length + 1) 0
  | .cursor pages own => cursorRows own pages
  | .query => table

/-- The order the rows come in. -/
def order (table : List R) : Paging R O → List R
  | .keyset rank => inOrder rank table
  | .offset rank => inOrder rank table
  | .cursor pages own => pages.flatten.filter fun r => !own r
  | .query => table

/-- What is paged after a key is paged by a key. -/
def Unique (table : List R) : Paging R O → Prop
  | .keyset rank => (table.map rank).Nodup
  | _ => True

theorem cursorRows_eq (own : R → Bool) (pages : List (List R)) :
    cursorRows own pages = pages.flatten.filter fun r => !own r := by
  induction pages with
  | nil => rfl
  | cons page pages ih => simp [cursorRows, ih]

theorem rows_eq {pageSize : Nat} {table : List R} {p : Paging R O} (pos : 0 < pageSize)
    (unique : p.Unique table) : p.rows pageSize table = p.order table := by
  cases p with
  | keyset rank =>
    have all : (inOrder rank table).filter (behind rank none) = inOrder rank table :=
      List.filter_eq_self.mpr fun _ _ => rfl
    have length : (inOrder rank table).length = table.length :=
      (List.perm_insertionSort _ table).length_eq
    refine (readAfter_eq pos unique ?_).trans all
    rw [all, length]
    exact Nat.lt_succ_self _
  | offset rank =>
    have length : (inOrder rank table).length = table.length :=
      (List.perm_insertionSort _ table).length_eq
    refine readFrom_eq pos ?_
    rw [List.drop_zero, length]
    exact Nat.lt_succ_self _
  | cursor pages own => exact cursorRows_eq own pages
  | query => rfl

end Paging

/-! ## The batches -/

/-- A batch that was settled is passed over. -/
def flush (batchSize : Nat) (done : List Nat) (startIndex : Nat) (rows : List R) :
    List (Nat × List R) :=
  let sequence := startIndex / batchSize
  if done.contains sequence then [] else [(sequence, rows)]

/-- The batches that are sent, when every delivery succeeds: their numbers and rows. -/
def execute (batchSize : Nat) (done : List Nat) (bufferStart : Nat) (buffer : List R) :
    List R → List (Nat × List R)
  | [] => if buffer = [] then [] else flush batchSize done bufferStart buffer
  | row :: rest =>
    if (buffer ++ [row]).length = batchSize then
      flush batchSize done bufferStart (buffer ++ [row]) ++
        execute batchSize done (bufferStart + (buffer ++ [row]).length) [] rest
    else execute batchSize done bufferStart (buffer ++ [row]) rest

/-- A row is sent when a place it is read at lies in a batch that is not settled. -/
def SentAt (batchSize : Nat) (done : List Nat) (start : Nat) (rows : List R) (r : R) : Prop :=
  ∃ i, rows[i]? = some r ∧ (start + i) / batchSize ∉ done

def sentRows (batches : List (Nat × List R)) : List R := batches.flatMap (·.2)

theorem mem_flush {batchSize start : Nat} {done : List Nat} {rows : List R} {r : R}
    (aligned : batchSize ∣ start) (fits : rows.length ≤ batchSize) :
    r ∈ sentRows (flush batchSize done start rows) ↔ SentAt batchSize done start rows r := by
  -- the places of one batch have one number
  have number : ∀ i < rows.length, (start + i) / batchSize = start / batchSize := by
    intro i lt
    obtain ⟨q, rfl⟩ := aligned
    have pos : 0 < batchSize := by omega
    rw [Nat.mul_add_div pos, Nat.div_eq_of_lt (by omega), Nat.mul_div_cancel_left _ pos, Nat.add_zero]
  unfold flush sentRows SentAt
  simp only
  split
  case isTrue settled =>
    simp only [List.flatMap_nil, List.not_mem_nil, false_iff, not_exists, not_and, not_not]
    intro i there
    obtain ⟨lt, -⟩ := List.getElem?_eq_some_iff.mp there
    rw [number i lt]
    simpa using settled
  case isFalse fresh =>
    simp only [List.flatMap_cons, List.flatMap_nil, List.append_nil]
    constructor
    · intro mem
      obtain ⟨i, lt, is⟩ := List.getElem_of_mem mem
      refine ⟨i, List.getElem?_eq_some_iff.mpr ⟨lt, is⟩, ?_⟩
      rw [number i lt]
      simpa using fresh
    · rintro ⟨i, there, -⟩
      exact List.mem_of_getElem? there

theorem sentAt_append {batchSize start : Nat} {done : List Nat} {front back : List R} {r : R} :
    SentAt batchSize done start (front ++ back) r ↔
      SentAt batchSize done start front r ∨
        SentAt batchSize done (start + front.length) back r := by
  constructor
  · rintro ⟨i, there, fresh⟩
    by_cases first : i < front.length
    · rw [List.getElem?_append_left first] at there
      exact Or.inl ⟨i, there, fresh⟩
    · rw [List.getElem?_append_right (Nat.le_of_not_lt first)] at there
      refine Or.inr ⟨_, there, ?_⟩
      rwa [Nat.add_assoc, Nat.add_sub_cancel' (Nat.le_of_not_lt first)]
  · rintro (⟨i, there, fresh⟩ | ⟨i, there, fresh⟩)
    · obtain ⟨lt, -⟩ := List.getElem?_eq_some_iff.mp there
      exact ⟨i, by rw [List.getElem?_append_left lt, there], fresh⟩
    · refine ⟨front.length + i, ?_, by rwa [← Nat.add_assoc]⟩
      rw [List.getElem?_append_right (Nat.le_add_right _ _), Nat.add_sub_cancel_left, there]

/-- **What a run sends**, by the places of the rows. -/
theorem mem_execute {batchSize : Nat} {done : List Nat} (rows : List R) {start : Nat}
    {buffer : List R} {r : R} (aligned : batchSize ∣ start) (open_ : buffer.length < batchSize) :
    r ∈ sentRows (execute batchSize done start buffer rows) ↔
      SentAt batchSize done start (buffer ++ rows) r := by
  induction rows generalizing start buffer with
  | nil =>
    unfold execute
    rw [List.append_nil]
    by_cases empty : buffer = []
    · simp [empty, sentRows, SentAt]
    · rw [if_neg empty]
      exact mem_flush aligned open_.le
  | cons row rest ih =>
    unfold execute
    rw [List.append_cons buffer row rest]
    split
    case isTrue full =>
      have next : batchSize ∣ start + (buffer ++ [row]).length := by
        rw [full]
        exact Nat.dvd_add aligned (Nat.dvd_refl _)
      have split : sentRows (flush batchSize done start (buffer ++ [row]) ++
          execute batchSize done (start + (buffer ++ [row]).length) [] rest) =
        sentRows (flush batchSize done start (buffer ++ [row])) ++
          sentRows (execute batchSize done (start + (buffer ++ [row]).length) [] rest) :=
        List.flatMap_append
      rw [split, List.mem_append, mem_flush aligned full.le,
        ih next (Nat.lt_of_le_of_lt (Nat.zero_le _) open_), List.nil_append,
        ← @sentAt_append R batchSize start done (buffer ++ [row]) rest r]
    case isFalse short =>
      refine ih aligned ?_
      rw [List.length_append, List.length_singleton] at short ⊢
      omega

/-! ## The retry -/

/-- A recorded delivery, by the keys of the rows last sent under its number (`rowKeysJson`). -/
structure KeyedDelivery (K : Type*) where
  sequence : Nat
  status : DeliveryStatus
  keys : List K
  deriving DecidableEq

/-- What the retry reads of a job. -/
structure RetriedJob (K : Type*) where
  status : BridgeJobStatus
  deliveries : List (KeyedDelivery K)

namespace RetriedJob

variable (job : RetriedJob K)

def settled : List Nat :=
  (job.deliveries.filter fun d => d.status ≠ .failed).map (·.sequence)

/-- `retryFailed`, of a job that has ended with failed deliveries, with the bridge as it is now;
what the run it starts sends. -/
def retryFailed (batchSize pageSize : Nat) (p : Paging R O) (table : List R) :
    Option (List (Nat × List R)) :=
  if job.status.terminal ∧ job.deliveries.any (fun d => d.status = .failed) then
    some (execute batchSize job.settled 0 [] (p.rows pageSize table))
  else none

/-- The rows of the failed deliveries that still exist are sent, and those of the others are not. -/
structure Resends (key : R → K) (table sent : List R) : Prop where
  failed : ∀ d ∈ job.deliveries, d.status = .failed → ∀ r ∈ table, key r ∈ d.keys → r ∈ sent
  succeeded : ∀ d ∈ job.deliveries, d.status = .success → ∀ r ∈ sent, key r ∉ d.keys

/-- Where the table is read now, the rows of failed deliveries come in batches with numbers that
are not settled, and those of the others only in batches with numbers that are. -/
structure FindsThem (key : R → K) (batchSize : Nat) (p : Paging R O) (table : List R) : Prop where
  failed : ∀ d ∈ job.deliveries, d.status = .failed → ∀ r ∈ table, key r ∈ d.keys →
    ∃ i, (p.order table)[i]? = some r ∧ i / batchSize ∉ job.settled
  succeeded : ∀ d ∈ job.deliveries, d.status = .success → ∀ i r, (p.order table)[i]? = some r →
    key r ∈ d.keys → i / batchSize ∈ job.settled

variable {job}

/-- Rows 1 to 4 in batches of two: the first failed, the second was delivered. -/
def halfFailed : RetriedJob Nat where
  status := .completed
  deliveries := [⟨0, .failed, [1, 2]⟩, ⟨1, .success, [3, 4]⟩]

end RetriedJob

end Syncle.Jobs
