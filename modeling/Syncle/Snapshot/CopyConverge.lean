import Mathlib.Data.Prod.Lex
import Syncle.Lib.Catchup
import Syncle.Snapshot.Copy

/-!
# The copy and the stream after it end at the source's table

A key is *untouched* since a position when no entry of the log from there on writes it. Whatever
was copied of an untouched key is still what the source has, and whatever was copied of another
key is written over when its entry is streamed. So every place the bridge can be at (a row of the
copy, its end, a position in the log) comes with one statement of this shape, `Settled`: at
the keys untouched since the place's position, the destination is the source as far as the place
has seen. The copy widens what has been seen, the stream moves the position, and going back to an
earlier place is going back to a weaker statement.
-/

namespace Syncle.Snapshot

open Lib Cdc

variable {R V O : Type*} [LinearOrder O] {job : Job R V O}

/-! ## What a step can do -/

section Moves

variable [DecidableEq V]

inductive Moves (job : Job R V O) : World R O → Event R → World R O → Prop
  | commit {w : World R O} (op : CdcOperation) (row : R) :
    Moves job w (.commit op row) { w with log := w.log ++ [(op, row)] }
  | persist {w : World R O} {n : Nat} {c : Cursor O} (hc : w.handed[n]? = some c) :
    Moves job w (.persist n) { w with persisted := some c }
  | stop {w : World R O} : Moves job w .stop (w.goto .stopped)
  | start {w v : World R O} (hv : job.startStream w = some v) : Moves job w .start v
  | beginRead {w : World R O} {c : Copying R O} (hp : w.phase = .copying c) :
    Moves job w .beginRead (w.goto (.copying { c with
      reader := some (Reader.begin job (job.tableOf w.log) c.next c.key c.paging) }))
  | readPage {w : World R O} {c : Copying R O} {rd : Reader R O} (hp : w.phase = .copying c)
    (hrd : c.reader = some rd) (hpage : rd.page = []) (hmore : rd.more = true) :
    Moves job w .readPage (w.goto (.copying { c with
      reader := some (rd.readPage job (job.tableOf w.log) c.paging) }))
  | handRow {w : World R O} {c : Copying R O} {rd : Reader R O} {row : R} {rest : List R}
    (hp : w.phase = .copying c) (hrd : c.reader = some rd) (hpage : rd.page = row :: rest) :
    Moves job w .handRow (job.handRow w c rd row rest)
  | copied {w : World R O} {c : Copying R O} {rd : Reader R O} (hp : w.phase = .copying c)
    (hrd : c.reader = some rd) (hpage : rd.page = []) (hmore : rd.more = false) :
    Moves job w .copied (w.endCopy c)
  | readFails {w : World R O} {c : Copying R O} (hp : w.phase = .copying c) :
    Moves job w .readFails
      (w.goto (.copying { c with failures := c.failures + 1, reader := none }))
  | openStream {w : World R O} {n failures : Nat} (hp : w.phase = .opening n failures) :
    Moves job w .openStream (w.goto (.following n))
  | openFails {w : World R O} {n failures : Nat} (hp : w.phase = .opening n failures) :
    Moves job w .openFails (w.goto (.opening n (failures + 1)))
  | givesUp {w : World R O} {e : Event R} (he : e = .readFails ∨ e = .openFails) :
    Moves job w e (w.goto .stopped)
  | change {w : World R O} {i : Nat} {entry : CdcOperation × R} (hp : w.phase = .following i)
    (he : w.log[i]? = some entry) :
    Moves job w .change
      ((w.emit { op := entry.1, row := entry.2, cursor := .stream (i + 1) }).goto
        (.following (i + 1)))
  | skip {w : World R O} {i : Nat} (hp : w.phase = .following i) :
    Moves job w .skip (w.note (.stream i))

theorem Moves.of_step {w v : World R O} {e : Event R} (h : job.step w e = some v) :
    Moves job w e v := by
  unfold Job.step at h
  split at h
  · obtain rfl := Option.some.inj h
    exact .commit _ _
  · obtain ⟨c, hc, rfl⟩ := Option.map_eq_some_iff.mp h
    exact .persist hc
  · cases h
  · obtain rfl := Option.some.inj h
    exact .stop
  · exact .start h
  · next c hp =>
    split at h
    · obtain rfl := Option.some.inj h
      exact .beginRead hp
    · cases h
  · next c hp =>
    split at h
    · next rd hrd =>
      split at h
      · next cond =>
        obtain rfl := Option.some.inj h
        exact .readPage hp hrd cond.1 cond.2
      · cases h
    · cases h
  · next c hp =>
    split at h
    · next rd hrd =>
      split at h
      · next row rest hpage =>
        obtain rfl := Option.some.inj h
        exact .handRow hp hrd hpage
      · cases h
    · cases h
  · next c hp =>
    split at h
    · next rd hrd =>
      split at h
      · next cond =>
        obtain rfl := Option.some.inj h
        exact .copied hp hrd cond.1 cond.2
      · cases h
    · cases h
  · next c hp =>
    split at h
    · obtain rfl := Option.some.inj h
      exact .givesUp (Or.inl rfl)
    · obtain rfl := Option.some.inj h
      exact .readFails hp
  · next n failures hp =>
    obtain rfl := Option.some.inj h
    exact .openStream hp
  · next n failures hp =>
    split at h
    · obtain rfl := Option.some.inj h
      exact .givesUp (Or.inr rfl)
    · obtain rfl := Option.some.inj h
      exact .openFails hp
  · next i hp =>
    obtain ⟨entry, he, rfl⟩ := Option.map_eq_some_iff.mp h
    exact .change hp he
  · next i hp =>
    obtain rfl := Option.some.inj h
    exact .skip hp
  · cases h

end Moves

/-! ## The order of the copy -/

/-- Rows of one place in the read's order are rows of one key. -/
theorem key_of_rank (paged : ¬ job.source.ReadByOffset) {o : TableOrder}
    (h : job.source.copyOrder = some o) :
    o.paging ≠ .offset ∧ ∀ r r', job.rank r = job.rank r' → job.key r = job.key r' := by
  obtain ⟨ho, quiet⟩ := TableSource.copyOrder_eq_some.mp h
  have hp : o.paging ≠ .offset := fun e => paged ((paging_offset_iff ho quiet).mp e)
  refine ⟨hp, fun r r' hr => ?_⟩
  have hsub := key_subset_pagedBy ho quiet hp
  exact List.map_congr_left fun c hc => job.level o ho hp r r' hr c (hsub hc)

/-- The rows up to a place, that one included. From the top, none. -/
def UpTo (job : Job R V O) (place : Option (Place O)) (r : R) : Prop :=
  ∃ p, place = some p ∧ job.rank r ≤ p.rank

/-- The rows a checkpoint stands for as handed over. -/
def reaches (job : Job R V O) : Option (Checkpoint (Place O)) → R → Prop
  | none, _ => False
  | some (.cursor page), r => UpTo job page r
  | some (.keyset _ value), r => job.rank r ≤ value.rank

/-- What a checkpoint stands for is kept by a stored cursor; where the engine goes on from it is
another matter. -/
theorem reaches_stored {key : Option (Checkpoint (Place O))} {r : R} :
    reaches job (key.map Checkpoint.stored) r ↔ reaches job key r := by
  cases key with
  | none => rfl
  | some checkpoint =>
    cases checkpoint with
    | cursor page => cases page <;> simp [Checkpoint.stored, reaches, UpTo]
    | keyset column value => simp [Checkpoint.stored, reaches]

/-- The checkpoint is of the read's own shape. -/
def Fits : Paging → Nat → Option (Checkpoint (Place O)) → Prop
  | .cursor, _, key => key = none ∨ ∃ page, key = some (.cursor page)
  | .keyset columns, next, key =>
    next = 0 ∧ key = none ∨ ∃ value, key = some (.keyset (keysetName columns) value)
  | .offset, _, _ => False

omit [LinearOrder O] in
theorem Fits.stored {paging : Paging} {next : Nat} {key : Option (Checkpoint (Place O))}
    (hf : Fits paging next key) : Fits paging next (key.map Checkpoint.stored) := by
  cases paging with
  | cursor =>
    rcases hf with rfl | ⟨page, rfl⟩
    · exact Or.inl rfl
    · exact Or.inr ⟨_, rfl⟩
  | keyset columns =>
    rcases hf with ⟨rfl, rfl⟩ | ⟨value, rfl⟩
    · exact Or.inl ⟨rfl, rfl⟩
    · exact Or.inr ⟨_, rfl⟩
  | offset => exact hf

/-- A read that resumes goes on after the rows of its checkpoint, and after no others. -/
theorem reaches_of_resumePlace {rows : List R} {next : Nat} {key : Option (Checkpoint (Place O))}
    {paging : Paging} (hf : Fits paging next key) {r : R}
    (hr : UpTo job (resumePlace job rows next key paging) r) : reaches job key r := by
  obtain ⟨p, hp, le⟩ := hr
  cases paging with
  | cursor =>
    rcases hf with rfl | ⟨page, rfl⟩
    · cases hp
    · exact ⟨p, hp, le⟩
  | keyset columns =>
    by_cases hn : next = 0
    · simp [resumePlace, hn] at hp
    · rcases hf with ⟨h0, -⟩ | ⟨value, rfl⟩
      · exact absurd h0 hn
      · simp only [resumePlace, hn, if_false, if_true, Option.some.injEq] at hp
        exact hp ▸ le
  | offset => exact hf.elim

theorem readPage_eq {paging : Paging} (hp : paging ≠ .offset) (rows : List R)
    (rd : Reader R O) :
    rd.readPage job rows paging =
      { rd with
        cursor := rd.last
        page := (pageOf job.rank (job.wanted rd.last) (max job.pageSize 1) rows).rows
        more := (pageOf job.rank (job.wanted rd.last) (max job.pageSize 1) rows).hasMore } := by
  have hpos : 0 < max job.pageSize 1 := Nat.lt_of_lt_of_le Nat.one_pos (Nat.le_max_right _ _)
  cases paging with
  | cursor => rfl
  | keyset columns =>
    cases hm : (pageOf job.rank (job.wanted rd.last) (max job.pageSize 1) rows).hasMore with
    | false => simp [Reader.readPage, hm]
    | true => simp [Reader.readPage, hm, pageOf_ne_nil hpos hm]
  | offset => exact absurd rfl hp

/-! ## What is level at each place -/

section Level

theorem writes_keyed (log : List (CdcOperation × R)) : Keyed job.key (job.writes log) := by
  intro k r h
  obtain ⟨⟨op, row⟩, -, he⟩ := List.mem_map.mp h
  cases op <;> cases he <;> rfl

theorem writes_append (log : List (CdcOperation × R)) (op : CdcOperation) (row : R) :
    job.writes (log ++ [(op, row)]) = job.writes log ++ [op.write (job.key row) row] := by
  simp [Job.writes]

@[simp] theorem length_writes (log : List (CdcOperation × R)) :
    (job.writes log).length = log.length := by
  simp [Job.writes]

variable [DecidableEq V]

namespace Job

variable (job)

/-- What the emitted changes leave in an empty destination keyed on the source's key. -/
def dest (w : World R O) : List V → Option R := folded job.key w.out

/-- The source's table, by key. -/
def sourceAt (w : World R O) : List V → Option R := replay (fun _ => none) (job.writes w.log)

end Job

theorem mem_tableOf {log : List (CdcOperation × R)} {r : R} :
    r ∈ job.tableOf log ↔
      replay (fun _ => none) (job.writes log) (job.key r) = some r :=
  mem_rowsOf (writes_keyed log)

/-- The reader: the rows up to `last` are level, and so are those up to the page's cursor; and so is
every row that neither is in the page nor, with more to come, lies behind it. -/
structure Reads (job : Job R V O) (ws : List (Write (List V) R)) (d : List V → Option R)
    (n : Nat) (paging : Paging) (rd : Reader R O) : Prop where
  upTo : Settled ws d n fun _ r => UpTo job rd.last r
  pageUpTo : Settled ws d n fun _ r => UpTo job rd.cursor r
  asRead : ∀ x ∈ rd.page, Untouched ws n (job.key x) →
    replay (fun _ => none) ws (job.key x) = some x
  foreign : paging = .cursor → ∀ x ∈ rd.page, job.own x = false
  sorted : rd.page.Pairwise fun a b => job.rank a ≤ job.rank b
  covers : Settled ws d n fun _ r =>
    ¬ (r ∈ rd.page ∨ rd.more = true ∧ ∀ x ∈ rd.page, job.rank x ≤ job.rank r)

structure Copies (job : Job R V O) (ws : List (Write (List V) R)) (d : List V → Option R)
    (c : Copying R O) : Prop where
  start : c.streamFrom ≤ ws.length
  order : ∃ o, job.source.copyOrder = some o ∧ o.paging = c.paging
  fits : Fits c.paging c.next c.key
  marked : Settled ws d c.streamFrom fun _ r => reaches job c.key r
  reads : ∀ rd, c.reader = some rd →
    rd.index = c.next ∧ Reads job ws d c.streamFrom c.paging rd

/-- What is level where the stream is. -/
def AtPhase (job : Job R V O) (ws : List (Write (List V) R)) (d : List V → Option R) :
    Phase R O → Prop
  | .stopped => True
  | .copying c => Copies job ws d c
  | .opening n _ => n ≤ ws.length ∧ Settled ws d n allSeen
  | .following n => n ≤ ws.length ∧ Settled ws d n allSeen

def Cursor.start : Cursor O → Nat
  | .snapshot c => c.streamFrom
  | .stream n => n

/-- What is level at a cursor: enough to go on from it. -/
def AtCursor (job : Job R V O) (ws : List (Write (List V) R)) (d : List V → Option R) :
    Cursor O → Prop
  | .stream n => n ≤ ws.length ∧ Settled ws d n allSeen
  | .snapshot c =>
    c.streamFrom ≤ ws.length ∧
      if c.done then Settled ws d c.streamFrom allSeen
      else Settled ws d c.streamFrom (fun _ r => reaches job c.key r) ∧
        ∀ o, job.source.copyOrder = some o → Fits o.paging (c.index + 1) c.key

/-- The cursor was handed over on the way to where the stream is. -/
def Passed : Cursor O → Phase R O → Prop
  | _, .stopped => True
  | .snapshot s, .copying c => s.streamFrom ≤ c.streamFrom ∧ s.index < c.next
  | .snapshot s, .opening n _ => s.streamFrom ≤ n
  | .stream _, .copying _ | .stream _, .opening _ _ => False
  | c, .following n => c.start ≤ n

structure LevelAt (job : Job R V O) (w : World R O) : Prop where
  phase : AtPhase job (job.writes w.log) (job.dest w) w.phase
  cursors : ∀ c ∈ w.persisted.toList ++ w.handed,
    AtCursor job (job.writes w.log) (job.dest w) c ∧ Passed c w.phase

variable {ws : List (Write (List V) R)} {d : List V → Option R} {w : Write (List V) R}

/-! ### The log grows -/

theorem Reads.grow {n : Nat} {paging : Paging} {rd : Reader R O} (h : Reads job ws d n paging rd)
    (hn : n ≤ ws.length) (w : Write (List V) R) : Reads job (ws ++ [w]) d n paging rd := by
  have kept : ∀ k, Untouched (ws ++ [w]) n k →
      replay (fun _ => none) (ws ++ [w]) k = replay (fun _ => none) ws k := by
    intro k hk
    rw [replay_append, replay_untouched (hk.of_append_right hn)]
  exact
    { upTo := h.upTo.grow hn [w]
      pageUpTo := h.pageUpTo.grow hn [w]
      asRead := fun x hx hk => (kept _ hk).trans (h.asRead x hx hk.of_append)
      foreign := h.foreign
      sorted := h.sorted
      covers := h.covers.grow hn [w] }

theorem AtPhase.grow {p : Phase R O} (h : AtPhase job ws d p) (w : Write (List V) R) :
    AtPhase job (ws ++ [w]) d p := by
  have longer : ws.length ≤ (ws ++ [w]).length := by simp
  cases p with
  | stopped => trivial
  | copying c =>
    obtain ⟨start, order, fits, marked, reads⟩ := h
    exact
      { start := start.trans longer
        order := order
        fits := fits
        marked := marked.grow start [w]
        reads := fun rd hrd => ⟨(reads rd hrd).1, (reads rd hrd).2.grow start w⟩ }
  | opening n failures => exact ⟨h.1.trans longer, h.2.grow h.1 [w]⟩
  | following n => exact ⟨h.1.trans longer, h.2.grow h.1 [w]⟩

theorem AtCursor.grow {c : Cursor O} (h : AtCursor job ws d c) (w : Write (List V) R) :
    AtCursor job (ws ++ [w]) d c := by
  have longer : ws.length ≤ (ws ++ [w]).length := by simp
  cases c with
  | stream n => exact ⟨h.1.trans longer, h.2.grow h.1 [w]⟩
  | snapshot c =>
    obtain ⟨start, rest⟩ := h
    refine ⟨start.trans longer, ?_⟩
    by_cases hd : c.done = true
    · rw [if_pos hd] at rest ⊢
      exact rest.grow start [w]
    · rw [if_neg hd] at rest ⊢
      exact ⟨rest.1.grow start [w], rest.2⟩

/-! ### A change is emitted -/

/-- A write that is right about the keys untouched since the cursor leaves the cursor as good as it
was. -/
theorem AtCursor.put {c : Cursor O} (h : AtCursor job ws d c)
    (right : ∀ k, w.touches k → Untouched ws c.start k →
      replay (fun _ => none) ws k = w.image) : AtCursor job ws (w.apply d) c := by
  cases c with
  | stream n => exact ⟨h.1, (h.2.put right).narrow fun _ _ => Or.inl⟩
  | snapshot c =>
    obtain ⟨start, rest⟩ := h
    refine ⟨start, ?_⟩
    by_cases hd : c.done = true
    · rw [if_pos hd] at rest ⊢
      exact (rest.put right).narrow fun _ _ => Or.inl
    · rw [if_neg hd] at rest ⊢
      exact ⟨(rest.1.put right).narrow fun _ _ => Or.inl, rest.2⟩

/-! ### The reader -/

theorem Copies.begin {c : Copying R O} (h : Copies job ws d c) (rows : List R) :
    Reads job ws d c.streamFrom c.paging (Reader.begin job rows c.next c.key c.paging) := by
  have resumed : Settled ws d c.streamFrom fun _ r =>
      UpTo job (resumePlace job rows c.next c.key c.paging) r :=
    h.marked.narrow fun _ _ => reaches_of_resumePlace h.fits
  exact
    { upTo := resumed
      pageUpTo := resumed
      asRead := by simp [Reader.begin]
      foreign := by simp [Reader.begin]
      sorted := List.Pairwise.nil
      covers := h.marked.narrow fun _ _ left =>
        absurd (Or.inr ⟨rfl, by simp [Reader.begin]⟩) left }

/-- The next page: what it leaves out lies behind it, or no further than its place. -/
theorem Reads.readPage {log : List (CdcOperation × R)} {n : Nat} {paging : Paging}
    {rd : Reader R O} (h : Reads job (job.writes log) d n paging rd) (hp : paging ≠ .offset)
    (foreign : paging = .cursor → ∀ r ∈ job.tableOf log, job.own r = false)
    (whole : ∀ p ∈ rd.last, ∀ r ∈ job.tableOf log, p.rank < job.rank r → job.after p r = true) :
    Reads job (job.writes log) d n paging (rd.readPage job (job.tableOf log) paging) := by
  rw [readPage_eq hp]
  exact
    { upTo := h.upTo
      pageUpTo := h.upTo
      asRead := fun x hx _ => mem_tableOf.mp (mem_pageOf hx).1
      foreign := fun hc x hx => foreign hc x (mem_pageOf hx).1
      sorted := pageOf_sorted
      covers := h.upTo.mono le_rfl fun k r _ hr left => by
        obtain rfl := (writes_keyed log).key_of_replay hr
        by_contra far
        have mem : r ∈ job.tableOf log := mem_tableOf.mpr hr
        have asked : job.wanted rd.last r = true := by
          cases last : rd.last with
          | none => rfl
          | some p =>
            refine whole p last r mem ?_
            by_contra near
            exact far ⟨p, last, le_of_not_gt near⟩
        exact left (pageOf_reaches mem asked) }

/-- A row the page still holds is what the source has, if nothing has been written under its key
since. -/
theorem Reads.right {n : Nat} {paging : Paging} {rd : Reader R O} (h : Reads job ws d n paging rd)
    {x : R} (hx : x ∈ rd.page) {k : List V} (hk : (Write.upsert (job.key x) x).touches k)
    (hu : Untouched ws n k) :
    replay (fun _ => none) ws k = (Write.upsert (job.key x) x).image := by
  obtain rfl : job.key x = k := hk
  exact h.asRead x hx hu

/-- **A row is handed over**: what is level reaches as far as its place. -/
theorem Reads.hand {log : List (CdcOperation × R)} {n i : Nat} {paging : Paging}
    {rd : Reader R O} {x : R} {rest : List R} (h : Reads job (job.writes log) d n paging rd)
    (hpage : rd.page = x :: rest)
    (same : ∀ r r', job.rank r = job.rank r' → job.key r = job.key r') :
    Reads job (job.writes log) ((Write.upsert (job.key x) x).apply d) n paging
      { rd.pass job x rest with index := i } := by
  have hx : x ∈ rd.page := hpage ▸ List.mem_cons_self
  have hrest : ∀ y ∈ rest, y ∈ rd.page := fun y hy => hpage ▸ List.mem_cons_of_mem x hy
  have sorted := hpage ▸ h.sorted
  have first : ∀ y ∈ rest, job.rank x ≤ job.rank y := (List.pairwise_cons.mp sorted).1
  have put := fun {seen} (hs : Settled (job.writes log) d n seen) => hs.put fun k => h.right hx
  refine
    { upTo := (put h.covers).mono le_rfl ?_
      pageUpTo := (put h.pageUpTo).narrow fun _ _ => Or.inl
      asRead := fun y hy => h.asRead y (hrest y hy)
      foreign := fun hc y hy => h.foreign hc y (hrest y hy)
      sorted := (List.pairwise_cons.mp sorted).2
      covers := (put h.covers).mono le_rfl ?_ }
  · -- a row up to `x` that the page holds, or that lies behind it, is in `x`'s place and of its key
    rintro k r - hr ⟨p, hp, le⟩
    obtain rfl := (writes_keyed log).key_of_replay hr
    obtain rfl := Option.some.inj hp
    refine or_iff_not_imp_left.mpr fun held => same _ _ (le_antisymm ?_ le)
    rcases not_not.mp held with hin | ⟨-, after⟩
    · rcases List.mem_cons.mp (hpage ▸ hin) with rfl | hin
      · exact le_rfl
      · exact first r hin
    · exact after x hx
  · -- the page is left with all it held but `x`
    intro k r _ hr left
    obtain rfl := (writes_keyed log).key_of_replay hr
    refine or_iff_not_imp_right.mpr fun other held => left ?_
    rcases held with hin | ⟨more, after⟩
    · rcases List.mem_cons.mp (hpage ▸ hin) with rfl | hin
      · exact absurd rfl other
      · exact Or.inl hin
    · exact Or.inr ⟨more, fun y hy => after y (hrest y hy)⟩

/-- Nothing is left of the last page: the whole table has been seen. -/
theorem Reads.all {log : List (CdcOperation × R)} {n : Nat} {paging : Paging} {rd : Reader R O}
    (h : Reads job (job.writes log) d n paging rd) (hpage : rd.page = []) (hmore : rd.more = false) :
    Settled (job.writes log) d n allSeen :=
  h.covers.narrow fun _ _ _ => by simp [hpage, hmore]

/-! ### The steps -/

variable {u v : World R O} {e : Event R}

theorem LevelAt.goto (h : LevelAt job u) {p : Phase R O}
    (hp : AtPhase job (job.writes u.log) (job.dest u) p)
    (passed : ∀ c, Passed c u.phase → Passed c p) : LevelAt job (u.goto p) where
  phase := hp
  cursors c hc := ⟨(h.cursors c hc).1, passed c (h.cursors c hc).2⟩

theorem LevelAt.note (h : LevelAt job u) {p : Phase R O} {c : Cursor O}
    (hp : AtPhase job (job.writes u.log) (job.dest u) p)
    (passed : ∀ c, Passed c u.phase → Passed c p)
    (hc : AtCursor job (job.writes u.log) (job.dest u) c) (hcp : Passed c p) :
    LevelAt job ((u.note c).goto p) where
  phase := hp
  cursors c' hc' := by
    have : c' ∈ (u.persisted.toList ++ u.handed) ++ [c] := by
      rw [List.append_assoc]
      exact hc'
    rcases List.mem_append.mp this with old | new
    · exact ⟨(h.cursors c' old).1, passed c' (h.cursors c' old).2⟩
    · obtain rfl := List.mem_singleton.mp new
      exact ⟨hc, hcp⟩

theorem LevelAt.emit (h : LevelAt job u) {p : Phase R O} {c : CdcChange (Cursor O) R}
    (right : ∀ b, Passed b u.phase → ∀ k, (c.write job.key).touches k →
      Untouched (job.writes u.log) b.start k →
      replay (fun _ => none) (job.writes u.log) k = (c.write job.key).image)
    (hp : AtPhase job (job.writes u.log) ((c.write job.key).apply (job.dest u)) p)
    (passed : ∀ c, Passed c u.phase → Passed c p)
    (hc : AtCursor job (job.writes u.log) ((c.write job.key).apply (job.dest u)) c.cursor)
    (hcp : Passed c.cursor p) : LevelAt job ((u.emit c).goto p) := by
  have applied : job.dest ((u.emit c).goto p) = (c.write job.key).apply (job.dest u) :=
    folded_snoc _ _ _
  constructor
  · rw [applied]
    exact hp
  · intro b hb
    rw [applied]
    have : b ∈ (u.persisted.toList ++ u.handed) ++ [c.cursor] := by
      rw [List.append_assoc]
      exact hb
    rcases List.mem_append.mp this with old | new
    · obtain ⟨level, there⟩ := h.cursors b old
      exact ⟨level.put (right b there), passed b there⟩
    · obtain rfl := List.mem_singleton.mp new
      exact ⟨hc, hcp⟩

theorem LevelAt.startStream (h : LevelAt job u) (paged : ¬ job.source.ReadByOffset)
    (resumes : u.persisted = none → u.out = []) (hv : job.startStream u = some v) :
    LevelAt job v := by
  have stored : ∀ c ∈ u.persisted.toList, AtCursor job (job.writes u.log) (job.dest u) c :=
    fun c hc => (h.cursors c (List.mem_append_left _ hc)).1
  -- the stored cursor is the only one there is after the opening, and the opening is at it
  have opened : ∀ p, AtPhase job (job.writes u.log) (job.dest u) p →
      (∀ c, u.persisted = some c → Passed c p) → LevelAt job (u.openAt p) := by
    intro p hp passed
    refine ⟨hp, fun c hc => ?_⟩
    have hc : c ∈ u.persisted.toList := by
      rcases List.mem_append.mp hc with hc | hc <;> exact hc
    exact ⟨stored c hc, passed c (Option.mem_toList.mp hc)⟩
  unfold Job.startStream at hv
  cases hs : u.persisted with
  | none =>
    rw [hs] at hv
    obtain ⟨o, ho, rfl⟩ := Option.map_eq_some_iff.mp hv
    refine opened _ ?_ fun c hc => by rw [hs] at hc; cases hc
    have empty : job.dest u = fun _ => none := by
      rw [Job.dest, resumes hs]
      rfl
    have nothing : Settled (job.writes u.log) (job.dest u) u.log.length fun _ _ => False := by
      rw [empty]
      exact Settled.empty _ _
    exact
      { start := (length_writes _).ge
        order := ⟨o, ho, rfl⟩
        fits := by
          have hp := (key_of_rank paged ho).1
          cases hpg : o.paging with
          | cursor => exact Or.inl rfl
          | keyset columns => exact Or.inl ⟨rfl, rfl⟩
          | offset => exact absurd hpg hp
        marked := nothing
        reads := fun rd hrd => by cases hrd }
  | some c =>
    rw [hs] at hv stored opened
    have level := stored c (by simp)
    cases c with
    | stream n =>
      obtain rfl := Option.some.inj hv
      exact opened _ level fun c hc => by cases hc; exact le_rfl
    | snapshot c =>
      obtain ⟨start, rest⟩ := level
      by_cases hd : c.done = true
      · rw [if_pos hd] at rest
        simp only [hd, if_true] at hv
        obtain rfl := Option.some.inj hv
        exact opened _ ⟨start, rest⟩ fun c hc => by cases hc; exact le_rfl
      · rw [if_neg hd] at rest
        simp only [hd] at hv
        obtain ⟨o, ho, rfl⟩ := Option.map_eq_some_iff.mp hv
        refine opened _ ?_ fun c hc => by cases hc; exact ⟨le_rfl, Nat.lt_succ_self _⟩
        exact
          { start := start
            order := ⟨o, ho, rfl⟩
            fits := (rest.2 o ho).stored
            marked := rest.1.narrow fun _ _ => reaches_stored.mp
            reads := fun rd hrd => by cases hrd }

theorem LevelAt.copies (h : LevelAt job u) {c : Copying R O} (hp : u.phase = .copying c) :
    Copies job (job.writes u.log) (job.dest u) c := by
  have := h.phase
  rwa [hp] at this

theorem LevelAt.following (h : LevelAt job u) {n : Nat} (hp : u.phase = .following n) :
    n ≤ (job.writes u.log).length ∧ Settled (job.writes u.log) (job.dest u) n allSeen := by
  have := h.phase
  rwa [hp] at this

theorem LevelAt.opening (h : LevelAt job u) {n failures : Nat}
    (hp : u.phase = .opening n failures) :
    n ≤ (job.writes u.log).length ∧ Settled (job.writes u.log) (job.dest u) n allSeen := by
  have := h.phase
  rwa [hp] at this

omit [LinearOrder O] [DecidableEq V] in
/-- What the copy has handed over stays handed over while the copy goes on. -/
theorem Passed.copying {c c' : Copying R O} (hs : c'.streamFrom = c.streamFrom)
    (hn : c.next ≤ c'.next) (b : Cursor O) (hb : Passed b (.copying c)) :
    Passed b (.copying c') := by
  cases b with
  | stream n => exact hb
  | snapshot s => exact ⟨hs ▸ hb.1, hb.2.trans_le hn⟩

/-- The read begins, goes on or begins again: the copy is where it was. -/
theorem LevelAt.reread (h : LevelAt job u) {c : Copying R O} (hp : u.phase = .copying c)
    {failures : Nat} {reader : Option (Reader R O)}
    (reads : ∀ rd, reader = some rd → rd.index = c.next ∧
      Reads job (job.writes u.log) (job.dest u) c.streamFrom c.paging rd) :
    LevelAt job (u.goto (.copying { c with failures := failures, reader := reader })) := by
  obtain ⟨start, order, fits, marked, -⟩ := h.copies hp
  refine h.goto ⟨start, order, fits, marked, reads⟩ fun b hb => ?_
  rw [hp] at hb
  refine Passed.copying ?_ ?_ b hb
  · rfl
  · exact le_rfl

/-- The checkpoint of a row stands for the rows that are level once the row is. -/
theorem checkpoint_spec {log : List (CdcOperation × R)} {d : List V → Option R} {n i : Nat}
    {paging : Paging} (hp : paging ≠ .offset) {rd : Reader R O} {x : R} {rest : List R}
    (h : Reads job (job.writes log) d n paging { rd.pass job x rest with index := i }) :
    Fits paging (rd.index + 1) (rd.checkpoint job paging x) ∧
      Settled (job.writes log) d n fun _ r => reaches job (rd.checkpoint job paging x) r := by
  cases paging with
  | cursor => exact ⟨Or.inr ⟨_, rfl⟩, h.pageUpTo⟩
  | keyset columns =>
    exact ⟨Or.inr ⟨_, rfl⟩, h.upTo.narrow fun _ _ hr => ⟨_, rfl, hr⟩⟩
  | offset => exact absurd rfl hp

theorem LevelAt.handRow (h : LevelAt job u) (paged : ¬ job.source.ReadByOffset)
    {c : Copying R O} {rd : Reader R O} {x : R} {rest : List R} (hp : u.phase = .copying c)
    (hrd : c.reader = some rd) (hpage : rd.page = x :: rest) :
    LevelAt job (job.handRow u c rd x rest) := by
  have copies := h.copies hp
  obtain ⟨hindex, reads⟩ := copies.reads rd hrd
  obtain ⟨o, ho, hpaging⟩ := copies.order
  obtain ⟨notOffset, same⟩ := key_of_rank paged ho
  rw [hpaging] at notOffset
  have hx : x ∈ rd.page := hpage ▸ List.mem_cons_self
  have handed := reads.hand (i := rd.index + 1) hpage same
  obtain ⟨fits, marked⟩ := checkpoint_spec notOffset handed
  have notOwn : ¬ (c.paging = .cursor ∧ job.own x = true) := by
    rintro ⟨hc, own⟩
    rw [reads.foreign hc x hx] at own
    cases own
  unfold Job.handRow
  rw [if_neg notOwn]
  apply h.emit
  · intro b hb k hk hu
    rw [hp] at hb
    have earlier : b.start ≤ c.streamFrom := by
      cases b with
      | stream n => exact hb.elim
      | snapshot s => exact hb.1
    exact reads.right hx hk (hu.mono earlier)
  · exact
      { start := copies.start
        order := ⟨o, ho, hpaging⟩
        fits := fits
        marked := marked
        reads := fun rd' hrd' => by
          obtain rfl := Option.some.inj hrd'
          exact ⟨rfl, handed⟩ }
  · intro b hb
    rw [hp] at hb
    refine Passed.copying ?_ ?_ b hb
    · rfl
    · show c.next ≤ rd.index + 1
      rw [hindex]
      exact Nat.le_succ _
  · refine ⟨copies.start, ?_⟩
    rw [if_neg Bool.false_ne_true]
    refine ⟨marked, fun o' ho' => ?_⟩
    obtain rfl : o = o' := Option.some.inj (ho.symm.trans ho')
    exact hpaging ▸ fits
  · exact ⟨le_rfl, Nat.lt_succ_self _⟩

theorem LevelAt.endCopy (h : LevelAt job u) {c : Copying R O} {rd : Reader R O}
    (hp : u.phase = .copying c) (hrd : c.reader = some rd) (hpage : rd.page = [])
    (hmore : rd.more = false) : LevelAt job (u.endCopy c) := by
  have copies := h.copies hp
  have all := (copies.reads rd hrd).2.all hpage hmore
  apply h.note
  · exact ⟨copies.start, all⟩
  · intro b hb
    rw [hp] at hb
    cases b with
    | stream n => exact hb
    | snapshot s => exact hb.1
  · refine ⟨copies.start, ?_⟩
    rw [if_pos rfl]
    exact all
  · exact le_rfl

theorem LevelAt.change (h : LevelAt job u) {i : Nat} {entry : CdcOperation × R}
    (hp : u.phase = .following i) (he : u.log[i]? = some entry) :
    LevelAt job ((u.emit
      { op := entry.1, row := entry.2, cursor := .stream (i + 1) }).goto (.following (i + 1))) := by
  obtain ⟨-, level⟩ := h.following hp
  have hw : (job.writes u.log)[i]? = some (entry.1.write (job.key entry.2) entry.2) := by
    simp [Job.writes, he]
  have next : i + 1 ≤ (job.writes u.log).length := by
    obtain ⟨hi, -⟩ := List.getElem?_eq_some_iff.mp hw
    exact hi
  apply h.emit
  · intro b hb k hk hu
    rw [hp] at hb
    have earlier : b.start ≤ i := by cases b <;> exact hb
    exact absurd hu (not_untouched_of_getElem? hw earlier hk)
  · exact ⟨next, level.advance hw⟩
  · intro b hb
    rw [hp] at hb
    have earlier : b.start ≤ i := by cases b <;> exact hb
    cases b <;> exact Nat.le_succ_of_le earlier
  · exact ⟨next, level.advance hw⟩
  · exact le_rfl

/-! ### Runs -/

namespace Job

variable (job)

/-- The stream is only ever opened at a stored cursor, once anything has been emitted. -/
def Resumes (w : World R O) (e : Event R) : Prop :=
  e = .start → w.persisted = none → w.out = []

/-- A page is read by the engine's own cursor from rows none of which passes for one of Syncle's own
keys. -/
def Foreign (w : World R O) (e : Event R) : Prop :=
  e = .readPage → w.phase.byCursor = true → ∀ r ∈ job.tableOf w.log, job.own r = false

/-- A page is read from a place behind which the engine leaves out none of the rows that lie there. -/
def Whole (w : World R O) (e : Event R) : Prop :=
  e = .readPage → ∀ p ∈ w.phase.place, ∀ r ∈ job.tableOf w.log, p.rank < job.rank r →
    job.after p r = true

structure Faithful (w : World R O) (e : Event R) : Prop where
  resumes : Resumes w e
  foreign : job.Foreign w e
  whole : job.Whole w e

instance [DecidableEq R] (w : World R O) (e : Event R) : Decidable (Resumes w e) := by
  unfold Resumes
  infer_instance

instance [DecidableEq R] (w : World R O) (e : Event R) : Decidable (job.Foreign w e) := by
  unfold Foreign
  infer_instance

instance [DecidableEq R] (w : World R O) (e : Event R) : Decidable (job.Whole w e) := by
  unfold Whole
  infer_instance

instance [DecidableEq R] (w : World R O) (e : Event R) : Decidable (job.Faithful w e) :=
  decidable_of_iff (Resumes w e ∧ job.Foreign w e ∧ job.Whole w e)
    ⟨fun ⟨resumes, foreign, whole⟩ => ⟨resumes, foreign, whole⟩,
      fun ok => ⟨ok.resumes, ok.foreign, ok.whole⟩⟩

/-- Once the log is drained, the destination is the source's table. -/
def Drained (w : World R O) : Prop :=
  w.phase = .following w.log.length → job.dest w = job.sourceAt w

/-- Copy-then-follow converges, whatever the run. -/
def Converges : Prop :=
  ∀ events w, Run job.step Resumes World.empty events w → job.Drained w

end Job

theorem LevelAt.empty : LevelAt job (World.empty : World R O) where
  phase := trivial
  cursors c hc := by cases hc

theorem LevelAt.step (h : LevelAt job u) (paged : ¬ job.source.ReadByOffset)
    (ok : job.Faithful u e) (hm : Moves job u e v) : LevelAt job v := by
  cases hm with
  | commit op row =>
    constructor
    · show AtPhase job (job.writes (u.log ++ [(op, row)])) (job.dest u) u.phase
      rw [writes_append]
      exact h.phase.grow _
    · intro c hc
      show AtCursor job (job.writes (u.log ++ [(op, row)])) (job.dest u) c ∧ Passed c u.phase
      rw [writes_append]
      exact ⟨(h.cursors c hc).1.grow _, (h.cursors c hc).2⟩
  | @persist n c hc =>
    refine ⟨h.phase, fun b hb => h.cursors b ?_⟩
    rcases List.mem_append.mp hb with stored | handed
    · obtain rfl : c = b := Option.some.inj (Option.mem_toList.mp stored)
      exact List.mem_append_right _ (List.mem_of_getElem? hc)
    · exact List.mem_append_right _ handed
  | stop => exact h.goto trivial fun c _ => by cases c <;> trivial
  | start hv => exact h.startStream paged (ok.resumes rfl) hv
  | @beginRead c hp =>
    refine h.reread hp fun rd hrd => ?_
    obtain rfl := Option.some.inj hrd
    exact ⟨rfl, (h.copies hp).begin _⟩
  | @readPage c rd hp hrd hpage hmore =>
    obtain ⟨-, ⟨o, ho, hpaging⟩, -, -, reads⟩ := h.copies hp
    have notOffset : c.paging ≠ .offset := hpaging ▸ (key_of_rank paged ho).1
    have page := (reads rd hrd).2.readPage notOffset
      (fun hc => ok.foreign rfl (by simp [Phase.byCursor, hp, hc]))
      (fun p hl => ok.whole rfl p (by simpa [Phase.place, hp, hrd] using hl))
    refine h.reread hp fun rd' hrd' => ?_
    obtain rfl := Option.some.inj hrd'
    refine ⟨?_, page⟩
    rw [readPage_eq notOffset]
    exact (reads rd hrd).1
  | handRow hp hrd hpage => exact h.handRow paged hp hrd hpage
  | copied hp hrd hpage hmore => exact h.endCopy hp hrd hpage hmore
  | readFails hp => exact h.reread hp fun rd hrd => by cases hrd
  | openStream hp =>
    refine h.goto (h.opening hp) fun b hb => ?_
    rw [hp] at hb
    cases b with
    | stream n => exact hb.elim
    | snapshot s => exact hb
  | openFails hp =>
    refine h.goto (h.opening hp) fun b hb => ?_
    rw [hp] at hb
    cases b <;> exact hb
  | givesUp he => exact h.goto trivial fun c _ => by cases c <;> trivial
  | change hp he => exact h.change hp he
  | skip hp =>
    have here := h.following hp
    apply h.note
    · exact h.phase
    · exact fun _ => id
    · exact here
    · rw [hp]
      exact le_rfl

/-- **Copy-then-follow converges**, unless the table is read by OFFSET: over any run, with the
source written to, the reads failing and the stream stopped and resumed at any moments. -/
theorem drained_of_paged (job : Job R V O) (paged : ¬ job.source.ReadByOffset)
    {events : List (Event R)} {w : World R O}
    (run : Run job.step job.Faithful World.empty events w) : job.Drained w := by
  have level : LevelAt job w := run.invariant LevelAt.empty fun _ _ _ ok inv move =>
    inv.step paged ok (Moves.of_step move)
  intro hp
  obtain ⟨-, settled⟩ := level.following hp
  have whole : (job.writes w.log).length = w.log.length := length_writes _
  rw [← whole] at settled
  exact settled.level

end Level

/-! ## A table read by OFFSET

Three rows, in the order of a column that could hold NULL, a row a page. The first row is copied
and then deleted; the second page, from offset 1, is the third row. -/

namespace RowsMoveUp

/-- A row: its `id` and its `position`. -/
abbrev Task := Nat × Nat

def tasks (nullable : Bool) : TableSource where
  table := "tasks"
  sort := [asc "position"]
  probe :=
    { primaryKey := ["id"], columns := [{ name := "id" }, { name := "position" }], total := none }
  cursorPaging := false
  keysetPaging := true
  schema := some
    { columns := [{ name := "id", nullable := false }, { name := "position", nullable := nullable }]
      indexes := [] }

def cell (t : Task) (column : String) : Nat := if column = "id" then t.1 else t.2

def byOffset : Job Task Nat Nat where
  source := tasks true
  cell := cell
  rank := Prod.snd
  after p t := p.rank < t.2
  own := fun _ => false
  pageSize := 1
  readAttempts := 5
  level := by
    intro o ho hp
    obtain rfl := Except.ok.inj (Eq.trans ho.symm rfl)
    exact absurd rfl hp

def events : List (Event Task) :=
  [.commit .insert (1, 10), .commit .insert (2, 20), .commit .insert (3, 30), .start, .beginRead,
    .readPage, .handRow, .commit .delete (1, 10), .readPage, .handRow, .copied, .openStream, .change]

theorem byOffset_skips : ¬ byOffset.Converges := by
  intro h
  have run : Run byOffset.step Job.Resumes World.empty events _ := run_iff_runEvents.mpr rfl
  have drained := congrFun (h _ _ run rfl) [2]
  revert drained
  decide

/-! The same table, its sorted column never NULL, is read by the keyset of its position and id. -/

def byKeyset : Job Task Nat (Nat ×ₗ Nat) where
  source := tasks false
  cell := cell
  rank t := toLex (t.2, t.1)
  after p t := p.rank < toLex (t.2, t.1)
  own := fun _ => false
  pageSize := 1
  readAttempts := 5
  level := by
    intro o ho _ r r' hr c _
    obtain ⟨hpos, hid⟩ := Prod.mk.inj (toLex.injective hr)
    simp [cell, hpos, hid]

/-- A stop and a failed read in the middle of the copy, a row deleted behind its place and a row
moved there. -/
def interrupted : List (Event Task) :=
  [.commit .insert (1, 10), .commit .insert (2, 20), .commit .insert (3, 30), .start, .beginRead,
    .readPage, .handRow, .persist 0, .stop, .commit .delete (1, 10), .commit .update (3, 5), .start,
    .beginRead, .readPage, .handRow, .readFails, .beginRead, .readPage, .copied, .persist 2,
    .openStream, .change, .change]

theorem byKeyset_drained :
    ∃ w, Run byKeyset.step byKeyset.Faithful World.empty interrupted w ∧
      w.phase = .following w.log.length ∧ byKeyset.dest w = byKeyset.sourceAt w := by
  have run : Run byKeyset.step byKeyset.Faithful World.empty interrupted _ :=
    run_iff_runEvents.mpr rfl
  exact ⟨_, run, rfl, drained_of_paged byKeyset (by decide) run rfl⟩

end RowsMoveUp

/-! ## A document that looks like one of Syncle's own keys

What a cursor-paged read leaves out it tells by a text in the column `key`, on every engine that is
read so. -/

namespace LooksOwn

/-- A document: its `_id`, and whether its field `key` reads like a key of Syncle's. -/
abbrev Document := Nat × Bool

def documents : Job Document Nat Nat where
  source :=
    { table := "documents", sort := []
      probe := { primaryKey := ["_id"], columns := [{ name := "_id" }], total := none }
      cursorPaging := true, keysetPaging := false, schema := none }
  cell t _ := t.1
  rank := Prod.fst
  after p t := p.rank < t.1
  own := Prod.snd
  pageSize := 10
  readAttempts := 5
  level := fun _ _ _ _ _ h _ _ => h

theorem documents_missed : ¬ documents.Converges := by
  intro h
  have run : Run documents.step Job.Resumes World.empty
      [.commit .insert (1, true), .start, .beginRead, .readPage, .handRow, .copied, .openStream] _ :=
    run_iff_runEvents.mpr rfl
  have drained := congrFun (h _ _ run rfl) [1]
  revert drained
  decide

end LooksOwn

/-! ## A key that JSON has no form for

A binary key of one byte. From a stored cursor it comes back as an object, whose text the engine
compares the column with: the text begins with a brace, 0x7B, and the keys below it are skipped. -/

namespace BinaryKey

def files : Job Nat Nat Nat where
  source :=
    { table := "files", sort := []
      probe := { primaryKey := ["hash"], columns := [{ name := "hash" }], total := none }
      cursorPaging := false, keysetPaging := true, schema := none }
  cell byte _ := byte
  rank := id
  after
    | .asRead o, byte => o < byte
    | .fromJson _, byte => 0x7B ≤ byte
  own := fun _ => false
  pageSize := 1
  readAttempts := 5
  level := fun _ _ _ _ _ h _ _ => h

theorem files_skipped : ¬ files.Converges := by
  intro h
  have run : Run files.step Job.Resumes World.empty
      [.commit .insert 1, .commit .insert 2, .start, .beginRead, .readPage, .handRow, .persist 0,
        .stop, .start, .beginRead, .readPage, .copied, .openStream] _ :=
    run_iff_runEvents.mpr rfl
  have drained := congrFun (h _ _ run rfl) [2]
  revert drained
  decide

end BinaryKey

end Syncle.Snapshot
