import Mathlib.Order.MinMax
import Syncle.Postgres.OwnSlot

/-!
# What is confirmed to the server is durable

Two writers move the position confirmed to the server: the `ack` of a durable cursor, and an idle
keepalive. Both rest on one reading of a cursor: `c.reach` bounds the transactions that were sent
before it, and every change of one of these was handed over before `c`, or with it (`Given`).

For a cursor handed over while a connection is decoded that is the order of the stream. For the
position of an idle keepalive the last thing handed over matters. When this connection handed it
over it is the end of the last transaction sent, so a durable position that is not before it reaches
past all of them. When it did not, a handler of an earlier connection went on after the reconnect.
It had waited for the pipeline all that time, in front of whatever this connection handed over, so
that is one thing at most and no transaction was both finished and worth anything.
-/

namespace Syncle.Postgres.OwnSlot

open Lib Cdc

variable {V : Type*}

/-!
## The order of the log

Positions grow along the log, and a transaction's rows lie before its commit.
-/

section Log

variable {wal : List (Txn V)} {walEnd i j : ℕ} {t u : Txn V}

theorem Ordered.lt (h : Ordered wal walEnd) (ht : wal[i]? = some t) (hu : wal[j]? = some u)
    (hlt : i < j) : t.end_ ≤ u.commit := by
  obtain ⟨hi, rfl⟩ := List.getElem?_eq_some_iff.mp ht
  obtain ⟨hj, rfl⟩ := List.getElem?_eq_some_iff.mp hu
  exact List.pairwise_iff_getElem.mp h.1 i j hi hj hlt

theorem Ordered.at (h : Ordered wal walEnd) (ht : wal[i]? = some t) :
    t.commit < t.end_ ∧ t.end_ ≤ walEnd ∧ ∀ row ∈ t.rows, row.1 < t.commit :=
  h.2 t (List.mem_of_getElem? ht)

/-- What commits earlier lies earlier. -/
theorem Ordered.index_lt (h : Ordered wal walEnd) (ht : wal[i]? = some t) (hu : wal[j]? = some u)
    (hlt : t.commit < u.commit) : i < j := by
  by_contra hle
  rcases Nat.lt_or_eq_of_le (not_lt.mp hle) with hji | rfl
  · have := h.lt hu ht hji
    have := (h.at hu).1
    omega
  · obtain rfl : t = u := Option.some.inj (ht.symm.trans hu)
    omega

theorem Ordered.index_le (h : Ordered wal walEnd) (ht : wal[i]? = some t) (hu : wal[j]? = some u)
    (hlt : t.commit < u.end_) : i ≤ j := by
  by_contra hle
  have := h.lt hu ht (not_le.mp hle)
  omega

theorem Ordered.append (h : Ordered wal walEnd) (hw : walEnd ≤ t.commit) (he : t.commit < t.end_)
    (hr : ∀ row ∈ t.rows, row.1 < t.commit) : Ordered (wal ++ [t]) t.end_ := by
  refine ⟨List.pairwise_append.mpr ⟨h.1, List.pairwise_singleton _ _, ?_⟩, ?_⟩
  · intro u hu t' ht'
    obtain rfl := List.mem_singleton.mp ht'
    exact (h.2 u hu).2.1.trans hw
  · intro u hu
    rcases List.mem_append.mp hu with hu | hu
    · obtain ⟨h1, h2, h3⟩ := h.2 u hu
      exact ⟨h1, by omega, h3⟩
    · obtain rfl := List.mem_singleton.mp hu
      exact ⟨he, le_rfl, hr⟩

/-- What is not sent over a connection commits before the position it was opened at. -/
theorem commit_lt_of_lt_firstSent {confirmed : ℕ} (ht : wal[i]? = some t)
    (h : i < firstSent wal confirmed) : t.commit < confirmed := by
  obtain ⟨hi, rfl⟩ := List.getElem?_eq_some_iff.mp ht
  simpa using List.not_of_lt_findIdx h

theorem firstSent_le (wal : List (Txn V)) (confirmed : ℕ) :
    firstSent wal confirmed ≤ wal.length :=
  List.findIdx_le_length

end Log

/-!
## What a handler hands over

An update that moves its row is handed over twice, in two steps, and a stop can come between them.
-/

/-- The position `at()` gives, and what it leaves in `txn`. -/
inductive At (lsn : ℕ) : Option Decoding → PgCursor → Option Decoding → Prop
  | outside : At lsn none (.bare lsn) none
  | inside {d d' : Decoding} {n : ℕ} (same : d'.commit = d.commit) :
      At lsn (some d) (.change d.commit lsn n) (some d')

theorem positionOf_at (txn : Option Decoding) (lsn : ℕ) :
    At lsn txn (positionOf txn lsn).1 (positionOf txn lsn).2 := by
  cases txn with
  | none => exact .outside
  | some d => exact .inside rfl

theorem At.trans {lsn : ℕ} {t t' t'' : Option Decoding} {c c' : PgCursor} (h : At lsn t c t')
    (h' : At lsn t' c' t'') : At lsn t c' t'' := by
  cases h with
  | outside => exact h'
  | @inside d d' n same =>
    cases h' with
    | inside same' => exact same ▸ .inside (same'.trans same)

theorem At.commit {lsn : ℕ} {t t' : Option Decoding} {c : PgCursor} (h : At lsn t c t') :
    t'.map Decoding.commit = t.map Decoding.commit := by
  cases h with
  | outside => rfl
  | inside same => exact congrArg some same

/-- **What one row message hands over**: nothing, and then nothing of the bridge's is in it, or one
item. Where that is not the last for the message, the rest waits with its handler. -/
theorem handleRow_cases (w : World V) (lsn : ℕ) (id : RowId) (decoded : Decoded (Row V)) :
    (decoded.isChange = false ∧ w.handleRow lsn id decoded = w) ∨
      ∃ item done rest txn,
        w.handleRow lsn id decoded = { w with txn }.hand w.generation item done rest ∧
        At lsn w.txn item.cursor txn ∧
        (decoded.isChange = true → done = some id ∨ ∃ r, rest = some r ∧ r.id = id) ∧
        ∀ r, rest = some r → r.lsn = lsn := by
  have first := positionOf_at w.txn lsn
  cases decoded with
  | nothing => exact .inl ⟨rfl, rfl⟩
  | skip => exact .inr ⟨_, _, _, _, rfl, first, nofun, nofun⟩
  | notice => exact .inr ⟨_, _, _, _, rfl, first, nofun, nofun⟩
  | hand op row => exact .inr ⟨_, _, _, _, rfl, first, fun _ => .inl rfl, nofun⟩
  | reserve row =>
    have second := positionOf_at (positionOf w.txn lsn).2 lsn
    exact .inr ⟨_, _, _, _, rfl, first.trans second, fun _ => .inl rfl, nofun⟩
  | move before after =>
    refine .inr ⟨_, _, _, _, rfl, first, fun _ => .inr ⟨_, rfl, rfl⟩, fun r hr => ?_⟩
    obtain rfl := Option.some.inj hr
    rfl

theorem handUpdate_eq (w : World V) (generation lsn : ℕ) (row : Row V) (keyChanged : Bool)
    (id : RowId) : ∃ item txn,
      w.handUpdate generation lsn row keyChanged id =
        { w with txn }.hand generation item (some id) none ∧
      At lsn w.txn item.cursor txn :=
  ⟨_, _, rfl, positionOf_at w.txn lsn⟩

variable [DecidableEq V]

/-! ## The step, case by case -/

/-- What a step does. -/
inductive Moves (bridge : Bridge) : World V → Event V → World V → Prop
  | commits {w : World V} {t : Txn V} (takes : w.Takes t) :
      Moves bridge w (.commits t) { w with wal := w.wal ++ [t], walEnd := t.end_ }
  | walGrows {w : World V} {walEnd : ℕ} (grows : w.walEnd ≤ walEnd) :
      Moves bridge w (.walGrows walEnd) { w with walEnd }
  | send {w : World V} : Moves bridge w .send { w with sent := w.after w.sent }
  | begins {w : World V} {t : Txn V} (idle : w.processing = false)
      (at_ : w.wal[w.handled.txn]? = some t) (none_ : w.handled.messages = 0) :
      Moves bridge w .data { w with
        txn := some { commit := t.commit, lsn := none, shared := 0 }
        handled := { w.handled with messages := 1 } }
  | row {w : World V} {t : Txn V} {k lsn : ℕ} {msg : RowMessage V} (idle : w.processing = false)
      (at_ : w.wal[w.handled.txn]? = some t) (some_ : w.handled.messages = k + 1)
      (row : t.rows[k]? = some (lsn, msg)) :
      Moves bridge w .data
        { w.handleRow lsn { txn := w.handled.txn, row := k } (bridge.decode msg) with
          handled := { w.handled with messages := k + 2 } }
  | ends {w : World V} {t : Txn V} (idle : w.processing = false)
      (at_ : w.wal[w.handled.txn]? = some t) (all : w.handled.messages = t.rows.length + 1) :
      Moves bridge w .data
        { { w with txn := none }.hand w.generation (.skip (.txnEnd t.commit t.end_)) none none with
          handled := { txn := w.handled.txn + 1, messages := 0 } }
  | answered {w : World V} {x : Waiter V} {rest : List (Waiter V)} (head : w.waiters = x :: rest)
      (last : x.rest = none) : Moves bridge w .resolve { w with waiters := rest }
  | goesOn {w : World V} {x : Waiter V} {rest : List (Waiter V)} {r : Rest V}
      (head : w.waiters = x :: rest) (half : x.rest = some r) :
      Moves bridge w .resolve
        ({ w with waiters := rest }.handUpdate x.generation r.lsn r.after true r.id)
  | heartbeat {w : World V} {lsn : ℕ} {shouldRespond : Bool} (sent : w.Sent lsn) :
      Moves bridge w (.heartbeat lsn shouldRespond) (w.heartbeat lsn shouldRespond)
  | ack {w : World V} {n : ℕ} {x : Handed V} (item : w.items[n]? = some x) :
      Moves bridge w (.ack n) (w.ack n x.item.cursor)
  | hears {w : World V} {position : ℕ} (told : position ∈ w.told) :
      Moves bridge w (.hears position) { w with confirmed := max w.confirmed position }
  | reconnect {w : World V} :
      Moves bridge w .reconnect { w with
        generation := w.generation + 1
        first := firstSent w.wal w.confirmed
        sent := { txn := firstSent w.wal w.confirmed, messages := 0 }
        handled := { txn := firstSent w.wal w.confirmed, messages := 0 }
        txn := none }

/-- **Every step is one of these.** -/
theorem Moves.of_step {bridge : Bridge} {w w' : World V} {e : Event V}
    (h : step bridge w e = some w') : Moves bridge w e w' := by
  cases e with
  | commits t =>
    simp only [step, Option.ite_none_right_eq_some, Option.some.injEq] at h
    obtain ⟨takes, rfl⟩ := h
    exact .commits takes
  | walGrows walEnd =>
    simp only [step, Option.ite_none_right_eq_some, Option.some.injEq] at h
    obtain ⟨grows, rfl⟩ := h
    exact .walGrows grows
  | send =>
    simp only [step, Option.ite_none_right_eq_some, Option.some.injEq] at h
    obtain ⟨-, rfl⟩ := h
    exact .send
  | data =>
    simp only [step, Option.ite_none_left_eq_some, Option.bind_eq_bind,
      Option.bind_eq_some_iff, Option.some.injEq, not_or, Bool.not_eq_true] at h
    obtain ⟨⟨idle, -⟩, t, ht, message, hm, rfl⟩ := h
    cases hk : w.handled.messages with
    | zero =>
      rw [hk, Txn.message_begin] at hm
      obtain rfl := Option.some.inj hm
      rw [World.after_of_le ht (hk ▸ Nat.zero_le _), hk]
      exact .begins idle ht hk
    | succ k =>
      rw [hk] at hm
      cases hrow : t.rows[k]? with
      | some row =>
        obtain ⟨lsn, msg⟩ := row
        rw [Txn.message_row hrow] at hm
        obtain rfl := Option.some.inj hm
        have hle : w.handled.messages ≤ t.rows.length :=
          hk ▸ (List.getElem?_eq_some_iff.mp hrow).1
        rw [World.after_of_le ht hle, World.handle, hk]
        exact .row idle ht hk hrow
      | none =>
        simp only [Txn.message, hrow, Option.ite_none_right_eq_some, Option.some.injEq] at hm
        obtain ⟨rfl, rfl⟩ := hm
        rw [World.after_of_lt ht (by omega)]
        exact .ends idle ht hk
  | resolve =>
    simp only [step] at h
    split at h
    · cases h
    · next x rest head =>
      obtain rfl := Option.some.inj h
      cases hr : x.rest with
      | none =>
        simp only [World.resolve, hr]
        exact .answered head hr
      | some r =>
        simp only [World.resolve, hr]
        exact .goesOn head hr
  | heartbeat lsn shouldRespond =>
    simp only [step, Option.ite_none_right_eq_some, Option.some.injEq] at h
    obtain ⟨sent, rfl⟩ := h
    exact .heartbeat sent
  | ack n =>
    simp only [step, Option.bind_eq_bind, Option.bind_eq_some_iff, Option.some.injEq] at h
    obtain ⟨x, item, rfl⟩ := h
    exact .ack item
  | hears position =>
    simp only [step, Option.ite_none_right_eq_some, Option.some.injEq] at h
    obtain ⟨told, rfl⟩ := h
    exact .hears told
  | reconnect =>
    obtain rfl := Option.some.inj h
    exact .reconnect

/-!
## What the invariant says

Four parts: what a start began with, what has been handed over of what was sent, where the decoder
counts, and what of it waits for the pipeline's answer.
-/

/-- What was durable when the stream was opened: the transactions before the slot's position, and
those the saved cursor is past. -/
def Start.base (start : Start V) : ℕ :=
  max start.slot (start.fromCursor.elim 0 PgCursor.reach)

/-- A change of transaction `t` is among the first `n` items, or was durable all along. -/
def Given (start : Start V) (items : List (Handed V)) (n : ℕ) (id : RowId) (t : Txn V) : Prop :=
  t.commit < start.base ∨ ∃ m < n, ∃ x, items[m]? = some x ∧ x.done = some id

/-- Every change of transaction number `i` is. -/
def AllGiven (bridge : Bridge) (start : Start V) (items : List (Handed V)) (n i : ℕ) (t : Txn V) :
    Prop :=
  ∀ k row, t.rows[k]? = some row → bridge.captures row.2 = true →
    Given start items n { txn := i, row := k } t

/-- The part of the world that only the server's log, the handlers and the pipeline move. -/
structure Feed (V : Type*) where
  wal : List (Txn V)
  walEnd : ℕ
  items : List (Handed V)
  acked : ℕ
  waiters : List (Waiter V)
  generation : ℕ
  first : ℕ
  handled : Place
  txn : Option Decoding

def World.feed (w : World V) : Feed V :=
  { wal := w.wal, walEnd := w.walEnd, items := w.items, acked := w.acked, waiters := w.waiters
    generation := w.generation, first := w.first, handled := w.handled, txn := w.txn }

/-- Position `v` lies in the log, and every change of a transaction that commits before it is among
the first `n` items. -/
def Reached (bridge : Bridge) (start : Start V) (f : Feed V) (n v : ℕ) : Prop :=
  v ≤ max f.walEnd start.base ∧
    ∀ i t, f.wal[i]? = some t → t.commit < v → AllGiven bridge start f.items n i t

/-- The log, and what was handed over. -/
structure Logged (bridge : Bridge) (start : Start V) (f : Feed V) : Prop where
  ordered : Ordered f.wal f.walEnd
  acked_le : f.acked ≤ f.items.length
  items : ∀ n x, f.items[n]? = some x → Reached bridge start f (n + 1) x.item.cursor.reach

/-- How far this connection is decoded. -/
structure Decodes (bridge : Bridge) (start : Start V) (f : Feed V) : Prop where
  first_le : f.first ≤ f.handled.txn
  handled_le : f.handled.txn ≤ f.wal.length
  notSent : ∀ i t, f.wal[i]? = some t → i < f.first → AllGiven bridge start f.items f.acked i t
  passed : ∀ i t, f.wal[i]? = some t → i < f.handled.txn →
    AllGiven bridge start f.items f.items.length i t
  inside : ∀ t k row, f.wal[f.handled.txn]? = some t → t.rows[k]? = some row →
    k + 1 < f.handled.messages → bridge.captures row.2 = true →
    Given start f.items f.items.length { txn := f.handled.txn, row := k } t ∨
      ∃ x ∈ f.waiters, x.generation = f.generation ∧
        ∃ r, x.rest = some r ∧ r.id = { txn := f.handled.txn, row := k }
  between : f.handled.messages = 0 → f.txn = none
  within : f.handled.messages ≠ 0 →
    ∃ t d, f.wal[f.handled.txn]? = some t ∧ f.txn = some d ∧ d.commit = t.commit
  halfway : ∀ x ∈ f.waiters, x.generation = f.generation → x.rest ≠ none →
    f.handled.messages ≠ 0

/-- The handlers that wait: a handler of an earlier connection that has something left to hand over
waits in front of this connection's. -/
structure Queued (bridge : Bridge) (start : Start V) (f : Feed V) : Prop where
  generation_le : ∀ x ∈ f.waiters, x.generation ≤ f.generation
  rests : ∀ x ∈ f.waiters, ∀ r, x.rest = some r →
    Reached bridge start f f.items.length r.lsn
  inFront : f.waiters.Pairwise fun x y =>
    x.generation = f.generation → y.generation ≠ f.generation → y.rest = none

/-- How much this connection has handed over. -/
def Feed.count (f : Feed V) : ℕ := (f.items.filter fun x => x.generation = f.generation).length

/-- What a connection that has handed over one thing at most is past, and what the last thing handed
over is. -/
structure Counted (bridge : Bridge) (f : Feed V) : Prop where
  generation_le : ∀ x ∈ f.items, x.generation ≤ f.generation
  late : ∀ x ∈ f.waiters, x.generation ≠ f.generation → x.rest ≠ none →
    f.count ≤ 1 ∧ (f.count ≠ 0 → ∃ y ∈ f.waiters, y.generation = f.generation)
  fresh : f.count = 0 → f.handled.txn = f.first ∧
    ∀ t k row, f.wal[f.handled.txn]? = some t → t.rows[k]? = some row →
      k + 1 < f.handled.messages → bridge.captures row.2 = false
  few : f.count ≤ 1 → ∀ i t, f.first ≤ i → i < f.handled.txn → f.wal[i]? = some t →
    ∀ row ∈ t.rows, bridge.captures row.2 = false
  mine : ∀ x, f.items.getLast? = some x → x.generation = f.generation → f.handled.messages = 0 →
    ∃ t, f.wal[f.handled.txn - 1]? = some t ∧ x.item.cursor = .txnEnd t.commit t.end_
  other : (∀ x, f.items.getLast? = some x → x.generation ≠ f.generation) → f.count ≤ 1

structure Sound (bridge : Bridge) (start : Start V) (f : Feed V) : Prop where
  logged : Logged bridge start f
  decodes : Decodes bridge start f
  queued : Queued bridge start f
  counted : Counted bridge f

/-- The positions the server was told, or will be. -/
def World.positions (w : World V) : List ℕ :=
  w.confirmed :: (w.told ++ w.ackedLsn.toList ++ (w.confirmedCursor.map PgCursor.reach).toList)

/-- **The invariant of the stream.** -/
structure InStep (bridge : Bridge) (start : Start V) (w : World V) : Prop where
  sound : Sound bridge start w.feed
  durable : ∀ v ∈ w.positions, Reached bridge start w.feed w.acked v
  handed : w.handed = w.items.getLast?.map fun x => x.item.cursor

/-!
## What stays given

The log only grows, and what was handed over stays handed over.
-/

section Given

variable {bridge : Bridge} {start : Start V} {f g : Feed V} {items l : List (Handed V)}
  {n m i v v' : ℕ} {id : RowId} {t : Txn V}

omit [DecidableEq V] in
theorem Given.mono (h : Given start items n id t) (hle : n ≤ m) :
    Given start (items ++ l) m id t := by
  rcases h with before | ⟨k, hk, x, hx, hd⟩
  · exact .inl before
  · refine .inr ⟨k, by omega, x, ?_, hd⟩
    rw [List.getElem?_append_left (List.getElem?_eq_some_iff.mp hx).1]
    exact hx

omit [DecidableEq V] in
theorem Given.last {x : Handed V} (h : x.done = some id) :
    Given start (items ++ [x]) (items ++ [x]).length id t :=
  .inr ⟨items.length, by simp, x, by simp, h⟩

theorem AllGiven.mono (h : AllGiven bridge start items n i t) (hle : n ≤ m) :
    AllGiven bridge start (items ++ l) m i t :=
  fun k row hrow hc => (h k row hrow hc).mono hle

theorem AllGiven.le (h : AllGiven bridge start items n i t) (hle : n ≤ m) :
    AllGiven bridge start items m i t := by
  simpa using h.mono (l := []) hle

theorem Reached.le (h : Reached bridge start f n v) (hle : v' ≤ v) : Reached bridge start f n v' :=
  ⟨hle.trans h.1, fun i t ht hv => h.2 i t ht (hv.trans_le hle)⟩

/-- More is handed over. -/
theorem Reached.grow (h : Reached bridge start f n v) (hwal : g.wal = f.wal)
    (hend : f.walEnd ≤ g.walEnd) (hitems : g.items = f.items ++ l) (hle : n ≤ m) :
    Reached bridge start g m v := by
  refine ⟨h.1.trans (max_le_max hend le_rfl), fun i t ht hv => ?_⟩
  rw [hitems]
  exact (h.2 i t (hwal ▸ ht) hv).mono hle

/-- Another transaction commits, past every position handed over or told. -/
theorem Reached.commits (h : Reached bridge start f n v) (hwal : g.wal = f.wal ++ [t])
    (htakes : f.walEnd ≤ t.commit) (hend : f.walEnd ≤ g.walEnd) (hitems : g.items = f.items) :
    Reached bridge start g n v := by
  refine ⟨h.1.trans (max_le_max hend le_rfl), fun i u hu hv k row hrow hc => ?_⟩
  rw [hwal] at hu
  rw [hitems]
  by_cases hi : i < f.wal.length
  · rw [List.getElem?_append_left hi] at hu
    exact h.2 i u hu hv k row hrow hc
  · rw [List.getElem?_append_right (by omega)] at hu
    obtain rfl : u = t := by simpa using List.mem_of_getElem? hu
    refine .inl ?_
    rcases le_max_iff.mp h.1 with hw | hb
    · omega
    · omega

end Given

/-!
## One item more

What each part of the invariant becomes when one item is handed over.
-/

section Hand

variable {bridge : Bridge} {start : Start V} {f g : Feed V} {x : Handed V} {t : Txn V}

theorem Logged.hand (h : Logged bridge start f)
    (reached : Reached bridge start f f.items.length x.item.cursor.reach)
    (hwal : g.wal = f.wal) (hend : g.walEnd = f.walEnd) (hacked : g.acked = f.acked)
    (hitems : g.items = f.items ++ [x]) : Logged bridge start g where
  ordered := hwal ▸ hend ▸ h.ordered
  acked_le := by
    rw [hacked, hitems, List.length_append]
    exact h.acked_le.trans (Nat.le_add_right _ _)
  items := by
    intro n y hy
    rw [hitems] at hy
    by_cases hn : n < f.items.length
    · rw [List.getElem?_append_left hn] at hy
      exact (h.items n y hy).grow hwal hend.ge hitems le_rfl
    · rw [List.getElem?_append_right (by omega)] at hy
      obtain rfl : y = x := by simpa using List.mem_of_getElem? hy
      exact reached.grow hwal hend.ge hitems (by omega)

/-- **Where a position inside a transaction lies.** `at()` gives one past the transactions before
the one being decoded, or, outside of any, past those the message itself comes after. -/
theorem Sound.reached_at (h : Sound bridge start f) {lsn : ℕ} {c : PgCursor} {d : Option Decoding}
    (at_ : At lsn f.txn c d) (outside : Reached bridge start f f.items.length lsn) :
    Reached bridge start f f.items.length c.reach := by
  cases hd : f.txn with
  | none =>
    rw [hd] at at_
    cases at_
    exact outside
  | some d =>
    rw [hd] at at_
    cases at_
    have hm : f.handled.messages ≠ 0 := fun h0 => by simp [h.decodes.between h0] at hd
    obtain ⟨t, d', ht, htxn, hc⟩ := h.decodes.within hm
    obtain rfl : d = d' := Option.some.inj (hd.symm.trans htxn)
    refine ⟨?_, fun i u hu hv => ?_⟩
    · have := h.logged.ordered.at ht
      exact le_trans (b := f.walEnd) (by show d.commit ≤ _; omega) (le_max_left _ _)
    · have hlt : u.commit < t.commit := hc ▸ hv
      exact h.decodes.passed i u hu (h.logged.ordered.index_lt hu ht hlt)

/-- Every transaction that commits before the record of a row message is handed over. -/
theorem Sound.reached_row (h : Sound bridge start f) (ht : f.wal[f.handled.txn]? = some t)
    {row : ℕ × RowMessage V} (hrow : row ∈ t.rows) :
    Reached bridge start f f.items.length row.1 := by
  obtain ⟨hce, hew, hr⟩ := h.logged.ordered.at ht
  have hlt := hr row hrow
  refine ⟨le_trans (b := f.walEnd) (by omega) (le_max_left _ _), fun i u hu hv => ?_⟩
  exact h.decodes.passed i u hu (h.logged.ordered.index_lt hu ht (hv.trans hlt))

omit [DecidableEq V] in
theorem count_append (hitems : g.items = f.items ++ [x]) (hgen : g.generation = f.generation) :
    g.count = f.count + if x.generation = f.generation then 1 else 0 := by
  by_cases hx : x.generation = f.generation <;>
    simp [Feed.count, hitems, hgen, List.filter_append, hx]

/-- **This connection hands over one thing more**, no handler of it being left. -/
theorem Counted.hand (h : Counted bridge f)
    (idle : ∀ y ∈ f.waiters, y.generation ≠ f.generation)
    {rest : Option (Rest V)} (hgen : g.generation = f.generation)
    (hx : x.generation = f.generation) (hitems : g.items = f.items ++ [x])
    (hwaiters : g.waiters = f.waiters ++ [{ generation := f.generation, rest }])
    (few : f.count = 0 → ∀ i t, g.first ≤ i → i < g.handled.txn → g.wal[i]? = some t →
      ∀ row ∈ t.rows, bridge.captures row.2 = false)
    (mine : g.handled.messages = 0 → ∃ t, g.wal[g.handled.txn - 1]? = some t ∧
      x.item.cursor = .txnEnd t.commit t.end_) : Counted bridge g := by
  have hcount : g.count = f.count + 1 := by rw [count_append hitems hgen, if_pos hx]
  have hlast : g.items.getLast? = some x := by simp [hitems]
  constructor
  · intro y hy
    rw [hitems] at hy
    rcases List.mem_append.mp hy with hy | hy
    · exact hgen ▸ h.generation_le y hy
    · obtain rfl := List.mem_singleton.mp hy
      exact (hx.trans hgen.symm).le
  · intro y hy hne hrest
    rw [hwaiters] at hy
    rcases List.mem_append.mp hy with hy | hy
    · have late := h.late y hy (hgen ▸ hne) hrest
      have h0 : f.count = 0 := by
        by_contra hcne
        obtain ⟨z, hz, hzg⟩ := late.2 hcne
        exact idle z hz hzg
      refine ⟨by omega, fun _ => ⟨{ generation := f.generation, rest }, ?_, hgen.symm⟩⟩
      · rw [hwaiters]
        exact List.mem_append_right _ (List.mem_singleton_self _)
    · obtain rfl := List.mem_singleton.mp hy
      exact absurd hgen.symm hne
  · intro h0
    omega
  · intro h1
    exact few (by omega)
  · intro y hy _ hm
    obtain rfl := Option.some.inj (hlast.symm.trans hy)
    exact mine hm
  · intro other
    exact absurd (hx.trans hgen.symm) (other x hlast)

/-- The decoding goes on by one row message. -/
theorem Decodes.row (h : Decodes bridge start f) {k lsn : ℕ} {msg : RowMessage V}
    {l : List (Handed V)} (idle : ∀ y ∈ f.waiters, y.generation ≠ f.generation)
    (ht : f.wal[f.handled.txn]? = some t) (hk : f.handled.messages = k + 1)
    (hrow : t.rows[k]? = some (lsn, msg)) (hwal : g.wal = f.wal) (hfirst : g.first = f.first)
    (hacked : g.acked = f.acked) (hitems : g.items = f.items ++ l)
    (hhandled : g.handled = { f.handled with messages := k + 2 })
    (htxn : g.txn.map Decoding.commit = f.txn.map Decoding.commit)
    (given : bridge.captures msg = true →
      Given start g.items g.items.length { txn := f.handled.txn, row := k } t ∨
        ∃ y ∈ g.waiters, y.generation = g.generation ∧
          ∃ r, y.rest = some r ∧ r.id = { txn := f.handled.txn, row := k }) :
    Decodes bridge start g where
  first_le := by
    rw [hfirst, hhandled]
    exact h.first_le
  handled_le := by
    rw [hwal, hhandled]
    exact h.handled_le
  notSent := by
    intro i u hu hi
    rw [hwal] at hu
    rw [hfirst] at hi
    rw [hitems, hacked]
    exact (h.notSent i u hu hi).mono le_rfl
  passed := by
    intro i u hu hi
    rw [hwal] at hu
    rw [hhandled] at hi
    rw [hitems]
    exact (h.passed i u hu hi).mono (by simp)
  inside := by
    intro u j row hu hj hlt hc
    rw [hwal, hhandled] at hu
    rw [hhandled] at hlt ⊢
    obtain rfl : u = t := Option.some.inj (hu.symm.trans ht)
    have hjk : j + 1 < k + 2 := hlt
    rcases Nat.lt_or_eq_of_le (show j ≤ k by omega) with hjk | rfl
    · rcases h.inside u j row hu hj (by omega) hc with hg | ⟨y, hy, hgen, -⟩
      · rw [hitems]
        exact .inl (hg.mono (by simp))
      · exact absurd hgen (idle y hy)
    · obtain rfl : row = (lsn, msg) := Option.some.inj (hj.symm.trans hrow)
      exact given hc
  between := by
    rw [hhandled]
    exact nofun
  within := by
    intro _
    obtain ⟨u, d, hu, hd, hc⟩ := h.within (by omega)
    rw [hd] at htxn
    obtain ⟨d', hd', hcd⟩ := Option.map_eq_some_iff.mp htxn
    rw [hwal, hhandled]
    exact ⟨u, d', hu, hd', hcd.trans hc⟩
  halfway := by
    rw [hhandled]
    exact fun _ _ _ _ => nofun

/-- A handler comes to wait, at the end of the queue. -/
theorem Queued.push (h : Queued bridge start f) {y : Waiter V} {l : List (Handed V)}
    (hwal : g.wal = f.wal) (hend : g.walEnd = f.walEnd) (hitems : g.items = f.items ++ l)
    (hgen : g.generation = f.generation) (hwaiters : g.waiters = f.waiters ++ [y])
    (hle : y.generation ≤ f.generation)
    (rest : ∀ r, y.rest = some r → y.generation = f.generation ∧
      Reached bridge start f f.items.length r.lsn) : Queued bridge start g where
  generation_le := by
    intro x hx
    rw [hwaiters] at hx
    rw [hgen]
    rcases List.mem_append.mp hx with hx | hx
    · exact h.generation_le x hx
    · obtain rfl := List.mem_singleton.mp hx
      exact hle
  rests := by
    intro x hx r hr
    rw [hwaiters] at hx
    have hlen : f.items.length ≤ g.items.length := by simp [hitems]
    rcases List.mem_append.mp hx with hx | hx
    · exact (h.rests x hx r hr).grow hwal hend.ge hitems hlen
    · obtain rfl := List.mem_singleton.mp hx
      exact (rest r hr).2.grow hwal hend.ge hitems hlen
  inFront := by
    rw [hwaiters, hgen]
    refine List.pairwise_append.mpr ⟨h.inFront, List.pairwise_singleton _ _, ?_⟩
    intro x _ z hz _ hne
    obtain rfl := List.mem_singleton.mp hz
    by_contra hrest
    obtain ⟨r, hr⟩ := Option.ne_none_iff_exists'.mp hrest
    exact hne (rest r hr).1

end Hand

/-!
## The pipeline answers

An answer takes the head of the queue away, and lets the decoder go on.
-/

section Answers

variable {bridge : Bridge} {start : Start V} {f g : Feed V} {x : Waiter V} {rest : List (Waiter V)}

theorem Queued.tail (h : Queued bridge start f) (head : f.waiters = x :: rest) :
    Queued bridge start { f with waiters := rest } where
  generation_le := fun y hy => h.generation_le y (head ▸ List.mem_cons_of_mem _ hy)
  rests := fun y hy r hr =>
    (h.rests y (head ▸ List.mem_cons_of_mem _ hy) r hr).grow (l := []) rfl le_rfl (by simp) le_rfl
  inFront := (List.pairwise_cons.mp (head ▸ h.inFront)).2

/-- A handler of an earlier connection behind one of this connection's has nothing left. -/
theorem Queued.behind (h : Queued bridge start f) (head : f.waiters = x :: rest)
    (hx : x.generation = f.generation) {y : Waiter V} (hy : y ∈ rest)
    (hne : y.generation ≠ f.generation) : y.rest = none := by
  have ordered := h.inFront
  rw [head] at ordered
  exact (List.pairwise_cons.mp ordered).1 y hy hx hne

theorem Decodes.answer (h : Decodes bridge start f) (head : f.waiters = x :: rest)
    {l : List (Handed V)} (hwal : g.wal = f.wal) (hfirst : g.first = f.first)
    (hacked : g.acked = f.acked) (hitems : g.items = f.items ++ l)
    (hhandled : g.handled = f.handled) (hgen : g.generation = f.generation)
    (htxn : g.txn.map Decoding.commit = f.txn.map Decoding.commit)
    (left : ∀ y ∈ rest, y ∈ g.waiters)
    (back : ∀ y ∈ g.waiters, y.rest ≠ none → y ∈ f.waiters)
    (given : ∀ r t, x.rest = some r → Given start g.items g.items.length r.id t) :
    Decodes bridge start g where
  first_le := by
    rw [hfirst, hhandled]
    exact h.first_le
  handled_le := by
    rw [hwal, hhandled]
    exact h.handled_le
  notSent := by
    rw [hwal, hfirst, hitems, hacked]
    exact fun i t ht hi => (h.notSent i t ht hi).mono le_rfl
  passed := by
    rw [hwal, hhandled, hitems]
    exact fun i t ht hi => (h.passed i t ht hi).mono (by simp)
  inside := by
    intro t k row ht hrow hlt hc
    rw [hwal, hhandled] at ht
    rw [hhandled] at hlt ⊢
    rcases h.inside t k row ht hrow hlt hc with hg | ⟨y, hy, hgy, r, hr, hid⟩
    · rw [hitems]
      exact .inl (hg.mono (by simp))
    · rw [head] at hy
      rcases List.mem_cons.mp hy with rfl | hy
      · exact .inl (hid ▸ given r t hr)
      · exact .inr ⟨y, left y hy, hgy.trans hgen.symm, r, hr, hid⟩
  between := by
    rw [hhandled]
    intro h0
    rw [h.between h0] at htxn
    exact Option.map_eq_none_iff.mp htxn
  within := by
    rw [hhandled, hwal]
    intro hm
    obtain ⟨t, d, ht, hd, hc⟩ := h.within hm
    rw [hd] at htxn
    obtain ⟨d', hd', hcd⟩ := Option.map_eq_some_iff.mp htxn
    exact ⟨t, d', ht, hd', hcd.trans hc⟩
  halfway := by
    intro y hy hgy hrest
    rw [hhandled]
    exact h.halfway y (back y hy hrest) (hgy.trans hgen) hrest

theorem Counted.answered (h : Counted bridge f) (hq : Queued bridge start f)
    (head : f.waiters = x :: rest) : Counted bridge { f with waiters := rest } where
  generation_le := h.generation_le
  late := by
    intro y hy hne hrest
    obtain ⟨hle, hone⟩ := h.late y (head ▸ List.mem_cons_of_mem _ hy) hne hrest
    refine ⟨hle, fun h0 => ?_⟩
    obtain ⟨z, hz, hgz⟩ := hone h0
    rw [head] at hz
    rcases List.mem_cons.mp hz with rfl | hz
    · exact absurd (hq.behind head hgz hy hne) hrest
    · exact ⟨z, hz, hgz⟩
  fresh := h.fresh
  few := h.few
  mine := h.mine
  other := h.other

/-- **A handler goes on after its delete.** One of an earlier connection has waited in front of
everything this connection handed over, and that is one thing at most. -/
theorem Counted.goesOn (h : Counted bridge f) (hq : Queued bridge start f)
    (hd : Decodes bridge start f) (head : f.waiters = x :: rest) (half : x.rest ≠ none)
    {y : Handed V} (hy : y.generation = x.generation) (hwal : g.wal = f.wal)
    (hfirst : g.first = f.first) (hhandled : g.handled = f.handled)
    (hgen : g.generation = f.generation) (hitems : g.items = f.items ++ [y])
    (hwaiters : g.waiters = rest ++ [{ generation := x.generation, rest := none }]) :
    Counted bridge g := by
  have hcount := count_append hitems hgen
  have hlast : g.items.getLast? = some y := by simp [hitems]
  have hmem : x ∈ f.waiters := head ▸ List.mem_cons_self
  have hle : f.count ≤ g.count := by omega
  constructor
  · intro z hz
    rw [hitems] at hz
    rw [hgen]
    rcases List.mem_append.mp hz with hz | hz
    · exact h.generation_le z hz
    · obtain rfl := List.mem_singleton.mp hz
      exact hy ▸ hq.generation_le x hmem
  · intro z hz hne hrest
    rw [hwaiters] at hz
    rw [hgen] at hne
    rcases List.mem_append.mp hz with hz | hz
    · by_cases hx : x.generation = f.generation
      · exact absurd (hq.behind head hx hz hne) hrest
      · rw [if_neg (hy ▸ hx)] at hcount
        obtain ⟨hle1, hone⟩ := h.late x hmem hx half
        refine ⟨by omega, fun h0 => ?_⟩
        obtain ⟨u, hu, hgu⟩ := hone (by omega)
        rw [head] at hu
        rcases List.mem_cons.mp hu with rfl | hu
        · exact absurd hgu hx
        · exact ⟨u, hwaiters ▸ List.mem_append_left _ hu, hgu.trans hgen.symm⟩
    · obtain rfl := List.mem_singleton.mp hz
      exact absurd rfl hrest
  · intro h0
    rw [hwal, hfirst, hhandled]
    exact h.fresh (by omega)
  · intro h1
    rw [hwal, hfirst, hhandled]
    exact h.few (by omega)
  · intro z hz hgz hm
    obtain rfl := Option.some.inj (hlast.symm.trans hz)
    have hx : x.generation = f.generation := hy.symm.trans (hgz.trans hgen)
    exact absurd (hhandled ▸ hm) (hd.halfway x hmem hx half)
  · intro other
    have hx : x.generation ≠ f.generation := fun hx =>
      other y hlast (hy.trans (hx.trans hgen.symm))
    rw [if_neg (hy ▸ hx)] at hcount
    have := (h.late x hmem hx half).1
    omega

end Answers

/-!
## Every step keeps what was handed over in order

One lemma for each event of the connection and the pipeline.
-/

section Steps

variable {bridge : Bridge} {start : Start V} {f : Feed V} {t : Txn V}

theorem Sound.commits (h : Sound bridge start f) (hw : f.walEnd ≤ t.commit)
    (he : t.commit < t.end_) (hr : ∀ row ∈ t.rows, row.1 < t.commit) :
    Sound bridge start { f with wal := f.wal ++ [t], walEnd := t.end_ } := by
  have reached {n v : ℕ} (hv : Reached bridge start f n v) :
      Reached bridge start { f with wal := f.wal ++ [t], walEnd := t.end_ } n v :=
    hv.commits rfl hw (by show f.walEnd ≤ t.end_; omega) rfl
  -- the connection is not past the log's end, so the new transaction is ahead of it
  have old {i : ℕ} {u : Txn V} (hi : i < f.handled.txn) (hu : (f.wal ++ [t])[i]? = some u) :
      f.wal[i]? = some u := by
    rwa [List.getElem?_append_left (hi.trans_le h.decodes.handled_le)] at hu
  have current {u : Txn V} (hm : f.handled.messages ≠ 0)
      (hu : (f.wal ++ [t])[f.handled.txn]? = some u) : f.wal[f.handled.txn]? = some u := by
    obtain ⟨t', -, ht', -⟩ := h.decodes.within hm
    rwa [List.getElem?_append_left (List.getElem?_eq_some_iff.mp ht').1] at hu
  constructor
  · exact ⟨h.logged.ordered.append hw he hr, h.logged.acked_le,
      fun n x hx => reached (h.logged.items n x hx)⟩
  · exact
    { h.decodes with
      handled_le := by
        rw [List.length_append]
        exact h.decodes.handled_le.trans (Nat.le_add_right _ _)
      notSent := fun i u hu hi =>
        h.decodes.notSent i u (old (hi.trans_le h.decodes.first_le) hu) hi
      passed := fun i u hu hi => h.decodes.passed i u (old hi hu) hi
      inside := fun u k row hu hrow hk hc =>
        h.decodes.inside u k row (current (by intro h0; simp [h0] at hk) hu) hrow hk hc
      within := by
        intro hm
        obtain ⟨u, d, hu, hd, hc⟩ := h.decodes.within hm
        refine ⟨u, d, ?_, hd, hc⟩
        rw [List.getElem?_append_left (List.getElem?_eq_some_iff.mp hu).1]
        exact hu }
  · exact
    { h.queued with
      rests := fun x hx r hrest => reached (h.queued.rests x hx r hrest) }
  · exact
    { h.counted with
      fresh := fun h0 => ⟨(h.counted.fresh h0).1, fun u k row hu hrow hk =>
        (h.counted.fresh h0).2 u k row (current (by intro h0; simp [h0] at hk) hu) hrow hk⟩
      few := fun h1 i u hf hi hu => h.counted.few h1 i u hf hi (old hi hu)
      mine := by
        intro x hx hg hm
        obtain ⟨u, hu, hc⟩ := h.counted.mine x hx hg hm
        refine ⟨u, ?_, hc⟩
        rw [List.getElem?_append_left (List.getElem?_eq_some_iff.mp hu).1]
        exact hu }

theorem Sound.walGrows (h : Sound bridge start f) {walEnd : ℕ} (hle : f.walEnd ≤ walEnd) :
    Sound bridge start { f with walEnd } := by
  have reached {n v : ℕ} (hv : Reached bridge start f n v) :
      Reached bridge start { f with walEnd } n v :=
    hv.grow (l := []) rfl hle (by simp) le_rfl
  refine ⟨⟨⟨h.logged.ordered.1, fun u hu => ?_⟩, h.logged.acked_le, fun n x hx =>
    reached (h.logged.items n x hx)⟩, { h.decodes with }, ?_, { h.counted with }⟩
  · obtain ⟨h1, h2, h3⟩ := h.logged.ordered.2 u hu
    exact ⟨h1, h2.trans hle, h3⟩
  · exact { h.queued with rests := fun x hx r hr => reached (h.queued.rests x hx r hr) }

theorem Sound.begins (h : Sound bridge start f) (idle : ∀ y ∈ f.waiters, y.generation ≠ f.generation)
    (ht : f.wal[f.handled.txn]? = some t) :
    Sound bridge start { f with
      txn := some { commit := t.commit, lsn := none, shared := 0 }
      handled := { f.handled with messages := 1 } } := by
  refine ⟨{ h.logged with items := h.logged.items }, ?_, { h.queued with rests := h.queued.rests }, ?_⟩
  · exact
    { h.decodes with
      inside := fun u k row _ _ hk => absurd hk (by simp)
      between := nofun
      within := fun _ => ⟨t, _, ht, rfl, rfl⟩
      halfway := fun x hx hg => absurd hg (idle x hx) }
  · exact
    { h.counted with
      fresh := fun h0 => ⟨(h.counted.fresh h0).1, fun u k row _ _ hk => absurd hk (by simp)⟩
      mine := fun _ _ _ none => absurd none one_ne_zero }

/-- A message that hands nothing over: there is nothing of the bridge's in it. -/
theorem Sound.silent (h : Sound bridge start f) (idle : ∀ y ∈ f.waiters, y.generation ≠ f.generation)
    {k lsn : ℕ} {msg : RowMessage V} (ht : f.wal[f.handled.txn]? = some t)
    (hk : f.handled.messages = k + 1) (hrow : t.rows[k]? = some (lsn, msg))
    (quiet : bridge.captures msg = false) :
    Sound bridge start { f with handled := { f.handled with messages := k + 2 } } := by
  refine ⟨{ h.logged with items := h.logged.items }, ?_, { h.queued with rests := h.queued.rests }, ?_⟩
  · refine h.decodes.row (l := []) idle ht hk hrow rfl rfl rfl (by simp) rfl rfl fun hc => ?_
    rw [quiet] at hc
    cases hc
  · exact
    { h.counted with
      fresh := by
        intro h0
        refine ⟨(h.counted.fresh h0).1, fun u j row hu hj hlt => ?_⟩
        have hjk : j + 1 < k + 2 := hlt
        rcases Nat.lt_or_eq_of_le (show j ≤ k by omega) with hjk | rfl
        · exact (h.counted.fresh h0).2 u j row hu hj (by omega)
        · obtain rfl : u = t := Option.some.inj (hu.symm.trans ht)
          obtain rfl : row = (lsn, msg) := Option.some.inj (hj.symm.trans hrow)
          exact quiet
      mine := fun _ _ _ none => absurd none (Nat.succ_ne_zero _) }

/-- A row message hands an item over. -/
theorem Sound.row (h : Sound bridge start f) (idle : ∀ y ∈ f.waiters, y.generation ≠ f.generation)
    {k lsn : ℕ} {msg : RowMessage V} (ht : f.wal[f.handled.txn]? = some t)
    (hk : f.handled.messages = k + 1) (hrow : t.rows[k]? = some (lsn, msg))
    {item : StreamItem PgCursor (Row V)} {done : Option RowId} {rest : Option (Rest V)}
    {txn : Option Decoding} (at_ : At lsn f.txn item.cursor txn)
    (isDone : bridge.captures msg = true → done = some { txn := f.handled.txn, row := k } ∨
      ∃ r, rest = some r ∧ r.id = { txn := f.handled.txn, row := k })
    (restAt : ∀ r, rest = some r → r.lsn = lsn) :
    Sound bridge start { f with
      items := f.items ++ [{ generation := f.generation, item, done }]
      waiters := f.waiters ++ [{ generation := f.generation, rest }]
      txn := txn
      handled := { f.handled with messages := k + 2 } } := by
  have outside : Reached bridge start f f.items.length lsn :=
    h.reached_row ht (List.mem_of_getElem? hrow)
  refine ⟨h.logged.hand (h.reached_at at_ outside) rfl rfl rfl rfl, ?_, ?_, ?_⟩
  · refine h.decodes.row idle ht hk hrow rfl rfl rfl rfl rfl at_.commit fun hc => ?_
    rcases isDone hc with hdone | ⟨r, hr, hid⟩
    · exact .inl (Given.last hdone)
    · exact .inr ⟨_, List.mem_append_right _ (List.mem_singleton_self _), rfl, r, hr, hid⟩
  · refine h.queued.push rfl rfl rfl rfl rfl le_rfl fun r hr => ⟨rfl, ?_⟩
    exact restAt r hr ▸ outside
  · refine h.counted.hand idle rfl rfl rfl rfl (fun h0 => ?_) nofun
    exact h.counted.few (by omega)

/-- **The end of a transaction.** Everything up to it is handed over, and the item says so. -/
theorem Sound.ends (h : Sound bridge start f) (idle : ∀ y ∈ f.waiters, y.generation ≠ f.generation)
    (ht : f.wal[f.handled.txn]? = some t) (all : f.handled.messages = t.rows.length + 1) :
    Sound bridge start { f with
      items := f.items ++ [{ generation := f.generation, item := .skip (.txnEnd t.commit t.end_)
                             done := none }]
      waiters := f.waiters ++ [{ generation := f.generation, rest := none }]
      txn := none
      handled := { txn := f.handled.txn + 1, messages := 0 } } := by
  obtain ⟨hce, hew, -⟩ := h.logged.ordered.at ht
  have passed : ∀ i u, f.wal[i]? = some u → i < f.handled.txn + 1 →
      AllGiven bridge start f.items f.items.length i u := by
    intro i u hu hi
    rcases Nat.lt_or_eq_of_le (Nat.lt_succ_iff.mp hi) with hlt | rfl
    · exact h.decodes.passed i u hu hlt
    · intro k row hrow hc
      obtain rfl : u = t := Option.some.inj (hu.symm.trans ht)
      have hk : k < u.rows.length := (List.getElem?_eq_some_iff.mp hrow).1
      rcases h.decodes.inside u k row hu hrow (by omega) hc with hg | ⟨y, hy, hgen, -⟩
      · exact hg
      · exact absurd hgen (idle y hy)
  have reached : Reached bridge start f f.items.length (PgCursor.txnEnd t.commit t.end_).reach := by
    refine ⟨le_trans (b := f.walEnd) ?_ (le_max_left _ _), fun i u hu hv => passed i u hu ?_⟩
    · exact max_le (by omega) hew
    · refine Nat.lt_succ_of_le (h.logged.ordered.index_le hu ht ?_)
      exact lt_of_lt_of_le hv (max_le (by omega) le_rfl)
  refine ⟨h.logged.hand ?_ rfl rfl rfl rfl, ?_, ?_, ?_⟩
  · exact reached
  · exact
    { first_le := h.decodes.first_le.trans (Nat.le_succ _)
      handled_le := (List.getElem?_eq_some_iff.mp ht).1
      notSent := fun i u hu hi => (h.decodes.notSent i u hu hi).mono le_rfl
      passed := fun i u hu hi => (passed i u hu hi).mono (by simp)
      inside := fun u k row _ _ hk => absurd hk (by simp)
      between := fun _ => rfl
      within := fun hm => absurd rfl hm
      halfway := by
        intro y hy hgy hrest
        rcases List.mem_append.mp hy with hy | hy
        · exact absurd hgy (idle y hy)
        · obtain rfl := List.mem_singleton.mp hy
          exact absurd rfl hrest }
  · exact h.queued.push rfl rfl rfl rfl rfl le_rfl nofun
  · refine h.counted.hand idle rfl rfl rfl rfl (fun h0 i u hf hi hu row hrow => ?_) fun _ => ?_
    · obtain ⟨hfirst, hquiet⟩ := h.counted.fresh h0
      have hi' : i < f.handled.txn + 1 := hi
      have hf' : f.first ≤ i := hf
      obtain rfl : i = f.handled.txn := by omega
      obtain rfl : u = t := Option.some.inj (hu.symm.trans ht)
      obtain ⟨k, hk⟩ := List.mem_iff_getElem?.mp hrow
      have hlt : k < u.rows.length := (List.getElem?_eq_some_iff.mp hk).1
      exact hquiet u k row hu hk (by omega)
    · exact ⟨t, ht, rfl⟩

theorem Sound.answered (h : Sound bridge start f) {x : Waiter V} {rest : List (Waiter V)}
    (head : f.waiters = x :: rest) (last : x.rest = none) :
    Sound bridge start { f with waiters := rest } := by
  refine ⟨{ h.logged with items := h.logged.items }, ?_, h.queued.tail head,
    h.counted.answered h.queued head⟩
  refine h.decodes.answer (l := []) head rfl rfl rfl (by simp) rfl rfl rfl (fun y hy => hy)
    (fun y hy _ => head ▸ List.mem_cons_of_mem _ hy) fun r t hr => ?_
  rw [last] at hr
  cases hr

/-- A handler hands over what was left of its message. -/
theorem Sound.goesOn (h : Sound bridge start f) {x : Waiter V} {rest : List (Waiter V)} {r : Rest V}
    (head : f.waiters = x :: rest) (half : x.rest = some r) {item : StreamItem PgCursor (Row V)}
    {txn : Option Decoding} (at_ : At r.lsn f.txn item.cursor txn) :
    Sound bridge start { f with
      items := f.items ++ [{ generation := x.generation, item, done := some r.id }]
      waiters := rest ++ [{ generation := x.generation, rest := none }]
      txn } := by
  have hmem : x ∈ f.waiters := head ▸ List.mem_cons_self
  have hne : x.rest ≠ none := by simp [half]
  refine ⟨h.logged.hand (h.reached_at at_ (h.queued.rests x hmem r half)) rfl rfl rfl rfl,
    ?_, ?_, ?_⟩
  · refine h.decodes.answer head rfl rfl rfl rfl rfl rfl at_.commit
      (fun y hy => List.mem_append_left _ hy) (fun y hy hrest => ?_) fun r' t hr => ?_
    · rcases List.mem_append.mp hy with hy | hy
      · exact head ▸ List.mem_cons_of_mem _ hy
      · obtain rfl := List.mem_singleton.mp hy
        exact absurd rfl hrest
    · obtain rfl : r = r' := Option.some.inj (half.symm.trans hr)
      exact Given.last rfl
  · exact (h.queued.tail head).push rfl rfl rfl rfl rfl (h.queued.generation_le x hmem) nofun
  · exact h.counted.goesOn h.queued h.decodes head hne rfl rfl rfl rfl rfl rfl rfl

theorem Sound.acks (h : Sound bridge start f) {n : ℕ} (hn : n ≤ f.items.length) :
    Sound bridge start { f with acked := max f.acked n } := by
  refine ⟨⟨h.logged.ordered, max_le h.logged.acked_le hn, h.logged.items⟩,
    { h.decodes with
      notSent := fun i t ht hi => (h.decodes.notSent i t ht hi).le (le_max_left _ _) },
    { h.queued with rests := h.queued.rests }, { h.counted with }⟩

/-- **The stream reconnects.** What the new connection is not sent was confirmed, and is durable. -/
theorem Sound.reconnect (h : Sound bridge start f) {confirmed : ℕ}
    (durable : Reached bridge start f f.acked confirmed) :
    Sound bridge start { f with
      generation := f.generation + 1
      first := firstSent f.wal confirmed
      handled := { txn := firstSent f.wal confirmed, messages := 0 }
      txn := none } := by
  have notSent : ∀ i t, f.wal[i]? = some t → i < firstSent f.wal confirmed →
      AllGiven bridge start f.items f.acked i t :=
    fun i t ht hi => durable.2 i t ht (commit_lt_of_lt_firstSent ht hi)
  have none_new : ∀ x ∈ f.items, x.generation ≠ f.generation + 1 := fun x hx =>
    (Nat.lt_succ_of_le (h.counted.generation_le x hx)).ne
  have hcount : (f.items.filter fun x => x.generation = f.generation + 1).length = 0 := by
    rw [List.length_eq_zero_iff, List.filter_eq_nil_iff]
    intro x hx
    simpa using none_new x hx
  refine ⟨{ h.logged with items := h.logged.items }, ?_, ?_, ?_⟩
  · exact
    { first_le := le_rfl
      handled_le := firstSent_le _ _
      notSent := notSent
      passed := fun i t ht hi => (notSent i t ht hi).le h.logged.acked_le
      inside := fun u k row _ _ hk => absurd hk (by simp)
      between := fun _ => rfl
      within := fun hm => absurd rfl hm
      halfway := fun x hx hg =>
        absurd hg (Nat.lt_succ_of_le (h.queued.generation_le x hx)).ne }
  · exact
    { generation_le := fun x hx => (h.queued.generation_le x hx).trans (Nat.le_succ _)
      rests := h.queued.rests
      inFront := List.Pairwise.imp_of_mem (fun hx _ _ hg =>
        absurd hg (Nat.lt_succ_of_le (h.queued.generation_le _ hx)).ne) h.queued.inFront }
  · exact
    { generation_le := fun x hx => (h.counted.generation_le x hx).trans (Nat.le_succ _)
      late := fun x hx _ _ => ⟨hcount.le.trans (Nat.zero_le _), fun hc => absurd hcount hc⟩
      fresh := fun _ => ⟨rfl, fun u k row _ _ hk => absurd hk (by simp)⟩
      few := fun _ i t hf hi => absurd hi (not_lt.mpr hf)
      mine := fun x hx hg => absurd hg (none_new x (List.mem_of_getLast? hx))
      other := fun _ => hcount.le.trans (Nat.zero_le _) }

end Steps

/-!
## What may be confirmed

The position that is reported to the server is behind everything that still waits.
-/

section Confirming

variable {bridge : Bridge} {start : Start V} {w w' : World V}

omit [DecidableEq V] in
theorem mem_positions {v : ℕ} : v ∈ w.positions ↔ v = w.confirmed ∨ v ∈ w.told ∨
    w.ackedLsn = some v ∨ ∃ c, w.confirmedCursor = some c ∧ c.reach = v := by
  simp [World.positions, Option.mem_toList]

theorem InStep.of_sound (h : InStep bridge start w) (sound : Sound bridge start w'.feed)
    (reached : ∀ v, Reached bridge start w.feed w.acked v →
      Reached bridge start w'.feed w'.acked v)
    (positions : ∀ v ∈ w'.positions, v ∈ w.positions)
    (handed : w'.handed = w'.items.getLast?.map fun x => x.item.cursor) :
    InStep bridge start w' where
  sound := sound
  durable := fun v hv => reached v (h.durable v (positions v hv))
  handed := handed

/-- **An idle stream has nothing in flight.** Every transaction that commits before the position of
the keepalive was sent, so it is decoded; and the last thing handed over is durable. -/
theorem InStep.reached_of_idle (h : InStep bridge start w) (idle : w.idle = true) {lsn : ℕ}
    (sent : w.Sent lsn) : Reached bridge start w.feed w.acked lsn := by
  simp only [World.idle, World.drained, Bool.and_eq_true, List.isEmpty_iff, decide_eq_true_eq,
    Option.isNone_iff_eq_none] at idle
  obtain ⟨⟨⟨-, hsent⟩, htxn⟩, hflight⟩ := idle
  have hd := h.sound.decodes
  have hm : w.handled.messages = 0 := by
    by_contra hne
    obtain ⟨t, d, -, hd, -⟩ := hd.within hne
    rw [show w.txn = some d from hd] at htxn
    cases htxn
  refine ⟨le_trans sent.1 (le_max_left _ _), fun i t ht hv => ?_⟩
  have hi : i < w.handled.txn := by
    by_contra hge
    have hdrop : t ∈ w.wal.drop w.sent.txn := by
      refine List.mem_iff_getElem?.mpr ⟨i - w.sent.txn, ?_⟩
      rw [List.getElem?_drop, ← hsent]
      rwa [show w.handled.txn + (i - w.handled.txn) = i by omega]
    exact absurd (sent.2 t hdrop) (not_le.mpr hv)
  by_cases hf : i < w.first
  · exact hd.notSent i t ht hf
  have quiet (hle : w.feed.count ≤ 1) : AllGiven bridge start w.items w.acked i t := by
    intro k row hrow hc
    have := h.sound.counted.few hle i t (not_lt.mp hf) hi ht row (List.mem_of_getElem? hrow)
    rw [hc] at this
    cases this
  cases hlast : w.items.getLast? with
  | none => exact quiet (h.sound.counted.other fun x hx => by
      rw [show w.items.getLast? = some x from hx] at hlast
      cases hlast)
  | some x =>
    by_cases hx : x.generation = w.generation
    · -- this connection's: the end of the last transaction it decoded
      obtain ⟨u, hu, hcursor⟩ := h.sound.counted.mine x hlast hx hm
      have hhanded := h.handed
      rw [hlast, Option.map_some, hcursor] at hhanded
      simp only [hhanded, Bool.and_eq_true, Bool.not_eq_true'] at hflight
      obtain ⟨hsome, hafter⟩ := hflight
      obtain ⟨c, hc⟩ := Option.isSome_iff_exists.mp hsome
      rw [hc] at hafter
      have hreach : u.commit < c.reach := lt_reach_of_not_after hafter
      have hdurable := h.durable c.reach (mem_positions.mpr (.inr (.inr (.inr ⟨c, hc, rfl⟩))))
      refine hdurable.2 i t ht (lt_of_le_of_lt ?_ hreach)
      by_contra hlt
      have hui : w.handled.txn - 1 < i := h.sound.logged.ordered.index_lt hu ht (not_le.mp hlt)
      omega
    · exact quiet (h.sound.counted.other fun y hy => by
        obtain rfl := Option.some.inj (hlast.symm.trans hy)
        exact hx)

/-- A position that may be told is told. -/
theorem InStep.tell (h : InStep bridge start w) {v : ℕ} (hv : v ∈ w.positions) :
    InStep bridge start (w.tell v) := by
  unfold World.tell
  split
  · next u hu =>
    refine h.of_sound h.sound (fun _ hr => hr) (fun p hp => ?_) h.handed
    rw [clientTells_lsnForClient hu] at hp
    rcases mem_positions.mp hp with hp | hp | hp
    · exact mem_positions.mpr (.inl hp)
    · rcases List.mem_append.mp hp with hp | hp
      · exact mem_positions.mpr (.inr (.inl hp))
      · obtain rfl := List.mem_singleton.mp hp
        exact hv
    · exact mem_positions.mpr (.inr (.inr hp))
  · exact h

theorem InStep.carry (h : InStep bridge start w) {lsn : ℕ}
    (reached : Reached bridge start w.feed w.acked lsn) :
    InStep bridge start { w with ackedLsn := some lsn } := by
  refine ⟨h.sound, fun v hv => ?_, h.handed⟩
  rcases mem_positions.mp hv with hv | hv | hv | hv
  · exact h.durable v (mem_positions.mpr (.inl hv))
  · exact h.durable v (mem_positions.mpr (.inr (.inl hv)))
  · obtain rfl := Option.some.inj hv
    exact reached
  · exact h.durable v (mem_positions.mpr (.inr (.inr (.inr hv))))

theorem InStep.report (h : InStep bridge start w) {lsn : ℕ}
    (reached : Reached bridge start w.feed w.acked lsn) : InStep bridge start (w.report lsn) := by
  unfold World.report
  split
  · split
    · exact h.carry reached
    · exact h
  · exact h.carry reached

theorem InStep.settle (h : InStep bridge start w) {c : PgCursor}
    (reached : Reached bridge start w.feed w.acked c.reach) : InStep bridge start (w.settle c) := by
  unfold World.settle
  split
  · refine ⟨h.sound, fun v hv => ?_, h.handed⟩
    rcases mem_positions.mp hv with hv | hv | hv | ⟨c', hc, rfl⟩
    · exact h.durable v (mem_positions.mpr (.inl hv))
    · exact h.durable v (mem_positions.mpr (.inr (.inl hv)))
    · exact h.durable v (mem_positions.mpr (.inr (.inr (.inl hv))))
    · obtain rfl := Option.some.inj hc
      exact reached
  · exact h

theorem InStep.confirm (h : InStep bridge start w) {c : PgCursor}
    (reached : Reached bridge start w.feed w.acked c.reach) : InStep bridge start (w.confirm c) := by
  unfold World.confirm
  split
  · exact h
  · next v hv =>
    split
    · exact h
    · split
      · refine (h.carry (reached.le (ack_le_reach hv))).tell ?_
        exact mem_positions.mpr (.inr (.inr (.inl rfl)))
      · exact h

theorem InStep.heartbeat (h : InStep bridge start w) {lsn : ℕ} (sent : w.Sent lsn)
    (shouldRespond : Bool) : InStep bridge start (w.heartbeat lsn shouldRespond) := by
  have h' : InStep bridge start (if w.idle = true then w.report lsn else w) := by
    split
    · next idle => exact h.report (h.reached_of_idle idle sent)
    · exact h
  unfold World.heartbeat
  simp only
  split
  · next v hv =>
    split
    · exact h'.tell (mem_positions.mpr (.inr (.inr (.inl hv))))
    · exact h'
  · exact h'

/-- **The pipeline acknowledges an item**, and everything handed over before it. -/
theorem InStep.ack (h : InStep bridge start w) {n : ℕ} {x : Handed V}
    (hx : w.items[n]? = some x) : InStep bridge start (w.ack n x.item.cursor) := by
  have hn : n + 1 ≤ w.items.length := (List.getElem?_eq_some_iff.mp hx).1
  have grown {m v : ℕ} (hle : m ≤ max w.acked (n + 1)) (hv : Reached bridge start w.feed m v) :
      Reached bridge start { w.feed with acked := max w.acked (n + 1) } (max w.acked (n + 1)) v :=
    hv.grow (l := []) rfl le_rfl (by simp) hle
  have reached := grown (le_max_right _ _) (h.sound.logged.items n x hx)
  have acked : InStep bridge start { w with acked := max w.acked (n + 1) } :=
    h.of_sound (h.sound.acks hn) (fun v hv => grown (le_max_left _ _) hv) (fun v hv => hv) h.handed
  refine (acked.settle reached).confirm ?_
  unfold World.settle
  split
  · exact reached
  · exact reached

/-! ## The invariant -/

omit [DecidableEq V] in
theorem idle_of_not_processing (h : w.processing = false) :
    ∀ x ∈ w.waiters, x.generation ≠ w.generation := by
  simpa [World.processing] using h

theorem InStep.row (h : InStep bridge start w) {t : Txn V} {k lsn : ℕ} {msg : RowMessage V}
    (idle : w.processing = false) (ht : w.wal[w.handled.txn]? = some t)
    (hk : w.handled.messages = k + 1) (hrow : t.rows[k]? = some (lsn, msg)) :
    InStep bridge start
      { w.handleRow lsn { txn := w.handled.txn, row := k } (bridge.decode msg) with
        handled := { w.handled with messages := k + 2 } } := by
  have idle := idle_of_not_processing idle
  rcases handleRow_cases w lsn { txn := w.handled.txn, row := k } (bridge.decode msg) with
    ⟨quiet, hw⟩ | ⟨item, done, rest, txn, hw, at_, isDone, restAt⟩
  · rw [hw]
    exact h.of_sound (h.sound.silent idle ht hk hrow quiet) (fun _ hr => hr) (fun _ hv => hv) h.handed
  · rw [hw]
    refine h.of_sound (h.sound.row idle ht hk hrow at_ isDone restAt) (fun v hr => ?_)
      (fun _ hv => hv) (by simp [World.hand])
    exact hr.grow rfl le_rfl rfl le_rfl

/-- **Every step keeps the invariant.** -/
theorem InStep.step (h : InStep bridge start w) {e : Event V} (move : Moves bridge w e w') :
    InStep bridge start w' := by
  cases move with
  | commits takes =>
    obtain ⟨hw, he, hr⟩ := takes
    refine h.of_sound (h.sound.commits hw he hr) (fun v hv => ?_) (fun _ hv => hv) h.handed
    exact hv.commits rfl hw (hw.trans he.le) rfl
  | walGrows grows =>
    refine h.of_sound (h.sound.walGrows grows) (fun v hv => ?_) (fun _ hv => hv) h.handed
    exact hv.grow (l := []) rfl grows (by simp [World.feed]) le_rfl
  | send => exact h.of_sound h.sound (fun _ hr => hr) (fun _ hv => hv) h.handed
  | begins idle ht hm =>
    exact h.of_sound (h.sound.begins (idle_of_not_processing idle) ht) (fun _ hr => hr)
      (fun _ hv => hv) h.handed
  | row idle ht hk hrow => exact h.row idle ht hk hrow
  | ends idle ht all =>
    refine h.of_sound (h.sound.ends (idle_of_not_processing idle) ht all) (fun v hr => ?_)
      (fun _ hv => hv) (by simp [World.hand])
    exact hr.grow rfl le_rfl rfl le_rfl
  | answered head last =>
    exact h.of_sound (h.sound.answered head last) (fun _ hr => hr) (fun _ hv => hv) h.handed
  | @goesOn x rest r head half =>
    obtain ⟨item, txn, hw, at_⟩ := handUpdate_eq { w with waiters := rest } x.generation r.lsn
      r.after true r.id
    rw [hw]
    refine h.of_sound (h.sound.goesOn head half at_) (fun v hr => ?_) (fun _ hv => hv)
      (by simp [World.hand])
    exact hr.grow rfl le_rfl rfl le_rfl
  | heartbeat sent => exact h.heartbeat sent _
  | ack hx => exact h.ack hx
  | hears told =>
    refine h.of_sound h.sound (fun _ hr => hr) (fun v hv => ?_) h.handed
    rcases mem_positions.mp hv with hv | hv
    · rcases max_choice w.confirmed _ with hmax | hmax
      · exact mem_positions.mpr (.inl (hv.trans hmax))
      · exact mem_positions.mpr (.inr (.inl ((hv.trans hmax) ▸ told)))
    · exact mem_positions.mpr (.inr hv)
  | reconnect =>
    exact h.of_sound (h.sound.reconnect (h.durable _ (mem_positions.mpr (.inl rfl))))
      (fun _ hr => hr) (fun _ hv => hv) h.handed

omit [DecidableEq V] in
theorem confirmedPosition_cases {slot saved : Option ℕ} {v : ℕ}
    (h : confirmedPosition slot saved = some v) : slot = some v ∨ saved = some v := by
  cases slot with
  | none => exact .inr h
  | some s =>
    cases saved with
    | none => exact .inl h
    | some c =>
      simp only [confirmedPosition] at h
      split at h
      · exact .inl h
      · exact .inr h

theorem InStep.opened (bridge : Bridge) (start : Start V) : InStep bridge start start.world := by
  have reached {n v : ℕ} (hv : v ≤ start.base) : Reached bridge start start.world.feed n v :=
    ⟨hv.trans (le_max_right _ _), fun i t _ hlt k row _ _ => .inl (hlt.trans_le hv)⟩
  have slot : start.slot ≤ start.base := le_max_left _ _
  have saved {c : PgCursor} (hc : start.fromCursor = some c) : c.reach ≤ start.base := by
    unfold Start.base
    rw [hc]
    exact le_max_right _ _
  have notSent : ∀ i t, start.wal[i]? = some t → i < firstSent start.wal start.slot → ∀ n,
      AllGiven bridge start [] n i t := fun i t ht hi n k row _ _ =>
    .inl ((commit_lt_of_lt_firstSent ht hi).trans_le slot)
  have nothing : ∀ n x, start.world.feed.items[n]? = some x →
      Reached bridge start start.world.feed (n + 1) x.item.cursor.reach := fun n x hx =>
    absurd hx (by simp [World.feed, Start.world])
  refine ⟨⟨⟨start.ordered, le_rfl, nothing⟩, ?_, ⟨nofun, nofun, .nil⟩, ?_⟩, fun v hv => ?_, rfl⟩
  · exact
    { first_le := le_rfl
      handled_le := firstSent_le _ _
      notSent := fun i t ht hi => notSent i t ht hi _
      passed := fun i t ht hi => notSent i t ht hi _
      inside := fun u k row _ _ hk => absurd hk (by simp [World.feed, Start.world])
      between := fun _ => rfl
      within := fun hm => absurd rfl hm
      halfway := fun x hx => by cases hx }
  · exact
    { generation_le := fun x hx => by cases hx
      late := nofun
      fresh := fun _ => ⟨rfl, fun u k row _ _ hk => absurd hk (by simp [World.feed, Start.world])⟩
      few := fun _ i t hf hi => absurd hi (not_lt.mpr hf)
      mine := fun x hx => by cases hx
      other := fun _ => Nat.zero_le _ }
  · rcases mem_positions.mp hv with rfl | hv | hv | ⟨c, hc, rfl⟩
    · exact reached slot
    · cases hv
    · rcases confirmedPosition_cases hv with hs | hs
      · simp only [Option.ite_none_right_eq_some, Option.some.injEq] at hs
        exact reached (hs.2 ▸ slot)
      · obtain ⟨c, hc, hack⟩ := Option.bind_eq_some_iff.mp hs
        exact reached ((ack_le_reach hack).trans (saved hc))
    · exact reached (saved hc)

end Confirming

/-! ## The position confirmed -/

/-- The pipeline has acknowledged the change as durable, in this opening of the stream or in one
before it. -/
def World.Acknowledged (start : Start V) (w : World V) (id : RowId) (t : Txn V) : Prop :=
  Given start w.items w.acked id t

/-- Neither the position confirmed to the server nor any it was told is past the commit of a
transaction that holds a change of the bridge which is not acknowledged. -/
def Safe (bridge : Bridge) (start : Start V) (w : World V) : Prop :=
  ∀ i t k row, w.wal[i]? = some t → t.rows[k]? = some row → bridge.captures row.2 = true →
    ¬ w.Acknowledged start { txn := i, row := k } t →
    w.confirmed ≤ t.commit ∧ ∀ v ∈ w.told, v ≤ t.commit

theorem InStep.safe {bridge : Bridge} {start : Start V} {w : World V}
    (h : InStep bridge start w) : Safe bridge start w := by
  intro i t k row ht hrow hc hopen
  have below {v : ℕ} (hv : v ∈ w.positions) : v ≤ t.commit := by
    by_contra hlt
    exact hopen ((h.durable v hv).2 i t ht (not_le.mp hlt) k row hrow hc)
  exact ⟨below (mem_positions.mpr (.inl rfl)),
    fun v hv => below (mem_positions.mpr (.inr (.inl hv)))⟩

/-- **The position confirmed to the server is safe**, in every state a run of the stream reaches. -/
theorem confirmedSafe_of_run {bridge : Bridge} {start : Start V} {events : List (Event V)} {w : World V}
    (run : Run (step bridge) anyStep start.world events w) : Safe bridge start w :=
  (run.invariant (InStep.opened bridge start) fun _ _ _ _ h move =>
    h.step (Moves.of_step move)).safe

/-! ### A row that moves, and a reconnect between its delete and its update -/

namespace MovedAcrossReconnect

def bridge : Bridge :=
  { schema := "public", table := "tasks", operations := [.insert, .update, .delete]
    identifying := ["id"] }

def row (id : ℕ) : Tuple ℕ := fun c => if c = "id" then some (some id) else none

def moved : Txn ℕ :=
  { commit := 20, end_ := 22
    rows := [(15, .update { schema := "public", name := "tasks", keyColumns := ["id"] }
      (some (row 1)) none (row 2))] }

def start : Start ℕ :=
  { wal := [], walEnd := 10, ordered := ⟨.nil, nofun⟩, slot := 10, slotRead := true
    fromCursor := none }

/-- The first connection hands over the delete; its handler goes on when the second has begun. -/
def events : List (Event ℕ) :=
  [.commits moved, .walGrows 30, .send, .send, .data, .data, .reconnect, .send, .send, .send,
    .data, .resolve, .data, .resolve, .resolve, .resolve, .data, .heartbeat 30 true, .hears 10,
    .resolve, .ack 4, .heartbeat 30 false, .hears 30,
    .commits { moved with commit := 40, end_ := 42 }]

theorem confirmed_safe : ∃ w, runEvents (step bridge) start.world events = some w ∧
    w.told = [10, 22, 30] ∧ w.confirmed = 30 ∧ w.items.length = 5 ∧ Safe bridge start w := by
  have run : Run (step bridge) anyStep start.world events _ := run_of_eval rfl
  exact ⟨_, rfl, rfl, rfl, rfl, confirmedSafe_of_run run⟩

end MovedAcrossReconnect

end Syncle.Postgres.OwnSlot
