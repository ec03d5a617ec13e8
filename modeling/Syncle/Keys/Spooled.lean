import Syncle.Keys.Direct

/-!
# The keys of a live stream with the spool on

The consumer takes runs off the spool's head and names a run by the cursor of its last change
(`deliverSpooled`). A run is trimmed when it has been delivered or set aside, and the sequence is stored
after: a run that is not trimmed is at the spool's head when the consumer starts again, and may be cut
with others.

What the reader appends, and where a run is cut (`deliverableRuns`, the window that was read), is left
open; `Syncle.Spool` has them.
-/

namespace Syncle.Keys

open Lib

inductive SpoolEntry (γ R : Type*) where
  | change (item : Item γ R)
  | notice (cursor : γ)
  deriving DecidableEq

namespace SpoolEntry

variable {γ R : Type*}

def cursor : SpoolEntry γ R → γ
  | change item => item.cursor
  | notice cursor => cursor

def item? : SpoolEntry γ R → Option (Item γ R)
  | change item => some item
  | notice _ => none

end SpoolEntry

/-- A run that is being delivered. -/
structure SpoolRun (γ R : Type*) where
  items : List (Item γ R)
  seq : Nat
  trimmed : Bool := false
  deriving DecidableEq

/-- `unrecorded` and `appended` are history, which no code reads: the run that was sent from the head the
spool has, and the last cursor that was appended. -/
structure Spooling (γ R : Type*) where
  cursorOffset : Nat := 0
  spool : List (SpoolEntry γ R) := []
  deliveries : Nat → Option (LiveDelivery γ R) := fun _ => none
  /-- `stream.seq` -/
  stream : Option Nat := none
  run : Option (SpoolRun γ R) := none
  sent : List (Request γ (Item γ R)) := []
  unrecorded : Option (List (Item γ R)) := none
  appended : Option γ := none

inductive SpoolEvent (γ R : Type*) where
  | start
  /-- what of a batch lands in the spool -/
  | append (entries : List (SpoolEntry γ R))
  /-- the first entries are sent as one run -/
  | begin (n : Nat)
  | record (failed : Bool)
  | trim
  | save
  /-- a notice at the head is recorded and trimmed, and the sequence is stored -/
  | notice
  /-- a crash, a stop, a halt -/
  | leave
  /-- `resendDelivery` -/
  | resend (sequence : Nat) (ok : Bool)
  deriving DecidableEq

/-- `deliverSpooled`'s request. -/
def runRequest? {γ R : Type*} (items : List (Item γ R)) : Option (Request γ (Item γ R)) :=
  items.getLast?.map fun last => { key := .own last.cursor, rows := items }

namespace Spooling

variable {γ R : Type*} (w : Spooling γ R)

def resend (sequence : Nat) (d : LiveDelivery γ R) (ok : Bool) : Spooling γ R :=
  { w with
    deliveries := Function.update w.deliveries sequence (some { d with failed := !ok })
    sent := w.sent ++ [{ key := .sequence sequence, rows := d.items, resent := true }] }

/-- The first entries, if they are changes. -/
def head (n : Nat) : Option (List (Item γ R)) :=
  let items := (w.spool.take n).filterMap SpoolEntry.item?
  if 0 < n ∧ items.length = n then some items else none

def beginRun (seq : Nat) (items : List (Item γ R)) : Spooling γ R :=
  { w with
    run := some { items := items, seq := seq }
    sent := w.sent ++ (runRequest? items).toList
    unrecorded := some items }

def step : SpoolEvent γ R → Option (Spooling γ R)
  | .start =>
    if w.stream.isNone then some { w with stream := some w.cursorOffset } else none
  | .append entries =>
    if w.stream.isSome then
      some { w with
        spool := w.spool ++ entries
        appended := (entries.getLast?.map SpoolEntry.cursor) <|> w.appended }
    else none
  | .begin n =>
    match w.stream, w.run with
    | some seq, none => (w.head n).map (w.beginRun seq)
    | _, _ => none
  | .record failed =>
    match w.run with
    | some r =>
      let delivery : LiveDelivery γ R := { items := r.items, failed := failed }
      some { w with deliveries := Function.update w.deliveries r.seq (some delivery) }
    | none => none
  | .trim =>
    match w.run with
    | some r =>
      if r.trimmed then none
      else
        let r := { r with trimmed := true }
        some { w with spool := w.spool.drop r.items.length, run := some r, unrecorded := none }
    | none => none
  | .save =>
    match w.run with
    | some r =>
      if r.trimmed then
        some { w with cursorOffset := r.seq + 1, stream := some (r.seq + 1), run := none }
      else none
    | none => none
  | .notice =>
    match w.stream, w.run, w.spool with
    | some seq, none, .notice _ :: rest =>
      some { w with spool := rest, cursorOffset := seq + 1, stream := some (seq + 1) }
    | _, _, _ => none
  | .leave => some { w with stream := none, run := none }
  | .resend sequence ok =>
    match w.stream, w.deliveries sequence with
    | none, some d => if d.failed then some (w.resend sequence d ok) else none
    | _, _ => none

variable [LinearOrder γ]

/-- A step that keeps the runs apart. A change is appended once, in order; a run that was sent and not
trimmed is cut again after as many entries; and none is left between its trim and its sequence. -/
def keepsRuns (w : Spooling γ R) : SpoolEvent γ R → Prop
  | .append entries => entries.Pairwise (fun e e' => e.cursor < e'.cursor) ∧
      ∀ e ∈ entries, Beyond w.appended e.cursor
  | .begin n => ∀ items, w.unrecorded = some items → n = items.length
  | .leave => ∀ r, w.run = some r → r.trimmed = false
  | _ => True

instance [DecidableEq R] (w : Spooling γ R) (e : SpoolEvent γ R) : Decidable (w.keepsRuns e) :=
  match e with
  | .append entries => inferInstanceAs (Decidable (entries.Pairwise (fun e e' => e.cursor < e'.cursor) ∧
      ∀ e ∈ entries, Beyond w.appended e.cursor))
  | .begin n => decidableSome w.unrecorded fun items => n = items.length
  | .leave => decidableSome w.run fun r => r.trimmed = false
  | .start | .record _ | .trim | .save | .notice | .resend _ _ => isTrue trivial

/-! ## The invariant -/

/-- The run has left the spool, and nothing of it is appended again. -/
def Gone (w : Spooling γ R) (items : List (Item γ R)) : Prop :=
  ∀ i ∈ items, (∀ e ∈ w.spool, i.cursor < e.cursor) ∧ ∃ m, w.appended = some m ∧ i.cursor ≤ m

/-- The rows a number that is not consumed stands for. -/
def Current (w : Spooling γ R) (items : List (Item γ R)) : Prop :=
  w.unrecorded = some items ∨ ∃ r, w.run = some r ∧ r.trimmed = true ∧ r.items = items

structure Inv (w : Spooling γ R) : Prop where
  one : OnePayload w.sent
  ordered : w.spool.Pairwise fun e e' => e.cursor < e'.cursor
  appended : ∀ e ∈ w.spool, ∃ m, w.appended = some m ∧ e.cursor ≤ m
  stream : ∀ seq, w.stream = some seq → seq = w.cursorOffset
  unrecorded : ∀ items, w.unrecorded = some items →
    items ≠ [] ∧ ∃ rest, w.spool = items.map .change ++ rest
  run : ∀ r, w.run = some r → r.seq = w.cursorOffset ∧
    (r.trimmed = false → w.unrecorded = some r.items) ∧ (r.trimmed = true → w.unrecorded = none)
  deliveries : ∀ q d, w.deliveries q = some d →
    q < w.cursorOffset ∨ (q = w.cursorOffset ∧ Current w d.items)
  sent : ∀ r ∈ w.sent,
    (∃ items, runRequest? items = some r ∧ (w.unrecorded = some items ∨ Gone w items)) ∨
    ∃ q d, w.deliveries q = some d ∧ r = { key := .sequence q, rows := d.items, resent := true }

section Steps

variable {w w' : Spooling γ R}

omit [LinearOrder γ] in
theorem runRequest?_eq_some {items : List (Item γ R)} {r : Request γ (Item γ R)}
    (is : runRequest? items = some r) :
    ∃ last ∈ items, r = { key := .own last.cursor, rows := items } := by
  obtain ⟨last, at_, rfl⟩ := Option.map_eq_some_iff.mp is
  exact ⟨last, List.mem_of_getLast? at_, rfl⟩

omit [LinearOrder γ] in
/-- What `head` takes is what the spool starts with. -/
theorem head_eq_some {n : Nat} {items : List (Item γ R)} (is : w.head n = some items) :
    items ≠ [] ∧ ∃ rest, w.spool = items.map .change ++ rest := by
  have changes : ∀ entries : List (SpoolEntry γ R),
      (entries.filterMap SpoolEntry.item?).length = entries.length →
      entries = (entries.filterMap SpoolEntry.item?).map .change := by
    intro entries
    induction entries with
    | nil => intro _; rfl
    | cons e rest ih =>
      intro all
      cases e with
      | change item =>
        have cons : (SpoolEntry.change item :: rest).filterMap SpoolEntry.item? =
          item :: rest.filterMap SpoolEntry.item? := rfl
        rw [cons] at all ⊢
        rw [List.map_cons, ← ih (Nat.succ.inj all)]
      | notice cursor =>
        -- a notice is one entry that is no change
        have cons : (SpoolEntry.notice cursor :: rest).filterMap SpoolEntry.item? =
          rest.filterMap SpoolEntry.item? := rfl
        have le := List.length_filterMap_le SpoolEntry.item? rest
        rw [cons, List.length_cons] at all
        omega
  simp only [Spooling.head] at is
  split at is
  · next all =>
    obtain rfl := Option.some.inj is
    have le := List.length_filterMap_le SpoolEntry.item? (w.spool.take n)
    have whole : (w.spool.take n).length = n := by
      have taken := List.length_take_le n w.spool
      omega
    refine ⟨fun empty => ?_, w.spool.drop n, ?_⟩
    · rw [empty, List.length_nil] at all
      omega
    · rw [← changes _ (all.2.trans whole.symm), List.take_append_drop]
  · cases is

omit [LinearOrder γ] in
/-- A run that the spool starts with is what as many entries of it are. -/
theorem head_length {items : List (Item γ R)} {rest : List (SpoolEntry γ R)} (rows : items ≠ [])
    (spool : w.spool = items.map .change ++ rest) : w.head items.length = some items := by
  have all : (items.map SpoolEntry.change).filterMap SpoolEntry.item? = items := by
    rw [List.filterMap_map]
    exact List.filterMap_some
  have taken : w.spool.take items.length = items.map .change := by
    rw [spool, List.take_append_of_le_length (by rw [List.length_map]),
      List.take_of_length_le (by rw [List.length_map])]
  simp only [Spooling.head, taken, all]
  exact if_pos ⟨List.length_pos_iff.mpr rows, trivial⟩

omit [LinearOrder γ] in
theorem Current.unique {w : Spooling γ R} {a b : List (Item γ R)}
    (run : ∀ r, w.run = some r → r.trimmed = true → w.unrecorded = none) (ha : Current w a)
    (hb : Current w b) : a = b := by
  rcases ha with ha | ⟨r, ra, ta, rfl⟩ <;> rcases hb with hb | ⟨r', rb, tb, rfl⟩
  · exact Option.some.inj (ha.symm.trans hb)
  · exact nomatch (run r' rb tb).symm.trans ha
  · exact nomatch (run r ra ta).symm.trans hb
  · rw [Option.some.inj (ra.symm.trans rb)]

/-- A run of later changes has neither its key nor a row in common with one that is gone. -/
theorem Gone.agrees {items items' : List (Item γ R)} {r r' : Request γ (Item γ R)}
    (is : runRequest? items = some r) (is' : runRequest? items' = some r')
    (there : ∀ i ∈ items, SpoolEntry.change i ∈ w.spool) (gone : Gone w items') : r.Agrees r' := by
  obtain ⟨last, mem, rfl⟩ := runRequest?_eq_some is
  obtain ⟨last', mem', rfl⟩ := runRequest?_eq_some is'
  refine .of_apart (fun same => ?_) fun _ _ i here here' => ?_
  · have later := (gone last' mem').1 _ (there last mem)
    exact absurd (Key.own.inj same).symm (ne_of_lt later)
  · exact absurd ((gone i here').1 _ (there i here)) (lt_irrefl _)

theorem Inv.append (inv : w.Inv) {entries : List (SpoolEntry γ R)}
    (sorted : entries.Pairwise fun e e' => e.cursor < e'.cursor)
    (beyond : ∀ e ∈ entries, Beyond w.appended e.cursor) :
    ({ w with
      spool := w.spool ++ entries
      appended := (entries.getLast?.map SpoolEntry.cursor) <|> w.appended } : Spooling γ R).Inv := by
  -- the last cursor there has been does not go back
  have mark {c : γ} (old : ∃ m, w.appended = some m ∧ c ≤ m) :
      ∃ m, ((entries.getLast?.map SpoolEntry.cursor) <|> w.appended) = some m ∧ c ≤ m := by
    obtain ⟨m, at_, le⟩ := old
    cases is : entries.getLast? with
    | none => exact ⟨m, at_, le⟩
    | some last =>
      exact ⟨last.cursor, rfl, le_trans le (le_of_lt (beyond last (List.mem_of_getLast? is) m at_))⟩
  refine ⟨inv.one, ?_, fun e mem => ?_, inv.stream, fun items is => ?_, inv.run, inv.deliveries,
    fun r mem => ?_⟩
  · refine List.pairwise_append.mpr ⟨inv.ordered, sorted, fun e mem e' mem' => ?_⟩
    obtain ⟨m, at_, le⟩ := inv.appended e mem
    exact lt_of_le_of_lt le (beyond e' mem' m at_)
  · rcases List.mem_append.mp mem with old | new
    · exact mark (inv.appended e old)
    · rcases List.eq_nil_or_concat entries with rfl | ⟨front, last, rfl⟩
      · cases new
      · refine ⟨last.cursor, by simp, ?_⟩
        rcases List.mem_append.mp (List.concat_eq_append ▸ new) with before | same
        · have ordered := List.pairwise_append.mp (List.concat_eq_append ▸ sorted)
          exact le_of_lt (ordered.2.2 e before last List.mem_cons_self)
        · rw [List.mem_singleton.mp same]
  · obtain ⟨rows, rest, spool⟩ := inv.unrecorded items is
    exact ⟨rows, rest ++ entries, by simp only [spool, List.append_assoc]⟩
  · rcases inv.sent r mem with ⟨items, is, kept | gone⟩ | resent
    · exact Or.inl ⟨items, is, Or.inl kept⟩
    · refine Or.inl ⟨items, is, Or.inr fun i mem => ⟨fun e there => ?_, mark (gone i mem).2⟩⟩
      rcases List.mem_append.mp there with old | new
      · exact (gone i mem).1 e old
      · obtain ⟨m, at_, le⟩ := (gone i mem).2
        exact lt_of_le_of_lt le (beyond e new m at_)
    · exact Or.inr resent

theorem Inv.begin (inv : w.Inv) {seq n : Nat} {items : List (Item γ R)} (at_ : w.stream = some seq)
    (free : w.run = none) (head : w.head n = some items)
    (again : ∀ old, w.unrecorded = some old → n = old.length) : (w.beginRun seq items).Inv := by
  obtain ⟨rows, rest, spool⟩ := head_eq_some head
  have there : ∀ i ∈ items, SpoolEntry.change i ∈ w.spool := by
    intro i mem
    rw [spool]
    exact List.mem_append_left _ (List.mem_map_of_mem mem)
  have same {old : List (Item γ R)} (was : w.unrecorded = some old) : old = items := by
    obtain ⟨rows, rest, spool⟩ := inv.unrecorded old was
    rw [again old was, head_length rows spool] at head
    exact Option.some.inj head
  obtain ⟨r, is⟩ : ∃ r, runRequest? items = some r := by
    cases last : items.getLast? with
    | none => exact absurd (List.getLast?_eq_none_iff.mp last) rows
    | some last' => exact ⟨_, by rw [runRequest?, last]; rfl⟩
  have sent : (w.beginRun seq items).sent = w.sent ++ [r] := by
    rw [Spooling.beginRun, is]
    rfl
  refine ⟨?_, inv.ordered, inv.appended, inv.stream, fun old was => ?_, fun run was => ?_,
    fun q d was => ?_, fun r' mem => ?_⟩
  · rw [sent]
    refine inv.one.snoc fun r' mem => ?_
    rcases inv.sent r' mem with ⟨old, is', was | gone⟩ | ⟨q, d, -, rfl⟩
    · obtain rfl := same was
      obtain rfl := Option.some.inj (is.symm.trans is')
      exact .refl _
    · exact gone.agrees is is' there
    · obtain ⟨last, -, rfl⟩ := runRequest?_eq_some is
      exact .of_apart nofun fun _ resent => nomatch resent
  · obtain rfl := Option.some.inj was
    exact ⟨rows, rest, spool⟩
  · obtain rfl := Option.some.inj was
    exact ⟨inv.stream seq at_, fun _ => rfl, nofun⟩
  · rcases inv.deliveries q d was with older | ⟨here, current | ⟨r', run, -⟩⟩
    · exact Or.inl older
    · exact Or.inr ⟨here, Or.inl (congrArg some (same current).symm)⟩
    · exact nomatch free.symm.trans run
  · rw [sent] at mem
    rcases List.mem_append.mp mem with old | new
    · rcases inv.sent r' old with ⟨items', is', was | gone⟩ | resent
      · exact Or.inl ⟨items', is', Or.inl (congrArg some (same was).symm)⟩
      · exact Or.inl ⟨items', is', Or.inr gone⟩
      · exact Or.inr resent
    · obtain rfl := List.mem_singleton.mp new
      exact Or.inl ⟨items, is, Or.inl rfl⟩

theorem Inv.record (inv : w.Inv) {r : SpoolRun γ R} (at_ : w.run = some r)
    {delivery : LiveDelivery γ R} (holds : delivery.items = r.items) :
    ({ w with deliveries := Function.update w.deliveries r.seq (some delivery) } : Spooling γ R).Inv := by
  obtain ⟨seq, kept, gone⟩ := inv.run r at_
  have current : Current w r.items := by
    cases trimmed : r.trimmed with
    | false => exact Or.inl (kept trimmed)
    | true => exact Or.inr ⟨r, at_, trimmed, rfl⟩
  refine ⟨inv.one, inv.ordered, inv.appended, inv.stream, inv.unrecorded, inv.run, fun q d is => ?_,
    fun r' mem => ?_⟩
  · simp only [Function.update_apply] at is
    split at is
    · next here =>
      obtain rfl := Option.some.inj is
      exact Or.inr ⟨here.trans seq, holds ▸ current⟩
    · exact inv.deliveries q d is
  · rcases inv.sent r' mem with own | ⟨q, d, is, rfl⟩
    · exact Or.inl own
    · refine Or.inr ?_
      by_cases here : q = r.seq
      · -- what the number stood for is the run that is being delivered
        have items : d.items = delivery.items := by
          rcases inv.deliveries q d is with older | ⟨-, was⟩
          · exact absurd (here.trans seq) (Nat.ne_of_lt older)
          · exact (Current.unique (fun r' run => (inv.run r' run).2.2) was current).trans holds.symm
        exact ⟨q, delivery, by simp only [here, Function.update_self], by rw [items]⟩
      · exact ⟨q, d, by simp only [Function.update_of_ne here]; exact is, rfl⟩

theorem Inv.trim (inv : w.Inv) {r : SpoolRun γ R} (at_ : w.run = some r) (untrimmed : r.trimmed = false) :
    ({ w with
      spool := w.spool.drop r.items.length
      run := some { r with trimmed := true }
      unrecorded := none } : Spooling γ R).Inv := by
  obtain ⟨seq, kept, -⟩ := inv.run r at_
  have unrecorded := kept untrimmed
  obtain ⟨rows, rest, spool⟩ := inv.unrecorded r.items unrecorded
  have left : w.spool.drop r.items.length = rest := by
    rw [spool, List.drop_left' (List.length_map ..)]
  have ordered := List.pairwise_append.mp (spool ▸ inv.ordered)
  have there {e : SpoolEntry γ R} (mem : e ∈ w.spool.drop r.items.length) : e ∈ w.spool :=
    List.mem_of_mem_drop mem
  refine ⟨inv.one, left ▸ ordered.2.1, fun e mem => inv.appended e (there mem), inv.stream, nofun,
    fun r' is => ?_, fun q d is => ?_, fun r' mem => ?_⟩
  · obtain rfl := Option.some.inj is
    exact ⟨seq, nofun, fun _ => rfl⟩
  · rcases inv.deliveries q d is with older | ⟨here, was | ⟨r', run, trimmed, -⟩⟩
    · exact Or.inl older
    · exact Or.inr ⟨here, Or.inr ⟨_, rfl, rfl, Option.some.inj (unrecorded.symm.trans was)⟩⟩
    · obtain rfl := Option.some.inj (at_.symm.trans run)
      exact nomatch untrimmed.symm.trans trimmed
  · rcases inv.sent r' mem with ⟨items, is, was | gone⟩ | resent
    · obtain rfl := Option.some.inj (unrecorded.symm.trans was)
      refine Or.inl ⟨_, is, Or.inr fun i mem => ⟨fun e later => ?_, ?_⟩⟩
      · exact ordered.2.2 _ (List.mem_map_of_mem mem) e (left ▸ later)
      · refine inv.appended (.change i) ?_
        rw [spool]
        exact List.mem_append_left _ (List.mem_map_of_mem mem)
    · exact Or.inl ⟨items, is, Or.inr fun i mem =>
        ⟨fun e later => (gone i mem).1 e (there later), (gone i mem).2⟩⟩
    · exact Or.inr resent

theorem Inv.save (inv : w.Inv) {r : SpoolRun γ R} (at_ : w.run = some r) (trimmed : r.trimmed = true) :
    ({ w with cursorOffset := r.seq + 1, stream := some (r.seq + 1), run := none } :
      Spooling γ R).Inv := by
  obtain ⟨seq, -, gone⟩ := inv.run r at_
  have none := gone trimmed
  refine ⟨inv.one, inv.ordered, inv.appended, fun seq is => (Option.some.inj is).symm, inv.unrecorded,
    nofun, fun q d is => Or.inl ?_, inv.sent⟩
  rcases inv.deliveries q d is with older | ⟨here, -⟩
  · exact Nat.lt_succ_of_lt (seq ▸ older)
  · rw [here, seq]
    exact Nat.lt_succ_self _

theorem Inv.notice (inv : w.Inv) {seq : Nat} {cursor : γ} {rest : List (SpoolEntry γ R)}
    (at_ : w.stream = some seq) (free : w.run = none) (spool : w.spool = .notice cursor :: rest) :
    ({ w with spool := rest, cursorOffset := seq + 1, stream := some (seq + 1) } : Spooling γ R).Inv := by
  -- a run that was sent from here starts with a change
  have none (items : List (Item γ R)) : w.unrecorded ≠ some items := by
    intro is
    obtain ⟨rows, rest', same⟩ := inv.unrecorded items is
    cases items with
    | nil => exact rows rfl
    | cons i items => exact nomatch spool.symm.trans same
  have seq_eq := inv.stream seq at_
  have there {e : SpoolEntry γ R} (mem : e ∈ rest) : e ∈ w.spool := spool ▸ List.mem_cons_of_mem _ mem
  refine ⟨inv.one, (List.pairwise_cons.mp (spool ▸ inv.ordered)).2,
    fun e mem => inv.appended e (there mem), fun seq is => (Option.some.inj is).symm,
    fun items is => absurd is (none items), fun r is => absurd (free.symm.trans is) nofun,
    fun q d is => Or.inl ?_, fun r mem => ?_⟩
  · rcases inv.deliveries q d is with older | ⟨here, -⟩
    · exact Nat.lt_succ_of_lt (seq_eq ▸ older)
    · rw [here, seq_eq]
      exact Nat.lt_succ_self _
  · rcases inv.sent r mem with ⟨items, is, was | gone⟩ | resent
    · exact absurd was (none items)
    · exact Or.inl ⟨items, is, Or.inr fun i mem =>
        ⟨fun e later => (gone i mem).1 e (there later), (gone i mem).2⟩⟩
    · exact Or.inr resent

theorem Inv.resend (inv : w.Inv) {q : Nat} {d : LiveDelivery γ R} (is : w.deliveries q = some d)
    (ok : Bool) : (w.resend q d ok).Inv := by
  have there {q' : Nat} {d' : LiveDelivery γ R} (was : w.deliveries q' = some d') :
      ∃ d'', (w.resend q d ok).deliveries q' = some d'' ∧ d''.items = d'.items := by
    simp only [Spooling.resend, Function.update_apply]
    split
    · next same =>
      obtain rfl := Option.some.inj (is.symm.trans (same ▸ was))
      exact ⟨_, rfl, rfl⟩
    · exact ⟨d', was, rfl⟩
  refine ⟨inv.one.snoc fun r mem => ?_, inv.ordered, inv.appended, inv.stream, inv.unrecorded, inv.run,
    fun q' d' was => ?_, fun r mem => ?_⟩
  · rcases inv.sent r mem with ⟨items, is', -⟩ | ⟨q', d', was, rfl⟩
    · obtain ⟨last, -, rfl⟩ := runRequest?_eq_some is'
      exact .of_apart nofun fun resent => nomatch resent
    · refine ⟨fun same => ?_, fun resent => nomatch resent⟩
      obtain rfl := Key.sequence.inj same
      obtain rfl := Option.some.inj (is.symm.trans was)
      rfl
  · simp only [Spooling.resend, Function.update_apply] at was
    split at was
    · next same =>
      obtain rfl := Option.some.inj was
      exact same ▸ inv.deliveries q d is
    · exact inv.deliveries q' d' was
  · rcases List.mem_append.mp mem with old | new
    · rcases inv.sent r old with own | ⟨q', d', was, rfl⟩
      · exact Or.inl own
      · obtain ⟨d'', is', items⟩ := there was
        exact Or.inr ⟨q', d'', is', by rw [items]⟩
    · obtain rfl := List.mem_singleton.mp new
      obtain ⟨d'', is', items⟩ := there is
      exact Or.inr ⟨q, d'', is', by rw [items]⟩

theorem Inv.step (inv : w.Inv) {e : SpoolEvent γ R} (keeps : w.keepsRuns e)
    (move : w.step e = some w') : w'.Inv := by
  cases e with
  | start =>
    simp only [Spooling.step] at move
    split at move
    · obtain rfl := Option.some.inj move
      exact ⟨inv.one, inv.ordered, inv.appended, fun seq is => (Option.some.inj is).symm,
        inv.unrecorded, inv.run, inv.deliveries, inv.sent⟩
    · cases move
  | append entries =>
    simp only [Spooling.step] at move
    split at move
    · obtain rfl := Option.some.inj move
      exact inv.append keeps.1 keeps.2
    · cases move
  | begin n =>
    simp only [Spooling.step] at move
    split at move
    · next seq at_ free =>
      obtain ⟨items, head, rfl⟩ := Option.map_eq_some_iff.mp move
      exact inv.begin at_ free head keeps
    · cases move
  | record failed =>
    simp only [Spooling.step] at move
    split at move
    · next r at_ =>
      obtain rfl := Option.some.inj move
      exact inv.record at_ rfl
    · cases move
  | trim =>
    simp only [Spooling.step] at move
    split at move
    · next r at_ =>
      split at move
      · cases move
      · next untrimmed =>
        obtain rfl := Option.some.inj move
        exact inv.trim at_ (Bool.eq_false_iff.mpr untrimmed)
    · cases move
  | save =>
    simp only [Spooling.step] at move
    split at move
    · next r at_ =>
      split at move
      · next trimmed =>
        obtain rfl := Option.some.inj move
        exact inv.save at_ trimmed
      · cases move
    · cases move
  | notice =>
    simp only [Spooling.step] at move
    split at move
    · next seq cursor rest at_ free spool =>
      obtain rfl := Option.some.inj move
      exact inv.notice at_ free spool
    · cases move
  | leave =>
    obtain rfl := Option.some.inj move
    refine ⟨inv.one, inv.ordered, inv.appended, nofun, inv.unrecorded, nofun, fun q d is => ?_, inv.sent⟩
    rcases inv.deliveries q d is with older | ⟨here, was | ⟨r, run, trimmed, -⟩⟩
    · exact Or.inl older
    · exact Or.inr ⟨here, Or.inl was⟩
    · exact nomatch (keeps r run).symm.trans trimmed
  | resend q ok =>
    simp only [Spooling.step] at move
    split at move
    · next d idle is =>
      split at move
      · obtain rfl := Option.some.inj move
        exact inv.resend is ok
      · cases move
    · cases move

/-- **While a change is appended once, a run that was not trimmed is cut again as it was, and none is left
between its trim and its sequence, a key of a spooled stream names one run.** -/
theorem spooled_onePayload {es : List (SpoolEvent γ R)}
    (run : Run Spooling.step Spooling.keepsRuns {} es w) : OnePayload w.sent := by
  have start : ({} : Spooling γ R).Inv :=
    ⟨.nil, .nil, nofun, nofun, nofun, nofun, nofun, nofun⟩
  exact Inv.one (run.invariant start fun _ _ _ keeps inv move => inv.step keeps move)

end Steps

end Spooling

end Syncle.Keys
