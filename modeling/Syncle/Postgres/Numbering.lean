import Syncle.Lib.Ordinal
import Syncle.Postgres.OwnSlot

/-!
# The numbering of a transaction's changes

What a cursor of a change should be: the commit of its transaction, the position it was written at,
and its ordinal among the positions that the transaction's messages have taken there before. How
many a message takes is decided by the message alone (`reservesOldRow`: "never by who is reading, so
that a cursor means the same thing to every member of a shared slot"). That numbering is of the
transaction, and increases in the order of its messages, where these are sent in the order they were
written in.
-/

namespace Syncle.Postgres

open Lib Cdc OwnSlot

variable {V : Type*}

/-- The positions that the messages of a transaction take, in the order they are taken. -/
def positions (slots : RowMessage V → ℕ) (rows : List (ℕ × RowMessage V)) : List ℕ :=
  rows.flatMap fun row => List.replicate (slots row.2) row.1

/-- A transaction's changes are sent in the order they were written in. -/
def OwnSlot.Txn.InOrder (t : Txn V) : Prop := t.rows.Pairwise fun a b => a.1 ≤ b.1

/-- The change at the last position a message takes, or, of an update that moves its row, the old
row's leaving at the first. -/
structure ChangeId where
  row : ℕ
  old : Bool
  deriving DecidableEq

/-- In the order of the messages, the old row first. -/
def ChangeId.Before (a b : ChangeId) : Prop :=
  a.row < b.row ∨ a.row = b.row ∧ a.old = true ∧ b.old = false

/-- The positions that are taken before a change's. -/
def takenBefore (slots : RowMessage V → ℕ) (t : Txn V) (row : ℕ) (old : Bool) : List ℕ :=
  positions slots (t.rows.take row) ++
    match t.rows[row]? with
    | some (lsn, msg) => if old then [] else List.replicate (slots msg - 1) lsn
    | none => []

/-- **The cursor of a change.** -/
def numbered (slots : RowMessage V → ℕ) (t : Txn V) (id : ChangeId) : Option PgCursor :=
  (t.rows[id.row]?).map fun row =>
    .change t.commit row.1 ((takenBefore slots t id.row id.old).count row.1)

def Decoded.slots {R : Type*} : Decoded R → ℕ
  | .nothing => 0
  | .skip | .notice | .hand _ _ => 1
  | .reserve _ | .move _ _ => 2

section Messages

variable [DecidableEq V]

/-- How many positions a message takes, by what it says. -/
def RowMessage.slots : RowMessage V → ℕ
  | .other => 0
  | .update r key old new => if reservesOldRow key old new r.keyColumns then 2 else 1
  | .truncate _ | .insert _ _ | .delete _ _ _ => 1

/-- How many the decoder of a bridge's own stream takes for it. -/
def Bridge.slots (bridge : Bridge) (msg : RowMessage V) : ℕ := (bridge.decode msg).slots

/-- Before a change of the bridge, and at its position, its own stream takes as many positions for
each message as the message says. -/
def Bridge.CountsAlike (bridge : Bridge) (t : Txn V) : Prop :=
  ∀ j k : ℕ, j < k → ∀ lsn msg msg', t.rows[j]? = some (lsn, msg) → t.rows[k]? = some (lsn, msg') →
    bridge.captures msg' = true → bridge.slots msg = msg.slots

variable {bridge : Bridge} {msg : RowMessage V}

/-- The old row's leaving is one of the two positions of an update. -/
theorem slots_of_two {r : Relation} {key old : Option (Tuple V)} {new : Tuple V}
    (h : reservesOldRow key old new r.keyColumns = true) :
    (RowMessage.update r key old new).slots = 2 := if_pos h

/-- **Of a change of its own the bridge's stream takes what the message says.** -/
theorem slots_of_captures (h : bridge.captures msg = true) : bridge.slots msg = msg.slots := by
  cases msg with
  | other => simp [Bridge.captures, Bridge.decode, Decoded.isChange] at h
  | truncate relations =>
    simp only [Bridge.slots, Bridge.decode, RowMessage.slots]
    split
    · split <;> rfl
    · rfl
  | insert r new =>
    simp only [Bridge.slots, Bridge.decode, RowMessage.slots]
    split <;> rfl
  | delete r key old =>
    simp only [Bridge.slots, Bridge.decode, RowMessage.slots]
    split <;> rfl
  | update r key old new =>
    simp only [Bridge.captures, Bridge.decode] at h
    split at h
    · next ours =>
      simp only [Bridge.slots, Bridge.decode, if_pos ours, Bridge.decodeUpdate, RowMessage.slots]
      cases before : key <|> old with
      | none => simp [reservesOldRow, before, Decoded.slots]
      | some image =>
        by_cases reserves : reservesOldRow key old new r.keyColumns = true
        · simp only [reserves, if_true]
          split
          · rfl
          · rfl
        · simp [reserves, Decoded.slots]
    · simp [Decoded.isChange] at h

end Messages

/-! ## The order of cursors -/

theorem lsnAfter_iff {a b : PgCursor} : lsnAfter a (some b) = true ↔
    (parsePgCursor b).commit < (parsePgCursor a).commit ∨
      (parsePgCursor b).commit = (parsePgCursor a).commit ∧
        ((parsePgCursor b).change < (parsePgCursor a).change ∨
          (parsePgCursor b).change = (parsePgCursor a).change ∧
            (parsePgCursor b).ordinal < (parsePgCursor a).ordinal) := by
  simp only [lsnAfter]
  by_cases commit : (parsePgCursor a).commit = (parsePgCursor b).commit
  · by_cases change : (parsePgCursor a).change = (parsePgCursor b).change
    · simp [commit, change]
    · simp [commit, change, Ne.symm change]
  · simp [commit, Ne.symm commit]

theorem lsnAfter_trans {a b c : PgCursor} (h : lsnAfter a (some b) = true)
    (h' : lsnAfter b (some c) = true) : lsnAfter a (some c) = true := by
  rw [lsnAfter_iff] at *
  rcases h with h | ⟨same, h⟩
  · rcases h' with h' | ⟨same', _⟩
    · exact .inl (h'.trans h)
    · exact .inl (same' ▸ h)
  · rcases h' with h' | ⟨same', h'⟩
    · exact .inl (same ▸ h')
    · refine .inr ⟨same'.trans same, ?_⟩
      rcases h with h | ⟨eq, h⟩
      · rcases h' with h' | ⟨eq', _⟩
        · exact .inl (h'.trans h)
        · exact .inl (eq' ▸ h)
      · rcases h' with h' | ⟨eq', h'⟩
        · exact .inl (eq ▸ h')
        · exact .inr ⟨eq'.trans eq, h'.trans h⟩

theorem lsnAfter_change {commit commit' lsn lsn' n n' : ℕ} :
    lsnAfter (.change commit lsn n) (some (.change commit' lsn' n')) = true ↔
      commit' < commit ∨ commit' = commit ∧ (lsn' < lsn ∨ lsn' = lsn ∧ n' < n) := by
  simp [lsnAfter_iff, parsePgCursor]

/-! ## The order of the positions -/

section Positions

variable {slots slots' : RowMessage V → ℕ} {rows : List (ℕ × RowMessage V)} {lsn : ℕ}

@[simp] theorem positions_nil : positions slots ([] : List (ℕ × RowMessage V)) = [] := rfl

@[simp] theorem positions_cons (row : ℕ × RowMessage V) :
    positions slots (row :: rows) = List.replicate (slots row.2) row.1 ++ positions slots rows := by
  simp [positions]

@[simp] theorem positions_append (more : List (ℕ × RowMessage V)) :
    positions slots (rows ++ more) = positions slots rows ++ positions slots more := by
  simp [positions]

theorem mem_positions_rows {x : ℕ} (h : x ∈ positions slots rows) : ∃ row ∈ rows, row.1 = x := by
  obtain ⟨row, mem, taken⟩ := List.mem_flatMap.mp h
  exact ⟨row, mem, (List.eq_of_mem_replicate taken).symm⟩

theorem positions_pairwise (h : rows.Pairwise fun a b => a.1 ≤ b.1) :
    (positions slots rows).Pairwise (· ≤ ·) := by
  induction rows with
  | nil => exact .nil
  | cons row rows ih =>
    obtain ⟨below, rest⟩ := List.pairwise_cons.mp h
    rw [positions_cons, List.pairwise_append]
    refine ⟨List.pairwise_replicate.mpr (.inr le_rfl), ih rest, fun x hx y hy => ?_⟩
    obtain ⟨row', mem, rfl⟩ := mem_positions_rows hy
    rw [List.eq_of_mem_replicate hx]
    exact below row' mem

/-- Only the messages written at a position count there. -/
theorem count_positions_congr (h : ∀ row ∈ rows, row.1 = lsn → slots row.2 = slots' row.2) :
    (positions slots rows).count lsn = (positions slots' rows).count lsn := by
  induction rows with
  | nil => rfl
  | cons row rows ih =>
    have rest := ih fun row' mem => h row' (List.mem_cons_of_mem _ mem)
    rw [positions_cons, positions_cons, List.count_append, List.count_append, rest]
    by_cases here : row.1 = lsn
    · rw [h row List.mem_cons_self here]
    · simp [List.count_replicate, here]

end Positions

section Order

variable {slots : RowMessage V → ℕ} {t : Txn V} {row lsn : ℕ} {msg : RowMessage V} {old : Bool}

theorem take_succ (at_ : t.rows[row]? = some (lsn, msg)) :
    t.rows.take (row + 1) = t.rows.take row ++ [(lsn, msg)] := by
  rw [List.take_add_one, at_, Option.toList_some]

/-- What was written before a message is not past it. -/
theorem le_of_mem_take (h : t.InOrder) (at_ : t.rows[row]? = some (lsn, msg))
    {r : ℕ × RowMessage V} (mem : r ∈ t.rows.take row) : r.1 ≤ lsn := by
  have sorted : (t.rows.take row ++ [(lsn, msg)]).Pairwise fun a b => a.1 ≤ b.1 := by
    rw [← take_succ at_]
    exact h.sublist (List.take_sublist _ _)
  exact (List.pairwise_append.mp sorted).2.2 r mem (lsn, msg) List.mem_cons_self

theorem takenBefore_at (at_ : t.rows[row]? = some (lsn, msg)) :
    takenBefore slots t row old =
      positions slots (t.rows.take row) ++
        if old then [] else List.replicate (slots msg - 1) lsn := by
  simp [takenBefore, at_]

/-- **The counter tells the ordinal.** -/
theorem next_takenBefore (h : t.InOrder) (at_ : t.rows[row]? = some (lsn, msg)) :
    (Counter.after (takenBefore slots t row old)).next lsn =
      (takenBefore slots t row old).count lsn := by
  have below : ∀ x ∈ takenBefore slots t row old, x ≤ lsn := by
    intro x mem
    rw [takenBefore_at at_, List.mem_append] at mem
    rcases mem with mem | mem
    · obtain ⟨r, before, rfl⟩ := mem_positions_rows mem
      exact le_of_mem_take h at_ before
    · split at mem
      · cases mem
      · exact Nat.le_of_eq (List.eq_of_mem_replicate mem)
  refine Counter.next_after ?_ below
  rw [takenBefore_at at_]
  refine List.pairwise_append.mpr ⟨positions_pairwise (h.sublist (List.take_sublist _ _)), ?_, ?_⟩
  · split
    · exact .nil
    · exact List.pairwise_replicate.mpr (.inr le_rfl)
  · intro x hx y hy
    split at hy
    · cases hy
    · rw [List.eq_of_mem_replicate hy]
      obtain ⟨r, mem, rfl⟩ := mem_positions_rows hx
      exact le_of_mem_take h at_ mem

/-- **The numbering increases** in the order of the changes. -/
theorem numbered_lt (h : t.InOrder) {a b : ChangeId} {ca cb : PgCursor} {msg msg' : RowMessage V}
    {lsn lsn' : ℕ} (at_a : t.rows[a.row]? = some (lsn, msg)) (at_b : t.rows[b.row]? = some (lsn', msg'))
    (some_ : 0 < slots msg) (two : a.old = true → slots msg = 2) (before : a.Before b)
    (ha : numbered slots t a = some ca) (hb : numbered slots t b = some cb) :
    lsnAfter cb (some ca) = true := by
  simp only [numbered, at_a, at_b, Option.map_some, Option.some.injEq] at ha hb
  subst ha hb
  refine lsnAfter_change.mpr (.inr ⟨rfl, ?_⟩)
  rcases before with earlier | ⟨same, first, second⟩
  · have le : lsn ≤ lsn' := by
      have mem : (lsn, msg) ∈ t.rows.take b.row := by
        refine List.mem_of_getElem? (i := a.row) ?_
        rw [List.getElem?_take_of_lt earlier, at_a]
      exact le_of_mem_take h at_b mem
    rcases Nat.lt_or_eq_of_le le with lt | rfl
    · exact .inl lt
    · refine .inr ⟨rfl, ?_⟩
      -- the message's own positions are among those taken before the later change
      have prefix_ : (positions slots (t.rows.take (a.row + 1))).count lsn ≤
          (positions slots (t.rows.take b.row)).count lsn := by
        have front := List.take_append_drop (a.row + 1) (t.rows.take b.row)
        rw [List.take_take, Nat.min_eq_left earlier] at front
        rw [← front, positions_append, List.count_append]
        exact Nat.le_add_right _ _
      rw [take_succ at_a, positions_append, List.count_append] at prefix_
      simp only [positions_cons, positions_nil, List.append_nil, List.count_replicate_self] at prefix_
      rw [takenBefore_at at_a, takenBefore_at at_b, List.count_append, List.count_append]
      have own : (if a.old then [] else List.replicate (slots msg - 1) lsn).count lsn < slots msg := by
        split
        · exact some_
        · rw [List.count_replicate_self]
          omega
      omega
  · obtain ⟨rfl, rfl⟩ := Prod.mk.inj (Option.some.inj (at_a.symm.trans (same ▸ at_b)))
    refine .inr ⟨rfl, ?_⟩
    rw [takenBefore_at at_a, takenBefore_at at_b, same, first, second]
    simp [List.count_append, two first]

/-- **A bridge's own stream numbers a change as the messages do**, where it counts alike. -/
theorem numbered_alike [DecidableEq V] {bridge : Bridge} (alike : bridge.CountsAlike t)
    {id : ChangeId} (at_ : t.rows[id.row]? = some (lsn, msg)) (captures : bridge.captures msg = true) :
    numbered bridge.slots t id = numbered RowMessage.slots t id := by
  have before : (positions bridge.slots (t.rows.take id.row)).count lsn =
      (positions RowMessage.slots (t.rows.take id.row)).count lsn := by
    refine count_positions_congr fun r mem here => ?_
    obtain ⟨j, at_j⟩ := List.mem_iff_getElem?.mp mem
    have lt : j < id.row := by
      have := (List.getElem?_eq_some_iff.mp at_j).1
      rw [List.length_take] at this
      omega
    rw [List.getElem?_take_of_lt lt] at at_j
    exact alike j id.row lt lsn r.2 msg (here ▸ at_j) at_ captures
  simp only [numbered, at_, Option.map_some, takenBefore_at at_, List.count_append, before,
    slots_of_captures captures]

end Order

end Syncle.Postgres
