import Mathlib.Tactic.Common
import Mathlib.Data.ENat.Basic
import Mathlib.Order.WithBot
import Mathlib.Data.Nat.Basic

/-!
# Positions in a PostgreSQL change stream (`postgres-lsn.ts`)

A cursor is a text of three forms; here it is the form and what stands in it, so that
`parsePgCursor` reads it without failing. A cursor that does not parse is never handed out. A
position in the server's log, `H/L`, is the number it stands for.
-/

namespace Syncle.Postgres

inductive PgCursor where
  /-- `<commitLsn>#<changeLsn>.<n>` -/
  | change (commit lsn : ℕ) (n : ℕ)
  /-- `<commitLsn>#c:<commitEndLsn>` -/
  | txnEnd (commit end_ : ℕ)
  /-- `H/L`, saved before the other two existed -/
  | bare (lsn : ℕ)
  deriving DecidableEq

structure PgPosition where
  commit : ℕ
  /-- `-1` for a legacy cursor is `⊥`, `END` is `⊤` -/
  change : WithBot (WithTop ℕ)
  ordinal : ℕ
  /-- what may be confirmed to the server once this position is durable -/
  ack : Option ℕ

def parsePgCursor : PgCursor → PgPosition
  | .change commit lsn n => { commit, change := (lsn : WithTop ℕ), ordinal := n, ack := none }
  | .txnEnd commit end_ => { commit, change := (⊤ : WithTop ℕ), ordinal := 0, ack := some end_ }
  | .bare lsn => { commit := lsn, change := ⊥, ordinal := 0, ack := some lsn }

/-- Is position `a` strictly after `b`? -/
def lsnAfter (a : PgCursor) : Option PgCursor → Bool
  | none => true
  | some b =>
    let pa := parsePgCursor a
    let pb := parsePgCursor b
    if pa.commit ≠ pb.commit then decide (pb.commit < pa.commit)
    else if pa.change ≠ pb.change then decide (pb.change < pa.change)
    else decide (pb.ordinal < pa.ordinal)

/-- What the client is handed, so that the server is told `lsn`. -/
def lsnForClient (lsn : ℕ) : Option ℕ := if 0 < lsn then some (lsn - 1) else none

/-- What the client tells the server when it is handed `at`: "last byte + 1". -/
def clientTells (handed : ℕ) : ℕ := handed + 1

theorem clientTells_lsnForClient {lsn v : ℕ} (h : lsnForClient lsn = some v) :
    clientTells v = lsn := by
  unfold lsnForClient at h
  split at h
  · obtain rfl := Option.some.inj h
    show lsn - 1 + 1 = lsn
    omega
  · cases h

@[simp] theorem lsnAfter_none (a : PgCursor) : lsnAfter a none = true := rfl

/-- **A transaction's end is passed only by a position past it.** What is not before the end of a
transaction is that end, or lies in a transaction that commits later. -/
theorem commit_le_of_not_after_txnEnd {commit end_ : ℕ} {c : PgCursor}
    (h : lsnAfter (.txnEnd commit end_) (some c) = false) :
    commit < (parsePgCursor c).commit ∨ ∃ e, c = .txnEnd commit e := by
  unfold lsnAfter at h
  by_cases hc : commit = (parsePgCursor c).commit
  · refine .inr ?_
    cases c with
    | change commit' lsn n =>
      simp [parsePgCursor, show commit = commit' from hc] at h
    | txnEnd commit' e =>
      obtain rfl : commit = commit' := hc
      exact ⟨e, rfl⟩
    | bare lsn => simp [parsePgCursor, show commit = lsn from hc] at h
  · have hne : (parsePgCursor (.txnEnd commit end_)).commit ≠ (parsePgCursor c).commit := hc
    simp only [if_pos hne] at h
    have hle : commit ≤ (parsePgCursor c).commit := not_lt.mp (of_decide_eq_false h)
    exact .inl (lt_of_le_of_ne hle hc)

/-- Every transaction that commits before it was sent before the cursor. -/
def PgCursor.reach : PgCursor → ℕ
  | .change commit _ _ => commit
  | .txnEnd commit end_ => max (commit + 1) end_
  | .bare lsn => lsn

theorem ack_le_reach {c : PgCursor} {v : ℕ} (h : (parsePgCursor c).ack = some v) :
    v ≤ c.reach := by
  cases c with
  | change commit lsn n => cases h
  | txnEnd commit end_ =>
    obtain rfl := Option.some.inj h
    exact le_max_right _ _
  | bare lsn =>
    obtain rfl := Option.some.inj h
    exact le_rfl

theorem lt_reach_of_not_after {commit end_ : ℕ} {c : PgCursor}
    (h : lsnAfter (.txnEnd commit end_) (some c) = false) : commit < c.reach := by
  rcases commit_le_of_not_after_txnEnd h with hlt | ⟨e, rfl⟩
  · cases c with
    | change commit' lsn n => exact hlt
    | txnEnd commit' e =>
      have : commit < commit' := hlt
      exact lt_of_lt_of_le (by omega) (le_max_left (commit' + 1) e)
    | bare lsn => exact hlt
  · exact lt_of_lt_of_le (Nat.lt_succ_self commit) (le_max_left _ _)

end Syncle.Postgres
