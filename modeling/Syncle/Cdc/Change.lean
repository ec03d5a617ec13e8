import Mathlib.Algebra.Order.Ring.Nat
import Mathlib.Order.Lattice
import Mathlib.Tactic.Common
import Syncle.Lib.Replay

/-!
# Changes

What every engine's change stream is reduced to (`cdc-provider.ts`): decoded changes, and the
positions between them. Everything is generic in the cursor `γ` (an opaque string of the
engine's) and in the row `R`; where the order of the stream matters, it is a linear order on `γ`.
-/

namespace Syncle.Cdc

/-- `cdcOperationSchema`. -/
inductive CdcOperation where
  | insert | update | delete | truncate
  deriving DecidableEq

/-- `CdcChange`: one decoded change, normalized across every engine. -/
structure CdcChange (γ R : Type*) where
  op : CdcOperation
  row : R
  cursor : γ
  /-- this update put the row under a new key; the delete of the old one came before it -/
  keyChanged : Bool := false
  deriving DecidableEq

/-- What a stream consists of: changes, positions passed without delivering anything, and
notices (something that happened and was deliberately not applied). -/
inductive StreamItem (γ R : Type*) where
  | change (c : CdcChange γ R)
  | skip (cursor : γ)
  | notice (cursor : γ)
  deriving DecidableEq

namespace StreamItem

variable {γ R : Type*}

def cursor : StreamItem γ R → γ
  | change c => c.cursor
  | skip cursor => cursor
  | notice cursor => cursor

def change? : StreamItem γ R → Option (CdcChange γ R)
  | change c => some c
  | _ => none

end StreamItem

/-- The changes of a stream, in order. -/
def changes {γ R : Type*} (src : List (StreamItem γ R)) : List (CdcChange γ R) :=
  src.filterMap StreamItem.change?

/-! ## Changes as writes -/

section Writes

open Lib

variable {γ R K : Type*}

def CdcOperation.write (op : CdcOperation) (k : K) (row : R) : Write K R :=
  match op with
  | .insert | .update => .upsert k row
  | .delete => .remove k
  | .truncate => .clear

/-- What a change does to a destination keyed on `key`. -/
def CdcChange.write (key : R → K) (c : CdcChange γ R) : Write K R := c.op.write (key c.row) c.row

/-- An initially empty keyed destination, after a list of changes. -/
def folded [DecidableEq K] (key : R → K) (l : List (CdcChange γ R)) : K → Option R :=
  replay (fun _ => none) (l.map (CdcChange.write key))

theorem folded_snoc [DecidableEq K] (key : R → K) (l : List (CdcChange γ R))
    (c : CdcChange γ R) : folded key (l ++ [c]) = (c.write key).apply (folded key l) := by
  simp [folded, replay_append]

end Writes

section Order

variable {γ R : Type*} {src : List (StreamItem γ R)}

theorem mem_changes {c : CdcChange γ R} : c ∈ changes src ↔ StreamItem.change c ∈ src := by
  constructor
  · intro h
    obtain ⟨item, hitem, hc⟩ := List.mem_filterMap.mp h
    cases item with
    | change c' => obtain rfl : c' = c := Option.some.inj hc; exact hitem
    | skip _ => cases hc
    | notice _ => cases hc
  · intro h
    exact List.mem_filterMap.mpr ⟨_, h, rfl⟩

variable [LinearOrder γ]

/-- The provider hands over items in cursor order. -/
def InOrder (src : List (StreamItem γ R)) : Prop :=
  src.Pairwise fun x y => x.cursor < y.cursor

/-- An item with a smaller cursor was handed over before. -/
theorem InOrder.index_lt (ho : InOrder src) {x y : StreamItem γ R} {i j : Nat}
    (hx : src[i]? = some x) (hy : src[j]? = some y) (h : x.cursor < y.cursor) : i < j := by
  obtain ⟨hi, rfl⟩ := List.getElem?_eq_some_iff.mp hx
  obtain ⟨hj, rfl⟩ := List.getElem?_eq_some_iff.mp hy
  rcases Nat.lt_trichotomy i j with hlt | heq | hgt
  · exact hlt
  · subst heq
    exact absurd h (lt_irrefl _)
  · exact absurd (List.pairwise_iff_getElem.mp ho j i hj hi hgt) (lt_asymm h)

/-- A cursor names one item. -/
theorem InOrder.cursor_inj (ho : InOrder src) {x y : StreamItem γ R} (hx : x ∈ src) (hy : y ∈ src)
    (h : x.cursor = y.cursor) : x = y := by
  obtain ⟨i, hi, rfl⟩ := List.getElem_of_mem hx
  obtain ⟨j, hj, rfl⟩ := List.getElem_of_mem hy
  have ordered := List.pairwise_iff_getElem.mp ho
  rcases Nat.lt_trichotomy i j with hlt | heq | hgt
  · exact absurd h (ne_of_lt (ordered i j hi hj hlt))
  · subst heq
    rfl
  · exact absurd h.symm (ne_of_lt (ordered j i hj hi hgt))

theorem InOrder.change_inj (ho : InOrder src) {c c' : CdcChange γ R} (hc : c ∈ changes src)
    (hc' : c' ∈ changes src) (h : c.cursor = c'.cursor) : c = c' :=
  StreamItem.change.inj (ho.cursor_inj (mem_changes.mp hc) (mem_changes.mp hc') h)

end Order

end Syncle.Cdc
