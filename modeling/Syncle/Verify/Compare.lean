import Mathlib.Data.List.Lex
import Mathlib.Order.WithBot
import Syncle.Lib.OrderedMap
import Syncle.Lib.Pages

/-!
# Verify, the first pass

`BridgeVerifyService`: a page of the source against the target (`compare`), and the second look at
what looked wrong (`secondLook`), which counts it and, in a reconcile, writes it. The data is
static: nothing but the reconcile itself writes to the target.

A source row is the row the bridge would write for it. Keys are compared by their text (`keyText`);
a component that is NULL is `⊥`, and a key that has one finds no row.

A lookup asks the server for a list of values per key column, each once, and what is once for it
(`lookupValues`) goes by another text, `${typeof value}:${String(value)}`. Two values can have one
such text and not be the same: bytes that are no text are all spelled with the replacement
character, and a date is spelled to the second. Of these only the last is asked for.
-/

namespace Syncle.Verify

open Syncle.Lib

/-- The values of the key columns, as their texts. -/
abbrev Key (A : Type*) := List (WithBot A)

instance {A : Type*} [LinearOrder A] : LawfulBEq (Key A) := inferInstance

/-- A source row, spelled the target's way. -/
structure Expected (A V : Type*) where
  key : Key A
  value : V
  deriving DecidableEq

/-- `place`: where the row stands in the target's own order, if it has one. -/
structure TargetRow (A V O : Type*) where
  key : Key A
  value : V
  /-- a soft delete has marked it -/
  marked : Bool
  place : O
  deriving DecidableEq

inductive OnDelete where
  | ignore | delete | soft
  deriving DecidableEq

/-- A bridge with one target. -/
structure Setup (A V O : Type*) where
  pageSize : Nat
  /-- the caps the two connections set on the rows of one read -/
  sourceMaxRows : Nat
  targetMaxRows : Nat
  onDelete : OnDelete
  keyIsTransformed : Bool
  /-- `resolveOrder` of the target: by a key of its own, after the last row read, or in the order
  of the bridge's key columns, by OFFSET -/
  ownOrder : Bool
  /-- the bridge is delivering -/
  moving : Bool
  /-- `${typeof value}:${String(value)}` of a value of a key column: in a row as the bridge would
  write it, in a row as the source has it, in a row of the target -/
  writtenText : Nat → WithBot A → String
  sourceText : Nat → WithBot A → String
  targetText : Nat → WithBot A → String
  /-- no difference between the expected value and the actual one -/
  same : V → V → Bool
  /-- what the target gives a row that is new to it -/
  newPlace : Expected A V → List (TargetRow A V O) → O
  pageSize_pos : 0 < pageSize
  sourceMaxRows_pos : 0 < sourceMaxRows
  targetMaxRows_pos : 0 < targetMaxRows
  same_self : ∀ v, same v v = true
  newPlace_fresh : ownOrder = true → ∀ e rows, newPlace e rows ∉ rows.map (·.place)

variable {A V O : Type*} [LinearOrder A] [LinearOrder O]

def Key.usable (k : Key A) : Bool := k.all fun c => decide (c ≠ ⊥)

/-- suspects looked at again together -/
def recheckBatch : Nat := 500

/-- One target, while it is being verified. -/
structure TargetRun (A V O : Type*) where
  target : List (TargetRow A V O)
  suspects : OrderedMap (Key A) (Expected A V) := .empty
  extraSuspects : OrderedMap (Key A) Unit := .empty
  checked : Nat := 0
  missing : Nat := 0
  different : Nat := 0
  extra : Option Nat := none
  fixed : Nat := 0
  removed : Nat := 0

/-! ## The rows of a table, by key -/

/-- Values for an `IN`: of those with one text, the last. (The number a text may have been, which
a document store is asked for beside it, is the same component.) -/
def lookupValues (text : WithBot A → String) (values : List (WithBot A)) : List (WithBot A) :=
  (OrderedMap.empty.setAll (values.map fun value => (text value, value))).values

/-- One `IN` per key column. For a composite key that is more than was asked for. -/
def narrowed (text : Nat → WithBot A → String) (wanted : List (Key A)) (k : Key A) : Bool :=
  k.zipIdx.all fun c => c.1 ∈ lookupValues (text c.2) (wanted.filterMap fun w => w[c.2]?)

/-- The pages of a read by offset, until one says there is no more. -/
def readPages {R : Type*} (rows : List R) (size : Nat) : Nat → Nat → List R
  | 0, _ => []
  | pages + 1, offset =>
    let page := Page.of size (rows.drop offset)
    if page.hasMore = false ∨ page.rows = [] then page.rows
    else page.rows ++ readPages rows size pages (offset + page.rows.length)

def fetchByKeys {R : Type*} (maxRows : Nat) (text : Nat → WithBot A → String) (keyOf : R → Key A)
    (rows : List R) (keys : List (Key A)) : OrderedMap (Key A) R :=
  let wanted := keys.filter Key.usable
  if wanted = [] then .empty
  else
    let read := readPages (inOrder keyOf (rows.filter fun r => narrowed text wanted (keyOf r)))
      (min 1000 maxRows) (rows.length + 1) 0
    OrderedMap.empty.setAll
      ((read.filter fun r => keyOf r ∈ wanted).map fun r => (keyOf r, r))

namespace Setup

variable (S : Setup A V O) (source : List (Expected A V))

def fetchTarget (text : Nat → WithBot A → String) (target : List (TargetRow A V O))
    (keys : List (Key A)) : OrderedMap (Key A) (TargetRow A V O) :=
  fetchByKeys S.targetMaxRows text TargetRow.key target keys

def fetchSource (text : Nat → WithBot A → String) (keys : List (Key A)) :
    OrderedMap (Key A) (Expected A V) :=
  fetchByKeys S.sourceMaxRows text Expected.key source keys

def isMarked (r : TargetRow A V O) : Bool := S.onDelete = .soft && r.marked

/-- (What is written clears the marker of a soft delete, so a marked row differs.) -/
def differs (e : Expected A V) (r : TargetRow A V O) : Bool :=
  !S.same e.value r.value || S.isMarked r

/-! ## The target is written -/

def upsertRow (target : List (TargetRow A V O)) (e : Expected A V) : List (TargetRow A V O) :=
  if e.key.usable ∧ e.key ∈ target.map (·.key) then
    target.map fun r =>
      if r.key = e.key then
        { r with value := e.value, marked := r.marked && decide (S.onDelete ≠ .soft) }
      else r
  else
    target ++ [{ key := e.key, value := e.value, marked := false, place := S.newPlace e target }]

/-- A delete that does not say which row is an error, and then nothing is removed. -/
def deleteRows (target : List (TargetRow A V O)) (keys : List (Key A)) :
    Option (List (TargetRow A V O)) :=
  if keys.all Key.usable then
    match S.onDelete with
    | .ignore => some target
    | .soft => some (target.map fun r => if r.key ∈ keys then { r with marked := true } else r)
    | .delete => some (target.filter fun r => r.key ∉ keys)
  else none

/-! ## First sight and second look -/

def compare (run : TargetRun A V O) (page : List (Expected A V)) : TargetRun A V O :=
  let actual := S.fetchTarget S.writtenText run.target (page.map (·.key))
  { run with
    suspects := run.suspects.setAll ((page.filter fun e =>
      (actual.get? e.key).all (S.differs e)).map fun e => (e.key, e))
    checked := run.checked + page.length }

/-- The rounds of the second look: `left` to go, `first` the one that counts. -/
def lookAgain (fix : Bool) : Nat → Bool → TargetRun A V O → List (Expected A V) → TargetRun A V O
  | 0, _, run, _ => run
  | left + 1, first, run, pending =>
    -- the rows as the source has them now; one that is gone from there is no concern
    let pending := if S.moving ∧ S.keyIsTransformed = false then
      (S.fetchSource source S.sourceText (pending.map (·.key))).values else pending
    let actual := S.fetchTarget S.writtenText run.target (pending.map (·.key))
    let absent := pending.filter fun e => (actual.get? e.key).isNone
    let changed := pending.filter fun e => (actual.get? e.key).any (S.differs e)
    let wrong := pending.filter fun e => (actual.get? e.key).all (S.differs e)
    let counted := if first then
      { run with
        missing := run.missing + absent.length
        different := run.different + changed.length }
      else run
    if fix = false ∨ wrong = [] then counted
    else if left = 0 ∧ first = false then counted
    else
      let written :=
        { counted with
          target := wrong.foldl S.upsertRow counted.target
          fixed := if first then counted.fixed + wrong.length else counted.fixed }
      lookAgain fix left false written wrong

def secondLook (fix : Bool) (run : TargetRun A V O) : TargetRun A V O :=
  if run.suspects.size = 0 then run
  else
    S.lookAgain source fix (if fix ∧ S.moving then 3 else 1) true { run with suspects := .empty }
      run.suspects.values

/-! ## Every row of the source -/

def flushPage (fix : Bool) (run : TargetRun A V O) (page : List (Expected A V)) :
    TargetRun A V O :=
  if page = [] then run
  else
    let run := S.compare run page
    if recheckBatch ≤ run.suspects.size then S.secondLook source fix run else run

/-- A row of the source joins the page; a full page is compared. -/
def takeSource (fix : Bool) (state : TargetRun A V O × List (Expected A V)) (e : Expected A V) :
    TargetRun A V O × List (Expected A V) :=
  let page := state.2 ++ [e]
  if S.pageSize ≤ page.length then (S.flushPage source fix state.1 page, [])
  else (state.1, page)

def firstPass (fix : Bool) (target : List (TargetRow A V O)) : TargetRun A V O :=
  let state := source.foldl (S.takeSource source fix) ({ target := target }, [])
  S.secondLook source fix (S.flushPage source fix state.1 state.2)

end Setup

end Syncle.Verify
