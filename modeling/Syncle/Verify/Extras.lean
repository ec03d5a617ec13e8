import Syncle.Verify.Compare

/-!
# Verify, the second pass

`findExtras`: the target is read once, a page at a time, and the source asked for its keys; what it
does not have is a suspect, and suspects are settled `recheckBatch` at a time: counted and, in a
reconcile that removes them, removed, while the same table is still being read.
-/

namespace Syncle.Verify

open Syncle.Lib

variable {A V O : Type*} [LinearOrder A] [LinearOrder O]

/-- The reading of the target: where the next page starts, and the rows not yet flushed. -/
structure Reading (A V O : Type*) where
  run : TargetRun A V O
  page : List (TargetRow A V O) := []
  last : Option O := none
  offset : Nat := 0

namespace Setup

variable (S : Setup A V O) (source : List (Expected A V)) (remove : Bool)

/-- Which of these keys the source has. -/
def sourceKeys (keys : List (Key A)) : List (Key A) :=
  (S.fetchSource source S.targetText keys).keys

/-- Still missing from the source, still in the target, still not marked. -/
def stillExtra (target : List (TargetRow A V O)) (keys : List (Key A)) : List (Key A) :=
  let inSource := S.sourceKeys source keys
  let inTarget := S.fetchTarget S.targetText target keys
  keys.filter fun k => decide (k ∉ inSource) && (inTarget.get? k).any fun r => !S.isMarked r

def settle (run : TargetRun A V O) : TargetRun A V O :=
  if run.extraSuspects.size = 0 then run
  else
    let keys := run.extraSuspects.keys
    let run := { run with extraSuspects := .empty }
    let suspects := if S.moving then S.stillExtra source run.target keys else keys
    if suspects = [] then run
    else
      let run := { run with extra := some (run.extra.getD 0 + suspects.length) }
      if remove then
        match S.deleteRows run.target suspects with
        | some target => { run with target := target, removed := run.removed + suspects.length }
        | none => run
      else run

def flushExtras (run : TargetRun A V O) (page : List (TargetRow A V O)) : TargetRun A V O :=
  if page = [] then run
  else
    let candidates := (page.filter fun r => !S.isMarked r).map (·.key)
    if candidates = [] then run
    else
      let inSource := S.sourceKeys source candidates
      let run :=
        { run with
          extraSuspects := run.extraSuspects.setAll
            ((candidates.filter fun k => k ∉ inSource).map fun k => (k, ())) }
      if recheckBatch ≤ run.extraSuspects.size then S.settle source remove run else run

/-- A row of the target joins the page; a full page is flushed. -/
def takeTarget (x : Reading A V O) (r : TargetRow A V O) : Reading A V O :=
  let page := x.page ++ [r]
  if S.pageSize ≤ page.length then
    { x with run := S.flushExtras source remove x.run page, page := [] }
  else { x with page := page }

/-- What one read asks for, and the connection lets through. -/
def readSize : Nat := min (max S.pageSize 1) S.targetMaxRows

def readPage (x : Reading A V O) : Page (TargetRow A V O) :=
  if S.ownOrder then pageAfter TargetRow.place x.last S.readSize x.run.target
  else pageFrom TargetRow.key x.offset S.readSize x.run.target

/-- The reader's loop. A page is handed on row by row before the next one is read. -/
def readTarget : Nat → Reading A V O → Reading A V O
  | 0, x => x
  | pages + 1, x =>
    let page := S.readPage x
    let x' := page.rows.foldl (S.takeTarget source remove)
      { x with
        last := (page.rows.getLast?.map (·.place)).or x.last
        offset := x.offset + page.rows.length }
    if page.hasMore = false ∨ page.rows = [] then x' else readTarget pages x'

def looksForExtras : Bool := decide (S.onDelete ≠ .ignore) && !S.keyIsTransformed

def findExtras (run : TargetRun A V O) : TargetRun A V O :=
  if S.looksForExtras then
    let x := S.readTarget source remove (run.target.length + 1) { run := { run with extra := some 0 } }
    S.settle source remove (S.flushExtras source remove x.run x.page)
  else run

/-- `verify`: look, and with `fix` write what is missing or different, with `deleteExtra` too
remove what is extra. -/
def verify (fix deleteExtra : Bool) (target : List (TargetRow A V O)) : TargetRun A V O :=
  S.findExtras source (fix && deleteExtra) (S.firstPass source fix target)

end Setup

end Syncle.Verify
