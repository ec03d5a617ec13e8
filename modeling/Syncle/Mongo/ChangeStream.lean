import Mathlib.Data.Set.Function
import Syncle.Cdc.Change
import Syncle.Lib.Late
import Syncle.Mongo.Bson

/-!
# The change stream of a collection (`mongodb-cdc.provider.ts`)

An update's event carries the document as it is when it is looked up, some time after the update; it
may be newer than the update, or gone. An insert, a replacement and a delete carry what they did.
-/

namespace Syncle.Mongo

open Lib Cdc

/-- A document: its `_id`, and the other fields. -/
structure Doc where
  id : Bson
  fields : BsonFields
  deriving DecidableEq

def Doc.bson (doc : Doc) : BsonFields := .cons "_id" doc.id doc.fields

/-- A document as `documentKey` has it. -/
def documentKey (id : Bson) : BsonFields := .cons "_id" id .nil

inductive OperationType where
  | insert | update | replace | delete | other
  deriving DecidableEq

/-- `ChangeStreamDocument`, as far as `mapChange` reads it. -/
structure ChangeStreamDocument where
  token : String
  operationType : OperationType
  fullDocument : Option BsonFields
  documentKey : BsonFields
  fullDocumentBeforeChange : Option BsonFields

/-- `operationTypes`: the change stream's own operations the bridge subscribes to. -/
def operationTypes (ops : List CdcOperation) : List OperationType :=
  (if .insert ∈ ops then [.insert] else []) ++
    (if .update ∈ ops then [.update, .replace] else []) ++
    (if .delete ∈ ops then [.delete] else [])

/-- What an event is handed over as, if it is ours at all. -/
def mapChange (change : ChangeStreamDocument) : Option (StreamItem String PlainFields) :=
  match change.operationType with
  | .insert => some (.change
      { op := .insert, cursor := change.token
        row := normalizeFields (change.fullDocument.getD change.documentKey) })
  | .update | .replace =>
    match change.fullDocument with
    -- looked up after the event, and gone by then: the delete is next in the stream
    | none => some (.skip change.token)
    | some full => some (.change
        { op := .update, row := normalizeFields full, cursor := change.token })
  | .delete => some (.change
      { op := .delete, cursor := change.token
        row := normalizeFields (change.fullDocumentBeforeChange.getD change.documentKey) })
  | .other => none

/-- The server sends what the pipeline matches; with nothing to match it sends everything. -/
def handedOver (ops : List CdcOperation) (events : List ChangeStreamDocument) :
    List (StreamItem String PlainFields) :=
  (events.filter fun e => (operationTypes ops).isEmpty || e.operationType ∈ operationTypes ops).filterMap
    mapChange

/-- The key of a change's row. -/
def rowKey (row : PlainFields) : Option Plain := row.get "_id"

/-! ## A collection's history -/

inductive CollectionOp where
  | insert (doc : Doc)
  /-- the document after the update -/
  | update (doc : Doc)
  | replace (doc : Doc)
  | delete (id : Bson)

namespace CollectionOp

def id : CollectionOp → Bson
  | insert doc | update doc | replace doc => doc.id
  | delete id => id

def write : CollectionOp → Write Bson Doc
  | insert doc | update doc | replace doc => .upsert doc.id doc
  | delete id => .remove id

end CollectionOp

/-- A change of the collection, with what its event finds. -/
structure Entry where
  op : CollectionOp
  token : String
  /-- the document that an update's look-up finds -/
  looked : Option Doc
  /-- the document before a delete, where pre-images are kept -/
  before : Option Doc

def Entry.event (e : Entry) : ChangeStreamDocument :=
  { token := e.token
    documentKey := Mongo.documentKey e.op.id
    operationType := match e.op with
      | .insert _ => .insert
      | .update _ => .update
      | .replace _ => .replace
      | .delete _ => .delete
    fullDocument := match e.op with
      | .insert doc | .replace doc => some doc.bson
      | .update _ => e.looked.map Doc.bson
      | .delete _ => none
    fullDocumentBeforeChange := match e.op with
      | .delete _ => e.before.map Doc.bson
      | _ => none }

abbrev Collection := Bson → Option Doc

def collectionAfter (c : Collection) (history : List Entry) : Collection :=
  replay c (history.map fun e => e.op.write)

/-- A look-up finds the document as it is at some moment after the update, and a pre-image is the
document before the delete. -/
def Looks (c : Collection) : List Entry → Prop
  | [] => True
  | e :: rest =>
    (∀ doc, e.op = .update doc →
      ∃ m, e.looked = collectionAfter (e.op.write.apply c) (rest.take m) doc.id) ∧
    (∀ id, e.op = .delete id → e.before = none ∨ e.before = c id) ∧ Looks (e.op.write.apply c) rest

/-- The destination after what is handed over. -/
def destinationAfter (d : Option Plain → Option PlainFields)
    (items : List (StreamItem String PlainFields)) : Option Plain → Option PlainFields :=
  replay d ((changes items).map (CdcChange.write rowKey))

/-- Each document is stored under its own `_id`. -/
def Filed (c : Collection) : Prop := ∀ id doc, c id = some doc → doc.id = id

/-- **The destination is the collection**, in plain values. -/
def Mirrors (c : Collection) (d : Option Plain → Option PlainFields) : Prop :=
  ∀ k row, d k = some row ↔ ∃ doc, c doc.id = some doc ∧ some (normalizeMongoValue doc.id) = k ∧
    normalizeFields doc.bson = row

end Syncle.Mongo
