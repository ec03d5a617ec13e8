import Syncle.Mongo.ChangeStream

/-!
# The change stream of a collection replays it

Every event is told late or exactly (`Lib.Late`): an update as the document is when it is looked up,
anything else as what it did. What a destination tells documents apart by is the plain value of
`_id`, so two of them whose plain values are one cannot both be there: the collection is replayed
where no two `_id`s come to the same value.
-/

namespace Syncle.Mongo

open Lib Cdc

/-- A change of the collection, and what it is handed over as. -/
def Entry.telling (e : Entry) : Telling Bson Doc (Option Plain) PlainFields :=
  { write := e.op.write
    told := ((mapChange e.event).bind StreamItem.change?).map (CdcChange.write rowKey) }

def placeOf (id : Bson) : Option Plain := some (normalizeMongoValue id)

def imageOf (doc : Doc) : PlainFields := normalizeFields doc.bson

theorem rowKey_bson (doc : Doc) : rowKey (normalizeFields doc.bson) = placeOf doc.id := by
  simp [rowKey, Doc.bson, normalizeFields, PlainFields.get, placeOf]

theorem rowKey_documentKey (id : Bson) : rowKey (normalizeFields (documentKey id)) = placeOf id := by
  simp [rowKey, documentKey, normalizeFields, PlainFields.get, placeOf]

/-! ## What an event is told as -/

section Told

variable {e : Entry} {doc : Doc} {id : Bson}

theorem told_insert (h : e.op = .insert doc) :
    e.telling.told = some (.upsert (placeOf doc.id) (imageOf doc)) := by
  simp [Entry.telling, Entry.event, mapChange, h, StreamItem.change?, CdcChange.write,
    CdcOperation.write, rowKey_bson, imageOf]

theorem told_replace (h : e.op = .replace doc) :
    e.telling.told = some (.upsert (placeOf doc.id) (imageOf doc)) := by
  simp [Entry.telling, Entry.event, mapChange, h, StreamItem.change?, CdcChange.write,
    CdcOperation.write, rowKey_bson, imageOf]

theorem told_update (h : e.op = .update doc) :
    e.telling.told = e.looked.map fun found => .upsert (placeOf found.id) (imageOf found) := by
  cases hl : e.looked with
  | none => simp [Entry.telling, Entry.event, mapChange, h, hl, StreamItem.change?]
  | some found =>
    simp [Entry.telling, Entry.event, mapChange, h, hl, StreamItem.change?, CdcChange.write,
      CdcOperation.write, rowKey_bson, imageOf]

theorem told_delete (h : e.op = .delete id) (filed : ∀ found, e.before = some found → found.id = id) :
    e.telling.told = some (.remove (placeOf id)) := by
  cases hb : e.before with
  | none =>
    simp [Entry.telling, Entry.event, mapChange, h, hb, StreamItem.change?, CdcChange.write,
      CdcOperation.write, CollectionOp.id, rowKey_documentKey]
  | some found =>
    simp [Entry.telling, Entry.event, mapChange, h, hb, StreamItem.change?, CdcChange.write,
      CdcOperation.write, rowKey_bson, filed found hb]

/-- With insert, update and delete subscribed to, every event is sent. -/
theorem handedOver_all {ops : List CdcOperation} (insert : .insert ∈ ops) (update : .update ∈ ops)
    (delete : .delete ∈ ops) (history : List Entry) :
    (changes (handedOver ops (history.map Entry.event))).map (CdcChange.write rowKey) =
      (history.map Entry.telling).filterMap Telling.told := by
  have sent : ∀ e : Entry, e.event.operationType ∈ operationTypes ops := by
    intro e
    simp only [operationTypes, if_pos insert, if_pos update, if_pos delete, Entry.event]
    cases e.op <;> simp
  have all : (history.map Entry.event).filter (fun e =>
      (operationTypes ops).isEmpty || e.operationType ∈ operationTypes ops) =
      history.map Entry.event := by
    refine List.filter_eq_self.mpr fun x hx => ?_
    obtain ⟨e, -, rfl⟩ := List.mem_map.mp hx
    simp [sent e]
  rw [handedOver, all, changes]
  simp only [List.filterMap_filterMap, List.map_filterMap, List.filterMap_map]
  rfl

end Told

/-! ## The history, told late -/

section History

variable {c : Collection} {history : List Entry}

theorem collectionAfter_eq (c : Collection) (history : List Entry) :
    stateAfter c (history.map Entry.telling) = collectionAfter c history := by
  simp [stateAfter, collectionAfter, List.map_map, Function.comp_def, Entry.telling]

theorem Filed.apply (h : Filed c) (op : CollectionOp) : Filed (op.write.apply c) := by
  have upsert {doc : Doc} : Filed ((Write.upsert doc.id doc).apply c) := by
    intro id found hf
    by_cases hid : id = doc.id
    · subst hid
      rw [Write.apply, Function.update_self] at hf
      obtain rfl := Option.some.inj hf
      rfl
    · rw [Write.apply, Function.update_of_ne hid] at hf
      exact h id found hf
  cases op with
  | insert doc => exact upsert
  | update doc => exact upsert
  | replace doc => exact upsert
  | delete id =>
    intro id' found hf
    by_cases hid : id' = id
    · subst hid
      simp [CollectionOp.write, Write.apply] at hf
    · rw [CollectionOp.write, Write.apply, Function.update_of_ne hid] at hf
      exact h id' found hf

theorem Filed.after (h : Filed c) (history : List Entry) : Filed (collectionAfter c history) := by
  induction history generalizing c with
  | nil => exact h
  | cons e rest ih => exact ih (h.apply e.op)

/-- The `_id`s of the collection's documents and of its history. -/
def ids (c : Collection) (history : List Entry) : Set Bson :=
  { id | c id ≠ none ∨ ∃ e ∈ history, e.op.id = id }

theorem touches_iff (op : CollectionOp) (id : Bson) : op.write.touches id ↔ op.id = id := by
  cases op <;> rfl

/-- **Every event of the history is told late.** -/
theorem lateAt_of_looks (filed : Filed c) (looks : Looks c history) {s : Set Bson}
    (distinct : s.InjOn normalizeMongoValue) (mem : ∀ e ∈ history, e.op.id ∈ s) {k : Bson}
    (hk : k ∈ s) : LateAt k (placeOf k) imageOf c (history.map Entry.telling) := by
  induction history generalizing c with
  | nil => trivial
  | cons e rest ih =>
    obtain ⟨looked, before, looks⟩ := looks
    have mem' : ∀ x ∈ rest, x.op.id ∈ s := fun x hx => mem x (List.mem_cons_of_mem _ hx)
    have found_id {doc found : Doc} (hop : e.op = .update doc) (hf : e.looked = some found) :
        found.id = doc.id := by
      obtain ⟨m, hm⟩ := looked doc hop
      exact (filed.apply e.op).after _ _ _ (hm.symm.trans hf)
    have before_id {id : Bson} (hop : e.op = .delete id) :
        ∀ found, e.before = some found → found.id = id := by
      intro found hf
      rcases before id hop with hb | hb
      · rw [hb] at hf
        cases hf
      · exact filed id found (hb.symm.trans hf)
    refine ⟨fun ht => ?_, fun ht w hw => ?_, ih (filed.apply e.op) looks mem'⟩
    · have hid : e.op.id = k := (touches_iff e.op k).mp ht
      have now : stateAfter (e.op.write.apply c) ((rest.map Entry.telling).take 0) k =
          e.op.write.image := Write.apply_of_touches ht c
      cases hop : e.op with
      | insert doc =>
        rw [hop] at hid now
        obtain rfl : doc.id = k := hid
        simp only [ToldAt, told_insert hop]
        refine ⟨rfl, 0, ?_⟩
        show _ = (stateAfter (e.op.write.apply c) _ doc.id).map imageOf
        rw [hop, now]
        rfl
      | replace doc =>
        rw [hop] at hid now
        obtain rfl : doc.id = k := hid
        simp only [ToldAt, told_replace hop]
        refine ⟨rfl, 0, ?_⟩
        show _ = (stateAfter (e.op.write.apply c) _ doc.id).map imageOf
        rw [hop, now]
        rfl
      | update doc =>
        rw [hop] at hid
        obtain rfl : doc.id = k := hid
        obtain ⟨m, hm⟩ := looked doc hop
        have later : stateAfter (e.op.write.apply c) ((rest.map Entry.telling).take m) doc.id =
            e.looked := by
          rw [← List.map_take, collectionAfter_eq]
          exact hm.symm
        cases hl : e.looked with
        | none =>
          simp only [ToldAt, told_update hop, hl, Option.map_none]
          refine ⟨?_, m, later.trans hl⟩
          show e.op.write.image ≠ none
          rw [hop]
          exact Option.some_ne_none _
        | some found =>
          simp only [ToldAt, told_update hop, hl, Option.map_some]
          refine ⟨congrArg placeOf (found_id hop hl), m, ?_⟩
          show _ = (stateAfter (e.op.write.apply c) _ doc.id).map imageOf
          rw [later, hl]
          rfl
      | delete id =>
        rw [hop] at hid now
        obtain rfl : id = k := hid
        simp only [ToldAt, told_delete hop (before_id hop)]
        refine ⟨rfl, 0, ?_⟩
        show _ = (stateAfter (e.op.write.apply c) _ id).map imageOf
        rw [hop, now]
        rfl
    · have hne : placeOf e.op.id ≠ placeOf k := by
        intro heq
        have hid := distinct (mem e List.mem_cons_self) hk (Option.some.inj heq)
        exact ht ((touches_iff e.op k).mpr hid)
      have hw' : e.telling.told = some w := hw
      cases hop : e.op with
      | insert doc =>
        rw [told_insert hop] at hw'
        obtain rfl := Option.some.inj hw'
        rw [hop] at hne
        exact hne
      | replace doc =>
        rw [told_replace hop] at hw'
        obtain rfl := Option.some.inj hw'
        rw [hop] at hne
        exact hne
      | update doc =>
        rw [told_update hop] at hw'
        obtain ⟨found, hf, rfl⟩ := Option.map_eq_some_iff.mp hw'
        rw [hop] at hne
        exact fun h => hne ((congrArg placeOf (found_id hop hf)).symm.trans h)
      | delete id =>
        rw [told_delete hop (before_id hop)] at hw'
        obtain rfl := Option.some.inj hw'
        rw [hop] at hne
        exact hne

end History

/-! ## The destination is the collection -/

section Mirrors

variable {c : Collection} {d : Option Plain → Option PlainFields} {history : List Entry}

/-- A destination that mirrors a collection has each of its documents, and nothing where one of its
`_id`s has none. -/
theorem Mirrors.at (h : Mirrors c d) (filed : Filed c) {s : Set Bson}
    (distinct : s.InjOn normalizeMongoValue) (mem : ∀ id, c id ≠ none → id ∈ s) {id : Bson}
    (hid : id ∈ s) : d (placeOf id) = (c id).map imageOf := by
  cases hc : c id with
  | some doc =>
    obtain rfl := filed id doc hc
    exact (h _ _).mpr ⟨doc, hc, rfl, rfl⟩
  | none =>
    cases hd : d (placeOf id) with
    | none => rfl
    | some row =>
      obtain ⟨doc, hdoc, hplace, -⟩ := (h _ _).mp hd
      have hmem : doc.id ∈ s := mem _ (by simp [hdoc])
      obtain rfl := distinct hmem hid (Option.some.inj hplace)
      rw [hc] at hdoc
      cases hdoc

theorem Mirrors.of_at (filed : Filed c) {s : Set Bson}
    (at_ : ∀ id ∈ s, d (placeOf id) = (c id).map imageOf) (mem : ∀ id, c id ≠ none → id ∈ s)
    (elsewhere : ∀ k, (∀ id ∈ s, placeOf id ≠ k) → d k = none) : Mirrors c d := by
  intro k row
  constructor
  · intro hd
    by_cases hk : ∃ id ∈ s, placeOf id = k
    · obtain ⟨id, hid, rfl⟩ := hk
      rw [at_ id hid] at hd
      obtain ⟨doc, hdoc, rfl⟩ := Option.map_eq_some_iff.mp hd
      obtain rfl := filed id doc hdoc
      exact ⟨doc, hdoc, rfl, rfl⟩
    · rw [elsewhere k fun id hid heq => hk ⟨id, hid, heq⟩] at hd
      cases hd
  · rintro ⟨doc, hdoc, rfl, rfl⟩
    have heq := at_ doc.id (mem _ (by simp [hdoc]))
    rw [hdoc] at heq
    exact heq

/-- A key under which nothing of the history is written. -/
theorem told_elsewhere {k : Option Plain} (filed : Filed c) (looks : Looks c history)
    (hk : ∀ e ∈ history, placeOf e.op.id ≠ k) :
    ∀ w ∈ (history.map Entry.telling).filterMap Telling.told, ¬ w.touches k := by
  induction history generalizing c with
  | nil => exact nofun
  | cons e rest ih =>
    obtain ⟨looked, before, looks⟩ := looks
    have rest_ := ih (filed.apply e.op) looks fun x hx => hk x (List.mem_cons_of_mem _ hx)
    have hne := hk e List.mem_cons_self
    intro w hw
    obtain ⟨x, hx, hxw⟩ := List.mem_filterMap.mp hw
    rcases List.mem_cons.mp hx with rfl | hx
    · cases hop : e.op with
      | insert doc =>
        rw [told_insert hop] at hxw
        obtain rfl := Option.some.inj hxw
        rw [hop] at hne
        exact hne
      | replace doc =>
        rw [told_replace hop] at hxw
        obtain rfl := Option.some.inj hxw
        rw [hop] at hne
        exact hne
      | update doc =>
        rw [told_update hop] at hxw
        obtain ⟨found, hf, rfl⟩ := Option.map_eq_some_iff.mp hxw
        obtain ⟨m, hm⟩ := looked doc hop
        have hid : found.id = doc.id := (filed.apply e.op).after _ _ _ (hm.symm.trans hf)
        rw [hop] at hne
        exact fun h => hne ((congrArg placeOf hid).symm.trans h)
      | delete id =>
        rw [told_delete hop fun found hf => ?_] at hxw
        · obtain rfl := Option.some.inj hxw
          rw [hop] at hne
          exact hne
        · rcases before id hop with hb | hb
          · rw [hb] at hf
            cases hf
          · exact filed id found (hb.symm.trans hf)
    · exact rest_ w (List.mem_filterMap.mpr ⟨x, hx, hxw⟩)

/-- A document of the collection at the end was there, or is of the history. -/
theorem mem_ids (id : Bson) (h : collectionAfter c history id ≠ none) : id ∈ ids c history := by
  by_cases ht : ∃ e ∈ history, e.op.id = id
  · exact .inr ht
  · refine .inl ?_
    rwa [collectionAfter, replay_untouched fun w hw => ?_] at h
    obtain ⟨e, he, rfl⟩ := List.mem_map.mp hw
    exact fun hwt => ht ⟨e, he, (touches_iff e.op id).mp hwt⟩

/-- **The change stream replays the collection**, where no two `_id`s come to one plain value. -/
theorem mirrors_of_distinct {ops : List CdcOperation} (insert : .insert ∈ ops)
    (update : .update ∈ ops) (delete : .delete ∈ ops) (filed : Filed c) (start : Mirrors c d)
    (looks : Looks c history) (distinct : (ids c history).InjOn normalizeMongoValue) :
    Mirrors (collectionAfter c history)
      (destinationAfter d (handedOver ops (history.map Entry.event))) := by
  have used : ∀ id, c id ≠ none → id ∈ ids c history := fun id h => .inl h
  have mem : ∀ e ∈ history, e.op.id ∈ ids c history := fun e he => .inr ⟨e, he, rfl⟩
  rw [destinationAfter, handedOver_all insert update delete]
  refine Mirrors.of_at (s := ids c history) (filed.after history) (fun id hid => ?_) mem_ids
    fun k hk => ?_
  · rw [told_of_lateAt (lateAt_of_looks filed looks distinct mem hid)
      (.inl (start.at filed distinct used hid)), collectionAfter_eq]
  · rw [replay_untouched (told_elsewhere filed looks fun e he => hk _ (mem e he))]
    cases hd : d k with
    | none => rfl
    | some row =>
      obtain ⟨doc, hdoc, hplace, -⟩ := (start k row).mp hd
      exact absurd hplace (hk doc.id (used _ (by simp [hdoc])))

end Mirrors

/-! ### Two `_id`s with one plain value -/

namespace TwoIds

def byObjectId : Doc := { id := .objectId "507f1f77bcf86cd799439011", fields := .nil }

def byString : Doc := { id := .string "507f1f77bcf86cd799439011", fields := .nil }

def entry (op : CollectionOp) : Entry := { op, token := "", looked := none, before := none }

def history : List Entry :=
  [entry (.insert byObjectId), entry (.insert byString), entry (.delete byString.id)]

def ops : List CdcOperation := [.insert, .update, .delete, .truncate]

def destination : Option Plain → Option PlainFields :=
  destinationAfter (fun _ => none) (handedOver ops (history.map Entry.event))

/-- The delete of the one takes the other away. -/
theorem one_lost : Filed (fun _ => none) ∧ Mirrors (fun _ => none) (fun _ => none) ∧
    Looks (fun _ => none) history ∧
    ¬ Mirrors (collectionAfter (fun _ => none) history) destination := by
  refine ⟨nofun, fun k row => by simp, ?_, fun h => ?_⟩
  · refine ⟨nofun, nofun, nofun, nofun, nofun, fun id hid => .inl rfl, trivial⟩
  · have gone : destination (placeOf byObjectId.id) = none := by decide
    have there := (h (placeOf byObjectId.id) _).mpr ⟨byObjectId, by decide, rfl, rfl⟩
    rw [gone] at there
    cases there

end TwoIds

/-! ### A document that is looked up after it was deleted and inserted again -/

namespace LookedUpLate

def doc (n : Int) : Doc := { id := .int32 1, fields := .cons "n" (.int32 n) .nil }

/-- The look-up of the first update finds the document of the second insert. -/
def history : List Entry :=
  [{ op := .insert (doc 1), token := "a", looked := none, before := none },
    { op := .update (doc 2), token := "b", looked := some (doc 3), before := none },
    { op := .delete (.int32 1), token := "c", looked := none, before := some (doc 2) },
    { op := .insert (doc 3), token := "d", looked := none, before := none }]

theorem looked_up_mirrors : Mirrors (collectionAfter (fun _ => none) history)
    (destinationAfter (fun _ => none) (handedOver TwoIds.ops (history.map Entry.event))) := by
  refine mirrors_of_distinct (by decide) (by decide) (by decide) nofun (fun k row => by simp) ?_ ?_
  · refine ⟨nofun, nofun, fun d hd => ⟨2, ?_⟩, nofun, nofun, fun id hid => .inr ?_, nofun, nofun, trivial⟩
    · obtain rfl : doc 2 = d := by simpa using hd
      decide
    · obtain rfl : Bson.int32 1 = id := by simpa using hid
      decide
  · intro a ha b hb _
    have only {id : Bson} (h : id ∈ ids (fun _ => none) history) : id = .int32 1 := by
      rcases h with h | ⟨e, he, rfl⟩
      · exact absurd rfl h
      · simp only [history, List.mem_cons, List.not_mem_nil, or_false] at he
        rcases he with rfl | rfl | rfl | rfl <;> rfl
    rw [only ha, only hb]

end LookedUpLate

end Syncle.Mongo
