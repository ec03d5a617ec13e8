import Mathlib.Data.Prod.Lex
import Syncle.Lib.Pages
import Syncle.Mongo.Bson

/-!
# A collection, page after page by its `_id`

`browseFrom` of `mongodb-adapter.ts` and the loop of `rows` that follows its cursors. A comparison
sees values of its own type only, so what sorts after an `_id` is asked for in two parts: what is
greater, and the types that sort later (`afterId`).

The cursor is canonical extended JSON, from which `EJSON.parse` has the `_id` back in the driver's
class of its BSON type. What it has back is the driver's and the library's part (`Driver`): a number
that the driver handed over as a JavaScript number need not be the one that was stored. Code, regular
expressions, arrays and the least and greatest key are no `_id`s here.
-/

namespace Syncle.Mongo

open Syncle.Lib

/-! ## The types of an `_id` -/

/-- What `$type` calls them. -/
inductive TypeAlias where
  | null | int | long | double | decimal | string | symbol | object | binData | objectId | bool | date
  | timestamp
  deriving DecidableEq

/-- In the order MongoDB sorts them. -/
def idTypeOrder : List (List TypeAlias) :=
  [[.null], [.int, .long, .double, .decimal], [.string, .symbol], [.object], [.binData], [.objectId],
    [.bool], [.date], [.timestamp]]

/-- What JavaScript's `typeof` tells of what `EJSON.parse` hands back. -/
inductive JsType where
  | string | boolean | object
  deriving DecidableEq

/-- The driver's classes, and `Date`. -/
inductive DriverClass where
  | int32 | long | double | decimal128 | binary | objectId | date | timestamp
  deriving DecidableEq

namespace Bson

def typeOf : Bson → JsType
  | .string _ => .string
  | .bool _ => .boolean
  | _ => .object

def instanceOf : Bson → DriverClass → Bool
  | .int32 _, .int32 => true
  | .long _, .long => true
  | .double _, .double => true
  | .decimal128 _, .decimal128 => true
  | .binary _ _, .binary => true
  | .objectId _, .objectId => true
  | .date _, .date => true
  | .timestamp _, .timestamp => true
  -- the driver's `Timestamp` extends its `Long`
  | .timestamp _, .long => true
  | _, _ => false

def typeAlias : Bson → Option TypeAlias
  | .null => some .null
  | .bool _ => some .bool
  | .string _ => some .string
  | .int32 _ => some .int
  | .double _ => some .double
  | .long _ => some .long
  | .decimal128 _ => some .decimal
  | .objectId _ => some .objectId
  | .date _ => some .date
  | .timestamp _ => some .timestamp
  | .binary _ _ => some .binData
  | .document _ => some .object
  | .array _ | .wrapper _ => none

def IsId (v : Bson) : Prop := v.typeAlias.isSome

instance (v : Bson) : Decidable v.IsId := inferInstanceAs (Decidable (v.typeAlias.isSome = true))

/-- The documented order of the types: null, numbers, text, objects, arrays, binary data, `ObjectId`s,
booleans, dates, timestamps, regular expressions. -/
def bracket : Bson → ℕ
  | .null => 0
  | .int32 _ | .double _ | .long _ | .decimal128 _ => 1
  | .string _ => 2
  | .document _ => 3
  | .array _ => 4
  | .binary _ _ => 5
  | .objectId _ => 6
  | .bool _ => 7
  | .date _ => 8
  | .timestamp _ => 9
  | .wrapper _ => 10

def IsNumber (v : Bson) : Prop := v.bracket = 1

def IsTimestamp (v : Bson) : Prop := v.bracket = 9

/-- Of a double the exponent's bits are all ones, and some bit of the fraction is. -/
def isNaN : Bson → Bool
  | .double (.other bits) => bits.toNat / 2 ^ 52 % 2 ^ 11 = 2 ^ 11 - 1 ∧ bits.toNat % 2 ^ 52 ≠ 0
  | .decimal128 s => s = "NaN"
  | _ => false

instance (v : Bson) : Decidable v.IsNumber := inferInstanceAs (Decidable (v.bracket = 1))

instance (v : Bson) : Decidable v.IsTimestamp := inferInstanceAs (Decidable (v.bracket = 9))

theorem isNumber_of_isNaN {v : Bson} (h : v.isNaN = true) : v.IsNumber := by
  cases v with
  | double d => rfl
  | decimal128 s => rfl
  | _ => cases h

end Bson

def idTypeGroup (v : Bson) : ℕ :=
  if v = .null then 0
  else if v.instanceOf .int32 || v.instanceOf .long || v.instanceOf .double ||
      v.instanceOf .decimal128 then 1
  else if v.typeOf = .string then 2
  else if v.instanceOf .binary then 4
  else if v.instanceOf .objectId then 5
  else if v.typeOf = .boolean then 6
  else if v.instanceOf .date then 7
  else if v.instanceOf .timestamp then 8
  else 3

/-! ## Queries -/

/-- A query on the `_id`, and the bridge's filter. -/
inductive Query where
  | everything
  | filter
  | greater (last : Bson)
  | ofType (aliases : List TypeAlias)
  | or (a b : Query)
  | and (a b : Query)

/-- Every document that sorts after `last`, whatever type its own `_id` is. -/
def afterId (last : Bson) : Query :=
  let later := (idTypeOrder.drop (idTypeGroup last + 1)).flatten
  if later ≠ [] then .or (.greater last) (.ofType later) else .greater last

structure Document where
  id : Bson
  isId : id.IsId
  fields : BsonFields

/-- How the server sorts. Two `_id`s of one collection never have the same place. -/
structure Server (K : Type*) [LinearOrder K] where
  sortKey : Bson → K
  bracketed : ∀ a b : Bson, a.bracket < b.bracket → sortKey a < sortKey b
  nan : ∀ a b : Bson, a.isNaN = true → b.isNaN = true → sortKey a = sortKey b

/-- What becomes of an `_id` on its way into a cursor and back: the driver hands it over, as a JavaScript
number where it promotes one, `EJSON.stringify` writes it and `EJSON.parse` reads it. It keeps its place
among the types, and NaN stays NaN. Another number may come back as the next one over: an integral double
from `2 ^ 53` on is written with the digits JavaScript has for it, and read as a `Long`. -/
structure Driver where
  carried : Bson → Bson
  isId_carried : ∀ v, v.IsId → (carried v).IsId
  bracket_carried : ∀ v, (carried v).bracket = v.bracket
  isNaN_carried : ∀ v, (carried v).isNaN = v.isNaN

structure BrowseResult where
  rows : List Document
  hasMore : Bool
  nextCursor : Option Bson

section Server

variable {K : Type*} [LinearOrder K] (server : Server K) (driver : Driver)

namespace Server

def place (d : Document) : K := server.sortKey d.id

/-- `$gt` is of one type only, and nothing is greater than NaN. -/
def isGreater (last v : Bson) : Bool :=
  v.bracket = last.bracket ∧ last.isNaN = false ∧ server.sortKey last < server.sortKey v

def accepts (filter : Option (Document → Bool)) : Query → Document → Bool
  | .everything, _ => true
  | .filter, d => filter.all (· d)
  | .greater last, d => server.isGreater last d.id
  | .ofType aliases, d => d.id.typeAlias.any (· ∈ aliases)
  | .or a b, d => accepts filter a d || accepts filter b d
  | .and a b, d => accepts filter a d && accepts filter b d

end Server

variable (filter : Option (Document → Bool)) (coll : List Document)

/-- `find(query).sort({ _id: 1 })` -/
def Server.find (q : Query) : List Document :=
  inOrder server.place (coll.filter (server.accepts filter q))

/-- The clauses that say something, as one query. -/
def pageQuery : Option (Document → Bool) → Option Bson → Query
  | none, none => .everything
  | some _, none => .filter
  | none, some last => afterId last
  | some _, some last => .and .filter (afterId last)

def browseFrom (cursor : Option Bson) (limit : ℕ) : BrowseResult :=
  let probed := (server.find filter coll (pageQuery filter cursor)).take (limit + 1)
  let hasMore := decide (limit < probed.length)
  let docs := if hasMore then probed.take limit else probed
  { rows := docs
    hasMore := hasMore
    nextCursor := if hasMore then docs.getLast?.map fun d => driver.carried d.id else none }

def browse (cursor : Option Bson) (limit : ℕ) : BrowseResult :=
  browseFrom server driver filter coll cursor (min (max limit 1) 1000)

/-- The loop of `rows`: what the pages hold, each from the cursor of the one before; none when it has
not come to its end after so many pages. -/
def readPages (pageSize : ℕ) : ℕ → Option Bson → Option (List Document)
  | 0, _ => none
  | fuel + 1, cursor =>
    let page := browse server driver filter coll cursor pageSize
    match page.nextCursor with
    | none => some page.rows
    | some next => (readPages pageSize fuel (some next)).map (page.rows ++ ·)

/-- The documents of the read, in the server's order. -/
def wanted : List Document := inOrder server.place (coll.filter fun d => filter.all (· d))

end Server

/-! ## What comes after an `_id` -/

section After

variable {K : Type*} [LinearOrder K] {server : Server K} {filter : Option (Document → Bool)}

/-- The list of an alias. -/
def TypeAlias.group : TypeAlias → ℕ
  | .null => 0
  | .int | .long | .double | .decimal => 1
  | .string | .symbol => 2
  | .object => 3
  | .binData => 4
  | .objectId => 5
  | .bool => 6
  | .date => 7
  | .timestamp => 8

theorem mem_drop_idTypeOrder (alias_ : TypeAlias) :
    ∀ group < 9, alias_ ∈ (idTypeOrder.drop (group + 1)).flatten ↔ group < alias_.group := by
  cases alias_ <;> decide

/-- An `_id` is put in the list of its type, unless it is a timestamp. -/
theorem idTypeGroup_eq {v : Bson} {alias_ : TypeAlias} (typed : v.typeAlias = some alias_)
    (other : ¬ v.IsTimestamp) : idTypeGroup v = alias_.group := by
  cases v with
  | timestamp n => exact absurd rfl other
  | array items => cases typed
  | wrapper text => cases typed
  | _ =>
    obtain rfl := Option.some.inj typed
    simp [idTypeGroup, Bson.instanceOf, Bson.typeOf, TypeAlias.group]

/-- A timestamp is taken for a number, by the class that it extends. -/
theorem idTypeGroup_timestamp {v : Bson} (stamp : v.IsTimestamp) : idTypeGroup v = 1 := by
  cases v with
  | timestamp n => simp [idTypeGroup, Bson.instanceOf]
  | _ => cases stamp

/-- The lists are in the order of the types; arrays are left out. -/
theorem bracket_eq {v : Bson} {alias_ : TypeAlias} (typed : v.typeAlias = some alias_) :
    v.bracket = alias_.group + if 3 < alias_.group then 1 else 0 := by
  cases v <;> cases typed <;> rfl

/-- Types that are asked for by name sort later, and every type that does is asked for. -/
theorem mem_later {last v : Bson} (isLast : last.IsId) (isId : v.IsId) (other : ¬ last.IsTimestamp) :
    v.typeAlias.any (· ∈ (idTypeOrder.drop (idTypeGroup last + 1)).flatten) = true ↔
      last.bracket < v.bracket := by
  obtain ⟨a, first⟩ := Option.isSome_iff_exists.mp isLast
  obtain ⟨b, second⟩ := Option.isSome_iff_exists.mp isId
  have few : a.group < 9 := by cases a <;> decide
  rw [idTypeGroup_eq first other, second, bracket_eq first, bracket_eq second, Option.any_some,
    decide_eq_true_eq, mem_drop_idTypeOrder b a.group few]
  split <;> split <;> omega

theorem accepts_afterId (last : Bson) (d : Document) :
    server.accepts filter (afterId last) d =
      (server.isGreater last d.id ||
        d.id.typeAlias.any (· ∈ (idTypeOrder.drop (idTypeGroup last + 1)).flatten)) := by
  simp only [afterId]
  split
  case isTrue some_ => rfl
  case isFalse none_ =>
    rw [not_not] at none_
    simp [none_, Server.accepts]

variable (server filter) in
/-- **Behind an `_id`** that is no timestamp a page takes what sorts later. Behind NaN it takes no
number. -/
theorem accepts_behind {last : Bson} (isLast : last.IsId) (other : ¬ last.IsTimestamp) (d : Document) :
    server.accepts filter (afterId last) d = true ↔
      server.sortKey last < server.place d ∧ (last.isNaN = true → ¬ d.id.IsNumber) := by
  rw [accepts_afterId, Bool.or_eq_true, mem_later isLast d.isId other, Server.isGreater,
    decide_eq_true_eq]
  constructor
  · rintro (⟨same, number, greater⟩ | later)
    · exact ⟨greater, fun nan => absurd nan (by simp [number])⟩
    · refine ⟨server.bracketed _ _ later, fun nan number => ?_⟩
      have first : last.bracket = 1 := Bson.isNumber_of_isNaN nan
      have second : d.id.bracket = 1 := number
      omega
  · rintro ⟨behind, number⟩
    rcases Nat.lt_trichotomy last.bracket d.id.bracket with later | same | earlier
    · exact Or.inr later
    · refine Or.inl ⟨same.symm, ?_, behind⟩
      by_contra nan
      rw [Bool.not_eq_false] at nan
      have first : last.bracket = 1 := Bson.isNumber_of_isNaN nan
      exact number nan (show d.id.bracket = 1 by omega)
    · exact absurd behind (server.bracketed _ _ earlier).asymm

/-- Behind a timestamp a page begins again, with the timestamp's own document at the latest. -/
theorem accepts_timestamp {last : Bson} {d : Document} (behind : last.IsTimestamp)
    (stamp : d.id.IsTimestamp) : server.accepts filter (afterId last) d = true := by
  rw [accepts_afterId, idTypeGroup_timestamp behind, Bool.or_eq_true]
  right
  obtain ⟨id, isId, fields⟩ := d
  cases id with
  | timestamp n => rfl
  | _ => cases stamp

end After

/-! ## Pages -/

section Pages

variable {K : Type*} [LinearOrder K] {server : Server K} {driver : Driver}
  {filter : Option (Document → Bool)} {coll : List Document}

/-- The rows a page is the start of. -/
abbrev ahead (server : Server K) (filter : Option (Document → Bool)) (coll : List Document)
    (cursor : Option Bson) : List Document :=
  server.find filter coll (pageQuery filter cursor)

theorem ahead_start : ahead server filter coll none = wanted server filter coll := by
  cases filter with
  | none => rfl
  | some f => rfl

theorem ahead_behind (distinct : (coll.map server.place).Nodup) (last : Bson) :
    ahead server filter coll (some last) =
      (wanted server filter coll).filter (server.accepts filter (afterId last)) := by
  unfold ahead Server.find wanted
  rw [inOrder_filter distinct, inOrder_filter distinct, List.filter_filter]
  refine List.filter_congr fun d _ => ?_
  cases filter with
  | none => simp [pageQuery]
  | some f => simp [pageQuery, Server.accepts, Bool.and_comm]

/-- One document more than the limit tells that there is another, and is not kept. -/
theorem probe (l : List Document) (limit : ℕ) :
    (limit < (l.take (limit + 1)).length ↔ limit < l.length) ∧
      (if limit < l.length then (l.take (limit + 1)).take limit else l.take (limit + 1)) =
        l.take limit := by
  rw [List.length_take]
  refine ⟨by omega, ?_⟩
  split
  case isTrue longer => rw [List.take_take, Nat.min_eq_left (Nat.le_succ limit)]
  case isFalse short => rw [List.take_of_length_le (by omega), List.take_of_length_le (by omega)]

variable (server driver filter coll) in
theorem browse_eq (cursor : Option Bson) (pageSize : ℕ) :
    browse server driver filter coll cursor pageSize =
      let rest := ahead server filter coll cursor
      let limit := min (max pageSize 1) 1000
      { rows := rest.take limit
        hasMore := decide (limit < rest.length)
        nextCursor :=
          if limit < rest.length then (rest.take limit).getLast?.map fun d => driver.carried d.id
          else none } := by
  simp only [browse, browseFrom, decide_eq_true_eq, probe]

variable (server filter) in
/-- Two documents sort apart. -/
theorem wanted_sorted (distinct : (coll.map server.place).Nodup) :
    (wanted server filter coll).Pairwise fun a b => server.place a < server.place b := by
  have apart : ((wanted server filter coll).map server.place).Nodup :=
    ((List.perm_insertionSort _ _).map _).nodup_iff.mpr
      (distinct.sublist (List.filter_sublist.map server.place))
  exact (pairwise_inOrder _).and (List.pairwise_map.mp apart) |>.imp fun h => lt_of_le_of_ne h.1 h.2

theorem bracket_le {a b : Document} (h : server.place a < server.place b) :
    a.id.bracket ≤ b.id.bracket := by
  by_contra earlier
  exact absurd h (server.bracketed _ _ (Nat.lt_of_not_le earlier)).asymm

/-! ## Where the read goes on -/

variable (server driver) in
/-- The page behind `last` begins with `next`: `last` is no timestamp, it is not NaN with a number to
come, and what its cursor comes back as sorts neither before it nor as late as what is next. -/
structure GoesOn (last next : Document) : Prop where
  other : ¬ last.id.IsTimestamp
  number : ¬ (last.id.isNaN = true ∧ next.id.IsNumber)
  behind : server.place last ≤ server.sortKey (driver.carried last.id)
  before : server.sortKey (driver.carried last.id) < server.place next

variable (server driver) in
/-- …wherever a page ends. -/
def PagesGoOn (limit : ℕ) (l : List Document) : Prop :=
  ∀ front last next rest, l = front ++ last :: next :: rest → limit ∣ front.length + 1 →
    GoesOn server driver last next

theorem pagesGoOn_last {limit : ℕ} {l : List Document} (short : l.length ≤ limit) :
    PagesGoOn server driver limit l := by
  intro front last next rest is ends
  have atLeast := Nat.le_of_dvd (Nat.succ_pos _) ends
  rw [is] at short
  simp only [List.length_append, List.length_cons] at short
  omega

theorem pagesGoOn_cons {limit : ℕ} {init : List Document} {last next : Document}
    {tail : List Document} (page : init.length + 1 = limit) :
    PagesGoOn server driver limit (init ++ last :: next :: tail) ↔
      GoesOn server driver last next ∧ PagesGoOn server driver limit (next :: tail) := by
  constructor
  · intro h
    refine ⟨h init last next tail rfl (page ▸ Nat.dvd_refl _), fun front a b rest is ends => ?_⟩
    refine h (init ++ last :: front) a b rest (by simp [is]) ?_
    have length : (init ++ last :: front).length + 1 = limit + (front.length + 1) := by
      simp only [List.length_append, List.length_cons]
      omega
    rw [length]
    exact Nat.dvd_add (Nat.dvd_refl limit) ends
  · rintro ⟨here, later⟩ front a b rest is ends
    have atLeast := Nat.le_of_dvd (Nat.succ_pos _) ends
    rcases List.append_eq_append_iff.mp is with ⟨more, rfl, split⟩ | ⟨more, rfl, split⟩
    · cases more with
      | nil =>
        obtain ⟨rfl, rfl, rfl⟩ : last = a ∧ next = b ∧ tail = rest := by simpa using split
        exact here
      | cons first front =>
        have split := (List.cons.inj split).2
        refine later front a b rest split ?_
        rw [List.length_append, List.length_cons] at ends
        have length : init.length + (front.length + 1) + 1 = limit + (front.length + 1) := by omega
        rw [length] at ends
        exact (Nat.dvd_add_right (Nat.dvd_refl limit)).mp ends
    · cases more with
      | nil =>
        obtain ⟨rfl, rfl, rfl⟩ : a = last ∧ b = next ∧ rest = tail := by simpa using split
        exact here
      | cons _ _ =>
        simp only [List.length_append, List.length_cons] at page
        omega

theorem ahead_goesOn (distinct : (coll.map server.place).Nodup) (done : List Document)
    {last next : Document} {tail : List Document} (all : wanted server filter coll = done ++ last :: next :: tail)
    (goesOn : GoesOn server driver last next) :
    ahead server filter coll (some (driver.carried last.id)) = next :: tail := by
  have sorted := wanted_sorted server filter distinct
  rw [all] at sorted
  obtain ⟨-, fromLast, before⟩ := List.pairwise_append.mp sorted
  obtain ⟨afterLast, fromNext⟩ := List.pairwise_cons.mp fromLast
  let cursor := driver.carried last.id
  have accepts := fun d => accepts_behind server filter (driver.isId_carried _ last.isId)
    (show ¬ cursor.IsTimestamp from fun stamp =>
      goesOn.other ((driver.bracket_carried last.id).symm.trans stamp)) d
  have front : done.filter (server.accepts filter (afterId cursor)) = [] := by
    refine List.filter_eq_nil_iff.mpr fun d mem taken => ?_
    have early := before d mem last List.mem_cons_self
    exact absurd ((accepts d).mp taken).1 (early.trans_le goesOn.behind).asymm
  have itself : server.accepts filter (afterId cursor) last ≠ true := fun taken =>
    absurd ((accepts last).mp taken).1 goesOn.behind.not_gt
  have behind : (next :: tail).filter (server.accepts filter (afterId cursor)) = next :: tail := by
    refine List.filter_eq_self.mpr fun d mem => (accepts d).mpr ⟨?_, fun nan number => ?_⟩
    · rcases List.mem_cons.mp mem with rfl | mem
      · exact goesOn.before
      · exact goesOn.before.trans ((List.pairwise_cons.mp fromNext).1 d mem)
    rw [driver.isNaN_carried] at nan
    have first : last.id.bracket = 1 := Bson.isNumber_of_isNaN nan
    have other : next.id.bracket ≠ 1 := fun number => goesOn.number ⟨nan, number⟩
    have second := bracket_le (afterLast next List.mem_cons_self)
    have third : next.id.bracket ≤ d.id.bracket := by
      rcases List.mem_cons.mp mem with rfl | mem
      · exact le_rfl
      · exact bracket_le ((List.pairwise_cons.mp fromNext).1 d mem)
    have fourth : d.id.bracket = 1 := number
    omega
  rw [ahead_behind distinct, all, List.filter_append, front, List.filter_cons_of_neg itself, behind]
  rfl

/-- Behind a timestamp, behind NaN where a number follows, and behind a cursor that came back as another
place, the next page begins elsewhere. -/
theorem head_ahead_ne (distinct : (coll.map server.place).Nodup) (done : List Document)
    {last next : Document} {tail : List Document} (all : wanted server filter coll = done ++ last :: next :: tail)
    (stuck : ¬ GoesOn server driver last next) :
    (ahead server filter coll (some (driver.carried last.id))).head? ≠ some next := by
  intro head
  have sorted := wanted_sorted server filter distinct
  have order : server.place last < server.place next := by
    rw [all] at sorted
    exact (List.pairwise_cons.mp (List.pairwise_append.mp sorted).2.1).1 next List.mem_cons_self
  rw [ahead_behind distinct] at head
  let cursor := driver.carried last.id
  -- a page that has `last` once more does not begin with what comes after it
  have again (taken : server.accepts filter (afterId cursor) last = true) : False := by
    obtain ⟨more, found⟩ := List.head?_eq_some_iff.mp head
    have there : last ∈ (wanted server filter coll).filter (server.accepts filter (afterId cursor)) :=
      List.mem_filter.mpr ⟨by simp [all], taken⟩
    have kept := sorted.filter (server.accepts filter (afterId cursor))
    rw [found] at there kept
    rcases List.mem_cons.mp there with rfl | behind
    · exact lt_irrefl _ order
    · exact absurd order ((List.pairwise_cons.mp kept).1 last behind).asymm
  by_cases stamp : last.id.IsTimestamp
  · exact again (accepts_timestamp ((driver.bracket_carried last.id).trans stamp) stamp)
  · have other : ¬ cursor.IsTimestamp := fun stamp' =>
      stamp ((driver.bracket_carried last.id).symm.trans stamp')
    have isId := driver.isId_carried _ last.isId
    have taken := (List.mem_filter.mp (List.mem_of_mem_head? head)).2
    obtain ⟨before, number⟩ := (accepts_behind server filter isId other next).mp taken
    rw [driver.isNaN_carried] at number
    have early : server.sortKey cursor < server.place last := by
      by_contra behind
      exact stuck ⟨stamp, fun both => number both.1 both.2, not_lt.mp behind, before⟩
    refine again ((accepts_behind server filter isId other last).mpr ⟨early, fun nan _ => ?_⟩)
    -- NaN comes back to its own place
    have last_ : last.id.isNaN = true := (driver.isNaN_carried last.id).symm.trans nan
    exact absurd (server.nan _ _ nan last_) early.ne

/-- A read begins with what its first page begins with. -/
theorem head_readPages {pageSize fuel : ℕ} {cursor : Option Bson} {out : List Document}
    (read : readPages server driver filter coll pageSize fuel cursor = some out) :
    out.head? = (ahead server filter coll cursor).head? := by
  cases fuel with
  | zero => cases read
  | succ fuel =>
    have pos : min (max pageSize 1) 1000 ≠ 0 := by omega
    rw [readPages, browse_eq] at read
    generalize min (max pageSize 1) 1000 = limit at pos read
    have first : ((ahead server filter coll cursor).take limit).head? =
        (ahead server filter coll cursor).head? := by
      rw [List.head?_take, if_neg pos]
    dsimp only at read
    split at read
    · obtain rfl := Option.some.inj read
      exact first
    case _ next more =>
      obtain ⟨later, -, rfl⟩ := Option.map_eq_some_iff.mp read
      have some_ : (ahead server filter coll cursor).take limit ≠ [] := by
        intro empty
        rw [empty] at more
        simp at more
      rw [List.head?_append_of_ne_nil _ some_, first]

/-- What is left is read exactly where the pages go on. -/
theorem readPages_iff (distinct : (coll.map server.place).Nodup) {pageSize : ℕ}
    (done : List Document) {rest : List Document} {cursor : Option Bson}
    (all : wanted server filter coll = done ++ rest) (here : ahead server filter coll cursor = rest) :
    (∃ fuel, readPages server driver filter coll pageSize fuel cursor = some rest) ↔
      PagesGoOn server driver (min (max pageSize 1) 1000) rest := by
  -- on what is left, a page at a time
  induction hn : rest.length using Nat.strong_induction_on generalizing done rest cursor with
  | _ n ih =>
    obtain ⟨limit, is⟩ : ∃ limit, min (max pageSize 1) 1000 = limit + 1 :=
      ⟨min (max pageSize 1) 1000 - 1, by omega⟩
    rw [is]
    have page := browse_eq server driver filter coll cursor pageSize
    rw [here, is] at page
    rcases Nat.lt_or_ge (limit + 1) rest.length with longer | short
    · obtain ⟨last, next, tail, drop⟩ : ∃ last next tail, rest.drop limit = last :: next :: tail := by
        match h : rest.drop limit with
        | [] | [_] =>
          have := congrArg List.length h
          simp only [List.length_drop, List.length_nil, List.length_cons] at this
          omega
        | last :: next :: tail => exact ⟨last, next, tail, rfl⟩
      obtain ⟨init, short, rfl⟩ : ∃ init, init.length + 1 = limit + 1 ∧ rest = init ++ last :: next :: tail :=
        ⟨rest.take limit, by rw [List.length_take]; omega, by rw [← drop, List.take_append_drop]⟩
      have rows : (init ++ last :: next :: tail).take (limit + 1) = init ++ [last] := by
        rw [show init ++ last :: next :: tail = (init ++ [last]) ++ next :: tail by simp]
        exact List.take_left' (by simpa using short)
      rw [pagesGoOn_cons short]
      have step : ∀ fuel, readPages server driver filter coll pageSize (fuel + 1) cursor =
          (readPages server driver filter coll pageSize fuel
            (some (driver.carried last.id))).map (init ++ [last] ++ ·) := by
        intro fuel
        rw [readPages, page]
        simp only [if_pos longer, rows, List.getLast?_append, List.getLast?_singleton, Option.some_or,
          Option.map_some]
      have next_ : (∃ fuel, readPages server driver filter coll pageSize fuel cursor =
            some (init ++ last :: next :: tail)) ↔
          ∃ fuel, readPages server driver filter coll pageSize fuel
            (some (driver.carried last.id)) = some (next :: tail) := by
        have whole : init ++ last :: next :: tail = init ++ [last] ++ next :: tail := by simp
        constructor
        · rintro ⟨fuel, read⟩
          cases fuel with
          | zero => cases read
          | succ fuel =>
            rw [step, whole] at read
            obtain ⟨later, read, same⟩ := Option.map_eq_some_iff.mp read
            exact ⟨fuel, (List.append_cancel_left same) ▸ read⟩
        · rintro ⟨fuel, read⟩
          exact ⟨fuel + 1, by rw [step, read, whole]; rfl⟩
      rw [next_]
      by_cases goesOn : GoesOn server driver last next
      · have smaller : (next :: tail).length < n := by
          rw [← hn]
          simp only [List.length_append, List.length_cons]
          omega
        have found := ahead_goesOn distinct (done ++ init) (by simpa using all) goesOn
        have left : wanted server filter coll = (done ++ init ++ [last]) ++ next :: tail := by simpa using all
        rw [ih _ smaller _ left found rfl, is]
        exact ⟨fun h => ⟨goesOn, h⟩, fun h => h.2⟩
      · have elsewhere := head_ahead_ne distinct (done ++ init) (by simpa using all) goesOn
        constructor
        · rintro ⟨fuel, read⟩
          exact absurd (head_readPages read).symm elsewhere
        · rintro ⟨h, -⟩
          exact absurd h goesOn
    · refine ⟨fun _ => pagesGoOn_last short, fun _ => ⟨1, ?_⟩⟩
      rw [readPages, page]
      simp only [if_neg (Nat.not_lt.mpr short), List.take_of_length_le short]

end Pages

namespace Stamps

/-- By the types, and by the value where it is an integer. -/
def value : Bson → ℤ
  | .int32 n | .long n | .date n => n
  | .timestamp n => n
  | _ => 0

def server : Server (ℕ ×ₗ ℤ) where
  sortKey v := toLex (v.bracket, value v)
  bracketed _ _ h := Prod.Lex.toLex_lt_toLex.mpr (.inl h)
  nan a b first second := by
    have none_ : ∀ v : Bson, v.isNaN = true → toLex (v.bracket, value v) = toLex (1, 0) := by
      intro v nan
      cases v <;> first | rfl | cases nan
    rw [none_ a first, none_ b second]

/-- An integer of 32 bits is handed over as a number, whatever its width was, and written as an
`Int32`. -/
def driver : Driver where
  carried
    | .long n => if -2 ^ 31 ≤ n ∧ n < 2 ^ 31 then .int32 n else .long n
    | v => v
  isId_carried v isId := by
    cases v with
    | long n => simp only; split <;> rfl
    | _ => exact isId
  bracket_carried v := by
    cases v with
    | long n => simp only; split <;> rfl
    | _ => rfl
  isNaN_carried v := by
    cases v with
    | long n => simp only; split <;> rfl
    | _ => rfl

def document (id : Bson) (isId : id.IsId) : Document := { id := id, isId := isId, fields := .nil }

/-- A number, a text and a time. -/
def mixed : List Document :=
  [document (.date 5) rfl, document (.long 7) rfl, document (.string "a") rfl, document (.int32 3) rfl]

def stamps : List Document := [document (.timestamp 1) rfl, document (.timestamp 2) rfl]

theorem page_again (fuel : ℕ) :
    readPages server driver none stamps 1 (fuel + 1) (some (.timestamp 1)) =
      (readPages server driver none stamps 1 fuel (some (.timestamp 1))).map (stamps.take 1 ++ ·) :=
  rfl

end Stamps

end Syncle.Mongo
