import Syncle.Lib.Filling
import Syncle.Shape.Target

/-!
# A key for each row (`redis-target.ts`)

The template of a Redis target is a pattern whose variables are the key columns, and a row's key is
the pattern filled in with the texts of the row's values. `renderRedisKey` writes them as they are:
a text may have in it what the template has between two columns. So two rows of different texts have
one key if, column by column, what one text has more than the other comes in the other row by what the
template has next (`differentKeys_iff`).
-/

namespace Syncle.Shape

open Js Lib

/-! ## The template as a pattern -/

def Piece.slot : Piece → Slot Char String
  | .char c => .letter c
  | .token name => .var name

def keyPattern (template : String) : List (Slot Char String) := (keyPieces template).map Piece.slot

/-- Has the row a value for a column of the key? -/
def hasKeyText (rt : RedisRuntime) (row : Row) (column : String) : Bool :=
  (keyWord rt (read row column)).isSome

/-- The text a row has for a column of the key, with nothing for a value that has none. -/
def keyText (rt : RedisRuntime) (row : Row) (column : String) : List Char :=
  ((keyWord rt (read row column)).getD "").toList

variable {rt : RedisRuntime} {template : String} {row row' : Row}

theorem mem_tokens {pieces : List Piece} {name : String} :
    Slot.var name ∈ pieces.map Piece.slot ↔ Piece.token name ∈ pieces := by
  rw [List.mem_map]
  constructor
  · rintro ⟨piece, mem, is⟩
    cases piece with
    | char c => cases is
    | token name' =>
      cases is
      exact mem
  · exact fun mem => ⟨_, mem, rfl⟩

theorem mem_keyTokens {name : String} :
    name ∈ keyTokens template ↔ Slot.var name ∈ keyPattern template := by
  rw [keyPattern, mem_tokens, keyTokens, List.mem_filterMap]
  constructor
  · rintro ⟨piece, mem, is⟩
    cases piece with
    | char c => cases is
    | token name' =>
      obtain rfl := Option.some.inj is
      exact mem
  · exact fun mem => ⟨_, mem, rfl⟩

theorem renderKeyPiece_eq_some {piece : Piece} {part : String} :
    renderKeyPiece rt row piece = some part ↔
      (∀ name, piece = .token name → hasKeyText rt row name = true) ∧
        part.toList = fill (keyText rt row) [piece.slot] := by
  cases piece with
  | char c =>
    have one : (String.singleton c).toList = fill (keyText rt row) [.letter c] := by simp
    constructor
    · intro is
      obtain rfl := Option.some.inj is
      exact ⟨fun name is => (by cases is), one⟩
    · rintro ⟨-, is⟩
      exact congrArg some (String.toList_inj.mp (one.trans is.symm))
  | token name =>
    have word : fill (keyText rt row) [.var name] = keyText rt row name := by simp
    have only : (∀ c, Piece.token name = .token c → hasKeyText rt row c = true) ↔
        hasKeyText rt row name = true := by
      constructor
      · exact fun all => all name rfl
      · intro here c is
        cases is
        exact here
    rw [renderKeyPiece, Piece.slot, word, only, keyText, hasKeyText]
    cases keyWord rt (read row name) with
    | none => simp
    | some text =>
      constructor
      · intro is
        obtain rfl := Option.some.inj is
        exact ⟨rfl, rfl⟩
      · rintro ⟨-, is⟩
        exact congrArg some (String.toList_inj.mp is).symm

theorem render_cons {piece : Piece} {l : List Piece} :
    ((piece :: l).mapM (renderKeyPiece rt row)).map String.join =
      (renderKeyPiece rt row piece).bind fun part =>
        ((l.mapM (renderKeyPiece rt row)).map String.join).map (part ++ ·) := by
  rw [List.mapM_cons]
  cases renderKeyPiece rt row piece with
  | none => rfl
  | some part =>
    cases l.mapM (renderKeyPiece rt row) with
    | none => rfl
    | some rest => exact congrArg some String.join_cons

/-- **A row's key is the template filled in**, where there is a text for each of its columns. -/
theorem renderRedisKey_eq_some {key : String} : renderRedisKey rt template row = some key ↔
    (∀ c ∈ keyTokens template, hasKeyText rt row c = true) ∧
      key.toList = fill (keyText rt row) (keyPattern template) := by
  have pieces : ∀ (l : List Piece) (key : String),
      (l.mapM (renderKeyPiece rt row)).map String.join = some key ↔
        (∀ c, .token c ∈ l → hasKeyText rt row c = true) ∧
          key.toList = fill (keyText rt row) (l.map Piece.slot) := by
    intro l
    induction l with
    | nil =>
      intro key
      constructor
      · intro is
        obtain rfl := Option.some.inj is
        exact ⟨fun c mem => (by cases mem), rfl⟩
      · rintro ⟨-, is⟩
        exact congrArg some (String.toList_inj.mp is.symm)
    | cons piece l ih =>
      intro key
      have spelled : fill (keyText rt row) ((piece :: l).map Piece.slot) =
          fill (keyText rt row) [piece.slot] ++ fill (keyText rt row) (l.map Piece.slot) := by
        rw [List.map_cons, ← List.singleton_append, fill_append]
      rw [render_cons, Option.bind_eq_some_iff, spelled]
      constructor
      · rintro ⟨part, first, made⟩
        obtain ⟨rest, others, rfl⟩ := Option.map_eq_some_iff.mp made
        obtain ⟨here, first⟩ := renderKeyPiece_eq_some.mp first
        obtain ⟨there, others⟩ := (ih rest).mp others
        refine ⟨fun c mem => ?_, by rw [String.toList_append, first, others]⟩
        rcases List.mem_cons.mp mem with is | mem
        · exact here c is.symm
        · exact there c mem
      · rintro ⟨some, is⟩
        refine ⟨_, renderKeyPiece_eq_some.mpr ⟨fun c is => some c ?_, String.toList_ofList⟩,
          Option.map_eq_some_iff.mpr ⟨_, (ih _).mpr ⟨fun c mem => some c ?_, String.toList_ofList⟩, ?_⟩⟩
        · rw [is]
          exact List.mem_cons_self
        · exact List.mem_cons_of_mem _ mem
        · rw [← String.toList_inj, is, String.toList_append, String.toList_ofList,
            String.toList_ofList]
  rw [renderRedisKey, pieces]
  simp only [keyPattern, mem_keyTokens, mem_tokens]

theorem RedisTarget.mem_columns {redis : RedisTarget} (accepted : redis.accepted = true)
    {c : String} : c ∈ redisKeyColumns redis.keyTemplate ↔ c ∈ keyTokens redis.keyTemplate := by
  simp only [RedisTarget.accepted, Bool.and_eq_true, Bool.not_eq_true', List.contains_eq_mem,
    decide_eq_false_iff_not] at accepted
  simp only [redisKeyColumns, List.mem_eraseDups, List.mem_filter, decide_eq_true_eq,
    and_iff_left_iff_imp]
  rintro mem rfl
  exact accepted.2 mem

/-! ## Rows and keys -/

/-- The rows have two keys, where they have any. -/
def DifferentKeys (rt : RedisRuntime) (template : String) (row row' : Row) : Prop :=
  ∀ key key', renderRedisKey rt template row = some key →
    renderRedisKey rt template row' = some key' → key ≠ key'

/-- The rows' texts tell them apart: one of the rows has no value for a column of the key, and so no
key, or they do not keep step along the template. -/
def ToldApart (rt : RedisRuntime) (template : String) (row row' : Row) : Prop :=
  (∃ c ∈ redisKeyColumns template, ¬ (hasKeyText rt row c = true ∧ hasKeyText rt row' c = true)) ∨
    keepStep (keyText rt row) (keyText rt row') [] (keyPattern template) = false

/-- The rows differ in a column the target is keyed on. -/
def DatabaseTarget.Differ (target : DatabaseTarget) (row row' : Row) : Prop :=
  ∃ c ∈ target.keyColumns, read row c ≠ read row' c

section Accepted

variable {redis : RedisTarget} (accepted : redis.accepted = true)

include accepted

theorem RedisTarget.toldApart_iff :
    DifferentKeys rt redis.keyTemplate row row' ↔ ToldApart rt redis.keyTemplate row row' := by
  have columns (c : String) := RedisTarget.mem_columns accepted (c := c)
  constructor
  · intro different
    by_cases blank : ∃ c ∈ redisKeyColumns redis.keyTemplate,
        ¬ (hasKeyText rt row c = true ∧ hasKeyText rt row' c = true)
    · exact .inl blank
    · have texts : ∀ c ∈ keyTokens redis.keyTemplate,
          hasKeyText rt row c = true ∧ hasKeyText rt row' c = true :=
        fun c mem => not_not.mp fun none => blank ⟨c, (columns c).mpr mem, none⟩
      right
      rw [Bool.eq_false_iff, ne_eq, keepStep_iff, List.nil_append]
      intro same
      refine different (.ofList (fill (keyText rt row) _)) _
        (renderRedisKey_eq_some.mpr ⟨fun c mem => (texts c mem).1, String.toList_ofList⟩)
        (renderRedisKey_eq_some.mpr ⟨fun c mem => (texts c mem).2, ?_⟩) rfl
      rw [String.toList_ofList, same]
  · intro told key key' is is'
    obtain ⟨some, is⟩ := renderRedisKey_eq_some.mp is
    obtain ⟨some', is'⟩ := renderRedisKey_eq_some.mp is'
    rintro rfl
    rcases told with ⟨c, mem, none⟩ | apart
    · exact none ⟨some c ((columns c).mp mem), some' c ((columns c).mp mem)⟩
    · rw [Bool.eq_false_iff, ne_eq, keepStep_iff, List.nil_append] at apart
      exact apart (is.symm.trans is')

/-- In a template of one column, texts that differ tell rows apart. -/
theorem RedisTarget.toldApart_of_one {c : String}
    (one : redisKeyColumns redis.keyTemplate = [c]) (differ : keyText rt row c ≠ keyText rt row' c) :
    ToldApart rt redis.keyTemplate row row' := by
  have only : ∀ v, .var v ∈ keyPattern redis.keyTemplate → v = c := by
    intro v mem
    have column := (RedisTarget.mem_columns accepted).mpr (mem_keyTokens.mpr mem)
    rw [one] at column
    exact List.mem_singleton.mp column
  have mem : c ∈ redisKeyColumns redis.keyTemplate := by
    rw [one]
    exact List.mem_singleton_self c
  have var := mem_keyTokens.mp ((RedisTarget.mem_columns accepted).mp mem)
  right
  rw [Bool.eq_false_iff, ne_eq, keepStep_iff, List.nil_append]
  intro together
  -- what else the rows hold is in no key
  have same : fill (Function.update (keyText rt row') c (keyText rt row c))
      (keyPattern redis.keyTemplate) = fill (keyText rt row') (keyPattern redis.keyTemplate) := by
    rw [← together]
    refine fill_congr fun v mem => ?_
    rw [only v mem, Function.update_self]
  have equal := fill_inj_of_agree (fun u apart => Function.update_of_ne apart _ _) var same
  rw [Function.update_self] at equal
  exact differ equal

/-- Where each column of the template has a letter behind it that no text has, texts that differ tell
rows apart. -/
theorem RedisTarget.toldApart_of_closed {letters : Char → Prop}
    (closed : Closed letters (keyPattern redis.keyTemplate))
    (free : ∀ c ∈ redisKeyColumns redis.keyTemplate,
      (∀ a ∈ keyText rt row c, ¬ letters a) ∧ ∀ a ∈ keyText rt row' c, ¬ letters a)
    (differ : ∃ c ∈ redisKeyColumns redis.keyTemplate, keyText rt row c ≠ keyText rt row' c) :
    ToldApart rt redis.keyTemplate row row' := by
  have column {v : String} (mem : .var v ∈ keyPattern redis.keyTemplate) :=
    (RedisTarget.mem_columns accepted).mpr (mem_keyTokens.mpr mem)
  obtain ⟨c, mem, differ⟩ := differ
  right
  rw [Bool.eq_false_iff, ne_eq, keepStep_iff, List.nil_append]
  intro together
  exact differ (agree_of_closed closed (fun v mem => free v (column mem)) together c
    (mem_keyTokens.mp ((RedisTarget.mem_columns accepted).mp mem)))

end Accepted

/-- A row of texts. -/
def textRow (s : String → List Char) : Row := fun c => some (.string (.ofList (s c)))

theorem keyWord_textRow (rt : RedisRuntime) (s : String → List Char) (c : String) :
    keyWord rt (read (textRow s) c) = if s c = [] then none else some (.ofList (s c)) := by
  simp [keyWord, textRow, read, redisText]

theorem keyText_textRow (rt : RedisRuntime) (s : String → List Char) :
    keyText rt (textRow s) = s := by
  funext c
  rw [keyText, keyWord_textRow]
  by_cases none : s c = [] <;> simp [none]

theorem hasKeyText_textRow (rt : RedisRuntime) {s : String → List Char} {c : String}
    (some : s c ≠ []) : hasKeyText rt (textRow s) c = true := by
  rw [hasKeyText, keyWord_textRow, if_neg some]
  rfl

/-- A template of two columns, one of them named once, has two rows of one key. -/
theorem RedisTarget.exists_same_key (rt : RedisRuntime) {redis : RedisTarget} {u v : String} (apart : u ≠ v)
    (once : (keyTokens redis.keyTemplate).count v = 1) :
    ∃ row row' key, read row u ≠ read row' u ∧
      renderRedisKey rt redis.keyTemplate row = some key ∧
      renderRedisKey rt redis.keyTemplate row' = some key := by
  have mem : Piece.token v ∈ keyPieces redis.keyTemplate := by
    rw [← mem_tokens, ← keyPattern, ← mem_keyTokens]
    exact List.count_pos_iff.mp (by omega)
  obtain ⟨front, back, cut⟩ := List.append_of_mem mem
  have pattern : keyPattern redis.keyTemplate =
      front.map Piece.slot ++ .var v :: back.map Piece.slot := by
    rw [keyPattern, cut, List.map_append, List.map_cons]
    rfl
  have off : Piece.token v ∉ front ∧ Piece.token v ∉ back := by
    simp only [keyTokens, cut, List.filterMap_append, List.filterMap_cons, List.count_append,
      List.count_cons_self] at once
    obtain ⟨none, none'⟩ := Nat.add_eq_zero_iff.mp (Nat.succ.inj once)
    exact ⟨fun there => List.count_eq_zero.mp none (List.mem_filterMap.mpr ⟨_, there, rfl⟩),
      fun there => List.count_eq_zero.mp none' (List.mem_filterMap.mpr ⟨_, there, rfl⟩)⟩
  obtain ⟨s, s', some, some', differ, same⟩ := exists_same_fill (c := fun _ => ['x'])
    (fun _ => List.cons_ne_nil _ _) apart (mem_tokens.not.mpr off.1) (mem_tokens.not.mpr off.2)
  refine ⟨textRow s, textRow s', .ofList (fill s (keyPattern redis.keyTemplate)), ?_, ?_, ?_⟩
  · intro equal
    apply differ
    rw [← keyText_textRow rt s, ← keyText_textRow rt s', keyText, equal]
    rfl
  · rw [renderRedisKey_eq_some, keyText_textRow]
    exact ⟨fun c _ => hasKeyText_textRow rt (some c), String.toList_ofList⟩
  · rw [renderRedisKey_eq_some, keyText_textRow, pattern, same]
    exact ⟨fun c _ => hasKeyText_textRow rt (some' c), String.toList_ofList⟩

namespace SharedKey

/-- For rows of texts and whole numbers. -/
def runtime : RedisRuntime where
  numberText := wholeText
  jsonText _ := ""
  numberOf _ := .nan
  dateOf _ := none
  dateAt _ := none
  parseJson _ := none
  trim s := s
  toLowerCase s := s
  toUpperCase s := s
  slice s _ := s
  hash s := s
  safeJson _ := ""
  hex _ := ""

/-- A hash for each row of two columns. -/
def target : DatabaseTarget where
  connectionId := "cache"
  database := none
  schema := none
  table := "keys"
  writeMode := .upsert
  keyColumns := ["tenant", "id"]
  mapping := []
  onDelete := .delete
  softDelete := none
  redis := some { keyTemplate := "{{tenant}}:{{id}}" }

def rowOf (tenant id : String) : Row := fun c =>
  if c = "tenant" then some (.string tenant) else if c = "id" then some (.string id) else none

end SharedKey

end Syncle.Shape
