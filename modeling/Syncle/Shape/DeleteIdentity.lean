import Mathlib.Data.List.Forall2
import Syncle.Shape.Delivery

/-!
# A delete finds the row its insert wrote

A delete's image goes through the same steps as the row did, except that nothing is computed for it
(`keysOnly`). So long as no step computes a column that a key is made of, the two agree on every
such column the delete still has a value for, step by step, and what they disagree on the delete
cannot use: it fails and says which column it lacks.

A `set` on such a column breaks it. The row is stored under the computed value and its delete looks
for the one before (`not_findsItsRow`).
-/

namespace Syncle.Shape

open Js Lib

/-- A delete's image of a row: the whole of it, or some of its columns. -/
def Image (image row : Row) : Prop := ∀ c, image c = none ∨ image c = row c

/-- The columns a name of the target is filled from. -/
def sourcesOf (mapping : List ColumnMapping) (name : String) : List String :=
  if mapping.isEmpty then [name] else (mapping.filter fun m => m.target = name).map (·.source)

/-- The names an identity is read from. -/
def DatabaseTarget.keyNames (target : DatabaseTarget) : List String :=
  match target.redis with
  | some redis => keyTokens redis.keyTemplate
  | none => target.keyColumns

/-- The columns of a shaped row that an identity is made of. -/
def DatabaseTarget.keyedOn (target : DatabaseTarget) : List String :=
  target.keyNames.flatMap (sourcesOf target.mapping)

/-- A step that writes what no delete is given. -/
def ColumnTransform.invents (t : ColumnTransform) : Bool :=
  t.computes && !forbidden.contains t.column

/-- No key column the image carries is computed, and none it lacks is the name of something every
object has. -/
def Delivery.Plain (d : Delivery) (image : Row) : Prop :=
  ∀ c ∈ d.target.keyedOn,
    (∀ t ∈ d.transforms, t.invents → t.column = c → image c = none) ∧
      (image c = none → c ∉ objectPrototype)

/-- A delete removes exactly what the rows were stored under, or fails, or is not asked for. -/
def Delivery.FindsItsRow (rt : RedisRuntime) (d : Delivery) (writtenAt deletedAt : String)
    (rows images : List Row) : Prop :=
  ∀ written, d.write rt writtenAt rows = .ok written →
    match d.delete rt deletedAt images with
    | .error _ => True
    | .ok (.notApplied _) => d.target.keyColumns = [] ∨ d.target.onDelete = .ignore
    | .ok (.removed removed) => removed = written

/-! ## One column, step by step -/

/-- What a delete has of a column: a value to go by, which the row has too, or no value. -/
def Left (d i : Option Value) : Prop := ∃ v, d = some v ∧ (isBlank v = true ∨ i = some v)

/-- A delete that lacks a column goes on lacking it. -/
theorem applyTransform_absent {rt : Runtime} {ctx : Context} {s s' : Shaped} {t : ColumnTransform}
    (keysOnly : ctx.keysOnly = true) (hown : s.row t.column = none)
    (h : applyTransform rt ctx s t = some s') : s'.row t.column = none := by
  rw [applyTransform_missing hown (Or.inr keysOnly)] at h
  rw [← Option.some.inj h]
  exact hown

/-- …and one that has no value goes on having none. -/
theorem applyTransform_blank {rt : Runtime} {ctx : Context} {s s' : Shaped} {t : ColumnTransform}
    {v : Value} (keysOnly : ctx.keysOnly = true) (blank : isBlank v = true)
    (hown : s.row t.column = some v) (h : applyTransform rt ctx s t = some s') :
    s'.row t.column = some v := by
  have cases : v = .null ∨ v = .undefined := by
    cases v <;> simp_all [isBlank]
  rcases cases with rfl | rfl <;>
    cases t <;>
      simp_all [applyTransform, ColumnTransform.column, mask, applyCast, cast] <;>
        (obtain rfl := h; exact assign_own _ hown)

theorem applyCast_same {rt : Runtime} {s s' u u' : Shaped} {column : String} {into : CastTo}
    {onError : CastError} {v : Value} (hs : s.row column = some v) (hu : u.row column = some v)
    (h : applyCast rt s column into onError v = some s')
    (k : applyCast rt u column into onError v = some u') :
    ∃ w, s'.row column = some w ∧ u'.row column = some w := by
  obtain ⟨result, hresult, h⟩ := Option.bind_eq_some_iff.mp h
  obtain ⟨result', hresult', k⟩ := Option.bind_eq_some_iff.mp k
  obtain rfl : result = result' := Option.some.inj (hresult.symm.trans hresult')
  cases result with
  | some cast =>
    obtain rfl := Option.some.inj h
    obtain rfl := Option.some.inj k
    exact ⟨cast, assign_own cast hs, assign_own cast hu⟩
  | none =>
    obtain ⟨problem, _, rfl⟩ := Option.map_eq_some_iff.mp h
    obtain ⟨_, _, rfl⟩ := Option.map_eq_some_iff.mp k
    cases onError with
    | fail => exact ⟨v, hs, hu⟩
    | null => exact ⟨.null, assign_own .null hs, assign_own .null hu⟩
    | keep => exact ⟨v, hs, hu⟩

/-- Two rows with the same value in a column come out of a step with the same. -/
theorem applyTransform_same {rt : Runtime} {ci cd : Context} {si si' sd sd' : Shaped}
    {t : ColumnTransform} {v : Value} (keysOnly : cd.keysOnly = true) (plain : t.invents = false)
    (given : v ≠ .null ∧ v ≠ .undefined) (hd : sd.row t.column = some v)
    (hi : si.row t.column = some v) (h : applyTransform rt cd sd t = some sd')
    (k : applyTransform rt ci si t = some si') :
    ∃ w, sd'.row t.column = some w ∧ si'.row t.column = some w := by
  by_cases sent : v = .unchanged
  · subst sent
    rw [applyTransform_unsent hd] at h
    rw [applyTransform_unsent hi] at k
    rw [← Option.some.inj h, ← Option.some.inj k]
    exact ⟨_, hd, hi⟩
  cases t with
  | mask column m =>
    simp only [ColumnTransform.column] at hd hi ⊢
    rw [applyTransform_mask m hd sent] at h
    rw [applyTransform_mask m hi sent] at k
    obtain ⟨w, hw, rfl⟩ := Option.map_eq_some_iff.mp h
    obtain ⟨w', hw', rfl⟩ := Option.map_eq_some_iff.mp k
    obtain rfl : w = w' := Option.some.inj (hw.symm.trans hw')
    exact ⟨w, assign_own w hd, assign_own w hi⟩
  | cast column into onError =>
    simp only [ColumnTransform.column] at hd hi ⊢
    rw [applyTransform_cast into onError hd sent] at h
    rw [applyTransform_cast into onError hi sent] at k
    exact applyCast_same hd hi h k
  | text column op =>
    simp only [ColumnTransform.column] at hd hi ⊢
    by_cases string : ∃ s, v = .string s
    · obtain ⟨s, rfl⟩ := string
      rw [applyTransform_text op hd] at h
      rw [applyTransform_text op hi] at k
      obtain rfl := Option.some.inj h
      obtain rfl := Option.some.inj k
      exact ⟨_, assign_own _ hd, assign_own _ hi⟩
    · rw [applyTransform_text_other op hd (not_exists.mp string)] at h
      rw [applyTransform_text_other op hi (not_exists.mp string)] at k
      rw [← Option.some.inj h, ← Option.some.inj k]
      exact ⟨v, hd, hi⟩
  | default column value =>
    simp only [ColumnTransform.column] at hd hi ⊢
    rw [applyTransform_default value hd given] at h
    rw [applyTransform_default value hi given] at k
    rw [← Option.some.inj h, ← Option.some.inj k]
    exact ⟨v, hd, hi⟩
  | set column template =>
    simp only [ColumnTransform.column] at hd hi ⊢
    have skipped : forbidden.contains column = true := by
      simpa [ColumnTransform.invents, ColumnTransform.computes, ColumnTransform.column] using plain
    have sentIn : ∀ {s : Shaped}, s.row column = some v → s.row column ≠ some .unchanged := by
      intro s hs
      simpa [hs] using sent
    rw [applyTransform_set template (sentIn hd), if_pos (by simp [keysOnly])] at h
    rw [applyTransform_set template (sentIn hi), if_pos (by rw [skipped, Bool.or_true])] at k
    rw [← Option.some.inj h, ← Option.some.inj k]
    exact ⟨v, hd, hi⟩

/-- A step keeps a delete's column in line with the row's. -/
theorem applyTransform_left {rt : Runtime} {ci cd : Context} {si si' sd sd' : Shaped}
    {t : ColumnTransform} {c : String} (keysOnly : cd.keysOnly = true)
    (plain : t.column = c → t.invents = false) (left : Left (sd.row c) (si.row c))
    (h : applyTransform rt cd sd t = some sd') (k : applyTransform rt ci si t = some si') :
    Left (sd'.row c) (si'.row c) := by
  by_cases own : t.column = c
  · subst own
    obtain ⟨v, hd, same⟩ := left
    by_cases blank : isBlank v = true
    · exact ⟨v, applyTransform_blank keysOnly blank hd h, Or.inl blank⟩
    · have given : v ≠ .null ∧ v ≠ .undefined := by
        constructor <;> rintro rfl <;> exact blank rfl
      have hi := same.resolve_left blank
      obtain ⟨w, hw, hw'⟩ := applyTransform_same keysOnly (plain rfl) given hd hi h k
      exact ⟨w, hw, Or.inr hw'⟩
  · rw [applyTransform_other (Ne.symm own) h, applyTransform_other (Ne.symm own) k]
    exact left

/-- …and so do all of them. -/
theorem applyColumnTransforms_left {rt : Runtime} {ci cd : Context} {row image : Row}
    {transforms : List ColumnTransform} {written deleted : Shaped} {c : String}
    (keysOnly : cd.keysOnly = true) (plain : ∀ t ∈ transforms, t.column = c → t.invents = false)
    (left : Left (image c) (row c))
    (hd : applyColumnTransforms rt cd image transforms = some deleted)
    (hi : applyColumnTransforms rt ci row transforms = some written) :
    Left (deleted.row c) (written.row c) := by
  refine foldlM_related (R := fun sd si => Left (sd.row c) (si.row c)) ?_ left hd hi
  intro t ht sd sd' si si' left h k
  exact applyTransform_left keysOnly (plain t ht) left h k

/-- A delete's image never gets a column it came without. -/
theorem applyColumnTransforms_absent {rt : Runtime} {ctx : Context} {image : Row}
    {transforms : List ColumnTransform} {deleted : Shaped} {c : String}
    (keysOnly : ctx.keysOnly = true) (absent : image c = none)
    (h : applyColumnTransforms rt ctx image transforms = some deleted) :
    deleted.row c = none := by
  refine foldlM_keeps (I := fun s => s.row c = none) ?_ absent h
  intro t _ s s' none step
  by_cases own : t.column = c
  · subst own
    exact applyTransform_absent keysOnly none step
  · rw [applyTransform_other (Ne.symm own) step]
    exact none

/-! ## Converted -/

theorem convertColumn_skip {row out : Row} {conv : Converter}
    (none : isBlank (read row conv.name) = true ∨ read row conv.name = .unchanged) :
    convertColumn row out conv = some out := by
  cases hv : read row conv.name <;> simp_all [convertColumn, isBlank]

theorem convertColumn_value {row out : Row} {conv : Converter}
    (value : ¬ (isBlank (read row conv.name) = true ∨ read row conv.name = .unchanged)) :
    convertColumn row out conv =
      (conv.convert (read row conv.name)).map fun after =>
        if after = read row conv.name then out else assign out conv.name after := by
  cases hv : read row conv.name <;> simp_all [convertColumn, isBlank]

theorem convertColumn_other {row out out' : Row} {conv : Converter} {c : String}
    (hne : c ≠ conv.name) (h : convertColumn row out conv = some out') : out' c = out c := by
  by_cases none : isBlank (read row conv.name) = true ∨ read row conv.name = .unchanged
  · rw [convertColumn_skip none] at h
    rw [Option.some.inj h]
  · rw [convertColumn_value none] at h
    obtain ⟨after, _, rfl⟩ := Option.map_eq_some_iff.mp h
    split_ifs
    · rfl
    · exact assign_other after hne

/-- A column without a value is not converted. -/
theorem convertRow_blank {converters : List Converter} {row out : Row} {c : String}
    (blank : isBlank (read row c) = true) (h : convertRow converters row = some out) :
    out c = row c := by
  refine foldlM_keeps (I := fun out => out c = row c) ?_ rfl h
  intro conv _ out out' kept step
  by_cases own : c = conv.name
  · subst own
    rw [convertColumn_skip (Or.inl blank)] at step
    rw [← Option.some.inj step]
    exact kept
  · rw [convertColumn_other own step]
    exact kept

theorem read_congr {row row' : Row} {c : String} (same : row c = row' c) :
    read row c = read row' c := by
  unfold read
  rw [same]

theorem read_of_some {row : Row} {c : String} {v : Value} (h : row c = some v) :
    read row c = v := by
  simp [read, h]

/-- A converter takes what it needs from its own column. -/
theorem convertColumn_congr {row row' out out' : Row} {conv : Converter}
    (reads : read row conv.name = read row' conv.name) (same : out conv.name = out' conv.name) :
    Option.Rel (fun next next' => next conv.name = next' conv.name) (convertColumn row out conv)
      (convertColumn row' out' conv) := by
  by_cases none : isBlank (read row conv.name) = true ∨ read row conv.name = .unchanged
  · rw [convertColumn_skip none, convertColumn_skip (by rwa [← reads])]
    exact .some same
  · rw [convertColumn_value none, convertColumn_value (by rwa [← reads]), ← reads]
    cases conv.convert (read row conv.name) with
    | none => exact .none
    | some after =>
      refine .some ?_
      dsimp only
      split_ifs
      · exact same
      · exact assign_congr after same

/-- Two rows with the same in a column are converted to the same there. -/
theorem convertRow_same {converters : List Converter} {row row' out out' : Row} {c : String}
    (same : row c = row' c) (h : convertRow converters row = some out)
    (h' : convertRow converters row' = some out') : out c = out' c := by
  refine foldlM_related (R := fun out out' => out c = out' c) ?_ same h h'
  intro conv _ out next out' next' kept step step'
  by_cases own : c = conv.name
  · subst own
    have here := convertColumn_congr (read_congr same) kept
    rw [step, step'] at here
    cases here with
    | some here => exact here
  · rw [convertColumn_other own step, convertColumn_other own step']
    exact kept

/-! ## Mapped -/

theorem put_other {out : Row} {name k : String} (v : Value) (hne : k ≠ name) :
    put out name v k = out k := by
  unfold put
  split
  · rfl
  · exact assign_other .null hne
  · exact assign_other v hne

/-- No row has a property of that name. -/
theorem mapRow_proto (row : Row) (mapping : List ColumnMapping) :
    mapRow row mapping "__proto__" = none := by
  have kept : ∀ (out : Row) (name : String) (v : Value), out "__proto__" = none →
      put out name v "__proto__" = none := by
    intro out name v h
    by_cases own : "__proto__" = name
    · subst own
      unfold put
      split <;> simp [assign, h]
    · rw [put_other v own]
      exact h
  unfold mapRow
  split_ifs with empty
  · unfold sameNames
    split
    · exact kept _ _ _ rfl
    · rfl
  · generalize hout : (fun _ => none : Row) = out
    have start : out "__proto__" = none := by rw [← hout]
    clear hout empty
    induction mapping generalizing out with
    | nil => exact start
    | cons m rest ih => exact ih _ (kept out m.target _ start)

/-- What a delete reads there is nothing, or what the row's write reads. -/
def LeftRead (d i : Value) : Prop := isBlank d = true ∨ d = i

theorem put_left {outd outi : Row} {k : String} {vd vi : Value} (hk : k ≠ "__proto__")
    (left : LeftRead vd vi) (kept : outd k = some .null ∨ outd k = outi k) :
    put outd k vd k = some .null ∨ put outd k vd k = put outi k vi k := by
  have written : ∀ (out : Row) (v : Value), assign out k v k = some v := by
    intro out v
    simp [assign, hk]
  rcases left with blank | rfl
  · left
    cases vd <;> simp_all [isBlank, put]
  · cases vd <;> simp_all [put]

/-- A row onto its own names has the values it had, and a NULL for none. -/
theorem read_sameNames (row : Row) {k : String} (hk : k ≠ "__proto__") :
    if isBlank (read row k) then isBlank (read (sameNames row) k) = true
    else read (sameNames row) k =
      if read row k = .unchanged then read (fun _ => none) k else read row k := by
  have written : ∀ v, assign (fun _ => none) k v k = some v := by
    intro v
    simp [assign, hk]
  cases hv : row k with
  | none =>
    have same : read (sameNames row) k = read row k := read_congr (by simp [sameNames, hv])
    rw [same]
    split_ifs with blank unsent
    · exact blank
    · unfold read at unsent
      rw [hv] at unsent
      split_ifs at unsent
    · rfl
  | some v => cases v <;> simp [read, sameNames, hv, put, written, isBlank]

theorem fill_left {d i : Row} {mapping : List ColumnMapping} {k : String} (hk : k ≠ "__proto__")
    (left : ∀ m ∈ mapping, m.target = k → LeftRead (read d m.source) (read i m.source))
    (outd outi : Row) (kept : outd k = some .null ∨ outd k = outi k) :
    let outd' := mapping.foldl (fun out m => put out m.target (read d m.source)) outd
    let outi' := mapping.foldl (fun out m => put out m.target (read i m.source)) outi
    outd' k = some .null ∨ outd' k = outi' k := by
  induction mapping generalizing outd outi with
  | nil => exact kept
  | cons m rest ih =>
    refine ih (fun m' hm' => left m' (List.mem_cons_of_mem _ hm')) _ _ ?_
    by_cases own : k = m.target
    · subst own
      exact put_left hk (left m List.mem_cons_self rfl) kept
    · change put outd m.target _ k = _ ∨ put outd m.target _ k = put outi m.target _ k
      rw [put_other _ own, put_other _ own]
      exact kept

/-- A name's columns decide what a mapped row has there. -/
theorem mapRow_left {d i : Row} {mapping : List ColumnMapping} {k : String}
    (left : ∀ c ∈ sourcesOf mapping k, LeftRead (read d c) (read i c)) :
    LeftRead (read (mapRow d mapping) k) (read (mapRow i mapping) k) := by
  by_cases proto : k = "__proto__"
  · subst proto
    exact Or.inr (read_congr ((mapRow_proto d mapping).trans (mapRow_proto i mapping).symm))
  unfold mapRow sourcesOf at *
  split_ifs at left ⊢ with empty
  · have here := left k (List.mem_singleton_self k)
    have hd := read_sameNames d proto
    have hi := read_sameNames i proto
    rcases here with blank | same
    · rw [if_pos blank] at hd
      exact Or.inl hd
    · rw [← same] at hi
      split_ifs at hd hi
      · exact Or.inl hd
      · exact Or.inr (hd.trans hi.symm)
      · exact Or.inr (hd.trans hi.symm)
  · have sources : ∀ m ∈ mapping, m.target = k → LeftRead (read d m.source) (read i m.source) := by
      intro m hm target
      exact left m.source (List.mem_map_of_mem (List.mem_filter.mpr ⟨hm, by simpa⟩))
    rcases fill_left proto sources (fun _ => none) (fun _ => none) (Or.inr rfl) with null | same
    · left
      rw [read_of_some null]
      rfl
    · exact Or.inr (read_congr same)

/-! ## Found -/

theorem keyWord_blank {rt : RedisRuntime} {v : Value} (blank : isBlank v = true) :
    keyWord rt v = none := by
  cases v <;> simp_all [isBlank, keyWord, redisText]

/-- Where a delete's key renders, the row's renders to the same. -/
theorem renderRedisKey_left {rt : RedisRuntime} {template : String} {d i : Row} {key : String}
    (left : ∀ name ∈ keyTokens template, LeftRead (read d name) (read i name))
    (h : renderRedisKey rt template d = some key) : renderRedisKey rt template i = some key := by
  obtain ⟨parts, hparts, rfl⟩ := Option.map_eq_some_iff.mp h
  refine Option.map_eq_some_iff.mpr ⟨parts, mapM_of_imp ?_ hparts, rfl⟩
  intro piece hpiece part hpart
  cases piece with
  | char c => exact hpart
  | token name =>
    have token : name ∈ keyTokens template := List.mem_filterMap.mpr ⟨_, hpiece, rfl⟩
    rcases left name token with blank | same
    · simp [renderKeyPiece, keyWord_blank blank] at hpart
    · simpa [renderKeyPiece, same] using hpart

/-- What is left of a row's key columns in its delete, when it has been shaped and converted. -/
theorem Delivery.Plain.left {rt : RedisRuntime} {d : Delivery} {cd ci : Context}
    {image row fromImage fromRow : Row} {si sr : Shaped} {c : String} (plain : d.Plain image)
    (hc : c ∈ d.target.keyedOn) (same : Image image row) (keysOnly : cd.keysOnly = true)
    (hsi : applyColumnTransforms rt.toRuntime cd image d.transforms = some si)
    (hsr : applyColumnTransforms rt.toRuntime ci row d.transforms = some sr)
    (hci : convertRow d.converters si.row = some fromImage)
    (hcr : convertRow d.converters sr.row = some fromRow) :
    LeftRead (read fromImage c) (read fromRow c) := by
  have blankStays : isBlank (read si.row c) = true →
      LeftRead (read fromImage c) (read fromRow c) := by
    intro blank
    left
    rwa [read_congr (convertRow_blank blank hci)]
  cases himage : image c with
  | none =>
    apply blankStays
    have none := applyColumnTransforms_absent keysOnly himage hsi
    simp [read, none, (plain c hc).2 himage, isBlank]
  | some v =>
    have start : Left (image c) (row c) := by
      refine ⟨v, himage, Or.inr ?_⟩
      rcases same c with none | here
      · rw [himage] at none
        cases none
      · rw [← here, himage]
    have computed : ∀ t ∈ d.transforms, t.column = c → t.invents = false := by
      intro t ht own
      by_contra invents
      have none := (plain c hc).1 t ht (by simpa using invents) own
      rw [himage] at none
      cases none
    obtain ⟨w, hw, blank | here⟩ := applyColumnTransforms_left keysOnly computed start hsi hsr
    · exact blankStays (by rwa [read_of_some hw])
    · exact Or.inr (read_congr (convertRow_same (hw.trans here.symm) hci hcr))

/-- The delete of a row, where it says which, says the one the row was stored under. -/
theorem Delivery.Maps.identity {rt : RedisRuntime} {d : Delivery} {deletedAt writtenAt : String}
    {image row : Row} {md mi : Mapped} (accepted : d.target.accepted = true)
    (plain : d.Plain image) (same : Image image row) (hd : d.Maps rt deletedAt .delete image md)
    (hi : d.Maps rt writtenAt .write row mi) (known : (identityOf d.target md).blank = none) :
    identityOf d.target md = identityOf d.target mi := by
  obtain ⟨si, fromImage, hsi, hci, hmd⟩ := hd
  obtain ⟨sr, fromRow, hsr, hcr, hmi⟩ := hi
  have left : ∀ k ∈ d.target.keyNames,
      LeftRead (read (mapRow fromImage d.target.mapping) k)
        (read (mapRow fromRow d.target.mapping) k) := by
    intro k hk
    refine mapRow_left fun c hc => ?_
    exact plain.left (List.mem_flatMap.mpr ⟨k, hk, hc⟩) same rfl hsi hsr hci hcr
  cases hredis : d.target.redis with
  | some redis =>
    simp only [DatabaseTarget.keyNames, hredis] at left
    simp only [mapForTarget, hredis, Option.map_eq_some_iff] at hmd hmi
    obtain ⟨key, hkey, rfl⟩ := hmd
    obtain ⟨key', hkey', rfl⟩ := hmi
    obtain rfl : key = key' := Option.some.inj ((renderRedisKey_left left hkey).symm.trans hkey')
    rfl
  | none =>
    simp only [DatabaseTarget.keyNames, hredis] at left
    have hmd : md = .columns (mapRow fromImage d.target.mapping) := by
      simp only [mapForTarget, hredis] at hmd
      split at hmd <;> simp_all
    have hmi : ∃ out, mi = .columns out ∧
        ∀ k ∈ d.target.keyColumns, read out k = read (mapRow fromRow d.target.mapping) k := by
      simp only [mapForTarget, hredis] at hmi
      split at hmi
      case h_1 soft hsoft _ =>
        refine ⟨_, (Option.some.inj hmi).symm, fun k hk => ?_⟩
        have notMark : k ≠ soft.column := by
          rintro rfl
          simp only [DatabaseTarget.soft] at hsoft
          split_ifs at hsoft with softDeletes
          simp [DatabaseTarget.accepted, hredis, softDeletes, hsoft, hk] at accepted
        exact read_congr (assign_other _ notMark)
      case h_2 => exact ⟨_, (Option.some.inj hmi).symm, fun _ _ => rfl⟩
    obtain ⟨out, rfl, reads⟩ := hmi
    subst hmd
    simp only [identityOf, Identity.columns.injEq]
    refine List.map_congr_left fun k hk => ?_
    rw [reads k hk]
    rcases left k hk with blank | here
    · simp only [identityOf, Identity.blank, Option.map_eq_none_iff, List.find?_eq_none,
        List.mem_map, forall_exists_index, and_imp] at known
      exact absurd blank (known _ k hk rfl)
    · rw [here]

/-- **A delete finds the row its insert wrote**, so long as no key column the delete's image carries
is computed: it removes exactly what the rows were stored under, or fails and says so. -/
theorem Delivery.findsItsRow_of_plain (rt : RedisRuntime) (d : Delivery)
    (writtenAt deletedAt : String) (rows images : List Row) (accepted : d.target.accepted = true)
    (same : List.Forall₂ Image images rows) (plain : ∀ image ∈ images, d.Plain image) :
    d.FindsItsRow rt writtenAt deletedAt rows images := by
  intro written hwritten
  obtain ⟨stored, hstored, rfl⟩ := Delivery.write_ok hwritten
  split
  case h_1 => trivial
  case h_2 summary skipped => exact Delivery.delete_notApplied skipped
  case h_3 removed hremoved =>
    obtain ⟨mapped, hmapped, rfl, known⟩ := Delivery.delete_removed hremoved
    clear hwritten hremoved
    induction same generalizing stored mapped with
    | nil => cases hstored; cases hmapped; rfl
    | cons here _ ih =>
      cases hstored with
      | cons wrote hstored =>
        cases hmapped with
        | cons deleted hmapped =>
          have first := deleted.identity accepted (plain _ List.mem_cons_self) here wrote
            (known _ List.mem_cons_self)
          have others := ih (fun image h => plain image (List.mem_cons_of_mem _ h)) _ hstored _
            hmapped fun id h => known id (List.mem_cons_of_mem _ h)
          rw [List.map_cons, List.map_cons, first, others]

/-! ## A computed key -/

namespace ComputedKey

/-- For rows of texts and whole numbers. -/
def runtime : RedisRuntime where
  numberText := wholeText
  jsonText _ := ""
  numberOf _ := .nan
  dateOf _ := none
  dateAt _ := none
  parseJson _ := none
  trim s := s
  toLowerCase s := s
  toUpperCase s := s
  slice s n := String.ofList (s.toList.take n)
  hash s := s
  safeJson _ := ""
  hex _ := ""

/-- Upserted by `id`, and deleted by it. -/
def target : DatabaseTarget where
  connectionId := "warehouse"
  database := none
  schema := none
  table := "users"
  writeMode := .upsert
  keyColumns := ["id"]
  mapping := []
  onDelete := .delete
  softDelete := none
  redis := none

/-- A bridge with one step. -/
def bridge (step : ColumnTransform) : Delivery where
  table := "users"
  transforms := [step]
  converters := []
  target := target

def row : Row := Function.update (fun _ => none) "id" (some (.string "7"))

/-- The row is stored under `u-7`, and its delete looks for `7`. -/
theorem not_findsItsRow :
    ¬ ∀ (rt : RedisRuntime) (d : Delivery) (writtenAt deletedAt : String) (rows images : List Row),
      d.target.accepted = true → List.Forall₂ Image images rows →
        d.FindsItsRow rt writtenAt deletedAt rows images := by
  intro h
  have finds := h runtime (bridge (.set "id" "u-{{id}}")) "" "" [row] [row] (by decide)
    (.cons (fun _ => Or.inr rfl) .nil) [.columns [("id", .string "u-7")]] (by decide +kernel)
  have removes : (bridge (.set "id" "u-{{id}}")).delete runtime "" [row] =
      .ok (.removed [.columns [("id", .string "7")]]) := by decide +kernel
  rw [removes] at finds
  revert finds
  decide

/-- A masked key is masked for the delete too. -/
theorem findsItsRow_upper : (bridge (.text "id" .upper)).FindsItsRow runtime "" "" [row] [row] := by
  refine Delivery.findsItsRow_of_plain runtime _ "" "" [row] [row] (by decide)
    (.cons (fun _ => Or.inr rfl) .nil) ?_
  intro image himage c hc
  refine ⟨?_, ?_⟩
  · intro t ht invents
    obtain rfl : t = .text "id" .upper := by simpa [bridge] using ht
    cases invents
  · obtain rfl := List.mem_singleton.mp himage
    intro absent proto
    have id : c = "id" := by
      simpa [DatabaseTarget.keyedOn, DatabaseTarget.keyNames, bridge, target, sourcesOf] using hc
    subst id
    simp [row] at absent

end ComputedKey

end Syncle.Shape
