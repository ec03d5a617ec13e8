import Syncle.Payload.Transform

/-!
# Position by position

`Fills` says what a template makes of a scope without saying how: node by node, and in an object key
by key. `substitute` makes just that (`Gives.substitute`), and throws on nothing an adapter returns.

What is true of two rows follows from it: where a template names neither the column in which they
differ nor `$row`, the two bodies are the same (`Fills.sameBut`).
-/

namespace Syncle.Payload

open Js Lib Shape Http

/-! ## What a template makes -/

section Spec

variable (rt : Runtime) (value : String → Option Value)

def textOf (v : Value) : String := (stringify rt v).toOption.getD ""

/-- A text, with each token in it replaced by its value's text. -/
def fillText : List Piece → String
  | [] => ""
  | .char c :: rest => String.singleton c ++ fillText rest
  | .token name :: rest => ((value name).map (textOf rt)).getD "" ++ fillText rest

def keyText (key : String) : String := fillText rt value (pieces key)

mutual

/-- **The template, filled position by position.** -/
def Fills : Value → Value → Prop
  | .string s, body =>
    match wholeToken s with
    | some name => body = (value name).getD .null
    | none => body = .string (fillText rt value (pieces s))
  | .array items, body => ∃ bodies, body = .array bodies ∧ FillsItems items bodies
  | .object fields, body =>
    ∃ out : Row, body = objectOf out ∧ ∀ key, FillsAt fields key none (out.get? key)
  | node, body => body = node

def FillsItems : Items → Items → Prop
  | .nil, bodies => bodies = .nil
  | .cons head tail, bodies =>
    ∃ b bs, bodies = .cons b bs ∧ Fills head b ∧ FillsItems tail bs

/-- What an object has at a key, given what was there: an entry with that key puts its own there in
its place, unless the key is one that no body may have. -/
def FillsAt : Fields → String → Option Value → Option Value → Prop
  | .nil, _, before, found => found = before
  | .cons name node rest, key, before, found =>
    if keyText rt value name = key ∧ key ∉ forbidden then
      ∃ v, Fills node v ∧ FillsAt rest key (some v) found
    else FillsAt rest key before found

end

end Spec

def namesOf : Fields → List String
  | .nil => []
  | .cons name _ rest => name :: namesOf rest

/-! ## Values that are rows' -/

/-- What an adapter returns: no `bigint`, no marker, and nothing that spells itself as nothing. -/
structure Returned (v : Value) : Prop where
  noBigint : v.hasBigint = false
  sent : v ≠ .unchanged
  spells : ∀ json, v = .jsonable json → json ≠ .undefined ∧ json ≠ .unchanged

theorem Returned.string (s : String) : Returned (.string s) where
  noBigint := rfl
  sent := by simp
  spells := by simp

theorem Returned.null : Returned .null where
  noBigint := rfl
  sent := by simp
  spells := by simp

/-- **What was returned can be serialised.** -/
theorem Returned.payload {v : Value} (returned : Returned v) : (payloadOf v).isSome := by
  have some_ : (Js.stringify v).isSome = true := by
    rw [stringify_isSome, returned.noBigint, Bool.not_false]
  unfold payloadOf
  split
  · rfl
  · exact absurd rfl returned.sent
  · exact absurd rfl (returned.spells _ rfl).1
  · exact absurd rfl (returned.spells _ rfl).2
  · exact some_

theorem Returned.text (rt : Runtime) {v : Value} (returned : Returned v) :
    stringify rt v = .ok (textOf rt v) := by
  have some_ : (Js.stringify v).isSome = true := by
    rw [stringify_isSome, returned.noBigint, Bool.not_false]
  have given : ∃ text, stringify rt v = .ok text := by
    unfold stringify
    split
    case h_10 =>
      obtain ⟨json, is⟩ := Option.isSome_iff_exists.mp some_
      exact ⟨rt.jsonText json, by simp only [spelled, is]⟩
    all_goals exact ⟨_, rfl⟩
  obtain ⟨text, is⟩ := given
  rw [textOf, is]
  rfl

/-- Every value of a row, or of an object that is being made. -/
def AllReturned (row : Row) : Prop := ∀ name v, row.get? name = some v → Returned v

theorem AllReturned.empty : AllReturned OrderedMap.empty := by
  intro name v is
  cases is

theorem AllReturned.set {row : Row} (all : AllReturned row) (name : String) {v : Value}
    (returned : Returned v) : AllReturned (row.set name v) := by
  intro other w is
  rw [OrderedMap.get?_set] at is
  split at is
  · obtain rfl := Option.some.inj is
    exact returned
  · exact all other w is

theorem hasBigint_toFields {entries : List (String × Value)}
    (none_ : ∀ e ∈ entries, e.2.hasBigint = false) : (toFields entries).hasBigint = false := by
  induction entries with
  | nil => rfl
  | cons e rest ih =>
    rw [toFields, Fields.hasBigint, none_ e List.mem_cons_self,
      ih fun e mem => none_ e (List.mem_cons_of_mem _ mem), Bool.false_or]

theorem AllReturned.object {row : Row} (all : AllReturned row) : Returned (objectOf row) where
  noBigint := by
    rw [objectOf, Value.hasBigint]
    apply hasBigint_toFields
    intro e mem
    exact (all e.1 e.2 (OrderedMap.get?_eq_some.mpr mem)).noBigint
  sent := by simp [objectOf]
  spells := by simp [objectOf]

/-! ## Running -/

/-- It throws nothing and gives `a`, whatever was warned of before. -/
def Gives {α : Type} (x : Render α) (a : α) : Prop :=
  ∀ warnings, ∃ more, x.run warnings = .ok (a, more)

section Gives

variable {α β : Type}

theorem Gives.pure (a : α) : Gives (Pure.pure a) a := by
  intro warnings
  exact ⟨warnings, rfl⟩

theorem Gives.bind {x : Render α} {f : α → Render β} {a : α} {b : β} (first : Gives x a)
    (next : Gives (f a) b) : Gives (x >>= f) b := by
  intro warnings
  obtain ⟨more, ran⟩ := first warnings
  obtain ⟨further, ran'⟩ := next more
  refine ⟨further, ?_⟩
  rw [StateT.run_bind, ran]
  exact ran'

theorem Gives.warn (name : String) : Gives (warn name) () := by
  intro warnings
  exact ⟨_, rfl⟩

theorem Gives.lift {x : Except String α} {a : α} (is : x = .ok a) : Gives (StateT.lift x) a := by
  intro warnings
  subst is
  exact ⟨warnings, rfl⟩

end Gives

section Running

variable (rt : Runtime) {scope : Row}

theorem gives_tokenText (all : AllReturned scope) (name : String) :
    Gives (tokenText rt scope name) (((scope.get? name).map (textOf rt)).getD "") := by
  unfold tokenText
  cases is : scope.get? name with
  | some v => exact Gives.lift ((all name v is).text rt)
  | none => exact (Gives.warn name).bind (Gives.pure "")

theorem gives_interpolate (all : AllReturned scope) (text : List Piece) :
    Gives (interpolate rt scope text) (fillText rt scope.get? text) := by
  induction text with
  | nil => exact Gives.pure ""
  | cons piece rest ih =>
    cases piece with
    | char c => exact ih.bind (Gives.pure _)
    | token name => exact (gives_tokenText rt all name).bind (ih.bind (Gives.pure _))

theorem gives_tokenValue (name : String) :
    Gives (tokenValue scope name) ((scope.get? name).getD Value.null) := by
  unfold tokenValue
  cases scope.get? name with
  | some v => exact Gives.pure v
  | none => exact (Gives.warn name).bind (Gives.pure Value.null)

variable {rt}

theorem Returned.leaf {node : Value} (tree : isTree node = true) (items : ∀ l, node ≠ .array l)
    (fields : ∀ l, node ≠ .object l) : Returned node := by
  cases node with
  | null => exact Returned.null
  | bool b => exact ⟨rfl, by simp, by simp⟩
  | number n => exact ⟨rfl, by simp, by simp⟩
  | string s => exact Returned.string s
  | array l => exact absurd rfl (items l)
  | object l => exact absurd rfl (fields l)
  | _ => cases tree

mutual

/-- **A template is filled position by position**, and all of it is what an adapter might return. -/
theorem gives_substitute (all : AllReturned scope) (node : Value) (tree : isTree node = true) :
    ∃ body, Gives (substitute rt scope node) body ∧ Fills rt scope.get? node body ∧
      Returned body := by
  cases node with
  | string s =>
    rw [substitute]
    cases whole : wholeToken s with
    | some name =>
      refine ⟨_, gives_tokenValue name, by simp only [Fills, whole], ?_⟩
      cases is : scope.get? name with
      | some v => exact all name v is
      | none => exact Returned.null
    | none =>
      exact ⟨_, (gives_interpolate rt all _).bind (Gives.pure _), by simp only [Fills, whole],
        Returned.string _⟩
  | array items =>
    obtain ⟨bodies, gives, fills, plain⟩ := gives_substituteItems all items tree
    refine ⟨.array bodies, ?_, ?_, plain, by simp, by simp⟩
    · rw [substitute]
      exact gives.bind (Gives.pure _)
    · rw [Fills]
      exact ⟨bodies, rfl, fills⟩
  | object fields =>
    obtain ⟨out, gives, fills, returned⟩ :=
      gives_substituteFields all fields tree OrderedMap.empty AllReturned.empty
    refine ⟨objectOf out, ?_, ?_, returned.object⟩
    · rw [substitute]
      exact gives.bind (Gives.pure _)
    · rw [Fills]
      exact ⟨out, rfl, fills⟩
  | _ =>
    refine ⟨_, Gives.pure _, by simp only [Fills], Returned.leaf tree (by simp) (by simp)⟩

theorem gives_substituteItems (all : AllReturned scope) (items : Items)
    (tree : isTreeItems items = true) :
    ∃ bodies, Gives (substituteItems rt scope items) bodies ∧
      FillsItems rt scope.get? items bodies ∧ bodies.hasBigint = false := by
  cases items with
  | nil => exact ⟨.nil, Gives.pure _, by simp only [FillsItems], rfl⟩
  | cons head tail =>
    obtain ⟨own, others⟩ := Bool.and_eq_true_iff.mp tree
    obtain ⟨b, gives, fills, returned⟩ := gives_substitute all head own
    obtain ⟨bs, gives', fills', plain⟩ := gives_substituteItems all tail others
    refine ⟨.cons b bs, ?_, ?_, ?_⟩
    · rw [substituteItems]
      exact gives.bind (gives'.bind (Gives.pure _))
    · rw [FillsItems]
      exact ⟨b, bs, rfl, fills, fills'⟩
    · rw [Items.hasBigint, returned.noBigint, plain, Bool.false_or]

theorem gives_substituteFields (all : AllReturned scope) (fields : Fields)
    (tree : isTreeFields fields = true) (out : Row) (clean : AllReturned out) :
    ∃ out', Gives (substituteFields rt scope fields out) out' ∧
      (∀ key, FillsAt rt scope.get? fields key (out.get? key) (out'.get? key)) ∧
      AllReturned out' := by
  cases fields with
  | nil =>
    refine ⟨out, Gives.pure _, ?_, clean⟩
    intro key
    rw [FillsAt]
  | cons key node rest =>
    obtain ⟨own, others⟩ := Bool.and_eq_true_iff.mp tree
    have rendered : Gives (interpolate rt scope (pieces key)) (keyText rt scope.get? key) :=
      gives_interpolate rt all (pieces key)
    by_cases barred : keyText rt scope.get? key ∈ forbidden
    · obtain ⟨out', gives, fills, returned⟩ := gives_substituteFields all rest others out clean
      refine ⟨out', ?_, ?_, returned⟩
      · rw [substituteFields]
        refine rendered.bind ?_
        rw [if_pos barred]
        exact gives
      · intro name
        rw [FillsAt, if_neg fun h => h.2 (h.1 ▸ barred)]
        exact fills name
    · obtain ⟨v, gives, fills, returned⟩ := gives_substitute all node own
      obtain ⟨out', gives', fills', returned'⟩ :=
        gives_substituteFields all rest others _ (clean.set (keyText rt scope.get? key) returned)
      refine ⟨out', ?_, ?_, returned'⟩
      · rw [substituteFields]
        refine rendered.bind ?_
        rw [if_neg barred]
        exact gives.bind gives'
      · intro name
        have later := fills' name
        rw [OrderedMap.get?_set] at later
        rw [FillsAt]
        by_cases here : keyText rt scope.get? key = name
        · subst here
          rw [if_pos ⟨rfl, barred⟩]
          rw [if_pos rfl] at later
          exact ⟨v, fills, later⟩
        · rw [if_neg fun h => here h.1]
          rwa [if_neg (Ne.symm here)] at later

end

end Running

/-! ## Two rows -/

section TwoRows

variable (rt : Runtime) (c : String) (value value' : String → Option Value)

/-- Does a text of the template name the column, or the whole row? -/
def Mentions (text : String) : Prop := c ∈ tokens text ∨ "$row" ∈ tokens text

mutual

/-- **The same, but where the template names a column or `$row`.** Under a key that a text which names
it comes to, for one row or for the other, anything may be; under any other key both have what the
last entry with that key makes. -/
def SameBut : Value → Value → Value → Prop
  | .string s, b, b' => ¬ Mentions c s → b = b'
  | .array items, b, b' =>
    ∃ bs bs', b = .array bs ∧ b' = .array bs' ∧ SameButItems items bs bs'
  | .object fields, b, b' =>
    ∃ out out' : Row, b = objectOf out ∧ b' = objectOf out' ∧
      ∀ key, (∀ name ∈ namesOf fields, Mentions c name →
          keyText rt value name ≠ key ∧ keyText rt value' name ≠ key) →
        SameButAt fields key (fun f f' => f = none ∧ f' = none) (out.get? key) (out'.get? key)
  | _, b, b' => b = b'

def SameButItems : Items → Items → Items → Prop
  | .nil, bs, bs' => bs = .nil ∧ bs' = .nil
  | .cons head tail, bs, bs' =>
    ∃ b rest b' rest', bs = .cons b rest ∧ bs' = .cons b' rest' ∧ SameBut head b b' ∧
      SameButItems tail rest rest'

def SameButAt : Fields → String → (Option Value → Option Value → Prop) → Option Value →
    Option Value → Prop
  | .nil, _, before, found, found' => before found found'
  | .cons name node rest, key, before, found, found' =>
    if keyText rt value name = key ∧ key ∉ forbidden then
      SameButAt rest key (fun f f' => ∃ v v', f = some v ∧ f' = some v' ∧ SameBut node v v')
        found found'
    else SameButAt rest key before found found'

end

variable {rt c value value'}

theorem fillText_congr {text : List Piece}
    (same : ∀ name, .token name ∈ text → value name = value' name) :
    fillText rt value text = fillText rt value' text := by
  induction text with
  | nil => rfl
  | cons piece rest ih =>
    have others := ih fun name mem => same name (List.mem_cons_of_mem _ mem)
    cases piece with
    | char c => rw [fillText, fillText, others]
    | token name => rw [fillText, fillText, others, same name List.mem_cons_self]

/-- Two rows differ in one column at most: what else may be named is the same. -/
def Apart (c : String) (value value' : String → Option Value) : Prop :=
  ∀ name, name ≠ c → name ≠ "$row" → value name = value' name

theorem Apart.token (apart : Apart c value value') {text name : String} (quiet : ¬ Mentions c text) (mem : name ∈ tokens text) :
    value name = value' name := by
  apply apart
  · intro same
    subst same
    exact quiet (.inl mem)
  · intro same
    subst same
    exact quiet (.inr mem)

theorem Apart.text (apart : Apart c value value') {text : String} (quiet : ¬ Mentions c text) :
    fillText rt value (pieces text) = fillText rt value' (pieces text) := by
  apply fillText_congr
  intro name mem
  exact apart.token quiet (List.mem_filterMap.mpr ⟨_, mem, rfl⟩)

mutual

theorem Fills.sameBut (apart : Apart c value value') (node : Value) {b b' : Value} (fills : Fills rt value node b)
    (fills' : Fills rt value' node b') : SameBut rt c value value' node b b' := by
  cases node with
  | string s =>
    rw [SameBut]
    intro quiet
    rw [Fills] at fills fills'
    cases whole : wholeToken s with
    | some name =>
      simp only [whole] at fills fills'
      rw [fills, fills', apart.token quiet (wholeToken_mem whole)]
    | none =>
      simp only [whole] at fills fills'
      rw [fills, fills', apart.text quiet]
  | array items =>
    rw [Fills] at fills fills'
    obtain ⟨bs, rfl, fills⟩ := fills
    obtain ⟨bs', rfl, fills'⟩ := fills'
    rw [SameBut]
    exact ⟨bs, bs', rfl, rfl, FillsItems.sameBut apart items fills fills'⟩
  | object fields =>
    rw [Fills] at fills fills'
    obtain ⟨out, rfl, fills⟩ := fills
    obtain ⟨out', rfl, fills'⟩ := fills'
    rw [SameBut]
    refine ⟨out, out', rfl, rfl, ?_⟩
    intro key quiet
    exact FillsAt.sameBut apart fields key quiet (fills key) (fills' key) ⟨rfl, rfl⟩
  | _ =>
    simp only [Fills] at fills fills'
    simp only [SameBut]
    rw [fills, fills']

theorem FillsItems.sameBut (apart : Apart c value value') (items : Items) {bs bs' : Items}
    (fills : FillsItems rt value items bs)
    (fills' : FillsItems rt value' items bs') : SameButItems rt c value value' items bs bs' := by
  cases items with
  | nil =>
    rw [FillsItems] at fills fills'
    rw [SameButItems]
    exact ⟨fills, fills'⟩
  | cons head tail =>
    rw [FillsItems] at fills fills'
    obtain ⟨b, rest, rfl, own, others⟩ := fills
    obtain ⟨b', rest', rfl, own', others'⟩ := fills'
    rw [SameButItems]
    exact ⟨b, rest, b', rest', rfl, rfl, Fills.sameBut apart head own own',
      FillsItems.sameBut apart tail others others'⟩

theorem FillsAt.sameBut (apart : Apart c value value') (fields : Fields) (key : String)
    (quiet : ∀ name ∈ namesOf fields, Mentions c name →
      keyText rt value name ≠ key ∧ keyText rt value' name ≠ key)
    {before before' found found' : Option Value} (fills : FillsAt rt value fields key before found)
    (fills' : FillsAt rt value' fields key before' found')
    {start : Option Value → Option Value → Prop} (begins : start before before') :
    SameButAt rt c value value' fields key start found found' := by
  cases fields with
  | nil =>
    rw [FillsAt] at fills fills'
    rw [SameButAt, fills, fills']
    exact begins
  | cons name node rest =>
    have later : ∀ name ∈ namesOf rest, Mentions c name →
        keyText rt value name ≠ key ∧ keyText rt value' name ≠ key := by
      intro other mem
      exact quiet other (List.mem_cons_of_mem _ mem)
    -- an entry whose key names the column does not come to this key, and any other key is the same
    have alike : keyText rt value name = key ↔ keyText rt value' name = key := by
      by_cases mentioned : Mentions c name
      · obtain ⟨no, no'⟩ := quiet name List.mem_cons_self mentioned
        exact ⟨fun same => absurd same no, fun same => absurd same no'⟩
      · rw [keyText, keyText, apart.text mentioned]
    rw [SameButAt]
    by_cases here : keyText rt value name = key ∧ key ∉ forbidden
    · rw [if_pos here]
      rw [FillsAt, if_pos here] at fills
      rw [FillsAt, if_pos ⟨alike.mp here.1, here.2⟩] at fills'
      obtain ⟨v, own, others⟩ := fills
      obtain ⟨v', own', others'⟩ := fills'
      exact FillsAt.sameBut apart rest key later others others'
        ⟨v, v', rfl, rfl, Fills.sameBut apart node own own'⟩
    · rw [if_neg here]
      rw [FillsAt, if_neg here] at fills
      rw [FillsAt, if_neg fun h => here ⟨alike.mpr h.1, h.2⟩] at fills'
      exact FillsAt.sameBut apart rest key later fills fills' begins

end

end TwoRows

end Syncle.Payload
