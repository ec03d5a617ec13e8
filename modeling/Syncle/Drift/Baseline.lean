import Syncle.Lib.Run
import Syncle.Drift.Evolve

/-!
# No column is forgotten

A column in the baseline is not drift any more, and nobody looks at it again. So the baseline may
have a column that was added only if the targets that follow the source have it too (`Followed`).
A check that brought a column to every target keeps that; one that accepts a column it did not
bring, because its `evolve` failed or because the column came later, keeps it only by chance
(`Careful`).
-/

namespace Syncle.Drift

open Lib

variable {T K : Type*} {b : Bridge T} {w w' : World T K} {k : K}

/-- The check answers for column `c` at target `t`. -/
def Pc.Owes (t : Target T) (c : String) : Pc T → Prop
  | .reaching drift left _ => t ∉ left ∧ c ∈ names drift.added
  | .adding drift target _ left _ => t ∉ target :: left ∧ c ∈ names drift.added
  | .accepting handled => c ∈ handled
  | .weighing _ handled => c ∈ handled
  | .recording _ handled => c ∈ handled
  | _ => False

namespace World

variable (b w)

/-- The column is in the baseline, and came to it after the first one was recorded. -/
def Recorded (c : String) : Prop :=
  (∃ columns, w.baseline = some columns ∧ c ∈ names columns) ∧ c ∉ w.first

/-- The target has the column, or has no table yet. -/
def Has (t : Target T) (c : String) : Prop :=
  ∀ columns, w.tables t.location = some columns → c ∈ columns

/-- Every target the bridge evolves has the column, or has no table yet. -/
def Brought (c : String) : Prop :=
  ∀ t ∈ b.targets, t.evolves = true → w.Has t c

/-- What is in the baseline is at the targets, and what is not at the targets is found again. -/
structure Followed : Prop where
  recorded : ∀ c, w.Recorded c → w.Brought b c
  again : ∀ old now c, w.baseline = some old → w.source = some now → c ∈ names now →
    c ∉ w.first → ¬ w.Brought b c →
    ∃ drift, diffColumns old now = some drift ∧ c ∈ names drift.added

/-- A check accepts a column it did not bring itself only where it is everywhere anyway, and a
table is made with the columns that are in the baseline or that a check answers for. -/
def Careful : Event T K → Prop
  | .record k => ∀ now handled old, w.checks k = some (.recording now handled) →
      w.baseline = some old → ∀ c ∈ names now, c ∉ names old → c ∉ w.first → c ∉ handled →
      w.Brought b c
  | .create location columns => ∀ t ∈ b.targets, t.evolves = true → t.location = location →
      ∀ c, (w.Recorded c ∨ ∃ k pc, w.checks k = some pc ∧ pc.Owes t c) → c ∈ columns
  | _ => True

/-- What a check that is under way has done. -/
structure Keeps (pc : Pc T) : Prop where
  owed : ∀ t ∈ b.targets, t.evolves = true → ∀ c, pc.Owes t c → w.Has t c
  adding : ∀ drift t missing left done, pc = .adding drift t missing left done →
    ∃ columns, w.tables t.location = some columns ∧
      ∀ c ∈ names drift.added, c ∈ missing ∨ c ∈ columns

structure Inv : Prop where
  recorded : ∀ c, w.Recorded c → w.Brought b c
  keeps : ∀ k pc, w.checks k = some pc → w.Keeps b pc

end World

/-! ## What a check owes, by what it does next -/

namespace Bridge

variable {drift : SchemaDrift} {handled : List String} {t : Target T} {c : String} {pc : Pc T}

/-- Behind `evolve` a check has only its answer to give. -/
theorem afterEvolve_eq {evolved : String} (h : b.afterEvolve drift evolved handled = some pc) :
    pc = .accepting handled := by
  unfold afterEvolve at h
  split at h
  case isTrue => exact (Option.some.inj h).symm
  case isFalse => cases h

theorem failed_owes (h : b.failed drift = some pc) : ¬ pc.Owes t c := by
  rw [afterEvolve_eq h]
  exact List.not_mem_nil

/-- It answers for the targets it has passed, and those it leaves out do not evolve. -/
theorem next_owes {left : List (Target T)} {done : List String}
    (h : b.next drift left done = some pc) (evolves : t.evolves = true) (owes : pc.Owes t c) :
    t ∉ left ∧ c ∈ names drift.added := by
  induction left with
  | nil =>
    unfold next at h
    rw [afterEvolve_eq h] at owes
    exact ⟨List.not_mem_nil, owes⟩
  | cons t' left ih =>
    unfold next at h
    split at h
    case isTrue passed =>
      obtain ⟨later, added⟩ := ih h
      refine ⟨?_, added⟩
      intro mem
      rcases List.mem_cons.mp mem with rfl | mem
      · simp [Target.evolves] at evolves passed
        rcases passed with chosen | kept
        · rw [chosen] at evolves
          exact absurd evolves.1.1 (by simp)
        · rw [kept] at evolves
          exact absurd evolves.1.2 (by simp)
      · exact later mem
    case isFalse =>
      obtain rfl := Option.some.inj h
      exact owes

theorem next_ne_adding {left left' : List (Target T)} {done done' : List String}
    {drift' : SchemaDrift} {missing : List String} :
    b.next drift left done ≠ some (.adding drift' t missing left' done') := by
  induction left with
  | nil =>
    unfold next
    intro h
    cases afterEvolve_eq h
  | cons t' left ih =>
    unfold next
    split
    case isTrue => exact ih
    case isFalse => simp

end Bridge

namespace World

/-- A check that answers for nothing. -/
theorem keeps_of_free {pc : Pc T} (free : ∀ t c, ¬ pc.Owes t c)
    (adds : ∀ drift t missing left done, pc ≠ .adding drift t missing left done) : w.Keeps b pc :=
  ⟨fun t _ _ c owes => absurd owes (free t c),
    fun drift t missing left done is => absurd is (adds drift t missing left done)⟩

theorem keeps_failed {drift : SchemaDrift} {pc : Pc T} (h : b.failed drift = some pc) :
    w.Keeps b pc := by
  refine keeps_of_free (fun t c => Bridge.failed_owes h) ?_
  intro _ _ _ _ _ is
  rw [Bridge.afterEvolve_eq h] at is
  cases is

theorem keeps_next {drift : SchemaDrift} {left : List (Target T)} {done : List String} {pc : Pc T}
    (h : b.next drift left done = some pc)
    (passed : ∀ t ∈ b.targets, t.evolves = true → t ∉ left → ∀ c ∈ names drift.added, w.Has t c) :
    w.Keeps b pc := by
  refine ⟨fun t mem evolves c owes => ?_, ?_⟩
  · obtain ⟨behind, added⟩ := Bridge.next_owes h evolves owes
    exact passed t mem evolves behind c added
  · intro _ _ _ _ _ is
    rw [is] at h
    exact absurd h Bridge.next_ne_adding

variable [DecidableEq K]

theorem Inv.put (inv : w.Inv b) {pc' : Option (Pc T)}
    (keeps : ∀ pc, pc' = some pc → w.Keeps b pc) : (w.put k pc').Inv b := by
  refine ⟨inv.recorded, fun j pc there => ?_⟩
  have kept : w.Keeps b pc := by
    unfold World.put at there
    simp only [Function.update_apply] at there
    split at there
    case isTrue => exact keeps pc there
    case isFalse => exact inv.keeps j pc there
  exact ⟨kept.owed, kept.adding⟩

variable [DecidableEq T]

omit [DecidableEq K] in
/-- A table gets columns; none is lost. -/
theorem Inv.grow (inv : w.Inv b) {location : T} {columns columns' : List String}
    (there : w.tables location = some columns) (more : ∀ c ∈ columns, c ∈ columns') :
    ({ w with tables := Function.update w.tables location (some columns') } : World T K).Inv b := by
  have has : ∀ t c, w.Has t c →
      ({ w with tables := Function.update w.tables location (some columns') } : World T K).Has t c := by
    intro t c has' cols here
    simp only [Function.update_apply] at here
    split at here
    case isTrue same =>
      obtain rfl := Option.some.inj here
      exact more c (has' columns (same ▸ there))
    case isFalse => exact has' cols here
  refine ⟨fun c recorded t mem evolves => has t c (inv.recorded c recorded t mem evolves), ?_⟩
  intro k pc check
  obtain ⟨owed, adding⟩ := inv.keeps k pc check
  refine ⟨fun t mem evolves c owes => has t c (owed t mem evolves c owes), ?_⟩
  intro drift t missing left done is
  obtain ⟨cols, here, rest⟩ := adding drift t missing left done is
  simp only [Function.update_apply]
  split
  case isTrue same =>
    rw [same, there] at here
    obtain rfl := Option.some.inj here
    exact ⟨columns', rfl, fun c hc => (rest c hc).imp id (more c)⟩
  case isFalse => exact ⟨cols, here, rest⟩

omit [DecidableEq K] in
theorem inv_create {location : T} {columns : List String} (inv : w.Inv b)
    (careful : w.Careful b (.create location columns)) (absent : w.tables location = none) :
    ({ w with tables := Function.update w.tables location (some columns) } : World T K).Inv b := by
  have has : ∀ t ∈ b.targets, t.evolves = true → ∀ c, w.Has t c →
      (w.Recorded c ∨ ∃ k pc, w.checks k = some pc ∧ pc.Owes t c) →
      ({ w with tables := Function.update w.tables location (some columns) } : World T K).Has t c := by
    intro t mem evolves c has' asked cols here
    simp only [Function.update_apply] at here
    split at here
    case isTrue same =>
      obtain rfl := Option.some.inj here
      exact careful t mem evolves same c asked
    case isFalse => exact has' cols here
  constructor
  · intro c recorded t mem evolves
    exact has t mem evolves c (inv.recorded c recorded t mem evolves) (Or.inl recorded)
  · intro k pc check
    obtain ⟨owed, adding⟩ := inv.keeps k pc check
    refine ⟨fun t mem evolves c owes => ?_, ?_⟩
    · exact has t mem evolves c (owed t mem evolves c owes) (Or.inr ⟨k, pc, check, owes⟩)
    · intro drift t missing left done is
      obtain ⟨cols, here, rest⟩ := adding drift t missing left done is
      have other : t.location ≠ location := by
        intro same
        rw [same, absent] at here
        cases here
      exact ⟨cols, by simp [other, here], rest⟩

/-- A target answers, or does not: then the check gives up on the rest and owes nothing. -/
theorem inv_reach {ok : Bool} (inv : w.Inv b) (h : w.reach b k ok = some w') : w'.Inv b := by
  unfold reach at h
  split at h
  case h_1 drift check =>
    obtain rfl := Option.some.inj h
    refine inv.put fun pc is => ?_
    cases ok with
    | true => exact keeps_next is fun t mem _ behind => absurd mem behind
    | false => exact keeps_failed is
  case h_2 drift t left done check =>
    have owed := (inv.keeps k _ check).owed
    -- what the check passes next is this target; before it stands what it answers for already
    have passing : (t ∈ b.targets → t.evolves = true → ∀ c ∈ names drift.added, w.Has t c) →
        (w.put k (b.next drift left done)).Inv b := by
      intro here
      refine inv.put fun pc is => keeps_next is fun t' mem evolves behind c added => ?_
      by_cases same : t' = t
      · subst same
        exact here mem evolves c added
      · refine owed t' mem evolves c ⟨?_, added⟩
        intro mem'
        rcases List.mem_cons.mp mem' with is' | later
        · exact same is'
        · exact behind later
    split at h
    case isTrue =>
      obtain rfl := Option.some.inj h
      exact inv.put fun pc is => keeps_failed is
    case isFalse =>
      split at h
      case isTrue noColumns =>
        obtain rfl := Option.some.inj h
        refine passing fun _ evolves => ?_
        simp [Target.evolves] at evolves noColumns
        rw [noColumns] at evolves
        exact absurd evolves.2 (by simp)
      case isFalse =>
        split at h
        case h_1 absent =>
          obtain rfl := Option.some.inj h
          refine passing fun _ _ c _ cols here => ?_
          rw [absent] at here
          cases here
        case h_2 cols there =>
          simp only at h
          split at h
          case isTrue none =>
            obtain rfl := Option.some.inj h
            refine passing fun _ _ c added cols' here => ?_
            obtain rfl := Option.some.inj (there.symm.trans here)
            have kept := List.filter_eq_nil_iff.mp none c added
            simpa using kept
          case isFalse =>
            obtain rfl := Option.some.inj h
            refine inv.put fun pc is => ?_
            obtain rfl := Option.some.inj is
            refine ⟨fun t' mem evolves c owes => owed t' mem evolves c owes, ?_⟩
            intro drift' t' missing left' done' is'
            injection is' with sameDrift sameTarget sameMissing
            subst sameDrift sameTarget sameMissing
            refine ⟨cols, there, fun c added => ?_⟩
            by_cases here : c ∈ cols
            · exact Or.inr here
            · exact Or.inl (List.mem_filter.mpr ⟨added, by simpa using here⟩)
  case h_3 => cases h

/-- One column is added to one table; the others are still to come. -/
theorem inv_add {ok : Bool} (inv : w.Inv b) (h : w.add b k ok = some w') : w'.Inv b := by
  unfold add at h
  split at h
  case h_1 drift t name missing left done check =>
    obtain ⟨owed, adding⟩ := inv.keeps k _ check
    obtain ⟨cols, there, rest⟩ := adding drift t (name :: missing) left done rfl
    split at h
    case isTrue =>
      obtain rfl := Option.some.inj h
      exact inv.put fun pc is => keeps_failed is
    case isFalse =>
      rw [there] at h
      simp only at h
      split at h
      case isTrue => cases h
      case isFalse =>
        obtain rfl := Option.some.inj h
        have grown := inv.grow there fun c hc => List.mem_append_left [name] hc
        have here : ∀ c ∈ names drift.added, c ∈ missing ∨ c ∈ cols ++ [name] := by
          intro c added
          rcases rest c added with lacks | has
          · rcases List.mem_cons.mp lacks with rfl | lacks
            · exact Or.inr (List.mem_append_right _ List.mem_cons_self)
            · exact Or.inl lacks
          · exact Or.inr (List.mem_append_left _ has)
        have owed' := (grown.keeps k _ check).owed
        refine grown.put fun pc is => ?_
        by_cases last : missing = []
        · rw [if_pos last] at is
          refine keeps_next is fun t' mem evolves behind c added => ?_
          by_cases same : t' = t
          · subst same
            intro cols' is'
            simp only [Function.update_self] at is'
            obtain rfl := Option.some.inj is'
            rcases here c added with lacks | has
            · rw [last] at lacks
              cases lacks
            · exact has
          · refine owed' t' mem evolves c ⟨?_, added⟩
            intro mem'
            rcases List.mem_cons.mp mem' with is' | later
            · exact same is'
            · exact behind later
        · rw [if_neg last] at is
          obtain rfl := Option.some.inj is
          refine ⟨fun t' mem evolves c owes => owed' t' mem evolves c owes, ?_⟩
          intro drift' t' missing' left' done' is'
          injection is' with sameDrift sameTarget sameMissing
          subst sameDrift sameTarget sameMissing
          exact ⟨cols ++ [name], by simp, here⟩
  case h_2 => cases h

omit [DecidableEq T] in
/-- The source is looked at; nothing is owed before it is compared. -/
theorem inv_look {ok : Bool} (inv : w.Inv b) (h : w.look k ok = some w') : w'.Inv b := by
  unfold look at h
  split at h
  case h_1 =>
    obtain rfl := Option.some.inj h
    refine inv.put fun pc is => ?_
    cases ok with
    | false => cases is
    | true =>
      obtain ⟨now, -, rfl⟩ := Option.map_eq_some_iff.mp is
      exact keeps_of_free (fun _ _ => id) (by simp)
  case h_2 handled check =>
    have owed := (inv.keeps k _ check).owed
    obtain rfl := Option.some.inj h
    refine inv.put fun pc is => ?_
    cases ok with
    | false => cases is
    | true =>
      obtain ⟨now, -, rfl⟩ := Option.map_eq_some_iff.mp is
      exact ⟨owed, by simp⟩
  case h_3 => cases h

omit [DecidableEq T] in
theorem inv_compare (inv : w.Inv b) (h : w.compare b k = some w') : w'.Inv b := by
  unfold compare at h
  split at h
  case h_1 now check =>
    obtain rfl := Option.some.inj h
    refine inv.put fun pc is => ?_
    unfold Bridge.compare at is
    split at is
    case h_1 =>
      obtain rfl := Option.some.inj is
      exact keeps_of_free (fun _ _ => List.not_mem_nil) (by simp)
    case h_2 old _ =>
      split at is
      case h_1 => cases is
      case h_2 drift _ =>
        split at is
        case isTrue => cases is
        case isFalse =>
          split at is
          case isFalse => cases is
          case isTrue =>
            obtain rfl := Option.some.inj is
            exact keeps_of_free (fun _ _ => id) (by simp)
  case h_2 now handled check =>
    have owed := (inv.keeps k _ check).owed
    obtain rfl := Option.some.inj h
    refine inv.put fun pc is => ?_
    have recording : pc = .recording now handled := by
      unfold Bridge.weigh at is
      split at is
      case h_1 => exact (Option.some.inj is).symm
      case h_2 =>
        split at is
        case isTrue => exact (Option.some.inj is).symm
        case isFalse => cases is
    subst recording
    exact ⟨owed, by simp⟩
  case h_3 => cases h

omit [DecidableEq T] in
/-- The baseline is written. What is new in it the check has brought, or is everywhere anyway. -/
theorem inv_record (inv : w.Inv b) (careful : w.Careful b (.record k : Event T K))
    (h : w.record k = some w') : w'.Inv b := by
  unfold record at h
  split at h
  case h_1 now handled check =>
    obtain rfl := Option.some.inj h
    have owed := (inv.keeps k _ check).owed
    have ended : (w.put k none).Inv b := inv.put fun pc is => by cases is
    refine ⟨?_, fun j pc there => ⟨(ended.keeps j pc there).owed, (ended.keeps j pc there).adding⟩⟩
    rintro c ⟨⟨columns, is, new⟩, later⟩
    obtain rfl := Option.some.inj is
    cases old : w.baseline with
    | none =>
      rw [old] at later
      exact absurd new later
    | some before =>
      rw [old] at later
      by_cases known : c ∈ names before
      · exact inv.recorded c ⟨⟨before, old, known⟩, later⟩
      · by_cases brought : c ∈ handled
        · exact fun t mem evolves => owed t mem evolves c brought
        · exact careful now handled before check old c new known later brought
  case h_2 => cases h

/-- Every event keeps what the baseline knows at the targets. -/
theorem inv_step {e : Event T K} (careful : w.Careful b e) (inv : w.Inv b)
    (h : w.step b e = some w') : w'.Inv b := by
  cases e with
  | alter columns =>
    obtain rfl := Option.some.inj h
    exact ⟨inv.recorded, fun k pc there => ⟨(inv.keeps k pc there).owed, (inv.keeps k pc there).adding⟩⟩
  | create location columns =>
    simp only [step] at h
    split at h
    case isTrue absent =>
      obtain rfl := Option.some.inj h
      exact inv_create inv careful absent
    case isFalse => cases h
  | check k =>
    simp only [step] at h
    split at h
    case isTrue => cases h
    case isFalse =>
      obtain rfl := Option.some.inj h
      refine inv.put fun pc is => ?_
      obtain rfl := Option.some.inj is
      exact keeps_of_free (fun _ _ => id) (by simp)
  | look k ok => exact inv_look inv h
  | compare k => exact inv_compare inv h
  | reach k ok => exact inv_reach inv h
  | add k ok => exact inv_add inv h
  | record k => exact inv_record inv careful h
  | abort k =>
    simp only [step] at h
    split at h
    case isTrue =>
      obtain rfl := Option.some.inj h
      exact inv.put fun pc is => by cases is
    case isFalse => cases h

/-- Nothing was looked at yet. -/
def start (source : Option (List SchemaColumn)) (tables : T → Option (List String)) : World T K :=
  { source, tables }

/-- **No column is forgotten**, as long as no check accepts what it did not bring. -/
theorem evolve_remembers {source : Option (List SchemaColumn)}
    {tables : T → Option (List String)} {events : List (Event T K)}
    (run : Run (step b) (Careful b) (start source tables) events w) : w.Followed b := by
  have inv : w.Inv b := by
    refine run.invariant ⟨?_, ?_⟩ fun _ _ _ careful inv h => inv_step careful inv h
    · rintro c ⟨⟨columns, is, -⟩, -⟩
      cases is
    · intro k pc there
      cases there
  refine ⟨inv.recorded, ?_⟩
  intro old now c baseline _ here later lacks
  refine mem_added here fun known => lacks ?_
  exact inv.recorded c ⟨⟨old, baseline, known⟩, later⟩

/-! ## A check that fails and accepts -/

def column (name : String) : SchemaColumn := ⟨name, "text"⟩

/-- One target that takes the row as it comes. -/
def copied : Bridge Nat where
  sourceTable := "users"
  onSchemaChange := .evolve
  used := ["id"]
  targets := [⟨0, "users_copy", false, true, true⟩]

def firstLook : List (Event Nat Nat) := [.check 0, .look 0 true, .compare 0, .record 0]

/-- The source gains a column, and the target cannot be reached when it is looked at. -/
def unreachable : List (Event Nat Nat) :=
  [.alter (some [column "id", column "plan"]), .check 1, .look 1 true, .compare 1, .reach 1 true,
    .reach 1 false, .look 1 true, .compare 1, .record 1]

def users : World Nat Nat := start (some [column "id"]) fun t => if t = 0 then some ["id"] else none

/-- The failure is a message like any other, and the column is accepted. -/
theorem not_evolve_remembers :
    ¬ ∀ (events : List (Event Nat Nat)) (w : World Nat Nat),
      Run (step copied) anyStep users events w → w.Followed copied := by
  intro always
  let w := (runEvents (step copied) users (firstLook ++ unreachable)).getD users
  have run : Run (step copied) anyStep users (firstLook ++ unreachable) w := run_of_eval rfl
  have state : (∃ columns, w.baseline = some columns ∧ "plan" ∈ names columns) ∧
      "plan" ∉ w.first ∧ w.tables 0 = some ["id"] := by
    refine ⟨⟨[column "id", column "plan"], by decide +kernel, by decide⟩, by decide +kernel,
      by decide +kernel⟩
  obtain ⟨recorded, later, there⟩ := state
  have brought := (always _ w run).recorded "plan" ⟨recorded, later⟩
  have has := brought _ List.mem_cons_self rfl ["id"] there
  exact absurd has (by decide)

/-- When the target answers it gets the column… -/
def reachable : List (Event Nat Nat) :=
  [.alter (some [column "id", column "plan"]), .check 1, .look 1 true, .compare 1, .reach 1 true,
    .reach 1 true, .add 1 true, .look 1 true, .compare 1]

/-- …and the baseline has it then. -/
theorem evolve_remembers_reached :
    ∃ w : World Nat Nat, w.baseline = some [column "id", column "plan"] ∧
      w.tables 0 = some ["id", "plan"] ∧ w.Followed copied := by
  let w := (runEvents (step copied) users (firstLook.take 3)).getD users
  let w' := (w.step copied (.record 0)).getD users
  let w'' := (runEvents (step copied) w' reachable).getD users
  have looks : Run (step copied) (Careful copied) users (firstLook.take 3) w := by
    refine (run_of_eval rfl).of_events fun e mem s => ?_
    simp only [firstLook, List.take_succ_cons, List.take_zero, List.mem_cons, List.not_mem_nil,
      or_false] at mem
    rcases mem with rfl | rfl | rfl <;> trivial
  have first : w.Careful copied (.record 0) := by
    intro _ _ old _ is
    have none : w.baseline = none := by decide +kernel
    rw [none] at is
    cases is
  have recorded : Run (step copied) (Careful copied) users (firstLook.take 3 ++ [.record 0]) w' :=
    looks.snoc first rfl
  have follows : Run (step copied) (Careful copied) w' reachable w'' := by
    refine (run_of_eval rfl).of_events fun e mem s => ?_
    simp only [reachable, List.mem_cons, List.not_mem_nil, or_false] at mem
    rcases mem with rfl | rfl | rfl | rfl | rfl | rfl | rfl | rfl | rfl <;> trivial
  have brought : w''.Careful copied (.record 1) := by
    intro now handled old is _ c here _ later alone
    obtain ⟨rfl, rfl⟩ : [column "id", column "plan"] = now ∧ ["plan"] = handled := by
      have at_ : w''.checks 1 = some (.recording [column "id", column "plan"] ["plan"]) := rfl
      rw [at_] at is
      cases is
      exact ⟨rfl, rfl⟩
    have first : w''.first = ["id"] := by decide +kernel
    rw [first] at later
    have : c = "id" ∨ c = "plan" := by simpa [names, column] using here
    rcases this with rfl | rfl
    · exact absurd List.mem_cons_self later
    · exact absurd List.mem_cons_self alone
  have run : Run (step copied) (Careful copied) users _ _ :=
    (recorded.append follows).snoc brought rfl
  exact ⟨_, by decide +kernel, by decide +kernel, evolve_remembers run⟩

end World

end Syncle.Drift
