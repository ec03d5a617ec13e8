import Syncle.Lib.Run
import Syncle.Drift.Readers

/-!
# A change is noticed, or it is not

A row that was captured after the change reaches the targets unless it is held against a row from
before and the table, looked at that moment, still shows the change (`Noticed`). The first row of a
run is held against nothing, nor is any row of a replay that did not learn whether its table has
columns to compare; a row that is deleted is never compared, and a column that is back by the time
of the look was never gone.
-/

namespace Syncle.Drift

open Lib

variable {T : Type*} {b : Bridge T} {mode : Mode} {batchSize : Nat} {s s' : Reading}

namespace Reading

/-- The table can be looked at, and lacks a used column. -/
def Gone (b : Bridge T) (s : Reading) (look : Bool) : Prop :=
  look = true ∧ ∃ old now, s.baseline = some old ∧ s.source = some now ∧
    ∃ c ∈ b.used, c ∈ names old ∧ c ∉ names now

/-- A row captured after the change is compared with one from before, and the look sees why they
differ. -/
def Noticed (b : Bridge T) (mode : Mode) (s : Reading) : ReadingEvent → Prop
  | .take look passes => ∀ row rest, s.read = row :: rest → row.late = true →
      (passes = true ∨ mode = .replay) →
      ¬ (mode = .live ∧ row.op = .delete) ∧ s.otherColumns row = true ∧ s.Gone b look
  | _ => True

/-- Nothing late is on its way to the targets, or there. -/
def Clean (s : Reading) : Prop := ∀ r ∈ s.buffer ++ s.delivered, r.late = false

theorem removed_of_diff {old now : List SchemaColumn} {drift : SchemaDrift}
    (diff : diffColumns old now = some drift) :
    drift.removed = old.filter fun c => c.name ∉ names now := by
  unfold diffColumns at diff
  simp only at diff
  split at diff
  case isTrue => cases diff
  case isFalse => exact congrArg SchemaDrift.removed (Option.some.inj diff).symm

/-- The check says stop when it can look and a used column is gone. -/
theorem check_stops (policy : b.onSchemaChange = .stop) (look : Bool) :
    (s.check b look).2 = true ↔ s.Gone b look := by
  unfold check Gone
  cases look with
  | false => simp
  | true =>
    cases source : s.source with
    | none => simp
    | some now =>
      cases baseline : s.baseline with
      | none => simp
      | some old =>
        simp only [if_true, Option.any_eq_true_iff_get]
        constructor
        · intro stops
          cases diff : diffColumns old now with
          | none => simp [diff] at stops
          | some drift =>
            have missing : b.missingUsed drift ≠ [] := by
              intro none
              simp [diff, Bridge.stop, none] at stops
            obtain ⟨c, hc⟩ := List.exists_mem_of_ne_nil _ missing
            obtain ⟨used, gone⟩ := List.mem_filter.mp hc
            obtain ⟨column, removed, rfl⟩ := List.mem_map.mp (of_decide_eq_true gone)
            rw [removed_of_diff diff, List.mem_filter] at removed
            exact ⟨trivial, old, now, rfl, rfl, _, used, List.mem_map_of_mem removed.1,
              by simpa using removed.2⟩
        · rintro ⟨-, old', now', is, is', c, used, had, lacks⟩
          obtain rfl := Option.some.inj is
          obtain rfl := Option.some.inj is'
          obtain ⟨drift, diff, removed⟩ := mem_removed lacks had
          have missing : b.missingUsed drift ≠ [] :=
            List.ne_nil_of_mem (List.mem_filter.mpr ⟨used, decide_eq_true removed⟩)
          simp [diff, Bridge.stop, missing, policy]

/-! ## A row that is looked at -/

/-- Of what goes to the targets, `x` is new. -/
structure Onward (s s' : Reading) (x : Option Row) : Prop where
  only : ∀ r ∈ s'.buffer ++ s'.delivered, r ∈ s.buffer ++ s.delivered ∨ x = some r
  goes : ∀ r, x = some r → r ∈ s'.buffer ++ s'.delivered

/-- The look after this row says stop. -/
def HeldBack (b : Bridge T) (mode : Mode) (s : Reading) (row : Row) (look passes : Bool) : Prop :=
  ¬ (mode = .live ∧ row.op = .delete) ∧ s.otherColumns row = true ∧ (s.check b look).2 = true ∧
    (mode = .poll → passes = true)

/-! Three ways for a row: none goes on, one joins the batch, or the batch goes out with it. -/

theorem onward_none {r r' : Reading} (buffer : ∀ x ∈ r'.buffer, x ∈ r.buffer ++ r.delivered)
    (delivered : ∀ x ∈ r'.delivered, x ∈ r.buffer ++ r.delivered) : r.Onward r' none := by
  refine ⟨fun x hx => Or.inl ?_, fun x is => by cases is⟩
  rcases List.mem_append.mp hx with mem | mem
  · exact buffer x mem
  · exact delivered x mem

theorem onward_buffer {r r' : Reading} {row : Row} (passes : Bool)
    (buffer : r'.buffer = if passes then r.buffer ++ [row] else r.buffer)
    (delivered : r'.delivered = r.delivered) :
    r.Onward r' (if passes then some row else none) := by
  cases passes with
  | false =>
    have same : r'.buffer = r.buffer := by simpa using buffer
    refine onward_none (fun x hx => ?_) fun x hx => ?_
    · exact List.mem_append_left _ (same ▸ hx)
    · exact List.mem_append_right _ (delivered ▸ hx)
  | true =>
    simp only [if_true] at buffer ⊢
    refine ⟨fun x hx => ?_, fun x is => ?_⟩
    · rw [buffer, delivered] at hx
      simp only [List.mem_append, List.mem_singleton] at hx ⊢
      rcases hx with (old | rfl) | old
      · exact Or.inl (Or.inl old)
      · exact Or.inr rfl
      · exact Or.inl (Or.inr old)
    · obtain rfl := Option.some.inj is
      rw [buffer]
      simp

theorem onward_delivered {r r' : Reading} {row : Row} (buffer : ∀ x ∈ r'.buffer, x ∈ r.buffer)
    (delivered : ∀ x, x ∈ r'.delivered ↔ x ∈ r.buffer ++ r.delivered ∨ x = row) :
    r.Onward r' (some row) := by
  refine ⟨fun x hx => ?_, fun x is => ?_⟩
  · rcases List.mem_append.mp hx with mem | mem
    · exact Or.inl (List.mem_append_left _ (buffer x mem))
    · exact ((delivered x).mp mem).imp id fun is => congrArg some is.symm
  · obtain rfl := Option.some.inj is
    exact List.mem_append_right _ ((delivered row).mpr (Or.inr rfl))

/-- A live stream looks where the columns changed, and not before a delete. -/
theorem accept_cases {look passes : Bool} (h : s.accept b look passes = some s') :
    ∃ row rest, s.read = row :: rest ∧
      (s.HeldBack b .live row look passes ∧ s.Onward s' none ∨
        ¬ s.HeldBack b .live row look passes ∧ s.Onward s' (if passes then some row else none)) := by
  unfold accept at h
  split at h
  case h_1 => cases h
  case h_2 row rest read =>
    refine ⟨row, rest, read, ?_⟩
    simp only at h
    split at h
    case isTrue deleted =>
      obtain rfl := Option.some.inj h
      refine Or.inr ⟨fun held => held.1 ⟨rfl, deleted⟩, onward_buffer passes ?_ ?_⟩
      · cases passes <;> rfl
      · cases passes <;> rfl
    case isFalse kept =>
      split at h
      case isTrue other =>
        split at h
        case isTrue stops =>
          obtain rfl := Option.some.inj h
          refine Or.inl ⟨⟨fun both => kept both.2, other, stops, by simp⟩, onward_none ?_ ?_⟩
          · intro x hx
            cases hx
          · intro x hx
            rcases List.mem_append.mp hx with mem | mem
            · exact List.mem_append_right _ mem
            · exact List.mem_append_left _ mem
        case isFalse goes =>
          obtain rfl := Option.some.inj h
          refine Or.inr ⟨fun held => goes held.2.2.1, onward_buffer passes ?_ ?_⟩
          · cases passes <;> rfl
          · cases passes <;> rfl
      case isFalse same =>
        obtain rfl := Option.some.inj h
        refine Or.inr ⟨fun held => same held.2.1, onward_buffer passes ?_ ?_⟩
        · cases passes <;> rfl
        · cases passes <;> rfl

/-- A replay looks before each row goes into its batch, and has no filter of its own. -/
theorem execute_cases {look passes : Bool} (h : s.execute b batchSize look = some s') :
    ∃ row rest, s.read = row :: rest ∧
      (s.HeldBack b .replay row look passes ∧ s.Onward s' none ∨
        ¬ s.HeldBack b .replay row look passes ∧ s.Onward s' (some row)) := by
  -- the batch is full, or it is not
  have kept : ∀ {r : Reading} {row : Row}, r.buffer = s.buffer → r.delivered = s.delivered →
      s.Onward (if r.buffer.length + 1 = batchSize then
          { r with delivered := r.delivered ++ (r.buffer ++ [row]), buffer := [] }
        else { r with buffer := r.buffer ++ [row] }) (some row) := by
    intro r row buffer delivered
    split
    case isTrue =>
      refine onward_delivered (fun x hx => by cases hx) fun x => ?_
      simp only [buffer, delivered, List.mem_append, List.mem_singleton]
      tauto
    case isFalse =>
      exact onward_buffer true (by simp [buffer]) delivered
  unfold execute at h
  split at h
  case h_1 => cases h
  case h_2 row rest read =>
    refine ⟨row, rest, read, ?_⟩
    simp only at h
    split at h
    case isTrue other =>
      split at h
      case isTrue stops =>
        obtain rfl := Option.some.inj h
        refine Or.inl ⟨⟨by simp, other, stops, by simp⟩, onward_none ?_ ?_⟩
        · intro x hx
          cases hx
        · exact fun x hx => List.mem_append_right _ hx
      case isFalse goes =>
        obtain rfl := Option.some.inj h
        exact Or.inr ⟨fun held => goes held.2.2.1, kept rfl rfl⟩
    case isFalse same =>
      obtain rfl := Option.some.inj h
      exact Or.inr ⟨fun held => same held.2.1, kept rfl rfl⟩

/-- A poll looks only at what its filters pass, and sends row by row. -/
theorem poll_cases {look passes : Bool} (h : s.poll b look passes = some s') :
    ∃ row rest, s.read = row :: rest ∧
      (s.HeldBack b .poll row look passes ∧ s.Onward s' none ∨
        ¬ s.HeldBack b .poll row look passes ∧ s.Onward s' (if passes then some row else none)) := by
  unfold poll at h
  split at h
  case h_1 => cases h
  case h_2 row rest read =>
    refine ⟨row, rest, read, ?_⟩
    have delivers : ∀ {r : Reading}, r.buffer = s.buffer → r.delivered = s.delivered ++ [row] →
        s.Onward r (some row) := by
      intro r buffer delivered
      refine ⟨fun x hx => ?_, fun x is => ?_⟩
      · rw [buffer, delivered] at hx
        simp only [List.mem_append, List.mem_singleton] at hx ⊢
        rcases hx with old | old | rfl
        · exact Or.inl (Or.inl old)
        · exact Or.inl (Or.inr old)
        · exact Or.inr rfl
      · obtain rfl := Option.some.inj is
        rw [delivered]
        simp
    cases passes with
    | false =>
      obtain rfl := Option.some.inj h
      refine Or.inr ⟨fun held => absurd (held.2.2.2 rfl) (by simp), onward_none ?_ ?_⟩
      · exact fun x hx => List.mem_append_left _ hx
      · exact fun x hx => List.mem_append_right _ hx
    | true =>
      simp only [Bool.not_true, Bool.false_eq_true, if_false] at h
      split at h
      case isTrue other =>
        split at h
        case isTrue stops =>
          obtain rfl := Option.some.inj h
          refine Or.inl ⟨⟨by simp, other, stops, fun _ => rfl⟩, onward_none ?_ ?_⟩
          · exact fun x hx => List.mem_append_left _ hx
          · exact fun x hx => List.mem_append_right _ hx
        case isFalse goes =>
          obtain rfl := Option.some.inj h
          exact Or.inr ⟨fun held => goes held.2.2.1, delivers rfl rfl⟩
      case isFalse same =>
        obtain rfl := Option.some.inj h
        exact Or.inr ⟨fun held => same held.2.1, delivers rfl rfl⟩

/-- The next row is looked at: it is held back, or it goes on if it passes. -/
theorem take_cases {look passes : Bool}
    (h : s.step b mode batchSize (.take look passes) = some s') :
    ∃ row rest, s.read = row :: rest ∧
      (s.HeldBack b mode row look passes ∧ s.Onward s' none ∨
        ¬ s.HeldBack b mode row look passes ∧
          s.Onward s' (if passes = true ∨ mode = .replay then some row else none)) := by
  simp only [step] at h
  split at h
  case isFalse => cases h
  case isTrue =>
    cases mode with
    | live => simpa using accept_cases h
    | replay => simpa using execute_cases h
    | poll => simpa using poll_cases h

theorem heldBack_iff (policy : b.onSchemaChange = .stop) {row : Row} {look passes : Bool}
    (goes : passes = true ∨ mode = .replay) :
    s.HeldBack b mode row look passes ↔
      ¬ (mode = .live ∧ row.op = .delete) ∧ s.otherColumns row = true ∧ s.Gone b look := by
  unfold HeldBack
  rw [check_stops policy]
  constructor
  · exact fun ⟨op, other, gone, _⟩ => ⟨op, other, gone⟩
  · rintro ⟨op, other, gone⟩
    refine ⟨op, other, gone, fun polls => ?_⟩
    rcases goes with passes | replays
    · exact passes
    · rw [polls] at replays
      cases replays

theorem clean_step (policy : b.onSchemaChange = .stop) {e : ReadingEvent}
    (noticed : s.Noticed b mode e) (clean : s.Clean) (h : s.step b mode batchSize e = some s') :
    s'.Clean := by
  have kept : ∀ r : Reading, (∀ x ∈ r.buffer ++ r.delivered, x ∈ s.buffer ++ s.delivered) →
      r.Clean := fun r sub x hx => clean x (sub x hx)
  cases e with
  | alter columns =>
    obtain rfl := Option.some.inj h
    exact clean
  | capture op =>
    simp only [step] at h
    split at h
    case isTrue => cases h
    case isFalse =>
      obtain ⟨columns, -, rfl⟩ := Option.map_eq_some_iff.mp h
      exact clean
  | start look watches =>
    simp only [step] at h
    split at h
    case isTrue => cases h
    case isFalse =>
      obtain rfl := Option.some.inj h
      unfold start
      simp only
      split
      case isTrue => exact clean
      case isFalse => exact kept _ fun x hx => List.mem_append_right _ hx
  | resume =>
    simp only [step] at h
    split at h
    case h_1 =>
      split at h
      case isTrue => cases h
      case isFalse =>
        obtain rfl := Option.some.inj h
        exact clean
    case h_2 => cases h
    case h_3 =>
      obtain rfl := Option.some.inj h
      exact clean
  | take look passes =>
    obtain ⟨row, rest, read, ⟨-, onward⟩ | ⟨goes, onward⟩⟩ := take_cases h
    · exact kept _ fun x hx => (onward.only x hx).resolve_right (by simp)
    · intro x hx
      rcases onward.only x hx with old | new
      · exact clean x old
      · split at new
        case isFalse => cases new
        case isTrue passes =>
          obtain rfl := Option.some.inj new
          by_contra late
          refine goes ((heldBack_iff policy passes).mpr ?_)
          exact noticed row rest read (by simpa using late) passes
  | flush =>
    simp only [step] at h
    split at h
    case isTrue =>
      obtain rfl := Option.some.inj h
      refine kept _ fun x hx => ?_
      rw [List.nil_append] at hx
      exact List.mem_append.mpr (List.mem_append.mp hx).symm
    case isFalse => cases h
  | stop =>
    obtain rfl := Option.some.inj h
    exact kept _ fun x hx => List.mem_append_right _ hx

/-- A bridge with nothing read yet. -/
def fresh (source baseline : Option (List SchemaColumn)) : Reading := { source, baseline }

/-- **What comes after the change stays out**, as long as each row that does is noticed; and one
that is not is on its way to the targets. -/
theorem stops_at_change (policy : b.onSchemaChange = .stop)
    {source baseline : Option (List SchemaColumn)} {events : List ReadingEvent}
    (run : Run (step b mode batchSize) (Noticed b mode) (fresh source baseline) events s) :
    (∀ r ∈ s.delivered, r.late = false) ∧
      ∀ e s', ¬ s.Noticed b mode e → s.step b mode batchSize e = some s' →
        ∃ r ∈ s'.buffer ++ s'.delivered, r.late = true := by
  have clean : s.Clean := by
    refine run.invariant ?_ fun _ _ _ noticed clean h => clean_step policy noticed clean h
    intro r hr
    cases hr
  refine ⟨fun r hr => clean r (List.mem_append_right _ hr), fun e s' unnoticed h => ?_⟩
  cases e with
  | take look passes =>
    simp only [Noticed, not_forall] at unnoticed
    obtain ⟨row, rest, read, late, passes', missed⟩ := unnoticed
    obtain ⟨row', rest', read', ⟨held, -⟩ | ⟨-, onward⟩⟩ := take_cases h
    · rw [read] at read'
      obtain ⟨rfl, -⟩ := List.cons.inj read'
      exact absurd ((heldBack_iff policy passes').mp held) missed
    · rw [read] at read'
      obtain ⟨rfl, -⟩ := List.cons.inj read'
      rw [if_pos passes'] at onward
      exact ⟨row, onward.goes row rfl, late⟩
  | _ => exact absurd trivial unnoticed

/-! ## The first row of a run -/

def named (columns : List String) : List SchemaColumn := columns.map fun name => ⟨name, "text"⟩

/-- A live bridge that maps the column. -/
def mapsName : Bridge Nat where
  sourceTable := "users"
  onSchemaChange := .stop
  used := ["id", "name"]
  targets := [⟨0, "users_copy", true, false, true⟩]

/-- The column is dropped between the look at the start and the first change. -/
def firstChange : List ReadingEvent :=
  [.start true, .alter (some (named ["id"])), .capture .upsert, .take true true, .flush]

theorem not_stops_at_change :
    ¬ ∀ (b : Bridge Nat) (mode : Mode) (batchSize : Nat) (columns : Option (List SchemaColumn))
      (events : List ReadingEvent) (s : Reading), b.onSchemaChange = .stop →
      Run (step b mode batchSize) anyStep (fresh columns columns) events s →
      ∀ r ∈ s.delivered, r.late = false := by
  intro always
  let users := some (named ["id", "name"])
  let s := (runEvents (step mapsName .live 1) (fresh users users) firstChange).getD (fresh users users)
  have run : Run (step mapsName .live 1) anyStep (fresh users users) firstChange s :=
    run_of_eval (by decide +kernel)
  have late := always mapsName .live 1 users firstChange s rfl run ⟨.upsert, ["id"], true⟩
    (by decide +kernel)
  cases late

/-- After a row with the column the next one is held against it, and the bridge stops. -/
theorem stops_at_change_second :
    ∃ s : Reading, s.running = false ∧ s.delivered = [⟨.upsert, ["id", "name"], false⟩] ∧
      ∀ r ∈ s.delivered, r.late = false := by
  let users := some (named ["id", "name"])
  let early : List ReadingEvent := [.start true, .capture .upsert]
  let late : List ReadingEvent := [.alter (some (named ["id"])), .capture .upsert]
  let s := (runEvents (step mapsName .live 1) (fresh users users) early).getD (fresh users users)
  let after := (s.step mapsName .live 1 (.take true true)).getD s
  let changed := (runEvents (step mapsName .live 1) after late).getD s
  let last := (changed.step mapsName .live 1 (.take true true)).getD s
  have begun : Run (step mapsName .live 1) (Noticed mapsName .live) (fresh users users) early s := by
    refine (run_of_eval (by decide +kernel)).of_events fun e mem s => ?_
    simp only [early, List.mem_cons, List.not_mem_nil, or_false] at mem
    rcases mem with rfl | rfl <;> trivial
  have first : s.Noticed mapsName .live (.take true true) := by
    intro row rest read is
    have head : s.read = [⟨.upsert, ["id", "name"], false⟩] := by decide +kernel
    rw [head] at read
    obtain ⟨rfl, -⟩ := List.cons.inj read
    cases is
  have dropped : Run (step mapsName .live 1) (Noticed mapsName .live) after late changed := by
    refine (run_of_eval (by decide +kernel)).of_events fun e mem s => ?_
    simp only [late, List.mem_cons, List.not_mem_nil, or_false] at mem
    rcases mem with rfl | rfl <;> trivial
  have second : changed.Noticed mapsName .live (.take true true) := by
    intro row rest read is _
    have head : changed.read = [⟨.upsert, ["id"], true⟩] := by decide +kernel
    rw [head] at read
    obtain ⟨rfl, -⟩ := List.cons.inj read
    refine ⟨by simp, by decide +kernel, rfl, named ["id", "name"], named ["id"], ?_, ?_, "name", ?_⟩
    · decide +kernel
    · decide +kernel
    · decide +kernel
  have whole := ((begun.snoc first (u := after) (by decide +kernel)).append dropped).snoc second
    (u := last) (by decide +kernel)
  exact ⟨last, by decide +kernel, by decide +kernel, (stops_at_change rfl whole).1⟩

end Reading

end Syncle.Drift
