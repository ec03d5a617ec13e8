import Mathlib.Data.List.Perm.Subperm
import Syncle.Lib.Decimal
import Syncle.Transfer.Import

/-!
# All or nothing

An import checks the connections a document names and the names its bridges take. What the store
asks of a bridge, a writable connection and Redis keys in Redis alone, and what the database says, comes
up while the entries before it are stored. `allOrNothing_iff`: an import is all or nothing unless the
first entry that is refused is a later one.
-/

namespace Syncle.Transfer

open Lib
open Builder (Destination DatabaseTarget)

/-! ## The statement -/

/-- A row as its entry describes it: its connections are their counterparts, it is in the workspace, a
schedule and, where a credential is wanted, the bridge itself is off, and all else is the entry's. -/
structure Described (w : World) (map : ConnectionMap) (workspaceId : String) (i : ℕ)
    (entry : BridgeInput) (row : BridgeRow) : Prop where
  name : ∃ n, row.name = importedName entry.name n
  workspaceId : row.workspaceId = workspaceId
  connectionId : row.connectionId = map.to entry.source.connectionId
  source : row.source = entry.source.at (map.to entry.source.connectionId)
  destination : row.destination = (splitSecret (remapDestination map entry.destination)).1
  secret : row.authEnc = ((splitSecret entry.destination).2.filter (· ≠ "")).map (w.encrypt i)
  trigger : row.trigger = (withScheduleOff entry.trigger).1
  enabled : row.enabled = (entry.enabled && !credentialMissing entry.destination)
  transform : row.transform = entry.transform
  delivery : row.delivery = entry.delivery

def workspaceOf (dto : BridgeImport) : String := dto.workspaceId.getD defaultWorkspaceId

/-- The names that are taken in the workspace. -/
def takenIn (workspaceId : String) (bridges : List BridgeRow) : List String :=
  (bridges.filter fun b => b.workspaceId = workspaceId).map (·.name)

/-- Every entry has become a row of its own, under a name no other bridge has; or nothing has changed. -/
def AllOrNothing (w : World) (dto : BridgeImport) (before : List BridgeRow) : Prop :=
  (∃ map rows,
      resolveConnections w dto (workspaceOf dto) = .ok (map, []) ∧
      (importBridges w dto before).2 = before ++ rows ∧
      (importBridges w dto before).1.map (·.created) = .ok (rows.map fun row => (row.id, row.name)) ∧
      rows.length = dto.bridges.length ∧
      (∀ i entry row, dto.bridges[i]? = some entry → rows[i]? = some row →
        Described w map (workspaceOf dto) i entry row) ∧
      (rows.map (·.name)).Nodup ∧ ∀ row ∈ rows, row.name ∉ takenIn (workspaceOf dto) before) ∨
    ((∃ refusal, (importBridges w dto before).1 = .error refusal) ∧ (importBridges w dto before).2 = before)

/-- The store refuses the entry at that place: its connections will not take it, or the database. -/
def Refuses (w : World) (map : ConnectionMap) (i : ℕ) (entry : BridgeInput) : Prop :=
  (∃ refusal, assertTargetsWritable (w.atCreate i) (remapDestination map entry.destination) =
    .error refusal) ∨ (w.insert i).isSome

/-! ## Names -/

/-- No two turns of the loop try the same name. -/
theorem importedName_inj {name : String} {m n : ℕ} (h : importedName name m = importedName name n) :
    m = n := by
  have letters := congrArg String.toList h
  cases m with
  | zero =>
    cases n with
    | zero => rfl
    | succ n =>
      cases n with
      | zero => simp [importedName] at letters
      | succ n => simp [importedName] at letters
  | succ m =>
    cases m with
    | zero =>
      cases n with
      | zero => simp [importedName] at letters
      | succ n =>
        cases n with
        | zero => rfl
        | succ n => simp [importedName] at letters
    | succ m =>
      cases n with
      | zero => simp [importedName] at letters
      | succ n =>
        cases n with
        | zero => simp [importedName] at letters
        | succ n =>
          simp only [importedName, String.toList_append, List.append_assoc, List.append_cancel_left_eq,
            List.append_cancel_right_eq] at letters
          exact toString_inj (String.toList_inj.mp letters)

/-- While the names that were tried were taken, so is the one that is not free. -/
theorem freeName_tried {taken : List String} {name : String} {fuel n : ℕ}
    (h : freeName taken name fuel n ∈ taken) : ∀ k ≤ fuel, importedName name (n + k) ∈ taken := by
  induction fuel generalizing n with
  | zero =>
    intro k least
    obtain rfl : k = 0 := by omega
    exact h
  | succ fuel ih =>
    rw [freeName] at h
    split at h
    case isTrue here =>
      intro k least
      cases k with
      | zero => exact here
      | succ k =>
        have later := ih h k (by omega)
        rwa [Nat.add_right_comm] at later
    case isFalse free => exact absurd h free

/-- The loop ends at a name that is free. -/
theorem freeName_free (taken : List String) (name : String) :
    freeName taken name taken.length 0 ∉ taken := by
  intro mem
  have tried := freeName_tried mem
  have nodup : ((List.range (taken.length + 1)).map (importedName name)).Nodup :=
    List.nodup_range.map fun _ _ => importedName_inj
  have within : (List.range (taken.length + 1)).map (importedName name) ⊆ taken := by
    intro other mem
    obtain ⟨k, less, rfl⟩ := List.mem_map.mp mem
    have there := tried k (Nat.lt_succ_iff.mp (List.mem_range.mp less))
    rwa [Nat.zero_add] at there
  have most := (List.subperm_of_subset nodup within).length_le
  simp at most

theorem freeName_imported (taken : List String) (name : String) (fuel n : ℕ) :
    ∃ m, freeName taken name fuel n = importedName name m := by
  induction fuel generalizing n with
  | zero => exact ⟨n, rfl⟩
  | succ fuel ih =>
    rw [freeName]
    split
    · exact ih (n + 1)
    · exact ⟨n, rfl⟩

/-! ## Preparing -/

section Prepare

variable {map : ConnectionMap} {workspaceId : String}

theorem length_prepare (taken : List String) (entries : List BridgeInput) :
    (prepare map workspaceId taken entries).1.length = entries.length := by
  induction entries generalizing taken with
  | nil => rfl
  | cons entry rest ih => simp [prepare, ih]

variable (map workspaceId) in
/-- Each entry is prepared by itself, but for its name. -/
theorem getElem?_prepare (taken : List String) (entries : List BridgeInput) (i : ℕ) :
    (prepare map workspaceId taken entries).1[i]? = none ∧ entries[i]? = none ∨
      ∃ entry n, entries[i]? = some entry ∧ (prepare map workspaceId taken entries).1[i]? =
        some (prepareOne map workspaceId (importedName entry.name n) entry) := by
  induction entries generalizing taken i with
  | nil => exact .inl ⟨rfl, rfl⟩
  | cons entry rest ih =>
    cases i with
    | zero =>
      obtain ⟨n, is⟩ := freeName_imported taken entry.name taken.length 0
      exact .inr ⟨entry, n, rfl, by simp [prepare, is]⟩
    | succ i => exact ih _ i

variable (map workspaceId) in
/-- The names are free ones, and no two alike. -/
theorem names_prepare (taken : List String) (entries : List BridgeInput) :
    ((prepare map workspaceId taken entries).1.map (·.name)).Nodup ∧
      ∀ name ∈ (prepare map workspaceId taken entries).1.map (·.name), name ∉ taken := by
  induction entries generalizing taken with
  | nil => exact ⟨List.nodup_nil, fun name mem => by cases mem⟩
  | cons entry rest ih =>
    obtain ⟨nodup, free⟩ := ih (freeName taken entry.name taken.length 0 :: taken)
    simp only [prepare, List.map_cons, List.nodup_cons, List.forall_mem_cons]
    refine ⟨⟨fun mem => free _ mem List.mem_cons_self, nodup⟩, freeName_free taken entry.name, ?_⟩
    intro name mem there
    exact free name mem (List.mem_cons_of_mem _ there)

theorem connectionId_at (source : Source) (id : String) : (source.at id).connectionId = id := by
  cases source <;> rfl

theorem credentialMissing_remap (d : Destination) :
    credentialMissing (remapDestination map d) = credentialMissing d := by
  cases d <;> rfl

theorem secret_remap (d : Destination) :
    (splitSecret (remapDestination map d)).2 = (splitSecret d).2 := by
  cases d <;> rfl

/-- **What is stored of an entry is what it describes.** -/
theorem described_rowOf (w : World) (i n : ℕ) (entry : BridgeInput) :
    Described w map workspaceId i entry
      (rowOf w i (prepareOne map workspaceId (importedName entry.name n) entry)) where
  name := ⟨n, rfl⟩
  workspaceId := rfl
  connectionId := connectionId_at _ _
  source := rfl
  destination := rfl
  secret := by
    show ((splitSecret (remapDestination map entry.destination)).2.filter (· ≠ "")).map (w.encrypt i) = _
    rw [secret_remap]
  trigger := rfl
  enabled := by
    show (if credentialMissing (remapDestination map entry.destination) then false else entry.enabled) = _
    rw [credentialMissing_remap]
    cases credentialMissing entry.destination <;> simp
  transform := rfl
  delivery := rfl

end Prepare

/-! ## Creating -/

section Create

variable {w : World}

theorem create_error_iff {i : ℕ} {input : BridgeInput} :
    (∃ refusal, create w i input = .error refusal) ↔
      (∃ refusal, assertTargetsWritable (w.atCreate i) input.destination = .error refusal) ∨
        (w.insert i).isSome := by
  unfold create
  cases assertTargetsWritable (w.atCreate i) input.destination with
  | error refusal => exact iff_of_true ⟨refusal, rfl⟩ (.inl ⟨refusal, rfl⟩)
  | ok _ =>
    cases w.insert i with
    | some message => exact iff_of_true ⟨_, rfl⟩ (.inr rfl)
    | none =>
      refine iff_of_false ?_ ?_
      · rintro ⟨_, no⟩
        cases no
      · rintro (⟨_, no⟩ | no) <;> cases no

theorem create_ok {i : ℕ} {input : BridgeInput} {row : BridgeRow} (h : create w i input = .ok row) :
    row = rowOf w i input := by
  unfold create at h
  cases writable : assertTargetsWritable (w.atCreate i) input.destination with
  | error refusal =>
    rw [writable] at h
    cases h
  | ok _ =>
    rw [writable] at h
    cases inserted : w.insert i with
    | some message =>
      rw [inserted] at h
      cases h
    | none =>
      rw [inserted] at h
      cases h
      rfl

theorem names_rowOf (inputs : List BridgeInput) :
    (inputs.mapIdx fun j => rowOf w (0 + j)).map (·.name) = inputs.map (·.name) := by
  apply List.ext_getElem?
  intro j
  rw [List.getElem?_map, List.getElem?_mapIdx, List.getElem?_map, Option.map_map]
  rfl

/-- The entries are created in turn up to the first that is refused. -/
theorem createAll_cases (i : ℕ) (inputs : List BridgeInput) :
    ((createAll w i inputs).2 = none ∧
        (createAll w i inputs).1 = inputs.mapIdx (fun j => rowOf w (i + j)) ∧
        ∀ j input, inputs[j]? = some input → ¬ ∃ refusal, create w (i + j) input = .error refusal) ∨
      ∃ refusal, (createAll w i inputs).2 = some refusal ∧
        (∃ j input, inputs[j]? = some input ∧ ∃ refusal, create w (i + j) input = .error refusal) ∧
        ((createAll w i inputs).1 = [] ↔
          ∃ input, inputs[0]? = some input ∧ ∃ refusal, create w i input = .error refusal) := by
  induction inputs generalizing i with
  | nil => exact .inl ⟨rfl, rfl, fun j input is => by simp at is⟩
  | cons input rest ih =>
    cases made : create w i input with
    | error refusal =>
      refine .inr ⟨refusal, by simp [createAll, made], ⟨0, input, rfl, refusal, made⟩, ?_⟩
      exact iff_of_true (by simp [createAll, made]) ⟨input, rfl, refusal, made⟩
    | ok row =>
      have first : ¬ ∃ refusal, create w i input = .error refusal := by
        rintro ⟨refusal, no⟩
        rw [made] at no
        cases no
      have turn : createAll w i (input :: rest) =
          (row :: (createAll w (i + 1) rest).1, (createAll w (i + 1) rest).2) := by
        simp only [createAll, made]
      rw [turn]
      rcases ih (i + 1) with ⟨all, rows, none_⟩ | ⟨refusal, stopped, ⟨j, later, there, refused⟩, _⟩
      · refine .inl ⟨all, ?_, ?_⟩
        · show row :: (createAll w (i + 1) rest).1 = _
          rw [rows, List.mapIdx_cons, create_ok made]
          simp only [Nat.add_zero, Nat.add_comm 1, Nat.add_assoc]
        · intro j other is
          cases j with
          | zero =>
            obtain rfl := Option.some.inj is
            exact first
          | succ j =>
            have clear := none_ j other is
            rwa [Nat.add_assoc, Nat.add_comm 1] at clear
      · refine .inr ⟨refusal, stopped, ⟨j + 1, later, there, ?_⟩, ?_⟩
        · rwa [Nat.add_assoc, Nat.add_comm 1] at refused
        · refine iff_of_false (List.cons_ne_nil _ _) ?_
          rintro ⟨other, is, refused⟩
          obtain rfl := Option.some.inj is
          exact first refused

end Create

/-! ## The import -/

/-- The entries as they are created. -/
def preparedOf (dto : BridgeImport) (map : ConnectionMap) (before : List BridgeRow) : List BridgeInput :=
  (prepare map (workspaceOf dto) (takenIn (workspaceOf dto) before) dto.bridges).1

section Resolved

variable {w : World} {dto : BridgeImport} {map : ConnectionMap} {before : List BridgeRow}

theorem stored_of_resolved (resolved : resolveConnections w dto (workspaceOf dto) = .ok (map, [])) :
    (importBridges w dto before).2 = before ++ (createAll w 0 (preparedOf dto map before)).1 := by
  simp only [importBridges, ← workspaceOf.eq_def, resolved, ne_eq, not_true_eq_false, if_false,
    ← takenIn.eq_def, ← preparedOf.eq_def]
  split <;> rfl

theorem result_of_created (resolved : resolveConnections w dto (workspaceOf dto) = .ok (map, []))
    (all : (createAll w 0 (preparedOf dto map before)).2 = none) :
    (importBridges w dto before).1.map (·.created) =
      .ok ((createAll w 0 (preparedOf dto map before)).1.map fun row => (row.id, row.name)) := by
  simp only [importBridges, ← workspaceOf.eq_def, resolved, ne_eq, not_true_eq_false, if_false,
    ← takenIn.eq_def, ← preparedOf.eq_def, all]
  rfl

theorem result_of_stopped (resolved : resolveConnections w dto (workspaceOf dto) = .ok (map, []))
    {refusal : Refusal} (stopped : (createAll w 0 (preparedOf dto map before)).2 = some refusal) :
    (importBridges w dto before).1 = .error refusal := by
  simp only [importBridges, ← workspaceOf.eq_def, resolved, ne_eq, not_true_eq_false, if_false,
    ← takenIn.eq_def, ← preparedOf.eq_def, stopped]

variable (before) in
/-- An entry is refused as it is created where the store refuses it. -/
theorem refused_iff (i : ℕ) :
    (∃ input, (preparedOf dto map before)[i]? = some input ∧
        ∃ refusal, create w i input = .error refusal) ↔
      ∃ entry, dto.bridges[i]? = some entry ∧ Refuses w map i entry := by
  rcases getElem?_prepare map (workspaceOf dto)
      (takenIn (workspaceOf dto) before) dto.bridges i with ⟨gone, none_⟩ | ⟨entry, n, here, prepared⟩
  · refine iff_of_false ?_ ?_
    · rintro ⟨input, is, _⟩
      rw [preparedOf, gone] at is
      cases is
    · rintro ⟨entry, is, _⟩
      rw [none_] at is
      cases is
  · rw [preparedOf, prepared, here]
    simp only [Option.some.injEq, exists_eq_left', create_error_iff]
    rfl

theorem described_of_created {i : ℕ} {entry : BridgeInput} {row : BridgeRow}
    (here : dto.bridges[i]? = some entry)
    (is : ((preparedOf dto map before).mapIdx (fun j => rowOf w (0 + j)))[i]? = some row) :
    Described w map (workspaceOf dto) i entry row := by
  rw [List.getElem?_mapIdx] at is
  obtain ⟨input, there, rfl⟩ := Option.map_eq_some_iff.mp is
  rcases getElem?_prepare map (workspaceOf dto)
      (takenIn (workspaceOf dto) before) dto.bridges i with ⟨_, none_⟩ | ⟨entry', n, here', prepared⟩
  · rw [none_] at here
    cases here
  · rw [here] at here'
    obtain rfl := Option.some.inj here'
    rw [preparedOf, prepared] at there
    obtain rfl := Option.some.inj there
    rw [Nat.zero_add]
    exact described_rowOf w i n entry

end Resolved

/-- For every document, all connections, and whatever the store and the database say to each entry. -/
theorem allOrNothing_iff (w : World) (dto : BridgeImport) (before : List BridgeRow) :
    AllOrNothing w dto before ↔
      ∀ map, resolveConnections w dto (workspaceOf dto) = .ok (map, []) →
        (∃ i entry, dto.bridges[i]? = some entry ∧ Refuses w map i entry) →
          ∃ first, dto.bridges[0]? = some first ∧ Refuses w map 0 first := by
  cases resolved : resolveConnections w dto (workspaceOf dto) with
  | error refusal =>
    have refused : importBridges w dto before = (.error refusal, before) := by
      simp only [importBridges, ← workspaceOf.eq_def, resolved]
    refine iff_of_true (.inr ?_) ?_
    · rw [refused]
      exact ⟨⟨refusal, rfl⟩, rfl⟩
    · intro map no
      cases no
  | ok found =>
    obtain ⟨map, unresolved⟩ := found
    by_cases all : unresolved = []
    · subst all
      -- there is one map, so the condition is about its entries
      have only : (∀ other, Except.ok (ε := Refusal) (map, ([] : List UnresolvedConnection)) =
          .ok (other, []) →
            (∃ i entry, dto.bridges[i]? = some entry ∧ Refuses w other i entry) →
              ∃ first, dto.bridges[0]? = some first ∧ Refuses w other 0 first) ↔
          ((∃ i entry, dto.bridges[i]? = some entry ∧ Refuses w map i entry) →
            ∃ first, dto.bridges[0]? = some first ∧ Refuses w map 0 first) := by
        refine ⟨fun all => all map rfl, fun own other is => ?_⟩
        cases is
        exact own
      rw [only]
      rcases createAll_cases (w := w) 0 (preparedOf dto map before) with
        ⟨all, rows, none_⟩ | ⟨refusal, stopped, ⟨j, input, there, refused⟩, empty⟩
      · refine iff_of_true (.inl ⟨map, _, resolved, stored_of_resolved resolved,
          result_of_created resolved all, ?_, ?_, ?_⟩) ?_
        · rw [rows, List.length_mapIdx]
          exact length_prepare _ _
        · intro i entry row here is
          rw [rows] at is
          exact described_of_created here is
        · have names := names_prepare map (workspaceOf dto)
            (takenIn (workspaceOf dto) before) dto.bridges
          have same : ((createAll w 0 (preparedOf dto map before)).1.map (·.name)) =
              (preparedOf dto map before).map (·.name) := by
            rw [rows]
            exact names_rowOf _
          refine ⟨same ▸ names.1, ?_⟩
          intro row mem
          exact names.2 _ (same ▸ List.mem_map_of_mem mem)
        · rintro ⟨i, refusedAt⟩
          obtain ⟨input, is, refused⟩ := (refused_iff before i).mpr refusedAt
          rw [← Nat.zero_add i] at refused
          exact absurd refused (none_ i input is)
      · have refusedAt := (refused_iff before j).mp ⟨input, there, by rwa [Nat.zero_add] at refused⟩
        rw [← refused_iff before 0, ← empty]
        constructor
        · intro either _
          rcases either with ⟨_, rows, _, _, created, _⟩ | ⟨_, same⟩
          · rw [result_of_stopped resolved stopped] at created
            cases created
          · rw [stored_of_resolved resolved] at same
            exact List.append_right_eq_self.mp same
        · intro first
          refine .inr ⟨⟨refusal, result_of_stopped resolved stopped⟩, ?_⟩
          rw [stored_of_resolved resolved, first ⟨j, refusedAt⟩, List.append_nil]
    · have refused : importBridges w dto before = (.error (.unresolved unresolved), before) := by
        simp only [importBridges, ← workspaceOf.eq_def, resolved, if_pos all]
      refine iff_of_true (.inr ?_) ?_
      · rw [refused]
        exact ⟨⟨_, rfl⟩, rfl⟩
      · intro other is
        cases is
        exact absurd rfl all

namespace TwoBridges

def orders : ConnectionRow :=
  { id := "c1", name := "orders", engine := "postgres", workspaceId := defaultWorkspaceId, readOnly := false }

def archive : ConnectionRow :=
  { id := "c2", name := "archive", engine := "mysql", workspaceId := defaultWorkspaceId, readOnly := true }

def replica : ConnectionRow :=
  { id := "c3", name := "replica", engine := "mysql", workspaceId := defaultWorkspaceId, readOnly := false }

def copyTo (name target : String) : BridgeInput where
  name := name
  source := .query "c1" none "select * from orders"
  destination := .database
    [{ connectionId := target, database := none, schema := none, table := "orders", writeMode := .insert
       keyColumns := [], mapping := [], createMissingTable := false, onDelete := .ignore
       softDelete := none, redis := none }]
  transform := { template := "{{$row}}", fields := none, rename := none, wrapKey := none, columns := none }
  delivery :=
    { batchSize := 1, maxAttempts := 3, backoffMs := 500, backoffMaxMs := 30000, minDelayMs := 0
      timeoutMs := 15000, pageSize := 200, onError := .continue_, onSchemaChange := .stop }
  trigger := .replay none
  enabled := true

/-- Two bridges from one connection, the second into a connection that is read-only. -/
def file : BridgeImport where
  connections := [("c1", { name := "orders", engine := "postgres" })]
  bridges := [copyTo "to the replica" "c3", copyTo "to the archive" "c2"]

def here : World where
  connections := [orders, archive, replica]
  atCreate _ := .ok [orders, archive, replica]
  insert _ := none
  randomUUID i := if i = 0 then "b1" else "b2"
  encrypt _ secret := secret

/-- **The first bridge is stored, and the import refused.** -/
theorem first_stays : ¬ AllOrNothing here file [] := by
  have stopped : (importBridges here file []).1 = .error (.badRequest
      ("\"archive\" is a read-only connection, and a bridge writes to its destination. " ++
        "Pick another connection, or untick \"Read-only\" on it.")) := by rfl
  have stored : (importBridges here file []).2.map (·.name) = ["to the replica"] := by rfl
  rintro (⟨_, _, _, _, created, _⟩ | ⟨_, same⟩)
  · rw [stopped] at created
    cases created
  · rw [same] at stored
    cases stored

end TwoBridges

end Syncle.Transfer
