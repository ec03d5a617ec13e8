import Syncle.Redis.PipelineWrite

/-!
# A batch leaves what it says

What is in the pipeline for one row is about that row's key, so a batch is its rows, each looked at by
itself (`settle`): its commands are done, or it is answered `WRONGTYPE` at its `HSET` and replaced, or
an error is thrown. From that: a batch converges over every keyspace that its hashes can be repaired
in, whatever else the server may refuse (`converges_iff`).
-/

namespace Syncle.Redis

open Syncle.Lib
open Command (apply_hset apply_hdel asHash hashEntry hashOf eq_hashEntry map_ttl_hashEntry)

variable {T : Type*} [DecidableEq T] {refuses : Refuses T}

/-! ## One row -/

namespace TypedRow

omit [DecidableEq T] in
theorem queued_about (row : TypedRow T) : ∀ c ∈ row.queued.map Prod.fst, c.key = row.key := by
  have last : row.expireOrPersist.key = row.key := by
    unfold expireOrPersist
    split <;> rfl
  intro c mem
  unfold queued at mem
  split at mem
  · simp only [List.map_cons, List.map_nil, List.mem_singleton] at mem
    rw [mem]
    rfl
  · split at mem <;> split at mem <;> simp at mem
    all_goals aesop
  · cases mem

omit [DecidableEq T] in
theorem replaceKey_about (row : TypedRow T) : ∀ c ∈ row.replaceKey, c.key = row.key := by
  intro c mem
  unfold replaceKey rewrite at mem
  aesop

/-- Over what its key holds: is the row answered `WRONGTYPE` at its `HSET`? -/
def mistyped (row : TypedRow T) (prior : Option (Entry T)) : Bool :=
  match row.content with
  | .hash true set _ _ => (asHash prior).isNone && decide (set ≠ [])
  | _ => false

theorem apply_expireOrPersist (row : TypedRow T) (e : Option (Entry T)) :
    row.expireOrPersist.apply e = some (e.map fun old => { old with ttl := row.expires }) := by
  unfold expireOrPersist expires
  split <;> rfl

theorem applies_zadd (key : String) (ps : List (T × T)) (old : OrderedMap T T) (ttl : Option ℕ) :
    applies (ps.map fun p => Command.zadd key p.2 p.1) (some ⟨.zset old, ttl⟩) =
      some (some ⟨.zset (old.setAll ps), ttl⟩) := by
  induction ps generalizing old with
  | nil => rfl
  | cons p ps ih =>
    rw [List.map_cons, applies]
    exact ih (old.set p.1 p.2)

theorem applies_rewrite (row : TypedRow T) :
    applies row.rewrite none = some (row.held.map fun value => ⟨value, none⟩) := by
  unfold rewrite held
  cases row.content with
  | string text => rfl
  | hash merge set unset distinct =>
    by_cases none_ : set = []
    · subst none_
      rfl
    · simp only [ne_eq, none_, not_false_eq_true, if_true]
      rfl
  | list members =>
    by_cases none_ : members = []
    · simp [none_, applies]
    · simp [none_, applies, Command.apply]
  | set members =>
    by_cases none_ : members = []
    · simp [none_, applies]
    · simp [none_, applies, Command.apply]
  | zset members =>
    dsimp only
    cases pairs members with
    | nil => rfl
    | cons p ps => exact applies_zadd row.key ps _ none

/-- The transaction is of one type from its `DEL` on. -/
theorem applies_replaceKey (row : TypedRow T) (e : Option (Entry T)) :
    applies row.replaceKey e = some (row.held.map fun value => ⟨value, row.expires⟩) := by
  unfold replaceKey expires
  rw [List.cons_append, applies, Command.apply, Option.bind_some, applies_append, applies_rewrite,
    Option.bind_some]
  split
  case isTrue => cases row.held <;> rfl
  case isFalse => rfl

/-- A string, and a hash over a hash, are of the key's type; and what is queued leaves what the row
says. -/
theorem applies_queued (row : TypedRow T) (e : Option (Entry T)) (kept : row.replaces = false)
    (typed : ∀ set unset distinct, row.content = .hash true set unset distinct → asHash e ≠ none) :
    applies (row.queued.map Prod.fst) e = some (row.specified e) := by
  unfold replaces at kept
  unfold queued specified held
  split at kept
  case h_1 text is => simp [is, applies, Command.apply]
  case h_2 set unset distinct is =>
    obtain ⟨⟨m, ttl⟩, fields⟩ := Option.ne_none_iff_exists'.mp (typed set unset distinct is)
    have found : fieldsOf e = m := by simp [fieldsOf, fields]
    obtain rfl := eq_hashEntry fields
    have hset : ∀ t, ∃ t', applies (if set ≠ [] then [Command.hset row.key set] else [])
        (hashEntry m t) = some (hashEntry (m.setAll set) t') := by
      intro t
      by_cases none_ : set = []
      · subst none_
        exact ⟨t, rfl⟩
      · exact ⟨_, by simp only [ne_eq, none_, not_false_eq_true, if_true, applies, apply_hset]; rfl⟩
    have hdel : ∀ (m : OrderedMap String T) t, ∃ t',
        applies (if unset ≠ [] then [Command.hdel row.key unset] else []) (hashEntry m t) =
          some (hashEntry (m.filter (· ∉ unset)) t') := by
      intro m t
      by_cases none_ : unset = []
      · subst none_
        have same : m.filter (· ∉ ([] : List String)) = m := OrderedMap.ext (by simp [OrderedMap.filter])
        exact ⟨t, by rw [same]; rfl⟩
      · exact ⟨_, by simp only [ne_eq, none_, not_false_eq_true, if_true, applies, apply_hdel]; rfl⟩
    obtain ⟨t, first⟩ := hset ttl
    obtain ⟨t', second⟩ := hdel (m.setAll set) t
    have commands : (((if set ≠ [] then [(Command.hset row.key set, some row)] else []) ++
          (if unset ≠ [] then [(Command.hdel row.key unset, none)] else []) ++
          [(row.expireOrPersist, none)]).map Prod.fst) =
        (if set ≠ [] then [Command.hset row.key set] else []) ++
          ((if unset ≠ [] then [Command.hdel row.key unset] else []) ++ [row.expireOrPersist]) := by
      by_cases noSet : set = [] <;> by_cases noUnset : unset = [] <;> simp [noSet, noUnset]
    simp only [is]
    rw [commands, applies_append, first, Option.bind_some, applies_append, second, Option.bind_some,
      applies, apply_expireOrPersist, Option.bind_some, applies, map_ttl_hashEntry, found]
  case h_3 => cases kept

end TypedRow

/-! ## What becomes of it -/

omit [DecidableEq T] in
theorem surface_append (a b : List (Option Error × Option (TypedRow T))) :
    surface (a ++ b) = (surface a).bind fun x => (surface b).map (x ++ ·) := by
  induction a with
  | nil =>
    cases h : surface b <;> simp [surface, Except.bind, Except.map, h]
  | cons first a ih =>
    obtain ⟨reply, row⟩ := first
    cases reply with
    | none => simpa [surface] using ih
    | some e =>
      cases e with
      | other message => rfl
      | wrongType =>
        cases row with
        | none => rfl
        | some row =>
          simp only [List.cons_append, surface, ih]
          cases surface a with
          | error e => rfl
          | ok x => cases surface b <;> rfl

variable (refuses) in
/-- The commands of a row, and what is thrown or left to be replaced. -/
@[grind =]
def settle (row : TypedRow T) (e : Option (Entry T)) : Except Error (List (TypedRow T)) :=
  surface ((execAt refuses (row.queued.map Prod.fst) e).1.zip (row.queued.map Prod.snd))

variable (refuses) in
def queuedAfter (row : TypedRow T) (e : Option (Entry T)) : Option (Entry T) :=
  (execAt refuses (row.queued.map Prod.fst) e).2

/-- Does the server take a row's commands? -/
@[grind =]
def Free (refuses : Refuses T) (cs : List (Command T)) : Prop := ∀ c ∈ cs, refuses c = none

variable (refuses) in
theorem surface_of_applies {q : List (Command T × Option (TypedRow T))} {e after : Option (Entry T)}
    (typed : applies (q.map Prod.fst) e = some after) :
    let results := execAt refuses (q.map Prod.fst) e
    Free refuses (q.map Prod.fst) ∧ surface (results.1.zip (q.map Prod.snd)) = .ok [] ∧
        results.2 = after ∨
      ¬ Free refuses (q.map Prod.fst) ∧
        ∃ message, surface (results.1.zip (q.map Prod.snd)) = .error (.other message) := by
  induction q generalizing e with
  | nil =>
    obtain rfl := Option.some.inj typed
    exact Or.inl ⟨by simp [Free], rfl, rfl⟩
  | cons first q ih =>
    obtain ⟨c, row⟩ := first
    obtain ⟨next, applied, typed⟩ := Option.bind_eq_some_iff.mp typed
    simp only [List.map_cons, execAt]
    cases refused : refuses c with
    | some message =>
      refine Or.inr ⟨fun free => ?_, message, by simp [Command.run_refused refused, surface]⟩
      simpa [refused] using free c List.mem_cons_self
    | none =>
      rw [Command.run_applied refused applied]
      rcases ih typed with ⟨free, ok, is⟩ | ⟨blocked, message, error⟩
      · exact Or.inl ⟨List.forall_mem_cons.mpr ⟨refused, free⟩, by simpa [surface] using ok, is⟩
      · refine Or.inr ⟨fun free => blocked fun c mem => free c (List.mem_cons_of_mem _ mem), message, ?_⟩
        simpa [surface] using error

variable (refuses) in
/-- A hash that is written field by field over something else. -/
theorem settle_mistyped {row : TypedRow T} {set : List (String × T)} {unset : List String}
    {distinct : (set.map Prod.fst ++ unset).Nodup} {e : Option (Entry T)}
    (is : row.content = .hash true set unset distinct) (other : asHash e = none) :
    Free refuses (row.queued.map Prod.fst) ∧ unset = [] ∧
        settle refuses row e = .ok (if row.mistyped e = true then [row] else []) ∧
        queuedAfter refuses row e = e.map (fun old => { old with ttl := row.expires }) ∨
      ¬ Free refuses (row.queued.map Prod.fst) ∧
        (∃ message, settle refuses row e = .error (.other message)) ∨
      settle refuses row e = .error .wrongType ∧ unset ≠ [] := by
  have wrongSet : (Command.hset row.key set).apply e = none := by simp [Command.apply, other]
  have wrongUnset : (Command.hdel row.key unset).apply e = none := by simp [Command.apply, other]
  -- the last command is of any type
  have last : ∀ refused, refuses row.expireOrPersist = some refused →
      row.expireOrPersist.run refuses e = (some (.other refused), e) := fun _ h => Command.run_refused h e
  have lastDone : refuses row.expireOrPersist = none → row.expireOrPersist.run refuses e =
      (none, e.map fun old => { old with ttl := row.expires }) := fun h =>
    Command.run_applied h (row.apply_expireOrPersist e)
  unfold settle queuedAfter TypedRow.queued TypedRow.mistyped Free
  simp only [is, other, Option.isNone_none, Bool.true_and, decide_eq_true_eq]
  by_cases noSet : set = [] <;> by_cases noUnset : unset = [] <;>
    cases setRefused : refuses (.hset row.key set) <;>
    cases unsetRefused : refuses (.hdel row.key unset) <;>
    cases lastRefused : refuses row.expireOrPersist <;>
    simp [execAt, surface, Except.map, *]

variable (refuses) in
/-- **One row of the pipeline.** It is done, and to be replaced where its `HSET` found another type; or
the server refuses one of its commands; or it cannot be repaired. -/
theorem settle_cases (row : TypedRow T) (e : Option (Entry T)) :
    Free refuses (row.queued.map Prod.fst) ∧
        settle refuses row e = .ok (if row.mistyped e = true then [row] else []) ∨
      ¬ Free refuses (row.queued.map Prod.fst) ∧
        (∃ message, settle refuses row e = .error (.other message)) ∨
      settle refuses row e = .error .wrongType ∧ ¬ row.Repairable e := by
  by_cases typed : ∀ set unset distinct, row.content = .hash true set unset distinct → asHash e ≠ none
  · have right : row.mistyped e = false := by
      unfold TypedRow.mistyped
      split
      case h_1 set unset distinct is => simp [typed set unset distinct is]
      case h_2 => rfl
    rw [right]
    by_cases kept : row.replaces = true
    · have nothing : row.queued = [] := by
        unfold TypedRow.queued
        unfold TypedRow.replaces at kept
        split at kept <;> simp_all
      refine Or.inl ⟨by simp [nothing, Free], ?_⟩
      simp [settle, nothing, execAt, surface]
    · rcases surface_of_applies refuses
          (row.applies_queued e (Bool.not_eq_true _ ▸ kept) typed) with ⟨free, ok, -⟩ | refused
      · exact Or.inl ⟨free, ok⟩
      · exact Or.inr (Or.inl refused)
  · simp only [not_forall, not_not] at typed
    obtain ⟨set, unset, distinct, is, other⟩ := typed
    rcases settle_mistyped refuses is other with ⟨free, -, ok, -⟩ | refused | ⟨wrong, some_⟩
    · exact Or.inl ⟨free, ok⟩
    · exact Or.inr (Or.inl refused)
    · refine Or.inr (Or.inr ⟨wrong, fun repairable => some_ ?_⟩)
      simp only [TypedRow.Repairable, is] at repairable
      exact (repairable other).2

/-- What is not replaced holds what the row says, if it can be repaired. -/
theorem queuedAfter_eq {row : TypedRow T} {e : Option (Entry T)}
    (free : Free refuses (row.queued.map Prod.fst)) (repairable : row.Repairable e)
    (kept : row.replaces = false) (right : row.mistyped e = false) :
    queuedAfter refuses row e = row.specified e := by
  have typed : ∀ set unset distinct, row.content = .hash true set unset distinct → asHash e ≠ none := by
    intro set unset distinct is other
    simp only [TypedRow.Repairable, is] at repairable
    simp [TypedRow.mistyped, is, other, (repairable other).1] at right
  rcases surface_of_applies refuses (row.applies_queued e kept typed) with
    ⟨-, -, done⟩ | ⟨refused, -⟩
  · exact done
  · exact absurd free refused

/-- What is replaced holds what the row says, if it can be repaired. -/
theorem held_eq {row : TypedRow T} {e : Option (Entry T)} (repairable : row.Repairable e)
    (wrong : row.replaces = true ∨ row.mistyped e = true) :
    (row.held.map fun value => ⟨value, row.expires⟩) = row.specified e := by
  unfold TypedRow.specified
  split
  case h_1 set unset distinct is =>
    have mistyped : row.mistyped e = true := wrong.resolve_left (by simp [TypedRow.replaces, is])
    simp only [TypedRow.mistyped, is, Bool.and_eq_true, Option.isNone_iff_eq_none] at mistyped
    have other : asHash e = none := mistyped.1
    simp only [TypedRow.Repairable, is] at repairable
    obtain ⟨-, rfl⟩ := repairable other
    have whole : (((fieldsOf e).setAll set).filter (· ∉ ([] : List String))) = OrderedMap.empty.setAll set :=
      OrderedMap.ext (by simp [OrderedMap.filter, fieldsOf, other])
    simp only [TypedRow.held, is, whole]
    rfl
  case h_2 => rfl

/-! ## The batch -/

/-- Each row's key by what it held. -/
def updateAll (rows : List (TypedRow T)) (f : TypedRow T → Option (Entry T) → Option (Entry T))
    (ks : Keyspace T) : Keyspace T := fun k =>
  match rows.find? (·.key = k) with
  | some row => f row (ks k)
  | none => ks k

section UpdateAll

variable {rows : List (TypedRow T)} {f g : TypedRow T → Option (Entry T) → Option (Entry T)}
  {ks : Keyspace T}

omit [DecidableEq T] in
theorem find?_key (distinct : (rows.map TypedRow.key).Nodup) {row : TypedRow T} (mem : row ∈ rows) :
    rows.find? (·.key = row.key) = some row := by
  cases found : rows.find? (·.key = row.key) with
  | none => simpa using List.find?_eq_none.mp found row mem
  | some other =>
    have same : other.key = row.key := by simpa using List.find?_some found
    rw [List.inj_on_of_nodup_map distinct (List.mem_of_find?_eq_some found) mem same]

omit [DecidableEq T] in
theorem updateAll_key (distinct : (rows.map TypedRow.key).Nodup) {row : TypedRow T} (mem : row ∈ rows) :
    updateAll rows f ks row.key = f row (ks row.key) := by
  rw [updateAll, find?_key distinct mem]

omit [DecidableEq T] in
theorem updateAll_cons {row : TypedRow T} (fresh : row.key ∉ rows.map TypedRow.key) :
    updateAll rows f (Function.update ks row.key (f row (ks row.key))) = updateAll (row :: rows) f ks := by
  funext k
  unfold updateAll
  by_cases here : row.key = k
  · subst here
    have none_ : rows.find? (·.key = row.key) = none := by
      refine List.find?_eq_none.mpr fun other mem same => fresh ?_
      exact List.mem_map.mpr ⟨other, mem, by simpa using same⟩
    rw [none_, List.find?_cons_of_pos (by simp)]
    simp
  · rw [List.find?_cons_of_neg (by simpa using here), Function.update_of_ne (Ne.symm here)]

omit [DecidableEq T] in
theorem updateAll_congr (same : ∀ row ∈ rows, f row (ks row.key) = g row (ks row.key)) :
    updateAll rows f ks = updateAll rows g ks := by
  funext k
  unfold updateAll
  cases found : rows.find? (·.key = k) with
  | none => rfl
  | some row =>
    have key : row.key = k := by simpa using List.find?_some found
    subst key
    exact same row (List.mem_of_find?_eq_some found)

end UpdateAll

section Batch

variable {rows : List (TypedRow T)} {ks : Keyspace T}

variable (refuses) in
def settleAll (ks : Keyspace T) : List (TypedRow T) → Except Error (List (TypedRow T))
  | [] => .ok []
  | row :: rest => (settle refuses row (ks row.key)).bind fun x => (settleAll ks rest).map (x ++ ·)

theorem settleAll_update {k : String} (fresh : k ∉ rows.map TypedRow.key) (e : Option (Entry T)) :
    settleAll refuses (Function.update ks k e) rows = settleAll refuses ks rows := by
  induction rows with
  | nil => rfl
  | cons row rows ih =>
    rw [List.map_cons, List.mem_cons, not_or] at fresh
    rw [settleAll, settleAll, ih fresh.2, Function.update_of_ne (Ne.symm fresh.1)]

variable (refuses) in
/-- The pipeline is its rows, each over what its key holds. -/
theorem exec_queued (distinct : (rows.map TypedRow.key).Nodup) (ks : Keyspace T) :
    let queue := rows.flatMap TypedRow.queued
    let results := exec refuses (queue.map Prod.fst) ks
    results.2 = updateAll rows (queuedAfter refuses) ks ∧
      surface (results.1.zip (queue.map Prod.snd)) = settleAll refuses ks rows := by
  induction rows generalizing ks with
  | nil => exact ⟨rfl, rfl⟩
  | cons row rows ih =>
    obtain ⟨fresh, distinct⟩ := List.nodup_cons.mp distinct
    have first := exec_eq_execAt refuses row.queued_about ks
    obtain ⟨after, settled⟩ := ih distinct (Function.update ks row.key (queuedAfter refuses row (ks row.key)))
    simp only [List.flatMap_cons, List.map_append, exec_append, first]
    refine ⟨?_, ?_⟩
    · rw [← updateAll_cons fresh]
      exact after
    · have lengths : (execAt refuses (row.queued.map Prod.fst) (ks row.key)).1.length =
          (row.queued.map Prod.snd).length := by
        rw [length_execAt, List.length_map, List.length_map]
      rw [List.zip_append lengths, surface_append, settleAll, ← settleAll_update fresh, ← settled]
      rfl

/-- The rows that the pipeline leaves to be replaced. -/
def wrongTypes (rows : List (TypedRow T)) (ks : Keyspace T) : List (TypedRow T) :=
  rows.filter fun row => row.mistyped (ks row.key)

variable (refuses) in
/-- **The rows of a pipeline** are all done; or the first that is not is one that the server refuses,
or one that cannot be repaired. -/
theorem settleAll_cases (rows : List (TypedRow T)) (ks : Keyspace T) :
    (∀ row ∈ rows, Free refuses (row.queued.map Prod.fst) ∧
          settle refuses row (ks row.key) ≠ .error .wrongType) ∧
        settleAll refuses ks rows = .ok (wrongTypes rows ks) ∨
      (∃ row ∈ rows, ¬ Free refuses (row.queued.map Prod.fst)) ∧
        (∃ message, settleAll refuses ks rows = .error (.other message)) ∨
      settleAll refuses ks rows = .error .wrongType ∧ ∃ row ∈ rows, ¬ row.Repairable (ks row.key) := by
  induction rows with
  | nil => exact Or.inl ⟨by simp, rfl⟩
  | cons row rows ih =>
    rw [settleAll]
    rcases settle_cases refuses row (ks row.key) with
      ⟨free, ok⟩ | ⟨refused, message, error⟩ | ⟨wrong, stuck⟩
    · rw [ok]
      rcases ih with ⟨frees, oks⟩ | ⟨⟨other, mem, refused⟩, message, error⟩ | ⟨wrong, other, mem, stuck⟩
      · refine Or.inl ⟨List.forall_mem_cons.mpr ⟨⟨free, by simp [ok]⟩, frees⟩, ?_⟩
        rw [oks]
        unfold wrongTypes
        rw [List.filter_cons]
        by_cases mistyped : row.mistyped (ks row.key) = true <;>
          simp [mistyped, Except.bind, Except.map]
      · refine Or.inr (Or.inl ⟨⟨other, List.mem_cons_of_mem _ mem, refused⟩, message, ?_⟩)
        rw [error]
        rfl
      · refine Or.inr (Or.inr ⟨?_, other, List.mem_cons_of_mem _ mem, stuck⟩)
        rw [wrong]
        rfl
    · refine Or.inr (Or.inl ⟨⟨row, List.mem_cons_self, refused⟩, message, ?_⟩)
      rw [error]
      rfl
    · refine Or.inr (Or.inr ⟨?_, row, List.mem_cons_self, stuck⟩)
      rw [wrong]
      rfl

variable (refuses) in
/-- **The transactions** are all done, or the first that is not is one that the server refuses. -/
theorem replaceAll_cases (distinct : (rows.map TypedRow.key).Nodup) (ks : Keyspace T) :
    (∀ row ∈ rows, Free refuses row.replaceKey) ∧
        replaceAll refuses rows ks =
          (.ok (), updateAll rows (fun row _ => row.held.map fun value => ⟨value, row.expires⟩) ks) ∨
      (∃ row ∈ rows, ¬ Free refuses row.replaceKey) ∧
        ∃ message, (replaceAll refuses rows ks).1 = .error (.other message) := by
  induction rows generalizing ks with
  | nil => exact Or.inl ⟨by simp, rfl⟩
  | cons row rows ih =>
    obtain ⟨fresh, distinct⟩ := List.nodup_cons.mp distinct
    have first := exec_eq_execAt refuses row.replaceKey_about ks
    rcases execAt_of_applies refuses (row.applies_replaceKey (ks row.key)) with
      ⟨free, done, after⟩ | ⟨⟨c, mem, refused⟩, message, error⟩
    · simp only [replaceAll, first, done, after]
      rcases ih distinct (Function.update ks row.key
          (row.held.map fun value => ⟨value, row.expires⟩)) with ⟨frees, ok⟩ | ⟨⟨other, mem, refused⟩, error⟩
      · refine Or.inl ⟨List.forall_mem_cons.mpr ⟨free, frees⟩, ?_⟩
        rw [ok, ← updateAll_cons fresh]
      · exact Or.inr ⟨⟨other, List.mem_cons_of_mem _ mem, refused⟩, error⟩
    · refine Or.inr ⟨⟨row, List.mem_cons_self, fun free => refused (free c mem)⟩, message, ?_⟩
      simp only [replaceAll, first, error]

/-- Is the row in a transaction of its own? -/
def TypedRow.again (row : TypedRow T) (prior : Option (Entry T)) : Bool :=
  row.replaces || row.mistyped prior

variable (refuses) in
/-- What the key of a row holds in the end. -/
def outcome (row : TypedRow T) (prior : Option (Entry T)) : Option (Entry T) :=
  if row.again prior = true then row.held.map fun value => ⟨value, row.expires⟩
  else queuedAfter refuses row prior

omit [DecidableEq T] in
theorem mem_again {row : TypedRow T} :
    row ∈ rows.filter TypedRow.replaces ++ wrongTypes rows ks ↔
      row ∈ rows ∧ row.again (ks row.key) = true := by
  simp only [wrongTypes, List.mem_append, List.mem_filter, TypedRow.again, Bool.or_eq_true, and_or_left]

omit [DecidableEq T] in
theorem distinct_again (ks : Keyspace T) (distinct : (rows.map TypedRow.key).Nodup) :
    ((rows.filter TypedRow.replaces ++ wrongTypes rows ks).map TypedRow.key).Nodup := by
  rw [List.map_append]
  refine List.nodup_append.mpr ⟨distinct.sublist (List.filter_sublist.map _),
    distinct.sublist (List.filter_sublist.map _), ?_⟩
  intro a first b second same
  obtain ⟨row, mem, rfl⟩ := List.mem_map.mp first
  obtain ⟨other, mem', rfl⟩ := List.mem_map.mp second
  obtain ⟨mem, replaces⟩ := List.mem_filter.mp mem
  obtain ⟨mem', mistyped⟩ := List.mem_filter.mp mem'
  obtain rfl := List.inj_on_of_nodup_map distinct mem mem' same
  -- a hash that is written field by field is not replaced from the start
  unfold TypedRow.replaces at replaces
  unfold TypedRow.mistyped at mistyped
  split at mistyped <;> simp_all

theorem updateAll_again (distinct : (rows.map TypedRow.key).Nodup) :
    updateAll (rows.filter TypedRow.replaces ++ wrongTypes rows ks)
        (fun row _ => row.held.map fun value => ⟨value, row.expires⟩)
        (updateAll rows (queuedAfter refuses) ks) =
      updateAll rows (outcome refuses) ks := by
  funext k
  by_cases known : ∃ row ∈ rows, row.key = k
  · obtain ⟨row, mem, rfl⟩ := known
    rw [updateAll_key distinct mem, outcome]
    split
    case isTrue again => rw [updateAll_key (distinct_again _ distinct) (mem_again.mpr ⟨mem, again⟩)]
    case isFalse kept =>
      rw [updateAll]
      cases found : (rows.filter TypedRow.replaces ++ wrongTypes rows ks).find? (·.key = row.key) with
      | none => exact updateAll_key distinct mem
      | some other =>
        have same : other.key = row.key := by simpa using List.find?_some found
        obtain ⟨mem', again⟩ := mem_again.mp (List.mem_of_find?_eq_some found)
        obtain rfl := List.inj_on_of_nodup_map distinct mem' mem same
        exact absurd again kept
  · have unknown : rows.find? (·.key = k) = none :=
      List.find?_eq_none.mpr fun row mem same => known ⟨row, mem, by simpa using same⟩
    have none_ : (rows.filter TypedRow.replaces ++ wrongTypes rows ks).find? (·.key = k) = none :=
      List.find?_eq_none.mpr fun row mem same => known ⟨row, (mem_again.mp mem).1, by simpa using same⟩
    simp only [updateAll, unknown, none_]

variable (refuses) in
/-- **A batch** is done; or something that is sent is refused; or a row cannot be repaired. -/
theorem write_cases (distinct : (rows.map TypedRow.key).Nodup) (ks : Keyspace T) :
    (∀ row ∈ rows, Free refuses (row.queued.map Prod.fst) ∧
          settle refuses row (ks row.key) ≠ .error .wrongType ∧
          (row.again (ks row.key) = true → Free refuses row.replaceKey)) ∧
        write refuses rows ks = (.ok (), updateAll rows (outcome refuses) ks) ∨
      (∃ row ∈ rows, ¬ Free refuses (row.queued.map Prod.fst) ∨
          row.again (ks row.key) = true ∧ ¬ Free refuses row.replaceKey) ∧
        (∃ message, (write refuses rows ks).1 = .error (.other message)) ∨
      (write refuses rows ks).1 = .error .wrongType ∧ ∃ row ∈ rows, ¬ row.Repairable (ks row.key) := by
  obtain ⟨after, settled⟩ := exec_queued refuses distinct ks
  unfold write
  simp only [settled, after]
  rcases settleAll_cases refuses rows ks with
    ⟨frees, ok⟩ | ⟨⟨row, mem, refused⟩, message, error⟩ | ⟨wrong, stuck⟩
  · simp only [ok]
    rcases replaceAll_cases refuses (distinct_again ks distinct)
        (updateAll rows (queuedAfter refuses) ks) with ⟨frees', ok'⟩ | ⟨⟨row, mem, refused⟩, message, error⟩
    · refine Or.inl ⟨fun row mem => ⟨(frees row mem).1, (frees row mem).2,
        fun again => frees' row (mem_again.mpr ⟨mem, again⟩)⟩, ?_⟩
      rw [ok', updateAll_again distinct]
    · obtain ⟨mem, again⟩ := mem_again.mp mem
      exact Or.inr (Or.inl ⟨⟨row, mem, Or.inr ⟨again, refused⟩⟩, message, error⟩)
  · refine Or.inr (Or.inl ⟨⟨row, mem, Or.inl refused⟩, message, ?_⟩)
    simp only [error]
  · refine Or.inr (Or.inr ⟨?_, stuck⟩)
    simp only [wrong]

/-- What can be repaired holds in the end what the batch says. -/
theorem outcome_eq {row : TypedRow T} {prior : Option (Entry T)}
    (free : Free refuses (row.queued.map Prod.fst)) (repairable : row.Repairable prior) :
    outcome refuses row prior = row.specified prior := by
  unfold outcome TypedRow.again
  split
  case isTrue again => exact held_eq repairable (by simpa using again)
  case isFalse kept =>
    rw [Bool.or_eq_true, not_or, Bool.not_eq_true, Bool.not_eq_true] at kept
    exact queuedAfter_eq free repairable kept.1 kept.2

/-- What a row says, said again. -/
theorem specified_specified (row : TypedRow T) (prior : Option (Entry T)) :
    row.specified (row.specified prior) = row.specified prior := by
  unfold TypedRow.specified
  split
  case h_1 set unset distinct is =>
    dsimp only
    generalize there : ((fieldsOf prior).setAll set).filter (· ∉ unset) = m
    have found : fieldsOf (hashEntry m row.expires) = m := by
      simp [fieldsOf, Command.asHash_hashEntry]
    have kept : ∀ field ∈ set, m.get? field.1 = some field.2 := by
      intro field mem
      have stays : field.1 ∉ unset := fun gone =>
        (List.nodup_append.mp distinct).2.2 _ (List.mem_map_of_mem mem) _ gone rfl
      rw [← there, OrderedMap.get?_filter, if_pos (by simpa using stays)]
      exact OrderedMap.get?_setAll_of_mem (List.nodup_append.mp distinct).1 mem
    have again : m.filter (· ∉ unset) = m := by
      rw [← there]
      exact OrderedMap.ext (by simp [OrderedMap.filter])
    show hashEntry (((fieldsOf (hashEntry m row.expires)).setAll set).filter (· ∉ unset)) row.expires = _
    rw [found, OrderedMap.setAll_eq_self kept, again]
  case h_2 => rfl

/-- What a row left can be written into again. -/
theorem again_specified {row : TypedRow T} {prior : Option (Entry T)} :
    row.Repairable (row.specified prior) ∧ (row.again (row.specified prior) = true → row.again prior = true) := by
  by_cases merged : ∃ set unset distinct, row.content = .hash true set unset distinct
  · obtain ⟨set, unset, distinct, is⟩ := merged
    have typed : asHash (row.specified prior) ≠ none := by
      simp [TypedRow.specified, is, Command.asHash_hashEntry]
    refine ⟨?_, ?_⟩
    · simp only [TypedRow.Repairable, is]
      exact fun other => absurd other typed
    · simp [TypedRow.again, TypedRow.replaces, TypedRow.mistyped, is, typed]
  · have other : ∀ set unset distinct, row.content ≠ .hash true set unset distinct :=
      fun set unset distinct is => merged ⟨set, unset, distinct, is⟩
    refine ⟨?_, ?_⟩
    · unfold TypedRow.Repairable
      split
      case h_1 is => exact absurd is (other _ _ _)
      case h_2 => trivial
    · unfold TypedRow.again TypedRow.mistyped
      split
      case h_1 is => exact absurd is (other _ _ _)
      case h_2 => simp

/-- `Converges`, of rows that are read. -/
def WriteConverges (refuses : Refuses T) (rows : List (TypedRow T)) (ks : Keyspace T) : Prop :=
  match write refuses rows ks with
  | (.ok _, after) => after = specifiedBy rows ks ∧ write refuses rows after = (.ok (), after)
  | (.error e, _) => e ≠ .wrongType

theorem converges_iff_write {V : Type*} {reading : Reading V T} {values : List (Values V)}
    (read : values.mapM (typedRow reading) = .ok rows) :
    Converges refuses reading values rows ks ↔ WriteConverges refuses rows ks := by
  have sent : ∀ ks, pipelineWrite refuses reading values ks =
      ((write refuses rows ks).1.mapError .server, (write refuses rows ks).2) := by
    intro ks
    simp only [pipelineWrite, read]
  unfold Converges WriteConverges
  rw [sent]
  obtain ⟨result, after⟩ := write refuses rows ks
  cases result with
  | error e => simp [Except.mapError]
  | ok _ =>
    simp only [Except.mapError, sent]
    obtain ⟨result, again⟩ := write refuses rows after
    cases result <;> simp

/-- **What can be repaired converges**, whatever the server refuses. -/
theorem converges_of_repairable (distinct : (rows.map TypedRow.key).Nodup)
    (repairable : ∀ row ∈ rows, row.Repairable (ks row.key)) : WriteConverges refuses rows ks := by
  unfold WriteConverges
  rcases write_cases refuses distinct ks with
    ⟨frees, done⟩ | ⟨-, message, error⟩ | ⟨-, row, mem, stuck⟩
  · have is : updateAll rows (outcome refuses) ks = specifiedBy rows ks :=
      updateAll_congr fun row mem => outcome_eq (frees row mem).1 (repairable row mem)
    rw [done, is]
    refine ⟨rfl, ?_⟩
    have left : ∀ row ∈ rows, specifiedBy rows ks row.key = row.specified (ks row.key) :=
      fun row mem => updateAll_key distinct mem
    rcases write_cases refuses distinct (specifiedBy rows ks) with
      ⟨-, again⟩ | ⟨⟨row, mem, refused⟩, -⟩ | ⟨-, row, mem, stuck⟩
    · rw [again]
      refine congrArg (Prod.mk _) ?_
      have second : updateAll rows (outcome refuses) (specifiedBy rows ks) =
          updateAll rows (fun _ e => e) (specifiedBy rows ks) := by
        refine updateAll_congr fun row mem => ?_
        rw [left row mem, outcome_eq (frees row mem).1 again_specified.1, specified_specified]
      rw [second]
      funext k
      unfold updateAll
      split <;> rfl
    · rw [left row mem] at refused
      rcases refused with refused | ⟨again, refused⟩
      · exact absurd (frees row mem).1 refused
      · exact absurd ((frees row mem).2.2 (again_specified.2 again)) refused
    · rw [left row mem] at stuck
      exact absurd again_specified.1 stuck
  · cases h : write refuses rows ks with
    | mk result after =>
      rw [h] at error
      simp only at error
      subst error
      simp
  · exact absurd (repairable row mem) stuck

/-- **What cannot be repaired does not**, though nothing is refused. -/
theorem repairable_of_converges (distinct : (rows.map TypedRow.key).Nodup)
    (converges : WriteConverges (fun _ => none) rows ks) : ∀ row ∈ rows, row.Repairable (ks row.key) := by
  intro row mem
  unfold WriteConverges at converges
  rcases write_cases (fun _ => none) distinct ks with
    ⟨frees, done⟩ | ⟨⟨row, -, refused⟩, -⟩ | ⟨wrong, -⟩
  · rw [done] at converges
    have held := congrFun converges.1 row.key
    rw [updateAll_key distinct mem] at held
    have said : specifiedBy rows ks row.key = row.specified (ks row.key) := updateAll_key distinct mem
    rw [said] at held
    unfold TypedRow.Repairable
    split
    case h_1 set unset unique is =>
      intro other
      obtain ⟨-, typed, -⟩ := frees row mem
      rcases settle_mistyped (fun _ => none) is other with
        ⟨-, none_, -, after⟩ | ⟨refused, -⟩ | ⟨wrong, -⟩
      · refine ⟨fun empty => ?_, none_⟩
        -- its key was given another time to live, and is still there as something else
        have left : row.again (ks row.key) = false := by
          simp [TypedRow.again, TypedRow.replaces, TypedRow.mistyped, is, empty]
        rw [outcome, if_neg (by simp [left]), after] at held
        have nothing : row.specified (ks row.key) = none := by
          simp [TypedRow.specified, is, fieldsOf, other, empty, OrderedMap.setAll, OrderedMap.filter,
            OrderedMap.empty, hashEntry, hashOf]
        rw [nothing, Option.map_eq_none_iff] at held
        rw [held] at other
        cases other
      · simp [Free] at refused
      · exact absurd wrong typed
    case h_2 => trivial
  · simp [Free] at refused
  · cases h : write (fun _ => none) rows ks with
    | mk result after =>
      rw [h] at wrong converges
      simp only at wrong
      subst wrong
      simp at converges

end Batch

/-! ## Writes and deletes -/

omit [DecidableEq T] in
theorem deletes_converge (keys : List String) (ks : Keyspace T) : DeletesConverge keys ks := by
  have is : ∀ ks : Keyspace T, ∀ k, deleteRows keys ks k = if k ∈ keys ∧ 0 < k.length then none else ks k := by
    intro ks k
    simp only [deleteRows, List.mem_filter, decide_eq_true_eq]
  refine ⟨is ks, funext fun k => ?_⟩
  rw [is, is]
  split <;> rfl

/-- **A batch converges from a keyspace**, on any server, exactly where each hash that is written field
by field, over a key that holds something else, sets a field and removes none. Deletes always do. -/
theorem converges_iff {V : Type*} (reading : Reading V T) {values : List (Values V)}
    {rows : List (TypedRow T)} (read : values.mapM (typedRow reading) = .ok rows)
    (distinct : (rows.map TypedRow.key).Nodup) (ks : Keyspace T) :
    ((∀ refuses, Converges refuses reading values rows ks) ↔
        ∀ row ∈ rows, row.Repairable (ks row.key)) ∧
      ∀ keys, DeletesConverge keys ks := by
  refine ⟨⟨fun h => ?_, fun repairable refuses => ?_⟩, fun keys => deletes_converge keys ks⟩
  · exact repairable_of_converges distinct ((converges_iff_write read).mp (h fun _ => none))
  · exact (converges_iff_write read).mpr (converges_of_repairable distinct repairable)

namespace Profiles

/-- A value is null, a text, or an object of such values. -/
inductive Cell where
  | null
  | text (s : String)
  | object (fields : List (String × Option String))

def reading : Reading Cell String where
  isNil
    | .null => true
    | _ => false
  items _ := none
  entries
    | .object fields => some (OrderedMap.empty.setAll
        (fields.map fun f => (f.1, (f.2.map Cell.text).getD .null)))
    | _ => none
  asText
    | .text s => s
    | _ => ""

def profile (fields : List (String × Option String)) : List (Values Cell) :=
  [{ key := "user:1", value := .object fields, type := "hash", seconds := none, fields := true }]

/-- From an earlier setup of the bridge the key holds a text. -/
def earlier : Keyspace String := fun k => if k = "user:1" then some ⟨.string "Ada", none⟩ else none

def renamed : TypedRow String :=
  { key := "user:1", ttl := 0, content := .hash true [("name", "Ada")] [] (by decide) }

theorem profile_replaces_text :
    Converges (fun _ => none) reading (profile [("name", some "Ada")]) [renamed] earlier :=
  ((converges_iff reading rfl (by decide) earlier).1).mpr (fun row mem => by
    obtain rfl := List.mem_singleton.mp mem
    exact fun _ => ⟨by decide, rfl⟩) fun _ => none

def renamedOnly : TypedRow String :=
  { key := "user:1", ttl := 0, content := .hash true [("name", "Ada")] ["email"] (by decide) }

/-- The field that is null is removed from a key that is still a text: the write fails, and fails again
whenever it is tried. -/
theorem null_field_fails : ¬ ∀ refuses, Converges refuses reading
    (profile [("name", some "Ada"), ("email", none)]) [renamedOnly] earlier := by
  intro h
  exact h (fun _ => none) rfl

end Profiles

end Syncle.Redis
