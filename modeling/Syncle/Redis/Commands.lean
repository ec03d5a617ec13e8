import Mathlib.Logic.Function.Basic
import Syncle.Lib.OrderedMap

/-!
# Redis: keys and commands

The keyspace, and what the commands that the writer sends do to it. Every command here is about one
key. A command on a key that holds something else answers `WRONGTYPE`; the server may refuse a command
for reasons of its own (its memory, a time or a score that is none), and then does nothing.
-/

namespace Syncle.Redis

open Syncle.Lib

variable {T : Type*} [DecidableEq T]

/-! ## The keyspace -/

inductive Stored (T : Type*) where
  | string (text : T)
  /-- a hash has fields -/
  | hash (fields : OrderedMap String T) (some_ : fields.entries ≠ [])
  | list (items : List T)
  | set (members : List T)
  /-- each member with the text of its score -/
  | zset (scores : OrderedMap T T)
  | stream

structure Entry (T : Type*) where
  value : Stored T
  /-- seconds -/
  ttl : Option ℕ

abbrev Keyspace (T : Type*) := String → Option (Entry T)

/-! ## Commands -/

inductive Command (T : Type*) where
  | set (key : String) (text : T) (ex : Option ℕ)
  | hset (key : String) (fields : List (String × T))
  | hdel (key : String) (fields : List String)
  | rpush (key : String) (items : List T)
  | sadd (key : String) (members : List T)
  | zadd (key : String) (score member : T)
  | expire (key : String) (seconds : ℕ)
  | persist (key : String)
  | del (key : String)

namespace Command

def key : Command T → String
  | .set key _ _ | .hset key _ | .hdel key _ | .rpush key _ | .sadd key _ | .zadd key _ _
  | .expire key _ | .persist key | .del key => key

/-- The fields of a hash, and when it expires. A key that is not there is an empty hash; none where it
holds something else. -/
def asHash : Option (Entry T) → Option (OrderedMap String T × Option ℕ)
  | none => some (.empty, none)
  | some ⟨.hash fields _, ttl⟩ => some (fields, ttl)
  | some _ => none

/-- A hash that has no fields is no key. -/
def hashOf (fields : OrderedMap String T) : Option (Stored T) :=
  if some_ : fields.entries = [] then none else some (.hash fields some_)

def hashEntry (fields : OrderedMap String T) (ttl : Option ℕ) : Option (Entry T) :=
  (hashOf fields).map fun value => ⟨value, ttl⟩

/-- What the key holds after the command; none where it holds something of another type. -/
def apply : Command T → Option (Entry T) → Option (Option (Entry T))
  | .set _ text ex, _ => some (some ⟨.string text, ex⟩)
  | .hset _ fields, e => (asHash e).map fun old => hashEntry (old.1.setAll fields) old.2
  | .hdel _ fields, e => (asHash e).map fun old => hashEntry (old.1.filter (· ∉ fields)) old.2
  | .rpush _ items, e =>
    match e with
    | none => some (some ⟨.list items, none⟩)
    | some ⟨.list old, ttl⟩ => some (some ⟨.list (old ++ items), ttl⟩)
    | some _ => none
  | .sadd _ members, e =>
    match e with
    | none => some (some ⟨.set members.eraseDups, none⟩)
    | some ⟨.set old, ttl⟩ => some (some ⟨.set (old ++ members).eraseDups, ttl⟩)
    | some _ => none
  | .zadd _ score member, e =>
    match e with
    | none => some (some ⟨.zset (OrderedMap.empty.set member score), none⟩)
    | some ⟨.zset old, ttl⟩ => some (some ⟨.zset (old.set member score), ttl⟩)
    | some _ => none
  | .expire _ seconds, e => some (e.map fun old => { old with ttl := some seconds })
  | .persist _, e => some (e.map fun old => { old with ttl := none })
  | .del _, _ => some none

variable {m : OrderedMap String T} {ttl : Option ℕ} {e : Option (Entry T)}

omit [DecidableEq T] in
theorem asHash_hashEntry :
    asHash (hashEntry m ttl) = some (m, if m.entries = [] then none else ttl) := by
  unfold hashEntry hashOf
  split
  case isTrue empty =>
    have : m = .empty := OrderedMap.ext empty
    simp [asHash, this, OrderedMap.empty]
  case isFalse some_ => simp [asHash]

omit [DecidableEq T] in
theorem eq_hashEntry (h : asHash e = some (m, ttl)) : e = hashEntry m ttl := by
  unfold asHash at h
  split at h
  case h_1 =>
    obtain ⟨rfl, rfl⟩ := Prod.mk.inj (Option.some.inj h)
    rfl
  case h_2 fields some_ ttl' =>
    obtain ⟨rfl, rfl⟩ := Prod.mk.inj (Option.some.inj h)
    simp [hashEntry, hashOf, some_]
  case h_3 => cases h

omit [DecidableEq T] in
theorem map_ttl_hashEntry (ttl' : Option ℕ) :
    ((hashEntry m ttl).map fun old => { old with ttl := ttl' }) = hashEntry m ttl' := by
  unfold hashEntry
  cases hashOf m <;> rfl

@[simp] theorem apply_hset (key : String) (fields : List (String × T)) :
    apply (.hset key fields) (hashEntry m ttl) =
      some (hashEntry (m.setAll fields) (if m.entries = [] then none else ttl)) := by
  simp [apply, asHash_hashEntry]

@[simp] theorem apply_hdel (key : String) (fields : List String) :
    apply (.hdel key fields) (hashEntry m ttl) =
      some (hashEntry (m.filter (· ∉ fields)) (if m.entries = [] then none else ttl)) := by
  simp [apply, asHash_hashEntry]

end Command

/-! ## Replies -/

inductive Error where
  | wrongType
  | other (message : String)
  deriving DecidableEq

/-- What the server refuses whatever the key holds. -/
abbrev Refuses (T : Type*) := Command T → Option String

section Exec

variable (refuses : Refuses T)

def Command.run (c : Command T) (e : Option (Entry T)) : Option Error × Option (Entry T) :=
  match refuses c with
  | some message => (some (.other message), e)
  | none =>
    match c.apply e with
    | none => (some .wrongType, e)
    | some after => (none, after)

/-- The replies of a pipeline: each command is run, whatever became of the ones before it. -/
def exec : List (Command T) → Keyspace T → List (Option Error) × Keyspace T
  | [], ks => ([], ks)
  | c :: rest, ks =>
    let first := c.run refuses (ks c.key)
    let later := exec rest (Function.update ks c.key first.2)
    (first.1 :: later.1, later.2)

/-- …where all of them are about one key. -/
def execAt : List (Command T) → Option (Entry T) → List (Option Error) × Option (Entry T)
  | [], e => ([], e)
  | c :: rest, e =>
    let first := c.run refuses e
    let later := execAt rest first.2
    (first.1 :: later.1, later.2)

variable {refuses}

theorem exec_append (cs cs' : List (Command T)) (ks : Keyspace T) :
    exec refuses (cs ++ cs') ks =
      ((exec refuses cs ks).1 ++ (exec refuses cs' (exec refuses cs ks).2).1,
        (exec refuses cs' (exec refuses cs ks).2).2) := by
  induction cs generalizing ks with
  | nil => rfl
  | cons c cs ih => simp only [List.cons_append, exec, ih]

variable (refuses) in
/-- Commands about one key look at what it holds, and change nothing else. -/
theorem exec_eq_execAt {cs : List (Command T)} {k : String} (about : ∀ c ∈ cs, c.key = k)
    (ks : Keyspace T) :
    exec refuses cs ks =
      ((execAt refuses cs (ks k)).1, Function.update ks k (execAt refuses cs (ks k)).2) := by
  induction cs generalizing ks with
  | nil => simp [exec, execAt]
  | cons c cs ih =>
    rw [List.forall_mem_cons] at about
    obtain ⟨rfl, about⟩ := about
    simp only [exec, execAt, ih about, Function.update_self, Function.update_idem]

/-- What a key holds after commands that are all of its type. -/
def applies : List (Command T) → Option (Entry T) → Option (Option (Entry T))
  | [], e => some e
  | c :: rest, e => (c.apply e).bind (applies rest)

theorem applies_append (cs cs' : List (Command T)) (e : Option (Entry T)) :
    applies (cs ++ cs') e = (applies cs e).bind (applies cs') := by
  induction cs generalizing e with
  | nil => rfl
  | cons c cs ih =>
    simp only [List.cons_append, applies]
    cases c.apply e with
    | none => rfl
    | some after => exact ih after

theorem length_execAt (cs : List (Command T)) (e : Option (Entry T)) :
    (execAt refuses cs e).1.length = cs.length := by
  induction cs generalizing e with
  | nil => rfl
  | cons c cs ih => simp [execAt, ih]

@[simp] theorem Command.run_refused {c : Command T} {message : String}
    (refused : refuses c = some message) (e : Option (Entry T)) :
    c.run refuses e = (some (.other message), e) := by
  simp [Command.run, refused]

@[simp] theorem Command.run_applied {c : Command T} {e after : Option (Entry T)}
    (free : refuses c = none) (applied : c.apply e = some after) : c.run refuses e = (none, after) := by
  simp [Command.run, free, applied]

@[simp] theorem Command.run_wrongType {c : Command T} {e : Option (Entry T)}
    (free : refuses c = none) (wrong : c.apply e = none) :
    c.run refuses e = (some .wrongType, e) := by
  simp [Command.run, free, wrong]

variable (refuses) in
/-- **Commands of the key's type** are all done where the server refuses none of them. Otherwise the
first error is a refusal. -/
theorem execAt_of_applies {cs : List (Command T)} {e after : Option (Entry T)}
    (typed : applies cs e = some after) :
    (∀ c ∈ cs, refuses c = none) ∧ (execAt refuses cs e).1.findSome? id = none ∧
        (execAt refuses cs e).2 = after ∨
      (∃ c ∈ cs, refuses c ≠ none) ∧
        ∃ message, (execAt refuses cs e).1.findSome? id = some (.other message) := by
  induction cs generalizing e with
  | nil =>
    obtain rfl := Option.some.inj typed
    exact Or.inl ⟨by simp, rfl, rfl⟩
  | cons c cs ih =>
    obtain ⟨next, applied, typed⟩ := Option.bind_eq_some_iff.mp typed
    simp only [execAt]
    cases refused : refuses c with
    | some message =>
      refine Or.inr ⟨⟨c, List.mem_cons_self, by simp [refused]⟩, message, ?_⟩
      simp [Command.run_refused refused]
    | none =>
      rw [Command.run_applied refused applied]
      rcases ih typed with ⟨free, none_, is⟩ | ⟨⟨c', mem, is⟩, message, first⟩
      · exact Or.inl ⟨List.forall_mem_cons.mpr ⟨refused, free⟩, by simpa using none_, is⟩
      · exact Or.inr ⟨⟨c', List.mem_cons_of_mem _ mem, is⟩, message, by simpa using first⟩

end Exec

end Syncle.Redis
