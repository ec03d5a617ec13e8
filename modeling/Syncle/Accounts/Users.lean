import Syncle.Lib.Tasks

/-!
# The accounts, as an admin manages them (`users.service.ts`)

A request that changes an account reads its row, counts the other admins where it would take an
admin away, and writes: three calls to the database, and other requests come in between.

"Two things are never allowed, because they would lock everybody out: the last admin that can sign
in cannot be demoted, disabled or deleted, and nobody deletes their own account." What is asked for
here of a request is that what it read stands when it writes (`CountStands`): whom it counted are
there still, and the account was an administrator's already. That it has counted, and has counted
anybody, is not asked for: a request that counts none is refused.
-/

namespace Syncle.Accounts

open Lib

inductive UserRole where
  | admin | operator | viewer
  deriving DecidableEq

/-- `AppUser`, as far as these requests read it. A time is told by whether there is one. -/
structure AppUser where
  id : ℕ
  /-- the column is a text -/
  role : String
  disabledAt : Bool
  deriving DecidableEq

def UserRole.text : UserRole → String
  | .admin => "admin"
  | .operator => "operator"
  | .viewer => "viewer"

def roleOf (role : String) : UserRole :=
  if role = "operator" then .operator else if role = "viewer" then .viewer else .admin

/-- An administrator that can sign in. -/
def AppUser.enabledAdmin (user : AppUser) : Bool := roleOf user.role = .admin && !user.disabledAt

/-- `{ role: 'admin', disabledAt: null }` -/
def AppUser.countsAsAdmin (user : AppUser) : Bool := user.role = "admin" && !user.disabledAt

/-- `UserUpdateDTO`, without the password. -/
structure UserUpdate where
  role : Option UserRole
  disabled : Option Bool
  deriving DecidableEq

inductive UsersRequest where
  | create (id : ℕ) (role : UserRole)
  | update (id : ℕ) (patch : UserUpdate) (by_ : ℕ)
  | remove (id : ℕ) (by_ : ℕ)
  deriving DecidableEq

/-- Where a request stands. `counted` is of the writes that had to count: which other admins there
were. No code reads it; what is read is how many. -/
inductive UsersAwait where
  | reading
  | counting (user : AppUser)
  | writing (user : AppUser) (counted : Option (List ℕ))
  deriving DecidableEq

structure UsersTask where
  request : UsersRequest
  at_ : UsersAwait
  deriving DecidableEq

namespace UsersRequest

/-- Would it take an administrator away, by the row it has read? -/
def takesAdmin (user : AppUser) : UsersRequest → Bool
  | .create _ _ => false
  | .update _ patch _ =>
    user.enabledAdmin && (patch.role.any (· ≠ .admin) || patch.disabled = some true)
  | .remove _ _ => user.enabledAdmin

/-- "You cannot disable your own account while signed in with it." -/
def disablesOwn (user : AppUser) : UsersRequest → Bool
  | .update _ patch by_ => patch.disabled = some true && user.id = by_
  | _ => false

/-- What a request writes over a row; none where it is deleted. -/
def written : UsersRequest → AppUser → Option AppUser
  | .create _ _, row => some row
  | .update id patch _, row =>
    if row.id = id then
      some { row with role := (patch.role.map UserRole.text).getD row.role
                      disabledAt := patch.disabled.getD row.disabledAt }
    else some row
  | .remove id _, row => if row.id = id then none else some row

end UsersRequest

namespace UsersTask

/-- `assertAnotherAdmin` has not been asked, or has not refused: the rest up to the write. -/
def afterCount (task : UsersTask) (user : AppUser) (counted : Option (List ℕ)) :
    Option UsersTask :=
  if task.request.disablesOwn user then none
  else some { task with at_ := .writing user counted }

/-- A row has been read. -/
def haveRead (task : UsersTask) (user : AppUser) : Option UsersTask :=
  match task.request with
  | .remove _ by_ =>
    if user.id = by_ then none
    else if task.request.takesAdmin user then some { task with at_ := .counting user }
    else task.afterCount user none
  | _ =>
    if task.request.takesAdmin user then some { task with at_ := .counting user }
    else task.afterCount user none

/-- The other admins that `assertAnotherAdmin` counts. -/
def otherAdmins (rows : List AppUser) (user : AppUser) : List ℕ :=
  (rows.filter fun other => other.id ≠ user.id && other.countsAsAdmin).map (·.id)

def resume (rows : List AppUser) (task : UsersTask) (_ : Unit) :
    Option (List AppUser × Option UsersTask) :=
  match task.at_ with
  | .reading =>
    match task.request with
    | .create id role =>
      if rows.any (·.id = id) then some (rows, none)
      else some (rows ++ [{ id := id, role := role.text, disabledAt := false }], none)
    | .update id _ _ | .remove id _ =>
      match rows.find? (·.id = id) with
      | none => some (rows, none)
      | some user => some (rows, task.haveRead user)
  | .counting user =>
    let others := otherAdmins rows user
    if others.length = 0 then some (rows, none)
    else some (rows, task.afterCount user (some others))
  | .writing _ _ => some (rows.filterMap task.request.written, none)

end UsersTask

def usersSystem : TaskSystem (List AppUser) UsersTask UsersRequest Unit Empty where
  init request := { request := request, at_ := .reading }
  resume := UsersTask.resume
  world _ e := nomatch e

/-- **There is an administrator** that can sign in. -/
def HasAdmin (rows : List AppUser) : Prop := ∃ user ∈ rows, user.enabledAdmin = true

instance (rows : List AppUser) : Decidable (HasAdmin rows) :=
  inferInstanceAs (Decidable (∃ user ∈ rows, user.enabledAdmin = true))

/-- Does a write take an administrator away? -/
def UsersRequest.takesAdminNow (request : UsersRequest) (rows : List AppUser) : Bool :=
  rows.any fun row => row.enabledAdmin && (request.written row).all (!·.enabledAdmin)

/-- Of the admins that were counted, is one there still? -/
def stillAdmin (rows : List AppUser) (counted : List ℕ) : Bool :=
  rows.any fun row => row.countsAsAdmin && decide (row.id ∈ counted)

/-- What was read stands, where a write takes an administrator away: one of the others that were
counted is there still, if any were. If nobody was counted, the account was an administrator's when
its row was read, and has not been made one since. -/
def UsersTask.CountStands (rows : List AppUser) (task : UsersTask) (_ : Unit) : Prop :=
  match task.at_ with
  | .writing user none => task.request.takesAdminNow rows = true → user.enabledAdmin = true
  | .writing _ (some counted) =>
    counted ≠ [] → task.request.takesAdminNow rows = true → stillAdmin rows counted = true
  | _ => True

instance (rows : List AppUser) : ∀ task : UsersTask, ∀ answer,
    Decidable (UsersTask.CountStands rows task answer)
  | { request, at_ := .writing user none }, _ =>
    inferInstanceAs (Decidable (request.takesAdminNow rows = true → user.enabledAdmin = true))
  | { request, at_ := .writing _ (some counted) }, _ => inferInstanceAs (Decidable
      (counted ≠ [] → request.takesAdminNow rows = true → stillAdmin rows counted = true))
  | { at_ := .reading, .. }, _ | { at_ := .counting _, .. }, _ => .isTrue trivial

/-! ## What a request goes by -/

/-- The account a request is about. -/
def UsersRequest.target : UsersRequest → ℕ
  | .create id _ | .update id _ _ | .remove id _ => id

theorem AppUser.enabledAdmin_of_counts {user : AppUser} (h : user.countsAsAdmin = true) :
    user.enabledAdmin = true := by
  simp only [countsAsAdmin, Bool.and_eq_true, decide_eq_true_eq] at h
  simp [enabledAdmin, roleOf, h.1, h.2]

/-- A request leaves the rows of other accounts alone. -/
theorem UsersRequest.written_other {request : UsersRequest} {row : AppUser}
    (other : row.id ≠ request.target) : request.written row = some row := by
  cases request with
  | create id role => rfl
  | update id patch by_ => exact if_neg other
  | remove id by_ => exact if_neg other

/-- Whether the write takes an administrator away is told by the request and by whether the row is
an enabled administrator's. -/
theorem UsersRequest.takesAdmin_of_now {request : UsersRequest} {rows : List AppUser} {user : AppUser}
    (takes : request.takesAdminNow rows = true) (enabled : user.enabledAdmin = true) :
    request.takesAdmin user = true := by
  obtain ⟨row, -, taken⟩ := List.any_eq_true.mp takes
  obtain ⟨admin, lost⟩ := Bool.and_eq_true_iff.mp taken
  cases request with
  | create id role => simp [written, admin] at lost
  | remove id by_ => exact enabled
  | update id patch by_ =>
    by_cases own : row.id = id
    · by_contra keeps
      simp only [takesAdmin, enabled, Bool.true_and, Bool.or_eq_true, decide_eq_true_eq, not_or] at keeps
      obtain ⟨sameRole, notDisabled⟩ := keeps
      obtain ⟨role, disabled⟩ := patch
      obtain ⟨isAdmin, signsIn⟩ : roleOf row.role = .admin ∧ row.disabledAt = false := by
        simpa [AppUser.enabledAdmin] using admin
      have stillAdmin : roleOf ((role.map UserRole.text).getD row.role) = .admin := by
        cases role with
        | none => exact isAdmin
        | some role =>
          obtain rfl : role = .admin := by simpa using sameRole
          rfl
      have stillSignsIn : disabled.getD row.disabledAt = false := by
        cases disabled with
        | none => exact signsIn
        | some disabled => simpa using notDisabled
      simp [written, own, AppUser.enabledAdmin, stillAdmin, stillSignsIn] at lost
    · simp [written, own, admin] at lost

/-- The row it has read is its account's, and those it counted are others, and some. Where it has not
counted, it had not to. -/
structure UsersTask.Knows (task : UsersTask) : Prop where
  counting : ∀ user, task.at_ = .counting user → user.id = task.request.target
  uncounted : ∀ user, task.at_ = .writing user none → task.request.takesAdmin user = false
  writing : ∀ user others, task.at_ = .writing user (some others) →
    others ≠ [] ∧ task.request.target ∉ others

theorem UsersTask.knows_afterCount {task n : UsersTask} {user : AppUser}
    {counted : Option (List ℕ)}
    (none_ : counted = none → task.request.takesAdmin user = false)
    (others : ∀ ids, counted = some ids → ids ≠ [] ∧ task.request.target ∉ ids)
    (h : task.afterCount user counted = some n) : n.Knows := by
  unfold afterCount at h
  split at h
  · cases h
  · obtain rfl := Option.some.inj h
    refine ⟨nofun, fun _ h => ?_, fun _ ids h => ?_⟩ <;> simp only [UsersAwait.writing.injEq] at h
    · obtain ⟨rfl, rfl⟩ := h
      exact none_ rfl
    · exact others ids h.2

theorem UsersTask.knows_haveRead {task n : UsersTask} {user : AppUser}
    (own : user.id = task.request.target) (h : task.haveRead user = some n) : n.Knows := by
  have counting : UsersTask.Knows { task with at_ := .counting user } := by
    refine ⟨fun _ h => ?_, nofun, nofun⟩
    obtain rfl := UsersAwait.counting.inj h
    exact own
  unfold haveRead at h
  split at h
  · split at h
    · cases h
    · split at h
      · obtain rfl := Option.some.inj h
        exact counting
      · next keeps => exact knows_afterCount (fun _ => by simpa using keeps) (by simp) h
  · split at h
    · obtain rfl := Option.some.inj h
      exact counting
    · next keeps => exact knows_afterCount (fun _ => by simpa using keeps) (by simp) h

theorem UsersTask.target_not_mem_others {rows : List AppUser} {user : AppUser} {target : ℕ}
    (own : user.id = target) : target ∉ otherAdmins rows user := by
  subst own
  simp only [otherAdmins, List.mem_map, List.mem_filter, Bool.and_eq_true, decide_eq_true_eq]
  rintro ⟨other, ⟨_, ne, _⟩, same⟩
  exact ne same

/-- **A write whose count stands leaves an administrator.** -/
theorem hasAdmin_written {rows : List AppUser} {task : UsersTask} {user : AppUser}
    {counted : Option (List ℕ)} (knows : task.Knows) (at_ : task.at_ = .writing user counted)
    (stands : task.CountStands rows ()) (has : HasAdmin rows) :
    HasAdmin (rows.filterMap task.request.written) := by
  rw [UsersTask.CountStands, at_] at stands
  by_cases takes : task.request.takesAdminNow rows = true
  · cases counted with
    | none =>
      -- an administrator's row, and the request takes it away: it would have counted
      have counts := UsersRequest.takesAdmin_of_now takes (stands takes)
      rw [knows.uncounted user at_] at counts
      cases counts
    | some ids =>
      obtain ⟨any, foreign⟩ := knows.writing user ids at_
      obtain ⟨row, mem, still⟩ := List.any_eq_true.mp (stands any takes)
      simp only [Bool.and_eq_true, decide_eq_true_eq] at still
      obtain ⟨counts, others⟩ := still
      have other : row.id ≠ task.request.target := fun same => foreign (same ▸ others)
      exact ⟨row, List.mem_filterMap.mpr ⟨row, mem, UsersRequest.written_other other⟩,
        AppUser.enabledAdmin_of_counts counts⟩
  · obtain ⟨row, mem, enabled⟩ := has
    have kept := fun lost => takes (List.any_eq_true.mpr ⟨row, mem, lost⟩)
    cases written : task.request.written row with
    | none => simp [enabled, written] at kept
    | some after =>
      have still : after.enabledAdmin = true := by simpa [enabled, written] using kept
      exact ⟨after, List.mem_filterMap.mpr ⟨row, mem, written⟩, still⟩

theorem usersSystem_keeps :
    usersSystem.Keeps (onGo UsersTask.CountStands) HasAdmin (fun _ task => task.Knows) where
  begins _ _ := ⟨nofun, nofun, nofun⟩
  goes := by
    intro w t answer task s next stands holds running resumed
    have knows := holds.tasks t task running
    have has := holds.shared
    have ended : ∀ n : UsersTask, none = some n → n.Knows := by
      intro n is
      cases is
    simp only [usersSystem, UsersTask.resume] at resumed
    split at resumed
    · next reading =>
      split at resumed
      · split at resumed <;> obtain ⟨rfl, rfl⟩ := Prod.mk.inj (Option.some.inj resumed)
        · exact ⟨has, ended⟩
        · obtain ⟨row, mem, enabled⟩ := has
          exact ⟨⟨row, List.mem_append_left _ mem, enabled⟩, ended⟩
      all_goals
        next request =>
          split at resumed <;> obtain ⟨rfl, rfl⟩ := Prod.mk.inj (Option.some.inj resumed)
          · exact ⟨has, ended⟩
          · next found =>
            refine ⟨has, fun n h => UsersTask.knows_haveRead ?_ h⟩
            simpa [request, UsersRequest.target] using List.find?_some found
    · next user counting =>
      split at resumed <;> obtain ⟨rfl, rfl⟩ := Prod.mk.inj (Option.some.inj resumed)
      · exact ⟨has, ended⟩
      · next any =>
        refine ⟨has, fun n h => UsersTask.knows_afterCount (by simp) (fun ids same => ?_) h⟩
        obtain rfl := Option.some.inj same
        -- a count of none is refused, so whoever writes has counted somebody
        refine ⟨fun nobody => any (List.length_eq_zero_iff.mpr nobody), ?_⟩
        exact UsersTask.target_not_mem_others (knows.counting user counting)
    · next user counted writing =>
      obtain ⟨rfl, rfl⟩ := Prod.mk.inj (Option.some.inj resumed)
      exact ⟨hasAdmin_written knows writing (stands task running) has, ended⟩
  stays _ holds _ _ _ hu := holds.tasks _ _ hu
  world := by
    intro w e
    exact nomatch e

/-- **There is always an administrator, as long as what a request counted stands when it
writes.** -/
theorem hasAdmin_of_countStands {rows : List AppUser} {es : List (TaskEvent UsersRequest Unit Empty)}
    {w : Tasks (List AppUser) UsersTask} (has : HasAdmin rows)
    (run : Run usersSystem.step (onGo UsersTask.CountStands) (Tasks.idle rows) es w) : HasAdmin w.shared :=
  (usersSystem_keeps.run run (.idle has)).shared

/-- Two administrators. -/
def twoAdmins : List AppUser :=
  [{ id := 1, role := "admin", disabledAt := false }, { id := 2, role := "admin", disabledAt := false }]

/-- An account becomes an operator's. -/
def demote (id by_ : ℕ) : UsersRequest :=
  .update id { role := some .operator, disabled := none } by_

/-- Each of two administrators demotes the other. Both count one, and none is left. -/
theorem two_demotions :
    HasAdmin twoAdmins ∧
      ∃ w, Run usersSystem.step anyStep (Tasks.idle twoAdmins)
          [.begin 0 (demote 2 1), .begin 1 (demote 1 2), .go 0 (), .go 1 (), .go 0 (), .go 1 (),
            .go 0 (), .go 1 ()] w ∧
        ¬ HasAdmin w.shared := by
  refine ⟨by decide, _, run_of_eval rfl, ?_⟩
  decide

/-- One of them is demoted by the other. -/
theorem one_demotion :
    HasAdmin twoAdmins ∧
      ∃ w, Run usersSystem.step (onGo UsersTask.CountStands) (Tasks.idle twoAdmins)
          [.begin 0 (demote 2 1), .go 0 (), .go 0 (), .go 0 ()] w ∧
        HasAdmin w.shared := by
  have has : HasAdmin twoAdmins := by decide
  have run : ∃ w, Run usersSystem.step (onGo UsersTask.CountStands) (Tasks.idle twoAdmins)
      [.begin 0 (demote 2 1), .go 0 (), .go 0 (), .go 0 ()] w :=
    ⟨_, run_iff_runEvents.mpr rfl⟩
  obtain ⟨w, run⟩ := run
  exact ⟨has, w, run, hasAdmin_of_countStands has run⟩

end Syncle.Accounts
