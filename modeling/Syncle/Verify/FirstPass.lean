import Syncle.Verify.Writes

/-!
# What the first pass counts and writes

Over a source whose rows all say which row they are, and no two the same, the first pass counts
the rows that are missing and those that differ, and in a reconcile it writes exactly the wrong
rows, in some order (`firstPass_spec`).

Every lookup on the way has to ask for all its keys. `SourceApart` says so of each page and of each
second look, for the state the pass has come to when it asks.
-/

namespace Syncle.Verify

open Syncle.Lib

variable {A V O : Type*} [LinearOrder A]

namespace Setup

variable {S : Setup A V O} {source pending : List (Expected A V)} {fix : Bool}
  {run : TargetRun A V O}

/-! ## What is asked for together -/

/-- A page of the source, or the rows looked at again: the target can be asked for them. -/
def TargetAsked (S : Setup A V O) (rows : List (Expected A V)) : Prop :=
  Apart S.writtenText (rows.map (·.key))

/-- And the source, where the second look reads its rows again. -/
def SourceAsked (S : Setup A V O) (rows : List (Expected A V)) : Prop :=
  S.moving = true → S.keyIsTransformed = false → Apart S.sourceText (rows.map (·.key))

/-- What the second look asks for, if it is made now. -/
def LookApart (S : Setup A V O) (run : TargetRun A V O) : Prop :=
  S.TargetAsked run.suspects.values ∧ S.SourceAsked run.suspects.values

/-- What is asked for when a page is compared, and the suspects settled if they are enough. -/
def FlushApart (S : Setup A V O) (run : TargetRun A V O) (page : List (Expected A V)) : Prop :=
  S.TargetAsked page ∧
    (recheckBatch ≤ (S.compare run page).suspects.size → S.LookApart (S.compare run page))

/-- What is asked for from here to the end of the source: `state` is the run and the page that is
being filled. -/
def SourceApart (S : Setup A V O) (source : List (Expected A V)) (fix : Bool) :
    List (Expected A V) → TargetRun A V O × List (Expected A V) → Prop
  | [], state =>
    S.FlushApart state.1 state.2 ∧ S.LookApart (S.flushPage source fix state.1 state.2)
  | e :: rest, state =>
    (S.pageSize ≤ (state.2 ++ [e]).length → S.FlushApart state.1 (state.2 ++ [e])) ∧
      SourceApart S source fix rest (S.takeSource source fix state e)

theorem TargetAsked.subset {rows rows' : List (Expected A V)} (asked : S.TargetAsked rows)
    (sub : rows' ⊆ rows) : S.TargetAsked rows' :=
  Apart.subset asked (List.map_subset _ sub)

theorem SourceAsked.subset {rows rows' : List (Expected A V)} (asked : S.SourceAsked rows)
    (sub : rows' ⊆ rows) : S.SourceAsked rows' :=
  fun moving plain => (asked moving plain).subset (List.map_subset _ sub)

/-! ## A round of the second look -/

theorem absent_eq (once : KeysOnce TargetRow.key run.target) (asked : S.TargetAsked pending) :
    (pending.filter fun e =>
        ((S.fetchTarget S.writtenText run.target (pending.map (·.key))).get? e.key).isNone) =
      pending.filter (absent run.target) := by
  refine List.filter_congr fun e he => ?_
  unfold fetchTarget absent
  rw [get?_fetchByKeys S.targetMaxRows_pos once asked (List.mem_map_of_mem he)]

theorem changed_eq (once : KeysOnce TargetRow.key run.target) (asked : S.TargetAsked pending) :
    (pending.filter fun e =>
        ((S.fetchTarget S.writtenText run.target (pending.map (·.key))).get? e.key).any
          (S.differs e)) =
      pending.filter (S.changed run.target) := by
  refine List.filter_congr fun e he => ?_
  unfold fetchTarget changed
  rw [get?_fetchByKeys S.targetMaxRows_pos once asked (List.mem_map_of_mem he)]

theorem wrong_eq (once : KeysOnce TargetRow.key run.target) (asked : S.TargetAsked pending) :
    (pending.filter fun e =>
        ((S.fetchTarget S.writtenText run.target (pending.map (·.key))).get? e.key).all
          (S.differs e)) =
      pending.filter (S.wrong run.target) := by
  refine List.filter_congr fun e he => ?_
  unfold fetchTarget wrong
  rw [get?_fetchByKeys S.targetMaxRows_pos once asked (List.mem_map_of_mem he)]

/-- The rows a round of the second look goes by. -/
def refetched (S : Setup A V O) (source pending : List (Expected A V)) : List (Expected A V) :=
  if S.moving ∧ S.keyIsTransformed = false then
    (S.fetchSource source S.sourceText (pending.map (·.key))).values
  else pending

/-- What the round that counts adds. -/
def counting (S : Setup A V O) (run : TargetRun A V O) (rows : List (Expected A V)) :
    TargetRun A V O :=
  { run with
    missing := run.missing + (rows.filter (absent run.target)).length
    different := run.different + (rows.filter (S.changed run.target)).length }

/-- What a round that repairs adds. -/
def repairing (S : Setup A V O) (first : Bool) (run : TargetRun A V O)
    (rows : List (Expected A V)) : TargetRun A V O :=
  { run with
    target := S.putAll run.target rows
    fixed := if first then run.fixed + rows.length else run.fixed }

theorem lookAgain_succ {left : Nat} {first : Bool} (once : KeysOnce TargetRow.key run.target)
    (asked : S.TargetAsked (S.refetched source pending)) :
    S.lookAgain source fix (left + 1) first run pending =
      if fix = false ∨ (S.refetched source pending).filter (S.wrong run.target) = [] then
        if first then S.counting run (S.refetched source pending) else run
      else if left = 0 ∧ first = false then
        if first then S.counting run (S.refetched source pending) else run
      else
        S.lookAgain source fix left false
          (S.repairing first (if first then S.counting run (S.refetched source pending) else run)
            ((S.refetched source pending).filter (S.wrong run.target)))
          ((S.refetched source pending).filter (S.wrong run.target)) := by
  unfold counting
  rw [← wrong_eq once asked, ← absent_eq (S := S) once asked, ← changed_eq once asked]
  rfl

/-- What a second look did: it counted, and wrote the rows that were wrong. -/
structure Looked (S : Setup A V O) (fix : Bool) (pending : List (Expected A V))
    (run run' : TargetRun A V O) : Prop where
  suspects : run'.suspects = run.suspects
  extraSuspects : run'.extraSuspects = run.extraSuspects
  extra : run'.extra = run.extra
  missing : run'.missing = run.missing + pending.countP (absent run.target)
  different : run'.different = run.different + pending.countP (S.changed run.target)
  written : ∃ es, es.Perm (if fix then pending.filter (S.wrong run.target) else []) ∧
    run'.target = S.putAll run.target es

section Static

variable (usable : ∀ e ∈ source, e.key.usable = true) (distinct : (source.map (·.key)).Nodup)

include distinct in
theorem keysOnce_source : KeysOnce Expected.key source := distinct.filter _

include usable distinct

/-- The source is as it was, so the rows are the ones looked at first. -/
theorem refetched_perm (sub : ∀ e ∈ pending, e ∈ source) (nodup : (pending.map (·.key)).Nodup)
    (again : S.SourceAsked pending) : (S.refetched source pending).Perm pending := by
  unfold refetched
  split
  case isFalse => exact List.Perm.refl pending
  case isTrue both =>
    have once := keysOnce_source distinct
    unfold fetchSource
    rw [values_fetchByKeys S.sourceMaxRows_pos once]
    refine (List.perm_ext_iff_of_nodup (nodup_matching once).of_map nodup.of_map).mpr fun e => ?_
    rw [mem_matching (again both.1 both.2)]
    constructor
    · rintro ⟨mem, asked, -⟩
      obtain ⟨x, hx, same⟩ := List.mem_map.mp asked
      have eq : x = e := List.inj_on_of_nodup_map distinct (sub x hx) mem same
      exact eq ▸ hx
    · intro mem
      exact ⟨sub e mem, List.mem_map_of_mem mem, usable e (sub e mem)⟩

/-- A round that finds nothing wrong is the last. -/
theorem lookAgain_of_mended {left : Nat} (once : KeysOnce TargetRow.key run.target)
    (sub : ∀ e ∈ pending, e ∈ source) (nodup : (pending.map (·.key)).Nodup)
    (asked : S.TargetAsked pending) (again : S.SourceAsked pending)
    (mended : ∀ e ∈ pending, S.wrong run.target e = false) :
    S.lookAgain source fix left false run pending = run := by
  cases left with
  | zero => rfl
  | succ left =>
    have same := refetched_perm usable distinct sub nodup again
    have none : (S.refetched source pending).filter (S.wrong run.target) = [] := by
      refine List.filter_eq_nil_iff.mpr fun e he => ?_
      simp [mended e (same.subset he)]
    rw [lookAgain_succ once (asked.subset same.subset), if_pos (Or.inr none)]
    rfl

theorem counting_looked (sub : ∀ e ∈ pending, e ∈ source) (nodup : (pending.map (·.key)).Nodup)
    (again : S.SourceAsked pending) (none : fix = false ∨ pending.filter (S.wrong run.target) = []) :
    Looked S fix pending run (S.counting run (S.refetched source pending)) := by
  have same := refetched_perm usable distinct sub nodup again
  constructor
  case suspects => rfl
  case extraSuspects => rfl
  case extra => rfl
  case missing =>
    rw [← same.countP_eq, List.countP_eq_length_filter]
    rfl
  case different =>
    rw [← same.countP_eq, List.countP_eq_length_filter]
    rfl
  case written =>
    refine ⟨[], ?_, rfl⟩
    rcases none with rfl | none
    · exact List.Perm.nil
    · rw [none, ite_self]

theorem lookAgain_spec {left : Nat} (once : KeysOnce TargetRow.key run.target)
    (sub : ∀ e ∈ pending, e ∈ source) (nodup : (pending.map (·.key)).Nodup)
    (asked : S.TargetAsked pending) (again : S.SourceAsked pending) :
    Looked S fix pending run (S.lookAgain source fix (left + 1) true run pending) := by
  have same := refetched_perm usable distinct sub nodup again
  have wrong := same.filter (S.wrong run.target)
  rw [lookAgain_succ once (asked.subset same.subset)]
  simp only [if_true]
  split
  case isTrue none =>
    refine counting_looked usable distinct sub nodup again (none.imp_right fun h => ?_)
    rw [h] at wrong
    exact wrong.symm.eq_nil
  case isFalse some =>
    rw [if_neg (fun h => Bool.noConfusion h.2)]
    have fixing : fix = true := by simpa using fun h => some (Or.inl h)
    subst fixing
    generalize (S.refetched source pending).filter (S.wrong run.target) = rows at wrong
    have among : rows ⊆ pending := fun e he => List.mem_of_mem_filter (wrong.subset he)
    have subRows : ∀ e ∈ rows, e ∈ source := fun e he => sub e (among he)
    have nodupRows : (rows.map (·.key)).Nodup :=
      (wrong.map Expected.key).nodup_iff.mpr (nodup.sublist (List.filter_sublist.map _))
    have usableRows : ∀ e ∈ rows, e.key.usable = true := fun e he => usable e (subRows e he)
    have once' := keysOnce_putAll (S := S) usableRows once
    rw [lookAgain_of_mended usable distinct once' subRows nodupRows (asked.subset among)
      (again.subset among) fun e he => wrong_putAll usableRows nodupRows once he]
    have counted : Looked S false pending run (S.counting run (S.refetched source pending)) :=
      counting_looked usable distinct sub nodup again (Or.inl rfl)
    exact ⟨counted.suspects, counted.extraSuspects, counted.extra, counted.missing,
      counted.different, rows, wrong, rfl⟩

/-! ## Every row of the source -/

/-- The rows of `done` are compared: the wrong ones are settled or suspects. -/
structure Compared (S : Setup A V O) (fix : Bool) (target : List (TargetRow A V O))
    (done settled : List (Expected A V)) (run : TargetRun A V O) : Prop where
  wrong : done.filter (S.wrong target) = settled ++ run.suspects.values
  entries : run.suspects.entries = run.suspects.values.map fun e => (e.key, e)
  missing : run.missing = settled.countP (absent target)
  different : run.different = settled.countP (S.changed target)
  extraSuspects : run.extraSuspects = .empty
  extra : run.extra = none
  written : ∃ es, es.Perm (if fix then settled else []) ∧ run.target = S.putAll target es

variable {target : List (TargetRow A V O)} {done settled page : List (Expected A V)}
  (once : KeysOnce TargetRow.key target)
include once

omit distinct in
/-- The table as the repairs so far have left it. -/
theorem Compared.table (h : Compared S fix target done settled run) (sub : done <+: source) :
    KeysOnce TargetRow.key run.target ∧
      ∀ e : Expected A V, e.key ∉ settled.map (·.key) →
        rowAt TargetRow.key run.target e.key = rowAt TargetRow.key target e.key := by
  obtain ⟨es, perm, written⟩ := h.written
  have among : ∀ e ∈ es, e ∈ settled := by
    intro e he
    cases fix with
    | false => cases perm.subset he
    | true => exact perm.subset he
  have usable' : ∀ e ∈ es, e.key.usable = true := by
    intro e he
    have mem : e ∈ done.filter (S.wrong target) := by
      rw [h.wrong]
      exact List.mem_append_left _ (among e he)
    exact usable e (sub.subset (List.mem_of_mem_filter mem))
  rw [written]
  refine ⟨keysOnce_putAll usable' once, fun e other => ?_⟩
  refine rowAt_putAll usable' once fun mem => other ?_
  obtain ⟨x, hx, same⟩ := List.mem_map.mp mem
  exact List.mem_map.mpr ⟨x, among x hx, same⟩

theorem Compared.compare (h : Compared S fix target done settled run)
    (sub : done ++ page <+: source) (asked : S.TargetAsked page) :
    Compared S fix target (done ++ page) settled (S.compare run page) := by
  have nodup : ((done ++ page).map (·.key)).Nodup :=
    distinct.sublist (sub.sublist.map _)
  rw [List.map_append] at nodup
  obtain ⟨once', same⟩ := h.table usable once ((List.prefix_append _ _).trans sub)
  have apart : ∀ e ∈ page, e.key ∉ (done.filter (S.wrong target)).map (·.key) := by
    intro e he mem
    obtain ⟨x, hx, eq⟩ := List.mem_map.mp mem
    exact (List.nodup_append.mp nodup).2.2 _ (List.mem_map_of_mem (List.mem_of_mem_filter hx)) _
      (List.mem_map_of_mem he) eq
  have found : (page.filter fun e =>
      ((S.fetchTarget S.writtenText run.target (page.map (·.key))).get? e.key).all
        (S.differs e)) = page.filter (S.wrong target) := by
    rw [wrong_eq once' asked]
    refine List.filter_congr fun e he => ?_
    unfold Setup.wrong
    rw [same e fun mem => apart e he ?_]
    rw [h.wrong, List.map_append]
    exact List.mem_append_left _ mem
  have entries : (S.compare run page).suspects.entries =
      (run.suspects.values ++ page.filter (S.wrong target)).map fun e => (e.key, e) := by
    unfold Setup.compare
    simp only
    rw [found, OrderedMap.entries_setAll, h.entries, List.map_append]
    · rw [List.map_map]
      exact (List.nodup_append.mp nodup).2.1.sublist (List.filter_sublist.map _)
    · intro k mem old
      rw [List.map_map] at mem
      obtain ⟨e, he, rfl⟩ := List.mem_map.mp mem
      refine apart e (List.mem_of_mem_filter he) ?_
      rw [h.wrong, List.map_append]
      refine List.mem_append_right _ ?_
      unfold OrderedMap.keys at old
      rw [h.entries, List.map_map] at old
      exact old
  have values : (S.compare run page).suspects.values =
      run.suspects.values ++ page.filter (S.wrong target) := by
    unfold OrderedMap.values
    rw [entries, List.map_map]
    exact List.map_id _
  constructor
  case wrong => rw [values, List.filter_append, h.wrong, List.append_assoc]
  case entries => rw [values, entries]
  case missing => exact h.missing
  case different => exact h.different
  case extraSuspects => exact h.extraSuspects
  case extra => exact h.extra
  case written => exact h.written

/-- The suspects are settled. -/
theorem Compared.secondLook (h : Compared S fix target done settled run) (sub : done <+: source)
    (apart : S.LookApart run) :
    ∃ settled', Compared S fix target done settled' (S.secondLook source fix run) ∧
      (S.secondLook source fix run).suspects.values = [] := by
  unfold Setup.secondLook
  by_cases none : run.suspects.size = 0
  · rw [if_pos none]
    refine ⟨settled, h, ?_⟩
    unfold OrderedMap.values
    rw [List.eq_nil_of_length_eq_zero none]
    rfl
  · rw [if_neg none]
    obtain ⟨once', same⟩ := h.table usable once sub
    have sublist : (settled ++ run.suspects.values).Sublist source := by
      rw [← h.wrong]
      exact List.filter_sublist.trans sub.sublist
    have nodup := distinct.sublist (sublist.map Expected.key)
    rw [List.map_append] at nodup
    have among : ∀ e ∈ run.suspects.values, e ∈ source :=
      fun e he => sublist.subset (List.mem_append_right _ he)
    have unseen : ∀ e ∈ run.suspects.values,
        rowAt TargetRow.key run.target e.key = rowAt TargetRow.key target e.key :=
      fun e he => same e fun mem =>
        (List.nodup_append.mp nodup).2.2 _ mem _ (List.mem_map_of_mem he) rfl
    have isWrong : run.suspects.values.filter (S.wrong run.target) = run.suspects.values := by
      refine List.filter_eq_self.mpr fun e he => ?_
      have mem : e ∈ done.filter (S.wrong target) := by
        rw [h.wrong]
        exact List.mem_append_right _ he
      have first : S.wrong target e = true := List.of_mem_filter mem
      unfold Setup.wrong at *
      rw [unseen e he]
      exact first
    have rounds : ∃ left, (if (fix : Prop) ∧ S.moving then 3 else 1) = left + 1 := by
      split
      · exact ⟨2, rfl⟩
      · exact ⟨0, rfl⟩
    obtain ⟨left, rounds⟩ := rounds
    rw [rounds]
    have looked : Looked S fix run.suspects.values { run with suspects := .empty }
        (S.lookAgain source fix (left + 1) true { run with suspects := .empty }
          run.suspects.values) :=
      lookAgain_spec usable distinct once' among (List.nodup_append.mp nodup).2.1 apart.1 apart.2
    obtain ⟨es, perm, written⟩ := looked.written
    obtain ⟨before, permBefore, writtenBefore⟩ := h.written
    refine ⟨settled ++ run.suspects.values, ⟨?_, ?_, ?_, ?_, ?_, ?_, before ++ es, ?_, ?_⟩, ?_⟩
    · rw [looked.suspects, h.wrong]
      exact (List.append_nil _).symm
    · rw [looked.suspects]
      rfl
    · rw [looked.missing, List.countP_append, h.missing]
      refine congrArg _ (List.countP_congr fun e he => ?_)
      unfold absent
      rw [unseen e he]
    · rw [looked.different, List.countP_append, h.different]
      refine congrArg _ (List.countP_congr fun e he => ?_)
      unfold changed
      rw [unseen e he]
    · exact looked.extraSuspects.trans h.extraSuspects
    · exact looked.extra.trans h.extra
    · cases fix with
      | false =>
        rw [permBefore.eq_nil, perm.eq_nil]
        exact List.Perm.nil
      | true =>
        refine permBefore.append ?_
        simp only [if_true, isWrong] at perm
        exact perm
    · rw [written, putAll_append, ← writtenBefore]
    · rw [looked.suspects]
      rfl

theorem Compared.flushPage (h : Compared S fix target done settled run)
    (sub : done ++ page <+: source) (apart : S.FlushApart run page) :
    ∃ settled', Compared S fix target (done ++ page) settled' (S.flushPage source fix run page) := by
  unfold Setup.flushPage
  by_cases none : page = []
  · rw [if_pos none, none, List.append_nil]
    exact ⟨settled, h⟩
  · rw [if_neg none]
    have compared := h.compare usable distinct once sub apart.1
    simp only
    split
    case isTrue enough =>
      obtain ⟨settled', looked, -⟩ :=
        compared.secondLook usable distinct once sub (apart.2 enough)
      exact ⟨settled', looked⟩
    case isFalse => exact ⟨settled, compared⟩

/-- Row by row over the source: what is not yet in the page is compared. -/
theorem Compared.takeAll {rest : List (Expected A V)} (h : Compared S fix target done settled run)
    (all : done ++ page ++ rest = source) (apart : S.SourceApart source fix rest (run, page)) :
    ∃ done' settled',
      Compared S fix target done' settled' (rest.foldl (S.takeSource source fix) (run, page)).1 ∧
      done' ++ (rest.foldl (S.takeSource source fix) (run, page)).2 = source ∧
      S.SourceApart source fix [] (rest.foldl (S.takeSource source fix) (run, page)) := by
  induction rest generalizing done settled run page with
  | nil =>
    rw [List.append_nil] at all
    exact ⟨done, settled, h, all, apart⟩
  | cons e rest ih =>
    rw [List.foldl_cons]
    have joined : done ++ (page ++ [e]) ++ rest = source := by
      rw [← all]
      simp
    have step : S.takeSource source fix (run, page) e =
        if S.pageSize ≤ (page ++ [e]).length then (S.flushPage source fix run (page ++ [e]), [])
        else (run, page ++ [e]) := rfl
    obtain ⟨now, later⟩ := apart
    rw [step] at later ⊢
    split at later
    case isTrue full =>
      rw [if_pos full]
      obtain ⟨settled', flushed⟩ := h.flushPage usable distinct once ⟨rest, joined⟩ (now full)
      refine ih flushed ?_ later
      rw [List.append_nil]
      exact joined
    case isFalse room =>
      rw [if_neg room]
      exact ih h joined later

/-- What the first pass did. -/
structure FirstPassed (S : Setup A V O) (source : List (Expected A V)) (fix : Bool)
    (target : List (TargetRow A V O)) (run : TargetRun A V O) : Prop where
  missing : run.missing = source.countP (absent target)
  different : run.different = source.countP (S.changed target)
  extraSuspects : run.extraSuspects = .empty
  extra : run.extra = none
  written : ∃ es, es.Perm (if fix then source.filter (S.wrong target) else []) ∧
    run.target = S.putAll target es

/-- **The first pass counts what is missing and what differs, and writes what is either.** -/
theorem firstPass_spec (apart : S.SourceApart source fix source ({ target := target }, [])) :
    FirstPassed S source fix target (S.firstPass source fix target) := by
  have start : Compared S fix target [] [] { target := target } := by
    refine ⟨rfl, rfl, rfl, rfl, rfl, rfl, [], ?_, rfl⟩
    rw [ite_self]
  obtain ⟨done, settled, taken, all, page, look⟩ :=
    start.takeAll usable distinct once (List.nil_append source : [] ++ [] ++ source = source) apart
  obtain ⟨settled, flushed⟩ :=
    taken.flushPage usable distinct once ⟨[], by rw [List.append_nil, all]⟩ page
  rw [all] at flushed
  obtain ⟨settled, looked, none⟩ :=
    flushed.secondLook usable distinct once (List.prefix_refl _) look
  have every : source.filter (S.wrong target) = settled := by
    rw [looked.wrong, none, List.append_nil]
  refine ⟨?_, ?_, looked.extraSuspects, looked.extra, ?_⟩
  · refine looked.missing.trans ?_
    rw [← every, List.countP_filter]
    refine List.countP_congr fun e _ => ?_
    simpa using wrong_of_absent
  · refine looked.different.trans ?_
    rw [← every, List.countP_filter]
    refine List.countP_congr fun e _ => ?_
    simpa using wrong_of_changed
  · rw [every]
    exact looked.written

end Static

end Setup

end Syncle.Verify
