import Syncle.Lib.Decimal
import Syncle.Verify.Clear
import Syncle.Verify.FirstPass

/-!
# A verify counts right, a reconcile leaves nothing to count

On data that does not move, and tables whose key columns are a key, both hold exactly when every
row says which row it is, and the reading of the target is not disturbed by the deletes made while
it is under way (`exact_iff_undisturbed`). A target read by OFFSET is: rows that are only there
can slide past the reading, and are neither counted nor removed.

That is so where every lookup asks for all its keys (`Asked`). A lookup that does not may miss a row
that is there: a good row of the target is then taken for an extra, and deleted (`collapsed`).
-/

namespace Syncle.Verify

open Syncle.Lib

variable {A V O : Type*} [LinearOrder A] [LinearOrder O]

namespace Setup

variable (S : Setup A V O) (source : List (Expected A V)) (target : List (TargetRow A V O))

/-- The counts are the true ones. -/
def Counts (run : TargetRun A V O) : Prop :=
  run.missing = source.countP (absent target) ∧
  run.different = source.countP (S.changed target) ∧
  run.extra = if S.looksForExtras then some (target.countP (S.isExtra source)) else none

/-- The target is what the bridge would write: each row of the source is there and says what it
should, and where extras are looked for nothing else is. -/
def Mirrors : Prop :=
  (∀ e ∈ source, S.wrong target e = false) ∧
  (S.looksForExtras = true → ∀ r ∈ target, S.isExtra source r = false)

def ReportsNothing (run : TargetRun A V O) : Prop :=
  run.missing = 0 ∧ run.different = 0 ∧ run.extra = if S.looksForExtras then some 0 else none

def Exact : Prop :=
  S.Counts source target (S.verify source false false target) ∧
  S.Mirrors source (S.verify source true true target).target ∧
  S.ReportsNothing
    (S.verify source false false (S.verify source true true target).target)

/-- Every lookup of a `verify` can ask for all its keys: none has two that `lookupValues` takes for
one. It says so of the state the verify has come to at each of them. -/
structure VerifyApart (fix deleteExtra : Bool) : Prop where
  firstPass : S.SourceApart source fix source ({ target := target }, [])
  reading : S.looksForExtras = true →
    S.ReadApart source (fix && deleteExtra) ((S.firstPass source fix target).target.length + 1)
      { run := { S.firstPass source fix target with extra := some 0 } }
  flush : S.looksForExtras = true →
    let x := S.readTarget source (fix && deleteExtra)
      ((S.firstPass source fix target).target.length + 1)
      { run := { S.firstPass source fix target with extra := some 0 } }
    S.ExtrasApart source x.run x.page ∧
      S.SettleApart (S.flushExtras source (fix && deleteExtra) x.run x.page)

/-- And so for the three that make a verify exact: of the tables as they are, in the reconcile, and
of what the reconcile leaves. -/
structure Asked : Prop where
  verify : S.VerifyApart source target false false
  reconcile : S.VerifyApart source target true true
  following : S.VerifyApart source (S.verify source true true target).target false false

/-- The keys of the target once what was missing has been written, in the order of the read. -/
def keysInOrder : List (Key A) :=
  inOrder id (target.map (·.key) ++ (source.map (·.key)).filter fun k => k ∉ target.map (·.key))

/-- No extra slides past the reading of the target. -/
def clear : Bool :=
  S.clearFrom ((keysInOrder source target).length + 1) {}
    ((keysInOrder source target).map fun k => decide (k ∉ source.map (·.key)))

/-- Every row of the source says which row it is. Where extras are looked for, so does every row
of the target that is not marked, and the deletes do not disturb the reading. -/
def undisturbed : Bool :=
  source.all (fun e => e.key.usable) &&
    (!S.looksForExtras ||
      (target.all (fun r => S.isMarked r || r.key.usable) && (!S.slides || S.clear source target)))

variable {S source target} {remove : Bool} {run : TargetRun A V O} {table : List (TargetRow A V O)}

/-! ## What the second pass leaves alone -/

omit [LinearOrder O] in
/-- The counts of the first pass, and every row that goes by no key a delete could name. -/
structure Leaves (S : Setup A V O) (remove : Bool) (run run' : TargetRun A V O) : Prop where
  missing : run'.missing = run.missing
  different : run'.different = run.different
  target : ∃ gone : List (Key A), (∀ k ∈ gone, k.usable = true) ∧
    run'.target = S.without remove run.target gone

omit [LinearOrder O] in
theorem Leaves.refl : Leaves S remove run run :=
  ⟨rfl, rfl, [], by simp, without_nil.symm⟩

omit [LinearOrder O] in
theorem Leaves.trans {run run' run'' : TargetRun A V O} (h : Leaves S remove run run')
    (h' : Leaves S remove run' run'') : Leaves S remove run run'' := by
  obtain ⟨gone, usable, target⟩ := h.target
  obtain ⟨gone', usable', target'⟩ := h'.target
  refine ⟨h'.missing.trans h.missing, h'.different.trans h.different, gone ++ gone', ?_, ?_⟩
  · intro k hk
    exact (List.mem_append.mp hk).elim (usable k) (usable' k)
  · rw [target', target, without_append]

omit [LinearOrder O] in
theorem counts_settle : (S.settle source remove run).missing = run.missing ∧
    (S.settle source remove run).different = run.different := by
  unfold settle
  split
  case isTrue => exact ⟨rfl, rfl⟩
  case isFalse =>
    simp only
    generalize (if S.moving then S.stillExtra source run.target run.extraSuspects.keys
      else run.extraSuspects.keys) = suspects
    split
    case isTrue => exact ⟨rfl, rfl⟩
    case isFalse =>
      split
      case isFalse => exact ⟨rfl, rfl⟩
      case isTrue =>
        split <;> exact ⟨rfl, rfl⟩

omit [LinearOrder O] in
theorem leaves_settle : Leaves S remove run (S.settle source remove run) := by
  obtain ⟨gone, near, target, -⟩ := settle_touches S source remove run
  exact ⟨counts_settle.1, counts_settle.2, gone, fun k hk => (near k hk).1, target⟩

omit [LinearOrder O] in
theorem leaves_flushExtras {page : List (TargetRow A V O)} :
    Leaves S remove run (S.flushExtras source remove run page) := by
  unfold flushExtras
  split
  case isTrue => exact Leaves.refl
  case isFalse =>
    simp only
    split
    case isTrue => exact Leaves.refl
    case isFalse =>
      split
      case isFalse => exact ⟨rfl, rfl, [], by simp, without_nil.symm⟩
      case isTrue =>
        obtain ⟨missing, different, target⟩ :
            Leaves S remove { run with extraSuspects := _ } (S.settle source remove _) :=
          leaves_settle
        exact ⟨missing, different, target⟩

omit [LinearOrder O] in
theorem leaves_takeAll {rows : List (TargetRow A V O)} {x : Reading A V O} :
    Leaves S remove x.run (rows.foldl (S.takeTarget source remove) x).run := by
  induction rows generalizing x with
  | nil => exact Leaves.refl
  | cons r rows ih =>
    have first : Leaves S remove x.run (S.takeTarget source remove x r).run := by
      unfold takeTarget
      simp only
      split
      case isTrue => exact leaves_flushExtras
      case isFalse => exact Leaves.refl
    exact first.trans ih

theorem leaves_readTarget {pages : Nat} {x : Reading A V O} :
    Leaves S remove x.run (S.readTarget source remove pages x).run := by
  induction pages generalizing x with
  | zero => exact Leaves.refl
  | succ pages ih =>
    rw [readTarget_succ rfl]
    have taken : Leaves S remove x.run
        (S.pageTaken source remove x ((S.unread x).take S.readSize)).run := by
      unfold pageTaken
      exact (leaves_takeAll (x := { x with
        last := (((S.unread x).take S.readSize).getLast?.map (·.place)).or x.last
        offset := x.offset + ((S.unread x).take S.readSize).length }) : _)
    split
    case isTrue => exact taken
    case isFalse => exact taken.trans ih

/-! ## The second pass, whole -/

/-- The reading when it begins. -/
def reading (run : TargetRun A V O) : Reading A V O := { run := { run with extra := some 0 } }

theorem findExtras_eq (looks : S.looksForExtras = true) :
    S.findExtras source remove run =
      S.settle source remove (S.flushExtras source remove
        (S.readTarget source remove (run.target.length + 1) (reading run)).run
        (S.readTarget source remove (run.target.length + 1) (reading run)).page) := by
  unfold findExtras
  rw [if_pos looks]
  rfl

theorem leaves_findExtras : Leaves S remove run (S.findExtras source remove run) := by
  cases looks : S.looksForExtras with
  | false =>
    unfold findExtras
    rw [looks, if_neg Bool.false_ne_true]
    exact Leaves.refl
  | true =>
    rw [findExtras_eq looks]
    have read : Leaves S remove (reading run).run
        (S.readTarget source remove (run.target.length + 1) (reading run)).run := leaves_readTarget
    generalize S.readTarget source remove (run.target.length + 1) (reading run) = x at read
    have whole : Leaves S remove (reading run).run
        (S.settle source remove (S.flushExtras source remove x.run x.page)) :=
      (read.trans leaves_flushExtras).trans leaves_settle
    exact ⟨whole.missing, whole.different, whole.target⟩

theorem at_start (fresh : run.extraSuspects = .empty) :
    At S source remove run.target [] (S.unread (reading run)) [] (reading run) := by
  refine ⟨?_, ⟨?_, ⟨rfl, without_nil.symm⟩, ?_, ?_⟩, rfl⟩
  · rw [List.nil_append]
    unfold unread
    split
    case isTrue =>
      have all : (inOrder TargetRow.place (reading run).run.target).filter
          (behind TargetRow.place (reading run).last) =
            inOrder TargetRow.place (reading run).run.target :=
        List.filter_eq_self.mpr fun r _ => rfl
      rw [all]
      exact List.perm_insertionSort _ _
    case isFalse => exact List.perm_insertionSort _ _
  · have none : (reading run).run.extraSuspects = .empty := fresh
    rw [none]
    rfl
  · have none : (reading run).run.extraSuspects = .empty := fresh
    rw [none]
    exact Nat.zero_lt_of_lt (show 499 < recheckBatch by decide)
  · intro r hr
    cases hr

section Static

variable (distinct : (source.map (·.key)).Nodup) (usable : ∀ e ∈ source, e.key.usable = true)

/-- The hypotheses of the second pass about the table it begins with. -/
structure Sorted (S : Setup A V O) (table : List (TargetRow A V O)) : Prop where
  once : KeysOnce TargetRow.key table
  places : S.ownOrder = true → (table.map (·.place)).Nodup
  named : S.looksForExtras = true → ∀ r ∈ table, S.isMarked r = false → r.key.usable = true

include distinct in
theorem findExtras_spec (looks : S.looksForExtras = true) (fresh : run.extraSuspects = .empty)
    (sorted : Sorted S run.target)
    (read : S.ReadApart source remove (run.target.length + 1) (reading run))
    (flush : S.ExtrasApart source
        (S.readTarget source remove (run.target.length + 1) (reading run)).run
        (S.readTarget source remove (run.target.length + 1) (reading run)).page ∧
      S.SettleApart (S.flushExtras source remove
        (S.readTarget source remove (run.target.length + 1) (reading run)).run
        (S.readTarget source remove (run.target.length + 1) (reading run)).page))
    (clear : (S.slides && remove) = true →
      S.clearFrom (run.target.length + 1) {}
        ((S.unread (reading run)).map (S.isExtra source)) = true) :
    ∃ ks, ks.Perm (S.extras source run.target) ∧
      Settled S remove run.target ks (S.findExtras source remove run) := by
  have start : At S source remove run.target [] (S.unread (reading run)) [] (reading run) :=
    at_start fresh
  have length : (S.unread (reading run)).length < run.target.length + 1 := by
    have := start.perm.length_eq
    rw [List.nil_append] at this
    omega
  have tally : tallyOf S source [] (reading run) = {} := by
    unfold tallyOf reading
    simp only [fresh]
    rfl
  obtain ⟨passed, settled, perm, scan⟩ :=
    start.run distinct sorted.once (sorted.named looks) sorted.places length read
      (by rw [tally]; exact clear)
  rw [findExtras_eq looks]
  exact ⟨_, extras_perm perm,
    scan.finish distinct sorted.once (sorted.named looks) perm flush.1 flush.2⟩

/-! ## A verify -/

include distinct usable in
/-- **A verify counts right**, where every row that is looked for says which row it is. -/
theorem counts_verify (sorted : Sorted S target)
    (asked : S.VerifyApart source target false false) :
    S.Counts source target (S.verify source false false target) := by
  have first : FirstPassed S source false target (S.firstPass source false target) :=
    firstPass_spec usable distinct sorted.once asked.firstPass
  obtain ⟨es, perm, written⟩ := first.written
  have untouched : (S.firstPass source false target).target = target := by
    rw [written, perm.eq_nil]
    rfl
  have leaves : Leaves S false (S.firstPass source false target)
      (S.verify source false false target) := leaves_findExtras
  refine ⟨leaves.missing.trans first.missing, leaves.different.trans first.different, ?_⟩
  unfold verify
  cases looks : S.looksForExtras with
  | false =>
    unfold findExtras
    rw [looks, if_neg Bool.false_ne_true]
    exact first.extra
  | true =>
    rw [← untouched] at sorted
    obtain ⟨ks, all, settled⟩ :
        ∃ ks : List (Key A), ks.Perm _ ∧ Settled S false _ ks (S.findExtras source false _) :=
      findExtras_spec distinct looks first.extraSuspects sorted (asked.reading looks)
        (asked.flush looks) (fun slid => by simp at slid)
    have counted : (S.findExtras source (false && false) (S.firstPass source false target)).extra =
        some ks.length := settled.extra
    rw [counted, if_pos rfl, all.length_eq, untouched, List.countP_eq_length_filter]
    unfold extras
    rw [List.length_map]

/-! ## A reconcile -/

omit [LinearOrder O] in
/-- What was deleted, the target's way, is no extra any more. -/
theorem isExtra_without {ks : List (Key A)} (looks : S.looksForExtras = true)
    (all : ks.Perm (S.extras source table)) :
    ∀ r ∈ S.without true table ks, S.isExtra source r = false := by
  intro r hr
  by_contra extra
  rw [Bool.not_eq_false] at extra
  by_cases gone : r.key ∈ ks
  · unfold without at hr
    rw [if_pos rfl] at hr
    have unmarked : S.isMarked r = false := by
      unfold isExtra at extra
      simpa using (Bool.and_eq_true_iff.mp extra).1
    cases deletes : S.onDelete with
    | ignore =>
      unfold looksForExtras at looks
      simp [deletes] at looks
    | delete =>
      rw [deletes] at hr
      have := (List.mem_filter.mp hr).2
      simp [gone] at this
    | soft =>
      rw [deletes] at hr
      obtain ⟨y, -, rfl⟩ := List.mem_map.mp hr
      by_cases there : y.key ∈ ks
      · simp [isMarked, deletes, there] at unmarked
      · rw [if_neg there] at gone
        exact there gone
  · have mem : r ∈ table := (mem_without gone).mp hr
    exact gone (all.symm.subset (mem_extras.mpr ⟨r, mem, extra, rfl⟩))

omit [LinearOrder O] in
/-- A target that mirrors the source leaves nothing to report. -/
theorem reportsNothing_of_mirrors (mirrors : S.Mirrors source target)
    (counts : S.Counts source target run) : S.ReportsNothing run := by
  obtain ⟨missing, different, extra⟩ := counts
  refine ⟨missing.trans ?_, different.trans ?_, extra.trans ?_⟩
  · rw [List.countP_eq_zero]
    intro e he absent
    have wrong : S.wrong target e = true := wrong_of_absent absent
    rw [mirrors.1 e he] at wrong
    cases wrong
  · rw [List.countP_eq_zero]
    intro e he changed
    have wrong := wrong_of_changed changed
    rw [mirrors.1 e he] at wrong
    cases wrong
  · cases looks : S.looksForExtras with
    | false => rfl
    | true =>
      have none : target.countP (S.isExtra source) = 0 := by
        rw [List.countP_eq_zero]
        intro r hr
        rw [mirrors.2 looks r hr]
        exact Bool.false_ne_true
      rw [none]

omit [LinearOrder O] in
/-- What the writes of the first pass leave. -/
structure Written (S : Setup A V O) (source : List (Expected A V)) (target : List (TargetRow A V O))
    (es : List (Expected A V)) : Prop where
  sub : ∀ e ∈ es, e ∈ source
  distinct : (es.map (·.key)).Nodup
  wrong : ∀ e ∈ source, e ∈ es ↔ S.wrong target e = true

omit [LinearOrder O] in
include distinct in
theorem written_of_perm {es : List (Expected A V)}
    (perm : es.Perm (source.filter (S.wrong target))) : Written S source target es := by
  refine ⟨fun e he => List.mem_of_mem_filter (perm.subset he), ?_, fun e he => ?_⟩
  · exact (perm.map _).nodup_iff.mpr (distinct.sublist (List.filter_sublist.map _))
  · rw [perm.mem_iff, List.mem_filter]
    exact and_iff_right he

variable {es : List (Expected A V)}

omit [LinearOrder O] in
include usable in
theorem Written.sorted (h : Written S source target es) (sorted : Sorted S target) :
    Sorted S (S.putAll target es) := by
  have usable' : ∀ e ∈ es, e.key.usable = true := fun e he => usable e (h.sub e he)
  refine ⟨keysOnce_putAll usable' sorted.once, fun own => places_putAll own (sorted.places own),
    fun looks r hr unmarked => ?_⟩
  by_cases put : r.key ∈ es.map (·.key)
  · obtain ⟨e, he, same⟩ := List.mem_map.mp put
    rw [← same]
    exact usable' e he
  · exact sorted.named looks r ((mem_putAll put).mp hr) unmarked

omit [LinearOrder O] in
include distinct usable in
theorem Written.mended (h : Written S source target es) (once : KeysOnce TargetRow.key target) :
    ∀ e ∈ source, S.wrong (S.putAll target es) e = false := by
  intro e he
  have usable' : ∀ e ∈ es, e.key.usable = true := fun e he => usable e (h.sub e he)
  by_cases put : e ∈ es
  · exact wrong_putAll usable' h.distinct once put
  · have right : S.wrong target e = false := by
      rw [h.wrong e he] at put
      simpa using put
    by_cases key : e.key ∈ es.map (·.key)
    · -- another row of the same key would be wrong where this one is right
      obtain ⟨y, hy, same⟩ := List.mem_map.mp key
      have eq : y = e := List.inj_on_of_nodup_map distinct (h.sub y hy) he same
      exact absurd (eq ▸ hy) put
    · rw [wrong_putAll_of_ne usable' once key]
      exact right

omit [LinearOrder O] in
include distinct usable in
theorem Written.keys (h : Written S source target es) :
    ((S.putAll target es).map (·.key)).Perm
      (target.map (·.key) ++ (source.map (·.key)).filter fun k => k ∉ target.map (·.key)) := by
  have usable' : ∀ e ∈ es, e.key.usable = true := fun e he => usable e (h.sub e he)
  rw [keys_putAll usable' h.distinct]
  refine List.Perm.append_left _ ?_
  refine (List.perm_ext_iff_of_nodup (h.distinct.filter _) (distinct.filter _)).mpr fun k => ?_
  simp only [List.mem_filter, decide_eq_true_eq, List.mem_map]
  constructor
  · rintro ⟨⟨e, he, rfl⟩, new⟩
    exact ⟨⟨e, h.sub e he, rfl⟩, new⟩
  · rintro ⟨⟨e, he, rfl⟩, new⟩
    refine ⟨⟨e, (h.wrong e he).mpr (wrong_of_absent ?_), rfl⟩, new⟩
    unfold absent
    rw [rowAt_eq_none.mpr fun _ mem => new (List.mem_map.mp mem), Option.isNone_none]

/-- What slides past the reading can be told from the keys of the two tables. -/
theorem clear_eq (own : S.ownOrder = false) (deletes : S.onDelete = .delete)
    (nodup : (run.target.map (·.key)).Nodup)
    (keys : (run.target.map (·.key)).Perm
      (target.map (·.key) ++ (source.map (·.key)).filter fun k => k ∉ target.map (·.key))) :
    S.clearFrom (run.target.length + 1) {} ((S.unread (reading run)).map (S.isExtra source)) =
      S.clear source target := by
  have ordered : (inOrder TargetRow.key run.target).map (·.key) = keysInOrder source target := by
    unfold keysInOrder
    have once : ((target.map (·.key) ++ (source.map (·.key)).filter fun k =>
        k ∉ target.map (·.key)).map id).Nodup := by
      rw [List.map_id]
      exact keys.nodup_iff.mp nodup
    refine (inOrder_eq once ?_ ?_).symm
    · exact ((List.perm_insertionSort _ _).map _).trans keys
    · exact List.pairwise_map.mpr (pairwise_inOrder run.target)
  have unread : S.unread (reading run) = inOrder TargetRow.key run.target := by
    unfold Setup.unread
    rw [own]
    rfl
  have flags : (S.unread (reading run)).map (S.isExtra source) =
      (keysInOrder source target).map fun k => decide (k ∉ source.map (·.key)) := by
    rw [unread, ← ordered, List.map_map]
    refine List.map_congr_left fun r _ => ?_
    simp [isExtra, isMarked, deletes]
  have length : run.target.length = (keysInOrder source target).length := by
    have sorted : (inOrder TargetRow.key run.target).length = run.target.length :=
      (List.perm_insertionSort _ _).length_eq
    rw [← ordered, List.length_map, sorted]
  unfold clear
  rw [flags, length]

/-- What keeps the reading of the target from being disturbed. -/
def Steady (S : Setup A V O) (source : List (Expected A V)) (target : List (TargetRow A V O)) :
    Prop :=
  S.looksForExtras = true → S.slides = true → S.clear source target = true

include distinct usable in
/-- **A reconcile leaves the target as the bridge would write it.** -/
theorem mirrors_reconcile (sorted : Sorted S target) (steady : Steady S source target)
    (asked : S.VerifyApart source target true true) :
    S.Mirrors source (S.verify source true true target).target ∧
      Sorted S (S.verify source true true target).target := by
  have first : FirstPassed S source true target (S.firstPass source true target) :=
    firstPass_spec usable distinct sorted.once asked.firstPass
  obtain ⟨es, perm, put⟩ := first.written
  have written := written_of_perm distinct perm
  have mended := written.mended distinct usable sorted.once
  have keys := written.keys distinct usable
  have sorted' := written.sorted usable sorted
  rw [← put] at mended keys sorted'
  unfold verify
  rw [Bool.and_self]
  cases looks : S.looksForExtras with
  | false =>
    have same : S.findExtras source true (S.firstPass source true target) =
        S.firstPass source true target := by
      unfold findExtras
      rw [looks, if_neg Bool.false_ne_true]
    rw [same]
    exact ⟨⟨mended, fun h => by rw [looks] at h; cases h⟩, sorted'⟩
  | true =>
    obtain ⟨ks, all, settled⟩ :
        ∃ ks : List (Key A), ks.Perm _ ∧ Settled S true _ ks (S.findExtras source true _) :=
      findExtras_spec distinct looks first.extraSuspects sorted' (asked.reading looks)
        (asked.flush looks) (by
        intro slid
        have both : S.ownOrder = false ∧ S.onDelete = .delete := by simpa [slides] using slid
        rw [clear_eq both.1 both.2 (keys_nodup both.2 sorted'.once (sorted'.named looks)) keys]
        exact steady looks (by simpa using slid))
    have clean := isExtra_without looks all
    rw [← settled.table] at clean
    refine ⟨⟨fun e he => ?_, fun _ => clean⟩, ⟨?_, fun own => ?_, fun _ r hr unmarked => ?_⟩⟩
    · have other : e.key ∉ ks := fun gone =>
        not_mem_source (all.subset gone) (List.mem_map_of_mem he)
      have row : rowAt TargetRow.key
          (S.without true (S.firstPass source true target).target ks) e.key =
            rowAt TargetRow.key (S.firstPass source true target).target e.key := by
        refine Option.ext fun r => ?_
        rw [rowAt_eq_some (keysOnce_without sorted'.once), rowAt_eq_some sorted'.once]
        constructor
        · rintro ⟨hk, mem, named⟩
          exact ⟨hk, (mem_without (named ▸ other)).mp mem, named⟩
        · rintro ⟨hk, mem, named⟩
          exact ⟨hk, (mem_without (named ▸ other)).mpr mem, named⟩
      have before := mended e he
      unfold wrong at before ⊢
      rw [settled.table, row]
      exact before
    · rw [settled.table]
      exact keysOnce_without sorted'.once
    · rw [settled.table]
      exact places_without (sorted'.places own)
    · have known := clean r hr
      unfold isExtra at known
      rw [unmarked] at known
      simp only [Bool.not_false, Bool.true_and, decide_eq_false_iff_not, not_not] at known
      obtain ⟨e, he, same⟩ := List.mem_map.mp known
      rw [← same]
      exact usable e he

include distinct in
/-- An extra that slid past the reading is left in the target. -/
theorem left_of_unclear (looks : S.looksForExtras = true) (slides : S.slides = true)
    (fresh : run.extraSuspects = .empty) (sorted : Sorted S run.target)
    (read : S.ReadApart source true (run.target.length + 1) (reading run))
    (unclear : S.clearFrom (run.target.length + 1) {}
      ((S.unread (reading run)).map (S.isExtra source)) = false) :
    ∃ r ∈ (S.findExtras source true run).target, S.isExtra source r = true := by
  have start : At S source true run.target [] (S.unread (reading run)) [] (reading run) :=
    at_start fresh
  have length : (S.unread (reading run)).length < run.target.length + 1 := by
    have := start.perm.length_eq
    rw [List.nil_append] at this
    omega
  have tally : tallyOf S source [] (reading run) = {} := by
    unfold tallyOf reading
    simp only [fresh]
    rfl
  obtain ⟨k, unknown, skipped⟩ :=
    start.slips distinct sorted.once (sorted.named looks) sorted.places length read
      (by rw [slides]; rfl) (by rw [tally]; exact unclear)
  rw [findExtras_eq looks]
  generalize S.readTarget source true (run.target.length + 1) (reading run) = x at skipped
  obtain ⟨gone, near, target, left⟩ := flushExtras_touches S source true x.run x.page
  obtain ⟨gone', near', target', -⟩ :=
    settle_touches S source true (S.flushExtras source true x.run x.page)
  have stays : k ∉ gone := fun hk => (near k hk).2.elim skipped.suspect skipped.page
  have stays' : k ∉ gone' := fun hk =>
    (left k (near' k hk).2).elim skipped.suspect skipped.page
  obtain ⟨r, hr, rfl⟩ := List.mem_map.mp skipped.passed
  have mem : r ∈ x.run.target := mem_inOrder.mp (List.mem_of_mem_take hr)
  refine ⟨r, ?_, ?_⟩
  · rw [target', target]
    exact (mem_without stays').mpr ((mem_without stays).mpr mem)
  · have deletes : S.onDelete = .delete := by
      unfold Setup.slides at slides
      simpa using (Bool.and_eq_true_iff.mp slides).2
    simp [isExtra, isMarked, deletes, unknown]

end Static

/-! ## The condition -/

omit [LinearOrder O] in
theorem distinct_of_usable (sourceOnce : KeysOnce Expected.key source)
    (usable : ∀ e ∈ source, e.key.usable = true) : (source.map (·.key)).Nodup := by
  have all : (source.map Expected.key).filter Key.usable = source.map Expected.key := by
    refine List.filter_eq_self.mpr fun k hk => ?_
    obtain ⟨e, he, rfl⟩ := List.mem_map.mp hk
    exact usable e he
  unfold KeysOnce at sourceOnce
  rw [all] at sourceOnce
  exact sourceOnce

omit [LinearOrder O] in
theorem undisturbed_iff : S.undisturbed source target = true ↔
    (∀ e ∈ source, e.key.usable = true) ∧
      (S.looksForExtras = true → ∀ r ∈ target, S.isMarked r = false → r.key.usable = true) ∧
      Steady S source target := by
  unfold undisturbed Steady
  cases S.looksForExtras <;> cases S.slides <;> simp [or_iff_not_imp_left]

theorem exact_of_undisturbed (sourceOnce : KeysOnce Expected.key source)
    (targetOnce : KeysOnce TargetRow.key target)
    (places : S.ownOrder = true → (target.map (·.place)).Nodup) (asked : S.Asked source target)
    (undisturbed : S.undisturbed source target = true) : S.Exact source target := by
  obtain ⟨usable, named, steady⟩ := undisturbed_iff.mp undisturbed
  have distinct := distinct_of_usable sourceOnce usable
  have sorted : Sorted S target := ⟨targetOnce, places, named⟩
  obtain ⟨mirrors, sorted'⟩ := mirrors_reconcile distinct usable sorted steady asked.reconcile
  exact ⟨counts_verify distinct usable sorted asked.verify, mirrors,
    reportsNothing_of_mirrors mirrors (counts_verify distinct usable sorted' asked.following)⟩

/-- A row that does not say which row it is outlives a reconcile. -/
theorem mem_reconcile {r : TargetRow A V O} (usable : ∀ e ∈ source, e.key.usable = true)
    (distinct : (source.map (·.key)).Nodup) (once : KeysOnce TargetRow.key target)
    (asked : S.SourceApart source true source ({ target := target }, [])) (mem : r ∈ target)
    (unusable : r.key.usable = false) : r ∈ (S.verify source true true target).target := by
  have first : FirstPassed S source true target (S.firstPass source true target) :=
    firstPass_spec usable distinct once asked
  obtain ⟨es, perm, put⟩ := first.written
  have written := written_of_perm distinct perm
  have leaves : Leaves S true (S.firstPass source true target)
      (S.verify source true true target) := leaves_findExtras
  obtain ⟨gone, named, table⟩ := leaves.target
  have other : ∀ k : Key A, k.usable = true → r.key ≠ k := by
    rintro k hk rfl
    rw [unusable] at hk
    cases hk
  rw [table, put]
  refine (mem_without fun hk => other _ (named _ hk) rfl).mpr ((mem_putAll fun hk => ?_).mpr mem)
  obtain ⟨e, he, same⟩ := List.mem_map.mp hk
  exact other e.key (usable e (written.sub e he)) same.symm

theorem undisturbed_of_exact (sourceOnce : KeysOnce Expected.key source)
    (targetOnce : KeysOnce TargetRow.key target)
    (places : S.ownOrder = true → (target.map (·.place)).Nodup) (asked : S.Asked source target)
    (exact' : S.Exact source target) : S.undisturbed source target = true := by
  obtain ⟨-, mirrors, -⟩ := exact'
  have usable : ∀ e ∈ source, e.key.usable = true := by
    intro e he
    obtain ⟨r, found, -⟩ := wrong_eq_false.mp (mirrors.1 e he)
    by_contra unusable
    unfold rowAt at found
    rw [if_neg unusable] at found
    cases found
  have distinct := distinct_of_usable sourceOnce usable
  have named : S.looksForExtras = true → ∀ r ∈ target, S.isMarked r = false →
      r.key.usable = true := by
    intro looks r hr unmarked
    by_contra unusable
    rw [Bool.not_eq_true] at unusable
    have left := mirrors.2 looks r
      (mem_reconcile usable distinct targetOnce asked.reconcile.firstPass hr unusable)
    unfold isExtra at left
    rw [unmarked] at left
    simp only [Bool.not_false, Bool.true_and, decide_eq_false_iff_not, not_not] at left
    obtain ⟨e, he, same⟩ := List.mem_map.mp left
    rw [← same, usable e he] at unusable
    cases unusable
  refine undisturbed_iff.mpr ⟨usable, named, fun looks slides => ?_⟩
  by_contra unclear
  rw [Bool.not_eq_true] at unclear
  have first : FirstPassed S source true target (S.firstPass source true target) :=
    firstPass_spec usable distinct targetOnce asked.reconcile.firstPass
  obtain ⟨es, perm, put⟩ := first.written
  have written := written_of_perm distinct perm
  have keys := written.keys distinct usable
  have sorted := written.sorted usable ⟨targetOnce, places, named⟩
  rw [← put] at keys sorted
  have both : S.ownOrder = false ∧ S.onDelete = .delete := by simpa [Setup.slides] using slides
  rw [← clear_eq both.1 both.2 (keys_nodup both.2 sorted.once (sorted.named looks)) keys] at unclear
  obtain ⟨r, hr, extra⟩ :=
    left_of_unclear distinct looks slides first.extraSuspects sorted
      (asked.reconcile.reading looks) unclear
  rw [mirrors.2 looks r hr] at extra
  cases extra

end Setup

/-! ## Values that are told apart by their texts

Numbers and texts are: for them nothing is to be asked of the lookups. -/

section Told

variable {S : Setup A V O} {source : List (Expected A V)} {fix remove : Bool}

omit [LinearOrder O] in
theorem sourceApart_of_told (written : ∀ keys, Apart S.writtenText keys)
    (read : ∀ keys, Apart S.sourceText keys) (rest : List (Expected A V))
    (state : TargetRun A V O × List (Expected A V)) : S.SourceApart source fix rest state := by
  have look : ∀ run, S.LookApart run := fun run => ⟨written _, fun _ _ => read _⟩
  have flush : ∀ run page, S.FlushApart run page := fun run page => ⟨written _, fun _ => look _⟩
  induction rest generalizing state with
  | nil => exact ⟨flush _ _, look _⟩
  | cons e rest ih => exact ⟨fun _ => flush _ _, ih _⟩

omit [LinearOrder O] in
theorem extrasApart_of_told (told : ∀ keys, Apart S.targetText keys) (run : TargetRun A V O)
    (page : List (TargetRow A V O)) : S.ExtrasApart source run page :=
  ⟨told _, fun _ _ => told _⟩

omit [LinearOrder O] in
theorem takesApart_of_told (told : ∀ keys, Apart S.targetText keys)
    (rows : List (TargetRow A V O)) (x : Reading A V O) : S.TakesApart source remove rows x := by
  induction rows generalizing x with
  | nil => trivial
  | cons r rows ih => exact ⟨fun _ => extrasApart_of_told told _ _, ih _⟩

theorem readApart_of_told (told : ∀ keys, Apart S.targetText keys) (pages : Nat)
    (x : Reading A V O) : S.ReadApart source remove pages x := by
  induction pages generalizing x with
  | zero => trivial
  | succ pages ih => exact ⟨takesApart_of_told told _ _, fun _ => ih _⟩

theorem asked_of_told (written : ∀ keys, Apart S.writtenText keys)
    (read : ∀ keys, Apart S.sourceText keys) (told : ∀ keys, Apart S.targetText keys)
    (target : List (TargetRow A V O)) : S.Asked source target := by
  have all : ∀ table fix deleteExtra, S.VerifyApart source table fix deleteExtra :=
    fun table fix deleteExtra =>
      ⟨sourceApart_of_told written read _ _, fun _ => readApart_of_told told _ _,
        fun _ => ⟨extrasApart_of_told told _ _, fun _ => told _⟩⟩
  exact ⟨all _ _ _, all _ _ _, all _ _ _⟩

end Told

/-! ## A target without a key of its own -/

/-- The text a number goes by. -/
def numberText : Nat → WithBot Nat → String
  | _, some n => "number:" ++ toString n
  | _, none => "undefined:undefined"

theorem apart_numberText (keys : List (Key Nat)) : Apart numberText keys := by
  rintro k hk k' hk' ⟨⟨v, v'⟩, i⟩ mem same
  obtain ⟨here, there⟩ := List.getElem?_zip_eq_some.mp (List.mem_zipIdx_iff_getElem?.mp mem)
  have value : ∀ {key : Key Nat} {c : WithBot Nat}, key ∈ keys.filter Key.usable →
      key[i]? = some c → ∃ n : Nat, c = n := by
    intro key c usable found
    have all := List.all_eq_true.mp (List.mem_filter.mp usable).2 c (List.mem_of_getElem? found)
    obtain ⟨n, rfl⟩ := WithBot.ne_bot_iff_exists.mp (of_decide_eq_true all)
    exact ⟨n, rfl⟩
  obtain ⟨n, rfl⟩ := value hk here
  obtain ⟨n', rfl⟩ := value hk' there
  have letters : toString n = toString n' := (String.append_right_inj _).mp same
  exact congrArg _ (toString_inj letters)

/-- A page of `pageSize`, deletes that remove, and a target that is read by OFFSET. -/
def keyless (pageSize : Nat) (pos : 0 < pageSize) : Setup Nat Nat Nat where
  pageSize := pageSize
  sourceMaxRows := 10000
  targetMaxRows := 10000
  onDelete := .delete
  keyIsTransformed := false
  ownOrder := false
  moving := false
  writtenText := numberText
  sourceText := numberText
  targetText := numberText
  same a b := a == b
  newPlace _ _ := 0
  pageSize_pos := pos
  sourceMaxRows_pos := by decide
  targetMaxRows_pos := by decide
  same_self := by simp
  newPlace_fresh := by simp

/-- Rows the source does not have. -/
def only (n : Nat) : List (TargetRow Nat Nat Nat) :=
  (List.range n).map fun i => { key := [some i], value := 0, marked := false, place := i }

theorem asked_keyless (pageSize : Nat) (pos : 0 < pageSize) (source : List (Expected Nat Nat))
    (target : List (TargetRow Nat Nat Nat)) : (keyless pageSize pos).Asked source target :=
  asked_of_told apart_numberText apart_numberText apart_numberText target

theorem keysOnce_only (n : Nat) : KeysOnce TargetRow.key (only n) := by
  unfold KeysOnce only
  rw [List.map_map]
  refine List.Nodup.filter _ (List.nodup_range.map ?_)
  intro a b same
  exact Option.some.inj (List.cons.inj same).1

/-- Where the source has no rows, every row of the target is an extra. -/
theorem clear_only (n : Nat) (pageSize : Nat) (pos : 0 < pageSize) :
    (keyless pageSize pos).clear [] (only n) =
      (keyless pageSize pos).clearFrom (n + 1) {} (List.replicate n true) := by
  have length : (Setup.keysInOrder ([] : List (Expected Nat Nat)) (only n)).length = n := by
    simp [Setup.keysInOrder, only, inOrder]
  have rows : (Setup.keysInOrder ([] : List (Expected Nat Nat)) (only n)).map
      (fun k => decide (k ∉ ([] : List (Expected Nat Nat)).map (·.key))) = List.replicate n true := by
    rw [List.eq_replicate_iff, List.length_map, length]
    refine ⟨rfl, ?_⟩
    intro b mem
    obtain ⟨k, -, rfl⟩ := List.mem_map.mp mem
    rfl
  rw [Setup.clear, rows, length]

/-- Keys of one byte that is no text: each is spelled as the replacement character. -/
def binary : Setup Nat Nat Nat :=
  { keyless 2 (by decide) with
    writtenText := fun _ _ => "object:\uFFFD"
    sourceText := fun _ _ => "object:\uFFFD"
    targetText := fun _ _ => "object:\uFFFD" }

/-- Two tables that agree, of the keys `FE` and `FF`: the source is asked for `FF` only, `FE` is
taken for an extra, and the reconcile deletes a row that is as it should be. -/
theorem collapsed :
    ((binary.verify [⟨[some 0xFE], 1⟩, ⟨[some 0xFF], 2⟩] true true
      [⟨[some 0xFE], 1, false, 0⟩, ⟨[some 0xFF], 2, false, 1⟩]).target) =
        [⟨[some 0xFF], 2, false, 1⟩] := by
  decide +kernel

end Syncle.Verify
