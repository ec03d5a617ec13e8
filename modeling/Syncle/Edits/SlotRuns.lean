import Syncle.Edits.SlotsKept

/-!
# Runs of the bookkeeping

A slot leaks when a release neither removes it nor leaves a record of it, or when its record is
dropped while it is there: the record of another database of the connection (there is one record for
a bridge and a connection), or the one the sweep drops because the bridge is read on that connection,
in another database or through the other kind of slot. And the sweep takes the slot of a bridge that
is paused, or is read through another connection to the server: it asks only whether the bridge is
read on the record's connection.
-/

namespace Syncle.Edits

open Lib Slots

variable {B C M V : Type*} [DecidableEq B] [DecidableEq C] [DecidableEq V] (at_ : Servers C V)

/-- The books are in order: every slot is a live bridge's there, or is a pending clean-up. -/
structure Accounted (s : Slots B C M V) : Prop where
  own : ∀ b v database, s.own b v = some database → s.OwnCovered at_ (s.LiveAt at_) b v database
  shared : ∀ place, s.shared place = true → s.SharedCovered (s.LiveAt at_) place

/-- What the record stands for is what live bridges read from there. -/
structure StandsForUse (s : Slots B C M V) (task : Cleanup B C) : Prop where
  own : s.own task.bridgeId (at_.server task.place.1) = some task.place.2 →
    ∃ kind, s.LiveAt at_ task.bridgeId task.place kind
  shared : s.shared task.place = true → ∃ b, s.LiveAt at_ b task.place .shared
  row : (task.bridgeId, task.place) ∈ s.members → s.LiveAt at_ task.bridgeId task.place .shared

/-- A step that leaves nothing behind without a record, and takes nothing that is in use. -/
def bookkept (s : Slots B C M V) : SlotEvent B C M → Prop
  | .update b bridge r _ => ∀ before was, s.bridges b = some before → before.live = some was →
      abandons before bridge = true → s.GivesUp at_ (s.LiveAt at_) b was.place r
  | .remove b r => ∀ bridge src, s.bridges b = some bridge → bridge.tableSource = some src →
      s.GivesUp at_ (s.LiveAt at_) b src.place r
  | .surrender b r => ∀ bridge src, s.bridges b = some bridge → bridge.live = some src →
      r.resolves = true → s.through b src.place r = true →
      s.OthersGone (s.LiveAt at_) b src.place
  | .sweepOne task r =>
    (s.inUse task = true → StandsForUse at_ s task) ∧ s.SweepSafe at_ task r
  | _ => True

/-! ## One event at a time

Each keeps the books, `InBook`: of what a live bridge uses nothing is given up, and of what no bridge
uses a record is left. -/

section Steps

variable {at_} {s s' : Slots B C M V}

omit [DecidableEq B] [DecidableEq C] [DecidableEq V] in
theorem InBook.accounted (book : InBook at_ s) : Accounted at_ s :=
  ⟨book.booked.own, book.booked.shared⟩

omit [DecidableEq B] [DecidableEq C] [DecidableEq V] in
theorem Slots.Booked.same {L : Live B C} (booked : s.Booked at_ L) (own : s'.own = s.own)
    (shared : s'.shared = s.shared) (members : s'.members = s.members)
    (cleanups : s'.cleanups = s.cleanups) : s'.Booked at_ L := by
  obtain ⟨h₁, h₂, h₃, h₄⟩ := booked
  refine ⟨?_, ?_, ?_, ?_⟩
  · unfold OwnCovered
    rw [own, cleanups]
    exact h₁
  · unfold SharedCovered
    rw [shared, cleanups]
    exact h₂
  · rw [members, cleanups]
    exact h₃
  · rw [cleanups]
    exact h₄

omit [DecidableEq C] [DecidableEq V] in
theorem InBook.create (book : InBook at_ s) {b : B} {bridge : Bridge C M}
    (new : s.bridges b = none) : InBook at_ { s with bridges := Function.update s.bridges b (some bridge) } := by
  have ne {b' : B} {bridge' : Bridge C M} (is : s.bridges b' = some bridge') : b' ≠ b := by
    rintro rfl
    rw [new] at is
    cases is
  refine ⟨?_, fun b' on => ?_⟩
  · refine Booked.mono (s := { s with bridges := Function.update s.bridges b (some bridge) })
      ⟨book.booked.own, book.booked.shared, book.booked.members, book.booked.unique⟩
      fun b' place kind live => ?_
    obtain ⟨bridge', is, -⟩ := liveAt_iff.mp live
    exact (liveAt_set (ne is)).mpr live
  · obtain ⟨bridge', src, is, live⟩ := book.streams b' on
    exact ⟨bridge', src, by simpa [Function.update_apply, ne is] using is, live⟩

omit [DecidableEq B] [DecidableEq C] [DecidableEq V] in
/-- The slots, the records and the configurations as they were, and no stream that is new. -/
theorem InBook.same (book : InBook at_ s) (bridges : s'.bridges = s.bridges) (own : s'.own = s.own)
    (shared : s'.shared = s.shared) (members : s'.members = s.members)
    (cleanups : s'.cleanups = s.cleanups)
    (streaming : ∀ b, s'.streaming b = true → s.streaming b = true ∨
      ∃ bridge src, s.bridges b = some bridge ∧ bridge.live = some src) : InBook at_ s' := by
  have live : s'.LiveAt at_ = s.LiveAt at_ := by
    unfold LiveAt
    rw [bridges]
  refine ⟨live ▸ book.booked.same own shared members cleanups, fun b on => ?_⟩
  rw [bridges]
  exact (streaming b on).elim (book.streams b) id

omit [DecidableEq C] [DecidableEq V] in
theorem InBook.stop (book : InBook at_ s) (b : B) : InBook at_ (s.stop b) := by
  refine book.same rfl rfl rfl rfl rfl fun b' on => ?_
  rcases update_eq on with ⟨-, no⟩ | ⟨-, on⟩
  · cases no
  · exact Or.inl on

omit [DecidableEq C] [DecidableEq V] in
theorem InBook.beginStream (book : InBook at_ s) {b : B} {bridge : Bridge C M} {src : TableSource C}
    (is : s.bridges b = some bridge) (live : bridge.live = some src) :
    InBook at_ (s.beginStream b) := by
  refine book.same rfl rfl rfl rfl rfl fun b' on => ?_
  rcases update_eq on with ⟨rfl, -⟩ | ⟨-, on⟩
  · exact Or.inr ⟨bridge, src, is, live⟩
  · exact Or.inl on

omit [DecidableEq B] [DecidableEq C] [DecidableEq V] in
theorem InBook.shrink (book : InBook at_ s) (less : Shrinks s s') : InBook at_ s' := by
  have live : s'.LiveAt at_ = s.LiveAt at_ := by
    unfold LiveAt
    rw [less.bridges]
  refine ⟨live ▸ book.booked.shrink less, fun b on => ?_⟩
  rw [less.streaming] at on
  rw [less.bridges]
  exact book.streams b on

theorem InBook.provision (book : InBook at_ s) {b : B} {bridge : Bridge C M} {src : TableSource C}
    {kind : SlotKind} (is : s.bridges b = some bridge) (live : bridge.live = some src)
    (slot : bridge.slot = some kind) (r : Release) (p : Provision) :
    InBook at_ (s.provision at_ b src.place kind r p) := by
  have here (pg : at_.postgres src.place.1 = true) : s.LiveAt at_ b src.place kind :=
    liveAt_iff.mpr ⟨bridge, is, slotAt_eq.mpr ⟨src, live, slot, rfl, pg⟩⟩
  have booked := @Booked.provision B C M V _ _ _ at_ s _ b src.place book.booked kind r p here
  obtain ⟨bridges, streaming⟩ := @provision_same B C M V _ _ _ at_ s b src.place kind r p
  have same : (s.provision at_ b src.place kind r p).LiveAt at_ = s.LiveAt at_ := by
    unfold LiveAt
    rw [bridges]
  refine ⟨same ▸ booked, fun b' on => ?_⟩
  rw [streaming] at on
  rw [bridges]
  exact book.streams b' on

theorem InBook.startAt (book : InBook at_ s) {b : B} {bridge : Bridge C M} {src : TableSource C}
    {kind : SlotKind} (is : s.bridges b = some bridge) (live : bridge.live = some src)
    (slot : bridge.slot = some kind) (r : Release) (p : Provision) :
    InBook at_ (s.startAt at_ b src kind r p) := by
  have made := book.provision is live slot r p
  unfold Slots.startAt
  dsimp only
  split
  · exact made.beginStream ((congrFun provision_bridges b).trans is) live
  · exact made

theorem InBook.start (book : InBook at_ s) {b : B} {bridge : Bridge C M} {src : TableSource C}
    {kind : SlotKind} (is : s.bridges b = some bridge) (live : bridge.live = some src)
    (slot : bridge.slot = some kind) (fromNow : Option Release) (r : Release) (p : Provision) :
    InBook at_ (s.start at_ b src kind fromNow r p) := by
  unfold Slots.start
  cases fromNow with
  | none => exact book.startAt is live slot r p
  | some release =>
    have less := @deprovision_shrinks B C M V _ _ _ at_ s b src.place release
    have gone := book.shrink less
    dsimp only
    split
    · have unplaced : InBook at_ { (s.deprovision at_ b src.place release).1 with
          position := Function.update (s.deprovision at_ b src.place release).1.position b false } :=
        gone.same rfl rfl rfl rfl rfl fun _ on => Or.inl on
      refine unplaced.startAt (b := b) ?_ live slot r p
      exact (congrFun less.bridges b).trans is
    · exact gone

/-- What was of a bridge is given up, and it is live elsewhere or not at all. -/
theorem InBook.giveUp (book : InBook at_ s) {b : B} {place : Place C} {r : Release}
    {t : Slots B C M V} (gives : s.GivesUp at_ (s.LiveAt at_) b place r)
    (own : t.own = s.own) (shared : t.shared = s.shared) (members : t.members = s.members)
    (cleanups : t.cleanups = s.cleanups)
    (live : ∀ b' p kind, s.LiveAt at_ b' p kind → ¬ (b' = b ∧ p = place) → t.LiveAt at_ b' p kind) :
    Booked at_ (t.releaseSource at_ b place r).1 ((t.releaseSource at_ b place r).1.LiveAt at_) := by
  have there : t.Booked at_ (s.LiveAt at_) := book.booked.same own shared members cleanups
  have gives : t.GivesUp at_ (s.LiveAt at_) b place r := by
    intro engine
    have gives := gives engine
    unfold through OthersGone CanNote at gives ⊢
    rw [members, cleanups, shared]
    split
    · rwa [if_pos ‹_›] at gives
    · rw [if_neg ‹_›] at gives
      intro kind is
      refine (gives kind is).imp_left fun bare => ⟨?_, ?_, ?_⟩
      · rw [own]
        exact bare.own
      · rw [members]
        exact bare.row
      · rw [shared]
        exact bare.shared
  refine (there.giveUp liveAt_postgres gives).mono fun b' p kind both => ?_
  have bridges := (@releaseSource_same B C M V _ _ _ at_ t b place r).1
  unfold LiveAt
  rw [bridges]
  exact live b' p kind both.1 both.2

omit [DecidableEq C] [DecidableEq V] in
theorem saved_eq (s : Slots B C M V) (b : B) (before bridge : Bridge C M) :
    (s.saved b before bridge).bridges = Function.update s.bridges b (some bridge) ∧
      (s.saved b before bridge).own = s.own ∧ (s.saved b before bridge).shared = s.shared ∧
      (s.saved b before bridge).members = s.members ∧
      (s.saved b before bridge).cleanups = s.cleanups := by
  unfold Slots.saved
  dsimp only
  split <;> exact ⟨rfl, rfl, rfl, rfl, rfl⟩

omit [DecidableEq C] [DecidableEq V] in
theorem InBook.saved_streams (book : InBook at_ s) {b : B} {before bridge : Bridge C M}
    (was : s.bridges b = some before) (b' : B) (on : (s.saved b before bridge).streaming b' = true) :
    ∃ bridge' src, (s.saved b before bridge).bridges b' = some bridge' ∧ bridge'.live = some src := by
  rw [(saved_eq s b before bridge).1]
  have stopped : b' ≠ b ∧ s.streaming b' = true := by
    unfold Slots.saved at on
    dsimp only at on
    split at on
    · rcases update_eq on with ⟨-, no⟩ | both
      · cases no
      · exact both
    · next off =>
      refine ⟨?_, on⟩
      rintro rfl
      -- a bridge that is not a CDC bridge is not read
      obtain ⟨bridge', src, is, live⟩ := book.streams b' on
      obtain rfl := Option.some.inj (was.symm.trans is)
      simp [Bridge.live, off] at live
  obtain ⟨bridge', src, is, live⟩ := book.streams b' stopped.2
  exact ⟨bridge', src, by simpa [Function.update_apply, stopped.1] using is, live⟩

/-- As it is when the old configuration has been given up. -/
theorem InBook.leaveBehind (book : InBook at_ s) {b : B} {before bridge : Bridge C M}
    (was : s.bridges b = some before) {r : Release} {restart : Option (Release × Provision)}
    (ok : bookkept at_ s (.update b bridge r restart)) :
    InBook at_ ((s.saved b before bridge).leaveBehind at_ b before bridge r) ∧
      ((s.saved b before bridge).leaveBehind at_ b before bridge r).bridges b = some bridge := by
  obtain ⟨bridges, own, shared, members, cleanups⟩ := saved_eq s b before bridge
  have elsewhere {b' : B} {p : Place C} {kind : SlotKind} (ne : b' ≠ b)
      (live : s.LiveAt at_ b' p kind) : (s.saved b before bridge).LiveAt at_ b' p kind := by
    unfold LiveAt
    rw [bridges]
    simpa [LiveAt, Function.update_apply, ne] using live
  have here {p : Place C} {kind : SlotKind} (live : s.LiveAt at_ b p kind) :
      before.slotAt at_ = some (p, kind) := by
    obtain ⟨bridge', is, at'⟩ := liveAt_iff.mp live
    exact Option.some.inj (was.symm.trans is) ▸ at'
  have keeps (all : ∀ p kind, s.LiveAt at_ b p kind →
      (s.saved b before bridge).LiveAt at_ b p kind) :
      InBook at_ (s.saved b before bridge) ∧ (s.saved b before bridge).bridges b = some bridge := by
    refine ⟨⟨?_, book.saved_streams was⟩, by rw [bridges]; simp⟩
    refine (book.booked.same own shared members cleanups).mono fun b' p kind live => ?_
    by_cases same : b' = b
    · subst same
      exact all p kind live
    · exact elsewhere same live
  unfold Slots.leaveBehind
  cases src : before.live with
  | none =>
    refine keeps fun p kind live => ?_
    obtain ⟨src', is, -⟩ := slotAt_eq.mp (here live)
    rw [src] at is
    cases is
  | some was' =>
    dsimp only
    split
    · next given =>
      have gives := ok before was' was src given
      have booked := book.giveUp gives own shared members cleanups fun b' p kind live not => by
        by_cases same : b' = b
        · subst same
          obtain ⟨src', is, -, there, -⟩ := slotAt_eq.mp (here live)
          obtain rfl := Option.some.inj (src.symm.trans is)
          exact absurd ⟨rfl, there.symm⟩ not
        · exact elsewhere same live
      obtain ⟨bridges', streaming, -⟩ :=
        @releaseSource_same B C M V _ _ _ at_ (s.saved b before bridge) b was'.place r
      unfold Slots.abandon
      dsimp only
      refine ⟨⟨⟨booked.own, booked.shared, booked.members, booked.unique⟩, fun b' on => ?_⟩, ?_⟩
      · rw [streaming] at on
        rw [bridges']
        exact book.saved_streams was b' on
      · rw [bridges', bridges]
        simp
    · next kept =>
      refine keeps fun p kind live => ?_
      obtain ⟨src', is, slot, there, pg⟩ := slotAt_eq.mp (here live)
      obtain rfl := Option.some.inj (src.symm.trans is)
      obtain ⟨now, isNow, same, slots⟩ := place_of_not_abandons src (by simpa using kept)
      exact liveAt_iff.mpr ⟨bridge, by rw [bridges]; simp, slotAt_eq.mpr
        ⟨now, isNow, slots ▸ slot, same.trans there, pg⟩⟩

theorem InBook.update (book : InBook at_ s) {b : B} {before bridge : Bridge C M}
    (was : s.bridges b = some before) {r : Release} {restart : Option (Release × Provision)}
    (ok : bookkept at_ s (.update b bridge r restart)) :
    InBook at_ (s.update at_ b before bridge r restart) := by
  obtain ⟨left, is⟩ := book.leaveBehind was ok
  unfold Slots.update Slots.startAgain
  dsimp only
  split
  · next live slot => exact left.startAt is live slot _ _
  · exact left

theorem InBook.remove (book : InBook at_ s) {b : B} {bridge : Bridge C M}
    (was : s.bridges b = some bridge) {r : Release} (ok : bookkept at_ s (.remove b r)) :
    InBook at_ (s.remove at_ b bridge r) := by
  have here {p : Place C} {kind : SlotKind} (live : s.LiveAt at_ b p kind) :
      ∃ src, bridge.tableSource = some src ∧ src.place = p := by
    obtain ⟨bridge', is, at'⟩ := liveAt_iff.mp live
    obtain rfl := Option.some.inj (was.symm.trans is)
    obtain ⟨src, is, -, there, -⟩ := slotAt_eq.mp at'
    refine ⟨src, ?_, there⟩
    unfold Bridge.live at is
    split at is
    · exact is
    · cases is
  have without {t : Slots B C M V} {L : Live B C} (booked : t.Booked at_ L)
      (only : ∀ b' p kind, L b' p kind → b' ≠ b ∧ s.LiveAt at_ b' p kind)
      (bridges : t.bridges = Function.update s.bridges b none) (on : t.streaming = Function.update s.streaming b false) :
      InBook at_ t := by
    refine ⟨booked.mono fun b' p kind live => ?_, fun b' is => ?_⟩
    · obtain ⟨ne, live⟩ := only b' p kind live
      unfold LiveAt
      rw [bridges]
      simpa [LiveAt, Function.update_apply, ne] using live
    · rw [on] at is
      rcases update_eq is with ⟨-, no⟩ | ⟨ne, is⟩
      · cases no
      · obtain ⟨bridge', src, there, live⟩ := book.streams b' is
        exact ⟨bridge', src, by simpa [bridges, Function.update_apply, ne] using there, live⟩
  unfold Slots.remove
  cases src : bridge.tableSource with
  | none =>
    dsimp only
    refine without ⟨book.booked.own, book.booked.shared, book.booked.members, book.booked.unique⟩
      (fun b' p kind live => ⟨?_, live⟩) rfl rfl
    rintro rfl
    obtain ⟨src', is, -⟩ := here live
    rw [src] at is
    cases is
  | some was' =>
    obtain ⟨bridges, streaming, -⟩ := @releaseSource_same B C M V _ _ _ at_ s b was'.place r
    have booked := book.booked.giveUp liveAt_postgres (ok bridge was' was src)
    dsimp only [Slots.stop]
    rw [bridges, streaming]
    refine without ⟨booked.own, booked.shared, booked.members, booked.unique⟩
      (fun b' p kind both => ⟨?_, both.1⟩) rfl rfl
    rintro rfl
    obtain ⟨src', is, there⟩ := here both.1
    obtain rfl := Option.some.inj (src.symm.trans is)
    exact both.2 ⟨rfl, there.symm⟩

theorem InBook.release (book : InBook at_ s) {b : B} {place : Place C} {r : Release}
    (others : r.resolves = true → s.through b place r = true →
      s.OthersGone (s.LiveAt at_) b place) : InBook at_ (s.releaseSource at_ b place r).1 := by
  obtain ⟨bridges, streaming, -⟩ := @releaseSource_same B C M V _ _ _ at_ s b place r
  have same : (s.releaseSource at_ b place r).1.LiveAt at_ = s.LiveAt at_ := by
    unfold LiveAt
    rw [bridges]
  refine ⟨same ▸ book.booked.release others, fun b' on => ?_⟩
  rw [streaming] at on
  rw [bridges]
  exact book.streams b' on

theorem InBook.surrender (book : InBook at_ s) {b : B} {bridge : Bridge C M} {src : TableSource C}
    (is : s.bridges b = some bridge) (live : bridge.live = some src) {r : Release}
    (ok : bookkept at_ s (.surrender b r)) : InBook at_ (s.surrender at_ b src r) := by
  have released := book.release (ok bridge src is live)
  unfold Slots.surrender
  dsimp only
  split
  · exact released.same rfl rfl rfl rfl rfl fun _ on => Or.inl on
  · exact released

theorem InBook.sweepOne (book : InBook at_ s) {task : Cleanup B C} (pending : task ∈ s.cleanups)
    {r : Release} (ok : bookkept at_ s (.sweepOne task r)) : InBook at_ (s.sweepOne at_ task r) := by
  unfold Slots.sweepOne
  split
  · next use =>
    have stands := ok.1 use
    have kept {c : Cleanup B C} (mem : c ∈ s.cleanups) (ne : c ≠ task) :
        c ∈ s.cleanups.filter fun c => c ≠ task := List.mem_filter.mpr ⟨mem, by simpa using ne⟩
    refine ⟨⟨fun b v d is => ?_, fun p is => ?_, fun b p mem => ?_, fun c mem c' mem' => ?_⟩,
      book.streams⟩
    · rcases book.booked.own b v d is with live | ⟨c, mem, rfl, rfl, rfl⟩
      · exact Or.inl live
      · by_cases ne : c = task
        · subst ne
          obtain ⟨kind, live⟩ := stands.own is
          exact Or.inl ⟨c.place, kind, live, rfl, rfl⟩
        · exact Or.inr ⟨c, kept mem ne, rfl, rfl, rfl⟩
    · rcases book.booked.shared p is with live | ⟨c, mem, rfl⟩
      · exact Or.inl live
      · by_cases ne : c = task
        · subst ne
          exact Or.inl (stands.shared is)
        · exact Or.inr ⟨c, kept mem ne, rfl⟩
    · rcases book.booked.members b p mem with live | noted
      · exact Or.inl live
      · by_cases ne : (⟨b, p⟩ : Cleanup B C) = task
        · subst ne
          exact Or.inl (stands.row mem)
        · exact Or.inr (kept noted ne)
    · exact book.booked.unique c (List.mem_filter.mp mem).1 c' (List.mem_filter.mp mem').1
  · -- a bridge and a connection have one record
    refine book.release fun _ _ c mem isB isC ne => ?_
    obtain rfl := book.booked.unique c mem task pending isB isC
    exact absurd rfl ne

/-- **What a step keeps.** -/
theorem InBook.step (book : InBook at_ s) {e : SlotEvent B C M} (ok : bookkept at_ s e)
    (move : slotStep at_ s e = some s') : InBook at_ s' := by
  cases e with
  | create b bridge =>
    simp only [slotStep] at move
    split at move
    · next new => exact Option.some.inj move ▸ book.create (Option.isNone_iff_eq_none.mp new)
    · cases move
  | update b bridge r restart =>
    obtain ⟨before, was, rfl⟩ := Option.map_eq_some_iff.mp move
    exact book.update was ok
  | start b fromNow r p =>
    simp only [slotStep] at move
    split at move
    · next src kind live slot =>
      obtain ⟨bridge, is, live⟩ := Option.bind_eq_some_iff.mp live
      obtain ⟨bridge', is', slot⟩ := Option.bind_eq_some_iff.mp slot
      obtain rfl := Option.some.inj (is.symm.trans is')
      split at move
      · cases move
      · exact Option.some.inj move ▸ book.start is live slot fromNow r p
    · cases move
  | pause b => exact Option.some.inj move ▸ book.stop b
  | progress b =>
    simp only [slotStep] at move
    split at move
    · exact Option.some.inj move ▸ book.same rfl rfl rfl rfl rfl fun _ on => Or.inl on
    · cases move
  | crash =>
    obtain rfl := Option.some.inj move
    exact book.same rfl rfl rfl rfl rfl fun _ on => nomatch on
  | resume b r p =>
    simp only [slotStep] at move
    split at move
    · next src kind live slot =>
      obtain ⟨bridge, is, live⟩ := Option.bind_eq_some_iff.mp live
      obtain ⟨bridge', is', slot⟩ := Option.bind_eq_some_iff.mp slot
      obtain rfl := Option.some.inj (is.symm.trans is')
      have made := book.provision is live slot r p
      split at move
      · obtain rfl := Option.some.inj move
        split
        · exact made.stop b
        · exact made.beginStream ((congrFun provision_bridges b).trans is) live
      · cases move
    · cases move
  | remove b r =>
    obtain ⟨bridge, was, rfl⟩ := Option.map_eq_some_iff.mp move
    exact book.remove was ok
  | sweepOne task r =>
    simp only [slotStep] at move
    split at move
    · next pending => exact Option.some.inj move ▸ book.sweepOne pending ok
    · cases move
  | surrender b r =>
    simp only [slotStep] at move
    split at move
    · next src live =>
      obtain ⟨bridge, is, live⟩ := Option.bind_eq_some_iff.mp live
      split at move
      · cases move
      · exact Option.some.inj move ▸ book.surrender is live ok
    · cases move

end Steps

/-- There are no bridges. -/
def Slots.empty : Slots B C M V where
  bridges _ := none
  running _ := false
  streaming _ := false
  position _ := false
  own _ _ := none
  shared _ := false
  members := []
  cleanups := []

omit [DecidableEq B] [DecidableEq C] [DecidableEq V] in
theorem InBook.empty : InBook at_ (Slots.empty : Slots B C M V) where
  booked :=
    { own := fun _ _ _ is => nomatch is
      shared := fun _ is => nomatch is
      members := fun _ _ mem => nomatch mem
      unique := fun _ mem => nomatch mem }
  streams _ on := nomatch on

/-- **The bookkeeping neither leaks nor steals** in a run whose steps keep the books: every slot is
accounted for, and no sweep takes the slot of a live bridge that has a position. Whatever the state, a
sweep takes none exactly when it is safe. -/
theorem accounted_of_bookkept :
    (∀ es s, Run (slotStep at_) (bookkept at_) (Slots.empty : Slots B C M V) es s →
      Accounted at_ s ∧
        ∀ task r s', bookkept at_ s (.sweepOne task r) → slotStep at_ s (.sweepOne task r) = some s' →
          ∀ b, s.position b = true → s.Holds at_ b → s'.Holds at_ b) ∧
      ∀ (s : Slots B C M V) task r s', slotStep at_ s (.sweepOne task r) = some s' →
        ((∀ b, s.position b = true → s.Holds at_ b → s'.Holds at_ b) ↔ s.SweepSafe at_ task r) := by
  have swept {s s' : Slots B C M V} {task : Cleanup B C} {r : Release}
      (move : slotStep at_ s (.sweepOne task r) = some s') : s.sweepOne at_ task r = s' := by
    simp only [slotStep] at move
    split at move
    · exact Option.some.inj move
    · cases move
  constructor
  · intro es s run
    have book : InBook at_ s := run.invariant (InBook.empty at_) fun _ _ _ ok book move =>
      book.step ok move
    refine ⟨book.accounted, fun task r s' ok move => ?_⟩
    rw [← swept move]
    exact sweepOne_holds_iff.mpr ok.2
  · intro s task r s' move
    rw [← swept move]
    exact sweepOne_holds_iff

/-! ## A bridge that is moved and comes back, and one that changes its database -/

namespace MovedBack

def servers : Servers Nat Nat where
  server c := c
  postgres _ := true

def reading (connectionId : Nat) (database : String) : Bridge Nat Unit where
  source := .table { connectionId := connectionId, database := some database, table := "orders" }
  trigger := .cdc [.insert] .own
  destination := .http
  mapping := ()

/-- The server does not let the slot go. -/
def held : Release := { ownDropped := false }

/-- The bridge is moved while server 1 does not let its slot go, is moved back, runs on, and is paused
when the sweep comes. -/
def movedBack : List (SlotEvent Nat Nat Unit) :=
  [.create 0 (reading 1 "shop"), .start 0 none {} .done, .progress 0,
    .update 0 (reading 2 "shop") held none, .update 0 (reading 1 "shop") {} none,
    .start 0 none {} .done, .progress 0, .pause 0]

/-- The bridge is made to read another database of the server. The slot of the first is swept off the
books, since the bridge is read on that connection. -/
def otherDatabase : List (SlotEvent Nat Nat Unit) :=
  [.create 0 (reading 1 "shop"), .start 0 none {} .done, .progress 0,
    .update 0 (reading 1 "stock") held (some ({}, .done)), .sweepOne ⟨0, 1, "shop"⟩ {}]

/-- It is moved, and swept at its old place. -/
def moved : List (SlotEvent Nat Nat Unit) :=
  [.create 0 (reading 1 "shop"), .start 0 none {} .done, .progress 0,
    .update 0 (reading 2 "shop") held none]

/-- The move is written down, and the sweep drops the slot: the bridge is at another place. -/
theorem accounted_of_bookkept_moved :
    ∃ s s' : Slots Nat Nat Unit Nat, s.own 0 1 = some "shop" ∧ Accounted servers s ∧
      slotStep servers s (.sweepOne ⟨0, 1, "shop"⟩ {}) = some s' ∧ s'.own 0 1 = none ∧
      (∀ b, s.position b = true → s.Holds servers b → s'.Holds servers b) ∧
      s.SweepSafe servers ⟨0, 1, "shop"⟩ {} := by
  obtain ⟨runs, sweeps⟩ := @accounted_of_bookkept Nat Nat Unit Nat _ _ _ servers
  have sound := runs moved _ (.cons trivial rfl (.cons trivial rfl (.cons trivial rfl
    (.cons (fun before was is live _ _ => ?_) rfl (.nil _)))))
  · refine ⟨_, _, rfl, sound.1, rfl, rfl, ?_, ?_⟩
    · exact sound.2 ⟨0, 1, "shop"⟩ {} _
        ⟨fun no => (nomatch no), fun _ _ _ no => (nomatch no)⟩ rfl
    · exact (sweeps _ ⟨0, 1, "shop"⟩ {} _ rfl).mp (sound.2 ⟨0, 1, "shop"⟩ {} _
        ⟨fun no => (nomatch no), fun _ _ _ no => (nomatch no)⟩ rfl)
  · obtain rfl := Option.some.inj is
    obtain rfl := Option.some.inj live
    exact fun _ _ => Or.inr ⟨rfl, rfl, fun _ mem => nomatch mem⟩

/-- A slot leaks, and a slot is stolen. -/
theorem moved_back_leaks_and_steals :
    (¬ ∀ es s, Run (slotStep servers) anyStep (Slots.empty : Slots Nat Nat Unit Nat) es s →
      Accounted servers s) ∧
    ¬ ∀ es s, Run (slotStep servers) anyStep (Slots.empty : Slots Nat Nat Unit Nat) es s →
      ∀ task r s', slotStep servers s (.sweepOne task r) = some s' →
        ∀ b, s.position b = true → s.Holds servers b → s'.Holds servers b := by
  constructor
  · intro all
    rcases (all otherDatabase _ (run_of_eval rfl)).own 0 1 "shop" rfl with
      ⟨place, kind, live, -, is⟩ | ⟨c, mem, -⟩
    · have stock : some ((1, "stock"), SlotKind.own) = some (place, kind) := live
      obtain ⟨rfl, -⟩ := Prod.mk.inj (Option.some.inj stock)
      revert is
      decide
    · cases mem
  · intro all
    have kept := all movedBack _ (run_of_eval rfl) ⟨0, 1, "shop"⟩ {} _ rfl 0 rfl
      ⟨(1, "shop"), .own, rfl, rfl⟩
    obtain ⟨place, kind, live, there⟩ := kept
    have shop : some ((1, "shop"), SlotKind.own) = some (place, kind) := live
    obtain ⟨rfl, rfl⟩ := Prod.mk.inj (Option.some.inj shop)
    have gone : (none : Option String).isSome = true := there
    cases gone

end MovedBack

end Syncle.Edits
