import Syncle.Adapters.Pool

/-!
# What the pool has opened is in it, or closed

The open that has a number owns its adapter and tunnel until its entry is set; then the pool does,
until the entry leaves it. What is asked for is that the sweep finds no operation on an adapter that
has not been handed out for that long, that tunnels drop only once the pool listens for it, and that
no tunnel is opened for an engine that has no driver (`MeetsUse`).
-/

namespace Syncle.Adapters

open Lib TaskSystem

namespace Pool

variable {p p' : Pool}

/-- What an open has opened is open. -/
def Live (p : Pool) (o : ℕ) : Prop := (p.opens o).adapter = .live ∨ (p.opens o).tunnel = .live

/-- The pool answers for it. -/
def Kept (p : Pool) (o : ℕ) : Prop := (∃ e ∈ p.entries, e.opened = o) ∨ o ∈ p.closing

structure Tidy (p : Pool) : Prop where
  pending : ∀ q ∈ p.pending, q.2 < p.started ∧ (p.opens q.2).key = q.1 ∧
    (p.opens q.2).ended = none ∧ (p.opens q.2).adapter ≠ .closed .sweep ∧
      (p.opens q.2).listens = false
  /-- one open for each key -/
  onePending : ∀ q ∈ p.pending, ∀ q' ∈ p.pending, q.1 = q'.1 → q = q'
  entries : ∀ e ∈ p.entries, e.opened < p.started ∧ (p.opens e.opened).key = e.key ∧
    (p.opens e.opened).ended = some true ∧ (p.opens e.opened).adapter = .live ∧
      ((p.opens e.opened).tunnel = .none ∨
        (p.opens e.opened).tunnel = .live ∧ (p.opens e.opened).listens = true)
  distinct : ∀ e ∈ p.entries, ∀ e' ∈ p.entries, e.opened = e'.opened → e = e'
  closing : ∀ o ∈ p.closing, o < p.started ∧ (p.opens o).ended = some true ∧
    (p.opens o).adapter ≠ .live ∧ ∀ e ∈ p.entries, e.opened ≠ o

/-- An open in progress has no entry, and nothing of it is being closed. -/
theorem Tidy.not_entry (h : p.Tidy) {q : Key × ℕ} (mem : q ∈ p.pending) {e : Entry}
    (entry : e ∈ p.entries) : e.opened ≠ q.2 := by
  intro same
  have ended := (h.entries e entry).2.2.1
  rw [same, (h.pending q mem).2.2.1] at ended
  cases ended

theorem Tidy.not_closing (h : p.Tidy) {q : Key × ℕ} (mem : q ∈ p.pending) : q.2 ∉ p.closing := by
  intro closing
  have ended := (h.closing q.2 closing).2.1
  rw [(h.pending q mem).2.2.1] at ended
  cases ended

/-- Entries leave the pool, and what is left is as it was. -/
theorem Tidy.less (h : p.Tidy) (started : p'.started = p.started)
    (pending : p'.pending = p.pending) (entries : ∀ e ∈ p'.entries, e ∈ p.entries)
    (same : ∀ e ∈ p'.entries, p'.opens e.opened = p.opens e.opened)
    (samePending : ∀ q ∈ p.pending, p'.opens q.2 = p.opens q.2)
    (ended : ∀ o, (p'.opens o).ended = (p.opens o).ended)
    (closing : ∀ o ∈ p'.closing, (p'.opens o).adapter ≠ .live ∧
      (o ∈ p.closing ∨ ∃ g ∈ p.entries, g.opened = o ∧ g ∉ p'.entries)) : p'.Tidy where
  pending q mem := by
    rw [pending] at mem
    rw [started, samePending q mem]
    exact h.pending q mem
  onePending q mem q' mem' := h.onePending q (pending ▸ mem) q' (pending ▸ mem')
  entries e mem := by
    rw [started, same e mem]
    exact h.entries e (entries e mem)
  distinct e mem e' mem' := h.distinct e (entries e mem) e' (entries e' mem')
  closing o mem := by
    obtain ⟨dead, was | ⟨g, entry, rfl, left⟩⟩ := closing o mem
    · obtain ⟨lt, ended', _, apart⟩ := h.closing o was
      exact ⟨started ▸ lt, (ended o).trans ended', dead, fun e mem => apart e (entries e mem)⟩
    · obtain ⟨lt, _, ended', _⟩ := h.entries g entry
      refine ⟨started ▸ lt, (ended _).trans ended', dead, fun e mem same => left ?_⟩
      exact h.distinct e (entries e mem) g entry same ▸ mem

/-!
## What a step leaves of the other opens

Opens go on side by side, each under a number of its own. A step is asked two things by the others:
that it leaves them what they had (`Leaves`), and that it sweeps nothing (`Unswept`).
-/

/-- What a step leaves of the open `o`, which is not its own. -/
structure Leaves (o : ℕ) (p p' : Pool) : Prop where
  live : p'.Live o → p.Live o
  kept : p.Kept o → p'.Live o → p'.Kept o
  /-- where it is in progress -/
  pending : ∀ q ∈ p.pending, q.2 = o → q ∈ p'.pending ∧ p'.opens o = p.opens o ∧
    ∀ e ∈ p'.entries, (∃ was ∈ p.entries, e.key = was.key) ∨ e.key ≠ q.1

/-- No adapter that was open has been closed by the sweep. -/
structure Unswept (p p' : Pool) : Prop where
  started : p.started ≤ p'.started
  adapter : ∀ o < p.started, (p'.opens o).adapter = .closed .sweep →
    (p.opens o).adapter = .closed .sweep

theorem Leaves.refl (o : ℕ) (p : Pool) : Leaves o p p :=
  ⟨id, fun kept _ => kept, fun _ mem _ => ⟨mem, rfl, fun e entry => .inl ⟨e, entry, rfl⟩⟩⟩

theorem Unswept.refl (p : Pool) : Unswept p p := ⟨Nat.le_refl _, fun _ _ h => h⟩

theorem mem_gone {which : Entry → Bool} {o : ℕ} :
    o ∈ (p.entries.filter which).map (·.opened) ↔ ∃ e ∈ p.entries, which e = true ∧ e.opened = o := by
  simp [and_assoc]

theorem closeEntries_opens (which : Entry → Bool) (by_ : Closer) (o : ℕ) :
    (p.closeEntries which by_).opens o =
      if o ∈ (p.entries.filter which).map (·.opened) then { p.opens o with adapter := .closed by_ }
      else p.opens o := rfl

/-- What is closed has an entry that leaves the pool. -/
theorem closeEntries_same {which : Entry → Bool} {by_ : Closer} {o : ℕ}
    (stays : ∀ e ∈ p.entries, e.opened = o → which e = false) :
    (p.closeEntries which by_).opens o = p.opens o := by
  refine if_neg fun gone => ?_
  obtain ⟨e, entry, its, rfl⟩ := mem_gone.mp gone
  rw [stays e entry rfl] at its
  cases its

theorem Tidy.closeEntries (h : p.Tidy) (which : Entry → Bool) (by_ : Closer) :
    (p.closeEntries which by_).Tidy := by
  have left : ∀ e ∈ (p.closeEntries which by_).entries, e ∈ p.entries ∧ which e = false := by
    intro e mem
    simpa [Pool.closeEntries] using mem
  refine h.less rfl rfl (fun e mem => (left e mem).1) (fun e mem => ?_) (fun q mem => ?_)
    (fun o => ?_) (fun o mem => ?_)
  · refine closeEntries_same fun e' entry same => ?_
    rw [h.distinct e' entry e (left e mem).1 same]
    exact (left e mem).2
  · exact closeEntries_same fun e entry same => absurd same (h.not_entry mem entry)
  · rw [closeEntries_opens]
    split <;> rfl
  · rcases List.mem_append.mp mem with was | new
    · refine ⟨?_, .inl was⟩
      rw [closeEntries_opens]
      split
      · simp
      · exact (h.closing o was).2.2.1
    · obtain ⟨gone, _⟩ := List.mem_filter.mp new
      refine ⟨by simp [closeEntries_opens, if_pos gone], .inr ?_⟩
      obtain ⟨e, entry, its, same⟩ := mem_gone.mp gone
      refine ⟨e, entry, same, fun mem => ?_⟩
      rw [(left e mem).2] at its
      cases its

theorem leaves_closeEntries (h : p.Tidy) (which : Entry → Bool) (by_ : Closer) (o : ℕ) :
    Leaves o p (p.closeEntries which by_) where
  live live := by
    rw [Live, closeEntries_opens] at live
    split at live
    · exact .inr (live.resolve_left (by simp))
    · exact live
  kept kept live := by
    rcases kept with ⟨e, entry, rfl⟩ | closing
    · cases its : which e with
      | false => exact .inl ⟨e, List.mem_filter.mpr ⟨entry, by simp [its]⟩, rfl⟩
      | true =>
        have gone := mem_gone.mpr ⟨e, entry, its, rfl⟩
        rw [Live, closeEntries_opens, if_pos gone] at live
        have tunnel : (p.opens e.opened).tunnel = .live := live.resolve_left (by simp)
        exact .inr (List.mem_append_right _ (List.mem_filter.mpr ⟨gone, by simpa using tunnel⟩))
    · exact .inr (List.mem_append_left _ closing)
  pending q mem same := by
    subst same
    refine ⟨mem, closeEntries_same fun e entry same => absurd same (h.not_entry mem entry), ?_⟩
    exact fun e entry => .inl ⟨e, (List.mem_filter.mp entry).1, rfl⟩

theorem unswept_closeEntries (which : Entry → Bool) {by_ : Closer} (ne : by_ ≠ .sweep) :
    Unswept p (p.closeEntries which by_) where
  started := Nat.le_refl _
  adapter o _ swept := by
    rw [closeEntries_opens] at swept
    split at swept
    · simp at swept
      exact absurd swept ne
    · exact swept

/-!
## What an open does

An open in progress is pending under its key, and as long as it is, the key has no entry. Each of its
stages is a write to its own record; setting the entry is the last, and ends it.
-/

/-- The open `o` is in progress, and its key has no entry. -/
structure InProgress (p : Pool) (o : ℕ) : Prop where
  pending : ((p.opens o).key, o) ∈ p.pending
  noEntry : ∀ e ∈ p.entries, e.key ≠ (p.opens o).key

theorem setOpened_other {o o' : ℕ} {opened : Opened} (ne : o' ≠ o) :
    (p.setOpened o opened).opens o' = p.opens o' := by
  simp [setOpened, ne]

@[simp] theorem setOpened_pending (o : ℕ) (opened : Opened) :
    (p.setOpened o opened).pending = p.pending := rfl

@[simp] theorem setOpened_entries (o : ℕ) (opened : Opened) :
    (p.setOpened o opened).entries = p.entries := rfl

@[simp] theorem setOpened_own (o : ℕ) (opened : Opened) :
    (p.setOpened o opened).opens o = opened := by
  simp [setOpened]

theorem InProgress.setOpened {o : ℕ} (h : p.InProgress o) {opened : Opened}
    (key : opened.key = (p.opens o).key) : (p.setOpened o opened).InProgress o where
  pending := by
    rw [setOpened_own, key]
    exact h.pending
  noEntry := by
    rw [setOpened_own, key]
    exact h.noEntry

/-- An open opens or closes what is its own. -/
theorem Tidy.setOpened (h : p.Tidy) {o : ℕ} (progress : p.InProgress o) {opened : Opened}
    (key : opened.key = (p.opens o).key) (ended : opened.ended = none)
    (adapter : opened.adapter ≠ .closed .sweep) (listens : opened.listens = false) :
    (p.setOpened o opened).Tidy where
  pending q mem := by
    by_cases same : q.2 = o
    · obtain ⟨lt, its, _⟩ := h.pending q mem
      rw [same] at lt its ⊢
      rw [setOpened_own]
      exact ⟨lt, key.trans its, ended, adapter, listens⟩
    · rw [setOpened_other same]
      exact h.pending q mem
  onePending := h.onePending
  entries e mem := by
    rw [setOpened_other (h.not_entry progress.pending mem)]
    exact h.entries e mem
  distinct := h.distinct
  closing o' mem := by
    have ne : o' ≠ o := by
      rintro rfl
      exact h.not_closing progress.pending mem
    rw [setOpened_other ne]
    exact h.closing o' mem

theorem leaves_setOpened {o o' : ℕ} {opened : Opened} (ne : o' ≠ o) :
    Leaves o' p (p.setOpened o opened) where
  live live := by simpa [Live, setOpened_other ne] using live
  kept kept _ := kept
  pending q mem _ := ⟨mem, setOpened_other ne, fun e entry => .inl ⟨e, entry, rfl⟩⟩

theorem unswept_setOpened {o : ℕ} {opened : Opened}
    (adapter : opened.adapter = .closed .sweep → (p.opens o).adapter = .closed .sweep) :
    Unswept p (p.setOpened o opened) where
  started := Nat.le_refl _
  adapter o' _ swept := by
    by_cases same : o' = o
    · subst same
      exact adapter (by simpa using swept)
    · rwa [setOpened_other same] at swept

theorem unswept_settle (o : ℕ) (ok : Bool) : Unswept p (p.settle o ok) := by
  have unswept : Unswept p (p.setOpened o { p.opens o with ended := some ok }) :=
    unswept_setOpened id
  exact ⟨unswept.started, unswept.adapter⟩

theorem unswept_finish (o : ℕ) : Unswept p (p.finish o) := by
  have unswept : Unswept p (p.setOpened o { p.opens o with listens := true, ended := some true }) :=
    unswept_setOpened id
  exact ⟨unswept.started, unswept.adapter⟩

/-- The open is the only one in progress for its key. -/
theorem Tidy.other_key (h : p.Tidy) {o : ℕ} (progress : p.InProgress o) {q : Key × ℕ}
    (mem : q ∈ p.pending) (ne : q.2 ≠ o) : q.1 ≠ (p.opens o).key := by
  intro same
  have is := h.onePending q mem _ progress.pending same
  exact ne (by rw [is])

/-- An open has failed. -/
theorem Tidy.settle (h : p.Tidy) {o : ℕ} (progress : p.InProgress o) (ok : Bool) :
    (p.settle o ok).Tidy where
  pending q mem := by
    obtain ⟨was, key⟩ := List.mem_filter.mp mem
    have ne : q.2 ≠ o := by
      rintro rfl
      simp [(h.pending q was).2.1] at key
    have same : (p.settle o ok).opens q.2 = p.opens q.2 := setOpened_other ne
    rw [same]
    exact h.pending q was
  onePending q mem q' mem' :=
    h.onePending q (List.mem_filter.mp mem).1 q' (List.mem_filter.mp mem').1
  entries e mem := by
    have same : (p.settle o ok).opens e.opened = p.opens e.opened :=
      setOpened_other (h.not_entry progress.pending mem)
    rw [same]
    exact h.entries e mem
  distinct := h.distinct
  closing o' mem := by
    have ne : o' ≠ o := by
      rintro rfl
      exact h.not_closing progress.pending mem
    have same : (p.settle o ok).opens o' = p.opens o' := setOpened_other ne
    rw [same]
    exact h.closing o' mem

theorem live_settle (o : ℕ) (ok : Bool) : (p.settle o ok).Live o ↔ p.Live o := by
  have own : (p.settle o ok).opens o = { p.opens o with ended := some ok } := setOpened_own _ _
  simp [Live, own]

theorem leaves_settle (h : p.Tidy) {o o' : ℕ} (progress : p.InProgress o) (ok : Bool)
    (ne : o' ≠ o) : Leaves o' p (p.settle o ok) where
  live := (leaves_setOpened ne).live
  kept kept _ := kept
  pending q mem same := by
    subst same
    have key := h.other_key progress mem ne
    exact ⟨List.mem_filter.mpr ⟨mem, by simpa using key⟩, setOpened_other ne,
      fun e entry => .inl ⟨e, entry, rfl⟩⟩

/-- An open has finished: its entry is set. -/
theorem Tidy.finish (h : p.Tidy) {o : ℕ} (progress : p.InProgress o)
    (adapter : (p.opens o).adapter = .live)
    (tunnel : (p.opens o).tunnel = .none ∨ (p.opens o).tunnel = .live) : (p.finish o).Tidy where
  pending q mem := by
    obtain ⟨was, key⟩ := List.mem_filter.mp mem
    have ne : q.2 ≠ o := by
      rintro rfl
      simp [(h.pending q was).2.1] at key
    have same : (p.finish o).opens q.2 = p.opens q.2 := setOpened_other ne
    rw [same]
    exact h.pending q was
  onePending q mem q' mem' :=
    h.onePending q (List.mem_filter.mp mem).1 q' (List.mem_filter.mp mem').1
  entries e mem := by
    rcases List.mem_append.mp mem with was | new
    · have entry := (List.mem_filter.mp was).1
      have same : (p.finish o).opens e.opened = p.opens e.opened :=
        setOpened_other (h.not_entry progress.pending entry)
      rw [same]
      exact h.entries e entry
    · obtain rfl := List.mem_singleton.mp new
      have own : (p.finish o).opens o = { p.opens o with listens := true, ended := some true } :=
        setOpened_own _ _
      simp only [own]
      exact ⟨(h.pending _ progress.pending).1, trivial, trivial, adapter,
        tunnel.imp_right fun live => ⟨live, trivial⟩⟩
  distinct e mem e' mem' same := by
    have apart : ∀ e ∈ p.entries, e.opened ≠ o := fun e => h.not_entry progress.pending
    rcases List.mem_append.mp mem with was | new <;> rcases List.mem_append.mp mem' with was' | new'
    · exact h.distinct e (List.mem_filter.mp was).1 e' (List.mem_filter.mp was').1 same
    · obtain rfl := List.mem_singleton.mp new'
      exact absurd same (apart e (List.mem_filter.mp was).1)
    · obtain rfl := List.mem_singleton.mp new
      exact absurd same.symm (apart e' (List.mem_filter.mp was').1)
    · rw [List.mem_singleton.mp new, List.mem_singleton.mp new']
  closing o' mem := by
    have ne : o' ≠ o := by
      rintro rfl
      exact h.not_closing progress.pending mem
    have same : (p.finish o).opens o' = p.opens o' := setOpened_other ne
    rw [same]
    obtain ⟨lt, ended, dead, apart⟩ := h.closing o' mem
    refine ⟨lt, ended, dead, fun e entry => ?_⟩
    rcases List.mem_append.mp entry with was | new
    · exact apart e (List.mem_filter.mp was).1
    · obtain rfl := List.mem_singleton.mp new
      exact ne.symm

theorem leaves_finish (h : p.Tidy) {o o' : ℕ} (progress : p.InProgress o) (ne : o' ≠ o) :
    Leaves o' p (p.finish o) where
  live := (leaves_setOpened ne).live
  kept kept _ := by
    refine kept.imp_left fun ⟨e, entry, same⟩ => ⟨e, List.mem_append_left _ ?_, same⟩
    exact List.mem_filter.mpr ⟨entry, by simpa using progress.noEntry e entry⟩
  pending q mem same := by
    subst same
    have key := h.other_key progress mem ne
    refine ⟨List.mem_filter.mpr ⟨mem, by simpa using key⟩, setOpened_other ne, fun e entry => ?_⟩
    rcases List.mem_append.mp entry with was | new
    · exact .inl ⟨e, (List.mem_filter.mp was).1, rfl⟩
    · obtain rfl := List.mem_singleton.mp new
      exact .inr key.symm

theorem Leaves.trans {o : ℕ} {p'' : Pool} (h : Leaves o p p') (h' : Leaves o p' p'') :
    Leaves o p p'' where
  live live := h.live (h'.live live)
  kept kept live := h'.kept (h.kept kept (h'.live live)) live
  pending q mem same := by
    obtain ⟨mem', opened, entries⟩ := h.pending q mem same
    obtain ⟨mem'', opened', entries'⟩ := h'.pending q mem' same
    refine ⟨mem'', opened'.trans opened, fun e entry => ?_⟩
    rcases entries' e entry with ⟨was, entry', key⟩ | ne
    · rw [key]
      exact entries was entry'
    · exact .inr ne

theorem Unswept.trans {p'' : Pool} (h : Unswept p p') (h' : Unswept p' p'') : Unswept p p'' where
  started := Nat.le_trans h.started h'.started
  adapter o lt swept := h.adapter o lt (h'.adapter o (Nat.lt_of_lt_of_le lt h.started) swept)

/-!
## A new open, and a hand-out

What a look at the pool leads to: a new number, when no entry matches and nothing is in flight, or the
entry's adapter with its time of use moved on.
-/

section Start

variable (key : Key) (config : ConnectionConfig) (cap : ℕ)

theorem start_other {o : ℕ} (ne : o ≠ p.started) :
    (p.start key config cap).1.opens o =
      (p.closeEntries (fun e => e.key = key) .reopen).opens o := by
  simp [start, setOpened, ne]

theorem start_own : (p.start key config cap).1.opens p.started =
    { key := key, config := config, cap := cap, adapter := .none, tunnel := .none,
      listens := false, ended := none } := by
  simp [start, setOpened]

theorem not_inFlight (free : p.inFlight key = none) {q : Key × ℕ} (mem : q ∈ p.pending) :
    q.1 ≠ key := by
  intro same
  have absent := List.find?_eq_none.mp (Option.map_eq_none_iff.mp free) q mem
  simp [same] at absent

theorem Tidy.start (h : p.Tidy) (free : p.inFlight key = none) :
    (p.start key config cap).1.Tidy := by
  have closed := h.closeEntries (fun e => e.key = key) .reopen
  have older : ∀ {o}, o < p.started → (p.start key config cap).1.opens o =
      (p.closeEntries (fun e => e.key = key) .reopen).opens o :=
    fun lt => start_other key config cap (Nat.ne_of_lt lt)
  constructor
  · intro q mem
    rcases List.mem_append.mp mem with was | new
    · obtain ⟨lt, rest⟩ := closed.pending q was
      rw [older lt]
      exact ⟨Nat.lt_succ_of_lt lt, rest⟩
    · obtain rfl := List.mem_singleton.mp new
      rw [start_own]
      exact ⟨Nat.lt_succ_self _, rfl, rfl, by simp, rfl⟩
  · intro q mem q' mem' same
    rcases List.mem_append.mp mem with was | new <;> rcases List.mem_append.mp mem' with was' | new'
    · exact h.onePending q was q' was' same
    · rw [List.mem_singleton.mp new'] at same
      exact absurd same (not_inFlight key free was)
    · rw [List.mem_singleton.mp new] at same
      exact absurd same.symm (not_inFlight key free was')
    · rw [List.mem_singleton.mp new, List.mem_singleton.mp new']
  · intro e mem
    obtain ⟨lt, rest⟩ := closed.entries e mem
    rw [older lt]
    exact ⟨Nat.lt_succ_of_lt lt, rest⟩
  · exact closed.distinct
  · intro o mem
    obtain ⟨lt, rest⟩ := closed.closing o mem
    rw [older lt]
    exact ⟨Nat.lt_succ_of_lt lt, rest⟩

theorem leaves_start (h : p.Tidy) (o : ℕ) : Leaves o p (p.start key config cap).1 := by
  by_cases new : o = p.started
  · subst new
    refine ⟨fun live => ?_, fun _ live => ?_, fun q mem same => ?_⟩
    · simp [Live, start_own] at live
    · simp [Live, start_own] at live
    · exact absurd same (Nat.ne_of_lt (h.pending q mem).1)
  · refine (leaves_closeEntries h (fun e => e.key = key) .reopen o).trans ?_
    have other := start_other (p := p) key config cap new
    refine ⟨fun live => ?_, fun kept _ => kept, fun q mem _ => ⟨?_, other, ?_⟩⟩
    · rwa [Live, other] at live
    · exact List.mem_append_left _ mem
    · exact fun e entry => .inl ⟨e, entry, rfl⟩

theorem unswept_start : Unswept p (p.start key config cap).1 where
  started := Nat.le_succ _
  adapter o lt swept := by
    rw [start_other key config cap (Nat.ne_of_lt lt)] at swept
    exact (unswept_closeEntries (fun e => e.key = key) (by simp)).adapter o lt swept

theorem inProgress_start : (p.start key config cap).1.InProgress p.started := by
  constructor
  · rw [start_own]
    exact List.mem_append_right _ (List.mem_singleton.mpr rfl)
  · intro e mem
    rw [start_own]
    simpa using (List.mem_filter.mp mem).2

end Start

/-- An entry is handed out. -/
def handOut (p : Pool) (key : Key) : Pool :=
  { p with entries := p.entries.map fun e =>
      if e.key = key then { e with lastUsedAt := p.now } else e }

theorem mem_handOut {key : Key} {e : Entry} (h : e ∈ (p.handOut key).entries) :
    ∃ was ∈ p.entries, e.opened = was.opened ∧ e.key = was.key ∧
      e = if was.key = key then { was with lastUsedAt := p.now } else was := by
  obtain ⟨was, mem, rfl⟩ := List.mem_map.mp h
  refine ⟨was, mem, ?_⟩
  split <;> exact ⟨rfl, rfl, rfl⟩

theorem Tidy.handOut (h : p.Tidy) (key : Key) : (p.handOut key).Tidy where
  pending := h.pending
  onePending := h.onePending
  entries e mem := by
    obtain ⟨was, entry, opened, key', _⟩ := mem_handOut mem
    rw [opened, key']
    exact h.entries was entry
  distinct e mem e' mem' same := by
    obtain ⟨was, entry, opened, _, is⟩ := mem_handOut mem
    obtain ⟨was', entry', opened', _, is'⟩ := mem_handOut mem'
    have both := h.distinct was entry was' entry' (opened.symm.trans (same.trans opened'))
    rw [is, is', both]
  closing o mem := by
    obtain ⟨lt, ended, dead, apart⟩ := h.closing o mem
    refine ⟨lt, ended, dead, fun e entry => ?_⟩
    obtain ⟨was, entry', opened, _⟩ := mem_handOut entry
    exact opened ▸ apart was entry'

theorem leaves_handOut (key : Key) (o : ℕ) : Leaves o p (p.handOut key) where
  live := id
  kept kept _ := by
    refine kept.imp_left fun ⟨e, entry, same⟩ => ⟨_, List.mem_map.mpr ⟨e, entry, rfl⟩, ?_⟩
    split <;> exact same
  pending q mem _ := by
    refine ⟨mem, rfl, fun e entry => .inl ?_⟩
    obtain ⟨was, entry', _, key', _⟩ := mem_handOut entry
    exact ⟨was, entry', key'⟩

end Pool

/-!
## Calls

What a call goes by between two of its steps (`KnowsUse`), and what each kind of step keeps: it waits,
it goes aside, its open goes on, fails or is set in the pool. Then the same for a tunnel that drops and
for one that is closed, which are no call's.
-/

namespace PoolTask

/-- The open that is a call's own. -/
def name : PoolTask → Option ℕ
  | .opening o _ _ => some o
  | .resolving _ _ | .looking _ _ _ | .waiting _ _ | .running _ _ _ | .saving _ _ | .toEvict _
  | .evicting _ _ => none

/-- What an operation is on, or is about to be handed. -/
def on : PoolTask → Option ℕ
  | .waiting o _ | .running o _ _ => some o
  | .resolving _ _ | .looking _ _ _ | .opening _ _ _ | .saving _ _ | .toEvict _
  | .evicting _ _ => none

end PoolTask

namespace Pool

variable {p p' : Pool}

/-- How far an open has come. -/
def Stage (p : Pool) (o : ℕ) : Opening → Prop
  | .closingStale _ | .tunnelling => (p.opens o).adapter = .none ∧ (p.opens o).tunnel = .none
  | .failing => (p.opens o).adapter = .closed .failed ∧
    ((p.opens o).tunnel = .none ∨ (p.opens o).tunnel = .live)
  | .connecting _ | .pinReading _ | .pinWriting _ _ | .pinned =>
    (p.opens o).adapter = .live ∧ ((p.opens o).tunnel = .none ∨ (p.opens o).tunnel = .live)

/-- What a call goes by. -/
structure KnowsUse (p : Pool) (task : PoolTask) : Prop where
  opening : ∀ o call at_, task = .opening o call at_ → p.InProgress o ∧ p.Stage o at_
  on : ∀ o, task.on = some o → o < p.started ∧ (p.opens o).adapter ≠ .closed .sweep
  dropped : ∀ o call dropped, task = .running o call dropped → dropped = false

theorem knowsUse_of_opening {o : ℕ} {call : Call} {at_ : Opening} (progress : p.InProgress o)
    (stage : p.Stage o at_) : p.KnowsUse (.opening o call at_) where
  opening := by
    rintro _ _ _ ⟨rfl, rfl, rfl⟩
    exact ⟨progress, stage⟩
  on := by simp [PoolTask.on]
  dropped := by simp

theorem knowsUse_of_running {o : ℕ} {call : Call} (started : o < p.started)
    (adapter : (p.opens o).adapter ≠ .closed .sweep) : p.KnowsUse (.running o call false) where
  opening := by simp
  on := by
    intro o' same
    obtain rfl := Option.some.inj same
    exact ⟨started, adapter⟩
  dropped := by
    rintro _ _ _ ⟨rfl, rfl, rfl⟩
    rfl

theorem KnowsUse.other {task : PoolTask} (named : task.name = none) (on : task.on = none) :
    p.KnowsUse task where
  opening := by
    rintro o call at_ rfl
    simp [PoolTask.name] at named
  on := by simp [on]
  dropped := by
    rintro o call dropped rfl
    simp [PoolTask.on] at on

/-- What another call goes by is kept. -/
theorem KnowsUse.stays {task : PoolTask} (h : p.KnowsUse task) (started : p.started ≤ p'.started)
    (adapter : ∀ o, task.on = some o → o < p.started → (p'.opens o).adapter = .closed .sweep →
      (p.opens o).adapter = .closed .sweep)
    (leaves : ∀ o, task.name = some o → Leaves o p p') : p'.KnowsUse task where
  opening := by
    rintro o call at_ rfl
    obtain ⟨progress, stage⟩ := h.opening o call at_ rfl
    obtain ⟨mem, opened, entries⟩ := (leaves o rfl).pending _ progress.pending rfl
    refine ⟨⟨opened ▸ mem, fun e entry => ?_⟩, ?_⟩
    · rw [opened]
      rcases entries e entry with ⟨was, entry', key⟩ | ne
      · exact key ▸ progress.noEntry was entry'
      · exact ne
    · cases at_ <;> simpa [Stage, opened] using stage
  on o its := by
    obtain ⟨lt, unswept⟩ := h.on o its
    exact ⟨Nat.lt_of_lt_of_le lt started, fun swept => unswept (adapter o its lt swept)⟩
  dropped := h.dropped

/-- What a step of a call leads to. -/
structure LedUse (own : Option ℕ) (p p' : Pool) (next : Option PoolTask) : Prop where
  tidy : p'.Tidy
  unswept : Unswept p p'
  leaves : ∀ o, own ≠ some o → Leaves o p p'
  knows : ∀ n, next = some n → p'.KnowsUse n
  /-- what is its own is kept, or is its own still -/
  held : ∀ o, own = some o → p'.Live o → p'.Kept o ∨ ∃ n, next = some n ∧ n.name = some o

theorem Tidy.waits (h : p.Tidy) {own : Option ℕ} {next : Option PoolTask}
    (knows : ∀ n, next = some n → p.KnowsUse n)
    (held : ∀ o, own = some o → ∃ n, next = some n ∧ n.name = some o) : LedUse own p p next :=
  ⟨h, .refl p, fun o _ => .refl o p, knows, fun o same _ => .inr (held o same)⟩

/-- Nothing that was opened is touched. -/
structure Aside (p p' : Pool) : Prop where
  entries : p'.entries = p.entries
  pending : p'.pending = p.pending
  opens : p'.opens = p.opens
  started : p'.started = p.started
  closing : p'.closing = p.closing

theorem Tidy.aside (h : p.Tidy) (aside : Aside p p') : p'.Tidy := by
  obtain ⟨entries, pending, opens, started, closing⟩ := aside
  constructor
  · simpa only [pending, opens, started] using h.pending
  · simpa only [pending] using h.onePending
  · simpa only [entries, opens, started] using h.entries
  · simpa only [entries] using h.distinct
  · simpa only [entries, opens, started, closing] using h.closing

theorem Aside.unswept (aside : Aside p p') : Unswept p p' where
  started := Nat.le_of_eq aside.started.symm
  adapter o _ swept := by rwa [aside.opens] at swept

theorem Aside.leaves (aside : Aside p p') (o : ℕ) : Leaves o p p' := by
  obtain ⟨entries, pending, opens, started, closing⟩ := aside
  refine ⟨fun live => ?_, fun kept _ => ?_, fun q mem _ => ⟨pending ▸ mem, by rw [opens], ?_⟩⟩
  · simpa only [Live, opens] using live
  · simpa only [Kept, entries, closing] using kept
  · exact fun e entry => .inl ⟨e, entries ▸ entry, rfl⟩

/-- A call that goes on, and touches nothing that was opened. -/
theorem Tidy.besides (h : p.Tidy) (aside : Aside p p') {own : Option ℕ}
    {next : Option PoolTask} (knows : ∀ n, next = some n → p'.KnowsUse n)
    (held : ∀ o, own = some o → ∃ n, next = some n ∧ n.name = some o) : LedUse own p p' next :=
  ⟨h.aside aside, aside.unswept, fun o _ => aside.leaves o, knows, fun o same _ => .inr (held o same)⟩

section Own

variable {o : ℕ} {call : Call}

/-- The open goes on. -/
theorem Tidy.goesOn (h : p.Tidy) (progress : p.InProgress o) {at_ : Opening}
    (stage : p.Stage o at_) : LedUse (some o) p p (some (.opening o call at_)) := by
  refine h.waits (fun n same => ?_) fun o' own => ?_
  · obtain rfl := Option.some.inj same
    exact knowsUse_of_opening progress stage
  · exact ⟨_, rfl, own⟩

/-- The open goes on, and has opened or closed something. -/
theorem Tidy.opens (h : p.Tidy) (progress : p.InProgress o) {opened : Opened} {at_ : Opening}
    (key : opened.key = (p.opens o).key) (ended : opened.ended = none)
    (adapter : opened.adapter ≠ .closed .sweep) (listens : opened.listens = false)
    (stage : (p.setOpened o opened).Stage o at_) :
    LedUse (some o) p (p.setOpened o opened) (some (.opening o call at_)) where
  tidy := h.setOpened progress key ended adapter listens
  unswept := unswept_setOpened fun swept => absurd swept adapter
  leaves o' ne := leaves_setOpened (by simpa using ne.symm)
  knows n same := by
    obtain rfl := Option.some.inj same
    exact knowsUse_of_opening (progress.setOpened key) stage
  held o' own _ := .inr ⟨_, rfl, own⟩

/-- The open has failed, with nothing left open. -/
theorem Tidy.fails (h : p.Tidy) (progress : p.InProgress o) (dead : ¬ p.Live o) :
    LedUse (some o) p (p.settle o false) none where
  tidy := h.settle progress false
  unswept := unswept_settle o false
  leaves o' ne := leaves_settle h progress false (by simpa using ne.symm)
  knows := by simp
  held o' own live := by
    obtain rfl := Option.some.inj own
    exact absurd ((live_settle _ _).mp live) dead

/-- The open has failed, after it has closed what it had opened. -/
theorem Tidy.failsWith (h : p.Tidy) (progress : p.InProgress o) {opened : Opened}
    (key : opened.key = (p.opens o).key) (ended : opened.ended = none)
    (adapter : opened.adapter ≠ .closed .sweep) (listens : opened.listens = false)
    (dead : ¬ (p.setOpened o opened).Live o) :
    LedUse (some o) p ((p.setOpened o opened).settle o false) none := by
  have fails := (h.setOpened progress key ended adapter listens).fails (progress.setOpened key) dead
  refine ⟨fails.tidy, ?_, fun o' ne => ?_, by simp, fails.held⟩
  · exact (unswept_setOpened fun swept => absurd swept adapter).trans fails.unswept
  · exact (leaves_setOpened (by simpa using ne.symm)).trans (fails.leaves o' ne)

/-- The open has finished. -/
theorem Tidy.finishes (h : p.Tidy) (progress : p.InProgress o)
    (adapter : (p.opens o).adapter = .live)
    (tunnel : (p.opens o).tunnel = .none ∨ (p.opens o).tunnel = .live) :
    LedUse (some o) p (p.finish o) (some (.running o call false)) where
  tidy := h.finish progress adapter tunnel
  unswept := unswept_finish o
  leaves o' ne := leaves_finish h progress (by simpa using ne.symm)
  knows n same := by
    obtain rfl := Option.some.inj same
    refine knowsUse_of_running (h.pending _ progress.pending).1 ?_
    have own : (p.finish o).opens o = { p.opens o with listens := true, ended := some true } :=
      setOpened_own _ _
    simp [own, adapter]
  held o' own _ := by
    obtain rfl := Option.some.inj own
    exact .inl (.inl ⟨_, List.mem_append_right _ (List.mem_singleton.mpr rfl), rfl⟩)

end Own

/-- `acquire`, once the row is read. -/
theorem Tidy.look (h : p.Tidy) (call : Call) (database : String) (config : ConnectionConfig)
    (setting : ℕ) : LedUse none p (p.look call database config setting).1
      (some (p.look call database config setting).2) := by
  unfold Pool.look
  simp only
  cases matches_ : p.match_ (keyOf call database config) config (config.queryCap setting) with
  | some e =>
    have found := (Option.filter_eq_some_iff.mp matches_).1
    obtain ⟨lt, _, _, adapter, tunnel⟩ := h.entries e (List.mem_of_find?_eq_some found)
    have up : decide ((p.opens e.opened).tunnel = .dropped) = false := by
      rcases tunnel with none | ⟨live, _⟩
      · simp [none]
      · simp [live]
    refine ⟨h.handOut _, ⟨Nat.le_refl _, fun _ _ swept => swept⟩, fun o _ => leaves_handOut _ o, fun n same => ?_, by simp⟩
    obtain rfl := Option.some.inj same
    simp only [up]
    exact knowsUse_of_running lt (by simp [adapter])
  | none =>
    simp only
    cases inFlight : p.inFlight (keyOf call database config) with
    | some o =>
      obtain ⟨q, found, rfl⟩ := Option.map_eq_some_iff.mp inFlight
      obtain ⟨lt, _, _, adapter, _⟩ := h.pending q (List.mem_of_find?_eq_some found)
      refine h.waits (fun n same => ?_) (by simp)
      obtain rfl := Option.some.inj same
      refine ⟨by simp, fun o its => ?_, by simp⟩
      obtain rfl := Option.some.inj its
      exact ⟨lt, adapter⟩
    | none =>
      refine ⟨h.start _ config _ inFlight, unswept_start _ config _,
        fun o _ => leaves_start _ config _ h o, fun n same => ?_, by simp⟩
      obtain rfl := Option.some.inj same
      refine knowsUse_of_opening (inProgress_start _ config _) ?_
      have own := start_own (p := p) (keyOf call database config) config (config.queryCap setting)
      rcases opening_start p (keyOf call database config) config (config.queryCap setting) with
        first | ⟨stale, first⟩
      all_goals
        rw [first]
        exact ⟨by rw [own], by rw [own]⟩

/-- The rest of an open. -/
theorem Tidy.open_ (h : p.Tidy) {o : ℕ} {call : Call} {at_ : Opening} {answer : PoolAnswer}
    (progress : p.InProgress o) (stage : p.Stage o at_)
    (driver : ∀ tunnel presented ok, answer = .dialled tunnel presented ok → at_ = .tunnelling →
      ok = true ∨ (p.opens o).config.tunnels = false)
    {next : Option PoolTask} (resumed : p.open_ o call at_ answer = some (p', next)) :
    LedUse (some o) p p' next := by
  obtain ⟨_, _, ended, unswept, listens⟩ := h.pending _ progress.pending
  unfold Pool.open_ at resumed
  split at resumed
  · next stale _ =>
    split at resumed
    · cases resumed
    · obtain ⟨rfl, rfl⟩ := Prod.mk.inj (Option.some.inj resumed)
      exact h.goesOn progress stage
  · next tunnel presented ok =>
    obtain ⟨adapter, none⟩ := stage
    simp only at resumed
    split at resumed
    · obtain ⟨rfl, rfl⟩ := Prod.mk.inj (Option.some.inj resumed)
      exact h.fails progress (by simp [Live, adapter, none])
    · split at resumed <;> obtain ⟨rfl, rfl⟩ := Prod.mk.inj (Option.some.inj resumed)
      · refine h.opens progress ?_ ?_ ?_ ?_ ⟨?_, ?_⟩
        · rfl
        · exact ended
        · simp
        · exact listens
        · rw [setOpened_own]
        · rw [setOpened_own]
          simp only
          split <;> simp
      · next noDriver =>
        have direct : (p.opens o).config.tunnels = false :=
          (driver tunnel presented ok rfl rfl).resolve_left noDriver
        refine h.failsWith progress ?_ ?_ ?_ ?_ ?_
        · rfl
        · exact ended
        · exact unswept
        · exact listens
        · simp [Live, adapter, direct]
  · next presented ok =>
    obtain ⟨adapter, tunnel⟩ := stage
    simp only at resumed
    split at resumed
    · split at resumed
      · split at resumed <;> obtain ⟨rfl, rfl⟩ := Prod.mk.inj (Option.some.inj resumed)
        · exact h.goesOn progress ⟨adapter, tunnel⟩
        · exact h.finishes progress adapter tunnel
      · obtain ⟨rfl, rfl⟩ := Prod.mk.inj (Option.some.inj resumed)
        exact h.finishes progress adapter tunnel
    · obtain ⟨rfl, rfl⟩ := Prod.mk.inj (Option.some.inj resumed)
      refine h.opens progress ?_ ?_ ?_ ?_ ⟨?_, ?_⟩
      · rfl
      · exact ended
      · simp
      · exact listens
      · rw [setOpened_own]
      · rw [setOpened_own]
        exact tunnel
  · obtain ⟨rfl, rfl⟩ := Prod.mk.inj (Option.some.inj resumed)
    obtain ⟨adapter, tunnel⟩ := stage
    refine h.failsWith progress ?_ ?_ ?_ ?_ ?_
    · rfl
    · exact ended
    · exact unswept
    · exact listens
    · rcases tunnel with none | live
      · simp [Live, adapter, none]
      · simp [Live, adapter, live]
  · next hostKey ok =>
    cases found : (if ok then p.rows (p.opens o).key.id else none) with
    | some row =>
      simp only [found] at resumed
      split at resumed <;> obtain ⟨rfl, rfl⟩ := Prod.mk.inj (Option.some.inj resumed)
      · exact h.goesOn progress stage
      · exact h.goesOn progress stage
    | none =>
      simp only [found] at resumed
      obtain ⟨rfl, rfl⟩ := Prod.mk.inj (Option.some.inj resumed)
      exact h.goesOn progress stage
  · next hostKey read ok =>
    obtain ⟨rfl, rfl⟩ := Prod.mk.inj (Option.some.inj resumed)
    cases ok with
    | false => exact h.goesOn progress stage
    | true =>
      have aside : Aside p (p.pin (p.opens o).key.id read hostKey) := ⟨rfl, rfl, rfl, rfl, rfl⟩
      refine h.besides aside (fun n same => ?_) fun o' own => ⟨_, rfl, own⟩
      obtain rfl := Option.some.inj same
      exact knowsUse_of_opening ⟨progress.pending, progress.noEntry⟩ stage
  · obtain ⟨rfl, rfl⟩ := Prod.mk.inj (Option.some.inj resumed)
    exact h.finishes progress stage.1 stage.2
  · cases resumed

/-- Would a call that is about to create its adapter do so behind a tunnel? -/
def tunnelled (p : Pool) : PoolTask → Bool
  | .opening o _ .tunnelling => (p.opens o).config.tunnels
  | _ => false

/-- No tunnel is opened for an engine that has no driver; a sweep finds no operation on an adapter
that was handed out longer ago than it allows; and a tunnel drops when the pool listens for it. -/
def MeetsUse (w : Tasks Pool PoolTask) : TaskEvent PoolRequest PoolAnswer Happens → Prop
  | .go t (.dialled _ _ driver) =>
    ∀ task ∈ w.running t, driver = true ∨ w.shared.tunnelled task = false
  | .world (.sweep poolIdleMs) =>
    ∀ e ∈ w.shared.entries, w.shared.idle poolIdleMs e = true →
      ∀ t task, w.running t = some task → task.on ≠ some e.opened
  | .world (.drop o) => (w.shared.opens o).listens = true
  | _ => True

theorem aside_save (p : Pool) (id : ℕ) (input : ConnectionInput) : Aside p (p.save id input) :=
  ⟨rfl, rfl, rfl, rfl, rfl⟩

theorem aside_invoke (p : Pool) (o : ℕ) (call : Call) (method : Method) (has : Bool) :
    Aside p (p.invoke o call method has) := by
  rcases invoke_cases p o call method has with same | ⟨_, reached⟩
  · rw [same]
    exact ⟨rfl, rfl, rfl, rfl, rfl⟩
  · rw [reached]
    exact ⟨rfl, rfl, rfl, rfl, rfl⟩

theorem Tidy.resume (h : p.Tidy) {task : PoolTask} {answer : PoolAnswer}
    (knows : p.KnowsUse task)
    (driver : ∀ tunnel presented ok, answer = .dialled tunnel presented ok →
      ok = true ∨ p.tunnelled task = false)
    {next : Option PoolTask} (resumed : p.resume task answer = some (p', next)) :
    LedUse task.name p p' next := by
  have waits : ∀ {next : Option PoolTask}, (∀ n, next = some n → p.KnowsUse n) →
      LedUse none p p next := fun knows => h.waits knows (by simp)
  unfold Pool.resume at resumed
  split at resumed
  · next id database ok =>
    obtain ⟨rfl, rfl⟩ := Prod.mk.inj (Option.some.inj resumed)
    refine waits fun n same => ?_
    obtain ⟨config, _, rfl⟩ := Option.map_eq_some_iff.mp same
    exact .other rfl rfl
  · next call database config setting =>
    obtain ⟨rfl, rfl⟩ := Prod.mk.inj (Option.some.inj resumed)
    exact h.look call database config setting
  · next o call ok =>
    obtain ⟨done, _, same⟩ := Option.map_eq_some_iff.mp resumed
    obtain ⟨rfl, rfl⟩ := Prod.mk.inj same
    refine waits fun n is => ?_
    cases done with
    | false => simp at is
    | true =>
      obtain rfl := Option.some.inj is
      obtain ⟨lt, adapter⟩ := knows.on o rfl
      exact knowsUse_of_running lt adapter
  · next o call at_ =>
    obtain ⟨progress, stage⟩ := knows.opening o call at_ rfl
    refine h.open_ progress stage (fun tunnel presented ok is begun => ?_) resumed
    subst begun
    exact driver tunnel presented ok is
  · next o call dropped method has =>
    obtain ⟨rfl, rfl⟩ := Prod.mk.inj (Option.some.inj resumed)
    have aside := aside_invoke p o call method has
    refine h.besides aside (fun n same => ?_) (by simp [PoolTask.name])
    obtain rfl := Option.some.inj same
    exact knows.stays aside.unswept.started (fun o _ => aside.unswept.adapter o) fun o _ =>
      aside.leaves o
  · obtain ⟨rfl, rfl⟩ := Prod.mk.inj (Option.some.inj resumed)
    exact waits (by simp)
  · next id input ok =>
    split at resumed <;> obtain ⟨rfl, rfl⟩ := Prod.mk.inj (Option.some.inj resumed)
    · refine h.besides (aside_save p id input) (fun n same => ?_) (by simp [PoolTask.name])
      obtain rfl := Option.some.inj same
      exact .other rfl rfl
    · exact waits (by simp)
  · obtain ⟨rfl, rfl⟩ := Prod.mk.inj (Option.some.inj resumed)
    refine waits fun n same => ?_
    obtain rfl := Option.some.inj same
    exact .other rfl rfl
  · next id opening ok =>
    split at resumed
    · obtain ⟨rfl, rfl⟩ := Prod.mk.inj (Option.some.inj resumed)
      exact ⟨h.closeEntries _ _, unswept_closeEntries _ (by simp),
        fun o _ => leaves_closeEntries h _ _ o, by simp, by simp [PoolTask.name]⟩
    · cases resumed
  · cases resumed

/-- The pool after a tunnel that it listens for has dropped. -/
def afterDrop (p : Pool) (o : ℕ) : Pool :=
  (p.setOpened o { p.opens o with tunnel := .dropped }).closeEntries
    (fun e => e.key = (p.opens o).key && e.opened = o) .drop

section Drop

variable {o : ℕ}

theorem afterDrop_other {o' : ℕ} (ne : o' ≠ o) : (p.afterDrop o).opens o' = p.opens o' := by
  refine (closeEntries_same fun e _ same => ?_).trans (setOpened_other ne)
  simp [same, ne]

/-- The entry whose tunnel has dropped leaves the pool. -/
theorem mem_afterDrop {e : Entry} :
    e ∈ (p.afterDrop o).entries ↔ e ∈ p.entries ∧ (e.key = (p.opens o).key → e.opened ≠ o) := by
  simp [afterDrop, Pool.closeEntries, imp_iff_not_or]

theorem afterDrop_own : ((p.afterDrop o).opens o).tunnel = .dropped ∧
    ((p.afterDrop o).opens o).ended = (p.opens o).ended ∧
      ((p.afterDrop o).opens o = { p.opens o with tunnel := .dropped } ∨
        ((p.afterDrop o).opens o).adapter = .closed .drop) := by
  rw [afterDrop, closeEntries_opens]
  split <;> simp

theorem Tidy.not_mem_afterDrop (h : p.Tidy) {e : Entry} (mem : e ∈ (p.afterDrop o).entries) :
    e.opened ≠ o := by
  obtain ⟨entry, apart⟩ := mem_afterDrop.mp mem
  intro same
  exact apart (by rw [← same, (h.entries e entry).2.1]) same

theorem Tidy.afterDrop_dead (h : p.Tidy) {e : Entry} (entry : e ∈ p.entries) (same : e.opened = o) :
    ((p.afterDrop o).opens o).adapter = .closed .drop := by
  have gone : o ∈ (p.entries.filter fun e => e.key = (p.opens o).key && e.opened = o).map
      (·.opened) := by
    refine mem_gone.mpr ⟨e, entry, ?_, same⟩
    simp [same, ← (h.entries e entry).2.1]
  rw [afterDrop, closeEntries_opens, setOpened_entries, if_pos gone]

theorem closing_afterDrop : (p.afterDrop o).closing = p.closing := by
  have none : ∀ l : List ℕ, (∀ o' ∈ l, o' = o) → (l.filter fun o' =>
      ((p.setOpened o { p.opens o with tunnel := .dropped }).opens o').tunnel = .live) = [] := by
    intro l all
    refine List.filter_eq_nil_iff.mpr fun o' mem => ?_
    obtain rfl := all o' mem
    simp
  refine (congrArg (p.closing ++ ·) (none _ fun o' mem => ?_)).trans (List.append_nil _)
  obtain ⟨e, _, its, rfl⟩ := mem_gone.mp mem
  simp only [Bool.and_eq_true, decide_eq_true_eq] at its
  exact its.2

/-- A tunnel drops that the pool listens for. -/
theorem Tidy.afterDrop (h : p.Tidy) (listens : (p.opens o).listens = true) :
    (p.afterDrop o).Tidy := by
  refine h.less rfl rfl (fun e mem => (mem_afterDrop.mp mem).1)
    (fun e mem => afterDrop_other (h.not_mem_afterDrop mem)) (fun q mem => afterDrop_other ?_)
    (fun o' => ?_) (fun o' mem => ?_)
  · rintro rfl
    rw [(h.pending q mem).2.2.2.2] at listens
    cases listens
  · by_cases same : o' = o
    · rw [same]
      exact afterDrop_own.2.1
    · rw [afterDrop_other same]
  · rw [closing_afterDrop] at mem
    refine ⟨?_, .inl mem⟩
    by_cases same : o' = o
    · subst same
      rcases afterDrop_own.2.2 with is | dead
      · rw [is]
        exact (h.closing o' mem).2.2.1
      · simp [dead]
    · rw [afterDrop_other same]
      exact (h.closing o' mem).2.2.1

theorem unswept_afterDrop : Unswept p (p.afterDrop o) where
  started := Nat.le_refl _
  adapter o' _ swept := by
    by_cases same : o' = o
    · subst same
      rcases afterDrop_own.2.2 with is | dead
      · rwa [is] at swept
      · simp [dead] at swept
    · rwa [afterDrop_other same] at swept

theorem leaves_afterDrop (h : p.Tidy) (live : (p.opens o).tunnel = .live)
    (listens : (p.opens o).listens = true) (o' : ℕ) : Leaves o' p (p.afterDrop o) where
  live is := by
    by_cases same : o' = o
    · exact .inr (same ▸ live)
    · rwa [Live, afterDrop_other same] at is
  kept kept is := by
    rcases kept with ⟨e, entry, rfl⟩ | closing
    · by_cases same : e.opened = o
      · have dead := h.afterDrop_dead entry same
        rw [Live, same, dead, afterDrop_own.1] at is
        simp at is
      · exact .inl ⟨e, mem_afterDrop.mpr ⟨entry, fun _ => same⟩, rfl⟩
    · right
      rw [closing_afterDrop]
      exact closing
  pending q mem same := by
    have ne : o' ≠ o := by
      rintro rfl
      rw [← same, (h.pending q mem).2.2.2.2] at listens
      cases listens
    exact ⟨mem, afterDrop_other ne, fun e entry => .inl ⟨e, (mem_afterDrop.mp entry).1, rfl⟩⟩

end Drop

section TunnelClosed

variable {o : ℕ}

/-- The tunnel of an entry that left the pool is closed. -/
def afterClosed (p : Pool) (o : ℕ) : Pool :=
  { p.closeTunnel o with closing := p.closing.filter (· ≠ o) }

theorem afterClosed_other {o' : ℕ} (ne : o' ≠ o) : (p.afterClosed o).opens o' = p.opens o' :=
  setOpened_other ne

theorem afterClosed_own : (p.afterClosed o).opens o =
    { p.opens o with tunnel := if (p.opens o).tunnel = .live then .closed else (p.opens o).tunnel } :=
  setOpened_own _ _

theorem Tidy.afterClosed (h : p.Tidy) (closing : o ∈ p.closing) : (p.afterClosed o).Tidy := by
  obtain ⟨_, _, dead, apart⟩ := h.closing o closing
  refine h.less rfl rfl (fun e mem => mem) (fun e mem => afterClosed_other (apart e mem))
    (fun q mem => afterClosed_other ?_) (fun o' => ?_) (fun o' mem => ?_)
  · rintro rfl
    exact h.not_closing mem closing
  · by_cases same : o' = o
    · rw [same, afterClosed_own]
    · rw [afterClosed_other same]
  · obtain ⟨was, ne⟩ := List.mem_filter.mp mem
    rw [afterClosed_other (by simpa using ne)]
    exact ⟨(h.closing o' was).2.2.1, .inl was⟩

theorem unswept_afterClosed : Unswept p (p.afterClosed o) where
  started := Nat.le_refl _
  adapter o' _ swept := by
    by_cases same : o' = o
    · rw [same, afterClosed_own] at swept
      exact same ▸ swept
    · rwa [afterClosed_other same] at swept

theorem leaves_afterClosed (h : p.Tidy) (closing : o ∈ p.closing) (o' : ℕ) :
    Leaves o' p (p.afterClosed o) := by
  by_cases same : o' = o
  · subst same
    have dead := (h.closing o' closing).2.2.1
    have shut : ¬ (p.afterClosed o').Live o' := by
      rw [Live, afterClosed_own]
      simp only [dead, false_or]
      split <;> simp_all
    refine ⟨fun live => absurd live shut, fun _ live => absurd live shut, fun q mem same => ?_⟩
    subst same
    exact absurd closing (h.not_closing mem)
  · refine ⟨fun live => ?_, fun kept _ => ?_, fun q mem _ => ⟨mem, afterClosed_other same, ?_⟩⟩
    · rwa [Live, afterClosed_other same] at live
    · exact kept.imp_right fun closing => List.mem_filter.mpr ⟨closing, by simpa using same⟩
    · exact fun e entry => .inl ⟨e, entry, rfl⟩

end TunnelClosed

/-- What happens to the pool besides its calls and its sweep. -/
theorem Tidy.world (h : p.Tidy) {e : Happens} (listens : ∀ o, e = .drop o →
    (p.opens o).listens = true) (noSweep : ∀ poolIdleMs, e ≠ .sweep poolIdleMs)
    (moved : p.world e = some p') : p'.Tidy ∧ Unswept p p' ∧ ∀ o, Leaves o p p' := by
  have aside : Aside p p' → p'.Tidy ∧ Unswept p p' ∧ ∀ o, Leaves o p p' :=
    fun aside => ⟨h.aside aside, aside.unswept, aside.leaves⟩
  cases e with
  | tick ms =>
    obtain rfl := Option.some.inj moved
    exact aside ⟨rfl, rfl, rfl, rfl, rfl⟩
  | sweep poolIdleMs => exact absurd rfl (noSweep poolIdleMs)
  | drop o =>
    have listens := listens o rfl
    simp only [Pool.world] at moved
    split at moved
    · next live =>
      obtain rfl := Option.some.inj moved
      exact ⟨h.afterDrop listens, unswept_afterDrop, leaves_afterDrop h live listens⟩
    · cases moved
  | tunnelClosed o =>
    simp only [Pool.world] at moved
    split at moved
    · next closing =>
      obtain rfl := Option.some.inj moved
      exact ⟨h.afterClosed closing, unswept_afterClosed, leaves_afterClosed h closing⟩
    · cases moved
  | create id input =>
    simp only [Pool.world] at moved
    split at moved
    · obtain rfl := Option.some.inj moved
      exact aside (aside_save p id input)
    · cases moved
  | delete id =>
    obtain rfl := Option.some.inj moved
    exact aside ⟨rfl, rfl, rfl, rfl, rfl⟩

end Pool

/-!
## Runs

What every task system of this kind does about its running calls is proved for all of them
(`TaskSystem`); here it is given the pool's numbers, and what is left is read off the invariant.
-/

/-- **The pool neither leaks nor closes what is in use.** -/
structure Minded (w : Tasks Pool PoolTask) : Prop where
  /-- the sweep has closed no adapter that an operation is on -/
  inUse : ∀ t task o, w.running t = some task → task.on = some o →
    (w.shared.opens o).adapter ≠ .closed .sweep
  /-- with no open under way and nothing being closed, what is open is in the pool -/
  kept : w.shared.closing = [] → (∀ t task, w.running t = some task → task.name = none) →
    ∀ o, w.shared.Live o → ∃ e ∈ w.shared.entries, e.opened = o
  /-- no entry was handed out whose tunnel had dropped -/
  handed : ∀ t o call dropped, w.running t = some (.running o call dropped) → dropped = false

/-- An open starts no other, and goes on under its own number. -/
theorem Pool.open_started {p p' : Pool} {o : ℕ} {call : Call} {at_ : Opening}
    {answer : PoolAnswer} {next : Option PoolTask}
    (resumed : p.open_ o call at_ answer = some (p', next)) :
    p'.started = p.started ∧ ∀ n, next = some n → ∀ k, n.name = some k → k = o := by
  have own : ∀ at' : Opening, ∀ n, some (PoolTask.opening o call at') = some n →
      ∀ k, n.name = some k → k = o := by
    intro at' n same k named
    obtain rfl := Option.some.inj same
    exact (Option.some.inj named).symm
  have run : ∀ n, some (PoolTask.running o call false) = some n → ∀ k, n.name = some k → k = o := by
    intro n same k named
    obtain rfl := Option.some.inj same
    cases named
  unfold Pool.open_ at resumed
  simp only at resumed
  repeat' split at resumed
  all_goals first
    | obtain ⟨rfl, rfl⟩ := Prod.mk.inj (Option.some.inj resumed)
      first
        | exact ⟨rfl, own _⟩
        | exact ⟨rfl, run⟩
        | exact ⟨rfl, by simp⟩
    | cases resumed

theorem Pool.world_started {p p' : Pool} {e : Pool.Happens} (moved : p.world e = some p') :
    p'.started = p.started := by
  cases e with
  | tick ms | sweep poolIdleMs | delete id =>
    obtain rfl := Option.some.inj moved
    rfl
  | drop o | tunnelClosed o | create id input =>
    simp only [Pool.world] at moved
    repeat' split at moved
    all_goals first
      | obtain rfl := Option.some.inj moved
        rfl
      | cases moved

theorem poolSystem_draws : poolSystem.DrawsNames PoolTask.name Pool.started where
  init request := by cases request <;> rfl
  resume := by
    intro p task answer p' next resumed
    have nobody : ∀ {n : PoolTask} {k s : ℕ}, n.name = none → n.name = some k →
        task.name = some k ∨ p.started ≤ k ∧ k < s := by
      intro n k s none some
      simp [none] at some
    simp only [poolSystem, Pool.resume] at resumed
    split at resumed
    · obtain ⟨rfl, rfl⟩ := Prod.mk.inj (Option.some.inj resumed)
      refine ⟨Nat.le_refl _, fun n same k named => nobody ?_ named⟩
      obtain ⟨_, _, rfl⟩ := Option.map_eq_some_iff.mp same
      rfl
    · next call database config setting =>
      obtain ⟨rfl, rfl⟩ := Prod.mk.inj (Option.some.inj resumed)
      unfold Pool.look
      simp only
      split
      · exact ⟨Nat.le_refl _, fun n same k named => nobody (Option.some.inj same ▸ rfl) named⟩
      · split
        · exact ⟨Nat.le_refl _, fun n same k named => nobody (Option.some.inj same ▸ rfl) named⟩
        · refine ⟨Nat.le_succ _, fun n same k named => .inr ?_⟩
          obtain rfl := Option.some.inj same
          obtain rfl := Option.some.inj named
          exact ⟨Nat.le_refl _, Nat.lt_succ_self _⟩
    · obtain ⟨done, _, same⟩ := Option.map_eq_some_iff.mp resumed
      obtain ⟨rfl, rfl⟩ := Prod.mk.inj same
      refine ⟨Nat.le_refl _, fun n is k named => nobody ?_ named⟩
      cases done with
      | false => simp at is
      | true => exact Option.some.inj is ▸ rfl
    · obtain ⟨started, names⟩ := Pool.open_started resumed
      refine ⟨Nat.le_of_eq started.symm, fun n same k named => .inl ?_⟩
      exact congrArg some (names n same k named).symm
    · next o call dropped method has =>
      obtain ⟨rfl, rfl⟩ := Prod.mk.inj (Option.some.inj resumed)
      refine ⟨Nat.le_of_eq (Pool.aside_invoke p o call method has).started.symm, ?_⟩
      exact fun n same k named => nobody (Option.some.inj same ▸ rfl) named
    · obtain ⟨rfl, rfl⟩ := Prod.mk.inj (Option.some.inj resumed)
      exact ⟨Nat.le_refl _, by simp⟩
    · split at resumed <;> obtain ⟨rfl, rfl⟩ := Prod.mk.inj (Option.some.inj resumed)
      · exact ⟨Nat.le_refl _, fun n same k named => nobody (Option.some.inj same ▸ rfl) named⟩
      · exact ⟨Nat.le_refl _, by simp⟩
    · obtain ⟨rfl, rfl⟩ := Prod.mk.inj (Option.some.inj resumed)
      exact ⟨Nat.le_refl _, fun n same k named => nobody (Option.some.inj same ▸ rfl) named⟩
    · split at resumed
      · obtain ⟨rfl, rfl⟩ := Prod.mk.inj (Option.some.inj resumed)
        exact ⟨Nat.le_refl _, by simp⟩
      · cases resumed
    · cases resumed
  world moved := Nat.le_of_eq (Pool.world_started moved).symm

theorem poolSystem_keepsUse :
    poolSystem.Keeps
      (fun w e => Pool.MeetsUse w e ∧ NamesApart PoolTask.name Pool.started w)
      Pool.Tidy Pool.KnowsUse where
  begins {_ _ request} _ _ := by cases request <;> exact .other rfl rfl
  goes {w t answer task s next} allowed holds running resumed := by
    have led := holds.shared.resume (holds.tasks t task running) ?_ resumed
    · exact ⟨led.tidy, led.knows⟩
    · rintro tunnel presented ok rfl
      exact allowed.1 task running
  stays {w t answer task s next u other} allowed holds running resumed another hu := by
    have led := holds.shared.resume (holds.tasks t task running) ?_ resumed
    · refine (holds.tasks u other hu).stays led.unswept.started (fun o _ => led.unswept.adapter o)
        fun o named => led.leaves o fun same => ?_
      exact allowed.2.apart another hu running named same
    · rintro tunnel presented ok rfl
      exact allowed.1 task running
  world {w e s} allowed holds moved := by
    by_cases sweep : ∃ poolIdleMs, e = .sweep poolIdleMs
    · obtain ⟨poolIdleMs, rfl⟩ := sweep
      obtain rfl := Option.some.inj moved
      refine ⟨holds.shared.closeEntries _ _, fun t task running => ?_⟩
      refine (holds.tasks t task running).stays (Nat.le_refl _) (fun o on _ swept => ?_)
        fun o _ => Pool.leaves_closeEntries holds.shared _ _ o
      rw [Pool.closeEntries_same] at swept
      · exact swept
      · rintro e entry rfl
        by_contra idle
        exact allowed.1 e entry (by simpa using idle) t task running on
    · have listens : ∀ o, e = .drop o → (w.shared.opens o).listens = true := by
        rintro o rfl
        exact allowed.1
      obtain ⟨tidy, unswept, leaves⟩ := holds.shared.world listens
        (fun poolIdleMs is => sweep ⟨poolIdleMs, is⟩) moved
      refine ⟨tidy, fun t task running => ?_⟩
      exact (holds.tasks t task running).stays unswept.started (fun o _ => unswept.adapter o)
        fun o _ => leaves o

theorem poolSystem_accounts (o : ℕ) :
    poolSystem.Accounts
      (fun w e => (Pool.MeetsUse w e ∧ NamesApart PoolTask.name Pool.started w) ∧
        Holds Pool.Tidy Pool.KnowsUse w)
      (Pool.Live · o) (Pool.Kept · o) (·.name = some o) where
  goes {w t answer task s next} allowed running resumed live := by
    have led := allowed.2.shared.resume (allowed.2.tasks t task running) ?_ resumed
    · by_cases own : task.name = some o
      · exact (led.held o own live).imp_right .inl
      · have leaves := led.leaves o own
        by_cases kept : w.shared.Kept o
        · exact .inl (leaves.kept kept live)
        · exact .inr (.inr ⟨leaves.live live, kept, own⟩)
    · rintro tunnel presented ok rfl
      exact allowed.1.1 task running
  world {w e s} allowed moved live := by
    have leaves : Pool.Leaves o w.shared s := by
      by_cases sweep : ∃ poolIdleMs, e = .sweep poolIdleMs
      · obtain ⟨poolIdleMs, rfl⟩ := sweep
        obtain rfl := Option.some.inj moved
        exact Pool.leaves_closeEntries allowed.2.shared _ _ o
      · have listens : ∀ o, e = .drop o → (w.shared.opens o).listens = true := by
          rintro o rfl
          exact allowed.1.1
        exact (allowed.2.shared.world listens (fun poolIdleMs is => sweep ⟨poolIdleMs, is⟩)
          moved).2.2 o
    by_cases kept : w.shared.Kept o
    · exact .inl (leaves.kept kept live)
    · exact .inr ⟨leaves.live live, kept⟩

theorem tidy_empty : Pool.empty.Tidy where
  pending q mem := by simp [Pool.empty] at mem
  onePending q mem := by simp [Pool.empty] at mem
  entries e mem := by simp [Pool.empty] at mem
  distinct e mem := by simp [Pool.empty] at mem
  closing o mem := by simp [Pool.empty] at mem

theorem minded_of_meetsUse {es : List (TaskEvent PoolRequest PoolAnswer Pool.Happens)}
    {w : Tasks Pool PoolTask}
    (run : Run poolSystem.step Pool.MeetsUse (Tasks.idle .empty) es w) : Minded w := by
  have named := poolSystem_draws.run run
  have start : Holds Pool.Tidy Pool.KnowsUse (Tasks.idle .empty) := .idle tidy_empty
  have holds := poolSystem_keepsUse.run named start
  refine ⟨fun t task o running on => ((holds.tasks t task running).on o on).2,
    fun closed settled o live => ?_, fun t o call dropped running => ?_⟩
  · have accounted := (poolSystem_accounts o).run (poolSystem_keepsUse.also named start)
      (by simp [Accounted, Tasks.idle, Pool.Live, Pool.empty, notOpened])
    rcases accounted live with (kept | closing) | ⟨t, task, running, own⟩
    · exact kept
    · simp [closed] at closing
    · rw [settled t task running] at own
      cases own
  · exact (holds.tasks t _ running).dropped o call dropped rfl

/-- A sweep closes the adapter of an operation that was handed it longer ago than it allows. A
tunnel drops while the jump host's key is being pinned: its entry is set, and handed out. And a
tunnel is opened for an engine that has no driver, and stays. -/
theorem pool_forgets :
    (∃ w, Run poolSystem.step anyStep (Tasks.idle .empty)
        [.world (.create 1 (connection false none)), .begin 0 (.withAdapter 1 ""),
          .go 0 (.did true), .go 0 (.looks 5000), .go 0 (.dialled true none true), .go 0 (.did true),
          .world (.tick 700000), .world (.sweep 600000)] w ∧
      ¬ Minded w) ∧
    (∃ w, Run poolSystem.step anyStep (Tasks.idle .empty)
        [.world (.create 1 (connection false (some unpinned))), .begin 0 (.withAdapter 1 ""),
          .go 0 (.did true), .go 0 (.looks 5000), .go 0 (.dialled true (some "SHA256:k") true),
          .go 0 (.did true), .world (.drop 0), .go 0 (.did true), .go 0 (.did true),
          .go 0 (.did true), .begin 1 (.withAdapter 1 ""), .go 1 (.did true), .go 1 (.looks 5000)] w ∧
      ¬ Minded w) ∧
    ∃ w, Run poolSystem.step anyStep (Tasks.idle .empty)
        [.world (.create 1 (connection false (some unpinned))), .begin 0 (.withAdapter 1 ""),
          .go 0 (.did true), .go 0 (.looks 5000),
          .go 0 (.dialled true (some "SHA256:k") false)] w ∧
      ¬ Minded w := by
  refine ⟨⟨_, run_of_eval rfl, fun minded => ?_⟩, ⟨_, run_of_eval rfl, fun minded => ?_⟩,
    ⟨_, run_of_eval rfl, fun minded => ?_⟩⟩
  · exact minded.inUse 0 _ 0 rfl rfl rfl
  · exact absurd (minded.handed 1 0 { id := 1, begun := 1 } true rfl) (by simp)
  · have leaked := minded.kept rfl ?_ 0 (.inr rfl)
    · obtain ⟨e, mem, _⟩ := leaked
      exact (List.not_mem_nil mem).elim
    · intro t task running
      simp [Tasks.put, Tasks.idle] at running

/-- An adapter is opened behind a tunnel, used and swept; another is opened, and its tunnel drops. -/
theorem opened_swept_dropped :
    ∃ w, Run poolSystem.step Pool.MeetsUse (Tasks.idle .empty)
        [.world (.create 1 (connection false (some unpinned))), .begin 0 (.withAdapter 1 ""),
          .go 0 (.did true), .go 0 (.looks 5000), .go 0 (.dialled true (some "SHA256:k") true),
          .go 0 (.did true), .go 0 (.did true), .go 0 (.did true), .go 0 (.did true),
          .go 0 .over, .world (.tick 700000), .world (.sweep 600000), .world (.tunnelClosed 0), .begin 1 (.withAdapter 1 ""),
          .go 1 (.did true), .go 1 (.looks 5000), .go 1 (.dialled true (some "SHA256:k") true),
          .go 1 (.did true), .world (.drop 1)] w ∧
      Minded w := by
  have run : ∃ w, Run poolSystem.step Pool.MeetsUse (Tasks.idle .empty)
      [.world (.create 1 (connection false (some unpinned))), .begin 0 (.withAdapter 1 ""),
        .go 0 (.did true), .go 0 (.looks 5000), .go 0 (.dialled true (some "SHA256:k") true),
        .go 0 (.did true), .go 0 (.did true), .go 0 (.did true), .go 0 (.did true),
        .go 0 .over, .world (.tick 700000), .world (.sweep 600000), .world (.tunnelClosed 0), .begin 1 (.withAdapter 1 ""),
        .go 1 (.did true), .go 1 (.looks 5000), .go 1 (.dialled true (some "SHA256:k") true),
        .go 1 (.did true), .world (.drop 1)] w := by
    refine ⟨_, .cons trivial rfl <| .cons trivial rfl <| .cons trivial rfl <| .cons trivial rfl <|
      .cons (fun _ _ => .inl rfl) rfl <| .cons trivial rfl <| .cons trivial rfl <|
      .cons trivial rfl <| .cons trivial rfl <| .cons trivial rfl <|
      .cons trivial rfl <| .cons ?nobody rfl <| .cons trivial rfl <|
      .cons trivial rfl <| .cons trivial rfl <| .cons trivial rfl <|
      .cons (fun _ _ => .inl rfl) rfl <| .cons trivial rfl <| .cons rfl rfl <| .nil _⟩
    case nobody =>
      intro e mem idle t task running
      simp [Tasks.put, Tasks.idle] at running
  obtain ⟨w, run⟩ := run
  exact ⟨w, run, minded_of_meetsUse run⟩

end Syncle.Adapters
