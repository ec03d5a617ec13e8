import Syncle.Records.Retention

/-!
# What a sweep does to one job

Deliveries go in the order of their sequences, as many as the budget allows (`deleteWhere_spec`),
and the job's record of what is gone keeps up with them (`Trims`).
-/

namespace Syncle.Records

open Lib

variable {B : Type*}

namespace StoredJob

/-- The totals are right, and what was removed lies below the boundary. -/
structure Accounted (job : StoredJob B) : Prop where
  total : job.prunedDeliveries + job.row.deliveries.size = job.recorded
  below : ∀ s ∈ job.removed, ∃ p, job.prunedBelowSequence = some p ∧ s < p

/-- The boundary only ever moves up. -/
def Rises (job job' : StoredJob B) : Prop :=
  ∀ p, job.prunedBelowSequence = some p → ∃ p', job'.prunedBelowSequence = some p' ∧ p ≤ p'

/-- Deliveries are taken out of a job and nothing else. -/
structure Trims (job job' : StoredJob B) : Prop where
  accounted : job.Accounted → job'.Accounted
  rises : job.Rises job'

variable {job job' job'' : StoredJob B} {p : Int → BridgeDelivery → Bool}

theorem Rises.refl : job.Rises job := fun p h => ⟨p, h, le_refl p⟩

theorem Rises.trans (h : job.Rises job') (h' : job'.Rises job'') : job.Rises job'' := by
  intro p hp
  obtain ⟨q, hq, le⟩ := h p hp
  obtain ⟨r, hr, le'⟩ := h' q hq
  exact ⟨r, hr, le.trans le'⟩

theorem Trims.refl : job.Trims job := ⟨id, Rises.refl⟩

theorem Trims.trans (h : job.Trims job') (h' : job'.Trims job'') : job.Trims job'' :=
  ⟨fun accounted => h'.accounted (h.accounted accounted), h.rises.trans h'.rises⟩

/-! ## One batch -/

theorem mem_matching {s : Int} (h : s ∈ job.matching p) : s ∈ job.row.deliveries.keys := by
  obtain ⟨e, he, rfl⟩ := List.mem_map.mp (mem_inOrder.mp h)
  exact List.mem_map_of_mem (List.mem_of_mem_filter he)

theorem nodup_matching : (job.matching p).Nodup := by
  have sub : ((job.row.deliveries.entries.filter fun e => p e.1 e.2).map Prod.fst).Nodup :=
    job.row.deliveries.nodup_keys.sublist (List.filter_sublist.map _)
  exact (List.perm_insertionSort _ _).nodup_iff.mpr sub

theorem sorted_matching : (job.matching p).Pairwise fun a b => a ≤ b :=
  pairwise_inOrder ((job.row.deliveries.entries.filter fun e => p e.1 e.2).map Prod.fst)

theorem length_matching_le : (job.matching p).length ≤ job.row.deliveries.size := by
  have sorted : (job.matching p).length =
      ((job.row.deliveries.entries.filter fun e => p e.1 e.2).map Prod.fst).length :=
    (List.perm_insertionSort _ _).length_eq
  rw [sorted, List.length_map]
  exact List.length_filter_le _ _

/-- When a batch has gone, the rest of the matching deliveries still match. -/
theorem matching_deleteBatch (batch : List Int) :
    (job.deleteBatch batch).matching p = (job.matching p).filter fun s => s ∉ batch := by
  have distinct : (((job.row.deliveries.entries.filter fun e => p e.1 e.2).map Prod.fst).map
      id).Nodup := by
    rw [List.map_id]
    exact job.row.deliveries.nodup_keys.sublist (List.filter_sublist.map _)
  unfold matching
  rw [← inOrder_filter distinct, List.filter_map, List.filter_filter]
  unfold deleteBatch OrderedMap.filter
  simp only
  rw [List.filter_filter]
  refine congrArg _ (congrArg _ (List.filter_congr fun e _ => ?_))
  exact Bool.and_comm _ _

theorem get?_deleteBatch (batch : List Int) (s : Int) :
    (job.deleteBatch batch).row.deliveries.get? s =
      if s ∈ batch then none else job.row.deliveries.get? s := by
  unfold deleteBatch
  simp only
  rw [OrderedMap.get?_filter]
  by_cases gone : s ∈ batch <;> simp [gone]

theorem trims_deleteBatch {batch : List Int} (sub : ∀ s ∈ batch, s ∈ job.row.deliveries.keys)
    (nodup : batch.Nodup) (sorted : batch.Pairwise fun a b => a ≤ b) :
    job.Trims (job.deleteBatch batch) := by
  rcases List.eq_nil_or_concat' batch with rfl | ⟨front, last, rfl⟩
  · refine ⟨fun h => ⟨?_, ?_⟩, Rises.refl⟩
    · simpa [deleteBatch, OrderedMap.filter, OrderedMap.size] using h.total
    · simpa [deleteBatch] using h.below
  have boundary : (job.deleteBatch (front ++ [last])).prunedBelowSequence =
      some (max (job.prunedBelowSequence.getD 0) (last + 1)) := by
    simp [deleteBatch]
  have rises : job.Rises (job.deleteBatch (front ++ [last])) := by
    intro p hp
    rw [boundary, hp]
    exact ⟨_, rfl, le_max_left _ _⟩
  refine ⟨fun h => ⟨?_, ?_⟩, rises⟩
  · have left := length_filter_not_mem (fun e : Int × BridgeDelivery => e.1)
      job.row.deliveries.nodup_keys nodup sub
    have fits : (front ++ [last]).length ≤ job.row.deliveries.keys.length :=
      (List.subperm_of_subset nodup sub).length_le
    have total := h.total
    rw [OrderedMap.length_keys] at fits
    unfold deleteBatch OrderedMap.filter OrderedMap.size
    unfold OrderedMap.size at total fits
    simp only
    rw [left]
    omega
  · intro s hs
    rcases List.mem_append.mp hs with old | new
    · obtain ⟨q, hq, lt⟩ := h.below s old
      obtain ⟨q', hq', le⟩ := rises q hq
      exact ⟨q', hq', lt.trans_le le⟩
    · refine ⟨_, boundary, lt_of_lt_of_le ?_ (le_max_right _ _)⟩
      rcases List.mem_append.mp new with early | final
      · have := (List.pairwise_append.mp sorted).2.2 s early last (by simp)
        omega
      · obtain rfl := List.mem_singleton.mp final
        omega

/-! ## All that match -/

/-- What is spent is what goes: the first matching deliveries, as many as the budget allows. -/
theorem deleteWhere_spec {batches : Nat} {budget : Int} (enough : (job.matching p).length < batches) :
    (deleteWhere p batches job budget).2.toNat = budget.toNat - (job.matching p).length ∧
      (∀ s, (deleteWhere p batches job budget).1.row.deliveries.get? s =
        if s ∈ (job.matching p).take budget.toNat then none else job.row.deliveries.get? s) ∧
      job.Trims (deleteWhere p batches job budget).1 := by
  induction batches generalizing job budget with
  | zero => exact absurd enough (Nat.not_lt_zero _)
  | succ batches ih =>
    unfold deleteWhere
    by_cases spent : budget ≤ 0
    · have zero : budget.toNat = 0 := by omega
      rw [if_pos spent, zero]
      simp only [Nat.zero_sub, List.take_zero, List.not_mem_nil, if_false]
      exact ⟨trivial, fun _ => trivial, Trims.refl⟩
    · rw [if_neg spent]
      simp only
      generalize found : job.matching p = all at enough ⊢
      have nodup : all.Nodup := found ▸ nodup_matching
      have limit : 0 < batchLimit := by decide
      by_cases empty : all.take (min batchLimit budget.toNat) = []
      · have none : all = [] := by
          rcases List.take_eq_nil_iff.mp empty with zero | none
          · omega
          · exact none
        rw [if_pos empty, none]
        simp only [List.length_nil, Nat.sub_zero, List.take_nil, List.not_mem_nil, if_false]
        exact ⟨trivial, fun _ => trivial, Trims.refl⟩
      · rw [if_neg empty]
        generalize batch' : all.take (min batchLimit budget.toNat) = batch at empty ⊢
        have length : batch.length = min (min batchLimit budget.toNat) all.length := by
          rw [← batch', List.length_take]
        have some : 0 < batch.length := List.length_pos_iff.mpr empty
        have first : job.Trims (job.deleteBatch batch) := by
          refine trims_deleteBatch (fun s hs => ?_) ?_ ?_
          · rw [← batch', ← found] at hs
            exact mem_matching (List.mem_of_mem_take hs)
          · rw [← batch']
            exact nodup.sublist (List.take_sublist _ _)
          · rw [← batch', ← found]
            exact sorted_matching.sublist (List.take_sublist _ _)
        split
        case isTrue last =>
          -- a short batch: the deliveries or the budget are at an end
          have whole : all.take budget.toNat = batch := by
            rw [← batch']
            rcases Nat.le_total budget.toNat batchLimit with small | large
            · rw [Nat.min_eq_right small]
            · rw [Nat.min_eq_left large, List.take_of_length_le (by omega),
                List.take_of_length_le (by omega)]
          refine ⟨?_, fun s => ?_, first⟩
          · simp only
            omega
          · rw [whole]
            exact get?_deleteBatch batch s
        case isFalse full =>
          have taken : batch = all.take batchLimit := by
            rw [← batch']
            congr 1
            omega
          have rest : (job.deleteBatch batch).matching p = all.drop batchLimit := by
            rw [matching_deleteBatch, found, taken]
            exact filter_not_mem_take nodup batchLimit
          have left : (budget - max batch.length 1 : Int).toNat = budget.toNat - batchLimit := by
            omega
          have fewer : ((job.deleteBatch batch).matching p).length < batches := by
            rw [rest, List.length_drop]
            omega
          obtain ⟨spent', gone, trims⟩ := @ih (job.deleteBatch batch) (budget - max batch.length 1) fewer
          rw [rest, left] at gone
          rw [rest, left, List.length_drop] at spent'
          refine ⟨by omega, fun s => ?_, first.trans trims⟩
          have both : all.take budget.toNat =
              batch ++ (all.drop batchLimit).take (budget.toNat - batchLimit) := by
            have sum : batchLimit + (budget.toNat - batchLimit) = budget.toNat := by omega
            rw [taken, ← List.take_add, sum]
          rw [gone, get?_deleteBatch, both]
          by_cases early : s ∈ batch <;> simp [early]

end StoredJob

end Syncle.Records
