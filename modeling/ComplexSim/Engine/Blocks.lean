import ComplexSim.Engine.Divisors
import Mathlib.Data.Int.ConditionallyCompleteOrder
import Mathlib.Data.Nat.SuccPred
import Mathlib.Order.CompletePartialOrder
import Mathlib.Order.Interval.Set.Union
import Mathlib.Order.SuccPred.IntervalSucc

/-!
# The blocks of an activity (`_cs_bind_sim_activity` in `src/cs_engine.c`)

The items of an activity are given to its tasks in blocks: from `data[data_index]` to
`data[data_index + offset]`. With at least as many items as workers the blocks follow one another and the
last one takes the remainder. With fewer items the dimension of a block is zero, the remainder is meant for
a task that does not exist, and every block is empty.

An `int` is unbounded: no value that is computed is greater than the number of items, or less than -1.
-/

namespace ComplexSim.Divisors

variable {δ ε : Type*}

/-- `cs_tsk_data_t`. -/
structure CsTskData (δ ε : Type*) where
  data : δ
  dataIndex : Int
  index : Int
  offset : Int
  engine : ε
  totTasks : Int

/-- `n_tasks`. -/
def nTasks (nthreads dataNItems : Int) : Int := if nthreads < dataNItems then nthreads else dataNItems

/-- `tsk_data[i]`, as `_cs_bind_sim_activity` sets it. -/
def tskData (data : δ) (engine : ε) (nthreads dataNItems : Int) (i : Nat) : CsTskData δ ε :=
  let blockDim := dataNItems.tdiv nthreads
  let baseOffset := blockDim - 1
  let res := dataNItems.tmod nthreads
  { data := data
    offset := if (i : Int) < nthreads - 1 then baseOffset else baseOffset + res
    dataIndex := i * blockDim
    index := i
    engine := engine
    totTasks := nTasks nthreads dataNItems }

/-- `tsk_data`. -/
def tskDataArr (data : δ) (engine : ε) (nthreads dataNItems : Int) : List (CsTskData δ ε) :=
  (List.range (nTasks nthreads dataNItems).toNat).map (tskData data engine nthreads dataNItems)

/-- The indices of the items of a block. -/
def CsTskData.items (b : CsTskData δ ε) : Set Int := Set.Icc b.dataIndex (b.dataIndex + b.offset)

/-- The blocks have no item in common, and their items are the first `n`. -/
def Partition (blocks : List (CsTskData δ ε)) (n : Nat) : Prop :=
  blocks.Pairwise (fun b c => Disjoint b.items c.items) ∧ (⋃ b ∈ blocks, b.items) = Set.Ico 0 (n : Int)

section Blocks

variable {data : δ} {engine : ε} {nthreads n i : Nat}

/-- Where block `i` starts, and block `i - 1` ends. -/
def boundary (nthreads n i : Nat) : Int := if i < nthreads then (i * (n / nthreads) : Nat) else (n : Nat)

theorem boundary_mono : Monotone (boundary nthreads n) := by
  intro i j hij
  have hstart : i * (n / nthreads) ≤ j * (n / nthreads) := Nat.mul_le_mul_right _ hij
  have hend : nthreads * (n / nthreads) ≤ n := Nat.mul_div_le n nthreads
  have hbefore : i < nthreads → i * (n / nthreads) ≤ nthreads * (n / nthreads) := fun hi =>
    Nat.mul_le_mul_right _ hi.le
  unfold boundary
  split <;> split <;> omega

theorem tskData_dataIndex (hi : i < nthreads) :
    (tskData data engine nthreads n i).dataIndex = boundary nthreads n i := by
  have hdim : (n : Int).tdiv nthreads = (n / nthreads : Nat) := Int.ofNat_tdiv n nthreads
  simp only [tskData, boundary, if_pos hi, hdim]
  push_cast
  rfl

/-- A block ends where the next one starts; the last one ends with the items. -/
theorem tskData_offset (hi : i < nthreads) :
    (tskData data engine nthreads n i).offset =
      boundary nthreads n (i + 1) - boundary nthreads n i - 1 := by
  have hdim : (n : Int).tdiv nthreads = (n / nthreads : Nat) := Int.ofNat_tdiv n nthreads
  have hres : (n : Int).tmod nthreads = (n % nthreads : Nat) := Int.ofNat_tmod n nthreads
  have hsucc : (i + 1) * (n / nthreads) = i * (n / nthreads) + n / nthreads := Nat.succ_mul i _
  simp only [tskData, hdim, hres, boundary, if_pos hi]
  by_cases hlast : i + 1 < nthreads
  · rw [if_pos (by omega), if_pos hlast]
    omega
  · have hn : nthreads * (n / nthreads) + n % nthreads = n := Nat.div_add_mod n nthreads
    rw [show nthreads = i + 1 by omega] at hn ⊢
    rw [show nthreads = i + 1 by omega] at hsucc
    rw [if_neg (by omega), if_neg (by omega)]
    omega

theorem tskData_items (hi : i < nthreads) :
    (tskData data engine nthreads n i).items = Set.Ico (boundary nthreads n i) (boundary nthreads n (i + 1)) := by
  ext k
  simp only [CsTskData.items, tskData_offset hi, tskData_dataIndex hi, Set.mem_Icc, Set.mem_Ico]
  omega

/-- The blocks of as many tasks as there are workers. -/
theorem partition_of_le (h : 1 ≤ nthreads) (hn : nthreads ≤ n) :
    Partition (tskDataArr data engine nthreads n) n := by
  have htasks : (nTasks nthreads n).toNat = nthreads := by
    unfold nTasks
    split <;> omega
  have hitems : ∀ i ∈ List.range nthreads, (tskData data engine nthreads n i).items =
      Set.Ico (boundary nthreads n i) (boundary nthreads n (i + 1)) := fun i hi =>
    tskData_items (List.mem_range.1 hi)
  unfold Partition tskDataArr
  rw [htasks]
  constructor
  · rw [List.pairwise_map]
    apply List.Nodup.pairwise_of_forall_ne List.nodup_range
    intro i hi j hj hij
    rw [hitems i hi, hitems j hj]
    exact boundary_mono.pairwise_disjoint_on_Ico_succ hij
  · have hends : Set.Ico (boundary nthreads n 0) (boundary nthreads n nthreads) = Set.Ico 0 (n : Int) := by
      simp [boundary, Nat.lt_of_lt_of_le Nat.zero_lt_one h]
    rw [← hends]
    apply Set.Subset.antisymm
    · apply Set.iUnion₂_subset
      intro b hb
      obtain ⟨i, hi, rfl⟩ := List.mem_map.1 hb
      rw [hitems i hi]
      exact Set.Ico_subset_Ico (boundary_mono (Nat.zero_le i)) (boundary_mono (List.mem_range.1 hi))
    · apply (Ico_subset_biUnion_Ico nthreads (boundary nthreads n)).trans
      apply Set.iUnion₂_subset
      intro i hi
      have hmem := List.mem_range.2 (Finset.mem_range.1 hi)
      rw [← hitems i hmem]
      exact Set.subset_biUnion_of_mem (u := CsTskData.items) (List.mem_map_of_mem hmem)

/-- **Fewer items than workers are not processed**: every task has an empty block. -/
theorem items_of_lt (hn : n < nthreads) {b : CsTskData δ ε} (hb : b ∈ tskDataArr data engine nthreads n) :
    b.offset = -1 ∧ b.items = ∅ := by
  obtain ⟨i, hi, rfl⟩ := List.mem_map.1 hb
  have htask := List.mem_range.1 hi
  have hi : i + 1 < nthreads := by
    unfold nTasks at htask
    split at htask <;> omega
  have hempty : boundary nthreads n (i + 1) = boundary nthreads n i := by
    simp [boundary, hi, Nat.lt_of_succ_lt hi, Nat.div_eq_of_lt hn]
  refine ⟨?_, ?_⟩
  · rw [tskData_offset (Nat.lt_of_succ_lt hi), hempty]
    omega
  · rw [tskData_items (Nat.lt_of_succ_lt hi), hempty, Set.Ico_self]

end Blocks

/-- **The blocks of an activity partition its items** exactly where there are none, or at least as many as
there are workers. -/
theorem blocks_partition_iff (data : δ) (engine : ε) (nthreads n : Nat) (h : 1 ≤ nthreads) :
    Partition (tskDataArr data engine nthreads n) n ↔ n = 0 ∨ nthreads ≤ n := by
  constructor
  · rintro ⟨-, hunion⟩
    by_contra hno
    rw [not_or, Nat.not_le] at hno
    obtain ⟨hpos, hlt⟩ := hno
    -- the first item is in no block
    have hmem : (0 : Int) ∈ Set.Ico 0 (n : Int) := ⟨le_refl 0, by omega⟩
    rw [← hunion] at hmem
    obtain ⟨b, hb, hzero⟩ := Set.mem_iUnion₂.1 hmem
    rw [(items_of_lt hlt hb).2] at hzero
    exact hzero
  · rintro (rfl | hle)
    · have hnone : tskDataArr data engine nthreads (0 : Nat) = [] := by
        have htasks : (nTasks nthreads (0 : Nat)).toNat = 0 := by
          unfold nTasks
          split <;> omega
        rw [tskDataArr, htasks]
        rfl
      rw [hnone]
      exact ⟨.nil, by simp⟩
    · exact partition_of_le h hle

/-- Ten items and four workers. -/
theorem blocks_partition_iff_ten : Partition (tskDataArr () () 4 10) 10 :=
  (blocks_partition_iff () () 4 10 (by decide)).2 (by decide)

/-- Five items and the ten workers of an engine that is not given another number. -/
theorem blocks_unprocessed : (tskDataArr () () 10 5).map (fun b => (b.dataIndex, b.offset)) =
    [(0, -1), (0, -1), (0, -1), (0, -1), (0, -1)] ∧ ¬ Partition (tskDataArr () () 10 5) 5 := by
  refine ⟨by decide, ?_⟩
  rintro ⟨-, hunion⟩
  have hmem : (0 : Int) ∈ Set.Ico 0 ((5 : Nat) : Int) := ⟨by decide, by decide⟩
  rw [← hunion] at hmem
  obtain ⟨b, hb, hzero⟩ := Set.mem_iUnion₂.1 hmem
  have hall : ∀ b ∈ tskDataArr () () 10 5, b.offset = -1 := by decide
  have hoffset := hall b hb
  unfold CsTskData.items at hzero
  rw [hoffset, Set.mem_Icc] at hzero
  omega

end ComplexSim.Divisors
