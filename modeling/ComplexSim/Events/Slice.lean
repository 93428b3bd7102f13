import ComplexSim.Events.Tree
import Mathlib.Data.List.TakeDrop

/-!
# Slicing an event list among the workers (`src/cs_events.c`)

The controller gives each of its `ntasks` tasks a place in the chain of a list, its
guard, and a number of events to walk from there. A pointer into the chain is the
rest of the chain from that item on. The walks stay inside the chain and together
visit it once, in order (`sliceTasks_dues`).
-/

namespace ComplexSim.Events

variable {α δ : Type}

/-- The inner loop of `_cs_ev_update_guards`: `j` times to the next item, if there is one. -/
def advance : Nat → List α → List α
  | 0, ptr => ptr
  | j + 1, ptr => match ptr with
    | _ :: y :: rest => advance j (y :: rest)
    | _ => ptr

/-- The outer loop of `_cs_ev_update_guards`. -/
def guardsFrom (hops : Nat) : Nat → List α → List (List α)
  | 0, _ => []
  | i + 1, ptr => ptr :: guardsFrom hops i (advance hops ptr)

/-- `_cs_ev_update_guards`: the guards, and `hops`. -/
def csEvUpdateGuards (evList : CsEventList δ) (nguards : Nat) : List (List (CsEvent δ)) × Nat :=
  let hops := max 1 (evList.count.toNat / nguards)
  (guardsFrom hops nguards evList.chain, hops)

/-- `event_worker_data_t`, with what the worker reads through `ev_list`: the guard of its
index, and the time. -/
structure EventWorkerData (δ : Type) where
  guardIndex : Nat
  numEvents : Int
  guard : List (CsEvent δ)
  scheduledAt : Int
  deriving DecidableEq, Repr

/-- The number of events that `_ev_controller` gives to its task `c`. -/
def sliceSize (ntasks : Nat) (count : Int) (hops c : Nat) : Int :=
  if (c : Int) < ntasks - 1 then hops else count - (ntasks - 1) * hops

/-- The arguments that `_ev_controller` gives to its tasks. -/
def sliceTasks (evList : CsEventList δ) (ntasks : Nat) : List (EventWorkerData δ) :=
  let (guards, hops) := csEvUpdateGuards evList ntasks
  (List.range (min ntasks evList.count.toNat)).map fun c =>
    { guardIndex := c
      numEvents := sliceSize ntasks evList.count hops c
      guard := guards.getD c []
      scheduledAt := evList.scheduledAt }

/-- The events that a task walks. -/
def EventWorkerData.dues (d : EventWorkerData δ) : List (Due δ) :=
  (d.guard.take d.numEvents.toNat).map (⟨·, d.scheduledAt⟩)

section Guards

theorem advance_eq_drop {j : Nat} {l : List α} (h : j < l.length) : advance j l = l.drop j := by
  induction j generalizing l with
  | zero => rfl
  | succ j ih =>
      match l, h with
      | x :: y :: rest, h => exact ih (by simpa using h)

/-- Guard `c` is `c * hops` items into the chain, as far as the chain reaches. -/
theorem guardsFrom_get {hops n c : Nat} {l : List α} (hc : c < n) (hlen : c * hops < l.length) :
    (guardsFrom hops n l).getD c [] = l.drop (c * hops) := by
  induction c generalizing n l with
  | zero =>
      obtain ⟨n, rfl⟩ := Nat.exists_eq_succ_of_ne_zero (Nat.ne_of_gt hc)
      simp [guardsFrom]
  | succ c ih =>
      obtain ⟨n, rfl⟩ := Nat.exists_eq_succ_of_ne_zero (Nat.ne_of_gt (Nat.zero_lt_of_lt hc))
      rw [Nat.succ_mul] at hlen
      rw [guardsFrom, List.getD_cons_succ, advance_eq_drop (by omega),
        ih (by omega) (by rw [List.length_drop]; omega), List.drop_drop, Nat.succ_mul,
        Nat.add_comm hops]

/-- Pieces of equal length make up a prefix. -/
theorem flatMap_pieces (l : List α) (h k : Nat) :
    ((List.range k).flatMap fun c => (l.drop (c * h)).take h) = l.take (k * h) := by
  induction k with
  | zero => simp
  | succ k ih =>
      rw [List.range_succ, List.flatMap_append, ih, List.flatMap_singleton, Nat.succ_mul,
        List.take_add]

end Guards

section Slices

variable {evList : CsEventList δ} {ntasks : Nat}

/-- The spacing of the guards: one, or as many pieces as there are tasks fit into the chain. -/
theorem hops_cases {count hops : Nat} (hpos : 0 < ntasks) (h : hops = max 1 (count / ntasks)) :
    (count < ntasks ∧ hops = 1) ∨ (ntasks ≤ count ∧ 0 < hops ∧ ntasks * hops ≤ count) := by
  rcases Nat.lt_or_ge count ntasks with hlt | hge
  · exact Or.inl ⟨hlt, by rw [h, Nat.div_eq_of_lt hlt]; rfl⟩
  · have hdiv : 1 ≤ count / ntasks := (Nat.one_le_div_iff hpos).2 hge
    rw [Nat.max_eq_right hdiv] at h
    exact Or.inr ⟨hge, by omega, h ▸ Nat.mul_div_le _ _⟩

/-- Every task but the last walks `hops` events; the last walks the rest. -/
theorem sliceSize_cases {count hops c : Nat} (hpos : 0 < ntasks)
    (h : hops = max 1 (count / ntasks)) (hc : c < min ntasks count) :
    (c + 1 < ntasks ∧ sliceSize ntasks count hops c = hops ∧ c * hops + hops ≤ count ∧ 0 < hops) ∨
      (c + 1 = ntasks ∧ sliceSize ntasks count hops c = (count - c * hops : Nat) ∧
        c * hops < count) := by
  have hreach : ∀ i, i ≤ ntasks → i * hops ≤ ntasks * hops := fun i hi => Nat.mul_le_mul_right _ hi
  rcases Nat.lt_or_ge (c + 1) ntasks with hlt | hge
  · refine Or.inl ⟨hlt, if_pos (by omega), ?_⟩
    rcases hops_cases hpos h with ⟨-, hone⟩ | ⟨-, hhops, hle⟩
    · rw [hone]; omega
    · have hmul := hreach (c + 1) (by omega)
      rw [Nat.succ_mul] at hmul
      omega
  · have hlast : c + 1 = ntasks := by omega
    rcases hops_cases hpos h with ⟨hfew, -⟩ | ⟨-, hhops, hle⟩
    · omega
    · rw [← hlast, Nat.succ_mul] at hle
      refine Or.inr ⟨hlast, ?_, by omega⟩
      have hprev : ((ntasks : Int) - 1) * hops = (c * hops : Nat) := by
        rw [← hlast]; push_cast; ring
      rw [sliceSize, if_neg (by omega), hprev]
      omega

/-- The tasks of `_ev_controller` get pieces of the chain. -/
theorem sliceTasks_eq (hpos : 0 < ntasks) {count hops : Nat} (hcount : count = evList.chain.length)
    (hhops : hops = max 1 (count / ntasks)) :
    sliceTasks evList ntasks = (List.range (min ntasks count)).map fun c =>
      { guardIndex := c
        numEvents := sliceSize ntasks count hops c
        guard := evList.chain.drop (c * hops)
        scheduledAt := evList.scheduledAt } := by
  unfold sliceTasks csEvUpdateGuards
  simp only [evList.count_eq, Int.toNat_natCast, ← hcount, ← hhops]
  refine List.map_congr_left fun c hc => ?_
  have hmin := List.mem_range.1 hc
  rw [guardsFrom_get (by omega)]
  rcases sliceSize_cases hpos hhops hmin with ⟨-, -, hle, -⟩ | ⟨-, -, hlt⟩ <;> omega

/-- The walk of a task stays inside the chain. -/
theorem sliceTasks_spec (hpos : 0 < ntasks) {d : EventWorkerData δ}
    (hd : d ∈ sliceTasks evList ntasks) :
    d.guardIndex < ntasks ∧ d.scheduledAt = evList.scheduledAt ∧ 0 ≤ d.numEvents ∧
      d.numEvents ≤ d.guard.length := by
  rw [sliceTasks_eq hpos rfl rfl] at hd
  obtain ⟨c, hc, rfl⟩ := List.mem_map.1 hd
  have hmin := List.mem_range.1 hc
  simp only [List.length_drop]
  rcases sliceSize_cases hpos rfl hmin with ⟨hlt, hsize, hle, -⟩ | ⟨hlast, hsize, hlt⟩
  · rw [hsize]; exact ⟨by omega, trivial, by omega, by omega⟩
  · rw [hsize]; exact ⟨by omega, trivial, by omega, by omega⟩

/-- No two tasks have the same guard index. -/
theorem sliceTasks_distinct :
    (sliceTasks evList ntasks).Pairwise fun d d' => d.guardIndex ≠ d'.guardIndex :=
  List.pairwise_map.2 (List.nodup_range.imp fun h => h)

/-- The pieces of the tasks make up a list as long as the chain. -/
theorem flatMap_slices (hpos : 0 < ntasks) (l : List α) :
    ((List.range (min ntasks l.length)).flatMap fun c =>
      (l.drop (c * max 1 (l.length / ntasks))).take
        (sliceSize ntasks l.length (max 1 (l.length / ntasks)) c).toNat) = l := by
  generalize hcount : l.length = count
  generalize hhops : max 1 (count / ntasks) = hops
  -- the first tasks walk pieces of equal length, and the last one the rest
  have hpiece : ∀ c ∈ List.range (min (ntasks - 1) count),
      (l.drop (c * hops)).take (sliceSize ntasks count hops c).toNat = (l.drop (c * hops)).take hops := fun c hc => by
    have hmin := List.mem_range.1 hc
    rcases sliceSize_cases hpos hhops.symm (c := c) (by omega) with ⟨-, hsize, -⟩ | ⟨hlast, -⟩
    · rw [hsize, Int.toNat_natCast]
    · omega
  rcases hops_cases hpos hhops.symm with ⟨hfew, hone⟩ | ⟨hmany, -, -⟩
  · rw [show min ntasks count = min (ntasks - 1) count by omega, List.flatMap_congr hpiece,
      flatMap_pieces, hone, List.take_of_length_le (by omega)]
  · obtain ⟨m, rfl⟩ := Nat.exists_eq_succ_of_ne_zero (Nat.ne_of_gt hpos)
    rw [show min (m + 1) count = min (m + 1 - 1) count + 1 by omega, List.range_succ,
      List.flatMap_append, List.flatMap_congr hpiece, flatMap_pieces, List.flatMap_singleton,
      show min (m + 1 - 1) count = m by omega]
    rcases sliceSize_cases hpos hhops.symm (c := m) (by omega) with ⟨hlt, -⟩ | ⟨-, hsize, -⟩
    · omega
    · rw [hsize, Int.toNat_natCast, ← hcount, ← List.length_drop, List.take_length,
        List.take_append_drop]

/-- **Together the tasks walk the whole list**, in its order. -/
theorem sliceTasks_dues (hpos : 0 < ntasks) :
    (sliceTasks evList ntasks).flatMap EventWorkerData.dues = evList.dues := by
  rw [sliceTasks_eq hpos rfl rfl, List.flatMap_map]
  simp only [EventWorkerData.dues]
  rw [← List.map_flatMap, flatMap_slices hpos]
  rfl

end Slices

end ComplexSim.Events
