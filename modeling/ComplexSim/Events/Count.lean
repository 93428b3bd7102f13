import ComplexSim.Events.Tree

/-!
# The number of events (`cs_evm_num_events` in `src/cs_events.c`)

The loop counts the lists of the tree down without going from one to the next: it adds the count of the
first list once for each list. What the other lists have more or less than the first is the surplus of
a tree, and the number of events is right exactly where the surplus is zero, as far as an `int` can tell.
-/

namespace ComplexSim.Events

variable {δ : Type}

inductive TreeOp (δ : Type) where
  | schedule (ev : CsEvent δ) (time : Int)
  | pop (time : Int)

/-- A tree, and how many events have been scheduled in it and popped from it. -/
structure CountedTree (δ : Type) where
  evTree : EvTree δ
  scheduled : Nat
  popped : Nat

namespace CountedTree

def init (δ : Type) : CountedTree δ where
  evTree := .empty
  scheduled := 0
  popped := 0

/-- One operation; a request that returns 0 has scheduled an event. -/
def step (s : CountedTree δ) : TreeOp δ → CountedTree δ
  | .schedule ev time =>
      { s with evTree := (csEvmScheduleEvent ev time s.evTree).1
               scheduled := if (csEvmScheduleEvent ev time s.evTree).2 = 0 then s.scheduled + 1 else s.scheduled }
  | .pop time =>
      { s with evTree := (popEvents s.evTree time).1
               popped := s.popped + ((popEvents s.evTree time).2.elim [] CsEventList.dues).length }

def run (ops : List (TreeOp δ)) : CountedTree δ := ops.foldl step (init δ)

/-- What is scheduled is popped later or pending. -/
def Balanced (s : CountedTree δ) : Prop := (EvTree.pending s.evTree).length + s.popped = s.scheduled

theorem Balanced.step {s : CountedTree δ} (h : s.Balanced) (op : TreeOp δ) : (s.step op).Balanced := by
  unfold Balanced at h
  cases op with
  | schedule ev time =>
      rcases csEvmScheduleEvent_pending s.evTree ev time with ⟨-, hrefused⟩ | ⟨-, hret, hperm⟩
      · simpa [CountedTree.step, Balanced, hrefused] using h
      · have hlength := hperm.length_eq
        rw [List.length_cons] at hlength
        simp only [CountedTree.step, Balanced, hret, if_true]
        omega
  | pop time =>
      have hlength := (popEvents_pending s.evTree time).length_eq
      rw [List.length_append] at hlength
      simp only [CountedTree.step, Balanced]
      omega

theorem balanced_run (ops : List (TreeOp δ)) : (run ops).Balanced := by
  have hfold : ∀ s : CountedTree δ, s.Balanced → (ops.foldl step s).Balanced := by
    induction ops with
    | nil => exact fun s h => h
    | cons op ops ih => exact fun s h => ih (s.step op) (h.step op)
  exact hfold (init δ) rfl

end CountedTree

/-- What the lists of a tree have more events than its first list, altogether. -/
def EvTree.surplus (t : EvTree δ) : Int :=
  match t.first? with
  | none => 0
  | some first => (t.items.map fun l => l.count - first.count).sum

section Loop

variable {t : EvTree δ}

theorem int32_add_int32 (x y : Int) : int32 (int32 x + y) = int32 (x + y) := by
  unfold int32
  exact Int.bmod_add_bmod

/-- The loop multiplies, and leaves the range of an `int` where the product does. -/
theorem numLoop_int32 (x : Int) (k : Nat) (c : Int) : numLoop x k (int32 c) = int32 (c + k * x) := by
  induction k generalizing c with
  | zero => simp [numLoop]
  | succ k ih =>
      rw [numLoop, int32_add_int32, ih]
      congr 1
      push_cast
      ring

/-- Two numbers are the same `int` if they differ by a multiple of `2 ^ 32`. -/
theorem int32_eq_iff {x y : Int} (h0 : 0 ≤ y) (h : y < 2 ^ 31) : int32 x = y ↔ (y - x) % 2 ^ 32 = 0 := by
  unfold int32
  rw [Int.bmod_def]
  norm_num at h ⊢
  omega

theorem CsEventList.dues_length (l : CsEventList δ) : (l.dues.length : Int) = l.count := by
  rw [CsEventList.dues, List.length_map, l.count_eq]

/-- The number of pending events is the sum of the counts of the lists. -/
theorem pending_length : ((EvTree.pending t).length : Int) = (t.items.map (·.count)).sum := by
  unfold EvTree.pending
  induction t.items with
  | nil => rfl
  | cons l rest ih =>
      rw [List.flatMap_cons, List.length_append, List.map_cons, List.sum_cons, Nat.cast_add, ih, l.dues_length]

/-- A list has an event, so there are at least as many events as lists. -/
theorem count_le_pending : t.count ≤ (EvTree.pending t).length := by
  unfold EvTree.pending OrdTable.count
  induction t.items with
  | nil => exact Nat.zero_le _
  | cons l rest ih =>
      have hpos := l.count_pos
      rw [← l.dues_length] at hpos
      rw [List.flatMap_cons, List.length_append, List.length_cons]
      omega

/-- The surplus is what the loop misses. -/
theorem surplus_eq {first : CsEventList δ} (h : t.first? = some first) :
    EvTree.surplus t = (EvTree.pending t).length - t.count * first.count := by
  have hsum : ∀ items : List (CsEventList δ), (items.map fun l => l.count - first.count).sum =
      (items.map (·.count)).sum - items.length * first.count := by
    intro items
    induction items with
    | nil => simp
    | cons l rest ih =>
        rw [List.map_cons, List.sum_cons, ih, List.map_cons, List.sum_cons, List.length_cons]
        push_cast
        ring
  simp only [EvTree.surplus, h, pending_length]
  exact hsum t.items

/-- The number of events that is computed is the one that there is where the surplus vanishes. -/
theorem csEvmNumEvents_iff (hfit : (EvTree.pending t).length < 2 ^ 31) :
    csEvmNumEvents t = (EvTree.pending t).length ↔ EvTree.surplus t % 2 ^ 32 = 0 := by
  cases hfirst : t.first? with
  | none =>
      have hitems : t.items = [] := OrdTable.first?_eq_none.1 hfirst
      have hnone : EvTree.pending t = [] := EvTree.pending_eq_nil.2 hitems
      simp [csEvmNumEvents, EvTree.surplus, hfirst, hnone]
  | some first =>
      have hcount : int32 t.count = t.count := by
        have hle := count_le_pending (t := t)
        exact int32_of_lt (Int.natCast_nonneg _) (by exact_mod_cast Nat.lt_of_le_of_lt hle hfit)
      have hloop : csEvmNumEvents t = int32 (t.count * first.count) := by
        have hzero : int32 0 = 0 := rfl
        simp only [csEvmNumEvents, hfirst, hcount, Int.toNat_natCast]
        rw [← hzero, numLoop_int32, zero_add]
      rw [hloop, surplus_eq hfirst]
      exact int32_eq_iff (Int.natCast_nonneg _) (by exact_mod_cast hfit)

end Loop

/-- **The number of events** that a tree of a run holds is what was scheduled and has not been popped, and
`cs_evm_num_events` returns it exactly where the lists have, together, as many events as if all were as
long as the first. -/
theorem num_events_iff (ops : List (TreeOp δ)) (hfit : (EvTree.pending (CountedTree.run ops).evTree).length < 2 ^ 31) :
    (EvTree.pending (CountedTree.run ops).evTree).length + (CountedTree.run ops).popped =
        (CountedTree.run ops).scheduled ∧
      (csEvmNumEvents (CountedTree.run ops).evTree = (EvTree.pending (CountedTree.run ops).evTree).length ↔
        EvTree.surplus (CountedTree.run ops).evTree % 2 ^ 32 = 0) :=
  ⟨CountedTree.balanced_run ops, csEvmNumEvents_iff hfit⟩

/-- Two events at time 1 and two at time 3, after one at time 2 has been popped. -/
theorem num_events_iff_four : csEvmNumEvents (CountedTree.run [.schedule ⟨some "tick", 0⟩ 1,
    .schedule ⟨some "tick", 1⟩ 2, .schedule ⟨some "tick", 2⟩ 3, .pop 2, .schedule ⟨some "tick", 3⟩ 3,
    .schedule ⟨some "tick", 4⟩ 1]).evTree = 4 :=
  (num_events_iff _ (by decide)).2.2 (by decide)

/-- One event at time 1 and two at time 2. -/
theorem num_events_short : (CountedTree.run [.schedule ⟨some "tick", 0⟩ 1, .schedule ⟨some "tick", 1⟩ 2,
    .schedule ⟨some "tick", 2⟩ 2]).scheduled = 3 ∧
    csEvmNumEvents (CountedTree.run [.schedule ⟨some "tick", 0⟩ 1, .schedule ⟨some "tick", 1⟩ 2,
      .schedule ⟨some "tick", 2⟩ 2]).evTree = 2 ∧
    (EvTree.pending (CountedTree.run [.schedule ⟨some "tick", 0⟩ 1, .schedule ⟨some "tick", 1⟩ 2,
      .schedule ⟨some "tick", 2⟩ 2]).evTree).length = 3 := by
  decide

end ComplexSim.Events
