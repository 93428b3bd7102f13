import ComplexSim.Lib.OrdTable
import Mathlib.Algebra.Order.Ring.Int
import Mathlib.Tactic.Ring

/-!
# The event tree (`src/cs_events.c`)

The tree of an event manager is an ordered table of event lists, one for each time
that has events. The chain of a list is the list of its events from `head` on;
`count` is the field of that name, an `int` in the source and unbounded here: what is said of a
list is meant for fewer than `2 ^ 31` events. A list is in the tree only with an event in it.
Allocations succeed. Elsewhere an `int` wraps at 32 bits, where a sum may leave its range.

`EvTree.pending` is what a tree is for: which events are due at which times.
-/

namespace ComplexSim.Events

/-- `cs_event_t`; `evData` is what its handler gets. -/
structure CsEvent (δ : Type) where
  etype : Option String
  evData : δ
  deriving DecidableEq, Repr

/-- `cs_event_list_t` without its guards. -/
structure CsEventList (δ : Type) where
  scheduledAt : Int
  chain : List (CsEvent δ)
  count : Int
  count_eq : count = chain.length
  count_pos : 0 < count

/-- `ev_tree`, ordered by `cmp_event_list`. -/
abbrev EvTree (δ : Type) := OrdTable (CsEventList.scheduledAt (δ := δ))

/-- The value of an `int` that a computation has left at `x`. -/
def int32 (x : Int) : Int := x.bmod (2 ^ 32)

variable {δ : Type}

/-- `new_ev_list` with its first item. -/
def newEvList (ev : CsEvent δ) (time : Int) : CsEventList δ where
  scheduledAt := time
  chain := [ev]
  count := 1
  count_eq := rfl
  count_pos := by decide

/-- The list with one more item at its tail. -/
def CsEventList.append (l : CsEventList δ) (ev : CsEvent δ) : CsEventList δ where
  scheduledAt := l.scheduledAt
  chain := l.chain ++ [ev]
  count := l.count + 1
  count_eq := by simp [l.count_eq]
  count_pos := by have := l.count_pos; omega

theorem CsEventList.append_scheduledAt (ev : CsEvent δ) (l : CsEventList δ) :
    (l.append ev).scheduledAt = l.scheduledAt := rfl

/-- `cs_evm_schedule_event`. -/
def csEvmScheduleEvent (ev : CsEvent δ) (time : Int) (t : EvTree δ) : EvTree δ × Int :=
  if ev.etype = none then (t, -1)
  else match t.find? time with
    | none => (t.insert (newEvList ev time), 0)
    | some _ => (t.modify time (·.append ev) (CsEventList.append_scheduledAt ev), 0)

/-- `pop_events`. -/
def popEvents (t : EvTree δ) (time : Int) : EvTree δ × Option (CsEventList δ) :=
  (t.delete time, t.find? time)

/-- The loop of `cs_evm_num_events`: `count` times the same list is added. -/
def numLoop (x : Int) : Nat → Int → Int
  | 0, c => c
  | count + 1, c => numLoop x count (int32 (c + x))

/-- `cs_evm_num_events`. -/
def csEvmNumEvents (t : EvTree δ) : Int :=
  match t.first? with
  | none => 0
  | some evList => numLoop evList.count (int32 t.count).toNat 0

/-- `cs_evm_more_events`. -/
def csEvmMoreEvents (t : EvTree δ) : Bool := decide (0 < csEvmNumEvents t)

/-- An event with the time it is scheduled for. -/
structure Due (δ : Type) where
  ev : CsEvent δ
  time : Int
  deriving DecidableEq, Repr

/-- The events of a list with their time. -/
def CsEventList.dues (l : CsEventList δ) : List (Due δ) := l.chain.map (⟨·, l.scheduledAt⟩)

/-- The events that a tree holds, with their times. -/
def EvTree.pending (t : EvTree δ) : List (Due δ) := t.items.flatMap CsEventList.dues

section Pending

variable {t : EvTree δ} {ev : CsEvent δ} {time : Int}

@[simp] theorem pending_empty : EvTree.pending (.empty : EvTree δ) = [] := rfl

theorem CsEventList.chain_ne_nil (l : CsEventList δ) : l.chain ≠ [] := by
  intro h
  have hcount := l.count_eq
  have hpos := l.count_pos
  rw [h] at hcount
  simp at hcount
  omega

@[simp] theorem newEvList_dues : (newEvList ev time).dues = [⟨ev, time⟩] := rfl

@[simp] theorem CsEventList.append_dues (l : CsEventList δ) :
    (l.append ev).dues = l.dues ++ [⟨ev, l.scheduledAt⟩] := by
  simp [CsEventList.dues, CsEventList.append]

theorem CsEventList.mem_dues {l : CsEventList δ} {x : Due δ} (h : x ∈ l.dues) :
    x.time = l.scheduledAt := by
  obtain ⟨e, -, rfl⟩ := List.mem_map.1 h
  rfl

theorem EvTree.mem_pending {x : Due δ} :
    x ∈ EvTree.pending t ↔ ∃ l ∈ t.items, x ∈ l.dues := List.mem_flatMap

/-- A time that a list of the tree has is the time of a pending event. -/
theorem EvTree.pending_of_mem {l : CsEventList δ} (h : l ∈ t.items) :
    ∃ x ∈ EvTree.pending t, x.time = l.scheduledAt := by
  obtain ⟨e, rest, hchain⟩ := List.exists_cons_of_ne_nil l.chain_ne_nil
  exact ⟨⟨e, l.scheduledAt⟩, mem_pending.2 ⟨l, h, by simp [CsEventList.dues, hchain]⟩, rfl⟩

theorem EvTree.pending_eq_nil : EvTree.pending t = [] ↔ t.items = [] := by
  constructor
  · intro h
    by_contra hne
    obtain ⟨l, rest, hitems⟩ := List.exists_cons_of_ne_nil hne
    obtain ⟨x, hx, -⟩ := EvTree.pending_of_mem (t := t) (l := l) (by simp [hitems])
    rw [h] at hx
    simp at hx
  · intro h
    rw [EvTree.pending, h]
    rfl

/-- A request that is refused changes nothing; the others add their event. -/
theorem csEvmScheduleEvent_pending (t : EvTree δ) (ev : CsEvent δ) (time : Int) :
    (ev.etype = none ∧ csEvmScheduleEvent ev time t = (t, -1)) ∨
      ev.etype ≠ none ∧ (csEvmScheduleEvent ev time t).2 = 0 ∧
        (EvTree.pending (csEvmScheduleEvent ev time t).1).Perm (⟨ev, time⟩ :: EvTree.pending t) := by
  unfold csEvmScheduleEvent
  split
  · rename_i hno
    exact Or.inl ⟨hno, rfl⟩
  · rename_i hno
    refine Or.inr ⟨hno, ?_⟩
    split
    · rename_i hfind
      exact ⟨rfl, (t.insert_perm (x := newEvList ev time) hfind).flatMap_right _⟩
    · rename_i l hfind
      have htime : l.scheduledAt = time := (OrdTable.find?_eq_some.1 hfind).2
      have hmodify := OrdTable.modify_perm (CsEventList.append_scheduledAt ev) hfind
      refine ⟨rfl, (hmodify.flatMap_right _).trans ?_⟩
      refine List.Perm.trans ?_ (((OrdTable.delete_perm hfind).flatMap_right _).symm.cons _)
      simp only [List.flatMap_cons, CsEventList.append_dues, htime]
      rw [List.append_assoc]
      exact List.perm_middle

/-- Popping a time takes all its events, and no others. -/
theorem popEvents_pending (t : EvTree δ) (time : Int) :
    (EvTree.pending t).Perm (((popEvents t time).2.elim [] CsEventList.dues) ++
      EvTree.pending (popEvents t time).1) := by
  unfold popEvents
  cases hfind : t.find? time with
  | none => simp [EvTree.pending, OrdTable.delete_of_find?_eq_none hfind]
  | some l => exact (OrdTable.delete_perm hfind).flatMap_right _

theorem popEvents_time {l : CsEventList δ} (h : (popEvents t time).2 = some l) :
    l.scheduledAt = time := (OrdTable.find?_eq_some.1 h).2

/-- What is left after popping a time has other times. -/
theorem popEvents_left {x : Due δ} (h : x ∈ EvTree.pending (popEvents t time).1) :
    x.time ≠ time := by
  obtain ⟨l, hl, hx⟩ := EvTree.mem_pending.1 h
  rw [CsEventList.mem_dues hx]
  exact (OrdTable.mem_delete.1 hl).2

end Pending

section NumEvents

variable {t : EvTree δ}

theorem int32_of_lt {x : Int} (h0 : 0 ≤ x) (h : x < 2 ^ 31) : int32 x = x :=
  Int.bmod_eq_of_le (by omega) (by omega)

/-- Without overflow the loop multiplies. -/
theorem numLoop_eq {x : Int} (hx : 0 ≤ x) {k : Nat} {c : Int} (hc : 0 ≤ c)
    (h : c + k * x < 2 ^ 31) : numLoop x k c = c + k * x := by
  induction k generalizing c with
  | zero => simp [numLoop]
  | succ k ih =>
      have hk : 0 ≤ (k : Int) * x := Int.mul_nonneg (by omega) hx
      have hsum : c + ((k + 1 : Nat) : Int) * x = c + x + k * x := by push_cast; ring
      rw [hsum] at h ⊢
      rw [numLoop, int32_of_lt (by omega) (by omega), ih (by omega) h]

/-- The first list's count, that many times as there are lists: what `cs_evm_num_events`
computes if it does not overflow. -/
def EvTree.countProduct (t : EvTree δ) : Int :=
  match t.first? with
  | none => 0
  | some evList => t.count * evList.count

theorem csEvmNumEvents_eq (h : EvTree.countProduct t < 2 ^ 31) :
    csEvmNumEvents t = EvTree.countProduct t := by
  unfold csEvmNumEvents EvTree.countProduct at *
  cases hfirst : t.first? with
  | none => rfl
  | some l =>
      simp only [hfirst] at h ⊢
      have hpos := l.count_pos
      have hle : (t.count : Int) ≤ t.count * l.count := le_mul_of_one_le_right (by omega) hpos
      have hcount : int32 t.count = t.count := int32_of_lt (by omega) (by omega)
      simp only [hcount, Int.toNat_natCast]
      rw [numLoop_eq hpos.le le_rfl (by simpa using h), zero_add]

/-- Without overflow, `cs_evm_more_events` says whether the tree has events. -/
theorem csEvmMoreEvents_iff (h : EvTree.countProduct t < 2 ^ 31) :
    csEvmMoreEvents t = true ↔ EvTree.pending t ≠ [] := by
  rw [csEvmMoreEvents, csEvmNumEvents_eq h, decide_eq_true_iff, ne_eq, EvTree.pending_eq_nil,
    EvTree.countProduct]
  cases hitems : t.items with
  | nil => simp [OrdTable.first?, hitems]
  | cons l rest =>
      have hpos : (0 : Int) < t.count * l.count :=
        Int.mul_pos (by simp [OrdTable.count, hitems]) l.count_pos
      simpa [OrdTable.first?, hitems] using hpos

end NumEvents

end ComplexSim.Events
