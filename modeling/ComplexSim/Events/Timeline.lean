import ComplexSim.Events.Tree
import Mathlib.Data.Finset.Max

/-!
# What the event tree is for

A timeline gives each time the events that are scheduled for it, in the order in which they
were scheduled; finitely many times have any. The operations of the event manager are operations
on it.
-/

namespace ComplexSim.Events

/-- The events of each time, oldest first. -/
@[ext]
structure Timeline (δ : Type) where
  evs : Int → List (CsEvent δ)
  times : Finset Int
  mem_times : ∀ time, time ∈ times ↔ evs time ≠ []

namespace Timeline

variable {δ : Type} {m : Timeline δ} {time : Int}

def empty : Timeline δ where
  evs := fun _ => []
  times := ∅
  mem_times := by simp

/-- One more event at the end of those of its time. -/
def schedule (m : Timeline δ) (ev : CsEvent δ) (time : Int) : Timeline δ where
  evs := Function.update m.evs time (m.evs time ++ [ev])
  times := insert time m.times
  mem_times := by
    intro t
    by_cases ht : t = time
    · subst ht
      simp
    · simp [ht, m.mem_times]

/-- A time without its events. -/
def pop (m : Timeline δ) (time : Int) : Timeline δ where
  evs := Function.update m.evs time []
  times := m.times.erase time
  mem_times := by
    intro t
    by_cases ht : t = time
    · subst ht
      simp
    · simp [ht, m.mem_times]

/-- The least time that has an event. -/
def nearest (m : Timeline δ) : Int := if h : m.times.Nonempty then m.times.min' h else -1

/-- The greatest time that has an event. -/
def farthest (m : Timeline δ) : Int := if h : m.times.Nonempty then m.times.max' h else -1

theorem nearest_eq (h : time ∈ m.times) (hle : ∀ t ∈ m.times, time ≤ t) : m.nearest = time := by
  rw [nearest, dif_pos ⟨time, h⟩]
  exact le_antisymm (m.times.min'_le time h) (hle _ (m.times.min'_mem _))

theorem farthest_eq (h : time ∈ m.times) (hle : ∀ t ∈ m.times, t ≤ time) : m.farthest = time := by
  rw [farthest, dif_pos ⟨time, h⟩]
  exact le_antisymm (hle _ (m.times.max'_mem _)) (m.times.le_max' time h)

end Timeline

end ComplexSim.Events
