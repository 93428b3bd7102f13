import ComplexSim.Lib.Transition
import Mathlib.Data.Fintype.Card

/-!
# The clock (`src/cs_timer.c`)

`CsTimer` is the record `cs_timer_t` without its mutex, condition variable and
name. Each function of the file is one section under the timer's mutex, except
that `cs_time_sync` may give the mutex up in `pthread_cond_wait`: its first part
is the section `csTimeSync`, which ends in an `Entry`, and a waiter that a
broadcast has released finishes with the section `Barrier.leave`. A `Barrier` is
a timer together with where each of the actors `A` is in `cs_time_sync`.

The integers are unbounded: `sync` never exceeds `n_sync`, and the clock advances
by one at a round.
-/

namespace ComplexSim

/-- `cs_timer_t`. -/
structure CsTimer where
  stop : Bool
  nSync : Int
  sync : Int
  clock : Int
  deriving DecidableEq, Repr

/-- `_cs_init_timer` for `n_sync > 0`. -/
def csInitTimerWith (nSync : Int) : CsTimer where
  stop := false
  nSync := nSync
  sync := 0
  clock := 0

/-- `cs_init_timer`. -/
def csInitTimer : CsTimer := csInitTimerWith 2

/-- `cs_set_nsync`. -/
def csSetNsync (t : CsTimer) (nsync : Int) : CsTimer := { t with nSync := nsync }

/-- `cs_get_clock`. -/
def csGetClock (t : CsTimer) : Int := t.clock

/-- How the first locked section of `cs_time_sync` ends. -/
inductive Entry where
  /-- the timer is stopped: return -1 -/
  | stopped
  /-- `sync == n_sync` already: log an error, return -1 -/
  | overrun
  /-- the caller completes the round: broadcast, return 0 -/
  | advance
  /-- `pthread_cond_wait` -/
  | wait
  deriving DecidableEq, Repr

/-- The first locked section of `cs_time_sync`. -/
def csTimeSync (t : CsTimer) : CsTimer × Entry :=
  if t.stop then (t, .stopped)
  else if t.sync = t.nSync then (t, .overrun)
  else if t.sync + 1 = t.nSync then ({ t with clock := t.clock + 1, sync := 0 }, .advance)
  else ({ t with sync := t.sync + 1 }, .wait)

/-- Where an actor is: outside `cs_time_sync`, blocked in `pthread_cond_wait`, or
released by a broadcast without having the mutex back yet. -/
inductive Place where
  | out
  | blocked
  | released
  deriving DecidableEq, Repr

def Place.wake : Place → Place
  | .blocked => .released
  | p => p

@[simp] theorem Place.wake_ne_blocked (p : Place) : p.wake ≠ .blocked := by cases p <;> nofun

@[simp] theorem Place.wake_eq_out {p : Place} : p.wake = .out ↔ p = .out := by
  cases p <;> simp [wake]

/-- A timer and the places of its actors. -/
structure Barrier (A : Type*) where
  timer : CsTimer
  place : A → Place

namespace Barrier

variable {A : Type*}

/-- `pthread_cond_broadcast(t->cond)`. -/
def broadcast (b : Barrier A) : Barrier A := { b with place := fun a => (b.place a).wake }

@[simp] theorem broadcast_timer (b : Barrier A) : b.broadcast.timer = b.timer := rfl

@[simp] theorem broadcast_place (b : Barrier A) (a : A) :
    b.broadcast.place a = (b.place a).wake := rfl

variable [DecidableEq A]

/-- The actor `a` enters `cs_time_sync`; `some r` if the call returns `r` without
waiting. -/
def enter (b : Barrier A) (a : A) : Barrier A × Option Int :=
  match csTimeSync b.timer with
  | (t, .stopped) => ({ b with timer := t }, some (-1))
  | (t, .overrun) => ({ b with timer := t }, some (-1))
  | (t, .advance) => (broadcast { b with timer := t }, some 0)
  | (t, .wait) => ({ timer := t, place := Function.update b.place a .blocked }, none)

/-- A released actor takes the mutex back and returns 0. -/
def leave (b : Barrier A) (a : A) : Option (Barrier A × Int) :=
  if b.place a = .released then
    some ({ b with place := Function.update b.place a .out }, 0)
  else none

/-- `cs_time_stop`. -/
def timeStop (b : Barrier A) : Barrier A :=
  broadcast { b with timer := { b.timer with stop := true } }

/-- How a call of `cs_time_sync` begins: it is refused, it completes the round, or it waits as one
more. -/
inductive Entered (b : Barrier A) (a : A) : Barrier A → Option Int → Prop where
  | stopped (hstop : b.timer.stop = true) : Entered b a b (some (-1))
  | overrun (hrun : b.timer.stop = false) (hfull : b.timer.sync = b.timer.nSync) : Entered b a b (some (-1))
  | last (hrun : b.timer.stop = false) (hlast : b.timer.sync + 1 = b.timer.nSync) :
      Entered b a (broadcast { b with timer := { b.timer with clock := b.timer.clock + 1, sync := 0 } }) (some 0)
  | first (hrun : b.timer.stop = false) (hroom : b.timer.sync ≠ b.timer.nSync)
      (hmore : b.timer.sync + 1 ≠ b.timer.nSync) :
      Entered b a { timer := { b.timer with sync := b.timer.sync + 1 }
                    place := Function.update b.place a .blocked } none

variable {b b' : Barrier A} {a : A}

theorem Entered.of {r : Option Int} (h : b.enter a = (b', r)) : b.Entered a b' r := by
  unfold enter csTimeSync at h
  by_cases hstop : b.timer.stop = true
  · rw [if_pos hstop] at h
    cases h
    exact .stopped hstop
  · have hrun := Bool.eq_false_iff.2 hstop
    rw [if_neg hstop] at h
    split_ifs at h <;> cases h
    · exact .overrun hrun ‹_›
    · exact .last hrun ‹_›
    · exact .first hrun ‹_› ‹_›

theorem enter_clock {r : Option Int} (h : b.enter a = (b', r)) : b.timer.clock ≤ b'.timer.clock := by
  cases Entered.of h with
  | last _ _ =>
      show b.timer.clock ≤ b.timer.clock + 1
      omega
  | _ => exact Int.le_refl _

theorem leave_cases {r : Int} (h : b.leave a = some (b', r)) :
    b.place a = .released ∧ r = 0 ∧ b' = { b with place := Function.update b.place a .out } := by
  unfold leave at h
  split at h <;> cases h
  exact ⟨‹_›, rfl, rfl⟩

theorem leave_timer {r : Int} (h : b.leave a = some (b', r)) : b'.timer = b.timer := by
  obtain ⟨-, -, rfl⟩ := leave_cases h
  rfl

end Barrier

end ComplexSim
