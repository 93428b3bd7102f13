import ComplexSim.Lib.Transition
import ComplexSim.Timer.Basic

/-!
# What a return of `cs_time_sync` tells

A call that waits is released by the actor that completes the round, by `cs_time_stop`, or
by a spurious wake-up of `pthread_cond_wait`; it returns 0 in all three cases. So 0 means a
tick, and a stop shows as a negative value, as long as nobody waits when the timer is stopped
and no wake-up is spurious.

`began`, `cause` and `returns` only record what happened: no step reads them.
-/

namespace ComplexSim.Wakeup

variable {A : Type*}

/-- Why a waiting call goes on. -/
inductive Cause where
  /-- the round was completed -/
  | round
  /-- `cs_time_stop` -/
  | stop
  | spurious
  deriving DecidableEq, Repr

/-- A call that has returned `value` to the actor `a`: the clock when it began and when it
returned, and, if it waited, why it went on. -/
structure Return (A : Type*) where
  actor : A
  value : Int
  began : Int
  ended : Int
  cause : Option Cause
  deriving DecidableEq

structure State (A : Type*) where
  bar : Barrier A
  /-- the clock when the last call of an actor began -/
  began : A → Int
  /-- why the last call of an actor went on -/
  cause : A → Option Cause
  returns : List (Return A)

inductive Label (A : Type*) where
  /-- the actor calls `cs_time_sync` -/
  | call (a : A)
  /-- the actor, released, returns from it -/
  | leave (a : A)
  /-- `cs_time_stop` -/
  | stop
  /-- `pthread_cond_wait` of the actor returns without a broadcast -/
  | wake (a : A)

def init (A : Type*) (nsync : Int) : State A where
  bar := { timer := csInitTimerWith nsync, place := fun _ => .out }
  began := fun _ => 0
  cause := fun _ => none
  returns := []

/-- A broadcast gives a cause to the calls that wait. -/
def broadcastCause (s : State A) (c : Cause) (a : A) : Option Cause :=
  if s.bar.place a = .blocked then some c else s.cause a

variable [DecidableEq A]

def step (s : State A) : Label A → Option (State A)
  | .call a =>
      if s.bar.place a = .out then
        let clock := csGetClock s.bar.timer
        match s.bar.enter a with
        | (bar, some r) =>
            some { bar := bar
                   began := Function.update s.began a clock
                   cause := if r = 0 then broadcastCause s .round else s.cause
                   returns := s.returns ++ [{ actor := a, value := r, began := clock
                                              ended := csGetClock bar.timer, cause := none }] }
        | (bar, none) =>
            some { s with bar := bar
                          began := Function.update s.began a clock
                          cause := Function.update s.cause a none }
      else none
  | .leave a =>
      (s.bar.leave a).map fun (bar, r) =>
        { s with bar := bar
                 returns := s.returns ++ [{ actor := a, value := r, began := s.began a
                                            ended := csGetClock bar.timer, cause := s.cause a }] }
  | .stop => some { s with bar := s.bar.timeStop, cause := broadcastCause s .stop }
  | .wake a =>
      if s.bar.place a = .blocked then
        some { s with
          bar := { s.bar with place := Function.update s.bar.place a .released }
          cause := Function.update s.cause a (some .spurious) }
      else none

/-- The runs of a timer with this `n_sync`. -/
def system (A : Type*) [DecidableEq A] (nsync : Int) : Lts.System (State A) (Label A) :=
  .ofFn (· = init A nsync) step

/-- No wake-up is spurious, and nobody waits when the timer is stopped. -/
def Clean (s : State A) : Label A → Prop
  | .wake _ => False
  | .stop => ∀ a, s.bar.place a ≠ .blocked
  | _ => True

/-- What the value of a return tells. -/
structure Told (x : Return A) : Prop where
  tick : x.value = 0 → x.began < x.ended
  stopped : x.cause = some .stop → x.value < 0

/-- Calls that wait have the clock of their beginning; those released have seen a round. -/
structure Inv (s : State A) : Prop where
  blocked : ∀ a, s.bar.place a = .blocked → s.began a ≤ s.bar.timer.clock
  released : ∀ a, s.bar.place a = .released → s.cause a = some .round ∧ s.began a < s.bar.timer.clock
  told : ∀ x ∈ s.returns, Told x

omit [DecidableEq A] in
theorem init_inv (nsync : Int) : Inv (init A nsync) where
  blocked := nofun
  released := nofun
  told := nofun

section Steps

variable {s s' : State A} {a : A}

omit [DecidableEq A] in
theorem told_append {x : Return A} {l : List (Return A)} (hl : ∀ y ∈ l, Told y) (hx : Told x) :
    ∀ y ∈ l ++ [x], Told y := by
  intro y hy
  rcases List.mem_append.1 hy with hy | hy
  · exact hl y hy
  · exact List.mem_singleton.1 hy ▸ hx

theorem call_inv (h : Inv s) (hs : step s (.call a) = some s') : Inv s' := by
  simp only [step] at hs
  by_cases hout : s.bar.place a = .out
  · rw [if_pos hout] at hs
    rcases henter : s.bar.enter a with ⟨bar, r⟩
    rw [henter] at hs
    cases Barrier.Entered.of henter with
    | stopped | overrun =>
        cases hs
        refine ⟨fun c hc => ?_, fun c hc => ?_, told_append h.told ⟨nofun, nofun⟩⟩
        · have hca : c ≠ a := fun hca => by rw [hca, hout] at hc; cases hc
          simpa [hca] using h.blocked c hc
        · have hca : c ≠ a := fun hca => by rw [hca, hout] at hc; cases hc
          simpa [hca] using h.released c hc
    | last _ _ =>
        cases hs
        refine ⟨fun c hc => absurd hc (Place.wake_ne_blocked _), fun c hc => ?_,
          told_append h.told ⟨fun _ => ?_, nofun⟩⟩
        · have hca : c ≠ a := by
            rintro rfl
            simp [hout, Place.wake] at hc
          -- the calls that waited are released now; the others had been before
          by_cases hblocked : s.bar.place c = .blocked
          · have hle := h.blocked c hblocked
            refine ⟨by simp [broadcastCause, hblocked], ?_⟩
            show Function.update s.began a _ c < s.bar.timer.clock + 1
            rw [Function.update_of_ne hca]
            omega
          · have hrel : s.bar.place c = .released := by
              cases hp : s.bar.place c <;> simp_all [Place.wake]
            obtain ⟨hcause, hlt⟩ := h.released c hrel
            refine ⟨by simpa [broadcastCause, hblocked] using hcause, ?_⟩
            show Function.update s.began a _ c < s.bar.timer.clock + 1
            rw [Function.update_of_ne hca]
            omega
        · show s.bar.timer.clock < s.bar.timer.clock + 1
          omega
    | first _ _ _ =>
        cases hs
        refine ⟨fun c hc => ?_, fun c hc => ?_, h.told⟩
        · by_cases hca : c = a
          · subst hca
            simp [csGetClock]
          · simpa [hca] using h.blocked c (by simpa [hca] using hc)
        · have hca : c ≠ a := by
            rintro rfl
            simp at hc
          simpa [hca] using h.released c (by simpa [hca] using hc)
  · rw [if_neg hout] at hs
    cases hs

theorem leave_inv (h : Inv s) (hs : step s (.leave a) = some s') : Inv s' := by
  obtain ⟨⟨bar, r⟩, hleave, rfl⟩ := Option.map_eq_some_iff.1 hs
  obtain ⟨hrel, rfl, rfl⟩ := Barrier.leave_cases hleave
  obtain ⟨hcause, hlt⟩ := h.released a hrel
  refine ⟨fun c hc => ?_, fun c hc => ?_, told_append h.told ⟨fun _ => hlt, fun hstop => ?_⟩⟩
  · have hca : c ≠ a := by
      rintro rfl
      simp at hc
    exact h.blocked c (by simpa [hca] using hc)
  · have hca : c ≠ a := by
      rintro rfl
      simp at hc
    exact h.released c (by simpa [hca] using hc)
  · rw [show s.cause a = some .stop from hstop] at hcause
    cases hcause

theorem step_inv {l : Label A} (h : Inv s) (hok : Clean s l) (hs : step s l = some s') : Inv s' := by
  cases l with
  | call a => exact call_inv h hs
  | leave a => exact leave_inv h hs
  | wake a => exact hok.elim
  | stop =>
      cases hs
      have hnone : ∀ c, s.bar.place c ≠ .blocked := hok
      refine ⟨fun c hc => absurd hc (Place.wake_ne_blocked _), fun c hc => ?_, h.told⟩
      have hrel : s.bar.place c = .released := by
        have hne := hnone c
        cases hp : s.bar.place c <;> simp_all [Barrier.timeStop, Place.wake]
      simpa [broadcastCause, hnone c, Barrier.timeStop] using h.released c hrel

end Steps

/-- **Zero tells a tick and a stop shows**, in every run in which nobody waits when the timer
is stopped and no wake-up is spurious. -/
theorem sync_tells (nsync : Int) (s : State A) (h : Lts.ReachableIf (system A nsync) Clean s) :
    ∀ x ∈ s.returns, (x.value = 0 → x.began < x.ended) ∧ (x.cause = some .stop → x.value < 0) := by
  have hinv : Inv s := by
    apply h.invariant (I := Inv)
    · intro s hs
      rw [show s = init A nsync from hs]
      exact init_inv nsync
    · intro s l t hi hok hs
      exact step_inv hi hok hs
  intro x hx
  exact ⟨(hinv.told x hx).tick, (hinv.told x hx).stopped⟩

instance [Fintype A] (s : State A) (l : Label A) : Decidable (Clean s l) :=
  match l with
  | .wake _ => .isFalse fun h => h
  | .stop => inferInstanceAs (Decidable (∀ a, s.bar.place a ≠ .blocked))
  | .call _ | .leave _ => .isTrue trivial

/-- Two actors complete a round; the timer is stopped before the first has left it, and the
second, which calls again, is told so. -/
theorem sync_tells_two : ∃ s : State (Fin 2), Lts.ReachableIf (system (Fin 2) 2) Clean s ∧
    s.returns.map (·.value) = [0, -1, 0] ∧
    ∀ x ∈ s.returns, (x.value = 0 → x.began < x.ended) ∧ (x.cause = some .stop → x.value < 0) := by
  obtain ⟨s, hs, hp⟩ := Lts.exec_of_any (f := Lts.guarded Clean step) (s := init (Fin 2) 2)
    (p := fun s => decide (s.returns.map (·.value) = [0, -1, 0]))
    (l := [.call 0, .call 1, .stop, .call 1, .leave 0]) (by decide +kernel)
  have hreach : Lts.ReachableIf (system (Fin 2) 2) Clean s := ⟨_, rfl, Lts.exec_guarded_run hs⟩
  exact ⟨s, hreach, of_decide_eq_true hp, sync_tells 2 s hreach⟩

/-- One of two actors waits when the timer is stopped: it returns 0, and the clock has not
moved. -/
theorem stop_returns_zero : ∃ s : State (Fin 2), Lts.Reachable (system (Fin 2) 2) s ∧
    ¬ ∀ x ∈ s.returns, (x.value = 0 → x.began < x.ended) ∧ (x.cause = some .stop → x.value < 0) := by
  obtain ⟨s, hs, hp⟩ := Lts.exec_of_any (f := step) (s := init (Fin 2) 2)
    (p := fun s => decide (s.returns =
      [{ actor := 0, value := 0, began := 0, ended := 0, cause := some .stop }]))
    (l := [.call 0, .stop, .leave 0]) (by decide +kernel)
  have hreturns := of_decide_eq_true hp
  refine ⟨s, Lts.exec_reachable rfl hs, fun hall => ?_⟩
  have htick := (hall { actor := 0, value := 0, began := 0, ended := 0, cause := some .stop }
    (by rw [hreturns]; simp)).1 rfl
  revert htick
  decide

end ComplexSim.Wakeup
