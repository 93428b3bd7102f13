import ComplexSim.Lib.Transition
import ComplexSim.Timer.Basic

/-!
# Waiting for the completion of events (`wait_event_completion`, `_signal_event_completion`)

A caller that finds its tick not completed goes to `pthread_cond_wait` once: when it has the mutex
back it returns, whatever woke it, and does not look at `last_completion` again. So it returns too
early after a spurious wake-up, and after the signal of an earlier tick; in the runs without these
it returns when its tick is completed.

`returns` only records what happened: no step reads it.
-/

namespace ComplexSim.WaitCompletion

variable {T : Type*}

/-- A call of `wait_event_completion` for the tick `clock`, and `last_completion` when it returned. -/
structure Return (T : Type*) where
  caller : T
  clock : Int
  last : Int
  deriving DecidableEq

/-- What the two functions read of an event manager, and its callers. -/
structure State (T : Type*) where
  lastCompletion : Int
  /-- where a caller is in `pthread_cond_wait` -/
  place : T → Place
  /-- the argument of its last call -/
  clock : T → Int
  returns : List (Return T)

inductive Label (T : Type*) where
  /-- `wait_event_completion(evm, clock)`, up to `pthread_cond_wait` or to its end -/
  | wait (t : T) (clock : Int)
  /-- the caller, woken, takes the mutex back and returns -/
  | leave (t : T)
  /-- `pthread_cond_wait` of the caller returns without a broadcast -/
  | wake (t : T)
  /-- `_signal_event_completion(evm, clock)` -/
  | signal (clock : Int)

/-- An event manager as `cs_init_event_manager` leaves it. -/
def init (T : Type*) : State T where
  lastCompletion := 0
  place := fun _ => .out
  clock := fun _ => 0
  returns := []

variable [DecidableEq T]

/-- The end of a call. -/
def ret (s : State T) (t : T) (clock : Int) : State T :=
  { s with
    place := Function.update s.place t .out
    returns := s.returns ++ [{ caller := t, clock := clock, last := s.lastCompletion }] }

def step (s : State T) : Label T → Option (State T)
  | .wait t clock =>
      if s.place t = .out then
        if s.lastCompletion < clock then
          some { s with place := Function.update s.place t .blocked, clock := Function.update s.clock t clock }
        else some (ret s t clock)
      else none
  | .leave t => if s.place t = .released then some (ret s t (s.clock t)) else none
  | .wake t =>
      if s.place t = .blocked then some { s with place := Function.update s.place t .released } else none
  | .signal clock => some { s with lastCompletion := clock, place := fun t => (s.place t).wake }

/-- The runs of an event manager with the callers `T`. -/
def system (T : Type*) [DecidableEq T] : Lts.System (State T) (Label T) := .ofFn (· = init T) step

/-- No wake-up is spurious, and no signal is for a tick before that of a caller who waits or who
has been woken and has not returned. -/
def Timely (s : State T) : Label T → Prop
  | .wake t => s.place t ≠ .blocked
  | .signal clock => ∀ t, s.place t ≠ .out → s.clock t ≤ clock
  | .wait _ _ | .leave _ => True

/-- Whoever has been woken finds its tick completed. -/
structure Inv (s : State T) : Prop where
  released : ∀ t, s.place t = .released → s.clock t ≤ s.lastCompletion
  returns : ∀ r ∈ s.returns, r.clock ≤ r.last

section Steps

variable {s s' : State T} {t : T} {l : Label T}

omit [DecidableEq T] in
theorem init_inv : Inv (init T) := ⟨nofun, nofun⟩

theorem Inv.ret (h : Inv s) {clock : Int} (hdone : clock ≤ s.lastCompletion) : Inv (ret s t clock) := by
  refine ⟨fun u hu => ?_, fun r hr => ?_⟩
  · by_cases hut : u = t
    · subst hut
      simp [WaitCompletion.ret] at hu
    · exact h.released u (by simpa [WaitCompletion.ret, hut] using hu)
  · rcases List.mem_append.1 hr with hr | hr
    · exact h.returns r hr
    · obtain rfl := List.mem_singleton.1 hr
      exact hdone

theorem step_inv (h : Inv s) (hok : Timely s l) (hs : step s l = some s') : Inv s' := by
  cases l with
  | wait t clock =>
      simp only [step] at hs
      split at hs
      · split at hs <;> cases hs
        · refine ⟨fun u hu => ?_, h.returns⟩
          have hut : u ≠ t := by
            rintro rfl
            simp at hu
          simpa [hut] using h.released u (by simpa [hut] using hu)
        · exact h.ret (not_lt.1 ‹_›)
      · cases hs
  | leave t =>
      simp only [step] at hs
      split at hs <;> cases hs
      exact h.ret (h.released t ‹_›)
  | wake t =>
      simp only [step] at hs
      split at hs
      · exact absurd ‹_› hok
      · cases hs
  | signal clock =>
      cases hs
      refine ⟨fun u hu => ?_, h.returns⟩
      apply hok u
      intro hout
      simp [hout, Place.wake] at hu

theorem ret_early {clock : Int} (hlt : s.lastCompletion < clock) : ∃ r ∈ (ret s t clock).returns, r.last < r.clock :=
  ⟨_, List.mem_append_right _ (List.mem_singleton_self _), hlt⟩

/-- Whoever is blocked waits for a tick that is not completed. -/
theorem blocked_waits (h : Lts.ReachableIf (system T) Timely s) :
    ∀ t, s.place t = .blocked → s.lastCompletion < s.clock t := by
  apply h.invariant (I := fun s => ∀ t, s.place t = .blocked → s.lastCompletion < s.clock t)
  · intro s hs t ht
    rw [show s = init T from hs] at ht
    cases ht
  · intro s l s' h hok hs t ht
    change step s l = some s' at hs
    cases l with
    | wait u clock =>
        simp only [step] at hs
        split at hs
        · by_cases htu : t = u
          · subst htu
            split at hs <;> cases hs
            · simpa using ‹_›
            · simp [WaitCompletion.ret] at ht
          · split at hs <;> cases hs
            · simpa [htu] using h t (by simpa [htu] using ht)
            · exact h t (by simpa [WaitCompletion.ret, htu] using ht)
        · cases hs
    | leave u =>
        simp only [step] at hs
        split at hs <;> cases hs
        by_cases htu : t = u
        · subst htu
          simp [WaitCompletion.ret] at ht
        · exact h t (by simpa [WaitCompletion.ret, htu] using ht)
    | wake u =>
        simp only [step] at hs
        split at hs <;> cases hs
        by_cases htu : t = u
        · subst htu
          simp at ht
        · exact h t (by simpa [htu] using ht)
    | signal clock =>
        cases hs
        exact absurd ht (Place.wake_ne_blocked _)

/-- A step that is not timely lets a caller return before its tick is completed. -/
theorem untimely_returns (h : Lts.ReachableIf (system T) Timely s) (hs : step s l = some s')
    (hno : ¬ Timely s l) : ∃ t s'', step s' (.leave t) = some s'' ∧ ∃ r ∈ s''.returns, r.last < r.clock := by
  cases l with
  | wait _ _ | leave _ => exact absurd trivial hno
  | wake t =>
      have hblocked : s.place t = .blocked := not_not.1 hno
      simp only [step, if_pos hblocked] at hs
      cases hs
      refine ⟨t, _, if_pos (Function.update_self ..), ret_early ?_⟩
      exact blocked_waits h t hblocked
  | signal clock =>
      obtain ⟨t, ht⟩ := not_forall.1 hno
      obtain ⟨hin, hlate⟩ := Classical.not_imp.1 ht
      cases hs
      refine ⟨t, _, if_pos ?_, ret_early (not_le.1 hlate)⟩
      show (s.place t).wake = .released
      cases hp : s.place t with
      | out => exact absurd hp hin
      | blocked | released => rfl

end Steps

/-- **A return means completion**, in every run without spurious wake-ups in which nobody is woken by
the signal of an earlier tick; and any other step lets a caller return too early. -/
theorem completion_waited :
    (∀ s : State T, Lts.ReachableIf (system T) Timely s → ∀ r ∈ s.returns, r.clock ≤ r.last) ∧
      ∀ (s s' : State T) (l : Label T), Lts.ReachableIf (system T) Timely s → step s l = some s' → ¬ Timely s l →
        ∃ t s'', step s' (.leave t) = some s'' ∧ ∃ r ∈ s''.returns, r.last < r.clock := by
  constructor
  · intro s h
    have hinv : Inv s := by
      apply h.invariant (I := Inv)
      · intro s hs
        rw [show s = init T from hs]
        exact init_inv
      · intro s l s' hi hok hs
        exact step_inv hi hok hs
    exact hinv.returns
  · intro s s' l h hs hno
    exact untimely_returns h hs hno

instance [Fintype T] (s : State T) (l : Label T) : Decidable (Timely s l) :=
  match l with
  | .wake t => inferInstanceAs (Decidable (s.place t ≠ .blocked))
  | .signal clock => inferInstanceAs (Decidable (∀ t, s.place t ≠ .out → s.clock t ≤ clock))
  | .wait _ _ | .leave _ => .isTrue trivial

/-- Two callers wait for tick 1, and its signal wakes both. -/
theorem completion_waited_two : ∃ s : State (Fin 2), Lts.ReachableIf (system (Fin 2)) Timely s ∧
    s.returns.map (·.last) = [1, 1] ∧ ∀ r ∈ s.returns, r.clock ≤ r.last := by
  obtain ⟨s, hs, hp⟩ := Lts.exec_of_any (f := Lts.guarded Timely step) (s := init (Fin 2))
    (p := fun s => decide (s.returns.map (·.last) = [1, 1]))
    (l := [.wait 0 1, .wait 1 1, .signal 1, .leave 1, .leave 0]) (by decide +kernel)
  have hreach : Lts.ReachableIf (system (Fin 2)) Timely s := ⟨_, rfl, Lts.exec_guarded_run hs⟩
  exact ⟨s, hreach, of_decide_eq_true hp, completion_waited.1 s hreach⟩

/-- A caller that waits for tick 1 is woken by nobody, and returns. -/
theorem spurious_returns : ∃ s : State (Fin 1), Lts.Reachable (system (Fin 1)) s ∧
    ¬ ∀ r ∈ s.returns, r.clock ≤ r.last := by
  obtain ⟨s, hs, hp⟩ := Lts.exec_of_any (f := step) (s := init (Fin 1))
    (p := fun s => decide (s.returns = [{ caller := 0, clock := 1, last := 0 }]))
    (l := [.wait 0 1, .wake 0, .leave 0]) (by decide +kernel)
  have hreturns := of_decide_eq_true hp
  refine ⟨s, Lts.exec_reachable rfl hs, fun hall => ?_⟩
  have hle := hall { caller := 0, clock := 1, last := 0 } (by rw [hreturns]; simp)
  revert hle
  decide

end ComplexSim.WaitCompletion
