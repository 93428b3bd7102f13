import ComplexSim.Lib.Tally
import ComplexSim.Timer.Basic

/-!
# Lockstep: a timer with exactly as many actors as `n_sync`

The actors of a finite type call `cs_time_sync` again and again on a timer whose
`n_sync` is their number, which nobody changes and nobody stops. The barrier has
no generation number and waits without a predicate loop, and yet no actor gets
ahead: an actor outside the barrier has returned as many times as the clock says,
a blocked one too (its round is not complete), and a released one lacks exactly
the return it is about to make. `sync` counts the blocked actors, so a round that
completes finds every other actor blocked, hence none still released.
-/

namespace ComplexSim.Lockstep

variable {A : Type*}

/-- The barrier with, for each actor, how often it has called `cs_time_sync` and
how often a call has returned. -/
structure State (A : Type*) where
  bar : Barrier A
  calls : A → Nat
  rets : A → Nat

inductive Label (A : Type*) where
  /-- the actor calls `cs_time_sync` -/
  | call (a : A)
  /-- the actor, released by a broadcast, returns from it -/
  | leave (a : A)

section

variable [DecidableEq A]

def step (s : State A) : Label A → Option (State A)
  | .call a =>
      if s.bar.place a = .out then
        let (bar, ret) := s.bar.enter a
        some { bar := bar
               calls := Function.update s.calls a (s.calls a + 1)
               rets := if ret.isSome then Function.update s.rets a (s.rets a + 1) else s.rets }
      else none
  | .leave a =>
      (s.bar.leave a).map fun (bar, _) =>
        { s with bar := bar, rets := Function.update s.rets a (s.rets a + 1) }

def init (A : Type*) [Fintype A] : State A where
  bar := { timer := csInitTimerWith (Fintype.card A), place := fun _ => .out }
  calls := fun _ => 0
  rets := fun _ => 0

/-- Every interleaving of the actors' calls. -/
def system (A : Type*) [Fintype A] [DecidableEq A] : Lts.System (State A) (Label A) :=
  .ofFn (· = init A) step

end

/-- The weight of a blocked actor. -/
def isBlocked : Place → Nat
  | .blocked => 1
  | _ => 0

/-- What an actor in place `p` has called and returned when the clock says `k`. -/
def Count (k : Int) (p : Place) (calls rets : Nat) : Prop :=
  match p with
  | .out => (rets : Int) = k ∧ calls = rets
  | .blocked => (rets : Int) = k ∧ calls = rets + 1
  | .released => (rets : Int) + 1 = k ∧ calls = rets + 1

structure Inv [Fintype A] (s : State A) : Prop where
  running : s.bar.timer.stop = false
  nSync : s.bar.timer.nSync = Fintype.card A
  sync : s.bar.timer.sync = tally isBlocked s.bar.place
  sync_lt : s.bar.timer.sync < s.bar.timer.nSync
  count : ∀ a, Count s.bar.timer.clock (s.bar.place a) (s.calls a) (s.rets a)

theorem isBlocked_le (p : Place) : isBlocked p ≤ 1 := by cases p <;> simp [isBlocked]

theorem isBlocked_eq_one {p : Place} : isBlocked p = 1 ↔ p = .blocked := by
  cases p <;> simp [isBlocked]

theorem isBlocked_wake (p : Place) : isBlocked p.wake = 0 := by cases p <;> rfl

variable [Fintype A]

theorem init_inv [Nonempty A] : Inv (init A) where
  running := rfl
  nSync := rfl
  sync := by simp [init, csInitTimerWith, tally, isBlocked]
  sync_lt := by simp [init, csInitTimerWith, Fintype.card_pos]
  count := by simp [init, csInitTimerWith, Count]

/-- The actor that completes a round finds all the others blocked. -/
theorem Inv.others_blocked {s : State A} (h : Inv s) {a : A} (ha : s.bar.place a = .out)
    (hlast : s.bar.timer.sync + 1 = s.bar.timer.nSync) {b : A} (hb : b ≠ a) :
    s.bar.place b = .blocked := by
  have hcard : tally isBlocked s.bar.place + 1 = Fintype.card A := by
    have := h.sync; have := h.nSync; omega
  exact isBlocked_eq_one.1 (one_of_tally_add_one isBlocked_le hcard (by rw [ha]; rfl) hb)

/-- Some actor is not blocked. -/
theorem Inv.exists_not_blocked {s : State A} (h : Inv s) : ∃ a, s.bar.place a ≠ .blocked := by
  have hlt : tally isBlocked s.bar.place < Fintype.card A := by
    have := h.sync; have := h.nSync; have := h.sync_lt; omega
  obtain ⟨a, ha⟩ := exists_of_tally_lt isBlocked_le hlt
  exact ⟨a, fun hb => by simp [hb, isBlocked] at ha⟩

/-- The clock is the number of rounds that every actor has entered. -/
theorem Inv.clock_eq_rounds {s : State A} (h : Inv s) (k : Nat) :
    (k : Int) ≤ s.bar.timer.clock ↔ ∀ a, k ≤ s.calls a := by
  constructor
  · intro hk a
    have ha := h.count a
    cases hp : s.bar.place a <;> simp only [hp, Count] at ha <;> omega
  · intro hall
    obtain ⟨a, hne⟩ := h.exists_not_blocked
    have ha := h.count a
    have := hall a
    cases hp : s.bar.place a <;> simp only [hp, Count] at ha hne <;> first | omega | contradiction

variable [DecidableEq A]

/-- What a call does: it waits as one more blocked actor, or it completes the round. -/
theorem call_cases {s s' : State A} {a : A} (h : Inv s) (hstep : step s (.call a) = some s') :
    s.bar.place a = .out ∧ s'.calls = Function.update s.calls a (s.calls a + 1) ∧
    ((s.bar.timer.sync + 1 < s.bar.timer.nSync ∧ s'.rets = s.rets ∧
        s'.bar = { timer := { s.bar.timer with sync := s.bar.timer.sync + 1 },
                   place := Function.update s.bar.place a .blocked }) ∨
      (s.bar.timer.sync + 1 = s.bar.timer.nSync ∧
        s'.rets = Function.update s.rets a (s.rets a + 1) ∧
        s'.bar = Barrier.broadcast { s.bar with
          timer := { s.bar.timer with clock := s.bar.timer.clock + 1, sync := 0 } })) := by
  obtain ⟨hout, heq⟩ : s.bar.place a = .out ∧ _ = s' := by simpa [step] using hstep
  have hrun := h.running
  have hlt := h.sync_lt
  subst heq
  rcases henter : s.bar.enter a with ⟨bar, r⟩
  cases Barrier.Entered.of henter with
  | stopped hstop =>
      rw [hrun] at hstop
      cases hstop
  | overrun _ hfull => omega
  | last _ hlast => exact ⟨hout, rfl, Or.inr ⟨hlast, rfl, rfl⟩⟩
  | first _ hne hmore => exact ⟨hout, rfl, Or.inl ⟨by omega, rfl, rfl⟩⟩

omit [Fintype A] in
theorem leave_cases {s s' : State A} {a : A} (hstep : step s (.leave a) = some s') :
    s.bar.place a = .released ∧ s'.calls = s.calls ∧
    s'.rets = Function.update s.rets a (s.rets a + 1) ∧
    s'.bar = { s.bar with place := Function.update s.bar.place a .out } := by
  by_cases hrel : s.bar.place a = .released
  · simp only [step, Barrier.leave, hrel, if_true, Option.map_some, Option.some.injEq] at hstep
    subst hstep
    exact ⟨hrel, rfl, rfl, rfl⟩
  · simp [step, Barrier.leave, hrel] at hstep

theorem call_inv {s s' : State A} {a : A} (h : Inv s) (hstep : step s (.call a) = some s') :
    Inv s' := by
  obtain ⟨hout, hcalls, ⟨hlt, hrets, hbar⟩ | ⟨hlast, hrets, hbar⟩⟩ := call_cases h hstep
  · have htally := tally_update isBlocked s.bar.place a .blocked
    refine ⟨?_, ?_, ?_, ?_, fun b => ?_⟩
    · rw [hbar]; exact h.running
    · rw [hbar]; exact h.nSync
    · have := h.sync
      simp only [hout, isBlocked] at htally
      rw [hbar]; simp only; omega
    · rw [hbar]; exact hlt
    · have hb := h.count b
      by_cases hba : b = a
      · subst hba
        simp only [hbar, hcalls, hrets, Function.update_self, Count, hout] at hb ⊢
        omega
      · simpa only [hbar, hcalls, hrets, Function.update_of_ne hba] using hb
  · refine ⟨?_, ?_, ?_, ?_, fun b => ?_⟩
    · rw [hbar]; exact h.running
    · rw [hbar]; exact h.nSync
    · rw [hbar]
      simp only [Barrier.broadcast_timer]
      exact_mod_cast (tally_eq_zero fun b => isBlocked_wake _).symm
    · have := h.nSync; have := h.sync_lt; have := h.sync
      rw [hbar]; simp only [Barrier.broadcast_timer]; omega
    · have hb := h.count b
      by_cases hba : b = a
      · subst hba
        simp only [hbar, hcalls, hrets, Function.update_self, Barrier.broadcast_timer,
          Barrier.broadcast_place, Place.wake, Count, hout] at hb ⊢
        omega
      · have hblocked := h.others_blocked hout hlast hba
        simp only [hbar, hcalls, hrets, Function.update_of_ne hba, Barrier.broadcast_timer,
          Barrier.broadcast_place, hblocked, Place.wake, Count] at hb ⊢
        omega

theorem leave_inv {s s' : State A} {a : A} (h : Inv s) (hstep : step s (.leave a) = some s') :
    Inv s' := by
  obtain ⟨hrel, hcalls, hrets, hbar⟩ := leave_cases hstep
  have htally := tally_update isBlocked s.bar.place a .out
  refine ⟨?_, ?_, ?_, ?_, fun b => ?_⟩
  · rw [hbar]; exact h.running
  · rw [hbar]; exact h.nSync
  · have := h.sync
    simp only [hrel, isBlocked] at htally
    rw [hbar]; simp only; omega
  · rw [hbar]; exact h.sync_lt
  · have hb := h.count b
    by_cases hba : b = a
    · subst hba
      simp only [hbar, hcalls, hrets, Function.update_self, Count, hrel] at hb ⊢
      omega
    · simpa only [hbar, hcalls, hrets, Function.update_of_ne hba] using hb

theorem step_inv {s s' : State A} {l : Label A} (h : Inv s) (hstep : step s l = some s') : Inv s' := by
  cases l with
  | call a => exact call_inv h hstep
  | leave a => exact leave_inv h hstep

theorem reachable_inv [Nonempty A] {s : State A} (h : Lts.Reachable (system A) s) : Inv s :=
  Lts.ReachableIf.invariant (I := Inv) (fun _ hs => by cases hs; exact init_inv)
    (fun _ _ _ hinv _ hstep => step_inv hinv hstep) h

/-- No step moves the clock back, and only a call with every other actor blocked moves it. -/
theorem clock_step {s s' : State A} {l : Label A} (h : Inv s) (hstep : step s l = some s') :
    s'.bar.timer.clock = s.bar.timer.clock ∨
      s'.bar.timer.clock = s.bar.timer.clock + 1 ∧
        ∃ a, l = .call a ∧ ∀ b, b ≠ a → s.bar.place b = .blocked := by
  cases l with
  | call a =>
      obtain ⟨hout, -, ⟨-, -, hbar⟩ | ⟨hlast, -, hbar⟩⟩ := call_cases h hstep
      · exact Or.inl (by rw [hbar])
      · exact Or.inr ⟨by rw [hbar]; rfl, a, rfl, fun b hb => h.others_blocked hout hlast hb⟩
  | leave a =>
      obtain ⟨-, -, -, hbar⟩ := leave_cases hstep
      exact Or.inl (by rw [hbar])

/-- **Lockstep clock.** The clock never moves back and counts the rounds that every actor
has entered; between two calls an actor reads the number of its returns; `sync` stays
below `n_sync`; the actors are never all blocked; and while some actor is released but has
not taken the mutex back, no other one completes a further round. -/
theorem lockstep_clock [Nonempty A] {s : State A} (h : Lts.Reachable (system A) s) :
    (∀ l s', step s l = some s' → s.bar.timer.clock ≤ s'.bar.timer.clock ∧
      s'.bar.timer.clock ≤ s.bar.timer.clock + 1) ∧
    (∀ k : Nat, (k : Int) ≤ s.bar.timer.clock ↔ ∀ a, k ≤ s.calls a) ∧
    (∀ a, s.bar.place a = .out → csGetClock s.bar.timer = s.rets a) ∧
    (0 ≤ s.bar.timer.sync ∧ s.bar.timer.sync < s.bar.timer.nSync) ∧
    (¬ ∀ a, s.bar.place a = .blocked) ∧
    (∀ b, s.bar.place b = .released → ∀ l s', step s l = some s' →
      s'.bar.timer.clock = s.bar.timer.clock) := by
  have hinv := reachable_inv h
  refine ⟨fun l s' hstep => ?_, hinv.clock_eq_rounds, fun a ha => ?_, ⟨?_, hinv.sync_lt⟩, ?_,
    fun b hb l s' hstep => ?_⟩
  · rcases clock_step hinv hstep with hc | ⟨hc, -⟩ <;> omega
  · have hcount := hinv.count a
    simp only [ha, Count] at hcount
    exact hcount.1.symm
  · rw [hinv.sync]; exact Int.natCast_nonneg _
  · intro hall
    obtain ⟨a, ha⟩ := hinv.exists_not_blocked
    exact ha (hall a)
  · rcases clock_step hinv hstep with hc | ⟨-, a, rfl, hblocked⟩
    · exact hc
    · -- the caller is outside the barrier, so the released actor is another one
      have hout := (call_cases hinv hstep).1
      have hne : b ≠ a := fun hba => by rw [hba, hout] at hb; cases hb
      rw [hblocked b hne] at hb
      cases hb

/-- Two actors: one has completed the first round and called again, while the other is
still released. -/
theorem lockstep_clock_two : ∃ s : State (Fin 2),
    Lts.exec step [.call 0, .call 1, .call 1] (init (Fin 2)) = some s ∧
    s.bar.place 0 = .released ∧ s.bar.place 1 = .blocked ∧
    ∀ l s', step s l = some s' → s'.bar.timer.clock = s.bar.timer.clock := by
  obtain ⟨s, hs, hplace⟩ := Lts.exec_of_any (f := step)
    (p := fun s : State (Fin 2) => decide (s.bar.place 0 = .released ∧ s.bar.place 1 = .blocked))
    (l := [.call 0, .call 1, .call 1]) (s := init (Fin 2)) (by decide +kernel)
  obtain ⟨hrel, hblocked⟩ := of_decide_eq_true hplace
  have hreach : Lts.Reachable (system (Fin 2)) s := Lts.exec_reachable rfl hs
  exact ⟨s, hs, hrel, hblocked, (lockstep_clock hreach).2.2.2.2.2 0 hrel⟩

end ComplexSim.Lockstep
