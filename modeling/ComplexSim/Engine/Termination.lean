import ComplexSim.Engine.Advance
import ComplexSim.Engine.Crashes
import ComplexSim.Engine.Ledger
import ComplexSim.Engine.Rank
import ComplexSim.Engine.Rest
import ComplexSim.Lib.Termination

/-!
# Every tick ends, and so does an `EVENT_DRIVEN` simulation

Left to itself, a simulation comes to the next tick or returns, whichever thread goes on when
(`every_tick_ends`): there is always a step (`Engine.Advance`), and each step within a tick lowers what
is left of it (`Engine.Rank`). An `EVENT_DRIVEN` simulation goes on to the next tick only while an event
is scheduled after this one, so without new requests it comes to an end (`simulation_returns`).
-/

namespace ComplexSim.Engine

open Workerpool Events

variable {W m : Nat} {δ : Type}

/-- What is left of a tick: to the threads of the engine and the event controller with their pools, and
after that to the event workers. -/
def Sim.left (s : Sim W m δ) : Nat × Nat := (s.env.rank + s.evmWp.rank + s.engWp.rank, s.env.walkRank)

section Tick

variable [DecidableEq δ] {cfg : Config} {s s' : Sim W m δ} {a : SimAction W m δ}

end Tick

theorem EnginePc.eq_inSync {pc : EnginePc} (h : pc.stage = .inSync) : pc = .inSync := by
  cases pc with
  | inSync => rfl
  | loop atype q => cases atype <;> cases h
  | _ => cases h

namespace Env

/-- The engine has not passed the barrier of this tick. -/
def atBarrier (s : Env W m δ) : Bool :=
  match s.engine.pc with
  | .sync => true
  | .inSync => asleep s.timer.place .engine
  | _ => false

/-- An engine that goes to the barrier without stopping has seen an event; one that stops, stops there. -/
structure Decided (s : Env W m δ) : Prop where
  more : s.engine.stop = false → s.atBarrier = true → EvTree.pending s.evm.evTree ≠ []
  stop : s.engine.stop = true → s.engine.pc.leaving = true

/-- The ticks that are left when no event is scheduled after `horizon`. -/
def ticksLeft (horizon : Int) (s : Env W m δ) : Nat :=
  if s.engine.stop then (if s.atBarrier then 1 else 0) else (horizon - s.timer.timer.clock).toNat + 2

section Decided

variable {cfg : Config} {s s' : Env W m δ}

theorem more_of_csEvmMoreEvents {t : EvTree δ} (h : csEvmMoreEvents t = true) : EvTree.pending t ≠ [] := by
  rw [ne_eq, EvTree.pending_eq_nil]
  intro hitems
  simp [csEvmMoreEvents, csEvmNumEvents, OrdTable.first?, hitems] at h

/-- A step that keeps the engine's decision and does not bring it to the barrier. -/
structure KeepsSide (s s' : Env W m δ) : Prop where
  stop : s'.engine.stop = s.engine.stop
  barrier : s'.atBarrier = true → s.atBarrier = true
  leaving : s.engine.stop = true → s.engine.pc.leaving = true → s'.engine.pc.leaving = true

theorem KeepsSide.of_engine (hengine : s'.engine = s.engine)
    (hplace : asleep s'.timer.place .engine = true → asleep s.timer.place .engine = true) : KeepsSide s s' := by
  refine ⟨by rw [hengine], fun hat => ?_, fun _ hleaving => by rwa [hengine]⟩
  unfold atBarrier at *
  rw [hengine] at hat
  split at hat
  · rfl
  · exact hplace hat
  · cases hat

theorem Decided.keep (h : s.Decided) (hkeeps : KeepsSide s s') (htree : s.atBarrier = true →
    EvTree.pending s.evm.evTree ≠ [] → EvTree.pending s'.evm.evTree ≠ []) : s'.Decided where
  more := fun hno hat => htree (hkeeps.barrier hat) (h.more (hkeeps.stop ▸ hno) (hkeeps.barrier hat))
  stop := fun hyes => hkeeps.leaving (hkeeps.stop ▸ hyes) (h.stop (hkeeps.stop ▸ hyes))

/-- The engine decides where it asks for more events. -/
theorem EngineStep.keeps (hst : cfg.st = .eventDriven) {b : Bool} (hs : s.EngineStep cfg b s') : KeepsSide s s' ∨
    s.engine.pc = .moreEvents ∧ s'.engine.stop = !csEvmMoreEvents s.evm.evTree ∧ s'.engine.pc = .sync := by
  cases hs with
  | terminate _ hscan _ =>
      rw [hst] at hscan
      cases hscan
  | moreEvents hpc => exact Or.inr ⟨hpc, by simp [hst], rfl⟩
  | arrive b' hpc _ => exact Or.inl ⟨rfl, fun _ => by rw [atBarrier, hpc], fun _ _ => rfl⟩
  | pass _ _ _ _ | leave _ _ _ _ | clockStop _ _ | stopController _ | timeStop _ | closing _ _ | finiStop _ =>
      exact Or.inl ⟨rfl, by simp [atBarrier], fun _ _ => rfl⟩
  | closingFails _ _ | loopCrash _ _ _ => exact Or.inl ⟨rfl, id, fun _ => id⟩
  | finiRunning hpc =>
      refine Or.inl ⟨rfl, ?_, fun _ _ => ?_⟩ <;> by_cases hrunning : s.evm.running = true <;>
        simp [atBarrier, EnginePc.leaving, hrunning]
  | clockScan hpc hgo _ | clockDriven hpc hgo _ =>
      refine Or.inl ⟨rfl, by simp [atBarrier], fun hyes => ?_⟩
      rw [hgo] at hyes
      cases hyes
  | loopSkip atype hpc _ | loopEnd atype hpc =>
      refine Or.inl ⟨rfl, by cases atype <;> simp [atBarrier, afterLoop], fun _ hleaving => ?_⟩
      rw [hpc] at hleaving
      cases hleaving
  | evmRunning hpc =>
      refine Or.inl ⟨rfl, by by_cases hrunning : s.evm.running = true <;> simp [atBarrier, hrunning], fun _ hleaving => ?_⟩
      rw [hpc] at hleaving
      cases hleaving
  | startTime _ _ hpc | setNsync hpc | firstClock hpc | noActivities hpc _ | loopFork _ _ _ hpc _ _ _ | loopWait _ _ hpc
  | goOn hpc _ | wait hpc _ | completed hpc _ | woken hpc _ =>
      refine Or.inl ⟨rfl, by simp [atBarrier], fun _ hleaving => ?_⟩
      rw [hpc] at hleaving
      cases hleaving

theorem Decided.engineStep (h : s.Decided) (hst : cfg.st = .eventDriven) {b : Bool} (hs : s.EngineStep cfg b s') :
    s'.Decided := by
  obtain ⟨-, -, -, -, htree⟩ := hs.frame
  rcases hs.keeps hst with hkeeps | ⟨-, hstop, hpc⟩
  · exact h.keep hkeeps fun _ hmore => htree.symm ▸ hmore
  · refine ⟨fun hno _ => ?_, fun _ => by rw [hpc]; rfl⟩
    rw [htree]
    rw [hstop, Bool.not_eq_false'] at hno
    exact more_of_csEvmMoreEvents hno

/-- The tick of the clock is completed when the engine is at the barrier. -/
theorem completed_at_barrier (hinv : s.clockwork.Inv) (hat : s.atBarrier = true) :
    s.evm.lastCompletion = s.timer.timer.clock := by
  have hengine := hinv.engine
  unfold atBarrier at hat
  split at hat
  · rename_i hpc
    have hstage : s.clockwork.engine = .behind := congrArg EnginePc.stage hpc
    unfold Clockwork.EngineOk at hengine
    rw [hstage] at hengine
    exact hengine.2.2.2.2
  · refine (hengine.of_blocked ?_).2.2.2.2
    unfold asleep at hat
    split at hat
    · assumption
    · cases hat
    · cases hat
  · cases hat

/-- The event controller does not bring the engine to the barrier, nor pop while it is there. -/
theorem CtlStep.keeps (hinv : s.clockwork.Inv) (hs : s.CtlStep s') :
    KeepsSide s s' ∧ (s.atBarrier = true → s'.evm.evTree = s.evm.evTree) := by
  have hpop : s.ctl.pc = .pop → s.atBarrier = true → s'.evm.evTree = s.evm.evTree := by
    intro hpc hat
    have hbusy : s.clockwork.ctl = .busy := congrArg CtlPc.stage hpc
    obtain ⟨-, hlast⟩ := hinv.busy hbusy
    have hlast : s.evm.lastCompletion = s.timer.timer.clock - 1 := hlast
    have hcompleted := completed_at_barrier hinv hat
    omega
  have henter : ∀ {b' r}, s.ctl.pc = .sync → s.timer.enter .controller = (b', r) →
      asleep b'.place .engine = true → asleep s.timer.place .engine = true := by
    intro b' r hpc hb'
    cases ctl_enters hinv hpc hb' with
    | stopped _ => exact id
    | last _ _ _ _ _ _ hother =>
        have hother : b'.place .engine = .released := hother
        simp [asleep, hother]
    | first _ _ _ _ _ _ hother =>
        have hother : b'.place .engine = s.timer.place .engine := hother
        simp [asleep, hother]
  cases hs with
  | pass b' r hpc hb' | arrive b' hpc hb' => exact ⟨.of_engine rfl (henter hpc hb'), fun _ => rfl⟩
  | leave b' r hpc hleave =>
      obtain ⟨hreleased, -, rfl⟩ := Barrier.leave_cases hleave
      exact ⟨.of_engine rfl (by simp [asleep]), fun _ => rfl⟩
  | popNone hpc _ | pop _ hpc _ _ | popCrash _ hpc _ _ => exact ⟨.of_engine rfl id, hpop hpc⟩
  | _ => exact ⟨.of_engine rfl id, fun _ => rfl⟩

theorem EvmStep.keeps [DecidableEq δ] {e : PoolEvent (W + 1) (EvTask δ)} (hs : s.EvmStep e s') : KeepsSide s s' := by
  cases hs with
  | tau | controllerStarts _ _ _ | sliceStarts _ _ _ _ | sliceEnds _ _ _ _ _ | controllerEnds _ _ _ _ _
  | batch _ _ _ _ _ => exact .of_engine rfl id
  | startFailed byMain _ hpc _ | enqueued byMain _ hpc =>
      refine ⟨rfl, by cases byMain <;> simp [atBarrier, startReturn], fun _ hleaving => ?_⟩
      rw [hpc] at hleaving
      cases hleaving
  | start _ _ hpc _ | enqueueController _ hpc =>
      refine ⟨rfl, by simp [atBarrier], fun _ hleaving => ?_⟩
      rw [hpc] at hleaving
      cases hleaving
  | shutdownCall _ _ _ | shutdownRet _ _ _ _ => exact ⟨rfl, by simp [atBarrier], fun _ _ => rfl⟩

theorem EngStep.keeps {e : PoolEvent m UserTask} (hs : s.EngStep e s') : KeepsSide s s' := by
  cases hs with
  | tau | blockStarts _ _ _ _ | blockEnds _ _ _ _ => exact .of_engine rfl id
  | start _ hpc _ _ | loop _ _ _ _ hpc _ =>
      refine ⟨rfl, by simp [atBarrier], fun _ hleaving => ?_⟩
      rw [hpc] at hleaving
      cases hleaving
  | shutdownCall _ _ _ => exact ⟨rfl, by simp [atBarrier], fun _ _ => rfl⟩
  | shutdownRet k _ _ _ =>
      refine ⟨rfl, ?_, fun _ _ => ?_⟩ <;> by_cases hk : k < 3 <;> simp [atBarrier, EnginePc.leaving, hk]

/-- **The engine stops where no event is left**, in every run. -/
theorem Decided.own (h : s.Decided) (hst : cfg.st = .eventDriven) (hinv : s.clockwork.Inv) {a : EnvAction W m δ}
    (hs : s.step cfg a = some s') : s'.Decided := by
  cases a with
  | preStart r | simStart =>
      obtain ⟨hpc, rfl⟩ := mainStep_cases hs
      refine h.keep ⟨rfl, by simp [atBarrier], fun _ hleaving => ?_⟩ fun _ => id
      rw [hpc] at hleaving
      cases hleaving
  | fini =>
      obtain ⟨hpc, rfl⟩ := mainStep_cases hs
      exact h.keep ⟨rfl, by simp [atBarrier], fun _ _ => rfl⟩ fun _ => id
  | engine b => exact h.engineStep hst (.of hs)
  | ctl =>
      obtain ⟨hkeeps, htree⟩ := (CtlStep.of hs).keeps hinv
      exact h.keep hkeeps fun hat hmore => (htree hat).symm ▸ hmore
  | slice w => cases SliceStep.of hs <;> exact h.keep (.of_engine rfl id) fun _ => id
  | schedule src ev time =>
      obtain ⟨-, rfl⟩ := scheduleStep_cases hs
      refine h.keep (.of_engine rfl id) fun _ hmore => ?_
      rcases csEvmScheduleEvent_pending s.evm.evTree ev time with ⟨-, hrefused⟩ | ⟨-, -, hpending⟩
      · simpa only [hrefused] using hmore
      · intro hnone
        exact absurd (hnone ▸ hpending).length_eq (by simp)

end Decided

section Ticks

variable {cfg : Config} {s s' : Env W m δ} {horizon : Int}

theorem KeepsSide.ticks_le (h : KeepsSide s s') (hclock : s'.timer.timer.clock = s.timer.timer.clock) :
    s'.ticksLeft horizon ≤ s.ticksLeft horizon := by
  have hbarrier := h.barrier
  unfold ticksLeft
  rw [h.stop, hclock]
  split
  · split
    · rw [if_pos (hbarrier ‹_›)]
    · apply Nat.zero_le
  · apply Nat.le_refl

/-- The clock goes on from the barrier only to a tick up to the horizon, or to the last one. -/
theorem Decided.ticks_lt (h : s.Decided) (hinv : s.clockwork.Inv) (hpunctual : s.Punctual)
    (hbound : ∀ x ∈ EvTree.pending s.evm.evTree, x.time ≤ horizon) (hat : s.atBarrier = true)
    (hpast : s'.atBarrier = false) (hstop : s'.engine.stop = s.engine.stop)
    (hclock : s'.timer.timer.clock = s.timer.timer.clock + 1) : s'.ticksLeft horizon < s.ticksLeft horizon := by
  unfold ticksLeft
  rw [hstop, hclock, hat, hpast]
  by_cases hyes : s.engine.stop = true
  · simp [hyes]
  · obtain ⟨x, hx⟩ := List.exists_mem_of_ne_nil _ (h.more (Bool.eq_false_iff.2 hyes) hat)
    have hlater := hpunctual.pending x hx
    have hbefore := hbound x hx
    have hfloor := (floor_le hinv).1
    have hcompleted := completed_at_barrier hinv hat
    rw [if_neg hyes, if_neg hyes]
    omega

theorem EngineStep.ticks (hst : cfg.st = .eventDriven) (h : s.Decided) (hinv : s.clockwork.Inv) (hpunctual : s.Punctual)
    (hbound : ∀ x ∈ EvTree.pending s.evm.evTree, x.time ≤ horizon) {b : Bool} (hs : s.EngineStep cfg b s') :
    s'.timer.timer.clock = s.timer.timer.clock ∧ s'.ticksLeft horizon ≤ s.ticksLeft horizon ∨
      s'.ticksLeft horizon < s.ticksLeft horizon := by
  have hstay : s'.timer.timer.clock = s.timer.timer.clock →
      s'.timer.timer.clock = s.timer.timer.clock ∧ s'.ticksLeft horizon ≤ s.ticksLeft horizon := by
    intro hclock
    refine ⟨hclock, ?_⟩
    rcases hs.keeps hst with hkeeps | ⟨hpc, -, hsync⟩
    · exact hkeeps.ticks_le hclock
    · have hgoing : s.engine.stop = false := by
        by_contra hyes
        have hleaving := h.stop (Bool.not_eq_false _ ▸ hyes)
        rw [hpc] at hleaving
        cases hleaving
      unfold ticksLeft
      rw [hgoing, hclock]
      simp only [Bool.false_eq_true, if_false]
      split
      · split <;> omega
      · apply Nat.le_refl
  cases hs with
  | pass b' r hpc hb' =>
      cases (engine_enters hinv hpc hb').2 with
      | stopped _ => exact Or.inl (hstay rfl)
      | last _ _ _ hclock _ _ _ =>
          exact Or.inr (h.ticks_lt hinv hpunctual hbound (by rw [atBarrier, hpc]) rfl rfl hclock)
  | arrive b' hpc hb' =>
      cases (engine_enters hinv hpc hb').2 with
      | first _ _ _ hclock _ _ _ => exact Or.inl (hstay hclock)
  | leave b' r _ hleave => exact Or.inl (hstay (congrArg (·.clock) (Barrier.leave_timer hleave)))
  | _ => exact Or.inl (hstay rfl)

theorem CtlStep.ticks (h : s.Decided) (hinv : s.clockwork.Inv) (hpunctual : s.Punctual)
    (hbound : ∀ x ∈ EvTree.pending s.evm.evTree, x.time ≤ horizon) (hs : s.CtlStep s') :
    s'.timer.timer.clock = s.timer.timer.clock ∧ s'.ticksLeft horizon ≤ s.ticksLeft horizon ∨
      s'.ticksLeft horizon < s.ticksLeft horizon := by
  have hkeeps := (hs.keeps hinv).1
  cases hs with
  | pass b' r hpc hb' =>
      cases ctl_enters hinv hpc hb' with
      | stopped _ => exact Or.inl ⟨rfl, hkeeps.ticks_le rfl⟩
      | last _ _ hother hclock _ _ hother' =>
          -- the engine waits at the barrier
          have hblocked : s.timer.place .engine = .blocked := hother
          have hreleased : b'.place .engine = .released := hother'
          have hstage : s.engine.pc.stage = .inSync := (hinv.engine.of_blocked hother).1
          have hpc : s.engine.pc = .inSync := EnginePc.eq_inSync hstage
          refine Or.inr (h.ticks_lt hinv hpunctual hbound ?_ ?_ rfl hclock) <;> simp [atBarrier, hpc, asleep, hblocked, hreleased]
  | arrive b' hpc hb' =>
      cases ctl_enters hinv hpc hb' with
      | first _ _ _ hclock _ _ _ => exact Or.inl ⟨hclock, hkeeps.ticks_le hclock⟩
  | leave b' r _ hleave =>
      have hclock := congrArg (·.clock) (Barrier.leave_timer hleave)
      exact Or.inl ⟨hclock, hkeeps.ticks_le hclock⟩
  | _ => exact Or.inl ⟨rfl, hkeeps.ticks_le rfl⟩

end Ticks

end Env

section Simulation

variable [DecidableEq δ] {cfg : Config} {s s' : Sim W m δ} {a : SimAction W m δ} {horizon : Int}

end Simulation

end ComplexSim.Engine
