import ComplexSim.Engine.ActivityPool
import ComplexSim.Engine.Timing
import ComplexSim.Workerpool.Rank

/-!
# The work left in a tick

`Env.rank` bounds the steps that the engine and the event controller still take before the clock goes on
or the simulation is over, with what they still add to the ranks of the two pools. A thread that waits at
the barrier has nothing left to do; one that has been released, the whole tick. Within a tick only
`cs_time_stop` releases anybody, and the engine pays for the event controller that it releases.
`Env.walkRank` bounds the steps of the event workers under way.
-/

namespace ComplexSim.Engine

open Workerpool Events

variable {W m : Nat} {δ : Type}

/-- What the tasks of a tick cost the event controller. -/
def batchRank (W : Nat) : Nat := (queuedRank (W + 1) + 12) * W + 1

/-- What the blocks of a loop cost the engine, if there are `total` tasks of activities. -/
def loopRank (m total : Nat) : Nat := (queuedRank m + 12) * total + 1

/-- The thread waits at the barrier, and nobody has released it. -/
def asleep (place : Actor → Place) (a : Actor) : Bool :=
  match place a with
  | .blocked => true
  | .out | .released => false

/-- The steps left to the event controller in a tick. -/
def CtlPc.rank (W : Nat) (blocked : Bool) : CtlPc δ → Nat
  | .gone => 0
  | .returned => 1
  | .setNotRunning => 2
  | .inSync => if blocked then 3 else batchRank W + 11
  | .sync => 4
  | .signal => 5
  | .batch j => j.rank (W + 1) + 6
  | .pop => batchRank W + 8
  | .shouldStop => batchRank W + 9
  | .clock => batchRank W + 10
  | .setRunning => batchRank W + 12
  | .firstClock => batchRank W + 13
  | .begin => batchRank W + 14
  | .off => batchRank W + 15

/-- The steps left to the engine in a tick. -/
def EnginePc.rank (W m total : Nat) (blocked : Bool) : EnginePc → Nat
  | .main | .returned | .fini _ | .done => 0
  | .closing => 1
  | .timeStop => batchRank W + 10
  | .stopController => batchRank W + 11
  | .inSync => if blocked then 1 else 2 * loopRank m total + batchRank W + 13
  | .sync => 2
  | .moreEvents => 3
  | .term => 4
  | .loop .afterStep (.join j) => j.rank m + 5
  | .loop .afterStep .clock => loopRank m total + 6
  | .inCompletion => loopRank m total + 7
  | .completion => loopRank m total + 8
  | .loop .user (.join j) => loopRank m total + j.rank m + 9
  | .loop .user .clock => 2 * loopRank m total + 10
  | .clock => 2 * loopRank m total + batchRank W + 12
  | .wpStart => loopRank m total + 7
  | .start _ .inEnqueue => loopRank m total + 8
  | .start _ .enqueue => loopRank m total + queuedRank (W + 1) + 15
  | .start _ .wp => loopRank m total + queuedRank (W + 1) + 16
  | .start _ (.startTime _) => loopRank m total + queuedRank (W + 1) + 17
  | .evmRunning => loopRank m total + queuedRank (W + 1) + 18
  | .firstClock => loopRank m total + queuedRank (W + 1) + 19
  | .setNsync => loopRank m total + queuedRank (W + 1) + 20

/-- The steps left to an event worker. -/
def SliceRun.rank (r : SliceRun δ) : Nat := 2 * (r.data.numEvents - r.c).toNat + if r.handling.isSome then 1 else 0

namespace Env

/-- A bound on the steps of the engine and the event controller in a tick. -/
def rank (s : Env W m δ) : Nat :=
  s.engine.pc.rank W m (totalTasks s.engine.activities) (asleep s.timer.place .engine) +
    s.ctl.pc.rank W (asleep s.timer.place .controller)

/-- A bound on the steps of the event workers under way. -/
def walkRank (s : Env W m δ) : Nat := tally (fun r => r.elim 0 SliceRun.rank) s.slices

end Env

section Parts

/-- A release costs the event controller one tick at most. -/
theorem CtlPc.rank_le (pc : CtlPc δ) (b b' : Bool) : pc.rank W b ≤ pc.rank W b' + (batchRank W + 8) := by
  cases pc <;> cases b <;> cases b' <;> simp only [CtlPc.rank, if_true, Bool.false_eq_true, if_false] <;> omega

/-- A loop has no more blocks than its activities have tasks. -/
theorem scheduleActivities_length {curTime : Int} {atype : ActivityType} {i : Nat} {l l' : List CsUserActivity}
    {codes : List UserTask} (h : scheduleActivities curTime atype i l = some (codes, l')) : codes.length ≤ totalTasks l := by
  induction l generalizing i codes l' with
  | nil =>
      cases h
      apply Nat.le_refl
  | cons a rest ih =>
      unfold scheduleActivities at h
      split at h
      · rename_i codes₀ rest' hdue hrest
        cases h
        have hle := ih hrest
        simp only [totalTasks, List.map_cons, List.sum_cons] at *
        simp only [blocksOf, List.length_append, List.length_map, List.length_range]
        omega
      · rename_i codes₀ rest' hdue hrest
        cases h
        have hle := ih hrest
        simp only [totalTasks, List.map_cons, List.sum_cons] at *
        omega
      · cases h

/-- What the blocks of a loop cost is paid for before it. -/
theorem fork_rank {xs : List UserTask} {total : Nat} (hle : xs.length ≤ total) :
    (Join.enqueue xs []).rank m ≤ loopRank m total := by
  have hmul := Nat.mul_le_mul_left (queuedRank m + 12) hle
  simp only [Join.rank, loopRank, List.length_nil]
  omega

/-- The same for the tasks of a tick. -/
theorem batch_rank (evList : CsEventList δ) :
    (Join.enqueue ((sliceTasks evList W).map EvTask.slice) []).rank (W + 1) ≤ batchRank W := by
  have hlength : ((sliceTasks evList W).map EvTask.slice).length ≤ W := by
    rw [List.length_map]
    simp only [sliceTasks, List.length_map, List.length_range]
    apply Nat.min_le_left
  have hmul := Nat.mul_le_mul_left (queuedRank (W + 1) + 12) hlength
  simp only [Join.rank, batchRank, List.length_nil]
  omega

end Parts

namespace Env

variable {cfg : Config} {s s' : Env W m δ}

/-- The engine enters a barrier that has not been stopped. -/
theorem engine_enters (hinv : s.clockwork.Inv) (hpc : s.engine.pc = .sync) {b : Barrier Actor} {r : Option Int}
    (henter : s.timer.enter .engine = (b, r)) : s.timer.timer.stop = false ∧ Entered s.timer .engine b r := by
  have hengine := hinv.engine
  have hstage : s.clockwork.engine = .behind := congrArg EnginePc.stage hpc
  unfold Clockwork.EngineOk at hengine
  rw [hstage] at hengine
  obtain ⟨-, hgoing, -, hout, -⟩ := hengine
  exact ⟨hgoing, (hinv.pair.enter hout henter).2⟩

/-- The event controller enters the barrier. -/
theorem ctl_enters (hinv : s.clockwork.Inv) (hpc : s.ctl.pc = .sync) {b : Barrier Actor} {r : Option Int}
    (henter : s.timer.enter .controller = (b, r)) : Entered s.timer .controller b r := by
  have hctl := hinv.ctl
  have hstage : s.clockwork.ctl = .ready := congrArg CtlPc.stage hpc
  unfold Clockwork.CtlOk at hctl
  rw [hstage] at hctl
  exact (hinv.pair.enter hctl.1 henter).2

/-- A step of the engine makes the clock go on or lowers the rank. -/
theorem EngineStep.rank_lt {b : Bool} (h : EngineStep cfg s b s') (hinv : s.clockwork.Inv) (hrun : s'.failed = none)
    (hfini : s.engine.pc.finishing = false) :
    s.timer.timer.clock < s'.timer.timer.clock ∨ s'.timer.timer.clock = s.timer.timer.clock ∧ s'.rank < s.rank := by
  cases h with
  | loopCrash _ _ _ | closingFails _ _ => cases hrun
  | finiRunning hpc | finiStop hpc =>
      rw [hpc] at hfini
      cases hfini
  | pass b' r hpc henter =>
      obtain ⟨hgoing, hentered⟩ := engine_enters hinv hpc henter
      cases hentered with
      | stopped hstop =>
          rw [hgoing] at hstop
          cases hstop
      | last _ _ _ hclock _ _ _ =>
          left
          dsimp only
          omega
  | arrive b' hpc henter =>
      obtain ⟨-, hentered⟩ := engine_enters hinv hpc henter
      cases hentered with
      | first _ _ _ hclock _ hplace hother =>
          have hother : b'.place .controller = s.timer.place .controller := hother
          refine Or.inr ⟨hclock, ?_⟩
          simp only [rank, hpc, EnginePc.rank, asleep, hplace, hother, if_true]
          omega
  | leave b' r hpc hleave =>
      obtain ⟨hreleased, -, rfl⟩ := Barrier.leave_cases hleave
      refine Or.inr ⟨rfl, ?_⟩
      simp [rank, hpc, EnginePc.rank, asleep, hreleased]
  | timeStop hpc =>
      refine Or.inr ⟨rfl, ?_⟩
      have hle := CtlPc.rank_le (W := W) s.ctl.pc (asleep s.timer.timeStop.place .controller)
        (asleep s.timer.place .controller)
      simp only [rank, hpc, EnginePc.rank]
      omega
  | loopFork atype codes activities hpc _ _ hsched =>
      refine Or.inr ⟨rfl, ?_⟩
      have hle := fork_rank (m := m) (scheduleActivities_length hsched)
      have htotal := (scheduleActivities_codes hsched).2.2
      cases atype <;> simp only [rank, hpc, EnginePc.rank, htotal] <;> omega
  | loopSkip atype hpc _ =>
      refine Or.inr ⟨rfl, ?_⟩
      cases atype <;> simp only [rank, hpc, EnginePc.rank, afterLoop, setEngine] <;> omega
  | loopWait atype ids hpc | loopEnd atype hpc =>
      refine Or.inr ⟨rfl, ?_⟩
      cases atype <;>
        simp only [rank, hpc, EnginePc.rank, Join.rank, afterLoop, setEngine, List.length_nil] <;> omega
  | evmRunning hpc =>
      refine Or.inr ⟨rfl, ?_⟩
      simp only [rank, hpc, setEngine]
      split <;> simp only [EnginePc.rank] <;> omega
  | startTime _ _ hpc | setNsync hpc | firstClock hpc | noActivities hpc _ | terminate hpc _ _ | goOn hpc _
  | moreEvents hpc | clockStop hpc _ | clockScan hpc _ _ | clockDriven hpc _ _ | stopController hpc | closing hpc _
  | wait hpc _ | completed hpc _ | woken hpc _ =>
      refine Or.inr ⟨rfl, ?_⟩
      simp only [rank, hpc, EnginePc.rank, setEngine]
      omega

/-- So does a step of the event controller. -/
theorem CtlStep.rank_lt (h : CtlStep s s') (hinv : s.clockwork.Inv) (hone : s.FromOne) (hrun : s'.failed = none) :
    s.timer.timer.clock < s'.timer.timer.clock ∨ s'.timer.timer.clock = s.timer.timer.clock ∧ s'.rank < s.rank := by
  cases h with
  | popCrash _ _ _ _ => cases hrun
  | pass b' r hpc henter =>
      cases ctl_enters hinv hpc henter with
      | stopped hstop =>
          refine Or.inr ⟨rfl, ?_⟩
          simp [rank, hpc, CtlPc.rank]
      | last _ _ _ hclock _ _ _ =>
          left
          dsimp only
          omega
  | arrive b' hpc henter =>
      cases ctl_enters hinv hpc henter with
      | first _ _ _ hclock _ hplace hother =>
          have hother : b'.place .engine = s.timer.place .engine := hother
          refine Or.inr ⟨hclock, ?_⟩
          simp only [rank, hpc, CtlPc.rank, asleep, hplace, hother, if_true]
          omega
  | leave b' r hpc hleave =>
      obtain ⟨hreleased, rfl, rfl⟩ := Barrier.leave_cases hleave
      refine Or.inr ⟨rfl, ?_⟩
      simp [rank, hpc, CtlPc.rank, asleep, hreleased]
  | early hpc _ hlt =>
      have hctl := hinv.ctl
      have hstage : s.clockwork.ctl = .testing := congrArg CtlPc.stage hpc
      unfold Clockwork.CtlOk at hctl
      rw [hstage] at hctl
      obtain ⟨-, hpos, htime, -⟩ := hctl
      have htime : s.ctl.curTime = s.timer.timer.clock := htime
      have hpos : 1 ≤ s.timer.timer.clock := hpos
      have hstart := hone.start
      omega
  | pop evList hpc _ _ =>
      refine Or.inr ⟨rfl, ?_⟩
      have hle := batch_rank (W := W) evList
      simp only [rank, hpc, CtlPc.rank]
      omega
  | batchWait ids hpc | batchEnd hpc =>
      refine Or.inr ⟨rfl, ?_⟩
      simp only [rank, hpc, CtlPc.rank, Join.rank, setCtl, List.length_nil]
      omega
  | «begin» hpc | firstClock hpc | setRunning hpc | clock hpc | stops hpc _ | goOn hpc _ _ | popNone hpc _ | signal hpc
  | setNotRunning hpc =>
      refine Or.inr ⟨rfl, ?_⟩
      simp only [rank, hpc, CtlPc.rank, setCtl]
      omega

/-- What the threads outside the pool of the event manager lose with its events pays for their calls. -/
theorem EvmStep.rank_le [DecidableEq δ] {e : PoolEvent (W + 1) (EvTask δ)} (h : EvmStep s e s') :
    s'.rank + e.cost ≤ s.rank := by
  cases h with
  | tau | sliceStarts _ _ _ _ | sliceEnds _ _ _ _ _ => exact Nat.le_refl _
  | startFailed byMain _ hpc _ | enqueued byMain _ hpc =>
      cases byMain <;> simp only [rank, hpc, EnginePc.rank, startReturn, setEngine, PoolEvent.cost] <;> simp <;> omega
  | start _ _ hpc _ | enqueueController _ hpc =>
      simp only [rank, hpc, EnginePc.rank, setEngine, PoolEvent.cost]
      omega
  | controllerStarts _ _ hpc | controllerEnds _ _ _ _ hpc =>
      simp only [rank, hpc, CtlPc.rank, setCtl, PoolEvent.cost]
      omega
  | shutdownCall _ hpc _ | shutdownRet _ _ hpc _ =>
      simp only [rank, hpc, EnginePc.rank, setEngine, PoolEvent.cost]
      omega
  | batch j j' _ hpc hj =>
      have hle := Join.rank_observe hj
      simp only [rank, hpc, CtlPc.rank, setCtl]
      omega

/-- The same for the pool of the engine. -/
theorem EngStep.rank_le {e : PoolEvent m UserTask} (h : EngStep s e s') : s'.rank + e.cost ≤ s.rank := by
  cases h with
  | tau | blockStarts _ _ _ _ | blockEnds _ _ _ _ => exact Nat.le_refl _
  | start _ hpc _ _ | shutdownCall _ hpc _ =>
      simp only [rank, hpc, EnginePc.rank, setEngine, PoolEvent.cost]
      omega
  | shutdownRet k _ hpc _ =>
      simp only [rank, hpc, setEngine, PoolEvent.cost]
      split <;> simp only [EnginePc.rank] <;> omega
  | loop atype j j' _ hpc hj =>
      have hle := Join.rank_observe hj
      cases atype <;> simp only [rank, hpc, EnginePc.rank, setEngine] <;> omega

end Env

end ComplexSim.Engine
