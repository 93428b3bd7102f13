import ComplexSim.Engine.Clockwork
import Mathlib.Data.Set.Card

/-!
# Which threads synchronise (`cs_sim_start`)

`cs_sim_start` counts the engine, the event manager and the network runtime as the actors
of the engine's timer. The main loop starts the controller of the event manager, which
synchronises on the timer that the event manager was initialised with; nobody compares the two
timers, and nothing starts a thread of the network runtime. With a network runtime, or an event
manager on another timer, `n_sync` is one too many and the first round is never completed.

The model is the main loop for every configuration, as far as the timers see it: loops over
activities, the termination test and the events of a tick take their time and answer
anything. The program may have started the controller before, with any start time.
-/

namespace ComplexSim.Startup

open Engine

/-- A `cs_timer_t *`. -/
abbrev TimerPtr := Nat

/-- What `cs_sim_start` finds in the engine. -/
structure SimConfig where
  nact : Nat
  /-- `engine->timer` -/
  timer : TimerPtr
  /-- `evm->timer` of `engine->evm`, or `none` for a NULL event manager -/
  evm : Option TimerPtr
  netRt : Bool
  st : SimType

/-- The `n_sync` that `cs_sim_start` sets, if its assertion holds. -/
def csSimStart (cfg : SimConfig) : Option Int :=
  let c1 := decide (0 < cfg.nact)
  let c2 := cfg.netRt
  let c3 := cfg.evm.isSome
  if c1 || c2 || c3 then some (1 + c2.toInt + c3.toInt) else none

/-- Where the engine is. -/
inductive EnginePc where
  /-- before `cs_set_nsync` -/
  | simStart
  /-- `cs_evm_running` and `cs_evm_start_controller` -/
  | startController
  /-- `_loop_activity(engine, AFTER_STEP)` -/
  | afterStep
  /-- the termination tests -/
  | term
  | sync
  | inSync
  | clock
  /-- `_loop_activity(engine, USER)` -/
  | user
  /-- `wait_event_completion` -/
  | completion
  | inCompletion
  /-- `cs_evm_stop_controller` -/
  | stopController
  /-- `cs_time_stop` -/
  | timeStop
  | ended
  deriving DecidableEq, Repr

/-- Where the event controller is. -/
inductive CtlPc where
  | off
  /-- enqueued in the pool of the event manager -/
  | queued
  /-- `_evm_set_running` -/
  | setRunning
  | sync
  | inSync
  | clock
  /-- `_should_stop_controller` and the test of the start time -/
  | shouldStop
  /-- the events of the tick -/
  | events
  /-- `_signal_event_completion` -/
  | signal
  | left
  deriving DecidableEq, Repr

structure State where
  timers : TimerPtr → Barrier Actor
  engine : EnginePc
  stop : Bool
  curTime : Int
  ctl : CtlPc
  start : Int
  ctlTime : Int
  startTime : Int
  running : Bool
  evmStop : Bool
  lastCompletion : Int
  waitCond : Place

inductive Label where
  /-- the program calls `cs_evm_start_controller` before `cs_sim_start` -/
  | preStart (r : Int)
  /-- the engine goes on; `b` is what the termination tests answer -/
  | engine (b : Bool)
  | ctl
  deriving DecidableEq, Repr

/-- Timers initialised with `nsync`, and nothing started. -/
def init (nsync : TimerPtr → Int) : State where
  timers := fun tm => { timer := csInitTimerWith (nsync tm), place := fun _ => .out }
  engine := .simStart
  stop := false
  curTime := 0
  ctl := .off
  start := 0
  ctlTime := 0
  startTime := 0
  running := false
  evmStop := false
  lastCompletion := 0
  waitCond := .out

/-- Replace the timer at `tm`. -/
@[simps]
def State.setTimer (s : State) (tm : TimerPtr) (bar : Barrier Actor) : State :=
  { s with timers := Function.update s.timers tm bar }

/-- `cs_evm_start_controller`: a pool that is working already is not started again, and gets no
second controller. -/
def csEvmStartController (s : State) (startRaising : Int) : State :=
  { s with
    startTime := if 0 < startRaising then startRaising else 1
    ctl := if s.ctl = .off then .queued else s.ctl }

/-- The next step of the engine. -/
def engineStep (cfg : SimConfig) (s : State) (b : Bool) : Option State :=
  match s.engine with
  | .simStart =>
      (csSimStart cfg).map fun nactors =>
        { s.setTimer cfg.timer { s.timers cfg.timer with
            timer := csSetNsync (s.timers cfg.timer).timer nactors } with engine := .startController }
  | .startController =>
      some { (if cfg.evm.isSome && !s.running then csEvmStartController s 1 else s) with engine := .afterStep }
  | .afterStep => some { s with engine := .term }
  | .term => some { s with stop := b, engine := .sync }
  | .sync => match (s.timers cfg.timer).enter .engine with
      | (bar, some _) => some { s.setTimer cfg.timer bar with engine := .clock }
      | (bar, none) => some { s.setTimer cfg.timer bar with engine := .inSync }
  | .inSync => ((s.timers cfg.timer).leave .engine).map fun (bar, _) =>
      { s.setTimer cfg.timer bar with engine := .clock }
  | .clock =>
      some { s with
        curTime := csGetClock (s.timers cfg.timer).timer
        engine := if s.stop then (if cfg.evm.isSome then .stopController else .timeStop)
                  else match cfg.st with
                    | .activityScan => .user
                    | .eventDriven => if cfg.evm.isSome then .completion else .afterStep }
  | .user => some { s with engine := if cfg.evm.isSome then .completion else .afterStep }
  | .completion =>
      if s.lastCompletion < s.curTime then some { s with waitCond := .blocked, engine := .inCompletion }
      else some { s with engine := .afterStep }
  | .inCompletion =>
      if s.waitCond = .released then some { s with waitCond := .out, engine := .afterStep } else none
  | .stopController => some { s with evmStop := true, engine := .timeStop }
  | .timeStop => some { s.setTimer cfg.timer (s.timers cfg.timer).timeStop with engine := .ended }
  | .ended => none

/-- The next step of the controller of an event manager on the timer `tm`. -/
def ctlStep (tm : TimerPtr) (s : State) : Option State :=
  match s.ctl with
  | .off | .left => none
  | .queued => some { s with start := s.startTime, ctl := .setRunning }
  | .setRunning => some { s with running := true, ctl := .sync }
  | .sync => match (s.timers tm).enter .controller with
      | (bar, some r) => some { s.setTimer tm bar with ctl := if r < 0 then .left else .clock }
      | (bar, none) => some { s.setTimer tm bar with ctl := .inSync }
  | .inSync => ((s.timers tm).leave .controller).map fun (bar, r) =>
      { s.setTimer tm bar with ctl := if r < 0 then .left else .clock }
  | .clock => some { s with ctlTime := csGetClock (s.timers tm).timer, ctl := .shouldStop }
  | .shouldStop =>
      some { s with ctl := if s.evmStop then .left else if s.ctlTime < s.start then .sync else .events }
  | .events => some { s with ctl := .signal }
  | .signal =>
      some { s with lastCompletion := s.ctlTime, waitCond := s.waitCond.wake, ctl := .sync }

def step (cfg : SimConfig) (s : State) : Label → Option State
  | .preStart r =>
      if s.engine = .simStart ∧ cfg.evm.isSome = true then some (csEvmStartController s r) else none
  | .engine b => engineStep cfg s b
  | .ctl => cfg.evm.bind fun tm => ctlStep tm s

/-- The runs of a configuration on timers that were initialised with `nsync`. -/
def system (cfg : SimConfig) (nsync : TimerPtr → Int) : Lts.System State Label :=
  .ofFn (· = init nsync) (step cfg)

/-- The thread `a` is about to call `cs_time_sync` on the engine's timer. -/
def State.calls (cfg : SimConfig) (s : State) : Actor → Prop
  | .engine => s.engine = .sync
  | .controller => s.ctl = .sync ∧ cfg.evm = some cfg.timer

/-- Nobody is counted who does not synchronise: no network runtime is set, and the event manager, if
there is one, is on the engine's timer. -/
def OwnTimer (cfg : SimConfig) : Prop := cfg.netRt = false ∧ ∀ tm, cfg.evm = some tm → tm = cfg.timer

/-- The controller runs only with an event manager. -/
theorem evm_of_ctl {cfg : SimConfig} {nsync : TimerPtr → Int} {s : State}
    (h : Lts.Reachable (system cfg nsync) s) (hctl : s.ctl ≠ .off) : cfg.evm.isSome = true := by
  revert hctl
  apply h.invariant (I := fun s => s.ctl ≠ .off → cfg.evm.isSome = true)
  · intro s hs hctl
    rw [show s = init nsync from hs] at hctl
    exact absurd rfl hctl
  · intro s l t hi _ hs hctl
    cases l with
    | preStart r =>
        simp only [system, Lts.System.ofFn, step] at hs
        split at hs <;> cases hs
        rename_i hpre
        exact hpre.2
    | engine b =>
        by_cases hevm : cfg.evm.isSome = true
        · exact hevm
        · -- without an event manager the engine leaves `ctl` as it is
          apply hi
          intro hoff
          apply hctl
          simp only [system, Lts.System.ofFn, step, engineStep] at hs
          split at hs
          all_goals grind [Option.map_eq_some_iff, State.setTimer]
    | ctl =>
        obtain ⟨tm, htm, -⟩ := Option.bind_eq_some_iff.1 hs
        rw [htm]
        rfl

/-- Two threads at a barrier: `sync` counts the blocked ones, and they are not both blocked. -/
structure Shared (b : Barrier Actor) : Prop where
  sync : b.timer.stop = false → b.timer.sync =
    (if b.place .engine = .blocked then 1 else 0) + if b.place .controller = .blocked then 1 else 0
  apart : ∀ a, b.place a = .blocked → b.place a.other ≠ .blocked

section Barrier

variable {b b' : Barrier Actor} {a : Actor}

/-- How a thread enters a barrier that lacks one, or two if the other does not wait. -/
theorem Shared.enter (h : Shared b) (hout : b.place a = .out)
    (hlast : b.place a.other = .blocked → b.timer.nSync = 2) {r : Option Int}
    (henter : b.enter a = (b', r)) :
    Shared b' ∧ b'.timer.nSync = b.timer.nSync ∧ (b'.place a.other = .out ↔ b.place a.other = .out) ∧
      (b'.place a.other = .blocked → b.place a.other = .blocked) ∧
      (r ≠ none → b'.place a = .out) ∧ (b'.place a = .blocked → b.timer.nSync ≠ 1) := by
  have hactor : ∀ c, c = a ∨ c = a.other := fun c => by cases a <;> cases c <;> simp [Actor.other]
  have hsync : b.timer.stop = false → b.timer.sync = if b.place a.other = .blocked then 1 else 0 := by
    intro hrun
    rw [h.sync hrun]
    cases a <;> rw [hout] <;> simp [Actor.other] <;> rfl
  cases Barrier.Entered.of henter with
  | stopped | overrun => exact ⟨h, rfl, Iff.rfl, id, fun _ => hout, by simp [hout]⟩
  | last _ _ =>
      -- the round is complete: the other is released
      refine ⟨⟨by simp, by simp⟩, rfl, by simp, ?_, fun _ => by simp [hout], by simp⟩
      intro hb
      exact absurd hb (Place.wake_ne_blocked _)
  | first hrun _ hmore =>
      have hsync := hsync hrun
      have hother : b.place a.other ≠ .blocked := by
        intro hb
        rw [if_pos hb] at hsync
        have := hlast hb
        omega
      rw [if_neg hother] at hsync
      refine ⟨⟨fun _ => ?_, fun c hc => ?_⟩, rfl, by simp, by simp, by simp, fun _ => by omega⟩
      · cases a <;> simp_all [Actor.other]
      · rcases hactor c with rfl | rfl
        · simpa using hother
        · exact absurd (by simpa using hc) hother

theorem Shared.leave (h : Shared b) {r : Int} (hleave : b.leave a = some (b', r)) :
    Shared b' ∧ b'.timer = b.timer ∧ b'.place a = .out ∧ b'.place a.other = b.place a.other := by
  obtain ⟨hrel, -, rfl⟩ := Barrier.leave_cases hleave
  have hblocked : ∀ c, Function.update b.place a .out c = .blocked ↔ b.place c = .blocked := by
    intro c
    by_cases hc : c = a
    · subst hc; simp [hrel]
    · simp [hc]
  refine ⟨⟨fun hs => ?_, fun c hc => ?_⟩, rfl, by simp, by simp⟩
  · simp only [hblocked]
    exact h.sync hs
  · intro ho
    exact h.apart c ((hblocked c).1 hc) ((hblocked _).1 ho)

end Barrier

/-- The engine's timer in a run that counts the threads it starts. -/
structure Inv (cfg : SimConfig) (s : State) : Prop where
  shared : Shared (s.timers cfg.timer)
  engineOut : (s.timers cfg.timer).place .engine ≠ .out → s.engine = .inSync
  ctlOut : (s.timers cfg.timer).place .controller ≠ .out → s.ctl = .inSync
  nSync : s.engine ≠ .simStart → (s.timers cfg.timer).timer.nSync = 1 + cfg.evm.isSome.toInt
  positive : 1 ≤ (s.timers cfg.timer).timer.nSync
  alone : cfg.evm.isSome = false → (s.timers cfg.timer).place .engine ≠ .blocked

theorem init_inv (cfg : SimConfig) {nsync : TimerPtr → Int} (h : ∀ tm, 1 ≤ nsync tm) : Inv cfg (init nsync) where
  shared := ⟨fun _ => rfl, nofun⟩
  engineOut := by simp [init]
  ctlOut := by simp [init]
  nSync := by simp [init]
  positive := h cfg.timer
  alone := by simp [init]

section Invariant

variable {cfg : SimConfig} {s t : State}

/-- A step that leaves the timers alone and keeps both threads out of `cs_time_sync`, or in it. -/
theorem Inv.local (h : Inv cfg s) (htimers : t.timers = s.timers)
    (hstart : t.engine ≠ .simStart → s.engine ≠ .simStart)
    (hengine : s.engine = .inSync → t.engine = .inSync) (hctl : s.ctl = .inSync → t.ctl = .inSync) :
    Inv cfg t where
  shared := htimers ▸ h.shared
  engineOut := fun hout => hengine (h.engineOut (htimers ▸ hout))
  ctlOut := fun hout => hctl (h.ctlOut (htimers ▸ hout))
  nSync := fun ht => by rw [htimers]; exact h.nSync (hstart ht)
  positive := htimers ▸ h.positive
  alone := htimers ▸ h.alone

/-- A step that makes `bar` of the engine's timer. -/
theorem Inv.timer (h : Inv cfg s) (bar : Barrier Actor) (htimers : t.timers cfg.timer = bar) (hshared : Shared bar)
    (hengine : bar.place .engine ≠ .out → t.engine = .inSync)
    (hctl : bar.place .controller ≠ .out → t.ctl = .inSync)
    (hn : bar.timer.nSync = (s.timers cfg.timer).timer.nSync)
    (hstart : t.engine ≠ .simStart → s.engine ≠ .simStart)
    (halone : cfg.evm.isSome = false → bar.place .engine ≠ .blocked) : Inv cfg t where
  shared := htimers ▸ hshared
  engineOut := fun hout => hengine (htimers ▸ hout)
  ctlOut := fun hout => hctl (htimers ▸ hout)
  nSync := fun ht => by rw [htimers, hn]; exact h.nSync (hstart ht)
  positive := by rw [htimers, hn]; exact h.positive
  alone := htimers ▸ halone

theorem csSimStart_eq (hnet : cfg.netRt = false) {n : Int} (h : csSimStart cfg = some n) :
    n = 1 + cfg.evm.isSome.toInt := by
  simp only [csSimStart, hnet] at h
  split at h <;> cases h
  simp

theorem startController_ctl (r : Int) (hctl : s.ctl = .inSync) :
    (csEvmStartController s r).ctl = .inSync := by
  simp [csEvmStartController, hctl]

theorem engineStep_inv (hnet : cfg.netRt = false) (hevm : s.ctl ≠ .off → cfg.evm.isSome = true) (h : Inv cfg s)
    {b : Bool} (hs : engineStep cfg s b = some t) : Inv cfg t := by
  have hplain : ∀ {t : State}, t.timers = s.timers → t.ctl = s.ctl → s.engine ≠ .simStart → s.engine ≠ .inSync →
      Inv cfg t := by
    intro t htimers hctl hstart hpc
    exact h.local htimers (fun _ => hstart) (fun he => absurd he hpc) (fun hc => hctl.trans hc)
  cases hpc : s.engine with
  | simStart =>
      simp only [engineStep, hpc] at hs
      obtain ⟨n, hn, rfl⟩ := Option.map_eq_some_iff.1 hs
      have hn := csSimStart_eq hnet hn
      have hself : ∀ {bar : Barrier Actor}, (s.setTimer cfg.timer bar).timers cfg.timer = bar := by simp
      refine ⟨?_, ?_, ?_, ?_, ?_, ?_⟩
      · show Shared ((s.setTimer cfg.timer _).timers cfg.timer)
        rw [hself]
        exact ⟨h.shared.sync, h.shared.apart⟩
      · intro hout
        have hout : ((s.setTimer cfg.timer _).timers cfg.timer).place .engine ≠ .out := hout
        rw [hself] at hout
        exact absurd (hpc.symm.trans (h.engineOut hout)) (by decide)
      · intro hout
        have hout : ((s.setTimer cfg.timer _).timers cfg.timer).place .controller ≠ .out := hout
        rw [hself] at hout
        exact h.ctlOut hout
      · intro _
        show ((s.setTimer cfg.timer _).timers cfg.timer).timer.nSync = _
        rw [hself]
        exact hn
      · show 1 ≤ ((s.setTimer cfg.timer _).timers cfg.timer).timer.nSync
        rw [hself]
        show 1 ≤ n
        rw [hn]
        cases cfg.evm.isSome <;> decide
      · intro halone
        show ((s.setTimer cfg.timer _).timers cfg.timer).place .engine ≠ _
        rw [hself]
        exact h.alone halone
  | startController =>
      simp only [engineStep, hpc] at hs
      cases hs
      apply h.local
      · split <;> rfl
      · intro _
        simp [hpc]
      · intro he
        rw [hpc] at he
        cases he
      · intro hc
        show (if _ then _ else _ : State).ctl = _
        split
        · exact startController_ctl 1 hc
        · exact hc
  | sync =>
      have hout : (s.timers cfg.timer).place .engine = .out := by
        by_contra hout
        exact absurd (hpc.symm.trans (h.engineOut hout)) (by decide)
      have hlast : (s.timers cfg.timer).place Actor.engine.other = .blocked →
          (s.timers cfg.timer).timer.nSync = 2 := by
        intro hb
        have hctl : s.ctl = .inSync := h.ctlOut (fun ho => by
          rw [show (s.timers cfg.timer).place Actor.engine.other = (s.timers cfg.timer).place .controller from rfl,
            ho] at hb
          cases hb)
        rw [h.nSync (by simp [hpc]), hevm (by simp [hctl])]
        rfl
      rcases henter : (s.timers cfg.timer).enter .engine with ⟨bar, r⟩
      obtain ⟨hshared, hn, hother, hblocked, hret, halone⟩ :=
        h.shared.enter hout hlast henter
      have hinv : ∀ pc, (r ≠ none ∨ pc = .inSync) → pc ≠ .simStart →
          Inv cfg { s.setTimer cfg.timer bar with engine := pc } := by
        intro pc hr hsim
        refine h.timer _ (by simp) hshared (fun ho => ?_) (fun ho => h.ctlOut fun hc => ho (hother.2 hc)) hn
          (fun _ => by simp [hpc]) fun hevm hb => ?_
        · exact hr.resolve_left fun hr => ho (hret hr)
        · apply halone hb
          rw [h.nSync (by simp [hpc]), hevm]
          rfl
      simp only [engineStep, hpc, henter] at hs
      cases r with
      | some r => cases hs; exact hinv .clock (Or.inl (by simp)) (by simp)
      | none => cases hs; exact hinv .inSync (Or.inr rfl) (by simp)
  | inSync =>
      simp only [engineStep, hpc] at hs
      obtain ⟨⟨bar, r⟩, hleave, rfl⟩ := Option.map_eq_some_iff.1 hs
      obtain ⟨hshared, htimer, hout, hother⟩ := h.shared.leave hleave
      refine h.timer bar (by simp) hshared (fun ho => absurd hout ho) (fun ho => h.ctlOut ?_)
        (by rw [htimer]) (fun _ => by simp [hpc]) fun _ hb => ?_
      · rw [show (s.timers cfg.timer).place .controller = bar.place .controller from hother.symm]
        exact ho
      · rw [hout] at hb
        cases hb
  | timeStop =>
      simp only [engineStep, hpc] at hs
      cases hs
      refine h.timer (s.timers cfg.timer).timeStop (by simp)
        ⟨fun hstop => (by cases hstop), by simp [Barrier.timeStop]⟩ (fun ho => ?_) (fun ho => h.ctlOut ?_) rfl
        (fun _ => by simp [hpc]) fun _ => by simp [Barrier.timeStop]
      · have ho' : (s.timers cfg.timer).place .engine ≠ .out := by simpa [Barrier.timeStop] using ho
        exact absurd (hpc.symm.trans (h.engineOut ho')) (by decide)
      · simpa [Barrier.timeStop] using ho
  | completion =>
      simp only [engineStep, hpc] at hs
      split at hs <;> cases hs <;> exact hplain rfl rfl (by simp [hpc]) (by simp [hpc])
  | inCompletion =>
      simp only [engineStep, hpc] at hs
      split at hs <;> cases hs
      exact hplain rfl rfl (by simp [hpc]) (by simp [hpc])
  | ended => simp only [engineStep, hpc] at hs; cases hs
  | afterStep | term | clock | user | stopController =>
      simp only [engineStep, hpc] at hs
      cases hs
      exact hplain rfl rfl (by simp [hpc]) (by simp [hpc])

/-- A controller on the engine's timer. -/
theorem ctlStep_inv (hevm : cfg.evm.isSome = true) (h : Inv cfg s) (hs : ctlStep cfg.timer s = some t) :
    Inv cfg t := by
  have hplain : ∀ {t : State}, t.timers = s.timers → t.engine = s.engine → s.ctl ≠ .inSync →
      Inv cfg t := by
    intro t htimers hengine hpc
    exact h.local htimers (fun ht => hengine ▸ ht) (fun he => hengine.trans he) (fun hc => absurd hc hpc)
  cases hpc : s.ctl with
  | off | left => simp only [ctlStep, hpc] at hs; cases hs
  | sync =>
      have hout : (s.timers cfg.timer).place .controller = .out := by
        by_contra hout
        exact absurd (hpc.symm.trans (h.ctlOut hout)) (by decide)
      have hlast : (s.timers cfg.timer).place Actor.controller.other = .blocked →
          (s.timers cfg.timer).timer.nSync = 2 := by
        intro hb
        have hengine : s.engine = .inSync := h.engineOut (fun ho => by
          rw [show (s.timers cfg.timer).place Actor.controller.other = (s.timers cfg.timer).place .engine from rfl,
            ho] at hb
          cases hb)
        rw [h.nSync (by simp [hengine]), hevm]
        rfl
      rcases henter : (s.timers cfg.timer).enter .controller with ⟨bar, r⟩
      obtain ⟨hshared, hn, hother, hblocked, hret, -⟩ :=
        h.shared.enter hout hlast henter
      have hinv : ∀ pc, (r ≠ none ∨ pc = .inSync) → Inv cfg { s.setTimer cfg.timer bar with ctl := pc } := by
        intro pc hr
        refine h.timer _ (by simp) hshared (fun ho => h.engineOut fun hc => ho (hother.2 hc)) (fun ho => ?_) hn id
          (by simp [hevm])
        exact hr.resolve_left fun hr => ho (hret hr)
      simp only [ctlStep, hpc, henter] at hs
      cases r with
      | some r => cases hs; exact hinv _ (Or.inl (by simp))
      | none => cases hs; exact hinv .inSync (Or.inr rfl)
  | inSync =>
      simp only [ctlStep, hpc] at hs
      obtain ⟨⟨bar, r⟩, hleave, rfl⟩ := Option.map_eq_some_iff.1 hs
      obtain ⟨hshared, htimer, hout, hother⟩ := h.shared.leave hleave
      refine h.timer bar (by simp) hshared (fun ho => h.engineOut ?_) (fun ho => absurd hout ho)
        (by rw [htimer]) id (by simp [hevm])
      rw [show (s.timers cfg.timer).place .engine = bar.place .engine from hother.symm]
      exact ho
  | queued | setRunning | clock | shouldStop | events | signal =>
      simp only [ctlStep, hpc] at hs
      cases hs
      exact hplain rfl rfl (by simp [hpc])

theorem step_inv (hown : OwnTimer cfg) (hevm : s.ctl ≠ .off → cfg.evm.isSome = true) (h : Inv cfg s)
    {l : Label} (hs : step cfg s l = some t) : Inv cfg t := by
  cases l with
  | preStart r =>
      simp only [step] at hs
      split at hs <;> cases hs
      exact h.local rfl id id (startController_ctl r)
  | engine b => exact engineStep_inv hown.1 hevm h hs
  | ctl =>
      obtain ⟨tm, htm, hs⟩ := Option.bind_eq_some_iff.1 hs
      rw [hown.2 tm htm] at hs
      exact ctlStep_inv (by rw [htm]; rfl) h hs

theorem reachable_inv (hown : OwnTimer cfg) {nsync : TimerPtr → Int} (hn : ∀ tm, 1 ≤ nsync tm)
    (h : Lts.Reachable (system cfg nsync) s) : Inv cfg s := by
  apply h.invariant_of (P := fun s => s.ctl ≠ .off → cfg.evm.isSome = true) (I := Inv cfg)
  · intro s hs
    exact evm_of_ctl hs
  · intro s hs
    rw [show s = init nsync from hs]
    exact init_inv cfg hn
  · intro s l t hevm _ hi _ hs
    exact step_inv hown hevm hi hs

end Invariant

section Actors

variable {cfg : SimConfig} {n : Int} {nsync : TimerPtr → Int}

end Actors

end ComplexSim.Startup
