import ComplexSim.Engine.Ledger

/-!
# The engine at its last tick

`Clockwork.due` is the tick that the engine works towards: the next one until it has passed the
barrier, then that of the clock. Once the engine has decided to stop, no step can schedule an
event or begin one, unless the controller pops one of the tick due. `Env.AtRest` says that there
is none, and lasts until the run is over.
-/

namespace ComplexSim.Engine

open Workerpool Events

variable {W m : Nat} {δ : Type}

namespace Clockwork

variable {c c' : Clockwork}

/-- The engine has still to pass the barrier of the next tick. -/
def ahead (c : Clockwork) : Prop :=
  c.engine = .behind ∨ c.engine = .inSync ∧ c.timer.place .engine = .blocked

instance (c : Clockwork) : Decidable c.ahead := inferInstanceAs (Decidable (_ ∨ _))

/-- The tick that the engine works towards. -/
def due (c : Clockwork) : Int := if c.ahead then c.timer.timer.clock + 1 else c.timer.timer.clock

theorem due_of_ahead (h : c.ahead) : c.due = c.timer.timer.clock + 1 := if_pos h

theorem due_of_not_ahead (h : ¬ c.ahead) : c.due = c.timer.timer.clock := if_neg h

theorem due_congr (hahead : c'.ahead ↔ c.ahead) (hclock : c'.timer.timer.clock = c.timer.timer.clock) :
    c'.due = c.due := by
  by_cases h : c.ahead
  · rw [due_of_ahead h, due_of_ahead (hahead.2 h), hclock]
  · rw [due_of_not_ahead h, due_of_not_ahead (mt hahead.1 h), hclock]

/-- How the clock and the tick due go on: one after the other. -/
inductive Goes (c c' : Clockwork) : Prop where
  | stays (hclock : c'.timer.timer.clock = c.timer.timer.clock) (hdue : c'.due = c.due)
  /-- the engine has finished the tick of the clock -/
  | ends (hengine : c.engine = .late ∨ c.engine = .waiting) (hahead : c'.ahead)
      (hclock : c'.timer.timer.clock = c.timer.timer.clock)
  /-- both actors are at the barrier -/
  | ticks (hahead : c.ahead) (hnot : ¬ c'.ahead)
      (hclock : c'.timer.timer.clock = c.timer.timer.clock + 1)

theorem Inv.goes (h : Inv c) (hs : c.Step c') : c.Goes c' := by
  have hbehind : ∀ {b : Barrier Actor} {r : Option Int}, c.engine = .behind → c.timer.enter .engine = (b, r) →
      Entered c.timer .engine b r ∧ c.timer.timer.stop = false := by
    intro b r hc henter
    have hengine := h.engine
    simp only [EngineOk, hc] at hengine
    exact ⟨(h.pair.enter hengine.2.2.2.1 henter).2, hengine.2.1⟩
  have hready : ∀ {b : Barrier Actor} {r : Option Int}, c.ctl = .ready → c.timer.enter .controller = (b, r) →
      Entered c.timer .controller b r := by
    intro b r hc henter
    have hctl := h.ctl
    simp only [CtlOk, hc] at hctl
    exact (h.pair.enter hctl.1 henter).2
  have hplain : ¬ c.ahead → ¬ c'.ahead → c'.timer.timer.clock = c.timer.timer.clock → c.Goes c' :=
    fun hold hnew hclock => .stays hclock (due_congr (iff_of_false hnew hold) hclock)
  cases hs with
  | stay | engineTime _ _ | setNsync _ | finiStop _ | ctlTime _ _ | ctlClock _ | stops _ _ | early _ _
  | goOn _ _ | signal _ => exact .stays rfl rfl
  | enginePass b r hc henter =>
      obtain ⟨hentered, hstop⟩ := hbehind hc henter
      cases hentered with
      | stopped hs =>
          rw [hstop] at hs
          cases hs
      | last _ _ _ hclock _ _ _ => exact .ticks (.inl hc) (by simp [ahead]) hclock
  | engineArrive b hc henter =>
      obtain ⟨hentered, -⟩ := hbehind hc henter
      cases hentered with
      | first _ _ _ hclock _ hplace _ =>
          exact .stays hclock (due_congr (iff_of_true (.inr ⟨rfl, hplace⟩) (.inl hc)) hclock)
  | engineLeave b r hc hleave =>
      obtain ⟨-, hrel, -, htimer, -, -⟩ := h.pair.leave hleave
      have hclock : b.timer.clock = c.timer.timer.clock := by rw [htimer]
      have hold : ¬ c.ahead := by simp [ahead, hc, hrel]
      exact hplain hold (by simp [ahead]) hclock
  | engineClock l hc hl =>
      rcases hl with rfl | rfl
      · exact hplain (by simp [ahead, hc]) (by simp [ahead]) rfl
      · exact hplain (by simp [ahead, hc]) (by simp [ahead]) rfl
  | wait hc _ | stopController hc | timeStop hc | close hc =>
      exact hplain (by simp [ahead, hc]) (by simp [ahead]) rfl
  | completed hc _ => exact .ends (.inl hc) (.inl rfl) rfl
  | woken hc _ => exact .ends (.inr hc) (.inl rfl) rfl
  | ctlPass b r hc henter =>
      cases hready hc henter with
      | stopped _ => exact .stays rfl rfl
      | last _ _ hother hclock _ _ hother' =>
          have hengine := (h.engine.of_blocked hother).1
          have hrel : b.place .engine = .released := hother'
          exact .ticks (.inr ⟨hengine, hother⟩) (by simp [ahead, hengine, hrel]) hclock
  | ctlArrive b hc henter =>
      cases hready hc henter with
      | first _ _ _ hclock _ _ hother' =>
          have hplace : b.place .engine = c.timer.place .engine := hother'
          exact .stays hclock (due_congr (by simp only [ahead, hplace]) hclock)
  | ctlLeave b r hc hleave =>
      obtain ⟨-, -, -, htimer, -, hother⟩ := h.pair.leave hleave
      have hplace : b.place .engine = c.timer.place .engine := hother
      have hclock : b.timer.clock = c.timer.timer.clock := by rw [htimer]
      exact .stays hclock (due_congr (by simp only [ahead, hplace]) hclock)

/-- An engine that is ahead finds the controller ready for the next tick. -/
theorem Inv.of_ahead (h : Inv c) (hahead : c.ahead) :
    c.lastCompletion = c.timer.timer.clock ∧
      (c.ctl = .ready ∨ c.ctl = .inSync ∧ c.timer.place .controller = .blocked) := by
  rcases hahead with hc | ⟨hc, hplace⟩
  · exact h.behind hc
  · have hengine := h.engine
    have hctl := h.ctl
    simp only [EngineOk, hc, hplace, reduceCtorEq, false_and, or_false, true_and] at hengine
    obtain ⟨hstop, -, -, hlast⟩ := hengine
    refine ⟨hlast, ?_⟩
    unfold CtlOk at hctl
    cases hs : c.ctl <;> simp only [hs, hstop, Bool.false_eq_true, false_and, or_false, and_false] at hctl
    · exact Or.inl rfl
    · rcases hctl with ⟨hp, -⟩ | ⟨-, -, hl⟩
      · exact Or.inr ⟨rfl, hp⟩
      · omega
    all_goals omega

/-- A busy controller works on the tick due. -/
theorem Inv.not_ahead_of_busy (h : Inv c) (hbusy : c.ctl = .busy) : ¬ c.ahead := by
  intro hahead
  rcases (h.of_ahead hahead).2 with hready | ⟨hin, -⟩
  · rw [hbusy] at hready
    cases hready
  · rw [hbusy] at hin
    cases hin

end Clockwork

namespace EnginePc

/-- From the synchronisation after the termination test on, past any loop. -/
def leaving : EnginePc → Bool
  | .sync | .inSync | .clock | .stopController | .timeStop | .closing | .returned | .fini _ | .done => true
  | _ => false

/-- The main loop has ended. -/
def left : EnginePc → Bool
  | .stopController | .timeStop | .closing | .returned | .fini _ | .done => true
  | _ => false

theorem left_of_finishing {pc : EnginePc} (h : pc.finishing = true) : pc.left = true := by
  cases pc with
  | done | fini q => rfl
  | _ => cases h

/-- Where the engine leaves, it is in no loop and starts nothing. -/
theorem of_leaving {pc : EnginePc} (h : pc.leaving = true) :
    pc.loopType = none ∧ pc ≠ .main ∧ (∀ byMain q, pc ≠ .start byMain q) ∧ pc.stage ≠ .late ∧
      pc.stage ≠ .waiting := by
  cases pc with
  | sync | inSync | clock | stopController | timeStop | closing | returned | done | fini q =>
      exact ⟨rfl, nofun, nofun, nofun, nofun⟩
  | _ => cases h

end EnginePc

namespace Env

/-- In its loops the engine is ahead for `AFTER_STEP`. -/
theorem ahead_loop {s : Env W m δ} {atype : ActivityType} {q : LoopPc} (hpc : s.engine.pc = .loop atype q) :
    s.clockwork.ahead ↔ atype = .afterStep := by
  have hstage : s.clockwork.engine = (EnginePc.loop atype q).stage := congrArg EnginePc.stage hpc
  cases atype <;> simp [Clockwork.ahead, hstage, EnginePc.stage]

/-- The stage of the jobs that begin: twice the tick of the clock, and one more where that tick is over. -/
def now (s : Env W m δ) : Int := s.timer.timer.clock + s.clockwork.due

theorem now_of_ahead {s : Env W m δ} (h : s.clockwork.ahead) : s.now = 2 * s.timer.timer.clock + 1 := by
  unfold now
  rw [Clockwork.due_of_ahead h]
  show s.timer.timer.clock + (s.timer.timer.clock + 1) = _
  omega

theorem now_of_not_ahead {s : Env W m δ} (h : ¬ s.clockwork.ahead) : s.now = 2 * s.timer.timer.clock := by
  unfold now
  rw [Clockwork.due_of_not_ahead h]
  show s.timer.timer.clock + s.timer.timer.clock = _
  omega

/-- No event is pending for the tick due, none is in hand, and no code runs that could schedule
one. Where the engine stops because there are no more events, none is pending at all. -/
structure AtRest (cfg : Config) (s : Env W m δ) : Prop where
  leaving : s.engine.pc.leaving = true
  tree : ∀ x ∈ EvTree.pending s.evm.evTree, s.clockwork.due < x.time
  empty : cfg.st = .eventDriven → EvTree.pending s.evm.evTree = []
  slices : ∀ w, s.slices w = none
  blocks : ∀ v, s.blocks v = none
  batch : ∀ j, s.ctl.pc ≠ .batch j
  thrown : s.log.popped.Perm (s.log.thrown.map Prod.fst)

/-- An engine that has decided to stop finds all at rest. -/
structure Settled (cfg : Config) (s : Env W m δ) : Prop where
  rest : s.engine.stop = true → s.AtRest cfg
  left : s.engine.pc.left = true → s.engine.stop = true

variable {cfg : Config} {s s' : Env W m δ}

namespace AtRest

/-- A step that changes neither the tree, the walks, the blocks nor the records. -/
theorem keep (h : s.AtRest cfg) (hleaving : s'.engine.pc.leaving = true)
    (hdue : s'.clockwork.due = s.clockwork.due) (htree : s'.evm.evTree = s.evm.evTree)
    (hslices : s'.slices = s.slices) (hblocks : s'.blocks = s.blocks) (hbatch : ∀ j, s'.ctl.pc ≠ .batch j)
    (hlog : s'.log = s.log) : s'.AtRest cfg where
  leaving := hleaving
  tree := by
    rw [htree, hdue]
    exact h.tree
  empty := htree ▸ h.empty
  slices := hslices ▸ h.slices
  blocks := hblocks ▸ h.blocks
  batch := hbatch
  thrown := hlog ▸ h.thrown

/-- The tick due is the last one. -/
theorem due_eq (h : s.AtRest cfg) (hgoes : s.clockwork.Goes s'.clockwork) :
    s'.clockwork.due = s.clockwork.due := by
  cases hgoes with
  | stays _ hdue => exact hdue
  | ends hengine _ _ =>
      obtain ⟨-, -, -, hlate, hwaiting⟩ := EnginePc.of_leaving h.leaving
      exact hengine.elim (fun hc => absurd hc hlate) fun hc => absurd hc hwaiting
  | ticks hahead hnot hclock =>
      rw [Clockwork.due_of_ahead hahead, Clockwork.due_of_not_ahead hnot, hclock]

/-- The controller finds no list. -/
theorem popEvents (h : s.AtRest cfg) (hinv : s.clockwork.Inv) (hpc : s.ctl.pc = .pop) :
    (Events.popEvents s.evm.evTree s.ctl.curTime).2 = none ∧
      (EvTree.pending (Events.popEvents s.evm.evTree s.ctl.curTime).1).Perm (EvTree.pending s.evm.evTree) := by
  have hbusy : s.clockwork.ctl = .busy := congrArg CtlPc.stage hpc
  have hclock : s.ctl.curTime = s.timer.timer.clock := (hinv.busy hbusy).1
  have hdue : s.clockwork.due = s.timer.timer.clock := Clockwork.due_of_not_ahead (hinv.not_ahead_of_busy hbusy)
  have hperm := popEvents_pending s.evm.evTree s.ctl.curTime
  cases hpop : (Events.popEvents s.evm.evTree s.ctl.curTime).2 with
  | none =>
      rw [hpop] at hperm
      exact ⟨rfl, hperm.symm⟩
  | some l =>
      rw [hpop] at hperm
      obtain ⟨ev, hev⟩ := List.exists_mem_of_ne_nil _ l.chain_ne_nil
      have hmem : (⟨ev, l.scheduledAt⟩ : Due δ) ∈ l.dues := List.mem_map_of_mem hev
      have hlt := h.tree _ (hperm.symm.subset (List.mem_append_left _ hmem))
      have htime : l.scheduledAt = s.ctl.curTime := popEvents_time hpop
      have hlt : s.clockwork.due < l.scheduledAt := hlt
      omega

theorem ctlStep (h : s.AtRest cfg) (hinv : s.clockwork.Inv) (hgoes : s.clockwork.Goes s'.clockwork)
    (hs : s.CtlStep s') : s'.AtRest cfg := by
  have hdue := h.due_eq hgoes
  cases hs with
  | popNone hpc _ =>
      obtain ⟨-, hperm⟩ := h.popEvents hinv hpc
      refine ⟨h.leaving, fun x hx => ?_, fun hst => ?_, h.slices, h.blocks, nofun, h.thrown⟩
      · rw [hdue]
        exact h.tree x (hperm.subset hx)
      · rw [h.empty hst] at hperm
        exact hperm.eq_nil
  | popCrash evList hpc hpop _ | pop evList hpc hpop _ =>
      obtain ⟨hnone, -⟩ := h.popEvents hinv hpc
      rw [hnone] at hpop
      cases hpop
  | batchWait ids hpc | batchEnd hpc => exact absurd hpc (h.batch _)
  | pass _ r _ _ | leave _ r _ _ =>
      refine h.keep h.leaving hdue rfl rfl rfl (fun j => ?_) rfl
      show (if r < 0 then CtlPc.setNotRunning else .clock : CtlPc δ) ≠ .batch j
      split <;> nofun
  | _ => exact h.keep h.leaving hdue rfl rfl rfl nofun rfl

/-- Nobody can schedule an event. -/
theorem sourceRuns (h : s.AtRest cfg) (src : Source W m) : s.sourceRuns src = false := by
  cases src with
  | main => simpa [Env.sourceRuns] using (EnginePc.of_leaving h.leaving).2.1
  | handler w => simp [Env.sourceRuns, h.slices w]
  | activity v => simp [Env.sourceRuns, h.blocks v]

theorem engineStep (h : s.AtRest cfg) (hstop : s.engine.stop = true) (hgoes : s.clockwork.Goes s'.clockwork)
    {b : Bool} (hs : s.EngineStep cfg b s') : s'.AtRest cfg ∧ s'.engine.stop = true := by
  have hleaving := h.leaving
  have hdue := h.due_eq hgoes
  obtain ⟨hctl, hslices, hblocks, hlog, htree⟩ := hs.frame
  have hkeep : s'.engine.pc.leaving = true → s'.AtRest cfg := fun hl =>
    h.keep hl hdue htree hslices hblocks (by rw [hctl]; exact h.batch) hlog
  cases hs with
  | pass | arrive | leave | clockStop | stopController | timeStop | closing | finiStop => exact ⟨hkeep rfl, hstop⟩
  | finiRunning hpc =>
      refine ⟨hkeep ?_, hstop⟩
      simp only [setEngine_engine_pc]
      split <;> rfl
  | closingFails hpc _ => exact ⟨hkeep hleaving, hstop⟩
  | clockScan _ hno _ | clockDriven _ hno _ =>
      rw [hstop] at hno
      cases hno
  | startTime _ _ hpc | setNsync hpc | firstClock hpc | evmRunning hpc | noActivities hpc _
  | loopSkip _ hpc _ | loopCrash _ hpc _ | loopFork _ _ _ hpc _ _ _ | loopWait _ _ hpc | loopEnd _ hpc
  | terminate hpc _ _ | goOn hpc _ | moreEvents hpc | wait hpc _ | completed hpc _ | woken hpc _ =>
      rw [hpc] at hleaving
      cases hleaving

/-- The steps outside the pools, once the engine has decided to stop. -/
theorem own (h : s.AtRest cfg) (hstop : s.engine.stop = true) (hinv : s.clockwork.Inv)
    (hgoes : s.clockwork.Goes s'.clockwork) {a : EnvAction W m δ} (hs : s.step cfg a = some s') :
    s'.AtRest cfg ∧ s'.engine.stop = true := by
  cases a with
  | preStart r | simStart =>
      obtain ⟨hpc, -⟩ := mainStep_cases hs
      exact absurd hpc (EnginePc.of_leaving h.leaving).2.1
  | fini =>
      obtain ⟨-, rfl⟩ := mainStep_cases hs
      exact ⟨h.keep rfl (h.due_eq hgoes) rfl rfl rfl h.batch rfl, hstop⟩
  | engine b => exact h.engineStep hstop hgoes (.of hs)
  | ctl =>
      have hstep := CtlStep.of hs
      exact ⟨h.ctlStep hinv hgoes hstep, by rw [hstep.frame.1]; exact hstop⟩
  | slice w =>
      have hnone := h.slices w
      cases SliceStep.of hs with
      | handled r _ hr _ | nullEvent r hr _ _ _ | eventType r _ _ hr _ _ _ _ | throw r _ _ _ hr _ _ _ _ _
      | noHandler r _ _ _ hr _ _ _ _ _ =>
          rw [hr] at hnone
          cases hnone
  | schedule src ev time =>
      obtain ⟨hruns, -⟩ := scheduleStep_cases hs
      rw [h.sourceRuns src] at hruns
      cases hruns

/-- The steps of the pool of the event manager, once the engine has decided to stop. -/
theorem evm [DecidableEq δ] (h : s.AtRest cfg) {lossy : Prop} {p p' : TaskPool (W + 1) (EvTask δ)}
    {spot : Nat → Spot (EvTask δ)} {rem : Nat → List (Due δ)} {e : PoolEvent (W + 1) (EvTask δ)}
    (hlink : EvmLink lossy s p spot rem) (hp : p.Step e p') (hs : s.EvmStep e s') :
    s'.AtRest cfg ∧ s'.engine.stop = s.engine.stop := by
  obtain ⟨-, -, hstart, -⟩ := EnginePc.of_leaving h.leaving
  have hdue : s'.clockwork.due = s.clockwork.due := congrArg Clockwork.due hs.clockwork
  cases hs with
  | tau => exact ⟨h, rfl⟩
  | startFailed _ _ hpc _ | start _ _ hpc _ | enqueueController _ hpc | enqueued _ _ hpc =>
      exact absurd hpc (hstart _ _)
  | shutdownCall | shutdownRet => exact ⟨h.keep rfl hdue rfl rfl rfl h.batch rfl, rfl⟩
  | controllerStarts | controllerEnds => exact ⟨h.keep h.leaving hdue rfl rfl rfl nofun rfl, rfl⟩
  | sliceStarts w t d _ =>
      have hkey := (hlink.quiet h.batch).active t _ (Or.inl hp.queued)
      cases hkey
  | sliceEnds w t r hr _ =>
      rw [h.slices w] at hr
      cases hr
  | batch j _ _ hpc _ => exact absurd hpc (h.batch j)

/-- The steps of the pool of the engine, once the engine has decided to stop. -/
theorem eng (h : s.AtRest cfg) {q q' : TaskPool m UserTask} {spot : UserTask → Spot UserTask}
    {e : PoolEvent m UserTask} (hlink : EngLink s q spot) (hq : q.Step e q') (hs : s.EngStep e s') :
    s'.AtRest cfg ∧ s'.engine.stop = s.engine.stop := by
  have hleaving := h.leaving
  obtain ⟨hloop, -⟩ := EnginePc.of_leaving hleaving
  have hdue : s'.clockwork.due = s.clockwork.due := congrArg Clockwork.due hs.clockwork
  cases hs with
  | tau => exact ⟨h, rfl⟩
  | start _ hpc _ _ | loop _ _ _ _ hpc _ =>
      rw [hpc] at hleaving
      cases hleaving
  | blockStarts v t x _ =>
      have htype := hlink.loopType_of_active (Or.inl hq.queued)
      rw [hloop] at htype
      cases htype
  | blockEnds v t x hx =>
      rw [h.blocks v] at hx
      cases hx
  | shutdownCall => exact ⟨h.keep rfl hdue rfl rfl rfl h.batch rfl, rfl⟩
  | shutdownRet =>
      refine ⟨h.keep ?_ hdue rfl rfl rfl h.batch rfl, rfl⟩
      simp only [setEngine_engine_pc]
      split <;> rfl

end AtRest

/-- What makes the engine decide to stop. -/
inductive Decides (cfg : Config) (s : Env W m δ) (b : Bool) : Prop where
  /-- the termination function of an `ACTIVITY_SCAN` simulation answers yes -/
  | term (hpc : s.engine.pc = .term) (hst : cfg.st = .activityScan) (hb : b = true)
  /-- an `EVENT_DRIVEN` simulation has no more events -/
  | noEvents (hpc : s.engine.pc = .moreEvents) (hst : cfg.st = .eventDriven)
      (hno : csEvmMoreEvents s.evm.evTree = false)

/-- The engine decides to stop, or it goes on in its loop. -/
theorem EngineStep.decides {b : Bool} (hs : s.EngineStep cfg b s') (hstop : s.engine.stop = false)
    (hleft : s.engine.pc.left = false) :
    (s.Decides cfg b ∧ s'.engine.pc = .sync ∧ s'.engine.stop = true) ∨
    (s'.engine.stop = false ∧ s'.engine.pc.left = false) := by
  cases hs with
  | moreEvents hpc =>
      cases hdecide : !csEvmMoreEvents s.evm.evTree && decide (cfg.st = .eventDriven) with
      | false => exact Or.inr ⟨rfl, rfl⟩
      | true =>
          rw [Bool.and_eq_true, Bool.not_eq_true', decide_eq_true_iff] at hdecide
          exact Or.inl ⟨.noEvents hpc hdecide.2 hdecide.1, rfl, rfl⟩
  | terminate hpc hst hb => exact Or.inl ⟨.term hpc hst hb, rfl, rfl⟩
  | clockStop _ hyes =>
      rw [hstop] at hyes
      cases hyes
  | stopController hpc | timeStop hpc | closing hpc _ | closingFails hpc _ | finiRunning hpc | finiStop hpc =>
      rw [hpc] at hleft
      cases hleft
  | evmRunning =>
      refine Or.inr ⟨hstop, ?_⟩
      simp only [setEngine_engine_pc]
      split <;> rfl
  | loopSkip atype _ _ | loopEnd atype _ => exact Or.inr ⟨hstop, by cases atype <;> rfl⟩
  | loopCrash _ hpc _ => exact Or.inr ⟨hstop, hleft⟩
  | _ => exact Or.inr ⟨hstop, rfl⟩

/-- An engine that decides to stop finds no event for the next tick, and none at all where it
decides so for lack of events. -/
def StopsClear (cfg : Config) (s : Env W m δ) (a : EnvAction W m δ) : Prop :=
  ∀ b, a = .engine b → s.Decides cfg b →
    (∀ x ∈ EvTree.pending s.evm.evTree, s.timer.timer.clock + 1 < x.time) ∧
      (cfg.st = .eventDriven → EvTree.pending s.evm.evTree = [])

/-- An engine that goes on has settled nothing. -/
theorem Settled.of_going (hstop : s.engine.stop = false) (hleft : s.engine.pc.left = false) : s.Settled cfg where
  rest := by
    rw [hstop]
    nofun
  left := by
    rw [hleft]
    nofun

theorem Settled.going (h : s.Settled cfg) (hstop : s.engine.stop = false) : s.engine.pc.left = false := by
  by_contra hleft
  rw [h.left (Bool.not_eq_false _ ▸ hleft)] at hstop
  cases hstop

end Env

section Settling

variable [DecidableEq δ] {cfg : Config} {v v' : View W m δ} {l : ViewLabel W m δ}

omit [DecidableEq δ] in
/-- All is at rest where the engine decides to stop. -/
theorem View.atRest {s' : Env W m δ} {b : Bool} (htimed : v.Timed) (hlinked : v.EvmLinked) (heng : v.EngLinked)
    (hopened : v.Opened) (hok : v.env.StopsClear cfg (.engine b)) (hs : v.env.EngineStep cfg b s')
    (hdecides : v.env.Decides cfg b) (hsync : s'.engine.pc = .sync) : s'.AtRest cfg := by
  obtain ⟨hctl, hslices, hblocks, hlog, htree⟩ := hs.frame
  obtain ⟨hpending, hempty⟩ := hok b rfl hdecides
  have hpc : v.env.engine.pc.stage = .behind ∧ v.env.engine.pc.finishing = false ∧
      v.env.engine.pc.loopType = none := by
    cases hdecides with
    | term hpc _ _ | noEvents hpc _ _ =>
        rw [hpc]
        exact ⟨rfl, rfl, rfl⟩
  obtain ⟨hstage, hfinishing, hloop⟩ := hpc
  obtain ⟨hbatch, hnoslice, hthrown⟩ := View.behind_rest htimed hlinked hopened hstage hfinishing
  obtain ⟨spot, hlink⟩ := heng
  have hbehind : v.env.clockwork.engine = .behind := hstage
  have hclock : s'.timer.timer.clock = v.env.timer.timer.clock := by
    cases hs <;> first | rfl | cases hsync
  have hahead : s'.clockwork.ahead := Or.inl (congrArg EnginePc.stage hsync)
  have hdue : s'.clockwork.due = v.env.timer.timer.clock + 1 := by
    rw [Clockwork.due_of_ahead hahead, ← hclock]
    rfl
  exact {
    leaving := congrArg EnginePc.leaving hsync
    tree := by
      rw [hdue, htree]
      exact hpending
    empty := htree ▸ hempty
    slices := fun w => hslices ▸ hnoslice w
    blocks := fun u => hblocks ▸ hlink.rest hloop u
    batch := fun j => hctl ▸ hbatch j
    thrown := hlog ▸ hthrown }

/-- The step with which the engine decides to stop, and those before it. -/
theorem Env.Settled.enter (htimed : v.Timed) (hlinked : v.EvmLinked) (heng : v.EngLinked) (hopened : v.Opened)
    (hstop : v.env.engine.stop = false) (hleft : v.env.engine.pc.left = false)
    (hok : ViewLabel.meets (Env.StopsClear cfg) v l) (hs : v.Step cfg l v') : v'.env.Settled cfg := by
  cases hs with
  | own hrun hstep =>
      rename_i a env
      cases a with
      | preStart r | simStart =>
          obtain ⟨-, rfl⟩ := Env.mainStep_cases hstep
          exact .of_going hstop rfl
      | fini =>
          obtain ⟨hpc, -⟩ := Env.mainStep_cases hstep
          rw [hpc] at hleft
          cases hleft
      | engine b =>
          have hstep := Env.EngineStep.of hstep
          rcases hstep.decides hstop hleft with ⟨hdecides, hsync, -⟩ | ⟨hstop', hleft'⟩
          · refine ⟨fun _ => View.atRest htimed hlinked heng hopened hok hstep hdecides hsync, fun hl => ?_⟩
            rw [hsync] at hl
            cases hl
          · exact .of_going hstop' hleft'
      | ctl =>
          obtain ⟨hengine, -⟩ := (Env.CtlStep.of hstep).frame
          exact .of_going (hengine ▸ hstop) (hengine ▸ hleft)
      | slice w => cases Env.SliceStep.of hstep <;> exact .of_going hstop hleft
      | schedule src ev time =>
          obtain ⟨-, rfl⟩ := Env.scheduleStep_cases hstep
          exact .of_going hstop hleft
  | evm hrun hp hobs =>
      cases Env.EvmStep.of hobs with
      | startFailed byMain | enqueued byMain => exact .of_going hstop (by cases byMain <;> rfl)
      | start | enqueueController => exact .of_going hstop rfl
      | shutdownCall _ hpc _ | shutdownRet _ _ hpc _ =>
          rw [hpc] at hleft
          cases hleft
      | _ => exact .of_going hstop hleft
  | eng hrun hq hobs =>
      cases Env.EngStep.of hobs with
      | start | loop => exact .of_going hstop rfl
      | shutdownCall _ hpc _ | shutdownRet _ _ hpc _ =>
          rw [hpc] at hleft
          cases hleft
      | _ => exact .of_going hstop hleft

/-- **All stays at rest** once the engine has decided to stop. -/
theorem Env.AtRest.step (h : v.env.AtRest cfg) (hstop : v.env.engine.stop = true) (htimed : v.Timed)
    (hlinked : v.EvmLinked) (heng : v.EngLinked) (hs : v.Step cfg l v') :
    v'.env.AtRest cfg ∧ v'.env.engine.stop = true := by
  cases hs with
  | own hrun hstep =>
      have hgoes := htimed.inv.goes (Env.clockwork_step hstep htimed.fromOne)
      exact h.own hstop htimed.inv hgoes hstep
  | evm hrun hp hobs =>
      obtain ⟨spot, rem, hlink⟩ := hlinked
      obtain ⟨hrest, heq⟩ := h.evm hlink hp (.of hobs)
      exact ⟨hrest, heq.trans hstop⟩
  | eng hrun hq hobs =>
      obtain ⟨spot, hlink⟩ := heng
      obtain ⟨hrest, heq⟩ := h.eng hlink hq (.of hobs)
      exact ⟨hrest, heq.trans hstop⟩

/-- **What an engine that has decided to stop leaves behind stays so.** -/
theorem Env.Settled.step (h : v.env.Settled cfg) (htimed : v.Timed) (hlinked : v.EvmLinked) (heng : v.EngLinked)
    (hopened : v.Opened) (hok : ViewLabel.meets (Env.StopsClear cfg) v l) (hs : v.Step cfg l v') :
    v'.env.Settled cfg := by
  cases hstop : v.env.engine.stop with
  | false => exact .enter htimed hlinked heng hopened hstop (h.going hstop) hok hs
  | true =>
      have hnext := (h.rest hstop).step hstop htimed hlinked heng hs
      exact ⟨fun _ => hnext.1, fun _ => hnext.2⟩

end Settling

end ComplexSim.Engine
