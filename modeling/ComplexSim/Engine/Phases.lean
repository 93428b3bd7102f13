import ComplexSim.Engine.Delivery

/-!
# The phases of a tick

When the engine performs its `AFTER_STEP` activities or tests for termination, the tick of the
clock is over: its events are handled and its `USER` activities performed, and nothing of a
later tick has begun.
-/

namespace ComplexSim.Engine

open Workerpool Events

variable {W m : Nat} {δ : Type}

/-- The engine performs its `AFTER_STEP` activities, or evaluates its termination test. -/
def EnginePc.stepEnd : EnginePc → Bool
  | .loop .afterStep _ | .term | .moreEvents => true
  | _ => false

theorem EnginePc.stepEnd_stage {pc : EnginePc} (h : pc.stepEnd = true) :
    pc.stage = .behind ∧ pc.finishing = false ∧ (pc.loopType = some .afterStep ∨ pc.loopType = none) := by
  cases pc with
  | loop atype q =>
      cases atype with
      | afterStep => exact ⟨rfl, rfl, .inl rfl⟩
      | user => cases h
  | term | moreEvents => exact ⟨rfl, rfl, .inr rfl⟩
  | _ => cases h

/-- What is done when the engine is at the end of a step at clock `t`. -/
structure Env.TickOver (s : Env W m δ) (t : Int) : Prop where
  completed : s.evm.lastCompletion = t
  /-- every event popped is thrown -/
  thrown : s.log.popped.Perm (s.log.thrown.map Prod.fst)
  /-- every handler has returned -/
  handled : (s.log.thrown.map Prod.fst).Perm s.log.handled
  /-- no event of a later tick has begun -/
  notLater : ∀ x ∈ s.log.thrown, x.1.time ≤ t

section Logs

variable {cfg : Config} {s s' : Env W m δ}

/-- What has been popped stays so. -/
theorem Env.popped_mono {a : EnvAction W m δ} (hs : s.step cfg a = some s') : s.log.popped <+: s'.log.popped := by
  cases a with
  | preStart r | simStart | fini =>
      obtain ⟨-, rfl⟩ := Env.mainStep_cases hs
      exact List.prefix_refl _
  | engine b =>
      rw [(Env.EngineStep.of hs).frame.2.2.2.1]
  | ctl =>
      cases Env.CtlStep.of hs with
      | popCrash | pop => exact List.prefix_append _ _
      | _ => exact List.prefix_refl _
  | slice w => cases Env.SliceStep.of hs <;> exact List.prefix_refl _
  | schedule src ev time =>
      obtain ⟨-, rfl⟩ := Env.scheduleStep_cases hs
      exact List.prefix_refl _

variable [DecidableEq δ]

theorem Sim.popped_mono {s s' : Sim W m δ} {a : SimAction W m δ} (hs : s.step cfg a = some s') :
    s.env.log.popped <+: s'.env.log.popped := by
  obtain ⟨-, ⟨b, env, -, henv, rfl⟩ | ⟨b, p, e, env, -, -, henv, rfl⟩ | ⟨b, p, e, env, -, -, henv, rfl⟩⟩ :=
    Sim.step_cases hs
  · exact Env.popped_mono henv
  · cases Env.EvmStep.of henv <;> exact List.prefix_refl _
  · cases Env.EngStep.of henv <;> exact List.prefix_refl _

theorem run_popped_mono {ok : Sim W m δ → SimAction W m δ → Prop} {s s' : Sim W m δ}
    (h : Lts.Run (system cfg W m) ok s s') : s.env.log.popped <+: s'.env.log.popped := by
  induction h with
  | refl => exact List.prefix_refl _
  | tail _ _ hs ih => exact ih.trans (Sim.popped_mono hs)

end Logs

/-- The list of a tick is popped as a whole. -/
theorem pop_dues (t : EvTree δ) (time : Int) :
    ((EvTree.pending t).filter (·.time = time)).Perm ((popEvents t time).2.elim [] CsEventList.dues) := by
  have hself : ((popEvents t time).2.elim [] CsEventList.dues).filter (·.time = time) =
      (popEvents t time).2.elim [] CsEventList.dues := by
    rw [List.filter_eq_self]
    intro x hx
    cases hpop : (popEvents t time).2 with
    | none =>
        rw [hpop] at hx
        cases hx
    | some l =>
        rw [hpop] at hx
        rw [CsEventList.mem_dues hx, popEvents_time hpop]
        simp
  have hrest : (EvTree.pending (popEvents t time).1).filter (·.time = time) = [] := by
    rw [List.filter_eq_nil_iff]
    intro x hx
    simpa using popEvents_left hx
  have hperm := (popEvents_pending t time).filter (·.time = time)
  rwa [List.filter_append, hself, hrest, List.append_nil] at hperm

/-- The controller records what it pops. -/
theorem Env.CtlStep.pops {s s' : Env W m δ} (hs : s.CtlStep s') (hpc : s.ctl.pc = .pop) :
    ((EvTree.pending s.evm.evTree).filter (·.time = s.ctl.curTime)).Subperm s'.log.popped := by
  have hdues := pop_dues s.evm.evTree s.ctl.curTime
  have hlist : ∀ evList, (popEvents s.evm.evTree s.ctl.curTime).2 = some evList →
      ((EvTree.pending s.evm.evTree).filter (·.time = s.ctl.curTime)).Subperm
        (s.log.popped ++ evList.dues) := by
    intro evList hpop
    rw [hpop] at hdues
    exact hdues.subperm.trans (List.sublist_append_right _ _).subperm
  cases hs with
  | popNone _ hpop =>
      rw [hpop] at hdues
      rw [hdues.eq_nil]
      exact List.nil_subperm
  | popCrash evList _ hpop _ | pop evList _ hpop _ => exact hlist evList hpop
  | _ => simp_all

section TickOver

variable [DecidableEq δ] {cfg : Config} {v : View W m δ}

omit [DecidableEq δ] in
/-- At the end of a step the controller has no event in hand. -/
theorem View.tickOver (htimed : v.Timed) (hlinked : v.EvmLinked) (hopened : v.Opened) (hledger : v.env.Ledger)
    (hontime : v.OnTime) (hend : v.env.engine.pc.stepEnd = true) : v.env.TickOver v.env.timer.timer.clock := by
  obtain ⟨hstage, hfinishing, -⟩ := EnginePc.stepEnd_stage hend
  have hlast : v.env.evm.lastCompletion = v.env.timer.timer.clock := (htimed.inv.behind hstage).1
  obtain ⟨-, hslices, hthrown⟩ := View.behind_rest htimed hlinked hopened hstage hfinishing
  refine ⟨hlast, hthrown, ?_, fun x hx => ?_⟩
  · have hhandling : v.env.handling = [] := by
      simp [Env.handling, Env.inHand, hslices]
    have hthrown := hledger.thrown
    rwa [hhandling, List.append_nil] at hthrown
  · obtain ⟨htime, hclock⟩ := hontime x hx
    omega

/-- The closing assertion of the main loop never fails. -/
theorem not_closing_reachable (h : Lts.ReachableIf (viewSystem cfg W m) (ViewLabel.meets Env.StartsAtOne) v) :
    v.env.failed ≠ some .closing := by
  refine h.invariant_of (P := View.Timed) (I := fun v => v.env.failed ≠ some .closing)
    (fun v hv => timed_reachable (fun _ _ hl => hl) hv) (fun v hv => ?_) fun v l v' htimed htimed' hi hok hs => ?_
  · rw [show v = _ from hv]
    simp [Env.init]
  · cases hs with
    | own hrun hstep =>
        rename_i a env
        cases a with
        | preStart r | simStart | fini =>
            obtain ⟨-, rfl⟩ := Env.mainStep_cases hstep
            exact hi
        | engine b =>
            cases Env.EngineStep.of hstep with
            | closingFails hpc hclock =>
                have hengine := htimed.inv.engine
                have hstage : v.env.clockwork.engine = .closing := congrArg EnginePc.stage hpc
                simp only [Clockwork.EngineOk, hstage] at hengine
                exact absurd hengine.2.2.2.2 hclock
            | loopCrash => simp
            | _ => exact hi
        | ctl =>
            cases Env.CtlStep.of hstep with
            | popCrash => simp
            | _ => exact hi
        | slice w =>
            cases Env.SliceStep.of hstep with
            | nullEvent | eventType => simp
            | _ => exact hi
        | schedule src ev time =>
            obtain ⟨-, rfl⟩ := Env.scheduleStep_cases hstep
            exact hi
    | evm hrun hp hobs => cases Env.EvmStep.of hobs <;> exact hi
    | eng hrun hp hobs => cases Env.EngStep.of hobs <;> exact hi

end TickOver

section Results

variable [DecidableEq δ]

/-- **The phases of a tick keep their order** in every run with an event worker whose controller
raises events from tick 1 on. At the end of a step the tick of the clock is over: it is
completed, all that was popped is thrown and handled (among it every event that was in the tree
for a tick when the controller popped that tick), no `USER` task is active, and no later event
has begun. The closing assertion holds. -/
theorem phases_in_order (cfg : Config) (hW : 0 < W) (s : Sim W m δ)
    (h : Lts.ReachableIf (system cfg W m) (SimAction.meets Env.StartsAtOne) s) :
    (s.env.engine.pc.stepEnd = true →
      s.env.TickOver s.env.timer.timer.clock ∧
      (∀ t x, s.engWp.abs.Active t x → x.type ≠ .user) ∧
      ∀ s₀ s₁, s₀.env.ctl.pc = .pop → Sim.step cfg s₀ (.own .ctl) = some s₁ →
        Lts.Run (system cfg W m) (SimAction.meets Env.StartsAtOne) s₁ s →
        ((EvTree.pending s₀.env.evm.evTree).filter (·.time = s₀.env.ctl.curTime)).Subperm
          s.env.log.handled) ∧
    s.env.failed ≠ some .closing := by
  have hview := (sim_refines cfg W m Env.StartsAtOne).reachable h
  have hone : ∀ (v : View W m δ) l, ViewLabel.meets Env.StartsAtOne v l →
      ViewLabel.meets Env.StartsAtOne v l := fun _ _ hl => hl
  refine ⟨fun hend => ?_, not_closing_reachable hview⟩
  have hover : s.env.TickOver s.env.timer.timer.clock :=
    View.tickOver (v := s.view) (timed_reachable hone hview) (evmLinked_reachable (by omega) hview)
      (opened_reachable hview) (ledger_reachable hview) (onTime_reachable hone (by omega) hview) hend
  refine ⟨hover, fun t x hact => ?_, fun s₀ s₁ hpc hstep hrun => ?_⟩
  · obtain ⟨spot, hlink⟩ := engLinked_reachable hview
    have htype := hlink.loopType_of_active hact
    obtain ⟨-, -, hloop | hloop⟩ := EnginePc.stepEnd_stage hend
    · rw [show s.view.env.engine.pc.loopType = _ from hloop] at htype
      have htype : x.type = .afterStep := (Option.some.inj htype).symm
      rw [htype]
      nofun
    · rw [show s.view.env.engine.pc.loopType = _ from hloop] at htype
      cases htype
  · obtain ⟨-, ⟨b, env, hb, henv, rfl⟩ | ⟨_, _, _, _, hb, -⟩ | ⟨_, _, _, _, hb, -⟩⟩ := Sim.step_cases hstep
    · cases hb
      have hpopped := (Env.CtlStep.of henv).pops hpc
      have hmono := (run_popped_mono hrun).sublist.subperm
      exact (hpopped.trans hmono).trans ((hover.thrown.trans hover.handled).subperm)
    · cases hb
    · cases hb

end Results

/-- A tick with an event, and the step of the engine after its completion. -/
theorem phases_in_order_one : ∃ s : Sim 1 1 Unit,
    Lts.ReachableIf (system ⟨.eventDriven, [], ["tick"]⟩ 1 1) (SimAction.meets Env.StartsAtOne) s ∧
    s.env.log.popped = [⟨⟨some "tick", ()⟩, 1⟩] ∧ s.env.engine.pc.stepEnd = true ∧
    s.env.TickOver s.env.timer.timer.clock := by
  obtain ⟨s, hs, hp⟩ := Lts.exec_of_any
    (f := Lts.guarded (SimAction.meets Env.StartsAtOne) (Sim.step ⟨.eventDriven, [], ["tick"]⟩))
    (s := Sim.init ⟨.eventDriven, [], ["tick"]⟩ 1 1 Unit)
    (p := fun s => decide (s.env.log.popped = [⟨⟨some "tick", ()⟩, 1⟩] ∧ s.env.engine.pc.stepEnd = true))
    (l := oneTick 2 ++ [.own (.engine false)]) (by decide +kernel)
  have hreach : Lts.ReachableIf (system ⟨.eventDriven, [], ["tick"]⟩ 1 1) (SimAction.meets Env.StartsAtOne) s :=
    ⟨_, rfl, Lts.exec_guarded_run hs⟩
  obtain ⟨hpopped, hend⟩ := of_decide_eq_true hp
  exact ⟨s, hreach, hpopped, hend, ((phases_in_order _ (by decide) s hreach).1 hend).1⟩

end ComplexSim.Engine
