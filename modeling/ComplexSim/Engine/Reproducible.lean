import ComplexSim.Engine.Stages

/-!
# Reproducible runs

Two runs of an `ACTIVITY_SCAN` simulation with the same program take different ways, and throw the
same events at the same ticks where nothing is pending for the tick after the one at which the
termination function answers yes (`reproducible`). For an event pending then it depends on who is
first, the controller or the engine that stops it.
-/

namespace ComplexSim.Engine

open Workerpool Events

variable {W m : Nat} {δ σ : Type}

/-- Where events are thrown on time, the events thrown tell their ticks. -/
theorem View.OnTime.thrown_eq {v : View W m δ} (h : v.OnTime) :
    v.env.log.thrown = (v.env.log.thrown.map Prod.fst).map fun x => (x, x.time) := by
  rw [List.map_map]
  refine (List.map_id _).symm.trans (List.map_congr_left fun x hx => ?_)
  exact Prod.ext rfl (h x hx).1.symm

section Facts

variable [DecidableEq δ] {prog : Program δ σ} {cfg : Config} {p : View W m δ × Script W m δ σ}

omit [DecidableEq δ] in
/-- Nothing is pending for the next tick where the engine decides to stop. -/
theorem Env.ClearStop.stopsClear {s : Env W m δ} {a : EnvAction W m δ} (hst : cfg.st = .activityScan)
    (hinv : s.clockwork.Inv) (hpunctual : s.Punctual) (h : s.ClearStop a) : s.StopsClear cfg a := by
  rintro b rfl hdecides
  cases hdecides with
  | term hpc _ hb =>
      refine ⟨fun x hx => ?_, fun hdriven => ?_⟩
      · have hbehind : s.clockwork.engine = .behind := congrArg EnginePc.stage hpc
        have hlast : s.evm.lastCompletion = s.timer.timer.clock := (hinv.behind hbehind).1
        have hfloor := (floor_le hinv).1
        have hlt := hpunctual.pending x hx
        have hne := h hpc hb x hx
        omega
      · rw [hst] at hdriven
        cases hdriven
  | noEvents _ hdriven _ =>
      rw [hst] at hdriven
      cases hdriven

/-- What is known of the runs with a program whatever the program is. -/
structure Script.Linked (prog : Program δ σ) (cfg : Config) (v : View W m δ) (c : Script W m δ σ) : Prop where
  timed : v.Timed
  evm : v.EvmLinked
  eng : v.EngLinked
  opened : v.Opened
  books : Script.Books prog cfg v.env c

variable (hW : W ≠ 0) (h : Lts.ReachableIf (playView prog cfg W m) (fun p l => ViewLabel.meets Env.ClearStop p.1 l) p)
include hW h

theorem linked_reachable : p.2.Linked prog cfg p.1 := by
  have hv := (playView_refines prog cfg W m (ViewLabel.meets Env.ClearStop)).reachable h
  exact ⟨timed_reachable (ViewLabel.meets_mono Env.ClearStop.startsAtOne) hv, evmLinked_reachable hW hv,
    engLinked_reachable hv, opened_reachable hv, books_reachable h⟩

variable (hlater : prog.Later)
include hlater

/-- **Requests wait for later ticks** in every run of a program that schedules for later ticks. -/
theorem waits_reachable : p.2.Waits p.1.env := by
  refine h.invariant_of (P := fun p => p.2.Linked prog cfg p.1) (I := fun p => p.2.Waits p.1.env)
    (fun p hp => linked_reachable hW hp) (fun p hp => ?_) fun p l p' hP _ hi _ hs => ?_
  · rw [show p = _ from hp]
    intro src x hx
    by_cases hmain : src = .main
    · exact hlater.initial x (by simpa [Script.init, hmain] using hx)
    · simp [Script.init, hmain] at hx
  · obtain ⟨hstep, hallows, hnext⟩ := hs
    rw [hnext]
    exact hi.step hlater hP.books hP.timed hP.evm hP.eng hallows hstep

/-- **No event is left behind** in these runs. -/
theorem play_punctual : p.1.env.Punctual := by
  refine h.invariant_of (P := fun p => p.1.Timed ∧ p.2.Waits p.1.env) (I := fun p => p.1.env.Punctual)
    (fun p hp => ⟨(linked_reachable hW hp).timed, waits_reachable hW hp hlater⟩) (fun p hp => ?_)
    fun p l p' hP _ hi _ hs => ?_
  · rw [show p = _ from hp]
    exact .init cfg
  · obtain ⟨htimed, hwaits⟩ := hP
    obtain ⟨hstep, hallows, -⟩ := hs
    generalize hv' : p'.1 = v' at hstep
    cases hstep with
    | own hrun hstep =>
        refine hi.own hrun htimed.inv (fun src ev time ha => Or.inr ?_) hstep
        subst ha
        have hlt := hwaits src ⟨ev, time⟩ (List.mem_of_mem_head? hallows)
        exact (Env.floor_le htimed.inv).2.trans_lt hlt
    | evm hrun hp hobs => exact hi.evm hrun (.of hobs)
    | eng hrun hq hobs => exact hi.eng hrun (.of hobs)

variable (hst : cfg.st = .activityScan)
include hst

/-- **An engine that stops leaves nothing behind** in these runs. -/
theorem play_settled : p.1.env.Settled cfg := by
  refine h.invariant_of (P := fun p => p.2.Linked prog cfg p.1 ∧ p.1.env.Punctual) (I := fun p => p.1.env.Settled cfg)
    (fun p hp => ⟨linked_reachable hW hp, play_punctual hW hp hlater⟩) (fun p hp => ?_) fun p l p' hP _ hi hok hs => ?_
  · rw [show p = _ from hp]
    exact .of_going rfl rfl
  · obtain ⟨hlinked, hpunctual⟩ := hP
    refine hi.step hlinked.timed hlinked.evm hlinked.eng hlinked.opened ?_ hs.1
    cases l with
    | own a => exact Env.ClearStop.stopsClear hst hlinked.timed.inv hpunctual hok
    | evm e | eng e => trivial

/-- **The stages of these runs are in order.** -/
theorem staged_reachable : p.2.Staged prog p.1.env := by
  refine h.invariant_of (P := fun p => p.2.Linked prog cfg p.1 ∧ p.1.env.Punctual ∧ p.1.env.Settled cfg)
    (I := fun p => p.2.Staged prog p.1.env)
    (fun p hp => ⟨linked_reachable hW hp, play_punctual hW hp hlater, play_settled hW hp hlater hst⟩)
    (fun p hp => ?_) fun p l p' hP hP' hi _ hs => ?_
  · rw [show p = _ from hp]
    exact .init prog cfg
  · obtain ⟨hlinked, hpunctual, hsettled⟩ := hP
    obtain ⟨hstep, hallows, hnext⟩ := hs
    rw [hnext]
    exact hi.step hst hlinked.timed hP'.1.timed hlinked.evm hlinked.eng hlinked.books hpunctual hsettled hallows hstep

/-- **A run that is over has an outcome.** -/
theorem outcome_of_done (hdone : p.1.env.engine.pc = .done) :
    ∃ N, Outcome prog cfg p.2.done (p.1.env.log.thrown.map Prod.fst) N := by
  have hlinked := linked_reachable hW h
  have hpunctual := play_punctual hW h hlater
  have hsettled := play_settled hW h hlater hst
  have hstaged := staged_reachable hW h hlater hst
  have hledger : p.1.env.Ledger :=
    ledger_reachable ((playView_refines prog cfg W m (ViewLabel.meets Env.ClearStop)).reachable h)
  obtain ⟨n, hrounds⟩ := rounds_reachable hst (ViewLabel.meets_mono Env.ClearStop.startsAtOne) h
  generalize p.1 = v at *
  generalize p.2 = c at *
  have hstop : v.env.engine.stop = true := hsettled.left (by rw [hdone]; rfl)
  have hrest := hsettled.rest hstop
  have hover := hstaged.final hstop
  have hnot : ¬ v.env.clockwork.ahead := Env.not_ahead (by simp [hdone, EnginePc.stage]) (by simp [hdone, EnginePc.stage])
  -- the engine has left after the tick of the clock came
  have hround : v.env.round = 2 * v.env.timer.timer.clock := by
    unfold Env.round
    rw [Clockwork.due_of_not_ahead hnot, hdone]
    exact Int.add_zero _
  obtain ⟨N, hN⟩ : ∃ N : Nat, v.env.round = 2 * (N : Int) + 2 :=
    ⟨(v.env.timer.timer.clock - 1).toNat, by have hpos := hover.round; omega⟩
  have hdue : v.env.clockwork.due = N + 1 := by
    rw [Clockwork.due_of_not_ahead hnot]
    show v.env.timer.timer.clock = N + 1
    omega
  have hn : n = 2 * N + 2 := by
    have hrounds := hrounds.round
    omega
  have hleft : c.left = [] := by
    unfold Script.left
    rw [List.flatMap_eq_nil_iff]
    intro src _
    by_contra htodo
    have hbusy := hlinked.books.idle src htodo
    cases src with
    | main => simp [Env.busy, hdone, EnginePc.preparing] at hbusy
    | handler w => simp [Env.busy, hrest.slices w] at hbusy
    | activity u => simp [Env.busy, hrest.blocks u] at hbusy
  have hthrown : (v.env.log.thrown.map Prod.fst).Perm (v.env.log.accepted.filter (·.time ≤ N)) := by
    have hpending : (EvTree.pending v.env.evm.evTree).filter (·.time ≤ (N : Int)) = [] := by
      rw [List.filter_eq_nil_iff]
      intro x hx
      have hlt := hrest.tree x hx
      simp only [decide_eq_true_iff]
      omega
    have hpopped : v.env.log.popped.filter (·.time ≤ (N : Int)) = v.env.log.popped := by
      rw [List.filter_eq_self]
      intro x hx
      have hlt := hover.popped x hx
      simp only [decide_eq_true_iff]
      omega
    have haccepted := hledger.accepted.filter (·.time ≤ (N : Int))
    rw [List.filter_append, hpending, hpopped, List.nil_append] at haccepted
    exact (haccepted.trans hrest.thrown).symm
  have hrequests := hlinked.books.requests
  rw [hleft, show accepts ([] : List (Due δ)) = [] from rfl, List.append_nil] at hrequests
  refine ⟨N, hstaged.sorted, fun j hj => ⟨(hstaged.upto j hj).1, hN ▸ hover.jobs j hj⟩, fun k hk => ?_, ?_, ?_,
    fun i hi => hstaged.asked i (by omega), ?_⟩
  · exact hrounds.past k (by omega)
  · rw [hlinked.books.handlers]
  · exact hthrown.trans (hrequests.filter _)
  · rw [hstaged.answered N hN.symm (by simp [hdone]), hstop]

end Facts

/-- **Runs are reproducible** where, whenever the termination function answers yes, no event is
pending for the next tick. -/
theorem reproducible [DecidableEq δ] {prog : Program δ σ} {cfg : Config} (hst : cfg.st = .activityScan) (hW : W ≠ 0)
    (hlater : prog.Later) (hcomm : ∀ a b : Job δ, a.stage = b.stage → Effect.Commutes prog.job a b)
    {p p' : Play W m δ σ}
    (h : Lts.ReachableIf (playSystem prog cfg W m) (fun p a => SimAction.meets Env.ClearStop p.sim a) p)
    (h' : Lts.ReachableIf (playSystem prog cfg W m) (fun p a => SimAction.meets Env.ClearStop p.sim a) p')
    (hdone : p.sim.env.engine.pc = .done) (hdone' : p'.sim.env.engine.pc = .done) :
    p.sim.env.log.thrown.Perm p'.sim.env.log.thrown := by
  have hview := (play_refines prog cfg W m Env.ClearStop).reachable h
  have hview' := (play_refines prog cfg W m Env.ClearStop).reachable h'
  have htime : ∀ {p : Play W m δ σ}, Lts.ReachableIf (playView prog cfg W m)
      (fun p l => ViewLabel.meets Env.ClearStop p.1 l) (p.sim.view, p.script) → p.sim.view.OnTime := fun hp =>
    onTime_reachable (ViewLabel.meets_mono Env.ClearStop.startsAtOne) hW
      ((playView_refines prog cfg W m (ViewLabel.meets Env.ClearStop)).reachable hp)
  obtain ⟨N, houtcome⟩ := outcome_of_done hW hview hlater hst hdone
  obtain ⟨N', houtcome'⟩ := outcome_of_done hW hview' hlater hst hdone'
  have hthrown := (htime hview).thrown_eq
  have hthrown' := (htime hview').thrown_eq
  have hperm := (houtcome.unique houtcome' hlater hcomm).map fun x => (x, x.time)
  exact (List.Perm.of_eq hthrown).trans (hperm.trans (.of_eq hthrown'.symm))

/-- One event for tick 1; the termination function answers yes from tick `last` on. -/
def oneEvent (last : Int) : Program Unit Unit where
  start := ()
  initial := [⟨⟨some "tick", ()⟩, 1⟩]
  job := fun _ _ => ((), [])
  stops := fun i _ => decide (last ≤ i)

theorem oneEvent_later (last : Int) : (oneEvent last).Later where
  initial := by simp [oneEvent]
  job := by simp [oneEvent]

theorem oneEvent_commutes (last : Int) (a b : Job Unit) (_ : a.stage = b.stage) :
    Effect.Commutes (oneEvent last).job a b := fun _ => ⟨rfl, .refl _⟩

/-- The program schedules its event and calls `cs_sim_start`; the controller comes to the barrier. -/
def opening : List (SimAction 1 1 Unit) :=
  List.flatten [
    [.own (.schedule .main ⟨some "tick", ()⟩ 1), .own .simStart], List.replicate 4 (.own (.engine true)),
    [.evm .start, .evm (.callEnqueue (.ext 0) .controller), .evm (.call (.ext 0)), .evm (.create (.ext 0) 1)],
    List.replicate 3 (.evm (.call (.ext 0))), List.replicate 6 (.evm .controller),
    List.replicate 3 (.evm (.worker ctlWorker)), List.replicate 4 (.own .ctl), [.evm (.call (.ext 0))]]

/-- The controller has popped the event, and an event worker throws it. -/
def throwing : List (SimAction 1 1 Unit) :=
  List.flatten [
    [.evm (.callEnqueue (.task ctlWorker) (.slice ⟨0, 1, [⟨some "tick", ()⟩], 1⟩)), .evm (.call (.task ctlWorker)),
      .evm (.create (.task ctlWorker) 2)],
    List.replicate 3 (.evm (.call (.task ctlWorker))), List.replicate 7 (.evm .controller),
    List.replicate 3 (.evm (.worker sliceWorker)),
    [.own (.slice sliceWorker), .own (.slice sliceWorker), .evm (.taskReturn sliceWorker)],
    List.replicate 3 (.evm (.worker sliceWorker)),
    [.evm (.call (.task ctlWorker)), .own .ctl, .evm (.callWait (.task ctlWorker) 2)],
    List.replicate 2 (.evm (.call (.task ctlWorker)))]

/-- The controller returns, and `cs_engine_fini` shuts the pools down. -/
def leaving : List (SimAction 1 1 Unit) :=
  List.flatten [
    [.evm .callShutdown], List.replicate 3 (.evm .shutdown), List.replicate 7 (.evm .controller),
    List.replicate 3 (.evm (.worker ctlWorker)), [.evm .controller], List.replicate 3 (.evm (.worker sliceWorker)),
    List.replicate 2 (.evm .controller), List.replicate 2 (.evm .shutdown), [.evm .callShutdown],
    List.replicate 2 (.evm .shutdown), [.eng .callShutdown], List.replicate 2 (.eng .shutdown), [.eng .callShutdown],
    List.replicate 2 (.eng .shutdown)]

/-- In one run the engine waits for the completion of tick 1, in the other it comes later and finds
it completed. -/
theorem reproducible_one_event : ∃ p p' : Play 1 1 Unit Unit,
    p.sim.env.engine.pc = .done ∧ p'.sim.env.engine.pc = .done ∧ p.sim.env.log.thrown = [(⟨⟨some "tick", ()⟩, 1⟩, 1)] ∧
    p.sim.env.log.thrown.Perm p'.sim.env.log.thrown := by
  obtain ⟨p, hp, hdone⟩ := Lts.exec_of_any
    (f := Lts.guarded (fun p a => SimAction.meets Env.ClearStop p.sim a)
      (Play.step (oneEvent 1) ⟨.activityScan, [], ["tick"]⟩))
    (s := Play.init (oneEvent 1) ⟨.activityScan, [], ["tick"]⟩ 1 1)
    (p := fun p => decide (p.sim.env.engine.pc = .done ∧ p.sim.env.log.thrown = [(⟨⟨some "tick", ()⟩, 1⟩, 1)]))
    (l := List.flatten [opening, List.replicate 8 (.own (.engine false)), List.replicate 4 (.own .ctl), throwing,
      List.replicate 3 (.own .ctl), List.replicate 8 (.own (.engine true)), [.own .fini],
      List.replicate 2 (.own (.engine true)), List.replicate 4 (.own .ctl), [.evm (.taskReturn 0)],
      List.replicate 3 (.evm (.worker 0)), leaving])
    (by decide +kernel)
  obtain ⟨p', hp', hdone'⟩ := Lts.exec_of_any
    (f := Lts.guarded (fun p a => SimAction.meets Env.ClearStop p.sim a)
      (Play.step (oneEvent 1) ⟨.activityScan, [], ["tick"]⟩))
    (s := Play.init (oneEvent 1) ⟨.activityScan, [], ["tick"]⟩ 1 1)
    (p := fun p => decide (p.sim.env.engine.pc = .done))
    (l := List.flatten [opening, List.replicate 5 (.own (.engine false)), List.replicate 4 (.own .ctl), throwing,
      List.replicate 2 (.own .ctl), List.replicate 6 (.own (.engine true)), List.replicate 6 (.own .ctl),
      List.replicate 5 (.own (.engine true)), List.replicate 4 (.own .ctl), [.evm (.taskReturn 0)],
      List.replicate 3 (.evm (.worker 0)), [.own .fini, .own (.engine true)], leaving])
    (by decide +kernel)
  obtain ⟨hpc, hthrown⟩ := of_decide_eq_true hdone
  have hpc' := of_decide_eq_true hdone'
  exact ⟨p, p', hpc, hpc', hthrown, reproducible rfl (by decide) (oneEvent_later 1) (oneEvent_commutes 1)
    ⟨_, rfl, Lts.exec_guarded_run hp⟩ ⟨_, rfl, Lts.exec_guarded_run hp'⟩ hpc hpc'⟩

/-- The termination function answers yes at tick 0, with the event pending for tick 1. Both actors pass
the barrier; in one run the engine stops the controller at once, in the other the controller has
popped the event before. -/
theorem stop_races : (oneEvent 0).Later ∧
    (∀ a b : Job Unit, a.stage = b.stage → Effect.Commutes (oneEvent 0).job a b) ∧
    ∃ p p' : Play 1 1 Unit Unit,
      Lts.ReachableIf (playSystem (oneEvent 0) ⟨.activityScan, [], ["tick"]⟩ 1 1)
        (fun p a => SimAction.meets Env.StartsAtOne p.sim a) p ∧
      Lts.ReachableIf (playSystem (oneEvent 0) ⟨.activityScan, [], ["tick"]⟩ 1 1)
        (fun p a => SimAction.meets Env.StartsAtOne p.sim a) p' ∧
      p.sim.env.engine.pc = .done ∧ p'.sim.env.engine.pc = .done ∧
      ¬ p.sim.env.log.thrown.Perm p'.sim.env.log.thrown := by
  obtain ⟨p, hp, hdone⟩ := Lts.exec_of_any
    (f := Lts.guarded (fun p a => SimAction.meets Env.StartsAtOne p.sim a)
      (Play.step (oneEvent 0) ⟨.activityScan, [], ["tick"]⟩))
    (s := Play.init (oneEvent 0) ⟨.activityScan, [], ["tick"]⟩ 1 1)
    (p := fun p => decide (p.sim.env.engine.pc = .done ∧ p.sim.env.log.thrown = []))
    (l := List.flatten [opening, List.replicate 8 (.own (.engine true)), [.own .fini],
      List.replicate 2 (.own (.engine true)), List.replicate 4 (.own .ctl), [.evm (.taskReturn 0)],
      List.replicate 3 (.evm (.worker 0)), leaving])
    (by decide +kernel)
  obtain ⟨p', hp', hdone'⟩ := Lts.exec_of_any
    (f := Lts.guarded (fun p a => SimAction.meets Env.StartsAtOne p.sim a)
      (Play.step (oneEvent 0) ⟨.activityScan, [], ["tick"]⟩))
    (s := Play.init (oneEvent 0) ⟨.activityScan, [], ["tick"]⟩ 1 1)
    (p := fun p => decide (p.sim.env.engine.pc = .done ∧ p.sim.env.log.thrown = [(⟨⟨some "tick", ()⟩, 1⟩, 1)]))
    (l := List.flatten [opening, List.replicate 4 (.own (.engine true)), List.replicate 4 (.own .ctl), throwing,
      List.replicate 3 (.own .ctl), List.replicate 3 (.own (.engine true)), List.replicate 4 (.own .ctl),
      [.evm (.taskReturn 0)], List.replicate 3 (.evm (.worker 0)), [.own (.engine true), .own .fini, .own (.engine true)],
      leaving])
    (by decide +kernel)
  obtain ⟨hpc, hnone⟩ := of_decide_eq_true hdone
  obtain ⟨hpc', hone⟩ := of_decide_eq_true hdone'
  refine ⟨oneEvent_later 0, oneEvent_commutes 0, p, p', ⟨_, rfl, Lts.exec_guarded_run hp⟩,
    ⟨_, rfl, Lts.exec_guarded_run hp'⟩, hpc, hpc', ?_⟩
  rw [hnone, hone]
  decide

end ComplexSim.Engine
