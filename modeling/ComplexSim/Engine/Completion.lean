import ComplexSim.Engine.Rest

/-!
# Exactly-once delivery

An `EVENT_DRIVEN` engine decides to stop when the tree is empty. Nothing is left then that could
fill it again, so the tree stays empty until the run is over (`Env.Settled`). With the accounts
of the events and the order of the ticks, every event accepted is thrown once.
-/

namespace ComplexSim.Engine

open Workerpool Events

variable {W m : Nat} {δ : Type}

namespace Env

/-- The engine starts the controller itself and counts few enough events, and handlers and
activities schedule for later ticks only. -/
def Later (s : Env W m δ) : EnvAction W m δ → Prop
  | .preStart _ => False
  | .schedule src _ time => src ≠ .main → s.timer.timer.clock < time
  | .engine _ => s.engine.pc = .moreEvents → EvTree.countProduct s.evm.evTree < 2 ^ 31
  | _ => True

instance (s : Env W m δ) (a : EnvAction W m δ) : Decidable (Later s a) :=
  match a with
  | .preStart _ => .isFalse id
  | .schedule src _ time => inferInstanceAs (Decidable (src ≠ .main → s.timer.timer.clock < time))
  | .engine _ =>
      inferInstanceAs (Decidable (s.engine.pc = .moreEvents → EvTree.countProduct s.evm.evTree < 2 ^ 31))
  | .simStart | .fini | .ctl | .slice _ => .isTrue trivial

theorem Later.startsAtOne (s : Env W m δ) (a : EnvAction W m δ) (h : s.Later a) : s.StartsAtOne a := by
  cases a with
  | preStart r => exact h.elim
  | _ => trivial

/-- Few enough events are counted right. -/
theorem Later.stopsClear {cfg : Config} (hst : cfg.st = .eventDriven) (s : Env W m δ) (a : EnvAction W m δ)
    (h : s.Later a) : s.StopsClear cfg a := by
  rintro b rfl hdecides
  cases hdecides with
  | term _ hscan _ =>
      rw [hst] at hscan
      cases hscan
  | noEvents hpc _ hno =>
      have hpending : EvTree.pending s.evm.evTree = [] := by
        by_contra hmore
        rw [(csEvmMoreEvents_iff (h hpc)).2 hmore] at hno
        cases hno
      refine ⟨?_, fun _ => hpending⟩
      rw [hpending]
      nofun

/-- The program, too, schedules for later ticks only. -/
def LaterFromStart (s : Env W m δ) (a : EnvAction W m δ) : Prop :=
  s.Later a ∧ match a with
    | .schedule .main _ time => s.timer.timer.clock < time
    | _ => True

instance (s : Env W m δ) (a : EnvAction W m δ) : Decidable (LaterFromStart s a) :=
  match a with
  | .schedule .main _ time => inferInstanceAs (Decidable (_ ∧ s.timer.timer.clock < time))
  | .schedule (.handler _) _ _ | .schedule (.activity _) _ _ | .preStart _ | .simStart | .fini | .engine _ | .ctl
  | .slice _ => inferInstanceAs (Decidable (_ ∧ True))

end Env

section Settling

variable [DecidableEq δ] {cfg : Config} {v : View W m δ}

/-- **An engine that stops leaves nothing behind** in any run with few enough events whose handlers
and activities schedule for later ticks. -/
theorem settled_reachable (hst : cfg.st = .eventDriven) (hW : W ≠ 0)
    (h : Lts.ReachableIf (viewSystem cfg W m) (ViewLabel.meets Env.Later) v) : v.env.Settled cfg := by
  have hone : ∀ (v : View W m δ) l, ViewLabel.meets Env.Later v l → ViewLabel.meets Env.StartsAtOne v l :=
    ViewLabel.meets_mono Env.Later.startsAtOne
  refine h.invariant_of (P := fun v => v.Timed ∧ v.EvmLinked ∧ v.EngLinked ∧ v.Opened)
    (I := fun v => v.env.Settled cfg)
    (fun v hv => ⟨timed_reachable hone hv, evmLinked_reachable hW hv, engLinked_reachable hv, opened_reachable hv⟩)
    (fun v hv => ?_) fun v l v' hP _ hi hok hs => ?_
  · rw [show v = _ from hv]
    exact .of_going rfl rfl
  · obtain ⟨htimed, hlinked, heng, hopened⟩ := hP
    exact hi.step htimed hlinked heng hopened (ViewLabel.meets_mono (Env.Later.stopsClear hst) v l hok) hs

end Settling

section Delivery

variable [DecidableEq δ] {cfg : Config} {v : View W m δ}

omit [DecidableEq δ] in
/-- Before the engine has left its loop, the controller has not been stopped. -/
theorem View.Timed.not_stopped (htimed : v.Timed) (hleft : v.env.engine.pc.left = false) :
    v.env.evm.stop = false := by
  have hengine := htimed.inv.engine
  have hstage : v.env.clockwork.engine = v.env.engine.pc.stage := rfl
  unfold Clockwork.EngineOk at hengine
  cases hpc : v.env.engine.pc with
  | stopController | timeStop | closing | returned | done | fini q =>
      rw [hpc] at hleft
      cases hleft
  | loop atype q =>
      rw [hstage, hpc] at hengine
      cases atype <;> exact hengine.1
  | _ =>
      rw [hstage, hpc] at hengine
      exact hengine.1

omit [DecidableEq δ] in
/-- At rest all that was accepted is thrown. -/
theorem Env.AtRest.delivered {s : Env W m δ} (h : s.AtRest cfg) (hst : cfg.st = .eventDriven)
    (hledger : s.Ledger) : (s.log.thrown.map Prod.fst).Perm s.log.accepted := by
  have haccepted := hledger.accepted
  rw [h.empty hst, List.nil_append] at haccepted
  exact (haccepted.trans h.thrown).symm

omit [DecidableEq δ] in
/-- Before the engine has left its loop, what is accepted is pending, in hand or thrown, and the
first two are not over yet. -/
theorem View.in_flight (htimed : v.Timed) (hlinked : v.EvmLinked) (hopened : v.Opened) (hledger : v.env.Ledger)
    (hpunctual : v.env.Punctual) (hleft : v.env.engine.pc.left = false) :
    ∃ flight, v.env.log.accepted.Perm (v.env.log.thrown.map Prod.fst ++ flight) ∧
      ∀ x ∈ flight, v.env.timer.timer.clock ≤ x.time := by
  obtain ⟨spot, rem, hlink⟩ := hlinked
  have hpopped := hlink.popped.resolve_left fun hclosed => by
    rw [EnginePc.left_of_finishing (hopened.evm (.inr hclosed))] at hleft
    cases hleft
  refine ⟨EvTree.pending v.env.evm.evTree ++ (List.range W).flatMap rem, ?_, fun x hx => ?_⟩
  · have hperm := hledger.accepted.trans (hpopped.append_left _)
    refine hperm.trans ?_
    rw [← List.append_assoc, ← List.append_assoc]
    exact (List.perm_append_comm).append_right _
  · rcases List.mem_append.1 hx with hx | hx
    · have hlag : v.env.timer.timer.clock ≤ v.env.evm.lastCompletion + 1 :=
        htimed.inv.lag (htimed.not_stopped hleft)
      have hfloor := (Env.floor_le htimed.inv).1
      have hx := hpunctual.pending x hx
      omega
    · obtain ⟨c, -, hx⟩ := List.mem_flatMap.1 hx
      obtain ⟨⟨j, hj⟩, htime⟩ := hlink.rem_time hx
      have hcur : v.env.ctl.curTime = v.env.timer.timer.clock := (htimed.inv.busy (congrArg CtlPc.stage hj)).1
      omega

end Delivery

section Results

variable [DecidableEq δ]

/-- **Every event is delivered once** in every `EVENT_DRIVEN` run with an event worker, few enough
events and requests for later ticks only. An event is thrown while the clock shows its time, and
no more often than it was accepted; once the clock has passed its time it is thrown. When
`cs_sim_start` has returned no event is pending and all that was accepted is thrown. -/
theorem delivered_once (cfg : Config) (hst : cfg.st = .eventDriven) (hW : 0 < W) (s : Sim W m δ)
    (h : Lts.ReachableIf (system cfg W m) (SimAction.meets Env.LaterFromStart) s) :
    (∀ x ∈ s.env.log.thrown, x.1.time = x.2) ∧
    (s.env.log.thrown.map Prod.fst).Subperm s.env.log.accepted ∧
    (s.env.log.accepted.filter (·.time < s.env.timer.timer.clock)).Perm
      ((s.env.log.thrown.map Prod.fst).filter (·.time < s.env.timer.timer.clock)) ∧
    (s.env.engine.pc = .returned →
      EvTree.pending s.env.evm.evTree = [] ∧
        (s.env.log.thrown.map Prod.fst).Perm s.env.log.accepted) := by
  have hview := (sim_refines cfg W m Env.LaterFromStart).reachable h
  have hlater : ∀ (v : View W m δ) l, ViewLabel.meets Env.LaterFromStart v l → ViewLabel.meets Env.Later v l :=
    ViewLabel.meets_mono fun _ _ hl => hl.1
  have hone : ∀ (v : View W m δ) l, ViewLabel.meets Env.LaterFromStart v l →
      ViewLabel.meets Env.StartsAtOne v l :=
    ViewLabel.meets_mono fun s a hl => Env.Later.startsAtOne s a hl.1
  have htimed := timed_reachable hone hview
  have hlinked := evmLinked_reachable (by omega) hview
  have hledger := ledger_reachable hview
  have hpunctual : s.view.env.Punctual := by
    refine punctual_reachable hone (fun v hv src ev time hl => Or.inr ?_) hview
    have hfloor := (Env.floor_le hv.inv).2
    have htime : v.env.timer.timer.clock < time := by
      cases src with
      | main => exact hl.2
      | handler w | activity u => exact hl.1 nofun
    omega
  have hsettled := settled_reachable hst (by omega) (hview.mono hlater)
  refine ⟨fun x hx => (onTime_reachable hone (by omega) hview x hx).1, ?_⟩
  cases hstop : s.view.env.engine.stop with
  | true =>
      have hrest := hsettled.rest hstop
      have hall := hrest.delivered hst hledger
      exact ⟨hall.subperm, (hall.filter _).symm, fun _ => ⟨hrest.empty hst, hall⟩⟩
  | false =>
      have hleft : s.view.env.engine.pc.left = false := hsettled.going hstop
      obtain ⟨flight, haccepted, hflight⟩ :=
        View.in_flight htimed hlinked (opened_reachable hview) hledger hpunctual hleft
      refine ⟨?_, ?_, fun hpc => ?_⟩
      · exact (List.sublist_append_left _ _).subperm.trans haccepted.symm.subperm
      · have hnone : flight.filter (·.time < s.env.timer.timer.clock) = [] := by
          rw [List.filter_eq_nil_iff]
          intro x hx
          have hx : s.env.timer.timer.clock ≤ x.time := hflight x hx
          simpa using hx
        have hperm := haccepted.filter (·.time < s.env.timer.timer.clock)
        rwa [List.filter_append, hnone, List.append_nil] at hperm
      · have hpc : s.view.env.engine.pc = .returned := hpc
        rw [hpc] at hleft
        cases hleft

end Results

/-- The program calls `cs_sim_start`, the engine starts the controller, and tick 1 begins. -/
def engineStarts : List (SimAction 1 1 Unit) :=
  List.flatten [
    [.own .simStart], List.replicate 4 (.own (.engine false)),
    [.evm .start, .evm (.callEnqueue (.ext 0) .controller), .evm (.call (.ext 0)), .evm (.create (.ext 0) 1)],
    List.replicate 4 (.evm (.call (.ext 0))), List.replicate 6 (.evm .controller),
    List.replicate 3 (.evm (.worker ctlWorker)), List.replicate 4 (.own .ctl),
    List.replicate 7 (.own (.engine false))]

/-- A run of one event, from its request to the return of `cs_sim_start`. -/
theorem delivered_once_one : ∃ s : Sim 1 1 Unit,
    Lts.ReachableIf (system ⟨.eventDriven, [], ["tick"]⟩ 1 1) (SimAction.meets Env.LaterFromStart) s ∧
    s.env.log.accepted = [⟨⟨some "tick", ()⟩, 1⟩] ∧ s.env.engine.pc = .returned ∧
    EvTree.pending s.env.evm.evTree = [] ∧ (s.env.log.thrown.map Prod.fst).Perm s.env.log.accepted := by
  obtain ⟨s, hs, hp⟩ := Lts.exec_of_any
    (f := Lts.guarded (SimAction.meets Env.LaterFromStart) (Sim.step ⟨.eventDriven, [], ["tick"]⟩))
    (s := Sim.init ⟨.eventDriven, [], ["tick"]⟩ 1 1 Unit)
    (p := fun s => decide (s.env.log.accepted = [⟨⟨some "tick", ()⟩, 1⟩] ∧ s.env.engine.pc = .returned))
    (l := List.flatten [
      [.own (.schedule .main ⟨some "tick", ()⟩ 1)], engineStarts, List.replicate 4 (.own .ctl),
      [.evm (.callEnqueue (.task 0) (.slice ⟨0, 1, [⟨some "tick", ()⟩], 1⟩)), .evm (.call (.task 0)),
        .evm (.create (.task 0) 2)],
      List.replicate 4 (.evm (.call (.task 0))), [.own .ctl, .evm (.callWait (.task 0) 2)],
      List.replicate 7 (.evm .controller), List.replicate 3 (.evm (.worker 1)),
      [.own (.slice 1), .own (.slice 1), .evm (.taskReturn 1)], List.replicate 3 (.evm (.worker 1)),
      List.replicate 2 (.evm (.call (.task 0))), List.replicate 2 (.own .ctl),
      List.replicate 5 (.own (.engine false)), [.own .ctl], List.replicate 5 (.own (.engine false))])
    (by decide +kernel)
  have hreach : Lts.ReachableIf (system ⟨.eventDriven, [], ["tick"]⟩ 1 1)
      (SimAction.meets Env.LaterFromStart) s := ⟨_, rfl, Lts.exec_guarded_run hs⟩
  obtain ⟨haccepted, hpc⟩ := of_decide_eq_true hp
  exact ⟨s, hreach, haccepted, hpc, (delivered_once _ rfl (by decide) s hreach).2.2.2 hpc⟩

/-- Before it calls `cs_sim_start` the program schedules an event for the tick that the clock shows
then. It is accepted; the first tick that the controller pops is 1, and no event is thrown. -/
theorem program_event_kept : ∃ s : Sim 1 1 Unit,
    Lts.ReachableIf (system ⟨.eventDriven, [], ["tick"]⟩ 1 1) (SimAction.meets Env.Later) s ∧
    ¬ (s.env.log.accepted.filter (·.time < s.env.timer.timer.clock)).Perm
      ((s.env.log.thrown.map Prod.fst).filter (·.time < s.env.timer.timer.clock)) := by
  obtain ⟨s, hs, hp⟩ := Lts.exec_of_any
    (f := Lts.guarded (SimAction.meets Env.Later) (Sim.step ⟨.eventDriven, [], ["tick"]⟩))
    (s := Sim.init ⟨.eventDriven, [], ["tick"]⟩ 1 1 Unit)
    (p := fun s => decide (s.env.log.accepted = [⟨⟨some "tick", ()⟩, 0⟩] ∧
      s.env.timer.timer.clock = 1 ∧ s.env.log.thrown = []))
    (l := .own (.schedule .main ⟨some "tick", ()⟩ 0) :: engineStarts) (by decide +kernel)
  obtain ⟨haccepted, hclock, hthrown⟩ := of_decide_eq_true hp
  refine ⟨s, ⟨_, rfl, Lts.exec_guarded_run hs⟩, ?_⟩
  rw [haccepted, hclock, hthrown]
  decide

end ComplexSim.Engine
