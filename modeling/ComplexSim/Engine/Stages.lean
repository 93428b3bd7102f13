import ComplexSim.Engine.Outcome

/-!
# The stages of a run

The jobs of a run begin stage by stage, and the termination function is asked at each tick when
the jobs up to it have begun (`Script.Staged`). Where it answers yes and no event is pending for
the next tick, no job begins any more: what the run has done then is its outcome.
-/

namespace ComplexSim.Engine

open Workerpool Events

variable {W m : Nat} {δ σ : Type}

namespace Env

variable {s s' : Env W m δ}

/-- The controller raises events from tick 1 on, and where the termination function answers yes, no
event is pending for the next tick. -/
def ClearStop (s : Env W m δ) : EnvAction W m δ → Prop
  | .preStart r => r ≤ 1
  | .engine b => s.engine.pc = .term → b = true →
      ∀ x ∈ EvTree.pending s.evm.evTree, x.time ≠ s.timer.timer.clock + 1
  | _ => True

instance (s : Env W m δ) (a : EnvAction W m δ) : Decidable (ClearStop s a) :=
  match a with
  | .preStart r => inferInstanceAs (Decidable (r ≤ 1))
  | .engine b => inferInstanceAs (Decidable (s.engine.pc = .term → b = true →
      ∀ x ∈ EvTree.pending s.evm.evTree, x.time ≠ s.timer.timer.clock + 1))
  | .simStart | .fini | .ctl | .slice _ | .schedule _ _ _ => .isTrue trivial

theorem ClearStop.startsAtOne (s : Env W m δ) (a : EnvAction W m δ) (h : s.ClearStop a) : s.StartsAtOne a := by
  cases a with
  | preStart r => exact h
  | _ => trivial

/-- Jobs begin at later and later stages. -/
theorem now_mono (hgoes : s.clockwork.Goes s'.clockwork) : s.now ≤ s'.now := by
  cases hgoes with
  | stays hclock hdue =>
      unfold now
      rw [hdue]
      exact (congrArg (· + _) hclock).ge
  | ends hengine hahead hclock =>
      have hnot : ¬ s.clockwork.ahead := by rcases hengine with hc | hc <;> simp [Clockwork.ahead, hc]
      have hclock : s'.timer.timer.clock = s.timer.timer.clock := hclock
      rw [now_of_not_ahead hnot, now_of_ahead hahead]
      omega
  | ticks hahead hnot hclock =>
      have hclock : s'.timer.timer.clock = s.timer.timer.clock + 1 := hclock
      rw [now_of_ahead hahead, now_of_not_ahead hnot]
      omega

theorem now_nonneg (hinv : s.clockwork.Inv) : 0 ≤ s.now := by
  have hclock : 0 ≤ s.timer.timer.clock := hinv.nonneg
  by_cases h : s.clockwork.ahead
  · rw [now_of_ahead h]
    omega
  · rw [now_of_not_ahead h]
    omega

/-- A job that begins is not of a tick at which the termination function has been asked. -/
theorem le_now {i : Int} (hplace : ¬ s.clockwork.ahead ∨ s.engine.pc.loopType ≠ none) (hi : 2 * i + 2 ≤ s.round) :
    2 * i + 2 ≤ s.now := by
  rcases hplace with hnot | hloop
  · unfold round at hi
    rw [Clockwork.due_of_not_ahead hnot] at hi
    have hi : 2 * i + 2 ≤ 2 * s.timer.timer.clock + s.engine.pc.offset := hi
    have hoffset : s.engine.pc.offset ≤ 1 := by
      unfold EnginePc.offset
      split <;> omega
    rw [now_of_not_ahead hnot]
    omega
  · cases hpc : s.engine.pc with
    | loop atype p => rwa [← round_loop hpc]
    | _ =>
        rw [hpc] at hloop
        exact absurd rfl hloop

/-- Where the engine asks the termination function, all jobs of the tick have begun. -/
theorem round_term (hpc : s.engine.pc = .term) :
    s.round = 2 * s.timer.timer.clock + 2 ∧ s.now = 2 * s.timer.timer.clock + 1 := by
  have hahead : s.clockwork.ahead := Or.inl (congrArg EnginePc.stage hpc)
  refine ⟨?_, now_of_ahead hahead⟩
  unfold round
  rw [Clockwork.due_of_ahead hahead, hpc]
  show 2 * (s.timer.timer.clock + 1) + 0 = _
  omega

end Env

/-- What a run has done where the engine has decided to stop. -/
structure Script.Over (s : Env W m δ) (c : Script W m δ σ) : Prop where
  round : 2 ≤ s.round
  jobs : ∀ j ∈ c.done, j.stage < s.round
  popped : ∀ x ∈ s.log.popped, 2 * x.time < s.round

/-- The stages of a run. -/
structure Script.Staged (prog : Program δ σ) (s : Env W m δ) (c : Script W m δ σ) : Prop where
  sorted : c.done.Pairwise fun a b => a.stage ≤ b.stage
  upto : ∀ j ∈ c.done, 0 ≤ j.stage ∧ j.stage ≤ s.now
  asked : ∀ i : Nat, 2 * (i : Int) + 2 < s.round → prog.stops i (prog.stateAfter c.done i) = false
  answered : ∀ i : Nat, 2 * (i : Int) + 2 = s.round → s.engine.pc ≠ .term →
    prog.stops i (prog.stateAfter c.done i) = s.engine.stop
  final : s.engine.stop = true → c.Over s

namespace Script.Staged

variable {prog : Program δ σ} {cfg : Config} {s s' : Env W m δ} {c c' : Script W m δ σ}

theorem init (prog : Program δ σ) (cfg : Config) : Staged prog (Env.init cfg : Env W m δ) (Script.init prog) where
  sorted := .nil
  upto := nofun
  asked := fun i hi => by
    have hround : (Env.init cfg : Env W m δ).round = 1 := rfl
    omega
  answered := fun i hi => by
    have hround : (Env.init cfg : Env W m δ).round = 1 := rfl
    omega
  final := nofun

/-- A step within a round. -/
theorem keep (h : Staged prog s c) (hnow : s.now ≤ s'.now) (hround : s'.round = s.round)
    (hterm : s.engine.pc = .term → s'.engine.pc = .term) (hstop : s'.engine.stop = s.engine.stop)
    (hpopped : s.engine.stop = true → s'.log.popped = s.log.popped) : Staged prog s' c where
  sorted := h.sorted
  upto := fun j hj => ⟨(h.upto j hj).1, (h.upto j hj).2.trans hnow⟩
  asked := fun i hi => h.asked i (hround ▸ hi)
  answered := fun i hi hpc => by
    rw [hstop]
    exact h.answered i (hround ▸ hi) (mt hterm hpc)
  final := fun hyes => by
    rw [hstop] at hyes
    obtain ⟨hpos, hjobs, hevents⟩ := h.final hyes
    exact ⟨hround ▸ hpos, fun j hj => hround ▸ hjobs j hj, fun x hx => by
      rw [hround]
      exact hevents x (hpopped hyes ▸ hx)⟩

/-- A job begins. -/
theorem begins (h : Staged prog s c) (hnonneg : 0 ≤ s.now) (hstop : s.engine.stop = false) {src : Source W m} {j : Job δ}
    (hstage : j.stage = s.now) (hplace : ¬ s.clockwork.ahead ∨ s.engine.pc.loopType ≠ none) :
    Staged prog s (c.begin prog src j) := by
  have hstate : ∀ i : Int, 2 * i + 2 ≤ s.round →
      prog.stateAfter (c.begin prog src j).done i = prog.stateAfter c.done i := by
    intro i hi
    have hle := Env.le_now hplace hi
    unfold Program.stateAfter
    rw [begin_done, List.filter_append, List.filter_cons_of_neg (by simp; omega), List.filter_nil, List.append_nil]
  refine ⟨?_, fun a ha => ?_, fun i hi => ?_, fun i hi hpc => ?_, fun hyes => ?_⟩
  · rw [begin_done, List.pairwise_append]
    refine ⟨h.sorted, List.pairwise_singleton _ _, fun a ha b hb => ?_⟩
    rw [List.mem_singleton.1 hb, hstage]
    exact (h.upto a ha).2
  · rcases List.mem_append.1 ha with ha | ha
    · exact h.upto a ha
    · rw [List.mem_singleton.1 ha, hstage]
      exact ⟨hnonneg, le_refl _⟩
  · rw [hstate i hi.le]
    exact h.asked i hi
  · rw [hstate i hi.le]
    exact h.answered i hi hpc
  · rw [hstop] at hyes
    cases hyes

/-- The engine ends a loop. -/
theorem endsLoop (h : Staged prog s c) (hnow : s.now ≤ s'.now) {atype : ActivityType} {p : LoopPc}
    (hpc : s.engine.pc = .loop atype p) (hpc' : s'.engine.pc = Env.afterLoop atype) (hround : s'.round = s.round + 1)
    (hstop : s.engine.stop = false) (hstop' : s'.engine.stop = false) : Staged prog s' c := by
  have hahead := Env.ahead_loop hpc
  have hloop := Env.round_loop hpc
  have hanswered : ∀ i : Nat, 2 * (i : Int) + 2 = s.round → prog.stops i (prog.stateAfter c.done i) = false := by
    intro i hi
    rw [h.answered i hi (by rw [hpc]; nofun), hstop]
  refine ⟨h.sorted, fun j hj => ⟨(h.upto j hj).1, (h.upto j hj).2.trans hnow⟩, fun i hi => ?_, fun i hi hterm => ?_,
    fun hyes => ?_⟩
  · rcases Int.lt_or_eq_of_le (by omega : 2 * (i : Int) + 2 ≤ s.round) with hlt | heq
    · exact h.asked i hlt
    · exact hanswered i heq
  · cases atype with
    | user =>
        rw [Env.now_of_not_ahead (by simp [hahead])] at hloop
        omega
    | afterStep => exact absurd hpc' hterm
  · rw [hstop'] at hyes
    cases hyes

/-- The program when the termination function is asked. -/
theorem state_term (h : Staged prog s c) (hbooks : Script.Books prog cfg s c) (hpc : s.engine.pc = .term) {i : Nat}
    (hi : 2 * (i : Int) + 2 = s.round) : prog.stops i (prog.stateAfter c.done i) = prog.stops s.timer.timer.clock c.user := by
  obtain ⟨hround, hnow⟩ := Env.round_term hpc
  have hclock : (i : Int) = s.timer.timer.clock := by omega
  have hall : c.done.filter (·.stage < 2 * (i : Int) + 2) = c.done := by
    rw [List.filter_eq_self]
    intro j hj
    have hle := (h.upto j hj).2
    simp only [decide_eq_true_iff]
    omega
  unfold Program.stateAfter
  rw [hall, hbooks.user, hclock]

/-- The steps of the engine, before it has decided to stop. -/
theorem engineStep (h : Staged prog s c) (hst : cfg.st = .activityScan) (hinv : s.clockwork.Inv)
    (hgoes : s.clockwork.Goes s'.clockwork) (hbooks : Script.Books prog cfg s c) (hrun : s.failed = none)
    (hpunctual : s.Punctual) (hstop : s.engine.stop = false) {b : Bool}
    (hb : s.engine.pc = .term → b = prog.stops s.timer.timer.clock c.user) (hs : s.EngineStep cfg b s') :
    Staged prog s' c := by
  have hnow := Env.now_mono hgoes
  have hround := hs.round hst hgoes
  have hkeep : (∀ atype p, s.engine.pc = .loop atype p → s'.engine.pc ≠ Env.afterLoop atype) → s.engine.pc ≠ .term →
      s'.engine.stop = s.engine.stop → s'.log = s.log → Staged prog s' c := by
    intro hloop hterm hsame hlog
    exact h.keep hnow (hround hloop) (fun hpc => absurd hpc hterm) hsame fun _ => by rw [hlog]
  cases hs with
  | loopCrash | closingFails => exact h.keep hnow (Env.round_same hgoes rfl) id rfl fun _ => rfl
  | loopEnd atype hpc => exact h.endsLoop hnow hpc rfl (Env.round_afterLoop hgoes hpc rfl) hstop hstop
  | loopSkip atype hpc _ => exact h.endsLoop hnow hpc rfl (Env.round_afterLoop hgoes hpc rfl) hstop hstop
  | terminate hpc _ hyes =>
      have hround := hround (by simp [hpc])
      obtain ⟨hround', hnow'⟩ := Env.round_term hpc
      have hclock : 0 ≤ s.timer.timer.clock := hinv.nonneg
      refine ⟨h.sorted, fun j hj => ⟨(h.upto j hj).1, (h.upto j hj).2.trans hnow⟩, fun i hi => h.asked i (hround ▸ hi),
        fun i hi _ => ?_, fun _ => ⟨?_, fun j hj => ?_, fun x hx => ?_⟩⟩
      · rw [h.state_term hbooks hpc (hround ▸ hi), ← hb hpc, hyes]
      · rw [hround, hround']
        omega
      · have hle := (h.upto j hj).2
        rw [hround]
        omega
      · have hle := hpunctual.popped hrun x hx
        have hfloor := (Env.floor_le hinv).2
        rw [hround]
        omega
  | goOn hpc hno =>
      have hround := hround (by simp [hpc])
      refine ⟨h.sorted, fun j hj => ⟨(h.upto j hj).1, (h.upto j hj).2.trans hnow⟩, fun i hi => h.asked i (hround ▸ hi),
        fun i hi _ => ?_, fun hyes => ?_⟩
      · have hno : b = false := Bool.eq_false_iff.2 fun hyes => hno ⟨hst, hyes⟩
        rw [h.state_term hbooks hpc (hround ▸ hi), ← hb hpc, hno]
        exact hstop.symm
      · have hyes : s.engine.stop = true := hyes
        rw [hstop] at hyes
        cases hyes
  | moreEvents hpc =>
      refine hkeep (by simp [hpc]) (by simp [hpc]) ?_ rfl
      rw [hstop, hst]
      simp
  | loopFork atype _ _ hpc _ _ _ | loopWait atype _ hpc =>
      refine hkeep (fun atype' p _ => ?_) (by simp [hpc]) rfl rfl
      cases atype' <;> simp [Env.afterLoop]
  | startTime _ _ hpc | setNsync hpc | firstClock hpc | evmRunning hpc | noActivities hpc _ | pass _ _ hpc _
  | arrive _ hpc _ | leave _ _ hpc _ | clockStop hpc _ | clockScan hpc _ _ | clockDriven hpc _ _ | stopController hpc
  | timeStop hpc | closing hpc _ | wait hpc _ | completed hpc _ | woken hpc _ | finiRunning hpc | finiStop hpc =>
      exact hkeep (by simp [hpc]) (by simp [hpc]) rfl rfl

end Script.Staged

section Asking

variable {s s' : Env W m δ}

/-- The pools neither ask nor answer for the termination function. -/
theorem Env.EvmStep.term [DecidableEq δ] {e : PoolEvent (W + 1) (EvTask δ)} (hs : s.EvmStep e s') :
    s'.engine.stop = s.engine.stop ∧ (s.engine.pc = .term → s'.engine.pc = .term) := by
  cases hs with
  | startFailed _ _ hpc _ | start _ _ hpc _ | enqueueController _ hpc | enqueued _ _ hpc | shutdownCall _ hpc _
  | shutdownRet _ _ hpc _ => exact ⟨rfl, by simp [hpc]⟩
  | _ => exact ⟨rfl, id⟩

@[inherit_doc Env.EvmStep.term]
theorem Env.EngStep.term {e : PoolEvent m UserTask} (hs : s.EngStep e s') :
    s'.engine.stop = s.engine.stop ∧ (s.engine.pc = .term → s'.engine.pc = .term) := by
  cases hs with
  | start _ hpc _ _ | shutdownCall _ hpc _ | shutdownRet _ _ hpc _ | loop _ _ _ _ hpc _ => exact ⟨rfl, by simp [hpc]⟩
  | _ => exact ⟨rfl, id⟩

end Asking

section Steps

variable [DecidableEq δ] {prog : Program δ σ} {cfg : Config} {v v' : View W m δ} {c : Script W m δ σ}
  {l : ViewLabel W m δ}

/-- How the clock and the tick due go on. -/
theorem View.Step.goes (hs : v.Step cfg l v') (htimed : v.Timed) : v.env.clockwork.Goes v'.env.clockwork := by
  cases hs with
  | own hrun hstep => exact htimed.inv.goes (Env.clockwork_step hstep htimed.fromOne)
  | evm hrun hp hobs =>
      rw [(Env.EvmStep.of hobs).clockwork]
      exact .stays rfl rfl
  | eng hrun hq hobs =>
      rw [(Env.EngStep.of hobs).clockwork]
      exact .stays rfl rfl

/-- Where all is at rest no event is popped or thrown, and no job begins. -/
theorem Env.AtRest.frozen (h : v.env.AtRest cfg) (htimed : v.Timed) (heng : v.EngLinked) (hs : v.Step cfg l v') :
    v'.env.log = v.env.log ∧ c.next prog cfg v.env l = c := by
  cases hs with
  | own hrun hstep =>
      rename_i a env
      cases a with
      | preStart r | simStart | fini =>
          obtain ⟨-, rfl⟩ := Env.mainStep_cases hstep
          exact ⟨rfl, rfl⟩
      | engine b => exact ⟨(Env.EngineStep.of hstep).frame.2.2.2.1, rfl⟩
      | ctl =>
          cases Env.CtlStep.of hstep with
          | pop evList hpc hpop _ | popCrash evList hpc hpop _ =>
              obtain ⟨hnone, -⟩ := h.popEvents htimed.inv hpc
              rw [hnone] at hpop
              cases hpop
          | _ => exact ⟨rfl, rfl⟩
      | slice w =>
          have hnone := h.slices w
          cases Env.SliceStep.of hstep with
          | handled r _ hr _ | nullEvent r hr _ _ _ | eventType r _ _ hr _ _ _ _ | throw r _ _ _ hr _ _ _ _ _
          | noHandler r _ _ _ hr _ _ _ _ _ =>
              rw [hr] at hnone
              cases hnone
      | schedule src ev time =>
          obtain ⟨hruns, -⟩ := Env.scheduleStep_cases hstep
          rw [h.sourceRuns src] at hruns
          cases hruns
  | evm hrun hp hobs => exact ⟨by cases Env.EvmStep.of hobs <;> rfl, rfl⟩
  | eng hrun hq hobs =>
      rename_i e q env
      obtain ⟨spot, hlink⟩ := heng
      refine ⟨by cases Env.EngStep.of hobs <;> rfl, ?_⟩
      cases e with
      | started u t x =>
          cases x with
          | none => rfl
          | some x =>
              have htype := hlink.loopType_of_active (Or.inl hq.queued)
              rw [(EnginePc.of_leaving h.leaving).1] at htype
              cases htype
      | _ => rfl

omit [DecidableEq δ] in
/-- An engine that leaves is at the end of its round. -/
theorem EnginePc.offset_of_leaving {pc : EnginePc} (h : pc.leaving = true) : pc.offset = 0 := by
  cases pc with
  | sync | inSync | clock | stopController | timeStop | closing | returned | done | fini q => rfl
  | _ => cases h

namespace Script.Staged

/-- What a step does outside the program, before the engine has decided to stop. -/
theorem going (h : Staged prog v.env c) (hst : cfg.st = .activityScan) (htimed : v.Timed)
    (hbooks : Script.Books prog cfg v.env c) (hpunctual : v.env.Punctual) (hstop : v.env.engine.stop = false)
    (hallows : c.Allows prog v.env l) (hs : v.Step cfg l v') : Staged prog v'.env c := by
  have hgoes := hs.goes htimed
  have hnow := Env.now_mono hgoes
  have hnever : ∀ {P : Prop}, v.env.engine.stop = true → P := fun hyes => by
    rw [hstop] at hyes
    cases hyes
  cases hs with
  | own hrun hstep =>
      rename_i a env
      cases a with
      | preStart r | simStart | fini =>
          have hround := Env.round_mainStep hstep (by simp)
          obtain ⟨hpc, rfl⟩ := Env.mainStep_cases hstep
          exact h.keep hnow hround (by simp [hpc]) rfl hnever
      | engine b => exact h.engineStep hst htimed.inv hgoes hbooks hrun hpunctual hstop hallows (.of hstep)
      | ctl =>
          have hengine := (Env.CtlStep.of hstep).frame.1
          exact h.keep hnow (Env.round_same hgoes hengine) (by rw [hengine]; exact id) (by rw [hengine]) hnever
      | slice w =>
          have hengine : env.engine = v.env.engine := by cases Env.SliceStep.of hstep <;> rfl
          exact h.keep hnow (Env.round_same hgoes hengine) (by rw [hengine]; exact id) (by rw [hengine]) hnever
      | schedule src ev time =>
          obtain ⟨-, rfl⟩ := Env.scheduleStep_cases hstep
          exact h.keep hnow (Env.round_same hgoes rfl) id rfl hnever
  | evm hrun hp hobs =>
      have hstep := Env.EvmStep.of hobs
      exact h.keep hnow hstep.round hstep.term.2 hstep.term.1 hnever
  | eng hrun hq hobs =>
      have hstep := Env.EngStep.of hobs
      exact h.keep hnow hstep.round hstep.term.2 hstep.term.1 hnever

/-- **The stages of a run are in order after every step.** -/
theorem step (h : Staged prog v.env c) (hst : cfg.st = .activityScan) (htimed : v.Timed) (htimed' : v'.Timed)
    (hlinked : v.EvmLinked) (heng : v.EngLinked) (hbooks : Script.Books prog cfg v.env c) (hpunctual : v.env.Punctual)
    (hsettled : v.env.Settled cfg) (hallows : c.Allows prog v.env l) (hs : v.Step cfg l v') : Staged prog v'.env (c.next prog cfg v.env l) := by
  cases hstop : v.env.engine.stop with
  | false =>
      have hgoing := h.going hst htimed hbooks hpunctual hstop hallows hs
      have hmoves := hs.moves htimed hlinked heng hallows
      generalize c.next prog cfg v.env l = c' at hmoves
      cases hmoves with
      | stays => exact hgoing
      | requests src x rest _ _ =>
          obtain ⟨hsorted, hupto, hasked, hanswered, hfinal⟩ := hgoing
          exact ⟨hsorted, hupto, hasked, hanswered, fun hyes => ⟨(hfinal hyes).round, (hfinal hyes).jobs, (hfinal hyes).popped⟩⟩
      | begins src j _ hstage hplace hsame hengine =>
          have hnow : v'.env.now = v.env.now := by
            unfold Env.now
            rw [hsame]
            exact congrArg (· + _) (congrArg (·.timer.timer.clock) hsame)
          refine hgoing.begins (Env.now_nonneg htimed'.inv) (by rw [hengine]; exact hstop) (hstage.trans hnow.symm) ?_
          rw [hsame, hengine]
          exact hplace
  | true =>
      have hrest := hsettled.rest hstop
      obtain ⟨hrest', hstop'⟩ := hrest.step hstop htimed hlinked heng hs
      have hfrozen : v'.env.log = v.env.log ∧ c.next prog cfg v.env l = c := hrest.frozen htimed heng hs
      have hgoes := hs.goes htimed
      have hround : v'.env.round = v.env.round := by
        unfold Env.round
        rw [hrest.due_eq hgoes, EnginePc.offset_of_leaving hrest.leaving, EnginePc.offset_of_leaving hrest'.leaving]
      rw [hfrozen.2]
      refine h.keep (Env.now_mono hgoes) hround (fun hpc => ?_) (hstop'.trans hstop.symm) fun _ => by rw [hfrozen.1]
      have hleaving := hrest.leaving
      rw [hpc] at hleaving
      cases hleaving

end Script.Staged

end Steps

end ComplexSim.Engine
