import ComplexSim.Engine.ControllerTask

/-!
# The tasks of a tick in the pool of the event manager

As long as nobody has shut the pool down, the pool of the event manager is that of a thread with loops, the event
controller: every task that it is to wait for is in the pool and keeps its signal. Each has a slice of the
events as its code.
-/

namespace ComplexSim.Engine

open Workerpool Events

variable {W m : Nat} {δ : Type}

/-- The event controller is to wait for task `t`, or is about to be given its id. -/
def Sim.Awaits (s : Sim W m δ) (t : TskId) : Prop :=
  Expects s.evmWp (.task s.env.ctl.worker) s.env.ctl.pc.pending t

/-- The pool of the event manager and its clients, in any run. -/
structure Sim.Linked (s : Sim W m δ) : Prop where
  pools : s.Pools
  capacity : Capacity ((W + 1) * 10) s.evmWp
  evm : s.view.EvmLinked
  ctl : s.view.CtlLinked

/-- The pool of the event manager, as long as nobody has shut it down. -/
structure Sim.Feeding (s : Sim W m δ) : Prop where
  fed : Fed s.evmWp (.task s.env.ctl.worker) s.env.ctl.pc.pending
  slices : ∀ t, s.Awaits t → ∃ d, (s.evmWp.tsk t).tskCode = some (.slice d)

section Runs

variable [DecidableEq δ] {cfg : Config} {s s' : Sim W m δ} {a : SimAction W m δ} {t : TskId}

theorem sim_linked (hW : W ≠ 0) (h : Lts.Reachable (system cfg W m) s) : s.Linked := by
  have hmeets : Lts.ReachableIf (system cfg W m) (SimAction.meets fun _ _ => True) s := by
    refine h.mono fun s a _ => ?_
    cases a <;> trivial
  have hview := (sim_refines cfg W m _).reachable hmeets
  refine ⟨pools_reachable h, ?_, evmLinked_reachable hW hview, ctlLinked_reachable hW hview⟩
  refine h.invariant_of (P := Sim.Pools) (I := fun s => Capacity ((W + 1) * 10) s.evmWp) (fun s hs => pools_reachable hs)
    (fun s hs => ?_) fun s a t hp _ hi _ hs => ?_
  · rw [show s = Sim.init cfg W m δ from hs]
    exact .init
  · obtain ⟨-, ⟨b, env, -, -, rfl⟩ | ⟨b, p, e, env, -, hstep, -, rfl⟩ | ⟨b, p, e, env, -, -, -, rfl⟩⟩ := Sim.step_cases hs
    · exact hi
    · exact hi.step hp.evm hstep
    · exact hi

omit [DecidableEq δ] in
/-- The controller asks its pool for nothing outside its loops. -/
theorem Sim.Linked.idle (h : s.Linked) (hpc : ∀ j, s.env.ctl.pc ≠ .batch j) :
    s.env.ctl.pc.pending = [] ∧ s.evmWp.calls (.task s.env.ctl.worker) = .idle := by
  obtain ⟨spot, rem, hlink⟩ := h.evm
  obtain ⟨-, hpending, hcalling⟩ := EvmLink.codes_eq_nil hpc
  have hforked := hlink.forked
  exact ⟨hpending, h.pools.evmCoded.idle (hforked.idle hcalling)⟩

omit [DecidableEq δ] in
theorem Sim.Linked.not_awaits (h : s.Linked) (hpc : ∀ j, s.env.ctl.pc ≠ .batch j) : ¬ s.Awaits t := by
  obtain ⟨hpending, hidle⟩ := h.idle hpc
  rintro (hmem | hcall)
  · rw [hpending] at hmem
    cases hmem
  · rw [hidle] at hcall
    cases hcall

omit [DecidableEq δ] in
/-- A step outside the pools adds nothing to what the controller waits for. -/
theorem own_pending {s s' : Env W m δ} {a : EnvAction W m δ} (hs : s.step cfg a = some s') :
    s'.ctl.worker = s.ctl.worker ∧ (s'.ctl.pc.pending = s.ctl.pc.pending ∨ s'.ctl.pc.pending = []) := by
  have hmain : ∀ {before next : EnginePc}, s.mainStep before next = some s' → s'.ctl = s.ctl := by
    intro before next hs
    obtain ⟨-, rfl⟩ := Env.mainStep_cases hs
    rfl
  have hsame : s'.ctl = s.ctl → s'.ctl.worker = s.ctl.worker ∧
      (s'.ctl.pc.pending = s.ctl.pc.pending ∨ s'.ctl.pc.pending = []) := by
    intro hctl
    rw [hctl]
    exact ⟨rfl, Or.inl rfl⟩
  cases a with
  | preStart r | simStart | fini => exact hsame (hmain hs)
  | engine b => exact hsame (Env.EngineStep.of hs).frame.1
  | ctl =>
      have hstep := Env.CtlStep.of hs
      refine ⟨hstep.frame.2.2.2.1, ?_⟩
      cases hstep with
      | batchWait ids hpc => exact Or.inl (by rw [hpc]; rfl)
      | popCrash evList _ _ _ => exact Or.inl rfl
      | pass b' r _ _ | leave b' r _ _ =>
          refine Or.inr ?_
          simp only []
          split <;> rfl
      | pop _ _ _ _ | batchEnd _ | «begin» _ | firstClock _ | setRunning _ | arrive _ _ _ | clock _ | stops _ _
      | early _ _ _ | goOn _ _ _ | popNone _ _ | signal _ | setNotRunning _ => exact Or.inr rfl
  | slice w => exact hsame (by cases Env.SliceStep.of hs <;> rfl)
  | schedule src ev time =>
      obtain ⟨-, rfl⟩ := Env.scheduleStep_cases hs
      exact hsame rfl

/-- What an event of the pool does to the controller: it begins or ends, it stays and nobody's wait
returns, or it goes on in its loops. -/
theorem evm_ctl {s s' : Env W m δ} {e : PoolEvent (W + 1) (EvTask δ)} (hs : s.EvmStep e s') :
    (∀ j, s'.ctl.pc ≠ .batch j) ∨ (s'.ctl = s.ctl ∧ ∀ k id, e ≠ .waitRet k id) ∨
      ∃ j j', s.ctl.pc = .batch j ∧ j.observe (.task s.ctl.worker) e = some j' ∧ s' = s.setCtl (.batch j') := by
  cases hs with
  | controllerStarts w t _ | controllerEnds w t _ _ _ => exact Or.inl nofun
  | batch j j' e hpc hj => exact Or.inr (Or.inr ⟨j, j', hpc, hj, rfl⟩)
  | tau | startFailed _ _ _ _ | start _ _ _ _ | enqueueController _ _ | enqueued _ _ _ | sliceStarts _ _ _ _
  | sliceEnds _ _ _ _ _ | shutdownCall _ _ _ | shutdownRet _ _ _ _ => exact Or.inr (Or.inl ⟨rfl, nofun⟩)

omit [DecidableEq δ] in
theorem Sim.Linked.created (h : s.Linked) {j : Join (EvTask δ)} (hpc : s.env.ctl.pc = .batch j) :
    s.evmWp.ctl ≠ .notCreated := by
  obtain ⟨spot, rem, hlink⟩ := h.evm
  intro hctl
  have hoff : s.env.ctl.pc = .off := (hlink.unstarted (by simp [Sim.view, Pool.abs, hctl])).1
  rw [hpc] at hoff
  cases hoff

omit [DecidableEq δ] in
/-- A task that the controller is to wait for has been made. -/
theorem Sim.Linked.made (h : s.Linked) (ht : s.Awaits t) : t ≤ s.evmWp.lastId := by
  rcases ht with hmem | hcall
  · obtain ⟨spot, rem, hlink⟩ := h.evm
    have htable := h.pools.evmCoded.table t (hlink.forked.joined.known t hmem)
    by_contra hno
    exact (h.pools.evm.calls.unused t (not_le.1 hno)).2 htable
  · exact (h.pools.evm.calls.pending _ t hcall).1

omit [DecidableEq δ] in
/-- The tasks that the controller is to wait for are slices of the events. -/
theorem Sim.Feeding.slices_step (h : s.Feeding) (hl : s.Linked) {b : Pool.Action (W + 1) (EvTask δ)}
    {e : PoolEvent (W + 1) (EvTask δ)} (hstep : s.evmWp.Step b s'.evmWp e)
    (hawaits : s.Awaits t ∨ (s'.evmWp.calls (.task s.env.ctl.worker)).pending = some t) :
    ∃ d, (s'.evmWp.tsk t).tskCode = some (.slice d) := by
  have hold : s.Awaits t → ∃ d, (s'.evmWp.tsk t).tskCode = some (.slice d) := by
    intro hold
    rw [code_step hstep (hl.made hold)]
    exact h.slices t hold
  rcases hawaits with hmem | hcall
  · exact hold hmem
  · rcases pending_step hstep hcall with hpending | ⟨x, hcreate, hcode, -⟩
    · exact hold (Or.inr hpending)
    · obtain ⟨spot, hctl⟩ := hl.ctl
      have hkey : ctlKey x = none := hctl.tracks.others (.task s.env.ctl.worker) x nofun (by
        simp [Sim.view, Pool.abs, hcreate, CallPc.request])
      cases x with
      | controller => cases hkey
      | slice d => exact ⟨d, hcode⟩

/-- **The steps of the pool.** -/
theorem Sim.Feeding.evm (h : s.Feeding) (hl : s.Linked) (hl' : s'.Linked) {b : Pool.Action (W + 1) (EvTask δ)}
    {e : PoolEvent (W + 1) (EvTask δ)} (hstep : s.evmWp.Step b s'.evmWp e) (hobs : s.env.EvmStep e s'.env)
    (hshut : s'.evmWp.shut = .idle) : s'.Feeding := by
  have hpool := hl.pools.evm
  rcases evm_ctl hobs with hno | ⟨hctl, hwait⟩ | ⟨j, j', hpc, hj, henv⟩
  · obtain ⟨hpending, hidle⟩ := hl'.idle hno
    refine ⟨?_, fun t ht => absurd ht (hl'.not_awaits hno)⟩
    rw [hpending]
    exact .of_idle ((step_shut_idle hstep hshut).2.trans h.fed.opened)
      (h.fed.accepted.step hpool (fun _ _ _ => h.fed.opened) hstep) hidle
  · refine ⟨?_, fun t ht => h.slices_step hl hstep ?_⟩
    · rw [hctl]
      exact h.fed.step hpool hstep hshut hwait
    · unfold Sim.Awaits at ht
      rw [hctl] at ht
      exact ht.imp_left Or.inl
  · have hold : s.env.ctl.pc.pending = j.pending := by rw [hpc]; rfl
    have hnew : s'.env.ctl.pc.pending = j'.pending := by rw [henv]; rfl
    have hworker : s'.env.ctl.worker = s.env.ctl.worker := by rw [henv]; rfl
    refine ⟨?_, fun t ht => h.slices_step hl hstep ?_⟩
    · rw [hnew, hworker]
      refine (hold ▸ h.fed).observe hpool hstep hshut (hl.created hpc) hj fun t ht => ?_
      obtain ⟨spot, rem, hlink⟩ := hl.evm
      exact hl.pools.evmCoded.table t (hlink.forked.joined.known t (hold ▸ ht))
    · unfold Sim.Awaits at ht ⊢
      rw [hnew, hworker] at ht
      rw [hold]
      exact expects_observe hpool hstep h.fed.opened (hl.created hpc) hj ht

theorem Sim.Feeding.step (h : s.Feeding) (hl : s.Linked) (hl' : s'.Linked) (hs : s.step cfg a = some s')
    (hshut : s'.evmWp.shut = .idle) : s'.Feeding := by
  obtain ⟨-, ⟨b, env, -, hown, rfl⟩ | ⟨b, p, e, env, -, hstep, hobs, rfl⟩ | ⟨b, p, e, env, -, -, hobs, rfl⟩⟩ :=
    Sim.step_cases hs
  · obtain ⟨hworker, hpending⟩ := own_pending hown
    refine ⟨?_, fun t ht => h.slices t ?_⟩
    · show Fed s.evmWp (.task env.ctl.worker) env.ctl.pc.pending
      rw [hworker]
      rcases hpending with hsame | hnil
      · exact hsame ▸ h.fed
      · rw [hnil]
        exact h.fed.nil
    · rcases ht with hmem | hcall
      · rcases hpending with hsame | hnil
        · exact Or.inl (hsame ▸ hmem)
        · exact absurd (hnil ▸ hmem) List.not_mem_nil
      · exact Or.inr (hworker ▸ hcall)
  · exact h.evm hl hl' hstep (.of hobs) hshut
  · have hctl : env.ctl = s.env.ctl := by cases Env.EngStep.of hobs <;> rfl
    refine ⟨?_, fun t ht => h.slices t ?_⟩
    · show Fed s.evmWp (.task env.ctl.worker) env.ctl.pc.pending
      rw [hctl]
      exact h.fed
    · unfold Sim.Awaits at ht ⊢
      rwa [← hctl]

theorem feeding_reachable (hW : W ≠ 0) (h : Lts.Reachable (system cfg W m) s) : s.evmWp.shut = .idle → s.Feeding := by
  refine h.invariant_of (P := Sim.Linked) (I := fun s => s.evmWp.shut = .idle → s.Feeding)
    (fun s hs => sim_linked hW hs) (fun s hs _ => ?_) fun s a s' hl hl' hi _ hs hshut => ?_
  · rw [show s = Sim.init cfg W m δ from hs]
    refine ⟨.init _ _, fun t ht => ?_⟩
    rcases ht with hmem | hcall
    · cases hmem
    · cases hcall
  · refine Sim.Feeding.step (hi ?_) hl hl' hs hshut
    obtain ⟨-, ⟨b, env, -, -, rfl⟩ | ⟨b, p, e, env, -, hstep, -, rfl⟩ | ⟨b, p, e, env, -, -, -, rfl⟩⟩ := Sim.step_cases hs
    · exact hshut
    · exact (step_shut_idle hstep hshut).1
    · exact hshut

end Runs

end ComplexSim.Engine
