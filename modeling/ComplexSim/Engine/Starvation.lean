import ComplexSim.Engine.Feeding
import ComplexSim.Engine.Headway

/-!
# The event manager does not starve its own pool

While it waits for the tasks of a tick, the event controller occupies one of the `W + 1` workers of the
pool that performs them. The queue has places for `10 * (W + 1)` tasks and a tick has at most `W`, one for
each guard, so the queue is never full when the controller enqueues. A task that the controller waits for
is on its way until its semaphore has been posted, and a thread other than the controller can go on: at
worst every worker has a task, and then one besides the controller's has an event task.
-/

namespace ComplexSim.Engine

open Workerpool Events

variable {W m : Nat} {δ : Type}

/-- A step of the thread of the event controller. -/
def Sim.ByController (s : Sim W m δ) : SimAction W m δ → Prop
  | .own .ctl => True
  | .evm (.callEnqueue k _) | .evm (.callWait k _) | .evm (.call k) | .evm (.create k _) =>
      k = .task s.env.ctl.worker
  | _ => False

/-- A step of another thread of the pool of the event manager: of its controller, of a worker, or of the
event worker or the handler that it runs. -/
def Sim.ByOther (s : Sim W m δ) : SimAction W m δ → Prop
  | .evm .controller => True
  | .evm (.worker w) | .evm (.taskReturn w) | .own (.slice w) => w ≠ s.env.ctl.worker
  | _ => False

section Progress

variable [DecidableEq δ] {cfg : Config} {s : Sim W m δ} {j : Join (EvTask δ)} {t : TskId}

/-- A step of the pool is a step of the run if those outside take its event. -/
theorem step_evm (hfailed : s.env.failed = none) {b : Pool.Action (W + 1) (EvTask δ)}
    {p : Pool (W + 1) (EvTask δ)} {e : PoolEvent (W + 1) (EvTask δ)} (hstep : s.evmWp.stepEvent b = some (p, e))
    (hobs : (s.env.observeEvm e).isSome = true) : (s.step cfg (.evm b)).isSome = true := by
  obtain ⟨env, henv⟩ := Option.isSome_iff_exists.1 hobs
  simp [Sim.step, hfailed, hstep, henv]

omit [DecidableEq δ] in
/-- The worker of the event controller performs it. -/
theorem Sim.Linked.performs (h : s.Linked) (hpc : s.env.ctl.pc = .batch j) :
    ∃ t, (s.evmWp.workers s.env.ctl.worker).pc = .performing t ∧ (s.evmWp.tsk t).tskCode = some .controller := by
  obtain ⟨spot, hctl⟩ := h.ctl
  have hruns : s.view.env.performsCtl s.env.ctl.worker = some .controller := by
    simp [Sim.view, Env.performsCtl, hpc, CtlPc.performed]
  obtain ⟨t, ht⟩ := (hctl.performs.runs _ .controller (by simp [ctlKey])).1 hruns
  have hat := h.pools.evm.tsks.tsk t
  obtain ⟨hhist, hcode⟩ := hat.past.running rfl ht
  have hstage := (hat.run _).2 hhist
  refine ⟨t, ?_, hcode⟩
  have hstage : (s.evmWp.workers s.env.ctl.worker).pc.stage = some (.performing, t) := hstage
  cases hw : (s.evmWp.workers s.env.ctl.worker).pc <;> simp [hw, WorkerPc.stage] at hstage ⊢
  exact hstage

theorem controller_moves (hl : s.Linked) (hfailed : s.env.failed = none)
    (hmoves : s.evmWp.controllerBehaviour.isSome = true) : (s.step cfg (.evm .controller)).isSome = true := by
  obtain ⟨⟨p, e⟩, hp⟩ := Option.isSome_iff_exists.1 hmoves
  obtain ⟨-, rfl⟩ := Pool.ControllerStep.of hp
  have hstep : s.evmWp.stepEvent .controller = some (p, .tau) := (Pool.stepEvent_controller hl.pools.evm.running).trans hp
  exact step_evm hfailed hstep rfl

/-- A worker whose task is about to begin runs nothing yet, and the event controller begins once. -/
theorem started_takes (hl : s.Linked) {w : Fin (W + 1)} {p : Pool (W + 1) (EvTask δ)} {x : Option (EvTask δ)}
    (hstep : s.evmWp.Step (.worker w) p (.started w t x)) : (s.env.observeEvm (.started w t x)).isSome = true := by
  have habs := hl.pools.evm.abs_step hl.pools.evmCoded hstep
  generalize p.abs = q at habs
  obtain ⟨place, rem, hlink⟩ := hl.evm
  obtain ⟨spot, hctl⟩ := hl.ctl
  cases habs with
  | started _ _ y hqueued hfree =>
      cases y with
      | controller =>
          have hoff : s.env.ctl.pc = .off := by
            by_contra hno
            have hbegun := hctl.begun hno
            rw [(hctl.tracks.task t .controller () rfl).1 (Or.inl hqueued)] at hbegun
            obtain ⟨v, hv⟩ := hbegun
            rw [show s.view.evm.phase t = _ from hqueued] at hv
            cases hv
          simp [Env.observeEvm, hoff]
      | slice d =>
          have hnone : s.env.slices w = none := by
            cases hslice : s.env.slices w with
            | none => rfl
            | some r =>
                obtain ⟨u, hu, -⟩ := hlink.walk_spot (s := s.view.env) hslice
                exact absurd hu (hfree u _)
          simp [Env.observeEvm, hnone]

theorem worker_moves (hl : s.Linked) (hfailed : s.env.failed = none) {w : Fin (W + 1)}
    (hmoves : (s.evmWp.workerBehaviour w).isSome = true) : (s.step cfg (.evm (.worker w))).isSome = true := by
  obtain ⟨⟨p, e⟩, hp⟩ := Option.isSome_iff_exists.1 hmoves
  have hstep : s.evmWp.stepEvent (.worker w) = some (p, e) := (Pool.stepEvent_worker hl.pools.evm.running w).trans hp
  refine step_evm hfailed hstep ?_
  cases Pool.WorkerStep.of hp with
  | take t _ _ _ => exact started_takes hl (Pool.Step.of hstep).2
  | wake _ _ | wokenOk _ _ | wokenFail _ _ | exit _ _ _ | takeNone _ _ _ | takeFail _ _ _ _ | release _ _ _
  | releaseFail _ _ _ | setDone _ _ | signalEnd _ _ => rfl

/-- An event worker throws its next event, its handler returns, or the event worker returns. -/
theorem task_moves (hl : s.Linked) (hfailed : s.env.failed = none) {w : Fin (W + 1)}
    (hw : w ≠ s.env.ctl.worker) (hperform : (s.evmWp.workers w).pc = .performing t) :
    (s.step cfg (.own (.slice w))).isSome = true ∨ (s.step cfg (.evm (.taskReturn w))).isSome = true := by
  obtain ⟨place, rem, hlink⟩ := hl.evm
  obtain ⟨spot, hctl⟩ := hl.ctl
  have hhist := ((hl.pools.evm.tsks.tsk t).run w).1 (by simp [Pool.places, hperform, WorkerPc.stage])
  obtain ⟨x, hx⟩ := hl.pools.evmCoded.past t (by simp [hhist])
  have hphase : s.view.evm.phase t = .running x w := Tsk.phase_runBy hx hhist
  have hslice : ∃ r, s.env.slices w = some r := by
    cases x with
    | controller =>
        have hruns := (hctl.performs.runs w .controller (by simp [ctlKey])).2 ⟨t, hphase⟩
        simp [Sim.view, Env.performsCtl, hw] at hruns
    | slice d =>
        have hruns := (hlink.performs.runs w (.slice d) (by simp [sliceKey])).2 ⟨t, hphase⟩
        obtain ⟨r, hr, -⟩ := Option.map_eq_some_iff.1 hruns
        exact ⟨r, hr⟩
  obtain ⟨r, hr⟩ := hslice
  by_cases hended : r.ended = true
  · have hidle : s.evmWp.calls (.task w) = .idle := hl.pools.evmCoded.idle (hlink.idleTask w hw)
    have hstep : s.evmWp.stepEvent (.taskReturn w) =
        some ((s.evmWp.setWorker w { s.evmWp.workers w with pc := .release t }).log t (.returned w), .finished w t) := by
      exact (Pool.Step.taskReturn w t hperform hidle).stepEvent hl.pools.evm.running hl.pools.evm.running
    exact Or.inr (step_evm hfailed hstep (by simp [Env.observeEvm, hr, hended]))
  · refine Or.inl ?_
    have hsome : (s.env.sliceStep cfg w).isSome = true := by
      unfold Env.sliceStep
      simp only [hr]
      cases hhandling : r.handling with
      | some ev => rfl
      | none =>
          have hmore : (r.c : Int) < r.data.numEvents := by
            simpa [SliceRun.ended, hhandling] using hended
          simp only [hmore, if_true]
          repeat' split
          all_goals rfl
    obtain ⟨env, henv⟩ := Option.isSome_iff_exists.1 hsome
    simp [Sim.step, hfailed, Env.step, henv]

omit [DecidableEq δ] in
/-- A task that the controller is to wait for, and whose end has not been signalled, is on its way. -/
theorem on_its_way (hl : s.Linked) (hf : s.Feeding) (ht : (t : Int) ∈ s.env.ctl.pc.pending)
    (hsem : (s.evmWp.tsk t).taskSem = 0) : OnItsWay s.evmWp t := by
  obtain ⟨place, rem, hlink⟩ := hl.evm
  have hknown := hlink.forked.joined.known t ht
  exact expected_on_its_way hl.pools.evm hf.fed (hl.pools.evmCoded.table t hknown) ht hsem

omit [DecidableEq δ] in
/-- There is a worker besides the event controller's. -/
theorem other_worker (hW : W ≠ 0) (v : Fin (W + 1)) : ∃ u : Fin (W + 1), u ≠ v := by
  by_cases hzero : v = 0
  · exact ⟨Fin.last W, fun heq => hW (by simpa [hzero, Fin.ext_iff] using heq)⟩
  · exact ⟨0, Ne.symm hzero⟩

/-- **A task on its way goes on**: a thread other than the event controller's can take a step. -/
theorem way_moves (hW : W ≠ 0) (hl : s.Linked) (hf : s.Feeding) (hfailed : s.env.failed = none)
    (hpc : s.env.ctl.pc = .batch j) (hslice : ∃ d, (s.evmWp.tsk t).tskCode = some (.slice d)) (ht : OnItsWay s.evmWp t) :
    ∃ a, s.ByOther a ∧ (s.step cfg a).isSome = true := by
  obtain ⟨v, hperform, hcode⟩ := hl.performs hpc
  obtain ⟨u, hu⟩ := other_worker hW s.env.ctl.worker
  have htask : ∀ {w : Fin (W + 1)} {t : TskId}, w ≠ s.env.ctl.worker → (s.evmWp.workers w).pc = .performing t →
      ∃ a, s.ByOther a ∧ (s.step cfg a).isSome = true := by
    intro w t hw hpcw
    rcases task_moves hl hfailed hw hpcw with hslice | hreturn
    · exact ⟨.own (.slice w), hw, hslice⟩
    · exact ⟨.evm (.taskReturn w), hw, hreturn⟩
  rcases way_steps hl.pools.evm hf.fed.opened (hl.created hpc) ht u with
    hmoves | ⟨w, hmoves⟩ | ⟨w, hpcw⟩ | ⟨t', hpcu⟩
  · exact ⟨.evm .controller, trivial, controller_moves hl hfailed hmoves⟩
  · refine ⟨.evm (.worker w), ?_, worker_moves hl hfailed hmoves⟩
    rintro rfl
    simp [Pool.workerBehaviour, hperform] at hmoves
  · refine htask ?_ hpcw
    rintro rfl
    rw [hperform] at hpcw
    cases hpcw
    obtain ⟨d, hd⟩ := hslice
    rw [hcode] at hd
    cases hd
  · exact htask hu hpcu

omit [DecidableEq δ] in
/-- The tasks in the queue are for different guards. -/
theorem queue_short (hl : s.Linked) (hpc : s.env.ctl.pc = .batch j) : s.evmWp.tskQ.elems.length ≤ W := by
  obtain ⟨place, rem, hlink⟩ := hl.evm
  obtain ⟨spot, hctl⟩ := hl.ctl
  have hguard : ∀ t, ∃ c, t ∈ s.evmWp.tskQ.elems → c < W ∧ ∃ x, place c = .task t x := by
    intro t
    by_cases hmem : t ∈ s.evmWp.tskQ.elems
    · have hhist := (hl.pools.evm.tsks.tsk t).queued.1 hmem
      obtain ⟨x, hx⟩ := hl.pools.evmCoded.past t (by rw [hhist]; nofun)
      have hphase : s.view.evm.phase t = .queued x := Tsk.phase_inQueue hx hhist
      cases x with
      | controller =>
          have hbegun := hctl.begun (by simp [Sim.view, hpc])
          rw [(hctl.tracks.task t .controller () rfl).1 (Or.inl hphase)] at hbegun
          obtain ⟨v, hv⟩ := hbegun
          rw [hphase] at hv
          cases hv
      | slice d =>
          have hplace := (hlink.forked.tracks.task t (.slice d) d.guardIndex rfl).1 (Or.inl hphase)
          obtain ⟨d', hd', hfits⟩ := hlink.fits d.guardIndex (.slice d) (by rw [hplace]; rfl)
          cases hd'
          exact ⟨d.guardIndex, fun _ => ⟨hfits.index, _, hplace⟩⟩
    · exact ⟨0, fun hin => absurd hin hmem⟩
  choose guard hguard using hguard
  have hnodup : (s.evmWp.tskQ.elems.map guard).Nodup := by
    refine hl.pools.evm.tsks.nodup.map_on fun t ht u hu heq => ?_
    obtain ⟨-, x, hx⟩ := hguard t ht
    obtain ⟨-, y, hy⟩ := hguard u hu
    rw [heq, hy] at hx
    cases hx
    rfl
  have hsub : s.evmWp.tskQ.elems.map guard ⊆ List.range W := by
    intro c hc
    obtain ⟨t, ht, rfl⟩ := List.mem_map.1 hc
    exact List.mem_range.2 (hguard t ht).1
  have hle := (hnodup.subperm hsub).length_le
  simpa using hle

omit [DecidableEq δ] in
/-- **The queue is not full** when a thread has locked the table and asks for a place. -/
theorem place_free (hl : s.Linked) (hf : s.Feeding) (hpc : s.env.ctl.pc = .batch j) {k : Caller (W + 1)}
    (hcall : s.evmWp.calls k = .enqLimit t) : 0 < s.evmWp.tskQ.qlimitSem := by
  have hlock := (hl.pools.evm.calls.mutex k).1 (by rw [hcall]; rfl)
  have hplaces := hl.capacity.asked hf.fed.opened hlock hcall
  have hshort := queue_short hl hpc
  omega

/-- The event controller's call goes with its loops, so these take what it returns. -/
theorem call_taken (hl : s.Linked) (hpc : s.env.ctl.pc = .batch j) {p : Pool (W + 1) (EvTask δ)}
    {e : PoolEvent (W + 1) (EvTask δ)} (hs : s.evmWp.CallStep (.task s.env.ctl.worker) p e) :
    (s.env.observeEvm e).isSome = true := by
  obtain ⟨spot, hctl⟩ := hl.ctl
  have hin : InCall j ((s.evmWp.calls (.task s.env.ctl.worker)).request s.evmWp.tsk) := hctl.calls j hpc
  rcases join_takes hin hs with rfl | hj
  · rfl
  · obtain ⟨j', hj⟩ := Option.isSome_iff_exists.1 hj
    unfold Join.observe at hj
    split at hj <;> try cases hj
    all_goals
      split at hj <;> cases hj
      simp_all [Env.observeEvm, Join.observe]

theorem call_moves (hl : s.Linked) (hfailed : s.env.failed = none) (hpc : s.env.ctl.pc = .batch j)
    (hmoves : (s.evmWp.callStep (.task s.env.ctl.worker)).isSome = true) :
    ∃ a, s.ByController a ∧ (s.step cfg a).isSome = true := by
  obtain ⟨⟨p, e⟩, hp⟩ := Option.isSome_iff_exists.1 hmoves
  have hstep : s.evmWp.stepEvent (.call (.task s.env.ctl.worker)) = some (p, e) :=
    (Pool.stepEvent_call hl.pools.evm.running _).trans hp
  exact ⟨.evm (.call (.task s.env.ctl.worker)), rfl, step_evm hfailed hstep (call_taken hl hpc (.of hp))⟩

/-- The thread outside that has locked the table while the controller asks for it goes on. -/
theorem table_moves (hl : s.Linked) (hf : s.Feeding) (hfailed : s.env.failed = none) (hpc : s.env.ctl.pc = .batch j)
    (hlocks : (s.evmWp.calls (.task s.env.ctl.worker)).locks = false) (htable : s.evmWp.tableMutex ≠ none) :
    s.evmWp.tableMutex = some (.ext 0) ∧ (s.step cfg (.evm (.call (.ext 0)))).isSome = true := by
  obtain ⟨place, rem, hlink⟩ := hl.evm
  obtain ⟨k, hk⟩ := Option.ne_none_iff_exists'.1 htable
  have hlocked := (hl.pools.evm.calls.mutex k).2 hk
  have hext : k = .ext 0 := by
    cases k with
    | ext i =>
        cases i with
        | zero => rfl
        | succ i =>
            rw [hl.pools.evmCoded.idle (hlink.idleExt i)] at hlocked
            cases hlocked
    | task w =>
        by_cases hw : w = s.env.ctl.worker
        · subst hw
          rw [hlocks] at hlocked
          cases hlocked
        · rw [hl.pools.evmCoded.idle (hlink.idleTask w hw)] at hlocked
          cases hlocked
  subst hext
  refine ⟨hk, ?_⟩
  have hmain : ∃ b, s.env.engine.pc = .start b .inEnqueue := by
    by_contra hno
    rw [hl.pools.evmCoded.idle (hlink.idleMain fun b hb => hno ⟨b, hb⟩)] at hlocked
    cases hlocked
  obtain ⟨b, hmain⟩ := hmain
  rcases (hl.pools.evm.holder_steps hk).2 with hmoves | ⟨⟨u, hu⟩, hfull⟩
  · obtain ⟨⟨p, e⟩, hp⟩ := Option.isSome_iff_exists.1 hmoves
    have hstep : s.evmWp.stepEvent (.call (.ext 0)) = some (p, e) := (Pool.stepEvent_call hl.pools.evm.running _).trans hp
    refine step_evm hfailed hstep ?_
    cases Pool.CallStep.of hp with
    | statusOk _ _ _ _ | lockTable _ _ _ | limit _ _ _ | append _ _ _ | drop _ _ _ | duplicate _ _ _ _ | find _ _ _ _
    | notDone _ _ _ => rfl
    | refused _ _ _ _ | failed _ _ _ _ | insert _ _ _ _ _ => simp [Env.observeEvm, hmain]
    | getStatus hcall _ | notFound _ hcall _ _ | isDone _ hcall _ | waitEnd _ hcall _ =>
        rw [hcall] at hlocked
        cases hlocked
  · have hfree := place_free hl hf hpc hu
    omega

/-- A step of the pool that the controller's loops take. -/
theorem begins_call (hl : s.Linked) (hfailed : s.env.failed = none) (hpc : s.env.ctl.pc = .batch j)
    (hcall : s.evmWp.calls (.task s.env.ctl.worker) = .idle) (c : CallPc (EvTask δ)) (e : PoolEvent (W + 1) (EvTask δ))
    {b : Pool.Action (W + 1) (EvTask δ)} (hb : s.evmWp.stepEvent b = s.evmWp.beginCall (.task s.env.ctl.worker) c e)
    (hobs : (s.env.observeEvm e).isSome = true) : (s.step cfg (.evm b)).isSome = true := by
  obtain ⟨t, hperform, -⟩ := hl.performs hpc
  have hstep : s.evmWp.stepEvent b = some (s.evmWp.setCall (.task s.env.ctl.worker) c, e) := by
    rw [hb]
    simp [Pool.beginCall, hcall, Pool.mayCall, hperform]
  exact step_evm hfailed hstep hobs

/-- Between two calls, the event controller goes on with its loops. -/
theorem loops_move (hl : s.Linked) (hfailed : s.env.failed = none) (hpc : s.env.ctl.pc = .batch j)
    (hcall : s.evmWp.calls (.task s.env.ctl.worker) = .idle) : ∃ a, s.ByController a ∧ (s.step cfg a).isSome = true := by
  obtain ⟨spot, hctl⟩ := hl.ctl
  have hin : InCall j ((s.evmWp.calls (.task s.env.ctl.worker)).request s.evmWp.tsk) := hctl.calls j hpc
  have hown : ∀ env, s.env.ctlStep = some env → ∃ a, s.ByController a ∧ (s.step cfg a).isSome = true := by
    intro env henv
    exact ⟨.own .ctl, trivial, by simp [Sim.step, hfailed, Env.step, henv]⟩
  rw [hcall] at hin
  cases j with
  | inEnqueue xs ids => rcases hin with ⟨x, hx⟩ | ⟨t, ht⟩ <;> simp [CallPc.request] at *
  | inWait id ids => cases hin
  | enqueue xs ids =>
      cases xs with
      | nil => exact hown (s.env.setCtl (.batch (.wait ids))) (by simp only [Env.ctlStep, hpc])
      | cons x xs =>
          refine ⟨.evm (.callEnqueue (.task s.env.ctl.worker) x), rfl, ?_⟩
          refine begins_call hl hfailed hpc hcall (.enqStatus x) (.enqueueCall (.task s.env.ctl.worker) x) ?_ ?_
          · exact Pool.stepEvent_callEnqueue hl.pools.evm.running _ x
          · simp [Env.observeEvm, hpc, Join.observe]
  | wait ids =>
      cases ids with
      | nil => exact hown (s.env.setCtl .signal) (by simp only [Env.ctlStep, hpc])
      | cons id ids =>
          refine ⟨.evm (.callWait (.task s.env.ctl.worker) id), rfl, ?_⟩
          refine begins_call hl hfailed hpc hcall (.waitFind id) (.waitCall (.task s.env.ctl.worker) id) ?_ ?_
          · exact Pool.stepEvent_callWait hl.pools.evm.running _ id
          · simp [Env.observeEvm, hpc, Join.observe]

/-- **The event controller goes on**, or waits for the thread that has the table locked, or for a task
whose end has not been signalled. -/
theorem controller_goes_on (hl : s.Linked) (hf : s.Feeding) (hfailed : s.env.failed = none)
    (hshut : s.evmWp.shut = .idle) (hpc : s.env.ctl.pc = .batch j) :
    (∃ a, s.ByController a ∧ (s.step cfg a).isSome = true) ∨
      (s.evmWp.tableMutex = some (.ext 0) ∧ (s.step cfg (.evm (.call (.ext 0)))).isSome = true) ∨
      ∃ t : TskId, s.evmWp.calls (.task s.env.ctl.worker) = .waitSem t ∧ (t : Int) ∈ j.pending ∧
        (s.evmWp.tsk t).taskSem = 0 := by
  obtain ⟨spot, hctl⟩ := hl.ctl
  have hin : InCall j ((s.evmWp.calls (.task s.env.ctl.worker)).request s.evmWp.tsk) := hctl.calls j hpc
  by_cases hcall : s.evmWp.calls (.task s.env.ctl.worker) = .idle
  · exact Or.inl (loops_move hl hfailed hpc hcall)
  rcases call_steps (by rw [hshut]; rfl) hcall with hmoves | ⟨x, hcreate⟩ | hwaits
  · exact Or.inl (call_moves hl hfailed hpc hmoves)
  · have hstep := Pool.stepEvent_create hl.pools.evm.running (.task s.env.ctl.worker) (s.evmWp.lastId + 1)
    simp only [Pool.createTsk, hcreate, Nat.lt_succ_self, if_true] at hstep
    exact Or.inl ⟨.evm (.create (.task s.env.ctl.worker) (s.evmWp.lastId + 1)), rfl, step_evm hfailed hstep rfl⟩
  · cases hwaits with
    | table k hlock hfree =>
        exact Or.inr (Or.inl (table_moves hl hf hfailed hpc hfree (by rw [hlock]; simp)))
    | place t hcall hfull =>
        have hplace := place_free hl hf hpc hcall
        omega
    | signal t hcall hsem =>
        refine Or.inr (Or.inr ⟨t, hcall, ?_, hsem⟩)
        rw [hcall] at hin
        cases j with
        | inWait id ids =>
            have heq := Request.waiting.inj hin
            rw [heq]
            exact List.mem_cons_self
        | inEnqueue xs ids => rcases hin with ⟨x, hx⟩ | ⟨u, hu⟩ <;> simp [CallPc.request] at *
        | enqueue _ _ | wait _ => cases hin

/-- **The event manager does not starve its own pool**, of `W + 1` workers and `10 * (W + 1)` places. In
every state of every run in which nobody has shut the pool down and the event controller enqueues or waits
for the tasks of a tick: when it asks for a place in the queue, there is one; each task that it is to wait
for and whose end has not been signalled is on its way, and a thread of the pool other than the
controller's can take a step; and the controller itself can take one, unless it waits for such a task, or
for the table while the thread that has locked it can take one. -/
theorem pool_not_starved (cfg : Config) (hW : 0 < W) (s : Sim W m δ) (h : Lts.Reachable (system cfg W m) s)
    (hrun : s.env.failed = none) (hshut : s.evmWp.shut = .idle) (j : Join (EvTask δ)) (hpc : s.env.ctl.pc = .batch j) :
    (∀ t, s.evmWp.calls (.task s.env.ctl.worker) = .enqLimit t → 0 < s.evmWp.tskQ.qlimitSem) ∧
    (∀ t : TskId, (t : Int) ∈ j.pending → (s.evmWp.tsk t).taskSem = 0 →
      OnItsWay s.evmWp t ∧ ∃ a, s.ByOther a ∧ (s.step cfg a).isSome = true) ∧
    ((∃ a, s.ByController a ∧ (s.step cfg a).isSome = true) ∨
      (s.evmWp.tableMutex = some (.ext 0) ∧ (s.step cfg (.evm (.call (.ext 0)))).isSome = true) ∨
      ∃ t : TskId, s.evmWp.calls (.task s.env.ctl.worker) = .waitSem t ∧ (t : Int) ∈ j.pending ∧
        (s.evmWp.tsk t).taskSem = 0) := by
  have hl := sim_linked (Nat.ne_of_gt hW) h
  have hf := feeding_reachable (Nat.ne_of_gt hW) h hshut
  refine ⟨fun t hcall => place_free hl hf hpc hcall, fun t ht hsem => ?_, controller_goes_on hl hf hrun hshut hpc⟩
  have hpending : (t : Int) ∈ s.env.ctl.pc.pending := by rw [hpc]; exact ht
  have hway := on_its_way hl hf hpending hsem
  exact ⟨hway, way_moves (Nat.ne_of_gt hW) hl hf hrun hpc (hf.slices t (Or.inl hpending)) hway⟩

end Progress

/-- One event worker: the controller waits for the task of tick 1, which is in the queue. -/
theorem pool_not_starved_one : ∃ s : Sim 1 1 Unit,
    Lts.Reachable (system ⟨.eventDriven, [], ["tick"]⟩ 1 1) s ∧ s.evmWp.calls (.task 0) = .waitSem 2 ∧
    s.evmWp.tskQ.elems = [2] ∧ OnItsWay s.evmWp 2 ∧
    ∃ a, s.ByOther a ∧ (s.step ⟨.eventDriven, [], ["tick"]⟩ a).isSome = true := by
  obtain ⟨s, hs, hp⟩ := Lts.exec_of_any (f := Sim.step ⟨.eventDriven, [], ["tick"]⟩)
    (s := Sim.init ⟨.eventDriven, [], ["tick"]⟩ 1 1 Unit)
    (p := fun s => decide (s.evmWp.calls (.task 0) = .waitSem 2 ∧ s.evmWp.tskQ.elems = [2] ∧
      s.env.failed = none ∧ s.evmWp.shut = .idle ∧ (s.evmWp.tsk 2).taskSem = 0 ∧
      s.env.ctl.pc = .batch (.inWait 2 [])))
    (l := List.flatten [
      [.own (.schedule .main ⟨some "tick", ()⟩ 1), .own .simStart], List.replicate 4 (.own (.engine false)),
      [.evm .start, .evm (.callEnqueue (.ext 0) .controller), .evm (.call (.ext 0)), .evm (.create (.ext 0) 1)],
      List.replicate 4 (.evm (.call (.ext 0))), List.replicate 6 (.evm .controller),
      List.replicate 3 (.evm (.worker 0)), List.replicate 4 (.own .ctl), List.replicate 7 (.own (.engine false)),
      List.replicate 4 (.own .ctl),
      [.evm (.callEnqueue (.task 0) (.slice ⟨0, 1, [⟨some "tick", ()⟩], 1⟩)), .evm (.call (.task 0)),
        .evm (.create (.task 0) 2)],
      List.replicate 4 (.evm (.call (.task 0))), [.own .ctl, .evm (.callWait (.task 0) 2)],
      List.replicate 2 (.evm (.call (.task 0)))])
    (by decide +kernel)
  obtain ⟨hcall, helems, hrun, hshut, hsem, hpc⟩ := of_decide_eq_true hp
  have hreach : Lts.Reachable (system ⟨.eventDriven, [], ["tick"]⟩ 1 1) s := Lts.exec_reachable rfl hs
  have hmain := pool_not_starved ⟨.eventDriven, [], ["tick"]⟩ (by decide) s hreach hrun hshut _ hpc
  obtain ⟨hway, hmoves⟩ := hmain.2.1 2 (by decide) hsem
  exact ⟨s, hreach, hcall, helems, hway, hmoves⟩

end ComplexSim.Engine
