import ComplexSim.Engine.EventPool
import ComplexSim.Engine.Loops

/-!
# The task of the event controller

The event controller is itself a task of the pool of the event manager. `CtlLink` says where: it is
enqueued once, by the thread that starts the controller, and the worker that performs it is the one
from which the controller calls the pool.
-/

namespace ComplexSim.Engine

open Workerpool Events

variable {W m : Nat} {δ : Type}

/-- The one name is that of the event controller. -/
def ctlKey : EvTask δ → Option Unit
  | .controller => some ()
  | .slice _ => none

/-- A worker performs the event controller. -/
def CtlPc.performed : CtlPc δ → Bool
  | .off | .gone => false
  | _ => true

/-- The event controller, on its worker. -/
def Env.performsCtl (s : Env W m δ) (w : Fin (W + 1)) : Option (EvTask δ) :=
  if w = s.ctl.worker ∧ s.ctl.pc.performed = true then some .controller else none

/-- A thread is about to enqueue the controller. -/
def EnginePc.asks : EnginePc → Bool
  | .start _ .enqueue => true
  | _ => false

theorem EnginePc.not_asks {pc : EnginePc} (h : pc.starting = false) : pc.asks = false := by
  cases pc with
  | start b q => cases q <;> first | rfl | cases h
  | _ => rfl

/-- The controller, as long as it is still to be enqueued. -/
def Env.unasked (s : Env W m δ) (started : Bool) : List (EvTask δ) :=
  if started = false ∨ s.engine.pc.asks = true then [.controller] else []

/-- The task of the controller, if there is one, is being performed. -/
def Begun (p : TaskPool (W + 1) (EvTask δ)) : Spot (EvTask δ) → Prop
  | .nowhere => True
  | .task t x => ∃ w, p.phase t = .running x w
  | .listed _ | .calling _ => False

structure CtlLink (s : Env W m δ) (p : TaskPool (W + 1) (EvTask δ)) (spot : Unit → Spot (EvTask δ)) : Prop where
  tracks : Tracks p (.ext 0) ctlKey (s.unasked p.started) spot
  performs : Performs p ctlKey s.performsCtl
  begun : s.ctl.pc ≠ .off → Begun p (spot ())
  codes : ∀ x ∈ s.ctl.pc.codes, ctlKey x = none
  calls : ∀ j, s.ctl.pc = .batch j → InCall j (p.calls (.task s.ctl.worker))

section Steps

variable {p p' : TaskPool (W + 1) (EvTask δ)} {e : PoolEvent (W + 1) (EvTask δ)} {k : Caller (W + 1)}

/-- A pool is started by `cs_wp_start` only. -/
theorem step_started (h : p.Step e p') (he : e ≠ .startRet 0) : p'.started = p.started := by
  cases h with
  | start _ => exact absurd rfl he
  | tau | startAgain _ | statusCall _ _ | statusRet _ _ _ | enqueueCall _ _ _ | accept _ _ _ _ _ _ | drop _ _ _ _ _
  | refuse _ _ _ _ | enqueueRet _ _ _ | waitCall _ _ _ | waitRet _ _ _ _ | started _ _ _ _ _ | finished _ _ _ _ _
  | shutdownCall | close _ | shutdownRet _ _ => rfl

/-- A task that is being performed stays so, or ends. -/
theorem Begun.step {l l' : Spot (EvTask δ)} (h : Begun p l) (hs : p.Step e p') (hmoved : Moved p p' e l l')
    (hactive : ∀ t x, l' = .task t x → p'.Active t x) : Begun p' l' := by
  cases hmoved with
  | stay l =>
      cases l with
      | nowhere => trivial
      | listed x | calling x => exact h
      | task t x =>
          obtain ⟨w, hw⟩ := h
          rcases hs.phase_cases t with heq | ⟨k, y, -, -, hold, -⟩ | ⟨v, y, -, hold, -⟩ | ⟨v, y, -, -, hend⟩
          · exact ⟨w, heq.trans hw⟩
          · rw [hw] at hold
            cases hold
          · rw [hw] at hold
            cases hold
          · have hact := hactive t x rfl
            simp [TaskPool.Active, hend] at hact
  | call x | accept x t _ | lost x _ => exact h.elim
  | finish w t x _ _ => trivial

end Steps

namespace CtlLink

variable {lossy : Prop} {s s' : Env W m δ} {p p' : TaskPool (W + 1) (EvTask δ)} {spot : Unit → Spot (EvTask δ)}
  {place : Nat → Spot (EvTask δ)} {rem : Nat → List (Due δ)} {cfg : Config} {e : PoolEvent (W + 1) (EvTask δ)}

theorem init (cfg : Config) : CtlLink (Env.init cfg : Env W m δ) (.init _ _) fun _ => .listed .controller where
  tracks :=
    { nodup := List.pairwise_singleton _ _
      names := fun c x hx => by
        cases hx
        rfl
      listed := fun x c hx => by
        cases x with
        | controller => simp [Env.unasked, TaskPool.init]
        | slice d => cases hx
      calling := fun x c _ => iff_of_false (fun hspot => by cases hspot) (fun hcall => by cases hcall)
      task := fun t x c _ => by
        refine iff_of_false (fun hact => ?_) (by simp)
        simp [TaskPool.init, TaskPool.Active] at hact
      others := fun j x _ hx => by cases hx }
  performs := by
    have hnone : (Env.init cfg : Env W m δ).performsCtl = fun _ => none := by
      funext w
      simp [Env.performsCtl, Env.init, CtlPc.performed]
    rw [hnone]
    exact .init
  begun := fun hoff => absurd rfl hoff
  codes := fun x hx => by cases hx
  calls := fun j hj => by cases hj

/-- A step that leaves the controller alone, and the question whether it is still to be enqueued. -/
theorem keep (h : CtlLink s p spot) (hctl : s'.ctl = s.ctl) (hasks : s'.engine.pc.asks = s.engine.pc.asks) :
    CtlLink s' p spot where
  tracks := by
    have hunasked : s'.unasked p.started = s.unasked p.started := by
      unfold Env.unasked
      rw [hasks]
    rw [hunasked]
    exact h.tracks
  performs := by
    have hperforms : s'.performsCtl = s.performsCtl := by
      unfold Env.performsCtl
      rw [hctl]
    rw [hperforms]
    exact h.performs
  begun := by rw [hctl]; exact h.begun
  codes := by rw [hctl]; exact h.codes
  calls := by rw [hctl]; exact h.calls

/-- A step of the controller. -/
theorem ctlMove (h : CtlLink s p spot) (hengine : s'.engine = s.engine) (hworker : s'.ctl.worker = s.ctl.worker)
    (hold : s.ctl.pc.performed = true) (hnew : s'.ctl.pc.performed = true) (hcodes : ∀ x ∈ s'.ctl.pc.codes, ctlKey x = none)
    (hcalls : ∀ j, s'.ctl.pc = .batch j → InCall j (p.calls (.task s.ctl.worker))) : CtlLink s' p spot where
  tracks := by
    have hunasked : s'.unasked p.started = s.unasked p.started := by
      unfold Env.unasked
      rw [hengine]
    rw [hunasked]
    exact h.tracks
  performs := by
    have hperforms : s'.performsCtl = s.performsCtl := by
      unfold Env.performsCtl
      rw [hworker, hold, hnew]
    rw [hperforms]
    exact h.performs
  begun := fun _ => h.begun fun hoff => by simp [hoff, CtlPc.performed] at hold
  codes := hcodes
  calls := by rw [hworker]; exact hcalls

theorem ctlStep (h : CtlLink s p spot) (hlink : EvmLink lossy s p place rem) (hs : s.CtlStep s') : CtlLink s' p spot := by
  have hret : ∀ r : Int, (if r < 0 then CtlPc.setNotRunning else .clock : CtlPc δ).performed = true ∧
      (if r < 0 then CtlPc.setNotRunning else .clock : CtlPc δ).codes = [] ∧
      ∀ j, (if r < 0 then CtlPc.setNotRunning else .clock : CtlPc δ) ≠ .batch j := by
    intro r
    split <;> exact ⟨rfl, rfl, nofun⟩
  cases hs with
  | pop evList hpc _ _ =>
      refine h.ctlMove rfl rfl (by rw [hpc]; rfl) rfl (fun x hx => ?_) fun j hj => ?_
      · obtain ⟨d, -, rfl⟩ := List.mem_map.1 hx
        rfl
      · cases hj
        have hforked := hlink.forked
        rw [hpc] at hforked
        exact hforked.idle rfl
  | popCrash evList hpc _ _ => exact h.keep rfl rfl
  | batchWait ids hpc =>
      refine h.ctlMove rfl rfl (by rw [hpc]; rfl) rfl (by simp [CtlPc.codes, Join.codes]) fun j hj => ?_
      cases hj
      exact (h.calls _ hpc : InCall (.enqueue [] ids) _)
  | pass _ r hpc _ | leave _ r hpc _ =>
      obtain ⟨hperformed, hcodes, hbatch⟩ := hret r
      refine h.ctlMove rfl rfl (by rw [hpc]; rfl) hperformed (fun x hx => ?_) fun j hj => absurd hj (hbatch j)
      rw [hcodes] at hx
      cases hx
  | batchEnd hpc | «begin» hpc | firstClock hpc | setRunning hpc | arrive _ hpc _ | clock hpc | stops hpc _ | early hpc _ _
  | goOn hpc _ _ | popNone hpc _ | signal hpc | setNotRunning hpc =>
      exact h.ctlMove rfl rfl (by rw [hpc]; rfl) rfl (by simp [CtlPc.codes]) (by simp)

/-- **The steps outside the pools.** -/
theorem own (h : CtlLink s p spot) (hlink : EvmLink lossy s p place rem) {a : EnvAction W m δ}
    (hs : s.step cfg a = some s') : CtlLink s' p spot := by
  have hmain : ∀ {before next : EnginePc}, before.asks = false → next.asks = false →
      s.mainStep before next = some s' → CtlLink s' p spot := by
    intro before next hbefore hnext hs
    obtain ⟨hpc, rfl⟩ := Env.mainStep_cases hs
    exact h.keep rfl (by rw [hpc, hbefore]; exact hnext)
  cases a with
  | preStart r | simStart | fini => exact hmain rfl rfl hs
  | engine b =>
      have hstep := Env.EngineStep.of hs
      obtain ⟨hold, hnew⟩ := hstep.starting
      exact h.keep hstep.frame.1 (by rw [EnginePc.not_asks hold, EnginePc.not_asks hnew])
  | ctl => exact h.ctlStep hlink (.of hs)
  | slice w => cases Env.SliceStep.of hs <;> exact h.keep rfl rfl
  | schedule src ev time =>
      obtain ⟨-, rfl⟩ := Env.scheduleStep_cases hs
      exact h.keep rfl rfl

/-- A step of the pool after which the controller is still, or no more, to be enqueued. -/
theorem poolStep (h : CtlLink s p spot) (hs : p.Step e p') (hcall : ∀ j x, e = .enqueueCall j x → ctlKey x = none)
    (hunasked : s'.unasked p'.started = s.unasked p.started) (hperforms : Performs p' ctlKey s'.performsCtl)
    (hbegun : s'.ctl.pc ≠ .off → s.ctl.pc ≠ .off) (hcodes : ∀ x ∈ s'.ctl.pc.codes, ctlKey x = none)
    (hcalls : ∀ j, s'.ctl.pc = .batch j → InCall j (p'.calls (.task s'.ctl.worker))) : ∃ spot', CtlLink s' p' spot' := by
  obtain ⟨spot', htracks, hmoved⟩ := h.tracks.step hs hcall
  refine ⟨spot', ⟨by rw [hunasked]; exact htracks, hperforms, fun hoff => ?_, hcodes, hcalls⟩⟩
  refine (h.begun (hbegun hoff)).step hs (hmoved ()) fun t x hx => ?_
  exact (htracks.task t x () (htracks.names () x (by rw [hx]; rfl))).2 hx

/-- A step of the pool that is none of the controller's. -/
theorem otherStep (h : CtlLink s p spot) (hs : p.Step e p') (hcall : ∀ j x, e = .enqueueCall j x → ctlKey x = none)
    (hcaller : ∀ w, TaskPool.caller e ≠ some (.task w)) (hunasked : s'.unasked p'.started = s.unasked p.started)
    (hctl : s'.ctl = s.ctl) (hperforms : Performs p' ctlKey s.performsCtl) : ∃ spot', CtlLink s' p' spot' := by
  have hsame : s'.performsCtl = s.performsCtl := by
    unfold Env.performsCtl
    rw [hctl]
  refine h.poolStep hs hcall hunasked (by rw [hsame]; exact hperforms) (by rw [hctl]; exact id)
    (by rw [hctl]; exact h.codes) fun j hj => ?_
  rw [hctl] at hj ⊢
  exact (h.calls j hj).step (calls_step hs (hcaller _))

/-- The controller begins. -/
theorem starts (h : CtlLink s p spot) {w : Fin (W + 1)} {t : TskId} (hs : p.Step (.started w t (some .controller)) p')
    (hctl : s'.ctl = { s.ctl with pc := .begin, worker := w }) (hengine : s'.engine = s.engine) (hoff : s.ctl.pc = .off) :
    ∃ spot', CtlLink s' p' spot' := by
  obtain ⟨spot', htracks, -⟩ := h.tracks.step hs nofun
  have hunasked : s'.unasked p'.started = s.unasked p.started := by
    unfold Env.unasked
    rw [hengine, step_started hs nofun]
  have hrunning : p'.phase t = .running .controller w := by
    cases hs
    simp
  have hperforms : s'.performsCtl = Function.update s.performsCtl w (some .controller) := by
    funext v
    by_cases hv : v = w
    · subst hv
      simp [Env.performsCtl, hctl, CtlPc.performed]
    · simp [Env.performsCtl, hctl, hoff, hv, CtlPc.performed]
  refine ⟨spot', ⟨by rw [hunasked]; exact htracks, ?_, fun _ => ?_, ?_, ?_⟩⟩
  · rw [hperforms]
    exact h.performs.started hs nofun
  · rw [(htracks.task t .controller () rfl).1 (Or.inr ⟨w, hrunning⟩)]
    exact ⟨w, hrunning⟩
  · simp [hctl, CtlPc.codes]
  · simp [hctl]

/-- A worker that runs a slice does not run the controller. -/
theorem sliceEnds (h : CtlLink s p spot) (hlink : EvmLink lossy s p place rem) {w : Fin (W + 1)} {r : SliceRun δ}
    (hr : s.slices w = some r) : s.performsCtl w = none := by
  obtain ⟨t, ht, -⟩ := hlink.walk_spot hr
  cases hctl : s.performsCtl w with
  | none => rfl
  | some x =>
      obtain ⟨u, hu⟩ := (h.performs.runs w x (h.performs.named w x hctl)).1 hctl
      have heq := h.performs.solo w t u _ _ ht hu
      subst heq
      rw [ht] at hu
      cases hu
      exact absurd rfl (h.performs.named w _ hctl)

/-- The calls and returns of the controller in its loops. -/
theorem observe [DecidableEq δ] (h : CtlLink s p spot) (hs : p.Step e p') {j j' : Join (EvTask δ)} (hpc : s.ctl.pc = .batch j)
    (hj : j.observe (.task s.ctl.worker) e = some j') : ∃ spot', CtlLink (s.setCtl (.batch j')) p' spot' := by
  have hcaller : TaskPool.caller e = some (.task s.ctl.worker) := Join.observe_caller hj
  have hcodes : ∀ x ∈ j.codes, ctlKey x = none := by
    have hcodes := h.codes
    rw [hpc] at hcodes
    exact hcodes
  have hne : ∀ w t x, e ≠ .started w t (some x) := by
    rintro w t x rfl
    cases hcaller
  have hend : ∀ w t, e ≠ .finished w t := by
    rintro w t rfl
    cases hcaller
  have hcall : ∀ k x, e = .enqueueCall k x → ctlKey x = none := by
    rintro k x rfl
    unfold Join.observe at hj
    split at hj <;> try cases hj
    all_goals rename_i heq; cases heq
    split at hj <;> cases hj
    rename_i hx
    exact hcodes x (by rw [hx.2]; exact List.mem_cons_self)
  have hunasked : (s.setCtl (.batch j')).unasked p'.started = s.unasked p.started := by
    unfold Env.unasked
    rw [step_started hs (by rintro rfl; cases hcaller)]
    rfl
  have hperforms : (s.setCtl (.batch j')).performsCtl = s.performsCtl := by
    unfold Env.performsCtl
    simp [hpc, CtlPc.performed]
  refine h.poolStep hs hcall hunasked (by rw [hperforms]; exact h.performs.step hs hne hend) (by simp [hpc]) ?_ ?_
  · intro x hx
    refine hcodes x ?_
    unfold Join.observe at hj
    split at hj <;> try cases hj
    all_goals
      split at hj <;> cases hj
      first | exact List.mem_cons_of_mem _ hx | exact hx
  · rintro _ ⟨⟩
    exact InCall.observe hs hj

/-- A call of a thread outside the pool that does not enqueue the controller. -/
theorem outside (h : CtlLink s p spot) {pc : EnginePc} (hs : p.Step e p') (hcall : ∀ j x, e ≠ .enqueueCall j x)
    (hcaller : ∀ w, TaskPool.caller e ≠ some (.task w)) (hstarted : ∀ w t x, e ≠ .started w t (some x))
    (hfinished : ∀ w t, e ≠ .finished w t) (hunasked : (s.setEngine pc).unasked p'.started = s.unasked p.started) :
    ∃ spot', CtlLink (s.setEngine pc) p' spot' :=
  h.otherStep hs (fun j x he => absurd he (hcall j x)) hcaller hunasked rfl (h.performs.step hs hstarted hfinished)

/-- **The steps of the pool.** -/
theorem evm [DecidableEq δ] (h : CtlLink s p spot) (hlink : EvmLink lossy s p place rem) (hs : p.Step e p')
    (he : s.EvmStep e s') : ∃ spot', CtlLink s' p' spot' := by
  have hasks : ∀ {pc : EnginePc}, s.engine.pc.asks = false → pc.asks = false → p'.started = p.started →
      (s.setEngine pc).unasked p'.started = s.unasked p.started := by
    intro pc hold hnew hstarted
    simp [Env.unasked, hold, hnew, hstarted]
  cases he with
  | tau =>
      refine h.otherStep hs nofun nofun ?_ rfl (h.performs.step hs nofun nofun)
      rw [step_started hs nofun]
  | startFailed byMain r hpc hr =>
      have hfailed : PoolEvent.startRet r ≠ (.startRet 0 : PoolEvent (W + 1) (EvTask δ)) := by
        rintro ⟨⟩
        exact absurd hr (by decide)
      refine h.outside hs nofun nofun nofun nofun (hasks (by rw [hpc]; rfl) ?_ (step_started hs hfailed))
      cases byMain <;> rfl
  | start byMain r hpc hr =>
      refine h.outside hs nofun nofun nofun nofun ?_
      cases hs with
      | start hno => simp [Env.unasked, hno, hpc, EnginePc.asks]
      | startAgain _ => exact absurd (by decide) hr
  | enqueueController byMain hpc =>
      have hlist : s.unasked p.started = [.controller] := by simp [Env.unasked, hpc, EnginePc.asks]
      have htracks := h.tracks
      rw [hlist] at htracks
      have hstarted : p.started = true := by
        by_contra hno
        have hstarting := (hlink.unstarted (Bool.eq_false_iff.2 hno)).2.2
        rw [hpc] at hstarting
        cases hstarting
      have hoff : s.ctl.pc = .off := by
        by_contra hno
        have hbegun := h.begun hno
        rw [(htracks.listed .controller () rfl).1 (by simp)] at hbegun
        exact hbegun
      obtain ⟨spot', hcalled, -⟩ := htracks.call hs
      refine ⟨spot', ⟨?_, ?_, fun hno => absurd hoff hno, h.codes, ?_⟩⟩
      · have hnil : (s.setEngine (.start byMain .inEnqueue)).unasked p'.started = [] := by
          simp [Env.unasked, step_started hs nofun, hstarted, EnginePc.asks]
        rw [hnil]
        exact hcalled
      · exact h.performs.step hs nofun nofun
      · exact fun j hj => (h.calls j hj).step (calls_step hs nofun)
  | enqueued byMain r hpc =>
      refine h.outside hs nofun nofun nofun nofun (hasks (by rw [hpc]; rfl) ?_ (step_started hs nofun))
      cases byMain <;> rfl
  | controllerStarts w t hpc => exact h.starts hs rfl rfl hpc
  | sliceStarts w t d _ =>
      refine h.otherStep hs nofun nofun ?_ rfl (h.performs.started_other hs rfl)
      rw [step_started hs nofun]
      rfl
  | sliceEnds w t r hr _ =>
      have hsame : Function.update s.performsCtl w none = s.performsCtl := by
        rw [← h.sliceEnds hlink hr]
        exact Function.update_eq_self w s.performsCtl
      refine h.otherStep hs nofun nofun ?_ rfl ?_
      · rw [step_started hs nofun]
        rfl
      · rw [← hsame]
        exact h.performs.finished hs
  | controllerEnds w t _ hw hpc =>
      have hperforms : (s.setCtl .gone).performsCtl = Function.update s.performsCtl w none := by
        funext v
        by_cases hv : v = w
        · subst hv
          simp [Env.performsCtl, CtlPc.performed]
        · simp [Env.performsCtl, CtlPc.performed, hw, hv]
      refine h.poolStep hs nofun ?_ ?_ (by simp [hpc]) (by simp [CtlPc.codes]) (by simp)
      · rw [step_started hs nofun]
        rfl
      · rw [hperforms]
        exact h.performs.finished hs
  | shutdownCall k hpc _ =>
      exact h.outside hs nofun nofun nofun nofun (hasks (by rw [hpc]; rfl) rfl (step_started hs nofun))
  | shutdownRet k r hpc _ =>
      exact h.outside hs nofun nofun nofun nofun (hasks (by rw [hpc]; rfl) rfl (step_started hs nofun))
  | batch j j' e hpc hj => exact h.observe hs hpc hj

/-- **The steps of the pool of the engine.** -/
theorem eng (h : CtlLink s p spot) {f : PoolEvent m UserTask} (hs : s.EngStep f s') : CtlLink s' p spot := by
  cases hs with
  | start r hpc _ _ => exact h.keep rfl (by rw [hpc]; rfl)
  | shutdownCall k hpc _ => exact h.keep rfl (by rw [hpc]; rfl)
  | shutdownRet k r hpc _ => exact h.keep rfl (by rw [hpc]; simp only [Env.setEngine_engine_pc]; split <;> rfl)
  | loop atype j j' f hpc _ => exact h.keep rfl (by rw [hpc]; rfl)
  | tau | blockStarts _ _ _ _ | blockEnds _ _ _ _ => exact h.keep rfl rfl

end CtlLink

/-- The event controller and its pool in a run. -/
def View.CtlLinked (v : View W m δ) : Prop := ∃ spot, CtlLink v.env v.evm spot

/-- **The event controller is one task of its pool in every run.** -/
theorem ctlLinked_reachable [DecidableEq δ] {cfg : Config} (hW : W ≠ 0) {v : View W m δ}
    {ok : View W m δ → ViewLabel W m δ → Prop} (h : Lts.ReachableIf (viewSystem cfg W m) ok v) : v.CtlLinked := by
  refine h.invariant_of (P := View.EvmLinked) (fun v hv => evmLinked_reachable hW hv) (fun v hv => ?_)
    fun v l v' hlink _ hi _ hs => ?_
  · rw [show v = _ from hv]
    exact ⟨_, CtlLink.init cfg⟩
  · obtain ⟨place, rem, hlink⟩ := hlink
    obtain ⟨spot, hi⟩ := hi
    cases hs with
    | own _ hstep => exact ⟨spot, hi.own hlink hstep⟩
    | evm _ hp hobs => exact hi.evm hlink hp (.of hobs)
    | eng _ _ hobs => exact ⟨spot, hi.eng (.of hobs)⟩

end ComplexSim.Engine
