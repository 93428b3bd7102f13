import ComplexSim.Engine.ControllerTask
import ComplexSim.Engine.LoopTasks

/-!
# The event controller is sent

Before the engine gets to its main loop the event controller has been enqueued, by the program or by
the engine itself, and it stays on its way until a worker performs it: `cs_wp_start` succeeds for the
first caller only, and nobody closes the pool before `cs_engine_fini`.
-/

namespace ComplexSim.Engine

open Workerpool Events

variable {W m : Nat} {δ : Type}

/-- The engine has not seen to it that the event controller is started. -/
def EnginePc.unsent : EnginePc → Bool
  | .main | .start _ _ | .setNsync | .firstClock | .evmRunning => true
  | _ => false

/-- The event controller is being enqueued, or in the queue. -/
def Sent (p : TaskPool (W + 1) (EvTask δ)) : Prop :=
  p.calls (.ext 0) = .enqueuing .controller ∨ ∃ t, p.phase t = .queued .controller

/-- The event controller stays on its way until it begins. -/
theorem Sent.step {p p' : TaskPool (W + 1) (EvTask δ)} {e : PoolEvent (W + 1) (EvTask δ)} (h : Sent p) (hs : p.Step e p')
    (hopen : p.closed = false) (hcaller : TaskPool.caller e ≠ some (.ext 0))
    (hstarts : ∀ w t, e ≠ .started w t (some .controller)) : Sent p' := by
  have hne : ∀ {j : Caller (W + 1)}, some j ≠ some (.ext 0) → .ext 0 ≠ j := fun hj hkj => hj (congrArg some hkj.symm)
  rcases h with hcall | ⟨t, ht⟩
  · cases hs with
    | accept k x u hk _ _ =>
        by_cases hkj : .ext 0 = k
        · subst hkj
          rw [hk] at hcall
          cases hcall
          exact Or.inr ⟨u, by simp⟩
        · exact Or.inl (by simpa [hkj] using hcall)
    | drop k x u hk hclosed =>
        rw [hopen] at hclosed
        cases hclosed
    | statusCall j _ | statusRet j _ _ | enqueueCall j _ _ | refuse j _ _ _ | enqueueRet j _ _ | waitCall j _ _
    | waitRet j _ _ _ => exact Or.inl (by simpa [hne hcaller] using hcall)
    | tau | start _ | startAgain _ | started _ _ _ _ _ | finished _ _ _ _ _ | shutdownCall | close _ | shutdownRet _ _ =>
        exact Or.inl hcall
  · refine Or.inr ⟨t, ?_⟩
    rcases hs.phase_cases t with heq | ⟨k, x, -, -, hold, -⟩ | ⟨w, x, he, hold, -⟩ | ⟨w, x, -, hold, -⟩
    · exact heq.trans ht
    · rw [ht] at hold
      cases hold
    · rw [ht] at hold
      cases hold
      exact absurd he (hstarts w t)
    · rw [ht] at hold
      cases hold

/-- The start of the event controller, in a run. -/
structure View.Sending (v : View W m δ) : Prop where
  call : ∀ b, v.env.engine.pc = .start b .inEnqueue →
    v.evm.calls (.ext 0) = .enqueuing .controller ∨ ∃ t, v.evm.calls (.ext 0) = .accepted t
  sent : v.evm.started = true → v.env.engine.pc.asks = false → v.env.engine.pc.finishing = false →
    v.env.ctl.pc = .off → Sent v.evm
  running : v.env.evm.running = true → v.evm.started = true
  begun : v.env.engine.pc.unsent = false → v.evm.started = true

section Steps

variable {v : View W m δ} {env : Env W m δ} {cfg : Config}

/-- A step that leaves the pool of the event manager alone. -/
theorem View.Sending.keep (h : v.Sending) {p : TaskPool m UserTask}
    (hcall : ∀ b, env.engine.pc = .start b .inEnqueue → v.env.engine.pc = .start b .inEnqueue)
    (hasks : env.engine.pc.asks = false → v.env.engine.pc.asks = false)
    (hfinishing : env.engine.pc.finishing = false → v.env.engine.pc.finishing = false)
    (hoff : env.ctl.pc = .off → v.env.ctl.pc = .off)
    (hrunning : env.evm.running = true → v.env.evm.running = true ∨ v.evm.started = true)
    (hunsent : env.engine.pc.unsent = false → v.env.engine.pc.unsent = false ∨ v.env.evm.running = true) :
    View.Sending { v with env := env, eng := p } where
  call := fun b hb => h.call b (hcall b hb)
  sent := fun hstarted ha hf ho => h.sent hstarted (hasks ha) (hfinishing hf) (hoff ho)
  running := fun hr => (hrunning hr).elim h.running id
  begun := fun hu => (hunsent hu).elim h.begun h.running

/-- Where the engine goes on its way to the main loop. -/
theorem engine_unsent {s s' : Env W m δ} {b : Bool} (hs : s.EngineStep cfg b s') (h : s'.engine.pc.unsent = false) :
    s.engine.pc.unsent = false ∨ s.evm.running = true := by
  cases hs with
  | evmRunning hpc =>
      by_cases hrunning : s.evm.running = true
      · exact Or.inr hrunning
      · simp [hrunning, EnginePc.unsent] at h
  | startTime | setNsync | firstClock => cases h
  | loopCrash | closingFails => exact Or.inl h
  | noActivities hpc _ | loopSkip _ hpc _ | loopFork _ _ _ hpc _ _ _ | loopWait _ _ hpc | loopEnd _ hpc
  | terminate hpc _ _ | goOn hpc _ | moreEvents hpc | pass _ _ hpc _ | arrive _ hpc _ | leave _ _ hpc _
  | clockStop hpc _ | clockScan hpc _ _ | clockDriven hpc _ _ | stopController hpc | timeStop hpc | closing hpc _
  | wait hpc _ | completed hpc _ | woken hpc _ | finiRunning hpc | finiStop hpc =>
      exact Or.inl (by rw [hpc]; rfl)

/-- The event controller begins in its pool, and does not go back. -/
theorem ctl_begun {s s' : Env W m δ} (hs : s.CtlStep s') : s.ctl.pc ≠ .off ∧ s'.ctl.pc ≠ .off := by
  cases hs with
  | popCrash _ hpc _ _ => exact ⟨by rw [hpc]; nofun, by rw [Env.fail_ctl, hpc]; nofun⟩
  | pass _ r hpc _ | leave _ r hpc _ =>
      refine ⟨by rw [hpc]; nofun, ?_⟩
      simp only []
      split <;> nofun
  | «begin» hpc | firstClock hpc | setRunning hpc | arrive _ hpc _ | clock hpc | stops hpc _ | early hpc _ _
  | goOn hpc _ _ | popNone hpc _ | pop _ hpc _ _ | batchWait _ hpc | batchEnd hpc | signal hpc | setNotRunning hpc =>
      exact ⟨by rw [hpc]; nofun, by simp⟩

/-- **The steps outside the pools.** -/
theorem View.Sending.own (h : v.Sending) (hlinked : v.EvmLinked) {a : EnvAction W m δ} (hs : v.env.step cfg a = some env) :
    View.Sending { v with env := env } := by
  obtain ⟨place, rem, hlink⟩ := hlinked
  have hfinishing : env.engine.pc.finishing = false → v.env.engine.pc.finishing = false := by
    intro hf
    by_contra hno
    rw [Env.finishing_step hs (Bool.not_eq_false _ ▸ hno)] at hf
    cases hf
  have hengine : env.engine = v.env.engine → env.ctl = v.env.ctl → env.evm.running = v.env.evm.running →
      View.Sending { v with env := env } := by
    intro heng hctl hrunning
    exact h.keep (fun b hb => heng ▸ hb) (fun ha => heng ▸ ha) hfinishing (fun ho => hctl ▸ ho)
      (fun hr => Or.inl (hrunning ▸ hr)) fun hu => Or.inl (heng ▸ hu)
  have hmain : ∀ {before next : EnginePc}, next.starting = false → before.asks = false →
      (next.unsent = false → before.unsent = false) → v.env.mainStep before next = some env →
      View.Sending { v with env := env } := by
    intro before next hnext hbefore hunsent hs
    obtain ⟨hpc, rfl⟩ := Env.mainStep_cases hs
    refine h.keep (fun b hb => ?_) (fun _ => hpc ▸ hbefore) hfinishing id Or.inl fun hu => Or.inl (hpc ▸ hunsent hu)
    rw [show next = .start b .inEnqueue from hb] at hnext
    cases hnext
  cases a with
  | preStart r | simStart => exact hmain rfl rfl (fun hu => by cases hu) hs
  | fini => exact hmain rfl rfl (fun _ => rfl) hs
  | engine b =>
      have hstep := Env.EngineStep.of hs
      obtain ⟨hctl, -⟩ := hstep.frame
      obtain ⟨hold, hnew⟩ := hstep.starting
      have hrunning : env.evm.running = v.env.evm.running := by cases hstep <;> rfl
      refine h.keep (fun b hb => ?_) (fun _ => EnginePc.not_asks hold) hfinishing (fun ho => hctl ▸ ho)
        (fun hr => Or.inl (hrunning ▸ hr)) (engine_unsent hstep)
      rw [hb] at hnew
      cases hnew
  | ctl =>
      have hstep := Env.CtlStep.of hs
      obtain ⟨heng, -⟩ := hstep.frame
      obtain ⟨hold, hnew⟩ := ctl_begun hstep
      have hstarted : v.evm.started = true := by
        by_contra hno
        exact hold (hlink.unstarted (Bool.eq_false_iff.2 hno)).1
      exact ⟨fun b hb => h.call b (heng ▸ hb), fun _ _ _ hoff => absurd hoff hnew, fun _ => hstarted, fun _ => hstarted⟩
  | slice w => cases Env.SliceStep.of hs <;> exact hengine rfl rfl rfl
  | schedule src ev time =>
      obtain ⟨-, rfl⟩ := Env.scheduleStep_cases hs
      exact hengine rfl rfl rfl

/-- **The steps of the pool of the event manager.** -/
theorem View.Sending.evm [DecidableEq δ] (h : v.Sending) (hlinked : v.EvmLinked) (hopened : v.Opened)
    {e : PoolEvent (W + 1) (EvTask δ)} {p : TaskPool (W + 1) (EvTask δ)} (hp : v.evm.Step e p) (hs : v.env.EvmStep e env) :
    View.Sending { v with env := env, evm := p } := by
  obtain ⟨place, rem, hlink⟩ := hlinked
  have hopen : v.env.engine.pc.finishing = false → v.evm.closed = false := by
    intro hf
    by_contra hno
    rw [hopened.evm (Or.inr (Bool.not_eq_false _ ▸ hno))] at hf
    cases hf
  have hstarted : v.env.engine.pc.starting = true → v.evm.started = true := by
    intro hstarting
    by_contra hno
    rw [(hlink.unstarted (Bool.eq_false_iff.2 hno)).2.2] at hstarting
    cases hstarting
  -- steps that are neither calls of the engine nor the begin of the controller
  have hother : TaskPool.caller e ≠ some (.ext 0) → e ≠ .startRet 0 → (∀ w t, e ≠ .started w t (some .controller)) →
      env.engine = v.env.engine → (env.ctl.pc = .off → v.env.ctl.pc = .off) → env.evm = v.env.evm →
      View.Sending { v with env := env, evm := p } := by
    intro hcaller hstart hcontroller heng hoff hevm
    have hsame := step_started hp hstart
    refine ⟨fun b hb => ?_, fun hst ha hf ho => ?_, fun hr => ?_, fun hu => ?_⟩
    · have hold := h.call b (heng ▸ hb)
      rcases calls_step hp hcaller with heq | ⟨-, t, hacc⟩
      · exact (heq.symm ▸ hold : p.calls (.ext 0) = .enqueuing .controller ∨ ∃ t, p.calls (.ext 0) = .accepted t)
      · exact Or.inr ⟨t, hacc⟩
    · have hf : v.env.engine.pc.finishing = false := heng ▸ hf
      exact (h.sent (hsame ▸ hst) (heng ▸ ha) hf (hoff ho)).step hp (hopen hf) hcaller hcontroller
    · exact hp.started_mono (h.running (hevm ▸ hr))
    · exact hp.started_mono (h.begun (heng ▸ hu))
  cases hs with
  | tau => exact hother nofun nofun nofun rfl id rfl
  | sliceStarts w t d _ => exact hother nofun nofun nofun rfl id rfl
  | sliceEnds w t r _ _ => exact hother nofun nofun nofun rfl id rfl
  | controllerEnds w t _ _ _ => exact hother nofun nofun nofun rfl (by simp) rfl
  | batch j j' e hpc hj =>
      have hcaller := Join.observe_caller hj
      refine hother (by rw [hcaller]; nofun) ?_ ?_ rfl (by simp) rfl
      · rintro rfl
        cases hcaller
      · rintro w t rfl
        cases hcaller
  | controllerStarts w t hpc =>
      have hyes : v.evm.started = true := by
        by_contra hno
        exact (hlink.unstarted (Bool.eq_false_iff.2 hno)).2.1 t .controller (Or.inl hp.queued)
      have hyes' : p.started = true := hp.started_mono hyes
      refine ⟨fun b hb => ?_, fun _ _ _ ho => (by cases ho), fun _ => hyes', fun _ => hyes'⟩
      have hcalls : p.calls (.ext 0) = v.evm.calls (.ext 0) := by cases hp; rfl
      exact (hcalls.symm ▸ h.call b hb : p.calls (.ext 0) = .enqueuing .controller ∨ ∃ t, p.calls (.ext 0) = .accepted t)
  | startFailed byMain r hpc hr =>
      have hyes : p.started = true ∧ p = v.evm := by
        cases hp with
        | start _ => exact absurd hr (by decide)
        | startAgain hyes => exact ⟨hyes, rfl⟩
      obtain ⟨hyes, rfl⟩ := hyes
      refine ⟨fun b hb => ?_, fun hst _ _ ho => h.sent hst (by rw [hpc]; rfl) (by rw [hpc]; rfl) ho, h.running,
        fun _ => hyes⟩
      cases byMain <;> cases hb
  | start byMain r hpc hr =>
      refine ⟨fun b hb => (by cases hb), fun _ ha _ _ => (by cases ha), fun hr => hp.started_mono (h.running hr),
        fun hu => by cases hu⟩
  | enqueueController byMain hpc =>
      have hcall : p.calls (.ext 0) = .enqueuing .controller := by
        cases hp
        simp
      exact ⟨fun _ _ => Or.inl hcall, fun _ _ _ _ => Or.inl hcall, fun hr => hp.started_mono (h.running hr),
        fun hu => by cases hu⟩
  | enqueued byMain r hpc =>
      have hyes := hstarted (by rw [hpc]; rfl)
      refine ⟨fun b hb => ?_, fun _ _ _ ho => ?_, fun _ => hp.started_mono hyes, fun _ => hp.started_mono hyes⟩
      · cases byMain <;> cases hb
      · have hsent := h.sent hyes (by rw [hpc]; rfl) (by rw [hpc]; rfl) ho
        cases hp with
        | refuse _ x hk hno =>
            rw [hyes, hopen (by rw [hpc]; rfl)] at hno
            rcases hno with hno | hno <;> cases hno
        | enqueueRet _ t hk =>
            rcases hsent with hcall | hqueued
            · rw [hk] at hcall
              cases hcall
            · exact Or.inr hqueued
  | shutdownCall k hpc _ | shutdownRet k r hpc _ =>
      exact ⟨fun b hb => (by cases hb), fun _ _ hf _ => (by cases hf), fun hr => hp.started_mono (h.running hr),
        fun _ => hp.started_mono (h.begun (by rw [hpc]; rfl))⟩

/-- **The steps of the pool of the engine.** -/
theorem View.Sending.eng (h : v.Sending) {e : PoolEvent m UserTask} {p : TaskPool m UserTask} (hs : v.env.EngStep e env) :
    View.Sending { v with env := env, eng := p } := by
  have hmove : ∀ {pc : EnginePc}, v.env.engine.pc.unsent = false → v.env.engine.pc.asks = false → pc.starting = false →
      (pc.finishing = false → v.env.engine.pc.finishing = false) →
      View.Sending { v with env := v.env.setEngine pc, eng := p } := by
    intro pc hunsent hasks hpc hfinishing
    refine h.keep (fun b hb => ?_) (fun _ => hasks) hfinishing id Or.inl fun _ => Or.inl hunsent
    rw [show pc = .start b .inEnqueue from hb] at hpc
    cases hpc
  cases hs with
  | tau | blockStarts _ _ _ _ | blockEnds _ _ _ _ => exact h.keep (fun _ => id) id id id Or.inl Or.inl
  | start r hpc _ _ => exact hmove (by rw [hpc]; rfl) (by rw [hpc]; rfl) rfl fun _ => by rw [hpc]; rfl
  | shutdownCall k hpc _ => exact hmove (by rw [hpc]; rfl) (by rw [hpc]; rfl) rfl fun hf => by cases hf
  | shutdownRet k r hpc _ =>
      refine hmove (by rw [hpc]; rfl) (by rw [hpc]; rfl) (by split <;> rfl) fun hf => ?_
      split at hf <;> cases hf
  | loop atype j j' e hpc _ => exact hmove (by rw [hpc]; rfl) (by rw [hpc]; rfl) rfl fun _ => by rw [hpc]; rfl

end Steps

/-- Only `cs_engine_fini` shuts the pools down. -/
structure Sim.Unshut (s : Sim W m δ) : Prop where
  evm : s.env.engine.pc.finishing = false → s.evmWp.shut = .idle
  eng : s.env.engine.pc.finishing = false → s.engWp.shut = .idle

end ComplexSim.Engine
