import ComplexSim.Engine.ActivityPool
import ComplexSim.Engine.Loops

/-!
# The tasks of a loop in the pool of the engine

The engine enqueues the blocks of a loop and waits for their ids, as the event controller does for a
tick. As long as nobody has shut its pool down, the pool is that of a thread with such loops.
-/

namespace ComplexSim.Engine

open Workerpool Events

variable {W m : Nat} {δ : Type}

/-- The pool of the engine and its client, in any run. -/
structure Sim.EngLinked (s : Sim W m δ) : Prop where
  pools : s.Pools
  capacity : Capacity (m * 10) s.engWp
  link : s.view.EngLinked

/-- The pool of the engine, as long as nobody has shut it down. -/
structure Sim.Looping (s : Sim W m δ) : Prop where
  fed : Fed s.engWp (.ext 0) s.env.engine.pc.pending
  inCall : ∀ atype j, s.env.engine.pc = .loop atype (.join j) → InCall j (s.view.eng.calls (.ext 0))

section Runs

variable [DecidableEq δ] {cfg : Config} {s s' : Sim W m δ} {a : SimAction W m δ}

omit [DecidableEq δ] in
theorem Sim.EngLinked.idle (h : s.EngLinked) (hpc : s.env.engine.pc.calling = false) :
    s.engWp.calls (.ext 0) = .idle := by
  obtain ⟨spot, hlink⟩ := h.link
  exact h.pools.engCoded.idle (hlink.forked.idle hpc)

omit [DecidableEq δ] in
/-- The engine goes on outside its pool: it keeps the ids that it is to wait for, or has none. -/
theorem Sim.Looping.engine (h : s.Looping) (hl' : s'.EngLinked) (hpool : s'.engWp = s.engWp)
    (hpc : s'.env.engine.pc = s.env.engine.pc ∨
      (∀ atype j, s'.env.engine.pc ≠ .loop atype (.join j)) ∨
      (∃ atype xs, s'.env.engine.pc = .loop atype (.join (.enqueue xs []))) ∨
      ∃ atype ids, s.env.engine.pc = .loop atype (.join (.enqueue [] ids)) ∧
        s'.env.engine.pc = .loop atype (.join (.wait ids))) : s'.Looping := by
  have hcalls : s'.view.eng.calls (.ext 0) = s.view.eng.calls (.ext 0) := by
    show (s'.engWp.calls (.ext 0)).request s'.engWp.tsk = (s.engWp.calls (.ext 0)).request s.engWp.tsk
    rw [hpool]
  have hrest : s'.env.engine.pc.pending = [] → s'.env.engine.pc.calling = false →
      Fed s'.engWp (.ext 0) s'.env.engine.pc.pending ∧ s'.view.eng.calls (.ext 0) = .idle := by
    intro hpending hcalling
    have hidle := hl'.idle hcalling
    refine ⟨?_, by show (s'.engWp.calls (.ext 0)).request _ = _; rw [hidle]; rfl⟩
    rw [hpending, hpool]
    exact h.fed.nil
  rcases hpc with hsame | hno | ⟨atype, xs, hloop⟩ | ⟨atype, ids, hold, hloop⟩
  · refine ⟨by rw [hpool, hsame]; exact h.fed, fun atype j hj => ?_⟩
    rw [hcalls]
    exact h.inCall atype j (hsame ▸ hj)
  · obtain ⟨-, hpending, hcalling⟩ := EnginePc.codes_eq_nil hno
    exact ⟨(hrest hpending hcalling).1, fun atype j hj => absurd hj (hno atype j)⟩
  · obtain ⟨hfed, hidle⟩ := hrest (by rw [hloop]; rfl) (by rw [hloop]; rfl)
    refine ⟨hfed, fun atype j hj => ?_⟩
    rw [hloop] at hj
    cases hj
    exact hidle
  · refine ⟨?_, fun atype j hj => ?_⟩
    · rw [hpool, hloop]
      exact (hold ▸ h.fed : Fed s.engWp (.ext 0) (EnginePc.loop atype (.join (.enqueue [] ids))).pending)
    · rw [hloop] at hj
      cases hj
      rw [hcalls]
      exact (h.inCall atype _ hold : InCall (.enqueue [] ids) _)

omit [DecidableEq δ] in
/-- **The steps of the pool of the engine.** -/
theorem Sim.Looping.eng (h : s.Looping) (hl : s.EngLinked) {b : Pool.Action m UserTask}
    {e : PoolEvent m UserTask} (hstep : s.engWp.Step b s'.engWp e) (hobs : s.env.EngStep e s'.env)
    (hshut : s'.engWp.shut = .idle) : s'.Looping := by
  have habs := hl.pools.eng.abs_step hl.pools.engCoded hstep
  have hother : s'.env.engine.pc = s.env.engine.pc → TaskPool.caller e = none → s'.Looping := by
    intro hpc hcaller
    refine ⟨?_, fun atype j hj => ?_⟩
    · rw [hpc]
      refine h.fed.step hl.pools.eng hstep hshut ?_
      rintro k id rfl
      cases hcaller
    · have hin := h.inCall atype j (hpc ▸ hj)
      exact hin.step (calls_step habs (k := .ext 0) (by rw [hcaller]; nofun))
  have hquiet : (∀ atype j, s'.env.engine.pc ≠ .loop atype (.join j)) → s.env.engine.pc.pending = [] →
      TaskPool.caller e = none → s'.Looping := by
    intro hno hold hcaller
    refine ⟨?_, fun atype j hj => absurd hj (hno atype j)⟩
    rw [(EnginePc.codes_eq_nil hno).2.1, ← hold]
    refine h.fed.step hl.pools.eng hstep hshut ?_
    rintro k id rfl
    cases hcaller
  generalize henv : s'.env = env at hobs
  cases hobs with
  | tau => exact hother (by rw [henv]) rfl
  | blockStarts v t x _ => exact hother (by rw [henv]) rfl
  | blockEnds v t x _ => exact hother (by rw [henv]) rfl
  | start r hpc _ _ => exact hquiet (by simp [henv]) (by rw [hpc]; rfl) rfl
  | shutdownCall k hpc _ => exact hquiet (by simp [henv]) (by rw [hpc]; rfl) rfl
  | shutdownRet k r hpc _ =>
      refine hquiet (fun atype j => ?_) (by rw [hpc]; rfl) rfl
      rw [henv, Env.setEngine_engine_pc]
      split <;> simp
  | loop atype j j' e hpc hj =>
      obtain ⟨spot, hlink⟩ := hl.link
      have hpending : s.env.engine.pc.pending = j.pending := by rw [hpc]; rfl
      refine ⟨?_, fun atype' i hi => ?_⟩
      · have hcreated : s.engWp.ctl ≠ .notCreated := by simpa [Sim.view, Pool.abs] using hlink.looping atype j hpc
        have hnew : s'.env.engine.pc.pending = j'.pending := by rw [henv]; rfl
        rw [hnew]
        refine (hpending ▸ h.fed).observe hl.pools.eng hstep hshut hcreated hj fun t ht => ?_
        exact hl.pools.engCoded.table t (hlink.forked.joined.known t (hpending ▸ ht))
      · rw [henv] at hi
        cases hi
        exact InCall.observe habs hj

end Runs

end ComplexSim.Engine
