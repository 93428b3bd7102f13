import ComplexSim.Engine.Loops
import ComplexSim.Workerpool.Progress
import ComplexSim.Workerpool.Refinement

/-!
# What the calls of an open pool wait for

A thread with loops waits in few places: for the table, for a place in the queue, for the signal of a task. A task
that it is to wait for is on its way until its semaphore has been posted, and then the pool goes on with it, or
its code runs, or every worker has a task.
-/

namespace ComplexSim.Engine

open Workerpool

/-- Task `t` is in the queue, in the hands of the controller of the pool, given to a worker, performed,
or about to be signalled. -/
def OnItsWay {n : Nat} {α : Type} (p : Pool n α) (t : TskId) : Prop :=
  t ∈ p.tskQ.elems ∨ p.ctl.hand = some t ∨
    ∃ w, (p.workers w).given = some t ∨ ∃ st, (p.workers w).pc.stage = some (st, t)

section Pools

variable {n : Nat} {α : Type} {p : Pool n α} {k : Caller n} {t : TskId}

/-- The controller of an open pool that has something to do can take a step, or every worker has a task. -/
theorem dispatch_steps (h : PoolInv p) (hopen : p.tskQ.status = .opened) (hcreated : p.ctl ≠ .notCreated)
    (hwork : p.tskQ.elems ≠ [] ∨ p.ctl ≠ .dequeueWait) (u : Fin n) :
    p.controllerBehaviour.isSome = true ∨ (p.workerBehaviour u).isSome = true ∨ ∃ t, (p.workers u).pc = .performing t := by
  rcases h.controller_steps hopen hcreated with hmoves | ⟨hwait, hempty⟩ | ⟨hhand, hsem⟩
  · exact Or.inl hmoves
  · rcases hwork with hno | hno
    · exact absurd hempty hno
    · exact absurd hwait hno
  · refine Or.inr (h.busy_steps (h.all_busy hhand hsem u) ?_)
    obtain ⟨t, ht⟩ := hhand
    rw [ht]
    nofun

/-- A worker past its task goes on. -/
theorem ending_steps {w : Fin n} {st : Stage} (hstage : (p.workers w).pc.stage = some (st, t)) :
    (p.workerBehaviour w).isSome = true ∨ (p.workers w).pc = .performing t := by
  cases hpc : (p.workers w).pc with
  | performing v =>
      rw [hpc] at hstage
      cases hstage
      exact Or.inr rfl
  | release v =>
      refine Or.inl ?_
      simp only [Pool.workerBehaviour, hpc]
      split <;> rfl
  | setDone v | signalEnd v => exact Or.inl (by simp [Pool.workerBehaviour, hpc])
  | notCreated | semWait | woken | takeTask | exited => simp [hpc, WorkerPc.stage] at hstage

/-- **A task on its way goes on**: in the pool, or where its code runs; or worker `u`, like every other, has
a task that goes on so. -/
theorem way_steps (h : PoolInv p) (hopen : p.tskQ.status = .opened) (hcreated : p.ctl ≠ .notCreated)
    (ht : OnItsWay p t) (u : Fin n) :
    p.controllerBehaviour.isSome = true ∨ (∃ w, (p.workerBehaviour w).isSome = true) ∨
      (∃ w, (p.workers w).pc = .performing t) ∨ ∃ v, (p.workers u).pc = .performing v := by
  have hdispatch : p.tskQ.elems ≠ [] ∨ p.ctl ≠ .dequeueWait → p.controllerBehaviour.isSome = true ∨
      (∃ w, (p.workerBehaviour w).isSome = true) ∨ (∃ w, (p.workers w).pc = .performing t) ∨
        ∃ v, (p.workers u).pc = .performing v := by
    intro hwork
    rcases dispatch_steps h hopen hcreated hwork u with hmoves | hmoves | hperform
    · exact Or.inl hmoves
    · exact Or.inr (Or.inl ⟨u, hmoves⟩)
    · exact Or.inr (Or.inr (Or.inr hperform))
  rcases ht with hmem | hhand | ⟨w, hgiven | ⟨st, hstage⟩⟩
  · exact hdispatch (Or.inl (List.ne_nil_of_mem hmem))
  · refine hdispatch (Or.inr fun hwait => ?_)
    rw [hwait] at hhand
    cases hhand
  · by_cases hnotify : p.ctl = .notify w
    · exact hdispatch (Or.inr (by rw [hnotify]; nofun))
    · rcases h.busy_steps (h.busy_of_unfinished (Or.inl hgiven)) hnotify with hmoves | ⟨v, hperform⟩
      · exact Or.inr (Or.inl ⟨w, hmoves⟩)
      · obtain ⟨-, hok⟩ := h.handshake.worker w
        simp only [hperform] at hok
        simp [Worker.given, hok.2.1] at hgiven
  · rcases ending_steps hstage with hmoves | hperform
    · exact Or.inr (Or.inl ⟨w, hmoves⟩)
    · exact Or.inr (Or.inr (Or.inl ⟨w, hperform⟩))

/-- Where a call of an open pool waits. -/
inductive CallWaits (p : Pool n α) (k : Caller n) : Prop where
  /-- for the table, which another thread has locked -/
  | table (j : Caller n) (hlock : p.tableMutex = some j) (hfree : (p.calls k).locks = false)
  /-- for a place in the full queue -/
  | place (t : TskId) (hcall : p.calls k = .enqLimit t) (hfull : p.tskQ.qlimitSem = 0)
  /-- for the signal of a task -/
  | signal (t : TskId) (hcall : p.calls k = .waitSem t) (hsem : (p.tsk t).taskSem = 0)

/-- A thread in a call can take a step, or waits. -/
theorem call_steps (hfree : p.shut.holds = false) (hcall : p.calls k ≠ .idle) :
    (p.callStep k).isSome = true ∨ (∃ x, p.calls k = .enqCreate x) ∨ CallWaits p k := by
  have htable : ∀ c, p.calls k = c → c.locks = false → (p.tableMutex = none → (p.callStep k).isSome = true) →
      (p.callStep k).isSome = true ∨ (∃ x, p.calls k = .enqCreate x) ∨ CallWaits p k := by
    intro c hc hlocks hmoves
    cases hlock : p.tableMutex with
    | none => exact Or.inl (hmoves hlock)
    | some j => exact Or.inr (Or.inr (.table j hlock (by rw [hc, hlocks])))
  cases hc : p.calls k with
  | idle => exact absurd hc hcall
  | enqCreate x => exact Or.inr (Or.inl ⟨x, rfl⟩)
  | getStatus => exact Or.inl (by simp [Pool.callStep, hc, hfree])
  | enqStatus x =>
      refine Or.inl ?_
      simp only [Pool.callStep, hc, hfree]
      split <;> [skip; split] <;> simp_all
  | enqTable t => exact hc ▸ htable _ hc rfl fun hnone => by simp [Pool.callStep, hc, hnone]
  | enqLimit t =>
      by_cases hplace : 0 < p.tskQ.qlimitSem
      · exact Or.inl (by simp [Pool.callStep, hc, hplace])
      · exact Or.inr (Or.inr (.place t hc (by omega)))
  | enqQueue t => exact Or.inl (by simp [Pool.callStep, hc])
  | enqInsert t r =>
      refine Or.inl ?_
      simp only [Pool.callStep, hc]
      repeat' split
      all_goals rfl
  | waitFind id =>
      refine hc ▸ htable _ hc rfl fun hnone => ?_
      simp only [Pool.callStep, hc, hnone]
      repeat' split
      all_goals simp_all
  | waitStatus t =>
      refine Or.inl ?_
      simp only [Pool.callStep, hc]
      split <;> rfl
  | waitSem t =>
      by_cases hsem : 0 < (p.tsk t).taskSem
      · exact Or.inl (by simp [Pool.callStep, hc, hsem])
      · exact Or.inr (Or.inr (.signal t hc (by omega)))

/-- The event of a thread's call is one that its loops take. -/
theorem join_takes [DecidableEq α] {p' : Pool n α} {j : Join α} {e : PoolEvent n α}
    (hin : InCall j ((p.calls k).request p.tsk)) (hs : p.CallStep k p' e) : e = .tau ∨ (j.observe k e).isSome = true := by
  cases hs with
  | statusOk _ _ _ _ | lockTable _ _ _ | limit _ _ _ | append _ _ _ | drop _ _ _ | duplicate _ _ _ _ | find _ _ _ _
  | notDone _ _ _ => exact Or.inl rfl
  | getStatus hcall _ =>
      rw [hcall] at hin
      cases j with
      | inEnqueue xs ids => rcases hin with ⟨x, hx⟩ | ⟨t, ht⟩ <;> simp [CallPc.request] at *
      | enqueue _ _ | wait _ | inWait _ _ => cases hin
  | refused _ hcall _ _ | failed _ _ hcall _ | insert _ _ hcall _ _ =>
      rw [hcall] at hin
      cases j with
      | inEnqueue xs ids => exact Or.inr (by simp [Join.observe])
      | enqueue _ _ | wait _ | inWait _ _ => cases hin
  | notFound _ hcall _ _ | isDone _ hcall _ | waitEnd _ hcall _ =>
      rw [hcall] at hin
      cases j with
      | inWait id ids =>
          have heq := Request.waiting.inj hin
          exact Or.inr (by simp [Join.observe, heq])
      | inEnqueue xs ids => rcases hin with ⟨x, hx⟩ | ⟨t, ht⟩ <;> simp [CallPc.request] at *
      | enqueue _ _ | wait _ => cases hin

/-- A task that is expected, and whose end has not been signalled, is on its way. -/
theorem expected_on_its_way {ids : List Int} (h : PoolInv p) (hfed : Fed p k ids) (htable : t ∈ p.table)
    (ht : (t : Int) ∈ ids) (hsem : (p.tsk t).taskSem = 0) : OnItsWay p t := by
  have hat := h.tsks.tsk t
  have hpast := hat.past
  have hin := hfed.accepted.table t htable
  generalize hhist : (p.tsk t).hist = l at hpast hin
  cases hpast with
  | fresh => cases hin
  | queued => exact Or.inl (hat.queued.2 hhist)
  | hand => exact Or.inr (Or.inl (hat.hand.2 hhist))
  | given w => exact Or.inr (Or.inr ⟨w, Or.inl ((hat.given w).2 hhist)⟩)
  | run w => exact Or.inr (Or.inr ⟨w, Or.inr ⟨_, (hat.run w).2 hhist⟩⟩)
  | performed w =>
      rcases hat.ending w hhist with hdone | hstage | hstage
      · rcases hfed.signals t (Or.inl ht) hdone with hpos | ⟨v, hv⟩
        · omega
        · exact Or.inr (Or.inr ⟨v, Or.inr ⟨.signalEnd, by rw [hv]; rfl⟩⟩)
      · exact Or.inr (Or.inr ⟨w, Or.inr ⟨_, hstage⟩⟩)
      · exact Or.inr (Or.inr ⟨w, Or.inr ⟨_, hstage⟩⟩)

end Pools

end ComplexSim.Engine
