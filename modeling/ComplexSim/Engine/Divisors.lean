import ComplexSim.Engine.Steps

/-!
# The divisors of a simulation

Three calls before a simulation fix the numbers by which it divides: `cs_init_event_manager` the number of
event tasks, `cs_bind_sim_activity` the step of an activity, and `cs_init_engine` the number of workers
among which an activity is split. The first is what `cs_wp_init` has checked less one, and the second is
not checked at all.

An `int` is a word of 32 bits, and a sum that leaves its range wraps around. The two pools have queues of any
size; `malloc` and `calloc` fail on a negative size only.
-/

namespace ComplexSim.Divisors

open Engine Workerpool Events

/-- `cs_wp_init`: the number of workers of the pool, if it returns 0. -/
def csWpInitWorkers (nthreads : BitVec 32) : Option Nat :=
  if nthreads.toInt ≤ 0 then none else some nthreads.toInt.toNat

/-- `cs_event_manager_t`, as far as its pool is concerned. -/
structure EventManager where
  nworkers : BitVec 32
  /-- the workers of its pool -/
  wp : Nat
  deriving DecidableEq

/-- `cs_init_event_manager`, if it returns 0. -/
def csInitEventManager (nworkers : BitVec 32) : Option EventManager :=
  (csWpInitWorkers (nworkers + 1)).map fun wp => { nworkers := nworkers + 1, wp := wp }

/-- `ntasks` of `_ev_controller`, by which `_cs_ev_update_guards` divides. -/
def EventManager.ntasks (evm : EventManager) : BitVec 32 := evm.nworkers - 1

/-- `cs_init_engine`: the number of workers of the engine, if it returns 0. -/
def csInitEngine (wpNworkers : BitVec 32) : Option Nat :=
  csWpInitWorkers (if 0 < wpNworkers.toInt then wpNworkers else 10)

/-- What a program gives to `cs_bind_sim_activity`. -/
structure Bind where
  dataNItems : BitVec 32
  nsteps : BitVec 32
  type : ActivityType

/-- `n_tasks`. -/
def Bind.nTasks (nthreads : Nat) (b : Bind) : Int :=
  if (nthreads : Int) < b.dataNItems.toInt then nthreads else b.dataNItems.toInt

/-- `_cs_bind_sim_activity`; `none` if it divides by zero. -/
def csBindSimActivity (nthreads : Nat) (alist : List CsUserActivity) (b : Bind) : Option (List CsUserActivity) :=
  if nthreads = 0 then none
  -- the block dimension is known; `calloc` of a negative number of blocks
  else if b.nTasks nthreads < 0 then some alist
  else some (alist ++ [{ nsteps := b.nsteps.toInt, nTasks := (b.nTasks nthreads).toNat, lastExecutionTime := -1
                         type := b.type }])

/-- The activities that a program binds one after the other. -/
def bindAll (nthreads : Nat) (binds : List Bind) : Option (List CsUserActivity) :=
  binds.foldlM (csBindSimActivity nthreads) []

/-- The activity is appended to the list of the engine. -/
def Bind.Appended (b : Bind) : Prop := 0 ≤ b.dataNItems.toInt

/-- The runs with `W` event tasks, `m` workers of the engine, and queues of any size. -/
def system (cfg : Config) (W m : Nat) (δ : Type) [DecidableEq δ] : Lts.System (Sim W m δ) (SimAction W m δ) :=
  .ofFn (fun s => ∃ qsize qsize', s = { env := .init cfg, evmWp := csWpInit (W + 1) (EvTask δ) qsize
                                        engWp := csWpInit m UserTask qsize' }) (Sim.step cfg)

/-- No divisor of the run is zero: the number of event tasks, the steps of the activities and the number
of workers of the engine. -/
def NonzeroDivisors {W m : Nat} {δ : Type} (evm : EventManager) (s : Sim W m δ) : Prop :=
  evm.ntasks ≠ 0 ∧ (∀ a ∈ s.env.engine.activities, a.nsteps ≠ 0) ∧ m ≠ 0

/-- The run has divided by zero. -/
def DividedByZero {W m : Nat} {δ : Type} (s : Sim W m δ) : Prop :=
  s.env.failed = some .guardSpacing ∨ s.env.failed = some .stepTest

section Setup

theorem csWpInitWorkers_pos {nthreads : BitVec 32} {n : Nat} (h : csWpInitWorkers nthreads = some n) :
    0 < n ∧ nthreads.toInt = n := by
  unfold csWpInitWorkers at h
  split at h <;> cases h
  omega

/-- The pool of an event manager has one worker more than there are event tasks. -/
theorem csInitEventManager_wp {nworkers : BitVec 32} {evm : EventManager} (h : csInitEventManager nworkers = some evm) :
    evm.ntasks = nworkers ∧ evm.wp = nworkers.toInt.toNat + 1 ∧ 0 ≤ nworkers.toInt := by
  obtain ⟨n, hn, rfl⟩ := Option.map_eq_some_iff.1 h
  obtain ⟨hpos, heq⟩ := csWpInitWorkers_pos hn
  have hone : (1 : BitVec 32).toInt = 1 := by decide
  have hlt := BitVec.toInt_lt (x := nworkers)
  have hge := BitVec.le_toInt nworkers
  have hadd := BitVec.toInt_add nworkers 1
  rw [hone, heq, Int.bmod_def] at hadd
  refine ⟨BitVec.add_sub_cancel nworkers 1, ?_, ?_⟩
  · show n = nworkers.toInt.toNat + 1
    split at hadd <;> omega
  · split at hadd <;> omega

theorem csInitEngine_pos {wpNworkers : BitVec 32} {m : Nat} (h : csInitEngine wpNworkers = some m) : m ≠ 0 :=
  Nat.ne_of_gt (csWpInitWorkers_pos h).1

/-- An activity is appended unless it has a negative number of items. -/
theorem csBindSimActivity_steps {m : Nat} (hm : m ≠ 0) (alist : List CsUserActivity) (b : Bind) :
    ∃ alist', csBindSimActivity m alist b = some alist' ∧
      alist'.map (·.nsteps) = alist.map (·.nsteps) ++ if 0 ≤ b.dataNItems.toInt then [b.nsteps.toInt] else [] := by
  unfold csBindSimActivity
  rw [if_neg hm]
  have hsign : b.nTasks m < 0 ↔ ¬ 0 ≤ b.dataNItems.toInt := by
    unfold Bind.nTasks
    split <;> omega
  by_cases happ : 0 ≤ b.dataNItems.toInt
  · rw [if_neg fun hneg => hsign.1 hneg happ, if_pos happ]
    exact ⟨_, rfl, by simp⟩
  · rw [if_pos (hsign.2 happ), if_neg happ]
    exact ⟨alist, rfl, by simp⟩

/-- Binding does not divide by zero; an activity of the list has the step that it has been bound with. -/
theorem bindAll_steps {m : Nat} (hm : m ≠ 0) (binds : List Bind) :
    ∃ alist, bindAll m binds = some alist ∧
      ((∀ a ∈ alist, a.nsteps ≠ 0) ↔ ∀ b ∈ binds, b.Appended → b.nsteps ≠ 0) := by
  have hfold : ∀ (binds : List Bind) (alist : List CsUserActivity), ∃ alist',
      binds.foldlM (csBindSimActivity m) alist = some alist' ∧
        ((∀ k ∈ alist'.map (·.nsteps), k ≠ 0) ↔
          (∀ k ∈ alist.map (·.nsteps), k ≠ 0) ∧ ∀ b ∈ binds, b.Appended → b.nsteps ≠ 0) := by
    intro binds
    induction binds with
    | nil => exact fun alist => ⟨alist, rfl, by simp⟩
    | cons b rest ih =>
        intro alist
        obtain ⟨alist₁, hbind, hsteps⟩ := csBindSimActivity_steps hm alist b
        obtain ⟨alist₂, hrest, hiff⟩ := ih alist₁
        refine ⟨alist₂, by rw [List.foldlM_cons, hbind]; exact hrest, ?_⟩
        have hzero : b.nsteps.toInt ≠ 0 ↔ b.nsteps ≠ 0 := by
          rw [Ne, Ne, ← BitVec.toInt_inj]
          rfl
        rw [hiff, hsteps, List.forall_mem_append, List.forall_mem_cons, and_assoc]
        by_cases happ : 0 ≤ b.dataNItems.toInt
        · simp only [happ, if_true, List.mem_singleton, forall_eq, Bind.Appended, forall_true_left, hzero]
        · simp [Bind.Appended, happ]
  obtain ⟨alist, halist, hiff⟩ := hfold binds []
  exact ⟨alist, halist, by simpa using hiff⟩

end Setup

section Runs

variable {W m : Nat} {δ : Type} {cfg : Config}

/-- `_loop_activity` changes no step, and divides by zero only if some step is. -/
theorem scheduleActivities_steps {curTime : Int} {atype : ActivityType} (l : List CsUserActivity) (i : Nat) :
    (∀ codes l', scheduleActivities curTime atype i l = some (codes, l') → l'.map (·.nsteps) = l.map (·.nsteps)) ∧
      (scheduleActivities curTime atype i l = none → ∃ a ∈ l, a.nsteps = 0) := by
  induction l generalizing i with
  | nil => simp [scheduleActivities]
  | cons a rest ih =>
      obtain ⟨hsome, hnone⟩ := ih (i + 1)
      rw [scheduleActivities]
      cases hdue : a.due curTime atype with
      | none =>
          have hzero : a.nsteps = 0 := by
            unfold CsUserActivity.due at hdue
            split at hdue
            · cases hdue
            · split at hdue
              · assumption
              · cases hdue
          exact ⟨nofun, fun _ => ⟨a, List.mem_cons_self, hzero⟩⟩
      | some due =>
          cases hrest : scheduleActivities curTime atype (i + 1) rest with
          | none =>
              obtain ⟨b, hb, hzero⟩ := hnone hrest
              cases due <;> exact ⟨nofun, fun _ => ⟨b, List.mem_cons_of_mem a hb, hzero⟩⟩
          | some r =>
              have hsteps := hsome r.1 r.2 hrest
              cases due with
              | true =>
                  refine ⟨fun codes l' h => ?_, nofun⟩
                  cases h
                  simp [hsteps]
              | false =>
                  refine ⟨fun codes l' h => ?_, nofun⟩
                  cases h
                  simp [hsteps]

/-- Where the activities keep their steps, and the run divides by zero only where a divisor is zero. -/
structure Keeps (s s' : Env W m δ) : Prop where
  steps : s'.engine.activities.map (·.nsteps) = s.engine.activities.map (·.nsteps)
  guards : s'.failed = some .guardSpacing → s.failed = some .guardSpacing ∨ W = 0
  test : s'.failed = some .stepTest → s.failed = some .stepTest ∨ ∃ a ∈ s.engine.activities, a.nsteps = 0

theorem Keeps.same {s s' : Env W m δ} (hactivities : s'.engine.activities = s.engine.activities)
    (hfailed : s'.failed = s.failed) : Keeps s s' where
  steps := by rw [hactivities]
  guards := fun h => Or.inl (hfailed ▸ h)
  test := fun h => Or.inl (hfailed ▸ h)

/-- **The steps outside the pools.** -/
theorem Keeps.own {s s' : Env W m δ} {a : EnvAction W m δ} (hs : s.step cfg a = some s') : Keeps s s' := by
  have hmain : ∀ {before next : EnginePc}, s.mainStep before next = some s' → Keeps s s' := by
    intro before next hs
    obtain ⟨-, rfl⟩ := Env.mainStep_cases hs
    exact .same rfl rfl
  cases a with
  | preStart r | simStart | fini => exact hmain hs
  | engine b =>
      cases Env.EngineStep.of hs with
      | loopCrash atype _ hsched =>
          exact ⟨rfl, nofun, fun _ => Or.inr ((scheduleActivities_steps s.engine.activities 0).2 hsched)⟩
      | loopFork atype codes activities _ _ _ hsched =>
          exact ⟨(scheduleActivities_steps s.engine.activities 0).1 codes activities hsched, Or.inl, Or.inl⟩
      | closingFails _ _ => exact ⟨rfl, nofun, nofun⟩
      | startTime _ _ _ | setNsync _ | firstClock _ | evmRunning _ | noActivities _ _ | loopSkip _ _ _ | loopWait _ _ _
      | loopEnd _ _ | terminate _ _ _ | goOn _ _ | moreEvents _ | pass _ _ _ _ | arrive _ _ _ | leave _ _ _ _
      | clockStop _ _ | clockScan _ _ _ | clockDriven _ _ _ | stopController _ | timeStop _ | closing _ _ | wait _ _
      | completed _ _ | woken _ _ | finiRunning _ | finiStop _ => exact .same rfl rfl
  | ctl =>
      cases Env.CtlStep.of hs with
      | popCrash evList _ _ hW => exact ⟨rfl, fun _ => Or.inr hW, nofun⟩
      | pop _ _ _ _ | batchWait _ _ | batchEnd _ | «begin» _ | firstClock _ | setRunning _ | pass _ _ _ _ | arrive _ _ _
      | leave _ _ _ _ | clock _ | stops _ _ | early _ _ _ | goOn _ _ _ | popNone _ _ | signal _ | setNotRunning _ =>
          exact .same rfl rfl
  | slice w =>
      cases Env.SliceStep.of hs <;> first | exact .same rfl rfl | exact ⟨rfl, nofun, nofun⟩
  | schedule src ev time =>
      obtain ⟨-, rfl⟩ := Env.scheduleStep_cases hs
      exact .same rfl rfl

/-- **The steps of a run.** -/
theorem Keeps.step [DecidableEq δ] {s s' : Sim W m δ} {a : SimAction W m δ} (hs : s.step cfg a = some s') :
    Keeps s.env s'.env := by
  obtain ⟨-, ⟨b, env, -, hown, rfl⟩ | ⟨b, p, e, env, -, -, hobs, rfl⟩ | ⟨b, p, e, env, -, -, hobs, rfl⟩⟩ :=
    Sim.step_cases hs
  · exact .own hown
  · cases Env.EvmStep.of hobs <;> exact .same rfl rfl
  · cases Env.EngStep.of hobs <;> exact .same rfl rfl

/-- The activities keep the steps that they have been bound with. -/
theorem steps_reachable [DecidableEq δ] {s : Sim W m δ} (h : Lts.Reachable (system cfg W m δ) s) :
    s.env.engine.activities.map (·.nsteps) = cfg.activities.map (·.nsteps) := by
  refine h.invariant (I := fun s => s.env.engine.activities.map (·.nsteps) = cfg.activities.map (·.nsteps))
    (fun s hs => ?_) fun s a s' hi _ hs => (Keeps.step hs).steps.trans hi
  obtain ⟨qsize, qsize', rfl⟩ := hs
  rfl

theorem nonzero_steps [DecidableEq δ] {s : Sim W m δ} (h : Lts.Reachable (system cfg W m δ) s) :
    (∀ a ∈ s.env.engine.activities, a.nsteps ≠ 0) ↔ ∀ a ∈ cfg.activities, a.nsteps ≠ 0 := by
  have hsteps := steps_reachable h
  have hlist : ∀ l : List CsUserActivity, (∀ a ∈ l, a.nsteps ≠ 0) ↔ ∀ k ∈ l.map (·.nsteps), k ≠ 0 := fun l => by simp
  rw [hlist, hlist, hsteps]

/-- A run whose divisors are not zero does not divide by zero. -/
theorem not_divided [DecidableEq δ] (hW : W ≠ 0) (hacts : ∀ a ∈ cfg.activities, a.nsteps ≠ 0) {s : Sim W m δ}
    (h : Lts.Reachable (system cfg W m δ) s) : ¬ DividedByZero s := by
  refine h.invariant_of (P := fun s => ∀ a ∈ s.env.engine.activities, a.nsteps ≠ 0) (I := fun s => ¬ DividedByZero s)
    (fun s hs => (nonzero_steps hs).2 hacts) (fun s hs => ?_) fun s a s' hnonzero _ hi _ hs => ?_
  · obtain ⟨qsize, qsize', rfl⟩ := hs
    rintro (hfailed | hfailed) <;> cases hfailed
  · have hkeeps := Keeps.step hs
    rintro (hguards | htest)
    · exact (hkeeps.guards hguards).elim (fun hold => hi (Or.inl hold)) hW
    · rcases hkeeps.test htest with hold | ⟨b, hb, hzero⟩
      · exact hi (Or.inr hold)
      · exact hnonzero b hb hzero

end Runs

/-- **The divisors of an accepted simulation are exactly those that its program has asked for**: the number of
workers of the engine is never zero, and in all reachable states of all runs the other divisors are not
zero, and no run divides by zero, if and only if the event manager was not initialised for zero workers and
no activity was bound with the step zero. -/
theorem no_division_by_zero {δ : Type} [DecidableEq δ] (nworkers wpNworkers : BitVec 32) (binds : List Bind)
    (st : SimType) (handlers : List String) (evm : EventManager) (hevm : csInitEventManager nworkers = some evm)
    (m : Nat) (heng : csInitEngine wpNworkers = some m) :
    ∃ alist, bindAll m binds = some alist ∧
      ((∀ s : Sim (evm.wp - 1) m δ, Lts.Reachable (system ⟨st, alist, handlers⟩ (evm.wp - 1) m δ) s →
          NonzeroDivisors evm s ∧ ¬ DividedByZero s) ↔
        nworkers ≠ 0 ∧ ∀ b ∈ binds, b.Appended → b.nsteps ≠ 0) := by
  obtain ⟨hntasks, hwp, hnonneg⟩ := csInitEventManager_wp hevm
  have hm := csInitEngine_pos heng
  obtain ⟨alist, hbind, hsteps⟩ := bindAll_steps hm binds
  refine ⟨alist, hbind, fun hall => ?_, fun ⟨hworkers, hbinds⟩ s hs => ?_⟩
  · have hstart : Lts.Reachable (system ⟨st, alist, handlers⟩ (evm.wp - 1) m δ)
        { env := .init ⟨st, alist, handlers⟩, evmWp := csWpInit _ _ 0, engWp := csWpInit _ _ 0 } :=
      .of_init ⟨0, 0, rfl⟩
    obtain ⟨⟨hguards, hacts, -⟩, -⟩ := hall _ hstart
    exact ⟨hntasks ▸ hguards, hsteps.1 ((nonzero_steps hstart).1 hacts)⟩
  · have hacts := hsteps.2 hbinds
    have hW : evm.wp - 1 ≠ 0 := by
      have hne : nworkers.toInt ≠ 0 := fun hzero => hworkers (BitVec.toInt_inj.1 hzero)
      omega
    exact ⟨⟨hntasks ▸ hworkers, (nonzero_steps hs).2 hacts, hm⟩, not_divided hW hacts hs⟩

/-- Ten workers for events, five for one activity with a thousand items and step 1. -/
theorem no_division_by_zero_ten : ∃ alist, bindAll 5 [⟨1000, 1, .user⟩] = some alist ∧
    ∀ s : Sim 10 5 Unit, Lts.Reachable (system ⟨.activityScan, alist, []⟩ 10 5 Unit) s →
      NonzeroDivisors ⟨11, 11⟩ s ∧ ¬ DividedByZero s := by
  obtain ⟨alist, hbind, hiff⟩ := no_division_by_zero (δ := Unit) 10 5 [⟨1000, 1, .user⟩] .activityScan [] ⟨11, 11⟩
    (by decide) 5 (by decide)
  refine ⟨alist, hbind, hiff.2 ⟨by decide, fun b hb _ => ?_⟩⟩
  rw [List.mem_singleton.1 hb]
  decide

/-- The engine starts the event controller and, with the step `a`, its own pool, and tick 1 begins. -/
def startsTick {W m : Nat} (a : SimAction W m Unit) : List (SimAction W m Unit) :=
  List.flatten [
    [.own .simStart], List.replicate 4 (.own (.engine false)),
    [.evm .start, .evm (.callEnqueue (.ext 0) .controller), .evm (.call (.ext 0)), .evm (.create (.ext 0) 1)],
    List.replicate 4 (.evm (.call (.ext 0))), List.replicate 6 (.evm .controller),
    List.replicate 3 (.evm (.worker ctlWorker)), List.replicate 4 (.own .ctl), [a], List.replicate 5 (.own (.engine false))]

/-- An event manager for zero workers is initialised, with one worker that performs the controller; the
controller divides the events of the first tick that has some among zero tasks. An activity is bound with
step 0; the first test after its first execution divides by it. -/
theorem divides_by_zero :
    (csInitEventManager 0 = some ⟨1, 1⟩ ∧ csInitEngine 1 = some 1 ∧
      ∃ s : Sim 0 1 Unit, Lts.Reachable (system ⟨.eventDriven, [], ["tick"]⟩ 0 1 Unit) s ∧
        s.env.failed = some .guardSpacing) ∧
    csInitEventManager 1 = some ⟨2, 2⟩ ∧ bindAll 1 [⟨1, 0, .user⟩] = some [⟨0, 1, -1, .user⟩] ∧
      ∃ s : Sim 1 1 Unit, Lts.Reachable (system ⟨.activityScan, [⟨0, 1, -1, .user⟩], []⟩ 1 1 Unit) s ∧
        s.env.failed = some .stepTest := by
  refine ⟨⟨by decide, by decide, ?_⟩, by decide, by decide, ?_⟩
  · obtain ⟨s, hs, hp⟩ := Lts.exec_of_any (f := Sim.step ⟨.eventDriven, [], ["tick"]⟩)
      (s := { env := .init ⟨.eventDriven, [], ["tick"]⟩, evmWp := csWpInit 1 (EvTask Unit) 10, engWp := csWpInit 1 UserTask 10 })
      (p := fun s => decide (s.env.failed = some .guardSpacing))
      (l := List.flatten [[.own (.schedule .main ⟨some "tick", ()⟩ 1)], startsTick (.own (.engine false)),
        List.replicate 4 (.own .ctl)])
      (by decide +kernel)
    exact ⟨s, Lts.exec_reachable ⟨10, 10, rfl⟩ hs, of_decide_eq_true hp⟩
  · obtain ⟨s, hs, hp⟩ := Lts.exec_of_any (f := Sim.step ⟨.activityScan, [⟨0, 1, -1, .user⟩], []⟩)
      (s := { env := .init ⟨.activityScan, [⟨0, 1, -1, .user⟩], []⟩, evmWp := csWpInit 2 (EvTask Unit) 20
              engWp := csWpInit 1 UserTask 10 })
      (p := fun s => decide (s.env.failed = some .stepTest))
      (l := List.flatten [startsTick (.eng .start),
        [.own (.engine false), .eng (.callEnqueue (.ext 0) ⟨.user, 0, 0⟩), .eng (.call (.ext 0)), .eng (.create (.ext 0) 1)],
        List.replicate 4 (.eng (.call (.ext 0))), [.own (.engine false), .eng (.callWait (.ext 0) 1)],
        List.replicate 6 (.eng .controller), List.replicate 3 (.eng (.worker 0)), [.eng (.taskReturn 0)],
        List.replicate 3 (.eng (.worker 0)), List.replicate 2 (.eng (.call (.ext 0))), [.own (.engine false)],
        List.replicate 5 (.own .ctl), List.replicate 2 (.own (.engine false))])
      (by decide +kernel)
    exact ⟨s, Lts.exec_reachable ⟨20, 10, rfl⟩ hs, of_decide_eq_true hp⟩

end ComplexSim.Divisors
