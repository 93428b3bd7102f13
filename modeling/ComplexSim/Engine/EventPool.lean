import ComplexSim.Engine.Steps
import ComplexSim.Lib.Pieces

/-!
# The controller and its event workers

What ties the threads of the event manager to its pool: the tasks that the controller
has enqueued for the list of a tick, those that it still waits for, and the walks of
the event workers that run. `rem` gives, for each guard index, the events that are still
to be thrown from there; with the events thrown they make up the events popped.

A pool that is shut down while the controller enqueues loses its tasks. `lossy` says
that this may have happened.
-/

namespace ComplexSim.Engine

open Workerpool Events

variable {W m : Nat} {δ : Type}

/-- The name of an event worker is its guard index. -/
def sliceKey : EvTask δ → Option Nat
  | .controller => none
  | .slice d => some d.guardIndex

/-- The events that a task throws. -/
def EvTask.dues : EvTask δ → List (Due δ)
  | .controller => []
  | .slice d => d.dues

/-- The events that a walk has still to throw. -/
def SliceRun.left (r : SliceRun δ) : List (Due δ) :=
  (r.curEv.take (r.data.numEvents - r.c).toNat).map (⟨·, r.data.scheduledAt⟩)

namespace CtlPc

/-- The tasks that the controller has still to enqueue. -/
def codes : CtlPc δ → List (EvTask δ)
  | .batch j => j.codes
  | _ => []

/-- The ids that the controller has still to wait for. -/
def pending : CtlPc δ → List Int
  | .batch j => j.pending
  | _ => []

/-- The controller is in a call of its pool. -/
def calling : CtlPc δ → Bool
  | .batch j => j.calling
  | _ => false

end CtlPc

/-- The code that each worker runs for the controller. -/
def Env.walks (s : Env W m δ) (w : Fin (W + 1)) : Option (EvTask δ) :=
  (s.slices w).map fun r => .slice r.data

/-- The task is for a guard of the list of time `time`, and its walk stays inside the chain. -/
structure Fits (W : Nat) (time : Int) (d : EventWorkerData δ) : Prop where
  index : d.guardIndex < W
  time : d.scheduledAt = time
  nonneg : 0 ≤ d.numEvents
  inside : d.numEvents ≤ d.guard.length

/-- The events still to be thrown for a guard, by where its task is. -/
def RemOk (slices : Fin (W + 1) → Option (SliceRun δ)) (p : TaskPool (W + 1) (EvTask δ)) :
    Spot (EvTask δ) → List (Due δ) → Prop
  | .nowhere, r => r = []
  | .listed x, r | .calling x, r => r = x.dues
  | .task t x, r => (p.phase t = .queued x → r = x.dues) ∧
      ∀ w, p.phase t = .running x w → ∃ run, slices w = some run ∧ r = run.left

theorem RemOk.phase {slices slices' : Fin (W + 1) → Option (SliceRun δ)}
    {p p' : TaskPool (W + 1) (EvTask δ)} {t : TskId} {x : EvTask δ} {r : List (Due δ)}
    (h : RemOk slices p (.task t x) r) (hphase : p'.phase t = p.phase t)
    (hslices : ∀ w, p.phase t = .running x w → slices' w = slices w) : RemOk slices' p' (.task t x) r := by
  refine ⟨fun hq => h.1 (hphase ▸ hq), fun w hw => ?_⟩
  have hold := hphase ▸ hw
  obtain ⟨run, hrun, hr⟩ := h.2 w hold
  exact ⟨run, (hslices w hold).trans hrun, hr⟩

/-- What is kept for a place: nothing, if it is none. -/
def keeps {α β : Type} (l : Spot α) (r : List β) : List β :=
  match l with
  | .nowhere => []
  | _ => r

/-- The threads of the event manager and its pool. -/
structure EvmLink (lossy : Prop) (s : Env W m δ) (p : TaskPool (W + 1) (EvTask δ))
    (spot : Nat → Spot (EvTask δ)) (rem : Nat → List (Due δ)) : Prop where
  performs : Performs p sliceKey s.walks
  forked : Forked p (.task s.ctl.worker) sliceKey s.ctl.pc.codes s.ctl.pc.pending s.ctl.pc.calling spot
  idleExt : ∀ k, p.calls (.ext (k + 1)) = .idle
  idleMain : (∀ b, s.engine.pc ≠ .start b .inEnqueue) → p.calls (.ext 0) = .idle
  idleTask : ∀ w, w ≠ s.ctl.worker → p.calls (.task w) = .idle
  unstarted : p.started = false → s.ctl.pc = .off ∧ (∀ t x, ¬ p.Active t x) ∧
    s.engine.pc.starting = false
  fits : ∀ c x, (spot c).code = some x → ∃ d, x = .slice d ∧ Fits W s.ctl.curTime d
  remOk : ∀ c, RemOk s.slices p (spot c) (rem c)
  inside : ∀ w r, s.slices w = some r → r.data.numEvents - r.c ≤ r.curEv.length
  popped : lossy ∨ s.log.popped.Perm (s.log.thrown.map Prod.fst ++ (List.range W).flatMap rem)

namespace EvmLink

variable {lossy : Prop} {s s' : Env W m δ} {p p' : TaskPool (W + 1) (EvTask δ)}
  {spot : Nat → Spot (EvTask δ)} {rem : Nat → List (Due δ)} {cfg : Config}

theorem init (lossy : Prop) (cfg : Config) :
    EvmLink lossy (Env.init cfg : Env W m δ) (.init _ _) (fun _ => .nowhere) (fun _ => []) where
  performs := .init
  forked := Quiet.forked
    ⟨fun t x h => by simp [TaskPool.init, TaskPool.Active] at h, fun j x h => by simp [TaskPool.init] at h⟩ rfl
  idleExt := fun _ => rfl
  idleMain := fun _ => rfl
  idleTask := fun _ _ => rfl
  unstarted := fun _ => ⟨rfl, fun t x h => by simp [TaskPool.init, TaskPool.Active] at h, rfl⟩
  fits := fun c x h => by simp [Spot.code] at h
  remOk := fun c => rfl
  inside := fun w r h => by simp [Env.init] at h
  popped := Or.inr (by simp [Env.init])

theorem codes_eq_nil {pc : CtlPc δ} (hpc : ∀ j, pc ≠ .batch j) :
    pc.codes = [] ∧ pc.pending = [] ∧ pc.calling = false := by
  cases pc with
  | batch j => exact absurd rfl (hpc j)
  | _ => exact ⟨rfl, rfl, rfl⟩

/-- Where the controller has no tasks, all is quiet. -/
theorem quiet (h : EvmLink lossy s p spot rem) (hpc : ∀ j, s.ctl.pc ≠ .batch j) : Quiet p sliceKey := by
  have hforked := h.forked
  obtain ⟨hcodes, hpending, hcalling⟩ := codes_eq_nil hpc
  rw [hcodes, hpending, hcalling] at hforked
  exact hforked.quiet

theorem nowhere (h : EvmLink lossy s p spot rem) (hpc : ∀ j, s.ctl.pc ≠ .batch j) (c : Nat) :
    spot c = .nowhere := by
  have htracks := h.forked.tracks
  rw [(codes_eq_nil hpc).1] at htracks
  exact htracks.nowhere (h.quiet hpc) c

/-- A step that leaves the controller, the walks and their records alone. -/
theorem keep (h : EvmLink lossy s p spot rem) (hctl : s'.ctl = s.ctl) (hslices : s'.slices = s.slices)
    (hpopped : s'.log.popped = s.log.popped) (hthrown : s'.log.thrown = s.log.thrown)
    (hpc : s'.engine.pc = s.engine.pc ∨ s.engine.pc.starting = false ∧ s'.engine.pc.starting = false) :
    EvmLink lossy s' p spot rem where
  performs := by
    have hwalks : s'.walks = s.walks := by unfold Env.walks; rw [hslices]
    exact hwalks ▸ h.performs
  forked := by rw [hctl]; exact h.forked
  idleExt := h.idleExt
  idleMain := fun hb => by
    rcases hpc with hpc | ⟨hpc, -⟩
    · exact h.idleMain fun b hb' => hb b (hpc.trans hb')
    · exact h.idleMain fun b hb' => by simp [hb', EnginePc.starting] at hpc
  idleTask := by rw [hctl]; exact h.idleTask
  unstarted := fun hs => by
    obtain ⟨hoff, hactive, hstarting⟩ := h.unstarted hs
    rw [hctl]
    refine ⟨hoff, hactive, ?_⟩
    rcases hpc with hpc | ⟨-, hpc⟩
    · rw [hpc]; exact hstarting
    · exact hpc
  fits := by rw [hctl]; exact h.fits
  remOk := by rw [hslices]; exact h.remOk
  inside := by rw [hslices]; exact h.inside
  popped := by rw [hpopped, hthrown]; exact h.popped

/-- A step of the controller that neither takes on tasks nor gives them up. -/
theorem ctlMove (h : EvmLink lossy s p spot rem) (hcodes : s'.ctl.pc.codes = s.ctl.pc.codes)
    (hpending : s'.ctl.pc.pending = s.ctl.pc.pending)
    (hcalling : s'.ctl.pc.calling = s.ctl.pc.calling) (hoff : s.ctl.pc ≠ .off)
    (hcur : s'.ctl.curTime = s.ctl.curTime ∨ ∀ j, s.ctl.pc ≠ .batch j) (hengine : s'.engine = s.engine)
    (hworker : s'.ctl.worker = s.ctl.worker) (hslices : s'.slices = s.slices)
    (hpopped : s'.log.popped = s.log.popped) (hthrown : s'.log.thrown = s.log.thrown) :
    EvmLink lossy s' p spot rem where
  performs := by
    have hwalks : s'.walks = s.walks := by unfold Env.walks; rw [hslices]
    exact hwalks ▸ h.performs
  forked := by rw [hcodes, hpending, hcalling, hworker]; exact h.forked
  idleExt := h.idleExt
  idleMain := by rw [hengine]; exact h.idleMain
  idleTask := by rw [hworker]; exact h.idleTask
  unstarted := fun hs => absurd (h.unstarted hs).1 hoff
  fits := fun c x hx => by
    rcases hcur with hcur | hold
    · rw [hcur]; exact h.fits c x hx
    · simp [h.nowhere hold c, Spot.code] at hx
  remOk := by rw [hslices]; exact h.remOk
  inside := by rw [hslices]; exact h.inside
  popped := by rw [hpopped, hthrown]; exact h.popped

/-- A step of the controller outside its batches. -/
theorem ctlQuiet (h : EvmLink lossy s p spot rem) (hold : ∀ j, s.ctl.pc ≠ .batch j)
    (hnew : ∀ j, s'.ctl.pc ≠ .batch j) (hoff : s.ctl.pc ≠ .off) (hengine : s'.engine = s.engine)
    (hworker : s'.ctl.worker = s.ctl.worker) (hslices : s'.slices = s.slices)
    (hpopped : s'.log.popped = s.log.popped) (hthrown : s'.log.thrown = s.log.thrown) :
    EvmLink lossy s' p spot rem := by
  obtain ⟨hcodes, hpending, hcalling⟩ := codes_eq_nil hold
  obtain ⟨hcodes', hpending', hcalling'⟩ := codes_eq_nil hnew
  exact h.ctlMove (hcodes'.trans hcodes.symm) (hpending'.trans hpending.symm)
    (hcalling'.trans hcalling.symm) hoff (Or.inr hold) hengine hworker hslices hpopped hthrown

/-- The controller takes on the tasks for a list. -/
theorem fork (h : EvmLink lossy s p spot rem) (hold : ∀ j, s.ctl.pc ≠ .batch j) (hoff : s.ctl.pc ≠ .off)
    (evList : CsEventList δ) (hW : W ≠ 0) (htime : evList.scheduledAt = s.ctl.curTime)
    (hpc : s'.ctl.pc = .batch (.enqueue ((sliceTasks evList W).map .slice) []))
    (hengine : s'.engine = s.engine) (hworker : s'.ctl.worker = s.ctl.worker)
    (hcur : s'.ctl.curTime = s.ctl.curTime) (hslices : s'.slices = s.slices)
    (hpopped : s'.log.popped = s.log.popped ++ evList.dues) (hthrown : s'.log.thrown = s.log.thrown) :
    ∃ spot' rem', EvmLink lossy s' p spot' rem' := by
  have hpos : 0 < W := Nat.pos_of_ne_zero hW
  have hdistinct : ((sliceTasks evList W).map EvTask.slice).Pairwise
      fun x y => sliceKey x ≠ sliceKey y :=
    List.pairwise_map.2 (sliceTasks_distinct.imp fun hne heq => hne (Option.some.inj heq))
  obtain ⟨spot', htracks, hspot⟩ := (h.quiet hold).fork (k := .task s.ctl.worker) hdistinct
  -- a guard has the events of the one task with its index to throw
  have hcase : ∀ c, spot' c = .nowhere ∧ (∀ d ∈ sliceTasks evList W, d.guardIndex ≠ c) ∨
      ∃ d ∈ sliceTasks evList W, d.guardIndex = c ∧ spot' c = .listed (.slice d) := fun c => by
    rcases hspot c with ⟨hno, hkeys⟩ | ⟨x, hx, hkey, hlisted⟩
    · exact Or.inl ⟨hno, fun d hd hc => hkeys _ (List.mem_map_of_mem hd) (congrArg some hc)⟩
    · obtain ⟨d, hd, rfl⟩ := List.mem_map.1 hx
      exact Or.inr ⟨d, hd, Option.some.inj hkey, hlisted⟩
  have hidle : p.calls (.task s.ctl.worker) = .idle := by
    have hidle := h.forked.idle
    rw [(codes_eq_nil hold).2.2] at hidle
    exact hidle rfl
  have hrem : ∀ c, rem c = [] := fun c => by
    have hremOk := h.remOk c
    rw [h.nowhere hold c] at hremOk
    exact hremOk
  refine ⟨spot', fun c => ((sliceTasks evList W).filter (·.guardIndex = c)).flatMap EventWorkerData.dues,
    ?_, ?_, h.idleExt, ?_, ?_, fun hs => absurd (h.unstarted hs).1 hoff, fun c x hx => ?_, fun c => ?_,
    ?_, ?_⟩
  · have hwalks : s'.walks = s.walks := by unfold Env.walks; rw [hslices]
    exact hwalks ▸ h.performs
  · rw [hpc, hworker]
    exact ⟨htracks, (h.quiet hold).joined _, fun _ => hidle⟩
  · rw [hengine]; exact h.idleMain
  · rw [hworker]; exact h.idleTask
  · rcases hcase c with ⟨hno, -⟩ | ⟨d, hd, rfl, hlisted⟩
    · simp [hno, Spot.code] at hx
    · obtain ⟨hindex, hsched, hnonneg, hinside⟩ := sliceTasks_spec hpos hd
      simp only [hlisted, Spot.code, Option.some.injEq] at hx
      exact ⟨d, hx.symm, hindex, hsched.trans (htime.trans hcur.symm), hnonneg, hinside⟩
  · rcases hcase c with ⟨hno, hkeys⟩ | ⟨d, hd, rfl, hlisted⟩
    · rw [hno]
      show List.flatMap _ _ = []
      rw [List.filter_eq_nil_iff.2 (by simpa using hkeys), List.flatMap_nil]
    · rw [hlisted]
      show List.flatMap _ _ = d.dues
      rw [filter_key_eq sliceTasks_distinct hd, List.flatMap_singleton]
  · rw [hslices]; exact h.inside
  · refine h.popped.imp_right fun hperm => ?_
    rw [hpopped, hthrown]
    have hnil : (List.range W).flatMap rem = [] := by simp [hrem]
    rw [hnil, List.append_nil] at hperm
    refine hperm.append ?_
    rw [← sliceTasks_dues hpos]
    exact (flatMap_filter_perm (fun d hd => (sliceTasks_spec hpos hd).1) _).symm

/-- The steps of the controller. -/
theorem ctlStep (h : EvmLink lossy s p spot rem) (hW : W ≠ 0) (hs : s.CtlStep s') :
    ∃ spot' rem', EvmLink lossy s' p spot' rem' := by
  have hret : ∀ (r : Int) (j : Join (EvTask δ)),
      (if r < 0 then CtlPc.setNotRunning else .clock : CtlPc δ) ≠ .batch j := fun r j => by split <;> nofun
  cases hs with
  | pop evList hpc hpop _ =>
      exact h.fork (by simp [hpc]) (by simp [hpc]) evList hW (popEvents_time hpop) rfl rfl rfl rfl rfl rfl rfl
  | popCrash _ _ _ hzero => exact absurd hzero hW
  | batchWait ids hpc | batchEnd hpc =>
      exact ⟨spot, rem, h.ctlMove (by rw [hpc]; rfl) (by rw [hpc]; rfl) (by rw [hpc]; rfl) (by simp [hpc])
        (Or.inl rfl) rfl rfl rfl rfl rfl⟩
  | pass _ r hpc _ | leave _ r hpc _ =>
      exact ⟨spot, rem, h.ctlQuiet (by simp [hpc]) (hret r) (by simp [hpc]) rfl rfl rfl rfl rfl⟩
  | «begin» hpc | firstClock hpc | setRunning hpc | arrive _ hpc _ | clock hpc | stops hpc _
  | early hpc _ _ | goOn hpc _ _ | popNone hpc _ | signal hpc | setNotRunning hpc =>
      exact ⟨spot, rem, h.ctlQuiet (by simp [hpc]) (by simp) (by simp [hpc]) rfl rfl rfl rfl rfl⟩

/-- Where the walk of a worker is. -/
theorem walk_spot (h : EvmLink lossy s p spot rem) {w : Fin (W + 1)} {r : SliceRun δ}
    (hr : s.slices w = some r) : ∃ t, p.phase t = .running (.slice r.data) w ∧
      spot r.data.guardIndex = .task t (.slice r.data) ∧ rem r.data.guardIndex = r.left ∧
      Fits W s.ctl.curTime r.data := by
  have hwalk : s.walks w = some (.slice r.data) := by simp [Env.walks, hr]
  obtain ⟨t, ht⟩ := (h.performs.runs w _ (by simp [sliceKey])).1 hwalk
  have hspot : spot r.data.guardIndex = .task t (.slice r.data) :=
    (h.forked.tracks.task t _ _ rfl).1 (Or.inr ⟨w, ht⟩)
  have hremOk := h.remOk r.data.guardIndex
  rw [hspot] at hremOk
  obtain ⟨run, hrun, hrem⟩ := hremOk.2 w ht
  rw [hr] at hrun
  cases hrun
  obtain ⟨d, hd, hfits⟩ := h.fits r.data.guardIndex (.slice r.data) (by rw [hspot]; rfl)
  cases hd
  exact ⟨t, ht, hspot, hrem, hfits⟩

/-- The walk of a worker goes on, and throws the events `x`. -/
theorem walk (h : EvmLink lossy s p spot rem) {w : Fin (W + 1)} {r : SliceRun δ} (r' : SliceRun δ) {x : List (Due δ)}
    (hr : s.slices w = some r) (hdata : r'.data = r.data) (hleft : r.left = x ++ r'.left)
    (hinside : r'.data.numEvents - r'.c ≤ r'.curEv.length) (hctl : s'.ctl = s.ctl)
    (hengine : s'.engine = s.engine) (hslices : s'.slices = Function.update s.slices w (some r'))
    (hpopped : s'.log.popped = s.log.popped)
    (hthrown : s'.log.thrown.map Prod.fst = s.log.thrown.map Prod.fst ++ x) :
    ∃ rem', EvmLink lossy s' p spot rem' := by
  obtain ⟨t, ht, hspot, hrem, hfits⟩ := h.walk_spot hr
  refine ⟨Function.update rem r.data.guardIndex r'.left, ?_, by rw [hctl]; exact h.forked, h.idleExt,
    by rw [hengine]; exact h.idleMain, by rw [hctl]; exact h.idleTask,
    by rw [hctl, hengine]; exact h.unstarted, by rw [hctl]; exact h.fits, fun c => ?_,
    fun v run hrun => ?_, ?_⟩
  · have hwalks : s'.walks = s.walks := by
      funext v
      unfold Env.walks
      rw [hslices]
      by_cases hv : v = w
      · subst hv; simp [hr, hdata]
      · rw [Function.update_of_ne hv]
    exact hwalks ▸ h.performs
  · by_cases hc : c = r.data.guardIndex
    · subst hc
      rw [hspot, Function.update_self]
      refine ⟨fun hq => ?_, fun v hv => ?_⟩
      · rw [ht] at hq; cases hq
      · rw [ht] at hv
        cases hv
        exact ⟨r', by rw [hslices, Function.update_self], rfl⟩
    · rw [Function.update_of_ne hc]
      have hremOk := h.remOk c
      cases hl : spot c with
      | task u x =>
          rw [hl] at hremOk
          refine ⟨hremOk.1, fun v hv => ?_⟩
          obtain ⟨run, hrun, hleft'⟩ := hremOk.2 v hv
          have hvw : v ≠ w := by
            rintro rfl
            -- the worker runs one task only, and its guard is another
            have hut := h.performs.solo v u t x _ hv ht
            subst hut
            rw [hv] at ht
            cases ht
            have hkey := h.forked.tracks.names c _ (by rw [hl]; rfl)
            exact hc (Option.some.inj hkey).symm
          exact ⟨run, by rw [hslices, Function.update_of_ne hvw]; exact hrun, hleft'⟩
      | nowhere | listed x | calling x => rw [hl] at hremOk; exact hremOk
  · rw [hslices] at hrun
    by_cases hv : v = w
    · subst hv
      rw [Function.update_self] at hrun
      cases hrun
      exact hinside
    · rw [Function.update_of_ne hv] at hrun
      exact h.inside v run hrun
  · refine h.popped.imp_right fun hperm => ?_
    rw [hpopped, hthrown, List.append_assoc]
    refine hperm.trans (List.Perm.append_left _ ?_)
    refine flatMap_perm_of_mem List.nodup_range (List.mem_range.2 hfits.index) ?_ fun d hd => (Function.update_of_ne hd _ _).symm
    rw [Function.update_self, hrem, hleft]

theorem left_cons {r : SliceRun δ} {ev : CsEvent δ} {rest : List (CsEvent δ)}
    (hlt : (r.c : Int) < r.data.numEvents) (hcur : r.curEv = ev :: rest) :
    r.left = ⟨ev, r.data.scheduledAt⟩ ::
      (rest.take (r.data.numEvents - (r.c + 1 : Nat)).toNat).map (⟨·, r.data.scheduledAt⟩) := by
  have hsucc : (r.data.numEvents - r.c).toNat = (r.data.numEvents - (r.c + 1 : Nat)).toNat + 1 := by omega
  rw [SliceRun.left, hcur, hsucc, List.take_succ_cons, List.map_cons]

theorem inside_tail {r : SliceRun δ} {ev : CsEvent δ} {rest : List (CsEvent δ)}
    (h : r.data.numEvents - r.c ≤ r.curEv.length) (hcur : r.curEv = ev :: rest) :
    r.data.numEvents - (r.c + 1 : Nat) ≤ rest.length := by
  rw [hcur, List.length_cons] at h
  push_cast at h ⊢
  omega

/-- The steps of an event worker. -/
theorem sliceStep (h : EvmLink lossy s p spot rem) {w : Fin (W + 1)} (hs : s.SliceStep cfg w s') :
    ∃ rem', EvmLink lossy s' p spot rem' := by
  cases hs with
  | nullEvent | eventType => exact ⟨rem, h.keep rfl rfl rfl rfl (Or.inl rfl)⟩
  | handled r ev hr hev =>
      exact h.walk { r with handling := none } hr rfl (List.nil_append _).symm (h.inside w r hr)
        rfl rfl rfl rfl (List.append_nil _).symm
  | throw r ev rest etype hr hno hlt hcur _ _ =>
      exact h.walk (x := [_]) { r with c := r.c + 1, curEv := rest, handling := some ev } hr rfl
        (left_cons hlt hcur) (inside_tail (h.inside w r hr) hcur) rfl rfl rfl rfl (by simp)
  | noHandler r ev rest etype hr hno hlt hcur _ _ =>
      exact h.walk (x := [_]) { r with c := r.c + 1, curEv := rest } hr rfl
        (left_cons hlt hcur) (inside_tail (h.inside w r hr) hcur) rfl rfl rfl rfl (by simp)

/-- **The steps outside the pools.** -/
theorem own (h : EvmLink lossy s p spot rem) (hW : W ≠ 0) {a : EnvAction W m δ}
    (hs : s.step cfg a = some s') : ∃ spot' rem', EvmLink lossy s' p spot' rem' := by
  cases a with
  | preStart r | simStart | fini =>
      obtain ⟨hpc, rfl⟩ := Env.mainStep_cases hs
      exact ⟨spot, rem, h.keep rfl rfl rfl rfl (Or.inr ⟨by rw [hpc]; rfl, rfl⟩)⟩
  | engine b =>
      have hstep := Env.EngineStep.of hs
      obtain ⟨hctl, hslices, -, hlog, -⟩ := hstep.frame
      exact ⟨spot, rem, h.keep hctl hslices (by rw [hlog]) (by rw [hlog]) (Or.inr hstep.starting)⟩
  | ctl => exact h.ctlStep hW (.of hs)
  | slice w => exact ⟨spot, h.sliceStep (.of hs)⟩
  | schedule src ev time =>
      obtain ⟨-, rfl⟩ := Env.scheduleStep_cases hs
      exact ⟨spot, rem, h.keep rfl rfl rfl rfl (Or.inl rfl)⟩

section PoolEvents

variable {e : PoolEvent (W + 1) (EvTask δ)} {spot' : Nat → Spot (EvTask δ)}

/-- A pool that has not been started has no place for a slice. -/
theorem started_of_spot (h : EvmLink lossy s p spot rem) {c : Nat} (hc : spot c ≠ .nowhere) :
    p.started = true ∧ ∃ j, s.ctl.pc = .batch j := by
  have hbatch : ∃ j, s.ctl.pc = .batch j := by
    by_contra hno
    exact hc (h.nowhere (fun j hj => hno ⟨j, hj⟩) c)
  refine ⟨?_, hbatch⟩
  by_contra hs
  obtain ⟨j, hj⟩ := hbatch
  have hoff := (h.unstarted (Bool.eq_false_iff.2 hs)).1
  rw [hj] at hoff
  cases hoff

/-- What a step of the pool does to the events still to be thrown: nothing, unless tasks are
lost. `hkeep` is for the tasks that go on, `hend` for those that end. -/
theorem moved (h : EvmLink lossy s p spot rem) (hloss : ∀ j, s.ctl.pc = .batch j → p.closed = true → lossy)
    (hmoved : ∀ c, Moved p p' e (spot c) (spot' c))
    (htracks : Tracks p' (.task s'.ctl.worker) sliceKey s'.ctl.pc.codes spot')
    (hkeep : ∀ t x r, sliceKey x ≠ none → p.Active t x → p'.Active t x →
      RemOk s.slices p (.task t x) r → RemOk s'.slices p' (.task t x) r)
    (hend : ∀ w t x r, e = .finished w t → p.phase t = .running x w →
      RemOk s.slices p (.task t x) r → r = []) :
    ∃ rem', (∀ c, RemOk s'.slices p' (spot' c) (rem' c)) ∧ (lossy ∨ rem' = rem) := by
  refine ⟨fun c => keeps (spot' c) (rem c), fun c => ?_, ?_⟩
  · show RemOk _ _ _ (keeps (spot' c) (rem c))
    have hremOk := h.remOk c
    have hm := hmoved c
    generalize hold : spot c = a at hm hremOk
    generalize hnew : spot' c = b at hm ⊢
    cases hm with
    | stay l =>
        cases a with
        | nowhere => rfl
        | listed x | calling x => exact hremOk
        | task t x =>
            have hkey := h.forked.tracks.names c x (by rw [hold]; rfl)
            exact hkeep t x _ (by simp [hkey]) ((h.forked.tracks.task t x c hkey).2 hold)
              ((htracks.task t x c hkey).2 hnew) hremOk
    | call x => exact hremOk
    | accept x t hphase =>
        refine ⟨fun _ => hremOk, fun w hw => ?_⟩
        rw [hphase] at hw
        cases hw
    | lost x hno | finish w t x he hr => rfl
  · by_contra hno
    obtain ⟨hlossy, hrem⟩ := not_or.1 hno
    refine hrem (funext fun c => ?_)
    show keeps (spot' c) (rem c) = rem c
    have hremOk := h.remOk c
    have hm := hmoved c
    generalize hold : spot c = a at hm hremOk
    generalize hnew : spot' c = b at hm ⊢
    cases hm with
    | stay l =>
        cases a with
        | nowhere => exact hremOk.symm
        | listed x | calling x | task t x => rfl
    | call x | accept x t hphase => rfl
    | lost x hlost =>
        obtain ⟨hstarted, j, hj⟩ := h.started_of_spot (c := c) (by rw [hold]; nofun)
        rw [hstarted] at hlost
        exact absurd (hloss j hj (hlost.resolve_left nofun)) hlossy
    | finish w t x he hr => exact (hend w t x _ he hr hremOk).symm

/-- A step of the pool, when it is known what becomes of the tasks. -/
theorem poolStep (h : EvmLink lossy s p spot rem)
    (hloss : ∀ j, s.ctl.pc = .batch j → p.closed = true → lossy)
    (hmoved : ∀ c, Moved p p' e (spot c) (spot' c)) (hperforms : Performs p' sliceKey s'.walks)
    (hforked : Forked p' (.task s'.ctl.worker) sliceKey s'.ctl.pc.codes s'.ctl.pc.pending
      s'.ctl.pc.calling spot')
    (hcur : s'.ctl.curTime = s.ctl.curTime) (hlog : s'.log = s.log)
    (hkeep : ∀ t x r, sliceKey x ≠ none → p.Active t x → p'.Active t x →
      RemOk s.slices p (.task t x) r → RemOk s'.slices p' (.task t x) r)
    (hend : ∀ w t x r, e = .finished w t → p.phase t = .running x w →
      RemOk s.slices p (.task t x) r → r = [])
    (hinside : ∀ w r, s'.slices w = some r → r.data.numEvents - r.c ≤ r.curEv.length)
    (hidleExt : ∀ k, p'.calls (.ext (k + 1)) = .idle)
    (hidleMain : (∀ b, s'.engine.pc ≠ .start b .inEnqueue) → p'.calls (.ext 0) = .idle)
    (hidleTask : ∀ w, w ≠ s'.ctl.worker → p'.calls (.task w) = .idle)
    (hunstarted : p'.started = false → s'.ctl.pc = .off ∧ (∀ t x, ¬ p'.Active t x) ∧
      s'.engine.pc.starting = false) :
    ∃ spot' rem', EvmLink lossy s' p' spot' rem' := by
  obtain ⟨rem', hremOk, hrem⟩ := h.moved hloss hmoved hforked.tracks hkeep hend
  refine ⟨spot', rem', hperforms, hforked, hidleExt, hidleMain, hidleTask, hunstarted, fun c x hx => ?_,
    hremOk, hinside, ?_⟩
  · rw [hcur]
    exact h.fits c x ((hmoved c).code hx)
  · rw [hlog]
    rcases hrem with hlossy | rfl
    · exact Or.inl hlossy
    · exact h.popped

/-- Before it is started, the pool has no tasks, and gets none. -/
theorem unstarted_step (h : EvmLink lossy s p spot rem) (hs : p.Step e p') (hno : p'.started = false) :
    s.ctl.pc = .off ∧ s.engine.pc.starting = false ∧ (∀ t x, ¬ p.Active t x) ∧ ∀ t x, ¬ p'.Active t x := by
  have hold : p.started = false := by
    by_contra hstarted
    rw [hs.started_mono (Bool.not_eq_false _ ▸ hstarted)] at hno
    cases hno
  obtain ⟨hoff, hactive, hstarting⟩ := h.unstarted hold
  have hidle : ∀ k, p.calls k = .idle := fun k => by
    match k with
    | .ext 0 => exact h.idleMain fun b hb => by simp [hb, EnginePc.starting] at hstarting
    | .ext (k + 1) => exact h.idleExt k
    | .task w =>
        by_cases hw : w = s.ctl.worker
        · exact hw ▸ h.forked.idle (by rw [hoff]; rfl)
        · exact h.idleTask w hw
  refine ⟨hoff, hstarting, hactive, fun t x hact => ?_⟩
  rcases hs.active hact with hact | ⟨k, hk, -⟩
  · exact hactive t x hact
  · rw [hidle k] at hk
    cases hk

theorem started_of_active (h : EvmLink lossy s p spot rem) (hs : p.Step e p') {t : TskId} {x : EvTask δ}
    (hact : p.Active t x) : p'.started = true := by
  by_contra hno
  exact (h.unstarted_step hs (Bool.eq_false_iff.2 hno)).2.2.1 t x hact

/-- A step of the pool in which no worker starts or ends a task. -/
theorem callStep (h : EvmLink lossy s p spot rem) (s' : Env W m δ) (hs : p.Step e p')
    (hloss : ∀ j, s.ctl.pc = .batch j → p.closed = true → lossy)
    (hstarted : ∀ w t x, e ≠ .started w t (some x)) (hfinished : ∀ w t, e ≠ .finished w t)
    (hmoved : ∀ c, Moved p p' e (spot c) (spot' c))
    (hforked : Forked p' (.task s'.ctl.worker) sliceKey s'.ctl.pc.codes s'.ctl.pc.pending
      s'.ctl.pc.calling spot')
    (hcur : s'.ctl.curTime = s.ctl.curTime) (hworker : s'.ctl.worker = s.ctl.worker)
    (hslices : s'.slices = s.slices) (hlog : s'.log = s.log)
    (hcaller : ∀ k, TaskPool.caller e = some k → k = .ext 0 ∨ k = .task s.ctl.worker)
    (hidleMain : (∀ b, s'.engine.pc ≠ .start b .inEnqueue) → p'.calls (.ext 0) = .idle)
    (hunstarted : p'.started = false → s.engine.pc.starting = false →
      s'.ctl.pc = s.ctl.pc ∧ s'.engine.pc.starting = false) :
    ∃ spot' rem', EvmLink lossy s' p' spot' rem' := by
  have hwalks : s'.walks = s.walks := by unfold Env.walks; rw [hslices]
  refine h.poolStep (e := e) hloss hmoved (hwalks ▸ h.performs.step hs hstarted hfinished) hforked hcur hlog
    ?_ (fun w t x r he => absurd he (hfinished w t)) (by rw [hslices]; exact h.inside) ?_ hidleMain ?_ ?_
  · intro t x r _ hact _ hremOk
    exact hremOk.phase (hs.phase_keep hstarted hfinished hact) fun w _ => by rw [hslices]
  · intro k
    refine hs.idle (h.idleExt k) fun hk => ?_
    rcases hcaller _ hk with hk | hk <;> simp at hk
  · intro w hw
    rw [hworker] at hw
    refine hs.idle (h.idleTask w hw) fun hk => ?_
    rcases hcaller _ hk with hk | hk
    · simp at hk
    · exact hw (by simpa using hk)
  · intro hno
    obtain ⟨hoff, hstarting, -, hactive⟩ := h.unstarted_step hs hno
    obtain ⟨hpc, hpc'⟩ := hunstarted hno hstarting
    exact ⟨hpc.trans hoff, hactive, hpc'⟩

/-- Steps of the pool that the controller and its workers have no part in. -/
theorem engineCall (h : EvmLink lossy s p spot rem) (pc : EnginePc) (hs : p.Step e p')
    (hloss : ∀ j, s.ctl.pc = .batch j → p.closed = true → lossy)
    (hstarted : ∀ w t x, e ≠ .started w t (some x)) (hfinished : ∀ w t, e ≠ .finished w t)
    (hcall : ∀ j x, e = .enqueueCall j x → sliceKey x = none)
    (hcaller : ∀ k, TaskPool.caller e = some k → k = .ext 0)
    (hidleMain : (∀ b, pc ≠ .start b .inEnqueue) → p'.calls (.ext 0) = .idle)
    (hunstarted : p'.started = false → s.engine.pc.starting = false → pc.starting = false) :
    ∃ spot' rem', EvmLink lossy (s.setEngine pc) p' spot' rem' := by
  obtain ⟨spot', hforked, hmoved⟩ :=
    h.forked.step hs (fun hk => nomatch hcaller _ hk) hcall
  exact h.callStep (s.setEngine pc) hs hloss hstarted hfinished hmoved hforked rfl rfl rfl rfl
    (fun k hk => Or.inl (hcaller k hk)) hidleMain fun hno hstarting => ⟨rfl, hunstarted hno hstarting⟩

/-- The controller or its last call begins or ends; it has no tasks. -/
theorem ctlCall (h : EvmLink lossy s p spot rem) (s' : Env W m δ) (hs : p.Step e p') (hold : ∀ j, s.ctl.pc ≠ .batch j)
    (hnew : ∀ j, s'.ctl.pc ≠ .batch j) (hperforms : Performs p' sliceKey s'.walks)
    (hslices : s'.slices = s.slices) (hengine : s'.engine = s.engine) (hlog : s'.log = s.log)
    (hcaller : TaskPool.caller e = none) (hcall : ∀ j x, e ≠ .enqueueCall j x)
    (hstarted : p'.started = true) :
    ∃ spot' rem', EvmLink lossy s' p' spot' rem' := by
  have hidle : ∀ k, p.calls k = .idle → p'.calls k = .idle := fun k hk => hs.idle hk (by simp [hcaller])
  have hidleTask : ∀ w, p.calls (.task w) = .idle := fun w => by
    by_cases hw : w = s.ctl.worker
    · exact hw ▸ h.forked.idle (codes_eq_nil hold).2.2
    · exact h.idleTask w hw
  have hquiet : Quiet p' sliceKey := (h.quiet hold).step hs fun j x he => absurd he (hcall j x)
  obtain ⟨hcodes, hpending, hcalling⟩ := codes_eq_nil hnew
  refine ⟨fun _ => .nowhere, rem, hperforms, ?_, fun k => hidle _ (h.idleExt k), ?_,
    fun w _ => hidle _ (hidleTask w), ?_, ?_, fun c => ?_, ?_, ?_⟩
  · rw [hcodes, hpending, hcalling]
    exact hquiet.forked (hidle _ (hidleTask _))
  · rw [hengine]
    exact fun hb => hidle _ (h.idleMain hb)
  · intro hno
    rw [hstarted] at hno
    cases hno
  · intro c x hx
    cases hx
  · have hremOk := h.remOk c
    rw [h.nowhere hold c] at hremOk
    exact hremOk
  · rw [hslices]
    exact h.inside
  · rw [hlog]
    exact h.popped

/-- A worker starts the task for a guard. -/
theorem sliceStarts (h : EvmLink lossy s p spot rem) {w : Fin (W + 1)} {t : TskId} {d : EventWorkerData δ}
    (hs : p.Step (.started w t (some (.slice d))) p')
    (hloss : ∀ j, s.ctl.pc = .batch j → p.closed = true → lossy)
    (hslices : s'.slices = Function.update s.slices w
      (some { data := d, c := 0, curEv := d.guard, handling := none }))
    (hctl : s'.ctl = s.ctl) (hengine : s'.engine = s.engine) (hlog : s'.log = s.log) :
    ∃ spot' rem', EvmLink lossy s' p' spot' rem' := by
  obtain ⟨spot', hforked, hmoved⟩ := h.forked.step hs nofun nofun
  have hwalks : s'.walks = Function.update s.walks w (some (.slice d)) := by
    funext v
    unfold Env.walks
    rw [hslices]
    by_cases hv : v = w
    · subst hv; simp
    · simp [Function.update_of_ne hv]
  obtain ⟨hq, hfree, hphase⟩ : p.phase t = .queued (.slice d) ∧ (∀ u y, p.phase u ≠ .running y w) ∧
      p'.phase = Function.update p.phase t (.running (.slice d) w) := by
    cases hs with
    | started _ _ _ hq hfree => exact ⟨hq, hfree, rfl⟩
  have hspot : spot d.guardIndex = .task t (.slice d) :=
    (h.forked.tracks.task t _ _ rfl).1 (Or.inl hq)
  obtain ⟨d', hd', hfits⟩ := h.fits d.guardIndex (.slice d) (by rw [hspot]; rfl)
  cases hd'
  refine h.poolStep hloss hmoved (hwalks ▸ h.performs.started hs (by simp [sliceKey]))
    (by rw [hctl]; exact hforked) (by rw [hctl]) hlog ?_ nofun ?_ ?_ ?_ ?_ ?_
  · intro u x r _ _ _ hremOk
    by_cases hu : u = t
    · subst hu
      refine ⟨fun hq' => ?_, fun v hv => ?_⟩
      · rw [hphase, Function.update_self] at hq'
        cases hq'
      · rw [hphase, Function.update_self] at hv
        cases hv
        refine ⟨_, by rw [hslices, Function.update_self], ?_⟩
        rw [hremOk.1 hq]
        simp [EvTask.dues, EventWorkerData.dues, SliceRun.left]
    · refine hremOk.phase (by rw [hphase, Function.update_of_ne hu]) fun v hv => ?_
      have hvw : v ≠ w := by
        rintro rfl
        exact hfree u x hv
      rw [hslices, Function.update_of_ne hvw]
  · intro v r hr
    rw [hslices] at hr
    by_cases hv : v = w
    · subst hv
      rw [Function.update_self] at hr
      cases hr
      simpa using hfits.inside
    · rw [Function.update_of_ne hv] at hr
      exact h.inside v r hr
  · exact fun k => hs.idle (h.idleExt k) (by intro hcall; cases hcall)
  · rw [hengine]
    exact fun hb => hs.idle (h.idleMain hb) (by intro hcall; cases hcall)
  · rw [hctl]
    exact fun v hv => hs.idle (h.idleTask v hv) (by intro hcall; cases hcall)
  · intro hno
    rw [h.started_of_active hs (Or.inl hq)] at hno
    cases hno

/-- The walk of a worker has ended, and its task ends. -/
theorem sliceEnds (h : EvmLink lossy s p spot rem) {w : Fin (W + 1)} {t : TskId} {r : SliceRun δ}
    (hs : p.Step (.finished w t) p') (hloss : ∀ j, s.ctl.pc = .batch j → p.closed = true → lossy)
    (hr : s.slices w = some r) (hended : r.ended = true)
    (hslices : s'.slices = Function.update s.slices w none)
    (hctl : s'.ctl = s.ctl) (hengine : s'.engine = s.engine) (hlog : s'.log = s.log) :
    ∃ spot' rem', EvmLink lossy s' p' spot' rem' := by
  obtain ⟨spot', hforked, hmoved⟩ := h.forked.step hs (by simp [TaskPool.caller]) (by simp)
  have hwalks : s'.walks = Function.update s.walks w none := by
    funext v
    unfold Env.walks
    rw [hslices]
    by_cases hv : v = w
    · subst hv; simp
    · simp [Function.update_of_ne hv]
  obtain ⟨x, hrun, hphase⟩ : ∃ x, p.phase t = .running x w ∧
      p'.phase = Function.update p.phase t .ended := by
    cases hs with
    | finished _ _ x hrun _ => exact ⟨x, hrun, rfl⟩
  have hleft : r.left = [] := by
    have hc : r.data.numEvents ≤ r.c := by
      simp only [SliceRun.ended, Bool.and_eq_true, decide_eq_true_eq] at hended
      exact hended.2
    rw [SliceRun.left, Int.toNat_of_nonpos (by omega)]
    rfl
  refine h.poolStep hloss hmoved (hwalks ▸ h.performs.finished hs) (by rw [hctl]; exact hforked)
    (by rw [hctl]) hlog ?_ ?_ ?_ ?_ ?_ ?_ ?_
  · intro u y rs _ _ hact hremOk
    have hu : u ≠ t := by
      rintro rfl
      simp [TaskPool.Active, hphase] at hact
    refine hremOk.phase (by rw [hphase, Function.update_of_ne hu]) fun v hv => ?_
    have hvw : v ≠ w := by
      rintro rfl
      exact hu (h.performs.solo v u t y x hv hrun)
    rw [hslices, Function.update_of_ne hvw]
  · intro v u y rs he hy hremOk
    cases he
    obtain ⟨run, hrun', hrs⟩ := hremOk.2 w hy
    rw [hr] at hrun'
    cases hrun'
    exact hrs.trans hleft
  · intro v run hrun'
    rw [hslices] at hrun'
    by_cases hv : v = w
    · subst hv; simp at hrun'
    · rw [Function.update_of_ne hv] at hrun'
      exact h.inside v run hrun'
  · exact fun k => hs.idle (h.idleExt k) (by simp [TaskPool.caller])
  · rw [hengine]
    exact fun hb => hs.idle (h.idleMain hb) (by simp [TaskPool.caller])
  · rw [hctl]
    exact fun v hv => hs.idle (h.idleTask v hv) (by simp [TaskPool.caller])
  · intro hno
    rw [h.started_of_active hs (Or.inr ⟨w, hrun⟩)] at hno
    cases hno

/-- **The steps of the pool.** -/
theorem evm [DecidableEq δ] (h : EvmLink lossy s p spot rem) (hs : p.Step e p') (he : s.EvmStep e s')
    (hloss : ∀ j, s.ctl.pc = .batch j → p.closed = true → lossy) :
    ∃ spot' rem', EvmLink lossy s' p' spot' rem' := by
  have hidle : ∀ {b q}, s.engine.pc = .start b q → q ≠ .inEnqueue → p.calls (.ext 0) = .idle :=
    fun hpc hq => h.idleMain fun b' hb => by simp [hpc] at hb; exact hq hb.2
  cases he with
  | tau =>
      exact h.engineCall s.engine.pc hs hloss nofun nofun nofun nofun
        (fun hb => hs.idle (h.idleMain hb) nofun) fun _ hstarting => hstarting
  | startFailed byMain r hpc hr =>
      refine h.engineCall _ hs hloss nofun nofun nofun nofun
        (fun _ => hs.idle (hidle hpc nofun) nofun) fun _ _ => ?_
      cases byMain <;> rfl
  | start byMain r hpc hr =>
      refine h.engineCall _ hs hloss nofun nofun nofun nofun
        (fun _ => hs.idle (hidle hpc nofun) nofun) fun hno _ => ?_
      cases hs with
      | start _ => cases hno
      | startAgain hyes => rw [hyes] at hno; cases hno
  | enqueueController byMain hpc =>
      refine h.engineCall _ hs hloss nofun nofun (fun j x hx => by cases hx; rfl)
        (fun k hk => by cases hk; rfl) (fun hb => absurd rfl (hb byMain)) fun _ hstarting => ?_
      rw [hpc] at hstarting
      cases hstarting
  | enqueued byMain r hpc =>
      refine h.engineCall _ hs hloss nofun nofun nofun (fun k hk => by cases hk; rfl)
        (fun _ => by cases hs <;> simp) fun _ hstarting => ?_
      cases byMain <;> rfl
  | shutdownCall k hpc _ | shutdownRet k _ hpc _ =>
      refine h.engineCall _ hs hloss nofun nofun nofun nofun (fun _ => hs.idle (h.idleMain ?_) nofun) ?_
      · simp [hpc]
      · exact fun _ _ => rfl
  | controllerStarts w t hpc =>
      exact h.ctlCall _ hs (by simp [hpc]) (by simp) (h.performs.started_other hs rfl) rfl rfl rfl rfl nofun
        (h.started_of_active hs (Or.inl hs.queued))
  | controllerEnds w t hnone hw hpc =>
      obtain ⟨x, hrun⟩ : ∃ x, p.phase t = .running x w := by
        cases hs with
        | finished _ _ x hrun _ => exact ⟨x, hrun⟩
      have hwalks : Function.update s.walks w none = s.walks := by
        rw [Function.update_eq_self_iff]
        simp [Env.walks, hnone]
      exact h.ctlCall (s.setCtl .gone) hs (by simp [hpc]) (by simp)
        (hwalks ▸ h.performs.finished hs) rfl rfl rfl rfl nofun
        (h.started_of_active hs (Or.inr ⟨w, hrun⟩))
  | sliceStarts w t d hfree => exact h.sliceStarts hs hloss rfl rfl rfl rfl
  | sliceEnds w t r hr hended => exact h.sliceEnds hs hloss hr hended rfl rfl rfl rfl
  | batch j j' _ hpc hj =>
      have hforked := h.forked
      rw [hpc] at hforked
      obtain ⟨spot', hforked', hmoved⟩ := hforked.observe hs hj
      have hcaller := Join.observe_caller hj
      refine h.callStep (s.setCtl (.batch j')) hs hloss ?_ ?_ hmoved hforked' rfl rfl rfl rfl ?_ ?_ ?_
      · rintro w t x rfl
        cases hcaller
      · rintro w t rfl
        cases hcaller
      · intro k hk
        rw [hcaller] at hk
        exact Or.inr (Option.some.inj hk).symm
      · intro hb
        exact hs.idle (h.idleMain hb) (by simp [hcaller])
      · intro hno _
        have hoff := (h.unstarted_step hs hno).1
        rw [hpc] at hoff
        cases hoff

end PoolEvents

/-- **The steps of the pool of the engine.** -/
theorem eng (h : EvmLink lossy s p spot rem) {e : PoolEvent m UserTask} (hs : s.EngStep e s') :
    EvmLink lossy s' p spot rem := by
  cases hs with
  | tau => exact h
  | blockStarts | blockEnds => exact h.keep rfl rfl rfl rfl (Or.inl rfl)
  | start _ hpc _ _ | shutdownCall _ hpc _ | loop _ _ _ _ hpc _ =>
      exact h.keep rfl rfl rfl rfl (Or.inr ⟨by rw [hpc]; rfl, rfl⟩)
  | shutdownRet k _ hpc _ =>
      refine h.keep rfl rfl rfl rfl (Or.inr ⟨by rw [hpc]; rfl, ?_⟩)
      simp only [Env.setEngine_engine_pc]
      split <;> rfl

/-- What is known to be lost may be forgotten. -/
theorem weaken {lossy' : Prop} (h : EvmLink lossy s p spot rem) (himp : lossy → lossy') :
    EvmLink lossy' s p spot rem :=
  { h with popped := h.popped.imp_left himp }

/-- An event worker finds the events that it expects. -/
theorem no_nullEvent (h : EvmLink lossy s p spot rem) {w : Fin (W + 1)} {r : SliceRun δ}
    (hr : s.slices w = some r) (hlt : (r.c : Int) < r.data.numEvents) : r.curEv ≠ [] := by
  intro hnil
  have hinside := h.inside w r hr
  rw [hnil, List.length_nil] at hinside
  omega

/-- Outside its batches the controller has no tasks, and no worker walks. -/
theorem rest (h : EvmLink lossy s p spot rem) (hpc : ∀ j, s.ctl.pc ≠ .batch j) :
    (∀ w, s.slices w = none) ∧ (lossy ∨ s.log.popped.Perm (s.log.thrown.map Prod.fst)) := by
  refine ⟨fun w => ?_, h.popped.imp_right fun hperm => ?_⟩
  · have hwalk := h.performs.none_of_quiet (h.quiet hpc) w
    simpa [Env.walks] using hwalk
  · have hnil : (List.range W).flatMap rem = [] := by
      rw [List.flatMap_eq_nil_iff]
      intro c _
      have hremOk := h.remOk c
      rw [h.nowhere hpc c] at hremOk
      exact hremOk
    rwa [hnil, List.append_nil] at hperm

/-- The events that the controller's tasks have still to throw are of the tick it works on. -/
theorem rem_time (h : EvmLink lossy s p spot rem) {c : Nat} {x : Due δ} (hx : x ∈ rem c) :
    (∃ j, s.ctl.pc = .batch j) ∧ x.time = s.ctl.curTime := by
  have hremOk := h.remOk c
  have hspot : spot c ≠ .nowhere := by
    intro hno
    rw [hno] at hremOk
    have hnil : rem c = [] := hremOk
    simp [hnil] at hx
  refine ⟨(h.started_of_spot hspot).2, ?_⟩
  have hdues : ∀ {d : EventWorkerData δ}, Fits W s.ctl.curTime d → x ∈ d.dues → x.time = s.ctl.curTime := by
    intro d hfits hmem
    obtain ⟨ev, -, rfl⟩ := List.mem_map.1 hmem
    exact hfits.time
  cases hc : spot c with
  | nowhere => exact absurd hc hspot
  | listed y | calling y =>
      obtain ⟨d, rfl, hfits⟩ := h.fits c y (by rw [hc]; rfl)
      rw [hc] at hremOk
      have hrem : rem c = d.dues := hremOk
      exact hdues hfits (hrem ▸ hx)
  | task t y =>
      obtain ⟨d, rfl, hfits⟩ := h.fits c y (by rw [hc]; rfl)
      rw [hc] at hremOk
      have hactive : p.Active t (.slice d) :=
        (h.forked.tracks.task t (.slice d) c (h.forked.tracks.names c _ (by rw [hc]; rfl))).2 hc
      rcases hactive with hq | ⟨w, hw⟩
      · have hrem : rem c = d.dues := hremOk.1 hq
        exact hdues hfits (hrem ▸ hx)
      · obtain ⟨run, hrun, hleft⟩ := hremOk.2 w hw
        rw [hleft] at hx
        obtain ⟨ev, -, rfl⟩ := List.mem_map.1 hx
        obtain ⟨u, -, hspot', -, hfits'⟩ := h.walk_spot hrun
        exact hfits'.time

end EvmLink

/-- The event manager and its pool in a run. -/
def View.EvmLinked (v : View W m δ) : Prop :=
  ∃ spot rem, EvmLink (v.evm.closed = true) v.env v.evm spot rem

theorem View.EvmLinked.step [DecidableEq δ] {cfg : Config} {v v' : View W m δ} {l : ViewLabel W m δ}
    (h : v.EvmLinked) (hW : W ≠ 0) (hs : v.Step cfg l v') : v'.EvmLinked := by
  obtain ⟨spot, rem, h⟩ := h
  cases hs with
  | own hrun hstep => exact h.own hW hstep
  | evm hrun hp hobs =>
      have hmono := hp.closed_mono
      exact (h.weaken hmono).evm hp (.of hobs) fun _ _ => hmono
  | eng hrun hp hobs => exact ⟨spot, rem, h.eng (.of hobs)⟩

/-- **The event manager and its pool agree in every run.** -/
theorem evmLinked_reachable [DecidableEq δ] {cfg : Config} (hW : W ≠ 0) {v : View W m δ}
    {ok : View W m δ → ViewLabel W m δ → Prop} (h : Lts.ReachableIf (viewSystem cfg W m) ok v) :
    v.EvmLinked := by
  refine h.invariant (fun v hv => ?_) fun v l v' hi _ hs => hi.step hW hs
  rw [show v = _ from hv]
  exact ⟨_, _, EvmLink.init _ cfg⟩

end ComplexSim.Engine
