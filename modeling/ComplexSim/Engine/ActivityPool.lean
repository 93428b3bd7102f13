import ComplexSim.Engine.EventPool

/-!
# The engine and its activities

What ties the thread of the engine to its pool: the blocks of activities that it has
enqueued in a loop and still waits for, and the blocks that the workers perform. The
blocks of a loop are all different, so each is its own name. When the loop has ended, no
block is active.

Both pools stay open until the program calls `cs_engine_fini`.
-/

namespace ComplexSim.Engine

open Workerpool Events

variable {W m : Nat} {δ : Type}

section Schedule

variable {atype : ActivityType} {curTime : Int} {i : Nat} {l l' : List CsUserActivity}
  {codes : List UserTask}

theorem mem_blocksOf {nTasks : Nat} {x : UserTask} (h : x ∈ blocksOf atype i nTasks) :
    x.act = i ∧ x.type = atype := by
  obtain ⟨index, -, rfl⟩ := List.mem_map.1 h
  exact ⟨rfl, rfl⟩

theorem nodup_blocksOf (nTasks : Nat) : (blocksOf atype i nTasks).Nodup :=
  List.nodup_range.map fun a b h => by simpa using h

/-- What a loop enqueues: blocks of its type, all of them different. -/
theorem scheduleActivities_codes (h : scheduleActivities curTime atype i l = some (codes, l')) :
    (∀ x ∈ codes, i ≤ x.act ∧ x.type = atype) ∧ codes.Nodup ∧ totalTasks l' = totalTasks l := by
  induction l generalizing i codes l' with
  | nil => cases h; simp
  | cons a rest ih =>
      unfold scheduleActivities at h
      split at h
      · rename_i codes₀ rest' hdue hrest
        cases h
        obtain ⟨hmem, hnodup, htotal⟩ := ih hrest
        refine ⟨fun x hx => ?_, ?_, ?_⟩
        · rcases List.mem_append.1 hx with hx | hx
          · obtain ⟨hact, htype⟩ := mem_blocksOf hx
            exact ⟨hact.ge, htype⟩
          · exact ⟨by have := (hmem x hx).1; omega, (hmem x hx).2⟩
        · refine List.Nodup.append (nodup_blocksOf _) hnodup fun x hx hx' => ?_
          have hact := (mem_blocksOf hx).1
          have hlt := (hmem x hx').1
          omega
        · simpa [totalTasks] using htotal
      · rename_i codes₀ rest' hdue hrest
        cases h
        obtain ⟨hmem, hnodup, htotal⟩ := ih hrest
        exact ⟨fun x hx => ⟨by have := (hmem x hx).1; omega, (hmem x hx).2⟩, hnodup,
          by simpa [totalTasks] using htotal⟩
      · cases h

end Schedule

namespace EnginePc

/-- The blocks that the engine has still to enqueue. -/
def codes : EnginePc → List UserTask
  | .loop _ (.join j) => j.codes
  | _ => []

/-- The ids that the engine has still to wait for. -/
def pending : EnginePc → List Int
  | .loop _ (.join j) => j.pending
  | _ => []

/-- The engine is in a call of its pool for a loop. -/
def calling : EnginePc → Bool
  | .loop _ (.join j) => j.calling
  | _ => false

/-- The type of the activities of a loop. -/
def loopType : EnginePc → Option ActivityType
  | .loop atype _ => some atype
  | _ => none

/-- The engine has not started its pool. -/
def early : EnginePc → Bool
  | .main | .start _ _ | .setNsync | .firstClock | .evmRunning | .wpStart => true
  | _ => false

/-- The program has called `cs_engine_fini`. -/
def finishing : EnginePc → Bool
  | .fini _ | .done => true
  | _ => false

theorem codes_eq_nil {pc : EnginePc} (hpc : ∀ atype j, pc ≠ .loop atype (.join j)) :
    pc.codes = [] ∧ pc.pending = [] ∧ pc.calling = false := by
  cases pc with
  | loop atype q =>
      cases q with
      | clock => exact ⟨rfl, rfl, rfl⟩
      | join j => exact absurd rfl (hpc atype j)
  | _ => exact ⟨rfl, rfl, rfl⟩

end EnginePc

/-- The thread of the engine and its pool. -/
structure EngLink (s : Env W m δ) (q : TaskPool m UserTask) (spot : UserTask → Spot UserTask) : Prop where
  performs : Performs q some s.blocks
  forked : Forked q (.ext 0) some s.engine.pc.codes s.engine.pc.pending s.engine.pc.calling spot
  others : ∀ k, k ≠ .ext 0 → q.calls k = .idle
  types : ∀ c x, (spot c).code = some x → s.engine.pc.loopType = some x.type
  started : q.started = true ∨ s.engine.pc.early = true ∨ totalTasks s.engine.activities = 0
  looping : ∀ atype j, s.engine.pc = .loop atype (.join j) → q.started = true

namespace EngLink

variable {s s' : Env W m δ} {q q' : TaskPool m UserTask} {spot : UserTask → Spot UserTask} {cfg : Config}

theorem init (cfg : Config) :
    EngLink (Env.init cfg : Env W m δ) (.init _ _) (fun _ => .nowhere) where
  performs := .init
  forked := Quiet.forked
    ⟨fun t x h => by simp [TaskPool.init, TaskPool.Active] at h, fun j x h => by simp [TaskPool.init] at h⟩ rfl
  others := fun _ _ => rfl
  types := nofun
  started := Or.inr (Or.inl rfl)
  looping := nofun

/-- Outside its loops the engine has no tasks. -/
theorem quiet (h : EngLink s q spot) (hpc : ∀ atype j, s.engine.pc ≠ .loop atype (.join j)) :
    Quiet q some := by
  have hforked := h.forked
  obtain ⟨hcodes, hpending, hcalling⟩ := EnginePc.codes_eq_nil hpc
  rw [hcodes, hpending, hcalling] at hforked
  exact hforked.quiet

theorem nowhere (h : EngLink s q spot) (hpc : ∀ atype j, s.engine.pc ≠ .loop atype (.join j))
    (c : UserTask) : spot c = .nowhere := by
  have htracks := h.forked.tracks
  rw [(EnginePc.codes_eq_nil hpc).1] at htracks
  exact htracks.nowhere (h.quiet hpc) c

/-- A step that has nothing to do with the engine. -/
theorem keep (h : EngLink s q spot) (hengine : s'.engine = s.engine) (hblocks : s'.blocks = s.blocks) :
    EngLink s' q spot := by
  obtain ⟨hperforms, hforked, hothers, htypes, hstarted, hlooping⟩ := h
  rw [← hblocks] at hperforms
  rw [← hengine] at hforked htypes hstarted hlooping
  exact ⟨hperforms, hforked, hothers, htypes, hstarted, hlooping⟩

/-- The engine goes from one place where it has no tasks to another. -/
theorem move (h : EngLink s q spot) (hquiet : Quiet q some) (hidle : q.calls (.ext 0) = .idle)
    (hspot : ∀ c, spot c = .nowhere)
    (hnew : ∀ atype j, s'.engine.pc ≠ .loop atype (.join j)) (hblocks : s'.blocks = s.blocks)
    (hstarted : q.started = true ∨ s'.engine.pc.early = true ∨ totalTasks s'.engine.activities = 0) :
    EngLink s' q spot := by
  obtain ⟨hcodes, hpending, hcalling⟩ := EnginePc.codes_eq_nil hnew
  obtain rfl : spot = fun _ => .nowhere := funext hspot
  refine ⟨hblocks ▸ h.performs, ?_, h.others, nofun, hstarted, fun atype j hj => absurd hj (hnew atype j)⟩
  rw [hcodes, hpending, hcalling]
  exact hquiet.forked hidle

/-- The pool is started before the engine gets to its loops, if they have tasks. -/
theorem still_started (h : EngLink s q spot) (s' : Env W m δ) (hearly : s'.engine.pc.early = true ∨ s.engine.pc.early = false)
    (hacts : s'.engine.activities = s.engine.activities) :
    q.started = true ∨ s'.engine.pc.early = true ∨ totalTasks s'.engine.activities = 0 := by
  rw [hacts]
  rcases hearly with hearly | hearly
  · exact Or.inr (Or.inl hearly)
  · rcases h.started with hyes | hold | hzero
    · exact Or.inl hyes
    · rw [hearly] at hold
      cases hold
    · exact Or.inr (Or.inr hzero)

theorem idle (h : EngLink s q spot) (hpc : ∀ atype j, s.engine.pc ≠ .loop atype (.join j)) :
    q.calls (.ext 0) = .idle := by
  apply h.forked.idle
  exact (EnginePc.codes_eq_nil hpc).2.2

/-- The engine goes on outside its loops. -/
theorem walk (h : EngLink s q spot) (hold : ∀ atype j, s.engine.pc ≠ .loop atype (.join j))
    (hnew : ∀ atype j, s'.engine.pc ≠ .loop atype (.join j)) (hblocks : s'.blocks = s.blocks)
    (hearly : s'.engine.pc.early = true ∨ s.engine.pc.early = false)
    (hacts : s'.engine.activities = s.engine.activities) : EngLink s' q spot :=
  h.move (h.quiet hold) (h.idle hold) (h.nowhere hold) hnew hblocks (h.still_started _ hearly hacts)

/-- The engine takes on the blocks of a loop. -/
theorem fork (h : EngLink s q spot) (hold : ∀ atype j, s.engine.pc ≠ .loop atype (.join j))
    {atype : ActivityType} {codes : List UserTask} (hnodup : codes.Nodup)
    (htypes : ∀ x ∈ codes, x.type = atype) (hlate : s.engine.pc.early = false)
    (htasks : totalTasks s.engine.activities ≠ 0)
    (hpc : s'.engine.pc = .loop atype (.join (.enqueue codes []))) (hblocks : s'.blocks = s.blocks) :
    ∃ spot', EngLink s' q spot' := by
  have hdistinct : codes.Pairwise fun x y => some x ≠ some y :=
    hnodup.imp fun hne heq => hne (Option.some.inj heq)
  obtain ⟨spot', htracks, hspot⟩ := (h.quiet hold).fork (k := .ext 0) hdistinct
  have hstarted : q.started = true := by
    rcases h.started with hyes | hearly | hzero
    · exact hyes
    · rw [hlate] at hearly
      cases hearly
    · exact absurd hzero htasks
  refine ⟨spot', hblocks ▸ h.performs, ?_, h.others, fun c x hx => ?_, Or.inl hstarted,
    fun _ _ _ => hstarted⟩
  · rw [hpc]
    exact ⟨htracks, (h.quiet hold).joined _, fun _ => h.idle hold⟩
  · rw [hpc]
    rcases hspot c with ⟨hno, -⟩ | ⟨y, hy, -, hlisted⟩
    · simp [hno, Spot.code] at hx
    · simp only [hlisted, Spot.code, Option.some.injEq] at hx
      exact congrArg some (htypes x (hx ▸ hy)).symm

/-- The steps of the engine. -/
theorem engineStep (h : EngLink s q spot) {b : Bool} (hs : s.EngineStep cfg b s') :
    ∃ spot', EngLink s' q spot' := by
  have hafter : ∀ (atype' atype : ActivityType) (j : Join UserTask),
      Env.afterLoop atype' ≠ .loop atype (.join j) := fun atype' atype j => by
    cases atype' <;> simp [Env.afterLoop]
  cases hs with
  | loopCrash | closingFails => exact ⟨spot, h.keep rfl rfl⟩
  | loopFork atype codes activities hpc _ htasks hsched =>
      obtain ⟨hmem, hnodup, -⟩ := scheduleActivities_codes hsched
      exact h.fork (by simp [hpc]) hnodup (fun x hx => (hmem x hx).2) (by rw [hpc]; rfl) htasks rfl rfl
  | loopWait atype ids hpc =>
      obtain ⟨hperforms, hforked, hothers, htypes, hstarted, hlooping⟩ := h
      rw [hpc] at hforked htypes hstarted
      exact ⟨spot, hperforms, hforked, hothers, htypes, hstarted, fun _ _ _ => hlooping _ _ hpc⟩
  | loopEnd atype hpc =>
      -- the last wait has returned
      have hforked := h.forked
      rw [hpc] at hforked
      exact ⟨spot, h.move hforked.quiet (hforked.idle rfl) (hforked.tracks.nowhere hforked.quiet)
        (hafter atype) rfl (h.still_started _ (Or.inr (by rw [hpc]; rfl)) rfl)⟩
  | loopSkip atype hpc _ =>
      exact ⟨spot, h.walk (by simp [hpc]) (hafter atype) rfl (Or.inr (by rw [hpc]; rfl)) rfl⟩
  | startTime _ _ hpc | setNsync hpc | firstClock hpc =>
      exact ⟨spot, h.walk (by simp [hpc]) (by simp) rfl (Or.inl rfl) rfl⟩
  | evmRunning hpc =>
      refine ⟨spot, h.walk (by simp [hpc]) ?_ rfl (Or.inl ?_) rfl⟩
      · intro atype j
        simp only [Env.setEngine_engine_pc]
        split <;> nofun
      · simp only [Env.setEngine_engine_pc]
        split <;> rfl
  | noActivities hpc hno =>
      have hold : ∀ atype j, s.engine.pc ≠ .loop atype (.join j) := by simp [hpc]
      refine ⟨spot, h.move (h.quiet hold) (h.idle hold) (h.nowhere hold) (by simp) rfl (Or.inr (Or.inr ?_))⟩
      show totalTasks s.engine.activities = 0
      by_contra hpos
      refine hno ⟨fun hnil => hpos ?_, Nat.pos_of_ne_zero hpos⟩
      rw [hnil]
      rfl
  | finiRunning hpc =>
      refine ⟨spot, h.walk (by simp [hpc]) ?_ rfl (Or.inr (by rw [hpc]; rfl)) rfl⟩
      intro atype j
      simp only [Env.setEngine_engine_pc]
      split <;> nofun
  | terminate hpc _ _ | goOn hpc _ | moreEvents hpc | pass _ _ hpc _ | arrive _ hpc _ | leave _ _ hpc _
  | clockStop hpc _ | clockScan hpc _ _ | clockDriven hpc _ _ | stopController hpc | timeStop hpc
  | closing hpc _ | wait hpc _ | completed hpc _ | woken hpc _ | finiStop hpc =>
      exact ⟨spot, h.walk (by simp [hpc]) (by simp) rfl (Or.inr (by rw [hpc]; rfl)) rfl⟩

/-- **The steps outside the pools.** -/
theorem own (h : EngLink s q spot) {a : EnvAction W m δ} (hs : s.step cfg a = some s') :
    ∃ spot', EngLink s' q spot' := by
  cases a with
  | preStart r | simStart =>
      obtain ⟨hpc, rfl⟩ := Env.mainStep_cases hs
      exact ⟨spot, h.walk (by simp [hpc]) (by simp) rfl (Or.inl rfl) rfl⟩
  | fini =>
      obtain ⟨hpc, rfl⟩ := Env.mainStep_cases hs
      exact ⟨spot, h.walk (by simp [hpc]) (by simp) rfl (Or.inr (by rw [hpc]; rfl)) rfl⟩
  | engine b => exact h.engineStep (.of hs)
  | ctl =>
      obtain ⟨hengine, -, hblocks, -⟩ := (Env.CtlStep.of hs).frame
      exact ⟨spot, h.keep hengine hblocks⟩
  | slice w => cases Env.SliceStep.of hs <;> exact ⟨spot, h.keep rfl rfl⟩
  | schedule src ev time =>
      obtain ⟨-, rfl⟩ := Env.scheduleStep_cases hs
      exact ⟨spot, h.keep rfl rfl⟩

section PoolEvents

variable {e : PoolEvent m UserTask}

/-- Steps of the pool that are not calls of the engine. -/
theorem other (h : EngLink s q spot) (hs : q.Step e q') (hcaller : TaskPool.caller e = none)
    (hcall : ∀ j x, e ≠ .enqueueCall j x) (hperforms : Performs q' some s'.blocks)
    (hengine : s'.engine = s.engine) : ∃ spot', EngLink s' q' spot' := by
  obtain ⟨spot', hforked, hmoved⟩ := h.forked.step hs (by simp [hcaller]) fun j x he => absurd he (hcall j x)
  obtain ⟨-, -, hothers, htypes, hstarted, hlooping⟩ := h
  rw [← hengine] at hforked htypes hstarted hlooping
  exact ⟨spot', hperforms, hforked, fun k hk => hs.idle (hothers k hk) (by simp [hcaller]),
    fun c x hx => htypes c x ((hmoved c).code hx), hstarted.imp_left hs.started_mono,
    fun atype j hj => hs.started_mono (hlooping atype j hj)⟩

/-- Steps of the pool by which the engine goes on outside its loops. -/
theorem call (h : EngLink s q spot) (hs : q.Step e q') {pc : EnginePc}
    (hstarts : ∀ w t x, e ≠ .started w t (some x)) (hends : ∀ w t, e ≠ .finished w t)
    (hcaller : TaskPool.caller e = none) (hcall : ∀ j x, e ≠ .enqueueCall j x)
    (hold : ∀ atype j, s.engine.pc ≠ .loop atype (.join j)) (hnew : ∀ atype j, pc ≠ .loop atype (.join j))
    (hstarted : q'.started = true ∨ s.engine.pc.early = false) :
    ∃ spot', EngLink (s.setEngine pc) q' spot' := by
  have hquiet := (h.quiet hold).step hs fun j x he => absurd he (hcall j x)
  have hidle : q'.calls (.ext 0) = .idle := hs.idle (h.idle hold) (by simp [hcaller])
  obtain ⟨hcodes, hpending, hcalling⟩ := EnginePc.codes_eq_nil hnew
  refine ⟨fun _ => .nowhere, h.performs.step hs hstarts hends, ?_,
    fun k hk => hs.idle (h.others k hk) (by simp [hcaller]), nofun, ?_,
    fun atype j hj => absurd hj (hnew atype j)⟩
  · show Forked q' _ _ pc.codes pc.pending pc.calling _
    rw [hcodes, hpending, hcalling]
    exact hquiet.forked hidle
  · rcases hstarted with hyes | hlate
    · exact Or.inl hyes
    · exact (h.still_started (s.setEngine pc) (Or.inr hlate) rfl).imp_left hs.started_mono

/-- **The steps of the pool.** -/
theorem eng (h : EngLink s q spot) (hs : q.Step e q') (he : s.EngStep e s') :
    ∃ spot', EngLink s' q' spot' := by
  cases he with
  | tau => exact h.other hs rfl nofun (h.performs.step hs nofun nofun) rfl
  | start r hpc hact htasks =>
      refine h.call hs nofun nofun rfl nofun (by simp [hpc]) (by simp) (Or.inl ?_)
      cases hs with
      | start _ => rfl
      | startAgain hyes => exact hyes
  | blockStarts v t x hfree => exact h.other hs rfl nofun (h.performs.started hs (by simp)) rfl
  | blockEnds v t x hx => exact h.other hs rfl nofun (h.performs.finished hs) rfl
  | shutdownCall k hpc _ =>
      exact h.call hs nofun nofun rfl nofun (by simp [hpc]) (by simp)
        (Or.inr (by rw [hpc]; rfl))
  | shutdownRet k r hpc _ =>
      refine h.call hs nofun nofun rfl nofun (by simp [hpc]) ?_
        (Or.inr (by rw [hpc]; rfl))
      intro atype j
      split <;> nofun
  | loop atype j j' _ hpc hj =>
      have hcaller := Join.observe_caller hj
      have hstarted := hs.started_mono (h.looping atype j hpc)
      obtain ⟨hperforms, hforked, hothers, htypes, -, -⟩ := h
      rw [hpc] at hforked htypes
      obtain ⟨spot', hforked', hmoved⟩ := hforked.observe hs hj
      refine ⟨spot', hperforms.step hs ?_ ?_, hforked', fun k hk => hs.idle (hothers k hk) ?_,
        fun c x hx => htypes c x ((hmoved c).code hx), Or.inl hstarted, fun _ _ _ => hstarted⟩
      · rintro w t x rfl
        cases hcaller
      · rintro w t rfl
        cases hcaller
      · rw [hcaller]
        exact fun heq => hk (Option.some.inj heq).symm

/-- **The steps of the pool of the event manager.** -/
theorem evm [DecidableEq δ] (h : EngLink s q spot) {e : PoolEvent (W + 1) (EvTask δ)}
    (hs : s.EvmStep e s') : EngLink s' q spot := by
  cases hs with
  | tau => exact h
  | controllerStarts | sliceStarts | sliceEnds | controllerEnds | batch => exact h.keep rfl rfl
  | startFailed byMain _ hpc _ | enqueued byMain _ hpc =>
      refine h.walk (by simp [hpc]) ?_ rfl (Or.inl ?_) rfl <;> cases byMain <;> simp [Env.startReturn, EnginePc.early]
  | start _ _ hpc _ | enqueueController _ hpc =>
      exact h.walk (by simp [hpc]) (by simp) rfl (Or.inl rfl) rfl
  | shutdownCall _ hpc _ | shutdownRet _ _ hpc _ =>
      exact h.walk (by simp [hpc]) (by simp) rfl (Or.inr (by rw [hpc]; rfl)) rfl

end PoolEvents

/-- An active block is of the type of the loop. -/
theorem loopType_of_active (h : EngLink s q spot) {t : TskId} {x : UserTask} (hact : q.Active t x) :
    s.engine.pc.loopType = some x.type := by
  have hspot := (h.forked.tracks.task t x x rfl).1 hact
  apply h.types x x
  rw [hspot]
  rfl

/-- Outside its loops no block is performed. -/
theorem rest (h : EngLink s q spot) (hpc : s.engine.pc.loopType = none) (v : Fin m) :
    s.blocks v = none := by
  refine h.performs.none_of_quiet (h.quiet fun atype j hj => ?_) v
  rw [hj] at hpc
  cases hpc

end EngLink

/-- The engine and its pool in a run. -/
def View.EngLinked (v : View W m δ) : Prop := ∃ spot, EngLink v.env v.eng spot

theorem View.EngLinked.step [DecidableEq δ] {cfg : Config} {v v' : View W m δ} {l : ViewLabel W m δ}
    (h : v.EngLinked) (hs : v.Step cfg l v') : v'.EngLinked := by
  obtain ⟨spot, h⟩ := h
  cases hs with
  | own hrun hstep => exact h.own hstep
  | evm hrun hp hobs => exact ⟨spot, h.evm (.of hobs)⟩
  | eng hrun hp hobs => exact h.eng hp (.of hobs)

/-- **The engine and its pool agree in every run.** -/
theorem engLinked_reachable [DecidableEq δ] {cfg : Config} {v : View W m δ}
    {ok : View W m δ → ViewLabel W m δ → Prop} (h : Lts.ReachableIf (viewSystem cfg W m) ok v) :
    v.EngLinked := by
  refine h.invariant (fun v hv => ?_) fun v l v' hi _ hs => hi.step hs
  rw [show v = _ from hv]
  exact ⟨_, EngLink.init cfg⟩

section Finishing

variable {s s' : Env W m δ} {cfg : Config}

theorem Env.finishing_step {a : EnvAction W m δ} (hs : s.step cfg a = some s')
    (h : s.engine.pc.finishing = true) : s'.engine.pc.finishing = true := by
  cases a with
  | preStart r | simStart | fini =>
      obtain ⟨hpc, rfl⟩ := Env.mainStep_cases hs
      simp [hpc, EnginePc.finishing] at h
  | engine b =>
      cases Env.EngineStep.of hs with
      | finiRunning hpc =>
          simp only [Env.setEngine_engine_pc]
          split <;> rfl
      | finiStop hpc => rfl
      | loopCrash | closingFails => exact h
      | startTime _ _ hpc | setNsync hpc | firstClock hpc | evmRunning hpc | noActivities hpc _
      | loopSkip _ hpc _ | loopFork _ _ _ hpc _ _ _ | loopWait _ _ hpc | loopEnd _ hpc
      | terminate hpc _ _ | goOn hpc _ | moreEvents hpc | pass _ _ hpc _ | arrive _ hpc _
      | leave _ _ hpc _ | clockStop hpc _ | clockScan hpc _ _ | clockDriven hpc _ _
      | stopController hpc | timeStop hpc | closing hpc _ | wait hpc _ | completed hpc _ | woken hpc _ =>
          simp [hpc, EnginePc.finishing] at h
  | ctl =>
      rw [(Env.CtlStep.of hs).frame.1]
      exact h
  | slice w => cases Env.SliceStep.of hs <;> exact h
  | schedule src ev time =>
      obtain ⟨-, rfl⟩ := Env.scheduleStep_cases hs
      exact h

theorem Env.EvmStep.finishing [DecidableEq δ] {e : PoolEvent (W + 1) (EvTask δ)} (hs : s.EvmStep e s')
    (h : s.engine.pc.finishing = true) : s'.engine.pc.finishing = true := by
  cases hs with
  | startFailed _ _ hpc _ | start _ _ hpc _ | enqueueController _ hpc | enqueued _ _ hpc =>
      simp [hpc, EnginePc.finishing] at h
  | shutdownCall | shutdownRet => rfl
  | _ => exact h

theorem Env.EngStep.finishing {e : PoolEvent m UserTask} (hs : s.EngStep e s')
    (h : s.engine.pc.finishing = true) : s'.engine.pc.finishing = true := by
  cases hs with
  | start _ hpc _ _ | loop _ _ _ _ hpc _ => simp [hpc, EnginePc.finishing] at h
  | shutdownCall => rfl
  | shutdownRet k r hpc hk =>
      simp only [Env.setEngine_engine_pc]
      split <;> rfl
  | _ => exact h

end Finishing

/-- Only `cs_engine_fini` shuts the pools down. -/
structure View.Opened (v : View W m δ) : Prop where
  evm : v.evm.shutting = true ∨ v.evm.closed = true → v.env.engine.pc.finishing = true
  eng : v.eng.shutting = true ∨ v.eng.closed = true → v.env.engine.pc.finishing = true

theorem View.Opened.step [DecidableEq δ] {cfg : Config} {v v' : View W m δ} {l : ViewLabel W m δ}
    (h : v.Opened) (hs : v.Step cfg l v') : v'.Opened := by
  cases hs with
  | own hrun hstep =>
      exact ⟨fun hp => Env.finishing_step hstep (h.evm hp), fun hp => Env.finishing_step hstep (h.eng hp)⟩
  | evm hrun hp hobs =>
      have hstep := Env.EvmStep.of hobs
      refine ⟨fun hshut => ?_, fun hshut => hstep.finishing (h.eng hshut)⟩
      rcases hp.shut hshut with hold | hold | rfl
      · exact hstep.finishing (h.evm (Or.inl hold))
      · exact hstep.finishing (h.evm (Or.inr hold))
      · cases hstep with
        | shutdownCall => rfl
        | batch _ _ _ _ hj => cases Join.observe_caller hj
  | eng hrun hp hobs =>
      have hstep := Env.EngStep.of hobs
      refine ⟨fun hshut => hstep.finishing (h.evm hshut), fun hshut => ?_⟩
      rcases hp.shut hshut with hold | hold | rfl
      · exact hstep.finishing (h.eng (Or.inl hold))
      · exact hstep.finishing (h.eng (Or.inr hold))
      · cases hstep with
        | shutdownCall => rfl
        | loop _ _ _ _ _ hj => cases Join.observe_caller hj

theorem opened_reachable [DecidableEq δ] {cfg : Config} {v : View W m δ}
    {ok : View W m δ → ViewLabel W m δ → Prop} (h : Lts.ReachableIf (viewSystem cfg W m) ok v) :
    v.Opened := by
  refine h.invariant (fun v hv => ?_) fun v l v' hi _ hs => hi.step hs
  rw [show v = _ from hv]
  exact ⟨by simp [TaskPool.init], by simp [TaskPool.init]⟩

end ComplexSim.Engine
