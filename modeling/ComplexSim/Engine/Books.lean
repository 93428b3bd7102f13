import ComplexSim.Engine.Program

/-!
# What a program has done

The books of a program in a run: its state is that of the jobs begun, in their order; what they
have requested is accepted, refused or still to be requested; and the handlers begun are those
of the events thrown (`Script.Books`). The requests of a program that schedules for later ticks
stay so while they wait (`Script.Waits`).
-/

namespace ComplexSim.Engine

open Workerpool Events

variable {W m : Nat} {δ σ : Type}

/-- The threads that may make requests. -/
def sources (W m : Nat) : List (Source W m) :=
  .main :: ((List.finRange (W + 1)).map .handler ++ (List.finRange m).map .activity)

theorem mem_sources (src : Source W m) : src ∈ sources W m := by
  cases src <;> simp [sources]

theorem nodup_sources : (sources W m).Nodup := by
  have hhandlers : ((List.finRange (W + 1)).map (Source.handler (m := m))).Nodup :=
    (List.nodup_finRange _).map fun _ _ h => Source.handler.inj h
  have hactivities : ((List.finRange m).map (Source.activity (W := W))).Nodup :=
    (List.nodup_finRange _).map fun _ _ h => Source.activity.inj h
  rw [sources, List.nodup_cons]
  refine ⟨by simp, hhandlers.append hactivities fun src hh ha => ?_⟩
  obtain ⟨w, -, rfl⟩ := List.mem_map.1 hh
  simp at ha

/-- `cs_evm_schedule_event` takes events with a type. -/
def accepts (l : List (Due δ)) : List (Due δ) := l.filter (·.ev.etype.isSome)

theorem accepts_append (l l' : List (Due δ)) : accepts (l ++ l') = accepts l ++ accepts l' := List.filter_append ..

/-- The requests that a program has still to make. -/
def Script.left (c : Script W m δ σ) : List (Due δ) := (sources W m).flatMap c.todo

section Left

variable {c c' : Script W m δ σ} {x : List (Due δ)}

/-- One thread has more to request. -/
theorem Script.left_perm (src : Source W m) (h : c.todo src = x ++ c'.todo src) (hne : ∀ src', src' ≠ src → c.todo src' = c'.todo src') :
    c.left.Perm (x ++ c'.left) :=
  flatMap_perm_of_mem nodup_sources (mem_sources src) h hne

theorem Script.left_init (prog : Program δ σ) : (Script.init prog : Script W m δ σ).left = prog.initial := by
  have hnone : (Script.init prog : Script W m δ σ).left =
      prog.initial ++ (((List.finRange (W + 1)).map Source.handler ++ (List.finRange m).map Source.activity).flatMap
        (Script.init prog : Script W m δ σ).todo) := rfl
  have hrest : ((List.finRange (W + 1)).map Source.handler ++ (List.finRange m).map Source.activity).flatMap
      (Script.init prog : Script W m δ σ).todo = [] := by
    rw [List.flatMap_eq_nil_iff]
    intro src hsrc
    have hmain : src ≠ .main := by
      rintro rfl
      simp at hsrc
    exact if_neg hmain
  rw [hnone, hrest, List.append_nil]

end Left

/-- The program has not called `cs_sim_start`. -/
def EnginePc.preparing : EnginePc → Bool
  | .main | .start true _ => true
  | _ => false

/-- The engine leaves a call of the program's only by returning. -/
theorem Env.EngineStep.preparing {cfg : Config} {s s' : Env W m δ} {b : Bool} (hs : s.EngineStep cfg b s') (h : s.engine.pc.preparing = true) :
    s'.engine.pc.preparing = true := by
  cases hs with
  | startTime byMain r hpc =>
      rw [hpc] at h
      cases byMain with
      | true => rfl
      | false => cases h
  | closingFails hpc _ | loopCrash _ hpc _ => exact h
  | setNsync hpc | firstClock hpc | evmRunning hpc | noActivities hpc _ | loopSkip _ hpc _
  | loopFork _ _ _ hpc _ _ _ | loopWait _ _ hpc | loopEnd _ hpc | terminate hpc _ _ | goOn hpc _
  | moreEvents hpc | pass _ _ hpc _ | arrive _ hpc _ | leave _ _ hpc _ | clockStop hpc _ | clockScan hpc _ _
  | clockDriven hpc _ _ | stopController hpc | timeStop hpc | closing hpc _ | wait hpc _ | completed hpc _
  | woken hpc _ | finiRunning hpc | finiStop hpc =>
      rw [hpc] at h
      cases h

/-- The threads of a program that have not finished what they do. -/
def Env.busy (s : Env W m δ) : Source W m → Bool
  | .main => s.engine.pc.preparing
  | .handler w => (s.slices w).any fun r => r.handling.isSome
  | .activity v => (s.blocks v).isSome

/-- The books of a program. -/
structure Script.Books (prog : Program δ σ) (cfg : Config) (s : Env W m δ) (c : Script W m δ σ) : Prop where
  user : c.user = (Effect.run prog.job c.done prog.start).1
  requests : (s.log.accepted ++ accepts c.left).Perm
    (accepts (prog.initial ++ (Effect.run prog.job c.done prog.start).2))
  handlers : c.done.filterMap Job.event? = (s.log.thrown.map Prod.fst).filter (cfg.handles ·.ev)
  idle : ∀ src, c.todo src ≠ [] → s.busy src = true

namespace Script.Books

variable {prog : Program δ σ} {cfg : Config} {s s' : Env W m δ} {c c' : Script W m δ σ}

theorem init (prog : Program δ σ) (cfg : Config) :
    Books prog cfg (Env.init cfg : Env W m δ) (Script.init prog) where
  user := rfl
  requests := by
    rw [left_init]
    simp [Env.init, Script.init]
  handlers := rfl
  idle := fun src hsrc => by
    have hmain : src = .main := by
      by_contra hne
      exact hsrc (if_neg hne)
    subst hmain
    rfl

/-- A step in which the program does nothing. -/
theorem keep (h : Books prog cfg s c) (haccepted : s'.log.accepted = s.log.accepted)
    (hthrown : (s'.log.thrown.map Prod.fst).filter (cfg.handles ·.ev) = (s.log.thrown.map Prod.fst).filter (cfg.handles ·.ev))
    (hidle : ∀ src, c.todo src ≠ [] → s.busy src = true → s'.busy src = true) : Books prog cfg s' c where
  user := h.user
  requests := by rw [haccepted]; exact h.requests
  handlers := by rw [hthrown]; exact h.handlers
  idle := fun src htodo => hidle src htodo (h.idle src htodo)

/-- A job begins. -/
theorem begins (h : Books prog cfg s c) {src : Source W m} {j : Job δ} (hsrc : c.todo src = [])
    (hbusy : s'.busy src = true) (haccepted : s'.log.accepted = s.log.accepted)
    (hthrown : (s'.log.thrown.map Prod.fst).filter (cfg.handles ·.ev) =
      (s.log.thrown.map Prod.fst).filter (cfg.handles ·.ev) ++ j.event?.toList)
    (hothers : ∀ src', src' ≠ src → s.busy src' = true → s'.busy src' = true) : Books prog cfg s' (c.begin prog src j) where
  user := by
    rw [begin_user, begin_done, Effect.run_concat, h.user]
  requests := by
    have hleft : (c.begin prog src j).left.Perm ((prog.job j c.user).2 ++ c.left) := by
      refine left_perm src ?_ fun src' hne => ?_
      · simp [hsrc]
      · simp [hne]
    rw [begin_done, Effect.run_concat, ← h.user, haccepted, ← List.append_assoc, accepts_append]
    refine ((hleft.filter _).append_left _).trans ?_
    show (s.log.accepted ++ accepts (_ ++ c.left)).Perm _
    rw [accepts_append]
    refine ((List.perm_append_comm).append_left _).trans ?_
    rw [← List.append_assoc]
    exact h.requests.append_right _
  handlers := by
    rw [begin_done, List.filterMap_append, h.handlers, hthrown]
    cases j <;> rfl
  idle := fun src' htodo => by
    by_cases hne : src' = src
    · subst hne
      exact hbusy
    · have hold : c.todo src' ≠ [] := by simpa [hne] using htodo
      exact hothers src' hne (h.idle src' hold)

/-- Where the walks and the blocks stay, only the engine's place matters. -/
theorem busy_keep (hslices : s'.slices = s.slices) (hblocks : s'.blocks = s.blocks)
    (hmain : c.todo .main ≠ [] → s.engine.pc.preparing = true → s'.engine.pc.preparing = true) (src : Source W m)
    (htodo : c.todo src ≠ []) (hbusy : s.busy src = true) : s'.busy src = true := by
  cases src with
  | main => exact hmain htodo hbusy
  | handler w =>
      unfold Env.busy
      rw [hslices]
      exact hbusy
  | activity v =>
      unfold Env.busy
      rw [hblocks]
      exact hbusy

/-- A request, accepted or refused. -/
theorem schedule [DecidableEq δ] (h : Books prog cfg s c) {src : Source W m} {ev : CsEvent δ} {time : Int}
    (hallows : (c.todo src).head? = some ⟨ev, time⟩) (hs : s.scheduleStep src ev time = some s') :
    Books prog cfg s' { c with todo := Function.update c.todo src (c.todo src).tail } := by
  obtain ⟨-, rfl⟩ := Env.scheduleStep_cases hs
  obtain ⟨rest, hrest⟩ := List.head?_eq_some_iff.1 hallows
  have hleft : c.left.Perm ([⟨ev, time⟩] ++
      ({ c with todo := Function.update c.todo src (c.todo src).tail } : Script W m δ σ).left) := by
    refine left_perm src ?_ fun src' hne => ?_
    · simp [hrest]
    · simp [hne]
  refine ⟨h.user, ?_, h.handlers, fun src' htodo => ?_⟩
  · have hperm := (hleft.filter (·.ev.etype.isSome)).append_left s.log.accepted
    refine List.Perm.trans ?_ (hperm.symm.trans h.requests)
    show List.Perm (_ ++ accepts _) (_ ++ accepts _)
    rw [accepts_append]
    rcases csEvmScheduleEvent_pending s.evm.evTree ev time with ⟨hnone, hrefused⟩ | ⟨hsome, hzero, -⟩
    · simp [hrefused, accepts, hnone]
    · have htype : ev.etype.isSome = true := Option.isSome_iff_ne_none.2 hsome
      simp only [hzero, if_pos]
      simp [accepts, htype]
  · by_cases hne : src' = src
    · subst hne
      refine h.idle src' fun hnil => ?_
      rw [hrest] at hnil
      cases hnil
    · exact h.idle src' (by simpa [hne] using htodo)

/-- An event worker goes on. -/
theorem slice [DecidableEq δ] (h : Books prog cfg s c) {w : Fin (W + 1)} (hallows : c.todo (.handler w) = [])
    (hs : s.SliceStep cfg w s') : Books prog cfg s' (c.next prog cfg s (.own (.slice w))) := by
  have hnone : s.launches cfg w = none → c.next prog cfg s (.own (.slice w)) = c := by
    intro hno
    simp [next, hno]
  have hothers : ∀ r, s'.slices = Function.update s.slices w (some r) → s'.blocks = s.blocks →
      s'.engine = s.engine → ∀ src, src ≠ .handler w → s.busy src = true → s'.busy src = true := by
    intro r hslices hblocks hengine src hne hbusy
    cases src with
    | main =>
        unfold Env.busy
        rw [hengine]
        exact hbusy
    | handler v =>
        have hv : v ≠ w := fun hv => hne (congrArg Source.handler hv)
        simpa [Env.busy, hslices, hv] using hbusy
    | activity v =>
        unfold Env.busy
        rw [hblocks]
        exact hbusy
  have hne : ∀ {src}, c.todo src ≠ [] → src ≠ .handler w := by
    rintro src htodo rfl
    exact htodo hallows
  cases hs with
  | handled r ev hr hev =>
      rw [hnone (by simp [Env.launches, hr, hev])]
      exact h.keep rfl rfl fun src htodo => hothers _ rfl rfl rfl src (hne htodo)
  | nullEvent r hr _ _ hcur =>
      rw [hnone (by simp [Env.launches, hr, hcur])]
      exact h.keep rfl rfl fun src _ hbusy => hbusy
  | eventType r ev rest hr _ _ hcur htype =>
      rw [hnone (by simp [Env.launches, hr, hcur, Config.handles, htype])]
      exact h.keep rfl rfl fun src _ hbusy => hbusy
  | noHandler r ev rest etype hr _ _ hcur htype hin =>
      rw [hnone (by simp [Env.launches, hr, hcur, Config.handles, htype, hin])]
      refine h.keep rfl ?_ fun src htodo => hothers _ rfl rfl rfl src (hne htodo)
      simp [Config.handles, htype, hin]
  | throw r ev rest etype hr hno hlt hcur htype hin =>
      have hlaunch : s.launches cfg w = some ⟨ev, r.data.scheduledAt⟩ := by
        simp [Env.launches, hr, hno, hlt, hcur, Config.handles, htype, hin]
      have hnext : c.next prog cfg s (.own (.slice w)) =
          c.begin prog (.handler w) (.handler ⟨ev, r.data.scheduledAt⟩) := by
        simp [next, hlaunch]
      rw [hnext]
      refine h.begins hallows ?_ rfl ?_ fun src hne => hothers _ rfl rfl rfl src hne
      · simp [Env.busy]
      · simp [Config.handles, htype, hin, Job.event?]

/-- **The books are right after every step outside the pools.** -/
theorem own [DecidableEq δ] (h : Books prog cfg s c) {a : EnvAction W m δ} (hallows : c.Allows prog s (.own a))
    (hs : s.step cfg a = some s') : Books prog cfg s' (c.next prog cfg s (.own a)) := by
  cases a with
  | preStart r =>
      obtain ⟨-, rfl⟩ := Env.mainStep_cases hs
      exact h.keep rfl rfl (busy_keep rfl rfl fun _ _ => rfl)
  | simStart =>
      obtain ⟨-, rfl⟩ := Env.mainStep_cases hs
      exact h.keep rfl rfl (busy_keep rfl rfl fun htodo => absurd hallows htodo)
  | fini =>
      obtain ⟨hpc, rfl⟩ := Env.mainStep_cases hs
      refine h.keep rfl rfl (busy_keep rfl rfl fun _ hprep => ?_)
      rw [hpc] at hprep
      cases hprep
  | engine b =>
      have hstep := Env.EngineStep.of hs
      obtain ⟨-, hslices, hblocks, hlog, -⟩ := hstep.frame
      exact h.keep (by rw [hlog]) (by rw [hlog]) (busy_keep hslices hblocks fun _ => hstep.preparing)
  | ctl =>
      obtain ⟨hengine, hslices, hblocks, -, haccepted, hthrown, -⟩ := (Env.CtlStep.of hs).frame
      exact h.keep haccepted (by rw [hthrown]) (busy_keep hslices hblocks fun _ => by rw [hengine]; exact id)
  | slice w => exact h.slice hallows (.of hs)
  | schedule src ev time => exact h.schedule hallows hs

/-- **The books are right after every step of the pool of the event manager.** -/
theorem evm [DecidableEq δ] (h : Books prog cfg s c) {e : PoolEvent (W + 1) (EvTask δ)} (hs : s.EvmStep e s') :
    Books prog cfg s' c := by
  cases hs with
  | startFailed byMain r hpc _ =>
      refine h.keep rfl rfl (busy_keep rfl rfl fun _ hprep => ?_)
      rw [hpc] at hprep
      cases byMain with
      | true => rfl
      | false => cases hprep
  | start byMain r hpc _ | enqueueController byMain hpc | enqueued byMain r hpc =>
      refine h.keep rfl rfl (busy_keep rfl rfl fun _ hprep => ?_)
      rw [hpc] at hprep
      cases byMain with
      | true => rfl
      | false => cases hprep
  | shutdownCall k hpc _ | shutdownRet k r hpc _ =>
      refine h.keep rfl rfl (busy_keep rfl rfl fun _ hprep => ?_)
      rw [hpc] at hprep
      cases hprep
  | sliceStarts w t d hfree =>
      refine h.keep rfl rfl fun src htodo hbusy => ?_
      cases src with
      | main | activity v => exact hbusy
      | handler v =>
          have hv : v ≠ w := by
            rintro rfl
            simp [Env.busy, hfree] at hbusy
          simpa [Env.busy, hv] using hbusy
  | sliceEnds w t r hr hend =>
      refine h.keep rfl rfl fun src htodo hbusy => ?_
      cases src with
      | main | activity v => exact hbusy
      | handler v =>
          have hv : v ≠ w := by
            rintro rfl
            simp only [SliceRun.ended, Bool.and_eq_true, Option.isNone_iff_eq_none] at hend
            simp [Env.busy, hr, hend.1] at hbusy
          simpa [Env.busy, hv] using hbusy
  | tau | controllerStarts | controllerEnds | batch => exact h.keep rfl rfl fun _ _ hbusy => hbusy

/-- **The books are right after every step of the pool of the engine.** -/
theorem eng [DecidableEq δ] (h : Books prog cfg s c) {e : PoolEvent m UserTask} (hallows : c.Allows prog s (.eng e))
    (hs : s.EngStep e s') : Books prog cfg s' (c.next prog cfg s (.eng e)) := by
  cases hs with
  | tau => exact h
  | start r hpc _ _ | shutdownCall k hpc _ | shutdownRet k r hpc _ =>
      refine h.keep rfl rfl (busy_keep rfl rfl fun _ hprep => ?_)
      rw [hpc] at hprep
      cases hprep
  | blockStarts v t x hfree =>
      have hidle : c.todo (.activity v) = [] := by
        by_contra htodo
        have hbusy := h.idle _ htodo
        simp [Env.busy, hfree] at hbusy
      refine h.begins hidle ?_ rfl (by simp [Job.event?]) fun src hne hbusy => ?_
      · simp [Env.busy]
      · cases src with
        | main | handler w => exact hbusy
        | activity u =>
            have hu : u ≠ v := fun hu => hne (congrArg Source.activity hu)
            simpa [Env.busy, hu] using hbusy
  | blockEnds v t x hx =>
      refine h.keep rfl rfl fun src htodo hbusy => ?_
      cases src with
      | main | handler w => exact hbusy
      | activity u =>
          have hu : u ≠ v := by
            rintro rfl
            exact htodo hallows
          simpa [Env.busy, hu] using hbusy
  | loop atype j j' e hpc hj =>
      have hnext : c.next prog cfg s (.eng e) = c := by
        have hcaller := Join.observe_caller hj
        cases e with
        | started w t x => cases hcaller
        | _ => rfl
      rw [hnext]
      refine h.keep rfl rfl (busy_keep rfl rfl fun _ hprep => ?_)
      rw [hpc] at hprep
      cases hprep

end Script.Books

/-- **The books of a program are right in every run.** -/
theorem books_reachable [DecidableEq δ] {prog : Program δ σ} {cfg : Config} {p : View W m δ × Script W m δ σ}
    {ok : View W m δ × Script W m δ σ → ViewLabel W m δ → Prop} (h : Lts.ReachableIf (playView prog cfg W m) ok p) :
    Script.Books prog cfg p.1.env p.2 := by
  refine h.invariant (I := fun p => Script.Books prog cfg p.1.env p.2) (fun p hp => ?_) fun p l p' hi _ hs => ?_
  · rw [show p = _ from hp]
    exact .init prog cfg
  · obtain ⟨hstep, hallows, hnext⟩ := hs
    rw [hnext]
    generalize hv : p.1 = v at *
    generalize hv' : p'.1 = v' at *
    cases hstep with
    | own hrun hstep => exact hi.own hallows hstep
    | evm hrun hp hobs => exact hi.evm (.of hobs)
    | eng hrun hq hobs => exact hi.eng hallows (.of hobs)

/-- A program that schedules for later ticks only. -/
structure Program.Later (prog : Program δ σ) : Prop where
  initial : ∀ x ∈ prog.initial, 0 < x.time
  job : ∀ j u, ∀ x ∈ (prog.job j u).2, Job.tick j < x.time

section Ticks

variable {cfg : Config} {s s' : Env W m δ}

/-- The clock goes on where the engine is at the barrier. -/
theorem Env.tick_pc {a : EnvAction W m δ} (hgoes : s.clockwork.Goes s'.clockwork) (hs : s.step cfg a = some s') :
    s'.timer.timer.clock = s.timer.timer.clock ∨
      s.clockwork.ahead ∧ (s.engine.pc = .sync ∨ s.engine.pc = .inSync) := by
  cases hgoes with
  | stays hclock _ | ends _ _ hclock => exact Or.inl hclock
  | ticks hahead hnot hclock =>
      have hahead' : s'.engine.pc.stage = .behind → False := fun hstage => hnot (Or.inl hstage)
      have hengine : s'.engine = s.engine → s.engine.pc = .inSync := by
        intro heq
        rcases hahead with hbehind | ⟨hin, -⟩
        · exact absurd (heq ▸ hbehind) hahead'
        · have hstage : s.engine.pc.stage = .inSync := hin
          cases hpc : s.engine.pc with
          | inSync => rfl
          | loop atype q => cases atype <;> rw [hpc] at hstage <;> cases hstage
          | _ =>
              rw [hpc] at hstage
              cases hstage
      cases a with
      | preStart r | simStart | fini =>
          obtain ⟨-, rfl⟩ := Env.mainStep_cases hs
          exact Or.inl rfl
      | engine b =>
          cases Env.EngineStep.of hs with
          | pass _ _ hpc _ | arrive _ hpc _ => exact Or.inr ⟨hahead, .inl hpc⟩
          | leave _ _ hpc hleave => exact Or.inr ⟨hahead, .inr hpc⟩
          | _ => exact Or.inl rfl
      | ctl => exact Or.inr ⟨hahead, .inr (hengine (Env.CtlStep.of hs).frame.1)⟩
      | slice w => exact Or.inr ⟨hahead, .inr (hengine (by cases Env.SliceStep.of hs <;> rfl))⟩
      | schedule src ev time =>
          obtain ⟨-, rfl⟩ := Env.scheduleStep_cases hs
          exact Or.inl rfl

end Ticks

/-- Nobody is busy at the barrier. -/
theorem View.idle_at_barrier {v : View W m δ} (htimed : v.Timed) (hlinked : v.EvmLinked) (heng : v.EngLinked)
    (hahead : v.env.clockwork.ahead) (hpc : v.env.engine.pc = .sync ∨ v.env.engine.pc = .inSync) (src : Source W m) :
    v.env.busy src = false := by
  have hloop : v.env.engine.pc.loopType = none := by
    rcases hpc with hpc | hpc <;> rw [hpc] <;> rfl
  cases src with
  | main => rcases hpc with hpc | hpc <;> simp [Env.busy, hpc, EnginePc.preparing]
  | handler w =>
      obtain ⟨spot, rem, hlink⟩ := hlinked
      cases hr : v.env.slices w with
      | none => simp [Env.busy, hr]
      | some r =>
          have hbusy : v.env.clockwork.ctl = .busy := (hlink.busy hr).1
          rcases (htimed.inv.of_ahead hahead).2 with hready | ⟨hin, -⟩
          · rw [hbusy] at hready
            cases hready
          · rw [hbusy] at hin
            cases hin
  | activity u =>
      obtain ⟨spot, hlink⟩ := heng
      simp [Env.busy, hlink.rest hloop u]

/-- The requests that wait are for later ticks. -/
def Script.Waits (s : Env W m δ) (c : Script W m δ σ) : Prop :=
  ∀ src, ∀ x ∈ c.todo src, s.timer.timer.clock < x.time

/-- What a step is to the program. -/
inductive Script.Moves (prog : Program δ σ) (s s' : Env W m δ) (c : Script W m δ σ) : Script W m δ σ → Prop where
  | stays : Moves prog s s' c c
  | requests (src : Source W m) (x : Due δ) (rest : List (Due δ)) (htodo : c.todo src = x :: rest)
      (hsame : s'.clockwork = s.clockwork) :
      Moves prog s s' c { c with todo := Function.update c.todo src rest }
  /-- a job of the tick of the clock begins -/
  | begins (src : Source W m) (j : Job δ) (htick : j.tick = s.timer.timer.clock)
      (hstage : j.stage = s.now) (hplace : ¬ s.clockwork.ahead ∨ s.engine.pc.loopType ≠ none)
      (hsame : s'.clockwork = s.clockwork) (hengine : s'.engine = s.engine) :
      Moves prog s s' c (c.begin prog src j)

section Waiting

variable [DecidableEq δ] {prog : Program δ σ} {cfg : Config} {v v' : View W m δ} {c : Script W m δ σ}
  {l : ViewLabel W m δ}

omit [DecidableEq δ] in
/-- The handler that begins is that of an event of the tick, and the engine has passed its barrier. -/
theorem View.launches_stage (htimed : v.Timed) (hlinked : v.EvmLinked) {w : Fin (W + 1)} {x : Due δ}
    (h : v.env.launches cfg w = some x) :
    x.time = v.env.timer.timer.clock ∧ ¬ v.env.clockwork.ahead := by
  obtain ⟨spot, rem, hlink⟩ := hlinked
  unfold Env.launches at h
  split at h
  · cases h
  · rename_i r hr
    obtain ⟨hbusy, hsched⟩ := hlink.busy hr
    have hcur : v.env.ctl.curTime = v.env.timer.timer.clock := (htimed.inv.busy hbusy).1
    split at h
    · split at h
      · cases h
      · split at h <;> cases h
        exact ⟨hsched.trans hcur, htimed.inv.not_ahead_of_busy hbusy⟩
    · cases h

omit [DecidableEq δ] in
/-- A task that begins is of the loop of the engine. -/
theorem View.block_stage (heng : v.EngLinked) {t : TskId} {x : UserTask} (hact : v.eng.Active t x) :
    (Job.block x v.env.timer.timer.clock : Job δ).stage = v.env.now := by
  obtain ⟨spot, hlink⟩ := heng
  have htype := hlink.loopType_of_active hact
  cases hpc : v.env.engine.pc with
  | loop atype q =>
      rw [hpc] at htype
      obtain rfl : atype = x.type := Option.some.inj htype
      have hahead := Env.ahead_loop hpc
      cases htype : x.type with
      | user =>
          rw [Env.now_of_not_ahead (by simp [hahead, htype])]
          simp only [Job.stage, htype]
      | afterStep =>
          rw [Env.now_of_ahead (hahead.2 htype)]
          simp only [Job.stage, htype]
  | _ =>
      rw [hpc] at htype
      cases htype

theorem View.Step.moves (hs : v.Step cfg l v') (htimed : v.Timed) (hlinked : v.EvmLinked) (heng : v.EngLinked)
    (hallows : c.Allows prog v.env l) : Script.Moves prog v.env v'.env c (c.next prog cfg v.env l) := by
  cases hs with
  | own hrun hstep =>
      rename_i a env
      cases a with
      | preStart r | simStart | fini | engine b | ctl => exact .stays
      | slice w =>
          cases hlaunch : v.env.launches cfg w with
          | none =>
              have hnext : c.next prog cfg v.env (.own (.slice w)) = c := by simp [Script.next, hlaunch]
              rw [hnext]
              exact .stays
          | some x =>
              have hnext : c.next prog cfg v.env (.own (.slice w)) = c.begin prog (.handler w) (.handler x) := by
                simp [Script.next, hlaunch]
              obtain ⟨htime, hnot⟩ := View.launches_stage htimed hlinked hlaunch
              rw [hnext]
              refine .begins _ _ htime ?_ (Or.inl hnot) (Env.SliceStep.of hstep).clockwork ?_
              · rw [Env.now_of_not_ahead hnot, ← htime]
                rfl
              · cases Env.SliceStep.of hstep <;> rfl
      | schedule src ev time =>
          obtain ⟨rest, hrest⟩ := List.head?_eq_some_iff.1 hallows
          have hnext : c.next prog cfg v.env (.own (.schedule src ev time)) =
              { c with todo := Function.update c.todo src rest } := by
            simp [Script.next, hrest]
          obtain ⟨-, rfl⟩ := Env.scheduleStep_cases hstep
          rw [hnext]
          exact .requests src _ rest hrest rfl
  | evm hrun hp hobs => exact .stays
  | eng hrun hq hobs =>
      rename_i e q env
      cases Env.EngStep.of hobs with
      | blockStarts u t x hfree =>
          have hactive : v.eng.Active t x := Or.inl hq.queued
          refine .begins _ _ rfl (View.block_stage heng hactive) (Or.inr ?_) rfl rfl
          obtain ⟨spot, hlink⟩ := heng
          rw [hlink.loopType_of_active hactive]
          nofun
      | loop _ _ _ _ _ hj =>
          have hcaller := Join.observe_caller hj
          cases e with
          | started w t x => cases hcaller
          | _ => exact .stays
      | _ => exact .stays

/-- The clock goes on where nobody is busy. -/
theorem View.Step.clock (hs : v.Step cfg l v') (htimed : v.Timed) (hlinked : v.EvmLinked) (heng : v.EngLinked) :
    v'.env.timer.timer.clock = v.env.timer.timer.clock ∨ ∀ src, v.env.busy src = false := by
  cases hs with
  | own hrun hstep =>
      have hgoes := htimed.inv.goes (Env.clockwork_step hstep htimed.fromOne)
      refine (Env.tick_pc hgoes hstep).imp_right fun hpc => ?_
      exact View.idle_at_barrier htimed hlinked heng hpc.1 hpc.2
  | evm hrun hp hobs => exact Or.inl (by cases Env.EvmStep.of hobs <;> rfl)
  | eng hrun hq hobs => exact Or.inl (by cases Env.EngStep.of hobs <;> rfl)

/-- **The requests of a program that schedules for later ticks stay so while they wait.** -/
theorem Script.Waits.step (h : Waits v.env c) (hlater : prog.Later) (hbooks : Books prog cfg v.env c) (htimed : v.Timed)
    (hlinked : v.EvmLinked) (heng : v.EngLinked) (hallows : c.Allows prog v.env l) (hs : v.Step cfg l v') :
    Waits v'.env (c.next prog cfg v.env l) := by
  have hmoves := hs.moves htimed hlinked heng hallows
  have hclock : v'.env.clockwork = v.env.clockwork → v'.env.timer.timer.clock = v.env.timer.timer.clock :=
    fun hsame => congrArg (·.timer.timer.clock) hsame
  generalize c.next prog cfg v.env l = c' at hmoves
  cases hmoves with
  | stays =>
      intro src x hx
      rcases hs.clock htimed hlinked heng with hclock | hidle
      · rw [hclock]
        exact h src x hx
      · have hbusy := hbooks.idle src (List.ne_nil_of_mem hx)
        rw [hidle src] at hbusy
        cases hbusy
  | requests src y rest htodo hsame =>
      intro src' x hx
      rw [hclock hsame]
      by_cases hne : src' = src
      · subst hne
        have hx : x ∈ rest := by simpa using hx
        exact h src' x (htodo ▸ List.mem_cons_of_mem y hx)
      · exact h src' x (by simpa [hne] using hx)
  | begins src j htick _ _ hsame _ =>
      intro src' x hx
      rw [hclock hsame]
      by_cases hne : src' = src
      · subst hne
        rw [Script.begin_todo, Function.update_self] at hx
        have hlt := hlater.job j c.user x hx
        omega
      · rw [Script.begin_todo, Function.update_of_ne hne] at hx
        exact h src' x hx

end Waiting

end ComplexSim.Engine
