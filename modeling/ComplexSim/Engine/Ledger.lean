import ComplexSim.Engine.ActivityPool
import ComplexSim.Engine.Timing

/-!
# What becomes of an event

An event that `cs_evm_schedule_event` has accepted is in the tree until the controller
pops its list; an event thrown is handled at once, or when its handler returns
(`Env.Ledger`). It is thrown while the clock shows its time (`View.OnTime`).

The controller pops a list once for each tick. `Env.floor` is the last tick that it has
popped: what is scheduled for a later time is popped in its turn, and what is scheduled
for the floor or an earlier time never is.
-/

namespace ComplexSim.Engine

open Workerpool Events

variable {W m : Nat} {δ : Type}

/-- The event whose handler runs in a walk. -/
def SliceRun.inHand (r : SliceRun δ) : List (Due δ) :=
  (r.handling.map (Due.mk · r.data.scheduledAt)).toList

namespace Env

variable {s s' : Env W m δ} {cfg : Config}

/-- What worker `w` handles. -/
def inHand (s : Env W m δ) (w : Fin (W + 1)) : List (Due δ) := (s.slices w).elim [] SliceRun.inHand

/-- The events whose handlers run. -/
def handling (s : Env W m δ) : List (Due δ) := (List.finRange (W + 1)).flatMap s.inHand

/-- The accounts of a run. -/
structure Ledger (s : Env W m δ) : Prop where
  accepted : s.log.accepted.Perm (EvTree.pending s.evm.evTree ++ s.log.popped)
  thrown : (s.log.thrown.map Prod.fst).Perm (s.log.handled ++ s.handling)

namespace Ledger

theorem init (cfg : Config) : (Env.init cfg : Env W m δ).Ledger where
  accepted := by simp [Env.init]
  thrown := by simp [Env.init, handling, inHand]

/-- A step that touches neither the tree, the walks nor their records. -/
theorem keep (h : s.Ledger) (htree : s'.evm.evTree = s.evm.evTree) (hslices : s'.slices = s.slices)
    (hlog : s'.log = s.log) : s'.Ledger where
  accepted := by rw [htree, hlog]; exact h.accepted
  thrown := by
    have hhandling : s'.handling = s.handling := by unfold handling inHand; rw [hslices]
    rw [hhandling, hlog]
    exact h.thrown

/-- Worker `w` has another event in hand, or none. -/
theorem handling_update (s' : Env W m δ) {w : Fin (W + 1)} {r : Option (SliceRun δ)} {x : List (Due δ)}
    (hslices : s'.slices = Function.update s.slices w r)
    (hr : r.elim [] SliceRun.inHand = x ++ s.inHand w) : s'.handling.Perm (x ++ s.handling) := by
  apply flatMap_perm_of_mem (List.nodup_finRange _) (List.mem_finRange w)
  · rw [← hr, inHand, hslices, Function.update_self]
  · intro v hv
    rw [inHand, hslices, Function.update_of_ne hv]
    rfl

theorem ctlStep (h : s.Ledger) (hs : s.CtlStep s') : s'.Ledger := by
  have hpopped := popEvents_pending s.evm.evTree s.ctl.curTime
  cases hs with
  | popNone hpc hpop =>
      refine ⟨?_, h.thrown⟩
      rw [hpop] at hpopped
      exact h.accepted.trans (hpopped.append_right _)
  | pop evList hpc hpop _ | popCrash evList hpc hpop _ =>
      refine ⟨?_, h.thrown⟩
      rw [hpop] at hpopped
      refine h.accepted.trans ((hpopped.append_right _).trans ?_)
      refine ((List.perm_append_comm).append_right _).trans ?_
      rw [List.append_assoc]
      exact (List.perm_append_comm).append_left _
  | _ => exact h.keep rfl rfl rfl

theorem sliceStep (h : s.Ledger) {w : Fin (W + 1)} (hs : s.SliceStep cfg w s') : s'.Ledger := by
  cases hs with
  | nullEvent | eventType => exact h.keep rfl rfl rfl
  | handled r ev hr hev =>
      refine ⟨h.accepted, h.thrown.trans ?_⟩
      show List.Perm _ (s.log.handled ++ [_] ++ _)
      rw [List.append_assoc]
      apply List.Perm.append_left
      -- what was in hand is handled
      apply flatMap_perm_of_mem (List.nodup_finRange _) (List.mem_finRange w)
      · simp [inHand, hr, SliceRun.inHand, hev]
      · intro v hv
        simp [inHand, Function.update_of_ne hv]
  | throw r ev rest etype hr hno _ _ _ _ =>
      refine ⟨h.accepted, ?_⟩
      have hhandling := handling_update (s := s) { s with
        slices := Function.update s.slices w
          (some { r with c := r.c + 1, curEv := rest, handling := some ev }) }
        (x := [⟨ev, r.data.scheduledAt⟩]) rfl (by simp [inHand, hr, SliceRun.inHand, hno])
      rw [List.map_append]
      refine ((h.thrown.append_right _).trans ?_).trans (hhandling.symm.append_left _)
      rw [List.append_assoc]
      exact (List.perm_append_comm).append_left _
  | noHandler r ev rest etype hr hno _ _ _ _ =>
      refine ⟨h.accepted, ?_⟩
      have hhandling := handling_update (s := s) { s with
        slices := Function.update s.slices w (some { r with c := r.c + 1, curEv := rest }) }
        (x := []) rfl (by simp [inHand, hr, SliceRun.inHand, hno])
      rw [List.map_append]
      refine ((h.thrown.append_right _).trans ?_).trans (hhandling.symm.append_left _)
      rw [List.append_assoc, List.append_assoc]
      exact (List.perm_append_comm).append_left _

/-- **The accounts balance after every step outside the pools.** -/
theorem own (h : s.Ledger) {a : EnvAction W m δ} (hs : s.step cfg a = some s') : s'.Ledger := by
  cases a with
  | preStart r | simStart | fini =>
      obtain ⟨-, rfl⟩ := mainStep_cases hs
      exact h.keep rfl rfl rfl
  | engine b =>
      obtain ⟨-, hslices, -, hlog, htree⟩ := (EngineStep.of hs).frame
      exact h.keep htree hslices hlog
  | ctl => exact h.ctlStep (.of hs)
  | slice w => exact h.sliceStep (.of hs)
  | schedule src ev time =>
      obtain ⟨-, rfl⟩ := scheduleStep_cases hs
      refine ⟨?_, h.thrown⟩
      rcases csEvmScheduleEvent_pending s.evm.evTree ev time with
        ⟨-, hrefused⟩ | ⟨-, hzero, hpending⟩
      · simp only [hrefused]
        exact h.accepted
      · simp only [hzero, if_pos]
        exact (List.perm_append_singleton _ _).trans
          ((h.accepted.cons _).trans (hpending.symm.append_right _))

/-- **The accounts balance after every step of the pool of the event manager.** -/
theorem evm [DecidableEq δ] (h : s.Ledger) {e : PoolEvent (W + 1) (EvTask δ)} (hs : s.EvmStep e s') :
    s'.Ledger := by
  cases hs with
  | sliceStarts w t d hfree =>
      refine ⟨h.accepted, ?_⟩
      exact h.thrown.trans ((handling_update _ (x := []) rfl
        (by simp [inHand, hfree, SliceRun.inHand])).symm.append_left _)
  | sliceEnds w t r hr hended =>
      refine ⟨h.accepted, ?_⟩
      have hnone : r.handling = none := by
        simp only [SliceRun.ended, Bool.and_eq_true, Option.isNone_iff_eq_none] at hended
        exact hended.1
      exact h.thrown.trans ((handling_update _ (x := []) rfl
        (by simp [inHand, hr, SliceRun.inHand, hnone])).symm.append_left _)
  | _ => exact h.keep rfl rfl rfl

theorem eng (h : s.Ledger) {e : PoolEvent m UserTask} (hs : s.EngStep e s') : s'.Ledger := by
  cases hs <;> exact h.keep rfl rfl rfl

end Ledger

end Env

theorem EvmLink.busy {lossy : Prop} {s : Env W m δ} {p : TaskPool (W + 1) (EvTask δ)}
    {spot : Nat → Spot (EvTask δ)} {rem : Nat → List (Due δ)} (h : EvmLink lossy s p spot rem)
    {w : Fin (W + 1)} {r : SliceRun δ} (hr : s.slices w = some r) :
    s.ctl.pc.stage = .busy ∧ r.data.scheduledAt = s.ctl.curTime := by
  obtain ⟨t, -, hspot, -, hfits⟩ := h.walk_spot hr
  obtain ⟨-, j, hj⟩ := h.started_of_spot (c := r.data.guardIndex) (by rw [hspot]; nofun)
  exact ⟨by rw [hj]; rfl, hfits.time⟩

/-- While the engine has not reached the barrier, the controller has no tasks, and what it popped
is thrown. -/
theorem View.behind_rest {v : View W m δ} (htimed : v.Timed) (hlinked : v.EvmLinked) (hopened : v.Opened)
    (hstage : v.env.engine.pc.stage = .behind) (hfinishing : v.env.engine.pc.finishing = false) :
    (∀ j, v.env.ctl.pc ≠ .batch j) ∧ (∀ w, v.env.slices w = none) ∧
      v.env.log.popped.Perm (v.env.log.thrown.map Prod.fst) := by
  have hbatch : ∀ j, v.env.ctl.pc ≠ .batch j := by
    intro j hj
    have hbusy : v.env.clockwork.ctl = .busy := congrArg CtlPc.stage hj
    rcases (htimed.inv.behind hstage).2 with hready | ⟨hin, -⟩
    · rw [hready] at hbusy
      cases hbusy
    · rw [hin] at hbusy
      cases hbusy
  obtain ⟨spot, rem, hlink⟩ := hlinked
  obtain ⟨hslices, hlossy⟩ := hlink.rest hbatch
  refine ⟨hbatch, hslices, hlossy.resolve_left fun hclosed => ?_⟩
  have hfini := hopened.evm (.inr hclosed)
  rw [hfinishing] at hfini
  cases hfini

/-- An event is thrown while the clock shows its time. -/
def View.OnTime (v : View W m δ) : Prop :=
  ∀ x ∈ v.env.log.thrown, x.1.time = x.2 ∧ x.2 ≤ v.env.timer.timer.clock

theorem View.OnTime.step [DecidableEq δ] {cfg : Config} {v v' : View W m δ} {l : ViewLabel W m δ}
    (h : v.OnTime) (htimed : v.Timed) (hlinked : v.EvmLinked) (hs : v.Step cfg l v') : v'.OnTime := by
  have hstay : v'.env.log.thrown = v.env.log.thrown →
      v.env.timer.timer.clock ≤ v'.env.timer.timer.clock → v'.OnTime := by
    intro hlog hclock x hx
    rw [hlog] at hx
    exact ⟨(h x hx).1, (h x hx).2.trans hclock⟩
  have hthrow : ∀ (w : Fin (W + 1)) (r : SliceRun δ) (ev : CsEvent δ), v.env.slices w = some r →
      v'.env.log.thrown = v.env.log.thrown ++ [(⟨ev, r.data.scheduledAt⟩, v.env.timer.timer.clock)] →
      v'.env.timer = v.env.timer → v'.OnTime := by
    intro w r ev hr hlog htimer x hx
    obtain ⟨spot, rem, hlink⟩ := hlinked
    obtain ⟨hbusy, htime⟩ := hlink.busy hr
    have hclock : v.env.ctl.curTime = v.env.timer.timer.clock := (htimed.inv.busy hbusy).1
    rw [hlog, List.mem_append, List.mem_singleton] at hx
    rw [htimer]
    rcases hx with hx | rfl
    · exact h x hx
    · exact ⟨htime.trans hclock, le_refl _⟩
  cases hs with
  | own hrun hstep =>
      rename_i a env
      have hmono := (Env.clockwork_step hstep htimed.fromOne).clock_mono
      cases a with
      | preStart r | simStart | fini =>
          obtain ⟨-, rfl⟩ := Env.mainStep_cases hstep
          exact hstay rfl hmono
      | engine b => exact hstay (by rw [(Env.EngineStep.of hstep).frame.2.2.2.1]) hmono
      | ctl =>
          obtain ⟨-, -, -, -, -, hthrown, -⟩ := (Env.CtlStep.of hstep).frame
          exact hstay hthrown hmono
      | slice w =>
          cases Env.SliceStep.of hstep with
          | nullEvent | eventType | handled => exact hstay rfl hmono
          | throw r ev rest etype hr _ _ _ _ _ => exact hthrow w r ev hr rfl rfl
          | noHandler r ev rest etype hr _ _ _ _ _ => exact hthrow w r ev hr rfl rfl
      | schedule src ev time =>
          obtain ⟨-, rfl⟩ := Env.scheduleStep_cases hstep
          exact hstay rfl hmono
  | evm hrun hp hobs => cases Env.EvmStep.of hobs <;> exact hstay rfl (le_refl _)
  | eng hrun hp hobs => cases Env.EngStep.of hobs <;> exact hstay rfl (le_refl _)

/-- **The accounts balance in every run.** -/
theorem ledger_reachable [DecidableEq δ] {cfg : Config} {v : View W m δ}
    {ok : View W m δ → ViewLabel W m δ → Prop} (h : Lts.ReachableIf (viewSystem cfg W m) ok v) :
    v.env.Ledger := by
  refine h.invariant (I := fun v => v.env.Ledger) (fun v hv => ?_) fun v l v' hi _ hs => ?_
  · rw [show v = _ from hv]
    exact .init cfg
  · cases hs with
    | own hrun hstep => exact hi.own hstep
    | evm hrun hp hobs => exact hi.evm (.of hobs)
    | eng hrun hp hobs => exact hi.eng (.of hobs)

namespace Env

variable {s s' : Env W m δ} {cfg : Config}

/-- The tick whose list the controller has popped last. -/
def floor (s : Env W m δ) : Int :=
  match s.ctl.pc with
  | .batch _ | .signal => s.ctl.curTime
  | _ => s.evm.lastCompletion

/-- The controller starts in time, and events are scheduled for ticks that are still to be
popped. -/
def AboveFloor (s : Env W m δ) : EnvAction W m δ → Prop
  | .preStart r => r ≤ 1
  | .schedule _ ev time => ev.etype = none ∨ s.floor < time
  | _ => True

instance (s : Env W m δ) (a : EnvAction W m δ) : Decidable (AboveFloor s a) :=
  match a with
  | .preStart r => inferInstanceAs (Decidable (r ≤ 1))
  | .schedule _ ev time => inferInstanceAs (Decidable (ev.etype = none ∨ s.floor < time))
  | .simStart | .fini | .engine _ | .ctl | .slice _ => .isTrue trivial

/-- The floor parts the events popped from those still to be popped. -/
structure Punctual (s : Env W m δ) : Prop where
  pending : ∀ x ∈ EvTree.pending s.evm.evTree, s.floor < x.time
  popped : s.failed = none → ∀ x ∈ s.log.popped, x.time ≤ s.floor

theorem floor_eq {pc : CtlPc δ} (hpc : s.ctl.pc = pc) (hbatch : ∀ j, pc ≠ .batch j) (hsignal : pc ≠ .signal) :
    s.floor = s.evm.lastCompletion := by
  unfold floor
  rw [hpc]
  cases pc with
  | batch j => exact absurd rfl (hbatch j)
  | signal => exact absurd rfl hsignal
  | _ => rfl

/-- The floor is the last completed tick, or the tick of the clock. -/
theorem floor_le (hinv : s.clockwork.Inv) :
    s.evm.lastCompletion ≤ s.floor ∧ s.floor ≤ s.timer.timer.clock := by
  have hle : s.evm.lastCompletion ≤ s.timer.timer.clock := hinv.le
  have hbusy : s.ctl.pc.stage = .busy →
      s.ctl.curTime = s.timer.timer.clock ∧ s.evm.lastCompletion = s.timer.timer.clock - 1 := hinv.busy
  cases hpc : s.ctl.pc with
  | batch j | signal =>
      obtain ⟨hcur, hlast⟩ := hbusy (by rw [hpc]; rfl)
      have hfloor : s.floor = s.ctl.curTime := by simp [floor, hpc]
      omega
  | _ => rw [floor_eq hpc nofun nofun]; exact ⟨le_refl _, hle⟩

namespace Punctual

theorem init (cfg : Config) : (Env.init cfg : Env W m δ).Punctual where
  pending := by simp [Env.init]
  popped := by simp [Env.init]

theorem keep (h : s.Punctual) (hrun : s.failed = none) (htree : s'.evm.evTree = s.evm.evTree)
    (hpopped : s'.log.popped = s.log.popped) (hfloor : s'.floor = s.floor) : s'.Punctual where
  pending := by rw [htree, hfloor]; exact h.pending
  popped := fun _ => by rw [hpopped, hfloor]; exact h.popped hrun

/-- The controller goes on where it has no list. -/
theorem ctlMove (h : s.Punctual) (hrun : s.failed = none) {pc pc' : CtlPc δ} (hpc : s.ctl.pc = pc)
    (hpc' : s'.ctl.pc = pc') (hbatch : ∀ j, pc ≠ .batch j) (hsignal : pc ≠ .signal)
    (hbatch' : ∀ j, pc' ≠ .batch j) (hsignal' : pc' ≠ .signal) (htree : s'.evm.evTree = s.evm.evTree)
    (hpopped : s'.log.popped = s.log.popped) (hlast : s'.evm.lastCompletion = s.evm.lastCompletion) :
    s'.Punctual := by
  apply h.keep hrun htree hpopped
  rw [floor_eq hpc hbatch hsignal, floor_eq hpc' hbatch' hsignal', hlast]

/-- The controller pops the list of the next tick. -/
theorem pop (h : s.Punctual) (hrun : s.failed = none) (hpc : s.ctl.pc = .pop)
    (hnext : s.ctl.curTime = s.evm.lastCompletion + 1)
    (htree : s'.evm.evTree = (popEvents s.evm.evTree s.ctl.curTime).1) (hfloor : s'.floor ≤ s.ctl.curTime)
    (hpopped : s'.failed = none → s'.floor = s.ctl.curTime ∧
      ∀ x ∈ s'.log.popped, x ∈ s.log.popped ∨ x.time = s.ctl.curTime) : s'.Punctual := by
  have hold : s.floor = s.evm.lastCompletion := floor_eq hpc nofun nofun
  refine ⟨fun x hx => ?_, fun hfailed x hx => ?_⟩
  · rw [htree] at hx
    have hne := popEvents_left hx
    obtain ⟨l, hl, hx⟩ := EvTree.mem_pending.1 hx
    have hlt := h.pending x (EvTree.mem_pending.2 ⟨l, (OrdTable.mem_delete.1 hl).1, hx⟩)
    omega
  · obtain ⟨hfloor', hcases⟩ := hpopped hfailed
    rcases hcases x hx with hx | hx
    · have hle := h.popped hrun x hx
      omega
    · omega

theorem ctlStep (h : s.Punctual) (hrun : s.failed = none) (hinv : s.clockwork.Inv) (hs : s.CtlStep s') :
    s'.Punctual := by
  have hnext : s.ctl.pc = .pop → s.ctl.curTime = s.evm.lastCompletion + 1 := fun hpc => by
    have hbusy : s.clockwork.ctl = .busy := congrArg CtlPc.stage hpc
    obtain ⟨hclock, hlast⟩ := hinv.busy hbusy
    have hclock' : s.ctl.curTime = s.timer.timer.clock := hclock
    have hlast' : s.evm.lastCompletion = s.timer.timer.clock - 1 := hlast
    omega
  cases hs with
  | popNone hpc hpop =>
      exact h.pop hrun hpc (hnext hpc) rfl (le_refl s.ctl.curTime) fun _ => ⟨rfl, fun x hx => Or.inl hx⟩
  | popCrash evList hpc hpop _ =>
      refine h.pop hrun hpc (hnext hpc) rfl ?_ nofun
      have hfloor : s.floor = s.evm.lastCompletion := floor_eq hpc nofun nofun
      have hnext := hnext hpc
      have hsame : Env.floor (fail { s with
        evm := { s.evm with evTree := (popEvents s.evm.evTree s.ctl.curTime).1 }
        log := { s.log with popped := s.log.popped ++ evList.dues } } .guardSpacing) = s.floor := by
          simp [floor, hpc]
      omega
  | pop evList hpc hpop _ =>
      refine h.pop hrun hpc (hnext hpc) rfl (le_refl s.ctl.curTime) fun _ => ⟨rfl, fun x hx => ?_⟩
      rcases List.mem_append.1 hx with hx | hx
      · exact Or.inl hx
      · exact Or.inr ((CsEventList.mem_dues hx).trans (popEvents_time hpop))
  | batchWait ids hpc | batchEnd hpc | signal hpc =>
      exact h.keep hrun rfl rfl (by simp [floor, hpc])
  | pass b' r hpc _ | leave b' r hpc _ =>
      refine h.ctlMove hrun hpc rfl nofun nofun (fun j => ?_) ?_ rfl rfl rfl <;> split <;> nofun
  | «begin» hpc | firstClock hpc | setRunning hpc | arrive _ hpc _ | clock hpc | stops hpc _
  | early hpc _ _ | goOn hpc _ _ | setNotRunning hpc =>
      exact h.ctlMove hrun hpc rfl nofun nofun nofun nofun rfl rfl rfl

/-- A request for a tick above the floor. -/
theorem schedule (h : s.Punctual) (hrun : s.failed = none) {src : Source W m} {ev : CsEvent δ} {time : Int}
    (hok : ev.etype = none ∨ s.floor < time) (hs : s.scheduleStep src ev time = some s') : s'.Punctual := by
  obtain ⟨-, rfl⟩ := scheduleStep_cases hs
  refine ⟨fun x hx => ?_, fun _ => h.popped hrun⟩
  show s.floor < x.time
  rcases csEvmScheduleEvent_pending s.evm.evTree ev time with ⟨-, hrefused⟩ | ⟨hsome, -, hpending⟩
  · simp only [hrefused] at hx
    exact h.pending x hx
  · rcases List.mem_cons.1 (hpending.subset hx) with rfl | hx
    · exact hok.resolve_left hsome
    · exact h.pending x hx

/-- **The steps outside the pools.** -/
theorem own (h : s.Punctual) (hrun : s.failed = none) (hinv : s.clockwork.Inv) {a : EnvAction W m δ}
    (hok : ∀ src ev time, a = .schedule src ev time → ev.etype = none ∨ s.floor < time)
    (hs : s.step cfg a = some s') : s'.Punctual := by
  cases a with
  | preStart r | simStart | fini =>
      obtain ⟨-, rfl⟩ := mainStep_cases hs
      exact h.keep hrun rfl rfl rfl
  | engine b =>
      have hstep := EngineStep.of hs
      obtain ⟨hctl, -, -, hlog, htree⟩ := hstep.frame
      apply h.keep hrun htree (by rw [hlog])
      unfold floor
      rw [hctl]
      cases hstep <;> rfl
  | ctl => exact h.ctlStep hrun hinv (.of hs)
  | slice w => cases SliceStep.of hs <;> exact h.keep hrun rfl rfl rfl
  | schedule src ev time => exact h.schedule hrun (hok src ev time rfl) hs

/-- The steps of the pools. -/
theorem evm [DecidableEq δ] (h : s.Punctual) (hrun : s.failed = none) {e : PoolEvent (W + 1) (EvTask δ)}
    (hs : s.EvmStep e s') : s'.Punctual := by
  cases hs with
  | controllerStarts w t hpc | controllerEnds w t _ _ hpc =>
      exact h.ctlMove hrun hpc rfl nofun nofun nofun nofun rfl rfl rfl
  | batch j j' _ hpc _ => exact h.keep hrun rfl rfl (by simp [floor, hpc])
  | _ => exact h.keep hrun rfl rfl rfl

theorem eng (h : s.Punctual) (hrun : s.failed = none) {e : PoolEvent m UserTask} (hs : s.EngStep e s') :
    s'.Punctual := by
  cases hs <;> exact h.keep hrun rfl rfl rfl

end Punctual

end Env

/-- **No event is left behind** in any run whose controller raises events from tick 1 on, and
whose events are scheduled for ticks above the floor. -/
theorem punctual_reachable [DecidableEq δ] {cfg : Config} {v : View W m δ}
    {ok : View W m δ → ViewLabel W m δ → Prop}
    (hone : ∀ v l, ok v l → ViewLabel.meets Env.StartsAtOne v l)
    (hfloor : ∀ v : View W m δ, v.Timed → ∀ src ev time, ok v (.own (.schedule src ev time)) →
      ev.etype = none ∨ v.env.floor < time)
    (h : Lts.ReachableIf (viewSystem cfg W m) ok v) : v.env.Punctual := by
  refine h.invariant_of (P := View.Timed) (I := fun v => v.env.Punctual)
    (fun v hv => timed_reachable hone hv) (fun v hv => ?_) fun v l v' htimed _ hi hok hs => ?_
  · rw [show v = _ from hv]
    exact .init cfg
  · cases hs with
    | own hrun hstep =>
        refine hi.own hrun htimed.inv (fun src ev time ha => ?_) hstep
        subst ha
        exact hfloor v htimed src ev time hok
    | evm hrun hp hobs => exact hi.evm hrun (.of hobs)
    | eng hrun hp hobs => exact hi.eng hrun (.of hobs)

section Conditions

variable [DecidableEq δ] {cfg : Config} {v : View W m δ} {ok : View W m δ → ViewLabel W m δ → Prop}
  (himp : ∀ v l, ok v l → ViewLabel.meets Env.StartsAtOne v l) (hW : W ≠ 0)
  (h : Lts.ReachableIf (viewSystem cfg W m) ok v)
include himp hW h

/-- **Events are thrown on time** in every run whose controller raises events from tick 1
on. -/
theorem onTime_reachable : v.OnTime := by
  refine h.invariant_of (P := fun v => v.Timed ∧ v.EvmLinked)
    (fun v hv => ⟨timed_reachable himp hv, evmLinked_reachable hW hv⟩) (fun v hv => ?_)
    fun v l v' hP _ hi _ hs => hi.step hP.1 hP.2 hs
  rw [show v = _ from hv]
  intro x hx
  simp [Env.init] at hx

end Conditions

end ComplexSim.Engine
