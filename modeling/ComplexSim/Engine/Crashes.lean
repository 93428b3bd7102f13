import ComplexSim.Engine.Divisors
import ComplexSim.Engine.Ledger
import ComplexSim.Engine.Phases

/-!
# What can crash a simulation

Up to `cs_engine_fini` a run can fail in one way only: `_loop_activity` divides by the step of an activity
that has been bound with the step zero. No event worker runs out of events or throws one without a type,
and the closing assertion holds.
-/

namespace ComplexSim.Engine

open Workerpool Events

variable {W m : Nat} {δ : Type}

section Types

variable [DecidableEq δ] {cfg : Config} {v v' : View W m δ} {l : ViewLabel W m δ}

/-- Every accepted event has a type. -/
def Env.Typed (s : Env W m δ) : Prop := ∀ x ∈ s.log.accepted, x.ev.etype ≠ none

omit [DecidableEq δ] in
theorem Env.Typed.own {s s' : Env W m δ} (h : s.Typed) {a : EnvAction W m δ} (hs : s.step cfg a = some s') : s'.Typed := by
  have hkeep : s'.log.accepted = s.log.accepted → s'.Typed := by
    intro hlog x hx
    exact h x (hlog ▸ hx)
  cases a with
  | preStart r | simStart | fini =>
      obtain ⟨-, rfl⟩ := Env.mainStep_cases hs
      exact hkeep rfl
  | engine b => exact hkeep (by rw [(Env.EngineStep.of hs).frame.2.2.2.1])
  | ctl => exact hkeep (Env.CtlStep.of hs).frame.2.2.2.2.1
  | slice w => cases Env.SliceStep.of hs <;> exact hkeep rfl
  | schedule src ev time =>
      obtain ⟨-, rfl⟩ := Env.scheduleStep_cases hs
      rcases csEvmScheduleEvent_pending s.evm.evTree ev time with ⟨-, hrefused⟩ | ⟨hsome, -, -⟩
      · exact hkeep (by simp [hrefused])
      · intro x hx
        dsimp only at hx
        split at hx
        · rcases List.mem_append.1 hx with hx | hx
          · exact h x hx
          · rw [List.mem_singleton.1 hx]
            exact hsome
        · exact h x hx

omit [DecidableEq δ] in
/-- The event that a walk comes to has been accepted. -/
theorem View.EvmLinked.accepted (h : v.EvmLinked) (hopen : v.evm.closed = false) (hledger : v.env.Ledger)
    {w : Fin (W + 1)} {r : SliceRun δ} {ev : CsEvent δ} {rest : List (CsEvent δ)} (hr : v.env.slices w = some r)
    (hlt : (r.c : Int) < r.data.numEvents) (hcur : r.curEv = ev :: rest) :
    (⟨ev, r.data.scheduledAt⟩ : Due δ) ∈ v.env.log.accepted := by
  obtain ⟨spot, rem, hlink⟩ := h
  obtain ⟨t, -, -, hleft, hfits⟩ := hlink.walk_spot hr
  have hpopped := hlink.popped.resolve_left (by simp [hopen])
  have hmem : (⟨ev, r.data.scheduledAt⟩ : Due δ) ∈ r.left := by
    have hpos : 0 < (r.data.numEvents - r.c).toNat := by omega
    obtain ⟨k, hk⟩ := Nat.exists_eq_succ_of_ne_zero (Nat.ne_of_gt hpos)
    simp [SliceRun.left, hcur, hk]
  have hrem : (⟨ev, r.data.scheduledAt⟩ : Due δ) ∈ (List.range W).flatMap rem :=
    List.mem_flatMap.2 ⟨r.data.guardIndex, List.mem_range.2 hfits.index, hleft ▸ hmem⟩
  have hin := hpopped.mem_iff.2 (List.mem_append_right _ hrem)
  exact hledger.accepted.mem_iff.2 (List.mem_append_right _ hin)

end Types

section Crashes

variable [DecidableEq δ] {cfg : Config} {v : View W m δ}

/-- The run has not crashed, or an activity has been bound with the step zero. -/
def Env.Whole (cfg : Config) (s : Env W m δ) : Prop :=
  s.failed = none ∨ s.failed = some .stepTest ∧ ∃ a ∈ cfg.activities, a.nsteps = 0

omit [DecidableEq δ] in
/-- **The steps outside the pools.** -/
theorem Env.Whole.own {env : Env W m δ} (hW : W ≠ 0) (hrun : v.env.failed = none) (hlinked : v.EvmLinked)
    (hopen : v.evm.closed = false) (hledger : v.env.Ledger) (htyped : v.env.Typed)
    (hsteps : v.env.engine.activities.map (·.nsteps) = cfg.activities.map (·.nsteps))
    (hclosing : env.failed ≠ some .closing) {a : EnvAction W m δ} (hs : v.env.step cfg a = some env) : env.Whole cfg := by
  have hkeeps := Divisors.Keeps.own hs
  have hsame : env.failed = v.env.failed → env.Whole cfg := fun h => Or.inl (h.trans hrun)
  cases a with
  | preStart r | simStart | fini =>
      obtain ⟨-, rfl⟩ := Env.mainStep_cases hs
      exact hsame rfl
  | engine b =>
      cases Env.EngineStep.of hs with
      | loopCrash _ _ _ =>
          obtain ⟨a, ha, hzero⟩ := (hkeeps.test rfl).resolve_left (by simp [hrun])
          have hin : a.nsteps ∈ cfg.activities.map (·.nsteps) := hsteps ▸ List.mem_map_of_mem ha
          obtain ⟨a', ha', heq⟩ := List.mem_map.1 hin
          exact Or.inr ⟨rfl, a', ha', heq.trans hzero⟩
      | closingFails _ _ => exact absurd rfl hclosing
      | _ => exact hsame rfl
  | ctl =>
      cases Env.CtlStep.of hs with
      | popCrash _ _ _ hzero => exact absurd hzero hW
      | _ => exact hsame rfl
  | slice w =>
      cases Env.SliceStep.of hs with
      | nullEvent r hr _ hlt hcur =>
          obtain ⟨spot, rem, hlink⟩ := hlinked
          exact absurd hcur (hlink.no_nullEvent hr hlt)
      | eventType r ev rest hr _ hlt hcur htype =>
          exact absurd htype (htyped _ (hlinked.accepted hopen hledger hr hlt hcur))
      | _ => exact hsame rfl
  | schedule src ev time =>
      obtain ⟨-, rfl⟩ := Env.scheduleStep_cases hs
      exact hsame rfl

end Crashes

theorem Env.AboveFloor.startsAtOne {s : Env W m δ} {a : EnvAction W m δ} (h : s.AboveFloor a) : s.StartsAtOne a := by
  cases a with
  | preStart r => exact h
  | _ => trivial

end ComplexSim.Engine
