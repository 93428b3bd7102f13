import ComplexSim.Engine.Rounds

/-!
# What a program leaves open

`Outcome` says what a run of a simulation has done in the end, without its steps: its jobs stage
by stage, the tasks of each loop, and the handlers of the events that were due, until the
termination function answered. Where the jobs of a stage commute, two outcomes of one program are
the same but for the order within the stages (`Outcome.unique`).
-/

namespace ComplexSim.Engine

open Workerpool Events

variable {δ σ : Type}

/-- The state of the program when the jobs up to tick `i` are done. -/
def Program.stateAfter (prog : Program δ σ) (done : List (Job δ)) (i : Int) : σ :=
  (Effect.run prog.job (done.filter (·.stage < 2 * i + 2)) prog.start).1

/-- The last tick of an outcome is `N`. -/
structure Outcome (prog : Program δ σ) (cfg : Config) (done : List (Job δ)) (thrown : List (Due δ)) (N : Nat) :
    Prop where
  sorted : done.Pairwise fun a b => a.stage ≤ b.stage
  range : ∀ j ∈ done, 0 ≤ j.stage ∧ j.stage < 2 * N + 2
  blocks : ∀ k < 2 * N + 2, (blocksAt k done).Perm (codesOf cfg k)
  handlers : (done.filterMap Job.event?).Perm (thrown.filter (cfg.handles ·.ev))
  thrown : thrown.Perm
    ((accepts (prog.initial ++ (Effect.run prog.job done prog.start).2)).filter (·.time ≤ N))
  goesOn : ∀ i < N, prog.stops i (prog.stateAfter done i) = false
  stops : prog.stops N (prog.stateAfter done N) = true

/-- The stage of a job is in its tick. -/
theorem Job.stage_tick (j : Job δ) : 2 * j.tick ≤ j.stage ∧ j.stage ≤ 2 * j.tick + 1 := by
  cases j with
  | handler x =>
      show 2 * x.time ≤ 2 * x.time ∧ 2 * x.time ≤ 2 * x.time + 1
      omega
  | block x tick =>
      cases htype : x.type <;> simp only [Job.stage, Job.tick, htype] <;> omega

/-- The jobs of a stage are its handlers and its tasks. -/
theorem filter_stage (k : Nat) (done : List (Job δ)) :
    (done.filter (·.stage = (k : Int))).Perm (((done.filterMap Job.event?).filter (2 * ·.time = (k : Int))).map .handler ++
      (blocksAt k done).map (.block · (k / 2 : Int))) := by
  induction done with
  | nil => exact .nil
  | cons j rest ih =>
      cases j with
      | handler x =>
          have hblocks : blocksAt k (Job.handler x :: rest) = blocksAt k rest := rfl
          have hevents : (Job.handler x :: rest).filterMap Job.event? = x :: rest.filterMap Job.event? := rfl
          have hstage : (Job.handler x : Job δ).stage = 2 * x.time := rfl
          rw [hblocks, hevents, List.filter_cons, List.filter_cons, hstage]
          split
          · exact ih.cons _
          · exact ih
      | block x tick =>
          by_cases hk : (Job.block x tick : Job δ).stage = k
          · have htick : tick = k / 2 := by
              have hstage := (Job.block x tick : Job δ).stage_tick
              rw [hk] at hstage
              show (Job.block x tick : Job δ).tick = k / 2
              omega
            rw [List.filter_cons_of_pos (by simpa using hk)]
            have hblocks : blocksAt k (Job.block x tick :: rest) = x :: blocksAt k rest := by
              simp [blocksAt, Job.blockAt?, hk]
            rw [hblocks, List.map_cons, ← htick]
            exact (ih.cons _).trans (htick ▸ List.perm_middle.symm)
          · have hblocks : blocksAt k (Job.block x tick :: rest) = blocksAt k rest := by
              simp [blocksAt, Job.blockAt?, hk]
            rw [List.filter_cons_of_neg (by simpa using hk), hblocks]
            exact ih

namespace Outcome

variable {prog : Program δ σ} {cfg : Config} {done done' : List (Job δ)} {thrown thrown' : List (Due δ)} {N N' : Nat}

/-- What is requested from stage `k` on is for later ticks. -/
theorem requests_at (h : Outcome prog cfg done thrown N) (hlater : prog.Later) (k : Nat) :
    (prog.initial ++ (Effect.run prog.job done prog.start).2).filter (2 * ·.time = (k : Int)) =
      (prog.initial ++ (Effect.run prog.job (done.filter (·.stage < (k : Int))) prog.start).2).filter
        (2 * ·.time = (k : Int)) := by
  have hcut := filter_lt_append h.sorted k
  have hrest : ∀ u, ((Effect.run prog.job (done.filter ((k : Int) ≤ ·.stage)) u).2).filter (2 * ·.time = (k : Int)) = [] := by
    intro u
    rw [List.filter_eq_nil_iff]
    intro x hx
    obtain ⟨j, hj, t, hreq⟩ := Effect.exists_of_mem_run hx
    have hlt := hlater.job j t x hreq
    have hstage := j.stage_tick
    have hle : (k : Int) ≤ j.stage := by simpa using (List.mem_filter.1 hj).2
    simp only [decide_eq_true_iff]
    omega
  conv_lhs => rw [hcut, Effect.run_append]
  rw [List.filter_append, List.filter_append, List.filter_append, hrest, List.append_nil]

/-- The handlers of a stage are those of the events requested before it. -/
theorem handlers_at (h : Outcome prog cfg done thrown N) (hlater : prog.Later) {k : Nat} (hk : k < 2 * N + 2) :
    ((done.filterMap Job.event?).filter (2 * ·.time = (k : Int))).Perm
      (((accepts (prog.initial ++ (Effect.run prog.job (done.filter (·.stage < (k : Int))) prog.start).2)).filter
        (2 * ·.time = (k : Int))).filter (cfg.handles ·.ev)) := by
  have hthrown : (thrown.filter (2 * ·.time = (k : Int))).Perm
      ((accepts (prog.initial ++ (Effect.run prog.job done prog.start).2)).filter (2 * ·.time = (k : Int))) := by
    refine (h.thrown.filter _).trans (.of_eq ?_)
    rw [List.filter_filter]
    refine List.filter_congr fun x _ => ?_
    rw [← Bool.decide_and, decide_eq_decide]
    omega
  have hswap : ∀ l : List (Due δ), (accepts l).filter (2 * ·.time = (k : Int)) =
      accepts (l.filter (2 * ·.time = (k : Int))) := fun l => List.filter_comm ..
  rw [hswap, h.requests_at hlater, ← hswap] at hthrown
  refine (h.handlers.filter _).trans ?_
  rw [List.filter_comm]
  exact hthrown.filter _

/-- **Two outcomes of a program whose jobs commute within a stage are the same in each stage.** -/
theorem agree (h : Outcome prog cfg done thrown N) (h' : Outcome prog cfg done' thrown' N') (hlater : prog.Later)
    (hcomm : ∀ a b : Job δ, a.stage = b.stage → Effect.Commutes prog.job a b) {k : Nat} (hk : k ≤ 2 * N + 2)
    (hk' : k ≤ 2 * N' + 2) :
    (Effect.run prog.job (done.filter (·.stage < (k : Int))) prog.start).1 =
        (Effect.run prog.job (done'.filter (·.stage < (k : Int))) prog.start).1 ∧
      (Effect.run prog.job (done.filter (·.stage < (k : Int))) prog.start).2.Perm
        (Effect.run prog.job (done'.filter (·.stage < (k : Int))) prog.start).2 := by
  induction k with
  | zero =>
      have hnil : ∀ {l : List (Job δ)}, (∀ j ∈ l, 0 ≤ j.stage) → l.filter (·.stage < ((0 : Nat) : Int)) = [] := by
        intro l hl
        rw [List.filter_eq_nil_iff]
        intro j hj
        have hle := hl j hj
        simpa using hle
      rw [hnil fun j hj => (h.range j hj).1, hnil fun j hj => (h'.range j hj).1]
      exact ⟨rfl, .refl _⟩
  | succ k ih =>
      obtain ⟨hstate, hout⟩ := ih (by omega) (by omega)
      -- the jobs of stage `k` are those of the other run
      have hjobs : (done.filter (·.stage = (k : Int))).Perm (done'.filter (·.stage = (k : Int))) := by
        refine (filter_stage k done).trans (.trans ?_ (filter_stage k done').symm)
        refine List.Perm.append (.map _ ?_) (.map _ ?_)
        · refine (h.handlers_at hlater (by omega)).trans (.trans ?_ (h'.handlers_at hlater (by omega)).symm)
          exact (((hout.append_left _).filter _).filter _).filter _
        · exact (h.blocks k (by omega)).trans (h'.blocks k (by omega)).symm
      have hwithin : ∀ a ∈ done.filter (·.stage = (k : Int)), ∀ b ∈ done.filter (·.stage = (k : Int)),
          Effect.Commutes prog.job a b := by
        intro a ha b hb
        have ha : a.stage = k := by simpa using (List.mem_filter.1 ha).2
        have hb : b.stage = k := by simpa using (List.mem_filter.1 hb).2
        exact hcomm a b (ha.trans hb.symm)
      obtain ⟨hstate', hout'⟩ := Effect.run_perm hjobs hwithin
        (Effect.run prog.job (done.filter (·.stage < (k : Int))) prog.start).1
      have hsucc : ((k + 1 : Nat) : Int) = k + 1 := by omega
      rw [hsucc, filter_lt_succ h.sorted, filter_lt_succ h'.sorted, Effect.run_append, Effect.run_append, ← hstate]
      exact ⟨hstate', hout.append hout'⟩

/-- All jobs come before the last tick is over. -/
theorem filter_last (h : Outcome prog cfg done thrown N) :
    done.filter (·.stage < ((2 * N + 2 : Nat) : Int)) = done := by
  rw [List.filter_eq_self]
  intro j hj
  have hlt := (h.range j hj).2
  simp only [decide_eq_true_iff]
  omega

/-- No outcome ends before another. -/
theorem last_le (h : Outcome prog cfg done thrown N) (h' : Outcome prog cfg done' thrown' N') (hlater : prog.Later)
    (hcomm : ∀ a b : Job δ, a.stage = b.stage → Effect.Commutes prog.job a b) : N' ≤ N := by
  by_contra hlt
  obtain ⟨hstate, -⟩ := h.agree h' hlater hcomm (k := 2 * N + 2) (le_refl _) (by omega)
  have hyes := h.stops
  have hno := h'.goesOn N (by omega)
  have hcast : ((2 * N + 2 : Nat) : Int) = 2 * N + 2 := by omega
  rw [hcast] at hstate
  unfold Program.stateAfter at hyes hno
  rw [hstate, hno] at hyes
  cases hyes

/-- **Two outcomes of a program have thrown the same events.** -/
theorem unique (h : Outcome prog cfg done thrown N) (h' : Outcome prog cfg done' thrown' N') (hlater : prog.Later)
    (hcomm : ∀ a b : Job δ, a.stage = b.stage → Effect.Commutes prog.job a b) : thrown.Perm thrown' := by
  obtain rfl : N = N' := le_antisymm (h'.last_le h hlater hcomm) (h.last_le h' hlater hcomm)
  obtain ⟨-, hout⟩ := h.agree h' hlater hcomm (k := 2 * N + 2) (le_refl _) (le_refl _)
  rw [h.filter_last, h'.filter_last] at hout
  refine h.thrown.trans (.trans ?_ h'.thrown.symm)
  exact ((hout.append_left _).filter _).filter _

end Outcome

end ComplexSim.Engine
