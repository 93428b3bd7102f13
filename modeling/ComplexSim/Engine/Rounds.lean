import ComplexSim.Engine.Books

/-!
# The loops of a run

`_loop_activity` is called for `USER` and for `AFTER_STEP` at each tick in turn. `Env.round` counts
these loops, that of tick 0 included; `codesOf` says what each of them enqueues, which depends on
nothing but the activities bound. In every `ACTIVITY_SCAN` run the tasks that have begun for a loop
that is over are those that it enqueued, each of them once (`Rounds`).
-/

namespace ComplexSim.Engine

open Workerpool Events

variable {W m : Nat} {δ : Type}

/-- The type of loop `k`; its tick is half of `k`. -/
def roundType (k : Nat) : ActivityType := if k % 2 = 0 then .user else .afterStep

/-- What loop `k` enqueues, and the activities after it. -/
def roundStep (k : Nat) (acts : List CsUserActivity) : List UserTask × List CsUserActivity :=
  if k / 2 = 0 ∨ totalTasks acts = 0 then ([], acts)
  else (scheduleActivities (k / 2 : Nat) (roundType k) 0 acts).getD ([], acts)

/-- The activities before loop `k`. -/
def actsBefore (cfg : Config) : Nat → List CsUserActivity
  | 0 => cfg.activities
  | k + 1 => (roundStep k (actsBefore cfg k)).2

/-- What loop `k` enqueues. -/
def codesOf (cfg : Config) (k : Nat) : List UserTask := (roundStep k (actsBefore cfg k)).1

theorem codesOf_nodup (cfg : Config) (k : Nat) : (codesOf cfg k).Nodup := by
  unfold codesOf roundStep
  split
  · exact .nil
  · cases hsched : scheduleActivities (k / 2 : Nat) (roundType k) 0 (actsBefore cfg k) with
    | none => exact .nil
    | some r => exact (scheduleActivities_codes hsched).2.1

namespace EnginePc

/-- How far the engine is in the loops of the tick due. -/
def offset : EnginePc → Int
  | .main | .start _ _ | .setNsync | .firstClock | .evmRunning | .wpStart | .loop .afterStep _ => -1
  | .completion | .inCompletion => 1
  | _ => 0

/-- The engine has enqueued tasks of its loop, or is about to. -/
def joining : EnginePc → Bool
  | .loop _ (.join _) => true
  | _ => false

end EnginePc

/-- The loop that the engine is in or comes to next. -/
def Env.round (s : Env W m δ) : Int := 2 * s.clockwork.due + s.engine.pc.offset

/-- The loop at which a task has begun. -/
def Job.blockAt? (k : Nat) : Job δ → Option UserTask
  | .handler _ => none
  | .block x tick => if (Job.block x tick : Job δ).stage = k then some x else none

/-- The tasks that have begun at loop `k`. -/
def blocksAt (k : Nat) (done : List (Job δ)) : List UserTask := done.filterMap (Job.blockAt? k)

theorem mem_blocksAt {k : Nat} {done : List (Job δ)} {x : UserTask} :
    x ∈ blocksAt k done ↔ ∃ tick, Job.block x tick ∈ done ∧ (Job.block x tick : Job δ).stage = k := by
  unfold blocksAt
  rw [List.mem_filterMap]
  constructor
  · rintro ⟨j, hj, hx⟩
    cases j with
    | handler y => cases hx
    | block y tick =>
        simp only [Job.blockAt?] at hx
        split at hx
        · obtain rfl := Option.some.inj hx
          exact ⟨tick, hj, ‹_›⟩
        · cases hx
  · rintro ⟨tick, hj, hstage⟩
    exact ⟨_, hj, if_pos hstage⟩

section Held

variable {n : Nat} {α : Type} {p p' : TaskPool n α} {e : PoolEvent n α} {k : Caller n}

/-- The code `x` is in a call of `k` that enqueues it, or in a task that has not begun. -/
def Held (p : TaskPool n α) (k : Caller n) (x : α) : Prop :=
  p.calls k = .enqueuing x ∨ ∃ t, p.phase t = .queued x

theorem held_congr (hcalls : ∀ x, p'.calls k = .enqueuing x ↔ p.calls k = .enqueuing x)
    (hphase : ∀ t x, p'.phase t = .queued x ↔ p.phase t = .queued x) (x : α) : Held p' k x ↔ Held p k x :=
  or_congr (hcalls x) (exists_congr fun t => hphase t x)

/-- Putting a thread from one request into another holds and drops no code, if neither enqueues one. -/
theorem held_setCall {j : Caller n} {r : Request α} (hold : ∀ x, p.calls j ≠ .enqueuing x) (hnew : ∀ x, r ≠ .enqueuing x)
    (x : α) : Held (p.setCall j r) k x ↔ Held p k x := by
  have hcalls : ∀ i y, some y ≠ none → ((p.setCall j r).calls i = .enqueuing y ↔ p.calls i = .enqueuing y) :=
    TaskPool.enqueuing_setCall (fun y _ => hold y) fun y _ => hnew y
  exact held_congr (fun y => hcalls k y nofun) (fun _ _ => Iff.rfl) x

/-- The thread calls `cs_wp_tsk_enqueue`. -/
theorem held_enqueueCall {x : α} (hs : p.Step (.enqueueCall k x) p') (y : α) : Held p' k y ↔ y = x ∨ Held p k y := by
  cases hs with
  | enqueueCall _ _ hidle =>
      unfold Held
      simp [hidle, eq_comm]

/-- A task begins. -/
theorem held_started {w : Fin n} {t : TskId} {x : α} (hs : p.Step (.started w t (some x)) p') (y : α) :
    Held p' k y ↔ p.calls k = .enqueuing y ∨ ∃ u, u ≠ t ∧ p.phase u = .queued y := by
  cases hs with
  | started _ _ _ hq _ =>
      refine or_congr Iff.rfl (exists_congr fun u => ?_)
      by_cases hu : u = t
      · subst hu
        simp
      · simp [hu]

/-- No other step of an open pool holds or drops a code, if only `k` enqueues. -/
theorem held_step (hs : p.Step e p') (hstarted : p.started = true) (hopen : p.closed = false)
    (hothers : ∀ j, j ≠ k → p.calls j = .idle) (hcall : ∀ x, e ≠ .enqueueCall k x)
    (hbegins : ∀ w t x, e ≠ .started w t (some x)) (hcaller : ∀ j, TaskPool.caller e = some j → j = k) (y : α) :
    Held p' k y ↔ Held p k y := by
  have hself : ∀ {j x}, p.calls j = .enqueuing x → j = k := by
    intro j x hj
    by_contra hne
    rw [hothers j hne] at hj
    cases hj
  cases hs with
  | tau | start | startAgain | shutdownCall | close | shutdownRet => exact Iff.rfl
  | statusCall j hj | statusRet j _ hj | waitCall j _ hj | waitRet j _ hj _ | enqueueRet j _ hj =>
      exact held_setCall (by simp [hj]) nofun y
  | enqueueCall j x _ =>
      obtain rfl := hcaller j rfl
      exact absurd rfl (hcall x)
  | accept j x t hj _ hnew =>
      obtain rfl := hself hj
      -- the code goes from the call to the task
      unfold Held
      have htask : ∀ z, (∃ u, Function.update p.phase t (.queued x) u = .queued z) ↔
          z = x ∨ ∃ u, p.phase u = .queued z := by
        intro z
        constructor
        · rintro ⟨u, hu⟩
          by_cases hut : u = t
          · subst hut
            simp at hu
            exact Or.inl hu.symm
          · exact Or.inr ⟨u, by simpa [hut] using hu⟩
        · rintro (rfl | ⟨u, hu⟩)
          · exact ⟨t, by simp⟩
          · have hut : u ≠ t := by
              rintro rfl
              rw [hnew] at hu
              cases hu
            exact ⟨u, by simpa [hut] using hu⟩
      simp only [TaskPool.setCall_calls, TaskPool.setCall_phase, TaskPool.setPhase_phase, Function.update_self,
        reduceCtorEq, false_or]
      rw [htask y, hj]
      simp [eq_comm]
  | drop j _ _ _ hclosed =>
      rw [hopen] at hclosed
      cases hclosed
  | refuse j _ _ hno => simp [hstarted, hopen] at hno
  | started w t x _ _ => exact absurd rfl (hbegins w t x)
  | finished w t x hr _ =>
      refine held_congr ?_ (fun u z => ?_) y
      · exact fun _ => Iff.rfl
      · by_cases hu : u = t
        · subst hu
          simp [hr]
        · simp [hu]

end Held

/-- A task that the engine has enqueued, or is about to, has not begun. -/
def Unstarted (s : Env W m δ) (q : TaskPool m UserTask) (x : UserTask) : Prop :=
  x ∈ s.engine.pc.codes ∨ Held q (.ext 0) x

/-- The loop `k` while it is on. -/
structure Joining (cfg : Config) (s : Env W m δ) (q : TaskPool m UserTask) (done : List (Job δ)) (k : Nat) :
    Prop where
  split : ∀ x ∈ codesOf cfg k, x ∈ blocksAt k done ∨ Unstarted s q x
  begun : ∀ x ∈ blocksAt k done, x ∈ codesOf cfg k ∧ ¬ Unstarted s q x
  codes : ∀ x, Unstarted s q x → x ∈ codesOf cfg k
  nodup : (blocksAt k done).Nodup

/-- The loops of a run; the engine is in loop `n` or comes to it. -/
structure Rounds (cfg : Config) (s : Env W m δ) (q : TaskPool m UserTask) (done : List (Job δ)) (n : Nat) :
    Prop where
  round : (n : Int) = s.round
  acts : s.engine.activities = actsBefore cfg (if s.engine.pc.joining then n + 1 else n)
  past : ∀ k < n, (blocksAt k done).Perm (codesOf cfg k)
  later : ∀ x tick, Job.block x tick ∈ done →
    (Job.block x tick : Job δ).stage < n ∨ s.engine.pc.joining = true ∧ (Job.block x tick : Job δ).stage = n
  loop : s.engine.pc.joining = true → Joining cfg s q done n

section Due

variable {s s' : Env W m δ}

/-- The tick due stays, unless the engine has finished the tick of the clock. -/
theorem Env.due_stays (hgoes : s.clockwork.Goes s'.clockwork)
    (h : s.engine.pc.stage ≠ .late ∧ s.engine.pc.stage ≠ .waiting ∨ ¬ s'.clockwork.ahead) :
    s'.clockwork.due = s.clockwork.due := by
  cases hgoes with
  | stays _ hdue => exact hdue
  | ends hengine hahead _ =>
      rcases h with ⟨hlate, hwaiting⟩ | hnot
      · rcases hengine with hc | hc
        · exact absurd hc hlate
        · exact absurd hc hwaiting
      · exact absurd hahead hnot
  | ticks hahead hnot hclock =>
      rw [Clockwork.due_of_ahead hahead, Clockwork.due_of_not_ahead hnot, hclock]

theorem Env.not_ahead (h : s.engine.pc.stage ≠ .behind) (h' : s.engine.pc.stage ≠ .inSync) : ¬ s.clockwork.ahead := by
  rintro (hc | ⟨hc, -⟩)
  · exact h hc
  · exact h' hc

/-- Steps that are not the engine's leave its round. -/
theorem Env.round_same (hgoes : s.clockwork.Goes s'.clockwork) (hengine : s'.engine = s.engine) :
    s'.round = s.round := by
  have hdue : s'.clockwork.due = s.clockwork.due := by
    apply due_stays hgoes
    by_cases hstage : s.engine.pc.stage ≠ .late ∧ s.engine.pc.stage ≠ .waiting
    · exact Or.inl hstage
    · refine Or.inr (not_ahead ?_ ?_) <;> rw [hengine] <;> intro hc <;> simp [hc] at hstage
  unfold Env.round
  rw [hdue, hengine]

/-- In a loop the engine's round is the stage of its tasks. -/
theorem Env.round_loop {atype : ActivityType} {p : LoopPc} (hpc : s.engine.pc = .loop atype p) : s.round = s.now := by
  have hahead := ahead_loop hpc
  unfold Env.round now
  rw [hpc]
  cases atype with
  | user =>
      rw [Clockwork.due_of_not_ahead (by simp [hahead])]
      show 2 * s.timer.timer.clock + 0 = s.timer.timer.clock + s.timer.timer.clock
      omega
  | afterStep =>
      rw [Clockwork.due_of_ahead (hahead.2 rfl)]
      show 2 * (s.timer.timer.clock + 1) + -1 = s.timer.timer.clock + (s.timer.timer.clock + 1)
      omega

/-- The tick and the type of the loop that the engine is in. -/
theorem Env.loop_of_round {atype : ActivityType} {p : LoopPc} {n : Nat} (hpc : s.engine.pc = .loop atype p)
    (hround : (n : Int) = s.round) :
    ((n / 2 : Nat) : Int) = s.timer.timer.clock ∧ roundType n = atype := by
  have hahead := ahead_loop hpc
  rw [round_loop hpc] at hround
  cases atype with
  | user =>
      rw [now_of_not_ahead (by simp [hahead])] at hround
      exact ⟨by omega, if_pos (by omega)⟩
  | afterStep =>
      rw [now_of_ahead (hahead.2 rfl)] at hround
      exact ⟨by omega, if_neg (by omega)⟩

end Due

namespace Rounds

variable {cfg : Config} {s s' : Env W m δ} {q q' : TaskPool m UserTask} {done : List (Job δ)} {n : Nat}

/-- A step outside the loops. -/
theorem keep (h : Rounds cfg s q done n) (hround : s'.round = s.round)
    (hacts : s'.engine.activities = s.engine.activities) (hold : s.engine.pc.joining = false)
    (hnew : s'.engine.pc.joining = false) : Rounds cfg s' q' done n where
  round := h.round.trans hround.symm
  acts := by
    have hsame := h.acts
    rw [hold] at hsame
    rw [hacts, hnew]
    exact hsame
  past := h.past
  later := fun x tick hx => Or.inl ((h.later x tick hx).resolve_right fun hj => by
    rw [hold] at hj
    cases hj.1)
  loop := by
    rw [hnew]
    nofun

/-- A step within a loop. -/
theorem within (h : Rounds cfg s q done n) (hround : s'.round = s.round)
    (hacts : s'.engine.activities = s.engine.activities) (hold : s.engine.pc.joining = true)
    (hnew : s'.engine.pc.joining = true) (hunstarted : ∀ x, Unstarted s' q' x ↔ Unstarted s q x) :
    Rounds cfg s' q' done n where
  round := h.round.trans hround.symm
  acts := by
    have hsame := h.acts
    rw [hold] at hsame
    rw [hacts, hnew]
    exact hsame
  past := h.past
  later := fun x tick hx => (h.later x tick hx).imp_right fun hj => ⟨hnew, hj.2⟩
  loop := fun _ => by
    obtain ⟨hsplit, hbegun, hcodes, hnodup⟩ := h.loop hold
    exact ⟨fun x hx => (hsplit x hx).imp_right (hunstarted x).2,
      fun x hx => ⟨(hbegun x hx).1, fun hun => (hbegun x hx).2 ((hunstarted x).1 hun)⟩,
      fun x hx => hcodes x ((hunstarted x).1 hx), hnodup⟩

/-- A step that leaves the engine alone. -/
theorem same (h : Rounds cfg s q done n) (hround : s'.round = s.round) (hengine : s'.engine = s.engine) :
    Rounds cfg s' q done n := by
  cases hj : s.engine.pc.joining with
  | false => exact h.keep hround (by rw [hengine]) hj (by rw [hengine]; exact hj)
  | true =>
      refine h.within hround (by rw [hengine]) hj (by rw [hengine]; exact hj) fun x => ?_
      unfold Unstarted
      rw [hengine]

/-- A loop is over. -/
theorem ends (h : Rounds cfg s q done n) (hround : s'.round = s.round + 1) (hnew : s'.engine.pc.joining = false)
    (hacts : s'.engine.activities = actsBefore cfg (n + 1)) (hperm : (blocksAt n done).Perm (codesOf cfg n)) :
    Rounds cfg s' q done (n + 1) where
  round := by
    have hn := h.round
    push_cast
    omega
  acts := by
    rw [hnew]
    exact hacts
  past := fun k hk => by
    rcases Nat.lt_succ_iff_lt_or_eq.1 hk with hk | rfl
    · exact h.past k hk
    · exact hperm
  later := fun x tick hx => by
    have hlt := h.later x tick hx
    push_cast
    omega
  loop := by
    rw [hnew]
    nofun

/-- Before a loop no task of it has begun. -/
theorem blocksAt_nil (h : Rounds cfg s q done n) (hold : s.engine.pc.joining = false) : blocksAt n done = [] := by
  rw [List.eq_nil_iff_forall_not_mem]
  intro x hx
  obtain ⟨tick, hj, hstage⟩ := mem_blocksAt.1 hx
  rcases h.later x tick hj with hlt | ⟨hjoin, -⟩
  · omega
  · rw [hold] at hjoin
    cases hjoin

/-- A handler begins. -/
theorem handler (h : Rounds cfg s q done n) (x : Due δ) : Rounds cfg s q (done ++ [.handler x]) n := by
  have hblocks : ∀ k, blocksAt k (done ++ [.handler x]) = blocksAt k done := by
    intro k
    simp [blocksAt, Job.blockAt?]
  refine ⟨h.round, h.acts, fun k hk => by rw [hblocks]; exact h.past k hk, fun y tick hy => ?_, fun hjoin => ?_⟩
  · exact h.later y tick (by simpa using hy)
  · obtain ⟨hsplit, hbegun, hcodes, hnodup⟩ := h.loop hjoin
    rw [← hblocks n] at hsplit hbegun hnodup
    exact ⟨hsplit, hbegun, hcodes, hnodup⟩

/-- A task of the loop begins. -/
theorem block (h : Rounds cfg s q done n) (hjoin : s.engine.pc.joining = true) (hjoin' : s'.engine.pc.joining = true)
    (hround : s'.round = s.round) (hacts : s'.engine.activities = s.engine.activities) {x : UserTask} {tick : Int}
    (hstage : (Job.block x tick : Job δ).stage = n) (hx : Unstarted s q x)
    (hunstarted : ∀ y, Unstarted s' q' y ↔ Unstarted s q y ∧ y ≠ x) :
    Rounds cfg s' q' (done ++ [.block x tick]) n := by
  obtain ⟨hsplit, hbegun, hcodes, hnodup⟩ := h.loop hjoin
  have hlater : ∀ k < n, blocksAt k (done ++ [.block x tick]) = blocksAt k done := by
    intro k hk
    have hne : ¬ (Job.block x tick : Job δ).stage = k := by omega
    simp [blocksAt, Job.blockAt?, hne]
  have hnow : blocksAt n (done ++ [.block x tick]) = blocksAt n done ++ [x] := by
    simp [blocksAt, Job.blockAt?, hstage]
  have hnew : x ∉ blocksAt n done := fun hmem => (hbegun x hmem).2 hx
  refine ⟨h.round.trans hround.symm, ?_, fun k hk => ?_, fun y t hy => ?_, fun _ => ?_⟩
  · have hsame := h.acts
    rw [hjoin] at hsame
    rw [hacts, hjoin']
    exact hsame
  · rw [hlater k hk]
    exact h.past k hk
  · rcases List.mem_append.1 hy with hy | hy
    · exact (h.later y t hy).imp_right fun hj => ⟨hjoin', hj.2⟩
    · cases List.mem_singleton.1 hy
      exact Or.inr ⟨hjoin', hstage⟩
  · refine ⟨fun y hy => ?_, fun y hy => ?_, fun y hy => hcodes y ((hunstarted y).1 hy).1, ?_⟩
    · rw [hnow, List.mem_append, List.mem_singleton]
      by_cases hyx : y = x
      · exact Or.inl (Or.inr hyx)
      · exact (hsplit y hy).imp Or.inl fun hun => (hunstarted y).2 ⟨hun, hyx⟩
    · rw [hnow, List.mem_append, List.mem_singleton] at hy
      rcases hy with hy | rfl
      · exact ⟨(hbegun y hy).1, fun hun => (hbegun y hy).2 ((hunstarted y).1 hun).1⟩
      · exact ⟨hcodes y hx, fun hun => ((hunstarted y).1 hun).2 rfl⟩
    · rw [hnow]
      exact hnodup.append (List.nodup_singleton x) (by simpa using hnew)

end Rounds

/-- Outside its loops the engine has enqueued nothing. -/
theorem not_unstarted {s : Env W m δ} {q : TaskPool m UserTask} (hcodes : s.engine.pc.codes = []) (hquiet : Quiet q some)
    (x : UserTask) : ¬ Unstarted s q x := by
  rintro (hx | hx | ⟨t, hx⟩)
  · rw [hcodes] at hx
    cases hx
  · cases hquiet.calls _ x hx
  · cases hquiet.active t x (Or.inl hx)

section Steps

variable {cfg : Config} {s s' : Env W m δ} {q q' : TaskPool m UserTask} {done : List (Job δ)} {n : Nat}
  {spot : UserTask → Spot UserTask}

/-- The tick due stays in a loop and at its end. -/
theorem Env.due_loop (hgoes : s.clockwork.Goes s'.clockwork) {atype : ActivityType} {p : LoopPc}
    (hpc : s.engine.pc = .loop atype p) (hpc' : s'.engine.pc.stage = s.engine.pc.stage) :
    s'.clockwork.due = s.clockwork.due := by
  apply due_stays hgoes
  rw [hpc] at hpc' ⊢
  cases atype with
  | user =>
      have hlate : s'.clockwork.engine = .late := hpc'
      exact Or.inr (by simp [Clockwork.ahead, hlate])
  | afterStep => exact Or.inl ⟨by simp [EnginePc.stage], by simp [EnginePc.stage]⟩

/-- The engine is in a loop. -/
theorem Env.round_within (hgoes : s.clockwork.Goes s'.clockwork) {atype : ActivityType} {p p' : LoopPc}
    (hpc : s.engine.pc = .loop atype p) (hpc' : s'.engine.pc = .loop atype p') : s'.round = s.round := by
  unfold Env.round
  rw [due_loop hgoes hpc (by rw [hpc, hpc']; exact loop_stage atype p' p), hpc, hpc']
  cases atype <;> rfl

/-- The engine ends a loop. -/
theorem Env.round_afterLoop (hgoes : s.clockwork.Goes s'.clockwork) {atype : ActivityType} {p : LoopPc}
    (hpc : s.engine.pc = .loop atype p) (hpc' : s'.engine.pc = afterLoop atype) : s'.round = s.round + 1 := by
  unfold Env.round
  rw [due_loop hgoes hpc (by rw [hpc, hpc']; exact afterLoop_stage atype p), hpc, hpc']
  cases atype with
  | user => simp [afterLoop, EnginePc.offset]
  | afterStep =>
      simp only [afterLoop, EnginePc.offset]
      omega

/-- The engine begins the loops of the next tick. -/
theorem Env.round_next (hpc : s.engine.pc = .completion ∨ s.engine.pc = .inCompletion)
    (hpc' : s'.engine.pc = .loop .afterStep .clock) (hclock : s'.timer.timer.clock = s.timer.timer.clock) :
    s'.round = s.round := by
  have hnot : ¬ s.clockwork.ahead := by apply not_ahead <;> rcases hpc with hpc | hpc <;> rw [hpc] <;> nofun
  have hahead : s'.clockwork.ahead := Or.inl (congrArg EnginePc.stage hpc')
  have hoffset : s.engine.pc.offset = 1 := by rcases hpc with hpc | hpc <;> rw [hpc] <;> rfl
  have hoffset' : s'.engine.pc.offset = -1 := by rw [hpc']; rfl
  unfold Env.round
  rw [Clockwork.due_of_ahead hahead, Clockwork.due_of_not_ahead hnot, hoffset, hoffset']
  show 2 * (s'.timer.timer.clock + 1) + -1 = 2 * s.timer.timer.clock + 1
  omega

/-- The engine stays in its round until it ends a loop. -/
theorem Env.EngineStep.round (hst : cfg.st = .activityScan) (hgoes : s.clockwork.Goes s'.clockwork) {b : Bool}
    (hs : s.EngineStep cfg b s')
    (hloop : ∀ atype p, s.engine.pc = .loop atype p → s'.engine.pc ≠ Env.afterLoop atype) : s'.round = s.round := by
  have hmove : s'.engine.pc.offset = s.engine.pc.offset →
      (s.engine.pc.stage ≠ .late ∧ s.engine.pc.stage ≠ .waiting ∨ ¬ s'.clockwork.ahead) → s'.round = s.round := by
    intro hoffset hstage
    unfold Env.round
    rw [Env.due_stays hgoes hstage, hoffset]
  cases hs with
  | loopCrash | closingFails => exact Env.round_same hgoes rfl
  | loopFork _ _ _ hpc _ _ _ | loopWait _ _ hpc => exact Env.round_within hgoes hpc rfl
  | loopEnd atype hpc | loopSkip atype hpc _ => exact absurd rfl (hloop atype _ hpc)
  | completed hpc _ => exact Env.round_next (.inl hpc) rfl rfl
  | woken hpc _ => exact Env.round_next (.inr hpc) rfl rfl
  | clockDriven _ _ hdriven =>
      rw [hst] at hdriven
      cases hdriven
  | evmRunning hpc | finiRunning hpc =>
      refine hmove ?_ (Or.inl (by simp [hpc, EnginePc.stage]))
      rw [hpc]
      simp only [Env.setEngine_engine_pc]
      split <;> rfl
  | wait hpc _ =>
      exact hmove (by rw [hpc]; rfl) (Or.inr (by simp [Clockwork.ahead, Env.clockwork, EnginePc.stage]))
  | startTime _ _ hpc | setNsync hpc | firstClock hpc | noActivities hpc _ | terminate hpc _ _ | goOn hpc _
  | moreEvents hpc | pass _ _ hpc _ | arrive _ hpc _ | leave _ _ hpc _ | clockStop hpc _ | clockScan hpc _ _
  | stopController hpc | timeStop hpc | closing hpc _ | finiStop hpc =>
      exact hmove (by rw [hpc]; rfl) (Or.inl (by simp [hpc, EnginePc.stage]))

/-- **The steps of the engine.** -/
theorem Rounds.engineStep (h : Rounds cfg s q done n) (hst : cfg.st = .activityScan) (heng : EngLink s q spot)
    (hgoes : s.clockwork.Goes s'.clockwork) {b : Bool} (hs : s.EngineStep cfg b s') :
    ∃ n', Rounds cfg s' q done n' := by
  have hround := hs.round hst hgoes
  -- outside its loops the engine takes on no tasks
  have hwalk : s'.engine.activities = s.engine.activities → s'.engine.pc.joining = false →
      (∀ atype p, s.engine.pc ≠ .loop atype p) → ∃ n', Rounds cfg s' q done n' := by
    intro hacts hnew hold
    refine ⟨n, h.keep (hround fun atype p hpc => absurd hpc (hold atype p)) hacts ?_ hnew⟩
    cases hpc : s.engine.pc with
    | loop atype p => exact absurd hpc (hold atype p)
    | _ => rfl
  cases hs with
  | loopCrash | closingFails => exact ⟨n, h.same (Env.round_same hgoes rfl) rfl⟩
  | loopFork atype codes activities hpc hclock htasks hsched =>
      have hold : s.engine.pc.joining = false := by rw [hpc]; rfl
      have hacts : s.engine.activities = actsBefore cfg n := by simpa [hold] using h.acts
      obtain ⟨htick, htype⟩ := Env.loop_of_round hpc h.round
      have hstep : roundStep n (actsBefore cfg n) = (codes, activities) := by
        unfold roundStep
        rw [← hacts, if_neg (by omega), htick, htype, hsched]
        rfl
      have hcodes : codesOf cfg n = codes := congrArg Prod.fst hstep
      have hnot : ∀ x, ¬ Held q (.ext 0) x := fun x hx =>
        not_unstarted (by rw [hpc]; rfl) (heng.quiet (by simp [hpc])) x (Or.inr hx)
      have hunstarted : ∀ {s'' : Env W m δ}, s''.engine.pc.codes = codes → ∀ x, Unstarted s'' q x ↔ x ∈ codes := by
        intro s'' hpc'' x
        unfold Unstarted
        rw [hpc'']
        exact or_iff_left (hnot x)
      refine ⟨n, h.round.trans (Env.round_within hgoes hpc rfl).symm, ?_, h.past,
        fun x tick hx => Or.inl ((h.later x tick hx).resolve_right fun hj => ?_), fun _ => ?_⟩
      · show activities = (roundStep n (actsBefore cfg n)).2
        rw [hstep]
      · rw [hold] at hj
        cases hj.1
      · have hnil := h.blocksAt_nil hold
        refine ⟨fun x hx => Or.inr ?_, fun x hx => ?_, fun x hx => ?_, ?_⟩
        · rw [hcodes] at hx
          exact (hunstarted rfl x).2 hx
        · rw [hnil] at hx
          cases hx
        · rw [hcodes]
          exact (hunstarted rfl x).1 hx
        · rw [hnil]
          exact .nil
  | loopWait atype ids hpc =>
      have hjoin : s.engine.pc.joining = true := by rw [hpc]; rfl
      refine ⟨n, h.within (Env.round_within hgoes hpc rfl) rfl hjoin rfl fun x => or_congr_left ?_⟩
      rw [hpc]
      exact Iff.rfl
  | loopEnd atype hpc =>
      have hjoin : s.engine.pc.joining = true := by rw [hpc]; rfl
      have hforked := heng.forked
      rw [hpc] at hforked
      have hnot := not_unstarted (s := s) (by rw [hpc]; rfl) hforked.quiet
      obtain ⟨hsplit, hbegun, -, hnodup⟩ := h.loop hjoin
      have hperm : (blocksAt n done).Perm (codesOf cfg n) :=
        (List.perm_ext_iff_of_nodup hnodup (codesOf_nodup cfg n)).2 fun x =>
          ⟨fun hx => (hbegun x hx).1, fun hx => (hsplit x hx).resolve_right (hnot x)⟩
      refine ⟨n + 1, h.ends (Env.round_afterLoop hgoes hpc rfl) (by cases atype <;> rfl) ?_ hperm⟩
      simpa [hjoin] using h.acts
  | loopSkip atype hpc hskip =>
      have hold : s.engine.pc.joining = false := by rw [hpc]; rfl
      have hacts : s.engine.activities = actsBefore cfg n := by simpa [hold] using h.acts
      obtain ⟨htick, -⟩ := Env.loop_of_round hpc h.round
      have hstep : roundStep n (actsBefore cfg n) = ([], actsBefore cfg n) := by
        unfold roundStep
        rw [← hacts, if_pos (by omega)]
      refine ⟨n + 1, h.ends (Env.round_afterLoop hgoes hpc rfl) (by cases atype <;> rfl) ?_ ?_⟩
      · show s.engine.activities = (roundStep n (actsBefore cfg n)).2
        rw [hstep]
        exact hacts
      · rw [h.blocksAt_nil hold, codesOf, hstep]
  | evmRunning hpc | finiRunning hpc =>
      refine hwalk rfl ?_ (by simp [hpc])
      simp only [Env.setEngine_engine_pc]
      split <;> rfl
  | clockDriven hpc _ _ | startTime _ _ hpc | setNsync hpc | firstClock hpc | noActivities hpc _ | terminate hpc _ _
  | goOn hpc _ | moreEvents hpc | pass _ _ hpc _ | arrive _ hpc _ | leave _ _ hpc _ | clockStop hpc _
  | clockScan hpc _ _ | stopController hpc | timeStop hpc | closing hpc _ | wait hpc _ | completed hpc _
  | woken hpc _ | finiStop hpc => exact hwalk rfl rfl (by simp [hpc])

/-- A step that leaves the handshake alone, and the engine where it is in the loops. -/
theorem Env.round_congr (hclockwork : s'.clockwork = s.clockwork)
    (hoffset : s'.engine.pc.offset = s.engine.pc.offset) : s'.round = s.round := by
  unfold Env.round
  rw [hclockwork, hoffset]

theorem Env.EvmStep.round [DecidableEq δ] {e : PoolEvent (W + 1) (EvTask δ)} (hs : s.EvmStep e s') :
    s'.round = s.round := by
  apply Env.round_congr hs.clockwork
  cases hs with
  | startFailed byMain _ hpc _ | enqueued byMain _ hpc => cases byMain <;> rw [hpc] <;> rfl
  | start _ _ hpc _ | enqueueController _ hpc | shutdownCall _ hpc _ | shutdownRet _ _ hpc _ =>
      rw [hpc]
      rfl
  | _ => rfl

theorem Env.EngStep.round {e : PoolEvent m UserTask} (hs : s.EngStep e s') : s'.round = s.round := by
  apply Env.round_congr hs.clockwork
  cases hs with
  | loop atype _ _ _ hpc _ => cases atype <;> rw [hpc] <;> rfl
  | start _ hpc _ _ | shutdownCall _ hpc _ =>
      rw [hpc]
      rfl
  | shutdownRet k _ hpc _ =>
      rw [hpc]
      simp only [Env.setEngine_engine_pc]
      split <;> rfl
  | _ => rfl

theorem Env.round_mainStep {a : EnvAction W m δ} (hs : s.step cfg a = some s')
    (ha : a = .simStart ∨ a = .fini ∨ ∃ r, a = .preStart r) : s'.round = s.round := by
  rcases ha with rfl | rfl | ⟨r, rfl⟩ <;> obtain ⟨hpc, rfl⟩ := Env.mainStep_cases hs <;>
    exact Env.round_congr (Env.setEngine_clockwork (by rw [hpc]; rfl)) (by rw [hpc]; rfl)

/-- The steps of the pool of the event manager. -/
theorem Rounds.evm [DecidableEq δ] (h : Rounds cfg s q done n) {e : PoolEvent (W + 1) (EvTask δ)}
    (hs : s.EvmStep e s') : Rounds cfg s' q done n := by
  have hround := hs.round
  cases hs with
  | tau | controllerStarts | sliceStarts | sliceEnds | controllerEnds | batch => exact h.same hround rfl
  | startFailed byMain _ hpc _ | enqueued byMain _ hpc =>
      exact h.keep hround rfl (by rw [hpc]; rfl) (by cases byMain <;> rfl)
  | start _ _ hpc _ | enqueueController _ hpc | shutdownCall _ hpc _ | shutdownRet _ _ hpc _ =>
      exact h.keep hround rfl (by rw [hpc]; rfl) rfl

/-- The code of a task that begins is nowhere else. -/
theorem EngLink.unstarted_started (h : EngLink s q spot) (hengine : s'.engine = s.engine) {w : Fin m} {t : TskId}
    {x : UserTask} (hq : q.Step (.started w t (some x)) q') (y : UserTask) :
    Unstarted s' q' y ↔ Unstarted s q y ∧ y ≠ x := by
  have hqueued : q.phase t = .queued x := hq.queued
  have hspot : spot x = .task t x := (h.forked.tracks.task t x x rfl).1 (.inl hqueued)
  unfold Unstarted
  rw [hengine, held_started hq y]
  constructor
  · rintro (hy | hy | ⟨u, hu, hy⟩)
    · refine ⟨Or.inl hy, ?_⟩
      rintro rfl
      have hlisted := (h.forked.tracks.listed y y rfl).1 hy
      rw [hspot] at hlisted
      cases hlisted
    · refine ⟨Or.inr (Or.inl hy), ?_⟩
      rintro rfl
      have hcalling := (h.forked.tracks.calling y y rfl).1 hy
      rw [hspot] at hcalling
      cases hcalling
    · refine ⟨Or.inr (Or.inr ⟨u, hy⟩), ?_⟩
      rintro rfl
      have htask := (h.forked.tracks.task u y y rfl).1 (.inl hy)
      rw [hspot] at htask
      cases htask
      exact hu rfl
  · rintro ⟨hy | hy | ⟨u, hy⟩, hne⟩
    · exact Or.inl hy
    · exact Or.inr (Or.inl hy)
    · refine Or.inr (Or.inr ⟨u, ?_, hy⟩)
      rintro rfl
      rw [hqueued] at hy
      cases hy
      exact hne rfl

/-- The engine is in a loop where a task of it is active. -/
theorem EngLink.loop_of_active (h : EngLink s q spot) {t : TskId} {x : UserTask} (hact : q.Active t x) :
    ∃ atype j, s.engine.pc = .loop atype (.join j) := by
  by_contra hno
  have hquiet := h.quiet fun atype j hj => hno ⟨atype, j, hj⟩
  cases hquiet.active t x hact

/-- The calls and returns of the engine in its loop. -/
theorem unstarted_observe {atype : ActivityType} {j j' : Join UserTask} (hpc : s.engine.pc = .loop atype (.join j))
    (hpc' : s'.engine.pc = .loop atype (.join j')) {e : PoolEvent m UserTask} (hj : j.observe (.ext 0) e = some j')
    (hq : q.Step e q') (hstarted : q.started = true) (hopen : q.closed = false)
    (hothers : ∀ k, k ≠ .ext 0 → q.calls k = .idle) (y : UserTask) : Unstarted s' q' y ↔ Unstarted s q y := by
  have hcaller := Join.observe_caller hj
  have hkeep : j'.codes = j.codes → (∀ x, e ≠ .enqueueCall (.ext 0) x) → (Unstarted s' q' y ↔ Unstarted s q y) := by
    intro hcodes hcall
    have hheld : Held q' (.ext 0) y ↔ Held q (.ext 0) y := by
      refine held_step hq hstarted hopen hothers hcall ?_ (fun k hk => ?_) y
      · rintro w t x rfl
        cases hcaller
      · rw [hcaller] at hk
        exact (Option.some.inj hk).symm
    unfold Unstarted
    rw [hheld, hpc, hpc']
    exact or_congr_left (by simp only [EnginePc.codes, hcodes])
  unfold Join.observe at hj
  split at hj
  · split at hj <;> cases hj
    rename_i hk
    obtain ⟨rfl, rfl⟩ := hk
    unfold Unstarted
    rw [held_enqueueCall hq y, hpc, hpc']
    simp [EnginePc.codes, Join.codes, or_assoc, or_left_comm]
  · split at hj <;> cases hj
    exact hkeep rfl nofun
  · split at hj <;> cases hj
    exact hkeep rfl nofun
  · split at hj <;> cases hj
    exact hkeep rfl nofun
  · cases hj

end Steps

section Reachable

variable [DecidableEq δ] {cfg : Config} {v v' : View W m δ} {σ : Type} {prog : Program δ σ} {c : Script W m δ σ} {n : Nat}

omit [DecidableEq δ] in
/-- The steps of the pool of the engine. -/
theorem Rounds.eng (h : Rounds cfg v.env v.eng c.done n) (heng : v.EngLinked) (hopened : v.Opened)
    {e : PoolEvent m UserTask} {q' : TaskPool m UserTask} {s' : Env W m δ} (hq : v.eng.Step e q')
    (hs : v.env.EngStep e s') : Rounds cfg s' q' (c.next prog cfg v.env (.eng e)).done n := by
  have hround := hs.round
  have hstage : ∀ {t : TskId} {x : UserTask}, v.eng.Active t x →
      (Job.block x v.env.timer.timer.clock : Job δ).stage = v.env.now := fun hact => View.block_stage heng hact
  obtain ⟨spot, hlink⟩ := heng
  have hopen : v.env.engine.pc.joining = true → v.eng.started = true ∧ v.eng.closed = false := by
    intro hjoin
    cases hpc : v.env.engine.pc with
    | loop atype p =>
        cases p with
        | clock => simp [hpc, EnginePc.joining] at hjoin
        | join j =>
            refine ⟨hlink.looping atype j hpc, ?_⟩
            by_contra hclosed
            have hfini := hopened.eng (.inr (Bool.not_eq_false _ ▸ hclosed))
            rw [hpc] at hfini
            cases hfini
    | _ =>
        rw [hpc] at hjoin
        cases hjoin
  have hstill : s'.engine = v.env.engine → TaskPool.caller e = none → (∀ k x, e ≠ .enqueueCall k x) →
      (∀ w t x, e ≠ .started w t (some x)) → Rounds cfg s' q' c.done n := by
    intro hengine hcaller hcall hbegins
    cases hjoin : v.env.engine.pc.joining with
    | false => exact h.keep hround (by rw [hengine]) hjoin (by rw [hengine]; exact hjoin)
    | true =>
        obtain ⟨hstarted, hclosed⟩ := hopen hjoin
        refine h.within hround (by rw [hengine]) hjoin (by rw [hengine]; exact hjoin) fun x => ?_
        refine or_congr (by rw [hengine]) (held_step hq hstarted hclosed hlink.others (hcall _) hbegins ?_ x)
        rw [hcaller]
        nofun
  cases hs with
  | tau => exact hstill rfl rfl nofun nofun
  | blockEnds u t x _ => exact hstill rfl rfl nofun nofun
  | start r hpc _ _ => exact h.keep hround rfl (by rw [hpc]; rfl) rfl
  | shutdownCall k hpc _ => exact h.keep hround rfl (by rw [hpc]; rfl) rfl
  | shutdownRet k r hpc _ =>
      refine h.keep hround rfl (by rw [hpc]; rfl) ?_
      simp only [Env.setEngine_engine_pc]
      split <;> rfl
  | blockStarts u t x hfree =>
      have hqueued : v.eng.phase t = .queued x := hq.queued
      have hactive : v.eng.Active t x := Or.inl hqueued
      obtain ⟨atype, j, hpc⟩ := hlink.loop_of_active hactive
      have hjoin : v.env.engine.pc.joining = true := by rw [hpc]; rfl
      have hround' := h.round
      rw [Env.round_loop hpc, ← hstage hactive] at hround'
      show Rounds cfg _ q' (c.done ++ [.block x v.env.timer.timer.clock]) n
      refine Rounds.block h hjoin ?_ hround rfl hround'.symm (Or.inr (Or.inr ⟨t, hqueued⟩))
        (hlink.unstarted_started rfl hq)
      exact hjoin
  | loop atype j j' _ hpc hj =>
      have hjoin : v.env.engine.pc.joining = true := by rw [hpc]; rfl
      obtain ⟨hstarted, hclosed⟩ := hopen hjoin
      have hnext : c.next prog cfg v.env (.eng e) = c := by
        have hcaller := Join.observe_caller hj
        cases e with
        | started w t x => cases hcaller
        | _ => rfl
      rw [hnext]
      exact h.within hround rfl hjoin rfl (unstarted_observe hpc rfl hj hq hstarted hclosed hlink.others)

omit [DecidableEq δ] in
/-- The steps outside the pools. -/
theorem Rounds.own (h : Rounds cfg v.env v.eng c.done n) (hst : cfg.st = .activityScan) (htimed : v.Timed)
    (heng : v.EngLinked) {a : EnvAction W m δ} {s' : Env W m δ} (hs : v.env.step cfg a = some s') :
    ∃ n', Rounds cfg s' v.eng (c.next prog cfg v.env (.own a)).done n' := by
  have hgoes := htimed.inv.goes (Env.clockwork_step hs htimed.fromOne)
  cases a with
  | preStart r | simStart | fini =>
      obtain ⟨hpc, rfl⟩ := Env.mainStep_cases hs
      exact ⟨n, h.keep (Env.round_mainStep hs (by simp)) rfl (by rw [hpc]; rfl) rfl⟩
  | engine b =>
      obtain ⟨spot, hlink⟩ := heng
      exact h.engineStep hst hlink hgoes (.of hs)
  | ctl =>
      have hengine := (Env.CtlStep.of hs).frame.1
      exact ⟨n, h.same (Env.round_same hgoes hengine) hengine⟩
  | slice w =>
      have hengine : s'.engine = v.env.engine := by cases Env.SliceStep.of hs <;> rfl
      have hsame := h.same (Env.round_same hgoes hengine) hengine
      refine ⟨n, ?_⟩
      cases hlaunch : v.env.launches cfg w with
      | none => simpa [Script.next, hlaunch] using hsame
      | some x => simpa [Script.next, hlaunch] using hsame.handler x
  | schedule src ev time =>
      obtain ⟨-, rfl⟩ := Env.scheduleStep_cases hs
      exact ⟨n, h.same (Env.round_same hgoes rfl) rfl⟩

omit [DecidableEq δ] in
theorem Rounds.init (cfg : Config) (q : TaskPool m UserTask) : Rounds cfg (Env.init cfg : Env W m δ) q [] 1 where
  round := rfl
  acts := rfl
  past := fun k hk => by
    obtain rfl : k = 0 := by omega
    exact .nil
  later := nofun
  loop := nofun

/-- **The loops of every run with a program are as the activities have it.** -/
theorem rounds_reachable (hst : cfg.st = .activityScan) {p : View W m δ × Script W m δ σ}
    {ok : View W m δ → ViewLabel W m δ → Prop} (himp : ∀ v l, ok v l → ViewLabel.meets Env.StartsAtOne v l)
    (h : Lts.ReachableIf (playView prog cfg W m) (fun p l => ok p.1 l) p) :
    ∃ n, Rounds cfg p.1.env p.1.eng p.2.done n := by
  refine h.invariant_of (P := fun p => p.1.Timed ∧ p.1.EngLinked ∧ p.1.Opened)
    (I := fun p => ∃ n, Rounds cfg p.1.env p.1.eng p.2.done n) (fun p hp => ?_) (fun p hp => ?_)
    fun p l p' hP _ hi _ hs => ?_
  · have hv := (playView_refines prog cfg W m ok).reachable hp
    exact ⟨timed_reachable himp hv, engLinked_reachable hv, opened_reachable hv⟩
  · rw [show p = _ from hp]
    exact ⟨1, .init cfg _⟩
  · obtain ⟨htimed, heng, hopened⟩ := hP
    obtain ⟨n, hi⟩ := hi
    obtain ⟨hstep, -, hnext⟩ := hs
    rw [hnext]
    generalize hv' : p'.1 = v' at hstep
    cases hstep with
    | own hrun hstep => exact hi.own hst htimed heng hstep
    | evm hrun hp hobs => exact ⟨n, hi.evm (.of hobs)⟩
    | eng hrun hq hobs => exact ⟨n, hi.eng heng hopened hq (.of hobs)⟩

end Reachable

end ComplexSim.Engine
