import ComplexSim.Workerpool.Lookups

/-!
# The corner

A corner stays (`cornered_step`), so nobody ever leaves it; it is entered by the steps that are not
`Free`, and by no other.
-/

namespace ComplexSim.Lookups

open Workerpool

variable {n : Nat} {α : Type}

section Corner

variable {bound : Nat} {s s' : State n α} {l : Label n α} {p : Pool n α} {a : Pool.Action n α} {e : PoolEvent n α}

/-- A task that has not moved waits for the table as before. -/
theorem asks_next (h : Inv bound s) {w : Fin n} (hsame : p.calls (.task w) = s.pool.calls (.task w)) :
    AsksTable (s.next p) w ↔ AsksTable s w := by
  constructor
  · rintro (⟨id, hc⟩ | ⟨id, hres⟩)
    · exact Or.inl ⟨id, hsame.symm.trans hc⟩
    · have hfits := h.res w
      have hafter : (s.res w).after (p.calls (.task w)) = .fetch id := hres
      cases hr : s.res w with
      | out => rw [hr] at hafter; cases hafter
      | fetch id' => exact Or.inr ⟨id', hr⟩
      | wait id' =>
          rw [hr, hsame] at hafter
          rw [hr] at hfits
          cases hc : s.pool.calls (.task w) with
          | idle => exact absurd hc hfits
          | _ => rw [hc] at hafter; cases hafter
  · rintro (⟨id, hc⟩ | ⟨id, hres⟩)
    · exact Or.inl ⟨id, hsame.trans hc⟩
    · refine Or.inr ⟨id, ?_⟩
      show (s.res w).after _ = _
      rw [hres]
      rfl

/-- A worker whose task waits for the table performs it. -/
theorem asks_performing (h : Inv bound s) {w : Fin n} (hask : AsksTable s w) : ∃ t, (s.pool.workers w).pc = .performing t := by
  rcases hask with ⟨id, hc⟩ | ⟨id, hres⟩
  · exact h.pool.atTask w (by simp [hc])
  · have hfits := h.res w
    rw [hres] at hfits
    exact hfits.2

theorem Inv.holder (h : Inv bound s) {k : Nat} {t : TskId} (hk : s.pool.calls (.ext k) = .enqLimit t) :
    s.pool.tableMutex = some (.ext k) :=
  (h.pool.calls.mutex _).1 (by simp [hk, CallPc.locks])

/-- The steps that leave a corner as it is. -/
theorem Cornered.keep (hc : Cornered s) (h : Inv bound s) (hq : p.tskQ = s.pool.tskQ) (hctl : p.ctl = s.pool.ctl)
    (hext : ∀ k t, s.pool.calls (.ext k) = .enqLimit t → p.calls (.ext k) = .enqLimit t)
    (htask : ∀ w, p.calls (.task w) = s.pool.calls (.task w)) : Cornered (s.next p) := by
  obtain ⟨⟨hfull, u, hu⟩, ⟨k, t, hk⟩, hall⟩ := hc
  refine ⟨⟨?_, u, hctl.trans hu⟩, ⟨k, t, hext k t hk⟩, fun w => (asks_next h (htask w)).2 (hall w)⟩
  show p.tskQ.qlimitSem = 0
  rw [hq]
  exact hfull

theorem cornered_call_ext (hc : Cornered s) (h : Inv bound s) {j : Nat} (hs : s.pool.CallStep (.ext j) p e) :
    Cornered (s.next p) ∧ ¬ Moves s (.pool (.call (.ext j))) := by
  obtain ⟨⟨hfull, -⟩, ⟨k, t, hk⟩, -⟩ := id hc
  have hlock := h.holder hk
  have hmine : (s.pool.calls (.ext j)).locks = true → j = k := by
    intro hlocks
    have hj := (h.pool.calls.mutex _).1 hlocks
    rw [hlock] at hj
    cases hj
    rfl
  have hother : ∀ k' t', s.pool.calls (.ext k') = .enqLimit t' → p.calls (.ext k') = .enqLimit t' := by
    intro k' t' hk'
    have hne : (Caller.ext k' : Caller n) ≠ .ext j := by
      intro heq
      cases heq
      cases hs with
      | limit _ _ hsem => omega
      | getStatus hpc _ | refused _ hpc _ _ | statusOk _ hpc _ _ | lockTable _ hpc _ | append _ hpc _ | drop _ hpc _
      | failed _ _ hpc _ | duplicate _ _ hpc _ | insert _ _ hpc _ _ | find _ hpc _ _ | notFound _ hpc _ _
      | isDone _ hpc _ | notDone _ hpc _ | waitEnd _ hpc _ => rw [hpc] at hk'; cases hk'
    rw [hs.frame.2.1 _ hne]
    exact hk'
  have htask : ∀ w, p.calls (.task w) = s.pool.calls (.task w) := fun w => hs.frame.2.1 _ (by simp)
  have hkeep : p.tskQ = s.pool.tskQ → Cornered (s.next p) := fun hq => hc.keep h hq hs.frame.2.2.2.1 hother htask
  cases hs with
  | lockTable _ _ hfree => rw [hlock] at hfree; cases hfree
  | limit _ _ hsem => omega
  | append _ hpc _ | drop _ hpc _ | failed _ _ hpc _ | duplicate _ _ hpc _ | insert _ _ hpc _ _ =>
      obtain rfl := hmine (by rw [hpc]; rfl)
      rw [hpc] at hk
      cases hk
  | getStatus hpc _ | refused _ hpc _ _ | statusOk _ hpc _ _ | find _ hpc _ _ | notFound _ hpc _ _ | isDone _ hpc _
  | notDone _ hpc _ | waitEnd _ hpc _ => exact ⟨hkeep rfl, by simp [Moves, hpc, CallPc.pending]⟩

theorem cornered_pool (hc : Cornered s) (h : Inv bound s) (hok : Allowed s (.pool a))
    (hturn : ∀ w, turn a = some w → s.res w = .out) (hs : s.pool.Step a p e) :
    Cornered (s.next p) ∧ ¬ Moves s (.pool a) := by
  obtain ⟨⟨hfull, u, hu⟩, ⟨k, t, hk⟩, hall⟩ := id hc
  have hlock := h.holder hk
  have hperform := fun w => asks_performing h (hall w)
  -- a task that is idle in the pool has not its turn
  have hbusy : ∀ w, turn a = some w → s.pool.calls (.task w) ≠ .idle := by
    intro w hw hidle
    rcases hall w with ⟨id, hfind⟩ | ⟨id, hres⟩
    · rw [hidle] at hfind
      cases hfind
    · rw [hturn w hw] at hres
      cases hres
  cases hs with
  | startAgain _ _ => exact ⟨hc.keep h rfl rfl (fun _ _ => id) fun _ => rfl, id⟩
  | start _ _ hctl => rw [hu] at hctl; cases hctl
  | callEnqueue k' x hidle _ =>
      cases k' with
      | task v => exact hok.elim
      | ext j =>
          refine ⟨hc.keep h rfl rfl (fun k' t' hk' => ?_) fun w => by simp, id⟩
          have hne : (Caller.ext k' : Caller n) ≠ .ext j := by
            intro heq
            cases heq
            rw [hidle] at hk'
            cases hk'
          simpa [hne] using hk'
  | callWait k' id hidle _ =>
      cases k' with
      | ext j => exact hok.elim
      | task v => exact absurd hidle (hbusy v rfl)
  | call k' hk' =>
      cases k' with
      | ext j => exact cornered_call_ext hc h hk'
      | task w =>
          rcases hall w with ⟨id, hfind⟩ | ⟨id, hres⟩
          · cases hk' with
            | find _ _ hfree _ | notFound _ _ hfree _ => rw [hlock] at hfree; cases hfree
            | getStatus hpc _ | refused _ hpc _ _ | statusOk _ hpc _ _ | lockTable _ hpc _ | limit _ hpc _
            | append _ hpc _ | drop _ hpc _ | failed _ _ hpc _ | duplicate _ _ hpc _ | insert _ _ hpc _ _
            | isDone _ hpc _ | notDone _ hpc _ | waitEnd _ hpc _ => rw [hfind] at hpc; cases hpc
          · have hfits := h.res w
            rw [hres] at hfits
            exact absurd hfits.1 hk'.frame.1
  | create k' v x hpc _ =>
      cases k' with
      | task w =>
          have hcall := h.calls w
          rw [hpc] at hcall
          exact hcall.elim
      | ext j =>
          refine ⟨hc.keep h rfl rfl (fun k' t' hk' => ?_) fun w => by simp, id⟩
          have hne : (Caller.ext k' : Caller n) ≠ .ext j := by
            intro heq
            cases heq
            rw [hpc] at hk'
            cases hk'
          simpa [hne] using hk'
  | worker w hw =>
      obtain ⟨v, hv⟩ := hperform w
      exact absurd hv (hw.frame.1 v)
  | taskReturn w v _ hidle => exact absurd hidle (hbusy w rfl)
  | controller hctl =>
      have hzero := h.pool.no_worker ⟨u, hu⟩ hperform
      cases hctl with
      | poolSem _ _ hsem => omega
      | dequeueWait hpc _ | leave hpc _ | noHead hpc _ | badSize hpc _ | dequeue _ _ hpc _ | found _ _ hpc _
      | pass _ _ hpc _ | noWorker _ _ hpc _ | assign _ _ hpc | notify _ hpc | sendShutdown _ hpc | allSent _ hpc _
      | postShutdown _ hpc | join _ hpc _ | ended _ hpc _ => rw [hu] at hpc; cases hpc
  | callGetStatus _ _ _ | callShutdown _ | shutdown _ => exact hok.elim

/-- In a corner nobody moves, and nothing leads out of it. -/
theorem cornered_step (hc : Cornered s) (h : Inv bound s) (hok : Allowed s l) (hs : step s l = some s') :
    Cornered s' ∧ ¬ Moves s l := by
  cases l with
  | pool a =>
      obtain ⟨hturn, ⟨e, hstep⟩, heq⟩ := pool_cases hs
      rw [heq]
      exact cornered_pool hc h hok hturn hstep
  | callGetRes w id =>
      obtain ⟨hout, ⟨e, hstep⟩, -⟩ := getRes_cases hs
      have hidle : s.pool.calls (.task w) = .idle := by
        cases hstep with
        | callWait _ _ hidle _ => exact hidle
      rcases hc.2.2 w with ⟨id', hfind⟩ | ⟨id', hres⟩
      · rw [hidle] at hfind
        cases hfind
      · rw [hout] at hres
        cases hres
  | fetch w =>
      obtain ⟨-, hfree, -⟩ := fetch_cases hs
      obtain ⟨k, t, hk⟩ := hc.2.1
      rw [h.holder hk] at hfree
      cases hfree

theorem cornered_stuck (hc : Cornered s) (h : Inv bound s) : Stuck bound s := by
  constructor
  · obtain ⟨t, ht⟩ := hc.1.2
    have hhist : (s.pool.tsk t).hist = inHand n := (h.pool.tsks.tsk t).hand.1 (by simp [Pool.places, ht, ControllerPc.hand])
    exact ⟨t, by rw [hhist]; simp, fun w => by rw [hhist]; simp⟩
  · intro s' hrun l s'' hok hmoves hs
    have hinv : Inv bound s' ∧ Cornered s' := by
      refine hrun.invariant (I := fun s => Inv bound s ∧ Cornered s) ?_ ⟨h, hc⟩
      rintro t l u ⟨hi, hcorner⟩ hok hstep
      exact ⟨step_inv hi hok hstep, (cornered_step hcorner hi hok hstep).1⟩
    exact (cornered_step hinv.2 hinv.1 hok hs).2 hmoves

end Corner

section Entering

variable {bound : Nat} {s s' : State n α} {l : Label n α} {p : Pool n α} {a : Pool.Action n α} {e : PoolEvent n α}

theorem dequeue_place {q q' : CsQueue TskId} {t : TskId} (hq : csQueueDequeue q = .elem t q') : q'.qlimitSem ≠ 0 := by
  unfold csQueueDequeue at hq
  split at hq
  · split at hq <;> cases hq
  · simp only at hq
    split at hq <;> cases hq
    exact Nat.succ_ne_zero _

/-- Where a corner has come from. -/
theorem Cornered.back (hc : Cornered (s.next p)) (h : Inv bound s) (hq : p.tskQ = s.pool.tskQ) (hctl : p.ctl = s.pool.ctl)
    (hext : ∀ k t, p.calls (.ext k) = .enqLimit t → s.pool.calls (.ext k) = .enqLimit t) :
    Full s.pool ∧ Holding s.pool ∧
      ∀ w, p.calls (.task w) = s.pool.calls (.task w) → AsksTable s w := by
  obtain ⟨⟨hfull, u, hu⟩, ⟨k, t, hk⟩, hall⟩ := hc
  refine ⟨⟨?_, u, hctl.symm.trans hu⟩, ⟨k, t, hext k t hk⟩, fun w hsame => (asks_next h hsame).1 (hall w)⟩
  rw [← hq]
  exact hfull

theorem free_call_ext (hno : ¬ Cornered s) (h : Inv bound s) {j : Nat} (hfree : Free s (.pool (.call (.ext j))))
    (hs : s.pool.CallStep (.ext j) p e) : ¬ Cornered (s.next p) := by
  intro hc
  have hctl : p.ctl = s.pool.ctl := hs.frame.2.2.2.1
  have htask : ∀ w, p.calls (.task w) = s.pool.calls (.task w) := fun w => hs.frame.2.1 _ (by simp)
  have hback : p.tskQ.qlimitSem = s.pool.tskQ.qlimitSem → Full s.pool := by
    intro hq
    obtain ⟨⟨hfull, u, hu⟩, -⟩ := hc
    exact ⟨hq.symm.trans hfull, u, hctl.symm.trans hu⟩
  have hasks : ∀ w, AsksTable s w := fun w => (asks_next h (htask w)).1 (hc.2.2 w)
  obtain ⟨k, t, hk⟩ := hc.2.1
  have hholding : k ≠ j → s.pool.calls (.ext k) = .enqLimit t := by
    intro hne
    rw [← hs.frame.2.1 (.ext k) (by simp [hne])]
    exact hk
  -- the enqueuer that has moved asks for a place only when it has just locked the table
  have hcorner : p.tskQ.qlimitSem = s.pool.tskQ.qlimitSem → p.calls (.ext j) ≠ .enqLimit t → False := by
    intro hq hmoved
    have hne : k ≠ j := by
      rintro rfl
      exact hmoved hk
    exact hno ⟨hback hq, ⟨k, t, hholding hne⟩, hasks⟩
  cases hs with
  | lockTable u hpc _ => exact hfree ⟨u, hpc⟩ ⟨hback rfl, hasks⟩
  | limit u hpc _ =>
      have hne : k ≠ j := by
        rintro rfl
        simp at hk
      have hmine := h.holder (hholding hne)
      rw [h.holder hpc] at hmine
      cases hmine
      exact hne rfl
  | getStatus _ _ | refused _ _ _ _ | statusOk _ _ _ _ | append _ _ _ | drop _ _ _ | failed _ _ _ _ | insert _ _ _ _ _
  | find _ _ _ _ | notFound _ _ _ _ | isDone _ _ _ | notDone _ _ _ | waitEnd _ _ _ => exact hcorner rfl (by simp)
  | duplicate u r hpc _ => exact hcorner rfl (by simp [hpc])

theorem free_call_task (h : Inv bound s) {w : Fin n} (hfree : Free s (.pool (.call (.task w))))
    (hs : s.pool.CallStep (.task w) p e) : ¬ Cornered (s.next p) := by
  intro hc
  have hcall := h.calls w
  have hfits := h.res w
  have hnot : ∀ id, s.res w ≠ .fetch id := by
    intro id hres
    rw [hres] at hfits
    exact hs.frame.1 hfits.1
  have hothers : ∀ v, v ≠ w → p.calls (.task v) = s.pool.calls (.task v) := fun v hv => hs.frame.2.1 _ (by simp [hv])
  have hext : ∀ k t, p.calls (.ext k) = .enqLimit t → s.pool.calls (.ext k) = .enqLimit t := by
    intro k t hk
    rw [← hs.frame.2.1 (.ext k) (by simp)]
    exact hk
  have hask := hc.2.2 w
  cases hs with
  | find t hpc _ _ =>
      rcases hask with ⟨id, hfind⟩ | ⟨id, hres⟩
      · simp [State.next] at hfind
      · cases hr : s.res w with
        | fetch id' => exact hnot id' hr
        | out | wait id' => simp [State.next, hr, ResPc.after] at hres
  | notFound id hpc hunlocked _ =>
      obtain ⟨-, ⟨k, t, hk⟩, -⟩ := hc.back h rfl rfl hext
      rw [h.holder hk] at hunlocked
      cases hunlocked
  | isDone t hpc _ =>
      obtain ⟨hfull, hholding, hback⟩ := hc.back h rfl rfl hext
      cases hr : s.res w with
      | fetch id' => exact hnot id' hr
      | wait id' => exact hfree ⟨id', t, hr, hpc⟩ ⟨hfull, hholding, fun v hv => hback v (hothers v hv)⟩
      | out =>
          rcases hask with ⟨id, hfind⟩ | ⟨id, hres⟩
          · simp [State.next] at hfind
          · simp [State.next, hr, ResPc.after] at hres
  | notDone t hpc hnd =>
      rw [hpc] at hcall
      exact hnd hcall
  | getStatus hpc _ | refused _ hpc _ _ | statusOk _ hpc _ _ | lockTable _ hpc _ | limit _ hpc _ | append _ hpc _
  | drop _ hpc _ | failed _ _ hpc _ | duplicate _ _ hpc _ | insert _ _ hpc _ _ | waitEnd _ hpc _ =>
      rw [hpc] at hcall
      exact hcall.elim

theorem free_pool (hno : ¬ Cornered s) (h : Inv bound s) (hok : Allowed s (.pool a)) (hfree : Free s (.pool a))
    (hs : s.pool.Step a p e) : ¬ Cornered (s.next p) := by
  intro hc
  -- the tasks and the enqueuers that ask for a place are as before
  have hsame : p.tskQ = s.pool.tskQ → p.ctl = s.pool.ctl →
      (∀ k t, p.calls (.ext k) = .enqLimit t → s.pool.calls (.ext k) = .enqLimit t) →
      (∀ w, p.calls (.task w) = s.pool.calls (.task w)) → False := by
    intro hq hctl hext htask
    obtain ⟨hfull, hholding, hback⟩ := hc.back h hq hctl hext
    exact hno ⟨hfull, hholding, fun w => hback w (htask w)⟩
  cases hs with
  | startAgain _ _ => exact hsame rfl rfl (fun _ _ => id) fun _ => rfl
  | start _ _ _ =>
      obtain ⟨⟨-, u, hu⟩, -⟩ := hc
      cases hu
  | callEnqueue k x hidle _ =>
      cases k with
      | task v => exact hok.elim
      | ext j =>
          refine hsame rfl rfl (fun k t hk => ?_) fun w => by simp
          by_cases hkj : (Caller.ext k : Caller n) = .ext j
          · simp [hkj] at hk
          · simpa [hkj] using hk
  | callWait k id hidle _ =>
      cases k with
      | ext j => exact hok.elim
      | task w =>
          obtain ⟨hfull, hholding, hback⟩ := hc.back h rfl rfl fun k t hk => by simpa using hk
          exact hfree ⟨hfull, hholding, fun v hv => hback v (by simp [hv])⟩
  | call k hk =>
      cases k with
      | ext j => exact free_call_ext hno h hfree hk hc
      | task w => exact free_call_task h hfree hk hc
  | create k t x hpc _ =>
      cases k with
      | task w =>
          have hcall := h.calls w
          rw [hpc] at hcall
          exact hcall
      | ext j =>
          refine hsame rfl rfl (fun k t hk => ?_) fun w => by simp
          by_cases hkj : (Caller.ext k : Caller n) = .ext j
          · simp [hkj] at hk
          · simpa [hkj] using hk
  | worker w hw =>
      obtain ⟨-, -, hcalls, hq, hctl, -⟩ := hw.frame
      exact hsame hq hctl (fun k t hk => by rwa [hcalls] at hk) fun v => by rw [hcalls]
  | taskReturn w t _ _ => exact hsame rfl rfl (fun _ _ => id) fun _ => rfl
  | controller hctl =>
      obtain ⟨⟨hfull, u, hu⟩, -⟩ := hc
      cases hctl with
      | dequeue _ _ _ hq => exact dequeue_place hq hfull
      | noHead hpc _ | badSize hpc _ | noWorker _ _ hpc _ =>
          have hstay : s.pool.ctl = .poolSem u := hu
          rw [hpc] at hstay
          cases hstay
      | dequeueWait _ _ | leave _ _ | poolSem _ _ _ | found _ _ _ _ | pass _ _ _ _ | assign _ _ _ | notify _ _
      | sendShutdown _ _ | allSent _ _ _ | postShutdown _ _ | join _ _ _ | ended _ _ _ => cases hu
  | callGetStatus _ _ _ | callShutdown _ | shutdown _ => exact hok

/-- No free step leads into a corner. -/
theorem free_step (hno : ¬ Cornered s) (h : Inv bound s) (hok : Allowed s l) (hfree : Free s l) (hs : step s l = some s') :
    ¬ Cornered s' := by
  cases l with
  | pool a =>
      obtain ⟨hturn, ⟨e, hstep⟩, heq⟩ := pool_cases hs
      rw [heq]
      exact free_pool hno h hok hfree hstep
  | callGetRes w id =>
      obtain ⟨-, -, rfl⟩ := getRes_cases hs
      rintro ⟨hfull, ⟨k, t, hk⟩, hall⟩
      refine hfree ⟨hfull, ⟨k, t, by simpa using hk⟩, fun v hv => ?_⟩
      rcases hall v with ⟨id', hc⟩ | ⟨id', hres⟩
      · exact Or.inl ⟨id', by simpa [hv] using hc⟩
      · exact Or.inr ⟨id', by simpa [hv] using hres⟩
  | fetch w =>
      obtain ⟨⟨id, hres⟩, -, rfl⟩ := fetch_cases hs
      rintro ⟨-, -, hall⟩
      have hfits := h.res w
      rw [hres] at hfits
      rcases hall w with ⟨id', hc⟩ | ⟨id', hres'⟩
      · have hidle : s.pool.calls (.task w) = .waitFind id' := hc
        rw [hfits.1] at hidle
        cases hidle
      · simp at hres'

/-- Any other step does. -/
theorem cornering_step (h : Inv bound s) (hok : Allowed s l) (hno : ¬ Free s l) (hs : step s l = some s') : Cornered s' := by
  cases l with
  | fetch w => exact absurd trivial hno
  | callGetRes w id =>
      obtain ⟨hfull, ⟨k, t, hk⟩, hothers⟩ := not_not.1 hno
      obtain ⟨-, -, rfl⟩ := getRes_cases hs
      refine ⟨hfull, ⟨k, t, by simpa using hk⟩, fun v => ?_⟩
      by_cases hv : v = w
      · exact Or.inl ⟨id, by simp [hv]⟩
      · rcases hothers v hv with ⟨id', hc⟩ | ⟨id', hres⟩
        · exact Or.inl ⟨id', by simpa [hv] using hc⟩
        · exact Or.inr ⟨id', by simpa [hv] using hres⟩
  | pool a =>
      obtain ⟨-, ⟨e, hstep⟩, heq⟩ := pool_cases hs
      rw [heq]
      -- the others are in their place before the step and after it
      have hplaced : ∀ w, Full s.pool → Holding s.pool → (∀ v, v ≠ w → AsksTable s v) → s'.pool.tskQ = s.pool.tskQ →
          s'.pool.ctl = s.pool.ctl → (∀ k, k ≠ Caller.task w → s'.pool.calls k = s.pool.calls k) →
          AsksTable (s.next s'.pool) w → Cornered (s.next s'.pool) := by
        rintro w ⟨hfull, u, hu⟩ ⟨k, t, hk⟩ hothers hq hctl hcalls hw
        refine ⟨⟨?_, u, hctl.trans hu⟩, ⟨k, t, (hcalls _ (by simp)).trans hk⟩, fun v => ?_⟩
        · show s'.pool.tskQ.qlimitSem = 0
          rw [hq]
          exact hfull
        · by_cases hv : v = w
          · rw [hv]
            exact hw
          · exact (asks_next h (hcalls _ (by simp [hv]))).2 (hothers v hv)
      cases a with
      | callWait k id =>
          cases k with
          | ext j => exact hok.elim
          | task w =>
              obtain ⟨hfull, hholding, hothers⟩ := not_not.1 hno
              generalize hp : s'.pool = p at *
              cases hstep with
              | callWait _ _ _ _ =>
                  exact hplaced w hfull hholding hothers rfl rfl (fun k hk => by simp [hk]) (Or.inl ⟨id, by simp⟩)
      | call k =>
          cases k with
          | ext j =>
              obtain ⟨⟨t, ht⟩, hall⟩ := Classical.not_imp.1 hno
              obtain ⟨⟨hfull, hctl⟩, hasks⟩ := not_not.1 hall
              generalize hp : s'.pool = p at *
              cases hstep with
              | call _ hk =>
                  cases hk with
                  | lockTable u _ _ =>
                      exact ⟨⟨hfull, hctl⟩, ⟨j, u, by simp⟩, fun w => (asks_next h (by simp)).2 (hasks w)⟩
                  | getStatus hpc _ | refused _ hpc _ _ | statusOk _ hpc _ _ | limit _ hpc _ | append _ hpc _
                  | drop _ hpc _ | failed _ _ hpc _ | duplicate _ _ hpc _ | insert _ _ hpc _ _ | find _ hpc _ _
                  | notFound _ hpc _ _ | isDone _ hpc _ | notDone _ hpc _ | waitEnd _ hpc _ => rw [ht] at hpc; cases hpc
          | task w =>
              obtain ⟨⟨id, t, hres, hcall⟩, hall⟩ := Classical.not_imp.1 hno
              obtain ⟨hfull, hholding, hothers⟩ := not_not.1 hall
              have hlooks := h.calls w
              rw [hcall] at hlooks
              generalize hp : s'.pool = p at *
              cases hstep with
              | call _ hk =>
                  cases hk with
                  | isDone u _ _ =>
                      exact hplaced w hfull hholding hothers rfl rfl (fun k hk => by simp [hk])
                        (Or.inr ⟨id, by simp [hres, ResPc.after]⟩)
                  | notDone u hpc hnd =>
                      rw [hcall] at hpc
                      cases hpc
                      exact absurd hlooks hnd
                  | getStatus hpc _ | refused _ hpc _ _ | statusOk _ hpc _ _ | lockTable _ hpc _ | limit _ hpc _
                  | append _ hpc _ | drop _ hpc _ | failed _ _ hpc _ | duplicate _ _ hpc _ | insert _ _ hpc _ _
                  | find _ hpc _ _ | notFound _ hpc _ _ | waitEnd _ hpc _ => rw [hcall] at hpc; cases hpc
      | start | callGetStatus _ | callEnqueue _ _ | callShutdown | create _ _ | worker _ | taskReturn _ | controller
      | shutdown => exact absurd trivial hno

end Entering

theorem allowed_inv {bound : Nat} {ok : State n α → Label n α → Prop} (himp : ∀ s l, ok s l → Allowed s l) {s : State n α}
    (h : Lts.ReachableIf (system n α bound) ok s) : Inv bound s := by
  apply h.invariant (I := Inv bound)
  · intro s hs
    rw [show s = init n α bound from hs]
    exact init_inv
  · intro s l s' hi hok hs
    exact step_inv hi (himp s l hok) hs

/-- **Look-ups go on while the queue is full**, in every run in which no step completes a corner; and any
other step blocks the pool for ever. -/
theorem look_ups_go_on {bound : Nat} (hn : 0 < n) :
    (∀ s, Lts.ReachableIf (system n α bound) (fun s l => Allowed s l ∧ Free s l) s → ¬ Stuck bound s) ∧
      ∀ s s' l, Lts.ReachableIf (system n α bound) (fun s l => Allowed s l ∧ Free s l) s → Allowed s l → ¬ Free s l →
        step s l = some s' → Stuck bound s' := by
  constructor
  · intro s h
    have hinv : Inv bound s := allowed_inv (fun _ _ hok => hok.1) h
    have hno : ¬ Cornered s := by
      refine h.invariant_of (P := Inv bound) (I := fun s => ¬ Cornered s) (fun _ => allowed_inv fun _ _ hok => hok.1) ?_ ?_
      · rintro s hs ⟨⟨-, u, hu⟩, -⟩
        rw [show s = init n α bound from hs] at hu
        cases hu
      · intro s l s' hi _ hcorner hok hs
        exact free_step hcorner hi hok.1 hok.2 hs
    rintro ⟨⟨t, ht⟩, hstuck⟩
    obtain ⟨l, s', hok, hmoves, hs⟩ := goes hinv hn ht hno
    exact hstuck s (.refl s) l s' hok hmoves hs
  · intro s s' l h hok hfree hs
    have hinv := allowed_inv (fun _ _ hok => hok.1) h
    exact cornered_stuck (cornering_step hinv hok hfree hs) (step_inv hinv hok hs)

instance (p : Pool n α) (id : Int) : Decidable (DoneId p id) := inferInstanceAs (Decidable (_ ∧ _))

instance (s : State n α) (l : Label n α) : Decidable (Allowed s l) := by
  unfold Allowed
  split <;> infer_instance

/-- The steps that are free because the queue has a place. -/
def Roomy (s : State n α) (l : Label n α) : Prop := Allowed s l ∧ s.pool.tskQ.qlimitSem ≠ 0

instance (s : State n α) (l : Label n α) : Decidable (Roomy s l) := inferInstanceAs (Decidable (_ ∧ _))

theorem roomy_free (s : State n α) (l : Label n α) (h : Roomy s l) : Allowed s l ∧ Free s l := by
  refine ⟨h.1, ?_⟩
  unfold Free
  split
  · exact fun _ hc => h.2 hc.1.1
  · exact fun hc => h.2 hc.1.1
  · exact fun hc => h.2 hc.1.1
  · exact fun _ hc => h.2 hc.1.1
  · trivial

/-- Outside thread `k` enqueues task `t`, up to its lock of the table. -/
def calls (k t : Nat) : List (Pool.Action 1 Unit) := [.callEnqueue (.ext k) (), .call (.ext k), .create (.ext k) t]

def enqueues (k t : Nat) : List (Pool.Action 1 Unit) := calls k t ++ List.replicate 4 (.call (.ext k))

/-- A pool of one worker has done task 1 and performs task 2. -/
def started : List (Pool.Action 1 Unit) :=
  [.start] ++ enqueues 0 1 ++ List.replicate 6 .controller ++ List.replicate 3 (.worker ⟨0, Nat.one_pos⟩) ++
    [.taskReturn ⟨0, Nat.one_pos⟩] ++ List.replicate 3 (.worker ⟨0, Nat.one_pos⟩) ++ enqueues 0 2 ++
    List.replicate 6 .controller ++ List.replicate 3 (.worker ⟨0, Nat.one_pos⟩)

/-- Task 2 gets the result of task 1, in a queue that has room. -/
theorem look_ups_go_on_one : ∃ s : State 1 Unit,
    Lts.ReachableIf (system 1 Unit 3) (fun s l => Allowed s l ∧ Free s l) s ∧ s.pool.calls (.task 0) = .waitFind 1 ∧
      s.res 0 = .wait 1 ∧ ¬ Stuck 3 s := by
  obtain ⟨s, hs, hp⟩ := Lts.exec_of_any (f := Lts.guarded Roomy step) (s := init 1 Unit 3)
    (p := fun s => decide (s.pool.calls (.task 0) = .waitFind 1 ∧ s.res 0 = .wait 1))
    (l := started.map .pool ++ [.callGetRes 0 1]) (by decide +kernel)
  obtain ⟨hcall, hres⟩ := of_decide_eq_true hp
  have hreach : Lts.ReachableIf (system 1 Unit 3) (fun s l => Allowed s l ∧ Free s l) s :=
    Lts.ReachableIf.mono roomy_free ⟨_, rfl, Lts.exec_guarded_run hs⟩
  exact ⟨s, hreach, hcall, hres, (look_ups_go_on (by decide)).1 s hreach⟩

/-- The queue is filled, and task 2 waits for task 1. -/
def cornering : List (Pool.Action 1 Unit) :=
  started ++ enqueues 0 3 ++ [.controller, .controller] ++ enqueues 0 4 ++ calls 0 5 ++
    [.call (.ext 0), .callWait (.task ⟨0, Nat.one_pos⟩) 1]

/-- One worker, one place in the queue. Task 2 is performed, task 3 is in the controller's hand, task 4 in
the queue, and the enqueuer of task 5 has the table; then task 2 waits for task 1, which is done. -/
theorem look_up_blocks : ∃ s : State 1 Unit, Lts.ReachableIf (system 1 Unit 1) Allowed s ∧ Stuck 1 s := by
  obtain ⟨s, hs, hp⟩ := Lts.exec_of_any (f := Lts.guarded Allowed step) (s := init 1 Unit 1)
    (p := fun s => decide (s.pool.tskQ.qlimitSem = 0 ∧ s.pool.ctl = .poolSem 3 ∧ s.pool.calls (.ext 0) = .enqLimit 5 ∧
      s.pool.calls (.task 0) = .waitFind 1))
    (l := cornering.map .pool) (by decide +kernel)
  obtain ⟨hfull, hctl, hext, htask⟩ := of_decide_eq_true hp
  have hreach : Lts.ReachableIf (system 1 Unit 1) Allowed s := ⟨_, rfl, Lts.exec_guarded_run hs⟩
  refine ⟨s, hreach, cornered_stuck ⟨⟨hfull, 3, hctl⟩, ⟨0, 5, hext⟩, fun w => ?_⟩ (allowed_inv (fun _ _ => id) hreach)⟩
  rw [Subsingleton.elim w 0]
  exact Or.inl ⟨1, htask⟩

end ComplexSim.Lookups
