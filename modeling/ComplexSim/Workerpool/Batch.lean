import ComplexSim.Workerpool.Spec
import Mathlib.Data.List.Pairwise

/-!
# Fork and join over a pool

A thread enqueues a list of codes and then waits for the ids it got, one after the
other: the loops of `_loop_activity` and of `_ev_controller`. `Join` is where such a
thread is in its loops.

Some of the codes have names, given by `key`. `Tracks` follows each name: the code
that bears it is in one place only, its `Spot`, which is the thread's list, the call
that enqueues it, or one active task. `Joined` says that every active task with a
named code is one that the thread is still to wait for. Steps of the pool move the
codes as `Moved` says and keep both, so when the last wait has returned no named
code is active (`Joined.quiet`).
-/

namespace ComplexSim.Workerpool

variable {n : Nat} {α κ : Type}

/-- The two loops of a thread that enqueues codes and waits for them. -/
inductive Join (α : Type) where
  /-- the codes still to be enqueued, and the ids so far -/
  | enqueue (xs : List α) (ids : List Int)
  | inEnqueue (xs : List α) (ids : List Int)
  | wait (ids : List Int)
  | inWait (id : Int) (ids : List Int)
  deriving DecidableEq, Repr

namespace Join

/-- The codes that have not been enqueued. -/
def codes : Join α → List α
  | .enqueue xs _ | .inEnqueue xs _ => xs
  | .wait _ | .inWait _ _ => []

/-- The ids that have not been waited for. -/
def pending : Join α → List Int
  | .enqueue _ ids | .inEnqueue _ ids | .wait ids => ids
  | .inWait id ids => id :: ids

/-- The thread is in a call of the pool. -/
def calling : Join α → Bool
  | .enqueue _ _ | .wait _ => false
  | .inEnqueue _ _ | .inWait _ _ => true

/-- The calls and returns of the thread `k` in its loops. -/
def observe [DecidableEq α] (k : Caller n) : Join α → PoolEvent n α → Option (Join α)
  | .enqueue (x :: xs) ids, .enqueueCall j y =>
      if j = k ∧ y = x then some (.inEnqueue xs ids) else none
  | .inEnqueue xs ids, .enqueueRet j r => if j = k then some (.enqueue xs (ids ++ [r])) else none
  | .wait (i :: ids), .waitCall j id => if j = k ∧ id = i then some (.inWait i ids) else none
  | .inWait i ids, .waitRet j id => if j = k ∧ id = i then some (.wait ids) else none
  | _, _ => none

end Join

namespace TaskPool

variable {p p' : TaskPool n α} {e : PoolEvent n α}

/-- The thread that begins or ends a call. -/
def caller : PoolEvent n α → Option (Caller n)
  | .statusCall k | .statusRet k _ | .enqueueCall k _ | .enqueueRet k _ | .waitCall k _
  | .waitRet k _ => some k
  | _ => none

/-- No worker runs two tasks. -/
def Solo (p : TaskPool n α) : Prop :=
  ∀ w t u x y, p.phase t = .running x w → p.phase u = .running y w → t = u

/-- How the phase of a task changes. -/
theorem Step.phase_cases (h : p.Step e p') (t : TskId) :
    p'.phase t = p.phase t ∨
      (∃ k x, p.calls k = .enqueuing x ∧ p'.calls k = .accepted t ∧ p.phase t = .unknown ∧
        p'.phase t = .queued x) ∨
      (∃ w x, e = .started w t (some x) ∧ p.phase t = .queued x ∧ p'.phase t = .running x w) ∨
      ∃ w x, e = .finished w t ∧ p.phase t = .running x w ∧ p'.phase t = .ended := by
  cases h with
  | accept k x u hcall hopen hnew =>
      by_cases htu : t = u
      · subst htu; exact Or.inr (Or.inl ⟨k, x, hcall, by simp, hnew, by simp⟩)
      · exact Or.inl (by simp [htu])
  | started w u x hq hfree =>
      by_cases htu : t = u
      · subst htu; exact Or.inr (Or.inr (Or.inl ⟨w, x, rfl, hq, by simp⟩))
      · exact Or.inl (by simp [htu])
  | finished w u x hr hidle =>
      by_cases htu : t = u
      · subst htu; exact Or.inr (Or.inr (Or.inr ⟨w, x, rfl, hr, by simp⟩))
      · exact Or.inl (by simp [htu])
  | _ => exact Or.inl rfl

/-- A task begins that is still to be run. -/
theorem Step.queued {w : Fin n} {t : TskId} {x : α} (h : p.Step (.started w t (some x)) p') : p.phase t = .queued x := by
  cases h with
  | started _ _ _ hqueued _ => exact hqueued

/-- An active task was active before, or has just been accepted. -/
theorem Step.active (h : p.Step e p') {t : TskId} {x : α} (ht : p'.Active t x) :
    p.Active t x ∨ ∃ k, p.calls k = .enqueuing x ∧ p'.calls k = .accepted t := by
  rcases h.phase_cases t with heq | ⟨k, y, hcall, hacc, -, hq⟩ | ⟨w, y, -, hq, hr⟩ | ⟨w, y, -, -, hend⟩
  · exact Or.inl (by rwa [TaskPool.Active, ← heq])
  · have hxy : x = y := by simpa [TaskPool.Active, hq, eq_comm] using ht
    exact Or.inr ⟨k, hxy ▸ hcall, hacc⟩
  · have hxy : x = y := by simpa [TaskPool.Active, hr, eq_comm] using ht
    exact Or.inl (Or.inl (hxy ▸ hq))
  · simp [TaskPool.Active, hend] at ht

/-- Where no worker starts or ends a task, an active task stays as it is. -/
theorem Step.phase_keep (h : p.Step e p') (hstarted : ∀ w t x, e ≠ .started w t (some x))
    (hfinished : ∀ w t, e ≠ .finished w t) {t : TskId} {x : α} (ht : p.Active t x) :
    p'.phase t = p.phase t := by
  rcases h.phase_cases t with heq | ⟨k, y, -, -, hold, -⟩ | ⟨w, y, he, -⟩ | ⟨w, y, he, -⟩
  · exact heq
  · simp [TaskPool.Active, hold] at ht
  · exact absurd he (hstarted w t y)
  · exact absurd he (hfinished w t)

/-- A pool that has been started stays so. -/
theorem Step.started_mono (h : p.Step e p') (hs : p.started = true) : p'.started = true := by
  cases h with
  | start _ => rfl
  | _ => exact hs

theorem Step.closed_mono (h : p.Step e p') (hc : p.closed = true) : p'.closed = true := by
  cases h with
  | close _ => rfl
  | _ => exact hc

/-- A pool is shut down only when that is asked for. -/
theorem Step.shut (h : p.Step e p') (hs : p'.shutting = true ∨ p'.closed = true) :
    p.shutting = true ∨ p.closed = true ∨ e = .shutdownCall := by
  cases h with
  | shutdownCall => exact Or.inr (Or.inr rfl)
  | close hshut => exact Or.inl hshut
  | shutdownRet _ _ => exact Or.inr (Or.inl (hs.resolve_left nofun))
  | _ => exact hs.elim Or.inl fun hc => Or.inr (Or.inl hc)

/-- A thread is in a call that enqueues only if it was, or has just made it. -/
theorem Step.enqueuing (h : p.Step e p') {j : Caller n} {x : α} (hj : p'.calls j = .enqueuing x) :
    p.calls j = .enqueuing x ∨ e = .enqueueCall j x := by
  cases h with
  | statusCall k _ | statusRet k _ _ | refuse k _ _ _ | enqueueRet k _ _ | waitCall k _ _
  | waitRet k _ _ _ | accept k _ _ _ _ _ | drop k _ _ _ _ =>
      by_cases hjk : j = k
      · subst hjk; simp at hj
      · exact Or.inl (by simpa [hjk] using hj)
  | enqueueCall k y _ =>
      by_cases hjk : j = k
      · subst hjk
        refine Or.inr ?_
        simp at hj
        rw [hj]
      · exact Or.inl (by simpa [hjk] using hj)
  | _ => exact Or.inl hj

/-- A promise stays until it is returned. -/
theorem Step.accepted (h : p.Step e p') {k : Caller n} {t : TskId} (hk : p.calls k = .accepted t)
    (hret : ∀ r, e ≠ .enqueueRet k r) : p'.calls k = .accepted t := by
  cases h with
  | statusCall j hj | statusRet j _ hj | enqueueCall j _ hj | waitCall j _ hj | waitRet j _ hj _
  | accept j _ _ hj _ _ | drop j _ _ hj _ =>
      by_cases hkj : k = j
      · subst hkj; simp [hk] at hj
      · simpa [hkj] using hk
  | refuse j _ _ _ | enqueueRet j _ _ =>
      by_cases hkj : k = j
      · subst hkj; exact absurd rfl (hret _)
      · simpa [hkj] using hk
  | _ => exact hk

theorem Step.returned (h : p.Step e p') {t : TskId} (ht : t ∈ p.returned) : t ∈ p'.returned := by
  cases h with
  | enqueueRet k u hk => exact List.mem_cons_of_mem u ht
  | _ => exact ht

theorem Solo.init : (TaskPool.init n α).Solo := fun w t u x y h => by simp [TaskPool.init] at h

theorem Solo.step (h : p.Solo) (hs : p.Step e p') : p'.Solo := by
  have hback : ∀ {t w x}, p'.phase t = .running x w →
      p.phase t = .running x w ∨ e = .started w t (some x) := fun {t w x} ht => by
    rcases hs.phase_cases t with heq | ⟨k, y, -, -, -, hq⟩ | ⟨v, y, he, -, hr⟩ | ⟨v, y, -, -, hr⟩ <;>
      rw [ht] at *
    · exact Or.inl heq.symm
    · cases hq
    · cases hr; exact Or.inr he
    · cases hr
  intro w t u x y ht hu
  rcases hback ht with hold | he <;> rcases hback hu with hold' | he'
  · exact h w t u x y hold hold'
  · subst he'; cases hs with
    | started _ _ _ _ hfree => exact absurd hold (hfree t x)
  · subst he; cases hs with
    | started _ _ _ _ hfree => exact absurd hold' (hfree u y)
  · rw [he] at he'; cases he'; rfl

end TaskPool

/-- Where a named code is. -/
inductive Spot (α : Type) where
  | nowhere
  /-- in the list of the thread -/
  | listed (x : α)
  /-- in a call of `cs_wp_tsk_enqueue` -/
  | calling (x : α)
  /-- the code of the active task `t` -/
  | task (t : TskId) (x : α)

/-- The code at a place. -/
def Spot.code : Spot α → Option α
  | .nowhere => none
  | .listed x | .calling x | .task _ x => some x

/-- `spot` says where the codes with names are: in the list `xs` of the thread `k`, in its
call, or in tasks. -/
structure Tracks (p : TaskPool n α) (k : Caller n) (key : α → Option κ) (xs : List α)
    (spot : κ → Spot α) : Prop where
  nodup : xs.Pairwise fun x y => key x ≠ key y
  names : ∀ c x, (spot c).code = some x → key x = some c
  listed : ∀ x c, key x = some c → (x ∈ xs ↔ spot c = .listed x)
  calling : ∀ x c, key x = some c → (p.calls k = .enqueuing x ↔ spot c = .calling x)
  task : ∀ t x c, key x = some c → (p.Active t x ↔ spot c = .task t x)
  others : ∀ j x, j ≠ k → p.calls j = .enqueuing x → key x = none

/-- Every active task with a named code is one that the thread `k` will wait for. -/
structure Joined (p : TaskPool n α) (k : Caller n) (key : α → Option κ) (ids : List Int) : Prop where
  active : ∀ t x, key x ≠ none → p.Active t x → (t : Int) ∈ ids ∨ p.calls k = .accepted t
  known : ∀ t : TskId, (t : Int) ∈ ids → t ∈ p.returned

/-- No code with a name is active or is being enqueued. -/
structure Quiet (p : TaskPool n α) (key : α → Option κ) : Prop where
  active : ∀ t x, p.Active t x → key x = none
  calls : ∀ j x, p.calls j = .enqueuing x → key x = none

/-- How a step of the pool moves a named code. -/
inductive Moved (p p' : TaskPool n α) (e : PoolEvent n α) : Spot α → Spot α → Prop where
  | stay (l : Spot α) : Moved p p' e l l
  | call (x : α) : Moved p p' e (.listed x) (.calling x)
  | accept (x : α) (t : TskId) (h : p'.phase t = .queued x) : Moved p p' e (.calling x) (.task t x)
  | lost (x : α) (h : p.started = false ∨ p.closed = true) : Moved p p' e (.calling x) .nowhere
  | finish (w : Fin n) (t : TskId) (x : α) (he : e = .finished w t) (h : p.phase t = .running x w) :
      Moved p p' e (.task t x) .nowhere

theorem Moved.code {p p' : TaskPool n α} {e : PoolEvent n α} {l l' : Spot α} (h : Moved p p' e l l')
    {x : α} (hx : l'.code = some x) : l.code = some x := by
  cases h with
  | lost | finish => cases hx
  | _ => exact hx

section Tracking

variable {p p' : TaskPool n α} {e : PoolEvent n α} {k : Caller n}
  {key : α → Option κ} {xs : List α} {spot : κ → Spot α} {ids : List Int}

theorem Quiet.tracks (h : Quiet p key) (k : Caller n) : Tracks p k key [] fun _ => .nowhere where
  nodup := .nil
  names := fun c x hc => by cases hc
  listed := by simp
  calling := fun x c hx => by
    refine iff_of_false (fun hcall => ?_) nofun
    simp [h.calls k x hcall] at hx
  task := fun t x c hx => by
    refine iff_of_false (fun hact => ?_) nofun
    simp [h.active t x hact] at hx
  others := fun j x _ => h.calls j x

theorem Quiet.joined (h : Quiet p key) (k : Caller n) : Joined p k key [] where
  active := fun t x hx hact => absurd (h.active t x hact) hx
  known := by simp

/-- A list of codes with different names may be taken on when all is quiet. -/
theorem Quiet.fork (h : Quiet p key) (hxs : xs.Pairwise fun x y => key x ≠ key y) :
    ∃ spot, Tracks p k key xs spot ∧
      ∀ c, spot c = .nowhere ∧ (∀ x ∈ xs, key x ≠ some c) ∨ ∃ x ∈ xs, key x = some c ∧ spot c = .listed x := by
  classical
  have hunique : ∀ x ∈ xs, ∀ y ∈ xs, ∀ c, key x = some c → key y = some c → x = y := by
    intro x hx y hy c hcx hcy
    by_contra hne
    have hsymm : Std.Symm fun a b : α => key a ≠ key b := ⟨fun _ _ h => Ne.symm h⟩
    exact List.Pairwise.forall hxs hx hy hne (hcx.trans hcy.symm)
  let spot : κ → Spot α := fun c =>
    if hc : ∃ x ∈ xs, key x = some c then .listed hc.choose else .nowhere
  have hspot : ∀ x c, key x = some c → (x ∈ xs ↔ spot c = .listed x) := fun x c hx => by
    constructor
    · intro hmem
      have hc : ∃ y ∈ xs, key y = some c := ⟨x, hmem, hx⟩
      simp only [spot, dif_pos hc]
      rw [hunique _ hc.choose_spec.1 x hmem c hc.choose_spec.2 hx]
    · intro hl
      by_cases hc : ∃ y ∈ xs, key y = some c
      · simp only [spot, dif_pos hc, Spot.listed.injEq] at hl
        exact hl ▸ hc.choose_spec.1
      · simp [spot, dif_neg hc] at hl
  have hno : ∀ c, spot c = .nowhere ∨ ∃ x, spot c = .listed x := fun c => by
    by_cases hc : ∃ y ∈ xs, key y = some c
    · exact Or.inr ⟨_, dif_pos hc⟩
    · exact Or.inl (dif_neg hc)
  have hnames : ∀ c x, (spot c).code = some x → key x = some c := fun c x hx => by
    by_cases hc : ∃ y ∈ xs, key y = some c
    · simp only [spot, dif_pos hc, Spot.code, Option.some.injEq] at hx
      exact hx ▸ hc.choose_spec.2
    · simp [spot, dif_neg hc, Spot.code] at hx
  refine ⟨spot, ⟨hxs, hnames, hspot, fun x c hx => ?_, fun t x c hx => ?_, fun j x _ => h.calls j x⟩,
    fun c => ?_⟩
  · refine iff_of_false (fun hcall => ?_) fun hc => ?_
    · simp [h.calls k x hcall] at hx
    · rcases hno c with hn | ⟨y, hy⟩ <;> simp_all
  · refine iff_of_false (fun hact => ?_) fun hc => ?_
    · simp [h.active t x hact] at hx
    · rcases hno c with hn | ⟨y, hy⟩ <;> simp_all
  · by_cases hc : ∃ y ∈ xs, key y = some c
    · exact Or.inr ⟨_, hc.choose_spec.1, hc.choose_spec.2, dif_pos hc⟩
    · exact Or.inl ⟨dif_neg hc, fun x hx hk => hc ⟨x, hx, hk⟩⟩

/-- Nothing that concerns a named code changes. -/
theorem Tracks.keep (h : Tracks p k key xs spot)
    (hactive : ∀ t x, key x ≠ none → (p'.Active t x ↔ p.Active t x))
    (hcalls : ∀ j x, key x ≠ none → (p'.calls j = .enqueuing x ↔ p.calls j = .enqueuing x)) :
    Tracks p' k key xs spot where
  nodup := h.nodup
  names := h.names
  listed := h.listed
  calling := fun x c hx => (hcalls k x (by simp [hx])).trans (h.calling x c hx)
  task := fun t x c hx => (hactive t x (by simp [hx])).trans (h.task t x c hx)
  others := fun j x hj hcall => by
    by_contra hx
    exact hx (h.others j x hj ((hcalls j x hx).1 hcall))

/-- The code named `c` goes to `l`. -/
theorem Moved.update [DecidableEq κ] {c : κ} {l : Spot α} (h : Moved p p' e (spot c) l) (d : κ) :
    Moved p p' e (spot d) (Function.update spot c l d) := by
  by_cases hd : d = c
  · subst hd
    rw [Function.update_self]
    exact h
  · rw [Function.update_of_ne hd]
    exact .stay _

/-- The code named `c` goes to `l`; nothing that concerns another name changes. -/
theorem Tracks.move [DecidableEq κ] (h : Tracks p k key xs spot) {c : κ} {l : Spot α} {xs' : List α}
    (hnodup : xs'.Pairwise fun x y => key x ≠ key y) (hl : ∀ x, l.code = some x → key x = some c)
    (hhere : ∀ x, key x = some c → (x ∈ xs' ↔ l = .listed x) ∧ (p'.calls k = .enqueuing x ↔ l = .calling x) ∧
      ∀ t, p'.Active t x ↔ l = .task t x)
    (hthere : ∀ x, key x ≠ none → key x ≠ some c → (x ∈ xs' ↔ x ∈ xs) ∧
      (p'.calls k = .enqueuing x ↔ p.calls k = .enqueuing x) ∧ ∀ t, p'.Active t x ↔ p.Active t x)
    (hothers : ∀ j x, j ≠ k → p'.calls j = .enqueuing x → p.calls j = .enqueuing x) :
    Tracks p' k key xs' (Function.update spot c l) := by
  have hself : Function.update spot c l c = l := Function.update_self ..
  have hother : ∀ {d x}, d ≠ c → key x = some d → Function.update spot c l d = spot d ∧ key x ≠ none ∧ key x ≠ some c :=
    fun hd hx => ⟨Function.update_of_ne hd .., by simp [hx], by simpa [hx] using hd⟩
  refine ⟨hnodup, fun d x hx => ?_, fun x d hx => ?_, fun x d hx => ?_, fun t x d hx => ?_,
    fun j x hj hcall => h.others j x hj (hothers j x hj hcall)⟩ <;> by_cases hd : d = c
  · subst hd
    exact hl x (hself ▸ hx)
  · rw [Function.update_of_ne hd] at hx
    exact h.names d x hx
  · subst hd
    rw [hself]
    exact (hhere x hx).1
  · obtain ⟨heq, hsome, hne⟩ := hother hd hx
    rw [heq, (hthere x hsome hne).1]
    exact h.listed x d hx
  · subst hd
    rw [hself]
    exact (hhere x hx).2.1
  · obtain ⟨heq, hsome, hne⟩ := hother hd hx
    rw [heq, (hthere x hsome hne).2.1]
    exact h.calling x d hx
  · subst hd
    rw [hself]
    exact (hhere x hx).2.2 t
  · obtain ⟨heq, hsome, hne⟩ := hother hd hx
    rw [heq, (hthere x hsome hne).2.2 t]
    exact h.task t x d hx

/-- The first code of the list goes into a call. -/
theorem Tracks.call [DecidableEq κ] {x : α} (h : Tracks p k key (x :: xs) spot)
    (hs : p.Step (.enqueueCall k x) p') :
    ∃ spot', Tracks p' k key xs spot' ∧ ∀ c, Moved p p' (.enqueueCall k x) (spot c) (spot' c) := by
  cases hs with
  | enqueueCall _ _ hidle =>
      obtain ⟨hx, hrest⟩ := List.pairwise_cons.1 h.nodup
      have hcalls : ∀ y, (p.setCall k (.enqueuing x)).calls k = .enqueuing y ↔ x = y := by simp
      cases hkey : key x with
      | none =>
          have hne : ∀ {y c}, key y = some c → x ≠ y := by
            rintro y c hy rfl
            simp [hkey] at hy
          refine ⟨spot, ⟨hrest, h.names, fun y c hy => ?_, fun y c hy => ?_, h.task,
            fun j y hj hcall => ?_⟩, fun c => .stay _⟩
          · rw [← h.listed y c hy, List.mem_cons, or_iff_right (hne hy).symm]
          · rw [← h.calling y c hy, hidle, hcalls]
            exact iff_of_false (hne hy) nofun
          · exact h.others j y hj (by simpa [hj] using hcall)
      | some c =>
          have hspot : spot c = .listed x := (h.listed x c hkey).1 (by simp)
          refine ⟨Function.update spot c (.calling x),
            h.move hrest (by simp [Spot.code, hkey]) (fun y hy => ⟨?_, ?_, fun t => ?_⟩)
              (fun y _ hne => ⟨?_, ?_, fun t => Iff.rfl⟩) (fun j y hj hcall => by simpa [hj] using hcall),
            Moved.update (by rw [hspot]; exact .call x)⟩
          · exact iff_of_false (fun hmem => hx y hmem (hkey.trans hy.symm)) nofun
          · simp
          · refine iff_of_false (fun hact => ?_) nofun
            have hspot' := (h.task t y c hy).1 hact
            rw [hspot] at hspot'
            cases hspot'
          · rw [List.mem_cons, or_iff_right]
            rintro rfl
            exact hne hkey
          · rw [hidle, hcalls]
            refine iff_of_false ?_ nofun
            rintro rfl
            exact hne hkey

/-- Putting a thread from one request into another moves no named code, if neither enqueues one. -/
theorem TaskPool.enqueuing_setCall {j : Caller n} {r : Request α}
    (hold : ∀ x, key x ≠ none → p.calls j ≠ .enqueuing x) (hnew : ∀ x, key x ≠ none → r ≠ .enqueuing x) :
    ∀ i x, key x ≠ none → ((p.setCall j r).calls i = .enqueuing x ↔ p.calls i = .enqueuing x) := by
  intro i x hx
  by_cases hij : i = j
  · subst hij; simp [hold x hx, hnew x hx]
  · simp [hij]

/-- A code that is enqueued goes on to `l`, which is no place in the thread. -/
theorem Tracks.enqueued [DecidableEq κ] (h : Tracks p k key xs spot) {j : Caller n} {x : α} {r : Request α}
    {l : Spot α} (hcall : p.calls j = .enqueuing x) (hr : ∀ y, r ≠ .enqueuing y)
    (hcalls : p'.calls = (p.setCall j r).calls) (hl : ∀ y, l.code = some y → y = x)
    (hplace : ∀ y, l ≠ .listed y ∧ l ≠ .calling y)
    (hown : ∀ c, spot c = .calling x → ∀ y t, key y = some c → (p'.Active t y ↔ l = .task t y))
    (hactive : ∀ y t, y ≠ x → (p'.Active t y ↔ p.Active t y)) (hmoved : Moved p p' e (.calling x) l) :
    ∃ spot', Tracks p' k key xs spot' ∧ ∀ c, Moved p p' e (spot c) (spot' c) := by
  cases hkey : key x with
  | none =>
      have hne : ∀ y, key y ≠ none → y ≠ x := by
        rintro y hy rfl
        exact hy hkey
      refine ⟨spot, h.keep (fun t y hy => hactive y t (hne y hy)) (fun i y hy => ?_), fun c => .stay _⟩
      rw [hcalls]
      refine TaskPool.enqueuing_setCall (fun z hz hcall' => ?_) (fun z _ => hr z) i y hy
      rw [hcall] at hcall'
      cases hcall'
      exact hz hkey
  | some c =>
      have hj : j = k := by
        by_contra hj
        simp [h.others j x hj hcall] at hkey
      subst hj
      have hspot : spot c = .calling x := (h.calling x c hkey).1 hcall
      have hnew : ∀ y, p'.calls j ≠ .enqueuing y := by simp [hcalls, hr]
      have hne : ∀ y, key y ≠ some c → y ≠ x := by
        rintro y hy rfl
        exact hy hkey
      refine ⟨Function.update spot c l,
        h.move h.nodup (fun y hy => hl y hy ▸ hkey) (fun y hy => ⟨?_, ?_, fun t => hown c hspot y t hy⟩)
          (fun y _ hy => ⟨Iff.rfl, ?_, fun t => hactive y t (hne y hy)⟩) (fun i y hi hcall' => ?_),
        Moved.update (by rw [hspot]; exact hmoved)⟩
      · rw [h.listed y c hy, hspot]
        exact iff_of_false nofun (hplace y).1
      · exact iff_of_false (hnew y) (hplace y).2
      · rw [hcall]
        refine iff_of_false (hnew y) fun hxy => hne y hy ?_
        cases hxy
        rfl
      · simpa [hcalls, hi] using hcall'

/-- The accepted code becomes the code of an active task. -/
theorem Tracks.accept [DecidableEq κ] (h : Tracks p k key xs spot) {j : Caller n} {x : α} {t : TskId}
    (hcall : p.calls j = .enqueuing x) (hnew : p.phase t = .unknown)
    (hp' : p' = (p.setPhase t (.queued x)).setCall j (.accepted t)) :
    ∃ spot', Tracks p' k key xs spot' ∧ ∀ c, Moved p p' e (spot c) (spot' c) := by
  have hnone : ∀ y, ¬ p.Active t y := fun y hact => by simp [TaskPool.Active, hnew] at hact
  have hnow : ∀ y, p'.Active t y ↔ y = x := fun y => by simp [hp', TaskPool.Active, eq_comm]
  have hbefore : ∀ u y, u ≠ t → (p'.Active u y ↔ p.Active u y) := fun u y hu => by
    simp [hp', TaskPool.Active, hu]
  refine h.enqueued (r := .accepted t) (l := .task t x) hcall (fun y => nofun) (by rw [hp']; rfl)
    (fun y hy => ?_) (fun y => ⟨nofun, nofun⟩) (fun c hspot y u hy => ?_) (fun y u hyx => ?_)
    (.accept x t (by simp [hp']))
  · exact (Option.some.inj hy).symm
  · by_cases hu : u = t
    · subst hu
      simp [hnow, eq_comm]
    · rw [hbefore u y hu, h.task u y c hy, hspot]
      simp [Ne.symm hu]
  · by_cases hu : u = t
    · subst hu
      exact iff_of_false (mt (hnow y).1 hyx) (hnone y)
    · exact hbefore u y hu

/-- A code that is not accepted is nowhere. -/
theorem Tracks.lose [DecidableEq κ] (h : Tracks p k key xs spot) {j : Caller n} {x : α} {r : Request α}
    (hcall : p.calls j = .enqueuing x) (hr : ∀ y, r ≠ .enqueuing y) (hp' : p' = p.setCall j r)
    (hlost : p.started = false ∨ p.closed = true) :
    ∃ spot', Tracks p' k key xs spot' ∧ ∀ c, Moved p p' e (spot c) (spot' c) := by
  subst hp'
  refine h.enqueued (l := .nowhere) hcall hr rfl nofun (fun y => ⟨nofun, nofun⟩) (fun c hspot y t hy => ?_)
    (fun _ _ _ => Iff.rfl) (.lost x hlost)
  refine iff_of_false (fun hact => ?_) nofun
  have hspot' := (h.task t y c hy).1 hact
  rw [hspot] at hspot'
  cases hspot'

/-- A code that has returned is nowhere. -/
theorem Tracks.finish [DecidableEq κ] (h : Tracks p k key xs spot) {w : Fin n} {t : TskId} {x : α}
    (hr : p.phase t = .running x w) :
    ∃ spot', Tracks (p.setPhase t .ended) k key xs spot' ∧
      ∀ c, Moved p (p.setPhase t .ended) (.finished w t) (spot c) (spot' c) := by
  have hactive : ∀ u y, (p.setPhase t .ended).Active u y ↔ u ≠ t ∧ p.Active u y := fun u y => by
    by_cases hu : u = t
    · subst hu; simp [TaskPool.Active]
    · simp [TaskPool.Active, hu]
  have hown : ∀ y, p.Active t y ↔ y = x := fun y => by
    simp [TaskPool.Active, hr, eq_comm]
  have hothers : ∀ u y, y ≠ x → ((p.setPhase t .ended).Active u y ↔ p.Active u y) := by
    intro u y hyx
    rw [hactive, and_iff_right_iff_imp]
    rintro hact rfl
    exact hyx ((hown y).1 hact)
  cases hkey : key x with
  | none =>
      refine ⟨spot, h.keep (fun u y hy => hothers u y ?_) (fun i y _ => Iff.rfl), fun c => .stay _⟩
      rintro rfl
      exact hy hkey
  | some c =>
      have hspot : spot c = .task t x := (h.task t x c hkey).1 ((hown x).2 rfl)
      refine ⟨Function.update spot c .nowhere,
        h.move h.nodup nofun (fun y hy => ⟨?_, ?_, fun u => ?_⟩) (fun y _ hy => ⟨Iff.rfl, Iff.rfl, fun u => hothers u y ?_⟩)
          (fun i y _ hcall => hcall),
        Moved.update (by rw [hspot]; exact .finish w t x rfl hr)⟩
      · rw [h.listed y c hy, hspot]
        exact iff_of_false nofun nofun
      · refine iff_of_false (fun hcall => ?_) nofun
        have hspot' := (h.calling y c hy).1 hcall
        rw [hspot] at hspot'
        cases hspot'
      · rw [hactive]
        refine iff_of_false (fun ⟨hu, hact⟩ => ?_) nofun
        have hspot' := (h.task u y c hy).1 hact
        rw [hspot] at hspot'
        cases hspot'
        exact hu rfl
      · rintro rfl
        exact hy hkey

/-- **What a step of the pool does to the codes with names**, if it is not a call that
enqueues one. -/
theorem Tracks.step [DecidableEq κ] (h : Tracks p k key xs spot) (hs : p.Step e p')
    (hcall : ∀ j x, e = .enqueueCall j x → key x = none) :
    ∃ spot', Tracks p' k key xs spot' ∧ ∀ c, Moved p p' e (spot c) (spot' c) := by
  have hstay : (∀ t x, key x ≠ none → (p'.Active t x ↔ p.Active t x)) →
      (∀ j x, key x ≠ none → (p'.calls j = .enqueuing x ↔ p.calls j = .enqueuing x)) →
      ∃ spot', Tracks p' k key xs spot' ∧ ∀ c, Moved p p' e (spot c) (spot' c) :=
    fun hactive hcalls => ⟨spot, h.keep hactive hcalls, fun c => .stay _⟩
  have hsame : ∀ t x, key x ≠ none → (p.Active t x ↔ p.Active t x) := fun _ _ _ => Iff.rfl
  cases hs with
  | tau | start _ | startAgain _ | shutdownCall | close _ | shutdownRet _ _ =>
      exact hstay hsame fun _ _ _ => Iff.rfl
  | statusCall j hj | waitCall j _ hj =>
      exact hstay hsame (TaskPool.enqueuing_setCall (fun x _ => by simp [hj]) fun x _ => by simp)
  | statusRet j _ hj | waitRet j _ hj _ =>
      exact hstay hsame (TaskPool.enqueuing_setCall (fun x _ => by simp [hj]) fun x _ => by simp)
  | enqueueRet j t hj =>
      refine hstay hsame fun i x hx => ?_
      exact TaskPool.enqueuing_setCall (p := p) (fun x _ => by simp [hj]) (fun x _ => by simp) i x hx
  | enqueueCall j x hj =>
      refine hstay hsame (TaskPool.enqueuing_setCall (fun y _ => by simp [hj]) fun y hy hxy => ?_)
      cases hxy
      exact hy (hcall j x rfl)
  | accept j x t hj _ hnew => exact h.accept hj hnew rfl
  | drop j x t hj hclosed => exact h.lose hj (fun y => by simp) rfl (Or.inr hclosed)
  | refuse j x hj hno => exact h.lose hj (fun y => by simp) rfl hno
  | finished w t x hr _ => exact h.finish hr
  | started w t x hq _ =>
      refine hstay (fun u y _ => ?_) fun _ _ _ => Iff.rfl
      by_cases hu : u = t
      · subst hu
        simp [TaskPool.Active, hq]
      · simp [TaskPool.Active, hu]

theorem Quiet.step (h : Quiet p key) (hs : p.Step e p')
    (hcall : ∀ j x, e = .enqueueCall j x → key x = none) : Quiet p' key where
  active := fun t x hact => by
    rcases hs.active hact with hold | ⟨j, hj, -⟩
    · exact h.active t x hold
    · exact h.calls j x hj
  calls := fun j x hj => by
    rcases hs.enqueuing hj with hold | he
    · exact h.calls j x hold
    · exact hcall j x he

/-- While the thread is not given an id, it waits for the same tasks. -/
theorem Joined.step (h : Joined p k key ids) (hs : p.Step e p')
    (hothers : ∀ j x, j ≠ k → p.calls j = .enqueuing x → key x = none)
    (hret : ∀ r, e ≠ .enqueueRet k r) : Joined p' k key ids where
  active := fun t x hx hact => by
    rcases hs.active hact with hold | ⟨j, hj, hacc⟩
    · exact (h.active t x hx hold).imp_right fun hk => hs.accepted hk hret
    · by_cases hjk : j = k
      · subst hjk; exact Or.inr hacc
      · exact absurd (hothers j x hjk hj) hx
  known := fun t ht => hs.returned (h.known t ht)

/-- The thread is given an id, or -1, and will wait for it. -/
theorem Joined.enqueueRet {r : Int} (h : Joined p k key ids) (hs : p.Step (.enqueueRet k r) p') :
    Joined p' k key (ids ++ [r]) where
  active := fun t x hx hact => by
    rcases hs.active hact with hold | ⟨j, hj, hacc⟩
    · rcases h.active t x hx hold with hmem | hk
      · exact Or.inl (by simp [hmem])
      · cases hs with
        | refuse _ _ hcall _ => simp [hk] at hcall
        | enqueueRet _ u hcall =>
            rw [hk] at hcall
            cases hcall
            exact Or.inl (by simp)
    · cases hs with
      | refuse _ _ _ _ | enqueueRet _ _ _ =>
          by_cases hjk : j = k
          · subst hjk; simp at hacc
          · simp [hjk, hj] at hacc
  known := fun t ht => by
    rcases List.mem_append.1 ht with hmem | hr
    · exact hs.returned (h.known t hmem)
    · cases hs with
      | refuse _ _ _ _ => simp at hr
      | enqueueRet _ u hcall =>
          have htu : t = u := Int.ofNat_inj.1 (List.mem_singleton.1 hr)
          exact htu ▸ List.mem_cons_self

/-- When a wait has returned, its task is not active. -/
theorem Joined.waitRet {id : Int} (h : Joined p k key (id :: ids)) (hs : p.Step (.waitRet k id) p') :
    Joined p' k key ids := by
  cases hs with
  | waitRet _ _ hcall hended =>
      refine ⟨fun t x hx hact => ?_, fun t ht => h.known t (List.mem_cons_of_mem id ht)⟩
      rcases h.active t x hx hact with hmem | hk
      · rcases List.mem_cons.1 hmem with rfl | hmem
        · have hphase := hended t rfl (h.known t List.mem_cons_self)
          have hact' : p.Active t x := hact
          simp [TaskPool.Active, hphase] at hact'
        · exact Or.inl hmem
      · simp [hk] at hcall

/-- **All is quiet when the last wait has returned.** -/
theorem Joined.quiet (h : Joined p k key []) (htr : Tracks p k key [] spot) (hidle : p.calls k = .idle) :
    Quiet p key where
  active := fun t x hact => by
    by_contra hx
    rcases h.active t x hx hact with hmem | hk
    · simp at hmem
    · simp [hidle] at hk
  calls := fun j x hj => by
    by_cases hjk : j = k
    · subst hjk; simp [hidle] at hj
    · exact htr.others j x hjk hj

/-- Where all is quiet, the names are nowhere. -/
theorem Tracks.nowhere (h : Tracks p k key [] spot) (hq : Quiet p key) (c : κ) : spot c = .nowhere := by
  cases hs : spot c with
  | nowhere => rfl
  | listed x =>
      have hx := h.names c x (by rw [hs]; rfl)
      exact absurd ((h.listed x c hx).2 hs) (by simp)
  | calling x =>
      have hx := h.names c x (by rw [hs]; rfl)
      have hnone := hq.calls k x ((h.calling x c hx).2 hs)
      rw [hx] at hnone
      cases hnone
  | task t x =>
      have hx := h.names c x (by rw [hs]; rfl)
      have hnone := hq.active t x ((h.task t x c hx).2 hs)
      rw [hx] at hnone
      cases hnone

/-- A thread that is in no call stays in none until it makes one. -/
theorem TaskPool.Step.idle (h : p.Step e p') (hk : p.calls k = .idle)
    (hcaller : TaskPool.caller e ≠ some k) : p'.calls k = .idle := by
  have hne : ∀ {j : Caller n}, some j ≠ some k → k ≠ j := fun hj hkj => hj (congrArg some hkj.symm)
  cases h with
  | statusCall j _ | statusRet j _ _ | enqueueCall j _ _ | refuse j _ _ _ | enqueueRet j _ _
  | waitCall j _ _ | waitRet j _ _ _ =>
      simpa [hne hcaller] using hk
  | accept j _ _ hj _ _ | drop j _ _ hj _ =>
      have hkj : k ≠ j := by
        rintro rfl
        rw [hk] at hj
        cases hj
      simpa [hkj] using hk
  | _ => exact hk

/-- The thread `k` has these codes to enqueue and these ids to wait for, and is in a call or
not. -/
structure Forked (p : TaskPool n α) (k : Caller n) (key : α → Option κ) (xs : List α) (ids : List Int)
    (calling : Bool) (spot : κ → Spot α) : Prop where
  tracks : Tracks p k key xs spot
  joined : Joined p k key ids
  idle : calling = false → p.calls k = .idle

/-- Steps that are not the thread's own. -/
theorem Forked.step [DecidableEq κ] {calling : Bool} (h : Forked p k key xs ids calling spot)
    (hs : p.Step e p') (hcaller : TaskPool.caller e ≠ some k)
    (hcall : ∀ j x, e = .enqueueCall j x → key x = none) :
    ∃ spot', Forked p' k key xs ids calling spot' ∧ ∀ c, Moved p p' e (spot c) (spot' c) := by
  obtain ⟨spot', htracks, hmoved⟩ := h.tracks.step hs hcall
  refine ⟨spot', ⟨htracks, h.joined.step hs h.tracks.others ?_, fun hc => ?_⟩, hmoved⟩
  · rintro r rfl
    exact hcaller rfl
  · exact hs.idle (h.idle hc) hcaller

/-- The events of the loops are the thread's own calls and returns. -/
theorem Join.observe_caller [DecidableEq α] {j j' : Join α} (hj : j.observe k e = some j') :
    TaskPool.caller e = some k := by
  unfold Join.observe at hj
  split at hj
  · split at hj <;> cases hj
    rename_i hk
    rw [← hk.1]; rfl
  · split at hj <;> cases hj
    rename_i hk
    rw [← hk]; rfl
  · split at hj <;> cases hj
    rename_i hk
    rw [← hk.1]; rfl
  · split at hj <;> cases hj
    rename_i hk
    rw [← hk.1]; rfl
  · cases hj

/-- The calls and returns of the thread. -/
theorem Forked.observe [DecidableEq κ] [DecidableEq α] {j j' : Join α}
    (h : Forked p k key j.codes j.pending j.calling spot) (hs : p.Step e p')
    (hj : j.observe k e = some j') :
    ∃ spot', Forked p' k key j'.codes j'.pending j'.calling spot' ∧
      ∀ c, Moved p p' e (spot c) (spot' c) := by
  unfold Join.observe at hj
  split at hj
  · split at hj <;> cases hj
    rename_i hk
    obtain ⟨rfl, rfl⟩ := hk
    obtain ⟨spot', htracks, hmoved⟩ := h.tracks.call hs
    exact ⟨spot', ⟨htracks, h.joined.step hs h.tracks.others (by simp), nofun⟩, hmoved⟩
  · split at hj <;> cases hj
    rename_i hk
    subst hk
    obtain ⟨spot', htracks, hmoved⟩ := h.tracks.step hs (by simp)
    refine ⟨spot', ⟨htracks, h.joined.enqueueRet hs, fun _ => ?_⟩, hmoved⟩
    cases hs <;> simp
  · split at hj <;> cases hj
    rename_i hk
    obtain ⟨rfl, rfl⟩ := hk
    obtain ⟨spot', htracks, hmoved⟩ := h.tracks.step hs (by simp)
    exact ⟨spot', ⟨htracks, h.joined.step hs h.tracks.others (by simp), nofun⟩, hmoved⟩
  · split at hj <;> cases hj
    rename_i hk
    obtain ⟨rfl, rfl⟩ := hk
    obtain ⟨spot', htracks, hmoved⟩ := h.tracks.step hs (by simp)
    refine ⟨spot', ⟨htracks, h.joined.waitRet hs, fun _ => ?_⟩, hmoved⟩
    cases hs
    simp
  · cases hj

/-- After the last wait. -/
theorem Forked.quiet (h : Forked p k key [] [] false spot) : Quiet p key :=
  h.joined.quiet h.tracks (h.idle rfl)

theorem Quiet.forked (h : Quiet p key) (hk : p.calls k = .idle) :
    Forked p k key [] [] false fun _ => .nowhere :=
  ⟨h.tracks k, h.joined k, fun _ => hk⟩

/-- `f` says which of the named codes each worker runs. -/
structure Performs (p : TaskPool n α) (key : α → Option κ) (f : Fin n → Option α) : Prop where
  solo : p.Solo
  named : ∀ w x, f w = some x → key x ≠ none
  runs : ∀ w x, key x ≠ none → (f w = some x ↔ ∃ t, p.phase t = .running x w)

variable {f : Fin n → Option α} {w : Fin n} {t : TskId} {x : α}

theorem Performs.init : Performs (.init n α) key fun _ => none where
  solo := .init
  named := nofun
  runs := fun w x _ => iff_of_false nofun fun ⟨t, ht⟩ => by simp [TaskPool.init] at ht

/-- No worker starts or ends a task. -/
theorem Performs.step (h : Performs p key f) (hs : p.Step e p')
    (hstarted : ∀ w t x, e ≠ .started w t (some x)) (hfinished : ∀ w t, e ≠ .finished w t) :
    Performs p' key f where
  solo := h.solo.step hs
  named := h.named
  runs := fun w x hx => by
    rw [h.runs w x hx]
    refine exists_congr fun t => ?_
    rcases hs.phase_cases t with heq | ⟨k, y, -, -, hold, hnew⟩ | ⟨v, y, he, -⟩ | ⟨v, y, he, -⟩
    · rw [heq]
    · rw [hold, hnew]
      exact iff_of_false nofun nofun
    · exact absurd he (hstarted v t y)
    · exact absurd he (hfinished v t)

/-- Worker `w` starts the code `x`. -/
theorem Performs.started (h : Performs p key f) (hs : p.Step (.started w t (some x)) p')
    (hx : key x ≠ none) : Performs p' key (Function.update f w (some x)) where
  solo := h.solo.step hs
  named := fun v y hy => by
    by_cases hv : v = w
    · subst hv
      have hxy : x = y := by simpa using hy
      exact hxy ▸ hx
    · exact h.named v y (by simpa [hv] using hy)
  runs := fun v y hy => by
    cases hs with
    | started _ _ _ hq hfree =>
        by_cases hv : v = w
        · subst hv
          rw [Function.update_self]
          refine ⟨fun heq => ⟨t, by simpa using heq⟩, fun ⟨u, hu⟩ => ?_⟩
          by_cases hut : u = t
          · subst hut; simpa using hu
          · exact absurd (by simpa [hut] using hu) (hfree u y)
        · rw [Function.update_of_ne hv, h.runs v y hy]
          refine exists_congr fun u => ?_
          by_cases hut : u = t
          · subst hut
            rw [hq]
            refine iff_of_false nofun fun hr => hv ?_
            simp only [TaskPool.setPhase_phase, Function.update_self, Phase.running.injEq] at hr
            exact hr.2.symm
          · simp [hut]

/-- Worker `w` starts a code without a name. -/
theorem Performs.started_other (h : Performs p key f) (hs : p.Step (.started w t (some x)) p')
    (hx : key x = none) : Performs p' key f where
  solo := h.solo.step hs
  named := h.named
  runs := fun v y hy => by
    rw [h.runs v y hy]
    refine exists_congr fun u => ?_
    cases hs with
    | started _ _ _ hq _ =>
        by_cases hut : u = t
        · subst hut
          rw [hq]
          refine iff_of_false nofun fun hr => hy ?_
          simp only [TaskPool.setPhase_phase, Function.update_self, Phase.running.injEq] at hr
          exact hr.1 ▸ hx
        · simp [hut]

/-- What worker `w` runs ends. -/
theorem Performs.finished (h : Performs p key f) (hs : p.Step (.finished w t) p') :
    Performs p' key (Function.update f w none) where
  solo := h.solo.step hs
  named := fun v y hy => by
    by_cases hv : v = w
    · subst hv; simp at hy
    · exact h.named v y (by simpa [hv] using hy)
  runs := fun v y hy => by
    cases hs with
    | finished _ _ z hr _ =>
        by_cases hv : v = w
        · subst hv
          rw [Function.update_self]
          refine iff_of_false nofun fun ⟨u, hu⟩ => ?_
          by_cases hut : u = t
          · subst hut; simp at hu
          · exact hut (h.solo v u t y z (by simpa [hut] using hu) hr)
        · rw [Function.update_of_ne hv, h.runs v y hy]
          refine exists_congr fun u => ?_
          by_cases hut : u = t
          · subst hut
            rw [hr]
            refine iff_of_false (fun hr' => hv ?_) (by simp)
            cases hr'
            rfl
          · simp [hut]

/-- Where all is quiet, no worker runs a named code. -/
theorem Performs.none_of_quiet (h : Performs p key f) (hq : Quiet p key) (w : Fin n) : f w = none := by
  cases hf : f w with
  | none => rfl
  | some x =>
      have hx := h.named w x hf
      obtain ⟨t, ht⟩ := (h.runs w x hx).1 hf
      exact absurd (hq.active t x (Or.inr ⟨w, ht⟩)) hx

end Tracking

end ComplexSim.Workerpool
