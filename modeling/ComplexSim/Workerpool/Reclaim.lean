import ComplexSim.Workerpool.Record
import Mathlib.Data.Fintype.Basic

/-!
# The life of a task record

The worker marks the task before it stores the exit code, and it still unlocks and signals
afterwards; `cs_wp_tsk_pop_res` does not wait for either. Its result is complete, and the record
is not used after it is destroyed, in the runs that keep clear of both (`Careful`).
-/

namespace ComplexSim.TaskRecord

open Workerpool (TskStatus TskExitStatus CsWpTskRes)

variable {T δ : Type}

/-- The result is not copied between the mark and an exit code that differs from the initial one;
the record is destroyed only after the worker's last access, and with nobody else in
`cs_wp_tsk_wait` who has found it. -/
def Clear (s : State T δ) (t : T) : Pc δ → Prop
  | .copyExitCode _ => s.worker ≠ .setExitCode .error
  | .destroyMutex _ => s.worker = .gone ∧ ∀ u, u ≠ t → (s.pc u).found = false
  | _ => True

/-- Callers are clear of the worker and of each other, and no wait is interrupted before the
mark: neither one of `cs_wp_tsk_get_res` or `cs_wp_tsk_pop_res`, which would go on to the result, nor a plain
`cs_wp_tsk_wait`, where it would do no harm to the record. -/
def Careful (s : State T δ) : Label T δ → Prop
  | .act t => Clear s t (s.pc t)
  | .interrupt _ => s.status = .done
  | _ => True

namespace Careful

/-- The worker has stored the exit code. -/
def stored : WorkerPc → Bool
  | .unlock | .signal | .gone => true
  | _ => false

/-- What the task's code has returned, where the record holds `res`. -/
def outcome (res : CsWpTskRes δ) : WorkerPc → Option (CsWpTskRes δ)
  | .start | .running => none
  | .lock ex | .setStatus ex | .setExitCode ex => some ⟨ex, res.tskResData⟩
  | .unlock | .signal | .gone => some res

/-- What is known where `t` stands at a place. -/
def Good (s : State T δ) (t : T) : Pc δ → Prop
  | .idle | .find _ | .readStatus _ | .semWait _ => True
  | .lookup _ => s.status = .done
  | .malloc pop | .copyExitCode pop =>
      s.status = .done ∧ s.tableMutex = some t ∧ s.life = .alive ∧ (pop → s.inTable = false)
  | .copyData pop ex =>
      s.status = .done ∧ s.tableMutex = some t ∧ s.life = .alive ∧ (pop → s.inTable = false) ∧
        s.code = some ⟨ex, s.tskRes.tskResData⟩
  | .destroyMutex r =>
      s.status = .done ∧ s.tableMutex = some t ∧ s.life = .alive ∧ s.inTable = false ∧ s.code = some r
  | .freeMutex r | .freeTask r =>
      s.status = .done ∧ s.tableMutex = some t ∧ s.life = .mutexDestroyed ∧ s.code = some r
  | .unlock r => s.status = .done ∧ s.tableMutex = some t ∧ ∀ x ∈ r, s.code = some x

structure Inv (s : State T δ) : Prop where
  defined : s.misused = false
  status : s.status = .done ↔ s.worker.marked
  code : s.code = outcome s.tskRes s.worker
  /-- the exit code is that of `calloc` until it is stored -/
  fresh : stored s.worker = false → s.tskRes.tskExitCode = .success
  token : 0 < s.taskSem → s.worker = .gone
  popped : s.inTable = false → s.status = .done
  destroyed : s.life ≠ .alive → s.worker = .gone ∧ s.inTable = false ∧ ∀ t, (s.pc t).found = false
  good : ∀ t, Good s t (s.pc t)
  results : ∀ r ∈ s.results, s.status = .done ∧ s.code = some r

variable {s s' : State T δ}

theorem init_inv : Inv (init T δ) where
  defined := rfl
  status := by simp [init, WorkerPc.marked]
  code := rfl
  fresh := fun _ => rfl
  token := nofun
  popped := nofun
  destroyed := fun h => absurd rfl h
  good := fun _ => trivial
  results := nofun

theorem Good.holds {t : T} {p : Pc δ} (h : Good s t p) (hp : p.holds) : s.tableMutex = some t := by
  cases p with
  | malloc pop | copyExitCode pop | copyData pop ex | destroyMutex r | freeMutex r | freeTask r | unlock r =>
      exact h.2.1
  | _ => cases hp

/-- A place stays good where a marked task keeps its outcome, and what the table's mutex protects
stays for who holds it. -/
theorem Good.frame {t : T} {p : Pc δ} (h : Good s t p)
    (hholds : p.holds → s'.tableMutex = s.tableMutex ∧ s'.life = s.life ∧ s'.inTable = s.inTable)
    (hdone : s.status = .done →
      s'.status = .done ∧ s'.code = s.code ∧ s'.tskRes.tskResData = s.tskRes.tskResData) :
    Good s' t p := by
  cases p with
  | idle | find op | readStatus op | semWait op => trivial
  | lookup pop => exact (hdone h).1
  | malloc pop | copyExitCode pop | copyData pop ex | destroyMutex r | freeMutex r | freeTask r | unlock r =>
      obtain ⟨hm, hl, hi⟩ := hholds rfl
      obtain ⟨hd, hc, hr⟩ := hdone h.1
      simp only [Good, hm, hl, hi, hd, hc, hr] at h ⊢
      simpa [h.1] using h

theorem Inv.alive (h : Inv s) (hw : s.worker ≠ .gone) : s.life = .alive := by
  by_contra hlife
  exact hw (h.destroyed hlife).1

/-- A step of the worker, or of the task's code. -/
theorem Inv.worker (h : Inv s) (hw : s.worker ≠ .gone) {st : TskStatus} {res : CsWpTskRes δ} {m : Bool}
    {n : Nat} {w : WorkerPc} {code : Option (CsWpTskRes δ)} (hstatus : st = .done ↔ w.marked)
    (hcode : code = outcome res w) (hfresh : stored w = false → res.tskExitCode = .success)
    (htoken : 0 < n → w = .gone)
    (hdone : s.status = .done → st = .done ∧ code = s.code ∧ res.tskResData = s.tskRes.tskResData) :
    Inv { s with status := st, tskRes := res, tskMutex := m, taskSem := n, worker := w, code := code } where
  defined := h.defined
  status := hstatus
  code := hcode
  fresh := hfresh
  token := htoken
  popped := fun hin => (hdone (h.popped hin)).1
  destroyed := fun hlife => absurd (h.alive hw) hlife
  good := fun t => (h.good t).frame (fun _ => ⟨rfl, rfl, rfl⟩) hdone
  results := by
    intro r hr
    obtain ⟨hd, hc⟩ := h.results r hr
    obtain ⟨hd', hc', -⟩ := hdone hd
    exact ⟨hd', hc'.trans hc⟩

theorem worker_inv (h : Inv s) (hs : workerStep s = some s') : Inv s' := by
  have hstatus := h.status
  have hcode := h.code
  have hfresh := h.fresh
  have hnone : s.worker ≠ .gone → s.taskSem = 0 := by
    intro hw
    by_contra hsem
    exact hw (h.token (by omega))
  have hwork : s.worker ≠ .gone := by
    intro hw
    simp [workerStep, hw] at hs
  unfold workerStep at hs
  rw [State.touch_of_alive (h.alive hwork), State.touchMutex_of_alive (h.alive hwork)] at hs
  replace hnone := hnone hwork
  cases hw : s.worker with
  | running | gone =>
      rw [hw] at hs
      cases hs
  | start =>
      rw [hw] at hs hstatus hcode hfresh
      cases hs
      apply h.worker hwork
      · exact hstatus
      · exact hcode
      · exact hfresh
      · simp [hnone]
      · exact fun hd => ⟨hd, rfl, rfl⟩
  | lock ex =>
      rw [hw] at hs hstatus hcode hfresh
      simp only at hs
      split at hs <;> cases hs
      apply h.worker hwork
      · exact hstatus
      · exact hcode
      · exact hfresh
      · simp [hnone]
      · exact fun hd => ⟨hd, rfl, rfl⟩
  | setStatus ex =>
      rw [hw] at hs hstatus hcode hfresh
      cases hs
      apply h.worker hwork
      · simp [WorkerPc.marked]
      · exact hcode
      · exact hfresh
      · simp [hnone]
      · exact fun _ => ⟨rfl, rfl, rfl⟩
  | setExitCode ex | unlock =>
      rw [hw] at hs hstatus hcode
      cases hs
      apply h.worker hwork
      · exact hstatus
      · exact hcode
      · nofun
      · simp [hnone]
      · exact fun hd => ⟨hd, rfl, rfl⟩
  | signal =>
      rw [hw] at hs hstatus hcode
      cases hs
      apply h.worker hwork
      · exact hstatus
      · exact hcode
      · nofun
      · exact fun _ => rfl
      · exact fun hd => ⟨hd, rfl, rfl⟩

theorem afterWait_good {t : T} (op : Op) (hdone : s.status = .done) : Good s t (afterWait op) := by
  cases op with
  | wait => trivial
  | getRes | popRes => exact hdone

theorem afterWait_found (op : Op) : (afterWait (δ := δ) op).found = false := by
  cases op <;> rfl

theorem Inv.alive_of_found (h : Inv s) {t : T} (hfound : (s.pc t).found) : s.life = .alive := by
  by_contra hlife
  have := (h.destroyed hlife).2.2 t
  simp [hfound] at this

section Callers

variable [DecidableEq T]

/-- A step of the caller `t`. Who changes what the table's mutex protects holds it, or takes it. -/
theorem Inv.caller (h : Inv s) {t : T} {p : Pc δ} {n : Nat} {m : Option T} {l : Life} {i c : Bool}
    {r : List (CsWpTskRes δ)}
    (hgood : Good { s with taskSem := n, life := l, inTable := i, tableMutex := m, results := r, crashed := c } t p)
    (hlock : m = s.tableMutex ∧ l = s.life ∧ i = s.inTable ∨ s.tableMutex = none ∨ s.tableMutex = some t)
    (hsem : n ≤ s.taskSem) (hpopped : i = false → s.status = .done)
    (hdestroyed : l ≠ .alive → s.worker = .gone ∧ i = false ∧ p.found = false ∧
      ∀ u, u ≠ t → (s.pc u).found = false)
    (hresults : ∀ x ∈ r, s.status = .done ∧ s.code = some x) :
    Inv ({ s with taskSem := n, life := l, inTable := i, tableMutex := m, results := r, crashed := c }.setPc t p) where
  defined := h.defined
  status := h.status
  code := h.code
  fresh := h.fresh
  token := fun hn => h.token (Nat.lt_of_lt_of_le hn hsem)
  popped := hpopped
  destroyed := by
    intro hl
    obtain ⟨hgone, hin, hp, hothers⟩ := hdestroyed hl
    refine ⟨hgone, hin, fun u => ?_⟩
    by_cases hut : u = t
    · subst hut
      rwa [State.setPc_self]
    · rw [State.setPc_of_ne _ hut]
      exact hothers u hut
  good := by
    intro u
    by_cases hut : u = t
    · subst hut
      rw [State.setPc_self]
      exact hgood.frame (fun _ => ⟨rfl, rfl, rfl⟩) fun hd => ⟨hd, rfl, rfl⟩
    · rw [State.setPc_of_ne _ hut]
      refine (h.good u).frame (fun hholds => ?_) fun hd => ⟨hd, rfl, rfl⟩
      have hu := (h.good u).holds hholds
      rcases hlock with hsame | hfree | ht
      · exact hsame
      · rw [hfree] at hu
        cases hu
      · rw [ht] at hu
        exact absurd (Option.some.inj hu).symm hut
  results := hresults

/-- A step of `t` that changes nothing but its place. -/
theorem Inv.move (h : Inv s) {t : T} {p : Pc δ} (hgood : Good s t p)
    (hfound : p.found → s.life = .alive) : Inv (s.setPc t p) := by
  apply h.caller (n := s.taskSem) (m := s.tableMutex) (l := s.life) (i := s.inTable) (r := s.results)
    (c := s.crashed) hgood (.inl ⟨rfl, rfl, rfl⟩) (le_refl _) h.popped _ h.results
  intro hlife
  obtain ⟨hgone, hin, hothers⟩ := h.destroyed hlife
  refine ⟨hgone, hin, ?_, fun u _ => hothers u⟩
  by_contra hp
  exact hlife (hfound (by simpa using hp))

/-- The steps of `cs_wp_tsk_wait`. -/
theorem wait_inv (h : Inv s) {t : T} (hholds : (s.pc t).holds = false) (hs : callerStep s t = some s') :
    Inv s' := by
  have hgood := h.good t
  unfold callerStep at hs
  cases hpc : s.pc t with
  | idle =>
      simp only [hpc] at hs
      cases hs
  | find op =>
      simp only [hpc] at hs
      split at hs <;> cases hs
      cases hin : s.inTable with
      | true =>
          have halive : s.life = .alive := by
            by_contra hlife
            have := (h.destroyed hlife).2.1
            simp [hin] at this
          exact h.move trivial fun _ => halive
      | false =>
          apply h.move (afterWait_good op (h.popped hin))
          simp [afterWait_found]
  | readStatus op =>
      have halive := h.alive_of_found (t := t) (by simp [hpc, Pc.found])
      simp only [hpc, State.touch_of_alive halive] at hs
      cases hs
      by_cases hdone : s.status = .done
      · rw [if_pos hdone]
        exact h.move (afterWait_good op hdone) fun _ => halive
      · rw [if_neg hdone]
        exact h.move trivial fun _ => halive
  | semWait op =>
      have halive := h.alive_of_found (t := t) (by simp [hpc, Pc.found])
      simp only [hpc, State.touch_of_alive halive] at hs
      split at hs <;> cases hs
      rename_i hsem
      have hdone : s.status = .done := h.status.2 (by simp [h.token hsem, WorkerPc.marked])
      apply h.caller (l := s.life) (i := s.inTable) (r := s.results) (c := s.crashed)
      · exact afterWait_good op hdone
      · exact .inl ⟨rfl, rfl, rfl⟩
      · omega
      · exact h.popped
      · exact fun hlife => absurd halive hlife
      · exact h.results
  | lookup pop =>
      rw [hpc] at hgood
      have hdone : s.status = .done := hgood
      simp only [hpc] at hs
      split at hs
      · cases hs
      · rename_i hmutex
        have hfree : s.tableMutex = none := by simpa using hmutex
        split at hs
        · rename_i hin
          cases hs
          have halive : s.life = .alive := by
            by_contra hlife
            have := (h.destroyed hlife).2.1
            simp [hin] at this
          apply h.caller (n := s.taskSem) (l := s.life) (r := s.results) (c := s.crashed)
          · exact ⟨hdone, rfl, halive, by simp⟩
          · exact .inr (.inl hfree)
          · apply le_refl
          · exact fun _ => hdone
          · exact fun hlife => absurd halive hlife
          · exact h.results
        · split at hs <;> cases hs
          · exact ⟨h.defined, h.status, h.code, h.fresh, h.token, h.popped, h.destroyed,
              fun u => (h.good u).frame (fun _ => ⟨rfl, rfl, rfl⟩) fun hd => ⟨hd, rfl, rfl⟩, h.results⟩
          · exact h.move trivial nofun
  | _ => simp [hpc, Pc.holds] at hholds

/-- The steps under `table_mutex`. -/
theorem section_inv (h : Inv s) {t : T} (hok : Careful s (.act t)) (hholds : (s.pc t).holds)
    (hs : callerStep s t = some s') : Inv s' := by
  have hgood := h.good t
  have hmutex := hgood.holds hholds
  have hclear : Clear s t (s.pc t) := hok
  unfold callerStep at hs
  cases hpc : s.pc t with
  | malloc pop =>
      simp only [hpc] at hs hgood
      cases hs
      exact h.move hgood nofun
  | copyExitCode pop =>
      simp only [hpc] at hs hgood hclear
      obtain ⟨hdone, -, halive, hin⟩ := hgood
      rw [State.touch_of_alive halive] at hs
      cases hs
      refine h.move ⟨hdone, hmutex, halive, hin, ?_⟩ nofun
      have hmarked := h.status.1 hdone
      have hcode := h.code
      cases hw : s.worker with
      | setExitCode ex =>
          -- the code has succeeded, as the record says from the start
          have hex : ex = .success := by
            cases ex with
            | success => rfl
            | error => exact absurd hw hclear
          have hfresh := h.fresh (by simp [hw, stored])
          rw [hcode, hw, hfresh, hex]
          rfl
      | unlock | signal | gone =>
          rw [hcode, hw]
          rfl
      | _ => simp [hw, WorkerPc.marked] at hmarked
  | copyData pop ex =>
      simp only [hpc] at hs hgood
      obtain ⟨hdone, -, halive, hin, hcode⟩ := hgood
      rw [State.touch_of_alive halive] at hs
      cases hs
      cases pop with
      | true => exact h.move ⟨hdone, hmutex, halive, hin rfl, hcode⟩ nofun
      | false =>
          refine h.move ⟨hdone, hmutex, ?_⟩ nofun
          intro x hx
          rw [hcode, ← Option.mem_some_iff.1 hx]
  | destroyMutex r =>
      simp only [hpc] at hs hgood hclear
      obtain ⟨hdone, -, halive, hin, hcode⟩ := hgood
      rw [State.touchMutex_of_alive halive] at hs
      cases hs
      apply h.caller (n := s.taskSem) (m := s.tableMutex) (i := s.inTable) (r := s.results) (c := s.crashed)
      · exact ⟨hdone, hmutex, rfl, hcode⟩
      · exact .inr (.inr hmutex)
      · apply le_refl
      · exact h.popped
      · exact fun _ => ⟨hclear.1, hin, rfl, hclear.2⟩
      · exact h.results
  | freeMutex r =>
      simp only [hpc] at hs hgood
      rw [State.touch_of_ne (by simp [hgood.2.2.1])] at hs
      cases hs
      exact h.move hgood nofun
  | freeTask r =>
      simp only [hpc] at hs hgood
      obtain ⟨hdone, -, hlife, hcode⟩ := hgood
      cases hs
      obtain ⟨hgone, hin, hothers⟩ := h.destroyed (by simp [hlife])
      apply h.caller (n := s.taskSem) (m := s.tableMutex) (i := s.inTable) (r := s.results) (c := s.crashed)
      · refine ⟨hdone, hmutex, fun x hx => ?_⟩
        rw [← Option.mem_some_iff.1 hx]
        exact hcode
      · exact .inr (.inr hmutex)
      · apply le_refl
      · exact h.popped
      · exact fun _ => ⟨hgone, hin, rfl, fun u _ => hothers u⟩
      · exact h.results
  | unlock r =>
      simp only [hpc] at hs hgood
      obtain ⟨hdone, -, hcode⟩ := hgood
      cases hs
      apply h.caller (n := s.taskSem) (l := s.life) (i := s.inTable) (c := s.crashed)
      · trivial
      · exact .inr (.inr hmutex)
      · apply le_refl
      · exact h.popped
      · intro hlife
        obtain ⟨hgone, hin, hothers⟩ := h.destroyed hlife
        exact ⟨hgone, hin, rfl, fun u _ => hothers u⟩
      · intro x hx
        rcases List.mem_append.1 hx with hx | hx
        · exact h.results x hx
        · exact ⟨hdone, hcode x (Option.mem_toList.1 hx)⟩
  | _ => simp [hpc, Pc.holds] at hholds

theorem step_inv {l : Label T δ} (h : Inv s) (hok : Careful s l) (hs : step s l = some s') : Inv s' := by
  have hunmarked : s.worker = .running → s.status ≠ .done ∧ s.worker ≠ .gone ∧ s.taskSem = 0 := by
    intro hw
    refine ⟨fun hd => ?_, by simp [hw], ?_⟩
    · have := h.status.1 hd
      simp [hw, WorkerPc.marked] at this
    · by_contra hsem
      have := h.token (by omega)
      simp [hw] at this
  unfold step at hs
  split at hs
  · cases hs
  cases l with
  | worker => exact worker_inv h hs
  | codeWrite d =>
      simp only at hs
      split at hs
      · rename_i hw
        obtain ⟨hd, hg, hn⟩ := hunmarked hw
        rw [State.touch_of_alive (h.alive hg)] at hs
        cases hs
        apply h.worker hg h.status
        · rw [h.code, hw]
          rfl
        · exact h.fresh
        · exact h.token
        · exact fun hd' => absurd hd' hd
      · cases hs
  | codeReturn ex =>
      simp only at hs
      split at hs <;> cases hs
      rename_i hw
      obtain ⟨hd, hg, hn⟩ := hunmarked hw
      apply h.worker hg
      · simp [hd, WorkerPc.marked]
      · rfl
      · exact fun _ => h.fresh (by simp [hw, stored])
      · simp [hn]
      · exact fun hd' => absurd hd' hd
  | call t op =>
      simp only at hs
      split at hs <;> cases hs
      exact h.move trivial nofun
  | act t =>
      cases hholds : (s.pc t).holds with
      | true => exact section_inv h hok hholds hs
      | false => exact wait_inv h hholds hs
  | interrupt t =>
      simp only at hs
      split at hs
      · rename_i op hpc
        have halive := h.alive_of_found (t := t) (by simp [hpc, Pc.found])
        rw [State.touch_of_alive halive] at hs
        cases hs
        exact h.move (afterWait_good op hok) fun _ => halive
      · cases hs
  | mallocFail t =>
      simp only at hs
      split at hs <;> cases hs
      rename_i pop hpc
      have hgood := h.good t
      rw [hpc] at hgood
      exact h.move ⟨hgood.1, hgood.2.1, nofun⟩ nofun

end Callers

end Careful

section Results

variable [DecidableEq T]

/-- **A record is not used after it is destroyed, and its result is complete**, in every run in
which callers keep clear of the worker's last accesses. -/
theorem record_outlives_uses (s : State T δ) (h : Lts.ReachableIf (system T δ) Careful s) :
    s.misused = false ∧ ∀ r ∈ s.results, s.code = some r := by
  have hinv : Careful.Inv s := by
    apply h.invariant (I := Careful.Inv)
    · rintro s rfl
      exact Careful.init_inv
    · intro s l t hi hok hs
      exact Careful.step_inv hi hok hs
  exact ⟨hinv.defined, fun r hr => (hinv.results r hr).2⟩

instance [Fintype T] (s : State T δ) (t : T) (p : Pc δ) : Decidable (Clear s t p) :=
  match p with
  | .copyExitCode _ => inferInstanceAs (Decidable (s.worker ≠ .setExitCode .error))
  | .destroyMutex _ => inferInstanceAs (Decidable (s.worker = .gone ∧ ∀ u, u ≠ t → (s.pc u).found = false))
  | .idle | .find _ | .readStatus _ | .semWait _ | .lookup _ | .malloc _ | .copyData .. | .freeMutex _
  | .freeTask _ | .unlock _ => .isTrue trivial

instance [Fintype T] (s : State T δ) (l : Label T δ) : Decidable (Careful s l) :=
  match l with
  | .act t => inferInstanceAs (Decidable (Clear s t (s.pc t)))
  | .interrupt _ => inferInstanceAs (Decidable (s.status = .done))
  | .worker | .codeWrite _ | .codeReturn _ | .call .. | .mallocFail _ => .isTrue trivial

/-- A task fails; one thread reads its result and another pops it. -/
theorem record_outlives_uses_two : ∃ s : State (Fin 2) Nat,
    Lts.ReachableIf (system (Fin 2) Nat) Careful s ∧ s.life = .freed ∧
    s.results = [⟨.error, some 7⟩, ⟨.error, some 7⟩] ∧ s.misused = false ∧
    ∀ r ∈ s.results, s.code = some r := by
  obtain ⟨s, hs, hp⟩ := Lts.exec_of_any (f := Lts.guarded Careful step) (s := init (Fin 2) Nat)
    (p := fun s => decide (s.life = .freed ∧ s.results = [⟨.error, some 7⟩, ⟨.error, some 7⟩]))
    (l := [.call 0 .getRes, .act 0, .worker, .act 0, .codeWrite 7, .codeReturn .error, .worker, .worker,
      .worker, .worker, .worker, .call 1 .popRes, .act 1, .act 1, .act 0, .act 0, .act 0, .act 0, .act 0,
      .act 0, .act 1, .act 1, .act 1, .act 1, .act 1, .act 1, .act 1, .act 1])
    (by decide +kernel)
  have hreach : Lts.ReachableIf (system (Fin 2) Nat) Careful s := ⟨_, rfl, Lts.exec_guarded_run hs⟩
  obtain ⟨hfreed, hresults⟩ := of_decide_eq_true hp
  exact ⟨s, hreach, hfreed, hresults, record_outlives_uses s hreach⟩

/-- The result is popped between the mark and the exit code: the caller gets the exit code of
`calloc`, and the worker stores its own in freed memory. -/
theorem popped_before_stored : ∃ s : State (Fin 1) Nat,
    Lts.Reachable (system (Fin 1) Nat) s ∧ s.misused = true ∧ s.code = some ⟨.error, none⟩ ∧
    s.results = [⟨.success, none⟩] := by
  obtain ⟨s, hs, hp⟩ := Lts.exec_of_any (f := step) (s := init (Fin 1) Nat)
    (p := fun s => decide (s.misused = true ∧ s.code = some ⟨.error, none⟩ ∧ s.results = [⟨.success, none⟩]))
    (l := [.worker, .codeReturn .error, .worker, .worker, .call 0 .popRes, .act 0, .act 0, .act 0, .act 0,
      .act 0, .act 0, .act 0, .act 0, .act 0, .act 0, .worker]) (by decide +kernel)
  exact ⟨s, Lts.exec_reachable rfl hs, of_decide_eq_true hp⟩

end Results

end ComplexSim.TaskRecord
