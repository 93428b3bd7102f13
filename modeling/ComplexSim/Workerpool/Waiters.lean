import ComplexSim.Workerpool.Record
import Mathlib.Data.Fintype.Basic

/-!
# Who waits for a task is released

`_cs_wp_signal_task_end` posts the task's semaphore once, so one waiter is released. The
others are, where they find the status set: nobody is stranded in the runs in which a thread
goes to the semaphore only while no other is there (`OneWaiter`).
-/

namespace ComplexSim.TaskRecord

open Workerpool (TskStatus TskExitStatus CsWpTskRes)

variable {T δ : Type}

/-- In `cs_wp_tsk_wait`. -/
def Pc.waits : Pc δ → Bool
  | .find _ | .readStatus _ | .semWait _ => true
  | _ => false

/-- No result is popped; a thread that is about to go to the semaphore finds nobody there, and
no wait is interrupted before the task's code has returned. -/
def OneWaiter (s : State T δ) : Label T δ → Prop
  | .call _ op => op ≠ .popRes
  | .act t => (s.pc t).found → s.status ≠ .done → ∀ u, u ≠ t → (s.pc u).blocks = false
  | .interrupt _ => s.code.isSome
  | _ => True

/-- Where a caller can stand that pops nothing. -/
def Pc.keeps : Pc δ → Bool
  | .find op | .readStatus op | .semWait op => op != .popRes
  | .lookup pop | .malloc pop | .copyExitCode pop | .copyData pop _ => !pop
  | .idle | .unlock _ => true
  | .destroyMutex _ | .freeMutex _ | .freeTask _ => false

structure OneWaiter.Inv (s : State T δ) : Prop where
  defined : s.misused = false ∧ s.crashed = false
  alive : s.life = .alive
  inTable : s.inTable = true
  status : s.status = .done ↔ s.worker.marked
  returned : s.worker ≠ .start → s.worker ≠ .running → s.code.isSome
  /-- the token is the worker's last word -/
  token : 0 < s.taskSem → s.worker = .gone
  keeps : ∀ t, (s.pc t).keeps
  one : ∀ t u, (s.pc t).blocks → (s.pc u).blocks → t = u
  released : s.worker = .gone → ∀ t, (s.pc t).blocks → 0 < s.taskSem
  holder : ∀ t, s.tableMutex = some t → (s.pc t).holds

namespace OneWaiter

variable {s s' : State T δ}

theorem init_inv : Inv (init T δ) where
  defined := ⟨rfl, rfl⟩
  alive := rfl
  inTable := rfl
  status := by simp [init, WorkerPc.marked]
  returned := fun h => absurd rfl h
  token := nofun
  keeps := fun _ => rfl
  one := nofun
  released := nofun
  holder := nofun

theorem Inv.signalled (h : Inv s) (hsem : 0 < s.taskSem) : s.code.isSome := by
  have hgone := h.token hsem
  apply h.returned <;> simp [hgone]

theorem Inv.marked (h : Inv s) (hdone : s.status = .done) : s.code.isSome := by
  have hmarked := h.status.1 hdone
  apply h.returned <;> intro hw <;> simp [hw, WorkerPc.marked] at hmarked

/-- A step of the worker, or of the task's code. -/
theorem Inv.worker (h : Inv s) {st : TskStatus} {res : CsWpTskRes δ} {m : Bool} {n : Nat} {w : WorkerPc}
    {code : Option (CsWpTskRes δ)} (hstatus : st = .done ↔ w.marked)
    (hreturned : w ≠ .start → w ≠ .running → code.isSome) (htoken : 0 < n → w = .gone)
    (hreleased : w = .gone → 0 < n) :
    Inv { s with status := st, tskRes := res, tskMutex := m, taskSem := n, worker := w, code := code } :=
  ⟨h.defined, h.alive, h.inTable, hstatus, hreturned, htoken, h.keeps, h.one, fun hw _ _ => hreleased hw,
    h.holder⟩

theorem worker_inv (h : Inv s) (hs : workerStep s = some s') : Inv s' := by
  have hreturned := h.returned
  have hnone : s.worker ≠ .gone → s.taskSem = 0 := by
    intro hw
    by_contra hsem
    exact hw (h.token (by omega))
  unfold workerStep at hs
  rw [State.touch_of_alive h.alive, State.touchMutex_of_alive h.alive] at hs
  cases hw : s.worker with
  | start =>
      rw [hw] at hs hnone
      cases hs
      apply h.worker
      · simpa [hw, WorkerPc.marked] using h.status
      · exact fun _ hr => absurd rfl hr
      · simp [hnone]
      · nofun
  | running | gone =>
      rw [hw] at hs
      cases hs
  | lock ex =>
      rw [hw] at hs hnone hreturned
      simp only at hs
      split at hs <;> cases hs
      apply h.worker
      · simpa [hw, WorkerPc.marked] using h.status
      · exact fun _ _ => hreturned nofun nofun
      · simp [hnone]
      · nofun
  | setStatus ex | setExitCode ex | unlock =>
      rw [hw] at hs hnone hreturned
      cases hs
      apply h.worker
      · simp [hw, WorkerPc.marked, h.status]
      · exact fun _ _ => hreturned nofun nofun
      · simp [hnone]
      · nofun
  | signal =>
      rw [hw] at hs hreturned
      cases hs
      apply h.worker
      · simp [hw, WorkerPc.marked, h.status]
      · exact fun _ _ => hreturned nofun nofun
      · exact fun _ => rfl
      · exact fun _ => Nat.succ_pos _

section Callers

variable [DecidableEq T]

/-- A step of the caller `t`. -/
theorem Inv.caller (h : Inv s) {t : T} {p : Pc δ} {n : Nat} {m : Option T} {r : List (CsWpTskRes δ)}
    (hkeeps : p.keeps)
    (hblocks : p.blocks → s.worker ≠ .gone ∧ ∀ u, u ≠ t → (s.pc u).blocks = false)
    (hsem : n = s.taskSem ∨ n + 1 = s.taskSem ∧ (s.pc t).blocks)
    (hmutex : ∀ u, m = some u → u = t ∧ p.holds ∨ u ≠ t ∧ s.tableMutex = some u) :
    Inv ({ s with taskSem := n, tableMutex := m, results := r }.setPc t p) where
  defined := h.defined
  alive := h.alive
  inTable := h.inTable
  status := h.status
  returned := h.returned
  token := fun hn => h.token (by
    have hn : 0 < n := hn
    omega)
  keeps := by
    intro u
    by_cases hu : u = t
    · subst hu
      simpa [State.setPc] using hkeeps
    · simpa [State.setPc, hu] using h.keeps u
  one := by
    intro u v hu hv
    by_cases hut : u = t <;> by_cases hvt : v = t
    · rw [hut, hvt]
    · subst hut
      simp [State.setPc, hvt] at hu hv
      simp [(hblocks hu).2 v hvt] at hv
    · subst hvt
      simp [State.setPc, hut] at hu hv
      simp [(hblocks hv).2 u hut] at hu
    · simp [State.setPc, hut, hvt] at hu hv
      exact h.one u v hu hv
  released := by
    intro hw u hu
    show 0 < n
    by_cases hut : u = t
    · subst hut
      simp [State.setPc] at hu
      exact absurd hw (hblocks hu).1
    · simp [State.setPc, hut] at hu
      have hpos := h.released hw u hu
      rcases hsem with hn | ⟨-, ht⟩
      · omega
      · exact absurd (h.one u t hu ht) hut
  holder := by
    intro u hu
    rcases hmutex u hu with ⟨rfl, hp⟩ | ⟨hut, hu⟩
    · simpa [State.setPc] using hp
    · simpa [State.setPc, hut] using h.holder u hu

/-- A step of `t` that leaves the semaphore and the table's mutex. -/
theorem Inv.move (h : Inv s) {t : T} {p : Pc δ} (hkeeps : p.keeps) (hholds : p.holds = (s.pc t).holds)
    (hblocks : p.blocks → s.worker ≠ .gone ∧ ∀ u, u ≠ t → (s.pc u).blocks = false) :
    Inv (s.setPc t p) := by
  apply h.caller (r := s.results) hkeeps hblocks (.inl rfl)
  intro u hu
  by_cases hut : u = t
  · subst hut
    exact .inl ⟨rfl, hholds.trans (h.holder u hu)⟩
  · exact .inr ⟨hut, hu⟩

theorem afterWait_keeps {op : Op} (hop : op ≠ .popRes) : (afterWait (δ := δ) op).keeps := by
  cases op with
  | popRes => exact absurd rfl hop
  | wait | getRes => rfl

theorem afterWait_holds (op : Op) : (afterWait (δ := δ) op).holds = false := by
  cases op <;> rfl

theorem afterWait_blocks (op : Op) : (afterWait (δ := δ) op).blocks = false := by
  cases op <;> rfl

/-- The steps of `cs_wp_tsk_wait`. -/
theorem wait_inv (h : Inv s) {t : T} (hok : OneWaiter s (.act t)) (hwaits : (s.pc t).waits)
    (hs : callerStep s t = some s') : Inv s' := by
  have hkeeps := h.keeps t
  unfold callerStep at hs
  rw [State.touch_of_alive h.alive] at hs
  cases hpc : s.pc t with
  | find op =>
      simp only [hpc] at hs hkeeps
      split at hs <;> cases hs
      rw [if_pos h.inTable]
      apply h.move
      · simpa [Pc.keeps] using hkeeps
      · simp [hpc, Pc.holds]
      · simp [Pc.blocks]
  | readStatus op =>
      have hop : op ≠ .popRes := by simpa [hpc, Pc.keeps] using hkeeps
      simp only [hpc] at hs
      cases hs
      by_cases hdone : s.status = .done
      · rw [if_pos hdone]
        apply h.move (afterWait_keeps hop)
        · rw [afterWait_holds, hpc]
          rfl
        · simp [afterWait_blocks]
      · rw [if_neg hdone]
        apply h.move
        · simpa [Pc.keeps] using hop
        · simp [hpc, Pc.holds]
        · intro _
          constructor
          · intro hgone
            exact hdone (h.status.2 (by simp [hgone, WorkerPc.marked]))
          · exact hok (by simp [hpc, Pc.found]) hdone
  | semWait op =>
      have hop : op ≠ .popRes := by simpa [hpc, Pc.keeps] using hkeeps
      simp only [hpc] at hs
      split at hs <;> cases hs
      apply h.caller (r := s.results) (afterWait_keeps hop)
      · simp [afterWait_blocks]
      · apply Or.inr
        constructor
        · omega
        · simp [hpc, Pc.blocks]
      · intro u hu
        apply Or.inr
        constructor
        · rintro rfl
          have := h.holder u hu
          simp [hpc, Pc.holds] at this
        · exact hu
  | _ => simp [hpc, Pc.waits] at hwaits

/-- The steps of `cs_wp_tsk_get_res` after the wait. -/
theorem get_inv (h : Inv s) {t : T} (hwaits : (s.pc t).waits = false) (hs : callerStep s t = some s') :
    Inv s' := by
  have hkeeps := h.keeps t
  unfold callerStep at hs
  rw [State.touch_of_alive h.alive] at hs
  cases hpc : s.pc t with
  | idle =>
      simp only [hpc] at hs
      cases hs
  | lookup pop =>
      rw [hpc, Pc.keeps, Bool.not_eq_true'] at hkeeps
      subst hkeeps
      simp only [hpc, h.inTable, if_true, Bool.not_false] at hs
      split at hs <;> cases hs
      have hin := h.inTable
      have hstep := h.caller (t := t) (p := .malloc false) (n := s.taskSem) (m := some t) (r := s.results) rfl
        nofun (.inl rfl) (fun u hu => .inl ⟨(Option.some.inj hu).symm, rfl⟩)
      rwa [show ({ s with tableMutex := some t, inTable := true } : State T δ) =
        { s with taskSem := s.taskSem, tableMutex := some t, results := s.results } by rw [← hin]]
  | malloc pop | copyExitCode pop =>
      simp only [hpc] at hs hkeeps
      cases hs
      apply h.move
      · simpa [Pc.keeps] using hkeeps
      · simp [hpc, Pc.holds]
      · simp [Pc.blocks]
  | copyData pop ex =>
      rw [hpc, Pc.keeps, Bool.not_eq_true'] at hkeeps
      subst hkeeps
      simp only [hpc] at hs
      cases hs
      apply h.move
      · simp [Pc.keeps]
      · simp [hpc, Pc.holds]
      · simp [Pc.blocks]
  | unlock r =>
      simp only [hpc] at hs
      cases hs
      apply h.caller (p := .idle) rfl nofun (.inl rfl)
      intro u hu
      cases hu
  | destroyMutex r | freeMutex r | freeTask r => simp [hpc, Pc.keeps] at hkeeps
  | find op | readStatus op | semWait op => simp [hpc, Pc.waits] at hwaits

theorem step_inv {l : Label T δ} (h : Inv s) (hok : OneWaiter s l) (hs : step s l = some s') : Inv s' := by
  have hrunning : s.worker = .running → s.taskSem = 0 := by
    intro hw
    by_contra hsem
    have := h.token (by omega)
    simp [hw] at this
  have hstatus := h.status
  have hdefined : ¬ (s.misused || s.crashed) := by simp [h.defined]
  unfold step at hs
  rw [if_neg hdefined] at hs
  cases l with
  | worker => exact worker_inv h hs
  | codeWrite d =>
      simp only [State.touch_of_alive h.alive] at hs
      split at hs <;> cases hs
      exact h.worker h.status h.returned h.token (by simp [*])
  | codeReturn ex =>
      simp only at hs
      split at hs <;> cases hs
      rename_i hw
      apply h.worker
      · simpa [hw, WorkerPc.marked] using hstatus
      · exact fun _ _ => rfl
      · simp [hrunning hw]
      · nofun
  | call t op =>
      simp only at hs
      split at hs <;> cases hs
      rename_i hpc
      have hop : op ≠ .popRes := hok
      apply h.move
      · simpa [Pc.keeps] using hop
      · simp [hpc, Pc.holds]
      · simp [Pc.blocks]
  | act t =>
      by_cases hwaits : (s.pc t).waits
      · exact wait_inv h hok hwaits hs
      · exact get_inv h (by simpa using hwaits) hs
  | interrupt t =>
      simp only [State.touch_of_alive h.alive] at hs
      split at hs <;> cases hs
      rename_i op hpc
      have hkeeps := h.keeps t
      rw [hpc] at hkeeps
      apply h.move (afterWait_keeps (by simpa [Pc.keeps] using hkeeps))
      · rw [afterWait_holds, hpc]
        rfl
      · simp [afterWait_blocks]
  | mallocFail t =>
      simp only at hs
      split at hs <;> cases hs
      rename_i pop hpc
      apply h.move
      · rfl
      · simp [hpc, Pc.holds]
      · nofun

theorem reachable_inv (h : Lts.ReachableIf (system T δ) OneWaiter s) : Inv s := by
  apply h.invariant (I := Inv)
  · rintro s rfl
    exact init_inv
  · intro s l t hi hok hs
    exact step_inv hi hok hs

/-- A wait ends when the task's code has returned. -/
theorem Inv.ends (h : Inv s) {l : Label T δ} (hok : OneWaiter s l) (hs : step s l = some s') {t : T}
    (hwaits : (s.pc t).waits) (hends : (s'.pc t).waits = false) : s.code.isSome := by
  have hmoves : s'.pc t ≠ s.pc t := by
    intro heq
    rw [heq, hwaits] at hends
    cases hends
  have hdefined : ¬ (s.misused || s.crashed) := by simp [h.defined]
  unfold step at hs
  rw [if_neg hdefined] at hs
  cases l with
  | worker => exact absurd (congrFun (workerStep_pc hs) t) hmoves
  | codeWrite d =>
      simp only at hs
      split at hs <;> cases hs
      exact absurd rfl hmoves
  | codeReturn ex =>
      simp only at hs
      split at hs <;> cases hs
      exact absurd rfl hmoves
  | call u op =>
      simp only at hs
      split at hs <;> cases hs
      rename_i hpc
      by_cases htu : t = u
      · subst htu
        simp [hpc, Pc.waits] at hwaits
      · exact absurd (s.setPc_of_ne htu _) hmoves
  | act u =>
      by_cases htu : t = u
      · subst htu
        unfold callerStep at hs
        rw [State.touch_of_alive h.alive] at hs
        cases hpc : s.pc t with
        | find op =>
            simp only [hpc] at hs
            split at hs <;> cases hs
            rw [if_pos h.inTable, s.setPc_self] at hends
            cases hends
        | readStatus op =>
            simp only [hpc] at hs
            cases hs
            by_cases hdone : s.status = .done
            · exact h.marked hdone
            · rw [if_neg hdone, s.setPc_self] at hends
              cases hends
        | semWait op =>
            simp only [hpc] at hs
            split at hs
            · exact h.signalled ‹_›
            · cases hs
        | _ => simp [hpc, Pc.waits] at hwaits
      · exact absurd (callerStep_pc hs htu) hmoves
  | interrupt u => exact hok
  | mallocFail u =>
      simp only at hs
      split at hs <;> cases hs
      rename_i hpc
      by_cases htu : t = u
      · subst htu
        simp [hpc, Pc.waits] at hwaits
      · exact absurd (s.setPc_of_ne htu _) hmoves

/-- How many steps a caller has to go until it unlocks the table. -/
def left : Pc δ → Nat
  | .malloc _ => 4
  | .copyExitCode _ => 3
  | .copyData .. => 2
  | _ => 1

theorem step_act (h : Inv s) (t : T) : step s (.act t) = callerStep s t := by
  have hdefined : ¬ (s.misused || s.crashed) := by simp [h.defined]
  rw [step, if_neg hdefined]

/-- Who has the table locked gets on with it. -/
theorem Inv.section_step (h : Inv s) {u : T} (hu : s.tableMutex = some u) :
    ∃ s', step s (.act u) = some s' ∧
      (s'.tableMutex = none ∨ s'.tableMutex = some u ∧ left (s'.pc u) < left (s.pc u)) := by
  have hholds := h.holder u hu
  have hkeeps := h.keeps u
  rw [step_act h, callerStep, State.touch_of_alive h.alive]
  cases hpc : s.pc u with
  | malloc pop | copyExitCode pop =>
      refine ⟨_, rfl, .inr ⟨hu, ?_⟩⟩
      rw [s.setPc_self]
      simp [left]
  | copyData pop ex =>
      rw [hpc, Pc.keeps, Bool.not_eq_true'] at hkeeps
      subst hkeeps
      refine ⟨_, rfl, .inr ⟨hu, ?_⟩⟩
      rw [s.setPc_self]
      simp [left]
  | unlock r => exact ⟨_, rfl, .inl rfl⟩
  | destroyMutex r | freeMutex r | freeTask r => simp [hpc, Pc.keeps] at hkeeps
  | _ => simp [hpc, Pc.holds] at hholds

/-- Who has the table locked unlocks it, by its own steps. -/
theorem Inv.section_ends (h : Inv s) {u : T} (hu : s.tableMutex = some u) :
    ∃ n s', Lts.exec step (List.replicate n (.act u)) s = some s' ∧ Inv s' ∧ s'.tableMutex = none ∧
      s'.worker = s.worker ∧ ∀ t, t ≠ u → s'.pc t = s.pc t := by
  induction hk : left (s.pc u) using Nat.strong_induction_on generalizing s with
  | _ k ih =>
      obtain ⟨s₁, hstep, hnext⟩ := h.section_step hu
      have hok : OneWaiter s (.act u) := by
        intro hfound
        have hholds := h.holder u hu
        cases hpc : s.pc u <;> simp [hpc, Pc.found, Pc.holds] at hfound hholds
      have hinv := step_inv h hok hstep
      have hcaller : callerStep s u = some s₁ := by rw [← step_act h, hstep]
      have hworker := callerStep_worker hcaller
      rcases hnext with hfree | ⟨hheld, hleft⟩
      · refine ⟨1, s₁, ?_, hinv, hfree, hworker, fun t ht => callerStep_pc hcaller ht⟩
        simp [Lts.exec, hstep]
      · obtain ⟨n, s', hexec, hinv', hfree, hw, hpcs⟩ := ih _ (hk ▸ hleft) hinv hheld rfl
        refine ⟨n + 1, s', ?_, hinv', hfree, hw.trans hworker, fun t ht => ?_⟩
        · rw [List.replicate_succ, Lts.exec, hstep]
          exact hexec
        · rw [hpcs t ht, callerStep_pc hcaller ht]

/-- Where the task is marked and signalled, a caller leaves the wait with its own steps, once it
has found the record. -/
theorem Inv.found_ends (h : Inv s) (hgone : s.worker = .gone) {t : T} (hfound : (s.pc t).found) :
    ∃ s', step s (.act t) = some s' ∧ (s'.pc t).waits = false := by
  have hdone : s.status = .done := h.status.2 (by simp [hgone, WorkerPc.marked])
  have hafter : ∀ op, (afterWait (δ := δ) op).waits = false := by
    intro op
    cases op <;> rfl
  rw [step_act h, callerStep, State.touch_of_alive h.alive]
  cases hpc : s.pc t with
  | readStatus op =>
      refine ⟨_, rfl, ?_⟩
      rw [if_pos hdone, s.setPc_self, hafter]
  | semWait op =>
      have htoken := h.released hgone t (by simp [hpc, Pc.blocks])
      simp only [if_pos htoken]
      refine ⟨_, rfl, ?_⟩
      rw [State.setPc_self, hafter]
  | _ => simp [hpc, Pc.found] at hfound

/-- Where the task is marked and signalled, a caller leaves the wait with its own steps, and
those of the caller that has the table locked. -/
theorem Inv.wait_ends (h : Inv s) (hgone : s.worker = .gone) {t : T} (hwaits : (s.pc t).waits) :
    ∃ ls s', (∀ l ∈ ls, l = .act t ∨ ∃ u, s.tableMutex = some u ∧ l = .act u) ∧
      Lts.exec step ls s = some s' ∧ (s'.pc t).waits = false := by
  by_cases hfound : (s.pc t).found
  · obtain ⟨s', hs, hends⟩ := h.found_ends hgone hfound
    refine ⟨[.act t], s', by simp, ?_, hends⟩
    rw [Lts.exec_singleton, hs]
  obtain ⟨op, hpc⟩ : ∃ op, s.pc t = .find op := by
    cases hpc : s.pc t <;> simp [hpc, Pc.waits, Pc.found] at hwaits hfound ⊢
  -- once the table is unlocked, the record is found
  have hunlocked : ∀ r : State T δ, Inv r → r.worker = .gone → r.pc t = .find op → r.tableMutex = none →
      ∃ s', Lts.exec step [.act t, .act t] r = some s' ∧ (s'.pc t).waits = false := by
    intro r hr hw hp hfree
    have hfind : step r (.act t) = some (r.setPc t (.readStatus op)) := by
      simp [step_act hr, callerStep, hp, hfree, hr.inTable]
    have hok : OneWaiter r (.act t) := by
      intro hf
      simp [hp, Pc.found] at hf
    obtain ⟨s', hs, hends⟩ := (step_inv hr hok hfind).found_ends hw (t := t) (by
      rw [r.setPc_self]
      rfl)
    refine ⟨s', ?_, hends⟩
    rw [Lts.exec, hfind, Option.bind_some, Lts.exec_singleton, hs]
  cases hmutex : s.tableMutex with
  | none =>
      obtain ⟨s', hs, hends⟩ := hunlocked s h hgone hpc hmutex
      exact ⟨_, s', by simp, hs, hends⟩
  | some u =>
      have hne : t ≠ u := by
        rintro rfl
        have := h.holder t hmutex
        simp [hpc, Pc.holds] at this
      obtain ⟨n, r, hr, hinv, hfree, hw, hpcs⟩ := h.section_ends hmutex
      obtain ⟨s', hs, hends⟩ := hunlocked r hinv (hw.trans hgone) ((hpcs t hne).trans hpc) hfree
      refine ⟨_, s', ?_, Lts.exec_append hr hs, hends⟩
      intro l hl
      rcases List.mem_append.1 hl with hl | hl
      · exact .inr ⟨u, rfl, List.eq_of_mem_replicate hl⟩
      · exact .inl (by simpa using hl)

end Callers

end OneWaiter

section Results

variable [DecidableEq T]

/-- **Waiters are released one at a time**: in every run in which nobody goes to the semaphore
where another is, a wait ends when the task's code has returned; and when the worker has marked
the task and signalled its end, nobody is at the semaphore without a token, and whoever waits
gets out of the wait. -/
theorem waiters_released (s : State T δ) (h : Lts.ReachableIf (system T δ) OneWaiter s) :
    (∀ l s' t, OneWaiter s l → step s l = some s' → (s.pc t).waits → (s'.pc t).waits = false →
      s.code.isSome) ∧
    (s.worker = .gone → ∀ t, (s.pc t).blocks → 0 < s.taskSem) ∧
    (s.worker = .gone → ∀ t, (s.pc t).waits →
      ∃ ls s', (∀ l ∈ ls, l = .act t ∨ ∃ u, s.tableMutex = some u ∧ l = .act u) ∧
        Lts.exec step ls s = some s' ∧ (s'.pc t).waits = false) := by
  have hinv := OneWaiter.reachable_inv h
  exact ⟨fun l s' t hok hs hwaits hends => hinv.ends hok hs hwaits hends, hinv.released,
    fun hgone t hwaits => hinv.wait_ends hgone hwaits⟩

instance [Fintype T] (s : State T δ) (l : Label T δ) : Decidable (OneWaiter s l) :=
  match l with
  | .call _ op => inferInstanceAs (Decidable (op ≠ .popRes))
  | .act t => inferInstanceAs
      (Decidable ((s.pc t).found → s.status ≠ .done → ∀ u, u ≠ t → (s.pc u).blocks = false))
  | .interrupt _ => inferInstanceAs (Decidable s.code.isSome)
  | .worker | .codeWrite _ | .codeReturn _ | .mallocFail _ => .isTrue trivial

/-- One thread is at the semaphore when the task ends; another asks for the result after the
status is set. -/
theorem waiters_released_two : ∃ s : State (Fin 2) Nat,
    Lts.ReachableIf (system (Fin 2) Nat) OneWaiter s ∧ s.worker = .gone ∧ (s.pc 0).blocks ∧
    (s.pc 1).waits ∧ 0 < s.taskSem ∧
    ∃ ls s', Lts.exec step ls s = some s' ∧ (s'.pc 0).waits = false := by
  obtain ⟨s, hs, hp⟩ := Lts.exec_of_any (f := Lts.guarded OneWaiter step) (s := init (Fin 2) Nat)
    (p := fun s => decide (s.worker = .gone ∧ (s.pc 0).blocks ∧ (s.pc 1).waits))
    (l := [.call 0 .wait, .act 0, .worker, .act 0, .codeWrite 7, .codeReturn .success, .worker, .worker,
      .worker, .call 1 .getRes, .worker, .worker]) (by decide +kernel)
  have hreach : Lts.ReachableIf (system (Fin 2) Nat) OneWaiter s := ⟨_, rfl, Lts.exec_guarded_run hs⟩
  obtain ⟨hgone, h0, h1⟩ := of_decide_eq_true hp
  obtain ⟨-, htoken, hends⟩ := waiters_released s hreach
  have hwaits : (s.pc 0).waits := by
    cases hpc : s.pc 0 <;> simp [hpc, Pc.blocks, Pc.waits] at h0 ⊢
  obtain ⟨ls, s', -, hexec, hend⟩ := hends hgone 0 hwaits
  exact ⟨s, hreach, hgone, h0, h1, htoken hgone 0 h0, ls, s', hexec, hend⟩

/-- Two threads test the status before it is set: the one token releases the first, and the
second is left at the semaphore. -/
theorem second_waiter_stranded : ∃ s : State (Fin 2) Nat,
    Lts.Reachable (system (Fin 2) Nat) s ∧ s.worker = .gone ∧ (s.pc 1).blocks ∧ s.taskSem = 0 := by
  obtain ⟨s, hs, hp⟩ := Lts.exec_of_any (f := step) (s := init (Fin 2) Nat)
    (p := fun s => decide (s.worker = .gone ∧ (s.pc 1).blocks ∧ s.taskSem = 0))
    (l := [.call 0 .wait, .act 0, .act 0, .call 1 .wait, .act 1, .act 1, .worker, .codeReturn .success,
      .worker, .worker, .worker, .worker, .worker, .act 0]) (by decide +kernel)
  exact ⟨s, Lts.exec_reachable rfl hs, of_decide_eq_true hp⟩

end Results

end ComplexSim.TaskRecord
