import ComplexSim.Lib.OrdTable
import ComplexSim.Lib.Transition
import ComplexSim.Workerpool.Basic
import Mathlib.Data.Fintype.Card

/-!
# The ids of tasks (`_cs_wp_new_tsk_id`)

The counter of ids is a static variable of one function: all pools share it, and no mutex guards
it. `++tsk_id` is two steps here, a read and a write. A thread that reads the counter between the
read and the write of another gives its task the id of the other's. Where this does not happen,
the ids of all pools are distinct, no assertion of `cs_wp_tsk_enqueue` fails, and a look-up by id
finds the task that got it.

The calls of `cs_wp_tsk_enqueue` only are modelled: `cs_queue_enqueue` returns whatever it returns
whenever it does, and pools are started and shut down at any time. A failed assertion is recorded
in `failed` and does not abort, so what follows it is executed. The ids are unbounded.
-/

namespace ComplexSim.TaskIds

open Workerpool (PoolStatus Assertion)

variable {P T : Type*}

/-- `_cs_wp_tsk`, at the address that `calloc` gave it. -/
structure Tsk where
  addr : Nat
  tskId : Int
  deriving DecidableEq, Repr

/-- Where a thread is in `cs_wp_tsk_enqueue`, called on the pool `p`. -/
inductive Pc (P : Type*) where
  | idle
  /-- the record is made -/
  | readId (p : P) (addr : Nat)
  /-- `_cs_wp_new_tsk_id` has read `v` -/
  | writeId (p : P) (addr : Nat) (v : Int)
  /-- lock of the table mutex -/
  | lockTable (p : P) (tsk : Tsk)
  /-- `cs_queue_enqueue` -/
  | queue (p : P) (tsk : Tsk)
  /-- the insertion into the table -/
  | insert (p : P) (tsk : Tsk)
  deriving DecidableEq

/-- What a thread has read of the counter and not written back. -/
def Pc.read : Pc P → Option Int
  | .writeId _ _ v => some v
  | _ => none

/-- The task of a thread, once it has its id. -/
def Pc.tsk : Pc P → Option Tsk
  | .lockTable _ tsk | .queue _ tsk | .insert _ tsk => some tsk
  | _ => none

/-- The pools, and the threads that call them. -/
structure State (P T : Type*) where
  /-- the static variable of `_cs_wp_new_tsk_id` -/
  tskId : Int
  /-- `calloc` has not given this address or a later one -/
  brk : Nat
  status : P → PoolStatus
  tskResTable : P → OrdTable Tsk.tskId
  tableMutex : P → Option T
  pc : T → Pc P
  /-- the tasks whose ids have been returned, with their pools -/
  accepted : List (P × Tsk)
  /-- the assertions that have failed -/
  failed : List Assertion

inductive Label (P T : Type*) where
  /-- `cs_wp_start` or `cs_wp_shutdown` sets the status of a pool -/
  | setStatus (p : P) (st : PoolStatus)
  /-- a call of `cs_wp_tsk_enqueue`, up to the record -/
  | call (t : T) (p : P)
  | readId (t : T)
  | writeId (t : T)
  | lockTable (t : T)
  /-- `cs_queue_enqueue` returns `r` -/
  | queue (t : T) (r : Int)
  | insert (t : T)

/-- Pools that are initialised, and threads that have not called them. -/
def init (P T : Type*) : State P T where
  tskId := 0
  brk := 0
  status := fun _ => .ready
  tskResTable := fun _ => .empty
  tableMutex := fun _ => none
  pc := fun _ => .idle
  accepted := []
  failed := []

variable [DecidableEq P] [DecidableEq T]

/-- Move the thread `t`. -/
def State.at (s : State P T) (t : T) (c : Pc P) : State P T := { s with pc := Function.update s.pc t c }

/-- An assertion of `cs_wp_tsk_enqueue`. -/
def check (a : Assertion) (ok : Bool) : List Assertion := if ok then [] else [a]

/-- The last section of `cs_wp_tsk_enqueue`, under the table mutex. -/
def insertTsk (s : State P T) (t : T) (p : P) (tsk : Tsk) : State P T :=
  let table := s.tskResTable p
  let table' := table.insert tsk
  { s with
    tskResTable := Function.update s.tskResTable p table'
    tableMutex := Function.update s.tableMutex p none
    accepted := s.accepted ++ [(p, tsk)]
    failed := s.failed ++ check .noDuplicate (table.find? tsk.tskId).isNone ++
      check .oneMore (table'.count = table.count + 1) ++
      check .isInserted (table'.find? tsk.tskId).isSome }.at t .idle

def step (s : State P T) : Label P T → Option (State P T)
  | .setStatus p st => some { s with status := Function.update s.status p st }
  | .call t p => match s.pc t with
      | .idle =>
          if s.status p = .working then some ({ s with brk := s.brk + 1 }.at t (.readId p s.brk))
          else some s
      | _ => none
  | .readId t => match s.pc t with
      | .readId p addr => some (s.at t (.writeId p addr s.tskId))
      | _ => none
  | .writeId t => match s.pc t with
      | .writeId p addr v =>
          some ({ s with tskId := v + 1 }.at t (.lockTable p { addr := addr, tskId := v + 1 }))
      | _ => none
  | .lockTable t => match s.pc t with
      | .lockTable p tsk =>
          if s.tableMutex p = none then
            some ({ s with tableMutex := Function.update s.tableMutex p (some t) }.at t (.queue p tsk))
          else none
      | _ => none
  | .queue t r => match s.pc t with
      | .queue p tsk =>
          if r < 0 then some ({ s with tableMutex := Function.update s.tableMutex p none }.at t .idle)
          else some (s.at t (.insert p tsk))
      | _ => none
  | .insert t => match s.pc t with
      | .insert p tsk => some (insertTsk s t p tsk)
      | _ => none

/-- The pools `P` and the threads `T`, from `cs_wp_init` on. -/
def system (P T : Type*) [DecidableEq P] [DecidableEq T] : Lts.System (State P T) (Label P T) :=
  .ofFn (· = init P T) step

/-- No thread reads the counter while another is between its read and its write. -/
def Apart (s : State P T) : Label P T → Prop
  | .readId _ => ∀ u, (s.pc u).read = none
  | _ => True

/-- What the ids are for. -/
structure Unique (s : State P T) : Prop where
  ids : s.accepted.Pairwise fun x y => x.2.tskId ≠ y.2.tskId
  asserts : s.failed = []
  found : ∀ x ∈ s.accepted, (s.tskResTable x.1).find? x.2.tskId = some x.2

/-- Who has a task that has an id. -/
inductive Owner (P T : Type*) where
  | thread (t : T)
  | table (p : P)

/-- The task `tsk` is with `o`. -/
def Has (s : State P T) (tsk : Tsk) : Owner P T → Prop
  | .thread t => (s.pc t).tsk = some tsk
  | .table p => tsk ∈ (s.tskResTable p).items

/-- No id is given twice: each is that of one task, which one thread or one table has. -/
structure Inv (s : State P T) : Prop where
  le : ∀ tsk o, Has s tsk o → tsk.tskId ≤ s.tskId
  distinct : ∀ tsk tsk' o o', Has s tsk o → Has s tsk' o' → tsk.tskId = tsk'.tskId → o = o' ∧ tsk = tsk'
  reading : ∀ t v, (s.pc t).read = some v → v = s.tskId ∧ ∀ u, u ≠ t → (s.pc u).read = none
  accepted : ∀ x ∈ s.accepted, Has s x.2 (.table x.1)
  ids : s.accepted.Pairwise fun x y => x.2.tskId ≠ y.2.tskId
  failed : s.failed = []

section Steps

variable {s s' : State P T} {t : T} {p : P} {tsk : Tsk}

omit [DecidableEq P] [DecidableEq T] in
theorem init_inv : Inv (init P T) := by
  have hnone : ∀ tsk o, ¬ Has (init P T) tsk o := by
    intro tsk o
    cases o <;> simp [Has, init, Pc.tsk]
  exact ⟨fun tsk o h => absurd h (hnone tsk o), fun tsk _ o _ h => absurd h (hnone tsk o), nofun, nofun,
    List.Pairwise.nil, rfl⟩

omit [DecidableEq P] [DecidableEq T] in
/-- A step that gives nobody a task, a table no other one, and no thread a value of the counter. -/
theorem Inv.less (h : Inv s) (hhas : ∀ tsk o, Has s' tsk o → Has s tsk o) (hid : s'.tskId = s.tskId)
    (hread : ∀ u, (s'.pc u).read = (s.pc u).read) (htable : s'.tskResTable = s.tskResTable)
    (hacc : s'.accepted = s.accepted) (hfail : s'.failed = s.failed) : Inv s' where
  le := fun tsk o ho => hid ▸ h.le tsk o (hhas tsk o ho)
  distinct := fun tsk tsk' o o' ho ho' => h.distinct tsk tsk' o o' (hhas tsk o ho) (hhas tsk' o' ho')
  reading := fun u v hu => by
    rw [hread] at hu
    obtain ⟨hv, hothers⟩ := h.reading u v hu
    exact ⟨hid ▸ hv, fun w hw => (hread w).trans (hothers w hw)⟩
  accepted := fun x hx => by
    have hold := h.accepted x (hacc ▸ hx)
    rwa [Has, htable]
  ids := hacc ▸ h.ids
  failed := hfail ▸ h.failed

omit [DecidableEq P] in
/-- A step of `t` to `c`, with at most the task that it has. -/
theorem Inv.goesOn (h : Inv s) {c : Pc P} (hpc : s'.pc = Function.update s.pc t c)
    (htsk : c.tsk = none ∨ c.tsk = (s.pc t).tsk) (hread : c.read = (s.pc t).read) (hid : s'.tskId = s.tskId)
    (htable : s'.tskResTable = s.tskResTable) (hacc : s'.accepted = s.accepted)
    (hfail : s'.failed = s.failed) : Inv s' := by
  refine h.less (fun tsk o ho => ?_) hid (fun u => ?_) htable hacc hfail
  · cases o with
    | thread u =>
        rw [Has, hpc] at ho
        by_cases hu : u = t
        · subst hu
          rw [Function.update_self] at ho
          rcases htsk with hnone | hsame
          · rw [hnone] at ho
            cases ho
          · rw [Has, ← hsame]
            exact ho
        · rwa [Function.update_of_ne hu] at ho
    | table q => rwa [Has, htable] at ho
  · rw [hpc]
    by_cases hu : u = t
    · subst hu
      rw [Function.update_self, hread]
    · rw [Function.update_of_ne hu]

omit [DecidableEq P] in
theorem readId_inv (h : Inv s) (hapart : ∀ u, (s.pc u).read = none) {addr : Nat}
    (hpc : s.pc t = .readId p addr) : Inv (s.at t (.writeId p addr s.tskId)) := by
  have hhas : ∀ tsk o, Has (s.at t (.writeId p addr s.tskId)) tsk o → Has s tsk o := by
    intro tsk o ho
    cases o with
    | thread u =>
        by_cases hu : u = t
        · subst hu
          simp [Has, State.at, Pc.tsk] at ho
        · simpa [Has, State.at, hu] using ho
    | table q => exact ho
  refine ⟨fun tsk o ho => h.le tsk o (hhas tsk o ho),
    fun tsk tsk' o o' ho ho' => h.distinct tsk tsk' o o' (hhas tsk o ho) (hhas tsk' o' ho'),
    fun u v hu => ?_, h.accepted, h.ids, h.failed⟩
  have hut : u = t := by
    by_contra hut
    have hnone := hapart u
    simp [State.at, hut, hnone] at hu
  subst hut
  refine ⟨by simpa [State.at, Pc.read, eq_comm] using hu, fun w hw => ?_⟩
  simpa [State.at, hw] using hapart w

omit [DecidableEq P] in
theorem writeId_inv (h : Inv s) {addr : Nat} {v : Int} (hpc : s.pc t = .writeId p addr v) :
    Inv ({ s with tskId := v + 1 }.at t (.lockTable p { addr := addr, tskId := v + 1 })) := by
  obtain ⟨rfl, hothers⟩ := h.reading t v (by rw [hpc]; rfl)
  -- every task is an old one, below the counter, or the new one of `t`
  have hhas : ∀ tsk o, Has ({ s with tskId := s.tskId + 1 }.at t
      (.lockTable p { addr := addr, tskId := s.tskId + 1 })) tsk o →
        Has s tsk o ∧ tsk.tskId ≤ s.tskId ∨ o = .thread t ∧ tsk = { addr := addr, tskId := s.tskId + 1 } := by
    intro tsk o ho
    cases o with
    | thread u =>
        by_cases hu : u = t
        · subst hu
          exact Or.inr ⟨rfl, by simpa [Has, State.at, Pc.tsk, eq_comm] using ho⟩
        · have hold : Has s tsk (.thread u) := by simpa [Has, State.at, hu] using ho
          exact Or.inl ⟨hold, h.le tsk _ hold⟩
    | table q => exact Or.inl ⟨ho, h.le tsk (.table q) ho⟩
  refine ⟨fun tsk o ho => ?_, fun tsk tsk' o o' ho ho' heq => ?_, fun u v hu => ?_, h.accepted, h.ids, h.failed⟩
  · show tsk.tskId ≤ s.tskId + 1
    rcases hhas tsk o ho with ⟨-, hle⟩ | ⟨-, rfl⟩
    · omega
    · exact le_refl _
  · rcases hhas tsk o ho with ⟨hold, hle⟩ | ⟨rfl, rfl⟩ <;> rcases hhas tsk' o' ho' with ⟨hold', hle'⟩ | ⟨rfl, rfl⟩
    · exact h.distinct tsk tsk' o o' hold hold' heq
    · have : tsk.tskId = s.tskId + 1 := heq
      omega
    · have : s.tskId + 1 = tsk'.tskId := heq
      omega
    · exact ⟨rfl, rfl⟩
  · by_cases hut : u = t
    · subst hut
      simp [State.at, Pc.read] at hu
    · have hnone := hothers u hut
      simp [State.at, hut, hnone] at hu

theorem insert_inv (h : Inv s) (hpc : s.pc t = .insert p tsk) : Inv (insertTsk s t p tsk) := by
  have hself : Has s tsk (.thread t) := by rw [Has, hpc]; rfl
  have hfree : (s.tskResTable p).find? tsk.tskId = none := by
    rw [OrdTable.find?_eq_none]
    intro tsk' hmem heq
    have howner := (h.distinct tsk' tsk (.table p) (.thread t) hmem hself heq).1
    cases howner
  have hhas : ∀ tsk' o, Has (insertTsk s t p tsk) tsk' o →
      o ≠ .thread t ∧ Has s tsk' o ∨ o = .table p ∧ tsk' = tsk := by
    intro tsk' o ho
    cases o with
    | thread u =>
        by_cases hu : u = t
        · subst hu
          simp [Has, insertTsk, State.at, Pc.tsk] at ho
        · exact Or.inl ⟨by simpa using hu, by simpa [Has, insertTsk, State.at, hu] using ho⟩
    | table q =>
        by_cases hq : q = p
        · subst hq
          have hmem : tsk' ∈ ((s.tskResTable q).insert tsk).items := by
            simpa [Has, insertTsk, State.at] using ho
          rcases (OrdTable.mem_insert hfree).1 hmem with rfl | hold
          · exact Or.inr ⟨rfl, rfl⟩
          · exact Or.inl ⟨nofun, hold⟩
        · exact Or.inl ⟨nofun, by simpa [Has, insertTsk, State.at, hq] using ho⟩
  have htable : ∀ tsk' q, Has s tsk' (.table q) → Has (insertTsk s t p tsk) tsk' (.table q) := by
    intro tsk' q hold
    by_cases hq : q = p
    · subst hq
      have hmem : tsk' ∈ ((s.tskResTable q).insert tsk).items := (OrdTable.mem_insert hfree).2 (Or.inr hold)
      simpa [Has, insertTsk, State.at] using hmem
    · simpa [Has, insertTsk, State.at, hq] using hold
  refine ⟨fun tsk' o ho => ?_, fun tsk₁ tsk₂ o₁ o₂ ho₁ ho₂ heq => ?_, fun u v hu => ?_, fun x hx => ?_, ?_, ?_⟩
  · rcases hhas tsk' o ho with ⟨-, hold⟩ | ⟨-, rfl⟩
    · exact h.le tsk' o hold
    · exact h.le tsk' _ hself
  · rcases hhas tsk₁ o₁ ho₁ with ⟨hne₁, hold₁⟩ | ⟨rfl, rfl⟩ <;>
      rcases hhas tsk₂ o₂ ho₂ with ⟨hne₂, hold₂⟩ | ⟨rfl, rfl⟩
    · exact h.distinct tsk₁ tsk₂ o₁ o₂ hold₁ hold₂ heq
    · exact absurd (h.distinct _ _ _ _ hold₁ hself heq).1 hne₁
    · exact absurd (h.distinct _ _ _ _ hold₂ hself heq.symm).1 hne₂
    · exact ⟨rfl, rfl⟩
  · by_cases hut : u = t
    · subst hut
      simp [insertTsk, State.at, Pc.read] at hu
    · obtain ⟨hv, hothers⟩ := h.reading u v (by simpa [insertTsk, State.at, hut] using hu)
      refine ⟨hv, fun w hw => ?_⟩
      by_cases hwt : w = t
      · subst hwt
        simp [insertTsk, State.at, Pc.read]
      · simpa [insertTsk, State.at, hwt] using hothers w hw
  · rcases List.mem_append.1 hx with hx | hx
    · exact htable x.2 x.1 (h.accepted x hx)
    · obtain rfl := List.mem_singleton.1 hx
      have hmem : tsk ∈ ((s.tskResTable p).insert tsk).items := (OrdTable.mem_insert hfree).2 (Or.inl rfl)
      simpa [Has, insertTsk, State.at] using hmem
  · refine List.pairwise_append.2 ⟨h.ids, List.pairwise_singleton _ _, fun x hx y hy heq => ?_⟩
    obtain rfl := List.mem_singleton.1 hy
    have howner := (h.distinct x.2 tsk _ _ (h.accepted x hx) hself heq).1
    cases howner
  · -- the three assertions
    show s.failed ++ _ ++ _ ++ _ = []
    rw [h.failed, hfree, OrdTable.find?_insert_self hfree, OrdTable.count_insert hfree]
    simp [check]

theorem step_inv {l : Label P T} (h : Inv s) (hok : Apart s l) (hs : step s l = some s') : Inv s' := by
  cases l with
  | setStatus p st =>
      cases hs
      exact h.less (fun _ _ ho => ho) rfl (fun _ => rfl) rfl rfl rfl
  | call t p =>
      simp only [step] at hs
      split at hs
      · split at hs <;> cases hs
        · exact h.goesOn (t := t) (c := .readId p s.brk) rfl (Or.inl rfl) (by rw [‹s.pc t = _›]; rfl) rfl rfl rfl rfl
        · exact h
      · cases hs
  | readId t =>
      simp only [step] at hs
      split at hs <;> cases hs
      exact readId_inv h hok ‹_›
  | writeId t =>
      simp only [step] at hs
      split at hs <;> cases hs
      exact writeId_inv h ‹_›
  | lockTable t =>
      simp only [step] at hs
      split at hs
      · rename_i p tsk hpc
        split at hs <;> cases hs
        exact h.goesOn (t := t) (c := .queue p tsk) rfl (Or.inr (by rw [hpc]; rfl)) (by rw [hpc]; rfl) rfl rfl rfl rfl
      · cases hs
  | queue t r =>
      simp only [step] at hs
      split at hs
      · rename_i p tsk hpc
        split at hs <;> cases hs
        · exact h.goesOn (t := t) (c := .idle) rfl (Or.inl rfl) (by rw [hpc]; rfl) rfl rfl rfl rfl
        · exact h.goesOn (t := t) (c := .insert p tsk) rfl (Or.inr (by rw [hpc]; rfl)) (by rw [hpc]; rfl) rfl rfl rfl
            rfl
      · cases hs
  | insert t =>
      simp only [step] at hs
      split at hs <;> cases hs
      exact insert_inv h ‹_›

theorem apart_inv (h : Lts.ReachableIf (system P T) Apart s) : Inv s := by
  apply h.invariant (I := Inv)
  · intro s hs
    rw [show s = init P T from hs]
    exact init_inv
  · intro s l s' hi hok hs
    exact step_inv hi hok hs

omit [DecidableEq P] [DecidableEq T] in
theorem Inv.unique (h : Inv s) : Unique s where
  ids := h.ids
  asserts := h.failed
  found := fun x hx => OrdTable.find?_eq_some.2 ⟨h.accepted x hx, rfl⟩

/-- A thread that reads the counter between the read and the write of another gets its id. -/
theorem overlap_repeats (h : Inv s) (hs : step s (.readId t) = some s') (hno : ¬ Apart s (.readId t)) :
    ∃ u ≠ t, ∃ s'' tsk tsk', Lts.exec step [.writeId u, .writeId t] s' = some s'' ∧
      (s''.pc u).tsk = some tsk ∧ (s''.pc t).tsk = some tsk' ∧ tsk.tskId = tsk'.tskId := by
  obtain ⟨u, hu⟩ := not_forall.1 hno
  simp only [step] at hs
  split at hs <;> cases hs
  rename_i p addr hpc
  cases hpcu : s.pc u with
  | writeId q addr' v =>
      obtain ⟨rfl, -⟩ := h.reading u v (by rw [hpcu]; rfl)
      have hut : u ≠ t := by
        rintro rfl
        rw [hpc] at hpcu
        cases hpcu
      let s₁ := s.at t (.writeId p addr s.tskId)
      let s₂ := { s₁ with tskId := s.tskId + 1 }.at u (.lockTable q ⟨addr', s.tskId + 1⟩)
      have hu₁ : step s₁ (.writeId u) = some s₂ := by simp [step, s₁, s₂, State.at, hpcu, hut]
      let s₃ := { s₂ with tskId := s.tskId + 1 }.at t (.lockTable p ⟨addr, s.tskId + 1⟩)
      have ht₂ : step s₂ (.writeId t) = some s₃ := by simp [step, s₁, s₂, s₃, State.at, Ne.symm hut]
      refine ⟨u, hut, s₃, ⟨addr', s.tskId + 1⟩, ⟨addr, s.tskId + 1⟩, ?_, ?_, ?_, rfl⟩
      · simp [Lts.exec, s₁, hu₁, ht₂]
      · simp [s₂, s₃, State.at, hut, Pc.tsk]
      · simp [s₃, State.at, Pc.tsk]
  | idle | readId _ _ | lockTable _ _ | queue _ _ | insert _ _ => exact absurd (by rw [hpcu]; rfl) hu

end Steps

/-- **The ids are unique**, in every run in which no thread reads the counter between the read and the
write of another; and any other read gives two tasks one id. -/
theorem ids_unique :
    (∀ s : State P T, Lts.ReachableIf (system P T) Apart s → Unique s) ∧
      ∀ (s s' : State P T) (t : T), Lts.ReachableIf (system P T) Apart s → step s (.readId t) = some s' →
        ¬ Apart s (.readId t) → ∃ u ≠ t, ∃ s'' tsk tsk', Lts.exec step [.writeId u, .writeId t] s' = some s'' ∧
          (s''.pc u).tsk = some tsk ∧ (s''.pc t).tsk = some tsk' ∧ tsk.tskId = tsk'.tskId :=
  ⟨fun _ h => (apart_inv h).unique, fun _ _ _ h hs hno => overlap_repeats (apart_inv h) hs hno⟩

instance [Fintype T] (s : State P T) (l : Label P T) : Decidable (Apart s l) :=
  match l with
  | .readId _ => inferInstanceAs (Decidable (∀ u, (s.pc u).read = none))
  | .setStatus _ _ | .call _ _ | .writeId _ | .lockTable _ | .queue _ _ | .insert _ => .isTrue trivial

/-- Two threads enqueue in one pool, one draws its id after the other. -/
theorem ids_unique_two : ∃ s : State (Fin 1) (Fin 2), Lts.ReachableIf (system (Fin 1) (Fin 2)) Apart s ∧
    s.accepted.map (·.2.tskId) = [2, 1] ∧ Unique s := by
  obtain ⟨s, hs, hp⟩ := Lts.exec_of_any (f := Lts.guarded Apart step) (s := init (Fin 1) (Fin 2))
    (p := fun s => decide (s.accepted.map (·.2.tskId) = [2, 1]))
    (l := [.setStatus 0 .working, .call 0 0, .call 1 0, .readId 0, .writeId 0, .readId 1, .writeId 1, .lockTable 1,
      .queue 1 0, .insert 1, .lockTable 0, .queue 0 0, .insert 0]) (by decide +kernel)
  have hreach : Lts.ReachableIf (system (Fin 1) (Fin 2)) Apart s := ⟨_, rfl, Lts.exec_guarded_run hs⟩
  exact ⟨s, hreach, of_decide_eq_true hp, ids_unique.1 s hreach⟩

/-- Two threads read the counter before either writes it: both tasks have the id 1, the assertions
fail, and a look-up of 1 finds the task of the first for the second. -/
theorem ids_repeat : ∃ s : State (Fin 1) (Fin 2), Lts.Reachable (system (Fin 1) (Fin 2)) s ∧
    s.accepted = [(0, ⟨0, 1⟩), (0, ⟨1, 1⟩)] ∧ s.failed = [.noDuplicate, .oneMore] ∧
    (s.tskResTable 0).find? 1 = some ⟨0, 1⟩ ∧ ¬ Unique s := by
  obtain ⟨s, hs, hp⟩ := Lts.exec_of_any (f := step) (s := init (Fin 1) (Fin 2))
    (p := fun s => decide (s.accepted = [(0, ⟨0, 1⟩), (0, ⟨1, 1⟩)] ∧ s.failed = [.noDuplicate, .oneMore] ∧
      (s.tskResTable 0).find? 1 = some ⟨0, 1⟩))
    (l := [.setStatus 0 .working, .call 0 0, .call 1 0, .readId 0, .readId 1, .writeId 0, .writeId 1, .lockTable 0,
      .queue 0 0, .insert 0, .lockTable 1, .queue 1 0, .insert 1]) (by decide +kernel)
  obtain ⟨hacc, hfailed, hfind⟩ := of_decide_eq_true hp
  refine ⟨s, Lts.exec_reachable rfl hs, hacc, hfailed, hfind, fun hunique => ?_⟩
  have hasserts := hunique.asserts
  rw [hfailed] at hasserts
  cases hasserts

end ComplexSim.TaskIds
