import ComplexSim.Lib.Transition
import ComplexSim.Timer.Basic
import Mathlib.Data.Set.Finite.Basic
import Mathlib.Data.Finset.Card
import Mathlib.Data.Set.Card

/-!
# Changing `n_sync` while actors wait

Any number of actors call `cs_time_sync`, and `cs_set_nsync` is called at any moment with
any value from 1 on. The timer completes a round when `sync` reaches `n_sync` exactly. A new
`n_sync` above `sync` leaves room for the round; one at or below `sync` is never reached
again, and the clock stands still.
-/

namespace ComplexSim.Nsync

variable {A : Type*}

inductive Label (A : Type*) where
  /-- the actor calls `cs_time_sync` -/
  | call (a : A)
  /-- the actor, released by a broadcast, returns from it -/
  | leave (a : A)
  /-- `cs_set_nsync` -/
  | setNsync (nsync : Int)

variable [DecidableEq A]

def step (b : Barrier A) : Label A → Option (Barrier A)
  | .call a => if b.place a = .out then some (b.enter a).1 else none
  | .leave a => (b.leave a).map Prod.fst
  | .setNsync nsync => some { b with timer := csSetNsync b.timer nsync }

def init (A : Type*) (nsync : Int) : Barrier A where
  timer := csInitTimerWith nsync
  place := fun _ => .out

/-- The runs of a timer initialised with `n_sync`. -/
def system (A : Type*) [DecidableEq A] (nsync : Int) : Lts.System (Barrier A) (Label A) :=
  .ofFn (· = init A nsync) step

/-- `cs_set_nsync` gets a value from 1 on. -/
def Positive (_ : Barrier A) : Label A → Prop
  | .setNsync nsync => 1 ≤ nsync
  | _ => True

/-- `cs_set_nsync` gets a value above the number of actors that the round has already. -/
def LeavesRoom (b : Barrier A) : Label A → Prop
  | .setNsync nsync => b.timer.sync < nsync
  | _ => True

/-- Only calls of `cs_time_sync`. -/
def Syncing (_ : Barrier A) : Label A → Prop
  | .setNsync _ => False
  | _ => True

instance (b : Barrier A) (l : Label A) : Decidable (Positive b l) :=
  match l with
  | .setNsync nsync => inferInstanceAs (Decidable (1 ≤ nsync))
  | .call _ | .leave _ => .isTrue trivial

instance (b : Barrier A) (l : Label A) : Decidable (LeavesRoom b l) :=
  match l with
  | .setNsync nsync => inferInstanceAs (Decidable (b.timer.sync < nsync))
  | .call _ | .leave _ => .isTrue trivial

/-- There is room in the round. -/
structure Inv (b : Barrier A) : Prop where
  running : b.timer.stop = false
  nonneg : 0 ≤ b.timer.sync
  room : b.timer.sync < b.timer.nSync
  finite : {a | b.place a ≠ .out}.Finite

omit [DecidableEq A] in
theorem init_inv {nsync : Int} (h : 1 ≤ nsync) : Inv (init A nsync) where
  running := rfl
  nonneg := le_refl _
  room := by
    show 0 < nsync
    omega
  finite := by simp [init]

section Steps

variable {b b' : Barrier A} {a : A}

/-- How a call goes on where there is room: it completes the round, or waits as one more. -/
theorem enter_cases (h : Inv b) (a : A) :
    (b.timer.sync + 1 = b.timer.nSync ∧ b.enter a = (Barrier.broadcast { b with
      timer := { b.timer with clock := b.timer.clock + 1, sync := 0 } }, some 0)) ∨
    (b.timer.sync + 1 < b.timer.nSync ∧ b.enter a = ({
      timer := { b.timer with sync := b.timer.sync + 1 }
      place := Function.update b.place a .blocked }, none)) := by
  have hrun := h.running
  have hroom := h.room
  rcases henter : b.enter a with ⟨b', r⟩
  cases Barrier.Entered.of henter with
  | stopped hstop =>
      rw [hrun] at hstop
      cases hstop
  | overrun _ hfull => omega
  | last _ hlast => exact Or.inl ⟨hlast, rfl⟩
  | first _ hne hmore => exact Or.inr ⟨by omega, rfl⟩

theorem call_inv (h : Inv b) (a : A) : Inv (b.enter a).1 := by
  have hroom := h.room
  have hnonneg := h.nonneg
  rcases enter_cases h a with ⟨hlast, henter⟩ | ⟨hlt, henter⟩ <;> rw [henter]
  · refine ⟨h.running, le_refl _, ?_, h.finite.subset fun c hc => ?_⟩
    · show 0 < b.timer.nSync
      omega
    · intro hout
      exact hc (by simp [hout])
  · refine ⟨h.running, ?_, hlt, (h.finite.insert a).subset fun c hc => ?_⟩
    · show 0 ≤ b.timer.sync + 1
      omega
    · by_cases hca : c = a
      · exact Or.inl hca
      · exact Or.inr (by simpa [hca] using hc)

theorem leave_inv (h : Inv b) {r : Int} (hleave : b.leave a = some (b', r)) : Inv b' := by
  obtain ⟨-, -, rfl⟩ := Barrier.leave_cases hleave
  refine ⟨h.running, h.nonneg, h.room, h.finite.subset fun c hc => ?_⟩
  by_cases hca : c = a
  · subst hca
    simp at hc
  · simpa [hca] using hc

theorem step_inv {l : Label A} (h : Inv b) (hok : LeavesRoom b l) (hs : step b l = some b') : Inv b' := by
  cases l with
  | call a =>
      simp only [step] at hs
      split at hs <;> cases hs
      exact call_inv h a
  | leave a =>
      obtain ⟨⟨b'', r⟩, hleave, rfl⟩ := Option.map_eq_some_iff.1 hs
      exact leave_inv h hleave
  | setNsync nsync =>
      cases hs
      exact ⟨h.running, h.nonneg, hok, h.finite⟩

end Steps

/-- As many calls as the round still needs advance the clock. -/
theorem advance_of_calls {l : List A} {b : Barrier A} (h : Inv b) (hnodup : l.Nodup)
    (hout : ∀ a ∈ l, b.place a = .out) (hlength : (l.length : Int) = b.timer.nSync - b.timer.sync) :
    ∃ b', Lts.exec step (l.map .call) b = some b' ∧ b'.timer.clock = b.timer.clock + 1 := by
  induction l generalizing b with
  | nil =>
      have hroom := h.room
      simp at hlength
      omega
  | cons a l ih =>
      obtain ⟨ha, hl⟩ := List.nodup_cons.1 hnodup
      have hstep : step b (.call a) = some (b.enter a).1 := if_pos (hout a List.mem_cons_self)
      rw [List.length_cons] at hlength
      rcases enter_cases h a with ⟨hlast, henter⟩ | ⟨hlt, henter⟩
      · have hnil : l = [] := List.length_eq_zero_iff.1 (by omega)
        refine ⟨(b.enter a).1, ?_, by rw [henter]; rfl⟩
        rw [hnil, List.map_cons, Lts.exec, hstep]
        rfl
      · obtain ⟨b', hexec, hclock⟩ := ih (call_inv h a) hl
          (fun c hc => by
            have hca : c ≠ a := fun hca => ha (hca ▸ hc)
            rw [henter]
            simpa [hca] using hout c (List.mem_cons_of_mem a hc))
          (by
            rw [henter]
            show (l.length : Int) = b.timer.nSync - (b.timer.sync + 1)
            omega)
        refine ⟨b', ?_, ?_⟩
        · rw [List.map_cons, Lts.exec, hstep]
          exact hexec
        · rw [hclock, henter]

theorem reachable_inv {nsync : Int} (hn : 1 ≤ nsync) {b : Barrier A}
    (h : Lts.ReachableIf (system A nsync) LeavesRoom b) : Inv b := by
  apply h.invariant (I := Inv)
  · intro s hs
    rw [show s = init A nsync from hs]
    exact init_inv hn
  · intro s l t hi hok hs
    exact step_inv hi hok hs

/-- **A barrier whose `n_sync` always leaves room stays alive**: `sync` is between 0 and
`n_sync`, no call takes the branch for too many threads, and enough further calls advance
the clock. -/
theorem room_keeps_alive [Infinite A] (nsync : Int) (hn : 1 ≤ nsync) (b : Barrier A)
    (h : Lts.ReachableIf (system A nsync) LeavesRoom b) :
    0 ≤ b.timer.sync ∧ b.timer.sync < b.timer.nSync ∧ (csTimeSync b.timer).2 ≠ .overrun ∧
      ∃ (l : List A) (b' : Barrier A), Lts.exec step (l.map .call) b = some b' ∧
        b'.timer.clock = b.timer.clock + 1 := by
  have hinv := reachable_inv hn h
  have hroom := hinv.room
  refine ⟨hinv.nonneg, hroom, ?_, ?_⟩
  · have hne : b.timer.sync ≠ b.timer.nSync := by omega
    unfold csTimeSync
    split_ifs <;> nofun
  · -- the actors that are not in the barrier are infinitely many
    obtain ⟨s, hs, hcard⟩ := hinv.finite.infinite_compl.exists_subset_card_eq
      (b.timer.nSync - b.timer.sync).toNat
    obtain ⟨b', hexec, hclock⟩ := advance_of_calls (l := s.toList) hinv s.nodup_toList
      (fun a ha => by simpa using hs (Finset.mem_coe.2 (Finset.mem_toList.1 ha)))
      (by rw [Finset.length_toList, hcard]; omega)
    exact ⟨s.toList, b', hexec, hclock⟩

/-- Two actors wait for a third when `n_sync` goes from 3 to 4. -/
theorem room_keeps_alive_grown : ∃ b : Barrier Nat,
    Lts.ReachableIf (system Nat 3) LeavesRoom b ∧ b.timer.sync = 2 ∧ b.timer.nSync = 4 ∧
      ∃ (l : List Nat) (b' : Barrier Nat), Lts.exec step (l.map .call) b = some b' ∧
        b'.timer.clock = b.timer.clock + 1 := by
  obtain ⟨b, hb, hp⟩ := Lts.exec_of_any (f := Lts.guarded LeavesRoom step) (s := init Nat 3)
    (p := fun b => decide (b.timer.sync = 2 ∧ b.timer.nSync = 4))
    (l := [.call 0, .call 1, .setNsync 4]) (by decide +kernel)
  obtain ⟨hsync, hnsync⟩ := of_decide_eq_true hp
  have hreach : Lts.ReachableIf (system Nat 3) LeavesRoom b := ⟨_, rfl, Lts.exec_guarded_run hb⟩
  exact ⟨b, hreach, hsync, hnsync, (room_keeps_alive 3 (by decide) b hreach).2.2.2⟩

/-- Where `sync` has reached `n_sync`, calls of `cs_time_sync` change nothing. -/
theorem stuck {b b' : Barrier A} {l : Label A} (hrunning : b.timer.stop = false)
    (hfull : b.timer.sync = b.timer.nSync) (hok : Syncing b l) (hs : step b l = some b') :
    b'.timer = b.timer := by
  cases l with
  | call a =>
      simp only [step] at hs
      split at hs <;> cases hs
      simp [Barrier.enter, csTimeSync, hrunning, hfull]
  | leave a =>
      obtain ⟨⟨b'', r⟩, hleave, rfl⟩ := Option.map_eq_some_iff.1 hs
      exact Barrier.leave_timer hleave
  | setNsync nsync => exact hok.elim

/-- Two of three actors wait when `n_sync` is set to 2: the third is refused, and no call moves
the clock any more. -/
theorem nsync_at_sync : ∃ b : Barrier Nat, Lts.ReachableIf (system Nat 3) Positive b ∧
    ¬ b.timer.sync < b.timer.nSync ∧ (b.enter 2).2 = some (-1) ∧
      ∀ b', Lts.Run (system Nat 3) Syncing b b' → b'.timer.clock = 0 := by
  obtain ⟨b, hb, hp⟩ := Lts.exec_of_any (f := Lts.guarded Positive step) (s := init Nat 3)
    (p := fun b => decide (b.timer.sync = 2 ∧ b.timer.nSync = 2 ∧ b.timer.stop = false ∧
      b.timer.clock = 0 ∧ (b.enter 2).2 = some (-1)))
    (l := [.call 0, .call 1, .setNsync 2]) (by decide +kernel)
  obtain ⟨hsync, hnsync, hstop, hclock, henter⟩ := of_decide_eq_true hp
  refine ⟨b, ⟨_, rfl, Lts.exec_guarded_run hb⟩, by omega, henter, fun b' hrun => ?_⟩
  have hstays : b'.timer = b.timer := by
    apply hrun.invariant (I := fun c => c.timer = b.timer)
    · intro s l t hi hok hs
      exact (stuck (by rw [hi]; exact hstop) (by rw [hi]; omega) hok hs).trans hi
    · rfl
  rw [hstays]
  exact hclock

end ComplexSim.Nsync
