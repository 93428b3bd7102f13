import ComplexSim.Queue.Fifo

/-!
# The destruction of a queue (`cs_queue_destroy` in `src/cs_queue.c`)

After the semaphores and the mutex, the loop goes from the tail through the elements: it releases the data of
one, moves to the next and frees the one it has moved to, which it reads in its next turn. So it ends in the
second turn: at the end of the chain, or at an element that is not there any more.
-/

namespace ComplexSim.QueueMemory

variable {T β : Type*}

/-- What `cs_queue_destroy` has done so far. -/
structure Destroyed (β : Type*) where
  elems : Elems β
  /-- the arguments of `rel_func` -/
  released : List β
  /-- the elements freed -/
  freed : List Addr
  /-- an element was read, or freed, that is not allocated -/
  fault : Bool

/-- The loop from `current` on, for at most `fuel - 1` turns. -/
def destroyLoop : Nat → Destroyed β → Option Addr → Option (Destroyed β)
  | 0, _, _ => none
  | _ + 1, s, none => some s
  | fuel + 1, s, some current => match s.elems current with
      | none => some { s with fault := true }
      | some elem =>
          let s := { s with released := s.released ++ [elem.data] }
          match elem.next with
          -- `free(NULL)`
          | none => destroyLoop fuel s none
          | some next =>
              if (s.elems next).isSome then
                destroyLoop fuel
                  { s with elems := Function.update s.elems next none, freed := s.freed ++ [next] } (some next)
              else some { s with fault := true }

/-- `cs_queue_destroy`; a turn for each element would do. -/
def csQueueDestroy (q : Queue β) : Option (Destroyed β) :=
  destroyLoop (q.size.toNat + 1) { elems := q.elems, released := [], freed := [], fault := false } q.tail

/-- The data `xs` are released once each, the elements at `cells` are freed once each, and none is read later. -/
structure Clean (r : Destroyed β) (cells : List Addr) (xs : List β) : Prop where
  noFault : r.fault = false
  released : r.released.Perm xs
  freed : r.freed.Perm cells

section Chains

variable {q : Queue β} {cells : List Addr} {xs : List β}

theorem Holds.next_eq (h : Holds q cells xs) {a : Addr} (ha : a ∈ cells) :
    ∃ elem, q.elems a = some elem ∧ elem.next = q.elems.next a := by
  obtain ⟨elem, hfind, -⟩ := h.mem ha
  exact ⟨elem, hfind, by simp [Elems.next, hfind]⟩

/-- Nothing is left of an empty queue. -/
theorem destroy_empty (h : Holds q [] xs) :
    csQueueDestroy q = some { elems := q.elems, released := [], freed := [], fault := false } := by
  have htail : q.tail = none := h.backward
  rw [csQueueDestroy, htail]
  rfl

/-- The only element is released and stays. -/
theorem destroy_one {a : Addr} (h : Holds q [a] xs) :
    ∃ x, csQueueDestroy q = some { elems := q.elems, released := [x], freed := [], fault := false } := by
  obtain ⟨elem, hfind, hnext⟩ := h.next_eq (List.mem_singleton_self a)
  have hbackward := h.backward
  rw [List.reverse_singleton] at hbackward
  obtain ⟨htail, hend⟩ := hbackward
  have hend : q.elems.next a = none := hend
  have hsize : q.size.toNat = 1 := by
    rw [h.size]
    rfl
  refine ⟨elem.data, ?_⟩
  simp [csQueueDestroy, hsize, htail, destroyLoop, hfind, hnext, hend]

/-- Of two elements or more, the second newest is freed first and read then. -/
theorem destroy_more {a b : Addr} (ha : q.tail = some a) {more : List Addr} (h : Holds q cells xs)
    (hcells : cells.reverse = a :: b :: more) : ∃ r, csQueueDestroy q = some r ∧ r.fault = true := by
  have hmem : ∀ c, c ∈ a :: b :: more → c ∈ cells := fun c hc => List.mem_reverse.1 (hcells ▸ hc)
  have hbackward := h.backward
  rw [hcells] at hbackward
  obtain ⟨-, hnextb, -⟩ := hbackward
  obtain ⟨elem, hfind, hnext⟩ := h.next_eq (hmem a (by simp))
  obtain ⟨elem', hfind', -⟩ := h.next_eq (hmem b (by simp))
  obtain ⟨turns, hturns⟩ : ∃ turns, q.size.toNat = turns + 2 := by
    have hlength := congrArg List.length hcells
    rw [List.length_reverse, List.length_cons, List.length_cons] at hlength
    refine ⟨more.length, ?_⟩
    rw [h.size, hlength]
    rfl
  rw [csQueueDestroy, hturns, ha]
  simp [destroyLoop, hfind, hnext, hnextb, hfind']

end Chains

/-- **A queue is destroyed cleanly** exactly where it is empty: in every state of every run, a single element is
never freed, and of more elements one is read after it has been freed. -/
theorem destroy_clean_iff [DecidableEq T] (size : Nat) (s : State T β) (h : Lts.Reachable (system T β size) s) :
    ∃ cells rest r, Holds s.q cells rest ∧ csQueueDestroy s.q = some r ∧ (Clean r cells rest ↔ s.q.size = 0) := by
  obtain ⟨cells, rest, hlayout⟩ := reachable_layout h
  have hholds := hlayout.holds
  have hsize := hholds.size
  refine ⟨cells, rest, ?_⟩
  cases hcells : cells.reverse with
  | nil =>
      obtain rfl : cells = [] := List.reverse_eq_nil_iff.1 hcells
      obtain rfl : rest = [] := List.length_eq_zero_iff.1 hholds.length_eq
      exact ⟨_, hholds, destroy_empty hholds, iff_of_true ⟨rfl, .nil, .nil⟩ hsize⟩
  | cons a more =>
      have hne : s.q.size ≠ 0 := by
        have hlength := congrArg List.length hcells
        rw [List.length_reverse, List.length_cons] at hlength
        omega
      have htail : s.q.tail = some a := by
        have hbackward := hholds.backward
        rw [hcells] at hbackward
        exact hbackward.1
      cases more with
      | nil =>
          obtain rfl : cells = [a] := by
            rw [← List.reverse_reverse cells, hcells]
            rfl
          obtain ⟨x, hdestroy⟩ := destroy_one hholds
          refine ⟨_, hholds, hdestroy, iff_of_false (fun hclean => ?_) hne⟩
          have hlength := hclean.freed.length_eq
          cases hlength
      | cons b more =>
          obtain ⟨r, hdestroy, hfault⟩ := destroy_more htail hholds hcells
          refine ⟨r, hholds, hdestroy, iff_of_false (fun hclean => ?_) hne⟩
          rw [hclean.noFault] at hfault
          cases hfault

/-- A queue that has had an element. -/
theorem destroy_clean_iff_empty : ∃ s : State (Fin 1) Nat, Lts.Reachable (system (Fin 1) Nat 2) s ∧ s.removed = [7] ∧
    ∃ cells rest r, csQueueDestroy s.q = some r ∧ Clean r cells rest := by
  obtain ⟨s, hs, hp⟩ := Lts.exec_of_any (f := step) (s := start (Fin 1) Nat 2)
    (p := fun s => decide (s.q.size = 0 ∧ s.removed = [7]))
    (l := [.enqueueSem 0 7 true, .enqueue 0 3, .dequeueSem 0 true, .dequeue 0, .free 0])
    (by decide +kernel)
  obtain ⟨hsize, hremoved⟩ := of_decide_eq_true hp
  have hreach : Lts.Reachable (system (Fin 1) Nat 2) s := Lts.exec_reachable rfl hs
  obtain ⟨cells, rest, r, -, hdestroy, hiff⟩ := destroy_clean_iff 2 s hreach
  exact ⟨s, hreach, hremoved, cells, rest, r, hdestroy, hiff.2 hsize⟩

/-- One element: its data is released, and it is not freed. Two elements: the loop reads the one it has freed. -/
theorem destroy_unclean :
    (∃ s : State (Fin 1) Nat, Lts.Reachable (system (Fin 1) Nat 2) s ∧ s.q.size = 1 ∧
      (csQueueDestroy s.q).map (fun r => (r.released, r.freed, r.fault)) = some ([7], [], false)) ∧
    ∃ s : State (Fin 1) Nat, Lts.Reachable (system (Fin 1) Nat 2) s ∧ s.q.size = 2 ∧
      (csQueueDestroy s.q).map (fun r => (r.released, r.freed, r.fault)) = some ([8], [3], true) := by
  constructor
  · obtain ⟨s, hs, hp⟩ := Lts.exec_of_any (f := step) (s := start (Fin 1) Nat 2)
      (p := fun s => decide (s.q.size = 1 ∧
        (csQueueDestroy s.q).map (fun r => (r.released, r.freed, r.fault)) = some ([7], [], false)))
      (l := [.enqueueSem 0 7 true, .enqueue 0 3]) (by decide +kernel)
    exact ⟨s, Lts.exec_reachable rfl hs, of_decide_eq_true hp⟩
  · obtain ⟨s, hs, hp⟩ := Lts.exec_of_any (f := step) (s := start (Fin 1) Nat 2)
      (p := fun s => decide (s.q.size = 2 ∧
        (csQueueDestroy s.q).map (fun r => (r.released, r.freed, r.fault)) = some ([8], [3], true)))
      (l := [.enqueueSem 0 7 true, .enqueue 0 3, .enqueueSem 0 8 true, .enqueue 0 5]) (by decide +kernel)
    exact ⟨s, Lts.exec_reachable rfl hs, of_decide_eq_true hp⟩

end ComplexSim.QueueMemory
