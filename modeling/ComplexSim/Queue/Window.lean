import ComplexSim.Queue.Fifo

/-!
# The assertion of a dequeue (`cs_queue_dequeue` in `src/cs_queue.c`)

The section compares the size with the value of `qsem`, from which each dequeuer takes its token before it
enters. The two agree for the thread in the section if no other thread has a token: between the wait and
the section, another dequeuer has lowered the one and not yet the other.
-/

namespace ComplexSim.QueueMemory

variable {T β : Type*}

/-- `assert(q->size == assctl || q->status == QCLOSED)`, where the section has removed an element. -/
def assertHolds (q : Queue β) : Bool :=
  match csQueueDequeue q with
  | .elem _ _ q' => decide (q'.size = q'.qsem ∨ q'.status = .closed)
  | .null | .fault => false

/-- The thread is between the wait on `qsem` and its section. -/
def InWindow (p : Pc β) : Prop := ∃ blocking, p = .dequeuing blocking

theorem tokens_eq_zero_iff (p : Pc β) : p.tokens = 0 ↔ ¬ InWindow p := by
  unfold InWindow
  cases p <;> simp [Pc.tokens]

instance (p : Pc β) : Decidable (InWindow p) :=
  decidable_of_iff (¬ p.tokens = 0) (by rw [tokens_eq_zero_iff, not_not])

/-- Only threads that are not idle have tokens. -/
theorem tokens_idle {pc : T → Pc β} : ∀ u ∉ {t | pc t ≠ .idle}, Pc.tokens (pc u) = 0 := by
  intro u hu
  have hidle : pc u = .idle := not_not.1 hu
  rw [hidle]
  rfl

/-- The size of an open queue is the value of its semaphore, and the tokens that the threads have. -/
theorem Layout.assertHolds_iff [DecidableEq T] {size : Nat} {s : State T β} {cells : List Addr} {rest : List β}
    (h : Layout size s cells rest) {t : T} {blocking : Bool} (hpc : s.pc t = .dequeuing blocking)
    (hopen : s.q.status = .opened) :
    assertHolds s.q = true ↔ crowd Pc.tokens s.pc = 1 := by
  have htokens := h.tokens hopen
  obtain ⟨a, front, rfl⟩ := List.exists_cons_of_ne_nil (h.nonempty hpc hopen)
  obtain ⟨x, rest', q', rfl, hdequeue, -, habs, -⟩ := h.holds.dequeue
  simp only [Queue.abs, CsQueue.mk.injEq] at habs
  obtain ⟨hsize', hstatus', -, hqsem', -⟩ := habs
  have hsize := h.holds.size
  rw [List.length_cons] at hsize htokens
  have hstatus : q'.status ≠ .closed := by
    rw [hstatus', hopen]
    simp
  simp only [assertHolds, hdequeue, decide_eq_true_eq, hstatus, or_false]
  rw [hsize', hqsem', hsize]
  omega

/-- **The assertion of a dequeue holds** exactly where no other dequeuer is in its window: in every state of
every run, for a thread that is about to execute its section on an open queue. -/
theorem dequeue_assertion_iff [DecidableEq T] (size : Nat) (s : State T β)
    (h : Lts.Reachable (system T β size) s) (t : T) (ht : InWindow (s.pc t)) (hopen : s.q.status = .opened) :
    assertHolds s.q = true ↔ ∀ u, u ≠ t → ¬ InWindow (s.pc u) := by
  obtain ⟨cells, rest, hlayout⟩ := reachable_layout h
  obtain ⟨blocking, hpc⟩ := ht
  have hself : Pc.tokens (s.pc t) = 1 := by
    rw [hpc]
    rfl
  rw [hlayout.assertHolds_iff hpc hopen, ← hself, crowd_eq_self_iff hlayout.finite tokens_idle t]
  exact forall₂_congr fun u _ => tokens_eq_zero_iff (s.pc u)

/-- A dequeuer alone in its window, on a queue of two elements. -/
theorem dequeue_assertion_iff_one : ∃ s : State (Fin 3) Nat, Lts.Reachable (system (Fin 3) Nat 2) s ∧
    s.q.size = 2 ∧ assertHolds s.q = true := by
  obtain ⟨s, hs, hp⟩ := Lts.exec_of_any (f := step) (s := start (Fin 3) Nat 2)
    (p := fun s => decide (s.q.size = 2 ∧ InWindow (s.pc 2) ∧ s.q.status = .opened ∧
      ∀ u, u ≠ 2 → ¬ InWindow (s.pc u)))
    (l := [.enqueueSem 0 7 true, .enqueueSem 1 8 false, .enqueue 0 3, .enqueue 1 5, .dequeueSem 2 true])
    (by decide +kernel)
  obtain ⟨hsize, hwindow, hopen, halone⟩ := of_decide_eq_true hp
  have hreach : Lts.Reachable (system (Fin 3) Nat 2) s := Lts.exec_reachable rfl hs
  exact ⟨s, hreach, hsize, (dequeue_assertion_iff 2 s hreach 2 hwindow hopen).2 halone⟩

/-- Two dequeuers in their windows, on a queue of two elements: the first to enter its section finds one element
left and no token. -/
theorem dequeue_assertion_fails : ∃ s : State (Fin 3) Nat, Lts.Reachable (system (Fin 3) Nat 2) s ∧
    s.q.status = .opened ∧ InWindow (s.pc 1) ∧ InWindow (s.pc 2) ∧ assertHolds s.q = false := by
  obtain ⟨s, hs, hp⟩ := Lts.exec_of_any (f := step) (s := start (Fin 3) Nat 2)
    (p := fun s => decide (s.q.status = .opened ∧ InWindow (s.pc 1) ∧ InWindow (s.pc 2) ∧ assertHolds s.q = false))
    (l := [.enqueueSem 0 7 true, .enqueue 0 3, .enqueueSem 0 8 true, .enqueue 0 5, .dequeueSem 1 true,
      .dequeueSem 2 true])
    (by decide +kernel)
  exact ⟨s, Lts.exec_reachable rfl hs, of_decide_eq_true hp⟩

end ComplexSim.QueueMemory
