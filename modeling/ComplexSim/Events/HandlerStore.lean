import ComplexSim.Events.Handlers
import ComplexSim.Rb.Runs

/-!
# The handler table in memory (`src/cs_events.c` over `avl-2.0/src/rb.c`)

The handler entries are on a heap, and the nodes of `eh_tree`, which points to them, in the memory of the table.
Operations come one after the other, each under the lock of the table; allocations succeed. `none` is undefined
behaviour, or an assertion that fails.

A second installation of a type asks `rb_replace` for the code of the handler, which `cmp_handler_func` takes for an
entry: it follows the bytes of the code where an entry has its type. `reads` tells what that comes to. Where it
comes to nothing, as with real code, the installation has no result; otherwise lookups and installations do what
they do to the handler table (`handlers_in_memory`). `destroy_handler_entry` frees what the items point to, and code is
nothing to free (`handlers_destroyed_once`).
-/

namespace ComplexSim.HandlerStore

open RedBlack
open Events (CsEventHandlerEntry EhItem EhTree)
open Rb (RbCompare RbTable RbPtr RbLabel CompareBy Models rbCreate rbFind rbInsert rbReplace rbDestroy)

abbrev Addr := Nat

variable {η : Type}

/-- A pointer that `eh_tree` has or is asked for. Nothing writes to an entry, so that a pointer to one is kept with what
it holds. -/
inductive EhPtr (η : Type) where
  | entry (a : Addr) (e : CsEventHandlerEntry η)
  /-- the code of a handler -/
  | code (h : η)
  /-- the record `search` on the stack, whose handler is not set -/
  | search (etype : String)
  deriving DecidableEq

namespace EhPtr

def addr : EhPtr η → Option Addr
  | .entry a _ => some a
  | .code _ | .search _ => none

variable (reads : η → Option (CsEventHandlerEntry η))

/-- `etype` of what is pointed to; `reads` is what the code of a handler reads as, or `none` where its bytes lead to
no string. -/
def etype : EhPtr η → Option String
  | .entry _ e => some e.etype
  | .code h => (reads h).map CsEventHandlerEntry.etype
  | .search etype => some etype

def handler : EhPtr η → Option η
  | .entry _ e => some e.handler
  | .code h => (reads h).map CsEventHandlerEntry.handler
  | .search _ => none

/-- The type that orders the items. -/
def key (p : EhPtr η) : String := (p.etype reads).getD ""

end EhPtr

/-- An event manager, as far as handlers are concerned. -/
structure State (η : Type) where
  entries : Heap (CsEventHandlerEntry η)
  ehTree : RbTable (EhPtr η)

inductive Op (η : Type) where
  | install (etype : Option String) (handler : η)
  | getHandler (etype : String)
  /-- an event of the type is thrown; an event has a type where it is scheduled -/
  | throwEvent (etype : String)

inductive Answer (η : Type) where
  | ret (r : Int)
  | handler (h : Option η)
  | called (h : η)
  /-- `CS_EH_NO_HANDLER` -/
  | noHandler
  deriving DecidableEq

def strcmp (s1 s2 : String) : Int := if s1 < s2 then -1 else if s1 = s2 then 0 else 1

variable (reads : η → Option (CsEventHandlerEntry η))

/-- `cmp_handler_func`. -/
def cmpHandlerFunc (eh1 eh2 : EhPtr η) : Option Int := do
  some (strcmp (← eh1.etype reads) (← eh2.etype reads))

/-- `cmp_handler_func`, where it returns (`cmpHandlerFunc_eq`). -/
def compare : RbCompare (EhPtr η) := fun eh1 eh2 => strcmp (eh1.key reads) (eh2.key reads)

/-- The comparisons of a walk from `p` for `item`, in `rb_find` or `rb_probe`: each of them returns. -/
def comparesFrom (s : RbTable (EhPtr η)) (item : EhPtr η) : Nat → RbPtr → Option Unit
  | _, .null => some ()
  | 0, _ => none
  | fuel + 1, p => do
      let c ← cmpHandlerFunc reads item (← s.data p)
      if c < 0 then comparesFrom s item fuel (← s.link p false)
      else if c > 0 then comparesFrom s item fuel (← s.link p true)
      else some ()

/-- The comparisons that a call of `rb_find`, `rb_insert` or `rb_replace` makes. -/
def compares (s : RbTable (EhPtr η)) (item : EhPtr η) : Option Unit := comparesFrom reads s item s.nodes.brk s.rbRoot

/-- The part of `cs_init_event_manager` that makes the handler table. -/
def csInitEventManager (η : Type) : Option (State η) :=
  (rbCreate (EhPtr η) true).map fun ehTree => { entries := .empty _, ehTree := ehTree }

/-- `cs_evm_get_handler`; the inner `none` is the null pointer. -/
def csEvmGetHandler (s : State η) (etype : String) : Option (Option η) := do
  compares reads s.ehTree (.search etype)
  match ← rbFind (compare reads) s.ehTree (.search etype) with
  | none => some none
  | some ret => (ret.handler reads).map some

/-- `cs_evm_throw_event`. -/
def csEvmThrowEvent (s : State η) (etype : String) : Option (Answer η) := do
  match ← csEvmGetHandler reads s etype with
  | none => some .noHandler
  | some h => some (.called h)

/-- `cs_evm_install_handler`. -/
def csEvmInstallHandler [DecidableEq η] (s : State η) (etype : Option String) (handler : η) :
    Option (State η × Int) :=
  match etype with
  | none => some (s, -1)
  | some etype =>
      if etype = "" then some (s, -1)
      else do
        let e : CsEventHandlerEntry η := { handler := handler, etype := etype }
        let (h, newEntry) := s.entries.alloc e
        compares reads s.ehTree (.search etype)
        match ← rbFind (compare reads) s.ehTree (.search etype) with
        | some _ => do
            compares reads s.ehTree (.code handler)
            let (ehTree, _) ← rbReplace (compare reads) true s.ehTree (.code handler)
            some ({ entries := h, ehTree := ehTree }, 0)
        | none => do
            compares reads s.ehTree (.entry newEntry e)
            let (ehTree, _) ← rbInsert (compare reads) true s.ehTree (.entry newEntry e)
            some ({ entries := h, ehTree := ehTree }, 0)

/-- `destroy_handler_entry`. -/
def destroyHandlerEntry (h : Heap (CsEventHandlerEntry η)) : EhPtr η → Option (Heap (CsEventHandlerEntry η))
  | .entry a _ => h.free a
  | .code _ | .search _ => none

/-- `rb_destroy(evm->eh_tree, destroy_handler_entry)`. -/
def destroyHandlers (s : State η) : Option (State η) := do
  let (ehTree, items) ← rbDestroy s.ehTree
  let h ← items.foldlM destroyHandlerEntry s.entries
  some { entries := h, ehTree := ehTree }

def step [DecidableEq η] (s : State η) : Op η → Option (State η × Answer η)
  | .install etype handler => (csEvmInstallHandler reads s etype handler).map fun r => (r.1, .ret r.2)
  | .getHandler etype => (csEvmGetHandler reads s etype).map fun h => (s, .handler h)
  | .throwEvent etype => (csEvmThrowEvent reads s etype).map fun a => (s, a)

/-- What the code of a handler reads as, where it reads as anything. -/
def bytes (h : η) : CsEventHandlerEntry η := (reads h).getD { handler := h, etype := "" }

variable {reads}

/-- An installation of a type that is there, of a handler whose code reads as nothing. -/
def Crashes (t : EhTree (bytes reads)) (etype : Option String) (handler : η) : Prop :=
  (∃ e ∈ etype, e ≠ "" ∧ (t.find? e).isSome = true) ∧ reads handler = none

instance (t : EhTree (bytes reads)) (etype : Option String) (handler : η) : Decidable (Crashes t etype handler) :=
  have : Decidable (reads handler = none) := decidable_of_iff _ Option.isNone_iff_eq_none
  inferInstanceAs (Decidable (_ ∧ _))

/-- The operations on a handler table. -/
def tableStep (t : EhTree (bytes reads)) : Op η → Option (EhTree (bytes reads) × Answer η)
  | .install etype handler =>
      if Crashes t etype handler then none
      else some ((Events.csEvmInstallHandler etype handler t).1, .ret (Events.csEvmInstallHandler etype handler t).2)
  | .getHandler etype => some (t, .handler (Events.csEvmGetHandler etype t))
  | .throwEvent etype => some (t, (Events.csEvmGetHandler etype t).elim .noHandler .called)

/-- The installations that are not refused. -/
def installed (ops : List (Op η)) : List (String × η) :=
  ops.filterMap fun
    | .install (some etype) handler => if etype = "" then none else some (etype, handler)
    | _ => none

/-- A pointer to an entry, or code that reads as something. -/
inductive PointsTo (reads : η → Option (CsEventHandlerEntry η)) (h : Heap (CsEventHandlerEntry η)) :
    EhPtr η → EhItem η → Prop where
  | entry {a : Addr} {e : CsEventHandlerEntry η} (he : h.cells a = some e) : PointsTo reads h (.entry a e) (.entry e)
  | code {c : η} {e : CsEventHandlerEntry η} (he : reads c = some e) : PointsTo reads h (.code c) (.code c)

/-- The items of `t` are what the pointers in the nodes of the tree lead to. -/
structure Layout (s : State η) (o : OrdTable (EhPtr.key reads)) (t : EhTree (bytes reads)) : Prop where
  table : Models (EhPtr.key reads) s.ehTree o
  alike : OrdTable.Alike (PointsTo reads s.entries) o t
  sound : s.entries.Sound
  kept : s.entries.freed = []
  /-- no entry has two pointers to it -/
  apart : (o.items.filterMap EhPtr.addr).Nodup
  /-- entries are lost only to code -/
  lost : (∃ c, EhItem.code c ∈ t.items) ∨ t.count = s.entries.brk

/-- The memory of an event manager represents a handler table. -/
def Represents (s : State η) (t : EhTree (bytes reads)) : Prop := ∃ o, Layout s o t

/-- The table fits the arrays of `rb.c`. -/
def Fits (t : EhTree (bytes reads)) (_ : Op η) : Prop := t.count < 2 ^ 25 - 2

instance (t : EhTree (bytes reads)) (op : Op η) : Decidable (Fits t op) := Nat.decLt _ _

theorem strcmp_neg (s1 s2 : String) : strcmp s1 s2 < 0 ↔ s1 < s2 := by
  unfold strcmp
  split
  · exact iff_of_true (by decide) ‹_›
  · split <;> exact iff_of_false (by decide) ‹_›

theorem strcmp_pos (s1 s2 : String) : 0 < strcmp s1 s2 ↔ s2 < s1 := by
  unfold strcmp
  split
  · exact iff_of_false (by decide) (lt_asymm ‹_›)
  · rename_i hle
    split
    · rename_i heq
      exact iff_of_false (by decide) (heq ▸ lt_irrefl s1)
    · rename_i hne
      exact iff_of_true (by decide) (lt_of_le_of_ne (not_lt.1 hle) (Ne.symm hne))

theorem compare_by : CompareBy (compare reads) (EhPtr.key reads) :=
  ⟨fun _ _ => strcmp_neg _ _, fun _ _ => strcmp_pos _ _⟩

/-- The pointer can be compared. -/
def EhPtr.Readable (reads : η → Option (CsEventHandlerEntry η)) (p : EhPtr η) : Prop := (p.etype reads).isSome = true

theorem EhPtr.readable_search (etype : String) : (EhPtr.search etype : EhPtr η).Readable reads := rfl

theorem EhPtr.readable_entry (a : Addr) (e : CsEventHandlerEntry η) : (EhPtr.entry a e).Readable reads := rfl

theorem EhPtr.readable_code {c : η} : (EhPtr.code c).Readable reads ↔ (reads c).isSome = true := by
  simp [EhPtr.Readable, EhPtr.etype]

theorem cmpHandlerFunc_eq {p q : EhPtr η} (hp : p.Readable reads) (hq : q.Readable reads) :
    cmpHandlerFunc reads p q = some (compare reads p q) := by
  obtain ⟨a, ha⟩ := Option.isSome_iff_exists.1 hp
  obtain ⟨b, hb⟩ := Option.isSome_iff_exists.1 hq
  simp [cmpHandlerFunc, compare, EhPtr.key, ha, hb]

theorem init_represents {s : State η} (h : csInitEventManager η = some s) :
    Represents s (.empty : EhTree (bytes reads)) := by
  obtain ⟨ehTree, hnew, rfl⟩ := Option.map_eq_some_iff.1 h
  exact ⟨.empty, Rb.rbCreate_models hnew, .nil, Heap.empty_sound, rfl, List.nodup_nil, Or.inr rfl⟩

section Comparisons

variable {s : RbTable (EhPtr η)} {o : OrdTable (EhPtr.key reads)} {item : EhPtr η}

/-- A walk compares what it is asked for with items only. -/
theorem comparesFrom_eq {t : RbTree (RbLabel (EhPtr η))} (hitem : item.Readable reads)
    (hitems : ∀ p ∈ Rb.items t, p.Readable reads) (ht : Rb.Reps s.nodes.cells t) {fuel : Nat} (hfuel : t.height ≤ fuel) :
    comparesFrom reads s item fuel (Rb.ptr t) = some () := by
  induction t generalizing fuel with
  | nil => cases fuel <;> rfl
  | node c l x r ihl ihr =>
      obtain ⟨hx, hl, hr⟩ := ht
      simp only [RbTree.height] at hfuel
      obtain ⟨fuel, rfl⟩ : ∃ k, fuel = k + 1 := ⟨fuel - 1, by omega⟩
      have hmem : ∀ p, p ∈ Rb.items l ∨ p = x.2 ∨ p ∈ Rb.items r → p ∈ Rb.items (.node c l x r) := by
        intro p hp
        simpa [Rb.items, RbTree.toList] using hp
      have hcmp := cmpHandlerFunc_eq hitem (hitems x.2 (hmem _ (Or.inr (Or.inl rfl))))
      have hleft : comparesFrom reads s item fuel (Rb.ptr l) = some () :=
        ihl (fun p hp => hitems p (hmem p (Or.inl hp))) hl (by omega)
      have hright : comparesFrom reads s item fuel (Rb.ptr r) = some () :=
        ihr (fun p hp => hitems p (hmem p (Or.inr (Or.inr hp)))) hr (by omega)
      simp only [comparesFrom, Rb.ptr_node, RbTable.data_node, RbTable.link_node, hx, Option.map_some, Option.bind_eq_bind,
        Option.bind_some, hcmp]
      split
      · exact hleft
      · split
        · exact hright
        · rfl

theorem compares_eq (h : Models (EhPtr.key reads) s o) (hitem : item.Readable reads)
    (hitems : ∀ p ∈ o.items, p.Readable reads) : compares reads s item = some () := by
  obtain ⟨t, ht, ho⟩ := h
  rw [compares, ht.shows.holds.root]
  rw [ho] at hitems
  exact comparesFrom_eq hitem hitems ht.shows.tree ht.height_le_brk

/-- The first comparison with code that reads as nothing is the last. -/
theorem compares_crashes (h : Models (EhPtr.key reads) s o) (hitem : ¬ item.Readable reads) (hsome : o.items ≠ []) :
    compares reads s item = none := by
  obtain ⟨t, ht, ho⟩ := h
  have hnone : item.etype reads = none := Option.not_isSome_iff_eq_none.1 hitem
  have hfuel := ht.height_le_brk
  have hroot : s.rbRoot = Rb.ptr t := ht.shows.holds.root
  rw [compares, hroot]
  cases t with
  | nil => exact absurd ho hsome
  | node c l x r =>
      obtain ⟨hx, -⟩ := ht.shows.tree
      simp only [RbTree.height] at hfuel
      obtain ⟨fuel, hbrk⟩ : ∃ k, s.nodes.brk = k + 1 := ⟨s.nodes.brk - 1, by omega⟩
      simp [hbrk, comparesFrom, Rb.ptr_node, RbTable.data_node, hx, cmpHandlerFunc, hnone]

end Comparisons

section Pointers

variable {h : Heap (CsEventHandlerEntry η)} {p : EhPtr η} {i : EhItem η}

theorem PointsTo.readable (hp : PointsTo reads h p i) : p.Readable reads := by
  cases hp with
  | entry _ => rfl
  | code he => simp [EhPtr.Readable, EhPtr.etype, he]

theorem PointsTo.key (hp : PointsTo reads h p i) : p.key reads = (i.read (bytes reads)).etype := by
  cases hp with
  | entry _ => rfl
  | code he => simp [EhPtr.key, EhPtr.etype, EhItem.read, bytes, he]

theorem PointsTo.handler (hp : PointsTo reads h p i) : p.handler reads = some (i.read (bytes reads)).handler := by
  cases hp with
  | entry _ => rfl
  | code he => simp [EhPtr.handler, EhItem.read, bytes, he]

/-- The memory of an entry is allocated. -/
theorem PointsTo.isSome (hp : PointsTo reads h p i) {a : Addr} (ha : p.addr = some a) : (h.cells a).isSome = true := by
  cases hp with
  | entry he =>
      cases ha
      rw [he]
      rfl
  | code _ => cases ha

theorem PointsTo.alloc (hp : PointsTo reads h p i) (hs : h.Sound) (e : CsEventHandlerEntry η) :
    PointsTo reads (h.alloc e).1 p i := by
  cases hp with
  | entry he =>
      apply PointsTo.entry
      rw [Heap.alloc_cells_of_ne (Nat.ne_of_lt (hs.lt (by rw [he]; rfl)))]
      exact he
  | code he => exact .code he

end Pointers

section Operations

variable {s : State η} {o : OrdTable (EhPtr.key reads)} {t : EhTree (bytes reads)}

theorem Layout.alike_etype (h : Layout s o t) (etype : String) :
    Option.Rel (PointsTo reads s.entries) (o.find? etype) (t.find? etype) :=
  h.alike.find? (fun _ _ hp => hp.key) etype

/-- Every comparison of something that can be compared returns. -/
theorem Layout.compares (h : Layout s o t) {item : EhPtr η} (hitem : item.Readable reads) :
    compares reads s.ehTree item = some () := by
  apply compares_eq h.table hitem
  intro p hp
  obtain ⟨i, -, hpi⟩ := h.alike.mem_left hp
  exact hpi.readable

/-- The addresses of the entries have been given. -/
theorem Layout.lt (h : Layout s o t) {a : Addr} (ha : a ∈ o.items.filterMap EhPtr.addr) : a < s.entries.brk := by
  obtain ⟨p, hp, hpa⟩ := List.mem_filterMap.1 ha
  obtain ⟨i, -, hpi⟩ := h.alike.mem_left hp
  exact h.sound.lt (hpi.isSome hpa)

theorem Layout.getHandler (h : Layout s o t) (etype : String) :
    csEvmGetHandler reads s etype = some (Events.csEvmGetHandler etype t) := by
  have hfound := Rb.rbFind_eq compare_by (.search etype) h.table
  have hrel := h.alike_etype etype
  have hfound : rbFind (compare reads) s.ehTree (.search etype) = some (o.find? etype) := hfound
  rw [csEvmGetHandler, h.compares (EhPtr.readable_search etype), hfound, Events.csEvmGetHandler]
  generalize o.find? etype = x, t.find? etype = y at hrel
  cases hrel with
  | none => rfl
  | @some p i hp => exact congrArg (Option.map some) hp.handler

/-- Pointers are led where they were while an entry is made. -/
theorem Layout.alloc (h : Layout s o t) (e : CsEventHandlerEntry η) :
    OrdTable.Alike (PointsTo reads (s.entries.alloc e).1) o t :=
  h.alike.imp fun _ _ _ hp => hp.alloc h.sound e

/-- A new entry, and a pointer to it in the tree. -/
theorem Layout.insert (h : Layout s o t) {e : CsEventHandlerEntry η} {ehTree : RbTable (EhPtr η)}
    (hnew : t.find? e.etype = none) (htable : Models (EhPtr.key reads) ehTree (o.insert (.entry s.entries.brk e))) :
    Layout (.mk (s.entries.alloc e).1 ehTree) (o.insert (.entry s.entries.brk e)) (t.insert (.entry e)) where
  table := htable
  alike := (h.alloc e).insert (fun _ _ hp => hp.key) (.entry Heap.alloc_cells_self)
  sound := h.sound.alloc
  kept := h.kept
  apart := by
    have hrel := h.alike_etype e.etype
    rw [hnew] at hrel
    generalize hfind : o.find? e.etype = x at hrel
    cases hrel
    have hperm := (OrdTable.insert_perm (t := o) (x := .entry s.entries.brk e) hfind).filterMap EhPtr.addr
    rw [hperm.nodup_iff]
    apply List.nodup_cons.2
    exact ⟨fun hmem => Nat.lt_irrefl _ (h.lt hmem), h.apart⟩
  lost := by
    apply h.lost.imp
    · rintro ⟨c, hc⟩
      exact ⟨c, (OrdTable.mem_insert (x := EhItem.entry e) hnew).2 (Or.inr hc)⟩
    · intro hcount
      rw [OrdTable.count_insert (x := EhItem.entry e) hnew, hcount]
      rfl

/-- A new entry that is lost, and the code of a handler in the tree. -/
theorem Layout.replace (h : Layout s o t) (e : CsEventHandlerEntry η) {c : η} (hreads : (reads c).isSome = true)
    {ehTree : RbTable (EhPtr η)} (htable : Models (EhPtr.key reads) ehTree (o.replace (.code c))) :
    Layout (.mk (s.entries.alloc e).1 ehTree) (o.replace (.code c)) (t.replace (.code c)) := by
  obtain ⟨e', he'⟩ := Option.isSome_iff_exists.1 hreads
  have hcode : PointsTo reads (s.entries.alloc e).1 (.code c) (.code c) := .code he'
  have hkey : OrdTable.Alike (PointsTo reads (s.entries.alloc e).1) (o.replace (.code c)) (t.replace (.code c)) := by
    have hk : (EhPtr.code c).key reads = (EhItem.read (bytes reads) (.code c)).etype := hcode.key
    unfold OrdTable.replace
    rw [hk]
    exact ((h.alloc e).delete (fun _ _ hp => hp.key) _).insert (fun _ _ hp => hp.key) hcode
  refine ⟨htable, hkey, h.sound.alloc, h.kept, ?_, Or.inl ⟨c, OrdTable.mem_replace.2 (Or.inl rfl)⟩⟩
  have hperm := OrdTable.insert_perm (t := o.delete _) (x := .code c) OrdTable.find?_delete_self
  rw [OrdTable.replace, (hperm.filterMap EhPtr.addr).nodup_iff]
  exact h.apart.sublist (List.filter_sublist.filterMap _)

theorem Layout.install [DecidableEq η] (h : Layout s o t) (hsize : t.count < 2 ^ 25 - 2) {etype : Option String}
    {handler : η} (hok : ¬ Crashes t etype handler) :
    ∃ s', csEvmInstallHandler reads s etype handler = some (s', (Events.csEvmInstallHandler etype handler t).2) ∧
      Represents s' (Events.csEvmInstallHandler etype handler t).1 := by
  unfold csEvmInstallHandler Events.csEvmInstallHandler
  cases etype with
  | none => exact ⟨s, rfl, o, h⟩
  | some etype =>
      by_cases hempty : etype = ""
      · simp only [if_pos hempty]
        exact ⟨s, rfl, o, h⟩
      have hfound := Rb.rbFind_eq compare_by (.search etype) h.table
      have hrel : Option.Rel _ (o.find? (EhPtr.key reads (.search etype))) _ := h.alike_etype etype
      rw [← h.alike.count] at hsize
      simp only [if_neg hempty, Option.bind_eq_bind, h.compares (EhPtr.readable_search etype), Option.bind_some]
      generalize hfind : o.find? (EhPtr.key reads (.search etype)) = x, hfind' : t.find? etype = y at hrel hfound
      cases hrel with
      | none =>
          obtain ⟨ehTree, hinsert, htable⟩ := Rb.rbInsert_eq compare_by h.table hsize true
            (.entry s.entries.brk { handler := handler, etype := etype })
          have hlayout := h.insert (e := { handler := handler, etype := etype }) hfind' htable
          simp only [hfound, Option.bind_some, Heap.alloc_snd, h.compares (EhPtr.readable_entry _ _), hinsert]
          exact ⟨_, rfl, _, hlayout⟩
      | @some p i hp =>
          have hreads : (reads handler).isSome = true := by
            by_contra hnone
            apply hok
            refine ⟨⟨etype, rfl, hempty, ?_⟩, Option.not_isSome_iff_eq_none.1 hnone⟩
            rw [hfind']
            rfl
          obtain ⟨ehTree, hreplace, htable⟩ := Rb.rbReplace_eq compare_by h.table hsize true (.code handler)
          have hlayout := h.replace { handler := handler, etype := etype } hreads htable
          simp only [hfound, Option.bind_some, h.compares (EhPtr.readable_code.2 hreads), hreplace]
          exact ⟨_, rfl, _, hlayout⟩

/-- The comparisons of the second installation crash where the code reads as nothing. -/
theorem Layout.install_crashes [DecidableEq η] (h : Layout s o t) {etype : Option String} {handler : η}
    (hcrash : Crashes t etype handler) : csEvmInstallHandler reads s etype handler = none := by
  obtain ⟨⟨etype, rfl, hempty, hsome⟩, hreads⟩ := hcrash
  have hfound := Rb.rbFind_eq compare_by (.search etype) h.table
  have hrel : Option.Rel _ (o.find? (EhPtr.key reads (.search etype))) _ := h.alike_etype etype
  obtain ⟨i, hi⟩ := Option.isSome_iff_exists.1 hsome
  rw [hi] at hrel
  generalize hfind : o.find? (EhPtr.key reads (.search etype)) = x at hrel hfound
  cases hrel with
  | @some p _ hp =>
      have hitems : o.items ≠ [] := List.ne_nil_of_mem (OrdTable.find?_eq_some.1 hfind).1
      have hcode : ¬ (EhPtr.code handler).Readable reads := by simp [EhPtr.readable_code, hreads]
      simp [csEvmInstallHandler, hempty, h.compares (EhPtr.readable_search etype), hfound,
        compares_crashes h.table hcode hitems]

theorem step_agree [DecidableEq η] (h : Represents s t) (op : Op η) (hfits : Fits t op) :
    Mealy.Agree Represents Eq (step reads s op) (tableStep t op) := by
  obtain ⟨o, ho⟩ := h
  cases op with
  | install etype handler =>
      by_cases hcrash : Crashes t etype handler
      · rw [step, ho.install_crashes hcrash, tableStep, if_pos hcrash]
        exact .none
      · obtain ⟨s', hrun, h'⟩ := ho.install hfits hcrash
        rw [step, hrun, tableStep, if_neg hcrash]
        exact .some rfl h'
  | getHandler etype =>
      rw [step, ho.getHandler]
      exact .some rfl ⟨o, ho⟩
  | throwEvent etype =>
      rw [step, csEvmThrowEvent, ho.getHandler, tableStep]
      cases Events.csEvmGetHandler etype t <;> exact .some rfl ⟨o, ho⟩

theorem run_represents [DecidableEq η] (hnew : csInitEventManager η = some s) {ops : List (Op η)}
    (hfits : Mealy.Along Fits tableStep (.empty : EhTree (bytes reads)) ops) :
    List.Forall₂ Eq (Mealy.run (step reads) s ops).1 (Mealy.run tableStep (.empty : EhTree (bytes reads)) ops).1 ∧
      Represents (Mealy.run (step reads) s ops).2 (Mealy.run tableStep (.empty : EhTree (bytes reads)) ops).2 :=
  Mealy.run_agree (R := Represents) (fun _ _ op h hok => step_agree h op hok) (init_represents hnew) hfits

end Operations

section Destruction

variable {h : Heap (CsEventHandlerEntry η)} {items : List (EhPtr η)} {s : State η}
  {o : OrdTable (EhPtr.key reads)} {t : EhTree (bytes reads)}

theorem destroyEntries_eq (hitems : ∀ p ∈ items, ∃ a, p.addr = some a ∧ (h.cells a).isSome = true)
    (hapart : (items.filterMap EhPtr.addr).Nodup) :
    items.foldlM destroyHandlerEntry h = some (h.without (items.filterMap EhPtr.addr)) := by
  induction items generalizing h with
  | nil => simp
  | cons p items ih =>
      obtain ⟨a, hpa, ha⟩ := hitems p List.mem_cons_self
      rw [List.filterMap_cons_some hpa] at hapart ⊢
      obtain ⟨hfresh, hapart⟩ := List.nodup_cons.1 hapart
      have hfree : destroyHandlerEntry h p = some (h.without [a]) := by
        cases p with
        | entry b e =>
            cases hpa
            exact Heap.free_eq ha
        | code c => cases hpa
        | search etype => cases hpa
      rw [List.foldlM_cons, hfree]
      show items.foldlM destroyHandlerEntry (h.without [a]) = _
      rw [ih (fun q hq => ?_) hapart, Heap.without_append]
      · rfl
      · obtain ⟨b, hqb, hb⟩ := hitems q (List.mem_cons_of_mem p hq)
        refine ⟨b, hqb, ?_⟩
        rw [Heap.without_cells_of_notMem]
        · exact hb
        · rintro hba
          rw [List.mem_singleton.1 hba] at hqb
          exact hfresh (List.mem_filterMap.2 ⟨q, hq, hqb⟩)

/-- `free` of code is undefined. -/
theorem destroyEntries_faults {c : η} (hc : .code c ∈ items) : items.foldlM destroyHandlerEntry h = none := by
  induction items generalizing h with
  | nil => simp at hc
  | cons p items ih =>
      rw [List.foldlM_cons]
      cases hrun : destroyHandlerEntry h p with
      | none => rfl
      | some h' =>
          apply ih
          rcases List.mem_cons.1 hc with rfl | hc
          · cases hrun
          · exact hc

/-- The end of a table without code: every entry is freed. -/
theorem Layout.destroy (h : Layout s o t) (hclean : ∀ c, EhItem.code c ∉ t.items) :
    ∃ s', destroyHandlers s = some s' ∧ s'.entries.freed.Perm (List.range s'.entries.brk) := by
  obtain ⟨ehTree, hdestroy, -⟩ := Rb.rbDestroy_eq h.table
  have hentries : ∀ p ∈ o.items, ∃ a, p.addr = some a ∧ (s.entries.cells a).isSome = true := by
    intro p hp
    obtain ⟨i, hi, hpi⟩ := h.alike.mem_left hp
    cases hpi with
    | @entry a e he => exact ⟨a, rfl, Option.isSome_of_eq_some he⟩
    | @code c e he => exact absurd hi (hclean c)
  have hfold := destroyEntries_eq hentries h.apart
  have hsound : (s.entries.without (o.items.filterMap EhPtr.addr)).Sound := by
    apply h.sound.without h.apart
    intro a ha
    obtain ⟨p, hp, hpa⟩ := List.mem_filterMap.1 ha
    obtain ⟨b, hpb, hb⟩ := hentries p hp
    rw [hpa] at hpb
    cases hpb
    exact hb
  -- there are as many items as entries
  have hcount : t.count = s.entries.brk := h.lost.resolve_left fun ⟨c, hc⟩ => hclean c hc
  have hlength : (o.items.filterMap EhPtr.addr).length = o.items.length := by
    rw [List.filterMap_length_eq_length]
    intro p hp
    obtain ⟨a, hpa, -⟩ := hentries p hp
    exact Option.isSome_of_eq_some hpa
  refine ⟨.mk (s.entries.without (o.items.filterMap EhPtr.addr)) ehTree, ?_, hsound.freed_perm ?_⟩
  · rw [destroyHandlers, hdestroy]
    simp only [Option.bind_eq_bind, Option.bind_some, hfold]
  · rw [Heap.without_brk, Heap.without_freed, h.kept, List.nil_append, hlength, ← hcount, ← h.alike.count]
    exact Nat.le_refl _

theorem Layout.destroy_faults (h : Layout s o t) {c : η} (hc : EhItem.code c ∈ t.items) :
    destroyHandlers s = none := by
  obtain ⟨ehTree, hdestroy, -⟩ := Rb.rbDestroy_eq h.table
  obtain ⟨p, hp, hpc⟩ := h.alike.mem_right hc
  cases hpc
  rw [destroyHandlers, hdestroy]
  simp only [Option.bind_eq_bind, Option.bind_some, destroyEntries_faults hp, Option.bind_none]

end Destruction

section Runs

variable {s : State η}

/-- The table after a run that returns is that of its installations. -/
theorem run_installed {ops : List (Op η)} {t : EhTree (bytes reads)}
    (hlen : (Mealy.run tableStep t ops).1.length = ops.length) :
    (Mealy.run tableStep t ops).2 =
      (installed ops).foldl (fun t x => (Events.csEvmInstallHandler (some x.1) x.2 t).1) t := by
  induction ops generalizing t with
  | nil => rfl
  | cons op ops ih =>
      cases op with
      | getHandler etype => exact ih (Nat.succ.inj hlen)
      | throwEvent etype => exact ih (Nat.succ.inj hlen)
      | install etype handler =>
          by_cases hcrash : Crashes t etype handler
          · simp [Mealy.run, tableStep, hcrash] at hlen
          · simp only [Mealy.run, tableStep, if_neg hcrash, List.length_cons, Nat.add_right_cancel_iff] at hlen ⊢
            refine (ih hlen).trans ?_
            cases etype with
            | none => rfl
            | some etype =>
                by_cases hempty : etype = ""
                · simp [installed, Events.csEvmInstallHandler, hempty]
                · simp [installed, hempty]

theorem installed_ne {ops : List (Op η)} : ∀ x ∈ installed ops, x.1 ≠ "" := by
  intro x hx
  obtain ⟨op, -, hop⟩ := List.mem_filterMap.1 hx
  cases op with
  | getHandler etype => cases hop
  | throwEvent etype => cases hop
  | install etype handler =>
      cases etype with
      | none => cases hop
      | some etype =>
          by_cases hempty : etype = ""
          · simp [hempty] at hop
          · simp only [if_neg hempty, Option.some.injEq] at hop
            rw [← hop]
            exact hempty

/-- Different types are found where they have been installed. -/
theorem isSome_find?_installAll {l : List (String × η)} (hne : ∀ x ∈ l, x.1 ≠ "") (hl : (l.map Prod.fst).Nodup)
    {etype : String} :
    ((Events.installAll (bytes reads) l).find? etype).isSome = true ↔ etype ∈ l.map Prod.fst := by
  have hlatest : Events.csEvmGetHandler etype (Events.installAll (bytes reads) l) = Events.lastInstalled etype l :=
    (Events.lastWins_of_nodup hne hl).latest etype
  rw [← not_iff_not, ← Events.lastInstalled_eq_none, ← hlatest, Events.csEvmGetHandler, Option.map_eq_none_iff,
    Option.not_isSome_iff_eq_none]

/-- A run of different types returns. -/
theorem run_returns {ops : List (Op η)} {l : List (String × η)} (hne : ∀ x ∈ l, x.1 ≠ "")
    (hnodup : ((l ++ installed ops).map Prod.fst).Nodup) :
    (Mealy.run tableStep (Events.installAll (bytes reads) l) ops).1.length = ops.length := by
  induction ops generalizing l with
  | nil => rfl
  | cons op ops ih =>
      cases op with
      | getHandler etype => exact congrArg Nat.succ (ih hne hnodup)
      | throwEvent etype => exact congrArg Nat.succ (ih hne hnodup)
      | install etype handler =>
          have hl : (l.map Prod.fst).Nodup := by
            rw [List.map_append] at hnodup
            exact (List.nodup_append.1 hnodup).1
          have hcrash : ¬ Crashes (Events.installAll (bytes reads) l) etype handler := by
            rintro ⟨⟨e, rfl, hempty, hsome⟩, -⟩
            have hmem := (isSome_find?_installAll hne hl).1 hsome
            simp only [installed, List.filterMap_cons, if_neg hempty, List.map_append, List.map_cons] at hnodup
            exact (List.nodup_append.1 hnodup).2.2 e hmem e (by simp) rfl
          simp only [Mealy.run, tableStep, if_neg hcrash, List.length_cons, Nat.add_right_cancel_iff]
          cases etype with
          | none => exact ih hne hnodup
          | some etype =>
              by_cases hempty : etype = ""
              · rw [show (Events.csEvmInstallHandler (some etype) handler _).1 = _ by
                  simp [Events.csEvmInstallHandler, hempty]; rfl]
                exact ih hne (by simpa [installed, hempty] using hnodup)
              · rw [← Events.installAll_append (bytes reads) l (etype, handler)]
                apply ih
                · intro x hx
                  rcases List.mem_append.1 hx with hx | hx
                  · exact hne x hx
                  · rw [List.mem_singleton.1 hx]
                    exact hempty
                · simpa [installed, hempty] using hnodup

/-- Where code reads as nothing, a run that returns has installed different types. -/
theorem nodup_of_run (hreads : ∀ h, reads h = none) {ops : List (Op η)} {l : List (String × η)}
    (hne : ∀ x ∈ l, x.1 ≠ "") (hl : (l.map Prod.fst).Nodup)
    (hlen : (Mealy.run tableStep (Events.installAll (bytes reads) l) ops).1.length = ops.length) :
    ((l ++ installed ops).map Prod.fst).Nodup := by
  induction ops generalizing l with
  | nil => simpa [installed] using hl
  | cons op ops ih =>
      cases op with
      | getHandler etype => exact ih hne hl (Nat.succ.inj hlen)
      | throwEvent etype => exact ih hne hl (Nat.succ.inj hlen)
      | install etype handler =>
          by_cases hcrash : Crashes (Events.installAll (bytes reads) l) etype handler
          · simp [Mealy.run, tableStep, hcrash] at hlen
          · simp only [Mealy.run, tableStep, if_neg hcrash, List.length_cons, Nat.add_right_cancel_iff] at hlen
            cases etype with
            | none => exact ih hne hl hlen
            | some etype =>
                by_cases hempty : etype = ""
                · rw [show (Events.csEvmInstallHandler (some etype) handler _).1 = _ by
                    simp [Events.csEvmInstallHandler, hempty]; rfl] at hlen
                  simpa [installed, hempty] using ih hne hl hlen
                · have hnew : etype ∉ l.map Prod.fst := fun hmem =>
                    hcrash ⟨⟨etype, rfl, hempty, (isSome_find?_installAll hne hl).2 hmem⟩, hreads handler⟩
                  rw [← Events.installAll_append (bytes reads) l (etype, handler)] at hlen
                  have hrest := ih (l := l ++ [(etype, handler)]) ?_ ?_ hlen
                  · simpa [installed, hempty] using hrest
                  · intro x hx
                    rcases List.mem_append.1 hx with hx | hx
                    · exact hne x hx
                    · rw [List.mem_singleton.1 hx]
                      exact hempty
                  · rw [List.map_append, List.nodup_append]
                    refine ⟨hl, by simp, fun a ha b hb hab => hnew ?_⟩
                    have hb : b = etype := by simpa using hb
                    rw [← hb, ← hab]
                    exact ha

/-- There is code in the table where a type was installed twice. -/
theorem run_clean {ops : List (Op η)}
    (hlen : (Mealy.run tableStep (.empty : EhTree (bytes reads)) ops).1.length = ops.length) :
    (∀ c, EhItem.code c ∉ (Mealy.run tableStep (.empty : EhTree (bytes reads)) ops).2.items) ↔
      ((installed ops).map Prod.fst).Nodup := by
  have hrun : (Mealy.run tableStep (.empty : EhTree (bytes reads)) ops).2 =
      Events.installAll (bytes reads) (installed ops) := run_installed hlen
  rw [hrun]
  constructor
  · intro hclean
    by_contra hrepeated
    obtain ⟨c, hc⟩ := Events.code_of_repeated installed_ne hrepeated
    exact hclean c hc
  · intro hnodup c hc
    obtain ⟨e, he⟩ := (Events.lastWins_of_nodup installed_ne hnodup).entries _ hc
    cases he

/-- **The memory is the handler table**: the operations of a run answer as those of the handler table do, which crash
at an installation of a type that is there, of a handler whose code reads as nothing. Where code reads as
nothing, every operation returns if and only if the types that are installed are different. -/
theorem handlers_in_memory [DecidableEq η] (reads : η → Option (CsEventHandlerEntry η))
    (hnew : csInitEventManager η = some s) (ops : List (Op η))
    (hfits : Mealy.Along Fits tableStep (.empty : EhTree (bytes reads)) ops) :
    (Mealy.run (step reads) s ops).1 = (Mealy.run tableStep (.empty : EhTree (bytes reads)) ops).1 ∧
      ((∀ h, reads h = none) →
        ((Mealy.run (step reads) s ops).1.length = ops.length ↔ ((installed ops).map Prod.fst).Nodup)) := by
  obtain ⟨hanswers, -⟩ := run_represents hnew hfits
  have hsame := List.forall₂_eq_eq_eq ▸ hanswers
  refine ⟨hsame, fun hreads => ?_⟩
  rw [hsame]
  constructor
  · exact nodup_of_run hreads (l := []) (by simp) List.nodup_nil
  · exact run_returns (l := []) (by simp)

/-- Code that leads to no string. -/
def unreadable (_ : Nat) : Option (CsEventHandlerEntry Nat) := none

/-- Code that reads as an entry without a type. -/
def blank (h : Nat) : Option (CsEventHandlerEntry Nat) := some { handler := h, etype := "" }

/-- Two types, installed once each. -/
def twoTypes : List (Op Nat) := [.install (some "birth") 0, .install (some "death") 1, .throwEvent "death"]

/-- One of them again. -/
def birthTwice : List (Op Nat) := twoTypes ++ [.install (some "birth") 2, .getHandler "death"]

theorem twoTypes_fit : Mealy.Along Fits tableStep (.empty : EhTree (bytes blank)) twoTypes := by decide +kernel

theorem birthTwice_fit : Mealy.Along Fits tableStep (.empty : EhTree (bytes unreadable)) birthTwice := by decide +kernel

theorem birthTwice_fit_blank : Mealy.Along Fits tableStep (.empty : EhTree (bytes blank)) birthTwice := by decide +kernel

/-- The second installation of a type crashes where code reads as nothing. -/
theorem handlers_in_memory_two : ∃ s, csInitEventManager Nat = some s ∧
    (Mealy.run (step unreadable) s birthTwice).1 = [.ret 0, .ret 0, .called 1] := by
  obtain ⟨hanswers, -⟩ := handlers_in_memory unreadable rfl birthTwice birthTwice_fit
  exact ⟨_, rfl, hanswers.trans (by decide +kernel)⟩

/-- **The handler table is destroyed cleanly exactly where no type was installed twice**: the operations of a run
return, and so does the destruction, which frees each entry that the run has made, once, if and only if the types that
are installed are different. -/
theorem handlers_destroyed_once [DecidableEq η] (reads : η → Option (CsEventHandlerEntry η))
    (hnew : csInitEventManager η = some s) (ops : List (Op η))
    (hfits : Mealy.Along Fits tableStep (.empty : EhTree (bytes reads)) ops) :
    ((Mealy.run (step reads) s ops).1.length = ops.length ∧
      ∃ s', destroyHandlers (Mealy.run (step reads) s ops).2 = some s' ∧
        s'.entries.freed.Perm (List.range s'.entries.brk)) ↔ ((installed ops).map Prod.fst).Nodup := by
  obtain ⟨hanswers, o, ho⟩ := run_represents hnew hfits
  have hsame := List.forall₂_eq_eq_eq ▸ hanswers
  rw [hsame]
  constructor
  · rintro ⟨hlen, s', hrun, -⟩
    rw [← run_clean hlen]
    intro c hc
    rw [ho.destroy_faults hc] at hrun
    cases hrun
  · intro hnodup
    have hlen : (Mealy.run tableStep (.empty : EhTree (bytes reads)) ops).1.length = ops.length :=
      run_returns (l := []) (by simp) hnodup
    exact ⟨hlen, ho.destroy ((run_clean hlen).2 hnodup)⟩

/-- One more installation of a type, and the end of the event manager is undefined, even where its code can be
read. -/
theorem handlers_destroyed_once_two : ∃ s, csInitEventManager Nat = some s ∧
    (∃ s', destroyHandlers (Mealy.run (step blank) s twoTypes).2 = some s' ∧
      s'.entries.freed.Perm (List.range s'.entries.brk)) ∧
    ¬ ((Mealy.run (step blank) s birthTwice).1.length = birthTwice.length ∧
      ∃ s', destroyHandlers (Mealy.run (step blank) s birthTwice).2 = some s' ∧
        s'.entries.freed.Perm (List.range s'.entries.brk)) := by
  obtain ⟨s, hnew⟩ : ∃ s, csInitEventManager Nat = some s := ⟨_, rfl⟩
  refine ⟨s, hnew, ?_, fun hclean => ?_⟩
  · exact ((handlers_destroyed_once blank hnew twoTypes twoTypes_fit).2 (by decide)).2
  · have hnodup := (handlers_destroyed_once blank hnew birthTwice birthTwice_fit_blank).1 hclean
    exact absurd hnodup (by decide)

end Runs

end ComplexSim.HandlerStore
