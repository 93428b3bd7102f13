import ComplexSim.Lib.OrdTable
import Mathlib.Data.List.Induction
import Mathlib.Data.String.Basic

/-!
# The handler table (`src/cs_events.c`)

The items of `eh_tree` are untyped pointers, compared by the event types of the handler
entries that they are taken to point to. An installation of a new type inserts an entry;
an installation of a type that is there puts the handler itself into the tree, where the
entry just made was meant. So the table is a map from types to handlers as long as no
type is installed twice, and never again after that (`install_last_wins`).

To put it there `rb_replace` compares it, and takes the code of the handler for an entry with a
pointer to a string: the call normally crashes at once. Here the code reads as any entry that one
likes, so that not even a call that gets through makes a map of the table.
-/

namespace ComplexSim.Events

/-- `cs_event_handler_entry_t`. -/
structure CsEventHandlerEntry (η : Type) where
  handler : η
  etype : String
  deriving DecidableEq, Repr

/-- What an item of `eh_tree` points to. -/
inductive EhItem (η : Type) where
  | entry (e : CsEventHandlerEntry η)
  /-- the code of a handler -/
  | code (h : η)
  deriving DecidableEq, Repr

variable {η : Type} (bytes : η → CsEventHandlerEntry η)

/-- An item, taken for a handler entry; `bytes` is what the code of a handler reads as, where reading it does not
crash. -/
def EhItem.read : EhItem η → CsEventHandlerEntry η
  | .entry e => e
  | .code h => bytes h

/-- `eh_tree`, ordered by `cmp_handler_func`. -/
abbrev EhTree := OrdTable fun i : EhItem η => (i.read bytes).etype

variable {bytes}

/-- `cs_evm_get_handler`. -/
def csEvmGetHandler (etype : String) (t : EhTree bytes) : Option η :=
  (t.find? etype).map fun ret => (ret.read bytes).handler

/-- `cs_evm_install_handler`; a type is `none` for `NULL`. -/
def csEvmInstallHandler (etype : Option String) (handler : η) (t : EhTree bytes) :
    EhTree bytes × Int :=
  match etype with
  | none => (t, -1)
  | some etype =>
      if etype = "" then (t, -1)
      else if (t.find? etype).isSome then (t.replace (.code handler), 0)
      else (t.insert (.entry { handler := handler, etype := etype }), 0)

/-- The table after a sequence of installations. -/
def installAll (bytes : η → CsEventHandlerEntry η) (l : List (String × η)) : EhTree bytes :=
  l.foldl (fun t x => (csEvmInstallHandler (some x.1) x.2 t).1) .empty

/-- The handler of the last installation of a type. -/
def lastInstalled (etype : String) (l : List (String × η)) : Option η :=
  (l.reverse.find? fun x => x.1 = etype).map Prod.snd

/-- What a handler table is for, after the installations `l`. -/
structure LastWins (bytes : η → CsEventHandlerEntry η) (l : List (String × η)) : Prop where
  /-- every item is a handler entry -/
  entries : ∀ i ∈ (installAll bytes l).items, ∃ e, i = .entry e
  latest : ∀ etype, csEvmGetHandler etype (installAll bytes l) = lastInstalled etype l
  /-- the last installation has changed the lookup of no other type -/
  others : ∀ l' x, l = l' ++ [x] → ∀ etype, etype ≠ x.1 →
    csEvmGetHandler etype (installAll bytes l) = csEvmGetHandler etype (installAll bytes l')

section Installations

variable {l : List (String × η)} {x : String × η} {etype : String}

theorem installAll_append (bytes : η → CsEventHandlerEntry η) (l : List (String × η)) (x : String × η) :
    installAll bytes (l ++ [x]) =
    (csEvmInstallHandler (some x.1) x.2 (installAll bytes l)).1 := by
  simp [installAll]

theorem lastInstalled_append_self : lastInstalled x.1 (l ++ [x]) = some x.2 := by
  simp [lastInstalled]

theorem lastInstalled_append_of_ne (h : etype ≠ x.1) :
    lastInstalled etype (l ++ [x]) = lastInstalled etype l := by
  simp [lastInstalled, Ne.symm h]

theorem lastInstalled_eq_none : lastInstalled etype l = none ↔ etype ∉ l.map Prod.fst := by
  rw [lastInstalled, Option.map_eq_none_iff, List.find?_eq_none, List.mem_map]
  constructor
  · rintro h ⟨y, hy, rfl⟩
    simpa using h y (by simpa using hy)
  · intro h y hy
    simpa using fun hk => h ⟨y, by simpa using hy, hk⟩

/-- An installation of a type that is not in the table inserts its entry. -/
theorem install_new {t : EhTree bytes} (hx : x.1 ≠ "") (hnew : t.find? x.1 = none) :
    (csEvmInstallHandler (some x.1) x.2 t).1 = t.insert (.entry { handler := x.2, etype := x.1 }) := by
  simp [csEvmInstallHandler, hx, hnew]

/-- An installation of a type that is in the table stores the handler's code. -/
theorem install_again {t : EhTree bytes} {i : EhItem η} (hx : x.1 ≠ "") (hold : t.find? x.1 = some i) :
    (csEvmInstallHandler (some x.1) x.2 t).1 = t.replace (.code x.2) := by
  simp [csEvmInstallHandler, hx, hold]

/-- Code that is in the table stays there, or other code takes its place. -/
theorem install_code {t : EhTree bytes} (h : ∃ c, EhItem.code c ∈ t.items) :
    ∃ c, EhItem.code c ∈ (csEvmInstallHandler (some x.1) x.2 t).1.items := by
  obtain ⟨c, hc⟩ := h
  by_cases hx : x.1 = ""
  · exact ⟨c, by simpa [csEvmInstallHandler, hx] using hc⟩
  · cases hfind : t.find? x.1 with
    | none =>
        rw [install_new hx hfind]
        exact ⟨c, (OrdTable.mem_insert hfind).2 (Or.inr hc)⟩
    | some i =>
        rw [install_again hx hfind]
        exact ⟨x.2, OrdTable.mem_replace.2 (Or.inl rfl)⟩

/-- Different types, one after the other, make a map. -/
theorem lastWins_of_nodup (hne : ∀ x ∈ l, x.1 ≠ "") (hl : (l.map Prod.fst).Nodup) : LastWins bytes l := by
  induction l using List.reverseRecOn with
  | nil => exact ⟨by simp [installAll], fun etype => rfl, by simp⟩
  | append_singleton l x ih =>
      rw [List.map_append, List.nodup_append] at hl
      have hlast := ih (fun y hy => hne y (by simp [hy])) hl.1
      have hx : x.1 ≠ "" := hne x (by simp)
      have hfresh : lastInstalled x.1 l = none := by
        apply lastInstalled_eq_none.2
        intro hmem
        exact hl.2.2 _ hmem _ (by simp) rfl
      have hnew : (installAll bytes l).find? x.1 = none := by
        have hget := hlast.latest x.1
        rw [hfresh] at hget
        exact Option.map_eq_none_iff.1 hget
      have hinstall := installAll_append bytes l x
      rw [install_new hx hnew] at hinstall
      have hothers : ∀ etype, etype ≠ x.1 →
          csEvmGetHandler etype (installAll bytes (l ++ [x])) =
            csEvmGetHandler etype (installAll bytes l) := by
        intro etype hetype
        rw [csEvmGetHandler, hinstall, OrdTable.find?_insert_of_ne (by exact hetype), csEvmGetHandler]
      refine ⟨fun i hi => ?_, fun etype => ?_, fun l' y heq => ?_⟩
      · rw [hinstall] at hi
        rcases (OrdTable.mem_insert (by exact hnew)).1 hi with rfl | hi
        · exact ⟨_, rfl⟩
        · exact hlast.entries i hi
      · by_cases hetype : etype = x.1
        · subst hetype
          have hfind : (installAll bytes (l ++ [x])).find? x.1 =
              some (.entry { handler := x.2, etype := x.1 }) := by
            rw [hinstall]
            exact OrdTable.find?_insert_self (by exact hnew)
          rw [lastInstalled_append_self, csEvmGetHandler, hfind]
          rfl
        · rw [hothers etype hetype, lastInstalled_append_of_ne hetype]
          exact hlast.latest etype
      · obtain ⟨hl', hy⟩ := List.append_inj' heq rfl
        have hxy : x = y := by simpa using hy
        rw [← hl', ← hxy]
        exact hothers

/-- A type installed twice leaves code in the table. -/
theorem code_of_repeated (hne : ∀ x ∈ l, x.1 ≠ "") (hl : ¬ (l.map Prod.fst).Nodup) :
    ∃ c, EhItem.code c ∈ (installAll bytes l).items := by
  induction l using List.reverseRecOn with
  | nil => simp at hl
  | append_singleton l x ih =>
      have hne' : ∀ y ∈ l, y.1 ≠ "" := fun y hy => hne y (by simp [hy])
      rw [installAll_append]
      by_cases hold : (l.map Prod.fst).Nodup
      · have hmem : x.1 ∈ l.map Prod.fst := by
          by_contra hmem
          apply hl
          rw [List.map_append, List.nodup_append]
          refine ⟨hold, by simp, fun a ha b hb hab => hmem ?_⟩
          have hbx : b = x.1 := by simpa using hb
          rw [← hbx, ← hab]
          exact ha
        have hlast : LastWins bytes l := lastWins_of_nodup hne' hold
        have hget := hlast.latest x.1
        cases hfind : (installAll bytes l).find? x.1 with
        | none =>
            rw [csEvmGetHandler, hfind] at hget
            exact absurd hmem (lastInstalled_eq_none.1 hget.symm)
        | some i =>
            rw [install_again (hne x (by simp)) hfind]
            exact ⟨x.2, OrdTable.mem_replace.2 (Or.inl rfl)⟩
      · exact install_code (ih hne' hold)

end Installations

/-- **The last installation wins exactly while no type is installed twice**, whatever the
code of a handler reads as. -/
theorem install_last_wins (bytes : η → CsEventHandlerEntry η) (l : List (String × η))
    (hne : ∀ x ∈ l, x.1 ≠ "") : LastWins bytes l ↔ (l.map Prod.fst).Nodup := by
  refine ⟨fun h => ?_, lastWins_of_nodup hne⟩
  by_contra hl
  obtain ⟨c, hc⟩ : ∃ c, EhItem.code c ∈ (installAll bytes l).items := code_of_repeated hne hl
  obtain ⟨e, he⟩ := h.entries _ hc
  cases he

/-- Two types, installed once each. -/
theorem install_last_wins_two : (∀ x ∈ [("birth", 0), ("death", 1)], x.1 ≠ "") ∧
    (LastWins (fun h : Nat => { handler := h, etype := "" }) [("birth", 0), ("death", 1)] ↔
      ([("birth", 0), ("death", 1)].map Prod.fst).Nodup) :=
  ⟨by decide, install_last_wins _ _ (by decide)⟩

/-- The second installation of a type is lost even if its comparisons return: the first handler is still found, and
the tree has an item that is no entry. -/
theorem reinstall_stores_code :
    ¬ LastWins (fun h : Nat => { handler := h, etype := "" }) [("tick", 0), ("tick", 1)] := by
  intro h
  have hlast := h.latest "tick"
  revert hlast
  decide

end ComplexSim.Events
