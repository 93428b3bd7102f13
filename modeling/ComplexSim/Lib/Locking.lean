import Mathlib.Data.List.Basic
import Mathlib.Logic.Function.Basic

/-!
# Programs that lock and unlock

A program locks and unlocks mutexes, and makes calls whose replies it does not know. A path of it is what one
thread does with it, for one reply to each call; the process may end in a call. The thread may hold mutexes
already when it begins. A path is in balance if it gives back what it takes, and never more.

`wp` is the weakest precondition over what the program itself holds. A program is neutral (`Neutral`) if it
holds in the end what it held before, whatever that is; every path of a neutral program is in balance
(`Neutral.inBalance`). Both may be relative to a condition on the replies.
-/

namespace ComplexSim.Locking

/-- The calls of a program, and what they may reply. -/
structure Interface where
  Call : Type
  Reply : Call → Type

/-- A program over the mutexes `M`. `fault` ends the process. -/
inductive Prog (M : Type) (I : Interface) (α : Type) where
  | ret (a : α)
  | lock (m : M) (k : Int → Prog M I α)
  | unlock (m : M) (k : Int → Prog M I α)
  | call (c : I.Call) (k : I.Reply c → Prog M I α)
  | fault

variable {M : Type} {I : Interface} {α β : Type}

namespace Prog

def bind (p : Prog M I α) (f : α → Prog M I β) : Prog M I β :=
  match p with
  | ret a => f a
  | lock m k => lock m fun r => (k r).bind f
  | unlock m k => unlock m fun r => (k r).bind f
  | call c k => call c fun r => (k r).bind f
  | fault => fault

instance : Monad (Prog M I) where
  pure := ret
  bind := bind

end Prog

/-- `pthread_mutex_lock`. -/
def lock (m : M) : Prog M I Int := .lock m .ret

/-- `pthread_mutex_unlock`. -/
def unlock (m : M) : Prog M I Int := .unlock m .ret

def call (c : I.Call) : Prog M I (I.Reply c) := .call c .ret

/-- The process ends here. -/
def fault : Prog M I α := .fault

/-- What can be seen of a path. -/
inductive Event (M : Type) (I : Interface) where
  | lock (m : M)
  | unlock (m : M)
  | call (c : I.Call) (r : I.Reply c)

/-- The condition on the replies is met all along. -/
def Admits (ok : (c : I.Call) → I.Reply c → Prop) (tr : List (Event M I)) : Prop := ∀ c r, .call c r ∈ tr → ok c r

theorem Admits.tail {ok : (c : I.Call) → I.Reply c → Prop} {x : Event M I} {tr : List (Event M I)}
    (h : Admits ok (x :: tr)) : Admits ok tr := fun c r hr => h c r (List.mem_cons_of_mem _ hr)

/-- Any reply but that of the event `x`. -/
def Other (x : Event M I) (c : I.Call) (r : I.Reply c) : Prop := .call c r ≠ x

theorem admits_other {x : Event M I} {tr : List (Event M I)} (hx : x ∉ tr) : Admits (Other x) tr :=
  fun _ _ hr heq => hx (heq ▸ hr)

/-- How often each mutex is held. -/
abbrev Counts (M : Type) := M → Nat

section Counts

variable [DecidableEq M]

def push (own : Counts M) (m : M) : Counts M := Function.update own m (own m + 1)

def pop (own : Counts M) (m : M) : Counts M := Function.update own m (own m - 1)

@[simp] theorem pop_push (own : Counts M) (m : M) : pop (push own m) m = own := by simp [pop, push]

@[simp] theorem push_self (own : Counts M) (m : M) : push own m m = own m + 1 := by simp [push]

/-- How often a path locks the mutex `m`. -/
def locks (tr : List (Event M I)) (m : M) : Nat :=
  tr.countP fun
    | .lock m' => m' = m
    | _ => false

/-- How often a path unlocks the mutex `m`. -/
def unlocks (tr : List (Event M I)) (m : M) : Nat :=
  tr.countP fun
    | .unlock m' => m' = m
    | _ => false

/-- What a thread that holds `h` does with a program, and what it holds then; the result is `none` if the process
ends. A recursive mutex may be locked again, and an unlock of a mutex that is not held is refused with an error. -/
inductive Path (recursive : M → Prop) : Counts M → Prog M I α → List (Event M I) → Counts M → Option α → Prop where
  | ret (h : Counts M) (a : α) : Path recursive h (.ret a) [] h (some a)
  | fault (h : Counts M) : Path recursive h .fault [] h none
  | lock {h h' : Counts M} {m : M} {k : Int → Prog M I α} {tr : List (Event M I)} {e : Option α}
      (hfree : recursive m ∨ h m = 0) (hk : Path recursive (push h m) (k 0) tr h' e) :
      Path recursive h (.lock m k) (.lock m :: tr) h' e
  | unlock {h h' : Counts M} {m : M} {k : Int → Prog M I α} {tr : List (Event M I)} {e : Option α}
      (hheld : 0 < h m) (hk : Path recursive (pop h m) (k 0) tr h' e) :
      Path recursive h (.unlock m k) (.unlock m :: tr) h' e
  | refused {h h' : Counts M} {m : M} {k : Int → Prog M I α} {tr : List (Event M I)} {e : Option α}
      (hnot : h m = 0) (hk : Path recursive h (k 1) tr h' e) :
      Path recursive h (.unlock m k) (.unlock m :: tr) h' e
  | call {h h' : Counts M} {c : I.Call} {k : I.Reply c → Prog M I α} (r : I.Reply c) {tr : List (Event M I)}
      {e : Option α} (hk : Path recursive h (k r) tr h' e) : Path recursive h (.call c k) (.call c r :: tr) h' e
  | ends (h : Counts M) (c : I.Call) (k : I.Reply c → Prog M I α) : Path recursive h (.call c k) [] h none

/-- A path is in balance: it never unlocks what it has not locked, and when the program returns each mutex has been
unlocked as often as locked, and the thread holds what it held before. -/
structure InBalance (h : Counts M) (tr : List (Event M I)) (h' : Counts M) (e : Option α) : Prop where
  never : ∀ pre, pre <+: tr → ∀ m, unlocks pre m ≤ locks pre m
  equal : e.isSome → ∀ m, unlocks tr m = locks tr m
  kept : e.isSome → h' = h

/-- `Q` holds wherever the program returns, of the result and of what the program holds then; it does not unlock
what it does not hold. The replies are those that `ok` admits. -/
def wp (ok : (c : I.Call) → I.Reply c → Prop) : Prog M I α → (α → Counts M → Prop) → Counts M → Prop
  | .ret a, Q, own => Q a own
  | .lock m k, Q, own => wp ok (k 0) Q (push own m)
  | .unlock m k, Q, own => 0 < own m ∧ wp ok (k 0) Q (pop own m)
  | .call c k, Q, own => ∀ r, ok c r → wp ok (k r) Q own
  | .fault, _, _ => True

/-- The program holds in the end what it held before. -/
def Neutral (ok : (c : I.Call) → I.Reply c → Prop) (p : Prog M I α) : Prop :=
  ∀ own, wp ok p (fun _ own' => own' = own) own

variable {ok : (c : I.Call) → I.Reply c → Prop} {p : Prog M I α} {f : α → Prog M I β}
  {Q : α → Counts M → Prop} {R : β → Counts M → Prop} {own : Counts M} {m : M}

@[simp] theorem wp_pure (a : α) : wp ok (pure a) Q own ↔ Q a own := Iff.rfl

@[simp] theorem wp_fault : wp ok fault Q own ↔ True := Iff.rfl

@[simp] theorem wp_lock_bind {f : Int → Prog M I β} : wp ok (lock m >>= f) R own ↔ wp ok (f 0) R (push own m) := Iff.rfl

@[simp] theorem wp_unlock_bind {f : Int → Prog M I β} :
    wp ok (unlock m >>= f) R own ↔ 0 < own m ∧ wp ok (f 0) R (pop own m) := Iff.rfl

@[simp] theorem wp_call_bind {c : I.Call} {f : I.Reply c → Prog M I β} :
    wp ok (call c >>= f) R own ↔ ∀ r, ok c r → wp ok (f r) R own := Iff.rfl

@[simp] theorem wp_ite {b : Prop} [Decidable b] {p q : Prog M I α} :
    wp ok (if b then p else q) Q own ↔ (b → wp ok p Q own) ∧ (¬ b → wp ok q Q own) := by
  by_cases hb : b <;> simp [hb]

theorem wp_bind : wp ok (p >>= f) R own ↔ wp ok p (fun a own' => wp ok (f a) R own') own := by
  show wp ok (p.bind f) R own ↔ _
  induction p generalizing own with
  | ret a => rfl
  | fault => rfl
  | lock m k ih => exact ih 0
  | unlock m k ih => exact and_congr_right fun _ => ih 0
  | call c k ih => exact forall_congr' fun r => imp_congr_right fun _ => ih r

theorem wp_mono {Q' : α → Counts M → Prop} (hQ : ∀ a own, Q a own → Q' a own) (h : wp ok p Q own) : wp ok p Q' own := by
  induction p generalizing own with
  | ret a => exact hQ a own h
  | fault => trivial
  | lock m k ih => exact ih 0 h
  | unlock m k ih => exact ⟨h.1, ih 0 h.2⟩
  | call c k ih => exact fun r hr => ih r (h r hr)

/-- A neutral program is passed over. -/
theorem Neutral.bind (hp : Neutral ok p) (hf : ∀ a, wp ok (f a) R own) : wp ok (p >>= f) R own := by
  refine wp_bind.2 (wp_mono (fun a own' h => ?_) (hp own))
  subst h
  exact hf a

theorem locks_cons (x : Event M I) (tr : List (Event M I)) (m : M) : locks (x :: tr) m = locks tr m + locks [x] m := by
  simp [locks, List.countP_cons]

theorem unlocks_cons (x : Event M I) (tr : List (Event M I)) (m : M) :
    unlocks (x :: tr) m = unlocks tr m + unlocks [x] m := by
  simp [unlocks, List.countP_cons]

theorem locks_append (tr tr' : List (Event M I)) (m : M) : locks (tr ++ tr') m = locks tr m + locks tr' m :=
  List.countP_append ..

theorem unlocks_append (tr tr' : List (Event M I)) (m : M) : unlocks (tr ++ tr') m = unlocks tr m + unlocks tr' m :=
  List.countP_append ..

theorem push_eq (own : Counts M) (m m' : M) : push own m m' = own m' + locks [.lock m (I := I)] m' := by
  by_cases hm : m' = m
  · subst hm
    simp [push, locks]
  · simp [push, locks, hm, Ne.symm hm]

theorem pop_eq (own : Counts M) {m : M} (hm : 0 < own m) (m' : M) :
    pop own m m' + unlocks [.unlock m (I := I)] m' = own m' := by
  by_cases hm' : m' = m
  · subst hm'
    simp [pop, unlocks]
    omega
  · simp [pop, unlocks, hm', Ne.symm hm']

theorem Neutral.seq (hp : Neutral ok p) (hf : ∀ a, Neutral ok (f a)) : Neutral ok (p >>= f) :=
  fun own => hp.bind fun a => hf a own

/-- The account of a path: the program, which held `own`, never unlocks what it does not hold, and where it returns it
holds what it has locked and not unlocked; the thread holds that and `c`. -/
structure Accounts (Q : α → Counts M → Prop) (c own : Counts M) (tr : List (Event M I)) (h' : Counts M) (e : Option α) :
    Prop where
  never : ∀ pre, pre <+: tr → ∀ m, unlocks pre m ≤ own m + locks pre m
  returned : ∀ a, e = some a → ∃ own', Q a own' ∧ (∀ m, h' m = c m + own' m) ∧
    ∀ m, own' m + unlocks tr m = own m + locks tr m

section Accounts

variable {c h' own₁ : Counts M} {tr : List (Event M I)} {e : Option α} {x : Event M I}

theorem never_nil : ∀ pre, pre <+: ([] : List (Event M I)) → ∀ m, unlocks pre m ≤ own m + locks pre m := by
  intro pre hpre m
  obtain rfl := List.prefix_nil.1 hpre
  exact Nat.zero_le _

theorem Accounts.pure {a : α} (hQ : Q a own) (hh : ∀ m, h' m = c m + own m) :
    Accounts Q c own ([] : List (Event M I)) h' (some a) := by
  refine ⟨never_nil, fun b hb => ?_⟩
  cases hb
  exact ⟨own, hQ, hh, fun m => rfl⟩

/-- The account where `x` comes first, which turns `own` into `own₁`. -/
theorem Accounts.cons (h : Accounts Q c own₁ tr h' e)
    (hx : ∀ m, own₁ m + unlocks [x] m = own m + locks [x] m) : Accounts Q c own (x :: tr) h' e := by
  constructor
  · intro pre hpre m
    rcases List.prefix_cons_iff.1 hpre with rfl | ⟨rest, rfl, hrest⟩
    · exact Nat.zero_le _
    · have hx := hx m
      have hrest := h.never rest hrest m
      rw [locks_cons, unlocks_cons]
      omega
  · intro a ha
    obtain ⟨own', hQ, hh', hcount⟩ := h.returned a ha
    refine ⟨own', hQ, hh', fun m => ?_⟩
    have hx := hx m
    have hcount := hcount m
    rw [locks_cons, unlocks_cons]
    omega

end Accounts

/-- **Soundness**: a thread that holds `c` besides what the program holds, on a path whose replies are admitted. -/
theorem Path.sound {recursive : M → Prop} {h h' c : Counts M} {tr : List (Event M I)} {e : Option α}
    (hpath : Path recursive h p tr h' e) (hh : ∀ m, h m = c m + own m) (hwp : wp ok p Q own) (hok : Admits ok tr) :
    Accounts Q c own tr h' e := by
  induction hpath generalizing own with
  | ret h a => exact .pure hwp hh
  | fault h | ends h c' k => exact ⟨never_nil, fun a ha => by cases ha⟩
  | @lock h h' m k tr e hfree hk ih =>
      have hheld : ∀ m', push h m m' = c m' + push own m m' := fun m' => by
        rw [push_eq (I := I), push_eq (I := I), hh]
        omega
      refine (ih hheld hwp hok.tail).cons fun m' => ?_
      rw [push_eq (I := I)]
      rfl
  | @unlock h h' m k tr e hheld hk ih =>
      obtain ⟨hown, hrest⟩ := hwp
      have hleft : ∀ m', pop h m m' = c m' + pop own m m' := fun m' => by
        have hpop := pop_eq (I := I) h hheld m'
        have hpop' := pop_eq (I := I) own hown m'
        have hh := hh m'
        omega
      refine (ih hleft hrest hok.tail).cons fun m' => ?_
      rw [pop_eq own hown]
      rfl
  | @refused h h' m k tr e hnot hk ih =>
      -- the thread holds at least what the program holds
      have hown := hwp.1
      have hm := hh m
      omega
  | @call h h' c' k r tr e hk ih =>
      exact (ih hh (hwp r (hok c' r List.mem_cons_self)) hok.tail).cons fun m' => rfl

/-- **The paths of a neutral program are in balance.** -/
theorem Neutral.inBalance {recursive : M → Prop} {h h' : Counts M} {tr : List (Event M I)} {e : Option α}
    (hp : Neutral ok p) (hpath : Path recursive h p tr h' e) (hok : Admits ok tr) : InBalance h tr h' e := by
  -- at first the program holds nothing
  have hnone : ∀ m, h m = h m + (fun _ : M => 0) m := fun _ => rfl
  have haccounts := hpath.sound hnone (hp _) hok
  have hend : ∀ he : e.isSome, (∀ m, unlocks tr m = locks tr m) ∧ h' = h := by
    intro he
    obtain ⟨own', rfl, hh', hcount⟩ := haccounts.returned (e.get he) (Option.some_get he).symm
    exact ⟨fun m => by simpa using hcount m, funext hh'⟩
  exact ⟨fun pre hpre m => by simpa using haccounts.never pre hpre m, fun he => (hend he).1, fun he => (hend he).2⟩

/-- A path through a sequence goes to the end of the first program, and through the second from there; or the
process ends in the first. -/
theorem Path.bind_cases {recursive : M → Prop} {h h' : Counts M} {tr : List (Event M I)} {e : Option β}
    (hpath : Path recursive h (p >>= f) tr h' e) :
    (∃ h₁ a tr₁ tr₂, Path recursive h p tr₁ h₁ (some a) ∧ Path recursive h₁ (f a) tr₂ h' e ∧ tr = tr₁ ++ tr₂) ∨
      (e = none ∧ Path recursive h p tr h' none) := by
  change Path recursive h (p.bind f) tr h' e at hpath
  induction p generalizing h tr with
  | ret a => exact Or.inl ⟨h, a, [], tr, .ret h a, hpath, rfl⟩
  | fault =>
      cases hpath
      exact Or.inr ⟨rfl, .fault _⟩
  | lock m k ih =>
      cases hpath with
      | lock hfree hk =>
          rcases ih 0 hk with ⟨h₁, a, tr₁, tr₂, hp, hf, rfl⟩ | ⟨rfl, hp⟩
          · exact Or.inl ⟨h₁, a, _, tr₂, .lock hfree hp, hf, rfl⟩
          · exact Or.inr ⟨rfl, .lock hfree hp⟩
  | unlock m k ih =>
      cases hpath with
      | unlock hheld hk =>
          rcases ih 0 hk with ⟨h₁, a, tr₁, tr₂, hp, hf, rfl⟩ | ⟨rfl, hp⟩
          · exact Or.inl ⟨h₁, a, _, tr₂, .unlock hheld hp, hf, rfl⟩
          · exact Or.inr ⟨rfl, .unlock hheld hp⟩
      | refused hnot hk =>
          rcases ih 1 hk with ⟨h₁, a, tr₁, tr₂, hp, hf, rfl⟩ | ⟨rfl, hp⟩
          · exact Or.inl ⟨h₁, a, _, tr₂, .refused hnot hp, hf, rfl⟩
          · exact Or.inr ⟨rfl, .refused hnot hp⟩
  | call c k ih =>
      cases hpath with
      | call r hk =>
          rcases ih r hk with ⟨h₁, a, tr₁, tr₂, hp, hf, rfl⟩ | ⟨rfl, hp⟩
          · exact Or.inl ⟨h₁, a, _, tr₂, .call r hp, hf, rfl⟩
          · exact Or.inr ⟨rfl, .call r hp⟩
      | ends => exact Or.inr ⟨rfl, .ends _ c k⟩

/-- A path through a neutral program first, whatever the replies. -/
theorem Neutral.bind_cases {recursive : M → Prop} {h h' : Counts M} {tr : List (Event M I)} {e : Option β}
    (hp : Neutral (fun _ _ => True) p) (hpath : Path recursive h (p >>= f) tr h' e) :
    (∃ a tr₁ tr₂, Path recursive h p tr₁ h (some a) ∧ InBalance h tr₁ h (some a) ∧ Path recursive h (f a) tr₂ h' e ∧
      tr = tr₁ ++ tr₂) ∨ (e = none ∧ Path recursive h p tr h' none) := by
  rcases hpath.bind_cases with ⟨h₁, a, tr₁, tr₂, hfirst, hrest, rfl⟩ | hends
  · have hb := hp.inBalance hfirst fun _ _ _ => trivial
    obtain rfl := hb.kept rfl
    exact Or.inl ⟨a, tr₁, tr₂, hfirst, hb, hrest, rfl⟩
  · exact Or.inr hends

/-- A path that gives back more of a mutex than it takes, after a path in balance, is not in balance. -/
theorem not_inBalance_append {h h₁ h' : Counts M} {tr₁ tr₂ : List (Event M I)} {a : α} {b : β}
    (hfirst : InBalance h tr₁ h₁ (some a)) {m : M} (hm : locks tr₂ m < unlocks tr₂ m) :
    ¬ InBalance h (tr₁ ++ tr₂) h' (some b) := by
  intro hb
  have hequal := hb.equal rfl m
  have hfirst := hfirst.equal rfl m
  rw [locks_append, unlocks_append] at hequal
  omega

section Inversion

variable {recursive : M → Prop} {h h' : Counts M} {tr : List (Event M I)} {e : Option α}

theorem path_pure {a : α} (hpath : Path recursive h (pure a) tr h' e) : tr = [] ∧ h' = h ∧ e = some a := by
  cases hpath
  exact ⟨rfl, rfl, rfl⟩

theorem path_fault (hpath : Path recursive h fault tr h' e) : tr = [] ∧ e = none := by
  cases hpath
  exact ⟨rfl, rfl⟩

theorem path_lock_bind {f : Int → Prog M I α} (hpath : Path recursive h (lock m >>= f) tr h' e) :
    ∃ tr', tr = .lock m :: tr' ∧ Path recursive (push h m) (f 0) tr' h' e := by
  cases hpath with
  | lock _ hk => exact ⟨_, rfl, hk⟩

theorem path_unlock_bind {f : Int → Prog M I α} (hpath : Path recursive h (unlock m >>= f) tr h' e) :
    ∃ r h₁ tr', tr = .unlock m :: tr' ∧ Path recursive h₁ (f r) tr' h' e := by
  cases hpath with
  | unlock _ hk => exact ⟨0, _, _, rfl, hk⟩
  | refused _ hk => exact ⟨1, _, _, rfl, hk⟩

theorem path_call_bind {c : I.Call} {f : I.Reply c → Prog M I α} (hpath : Path recursive h (call c >>= f) tr h' e) :
    (∃ r tr', tr = .call c r :: tr' ∧ Path recursive h (f r) tr' h' e) ∨ (tr = [] ∧ e = none) := by
  cases hpath with
  | call r hk => exact Or.inl ⟨r, _, rfl, hk⟩
  | ends => exact Or.inr ⟨rfl, rfl⟩

end Inversion

/-- The program without its result. -/
def void (p : Prog M I α) : Prog M I Unit := p >>= fun _ => pure ()

theorem Neutral.void (hp : Neutral ok p) : Neutral ok (void p) := fun _ => hp.bind fun _ => rfl

theorem path_void {recursive : M → Prop} {h h' : Counts M} {tr : List (Event M I)} {e : Option Unit}
    (hpath : Path recursive h (void p) tr h' e) :
    ∃ e' : Option α, Path recursive h p tr h' e' ∧ e'.isSome = e.isSome := by
  rcases hpath.bind_cases with ⟨h₁, a, tr₁, tr₂, hp, hrest, rfl⟩ | ⟨rfl, hp⟩
  · cases hrest
    exact ⟨some a, by simpa using hp, rfl⟩
  · exact ⟨none, hp, rfl⟩

/-- Of the result a balance sees no more than whether there is one. -/
theorem inBalance_congr {h h' : Counts M} {tr : List (Event M I)} {e : Option α} {e' : Option β}
    (he : e.isSome = e'.isSome) : InBalance h tr h' e ↔ InBalance h tr h' e' :=
  ⟨fun hb => ⟨hb.never, he ▸ hb.equal, he ▸ hb.kept⟩, fun hb => ⟨hb.never, he ▸ hb.equal, he ▸ hb.kept⟩⟩

/-- The program makes none but the calls in `S`. -/
def Calls (S : I.Call → Prop) : Prog M I α → Prop
  | .ret _ | .fault => True
  | .lock _ k | .unlock _ k => ∀ r, Calls S (k r)
  | .call c k => S c ∧ ∀ r, Calls S (k r)

theorem Path.calls {S : I.Call → Prop} {recursive : M → Prop} {h h' : Counts M} {tr : List (Event M I)} {e : Option α}
    (hpath : Path recursive h p tr h' e) (hp : Calls S p) {c : I.Call} {r : I.Reply c} (hr : .call c r ∈ tr) : S c := by
  induction hpath with
  | ret _ _ | fault _ | ends _ _ _ => cases hr
  | lock _ _ ih => exact ih (hp 0) (by simpa using hr)
  | unlock _ _ ih => exact ih (hp 0) (by simpa using hr)
  | refused _ _ ih => exact ih (hp 1) (by simpa using hr)
  | call r' _ ih =>
      rcases List.mem_cons.1 hr with heq | hr
      · cases heq
        exact hp.1
      · exact ih (hp.2 r') hr

end Counts

end ComplexSim.Locking
