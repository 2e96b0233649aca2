import DocTree.Proofs.Run

/-!
# Loops round by round

A loop repeats a round, which ends it with a result or goes on from another state: the first rounds
go on, and the next one ends the loop or fails; or all that are allowed go on.
-/

namespace DocTree.Run

variable {α σ : Type} {round : σ → Run (α ⊕ σ)} {session : Session} {s s' s₁ s₂ : σ}
  {l l' l₁ l₂ : Ledger} {n fuel : Nat} {outcome : Except Failure α}

/-- A **loop** of at most so many rounds. -/
def rounds (round : σ → Run (α ⊕ σ)) : Nat → σ → Run α
  | 0, _ => fail .outOfFuel
  | fuel + 1, s => do
    match ← round s with
    | .inl a => return a
    | .inr s => rounds round fuel s

/-- So many rounds **go on**, one after the other, from a state and a ledger to others. -/
def Passes (round : σ → Run (α ⊕ σ)) (session : Session) : Nat → σ → Ledger → σ → Ledger → Prop
  | 0, s, l, s', l' => s' = s ∧ l' = l
  | n + 1, s, l, s', l' =>
    ∃ s₁ l₁, (round s).Returns session l (.inr s₁) l₁ ∧ Passes round session n s₁ l₁ s' l'

/-- After so many rounds that go on, the next one **ends** the loop with an outcome. -/
def EndsAfter (round : σ → Run (α ⊕ σ)) (session : Session) (n : Nat) (s : σ) (l : Ledger)
    (outcome : Except Failure α) (l' : Ledger) : Prop :=
  ∃ s₁ l₁, Passes round session n s l s₁ l₁ ∧
    (round s₁).execute session l₁ = (outcome.map .inl, l')

/-- **How a loop ends**: with the first round that does not go on, or because all that are allowed
go on. -/
def Ends (round : σ → Run (α ⊕ σ)) (session : Session) (fuel : Nat) (s : σ) (l : Ledger)
    (outcome : Except Failure α) (l' : Ledger) : Prop :=
  (∃ n < fuel, EndsAfter round session n s l outcome l') ∨
    (outcome = .error .outOfFuel ∧ ∃ s', Passes round session fuel s l s' l')

/-- A loop that ends later goes on first. -/
theorem endsAfter_succ_iff :
    EndsAfter round session (n + 1) s l outcome l' ↔
      ∃ s₁ l₁, (round s).Returns session l (.inr s₁) l₁ ∧
        EndsAfter round session n s₁ l₁ outcome l' := by
  constructor
  · rintro ⟨s₂, l₂, ⟨s₁, l₁, hround, hpasses⟩, hend⟩
    exact ⟨s₁, l₁, hround, s₂, l₂, hpasses, hend⟩
  · rintro ⟨s₁, l₁, hround, s₂, l₂, hpasses, hend⟩
    exact ⟨s₂, l₂, ⟨s₁, l₁, hround, hpasses⟩, hend⟩

/-- A loop whose first round goes on ends as it does from there. -/
theorem ends_succ_iff_of_returns (hround : (round s).Returns session l (.inr s₁) l₁) :
    Ends round session (fuel + 1) s l outcome l' ↔
      Ends round session fuel s₁ l₁ outcome l' := by
  have hfirst : ∀ {s₂ l₂}, (round s).Returns session l (.inr s₂) l₂ → s₂ = s₁ ∧ l₂ = l₁ := by
    intro s₂ l₂ h
    obtain ⟨hs, hl⟩ := h.unique hround
    exact ⟨Sum.inr.inj hs, hl⟩
  constructor
  · rintro (⟨n, hn, hends⟩ | ⟨hfuel, s', s₂, l₂, h, hpasses⟩)
    · cases n with
      | zero =>
        obtain ⟨s₂, l₂, ⟨rfl, rfl⟩, hend⟩ := hends
        have heq := hend.symm.trans hround
        cases outcome <;> cases heq
      | succ n =>
        obtain ⟨s₂, l₂, h, hends⟩ := endsAfter_succ_iff.mp hends
        obtain ⟨rfl, rfl⟩ := hfirst h
        exact .inl ⟨n, Nat.lt_of_succ_lt_succ hn, hends⟩
    · obtain ⟨rfl, rfl⟩ := hfirst h
      exact .inr ⟨hfuel, s', hpasses⟩
  · rintro (⟨n, hn, hends⟩ | ⟨hfuel, s', hpasses⟩)
    · exact .inl ⟨n + 1, Nat.succ_lt_succ hn, endsAfter_succ_iff.mpr ⟨s₁, l₁, hround, hends⟩⟩
    · exact .inr ⟨hfuel, s', s₁, l₁, hround, hpasses⟩

/-- A loop whose first round does not go on ends with it. -/
theorem ends_succ_iff_of_execute (first : Except Failure α)
    (hround : (round s).execute session l = (first.map .inl, l₁)) :
    Ends round session (fuel + 1) s l outcome l' ↔ outcome = first ∧ l' = l₁ := by
  have hnot : ∀ {s₂ l₂}, ¬ (round s).Returns session l (.inr s₂) l₂ := by
    intro s₂ l₂ h
    have heq := hround.symm.trans h
    cases first <;> cases heq
  constructor
  · rintro (⟨n, -, hends⟩ | ⟨-, s', s₂, l₂, h, -⟩)
    · cases n with
      | zero =>
        obtain ⟨s₂, l₂, ⟨rfl, rfl⟩, hend⟩ := hends
        obtain ⟨houtcome, rfl⟩ := Prod.mk.inj (hend.symm.trans hround)
        refine ⟨?_, rfl⟩
        cases outcome <;> cases first <;> cases houtcome <;> rfl
      | succ n =>
        obtain ⟨s₂, l₂, h, -⟩ := endsAfter_succ_iff.mp hends
        exact absurd h hnot
    · exact absurd h hnot
  · rintro ⟨rfl, rfl⟩
    exact .inl ⟨0, Nat.succ_pos fuel, s, l, ⟨rfl, rfl⟩, hround⟩

/-- **A loop ends with its first round that does not go on**, or with the last one. -/
theorem execute_rounds_iff :
    (rounds round fuel s).execute session l = (outcome, l') ↔
      Ends round session fuel s l outcome l' := by
  induction fuel generalizing s l with
  | zero =>
    constructor
    · rintro ⟨⟩
      exact .inr ⟨rfl, s, rfl, rfl⟩
    · rintro (⟨n, hn, -⟩ | ⟨rfl, s', rfl, rfl⟩)
      · cases hn
      · rfl
  | succ fuel ih =>
    rw [rounds, execute_bind]
    rcases hround : (round s).execute session l with ⟨why | a | s₁, l₁⟩
    · rw [ends_succ_iff_of_execute (.error why) hround, Prod.mk.injEq, eq_comm, eq_comm (a := l₁)]
    · rw [ends_succ_iff_of_execute (.ok a) hround]
      change (Except.ok a, l₁) = (outcome, l') ↔ _
      rw [Prod.mk.injEq, eq_comm, eq_comm (a := l₁)]
    · rw [ends_succ_iff_of_returns hround]
      exact ih

/-- What **every round keeps** holds of the state in every round. -/
theorem Passes.invariant {p : σ → Prop} (h : Passes round session n s l s' l')
    (hround : ∀ {m s₁ l₁ s₂ l₂}, m < n → Passes round session m s l s₁ l₁ →
      (round s₁).Returns session l₁ (.inr s₂) l₂ → p s₁ → p s₂) (hs : p s) : p s' := by
  induction n generalizing s l with
  | zero => exact h.1 ▸ hs
  | succ n ih =>
    obtain ⟨s₁, l₁, hfirst, h⟩ := h
    refine ih h (fun {m} _ _ _ _ hlt hm => ?_) (hround (m := 0) n.succ_pos ⟨rfl, rfl⟩ hfirst hs)
    exact hround (m := m + 1) (Nat.succ_lt_succ hlt) ⟨s₁, l₁, hfirst, hm⟩

/-- Rounds that go on make the requests of each of them. -/
theorem Passes.requests {a b : Nat} (hround : ∀ {s l s₁ l₁},
      (round s).Returns session l (.inr s₁) l₁ →
        l.requests.length + a ≤ l₁.requests.length ∧ l₁.requests.length ≤ l.requests.length + b)
    (h : Passes round session n s l s' l') :
    l.requests.length + a * n ≤ l'.requests.length ∧
      l'.requests.length ≤ l.requests.length + b * n := by
  induction n generalizing s l with
  | zero =>
    obtain ⟨-, rfl⟩ := h
    exact ⟨Nat.le_refl _, Nat.le_refl _⟩
  | succ n ih =>
    obtain ⟨s₁, l₁, hfirst, h⟩ := h
    obtain ⟨hleast, hmost⟩ := hround hfirst
    obtain ⟨ihleast, ihmost⟩ := ih h
    rw [Nat.mul_succ, Nat.mul_succ]
    omega

/-! ### Numbers of requests -/

/-- In a session, some work **asks** at least and at most so many times before it returns. -/
def Asks (session : Session) (least most : Nat) (work : Run α) : Prop :=
  ∀ l a l', work.Returns session l a l' →
    l.requests.length + least ≤ l'.requests.length ∧ l'.requests.length ≤ l.requests.length + most

/-- A pure value asks nothing. -/
theorem asks_pure (a : α) : Asks session 0 0 (pure a) := by
  intro l b l' h
  obtain ⟨-, rfl⟩ := returns_pure_iff.mp h
  exact ⟨Nat.le_refl _, Nat.le_refl _⟩

/-- A pure result asks nothing. -/
theorem asks_lift (result : Except Failure α) : Asks session 0 0 (liftM result : Run α) := by
  intro l a l' h
  obtain ⟨-, rfl⟩ := returns_lift_iff.mp h
  exact ⟨Nat.le_refl _, Nat.le_refl _⟩

/-- The numbers of requests add up. -/
theorem Asks.bind {β : Type} {a b c d : Nat} {work : Run α} {next : α → Run β}
    (h : Asks session a b work) (hnext : ∀ x, Asks session c d (next x)) :
    Asks session (a + c) (b + d) (work >>= next) := by
  intro l y l' hy
  obtain ⟨x, _, hx, hy⟩ := hy.of_bind
  have hfirst := h _ _ _ hx
  have hsecond := hnext x _ _ _ hy
  omega

/-- The bounds may be weakened. -/
theorem Asks.mono {a b c d : Nat} {work : Run α} (h : Asks session a b work) (hca : c ≤ a)
    (hbd : b ≤ d) : Asks session c d work := by
  intro l x l' hx
  have hx := h l x l' hx
  omega

end DocTree.Run
