import DocTree.Session
import Mathlib.Data.List.Forall2

/-!
# What work in a session returns

Work **returns** a value if it ends without a failure. Each way of putting work together has one
law: what the whole returns, in terms of what the parts return, with the ledgers between them.
-/

namespace DocTree.Run

open List

variable {α β γ : Type} {session : Session} {l l' : Ledger} {a : α} {b : β} {as : List α}
  {bs : List β} {work : Run α} {next : α → Run β} {f : α → Run β} {R : α → β → Prop}

/-- In a session and from a ledger, some work **returns** a value and leaves another ledger. -/
def Returns (work : Run α) (session : Session) (l : Ledger) (a : α) (l' : Ledger) :
    Prop :=
  work.execute session l = (.ok a, l')

/-- Work returns at most one value. -/
theorem Returns.unique {a b : α} {l₁ l₂ : Ledger} (h₁ : work.Returns session l a l₁)
    (h₂ : work.Returns session l b l₂) :
    a = b ∧ l₁ = l₂ := by
  have h := h₁.symm.trans h₂
  rw [Prod.mk.injEq, Except.ok.injEq] at h
  exact h

/-- Work whose outcome is known returns. -/
theorem returns_of_outcome (h : (work.execute session l).1 = .ok a) :
    work.Returns session l a (work.execute session l).2 :=
  Prod.ext h rfl

/-- Work whose outcome has a known part returns something with that part. -/
theorem returns_of_map_outcome {f : α → β} (h : (work.execute session l).1.map f = .ok b) :
    ∃ a l', work.Returns session l a l' ∧ f a = b := by
  cases houtcome : (work.execute session l).1 with
  | error why =>
    rw [houtcome] at h
    cases h
  | ok a =>
    rw [houtcome] at h
    exact ⟨a, _, returns_of_outcome houtcome, Except.ok.inj h⟩

/-- The session whose model gives some texts one after the other, and empty texts after them. -/
def scripted (texts : List String) : Session where
  model := fun requests => .answer (.str (texts.getD (requests.length - 1) "")) (.str "stop")
  nesting := 9

/-! ### Single steps -/

/-- A pure value is returned as it is. -/
theorem returns_pure_iff {a b : α} :
    Returns (pure a) session l b l' ↔ b = a ∧ l' = l := by
  constructor
  · intro h
    cases h
    exact ⟨rfl, rfl⟩
  · rintro ⟨rfl, rfl⟩
    rfl

/-- A pure result is returned exactly if it is not a failure, and the ledger stays as it is. -/
theorem returns_lift_iff {result : Except Failure α} :
    Returns (liftM result) session l a l' ↔ result = .ok a ∧ l' = l := by
  constructor
  · intro h
    have h' : (result, l) = (Except.ok a, l') := h
    rw [Prod.mk.injEq] at h'
    exact ⟨h'.1, h'.2.symm⟩
  · rintro ⟨rfl, rfl⟩
    rfl

/-- A pure result that succeeds is returned. -/
theorem returns_lift {result : Except Failure α} (h : result = .ok a) :
    Returns (liftM result) session l a l :=
  returns_lift_iff.mpr ⟨h, rfl⟩

/-- A pure result that is returned has succeeded. -/
theorem Returns.of_lift {result : Except Failure α}
    (h : Returns (liftM result) session l a l') : result = .ok a :=
  (returns_lift_iff.mp h).1

/-- After a success, work goes on with its value. -/
theorem lift_ok_bind (a : α) (next : α → Run β) :
    (liftM (Except.ok a : Except Failure α) >>= next) = next a := rfl

/-- After a failure, work does not go on. -/
theorem lift_error_bind (why : Failure) (next : α → Run β) :
    (liftM (Except.error why : Except Failure α) >>= next) = fail why := rfl

/-- Work that fails returns nothing. -/
theorem not_returns_fail {why : Failure} :
    ¬ Returns (fail why) session l a l' := by
  intro h
  cases h

/-- The outcome of one piece of work after another. -/
theorem execute_bind (work : Run α) (next : α → Run β) (session : Session) (l : Ledger) :
    (work >>= next).execute session l =
      match work.execute session l with
      | (.ok a, between) => (next a).execute session between
      | (.error why, between) => (.error why, between) := by
  simp only [execute, bind, ReaderT.bind, ExceptT.bind, ExceptT.mk, StateT.bind, ExceptT.bindCont]
  rcases work session l with ⟨_ | _, _⟩ <;> rfl

/-- Work goes on with what was returned before it. -/
theorem execute_bind_of_returns {between : Ledger} (h : work.Returns session l a between) :
    (work >>= next).execute session l = (next a).execute session between := by
  rw [Returns] at h
  rw [execute_bind, h]

/-- A failure ends all work. -/
theorem execute_bind_of_error {why : Failure}
    (h : work.execute session l = (.error why, l')) :
    (work >>= next).execute session l = (.error why, l') := by
  rw [execute_bind, h]

/-- **One piece of work after another**: the second starts where the first left the ledger. -/
theorem returns_bind_iff :
    Returns (work >>= next) session l b l' ↔
      ∃ a between, work.Returns session l a between ∧
        (next a).Returns session between b l' := by
  rw [Returns, execute_bind]
  constructor
  · intro h
    rcases hw : work.execute session l with ⟨why | a, between⟩
    · rw [hw] at h
      cases h
    · rw [hw] at h
      exact ⟨a, between, hw, h⟩
  · rintro ⟨a, between, hw, hn⟩
    rw [Returns] at hw
    rw [hw]
    exact hn

/-- The parts of work that returns do return. -/
theorem Returns.of_bind (h : Returns (work >>= next) session l b l') :
    ∃ a between,
      work.Returns session l a between ∧ (next a).Returns session between b l' :=
  returns_bind_iff.mp h

/-- Work returns if its parts do. -/
theorem Returns.bind {between : Ledger} (h : work.Returns session l a between)
    (hnext : (next a).Returns session between b l') :
    Returns (work >>= next) session l b l' :=
  returns_bind_iff.mpr ⟨a, between, h, hnext⟩

/-- Where the ledger at the end does not matter, work returns if its parts do. -/
theorem exists_returns_bind {between : Ledger} (hwork : work.Returns session l a between)
    (hnext : ∃ l', (next a).Returns session between b l') :
    ∃ l', Returns (work >>= next) session l b l' := by
  obtain ⟨l', hnext⟩ := hnext
  exact ⟨l', hwork.bind hnext⟩

/-- What is returned may be mapped afterwards. -/
theorem returns_map_iff {f : α → β} :
    Returns (f <$> work) session l b l' ↔
      ∃ a, work.Returns session l a l' ∧ f a = b := by
  rw [map_eq_pure_bind, returns_bind_iff]
  constructor
  · rintro ⟨a, between, hwork, h⟩
    cases h
    exact ⟨a, hwork, rfl⟩
  · rintro ⟨a, hwork, rfl⟩
    exact ⟨a, l', hwork, rfl⟩

/-- A mapped value is returned. -/
theorem Returns.map (f : α → β) (h : work.Returns session l a l') :
    Returns (f <$> work) session l (f a) l' :=
  returns_map_iff.mpr ⟨a, h, rfl⟩

/-- An attempt never fails. -/
theorem execute_attempt (work : Run α) (session : Session) (l : Ledger) :
    (attempt work).execute session l =
      (.ok (work.execute session l).1, (work.execute session l).2) := by
  simp only [attempt, execute, bind, ReaderT.bind, ExceptT.bind, ExceptT.mk, StateT.bind,
    tryCatch, tryCatchThe, MonadExceptOf.tryCatch, ExceptT.tryCatch]
  rcases work session l with ⟨_ | _, _⟩ <;> rfl

/-- Work whose failure is a result returns the outcome of the work, whatever it is. -/
theorem returns_attempt_iff {outcome : Except Failure α} :
    Returns (attempt work) session l outcome l' ↔
      work.execute session l = (outcome, l') := by
  rw [Returns, execute_attempt, Prod.mk.injEq, Except.ok.injEq, Prod.ext_iff]

/-! ### Lists of work -/

/-- In lists that are related element by element, every element on the left has a partner. -/
theorem exists_right_of_forall₂ (h : Forall₂ R as bs) : ∀ a ∈ as, ∃ b ∈ bs, R a b := by
  induction h with
  | nil => exact fun a ha => nomatch ha
  | cons hab hrest ih =>
    intro a ha
    rcases mem_cons.mp ha with rfl | ha
    · exact ⟨_, .head _, hab⟩
    · obtain ⟨b, hb, hR⟩ := ih a ha
      exact ⟨b, .tail _ hb, hR⟩

/-- In lists that are related element by element, every element on the right has a partner. -/
theorem exists_left_of_forall₂ (h : Forall₂ R as bs) : ∀ b ∈ bs, ∃ a ∈ as, R a b :=
  exists_right_of_forall₂ (Forall₂.flip h)

/-- Work for no elements returns at once. -/
theorem returns_mapM_nil_iff :
    Returns ([].mapM f) session l bs l' ↔ bs = [] ∧ l' = l := by
  rw [mapM_nil, returns_pure_iff]

/-- Work for a first element, and then for the rest. -/
theorem returns_mapM_cons_iff :
    Returns ((a :: as).mapM f) session l bs l' ↔
      ∃ b rest between, (f a).Returns session l b between ∧
        Returns (as.mapM f) session between rest l' ∧ bs = b :: rest := by
  rw [mapM_cons, returns_bind_iff]
  constructor
  · rintro ⟨b, between, hb, h⟩
    obtain ⟨rest, _, hrest, h⟩ := h.of_bind
    cases h
    exact ⟨b, rest, between, hb, hrest, rfl⟩
  · rintro ⟨b, rest, between, hb, hrest, rfl⟩
    exact ⟨b, between, hb, hrest.bind rfl⟩

/-- Every result of work for the elements of a list comes from the work for its element. -/
theorem Returns.forall₂_of_mapM (h : Returns (as.mapM f) session l bs l') :
    Forall₂ (fun a b => ∃ l₁ l₁', (f a).Returns session l₁ b l₁') as bs := by
  induction as generalizing l bs with
  | nil =>
    obtain ⟨rfl, -⟩ := returns_mapM_nil_iff.mp h
    exact .nil
  | cons a as ih =>
    obtain ⟨b, rest, between, hb, hrest, rfl⟩ := returns_mapM_cons_iff.mp h
    exact .cons ⟨l, between, hb⟩ (ih hrest)

/-- Work for the elements of a list returns if it does for each of them, from whatever ledger. -/
theorem exists_returns_mapM
    (h : ∀ a ∈ as, ∀ l, ∃ b l', (f a).Returns session l b l')
    (l : Ledger) :
    ∃ bs l', Returns (as.mapM f) session l bs l' := by
  induction as generalizing l with
  | nil => exact ⟨[], l, returns_mapM_nil_iff.mpr ⟨rfl, rfl⟩⟩
  | cons a as ih =>
    obtain ⟨b, between, hb⟩ := h a (.head _) l
    obtain ⟨bs, l', hbs⟩ := ih (fun a ha => h a (.tail _ ha)) between
    exact ⟨b :: bs, l', returns_mapM_cons_iff.mpr ⟨b, bs, between, hb, hbs, rfl⟩⟩

/-- An outcome is returned if it is a success. -/
private theorem returns_liftExcept_iff {outcome : Except Failure α} :
    Returns (together.liftExcept outcome) session l a l' ↔
      outcome = .ok a ∧ l' = l := by
  cases outcome with
  | ok b =>
    rw [together.liftExcept, returns_pure_iff, Except.ok.injEq, eq_comm (a := a)]
  | error why =>
    refine ⟨fun h => ?_, fun h => ?_⟩
    · cases h
    · cases h.1

/-- Outcomes are returned if all are successes. -/
private theorem returns_mapM_liftExcept_iff {outcomes : List (Except Failure α)} :
    Returns (outcomes.mapM fun outcome => together.liftExcept outcome) session l as l' ↔
      outcomes = as.map .ok ∧ l' = l := by
  induction outcomes generalizing as with
  | nil =>
    rw [returns_mapM_nil_iff, eq_comm (a := []), map_eq_nil_iff]
  | cons outcome outcomes ih =>
    rw [returns_mapM_cons_iff]
    constructor
    · rintro ⟨a, rest, between, ha, hrest, rfl⟩
      obtain ⟨rfl, rfl⟩ := returns_liftExcept_iff.mp ha
      obtain ⟨rfl, rfl⟩ := ih.mp hrest
      exact ⟨rfl, rfl⟩
    · rintro ⟨has, rfl⟩
      obtain ⟨a, rest, rfl, rfl, rfl⟩ := map_eq_cons_iff.mp has.symm
      exact ⟨a, rest, _, returns_liftExcept_iff.mpr ⟨rfl, rfl⟩, ih.mpr ⟨rfl, rfl⟩, rfl⟩

/-- Pieces of work **beside each other** return if none of them fails. -/
theorem returns_together_iff {works : List (Run α)} :
    Returns (together works) session l as l' ↔
      Returns (works.mapM attempt) session l (as.map .ok) l' := by
  rw [together, returns_bind_iff]
  constructor
  · rintro ⟨outcomes, between, hrun, h⟩
    obtain ⟨rfl, rfl⟩ := returns_mapM_liftExcept_iff.mp h
    exact hrun
  · intro hrun
    exact ⟨as.map .ok, l', hrun, returns_mapM_liftExcept_iff.mpr ⟨rfl, rfl⟩⟩

/-- Every result of pieces of work beside each other comes from its own piece. -/
theorem Returns.forall₂_of_together (h : Returns (together (as.map f)) session l bs l') :
    Forall₂ (fun a b => ∃ l₁ l₁', (f a).Returns session l₁ b l₁') as bs := by
  have hall := (returns_together_iff.mp h).forall₂_of_mapM
  rw [forall₂_map_left_iff, forall₂_map_right_iff] at hall
  exact hall.imp fun a b => .imp fun l₁ => .imp fun l₁' => returns_attempt_iff.mp

/-- What is kept of the results of work for the elements of a list. -/
theorem Returns.exists_of_filterMapM {f : α → Run (Option β)}
    (h : Returns (as.filterMapM f) session l bs l') :
    ∃ options, Forall₂ (fun a o => ∃ l₁ l₁', (f a).Returns session l₁ o l₁') as options ∧
      bs = options.filterMap id := by
  induction as generalizing l bs with
  | nil =>
    cases h
    exact ⟨[], .nil, rfl⟩
  | cons a as ih =>
    rw [filterMapM_cons] at h
    obtain ⟨o, _, ho, h⟩ := h.of_bind
    cases o with
    | none =>
      obtain ⟨options, hoptions, rfl⟩ := ih h
      exact ⟨none :: options, .cons ⟨_, _, ho⟩ hoptions, rfl⟩
    | some b =>
      obtain ⟨rest, _, hrest, h⟩ := h.of_bind
      cases h
      obtain ⟨options, hoptions, rfl⟩ := ih hrest
      exact ⟨some b :: options, .cons ⟨_, _, ho⟩ hoptions, rfl⟩

/-- What is kept comes from one of the elements. -/
theorem Returns.mem_of_filterMapM {f : α → Except Failure (Option β)}
    (h : Returns (as.filterMapM fun a => liftM (f a)) session l bs l') :
    ∀ b ∈ bs, ∃ a ∈ as, f a = .ok (some b) := by
  obtain ⟨options, hoptions, rfl⟩ := h.exists_of_filterMapM
  intro b hb
  obtain ⟨o, ho, rfl⟩ := mem_filterMap.mp hb
  obtain ⟨a, ha, l₁, l₁', hreturns⟩ := exists_left_of_forall₂ hoptions _ ho
  exact ⟨a, ha, hreturns.of_lift⟩

/-- Relations between the elements of lists can be put one after the other. -/
theorem forall₂_comp {S : β → γ → Prop} {cs : List γ} (hR : Forall₂ R as bs)
    (hS : Forall₂ S bs cs) :
    Forall₂ (fun a c => ∃ b, R a b ∧ S b c) as cs := by
  induction hR generalizing cs with
  | nil =>
    cases hS
    exact .nil
  | cons hab _ ih =>
    cases hS with
    | cons hbc hrest => exact .cons ⟨_, hab, hbc⟩ (ih hrest)

/-! ### Changing results -/

/-- Results may be mapped one by one or all at the end. -/
theorem mapM_map_result (f : α → Run β) (g : β → γ) (as : List α) :
    (as.mapM fun a => g <$> f a) = List.map g <$> as.mapM f := by
  induction as with
  | nil => simp
  | cons a as ih =>
    simp only [mapM_cons, ih, map_bind, map_pure, bind_map_left, map_cons]

/-- Changing what is kept of the results of work for the elements of a list. -/
theorem filterMapM_map_result (f : α → Run (Option β)) (g : β → γ) (as : List α) :
    (as.filterMapM fun a => Option.map g <$> f a) = List.map g <$> as.filterMapM f := by
  induction as with
  | nil => simp
  | cons a as ih =>
    simp only [filterMapM_cons, bind_map_left, map_bind]
    refine bind_congr fun o => ?_
    cases o with
    | none => exact ih
    | some b => simp [ih]

/-- Pure results can be combined before or after lifting. -/
theorem lift_bind (result : Except Failure α) (next : α → Except Failure β) :
    (liftM (result >>= next) : Run β) = liftM result >>= fun a => liftM (next a) := by
  cases result <;> rfl

/-- A pure result can be mapped before or after lifting. -/
theorem lift_map (f : α → β) (result : Except Failure α) :
    (liftM (f <$> result) : Run β) = f <$> (liftM result : Run α) := by
  cases result <;> rfl

/-- An attempt at mapped work is a mapped attempt. -/
theorem attempt_map (work : Run α) (g : α → β) :
    attempt (g <$> work) = Except.map g <$> attempt work := by
  funext session l
  simp only [attempt, bind, ReaderT.bind, ExceptT.bind, ExceptT.mk, StateT.bind, Functor.map,
    ExceptT.map, tryCatch, tryCatchThe, MonadExceptOf.tryCatch, ExceptT.tryCatch]
  rcases work session l with ⟨_ | _, _⟩ <;> rfl

/-- Work whose failure is passed on may as well fail by itself. -/
theorem attempt_bind {next : Except Failure α → Run β} (h : ∀ why, next (.error why) = fail why) :
    (attempt work >>= next) = (work >>= fun a => next (.ok a)) := by
  funext session l
  have hattempt : (attempt work).execute session l =
      (.ok (work.execute session l).1, (work.execute session l).2) :=
    returns_attempt_iff.mpr rfl
  change (attempt work >>= next).execute session l = (work >>= _).execute session l
  rw [execute_bind, execute_bind, hattempt]
  rcases work.execute session l with ⟨why | a, between⟩
  · exact congrFun (congrFun (h why) session) between
  · rfl

/-- An outcome can be mapped before it is returned. -/
private theorem liftExcept_map (outcome : Except Failure α) (g : α → β) :
    together.liftExcept (Except.map g outcome) = g <$> together.liftExcept outcome := by
  cases outcome with
  | ok a => exact (map_pure g a).symm
  | error why => rfl

/-- Changing the results of pieces of work beside each other. -/
theorem together_map (f : α → Run β) (g : β → γ) (as : List α) :
    together (as.map fun a => g <$> f a) = List.map g <$> together (as.map f) := by
  have hlift : ∀ outcomes : List (Except Failure β),
      ((outcomes.map (Except.map g)).mapM fun outcome => together.liftExcept outcome) =
        List.map g <$> outcomes.mapM fun outcome => together.liftExcept outcome := by
    intro outcomes
    rw [mapM_map, ← mapM_map_result]
    simp only [Function.comp_def, liftExcept_map]
  simp only [together, mapM_map, Function.comp_def, attempt_map, mapM_map_result,
    bind_map_left, hlift, map_bind]

/-! ### Runs side by side -/

section

variable {α' β' : Type} {P : α → α' → Prop} {Q : β → β' → Prop} {work' : Run α'}

/-- Some work **follows** other work: whenever that returns, it returns something related, with the
same ledger. -/
def Follows (P : α → α' → Prop) (work : Run α) (work' : Run α') : Prop :=
  ∀ session l a l', work.Returns session l a l' →
    ∃ a', work'.Returns session l a' l' ∧ P a a'

/-- Work follows itself, with what is known of its results. -/
theorem follows_self {p : α → Prop}
    (h : ∀ {session l a l'}, work.Returns session l a l' → p a) :
    Follows (fun a a' => a' = a ∧ p a) work work :=
  fun _ _ a _ ha => ⟨a, ha, rfl, h ha⟩

/-- Related values follow each other. -/
theorem follows_pure {a' : α'} (h : P a a') : Follows P (pure a) (pure a') := by
  intro session l b l' hb
  cases hb
  exact ⟨a', rfl, h⟩

/-- Pure results follow each other if they are related. -/
theorem follows_lift {result : Except Failure α} {result' : Except Failure α'}
    (h : ∀ a, result = .ok a → ∃ a', result' = .ok a' ∧ P a a') :
    Follows P (liftM result) (liftM result') := by
  intro session l a l' ha
  obtain ⟨hok, rfl⟩ := returns_lift_iff.mp ha
  obtain ⟨a', ha', hP⟩ := h a hok
  exact ⟨a', returns_lift ha', hP⟩

/-- Work follows if its parts do. -/
theorem Follows.bind {next' : α' → Run β'} (h : Follows P work work')
    (hnext : ∀ a a', P a a' → Follows Q (next a) (next' a')) :
    Follows Q (work >>= next) (work' >>= next') := by
  intro session l b l' hb
  obtain ⟨a, _, ha, hb⟩ := hb.of_bind
  obtain ⟨a', ha', hP⟩ := h _ _ _ _ ha
  obtain ⟨b', hb', hQ⟩ := hnext a a' hP _ _ _ _ hb
  exact ⟨b', ha'.bind hb', hQ⟩

/-- After the same work, what follows has to be compared only. -/
theorem follows_bind_self {next' : α → Run β'} (hnext : ∀ a, Follows Q (next a) (next' a)) :
    Follows Q (work >>= next) (work >>= next') :=
  (follows_self (p := fun _ => True) fun _ => trivial).bind fun a _ h => h.1 ▸ hnext a

/-- Two pieces of work keep **in step**: they leave the same ledger, and both return, up to a
relation, or both fail in the same way. -/
def InStep (P : α → α' → Prop) (work : Run α) (work' : Run α') : Prop :=
  ∀ session l, ∃ l',
    (∃ a a', work.Returns session l a l' ∧ work'.Returns session l a' l' ∧
      P a a') ∨
    ∃ why, work.execute session l = (.error why, l') ∧
      work'.execute session l = (.error why, l')

/-- Work keeps in step with itself, with what is known of its results. -/
theorem inStep_self {p : α → Prop}
    (h : ∀ {session l a l'}, work.Returns session l a l' → p a) :
    InStep (fun a a' => a' = a ∧ p a) work work := by
  intro session l
  rcases hwork : work.execute session l with ⟨why | a, l'⟩
  · exact ⟨l', .inr ⟨why, rfl, rfl⟩⟩
  · exact ⟨l', .inl ⟨a, a, hwork, hwork, rfl, h hwork⟩⟩

/-- Related values are in step. -/
theorem inStep_pure {a' : α'} (h : P a a') : InStep P (pure a) (pure a') :=
  fun _ l => ⟨l, .inl ⟨a, a', rfl, rfl, h⟩⟩

/-- Work is in step if its parts are. -/
theorem InStep.bind {next' : α' → Run β'} (h : InStep P work work')
    (hnext : ∀ a a', P a a' → InStep Q (next a) (next' a')) :
    InStep Q (work >>= next) (work' >>= next') := by
  intro session l
  rw [execute_bind, execute_bind]
  obtain ⟨between, ⟨a, a', ha, ha', hP⟩ | ⟨why, hwhy, hwhy'⟩⟩ := h session l
  · obtain ⟨l', ⟨b, b', hb, hb', hQ⟩ | ⟨why, hwhy, hwhy'⟩⟩ := hnext a a' hP session between
    · exact ⟨l', .inl ⟨b, b', ha.bind hb, ha'.bind hb', hQ⟩⟩
    · rw [Returns] at ha ha'
      rw [ha, ha']
      exact ⟨l', .inr ⟨why, hwhy, hwhy'⟩⟩
  · rw [hwhy, hwhy']
    exact ⟨between, .inr ⟨why, rfl, rfl⟩⟩

/-- After the same work, what keeps in step has to be compared only. -/
theorem inStep_bind_self {next' : α → Run β'} (hnext : ∀ a, InStep Q (next a) (next' a)) :
    InStep Q (work >>= next) (work >>= next') :=
  (inStep_self (p := fun _ => True) fun _ => trivial).bind fun a _ h => h.1 ▸ hnext a

/-- More work at the end that needs no step of the other side. -/
theorem InStep.bind_left {R : β → α' → Prop} (h : InStep P work work')
    (hnext : ∀ a a', P a a' → InStep R (next a) (pure a')) :
    InStep R (work >>= next) work' := by
  rw [← bind_pure work']
  exact h.bind hnext

/-- The relation of the values may be weakened. -/
theorem InStep.imp {R : α → α' → Prop} (h : InStep P work work') (hPR : ∀ a a', P a a' → R a a') :
    InStep R work work' := by
  rw [← bind_pure work]
  exact h.bind_left fun a a' hP => inStep_pure (hPR a a' hP)

/-- If the second returns, then so does the first. -/
theorem InStep.exists_left {a' : α'} (h : InStep P work work')
    (ha' : work'.Returns session l a' l') :
    ∃ a, work.Returns session l a l' ∧ P a a' := by
  obtain ⟨l₁, ⟨a, b', ha, hb', hP⟩ | ⟨why, -, hwhy⟩⟩ := h session l
  · obtain ⟨rfl, rfl⟩ := hb'.unique ha'
    exact ⟨a, ha, hP⟩
  · cases hwhy.symm.trans ha'

/-- If the second fails, then so does the first. -/
theorem InStep.error_left {why : Failure} (h : InStep P work work')
    (hwhy : (work'.execute session l).1 = .error why) :
    (work.execute session l).1 = .error why := by
  obtain ⟨l₁, ⟨a, a', -, ha', -⟩ | ⟨why', h₁, h₂⟩⟩ := h session l
  · rw [Returns] at ha'
    rw [ha'] at hwhy
    cases hwhy
  · rw [h₂] at hwhy
    cases hwhy
    rw [h₁]

/-- If the first returns, then so does the second. -/
theorem InStep.exists_right (h : InStep P work work') (ha : work.Returns session l a l') :
    ∃ a', work'.Returns session l a' l' ∧ P a a' := by
  obtain ⟨l₁, ⟨b, a', hb, ha', hP⟩ | ⟨why, hwhy, -⟩⟩ := h session l
  · obtain ⟨rfl, rfl⟩ := hb.unique ha
    exact ⟨a', ha', hP⟩
  · cases hwhy.symm.trans ha

/-- Work with a log follows. -/
theorem Follows.logged (h : Follows P work work') :
    Follows P (Run.logged work) (Run.logged work') :=
  fun _ l a l' => h _ l a l'

end

/-! ### Work that is the same in one session -/

/-- In a session, two pieces of work are **the same**, from whatever ledger they begin. -/
def SameIn (session : Session) (work work' : Run α) : Prop :=
  ∀ l, work.execute session l = work'.execute session l

/-- After the same work, what follows has to be the same for what is returned only. -/
theorem sameIn_bind {work work' : Run α} {next next' : α → Run β} (h : SameIn session work work')
    (hnext : ∀ {l a l'}, work.Returns session l a l' →
      SameIn session (next a) (next' a)) : SameIn session (work >>= next) (work' >>= next') := by
  intro l
  rw [execute_bind, execute_bind, ← h l]
  rcases hwork : work.execute session l with ⟨why | a, between⟩
  · rfl
  · exact hnext hwork between

/-- Pieces of work beside each other, each of which is the same. -/
theorem sameIn_together {works works' : List (Run α)}
    (h : Forall₂ (SameIn session) works works') :
    SameIn session (together works) (together works') := by
  have hattempts : SameIn session (works.mapM attempt) (works'.mapM attempt) := by
    induction h with
    | nil => exact fun _ => rfl
    | cons hwork _ ih =>
      rw [mapM_cons, mapM_cons]
      refine sameIn_bind (fun l => ?_) fun _ => sameIn_bind ih fun _ _ => rfl
      rw [execute_attempt, execute_attempt, hwork l]
  exact sameIn_bind hattempts fun _ _ => rfl

end DocTree.Run
