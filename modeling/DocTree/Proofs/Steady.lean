import DocTree.Proofs.Continuation
import DocTree.Proofs.Failures

/-!
# Work with models that keep nothing in mind

If replies depend on the last request only, work is **steady**: it has one outcome and makes the
same requests, whatever l it begins with.
-/

namespace DocTree

open List

namespace Run

variable {α β : Type} {session : Session} {work : Run α} {next : α → Run β} {works : List (Run α)}

/-- In a session, some work is **steady**: it has one outcome and makes the same requests, whatever
happened before. -/
def Steady (session : Session) (work : Run α) : Prop :=
  ∃ outcome made, ∀ l, (work.execute session l).1 = outcome ∧
    (work.execute session l).2.requests = l.requests ++ made

/-! ### What is known of steady work -/

/-- The outcome does not depend on the ledger. -/
theorem Steady.outcome_eq (h : Steady session work) (l l' : Ledger) :
    (work.execute session l).1 = (work.execute session l').1 := by
  obtain ⟨outcome, made, h⟩ := h
  rw [(h l).1, (h l').1]

/-- Steady work adds to the requests what it makes **from an empty ledger**. -/
theorem Steady.requests_eq (h : Steady session work) (l : Ledger) :
    (work.execute session l).2.requests =
      l.requests ++ (work.execute session {}).2.requests := by
  obtain ⟨outcome, made, h⟩ := h
  rw [(h l).2, (h {}).2]
  rfl

/-- What steady work returns once, it always returns. -/
theorem Steady.returns (h : Steady session work) {l l' : Ledger} {a : α}
    (ha : work.Returns session l a l') (other : Ledger) :
    ∃ other', work.Returns session other a other' :=
  ⟨_, returns_of_outcome ((h.outcome_eq other l).trans (congrArg Prod.fst ha))⟩

/-! ### Steady work -/

/-- Work that makes no requests and does not look at the ledger is steady. -/
theorem steady_of_silent (outcome : Except Failure α)
    (h : ∀ l, (work.execute session l).1 = outcome ∧
      (work.execute session l).2.requests = l.requests) : Steady session work :=
  ⟨outcome, [], fun l => ⟨(h l).1, by rw [(h l).2, append_nil]⟩⟩

/-- Pure values are steady. -/
@[grind ←] theorem steady_pure (a : α) : Steady session (pure a) :=
  steady_of_silent (.ok a) fun _ => ⟨rfl, rfl⟩

/-- Pure results are steady. -/
@[grind ←] theorem steady_lift (x : Except Failure α) : Steady session (liftM x) :=
  steady_of_silent x fun _ => ⟨rfl, rfl⟩

/-- Failures are steady. -/
@[grind ←] theorem steady_fail (why : Failure) : Steady session (fail why : Run α) :=
  steady_of_silent (.error why) fun _ => ⟨rfl, rfl⟩

/-- Printing is steady. -/
@[grind ←] theorem steady_printLine (text : String) : Steady session (printLine text) :=
  steady_of_silent (.ok ()) fun _ => ⟨rfl, rfl⟩

/-- A request to a model that **keeps nothing in mind** is steady. -/
@[grind ←] theorem steady_ask (h : session.model.Stateless) (r : Request) :
    Steady session (ask r) :=
  ⟨.ok (session.model [r]), [r], fun l => ⟨congrArg Except.ok (h l.requests [] r), rfl⟩⟩

/-- Steady work after steady work is steady. -/
@[grind ←] theorem steady_bind {work : Run α} {next : α → Run β} (hwork : Steady session work)
    (hnext : ∀ a, Steady session (next a)) : Steady session (work >>= next) := by
  obtain ⟨outcome, made, hwork⟩ := hwork
  have hrun : ∀ l, ∃ between, work.execute session l = (outcome, between) ∧
      between.requests = l.requests ++ made :=
    fun l => ⟨_, Prod.ext (hwork l).1 rfl, (hwork l).2⟩
  cases outcome with
  | error why =>
    refine ⟨.error why, made, fun l => ?_⟩
    obtain ⟨between, hbetween, hmade⟩ := hrun l
    rw [execute_bind, hbetween]
    exact ⟨rfl, hmade⟩
  | ok a =>
    obtain ⟨outcome, more, hnext⟩ := hnext a
    refine ⟨outcome, made ++ more, fun l => ?_⟩
    obtain ⟨between, hbetween, hmade⟩ := hrun l
    rw [execute_bind, hbetween, ← append_assoc, ← hmade]
    exact hnext between

/-- Attempts at steady work are steady. -/
@[grind ←] theorem steady_attempt {work : Run α} (h : Steady session work) :
    Steady session (attempt work) := by
  obtain ⟨outcome, made, h⟩ := h
  refine ⟨.ok outcome, made, fun l => ?_⟩
  rw [execute_attempt]
  exact ⟨congrArg Except.ok (h l).1, (h l).2⟩

/-- Attempts at steady work make the requests of each piece, one after the other. -/
theorem exists_requests_of_attempts (h : ∀ work ∈ works, Steady session work) :
    ∃ outcomes, ∀ l, ((works.mapM attempt).execute session l).1 = .ok outcomes ∧
      ((works.mapM attempt).execute session l).2.requests =
        l.requests ++ works.flatMap fun work => (work.execute session {}).2.requests := by
  induction works with
  | nil => exact ⟨[], fun l => ⟨rfl, (append_nil _).symm⟩⟩
  | cons work works ih =>
    obtain ⟨outcomes, ih⟩ := ih fun w hw => h w (.tail _ hw)
    have hwork := h work (.head _)
    refine ⟨(work.execute session {}).1 :: outcomes, fun l => ?_⟩
    obtain ⟨hrest, hmade⟩ := ih (work.execute session l).2
    rw [mapM_cons, execute_bind, execute_attempt]
    dsimp only
    rw [execute_bind]
    generalize (works.mapM attempt).execute session (work.execute session l).2 = result
      at hrest hmade
    obtain ⟨_, after⟩ := result
    cases hrest
    constructor
    · rw [hwork.outcome_eq {} l]
      rfl
    · rw [flatMap_cons, ← append_assoc, ← hwork.requests_eq l]
      exact hmade

/-- To look at outcomes leaves the ledger as it is. -/
theorem exists_outcome_of_liftExcept (outcomes : List (Except Failure α)) :
    ∃ outcome, ∀ l, (outcomes.mapM fun outcome => together.liftExcept outcome).execute session
      l = (outcome, l) := by
  induction outcomes with
  | nil => exact ⟨.ok [], fun _ => rfl⟩
  | cons first rest ih =>
    cases first with
    | error why => exact ⟨.error why, fun _ => rfl⟩
    | ok a =>
      obtain ⟨outcome, ih⟩ := ih
      refine ⟨outcome.map (a :: ·), fun l => ?_⟩
      rw [mapM_cons, together.liftExcept, pure_bind, execute_bind, ih]
      cases outcome <;> rfl

/-- Steady pieces of work beside each other make **all their requests**, also after a failure. -/
theorem exists_requests_of_together (h : ∀ work ∈ works, Steady session work) :
    ∃ outcome, ∀ l, ((together works).execute session l).1 = outcome ∧
      ((together works).execute session l).2.requests =
        l.requests ++ works.flatMap fun work => (work.execute session {}).2.requests := by
  obtain ⟨outcomes, hattempts⟩ := exists_requests_of_attempts h
  obtain ⟨outcome, hlift⟩ := exists_outcome_of_liftExcept outcomes
  refine ⟨outcome, fun l => ?_⟩
  obtain ⟨houtcomes, hmade⟩ := hattempts l
  rw [together, execute_bind]
  generalize (works.mapM attempt).execute session l = result at houtcomes hmade
  obtain ⟨_, between⟩ := result
  cases houtcomes
  dsimp only
  rw [hlift between]
  exact ⟨rfl, hmade⟩

/-- Steady pieces of work are steady beside each other. -/
@[grind ←] theorem steady_together {works : List (Run α)}
    (h : ∀ work ∈ works, Steady session work) :
    Steady session (together works) := by
  obtain ⟨outcome, hworks⟩ := exists_requests_of_together h
  exact ⟨outcome, _, hworks⟩

/-- With a model that keeps nothing in mind, **composed** work is steady. -/
@[grind ←] theorem Composed.steady (hmodel : session.model.Stateless) {work : Run α}
    (h : Composed work) : Steady session work := by
  induction h with
  | pure a => exact steady_pure a
  | lift => exact steady_lift _
  | fail => exact steady_fail _
  | printLine text => exact steady_printLine text
  | write => exact steady_of_silent (.ok ()) fun _ => ⟨rfl, rfl⟩
  | logs => exact steady_of_silent (.ok session.logging) fun _ => ⟨rfl, rfl⟩
  | nesting => exact steady_of_silent (.ok session.nesting) fun _ => ⟨rfl, rfl⟩
  | patience => exact steady_of_silent (.ok session.patience) fun _ => ⟨rfl, rfl⟩
  | ask r => exact steady_ask hmodel r
  | attempt _ hwork => exact steady_attempt hwork
  | bind _ _ hwork hnext => exact steady_bind hwork hnext
  | together _ hworks => exact steady_together hworks

/-! ### Work that makes requests -/

/-- Some work is **busy**: it never returns without having made a request. -/
def Busy (session : Session) (work : Run α) : Prop :=
  ∀ l a l', work.Returns session l a l' →
    l.requests.length < l'.requests.length

/-- Steady work takes no requests back. -/
theorem Steady.length_le (h : Steady session work) {l l' : Ledger} {a : α}
    (ha : work.Returns session l a l') :
    l.requests.length ≤ l'.requests.length := by
  have hrequests := h.requests_eq l
  rw [ha] at hrequests
  rw [hrequests, length_append]
  exact Nat.le_add_right _ _

/-- Requests of work are still there after steady work. -/
theorem length_le_bind (hnext : ∀ a, Steady session (next a)) (l : Ledger) :
    (work.execute session l).2.requests.length ≤
      ((work >>= next).execute session l).2.requests.length := by
  rw [execute_bind]
  rcases work.execute session l with ⟨why | a, between⟩
  · exact Nat.le_refl _
  · dsimp only
    rw [(hnext a).requests_eq between, length_append]
    exact Nat.le_add_right _ _

/-- Busy work stays busy before steady work. -/
theorem Busy.bind (hwork : Busy session work) (hnext : ∀ a, Steady session (next a)) :
    Busy session (work >>= next) := by
  intro l b l' hb
  obtain ⟨a, _, ha, hb⟩ := hb.of_bind
  exact Nat.lt_of_lt_of_le (hwork _ _ _ ha) ((hnext a).length_le hb)

/-- Busy work stays busy after steady work. -/
theorem Steady.bind_busy (hwork : Steady session work) (hnext : ∀ a, Busy session (next a)) :
    Busy session (work >>= next) := by
  intro l b l' hb
  obtain ⟨a, _, ha, hb⟩ := hb.of_bind
  exact Nat.lt_of_le_of_lt (hwork.length_le ha) (hnext a _ _ _ hb)

end Run

/-- A model is asked **at least once**. -/
theorem Ask.busy_withFinish (session : Session) (model : Value) (prompt : String)
    (history : List Message) : Run.Busy session (withFinish model prompt history) :=
  fun _ _ _ h => (asks_withFinish model prompt history _ _ _ h).1

section

variable {session : Session} (h : session.model.Stateless)
include h

open Run

/-! ### Tables made from pages alone -/

namespace Contents

variable (counter : TokenCounter) (settings : Settings) (model : Value) (e : Excerpt)

/-- No table is made **without a request**. -/
theorem busy_fromPages : Busy session (fromPages counter model e) := by
  unfold fromPages
  refine ((composed_groupTexts counter model e).steady h).bind_busy fun texts => ?_
  cases texts with
  | nil => exact fun _ _ _ hreturns => absurd hreturns not_returns_fail
  | cons first rest =>
    have hgenerate : Busy session (generate model (.str first)) :=
      (steady_printLine _).bind_busy fun _ => (steady_lift _).bind_busy fun text =>
        (Ask.busy_withFinish _ _ _ _).bind fun reply => (composed_finished reply).steady h
    exact hgenerate.bind fun start => by grind

/-- What is done with a table after it was made from pages is steady. -/
theorem exists_steady_of_build (printed : Printed) :
    ∃ next : Value → Run (List Value),
      build counter settings printed e Mode.plain = (do
        Run.printLine Mode.plain.name.display
        Run.printLine ("start_index: " ++ Decimal.intText e.first)
        next (← Mode.plain.run counter settings printed e)) ∧
      ∀ made, Steady session (next made) := by
  unfold build Mode.plain Mode.fallbacks tryModes
  refine ⟨_, rfl, fun made => ?_⟩
  refine steady_bind (steady_lift _) fun kept => steady_bind (by grind) fun kept =>
    steady_bind (steady_lift _) fun model =>
    steady_bind (by grind) fun verified => ?_
  refine steady_bind (by grind) fun _ => steady_bind (steady_lift _) fun entries => ?_
  grind [tryModes]

/-- The table of an excerpt, made from **its pages alone**, is steady. -/
theorem steady_build (printed : Printed) :
    Steady session (build counter settings printed e Mode.plain) := by
  obtain ⟨next, hbuild, hnext⟩ := exists_steady_of_build h counter settings e printed
  rw [hbuild]
  exact steady_bind (steady_printLine _) fun _ => steady_bind (steady_printLine _) fun _ =>
    steady_bind (steady_bind (steady_lift _) fun model =>
      (composed_fromPages counter model e).steady h) hnext

/-- A table of an excerpt takes a request. -/
theorem busy_build (printed : Printed) :
    Busy session (build counter settings printed e Mode.plain) := by
  obtain ⟨next, hbuild, hnext⟩ := exists_steady_of_build h counter settings e printed
  rw [hbuild]
  exact (steady_printLine _).bind_busy fun _ => (steady_printLine _).bind_busy fun _ =>
    ((steady_lift _).bind_busy fun model => busy_fromPages h counter model e).bind hnext

/-! ### Beginnings of sections -/

omit h in
/-- The question whether a section starts a page. -/
@[grind ←] theorem composed_startsPage (title : Value) (text : String) :
    (startsPage model title text).Composed := by
  grind [startsPage]

omit h in
/-- The mark of one entry. -/
@[grind ←] theorem composed_markStart (entry : Value) (outcome? : Option (Except Failure Value)) :
    (markStart entry outcome?).Composed := by
  rcases outcome? with _ | ⟨why | answer⟩ <;> grind [markStart, errorIfLogging]

/-- Marking the beginnings of sections is steady. -/
theorem steady_markStarts (pages : List Page) (entries : Value) :
    Steady session (markStarts model pages entries) := by
  have hquestion : ∀ entry, Ordinary (startQuestion? pages entry) := by grind [startQuestion?]
  refine Composed.steady h ?_
  unfold markStarts
  refine .bind (by grind) fun _ => .bind (by grind) fun items => .bind (by grind) fun _ =>
    .bind (by grind) fun questions => .bind (composed_mapM (fun question? => ?_) _) fun _ => ?_
  · cases question? with
    | none => exact .pure _
    | some question => grind
  · grind

end Contents

end

end DocTree
