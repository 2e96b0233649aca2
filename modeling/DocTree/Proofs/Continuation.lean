import DocTree.Contents.Completion
import DocTree.Proofs.Asking
import DocTree.Proofs.Rounds

/-!
# How often a model is asked to go on

A model is asked to go on with a table until it says that it is complete. Nothing but its answer, or
a failure, ends the loops: the history is made anew in every round and never reaches the limit.
-/

namespace DocTree

open Run

variable {l l' : Ledger} {raw : String} {model : Value}

/-! ### Requests -/

namespace Ask

variable {session : Session}

/-- A model is asked **at least once and at most ten times**, whatever is told of the answer. -/
theorem asks_attempts {α : Type} (r : Request) (tell : Option (Value × Value) → α) :
    Asks session 1 10 (attempts maxAttempts r >>= fun answer? => pure (tell answer?)) := by
  intro l a l' h
  obtain ⟨k, answer?, l₁, hends, hattempts, hrequests⟩ :=
    exists_returns_attempts maxAttempts r session l
  obtain ⟨_, _, hreturns, h⟩ := h.of_bind
  cases h
  obtain ⟨-, rfl⟩ := hattempts.unique hreturns
  have hcount := hends.count
  simp only [maxAttempts] at hcount
  rw [hrequests, List.length_append, List.length_replicate]
  omega

variable (model : Value) (prompt : String) (history : List Message)

/-- Asking for a content takes one to ten requests. -/
theorem asks_content : Asks session 1 10 (content model prompt history) :=
  asks_attempts _ contentOf

/-- So does asking for a content and its end. -/
theorem asks_withFinish : Asks session 1 10 (withFinish model prompt history) :=
  asks_attempts _ fun answer? => (contentOf answer?, finishOf answer?)

/-- Reading the data in a reply asks nothing. -/
theorem asks_data (reply : Value) : Asks session 0 0 (data reply) := by
  rintro l _ _ ⟨⟩
  exact ⟨Nat.le_refl _, Nat.le_refl _⟩

/-- A model that is asked **gives a reply**, if only the word for an error. -/
theorem exists_returns_withFinish (session : Session) (l : Ledger) :
    ∃ reply l', (withFinish model prompt history).Returns session l reply l' := by
  obtain ⟨k, answer?, l₁', -, hattempts, -⟩ := exists_returns_attempts maxAttempts
    ⟨model, false, messages history prompt⟩ session l
  exact ⟨_, l₁', hattempts.bind rfl⟩

end Ask

namespace Contents

variable {session : Session}

/-- A question whether a text is complete is one question. -/
theorem asks_isComplete (model raw cleaned : Value) :
    Asks session 1 10 (isComplete model raw cleaned) :=
  ((asks_lift _).bind fun _ => (asks_lift _).bind fun _ =>
    (Ask.asks_content model _ []).bind fun _ => (Ask.asks_data _).bind fun _ =>
      asks_lift _).mono (by decide) (by decide)

/-! ### Copying -/

/-- What a round of copying **begins with**: the history shown last, the last prompt, the text so
far and how it ended. -/
structure Draft where
  history : List Message
  prompt : String
  text : Value
  finish : Ask.Finish

def firstDraft (model content : Value) : Run Draft := do
  let prompt := copyPrompt content.display
  let (text, finish) ← Ask.withFinish model prompt
  return ⟨[], prompt, text, finish⟩

/-- The history that is shown with a draft. -/
def Draft.shown (d : Draft) : List Message :=
  [Message.user (.str d.prompt), Message.assistant d.text]

/-- **A round of copying**: the draft is complete, or the model is asked to go on. -/
def copyRound (model content : Value) (d : Draft) : Run (Value ⊕ Draft) := do
  let answer ← isComplete model content d.text
  if historyLimit < d.history.length then fail .endlessContents
  else if isDone answer d.finish then return .inl d.text
  else
    let (more, finish) ← Ask.withFinish model goOnPrompt d.shown
    return .inr ⟨d.shown, goOnPrompt, ← d.text.add more, finish⟩

/-- Copying is a loop of its rounds. -/
theorem copyOn_eq (model content : Value) (fuel : Nat) (d : Draft) :
    copyOn model content fuel d.history d.prompt d.text d.finish =
      rounds (copyRound model content) fuel d := by
  induction fuel generalizing d with
  | zero => rfl
  | succ fuel ih =>
    rw [copyOn, rounds, copyRound, bind_assoc]
    refine bind_congr fun answer => ?_
    split
    · rfl
    · split
      · rfl
      · rw [bind_assoc]
        refine bind_congr fun pair => ?_
        obtain ⟨more, finish⟩ := pair
        rw [bind_assoc]
        exact bind_congr fun text => ih ⟨d.shown, goOnPrompt, text, finish⟩

/-- **Copying is a loop** of its rounds. -/
theorem copy_eq (model content : Value) :
    copy model content = (do
      let draft ← firstDraft model content
      rounds (copyRound model content) (← patience) draft) := by
  rw [copy, firstDraft, bind_assoc]
  refine bind_congr fun pair => ?_
  obtain ⟨text, finish⟩ := pair
  rw [pure_bind]
  exact bind_congr fun fuel => copyOn_eq model content fuel ⟨[], _, text, finish⟩

/-- A round of copying that goes on has asked two questions. -/
theorem exists_of_copyRound {content : Value} {d d' : Draft}
    (h : (copyRound model content d).Returns session l (.inr d') l') :
    d'.history = d.shown ∧ ∃ answer more l₁,
      (isComplete model content d.text).Returns session l answer l₁ ∧
      (Ask.withFinish model goOnPrompt d.shown).Returns session l₁ more l' := by
  obtain ⟨answer, l₁, hanswer, h⟩ := h.of_bind
  split at h
  · exact absurd h not_returns_fail
  · split at h
    · cases h
    · obtain ⟨more, _, hmore, h⟩ := h.of_bind
      obtain ⟨text, _, htext, h⟩ := h.of_bind
      obtain ⟨hd, rfl⟩ := returns_pure_iff.mp h
      obtain ⟨-, rfl⟩ := returns_lift_iff.mp htext
      obtain rfl := Sum.inr.inj hd
      exact ⟨rfl, answer, more, l₁, hanswer, hmore⟩

/-- Rounds of copying take two to twenty requests each. -/
theorem requests_of_passes_copyRound {content : Value} {n : Nat} {d d' : Draft}
    (h : Passes (copyRound model content) session n d l d' l') :
    l.requests.length + 2 * n ≤ l'.requests.length ∧
      l'.requests.length ≤ l.requests.length + 20 * n := by
  refine h.requests fun hround => ?_
  obtain ⟨-, answer, more, l₁, hanswer, hmore⟩ := exists_of_copyRound hround
  have hasked := asks_isComplete _ _ _ _ _ _ hanswer
  have hgoOn := Ask.asks_withFinish _ _ _ _ _ _ hmore
  omega

/-! ### Transforming -/

/-- What **an extension** shows and what comes of it: the text shown as incomplete, the reply, the
text with it, and whether that is accepted. -/
structure Extension where
  shown : String
  reply : String
  text : String
  isAccepted : Bool

/-- Asks for the rest of a text. -/
def extendOnce (model : Value) (raw soFar : String) : Run Extension := do
  let shown := cutAtBrace soFar
  let (reply, finish) ← Ask.withFinish model (transformOnPrompt raw shown)
  let reply ← reply.asText
  let text := stitch shown reply
  let answer ← isComplete model (.str raw) (.str text)
  return ⟨shown, reply, text, isDone answer finish⟩

/-- **A round of transforming**: the extended text is accepted, or extended again. -/
def transformRound (model : Value) (raw soFar : String) : Run (String ⊕ String) := do
  let e ← extendOnce model raw soFar
  return if e.isAccepted then .inl e.text else .inr e.text

/-- Extending a text is a loop of its rounds. -/
theorem transformOn_eq (model : Value) (raw : String) (fuel : Nat) (soFar : String) :
    transformOn model raw fuel soFar = rounds (transformRound model raw) fuel soFar := by
  induction fuel generalizing soFar with
  | zero => rfl
  | succ fuel ih =>
    rw [transformOn, rounds, transformRound, extendOnce]
    simp only [bind_assoc, pure_bind]
    refine bind_congr fun pair => ?_
    obtain ⟨reply, finish⟩ := pair
    refine bind_congr fun reply => bind_congr fun answer => ?_
    rw [ih]
    cases isDone answer finish <;> rfl

/-- The first reply, and whether it is **accepted**. -/
def firstReply (model : Value) (raw : String) : Run (Value × Bool) := do
  printLine "start toc_transformer"
  let (reply, finish) ←
    Ask.withFinish model (transformPrompt ++ "\n Given table of contents\n:" ++ raw)
  let answer ← isComplete model (.str raw) reply
  return (reply, isDone answer finish)

/-- The entries in a complete text. -/
def readEntries (nesting : Nat) (whole : String) : Except Failure Value := do
  Outline.readPages (← (← parse nesting whole).field "table_of_contents")

/-- **Transforming is a loop** of its rounds, if the first reply is not accepted. -/
theorem execute_transform_iff {text : String} {l l₀ : Ledger} {outcome : Except Failure Value}
    (h : (firstReply model raw).Returns session l (.str text, false) l₀) :
    (transform model (.str raw)).execute session l = (outcome, l') ↔
      ∃ whole, (rounds (transformRound model raw) session.patience (Reply.content text)).execute
        session l₀ = (whole, l') ∧ outcome = (whole >>= readEntries session.nesting) := by
  have hsame : (transform model (.str raw)).execute session l =
      (rounds (transformRound model raw) session.patience (Reply.content text) >>=
        fun whole => liftM (readEntries session.nesting whole)).execute session l₀ := by
    obtain ⟨_, l₁, hprint, hfirst⟩ := h.of_bind
    obtain ⟨⟨reply, finish⟩, _, hreply, hfirst⟩ := hfirst.of_bind
    obtain ⟨answer, _, hanswer, hfirst⟩ := hfirst.of_bind
    obtain ⟨hpair, rfl⟩ := returns_pure_iff.mp hfirst
    obtain ⟨rfl, hdone⟩ := Prod.mk.inj hpair
    rw [transform, execute_bind_of_returns hprint, Value.text, lift_ok_bind,
      execute_bind_of_returns hreply, execute_bind_of_returns hanswer, ← hdone, if_neg (by decide)]
    simp only [transformOn_eq, readEntries, lift_bind]
    rfl
  rw [hsame, execute_bind]
  rcases (rounds (transformRound model raw) session.patience (Reply.content text)).execute session
    l₀ with ⟨why | whole, l₁⟩
  · constructor
    · rintro ⟨⟩
      exact ⟨.error why, rfl, rfl⟩
    · rintro ⟨_, ⟨⟩, rfl⟩
      rfl
  · constructor
    · rintro ⟨⟩
      exact ⟨.ok whole, rfl, rfl⟩
    · rintro ⟨_, ⟨⟩, rfl⟩
      rfl

section

variable {model answer : Value} {raw soFar reply cleaned : String} {finish : Ask.Finish}
  {l l₁ l₂ l₃ : Ledger}

/-- What is answered is in the data of the reply. -/
theorem returns_isComplete
    (hreply : (Ask.content model (completePrompt ++ "\n Raw Table of contents:\n" ++ raw ++
      "\n Cleaned Table of contents:\n" ++ cleaned)).Returns session l (.str reply) l₁)
    (hanswer : (Reply.extract session.nesting (.str reply)).field "completed" = .ok answer) :
    (isComplete model (.str raw) (.str cleaned)).Returns session l answer l₁ :=
  Returns.bind rfl (Returns.bind rfl (hreply.bind (Returns.bind rfl (returns_lift hanswer))))

/-- An extension is made from a reply and an answer. -/
theorem returns_extendOnce
    (hreply : (Ask.withFinish model (transformOnPrompt raw (cutAtBrace soFar))).Returns session l
      (.str reply, finish) l₁)
    (hanswer : (isComplete model (.str raw) (.str (stitch (cutAtBrace soFar) reply))).Returns
      session l₁ answer l₂) :
    (extendOnce model raw soFar).Returns session l
      ⟨cutAtBrace soFar, reply, stitch (cutAtBrace soFar) reply, isDone answer finish⟩ l₂ :=
  hreply.bind (Returns.bind rfl (hanswer.bind rfl))

/-- The first reply is judged by an answer. -/
theorem returns_firstReply (hprint : (printLine "start toc_transformer").Returns session l () l₁)
    (hreply : (Ask.withFinish model (transformPrompt ++ "\n Given table of contents\n:" ++
      raw)).Returns session l₁ (.str reply, finish) l₂)
    (hanswer : (isComplete model (.str raw) (.str reply)).Returns session l₂ answer l₃) :
    (firstReply model raw).Returns session l (.str reply, isDone answer finish) l₃ :=
  hprint.bind (hreply.bind (hanswer.bind rfl))

end

/-- A round of transforming is an extension. -/
theorem exists_of_transformRound {soFar : String} {next : String ⊕ String}
    (h : (transformRound model raw soFar).Returns session l next l') :
    ∃ e, (extendOnce model raw soFar).Returns session l e l' ∧
      next = if e.isAccepted then .inl e.text else .inr e.text := by
  obtain ⟨e, _, he, h⟩ := h.of_bind
  cases h
  exact ⟨e, he, rfl⟩

/-- An extension takes two to twenty requests. -/
theorem asks_extendOnce (model : Value) (raw soFar : String) :
    Asks session 2 20 (extendOnce model raw soFar) :=
  ((Ask.asks_withFinish model _ []).bind fun _ => (asks_lift _).bind fun _ =>
    (asks_isComplete model _ _).bind fun _ => asks_pure _).mono (by decide) (by decide)

/-- Rounds of transforming take two to twenty requests each. -/
theorem requests_of_passes_transformRound {soFar soFar' : String} {n : Nat}
    (h : Passes (transformRound model raw) session n soFar l soFar' l') :
    l.requests.length + 2 * n ≤ l'.requests.length ∧
      l'.requests.length ≤ l.requests.length + 20 * n := by
  refine h.requests fun hround => ?_
  obtain ⟨e, he, -⟩ := exists_of_transformRound hround
  exact asks_extendOnce _ _ _ _ _ _ he

/-! ### What ends the loops -/

/-- **Only the model ends the loops.** Copying and transforming end with the first round that the
model accepts or that fails, or with the patience of the session. Each round that goes on takes two
to twenty requests. The limit for the length of the history is never reached. -/
theorem loops_end_with_the_model (model : Value) (raw : String) (session : Session)
    (l : Ledger) :
    (∃ draft l₀, (firstDraft model (.str raw)).Returns session l draft l₀ ∧
      (∀ outcome l', (copy model (.str raw)).execute session l = (outcome, l') ↔
        Ends (copyRound model (.str raw)) session session.patience draft l₀ outcome l') ∧
      ∀ n d l₁, Passes (copyRound model (.str raw)) session n draft l₀ d l₁ →
        d.history.length < historyLimit ∧ l₀.requests.length + 2 * n ≤ l₁.requests.length ∧
          l₁.requests.length ≤ l₀.requests.length + 20 * n) ∧
    ∀ text l₀, (firstReply model raw).Returns session l (.str text, false) l₀ →
      (∀ outcome l', (transform model (.str raw)).execute session l = (outcome, l') ↔
        ∃ whole, Ends (transformRound model raw) session session.patience (Reply.content text) l₀
          whole l' ∧ outcome = (whole >>= readEntries session.nesting)) ∧
      ∀ n soFar l₁, Passes (transformRound model raw) session n (Reply.content text) l₀ soFar l₁ →
        l₀.requests.length + 2 * n ≤ l₁.requests.length ∧
          l₁.requests.length ≤ l₀.requests.length + 20 * n := by
  refine ⟨?_, fun text l₀ hfirst => ⟨fun outcome l' => ?_, fun n soFar l₁ hpasses => ?_⟩⟩
  · obtain ⟨⟨text, finish⟩, l₀, hreply⟩ :=
      Ask.exists_returns_withFinish model (copyPrompt raw) [] session l
    have hdraft : (firstDraft model (.str raw)).Returns session l
        ⟨[], copyPrompt raw, text, finish⟩ l₀ :=
      hreply.bind (returns_pure_iff.mpr ⟨rfl, rfl⟩)
    refine ⟨_, l₀, hdraft, fun outcome l' => ?_, fun n d l₁ hpasses => ⟨?_, ?_⟩⟩
    · rw [copy_eq, execute_bind_of_returns hdraft]
      exact execute_rounds_iff
    · -- from the second round on, the history is the one that was shown last
      refine hpasses.invariant (p := fun d => d.history.length < historyLimit) ?_
        (show 0 < historyLimit by decide)
      intro _ d₁ _ _ _ _ _ hround _
      rw [(exists_of_copyRound hround).1]
      exact (show 2 < historyLimit by decide)
    · exact requests_of_passes_copyRound hpasses
  · simp only [execute_transform_iff hfirst, execute_rounds_iff]
  · exact requests_of_passes_transformRound hpasses

/-! ### A model that never accepts -/

/-- A session in which the model gives **the same reply** to everything. -/
def sameReply (text : String) (patience : Nat) : Session where
  model := fun _ => .answer (.str text) (.str "stop")
  nesting := 9
  patience := patience

/-- The reply that a text is not complete. -/
def refusal : String :=
  "\x60\x60\x60json\x7b\"completed\": \"no\"\x7d\x60\x60\x60"

section

variable (patience : Nat) (model : Value) (raw : String)

/-- The refusal is the reply to everything. -/
theorem exists_returns_refusal (prompt : String) (history : List Message) (l : Ledger) :
    ∃ l', (Ask.withFinish model prompt history).Returns (sameReply refusal patience) l
      (.str refusal, .finished) l' := ⟨_, rfl⟩

/-- No text is complete. -/
theorem exists_returns_isComplete (cleaned : String) (l : Ledger) :
    ∃ l', (isComplete model (.str raw) (.str cleaned)).Returns (sameReply refusal patience) l
      (.str "no") l' := by
  have hfield : (Reply.extract 9 (.str refusal)).field "completed" = .ok (.str "no") := by
    decide +kernel
  exact ⟨_, returns_isComplete (show (Ask.content model _).Returns _ l (.str refusal) _ from rfl)
    hfield⟩

/-- A text that is not complete is not accepted. -/
theorem isDone_no (finish : Ask.Finish) : isDone (.str "no") finish = false := by
  cases finish <;> decide

/-- Copying goes on in every round. -/
theorem exists_passes_copyRound (n : Nat) {d : Draft} {text : String} (htext : d.text = .str text)
    (hhistory : d.history.length ≤ historyLimit) (l : Ledger) :
    ∃ d' l', Passes (copyRound model (.str raw)) (sameReply refusal patience) n d l d' l' := by
  induction n generalizing d text l with
  | zero => exact ⟨d, l, rfl, rfl⟩
  | succ n ih =>
    set next : Draft := ⟨d.shown, goOnPrompt, .str (text ++ refusal), .finished⟩
    have hround : ∃ l₂, (copyRound model (.str raw) d).Returns (sameReply refusal patience) l
        (.inr next) l₂ := by
      obtain ⟨l₁, hanswer⟩ := exists_returns_isComplete patience model raw text l
      obtain ⟨l₂, hreply⟩ :=
        exists_returns_refusal patience model goOnPrompt d.shown l₁
      rw [← htext] at hanswer
      refine exists_returns_bind hanswer ?_
      rw [if_neg (Nat.not_lt.mpr hhistory), isDone_no, if_neg Bool.false_ne_true]
      refine exists_returns_bind hreply (exists_returns_bind
        (returns_lift ?_) ⟨l₂, rfl⟩)
      rw [htext]
      rfl
    obtain ⟨l₂, hround⟩ := hround
    obtain ⟨d', l', hpasses⟩ := ih (d := next) rfl (show 2 ≤ historyLimit by decide) l₂
    exact ⟨d', l', next, l₂, hround, hpasses⟩

/-- Transforming goes on in every round. -/
theorem exists_passes_transformRound (n : Nat) (soFar : String) (l : Ledger) :
    ∃ soFar' l', Passes (transformRound model raw) (sameReply refusal patience) n soFar l soFar'
      l' := by
  induction n generalizing soFar l with
  | zero => exact ⟨soFar, l, rfl, rfl⟩
  | succ n ih =>
    set shown := cutAtBrace soFar
    obtain ⟨l₁, hreply⟩ :=
      exists_returns_refusal patience model (transformOnPrompt raw shown) [] l
    obtain ⟨l₂, hanswer⟩ :=
      exists_returns_isComplete patience model raw (stitch shown refusal) l₁
    have hextend : (extendOnce model raw soFar).Returns (sameReply refusal patience) l
        ⟨shown, refusal, stitch shown refusal, false⟩ l₂ :=
      returns_extendOnce hreply hanswer
    obtain ⟨soFar', l', hpasses⟩ := ih (stitch shown refusal) l₂
    exact ⟨soFar', l', _, l₂, hextend.bind rfl, hpasses⟩

/-- The first reply is refused. -/
theorem exists_returns_firstReply (l : Ledger) : ∃ l₀,
    (firstReply model raw).Returns (sameReply refusal patience) l (.str refusal, false) l₀ := by
  obtain ⟨l₁, hprint⟩ : ∃ l₁, (printLine "start toc_transformer").Returns
    (sameReply refusal patience) l () l₁ := ⟨_, rfl⟩
  obtain ⟨l₂, hreply⟩ := exists_returns_refusal patience model
    (transformPrompt ++ "\n Given table of contents\n:" ++ raw) [] l₁
  obtain ⟨l₀, hanswer⟩ := exists_returns_isComplete patience model raw refusal l₂
  exact ⟨l₀, returns_firstReply hprint hreply hanswer⟩

end

/-- A first reply that is refused is extended round by round. -/
theorem refused_reply_is_extended :
    ∃ l₀, (firstReply .null "").Returns (sameReply refusal 3) {} (.str refusal, false) l₀ ∧
      ∀ outcome l', (transform .null (.str "")).execute (sameReply refusal 3) {} = (outcome, l') ↔
        ∃ whole, Ends (transformRound .null "") (sameReply refusal 3) 3 (Reply.content refusal) l₀
          whole l' ∧ outcome = (whole >>= readEntries 9) := by
  obtain ⟨l₀, hfirst⟩ := exists_returns_firstReply 3 .null "" {}
  exact ⟨l₀, hfirst, ((loops_end_with_the_model .null "" (sameReply refusal 3) {}).2 _ _ hfirst).1⟩

/-- **Nothing bounds the loops**: a model with one reply to everything uses up every patience. -/
theorem refused_loops_go_on :
    (∀ patience, (sameReply refusal patience).model.Stateless) ∧
    ∀ patience,
      (∃ l', (copy .null (.str "")).execute (sameReply refusal patience) {} =
        (.error .outOfFuel, l') ∧ 2 * patience ≤ l'.requests.length) ∧
      ∃ l', (transform .null (.str "")).execute (sameReply refusal patience) {} =
        (.error .outOfFuel, l') ∧ 2 * patience ≤ l'.requests.length := by
  refine ⟨fun _ _ _ _ => rfl, fun patience => ⟨?_, ?_⟩⟩
  · obtain ⟨l₀, hreply⟩ :=
      exists_returns_refusal patience .null (copyPrompt "") [] {}
    obtain ⟨d, l', hpasses⟩ := exists_passes_copyRound patience .null "" patience
      (d := ⟨[], copyPrompt "", .str refusal, .finished⟩) rfl (Nat.zero_le _) l₀
    have hdraft : (firstDraft .null (.str "")).Returns (sameReply refusal patience) {}
        ⟨[], copyPrompt "", .str refusal, .finished⟩ l₀ :=
      hreply.bind rfl
    refine ⟨l', ?_, Nat.le_of_add_left_le (requests_of_passes_copyRound hpasses).1⟩
    rw [copy_eq, execute_bind_of_returns hdraft]
    exact execute_rounds_iff.mpr (.inr ⟨rfl, d, hpasses⟩)
  · obtain ⟨l₀, hfirst⟩ := exists_returns_firstReply patience .null "" {}
    obtain ⟨soFar, l', hpasses⟩ := exists_passes_transformRound patience .null ""
      patience (Reply.content refusal) l₀
    refine ⟨l', ?_, Nat.le_of_add_left_le (requests_of_passes_transformRound hpasses).1⟩
    exact (execute_transform_iff hfirst).mpr
      ⟨_, execute_rounds_iff.mpr (.inr ⟨rfl, soFar, hpasses⟩), rfl⟩

end Contents

end DocTree
