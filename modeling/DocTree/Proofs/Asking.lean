import DocTree.Model.Ask
import DocTree.Proofs.Run
import DocTree.Proofs.Value

/-!
# Asking until a reply is an answer

The attempts to ask go up to the first answer, and after ten failures none is made. The messages of
an attempt are the history and the prompt. In shared lists, a new list is made for them.
-/

namespace DocTree.Ask

open Run List

variable {replies : Nat → Reply} {n k k' : Nat} {answer? answer?' : Option (Value × Value)}

/-! ### The replies -/

/-- **How asking ends** with these replies: with the first answer, or after `n` attempts that
failed. -/
inductive EndsWith (replies : Nat → Reply) (n : Nat) : Nat → Option (Value × Value) → Prop
  | answered {i : Nat} {content finish : Value} (hlt : i < n)
      (hbefore : ∀ j < i, ∃ text, replies j = .failure text)
      (hanswer : replies i = .answer content finish) :
      EndsWith replies n (i + 1) (some (content, finish))
  | failed (hall : ∀ j < n, ∃ text, replies j = .failure text) : EndsWith replies n n none

/-- After a failure, asking ends as the later replies say. -/
theorem EndsWith.after_failure {text : String} (h : EndsWith (fun i => replies (i + 1)) n k answer?)
    (hfirst : replies 0 = .failure text) : EndsWith replies (n + 1) (k + 1) answer? := by
  have hcons : ∀ {m}, (∀ j < m, ∃ text, replies (j + 1) = .failure text) →
      ∀ j < m + 1, ∃ text, replies j = .failure text := by
    intro m hm j hj
    cases j with
    | zero => exact ⟨text, hfirst⟩
    | succ j => exact hm j (Nat.lt_of_succ_lt_succ hj)
  cases h with
  | answered hlt hbefore hanswer => exact .answered (Nat.succ_lt_succ hlt) (hcons hbefore) hanswer
  | failed hall => exact .failed (hcons hall)

/-- There is at least one attempt, if any is allowed. -/
theorem EndsWith.count (h : EndsWith replies n k answer?) : min 1 n ≤ k ∧ k ≤ n := by
  cases h <;> omega

/-- Asking ends in one way. -/
theorem EndsWith.unique (h : EndsWith replies n k answer?) (h' : EndsWith replies n k' answer?') :
    k = k' ∧ answer? = answer?' := by
  have hnot : ∀ {i m content finish}, replies i = .answer content finish →
      (∀ j < m, ∃ text, replies j = .failure text) → m ≤ i := by
    intro i m content finish hanswer hbefore
    refine Nat.le_of_not_lt fun hlt => ?_
    obtain ⟨text, hfailure⟩ := hbefore i hlt
    cases hanswer.symm.trans hfailure
  cases h with
  | failed hall =>
    cases h' with
    | failed => exact ⟨rfl, rfl⟩
    | answered hlt _ hanswer => exact absurd hlt (Nat.not_lt.mpr (hnot hanswer hall))
  | answered hlt hbefore hanswer =>
    cases h' with
    | failed hall => exact absurd hlt (Nat.not_lt.mpr (hnot hanswer hall))
    | answered _ hbefore' hanswer' =>
      obtain rfl := Nat.le_antisymm (hnot hanswer' hbefore) (hnot hanswer hbefore')
      cases hanswer.symm.trans hanswer'
      exact ⟨rfl, rfl⟩

/-- **The attempts** at a request go up to the first answer, and each of them is this request. -/
theorem exists_returns_attempts (n : Nat) (r : Request) (session : Session) (l : Ledger) :
    ∃ k answer? l',
      EndsWith (fun i => session.model (l.requests ++ replicate (i + 1) r)) n k answer? ∧
        (attempts n r).Returns session l answer? l' ∧
        l'.requests = l.requests ++ replicate k r := by
  induction n generalizing l with
  | zero => exact ⟨0, none, l, .failed fun j hj => absurd hj j.not_lt_zero, rfl, by simp⟩
  | succ n ih =>
    have hask : (ask r).Returns session l (session.model (l.requests ++ [r]))
        { l with requests := l.requests ++ [r] } := rfl
    cases hreply : session.model (l.requests ++ [r]) with
    | answer content finish =>
      rw [hreply] at hask
      refine ⟨1, some (content, finish), _, ?_, hask.bind rfl, rfl⟩
      exact .answered n.succ_pos (fun j hj => absurd hj j.not_lt_zero) hreply
    | failure text =>
      rw [hreply] at hask
      obtain ⟨k, answer?, l', hends, hrest, hrequests⟩ := ih _
      refine ⟨k + 1, answer?, l', EndsWith.after_failure ?_ hreply,
        hask.bind (Returns.bind rfl hrest), ?_⟩
      · simpa [replicate_succ] using hends
      · simpa [printLine, replicate_succ] using hrequests

/-- **What is told about the end** of an answer. -/
theorem EndsWith.finish (h : EndsWith replies n k answer?) :
    ((finishOf answer?).text = "max_output_reached" ↔
        ∃ content, answer? = some (content, .str "length")) ∧
      ((finishOf answer?).text = "error" ↔ ∀ j < n, ∃ text, replies j = .failure text) ∧
      ((finishOf answer?).text = "finished" ↔
        ∃ content finish, answer? = some (content, finish) ∧ finish ≠ .str "length") := by
  cases h with
  | failed hall => simpa [finishOf, Finish.text] using hall
  | @answered i content finish hlt hbefore hanswer =>
    have hnot : ¬ ∀ j < n, ∃ text, replies j = .failure text := by
      intro hall
      obtain ⟨text, hfailure⟩ := hall i hlt
      cases hanswer.symm.trans hfailure
    by_cases hfinish : finish = .str "length"
    · subst hfinish
      simp [finishOf, Finish.text, Value.isStr, hnot]
    · simp [finishOf, Finish.text, mt Value.isStr_iff.mp hfinish, hfinish, hnot]

/-! ### Message lists that are shared -/

variable {lists : List (List Message)} {history : Nat} {ms : List Message} {model : Value}
  {prompt : String}

/-- A list for one attempt is added behind the others. -/
theorem run_prepare (history : Nat) (prompt : String) (lists : List (List Message)) :
    (prepare history prompt).run lists =
      pure (lists.length, lists ++ [messages (lists.getD history []) prompt]) :=
  congrArg (fun all => (pure (lists.length, all) : Run _))
    (modifyTailIdx_add _ 0 lists [lists.getD history []])

/-- Work that does not know the lists leaves them alone. -/
theorem run_lift_bind {α β : Type} (work : Run α) (next : α → Shared β)
    (lists : List (List Message)) :
    ((liftM work : Shared α) >>= next).run lists = work >>= fun a => (next a).run lists := by
  simp

/-- With shared lists, the attempts are **the same**, and leave the lists as they are. -/
theorem inStep_sharedAttempts (h : lists[history]? = some ms) (n : Nat)
    (more : List (List Message)) :
    InStep (fun pair answer? => pair.1 = answer? ∧ lists <+: pair.2)
      ((sharedAttempts model history prompt n).run (lists ++ more))
      (attempts n ⟨model, false, messages ms prompt⟩) := by
  induction n generalizing more with
  | zero => exact inStep_pure ⟨rfl, prefix_append _ _⟩
  | succ n ih =>
    have hshown : (lists ++ more).getD history [] = ms := by
      rw [getD_eq_getElem?_getD,
        List.getElem?_append_left (List.getElem?_eq_some_iff.mp h).1, h, Option.getD_some]
    have hlist : (messagesAt (lists ++ more).length).run (lists ++ more ++ [messages ms prompt]) =
        pure (messages ms prompt, lists ++ more ++ [messages ms prompt]) :=
      congrArg (fun ms => (pure (ms, _) : Run _)) (by simp)
    rw [sharedAttempts, StateT.run_bind, run_prepare, hshown, pure_bind, StateT.run_bind, hlist,
      pure_bind, run_lift_bind, append_assoc]
    refine inStep_bind_self fun reply => ?_
    cases reply with
    | answer content finish => exact inStep_pure ⟨rfl, prefix_append _ _⟩
    | failure text =>
      dsimp only
      rw [run_lift_bind]
      exact inStep_bind_self fun _ => ih _

/-- What is told of an answer is the same with shared lists. -/
theorem exists_returns_shared {α : Type} (tell : Option (Value × Value) → α)
    (hhistory : lists[history]? = some ms) {session : Session} {l l' : Ledger}
    (h : (attempts n ⟨model, false, messages ms prompt⟩).Returns session l answer? l') :
    ∃ more, ((tell <$> sharedAttempts model history prompt n).run lists).Returns session l
      (tell answer?, lists ++ more) l' := by
  have hstep : InStep _ ((sharedAttempts model history prompt n).run (lists ++ [])) _ :=
    inStep_sharedAttempts hhistory n []
  rw [append_nil] at hstep
  obtain ⟨⟨_, _⟩, hpair, rfl, more, rfl⟩ := hstep.exists_left h
  refine ⟨more, ?_⟩
  rw [StateT.run_map]
  exact hpair.map _

/-! ### The ways of asking -/

/-- A session in which the requests after a ledger get **these replies**, one after the other. -/
def replied (session : Session) (l : Ledger) (replies : Nat → Reply) : Session :=
  { session with model := fun requests => replies (requests.length - (l.requests.length + 1)) }

/-- **The ways of asking agree.** All make one request for each attempt up to the first answer, at
most ten, with the history and the prompt, and tell the content of that answer, or the word `Error`.
The end that is told says if the answer was cut off, or if there was none. Shared lists are as they
were. -/
theorem ways_of_asking_agree (session : Session) (l : Ledger) (replies : Nat → Reply)
    (model : Value) (prompt : String) (history : List Message)
    (before after : List (List Message)) :
    let told := replied session l replies
    let lists := before ++ history :: after
    ∃ k answer? said finish l₁ l₂, EndsWith replies 10 k answer? ∧
      said = answer?.elim (.str "Error") Prod.fst ∧
      ((finish.text = "max_output_reached" ↔ ∃ content, answer? = some (content, .str "length")) ∧
        (finish.text = "error" ↔ ∀ j < 10, ∃ text, replies j = .failure text) ∧
        (finish.text = "finished" ↔
          ∃ content reason, answer? = some (content, reason) ∧ reason ≠ .str "length")) ∧
      l₁.requests = l.requests ++
        replicate k ⟨model, false, history ++ [Message.user (.str prompt)]⟩ ∧
      (content model prompt history).Returns told l said l₁ ∧
      (withFinish model prompt history).Returns told l (said, finish) l₁ ∧
      (∃ more, ((sharedContent model prompt before.length).run lists).Returns told l
        (said, lists ++ more) l₁) ∧
      (∃ more, ((sharedWithFinish model prompt before.length).run lists).Returns told l
        ((said, finish), lists ++ more) l₁) ∧
      l₂.requests = l.requests ++ replicate k ⟨model, true, [Message.user (.str prompt)]⟩ ∧
      (concurrently model prompt).Returns told l said l₂ := by
  intro told lists
  have hreplies : ∀ r : Request,
      (fun i => told.model (l.requests ++ replicate (i + 1) r)) = replies := by
    intro r
    funext i
    simp [told, replied, Nat.add_sub_add_left]
  obtain ⟨k, answer?, l₁, hends, hattempts, hrequests⟩ := exists_returns_attempts maxAttempts
    ⟨model, false, messages history prompt⟩ told l
  obtain ⟨k', answer?', l₂, hends', hattempts', hrequests'⟩ := exists_returns_attempts maxAttempts
    ⟨model, true, messages [] prompt⟩ told l
  rw [hreplies] at hends hends'
  obtain ⟨rfl, rfl⟩ := hends.unique hends'
  have hhistory : lists[before.length]? = some history := by simp [lists]
  exact ⟨k, answer?, contentOf answer?, finishOf answer?, l₁, l₂, hends, by cases answer? <;> rfl,
    hends.finish, hrequests, hattempts.bind rfl, hattempts.bind rfl,
    exists_returns_shared _ hhistory hattempts, exists_returns_shared _ hhistory hattempts,
    hrequests', hattempts'.bind rfl⟩

end DocTree.Ask
