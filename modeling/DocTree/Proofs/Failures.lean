import DocTree.Contents.Build
import DocTree.Proofs.Run

/-!
# Failures on the way to a table of contents

Work is **ordinary** if it never ends with the failure to find an acceptable table of contents. All
the work of modes is; that failure comes from the end of the modes only. What work is composed of is
said once for each function.
-/

namespace DocTree

open List

variable {α β : Type}

/-- A result is **ordinary**: it is not the failure to find an acceptable table of contents. -/
def Ordinary (x : Except Failure α) : Prop := x ≠ .error .processingFailed

/-! ### Results -/

/-- A value is ordinary. -/
@[grind ←] theorem ordinary_ok (a : α) : Ordinary (.ok a) := by
  rintro ⟨⟩

@[grind ←] theorem ordinary_pure (a : α) : Ordinary (pure a) := by
  rintro ⟨⟩

/-- Only that one failure is not. -/
@[grind =] theorem ordinary_error_iff {why : Failure} :
    Ordinary (.error why : Except Failure α) ↔ why ≠ .processingFailed := by
  simp [Ordinary]

@[grind ←] theorem ordinary_map {f : α → β} {x : Except Failure α} (hx : Ordinary x) :
    Ordinary (x.map f) := by
  cases x with
  | ok a => exact ordinary_ok (f a)
  | error why => exact ordinary_error_iff.mpr (ordinary_error_iff.mp hx)

/-- One step after another is ordinary if both are. -/
@[grind ←] theorem ordinary_bind {x : Except Failure α} {f : α → Except Failure β}
    (hx : Ordinary x) (hf : ∀ a, Ordinary (f a)) : Ordinary (x >>= f) := by
  cases x with
  | ok a => exact hf a
  | error why => exact ordinary_error_iff.mpr (ordinary_error_iff.mp hx)

/-- So is a step for every item. -/
@[grind ←] theorem ordinary_mapM {f : α → Except Failure β} (hf : ∀ a, Ordinary (f a))
    (as : List α) : Ordinary (as.mapM f) := by
  induction as with
  | nil => exact ordinary_ok []
  | cons a as ih =>
    rw [mapM_cons]
    grind

@[grind ←] theorem ordinary_filterMapM {f : α → Except Failure (Option β)}
    (hf : ∀ a, Ordinary (f a)) (as : List α) : Ordinary (as.filterMapM f) := by
  induction as with
  | nil => exact ordinary_ok []
  | cons a as ih =>
    rw [filterMapM_cons]
    grind

/-- A check of every item, with some kept. -/
theorem ordinary_filterAuxM {p : α → Except Failure Bool} (hp : ∀ a, Ordinary (p a))
    (as kept : List α) : Ordinary (as.filterAuxM p kept) := by
  induction as generalizing kept with
  | nil => exact ordinary_ok kept
  | cons a as ih => exact ordinary_bind (hp a) fun _ => ih _

@[grind ←] theorem ordinary_filterM {p : α → Except Failure Bool} (hp : ∀ a, Ordinary (p a))
    (as : List α) : Ordinary (as.filterM p) :=
  ordinary_bind (ordinary_filterAuxM hp as []) fun _ => ordinary_pure _

/-! ### Operations on values -/

namespace Value

variable (v w : Value) (key : String)

@[grind ←] theorem ordinary_field : Ordinary (v.field key) := by
  unfold field
  grind

@[grind ←] theorem ordinary_lookupOr : Ordinary (v.lookupOr key w) := by
  unfold lookupOr
  grind

@[grind ←] theorem ordinary_lookup : Ordinary (v.lookup key) := ordinary_lookupOr v .null key

@[grind ←] theorem ordinary_setField : Ordinary (v.setField key w) := by
  unfold setField
  grind

@[grind ←] theorem ordinary_removeField : Ordinary (v.removeField key) := by
  unfold removeField
  grind

@[grind ←] theorem ordinary_mentions : Ordinary (v.mentions key) := by
  unfold mentions
  grind

@[grind ←] theorem ordinary_elements : Ordinary v.elements := by
  unfold elements
  grind

@[grind ←] theorem ordinary_size : Ordinary v.size := by
  unfold size
  grind

@[grind ←] theorem ordinary_itemOf (items : List α) (i : Int) : Ordinary (itemOf items i) := by
  unfold itemOf
  grind

@[grind ←] theorem ordinary_item (i : Int) : Ordinary (v.item i) := by
  unfold item
  grind

@[grind ←] theorem ordinary_text : Ordinary v.text := by
  unfold text
  grind

@[grind ←] theorem ordinary_asText : Ordinary v.asText := by
  unfold asText
  grind

@[grind ←] theorem ordinary_integer : Ordinary v.integer := by
  unfold integer
  grind

@[grind ←] theorem ordinary_parseInteger (s : String) : Ordinary (parseInteger s) := by
  unfold parseInteger
  grind

@[grind ←] theorem ordinary_toInteger : Ordinary v.toInteger := by
  unfold toInteger
  grind

@[grind ←] theorem ordinary_toDouble : Ordinary v.toDouble := by
  unfold toDouble
  grind

@[grind ←] theorem ordinary_arith (whole : Int → Int → Int) (fraction : Double → Double → Double)
    (mismatch : Kind → Kind → Mismatch) : Ordinary (arith whole fraction mismatch v w) := by
  unfold arith
  grind

@[grind ←] theorem ordinary_add : Ordinary (v.add w) := by
  unfold add
  grind

@[grind ←] theorem ordinary_sub : Ordinary (v.sub w) := ordinary_arith v w _ _ _

mutual

/-- A comparison fails with a mismatch only. -/
theorem ordinary_compare? : ∀ v w : Value, Ordinary (compare? v w)
  | v, w => by
    unfold compare?
    split
    case h_2 s t => exact ordinary_compareLists s t
    all_goals grind

/-- So does one of lists. -/
theorem ordinary_compareLists : ∀ s t : List Value, Ordinary (compareLists s t)
  | [], [] => ordinary_ok _
  | [], _ :: _ => ordinary_ok _
  | _ :: _, [] => ordinary_ok _
  | a :: as, b :: bs => by
    rw [compareLists]
    split
    · exact ordinary_compareLists as bs
    · exact ordinary_compare? a b

end

@[grind ←] theorem ordinary_less : Ordinary (v.less w) :=
  ordinary_bind (ordinary_compare? v w) fun _ => ordinary_pure _

@[grind ←] theorem ordinary_atMost : Ordinary (v.atMost w) :=
  ordinary_bind (ordinary_compare? v w) fun _ => ordinary_pure _

end Value

@[grind ←] theorem ordinary_get (settings : Settings) (name : String) :
    Ordinary (settings.get name) := by
  unfold Settings.get
  grind

@[grind ←] theorem ordinary_count (counter : TokenCounter) (model text : Value) :
    Ordinary (counter.count model text) := by
  unfold TokenCounter.count
  grind

/-! ### Pages and labels -/

namespace Page

@[grind ←] theorem ordinary_textAt (pages : List Page) (i : Int) : Ordinary (textAt pages i) := by
  grind [textAt]

@[grind ←] theorem ordinary_collect {f : Int → Except Failure String} (hf : ∀ i, Ordinary (f i))
    (count : Nat) (first : Int) : Ordinary (collect f count first) := by
  induction count generalizing first with
  | zero => exact ordinary_ok ""
  | succ count ih => grind [collect]

@[grind ←] theorem ordinary_range {f : Int → Except Failure String} (hf : ∀ i, Ordinary (f i))
    (first last : Int) : Ordinary (range f first last) := ordinary_collect hf _ first

@[grind ←] theorem ordinary_quotient (a b : Int) : Ordinary (quotient a b) := by
  unfold quotient
  grind

@[grind ←] theorem ordinary_ceiling (x : Double) : Ordinary (ceiling x) := by
  unfold ceiling
  grind

@[grind ←] theorem ordinary_fraction (n : Int) : Ordinary (fraction n) := by
  unfold fraction
  grind

@[grind ←] theorem ordinary_groupLimit (total greatest : Int) :
    Ordinary (groupLimit total greatest) := by
  grind [groupLimit]

end Page

@[grind ←] theorem ordinary_textOf (e : Excerpt) (number : Value) : Ordinary (e.textOf number) := by
  grind [Excerpt.textOf]

namespace Outline

@[grind ←] theorem ordinary_labelNumber? (s : String) : Ordinary (labelNumber? s) := by
  grind [labelNumber?]

@[grind ←] theorem ordinary_readLabel (entry : Value) : Ordinary (readLabel entry) := by
  unfold readLabel
  grind

@[grind ←] theorem ordinary_readLabels (v : Value) : Ordinary (readLabels v) := by
  unfold readLabels
  grind

@[grind ←] theorem ordinary_readPage (entry : Value) : Ordinary (readPage entry) := by
  unfold readPage
  grind

@[grind ←] theorem ordinary_readPages (entries : Value) : Ordinary (readPages entries) := by
  unfold readPages
  grind

end Outline

/-! ### Entries -/

namespace Contents

variable (v w : Value)

@[grind ←] theorem ordinary_pair? (start : Value) : Ordinary (pair? start v w) := by
  grind [pair?]

@[grind ←] theorem ordinary_pairs (start : Value) : Ordinary (pairs v w start) := by
  grind [pairs]

@[grind ←] theorem ordinary_vote? : Ordinary (vote? v) := by
  have h : Ordinary (do (← v.field "physical_index").sub (← v.field "page")) := by grind
  unfold vote?
  grind

@[grind ←] theorem ordinary_offset : Ordinary (offset v) := by
  grind [offset]

@[grind ←] theorem ordinary_applyOffsetTo : Ordinary (applyOffsetTo v w) := by
  grind [applyOffsetTo]

@[grind ←] theorem ordinary_applyOffset : Ordinary (applyOffset v w) := by
  unfold applyOffset
  grind

@[grind ←] theorem ordinary_parse (s : String) : Ordinary (parse nesting s) := by
  unfold parse
  grind

@[grind ←] theorem ordinary_dropStart : Ordinary (dropStart v) := by
  grind [dropStart]

@[grind ←] theorem ordinary_dropStarts : Ordinary (dropStarts v) := by
  unfold dropStarts
  grind

@[grind ←] theorem ordinary_extend : Ordinary (extend v w) := by
  unfold extend
  grind

@[grind ←] theorem ordinary_shownEnd (length : Nat) : Ordinary (shownEnd v w length) := by
  grind [shownEnd]

@[grind ←] theorem ordinary_firstPage (entries : List Value) : Ordinary (firstPage v entries) := by
  induction entries with
  | nil => exact ordinary_ok v
  | cons entry rest ih => grind [firstPage]

@[grind ←] theorem ordinary_labelled? : Ordinary (labelled? v) := by
  unfold labelled?
  grind

@[grind ←] theorem ordinary_position : Ordinary (position v) := Value.ordinary_lookup v _

@[grind ←] theorem ordinary_isPlaced : Ordinary (isPlaced v) := by
  grind [isPlaced]

@[grind ←] theorem ordinary_placed : Ordinary (placed v) := by
  grind [placed]

@[grind ←] theorem ordinary_namedPage (entries : List Value) : Ordinary (namedPage entries) := by
  induction entries with
  | nil => exact ordinary_ok Value.null
  | cons entry rest ih => grind [namedPage]

@[grind ←] theorem ordinary_isEarly (count : Nat) : Ordinary (isEarly v count) := by
  grind [isEarly]

@[grind ←] theorem ordinary_noted? (i : Nat) : Ordinary (noted? v i) := by
  grind [noted?]

@[grind ←] theorem ordinary_wrongPosition : Ordinary (wrongPosition v) := by
  unfold wrongPosition
  grind

@[grind ←] theorem ordinary_rightPage (wrong : List Value) (entries : List (Value × Nat)) :
    Ordinary (rightPage wrong entries) := by
  induction entries with
  | nil => exact ordinary_ok none
  | cons entry rest ih => grind [rightPage]

@[grind ←] theorem ordinary_plan (e : Excerpt) (entries wrong : List Value) (item : Value) :
    Ordinary (plan e entries wrong item) := by
  unfold plan
  refine ordinary_bind (by grind) fun listIndex => ordinary_bind (by grind) fun isBefore =>
    ordinary_bind (by grind) fun isInside => ?_
  split <;> grind

@[grind ←] theorem ordinary_accept? (entries : List Value) (attempt : Attempt) :
    Ordinary (accept? entries attempt) := by
  unfold accept?
  grind

@[grind ←] theorem ordinary_acceptAll (entries : List Value) (attempts : List Attempt) :
    Ordinary (acceptAll entries attempts) := by
  induction attempts generalizing entries with
  | nil => exact ordinary_ok _
  | cons attempt rest ih =>
    rw [acceptAll]
    grind

end Contents

/-! ### Work in a session -/

namespace Run

/-- Work is **ordinary** if its outcome is, whatever the model replies. -/
def Ordinary (work : Run α) : Prop :=
  ∀ session l, DocTree.Ordinary (work.execute session l).1

@[grind ←] theorem ordinary_pure (a : α) : Ordinary (pure a) := fun _ _ => ordinary_ok a

/-- Work after work is ordinary if both are. -/
@[grind ←] theorem ordinary_bind {work : Run α} {next : α → Run β} (hwork : Ordinary work)
    (hnext : ∀ a, Ordinary (next a)) : Ordinary (work >>= next) := by
  intro session l
  have h := hwork session l
  rw [execute_bind]
  generalize work.execute session l = outcome at h
  obtain ⟨why | a, between⟩ := outcome
  · exact ordinary_error_iff.mpr (ordinary_error_iff.mp h)
  · exact hnext a session between

/-- What is made of the result does not matter. -/
theorem ordinary_map_iff {work : Run α} {f : α → β} : Ordinary (f <$> work) ↔ Ordinary work := by
  have h : ∀ session l, DocTree.Ordinary ((f <$> work).execute session l).1 ↔
      DocTree.Ordinary (work.execute session l).1 := by
    intro session l
    rw [map_eq_pure_bind, execute_bind]
    rcases work.execute session l with ⟨why | a, between⟩
    · exact ordinary_error_iff.trans ordinary_error_iff.symm
    · exact ⟨fun _ => ordinary_ok a, fun _ => ordinary_ok (f a)⟩
  exact forall_congr' fun session => forall_congr' fun l => h session l

/-- Work that is attempted never fails. -/
theorem ordinary_attempt (work : Run α) : Ordinary (attempt work) := by
  intro session l
  have h : (attempt work).Returns session l (work.execute session l).1
      (work.execute session l).2 := returns_attempt_iff.mpr rfl
  rw [h]
  exact ordinary_ok _

theorem ordinary_mapM {f : α → Run β} (hf : ∀ a, Ordinary (f a)) (as : List α) :
    Ordinary (as.mapM f) := by
  induction as with
  | nil => exact ordinary_pure []
  | cons a as ih =>
    rw [mapM_cons]
    grind

/-- The first failure of some pieces of work is one of theirs. -/
theorem ordinary_together {works : List (Run α)} (h : ∀ work ∈ works, Ordinary work) :
    Ordinary (together works) := by
  intro session l
  have houtcomes : ∀ outcomes l₀, (works.mapM attempt).Returns session l outcomes l₀ →
      ∀ outcome ∈ outcomes, DocTree.Ordinary outcome := by
    intro outcomes l₀ hreturns outcome hmem
    obtain ⟨work, hwork, l₁, l₂, hrun⟩ :=
      exists_left_of_forall₂ hreturns.forall₂_of_mapM outcome hmem
    have hordinary := h work hwork session l₁
    rwa [returns_attempt_iff.mp hrun] at hordinary
  have hlift : ∀ outcomes : List (Except Failure α), (∀ o ∈ outcomes, DocTree.Ordinary o) →
      Ordinary (outcomes.mapM fun outcome => together.liftExcept outcome) := by
    intro outcomes hall
    induction outcomes with
    | nil => exact ordinary_pure []
    | cons outcome rest ih =>
      rw [mapM_cons]
      have hfirst : Ordinary (together.liftExcept outcome) := fun _ _ => by
        cases outcome with
        | ok a => exact ordinary_ok a
        | error why => exact hall _ (.head _)
      exact ordinary_bind hfirst fun _ =>
        ordinary_bind (ih fun o ho => hall o (.tail _ ho)) fun _ => ordinary_pure _
  rw [together, execute_bind]
  have hattempts : Ordinary (works.mapM attempt) := ordinary_mapM ordinary_attempt works
  rcases hrun : (works.mapM attempt).execute session l with ⟨why | outcomes, between⟩
  · have hfailed := hattempts session l
    rw [hrun] at hfailed
    exact ordinary_error_iff.mpr (ordinary_error_iff.mp hfailed)
  · exact hlift outcomes (houtcomes outcomes between hrun) session between

/-! ### Composed work -/

/-- Work that is **composed** of single steps, which do not end with that failure. -/
inductive Composed : {α : Type} → Run α → Prop
  | pure {α : Type} (a : α) : Composed (pure a)
  | lift {α : Type} {x : Except Failure α} (hx : DocTree.Ordinary x) : Composed (liftM x)
  | fail {α : Type} {why : Failure} (h : why ≠ .processingFailed) : Composed (fail why : Run α)
  | printLine (text : String) : Composed (printLine text)
  | write (level : String) (message : Value) : Composed (write level message)
  | logs : Composed logs
  | nesting : Composed nesting
  | patience : Composed patience
  | ask (r : Request) : Composed (ask r)
  | attempt {α : Type} {work : Run α} (h : Composed work) : Composed (attempt work)
  | bind {α β : Type} {work : Run α} {next : α → Run β} (hwork : Composed work)
      (hnext : ∀ a, Composed (next a)) : Composed (work >>= next)
  | together {α : Type} {works : List (Run α)} (h : ∀ work ∈ works, Composed work) :
      Composed (together works)

attribute [grind ←] Composed.pure Composed.lift Composed.fail Composed.printLine Composed.write
  Composed.logs Composed.nesting Composed.patience Composed.ask Composed.attempt Composed.bind
  Composed.together

/-- **Composed work is ordinary.** -/
@[grind ←] theorem Composed.ordinary {work : Run α} (h : Composed work) : Ordinary work := by
  induction h with
  | pure a => exact ordinary_pure a
  | lift hx => exact fun _ _ => hx
  | fail h => exact fun _ _ => ordinary_error_iff.mpr h
  | printLine | write | logs | nesting | patience | ask => exact fun _ _ => ordinary_ok _
  | attempt => exact ordinary_attempt _
  | bind _ _ hwork hnext => exact ordinary_bind hwork hnext
  | together _ ih => exact ordinary_together ih

@[grind ←] theorem composed_info (message : Value) : Composed (info message) := by
  grind [info]

@[grind ←] theorem composed_infoIfLogging (message : Value) : Composed (infoIfLogging message) := by
  grind [infoIfLogging]

/-- Work for every item. -/
@[grind ←] theorem composed_mapM {f : α → Run β} (hf : ∀ a, Composed (f a)) (as : List α) :
    Composed (as.mapM f) := by
  induction as with
  | nil => exact .pure []
  | cons a as ih =>
    rw [mapM_cons]
    grind

@[grind ←] theorem composed_filterMapM {f : α → Run (Option β)} (hf : ∀ a, Composed (f a))
    (as : List α) : Composed (as.filterMapM f) := by
  induction as with
  | nil => exact .pure []
  | cons a as ih =>
    rw [filterMapM_cons]
    grind

@[grind ←] theorem composed_foldlM {f : β → α → Run β} (hf : ∀ b a, Composed (f b a)) (b : β)
    (as : List α) : Composed (as.foldlM f b) := by
  induction as generalizing b with
  | nil => exact .pure b
  | cons a as ih =>
    rw [foldlM_cons]
    grind

/-- Work in a loop. -/
@[grind ←] theorem composed_forIn {f : α → β → Run (ForInStep β)} (hf : ∀ a b, Composed (f a b))
    (as : List α) (b : β) : Composed (forIn as b f) := by
  induction as generalizing b with
  | nil => exact .pure b
  | cons a as ih =>
    rw [forIn_cons]
    refine .bind (hf a b) fun step => ?_
    cases step with
    | done b => exact .pure b
    | yield b => exact ih b

end Run

namespace Ask

variable (model : Value) (prompt : String) (history : List Message)

@[grind ←] theorem composed_attempts (n : Nat) (r : Request) : (attempts n r).Composed := by
  induction n with
  | zero => exact .pure none
  | succ n ih => grind [attempts]

@[grind ←] theorem composed_content : (content model prompt history).Composed := by
  grind [content]

@[grind ←] theorem composed_withFinish : (withFinish model prompt history).Composed := by
  grind [withFinish]

@[grind ←] theorem composed_concurrently : (concurrently model prompt).Composed := by
  grind [concurrently]

@[grind ←] theorem composed_data (reply : Value) : (data reply).Composed := by
  grind [data]

end Ask

@[grind ←] theorem composed_groups (texts : List String) (lengths : List Int)
    (greatest overlap : Int) : (Page.groups texts lengths greatest overlap).Composed := by
  grind [Page.groups]

/-! ### The work of the modes -/

namespace Contents

variable (counter : TokenCounter) (settings : Settings) (model : Value) (e : Excerpt)

@[grind ←] theorem composed_isComplete (raw cleaned : Value) :
    (isComplete model raw cleaned).Composed := by
  grind [isComplete]

@[grind ←] theorem composed_transformOn (raw : String) (rounds : Nat) (soFar : String) :
    (transformOn model raw rounds soFar).Composed := by
  induction rounds generalizing soFar with
  | zero => exact .fail (by decide)
  | succ rounds ih => grind [transformOn]

@[grind ←] theorem composed_transform (contents : Value) : (transform model contents).Composed := by
  unfold transform
  refine .bind (by grind) fun _ => .bind (by grind) fun raw =>
    .bind (by grind) fun reply => .bind (by grind) fun answer => ?_
  grind

@[grind ←] theorem composed_locate (contents pages : Value) :
    (locate model contents pages).Composed := by
  grind [locate]

@[grind ←] theorem composed_fillIn (part entries : Value) :
    (fillIn model part entries).Composed := by
  grind [fillIn]

@[grind ←] theorem composed_finished (reply : Value × Ask.Finish) : (finished reply).Composed := by
  grind [finished]

@[grind ←] theorem composed_generate (part : Value) : (generate model part).Composed := by
  grind [generate]

@[grind ←] theorem composed_generateOn (soFar part : Value) :
    (generateOn model soFar part).Composed := by
  grind [generateOn]

@[grind ←] theorem composed_placeEntry (before : List Value) (entry : Value) (after : List Value) :
    (placeEntry model e before entry after).Composed := by
  have hbefore : Ordinary (pageBefore before) := ordinary_firstPage _ _
  have hafter : Ordinary (pageAfter after) := ordinary_firstPage _ _
  unfold placeEntry
  refine .bind (by grind) fun low => .bind (by grind) fun high =>
    .bind (by grind) fun stop => .bind (by grind) fun first =>
    .bind (by grind) fun last => .bind (by grind) fun asked =>
    .bind (by grind) fun reply => .bind (by grind) fun found => ?_
  grind

@[grind ←] theorem composed_placeRest (before rest : List Value) :
    (placeRest model e before rest).Composed := by
  induction rest generalizing before with
  | nil => exact .pure []
  | cons entry rest ih => grind [placeRest]

@[grind ←] theorem ordinary_placeNone (entries : Value) : Ordinary (placeNone entries) := by
  unfold placeNone
  grind

@[grind ←] theorem composed_placeAll (entries : Value) : (placeAll model e entries).Composed := by
  unfold placeAll
  grind

@[grind ←] theorem composed_groupTexts : (groupTexts counter model e).Composed := by
  grind [groupTexts]

@[grind ←] theorem composed_fromPages : (fromPages counter model e).Composed := by
  unfold fromPages
  refine .bind (by grind) fun texts => ?_
  cases texts with
  | nil => exact .fail (by decide)
  | cons first rest => grind

@[grind ←] theorem composed_fromTitles (contents : Value) :
    (fromTitles counter model e contents).Composed := by
  unfold fromTitles
  refine .bind (by grind) fun entries => .bind (by grind) fun _ =>
    .bind (by grind) fun groups => ?_
  grind

@[grind ←] theorem composed_fromNumbers (pages : List Page) (contents positions checked : Value) :
    (fromNumbers model pages contents positions checked).Composed := by
  unfold fromNumbers
  refine .bind (by grind) fun entries => .bind (by grind) fun _ =>
    .bind (by grind) fun last => .bind (by grind) fun start =>
    .bind (by grind) fun stop => .bind (by grind) fun begins =>
    .bind (by grind) fun shown => .bind (by grind) fun located =>
    .bind (by grind) fun _ => .bind (by grind) fun numbered =>
    .bind (by grind) fun _ => .bind (by grind) fun matching => ?_
  refine .bind (by grind) fun _ => .bind (by grind) fun shift =>
    .bind (by grind) fun _ => .bind (by grind) fun moved => ?_
  grind

/-- A **mode** is composed of steps. -/
@[grind ←] theorem composed_run (mode : Mode) (printed : Printed) :
    (mode.run counter settings printed e).Composed := by
  cases mode <;> grind [Mode.run]

/-! ### Check and repair -/

@[grind ←] theorem composed_truncateEntry (limit : Int) (entry : Value) :
    (truncateEntry limit entry).Composed := by
  grind [truncateEntry]

@[grind ←] theorem composed_truncate (entries : Value) (count first : Int) :
    (truncate entries count first).Composed := by
  grind [truncate]

@[grind ←] theorem composed_chosen (count : Nat) (sample : Value) :
    (chosen count sample).Composed := by
  grind [chosen]

@[grind ←] theorem composed_checkTitle (entry : Value) : (checkTitle model e entry).Composed := by
  unfold checkTitle
  refine .bind (by grind) fun title => .bind (by grind) fun page => ?_
  split
  · grind
  · refine .bind (by grind) fun text => .bind (by grind) fun reply => ?_
    grind

/-- So is the **check** of a table. -/
@[grind ←] theorem composed_verify (entries sample : Value) :
    (verify model e entries sample).Composed := by
  have hlast : ∀ items, Ordinary (lastPage items) := fun _ => ordinary_namedPage _
  unfold verify
  refine .bind (by grind) fun _ => .bind (by grind) fun items =>
    .bind (by grind) fun last => .bind (by grind) fun early => ?_
  split
  · exact .pure _
  · refine .bind (by grind) fun positions => .bind (by grind) fun asked =>
      .bind (.together ?_) fun verdicts => by grind
    grind

@[grind ←] theorem composed_locateTitle (title pages : Value) :
    (locateTitle model title pages).Composed := by
  grind [locateTitle]

@[grind ←] theorem composed_repairItem (entries positions : List Value) (item : Value) :
    (repairItem model e entries positions item).Composed := by
  unfold repairItem
  refine .bind (by grind) fun plan => ?_
  cases plan with
  | outside listIndex title page => exact .pure _
  | between listIndex title low high => grind

@[grind ←] theorem composed_tryAll (entries positions wrong : List Value) :
    (tryAll model e entries positions wrong).Composed := by
  unfold tryAll
  refine .bind (by grind) fun outcomes => .bind ?_ fun _ => by grind
  refine Run.composed_forIn (fun item _ => ?_) _ _
  grind

@[grind ←] theorem composed_settle (entries positions wrong : List Value)
    (tries : List (Value × Attempt)) : (settle e entries positions wrong tries).Composed := by
  grind [settle]

@[grind ←] theorem composed_repair (entries wrong : List Value) :
    (repair model e entries wrong).Composed := by
  grind [repair, wrongPositions]

@[grind ←] theorem composed_repairRounds (more : Nat) (entries wrong : List Value) :
    (repairRounds model e more entries wrong).Composed := by
  induction more generalizing entries wrong with
  | zero => grind [repairRounds]
  | succ more ih => grind [repairRounds]

/-- So is its **repair**. -/
@[grind ←] theorem composed_repairAll (attempts : Int) (entries wrong : List Value) :
    (repairAll model e attempts entries wrong).Composed := by
  grind [repairAll]

end Contents

end DocTree
