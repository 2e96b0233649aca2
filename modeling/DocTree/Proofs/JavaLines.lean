import DocTree.Proofs.JavaMembers

/-!
# Lines of Java declarations

Tokens come in the order of their lines and are consumed from the left, so lines are taken down in
order. The last statement of a method does not begin before the method does.
-/

namespace DocTree.Java

open Parse List

variable {α β : Type} {lo hi : Nat} {ts : List Token} {P : α → Prop} {Q : β → Prop}
  {work : Parse α} {next : α → Parse β} {r : Rules} {about : About}

/-! ### Tokens in order -/

/-- The lines of tokens **never go down**, and start from a line. -/
theorem sorted_tokensFrom {line : Nat} {doc : Option String} {cs : List Char}
    (h : tokensFrom line doc cs = .ok ts) :
    ts.Pairwise (fun t u => t.line ≤ u.line) ∧ ∀ t ∈ ts, line ≤ t.line := by
  induction line, doc, cs using tokensFrom.induct generalizing ts with
  | case1 line doc =>
    unfold tokensFrom at h
    cases h
    exact ⟨.nil, forall_mem_nil _⟩
  | case2 line doc c cs ihblank ihcomment ihtoken =>
    unfold tokensFrom at h
    obtain ⟨⟨found, n⟩, -, h⟩ := bind_eq_ok.mp h
    have hlater : ∀ {extra : Nat}, ts.Pairwise (fun t u => t.line ≤ u.line) ∧
        (∀ t ∈ ts, line + extra ≤ t.line) →
          ts.Pairwise (fun t u => t.line ≤ u.line) ∧ ∀ t ∈ ts, line ≤ t.line :=
      fun h => ⟨h.1, fun t ht => (Nat.le_add_right _ _).trans (h.2 t ht)⟩
    cases found with
    | blank => exact hlater (ihblank n h)
    | comment => exact hlater (ihcomment n h)
    | token kind =>
      obtain ⟨more, hmore, h⟩ := bind_eq_ok.mp h
      cases h
      obtain ⟨hsorted, hfrom⟩ := ihtoken n hmore
      exact ⟨.cons hfrom hsorted, forall_mem_cons.mpr ⟨le_rfl, hfrom⟩⟩

/-- A line **between** two others. -/
abbrev Between (lo hi line : Nat) : Prop := lo ≤ line ∧ line ≤ hi

/-- Tokens in order, all of them between two lines. -/
structure InLines (lo hi : Nat) (ts : List Token) : Prop where
  sorted : ts.Pairwise fun t u => t.line ≤ u.line
  between : ∀ t ∈ ts, Between lo hi t.line

/-- What is left of tokens is in the same lines. -/
theorem InLines.suffix {rest : List Token} (h : InLines lo hi ts) (hrest : rest <:+ ts) :
    InLines lo hi rest :=
  ⟨h.sorted.sublist hrest.sublist, fun t ht => h.between t (hrest.subset ht)⟩

/-- What is left begins on the line of its first token. -/
theorem InLines.from_head {t : Token} (h : InLines lo hi (t :: ts)) :
    InLines t.line hi (t :: ts) := by
  obtain ⟨hhead, -⟩ := pairwise_cons.mp h.sorted
  refine ⟨h.sorted, fun u hu => ⟨?_, (h.between u hu).2⟩⟩
  obtain rfl | hu := mem_cons.mp hu
  · exact le_rfl
  · exact hhead u hu

/-! ### Readings -/

/-- From tokens in order between two lines, some work **gives** nothing without a property. -/
def Gives (lo hi : Nat) (P : α → Prop) (work : Parse α) : Prop :=
  ∀ ⦃ts a rest⦄, InLines lo hi ts → work ts = .ok (a, rest) → P a

/-- Work that **fails** where there are no tokens. -/
def NeedsTokens (work : Parse α) : Prop := ∀ out, work [] ≠ .ok out

/-- What needs tokens at first needs tokens. -/
theorem NeedsTokens.bind (h : NeedsTokens work) (next : α → Parse β) :
    NeedsTokens (work >>= next) := by
  intro out hout
  obtain ⟨pair, hpair, -⟩ := bind_eq_ok.mp hout
  exact h pair hpair

/-- A test that says no without tokens. -/
theorem NeedsTokens.test {test : Parse Bool} {yes no : Parse α}
    (htest : test [] = .ok (false, ⟨[], suffix_rfl⟩)) (h : NeedsTokens no) :
    NeedsTokens (test >>= fun b => if b = true then yes else no) := by
  intro out hout
  obtain ⟨pair, hpair, hout⟩ := bind_eq_ok.mp hout
  rw [htest] at hpair
  cases hpair
  obtain ⟨pair, hpair, -⟩ := bind_eq_ok.mp hout
  exact h pair hpair

/-- What is given without reading. -/
theorem gives_pure {a : α} (h : P a) : Gives lo hi P (pure a) := by
  intro ts b rest _ heq
  cases heq
  exact h

/-- What is given step by step. -/
theorem Gives.bind (h : Gives lo hi P work) (hnext : ∀ a, P a → Gives lo hi Q (next a)) :
    Gives lo hi Q (work >>= next) := by
  intro ts b last hts heq
  obtain ⟨⟨a, rest⟩, ha, heq⟩ := bind_eq_ok.mp heq
  obtain ⟨⟨_, _⟩, hb, heq⟩ := bind_eq_ok.mp heq
  cases heq
  exact hnext a (h hts ha) (hts.suffix rest.2) hb

/-- What is given by the last step. -/
theorem gives_then (hnext : ∀ a, Gives lo hi Q (next a)) : Gives lo hi Q (work >>= next) :=
  Gives.bind (P := fun _ => True) (fun _ _ _ _ _ => trivial) fun a _ => hnext a

/-- One reading or another, as a test says. -/
theorem gives_test {test : Parse Bool} {cond : Bool → Bool} {yes no : Parse β}
    (hyes : Gives lo hi Q yes) (hno : Gives lo hi Q no) :
    Gives lo hi Q (test >>= fun b => if cond b = true then yes else no) := by
  refine gives_then fun b => ?_
  split
  · exact hyes
  · exact hno

/-- A clause that may be missing. -/
theorem gives_clause {γ : Type} {test : Parse Bool} {cond : Bool → Bool} {clause : Parse γ}
    {rest : Parse β} (h : Gives lo hi Q rest) :
    Gives lo hi Q (test >>= fun b => if cond b = true then clause >>= fun _ => rest else rest) :=
  gives_test (gives_then fun _ => h) h

/-- **What follows a line** that is taken down comes from tokens that are not before it. -/
theorem gives_line {next : Nat → Parse β}
    (hnext : ∀ line, Between lo hi line → Gives line hi Q (next line))
    (hend : NeedsTokens (next 0)) : Gives lo hi Q (line >>= next) := by
  intro ts b last hts heq
  obtain ⟨⟨line, rest⟩, hline, heq⟩ := bind_eq_ok.mp heq
  obtain ⟨⟨_, _⟩, hb, heq⟩ := bind_eq_ok.mp heq
  cases heq
  cases ts with
  | nil =>
    -- Behind the last token the line is taken to be zero, but then nothing is read.
    cases hline
    exact absurd hb (hend _)
  | cons t ts =>
    cases hline
    exact hnext t.line (hts.between t (.head _)) hts.from_head hb

/-- What an attempt gives. -/
theorem Gives.attempt (h : Gives lo hi P work) :
    Gives lo hi (fun o => ∀ a ∈ o, P a) (attempt work) := by
  intro ts o rest hts heq
  unfold Parse.attempt at heq
  split at heq
  · rename_i a rest' ha
    cases heq
    rintro _ ⟨⟩
    exact h hts ha
  · cases heq
    rintro _ ⟨⟩
  · cases heq

/-- What repeated reading gives. -/
theorem Gives.repeatUpTo {more : Parse Bool} (h : Gives lo hi P work) (n : Nat) :
    Gives lo hi (fun as => ∀ a ∈ as, P a) (repeatUpTo more work n) := by
  induction n with
  | zero => exact gives_pure (forall_mem_nil _)
  | succ n ih =>
    exact gives_test (h.bind fun a ha => ih.bind fun as has =>
      gives_pure (forall_mem_cons.mpr ⟨ha, has⟩)) (gives_pure (forall_mem_nil _))

instance : LawfulMonad Parse := .mk' Parse
  (fun work => funext fun ts => by
    change (work ts >>= fun out => _) = _
    cases work ts <;> rfl)
  (fun a next => funext fun ts => by
    change (next a ts >>= fun out => _) = _
    cases next a ts <;> rfl)
  (fun work f g => funext fun ts => by
    change ((work ts >>= fun out => _) >>= fun out => _) = (work ts >>= fun out => _)
    cases work ts with
    | error fault => rfl
    | ok out =>
      change ((f out.1 out.2 >>= fun out => _) >>= fun out => _) =
        ((f out.1 out.2 >>= fun out => _) >>= fun out => _)
      cases f out.1 out.2 with
      | error fault => rfl
      | ok out =>
        change (g out.1 out.2 >>= fun out => _) =
          ((g out.1 out.2 >>= fun out => _) >>= fun out => _)
        cases g out.1 out.2 <;> rfl)

/-! ### Declarations -/

/-- A declaration **fits** the lines of a file: it and what is in it begin on one of them, and the
last statement of a method not before the method. -/
inductive Declaration.Fits (hi : Nat) : Declaration → Prop
  | type {kind : TypeKind} {name : String} {about : About} {members : List Declaration}
      (hline : Between 1 hi about.line) (hmembers : ∀ d ∈ members, Fits hi d) :
      Fits hi (.type kind name about members)
  | method {m : Method} {about : About} (hline : Between 1 hi about.line)
      (hlast : ∀ line ∈ m.lastLine, Between about.line hi line) : Fits hi (.method m about)
  | other : Fits hi .other

/-- All of some declarations fit. -/
abbrev AllFit {γ : Type} [Membership Declaration γ] (hi : Nat) (ds : γ) : Prop :=
  ∀ d ∈ ds, d.Fits hi

/-- From the line of a declaration on, some work gives a declaration **that fits**. -/
abbrev Declares (hi : Nat) (about : About) (work : Parse Declaration) : Prop :=
  Gives about.line hi (Declaration.Fits hi) work

/-- What is needed of the rules that occur within each other. -/
structure Rules.Sound (hi : Nat) (r : Rules) : Prop where
  blockStatement : ∀ lo, Gives lo hi (Between lo hi) r.blockStatement
  typeAfter : ∀ about : About, Between 1 hi about.line → Declares hi about (r.typeAfter about)
  classBody : ∀ lo, 1 ≤ lo → Gives lo hi (AllFit hi) r.classBody
  expression_needs : NeedsTokens r.expression
  typeAfter_needs : ∀ about, NeedsTokens (r.typeAfter about)

/-- What stands next is on a line behind. -/
theorem gives_aboutNext {next : About → Parse β}
    (hnext : ∀ about : About, Between lo hi about.line → Gives about.line hi Q (next about))
    (hend : ∀ about, NeedsTokens (next about)) : Gives lo hi Q (aboutNext r >>= next) := by
  rw [aboutNext, bind_assoc]
  refine gives_then fun found => ?_
  rw [bind_assoc]
  refine gives_line (fun line hline => ?_) ?_
  · rw [pure_bind]
    exact hnext ⟨line, found.1, found.2⟩ hline
  · rw [pure_bind]
    exact hend _

/-- Lines of local variables. -/
theorem gives_localVariables : Gives lo hi (Between lo hi) (localVariables r) :=
  gives_then fun _ => gives_line (fun _ hline => gives_then fun _ => gives_then fun _ =>
    gives_then fun _ => gives_then fun _ => gives_pure hline) (by rintro _ ⟨⟩)

/-- There is no statement without tokens. -/
theorem needsTokens_statement (h : NeedsTokens r.expression) : NeedsTokens (statement r) := by
  iterate 15 refine .test rfl ?_
  exact h.bind _

section

variable (h : r.Sound hi)
include h

/-- Lines of statements. -/
theorem gives_statementLine : Gives lo hi (Between lo hi) (statementLine r) :=
  gives_line (fun _ hline => gives_then fun _ => gives_pure hline)
    ((needsTokens_statement h.expression_needs).bind _)

/-- Lines of local types. -/
theorem gives_localType : Gives lo hi (Between lo hi) (localType r) :=
  gives_aboutNext (fun _ hline => gives_then fun _ => gives_pure hline)
    fun about => (h.typeAfter_needs about).bind _

/-- Lines of statements in blocks. -/
theorem gives_blockStatement : Gives lo hi (Between lo hi) (blockStatement r) := by
  have hplain : Gives lo hi (Between lo hi) (statementLine r) := gives_statementLine h
  refine gives_test hplain (gives_test hplain (gives_then fun ts => ?_))
  split
  · exact gives_localType h
  dsimp only
  split
  · exact gives_localType h
  split
  · exact gives_localVariables
  split
  · refine gives_localVariables.attempt.bind fun found hfound => ?_
    cases found with
    | none => exact hplain
    | some line => exact gives_pure (hfound line rfl)
  · exact hplain

/-! ### Methods -/

/-- Whether the last statement of a method, if it has one, **begins between** two lines. -/
def Method.LastIn (lo hi : Nat) (m : Method) : Prop := ∀ line ∈ m.lastLine, Between lo hi line

/-- The last line of a block. -/
theorem gives_block :
    Gives lo hi (fun lines => ∀ line ∈ lines.getLast?, Between lo hi line) (block r) :=
  gives_then fun _ => (gives_then fun _ => (h.blockStatement lo).repeatUpTo _).bind
    fun _ hlines => gives_then fun _ =>
      gives_pure fun line hline => hlines line (mem_of_getLast? hline)

/-- The last line of a body. -/
theorem gives_bodyOrNone :
    Gives lo hi (fun last => ∀ line ∈ last, Between lo hi line) (bodyOrNone r) :=
  gives_test ((gives_block h).bind fun _ hlast => gives_pure hlast)
    (gives_then fun _ => gives_pure (by rintro _ ⟨⟩))

/-- The last line of a method. -/
theorem gives_methodRest (name : String) (result : Option String) :
    Gives lo hi (Method.LastIn lo hi) (methodRest r name result) := by
  refine gives_then fun ps => ?_
  have hrest : Gives lo hi (Method.LastIn lo hi)
      (throwsClause >>= fun _ => bodyOrNone r >>= fun last => pure ⟨name, ps, result, last⟩) :=
    gives_then fun _ => (gives_bodyOrNone h).bind fun _ hlast => gives_pure hlast
  split
  · exact gives_then fun _ => hrest
  · exact hrest

/-- The last line of a constructor. -/
theorem gives_constructor : Gives lo hi (Method.LastIn lo hi) (constructor r) :=
  gives_then fun _ => gives_then fun _ => gives_then fun _ => (gives_block h).bind
    fun _ hlast => gives_pure hlast

/-- The last line of a method without result. -/
theorem gives_voidMethod : Gives lo hi (Method.LastIn lo hi) (voidMethod r) :=
  gives_then fun _ => gives_methodRest h _ _

/-- The last line of a generic method. -/
theorem gives_genericMethod : Gives lo hi (Method.LastIn lo hi) (genericMethod r) :=
  gives_then fun _ => gives_test (gives_constructor h) <| gives_test (gives_voidMethod h) <|
    gives_then fun _ => gives_then fun _ => gives_methodRest h _ _

/-- The last line of a generic method of an interface. -/
theorem gives_genericInterfaceMethod :
    Gives lo hi (Method.LastIn lo hi) (genericInterfaceMethod r) := by
  refine gives_then fun _ => gives_then fun _ => ?_
  split <;> exact gives_then fun _ => gives_then fun _ => gives_then fun _ => gives_then fun _ =>
    gives_then fun _ => (gives_bodyOrNone h).bind fun _ hlast => gives_pure hlast

/-! ### Members -/

variable (hline : Between 1 hi about.line)

omit h in
include hline in
/-- A method is a declaration. -/
theorem gives_method {read : Parse Method}
    (hread : Gives about.line hi (Method.LastIn about.line hi) read) :
    Declares hi about (read >>= fun m => pure (.method m about)) :=
  hread.bind fun _ hlast => gives_pure (.method hline hlast)

include hline in
/-- Members fit the lines. -/
theorem gives_plainMember : Declares hi about (plainMember r about) :=
  gives_test (gives_method hline (gives_voidMethod h)) <|
    gives_test (gives_method hline (gives_genericMethod h)) <|
    gives_test (gives_method hline (gives_constructor h)) <|
    gives_then fun _ => gives_then fun _ =>
    gives_test (gives_method hline (gives_methodRest h _ _)) <|
    gives_then fun _ => gives_then fun _ => gives_then fun _ => gives_pure .other

include hline in
/-- Members of interfaces fit the lines. -/
theorem gives_plainInterfaceMember : Declares hi about (plainInterfaceMember r about) :=
  gives_test (gives_method hline (gives_genericInterfaceMethod h)) <|
    gives_test (gives_method hline (gives_voidMethod h)) <|
    gives_then fun _ => gives_then fun _ =>
    gives_test (gives_method hline (gives_methodRest h _ _)) <|
    gives_then fun _ => gives_then fun _ => gives_pure .other

omit h in
/-- A declaration that is there. -/
theorem gives_some {read : Parse Declaration} (h : Gives lo hi (Declaration.Fits hi) read) :
    Gives lo hi (AllFit hi) (read >>= fun d => pure (some d)) := by
  refine h.bind fun d hd => gives_pure ?_
  rintro _ ⟨⟩
  exact hd

/-- A type or another member **after its modifiers**. -/
theorem gives_typeOr {plain : About → Parse Declaration} (hlo : 1 ≤ lo)
    (hplain : ∀ about : About, Between 1 hi about.line → Declares hi about (plain about))
    (hend : ∀ about, NeedsTokens (plain about)) :
    Gives lo hi (AllFit hi) (do
      let about ← aboutNext r
      if ← seesType then return some (← r.typeAfter about) else return some (← plain about)) := by
  refine gives_aboutNext (fun about hline => ?_) fun about => .test rfl ((hend about).bind _)
  have hline : Between 1 hi about.line := ⟨hlo.trans hline.1, hline.2⟩
  exact gives_test (gives_some (h.typeAfter about hline)) (gives_some (hplain about hline))

/-- Members of classes fit the lines. -/
theorem gives_member (hlo : 1 ≤ lo) : Gives lo hi (AllFit hi) (member r) := by
  have hblock : Gives lo hi (Declaration.Fits hi) (initializerBlock r) :=
    gives_then fun _ => gives_then fun _ => gives_pure .other
  refine gives_test (gives_pure (by rintro _ ⟨⟩)) <| gives_then fun _ =>
    gives_test (gives_some hblock) ?_
  exact gives_typeOr h hlo (fun _ => gives_plainMember h) fun about =>
    .test rfl (.test rfl (.test rfl (by rintro _ ⟨⟩)))

/-- Members of interfaces, with what stands before them. -/
theorem gives_interfaceMember (hlo : 1 ≤ lo) : Gives lo hi (AllFit hi) (interfaceMember r) :=
  gives_test (gives_pure (by rintro _ ⟨⟩)) <|
    gives_typeOr h hlo (fun _ => gives_plainInterfaceMember h) fun about =>
      .test rfl (.test rfl (by rintro _ ⟨⟩))

/-! ### Types -/

omit h in
/-- What holds of all that is there. -/
theorem forall_mem_filterMap_id {p : α → Prop} {os : List (Option α)}
    (h : ∀ o ∈ os, ∀ a ∈ o, p a) : ∀ a ∈ os.filterMap id, p a := by
  intro a ha
  obtain ⟨o, ho, hoa⟩ := mem_filterMap.mp ha
  exact h o ho a hoa

omit h in
/-- Members up to a brace fit the lines. -/
theorem gives_membersUntilBrace {one : Parse (Option Declaration)}
    (h : Gives lo hi (AllFit hi) one) : Gives lo hi (AllFit hi) (membersUntilBrace one) :=
  (gives_then fun _ => h.repeatUpTo _).bind fun _ hos => gives_pure (forall_mem_filterMap_id hos)

omit h in
/-- A body fits the lines. -/
theorem gives_bodyOf {one : Parse (Option Declaration)}
    (h : Gives lo hi (AllFit hi) one) : Gives lo hi (AllFit hi) (bodyOf one) :=
  gives_then fun _ =>
    (gives_membersUntilBrace h).bind fun _ hds => gives_then fun _ => gives_pure hds

include hline

/-- Enumerations fit the lines. -/
theorem gives_enumDeclaration : Declares hi about (enumDeclaration r about) := by
  refine gives_then fun _ => gives_then fun name => gives_clause <| gives_then fun _ => ?_
  have hclose : ∀ found : List Declaration, AllFit hi found →
      Declares hi about (accept ["\x7d"] >>= fun _ => pure (.type .enumType name about found)) :=
    fun _ hds => gives_then fun _ => gives_pure (.type hline hds)
  have hrest : Declares hi about (do
      let found ← if ← tryAccept [";"] then membersUntilBrace (member r) else pure []
      accept ["\x7d"]
      return Declaration.type .enumType name about found) :=
    gives_test ((gives_membersUntilBrace (gives_member h hline.1)).bind hclose)
      (Gives.bind (gives_pure (forall_mem_nil _)) hclose)
  exact gives_test (gives_then fun _ => gives_then fun _ => hrest) hrest

/-- Types fit the lines. -/
theorem gives_typeAfter : Declares hi about (typeAfter r about) := by
  have hclass : Declares hi about (classDeclaration r about) :=
    gives_then fun _ => gives_then fun _ => gives_clause <| gives_clause <| gives_clause <|
      (h.classBody _ hline.1).bind fun _ hds => gives_pure (.type hline hds)
  have hinterface : Declares hi about (interfaceDeclaration r about) :=
    gives_then fun _ => gives_then fun _ => gives_clause <| gives_clause <|
      (gives_bodyOf (gives_interfaceMember h hline.1)).bind fun _ hds =>
        gives_pure (.type hline hds)
  have hmark : Declares hi about (markTypeDeclaration r) :=
    gives_then fun _ => gives_then fun _ => gives_then fun _ => gives_then fun _ =>
      gives_then fun _ => gives_pure .other
  exact gives_test hclass <| gives_test (gives_enumDeclaration h hline) <|
    gives_test hinterface <| gives_test hmark (by rintro _ _ _ _ ⟨⟩)

end

/-! ### All rules -/

/-- **The rules** of every depth are sound. -/
theorem sound_rules (hi depth : Nat) : (rules depth).Sound hi := by
  induction depth with
  | zero => exact ⟨by rintro _ _ _ _ _ ⟨⟩, by rintro _ _ _ _ _ _ ⟨⟩, by rintro _ _ _ _ _ _ ⟨⟩,
      by rintro _ ⟨⟩, by rintro _ _ ⟨⟩⟩
  | succ depth ih => exact ⟨fun _ => gives_blockStatement ih, fun _ => gives_typeAfter ih,
      fun _ hlo => gives_bodyOf (gives_member ih hlo), by rintro _ ⟨⟩, by rintro _ _ ⟨⟩⟩

/-! ### Files -/

/-- The imports come **in order**, on lines of the file. -/
theorem gives_imports (n : Nat) : Gives lo hi
    (fun is => is.Pairwise (fun i j => i.line ≤ j.line) ∧ ∀ i ∈ is, Between lo hi i.line)
    (repeatUpTo (sees ["import"]) importClause n) := by
  induction n generalizing lo with
  | zero => exact gives_pure ⟨.nil, forall_mem_nil _⟩
  | succ n ih =>
    refine gives_test ?_ (gives_pure ⟨.nil, forall_mem_nil _⟩)
    rw [importClause, bind_assoc]
    refine gives_line (fun line hline => ?_) (by rintro _ ⟨⟩)
    simp only [bind_assoc, pure_bind]
    refine gives_then fun _ => gives_then fun _ => gives_then fun _ => gives_then fun _ => ?_
    refine ih.bind fun is his => gives_pure ⟨.cons (fun j hj => (his.2 j hj).1) his.1, ?_⟩
    exact forall_mem_cons.mpr
      ⟨hline, fun j hj => ⟨hline.1.trans (his.2 j hj).1, (his.2 j hj).2⟩⟩

/-- **The lines of a file**: its imports are in order, and its declarations fit. -/
structure File.Fits (hi : Nat) (f : File) : Prop where
  sorted : f.imports.Pairwise fun i j => i.line ≤ j.line
  between : ∀ i ∈ f.imports, Between 1 hi i.line
  types : AllFit hi f.types

/-- The types of a file fit the lines. -/
theorem gives_fileTypes (h : r.Sound hi) : Gives 1 hi (AllFit hi) (fileTypes r) := by
  have hone : Gives 1 hi (AllFit hi) (fileType r) :=
    gives_test (gives_pure (by rintro _ ⟨⟩)) <|
      gives_aboutNext (fun _ hline => gives_some (gives_typeAfter h hline)) fun _ => by rintro _ ⟨⟩
  intro ts ds rest hts heq
  unfold fileTypes at heq
  split at heq
  · rename_i os _ hos
    cases heq
    exact forall_mem_filterMap_id ((gives_then fun _ => hone.repeatUpTo _) hts hos)
  · cases heq
  · cases heq

/-- **A file fits** the lines that its tokens are on. -/
theorem fits_of_file {f : File} (hts : InLines 1 hi ts) (h : file ts = .ok f) : f.Fits hi := by
  have hunit : Gives 1 hi (File.Fits hi) (compilationUnit (rules (ts.length + 1))) :=
    gives_then fun _ => (gives_then fun _ => gives_imports _).bind fun _ his =>
      (gives_fileTypes (sound_rules hi _)).bind fun _ hds => gives_pure ⟨his.1, his.2, hds⟩
  rw [file] at h
  cases hout : compilationUnit (rules (ts.length + 1)) ts with
  | error fault =>
    rw [hout] at h
    cases h
  | ok out =>
    rw [hout] at h
    cases h
    exact hunit hts hout

/-- The lines that the tokens of a source text are **on**. -/
def tokenLines (source : String) : List Nat := ((tokens source).toOption.getD []).map Token.line

/-- Whatever is read as a file has **tokens**. -/
theorem exists_of_readFile {source : String} {f : File} (h : readFile source = .ok f) :
    ∃ ts, tokens source = .ok ts ∧ file ts = .ok f := by
  unfold readFile at h
  split at h <;> try cases h
  split at h <;> cases h
  exact ⟨_, ‹_›, ‹_›⟩

/-- A file fits the lines that the **tokens of its source text** are on. -/
theorem fits_of_readFile {source : String} {f : File} (h : readFile source = .ok f)
    (hlines : ∀ line ∈ tokenLines source, line ≤ hi) : f.Fits hi := by
  obtain ⟨ts, htokens, hfile⟩ := exists_of_readFile h
  obtain ⟨cs, -, hfrom⟩ := bind_eq_ok.mp htokens
  obtain ⟨hsorted, hpos⟩ := sorted_tokensFrom hfrom
  rw [tokenLines, htokens] at hlines
  exact fits_of_file ⟨hsorted, fun t ht => ⟨hpos t ht, hlines _ (mem_map_of_mem ht)⟩⟩ hfile

end DocTree.Java
