import DocTree.Proofs.Directory

/-!
# Source files that are not read

A source text that its parser rejects mostly has a node with nothing below it. But some texts make
the whole work fail, and one such file is enough for a directory to have no tree.
-/

namespace DocTree.Code

open Outline Run List

variable {source : String}

/-! ### Texts that fail, and texts that are rejected -/

/-- Work for a text in a language **fails**. -/
inductive Fails (read : Java.Reader) : Language → String → Failure → Prop
  | unreadable {text : String} {why : Failure} (h : read text = .error (.failure why)) :
      Fails read .java text why
  | undefinedName (text : String) : Fails read .kotlin text .undefinedName
  | unprintable {text : String} {body : List Python.Statement} {why : Failure}
      (hnull : Char.ofNat 0 ∉ text.toList) (h : Python.parseModule? text = some body)
      (hbody : Python.outlineOf body = .error why) : Fails read .python text why

/-- The parser of a language **rejects** a text. For C and C++ it has no tree of this number. -/
inductive Rejects (around : Surroundings) (parses : Nat) : Language → String → Prop
  | noFile {text : String} {fault : Java.ReadFault} (h : around.readJava text = .error fault) :
      Rejects around parses .java text
  | noTree (text : String) (h : (around.trees[parses]?).join = none) :
      Rejects around parses .native text
  | null {text : String} (h : Char.ofNat 0 ∈ text.toList) : Rejects around parses .python text
  | noModule {text : String} (h : Python.parseModule? text = none) :
      Rejects around parses .python text

/-- **When reading a Java text fails**: at a bad token or escape, or if the tokens end too early. -/
theorem readFile_eq_failure_iff {why : Failure} :
    Java.readFile source = .error (.failure why) ↔
      (Java.tokens source = .error .unreadable ∧ why = .unreadableToken) ∨
      (Java.tokens source = .error .notACharacter ∧ why = .complaint .notACharacter) ∨
      ∃ ts, Java.tokens source = .ok ts ∧ Java.file ts = .error .exhausted ∧
        why = .tokensExhausted := by
  unfold Java.readFile
  cases htokens : Java.tokens source with
  | error fault => cases fault <;> simp [eq_comm]
  | ok ts =>
    cases hfile : Java.file ts with
    | error fault => cases fault <;> simp [hfile, eq_comm]
    | ok f => simp [hfile]

/-- When a Java text fails. -/
theorem javaOutline_eq_error_iff {read : Java.Reader} {why : Failure} :
    Java.outline read source = .error why ↔ Fails read .java source why := by
  constructor
  · intro h
    unfold Java.outline at h
    split at h
    · cases h
    · cases h
    · cases h
      exact .unreadable ‹_›
  · intro h
    cases h with
    | unreadable h => rw [Java.outline, h]

/-- When a Python text fails. -/
theorem pythonOutline_eq_error_iff {read : Java.Reader} {why : Failure} :
    Python.outline source = .error why ↔ Fails read .python source why := by
  constructor
  · intro h
    unfold Python.outline at h
    split at h
    · cases h
    · rename_i hnull
      split at h
      · exact .unprintable (by simpa using hnull) ‹_› h
      · cases h
  · intro h
    cases h with
    | unprintable hnull h hbody =>
      rw [Python.outline, if_neg (by simpa using hnull), h]
      exact hbody

/-- A rejected Java text has no outline. -/
theorem javaOutline_of_rejects {around : Surroundings} {parses : Nat} {ns : List Node}
    (h : Rejects around parses .java source) (hns : Java.outline around.readJava source = .ok ns) :
    ns = [] := by
  unfold Java.outline at hns
  cases h with
  | @noFile _ fault h =>
    rw [h] at hns
    cases fault <;> cases hns
    rfl

/-- A rejected Python text has no nodes. -/
theorem pythonOutline_of_rejects {around : Surroundings} {parses : Nat} {ns : List Node}
    (h : Rejects around parses .python source) (hns : Python.outline source = .ok ns) :
    ns = [] := by
  unfold Python.outline at hns
  cases h with
  | null h =>
    rw [if_pos (by simpa using h)] at hns
    cases hns
    rfl
  | noModule h =>
    rw [h] at hns
    split at hns <;> cases hns <;> rfl

/-! ### Work for one text -/

/-- What is known of the **outline** of a text: its lines, that it is empty if the text is rejected,
and how often it was parsed. -/
structure IsOutline (around : Surroundings) (language : Language) (source : String)
    (l l' : Ledger) (nodes : List Value) : Prop where
  lines : ∀ v ∈ nodes, NodeTree (fun fs => IsDeclaration fs ∧ HasLines fs) v
  rejected : Rejects around l.parses language source → nodes = []
  parses : l'.parses = l.parses + if language = .native then 1 else 0

section

variable {around : Surroundings} (session : Session) (l : Ledger)

/-- A pure outline **fails or is one**. -/
theorem lift_outline_cases {language : Language} {result : Except Failure (List Node)}
    (hlanguage : language ≠ .native)
    (herror : ∀ {why}, result = .error why ↔ Fails around.readJava language source why)
    (hregular : ∀ {ns}, result = .ok ns → AllRegular ns)
    (hrejects : ∀ {ns}, Rejects around l.parses language source →
      result = .ok ns → ns = []) :
    (∃ why, Fails around.readJava language source why ∧
      (do return Node.values (← result) : Run (List Value)).execute session l =
        (.error why, l)) ∨
    ((∀ why, ¬ Fails around.readJava language source why) ∧ ∃ nodes l',
      (do return Node.values (← result) : Run (List Value)).Returns session l nodes l' ∧
        IsOutline around language source l l' nodes) := by
  cases hresult : result with
  | error why => exact .inl ⟨why, herror.mp hresult, rfl⟩
  | ok ns =>
    refine .inr ⟨fun why hwhy => ?_, Node.values ns, l, rfl,
      nodeTree_of_mem_values (hregular hresult), fun h => ?_, ?_⟩
    · cases hresult.symm.trans (herror.mpr hwhy)
    · rw [hrejects h hresult]
      rfl
    · rw [if_neg hlanguage, Nat.add_zero]

/-- Making the outline of a text **fails or gives one**. -/
theorem outline_cases (hlast : around.lastImports = {}) (language : Language)
    (path source : String) :
    (∃ why, Fails around.readJava language source why ∧
      (outline around language path source).execute session l = (.error why, l)) ∨
    ((∀ why, ¬ Fails around.readJava language source why) ∧ ∃ nodes l',
      (outline around language path source).Returns session l nodes l' ∧
        IsOutline around language source l l' nodes) := by
  cases language with
  | java =>
    exact lift_outline_cases session l nofun javaOutline_eq_error_iff regular_javaOutline
      javaOutline_of_rejects
  | kotlin =>
    refine .inl ⟨.undefinedName, .undefinedName source, ?_⟩
    rw [outline, hlast]
    rfl
  | native =>
    obtain ⟨ns, l', hns, hregular, hnone, hparses⟩ :=
      exists_nativeOutline around.trees path session l
    refine .inr ⟨nofun, Node.values ns, l', hns.bind rfl,
      nodeTree_of_mem_values hregular, fun h => ?_, hparses⟩
    cases h with
    | noTree _ h =>
      rw [hnone h]
      rfl
  | python =>
    exact lift_outline_cases session l nofun pythonOutline_eq_error_iff regular_pythonOutline
      pythonOutline_of_rejects

/-- Making a node **fails or gives one**, with nothing below it if the text is rejected. -/
theorem fileNode_cases (hlast : around.lastImports = {}) (language : Language)
    (path source : String) :
    (∃ why, Fails around.readJava language source why ∧
      (fileNode around language path source).execute session l = (.error why, l)) ∨
    ((∀ why, ¬ Fails around.readJava language source why) ∧ ∃ v l',
      (fileNode around language path source).Returns session l v l' ∧
        (Rejects around l.parses language source → children v = []) ∧
        l'.parses = l.parses + if language = .native then 1 else 0) := by
  rcases outline_cases session l hlast language path source with
    ⟨why, hfails, herror⟩ | ⟨hnot, nodes, l', hnodes, hlines, hrejected, hparses⟩
  · exact .inl ⟨why, hfails, execute_bind_of_error herror⟩
  · obtain ⟨v, hv⟩ := exists_fileNode hnodes hlines
    refine .inr ⟨hnot, v, l', hv, fun hrejects => ?_, hparses⟩
    obtain ⟨nodes', l₁, hnodes', hv⟩ := hv.of_bind
    obtain ⟨rfl, rfl⟩ := hnodes'.unique hnodes
    obtain ⟨texts, _, htexts, hv⟩ := hv.of_bind
    cases hv
    obtain ⟨below, rfl, hbelow⟩ := addTexts_list_eq_ok_iff.mp htexts.of_lift
    rw [hrejected hrejects] at hbelow
    cases hbelow
    rfl

end

/-! ### Work for the files of a directory -/

/-- Work for a source file that is found along names below a path **fails**. -/
def FailsAt (read : Java.Reader) (path : String) (s : List String × String) (why : Failure) :
    Prop :=
  ∃ language, Language.ofName? (Path.along path s.1) = some language ∧
    Fails read language (Files.uniform s.2) why

/-- A source file that is found along names, before which a number of files has been parsed, is
**rejected**. -/
def RejectsAt (around : Surroundings) (path : String) (s : Nat × List String × String) : Prop :=
  ∃ language, Language.ofName? (Path.along path s.2.1) = some language ∧
    Rejects around s.1 language (Files.uniform s.2.2)

/-- Source files, each with the number of C and C++ files that have been parsed **before it**. -/
def withParses (path : String) : Nat → List (List String × String) →
    List (Nat × List String × String)
  | _, [] => []
  | parses, s :: rest =>
    (parses, s) :: withParses path
      (parses + if Language.ofName? (Path.along path s.1) = some .native then 1 else 0) rest

/-- The node of a source file, with nothing below it if the file is rejected. -/
def IsTolerated (around : Surroundings) (path : String) (s : Nat × List String × String)
    (v : Value) : Prop :=
  IsFileAlong path s.2 v ∧ (RejectsAt around path s → children v = [])

/-- Paths of source files have source names. -/
theorem Leads.isSourceName {e : Entry} {names : List String} {text : Option String}
    (h : Leads e names text) (path : String) : IsSourceName (Path.along path names) := by
  induction h generalizing path with
  | file _ hsource _ => exact hsource.join path
  | directory _ _ _ ih => exact ih _

section

variable {around : Surroundings} {path : String} (session : Session)

/-- Visiting a source file **fails or gives its node**. -/
theorem visit_cases (hlast : around.lastImports = {}) {s : List String × String}
    (hsource : IsSourceName (Path.along path s.1)) (l : Ledger) :
    (∃ why, FailsAt around.readJava path s why ∧
      (visit around path s).execute session l = (.error why, l)) ∨
    ((∀ why, ¬ FailsAt around.readJava path s why) ∧ ∃ v l',
      (visit around path s).Returns session l (some v) l' ∧
        IsTolerated around path (l.parses, s) v ∧
        l'.parses = l.parses +
          if Language.ofName? (Path.along path s.1) = some .native then 1 else 0) := by
  obtain ⟨language, hlanguage⟩ := exists_language hsource
  have hunique : ∀ {language'}, Language.ofName? (Path.along path s.1) = some language' →
      language' = language := fun h => Option.some.inj (h.symm.trans hlanguage)
  rcases fileNode_cases session l hlast language (Path.along path s.1) (Files.uniform s.2) with
    ⟨why, hfails, herror⟩ | ⟨hnot, v, l', hv, hrejected, hparses⟩
  · refine .inl ⟨why, ⟨language, hlanguage, hfails⟩, ?_⟩
    rw [visit, entryNode, hlanguage]
    exact execute_bind_of_error herror
  · have hvisit : (visit around path s).Returns session l (some v) l' := by
      rw [visit, entryNode, hlanguage]
      exact hv.bind rfl
    refine .inr ⟨?_, v, l', hvisit, ⟨isFileNode_of_fileNode hv, ?_⟩, ?_⟩
    · rintro why ⟨language', hlanguage', hfails⟩
      obtain rfl := hunique hlanguage'
      exact hnot why hfails
    · rintro ⟨language', hlanguage', hrejects⟩
      obtain rfl := hunique hlanguage'
      exact hrejected hrejects
    · rw [hparses, hlanguage]
      simp

/-- **Visiting source files in turn** fails as one of them does, or gives the node of each. -/
theorem mapM_visit_cases (hlast : around.lastImports = {}) {files : List (List String × String)}
    (hsource : ∀ s ∈ files, IsSourceName (Path.along path s.1)) (l : Ledger) :
    (∃ s ∈ files, ∃ why, FailsAt around.readJava path s why ∧
      ((files.mapM (visit around path)).execute session l).1 = .error why) ∨
    ((∀ s ∈ files, ∀ why, ¬ FailsAt around.readJava path s why) ∧ ∃ vs l',
      Returns (files.mapM (visit around path)) session l (vs.map some) l' ∧
        Forall₂ (IsTolerated around path) (withParses path l.parses files) vs) := by
  -- from file to file, the ledger counts what has been parsed
  induction files generalizing l with
  | nil => exact .inr ⟨forall_mem_nil _, [], l, rfl, .nil⟩
  | cons s rest ih =>
    obtain ⟨hs, hrest⟩ := forall_mem_cons.mp hsource
    rw [mapM_cons]
    rcases visit_cases session hlast hs l with
      ⟨why, hfails, herror⟩ | ⟨hnot, v, between, hv, htolerated, hparses⟩
    · exact .inl ⟨s, .head _, why, hfails, by rw [execute_bind_of_error herror]⟩
    · rcases ih hrest between with ⟨t, ht, why, hfails, herror⟩ | ⟨hnots, vs, l', hvs, hall⟩
      · refine .inl ⟨t, .tail _ ht, why, hfails, ?_⟩
        rw [execute_bind, hv]
        exact congrArg Prod.fst (execute_bind_of_error (Prod.ext herror rfl))
      · refine .inr ⟨forall_mem_cons.mpr ⟨hnot, hnots⟩, v :: vs, l', ?_, ?_⟩
        · exact hv.bind (hvs.bind rfl)
        · rw [hparses] at hall
          exact .cons htolerated hall

end

/-- **A directory has a tree exactly if no source file in it makes the work fail.** Otherwise the
work fails as it does for one of them. Every source file that its parser rejects has a node with
nothing below it. -/
theorem directory_fails_iff_file_fails {around : Surroundings} {path : String}
    {entries : List (String × Entry)} (hfind : around.files.find path = .ok (.directory entries))
    (hlast : around.lastImports = {}) (session : Session) (l : Ledger) :
    ((∃ tree l', (directoryTree around path).Returns session l (some tree) l') ↔
      ∀ names text, Leads (.directory entries) names (some text) →
        ∀ why, ¬ FailsAt around.readJava path (names, text) why) ∧
    (∀ why, ((directoryTree around path).execute session l).1 = .error why →
      ∃ names text, Leads (.directory entries) names (some text) ∧
        FailsAt around.readJava path (names, text) why) ∧
    ∀ tree l', (directoryTree around path).Returns session l (some tree) l' →
      ∃ ns, nodes tree = .ok (some ns) ∧
        ∀ s ∈ withParses path l.parses (sources (Entry.directory entries).sorted),
          ∃ v ∈ ns, IsTolerated around path s v := by
  have hstep := directoryTree_inStep hfind
  rcases mapM_visit_cases session hlast
    (fun s hs => (mem_sources_sorted_iff.mp hs).isSourceName path) l with
    ⟨s, hs, why, hfails, herror⟩ | ⟨hnot, vs, l', hvs, hall⟩
  · -- a file fails, and the directory with it
    have herror := hstep.error_left herror
    have hnone : ∀ tree l',
        ¬ (directoryTree around path).Returns session l tree l' := by
      intro tree l' h
      rw [h] at herror
      cases herror
    refine ⟨⟨fun ⟨tree, l', h⟩ => absurd h (hnone _ _), fun h => ?_⟩, fun why' h => ?_,
      fun tree l' h => absurd h (hnone _ _)⟩
    · exact absurd hfails (h s.1 s.2 (mem_sources_sorted_iff.mp hs) why)
    · cases herror.symm.trans h
      exact ⟨s.1, s.2, mem_sources_sorted_iff.mp hs, hfails⟩
  · obtain ⟨_, htree, tree, vs', rfl, hvs', hmade⟩ := hstep.exists_left hvs
    obtain rfl := map_injective_iff.mpr (Option.some_injective _) hvs'
    refine ⟨⟨fun _ names text h => hnot _ (mem_sources_sorted_iff.mpr h),
      fun _ => ⟨tree, l', htree⟩⟩, fun why h => ?_, fun tree' l'' h => ?_⟩
    · rw [htree] at h
      cases h
    · cases (h.unique htree).1
      obtain ⟨ns, hns, rfl⟩ := hmade.exists_nodes
      refine ⟨ns, hns, fun s hs => ?_⟩
      obtain ⟨v, hv, htolerated⟩ := exists_right_of_forall₂ hall s hs
      exact ⟨v, mem_of_mem_filter hv, htolerated⟩

/-- Files that are rejected, and do no harm: one of Java, one of Python, and one of C without a
tree. -/
def brokenProject : List (String × Entry) :=
  [("Broken.java", .file (some "class \x7b\n")), ("broken.py", .file (some "def (:\n")),
    ("lost.c", .file (some "int\n"))]

/-- No file of the broken project fails. -/
theorem not_failsAt_brokenProject {names : List String} {text : String}
    (h : Leads (.directory brokenProject) names (some text)) (why : Failure) :
    ¬ FailsAt Java.readFile "project" (names, text) why := by
  have hsources : sources (Entry.directory brokenProject).sorted =
      [(["Broken.java"], "class \x7b\n"), (["broken.py"], "def (:\n"), (["lost.c"], "int\n")] := by
    decide +kernel
  have hmem := mem_sources_sorted_iff.mpr h
  rw [hsources] at hmem
  rintro ⟨language, hlanguage, hfails⟩
  simp only [mem_cons, not_mem_nil, or_false, Prod.mk.injEq] at hmem
  rcases hmem with ⟨rfl, rfl⟩ | ⟨rfl, rfl⟩ | ⟨rfl, rfl⟩
  · have hjava : Language.ofName? (Path.along "project" ["Broken.java"]) = some .java := by
      decide +kernel
    have hok : (Java.outline Java.readFile (Files.uniform "class \x7b\n")).toOption.isSome =
        true := by
      decide +kernel
    cases hjava.symm.trans hlanguage
    rw [javaOutline_eq_error_iff.mpr hfails] at hok
    cases hok
  · have hpython : Language.ofName? (Path.along "project" ["broken.py"]) = some .python := by
      decide +kernel
    have hok : (Python.outline (Files.uniform "def (:\n")).toOption.isSome = true := by
      decide +kernel
    cases hpython.symm.trans hlanguage
    rw [pythonOutline_eq_error_iff.mpr hfails] at hok
    cases hok
  · have hnative : Language.ofName? (Path.along "project" ["lost.c"]) = some .native := by
      decide +kernel
    cases hnative.symm.trans hlanguage
    cases hfails

/-- The broken project has a tree. -/
theorem broken_project_tolerated :
    (holding brokenProject).find "project" = .ok (.directory brokenProject) ∧
      ∃ tree l' ns, (directoryTree { files := holding brokenProject } "project").Returns
        (scripted []) {} (some tree) l' ∧ nodes tree = .ok (some ns) ∧
        ∀ s ∈ withParses "project" 0 (sources (Entry.directory brokenProject).sorted),
          ∃ v ∈ ns, IsTolerated { files := holding brokenProject } "project" s v := by
  obtain ⟨hreturns, -, htolerates⟩ := @directory_fails_iff_file_fails
    { files := holding brokenProject } "project" brokenProject rfl rfl (scripted []) {}
  obtain ⟨tree, l', htree⟩ := hreturns.mpr fun names text => not_failsAt_brokenProject
  obtain ⟨ns, hns, hall⟩ := htolerates tree l' htree
  exact ⟨rfl, tree, l', ns, htree, hns, hall⟩

/-- A Java file with a character that is no token, beside a Python file. -/
def spoiledProject : List (String × Entry) :=
  [("A.java", .file (some "class A \x7b int x = #; \x7d\n")), ("b.py", .file (some "x = 1\n"))]

/-- **One file is enough** for a directory to have no tree. -/
theorem unreadable_token_spoils_directory :
    ((directoryTree { files := holding spoiledProject } "project").execute (scripted []) {}).1 =
      .error .unreadableToken := by
  decide +kernel

end DocTree.Code
