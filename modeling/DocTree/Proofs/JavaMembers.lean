import DocTree.Code.JavaOutline
import DocTree.Proofs.Lineages
import DocTree.Proofs.Value

/-!
# Members of Java types

A type is shown with its members below it, and so on for members of members. An enumeration is shown
without its members, so whatever is declared in one is missed.
-/

namespace DocTree

open List

/-- What a type or method is **known by**: its title, its kind and its first line. -/
structure Code.Label where
  title : String
  kind : Code.Kind
  line : Int
deriving DecidableEq

def Code.Node.label (n : Code.Node) : Code.Label := ⟨n.title, n.kind, n.first⟩

namespace Java

open Code

mutual

/-- The types and methods that a declaration **declares**, each with those around it, the nearest
first. -/
def declared (above : List Label) : Declaration → List (List Label)
  | .type kind name about members =>
    (⟨name, kind.nodeKind, about.line⟩ :: above) ::
      declaredAll (⟨name, kind.nodeKind, about.line⟩ :: above) members
  | .method m about => [⟨m.name ++ "()", .methodDecl, about.line⟩ :: above]
  | .other => []

/-- The types and methods that several declarations declare. -/
def declaredAll (above : List Label) : List Declaration → List (List Label)
  | [] => []
  | d :: rest => declared above d ++ declaredAll above rest

end

/-- Whether **no enumeration** is around a type or method. -/
def outsideEnums (lineage : List Label) : Bool := lineage.tail.all fun l => l.kind ≠ .enumDecl

/-- The types and methods that an outline **shows**, each with those around it. -/
def shownDeclarations (ns : List Node) : List (List Label) :=
  (lineagesOf [] (ns.filter fun n => n.kind ≠ .importGroup)).map (List.map Node.label)

mutual

/-- Whatever a declaration declares has around it what the declaration has around it. -/
theorem suffix_of_mem_declared {above l : List Label} : ∀ {d : Declaration}, l ∈ declared above d →
    above <:+ l.tail
  | .type kind name about members, h => by
    rw [declared] at h
    obtain rfl | h := mem_cons.mp h
    · exact suffix_rfl
    · exact (suffix_cons _ _).trans (suffix_of_mem_declaredAll h)
  | .method m about, h => by
    rw [declared] at h
    cases mem_singleton.mp h
    exact suffix_rfl
  | .other, h => by
    rw [declared] at h
    cases h

/-- What is declared has those around it. -/
theorem suffix_of_mem_declaredAll {above l : List Label} : ∀ {ds : List Declaration},
    l ∈ declaredAll above ds → above <:+ l.tail
  | [], h => by
    rw [declaredAll] at h
    cases h
  | d :: rest, h => by
    rw [declaredAll] at h
    obtain h | h := mem_append.mp h
    · exact suffix_of_mem_declared h
    · exact suffix_of_mem_declaredAll h

end

/-- **Nothing below an enumeration** is outside of enumerations. -/
theorem filter_declaredAll_eq_nil {above : List Label} (h : ∃ l ∈ above, l.kind = .enumDecl)
    (ds : List Declaration) : (declaredAll above ds).filter outsideEnums = [] := by
  refine filter_eq_nil_iff.mpr fun l hl hout => ?_
  obtain ⟨e, he, hkind⟩ := h
  have := all_eq_true.mp hout e ((suffix_of_mem_declaredAll hl).subset he)
  simp [hkind] at this

mutual

/-- **The node of a declaration** lies below the types around it, and above what is right in its
body. -/
theorem lineagesOf_memberNode {up : List Node}
    (hup : ∀ l ∈ up.map Node.label, l.kind ≠ .enumDecl) : ∀ d : Declaration,
    (lineagesOf up (memberNode d)).map (List.map Node.label) =
      (declared (up.map Node.label) d).filter outsideEnums
  | .type kind name about members => by
    have hout : outsideEnums (⟨name, kind.nodeKind, about.line⟩ :: up.map Node.label) :=
      all_eq_true.mpr fun l hl => decide_eq_true (hup l hl)
    rw [declared, filter_cons, if_pos hout]
    cases kind with
    | enumType =>
      rw [filter_declaredAll_eq_nil ⟨_, .head _, rfl⟩]
      rfl
    | _ =>
      rw [memberNode, lineagesOf, lineagesOf, append_nil, lineages_eq_cons, map_cons]
      · exact congrArg (List.cons _) (@lineagesOf_memberNodes (_ :: up)
          (forall_mem_cons.mpr ⟨Kind.noConfusion, hup⟩) members)
      · exact TypeKind.noConfusion
  | .method m about => by
    have hout : outsideEnums (⟨m.name ++ "()", .methodDecl, about.line⟩ :: up.map Node.label) :=
      all_eq_true.mpr fun l hl => decide_eq_true (hup l hl)
    rw [declared, filter_cons, if_pos hout]
    rfl
  | .other => rfl

/-- The nodes of declarations, one by one. -/
theorem lineagesOf_memberNodes {up : List Node}
    (hup : ∀ l ∈ up.map Node.label, l.kind ≠ .enumDecl) : ∀ ds : List Declaration,
    (lineagesOf up (memberNodes ds)).map (List.map Node.label) =
      (declaredAll (up.map Node.label) ds).filter outsideEnums
  | [] => rfl
  | d :: rest => by
    rw [memberNodes, lineagesOf_eq_flatMap, flatMap_append, ← lineagesOf_eq_flatMap,
      ← lineagesOf_eq_flatMap, map_append, lineagesOf_memberNode hup d,
      lineagesOf_memberNodes hup rest, declaredAll, filter_append]

end

/-- Members are no imports. -/
theorem kind_of_mem_memberNodes {n : Node} {ds : List Declaration} (h : n ∈ memberNodes ds) :
    n.kind ≠ .importGroup := by
  induction ds with
  | nil => cases h
  | cons d rest ih =>
    rw [memberNodes] at h
    obtain h | h := mem_append.mp h
    · cases d with
      | type kind => cases kind <;> cases mem_singleton.mp h <;> exact Kind.noConfusion
      | method => cases mem_singleton.mp h; exact Kind.noConfusion
      | other => cases h
    · exact ih h

/-- A file shows what is outside enumerations. -/
theorem shownDeclarations_outlineOf (f : File) :
    shownDeclarations (outlineOf f) = (declaredAll [] f.types).filter outsideEnums := by
  have himports : ∀ run, (importGroup run).filter (fun n => n.kind ≠ .importGroup) = [] := by
    intro run
    cases run <;> rfl
  have hmembers : (memberNodes f.types).filter (fun n => n.kind ≠ .importGroup) =
      memberNodes f.types :=
    filter_eq_self.mpr fun n hn => decide_eq_true (kind_of_mem_memberNodes hn)
  rw [shownDeclarations, outlineOf, filter_append, himports, hmembers]
  exact lineagesOf_memberNodes (forall_mem_nil _) f.types

/-! ### Source texts -/

/-- A source text that a reader reads **has an outline**. -/
theorem outline_of_read {read : Reader} {source : String} {f : File} (h : read source = .ok f) :
    outline read source = .ok (outlineOf f) := by
  rw [outline, h]

/-- **Enumerations hide their members**, whatever reads the files. The outline of what is read as a
file shows the types and methods around which there is no enumeration, each once, in order and below
those around it. So it shows all that the file declares exactly if nothing is declared in an
enumeration. -/
theorem enumerations_hide_members {read : Reader} {source : String} {f : File}
    (h : read source = .ok f) :
    ∃ ns, outline read source = .ok ns ∧
      shownDeclarations ns = (declaredAll [] f.types).filter outsideEnums ∧
      (shownDeclarations ns = declaredAll [] f.types ↔
        ∀ l ∈ declaredAll [] f.types, outsideEnums l = true) := by
  refine ⟨outlineOf f, outline_of_read h, shownDeclarations_outlineOf f, ?_⟩
  rw [shownDeclarations_outlineOf, filter_eq_self]

/-- A class with a method and a class in it. -/
def shelfSource : String := "class A { void f() { } class B { B(int n) { } } }"

/-- A file without members of enumerations. -/
theorem shelf_is_shown : ∃ f ns, readFile shelfSource = .ok f ∧
    outline readFile shelfSource = .ok ns ∧ shownDeclarations ns = declaredAll [] f.types ∧
    (declaredAll [] f.types).length = 4 := by
  have hshelf : (fun f => ((declaredAll [] f.types).all outsideEnums,
      (declaredAll [] f.types).length)) <$> readFile shelfSource = .ok (true, 4) := by
    decide +kernel
  obtain ⟨f, hf, heq⟩ := map_eq_ok_iff.mp hshelf
  obtain ⟨hall, hlength⟩ := Prod.mk.inj heq.symm
  obtain ⟨ns, hns, -, hiff⟩ := enumerations_hide_members hf
  exact ⟨f, ns, hf, hns, hiff.mpr (all_eq_true.mp hall), hlength⟩

/-- An enumeration with a method. -/
def enumSource : String := "enum E { A; void f() { } }"

/-- The method of the enumeration is **not shown**. -/
theorem method_of_enumeration_is_hidden : ∃ f ns, readFile enumSource = .ok f ∧
    outline readFile enumSource = .ok ns ∧ shownDeclarations ns = [[⟨"E", .enumDecl, 1⟩]] ∧
    declaredAll [] f.types =
      [[⟨"E", .enumDecl, 1⟩], [⟨"f()", .methodDecl, 1⟩, ⟨"E", .enumDecl, 1⟩]] := by
  have henum : (fun f => (shownDeclarations (outlineOf f), declaredAll [] f.types)) <$>
      readFile enumSource = .ok ([[⟨"E", .enumDecl, 1⟩]],
        [[⟨"E", .enumDecl, 1⟩], [⟨"f()", .methodDecl, 1⟩, ⟨"E", .enumDecl, 1⟩]]) := by
    decide +kernel
  obtain ⟨f, hf, heq⟩ := map_eq_ok_iff.mp henum
  obtain ⟨hshown, hdeclared⟩ := Prod.mk.inj heq.symm
  exact ⟨f, _, hf, outline_of_read hf, hshown, hdeclared⟩

end Java

end DocTree
