import DocTree.Proofs.Lineages
import Mathlib.Data.List.Sort

/-!
# Declarations and the balance of braces

A declaration is open until a later line of code takes the **balance** of braces back to its base.
What is declared in the meantime has no lower base, so it is enough to look at the innermost open
declaration.
-/

namespace DocTree.Kotlin

open Code Forest List

/-! ### Lines by their numbers -/

/-- By how much a line changes the balance; imports do not. -/
def Line.change : Line → Int
  | .imports _ => 0
  | .code change _ _ _ => change

/-- Whether a line is code, and not an import. -/
def Line.isCode : Line → Bool
  | .imports _ => false
  | .code _ _ _ _ => true

/-- Whether a line is code with an opening brace. -/
def Line.hasBrace : Line → Bool
  | .imports _ => false
  | .code _ hasBrace _ _ => hasBrace

/-- What a line declares. -/
def Line.head? : Line → Option Head
  | .imports _ => none
  | .code _ _ head _ => head

/-- The title of a declaration. -/
def Head.title : Head → String
  | .type _ name => name
  | .function name _ => name ++ "()"

/-- The kind of a declaration, which may be directly within a type. -/
def Head.kind (inType : Bool) : Head → Kind
  | .type kind _ => kind
  | .function _ _ => if inType then .methodDecl else .functionDecl

/-- The details of a declaration. -/
def Head.details : Head → Fields
  | .type _ _ => []
  | .function _ signature => [("signature", .str signature)]

section

variable (lines : List Line)

/-- The **balance** of braces after the first `n` lines. -/
def balanceAfter (n : Nat) : Int := (lines.take n).foldl (fun balance l => balance + l.change) 0

/-- Whether there is code on line `i`, where lines are counted from zero. -/
def isCodeAt (i : Nat) : Bool := lines[i]?.any Line.isCode

/-- What is declared on line `i`. -/
def headAt? (i : Nat) : Option Head := lines[i]?.bind Line.head?

/-- The **base** of what line `d` declares: the balance after the line, less one if it has an
opening brace. -/
def baseAt (d : Nat) : Int :=
  balanceAfter lines (d + 1) - if lines[d]?.any Line.hasBrace then 1 else 0

/-- What line `d` declares is **open** until line `n`: on all lines of code between them the balance
is above the base. -/
def OpenUntil (d n : Nat) : Prop :=
  ∀ l < n, d < l → isCodeAt lines l = true → baseAt lines d < balanceAfter lines (l + 1)

instance (d n : Nat) : Decidable (OpenUntil lines d n) :=
  inferInstanceAs (Decidable (∀ l < n, _ → _ → _))

/-- The lines before line `n` that declare something. -/
def declaredBefore (n : Nat) : List Nat := (List.range n).filter fun d => (headAt? lines d).isSome

/-- The declarations before line `n` that are open until line `m`, the latest first. -/
def openDeclarations (n m : Nat) : List Nat :=
  ((declaredBefore lines n).filter fun d => OpenUntil lines d m).reverse

/-- The declarations that **enclose** the one on line `d`: those before it that are still open on
that line. -/
def enclosing (d : Nat) : List Nat := openDeclarations lines d (d + 1)

/-- The line on which a declaration **ends**, as far as the lines before `n` tell: the first later
line of code that takes the balance back to the base, or else its own. -/
def endWithin (n d : Nat) : Nat :=
  ((List.range n).find? fun l =>
    d < l ∧ isCodeAt lines l = true ∧ balanceAfter lines (l + 1) ≤ baseAt lines d).getD d

/-- Whether a type is declared on line `d`. -/
def isTypeAt (d : Nat) : Bool := (headAt? lines d).any Tracker.isTypeHead

/-- The **node** of the declaration on line `d`, as far as the lines before `n` tell. A function in
a type is a method. -/
def nodeWithin (n d : Nat) : Node :=
  let head := (headAt? lines d).getD (.function "" "")
  .mk head.title (head.kind ((enclosing lines d).head?.any (isTypeAt lines))) (d + 1)
    (endWithin lines n d + 1) head.details []

end

section

variable {lines : List Line} {n m d e : Nat} {l : Line}

/-- Declarations are code. -/
theorem isCodeAt_of_isSome (h : (headAt? lines d).isSome) : isCodeAt lines d = true := by
  unfold headAt? at h
  unfold isCodeAt
  cases hl : lines[d]? with
  | none => simp [hl] at h
  | some l => cases l <;> simp_all [Line.head?, Line.isCode]

/-- The balance after one more line. -/
theorem balanceAfter_succ (h : lines[n]? = some l) :
    balanceAfter lines (n + 1) = balanceAfter lines n + l.change := by
  rw [balanceAfter, balanceAfter, take_add_one, h]
  simp

/-- What is declared before a line. -/
theorem mem_declaredBefore_iff :
    d ∈ declaredBefore lines n ↔ d < n ∧ (headAt? lines d).isSome := by
  simp [declaredBefore]

/-- What is declared before a line and still open. -/
theorem mem_openDeclarations_iff :
    d ∈ openDeclarations lines n m ↔
      (d < n ∧ (headAt? lines d).isSome) ∧ OpenUntil lines d m := by
  simp [openDeclarations, mem_declaredBefore_iff]

/-- A declaration stays open for one more line. -/
theorem openUntil_succ_iff :
    OpenUntil lines d (n + 1) ↔ OpenUntil lines d n ∧
      (d < n → isCodeAt lines n = true → baseAt lines d < balanceAfter lines (n + 1)) :=
  Nat.forall_lt_succ_right

/-- The **bases of open declarations ascend**: what is declared within has no lower base. -/
theorem baseAt_le (hed : e < d) (hd : (headAt? lines d).isSome) (he : OpenUntil lines e (d + 1)) :
    baseAt lines e ≤ baseAt lines d := by
  have := he d (Nat.lt_succ_self d) hed (isCodeAt_of_isSome hd)
  rw [baseAt.eq_def lines d]
  split <;> omega

/-- Open declarations come innermost first. -/
theorem pairwise_openDeclarations (lines : List Line) (n m : Nat) :
    (openDeclarations lines n m).Pairwise (· > ·) :=
  pairwise_reverse.mpr ((pairwise_lt_range.filter _).filter _)

/-- What encloses an open declaration stays open as long as the declaration does. -/
theorem OpenUntil.of_enclosing (hed : e < d) (hd : (headAt? lines d).isSome)
    (he : OpenUntil lines e (d + 1)) (h : OpenUntil lines d m) : OpenUntil lines e m := by
  intro l hl hel hcode
  rcases Nat.lt_or_ge d l with hdl | hld
  · exact Int.lt_of_le_of_lt (baseAt_le hed hd he) (h l hl hdl hcode)
  · exact he l (Nat.lt_succ_of_le hld) hel hcode

/-- What encloses a declaration is the nearest declaration that does, and what encloses that. -/
theorem enclosing_eq_cons (h : (enclosing lines d).head? = some e) :
    enclosing lines d = e :: enclosing lines e := by
  obtain ⟨rest, hrest⟩ := head?_eq_some_iff.mp h
  have hsorted := pairwise_openDeclarations lines d (d + 1)
  rw [← enclosing, hrest, pairwise_cons] at hsorted
  obtain ⟨⟨hed, he⟩, hopen⟩ := mem_openDeclarations_iff.mp (hrest ▸ (.head _) :
    e ∈ enclosing lines d)
  rw [hrest]
  refine congrArg _ (hsorted.2.eq_of_mem_iff (pairwise_openDeclarations lines e (e + 1))
    fun f => ⟨fun hf => ?_, fun hf => ?_⟩)
  · obtain ⟨⟨-, hf'⟩, hfopen⟩ := mem_openDeclarations_iff.mp (hrest ▸ mem_cons_of_mem e hf :
      f ∈ enclosing lines d)
    exact mem_openDeclarations_iff.mpr ⟨⟨hsorted.1 f hf, hf'⟩, fun l hl => hfopen l (by omega)⟩
  · obtain ⟨⟨hfe, hf'⟩, hfopen⟩ := mem_openDeclarations_iff.mp hf
    have : f ∈ enclosing lines d := mem_openDeclarations_iff.mpr
      ⟨⟨hfe.trans hed, hf'⟩, hfopen.of_enclosing hfe he hopen⟩
    rw [hrest] at this
    exact (mem_cons.mp this).resolve_left hfe.ne

/-! ### Ends -/

/-- A declaration is open as long as no line ends it. -/
theorem find?_eq_none_iff_openUntil : ((List.range n).find? fun l =>
    d < l ∧ isCodeAt lines l = true ∧ balanceAfter lines (l + 1) ≤ baseAt lines d) = none ↔
      OpenUntil lines d n := by
  simp [OpenUntil]

/-- One more line ends what is open and has its base at or above the balance. -/
theorem endWithin_succ (lines : List Line) (n d : Nat) :
    endWithin lines (n + 1) d =
      if OpenUntil lines d n ∧ d < n ∧ isCodeAt lines n = true ∧
        balanceAfter lines (n + 1) ≤ baseAt lines d then n else endWithin lines n d := by
  simp only [← find?_eq_none_iff_openUntil]
  rw [endWithin, endWithin, range_succ, find?_append]
  cases (List.range n).find? _ with
  | none => rw [Option.none_or, find?_singleton]; split <;> simp_all
  | some l => simp

end

/-! ### Lines one after another -/

/-- Whether nodes of a kind are declarations, and not imports. -/
def isDeclared (kind : Kind) : Bool := kind ≠ .importGroup && kind ≠ .importLine

namespace Tracker

/-- Two parts of a file in turn. -/
theorem run_append (t : Tracker) (line : Nat) (as bs : List Line) :
    t.run line (as ++ bs) = (t.run line as).run (line + as.length) bs := by
  induction as generalizing t line with
  | nil => rfl
  | cons a as ih =>
    rw [cons_append, run, ih, run, length_cons, Nat.add_assoc, Nat.add_comm 1]

/-- **Closing is a filter**, because the bases descend: the scopes that the balance is not above are
closed. -/
theorem closeAt_eq {scopes : List Scope} (h : scopes.Pairwise fun s s' => s'.base ≤ s.base)
    (line : Nat) (balance : Int) (entries : List (Option Nat × Node)) :
    (closeAt line balance scopes entries).1 = scopes.filter (fun s => s.base < balance) ∧
      ∀ j, (closeAt line balance scopes entries).2[j]? = entries[j]?.map fun e =>
        if ∃ s ∈ scopes, balance ≤ s.base ∧ s.index = j then endOn line e else e := by
  induction h generalizing entries with
  | nil => simp [closeAt]
  | @cons s rest hfirst _ ih =>
    rw [closeAt]
    split
    · rename_i hclosed
      obtain ⟨hscopes, hentries⟩ := ih (entries.modify s.index (endOn line))
      refine ⟨by simp [hscopes, hclosed], fun j => ?_⟩
      rw [hentries, getElem?_modify]
      have htwice : ∀ e, endOn line (endOn line e) = endOn line e := by
        rintro ⟨link, title, kind, first, last, details, children⟩
        rfl
      cases entries[j]? with
      | none => rfl
      | some e => by_cases hj : s.index = j <;> simp [hj, hclosed, htwice]
    · rename_i hopen
      have hrest : ∀ s' ∈ s :: rest, s'.base < balance := by
        refine forall_mem_cons.mpr ⟨Int.not_le.mp hopen, fun s' hs' => ?_⟩
        exact Int.lt_of_le_of_lt (hfirst s' hs') (Int.not_le.mp hopen)
      have hnone : ∀ j, ¬ ∃ s' ∈ s :: rest, balance ≤ s'.base ∧ s'.index = j := by
        rintro j ⟨s', hs', hle, -⟩
        exact absurd (hrest s' hs') (Int.not_lt.mpr hle)
      refine ⟨(filter_eq_self.mpr fun s' hs' => decide_eq_true (hrest s' hs')).symm,
        fun j => ?_⟩
      simp only [hnone, if_false, Option.map_id']

/-- Closing changes nothing but ends. -/
theorem map_closeAt {β : Type} {f : Option Nat × Node → β} {line : Nat}
    (hf : ∀ e, f (endOn line e) = f e) (balance : Int) (scopes : List Scope)
    (entries : List (Option Nat × Node)) :
    (closeAt line balance scopes entries).2.map f = entries.map f := by
  induction scopes generalizing entries with
  | nil => rfl
  | cons s rest ih =>
    rw [closeAt]
    split
    · rw [ih]
      exact ext_getElem? fun j => by
        simp only [getElem?_map, getElem?_modify]
        cases entries[j]? <;> simp [apply_ite f, hf]
    · rfl

end Tracker

section

variable (lines : List Line)

/-- What is known after the first `n` lines. -/
def trackerAfter (n : Nat) : Tracker := Tracker.run {} 1 (lines.take n)

/-- The place of the entry of what line `d` declares: it is the last one after the line. -/
def placeOf (d : Nat) : Nat := (trackerAfter lines (d + 1)).entries.length - 1

/-- The scope of what line `d` declares. -/
def scopeAt (d : Nat) : Scope := ⟨placeOf lines d, baseAt lines d, isTypeAt lines d⟩

/-- The entry of what line `d` declares, as far as the lines before line `n` tell. -/
def entryWithin (n d : Nat) : Option Nat × Node :=
  ((enclosing lines d).head?.map (placeOf lines), nodeWithin lines n d)

/-- All nodes are single imports. -/
def AreImports (ns : List Node) : Prop := ∀ n ∈ ns, n.kind = .importLine ∧ n.children = []

/-- The entry of a **group** of imports, which lies below nothing. -/
structure IsGroup (e : Option Nat × Node) : Prop where
  link : e.1 = none
  title : e.2.title = "Imports"
  kind : e.2.kind = .importGroup
  children : AreImports e.2.children

/-- The first line of a declaration. -/
def declaredFirst (e : Option Nat × Node) : Option Int :=
  if isDeclared e.2.kind then some e.2.first else none

/-- What is known when the declarations of `n` lines and the ends on `m` lines are **tracked**. -/
structure Tracks (n m : Nat) (t : Tracker) : Prop where
  balance : t.balance = balanceAfter lines m
  scopes : t.scopes = (openDeclarations lines n m).map (scopeAt lines)
  imports : AreImports t.imports
  placed : ∀ d ∈ declaredBefore lines n, t.entries[placeOf lines d]? = some (entryWithin lines m d)
  others : ∀ j e, t.entries[j]? = some e →
    (∃ d ∈ declaredBefore lines n, placeOf lines d = j) ∨ IsGroup e
  order : t.entries.filterMap declaredFirst =
    (declaredBefore lines n).map fun d : Nat => (d + 1 : Int)

end

section

variable {lines : List Line} {n m d e : Nat} {l : Line} {t : Tracker}

/-- The tracker takes one more line. -/
theorem trackerAfter_succ (h : lines[n]? = some l) :
    trackerAfter lines (n + 1) = (trackerAfter lines n).step (n + 1) l := by
  have hn := (List.getElem?_eq_some_iff.mp h).1
  rw [trackerAfter, take_add_one, h, Tracker.run_append, length_take,
    Nat.min_eq_left hn.le, Nat.add_comm 1]
  rfl

/-- A line adds entries, at least one where something is declared. -/
theorem Tracker.length_step (t : Tracker) (line : Nat) (l : Line) :
    t.entries.length + (if l.head?.isSome then 1 else 0) ≤ (t.step line l).entries.length := by
  cases l with
  | imports text => simp [step, Line.head?]
  | code change hasBrace head endsImports =>
    have hflush : t.entries.length ≤ (if endsImports then t.flush else t).entries.length := by
      split <;> simp [flush]
    have hclose : ∀ balance scopes entries,
        (closeAt line balance scopes entries).2.length = entries.length := fun b ss es => by
      simpa using congrArg List.length (map_closeAt (f := fun _ => ()) (fun _ => rfl) b ss es)
    cases head <;> simp [step, Line.head?, settle, declare, hclose, hflush]

/-- A declaration adds an entry. -/
theorem length_trackerAfter_succ (lines : List Line) (n : Nat) :
    (trackerAfter lines n).entries.length + (if (headAt? lines n).isSome then 1 else 0) ≤
      (trackerAfter lines (n + 1)).entries.length := by
  cases h : lines[n]? with
  | none => simp [headAt?, h, trackerAfter, take_add_one]
  | some l => simpa [headAt?, h, trackerAfter_succ h] using Tracker.length_step _ (n + 1) l

/-- The places of declarations are in the order of their lines. -/
theorem strictMonoOn_placeOf (lines : List Line) :
    StrictMonoOn (placeOf lines) {d | (headAt? lines d).isSome} := by
  intro d hd e he h
  have hmono : (trackerAfter lines (d + 1)).entries.length ≤
      (trackerAfter lines e).entries.length :=
    monotone_nat_of_le_succ (f := fun n => (trackerAfter lines n).entries.length)
      (fun n => (Nat.le_add_right _ _).trans (length_trackerAfter_succ lines n)) h
  have hd' := length_trackerAfter_succ lines d
  have he' := length_trackerAfter_succ lines e
  rw [Set.mem_ofPred_eq] at hd he
  rw [if_pos hd] at hd'
  rw [if_pos he] at he'
  unfold placeOf
  omega

/-- A line of code ends what the balance is not above. -/
theorem openDeclarations_succ_right (hcode : isCodeAt lines n = true) :
    openDeclarations lines n (n + 1) =
      (openDeclarations lines n n).filter fun d => baseAt lines d < balanceAfter lines (n + 1) := by
  rw [openDeclarations, openDeclarations, filter_reverse, filter_filter]
  refine congrArg _ (filter_congr fun d hd => ?_)
  have hlt := (mem_declaredBefore_iff.mp hd).1
  simp [openUntil_succ_iff, hlt, hcode, Bool.and_comm]

/-- A declaration is open on its own line. -/
theorem openDeclarations_succ_left (h : (headAt? lines n).isSome) :
    openDeclarations lines (n + 1) (n + 1) = n :: openDeclarations lines n (n + 1) := by
  have hopen : OpenUntil lines n (n + 1) := fun l hl hnl => absurd hl (by omega)
  simp [openDeclarations, declaredBefore, range_succ, h, hopen]

/-- One more line ends the entries of what it closes. -/
theorem entryWithin_succ (lines : List Line) (n d : Nat) :
    entryWithin lines (n + 1) d =
      if OpenUntil lines d n ∧ d < n ∧ isCodeAt lines n = true ∧
        balanceAfter lines (n + 1) ≤ baseAt lines d then
        Tracker.endOn (n + 1) (entryWithin lines n d) else entryWithin lines n d := by
  simp only [entryWithin, nodeWithin, endWithin_succ]
  split <;> rfl

namespace Tracks

/-- Imports do not matter. -/
theorem flush (h : Tracks lines n m t) : Tracks lines n m t.flush := by
  have hgroups : ∀ e ∈ (importGroup t.imports).map fun node => ((none : Option Nat), node),
      IsGroup e := by
    have himports := h.imports
    revert himports
    cases t.imports with
    | nil => exact fun _ => forall_mem_nil _
    | cons c cs => exact fun himports => forall_mem_singleton.mpr ⟨rfl, rfl, rfl, himports⟩
  constructor
  case balance => exact h.balance
  case scopes => exact h.scopes
  case imports => exact forall_mem_nil _
  case placed =>
    intro d hd
    have hd := h.placed d hd
    exact (List.getElem?_append_left (List.getElem?_eq_some_iff.mp hd).1).trans hd
  case others =>
    intro j e he
    rw [Tracker.flush, getElem?_append] at he
    split at he
    · exact h.others j e he
    · exact .inr (hgroups e (mem_of_getElem? he))
  case order =>
    rw [Tracker.flush, filterMap_append, h.order, append_right_eq_self]
    refine filterMap_eq_nil_iff.mpr fun e he => ?_
    rw [declaredFirst, (hgroups e he).kind]
    rfl

/-- An import changes nothing about declarations. -/
theorem skip (h : Tracks lines n n t) {text : String} (hl : lines[n]? = some (.imports text)) :
    Tracks lines n (n + 1)
      { t with imports := t.imports ++ [importNode text (n + 1) (n + 1)] } := by
  have hcode : isCodeAt lines n = false := by simp [isCodeAt, hl, Line.isCode]
  constructor
  case balance => rw [balanceAfter_succ hl, h.balance]; exact (Int.add_zero _).symm
  case scopes => simp [h.scopes, openDeclarations, openUntil_succ_iff, hcode]
  case imports =>
    exact forall_mem_append.mpr ⟨h.imports, forall_mem_singleton.mpr ⟨rfl, rfl⟩⟩
  case placed => simpa [entryWithin_succ, hcode] using h.placed
  case others => exact h.others
  case order => exact h.order

/-- Code **ends** the declarations whose bases it takes the balance back to. -/
theorem settle (h : Tracks lines n n t) {change : Int} {hasBrace : Bool} {head : Option Head}
    {ends : Bool} (hl : lines[n]? = some (.code change hasBrace head ends)) :
    Tracks lines n (n + 1) (t.settle (n + 1) change) := by
  have hbalance : t.balance + change = balanceAfter lines (n + 1) := by
    rw [balanceAfter_succ hl, h.balance]
    rfl
  have hcode : isCodeAt lines n = true := by simp [isCodeAt, hl, Line.isCode]
  have hsorted : t.scopes.Pairwise fun s s' => s'.base ≤ s.base := by
    rw [h.scopes]
    refine pairwise_map.mpr ((pairwise_openDeclarations lines n n).imp_of_mem ?_)
    intro d e hd he hlt
    obtain ⟨⟨hdn, hd⟩, -⟩ := mem_openDeclarations_iff.mp hd
    exact baseAt_le hlt hd fun l hl => (mem_openDeclarations_iff.mp he).2 l (by omega)
  obtain ⟨hscopes, hentries⟩ := Tracker.closeAt_eq hsorted (n + 1) (t.balance + change) t.entries
  constructor
  case balance => exact hbalance
  case scopes =>
    rw [openDeclarations_succ_right hcode, Tracker.settle]
    refine hscopes.trans ?_
    rw [h.scopes, hbalance, filter_map]
    rfl
  case imports => exact h.imports
  case placed =>
    intro d hd
    obtain ⟨hdn, hd'⟩ := mem_declaredBefore_iff.mp hd
    have hiff : (∃ s ∈ t.scopes, t.balance + change ≤ s.base ∧ s.index = placeOf lines d) ↔
        OpenUntil lines d n ∧ d < n ∧ isCodeAt lines n = true ∧
          balanceAfter lines (n + 1) ≤ baseAt lines d := by
      rw [h.scopes, hbalance]
      constructor
      · intro hs
        obtain ⟨s, hs, hle, hindex⟩ := hs
        obtain ⟨e, he, rfl⟩ := mem_map.mp hs
        obtain ⟨⟨hen, he'⟩, hopen⟩ := mem_openDeclarations_iff.mp he
        obtain rfl := (strictMonoOn_placeOf lines).injOn he' hd' hindex
        exact ⟨hopen, hdn, hcode, hle⟩
      · rintro ⟨hopen, -, -, hle⟩
        exact ⟨_, mem_map_of_mem (mem_openDeclarations_iff.mpr ⟨⟨hdn, hd'⟩, hopen⟩), hle, rfl⟩
    refine (hentries _).trans ?_
    rw [h.placed d hd, entryWithin_succ]
    simp only [hiff, Option.map_some]
  case others =>
    intro j e he
    obtain ⟨e, hej, rfl⟩ := Option.map_eq_some_iff.mp ((hentries j).symm.trans he)
    refine (h.others j e hej).imp_right fun hgroup => ?_
    split
    · obtain ⟨link, title, kind, first, last, details, children⟩ := e
      exact ⟨hgroup.link, hgroup.title, hgroup.kind, hgroup.children⟩
    · exact hgroup
  case order =>
    have hend : ∀ e, declaredFirst (Tracker.endOn (n + 1) e) = declaredFirst e := by
      rintro ⟨link, title, kind, first, last, details, children⟩
      rfl
    have hsame := congrArg (List.filterMap id)
      (Tracker.map_closeAt hend (t.balance + change) t.scopes t.entries)
    rw [filterMap_map, filterMap_map] at hsame
    exact hsame.trans h.order

/-- A line **declares** something below what is still open. -/
theorem declare (h : Tracks lines n (n + 1) t) {head : Head} {hasBrace : Bool}
    (hhead : headAt? lines n = some head) (hbrace : lines[n]?.any Line.hasBrace = hasBrace)
    (hplace : placeOf lines n = t.entries.length)
    (hkind : isDeclared (nodeWithin lines (n + 1) n).kind = true) :
    Tracks lines (n + 1) (n + 1) (t.declare (n + 1) hasBrace head) := by
  have hsome : (headAt? lines n).isSome := by rw [hhead]; rfl
  have hbefore : declaredBefore lines (n + 1) = declaredBefore lines n ++ [n] := by
    simp [declaredBefore, range_succ, hsome]
  have hentry : (t.scopes.head?.map Scope.index, t.headNode (n + 1) head) =
      entryWithin lines (n + 1) n := by
    have hown : endWithin lines (n + 1) n = n := by
      rw [endWithin, find?_eq_none.mpr]
      · rfl
      · intro l hl
        have := mem_range.mp hl
        simp
        omega
    rw [entryWithin, nodeWithin, hown, hhead, Tracker.headNode.eq_def, h.scopes, head?_map,
      ← enclosing]
    cases head <;> cases (enclosing lines n).head? <;> rfl
  constructor
  case balance => exact h.balance
  case scopes =>
    rw [openDeclarations_succ_left hsome, map_cons, ← h.scopes, scopeAt, hplace, baseAt,
      hbrace, ← h.balance, isTypeAt, hhead]
    cases hasBrace <;> simp [Tracker.declare]
  case imports => exact h.imports
  case placed =>
    rw [hbefore]
    refine forall_mem_append.mpr ⟨fun d hd => ?_, forall_mem_singleton.mpr ?_⟩
    · have hd := h.placed d hd
      exact (List.getElem?_append_left (List.getElem?_eq_some_iff.mp hd).1).trans hd
    · rw [← hentry, hplace]
      exact getElem?_concat_length
  case others =>
    intro j e he
    rw [hbefore]
    rw [Tracker.declare, getElem?_append] at he
    split at he
    · rcases h.others j e he with ⟨d, hd, hj⟩ | hgroup
      · exact .inl ⟨d, mem_append_left _ hd, hj⟩
      · exact .inr hgroup
    · obtain ⟨hj, -⟩ := List.getElem?_eq_some_iff.mp he
      refine .inl ⟨n, by simp, ?_⟩
      rw [length_singleton] at hj
      omega
  case order =>
    have hfirst : declaredFirst (entryWithin lines (n + 1) n) = some (n + 1 : Int) := if_pos hkind
    rw [Tracker.declare, hentry, filterMap_append, h.order, hbefore, map_append,
      filterMap_cons_some hfirst]
    rfl

/-- A line without declaration adds nothing. -/
theorem pass (h : Tracks lines n (n + 1) t) (hhead : headAt? lines n = none) :
    Tracks lines (n + 1) (n + 1) t := by
  have hsame : declaredBefore lines (n + 1) = declaredBefore lines n := by
    simp [declaredBefore, range_succ, hhead]
  exact ⟨h.balance, by rw [h.scopes, openDeclarations, openDeclarations, hsame], h.imports,
    hsame ▸ h.placed, hsame ▸ h.others, hsame ▸ h.order⟩

end Tracks

/-- Whether the types that lines declare are of kinds of declarations. -/
def HaveKinds (lines : List Line) : Prop :=
  ∀ d kind name, headAt? lines d = some (.type kind name) → isDeclared kind = true

/-- Declarations have the kinds of declarations. -/
theorem isDeclared_nodeWithin (h : HaveKinds lines) (n d : Nat) :
    isDeclared (nodeWithin lines n d).kind = true := by
  have hfunction : ∀ inType : Bool,
      isDeclared (if inType then .methodDecl else .functionDecl) = true := by
    decide
  rw [nodeWithin, Node.kind]
  cases hhead : headAt? lines d with
  | none => exact hfunction _
  | some head =>
    cases head with
    | type kind name => exact h d kind name hhead
    | function name signature => exact hfunction _

/-- **Every line is tracked.** -/
theorem tracks_trackerAfter (h : HaveKinds lines) (hn : n ≤ lines.length) :
    Tracks lines n n (trackerAfter lines n) := by
  induction n with
  | zero =>
    refine ⟨rfl, rfl, forall_mem_nil _, forall_mem_nil _, fun j e he => ?_, rfl⟩
    cases getElem?_nil.symm.trans he
  | succ n ih =>
    have hl : lines[n]? = some lines[n] := getElem?_eq_getElem hn
    have hbefore := ih (Nat.le_of_succ_le hn)
    have hplace : ∀ (t : Tracker) head hasBrace,
        trackerAfter lines (n + 1) = t.declare (n + 1) hasBrace head →
          placeOf lines n = t.entries.length := by
      intro t head hasBrace ht
      rw [placeOf, ht, Tracker.declare, length_append]
      rfl
    rw [trackerAfter_succ hl] at hplace ⊢
    revert hl hplace
    generalize lines[n] = l
    intro hl hplace
    cases l with
    | imports text => exact (hbefore.skip hl).pass (by rw [headAt?, hl]; rfl)
    | code change hasBrace head ends =>
      have hflushed : Tracks lines n n (if ends then (trackerAfter lines n).flush
          else trackerAfter lines n) := by
        split
        · exact hbefore.flush
        · exact hbefore
      have hsettled := hflushed.settle hl
      cases head with
      | none => exact hsettled.pass (by rw [headAt?, hl]; rfl)
      | some head =>
        exact hsettled.declare (by rw [headAt?, hl]; rfl) (by rw [hl]; rfl) (hplace _ _ _ rfl)
          (isDeclared_nodeWithin h _ _)

end

end DocTree.Kotlin
