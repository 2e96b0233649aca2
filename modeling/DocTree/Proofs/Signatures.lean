import DocTree.Code.PythonPrinter
import DocTree.Proofs.Value

/-!
# Signatures of Python functions

Defaults belong to the last positional parameters. A signature lists all parameters in order, but
shows no defaults of positional-only ones.
-/

namespace DocTree.Python.Print

open List

variable {as bs cs values parts : List String} {defaults : List Expr}
  {positional regular : List Parameter} {only : List KeywordParameter}
  {rest keywords : Option Parameter}

/-! ### Defaults and their parameters -/

/-- A parameter with its **default**, if it has one. -/
def attach (name : String) : Option String → String
  | none => name
  | some default => name ++ " = " ++ default

/-- The defaults of `n` parameters, each with its own: they belong to **the last** ones. -/
def aligned (n : Nat) (values : List String) : List (Option String) :=
  replicate (n - values.length) none ++ values.map some

/-- Every parameter has a place. -/
theorem length_aligned {n : Nat} (h : values.length ≤ n) : (aligned n values).length = n := by
  rw [aligned, length_append, length_replicate, length_map]
  omega

/-- The first of two groups has the defaults that are **too many for the second**. -/
theorem aligned_append {m n : Nat} (h : values.length ≤ m + n) :
    aligned (m + n) values = aligned m (values.take (values.length - n)) ++
      aligned n (values.drop (values.length - n)) := by
  by_cases hn : values.length ≤ n
  · rw [Nat.sub_eq_zero_of_le hn, take_zero, drop_zero, aligned, aligned, aligned,
      Nat.add_sub_assoc hn, replicate_add, append_assoc]
    simp
  · have htake : m - (values.take (values.length - n)).length = m + n - values.length := by
      rw [length_take]
      omega
    have hdrop : n - (values.drop (values.length - n)).length = 0 := by
      rw [length_drop]
      omega
    rw [aligned, aligned, aligned, htake, hdrop, replicate_zero, nil_append,
      append_assoc, ← map_append, take_append_drop]

/-- Parameters, each with **its own default**. -/
def attachAll (names values : List String) : List String :=
  zipWith attach names (aligned names.length values)

/-- The last defaults belong to the last part. -/
theorem attachAll_append (h : values.length ≤ as.length + bs.length) :
    attachAll (as ++ bs) values = attachAll as (values.take (values.length - bs.length)) ++
      attachAll bs (values.drop (values.length - bs.length)) := by
  have hfit : (values.take (values.length - bs.length)).length ≤ as.length := by
    rw [length_take]
    omega
  rw [attachAll, length_append, aligned_append h,
    zipWith_append (length_aligned hfit).symm, attachAll, attachAll]

/-- Without defaults nothing is attached. -/
theorem attachAll_nil (as : List String) : attachAll as [] = as := by
  induction as with
  | nil => rfl
  | cons a as ih => exact congrArg (a :: ·) ih

/-- Few defaults belong to the last part only. -/
theorem attachAll_append_of_le (h : values.length ≤ bs.length) (as : List String) :
    attachAll (as ++ bs) values = as ++ attachAll bs values := by
  rw [attachAll_append (Nat.le_add_left_of_le h), Nat.sub_eq_zero_of_le h, take_zero,
    drop_zero, attachAll_nil]

/-- Defaults are attached from the end. -/
theorem withDefaults_eq_attachAll (h : values.length ≤ as.length) :
    withDefaults " = " as values = attachAll as values := by
  obtain ⟨bs, cs, rfl, hcs⟩ : ∃ bs cs, as = bs ++ cs ∧ cs.length = values.length :=
    ⟨_, _, (take_append_drop (as.length - values.length) as).symm, by
      rw [length_drop]
      omega⟩
  have hplain : (bs ++ cs).length - values.length = bs.length := by
    rw [length_append]
    omega
  rw [attachAll_append_of_le (Nat.le_of_eq hcs.symm), withDefaults, hplain, take_left,
    drop_left, Nat.sub_eq_zero_of_le h, drop_zero, attachAll, aligned, hcs, Nat.sub_self,
    replicate_zero, nil_append, zipWith_map_right]
  rfl

/-- No parameter is lost. -/
theorem length_attachAll (h : values.length ≤ as.length) :
    (attachAll as values).length = as.length := by
  rw [attachAll, length_zipWith, length_aligned h, Nat.min_self]

/-- Where there are nothing but names, there is **no default**. -/
theorem eq_nil_of_attachAll (hfit : values.length ≤ as.length) (h : attachAll as values = as) :
    values = [] := by
  induction as with
  | nil => exact length_eq_zero_iff.mp (Nat.le_zero.mp hfit)
  | cons a as ih =>
    rw [length_cons] at hfit
    by_cases hle : values.length ≤ as.length
    · have htail : a :: attachAll as values = a :: as :=
        (attachAll_append_of_le hle [a]).symm.trans h
      exact ih hle (List.cons.inj htail).2
    · obtain ⟨v, rest, rfl⟩ := exists_cons_of_length_eq_add_one (n := as.length)
        (by omega : values.length = as.length + 1)
      have hone : (v :: rest).length - as.length = 1 := by omega
      have hsplit : attachAll ([a] ++ as) (v :: rest) = _ := attachAll_append (by
        rw [length_singleton]
        omega)
      rw [hone] at hsplit
      have hhead := congrArg String.length (List.cons.inj (h.symm.trans hsplit)).1
      have hsign : " = ".length = 3 := rfl
      simp only [attach, String.length_append] at hhead
      omega

/-! ### Listings -/

/-- The text of a keyword-only parameter with its default. -/
def IsKeywordOnly : KeywordParameter → String → Prop
  | .mk p default, s => ∃ name value, parameter false p = .ok name ∧
      optionText false testLevel default = .ok value ∧ s = attach name value

/-- Keyword-only parameters one by one. -/
theorem keywordParameterTexts_eq_ok_iff :
    keywordParameterTexts false " = " only = .ok cs ↔ Forall₂ IsKeywordOnly only cs := by
  induction only generalizing cs with
  | nil =>
    rw [forall₂_nil_left_iff]
    exact ⟨fun h => (Except.ok.inj h).symm, fun h => congrArg Except.ok h.symm⟩
  | cons k rest ih =>
    obtain ⟨p, default⟩ := k
    rw [keywordParameterTexts, forall₂_cons_left_iff]
    constructor
    · intro h
      obtain ⟨name, hname, h⟩ := bind_eq_ok.mp h
      obtain ⟨value, hvalue, h⟩ := bind_eq_ok.mp h
      obtain ⟨more, hmore, h⟩ := bind_eq_ok.mp h
      cases h
      exact ⟨_, more, ⟨name, value, hname, hvalue, by cases value <;> rfl⟩, ih.mp hmore, rfl⟩
    · rintro ⟨_, more, ⟨name, value, hname, hvalue, rfl⟩, hmore, rfl⟩
      refine bind_ok hname (bind_ok hvalue (bind_ok (ih.mpr hmore) ?_))
      cases value <;> rfl

/-- **What a signature lists**: all parameters in order, with some defaults, `/` after those that
are positional-only and `*` before those that are keyword-only, unless it stands before a name. -/
def Lists (shown : List Expr) : Parameters → List String → Prop
  | .mk positional regular _ rest only keywords, parts =>
    ∃ as bs values first cs last, parameterTexts false positional = .ok as ∧
      parameterTexts false regular = .ok bs ∧ expressions false testLevel shown = .ok values ∧
      optionParameter false rest = .ok first ∧ Forall₂ IsKeywordOnly only cs ∧
      optionParameter false keywords = .ok last ∧
      parts = (attachAll (as ++ bs) values).take as.length ++ (if as.isEmpty then [] else ["/"]) ++
        (attachAll (as ++ bs) values).drop as.length ++
        first.elim (if cs.isEmpty then [] else ["*"]) (["*" ++ ·]) ++ cs ++
        (last.map ("**" ++ ·)).toList

/-- Every parameter has a text. -/
theorem length_of_parameterTexts (h : parameterTexts false positional = .ok as) :
    as.length = positional.length := by
  rw [eq_mapM (g := parameterTexts false) rfl fun _ _ => rfl] at h
  exact (mapM_eq_ok_iff.mp h).length_eq.symm

/-- Every default has a text. -/
theorem length_of_expressions (h : expressions false testLevel defaults = .ok values) :
    values.length = defaults.length := by
  rw [eq_mapM (g := expressions false testLevel) rfl fun _ _ => rfl] at h
  exact (mapM_eq_ok_iff.mp h).length_eq.symm

/-- A signature shows the defaults of **regular parameters only**. -/
theorem signatureParameters_eq_ok_iff :
    signatureParameters (.mk positional regular defaults rest only keywords) = .ok parts ↔
      Lists (defaults.drop (defaults.length - regular.length))
        (.mk positional regular defaults rest only keywords) parts := by
  have hfit : ∀ {bs values}, parameterTexts false regular = .ok bs →
      expressions false testLevel (defaults.drop (defaults.length - regular.length)) = .ok values →
      values.length ≤ bs.length := by
    intro bs values hbs hvalues
    rw [length_of_parameterTexts hbs, length_of_expressions hvalues, length_drop]
    omega
  rw [signatureParameters, Lists]
  constructor
  · intro h
    obtain ⟨as, has, h⟩ := bind_eq_ok.mp h
    obtain ⟨bs, hbs, h⟩ := bind_eq_ok.mp h
    obtain ⟨values, hvalues, h⟩ := bind_eq_ok.mp h
    rw [length_of_parameterTexts hbs] at hvalues
    obtain ⟨first, hfirst, h⟩ := bind_eq_ok.mp h
    obtain ⟨cs, hcs, h⟩ := bind_eq_ok.mp h
    obtain ⟨last, hlast, h⟩ := bind_eq_ok.mp h
    cases h
    refine ⟨as, bs, values, first, cs, last, has, hbs, hvalues, hfirst,
      keywordParameterTexts_eq_ok_iff.mp hcs, hlast, ?_⟩
    rw [attachAll_append_of_le (hfit hbs hvalues), take_left, drop_left,
      withDefaults_eq_attachAll (hfit hbs hvalues)]
    cases first <;> rfl
  · rintro ⟨as, bs, values, first, cs, last, has, hbs, hvalues, hfirst, hcs, hlast, rfl⟩
    rw [← length_of_parameterTexts hbs] at hvalues
    refine bind_ok has (bind_ok hbs (bind_ok hvalues (bind_ok hfirst
      (bind_ok (keywordParameterTexts_eq_ok_iff.mpr hcs) (bind_ok hlast ?_)))))
    rw [length_of_parameterTexts hbs] at hvalues
    rw [attachAll_append_of_le (hfit hbs hvalues), take_left, drop_left,
      withDefaults_eq_attachAll (hfit hbs hvalues)]
    cases first <;> rfl

/-- Without defaults of positional-only parameters **all defaults** are shown only if there are
none. -/
theorem lists_all_iff (hfit : defaults.length ≤ positional.length + regular.length)
    (h : Lists (defaults.drop (defaults.length - regular.length))
      (.mk positional regular defaults rest only keywords) parts) :
    Lists defaults (.mk positional regular defaults rest only keywords) parts ↔
      defaults.length ≤ regular.length := by
  constructor
  · rintro ⟨as, bs, values, _, _, _, has, hbs, hvalues, -, -, -, heq⟩
    obtain ⟨_, _, values', _, _, _, has', hbs', hvalues', -, -, -, rfl⟩ := h
    cases has.symm.trans has'
    cases hbs.symm.trans hbs'
    rw [← length_of_parameterTexts has, ← length_of_parameterTexts hbs,
      ← length_of_expressions hvalues] at hfit
    rw [← length_of_parameterTexts hbs, ← length_of_expressions hvalues]
    have hshort : values'.length ≤ bs.length := by
      rw [length_of_parameterTexts hbs, length_of_expressions hvalues', length_drop]
      omega
    have htake : (values.take (values.length - bs.length)).length ≤ as.length := by
      rw [length_take]
      omega
    rw [attachAll_append_of_le hshort, take_left, attachAll_append hfit,
      take_left' (length_attachAll htake)] at heq
    simp only [append_assoc] at heq
    have hnames := (append_inj_left heq (length_attachAll htake).symm).symm
    have hnil := congrArg List.length (eq_nil_of_attachAll htake hnames)
    rw [length_take, length_nil] at hnil
    omega
  · intro hle
    rwa [Nat.sub_eq_zero_of_le hle, drop_zero] at h

/-- **The defaults of positional-only parameters are left out.** A signature is written exactly if
all that it shows can be. It lists all parameters in order, with the defaults of regular and
keyword-only ones. So it is faithful exactly if no default belongs to a positional-only one. -/
theorem positional_defaults_are_left_out {head : FunctionHead} (s : String)
    (hparameters : head.parameters = .mk positional regular defaults rest only keywords)
    (hfit : defaults.length ≤ positional.length + regular.length) :
    (signature head = .ok s ↔ ∃ parts result,
        Lists (defaults.drop (defaults.length - regular.length)) head.parameters parts ∧
        optionText false testLevel head.result = .ok result ∧
        s = (if head.concurrent then "async def " else "def ") ++ head.name ++ "(" ++
          Text.join ", " parts ++ ")" ++ (result.map (" -> " ++ ·)).getD "") ∧
      ∀ parts, Lists (defaults.drop (defaults.length - regular.length)) head.parameters parts →
        (Lists defaults head.parameters parts ↔ defaults.length ≤ regular.length) := by
  rw [hparameters]
  refine ⟨?_, fun parts => lists_all_iff hfit⟩
  rw [signature, hparameters]
  constructor
  · intro h
    obtain ⟨parts, hparts, h⟩ := bind_eq_ok.mp h
    obtain ⟨result, hresult, h⟩ := bind_eq_ok.mp h
    exact ⟨parts, result, signatureParameters_eq_ok_iff.mp hparts, hresult, (Except.ok.inj h).symm⟩
  · rintro ⟨parts, result, hparts, hresult, rfl⟩
    exact bind_eq_ok.mpr ⟨parts, signatureParameters_eq_ok_iff.mpr hparts,
      bind_eq_ok.mpr ⟨result, hresult, rfl⟩⟩

/-- A function with a positional-only parameter `a` and regular parameters, and their defaults. -/
def sampleHead (regular : List Parameter) (defaults : List Expr) : FunctionHead where
  concurrent := false
  name := "f"
  parameters := .mk [.mk "a" none] regular defaults none [] none
  result := none
  decorators := []

/-- The default of a regular parameter. -/
theorem regular_default_is_shown :
    signature (sampleHead [.mk "b" none] [.constant (.int 1)]) = .ok "def f(a, /, b = 1)" ∧
      ∃ parts, Lists [.constant (.int 1)]
        (sampleHead [.mk "b" none] [.constant (.int 1)]).parameters parts := by
  have hsignature :
      signature (sampleHead [.mk "b" none] [.constant (.int 1)]) = .ok "def f(a, /, b = 1)" := by
    decide +kernel
  obtain ⟨hiff, hfaithful⟩ :=
    @positional_defaults_are_left_out _ _ _ _ _ _ (sampleHead [.mk "b" none] [.constant (.int 1)])
      "def f(a, /, b = 1)" rfl (by decide)
  obtain ⟨parts, -, hparts, -⟩ := hiff.mp hsignature
  exact ⟨hsignature, parts, (hfaithful parts hparts).mpr (by decide)⟩

/-- The default of the only parameter is **not shown**. -/
theorem positional_default_is_not_shown :
    signature (sampleHead [] [.constant (.int 1)]) = .ok "def f(a, /)" ∧
      ∀ parts, Lists [.constant (.int 1)] (sampleHead [] [.constant (.int 1)]).parameters parts →
        parts = ["a = 1", "/"] := by
  refine ⟨by decide +kernel, ?_⟩
  rintro _ ⟨_, _, _, _, _, _, has, hbs, hvalues, hfirst, hcs, hlast, rfl⟩
  have hone : expressions false testLevel [.constant (.int 1)] = .ok ["1"] := by decide +kernel
  cases has
  cases hbs
  cases hone.symm.trans hvalues
  cases hfirst
  cases hcs
  cases hlast
  rfl

end DocTree.Python.Print
