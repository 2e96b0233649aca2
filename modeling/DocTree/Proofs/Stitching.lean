import DocTree.Proofs.Continuation
import DocTree.Proofs.JsonPlaces
import DocTree.Proofs.Value
import Mathlib.Data.List.Infix

/-!
# Tables of contents put together from pieces

A reply that breaks off is cut behind the character that follows its last closing brace. If every
further piece goes on where the cut was made, what is put together is a beginning of the whole in
every round.
-/

namespace DocTree

open List

variable {cs ds piece : List Char} {reply : String}

/-! ### Occurrences -/

namespace Text

variable {needle cs ds before rest : List Char} {c : Char}

/-- A cut leaves what stands before and behind. -/
theorem eq_append_of_cutLast? (h : cutLast? needle cs = some (before, rest)) :
    cs = before ++ needle ++ rest := by
  induction cs generalizing before with
  | nil =>
    rw [cutLast?] at h
    split at h
    · rename_i hneedle
      cases h
      rw [isEmpty_iff.mp hneedle]
      rfl
    · cases h
  | cons c cs ih =>
    rw [cutLast?] at h
    split at h
    · rename_i before' rest' hcs
      cases h
      rw [ih hcs]
      rfl
    · obtain ⟨rest', hrest, h⟩ := Option.map_eq_some_iff.mp h
      cases h
      exact after?_eq_some_iff.mp hrest

/-- There is no cut where nothing occurs. -/
theorem cutLast?_eq_none_iff (hneedle : needle ≠ []) :
    cutLast? needle cs = none ↔ ¬ needle <:+: cs := by
  induction cs with
  | nil => simp [cutLast?, hneedle]
  | cons c cs ih =>
    rw [cutLast?, infix_cons_iff, ← beginsWith_iff, beginsWith]
    cases hcs : cutLast? needle cs with
    | some found =>
      have hin : needle <:+: cs := by
        by_contra hnot
        rw [ih.mpr hnot] at hcs
        cases hcs
      simp [hin]
    | none => simp [ih.mp hcs]

/-- The last occurrence stays the last behind other text. -/
theorem cutLast?_append (h : cutLast? needle cs = some (before, rest)) (ds : List Char) :
    cutLast? needle (ds ++ cs) = some (ds ++ before, rest) := by
  induction ds with
  | nil => exact h
  | cons d ds ih =>
    rw [cons_append, cutLast?, ih]
    rfl

/-- A text that begins with another character does not occur across the first characters. -/
theorem infix_append_iff (hds : c ∉ ds) : c :: needle <:+: ds ++ cs ↔ c :: needle <:+: cs := by
  induction ds with
  | nil => rfl
  | cons d ds ih =>
    rw [mem_cons, not_or] at hds
    obtain ⟨hd, hds⟩ := hds
    rw [cons_append, infix_cons_iff, ih hds, or_iff_right]
    intro hprefix
    exact hd (cons_prefix_cons.mp hprefix).1

/-- An occurrence at the beginning is the first one. -/
theorem cutFirst?_append_self (c : Char) (needle cs : List Char) :
    cutFirst? (c :: needle) (c :: needle ++ cs) = some ([], cs) := by
  have hafter : after? (c :: needle) (c :: needle ++ cs) = some cs := after?_eq_some_iff.mpr rfl
  rw [cons_append] at hafter ⊢
  rw [cutFirst?, hafter]

/-- White space in front is trimmed. -/
theorem trimList_blanks_append (h : ∀ c ∈ ds, isBlank c = true) :
    trimList (ds ++ cs) = trimList cs := by
  rw [trimList, trimList, dropStart, dropStart, dropWhile_append_of_pos h]

/-- What is left of a trimmed text is its beginning. -/
theorem dropEnd_isPrefix (p : Char → Bool) (cs : List Char) : dropEnd p cs <+: cs := by
  obtain ⟨blanks, hcs, -⟩ := exists_blanks_of_dropEnd p cs
  exact ⟨blanks, hcs.symm⟩

/-- Nothing is trimmed behind a character that stays. -/
theorem dropEnd_of_last {p : Char → Bool} (h : p c = false) :
    dropEnd p (cs ++ [c]) = cs ++ [c] := by
  rw [dropEnd_append ⟨c, mem_singleton_self c, h⟩]
  simp [dropEnd, h]

end Text

/-! ### Fenced pieces -/

namespace Contents

open Reply Run

/-- What may follow a piece: white space, with a fence in it or not. -/
def IsClosing (close : List Char) : Prop :=
  (∀ c ∈ close, Text.isBlank c = true) ∨ ∃ before after, close = before ++ fence ++ after ∧
    (∀ c ∈ before, Text.isBlank c = true) ∧ ∀ c ∈ after, Text.isBlank c = true

/-- A reply **holds a piece** inside a fence, which may be open at its end. -/
def Fenced (piece : List Char) (reply : String) : Prop :=
  ∃ gap close, reply.toList = openingFence ++ (gap ++ (piece ++ close)) ∧
    (∀ c ∈ gap, Text.isBlank c = true) ∧ IsClosing close

/-- A backtick is not white space. -/
theorem backtick_not_mem (h : ∀ c ∈ cs, Text.isBlank c = true) :
    '\x60' ∉ cs := fun hmem => absurd (h _ hmem) (by decide)

/-- White space makes no fence. -/
theorem not_infix_fence_append {blanks : List Char} (hpiece : ¬ fence <:+: piece)
    (hblanks : ∀ c ∈ blanks, Text.isBlank c = true) : ¬ fence <:+: piece ++ blanks := by
  -- a fence reads the same from its end
  rw [← reverse_infix, reverse_append]
  have hnot : '\x60' ∉ blanks.reverse := by
    rw [mem_reverse]
    exact backtick_not_mem hblanks
  refine fun h => hpiece ?_
  rw [← reverse_infix]
  exact (Text.infix_append_iff hnot).mp h

/-- The last fence before white space. -/
theorem cutLast?_fence {blanks : List Char} (hblanks : ∀ c ∈ blanks, Text.isBlank c = true) :
    Text.cutLast? fence (fence ++ blanks) = some ([], blanks) := by
  have hnone : Text.cutLast? fence ('\x60' :: '\x60' :: blanks) = none := by
    rw [Text.cutLast?_eq_none_iff (by decide)]
    intro h
    have hcount := h.sublist.count_le '\x60'
    simp [fence, count_eq_zero.mpr (backtick_not_mem hblanks)] at hcount
  change Text.cutLast? fence ('\x60' :: '\x60' :: '\x60' :: blanks) = _
  rw [Text.cutLast?, hnone]
  exact congrArg (Option.map fun rest => ([], rest)) (Text.after?_eq_some_iff.mpr rfl)

/-- **The content of a reply** is the piece that it holds, trimmed. -/
theorem toList_content_of_fenced (h : Fenced piece reply) (hpiece : ¬ fence <:+: piece) :
    (content reply).toList = Text.trimList piece := by
  obtain ⟨gap, close, hreply, hgap, hclose⟩ := h
  have hfirst : Text.cutFirst? openingFence reply.toList = some ([], gap ++ (piece ++ close)) := by
    rw [hreply]
    exact Text.cutFirst?_append_self _ _ _
  rw [content, String.toList_ofList, contentList, hfirst]
  dsimp only
  rcases hclose with hclose | ⟨before, after, rfl, hbefore, hafter⟩
  · have hnone : Text.cutLast? fence (gap ++ (piece ++ close)) = none := by
      rw [Text.cutLast?_eq_none_iff (by decide)]
      intro h
      exact not_infix_fence_append hpiece hclose
        ((Text.infix_append_iff (backtick_not_mem hgap)).mp h)
    rw [hnone]
    dsimp only
    rw [Text.trimList_blanks_append hgap, Text.trimList_append_blanks hclose]
  · have hlast : Text.cutLast? fence (gap ++ (piece ++ (before ++ fence ++ after))) =
        some (gap ++ (piece ++ before), after) := by
      have h := Text.cutLast?_append (cutLast?_fence hafter) (gap ++ (piece ++ before))
      simpa only [append_assoc, append_nil] using h
    rw [hlast]
    dsimp only
    rw [Text.trimList_blanks_append hgap, Text.trimList_append_blanks hbefore]

/-- A reply that holds a piece opens a fence. -/
theorem beginsWith_of_fenced (h : Fenced piece reply) :
    Text.beginsWith openingFence reply.toList = true := by
  obtain ⟨gap, close, hreply, -⟩ := h
  rw [Text.beginsWith_iff, hreply]
  exact prefix_append _ _

/-! ### Texts that are put together -/

/-- **Compact texts** of a value whose strings have no closing brace and no fence. -/
structure Written (nesting : Nat) (whole : String) (v : Value) : Prop where
  parses : Json.parse nesting whole = .ok v
  isCompact : Json.isCompact whole.toList = true
  avoidsBrace : Json.stringsAvoid ['\x7d'] whole.toList = true
  avoidsFence : Json.stringsAvoid fence whole.toList = true

/-- A text is a **beginning** of the whole, and has a closing brace. -/
def Begins (whole text : String) : Prop :=
  text.toList <+: whole.toList ∧ '\x7d' ∈ text.toList

/-- Some characters end **outside strings**. -/
def EndsOutside (cs : List Char) : Prop := (Json.Place.outside.afterAll cs).isOutside = true

variable {nesting : Nat} {whole : String} {v : Value}

namespace Written

/-- What no string has stands outside of strings. -/
theorem outside_of_avoids {part : List Char} {c : Char}
    (h : Json.stringsAvoid (c :: part) whole.toList = true)
    (hwhole : whole.toList = cs ++ (c :: part) ++ ds) : EndsOutside cs := by
  rw [Json.stringsAvoid, hwhole, append_assoc, cons_append] at h
  have hbegins : Text.beginsWith (c :: part) (c :: (part ++ ds)) = true :=
    Text.beginsWith_iff.mpr (prefix_append (c :: part) ds)
  simpa [hbegins, EndsOutside] using Json.of_holdsAlong h

variable (h : Written nesting whole v)
include h

/-- The whole is read as its value. -/
theorem parseList (hwhole : whole.toList = cs) :
    Json.parseList nesting cs = .ok v := by
  rw [← hwhole]
  exact h.parses

/-- Outside of strings there is no white space and no backtick. -/
theorem outer {c : Char} (hwhole : whole.toList = cs ++ c :: ds)
    (hcs : EndsOutside cs) : Text.isBlank c = false ∧ c ≠ '\x60' :=
  Json.outer_of_isCompact (h.parseList hwhole) (hwhole ▸ h.isCompact) hcs

/-- The whole has no fence. -/
theorem not_infix_fence : ¬ fence <:+: whole.toList := by
  rintro ⟨cs, ds, hwhole⟩
  have hcs := outside_of_avoids h.avoidsFence hwhole.symm
  exact (h.outer (hwhole.symm.trans (append_assoc cs fence ds)) hcs).2 rfl

/-- Behind a closing brace and **the character that follows**, a text stands outside strings. -/
theorem endsOutside {more : List Char}
    (hwhole : whole.toList = cs ++ ['\x7d'] ++ (ds ++ more)) (hds : ds.length ≤ 1) :
    EndsOutside (cs ++ '\x7d' :: ds) := by
  have hcs := outside_of_avoids h.avoidsBrace hwhole
  have hclosed : Json.Place.outside.afterAll (cs ++ ['\x7d']) = .closed := by
    rw [Json.Place.afterAll, foldl_append]
    exact Json.Place.after_brace hcs
  rcases ds with _ | ⟨c, _ | ⟨d, ds⟩⟩
  · rw [EndsOutside, hclosed]
    rfl
  · -- the one character that a cut keeps behind a brace does not open a string
    have hadmits : Json.Place.closed.admits c = true :=
      hclosed ▸ Json.admits_of_parseList (h.parseList hwhole)
    have hquote : c ≠ '"' := by simpa using (Bool.and_eq_true_iff.mp hadmits).2
    have hlast : Json.Place.outside.afterAll (cs ++ ['\x7d', c]) = Json.Place.closed.after c := by
      rw [← hclosed]
      simp [Json.Place.afterAll]
    rw [EndsOutside, hlast]
    exact Json.Place.isOutside_after rfl hquote
  · simp at hds

/-- **A cut leaves a beginning** of the whole that stands outside its strings. -/
theorem begins_cutAtBrace {soFar : String}
    (hsoFar : Begins whole soFar) :
    Begins whole (cutAtBrace soFar) ∧ EndsOutside (cutAtBrace soFar).toList := by
  obtain ⟨⟨more, hmore⟩, hbrace⟩ := hsoFar
  cases hcut : Text.cutLast? ['\x7d'] soFar.toList with
  | none =>
    rw [Text.cutLast?_eq_none_iff (by decide), singleton_infix_iff] at hcut
    exact absurd hbrace hcut
  | some found =>
    obtain ⟨before, rest⟩ := found
    have hsoFar := Text.eq_append_of_cutLast? hcut
    have hkept : (cutAtBrace soFar).toList = before ++ '\x7d' :: rest.take 1 := by
      rw [cutAtBrace, hcut, String.toList_ofList]
    have hwhole : whole.toList = before ++ ['\x7d'] ++ (rest.take 1 ++ (rest.drop 1 ++ more)) := by
      rw [← hmore, hsoFar, ← append_assoc (rest.take 1), take_append_drop,
        append_assoc _ rest]
    rw [Begins, hkept]
    refine ⟨⟨⟨rest.drop 1 ++ more, ?_⟩, by simp⟩, h.endsOutside hwhole (length_take_le 1 rest)⟩
    rw [hwhole]
    simp

/-- **The content of a reply** that goes on is its piece, without the white space at its end. -/
theorem toList_content {kept : List Char} (hkept : EndsOutside kept)
    (hpiece : kept ++ piece <+: whole.toList) (hreply : Fenced piece reply) :
    (content reply).toList = Text.dropEnd Text.isBlank piece := by
  obtain ⟨more, hmore⟩ := hpiece
  have hfence : ¬ fence <:+: piece := by
    intro hin
    exact h.not_infix_fence (hin.trans ⟨kept, more, hmore⟩)
  rw [toList_content_of_fenced hreply hfence]
  -- the piece begins outside strings, where a compact text has no white space to be trimmed
  cases piece with
  | nil => rfl
  | cons c piece =>
    have hwhole : whole.toList = kept ++ c :: (piece ++ more) := by
      rw [← hmore, append_assoc]
      rfl
    rw [Text.trimList, Text.dropStart_cons (h.outer hwhole hkept).1]

/-- The white space at the end of a piece is lost only **inside** the whole. -/
theorem append_dropEnd_eq_iff {kept : List Char}
    (hpiece : kept ++ piece <+: whole.toList) :
    kept ++ Text.dropEnd Text.isBlank piece = whole.toList ↔ kept ++ piece = whole.toList := by
  constructor
  · intro heq
    have hle : kept ++ Text.dropEnd Text.isBlank piece <+: kept ++ piece :=
      (prefix_append_right_inj kept).mpr (Text.dropEnd_isPrefix _ piece)
    rw [heq] at hle
    exact hpiece.eq_of_length_le hle.length_le
  · intro heq
    rcases eq_nil_or_concat piece with rfl | ⟨init, c, rfl⟩
    · exact heq
    · have hwhole : whole.toList = kept ++ init ++ [c] := by
        rw [← heq]
        simp
      have hlast := Json.last_of_isCompact (h.parseList hwhole) (hwhole ▸ h.isCompact)
      rw [concat_eq_append] at heq ⊢
      rw [Text.dropEnd_of_last hlast]
      exact heq

end Written

/-! ### Rounds that go on -/

/-- A round **continues** a text: its reply holds a piece that goes on at the cut, and only the
whole is accepted. -/
structure Continues (whole : String) (e : Extension) : Prop where
  piece : ∃ piece, Fenced piece e.reply ∧ e.shown.toList ++ piece <+: whole.toList
  accepted : e.isAccepted = true → e.text = whole

section

variable {model : Value} {raw soFar : String} {session : Session} {l l' : Ledger} {e : Extension}

/-- What an extension shows and puts together. -/
theorem of_extendOnce (h : (extendOnce model raw soFar).Returns session l e l') :
    e.shown = cutAtBrace soFar ∧ e.text = stitch e.shown e.reply := by
  obtain ⟨⟨reply, finish⟩, _, -, h⟩ := h.of_bind
  obtain ⟨reply, _, -, h⟩ := h.of_bind
  obtain ⟨answer, _, -, h⟩ := h.of_bind
  cases h
  exact ⟨rfl, rfl⟩

/-- A closing brace is not trimmed. -/
theorem mem_dropEnd (h : '\x7d' ∈ piece) : '\x7d' ∈ Text.dropEnd Text.isBlank piece := by
  obtain ⟨blanks, hpiece, hblanks⟩ := Text.exists_blanks_of_dropEnd Text.isBlank piece
  rw [hpiece, mem_append] at h
  exact h.resolve_right fun hmem => absurd (hblanks _ hmem) (by decide)

/-- **What a round puts together** is a beginning of the whole, and the whole just when the piece
brings all that is left. -/
theorem Written.begins_extension (h : Written nesting whole v) (hsoFar : Begins whole soFar)
    (he : (extendOnce model raw soFar).Returns session l e l') (hreply : Fenced piece e.reply)
    (hpiece : e.shown.toList ++ piece <+: whole.toList) :
    Begins whole e.shown ∧ Begins whole e.text ∧
      (e.text = whole ↔ e.shown.toList ++ piece = whole.toList) := by
  obtain ⟨hshown, htext⟩ := of_extendOnce he
  obtain ⟨hbegins, houtside⟩ := hshown ▸ h.begins_cutAtBrace hsoFar
  have htext : e.text.toList = e.shown.toList ++ Text.dropEnd Text.isBlank piece := by
    rw [htext, stitch, if_pos (beginsWith_of_fenced hreply), String.toList_append,
      h.toList_content houtside hpiece hreply]
  refine ⟨hbegins, ⟨?_, ?_⟩, ?_⟩
  · rw [htext]
    refine List.IsPrefix.trans ?_ hpiece
    exact (prefix_append_right_inj _).mpr (Text.dropEnd_isPrefix _ piece)
  · rw [htext]
    exact mem_append_left _ hbegins.2
  · rw [← String.toList_inj, htext]
    exact h.append_dropEnd_eq_iff hpiece

/-- **An extension** of a text in one of the rounds that are allowed. -/
def Extends (model : Value) (raw : String) (session : Session) (fuel : Nat) (text : String)
    (l₀ : Ledger) (e : Extension) : Prop :=
  ∃ n < fuel, ∃ soFar l l', Passes (transformRound model raw) session n text l₀ soFar l ∧
    (extendOnce model raw soFar).Returns session l e l'

/-- After every round the text is a beginning of the whole. -/
theorem Written.begins_of_passes (h : Written nesting whole v) {fuel n : Nat} {text : String}
    {l₀ : Ledger} (htext : Begins whole text)
    (hmore : ∀ e, Extends model raw session fuel text l₀ e → Continues whole e) (hn : n ≤ fuel)
    (hpasses : Passes (transformRound model raw) session n text l₀ soFar l) :
    Begins whole soFar := by
  refine hpasses.invariant (fun {m s₁ l₁ s₂ l₂} hm hbefore hround hbegins => ?_) htext
  obtain ⟨e, he, hnext⟩ := exists_of_transformRound hround
  obtain ⟨piece, hreply, hpiece⟩ :=
    (hmore e ⟨m, Nat.lt_of_lt_of_le hm hn, s₁, l₁, l₂, hbefore, he⟩).piece
  have hbegins := (h.begins_extension hbegins he hreply hpiece).2.1
  split at hnext
  · cases hnext
  · cases hnext
    exact hbegins

/-- The first text is a beginning of the whole. -/
theorem Written.begins_content (h : Written nesting whole v) (hreply : Fenced piece reply)
    (hpiece : piece <+: whole.toList) (hbrace : '\x7d' ∈ piece) : Begins whole (content reply) := by
  have hcontent : (content reply).toList = Text.dropEnd Text.isBlank piece :=
    h.toList_content (show EndsOutside [] from rfl) hpiece hreply
  rw [Begins, hcontent]
  exact ⟨(Text.dropEnd_isPrefix _ piece).trans hpiece, mem_dropEnd hbrace⟩

/-- The entries of the whole are its table. -/
theorem readEntries_of_parse {fields : Fields} {entries : Value}
    (hparse : Json.parse nesting whole = .ok (.object fields))
    (hentries : fields.get? "table_of_contents" = some entries) :
    readEntries nesting whole = Outline.readPages entries := by
  have hfield : (Value.object fields).field "table_of_contents" = .ok entries :=
    Value.field_eq_ok_iff.mpr hentries
  rw [readEntries, parse, hparse]
  change ((Value.object fields).field "table_of_contents" >>= Outline.readPages) = _
  rw [hfield]
  rfl

/-- **Pieces make the whole.** Let the whole be the compact text of an object with a list of
entries, no string of which has a closing brace or a fence. The first reply holds a beginning of it
with a closing brace and is not accepted, every further one a piece that goes on at the cut, and
only the whole is accepted. Then in every round the texts are beginnings of the whole, which is put
together just when a piece brings all that is left. A text at the end is the whole, and its entries
are the result. -/
theorem pieces_make_the_whole {reply : String} {fields : Fields} {entries : List Value}
    {piece : List Char} {l l₀ : Ledger}
    (hwhole : Written session.nesting whole (.object fields))
    (hentries : Fields.get? fields "table_of_contents" = some (.list entries))
    (hfirst : (firstReply model raw).Returns session l (.str reply, false) l₀)
    (hreply : Fenced piece reply) (hpiece : piece <+: whole.toList) (hbrace : '\x7d' ∈ piece)
    (hmore : ∀ e, Extends model raw session session.patience (content reply) l₀ e →
      Continues whole e) :
    (∀ e, Extends model raw session session.patience (content reply) l₀ e →
      Begins whole e.shown ∧ Begins whole e.text ∧
        ∀ piece, Fenced piece e.reply → e.shown.toList ++ piece <+: whole.toList →
          (e.text = whole ↔ e.shown.toList ++ piece = whole.toList)) ∧
    ∀ text l', (rounds (transformRound model raw) session.patience (content reply)).Returns session
        l₀ text l' →
      text = whole ∧
        (transform model (.str raw)).execute session l =
          (Outline.readPages (.list entries), l') := by
  have hbegins := hwhole.begins_content hreply hpiece hbrace
  refine ⟨?_, fun text l' hloop => ?_⟩
  · rintro e ⟨n, hn, soFar, l₁, l', hpasses, he⟩
    have hsoFar := hwhole.begins_of_passes hbegins hmore hn.le hpasses
    obtain ⟨rest, hrest, hgoes⟩ := (hmore e ⟨n, hn, soFar, l₁, l', hpasses, he⟩).piece
    obtain ⟨hshown, htext, -⟩ := hwhole.begins_extension hsoFar he hrest hgoes
    exact ⟨hshown, htext, fun _ hrest hgoes =>
      (hwhole.begins_extension hsoFar he hrest hgoes).2.2⟩
  · have htext : text = whole := by
      rcases execute_rounds_iff.mp hloop with ⟨n, hn, soFar, l₁, hpasses, hround⟩ | ⟨hfuel, -⟩
      · obtain ⟨e, he, hnext⟩ := exists_of_transformRound hround
        split at hnext
        · rename_i haccepted
          cases hnext
          exact (hmore e ⟨n, hn, soFar, l₁, l', hpasses, he⟩).accepted haccepted
        · cases hnext
      · cases hfuel
    refine ⟨htext, (execute_transform_iff hfirst).mpr ⟨.ok text, hloop, ?_⟩⟩
    rw [htext, ← readEntries_of_parse hwhole.parses hentries]
    rfl

/-- An extension is the first one, or follows one that was refused. -/
theorem eq_or_extends_of_returns {text : String} {fuel : Nat} {l₀ l₁ : Ledger} {e₁ : Extension}
    (hfirst : (extendOnce model raw text).Returns session l₀ e₁ l₁)
    (h : Extends model raw session fuel text l₀ e) :
    e = e₁ ∨ e₁.isAccepted = false ∧ Extends model raw session (fuel - 1) e₁.text l₁ e := by
  obtain ⟨n, hn, soFar, l, l', hpasses, he⟩ := h
  cases n with
  | zero =>
    obtain ⟨rfl, rfl⟩ := hpasses
    exact .inl (he.unique hfirst).1
  | succ n =>
    obtain ⟨s₁, l₂, hround, hpasses⟩ := hpasses
    obtain ⟨e₂, he₂, hnext⟩ := exists_of_transformRound hround
    obtain ⟨rfl, rfl⟩ := he₂.unique hfirst
    split at hnext
    · cases hnext
    · rename_i hrefused
      cases hnext
      exact .inr ⟨by simpa using hrefused, n, by omega, soFar, l, l', hpasses, he⟩

end

/-! ### A table in three pieces -/

section

variable (texts : List String) (model : Value) (raw : String) {k : Nat} {l : Ledger}

/-- The next text of a script is the next reply. -/
theorem exists_returns_scripted (hl : l.requests.length = k) (prompt : String) :
    (∃ l', (Ask.withFinish model prompt).Returns (scripted texts) l
      (.str (texts.getD k ""), .finished) l' ∧ l'.requests.length = k + 1) ∧
    ∃ l', (Ask.content model prompt).Returns (scripted texts) l (.str (texts.getD k "")) l' ∧
      l'.requests.length = k + 1 := by
  set r : Request := ⟨model, false, Ask.messages [] prompt⟩
  have hlength : (l.requests ++ [r]).length = k + 1 := by
    rw [length_append, hl]
    rfl
  have hreply : texts.getD ((l.requests ++ [r]).length - 1) "" = texts.getD k "" := by
    rw [hlength, Nat.add_sub_cancel]
  rw [← hreply]
  exact ⟨⟨_, rfl, hlength⟩, ⟨_, rfl, hlength⟩⟩

variable {texts} {answer : Value}

/-- A scripted answer. -/
theorem exists_returns_isComplete_scripted (hl : l.requests.length = k)
    (hanswer : (extract 9 (.str (texts.getD k ""))).field "completed" = .ok answer)
    (cleaned : String) :
    ∃ l', (isComplete model (.str raw) (.str cleaned)).Returns (scripted texts) l answer l' ∧
      l'.requests.length = k + 1 := by
  obtain ⟨l₁, hreply, hl₁⟩ := (exists_returns_scripted texts model hl
    (completePrompt ++ "\n Raw Table of contents:\n" ++ raw ++
      "\n Cleaned Table of contents:\n" ++ cleaned)).2
  exact ⟨l₁, returns_isComplete hreply hanswer, hl₁⟩

/-- A scripted extension takes two texts. -/
theorem exists_returns_extendOnce (soFar : String) (hl : l.requests.length = k)
    (hanswer : (extract 9 (.str (texts.getD (k + 1) ""))).field "completed" = .ok answer) :
    ∃ l', (extendOnce model raw soFar).Returns (scripted texts) l
      ⟨cutAtBrace soFar, texts.getD k "", stitch (cutAtBrace soFar) (texts.getD k ""),
        isDone answer .finished⟩ l' ∧ l'.requests.length = k + 2 := by
  obtain ⟨l₁, hreply, hl₁⟩ :=
    (exists_returns_scripted texts model hl (transformOnPrompt raw (cutAtBrace soFar))).1
  obtain ⟨l₂, hdone, hl₂⟩ := exists_returns_isComplete_scripted model raw hl₁ hanswer
    (stitch (cutAtBrace soFar) (texts.getD k ""))
  exact ⟨l₂, returns_extendOnce hreply hdone, hl₂⟩

/-- A scripted first reply takes two texts. -/
theorem exists_returns_firstReply_scripted
    (hanswer : (extract 9 (.str (texts.getD 1 ""))).field "completed" = .ok answer) :
    ∃ l₀, (firstReply model raw).Returns (scripted texts) {}
      (.str (texts.getD 0 ""), isDone answer .finished) l₀ ∧ l₀.requests.length = 2 := by
  obtain ⟨l₁, hprint, hl₁⟩ : ∃ l₁, (printLine "start toc_transformer").Returns (scripted texts) {}
    () l₁ ∧ l₁.requests.length = 0 := ⟨_, rfl, rfl⟩
  obtain ⟨l₂, hreply, hl₂⟩ := (exists_returns_scripted texts model hl₁
    (transformPrompt ++ "\n Given table of contents\n:" ++ raw)).1
  obtain ⟨l₀, hdone, hl₀⟩ :=
    exists_returns_isComplete_scripted model raw hl₂ hanswer (texts.getD 0 "")
  exact ⟨l₀, returns_firstReply hprint hreply hdone, hl₀⟩

end

/-- A table of contents with two entries. -/
def seaTable : String :=
  "\x7b\"table_of_contents\":[\x7b\"title\":\"Sea\"\x7d," ++
    "\x7b\"title\":\"High tide\",\"page\":\"7\"\x7d]\x7d"

/-- Its entries, with some value for the page of the second one. -/
def seaEntries (page : Value) : List Value :=
  [.object [("title", .str "Sea")], .object [("title", .str "High tide"), ("page", page)]]

/-- Replies that bring it in three pieces, the first two of which break off inside a string. -/
def seaReplies : List String :=
  ["\x60\x60\x60json\n\x7b\"table_of_contents\":[\x7b\"title\":\"Sea\"\x7d,\x7b\"ti",
    "\x7b\"completed\": \"no\"\x7d", "\x60\x60\x60json\n\x7b\"title\":\"High ",
    "\x7b\"completed\": \"no\"\x7d",
    "\x60\x60\x60json\n\x7b\"title\":\"High tide\",\"page\":\"7\"\x7d]\x7d\n\x60\x60\x60",
    "\x7b\"completed\": \"yes\"\x7d"]

/-- The table is compact, and its strings are harmless. -/
theorem written_seaTable :
    Written 9 seaTable (.object [("table_of_contents", .list (seaEntries (.str "7")))]) :=
  ⟨by decide +kernel, by decide +kernel, by decide +kernel, by decide +kernel⟩

/-- The table is put together from its pieces, and its page is read as a number. -/
theorem sea_table_in_pieces :
    ∃ l₀ l', (firstReply .null "").Returns (scripted seaReplies) {}
        (.str (seaReplies.getD 0 ""), false) l₀ ∧
      (∀ e, Extends .null "" (scripted seaReplies) (scripted seaReplies).patience
        (content (seaReplies.getD 0 "")) l₀ e → Continues seaTable e ∧ Begins seaTable e.text) ∧
      (transform .null (.str "")).execute (scripted seaReplies) {} =
        (.ok (.list (seaEntries (.int 7))), l') := by
  have hno : isDone (.str "no") .finished = false := by decide
  have hyes : isDone (.str "yes") .finished = true := by decide
  have hone : (extract 9 (.str (seaReplies.getD 1 ""))).field "completed" = .ok (.str "no") := by
    decide +kernel
  have hthree : (extract 9 (.str (seaReplies.getD 3 ""))).field "completed" = .ok (.str "no") := by
    decide +kernel
  have hfive : (extract 9 (.str (seaReplies.getD 5 ""))).field "completed" = .ok (.str "yes") := by
    decide +kernel
  obtain ⟨l₀, hfirst, hl₀⟩ := exists_returns_firstReply_scripted .null "" hone
  obtain ⟨l₁, hsecond, hl₁⟩ := exists_returns_extendOnce .null ""
    (content (seaReplies.getD 0 "")) hl₀ hthree
  obtain ⟨l₂, hthird, -⟩ := exists_returns_extendOnce .null ""
    (stitch (cutAtBrace (content (seaReplies.getD 0 ""))) (seaReplies.getD 2 "")) hl₁ hfive
  rw [hno] at hfirst hsecond
  rw [hyes] at hthird
  have hgap : ∀ c ∈ ['\n'], Text.isBlank c = true := forall_mem_singleton.mpr (by decide)
  have hmore : ∀ e, Extends .null "" (scripted seaReplies) (scripted seaReplies).patience
      (content (seaReplies.getD 0 "")) l₀ e → Continues seaTable e := by
    intro e he
    rcases eq_or_extends_of_returns hsecond he with rfl | ⟨-, he⟩
    · exact ⟨⟨"\x7b\"title\":\"High ".toList, ⟨['\n'], [], by decide +kernel, hgap,
        .inl (forall_mem_nil _)⟩, by decide +kernel⟩, nofun⟩
    rcases eq_or_extends_of_returns hthird he with rfl | ⟨hrefused, -⟩
    · exact ⟨⟨"\x7b\"title\":\"High tide\",\"page\":\"7\"\x7d]\x7d".toList, ⟨['\n'], '\n' :: fence,
        by decide +kernel, hgap, .inr ⟨['\n'], [], rfl, hgap, forall_mem_nil _⟩⟩,
        by decide +kernel⟩, fun _ => by decide +kernel⟩
    · cases hrefused
  have hloop : (rounds (transformRound .null "") (scripted seaReplies).patience
      (content (seaReplies.getD 0 ""))).Returns (scripted seaReplies) l₀ _ l₂ :=
    execute_rounds_iff.mpr (.inl ⟨1, by decide, _, l₁, ⟨_, l₁,
      hsecond.bind rfl, rfl, rfl⟩,
      hthird.bind rfl⟩)
  have hentries : Fields.get? [("table_of_contents", .list (seaEntries (.str "7")))]
      "table_of_contents" = some (.list (seaEntries (.str "7"))) := by decide +kernel
  have hread : Outline.readPages (.list (seaEntries (.str "7"))) =
      .ok (.list (seaEntries (.int 7))) := by decide +kernel
  have hpiece : Fenced "\x7b\"table_of_contents\":[\x7b\"title\":\"Sea\"\x7d,\x7b\"ti".toList
      (seaReplies.getD 0 "") :=
    ⟨['\n'], [], by decide +kernel, hgap, .inl (forall_mem_nil _)⟩
  obtain ⟨hrounds, hend⟩ := pieces_make_the_whole written_seaTable hentries hfirst hpiece
    (by decide +kernel) (by decide +kernel) hmore
  rw [hread] at hend
  exact ⟨l₀, l₂, hfirst, fun e he => ⟨hmore e he, (hrounds e he).2.1⟩, (hend _ _ hloop).2⟩

end Contents

end DocTree
