import Locator.Proofs.Yaml.DoubleQuotes
import Locator.Proofs.Yaml.Plain

/-!
# Collections in brackets

In brackets the columns say nothing, and a key may stand in quotes.

* `Reaches.openBrace`, `Reaches.comma`, `Reaches.closeBrace`: what stands around the entries of a
  mapping
* `Reaches.quotedKey`: a key in quotes
* `Reaches.word_comma`, `Reaches.word_closeBrace`: a word as a value
-/

namespace Locator.Yaml

variable {cursor : Cursor} {rest after word name : List Char} {c : Char} {n margin : Nat}

/-! ## Words -/

/-- A word is read up to the brace on the line behind it. -/
theorem scanPlain_closeBrace (hword : IsName word)
    (hrest : cursor.rest = word ++ '\n' :: (List.replicate n ' ' ++ '\x7d' :: after)) :
    ∃ next, scanPlain true margin [] (.within []) cursor =
        some { text := word, cursor := next, onNewLine := true } ∧
      next.rest = '\x7d' :: after ∧ next.column = n := by
  have hbehind : (cursor.advance word.length).rest =
      '\n' :: (List.replicate n ' ' ++ '\x7d' :: after) := by
    rw [Cursor.rest_advance, hrest, List.drop_left]
  have hstart : StartsToken ('\x7d' :: after) := by
    rintro c ⟨⟩
    decide
  obtain ⟨next, hgap, hnext, hcolumn⟩ := scanGap_next_line margin hbehind hstart
  have hplain : plainWord true cursor.rest = some word := by
    rw [hrest]
    exact plainWord_of_names hword.chars rfl
  refine ⟨next, ?_, hnext, hcolumn⟩
  -- in brackets the next line goes on, but it begins with the bracket, where no word comes
  rw [scanPlain_step [] (.within []) (hword.atDocumentSeparator hrest) (hword.head?_ne hrest) hplain
    hword.ne_nil hgap, if_neg, if_neg (by simp), scanPlain_stop _ _ (by rw [hnext]; rfl)]
  · rfl
  · simp only [Cursor.length, hnext, hbehind, List.length_cons, List.length_append]
    omega

/-- A word is read up to the quote behind it. -/
theorem scanQuoted_word (hword : ∀ c ∈ word, isNameChar c = true) (hcolumn : 0 < cursor.column)
    (hrest : cursor.rest = word ++ '"' :: after) :
    scanQuoted false cursor = some (word, cursor.advance (word.length + 1)) := by
  have hseparator := Cursor.atDocumentSeparator_of_column hcolumn
  induction word generalizing cursor with
  | nil => exact scanQuoted_end hseparator hrest
  | cons c word ih =>
    have hc := isOrdinary_of_isNameChar (hword c List.mem_cons_self)
    have hquote : c ≠ '"' ∧ c ≠ '\\' := by
      refine ⟨?_, ?_⟩
      · rintro rfl
        cases hc.markup
      · rintro rfl
        cases hword '\\' List.mem_cons_self
    have hnext : (cursor.advance 1).rest = word ++ '"' :: after := by
      rw [Cursor.rest_advance, hrest]
      rfl
    rw [scanQuoted_char false hseparator hrest ⟨hc.space, hc.newline⟩ (by simpa using hquote),
      ih (fun d hd => hword d (.tail c hd)) (Nat.succ_pos _) hnext
        (by simp [Cursor.atDocumentSeparator])]
    simp [Cursor.advance, Nat.add_assoc, Nat.add_comm 1]

namespace Scanner

variable {scanner ready : Scanner} {position : Position}

/-! ## Brackets -/

theorem Reaches.openBrace (h : scanner.Reaches position) (hrest : position.rest = '\x7b' :: after)
    (hcolumns : position.depth = 0 → position.columns = []) :
    scanner.Comes { position with
      rest := after
      column := position.column + 1
      keyAllowed := true
      keyless := true
      depth := position.depth + 1
      tokens := .flowMappingStart :: position.tokens } := by
  refine h.comes hrest fun {ready} hstands => ?_
  have hready := hstands.rest.trans hrest
  have hbrace : ready.takeToken '\x7b' after = ready.openBracket .flowMappingStart := by
    simp [takeToken, Cursor.atDocumentSeparator, hready, atSeparator]
  -- the mapping itself may be a key, but it does not have to be one
  obtain ⟨items, key, hstart, hitems, hoptional⟩ : ∃ items key,
      ready.startNode = some { ready with items, key } ∧
        items.filterMap Item.token? = position.tokens ∧ key.any (·.required) = false := by
    by_cases hkey : ready.keyAllowed = true
    · refine ⟨_, _, startNode_eq hkey hstands.key_optional, hstands.tokens, ?_⟩
      rw [hstands.inFlow_eq, hstands.columns]
      by_cases hdepth : position.depth = 0
      · simp [hcolumns hdepth]
      · simp [hdepth]
    · exact ⟨_, _, startNode_of_no_key (by simpa using hkey), hstands.tokens,
        hstands.key_optional⟩
  refine ⟨_, hbrace.trans (by rw [openBracket, hstart]; rfl), ?_, _, rfl, ?_⟩
  · exact Cursor.length_advance_lt hready 0
  · exact {
      rest := by simp [take, emit, hready]
      column := by simp [take, emit, hstands.column]
      keyAllowed := rfl
      columns := hstands.columns
      keyless := fun _ => rfl
      depth := congrArg (· + 1) hstands.depth
      optional := List.forall_mem_cons.2 ⟨rfl, List.forall_mem_cons.2
        ⟨hoptional, hstands.outerKeys_optional⟩⟩
      tokens := by simp [take, emit, Item.token?, hitems] }

theorem Reaches.closeBrace (h : scanner.Reaches position)
    (hrest : position.rest = '\x7d' :: after) :
    scanner.Comes { position with
      rest := after
      column := position.column + 1
      keyAllowed := false
      keyless := false
      depth := position.depth - 1
      tokens := .flowMappingEnd :: position.tokens } := by
  refine h.comes hrest fun {ready} hstands => ?_
  have hready := hstands.rest.trans hrest
  have hbrace : ready.takeToken '\x7d' after = ready.closeBracket .flowMappingEnd := by
    simp [takeToken, Cursor.atDocumentSeparator, hready, atSeparator]
  have houter := hstands.outerKeys_optional
  refine ⟨_, hbrace.trans (by rw [closeBracket, hstands.dropKey_eq]; rfl), ?_, _, rfl, ?_⟩
  · exact Cursor.length_advance_lt hready 0
  · exact {
      rest := by simp [take, emit, hready]
      column := by simp [take, emit, hstands.column]
      keyAllowed := rfl
      columns := hstands.columns
      keyless := by rintro ⟨⟩
      depth := by simp [hstands.depth]
      optional := by
        -- the key that waited outside the bracket comes back
        cases hkeys : ready.outerKeys with
        | nil => simp
        | cons key keys =>
          rw [hkeys] at houter
          simpa [take, emit, hkeys] using houter
      tokens := by simp [take, emit, Item.token?, hstands.tokens] }

theorem Reaches.comma (h : scanner.Reaches position) (hrest : position.rest = ',' :: after) :
    scanner.Comes { position with
      rest := after
      column := position.column + 1
      keyAllowed := true
      keyless := true
      tokens := .flowEntry :: position.tokens } := by
  refine h.comes hrest fun {ready} hstands => ?_
  have hready := hstands.rest.trans hrest
  have hcomma : ready.takeToken ',' after =
      some { { ready with key := none : Scanner }.take 1 .flowEntry with keyAllowed := true } := by
    simp [takeToken, Cursor.atDocumentSeparator, hready, atSeparator, hstands.dropKey_eq]
  refine ⟨_, hcomma, ?_, _, rfl, ?_⟩
  · exact Cursor.length_advance_lt hready 0
  · exact {
      rest := by simp [take, emit, hready]
      column := by simp [take, emit, hstands.column]
      keyAllowed := rfl
      columns := hstands.columns
      keyless := fun _ => rfl
      depth := hstands.depth
      optional := List.forall_mem_cons.2 ⟨rfl, hstands.outerKeys_optional⟩
      tokens := by simp [take, emit, Item.token?, hstands.tokens] }

/-! ## Keys -/

/-- A word in quotes with a colon behind it is a key. -/
theorem Reaches.quotedKey (h : scanner.Reaches position)
    (hrest : position.rest = '"' :: (name ++ '"' :: ':' :: after))
    (hname : ∀ c ∈ name, isNameChar c = true) (hlength : name.length + 2 ≤ keyLimit)
    (hkey : position.keyAllowed = true) (hdepth : position.depth ≠ 0) :
    scanner.Comes { position with
      rest := after
      column := position.column + name.length + 3
      keyAllowed := false
      keyless := true
      tokens :=
        .value :: .scalar (String.ofList name) .doubleQuoted :: .key :: position.tokens } := by
  refine h.comes hrest fun {ready} hstands => ?_
  have hready := hstands.rest.trans hrest
  have hbehind : (ready.cursor.advance 1).rest = name ++ '"' :: ':' :: after := by
    rw [Cursor.rest_advance, hready]
    rfl
  have hscan := scanQuoted_word hname (Nat.succ_pos _) hbehind
  have htake := (takeToken_quote false hready).trans
    (takeQuoted_eq (startNode_eq (hstands.keyAllowed.trans hkey) hstands.key_optional) hscan)
  have hnext : ((ready.cursor.advance 1).advance (name.length + 1)).rest = ':' :: after := by
    rw [Cursor.rest_advance, hbehind, ← List.drop_drop, List.drop_left]
    rfl
  -- behind the closing quote the word still may be a key
  have hnames : { ready with
      cursor := (ready.cursor.advance 1).advance (name.length + 1)
      items := .token (.scalar (String.ofList name) .doubleQuoted) ::
        .mark ready.cursor.index :: ready.items
      key := some {
        required := !ready.inFlow && ready.columns.head? == some ready.cursor.column
        index := ready.cursor.index
        line := ready.cursor.line
        column := ready.cursor.column }
      keyAllowed := false : Scanner }.Names position (.scalar (String.ofList name) .doubleQuoted)
        (':' :: after) (position.column + name.length + 2) := {
    rest := hnext
    column := by
      simp only [Cursor.column_advance, hstands.column]
      omega
    columns := hstands.columns
    depth := hstands.depth
    optional := hstands.outerKeys_optional
    key := by
      refine ⟨_, _, rfl, ?_, hstands.column, rfl, hstands.tokens⟩
      have hfresh : ready.cursor.index + 1 + (name.length + 1) ≤ ready.cursor.index + keyLimit := by
        omega
      simpa [PossibleKey.isFresh, Cursor.advance] using hfresh }
  have hcolon := hnames.colon (.inl hdepth) (fun h => absurd h hdepth)
  have hopened : position.opened = position := by
    rw [Position.opened, if_neg (fun h => hdepth h.1)]
  rw [hopened] at hcolon
  refine ⟨_, htake, ?_, hcolon⟩
  exact Nat.lt_of_le_of_lt (Cursor.length_advance_le _ _) (Cursor.length_advance_lt hready 0)

/-! ## Values -/

/-- A value in brackets is taken as a word. -/
theorem Stands.takeToken_word (h : ready.Stands position) (hword : IsName word)
    (hrest : position.rest = word ++ after) (hkey : position.keyAllowed = false)
    (hcons : position.rest = c :: rest) {scalar : PlainScalar} (hdepth : position.depth ≠ 0)
    (hscan : scanPlain true position.margin [] (.within []) ready.cursor = some scalar) :
    ready.takeToken c rest = some {
      ready.emit (.scalar (String.ofList scalar.text) .plain) with
      cursor := scalar.cursor
      keyAllowed := scalar.onNewLine } := by
  obtain ⟨d, more, rfl⟩ := List.exists_cons_of_ne_nil hword.ne_nil
  obtain ⟨rfl, rfl⟩ := List.cons.inj (hcons.symm.trans hrest)
  obtain ⟨hc, hdash⟩ := hword.head
  have hflow : ready.inFlow = true := by
    rw [h.inFlow_eq]
    simpa using hdepth
  have htake := Scanner.takeToken_plain (h.rest.trans hcons) (hword.startsPlain after)
    (fun h => by simp [hc.question, hc.colon] at h) fun _ => ⟨hdash, hc.dot⟩
  refine htake.trans (takePlain_eq (startNode_of_no_key (h.keyAllowed.trans hkey)) ?_)
  rw [h.margin_eq, hflow, hscan]

/-- A word with a comma behind it. -/
theorem Reaches.word_comma (h : scanner.Reaches position)
    (hrest : position.rest = word ++ ',' :: after) (hword : IsName word)
    (hkey : position.keyAllowed = false) (hdepth : position.depth ≠ 0) :
    scanner.Comes { position with
      rest := ',' :: after
      column := position.column + word.length
      tokens := .scalar (String.ofList word) .plain :: position.tokens } := by
  obtain ⟨c, more, hcons⟩ := List.exists_cons_of_ne_nil hword.ne_nil
  have htext : position.rest = c :: (more ++ ',' :: after) := by
    rw [hrest, hcons]
    rfl
  refine h.comes htext fun {ready} hstands => ?_
  have htake := hstands.takeToken_word hword hrest hkey htext hdepth
    (scanPlain_word hword (hstands.rest.trans hrest) rfl (by rintro d ⟨⟩; exact ⟨rfl, rfl⟩))
  refine ⟨_, htake, ?_, _, rfl, hstands.emitted ?_ ?_ hkey.symm⟩
  · rw [hcons]
    exact Cursor.length_advance_lt (hstands.rest.trans htext) more.length
  · rw [Cursor.rest_advance, hstands.rest, hrest, List.drop_left]
  · rw [Cursor.column_advance, hstands.column]

/-- A word with a brace on the line behind it. -/
theorem Reaches.word_closeBrace (h : scanner.Reaches position)
    (hrest : position.rest = word ++ '\n' :: (List.replicate n ' ' ++ '\x7d' :: after))
    (hword : IsName word) (hkey : position.keyAllowed = false) (hdepth : position.depth ≠ 0) :
    scanner.Comes { position with
      rest := '\x7d' :: after
      column := n
      keyAllowed := true
      tokens := .scalar (String.ofList word) .plain :: position.tokens } := by
  obtain ⟨c, more, hcons⟩ := List.exists_cons_of_ne_nil hword.ne_nil
  have htext : position.rest =
      c :: (more ++ '\n' :: (List.replicate n ' ' ++ '\x7d' :: after)) := by
    rw [hrest, hcons]
    rfl
  refine h.comes htext fun {ready} hstands => ?_
  obtain ⟨next, hscan, hnext, hcolumn⟩ := scanPlain_closeBrace hword (hstands.rest.trans hrest)
  have htake := hstands.takeToken_word hword hrest hkey htext hdepth hscan
  refine ⟨_, htake, ?_, _, rfl, hstands.emitted hnext hcolumn rfl⟩
  simp only [Cursor.length, hnext, hstands.rest, hrest, List.length_append, List.length_cons]
  omega

end Scanner

end Locator.Yaml
