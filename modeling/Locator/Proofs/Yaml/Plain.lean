import Locator.Proofs.Yaml.Gaps
import Mathlib.Data.List.TakeWhile

/-!
# Plain scalars

A plain scalar is read word by word, up to where the line ends or a word does not go on. A text that
`FitsLine` has nothing in it that would end it earlier.

* `scanPlain_line`: a plain text that fits on a line
* `scanPlain_colon`: a plain text with a colon behind it that ends a word
* `Reaches.key`: a word with a colon is a key
* `Reaches.plain`: a plain text as a value
-/

namespace Locator.Yaml

variable {cursor : Cursor} {rest after word text spaces : List Char} {c : Char} {n margin : Nat}
  {inFlow : Bool}

/-! ## Words -/

/-- A word goes up to where one ends, when nothing in it ends one. -/
theorem plainWord_append
    (hword : ∀ front c back, word = front ++ c :: back → isSpace c = false ∧ isBreak c = false ∧
      (inFlow = true → isFlowIndicator c = false) ∧
      (c = ':' → inFlow = false ∧ endsWord (back ++ after) = false))
    (hafter : plainWord inFlow after = some []) :
    plainWord inFlow (word ++ after) = some word := by
  induction word with
  | nil => exact hafter
  | cons c word ih =>
    obtain ⟨hspace, hbreak, hflow, hcolon⟩ := hword [] c word rfl
    have hrest := ih fun front d back h => hword (c :: front) d back (congrArg (c :: ·) h)
    have hindicator : (inFlow && isFlowIndicator c) = false := by
      cases inFlow with
      | false => rfl
      | true => exact hflow rfl
    rw [List.cons_append, plainWord, hspace, hbreak, hrest, hindicator]
    -- a colon goes on only in front of something that does not end the word
    by_cases hc : c = ':'
    · obtain ⟨rfl, hends⟩ := hcolon hc
      simp [hends]
    · simp [hc]

theorem plainWord_of_space (h : isSpace c = true ∨ isBreak c = true) (rest : List Char) :
    plainWord inFlow (c :: rest) = some [] := by
  rw [plainWord, if_pos (by simpa using h)]

theorem plainWord_colon (h : endsWord after = true) :
    plainWord false (':' :: after) = some [] := by
  simp [plainWord, isSpace, isBreak, h]

/-- A text on one line in which nothing ends a plain scalar, with what stands behind it. -/
structure FitsLine (text after : List Char) : Prop where
  breaks : ∀ c ∈ text, isBreak c = false
  colons : ∀ front back, text = front ++ ':' :: back → endsWord (back ++ after) = false
  comments : ∀ front c back, text = front ++ c :: '#' :: back → isSpace c = false
  last : ∀ c ∈ text.getLast?, isSpace c = false

theorem FitsLine.of_append {front back : List Char} (h : FitsLine (front ++ back) after) :
    FitsLine back after where
  breaks c hc := h.breaks c (List.mem_append_right front hc)
  colons before behind heq := h.colons (front ++ before) behind (by rw [heq, List.append_assoc])
  comments before c behind heq :=
    h.comments (front ++ before) c behind (by rw [heq, List.append_assoc])
  last c hc := h.last c (by rw [List.getLast?_append, Option.mem_def.1 hc]; rfl)

/-! ## Lines -/

/-- One word of a plain scalar and the gap behind it. -/
theorem scanPlain_step (front : List Char) (gap : Gap) {behind : Gap} {next : Cursor}
    (hseparator : cursor.atDocumentSeparator = false) (hcomment : cursor.rest.head? ≠ some '#')
    (hword : plainWord inFlow cursor.rest = some word) (hne : word ≠ [])
    (hgap : scanGap margin (.within []) (cursor.advance word.length) = some (behind, next)) :
    scanPlain inFlow margin front gap cursor =
      if next.length = (cursor.advance word.length).length then
        some { text := front ++ gap.fold ++ word, cursor := next, onNewLine := false }
      else if !inFlow && next.column < margin then
        some { text := front ++ gap.fold ++ word, cursor := next, onNewLine := behind.isAcross }
      else scanPlain inFlow margin (front ++ gap.fold ++ word) behind next := by
  obtain ⟨c, word, rfl⟩ := List.exists_cons_of_ne_nil hne
  have hgo : (cursor.atDocumentSeparator || cursor.rest.head? == some '#') = false := by
    simp [hseparator, hcomment]
  -- the right side is set aside, so that opening `scanPlain` touches the left one only
  generalize hresult : ite (next.length = (cursor.advance (c :: word).length).length) _ _ = result
  rw [scanPlain, hgo, if_neg Bool.false_ne_true]
  split
  · next h =>
    rw [hword] at h
    cases h
  · next h =>
    rw [hword] at h
    cases h
  · next h =>
    rw [hword] at h
    obtain ⟨rfl, rfl⟩ := List.cons.inj (Option.some.inj h)
    dsimp only
    split
    · next h =>
      rw [← List.length_cons, hgap] at h
      cases h
    · next h =>
      rw [← List.length_cons, hgap] at h
      obtain ⟨rfl, rfl⟩ := Prod.mk.inj (Option.some.inj h)
      exact hresult

theorem endsWord_append {front : List Char} (h : endsWord front = false) (back : List Char) :
    endsWord (front ++ back) = false := by
  cases front with
  | nil => cases h
  | cons c front => exact h

/-- Nothing ends a word of a text that fits on a line, in front of the space or break behind it. -/
theorem FitsLine.plainWord {back : List Char} (h : FitsLine (word ++ back) after)
    (hspaces : ∀ c ∈ word, isSpace c = false)
    (hafter : plainWord false (back ++ after) = some []) :
    plainWord false (word ++ (back ++ after)) = some word := by
  refine plainWord_append ?_ hafter
  rintro before c behind rfl
  refine ⟨hspaces c (by simp), h.breaks c (by simp), nofun, ?_⟩
  rintro rfl
  have hcolon := h.colons before (behind ++ back) (by simp)
  exact ⟨rfl, by rwa [← List.append_assoc]⟩

/-- A word behind a space does not look like a comment. -/
theorem FitsLine.head?_ne {spaces more : List Char} (h : FitsLine (spaces ++ more) after)
    (hne : spaces ≠ []) (hspaces : ∀ c ∈ spaces, isSpace c = true) : more.head? ≠ some '#' := by
  intro hhead
  obtain ⟨tail, rfl⟩ := List.head?_eq_some_iff.1 hhead
  obtain ⟨front, c, rfl⟩ := (List.eq_nil_or_concat' spaces).resolve_left hne
  have hfalse := h.comments front c tail (by simp)
  rw [hspaces c (by simp)] at hfalse
  cases hfalse

/-- What is left to read when all words of a text but the last are read: that word, the text in
front of it and the gap between. -/
structure LastWord (text word after : List Char) (column : Nat) (front : List Char) (gap : Gap)
    (cursor : Cursor) : Prop where
  text_eq : front ++ gap.fold ++ word = text
  ne_nil : word ≠ []
  rest : cursor.rest = word ++ after
  plainWord_eq : plainWord false cursor.rest = some word
  comment : cursor.rest.head? ≠ some '#'
  separator : cursor.atDocumentSeparator = false
  column : column ≤ cursor.column

/-- A word is read together with the spaces behind it, up to the word that comes next. -/
theorem scanPlain_next_word {more : List Char} (front : List Char) (gap : Gap)
    (hfits : FitsLine (word ++ (spaces ++ more)) after) (hwordne : word ≠ [])
    (hword : ∀ c ∈ word, isSpace c = false) (hspacesne : spaces ≠ [])
    (hspaces : ∀ c ∈ spaces, isSpace c = true) (hmorene : more ≠ [])
    (hmore : ∀ c ∈ more.head?, isSpace c = false)
    (hseparator : cursor.atDocumentSeparator = false) (hcomment : cursor.rest.head? ≠ some '#')
    (hrest : cursor.rest = word ++ (spaces ++ (more ++ after)))
    (hcolumn : margin ≤ cursor.column) :
    ∃ next, scanPlain false margin front gap cursor =
        scanPlain false margin (front ++ gap.fold ++ word) (.within spaces) next ∧
      next.rest = more ++ after ∧ cursor.column ≤ next.column := by
  obtain ⟨space, others, hcons⟩ := List.exists_cons_of_ne_nil hspacesne
  have hspace : isSpace space = true := hspaces space (by simp [hcons])
  have hplain : plainWord false cursor.rest = some word := by
    rw [hrest, ← List.append_assoc spaces]
    refine hfits.plainWord hword ?_
    rw [hcons]
    exact plainWord_of_space (.inl hspace) _
  have hbehind : (cursor.advance word.length).rest = spaces ++ (more ++ after) := by
    rw [Cursor.rest_advance, hrest, List.drop_left]
  have hgap : scanGap margin (.within []) (cursor.advance word.length) =
      some (.within spaces, (cursor.advance word.length).advance spaces.length) := by
    refine scanGap_within [] hspaces hbehind ?_
    obtain ⟨c, tail, rfl⟩ := List.exists_cons_of_ne_nil hmorene
    rintro d ⟨⟩
    exact ⟨hmore c rfl, hfits.breaks c (by simp)⟩
  generalize hnext : (cursor.advance word.length).advance spaces.length = next at hgap
  have hnextrest : next.rest = more ++ after := by
    rw [← hnext, Cursor.rest_advance, hbehind, List.drop_left]
  have hnextcolumn : cursor.column ≤ next.column := by
    rw [← hnext, Cursor.column_advance, Cursor.column_advance]
    omega
  refine ⟨next, ?_, hnextrest, hnextcolumn⟩
  -- the gap is not empty and does not leave the line, so the scanner goes on
  rw [scanPlain_step front gap hseparator hcomment hplain hwordne hgap, if_neg, if_neg]
  · simpa using Nat.le_trans hcolumn hnextcolumn
  · simp only [Cursor.length, hnextrest, hbehind, hcons, List.length_cons, List.length_append]
    omega

/-- A text that fits on a line is read up to its last word. -/
theorem scanPlain_words (front : List Char) (gap : Gap) (hfits : FitsLine text after)
    (hhead : ∀ c ∈ text.head?, isSpace c = false ∧ c ≠ '#') (hne : text ≠ [])
    (hrest : cursor.rest = text ++ after) (hcolumn : margin ≤ cursor.column)
    (hcolumnPos : 0 < cursor.column) (hafter : plainWord false after = some []) :
    ∃ word front' gap' last, scanPlain false margin front gap cursor =
        scanPlain false margin front' gap' last ∧
      LastWord (front ++ gap.fold ++ text) word after cursor.column front' gap' last := by
  -- on the length, as a word and the spaces behind it come off the text together
  induction hlength : text.length using Nat.strongRecOn generalizing text front gap cursor with
  | ind length ih =>
    obtain ⟨word, hwordne, hwordspaces, hcases⟩ :=
      exists_word (fun c hc => (hhead c hc).1) hne hfits.last
    have hseparator := Cursor.atDocumentSeparator_of_column hcolumnPos
    have hcomment : cursor.rest.head? ≠ some '#' := by
      obtain ⟨c, more, rfl⟩ := List.exists_cons_of_ne_nil hne
      rw [hrest]
      exact fun h => (hhead c rfl).2 (Option.some.inj h)
    obtain rfl | ⟨spaces, more, rfl, hspacesne, hmorene, hspaces, hmore⟩ := hcases
    · -- one word
      have hplain : plainWord false cursor.rest = some text := by
        rw [hrest]
        have hfitsWord : FitsLine (text ++ []) after := by rwa [List.append_nil]
        exact hfitsWord.plainWord hwordspaces hafter
      exact ⟨text, front, gap, cursor, rfl, rfl, hwordne, hrest, hplain, hcomment, hseparator,
        Nat.le_refl _⟩
    · -- a word, spaces, and the rest of the line
      rw [List.append_assoc, List.append_assoc] at hrest
      obtain ⟨next, hstep, hnext, hnextcolumn⟩ := scanPlain_next_word front gap hfits hwordne
        hwordspaces hspacesne hspaces hmorene hmore hseparator hcomment hrest hcolumn
      have hpos : 0 < word.length := List.length_pos_iff.2 hwordne
      have hshorter : more.length < length := by
        simp only [← hlength, List.length_append]
        omega
      have hheadMore : ∀ c ∈ more.head?, isSpace c = false ∧ c ≠ '#' := fun c hc =>
        ⟨hmore c hc, fun h => hfits.of_append.head?_ne hspacesne hspaces (h ▸ hc)⟩
      obtain ⟨lastWord, front', gap', last, hscan, hlast⟩ := ih more.length hshorter
        (front ++ gap.fold ++ word) (.within spaces) hfits.of_append.of_append hheadMore hmorene
        hnext (Nat.le_trans hcolumn hnextcolumn) (Nat.lt_of_lt_of_le hcolumnPos hnextcolumn) rfl
      refine ⟨lastWord, front', gap', last, hstep.trans hscan, {
        hlast with
        text_eq := by rw [hlast.text_eq, List.append_assoc, List.append_assoc]; rfl
        column := Nat.le_trans hnextcolumn hlast.column }⟩

/-- A plain scalar ends where no word comes. -/
theorem scanPlain_stop (text : List Char) (gap : Gap)
    (hword : plainWord inFlow cursor.rest = some []) :
    scanPlain inFlow margin text gap cursor =
      some { text, cursor, onNewLine := gap.isAcross } := by
  rw [scanPlain]
  split
  · rfl
  split
  · next h =>
    rw [hword] at h
    cases h
  · rfl
  · next h =>
    rw [hword] at h
    cases h

/-- What reading a plain scalar comes to. -/
structure PlainScalar.EndsAt (scalar : PlainScalar) (text after : List Char) (onNewLine : Bool) :
    Prop where
  text_eq : scalar.text = text
  rest : scalar.cursor.rest = after
  onNewLine_eq : scalar.onNewLine = onNewLine

/-- A text that fits on a line is read to the end of the line, when the next one is indented
less. -/
theorem scanPlain_line (hfits : FitsLine text ('\n' :: (List.replicate n ' ' ++ after)))
    (hhead : ∀ c ∈ text.head?, isSpace c = false ∧ c ≠ '#') (hne : text ≠ [])
    (hrest : cursor.rest = text ++ '\n' :: (List.replicate n ' ' ++ after))
    (hcolumn : margin ≤ cursor.column) (hn : n < margin) (hafter : StartsToken after) :
    ∃ scalar, scanPlain false margin [] (.within []) cursor = some scalar ∧
      scalar.EndsAt text after true ∧ scalar.cursor.column = n := by
  obtain ⟨word, front, gap, last, hscan, hlast⟩ := scanPlain_words [] (.within []) hfits hhead hne
    hrest hcolumn (by omega) (plainWord_of_space (.inr rfl) _)
  have hbehind : (last.advance word.length).rest = '\n' :: (List.replicate n ' ' ++ after) := by
    rw [Cursor.rest_advance, hlast.rest, List.drop_left]
  obtain ⟨next, hgap, hnext, hnextcolumn⟩ := scanGap_next_line margin hbehind hafter
  refine ⟨⟨text, next, true⟩, ?_, ⟨rfl, hnext, rfl⟩, hnextcolumn⟩
  rw [hscan, scanPlain_step front gap hlast.separator hlast.comment hlast.plainWord_eq hlast.ne_nil
    hgap, if_neg, if_pos, hlast.text_eq]
  · rfl
  · simpa [hnextcolumn] using hn
  · simp only [Cursor.length, hnext, hbehind, List.length_cons, List.length_append]
    omega

/-- A text is read up to a colon that ends a word, even behind spaces. -/
theorem scanPlain_colon (hspaces : ∀ c ∈ spaces, isSpace c = true)
    (hfits : FitsLine text (spaces ++ ':' :: after))
    (hhead : ∀ c ∈ text.head?, isSpace c = false ∧ c ≠ '#') (hne : text ≠ [])
    (hrest : cursor.rest = text ++ (spaces ++ ':' :: after)) (hcolumn : margin ≤ cursor.column)
    (hcolumnPos : 0 < cursor.column) (hafter : endsWord after = true) :
    ∃ scalar, scanPlain false margin [] (.within []) cursor = some scalar ∧
      scalar.EndsAt text (':' :: after) false ∧ cursor.column ≤ scalar.cursor.column := by
  have hcolon := plainWord_colon hafter
  -- no word comes behind the last one, whether spaces or the colon follow
  have hword : plainWord false (spaces ++ ':' :: after) = some [] := by
    cases spaces with
    | nil => exact hcolon
    | cons c spaces => exact plainWord_of_space (.inl (hspaces c List.mem_cons_self)) _
  obtain ⟨word, front, gap, last, hscan, hlast⟩ := scanPlain_words [] (.within []) hfits hhead hne
    hrest hcolumn hcolumnPos hword
  have hbehind : (last.advance word.length).rest = spaces ++ ':' :: after := by
    rw [Cursor.rest_advance, hlast.rest, List.drop_left]
  have hgap : scanGap margin (.within []) (last.advance word.length) =
      some (.within spaces, (last.advance word.length).advance spaces.length) :=
    scanGap_within [] hspaces hbehind (by rintro c ⟨⟩; exact ⟨rfl, rfl⟩)
  generalize hnext : (last.advance word.length).advance spaces.length = next at hgap
  have hnextrest : next.rest = ':' :: after := by
    rw [← hnext, Cursor.rest_advance, hbehind, List.drop_left]
  have hnextcolumn : cursor.column ≤ next.column := by
    have hlastcolumn := hlast.column
    rw [← hnext, Cursor.column_advance, Cursor.column_advance]
    omega
  refine ⟨⟨text, next, false⟩, ?_, ⟨rfl, hnextrest, rfl⟩, hnextcolumn⟩
  rw [hscan, scanPlain_step front gap hlast.separator hlast.comment hlast.plainWord_eq hlast.ne_nil
    hgap, hlast.text_eq]
  split
  · rfl
  · rw [if_neg (by simp [Nat.le_trans hcolumn hnextcolumn]),
      scanPlain_stop _ _ (by rw [hnextrest, hcolon])]
    rfl

/-! ## Names -/

/-- The characters that do not start a plain scalar, those aside that do in front of a word. -/
def isMarkup (c : Char) : Bool :=
  "#,[]\x7b\x7d&*!|>'\"%@\x60".toList.contains c

/-- A word of the characters of names, which can be a key and a value. -/
structure IsName (name : List Char) : Prop where
  chars : ∀ c ∈ name, isNameChar c = true
  first : name.head? ≠ some '-'
  ne_nil : name ≠ []
  length_le : name.length ≤ keyLimit

/-- A character that says nothing on its own, unless it is a dash. -/
structure IsOrdinary (c : Char) : Prop where
  space : isSpace c = false
  newline : isBreak c = false
  markup : isMarkup c = false
  flow : isFlowIndicator c = false
  colon : c ≠ ':'
  question : c ≠ '?'
  dot : c ≠ '.'
  orderMark : isOrderMark c = false

theorem isOrdinary_of_isNameChar (h : isNameChar c = true) : IsOrdinary c := by
  -- each kind of special character is a short list, none of which is in a name
  have hother (special : Char → Bool) (chars : List Char)
      (hspecial : ∀ d, special d = true → d ∈ chars)
      (hchars : chars.all (!isNameChar ·) = true) : special c = false := by
    rw [← Bool.not_eq_true]
    intro hc
    have hother := List.all_eq_true.1 hchars c (hspecial c hc)
    rw [h] at hother
    cases hother
  have hne (d : Char) (hd : isNameChar d = false) : c ≠ d := by
    rintro rfl
    rw [hd] at h
    cases h
  refine ⟨?_, ?_, ?_, ?_, hne ':' rfl, hne '?' rfl, hne '.' rfl, ?_⟩
  · exact hother isSpace [' ', '\t'] (by simp [isSpace]) (by decide)
  · exact hother isBreak ['\n', '\r', '\x85', '\u2028', '\u2029'] (by simp [isBreak, or_assoc])
      (by decide)
  · exact hother isMarkup "#,[]\x7b\x7d&*!|>'\"%@\x60".toList (by simp [isMarkup]) (by decide)
  · exact hother isFlowIndicator [',', '[', ']', '\x7b', '\x7d']
      (by simp [isFlowIndicator, or_assoc]) (by decide)
  · exact hother isOrderMark ['\ufeff'] (by simp [isOrderMark]) (by decide)

theorem plainWord_of_names (hchars : ∀ c ∈ word, isNameChar c = true)
    (hafter : plainWord inFlow after = some []) : plainWord inFlow (word ++ after) = some word := by
  refine plainWord_append ?_ hafter
  rintro before c back rfl
  have hc := isOrdinary_of_isNameChar (hchars c (by simp))
  exact ⟨hc.space, hc.newline, fun _ => hc.flow, fun h => absurd h hc.colon⟩

theorem IsName.head (h : IsName (c :: word)) : IsOrdinary c ∧ c ≠ '-' :=
  ⟨isOrdinary_of_isNameChar (h.chars c List.mem_cons_self), fun hc => h.first (by rw [hc]; rfl)⟩

/-- A word is no mark between documents and no comment. -/
theorem IsName.atDocumentSeparator {name : List Char} (hname : IsName name)
    (hrest : cursor.rest = name ++ after) : cursor.atDocumentSeparator = false := by
  obtain ⟨c, more, rfl⟩ := List.exists_cons_of_ne_nil hname.ne_nil
  obtain ⟨hc, hdash⟩ := hname.head
  rw [Cursor.atDocumentSeparator, hrest, List.cons_append]
  simp [atSeparator, hc.dot, hdash]

theorem IsName.head?_ne {name : List Char} (hname : IsName name)
    (hrest : cursor.rest = name ++ after) : cursor.rest.head? ≠ some '#' := by
  obtain ⟨c, more, rfl⟩ := List.exists_cons_of_ne_nil hname.ne_nil
  rw [hrest]
  rintro ⟨⟩
  cases hname.chars '#' List.mem_cons_self

/-- A word is read up to what ends it, when that is no gap. -/
theorem scanPlain_word (hword : IsName word) (hrest : cursor.rest = word ++ after)
    (hafter : plainWord inFlow after = some [])
    (hstop : ∀ c ∈ after.head?, isSpace c = false ∧ isBreak c = false) :
    scanPlain inFlow margin [] (.within []) cursor =
      some { text := word, cursor := cursor.advance word.length, onNewLine := false } := by
  have hplain : plainWord inFlow cursor.rest = some word := by
    rw [hrest]
    exact plainWord_of_names hword.chars hafter
  have hgap : scanGap margin (.within []) (cursor.advance word.length) =
      some (.within [], cursor.advance word.length) := by
    refine scanGap_of_stop _ ?_
    rwa [Cursor.rest_advance, hrest, List.drop_left]
  rw [scanPlain_step [] (.within []) (hword.atDocumentSeparator hrest) (hword.head?_ne hrest) hplain
    hword.ne_nil hgap, if_pos rfl]
  rfl

/-! ## Plain tokens -/

/-- A text starts a plain scalar. -/
structure StartsPlain (c : Char) (rest : List Char) : Prop where
  space : isSpace c = false
  markup : isMarkup c = false
  word : c = '-' ∨ c = '?' ∨ c = ':' → endsWord rest = false

theorem StartsPlain.ne_hash (h : StartsPlain c rest) : c ≠ '#' := by
  rintro rfl
  exact absurd h.markup (by decide)

theorem StartsPlain.append (h : StartsPlain c rest) (back : List Char) :
    StartsPlain c (rest ++ back) :=
  ⟨h.space, h.markup, fun hc => endsWord_append (h.word hc) back⟩

theorem IsName.startsPlain (h : IsName (c :: word)) (after : List Char) :
    StartsPlain c (word ++ after) := by
  obtain ⟨hc, hdash⟩ := h.head
  exact ⟨hc.space, hc.markup, by simp [hdash, hc.question, hc.colon]⟩

namespace Scanner

variable {scanner ready next : Scanner} {position target : Position}

theorem takeToken_plain (hrest : scanner.cursor.rest = c :: rest) (hplain : StartsPlain c rest)
    (hflow : c = '?' ∨ c = ':' → scanner.inFlow = false)
    (hseparator : scanner.cursor.column = 0 → c ≠ '-' ∧ c ≠ '.') :
    scanner.takeToken c rest = scanner.takePlain := by
  have hmarkup := hplain.markup
  simp [isMarkup] at hmarkup
  have hends (h : c = '-' ∨ c = '?' ∨ c = ':') : endsWord rest = false := hplain.word h
  -- nothing else is taken in front of a plain scalar
  have hnoSeparator : scanner.cursor.atDocumentSeparator = false := by
    rw [Cursor.atDocumentSeparator, hrest, Bool.and_eq_false_iff]
    by_cases hzero : scanner.cursor.column = 0
    · right
      rw [atSeparator.eq_def]
      split
      · next heq => exact absurd (List.cons.inj heq).1 (hseparator hzero).1
      · next heq => exact absurd (List.cons.inj heq).1 (hseparator hzero).2
      · rfl
    · left
      simpa using hzero
  have hdash : (c == '-' && endsWord rest) = false := by
    by_cases h : c = '-'
    · simp [hends (.inl h)]
    · simp [h]
  have hquestion : (c == '?' && (scanner.inFlow || endsWord rest)) = false := by
    by_cases h : c = '?'
    · simp [hends (.inr (.inl h)), hflow (.inl h)]
    · simp [h]
  have hcolon : (c == ':' && (scanner.inFlow || endsWord rest)) = false := by
    by_cases h : c = ':'
    · simp [hends (.inr (.inr h)), hflow (.inr h)]
    · simp [h]
  have hspace (h : endsWord rest = false) : rest.head?.any isSpace = false := by
    cases rest with
    | nil => rfl
    | cons d rest => exact (Bool.or_eq_false_iff.1 h).1
  have hstarts : scanner.startsPlain c rest = true := by
    rw [startsPlain]
    by_cases hd : c = '-'
    · simp [hd, hspace (hends (.inl hd))]
    · by_cases hq : c = '?' ∨ c = ':'
      · simp [hflow hq, hends (.inr hq), hq]
      · rw [not_or] at hq
        simp [hmarkup, hd, hq, hplain.space]
  simp [takeToken, hnoSeparator, hdash, hquestion, hcolon, hstarts, hmarkup]

theorem takePlain_eq {started : Scanner} {scalar : PlainScalar}
    (hstart : scanner.startNode = some started)
    (hscan : scanPlain started.inFlow started.margin [] (.within []) started.cursor = some scalar) :
    scanner.takePlain = some {
      started.emit (.scalar (String.ofList scalar.text) .plain) with
      cursor := scalar.cursor
      keyAllowed := scalar.onNewLine } := by
  rw [takePlain, hstart, Option.bind_eq_bind, Option.bind_some, hscan]
  rfl

/-- A value in a block mapping is taken as a plain scalar. -/
theorem Stands.takeToken_plain (h : ready.Stands position) (hrest : position.rest = c :: rest)
    (hplain : StartsPlain c rest) (hkey : position.keyAllowed = false) (hdepth : position.depth = 0)
    (hcolumn : 0 < position.column) {scalar : PlainScalar}
    (hscan : scanPlain false position.margin [] (.within []) ready.cursor = some scalar) :
    ready.takeToken c rest = some {
      ready.emit (.scalar (String.ofList scalar.text) .plain) with
      cursor := scalar.cursor
      keyAllowed := scalar.onNewLine } := by
  have hflow : ready.inFlow = false := h.inFlow_eq_false hdepth
  rw [Scanner.takeToken_plain (h.rest.trans hrest) hplain (fun _ => hflow) fun hzero => by
    rw [h.column] at hzero
    omega]
  refine takePlain_eq (startNode_of_no_key (h.keyAllowed.trans hkey)) ?_
  rw [h.margin_eq, hflow, hscan]

/-- A value in a block mapping that ends with its line. -/
theorem Reaches.plain (h : scanner.Reaches position)
    (hrest : position.rest = text ++ '\n' :: (List.replicate n ' ' ++ after))
    (hplain : ∀ c rest, position.rest = c :: rest → StartsPlain c rest)
    (hfits : FitsLine text ('\n' :: (List.replicate n ' ' ++ after))) (hne : text ≠ [])
    (hkey : position.keyAllowed = false) (hdepth : position.depth = 0)
    (hcolumn : position.margin ≤ position.column) (hn : n < position.margin)
    (hafter : StartsToken after) :
    scanner.Comes { position with
      rest := after
      column := n
      keyAllowed := true
      tokens := .scalar (String.ofList text) .plain :: position.tokens } := by
  obtain ⟨c, more, htext⟩ := List.exists_cons_of_ne_nil hne
  have hcons : position.rest = c :: (more ++ '\n' :: (List.replicate n ' ' ++ after)) := by
    rw [hrest, htext]
    rfl
  have hstart := hplain c _ hcons
  -- the scanner reads the whole line here, and takes it for one token
  refine h.comes hcons fun {ready} hstands => ?_
  obtain ⟨scalar, hscan, hends, hnext⟩ := scanPlain_line hfits
    (by rw [htext]; rintro d ⟨⟩; exact ⟨hstart.space, hstart.ne_hash⟩) hne
    (hstands.rest.trans hrest) (by rwa [hstands.column]) hn hafter
  have htake := hstands.takeToken_plain hcons hstart hkey hdepth (by omega) hscan
  rw [hends.text_eq] at htake
  refine ⟨_, htake, ?_, _, rfl, hstands.emitted hends.rest hnext hends.onNewLine_eq⟩
  simp only [Cursor.length, hends.rest, hstands.rest, hrest, List.length_append, List.length_cons]
  omega

/-- Where no key may come and nothing was read that can be one, an indicator of a block is out of
place. -/
theorem Reaches.run_eq_none_of_indicator (h : scanner.Reaches position)
    (hrest : position.rest = c :: rest) (hc : c = '-' ∨ c = '?' ∨ c = ':')
    (hends : endsWord rest = true) (hkey : position.keyAllowed = false)
    (hkeyless : position.keyless = true) (hdepth : position.depth = 0)
    (hcolumn : 0 < position.column) : scanner.run = none := by
  refine h.run_eq_none hrest fun {ready} hstands => ?_
  have hflow : ready.inFlow = false := hstands.inFlow_eq_false hdepth
  have hseparator : ready.cursor.atDocumentSeparator = false :=
    Cursor.atDocumentSeparator_of_column (by rwa [hstands.column])
  have hentry (start token : Token) (keyAllowed : Bool) :
      ready.takeEntry start token keyAllowed = none := by
    simp [takeEntry, hflow, hstands.keyAllowed, hkey]
  have hnone : ready.key = none := hstands.keyless hkeyless
  obtain rfl | rfl | rfl := hc <;>
    simp [takeToken, hseparator, hends, hentry, takeColon, hnone]

/-- A value with a colon that ends a word is malformed. -/
theorem Reaches.run_eq_none_of_colon (h : scanner.Reaches position)
    (hspaces : ∀ c ∈ spaces, c = ' ')
    (hrest : position.rest = text ++ (spaces ++ ':' :: after))
    (hplain : ∀ c rest, position.rest = c :: rest → StartsPlain c rest)
    (hfits : FitsLine text (spaces ++ ':' :: after)) (hne : text ≠ [])
    (hafter : endsWord after = true) (hkey : position.keyAllowed = false)
    (hkeyless : position.keyless = true) (hdepth : position.depth = 0)
    (hmargin : position.margin ≤ position.column) (hcolumn : 0 < position.column) :
    scanner.run = none := by
  obtain ⟨c, more, htext⟩ := List.exists_cons_of_ne_nil hne
  have hcons : position.rest = c :: (more ++ (spaces ++ ':' :: after)) := by
    rw [hrest, htext]
    rfl
  have hstart := hplain c _ hcons
  obtain ⟨ready, hstands, -, hgo⟩ := h.exists_stands hcons
  have hinside : position.margin ≤ ready.cursor.column := by rwa [hstands.column]
  obtain ⟨scalar, hscan, hends, hnext⟩ := scanPlain_colon
    (fun c hc => by rw [hspaces c hc]; rfl) hfits
    (by rw [htext]; rintro d ⟨⟩; exact ⟨hstart.space, hstart.ne_hash⟩) hne
    (hstands.rest.trans hrest) hinside (by rwa [hstands.column]) hafter
  have htake := hstands.takeToken_plain hcons hstart hkey hdepth hcolumn hscan
  rw [hends.text_eq] at htake
  -- the text is taken, and then its colon is out of place
  have hcomes : scanner.Comes { position with
      rest := ':' :: after
      column := scalar.cursor.column
      keyAllowed := false
      tokens := .scalar (String.ofList text) .plain :: position.tokens } := by
    refine hgo htake ?_ ⟨_, rfl, hstands.emitted hends.rest rfl hends.onNewLine_eq⟩
    have hpos : 0 < text.length := List.length_pos_iff.2 hne
    simp only [Cursor.length, hends.rest, hstands.rest, hrest, List.length_append,
      List.length_cons]
    omega
  refine (hcomes.here (by rintro c ⟨⟩; decide)).run_eq_none_of_indicator (by simp)
    (.inr (.inr rfl)) hafter (by simp) (by simpa) (by simpa) ?_
  rw [Position.column_closed]
  exact Nat.lt_of_lt_of_le hcolumn (hstands.column ▸ hnext)

/-- A word with a colon is a key. It opens a mapping unless one is open at its column. -/
theorem Reaches.key {name : List Char} (h : scanner.Reaches position)
    (hrest : position.rest = name ++ ':' :: after) (hafter : endsWord after = true)
    (hname : IsName name) (hkey : position.keyAllowed = true) (hdepth : position.depth = 0)
    (hcolumns : ∀ column ∈ position.columns.head?, column ≤ position.column) :
    scanner.Comes { position.opened with
      rest := after
      column := position.column + name.length + 1
      keyAllowed := false
      keyless := true
      tokens :=
        .value :: .scalar (String.ofList name) .plain :: .key :: position.opened.tokens } := by
  obtain ⟨c, more, rfl⟩ := List.exists_cons_of_ne_nil hname.ne_nil
  obtain ⟨hc, hdash⟩ := hname.head
  refine h.comes hrest fun {ready} hstands => ?_
  have hflow : ready.inFlow = false := hstands.inFlow_eq_false hdepth
  -- the word is taken as a plain scalar, and the colon behind it makes it a key
  have hscan : scanPlain ready.inFlow ready.margin [] (.within []) ready.cursor =
      some {
        text := c :: more
        cursor := ready.cursor.advance (c :: more).length
        onNewLine := false } := by
    rw [hflow]
    exact scanPlain_word hname (hstands.rest.trans hrest) (plainWord_colon hafter)
      (by rintro d ⟨⟩; exact ⟨rfl, rfl⟩)
  have htake := (takeToken_plain (hstands.rest.trans hrest) (hname.startsPlain _) (fun _ => hflow)
    fun _ => ⟨hdash, hc.dot⟩).trans
      (takePlain_eq (startNode_eq (hstands.keyAllowed.trans hkey) hstands.key_optional) hscan)
  have hbehind : (ready.cursor.advance (c :: more).length).rest = ':' :: after := by
    rw [Cursor.rest_advance, hstands.rest, hrest, List.drop_left]
  have hshorter : (ready.cursor.advance (c :: more).length).length < ready.cursor.length :=
    Cursor.length_advance_lt (hstands.rest.trans hrest) more.length
  have hfresh : (c :: more).length ≤ keyLimit := hname.length_le
  refine ⟨_, htake, hshorter, Names.colon ⟨hbehind, ?_, hstands.columns, hstands.depth,
    hstands.outerKeys_optional, _, _, rfl, ?_, hstands.column, rfl, hstands.tokens⟩ (.inr hafter)
    ?_⟩
  · exact congrArg (· + (c :: more).length) hstands.column
  · simpa [PossibleKey.isFresh, Cursor.advance] using hfresh
  · exact fun _ column hcolumn => Nat.le_trans (hcolumns column hcolumn) (Nat.le_add_right _ _)

end Scanner

end Locator.Yaml
