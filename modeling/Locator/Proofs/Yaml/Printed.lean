import Locator.Proofs.Yaml.Styles

/-!
# Printed scalars

A scalar is printed as the value of a block mapping, on a line of its own.

* `printScalar_cases`: what it is printed as
* `Reaches.printed`: it is read as the text that it was printed for
-/

namespace Locator.Yaml

variable {text front body breaks after written : List Char} {c : Char} {n : Nat}

/-- What is printed with the end of its line, which lines have already. -/
def lineOf (written : List Char) : List Char :=
  if written.getLast?.any isBreak then written else written ++ ['\n']

theorem lineOf_concat {front : List Char} {last : Char} (hlast : isBreak last = false) :
    lineOf (front ++ [last]) = front ++ [last] ++ ['\n'] := by
  rw [lineOf, List.getLast?_concat]
  simp [hlast]

/-! ## Lines -/

theorem indentLines_append_eq (behindBreak : Bool) (front back : List Char) :
    indentLines behindBreak (front ++ back) =
      indentLines behindBreak front ++
        indentLines (front.getLast?.elim behindBreak isBreak) back := by
  induction front generalizing behindBreak with
  | nil => rfl
  | cons c front ih =>
    have hlast : (c :: front).getLast?.elim behindBreak isBreak =
        front.getLast?.elim (isBreak c) isBreak := by
      rw [List.getLast?_cons]
      cases front.getLast? <;> rfl
    rw [hlast, List.cons_append, indentLines, indentLines]
    cases hc : isBreak c with
    | true => simp [ih]
    | false => simp [ih]

theorem getLast?_indentLines (behindBreak : Bool) (text : List Char) :
    (indentLines behindBreak text).getLast? = text.getLast? := by
  obtain rfl | ⟨front, c, rfl⟩ := text.eq_nil_or_concat
  · rfl
  · rw [List.concat_eq_append, indentLines_append_eq, List.getLast?_append, List.getLast?_concat,
      indentLines]
    split <;> simp [indentLines]

theorem mem_indentLines {behindBreak : Bool} (h : c ∈ indentLines behindBreak text) :
    c = ' ' ∨ c ∈ text := by
  induction text generalizing behindBreak with
  | nil => cases h
  | cons d text ih =>
    rw [indentLines] at h
    split at h
    · obtain rfl | h := List.mem_cons.1 h
      · exact .inr List.mem_cons_self
      · exact (ih h).imp_right (.tail d)
    · obtain h | h := List.mem_append.1 h
      · split at h
        · left
          simpa using h
        · cases h
      · obtain rfl | h := List.mem_cons.1 h
        · exact .inr List.mem_cons_self
        · exact (ih h).imp_right (.tail d)

/-- What stands in front of the lines of a text. -/
def literalHead (text : List Char) : List Char :=
  '|' :: (hint (text.head?.any fun c => isBlankSpace c || isBreak c) ++
    (chompingMark text ++ ['\n']))

theorem literal_eq (text : List Char) :
    literal text = literalHead text ++ indentLines true text := by
  simp [literal, literalHead, hint]

theorem exists_chomping (text : List Char) :
    ∃ chomping : Chomping, chompingMark text = chomping.mark := by
  rw [chompingMark]
  split
  · exact ⟨.strip, rfl⟩
  · split
    · exact ⟨.keep, rfl⟩
    · exact ⟨.strip, rfl⟩
  · split
    · exact ⟨.strip, rfl⟩
    · split
      · exact ⟨.keep, rfl⟩
      · exact ⟨.clip, rfl⟩

/-- The chomping that keeps the breaks at the end of a text. -/
def chompingOf : List Char → Chomping
  | [] => .strip
  | [_] => .clip
  | _ => .keep

theorem chompingMark_eq (hbody : FitsBlock body) (hbreaks : ∀ c ∈ breaks, IsLineBreak c) :
    chompingMark (front ++ body ++ breaks) = (chompingOf breaks).mark := by
  obtain ⟨before, last, rfl⟩ : ∃ before last, body = before ++ [last] :=
    ⟨body.dropLast, body.getLast hbody.ne_nil, (List.dropLast_concat_getLast hbody.ne_nil).symm⟩
  have hlast : isBreak last = false := hbody.last last List.getLast?_concat
  have hbreak (c : Char) (hc : c ∈ breaks) := (hbreaks c hc).isBreak
  have hreverse : (front ++ (before ++ [last]) ++ breaks).reverse =
      breaks.reverse ++ last :: (front ++ before).reverse := by
    simp
  rw [chompingMark, hreverse]
  obtain _ | ⟨b, _ | ⟨d, breaks⟩⟩ := breaks
  · cases (front ++ before).reverse <;> simp [hlast, chompingOf, Chomping.mark]
  · simp [hbreak b, hlast, chompingOf, Chomping.mark]
  · -- the last two of several breaks
    have hlength : 2 ≤ (b :: d :: breaks).reverse.length := by simp
    rcases hreversed : (b :: d :: breaks).reverse with _ | ⟨x, _ | ⟨y, more⟩⟩
    · simp [hreversed] at hlength
    · simp [hreversed] at hlength
    · have hx := hbreak x (by rw [← List.mem_reverse, hreversed]; simp)
      have hy := hbreak y (by rw [← List.mem_reverse, hreversed]; simp)
      simp [hx, hy, chompingOf, Chomping.mark]

/-- The break at the end of the last line, and those behind it. -/
def lastBreaks : List Char → Char × List Char
  | [] => ('\n', [])
  | b :: breaks => (b, breaks)

theorem kept_chompingOf (breaks : List Char) :
    (chompingOf breaks).kept (lastBreaks breaks).1 (lastBreaks breaks).2 = breaks := by
  match breaks with
  | [] | [_] | _ :: _ :: _ => rfl

/-- What is printed as lines. -/
theorem lineOf_literal (hbody : FitsBlock body) (hbreaks : ∀ c ∈ breaks, IsLineBreak c) :
    lineOf (literal (front ++ body ++ breaks)) =
      '|' :: (hint ((front ++ body ++ breaks).head?.any fun c => isBlankSpace c || isBreak c) ++
        ((chompingOf breaks).mark ++ '\n' ::
          indentLines true (front ++ body ++ (lastBreaks breaks).1 :: (lastBreaks breaks).2))) := by
  have hshape : literal (front ++ body ++ breaks) =
      '|' :: (hint ((front ++ body ++ breaks).head?.any fun c => isBlankSpace c || isBreak c) ++
        ((chompingOf breaks).mark ++ '\n' :: indentLines true (front ++ body ++ breaks))) := by
    rw [literal, chompingMark_eq hbody hbreaks]
    simp [hint]
  -- the block ends in a break of its own just where the text does; else the line adds one
  have hend : (literal (front ++ body ++ breaks)).getLast?.any isBreak = !breaks.isEmpty := by
    obtain ⟨c, hc, hcBreak⟩ : ∃ c, (front ++ body ++ breaks).getLast? = some c ∧
        isBreak c = !breaks.isEmpty := by
      obtain rfl | ⟨before, b, rfl⟩ := breaks.eq_nil_or_concat
      · rw [List.append_nil, List.getLast?_append, List.getLast?_eq_some_getLast hbody.ne_nil]
        exact ⟨_, rfl, hbody.last _ (List.getLast?_eq_some_getLast hbody.ne_nil)⟩
      · refine ⟨b, by simp, ?_⟩
        rw [(hbreaks b (by simp)).isBreak]
        simp
    have hlast := (getLast?_indentLines true (front ++ body ++ breaks)).trans hc
    rw [hshape]
    generalize indentLines true (front ++ body ++ breaks) = lines at hlast
    simp [List.getLast?_append, List.getLast?_cons, hlast, hcBreak]
  rw [lineOf, hend]
  cases breaks with
  | nil =>
    have hlast : (front ++ body).getLast?.elim true isBreak = false := by
      rw [List.getLast?_append, List.getLast?_eq_some_getLast hbody.ne_nil]
      exact hbody.last _ (List.getLast?_eq_some_getLast hbody.ne_nil)
    rw [List.append_nil] at hshape ⊢
    rw [if_neg (by simp), hshape, lastBreaks, indentLines_append_eq true (front ++ body), hlast]
    simp [indentLines, isBreak]
  | cons b breaks => rw [if_pos (by simp), hshape, lastBreaks]

/-! ## Styles -/

/-- What a text is printed as: in double quotes, or in a style that asks something of the text. -/
theorem printScalar_cases (text : String) :
    printScalar text = doubleQuoted text.toList ∨ IsPrinted text.toList ∧
      (printScalar text = literal text.toList ∨
        (printScalar text = text.toList ∧ IsPlain text.toList ∧ isNotText text = false) ∨
        (printScalar text = singleQuoted text.toList ∧ FitsSingleQuotes text.toList)) := by
  -- the branches of the printer: lines, plain, single quotes, and double quotes where nothing else
  -- fits
  rw [printScalar]
  split
  · split
    · next hlines =>
      simp only [allowsLines, Bool.not_eq_true', Bool.or_eq_false_iff] at hlines
      exact .inr ⟨isPrinted_of_needsEscapes hlines.1, .inl rfl⟩
    · exact .inl rfl
  · next hlines =>
    split
    · next hplain =>
      rw [Bool.and_eq_true, Bool.not_eq_true'] at hplain
      have hescapes : needsEscapes text.toList = false := by
        have hallows := hplain.2
        simp only [allowsPlain, Bool.not_eq_true', Bool.or_eq_false_iff] at hallows
        exact hallows.1.1.1.2
      exact .inr ⟨isPrinted_of_needsEscapes hescapes,
        .inr (.inl ⟨rfl, isPlain_of_allowsPlain hplain.2, hplain.1⟩)⟩
    split
    · next hsingle =>
      have hescapes : needsEscapes text.toList = false := by
        have hallows := hsingle
        simp only [allowsSingleQuotes, Bool.not_eq_true', Bool.or_eq_false_iff] at hallows
        exact hallows.1
      exact .inr ⟨isPrinted_of_needsEscapes hescapes, .inr (.inr ⟨rfl,
        fitsSingleQuotes_of_allowsSingleQuotes hsingle (by simpa using hlines)⟩)⟩
    · exact .inl rfl

/-! ## Characters -/

theorem isAllowed_of_mem_literalHead (h : c ∈ literalHead text) : isAllowed c = true := by
  obtain ⟨chomping, hmark⟩ := exists_chomping text
  rw [literalHead, hmark] at h
  have hall (given : Bool) :
      ('|' :: (hint given ++ (chomping.mark ++ ['\n']))).all isAllowed = true := by
    cases chomping <;> cases given <;> rfl
  exact List.all_eq_true.1 (hall _) c h

theorem isAllowed_of_mem_indentLines {behindBreak : Bool} {text : List Char}
    (htext : ∀ c ∈ text, isAllowed c = true) (h : c ∈ indentLines behindBreak text) :
    isAllowed c = true := by
  obtain rfl | h := mem_indentLines h
  · rfl
  · exact htext c h

theorem isAllowed_of_mem_doubleQuoted {text : List Char} (h : c ∈ doubleQuoted text) :
    isAllowed c = true := by
  rw [doubleQuoted] at h
  simp only [List.cons_append, List.mem_cons, List.mem_append, List.mem_flatMap, List.not_mem_nil,
    or_false] at h
  obtain rfl | ⟨d, -, hd⟩ | rfl := h
  · rfl
  · exact isAllowed_of_mem_escaped hd
  · rfl

theorem isAllowed_of_mem_singleQuoted {text : List Char} (htext : ∀ c ∈ text, isAllowed c = true)
    (h : c ∈ singleQuoted text) : isAllowed c = true := by
  rw [singleQuoted] at h
  obtain rfl | h := List.mem_cons.1 h
  · rfl
  refine isAllowed_of_mem_indentLines (fun d hd => ?_) h
  obtain hd | hd := List.mem_append.1 hd
  · obtain ⟨e, he, hd⟩ := List.mem_flatMap.1 hd
    split at hd
    · -- a quote that is doubled
      simp at hd
      rw [hd]
      rfl
    · rw [List.mem_singleton.1 hd]
      exact htext e he
  · rw [List.mem_singleton.1 hd]
    rfl

/-- Whatever a text holds, what is printed of it can be read. -/
theorem isAllowed_of_mem_printScalar {text : String} (h : c ∈ printScalar text) :
    isAllowed c = true := by
  obtain hprint | ⟨hprinted, hprint⟩ := printScalar_cases text
  · exact isAllowed_of_mem_doubleQuoted (hprint ▸ h)
  -- without escapes the text itself holds nothing else
  have hallowed (d : Char) (hd : d ∈ text.toList) : isAllowed d = true :=
    isAllowed_of_isPrintable (hprinted.chars d hd)
  obtain hprint | ⟨hprint, -⟩ | ⟨hprint, -⟩ := hprint
  · rw [hprint, literal_eq] at h
    obtain h | h := List.mem_append.1 h
    · exact isAllowed_of_mem_literalHead h
    · exact isAllowed_of_mem_indentLines hallowed h
  · rw [hprint] at h
    exact hallowed c h
  · rw [hprint] at h
    exact isAllowed_of_mem_singleQuoted hallowed h

/-- What is printed is seen to begin, whatever stands behind it. -/
theorem startsToken_printScalar (text : String) (after : List Char) :
    StartsToken (printScalar text ++ after) := by
  have hmarkup {first : Char} {rest : List Char}
      (hfirst : first = '"' ∨ first = '|' ∨ first = '\'') : StartsToken (first :: rest) := by
    obtain rfl | rfl | rfl := hfirst <;>
    · rintro _ ⟨⟩
      decide
  obtain hprint | ⟨-, hprint | ⟨hprint, hplain, -⟩ | ⟨hprint, -⟩⟩ := printScalar_cases text <;>
    rw [hprint]
  · exact hmarkup (.inl rfl)
  · exact hmarkup (.inr (.inl rfl))
  · exact hplain.startsToken after
  · exact hmarkup (.inr (.inr rfl))

/-! ## Values -/

/-- At the position a value comes in a block mapping that is indented by two columns. -/
structure Position.AwaitsValue (position : Position) : Prop where
  keyAllowed : position.keyAllowed = false
  keyless : position.keyless = true
  depth : position.depth = 0
  margin : position.margin = 3
  column : 3 ≤ position.column

/-- The position on the next line, behind a value. -/
def Position.behind (position : Position) (text : List Char) (style : Style) (after : List Char)
    (column : Nat) : Position :=
  { position with
    rest := after
    column
    keyAllowed := true
    tokens := .scalar (String.ofList text) style :: position.tokens }

namespace Scanner

variable {scanner : Scanner} {position : Position}

/-- Lines are read up to the breaks at their end, which depend on the chomping. -/
theorem Reaches.lines {given : Bool} {chomping : Chomping} {b : Char} (h : scanner.Reaches position)
    (hvalue : position.AwaitsValue) (hfront : ∀ c ∈ front, IsLineBreak c) (hbody : FitsBlock body)
    (hb : IsLineBreak b) (hbreaks : ∀ c ∈ breaks, IsLineBreak c)
    (hgiven : given = false → front = [] ∧ ∀ c ∈ body.head?, isSpace c = false)
    (hrest : position.rest = '|' :: (hint given ++ (chomping.mark ++ '\n' ::
      (indentLines true (front ++ body ++ b :: breaks) ++ (List.replicate n ' ' ++ after)))))
    (hn : n < 4) (hafter : StartsToken after) :
    scanner.Reaches
      (position.behind (front ++ body ++ chomping.kept b breaks) .literal after n).closed := by
  refine Comes.here (h.block hrest hvalue.depth hvalue.margin ?_ fun cursor hcursor => ?_) hafter
  · simp only [List.length_append, List.length_cons]
    omega
  · exact scanBlock_eq hfront hbody hb hbreaks hgiven hcursor hn
      fun c hc => ⟨(hafter c hc).1, (hafter c hc).2.1⟩

/-- A text in quotes on a line of its own. -/
theorem Reaches.quotedLine (single : Bool) (h : scanner.Reaches position)
    (hvalue : position.AwaitsValue)
    (hrest : position.rest =
      quote single :: (written ++ '\n' :: (List.replicate n ' ' ++ after)))
    (hscan : ∀ cursor : Cursor, 0 < cursor.column →
      cursor.rest = written ++ '\n' :: (List.replicate n ' ' ++ after) → ∃ next,
        scanQuoted single cursor = some (text, next) ∧
          next.rest = '\n' :: (List.replicate n ' ' ++ after))
    (hafter : StartsToken after) :
    scanner.Reaches (position.behind text (quotedStyle single) after n).closed := by
  obtain ⟨cursor, hcursor, hcolumn, -, hgo⟩ := h.quoted single hrest hvalue.keyAllowed
  obtain ⟨next, hread, hnext⟩ := hscan cursor hcolumn hcursor
  have hcomes := (hgo hread (by
    simp only [Cursor.length, hnext, hcursor, List.length_append]
    omega)).next_line hnext hafter
  have hkey : (position.keyAllowed || position.depth == 0) = true := by simp [hvalue.depth]
  rw [Position.behind, ← hkey]
  exact hcomes

/-- The indentation is given where the first line would not show it. -/
theorem given_of_printed (hprinted : IsPrinted (front ++ body ++ breaks)) (hbody : FitsBlock body)
    (hfront : ∀ c ∈ front, IsLineBreak c)
    (hgiven : ((front ++ body ++ breaks).head?.any fun c => isBlankSpace c || isBreak c) = false) :
    front = [] ∧ ∀ c ∈ body.head?, isSpace c = false := by
  cases front with
  | cons c front =>
    rw [List.cons_append, List.cons_append, List.head?_cons, Option.any_some,
      (hfront c List.mem_cons_self).isBreak, Bool.or_true] at hgiven
    cases hgiven
  | nil =>
    refine ⟨rfl, ?_⟩
    obtain ⟨c, body, rfl⟩ := List.exists_cons_of_ne_nil hbody.ne_nil
    rintro d ⟨⟩
    rw [← Bool.not_eq_true]
    intro hspace
    rw [List.nil_append, List.cons_append, List.head?_cons,
      eq_space_of_isPrintable (hprinted.chars c (by simp)) hspace] at hgiven
    cases hgiven

theorem Reaches.inDoubleQuotes {chars : List Char} (h : scanner.Reaches position)
    (hvalue : position.AwaitsValue)
    (hrest : position.rest = lineOf (doubleQuoted chars) ++ (List.replicate n ' ' ++ after))
    (hafter : StartsToken after) :
    scanner.Reaches (position.behind chars .doubleQuoted after n).closed := by
  rw [doubleQuoted, lineOf_concat rfl] at hrest
  have hwritten : position.rest = quote false ::
      (chars.flatMap escaped ++ ['"'] ++ '\n' :: (List.replicate n ' ' ++ after)) := by
    rw [hrest]
    simp [quote]
  refine h.quotedLine false hvalue hwritten (fun cursor hcolumn hcursor => ?_) hafter
  refine scanQuoted_doubleQuoted ?_ (by rw [hcursor]; simp)
  simp [Cursor.atDocumentSeparator, Nat.ne_of_gt hcolumn]

theorem Reaches.inSingleQuotes {chars : List Char} (h : scanner.Reaches position)
    (hvalue : position.AwaitsValue) (hfits : FitsSingleQuotes chars)
    (hrest : position.rest = lineOf (singleQuoted chars) ++ (List.replicate n ' ' ++ after))
    (hafter : StartsToken after) :
    scanner.Reaches (position.behind chars .singleQuoted after n).closed := by
  have hlast : (singleQuoted chars).getLast? = some '\'' := by
    rw [singleQuoted, List.getLast?_cons, getLast?_indentLines, List.getLast?_concat]
    rfl
  have hwritten : position.rest = quote true ::
      (indentLines false (doubled chars ++ ['\'']) ++
        '\n' :: (List.replicate n ' ' ++ after)) := by
    rw [hrest, lineOf, hlast]
    simp [singleQuoted, quote, doubled, isBreak]
  refine h.quotedLine true hvalue hwritten (fun cursor hcolumn hcursor => ?_) hafter
  exact scanQuoted_singleQuoted hfits hcolumn hcursor (by simp)

theorem Reaches.asLines {chars : List Char} (h : scanner.Reaches position)
    (hvalue : position.AwaitsValue) (hprinted : IsPrinted chars)
    (hword : ∃ c ∈ chars, isBreak c = false)
    (hrest : position.rest = lineOf (literal chars) ++ (List.replicate n ' ' ++ after))
    (hn : n < 4) (hafter : StartsToken after) :
    scanner.Reaches (position.behind chars .literal after n).closed := by
  obtain ⟨front, body, breaks, rfl, hfront, hbody, hbreaks⟩ := exists_lines hprinted hword
  rw [lineOf_literal hbody hbreaks] at hrest
  -- a text that ends without a break gets a line feed behind it
  have hb : IsLineBreak (lastBreaks breaks).1 ∧ ∀ c ∈ (lastBreaks breaks).2, IsLineBreak c := by
    cases breaks with
    | nil => exact ⟨.inl rfl, nofun⟩
    | cons b breaks => exact List.forall_mem_cons.1 hbreaks
  have hwritten : position.rest = '|' ::
      (hint ((front ++ body ++ breaks).head?.any fun c => isBlankSpace c || isBreak c) ++
        ((chompingOf breaks).mark ++ '\n' ::
          (indentLines true (front ++ body ++ (lastBreaks breaks).1 :: (lastBreaks breaks).2) ++
            (List.replicate n ' ' ++ after)))) := by
    rw [hrest]
    simp only [List.cons_append, List.append_assoc]
  have hlines := h.lines hvalue hfront hbody hb.1 hb.2 (given_of_printed hprinted hbody hfront)
    hwritten hn hafter
  rwa [kept_chompingOf] at hlines

/-- A plain text on a line of its own. -/
theorem Reaches.asPlain {chars : List Char} (h : scanner.Reaches position)
    (hvalue : position.AwaitsValue) (hplain : IsPlain chars)
    (hrest : position.rest = chars ++ '\n' :: (List.replicate n ' ' ++ after))
    (hn : n < 3) (hafter : StartsToken after) :
    scanner.Reaches (position.behind chars .plain after n).closed := by
  have hwhole : IsPlain (chars ++ []) := by rwa [List.append_nil]
  have hfits : FitsLine chars ('\n' :: (List.replicate n ' ' ++ after)) :=
    hwhole.fitsLine hplain.last fun _ rest _ hends =>
      endsWord_append (by rwa [List.append_nil] at hends) _
  refine (h.plain hrest ?_ hfits hplain.ne_nil hvalue.keyAllowed hvalue.depth
    (hvalue.margin ▸ hvalue.column) (hvalue.margin ▸ hn) hafter).here hafter
  obtain ⟨c, rest, rfl⟩ := List.exists_cons_of_ne_nil hplain.ne_nil
  rw [hrest]
  rintro _ _ ⟨⟩
  exact (hplain.starts c rest rfl).1.append _

/-- What is printed for a text is read as the text. -/
theorem Reaches.printed {text : String} (h : scanner.Reaches position)
    (hvalue : position.AwaitsValue) (hword : ∃ c ∈ text.toList, isBreak c = false)
    (hrest : position.rest = lineOf (printScalar text) ++ (List.replicate n ' ' ++ after))
    (hn : n < 3) (hafter : StartsToken after) :
    ∃ style, (style = .plain → isNotText text = false) ∧
      scanner.Reaches (position.behind text.toList style after n).closed := by
  obtain hprint | ⟨hprinted, hprint | ⟨hprint, hplain, htext⟩ | ⟨hprint, hsingle⟩⟩ :=
      printScalar_cases text <;>
    rw [hprint] at hrest
  · exact ⟨.doubleQuoted, nofun, h.inDoubleQuotes hvalue hrest hafter⟩
  · exact ⟨.literal, nofun, h.asLines hvalue hprinted hword hrest (by omega) hafter⟩
  · obtain ⟨before, last, hsplit⟩ : ∃ before last, text.toList = before ++ [last] :=
      ⟨_, _, (List.dropLast_concat_getLast hplain.ne_nil).symm⟩
    have hbreak : isBreak last = false := (hplain.chars last (by rw [hsplit]; simp)).1
    refine ⟨.plain, fun _ => htext, h.asPlain hvalue hplain ?_ hn hafter⟩
    rw [hrest, hsplit, lineOf_concat hbreak, List.append_assoc]
    rfl
  · exact ⟨.singleQuoted, nofun, h.inSingleQuotes hvalue hsingle hrest hafter⟩

end Scanner

end Locator.Yaml
