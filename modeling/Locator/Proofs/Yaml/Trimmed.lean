import Locator.Proofs.Yaml.Printed

/-!
# Printed scalars that lost the blanks at their end

The last of the settings is printed at the end of a text, whose blanks at the end are dropped.

* `Reaches.printed_trimmed`: what is left is not read as the text of the setting, unless nothing but
  the end of the line was dropped

A plain text loses its last characters, and what is left is a plain text or malformed. Lines lose
the breaks at their end, which their chomping was printed for.
-/

namespace Locator.Yaml

variable {text front back body after written blanks : List Char} {c : Char}

theorem isBlank_of_isBreak (h : isBreak c = true) : Text.isBlank c = true := by
  obtain rfl | rfl | rfl | rfl | rfl | rfl | rfl := isBlank_cases (.inr h) <;> rfl

theorem isBlank_of_isSpace (h : isSpace c = true) : Text.isBlank c = true := by
  obtain rfl | rfl | rfl | rfl | rfl | rfl | rfl := isBlank_cases (.inl h) <;> rfl

theorem isBreak_of_not_blank (h : Text.isBlank c = false) :
    isSpace c = false ∧ isBreak c = false := by
  refine ⟨?_, ?_⟩ <;> rw [← Bool.not_eq_true] <;> intro hc
  · rw [isBlank_of_isSpace hc] at h
    cases h
  · rw [isBlank_of_isBreak hc] at h
    cases h

/-- Nothing is lost of what ends with something other than a blank. -/
theorem lineOf_eq_of_last (h : ∀ c ∈ written.getLast?, Text.isBlank c = false) :
    lineOf written = Text.trimEnd written ++ ['\n'] := by
  rw [Text.trimEnd_eq_self h, lineOf, if_neg]
  cases hcase : written.getLast? with
  | none => simp
  | some c => simp [isBreak_of_not_blank (h c hcase)]

/-- The first characters of a plain text start one, unless one that says something stands alone. -/
theorem IsPlain.startsPlain_front (h : IsPlain (c :: front ++ back))
    (hfront : front = [] → ¬(c = '-' ∨ c = '?' ∨ c = ':')) (after : List Char) :
    StartsPlain c (front ++ after) := by
  obtain ⟨hstart, -⟩ := h.starts c (front ++ back) rfl
  refine ⟨hstart.space, hstart.markup, fun hc => ?_⟩
  cases front with
  | nil => exact absurd hc (hfront rfl)
  | cons d more => exact hstart.word hc

theorem IsPrinted.of_append_left (h : IsPrinted (front ++ back)) : IsPrinted front where
  chars c hc := h.chars c (List.mem_append_left back hc)
  spaces before c behind heq := h.spaces before c (behind ++ back) (by rw [heq]; simp)

theorem trimEnd_literal (hfront : front ≠ []) (hlast : ∀ c ∈ front.getLast?, Text.isBlank c = false)
    (hblanks : ∀ c ∈ blanks, Text.isBlank c = true) :
    Text.trimEnd (literal (front ++ blanks)) =
      literalHead (front ++ blanks) ++ indentLines true front := by
  rw [literal_eq, indentLines_append_eq true front, ← List.append_assoc]
  refine Text.trimEnd_append_blanks (fun c hc => ?_) fun c hc => hlast c ?_
  · obtain rfl | hc := mem_indentLines hc
    · rfl
    · exact hblanks c hc
  · rwa [List.getLast?_append, getLast?_indentLines, List.getLast?_eq_some_getLast hfront,
      Option.some_or, ← List.getLast?_eq_some_getLast hfront] at hc

/-- Nothing is lost of lines that one break ends at most. -/
theorem lineOf_literal_of_last (hfront : front ≠ [])
    (hlast : ∀ c ∈ front.getLast?, Text.isBlank c = false)
    (hblanks : blanks = [] ∨ blanks = ['\n']) :
    lineOf (literal (front ++ blanks)) = Text.trimEnd (literal (front ++ blanks)) ++ ['\n'] := by
  obtain rfl | rfl := hblanks
  · refine lineOf_eq_of_last fun c hc => hlast c ?_
    rw [List.append_nil, literal_eq, List.getLast?_append, getLast?_indentLines] at hc
    rwa [List.getLast?_eq_some_getLast hfront, Option.some_or,
      ← List.getLast?_eq_some_getLast hfront] at hc
  · rw [trimEnd_literal hfront hlast (by simp [Text.isBlank]), literal_eq, indentLines_append_eq,
      ← List.append_assoc]
    exact if_pos (by simp [indentLines, isBreak])

namespace Scanner

variable {scanner : Scanner} {position : Position}

/-- A front of a plain text that ends with a colon is malformed. -/
theorem Reaches.run_eq_none_of_last_colon (h : scanner.Reaches position)
    (hvalue : position.AwaitsValue) (hplain : IsPlain (front ++ ':' :: back))
    (hrest : position.rest = front ++ [':', '\n']) : scanner.run = none := by
  have hcolumn : 0 < position.column := Nat.lt_of_lt_of_le (by decide) hvalue.column
  obtain rfl | hne := eq_or_ne front []
  · exact h.run_eq_none_of_indicator hrest (.inr (.inr rfl)) rfl hvalue.keyAllowed hvalue.keyless
      hvalue.depth hcolumn
  -- the spaces in front of the colon
  obtain ⟨word, spaces, rfl, hspaces, hlast⟩ : ∃ word spaces, front = word ++ spaces ∧
      (∀ c ∈ spaces, c = ' ') ∧ ∀ c ∈ word.getLast?, isSpace c = false := by
    obtain ⟨spaces, hsplit, hspaces, hlast⟩ := Text.exists_ending isSpace front
    refine ⟨_, spaces, hsplit, fun c hc => (hplain.chars c ?_).2 (hspaces c hc), hlast⟩
    rw [hsplit]
    simp [hc]
  have hword : word ≠ [] := by
    rintro rfl
    obtain ⟨c, more, rfl⟩ := List.exists_cons_of_ne_nil hne
    have hstart := (hplain.starts c (more ++ ':' :: back) rfl).1.space
    rw [hspaces c List.mem_cons_self] at hstart
    cases hstart
  obtain ⟨c, more, rfl⟩ := List.exists_cons_of_ne_nil hword
  have hwhole : IsPlain (c :: more ++ (spaces ++ ':' :: back)) := by
    rwa [List.append_assoc] at hplain
  refine h.run_eq_none_of_colon hspaces (by rw [hrest, List.append_assoc]) ?_
    (hwhole.fitsLine hlast ?_) hword rfl hvalue.keyAllowed hvalue.keyless hvalue.depth
    (hvalue.margin ▸ hvalue.column) hcolumn
  · rw [hrest, List.append_assoc]
    rintro _ _ ⟨⟩
    have hstart : IsPlain (c :: (more ++ (spaces ++ [':'])) ++ back) := by simpa using hwhole
    simpa using hstart.startsPlain_front (by simp) ['\n']
  · intro before rest _ hends
    cases rest <;> cases spaces <;> exact hends

/-- The front of a plain text is read as it is, or it is malformed. -/
theorem Reaches.asFront (h : scanner.Reaches position) (hvalue : position.AwaitsValue)
    (hplain : IsPlain (front ++ back)) (hne : front ≠ [])
    (hlast : ∀ c ∈ front.getLast?, isSpace c = false) (hrest : position.rest = front ++ ['\n']) :
    scanner.run = none ∨ scanner.Reaches (position.behind front .plain [] 0).closed := by
  have hcolumn : 0 < position.column := Nat.lt_of_lt_of_le (by decide) hvalue.column
  obtain ⟨before, last, rfl⟩ : ∃ before last, front = before ++ [last] :=
    ⟨front.dropLast, front.getLast hne, (List.dropLast_concat_getLast hne).symm⟩
  -- what trimming leaves at the end may be a colon, or an indicator that stands alone
  by_cases hcolon : last = ':'
  · subst hcolon
    exact .inl (h.run_eq_none_of_last_colon hvalue (by rwa [List.append_assoc] at hplain)
      (by rw [hrest, List.append_assoc]; rfl))
  by_cases halone : before = [] ∧ (last = '-' ∨ last = '?')
  · obtain ⟨rfl, hc⟩ := halone
    exact .inl (h.run_eq_none_of_indicator hrest (or_assoc.1 (.inl hc)) rfl hvalue.keyAllowed
      hvalue.keyless hvalue.depth hcolumn)
  right
  have hfits : FitsLine (before ++ [last]) ['\n'] := by
    refine hplain.fitsLine hlast fun other rest heq hends => ?_
    cases rest with
    | nil => exact absurd (List.append_inj_right' heq rfl) (by simpa using hcolon)
    | cons c rest => exact hends
  have hwritten : position.rest = before ++ [last] ++ '\n' :: (List.replicate 0 ' ' ++ []) := hrest
  refine (h.plain hwritten ?_ hfits hne hvalue.keyAllowed hvalue.depth
    (hvalue.margin ▸ hvalue.column) (hvalue.margin ▸ (by decide))
    startsToken_nil).here startsToken_nil
  rw [hrest]
  cases before with
  | nil =>
    rintro _ _ ⟨⟩
    have hwhole : IsPlain (last :: [] ++ back) := hplain
    exact hwhole.startsPlain_front (fun _ hc => by simp_all) ['\n']
  | cons c before =>
    rintro _ _ ⟨⟩
    exact hplain.startsPlain_front (by simp) ['\n']

/-- What is left of lines without the blanks at their end is read as that and a break at most. -/
theorem Reaches.asTrimmedLines {chars : List Char} (h : scanner.Reaches position)
    (hvalue : position.AwaitsValue) (hprinted : IsPrinted chars) (hword : Text.trimEnd chars ≠ [])
    (hrest : position.rest = Text.trimEnd (literal chars) ++ ['\n'])
    (hinexact : lineOf (literal chars) ≠ Text.trimEnd (literal chars) ++ ['\n']) :
    ∃ read, read ≠ chars ∧ scanner.Reaches (position.behind read .literal [] 0).closed := by
  obtain ⟨blanks, hsplit, hblanks, hlast⟩ := Text.exists_trimEnd chars
  generalize Text.trimEnd chars = kept at *
  subst hsplit
  obtain ⟨chomping, hmark⟩ : ∃ chomping : Chomping, chompingMark (kept ++ blanks) = chomping.mark :=
    exists_chomping _
  have htrim := trimEnd_literal hword hlast hblanks
  have hlastBreak : ∀ c ∈ kept.getLast?, isBreak c = false :=
    fun c hc => (isBreak_of_not_blank (hlast c hc)).2
  obtain ⟨front, body, hkept, hfront, hbody⟩ : ∃ front body, kept = front ++ body ∧
      (∀ c ∈ front, IsLineBreak c) ∧ FitsBlock body := by
    obtain ⟨front, body, breaks, rfl, hfront, hbody, hbreaks⟩ :=
      exists_lines hprinted.of_append_left
        ⟨_, List.getLast_mem hword, hlastBreak _ (List.getLast?_eq_some_getLast hword)⟩
    -- what is kept does not end with a blank, so there are no breaks behind its last line
    obtain rfl | ⟨before, b, rfl⟩ := breaks.eq_nil_or_concat
    · exact ⟨front, body, List.append_nil _, hfront, hbody⟩
    · have hfalse := hlastBreak b (by simp)
      rw [(hbreaks b (by simp)).isBreak] at hfalse
      cases hfalse
  subst hkept
  have hgiven : (front ++ body ++ blanks).head? = (front ++ body ++ []).head? := by
    obtain ⟨c, more, hcons⟩ := List.exists_cons_of_ne_nil hword
    rw [hcons]
    rfl
  have hwritten : position.rest = '|' ::
      (hint ((front ++ body ++ []).head?.any fun c => isBlankSpace c || isBreak c) ++
        (chomping.mark ++ '\n' :: (indentLines true (front ++ body ++ '\n' :: []) ++
          (List.replicate 0 ' ' ++ [])))) := by
    rw [hrest, htrim, literalHead, hgiven, hmark, indentLines_append_eq true (front ++ body)]
    simp [indentLines, isBreak]
  have hfits : IsPrinted (front ++ body ++ []) := by
    rw [List.append_nil]
    exact hprinted.of_append_left
  refine ⟨front ++ body ++ chomping.kept '\n' [], fun hread => hinexact ?_, h.lines hvalue hfront
    hbody (.inl rfl) (by simp) (given_of_printed hfits hbody hfront) hwritten (by decide)
    startsToken_nil⟩
  -- if it were read as the text, the chomping would have kept all that was dropped
  refine lineOf_literal_of_last hword hlast ?_
  rw [← List.append_cancel_left hread]
  cases chomping
  · exact .inl rfl
  · exact .inr rfl
  · exact .inr rfl

/-- What is left of a printed text without the blanks at its end is not read as the text, unless it
was printed with nothing but the end of its line behind it. -/
theorem Reaches.printed_trimmed {text : String} (h : scanner.Reaches position)
    (hvalue : position.AwaitsValue) (hword : Text.trimEnd text.toList ≠ [])
    (hrest : position.rest = Text.trimEnd (printScalar text) ++ ['\n'])
    (hinexact : lineOf (printScalar text) ≠ Text.trimEnd (printScalar text) ++ ['\n']) :
    (∃ c ∈ text.toList.getLast?, Text.isBlank c = true) ∧
      (scanner.run = none ∨ ∃ read style, read ≠ text.toList ∧
        scanner.Reaches (position.behind read style [] 0).closed) := by
  -- trimming took something, so what was printed ends in a blank, which no closing quote is
  have hend : ∃ c ∈ (printScalar text).getLast?, Text.isBlank c = true := by
    by_contra hnone
    refine hinexact (lineOf_eq_of_last fun c hc => ?_)
    rw [← Bool.not_eq_true]
    exact fun hblank => hnone ⟨c, hc, hblank⟩
  obtain hprint | ⟨hprinted, hprint | ⟨hprint, hplain, -⟩ | ⟨hprint, -⟩⟩ := printScalar_cases text
  · rw [hprint, doubleQuoted, List.getLast?_concat] at hend
    obtain ⟨_, ⟨⟩, hblank⟩ := hend
    cases hblank
  · rw [hprint] at hrest hinexact hend
    obtain ⟨read, hread, hreaches⟩ := h.asTrimmedLines hvalue hprinted hword hrest hinexact
    have hne : text.toList ≠ [] := fun hnil => hword (by rw [hnil]; rfl)
    rw [literal_eq, List.getLast?_append, getLast?_indentLines,
      List.getLast?_eq_some_getLast hne, Option.some_or,
      ← List.getLast?_eq_some_getLast hne] at hend
    exact ⟨hend, .inr ⟨read, .literal, hread, hreaches⟩⟩
  · rw [hprint] at hrest hend
    -- a plain text, of which the front is left
    obtain ⟨blanks, hsplit, -, hlast⟩ := Text.exists_trimEnd text.toList
    generalize Text.trimEnd text.toList = front at *
    rw [hsplit] at hplain
    refine ⟨hend, (h.asFront hvalue hplain hword (fun c hc => (isBreak_of_not_blank (hlast c hc)).1)
      hrest).imp_right fun hreaches => ⟨front, .plain, fun hread => ?_, hreaches⟩⟩
    obtain ⟨c, hc, hblank⟩ := hend
    rw [← hread] at hc
    rw [hlast c hc] at hblank
    cases hblank
  · rw [hprint, singleQuoted, List.getLast?_cons, getLast?_indentLines,
      List.getLast?_concat] at hend
    obtain ⟨_, ⟨⟩, hblank⟩ := hend
    cases hblank

end Scanner

end Locator.Yaml
