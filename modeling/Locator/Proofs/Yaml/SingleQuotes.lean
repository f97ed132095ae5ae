import Locator.Proofs.Yaml.Quotes
import Locator.Yaml.Printer

/-!
# Single quotes

In single quotes a quote is doubled, and the lines of a text are indented. The indentation is a part
of the gap behind a break, so folding drops it again.

* `FitsSingleQuotes`: the texts whose gaps survive
* `ReadsBack.char`, `ReadsBack.gap`: reading a character, and a gap
* `scanQuoted_singleQuoted`: a text as it is printed is read as it was
-/

namespace Locator.Yaml

variable {cursor next : Cursor} {rest after text run : List Char} {c : Char} {n : Nat}

theorem scanQuoted_single_end (hseparator : cursor.atDocumentSeparator = false)
    (hrest : cursor.rest = '\'' :: after) (hafter : after.head? ≠ some '\'') :
    scanQuoted true cursor = some ([], cursor.advance 1) := by
  rw [scanQuoted, hseparator, if_neg Bool.false_ne_true]
  split
  · next h => exact absurd (hrest.symm.trans h) (List.cons_ne_nil _ _)
  · next h =>
    obtain ⟨rfl, rfl⟩ := List.cons.inj (hrest.symm.trans h)
    simp [hafter]

theorem scanQuoted_doubled (hseparator : cursor.atDocumentSeparator = false)
    (hrest : cursor.rest = '\'' :: '\'' :: rest) :
    scanQuoted true cursor =
      (scanQuoted true (cursor.advance 2)).map fun (more, last) => ('\'' :: more, last) := by
  generalize hresult : Option.map _ _ = result
  rw [scanQuoted, hseparator, if_neg Bool.false_ne_true]
  split
  · next h => exact absurd (hrest.symm.trans h) (List.cons_ne_nil _ _)
  · next h =>
    obtain ⟨rfl, rfl⟩ := List.cons.inj (hrest.symm.trans h)
    exact hresult

/-- A text whose gaps are nothing but spaces or nothing but separators. -/
structure FitsSingleQuotes (text : List Char) : Prop where
  blanks : ∀ c ∈ text, isSpace c = true ∨ isBreak c = true → c = ' ' ∨ isSeparatorBreak c = true
  spaces : ∀ front c back, text = front ++ ' ' :: c :: back → isBreak c = false
  breaks : ∀ front c back, text = front ++ c :: ' ' :: back → isBreak c = false

theorem FitsSingleQuotes.of_append {front back : List Char}
    (h : FitsSingleQuotes (front ++ back)) : FitsSingleQuotes back where
  blanks c hc := h.blanks c (List.mem_append_right front hc)
  spaces before c behind heq :=
    h.spaces (front ++ before) c behind (by rw [heq, List.append_assoc])
  breaks before c behind heq :=
    h.breaks (front ++ before) c behind (by rw [heq, List.append_assoc])

theorem FitsSingleQuotes.of_cons (h : FitsSingleQuotes (c :: text)) : FitsSingleQuotes text := by
  have happend : FitsSingleQuotes ([c] ++ text) := h
  exact happend.of_append

/-- The gap at the start of a text. -/
theorem FitsSingleQuotes.exists_run (h : FitsSingleQuotes text) :
    ∃ run more, text = run ++ more ∧
      ((∀ c ∈ run, c = ' ') ∨ ∀ c ∈ run, isSeparatorBreak c = true) ∧
      ∀ c ∈ more.head?, isSpace c = false ∧ isBreak c = false := by
  induction text with
  | nil => exact ⟨[], [], rfl, .inl nofun, nofun⟩
  | cons c text ih =>
    by_cases hblank : isSpace c = true ∨ isBreak c = true
    · obtain ⟨run, more, rfl, hrun, hmore⟩ := ih h.of_cons
      refine ⟨c :: run, more, rfl, ?_, hmore⟩
      cases run with
      | nil => simpa using h.blanks c List.mem_cons_self hblank
      | cons d run =>
        -- a space and a separator are not next to each other
        obtain rfl | hc := h.blanks c List.mem_cons_self hblank
        · refine .inl (List.forall_mem_cons.2 ⟨rfl, ?_⟩)
          refine hrun.resolve_right fun hseparators => ?_
          have hd := h.spaces [] d (run ++ more) rfl
          rw [isBreak_of_isSeparatorBreak (hseparators d List.mem_cons_self)] at hd
          cases hd
        · refine .inr (List.forall_mem_cons.2 ⟨hc, ?_⟩)
          refine hrun.resolve_left fun hspaces => ?_
          obtain rfl := hspaces d List.mem_cons_self
          have hd := h.breaks [] c (run ++ more) rfl
          rw [isBreak_of_isSeparatorBreak hc] at hd
          cases hd
    · exact ⟨[], c :: text, rfl, .inl nofun, by rintro d ⟨⟩; simpa using hblank⟩

/-! ### Indentation -/

theorem indentLines_cons (hbreak : isBreak c = false) (text : List Char) :
    indentLines false (c :: text) = c :: indentLines false text := by
  rw [indentLines, hbreak]
  rfl

theorem indentLines_append (h : ∀ c ∈ run, isBreak c = false) (text : List Char) :
    indentLines false (run ++ text) = run ++ indentLines false text := by
  induction run with
  | nil => rfl
  | cons c run ih =>
    rw [List.cons_append, indentLines_cons (h c List.mem_cons_self),
      ih fun d hd => h d (.tail c hd)]
    rfl

/-- Behind breaks a line is indented. -/
theorem indentLines_breaks {behindBreak : Bool} (hrun : ∀ c ∈ run, isBreak c = true)
    (hbehind : run ≠ [] ∨ behindBreak = true) (hbreak : isBreak c = false) :
    indentLines behindBreak (run ++ c :: text) =
      run ++ (List.replicate 4 ' ' ++ indentLines false (c :: text)) := by
  induction run generalizing behindBreak with
  | nil =>
    obtain rfl : behindBreak = true := hbehind.resolve_left (· rfl)
    rw [List.nil_append, List.nil_append, indentLines_cons hbreak, indentLines, hbreak,
      if_neg Bool.false_ne_true]
    rfl
  | cons d run ih =>
    rw [List.cons_append, indentLines, if_pos (hrun d List.mem_cons_self),
      ih (fun b hb => hrun b (.tail d hb)) (.inr rfl)]
    rfl

/-- The text with its quotes doubled. -/
def doubled (text : List Char) : List Char :=
  text.flatMap fun c => if c == '\'' then ['\'', '\''] else [c]

theorem doubled_append_of_ne {front : List Char} (h : ∀ c ∈ front, c ≠ '\'') (text : List Char) :
    doubled (front ++ text) = front ++ doubled text := by
  rw [doubled, List.flatMap_append, flatMap_eq_self fun c hc => by simp [h c hc]]
  rfl

/-- The spaces of the indentation say nothing. -/
theorem fold_indented (hrun : ∀ c ∈ run, isSeparatorBreak c = true) (hne : run ≠ []) :
    ((run ++ List.replicate n ' ').foldl Gap.passed (.within [])).fold = run := by
  have hquoted (c : Char) (hc : c ∈ run) := isQuotedGap_of_isSeparatorBreak (hrun c hc)
  have hspaces : (run ++ List.replicate n ' ').foldl Gap.passed (.within []) =
      run.foldl Gap.passed (.within []) := by
    obtain ⟨c, more, rfl⟩ := List.exists_cons_of_ne_nil hne
    have hc := (keptBreak_of_isSeparatorBreak (hrun c List.mem_cons_self)).2.1
    rw [List.foldl_append, List.foldl_cons, Gap.passed, if_neg hc, foldl_passed_across,
      foldl_passed_spaces]
  rw [hspaces]
  exact (fold_run hquoted).2.2 (.inr hrun)

/-- What is written in single quotes behind a gap begins with something else. -/
theorem exists_cons_doubled (hmore : ∀ c ∈ text.head?, isSpace c = false ∧ isBreak c = false) :
    ∃ c written, doubled text ++ ['\''] = c :: written ∧ isSpace c = false ∧ isBreak c = false := by
  cases text with
  | nil => exact ⟨'\'', [], rfl, rfl, rfl⟩
  | cons c text =>
    by_cases hc : c = '\''
    · exact ⟨'\'', '\'' :: (doubled text ++ ['\'']), by simp [doubled, hc], rfl, rfl⟩
    · exact ⟨c, doubled text ++ ['\''], by simp [doubled, hc], hmore c rfl⟩

/-! ## Reading -/

/-- What is printed of a text in single quotes, the quote behind it included. -/
def printedInQuotes (text : List Char) : List Char :=
  indentLines false (doubled text ++ ['\''])

/-- Behind a gap comes something else. -/
theorem head?_printedInQuotes (hmore : ∀ c ∈ text.head?, isSpace c = false ∧ isBreak c = false) :
    ∀ c ∈ (printedInQuotes text ++ after).head?, isSpace c = false ∧ isBreak c = false := by
  obtain ⟨d, written, hdoubled, hd⟩ := exists_cons_doubled hmore
  rw [printedInQuotes, hdoubled, indentLines_cons hd.2]
  rintro c ⟨⟩
  exact hd

/-- Spaces are printed as they are. -/
theorem printedInQuotes_spaces (hspaces : ∀ c ∈ run, c = ' ') (text : List Char) :
    printedInQuotes (run ++ text) = run ++ printedInQuotes text := by
  have hquote : ∀ c ∈ run, c ≠ '\'' := by
    rintro c hc rfl
    cases hspaces _ hc
  have hunbroken : ∀ c ∈ run, isBreak c = false := by
    intro c hc
    rw [hspaces c hc]
    rfl
  rw [printedInQuotes, doubled_append_of_ne hquote, List.append_assoc,
    indentLines_append hunbroken, printedInQuotes]

/-- So are separators, and the line behind them is indented. -/
theorem printedInQuotes_separators (hseparators : ∀ c ∈ run, isSeparatorBreak c = true)
    (hne : run ≠ []) (hmore : ∀ c ∈ text.head?, isSpace c = false ∧ isBreak c = false) :
    printedInQuotes (run ++ text) =
      run ++ (List.replicate 4 ' ' ++ printedInQuotes text) := by
  have hquote : ∀ c ∈ run, c ≠ '\'' := by
    rintro c hc rfl
    cases hseparators _ hc
  obtain ⟨d, written, hdoubled, hd⟩ := exists_cons_doubled hmore
  rw [printedInQuotes, doubled_append_of_ne hquote, List.append_assoc, hdoubled,
    indentLines_breaks (fun c hc => isBreak_of_isSeparatorBreak (hseparators c hc)) (.inl hne) hd.2,
    ← hdoubled, printedInQuotes]

/-- The text is read, up to the quote behind it. -/
def ReadsBack (cursor : Cursor) (text after : List Char) : Prop :=
  ∃ last, scanQuoted true cursor = some (text, last) ∧ last.rest = after

theorem ReadsBack.behind {front more : List Char} (h : ReadsBack next more after)
    (hscan : scanQuoted true cursor =
      (scanQuoted true next).map fun (more, last) => (front ++ more, last)) :
    ReadsBack cursor (front ++ more) after := by
  obtain ⟨last, hread, hlast⟩ := h
  exact ⟨last, by rw [hscan, hread]; rfl, hlast⟩

/-- A character is read, and a quote from its two quotes. -/
theorem ReadsBack.char {more : List Char} (hcolumn : 0 < cursor.column)
    (hrest : cursor.rest = printedInQuotes (c :: more) ++ after)
    (hc : isSpace c = false ∧ isBreak c = false)
    (h : ∀ next : Cursor, 0 < next.column → next.rest = printedInQuotes more ++ after →
      ReadsBack next more after) : ReadsBack cursor (c :: more) after := by
  have hseparator := Cursor.atDocumentSeparator_of_column hcolumn
  have hnext (count : Nat) : 0 < (cursor.advance (count + 1)).column :=
    Nat.lt_of_lt_of_le hcolumn (Nat.le_add_right _ _)
  by_cases hquote : c = '\''
  · -- a quote is written twice and read as one
    subst hquote
    have hwritten : cursor.rest = '\'' :: '\'' :: (printedInQuotes more ++ after) := hrest
    have hmore := h _ (hnext 1) (by rw [Cursor.rest_advance, hwritten]; rfl)
    have hback : ReadsBack cursor (['\''] ++ more) after :=
      hmore.behind (scanQuoted_doubled hseparator hwritten)
    exact hback
  · have hfront : doubled ([c] ++ more) = [c] ++ doubled more :=
      doubled_append_of_ne (by simpa using hquote) more
    have hwritten : cursor.rest = c :: (printedInQuotes more ++ after) := by
      rw [hrest, printedInQuotes, ← List.singleton_append, hfront, List.append_assoc,
        List.singleton_append, indentLines_cons hc.2]
      rfl
    have hmore := h _ (hnext 0) (by rw [Cursor.rest_advance, hwritten]; rfl)
    have hback : ReadsBack cursor ([c] ++ more) after :=
      hmore.behind (scanQuoted_char true hseparator hwritten hc hquote)
    exact hback

/-- A gap is read: spaces stay on their line, and the indentation behind separators is passed with
them. -/
theorem ReadsBack.gap {more : List Char} (hcolumn : 0 < cursor.column) (hne : run ≠ [])
    (hrun : (∀ c ∈ run, c = ' ') ∨ ∀ c ∈ run, isSeparatorBreak c = true)
    (hmore : ∀ c ∈ more.head?, isSpace c = false ∧ isBreak c = false)
    (hrest : cursor.rest = printedInQuotes (run ++ more) ++ after)
    (h : ∀ next : Cursor, 0 < next.column → next.rest = printedInQuotes more ++ after →
      ReadsBack next more after) : ReadsBack cursor (run ++ more) after := by
  have hseparator := Cursor.atDocumentSeparator_of_column hcolumn
  have hstop : ∀ c ∈ (printedInQuotes more ++ after).head?, isSpace c = false ∧ isBreak c = false :=
    head?_printedInQuotes hmore
  obtain hspaces | hseparators := hrun
  · rw [printedInQuotes_spaces hspaces, List.append_assoc] at hrest
    obtain ⟨next, hscan, hnext, hnextColumn⟩ := scanQuoted_run true hseparator hne
      (fun c hc => .inl (hspaces c hc)) hrest hstop
    rw [fold_spaces hspaces] at hscan
    exact (h next (hnextColumn ▸ (columnBehind_run hne cursor.column).1 hspaces) hnext).behind hscan
  · -- the indentation is read as a part of the gap, and folding drops it
    rw [printedInQuotes_separators hseparators hne hmore, List.append_assoc, List.append_assoc,
      ← List.append_assoc run] at hrest
    have hgap : ∀ c ∈ run ++ List.replicate 4 ' ', IsGap c := by
      intro c hc
      obtain hc | hc := List.mem_append.1 hc
      · exact (isQuotedGap_of_isSeparatorBreak (hseparators c hc)).isGap
      · exact .inl (List.eq_of_mem_replicate hc)
    obtain ⟨next, hscan, hnext, hnextColumn⟩ :=
      scanQuoted_run true hseparator (by simp) hgap hrest hstop
    rw [List.foldl_append, foldl_columnBehind_spaces] at hnextColumn
    rw [fold_indented hseparators hne] at hscan
    exact (h next (by omega) hnext).behind hscan

/-- A text that is written in single quotes is read as it was. -/
theorem scanQuoted_singleQuoted (hfits : FitsSingleQuotes text) (hcolumn : 0 < cursor.column)
    (hrest : cursor.rest = indentLines false (doubled text ++ ['\'']) ++ after)
    (hafter : after.head? ≠ some '\'') :
    ∃ next, scanQuoted true cursor = some (text, next) ∧ next.rest = after := by
  -- on the length of the text, of which a whole gap or one other character is read at once
  induction hlength : text.length using Nat.strongRecOn generalizing text cursor with
  | ind length ih =>
    obtain ⟨run, more, rfl, hrun, hmore⟩ := hfits.exists_run
    cases run with
    | nil =>
      cases more with
      | nil =>
        have hseparator := Cursor.atDocumentSeparator_of_column hcolumn
        refine ⟨_, scanQuoted_single_end hseparator hrest hafter, ?_⟩
        rw [Cursor.rest_advance, hrest]
        rfl
      | cons c more =>
        have hshorter : more.length < length := by
          rw [← hlength, List.nil_append, List.length_cons]
          omega
        refine ReadsBack.char hcolumn hrest (hmore c rfl) fun next hnext hwritten => ?_
        exact ih more.length hshorter hfits.of_cons hnext hwritten rfl
    | cons b run =>
      have hshorter : more.length < length := by
        rw [← hlength, List.length_append, List.length_cons]
        omega
      refine ReadsBack.gap hcolumn (List.cons_ne_nil b run) hrun hmore hrest
        fun next hnext hwritten => ?_
      exact ih more.length hshorter hfits.of_append hnext hwritten rfl

end Locator.Yaml
