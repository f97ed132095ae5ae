import Locator.Proofs.Yaml.SingleQuotes

/-!
# Blocks of lines

A text is printed as lines that are indented by four columns. They are read one after the other with
the empty lines between them; what is kept of the breaks behind the last one depends on the mark in
front of the first.

* `scanBlockBreaks_eq`: empty lines, and the indentation of the next line
* `scanBlockLines_eq`: the lines
* `scanBlock_eq`: the whole block
-/

namespace Locator.Yaml

variable {cursor next : Cursor} {after body breaks front line text : List Char} {c : Char} {n : Nat}

/-! ## Empty lines -/

/-- The breaks that end a line of a block and are kept as they are. -/
def IsLineBreak (c : Char) : Prop := c = '\n' ∨ c = '\u2028' ∨ c = '\u2029'

theorem IsLineBreak.isBreak (h : IsLineBreak c) : isBreak c = true := by
  obtain rfl | rfl | rfl := h <;> rfl

theorem IsLineBreak.passBreak?_eq {rest : List Char} (h : IsLineBreak c)
    (hrest : cursor.rest = c :: rest) : cursor.passBreak? = some (c, cursor.newLine) := by
  obtain rfl | rfl | rfl := h <;> exact Cursor.passBreak?_eq hrest rfl (by decide)

/-- How many spaces in front of a line are passed as indentation. -/
def indentation (indent : Option Nat) (cursor : Cursor) : Nat :=
  match indent with
  | none => (cursor.taken (· == ' ')).length
  | some indent => min (cursor.taken (· == ' ')).length (indent - cursor.column)

theorem indentation_eq {indent : Option Nat} (hcolumn : cursor.column = 0)
    (hrest : cursor.rest = List.replicate n ' ' ++ after)
    (hstop : indent = some n ∨
      (∀ c ∈ after.head?, isSpace c = false) ∧ ∀ columns ∈ indent, n ≤ columns) :
    indentation indent cursor = n := by
  rw [indentation.eq_def, Cursor.taken, hrest, hcolumn]
  obtain rfl | ⟨hafter, hle⟩ := hstop
  · rw [List.takeWhile_append_of_pos fun c hc => by simp [List.eq_of_mem_replicate hc]]
    simp
  · rw [takeWhile_spaces (by simp) fun c hc => by
      have hspace := hafter c hc
      simp only [isSpace, Bool.or_eq_false_iff] at hspace
      exact hspace.1]
    cases indent with
    | none => simp
    | some indent => simpa using Nat.min_eq_left (hle indent rfl)

theorem scanBlockBreaks_step (indent : Option Nat) (deepest : Nat) {indented : Cursor}
    (hindented : cursor.advance (indentation indent cursor) = indented)
    (htab : indented.rest.head? = some '\t' → indent = some indented.column) :
    scanBlockBreaks indent deepest cursor =
      match indented.passBreak? with
      | none => some { deepest := max deepest indented.column, cursor := indented }
      | some (kept, next) =>
        (scanBlockBreaks indent (max deepest indented.column) next).map fun found =>
          { found with breaks := kept :: found.breaks } := by
  -- a tab is refused only where the indentation could go on
  have hguard : (indent.all (indented.column < ·) && indented.rest.head? == some '\t') = false := by
    by_cases htabs : indented.rest.head? = some '\t'
    · rw [htab htabs]
      simp
    · simp [htabs]
  rw [scanBlockBreaks.eq_def]
  cases indent with
  | none =>
    dsimp only [indentation] at hindented ⊢
    rw [hindented, hguard, if_neg Bool.false_ne_true]
    split
    · next h => rw [h]
    · next h => rw [h]
  | some indent =>
    dsimp only [indentation] at hindented ⊢
    rw [hindented, hguard, if_neg Bool.false_ne_true]
    split
    · next h => rw [h]
    · next h => rw [h]

/-- Empty lines are passed, and the indentation of the next line as far as it is looked for. -/
theorem scanBlockBreaks_eq (indent : Option Nat) (deepest : Nat) (hcolumn : cursor.column = 0)
    (hbreaks : ∀ c ∈ breaks, IsLineBreak c)
    (hrest : cursor.rest = breaks ++ (List.replicate n ' ' ++ after))
    (hafter : ∀ c ∈ after.head?, isBreak c = false)
    (hstop : indent = some n ∨
      (∀ c ∈ after.head?, isSpace c = false) ∧ ∀ columns ∈ indent, n ≤ columns) :
    ∃ next, scanBlockBreaks indent deepest cursor =
        some { breaks, deepest := max deepest n, cursor := next } ∧
      next.rest = after ∧ next.column = n := by
  induction breaks generalizing cursor deepest with
  | nil =>
    have hnext : (cursor.advance n).rest = after := by
      rw [Cursor.rest_advance, hrest, List.nil_append, drop_spaces]
    have hnextColumn : (cursor.advance n).column = n := by
      rw [Cursor.column_advance, hcolumn, Nat.zero_add]
    have hbreak : (cursor.advance n).passBreak? = none := Cursor.passBreak?_eq_none (by rwa [hnext])
    refine ⟨cursor.advance n, ?_, hnext, hnextColumn⟩
    rw [scanBlockBreaks_step indent deepest (by rw [indentation_eq hcolumn hrest hstop]), hbreak,
      hnextColumn]
    rw [hnext, hnextColumn]
    intro htab
    obtain h | ⟨hspace, -⟩ := hstop
    · exact h
    · cases hspace '\t' htab
  | cons b breaks ih =>
    have hb := hbreaks b List.mem_cons_self
    -- an empty line has no indentation
    have hindent : cursor.advance (indentation indent cursor) = cursor := by
      have hzero : indentation indent cursor = 0 := by
        have hnoSpace : cursor.rest =
            List.replicate 0 ' ' ++ b :: (breaks ++ (List.replicate n ' ' ++ after)) := hrest
        refine indentation_eq hcolumn hnoSpace (.inr ⟨?_, fun _ _ => Nat.zero_le _⟩)
        rintro c ⟨⟩
        exact (ne_space_of_isBreak hb.isBreak).1
      rw [hzero, Cursor.advance_zero]
    have hnewLine : cursor.newLine.rest = breaks ++ (List.replicate n ' ' ++ after) := by
      rw [Cursor.newLine, hrest]
      rfl
    obtain ⟨next, hscan, hnext⟩ :=
      ih (max deepest cursor.column) rfl (fun c hc => hbreaks c (.tail b hc)) hnewLine
    refine ⟨next, ?_, hnext⟩
    rw [scanBlockBreaks_step indent deepest hindent, hb.passBreak?_eq hrest]
    · dsimp only
      rw [hscan, hcolumn]
      simp
    · rw [hrest]
      rintro ⟨⟩
      cases hb.isBreak

/-! ## Lines -/

/-- A line with the empty lines behind it. -/
theorem scanBlockLines_step {indent : Nat} (before : Option Char) (earlier : List Char)
    (beganBlank : Bool) {b : Char} {found : BlockBreaks} (hcolumn : cursor.column = indent)
    (hline : ∀ c ∈ line, isBreak c = false) (hne : line ≠ []) (hb : IsLineBreak b)
    (hrest : cursor.rest = line ++ b :: after)
    (hfound : scanBlockBreaks (some indent) 0 (cursor.advance line.length).newLine = some found) :
    ∃ beganBlank', scanBlockLines false indent before earlier beganBlank cursor =
      (scanBlockLines false indent (some b) found.breaks beganBlank' found.cursor).map fun lines =>
        { lines with text := before.toList ++ earlier ++ line ++ lines.text } := by
  obtain ⟨c, more, rfl⟩ := List.exists_cons_of_ne_nil hne
  refine ⟨isSpace c, ?_⟩
  have hcons : cursor.rest = c :: (more ++ b :: after) := hrest
  have hmore : (more ++ b :: after).takeWhile (!isBreak ·) = more := by
    rw [List.takeWhile_append_of_pos fun d hd => by simp [hline d (.tail c hd)],
      List.takeWhile_cons_of_neg (by simp [hb.isBreak]), List.append_nil]
  have hend : (cursor.advance (c :: more).length).passLineEnd =
      (some b, (cursor.advance (c :: more).length).newLine) := by
    have hbehind : (cursor.advance (c :: more).length).rest = b :: after := by
      rw [Cursor.rest_advance, hrest, List.drop_left]
    rw [Cursor.passLineEnd, hb.passBreak?_eq hbehind]
  -- the line goes up to its break; the recursion starts behind the empty lines found there
  rw [scanBlockLines]
  split
  · next h => exact absurd (hcons.symm.trans h) (List.cons_ne_nil _ _)
  · next h =>
    obtain ⟨rfl, rfl⟩ := List.cons.inj (hcons.symm.trans h)
    rw [if_neg (by simpa using hcolumn)]
    dsimp only
    split
    · next h =>
      rw [hmore, hend, hfound] at h
      cases h
    · next h =>
      rw [hmore, hend, hfound] at h
      obtain rfl := Option.some.inj h
      rw [hmore, hend]
      simp

theorem scanBlockLines_end {indent : Nat} (before : Option Char) (earlier : List Char)
    (beganBlank : Bool) (hcolumn : cursor.column ≠ indent) :
    scanBlockLines false indent before earlier beganBlank cursor =
      some { text := [], lastBreak := before, lastEmptyLines := earlier, cursor } := by
  rw [scanBlockLines]
  split
  · rfl
  · rw [if_pos hcolumn]

/-- The text of a block that is printed: it begins and ends with a line that is not empty. -/
structure FitsBlock (body : List Char) : Prop where
  ne_nil : body ≠ []
  head : ∀ c ∈ body.head?, isBreak c = false
  last : ∀ c ∈ body.getLast?, isBreak c = false
  breaks : ∀ c ∈ body, isBreak c = true → IsLineBreak c

theorem FitsBlock.of_append {front : List Char} (h : FitsBlock (front ++ body)) (hne : body ≠ [])
    (hhead : ∀ c ∈ body.head?, isBreak c = false) : FitsBlock body where
  ne_nil := hne
  head := hhead
  last c hc := h.last c (by rw [List.getLast?_append, Option.mem_def.1 hc]; rfl)
  breaks c hc := h.breaks c (List.mem_append_right front hc)

theorem indentLines_only_breaks (hbreaks : ∀ c ∈ breaks, isBreak c = true) (behindBreak : Bool) :
    indentLines behindBreak breaks = breaks := by
  induction breaks generalizing behindBreak with
  | nil => rfl
  | cons c breaks ih =>
    rw [indentLines, if_pos (hbreaks c List.mem_cons_self), ih fun d hd => hbreaks d (.tail c hd)]

/-- The last line of a block is read with the breaks behind it. -/
theorem scanBlockLines_last_line (before : Option Char) (earlier : List Char) (beganBlank : Bool)
    {b : Char} (hline : ∀ c ∈ line, isBreak c = false) (hne : line ≠ []) (hb : IsLineBreak b)
    (hbreaks : ∀ c ∈ breaks, IsLineBreak c) (hcolumn : cursor.column = 4) (hn : n < 4)
    (hrest : cursor.rest = line ++ b :: (breaks ++ (List.replicate n ' ' ++ after)))
    (hafter : ∀ c ∈ after.head?, isSpace c = false ∧ isBreak c = false) :
    ∃ next, scanBlockLines false 4 before earlier beganBlank cursor = some {
        text := before.toList ++ earlier ++ line
        lastBreak := some b
        lastEmptyLines := breaks
        cursor := next } ∧ next.rest = after ∧ next.column = n := by
  have hnewLine : (cursor.advance line.length).newLine.rest =
      breaks ++ (List.replicate n ' ' ++ after) := by
    rw [Cursor.newLine, Cursor.rest_advance, hrest, List.drop_left]
    rfl
  have hshallow : ∀ columns ∈ some 4, n ≤ columns := by
    rintro columns ⟨⟩
    exact Nat.le_of_lt hn
  obtain ⟨next, hfound, hnext, hnextColumn⟩ := scanBlockBreaks_eq (some 4) 0 rfl hbreaks hnewLine
    (fun c hc => (hafter c hc).2) (.inr ⟨fun c hc => (hafter c hc).1, hshallow⟩)
  obtain ⟨beganBlank', hstep⟩ :=
    scanBlockLines_step before earlier beganBlank hcolumn hline hne hb hrest hfound
  have hless : next.column ≠ 4 := by omega
  refine ⟨next, ?_, hnext, hnextColumn⟩
  rw [hstep, scanBlockLines_end _ _ _ hless]
  simp

/-- Any other line is read with the empty lines behind it and the indentation of the next one. -/
theorem scanBlockLines_next_line (before : Option Char) (earlier : List Char) (beganBlank : Bool)
    {b : Char} {more : List Char} (hline : ∀ c ∈ line, isBreak c = false) (hne : line ≠ [])
    (hb : IsLineBreak b) (hbreaks : ∀ c ∈ breaks, IsLineBreak c) (hcolumn : cursor.column = 4)
    (hrest : cursor.rest = line ++ b :: (breaks ++ (List.replicate 4 ' ' ++ more)))
    (hmore : ∀ c ∈ more.head?, isBreak c = false) :
    ∃ beganBlank' next, scanBlockLines false 4 before earlier beganBlank cursor =
        (scanBlockLines false 4 (some b) breaks beganBlank' next).map (fun lines =>
          { lines with text := before.toList ++ earlier ++ line ++ lines.text }) ∧
      next.rest = more ∧ next.column = 4 := by
  have hnewLine : (cursor.advance line.length).newLine.rest =
      breaks ++ (List.replicate 4 ' ' ++ more) := by
    rw [Cursor.newLine, Cursor.rest_advance, hrest, List.drop_left]
    rfl
  obtain ⟨next, hfound, hnext⟩ :=
    scanBlockBreaks_eq (some 4) 0 rfl hbreaks hnewLine hmore (.inl rfl)
  obtain ⟨beganBlank', hstep⟩ :=
    scanBlockLines_step before earlier beganBlank hcolumn hline hne hb hrest hfound
  exact ⟨beganBlank', next, hstep, hnext⟩

/-- The lines of a block are read up to where the next one is indented less. -/
theorem scanBlockLines_eq (before : Option Char) (earlier : List Char) (beganBlank : Bool)
    {b : Char} (hbody : FitsBlock body) (hb : IsLineBreak b) (hbreaks : ∀ c ∈ breaks, IsLineBreak c)
    (hcolumn : cursor.column = 4) (hn : n < 4)
    (hrest : cursor.rest =
      indentLines false (body ++ b :: breaks) ++ (List.replicate n ' ' ++ after))
    (hafter : ∀ c ∈ after.head?, isSpace c = false ∧ isBreak c = false) :
    ∃ next, scanBlockLines false 4 before earlier beganBlank cursor = some {
        text := before.toList ++ earlier ++ body
        lastBreak := some b
        lastEmptyLines := breaks
        cursor := next } ∧ next.rest = after ∧ next.column = n := by
  -- on the length, as a line and the breaks behind it come off the text together
  induction hlength : body.length using Nat.strongRecOn
    generalizing body before earlier beganBlank cursor with
  | ind length ih =>
    obtain ⟨line, hlinene, hline, rfl | ⟨ends, more, rfl, hendsne, hmorene, hends, hmore⟩⟩ :=
      exists_word hbody.head hbody.ne_nil hbody.last
    · -- the last line
      rw [indentLines_append hline, indentLines_only_breaks
        (List.forall_mem_cons.2 ⟨hb.isBreak, fun c hc => (hbreaks c hc).isBreak⟩),
        List.append_assoc, List.cons_append] at hrest
      exact scanBlockLines_last_line before earlier beganBlank hline hlinene hb hbreaks hcolumn hn
        hrest hafter
    · -- a line, empty lines, and more
      obtain ⟨d, others, rfl⟩ := List.exists_cons_of_ne_nil hendsne
      have hlineBreak (c : Char) (hc : c ∈ d :: others) : IsLineBreak c :=
        hbody.breaks c (by simp only [List.mem_append]; exact .inr (.inl hc)) (hends c hc)
      obtain ⟨e, rest, rfl⟩ := List.exists_cons_of_ne_nil hmorene
      rw [List.append_assoc, List.append_assoc, indentLines_append hline,
        List.cons_append (a := e), indentLines_breaks hends (.inl hendsne) (hmore e rfl),
        ← List.cons_append (a := e), List.append_assoc, List.append_assoc, List.append_assoc,
        List.cons_append] at hrest
      obtain ⟨beganBlank', next, hstep, hnext, hnextColumn⟩ := scanBlockLines_next_line before
        earlier beganBlank hline hlinene (hlineBreak d List.mem_cons_self)
        (fun c hc => hlineBreak c (.tail d hc)) hcolumn hrest
        (by rw [List.cons_append, indentLines_cons (hmore e rfl)]; rintro c ⟨⟩; exact hmore e rfl)
      rw [← List.append_assoc] at hbody
      have hshorter : (e :: rest).length < length := by
        simp only [← hlength, List.length_append, List.length_cons]
        omega
      obtain ⟨last, hscan, hlast⟩ := ih (e :: rest).length hshorter (some d) others beganBlank'
        (hbody.of_append hmorene hmore) hnextColumn hnext rfl
      refine ⟨last, ?_, hlast⟩
      rw [hstep, hscan]
      simp

/-! ## Blocks -/

/-- How the chomping is written. -/
def Chomping.mark : Chomping → List Char
  | .strip => ['-']
  | .clip => []
  | .keep => ['+']

/-- What is kept of the breaks behind the last line. -/
def Chomping.kept (b : Char) (breaks : List Char) : Chomping → List Char
  | .strip => []
  | .clip => [b]
  | .keep => b :: breaks

/-- The columns that the lines are indented by, given where the first one would not show it. -/
def hint (given : Bool) : List Char := if given then ['2'] else []

theorem scanBlockIndicators_eq {given : Bool} {chomping : Chomping} {rest : List Char}
    (hrest : cursor.rest = hint given ++ (chomping.mark ++ '\n' :: rest)) :
    ∃ header, scanBlockIndicators cursor = some header ∧ header.chomping = chomping ∧
      header.increment = (if given then some 2 else none) ∧ header.cursor.rest = '\n' :: rest := by
  cases given <;> cases chomping <;>
    simp only [hint, Chomping.mark, Bool.false_eq_true, if_true, if_false, List.nil_append,
      List.cons_append] at hrest <;>
    refine ⟨_, by rw [scanBlockIndicators, hrest]; rfl, rfl, rfl, ?_⟩ <;>
    first | exact hrest | rw [Cursor.rest_advance, hrest]; rfl

/-- A text as it is printed is read up to the breaks at its end. -/
theorem scanBlock_eq {given : Bool} {chomping : Chomping} {b : Char}
    (hfront : ∀ c ∈ front, IsLineBreak c) (hbody : FitsBlock body) (hb : IsLineBreak b)
    (hbreaks : ∀ c ∈ breaks, IsLineBreak c)
    (hgiven : given = false → front = [] ∧ ∀ c ∈ body.head?, isSpace c = false)
    (hrest : cursor.rest = hint given ++ (chomping.mark ++ '\n' ::
      (indentLines true (front ++ body ++ b :: breaks) ++ (List.replicate n ' ' ++ after))))
    (hn : n < 4) (hafter : ∀ c ∈ after.head?, isSpace c = false ∧ isBreak c = false) :
    ∃ next, scanBlock false 3 cursor = some (front ++ body ++ chomping.kept b breaks, next) ∧
      next.rest = after ∧ next.column = n := by
  -- the marks in front of the first line
  obtain ⟨header, hheader, hchomping, hincrement, hline⟩ := scanBlockIndicators_eq hrest
  obtain ⟨c, more, rfl⟩ := List.exists_cons_of_ne_nil hbody.ne_nil
  have hc := hbody.head c rfl
  have hlines : indentLines true (front ++ c :: more ++ b :: breaks) =
      front ++ (List.replicate 4 ' ' ++ indentLines false (c :: more ++ b :: breaks)) := by
    rw [List.append_assoc]
    exact indentLines_breaks (fun d hd => (hfront d hd).isBreak) (.inr rfl) hc
  have hnewLine : header.cursor.newLine.rest = front ++ (List.replicate 4 ' ' ++
      (indentLines false (c :: more ++ b :: breaks) ++ (List.replicate n ' ' ++ after))) := by
    rw [Cursor.newLine, hline, hlines]
    simp
  -- the first line shows the indentation, unless the mark gives it
  obtain ⟨start, hfound, hstart, hcolumn⟩ := scanBlockBreaks_eq (if given then some 4 else none) 0
    rfl hfront hnewLine
    (by rw [List.cons_append, indentLines_cons hc]; rintro d ⟨⟩; exact hc)
    (by
      cases given with
      | true => exact .inl rfl
      | false =>
        refine .inr ⟨?_, by simp⟩
        rw [List.cons_append, indentLines_cons hc]
        rintro d ⟨⟩
        exact (hgiven rfl).2 c rfl)
  obtain ⟨next, hscan, hnext⟩ := scanBlockLines_eq none front false hbody hb hbreaks hcolumn hn
    hstart hafter
  refine ⟨next, ?_, hnext⟩
  have hindent : (Option.map (fun increment => 3 - 1 + increment) header.increment) =
      if given then some 4 else none := by
    rw [hincrement]
    cases given <;> rfl
  rw [scanBlock, hheader]
  simp only [Option.bind_eq_bind, Option.bind_some]
  rw [Cursor.skipComment_lineFeed hline rfl, Cursor.passBreak?_eq hline rfl (by decide)]
  simp only [Option.bind_some, hindent, hfound]
  have hfour :
      ((if given then some 4 else none : Option Nat)).getD (max (max 0 4) (max 3 1)) = 4 := by
    cases given <;> rfl
  rw [hfour, hscan, hchomping]
  cases chomping <;> simp [Chomping.kept]

namespace Scanner

variable {scanner ready : Scanner} {position : Position}

/-- A value in a block mapping that is a block. -/
theorem Reaches.block {written : List Char} (h : scanner.Reaches position)
    (hrest : position.rest = '|' :: written) (hdepth : position.depth = 0)
    (hmargin : position.margin = 3) (hlength : after.length ≤ written.length)
    (hscan : ∀ cursor : Cursor, cursor.rest = written → ∃ next,
      scanBlock false 3 cursor = some (text, next) ∧ next.rest = after ∧ next.column = n) :
    scanner.Comes { position with
      rest := after
      column := n
      keyAllowed := true
      tokens := .scalar (String.ofList text) .literal :: position.tokens } := by
  refine h.comes hrest fun {ready} hstands => ?_
  have hflow : ready.inFlow = false := hstands.inFlow_eq_false hdepth
  have hbehind : (ready.cursor.advance 1).rest = written := by
    rw [Cursor.rest_advance, hstands.rest, hrest]
    rfl
  obtain ⟨next, hnext, hrestNext, hcolumn⟩ := hscan _ hbehind
  -- outside brackets the mark begins a block, in front of which no key can be waiting
  have htake : ready.takeToken '|' written = some {
      ready.emit (.scalar (String.ofList text) .literal) with
      cursor := next
      keyAllowed := true
      key := none } := by
    have hseparator : ready.cursor.atDocumentSeparator = false := by
      simp [Cursor.atDocumentSeparator, hstands.rest, hrest, atSeparator]
    have hblock : ready.takeToken '|' written = ready.takeBlock false := by
      simp [takeToken, hseparator, hflow]
    rw [hblock, takeBlock, hstands.dropKey_eq]
    simp only [Option.bind_eq_bind, Option.bind_some]
    have hmarginReady : { ready with key := none : Scanner }.margin = 3 :=
      hstands.margin_eq.trans hmargin
    rw [hmarginReady, hnext]
    rfl
  refine ⟨_, htake, ?_, _, rfl, ?_⟩
  · simp only [Cursor.length, hrestNext, hstands.rest, hrest, List.length_cons]
    omega
  · exact {
      hstands.emitted hrestNext hcolumn rfl with
      keyless := fun _ => rfl
      optional := List.forall_mem_cons.2 ⟨rfl, hstands.outerKeys_optional⟩ }

end Scanner

end Locator.Yaml
