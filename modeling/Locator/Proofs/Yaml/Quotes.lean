import Locator.Proofs.Yaml.Gaps

/-!
# Quoted scalars

Between quotes the gaps are folded: spaces are kept within a line and dropped around a break, and a
line feed counts as a space. What a text keeps of its gaps can be seen from the text alone.

* `keepsBreaks`: the texts whose gaps are read as they are
* `fold_run`: what folding leaves of a gap
* `scanQuoted_char`, `scanQuoted_run`: reading a character, and a gap
-/

namespace Locator.Yaml

variable {cursor next : Cursor} {rest after text run : List Char} {c : Char} {n : Nat}

/-! ## Gaps -/

/-- A break that says which one it is when it is read. -/
def isSeparatorBreak (c : Char) : Bool := c == '\u2028' || c == '\u2029'

/-- The breaks of a text that is written between quotes are read as they are: there are only line
and paragraph separators, none of them next to a space or in front of a mark between documents. -/
def keepsBreaks : List Char → Bool
  | [] => true
  | c :: rest =>
    (if isBreak c then isSeparatorBreak c && rest.head? != some ' ' && !atSeparator rest
      else c != ' ' || !rest.head?.any isBreak) && keepsBreaks rest

theorem keepsBreaks_cons (hspace : isSpace c = false) (hbreak : isBreak c = false)
    (rest : List Char) : keepsBreaks (c :: rest) = keepsBreaks rest := by
  have hc : c ≠ ' ' := by
    rintro rfl
    cases hspace
  simp [keepsBreaks, hbreak, hc]

theorem keepsBreaks_append {front : List Char}
    (hfront : ∀ c ∈ front, isSpace c = false ∧ isBreak c = false) (rest : List Char) :
    keepsBreaks (front ++ rest) = keepsBreaks rest := by
  induction front with
  | nil => rfl
  | cons c front ih =>
    have hc := hfront c List.mem_cons_self
    rw [List.cons_append, keepsBreaks_cons hc.1 hc.2, ih fun d hd => hfront d (.tail c hd)]

/-- What quotes may hold of gaps as it is. -/
def IsQuotedGap (c : Char) : Prop := c = ' ' ∨ c = '\x85' ∨ c = '\u2028' ∨ c = '\u2029'

theorem IsQuotedGap.isGap (h : IsQuotedGap c) : IsGap c := by
  obtain rfl | rfl | rfl | rfl := h
  · exact .inl rfl
  all_goals exact .inr ⟨rfl, by decide⟩

/-- Gaps are kept that are nothing but spaces or nothing but separators. -/
theorem keepsBreaks_run (hne : run ≠ []) (hrun : ∀ c ∈ run, IsQuotedGap c)
    (hafter : ∀ c ∈ after.head?, isSpace c = false ∧ isBreak c = false) :
    keepsBreaks (run ++ after) = true ↔
      ((∀ c ∈ run, c = ' ') ∨ (∀ c ∈ run, isSeparatorBreak c = true) ∧ atSeparator after = false) ∧
        keepsBreaks after = true := by
  induction run with
  | nil => exact absurd rfl hne
  | cons c run ih =>
    have hc := hrun c List.mem_cons_self
    cases run with
    | nil =>
      have hhead : after.head? ≠ some ' ' ∧ after.head?.any isBreak = false := by
        cases hcase : after.head? with
        | none => simp
        | some d =>
          have hd := hafter d hcase
          have : d ≠ ' ' := by
            rintro rfl
            cases hd.1
          simp [this, hd.2]
      obtain rfl | rfl | rfl | rfl := hc <;>
        simp [keepsBreaks, isBreak, isSeparatorBreak, hhead]
    | cons d run =>
      -- a mark between documents does not begin with a blank
      have hd := hrun d (by simp)
      have hseparator : atSeparator (d :: (run ++ after)) = false := by
        obtain rfl | rfl | rfl | rfl := hd <;> rfl
      have hmore := ih (List.cons_ne_nil _ _) (fun e he => hrun e (.tail c he))
      rw [List.cons_append, keepsBreaks, Bool.and_eq_true, hmore]
      simp only [List.cons_append, List.head?_cons, hseparator, List.forall_mem_cons]
      obtain rfl | rfl | rfl | rfl := hc <;> obtain rfl | rfl | rfl | rfl := hd <;>
        simp [isBreak, isSeparatorBreak]

/-- Behind a break the spaces are dropped, and the breaks are kept. -/
theorem foldl_passed_across (first : Option Char) (later : List Char) :
    run.foldl Gap.passed (.across first later) =
      .across first (later ++ (run.filter (· ≠ ' ')).map Cursor.keptBreak) := by
  induction run generalizing later with
  | nil => simp
  | cons c run ih =>
    rw [List.foldl_cons, Gap.passed]
    by_cases hc : c = ' '
    · rw [if_pos hc, ih, List.filter_cons_of_neg (by simpa using hc)]
    · rw [if_neg hc, ih, List.filter_cons_of_pos (by simpa using hc)]
      simp

theorem foldl_passed_within (front : List Char) :
    (List.replicate n ' ').foldl Gap.passed (.within front) =
      .within (front ++ List.replicate n ' ') := by
  induction n generalizing front with
  | zero => simp
  | succ n ih =>
    rw [List.replicate_succ, List.foldl_cons, Gap.passed, if_pos rfl, ih]
    simp

/-- A gap is all spaces, or begins with some and then a break. -/
theorem exists_break (hspaces : ¬∀ c ∈ run, c = ' ') :
    ∃ n c more, run = List.replicate n ' ' ++ c :: more ∧ c ≠ ' ' := by
  induction run with
  | nil => exact absurd nofun hspaces
  | cons c run ih =>
    by_cases hc : c = ' '
    · rw [List.forall_mem_cons, not_and] at hspaces
      obtain ⟨n, d, more, rfl, hd⟩ := ih (hspaces hc)
      exact ⟨n + 1, d, more, by rw [hc]; rfl, hd⟩
    · exact ⟨0, c, run, rfl, hc⟩

theorem keptBreak_of_isSeparatorBreak (h : isSeparatorBreak c = true) :
    Cursor.keptBreak c = c ∧ c ≠ ' ' ∧ c ≠ '\n' := by
  obtain rfl | rfl : c = '\u2028' ∨ c = '\u2029' := by simpa [isSeparatorBreak] using h
  all_goals exact ⟨rfl, by decide, by decide⟩

theorem fold_across {first : Char} (hfirst : first ≠ '\n') (later : List Char) :
    (Gap.across (some first) later).fold = first :: later := by
  rw [Gap.fold]
  · rfl
  · rintro ⟨⟩
    exact absurd rfl hfirst
  · rintro ⟨⟩
    exact absurd rfl hfirst

/-- What is left of breaks and the spaces between them. -/
def keptBreaks (run : List Char) : List Char :=
  (run.filter (· ≠ ' ')).map Cursor.keptBreak

theorem length_keptBreaks_le (run : List Char) : (keptBreaks run).length ≤ run.length := by
  rw [keptBreaks, List.length_map]
  exact List.length_filter_le _ run

/-- Only separators are kept as they are. -/
theorem keptBreaks_eq_self_iff (hrun : ∀ c ∈ run, IsQuotedGap c) :
    keptBreaks run = run ↔ ∀ c ∈ run, isSeparatorBreak c = true := by
  constructor
  · intro hsame c hc
    -- the character is what was kept of a break, so it is a separator or a line feed
    have hkept := hc
    rw [← hsame] at hkept
    obtain ⟨d, -, rfl⟩ := List.mem_map.1 hkept
    have hquoted := hrun _ hc
    by_cases hd : d = '\u2028' ∨ d = '\u2029'
    · simp [Cursor.keptBreak, hd, isSeparatorBreak]
    · rw [Cursor.keptBreak, if_neg hd] at hquoted
      obtain h | h | h | h := hquoted <;> exact absurd h (by decide)
  · intro hall
    have hfilter : run.filter (· ≠ ' ') = run := by
      rw [List.filter_eq_self]
      intro c hc
      simpa using (keptBreak_of_isSeparatorBreak (hall c hc)).2.1
    rw [keptBreaks, hfilter,
      List.map_congr_left fun c hc => (keptBreak_of_isSeparatorBreak (hall c hc)).1, List.map_id']

theorem fold_spaces (hspaces : ∀ c ∈ run, c = ' ') :
    (run.foldl Gap.passed (.within [])).fold = run := by
  rw [List.eq_replicate_iff.2 ⟨rfl, hspaces⟩, foldl_passed_within]
  rfl

/-- Behind the first break only the breaks are left. -/
theorem foldl_passed_break (hc : c ≠ ' ') (n : Nat) (more : List Char) :
    (List.replicate n ' ' ++ c :: more).foldl Gap.passed (.within []) =
      .across (some (Cursor.keptBreak c)) (keptBreaks more) := by
  rw [List.foldl_append, foldl_passed_within, List.foldl_cons, Gap.passed, if_neg hc,
    foldl_passed_across, List.nil_append, keptBreaks]

/-- A next-line character counts as a space, or for nothing in front of another break. -/
theorem fold_next_line (later : List Char) :
    (Gap.across (some (Cursor.keptBreak '\x85')) later).fold =
      if later = [] then [' '] else later := by
  cases later <;> rfl

/-- A gap whose first break is a separator is kept where all of it is separators: the separator
itself is kept, so what is in front of it has to be empty. -/
theorem fold_separator_run {more : List Char} (hc : c ≠ ' ')
    (hseparator : isSeparatorBreak c = true) (hmore : ∀ d ∈ more, IsQuotedGap d) (n : Nat) :
    ((List.replicate n ' ' ++ c :: more).foldl Gap.passed (.within [])).fold =
        c :: keptBreaks more ∧
      (c :: keptBreaks more = List.replicate n ' ' ++ c :: more ↔
        ∀ d ∈ List.replicate n ' ' ++ c :: more, isSeparatorBreak d = true) := by
  obtain ⟨hsame, -, hnoLineFeed⟩ := keptBreak_of_isSeparatorBreak hseparator
  rw [foldl_passed_break hc, hsame, fold_across hnoLineFeed]
  refine ⟨rfl, ?_⟩
  cases n with
  | zero =>
    rw [List.replicate_zero, List.nil_append, List.forall_mem_cons, List.cons.injEq,
      keptBreaks_eq_self_iff hmore]
    exact and_congr_left fun _ => iff_of_true rfl hseparator
  | succ n =>
    refine iff_of_false (fun h => hc (List.cons.inj h).1) fun h => ?_
    have hfalse := h ' ' (by simp)
    cases hfalse

/-- A gap whose first break is a next-line character loses it. -/
theorem fold_next_line_run (n : Nat) (more : List Char) :
    let run := List.replicate n ' ' ++ '\x85' :: more
    (run.foldl Gap.passed (.within [])).fold.length ≤ run.length ∧
      (run.foldl Gap.passed (.within [])).fold ≠ run := by
  intro run
  have hlater := length_keptBreaks_le more
  rw [foldl_passed_break (by decide), fold_next_line]
  -- it is a space at best, where no other break follows
  split
  · refine ⟨by simp only [run, List.length_append, List.length_cons, List.length_nil]; omega, ?_⟩
    intro h
    have hmem : '\x85' ∈ [' '] := by
      rw [h]
      simp [run]
    exact absurd hmem (by decide)
  · have hshorter : (keptBreaks more).length < run.length := by
      simp only [run, List.length_append, List.length_cons]
      omega
    refine ⟨Nat.le_of_lt hshorter, fun h => ?_⟩
    rw [h] at hshorter
    exact Nat.lt_irrefl _ hshorter

/-- Folding makes a gap no longer, and keeps it where it is nothing but spaces or nothing but
separators. -/
theorem fold_run (hrun : ∀ c ∈ run, IsQuotedGap c) :
    (run.foldl Gap.passed (.within [])).fold.length ≤ run.length ∧
      ((run.foldl Gap.passed (.within [])).fold = run ↔
        (∀ c ∈ run, c = ' ') ∨ ∀ c ∈ run, isSeparatorBreak c = true) := by
  by_cases hspaces : ∀ c ∈ run, c = ' '
  · rw [fold_spaces hspaces]
    exact ⟨Nat.le_refl _, iff_of_true rfl (.inl hspaces)⟩
  -- otherwise the first break decides
  obtain ⟨n, c, more, rfl, hc⟩ := exists_break hspaces
  have hmore (d : Char) (hd : d ∈ more) : IsQuotedGap d := hrun d (by simp [hd])
  rw [or_iff_right hspaces]
  by_cases hseparator : isSeparatorBreak c = true
  · obtain ⟨hfold, hiff⟩ := fold_separator_run hc hseparator hmore n
    have hlater := length_keptBreaks_le more
    rw [hfold]
    refine ⟨?_, hiff⟩
    simp only [List.length_cons, List.length_append]
    omega
  · obtain rfl : c = '\x85' := by
      obtain rfl | rfl | rfl | rfl := hrun c (by simp)
      · exact absurd rfl hc
      · rfl
      · exact absurd rfl hseparator
      · exact absurd rfl hseparator
    obtain ⟨hle, hne⟩ := fold_next_line_run n more
    exact ⟨hle, iff_of_false hne fun h => hseparator (h _ (by simp))⟩

/-- A new line begins behind separators, and none behind spaces. -/
theorem columnBehind_run (hne : run ≠ []) (column : Nat) :
    ((∀ c ∈ run, c = ' ') → 0 < run.foldl columnBehind column) ∧
      ((∀ c ∈ run, isSeparatorBreak c = true) → run.foldl columnBehind column = 0) := by
  obtain ⟨front, c, rfl⟩ := (List.eq_nil_or_concat' run).resolve_left hne
  rw [List.foldl_append, List.foldl_cons, List.foldl_nil, columnBehind]
  refine ⟨fun h => ?_, fun h => ?_⟩
  · rw [if_pos (h c (by simp))]
    exact Nat.succ_pos _
  · rw [if_neg (keptBreak_of_isSeparatorBreak (h c (by simp))).2.1]

theorem isQuotedGap_of_isSeparatorBreak (h : isSeparatorBreak c = true) : IsQuotedGap c := by
  simp only [isSeparatorBreak, Bool.or_eq_true, beq_iff_eq] at h
  exact .inr (.inr h)

theorem isBreak_of_isSeparatorBreak (h : isSeparatorBreak c = true) : isBreak c = true := by
  obtain rfl | rfl : c = '\u2028' ∨ c = '\u2029' := by simpa [isSeparatorBreak] using h
  all_goals rfl

theorem isBlank_cases (h : isSpace c = true ∨ isBreak c = true) :
    c = ' ' ∨ c = '\t' ∨ c = '\n' ∨ c = '\r' ∨ c = '\x85' ∨ c = '\u2028' ∨ c = '\u2029' := by
  simpa [isSpace, isBreak, or_assoc] using h

/-! ## Reading -/

theorem scanQuoted_char (single : Bool) (hseparator : cursor.atDocumentSeparator = false)
    (hrest : cursor.rest = c :: rest) (hblank : isSpace c = false ∧ isBreak c = false)
    (hquote : if single then c ≠ '\'' else c ≠ '"' ∧ c ≠ '\\') :
    scanQuoted single cursor =
      (scanQuoted single (cursor.advance 1)).map fun (more, last) => (c :: more, last) := by
  generalize hresult : Option.map _ _ = result
  rw [scanQuoted, hseparator, if_neg Bool.false_ne_true]
  split
  · next h => exact absurd (hrest.symm.trans h) (List.cons_ne_nil _ _)
  · next h =>
    obtain ⟨rfl, rfl⟩ := List.cons.inj (hrest.symm.trans h)
    have hquoted : (single && c == '\'') = false ∧ (!single && c == '"') = false ∧
        (!single && c == '\\') = false := by
      cases single <;> simp_all
    simp only [hquoted, hblank, Bool.or_self, Bool.false_eq_true, if_false, dif_neg,
      not_false_eq_true]
    exact hresult

/-- A gap is folded. -/
theorem scanQuoted_gap (single : Bool) {gap : Gap} (hseparator : cursor.atDocumentSeparator = false)
    (hrest : cursor.rest = c :: rest) (hblank : isSpace c = true ∨ isBreak c = true)
    (hgap : scanGap 0 (.within []) cursor = some (gap, next)) :
    scanQuoted single cursor =
      (scanQuoted single next).map fun (more, last) => (gap.fold ++ more, last) := by
  generalize hresult : Option.map _ _ = result
  rw [scanQuoted, hseparator, if_neg Bool.false_ne_true]
  split
  · next h => exact absurd (hrest.symm.trans h) (List.cons_ne_nil _ _)
  · next h =>
    obtain ⟨rfl, rfl⟩ := List.cons.inj (hrest.symm.trans h)
    -- a blank is neither quote, so the scanner comes to the gap
    have hquoted : (single && c == '\'') = false ∧ (!single && c == '"') = false := by
      constructor
      · cases single <;> simp_all
        rintro rfl
        exact absurd hblank (by decide)
      · cases single <;> simp_all
        rintro rfl
        exact absurd hblank (by decide)
    dsimp only
    rw [if_neg (by simp [hquoted]), if_neg (by simp [hquoted]), dif_pos (by simpa using hblank)]
    split
    · next h =>
      rw [hgap] at h
      obtain ⟨rfl, rfl⟩ := Prod.mk.inj (Option.some.inj h)
      exact hresult
    · next h =>
      rw [hgap] at h
      cases h

/-- A whole gap is folded. -/
theorem scanQuoted_run (single : Bool) {written : List Char}
    (hseparator : cursor.atDocumentSeparator = false) (hne : run ≠ []) (hrun : ∀ c ∈ run, IsGap c)
    (hrest : cursor.rest = run ++ written)
    (hstop : ∀ c ∈ written.head?, isSpace c = false ∧ isBreak c = false) :
    ∃ next, scanQuoted single cursor = (scanQuoted single next).map
        (fun (more, last) => ((run.foldl Gap.passed (.within [])).fold ++ more, last)) ∧
      next.rest = written ∧ next.column = run.foldl columnBehind cursor.column := by
  obtain ⟨next, hscan, hnext, hcolumn⟩ := scanGap_run 0 (.within []) hrun hrest hstop
  obtain ⟨c, more, rfl⟩ := List.exists_cons_of_ne_nil hne
  have hblank : isSpace c = true ∨ isBreak c = true := by
    obtain rfl | ⟨hbreak, -⟩ := hrun c List.mem_cons_self
    · exact .inl rfl
    · exact .inr hbreak
  exact ⟨next, scanQuoted_gap single hseparator hrest hblank hscan, hnext, hcolumn⟩

theorem flatMap_eq_self {write : Char → List Char} (h : ∀ c ∈ run, write c = [c]) :
    run.flatMap write = run := by
  induction run with
  | nil => rfl
  | cons c run ih =>
    rw [List.flatMap_cons, h c List.mem_cons_self, ih fun d hd => h d (.tail c hd)]
    rfl

/-! ## Tokens -/

/-- The quote in front of a text and behind it. -/
def quote (single : Bool) : Char := if single then '\'' else '"'

def quotedStyle (single : Bool) : Style := if single then .singleQuoted else .doubleQuoted

namespace Scanner

variable {scanner ready : Scanner} {position : Position} {written : List Char}

theorem takeToken_quote (single : Bool) (hrest : scanner.cursor.rest = quote single :: written) :
    scanner.takeToken (quote single) written = scanner.takeQuoted single := by
  cases single <;> simp [takeToken, Cursor.atDocumentSeparator, hrest, quote, atSeparator]

theorem takeQuoted_eq {single : Bool} {started : Scanner}
    (hstart : scanner.startNode = some started)
    (hscan : scanQuoted single (started.cursor.advance 1) = some (text, next)) :
    scanner.takeQuoted single = some {
      started.emit (.scalar (String.ofList text) (quotedStyle single)) with
      cursor := next
      keyAllowed := false } := by
  rw [takeQuoted, takeNode, hstart]
  simp only [Option.bind_eq_bind, Option.bind_some, hscan]
  rfl

/-- A value in quotes: what reading it comes to decides. -/
theorem Reaches.quoted (single : Bool) (h : scanner.Reaches position)
    (hrest : position.rest = quote single :: written) (hkey : position.keyAllowed = false) :
    ∃ cursor : Cursor, cursor.rest = written ∧ 0 < cursor.column ∧
      (scanQuoted single cursor = none → scanner.run = none) ∧
      ∀ {text next}, scanQuoted single cursor = some (text, next) →
        next.length ≤ cursor.length → scanner.Comes { position with
          rest := next.rest
          column := next.column
          tokens := .scalar (String.ofList text) (quotedStyle single) :: position.tokens } := by
  obtain ⟨ready, hstands, hnone, hgo⟩ := h.exists_stands hrest
  -- the position behind the opening quote, whether or not the scalar ends
  have hready := hstands.rest.trans hrest
  have hstart := startNode_of_no_key (hstands.keyAllowed.trans hkey)
  refine ⟨ready.cursor.advance 1, ?_, Nat.succ_pos _, fun hscan => hnone ?_,
    fun hscan hless => hgo ((takeToken_quote single hready).trans (takeQuoted_eq hstart hscan)) ?_
      ⟨_, rfl, hstands.emitted rfl rfl hkey.symm⟩⟩
  · rw [Cursor.rest_advance, hready]
    rfl
  · rw [takeToken_quote single hready, takeQuoted, takeNode, hstart]
    simp only [Option.bind_eq_bind, Option.bind_some, hscan]
    rfl
  · exact Nat.lt_of_le_of_lt hless (Cursor.length_advance_lt hready 0)

end Scanner

end Locator.Yaml
