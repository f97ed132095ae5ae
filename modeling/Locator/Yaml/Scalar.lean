import Locator.Text.Number
import Locator.Yaml.Cursor

/-!
# Scalars of YAML text

The four ways to write a text in YAML: plain, in single or double quotes, and as a block of lines
that are kept or folded. Each reader starts behind whatever tells the way of writing, and gives the
text together with the cursor behind it, or nothing where the writing is malformed.
-/

namespace Locator.Yaml

/-- How a scalar is written. -/
inductive Style where
  | plain
  | singleQuoted
  | doubleQuoted
  | literal
  | folded
  deriving DecidableEq, Repr

/-! ## Gaps between words -/

/-- What stands between two words of a scalar. -/
inductive Gap where
  /-- Spaces on one line. -/
  | within (spaces : List Char)
  /-- The end of a line, and the further empty lines. The first break is missing when it was
  escaped. -/
  | across (first : Option Char) (later : List Char)
  deriving Repr

namespace Gap

def isAcross : Gap → Bool
  | across _ _ => true
  | within _ => false

/-- What a gap contributes to the text: a single end of line is folded to a space, and the first one
of several disappears. -/
def fold : Gap → List Char
  | within spaces => spaces
  | across (some '\n') [] => [' ']
  | across (some '\n') later => later
  | across first later => first.toList ++ later

end Gap

/-- Passes spaces and breaks. Within an indentation of `margin` columns a new line must not hold a
tab. -/
def scanGap (margin : Nat) (gap : Gap) (cursor : Cursor) : Option (Gap × Cursor) :=
  match _hrest : cursor.rest with
  | [] => some (gap, cursor)
  | c :: _ =>
    if isSpace c then
      match gap with
      | .within spaces => scanGap margin (.within (spaces ++ [c])) (cursor.advance 1)
      | .across _ _ =>
        if c == '\t' && cursor.column < margin then none
        else scanGap margin gap (cursor.advance 1)
    else
      match _hbreak : cursor.passBreak? with
      | none => some (gap, cursor)
      | some (kept, next) =>
        match gap with
        | .within _ => scanGap margin (.across (some kept) []) next
        | .across first later => scanGap margin (.across first (later ++ [kept])) next
termination_by cursor.length
decreasing_by
  all_goals first
    | exact Cursor.length_of_passBreak? _hbreak
    | simp [Cursor.length, Cursor.advance, _hrest]

/-- Spaces and breaks are passed forwards. -/
theorem length_of_scanGap {margin : Nat} {gap found : Gap} {cursor next : Cursor}
    (h : scanGap margin gap cursor = some (found, next)) : next.length ≤ cursor.length := by
  have length_le_of_advance {cursor next : Cursor} {count : Nat}
      (h : next.length ≤ (cursor.advance count).length) : next.length ≤ cursor.length := by
    rw [Cursor.length_advance] at h
    omega
  fun_induction scanGap margin gap cursor with
  | case1 gap cursor =>
    obtain ⟨-, rfl⟩ := Prod.mk.inj (Option.some.inj h)
    exact Nat.le_refl _
  | case2 cursor c _ _ _ spaces ih => exact length_le_of_advance (ih h)
  | case3 => exact nomatch h
  | case4 cursor c _ _ _ _ _ _ ih => exact length_le_of_advance (ih h)
  | case5 gap cursor =>
    obtain ⟨-, rfl⟩ := Prod.mk.inj (Option.some.inj h)
    exact Nat.le_refl _
  | case6 cursor c _ _ _ kept behind hbreak _ ih =>
    exact Nat.le_trans (ih h) (Nat.le_of_lt (Cursor.length_of_passBreak? hbreak))
  | case7 cursor c _ _ _ kept behind hbreak _ _ ih =>
    exact Nat.le_trans (ih h) (Nat.le_of_lt (Cursor.length_of_passBreak? hbreak))

/-- A gap takes at least the space or break that it starts with. -/
theorem length_of_scanGap_lt {margin : Nat} {spaces : List Char} {found : Gap}
    {cursor next : Cursor} {c : Char} {rest : List Char}
    (h : scanGap margin (.within spaces) cursor = some (found, next))
    (hrest : cursor.rest = c :: rest) (hc : isSpace c || isBreak c) :
    next.length < cursor.length := by
  unfold scanGap at h
  split at h
  · next hnil => exact absurd (hrest.symm.trans hnil) (List.cons_ne_nil c rest)
  · next d more hcons =>
    obtain ⟨rfl, rfl⟩ := List.cons.inj (hrest.symm.trans hcons)
    split at h
    · exact Nat.lt_of_le_of_lt (length_of_scanGap h) (Cursor.length_advance_lt hrest 0)
    · next hspace =>
      split at h
      · next hnone =>
        have hbreak : isBreak c := by simpa [hspace] using hc
        have hsome := Cursor.passBreak?_isSome hrest hbreak
        rw [hnone] at hsome
        exact nomatch hsome
      · next hbreak =>
        exact Nat.lt_of_le_of_lt (length_of_scanGap h) (Cursor.length_of_passBreak? hbreak)

/-! ## Plain scalars -/

def isFlowIndicator (c : Char) : Bool :=
  c == ',' || c == '[' || c == ']' || c == '{' || c == '}'

/-- The characters of one word of a plain scalar. Inside brackets it also ends at the next bracket
or comma, and a colon must not stand directly in front of one. -/
def plainWord (inFlow : Bool) : List Char → Option (List Char)
  | [] => some []
  | c :: rest =>
    if isSpace c || isBreak c then some []
    else if inFlow && c == ':' && rest.head?.any (fun d => isFlowIndicator d || d == '?') then none
    else if c == ':' && endsWord rest then some []
    else if inFlow && isFlowIndicator c then some []
    else (plainWord inFlow rest).map (c :: ·)

theorem length_of_plainWord {inFlow : Bool} {text word : List Char}
    (h : plainWord inFlow text = some word) : word.length ≤ text.length := by
  fun_induction plainWord inFlow text generalizing word with
  | case1 => simp_all
  | case2 => simp_all
  | case3 => exact nomatch h
  | case4 => simp_all
  | case5 => simp_all
  | case6 c rest _ _ _ _ ih =>
    obtain ⟨more, hmore, rfl⟩ := Option.map_eq_some_iff.1 h
    simpa using ih hmore

/-- What reading a plain scalar gives: its text, and whether a new line was begun behind it. -/
structure PlainScalar where
  text : List Char
  cursor : Cursor
  onNewLine : Bool

/-- Reads words and the gaps between them, up to a comment, a separator of documents, or a line that
is not indented by `margin` columns. -/
def scanPlain (inFlow : Bool) (margin : Nat) (text : List Char) (gap : Gap) (cursor : Cursor) :
    Option PlainScalar :=
  let finished := some { text, cursor, onNewLine := gap.isAcross }
  if cursor.atDocumentSeparator || cursor.rest.head? == some '#' then finished
  else
    match _hword : plainWord inFlow cursor.rest with
    | none => none
    | some [] => finished
    | some (c :: word) =>
      let text := text ++ gap.fold ++ c :: word
      let behind := cursor.advance (word.length + 1)
      match _hgap : scanGap margin (.within []) behind with
      | none => none
      | some (gap', next) =>
        -- without a gap it was an indicator that ended the word
        if next.length = behind.length then some { text, cursor := next, onNewLine := false }
        -- the next line is outside the block that the scalar stands in
        else if !inFlow && next.column < margin then
          some { text, cursor := next, onNewLine := gap'.isAcross }
        else scanPlain inFlow margin text gap' next
termination_by cursor.length
decreasing_by
  have hword : word.length + 1 ≤ cursor.length := length_of_plainWord _hword
  have hbehind : behind.length = cursor.length - (word.length + 1) := Cursor.length_advance ..
  have hgap := length_of_scanGap _hgap
  omega

/-! ## Quoted scalars -/

/-- The character with a code point. -/
def charOf? (code : Nat) : Option Char :=
  if h : code.isValidChar then some (Char.ofNatAux code h) else none

/-- The character that an escape denotes, and how many characters it takes. -/
def unescape? : List Char → Option (Char × Nat)
  | 'x' :: rest => numbered 2 rest
  | 'u' :: rest => numbered 4 rest
  | 'U' :: rest => numbered 8 rest
  | c :: _ => (single c).map (·, 1)
  | [] => none
where
  numbered (width : Nat) (rest : List Char) : Option (Char × Nat) := do
    let digits := rest.take width
    if digits.length ≠ width then none
    else return (← charOf? (← Text.number? 16 digits), width + 1)
  single : Char → Option Char
    | '0' => some '\x00'
    | 'a' => some '\x07'
    | 'b' => some '\x08'
    | 't' | '\t' => some '\t'
    | 'n' => some '\n'
    | 'v' => some '\x0b'
    | 'f' => some '\x0c'
    | 'r' => some '\r'
    | 'e' => some '\x1b'
    | ' ' => some ' '
    | '"' => some '"'
    | '/' => some '/'
    | '\\' => some '\\'
    | 'N' => some '\x85'
    | '_' => some '\xa0'
    | 'L' => some '\u2028'
    | 'P' => some '\u2029'
    | _ => none

/-- Reads a quoted scalar behind its opening quote. -/
def scanQuoted (single : Bool) (cursor : Cursor) : Option (List Char × Cursor) :=
  if cursor.atDocumentSeparator then none
  else
    match hrest : cursor.rest with
    | [] => none
    | c :: rest =>
      let continueBehind (text : List Char) (next : Cursor) (_h : next.length < cursor.length) :
          Option (List Char × Cursor) :=
        (scanQuoted single next).map fun (more, last) => (text ++ more, last)
      if single && c == '\'' then
        if rest.head? == some '\'' then
          continueBehind ['\''] (cursor.advance 2) (Cursor.length_advance_lt hrest 1)
        else some ([], cursor.advance 1)
      else if !single && c == '"' then some ([], cursor.advance 1)
      else if hc : isSpace c || isBreak c then
        match hgap : scanGap 0 (.within []) cursor with
        | some (gap, next) => continueBehind gap.fold next (length_of_scanGap_lt hgap hrest hc)
        | none => none
      else if !single && c == '\\' then
        -- an escaped end of line joins the lines, without the blanks in front of the next one
        match hbreak : (cursor.advance 1).passBreak? with
        | some (_, nextLine) =>
          match hgap : scanGap 0 (.across none []) nextLine with
          | some (gap, next) => continueBehind gap.fold next <|
            calc
              next.length ≤ nextLine.length := length_of_scanGap hgap
              _ < (cursor.advance 1).length := Cursor.length_of_passBreak? hbreak
              _ < cursor.length := Cursor.length_advance_lt hrest 0
          | none => none
        | none =>
          match unescape? rest with
          | some (escaped, count) =>
            continueBehind [escaped] (cursor.advance (count + 1))
              (Cursor.length_advance_lt hrest count)
          | none => none
      else continueBehind [c] (cursor.advance 1) (Cursor.length_advance_lt hrest 0)
termination_by cursor.length

/-! ## Block scalars -/

/-- What happens to the ends of line at the end of a block. -/
inductive Chomping where
  | strip
  | clip
  | keep
  deriving DecidableEq, Repr

/-- What stands behind the indicator of a block: the chomping, and the indentation if given. -/
structure BlockHeader where
  chomping : Chomping := .clip
  increment : Option Nat := none
  cursor : Cursor

def chomping? : Char → Option Chomping
  | '+' => some .keep
  | '-' => some .strip
  | _ => none

/-- An indentation, one digit other than zero. -/
def increment? (c : Char) : Option Nat :=
  if c.isDigit && c != '0' then some (c.toNat - '0'.toNat) else none

/-- Reads the indicators of a block in either order. -/
def scanBlockIndicators (cursor : Cursor) : Option BlockHeader :=
  match cursor.rest with
  | [] => some { cursor }
  | c :: rest =>
    match chomping? c with
    | some chomping =>
      match rest with
      | d :: _ =>
        if d.isDigit then
          (increment? d).map fun increment =>
            { chomping, increment := some increment, cursor := cursor.advance 2 }
        else some { chomping, cursor := cursor.advance 1 }
      | [] => some { chomping, cursor := cursor.advance 1 }
    | none =>
      if c.isDigit then do
        let increment := some (← increment? c)
        match rest.head?.bind chomping? with
        | some chomping => return { chomping, increment, cursor := cursor.advance 2 }
        | none => return { increment, cursor := cursor.advance 1 }
      else some { cursor }

/-- Empty lines of a block: their breaks, and the columns that the deepest of them reaches. -/
structure BlockBreaks where
  breaks : List Char := []
  deepest : Nat
  cursor : Cursor

/-- Passes empty lines and the indentation of the next one, which is looked for as far as `indent`
columns if that is known. -/
def scanBlockBreaks (indent : Option Nat) (deepest : Nat) (cursor : Cursor) : Option BlockBreaks :=
  let spaces := (cursor.taken (· == ' ')).length
  let indented := cursor.advance <|
    match indent with
    | none => spaces
    | some indent => min spaces (indent - cursor.column)
  let deepest := max deepest indented.column
  let mayBeDeeper := indent.all (indented.column < ·)
  if mayBeDeeper && indented.rest.head? == some '\t' then none
  else
    match _hbreak : indented.passBreak? with
    | none => some { deepest, cursor := indented }
    | some (kept, next) =>
      (scanBlockBreaks indent deepest next).map fun found =>
        { found with breaks := kept :: found.breaks }
termination_by cursor.length
decreasing_by
  have hbreak := Cursor.length_of_passBreak? _hbreak
  have hindented : indented.length ≤ cursor.length := Cursor.length_advance_le ..
  omega

theorem length_of_scanBlockBreaks {indent : Option Nat} {deepest : Nat} {cursor : Cursor}
    {found : BlockBreaks} (h : scanBlockBreaks indent deepest cursor = some found) :
    found.cursor.length ≤ cursor.length := by
  fun_induction scanBlockBreaks indent deepest cursor generalizing found with
  | case1 => exact nomatch h
  | case2 =>
    obtain rfl := Option.some.inj h
    exact Cursor.length_advance_le ..
  | case3 =>
    rename_i cursor _ indented _ _ _ _ next hbreak ih
    obtain ⟨later, hlater, rfl⟩ := Option.map_eq_some_iff.1 h
    have hbreak := Cursor.length_of_passBreak? hbreak
    have hindented : indented.length ≤ cursor.length := Cursor.length_advance_le ..
    have hlater := ih hlater
    simp only
    omega

/-- The lines of a block, given what stands in front of the next one: the end of the previous line,
the empty lines since, and whether the previous line began with a space. -/
structure BlockLines where
  /-- The text up to the end of the last line. -/
  text : List Char
  lastBreak : Option Char
  lastEmptyLines : List Char
  cursor : Cursor

/-- Reads the lines that are indented by `indent` columns. A folded block joins two lines that do
not begin with a space. -/
def scanBlockLines (folded : Bool) (indent : Nat) (before : Option Char) (emptyLines : List Char)
    (beganBlank : Bool) (cursor : Cursor) : Option BlockLines :=
  let finished :=
    some { text := [], lastBreak := before, lastEmptyLines := emptyLines, cursor }
  match _hrest : cursor.rest with
  | [] => finished
  | c :: rest =>
    if cursor.column ≠ indent then finished
    else
      let beginsBlank := isSpace c
      -- a folded end of line is a space, or nothing in front of empty lines
      let joint :=
        if folded && before == some '\n' && !beganBlank && !beginsBlank then
          if emptyLines.isEmpty then [' '] else []
        else before.toList
      let line := c :: rest.takeWhile (!isBreak ·)
      let ended := (cursor.advance line.length).passLineEnd
      match _hfound : scanBlockBreaks (some indent) 0 ended.2 with
      | none => none
      | some found =>
        (scanBlockLines folded indent ended.1 found.breaks beginsBlank found.cursor).map
          fun lines => { lines with text := joint ++ emptyLines ++ line ++ lines.text }
termination_by cursor.length
decreasing_by
  calc
    found.cursor.length ≤ ended.2.length := length_of_scanBlockBreaks _hfound
    _ ≤ (cursor.advance line.length).length := Cursor.length_passLineEnd_le _
    _ < cursor.length := Cursor.length_advance_lt _hrest _

/-- Reads a block scalar behind its indicator. The block is indented deeper than `margin - 1`
columns, by the given increment or as its first line is. -/
def scanBlock (folded : Bool) (margin : Nat) (cursor : Cursor) : Option (List Char × Cursor) := do
  let header ← scanBlockIndicators cursor
  let lineEnd := header.cursor.skipComment isSpace
  let start ← match lineEnd.passBreak? with
    | some (_, next) => some next
    | none => if lineEnd.rest.isEmpty then some lineEnd else none
  -- an increment counts from the column of the collection around the block
  let given := header.increment.map fun increment => margin - 1 + increment
  let found ← scanBlockBreaks given 0 start
  let indent := given.getD (max found.deepest (max margin 1))
  let lines ← scanBlockLines folded indent none found.breaks false found.cursor
  let ending := match header.chomping with
    | .strip => []
    | .clip => lines.lastBreak.toList
    | .keep => lines.lastBreak.toList ++ lines.lastEmptyLines
  return (lines.text ++ ending, lines.cursor)

end Locator.Yaml
