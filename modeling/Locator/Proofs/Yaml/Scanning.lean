import Locator.Yaml.Token

/-!
# From token to token

The scanner passes what is in front of a token, closes what ends there, and takes the token. A
`Position` says what is left of the text and what was read, and leaves out where in the text that
is: only the keys that may come are told apart by it. What a scanner comes to is followed from
position to position (`Reaches`), one token after the other.

* `Stands.lands`, `Stands.lands_next_line`: passing what is in front of a token
* `Reaches.comes`: taking a token
* `Reaches.run_eq`: the end of the text
-/

namespace Locator.Yaml

variable {rest : List Char} {c : Char} {n : Nat}

/-! ## Cursors -/

namespace Cursor

variable {cursor : Cursor}

@[simp]
theorem rest_advance (cursor : Cursor) (count : Nat) :
    (cursor.advance count).rest = cursor.rest.drop count := rfl

@[simp]
theorem column_advance (cursor : Cursor) (count : Nat) :
    (cursor.advance count).column = cursor.column + count := rfl

theorem advance_zero (cursor : Cursor) : cursor.advance 0 = cursor := rfl

/-- A mark between documents stands at the start of a line. -/
theorem atDocumentSeparator_of_column (hcolumn : 0 < cursor.column) :
    cursor.atDocumentSeparator = false := by
  simp [atDocumentSeparator, Nat.ne_of_gt hcolumn]

/-- The cursor at the start of the next line, behind one character. -/
def newLine (cursor : Cursor) : Cursor where
  rest := cursor.rest.tail
  index := cursor.index + 1
  line := cursor.line + 1
  column := 0

/-- What is kept of the end of a line. -/
def keptBreak (c : Char) : Char := if c = '\u2028' ∨ c = '\u2029' then c else '\n'

/-- A break of one character. -/
theorem passBreak?_eq (hrest : cursor.rest = c :: rest) (hbreak : isBreak c = true)
    (hreturn : c ≠ '\r') : cursor.passBreak? = some (keptBreak c, cursor.newLine) := by
  rw [passBreak?, hrest]
  dsimp only
  split
  · next h => exact absurd (List.cons.inj h).1 hreturn
  · next h =>
    obtain ⟨rfl, rfl⟩ := List.cons.inj h
    by_cases hc : c = '\u2028' ∨ c = '\u2029'
    · simp [keptBreak, hc, newLine, hrest]
    · simp [keptBreak, hc, hbreak, newLine, hrest]
  · next h => exact absurd h (List.cons_ne_nil _ _)

theorem passBreak?_eq_none (h : ∀ c ∈ cursor.rest.head?, isBreak c = false) :
    cursor.passBreak? = none := by
  rw [passBreak?]
  cases hrest : cursor.rest with
  | nil => rfl
  | cons c rest =>
    have hc : isBreak c = false := h c (by rw [hrest]; rfl)
    have hne : ∀ d, isBreak d = true → c ≠ d := fun d hd heq => by simp [heq, hd] at hc
    split
    · next heq => exact absurd (List.cons.inj heq).1 (hne '\r' rfl)
    · next heq =>
      obtain ⟨rfl, rfl⟩ := List.cons.inj heq
      simp [hne '\u2028' rfl, hne '\u2029' rfl, hc]
    · rfl

/-- The end of a line ends the blanks in front of it, and is no comment. -/
theorem skipComment_lineFeed {isBlank : Char → Bool} (hrest : cursor.rest = '\n' :: rest)
    (hblank : isBlank '\n' = false) : cursor.skipComment isBlank = cursor := by
  simp [skipComment, skipWhile, taken, hrest, hblank, advance_zero]

end Cursor

/-- The text is at an end, or at something other than a blank, a comment or a mark of the byte
order. -/
def StartsToken (text : List Char) : Prop :=
  ∀ c ∈ text.head?, isSpace c = false ∧ isBreak c = false ∧ c ≠ '#' ∧ isOrderMark c = false

theorem startsToken_nil : StartsToken [] := fun _ h => nomatch h

theorem takeWhile_spaces {wanted : Char → Bool} (hspace : wanted ' ' = true)
    (hrest : ∀ c ∈ rest.head?, wanted c = false) :
    (List.replicate n ' ' ++ rest).takeWhile wanted = List.replicate n ' ' := by
  rw [List.takeWhile_append_of_pos fun c hc => (List.eq_of_mem_replicate hc) ▸ hspace]
  cases rest with
  | nil => rw [List.takeWhile_nil, List.append_nil]
  | cons c rest => rw [List.takeWhile_cons_of_neg (by simp [hrest c rfl]), List.append_nil]

theorem drop_spaces : (List.replicate n ' ' ++ rest).drop n = rest := by
  rw [List.drop_append_of_le_length (by simp), List.drop_eq_nil_of_le (by simp), List.nil_append]

namespace Scanner

variable {scanner ready next : Scanner}

/-! ## In front of a token -/

theorem skipToToken_spaces (hrest : scanner.cursor.rest = List.replicate n ' ' ++ rest)
    (hstart : StartsToken rest) :
    scanner.skipToToken = { scanner with cursor := scanner.cursor.advance n } := by
  have hmark : scanner.cursor.skipOrderMark = scanner.cursor := by
    have hhead : scanner.cursor.rest.head?.any isOrderMark = false := by
      rw [hrest]
      cases n with
      | zero =>
        cases rest with
        | nil => rfl
        | cons c rest => exact (hstart c rfl).2.2.2
      | succ n => rfl
    rw [Cursor.skipOrderMark, hhead, Bool.and_false, if_neg Bool.false_ne_true]
  -- the blanks that are skipped depend on where the scanner is; spaces are among them everywhere
  have hcomment (isBlank : Char → Bool) (hspace : isBlank ' ' = true)
      (hblank : ∀ c, isSpace c = false → isBlank c = false) :
      scanner.cursor.skipOrderMark.skipComment isBlank = scanner.cursor.advance n := by
    have hstop : ∀ c ∈ rest.head?, isBlank c = false := fun c hc => hblank c (hstart c hc).1
    have hhead : rest.head? ≠ some '#' := fun h => (hstart '#' h).2.2.1 rfl
    rw [hmark, Cursor.skipComment, Cursor.skipWhile, Cursor.taken, hrest,
      takeWhile_spaces hspace hstop, List.length_replicate, Cursor.rest_advance, hrest, drop_spaces]
    simp [hhead]
  have hbreak : (scanner.cursor.advance n).passBreak? = none := by
    apply Cursor.passBreak?_eq_none
    rw [Cursor.rest_advance, hrest, drop_spaces]
    exact fun c hc => (hstart c hc).2.1
  -- no break follows, so the scanner does not come back for another line
  have hblanks := hcomment
    (fun c => c == ' ' || ((scanner.inFlow || !scanner.keyAllowed) && c == '\t')) (by simp)
    (by intro c hc; rw [isSpace] at hc; simp_all)
  rw [skipToToken]
  split
  · next h => rw [hblanks]
  · next h =>
    rw [hblanks, hbreak] at h
    cases h

/-- At the end of a line the scanner goes on in the next one, where a key may come outside
brackets. -/
theorem skipToToken_lineFeed (hrest : scanner.cursor.rest = '\n' :: rest) :
    scanner.skipToToken =
      { scanner with
        cursor := scanner.cursor.newLine
        keyAllowed := scanner.keyAllowed || !scanner.inFlow : Scanner }.skipToToken := by
  have hmark : scanner.cursor.skipOrderMark = scanner.cursor := by
    simp [Cursor.skipOrderMark, hrest, isOrderMark]
  have hcomment (isBlank : Char → Bool) (hblank : isBlank '\n' = false) :
      scanner.cursor.skipOrderMark.skipComment isBlank = scanner.cursor := by
    rw [hmark, Cursor.skipComment_lineFeed hrest hblank]
  -- nothing to skip on the line, and then its break, behind which the scanner starts again
  have hblanks := hcomment
    (fun c => c == ' ' || ((scanner.inFlow || !scanner.keyAllowed) && c == '\t')) (by simp)
  rw [skipToToken]
  split
  · next h =>
    rw [hblanks, Cursor.passBreak?_eq hrest rfl (by decide)] at h
    cases h
  · next h =>
    rw [hblanks, Cursor.passBreak?_eq hrest rfl (by decide)] at h
    obtain ⟨-, rfl⟩ := Prod.mk.inj (Option.some.inj h)
    rfl

/-- The scanner in front of the next token. -/
def ready? (scanner : Scanner) : Option Scanner :=
  scanner.skipToToken.dropStaleKeys.map fun ready => ready.unrollWhile (ready.cursor.column < ·)

theorem run_of_token (hready : scanner.ready? = some ready) (hrest : ready.cursor.rest = c :: rest)
    (htoken : ready.takeToken c rest = some next)
    (hlength : next.cursor.length < scanner.cursor.length) : scanner.run = next.run := by
  obtain ⟨fresh, hfresh, rfl⟩ := Option.map_eq_some_iff.1 hready
  rw [run, hfresh]
  simp only [Option.bind_eq_bind, Option.bind_some]
  split
  · next h => exact absurd (hrest.symm.trans h) (List.cons_ne_nil c rest)
  · next h =>
    obtain ⟨rfl, rfl⟩ := List.cons.inj (hrest.symm.trans h)
    rw [htoken, Option.bind_some, dif_pos hlength]

theorem run_of_malformed (hready : scanner.ready? = some ready)
    (hrest : ready.cursor.rest = c :: rest) (htoken : ready.takeToken c rest = none) :
    scanner.run = none := by
  obtain ⟨fresh, hfresh, rfl⟩ := Option.map_eq_some_iff.1 hready
  rw [run, hfresh]
  simp only [Option.bind_eq_bind, Option.bind_some]
  split
  · next h => exact absurd (hrest.symm.trans h) (List.cons_ne_nil c rest)
  · next h =>
    obtain ⟨rfl, rfl⟩ := List.cons.inj (hrest.symm.trans h)
    rw [htoken, Option.bind_none]

theorem run_of_end (hready : scanner.ready? = some ready) (hrest : ready.cursor.rest = []) :
    scanner.run = ready.endDocument.map tokens := by
  obtain ⟨fresh, hfresh, rfl⟩ := Option.map_eq_some_iff.1 hready
  rw [run, hfresh]
  simp only [Option.bind_eq_bind, Option.bind_some]
  split
  · cases Scanner.endDocument _ <;> rfl
  · next h => exact absurd (h.symm.trans hrest) (List.cons_ne_nil _ _)

end Scanner

/-! ## Positions -/

def Item.token? : Item → Option Token
  | .token read => some read
  | .mark _ => none

theorem filterMap_token?_map (columns : List Nat) (token : Token) :
    (columns.map fun _ => Item.token token).filterMap Item.token? = columns.map fun _ => token := by
  induction columns with
  | nil => rfl
  | cons column columns ih => exact congrArg (token :: ·) ih

/-- What is left of a text, and what was read: the tokens come the latest first. -/
structure Position where
  rest : List Char
  column : Nat := 0
  keyAllowed : Bool := true
  /-- Nothing was read that a colon could make a key. -/
  keyless : Bool := true
  /-- The columns of the block collections that are open, the innermost first. -/
  columns : List Nat := []
  /-- How many brackets are open. -/
  depth : Nat := 0
  tokens : List Token := []

/-- The columns that a node needs in front of it to be inside the innermost block collection. -/
def Position.margin (position : Position) : Nat :=
  (position.columns.head?.map (· + 1)).getD 0

/-- A position at which a block mapping is open, outside brackets. -/
def Position.opened (position : Position) : Position :=
  if position.depth = 0 ∧ position.margin ≤ position.column then
    { position with
      columns := position.column :: position.columns
      tokens := .blockMappingStart :: position.tokens }
  else position

/-- A position at which the block collections are closed that start behind its column. -/
def Position.closed (position : Position) : Position :=
  if position.depth = 0 then
    { position with
      columns := position.columns.dropWhile (position.column < ·)
      tokens :=
        (position.columns.takeWhile (position.column < ·)).map (fun _ => .blockEnd) ++
          position.tokens }
  else position

namespace Position

variable (position : Position)

@[simp]
theorem rest_closed : position.closed.rest = position.rest := by
  rw [closed]
  split <;> rfl

@[simp]
theorem column_closed : position.closed.column = position.column := by
  rw [closed]
  split <;> rfl

@[simp]
theorem keyAllowed_closed : position.closed.keyAllowed = position.keyAllowed := by
  rw [closed]
  split <;> rfl

@[simp]
theorem keyless_closed : position.closed.keyless = position.keyless := by
  rw [closed]
  split <;> rfl

@[simp]
theorem depth_closed : position.closed.depth = position.depth := by
  rw [closed]
  split <;> rfl

end Position

namespace Scanner

variable {scanner ready next : Scanner} {position target : Position}

/-- The scanner is at a position, and no key has to come. -/
structure Stands (scanner : Scanner) (position : Position) : Prop where
  rest : scanner.cursor.rest = position.rest
  column : scanner.cursor.column = position.column
  keyAllowed : scanner.keyAllowed = position.keyAllowed
  columns : scanner.columns = position.columns
  keyless : position.keyless = true → scanner.key = none
  depth : scanner.outerKeys.length = position.depth
  optional : ∀ key ∈ scanner.key :: scanner.outerKeys, key.any (·.required) = false
  tokens : scanner.items.filterMap Item.token? = position.tokens

/-- Passing what is in front of the next token leads to a position. -/
def Lands (scanner : Scanner) (position : Position) : Prop :=
  ∃ ready, scanner.ready? = some ready ∧ ready.cursor.length ≤ scanner.cursor.length ∧
    ready.Stands position

/-- Taking some tokens leads to a position. -/
def Reaches (scanner : Scanner) (position : Position) : Prop :=
  ∃ next : Scanner, scanner.run = next.run ∧ next.Lands position

theorem keepFresh_optional {key : Option PossibleKey} (cursor : Cursor)
    (h : key.any (·.required) = false) :
    ∃ kept, keepFresh cursor key = some kept ∧ kept.any (·.required) = false ∧
      (key = none → kept = none) := by
  cases key with
  | none => exact ⟨none, rfl, rfl, id⟩
  | some key =>
    have hoptional : key.required = false := h
    rw [keepFresh, hoptional]
    split
    · exact ⟨some key, rfl, h, nofun⟩
    · exact ⟨none, rfl, rfl, nofun⟩

theorem mapM_keepFresh {keys : List (Option PossibleKey)} (cursor : Cursor)
    (h : ∀ key ∈ keys, key.any (·.required) = false) :
    ∃ kept, keys.mapM (keepFresh cursor) = some kept ∧ kept.length = keys.length ∧
      ∀ key ∈ kept, key.any (·.required) = false := by
  induction keys with
  | nil => exact ⟨[], rfl, rfl, h⟩
  | cons key keys ih =>
    obtain ⟨first, hfirst, hoptional, -⟩ := keepFresh_optional cursor (h key List.mem_cons_self)
    obtain ⟨kept, hkept, hlength, hall⟩ := ih fun other hother => h other (.tail key hother)
    refine ⟨first :: kept, ?_, by simp [hlength], List.forall_mem_cons.2 ⟨hoptional, hall⟩⟩
    rw [List.mapM_cons, hfirst, hkept]
    rfl

/-- A scanner that stands somewhere has no key to give up, and closes what starts further
behind. -/
theorem Stands.exists_ready (h : scanner.Stands position) :
    ∃ ready, scanner.dropStaleKeys.map
        (fun ready => ready.unrollWhile (ready.cursor.column < ·)) = some ready ∧
      ready.cursor = scanner.cursor ∧ ready.Stands position.closed := by
  obtain ⟨hkey, houter⟩ := List.forall_mem_cons.1 h.optional
  -- keys are optional here, so those that are too old go without an error
  obtain ⟨kept, hkept, hlength, hall⟩ := mapM_keepFresh scanner.cursor houter
  obtain ⟨key, hfresh, hfirst, hnone⟩ := keepFresh_optional scanner.cursor hkey
  have hdrop : scanner.dropStaleKeys = some { scanner with key, outerKeys := kept } := by
    rw [dropStaleKeys, hfresh, hkept]
    rfl
  by_cases hdepth : position.depth = 0
  · -- outside brackets the collections end that start further behind
    have hempty : kept = [] := List.eq_nil_of_length_eq_zero (by rw [hlength, h.depth, hdepth])
    subst hempty
    rw [hdrop, Position.closed, if_pos hdepth]
    refine ⟨_, rfl, rfl, ?_⟩
    exact {
      rest := h.rest
      column := h.column
      keyAllowed := h.keyAllowed
      columns := by simp [unrollWhile, inFlow, h.column, h.columns]
      keyless := fun hkeyless => hnone (h.keyless hkeyless)
      depth := hdepth.symm
      optional := List.forall_mem_cons.2 ⟨hfirst, hall⟩
      tokens := by
        simp only [unrollWhile, inFlow, List.isEmpty_nil, Bool.not_true, Bool.false_eq_true,
          if_false, List.filterMap_append, h.column, h.columns, h.tokens, filterMap_token?_map] }
  · -- in brackets nothing ends
    have hflow : { scanner with key, outerKeys := kept : Scanner }.inFlow = true := by
      rw [inFlow, Bool.not_eq_true', List.isEmpty_eq_false_iff]
      intro hempty
      refine hdepth (h.depth.symm.trans ?_)
      exact hlength.symm.trans (congrArg List.length hempty)
    rw [hdrop, Position.closed, if_neg hdepth]
    refine ⟨{ scanner with key, outerKeys := kept }, ?_, rfl, ?_⟩
    · rw [Option.map_some, unrollWhile, if_pos hflow]
    · exact {
        rest := h.rest
        column := h.column
        keyAllowed := h.keyAllowed
        columns := h.columns
        keyless := fun hkeyless => hnone (h.keyless hkeyless)
        depth := hlength.trans h.depth
        optional := List.forall_mem_cons.2 ⟨hfirst, hall⟩
        tokens := h.tokens }

theorem Stands.inFlow_eq (h : scanner.Stands position) :
    scanner.inFlow = (position.depth != 0) := by
  rw [inFlow, ← h.depth]
  cases scanner.outerKeys <;> rfl

theorem Stands.inFlow_eq_false (h : scanner.Stands position) (hdepth : position.depth = 0) :
    scanner.inFlow = false := by
  rw [h.inFlow_eq, hdepth]
  rfl

theorem Stands.key_optional (h : scanner.Stands position) :
    scanner.key.any (·.required) = false := h.optional _ List.mem_cons_self

theorem Stands.outerKeys_optional (h : scanner.Stands position) :
    ∀ key ∈ scanner.outerKeys, key.any (·.required) = false :=
  (List.forall_mem_cons.1 h.optional).2

theorem Stands.margin_eq (h : scanner.Stands position) : scanner.margin = position.margin := by
  rw [margin, Position.margin, h.columns]

/-- The next token is on the same line. -/
theorem Stands.lands (h : scanner.Stands position)
    (hrest : position.rest = List.replicate n ' ' ++ rest) (hstart : StartsToken rest) :
    scanner.Lands { position with rest, column := position.column + n : Position }.closed := by
  have hskip := skipToToken_spaces (h.rest.trans hrest) hstart
  have hstands : { scanner with cursor := scanner.cursor.advance n : Scanner }.Stands
      { position with rest, column := position.column + n } := {
    h with
    rest := by rw [Cursor.rest_advance, h.rest, hrest, drop_spaces]
    column := by rw [Cursor.column_advance, h.column] }
  obtain ⟨ready, hready, hcursor, hplace⟩ := hstands.exists_ready
  refine ⟨ready, ?_, ?_, hplace⟩
  · rw [ready?, hskip, hready]
  · rw [hcursor]
    exact Cursor.length_advance_le _ _

/-- The next token is on the next line, where a key may come outside brackets. -/
theorem Stands.lands_next_line (h : scanner.Stands position)
    (hrest : position.rest = '\n' :: (List.replicate n ' ' ++ rest)) (hstart : StartsToken rest) :
    scanner.Lands { position with
      rest
      column := n
      keyAllowed := position.keyAllowed || position.depth == 0 : Position }.closed := by
  have hline := h.rest.trans hrest
  have htail : scanner.cursor.newLine.rest = List.replicate n ' ' ++ rest := by
    rw [Cursor.newLine, hline, List.tail_cons]
  -- the scanner at the start of the next line, where a key may come
  have hstands : { scanner with
      cursor := scanner.cursor.newLine
      keyAllowed := scanner.keyAllowed || !scanner.inFlow : Scanner }.Stands
      { position with
        rest := List.replicate n ' ' ++ rest
        column := 0
        keyAllowed := position.keyAllowed || position.depth == 0 } := {
    h with
    rest := htail
    column := rfl
    keyAllowed := by
      rw [h.keyAllowed, h.inFlow_eq, bne, Bool.not_not] }
  obtain ⟨ready, hready, hlength, hplace⟩ := hstands.lands rfl hstart
  refine ⟨ready, ?_, ?_, ?_⟩
  · rw [ready?, skipToToken_lineFeed hline]
    exact hready
  · refine Nat.le_trans hlength ?_
    simp only [Cursor.length, htail, hline, List.length_cons]
    exact Nat.le_succ _
  · rwa [Nat.zero_add] at hplace

/-! ## Taking tokens -/

/-- Taking some tokens leads to a position, with nothing passed behind the last of them. -/
def Comes (scanner : Scanner) (position : Position) : Prop :=
  ∃ next : Scanner, scanner.run = next.run ∧ next.Stands position

theorem Comes.spaces (h : scanner.Comes position)
    (hrest : position.rest = List.replicate n ' ' ++ rest) (hstart : StartsToken rest) :
    scanner.Reaches { position with rest, column := position.column + n : Position }.closed := by
  obtain ⟨next, hrun, hstands⟩ := h
  exact ⟨next, hrun, hstands.lands hrest hstart⟩

theorem Comes.here (h : scanner.Comes position) (hstart : StartsToken position.rest) :
    scanner.Reaches position.closed :=
  h.spaces (n := 0) rfl hstart

theorem Comes.next_line (h : scanner.Comes position)
    (hrest : position.rest = '\n' :: (List.replicate n ' ' ++ rest)) (hstart : StartsToken rest) :
    scanner.Reaches { position with
      rest
      column := n
      keyAllowed := position.keyAllowed || position.depth == 0 : Position }.closed := by
  obtain ⟨next, hrun, hstands⟩ := h
  exact ⟨next, hrun, hstands.lands_next_line hrest hstart⟩

/-- Some scanner stands at a position that is reached, and what it makes of the next token
decides. -/
theorem Reaches.exists_stands (h : scanner.Reaches position) (hrest : position.rest = c :: rest) :
    ∃ ready : Scanner, ready.Stands position ∧
      (ready.takeToken c rest = none → scanner.run = none) ∧
      ∀ {next target}, ready.takeToken c rest = some next →
        next.cursor.length < ready.cursor.length → next.Comes target → scanner.Comes target := by
  obtain ⟨before, hrun, ready, hready, hlength, hstands⟩ := h
  refine ⟨ready, hstands, fun hnone => ?_, fun htake hless hnext => ?_⟩
  · rw [hrun, run_of_malformed hready (hstands.rest.trans hrest) hnone]
  · obtain ⟨last, hnext, hlast⟩ := hnext
    refine ⟨last, ?_, hlast⟩
    rw [hrun, run_of_token hready (hstands.rest.trans hrest) htake
      (Nat.lt_of_lt_of_le hless hlength), hnext]

/-- The next token is taken wherever the scanner stands. -/
theorem Reaches.comes (h : scanner.Reaches position) (hrest : position.rest = c :: rest)
    (htoken : ∀ {ready : Scanner}, ready.Stands position → ∃ next,
      ready.takeToken c rest = some next ∧ next.cursor.length < ready.cursor.length ∧
        next.Comes target) :
    scanner.Comes target := by
  obtain ⟨ready, hstands, -, hgo⟩ := h.exists_stands hrest
  obtain ⟨next, htake, hless, hnext⟩ := htoken hstands
  exact hgo htake hless hnext

/-- Where no token can be taken, the text is malformed. -/
theorem Reaches.run_eq_none (h : scanner.Reaches position) (hrest : position.rest = c :: rest)
    (htoken : ∀ {ready : Scanner}, ready.Stands position → ready.takeToken c rest = none) :
    scanner.run = none := by
  obtain ⟨ready, hstands, hnone, -⟩ := h.exists_stands hrest
  exact hnone (htoken hstands)

/-- The scanner behind a token that is no key. -/
theorem Stands.emitted {token : Token} {cursor : Cursor} {keyAllowed allowed : Bool}
    (h : scanner.Stands position) (hrest : cursor.rest = rest) (hcolumn : cursor.column = n)
    (hallowed : keyAllowed = allowed) :
    { scanner.emit token with cursor, keyAllowed : Scanner }.Stands { position with
      rest
      column := n
      keyAllowed := allowed
      tokens := token :: position.tokens } := {
  h with
  rest := hrest
  column := hcolumn
  keyAllowed := hallowed
  tokens := congrArg (token :: ·) h.tokens }

/-! ## Keys -/

/-- The next token is no key. -/
theorem startNode_of_no_key (h : scanner.keyAllowed = false) :
    scanner.startNode = some scanner := by
  rw [startNode, h, if_neg Bool.false_ne_true]

/-- The next token may be a key. -/
theorem startNode_eq (h : scanner.keyAllowed = true)
    (hkey : scanner.key.any (·.required) = false) :
    scanner.startNode = some {
      scanner with
      items := .mark scanner.cursor.index :: scanner.items
      key := some {
        required := !scanner.inFlow && scanner.columns.head? == some scanner.cursor.column
        index := scanner.cursor.index
        line := scanner.cursor.line
        column := scanner.cursor.column } } := by
  rw [startNode, if_pos h, dropKey, hkey]
  rfl

theorem Stands.dropKey_eq (h : scanner.Stands position) :
    scanner.dropKey = some { scanner with key := none } := by
  rw [dropKey, h.key_optional]
  rfl

/-- The scanner is behind a token that may be a key, which was taken at a position. -/
structure Names (scanner : Scanner) (position : Position) (token : Token) (rest : List Char)
    (column : Nat) : Prop where
  rest : scanner.cursor.rest = rest
  column : scanner.cursor.column = column
  columns : scanner.columns = position.columns
  depth : scanner.outerKeys.length = position.depth
  optional : ∀ key ∈ scanner.outerKeys, key.any (·.required) = false
  key : ∃ (key : PossibleKey) (items : List Item), scanner.key = some key ∧
    key.isFresh scanner.cursor = true ∧ key.column = position.column ∧
    scanner.items = .token token :: .mark key.index :: items ∧
    items.filterMap Item.token? = position.tokens

section Names

variable {token : Token} {after : List Char} {column : Nat}

theorem Names.inFlow_eq (h : scanner.Names position token rest column) :
    scanner.inFlow = (position.depth != 0) := by
  rw [inFlow, ← h.depth]
  cases scanner.outerKeys <;> rfl

/-- In front of the next token the key is still there. -/
theorem Names.exists_ready (h : scanner.Names position token rest column)
    (hstart : StartsToken rest)
    (hcolumns : position.depth = 0 → ∀ opened ∈ position.columns.head?, opened ≤ column) :
    ∃ ready, scanner.ready? = some ready ∧ ready.cursor = scanner.cursor ∧
      ready.Names position token rest column := by
  obtain ⟨key, items, hkey, hfresh, hrest⟩ := h.key
  obtain ⟨kept, hkept, hlength, hall⟩ := mapM_keepFresh scanner.cursor h.optional
  have hskip : scanner.skipToToken = scanner := skipToToken_spaces (n := 0) h.rest hstart
  -- the key of this name is fresh and stays; only older ones may go
  have hfreshKey : keepFresh scanner.cursor scanner.key = some scanner.key := by
    rw [hkey, keepFresh, if_pos hfresh]
  have hdrop : scanner.dropStaleKeys = some { scanner with outerKeys := kept } := by
    rw [dropStaleKeys, hfreshKey, hkept]
    rfl
  have hnames : { scanner with outerKeys := kept : Scanner }.Names position token rest column := {
    h with
    depth := hlength.trans h.depth
    optional := hall }
  refine ⟨{ scanner with outerKeys := kept }, ?_, rfl, hnames⟩
  rw [ready?, hskip, hdrop, Option.map_some, unrollWhile, hnames.inFlow_eq]
  by_cases hdepth : position.depth = 0
  · -- nothing is open that starts further behind
    have hopen : position.columns.takeWhile (column < ·) = [] ∧
        position.columns.dropWhile (column < ·) = position.columns := by
      have hhead := hcolumns hdepth
      cases hcons : position.columns with
      | nil => exact ⟨rfl, rfl⟩
      | cons first columns =>
        rw [hcons] at hhead
        simp [Nat.not_lt.2 (hhead first rfl)]
    simp [hdepth, h.columns, h.column, hopen]
  · simp [hdepth]

/-- A colon makes a key of the token, and opens a mapping where none is open. -/
theorem Names.takeColon_eq (h : scanner.Names position token (':' :: after) column) :
    ∃ next, scanner.takeColon = some next ∧ next.cursor = scanner.cursor.advance 1 ∧
      next.Stands { position.opened with
        rest := after
        column := column + 1
        keyAllowed := false
        keyless := true
        tokens := .value :: token :: .key :: position.opened.tokens } := by
  obtain ⟨key, items, hkey, -, hstart, hitems, htokens⟩ := h.key
  have hmargin : scanner.margin = position.margin := by
    rw [margin, Position.margin, h.columns]
  -- the mark in front of the token becomes what belongs there
  have hconfirm (tokens : List Token) : Item.confirm key.index tokens scanner.items =
      .token token :: (tokens.reverse.map .token ++ items) := by
    rw [hitems]
    simp [Item.confirm]
  rw [takeColon, hkey]
  dsimp only
  rw [roll, h.inFlow_eq, hmargin, hstart]
  by_cases hopen : position.depth = 0 ∧ position.margin ≤ position.column
  · -- the key is inside everything that is open, so a mapping begins with it
    rw [if_pos (by simp [hopen])]
    refine ⟨_, rfl, rfl, ?_⟩
    rw [Position.opened, if_pos hopen]
    exact {
      rest := by simp [take, emit, h.rest]
      column := by simp [take, emit, h.column]
      keyAllowed := rfl
      columns := by simp [take, emit, h.columns]
      keyless := fun _ => rfl
      depth := h.depth
      optional := List.forall_mem_cons.2 ⟨rfl, h.optional⟩
      tokens := by simp [take, emit, hconfirm, Item.token?, htokens] }
  · rw [if_neg (by simpa using hopen)]
    refine ⟨_, rfl, rfl, ?_⟩
    rw [Position.opened, if_neg hopen]
    exact {
      rest := by simp [take, emit, h.rest]
      column := by simp [take, emit, h.column]
      keyAllowed := rfl
      columns := h.columns
      keyless := fun _ => rfl
      depth := h.depth
      optional := List.forall_mem_cons.2 ⟨rfl, h.optional⟩
      tokens := by simp [take, emit, hconfirm, Item.token?, htokens] }

/-- With a colon behind it the token is a key. -/
theorem Names.colon (h : scanner.Names position token (':' :: after) column)
    (hafter : position.depth ≠ 0 ∨ endsWord after = true)
    (hcolumns : position.depth = 0 → ∀ opened ∈ position.columns.head?, opened ≤ column) :
    scanner.Comes { position.opened with
      rest := after
      column := column + 1
      keyAllowed := false
      keyless := true
      tokens := .value :: token :: .key :: position.opened.tokens } := by
  obtain ⟨ready, hready, hcursor, hnames⟩ :=
    h.exists_ready (by rintro c ⟨⟩; decide) hcolumns
  obtain ⟨next, hcolon, hnext, hstands⟩ := hnames.takeColon_eq
  -- the colon ends the name, so it is the mark of a value
  have htake : ready.takeToken ':' after = ready.takeColon := by
    have hends : (ready.inFlow || endsWord after) = true := by
      rw [hnames.inFlow_eq]
      rcases hafter with hdepth | hends
      · simp [hdepth]
      · simp [hends]
    simp [takeToken, Cursor.atDocumentSeparator, hnames.rest, atSeparator, hends]
  refine ⟨next, run_of_token hready hnames.rest (htake.trans hcolon) ?_, hstands⟩
  rw [hnext, ← hcursor]
  exact Cursor.length_advance_lt hnames.rest 0

end Names

/-- At the end of the text everything that is open is closed. -/
theorem Reaches.run_eq (h : scanner.Reaches position) (hrest : position.rest = [])
    (hdepth : position.depth = 0) :
    scanner.run =
      some (position.columns.map (fun _ => Token.blockEnd) ++ position.tokens).reverse := by
  obtain ⟨before, hrun, ready, hready, -, hstands⟩ := h
  have hflow : ready.inFlow = false := hstands.inFlow_eq_false hdepth
  -- at the end all open collections are closed, whatever their columns
  have hend : ready.endDocument = some {
      ready with
      columns := []
      keyAllowed := false
      key := none
      items := ready.columns.map (fun _ => .token .blockEnd) ++ ready.items } := by
    have hall (columns : List Nat) : columns.takeWhile (fun _ => true) = columns ∧
        columns.dropWhile (fun _ => true) = [] := by
      induction columns with
      | nil => exact ⟨rfl, rfl⟩
      | cons column columns ih => simp [ih]
    rw [endDocument, unrollWhile, hflow, if_neg Bool.false_ne_true]
    simp [dropKey, hstands.key_optional, hall]
  rw [hrun, run_of_end hready (hstands.rest.trans hrest), hend, Option.map_some]
  have htokens (scanner : Scanner) :
      scanner.tokens = (scanner.items.filterMap Item.token?).reverse := by
    rw [tokens, List.filterMap_reverse]
    rfl
  rw [htokens, List.filterMap_append, hstands.tokens, hstands.columns, filterMap_token?_map]

/-- The scanner of a text begins at its start. -/
theorem reaches_start (hrest : StartsToken rest) :
    { cursor := { rest } : Scanner }.Reaches { rest } := by
  have hstands : { cursor := { rest } : Scanner }.Stands { rest } :=
    ⟨rfl, rfl, rfl, rfl, fun _ => rfl, rfl, by simp, rfl⟩
  exact ⟨_, rfl, hstands.lands (n := 0) rfl hrest⟩

end Scanner

end Locator.Yaml
