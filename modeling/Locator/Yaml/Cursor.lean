/-!
# Reading positions in YAML text

The characters that YAML text may hold, and a cursor that knows its line and column. Every function
that moves a cursor leaves at most the text that was there; what makes a reading loop end is a lemma
on `Cursor.length`.
-/

namespace Locator.Yaml

/-! ## Characters -/

/-- The characters that end a line. -/
def isBreak (c : Char) : Bool :=
  c == '\n' || c == '\r' || c == '\x85' || c == '\u2028' || c == '\u2029'

/-- The characters that separate words on a line. -/
def isSpace (c : Char) : Bool :=
  c == ' ' || c == '\t'

/-- A mark of the byte order, which may stand in front of a line. -/
def isOrderMark (c : Char) : Bool :=
  c == '\ufeff'

/-- The characters of names: of anchors, directives and tag handles. -/
def isNameChar (c : Char) : Bool :=
  c.isAlphanum || c == '_' || c == '-'

/-- The characters that may stand in a document. -/
def isAllowed (c : Char) : Bool :=
  c == '\t' || c == '\n' || c == '\r' || (' ' ≤ c && c ≤ '~') || c == '\x85' ||
    ('\xa0' ≤ c && c ≤ '\ud7ff') || ('\ue000' ≤ c && c ≤ '\ufffd') || 0x10000 ≤ c.toNat

/-- Nothing, a space or a break stands at the front: what is in front of it ends here. -/
def endsWord : List Char → Bool
  | [] => true
  | c :: _ => isSpace c || isBreak c

/-- Three dashes or dots on their own separate documents. -/
def atSeparator : List Char → Bool
  | '-' :: '-' :: '-' :: rest => endsWord rest
  | '.' :: '.' :: '.' :: rest => endsWord rest
  | _ => false

/-! ## Cursors -/

/-- The text that is left, and where it starts. -/
structure Cursor where
  rest : List Char
  index : Nat := 0
  line : Nat := 0
  column : Nat := 0
  deriving Repr

namespace Cursor

def length (cursor : Cursor) : Nat := cursor.rest.length

/-- Passes characters of the same line. -/
def advance (cursor : Cursor) (count : Nat) : Cursor :=
  { cursor with
    rest := cursor.rest.drop count
    index := cursor.index + count
    column := cursor.column + count }

/-- The characters up to the first one that is not wanted. -/
def taken (cursor : Cursor) (wanted : Char → Bool) : List Char :=
  cursor.rest.takeWhile wanted

/-- Passes the characters up to the first one that is not wanted. -/
def skipWhile (cursor : Cursor) (wanted : Char → Bool) : Cursor :=
  cursor.advance (cursor.taken wanted).length

/-- Passes a mark of the byte order at the start of a line. It takes a column. -/
def skipOrderMark (cursor : Cursor) : Cursor :=
  if cursor.column == 0 && cursor.rest.head?.any isOrderMark then cursor.advance 1 else cursor

/-- Passes blanks, and a comment, up to the end of the line. -/
def skipComment (cursor : Cursor) (isBlank : Char → Bool) : Cursor :=
  let spaced := cursor.skipWhile isBlank
  if spaced.rest.head? == some '#' then spaced.skipWhile (!isBreak ·) else spaced

/-- Passes the end of a line; gives the break as it is kept in a text, where the ways of ending a
line with a carriage return, a line feed or a next-line character are one. -/
def passBreak? (cursor : Cursor) : Option (Char × Cursor) :=
  let next (count : Nat) (rest : List Char) : Cursor :=
    { rest, index := cursor.index + count, line := cursor.line + 1, column := 0 }
  match cursor.rest with
  | '\r' :: '\n' :: rest => some ('\n', next 2 rest)
  | c :: rest =>
    if c == '\u2028' || c == '\u2029' then some (c, next 1 rest)
    else if isBreak c then some ('\n', next 1 rest)
    else none
  | [] => none

/-- Passes the end of a line if it comes next; gives the break as it is kept. -/
def passLineEnd (cursor : Cursor) : Option Char × Cursor :=
  match cursor.passBreak? with
  | some (kept, next) => (some kept, next)
  | none => (none, cursor)

/-- A separator of documents stands at the start of the line. -/
def atDocumentSeparator (cursor : Cursor) : Bool :=
  cursor.column == 0 && atSeparator cursor.rest

@[simp]
theorem length_advance (cursor : Cursor) (count : Nat) :
    (cursor.advance count).length = cursor.length - count := by
  simp [length, advance]

theorem length_advance_le (cursor : Cursor) (count : Nat) :
    (cursor.advance count).length ≤ cursor.length := by
  rw [length_advance]
  omega

/-- Where text is left, passing characters leaves less. -/
theorem length_advance_lt {cursor : Cursor} {c : Char} {rest : List Char}
    (h : cursor.rest = c :: rest) (count : Nat) :
    (cursor.advance (count + 1)).length < cursor.length := by
  rw [length_advance, length, h, List.length_cons]
  omega

theorem length_skipWhile_le (cursor : Cursor) (wanted : Char → Bool) :
    (cursor.skipWhile wanted).length ≤ cursor.length :=
  length_advance_le ..

theorem length_skipOrderMark_le (cursor : Cursor) :
    cursor.skipOrderMark.length ≤ cursor.length := by
  simp only [skipOrderMark]
  split
  · exact length_advance_le ..
  · exact Nat.le_refl _

theorem length_skipComment_le (cursor : Cursor) (isBlank : Char → Bool) :
    (cursor.skipComment isBlank).length ≤ cursor.length := by
  have hspaced := length_skipWhile_le cursor isBlank
  simp only [skipComment]
  split
  · exact Nat.le_trans (length_skipWhile_le ..) hspaced
  · exact hspaced

theorem length_of_passBreak? {cursor next : Cursor} {c : Char}
    (h : cursor.passBreak? = some (c, next)) : next.length < cursor.length := by
  simp only [passBreak?] at h
  split at h
  · next hrest =>
    obtain ⟨-, rfl⟩ := Prod.mk.inj (Option.some.inj h)
    simp only [length, hrest, List.length_cons]
    omega
  · next hrest =>
    simp only [length, hrest, List.length_cons]
    split at h
    · obtain ⟨-, rfl⟩ := Prod.mk.inj (Option.some.inj h)
      simp
    · split at h
      · obtain ⟨-, rfl⟩ := Prod.mk.inj (Option.some.inj h)
        simp
      · exact nomatch h
  · exact nomatch h

theorem passBreak?_isSome {cursor : Cursor} {c : Char} {rest : List Char}
    (h : cursor.rest = c :: rest) (hc : isBreak c) : cursor.passBreak?.isSome := by
  simp only [passBreak?, h]
  split
  · rfl
  · next heq =>
    obtain ⟨rfl, rfl⟩ := List.cons.inj heq
    simp only [hc, if_true]
    split <;> rfl
  · next heq => exact nomatch heq

theorem length_passLineEnd_le (cursor : Cursor) :
    cursor.passLineEnd.2.length ≤ cursor.length := by
  simp only [passLineEnd]
  split
  · next h => exact Nat.le_of_lt (length_of_passBreak? h)
  · exact Nat.le_refl _

end Cursor

end Locator.Yaml
