import Locator.Proofs.Text.Trimming
import Locator.Proofs.Yaml.Scanning
import Mathlib.Data.List.TakeWhile

/-!
# Gaps between words

* `scanGap_space`, `scanGap_break`: one character of a gap
* `scanGap_within`: spaces on one line
* `scanGap_run`: any spaces and breaks
* `exists_word`: a text up to its first gap
-/

namespace Locator.Yaml

variable {cursor : Cursor} {rest after text spaces run : List Char} {c : Char} {n margin : Nat}

theorem scanGap_of_stop (gap : Gap)
    (hrest : ∀ c ∈ cursor.rest.head?, isSpace c = false ∧ isBreak c = false) :
    scanGap margin gap cursor = some (gap, cursor) := by
  rw [scanGap]
  split
  · rfl
  · next c tail hcons =>
    have hc := hrest c (by rw [hcons]; rfl)
    rw [hc.1, if_neg Bool.false_ne_true]
    have hbreak : cursor.passBreak? = none :=
      Cursor.passBreak?_eq_none fun c hc => (hrest c hc).2
    split
    · rfl
    · next h =>
      rw [hbreak] at h
      cases h

/-- A space or a tab on the line. -/
theorem scanGap_blank (front : List Char) (hc : isSpace c = true)
    (hrest : cursor.rest = c :: rest) :
    scanGap margin (.within front) cursor =
      scanGap margin (.within (front ++ [c])) (cursor.advance 1) := by
  rw [scanGap]
  split
  · next hnil => exact absurd (hrest.symm.trans hnil) (List.cons_ne_nil _ _)
  · next d tail hcons =>
    obtain ⟨rfl, -⟩ := List.cons.inj (hrest.symm.trans hcons)
    rw [if_pos hc]

theorem scanGap_within (front : List Char) (hspaces : ∀ c ∈ spaces, isSpace c = true)
    (hrest : cursor.rest = spaces ++ after)
    (hafter : ∀ c ∈ after.head?, isSpace c = false ∧ isBreak c = false) :
    scanGap margin (.within front) cursor =
      some (.within (front ++ spaces), cursor.advance spaces.length) := by
  induction spaces generalizing front cursor with
  | nil =>
    rw [List.append_nil, List.length_nil, Cursor.advance_zero]
    exact scanGap_of_stop _ (by rwa [hrest])
  | cons c spaces ih =>
    have hnext : (cursor.advance 1).rest = spaces ++ after := by
      rw [Cursor.rest_advance, hrest]
      rfl
    rw [scanGap_blank front (hspaces c List.mem_cons_self) hrest,
      ih (front ++ [c]) (fun d hd => hspaces d (.tail c hd)) hnext, List.append_assoc]
    simp [Cursor.advance, Nat.add_assoc, Nat.add_comm 1]

/-- A character of a gap: a space, or a break of one character. -/
def IsGap (c : Char) : Prop := c = ' ' ∨ isBreak c = true ∧ c ≠ '\r'

theorem ne_space_of_isBreak (h : isBreak c = true) : isSpace c = false ∧ c ≠ ' ' := by
  have hne (d : Char) (hd : isBreak d = false) : c ≠ d := by
    rintro rfl
    rw [hd] at h
    cases h
  simp [isSpace, hne ' ' rfl, hne '\t' rfl]

/-- A gap with one more character. -/
def Gap.passed (gap : Gap) (c : Char) : Gap :=
  match gap with
  | .within spaces =>
    if c = ' ' then .within (spaces ++ [c]) else .across (some (Cursor.keptBreak c)) []
  | .across first later =>
    if c = ' ' then gap else .across first (later ++ [Cursor.keptBreak c])

/-- The column behind a character of a gap. -/
def columnBehind (column : Nat) (c : Char) : Nat := if c = ' ' then column + 1 else 0

theorem scanGap_space (gap : Gap) (hrest : cursor.rest = ' ' :: rest) :
    scanGap margin gap cursor = scanGap margin (gap.passed ' ') (cursor.advance 1) := by
  cases gap with
  | within front => exact scanGap_blank front rfl hrest
  | across first later =>
    rw [scanGap]
    split
    · next hnil => exact absurd (hrest.symm.trans hnil) (List.cons_ne_nil _ _)
    · next d tail hcons =>
      obtain ⟨rfl, -⟩ := List.cons.inj (hrest.symm.trans hcons)
      rw [if_pos (by decide)]
      rfl

theorem scanGap_break (gap : Gap) (hbreak : isBreak c = true) (hreturn : c ≠ '\r')
    (hrest : cursor.rest = c :: rest) :
    scanGap margin gap cursor = scanGap margin (gap.passed c) cursor.newLine := by
  obtain ⟨hspace, hne⟩ := ne_space_of_isBreak hbreak
  have hpass := Cursor.passBreak?_eq hrest hbreak hreturn
  rw [scanGap]
  split
  · next hnil => exact absurd (hrest.symm.trans hnil) (List.cons_ne_nil _ _)
  · next d tail hcons =>
    obtain ⟨rfl, -⟩ := List.cons.inj (hrest.symm.trans hcons)
    rw [hspace, if_neg Bool.false_ne_true]
    split
    · next h =>
      rw [hpass] at h
      cases h
    · next h =>
      rw [hpass] at h
      obtain ⟨rfl, rfl⟩ := Prod.mk.inj (Option.some.inj h)
      cases gap <;> simp [Gap.passed, hne]

/-- A gap is passed one character after the other. -/
theorem scanGap_run (margin : Nat) (gap : Gap) (hrun : ∀ c ∈ run, IsGap c)
    (hrest : cursor.rest = run ++ after)
    (hafter : ∀ c ∈ after.head?, isSpace c = false ∧ isBreak c = false) :
    ∃ next, scanGap margin gap cursor = some (run.foldl Gap.passed gap, next) ∧
      next.rest = after ∧ next.column = run.foldl columnBehind cursor.column := by
  -- the gap and the column change with each character, the scanner takes one at a time
  induction run generalizing gap cursor with
  | nil => exact ⟨cursor, scanGap_of_stop gap (by rwa [hrest]), hrest, rfl⟩
  | cons c run ih =>
    have hmore (d : Char) (hd : d ∈ run) := hrun d (.tail c hd)
    obtain rfl | ⟨hbreak, hreturn⟩ := hrun c List.mem_cons_self
    · have hnext : (cursor.advance 1).rest = run ++ after := by
        rw [Cursor.rest_advance, hrest]
        rfl
      obtain ⟨next, hscan, hlast, hcolumn⟩ := ih (gap.passed ' ') hmore hnext
      exact ⟨next, (scanGap_space gap hrest).trans hscan, hlast, hcolumn⟩
    · have hnext : cursor.newLine.rest = run ++ after := by
        rw [Cursor.newLine, hrest]
        rfl
      obtain ⟨next, hscan, hlast, hcolumn⟩ := ih (gap.passed c) hmore hnext
      refine ⟨next, (scanGap_break gap hbreak hreturn hrest).trans hscan, hlast, ?_⟩
      rw [hcolumn, List.foldl_cons, columnBehind, if_neg (ne_space_of_isBreak hbreak).2]
      rfl

/-- Spaces behind a break are dropped. -/
theorem foldl_passed_spaces (first : Option Char) (later : List Char) :
    (List.replicate n ' ').foldl Gap.passed (.across first later) = .across first later := by
  induction n with
  | zero => rfl
  | succ n ih => exact ih

theorem foldl_columnBehind_spaces (column : Nat) :
    (List.replicate n ' ').foldl columnBehind column = column + n := by
  induction n generalizing column with
  | zero => rfl
  | succ n ih =>
    rw [List.replicate_succ, List.foldl_cons, ih, columnBehind, if_pos rfl]
    omega

/-- The end of a line and the indentation of the next one. -/
theorem scanGap_next_line (margin : Nat)
    (hrest : cursor.rest = '\n' :: (List.replicate n ' ' ++ after))
    (hafter : StartsToken after) :
    ∃ next, scanGap margin (.within []) cursor = some (.across (some '\n') [], next) ∧
      next.rest = after ∧ next.column = n := by
  have hrun : ∀ c ∈ '\n' :: List.replicate n ' ', IsGap c := by
    rintro c (_ | ⟨_, hc⟩)
    · exact .inr ⟨rfl, by decide⟩
    · exact .inl (List.eq_of_mem_replicate hc)
  have hstop : ∀ c ∈ after.head?, isSpace c = false ∧ isBreak c = false :=
    fun c hc => ⟨(hafter c hc).1, (hafter c hc).2.1⟩
  obtain ⟨next, hscan, hnext, hcolumn⟩ := scanGap_run margin (.within []) hrun hrest hstop
  refine ⟨next, hscan.trans ?_, hnext, hcolumn.trans ?_⟩
  · rw [List.foldl_cons]
    exact congrArg (fun gap => some (gap, next)) (foldl_passed_spaces (some '\n') [])
  · rw [List.foldl_cons]
    exact (foldl_columnBehind_spaces 0).trans (Nat.zero_add n)

/-! ## Words -/

/-- A text that does not start with a blank begins with a word, and where there is more, with blanks
behind the word. What a blank is may be chosen. -/
theorem exists_word {isBlank : Char → Bool} (hhead : ∀ c ∈ text.head?, isBlank c = false)
    (hne : text ≠ []) (hlast : ∀ c ∈ text.getLast?, isBlank c = false) :
    ∃ word, word ≠ [] ∧ (∀ c ∈ word, isBlank c = false) ∧
      (text = word ∨ ∃ blanks more, text = word ++ (blanks ++ more) ∧ blanks ≠ [] ∧ more ≠ [] ∧
        (∀ c ∈ blanks, isBlank c = true) ∧ ∀ c ∈ more.head?, isBlank c = false) := by
  have hword : ∀ c ∈ text.takeWhile (!isBlank ·), isBlank c = false := by
    intro c hc
    simpa using List.all_eq_true.1 List.all_takeWhile c hc
  have hsplit : text.takeWhile (!isBlank ·) ++ text.dropWhile (!isBlank ·) = text :=
    List.takeWhile_append_dropWhile
  have hback : ∀ c ∈ (text.dropWhile (!isBlank ·)).head?, isBlank c = true := by
    intro c hc
    simpa using Text.head?_dropWhile c hc
  refine ⟨text.takeWhile (!isBlank ·), ?_, hword, ?_⟩
  · cases text with
    | nil => exact absurd rfl hne
    | cons c text => simp [hhead c rfl]
  generalize text.takeWhile (!isBlank ·) = word at hsplit hword
  generalize text.dropWhile (!isBlank ·) = back at hsplit hback
  cases back with
  | nil => exact .inl (by rw [← hsplit, List.append_nil])
  | cons c back =>
    refine .inr ⟨(c :: back).takeWhile isBlank, (c :: back).dropWhile isBlank, ?_, ?_, ?_, ?_, ?_⟩
    · rw [List.takeWhile_append_dropWhile, hsplit]
    · simp [hback c rfl]
    · -- the text would end with a blank
      intro hnil
      have hall : ∀ d ∈ c :: back, isBlank d = true := List.dropWhile_eq_nil_iff.1 hnil
      have hend : (c :: back).getLast? = some ((c :: back).getLast (List.cons_ne_nil c back)) :=
        List.getLast?_eq_some_getLast _
      have hfalse := hlast _ (by rw [← hsplit, List.getLast?_append, hend]; rfl)
      rw [hall _ (List.getLast_mem _)] at hfalse
      cases hfalse
    · exact fun d hd => List.all_eq_true.1 List.all_takeWhile d hd
    · exact Text.head?_dropWhile

end Locator.Yaml
