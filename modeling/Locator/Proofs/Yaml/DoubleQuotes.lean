import Locator.Proofs.Text.Number
import Locator.Proofs.Yaml.Quotes
import Locator.Yaml.Printer

/-!
# Double quotes

Between double quotes a character is written as itself or as an escape. Any way to write the
characters one by one is read back, up to the breaks that are not escaped.

* `denotes_escaped`: what is printed for a character is read as the character
* `rereads`: what reading a text comes to whose characters are escaped one by one
* `scanQuoted_doubleQuoted`: a text as it is printed is read as it was
-/

namespace Locator.Yaml

variable {cursor next : Cursor} {rest after text run : List Char} {c : Char} {n : Nat}

/-! ## Escapes -/

/-- The characters of escapes. -/
def IsEscapeChar (c : Char) : Prop :=
  isSpace c = false ∧ isBreak c = false ∧ isAllowed c = true

instance : DecidablePred IsEscapeChar := fun _ => inferInstanceAs (Decidable (_ ∧ _ ∧ _))

/-- In double quotes something is read as a character: the character itself, or an escape. -/
def Denotes (written : List Char) (c : Char) : Prop :=
  (written = [c] ∧ c ≠ '"' ∧ c ≠ '\\') ∨
    ∃ first escape, written = '\\' :: first :: escape ∧
      (∀ d ∈ first :: escape, IsEscapeChar d) ∧
      ∀ after, unescape? (first :: escape ++ after) = some (c, escape.length + 1)

theorem charOf?_toNat (c : Char) : charOf? c.toNat = some c := by
  have hvalid : c.toNat.isValidChar := c.valid
  rw [charOf?, dif_pos hvalid]
  rfl

theorem numbered_append {width : Nat} {digits : List Char} (hlength : digits.length = width)
    (hnumber : Text.number? 16 digits = some c.toNat) (after : List Char) :
    unescape?.numbered width (digits ++ after) = some (c, width + 1) := by
  have htake : (digits ++ after).take width = digits := by
    rw [← hlength, List.take_left]
  rw [unescape?.numbered, htake]
  simp [hlength, hnumber, charOf?_toNat]

theorem isEscapeChar_of_digitValue? (h : (Text.digitValue? c).isSome = true) : IsEscapeChar c := by
  have hne (d : Char) (hd : Text.digitValue? d = none) : c ≠ d := by
    rintro rfl
    rw [hd] at h
    cases h
  -- digits and letters are in the printable range, where all characters are allowed
  have hbounds : ' ' ≤ c ∧ c ≤ '~' := by
    have hle (a b : Char) : a ≤ b ↔ a.toNat ≤ b.toNat := Iff.rfl
    have hspace : ' '.toNat = 32 := rfl
    have htilde : '~'.toNat = 126 := rfl
    rw [hle, hle]
    rw [Text.digitValue?] at h
    split at h
    · next hdigit =>
      have hcode := Text.toNat_le_of_isDigit hdigit
      omega
    split at h
    · next hletter =>
      have hcode : 97 ≤ c.toNat ∧ c.toNat ≤ 102 := by simpa [hle] using hletter
      omega
    split at h
    · next hletter =>
      have hcode : 65 ≤ c.toNat ∧ c.toNat ≤ 70 := by simpa [hle] using hletter
      omega
    · cases h
  refine ⟨?_, ?_, ?_⟩
  · simp [isSpace, hne ' ' rfl, hne '\t' rfl]
  · simp [isBreak, hne '\n' rfl, hne '\r' rfl, hne '\x85' rfl, hne '\u2028' rfl,
      hne '\u2029' rfl]
  · simp [isAllowed, hbounds]

theorem denotes_named {d : Char} (hd : IsEscapeChar d)
    (h : ∀ after, unescape? (d :: after) = some (c, 1)) : Denotes ['\\', d] c :=
  .inr ⟨d, [], rfl, by simpa using hd, h⟩

/-- An escape with the digits of the character to base sixteen. -/
theorem denotes_numbered {kind : Char} {width : Nat} {digits : List Char}
    (hkind : IsEscapeChar kind)
    (hnumbered : ∀ rest, unescape? (kind :: rest) = unescape?.numbered width rest)
    (hlength : digits.length = width) (hnumber : Text.number? 16 digits = some c.toNat) :
    Denotes ('\\' :: kind :: digits) c := by
  refine .inr ⟨kind, digits, rfl, List.forall_mem_cons.2 ⟨hkind, fun d hd => ?_⟩, fun after => ?_⟩
  · exact isEscapeChar_of_digitValue? (Text.isSome_digitValue? hnumber d hd)
  · rw [List.cons_append, hnumbered, numbered_append hlength hnumber, hlength]

theorem denotes_escaped (c : Char) : Denotes (escaped c) c := by
  have hnumbered {kind : Char} {width : Nat} (hkind : IsEscapeChar kind) (hwidth : 0 < width)
      (hcode : c.toNat < Nat.pow 16 width)
      (h : ∀ rest, unescape? (kind :: rest) = unescape?.numbered width rest) :
      Denotes ('\\' :: kind :: Text.upperHexDigits width c.toNat) c :=
    denotes_numbered hkind h (by rw [Text.upperHexDigits, List.length_map,
      Text.length_hexDigits hwidth hcode]) (Text.number?_upperHexDigits hwidth hcode)
  rw [escaped.eq_def]
  split
  · next h =>
    obtain rfl | rfl : c = '"' ∨ c = '\\' := by simpa using h
    · exact denotes_named (by decide) fun _ => rfl
    · exact denotes_named (by decide) fun _ => rfl
  split
  · next h _ =>
    rw [Bool.or_eq_true, beq_iff_eq, beq_iff_eq, not_or] at h
    exact .inl ⟨rfl, h⟩
  split
  any_goals exact denotes_named (by decide) fun _ => rfl
  dsimp only
  -- two, four or eight digits, as many as the code needs
  split
  · next h =>
    exact hnumbered (by decide) (by decide) (Nat.lt_succ_of_le h) fun _ => rfl
  split
  · next h =>
    exact hnumbered (by decide) (by decide) (Nat.lt_succ_of_le h) fun _ => rfl
  · have hvalid : c.toNat.isValidChar := c.valid
    simp only [Nat.isValidChar] at hvalid
    have hcode : c.toNat < 0x110000 := by omega
    exact hnumbered (by decide) (by decide) (Nat.lt_trans hcode (by decide)) fun _ => rfl

/-! ## Reading -/

theorem scanQuoted_end (hseparator : cursor.atDocumentSeparator = false)
    (hrest : cursor.rest = '"' :: after) :
    scanQuoted false cursor = some ([], cursor.advance 1) := by
  rw [scanQuoted, hseparator, if_neg Bool.false_ne_true]
  split
  · next h => exact absurd (hrest.symm.trans h) (List.cons_ne_nil _ _)
  · next h =>
    obtain ⟨rfl, rfl⟩ := List.cons.inj (hrest.symm.trans h)
    rfl

theorem scanQuoted_escape {first : Char} {written : List Char} {count : Nat}
    (hseparator : cursor.atDocumentSeparator = false)
    (hrest : cursor.rest = '\\' :: first :: written) (hfirst : isBreak first = false)
    (hescape : unescape? (first :: written) = some (c, count)) :
    scanQuoted false cursor =
      (scanQuoted false (cursor.advance (count + 1))).map
        fun (more, last) => (c :: more, last) := by
  have hbreak : (cursor.advance 1).passBreak? = none := by
    apply Cursor.passBreak?_eq_none
    rw [Cursor.rest_advance, hrest]
    rintro d ⟨⟩
    exact hfirst
  -- the right side is set aside while `scanQuoted` is opened on the left
  generalize hresult : Option.map _ _ = result
  rw [scanQuoted, hseparator, if_neg Bool.false_ne_true]
  split
  · next h => exact absurd (hrest.symm.trans h) (List.cons_ne_nil _ _)
  · next h =>
    obtain ⟨rfl, rfl⟩ := List.cons.inj (hrest.symm.trans h)
    dsimp only
    rw [if_neg (by simp), if_neg (by simp), dif_neg (by decide), if_pos (by simp)]
    split
    · next hsome =>
      rw [hbreak] at hsome
      cases hsome
    · rw [hescape]
      exact hresult

/-- A way to write the characters of a text between double quotes. -/
structure IsWriting (write : Char → List Char) : Prop where
  denotes : ∀ c, Denotes (write c) c
  blank : ∀ c, write c = [c] → isSpace c = true ∨ isBreak c = true → IsQuotedGap c

theorem isWriting_escaped : IsWriting escaped where
  denotes := denotes_escaped
  blank c hraw hblank := by
    obtain rfl | rfl | rfl | rfl | rfl | rfl | rfl := isBlank_cases hblank
    · exact .inl rfl
    all_goals exact absurd hraw (by decide)

/-- What reading a text in double quotes comes to: nothing where a mark between documents is met, or
else a text that is no longer. -/
def Rereads (cursor : Cursor) (text after : List Char) (kept : Bool) : Prop :=
  (scanQuoted false cursor = none ∧ (cursor.atDocumentSeparator = true ∨ kept = false)) ∨
    ∃ read next, scanQuoted false cursor = some (read, next) ∧ next.rest = after ∧
      cursor.atDocumentSeparator = false ∧ read.length ≤ text.length ∧
      (read = text ↔ kept = true)

/-- What is read behind the front of a text. -/
theorem Rereads.behind (front : List Char) {fold more : List Char} {kept kept' : Bool}
    (h : Rereads next more after kept)
    (hscan : scanQuoted false cursor =
      (scanQuoted false next).map fun (more, last) => (fold ++ more, last))
    (hseparator : cursor.atDocumentSeparator = false) (hlength : fold.length ≤ front.length)
    (hkept : kept' = true ↔
      fold = front ∧ next.atDocumentSeparator = false ∧ kept = true) :
    Rereads cursor (front ++ more) after kept' := by
  -- what was read behind it failed, or gave a text that is no longer than the one written
  obtain ⟨hnone, hcause⟩ | ⟨read, last, hread, hrest, hnext, hmore, hsame⟩ := h
  · refine .inl ⟨by rw [hscan, hnone]; rfl, .inr ?_⟩
    rw [← Bool.not_eq_true, hkept]
    rintro ⟨-, hnext, rfl⟩
    rw [hnext] at hcause
    cases hcause <;> contradiction
  · refine .inr ⟨fold ++ read, last, by rw [hscan, hread]; rfl, hrest, hseparator, ?_, ?_⟩
    · simp only [List.length_append]
      omega
    · rw [hkept, ← hsame, and_iff_right hnext]
      refine ⟨fun h => ?_, fun h => by rw [h.1, h.2]⟩
      have htotal := congrArg List.length h
      simp only [List.length_append] at htotal
      exact List.append_inj h (by omega)

theorem atSeparator_eq_true_iff (text : List Char) :
    atSeparator text = true ↔
      (text.take 3 = ['-', '-', '-'] ∨ text.take 3 = ['.', '.', '.']) ∧
        endsWord (text.drop 3) = true := by
  constructor
  · intro h
    rw [atSeparator.eq_def] at h
    split at h
    · exact ⟨.inl rfl, h⟩
    · exact ⟨.inr rfl, h⟩
    · cases h
  · rintro ⟨h | h, hends⟩ <;> rw [← List.take_append_drop 3 text, h] <;> exact hends

/-- Whether a mark between documents comes does not depend on what is behind a quote. -/
theorem atSeparator_quote (text : List Char) :
    atSeparator (text ++ '"' :: after) = atSeparator (text ++ ['"']) := by
  have hends (text : List Char) : endsWord (text ++ '"' :: after) = endsWord (text ++ ['"']) := by
    cases text <;> rfl
  rw [Bool.eq_iff_iff, atSeparator_eq_true_iff, atSeparator_eq_true_iff]
  match text with
  | [] | [a] | [a, b] => simp
  | a :: b :: d :: text => simp [hends]

/-- The text up to the first character that is no blank as it is written. -/
theorem exists_run {write : Char → List Char} (hwrite : IsWriting write) (text : List Char) :
    ∃ run more, text = run ++ more ∧ (∀ c ∈ run, IsQuotedGap c ∧ write c = [c]) ∧
      ∀ c ∈ (more.flatMap write ++ ['"']).head?, isSpace c = false ∧ isBreak c = false := by
  -- the gap goes on as long as blanks are written as they are
  induction text with
  | nil => exact ⟨[], [], rfl, nofun, by rintro c ⟨⟩; exact ⟨rfl, rfl⟩⟩
  | cons c text ih =>
    by_cases hblank : write c = [c] ∧ (isSpace c = true ∨ isBreak c = true)
    · obtain ⟨run, more, rfl, hrun, hmore⟩ := ih
      exact ⟨c :: run, more, rfl,
        List.forall_mem_cons.2 ⟨⟨hwrite.blank c hblank.1 hblank.2, hblank.1⟩, hrun⟩, hmore⟩
    · refine ⟨[], c :: text, rfl, nofun, fun d hd => ?_⟩
      by_cases hraw : write c = [c]
      · rw [List.flatMap_cons, hraw] at hd
        obtain rfl : c = d := Option.some.inj hd
        simpa [hraw] using hblank
      · obtain h | ⟨first, escape, h, -⟩ := hwrite.denotes c
        · exact absurd h.1 hraw
        · rw [List.flatMap_cons, h] at hd
          obtain rfl : '\\' = d := Option.some.inj hd
          exact ⟨rfl, rfl⟩

/-- What is read behind a gap. A mark between documents can only come behind separators. -/
theorem Rereads.gap {more written : List Char} (hseparator : cursor.atDocumentSeparator = false)
    (hne : run ≠ []) (hrun : ∀ c ∈ run, IsQuotedGap c)
    (hrest : cursor.rest = run ++ (written ++ '"' :: after))
    (hstop : ∀ c ∈ (written ++ ['"']).head?, isSpace c = false ∧ isBreak c = false)
    (h : ∀ next : Cursor, next.rest = written ++ '"' :: after →
      Rereads next more after (keepsBreaks (written ++ ['"']))) :
    Rereads cursor (run ++ more) after (keepsBreaks (run ++ (written ++ ['"']))) := by
  have hbehind : ∀ c ∈ (written ++ '"' :: after).head?, isSpace c = false ∧ isBreak c = false := by
    cases written with
    | nil => exact hstop
    | cons d written => exact hstop
  obtain ⟨next, hscan, hnext, hcolumn⟩ :=
    scanQuoted_run false hseparator hne (fun c hc => (hrun c hc).isGap) hrest hbehind
  refine (h next hnext).behind run hscan hseparator (fold_run hrun).1 ?_
  have hnewLine := columnBehind_run hne cursor.column
  rw [← hcolumn] at hnewLine
  rw [keepsBreaks_run hne hrun hstop, (fold_run hrun).2]
  by_cases hspaces : ∀ d ∈ run, d = ' '
  · -- no mark comes in the middle of a line
    have hnone := Cursor.atDocumentSeparator_of_column (hnewLine.1 hspaces)
    rw [hnone, and_iff_right (.inl hspaces), and_iff_right (.inl hspaces), and_iff_right rfl]
  · by_cases hseparators : ∀ d ∈ run, isSeparatorBreak d = true
    · -- behind separators a new line begins, so a mark can come
      have hmark : next.atDocumentSeparator = atSeparator (written ++ ['"']) := by
        rw [Cursor.atDocumentSeparator, hnewLine.2 hseparators, hnext, atSeparator_quote]
        rfl
      rw [hmark, or_iff_right hspaces, or_iff_right hspaces, and_assoc]
    · -- the gap is not kept, whatever comes
      rw [or_iff_right hspaces, or_iff_right hspaces, iff_false_intro hseparators, false_and,
        false_and, false_and]

/-- What is read behind a character. -/
theorem Rereads.char {write : Char → List Char} (hwrite : IsWriting write)
    {more written : List Char} (hseparator : cursor.atDocumentSeparator = false)
    (hblank : ¬(write c = [c] ∧ (isSpace c = true ∨ isBreak c = true)))
    (hrest : cursor.rest = write c ++ (written ++ '"' :: after))
    (h : ∀ next : Cursor, next.rest = written ++ '"' :: after →
      Rereads next more after (keepsBreaks (written ++ ['"']))) :
    Rereads cursor (c :: more) after (keepsBreaks (write c ++ (written ++ ['"']))) := by
  have hcolumn (count : Nat) : (cursor.advance (count + 1)).atDocumentSeparator = false := by
    simp [Cursor.atDocumentSeparator]
  -- written as it is, or as an escape that denotes it
  obtain ⟨hraw, hquote⟩ | ⟨first, escape, hescape, hclean, hdenotes⟩ := hwrite.denotes c
  · have hchar : isSpace c = false ∧ isBreak c = false := by simpa [hraw] using hblank
    rw [hraw] at hrest ⊢
    have hnext : (cursor.advance 1).rest = written ++ '"' :: after := by
      rw [Cursor.rest_advance, hrest]
      rfl
    refine (h _ hnext).behind [c]
      (scanQuoted_char false hseparator hrest hchar (by simpa using hquote)) hseparator
      (Nat.le_refl _) ?_
    rw [List.singleton_append, keepsBreaks_cons hchar.1 hchar.2]
    simp [hcolumn 0]
  · rw [hescape] at hrest ⊢
    rw [keepsBreaks_append (List.forall_mem_cons.2 ⟨⟨rfl, rfl⟩, fun d hd =>
      ⟨(hclean d hd).1, (hclean d hd).2.1⟩⟩)]
    have hnext : (cursor.advance (escape.length + 1 + 1)).rest = written ++ '"' :: after := by
      rw [Cursor.rest_advance, hrest]
      simp
    have hscan := scanQuoted_escape hseparator hrest (hclean first List.mem_cons_self).2.1
      (hdenotes _)
    refine (h _ hnext).behind [c] hscan hseparator (Nat.le_refl _) ?_
    simp [hcolumn]

/-- A text in double quotes is read as it was exactly when its breaks are kept. -/
theorem rereads {write : Char → List Char} (hwrite : IsWriting write)
    (hrest : cursor.rest = text.flatMap write ++ '"' :: after) :
    Rereads cursor text after (keepsBreaks (text.flatMap write ++ ['"'])) := by
  induction hlength : text.length using Nat.strongRecOn generalizing text cursor with
  | ind length ih =>
    by_cases hseparator : cursor.atDocumentSeparator = true
    · refine .inl ⟨?_, .inl hseparator⟩
      rw [scanQuoted, if_pos hseparator]
    rw [Bool.not_eq_true] at hseparator
    obtain ⟨run, more, rfl, hrun, hmore⟩ := exists_run hwrite text
    cases run with
    | cons b run =>
      have hwritten : (b :: run).flatMap write = b :: run :=
        flatMap_eq_self fun c hc => (hrun c hc).2
      rw [List.flatMap_append, hwritten, List.append_assoc] at hrest ⊢
      refine Rereads.gap hseparator (List.cons_ne_nil b run) (fun c hc => (hrun c hc).1) hrest hmore
        fun next hnext => ih more.length ?_ hnext rfl
      simp only [← hlength, List.length_append, List.length_cons]
      omega
    | nil =>
      -- no gap comes, so the closing quote does, or a character
      cases more with
      | nil =>
        refine .inr ⟨[], _, scanQuoted_end hseparator hrest, ?_, hseparator, Nat.le_refl _, ?_⟩
        · rw [Cursor.rest_advance, hrest]
          rfl
        · simp [keepsBreaks, isBreak]
      | cons c more =>
        rw [List.nil_append, List.flatMap_cons, List.append_assoc] at hrest ⊢
        refine Rereads.char hwrite hseparator ?_ hrest
          fun next hnext => ih more.length ?_ hnext rfl
        · rintro ⟨hraw, hblank⟩
          rw [List.flatMap_cons, hraw] at hmore
          simp [hmore c rfl] at hblank
        · simp only [← hlength, List.nil_append, List.length_cons]
          omega

theorem keepsBreaks_of_no_break (h : ∀ c ∈ text, isBreak c = false) : keepsBreaks text = true := by
  induction text with
  | nil => rfl
  | cons c text ih =>
    have hhead : text.head?.any isBreak = false := by
      cases text with
      | nil => rfl
      | cons d text => exact h d (by simp)
    rw [keepsBreaks, h c List.mem_cons_self, hhead, ih fun d hd => h d (.tail c hd)]
    simp

theorem isBreak_of_mem_escaped {d : Char} (h : d ∈ escaped c) : isBreak d = false := by
  obtain ⟨hraw, -⟩ | ⟨first, escape, hescape, hclean, -⟩ := denotes_escaped c
  · obtain rfl : d = c := by simpa [hraw] using h
    rw [← Bool.not_eq_true]
    intro hbreak
    obtain rfl | rfl | rfl | rfl | rfl | rfl | rfl := isBlank_cases (.inr hbreak) <;>
      first | exact absurd hraw (by decide) | cases hbreak
  · rw [hescape] at h
    obtain rfl | hd := List.mem_cons.1 h
    · rfl
    · exact (hclean d hd).2.1

/-- A text that is written in double quotes is read as it was. -/
theorem scanQuoted_doubleQuoted (hseparator : cursor.atDocumentSeparator = false)
    (hrest : cursor.rest = text.flatMap escaped ++ '"' :: after) :
    ∃ next, scanQuoted false cursor = some (text, next) ∧ next.rest = after := by
  have hkept : keepsBreaks (text.flatMap escaped ++ ['"']) = true := by
    refine keepsBreaks_of_no_break fun c hc => ?_
    obtain hc | hc := List.mem_append.1 hc
    · obtain ⟨d, -, hd⟩ := List.mem_flatMap.1 hc
      exact isBreak_of_mem_escaped hd
    · obtain rfl := List.mem_singleton.1 hc
      rfl
  obtain ⟨-, h⟩ | ⟨read, next, hscan, hnext, -, -, hsame⟩ := rereads isWriting_escaped hrest
  · rw [hseparator, hkept] at h
    cases h <;> contradiction
  · rw [hsame.2 hkept] at hscan
    exact ⟨next, hscan, hnext⟩

end Locator.Yaml
