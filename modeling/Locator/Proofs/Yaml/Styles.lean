import Locator.Proofs.Text.Trimming
import Locator.Proofs.Yaml.Blocks
import Locator.Proofs.Yaml.DoubleQuotes
import Locator.Proofs.Yaml.Plain

/-!
# What the styles are printed for

The printer chooses a style by what a text holds. Here is what the choice says about the text, in
the terms in which reading is stated.

* `isPlain_of_allowsPlain`: texts that are printed as they are
* `fitsSingleQuotes_of_allowsSingleQuotes`: texts in single quotes
* `exists_lines`: texts that are printed as lines
-/

namespace Locator.Yaml

variable {text front back after : List Char} {c d : Char}

/-! ## Neighbours -/

theorem hasPair_of_append {first second : Char → Bool} (hc : first c = true) (hd : second d = true)
    (front back : List Char) : hasPair first second (front ++ c :: d :: back) = true := by
  induction front with
  | nil => simp [hasPair, hc, hd]
  | cons b front ih =>
    cases front with
    | nil => simp [hasPair, hc, hd]
    | cons e front =>
      rw [List.cons_append, List.cons_append, hasPair, Bool.or_eq_true]
      exact .inr ih

theorem holdsMarkup_of_append
    (h : (isSpace c = true ∨ isBreak c = true) ∧ d = '#' ∨ d = ':' ∧ endsWord back = true)
    (front : List Char) : holdsMarkup (front ++ c :: d :: back) = true := by
  induction front with
  | nil =>
    obtain ⟨hc, rfl⟩ | ⟨rfl, hback⟩ := h
    · simp [holdsMarkup, hc]
    · simp [holdsMarkup, hback]
  | cons b front ih =>
    cases front with
    | nil =>
      rw [List.singleton_append, holdsMarkup, Bool.or_eq_true]
      exact .inr ih
    | cons e front =>
      rw [List.cons_append, List.cons_append, holdsMarkup, Bool.or_eq_true]
      exact .inr ih

/-! ## Characters -/

theorem isAllowed_of_isPrintable (h : isPrintable c = true) : isAllowed c = true := by
  have hle (a b : Char) : a ≤ b ↔ a.toNat ≤ b.toNat := Iff.rfl
  have hne (a : Char) : c ≠ a ↔ c.toNat ≠ a.toNat := by
    rw [ne_eq, ne_eq, Char.toNat_inj]
  have hvalid : c.toNat.isValidChar := c.valid
  simp only [Nat.isValidChar] at hvalid
  simp only [isPrintable, isAllowed, Bool.or_eq_true, Bool.and_eq_true, beq_iff_eq,
    decide_eq_true_eq, bne_iff_ne, hle, hne] at h ⊢
  simp only [← Char.toNat_inj] at h ⊢
  simp at h ⊢
  omega

theorem isAllowed_of_isNameChar (h : isNameChar c = true) : isAllowed c = true := by
  have hbounds : ' ' ≤ c ∧ c ≤ '~' := by
    have hle {a b : Char} (ha : ' ' ≤ a) (hb : b ≤ '~') (hc : c.val ≥ a.val ∧ c.val ≤ b.val) :
        ' ' ≤ c ∧ c ≤ '~' := ⟨Nat.le_trans ha hc.1, Nat.le_trans hc.2 hb⟩
    have hboth {p q : Prop} [Decidable p] [Decidable q] (hc : (decide p && decide q) = true) :
        p ∧ q := by
      simpa using hc
    have hkinds : ((((c.isUpper || c.isLower) || c.isDigit) || c == '_') || c == '-') = true := h
    simp only [Bool.or_eq_true, beq_iff_eq] at hkinds
    obtain (((hc | hc) | hc) | rfl) | rfl := hkinds
    · exact hle (by decide) (by decide) (of_decide_eq_true hc)
    · exact hle (by decide) (by decide) (hboth hc)
    · exact hle (by decide) (by decide) (hboth hc)
    · decide
    · decide
  simp [isAllowed, hbounds]

theorem isAllowed_of_mem_escaped (h : d ∈ escaped c) : isAllowed d = true := by
  obtain ⟨hraw, -⟩ | ⟨first, escape, hescape, hclean, -⟩ := denotes_escaped c
  · obtain rfl : d = c := by simpa [hraw] using h
    -- a character that is not escaped is printable
    rw [escaped.eq_def] at hraw
    split at hraw
    · simp at hraw
    split at hraw
    · next hprint =>
      rw [Bool.and_eq_true] at hprint
      exact isAllowed_of_isPrintable hprint.1
    · split at hraw
      any_goals simp at hraw
      split at hraw
      · simp at hraw
      split at hraw <;> simp at hraw
  · rw [hescape] at h
    obtain rfl | hd := List.mem_cons.1 h
    · rfl
    · exact (hclean d hd).2.2

theorem isLineBreak_of_isPrintable (hprint : isPrintable c = true) (hbreak : isBreak c = true) :
    IsLineBreak c := by
  obtain rfl | rfl | rfl | rfl | rfl | rfl | rfl := isBlank_cases (.inr hbreak)
  · cases hbreak
  · cases hbreak
  · exact .inl rfl
  · exact absurd hprint (by decide)
  · exact absurd hprint (by decide)
  · exact .inr (.inl rfl)
  · exact .inr (.inr rfl)

theorem eq_space_of_isPrintable (hprint : isPrintable c = true) (hspace : isSpace c = true) :
    c = ' ' := by
  obtain rfl | rfl : c = ' ' ∨ c = '\t' := by simpa [isSpace] using hspace
  · rfl
  · exact absurd hprint (by decide)

/-- A text that needs no escapes. -/
structure IsPrinted (text : List Char) : Prop where
  chars : ∀ c ∈ text, isPrintable c = true
  spaces : ∀ front c back, text = front ++ ' ' :: c :: back → isBreak c = false

theorem isPrinted_of_needsEscapes (h : needsEscapes text = false) : IsPrinted text := by
  rw [needsEscapes, Bool.or_eq_false_iff] at h
  refine ⟨fun c hc => by simpa using List.any_eq_false.1 h.1 c hc, ?_⟩
  rintro front c back rfl
  rw [← Bool.not_eq_true]
  intro hbreak
  rw [hasPair_of_append rfl hbreak] at h
  cases h.2

/-! ## Plain texts -/

/-- A text that is read as it is when nothing else is on the line. -/
structure IsPlain (text : List Char) : Prop where
  ne_nil : text ≠ []
  chars : ∀ c ∈ text, isBreak c = false ∧ (isSpace c = true → c = ' ')
  colons : ∀ front back, text = front ++ ':' :: back → endsWord back = false
  comments : ∀ front c back, text = front ++ c :: '#' :: back → isSpace c = false
  starts : ∀ c rest, text = c :: rest → StartsPlain c rest ∧ isOrderMark c = false
  last : ∀ c ∈ text.getLast?, isSpace c = false

/-- A front of the text fits on a line when no colon ends a word in front of what is behind it
now. -/
theorem IsPlain.fitsLine (h : IsPlain (front ++ back))
    (hlast : ∀ c ∈ front.getLast?, isSpace c = false)
    (hcolons : ∀ before rest, front = before ++ ':' :: rest → endsWord (rest ++ back) = false →
      endsWord (rest ++ after) = false) : FitsLine front after where
  breaks c hc := (h.chars c (List.mem_append_left back hc)).1
  colons before rest heq := hcolons before rest heq (h.colons before _ (by rw [heq]; simp))
  comments before c rest heq := h.comments before c (rest ++ back) (by rw [heq]; simp)
  last := hlast

theorem IsName.isPlain {name : List Char} (h : IsName name) : IsPlain name := by
  have hchar (c : Char) (hc : c ∈ name) := isOrdinary_of_isNameChar (h.chars c hc)
  refine ⟨h.ne_nil, fun c hc => ⟨(hchar c hc).newline, fun hspace => ?_⟩, ?_, ?_, ?_,
    fun c hc => (hchar c (List.mem_of_getLast? hc)).space⟩
  · rw [(hchar c hc).space] at hspace
    cases hspace
  · rintro front back rfl
    exact absurd rfl (hchar ':' (by simp)).colon
  · rintro front c back rfl
    exact (hchar c (by simp)).space
  · rintro c rest rfl
    have hstart := h.startsPlain []
    rw [List.append_nil] at hstart
    exact ⟨hstart, h.head.1.orderMark⟩

theorem IsPlain.startsToken (h : IsPlain text) (after : List Char) :
    StartsToken (text ++ after) := by
  obtain ⟨c, rest, rfl⟩ := List.exists_cons_of_ne_nil h.ne_nil
  obtain ⟨hstart, hmark⟩ := h.starts c rest rfl
  rintro _ ⟨⟩
  exact ⟨hstart.space, (h.chars c List.mem_cons_self).1, hstart.ne_hash, hmark⟩

theorem of_startsLikeMarkup (h : startsLikeMarkup (c :: back) = false) :
    isMarkup c = false ∧ (c = '-' ∨ c = '?' ∨ c = ':' → endsWord back = false) := by
  rw [startsLikeMarkup.eq_def] at h
  split at h
  · cases h
  · cases h
  · next heq =>
    obtain ⟨rfl, rfl⟩ := List.cons.inj heq
    rw [Bool.or_eq_false_iff] at h
    refine ⟨h.1, fun hc => ?_⟩
    obtain rfl | rfl | rfl := hc <;> simpa using h.2
  · next heq => cases heq

theorem isPlain_of_allowsPlain (h : allowsPlain text = true) : IsPlain text := by
  simp only [allowsPlain, Bool.not_eq_true', Bool.or_eq_false_iff, hasBlankEnd] at h
  obtain ⟨⟨⟨⟨⟨hfirst, hlast⟩, hescapes⟩, hbreaks⟩, hstart⟩, hmarkup⟩ := h
  have hprinted := isPrinted_of_needsEscapes hescapes
  have hchars (c : Char) (hc : c ∈ text) :
      isBreak c = false ∧ (isSpace c = true → c = ' ') :=
    ⟨by simpa using List.any_eq_false.1 hbreaks c hc, eq_space_of_isPrintable (hprinted.chars c hc)⟩
  -- an end of the text that is no space of this kind is no space at all
  have hend (c : Char) (hc : c ∈ text) (hblank : (isBlankSpace c || isBreak c) = false) :
      isSpace c = false := by
    rw [← Bool.not_eq_true]
    intro hspace
    rw [(hchars c hc).2 hspace] at hblank
    cases hblank
  refine ⟨?_, hchars, ?_, ?_, ?_, ?_⟩
  · rintro rfl
    cases hstart
  · rintro front back rfl
    rw [← Bool.not_eq_true]
    intro hends
    obtain rfl | ⟨front, c, rfl⟩ := front.eq_nil_or_concat
    · simp [startsLikeMarkup, hends] at hstart
    · rw [List.concat_append, holdsMarkup_of_append (.inr ⟨rfl, hends⟩)] at hmarkup
      cases hmarkup
  · rintro front c back rfl
    rw [← Bool.not_eq_true]
    intro hspace
    rw [holdsMarkup_of_append (.inl ⟨.inl hspace, rfl⟩)] at hmarkup
    cases hmarkup
  · rintro c rest rfl
    refine ⟨⟨?_, ?_, ?_⟩, ?_⟩
    · exact hend c List.mem_cons_self (by simpa using hfirst)
    · exact (of_startsLikeMarkup hstart).1
    · exact (of_startsLikeMarkup hstart).2
    · have hprint := hprinted.chars c List.mem_cons_self
      rw [← Bool.not_eq_true]
      intro hmark
      obtain rfl : c = '\ufeff' := by simpa [isOrderMark] using hmark
      exact absurd hprint (by decide)
  · intro c hc
    rw [Option.mem_def.1 hc] at hlast
    exact hend c (List.mem_of_getLast? hc) (by simpa using hlast)

/-! ## Single quotes -/

theorem fitsSingleQuotes_of_allowsSingleQuotes (h : allowsSingleQuotes text = true)
    (hlines : text.contains '\n' = false) : FitsSingleQuotes text := by
  simp only [allowsSingleQuotes, Bool.not_eq_true', Bool.or_eq_false_iff] at h
  have hprinted := isPrinted_of_needsEscapes h.1
  refine ⟨fun c hc hblank => ?_, hprinted.spaces, ?_⟩
  · obtain hspace | hbreak := hblank
    · exact .inl (eq_space_of_isPrintable (hprinted.chars c hc) hspace)
    · obtain rfl | rfl | rfl := isLineBreak_of_isPrintable (hprinted.chars c hc) hbreak
      · simp at hlines
        exact absurd hc hlines
      · exact .inr rfl
      · exact .inr rfl
  · rintro front c back rfl
    rw [← Bool.not_eq_true]
    intro hbreak
    rw [hasPair_of_append hbreak rfl] at h
    cases h.2

/-! ## Lines -/

/-- A text of lines: empty ones in front, then lines up to one that is not empty, then breaks. -/
theorem exists_lines (hprinted : IsPrinted text) (hword : ∃ c ∈ text, isBreak c = false) :
    ∃ front body breaks, text = front ++ body ++ breaks ∧ (∀ c ∈ front, IsLineBreak c) ∧
      FitsBlock body ∧ ∀ c ∈ breaks, IsLineBreak c := by
  have hbreaks (c : Char) (hc : c ∈ text) (hbreak : isBreak c = true) : IsLineBreak c :=
    isLineBreak_of_isPrintable (hprinted.chars c hc) hbreak
  have hsplit : text.takeWhile isBreak ++ text.dropWhile isBreak = text :=
    List.takeWhile_append_dropWhile
  have hhead : ∀ c ∈ (text.dropWhile isBreak).head?, isBreak c = false :=
    Text.head?_dropWhile
  have hfront : ∀ c ∈ text.takeWhile isBreak, isBreak c = true :=
    fun c hc => List.all_eq_true.1 List.all_takeWhile c hc
  generalize text.takeWhile isBreak = front at hsplit hfront
  generalize text.dropWhile isBreak = rest at hsplit hhead
  subst hsplit
  -- what is behind the empty lines begins with a character of a line
  obtain ⟨c, more, rfl⟩ : ∃ c more, rest = c :: more := by
    obtain ⟨c, hc, hword⟩ := hword
    cases rest with
    | nil =>
      rw [List.append_nil] at hc
      rw [hfront c hc] at hword
      cases hword
    | cons c more => exact ⟨c, more, rfl⟩
  obtain ⟨breaks, hback, hends, hlast⟩ := Text.exists_ending isBreak (c :: more)
  generalize ((c :: more).reverse.dropWhile isBreak).reverse = body at hback hlast
  rw [hback] at hbreaks hhead ⊢
  have hbody : ∃ more, body = c :: more := by
    cases body with
    | nil =>
      have hc := hends c (by rw [← List.nil_append breaks, ← hback]; exact List.mem_cons_self)
      rw [hhead c (by rw [← hback]; rfl)] at hc
      cases hc
    | cons d body => exact ⟨body, by rw [(List.cons.inj hback).1]⟩
  obtain ⟨more, rfl⟩ := hbody
  refine ⟨front, c :: more, breaks, (List.append_assoc ..).symm, fun d hd => ?_,
    ⟨?_, ?_, hlast, ?_⟩, fun d hd => ?_⟩
  · exact hbreaks d (by simp [hd]) (hfront d hd)
  · exact List.cons_ne_nil c more
  · rintro d ⟨⟩
    exact hhead c rfl
  · exact fun d hd => hbreaks d (by
      rw [List.mem_append, List.mem_append]
      exact .inr (.inl hd))
  · exact hbreaks d (by simp [hd]) (hends d hd)

end Locator.Yaml
