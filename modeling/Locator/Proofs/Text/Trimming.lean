import Locator.Text.Blank
import Mathlib.Data.List.Basic

/-!
# Trimming

Trimming a text at its end leaves the front of it behind which there are only blanks, and which does
not end with one.

* `exists_ending`: a text with the end of it apart, whatever counts as a blank
* `exists_trimEnd`: what trimming takes away
* `trimEnd_append`: what it leaves alone
-/

namespace Locator.Text

variable {text front back blanks : List Char}

theorem head?_dropWhile {wanted : Char → Bool} :
    ∀ c ∈ (text.dropWhile wanted).head?, wanted c = false := by
  intro c hc
  have hhead := List.head?_dropWhile_not wanted text
  rw [Option.mem_def.1 hc] at hhead
  exact hhead

/-- A text with the blanks at its end apart. What a blank is may be chosen. -/
theorem exists_ending (wanted : Char → Bool) (text : List Char) :
    ∃ blanks, text = (text.reverse.dropWhile wanted).reverse ++ blanks ∧
      (∀ c ∈ blanks, wanted c = true) ∧
      ∀ c ∈ (text.reverse.dropWhile wanted).reverse.getLast?, wanted c = false := by
  refine ⟨(text.reverse.takeWhile wanted).reverse, ?_, fun c hc => ?_, ?_⟩
  · rw [← List.reverse_append, List.takeWhile_append_dropWhile, List.reverse_reverse]
  · exact List.all_eq_true.1 List.all_takeWhile c (List.mem_reverse.1 hc)
  · rw [List.getLast?_reverse]
    exact head?_dropWhile

theorem exists_trimEnd (text : List Char) :
    ∃ blanks, text = trimEnd text ++ blanks ∧ (∀ c ∈ blanks, isBlank c = true) ∧
      ∀ c ∈ (trimEnd text).getLast?, isBlank c = false :=
  exists_ending isBlank text

theorem mem_of_mem_trimEnd {c : Char} (h : c ∈ trimEnd text) : c ∈ text := by
  obtain ⟨blanks, hsplit, -⟩ := exists_trimEnd text
  rw [hsplit]
  exact List.mem_append_left blanks h

/-- Something is left of a text that is not blank throughout. -/
theorem trimEnd_ne_nil {c : Char} (hc : c ∈ text) (hblank : isBlank c = false) :
    trimEnd text ≠ [] := by
  intro hnil
  obtain ⟨blanks, hsplit, hblanks, -⟩ := exists_trimEnd text
  rw [hnil, List.nil_append] at hsplit
  rw [hblanks c (hsplit ▸ hc)] at hblank
  cases hblank

theorem exists_of_trim_ne_nil (h : trim text ≠ []) : ∃ c ∈ text, isBlank c = false := by
  refine Classical.byContradiction fun hnone => h ?_
  have hall : ∀ c ∈ text, isBlank c = true := by simpa using hnone
  have hstart : trimStart (text ++ []) = [] := List.dropWhile_append_of_pos hall
  rw [List.append_nil] at hstart
  rw [trim, hstart]
  rfl

/-- Blanks at the end are left out, and nothing else. -/
theorem trimEnd_append_blanks (hblanks : ∀ c ∈ blanks, isBlank c = true)
    (hfront : ∀ c ∈ front.getLast?, isBlank c = false) : trimEnd (front ++ blanks) = front := by
  rw [trimEnd, List.reverse_append,
    List.dropWhile_append_of_pos fun c hc => hblanks c (List.mem_reverse.1 hc)]
  cases hcase : front.reverse with
  | nil => simpa using hcase.symm
  | cons c more =>
    have hc : isBlank c = false := hfront c (by rw [← List.head?_reverse, hcase]; rfl)
    rw [List.dropWhile_cons_of_neg (by simp [hc]), ← hcase, List.reverse_reverse]

theorem trimEnd_eq_self (h : ∀ c ∈ text.getLast?, isBlank c = false) : trimEnd text = text := by
  have hblanks : trimEnd (text ++ []) = text := trimEnd_append_blanks nofun h
  rwa [List.append_nil] at hblanks

/-- What is in front of something other than a blank is not trimmed. -/
theorem trimEnd_append (hback : trimEnd back ≠ []) :
    trimEnd (front ++ back) = front ++ trimEnd back := by
  obtain ⟨blanks, hsplit, hblanks, hlast⟩ := exists_trimEnd back
  generalize trimEnd back = kept at *
  subst hsplit
  rw [← List.append_assoc]
  refine trimEnd_append_blanks hblanks fun c hc => hlast c ?_
  rwa [List.getLast?_append_of_ne_nil _ hback] at hc

end Locator.Text
