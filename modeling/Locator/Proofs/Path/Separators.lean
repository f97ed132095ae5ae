import Locator.Path.Basic

/-!
# Backslashes become separators

`unifySeparators` reads pairs of backslashes from the left, so what becomes of a run of them depends
only on its length: an even run stays as it is, and an odd one ends in a separator.

* `unifySeparators_append_slash`: text in front of a separator and text behind it are read apart
* `unifySeparators_eq_self_iff`: a text stays as it is if and only if its runs are even
* `unifySeparators_unifySeparators`: reading a second time changes nothing
-/

namespace Locator.Path

variable {text rest front back : List Char} {c : Char}

/-! ## One character at a time -/

theorem unifySeparators_pair :
    unifySeparators ('\\' :: '\\' :: rest) = '\\' :: '\\' :: unifySeparators rest := by
  rw [unifySeparators]

theorem unifySeparators_lone (h : rest.head? ≠ some '\\') :
    unifySeparators ('\\' :: rest) = '/' :: unifySeparators rest := by
  rw [unifySeparators]
  rintro tail rfl
  exact h rfl

theorem unifySeparators_cons (h : c ≠ '\\') :
    unifySeparators (c :: rest) = c :: unifySeparators rest := by
  rw [unifySeparators]
  · rintro tail rfl
    exact absurd rfl h
  · exact h

/-- Induction along the reading of a text: by pairs of backslashes, a backslash on its own, and any
other character. -/
theorem unifySeparators_induction {motive : List Char → Prop} (nil : motive [])
    (pair : ∀ rest, motive rest → motive ('\\' :: '\\' :: rest))
    (lone : ∀ rest, rest.head? ≠ some '\\' → motive rest → motive ('\\' :: rest))
    (cons : ∀ c rest, c ≠ '\\' → motive rest → motive (c :: rest)) (text : List Char) :
    motive text := by
  fun_induction unifySeparators text with
  | case1 rest ih => exact pair rest ih
  | case2 rest hrest ih =>
    refine lone rest (fun hhead => ?_) ih
    obtain ⟨tail, rfl⟩ := List.head?_eq_some_iff.1 hhead
    exact hrest tail rfl
  | case3 c rest _ hc ih => exact cons c rest (fun h => hc h) ih
  | case4 => exact nil

theorem length_unifySeparators (text : List Char) :
    (unifySeparators text).length = text.length := by
  induction text using unifySeparators_induction with
  | nil => rfl
  | pair rest ih => simp only [unifySeparators_pair, List.length_cons, ih]
  | lone rest hrest ih => simp only [unifySeparators_lone hrest, List.length_cons, ih]
  | cons c rest hc ih => simp only [unifySeparators_cons hc, List.length_cons, ih]

/-- A separator closes the run of backslashes in front of it. -/
theorem unifySeparators_append_slash (front back : List Char) :
    unifySeparators (front ++ '/' :: back) =
      unifySeparators front ++ '/' :: unifySeparators back := by
  induction front using unifySeparators_induction with
  | nil => exact unifySeparators_cons (by decide)
  | pair rest ih => simp only [List.cons_append, unifySeparators_pair, ih]
  | lone rest hrest ih =>
    -- what follows the backslash is still not one: it is the head of `rest`, or the separator
    have hhead : (rest ++ '/' :: back).head? ≠ some '\\' := by
      cases rest with
      | nil => simp
      | cons c tail => exact hrest
    rw [List.cons_append, unifySeparators_lone hhead, unifySeparators_lone hrest, ih,
      List.cons_append]
  | cons c rest hc ih => simp only [List.cons_append, unifySeparators_cons hc, ih]

theorem unifySeparators_of_not_mem (h : '\\' ∉ text) : unifySeparators text = text := by
  induction text with
  | nil => rfl
  | cons c rest ih =>
    rw [List.mem_cons, not_or] at h
    rw [unifySeparators_cons (Ne.symm h.1), ih h.2]

/-- The texts on the two sides of a separator stay as they are if and only if the whole does. -/
theorem unifySeparators_eq_self_append_slash :
    unifySeparators (front ++ '/' :: back) = front ++ '/' :: back ↔
      unifySeparators front = front ∧ unifySeparators back = back := by
  rw [unifySeparators_append_slash]
  constructor
  · intro h
    obtain ⟨hfront, hback⟩ := List.append_inj h (length_unifySeparators front)
    exact ⟨hfront, (List.cons.inj hback).2⟩
  · rintro ⟨hfront, hback⟩
    rw [hfront, hback]

/-! ## Runs of backslashes -/

/-- Every maximal run of backslashes has even length. The runs are what stands between the other
characters. -/
def EvenRuns (text : List Char) : Prop :=
  ∀ run ∈ text.splitOnP (· != '\\'), run.length % 2 = 0

instance (text : List Char) : Decidable (EvenRuns text) :=
  inferInstanceAs (Decidable (∀ run ∈ text.splitOnP (· != '\\'), run.length % 2 = 0))

theorem evenRuns_cons (h : c ≠ '\\') : EvenRuns (c :: rest) ↔ EvenRuns rest := by
  have hsplit : (c :: rest).splitOnP (· != '\\') = [] :: rest.splitOnP (· != '\\') := by
    simp [List.splitOnP_cons_eq_if_modifyHead, h]
  simp [EvenRuns, hsplit]

/-- The first run of a text, and the others, behind a backslash in front of the text. -/
theorem exists_splitOnP_backslash (rest : List Char) :
    ∃ run runs, rest.splitOnP (· != '\\') = run :: runs ∧
      ('\\' :: rest).splitOnP (· != '\\') = ('\\' :: run) :: runs := by
  obtain ⟨run, runs, hruns⟩ := List.exists_cons_of_ne_nil (List.splitOnP_ne_nil (· != '\\') rest)
  refine ⟨run, runs, hruns, ?_⟩
  rw [List.splitOnP_cons_eq_if_modifyHead, hruns]
  rfl

theorem evenRuns_pair : EvenRuns ('\\' :: '\\' :: rest) ↔ EvenRuns rest := by
  obtain ⟨run, runs, hrest, hone⟩ := exists_splitOnP_backslash rest
  obtain ⟨run', runs', hone', htwo⟩ := exists_splitOnP_backslash ('\\' :: rest)
  obtain ⟨rfl, rfl⟩ := List.cons.inj (hone.symm.trans hone')
  simp only [EvenRuns, hrest, htwo, List.forall_mem_cons, List.length_cons]
  have hparity : (run.length + 1 + 1) % 2 = 0 ↔ run.length % 2 = 0 := by omega
  rw [hparity]

theorem not_evenRuns_lone (h : rest.head? ≠ some '\\') : ¬EvenRuns ('\\' :: rest) := by
  obtain ⟨run, runs, hrest, hone⟩ := exists_splitOnP_backslash rest
  -- the run that the backslash belongs to ends at once
  have hrun : run = [] := by
    cases rest with
    | nil => exact ((List.cons.inj hrest).1).symm
    | cons c tail =>
      have hc : c ≠ '\\' := fun heq => h (by rw [heq]; rfl)
      rw [List.splitOnP_cons_eq_if_modifyHead, if_pos (by simpa using hc)] at hrest
      exact ((List.cons.inj hrest).1).symm
  intro heven
  have hlen := heven ('\\' :: run) (by rw [hone]; exact List.mem_cons_self)
  rw [hrun] at hlen
  exact absurd hlen (by decide)

theorem evenRuns_unifySeparators (text : List Char) : EvenRuns (unifySeparators text) := by
  induction text using unifySeparators_induction with
  | nil => decide
  | pair rest ih =>
    rw [unifySeparators_pair]
    exact evenRuns_pair.2 ih
  | lone rest hrest ih =>
    rw [unifySeparators_lone hrest]
    exact (evenRuns_cons (by decide)).2 ih
  | cons c rest hc ih =>
    rw [unifySeparators_cons hc]
    exact (evenRuns_cons hc).2 ih

theorem unifySeparators_eq_self_iff : unifySeparators text = text ↔ EvenRuns text := by
  refine ⟨fun h => h ▸ evenRuns_unifySeparators text, ?_⟩
  induction text using unifySeparators_induction with
  | nil => exact fun _ => rfl
  | pair rest ih =>
    intro heven
    rw [unifySeparators_pair, ih (evenRuns_pair.1 heven)]
  | lone rest hrest ih => exact fun heven => absurd heven (not_evenRuns_lone hrest)
  | cons c rest hc ih =>
    intro heven
    rw [unifySeparators_cons hc, ih ((evenRuns_cons hc).1 heven)]

theorem unifySeparators_unifySeparators (text : List Char) :
    unifySeparators (unifySeparators text) = unifySeparators text :=
  unifySeparators_eq_self_iff.2 (evenRuns_unifySeparators text)

/-- A text starts with a separator after the reading if it did before, or if it started with one
backslash and no more. -/
theorem head?_unifySeparators_eq_slash_iff :
    (unifySeparators text).head? = some '/' ↔
      text.head? = some '/' ∨ (text.takeWhile (· == '\\')).length = 1 := by
  induction text using unifySeparators_induction with
  | nil => decide
  | pair rest => simp [unifySeparators_pair]
  | lone rest hrest =>
    have hnone : rest.takeWhile (· == '\\') = [] := by
      cases rest with
      | nil => rfl
      | cons c tail =>
        have hc : c ≠ '\\' := fun heq => hrest (by rw [heq]; rfl)
        simp [hc]
    simp [unifySeparators_lone hrest, hnone]
  | cons c rest hc => simp [unifySeparators_cons hc, hc]

end Locator.Path
