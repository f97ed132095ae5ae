import Locator.CommandLine.Locations
import Locator.Proofs.Files.Absolute
import Mathlib.Data.List.Infix

/-!
# Going up from a location

Leaving out the last part of a location leaves out its last name, and with it whatever names nothing
around it. So the directories above a location have fewer and fewer of its names, down to the root,
or to the working directory where the location hangs on that, which have none.

* `parent?_cases`, `parent?_cases_of_not_rooted`: what is left of a location
* `map_names_selfAndAbove`, `map_names_selfAndAbove_of_not_rooted`: a location and everything above
  it
-/

namespace Locator

namespace Files

open Text

variable {location name parent : List Char}

/-! ## The last name -/

/-- What names nothing at the end of a location can be left out. -/
theorem names_trimIdle (reversed : List Char) :
    names (trimIdle reversed).reverse = names reversed.reverse := by
  fun_induction trimIdle reversed with
  | case1 rest ih =>
    rw [ih, List.reverse_cons, names_append_slash, names_nil, List.append_nil]
  | case2 rest ih =>
    have hsplit : ('.' :: '/' :: rest).reverse = rest.reverse ++ '/' :: ['.'] := by simp
    have hdot : names ['.'] = [] := rfl
    rw [ih, hsplit, names_append_slash, hdot, List.append_nil]
  | case3 => rfl
  | case4 reversed => rfl

theorem trimIdle_suffix (reversed : List Char) : trimIdle reversed <:+ reversed := by
  fun_induction trimIdle reversed with
  | case1 rest ih => exact ih.trans (List.suffix_cons _ _)
  | case2 rest ih => exact ih.trans ((List.suffix_cons _ _).trans (List.suffix_cons _ _))
  | case3 => exact List.nil_suffix
  | case4 reversed => exact List.suffix_rfl

/-- A text up to the first separator, and the rest. -/
theorem exists_dropWhile_slash (text : List Char) :
    ∃ front, '/' ∉ front ∧ text = front ++ text.dropWhile (· != '/') ∧
      (text.dropWhile (· != '/') = [] ∨ ∃ back, text.dropWhile (· != '/') = '/' :: back) := by
  induction text with
  | nil => exact ⟨[], List.not_mem_nil, rfl, .inl rfl⟩
  | cons c rest ih =>
    by_cases hc : c = '/'
    · subst hc
      exact ⟨[], List.not_mem_nil, rfl, .inr ⟨rest, rfl⟩⟩
    · obtain ⟨front, hfront, hrest, hback⟩ := ih
      rw [List.dropWhile_cons_of_pos (by simpa using hc)]
      refine ⟨c :: front, ?_, congrArg (c :: ·) hrest, hback⟩
      rw [List.mem_cons, not_or]
      exact ⟨fun h => hc h.symm, hfront⟩

/-- What is left ends in a name. -/
theorem exists_last_of_trimIdle (reversed : List Char) (h : trimIdle reversed ≠ []) :
    ∃ last, IsPart last ∧
      trimIdle reversed = last.reverse ++ (trimIdle reversed).dropWhile (· != '/') ∧
      ((trimIdle reversed).dropWhile (· != '/') = [] ∨
        ∃ back, (trimIdle reversed).dropWhile (· != '/') = '/' :: back) := by
  fun_induction trimIdle reversed with
  | case1 rest ih => exact ih h
  | case2 rest ih => exact ih h
  | case3 => exact absurd rfl h
  | case4 reversed hslash hdots hdot =>
    obtain ⟨front, hfront, htext, hback⟩ := exists_dropWhile_slash reversed
    refine ⟨front.reverse, ⟨fun hmem => hfront (List.mem_reverse.1 hmem), ?_⟩, ?_, hback⟩
    · generalize reversed.dropWhile (· != '/') = back at htext hback
      subst htext
      -- an idle part at the end would have been left out
      rw [isIdle, Bool.or_eq_false_iff, beq_eq_false_iff_ne, beq_eq_false_iff_ne]
      constructor
      · intro hnil
        obtain rfl := List.reverse_eq_nil_iff.1 hnil
        obtain rfl | ⟨rest, rfl⟩ := hback
        · exact h rfl
        · exact hslash rest rfl
      · intro hdotted
        obtain rfl : front = ['.'] := List.reverse_eq_iff.1 hdotted
        obtain rfl | ⟨rest, rfl⟩ := hback
        · exact hdot rfl
        · exact hdots rest rfl
    · rw [List.reverse_reverse]
      exact htext

/-- The last name of a text, and what goes with it. -/
theorem upper_cases (body : List Char) :
    (trimIdle body.reverse = [] ∧ names body = []) ∨
      trimIdle body.reverse ≠ [] ∧ ∃ last,
        (trimIdle ((trimIdle body.reverse).dropWhile (· != '/'))).reverse <+: body ∧
        names body =
          names (trimIdle ((trimIdle body.reverse).dropWhile (· != '/'))).reverse ++ [last] := by
  -- what is trimmed at the end has no names, and the last name is what stands behind the last
  -- separator
  have hnames : names body = names (trimIdle body.reverse).reverse := by
    rw [names_trimIdle, List.reverse_reverse]
  by_cases hnil : trimIdle body.reverse = []
  · left
    rw [hnames, hnil]
    exact ⟨rfl, rfl⟩
  · right
    obtain ⟨last, hlast, hreversed, hback⟩ := exists_last_of_trimIdle body.reverse hnil
    have hsuffix := trimIdle_suffix body.reverse
    generalize trimIdle body.reverse = reversed at *
    generalize reversed.dropWhile (· != '/') = rest at *
    refine ⟨hnil, last, ?_, ?_⟩
    · have hfront : trimIdle rest <:+ body.reverse :=
        (trimIdle_suffix rest).trans ((hreversed ▸ List.suffix_append _ _).trans hsuffix)
      simpa using List.reverse_prefix.2 hfront
    · rw [hnames, names_trimIdle, hreversed, List.reverse_append, List.reverse_reverse]
      obtain rfl | ⟨back, rfl⟩ := hback
      · rw [List.reverse_nil, List.nil_append, names_of_isPart hlast]
        rfl
      · rw [List.reverse_cons, List.append_assoc, List.singleton_append, names_append_slash,
          names_append_slash, names_of_isPart hlast, names_nil, List.append_nil]

/-- What is left of a location hangs on what the location hangs on. -/
theorem parent?_eq (location : List Char) :
    parent? location =
      let (anchor, body) := splitAnchor location
      if trimIdle body.reverse = [] then if anchor = ['.'] then some [] else none
      else some (anchor ++ (trimIdle ((trimIdle body.reverse).dropWhile (· != '/'))).reverse) := by
  simp only [parent?]
  cases trimIdle (splitAnchor location).2.reverse <;> rfl

theorem names_slash_cons (tail : List Char) : names ('/' :: tail) = names tail :=
  names_append_slash [] tail

/-- A rooted location without a name has nothing above it; from any other, going up leaves out the
last name. -/
theorem parent?_cases (hroot : isRooted location = true) :
    (parent? location = none ∧ names location = []) ∨
      ∃ parent last, parent? location = some parent ∧ isRooted parent = true ∧
        parent <+: location ∧ names location = names parent ++ [last] := by
  rw [isRooted, beq_iff_eq, List.head?_eq_some_iff] at hroot
  obtain ⟨body, rfl⟩ := hroot
  rw [parent?_eq, show splitAnchor ('/' :: body) = (['/'], body) from rfl, names_slash_cons]
  obtain ⟨hnil, hnames⟩ | ⟨hne, last, hprefix, hnames⟩ := upper_cases body
  · left
    simp [hnil, hnames]
  · right
    refine ⟨_, last, if_neg hne, rfl, ?_, ?_⟩
    · exact List.cons_prefix_cons.2 ⟨rfl, hprefix⟩
    · rw [hnames]
      exact congrArg (· ++ [last]) (names_slash_cons _).symm

/-- A leading dot names nothing. -/
theorem names_dot_append (h : name = [] ∨ ∃ tail, name = '/' :: tail) :
    names ('.' :: name) = names name := by
  obtain rfl | ⟨tail, rfl⟩ := h
  · rfl
  · rw [names_slash_cons]
    exact names_append_slash ['.'] tail

/-- A location that hangs on nothing and has no name is empty. -/
theorem eq_nil_of_names (hroot : isRooted location = false) (hdot : location ≠ ['.'])
    (hdots : ∀ rest, location ≠ '.' :: '/' :: rest) (h : names location = []) : location = [] := by
  obtain ⟨front, hfront, hlocation, hback⟩ := exists_dropWhile_slash location
  generalize location.dropWhile (· != '/') = back at hlocation hback
  -- its first part would be a name, unless it is empty or a dot
  have hidle : isIdle front = true := by
    by_contra hpart
    have hname := names_of_isPart ⟨hfront, Bool.not_eq_true _ ▸ hpart⟩
    obtain rfl | ⟨rest, rfl⟩ := hback
    · rw [hlocation, List.append_nil, hname] at h
      cases h
    · rw [hlocation, names_append_slash, hname] at h
      cases h
  rw [isIdle, Bool.or_eq_true, beq_iff_eq, beq_iff_eq] at hidle
  obtain rfl | rfl := hidle
  · obtain rfl | ⟨rest, rfl⟩ := hback
    · exact hlocation
    · rw [hlocation] at hroot
      cases hroot
  · obtain rfl | ⟨rest, rfl⟩ := hback
    · exact absurd hlocation hdot
    · exact absurd hlocation (hdots rest)

theorem not_isRooted_of_start (hroot : isRooted location = false) (h : parent <+: location) :
    isRooted parent = false := by
  cases parent with
  | nil => rfl
  | cons c rest =>
    obtain ⟨back, rfl⟩ := h
    exact hroot

/-- From a location that hangs on the working directory, going up leaves out the last name as long
as there is one, and a leading dot at last. -/
theorem parent?_cases_of_not_rooted (hroot : isRooted location = false) :
    (location = [] ∧ parent? location = none) ∨
      ∃ parent, parent? location = some parent ∧ parent <+: location ∧
        (names location = [] ∧ parent = [] ∨ ∃ last, names location = names parent ++ [last]) := by
  rw [parent?_eq]
  fun_cases splitAnchor location with
  | case1 rest => cases hroot
  | case2 => exact .inr ⟨[], rfl, List.nil_prefix, .inl ⟨rfl, rfl⟩⟩
  | case3 rest =>
    have hnames : names ('.' :: '/' :: rest) = names ('/' :: rest) :=
      names_dot_append (.inr ⟨rest, rfl⟩)
    right
    obtain ⟨hnil, hnone⟩ | ⟨hne, last, hprefix, hlast⟩ := upper_cases ('/' :: rest)
    · exact ⟨[], (if_pos hnil).trans (if_pos rfl), List.nil_prefix, .inl ⟨hnames.trans hnone, rfl⟩⟩
    · refine ⟨_, if_neg hne, List.cons_prefix_cons.2 ⟨rfl, hprefix⟩, .inr ⟨last, ?_⟩⟩
      -- what is left behind the dot begins with a separator, like the location
      have hupper := hprefix
      generalize (trimIdle _).reverse = upper at hupper hlast ⊢
      rw [hnames, hlast]
      refine congrArg (· ++ [last]) (names_dot_append ?_).symm
      cases upper with
      | nil => exact .inl rfl
      | cons c tail => exact .inr ⟨tail, by rw [(List.cons_prefix_cons.1 hupper).1]⟩
  | case4 location hslash hdot hdots =>
    obtain ⟨hnil, hnone⟩ | ⟨hne, last, hprefix, hlast⟩ := upper_cases location
    · left
      obtain rfl := eq_nil_of_names hroot hdot hdots hnone
      exact ⟨rfl, rfl⟩
    · right
      exact ⟨_, if_neg hne, hprefix, .inr ⟨last, hlast⟩⟩

/-! ## All the way up -/

theorem selfAndAbove_eq (location : List Char) :
    CommandLine.selfAndAbove location =
      location :: ((parent? location).map CommandLine.selfAndAbove).getD [] := by
  rw [CommandLine.selfAndAbove]
  split <;> next h => rw [h]; rfl

/-- Going up from a rooted location, the last name goes each time, down to none. -/
theorem map_names_selfAndAbove (hroot : isRooted location = true) :
    (CommandLine.selfAndAbove location).map names = (names location).inits.reverse := by
  induction location using CommandLine.selfAndAbove.induct with
  | case1 location ih =>
    rw [selfAndAbove_eq]
    obtain ⟨hparent, hnames⟩ | ⟨parent, last, hparent, hup, -, hnames⟩ := parent?_cases hroot
    · rw [hparent, hnames]
      simp [hnames]
    · rw [hparent, hnames, List.inits_append, List.map_cons, Option.map_some, Option.getD_some,
        ih parent hparent hup, hnames]
      simp

/-- All of them are the starts of the location. -/
theorem prefix_of_mem_selfAndAbove (hroot : isRooted location = true) {directory : List Char}
    (h : directory ∈ CommandLine.selfAndAbove location) :
    isRooted directory = true ∧ directory <+: location := by
  induction location using CommandLine.selfAndAbove.induct with
  | case1 location ih =>
    rw [selfAndAbove_eq, List.mem_cons] at h
    obtain rfl | h := h
    · exact ⟨hroot, List.prefix_rfl⟩
    · obtain ⟨hparent, -⟩ | ⟨parent, last, hparent, hup, hprefix, -⟩ := parent?_cases hroot
      · rw [hparent] at h
        cases h
      · rw [hparent, Option.map_some, Option.getD_some] at h
        obtain ⟨hrooted, hstart⟩ := ih parent hparent hup h
        exact ⟨hrooted, hstart.trans hprefix⟩

/-- Going up from a location that hangs on the working directory, the last name goes each time, down
to none; a leading dot makes one more step without a name. -/
theorem map_names_selfAndAbove_of_not_rooted (hroot : isRooted location = false) :
    ∃ more, (more = [] ∨ more = [[]]) ∧
      (CommandLine.selfAndAbove location).map names = (names location).inits.reverse ++ more := by
  -- along the parents; at the end there may be one more, which has no names either
  induction location using CommandLine.selfAndAbove.induct with
  | case1 location ih =>
    rw [selfAndAbove_eq]
    obtain ⟨rfl, hparent⟩ | ⟨parent, hparent, hprefix, ⟨hnone, rfl⟩ | ⟨last, hnames⟩⟩ :=
      parent?_cases_of_not_rooted hroot
    · exact ⟨[], .inl rfl, by rw [hparent]; rfl⟩
    · refine ⟨[[]], .inr rfl, ?_⟩
      have hempty : CommandLine.selfAndAbove [] = [[]] := by
        rw [selfAndAbove_eq]
        rfl
      rw [hparent, Option.map_some, Option.getD_some, hempty, List.map_cons, hnone]
      rfl
    · obtain ⟨more, hmore, hrest⟩ := ih parent hparent (not_isRooted_of_start hroot hprefix)
      refine ⟨more, hmore, ?_⟩
      rw [hparent, List.map_cons, Option.map_some, Option.getD_some, hrest, hnames,
        List.inits_append]
      simp

theorem prefix_of_mem_selfAndAbove_of_not_rooted (hroot : isRooted location = false)
    {directory : List Char} (h : directory ∈ CommandLine.selfAndAbove location) :
    isRooted directory = false ∧ directory <+: location := by
  induction location using CommandLine.selfAndAbove.induct with
  | case1 location ih =>
    rw [selfAndAbove_eq, List.mem_cons] at h
    obtain rfl | h := h
    · exact ⟨hroot, List.prefix_rfl⟩
    · obtain ⟨rfl, hparent⟩ | ⟨parent, hparent, hprefix, -⟩ := parent?_cases_of_not_rooted hroot
      · rw [hparent] at h
        cases h
      · rw [hparent, Option.map_some, Option.getD_some] at h
        obtain ⟨hrelative, hstart⟩ := ih parent hparent (not_isRooted_of_start hroot hprefix) h
        exact ⟨hrelative, hstart.trans hprefix⟩

/-- A location and the directories above it, each under a start of the location: the first one has
all the names, the next one has all but the last, and so on down to the root. -/
structure GoingUp (location : List Char) (directories : List (List Char)) : Prop where
  names : directories.map names = (names location).inits.reverse
  rooted : ∀ directory ∈ directories, isRooted directory = true
  starts : ∀ directory ∈ directories, directory <+: location

theorem goingUp_selfAndAbove (hroot : isRooted location = true) :
    GoingUp location (CommandLine.selfAndAbove location) where
  names := map_names_selfAndAbove hroot
  rooted _ h := (prefix_of_mem_selfAndAbove hroot h).1
  starts _ h := (prefix_of_mem_selfAndAbove hroot h).2

end Files

end Locator
