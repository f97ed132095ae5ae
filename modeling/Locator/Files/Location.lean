import Locator.Text.Split

/-!
# File locations

How the text of a location on disk is taken apart and put together. Nothing here looks at the disk.

* `join` puts a name behind a directory,
* `parent?` leaves out the last part,
* `absolute` puts a relative location behind the working directory.
-/

namespace Locator.Files

/-- A part that names nothing: an empty one, or a dot for the same directory. -/
def isIdle (part : List Char) : Bool :=
  part == [] || part == ['.']

/-- The names on the way, without separators and dots. -/
def names (location : List Char) : List (List Char) :=
  (Text.split '/' location).filter (!isIdle ·)

def isRooted (location : List Char) : Bool :=
  location.head? == some '/'

/-- The location of a name in a directory. A rooted name stands for itself. -/
def join (directory name : List Char) : List Char :=
  if isRooted name then name
  else if directory.isEmpty || directory.getLast? == some '/' then directory ++ name
  else directory ++ '/' :: name

/-! ## Leaving out the last part -/

/-- Leaves out separators and dots at the end of a location given back to front. -/
def trimIdle : List Char → List Char
  | '/' :: rest => trimIdle rest
  | '.' :: '/' :: rest => trimIdle rest
  | ['.'] => []
  | reversed => reversed

/-- Splits off what a location hangs on: the leading separator, or a leading dot that stands for the
working directory. -/
def splitAnchor : List Char → List Char × List Char
  | '/' :: rest => (['/'], rest)
  | ['.'] => (['.'], [])
  | '.' :: '/' :: rest => (['.'], '/' :: rest)
  | location => ([], location)

/-- A location without its last part, and without separators and dots in front of that part. A
leading dot is a part; the root and the empty location have none. -/
def parent? (location : List Char) : Option (List Char) :=
  let (anchor, body) := splitAnchor location
  match trimIdle body.reverse with
  | [] => if anchor = ['.'] then some [] else none
  | reversed => some (anchor ++ (trimIdle (reversed.dropWhile (· != '/'))).reverse)

theorem length_trimIdle_le (reversed : List Char) :
    (trimIdle reversed).length ≤ reversed.length := by
  fun_induction trimIdle reversed with
  | case1 rest ih => simp only [List.length_cons]; omega
  | case2 rest ih => simp only [List.length_cons]; omega
  | case3 => simp
  | case4 => omega

theorem head?_trimIdle (reversed : List Char) : (trimIdle reversed).head? ≠ some '/' := by
  fun_induction trimIdle reversed with
  | case1 rest ih => exact ih
  | case2 rest ih => exact ih
  | case3 => simp
  | case4 reversed h _ _ =>
    cases reversed with
    | nil => simp
    | cons c rest =>
      intro hc
      obtain rfl := Option.some.inj hc
      exact h rest rfl

theorem length_splitAnchor (location : List Char) :
    (splitAnchor location).1.length + (splitAnchor location).2.length = location.length := by
  fun_cases splitAnchor location with
  | case1 => simp +arith
  | case2 => simp
  | case3 => simp +arith
  | case4 => simp

/-- Going up from a location ends. -/
theorem length_of_parent? {location parent : List Char} (h : parent? location = some parent) :
    parent.length < location.length := by
  have hlen := length_splitAnchor location
  generalize hsplit : splitAnchor location = split at h hlen
  obtain ⟨anchor, body⟩ := split
  simp only [parent?, hsplit] at h
  split at h
  · split at h
    · next _ ha =>
      obtain rfl := Option.some.inj h
      subst ha
      simp only [List.length_cons, List.length_nil] at hlen ⊢
      omega
    · exact nomatch h
  · next hne =>
    obtain rfl := Option.some.inj h
    have hle := length_trimIdle_le body.reverse
    have hhead := head?_trimIdle body.reverse
    generalize trimIdle body.reverse = reversed at hle hhead hne
    cases reversed with
    | nil => exact absurd rfl hne
    | cons c rest =>
      have hc : (c != '/') = true := by
        simp only [bne_iff_ne]
        rintro rfl
        exact hhead rfl
      have hdrop : ((c :: rest).dropWhile (· != '/')).length ≤ rest.length := by
        rw [List.dropWhile_cons, if_pos hc]
        exact List.dropWhile_sublist _ |>.length_le
      have htrim := length_trimIdle_le ((c :: rest).dropWhile (· != '/'))
      simp only [List.length_append, List.length_reverse, List.length_cons] at hle hlen ⊢
      omega

/-! ## Absolute locations -/

/-- A location as seen from the root. Dots and repeated separators go; `..` stays, and so do a
separator at the end and exactly two of them at the start. -/
def absolute (workingDirectory location : List Char) : List Char :=
  let start :=
    if isRooted location then
      if ['/', '/'].isPrefixOf location && !(['/', '/', '/'].isPrefixOf location) then ['/', '/']
      else ['/']
    else workingDirectory
  let full := (names location).foldl join start
  if location.getLast? == some '/' then join full [] else full

end Locator.Files
