import Locator.Text.Split

/-!
# Display paths

A display names another display, or an image, by a path: segments with `/` between them, read from
the root when the path is absolute and below some other display when it is not. URLs are paths too;
the slashes of the scheme and of the host count as ordinary separators.

* `normalize` writes one separator and removes `segment/..` pairs,
* `directory` is what stands before the last separator,
* `segments` lists the parts of a path.

All three work on characters (`unifySeparators`, `collapse`, `beforeLastSlash`, `Text.split`); the
functions on `String` only convert.
-/

namespace Locator.Path

/-! ## Kinds of path -/

/-- A URL names its scheme, `http` or `https`. -/
def isUrl (path : String) : Bool :=
  "http://".toList.isPrefixOf path.toList || "https://".toList.isPrefixOf path.toList

/-- An absolute path means the same below every parent: it starts at the root or is a URL. -/
def isAbsolute (path : String) : Bool :=
  ['/'].isPrefixOf path.toList || isUrl path

/-! ## Characters -/

/-- Reads from left to right: a backslash on its own is a separator, two in a row stand for
themselves. -/
def unifySeparators : List Char → List Char
  | '\\' :: '\\' :: rest => '\\' :: '\\' :: unifySeparators rest
  | '\\' :: rest => '/' :: unifySeparators rest
  | c :: rest => c :: unifySeparators rest
  | [] => []

/-- The text around the leftmost `/../`. -/
def splitClimb : List Char → Option (List Char × List Char)
  | '/' :: '.' :: '.' :: '/' :: rest => some ([], rest)
  | c :: rest => (splitClimb rest).map fun (before, after) => (c :: before, after)
  | [] => none

/-- The text before the last separator, if there is one. -/
def beforeLastSlash : List Char → Option (List Char)
  | [] => none
  | c :: rest =>
    match beforeLastSlash rest with
    | some before => some (c :: before)
    | none => if c = '/' then some [] else none

/-- Removes the leftmost `/..` that is followed by a separator, together with the segment in front
of it. There is nothing to remove when no separator stands in front of that segment. -/
def cancelClimb (path : List Char) : Option (List Char) := do
  let (before, after) ← splitClimb path
  let kept ← beforeLastSlash before
  return kept ++ '/' :: after

theorem length_of_splitClimb {path before after : List Char}
    (h : splitClimb path = some (before, after)) :
    path.length = before.length + 4 + after.length := by
  fun_induction splitClimb path generalizing before with
  | case1 rest =>
    obtain ⟨rfl, rfl⟩ := Prod.mk.inj (Option.some.inj h)
    simp only [List.length_cons, List.length_nil]
    omega
  | case2 c rest _ ih =>
    obtain ⟨⟨b, a⟩, hb, he⟩ := Option.map_eq_some_iff.1 h
    obtain ⟨rfl, rfl⟩ := Prod.mk.inj he
    simp only [List.length_cons, ih hb]
    omega
  | case3 => exact nomatch h

theorem length_of_beforeLastSlash {path before : List Char}
    (h : beforeLastSlash path = some before) : before.length < path.length := by
  induction path generalizing before with
  | nil => exact nomatch h
  | cons c rest ih =>
    rw [beforeLastSlash] at h
    split at h
    · next kept hk =>
      obtain rfl := Option.some.inj h
      simpa using ih hk
    · split at h
      · obtain rfl := Option.some.inj h
        simp
      · exact nomatch h

/-- Cancelling makes a path shorter, so it can only happen finitely often. -/
theorem length_of_cancelClimb {path shorter : List Char} (h : cancelClimb path = some shorter) :
    shorter.length < path.length := by
  simp only [cancelClimb, Option.bind_eq_bind, Option.pure_def, Option.bind_eq_some_iff,
    Option.some.injEq, Prod.exists] at h
  obtain ⟨before, after, hs, kept, hk, rfl⟩ := h
  have hlen := length_of_splitClimb hs
  have hlt := length_of_beforeLastSlash hk
  simp only [List.length_append, List.length_cons]
  omega

/-- Cancels climbs from the left until the leftmost one has nothing to cancel. -/
def collapse (path : List Char) : List Char :=
  match _h : cancelClimb path with
  | some shorter => collapse shorter
  | none => path
termination_by path.length
decreasing_by exact length_of_cancelClimb _h

/-- Leaves out the empty parts at the end. -/
def dropTrailingEmpty (parts : List (List Char)) : List (List Char) :=
  (parts.reverse.dropWhile List.isEmpty).reverse

/-! ## Paths -/

/-- One separator, and no `segment/..` that could be left out. A `..` with nothing in front of it
stays, and so does everything behind it. -/
def normalize (path : String) : String :=
  String.ofList (collapse (unifySeparators path.toList))

/-- The directory of a normalized path: the text before its last separator, `.` for a bare name. -/
def directory (path : String) : String :=
  match beforeLastSlash (normalize path).toList with
  | some before => String.ofList before
  | none => "."

/-- The parts of a path. One leading separator is not a part of its own, nor is anything empty at
the end; a path without separators is one part, even when it is empty. -/
def segments (path : String) : List String :=
  let relative := match path.toList with
    | '/' :: rest => rest
    | chars => chars
  if relative.contains '/' then (dropTrailingEmpty (Text.split '/' relative)).map String.ofList
  else [String.ofList relative]

end Locator.Path
