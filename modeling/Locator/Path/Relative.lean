import Locator.Path.Basic

/-!
# Paths below other paths

`combine` reads a path from the directory of a parent display; `relativeTo` goes the other way and
says how to reach a path from there.
-/

namespace Locator.Path

/-- How many leading elements two lists share. -/
def commonLength [BEq α] : List α → List α → Nat
  | a :: as, b :: bs => if a == b then commonLength as bs + 1 else 0
  | _, _ => 0

/-- Puts `/` between segments, and none in front of the first one that is not empty. -/
def joinSegments (segments : List String) : String :=
  segments.foldl
    (fun joined segment => if joined.isEmpty then segment else joined ++ "/" ++ segment) ""

/-- The way from the directory of `parent` to an absolute path: up to the last shared segment, then
down. A path that is not absolute is already such a way. -/
def relativeTo (parent path : String) : String :=
  let path := normalize path
  if isAbsolute path then
    let here := segments (directory parent)
    let there := segments path
    let common := commonLength here there
    joinSegments (List.replicate (here.length - common) ".." ++ there.drop common)
  else path

/-- Reads `path` from the directory of `parent`. Without a parent, or with an empty one, the path
stays as it is; an absolute path does not depend on the parent. -/
def combine (parent : Option String) (path : String) : String :=
  match parent with
  | none => path
  | some parent =>
    if parent.isEmpty then path
    else
      let path := normalize path
      if isAbsolute path then path
      else normalize (directory (normalize parent) ++ "/" ++ path)

end Locator.Path
