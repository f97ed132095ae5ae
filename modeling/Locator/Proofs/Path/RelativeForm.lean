import Locator.Proofs.Path.Roots
import Locator.Proofs.Path.RoundTrip

/-!
# The relative form of a path

The way from a directory to an absolute path is written with the segments that the path has behind
the directory. It never starts with a separator, but a directory may be followed by segments that
look like the beginning of a URL: a mirror keeps pages under the URLs that they have elsewhere. The
way down to such a page is the URL of the page that is mirrored, and no relative path.

* `segments_prefix_split`: the segments of a path and its parts
* `relativeTo_eq`: the way to an absolute path, without empty segments in front
* `isUrl_intercalate_iff`: when segments make a URL
* `relativeTo_isAbsolute_iff`: when the way is no relative path, and what that means for reading it
-/

namespace Locator.Path

open Text

variable {path part relative : List Char} {parts : List (List Char)} {parent p : String}
  {segs : List String}

/-! ## Segments and parts -/

/-- A separator in front is no part of the segments. -/
theorem segments_prefix_split (p : String) :
    (segments p).map String.toList <+:
      if p.toList.head? = some '/' then (split '/' p.toList).tail else split '/' p.toList := by
  split
  · next hroot =>
    obtain ⟨relative, hp⟩ := List.head?_eq_some_iff.1 hroot
    rw [segments_of_toList_eq hp, hp]
    exact relativeSegments_prefix_split relative
  · next hroot =>
    rw [segments_of_head?_ne hroot]
    exact relativeSegments_prefix_split p.toList

/-! ## The way to an absolute path -/

/-- The segments of the way from the directory of `parent` to an absolute path, without empty ones
in front. -/
def waySegments (parent path : String) : List String :=
  let here := segments (directory parent)
  let there := segments (normalize path)
  let common := commonLength here there
  (List.replicate (here.length - common) ".." ++ there.drop common).dropWhile (· == "")

theorem relativeTo_of_relative {path : String} (h : isAbsolute (normalize path) = false)
    (parent : String) : relativeTo parent path = normalize path := by
  simp [relativeTo, h]

theorem relativeTo_eq {path : String} (h : isAbsolute (normalize path) = true) (parent : String) :
    relativeTo parent path = "/".intercalate (waySegments parent path) := by
  simp only [relativeTo, h, if_true]
  rw [joinSegments_eq]
  rfl

theorem slash_not_mem_of_mem_way {parent path s : String} (h : s ∈ waySegments parent path) :
    '/' ∉ s.toList := by
  obtain hup | hdown := List.mem_append.1 ((List.dropWhile_suffix _).subset h)
  · rw [List.eq_of_mem_replicate hup]
    decide
  · exact slash_not_mem_of_mem_segments (List.mem_of_mem_drop hdown)

theorem head?_dropWhile_ne (segs : List String) :
    (segs.dropWhile (· == "")).head? ≠ some "" := by
  induction segs with
  | nil => simp
  | cons first rest ih =>
    by_cases hfirst : first = ""
    · rwa [List.dropWhile_cons_of_pos (by simpa using hfirst)]
    · rw [List.dropWhile_cons_of_neg (by simpa using hfirst)]
      simpa using hfirst

/-! ## Kinds of joined segments -/

theorem head?_intercalate_ne (h : ∀ s ∈ segs, '/' ∉ s.toList) (hhead : segs.head? ≠ some "") :
    ("/".intercalate segs).toList.head? ≠ some '/' := by
  cases segs with
  | nil => simp
  | cons first rest =>
    intro hslash
    obtain ⟨tail, htail⟩ := List.head?_eq_some_iff.1 hslash
    have hparts := split_intercalate_segments (List.cons_ne_nil first rest) h
    have hroot : split '/' ('/' :: tail) = [] :: split '/' tail := split_append '/' [] tail
    rw [htail, hroot, List.map_cons] at hparts
    have hempty := String.toList_eq_nil_iff.1 (List.cons.inj hparts).1.symm
    exact hhead (by rw [hempty]; rfl)

/-- Segments make a URL when the first one is a scheme, the second one is empty, and there is a
third one. -/
theorem isUrl_intercalate_iff (h : ∀ s ∈ segs, '/' ∉ s.toList) :
    isUrl ("/".intercalate segs) = true ↔
      ∃ scheme host more, segs = scheme :: "" :: host :: more ∧
        (scheme = "http:" ∨ scheme = "https:") := by
  rw [isUrl_iff_site]
  constructor
  · rintro ⟨scheme, host, hsite, hscheme⟩
    have hne : segs ≠ [] := by
      rintro rfl
      cases hsite
    rw [site, split_intercalate_segments hne h, ← List.map_take] at hsite
    -- three parts are there, so there are three segments
    obtain ⟨first, behind, hfirst, rfl, hbehind⟩ := List.map_eq_cons_iff.1 hsite
    obtain ⟨second, third, hsecond, hempty, hthird⟩ := List.map_eq_cons_iff.1 hbehind
    obtain ⟨third, rfl, rfl⟩ := List.map_eq_singleton_iff.1 hthird
    rw [String.toList_eq_nil_iff.1 hempty] at hsecond
    rw [hsecond] at hfirst
    refine ⟨first, third, segs.drop 3, ?_,
      hscheme.imp (fun h => String.toList_injective h) fun h => String.toList_injective h⟩
    calc segs = segs.take 3 ++ segs.drop 3 := (List.take_append_drop 3 segs).symm
      _ = first :: "" :: third :: segs.drop 3 := by
        rw [hfirst]
        rfl
  · rintro ⟨scheme, host, more, rfl, hscheme⟩
    refine ⟨scheme.toList, host.toList, ?_, hscheme.imp (congrArg _) (congrArg _)⟩
    rw [site, split_intercalate_segments (List.cons_ne_nil _ _) h]
    rfl

/-! ## When the way is absolute -/

/-- The way is a URL if and only if it leads down only, and the segments that it leads to are those
of a URL, with empty ones in front. -/
theorem way_url_iff {parent path : String} :
    (∃ scheme host more, waySegments parent path = scheme :: "" :: host :: more ∧
        (scheme = "http:" ∨ scheme = "https:")) ↔
      ∃ idle scheme host more, segments (normalize path) =
          segments (directory parent) ++ idle ++ scheme :: "" :: host :: more ∧
        (∀ s ∈ idle, s = "") ∧ (scheme = "http:" ∨ scheme = "https:") := by
  rw [waySegments]
  generalize segments (directory parent) = here
  generalize segments (normalize path) = there
  constructor
  · rintro ⟨scheme, host, more, hway, hscheme⟩
    have hne : scheme ≠ ".." := by
      obtain rfl | rfl := hscheme
      · decide
      · decide
    -- a step up would have been the first segment
    have hdown : here.length - commonLength here there = 0 := by
      cases hup : here.length - commonLength here there with
      | zero => rfl
      | succ k =>
        rw [hup, List.replicate_succ, List.cons_append,
          List.dropWhile_cons_of_neg (by decide)] at hway
        exact absurd (List.cons.inj hway).1.symm hne
    rw [hdown, List.replicate_zero, List.nil_append] at hway
    have hall : commonLength here there = here.length :=
      Nat.le_antisymm (commonLength_le here there).1 (Nat.sub_eq_zero_iff_le.1 hdown)
    refine ⟨(there.drop here.length).takeWhile (· == ""), scheme, host, more, ?_, ?_, hscheme⟩
    · have htake := take_commonLength here there
      rw [hall, List.take_length] at htake
      rw [← hway, hall, List.append_assoc, List.takeWhile_append_dropWhile]
      calc there = there.take here.length ++ there.drop here.length :=
            (List.take_append_drop here.length there).symm
        _ = here ++ there.drop here.length := by rw [← htake]
    · intro s hs
      exact eq_of_beq (List.all_eq_true.1 List.all_takeWhile s hs)
  · rintro ⟨idle, scheme, host, more, rfl, hidle, hscheme⟩
    -- the directory is shared as a whole, and the empty segments behind it are left out
    have hne : scheme ≠ "" := by
      obtain rfl | rfl := hscheme
      · decide
      · decide
    have hcommon := commonLength_append here [] (idle ++ scheme :: "" :: host :: more)
    rw [List.append_nil, (commonLength_eq_zero_iff [] _).2 (Or.inl rfl), Nat.add_zero,
      ← List.append_assoc] at hcommon
    refine ⟨scheme, host, more, ?_, hscheme⟩
    rw [hcommon, Nat.sub_self, List.replicate_zero, List.nil_append, List.append_assoc,
      List.drop_left, List.dropWhile_append_of_pos (by simpa using hidle),
      List.dropWhile_cons_of_neg (by simpa using hne)]

/-! ## Reading the way -/

theorem mem_dropLast_of_prefix {α : Type} {l whole : List α} {a : α} (h : l <+: whole)
    (ha : a ∈ l.dropLast) : a ∈ whole.dropLast := by
  obtain ⟨more, rfl⟩ := h
  by_cases hmore : more = []
  · rwa [hmore, List.append_nil]
  · rw [List.dropLast_append_of_ne_nil hmore]
    exact List.mem_append_left _ (List.dropLast_subset l ha)

/-- A path below the root in normal form has no step up among its directories, unless it begins with
one. -/
theorem up_not_mem_of_root {tail : List Char} (h : Normal ('/' :: tail))
    (hclimb : ¬ climb <+: '/' :: tail) : up ∉ (split '/' tail).dropLast := by
  obtain ⟨dirs, last, htail⟩ := exists_split_eq '/' tail
  have hparts : split '/' ('/' :: tail) = ([] :: dirs) ++ [last] := by
    rw [List.cons_append, ← htail]
    exact split_append '/' [] tail
  rw [htail, List.dropLast_concat]
  obtain hnot | hstuck := h.settled_dirs hparts
  · exact hnot
  · -- a step up in front of all directories has a separator on both sides
    obtain ⟨more, rfl⟩ : ∃ more, dirs = up :: more := List.head?_eq_some_iff.1 hstuck
    obtain ⟨front, back, rfl, hfront, -⟩ := exists_of_split_eq_append (List.cons_ne_nil up [])
      (List.append_ne_nil_of_right_ne_nil more (List.cons_ne_nil last [])) htail
    obtain ⟨rfl, -⟩ := eq_of_split_eq_singleton hfront
    exact absurd ⟨back, climb_append back⟩ hclimb

/-- A URL in normal form has no step up in front of its last part. -/
theorem up_not_mem_of_isUrl (h : Normal p.toList) (hurl : isUrl p = true) :
    up ∉ (split '/' p.toList).dropLast := by
  obtain ⟨scheme, tail, hp, hscheme⟩ := isUrl_iff.1 hurl
  have hslash : '/' ∉ scheme ∧ scheme ≠ up := by
    obtain rfl | rfl := hscheme
    · decide
    · decide
  obtain ⟨dirs, last, htail⟩ := exists_split_eq '/' tail
  have hsecond : split '/' ('/' :: tail) = [] :: split '/' tail := split_append '/' [] tail
  have hparts : split '/' p.toList = (scheme :: [] :: dirs) ++ [last] := by
    rw [hp, split_append, split_of_not_mem hslash.1, hsecond, htail]
    rfl
  rw [hparts, List.dropLast_concat, List.mem_cons, not_or]
  refine ⟨hslash.2.symm, ?_⟩
  -- the second part is empty, so no step up is stuck in front
  obtain hnot | hstuck := h.settled_dirs hparts
  · exact hnot
  · exact nomatch hstuck

/-- In the segments of an absolute path in normal form a step up can be the last one only, unless
the path leads above the root. -/
theorem up_not_mem_dropLast_segments (h : Normal p.toList) (habsolute : isAbsolute p = true)
    (hclimb : ¬ climb <+: p.toList) : up ∉ ((segments p).map String.toList).dropLast := by
  intro hmem
  have hinner := mem_dropLast_of_prefix (segments_prefix_split p) hmem
  by_cases hroot : p.toList.head? = some '/'
  · obtain ⟨tail, htail⟩ := List.head?_eq_some_iff.1 hroot
    have hparts : split '/' ('/' :: tail) = [] :: split '/' tail := split_append '/' [] tail
    rw [if_pos hroot, htail, hparts, List.tail_cons] at hinner
    rw [htail] at h hclimb
    exact up_not_mem_of_root h hclimb hinner
  · rw [if_neg hroot] at hinner
    exact up_not_mem_of_isUrl h ((isAbsolute_iff.1 habsolute).resolve_left hroot) hinner

/-- The segments of the way are steps up and then some that the path ends in. -/
theorem way_cases (parent path : String) :
    ∃ steps down, waySegments parent path = List.replicate steps ".." ++ down ∧
      down <:+ segments (normalize path) := by
  rw [waySegments]
  generalize segments (directory parent) = here
  generalize segments (normalize path) = there
  cases here.length - commonLength here there with
  | zero => exact ⟨0, _, rfl, (List.dropWhile_suffix _).trans (List.drop_suffix _ _)⟩
  | succ k =>
    refine ⟨k + 1, there.drop (commonLength here there), ?_, List.drop_suffix _ _⟩
    rw [List.replicate_succ, List.cons_append, List.dropWhile_cons_of_neg (by decide)]

theorem settled_dropLast_replicate (steps : Nat) (h : up ∉ parts.dropLast) :
    Settled (List.replicate steps up ++ parts).dropLast := by
  by_cases hparts : parts = []
  · subst hparts
    have hsteps := settled_replicate (steps - 1) h
    rw [List.append_nil, List.dropLast_replicate]
    rwa [List.dropLast_nil, List.append_nil] at hsteps
  · rw [List.dropLast_append_of_ne_nil hparts]
    exact settled_replicate steps h

theorem unifySeparators_of_mem_segments {s : String} (h : Normal p.toList) (hs : s ∈ segments p) :
    unifySeparators s.toList = s.toList := by
  apply unifySeparators_eq_self_iff_parts.1 h.unified
  have hmem := (segments_prefix_split p).subset (List.mem_map_of_mem hs)
  split at hmem
  · exact List.mem_of_mem_tail hmem
  · exact hmem

/-- No directory of the way is taken by a step up behind it, unless the path leads above the
root. -/
theorem settled_way {path : String} (habsolute : isAbsolute (normalize path) = true)
    (hclimb : ¬ climb <+: (normalize path).toList) (parent : String) :
    Settled ((waySegments parent path).map String.toList).dropLast := by
  obtain ⟨steps, down, hway, hdown⟩ := way_cases parent path
  -- what the way leads down ends in the segments of the path
  have hup : up ∉ (down.map String.toList).dropLast := by
    intro hmem
    apply up_not_mem_dropLast_segments (normal_normalize path) habsolute hclimb
    obtain ⟨front, hfront⟩ := hdown
    have hne : down.map String.toList ≠ [] := by
      rintro hnil
      rw [hnil] at hmem
      exact nomatch hmem
    rw [← hfront, List.map_append, List.dropLast_append_of_ne_nil hne]
    exact List.mem_append_right _ hmem
  rw [hway, List.map_append, List.map_replicate, toList_up]
  exact settled_dropLast_replicate steps hup

theorem unifySeparators_of_mem_way {parent path s : String} (h : s ∈ waySegments parent path) :
    unifySeparators s.toList = s.toList := by
  obtain ⟨steps, down, hway, hdown⟩ := way_cases parent path
  rw [hway, List.mem_append] at h
  obtain hs | hs := h
  · rw [List.eq_of_mem_replicate hs]
    decide
  · exact unifySeparators_of_mem_segments (normal_normalize path) (hdown.subset hs)

/-- The way is in normal form, unless the path leads above the root. -/
theorem normal_relativeTo {path : String} (hclimb : ¬ climb <+: (normalize path).toList)
    (parent : String) : Normal (relativeTo parent path).toList := by
  cases habsolute : isAbsolute (normalize path) with
  | false =>
    rw [relativeTo_of_relative habsolute]
    exact normal_normalize path
  | true =>
    rw [relativeTo_eq habsolute]
    by_cases hnil : waySegments parent path = []
    · rw [hnil]
      exact normalize_eq_self_iff.1 (by decide +kernel)
    · have hsplit := split_intercalate_segments hnil fun s hs => slash_not_mem_of_mem_way hs
      obtain ⟨dirs, last, hparts⟩ := exists_split_eq '/' ("/".intercalate _).toList
      refine normal_of_parts hparts ?_ ?_
      · have hdirs := settled_way habsolute hclimb parent
        rwa [← hsplit, hparts, List.dropLast_concat] at hdirs
      · rw [← hparts, hsplit]
        intro part hpart
        obtain ⟨s, hs, rfl⟩ := List.mem_map.1 hpart
        exact unifySeparators_of_mem_way hs

/-- The way never starts with a separator: a path that is not absolute does not, and segments at
the front that are empty are left out. -/
theorem head?_relativeTo_ne (parent path : String) :
    (relativeTo parent path).toList.head? ≠ some '/' := by
  cases habsolute : isAbsolute (normalize path) with
  | false =>
    intro hslash
    rw [relativeTo_of_relative habsolute] at hslash
    have hroot := isAbsolute_iff.2 (Or.inl hslash)
    rw [habsolute] at hroot
    cases hroot
  | true =>
    rw [relativeTo_eq habsolute]
    exact head?_intercalate_ne (fun s hs => slash_not_mem_of_mem_way hs) (head?_dropWhile_ne _)

/-- The way from a directory to a path never starts with a separator. It is absolute if and only if
the path is, begins with the segments of the directory, and goes on with the segments of a URL: a
scheme, an empty segment and a third one, with any number of empty ones in front. Where it is
absolute, reading it from the directory takes no notice of the directory, and where it is not, it is
read from there, if the path does not lead above the root. -/
theorem relativeTo_isAbsolute_iff (parent path : String) :
    (relativeTo parent path).toList.head? ≠ some '/' ∧
    (isAbsolute (relativeTo parent path) = true ↔
      isAbsolute (normalize path) = true ∧ ∃ idle scheme host more,
        segments (normalize path) =
          segments (directory parent) ++ idle ++ scheme :: "" :: host :: more ∧
        (∀ s ∈ idle, s = "") ∧ (scheme = "http:" ∨ scheme = "https:")) ∧
    (parent ≠ "" → ¬ climb <+: (normalize path).toList →
      combine (some parent) (relativeTo parent path) =
        if isAbsolute (relativeTo parent path) then relativeTo parent path
        else normalize (directory parent ++ "/" ++ relativeTo parent path)) := by
  refine ⟨head?_relativeTo_ne parent path, ?_, ?_⟩
  · cases habsolute : isAbsolute (normalize path) with
    | false => simp [relativeTo_of_relative habsolute, habsolute]
    | true =>
      rw [← way_url_iff, ← isUrl_intercalate_iff fun s hs => slash_not_mem_of_mem_way hs,
        ← relativeTo_eq habsolute, isAbsolute_iff, or_iff_right (head?_relativeTo_ne parent path)]
      simp
  · intro hparent hclimb
    -- `combine` normalizes the child first, which leaves the way as it is
    have hnormal := (normal_relativeTo hclimb parent).normalize_eq
    cases habsolute : isAbsolute (relativeTo parent path) with
    | true =>
      rw [combine_of_isAbsolute hparent (by rwa [hnormal]), hnormal]
      rfl
    | false =>
      rw [combine_of_relative hparent (by rwa [hnormal]), hnormal]
      rfl

/-- The way into another directory stays relative, although what it ends in would be a URL. -/
theorem relativeTo_isAbsolute_other_directory :
    ("/web/main.bob" ≠ "" ∧ ¬ climb <+: (normalize "/mirror/http://host/x.bob").toList) ∧
    isAbsolute (relativeTo "/web/main.bob" "/mirror/http://host/x.bob") = false ∧
    relativeTo "/web/main.bob" "/mirror/http://host/x.bob" = "../mirror/http://host/x.bob" ∧
    combine (some "/web/main.bob") "../mirror/http://host/x.bob" =
      normalize (directory "/web/main.bob" ++ "/" ++ "../mirror/http://host/x.bob") := by
  have hparent : "/web/main.bob" ≠ "" := by decide
  have hclimb : ¬ climb <+: (normalize "/mirror/http://host/x.bob").toList := by decide +kernel
  have hway : relativeTo "/web/main.bob" "/mirror/http://host/x.bob" =
      "../mirror/http://host/x.bob" := by decide +kernel
  have hrelative : isAbsolute (relativeTo "/web/main.bob" "/mirror/http://host/x.bob") = false := by
    decide +kernel
  obtain ⟨-, -, hread⟩ := relativeTo_isAbsolute_iff "/web/main.bob" "/mirror/http://host/x.bob"
  have hcombined := hread hparent hclimb
  rw [hrelative, hway] at hcombined
  exact ⟨⟨hparent, hclimb⟩, hrelative, hway, hcombined⟩

/-- Below the directory of a mirror, the way to a page is the URL of the page that is mirrored, and
reading it leads out of the mirror. -/
theorem relativeTo_leaves_mirror :
    relativeTo "https://mirror/web/main.bob" "https://mirror/web/http://host/x.bob" =
      "http://host/x.bob" ∧
    isAbsolute (relativeTo "https://mirror/web/main.bob" "https://mirror/web/http://host/x.bob") =
      true ∧
    combine (some "https://mirror/web/main.bob")
        (relativeTo "https://mirror/web/main.bob" "https://mirror/web/http://host/x.bob") =
      "http://host/x.bob" := by
  decide +kernel

end Locator.Path
