import Locator.Proofs.Path.Parts
import Locator.Proofs.Path.Separators

/-!
# Absolute paths and URLs

Which of the two kinds a path is, told from its characters and from its parts.

* `isUrl_iff`, `isUrl_iff_site`: a URL begins with a scheme, two separators and a host
* `isUrl_unifySeparators`: a URL is one whatever its backslashes stand for
* `isAbsolute_eq_false_of_parts`: a path without empty parts is not absolute
-/

namespace Locator.Path

open Text

variable {p q : String}

/-- Scheme and host of a URL, with the empty part between them. -/
def site (path : List Char) : List (List Char) :=
  (split '/' path).take 3

/-- A URL begins with one of two schemes and two separators. -/
theorem isUrl_iff : isUrl p = true ↔ ∃ scheme tail, p.toList = scheme ++ '/' :: '/' :: tail ∧
    (scheme = "http:".toList ∨ scheme = "https:".toList) := by
  rw [isUrl, Bool.or_eq_true, List.isPrefixOf_iff_prefix, List.isPrefixOf_iff_prefix]
  constructor
  · rintro (⟨tail, htail⟩ | ⟨tail, htail⟩)
    · exact ⟨"http:".toList, tail, by rw [← htail]; rfl, Or.inl rfl⟩
    · exact ⟨"https:".toList, tail, by rw [← htail]; rfl, Or.inr rfl⟩
  · rintro ⟨scheme, tail, hp, rfl | rfl⟩
    · exact Or.inl ⟨tail, by rw [hp]; rfl⟩
    · exact Or.inr ⟨tail, by rw [hp]; rfl⟩

/-- Whether a path is a URL shows in its first three parts. -/
theorem isUrl_iff_site : isUrl p = true ↔
    ∃ scheme host, site p.toList = [scheme, [], host] ∧
      (scheme = "http:".toList ∨ scheme = "https:".toList) := by
  rw [isUrl_iff]
  constructor
  · rintro ⟨scheme, tail, hp, hscheme⟩
    have hslash : '/' ∉ scheme := by
      obtain rfl | rfl := hscheme
      · decide
      · decide
    obtain ⟨host, rest, htail⟩ := List.exists_cons_of_ne_nil (split_ne_nil '/' tail)
    have hrest : split '/' ('/' :: tail) = [] :: split '/' tail := split_append '/' [] tail
    refine ⟨scheme, host, ?_, hscheme⟩
    rw [site, hp, split_append, split_of_not_mem hslash, hrest, htail]
    rfl
  · rintro ⟨scheme, host, hsite, hscheme⟩
    -- cut behind the scheme, and behind the empty part
    have hparts : split '/' p.toList =
        [scheme] ++ ([[]] ++ (host :: (split '/' p.toList).drop 3)) := by
      calc split '/' p.toList
          = site p.toList ++ (split '/' p.toList).drop 3 := (List.take_append_drop 3 _).symm
        _ = _ := by rw [hsite]; rfl
    obtain ⟨front, back, hp, hfront, hback⟩ :=
      exists_of_split_eq_append (List.cons_ne_nil scheme []) (by simp) hparts
    obtain ⟨middle, tail, rfl, hmiddle, -⟩ :=
      exists_of_split_eq_append (List.cons_ne_nil [] []) (by simp) hback
    obtain ⟨rfl, -⟩ := eq_of_split_eq_singleton hfront
    obtain ⟨rfl, -⟩ := eq_of_split_eq_singleton hmiddle
    exact ⟨front, tail, hp, hscheme⟩

theorem isUrl_of_site_eq (hp : isUrl p = true)
    (h : site q.toList = site p.toList) : isUrl q = true := by
  rw [isUrl_iff_site] at hp ⊢
  rwa [h]

/-- The separators of a URL's scheme are not its backslashes. -/
theorem isUrl_unifySeparators (h : isUrl p = true) :
    isUrl (String.ofList (unifySeparators p.toList)) = true := by
  obtain ⟨scheme, tail, hp, hscheme⟩ := isUrl_iff.1 h
  have hfree : '\\' ∉ scheme := by
    obtain rfl | rfl := hscheme
    · decide
    · decide
  refine isUrl_iff.2 ⟨scheme, unifySeparators tail, ?_, hscheme⟩
  have htail : unifySeparators ('/' :: tail) = '/' :: unifySeparators tail :=
    unifySeparators_append_slash [] tail
  rw [String.toList_ofList, hp, unifySeparators_append_slash, unifySeparators_of_not_mem hfree,
    htail]

/-- An absolute path has an empty part: in front when it starts at the root, and behind the scheme
when it is a URL. -/
theorem isAbsolute_eq_false_of_parts (h : [] ∉ split '/' p.toList) : isAbsolute p = false := by
  rw [← Bool.not_eq_true]
  intro habsolute
  rw [isAbsolute, Bool.or_eq_true, List.isPrefixOf_iff_prefix] at habsolute
  obtain ⟨tail, htail⟩ | hurl := habsolute
  · have hparts : split '/' p.toList = [] :: split '/' tail := by
      rw [← htail]
      exact split_append '/' [] tail
    exact h (hparts ▸ List.mem_cons_self)
  · obtain ⟨scheme, host, hsite, -⟩ := isUrl_iff_site.1 hurl
    have hmem : [] ∈ site p.toList := by
      rw [hsite]
      simp
    exact h (List.mem_of_mem_take hmem)

end Locator.Path
