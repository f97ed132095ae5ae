import Locator.Proofs.Path.Endings
import Locator.Proofs.Resolver.Candidates
import Mathlib.Data.List.Forall2

/-!
# Extensions of a name

A name with the legacy extension is tried with the current one first. The extension is exchanged in
the name as it is written, before any candidate is made of it. No step on the way to a candidate
looks at what stands behind the last separator, so the candidates come out as if the extension had
been exchanged in each of them: they are the siblings of the candidates for the name.

* `upgrade?_eq_some_iff`: what upgrading a name does
* `Siblings.combine`: siblings stay siblings when they are read from a directory
* `upgraded_candidates`: what is tried for an upgraded name
-/

namespace Locator.Resolver

open Locator.Path (Unseparated)

variable {settings : Settings} {name other extension : String}

/-! ## Siblings -/

/-- An extension as it stands at the end of a name. -/
def dotted (extension : String) : String := "." ++ extension

theorem toList_dotted (extension : String) :
    (dotted extension).toList = '.' :: extension.toList := by
  rw [dotted, String.toList_append]
  rfl

theorem unseparated_dotted (h : Unseparated extension) : Unseparated (dotted extension) where
  slash := by
    rw [toList_dotted, List.mem_cons, not_or]
    exact ⟨by decide, h.slash⟩
  backslash := by
    rw [toList_dotted, List.mem_cons, not_or]
    exact ⟨by decide, h.backslash⟩

/-- Two names that differ in the extension only: the first one has the legacy extension, the other
one the current extension in its place. -/
def Siblings (settings : Settings) (name other : String) : Prop :=
  ∃ stem, name = stem ++ dotted settings.legacyExtension ∧
    other = stem ++ dotted settings.currentExtension

theorem upgrade?_eq_some_iff :
    upgrade? settings name = some other ↔ Siblings settings name other := by
  rw [upgrade?, Option.ite_none_right_eq_some, List.isSuffixOf_iff_suffix, ← toList_dotted,
    ← toList_dotted]
  constructor
  · rintro ⟨⟨stem, hstem⟩, hother⟩
    refine ⟨String.ofList stem, ?_, ?_⟩
    · apply String.toList_injective
      rw [String.toList_append, String.toList_ofList, hstem]
    · -- as many characters are cut off as the extension has
      have hlen : name.length - (dotted settings.legacyExtension).toList.length = stem.length := by
        rw [← String.length_toList, ← hstem, List.length_append, Nat.add_sub_cancel]
      apply String.toList_injective
      rw [← Option.some.inj hother, hlen, ← hstem, List.take_left, String.toList_append,
        String.toList_ofList, String.toList_ofList]
  · rintro ⟨stem, rfl, rfl⟩
    have hlen : (stem ++ dotted settings.legacyExtension).length -
        (dotted settings.legacyExtension).toList.length = stem.toList.length := by
      rw [String.length_append, String.length_toList, String.length_toList, Nat.add_sub_cancel]
    refine ⟨⟨stem.toList, (String.toList_append ..).symm⟩, congrArg some ?_⟩
    apply String.toList_injective
    rw [hlen, String.toList_append, List.take_left, String.toList_ofList, String.toList_append]

/-- A name with the legacy extension has a sibling. -/
theorem exists_sibling (h : (dotted settings.legacyExtension).toList <:+ name.toList) :
    ∃ other, Siblings settings name other := by
  obtain ⟨stem, hstem⟩ := h
  refine ⟨_, String.ofList stem, ?_, rfl⟩
  apply String.toList_injective
  rw [String.toList_append, String.toList_ofList, hstem]

theorem Siblings.ends (h : Siblings settings name other) :
    (dotted settings.legacyExtension).toList <:+ name.toList := by
  obtain ⟨stem, rfl, -⟩ := h
  rw [String.toList_append]
  exact List.suffix_append _ _

/-! ## Siblings as paths -/

section Separators

variable (hlegacy : Unseparated settings.legacyExtension)
  (hcurrent : Unseparated settings.currentExtension)

include hlegacy hcurrent

theorem Siblings.isUrl_eq (h : Siblings settings name other) :
    Path.isUrl other = Path.isUrl name := by
  obtain ⟨stem, rfl, rfl⟩ := h
  rw [Path.isUrl_append (unseparated_dotted hcurrent).slash,
    Path.isUrl_append (unseparated_dotted hlegacy).slash]

theorem Siblings.isAbsolute_normalize_eq (h : Siblings settings name other) :
    Path.isAbsolute (Path.normalize other) = Path.isAbsolute (Path.normalize name) := by
  obtain ⟨stem, rfl, rfl⟩ := h
  rw [Path.normalize_append (unseparated_dotted hcurrent),
    Path.normalize_append (unseparated_dotted hlegacy),
    Path.isAbsolute_append (unseparated_dotted hcurrent).slash,
    Path.isAbsolute_append (unseparated_dotted hlegacy).slash]

theorem Siblings.combine (h : Siblings settings name other) (parent : Option String) :
    Siblings settings (Path.combine parent name) (Path.combine parent other) := by
  obtain ⟨stem, rfl, rfl⟩ := h
  exact ⟨Path.combine parent stem, Path.combine_append (unseparated_dotted hlegacy) parent stem,
    Path.combine_append (unseparated_dotted hcurrent) parent stem⟩

/-! ## Candidates -/

omit hlegacy hcurrent in
/-- Two candidates of one kind whose names are siblings. -/
inductive SiblingCandidates (settings : Settings) : Candidate → Candidate → Prop where
  | page {url other : String} (h : Siblings settings url other) :
    SiblingCandidates settings (.page url) (.page other)
  | file {location other : String} (h : Siblings settings location other) :
    SiblingCandidates settings (.file location) (.file other)

/-- Siblings have as many candidates, and each of them is the sibling of the other's. -/
theorem Siblings.candidatesFor (h : Siblings settings name other) (parent : Option String) :
    List.Forall₂ (SiblingCandidates settings) (candidatesFor parent name)
      (candidatesFor parent other) := by
  have hnames : List.Forall₂ (Siblings settings) [name, Path.combine parent name]
      [other, Path.combine parent other] :=
    .cons h (.cons (h.combine hlegacy hcurrent parent) .nil)
  have hurls : List.Forall₂ (Siblings settings)
      ([name, Path.combine parent name].filter Path.isUrl)
      ([other, Path.combine parent other].filter Path.isUrl) := by
    refine List.rel_filter ?_ hnames
    intro url url' hurl
    exact Bool.eq_iff_iff.1 (hurl.isUrl_eq hlegacy hcurrent).symm
  apply List.rel_append
  · exact List.rel_map (fun _ _ => .page) hurls
  · exact List.rel_map (fun _ _ => .file) hnames

/-- Upgrading looks at nothing but the extension. A name with the legacy extension keeps it when it
is read from a directory, and what is read there is upgraded to what is read of the upgraded name.
The upgraded name is a URL, or absolute in normal form, exactly when the name is. So what is tried
for the one are siblings of what is tried for the other. -/
theorem upgraded_candidates (parent : Option String)
    (hname : (dotted settings.legacyExtension).toList <:+ name.toList) :
    ∃ upgraded, upgrade? settings name = some upgraded ∧
      (dotted settings.legacyExtension).toList <:+ (Path.combine parent name).toList ∧
      upgrade? settings (Path.combine parent name) = some (Path.combine parent upgraded) ∧
      Path.isUrl upgraded = Path.isUrl name ∧
      Path.isAbsolute (Path.normalize upgraded) = Path.isAbsolute (Path.normalize name) ∧
      (∀ reference, stripFilePrefix reference = name →
        candidates settings parent reference =
          candidatesFor parent upgraded ++ candidatesFor parent name) ∧
      List.Forall₂ (SiblingCandidates settings) (candidatesFor parent name)
        (candidatesFor parent upgraded) := by
  obtain ⟨upgraded, hsiblings⟩ := exists_sibling hname
  -- names that differ in the extension only stay so when they are combined with a parent
  have hupgrade := upgrade?_eq_some_iff.2 hsiblings
  have hcombined := hsiblings.combine hlegacy hcurrent parent
  refine ⟨upgraded, hupgrade, hcombined.ends, upgrade?_eq_some_iff.2 hcombined,
    hsiblings.isUrl_eq hlegacy hcurrent, hsiblings.isAbsolute_normalize_eq hlegacy hcurrent, ?_,
    hsiblings.candidatesFor hlegacy hcurrent parent⟩
  rintro reference rfl
  simp [candidates, hupgrade]

end Separators

/-- A name that is nothing but an extension once its steps up are taken, with lone backslashes in
front of it. -/
theorem upgraded_candidates_of_bare_extension :
    (Unseparated ({} : Config).resolved.legacyExtension ∧
      Unseparated ({} : Config).resolved.currentExtension ∧
      (dotted ({} : Config).resolved.legacyExtension).toList <:+ "..\\x\\..\\.opi".toList) ∧
    Path.combine (some "http://host/a/b/main.bob") "..\\x\\..\\.opi" = "http://host/a/.opi" ∧
    upgrade? ({} : Config).resolved "http://host/a/.opi" =
      some (Path.combine (some "http://host/a/b/main.bob") "..\\x\\..\\.bob") ∧
    Path.combine (some "http://host/a/b/main.bob") "..\\x\\..\\.bob" = "http://host/a/.bob" := by
  have hlegacy : Unseparated ({} : Config).resolved.legacyExtension := by decide
  have hcurrent : Unseparated ({} : Config).resolved.currentExtension := by decide
  have hname : (dotted ({} : Config).resolved.legacyExtension).toList <:+
      "..\\x\\..\\.opi".toList := by decide
  have hcombined : Path.combine (some "http://host/a/b/main.bob") "..\\x\\..\\.opi" =
      "http://host/a/.opi" := by decide +kernel
  obtain ⟨upgraded, hupgraded, -, hupgrade, -⟩ :=
    upgraded_candidates hlegacy hcurrent (some "http://host/a/b/main.bob") hname
  obtain rfl : upgraded = "..\\x\\..\\.bob" :=
    Option.some.inj (hupgraded.symm.trans (by decide +kernel))
  rw [hcombined] at hupgrade
  exact ⟨⟨hlegacy, hcurrent, hname⟩, hcombined, hupgrade, by decide +kernel⟩

end Locator.Resolver
