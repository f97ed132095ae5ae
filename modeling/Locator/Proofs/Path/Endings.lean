import Locator.Proofs.Path.Kinds
import Locator.Proofs.Path.NormalForm

/-!
# The end of a path

What stands behind the last separator of a path is never looked into: a text without separators at
the end of it comes out of every function on paths as it is. So an extension can be exchanged before
or after.

* `split_append_end`: the parts of a path with a text at its end
* `normalize_append`: normalizing leaves the text at the end alone
* `isUrl_append`, `isAbsolute_append`: the kind of a path does not depend on it
* `combine_append`: reading a path from a directory leaves it alone
-/

namespace Locator.Path

open Text

variable {front back path last : List Char} {dirs : List (List Char)} {p ending : String}

/-- A text that separates nothing. -/
structure Unseparated (text : String) : Prop where
  slash : '/' ∉ text.toList
  backslash : '\\' ∉ text.toList

instance (text : String) : Decidable (Unseparated text) :=
  decidable_of_iff ('/' ∉ text.toList ∧ '\\' ∉ text.toList)
    ⟨fun h => ⟨h.1, h.2⟩, fun h => ⟨h.slash, h.backslash⟩⟩

/-! ## Characters and parts -/

theorem unifySeparators_append (h : '\\' ∉ back) (front : List Char) :
    unifySeparators (front ++ back) = unifySeparators front ++ back := by
  induction front using unifySeparators_induction with
  | nil => exact unifySeparators_of_not_mem h
  | pair rest ih => simp only [List.cons_append, unifySeparators_pair, ih]
  | lone rest hrest ih =>
    -- a backslash at the very end of the front is still on its own
    have hhead : (rest ++ back).head? ≠ some '\\' := by
      cases rest with
      | nil => exact fun hback => h (List.mem_of_mem_head? hback)
      | cons c tail => exact hrest
    rw [List.cons_append, unifySeparators_lone hhead, unifySeparators_lone hrest, ih,
      List.cons_append]
  | cons c rest hc ih => simp only [List.cons_append, unifySeparators_cons hc, ih]

theorem split_append_end (h : '/' ∉ back) (hparts : split '/' path = dirs ++ [last]) :
    split '/' (path ++ back) = dirs ++ [last ++ back] := by
  by_cases hdirs : dirs = []
  · subst hdirs
    obtain ⟨rfl, hslash⟩ := eq_of_split_eq_singleton hparts
    exact split_of_not_mem (by simp [hslash, h])
  · obtain ⟨front, name, rfl, hfront, hname⟩ :=
      exists_of_split_eq_append hdirs (List.cons_ne_nil last []) hparts
    obtain ⟨rfl, hslash⟩ := eq_of_split_eq_singleton hname
    rw [List.append_assoc, List.cons_append, split_append, hfront,
      split_of_not_mem (by simp [hslash, h])]

theorem collapse_append (h : '/' ∉ back) (path : List Char) :
    collapse (path ++ back) = collapse path ++ back := by
  obtain ⟨dirs, last, hparts⟩ := exists_split_eq '/' path
  apply split_injective '/'
  rw [split_collapse (split_append_end h hparts), split_append_end h (split_collapse hparts)]

/-- A text that ends in a separator begins a path whatever stands at the end of the path. -/
theorem prefix_append_end_iff (h : '/' ∉ back) :
    front ++ ['/'] <+: path ++ back ↔ front ++ ['/'] <+: path := by
  refine ⟨fun hlong => ?_, fun hshort => hshort.trans (List.prefix_append path back)⟩
  by_cases hlen : (front ++ ['/']).length ≤ path.length
  · exact List.prefix_of_prefix_length_le hlong (List.prefix_append path back) hlen
  · -- otherwise the separator would be one of the text at the end
    rw [List.length_append, List.length_singleton, Nat.not_le, Nat.lt_succ_iff] at hlen
    obtain ⟨middle, rfl⟩ := List.prefix_of_prefix_length_le (List.prefix_append path back)
      ((List.prefix_append front ['/']).trans hlong) hlen
    rw [List.append_assoc, List.prefix_append_right_inj] at hlong
    exact absurd (hlong.subset (by simp)) h

/-! ## Paths -/

theorem normalize_append (h : Unseparated ending) (p : String) :
    normalize (p ++ ending) = normalize p ++ ending := by
  apply String.toList_injective
  rw [String.toList_append, normalize, normalize, String.toList_ofList, String.toList_ofList,
    String.toList_append, unifySeparators_append h.backslash, collapse_append h.slash]

theorem isUrl_append (h : '/' ∉ ending.toList) (p : String) :
    isUrl (p ++ ending) = isUrl p := by
  have hhttp : "http://".toList = "http:/".toList ++ ['/'] := rfl
  have hhttps : "https://".toList = "https:/".toList ++ ['/'] := rfl
  rw [Bool.eq_iff_iff]
  simp only [isUrl, Bool.or_eq_true, List.isPrefixOf_iff_prefix, String.toList_append, hhttp,
    hhttps, prefix_append_end_iff h]

theorem isAbsolute_append (h : '/' ∉ ending.toList) (p : String) :
    isAbsolute (p ++ ending) = isAbsolute p := by
  have hroot : ['/'] <+: p.toList ++ ending.toList ↔ ['/'] <+: p.toList :=
    @prefix_append_end_iff [] ending.toList p.toList h
  rw [Bool.eq_iff_iff]
  simp only [isAbsolute, Bool.or_eq_true, List.isPrefixOf_iff_prefix, String.toList_append, hroot,
    isUrl_append h]

theorem combine_append (h : Unseparated ending) (parent : Option String) (p : String) :
    combine parent (p ++ ending) = combine parent p ++ ending := by
  cases parent with
  | none => rfl
  | some parent =>
    by_cases hparent : parent = ""
    · rw [hparent]
      rfl
    · have hkind : isAbsolute (normalize (p ++ ending)) = isAbsolute (normalize p) := by
        rw [normalize_append h, isAbsolute_append h.slash]
      cases habsolute : isAbsolute (normalize p) with
      | true =>
        rw [combine_of_isAbsolute hparent habsolute,
          combine_of_isAbsolute hparent (hkind.trans habsolute), normalize_append h]
      | false =>
        rw [combine_of_relative hparent habsolute,
          combine_of_relative hparent (hkind.trans habsolute), normalize_append h,
          ← String.append_assoc, normalize_append h]

end Locator.Path
