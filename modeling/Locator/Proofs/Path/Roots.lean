import Locator.Proofs.Path.Nesting

/-!
# Roots of locations

Normalizing takes no path away from the root of the file system. A URL is different: its host and
the separators behind its scheme are ordinary parts, so a path that climbs above its host takes the
host away, and one that climbs further takes away the separators, which made it a URL.

* `exists_climb_out`: where a path climbs above its start for the first time
* `Clears`: a path in which every step up has a part to take away, and what is left of it
* `clears_or_climbs`: any other path leads out of its start
* `KeepsRoot`: what stands behind a scheme when the URL stays one
* `normalize_keeps_root`: which locations keep their root, and which URLs keep their host
-/

namespace Locator.Path

open Text

variable {scheme last : List Char} {steps kept other inner outer dirs here : List (List Char)}
  {p : String}

/-! ## Climbing out -/

/-- A path that dips below a level climbs out there for a first time. -/
theorem exists_climb_out {level : Nat} (h : level < dip dirs) :
    ∃ inner outer, dirs = inner ++ up :: outer ∧ dip inner ≤ level ∧
      dip (inner ++ [up]) = level + 1 := by
  -- each part changes the level by one, so the first step up from level zero is found going along
  induction dirs generalizing level with
  | nil => cases h
  | cons first dirs ih =>
    by_cases hfirst : first = up
    · rw [hfirst, dip_up] at h
      cases level with
      | zero => exact ⟨[], dirs, by rw [hfirst]; rfl, Nat.le_refl 0, by decide⟩
      | succ level =>
        obtain ⟨inner, outer, rfl, hinner, hout⟩ := ih (Nat.lt_of_succ_lt_succ h)
        refine ⟨first :: inner, outer, rfl, ?_, ?_⟩
        · rw [hfirst, dip_up]
          omega
        · rw [hfirst, List.cons_append, dip_up, hout]
    · rw [dip_of_ne hfirst] at h
      obtain ⟨inner, outer, rfl, hinner, hout⟩ := ih (show level + 1 < dip dirs by omega)
      refine ⟨first :: inner, outer, rfl, ?_, ?_⟩
      · rw [dip_of_ne hfirst]
        omega
      · rw [List.cons_append, dip_of_ne hfirst, hout]
        omega

/-- Every step up takes away a part in front of it, and `kept` is what is left in the end. -/
def Clears (steps kept : List (List Char)) : Prop :=
  Relation.ReflTransGen Straightens steps kept ∧ up ∉ kept

theorem Clears.dip_eq (h : Clears steps kept) : dip steps = 0 := by
  have hkept : dip (kept ++ []) = dip [] - kept.length := dip_append_of_not_mem h.2 []
  rw [List.append_nil] at hkept
  rw [← dip_of_straightens h.1, hkept]
  exact Nat.zero_sub _

/-- Such a path can be walked along from anywhere, and leads to what is left of it. -/
theorem Clears.walk_eq (h : Clears steps kept) (hhere : here ≠ []) :
    walk here steps = kept.reverse ++ here := by
  have hroom : dip steps < here.length := by
    rw [h.dip_eq]
    exact List.length_pos_iff.2 hhere
  rw [← walk_eq_of_straightens h.1 hroom, walk_of_not_mem h.2]

/-- A path that never climbs above its start has a part to take away for every step up. -/
theorem exists_clears (former : List (List Char)) (hformer : up ∉ former)
    (h : dip (former ++ steps) = 0) : ∃ kept, Clears (former ++ steps) kept := by
  -- along the parts: those in front have no step up, so the next one takes the last of them away
  induction steps generalizing former with
  | nil =>
    rw [List.append_nil]
    exact ⟨former, .refl, hformer⟩
  | cons part steps ih =>
    by_cases hpart : part = up
    · obtain rfl | hne := eq_or_ne former []
      · rw [hpart, List.nil_append, dip_up] at h
        cases h
      · obtain ⟨front, inner, rfl⟩ := exists_eq_concat hne
        rw [List.mem_append, List.mem_singleton, not_or] at hformer
        have hinner : inner ≠ up := Ne.symm hformer.2
        rw [hpart, List.append_assoc, List.singleton_append] at h ⊢
        rw [dip_cancel hinner] at h
        obtain ⟨kept, hkept, hfree⟩ := ih front hformer.1 h
        exact ⟨kept, .head ⟨front, inner, steps, rfl, rfl, hinner⟩ hkept, hfree⟩
    · have hnext : up ∉ former ++ [part] := by
        rw [List.mem_append, List.mem_singleton, not_or]
        exact ⟨hformer, Ne.symm hpart⟩
      rw [← List.singleton_append, ← List.append_assoc] at h ⊢
      exact ih (former ++ [part]) hnext h

/-- Any other path leads out of its start, and all in front of the step up that does is taken
away. -/
theorem clears_or_climbs (steps : List (List Char)) :
    (∃ kept, Clears steps kept) ∨
      ∃ inner outer, steps = inner ++ up :: outer ∧ Clears inner [] := by
  obtain hzero | hpos := Nat.eq_zero_or_pos (dip steps)
  · exact Or.inl (exists_clears [] List.not_mem_nil hzero)
  · obtain ⟨inner, outer, hsteps, hinner, hout⟩ := exists_climb_out hpos
    have hzero : dip ([] ++ inner) = 0 := Nat.le_zero.1 hinner
    obtain ⟨kept, hkept⟩ := exists_clears [] List.not_mem_nil hzero
    rw [List.nil_append] at hkept
    -- a part that were left in front would be there for this step up to take
    have hback : dip (kept ++ [up]) = dip (inner ++ [up]) :=
      dip_of_straightens (straightens_append hkept.1 [] [up])
    have hone : dip [up] = 1 := by decide
    rw [dip_append_of_not_mem hkept.2, hone, hout] at hback
    obtain rfl : kept = [] := List.length_eq_zero_iff.1 (by omega)
    exact Or.inr ⟨inner, outer, hsteps, hkept⟩

/-! ## Behind a scheme -/

/-- What stands behind the separators of a scheme, and what is left of it when the separators stay.
Either every step up has a part to take away there. Or one of them leads out of the separators, and
what follows it leaves an empty part in front, so that there are two separators again. -/
def KeepsRoot (steps kept : List (List Char)) : Prop :=
  Clears steps kept ∨
    ∃ inner outer, steps = inner ++ up :: outer ∧ Clears inner [] ∧ Clears outer ([] :: kept)

theorem resolve_of_clears (h : Clears steps kept) :
    resolve (scheme :: steps) = scheme :: kept := by
  rw [resolve, h.walk_eq (List.cons_ne_nil scheme [])]
  simp

/-- The step up that leads out of the separators takes all away that is in front of it, the scheme
apart. -/
theorem resolve_climb_out (h : Clears inner []) :
    resolve (scheme :: [] :: (inner ++ up :: outer)) = resolve (scheme :: outer) := by
  have hroom : dip inner < [[], scheme].length := by
    rw [h.dip_eq]
    exact Nat.succ_pos 1
  have hinner : walk [[], scheme] inner = [[], scheme] := h.walk_eq (List.cons_ne_nil [] [scheme])
  rw [resolve, walk_push (by decide), walk_append_of_dip_lt _ hroom, hinner,
    walk_pop (List.cons_ne_nil scheme []), resolve]

/-- A further one is stuck behind the scheme, and nothing behind it is looked at any more. -/
theorem resolve_climb_further (h : Clears inner []) :
    resolve (scheme :: (inner ++ up :: outer)) = scheme :: up :: outer := by
  have hroom : dip inner < [scheme].length := by
    rw [h.dip_eq]
    exact Nat.one_pos
  have hinner : walk [scheme] inner = [scheme] := h.walk_eq (List.cons_ne_nil scheme [])
  rw [resolve, walk_append_of_dip_lt _ hroom, hinner, walk_stuck]
  simp

theorem KeepsRoot.resolve_eq (h : KeepsRoot steps kept) :
    resolve (scheme :: [] :: steps) = scheme :: [] :: kept := by
  obtain hclears | ⟨inner, outer, rfl, hinner, houter⟩ := h
  · have hfront := straightens_append hclears.1 [[]] []
    rw [List.append_nil, List.append_nil] at hfront
    have hfree : up ∉ [] :: kept := by
      rw [List.mem_cons, not_or]
      exact ⟨by decide, hclears.2⟩
    exact resolve_of_clears ⟨hfront, hfree⟩
  · rw [resolve_climb_out hinner, resolve_of_clears houter]

/-- Where the separators do not stay, no empty part is left behind the scheme. -/
theorem keeps_or_loses_root (scheme : List Char) (steps : List (List Char)) :
    (∃ kept, KeepsRoot steps kept) ∨
      ∃ rest, resolve (scheme :: [] :: steps) = scheme :: rest ∧ rest.head? ≠ some [] := by
  obtain ⟨kept, hkept⟩ | ⟨inner, outer, rfl, hinner⟩ := clears_or_climbs steps
  · exact Or.inl ⟨kept, Or.inl hkept⟩
  · rw [resolve_climb_out hinner]
    obtain ⟨more, hmore⟩ | ⟨inner, outer, rfl, hfurther⟩ := clears_or_climbs outer
    · by_cases hempty : more.head? = some []
      · obtain ⟨kept, rfl⟩ := List.head?_eq_some_iff.1 hempty
        exact Or.inl ⟨kept, Or.inr ⟨inner, outer, rfl, hinner, hmore⟩⟩
      · exact Or.inr ⟨more, resolve_of_clears hmore, hempty⟩
    · refine Or.inr ⟨up :: outer, resolve_climb_further hfurther, ?_⟩
      rw [List.head?_cons]
      decide

/-! ## URLs -/

/-- A URL has an empty part behind its scheme. -/
theorem exists_steps_of_isUrl (hurl : isUrl p = true) :
    ∃ scheme steps last, (scheme = "http:".toList ∨ scheme = "https:".toList) ∧
      split '/' p.toList = scheme :: [] :: (steps ++ [last]) := by
  obtain ⟨scheme, host, hsite, hscheme⟩ := isUrl_iff_site.1 hurl
  obtain ⟨steps, last, hrest⟩ := exists_eq_concat
    (List.cons_ne_nil host ((split '/' p.toList).drop 3))
  refine ⟨scheme, steps, last, hscheme, ?_⟩
  rw [← hrest]
  calc split '/' p.toList
      = site p.toList ++ (split '/' p.toList).drop 3 := (List.take_append_drop 3 _).symm
    _ = _ := by rw [hsite]; rfl

/-- A path with no empty part behind the first one is no URL. -/
theorem isUrl_eq_false_of_head? {rest : List (List Char)}
    (hparts : split '/' p.toList = scheme :: (rest ++ [last])) (hrest : rest.head? ≠ some []) :
    isUrl p = false := by
  rw [← Bool.not_eq_true]
  intro hurl
  obtain ⟨scheme', host, hsite, -⟩ := isUrl_iff_site.1 hurl
  rw [site, hparts] at hsite
  cases rest with
  | nil => simp at hsite
  | cons next rest =>
    rw [List.cons_append, List.take_succ_cons, List.take_succ_cons] at hsite
    obtain rfl : next = [] := (List.cons.inj (List.cons.inj hsite).2).1
    exact hrest rfl

theorem head?_normalize_of_isUrl (hurl : isUrl p = true) :
    (normalize p).toList.head? ≠ some '/' := by
  rw [Ne, head?_normalize_eq_slash_iff]
  obtain ⟨scheme, tail, hp, rfl | rfl⟩ := isUrl_iff.1 hurl
  · simp [hp]
  · simp [hp]

/-! ## Roots -/

theorem isAbsolute_iff :
    isAbsolute p = true ↔ p.toList.head? = some '/' ∨ isUrl p = true := by
  rw [isAbsolute, Bool.or_eq_true, List.isPrefixOf_iff_prefix]
  have hhead : ['/'] <+: p.toList ↔ p.toList.head? = some '/' := by
    rw [List.head?_eq_some_iff]
    constructor
    · rintro ⟨tail, htail⟩
      exact ⟨tail, htail.symm⟩
    · rintro ⟨tail, htail⟩
      exact ⟨tail, htail.symm⟩
  rw [hhead]

/-- What is left of a URL: its separators stay exactly when `KeepsRoot` says so, and what is left
behind them is what it says. -/
theorem isUrl_normalize_iff (hscheme : scheme = "http:".toList ∨ scheme = "https:".toList)
    (hparts : split '/' (unifySeparators p.toList) = scheme :: [] :: (steps ++ [last])) :
    (isUrl (normalize p) = true ↔ ∃ kept, KeepsRoot steps kept) ∧
    ∀ kept, KeepsRoot steps kept →
      split '/' (normalize p).toList = scheme :: [] :: (kept ++ [last]) := by
  have hnormal : split '/' (normalize p).toList = resolve (scheme :: [] :: steps) ++ [last] :=
    split_normalize hparts
  have hkeeps : ∀ kept, KeepsRoot steps kept →
      split '/' (normalize p).toList = scheme :: [] :: (kept ++ [last]) := by
    intro kept hkept
    rw [hnormal, hkept.resolve_eq]
    rfl
  refine ⟨⟨fun hurl => ?_, ?_⟩, hkeeps⟩
  · obtain hroot | ⟨rest, hrest, hfirst⟩ := keeps_or_loses_root scheme steps
    · exact hroot
    · rw [hrest] at hnormal
      rw [isUrl_eq_false_of_head? hnormal hfirst] at hurl
      cases hurl
  · rintro ⟨kept, hkept⟩
    obtain ⟨host, dirs, hhost⟩ := List.exists_cons_of_ne_nil
      (List.append_ne_nil_of_right_ne_nil kept (List.cons_ne_nil last []))
    refine isUrl_iff_site.2 ⟨scheme, host, ?_, hscheme⟩
    rw [site, hkeeps kept hkept, hhost]
    rfl

/-- A URL keeps its scheme and its host exactly when its separators stay and the first part behind
them is what it was. -/
theorem site_normalize_iff (hurl : isUrl p = true)
    (hscheme : scheme = "http:".toList ∨ scheme = "https:".toList)
    (hparts : split '/' (unifySeparators p.toList) = scheme :: [] :: (steps ++ [last])) :
    site (normalize p).toList = site (unifySeparators p.toList) ↔
      ∃ kept, KeepsRoot steps kept ∧ (kept ++ [last]).head? = (steps ++ [last]).head? := by
  obtain ⟨hiff, hkeeps⟩ := isUrl_normalize_iff hscheme hparts
  have hsame : ∀ kept, KeepsRoot steps kept →
      (site (normalize p).toList = site (unifySeparators p.toList) ↔
        (kept ++ [last]).head? = (steps ++ [last]).head?) := by
    intro kept hkept
    rw [site, site, hkeeps kept hkept, hparts]
    cases hleft : kept ++ [last] with
    | nil => simp at hleft
    | cons host dirs =>
      cases hwritten : steps ++ [last] with
      | nil => simp at hwritten
      | cons host' dirs' => simp
  constructor
  · intro hsite
    have hunified := isUrl_unifySeparators hurl
    obtain ⟨kept, hkept⟩ := hiff.1 (isUrl_of_site_eq hunified (by rw [hsite, String.toList_ofList]))
    exact ⟨kept, hkept, (hsame kept hkept).1 hsite⟩
  · rintro ⟨kept, hkept, hhead⟩
    exact (hsame kept hkept).2 hhead

/-- A path from the root stays one. A URL stays absolute exactly when it stays a URL, and it does so
exactly when the steps up behind its separators all have a part to take away there, or when what
follows a step out of them begins with a separator again; its parts are then those that are left. So
it keeps its scheme and its host exactly when the host is among them. -/
theorem normalize_keeps_root (p : String) :
    (p.toList.head? = some '/' →
      (normalize p).toList.head? = some '/' ∧ isAbsolute (normalize p) = true) ∧
    (isUrl p = true → ∃ scheme steps last,
      split '/' (unifySeparators p.toList) = scheme :: [] :: (steps ++ [last]) ∧
      (isAbsolute (normalize p) = true ↔ isUrl (normalize p) = true) ∧
      (isUrl (normalize p) = true ↔ ∃ kept, KeepsRoot steps kept) ∧
      (∀ kept, KeepsRoot steps kept →
        split '/' (normalize p).toList = scheme :: [] :: (kept ++ [last])) ∧
      (site (normalize p).toList = site (unifySeparators p.toList) ↔
        ∃ kept, KeepsRoot steps kept ∧ (kept ++ [last]).head? = (steps ++ [last]).head?)) := by
  constructor
  · intro hroot
    have hstill : (normalize p).toList.head? = some '/' :=
      head?_normalize_eq_slash_iff.2 (Or.inl hroot)
    exact ⟨hstill, isAbsolute_iff.2 (Or.inl hstill)⟩
  · intro hurl
    obtain ⟨scheme, steps, last, hscheme, hparts⟩ :=
      exists_steps_of_isUrl (isUrl_unifySeparators hurl)
    rw [String.toList_ofList] at hparts
    obtain ⟨hiff, hkeeps⟩ := isUrl_normalize_iff hscheme hparts
    refine ⟨scheme, steps, last, hparts, ?_, hiff, hkeeps, site_normalize_iff hurl hscheme hparts⟩
    rw [isAbsolute_iff, or_iff_right (head?_normalize_of_isUrl hurl)]

/-- A path from the root that climbs, and a URL with both separators, empty parts and steps up, all
of them behind the host: the host alone is left in front of the last part. -/
theorem normalize_keeps_root_on_host :
    ("/a/../../x.bob".toList.head? = some '/' ∧
      isAbsolute (normalize "/a/../../x.bob") = true) ∧
    (isUrl "https://host:80\\a\\..//../b/../c.bob" = true ∧
      normalize "https://host:80\\a\\..//../b/../c.bob" = "https://host:80/c.bob" ∧
      isAbsolute (normalize "https://host:80\\a\\..//../b/../c.bob") = true ∧
      site (normalize "https://host:80\\a\\..//../b/../c.bob").toList =
        ["https:".toList, [], "host:80".toList]) := by
  have hroot : "/a/../../x.bob".toList.head? = some '/' := by decide
  obtain ⟨hfirst, -⟩ := normalize_keeps_root "/a/../../x.bob"
  have hurl : isUrl "https://host:80\\a\\..//../b/../c.bob" = true := by decide +kernel
  obtain ⟨-, hsecond⟩ := normalize_keeps_root "https://host:80\\a\\..//../b/../c.bob"
  obtain ⟨scheme, steps, last, hparts, habsolute, hstays, -, hsite⟩ := hsecond hurl
  have hwritten : split '/' (unifySeparators "https://host:80\\a\\..//../b/../c.bob".toList) =
      "https:".toList :: [] :: (["host:80".toList, "a".toList, up, [], up, "b".toList, up] ++
        ["c.bob".toList]) := by decide +kernel
  have hsame := (List.cons.inj (List.cons.inj (hparts.symm.trans hwritten)).2).2
  obtain ⟨rfl, hlast⟩ := List.append_inj' hsame rfl
  -- three parts are taken away, one by each step up
  have hclears : Clears ["host:80".toList, "a".toList, up, [], up, "b".toList, up]
      ["host:80".toList] := by
    refine ⟨?_, by decide⟩
    refine .head ⟨["host:80".toList], "a".toList, [[], up, "b".toList, up], rfl, rfl, by decide⟩ ?_
    refine .head ⟨["host:80".toList], [], ["b".toList, up], rfl, rfl, by decide⟩ ?_
    exact .single ⟨["host:80".toList], "b".toList, [], rfl, rfl, by decide⟩
  have hkeeps := hsite.2 ⟨_, Or.inl hclears, rfl⟩
  refine ⟨⟨hroot, (hfirst hroot).2⟩, hurl, by decide +kernel, ?_, ?_⟩
  · exact habsolute.2 (hstays.2 ⟨_, Or.inl hclears⟩)
  · rw [hkeeps]
    decide +kernel

/-- Two steps up lead out of the host and then out of the separators behind the scheme, so the URL
is no absolute path any more; one step up leaves a URL with another host. -/
theorem climbing_url_loses_root :
    (isAbsolute "http://host/../../x.bob" = true ∧
      normalize "http://host/../../x.bob" = "http:/x.bob" ∧
      isAbsolute (normalize "http://host/../../x.bob") = false) ∧
    (isUrl "http://host/../x.bob" = true ∧
      normalize "http://host/../x.bob" = "http://x.bob" ∧
      site (normalize "http://host/../x.bob").toList ≠ site "http://host/../x.bob".toList) := by
  decide +kernel

end Locator.Path
