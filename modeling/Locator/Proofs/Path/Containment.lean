import Locator.Proofs.Path.Kinds
import Locator.Proofs.Path.NormalForm
import Mathlib.Logic.Relation

/-!
# Paths stay where they are read from

A child that is read from the directory of its parent can leave that directory only by climbing out
of it. How far it climbs is counted on its own parts: one level down for `..`, one level up for any
other part, and the deepest point below the start is its `rise`. Normalizing the child first does
not change the count, although its first part cannot be cancelled there and can be later.

* `dip_up`, `dip_of_ne`: the deepest point of a count, one part at a time
* `walk_keeps`: a walk that dips no further than the levels above a floor keeps the floor
* `resolve_append_keeps`: the same for directories in normal form
* `straightens_resolve`: walking leaves out parts with the step up behind them, and nothing else
* `dip_resolve`: so it does not change the dip of the parts
* `combine_contained`: what stays of the directory of the parent, and when a URL keeps its host
-/

namespace Locator.Path

open Text

variable {part last scheme host : List Char}
  {parts rest former dirs shorter dir here top floor : List (List Char)} {p parent child : String}

/-! ## Counting levels -/

/-- The running count along parts, from a level on: one less for a step up, one more for any other
part, the empty one included. -/
def levels (level : Int) (parts : List (List Char)) : List Int :=
  parts.scanl (fun level part => if part = up then level - 1 else level + 1) level

/-- How far the lowest of these levels is below zero. -/
def below (levels : List Int) : Nat :=
  (levels.map fun level => (-level).toNat).foldr max 0

/-- The deepest dip below zero of the running count along parts. -/
def dip (parts : List (List Char)) : Nat :=
  below (levels 0 parts)

theorem below_levels_cons (level : Int) (part : List Char) (rest : List (List Char)) :
    below (levels level (part :: rest)) =
      max (-level).toNat (below (levels (if part = up then level - 1 else level + 1) rest)) := by
  rw [levels, List.scanl_cons]
  rfl

/-- A count that starts higher dips less, by as much. -/
theorem below_levels (level : Int) (parts : List (List Char)) :
    below (levels level parts) = ((dip parts : Int) - level).toNat := by
  induction parts generalizing level with
  | nil =>
    have hdip : dip [] = 0 := rfl
    have hbelow : below (levels level []) = max (-level).toNat 0 := by
      rw [levels, List.scanl_nil]
      rfl
    rw [hdip, hbelow]
    omega
  | cons part rest ih =>
    -- the count from zero takes a first step too, so the hypothesis is used on both sides
    rw [dip, below_levels_cons, below_levels_cons, ih, ih]
    split <;> omega

theorem below_eq_zero_iff (levels : List Int) : below levels = 0 ↔ ∀ level ∈ levels, 0 ≤ level := by
  induction levels with
  | nil => simp [below]
  | cons level levels ih =>
    have hbelow : below (level :: levels) = max (-level).toNat (below levels) := rfl
    rw [hbelow, List.forall_mem_cons, ← ih]
    omega

theorem dip_up : dip (up :: rest) = dip rest + 1 := by
  rw [dip, below_levels_cons, if_pos rfl, below_levels]
  omega

theorem dip_of_ne (h : part ≠ up) : dip (part :: rest) = dip rest - 1 := by
  rw [dip, below_levels_cons, if_neg h, below_levels]
  omega

/-- A part and the step up behind it count for nothing. -/
theorem dip_cancel (h : part ≠ up) : dip (former ++ part :: up :: rest) = dip (former ++ rest) := by
  induction former with
  | nil =>
    rw [List.nil_append, List.nil_append, dip_of_ne h, dip_up]
    omega
  | cons first former ih =>
    by_cases hfirst : first = up
    · rw [List.cons_append, List.cons_append, hfirst, dip_up, dip_up, ih]
    · rw [List.cons_append, List.cons_append, dip_of_ne hfirst, dip_of_ne hfirst, ih]

/-! ## What a walk keeps -/

/-- A walk that dips no further than the levels above a floor keeps the floor. -/
theorem walk_keeps (hfloor : floor ≠ []) (h : dip rest ≤ top.length) :
    ∃ more, walk (top ++ floor) rest = more ++ floor := by
  -- along the parts: what stands on the floor grows and shrinks, the floor is never looked at
  induction rest generalizing top with
  | nil => exact ⟨top, by rw [walk]⟩
  | cons part rest ih =>
    by_cases hpart : part = up
    · -- there is a level to leave: the dip says so
      rw [hpart, dip_up] at h
      cases top with
      | nil => cases h
      | cons inner top =>
        rw [hpart, List.cons_append, walk_pop (List.append_ne_nil_of_right_ne_nil top hfloor)]
        exact ih (Nat.le_of_succ_le_succ h)
    · rw [dip_of_ne hpart] at h
      rw [walk_push hpart]
      have hroom : dip rest ≤ (part :: top).length := by
        rw [List.length_cons]
        omega
      exact ih hroom

/-- Directories with nothing to cancel keep all but as many of their parts as the walk behind them
dips. -/
theorem resolve_append_keeps (hdir : Settled dir) (h : dip rest < dir.length) :
    ∃ more, resolve (dir ++ rest) = dir.take (dir.length - dip rest) ++ more := by
  obtain hnot | hstuck := hdir
  · have hne : dir ≠ [] := List.length_pos_iff.1 (Nat.zero_lt_of_lt h)
    -- the walk goes over the directory from its end: the top is what it may take, the floor what it
    -- cannot reach
    have hsplit : dir.reverse =
        (dir.drop (dir.length - dip rest)).reverse ++
          (dir.take (dir.length - dip rest)).reverse := by
      rw [← List.reverse_append, List.take_append_drop]
    have hfloor : (dir.take (dir.length - dip rest)).reverse ≠ [] := by
      rw [Ne, List.reverse_eq_nil_iff, List.take_eq_nil_iff]
      rintro (hzero | hnil)
      · omega
      · exact hne hnil
    have htop : dip rest ≤ (dir.drop (dir.length - dip rest)).reverse.length := by
      rw [List.length_reverse, List.length_drop]
      omega
    obtain ⟨more, hmore⟩ := walk_keeps hfloor htop
    refine ⟨more.reverse, ?_⟩
    rw [resolve_append hne hnot, hsplit, hmore, List.reverse_append, List.reverse_reverse]
  · -- nothing is taken at all behind a step up that is stuck
    refine ⟨dir.drop (dir.length - dip rest) ++ rest, ?_⟩
    rw [resolve_stuck hstuck, ← List.append_assoc, List.take_append_drop]

/-! ## Leaving out pairs -/

/-- A part that is no step up, and the step up behind it, are left out. -/
def Straightens (dirs shorter : List (List Char)) : Prop :=
  ∃ former part latter, dirs = former ++ part :: up :: latter ∧ shorter = former ++ latter ∧
    part ≠ up

theorem Straightens.append (h : Straightens dirs shorter) (front back : List (List Char)) :
    Straightens (front ++ dirs ++ back) (front ++ shorter ++ back) := by
  obtain ⟨former, part, latter, rfl, rfl, hpart⟩ := h
  exact ⟨front ++ former, part, latter ++ back, by simp, by simp, hpart⟩

theorem straightens_append (h : Relation.ReflTransGen Straightens dirs shorter)
    (front back : List (List Char)) :
    Relation.ReflTransGen Straightens (front ++ dirs ++ back) (front ++ shorter ++ back) :=
  h.lift (fun dirs => front ++ dirs ++ back) fun _ _ hstep => hstep.append front back

theorem sublist_of_straightens (h : Relation.ReflTransGen Straightens dirs shorter) :
    shorter.Sublist dirs := by
  induction h with
  | refl => exact List.Sublist.refl dirs
  | tail _ hstep ih =>
    obtain ⟨former, part, latter, rfl, rfl, -⟩ := hstep
    have hlatter : latter.Sublist (part :: up :: latter) :=
      ((List.Sublist.refl latter).cons up).cons part
    exact (hlatter.append_left former).trans ih

theorem dip_of_straightens (h : Relation.ReflTransGen Straightens dirs shorter) :
    dip shorter = dip dirs := by
  induction h with
  | refl => rfl
  | tail _ hstep ih =>
    obtain ⟨former, part, latter, rfl, rfl, hpart⟩ := hstep
    rw [← ih, dip_cancel hpart]

theorem up_not_mem_dropLast_cons (hpart : part ≠ up) (h : up ∉ here.dropLast) :
    up ∉ (part :: here).dropLast := by
  cases here with
  | nil => exact List.not_mem_nil
  | cons inner floor =>
    rw [List.dropLast_cons_of_ne_nil (List.cons_ne_nil inner floor), List.mem_cons, not_or]
    exact ⟨Ne.symm hpart, h⟩

/-- A walk leaves out such pairs and nothing else. -/
theorem straightens_walk (h : up ∉ here.dropLast) :
    Relation.ReflTransGen Straightens (here.reverse ++ rest) (walk here rest).reverse := by
  induction rest generalizing here with
  | nil =>
    rw [walk, List.append_nil]
  | cons part rest ih =>
    by_cases hpart : part = up
    · by_cases htail : here.tail = []
      · rw [walk, if_pos hpart, if_pos htail]
        simp only [List.reverse_append, List.reverse_cons, List.reverse_reverse,
          List.append_assoc, List.singleton_append]
        exact .refl
      · -- a step up that takes a part: the pair is left out, and the rest goes on without it
        cases here with
        | nil => exact absurd rfl htail
        | cons inner floor =>
          rw [List.tail_cons] at htail
          rw [List.dropLast_cons_of_ne_nil htail, List.mem_cons, not_or] at h
          rw [hpart, walk_pop htail]
          refine .head ?_ (ih h.2)
          exact ⟨floor.reverse, inner, rest, by simp, rfl, Ne.symm h.1⟩
    · have hrest := ih (up_not_mem_dropLast_cons hpart h)
      rw [walk_push hpart]
      rwa [List.reverse_cons, List.append_assoc] at hrest

theorem straightens_resolve (dirs : List (List Char)) :
    Relation.ReflTransGen Straightens dirs (resolve dirs) := by
  cases dirs with
  | nil => exact .refl
  | cons first rest =>
    have hfirst : up ∉ [first].dropLast := List.not_mem_nil
    exact straightens_walk hfirst

/-- Walking does not change the dip: what it takes away counts for nothing. -/
theorem dip_resolve (dirs : List (List Char)) : dip (resolve dirs) = dip dirs :=
  dip_of_straightens (straightens_resolve dirs)

/-! ## How far a child climbs -/

/-- How far a child climbs above its start: the deepest dip along all its parts but the last, once
lone backslashes are separators. -/
def rise (child : String) : Nat :=
  dip (split '/' (unifySeparators child.toList)).dropLast

/-- A child climbs as far in normal form as it does as it is written. -/
theorem dip_of_split_normalize (h : split '/' (normalize child).toList = dirs ++ [last]) :
    dip dirs = rise child := by
  obtain ⟨written, name, hwritten⟩ := exists_split_eq '/' (unifySeparators child.toList)
  have hdirs : dirs = resolve written :=
    List.append_inj_left' (h.symm.trans (split_normalize hwritten)) rfl
  rw [hdirs, dip_resolve, rise, hwritten, List.dropLast_concat]

/-- The combined path begins with what the child leaves of the directory, and something follows. -/
theorem split_combine_of_rise_lt (hparent : parent ≠ "")
    (hchild : isAbsolute (normalize child) = false)
    (h : rise child < (split '/' (directory parent).toList).length) :
    ∃ more, more ≠ [] ∧ split '/' (combine (some parent) child).toList =
      (split '/' (directory parent).toList).take
        ((split '/' (directory parent).toList).length - rise child) ++ more := by
  obtain ⟨dirs, last, hdirs⟩ := exists_split_eq '/' (normalize child).toList
  rw [← dip_of_split_normalize hdirs] at h ⊢
  obtain ⟨more, hmore⟩ := resolve_append_keeps (settled_directory parent) h
  refine ⟨more ++ [last], by simp, ?_⟩
  rw [split_combine hparent hchild hdirs, hmore, List.append_assoc]

/-- A path that begins with the parts of another text continues that text. -/
theorem exists_eq_append_of_split {path front : List Char} (hne : parts ≠ [])
    (h : split '/' path = split '/' front ++ parts) : ∃ back, path = front ++ '/' :: back := by
  obtain ⟨start, back, rfl, hstart, -⟩ :=
    exists_of_split_eq_append (split_ne_nil '/' front) hne h
  obtain rfl := split_injective '/' hstart
  exact ⟨back, rfl⟩

/-! ## URLs -/

/-- A URL with a path that stays on its host: at least one part follows the host, and the parts
between the host and the last one never climb above the host. -/
def StaysOnHost (path : List Char) : Prop :=
  ∃ scheme host dirs last, split '/' path = scheme :: [] :: host :: (dirs ++ [last]) ∧
    host ≠ up ∧ dip dirs = 0

/-- The directory of such a URL has its scheme and its host. -/
theorem site_directory (h : StaysOnHost (unifySeparators p.toList)) :
    site (directory p).toList = site (unifySeparators p.toList) := by
  obtain ⟨scheme, host, dirs, last, hparts, hhost, hdip⟩ := h
  have hsettled : Settled [scheme, [], host] := by
    left
    rw [List.tail_cons, List.mem_cons, List.mem_singleton, not_or]
    exact ⟨by decide, Ne.symm hhost⟩
  -- the path stays at or below the host, so the first three parts are kept
  have hroom : dip dirs < [scheme, [], host].length := by
    rw [hdip]
    exact Nat.succ_pos 2
  obtain ⟨more, hmore⟩ := resolve_append_keeps hsettled hroom
  rw [hdip] at hmore
  have hwritten : split '/' (unifySeparators p.toList) =
      ([scheme, [], host] ++ dirs) ++ [last] := by
    rw [hparts]
    simp
  have hnormal := split_normalize hwritten
  rw [hmore] at hnormal
  rw [site, site, split_directory (by simp) hnormal, hparts]
  rfl

/-! ## Containment -/

/-- Read from the directory of its parent, a child that is not absolute keeps all of the directory
but as many parts as it climbs, as long as it climbs out of fewer parts than there are. So a child
that never climbs above its start stays below the directory, and where the directory is a URL, a
child that climbs no further than its path keeps scheme and host. They are the scheme and the host
of the parent when the parent is a URL that has a path and stays on its host itself. -/
theorem combine_contained (parent child : String) (hparent : parent ≠ "")
    (hchild : isAbsolute (normalize child) = false) :
    let dir := split '/' (directory parent).toList
    let combined := split '/' (combine (some parent) child).toList
    (rise child ≤ dir.length - 1 →
      dir.length - rise child < combined.length ∧
        combined.take (dir.length - rise child) = dir.take (dir.length - rise child)) ∧
    (rise child = 0 → ∃ rest, combine (some parent) child = directory parent ++ "/" ++ rest) ∧
    (isUrl (directory parent) = true → rise child + 3 ≤ dir.length →
      isUrl (combine (some parent) child) = true ∧
        site (combine (some parent) child).toList = site (directory parent).toList) ∧
    (isUrl parent = true → StaysOnHost (unifySeparators parent.toList) →
      isUrl (directory parent) = true ∧
        site (directory parent).toList = site (unifySeparators parent.toList)) := by
  intro dir combined
  have hdir : 0 < dir.length := List.length_pos_iff.2 (split_ne_nil '/' _)
  refine ⟨fun hrise => ?_, fun hrise => ?_, fun hurl hrise => ?_, fun hurl hstays => ?_⟩
  -- what is left of the directory
  · obtain ⟨more, hmore, hcombined⟩ :=
      split_combine_of_rise_lt hparent hchild (show rise child < dir.length by omega)
    have hlen : (dir.take (dir.length - rise child)).length = dir.length - rise child := by
      rw [List.length_take]
      omega
    have hpos : 0 < more.length := List.length_pos_iff.2 hmore
    constructor
    · show dir.length - rise child < (split '/' (combine (some parent) child).toList).length
      rw [hcombined, List.length_append, hlen]
      omega
    · show (split '/' (combine (some parent) child).toList).take _ = _
      rw [hcombined, List.take_left' hlen]
  · obtain ⟨more, hmore, hcombined⟩ :=
      split_combine_of_rise_lt hparent hchild (show rise child < dir.length by omega)
    -- nothing is left out, so the parts of the directory are the text of the directory
    rw [hrise, Nat.sub_zero, List.take_length] at hcombined
    obtain ⟨back, hback⟩ := exists_eq_append_of_split hmore hcombined
    refine ⟨String.ofList back, String.toList_injective ?_⟩
    rw [hback]
    simp
  · obtain ⟨more, -, hcombined⟩ :=
      split_combine_of_rise_lt hparent hchild (show rise child < dir.length by omega)
    -- three parts or more are left: scheme and host are among them
    have hroom : rise child + 3 ≤ (split '/' (directory parent).toList).length := hrise
    have hsite : site (combine (some parent) child).toList = site (directory parent).toList := by
      rw [site, hcombined, List.take_append_of_le_length (by rw [List.length_take]; omega),
        List.take_take, Nat.min_eq_left (by omega), site]
    exact ⟨isUrl_of_site_eq hurl hsite, hsite⟩
  -- the parent's own scheme and host, whatever the child is
  · have hsite := site_directory hstays
    have hunified := isUrl_unifySeparators hurl
    exact ⟨isUrl_of_site_eq hunified (by rw [hsite, String.toList_ofList]), hsite⟩

/-- A child with both separators that climbs out of one directory, from a parent that climbs as
well. -/
theorem combine_contained_on_host :
    ("http://host\\a/x/../b/main.bob" ≠ "" ∧
      isAbsolute (normalize "c\\../..//../d.png") = false) ∧
    rise "c\\../..//../d.png" = 1 ∧
    isUrl "http://host\\a/x/../b/main.bob" = true ∧
    StaysOnHost (unifySeparators "http://host\\a/x/../b/main.bob".toList) ∧
    directory "http://host\\a/x/../b/main.bob" = "http://host/a/b" ∧
    combine (some "http://host\\a/x/../b/main.bob") "c\\../..//../d.png" = "http://host/a/d.png" ∧
    site (combine (some "http://host\\a/x/../b/main.bob") "c\\../..//../d.png").toList =
      ["http:".toList, [], "host".toList] := by
  have hparent : "http://host\\a/x/../b/main.bob" ≠ "" := by decide
  have hchild : isAbsolute (normalize "c\\../..//../d.png") = false := by decide +kernel
  have hrise : rise "c\\../..//../d.png" = 1 := by decide +kernel
  have hurl : isUrl "http://host\\a/x/../b/main.bob" = true := by decide +kernel
  have hstays : StaysOnHost (unifySeparators "http://host\\a/x/../b/main.bob".toList) :=
    ⟨"http:".toList, "host".toList, ["a".toList, "x".toList, up, "b".toList], "main.bob".toList,
      by decide +kernel, by decide, by decide⟩
  have hlen : (split '/' (directory "http://host\\a/x/../b/main.bob").toList).length = 5 := by
    decide +kernel
  obtain ⟨-, -, hkeeps, hown⟩ := combine_contained _ _ hparent hchild
  obtain ⟨hdir, hdirsite⟩ := hown hurl hstays
  obtain ⟨-, hsite⟩ := hkeeps hdir (by rw [hrise, hlen]; decide)
  refine ⟨⟨hparent, hchild⟩, hrise, hurl, hstays, by decide +kernel, by decide +kernel, ?_⟩
  rw [hsite, hdirsite]
  decide +kernel

/-- The directory of a URL without a path has no host left, so a child takes the place of the host
without climbing; and a parent that climbs out of its host itself has another one. -/
theorem child_takes_place_of_host :
    (isUrl "http://host" = true ∧ isAbsolute (normalize "x.bob") = false ∧ rise "x.bob" = 0 ∧
      combine (some "http://host") "x.bob" = "http://x.bob" ∧
      site "http://x.bob".toList ≠ site "http://host".toList) ∧
    (isUrl "http://host/../b/main.bob" = true ∧
      combine (some "http://host/../b/main.bob") "x.bob" = "http://b/x.bob" ∧
      site "http://b/x.bob".toList ≠ site "http://host/../b/main.bob".toList) := by
  decide +kernel

end Locator.Path
