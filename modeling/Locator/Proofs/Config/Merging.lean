import Locator.Proofs.Config.Leaves

/-!
# Merging as a monoid

A configuration is its leaves together with the sections that are there (`ext_value?`), and laying
one over another is known for both: a leaf is that of the upper one where it is set, and a section
is there when either of them has it. So the laws of `atop` and `merge` are those of `or` on options
and on truth values.

* `has_atop`, `has_merge`: which sections are there
* `value?_merge_eq_some_iff`, `value?_merge_eq_none_iff`: which value a leaf has
* `atop_assoc`, `atop_empty`, `empty_atop`, `atop_atop_self`: the laws of laying over
* `merge_last_set_wins`: merging, leaf by leaf and section by section, and its laws
-/

namespace Locator.Config

/-- The sections of a configuration. -/
inductive Part where
  | cache
  | network
  | extensions
  deriving DecidableEq, Repr

/-- The section is there, whether or not it says anything. -/
def has (config : Config) : Part → Bool
  | .cache => config.cache.isSome
  | .network => config.network.isSome
  | .extensions => config.extensions.isSome

variable {config upper middle lower : Config} {layers : List Config} {leaf : Leaf} {part : Part}

/-! ## Leaves and sections are everything -/

private theorem option_ext {σ : Type} {one other : Option σ} (hsome : one.isSome = other.isSome)
    (hvalue : ∀ x ∈ one, ∀ y ∈ other, x = y) : one = other := by
  cases one with
  | none => exact (Option.isNone_iff_eq_none.mp (by simpa using hsome.symm)).symm
  | some x =>
    obtain ⟨y, rfl⟩ := Option.isSome_iff_exists.mp hsome.symm
    rw [hvalue x rfl y rfl]

/-- Two configurations that set the leaves alike and have the same sections are the same. -/
theorem ext_value? (hvalue : ∀ leaf, upper.value? leaf = lower.value? leaf)
    (hhas : ∀ part, upper.has part = lower.has part) : upper = lower := by
  obtain ⟨cache, network, extensions⟩ := upper
  obtain ⟨cache', network', extensions'⟩ := lower
  -- section by section: `has` says whether it is there, its leaves what is in it
  have hcache : cache = cache' := by
    refine option_ext (hhas .cache) ?_
    rintro x rfl y rfl
    obtain ⟨ttlSeconds⟩ := x
    exact congrArg CacheSection.mk (hvalue .ttlSeconds)
  have hnetwork : network = network' := by
    refine option_ext (hhas .network) ?_
    rintro x rfl y rfl
    obtain ⟨readTimeoutMillis, trustSelfSigned⟩ := x
    exact congr (congrArg NetworkSection.mk (hvalue .readTimeoutMillis)) (hvalue .trustSelfSigned)
  have hextensions : extensions = extensions' := by
    refine option_ext (hhas .extensions) ?_
    rintro x rfl y rfl
    obtain ⟨legacy, current⟩ := x
    exact congr (congrArg ExtensionSection.mk (hvalue .legacyExtension)) (hvalue .currentExtension)
  rw [hcache, hnetwork, hextensions]

/-! ## Sections -/

@[simp] theorem has_empty (part : Part) : ({} : Config).has part = false := by
  cases part <;> rfl

theorem isSome_sectionAtop {σ : Type} (combine : σ → σ → σ) (silent : σ) (upper lower : Option σ) :
    (sectionAtop combine silent upper lower).isSome = (upper.isSome || lower.isSome) := by
  cases upper <;> rfl

theorem has_atop (upper lower : Config) (part : Part) :
    (upper.atop lower).has part = (upper.has part || lower.has part) := by
  cases part <;> exact isSome_sectionAtop _ _ _ _

theorem has_foldl_atop (layers : List Config) (bottom : Config) (part : Part) :
    (layers.foldl (fun lower upper => upper.atop lower) bottom).has part =
      (layers.any (·.has part) || bottom.has part) := by
  induction layers generalizing bottom with
  | nil => rfl
  | cons layer rest ih =>
    rw [List.foldl_cons, ih, has_atop, List.any_cons, Bool.or_left_comm, Bool.or_assoc]

theorem has_merge (layers : List Config) (part : Part) :
    (merge layers).has part = layers.any (·.has part) := by
  rw [merge, has_foldl_atop, has_empty, Bool.or_false]

/-! ## Values -/

/-- A leaf has the value of the last configuration that sets it. -/
theorem value?_merge_eq_some_iff {value : leaf.Value} :
    (merge layers).value? leaf = some value ↔
      ∃ before layer after, layers = before ++ layer :: after ∧
        layer.value? leaf = some value ∧ ∀ later ∈ after, later.value? leaf = none := by
  rw [value?_merge, List.findSome?_eq_some_iff]
  constructor
  · rintro ⟨later, layer, earlier, hreverse, hvalue, hlater⟩
    refine ⟨earlier.reverse, layer, later.reverse, ?_, hvalue, ?_⟩
    · rw [← List.reverse_reverse layers, hreverse, List.reverse_append, List.reverse_cons,
        List.append_assoc, List.singleton_append]
    · intro upper hupper
      exact hlater upper (List.mem_reverse.mp hupper)
  · rintro ⟨before, layer, after, rfl, hvalue, hafter⟩
    refine ⟨after.reverse, layer, before.reverse, ?_, hvalue, ?_⟩
    · rw [List.reverse_append, List.reverse_cons, List.append_assoc, List.singleton_append]
    · intro upper hupper
      exact hafter upper (List.mem_reverse.mp hupper)

theorem value?_merge_eq_none_iff :
    (merge layers).value? leaf = none ↔ ∀ layer ∈ layers, layer.value? leaf = none := by
  rw [value?_merge, List.findSome?_eq_none_iff]
  simp only [List.mem_reverse]

/-! ## The laws -/

theorem atop_assoc (upper middle lower : Config) :
    (upper.atop middle).atop lower = upper.atop (middle.atop lower) := by
  apply ext_value?
  · intro leaf
    simp only [value?_atop, Option.or_assoc]
  · intro part
    simp only [has_atop, Bool.or_assoc]

@[simp] theorem atop_empty (config : Config) : config.atop {} = config := by
  apply ext_value?
  · intro leaf
    rw [value?_atop, value?_empty, Option.or_none]
  · intro part
    rw [has_atop, has_empty, Bool.or_false]

@[simp] theorem empty_atop (config : Config) : ({} : Config).atop config = config := by
  apply ext_value?
  · intro leaf
    rw [value?_atop, value?_empty, Option.none_or]
  · intro part
    rw [has_atop, has_empty, Bool.false_or]

theorem atop_atop_self (upper lower : Config) :
    upper.atop (upper.atop lower) = upper.atop lower := by
  apply ext_value?
  · intro leaf
    rw [value?_atop, value?_atop, ← Option.or_assoc, Option.or_self]
  · intro part
    rw [has_atop, has_atop, ← Bool.or_assoc, Bool.or_self]

theorem foldl_atop (layers : List Config) (bottom : Config) :
    layers.foldl (fun lower upper => upper.atop lower) bottom = (merge layers).atop bottom := by
  apply ext_value?
  · intro leaf
    rw [value?_foldl_atop, value?_atop, value?_merge]
  · intro part
    rw [has_foldl_atop, has_atop, has_merge]

theorem merge_append (lower upper : List Config) :
    merge (lower ++ upper) = (merge upper).atop (merge lower) := by
  rw [merge, List.foldl_append, foldl_atop]
  rfl

/-- In configurations merged one over the other, each leaf has the value of the last one that sets
it, and the sections are those that any of them has, be it without a word. So laying over is
associative, the empty configuration makes no difference above or below, the same layer twice is as
good as once, and layers can be merged in groups. -/
theorem merge_last_set_wins :
    (∀ (layers : List Config) (leaf : Leaf),
      (∀ value, (merge layers).value? leaf = some value ↔
        ∃ before layer after, layers = before ++ layer :: after ∧
          layer.value? leaf = some value ∧ ∀ later ∈ after, later.value? leaf = none) ∧
      ((merge layers).value? leaf = none ↔ ∀ layer ∈ layers, layer.value? leaf = none)) ∧
    (∀ (layers : List Config) (part : Part),
      (merge layers).has part = true ↔ ∃ layer ∈ layers, layer.has part = true) ∧
    (∀ upper middle lower : Config,
      (upper.atop middle).atop lower = upper.atop (middle.atop lower)) ∧
    (∀ config : Config, config.atop {} = config ∧ ({} : Config).atop config = config) ∧
    (∀ upper lower : Config, upper.atop (upper.atop lower) = upper.atop lower) ∧
    ∀ lower upper : List Config, merge (lower ++ upper) = (merge upper).atop (merge lower) := by
  refine ⟨fun layers leaf => ⟨fun value => value?_merge_eq_some_iff, value?_merge_eq_none_iff⟩,
    ?_, atop_assoc, fun config => ⟨atop_empty config, empty_atop config⟩, atop_atop_self,
    merge_append⟩
  intro layers part
  rw [has_merge, List.any_eq_true]

/-- A section without a word is kept, and hides nothing. -/
example :
    merge [{ cache := some { ttlSeconds := some 10 } }, { cache := some {}, network := some {} }] =
      { cache := some { ttlSeconds := some 10 }, network := some {} } := by
  decide

end Locator.Config
