import Locator.Config.Merge
import Locator.Config.Validation

/-!
# Configurations leaf by leaf

There are five values to set, the leaves of a configuration. What a configuration says about them is
`value?`; whether a section is there without saying anything makes no difference to the settings,
nor to what is wrong with them.

* `resolved_eq`: the settings are the values of the leaves, and defaults where none is set
* `value?_atop`, `value?_merge`: the uppermost configuration that sets a leaf decides
* `validate_eq`: a configuration is as valid as what it says about the leaves
-/

namespace Locator

namespace Config

/-! ## Leaves -/

/-- What can be set. -/
inductive Leaf where
  | ttlSeconds
  | readTimeoutMillis
  | trustSelfSigned
  | legacyExtension
  | currentExtension
  deriving DecidableEq, Repr

namespace Leaf

/-- The values that a leaf can have. -/
def Value : Leaf → Type
  | ttlSeconds | readTimeoutMillis => UInt64
  | trustSelfSigned => Bool
  | legacyExtension | currentExtension => String

/-- The value of a leaf that nothing sets. -/
def fallback : (leaf : Leaf) → leaf.Value
  | ttlSeconds => defaultTtlSeconds
  | readTimeoutMillis => defaultReadTimeoutMillis
  | trustSelfSigned => false
  | legacyExtension => defaultLegacyExtension
  | currentExtension => defaultCurrentExtension

end Leaf

/-- What something that has a say in the settings says: a value for each leaf that it sets. -/
abbrev Layer := (leaf : Leaf) → Option leaf.Value

/-- What a configuration sets a leaf to. -/
def value? (config : Config) : Layer
  | .ttlSeconds => config.ttlSeconds?
  | .readTimeoutMillis => config.readTimeoutMillis?
  | .trustSelfSigned => config.trustSelfSigned?
  | .legacyExtension => config.legacyExtension?
  | .currentExtension => config.currentExtension?

/-- The configuration that says the same as a layer, in all of its sections. -/
def ofLayer (layer : Layer) : Config where
  cache := some { ttlSeconds := layer .ttlSeconds }
  network := some {
    readTimeoutMillis := layer .readTimeoutMillis
    trustSelfSigned := layer .trustSelfSigned }
  extensions := some {
    legacy := layer .legacyExtension
    current := layer .currentExtension }

end Config

/-- The settings with these values of the leaves. -/
def Settings.ofLeaves (value : (leaf : Config.Leaf) → leaf.Value) : Settings where
  cacheTtl := .ofSeconds (value .ttlSeconds)
  readTimeout := .ofMillis (value .readTimeoutMillis)
  trustSelfSigned := value .trustSelfSigned
  legacyExtension := value .legacyExtension
  currentExtension := value .currentExtension

namespace Config

variable {σ τ : Type} {combine : σ → σ → σ} {silent : σ} {field : σ → Option τ}

@[simp] theorem value?_ofLayer (layer : Layer) : (ofLayer layer).value? = layer := by
  funext leaf
  cases leaf <;> rfl

@[simp] theorem value?_empty (leaf : Leaf) : ({} : Config).value? leaf = none := by
  cases leaf <;> rfl

theorem resolved_eq (config : Config) :
    config.resolved = .ofLeaves fun leaf => (config.value? leaf).getD leaf.fallback :=
  rfl

/-! ## Laying over each other -/

/-- A field of a section laid over another. -/
theorem bind_sectionAtop
    (hcombine : ∀ upper lower, field (combine upper lower) = (field upper).or (field lower))
    (hsilent : field silent = none) (upper lower : Option σ) :
    (sectionAtop combine silent upper lower).bind field =
      (upper.bind field).or (lower.bind field) := by
  cases upper with
  | none => rfl
  | some upper =>
    rw [sectionAtop, Option.bind_some, Option.bind_some, hcombine]
    cases lower with
    | none => rw [Option.getD_none, hsilent, Option.bind_none]
    | some lower => rfl

theorem value?_atop (upper lower : Config) (leaf : Leaf) :
    (upper.atop lower).value? leaf = (upper.value? leaf).or (lower.value? leaf) := by
  cases leaf <;> exact bind_sectionAtop (fun _ _ => rfl) rfl _ _

theorem value?_foldl_atop (layers : List Config) (bottom : Config) (leaf : Leaf) :
    (layers.foldl (fun lower upper => upper.atop lower) bottom).value? leaf =
      (layers.reverse.findSome? (·.value? leaf)).or (bottom.value? leaf) := by
  induction layers generalizing bottom with
  | nil => rfl
  | cons layer rest ih =>
    rw [List.foldl_cons, ih, value?_atop, List.reverse_cons, List.findSome?_append,
      List.findSome?_singleton, Option.or_assoc]

/-- The last configuration that sets a leaf decides. -/
theorem value?_merge (layers : List Config) (leaf : Leaf) :
    (merge layers).value? leaf = layers.reverse.findSome? (·.value? leaf) := by
  rw [merge, value?_foldl_atop, value?_empty, Option.or_none]

/-! ## Faults -/

/-- What went wrong, if anything did. -/
def fault? {α : Type} : Except Error α → Option Error
  | .ok _ => none
  | .error error => some error

/-- A section that says nothing has nothing wrong with it, and neither has one that is not there. -/
theorem validate_eq (config : Config) : config.validate = (ofLayer config.value?).validate := by
  obtain ⟨cache, network, extensions⟩ := config
  cases cache <;> cases network <;> cases extensions <;> rfl

end Config

end Locator
