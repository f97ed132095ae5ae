import Locator.Config.Environment
import Locator.Proofs.Config.Leaves

/-!
# Environment variables leaf by leaf

Every leaf of a configuration has a variable, and the bindings of the environment are those of the
leaves. What a binding does is laying a small configuration over the one at hand, so what all of
them do is said leaf by leaf: the first variable that cannot be read ends it, and without one each
leaf gets the value of its variable where that is set.

* `bindings_eq`: the bindings are those of the leaves
* `overlayBindings_of_unset`, `overlayBindings_of_read`, `overlayBindings_of_unreadable`: what one
  binding leads to
* `overlay_error`, `value?_overlay`: what all of them come to
-/

namespace Locator

namespace Config

namespace Leaf

/-- The variable that sets a leaf. -/
def variableName : Leaf → String
  | ttlSeconds => "RESPATH_CACHE_TTL_SECONDS"
  | readTimeoutMillis => "RESPATH_READ_TIMEOUT_MS"
  | trustSelfSigned => "RESPATH_TRUST_SELF_SIGNED"
  | legacyExtension => "RESPATH_LEGACY_EXTENSION"
  | currentExtension => "RESPATH_CURRENT_EXTENSION"

/-- What the text of its variable says about a leaf. -/
def read : (leaf : Leaf) → String → Except Violation leaf.Value
  | ttlSeconds | readTimeoutMillis => Environment.readNumber
  | trustSelfSigned => Environment.readSwitch
  | legacyExtension | currentExtension => .ok

/-- The configuration that has the section of a leaf and says nothing. -/
def bare : Leaf → Config
  | ttlSeconds => { cache := some {} }
  | readTimeoutMillis | trustSelfSigned => { network := some {} }
  | legacyExtension | currentExtension => { extensions := some {} }

/-- The configuration that sets a leaf and says nothing else. -/
def only : (leaf : Leaf) → leaf.Value → Config
  | ttlSeconds, value => { cache := some { ttlSeconds := some value } }
  | readTimeoutMillis, value => { network := some { readTimeoutMillis := some value } }
  | trustSelfSigned, value => { network := some { trustSelfSigned := some value } }
  | legacyExtension, value => { extensions := some { legacy := some value } }
  | currentExtension, value => { extensions := some { current := some value } }

/-- The leaves in the order in which their variables take effect. -/
def all : List Leaf :=
  [ttlSeconds, readTimeoutMillis, trustSelfSigned, legacyExtension, currentExtension]

/-- The binding of the variable of a leaf. -/
def binding (leaf : Leaf) : Environment.Binding where
  name := leaf.variableName
  openSection := leaf.bare.atop
  assign := fun text => (leaf.read text).map fun value => (leaf.only value).atop

variable {leaf other : Leaf}

theorem mem_all (leaf : Leaf) : leaf ∈ all := by
  cases leaf <;> decide

@[simp] theorem value?_bare (leaf other : Leaf) : leaf.bare.value? other = none := by
  cases leaf <;> cases other <;> rfl

@[simp] theorem value?_only_self (leaf : Leaf) (value : leaf.Value) :
    (leaf.only value).value? leaf = some value := by
  cases leaf <;> rfl

theorem value?_only_of_ne (value : leaf.Value) (h : other ≠ leaf) :
    (leaf.only value).value? other = none := by
  cases leaf <;> cases other <;> first | rfl | exact absurd rfl h

end Leaf

theorem bindings_eq : Environment.bindings = Leaf.all.map Leaf.binding :=
  rfl

end Config

namespace Environment

open Config (Leaf Layer)

variable {environment : Environment} {config : Config} {leaf : Leaf} {leaves : List Leaf}

/-! ## What the variables say -/

/-- What the variable of a leaf says, if it is set. -/
def reading? (environment : Environment) (leaf : Leaf) : Option (Except Error leaf.Value) :=
  (environment.text? leaf.variableName).map fun text =>
    (leaf.read text).mapError (.validation leaf.variableName)

/-- The values of the variables that are set. -/
def layer (environment : Environment) : Layer := fun leaf =>
  (environment.reading? leaf).bind Except.toOption

/-- What is wrong with the value of the variable of a leaf. -/
def fault? (environment : Environment) (leaf : Leaf) : Option Error :=
  (environment.reading? leaf).bind Config.fault?

theorem layer_and_fault?_of_unset (htext : environment.text? leaf.variableName = none) :
    environment.layer leaf = none ∧ environment.fault? leaf = none := by
  simp [layer, fault?, reading?, htext]

theorem layer_and_fault?_of_read {text : String} {value : leaf.Value}
    (htext : environment.text? leaf.variableName = some text) (hread : leaf.read text = .ok value) :
    environment.layer leaf = some value ∧ environment.fault? leaf = none := by
  have hreading : environment.reading? leaf = some (.ok value) := by
    rw [reading?, htext, Option.map_some, hread]
    rfl
  rw [layer, fault?, hreading]
  exact ⟨rfl, rfl⟩

theorem fault?_of_unreadable {text : String} {violation : Violation}
    (htext : environment.text? leaf.variableName = some text)
    (hread : leaf.read text = .error violation) :
    environment.fault? leaf = some (.validation leaf.variableName violation) := by
  have hreading : environment.reading? leaf =
      some (.error (.validation leaf.variableName violation)) := by
    rw [reading?, htext, Option.map_some, hread]
    rfl
  rw [fault?, hreading]
  rfl

/-! ## The bindings, one after another -/

theorem overlayBindings_of_unset (htext : environment.text? leaf.variableName = none)
    (leaves : List Leaf) (config : Config) :
    environment.overlayBindings ((leaf :: leaves).map Leaf.binding) config =
      environment.overlayBindings (leaves.map Leaf.binding) config := by
  have hbinding : environment.text? leaf.binding.name = none := htext
  rw [List.map_cons, overlayBindings, hbinding]

theorem overlayBindings_of_read {text : String} {value : leaf.Value}
    (htext : environment.text? leaf.variableName = some text) (hread : leaf.read text = .ok value)
    (leaves : List Leaf) (config : Config) :
    environment.overlayBindings ((leaf :: leaves).map Leaf.binding) config =
      environment.overlayBindings (leaves.map Leaf.binding)
        ((leaf.only value).atop (leaf.bare.atop config)) := by
  have hbinding : environment.text? leaf.binding.name = some text := htext
  have hassign : leaf.binding.assign text = .ok (leaf.only value).atop := by
    show (leaf.read text).map _ = _
    rw [hread]
    rfl
  simp only [List.map_cons, overlayBindings, hbinding, hassign]
  rfl

theorem overlayBindings_of_unreadable {text : String} {violation : Violation}
    (htext : environment.text? leaf.variableName = some text)
    (hread : leaf.read text = .error violation) (leaves : List Leaf) (config : Config) :
    environment.overlayBindings ((leaf :: leaves).map Leaf.binding) config =
      { config := leaf.bare.atop config
        error := some (.validation leaf.variableName violation) } := by
  have hbinding : environment.text? leaf.binding.name = some text := htext
  have hassign : leaf.binding.assign text = .error violation := by
    show (leaf.read text).map _ = _
    rw [hread]
    rfl
  simp only [List.map_cons, overlayBindings, hbinding, hassign]
  rfl

/-- The first variable that cannot be read ends it. -/
theorem overlayBindings_error (leaves : List Leaf) (config : Config) :
    (environment.overlayBindings (leaves.map Leaf.binding) config).error =
      leaves.findSome? environment.fault? := by
  induction leaves generalizing config with
  | nil => rfl
  | cons leaf rest ih =>
    rw [List.findSome?_cons]
    cases htext : environment.text? leaf.variableName with
    | none =>
      rw [overlayBindings_of_unset htext, (layer_and_fault?_of_unset htext).2]
      exact ih config
    | some text =>
      cases hread : leaf.read text with
      | ok value =>
        rw [overlayBindings_of_read htext hread, (layer_and_fault?_of_read htext hread).2]
        exact ih _
      | error violation =>
        rw [overlayBindings_of_unreadable htext hread, fault?_of_unreadable htext hread]

/-- Until then, the value of a variable that is set takes the place of what was there. -/
theorem value?_overlayBindings (leaves : List Leaf) (config : Config)
    (h : leaves.findSome? environment.fault? = none) (other : Leaf) :
    (environment.overlayBindings (leaves.map Leaf.binding) config).config.value? other =
      (if other ∈ leaves then environment.layer other else none).or (config.value? other) := by
  induction leaves generalizing config with
  | nil => rfl
  | cons leaf rest ih =>
    rw [List.findSome?_cons] at h
    cases htext : environment.text? leaf.variableName with
    | none =>
      obtain ⟨hlayer, hfault⟩ := layer_and_fault?_of_unset htext
      rw [hfault] at h
      rw [overlayBindings_of_unset htext, ih config h]
      by_cases heq : other = leaf
      · subst heq
        rw [hlayer, ite_self, ite_self]
      · simp only [List.mem_cons, heq, false_or]
    | some text =>
      cases hread : leaf.read text with
      | error violation =>
        rw [fault?_of_unreadable htext hread] at h
        cases h
      | ok value =>
        obtain ⟨hlayer, hfault⟩ := layer_and_fault?_of_read htext hread
        rw [hfault] at h
        rw [overlayBindings_of_read htext hread, ih _ h, Config.value?_atop, Config.value?_atop,
          Leaf.value?_bare, Option.none_or]
        by_cases heq : other = leaf
        · subst heq
          -- the value is there already, whether or not the leaf comes again
          rw [hlayer, Leaf.value?_only_self, if_pos List.mem_cons_self]
          split <;> rfl
        · simp only [Leaf.value?_only_of_ne value heq, Option.none_or, List.mem_cons, heq, false_or]

theorem overlay_error (environment : Environment) (config : Config) :
    (environment.overlay config).error = Leaf.all.findSome? environment.fault? := by
  rw [overlay, Config.bindings_eq]
  exact overlayBindings_error Leaf.all config

theorem value?_overlay (h : Leaf.all.findSome? environment.fault? = none) (config : Config)
    (leaf : Leaf) :
    (environment.overlay config).config.value? leaf =
      (environment.layer leaf).or (config.value? leaf) := by
  rw [overlay, Config.bindings_eq, value?_overlayBindings Leaf.all config h leaf,
    if_pos (Leaf.mem_all leaf)]

end Environment

end Locator
