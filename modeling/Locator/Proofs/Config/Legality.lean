import Locator.Proofs.Config.Leaves
import Locator.Proofs.Duration

/-!
# Legal settings

There are five demands on settings, in an order. A configuration is checked section by section,
with rules of its own for what it leaves open; what comes of it is what comes of looking at the
demands one after the other on the settings that the configuration amounts to.

* `Demand.Met`, `Demand.violation?`: what is demanded, and what is reported where it is not met
* `violation?_eq_none_iff`: nothing is reported exactly where a demand is met
* `fault?_validate`: checking a configuration is looking at the demands in order
* `validate_eq_of_resolved_eq`: nothing but the settings counts
* `validate_ok_iff_legal`: which configurations are valid, and what is said about the others
-/

namespace Locator

namespace Config

/-- What is demanded of settings. -/
inductive Demand where
  | cacheTtl
  | readTimeout
  | legacyExtension
  | currentExtension
  | differentExtensions
  deriving DecidableEq, Repr

/-- Without the blanks around it the extension is something, does not begin with a dot, and has no
separators in it. -/
def UsableExtension (extension : String) : Prop :=
  let bare := Text.trim extension.toList
  bare ≠ [] ∧ bare.head? ≠ some '.' ∧ '/' ∉ bare ∧ '\\' ∉ bare

namespace Demand

/-- The demands in the order in which they are looked at. -/
def all : List Demand :=
  [cacheTtl, readTimeout, legacyExtension, currentExtension, differentExtensions]

/-- The field that is named where a demand is not met. -/
def field : Demand → String
  | cacheTtl => "cache.ttl_seconds"
  | readTimeout => "network.read_timeout_ms"
  | legacyExtension => "extensions.legacy"
  | currentExtension => "extensions.current"
  | differentExtensions => "extensions"

/-- The settings are as they should be. -/
def Met (settings : Settings) : Demand → Prop
  | cacheTtl => settings.cacheTtl.toNanos ≠ 0
  | readTimeout => settings.readTimeout.toNanos ≠ 0
  | legacyExtension => UsableExtension settings.legacyExtension
  | currentExtension => UsableExtension settings.currentExtension
  | differentExtensions => settings.legacyExtension ≠ settings.currentExtension

/-- What is wrong with the settings. -/
def violation? (settings : Settings) : Demand → Option Violation
  | cacheTtl => if settings.cacheTtl.toNanos = 0 then some .zeroTtl else none
  | readTimeout => if settings.readTimeout.toNanos = 0 then some .zeroTimeout else none
  | legacyExtension => extensionViolation? settings.legacyExtension
  | currentExtension => extensionViolation? settings.currentExtension
  | differentExtensions =>
    if settings.legacyExtension = settings.currentExtension then
      some (.sameExtensions settings.legacyExtension)
    else none

/-- The same as an error that names the field. -/
def fault? (settings : Settings) (demand : Demand) : Option Error :=
  (demand.violation? settings).map (.validation demand.field)

theorem mem_all (demand : Demand) : demand ∈ all := by
  cases demand <;> decide

end Demand

/-! ## Demands that are met -/

theorem extensionViolation?_eq_none_iff {extension : String} :
    extensionViolation? extension = none ↔ UsableExtension extension := by
  unfold extensionViolation? UsableExtension
  generalize Text.trim extension.toList = bare
  split
  · simp
  · simp
  · next hsome hdot =>
    -- something is there, and it does not begin with a dot
    have hne : bare ≠ [] := hsome
    have hhead : bare.head? ≠ some '.' := by
      intro hhead
      obtain ⟨rest, rfl⟩ := List.head?_eq_some_iff.mp hhead
      exact hdot rest rfl
    simp [hne, hhead]

theorem violation?_eq_none_iff {settings : Settings} {demand : Demand} :
    demand.violation? settings = none ↔ demand.Met settings := by
  cases demand with
  | cacheTtl => simp [Demand.violation?, Demand.Met]
  | readTimeout => simp [Demand.violation?, Demand.Met]
  | legacyExtension => exact extensionViolation?_eq_none_iff
  | currentExtension => exact extensionViolation?_eq_none_iff
  | differentExtensions => simp [Demand.violation?, Demand.Met]

theorem demand_fault?_eq_none_iff {settings : Settings} {demand : Demand} :
    demand.fault? settings = none ↔ demand.Met settings := by
  rw [Demand.fault?, Option.map_eq_none_iff, violation?_eq_none_iff]

/-! ## Sections and demands -/

theorem fault?_seq (first second : Except Error Unit) :
    fault? (first >>= fun _ => second) = (fault? first).or (fault? second) := by
  cases first <;> rfl

/-- What is wrong with a configuration, section by section. -/
theorem fault?_validate_sections (config : Config) :
    fault? config.validate =
      (config.cache.bind fun cache => fault? (validateCache cache)).or
        ((config.network.bind fun network => fault? (validateNetwork network)).or
          (config.extensions.bind fun extensions => fault? (validateExtensions extensions))) := by
  obtain ⟨cache, network, extensions⟩ := config
  cases cache with
  | none =>
    cases network with
    | none => cases extensions <;> rfl
    | some network => cases extensions <;> exact fault?_seq _ _
  | some cache =>
    refine (fault?_seq _ _).trans ?_
    cases network with
    | none => cases extensions <;> rfl
    | some network =>
      refine congrArg ((fault? (validateCache cache)).or ·) ?_
      cases extensions <;> exact fault?_seq _ _

theorem toNanos_ofSeconds_eq_zero_iff {seconds : UInt64} :
    (Duration.ofSeconds seconds).toNanos = 0 ↔ seconds = 0 := by
  rw [Duration.toNanos_ofSeconds, ← UInt64.toNat_inj, UInt64.toNat_zero]
  omega

theorem toNanos_ofMillis_eq_zero_iff {millis : UInt64} :
    (Duration.ofMillis millis).toNanos = 0 ↔ millis = 0 := by
  rw [Duration.toNanos_ofMillis, ← UInt64.toNat_inj, UInt64.toNat_zero]
  omega

/-- A default that is not zero may as well be looked at. -/
theorem eq_some_zero_iff {fallback : UInt64} (h : fallback ≠ 0) (value? : Option UInt64) :
    value? = some 0 ↔ value?.getD fallback = 0 := by
  cases value? with
  | none => simp [h]
  | some value => simp

/-- A default that there is nothing wrong with may as well be looked at. -/
theorem bind_eq_of_fallback {σ τ : Type} {check : σ → Option τ} {fallback : σ}
    (h : check fallback = none) (value? : Option σ) :
    value?.bind check = check (value?.getD fallback) := by
  cases value? with
  | none => exact h.symm
  | some value => rfl

section

variable (config : Config)

theorem fault?_cache :
    (config.cache.bind fun cache => fault? (validateCache cache)) =
      Demand.cacheTtl.fault? config.resolved := by
  have hzero : config.resolved.cacheTtl.toNanos = 0 ↔ config.ttlSeconds? = some 0 :=
    toNanos_ofSeconds_eq_zero_iff.trans (eq_some_zero_iff (by decide) _).symm
  simp only [Demand.fault?, Demand.violation?, hzero, ttlSeconds?]
  cases config.cache with
  | none => rfl
  | some cache =>
    simp only [Option.bind_some, validateCache]
    split <;> rfl

theorem fault?_network :
    (config.network.bind fun network => fault? (validateNetwork network)) =
      Demand.readTimeout.fault? config.resolved := by
  have hzero : config.resolved.readTimeout.toNanos = 0 ↔ config.readTimeoutMillis? = some 0 :=
    toNanos_ofMillis_eq_zero_iff.trans (eq_some_zero_iff (by decide) _).symm
  simp only [Demand.fault?, Demand.violation?, hzero, readTimeoutMillis?]
  cases config.network with
  | none => rfl
  | some network =>
    simp only [Option.bind_some, validateNetwork]
    split <;> rfl

theorem fault?_validateExtension {fallback : String} (h : extensionViolation? fallback = none)
    (field : String) (extension : Option String) :
    fault? (validateExtension field extension) =
      (extensionViolation? (extension.getD fallback)).map (.validation field) := by
  rw [validateExtension, ← bind_eq_of_fallback h]
  cases extension.bind extensionViolation? <;> rfl

theorem fault?_validateExtensions (extensions : ExtensionSection) :
    fault? (validateExtensions extensions) =
      let legacy := extensions.legacy.getD defaultLegacyExtension
      let current := extensions.current.getD defaultCurrentExtension
      ((extensionViolation? legacy).map (.validation "extensions.legacy")).or
        (((extensionViolation? current).map (.validation "extensions.current")).or
          (if legacy = current then
            some (.validation "extensions" (.sameExtensions legacy)) else none)) := by
  have hlegacy : extensionViolation? defaultLegacyExtension = none := by decide
  have hcurrent : extensionViolation? defaultCurrentExtension = none := by decide
  rw [validateExtensions, fault?_seq, fault?_seq, fault?_validateExtension hlegacy,
    fault?_validateExtension hcurrent]
  refine congrArg (Option.or _ <| Option.or _ ·) ?_
  show fault? (if _ then throw _ else pure ()) = _
  split <;> rfl

theorem fault?_extensions :
    (config.extensions.bind fun extensions => fault? (validateExtensions extensions)) =
      (Demand.legacyExtension.fault? config.resolved).or
        ((Demand.currentExtension.fault? config.resolved).or
          (Demand.differentExtensions.fault? config.resolved)) := by
  -- the section that is not there has nothing wrong with it either
  have hsilent : fault? (validateExtensions {}) = none := by decide
  have hsection : (config.extensions.bind fun extensions =>
      fault? (validateExtensions extensions)) =
        fault? (validateExtensions (config.extensions.getD {})) :=
    @bind_eq_of_fallback _ _ (fun extensions => fault? (validateExtensions extensions)) _
      hsilent config.extensions
  have hlegacy : (config.extensions.getD {}).legacy.getD defaultLegacyExtension =
      config.resolved.legacyExtension := by
    rw [resolved, legacyExtension?]
    cases config.extensions <;> rfl
  have hcurrent : (config.extensions.getD {}).current.getD defaultCurrentExtension =
      config.resolved.currentExtension := by
    rw [resolved, currentExtension?]
    cases config.extensions <;> rfl
  rw [hsection, fault?_validateExtensions, hlegacy, hcurrent]
  refine congrArg (Option.or _ <| Option.or _ ·) ?_
  rw [Demand.fault?, Demand.violation?]
  split <;> rfl

end

theorem findSome?_cons_eq_or {σ τ : Type} (check : σ → Option τ) (first : σ) (rest : List σ) :
    (first :: rest).findSome? check = (check first).or (rest.findSome? check) := by
  rw [List.findSome?_cons]
  cases check first <;> rfl

/-- What is wrong with a configuration is the first demand that its settings do not meet. -/
theorem fault?_validate (config : Config) :
    fault? config.validate = Demand.all.findSome? (·.fault? config.resolved) := by
  simp only [fault?_validate_sections, fault?_cache, fault?_network, fault?_extensions, Demand.all,
    findSome?_cons_eq_or, List.findSome?_nil, Option.or_none]

/-- Of two configurations that amount to the same settings the same is said. -/
theorem validate_eq_of_resolved_eq {config other : Config} (h : config.resolved = other.resolved) :
    config.validate = other.validate := by
  have hfault : fault? config.validate = fault? other.validate := by
    rw [fault?_validate, fault?_validate, h]
  cases hconfig : config.validate <;> cases hother : other.validate <;>
    simp_all only [fault?, Option.some.injEq, reduceCtorEq]

/-- A configuration is valid exactly when the settings that it amounts to meet every demand: times
that are not zero, and two different extensions that are usable. Of one that is not valid it is said
which demand is the first that is not met, by its field, and what is wrong. -/
theorem validate_ok_iff_legal (config : Config) :
    (config.validate = .ok () ↔ ∀ demand : Demand, demand.Met config.resolved) ∧
    ∀ error, config.validate = .error error ↔
      ∃ earlier demand later violation,
        Demand.all = earlier ++ demand :: later ∧
        (∀ before ∈ earlier, before.Met config.resolved) ∧
        ¬ demand.Met config.resolved ∧
        demand.violation? config.resolved = some violation ∧
        error = .validation demand.field violation := by
  -- the checks of the sections come to the demands in order, of which the first that is not met
  -- counts
  have hfault := fault?_validate config
  constructor
  · have hok : config.validate = .ok () ↔ fault? config.validate = none := by
      cases config.validate <;> simp [fault?]
    rw [hok, hfault, List.findSome?_eq_none_iff]
    simp only [demand_fault?_eq_none_iff, Demand.mem_all, forall_const]
  · intro error
    have herror : config.validate = .error error ↔ fault? config.validate = some error := by
      cases config.validate <;> simp [fault?]
    rw [herror, hfault, List.findSome?_eq_some_iff]
    constructor
    · rintro ⟨earlier, demand, later, hall, hdemand, hearlier⟩
      obtain ⟨violation, hviolation, rfl⟩ := Option.map_eq_some_iff.mp hdemand
      refine ⟨earlier, demand, later, violation, hall, ?_, ?_, hviolation, rfl⟩
      · intro before hbefore
        exact demand_fault?_eq_none_iff.mp (hearlier before hbefore)
      · rw [← violation?_eq_none_iff, hviolation]
        exact Option.some_ne_none violation
    · rintro ⟨earlier, demand, later, violation, hall, hearlier, -, hviolation, rfl⟩
      refine ⟨earlier, demand, later, hall, ?_, ?_⟩
      · rw [Demand.fault?, hviolation, Option.map_some]
      · intro before hbefore
        exact demand_fault?_eq_none_iff.mpr (hearlier before hbefore)

/-- The blanks around an extension do not spoil it, but they tell it from another one. -/
example :
    ({ extensions := some { legacy := some " page", current := some "page" } } : Config).validate =
      .ok () :=
  rfl

end Config

end Locator
