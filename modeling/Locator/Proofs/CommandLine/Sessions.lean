import Locator.CommandLine.Run
import Locator.Proofs.Config.Precedence
import Locator.Proofs.Resolver.Again

/-!
# What commands about resources begin with

A command about resources needs settings. Without them it fails and does nothing; with them it
begins in a session without a past.

* `value?_overrides`, `resolved_of_options`: what the options say about the settings, and that it
  counts
* `configuration_of_no_files`: the settings where there are no configuration files
* `withResources_of_error`, `withResources_of_ok`: the two ways of a command
* `session_current`: the first session has nothing in its cache
-/

namespace Locator.CommandLine

open Files (FileSystem)
open Resolver (Action Session)

variable {globals : Globals} {surroundings : Surroundings} {config : Config} {error : Error}

/-! ## Settings -/

/-- Each of three options sets one leaf, and nothing else is set. -/
theorem Globals.value?_overrides (globals : Globals) (leaf : Config.Leaf) :
    globals.overrides.value? leaf =
      match leaf with
      | .ttlSeconds => globals.cacheTtl
      | .readTimeoutMillis => globals.readTimeoutMillis
      | .trustSelfSigned => if globals.trustSelfSigned then some true else none
      | .legacyExtension | .currentExtension => none := by
  obtain ⟨verbose, quiet, directory, ttl, timeout, trust⟩ := globals
  cases leaf with
  | ttlSeconds => cases ttl <;> rfl
  | readTimeoutMillis => cases timeout <;> cases trust <;> rfl
  | trustSelfSigned => cases timeout <;> cases trust <;> rfl
  | legacyExtension => rfl
  | currentExtension => rfl

/-- What a command asks for: all sources of settings, and the options over them. -/
def Globals.request (globals : Globals) : Config.Request where
  userDirectory := globals.configDirectory
  overrides := some globals.overrides

/-- What an option sets is not overruled by anything. -/
theorem value?_of_option (hconfig : (globals.configuration surroundings).result = .ok config)
    {leaf : Config.Leaf} {value : leaf.Value} (h : globals.overrides.value? leaf = some value) :
    config.value? leaf = some value := by
  have hbuild : globals.configuration surroundings =
      globals.request.build surroundings.files surroundings.environment := rfl
  rw [hbuild, Config.Request.build] at hconfig
  cases hsources : globals.request.sources surroundings.files surroundings.environment with
  | error error =>
    rw [hsources] at hconfig
    cases hconfig
  | ok sources =>
    rw [hsources] at hconfig
    have hcomplete : globals.request.complete surroundings.environment
        (Config.merge (sources.map (·.config))) = .ok config := hconfig
    -- the options are the uppermost layer
    have hupper : globals.request.upperLayers surroundings.environment =
        [globals.overrides.value?, surroundings.environment.layer] := rfl
    rw [Config.Request.value?_of_complete hcomplete, hupper, List.findSome?_cons, h,
      Option.some_or]

/-- The settings are those of the options that are given. -/
theorem resolved_of_options (hconfig : (globals.configuration surroundings).result = .ok config) :
    (∀ seconds, globals.cacheTtl = some seconds →
        config.resolved.cacheTtl = .ofSeconds seconds) ∧
      (∀ millis, globals.readTimeoutMillis = some millis →
        config.resolved.readTimeout = .ofMillis millis) ∧
      (globals.trustSelfSigned = true → config.resolved.trustSelfSigned = true) := by
  rw [Config.resolved_eq]
  refine ⟨fun seconds h => ?_, fun millis h => ?_, fun h => ?_⟩
  · have hvalue := value?_of_option hconfig
      ((globals.value?_overrides .ttlSeconds).trans h)
    exact congrArg
      (fun value => Duration.ofSeconds (value.getD Config.Leaf.ttlSeconds.fallback)) hvalue
  · have hvalue := value?_of_option hconfig
      ((globals.value?_overrides .readTimeoutMillis).trans h)
    exact congrArg
      (fun value => Duration.ofMillis (value.getD Config.Leaf.readTimeoutMillis.fallback)) hvalue
  · have hvalue := value?_of_option hconfig
      ((globals.value?_overrides .trustSelfSigned).trans (if_pos h))
    exact congrArg (fun value => value.getD Config.Leaf.trustSelfSigned.fallback) hvalue

/-- Where no configuration file applies, the environment and the options make the settings. -/
theorem configuration_of_no_files {home : String}
    (hhome : Config.homeOf surroundings.environment globals.configDirectory = .ok home)
    (hnone : globals.request.applicable surroundings.files home = []) :
    (globals.configuration surroundings).result =
      globals.request.complete surroundings.environment {} := by
  have hbuild : globals.configuration surroundings =
      globals.request.build surroundings.files surroundings.environment := rfl
  rw [hbuild, Config.Request.build, Config.Request.sources_eq fun _ => hhome, hnone]
  rfl

/-! ## Sessions -/

/-- The session in which a command about resources begins. -/
def Surroundings.session (surroundings : Surroundings) (settings : Settings) : Session where
  files := surroundings.files
  cache := { ttl := settings.cacheTtl }
  web := .served
    { timeout := settings.readTimeout
      trustsAnyCertificate := settings.trustSelfSigned
      parse := Url.parse surroundings.domains }
    (surroundings.network.transportFor surroundings.domains settings.readTimeout)
  records := [settingsRecord settings]

theorem session_current (surroundings : Surroundings) (settings : Settings) :
    (surroundings.session settings).Current :=
  .of_empty (Cache.atRest_empty settings.cacheTtl) fun _ => rfl

/-- Without settings a command fails and leaves the files as they are. -/
theorem withResources_of_error (h : (globals.configuration surroundings).result = .error error)
    (use : Settings → Action Report) :
    (withResources globals surroundings use).report = .failed (.configuration error.message) ∧
      (withResources globals surroundings use).files = surroundings.files := by
  rw [withResources, withSettings]
  simp only [h, and_self]

/-- With settings a command is carried out in the first session. -/
theorem withResources_of_ok (h : (globals.configuration surroundings).result = .ok config)
    (use : Settings → Action Report) :
    let run := (use config.resolved).run (surroundings.session config.resolved)
    (withResources globals surroundings use).report = run.1 ∧
      (withResources globals surroundings use).files = run.2.files := by
  rw [withResources, withSettings]
  simp only [h]
  exact ⟨rfl, rfl⟩

/-! ## Reports -/

theorem not_exists_ok {ε α : Type} (error : ε) :
    ¬∃ value : α, (.error error : Except ε α) = .ok value := by
  rintro ⟨value, h⟩
  cases h

theorem Failure.exitCode_ne_zero (failure : Failure) : failure.exitCode ≠ 0 := by
  cases failure <;> simp [Failure.exitCode]

theorem Report.exitCode_eq_zero_iff (report : Report) :
    report.exitCode = 0 ↔ report.failure = none := by
  rw [Report.exitCode]
  cases report.failure with
  | none => exact iff_of_true rfl rfl
  | some failure => simp [Failure.exitCode_ne_zero failure]

theorem Report.exitCode_failed (failure : Failure) :
    (Report.failed failure).exitCode = failure.exitCode :=
  rfl

/-! ## A directory of displays -/

/-- Two displays and a directory of images next to each other, and no configuration anywhere. -/
def displaySurroundings : Surroundings where
  environment := { values := [("HOME", Bytes.ofString "/home")] }
  files := {
    entries := [
      (["displays"], .directory),
      (["pump.bob", "displays"], .file (Bytes.ofString "pump")),
      (["tank.bob", "displays"], .file (Bytes.ofString "tank")),
      (["images", "displays"], .directory)]
    workingDirectory := ["displays"] }
  network := fun _ => none

/-- No configuration is there to be found. -/
theorem configuration_of_find
    (henvironment : surroundings.environment = displaySurroundings.environment)
    (hdirectory : surroundings.files.workingDirectory = ["displays"])
    (hfind : ∀ location,
      surroundings.files.find location = displaySurroundings.files.find location) :
    (({} : Globals).configuration surroundings).result = .ok {} := by
  have hhome : Config.homeOf surroundings.environment ({} : Globals).configDirectory =
      .ok "/home/.respath" := by
    rw [henvironment]
    decide +kernel
  rw [configuration_of_no_files hhome]
  · rw [henvironment]
    decide +kernel
  · -- only what is found matters, and that is looked up among the displays
    simp only [Config.Request.applicable, Config.Request.start, Config.candidates,
      Config.nearest?, Config.present, FileSystem.exists?, hdirectory, hfind]
    simp only [FileSystem.find, FileSystem.walk, FileSystem.checkLocation_eq]
    decide +kernel

theorem configuration_display :
    (({} : Globals).configuration displaySurroundings).result = .ok {} :=
  configuration_of_find rfl rfl fun _ => rfl

/-- What is found there under relative and absolute locations, and what is not. -/
theorem find_display :
    (∀ location ∈ ["pump.bob", "/displays/pump.bob"], displaySurroundings.files.find location =
        .ok (["pump.bob", "displays"], .file (Bytes.ofString "pump"))) ∧
      displaySurroundings.files.find "tank.bob" =
        .ok (["tank.bob", "displays"], .file (Bytes.ofString "tank")) ∧
      (∀ location ∈ ["images", "/displays/images"], displaySurroundings.files.find location =
        .ok (["images", "displays"], .directory)) ∧
      ∀ location ∈ ["pump.opi", "sub/pump.opi", "sub/pump.bob", "valve.bob"],
        displaySurroundings.files.find location = .error .notFound := by
  simp only [FileSystem.find, FileSystem.walk, FileSystem.checkLocation_eq]
  decide +kernel

/-- What the names there stand for. -/
theorem names_display :
    (∀ name ∈ ["pump.bob", "images", "valve.bob"],
      Resolver.candidates (Config.resolved {}) none name = [.file name, .file name] ∧
        Resolver.stripFilePrefix name = name ∧ Path.isUrl name = false) ∧
      displaySurroundings.files.absolute "pump.bob" = "/displays/pump.bob" ∧
      displaySurroundings.files.absolute "images" = "/displays/images" := by
  decide +kernel

end Locator.CommandLine
