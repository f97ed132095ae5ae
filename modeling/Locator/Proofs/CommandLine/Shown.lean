import Locator.Proofs.CommandLine.Sessions
import Locator.Proofs.Config.JsonText
import Locator.Proofs.Config.Legality
import Locator.Proofs.Config.Search
import Locator.Proofs.Files.Writing

/-!
# What is shown of the configuration

`show-config` prints the settings in effect, and what it prints is a configuration file itself.

* `parse?_shown_yaml`, `parse?_shown_json`: what is read of what is printed
* `loadFile_showConfig`: when the file gives the settings that it was printed for
* `survivesPrinting_yaml`, `survivesPrinting_json`: texts of which nothing is lost
-/

namespace Locator

open Files (FileSystem Place)
open CommandLine (Format Invocation Surroundings Globals)
open Yaml (isBreak isAllowed isNotText Style Scanner tokens? document?)

theorem Bytes.toString?_ofString (text : String) :
    Bytes.toString? (Bytes.ofString text) = some text := by
  have hbytes : (⟨text.toUTF8.data.toList.toArray⟩ : ByteArray) = text.toUTF8 := by simp
  rw [Bytes.toString?, Bytes.ofString, String.fromUTF8?, hbytes,
    dif_pos (show text.toUTF8.IsValidUTF8 from text.isValidUTF8)]
  rfl

namespace Settings

open Config.Reading

/-- What is printed for settings, with the end of the line. -/
def shown (settings : Settings) (format : Format) : String :=
  (match format with
    | .yaml => settings.toYaml
    | .json => settings.toJson) ++ "\n"

/-- What is printed says the settings. In YAML nothing but the end of the last line is missing of
the serializer's text, in JSON both texts are read as they are between quotes. -/
def SurvivesPrinting (settings : Settings) : Format → Prop
  | .yaml => settings.shown .yaml = String.ofList settings.yamlText
  | .json =>
    keptInQuotes settings.legacyExtension = true ∧ keptInQuotes settings.currentExtension = true

instance (settings : Settings) (format : Format) : Decidable (settings.SurvivesPrinting format) :=
  match format with
  | .yaml => inferInstanceAs (Decidable (_ = _))
  | .json => inferInstanceAs (Decidable (_ ∧ _))

end Settings

namespace Config

variable {config : Config} {request : Request} {environment : Environment}

/-- What is built was checked. -/
theorem Request.validate_of_complete {lower : Config}
    (h : request.complete environment lower = .ok config) : config.validate = .ok () := by
  obtain ⟨error, -, hresult⟩ | ⟨-, final, hresult, -⟩ := request.complete_cases environment lower
  · cases hresult.symm.trans h
  · rw [hresult] at h
    cases hvalid : final.validate with
    | error error =>
      rw [hvalid] at h
      cases h
    | ok _ =>
      rw [hvalid] at h
      obtain rfl : final = config := Except.ok.inj h
      exact hvalid

theorem Request.validate_of_build {files : FileSystem}
    (h : (request.build files environment).result = .ok config) : config.validate = .ok () := by
  rw [build] at h
  cases hsources : request.sources files environment with
  | error error =>
    rw [hsources] at h
    cases h
  | ok sources =>
    rw [hsources] at h
    exact validate_of_complete h

/-- The extensions of a valid configuration are not blank. -/
theorem exists_of_validate (h : config.validate = .ok ()) :
    (∃ c ∈ config.resolved.legacyExtension.toList, Text.isBlank c = false) ∧
      ∃ c ∈ config.resolved.currentExtension.toList, Text.isBlank c = false := by
  have hmet (demand : Demand) : demand.Met config.resolved := by
    have hnone : Demand.all.findSome? (·.fault? config.resolved) = none := by
      rw [← fault?_validate, h]
      rfl
    exact demand_fault?_eq_none_iff.1 (List.findSome?_eq_none_iff.1 hnone demand demand.mem_all)
  exact ⟨Text.exists_of_trim_ne_nil (hmet .legacyExtension).1,
    Text.exists_of_trim_ne_nil (hmet .currentExtension).1⟩

/-! ## Reading what is printed -/

open Settings

theorem run_of_tokens {text : String} (hallowed : ∀ c ∈ text.toList, isAllowed c = true) :
    tokens? text = ({ cursor := { rest := text.toList } } : Scanner).run :=
  if_pos (List.all_eq_true.2 hallowed)

theorem readText_eq {text : String} {style : Style} (h : style = .plain → isNotText text = false) :
    readText (text, style) = some text := by
  rw [readText, if_neg]
  rintro ⟨hplain, hnull⟩
  have htext := h hplain
  simp only [isNotText, Bool.or_eq_false_iff, List.isEmpty_eq_false_iff] at htext
  obtain hempty | hword := hnull
  · have hnil : text.toList = [] := by
      have hempty : text = "" := hempty
      rw [hempty]
      rfl
    exact htext.1.1.1.1.1 hnil
  · rw [htext.1.1.1.1.2] at hword
    cases hword

/-- A text that is not what ends with a blank is not taken for it, and neither is the default. -/
theorem getD_readText_ne {text current : String} (style : Style) (hne : text ≠ current)
    (hlast : ∃ c ∈ current.toList.getLast?, Text.isBlank c = true) :
    (readText (text, style)).getD defaultCurrentExtension ≠ current := by
  rw [readText]
  split
  · rintro rfl
    obtain ⟨_, ⟨⟩, hblank⟩ := hlast
    cases hblank
  · exact hne

theorem toList_shown_yaml (settings : Settings) :
    (settings.shown .yaml).toList = Text.trimEnd settings.yamlText ++ ['\n'] := by
  simp [shown, toYaml_eq]

theorem toList_shown_json (settings : Settings) :
    (settings.shown .json).toList = settings.jsonText ['\n'] := by
  rw [← toList_toJson_append]
  simp [shown]

/-- A text that is not blank and does not scan is no configuration. -/
theorem parse?_eq_none {text : String} (hblank : Text.allBlank text.toList = false)
    (htokens : tokens? text = none) : parse? text = none := by
  rw [parse?, hblank, document?, htokens]
  rfl

/-- What the last text comes to decides. -/
theorem parse?_shown_yaml (h : config.validate = .ok ()) :
    (∃ read, parse? (config.resolved.shown .yaml) = some read ∧ read.resolved = config.resolved) ↔
      config.resolved.SurvivesPrinting .yaml := by
  obtain ⟨hlegacy, hcurrent⟩ := exists_of_validate h
  have hbreak {text : List Char} (htext : ∃ c ∈ text, Text.isBlank c = false) :
      ∃ c ∈ text, isBreak c = false := by
    obtain ⟨c, hc, hblank⟩ := htext
    exact ⟨c, hc, (Yaml.isBreak_of_not_blank hblank).2⟩
  have hshown := toList_shown_yaml config.resolved
  have hblank : Text.allBlank (config.resolved.shown .yaml).toList = false := by
    rw [hshown, trimEnd_yamlText hcurrent]
    simp [Text.allBlank, yamlFront, cacheText, yamlHeading, Text.isBlank]
  have htokens : tokens? (config.resolved.shown .yaml) =
      ({ cursor := { rest := Text.trimEnd config.resolved.yamlText ++ ['\n'] } } :
        Scanner).run := by
    rw [run_of_tokens, hshown]
    rw [hshown]
    exact List.forall_mem_append.2
      ⟨fun c hc => isAllowed_of_mem_yamlText c (Text.mem_of_mem_trimEnd hc), List.all_eq_true.1 rfl⟩
  -- what is shown is the text without the blanks at its end, and a line feed
  have hsurvives : config.resolved.SurvivesPrinting .yaml ↔
      config.resolved.yamlText = Text.trimEnd config.resolved.yamlText ++ ['\n'] := by
    rw [SurvivesPrinting, ← String.toList_inj, hshown, String.toList_ofList, eq_comm]
  rw [hsurvives]
  by_cases hwhole : config.resolved.yamlText = Text.trimEnd config.resolved.yamlText ++ ['\n']
  · -- nothing but the end of the line was dropped, so all of it is read
    obtain ⟨legacyStyle, currentStyle, hlegacyText, hcurrentText, hrun⟩ :=
      run_yamlText (hbreak hlegacy) (hbreak hcurrent)
    rw [← hwhole, hrun] at htokens
    rw [parse?_document hblank (document?_of_blockTokens htokens), readText_eq hlegacyText,
      readText_eq hcurrentText]
    exact iff_of_true ⟨rfl, rfl⟩ hwhole
  · -- blanks of the last text were dropped: it is malformed, or read as another text
    refine iff_of_false ?_ hwhole
    obtain ⟨hlast, hnone | ⟨legacy, text, style, htext, hrun⟩⟩ :=
      run_trimmed (hbreak hlegacy) hcurrent hwhole
    · rw [hnone] at htokens
      rintro ⟨read, hread, -⟩
      rw [parse?_eq_none hblank htokens] at hread
      cases hread
    · rw [hrun] at htokens
      rw [parse?_document hblank (document?_of_blockTokens htokens)]
      exact fun hread => getD_readText_ne style htext hlast hread.2

/-- The two texts decide. -/
theorem parse?_shown_json (config : Config) :
    (∃ read, parse? (config.resolved.shown .json) = some read ∧ read.resolved = config.resolved) ↔
      config.resolved.SurvivesPrinting .json := by
  have hshown := toList_shown_json config.resolved
  have hblank : Text.allBlank (config.resolved.shown .json).toList = false := by
    rw [hshown]
    simp [Text.allBlank, jsonText, Text.isBlank]
  have htokens : tokens? (config.resolved.shown .json) =
      if (config.resolved.jsonText ['\n']).all isAllowed then
        ({ cursor := { rest := config.resolved.jsonText ['\n'] } } : Scanner).run
      else none := by
    rw [tokens?, hshown]
  -- nothing of the text is dropped here; only characters and breaks can stand in the way
  have hsurvives : config.resolved.SurvivesPrinting .json ↔
      (config.resolved.jsonText ['\n']).all isAllowed = true ∧
        breaksKept config.resolved.legacyExtension = true ∧
        breaksKept config.resolved.currentExtension = true := by
    rw [SurvivesPrinting, all_jsonText, Bool.and_eq_true]
    simp only [keptInQuotes_eq, Bool.and_eq_true]
    exact and_and_and_comm
  rw [hsurvives]
  by_cases hallowed : (config.resolved.jsonText ['\n']).all isAllowed = true
  · rw [if_pos hallowed] at htokens
    obtain ⟨hnone, hkept⟩ | ⟨legacy, current, hlegacy, hcurrent, hrun⟩ :=
      run_jsonText config.resolved
    · rw [hnone] at htokens
      refine iff_of_false ?_ fun h => ?_
      · rintro ⟨read, hread, -⟩
        rw [parse?_eq_none hblank htokens] at hread
        cases hread
      · rw [h.2.1, h.2.2] at hkept
        cases hkept
    · rw [hrun] at htokens
      rw [parse?_document hblank (document?_of_flowTokens htokens), ← hlegacy, ← hcurrent,
        and_iff_right hallowed]
      exact Iff.rfl
  · -- a character that no document may hold
    rw [if_neg hallowed] at htokens
    refine iff_of_false ?_ fun h => hallowed h.1
    rintro ⟨read, hread, -⟩
    rw [parse?_eq_none hblank htokens] at hread
    cases hread

/-- In YAML nothing is lost of settings whose last text does not end with a blank. -/
theorem survivesPrinting_yaml (h : config.validate = .ok ())
    (hlast : ∀ c ∈ config.resolved.currentExtension.toList.getLast?, Text.isBlank c = false) :
    config.resolved.SurvivesPrinting .yaml := by
  rw [SurvivesPrinting, ← String.toList_inj, toList_shown_yaml, String.toList_ofList]
  exact (yamlText_eq_of_last (exists_of_validate h).2 hlast).symm

/-- In JSON nothing is lost of texts whose characters a document may hold and whose breaks JSON
escapes. -/
theorem survivesPrinting_json {settings : Settings}
    (h : ∀ text ∈ [settings.legacyExtension, settings.currentExtension], ∀ c ∈ text.toList,
      isAllowed c = true ∧ (isBreak c = true → c = '\n' ∨ c = '\r')) :
    settings.SurvivesPrinting .json :=
  ⟨keptInQuotes_of_chars (h _ (by simp)), keptInQuotes_of_chars (h _ (by simp))⟩

/-- A file that holds what is printed for a valid configuration. -/
theorem loadFile_shown {files : FileSystem} {location : String} {place : Place} {format : Format}
    (hvalid : config.validate = .ok ())
    (hfile : files.find location =
      .ok (place, .file (Bytes.ofString (config.resolved.shown format)))) :
    (∃ read, loadFile files location = .ok read ∧ read.resolved = config.resolved) ↔
      config.resolved.SurvivesPrinting format := by
  have htext : placeText files place = .ok (config.resolved.shown format) := by
    rw [placeText, FileSystem.readPlace_of_find hfile]
    simp only [bind, Except.bind, Bytes.toString?_ofString]
  have hload (read : Config) : loadFile files location = .ok read ↔
      parse? (config.resolved.shown format) = some read := by
    rw [loadFile_of_find hfile, loadPlace, htext]
    dsimp only
    cases parse? (config.resolved.shown format) <;> simp [Except.mapError]
  simp only [hload]
  cases format with
  | yaml => exact parse?_shown_yaml hvalid
  | json => exact parse?_shown_json config

end Config

namespace CommandLine

variable {invocation : Invocation} {surroundings : Surroundings} {format : Format} {config : Config}

theorem output_showConfig (hcommand : invocation.command = .showConfig format)
    (hconfig : (invocation.globals.configuration surroundings).result = .ok config) :
    (invocation.run surroundings).report.output =
      Bytes.ofString (config.resolved.shown format) := by
  rw [Invocation.run, hcommand]
  simp only [withSettings, hconfig]
  rfl

/-- What `show-config` prints is a configuration file that gives the settings it was printed for,
exactly as far as the text of the settings survives printing. -/
theorem loadFile_showConfig {files : FileSystem} {location : String} {place : Place}
    (hcommand : invocation.command = .showConfig format)
    (hconfig : (invocation.globals.configuration surroundings).result = .ok config)
    (hfile : files.find location =
      .ok (place, .file (invocation.run surroundings).report.output)) :
    (∃ read, Config.loadFile files location = .ok read ∧ read.resolved = config.resolved) ↔
      config.resolved.SurvivesPrinting format := by
  rw [output_showConfig hcommand hconfig] at hfile
  exact Config.loadFile_shown (Config.Request.validate_of_build hconfig) hfile

/-- A disk with one file. -/
def fileAt (content : Bytes) : FileSystem where
  entries := [(["shown.yaml"], .file content)]

theorem find_fileAt (content : Bytes) :
    (fileAt content).find "/shown.yaml" = .ok (["shown.yaml"], .file content) := by
  rw [FileSystem.find, FileSystem.walk, FileSystem.checkLocation_eq]
  rfl

/-- The defaults survive. -/
theorem loadFile_showConfig_defaults :
    let run := Invocation.run { globals := {}, command := .showConfig .yaml } displaySurroundings
    ∃ read, Config.loadFile (fileAt run.report.output) "/shown.yaml" = .ok read ∧
      read.resolved = ({} : Config).resolved :=
  (loadFile_showConfig rfl configuration_display (find_fileAt _)).2 (by decide +kernel)

/-- The extension for displays comes from the environment, with two ends of line behind it. -/
def openEndedSurroundings : Surroundings where
  environment := { values := [
    ("HOME", Bytes.ofString "/home"), ("RESPATH_CURRENT_EXTENSION", Bytes.ofString "bob\n\n")] }
  files := {}
  network := fun _ => none

def openEnded : Config where
  extensions := some { current := some "bob\n\n" }

theorem configuration_openEnded :
    (({} : Globals).configuration openEndedSurroundings).result = .ok openEnded := by
  have hhome : Config.homeOf openEndedSurroundings.environment ({} : Globals).configDirectory =
      .ok "/home/.respath" := by decide +kernel
  rw [configuration_of_no_files hhome]
  · decide +kernel
  · simp only [Config.Request.applicable, Config.candidates, Config.nearest?, Config.present,
      FileSystem.exists?, FileSystem.find, FileSystem.walk, FileSystem.checkLocation_eq]
    decide +kernel

/-- One of the ends of line is not printed, so the file gives another extension. -/
theorem showConfig_drops_breaks :
    let run := Invocation.run { globals := {}, command := .showConfig .yaml } openEndedSurroundings
    (({} : Globals).configuration openEndedSurroundings).result = .ok openEnded ∧
      openEnded.validate = .ok () ∧
      ¬∃ read, Config.loadFile (fileAt run.report.output) "/shown.yaml" = .ok read ∧
        read.resolved = openEnded.resolved := by
  have hvalid := Config.Request.validate_of_build configuration_openEnded
  refine ⟨configuration_openEnded, hvalid, fun hread => ?_⟩
  rw [output_showConfig rfl configuration_openEnded, Config.loadFile_shown hvalid (find_fileAt _)]
    at hread
  revert hread
  decide +kernel

end CommandLine

end Locator
