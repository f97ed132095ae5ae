import Locator.Config.Build
import Locator.Proofs.Config.Nearest
import Locator.Proofs.Config.Variables

/-!
# What goes before what

A configuration is made of layers: what is given directly, the environment, the files of a project,
its own one first, and the file of the user. Each leaf has the value of the first layer that sets
it. Making the configuration fails at the first thing that is wrong, and nothing is wrong with a
layer alone but that it cannot be read: only what they come to together has to be valid.

* `sources_eq`, `complete_cases`: the files, and what is laid over them
* `build_precedence`: which values a configuration has, and when there is none
-/

namespace Locator.Config

open Files (FileSystem)

namespace Request

variable {request : Request} {files : FileSystem} {environment : Environment} {home : String}

/-! ## Layers and faults -/

/-- Where the search for the files of a project starts. -/
def start (request : Request) (files : FileSystem) : String :=
  request.workingDirectory.getD (FileSystem.locationOf files.workingDirectory)

/-- The configuration files that apply and are there, with the directory of the user at hand. -/
def applicable (request : Request) (files : FileSystem) (home : String) : List Candidate :=
  if request.skipFiles then [] else present files (candidates files (request.start files) home)

/-- What is laid over the files, the upper one first. -/
def upperLayers (request : Request) (environment : Environment) : List Layer :=
  request.overrides.toList.map value? ++
    if request.skipEnvironment then [] else [environment.layer]

/-- Everything that has a say in the settings, what goes before others first. -/
def layers (request : Request) (files : FileSystem) (environment : Environment) (home : String) :
    List Layer :=
  request.upperLayers environment ++
    ((request.applicable files home).reverse.filterMap fun candidate =>
      (loadFile files candidate.1).toOption).map value?

/-- The value of the first layer that sets a leaf. -/
def merged (request : Request) (files : FileSystem) (environment : Environment) (home : String) :
    Layer := fun leaf =>
  (request.layers files environment home).findSome? (· leaf)

/-- What is wrong with the files. -/
def fileFaults (request : Request) (files : FileSystem) (home : String) : List Error :=
  (request.applicable files home).filterMap fun candidate => fault? (loadFile files candidate.1)

/-- What is wrong with the variables. -/
def variableFaults (request : Request) (environment : Environment) : List Error :=
  if request.skipEnvironment then [] else Leaf.all.filterMap environment.fault?

/-- Everything that is wrong: with files, with variables, and with what the layers come to. -/
def faults (request : Request) (files : FileSystem) (environment : Environment) (home : String) :
    List Error :=
  request.fileFaults files home ++ (request.variableFaults environment ++
    (fault? (ofLayer (request.merged files environment home)).validate).toList)

/-! ## Making a configuration -/

theorem sources_eq
    (hhome : request.skipFiles = false → homeOf environment request.userDirectory = .ok home) :
    request.sources files environment =
      (request.applicable files home).mapM (readSource files) := by
  rw [sources, applicable]
  cases hskip : request.skipFiles with
  | true => rfl
  | false => exact load_eq (hhome hskip) (request.start files)

/-- Reading the files: the first one that cannot be read ends it. -/
theorem sources_cases (files : FileSystem)
    (hhome : request.skipFiles = false → homeOf environment request.userDirectory = .ok home) :
    (∃ error, (request.fileFaults files home).head? = some error ∧
        request.sources files environment = .error error) ∨
      (request.fileFaults files home).head? = none ∧ ∃ sources,
        request.sources files environment = .ok sources ∧
        sources.map (·.config) = (request.applicable files home).filterMap fun candidate =>
          (loadFile files candidate.1).toOption := by
  -- reading a source adds its location to what the file gives, and changes neither errors nor
  -- leaves
  have hfault (candidate : Candidate) :
      fault? (readSource files candidate) = fault? (loadFile files candidate.1) := by
    rw [readSource]
    cases loadFile files candidate.1 <;> rfl
  have hconfig (candidate : Candidate) :
      (readSource files candidate).toOption.map (·.config) =
        (loadFile files candidate.1).toOption := by
    rw [readSource]
    cases loadFile files candidate.1 <;> rfl
  rw [sources_eq hhome, mapM_eq, fileFaults, List.head?_filterMap]
  simp only [hfault]
  cases (request.applicable files home).findSome? fun candidate =>
      fault? (loadFile files candidate.1) with
  | some error => exact .inl ⟨error, rfl, rfl⟩
  | none =>
    refine .inr ⟨rfl, _, rfl, ?_⟩
    rw [List.map_filterMap]
    simp only [hconfig]

/-- Lays the overrides, if there are any, over a configuration. -/
def overridden (request : Request) (config : Config) : Config :=
  (request.overrides.map (·.atop config)).getD config

theorem value?_overridden (request : Request) (config : Config) (leaf : Leaf) :
    (request.overridden config).value? leaf =
      ((request.overrides.toList.map value?).findSome? (· leaf)).or (config.value? leaf) := by
  rw [overridden]
  cases request.overrides with
  | none => rfl
  | some overrides =>
    rw [Option.map_some, Option.getD_some, value?_atop, Option.toList_some, List.map_singleton,
      List.findSome?_singleton]

/-- With the overrides on top, a configuration is made if it is valid. -/
def finish (request : Request) (config : Config) : Except Error Config :=
  (request.overridden config).validate.map fun _ => request.overridden config

/-- With the variables at hand, or without them, it comes down to whether the outcome is valid. -/
theorem complete_eq (request : Request) (environment : Environment) (config : Config) :
    request.complete environment config =
      if request.skipEnvironment then request.finish config
      else
        let overlay := environment.overlay config
        overlay.error.elim (request.finish overlay.config) .error := by
  have hvalid (final : Config) : (final.validate.map fun _ => final) =
      (do final.validate; return final : Except Error Config) := by
    cases final.validate <;> rfl
  simp only [complete, finish, overridden, hvalid]
  cases request.skipEnvironment with
  | true => cases request.overrides <;> rfl
  | false =>
    simp only [Bool.false_eq_true, if_false]
    cases (environment.overlay config).error with
    | some error => rfl
    | none => cases request.overrides <;> rfl

/-- What is laid over a configuration: either a variable cannot be read, or it comes down to whether
the outcome is valid. -/
theorem complete_cases (request : Request) (environment : Environment) (config : Config) :
    (∃ error, (request.variableFaults environment).head? = some error ∧
        request.complete environment config = .error error) ∨
      (request.variableFaults environment).head? = none ∧ ∃ final : Config,
        request.complete environment config = final.validate.map (fun _ => final) ∧
        ∀ leaf, final.value? leaf =
          ((request.upperLayers environment).findSome? (· leaf)).or (config.value? leaf) := by
  rw [complete_eq, variableFaults, upperLayers]
  cases request.skipEnvironment with
  | true =>
    refine .inr ⟨rfl, request.overridden config, rfl, fun leaf => ?_⟩
    rw [value?_overridden, if_pos rfl, List.append_nil]
  | false =>
    simp only [Bool.false_eq_true, if_false, List.head?_filterMap, Environment.overlay_error]
    cases hfault : Leaf.all.findSome? environment.fault? with
    | some error => exact .inl ⟨error, rfl, rfl⟩
    | none =>
      refine .inr ⟨rfl, request.overridden (environment.overlay config).config, rfl,
        fun leaf => ?_⟩
      rw [value?_overridden, Environment.value?_overlay hfault, List.findSome?_append,
        List.findSome?_singleton, Option.or_assoc]

/-- What is laid over a configuration goes before it. -/
theorem value?_of_complete {lower config : Config}
    (h : request.complete environment lower = .ok config) (leaf : Leaf) :
    config.value? leaf =
      ((request.upperLayers environment).findSome? (· leaf)).or (lower.value? leaf) := by
  obtain ⟨error, -, hresult⟩ | ⟨-, final, hresult, hvalue⟩ :=
    request.complete_cases environment lower
  · cases hresult.symm.trans h
  · rw [hresult] at h
    cases hvalid : final.validate with
    | error error =>
      rw [hvalid] at h
      cases h
    | ok _ =>
      rw [hvalid] at h
      obtain rfl : final = config := Except.ok.inj h
      exact hvalue leaf

/-- The files are read one after the other, and then the layers above them are laid over what they
come to. -/
theorem build_cases (files : FileSystem)
    (hhome : request.skipFiles = false → homeOf environment request.userDirectory = .ok home) :
    (∃ error, (request.build files environment).result = .error error ∧
        (request.faults files environment home).head? = some error) ∨
      (request.faults files environment home).head? = none ∧ ∃ config : Config,
        (request.build files environment).result = .ok config ∧
        config.value? = request.merged files environment home := by
  rw [faults, List.head?_append, List.head?_append]
  obtain ⟨error, hfault, hsources⟩ | ⟨hfault, sources, hsources, hconfigs⟩ :=
    sources_cases files hhome
  · exact .inl ⟨error, by rw [build, hsources], by rw [hfault]; rfl⟩
  · obtain ⟨error, hvariable, hresult⟩ | ⟨hvariable, final, hresult, hvalue⟩ :=
      request.complete_cases environment (merge (sources.map (·.config)))
    · refine .inl ⟨error, ?_, by rw [hfault, hvariable]; rfl⟩
      rw [build, hsources]
      exact hresult
    · -- leaf by leaf: variables and options first, then the files from the last to the first
      have hmerged : final.value? = request.merged files environment home := by
        funext leaf
        rw [hvalue, value?_merge, hconfigs, merged, layers, List.findSome?_append,
          List.findSome?_map, ← List.filterMap_reverse]
        rfl
      have hbuild : (request.build files environment).result =
          final.validate.map fun _ => final := by
        rw [build, hsources, ← hresult]
      rw [hfault, hvariable, ← hmerged, ← validate_eq, hbuild]
      cases final.validate with
      | error error => exact .inl ⟨error, rfl, rfl⟩
      | ok _ => exact .inr ⟨rfl, final, rfl, rfl⟩

end Request

/-- Making a configuration fails exactly when something is wrong, and it says what comes first: a
file that cannot be read, the user's before those of the project, then a variable that cannot be
read, then what the layers come to. When it succeeds, each leaf has the value of the first layer
that sets it, and the default where none does: the overrides, the environment, and the files, those
of the project before the user's. The files of a project are those of the first directory, going up,
that has any. A file at a location that the system does not take, one over 4095 bytes among them,
counts as not there. -/
theorem build_precedence {request : Request} {files : FileSystem} {environment : Environment}
    {home : String} (hstart : Files.isRooted (request.start files).toList = true)
    (hhome : request.skipFiles = false → homeOf environment request.userDirectory = .ok home) :
    let result := (request.build files environment).result
    (∃ directories, Files.GoingUp (request.start files).toList directories ∧
        nearest? files (request.start files) =
          (directories.map String.ofList).find? fun directory =>
            !(present files (projectCandidates directory)).isEmpty) ∧
      (∀ error, result = .error error ↔
        (request.faults files environment home).head? = some error) ∧
      ∀ config, result = .ok config → config.resolved = .ofLeaves fun leaf =>
        (request.merged files environment home leaf).getD leaf.fallback := by
  intro result
  refine ⟨⟨_, Files.goingUp_selfAndAbove hstart, rfl⟩, ?_⟩
  obtain ⟨error, hresult, hfault⟩ | ⟨hfault, config, hresult, hvalue⟩ :=
    Request.build_cases files hhome
  · -- the build fails with the first of the faults, or succeeds where there is none
    have herror : result = .error error := hresult
    rw [herror, hfault]
    constructor
    · intro other
      rw [Except.error.injEq, Option.some.injEq]
    · intro config hok
      cases hok
  · have hok : result = .ok config := hresult
    rw [hok, hfault]
    constructor
    · intro error
      exact iff_of_false (by intro h; cases h) (by intro h; cases h)
    · intro other heq
      obtain rfl := Except.ok.inj heq
      rw [resolved_eq, hvalue]

/-- A disk with the configuration of a user, that of a project, and one further up that cannot be
read. The file of the project alone is not valid. -/
def layeredFiles : FileSystem where
  entries := [
    (["u"], .directory),
    (["config.yaml", "u"], .file (Bytes.ofString "cache:\n  ttl_seconds: 5\n")),
    (["p"], .directory),
    (["respath.yaml", "p"], .file (Bytes.ofString "network:\n  read_timeout_ms: 0\n")),
    (["q", "p"], .directory),
    (["respath.yaml"], .directory)]
  workingDirectory := ["q", "p"]

def layeredEnvironment : Environment where
  values := [("RESPATH_READ_TIMEOUT_MS", Bytes.ofString "250")]

def layeredRequest : Request where
  userDirectory := some "/u"
  overrides := some { network := some { trustSelfSigned := some true } }

/-- Which files apply, and what is in them. -/
theorem applicable_layered :
    layeredRequest.applicable layeredFiles "/u" =
        [("/u/config.yaml", 1), ("/p/respath.yaml", 2)] ∧
      loadFile layeredFiles "/u/config.yaml" = .ok { cache := some { ttlSeconds := some 5 } } ∧
      loadFile layeredFiles "/p/respath.yaml" =
        .ok { network := some { readTimeoutMillis := some 0 } } := by
  simp only [Request.applicable, candidates, nearest?, present, loadFile, FileSystem.readText,
    FileSystem.openFile, FileSystem.exists?, FileSystem.find, FileSystem.walk,
    FileSystem.checkLocation_eq]
  decide +kernel

/-- The user, the environment and the overrides set one leaf each; what the project sets is not
valid and does not count. -/
theorem build_precedence_over_invalid_file :
    Files.isRooted (layeredRequest.start layeredFiles).toList = true ∧
      (layeredRequest.skipFiles = false →
        homeOf layeredEnvironment layeredRequest.userDirectory = .ok "/u") ∧
      ∃ config, (layeredRequest.build layeredFiles layeredEnvironment).result = .ok config ∧
        config.resolved = {
          cacheTtl := .ofSeconds 5
          readTimeout := .ofMillis 250
          trustSelfSigned := true
          legacyExtension := "opi"
          currentExtension := "bob" } := by
  have hstart : Files.isRooted (layeredRequest.start layeredFiles).toList = true := by
    decide +kernel
  have hhome : layeredRequest.skipFiles = false →
      homeOf layeredEnvironment layeredRequest.userDirectory = .ok "/u" := fun _ => rfl
  obtain ⟨-, hfault, hvalue⟩ := build_precedence hstart hhome
  obtain ⟨happlicable, huser, hproject⟩ := applicable_layered
  have hlayers : layeredRequest.layers layeredFiles layeredEnvironment "/u" =
      layeredRequest.upperLayers layeredEnvironment ++
        [{ network := some { readTimeoutMillis := some 0 } },
          { cache := some { ttlSeconds := some 5 } }].map value? := by
    rw [Request.layers, happlicable]
    simp only [List.reverse_cons, List.reverse_nil, List.nil_append, List.cons_append,
      List.filterMap_cons, List.filterMap_nil, huser, hproject, Except.toOption]
  have hnone : (layeredRequest.faults layeredFiles layeredEnvironment "/u").head? = none := by
    have hmerged : layeredRequest.merged layeredFiles layeredEnvironment "/u" = fun leaf =>
        (layeredRequest.layers layeredFiles layeredEnvironment "/u").findSome? (· leaf) := rfl
    rw [Request.faults, Request.fileFaults, happlicable, hmerged, hlayers]
    simp only [List.filterMap_cons, List.filterMap_nil, huser, hproject, fault?]
    decide +kernel
  refine ⟨hstart, hhome, ?_⟩
  cases hresult : (layeredRequest.build layeredFiles layeredEnvironment).result with
  | error error =>
    rw [(hfault error).1 hresult] at hnone
    cases hnone
  | ok config =>
    refine ⟨config, rfl, (hvalue config hresult).trans ?_⟩
    simp only [Request.merged, hlayers]
    decide +kernel

end Locator.Config
