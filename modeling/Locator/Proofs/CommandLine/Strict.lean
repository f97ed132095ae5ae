import Locator.Proofs.CommandLine.Sessions

/-!
# Strict answers

A strict answer is made by looking up the name that was found once more. It agrees with the answer
that is not strict: it is the same where a candidate was found, and there is none where the name was
only given back.

* `resolve_plain_run`, `resolve_strict_run`: the two kinds of answers
* `resolve_strict_agrees`: when there is a strict answer, and which
-/

namespace Locator.CommandLine

open Files (FileSystem)
open Resolver (Action Session Follows candidates stripFilePrefix)

variable {name : String} {parent : Option String} {settings : Settings} {session : Session}

theorem resolve_plain_run (name : String) (parent : Option String) (settings : Settings)
    (session : Session) :
    ((resolve name parent false settings).run session).1 =
      .line ((Action.resolve settings parent name).run session).1 :=
  rfl

/-- The name that was found is looked up in the session that was left behind. -/
theorem resolve_strict_run (name : String) (parent : Option String) (settings : Settings)
    (session : Session) :
    ((resolve name parent true settings).run session).1 =
      let first := (Action.resolve settings parent name).run session
      if ((Action.find parent first.1).run first.2).1.isSome then .line first.1
      else .failed (.negative ("Cannot resolve " ++ name)) := by
  rw [resolve, Action.run_bind]
  generalize (Action.resolve settings parent name).run session = first
  simp only [if_true, Action.run_bind]
  show ((if ((Action.find parent first.1).run first.2).1.isNone = true then
      pure (.failed (.negative ("Cannot resolve " ++ name)))
    else pure (.line first.1) : Action Report).run _).1 = _
  cases ((Action.find parent first.1).run first.2).1 <;> rfl

/-- A strict answer is given exactly if the name leads to a candidate that can be reached, and then
it is the answer that is not strict; otherwise nothing is written and the answer is no. Whenever
what was found is looked up later, it is found again, and what was not found is not. -/
theorem resolve_strict_agrees {globals : Globals} {surroundings : Surroundings} {config : Config}
    (hname : name ≠ "") (hconfig : (globals.configuration surroundings).result = .ok config)
    (hthere : ∀ location, .file location ∈ candidates config.resolved parent name →
      surroundings.files.exists? location = true →
      surroundings.files.exists? (surroundings.files.absolute location) = true) :
    let start := surroundings.session config.resolved
    let found? := (candidates config.resolved parent name).find? start.reaches
    let answer (strict : Bool) : Report :=
      (Invocation.run { globals, command := .resolve name parent strict } surroundings).report
    ((answer false).exitCode = 0 ∧ (answer false).output =
        Bytes.ofString ((found?.map start.place).getD (stripFilePrefix name) ++ "\n")) ∧
      ((answer true).exitCode = 0 ↔ found?.isSome = true) ∧
      ((answer true).exitCode = 0 → (answer true).output = (answer false).output) ∧
      ((answer true).exitCode ≠ 0 → (answer true).output = [] ∧ (answer true).exitCode = 1) ∧
      ∀ later, Follows start later →
        ((Action.find parent
          ((Action.resolve config.resolved parent name).run start).1).run later).1.isSome =
            found?.isSome := by
  intro start found? answer
  have hempty : name.isEmpty = false := by
    rw [← Bool.not_eq_true, String.isEmpty_iff]
    exact hname
  -- both modes run in the same session, and the strict one looks for the resolved name again
  have hrun (strict : Bool) : answer strict =
      ((resolve name parent strict config.resolved).run start).1 := by
    show (Invocation.run _ surroundings).report = _
    simp only [Invocation.run, hempty, Bool.false_eq_true, if_false]
    exact (withResources_of_ok hconfig _).1
  have current : start.Current := session_current surroundings config.resolved
  obtain ⟨hresolved, hafter⟩ := Action.resolve_current current config.resolved parent name
  -- what is found then is what was found at first, as an absolute location still leads there
  have hfind := fun (later : Session) (hlater : Follows start later) =>
    Action.find_resolved current hlater config.resolved parent name hthere
  have hplain : answer false =
      .line ((Action.resolve config.resolved parent name).run start).1 := hrun false
  have hstrict : answer true =
      if found?.isSome then .line ((Action.resolve config.resolved parent name).run start).1
      else .failed (.negative ("Cannot resolve " ++ name)) := by
    rw [hrun true, resolve_strict_run]
    simp only [hfind _ hafter]
    rfl
  refine ⟨⟨?_, ?_⟩, ?_, ?_, ?_, hfind⟩
  · rw [hplain]
    rfl
  · rw [hplain, hresolved]
    rfl
  all_goals
    rw [hstrict]
    cases found?.isSome with
    | true => simp [hplain, Report.line, Report.exitCode]
    | false => simp [Report.failed, Report.exitCode, Failure.exitCode]

/-- A display with the current extension is found for one with the legacy extension and a prefix,
and found again under its absolute location. -/
theorem resolve_strict_agrees_on_upgrade :
    "file:pump.opi" ≠ "" ∧
      (({} : Globals).configuration displaySurroundings).result = .ok {} ∧
      (∀ location, .file location ∈
          candidates (Config.resolved {}) (some "sub/main.bob") "file:pump.opi" →
        displaySurroundings.files.exists? location = true →
        displaySurroundings.files.exists? (displaySurroundings.files.absolute location) = true) ∧
      let report := (Invocation.run
        { globals := {}, command := .resolve "file:pump.opi" (some "sub/main.bob") true }
        displaySurroundings).report
      report.exitCode = 0 ∧ report.output = Bytes.ofString "/displays/pump.bob\n" := by
  have hcandidates : candidates (Config.resolved {}) (some "sub/main.bob") "file:pump.opi" =
      [.file "pump.bob", .file "sub/pump.bob", .file "pump.opi", .file "sub/pump.opi"] := by
    decide +kernel
  obtain ⟨-, habsolute, -⟩ := names_display
  obtain ⟨hfind, -, -, hmissing⟩ := find_display
  have hexists : ∀ location ∈ ["pump.bob", "/displays/pump.bob"],
      displaySurroundings.files.exists? location = true := fun location hlocation =>
    FileSystem.exists?_eq_true_iff.2 ⟨_, _, hfind location hlocation⟩
  have hthere : ∀ location, .file location ∈
      candidates (Config.resolved {}) (some "sub/main.bob") "file:pump.opi" →
        displaySurroundings.files.exists? location = true →
        displaySurroundings.files.exists? (displaySurroundings.files.absolute location) = true := by
    intro location hmem hthere
    rw [hcandidates] at hmem
    simp only [List.mem_cons, Resolver.Candidate.file.injEq, List.not_mem_nil, or_false] at hmem
    obtain rfl | hother := hmem
    · rw [habsolute]
      exact hexists "/displays/pump.bob" (by decide)
    · have hnot : location ∈ ["pump.opi", "sub/pump.opi", "sub/pump.bob", "valve.bob"] := by
        obtain rfl | rfl | rfl := hother <;> decide
      rw [FileSystem.exists?, hmissing location hnot] at hthere
      cases hthere
  obtain ⟨⟨-, hplain⟩, hcode, houtput, -⟩ :=
    resolve_strict_agrees (by decide) configuration_display hthere
  have hfound : (candidates (Config.resolved {}) (some "sub/main.bob") "file:pump.opi").find?
      (displaySurroundings.session (Config.resolved {})).reaches = some (.file "pump.bob") := by
    rw [hcandidates]
    exact List.find?_cons_of_pos (hexists "pump.bob" (by decide))
  rw [hfound] at hplain hcode
  refine ⟨by decide, configuration_display, hthere, hcode.2 rfl, ?_⟩
  rw [houtput (hcode.2 rfl), hplain]
  exact congrArg (fun found => Bytes.ofString (found ++ "\n")) habsolute

end Locator.CommandLine
