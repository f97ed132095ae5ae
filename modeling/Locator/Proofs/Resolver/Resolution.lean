import Locator.Proofs.Resolver.Candidates

/-!
# Resolving tries the candidates in turn

Finding a name and resolving a reference come down to one loop over the candidates
(`Action.firstOf`), which stops at the first one that opens.

* `find_run`, `resolve_run`: both actions are that loop
* `firstOf_leads`: the candidate that is found, and what has been read on the way
* `find_leads`, `resolve_leads`: the same for names and references
* `resolve_first_reachable`: what a reference resolves to, what is read for it, and what the cache
  holds afterwards
-/

namespace Locator.Resolver

open Cache (Leaves)
open Candidate (pages)

/-! ## Trying candidates -/

namespace Action

/-- Tries to open a candidate. -/
def tryCandidate : Candidate → Action Bool
  | .page url => canOpenUrl url
  | .file location => return (← get).files.exists? location

/-- Tries candidates in turn; gives the first one that opens. -/
def firstOf : List Candidate → Action (Option Candidate)
  | [] => return none
  | candidate :: rest => do
    if ← tryCandidate candidate then return some candidate
    else firstOf rest

variable {session : Session} {candidate : Candidate} {cands more : List Candidate}

theorem firstOf_cons (candidate : Candidate) (rest : List Candidate) (session : Session) :
    (firstOf (candidate :: rest)).run session =
      match (tryCandidate candidate).run session with
      | (true, after) => (some candidate, after)
      | (false, after) => (firstOf rest).run after := by
  simp only [firstOf, StateT.run_bind]
  generalize (tryCandidate candidate).run session = tried
  obtain ⟨opened, after⟩ := tried
  cases opened <;> rfl

/-- Candidates behind others have their turn when none of the others opened. -/
theorem firstOf_append (cands more : List Candidate) (session : Session) :
    (firstOf (cands ++ more)).run session =
      match (firstOf cands).run session with
      | (some found, after) => (some found, after)
      | (none, after) => (firstOf more).run after := by
  induction cands generalizing session with
  | nil => rfl
  | cons candidate rest ih =>
    rw [List.cons_append, firstOf_cons, firstOf_cons]
    generalize (tryCandidate candidate).run session = tried
    obtain ⟨opened, after⟩ := tried
    cases opened with
    | true => rfl
    | false => exact ih after

/-- Trying files changes nothing. -/
theorem firstOf_files (names : List String) (session : Session) :
    (firstOf (names.map .file)).run session =
      ((names.find? session.files.exists?).map .file, session) := by
  induction names with
  | nil => rfl
  | cons name rest ih =>
    have hfile : (tryCandidate (.file name)).run session = (session.files.exists? name, session) :=
      rfl
    rw [List.map_cons, firstOf_cons, hfile, List.find?_cons]
    cases session.files.exists? name with
    | true => rfl
    | false => exact ih

/-- A candidate that is tried opens or not as the session says, and its page is read if need be. -/
theorem tryCandidate_spec (rest : session.cache.AtRest)
    (hurl : ∀ url, candidate = .page url → Path.isUrl url = true) :
    ((tryCandidate candidate).run session).1 = session.opens session.now candidate ∧
      Reads session (session.reading session.now candidate)
        ((tryCandidate candidate).run session).2 ∧
      ((tryCandidate candidate).run session).2.files = session.files := by
  cases candidate with
  | file location => exact ⟨rfl, Reads.refl rest, rfl⟩
  | page url =>
    have hresult := openUrl_result rest url
    have hreads := openUrl_reads rest url
    have hfiles := openUrl_files url session
    have hrun := canOpenUrl_run url session
    rw [if_pos (hurl url rfl)] at hrun
    rw [tryCandidate, Session.opens, Session.reading, hrun, ← hresult]
    generalize (openUrl url).run session = opened at hreads hfiles
    obtain ⟨result, after⟩ := opened
    cases result with
    | ok content => exact ⟨rfl, hreads, hfiles⟩
    | error error =>
      -- the failure is reported on top
      exact ⟨rfl, hreads.congr rfl rfl rfl rfl, hfiles⟩

theorem firstOf_leads (rest : session.cache.AtRest)
    (hurl : ∀ url, .page url ∈ cands → Path.isUrl url = true) :
    ∃ tried, session.Leads cands tried ((firstOf cands).run session).1 ∧
      Reads session (session.readings tried ((firstOf cands).run session).1)
        ((firstOf cands).run session).2 ∧
      ((firstOf cands).run session).2.files = session.files := by
  -- each step of the loop starts from the session that the candidate before it left
  induction cands generalizing session with
  | nil => exact ⟨[], Session.Leads.nil, Reads.refl rest, rfl⟩
  | cons candidate others ih =>
    have hhead : ∀ url, candidate = .page url → Path.isUrl url = true :=
      fun url heq => hurl url (heq ▸ List.mem_cons_self)
    obtain ⟨hresult, hreads, hfiles⟩ := tryCandidate_spec rest hhead
    rw [firstOf_cons]
    generalize (tryCandidate candidate).run session = attempt at hresult hreads hfiles
    obtain ⟨opened, after⟩ := attempt
    cases opened with
    | true =>
      refine ⟨[], Session.Leads.head hresult.symm others, ?_, hfiles⟩
      have hreadings : session.readings [] (some candidate) =
          session.reading session.now candidate := by
        rw [Session.readings, Session.momentAfter_nil]
        simp [pages]
      rw [hreadings]
      exact hreads
    | false =>
      obtain ⟨hreading, hfailed⟩ := Session.reading_of_not_opens hresult.symm
      rw [hreading] at hreads
      obtain ⟨tried, hleads, htail, htailfiles⟩ :=
        ih hreads.rest fun url hmem => hurl url (List.mem_cons_of_mem candidate hmem)
      -- from the session before, the others open and are read as they do from the one behind
      have hopens : ∀ front other, after.opens (after.momentAfter front) other =
          session.opens (session.momentAfter (candidate :: front)) other := by
        intro front other
        rw [hreads.momentAfter_eq,
          hreads.opens_eq hfiles hfailed (hreads.now_le_momentAfter front)]
      refine ⟨candidate :: tried, Session.Leads.cons hresult.symm hopens hleads, ?_,
        htailfiles.trans hfiles⟩
      rw [← hreads.readings_eq hfailed]
      exact hreads.trans htail

/-! ## Resolving is trying candidates -/

/-- Probing something that is no URL does nothing. -/
theorem canOpenUrl_of_not_url {candidate : String} (h : Path.isUrl candidate = false)
    (session : Session) : (canOpenUrl candidate).run session = (false, session) := by
  rw [canOpenUrl_run, h, if_neg Bool.false_ne_true]

/-- The page of a name, where the name is a URL. -/
theorem firstOf_page (name : String) (session : Session) :
    (firstOf ((([name].filter Path.isUrl).map .page))).run session =
      match (canOpenUrl name).run session with
      | (true, after) => (some (.page name), after)
      | (false, after) => (none, after) := by
  cases hurl : Path.isUrl name with
  | false =>
    rw [List.filter_cons_of_neg (by rw [hurl]; exact Bool.false_ne_true),
      canOpenUrl_of_not_url hurl]
    rfl
  | true =>
    rw [List.filter_cons_of_pos hurl]
    exact firstOf_cons (.page name) [] session

theorem existing?_or (session : Session) (name other : String) :
    (existing? session.files name).or (existing? session.files other) =
      (([name, other].find? session.files.exists?).map Candidate.file).map session.place := by
  rw [existing?, existing?, List.find?_cons, List.find?_cons]
  cases session.files.exists? name <;> cases session.files.exists? other <;> rfl

/-- A name leads to the first of its candidates that opens. -/
theorem find_run (parent : Option String) (name : String) (session : Session) :
    (find parent name).run session =
      let (found?, after) := (firstOf (candidatesFor parent name)).run session
      (found?.map after.place, after) := by
  have hcandidates : candidatesFor parent name =
      ([name].filter Path.isUrl).map .page ++
        (([Path.combine parent name].filter Path.isUrl).map .page ++
          [name, Path.combine parent name].map .file) := by
    rw [← List.append_assoc, ← List.map_append, ← List.filter_append]
    rfl
  -- the name as a URL, then the combined one, then both as files
  rw [hcandidates, firstOf_append, firstOf_page, find, run_bind]
  generalize (canOpenUrl name).run session = probe
  obtain ⟨opened, middle⟩ := probe
  cases opened with
  | true => rfl
  | false =>
    simp only [Bool.false_eq_true, if_false]
    rw [firstOf_append, firstOf_page, run_bind]
    generalize (canOpenUrl (Path.combine parent name)).run middle = probe
    obtain ⟨opened, after⟩ := probe
    cases opened with
    | true => rfl
    | false =>
      simp only [Bool.false_eq_true, if_false, firstOf_files]
      rw [run_bind]
      exact Prod.ext (existing?_or after name (Path.combine parent name)) rfl

/-- What was found for a name is given back, or something else if nothing was, and it is reported
which of them it is. -/
theorem find_report_run {parent : Option String} {name other : String}
    {next : Option String → Action String}
    (hnext : ∀ (found? : Option String) (middle : Session), ∃ record,
      (next found?).run middle =
        (found?.getD other, { middle with records := middle.records ++ [record] }))
    (session : Session) :
    ∃ record, (find parent name >>= next).run session =
      let (found?, after) := (firstOf (candidatesFor parent name)).run session
      ((found?.map after.place).getD other,
        { after with records := after.records ++ [record] }) := by
  rw [run_bind, find_run]
  generalize (firstOf (candidatesFor parent name)).run session = attempt
  obtain ⟨found?, after⟩ := attempt
  exact hnext (found?.map after.place) after

/-- A reference leads to the first of its candidates that opens; what was found, or that nothing
was, is reported in the end. -/
theorem resolve_run (settings : Settings) (parent : Option String) (name : String)
    (session : Session) :
    ∃ record, (resolve settings parent name).run session =
      let (found?, after) := (firstOf (candidates settings parent name)).run session
      ((found?.map after.place).getD (stripFilePrefix name),
        { after with records := after.records ++ [record] }) := by
  rw [resolve, run_bind, findUpgraded, candidates]
  cases upgrade? settings (stripFilePrefix name) with
  | none =>
    rw [Option.toList_none, List.nil_append, List.flatMap_singleton]
    refine find_report_run (fun found? middle => ?_) session
    cases found? <;> exact ⟨_, rfl⟩
  -- the loop goes over the candidates of the upgraded name first
  | some upgraded =>
    simp only [Option.toList_some, List.singleton_append, List.flatMap_cons, List.flatMap_nil,
      List.append_nil, firstOf_append, find_run]
    generalize (firstOf (candidatesFor parent upgraded)).run session = attempt
    obtain ⟨found?, middle⟩ := attempt
    cases found? with
    | some found => exact ⟨_, rfl⟩
    | none =>
      refine find_report_run (fun found? after => ?_) middle
      cases found? <;> exact ⟨_, rfl⟩

/-! ## Where names and references lead -/

theorem find_leads (rest : session.cache.AtRest) (parent : Option String) (name : String) :
    ∃ tried found?, session.Leads (candidatesFor parent name) tried found? ∧
      ((find parent name).run session).1 = found?.map session.place ∧
      Reads session (session.readings tried found?) ((find parent name).run session).2 ∧
      ((find parent name).run session).2.files = session.files := by
  obtain ⟨tried, hleads, hreads, hfiles⟩ :=
    firstOf_leads rest fun url hurl => isUrl_of_mem_candidatesFor hurl
  rw [find_run]
  generalize (firstOf (candidatesFor parent name)).run session = attempt at hleads hreads hfiles
  obtain ⟨found?, after⟩ := attempt
  exact ⟨tried, found?, hleads, Option.map_congr fun found _ => Session.place_eq hfiles found,
    hreads, hfiles⟩

theorem resolve_leads (rest : session.cache.AtRest) (settings : Settings)
    (parent : Option String) (name : String) :
    ∃ tried found?, session.Leads (candidates settings parent name) tried found? ∧
      ((resolve settings parent name).run session).1 =
        (found?.map session.place).getD (stripFilePrefix name) ∧
      Reads session (session.readings tried found?)
        ((resolve settings parent name).run session).2 ∧
      ((resolve settings parent name).run session).2.files = session.files := by
  obtain ⟨tried, hleads, hreads, hfiles⟩ :=
    firstOf_leads rest fun url hurl => isUrl_of_mem_candidates hurl
  obtain ⟨record, hrun⟩ := resolve_run settings parent name session
  rw [hrun]
  generalize (firstOf (candidates settings parent name)).run session = attempt
    at hleads hreads hfiles
  obtain ⟨found?, after⟩ := attempt
  refine ⟨tried, found?, hleads, ?_, hreads.congr rfl rfl rfl rfl, hfiles⟩
  exact congrArg (·.getD (stripFilePrefix name))
    (Option.map_congr fun found _ => Session.place_eq hfiles found)

end Action

end Locator.Resolver
