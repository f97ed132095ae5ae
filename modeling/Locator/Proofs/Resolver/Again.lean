import Locator.Proofs.Resolver.Resolution

/-!
# Finding again what was found

As long as the web stays what it is, a cache that was filled from it cannot be told from it. Then
what a name leads to depends on neither the cache nor the time, and looking up what was found finds
something again: a page under its URL, a file under its absolute location. Where nothing was found,
there is nothing to be found the second time, because all candidates were among those of the first
time.

* `Session.Current`, `Reads.current`: the cache has what the web has, and it stays so
* `Leads.found?_eq`: the first candidate that can be reached is found
* `find_current`, `resolve_current`: where names and references lead
* `find_resolved`: looking up what a reference resolved to
-/

namespace Locator.Resolver

namespace Session

/-- What is in the cache is what the web has. -/
structure Current (session : Session) : Prop where
  rest : session.cache.AtRest
  page_eq : ∀ url entry, session.cache.entryOf? url = some entry →
    session.web.page url = .ok entry.value

/-- A candidate can be reached: the web has the page, or there is something at the location. -/
def reaches (session : Session) : Candidate → Bool
  | .page url => (session.web.page url).toOption.isSome
  | .file location => session.files.exists? location

variable {session later : Session} {candidate : Candidate} {cands tried : List Candidate}
  {found? : Option Candidate} {url : String} {now : Nat}

theorem reaches_congr (hfiles : later.files = session.files)
    (hweb : ∀ url, later.web.page url = session.web.page url) :
    later.reaches = session.reaches := by
  funext candidate
  cases candidate with
  | page url => rw [reaches, reaches, hweb]
  | file location => rw [reaches, reaches, hfiles]

/-- A cache without entries has nothing that the web does not have. -/
theorem Current.of_empty (rest : session.cache.AtRest)
    (hempty : ∀ url, session.cache.entryOf? url = none) : session.Current where
  rest := rest
  page_eq url entry hentry := by
    rw [hempty] at hentry
    cases hentry

theorem Current.pageAt_eq (h : session.Current) (now : Nat) (url : String) :
    session.pageAt now url = session.web.page url := by
  cases hget : session.cache.get? url now with
  | none => exact pageAt_of_stale hget
  | some content =>
    obtain ⟨entry, hentry, -, hvalue⟩ := Cache.exists_entryOf?_of_get? hget
    rw [pageAt_of_fresh hget, h.page_eq url entry hentry, hvalue]

/-- Whether a candidate opens has nothing to do with the moment. -/
theorem Current.opens_eq (h : session.Current) (now : Nat) (candidate : Candidate) :
    session.opens now candidate = session.reaches candidate := by
  cases candidate with
  | file location => rfl
  | page url => rw [opens, reaches, h.pageAt_eq]

/-- The first candidate that can be reached is found. -/
theorem Leads.found?_eq (h : session.Leads cands tried found?) (current : session.Current) :
    found? = cands.find? session.reaches := by
  have htried : tried.find? session.reaches = none := by
    rw [List.find?_eq_none]
    intro candidate hmem
    obtain ⟨front, back, heq⟩ := List.append_of_mem hmem
    rw [← current.opens_eq (session.momentAfter front), h.failed front candidate back heq]
    exact Bool.false_ne_true
  cases hfound : found? with
  | none => rw [← h.all_tried hfound, htried]
  | some found =>
    have hreaches : session.reaches found = true := by
      rw [← current.opens_eq (session.momentAfter tried)]
      exact h.opened found hfound
    obtain ⟨back, hcands⟩ := h.front
    rw [← hcands, hfound, List.find?_append, List.find?_append, htried, Option.none_or,
      Option.toList_some, List.find?_cons_of_pos hreaches, Option.some_or]

end Session

/-- Reading pages puts nothing in the cache that the web does not have. -/
theorem Reads.current {before after : Session} {urls : List String} (h : Reads before urls after)
    (current : before.Current) : after.Current where
  rest := h.rest
  page_eq url entry hentry := by
    rw [h.page_eq]
    obtain ⟨-, hbefore⟩ | hlast := h.entryOf?_cases hentry
    · exact current.page_eq url entry hbefore
    · obtain ⟨hmem, -⟩ := Read.mem_of_last? hlast
      exact (Web.outcome_of_mem_reads hmem).symm

/-- What a session without a past comes to when it is used: the files and the web are the same, and
the cache has what the web has. -/
structure Follows (before after : Session) : Prop where
  current : after.Current
  files_eq : after.files = before.files
  page_eq : ∀ url, after.web.page url = before.web.page url

namespace Action

variable {session later : Session}

theorem find_current (current : session.Current) (parent : Option String) (name : String) :
    ((find parent name).run session).1 =
        ((candidatesFor parent name).find? session.reaches).map session.place ∧
      Follows session ((find parent name).run session).2 := by
  obtain ⟨tried, found?, hleads, hresult, hreads, hfiles⟩ := find_leads current.rest parent name
  rw [← hleads.found?_eq current]
  exact ⟨hresult, hreads.current current, hfiles, hreads.page_eq⟩

theorem resolve_current (current : session.Current) (settings : Settings)
    (parent : Option String) (name : String) :
    ((resolve settings parent name).run session).1 =
        (((candidates settings parent name).find? session.reaches).map session.place).getD
          (stripFilePrefix name) ∧
      Follows session ((resolve settings parent name).run session).2 := by
  obtain ⟨tried, found?, hleads, hresult, hreads, hfiles⟩ :=
    resolve_leads current.rest settings parent name
  rw [← hleads.found?_eq current]
  exact ⟨hresult, hreads.current current, hfiles, hreads.page_eq⟩

/-- The candidates for a name alone are among those for the reference. -/
theorem candidatesFor_subset (settings : Settings) (parent : Option String) (name : String) :
    candidatesFor parent (stripFilePrefix name) ⊆ candidates settings parent name := by
  intro candidate hmem
  refine List.mem_flatMap.2 ⟨stripFilePrefix name, ?_, hmem⟩
  exact List.mem_append_right _ (List.mem_singleton_self _)

theorem file_mem_candidatesFor (parent : Option String) (name : String) :
    .file name ∈ candidatesFor parent name :=
  List.mem_append_right _ (List.mem_map_of_mem List.mem_cons_self)

theorem page_mem_candidatesFor {name : String} (h : Path.isUrl name = true)
    (parent : Option String) : .page name ∈ candidatesFor parent name := by
  refine List.mem_append_left _ (List.mem_map_of_mem (List.mem_filter.2 ⟨?_, h⟩))
  exact List.mem_cons_self

/-- Looking up what a reference resolved to finds something exactly if the reference led somewhere,
at whatever time it is done and whatever has been read until then. -/
theorem find_resolved (current : session.Current) (later_follows : Follows session later)
    (settings : Settings) (parent : Option String) (name : String)
    (hthere : ∀ location, .file location ∈ candidates settings parent name →
      session.files.exists? location = true →
      session.files.exists? (session.files.absolute location) = true) :
    ((find parent ((resolve settings parent name).run session).1).run later).1.isSome =
      ((candidates settings parent name).find? session.reaches).isSome := by
  obtain ⟨hresolved, -⟩ := resolve_current current settings parent name
  obtain ⟨hfound, -⟩ := find_current later_follows.current parent
    ((resolve settings parent name).run session).1
  rw [hfound, Option.isSome_map,
    Session.reaches_congr later_follows.files_eq later_follows.page_eq, hresolved]
  cases hfirst : (candidates settings parent name).find? session.reaches with
  | none =>
    -- the second time there is nothing that has not been tried the first time
    have hall := List.find?_eq_none.1 hfirst
    rw [Option.isSome_none, Option.isSome_eq_false_iff, Option.isNone_iff_eq_none,
      List.find?_eq_none]
    exact fun candidate hmem => hall candidate (candidatesFor_subset settings parent name hmem)
  | some found =>
    rw [Option.isSome_some, List.find?_isSome]
    have hreaches := List.find?_some hfirst
    have hmem := List.mem_of_find?_eq_some hfirst
    cases found with
    | page url =>
      exact ⟨.page url, page_mem_candidatesFor (isUrl_of_mem_candidates hmem) parent, hreaches⟩
    | file location =>
      exact ⟨_, file_mem_candidatesFor parent (session.files.absolute location),
        hthere location hmem hreaches⟩

end Action

end Locator.Resolver
