import Locator.Proofs.Resolver.Pages
import Locator.Resolver.Resolve

/-!
# Candidates for a reference

What a reference may mean is a list of candidates (`candidates`), which are tried one after the
other. Which of them is found can be told from the session before the call: `Leads` looks at what
the cache, the web and the files had then, and at each candidate at the moment when its turn comes.

* `Leads.unique`: what is found follows from the session
* `Reads.opens_eq`, `Reads.readings_eq`: behind a candidate that was tried in vain, the others are
  what they were in front of it
* `Reads.stored`: a page that was found is fresh in the cache
-/

namespace Locator.Resolver

/-! ## Candidates -/

/-- Something that a reference may mean. -/
inductive Candidate where
  | page (url : String)
  | file (location : String)
  deriving DecidableEq, Repr

namespace Candidate

def url? : Candidate → Option String
  | page url => some url
  | file _ => none

/-- The URLs of the pages among candidates. -/
def pages (candidates : List Candidate) : List String :=
  candidates.filterMap url?

theorem pages_cons (candidate : Candidate) (rest : List Candidate) :
    pages (candidate :: rest) = pages [candidate] ++ pages rest := by
  rw [pages, pages, pages, ← List.filterMap_append, List.singleton_append]

end Candidate

open Candidate (pages)

/-- What a name may mean: the name, and the name in the directory of the parent, each as a page if
it is a URL; then both of them as files. -/
def candidatesFor (parent : Option String) (name : String) : List Candidate :=
  let names := [name, Path.combine parent name]
  (names.filter Path.isUrl).map .page ++ names.map .file

/-- What a reference may mean. The name with the current extension goes before the name itself. -/
def candidates (settings : Settings) (parent : Option String) (name : String) : List Candidate :=
  let name := stripFilePrefix name
  ((upgrade? settings name).toList ++ [name]).flatMap (candidatesFor parent)

theorem isUrl_of_mem_candidatesFor {parent : Option String} {name url : String}
    (h : .page url ∈ candidatesFor parent name) : Path.isUrl url = true := by
  rw [candidatesFor, List.mem_append] at h
  obtain h | h := h
  · obtain ⟨other, hother, heq⟩ := List.mem_map.1 h
    obtain rfl := Candidate.page.inj heq
    exact (List.mem_filter.1 hother).2
  · obtain ⟨other, -, heq⟩ := List.mem_map.1 h
    cases heq

theorem isUrl_of_mem_candidates {settings : Settings} {parent : Option String}
    {name url : String} (h : .page url ∈ candidates settings parent name) :
    Path.isUrl url = true := by
  obtain ⟨other, -, hother⟩ := List.mem_flatMap.1 h
  exact isUrl_of_mem_candidatesFor hother

namespace Session

/-- A candidate opens at a moment: the page can be had, or there is something at the location. -/
def opens (session : Session) (now : Nat) : Candidate → Bool
  | .page url => (session.pageAt now url).toOption.isSome
  | .file location => session.files.exists? location

/-- What has to be read from the web to try a candidate at a moment. -/
def reading (session : Session) (now : Nat) : Candidate → List String
  | .page url => session.missing now url
  | .file _ => []

/-- The moment at which the turn comes to a candidate, behind others that were tried in vain. -/
def momentAfter (session : Session) (tried : List Candidate) : Nat :=
  session.now + session.web.delays (pages tried)

/-- What a candidate is called when it is found: the URL of a page, the absolute form of a
location. -/
def place (session : Session) : Candidate → String
  | .page url => url
  | .file location => session.files.absolute location

/-- Trying candidates in turn leads to the first one that opens: the ones in front of it are tried
and do not open, each at its own moment. Without such a candidate all of them are tried. -/
structure Leads (session : Session) (candidates tried : List Candidate)
    (found? : Option Candidate) : Prop where
  front : tried ++ found?.toList <+: candidates
  all_tried : found? = none → tried = candidates
  failed : ∀ front candidate back, tried = front ++ candidate :: back →
    session.opens (session.momentAfter front) candidate = false
  opened : ∀ candidate, found? = some candidate →
    session.opens (session.momentAfter tried) candidate = true

/-- What is read from the web to try candidates, and the one that opens behind them. -/
def readings (session : Session) (tried : List Candidate) (found? : Option Candidate) :
    List String :=
  pages tried ++ found?.toList.flatMap (session.reading (session.momentAfter tried))

variable {session after : Session} {candidate found : Candidate} {now : Nat}
  {rest tried : List Candidate} {found? : Option Candidate} {url : String}

theorem place_eq (h : after.files = session.files) (candidate : Candidate) :
    after.place candidate = session.place candidate := by
  cases candidate with
  | page url => rfl
  | file location => rw [place, place, h]

theorem momentAfter_nil (session : Session) : session.momentAfter [] = session.now :=
  Nat.add_zero _

/-- The page of a candidate that does not open has been read, and it could not be had. -/
theorem reading_of_not_opens (h : session.opens now candidate = false) :
    session.reading now candidate = pages [candidate] ∧
      ∀ url ∈ pages [candidate], (session.web.page url).toOption = none := by
  cases candidate with
  | file location => exact ⟨rfl, by simp [pages, Candidate.url?]⟩
  | page url =>
    rw [opens] at h
    cases hpage : session.pageAt now url with
    | ok content =>
      rw [hpage] at h
      cases h
    | error error =>
      obtain ⟨hmissing, hweb⟩ := missing_of_pageAt_error hpage
      refine ⟨hmissing, fun other hother => ?_⟩
      obtain rfl : other = url := List.mem_singleton.1 hother
      rw [hweb]
      rfl

theorem Leads.nil : session.Leads [] [] none where
  front := List.nil_prefix
  all_tried _ := rfl
  failed front candidate back h := by
    simp at h
  opened candidate h := by
    cases h

/-- A candidate that opens is found at once. -/
theorem Leads.head (h : session.opens session.now candidate = true) (rest : List Candidate) :
    session.Leads (candidate :: rest) [] (some candidate) where
  front := ⟨rest, rfl⟩
  all_tried h := by
    cases h
  failed front other back h := by
    simp at h
  opened other heq := by
    obtain rfl := Option.some.inj heq
    rw [momentAfter_nil]
    exact h

/-- A candidate that does not open is tried in vain, and the session behind it leads on, if the
others open there as they do in their turn here. -/
theorem Leads.cons (hfailed : session.opens session.now candidate = false)
    (hopens : ∀ front other, after.opens (after.momentAfter front) other =
      session.opens (session.momentAfter (candidate :: front)) other)
    (h : after.Leads rest tried found?) :
    session.Leads (candidate :: rest) (candidate :: tried) found? where
  front := List.cons_prefix_cons.2 ⟨rfl, h.front⟩
  all_tried hnone := by rw [h.all_tried hnone]
  failed front other back heq := by
    cases front with
    | nil =>
      obtain ⟨rfl, -⟩ := List.cons.inj heq
      rw [momentAfter_nil]
      exact hfailed
    | cons first front =>
      obtain ⟨rfl, htried⟩ := List.cons.inj heq
      rw [← hopens]
      exact h.failed front other back htried
  opened other heq := by
    rw [← hopens]
    exact h.opened other heq

theorem Leads.mem (h : session.Leads rest tried (some found)) : found ∈ rest :=
  h.front.subset (List.mem_append_right tried (List.mem_singleton_self found))

/-- Two ways that lead somewhere are equally long: the longer one would have passed by what the
other one found. -/
theorem Leads.length_le {tried' : List Candidate} {found?' : Option Candidate}
    (h : session.Leads rest tried found?) (h' : session.Leads rest tried' found?') :
    tried'.length ≤ tried.length := by
  apply Nat.le_of_not_lt
  intro hlt
  have hfront' : tried' <+: rest := (List.prefix_append _ _).trans h'.front
  -- suppose the other way is longer: it has tried all there is, or what this one found
  cases hfound : found? with
  | none =>
    rw [h.all_tried hfound] at hlt
    exact Nat.not_lt_of_le hfront'.length_le hlt
  | some found =>
    have hfront : tried ++ [found] <+: rest := by
      have hwhole := h.front
      rwa [hfound] at hwhole
    obtain ⟨back, hback⟩ : tried ++ [found] <+: tried' := by
      refine List.prefix_of_prefix_length_le hfront hfront' ?_
      rw [List.length_append]
      exact hlt
    rw [List.append_assoc] at hback
    have hnot := h'.failed tried found back hback.symm
    rw [h.opened found hfound] at hnot
    cases hnot

/-- There is one way only: what is tried and what is found follow from the session. -/
theorem Leads.unique {tried' : List Candidate} {found?' : Option Candidate}
    (h : session.Leads rest tried found?) (h' : session.Leads rest tried' found?') :
    tried' = tried ∧ found?' = found? := by
  have hlen : tried'.length = tried.length := Nat.le_antisymm (h.length_le h') (h'.length_le h)
  obtain ⟨back, hback⟩ := h.front
  obtain ⟨back', hback'⟩ := h'.front
  rw [List.append_assoc] at hback hback'
  obtain ⟨htried, hrest⟩ := List.append_inj (hback'.trans hback.symm) hlen
  refine ⟨htried, ?_⟩
  cases hfound : found? with
  | some found =>
    cases hfound' : found?' with
    | some found' =>
      rw [hfound, hfound'] at hrest
      rw [(List.cons.inj hrest).1]
    | none =>
      -- then the other way would have tried everything, the one that was found included
      have hall := h'.all_tried hfound'
      have hmem := congrArg List.length hback
      rw [hfound, List.length_append, List.length_append, ← hall, hlen] at hmem
      simp at hmem
  | none =>
    cases hfound' : found?' with
    | none => rfl
    | some found' =>
      have hall := h.all_tried hfound
      have hmem := congrArg List.length hback'
      rw [hfound', List.length_append, List.length_append, ← hall, hlen] at hmem
      simp at hmem

end Session

namespace Reads

variable {before after : Session} {candidate : Candidate} {rest tried : List Candidate}
  {urls : List String} {url : String} {now : Nat}

/-- Where everything that was read could not be had, candidates open as they did before. -/
theorem opens_eq (h : Reads before urls after) (hfiles : after.files = before.files)
    (hfailed : ∀ url ∈ urls, (before.web.page url).toOption = none) (hnow : after.now ≤ now) :
    after.opens now candidate = before.opens now candidate := by
  cases candidate with
  | file location => rw [Session.opens, Session.opens, hfiles]
  | page url =>
    rw [Session.opens, Session.opens, Session.pageAt, Session.pageAt, h.get?_eq hfailed hnow,
      h.page_eq]

theorem reading_eq (h : Reads before urls after)
    (hfailed : ∀ url ∈ urls, (before.web.page url).toOption = none) (hnow : after.now ≤ now) :
    after.reading now candidate = before.reading now candidate := by
  cases candidate with
  | file location => rfl
  | page url =>
    rw [Session.reading, Session.reading, Session.missing, Session.missing,
      h.get?_eq hfailed hnow]

/-- The moments of the candidates behind one that was tried in vain. -/
theorem momentAfter_eq (h : Reads before (pages [candidate]) after) (tried : List Candidate) :
    after.momentAfter tried = before.momentAfter (candidate :: tried) := by
  rw [Session.momentAfter, Session.momentAfter, h.now_eq, Web.delays_congr h.delay_eq,
    Candidate.pages_cons candidate tried, Web.delays_append, Nat.add_assoc]

theorem now_le_momentAfter (h : Reads before (pages [candidate]) after) (tried : List Candidate) :
    after.now ≤ before.momentAfter (candidate :: tried) := by
  rw [← h.momentAfter_eq tried]
  exact Nat.le_add_right _ _

/-- What is read from a candidate on that was tried in vain. -/
theorem readings_eq (h : Reads before (pages [candidate]) after)
    (hfailed : ∀ url ∈ pages [candidate], (before.web.page url).toOption = none)
    (tried : List Candidate) (found? : Option Candidate) :
    pages [candidate] ++ after.readings tried found? =
      before.readings (candidate :: tried) found? := by
  have hfound : after.reading (after.momentAfter tried) =
      before.reading (before.momentAfter (candidate :: tried)) := by
    funext other
    rw [h.momentAfter_eq, h.reading_eq hfailed (h.now_le_momentAfter tried)]
  rw [Session.readings, Session.readings, Candidate.pages_cons candidate tried, hfound,
    List.append_assoc]

/-- A page that was found is fresh in the cache afterwards: the entry that was fresh when its turn
came, or the page as it has just been read. -/
theorem stored (h : Reads before (before.readings tried (some (.page url))) after)
    (hleads : before.Leads rest tried (some (.page url))) :
    ∃ entry, after.cache.entryOf? url = some entry ∧
      entry.isFresh before.cache.ttl after.now = true ∧
      match before.cache.get? url (before.momentAfter tried) with
      | some _ => before.cache.entryOf? url = some entry
      | none => before.web.page url = .ok entry.value ∧ entry.storedAt = after.now := by
  have hopened := hleads.opened _ rfl
  rw [Session.opens, Session.pageAt] at hopened
  have hnow := h.now_eq
  -- the page that opens is the last one, and it is read only where the cache has nothing fresh
  have hreadings : before.readings tried (some (.page url)) =
      pages tried ++ before.missing (before.momentAfter tried) url := by
    rw [Session.readings, Option.toList_some, List.flatMap_singleton]
    rfl
  rw [hreadings] at h hnow
  cases hget : before.cache.get? url (before.momentAfter tried) with
  | some content =>
    rw [Session.missing_of_fresh hget, List.append_nil] at h hnow
    obtain ⟨entry, hentry, hfresh, -⟩ := Cache.exists_entryOf?_of_get? hget
    have hmoment : before.momentAfter tried = after.now := hnow.symm
    rw [hmoment] at hfresh
    exact ⟨entry, h.entryOf?_of_fresh hentry hfresh, hfresh, hentry⟩
  | none =>
    rw [hget] at hopened
    rw [Session.missing_of_stale hget] at h
    cases hpage : before.web.page url with
    | error error =>
      rw [hpage] at hopened
      cases hopened
    | ok content =>
      have hentry := h.entryOf?_concat
      rw [hpage] at hentry
      exact ⟨⟨content, after.now⟩, hentry, Cache.isFresh_self content _ _, rfl, rfl⟩

end Reads

end Locator.Resolver
