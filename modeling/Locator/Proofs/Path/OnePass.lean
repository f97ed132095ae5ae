import Locator.Proofs.Path.Collapse
import Mathlib.Data.List.SplitBy
import Mathlib.Data.String.Basic
import Mathlib.Logic.Relation

/-!
# Normalizing in one pass

`normalize` reads backslashes one after the other and then deletes text, over and over again. The
same comes of reading each run of backslashes as a whole (`unifyRuns`) and of a single pass over the
parts with a stack (`onePass`).

* `unifySeparators_eq_unifyRuns`: what becomes of a run depends on its length alone
* `onePass_concat`: the pass keeps the directories that the walk leads to
* `Cancels.deletes`: what one deletion takes away
* `normalize_eq_onePass`: normalizing is the pass, and the deletions come to an end there
-/

namespace Locator.Path

open Text

variable {text rest run path shorter last : List Char} {kept dirs parts : List (List Char)}

/-! ## Runs of backslashes -/

/-- Two characters next to each other are in the same run: both are backslashes, or neither is. -/
def sameRun (c d : Char) : Bool := (c == '\\') == (d == '\\')

/-- What becomes of a run. Backslashes stay in pairs, and one that is left over becomes a
separator. -/
def unifyRun (run : List Char) : List Char :=
  if '\\' ∈ run then
    List.replicate (2 * (run.length / 2)) '\\' ++ (if run.length % 2 = 1 then ['/'] else [])
  else run

/-- The text with each of its maximal runs of backslashes replaced. -/
def unifyRuns (text : List Char) : List Char :=
  (text.splitBy sameRun).flatMap unifyRun

theorem unifySeparators_append_of_not_mem (h : '\\' ∉ run) (rest : List Char) :
    unifySeparators (run ++ rest) = run ++ unifySeparators rest := by
  induction run with
  | nil => rfl
  | cons c run ih =>
    rw [List.mem_cons, not_or] at h
    rw [List.cons_append, unifySeparators_cons (Ne.symm h.1), ih h.2, List.cons_append]

theorem unifySeparators_replicate (h : rest.head? ≠ some '\\') (k : Nat) :
    unifySeparators (List.replicate k '\\' ++ rest) =
      List.replicate (2 * (k / 2)) '\\' ++ (if k % 2 = 1 then ['/'] else []) ++
        unifySeparators rest := by
  -- two backslashes at a time
  induction k using Nat.twoStepInduction with
  | zero => rfl
  | one => exact unifySeparators_lone h
  | more k ih _ =>
    have hhalf : 2 * ((k + 2) / 2) = 2 * (k / 2) + 2 := by omega
    have hparity : (k + 2) % 2 = k % 2 := by omega
    rw [hhalf, hparity, List.replicate_succ, List.replicate_succ, List.cons_append,
      List.cons_append, unifySeparators_pair, ih, List.replicate_succ, List.replicate_succ]
    rfl

/-- A run has only backslashes in it, or none. -/
theorem not_mem_or_eq_replicate (h : run.IsChain fun c d => sameRun c d) :
    '\\' ∉ run ∨ run = List.replicate run.length '\\' := by
  induction run with
  | nil => exact Or.inl List.not_mem_nil
  | cons c run ih =>
    cases run with
    | nil =>
      by_cases hc : c = '\\'
      · exact Or.inr (by rw [hc]; rfl)
      · exact Or.inl (by simpa using Ne.symm hc)
    | cons d tail =>
      obtain ⟨hsame, htail⟩ := List.isChain_cons_cons.1 h
      -- neighbours in a run are both backslashes or both not, so the first character goes with the
      -- rest
      have hiff : c = '\\' ↔ d = '\\' := by
        have heq := beq_iff_eq.1 hsame
        rw [← beq_iff_eq, heq, beq_iff_eq]
      obtain hnot | hall := ih htail
      · rw [List.mem_cons, not_or] at hnot
        have hc : c ≠ '\\' := fun heq => hnot.1 (hiff.1 heq).symm
        exact Or.inl (by simp [Ne.symm hc, hnot])
      · have hd : d = '\\' := (List.cons.inj hall).1
        rw [hiff.2 hd, List.length_cons, List.replicate_succ, ← hall]
        exact Or.inr rfl

/-- Reading one character after the other comes to the same as replacing the runs. -/
theorem unifySeparators_eq_unifyRuns (text : List Char) :
    unifySeparators text = unifyRuns text := by
  -- along the runs, of which no two next to each other are of the same kind
  suffices ∀ runs : List (List Char), (∀ run ∈ runs, run.IsChain fun c d => sameRun c d) →
      (runs.IsChain fun run next => ∃ h h', sameRun (run.getLast h) (next.head h') = false) →
      unifySeparators runs.flatten = runs.flatMap unifyRun by
    have hruns := this (text.splitBy sameRun) (fun _ => List.isChain_of_mem_splitBy)
      (List.isChain_getLast_head_splitBy sameRun text)
    rwa [List.flatten_splitBy] at hruns
  intro runs hchain hturn
  induction runs with
  | nil => rfl
  | cons run runs ih =>
    have hrest := ih (fun other hother => hchain other (List.mem_cons_of_mem run hother)) hturn.tail
    rw [List.flatten_cons, List.flatMap_cons, ← hrest, unifyRun]
    obtain hnot | hall := not_mem_or_eq_replicate (hchain run List.mem_cons_self)
    · rw [if_neg hnot, unifySeparators_append_of_not_mem hnot]
    · cases run with
      | nil => rfl
      | cons c tail =>
        obtain rfl : c = '\\' := (List.cons.inj hall).1
        have hhead : runs.flatten.head? ≠ some '\\' := by
          cases runs with
          | nil => simp
          | cons next more =>
            obtain ⟨hne, hne', hdiffer⟩ := (List.isChain_cons_cons.1 hturn).1
            have hlast : ('\\' :: tail).getLast hne = '\\' :=
              (List.eq_replicate_iff.1 hall).2 _ (List.getLast_mem hne)
            obtain ⟨d, others, rfl⟩ := List.exists_cons_of_ne_nil hne'
            rw [hlast] at hdiffer
            simpa [sameRun] using hdiffer
        rw [if_pos List.mem_cons_self, hall, unifySeparators_replicate hhead, ← hall]

/-! ## A pass over the parts -/

/-- A pass over the parts of a path, with the parts that are kept so far, the last one first. -/
structure Pass where
  kept : List (List Char)
  /-- A step up had nothing to cancel, so everything from there on is kept. -/
  stopped : Bool := false
  deriving DecidableEq, Repr

/-- Takes the next part: a step up cancels the part in front of it, unless that is the only one. -/
def Pass.step (pass : Pass) (part : List Char) : Pass :=
  if pass.stopped || part ≠ up then { pass with kept := part :: pass.kept }
  else if 2 ≤ pass.kept.length then { pass with kept := pass.kept.tail }
  else { kept := part :: pass.kept, stopped := true }

/-- Passes over the parts between the first one and the last one, which are kept whatever they
are. -/
def onePass : List (List Char) → List (List Char)
  | [] => []
  | first :: rest =>
    (rest.dropLast.foldl Pass.step { kept := [first] }).kept.reverse ++ rest.getLast?.toList

theorem kept_foldl_stopped (parts kept : List (List Char)) :
    (parts.foldl Pass.step ⟨kept, true⟩).kept = parts.reverse ++ kept := by
  induction parts generalizing kept with
  | nil => rfl
  | cons part parts ih =>
    rw [List.foldl_cons, show Pass.step ⟨kept, true⟩ part = ⟨part :: kept, true⟩ from rfl, ih]
    simp

theorem kept_foldl (h : kept ≠ []) (parts : List (List Char)) :
    (parts.foldl Pass.step ⟨kept, false⟩).kept = walk kept parts := by
  -- the same three cases as `walk`, with a flag that says whether a step up has stuck before
  induction parts generalizing kept with
  | nil => rfl
  | cons part parts ih =>
    obtain ⟨inner, floor, rfl⟩ := List.exists_cons_of_ne_nil h
    rw [List.foldl_cons]
    by_cases hup : part = up
    · subst hup
      cases floor with
      | nil =>
        have hstep : Pass.step ⟨[inner], false⟩ up = ⟨[up, inner], true⟩ := by
          simp [Pass.step]
        rw [hstep, kept_foldl_stopped, walk_stuck]
      | cons below floor =>
        have hstep : Pass.step ⟨inner :: below :: floor, false⟩ up = ⟨below :: floor, false⟩ := by
          simp [Pass.step]
        rw [hstep, ih (List.cons_ne_nil below floor), walk_pop (List.cons_ne_nil below floor)]
    · have hstep : Pass.step ⟨inner :: floor, false⟩ part = ⟨part :: inner :: floor, false⟩ := by
        simp [Pass.step, hup]
      rw [hstep, ih (List.cons_ne_nil part _), walk_push hup]

theorem onePass_concat (dirs : List (List Char)) (last : List Char) :
    onePass (dirs ++ [last]) = resolve dirs ++ [last] := by
  cases dirs with
  | nil => rfl
  | cons first dirs =>
    rw [List.cons_append, onePass, List.dropLast_concat, List.getLast?_concat,
      kept_foldl (List.cons_ne_nil first []), resolve]
    rfl

theorem split_normalize_eq_onePass (p : String) :
    split '/' (normalize p).toList = onePass (split '/' (unifySeparators p.toList)) := by
  obtain ⟨dirs, last, hparts⟩ := exists_split_eq '/' (unifySeparators p.toList)
  rw [split_normalize hparts, hparts, onePass_concat]

/-! ## Deletions -/

/-- One deletion of the loop leads from a path to a shorter one. -/
def Cancels (path shorter : List Char) : Prop := cancelClimb path = some shorter

/-- A deletion takes away the leftmost `/..` with something behind it, and the part in front of it
with its separator. That part is no step up. -/
theorem Cancels.deletes (h : Cancels path shorter) :
    ∃ front part back, path = front ++ '/' :: part ++ climb ++ back ∧
      shorter = front ++ '/' :: back ∧ LeftmostClimb path (front ++ '/' :: part) ∧
      '/' ∉ part ∧ part ≠ up := by
  obtain ⟨before, back, front, hsplit, hfront, rfl⟩ := cancelClimb_eq_some_iff.1 h
  obtain ⟨part, hslash, rfl⟩ := beforeLastSlash_eq_some_iff.1 hfront
  have hleft := leftmostClimb_of_splitClimb hsplit
  refine ⟨front, part, back, eq_of_splitClimb hsplit, rfl, hleft, hslash, ?_⟩
  rintro rfl
  -- a step up in front would have been further to the left
  apply up_not_mem_of_leftmostClimb hleft
  rw [split_append, split_of_not_mem hslash, List.tail_append_of_ne_nil (split_ne_nil '/' front)]
  exact List.mem_append_right _ (List.mem_singleton_self up)

theorem cancels_collapse (path : List Char) :
    Relation.ReflTransGen Cancels path (collapse path) := by
  fun_induction collapse path with
  | case1 path shorter hcancel ih => exact ih.head hcancel
  | case2 path hcancel => exact .refl

theorem Cancels.sublist (h : Cancels path shorter) : shorter.Sublist path := by
  obtain ⟨front, part, back, rfl, rfl, -⟩ := h.deletes
  have hback : ('/' :: back).Sublist (climb ++ back) :=
    ((List.sublist_append_right ['/', '.', '.'] ['/']).append_right back)
  rw [List.append_assoc]
  exact (List.sublist_append_left front ('/' :: part)).append hback

/-- Deletions leave out characters and do nothing else. -/
theorem collapse_sublist (path : List Char) : (collapse path).Sublist path := by
  fun_induction collapse path with
  | case1 path shorter hcancel ih => exact ih.trans (Cancels.sublist hcancel)
  | case2 path hcancel => exact List.Sublist.refl path

theorem utf8Len_unifySeparators (text : List Char) :
    String.utf8Len (unifySeparators text) = String.utf8Len text := by
  have hsize : Char.utf8Size '/' = Char.utf8Size '\\' := rfl
  induction text using unifySeparators_induction with
  | nil => rfl
  | pair rest ih => simp only [unifySeparators_pair, String.utf8Len_cons, ih]
  | lone rest hrest ih => simp only [unifySeparators_lone hrest, String.utf8Len_cons, ih, hsize]
  | cons c rest hc ih => simp only [unifySeparators_cons hc, String.utf8Len_cons, ih]

theorem normalize_length_le (p : String) :
    (normalize p).length ≤ p.length ∧ (normalize p).utf8ByteSize ≤ p.utf8ByteSize := by
  have hless := collapse_sublist (unifySeparators p.toList)
  constructor
  · rw [← String.length_toList, ← String.length_toList, normalize, String.toList_ofList,
      ← length_unifySeparators p.toList]
    exact hless.length_le
  · rw [← String.ofList_toList (s := p), normalize, String.utf8ByteSize_ofList,
      String.utf8ByteSize_ofList, String.toList_ofList, ← utf8Len_unifySeparators p.toList]
    exact String.utf8Len_le_of_sublist hless

/-- Normalizing replaces the runs of backslashes and passes over the parts once, from left to right.
The deletions that it is made of come to an end whatever the path is. Each of them takes away the
leftmost step up that something follows, with the part in front of it, which is never a step up
itself; and the path never becomes longer. -/
theorem normalize_eq_onePass (p : String) :
    normalize p =
        String.ofList (['/'].intercalate (onePass (split '/' (unifyRuns p.toList)))) ∧
      Relation.ReflTransGen Cancels (unifyRuns p.toList) (normalize p).toList ∧
      (∀ shorter, ¬Cancels (normalize p).toList shorter) ∧
      (∀ path shorter, Cancels path shorter →
        ∃ front part back, path = front ++ '/' :: part ++ climb ++ back ∧
          shorter = front ++ '/' :: back ∧ LeftmostClimb path (front ++ '/' :: part) ∧
          '/' ∉ part ∧ part ≠ up) ∧
      (normalize p).length ≤ p.length ∧ (normalize p).utf8ByteSize ≤ p.utf8ByteSize := by
  rw [← unifySeparators_eq_unifyRuns]
  refine ⟨?_, ?_, ?_, fun path shorter h => h.deletes, normalize_length_le p⟩
  · rw [← split_normalize_eq_onePass, intercalate_split, String.ofList_toList]
  · rw [normalize, String.toList_ofList]
    exact cancels_collapse _
  · intro shorter h
    rw [Cancels, (normal_normalize p).settled] at h
    cases h

/-- One step up is cancelled, and behind the next one, which has nothing to cancel, everything
stays. -/
theorem normalize_stops_at_first_part :
    normalize "a\\b/../../../c/.." = "a/../../c/.." ∧
      Cancels "a/b/../../../c/..".toList "a/../../c/..".toList ∧
      ∃ front part back, "a/b/../../../c/..".toList = front ++ '/' :: part ++ climb ++ back ∧
        "a/../../c/..".toList = front ++ '/' :: back ∧ part ≠ up := by
  obtain ⟨hpass, -, -, hdeletes, -⟩ := normalize_eq_onePass "a\\b/../../../c/.."
  have hcancels : Cancels "a/b/../../../c/..".toList "a/../../c/..".toList := by
    rw [Cancels]
    decide
  obtain ⟨front, part, back, hpath, hshorter, -, -, hpart⟩ := hdeletes _ _ hcancels
  refine ⟨hpass.trans ?_, hcancels, front, part, back, hpath, hshorter, hpart⟩
  decide

end Locator.Path
