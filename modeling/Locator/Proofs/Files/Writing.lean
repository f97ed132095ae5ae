import Locator.Proofs.Files.Absolute

/-!
# Writing files

A file is written by putting it at a place where no directory is. Only directories can be gone
through, so no way leads through that place, and all ways lead where they led.

* `node?_put_self`, `node?_put_of_ne`: what is at the place and at all others
* `createFile_eq_ok_iff`: when a file can be created, and what there is then
* `walk_put`, `find_put`: locations lead where they led, and the written file is found
* `find_store`, `node?_store_of_ne`: so it is when the disk has answered writes meanwhile
-/

namespace Locator.Files.FileSystem

variable {files emptied : FileSystem} {place other here : Place} {node : Node}
  {location : String} {content : Bytes}

/-! ## Places -/

/-- The root is a directory, so what is no directory is not the root. -/
theorem ne_nil_of_not_directory (h : files.node? place ≠ some .directory) : place ≠ [] := by
  rintro rfl
  exact h rfl

theorem node?_eq_lookup (h : place ≠ []) : files.node? place = files.entries.lookup place := by
  cases place with
  | nil => exact absurd rfl h
  | cons name above => rfl

theorem node?_put_self (h : place ≠ []) : (files.put place node).node? place = some node := by
  rw [node?_eq_lookup h, put, List.lookup_cons_self]

theorem lookup_filter_of_ne {entries : List (Place × Node)} (h : other ≠ place) :
    (entries.filter (·.1 ≠ place)).lookup other = entries.lookup other := by
  induction entries with
  | nil => rfl
  | cons entry rest ih =>
    obtain ⟨key, node⟩ := entry
    by_cases hkey : key = place
    · have hother : (other == key) = false := beq_false_of_ne (hkey ▸ h)
      rw [List.filter_cons_of_neg (by simpa using hkey), ih, List.lookup_cons, hother]
    · rw [List.filter_cons_of_pos (by simpa using hkey), List.lookup_cons, List.lookup_cons, ih]

/-- Everything else stays as it is. -/
theorem node?_put_of_ne (h : other ≠ place) :
    (files.put place node).node? other = files.node? other := by
  by_cases hnil : other = []
  · rw [hnil]
    rfl
  · rw [node?_eq_lookup hnil, node?_eq_lookup hnil, put, List.lookup_cons, beq_false_of_ne h]
    exact lookup_filter_of_ne h

/-- What was put somewhere is gone when something else is put there. -/
theorem put_put (files : FileSystem) (place : Place) (before after : Node) :
    (files.put place before).put place after = files.put place after := by
  simp [put]

theorem readPlace_put_of_ne (h : other ≠ place) :
    (files.put place node).readPlace other = files.readPlace other := by
  rw [readPlace, readPlace, node?_put_of_ne h]

theorem readPlace_of_find (h : files.find location = .ok (place, .file content)) :
    files.readPlace place = .ok content := by
  obtain ⟨-, hnode, -⟩ := find_eq_ok_iff.1 h
  rw [readPlace, hnode]

theorem readPlace_of_find_directory (h : files.find location = .ok (place, .directory)) :
    files.readPlace place = .error .isADirectory := by
  obtain ⟨-, hnode, -⟩ := find_eq_ok_iff.1 h
  rw [readPlace, hnode]

/-! ## Creating files -/

/-- A file can be created where no directory is, under a name that is not one of a directory. Then
there is an empty file. -/
theorem createFile_eq_ok_iff :
    files.createFile location = .ok (place, emptied) ↔
      files.walk location = .ok place ∧ files.node? place ≠ some .directory ∧
        endsIdle location.toList = false ∧ emptied = files.put place (.file []) := by
  rw [createFile]
  cases files.walk location with
  | error cause => simp [bind, Except.bind]
  | ok there =>
    have hplace : (there = place ∧ files.node? there ≠ some .directory ∧
        endsIdle location.toList = false ∧ emptied = files.put there (.file [])) ↔
          there = place ∧ files.node? place ≠ some .directory ∧
            endsIdle location.toList = false ∧ emptied = files.put place (.file []) :=
      and_congr_right (by rintro rfl; exact Iff.rfl)
    simp only [bind, Except.bind, Except.ok.injEq]
    rw [← hplace]
    -- the three kinds of things that may be there
    cases files.node? there with
    | none => cases endsIdle location.toList <;> simp [eq_comm]
    | some node =>
      cases node with
      | directory => simp
      | file content => cases endsIdle location.toList <;> simp [eq_comm]

/-- What is found where a file can be created is what is at the place. -/
theorem find_iff_of_createFile (h : files.createFile location = .ok (place, emptied)) :
    files.find location = .ok (place, node) ↔ files.node? place = some node := by
  obtain ⟨hwalk, -, hidle, -⟩ := createFile_eq_ok_iff.1 h
  simp only [find_eq_ok_iff, hwalk, hidle, true_and, Bool.false_eq_true, false_imp_iff, and_true]

/-- A file that is there can be written. -/
theorem createFile_of_find (h : files.find location = .ok (place, .file content)) :
    files.createFile location = .ok (place, files.put place (.file [])) := by
  obtain ⟨hwalk, hnode, hidle⟩ := find_eq_ok_iff.1 h
  refine createFile_eq_ok_iff.2 ⟨hwalk, ?_, ?_, rfl⟩
  · rw [hnode]
    intro heq
    cases heq
  · rw [← Bool.not_eq_true]
    intro hend
    cases hidle hend

/-! ## Ways -/

/-- A step leads on from a directory only. -/
theorem directory_of_stepFrom {name : String} (h : files.stepFrom here name = .ok other) :
    files.node? here = some .directory := by
  rw [stepFrom] at h
  split at h
  · cases h
  · cases h
  · assumption

theorem stepFrom_put {name : String} (hplace : files.node? place ≠ some .directory)
    (h : files.stepFrom here name = .ok other) :
    (files.put place node).stepFrom here name = .ok other := by
  have hne : here ≠ place := by
    rintro rfl
    exact hplace (directory_of_stepFrom h)
  rw [← h, stepFrom, stepFrom, node?_put_of_ne hne]

theorem foldlM_stepFrom_put {way : List String} (hplace : files.node? place ≠ some .directory)
    (h : way.foldlM files.stepFrom here = .ok other) :
    way.foldlM (files.put place node).stepFrom here = .ok other := by
  induction way generalizing here with
  | nil => exact h
  | cons name rest ih =>
    rw [List.foldlM_cons] at h ⊢
    cases hstep : files.stepFrom here name with
    | error cause =>
      rw [hstep] at h
      cases h
    | ok next =>
      rw [hstep] at h
      rw [stepFrom_put hplace hstep]
      exact ih h

/-- Putting something where no directory is leaves all ways as they are. -/
theorem walk_put (hplace : files.node? place ≠ some .directory)
    (h : files.walk location = .ok other) :
    (files.put place node).walk location = .ok other := by
  rw [walk] at h ⊢
  cases hcheck : checkLocation location with
  | error cause =>
    rw [hcheck] at h
    cases h
  | ok _ =>
    rw [hcheck] at h
    exact foldlM_stepFrom_put hplace h

/-- What is written to a file that was created is found where it was created. -/
theorem find_put (h : files.createFile location = .ok (place, emptied)) (content : Bytes) :
    (files.put place (.file content)).find location = .ok (place, .file content) := by
  obtain ⟨hwalk, hnode, hidle, -⟩ := createFile_eq_ok_iff.1 h
  refine find_eq_ok_iff.2 ⟨walk_put hnode hwalk,
    node?_put_self (ne_nil_of_not_directory hnode), fun hend => ?_⟩
  rw [hidle] at hend
  cases hend

/-! ## Answers of the disk -/

variable {writes : List Stream.Reception}

theorem store_put (files : FileSystem) (place : Place) (node : Node) (content : Bytes)
    (writes : List Stream.Reception) :
    (files.put place node).store place content writes = files.store place content writes := by
  rw [store, store, put_put]

/-- Where the disk was not asked, a file is just put there. -/
theorem store_writes (files : FileSystem) (place : Place) (content : Bytes) :
    files.store place content files.writes = files.put place (.file content) :=
  rfl

theorem find_store (h : files.createFile location = .ok (place, emptied)) (content : Bytes)
    (writes : List Stream.Reception) :
    (files.store place content writes).find location = .ok (place, .file content) :=
  find_put h content

theorem node?_store_of_ne (h : other ≠ place) :
    (files.store place content writes).node? other = files.node? other :=
  node?_put_of_ne h

end Locator.Files.FileSystem
