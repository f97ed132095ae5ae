import Locator.Proofs.Stream.Moving

/-!
# Contents in pieces

A content that is copied is written piece by piece, and a piece is written to its end before the
next one is read. So a copy of a content is nothing but writing its pieces until one of them fails:
all of it arrives, or a front of it that is not all of it.

* `pieces`, `flatten_pieces`: the pieces of a content
* `Sink.writePieces`: writes pieces one after the other, up to the first that fails
* `written_writePieces`, `exists_front_of_writePieces`: what a sink has taken of them
* `Sink.Takes`: a sink takes a content to its end
* `takes_of_open`, `takes_iff_of_refusal`: a sink that takes everything, and one that takes nothing
* `copy_content`: what a copy of a content comes to, whatever the sink answers
-/

namespace Locator.Stream

variable {content : Bytes} {parts : List Bytes} {sink : Sink} {cause : IoError}

/-! ## Pieces -/

/-- The pieces that a content is copied in: each but the last one fills the room for a piece. -/
def pieces (content : Bytes) : List Bytes :=
  if content = [] then [] else content.take pieceSize :: pieces (content.drop pieceSize)
termination_by content.length
decreasing_by
  rename_i hne
  rw [List.length_drop]
  exact Nat.sub_lt (List.length_pos_iff.2 hne) (by decide)

theorem pieces_nil : pieces [] = [] := by
  rw [pieces, if_pos rfl]

theorem first_piece_ne_nil (h : content ≠ []) : content.take pieceSize ≠ [] := by
  rw [Ne, List.take_eq_nil_iff, not_or]
  exact ⟨by decide, h⟩

theorem flatten_pieces (content : Bytes) : (pieces content).flatten = content := by
  fun_induction pieces content with
  | case1 => rfl
  | case2 content hne ih => rw [List.flatten_cons, ih, List.take_append_drop]

/-! ## Writing them -/

/-- Writes pieces, each of them to its end, until a write fails. -/
def Sink.writePieces (sink : Sink) : List Bytes → Except IoError Unit × Sink
  | [] => (.ok (), sink)
  | piece :: rest =>
    match sink.writeAll piece with
    | (.error cause, after, _) => (.error cause, after)
    | (.ok (), after, _) => after.writePieces rest

/-- The sink takes a content to its end. -/
def Sink.Takes (sink : Sink) (content : Bytes) : Prop :=
  (sink.writePieces (pieces content)).1 = .ok ()

/-- A sink that takes the pieces has taken all of them. -/
theorem written_writePieces (h : (sink.writePieces parts).1 = .ok ()) :
    (sink.writePieces parts).2.written = sink.written ++ parts.flatten := by
  induction parts generalizing sink with
  | nil => exact (List.append_nil _).symm
  | cons piece rest ih =>
    obtain ⟨used, accepted, written, took, -⟩ := writeAll_written sink piece
    rw [Sink.writePieces] at h ⊢
    generalize sink.writeAll piece = attempt at h written took ⊢
    obtain ⟨result, after, events⟩ := attempt
    cases written with
    | part => cases h
    | all => rw [ih h, took.written, List.flatten_cons, List.append_assoc]

/-- A sink that fails has taken what is in front of the failure. -/
theorem exists_front_of_writePieces (h : (sink.writePieces parts).1 = .error cause) :
    ∃ front, front <+: parts.flatten ∧ front ≠ parts.flatten ∧
      (sink.writePieces parts).2.written = sink.written ++ front := by
  induction parts generalizing sink with
  | nil => cases h
  | cons piece rest ih =>
    obtain ⟨used, accepted, written, took, -⟩ := writeAll_written sink piece
    rw [Sink.writePieces] at h ⊢
    generalize sink.writeAll piece = attempt at h written took ⊢
    obtain ⟨result, after, events⟩ := attempt
    rw [List.flatten_cons]
    cases written with
    | part earlier failure start short =>
      -- this piece broke off
      refine ⟨accepted, start.trans (List.prefix_append piece _), ?_, took.written⟩
      intro heq
      have hlonger : piece <+: accepted := heq ▸ List.prefix_append piece _
      exact short (start.eq_of_length_le hlonger.length_le)
    | all =>
      -- a later one did
      obtain ⟨front, hstart, hshort, hwritten⟩ := ih h
      refine ⟨piece ++ front, (List.prefix_append_right_inj piece).2 hstart, ?_, ?_⟩
      · exact fun heq => hshort (List.append_cancel_left heq)
      · rw [hwritten, took.written, List.append_assoc]

/-- A sink with nothing to say takes everything. -/
theorem takes_of_open (h : sink.receptions = []) (content : Bytes) : sink.Takes content := by
  rw [Sink.Takes]
  fun_induction pieces content generalizing sink with
  | case1 => rfl
  | case2 content hne ih =>
    rw [Sink.writePieces, writeAll_of_open h (first_piece_ne_nil hne)]
    exact ih h

theorem takes_nil (sink : Sink) : sink.Takes [] := by
  rw [Sink.Takes, pieces_nil]
  rfl

/-- A sink that refuses what comes next takes nothing more. -/
theorem takes_iff_of_refusal {rest : List Reception} (h : sink.receptions = .refuse cause :: rest)
    (hcause : cause.kind ≠ .interrupted) : sink.Takes content ↔ content = [] := by
  by_cases hne : content = []
  · subst hne
    exact iff_of_true (takes_nil sink) rfl
  · refine iff_of_false (fun htakes => ?_) hne
    -- the first piece is offered and refused
    rw [Sink.Takes, pieces, if_neg hne, Sink.writePieces, writeAll_step,
      if_neg (first_piece_ne_nil hne), h] at htakes
    simp only [if_neg hcause] at htakes
    cases htakes

/-! ## Copying a content -/

theorem read_ofBytes (content : Bytes) :
    (Source.ofBytes content).read pieceSize = (.ok (content.take pieceSize),
      if content.length ≤ pieceSize then [] else Source.ofBytes (content.drop pieceSize)) := by
  rw [Source.ofBytes, Source.read]
  split
  · next hfits => rw [List.take_of_length_le hfits]
  · rfl

theorem transfer_nothing (sink : Sink) (total : Nat) :
    transfer [] sink total = (.ok total, sink, [.read pieceSize (.ok 0)]) := by
  have hread : Source.read pieceSize [] = (.ok [], []) := rfl
  exact transfer_of_end hread

/-- What is left of a content when its first piece has been read goes on as a content of its own. -/
theorem transfer_rest (content : Bytes) (sink : Sink) (total : Nat) :
    transfer (if content.length ≤ pieceSize then []
      else Source.ofBytes (content.drop pieceSize)) sink total =
    transfer (.ofBytes (content.drop pieceSize)) sink total := by
  split
  · -- nothing is left, and an empty content ends as nothing at all does
    next hfits =>
    rw [List.drop_eq_nil_of_le hfits]
    exact (transfer_nothing sink total).trans (transfer_of_end rfl).symm
  · rfl

variable {after : Sink} {writes : List Event}

/-- One turn of a copy of a content, when its first piece is written. -/
theorem transfer_content_of_ok (total : Nat) (hne : content ≠ [])
    (h : sink.writeAll (content.take pieceSize) = (.ok (), after, writes)) :
    let rest := transfer (.ofBytes (content.drop pieceSize)) after
      (total + (content.take pieceSize).length)
    (transfer (.ofBytes content) sink total).1 = rest.1 ∧
      (transfer (.ofBytes content) sink total).2.1 = rest.2.1 := by
  intro rest
  obtain ⟨byte, bytes, hcons⟩ := List.exists_cons_of_ne_nil (first_piece_ne_nil hne)
  rw [hcons] at h
  rw [transfer_step (.ofBytes content), read_ofBytes]
  simp only [hcons, h, transfer_rest, rest, and_self]

/-- The last turn, when its first piece is not written. -/
theorem transfer_content_of_error (total : Nat) (hne : content ≠ [])
    (h : sink.writeAll (content.take pieceSize) = (.error cause, after, writes)) :
    (transfer (.ofBytes content) sink total).1 = .error cause ∧
      (transfer (.ofBytes content) sink total).2.1 = after := by
  obtain ⟨byte, bytes, hcons⟩ := List.exists_cons_of_ne_nil (first_piece_ne_nil hne)
  rw [hcons] at h
  rw [transfer_step, read_ofBytes]
  simp only [hcons, h, and_self]

theorem transfer_content (content : Bytes) (sink : Sink) (total : Nat) :
    (transfer (.ofBytes content) sink total).1 =
        (sink.writePieces (pieces content)).1.map (fun _ => total + content.length) ∧
      (transfer (.ofBytes content) sink total).2.1 = (sink.writePieces (pieces content)).2 := by
  -- along the pieces: what follows the first one is a content too
  fun_induction pieces content generalizing sink total with
  | case1 =>
    have hend : transfer (.ofBytes []) sink total = (.ok total, sink, [.read pieceSize (.ok 0)]) :=
      transfer_of_end rfl
    rw [hend]
    exact ⟨rfl, rfl⟩
  | case2 content hne ih =>
    obtain ⟨result, after, writes, hwrite⟩ : ∃ result after writes,
        sink.writeAll (content.take pieceSize) = (result, after, writes) := ⟨_, _, _, rfl⟩
    rw [Sink.writePieces, hwrite]
    cases result with
    | error cause => exact transfer_content_of_error total hne hwrite
    | ok _ =>
      obtain ⟨hfirst, hlast⟩ := transfer_content_of_ok total hne hwrite
      obtain ⟨hresult, hsink⟩ := ih after (total + (content.take pieceSize).length)
      have hlength : (content.take pieceSize).length + (content.drop pieceSize).length =
          content.length := by
        rw [← List.length_append, List.take_append_drop]
      rw [Nat.add_assoc, hlength] at hresult
      exact ⟨hfirst.trans hresult, hlast.trans hsink⟩

/-- A copy of a content is writing its pieces. -/
theorem copy_content (content : Bytes) (sink : Sink) :
    (copy (.ofBytes content) sink).result =
        (sink.writePieces (pieces content)).1.map (fun _ => content.length) ∧
      (copy (.ofBytes content) sink).sink.written =
        (sink.writePieces (pieces content)).2.written ∧
      (copy (.ofBytes content) sink).sink.receptions =
        (sink.writePieces (pieces content)).2.receptions := by
  obtain ⟨hresult, hsink⟩ := transfer_content content sink 0
  rw [Nat.zero_add] at hresult
  refine ⟨hresult, ?_, ?_⟩
  · rw [← hsink]
    exact written_flush _
  · rw [← hsink]
    exact receptions_flush _

end Locator.Stream
