import Locator.Stream.Copy

/-!
# Reading to the end

Whatever a source is like, what comes out of it (`Source.chunks`) is copied in pieces and put
together again, and the failure that it ends with (`Source.failure?`), if any, is what the copying
ends with. Interruptions do not show.

* `Source.pending_lt_of_read`, `Source.of_read_end`, `Source.of_read_failure`,
  `Source.of_read_piece`: what one read tells
* `writeAll_step`, `transfer_step`: one write, and one read
* `transfer_of_end`, `transfer_of_failure`, `transfer_of_piece`: what one read leads to
* `transfer_eq`, `copy_eq`: what moves from a source into a sink that takes everything
* `readAll_ofBytes`, `readAll_failure`: reading a content, and what begins with a failure
-/

namespace Locator.Stream

/-- Reads a source to the end: everything it hands out, or the first failure. -/
def Source.readAll (source : Source) : Except IoError Bytes :=
  let copied := copy source {}
  copied.result.map fun _ => copied.sink.written

/-! ## What comes out of a source -/

namespace Source

/-- The chunks that come out of a source before it ends, in order. An interruption ends nothing; a
read that finds nothing does. -/
def chunks : Source → List Bytes
  | [] => []
  | .data bytes :: rest => if bytes = [] then [] else bytes :: chunks rest
  | .failure cause :: rest => if cause.kind = .interrupted then chunks rest else []

/-- The failure that a source ends with, if it does not end by itself. -/
def failure? : Source → Option IoError
  | [] => none
  | .data bytes :: rest => if bytes = [] then none else failure? rest
  | .failure cause :: rest => if cause.kind = .interrupted then failure? rest else some cause

variable {source rest : Source} {answer : Except IoError Bytes} {piece : Bytes} {cause : IoError}
  {room : Nat}

/-- A read that finds something leaves less to arrive. -/
theorem pending_lt_of_read (hroom : 0 < room) (h : source.read room = (answer, rest))
    (hanswer : answer ≠ .ok []) : rest.pending < source.pending := by
  have hne := ne_nil_of_read room (congrArg Prod.fst h) hanswer
  have hlt := pending_read_lt hne room hroom
  rwa [h] at hlt

/-- A read that finds nothing has come to the end. -/
theorem of_read_end (hroom : 0 < room) (h : source.read room = (.ok [], rest)) :
    source.chunks = [] ∧ source.failure? = none := by
  fun_cases read room source with
  | case1 => exact ⟨rfl, rfl⟩
  | case2 cause rest' => cases h
  | case3 bytes rest' hfits =>
    rw [read, if_pos hfits] at h
    obtain ⟨hbytes, -⟩ := Prod.mk.inj h
    obtain rfl := Except.ok.inj hbytes
    exact ⟨rfl, rfl⟩
  | case4 bytes rest' hlong =>
    rw [read, if_neg hlong] at h
    obtain ⟨hbytes, -⟩ := Prod.mk.inj h
    have hlen := congrArg List.length (Except.ok.inj hbytes)
    simp only [List.length_take, List.length_nil] at hlen
    omega

theorem of_read_failure (h : source.read room = (.error cause, rest)) :
    source = .failure cause :: rest := by
  fun_cases read room source with
  | case1 => cases h
  | case2 cause' rest' => cases h; rfl
  | case3 bytes rest' hfits =>
    rw [read, if_pos hfits] at h
    cases h
  | case4 bytes rest' hlong =>
    rw [read, if_neg hlong] at h
    cases h

/-- A piece is the start of what comes out, and behind it comes the rest. -/
theorem of_read_piece (h : source.read room = (.ok piece, rest)) (hne : piece ≠ []) :
    source.chunks.flatten = piece ++ rest.chunks.flatten ∧ source.failure? = rest.failure? := by
  fun_cases read room source with
  | case1 =>
    cases h
    exact absurd rfl hne
  | case2 cause' rest' => cases h
  | case3 bytes rest' hfits =>
    rw [read, if_pos hfits] at h
    cases h
    simp [chunks, failure?, hne]
  | case4 bytes rest' hlong =>
    rw [read, if_neg hlong] at h
    cases h
    have hdrop : bytes.drop room ≠ [] := by simpa using hlong
    have hbytes : bytes ≠ [] := by
      rintro rfl
      exact hne List.take_nil
    simp [chunks, failure?, hdrop, hbytes, ← List.append_assoc]

end Source

variable {source rest : Source} {sink : Sink} {content piece : Bytes} {cause : IoError}
  {total : Nat}

/-! ## One call of a copy -/

/-- Writing everything, one write at a time. -/
theorem writeAll_step (sink : Sink) (bytes : Bytes) :
    sink.writeAll bytes =
      if bytes = [] then (.ok (), sink, [])
      else
        match sink.receptions with
        | [] => (.ok (), sink.keep bytes, [.write bytes.length (.ok bytes.length)])
        | .refuse cause :: rest =>
          let event := Event.write bytes.length (.error cause)
          if cause.kind = .interrupted then
            let (result, sink, events) := ({ sink with receptions := rest } : Sink).writeAll bytes
            (result, sink, event :: events)
          else (.error cause, { sink with receptions := rest }, [event])
        | .accept limit :: rest =>
          let next := { sink.keep (bytes.take limit) with receptions := rest }
          let event := Event.write bytes.length (.ok (min limit bytes.length))
          if min limit bytes.length = 0 then (.error .nothingWritten, next, [event])
          else
            let (result, sink, events) := next.writeAll (bytes.drop limit)
            (result, sink, event :: events) := by
  rw [Sink.writeAll]
  simp only [List.isEmpty_iff]
  split
  · rfl
  · split <;> next h => simp only [h]

/-- A copy, one read at a time. -/
theorem transfer_step (source : Source) (sink : Sink) (total : Nat) :
    transfer source sink total =
      match source.read pieceSize with
      | (.ok [], _) => (.ok total, sink, [.read pieceSize (.ok 0)])
      | (.error cause, rest) =>
        let event := Event.read pieceSize (.error cause)
        if cause.kind = .interrupted then
          let (result, sink, events) := transfer rest sink total
          (result, sink, event :: events)
        else (.error cause, sink, [event])
      | (.ok (byte :: bytes), rest) =>
        let event := Event.read pieceSize (.ok (byte :: bytes).length)
        match sink.writeAll (byte :: bytes) with
        | (.error cause, sink, writes) => (.error cause, sink, event :: writes)
        | (.ok (), sink, writes) =>
          let (result, sink, events) := transfer rest sink (total + (byte :: bytes).length)
          (result, sink, event :: (writes ++ events)) := by
  rw [transfer]
  split <;> next h => exact h ▸ rfl

theorem transfer_of_end (h : source.read pieceSize = (.ok [], rest)) :
    transfer source sink total = (.ok total, sink, [.read pieceSize (.ok 0)]) := by
  rw [transfer_step, h]

theorem transfer_of_failure (h : source.read pieceSize = (.error cause, rest))
    (hcause : cause.kind ≠ .interrupted) :
    transfer source sink total = (.error cause, sink, [.read pieceSize (.error cause)]) := by
  rw [transfer_step, h]
  exact if_neg hcause

/-- A sink that has nothing to say takes every piece as it comes. -/
theorem writeAll_of_open (h : sink.receptions = []) (hne : piece ≠ []) :
    sink.writeAll piece =
      (.ok (), sink.keep piece, [.write piece.length (.ok piece.length)]) := by
  rw [writeAll_step, if_neg hne, h]

theorem transfer_of_piece (h : source.read pieceSize = (.ok piece, rest)) (hne : piece ≠ [])
    (hopen : sink.receptions = []) :
    transfer source sink total =
      let (result, sink, events) := transfer rest (sink.keep piece) (total + piece.length)
      (result, sink, .read pieceSize (.ok piece.length) ::
        .write piece.length (.ok piece.length) :: events) := by
  obtain ⟨byte, bytes, rfl⟩ := List.exists_cons_of_ne_nil hne
  rw [transfer_step, h]
  simp only [writeAll_of_open hopen hne, List.singleton_append]

/-- An interruption is passed over. -/
theorem transfer_of_interruption (h : source.read pieceSize = (.error cause, rest))
    (hcause : cause.kind = .interrupted) :
    (transfer source sink total).1 = (transfer rest sink total).1 ∧
      (transfer source sink total).2.1 = (transfer rest sink total).2.1 := by
  rw [transfer_step, h]
  simp only [if_pos hcause, and_self]

/-! ## A whole copy -/

theorem written_keep (sink : Sink) (bytes : Bytes) :
    (sink.keep bytes).written = sink.written ++ bytes := by
  simp [Sink.written, Sink.keep]

/-- What a copy has come to when its source ends: the number of bytes moved, or a failure. -/
def tally (moved : Nat) : Option IoError → Except IoError Nat
  | none => .ok moved
  | some cause => .error cause

/-- A sink that takes everything gets what comes out of the source. -/
theorem transfer_eq (hopen : sink.receptions = []) (source : Source) (total : Nat) :
    (transfer source sink total).1 =
        tally (total + source.chunks.flatten.length) source.failure? ∧
      (transfer source sink total).2.1.written = sink.written ++ source.chunks.flatten := by
  -- along what is to come, of which every read leaves less
  induction hpending : source.pending using Nat.strongRecOn generalizing source sink total with
  | ind n ih =>
    obtain ⟨result, rest, hread⟩ : ∃ result rest, source.read pieceSize = (result, rest) :=
      ⟨_, _, rfl⟩
    have hless (hresult : result ≠ .ok []) : rest.pending < n :=
      hpending ▸ Source.pending_lt_of_read (by decide) hread hresult
    cases result with
    | error cause =>
      obtain rfl := Source.of_read_failure hread
      by_cases hcause : cause.kind = .interrupted
      · obtain ⟨hresult, hsink⟩ :
            (transfer (.failure cause :: rest) sink total).1 = (transfer rest sink total).1 ∧
              (transfer (.failure cause :: rest) sink total).2.1 = (transfer rest sink total).2.1 :=
          transfer_of_interruption hread hcause
        rw [hresult, hsink, Source.chunks, Source.failure?, if_pos hcause, if_pos hcause]
        exact ih _ (hless nofun) hopen rest total rfl
      · rw [transfer_of_failure hread hcause, Source.chunks, Source.failure?, if_neg hcause,
          if_neg hcause]
        exact ⟨rfl, (List.append_nil _).symm⟩
    | ok piece =>
      by_cases hnil : piece = []
      · subst hnil
        obtain ⟨hchunks, hfailure⟩ := Source.of_read_end (by decide) hread
        rw [transfer_of_end hread, hchunks, hfailure]
        exact ⟨rfl, (List.append_nil _).symm⟩
      · obtain ⟨hchunks, hfailure⟩ := Source.of_read_piece hread hnil
        have hsome : (.ok piece : Except IoError Bytes) ≠ .ok [] := fun h =>
          hnil (Except.ok.inj h)
        have hkeep : (sink.keep piece).receptions = [] := hopen
        obtain ⟨hresult, hwritten⟩ :=
          ih _ (hless hsome) hkeep rest (total + piece.length) rfl
        rw [transfer_of_piece hread hnil hopen]
        refine ⟨hresult.trans ?_, hwritten.trans ?_⟩
        · rw [hchunks, hfailure, List.length_append, Nat.add_assoc]
        · rw [written_keep, hchunks, List.append_assoc]

theorem written_flush (sink : Sink) : sink.flush.2.written = sink.written := by
  rw [Sink.flush]
  split <;> rfl

theorem receptions_flush (sink : Sink) : sink.flush.2.receptions = sink.receptions := by
  rw [Sink.flush]
  split <;> rfl

/-- What a copy comes to, and what it leaves. -/
theorem copy_eq (source : Source) :
    (copy source {}).result = tally source.chunks.flatten.length source.failure? ∧
      (copy source {}).sink.written = source.chunks.flatten := by
  have hopen : ({} : Sink).receptions = [] := rfl
  obtain ⟨hresult, hwritten⟩ := transfer_eq hopen source 0
  rw [Nat.zero_add] at hresult
  refine ⟨hresult, ?_⟩
  show (transfer source {} 0).2.1.flush.2.written = _
  rw [written_flush, hwritten]
  rfl

theorem ofBytes_eq (content : Bytes) :
    (Source.ofBytes content).chunks.flatten = content ∧
      (Source.ofBytes content).failure? = none := by
  by_cases h : content = [] <;> simp [Source.ofBytes, Source.chunks, Source.failure?, h]

/-- All of a content is copied, and the number of its bytes is given. -/
theorem copy_ofBytes (content : Bytes) :
    (copy (.ofBytes content) {}).result = .ok content.length ∧
      (copy (.ofBytes content) {}).sink.written = content := by
  obtain ⟨hresult, hwritten⟩ := copy_eq (.ofBytes content)
  obtain ⟨hchunks, hfailure⟩ := ofBytes_eq content
  rw [hchunks, hfailure] at hresult
  exact ⟨hresult, hwritten.trans hchunks⟩

/-- From a source that begins with a failure nothing is copied, and nothing is written. -/
theorem copy_failure (hcause : cause.kind ≠ .interrupted) (rest : Source) (sink : Sink) :
    (copy (.failure cause :: rest) sink).result = .error cause ∧
      (copy (.failure cause :: rest) sink).sink.written = sink.written ∧
      (copy (.failure cause :: rest) sink).sink.receptions = sink.receptions := by
  have htransfer : transfer (.failure cause :: rest) sink 0 =
      (.error cause, sink, [.read pieceSize (.error cause)]) := transfer_of_failure rfl hcause
  refine ⟨congrArg Prod.fst htransfer, ?_, ?_⟩
  · refine (written_flush _).trans ?_
    rw [htransfer]
  · refine (receptions_flush _).trans ?_
    rw [htransfer]

theorem readAll_ofBytes (content : Bytes) : (Source.ofBytes content).readAll = .ok content := by
  obtain ⟨hresult, hwritten⟩ := copy_ofBytes content
  simp only [Source.readAll, hresult, hwritten]
  rfl

theorem readAll_failure (hcause : cause.kind ≠ .interrupted) (rest : Source) :
    Source.readAll (.failure cause :: rest) = .error cause := by
  obtain ⟨hresult, -⟩ := copy_failure hcause rest {}
  simp only [Source.readAll, hresult]
  rfl

end Locator.Stream
