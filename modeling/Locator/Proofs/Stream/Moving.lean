import Locator.Proofs.Stream.Whole

/-!
# What a copy moves

A copy is judged by what its source answered and by what its sink took: the answers to the reads
that were made, the receptions of the writes that were made, and the bytes taken.

* `Written`, `writeAll_written`: the writes of one piece
* `Moves`: the answers, the receptions, the bytes taken and the result of a copy
* `Moves.cons`: one more read in front, `transfer_moves`: all of them
* `copy_moves`: every copy ends, moves what its reads delivered, and stops at the first failure
-/

namespace Locator.Stream

/-! ## Answers and receptions -/

/-- The answers to the next reads of a copy. -/
def Source.answers (source : Source) : Nat → List (Except IoError Bytes)
  | 0 => []
  | count + 1 =>
    let (answer, rest) := source.read pieceSize
    answer :: Source.answers rest count

/-- The bytes that came with the answers to reads, in order. -/
def delivered : List (Except IoError Bytes) → Bytes
  | [] => []
  | .ok piece :: answers => piece ++ delivered answers
  | .error _ :: answers => delivered answers

/-- An answer behind which a copy reads on: some bytes, or an interruption. -/
def Continues : Except IoError Bytes → Prop
  | .ok piece => piece ≠ []
  | .error cause => cause.kind = .interrupted

/-- The failure that a reception means for whoever wants everything taken. -/
def Reception.failure? : Reception → Option IoError
  | .accept limit => if limit = 0 then some .nothingWritten else none
  | .refuse cause => if cause.kind = .interrupted then none else some cause

/-- The read that an event is about, with the number of bytes read. -/
def Event.read? : Event → Option (Except IoError Nat)
  | .read _ result => some result
  | _ => none

/-- Between two states of a sink, writes were answered and bytes were taken. -/
structure Sink.Took (before : Sink) (used : List Reception) (accepted : Bytes) (after : Sink) :
    Prop where
  receptions : before.receptions = used ++ after.receptions
  written : after.written = before.written ++ accepted

variable {bytes rest front accepted accepted' piece : Bytes} {used used' passed : List Reception}
  {reception : Reception} {answer : Except IoError Bytes} {answers : List (Except IoError Bytes)}
  {before middle after : Sink}

theorem Sink.took_nil (sink : Sink) : sink.Took [] [] sink :=
  ⟨rfl, (List.append_nil _).symm⟩

theorem Sink.Took.trans (first : before.Took used accepted middle)
    (second : middle.Took used' accepted' after) :
    before.Took (used ++ used') (accepted ++ accepted') after where
  receptions := by rw [first.receptions, second.receptions, List.append_assoc]
  written := by rw [second.written, first.written, List.append_assoc]

/-! ## The writes of one piece -/

/-- How the writes of some bytes may go: everything is taken, with every reception passed over, or
the last reception is a failure and only a front, that is not everything, has been taken. -/
inductive Written (bytes : Bytes) :
    List Reception → Bytes → Except IoError Unit → Prop where
  | all {used : List Reception} (passed : ∀ reception ∈ used, reception.failure? = none) :
      Written bytes used bytes (.ok ())
  | part {passed : List Reception} {fatal : Reception} {cause : IoError} {front : Bytes}
      (earlier : ∀ reception ∈ passed, reception.failure? = none)
      (failure : fatal.failure? = some cause) (start : front <+: bytes) (short : front ≠ bytes) :
      Written bytes (passed ++ [fatal]) front (.error cause)

/-- A write that is no failure, in front of the writes of what it leaves. -/
theorem Written.cons {result : Except IoError Unit} (front : Bytes)
    (h : reception.failure? = none) (written : Written rest used accepted result) :
    Written (front ++ rest) (reception :: used) (front ++ accepted) result := by
  cases written with
  | all passed => exact .all (List.forall_mem_cons.mpr ⟨h, passed⟩)
  | part earlier failure start short =>
    rw [← List.cons_append]
    exact .part (List.forall_mem_cons.mpr ⟨h, earlier⟩) failure
      ((List.prefix_append_right_inj front).mpr start) (short ∘ List.append_cancel_left)

/-- A write that is a failure, in front of bytes of which nothing has been taken. -/
theorem Written.stop {fatal : Reception} {cause : IoError} (h : fatal.failure? = some cause)
    (hne : bytes ≠ []) : Written bytes [fatal] [] (.error cause) :=
  @Written.part bytes [] fatal cause [] nofun h List.nil_prefix hne.symm

/-- What the writes of a piece come to, and what they leave. There are no reads among them, and only
one of them may find no reception left. -/
theorem writeAll_written (sink : Sink) (bytes : Bytes) :
    ∃ used accepted,
      Written bytes used accepted (sink.writeAll bytes).1 ∧
      sink.Took used accepted (sink.writeAll bytes).2.1 ∧
      (sink.writeAll bytes).2.2.filterMap Event.read? = [] ∧
      (sink.writeAll bytes).2.2.length ≤ used.length + 1 := by
  -- along the receptions: a write that is passed over goes in front of those of what it leaves
  fun_induction Sink.writeAll sink bytes with
  | case1 sink bytes hnil =>
    obtain rfl := List.isEmpty_iff.mp hnil
    exact ⟨[], [], .all (List.forall_mem_nil _), sink.took_nil, rfl, Nat.zero_le _⟩
  | case2 sink bytes _ hopen =>
    exact ⟨[], bytes, .all (List.forall_mem_nil _), ⟨rfl, written_keep sink bytes⟩, rfl,
      Nat.le_refl _⟩
  | case3 sink bytes _ cause others hnext next event hcause result after events hrun ih =>
    rw [hrun] at ih
    obtain ⟨used, accepted, written, took, noReads, few⟩ := ih
    have hgo : (Reception.refuse cause).failure? = none := if_pos hcause
    have passes : sink.Took [.refuse cause] [] next := ⟨hnext, (List.append_nil _).symm⟩
    exact ⟨.refuse cause :: used, accepted, written.cons [] hgo, passes.trans took,
      noReads, Nat.succ_le_succ few⟩
  | case4 sink bytes hnil cause others hnext next event hcause =>
    have hstop : (Reception.refuse cause).failure? = some cause := if_neg hcause
    exact ⟨[.refuse cause], [], .stop hstop (mt List.isEmpty_iff.mpr hnil),
      ⟨hnext, (List.append_nil _).symm⟩, rfl, Nat.le_succ _⟩
  | case5 sink bytes hnil limit others hnext taken next event hzero =>
    -- there are bytes left, so nothing was taken because of the limit
    have hlimit : limit = 0 := by
      have hlength := mt List.isEmpty_iff_length_eq_zero.mpr hnil
      omega
    subst hlimit
    exact ⟨[.accept 0], [], .stop rfl (mt List.isEmpty_iff.mpr hnil),
      ⟨hnext, written_keep sink []⟩, rfl, Nat.le_succ _⟩
  | case6 sink bytes hnil limit others hnext taken next event hsome result after events hrun ih =>
    rw [hrun] at ih
    obtain ⟨used, accepted, written, took, noReads, few⟩ := ih
    have hlimit : limit ≠ 0 := by
      rintro rfl
      exact hsome (Nat.zero_min _)
    have hgo : (Reception.accept limit).failure? = none := if_neg hlimit
    have passes : sink.Took [.accept limit] (bytes.take limit) next :=
      ⟨hnext, written_keep sink (bytes.take limit)⟩
    have whole := written.cons (bytes.take limit) hgo
    rw [List.take_append_drop] at whole
    exact ⟨.accept limit :: used, bytes.take limit ++ accepted, whole, passes.trans took,
      noReads, Nat.succ_le_succ few⟩

/-! ## The moves of a copy -/

theorem Source.answers_succ {source rest : Source} {count : Nat}
    (hread : source.read pieceSize = (answer, rest)) :
    source.answers (count + 1) = answer :: rest.answers count := by
  simp only [Source.answers, hread]

theorem map_add_add (result : Except IoError Nat) (earlier later : Nat) :
    (result.map (later + ·)).map (earlier + ·) = result.map (earlier + later + ·) := by
  cases result with
  | error => rfl
  | ok count => exact congrArg Except.ok (Nat.add_assoc earlier later count).symm

/-- How a copy may go. The reads before the last one all let it read on, and what they delivered has
been taken; then the source has ended, or the last read has failed, or a write of the piece that
came last has failed when only a front of that piece, which is not all of it, had been taken. No
earlier reception is a failure. -/
inductive Moves :
    List (Except IoError Bytes) → List Reception → Bytes → Except IoError Nat → Prop where
  | ended {earlier : List (Except IoError Bytes)} {used : List Reception}
      (reads : ∀ answer ∈ earlier, Continues answer)
      (writes : ∀ reception ∈ used, reception.failure? = none) :
      Moves (earlier ++ [.ok []]) used (delivered earlier) (.ok (delivered earlier).length)
  | readFailed {earlier : List (Except IoError Bytes)} {used : List Reception} {cause : IoError}
      (reads : ∀ answer ∈ earlier, Continues answer)
      (writes : ∀ reception ∈ used, reception.failure? = none)
      (failure : cause.kind ≠ .interrupted) :
      Moves (earlier ++ [.error cause]) used (delivered earlier) (.error cause)
  | writeFailed {earlier : List (Except IoError Bytes)} {passed : List Reception}
      {fatal : Reception} {cause : IoError} {piece front : Bytes}
      (reads : ∀ answer ∈ earlier, Continues answer)
      (writes : ∀ reception ∈ passed, reception.failure? = none)
      (failure : fatal.failure? = some cause) (start : front <+: piece) (short : front ≠ piece) :
      Moves (earlier ++ [.ok piece]) (passed ++ [fatal]) (delivered earlier ++ front)
        (.error cause)

/-- The last read, when the source has ended. -/
theorem Moves.of_end : Moves [.ok []] [] [] (.ok 0) :=
  @Moves.ended [] [] nofun nofun

/-- The last read, when it fails. -/
theorem Moves.of_failure {cause : IoError} (h : cause.kind ≠ .interrupted) :
    Moves [.error cause] [] [] (.error cause) :=
  @Moves.readFailed [] [] cause nofun nofun h

/-- The last piece, when a write of it fails. -/
theorem Moves.of_written {cause : IoError} (h : Written piece used front (.error cause)) :
    Moves [.ok piece] used front (.error cause) := by
  cases h with
  | part earlier failure start short =>
    exact @Moves.writeFailed [] _ _ _ _ _ nofun earlier failure start short

/-- One more answer in front, with the receptions of the writes of its piece. -/
theorem Moves.cons {result : Except IoError Nat} (answer : Except IoError Bytes)
    (passed : List Reception) (hanswer : Continues answer)
    (hpassed : ∀ reception ∈ passed, reception.failure? = none)
    (moves : Moves answers used accepted result) :
    Moves (answer :: answers) (passed ++ used) (delivered [answer] ++ accepted)
      (result.map ((delivered [answer]).length + ·)) := by
  have hdelivered (earlier : List (Except IoError Bytes)) :
      delivered [answer] ++ delivered earlier = delivered (answer :: earlier) := by
    cases answer <;> simp [delivered]
  -- one more answer in front changes how much was moved, not how the copy ends
  cases moves with
  | ended reads writes =>
    simp only [Except.map, ← List.length_append, hdelivered, ← List.cons_append]
    exact .ended (List.forall_mem_cons.mpr ⟨hanswer, reads⟩)
      (List.forall_mem_append.mpr ⟨hpassed, writes⟩)
  | readFailed reads writes failure =>
    rw [hdelivered, ← List.cons_append]
    exact .readFailed (List.forall_mem_cons.mpr ⟨hanswer, reads⟩)
      (List.forall_mem_append.mpr ⟨hpassed, writes⟩) failure
  | writeFailed reads writes failure start short =>
    rw [← List.append_assoc, ← List.append_assoc, hdelivered, ← List.cons_append]
    exact .writeFailed (List.forall_mem_cons.mpr ⟨hanswer, reads⟩)
      (List.forall_mem_append.mpr ⟨hpassed, writes⟩) failure start short

/-- What the reads and writes of a copy come to, and what they leave; every read leaves less to
arrive, and is followed by at most one write that finds no reception left. -/
theorem transfer_moves (source : Source) (sink : Sink) (total : Nat) :
    ∃ answers used accepted result,
      (transfer source sink total).1 = result.map (total + ·) ∧
      Moves answers used accepted result ∧
      source.answers answers.length = answers ∧
      sink.Took used accepted (transfer source sink total).2.1 ∧
      (transfer source sink total).2.2.filterMap Event.read? =
        answers.map (Except.map List.length) ∧
      (transfer source sink total).2.2.length ≤ 2 * source.pending + used.length + 1 := by
  -- along what is to arrive: the total so far is added to what the reads to come amount to
  fun_induction transfer source sink total with
  | case1 source sink total rest hread =>
    exact ⟨[.ok []], [], [], .ok 0, rfl, .of_end, Source.answers_succ hread, sink.took_nil, rfl,
      Nat.le_add_left _ _⟩
  | case2 source sink total cause rest hread event hcause result after events hrun ih =>
    rw [hrun] at ih
    obtain ⟨answers, used, accepted, result', hresult, moves, hanswers, took, reads, few⟩ := ih
    have hless := Source.pending_lt_of_read (by decide) hread (by simp)
    refine ⟨.error cause :: answers, used, accepted, _, hresult.trans (map_add_add _ _ 0).symm,
      moves.cons (.error cause) [] hcause (List.forall_mem_nil _), ?_, took, ?_, ?_⟩
    · rw [List.length_cons, Source.answers_succ hread, hanswers]
    · exact congrArg (Except.error cause :: ·) reads
    · simp only [List.length_cons] at few ⊢
      omega
  | case3 source sink total cause rest hread event hcause =>
    exact ⟨[.error cause], [], [], .error cause, rfl, .of_failure hcause,
      Source.answers_succ hread, sink.took_nil, rfl, Nat.le_add_left _ _⟩
  | case4 source sink total byte bytes rest hread piece event cause after writes hwrites =>
    obtain ⟨used, front, written, took, noReads, few⟩ := writeAll_written sink piece
    rw [hwrites] at written took noReads few
    have hless := Source.pending_lt_of_read (by decide) hread (by simp)
    refine ⟨[.ok piece], used, front, .error cause, rfl, .of_written written,
      Source.answers_succ hread, took, congrArg (Except.ok piece.length :: ·) noReads, ?_⟩
    simp only [List.length_cons] at few ⊢
    omega
  | case5 source sink total byte bytes rest hread piece event middle writes hwrites result after
      events hrun ih =>
    obtain ⟨passed, _, written, took, noReads, few⟩ := writeAll_written sink piece
    rw [hwrites] at written took noReads few
    obtain ⟨passes⟩ := written
    rw [hrun] at ih
    obtain ⟨answers, used, accepted, result', hresult, moves, hanswers, took', reads, few'⟩ := ih
    have hless := Source.pending_lt_of_read (by decide) hread (by simp)
    have hpiece : delivered [.ok piece] = piece := List.append_nil _
    have whole := moves.cons (.ok piece) passed (List.cons_ne_nil byte bytes) passes
    rw [hpiece] at whole
    refine ⟨.ok piece :: answers, passed ++ used, piece ++ accepted, _,
      hresult.trans (map_add_add _ _ _).symm, whole, ?_, took.trans took', ?_, ?_⟩
    · rw [List.length_cons, Source.answers_succ hread, hanswers]
    · rw [List.filterMap_cons_some (rfl : event.read? = some (.ok piece.length)),
        List.filterMap_append, noReads, reads]
      rfl
    · simp only [List.length_cons, List.length_append] at few few' ⊢
      omega

/-! ## Flushing -/

/-- The sink with another answer to the flush to come. -/
def Sink.withFlush (sink : Sink) (failure? : Option IoError) : Sink :=
  { sink with flushFailure := failure? }

@[simp] theorem Sink.receptions_withFlush (sink : Sink) (failure? : Option IoError) :
    (sink.withFlush failure?).receptions = sink.receptions := rfl

/-- Writing takes no notice of the flush to come. -/
theorem writeAll_withFlush (sink : Sink) (failure? : Option IoError) (bytes : Bytes) :
    (sink.withFlush failure?).writeAll bytes =
      let (result, after, events) := sink.writeAll bytes
      (result, after.withFlush failure?, events) := by
  -- both sinks give the same receptions, so each write is answered alike
  fun_induction Sink.writeAll sink bytes with
  | case1 sink bytes hnil =>
    rw [writeAll_step, if_pos (List.isEmpty_iff.mp hnil)]
  | case2 sink bytes hnil hopen =>
    rw [writeAll_step, if_neg (mt List.isEmpty_iff.mpr hnil), Sink.receptions_withFlush, hopen]
    rfl
  | case3 sink bytes hnil cause others hnext next event hcause result after events hrun ih =>
    rw [hrun] at ih
    rw [writeAll_step, if_neg (mt List.isEmpty_iff.mpr hnil), Sink.receptions_withFlush, hnext]
    refine (if_pos hcause).trans ?_
    exact congrArg (fun (r, s, e) => (r, s, event :: e)) ih
  | case4 sink bytes hnil cause others hnext next event hcause =>
    rw [writeAll_step, if_neg (mt List.isEmpty_iff.mpr hnil), Sink.receptions_withFlush, hnext]
    exact if_neg hcause
  | case5 sink bytes hnil limit others hnext taken next event hzero =>
    rw [writeAll_step, if_neg (mt List.isEmpty_iff.mpr hnil), Sink.receptions_withFlush, hnext]
    exact if_pos hzero
  | case6 sink bytes hnil limit others hnext taken next event hsome result after events hrun ih =>
    rw [hrun] at ih
    rw [writeAll_step, if_neg (mt List.isEmpty_iff.mpr hnil), Sink.receptions_withFlush, hnext]
    refine (if_neg hsome).trans ?_
    exact congrArg (fun (r, s, e) => (r, s, event :: e)) ih

theorem transfer_withFlush (source : Source) (sink : Sink) (failure? : Option IoError)
    (total : Nat) :
    transfer source (sink.withFlush failure?) total =
      let (result, after, events) := transfer source sink total
      (result, after.withFlush failure?, events) := by
  -- the copy flushes only when it is done, so nothing on the way depends on that
  fun_induction transfer source sink total with
  | case1 source sink total rest hread =>
    exact transfer_of_end hread
  | case2 source sink total cause rest hread event hcause result after events hrun ih =>
    rw [hrun] at ih
    rw [transfer_step, hread]
    simp only [if_pos hcause, ih]
    rfl
  | case3 source sink total cause rest hread event hcause =>
    exact transfer_of_failure hread hcause
  | case4 source sink total byte bytes rest hread piece event cause after writes hwrites =>
    rw [transfer_step, hread]
    simp only [writeAll_withFlush, hwrites, piece]
    rfl
  | case5 source sink total byte bytes rest hread piece event middle writes hwrites result after
      events hrun ih =>
    rw [hrun] at ih
    rw [transfer_step, hread]
    simp only [writeAll_withFlush, hwrites, piece, ih]
    rfl

/-- The flush decides neither what a copy comes to nor what has been taken. -/
theorem copy_withFlush (source : Source) (sink : Sink) (failure? : Option IoError) :
    (copy source (sink.withFlush failure?)).result = (copy source sink).result ∧
      (copy source (sink.withFlush failure?)).sink.written = (copy source sink).sink.written := by
  obtain ⟨result, after, events, h⟩ : ∃ result after events,
      transfer source sink 0 = (result, after, events) := ⟨_, _, _, rfl⟩
  have h' := transfer_withFlush source sink failure? 0
  rw [h] at h'
  simp only [copy, h, h', written_flush]
  exact ⟨trivial, rfl⟩

/-! ## Every copy -/

/-- Every copy ends, after no more calls than there is to arrive and to be answered. It goes in one
of the ways of `Moves`: when it gives a number, the sink has taken exactly what the reads delivered
before the first that found nothing, and the number is that of the bytes; when it gives a failure,
that is the first one of a read or a write, and the sink has taken all that was delivered, but for
some of the last piece. What the flush says changes neither. -/
theorem copy_moves (source : Source) (sink : Sink) :
    ∃ answers used accepted,
      Moves answers used accepted (copy source sink).result ∧
      source.answers answers.length = answers ∧
      sink.Took used accepted (copy source sink).sink ∧
      (copy source sink).events.filterMap Event.read? = answers.map (Except.map List.length) ∧
      (copy source sink).events.length ≤ 2 * source.pending + sink.receptions.length + 4 ∧
      ∀ failure?,
        (copy source (sink.withFlush failure?)).result = (copy source sink).result ∧
        (copy source (sink.withFlush failure?)).sink.written = (copy source sink).sink.written := by
  obtain ⟨answers, used, accepted, result, hresult, moves, hanswers, took, reads, few⟩ :=
    transfer_moves source sink 0
  refine ⟨answers, used, accepted, ?_, hanswers, ⟨?_, ?_⟩, ?_, ?_, copy_withFlush source sink⟩
  · have hzero : result.map (0 + ·) = result := by
      cases result <;> simp [Except.map]
    have hcopy : (copy source sink).result = result := hresult.trans hzero
    rwa [hcopy]
  · exact took.receptions.trans (congrArg (used ++ ·) (receptions_flush _).symm)
  · exact (written_flush _).trans took.written
  · exact (List.filterMap_append).trans ((List.append_nil _).trans reads)
  · have hused : used.length ≤ sink.receptions.length := by
      rw [took.receptions, List.length_append]
      exact Nat.le_add_right _ _
    have hevents : (copy source sink).events.length = (transfer source sink 0).2.2.length + 3 :=
      List.length_append
    omega

end Locator.Stream
