import Locator.Proofs.Stream.Moving

/-!
# The calls of a copy

A copy reads and writes until its source has ended or a call fails, and then closes what it was
given: the source first, then, after a flush, the sink.

* `Offers`: the writes of one piece, `Calls`: the reads and writes of a copy
* `writeAll_offers`, `transfer_calls`: what is called, and how the sink answers it
* `Calls.stops`: nothing is called behind a failure or behind the end of the source
* `copy_closes`: what is called at the end
* `copy_calls`: all calls of a copy, in order
-/

namespace Locator.Stream

/-! ## Which calls there may be -/

/-- The write that an event is about: how many bytes were offered, and what came of it. -/
def Event.write? : Event → Option (Nat × Except IoError Nat)
  | .write offered result => some (offered, result)
  | _ => none

/-- Behind such a call nothing is read or written any more: a read that has come to the end, or a
call that has failed. An interruption is no failure, and a write that takes nothing is one. -/
def Event.stops : Event → Bool
  | .read _ (.ok count) | .write _ (.ok count) => count == 0
  | .read _ (.error cause) | .write _ (.error cause) => cause.kind ≠ .interrupted
  | _ => false

/-- The writes of a piece of which some bytes are left to offer, and what they come to. Each write
offers all that is left, and what it takes is left out of the next one. -/
inductive Offers : Nat → List Event → Except IoError Unit → Prop where
  | done : Offers 0 [] (.ok ())
  | taken {count left : Nat} {later : List Event} {result : Except IoError Unit}
      (some : 0 < count) (more : Offers left later result) :
      Offers (count + left) (.write (count + left) (.ok count) :: later) result
  | interrupted {left : Nat} {cause : IoError} {later : List Event} {result : Except IoError Unit}
      (some : 0 < left) (passing : cause.kind = .interrupted) (more : Offers left later result) :
      Offers left (.write left (.error cause) :: later) result
  | nothing {left : Nat} (some : 0 < left) :
      Offers left [.write left (.ok 0)] (.error .nothingWritten)
  | refused {left : Nat} {cause : IoError} (some : 0 < left) (fatal : cause.kind ≠ .interrupted) :
      Offers left [.write left (.error cause)] (.error cause)

/-- The reads and writes of a copy, and what they come to. Every read has room for a whole piece.
What it brings is written before the next read, and a read that was interrupted is made again. -/
inductive Calls : List Event → Except IoError Unit → Prop where
  | ended : Calls [.read pieceSize (.ok 0)] (.ok ())
  | failed {cause : IoError} (fatal : cause.kind ≠ .interrupted) :
      Calls [.read pieceSize (.error cause)] (.error cause)
  | interrupted {cause : IoError} {later : List Event} {result : Except IoError Unit}
      (passing : cause.kind = .interrupted) (more : Calls later result) :
      Calls (.read pieceSize (.error cause) :: later) result
  | moved {length : Nat} {writes later : List Event} {result : Except IoError Unit}
      (some : 0 < length) (fits : length ≤ pieceSize) (written : Offers length writes (.ok ()))
      (more : Calls later result) :
      Calls (.read pieceSize (.ok length) :: (writes ++ later)) result
  | stuck {length : Nat} {writes : List Event} {cause : IoError}
      (some : 0 < length) (fits : length ≤ pieceSize)
      (written : Offers length writes (.error cause)) :
      Calls (.read pieceSize (.ok length) :: writes) (.error cause)

variable {offered : Nat} {event : Event} {calls later : List Event} {result : Except IoError Unit}

/-! ## Nothing behind a failure -/

/-- All but the last of some calls, with one more in front. -/
private theorem forall_mem_dropLast_cons {p : Event → Prop} (hevent : p event)
    (hlater : ∀ call ∈ later.dropLast, p call) : ∀ call ∈ (event :: later).dropLast, p call := by
  cases later with
  | nil => exact List.forall_mem_nil _
  | cons next rest =>
    rw [List.dropLast_cons_of_ne_nil (List.cons_ne_nil next rest)]
    exact List.forall_mem_cons.mpr ⟨hevent, hlater⟩

/-- Of the writes of a piece only the last one may fail, and it does exactly when not everything
could be written. -/
theorem Offers.stops (offers : Offers offered calls result) :
    (∀ call ∈ calls.dropLast, call.stops = false) ∧
      (result = .ok () → ∀ call ∈ calls, call.stops = false) := by
  induction offers with
  | done => exact ⟨List.forall_mem_nil _, fun _ => List.forall_mem_nil _⟩
  | @taken count left later result some _ ih =>
    have hgo : (Event.write (count + left) (.ok count)).stops = false :=
      beq_false_of_ne (Nat.ne_of_gt some)
    exact ⟨forall_mem_dropLast_cons hgo ih.1,
      fun hok => List.forall_mem_cons.mpr ⟨hgo, ih.2 hok⟩⟩
  | @interrupted left cause later result _ passing _ ih =>
    have hgo : (Event.write left (.error cause)).stops = false := by
      simp [Event.stops, passing]
    exact ⟨forall_mem_dropLast_cons hgo ih.1,
      fun hok => List.forall_mem_cons.mpr ⟨hgo, ih.2 hok⟩⟩
  | nothing => exact ⟨List.forall_mem_nil _, nofun⟩
  | refused => exact ⟨List.forall_mem_nil _, nofun⟩

theorem Calls.ne_nil (copying : Calls calls result) : calls ≠ [] := by
  cases copying <;> exact List.cons_ne_nil _ _

/-- A copy makes no call behind one that fails or finds the end. -/
theorem Calls.stops (copying : Calls calls result) :
    ∀ call ∈ calls.dropLast, call.stops = false := by
  induction copying with
  | ended => exact List.forall_mem_nil _
  | failed => exact List.forall_mem_nil _
  | @interrupted cause later result passing _ ih =>
    refine forall_mem_dropLast_cons ?_ ih
    simp [Event.stops, passing]
  | @moved length writes later result some _ written more ih =>
    refine forall_mem_dropLast_cons (beq_false_of_ne (Nat.ne_of_gt some)) ?_
    rw [List.dropLast_append_of_ne_nil more.ne_nil]
    exact List.forall_mem_append.mpr ⟨written.stops.2 rfl, ih⟩
  | stuck some _ written =>
    exact forall_mem_dropLast_cons (beq_false_of_ne (Nat.ne_of_gt some)) written.stops.1

/-! ## Only reads and writes -/

/-- The call is a read or a write. -/
def Event.IsMove (event : Event) : Prop :=
  event.read?.isSome ∨ event.write?.isSome

theorem Offers.moves (offers : Offers offered calls result) : ∀ call ∈ calls, call.IsMove := by
  induction offers with
  | done => exact List.forall_mem_nil _
  | taken _ _ ih => exact List.forall_mem_cons.mpr ⟨Or.inr rfl, ih⟩
  | interrupted _ _ _ ih => exact List.forall_mem_cons.mpr ⟨Or.inr rfl, ih⟩
  | nothing => exact List.forall_mem_singleton.mpr (Or.inr rfl)
  | refused => exact List.forall_mem_singleton.mpr (Or.inr rfl)

theorem Calls.moves (copying : Calls calls result) : ∀ call ∈ calls, call.IsMove := by
  induction copying with
  | ended => exact List.forall_mem_singleton.mpr (Or.inl rfl)
  | failed => exact List.forall_mem_singleton.mpr (Or.inl rfl)
  | interrupted _ _ ih => exact List.forall_mem_cons.mpr ⟨Or.inl rfl, ih⟩
  | moved _ _ written _ ih =>
    exact List.forall_mem_cons.mpr ⟨Or.inl rfl, List.forall_mem_append.mpr ⟨written.moves, ih⟩⟩
  | stuck _ _ written => exact List.forall_mem_cons.mpr ⟨Or.inl rfl, written.moves⟩

/-! ## The answers to writes -/

/-- How a reception answers a write that offers some bytes. -/
def Reception.answer (offered : Nat) : Reception → Except IoError Nat
  | .accept limit => .ok (min limit offered)
  | .refuse cause => .error cause

/-- The answers to writes that offer so many bytes each. Behind the last reception all is taken. -/
def replies : List Reception → List Nat → List (Except IoError Nat)
  | _, [] => []
  | receptions, offered :: offers =>
    (receptions.head?.getD (.accept offered)).answer offered :: replies receptions.tail offers

theorem replies_append (receptions : List Reception) (offers offers' : List Nat) :
    replies receptions (offers ++ offers') =
      replies receptions offers ++ replies (receptions.drop offers.length) offers' := by
  induction offers generalizing receptions with
  | nil => rfl
  | cons offered rest ih =>
    rw [List.cons_append, replies, replies, ih, List.cons_append, List.length_cons,
      List.drop_tail]

/-- Between two states of a sink, its receptions have answered the writes among some calls. -/
structure Sink.Replied (before : Sink) (calls : List Event) (after : Sink) : Prop where
  answers : (calls.filterMap Event.write?).map Prod.snd =
    replies before.receptions ((calls.filterMap Event.write?).map Prod.fst)
  receptions : after.receptions = before.receptions.drop (calls.filterMap Event.write?).length

variable {before middle after : Sink}

theorem Sink.replied_of_no_write (sink : Sink) (h : event.write? = none) :
    sink.Replied [event] sink := by
  have hnone : [event].filterMap Event.write? = [] := List.filterMap_cons_none h
  constructor <;> rw [hnone] <;> rfl

theorem Sink.replied_write {reception : Reception} {others : List Reception}
    (hnext : before.receptions = reception :: others) (hafter : after.receptions = others) :
    before.Replied [.write offered (reception.answer offered)] after where
  answers := by
    rw [hnext]
    rfl
  receptions := by
    rw [hnext]
    exact hafter

/-- A sink that has nothing to say takes all that it is offered. -/
theorem Sink.replied_of_open (hopen : before.receptions = []) (hafter : after.receptions = []) :
    before.Replied [.write offered (.ok offered)] after where
  answers := by
    rw [hopen]
    exact congrArg (fun count => [Except.ok count]) (Nat.min_self offered).symm
  receptions := by
    rw [hopen]
    exact hafter

theorem Sink.Replied.trans (first : before.Replied calls middle)
    (second : middle.Replied later after) : before.Replied (calls ++ later) after where
  answers := by
    rw [List.filterMap_append, List.map_append, List.map_append, first.answers, second.answers,
      first.receptions, replies_append, List.length_map]
  receptions := by
    rw [second.receptions, first.receptions, List.drop_drop, List.filterMap_append,
      List.length_append]

/-! ## The calls that are made -/

theorem writeAll_offers (sink : Sink) (bytes : Bytes) :
    Offers bytes.length (sink.writeAll bytes).2.2 (sink.writeAll bytes).1 ∧
      sink.Replied (sink.writeAll bytes).2.2 (sink.writeAll bytes).2.1 := by
  have hsome {bytes : Bytes} (hnil : ¬ bytes.isEmpty = true) : 0 < bytes.length :=
    List.length_pos_iff.mpr (mt List.isEmpty_iff.mpr hnil)
  fun_induction Sink.writeAll sink bytes with
  | case1 sink bytes hnil =>
    obtain rfl := List.isEmpty_iff.mp hnil
    exact ⟨.done, rfl, rfl⟩
  | case2 sink bytes hnil hopen =>
    exact ⟨Offers.taken (hsome hnil) .done, Sink.replied_of_open hopen hopen⟩
  | case3 sink bytes hnil cause others hnext next event hcause result after events hrun ih =>
    rw [hrun] at ih
    have hwrite : sink.Replied [event] next := Sink.replied_write hnext rfl
    exact ⟨.interrupted (hsome hnil) hcause ih.1, hwrite.trans ih.2⟩
  | case4 sink bytes hnil cause others hnext next event hcause =>
    exact ⟨.refused (hsome hnil) hcause, Sink.replied_write hnext rfl⟩
  | case5 sink bytes hnil limit others hnext taken next event hzero =>
    have hwrite : sink.Replied [event] next := Sink.replied_write hnext rfl
    have hevent : event = .write bytes.length (.ok 0) :=
      congrArg (fun count => Event.write bytes.length (.ok count)) hzero
    rw [hevent] at hwrite ⊢
    exact ⟨.nothing (hsome hnil), hwrite⟩
  | case6 sink bytes hnil limit others hnext taken next event hsome result after events hrun ih =>
    rw [hrun] at ih
    have hwrite : sink.Replied [event] next := Sink.replied_write hnext rfl
    refine ⟨?_, hwrite.trans ih.2⟩
    -- what is taken and what is left of the piece are all of it
    have hlength : bytes.length = taken + (bytes.drop limit).length := by
      rw [List.length_drop]
      omega
    have hoffers := Offers.taken (Nat.pos_of_ne_zero hsome) ih.1
    rwa [← hlength] at hoffers

theorem Source.length_le_of_read {source rest : Source} {room : Nat} {piece : Bytes}
    (h : source.read room = (.ok piece, rest)) : piece.length ≤ room := by
  fun_cases Source.read room source with
  | case1 =>
    cases h
    exact Nat.zero_le _
  | case2 cause rest' => cases h
  | case3 bytes rest' hfits =>
    rw [Source.read, if_pos hfits] at h
    cases h
    exact hfits
  | case4 bytes rest' hlong =>
    rw [Source.read, if_neg hlong] at h
    cases h
    exact List.length_take_le room bytes

theorem transfer_calls (source : Source) (sink : Sink) (total : Nat) :
    Calls (transfer source sink total).2.2 ((transfer source sink total).1.map fun _ => ()) ∧
      sink.Replied (transfer source sink total).2.2 (transfer source sink total).2.1 := by
  -- the cases of one turn: the end, an interruption, a failed read, a stuck write, a piece that
  -- moved
  fun_induction transfer source sink total with
  | case1 source sink total rest hread => exact ⟨.ended, sink.replied_of_no_write rfl⟩
  | case2 source sink total cause rest hread event hcause result after events hrun ih =>
    rw [hrun] at ih
    exact ⟨.interrupted hcause ih.1, (sink.replied_of_no_write rfl).trans ih.2⟩
  | case3 source sink total cause rest hread event hcause =>
    exact ⟨.failed hcause, sink.replied_of_no_write rfl⟩
  | case4 source sink total byte bytes rest hread piece event cause after writes hwrites =>
    obtain ⟨offers, replied⟩ := writeAll_offers sink piece
    rw [hwrites] at offers replied
    exact ⟨.stuck (Nat.succ_pos _) (Source.length_le_of_read hread) offers,
      (sink.replied_of_no_write rfl).trans replied⟩
  | case5 source sink total byte bytes rest hread piece event middle writes hwrites result after
      events hrun ih =>
    obtain ⟨offers, replied⟩ := writeAll_offers sink piece
    rw [hwrites] at offers replied
    rw [hrun] at ih
    exact ⟨.moved (Nat.succ_pos _) (Source.length_le_of_read hread) offers ih.1,
      (sink.replied_of_no_write rfl).trans (replied.trans ih.2)⟩

/-- Reading and writing leave the flush as it was. -/
theorem flushFailure_transfer (source : Source) (sink : Sink) (total : Nat) :
    (transfer source sink total).2.1.flushFailure = sink.flushFailure := by
  have h := transfer_withFlush source sink sink.flushFailure total
  have hself : sink.withFlush sink.flushFailure = sink := rfl
  rw [hself] at h
  have hafter := congrArg (fun moved => moved.2.1.flushFailure) h
  exact hafter

/-- Behind the reads and writes the source is closed, the sink is flushed once and closed, and a
warning is given if the flush failed. -/
theorem copy_closes (source : Source) (sink : Sink) :
    (copy source sink).events =
        (transfer source sink 0).2.2 ++ [.closeSource, .flush sink.flush.1, .closeSink] ∧
      (copy source sink).warnings = sink.flushFailure.toList.map fun cause =>
        .warn ("Failed to close output after copying: " ++ cause.text) := by
  obtain ⟨result, after, events, h⟩ : ∃ result after events,
      transfer source sink 0 = (result, after, events) := ⟨_, _, _, rfl⟩
  have hafter : after.flushFailure = sink.flushFailure := by
    rw [← flushFailure_transfer source sink 0, h]
  simp only [copy, h, Sink.flush, hafter]
  cases sink.flushFailure <;> exact ⟨rfl, rfl⟩

/-- The calls of a copy, for whatever its source and its sink answer. It reads and writes until the
source has ended or a call has failed, and makes no such call afterwards; the answers are those of
the source and of the sink, in order. Then, whatever it came to, the source is closed, the sink is
flushed once and closed, and there is one warning if the flush failed and none if it did not. -/
theorem copy_calls (source : Source) (sink : Sink) :
    ∃ calls,
      (copy source sink).events = calls ++ [.closeSource, .flush sink.flush.1, .closeSink] ∧
      Calls calls ((copy source sink).result.map fun _ => ()) ∧
      (∀ call ∈ calls, call.IsMove) ∧
      (∀ call ∈ calls.dropLast, call.stops = false) ∧
      (let reads := calls.filterMap Event.read?
       reads = (source.answers reads.length).map (Except.map List.length)) ∧
      (let writes := calls.filterMap Event.write?
       writes.map Prod.snd = replies sink.receptions (writes.map Prod.fst)) ∧
      (copy source sink).warnings = sink.flushFailure.toList.map fun cause =>
        .warn ("Failed to close output after copying: " ++ cause.text) := by
  obtain ⟨copying, replied⟩ := transfer_calls source sink 0
  obtain ⟨answers, -, -, -, -, -, hanswers, -, hreads, -⟩ := transfer_moves source sink 0
  obtain ⟨hevents, hwarnings⟩ := copy_closes source sink
  refine ⟨(transfer source sink 0).2.2, hevents, copying, copying.moves, copying.stops, ?_,
    replied.answers, hwarnings⟩
  simp only [hreads, List.length_map, hanswers]

end Locator.Stream
