import StorageStack.RingOrder

/-!
# The frames of the write buffer

The write buffer of the buffer manager is a ring of frames, one for a sector, and an array has the
status of each frame.  A write event has its sectors in consecutive frames; frames in between whose
data has been overwritten by a later write are invalid and are passed over.  A pointer into the
buffer is the number of its frame, and a loop is given a number of rounds; a loop which reads the
array outside its bounds has no result.
-/

namespace StorageStack
namespace BufferManager

/-- The characters `'0'`, `'V'`, `'S'`, `'E'`, `'I'` and `'F'` of `wb_valid_array`. -/
inductive WbValid
  | empty
  | valid
  | sequential
  | sequentialEnd
  | invalid
  | flushed
deriving DecidableEq, Repr

abbrev WbValidArray := Nat → WbValid

inductive IoType
  | read
  | write
deriving DecidableEq, Repr

/-- An `event_queue_entry`; `buf` and `next` are null pointers when they are `none`. -/
structure EventQueueEntry where
  ioType : IoType
  valid : Bool
  sectorNb : Int
  length : Nat
  buf : Option Nat
  next : Option Nat
deriving DecidableEq, Repr

/-- Which frames of an event `UPDATE_WB_VALID_ARRAY_PARTIAL` changes. -/
inductive PartialMode
  | front
  | rear
deriving DecidableEq, Repr

/-- Whether a frame counts for the event to which it belongs. -/
def counts (array : WbValidArray) (frame : Nat) : Bool := array frame ≠ .invalid

/-! ## The code -/

/-- The loops that go on until `count` frames which are not invalid have been seen, with
`change` for each of them and the pointer wrapped at the end of the ring. -/
def frameLoop (frameNb : Nat) (change : WbValid → WbValid) :
    Nat → Nat → Nat → WbValidArray → Option (WbValidArray × Nat)
  | _, 0, pBuf, array => some (array, pBuf)
  | 0, _ + 1, _, _ => none
  | rounds + 1, count + 1, pBuf, array =>
      if frameNb ≤ pBuf then
        none
      else if array pBuf ≠ .invalid then
        frameLoop frameNb change rounds count (RingOrder.next frameNb pBuf)
          (Function.update array pBuf (change (array pBuf)))
      else
        frameLoop frameNb change rounds (count + 1) (RingOrder.next frameNb pBuf) array

/-- The first loop of mode 1, in which the pointer is not wrapped. -/
def skipLoop (frameNb : Nat) (array : WbValidArray) : Nat → Nat → Nat → Option Nat
  | _, 0, pBuf => some pBuf
  | 0, _ + 1, _ => none
  | rounds + 1, count + 1, pBuf =>
      if frameNb ≤ pBuf then
        none
      else if array pBuf ≠ .invalid then
        skipLoop frameNb array rounds count (pBuf + 1)
      else
        skipLoop frameNb array rounds (count + 1) (pBuf + 1)

def updateWbValidArray (frameNb rounds : Nat) (array : WbValidArray) (event : EventQueueEntry)
    (newValue : WbValid) : Option WbValidArray :=
  event.buf.bind fun pBuf =>
    (frameLoop frameNb (fun _ => newValue) rounds event.length pBuf array).map Prod.fst

def updateWbValidArrayPartial (frameNb rounds : Nat) (array : WbValidArray)
    (event : EventQueueEntry) (newValue : WbValid) (length : Nat) (mode : PartialMode) :
    Option WbValidArray :=
  event.buf.bind fun pBuf =>
    (match mode with
    | .front => some pBuf
    | .rear =>
        if event.length < length then none
        else skipLoop frameNb array rounds (event.length - length) pBuf).bind fun pBuf =>
      (frameLoop frameNb (fun _ => newValue) rounds length pBuf array).map Prod.fst

/-! ## What the loops do -/

/-- The array with a change at some frames. -/
def mark (array : WbValidArray) (frames : List Nat) (change : WbValid → WbValid) : WbValidArray :=
  fun frame => if frame ∈ frames then change (array frame) else array frame

variable {frameNb rounds place count found : Nat} {array : WbValidArray}

/-- A change at a frame which is not among the next ones leaves what counts of them. -/
theorem kept_update (newValue : WbValid) {later : Nat} (near : later < frameNb) :
    RingOrder.kept (counts (Function.update array (place % frameNb) newValue)) frameNb (place + 1)
        later =
      RingOrder.kept (counts array) frameNb (place + 1) later := by
  apply RingOrder.kept_congr
  intro offset offset_lt
  have different : (place + 1 + offset) % frameNb ≠ place % frameNb :=
    (RingOrder.mod_ne_mod (by omega) (by omega)).symm
  simp only [counts, Function.update_of_ne different]

@[simp] theorem mark_nil (change : WbValid → WbValid) : mark array [] change = array := by
  funext frame
  simp [mark]

theorem mark_cons (frame : Nat) (frames : List Nat) (change : WbValid → WbValid)
    (fresh : frame ∉ frames) :
    mark (Function.update array frame (change (array frame))) frames change =
      mark array (frame :: frames) change := by
  funext other
  rcases eq_or_ne other frame with rfl | different
  · simp [mark, fresh]
  · simp [mark, different]

theorem not_mem_kept {keep : Nat → Bool} (near : count < frameNb) :
    place % frameNb ∉ RingOrder.kept keep frameNb (place + 1) count := by
  intro member
  obtain ⟨-, offset, offset_lt, same⟩ := RingOrder.mem_kept.mp member
  exact absurd same.symm (RingOrder.mod_ne_mod (by omega) (by omega))

/-- The loop changes the frames which count up to the last one that it needs. -/
theorem frameLoop_spec (change : WbValid → WbValid) (positive : 0 < frameNb)
    (reaches : RingOrder.Reaches (counts array) frameNb place found count)
    (one_round : count ≤ frameNb) (enough : count ≤ rounds) :
    frameLoop frameNb change rounds found (place % frameNb) array =
      some (mark array (RingOrder.kept (counts array) frameNb place count) change,
        (place + count) % frameNb) := by
  induction count generalizing place found rounds array with
  | zero =>
      obtain rfl : 0 = found := reaches.1
      simp only [frameLoop, RingOrder.kept_zero, mark_nil, Nat.add_zero]
  | succ count ih =>
      obtain ⟨fewer, rfl⟩ := Nat.exists_eq_add_of_le' enough
      have inside := Nat.mod_lt place positive
      have next := RingOrder.next_mod positive place
      have sum : place + 1 + count = place + (count + 1) := by omega
      rw [RingOrder.kept_succ, ← sum]
      cases isKept : counts array (place % frameNb) with
      | true =>
          have live : array (place % frameNb) ≠ .invalid := by simpa [counts] using isKept
          obtain ⟨rest, rfl, length, least⟩ := reaches.of_kept isKept
          have unchanged : RingOrder.Reaches (counts (Function.update array (place % frameNb)
              (change (array (place % frameNb))))) frameNb (place + 1) rest count :=
            ⟨(congrArg List.length (kept_update _ (by omega))).trans length, fun fewer lt =>
              (congrArg List.length (kept_update _ (by omega))).trans_lt (least fewer lt)⟩
          have later := ih unchanged (by omega) (Nat.le_add_left count fewer)
          rw [← Nat.add_assoc, frameLoop, if_neg (by omega), if_pos live, next, later,
            kept_update _ (by omega), mark_cons _ _ _ (not_mem_kept (by omega)), if_pos rfl]
      | false =>
          have dead : ¬ array (place % frameNb) ≠ .invalid := by simpa [counts] using isKept
          have positive_found : 0 < found := reaches.2 0 (by omega)
          obtain ⟨before, rfl⟩ := Nat.exists_eq_add_one.mpr positive_found
          have later := ih (reaches.of_skipped isKept) (by omega) (Nat.le_add_left count fewer)
          rw [← Nat.add_assoc, frameLoop, if_neg (by omega), if_neg dead, next, later,
            if_neg (by decide)]

/-- The skipping loop stops behind the frames which it counts when these are in front of the end of
the ring. -/
theorem skipLoop_spec {start : Nat}
    (reaches : RingOrder.Reaches (counts array) frameNb start found count)
    (inside : start + count ≤ frameNb) (enough : count ≤ rounds) :
    skipLoop frameNb array rounds found start = some (start + count) := by
  induction count generalizing start found rounds with
  | zero =>
      obtain rfl : 0 = found := reaches.1
      rw [skipLoop, Nat.add_zero]
  | succ count ih =>
      obtain ⟨fewer, rfl⟩ := Nat.exists_eq_add_of_le' enough
      have at_start : start % frameNb = start := Nat.mod_eq_of_lt (by omega)
      have sum : start + 1 + count = start + (count + 1) := by omega
      cases isKept : counts array (start % frameNb) with
      | true =>
          have live : array start ≠ .invalid := by simpa [counts, at_start] using isKept
          obtain ⟨rest, rfl, later⟩ := reaches.of_kept isKept
          rw [← Nat.add_assoc, skipLoop, if_neg (by omega), if_pos live,
            ih later (by omega) (Nat.le_add_left count fewer), sum]
      | false =>
          have dead : ¬ array start ≠ .invalid := by simpa [counts, at_start] using isKept
          have positive_found : 0 < found := reaches.2 0 (by omega)
          obtain ⟨before, rfl⟩ := Nat.exists_eq_add_one.mpr positive_found
          rw [← Nat.add_assoc, skipLoop, if_neg (by omega), if_neg dead,
            ih (reaches.of_skipped isKept) (by omega) (Nat.le_add_left count fewer), sum]

/-- Where the skipping loop stops it has passed as many frames as it counts, and not the end of the
ring. -/
theorem skipLoop_eq_some {start stop : Nat} (start_le : start ≤ frameNb)
    (stops : skipLoop frameNb array rounds found start = some stop) :
    ∃ passed, stop = start + passed ∧ stop ≤ frameNb ∧
      (RingOrder.kept (counts array) frameNb start passed).length = found := by
  induction rounds generalizing start found with
  | zero =>
      cases found with
      | zero =>
          obtain rfl := Option.some.inj stops
          exact ⟨0, rfl, start_le, rfl⟩
      | succ found => simp [skipLoop] at stops
  | succ rounds ih =>
      cases found with
      | zero =>
          obtain rfl := Option.some.inj stops
          exact ⟨0, rfl, start_le, rfl⟩
      | succ found =>
          rw [skipLoop] at stops
          split_ifs at stops with outside live
          · have at_start : start % frameNb = start := Nat.mod_eq_of_lt (by omega)
            obtain ⟨passed, rfl, stop_le, length⟩ := ih (by omega) stops
            refine ⟨passed + 1, by omega, stop_le, ?_⟩
            rw [RingOrder.kept_succ, if_pos (by simpa [counts, at_start] using live),
              List.length_cons, length]
          · have at_start : start % frameNb = start := Nat.mod_eq_of_lt (by omega)
            obtain ⟨passed, rfl, stop_le, length⟩ := ih (by omega) stops
            refine ⟨passed + 1, by omega, stop_le, ?_⟩
            rw [RingOrder.kept_succ, if_neg (by simpa [counts, at_start] using live), length]

/-! ## Partial invalidation -/

/-- The frames which a write event with `length` sectors has from the frame `start` on. -/
def eventFrames (frameNb : Nat) (array : WbValidArray) (start length : Nat) : List Nat :=
  (RingOrder.kept (counts array) frameNb start frameNb).take length

/-- The first or the last `length` frames of an event. -/
def partFrames (frameNb : Nat) (array : WbValidArray) (event : EventQueueEntry) (start length : Nat) :
    PartialMode → List Nat
  | .front => (eventFrames frameNb array start event.length).take length
  | .rear => (eventFrames frameNb array start event.length).drop (event.length - length)

/-- The loops end, inside the array, and set the frames of the part to the new value and no other
frame. -/
def ChangesPart (frameNb : Nat) (array : WbValidArray) (event : EventQueueEntry) (start : Nat)
    (newValue : WbValid) (length : Nat) (mode : PartialMode) : Prop :=
  ∃ rounds, updateWbValidArrayPartial frameNb rounds array event newValue length mode =
    some (mark array (partFrames frameNb array event start length mode) fun _ => newValue)

/-- The frames which mode 1 skips are in front of the end of the ring, and if there are frames to
change the last one of the ring is not skipped. -/
def SkipsWithinRing (frameNb : Nat) (array : WbValidArray) (event : EventQueueEntry)
    (start length : Nat) : Prop :=
  event.length - length ≤ (RingOrder.kept (counts array) frameNb start
    (frameNb - start - if length = 0 then 0 else 1)).length

section Partial

variable {event : EventQueueEntry} {start length : Nat} {newValue : WbValid}

/-- The frames behind the ones that have been skipped are changed. -/
theorem frameLoop_following (change : WbValid → WbValid) {skipped : Nat}
    (reaches : RingOrder.Reaches (counts array) frameNb start skipped count)
    (inside : start + count < frameNb)
    (frames : skipped + length ≤ (RingOrder.kept (counts array) frameNb start frameNb).length)
    (enough : frameNb ≤ rounds) :
    (frameLoop frameNb change rounds length (start + count) array).map Prod.fst =
      some (mark array (((RingOrder.kept (counts array) frameNb start frameNb).take
        (skipped + length)).drop skipped) change) := by
  obtain ⟨rest, rest_le, next, frames_eq⟩ := reaches.following (by omega) frames
  have at_stop : (start + count) % frameNb = start + count := Nat.mod_eq_of_lt inside
  have loop := frameLoop_spec change (by omega) next (by omega)
    (show rest ≤ rounds by omega)
  rw [at_stop] at loop
  rw [loop, Option.map_some, frames_eq]

theorem changesPart_front (buf : event.buf = some start) (start_lt : start < frameNb)
    (frames : event.length ≤ (RingOrder.kept (counts array) frameNb start frameNb).length)
    (length_le : length ≤ event.length) :
    ChangesPart frameNb array event start newValue length .front := by
  refine ⟨frameNb, ?_⟩
  have none_skipped : RingOrder.Reaches (counts array) frameNb start 0 0 :=
    ⟨rfl, fun fewer lt => absurd lt (Nat.not_lt_zero _)⟩
  have loop := frameLoop_following (fun _ => newValue) none_skipped start_lt
    (show 0 + length ≤ _ by omega) le_rfl
  rw [Nat.add_zero, Nat.zero_add, List.drop_zero] at loop
  rw [updateWbValidArrayPartial, buf, Option.bind_some, Option.bind_some, loop, partFrames,
    eventFrames, List.take_take, Nat.min_eq_left length_le]

theorem changesPart_rear (buf : event.buf = some start) (start_lt : start < frameNb)
    (frames : event.length ≤ (RingOrder.kept (counts array) frameNb start frameNb).length)
    (length_le : length ≤ event.length)
    (within : SkipsWithinRing frameNb array event start length) :
    ChangesPart frameNb array event start newValue length .rear := by
  obtain ⟨count, count_le, reaches⟩ := RingOrder.exists_reaches within
  have skip := skipLoop_spec reaches (by omega) (show count ≤ frameNb by omega)
  refine ⟨frameNb, ?_⟩
  rw [updateWbValidArrayPartial, buf, Option.bind_some]
  dsimp only
  rw [if_neg (not_lt.mpr length_le), skip, Option.bind_some]
  rcases Nat.eq_zero_or_pos length with rfl | positive
  · rw [frameLoop, Option.map_some, partFrames, Nat.sub_zero, List.drop_of_length_le, mark_nil]
    exact List.length_take_le _ _
  · rw [if_neg (by omega)] at count_le
    have whole : event.length - length + length = event.length := Nat.sub_add_cancel length_le
    rw [frameLoop_following _ reaches (by omega) (whole.trans_le frames) le_rfl, whole,
      partFrames, eventFrames]

/-- A loop that starts behind the end of the ring has nothing to do. -/
theorem frameLoop_outside {change : WbValid → WbValid} {pBuf : Nat} {result : WbValidArray × Nat}
    (outside : frameNb ≤ pBuf)
    (ends : frameLoop frameNb change rounds length pBuf array = some result) : length = 0 := by
  cases length with
  | zero => rfl
  | succ length =>
      cases rounds with
      | zero => simp [frameLoop] at ends
      | succ rounds => simp [frameLoop, outside] at ends

/-- Mode 1 ends only if it does not skip beyond the end of the ring. -/
theorem skipsWithinRing_of_some {result : WbValidArray} (buf : event.buf = some start)
    (start_lt : start < frameNb) (length_le : length ≤ event.length)
    (ends : updateWbValidArrayPartial frameNb rounds array event newValue length .rear =
      some result) :
    SkipsWithinRing frameNb array event start length := by
  rw [updateWbValidArrayPartial, buf, Option.bind_some] at ends
  dsimp only at ends
  obtain ⟨stop, skip, marks⟩ := Option.bind_eq_some_iff.mp ends
  rw [if_neg (not_lt.mpr length_le)] at skip
  obtain ⟨final, loop, -⟩ := Option.map_eq_some_iff.mp marks
  obtain ⟨passed, rfl, stop_le, skipped⟩ := skipLoop_eq_some start_lt.le skip
  rw [SkipsWithinRing, ← skipped]
  apply RingOrder.length_kept_mono
  split_ifs with none
  · omega
  · have inside : ¬ frameNb ≤ start + passed := fun outside => none (frameLoop_outside outside loop)
    omega

/-- Mode 0 changes exactly the first frames of an event; mode 1 changes exactly the last ones if and
only if the frames in front of them are skipped without a wrap. -/
theorem changesPart_iff (mode : PartialMode) (buf : event.buf = some start)
    (start_lt : start < frameNb)
    (frames : event.length ≤ (RingOrder.kept (counts array) frameNb start frameNb).length)
    (length_le : length ≤ event.length) :
    ChangesPart frameNb array event start newValue length mode ↔
      mode = .front ∨ SkipsWithinRing frameNb array event start length := by
  cases mode with
  | front => simp [changesPart_front buf start_lt frames length_le]
  | rear =>
      constructor
      · rintro ⟨rounds, ends⟩
        exact .inr (skipsWithinRing_of_some buf start_lt length_le ends)
      · rintro (front | within)
        · nomatch front
        · exact changesPart_rear buf start_lt frames length_le within

/-- An event with the frames 3, 0 and 1 of a ring of four, of which the last is to be changed. -/
def wrappedEvent : EventQueueEntry := ⟨.write, true, 0, 3, some 3, none⟩

theorem changesPart_wrapped_front :
    ChangesPart 4 (fun _ => .valid) wrappedEvent 3 .invalid 1 .front :=
  (changesPart_iff .front rfl (by decide) (by decide) (by decide)).mpr (.inl rfl)

theorem not_changesPart_wrapped_rear :
    ¬ ChangesPart 4 (fun _ => .valid) wrappedEvent 3 .invalid 1 .rear := by
  rintro ⟨rounds, ends⟩
  exact absurd (skipsWithinRing_of_some rfl (by decide) (by decide) ends)
    (by rw [SkipsWithinRing]; decide)

end Partial

end BufferManager
end StorageStack
