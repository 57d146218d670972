import StorageStack.F2fs.SitRoundTrip

/-!
# Discards

What a checkpoint discards: the small runs which `add_discard_addrs` finds while the entries of the
segment information table are flushed, the empty segments of a trim, and the prefree segments.
`flush_sit_entries` uses `trim_start` of its caller for the first of these tasks and does not restore
it, so that a trim begins at the last segment it has already looked at.
-/

namespace StorageStack
namespace F2fs

variable {sbi : Sbi} {ready : Set CursegType} {start state next : State} {cpc : CpControl}

/-! ## Candidates -/

/-- The block belongs to the discard. -/
def DiscardEntry.Covers (entry : DiscardEntry) (blkaddr : Nat) : Prop :=
  entry.blkaddr ≤ blkaddr ∧ blkaddr < entry.blkaddr + entry.len

/-- The blocks in the list, with repetition. -/
def totalLen (entries : List DiscardEntry) : Nat := (entries.map DiscardEntry.len).sum

theorem totalLen_append (left right : List DiscardEntry) :
    totalLen (left ++ right) = totalLen left + totalLen right := by
  simp [totalLen]

/-- The whole segment. -/
def wholeSegment (sbi : Sbi) (segno : Nat) : DiscardEntry :=
  ⟨sbi.startBlock segno, sbi.blocksPerSeg⟩

/-- A segment without valid blocks which is not prefree. -/
def State.Vacant (state : State) (segno : Nat) : Prop :=
  (state.sit.sentries segno).validBlocks = 0 ∧ state.dirty.dirtySegmap .pre segno = false

instance (state : State) (segno : Nat) : Decidable (state.Vacant segno) :=
  inferInstanceAs (Decidable (_ ∧ _))

/-- The blocks that were valid in the last checkpoint and no longer are. -/
def SegEntry.discardMap (se : SegEntry) : BitMap := fun offset =>
  (se.curValidMap offset ^^ se.ckptValidMap offset) && se.ckptValidMap offset

/-- The discard of a run of blocks. -/
def runDiscard (sbi : Sbi) (segno : Nat) (run : Nat × Nat) : DiscardEntry :=
  ⟨sbi.startBlock segno + run.1, run.2 - run.1⟩

/-- The runs of at least `minlen` such blocks. -/
def smallDiscards (sbi : Sbi) (minlen segno : Nat) (runs : List (Nat × Nat)) :
    List DiscardEntry :=
  (runs.filter fun run => minlen ≤ run.2 - run.1).map (runDiscard sbi segno)

theorem smallDiscards_cons (minlen segno : Nat) (run : Nat × Nat) (runs : List (Nat × Nat)) :
    smallDiscards sbi minlen segno (run :: runs) =
      if minlen ≤ run.2 - run.1 then
        runDiscard sbi segno run :: smallDiscards sbi minlen segno runs
      else smallDiscards sbi minlen segno runs := by
  simp only [smallDiscards, List.filter_cons, decide_eq_true_eq]
  split <;> rfl

/-- What `add_discard_addrs` queues for a segment when nothing limits it. -/
def candidates (sbi : Sbi) (cpc : CpControl) (state : State) (segno : Nat) : List DiscardEntry :=
  let se := state.sit.sentries segno
  if se.validBlocks = 0 ∨ se.validBlocks = sbi.blocksPerSeg then
    if cpc.reason = .discard ∧ state.Vacant segno then [wholeSegment sbi segno] else []
  else smallDiscards sbi cpc.trimMinlen segno (revRuns se.discardMap sbi.blocksPerSeg 0)

/-- Some discards have been queued. -/
structure DiscardsAdded (added : List DiscardEntry) (queue queued : State × CpControl) :
    Prop where
  state : queued.1 = { queue.1 with
    discardList := queue.1.discardList ++ added
    nrDiscards := queue.1.nrDiscards + totalLen added }
  cpc : queued.2 = { queue.2 with trimmed := queued.2.trimmed }

theorem DiscardsAdded.nil (queue : State × CpControl) : DiscardsAdded [] queue queue := by
  refine ⟨?_, rfl⟩
  simp [totalLen]

theorem DiscardsAdded.append {left right : List DiscardEntry}
    {queue middle queued : State × CpControl} (first : DiscardsAdded left queue middle)
    (second : DiscardsAdded right middle queued) : DiscardsAdded (left ++ right) queue queued where
  state := by
    rw [second.state, first.state, totalLen_append]
    simp only [List.append_assoc, Nat.add_assoc]
  cpc := by rw [second.cpc, first.cpc]

/-- A run is queued, or it is too short, or enough is queued. -/
theorem queueDiscard_cases (force : Bool) (segno : Nat) (queue : State × CpControl)
    (run : Nat × Nat) :
    (force = true → ¬ queue.2.trimMinlen ≤ run.2 - run.1) ∧
        queueDiscard sbi force segno queue run = queue ∨
      queue.2.trimMinlen ≤ run.2 - run.1 ∧
        DiscardsAdded [runDiscard sbi segno run] queue (queueDiscard sbi force segno queue run) := by
  simp only [queueDiscard]
  split
  · next skipped =>
      refine .inl ⟨fun forces => ?_, rfl⟩
      simp only [forces, true_or, not_true, false_or] at skipped
      omega
  · next queues => exact .inr ⟨by omega, rfl, rfl⟩

theorem foldl_queueDiscard_added {minlen : Nat} (force : Bool) (segno : Nat)
    (runs : List (Nat × Nat)) (queue : State × CpControl) (limit : queue.2.trimMinlen = minlen) :
    ∃ added, DiscardsAdded added queue (runs.foldl (queueDiscard sbi force segno) queue) ∧
      added.Sublist (smallDiscards sbi minlen segno runs) ∧
      (force = true → added = smallDiscards sbi minlen segno runs) := by
  induction runs generalizing queue with
  | nil => exact ⟨[], .nil queue, List.nil_sublist _, fun _ => rfl⟩
  | cons run runs ih =>
      rw [List.foldl_cons]
      obtain ⟨short, same⟩ | ⟨long, first⟩ := @queueDiscard_cases sbi force segno queue run
      · rw [same]
        obtain ⟨added, adds, sub, forced⟩ := ih queue limit
        rw [limit] at short
        rw [smallDiscards_cons]
        refine ⟨added, adds, ?_, fun forces => ?_⟩
        · split
          · exact sub.cons _
          · exact sub
        · rw [if_neg (short forces)]
          exact forced forces
      · obtain ⟨added, adds, sub, forced⟩ :=
          ih _ ((congrArg CpControl.trimMinlen first.cpc).trans limit)
        rw [smallDiscards_cons, if_pos (limit ▸ long)]
        exact ⟨[runDiscard sbi segno run] ++ added, first.append adds, sub.cons_cons _,
          fun forces => by rw [forced forces]; rfl⟩

/-- `add_discard_addrs` queues candidates of its segment, and in a trim all of them. -/
theorem addDiscardAddrs_added {queued : State × CpControl}
    (adds : addDiscardAddrs sbi (state, cpc) = some queued) :
    ∃ added, DiscardsAdded added (state, cpc) queued ∧
      added.Sublist (candidates sbi cpc state cpc.trimStart) ∧
      (cpc.reason = .discard → cpc.trimStart < sbi.mainSegments ∧
        added = candidates sbi cpc state cpc.trimStart) := by
  simp only [addDiscardAddrs] at adds
  split at adds
  · next off =>
      obtain rfl := Option.some.inj adds
      refine ⟨[], .nil _, List.nil_sublist _, fun forces => ?_⟩
      exact absurd (decide_eq_true forces) off.1
  · split at adds
    · cases adds
    · next inside =>
      have inMain : cpc.trimStart < sbi.mainSegments := by omega
      simp only [candidates]
      split at adds
      · next empty =>
          simp only [decide_eq_true_eq] at empty
          rw [if_pos (.inl empty.2)]
          split at adds
          · next pre =>
              obtain rfl := Option.some.inj adds
              have occupied : ¬ (cpc.reason = .discard ∧ state.Vacant cpc.trimStart) := by
                rintro ⟨_, _, notPre⟩
                exact absurd (pre.symm.trans notPre) (by simp)
              rw [if_neg occupied]
              exact ⟨[], ⟨by simp [totalLen], rfl⟩, List.nil_sublist _, fun _ => ⟨inMain, rfl⟩⟩
          · next pre =>
              obtain rfl := Option.some.inj adds
              rw [if_pos ⟨empty.1, empty.2, by simpa using pre⟩]
              exact ⟨[wholeSegment sbi cpc.trimStart], ⟨rfl, rfl⟩, .refl _, fun _ => ⟨inMain, rfl⟩⟩
      · next notEmpty =>
          split at adds
          · next extreme =>
              obtain rfl := Option.some.inj adds
              rw [if_pos extreme]
              refine ⟨[], .nil _, List.nil_sublist _, fun forces => ⟨inMain, ?_⟩⟩
              rw [if_neg]
              rintro ⟨_, empty, _⟩
              exact notEmpty ⟨by simpa using forces, empty⟩
          · next partly =>
              rw [if_neg partly, ← Option.some.inj adds]
              obtain ⟨added, queues, sub, forced⟩ := @foldl_queueDiscard_added sbi _
                (decide (cpc.reason = .discard)) cpc.trimStart
                (revRuns (state.sit.sentries cpc.trimStart).discardMap sbi.blocksPerSeg 0) (state, cpc) rfl
              exact ⟨added, queues, sub, fun forces => ⟨inMain, forced (by simpa using forces)⟩⟩

theorem candidates_congr {other : CpControl} {segno : Nat}
    (sentries : next.sit.sentries segno = state.sit.sentries segno)
    (dirty : next.dirty = state.dirty) (reason : other.reason = cpc.reason)
    (minlen : other.trimMinlen = cpc.trimMinlen) :
    candidates sbi other next segno = candidates sbi cpc state segno := by
  have vacant : next.Vacant segno ↔ state.Vacant segno := by
    simp only [State.Vacant, sentries, dirty]
  simp only [candidates, sentries, reason, minlen, vacant]

/-! ## While entries are flushed -/

/-- The segments whose entries are flushed while fewer than `max_discards` blocks are queued. -/
def roomySegnos (sbi : Sbi) (queued : Nat → List DiscardEntry) (segnos : List Nat) : List Nat :=
  segnos.foldl (fun taken segno =>
    if totalLen (taken.flatMap queued) < sbi.maxDiscards then taken ++ [segno] else taken) []

theorem roomySegnos_append (queued : Nat → List DiscardEntry) (segnos : List Nat) (segno : Nat) :
    roomySegnos sbi queued (segnos ++ [segno]) =
      if totalLen ((roomySegnos sbi queued segnos).flatMap queued) < sbi.maxDiscards then
        roomySegnos sbi queued segnos ++ [segno]
      else roomySegnos sbi queued segnos := by
  rw [roomySegnos, List.foldl_append]
  rfl

theorem roomySegnos_sublist (queued : Nat → List DiscardEntry) (segnos : List Nat) :
    (roomySegnos sbi queued segnos).Sublist segnos := by
  induction segnos using List.reverseRecOn with
  | nil => exact .refl _
  | append_singleton segnos segno ih =>
      rw [roomySegnos_append]
      split
      · exact ih.append (.refl _)
      · exact ih.trans (List.sublist_append_left _ _)

/-- The entries of the segments `done` have been flushed, since `start`. -/
structure Collecting (sbi : Sbi) (cpc : CpControl) (start : State) (done : List Nat)
    (now : State × CpControl) : Prop where
  untouched : ∀ segno ∉ done, now.1.sit.sentries segno = start.sit.sentries segno
  cur : ∀ segno,
    (now.1.sit.sentries segno).curValidMap = (start.sit.sentries segno).curValidMap
  valid : ∀ segno,
    (now.1.sit.sentries segno).validBlocks = (start.sit.sentries segno).validBlocks
  bitmap : ∀ segno, now.1.sit.dirtySentriesBitmap segno = true ↔
    start.sit.dirtySentriesBitmap segno = true ∧ segno ∉ done
  dirty : now.1.dirty = start.dirty
  issued : now.1.issuedDiscards = start.issuedDiscards
  reason : now.2.reason = cpc.reason
  trimEnd : now.2.trimEnd = cpc.trimEnd
  minlen : now.2.trimMinlen = cpc.trimMinlen
  queued : ∃ added : Nat → List DiscardEntry,
    (∀ segno, (added segno).Sublist (candidates sbi cpc start segno)) ∧
      now.1.discardList = done.flatMap added
  total : now.1.nrDiscards = totalLen now.1.discardList
  forced : cpc.reason = .discard →
    now.1.discardList = (roomySegnos sbi (candidates sbi cpc start) done).flatMap
        (candidates sbi cpc start) ∧
      now.2.trimStart =
        (roomySegnos sbi (candidates sbi cpc start) done).getLast?.getD cpc.trimStart

theorem writeRawSit_frame {target : SitTarget} {segno : Nat}
    (wrote : writeRawSit target segno state = some next) :
    next = { state with curseg := next.curseg, sitPages := next.sitPages } := by
  cases target with
  | journal =>
      obtain ⟨⟨sum, index⟩, _, rfl⟩ := Option.map_eq_some_iff.mp wrote
      rfl
  | page blkaddr =>
      obtain rfl := Option.some.inj wrote
      rfl

/-- The queue of a step, before the entry is written. -/
structure CollectingStep (sbi : Sbi) (segno : Nat) (now queued : State × CpControl) : Prop where
  state : queued.1 = { now.1 with
    discardList := queued.1.discardList, nrDiscards := queued.1.nrDiscards }
  reason : queued.2.reason = now.2.reason
  trimEnd : queued.2.trimEnd = now.2.trimEnd
  minlen : queued.2.trimMinlen = now.2.trimMinlen
  list : ∃ added, added.Sublist (candidates sbi now.2 now.1 segno) ∧
    queued.1.discardList = now.1.discardList ++ added ∧
    queued.1.nrDiscards = now.1.nrDiscards + totalLen added
  forced : now.2.reason = .discard →
    if now.1.nrDiscards < sbi.maxDiscards then
      queued.1.discardList = now.1.discardList ++ candidates sbi now.2 now.1 segno ∧
        queued.2.trimStart = segno
    else
      queued.1.discardList = now.1.discardList ∧ queued.2.trimStart = now.2.trimStart

theorem collectingStep_of_queue {segno : Nat} {now queued : State × CpControl}
    (queue : (if now.1.nrDiscards < sbi.maxDiscards then
        addDiscardAddrs sbi (now.1, { now.2 with trimStart := segno })
      else some (now.1, now.2)) = some queued) : CollectingStep sbi segno now queued := by
  split at queue
  · next room =>
      obtain ⟨added, ⟨state_eq, cpc_eq⟩, sub, forced⟩ := addDiscardAddrs_added queue
      have same : candidates sbi { now.2 with trimStart := segno } now.1 segno =
          candidates sbi now.2 now.1 segno := candidates_congr rfl rfl rfl rfl
      simp only [same] at sub forced
      refine
        { state := by rw [state_eq], reason := by rw [cpc_eq], trimEnd := by rw [cpc_eq]
          minlen := by rw [cpc_eq], list := ⟨added, sub, by rw [state_eq], by rw [state_eq]⟩
          forced := fun forces => ?_ }
      rw [if_pos room]
      exact ⟨by rw [state_eq, (forced forces).2], by rw [cpc_eq]⟩
  · next full =>
      obtain rfl := Option.some.inj queue
      refine
        { state := rfl, reason := rfl, trimEnd := rfl, minlen := rfl
          list := ⟨[], List.nil_sublist _, (List.append_nil _).symm, rfl⟩
          forced := fun _ => ?_ }
      rw [if_neg full]
      exact ⟨rfl, rfl⟩

/-- Flushing one more entry. -/
theorem Collecting.flush {done : List Nat} {now flushed : State × CpControl} {target : SitTarget}
    {segno : Nat} (collecting : Collecting sbi cpc start done now) (fresh : segno ∉ done)
    (flush : flushSitEntry sbi target now segno = some flushed) :
    Collecting sbi cpc start (done ++ [segno]) flushed := by
  simp only [flushSitEntry, Option.bind_eq_some_iff, Option.map_eq_some_iff] at flush
  obtain ⟨queued, queue, written, write, rfl⟩ := flush
  have step := collectingStep_of_queue queue
  have frame := writeRawSit_frame write
  have sit : written.sit = now.1.sit := by rw [frame, step.state]
  have same : candidates sbi now.2 now.1 segno = candidates sbi cpc start segno :=
    candidates_congr (collecting.untouched segno fresh) collecting.dirty collecting.reason
      collecting.minlen
  have cleaned : ∀ other,
      ((markSitEntryClean segno now.1.sit).sentries other).curValidMap =
          (now.1.sit.sentries other).curValidMap ∧
        ((markSitEntryClean segno now.1.sit).sentries other).validBlocks =
          (now.1.sit.sentries other).validBlocks := by
    intro other
    by_cases own : other = segno
    · subst own
      simp [markSitEntryClean, SegEntry.checkpointed]
    · simp [markSitEntryClean, own]
  have list : written.discardList = queued.1.discardList := by rw [frame]
  refine
    { untouched := fun other away => ?_
      cur := fun other => ?_
      valid := fun other => ?_
      bitmap := fun other => ?_
      dirty := by rw [frame, step.state]; exact collecting.dirty
      issued := by rw [frame, step.state]; exact collecting.issued
      reason := step.reason.trans collecting.reason
      trimEnd := step.trimEnd.trans collecting.trimEnd
      minlen := step.minlen.trans collecting.minlen
      queued := ?_, total := ?_, forced := fun forces => ?_ }
  · rw [List.mem_append, List.mem_singleton, not_or] at away
    simp only [sit, markSitEntryClean, Function.update_of_ne away.2]
    exact collecting.untouched other away.1
  · simp only [sit]
    exact (cleaned other).1.trans (collecting.cur other)
  · simp only [sit]
    exact (cleaned other).2.trans (collecting.valid other)
  · simp only [sit, markSitEntryClean, BitMap.clear_apply, List.mem_append, List.mem_singleton]
    split
    · next own => simp [own]
    · next other_ne => simp [other_ne, collecting.bitmap]
  · obtain ⟨added, subs, earlier⟩ := collecting.queued
    obtain ⟨more, sub, later, _⟩ := step.list
    rw [same] at sub
    refine ⟨Function.update added segno more, fun other => ?_, ?_⟩
    · by_cases own : other = segno
      · subst own
        rw [Function.update_self]
        exact sub
      · rw [Function.update_of_ne own]
        exact subs other
    · have unchanged : done.flatMap (Function.update added segno more) = done.flatMap added := by
        refine List.flatMap_congr fun other mem => Function.update_of_ne ?_ _ _
        rintro rfl
        exact fresh mem
      simp only [list, later, earlier, List.flatMap_append, unchanged, List.flatMap_singleton,
        Function.update_self]
  · obtain ⟨more, _, later, count⟩ := step.list
    have number : written.nrDiscards = queued.1.nrDiscards := by rw [frame]
    simp only [list, number, count, later, collecting.total, totalLen_append]
  · obtain ⟨earlier, trimStart⟩ := collecting.forced forces
    have later := step.forced (collecting.reason.trans forces)
    rw [same] at later
    rw [roomySegnos_append, ← earlier, ← collecting.total]
    simp only [list]
    split at later
    · next room =>
        rw [if_pos room, List.flatMap_append, ← earlier, List.getLast?_append]
        exact ⟨by rw [later.1]; simp, by rw [later.2]; rfl⟩
    · next full =>
        rw [if_neg full, ← earlier]
        exact ⟨later.1, later.2.trans trimStart⟩

theorem Collecting.flushSegnos {done segnos : List Nat} {now flushed : State × CpControl}
    {target : SitTarget} (collecting : Collecting sbi cpc start done now)
    (fresh : ∀ segno ∈ segnos, segno ∉ done) (distinct : segnos.Nodup)
    (flush : segnos.foldlM (flushSitEntry sbi target) now = some flushed) :
    Collecting sbi cpc start (done ++ segnos) flushed := by
  induction segnos generalizing done now with
  | nil =>
      obtain rfl : now = flushed := by simpa using flush
      rw [List.append_nil]
      exact collecting
  | cons segno segnos ih =>
      rw [List.foldlM_cons, Option.bind_eq_bind, Option.bind_eq_some_iff] at flush
      obtain ⟨next, first, later⟩ := flush
      obtain ⟨absent, distinct⟩ := List.nodup_cons.mp distinct
      rw [List.append_cons]
      refine ih (collecting.flush (fresh segno List.mem_cons_self) first) (fun other mem => ?_)
        distinct later
      rw [List.mem_append, List.mem_singleton, not_or]
      refine ⟨fresh other (List.mem_cons_of_mem _ mem), ?_⟩
      rintro rfl
      exact absent mem

/-- A step of the flush which queues nothing and keeps the entries. -/
theorem Collecting.congr {done : List Nat} {now : State × CpControl}
    (collecting : Collecting sbi cpc start done now) (sentries : next.sit.sentries = now.1.sit.sentries)
    (bitmap : next.sit.dirtySentriesBitmap = now.1.sit.dirtySentriesBitmap)
    (dirty : next.dirty = now.1.dirty) (issued : next.issuedDiscards = now.1.issuedDiscards)
    (list : next.discardList = now.1.discardList) (number : next.nrDiscards = now.1.nrDiscards) :
    Collecting sbi cpc start done (next, now.2) where
  untouched := by simp only [sentries]; exact collecting.untouched
  cur := by simp only [sentries]; exact collecting.cur
  valid := by simp only [sentries]; exact collecting.valid
  bitmap := by simp only [bitmap]; exact collecting.bitmap
  dirty := dirty.trans collecting.dirty
  issued := issued.trans collecting.issued
  reason := collecting.reason
  trimEnd := collecting.trimEnd
  minlen := collecting.minlen
  queued := by simp only [list]; exact collecting.queued
  total := by simp only [list, number]; exact collecting.total
  forced := by simp only [list]; exact collecting.forced

theorem bugOn_frame (site : BugSite) (condition : Bool) (state : State) :
    bugOn site condition state = { state with
      needFsck := (bugOn site condition state).needFsck
      warnings := (bugOn site condition state).warnings } := by
  unfold bugOn
  split <;> rfl

theorem openSitTarget_frame (toJournal : Bool) (segno : Nat) (state : State) :
    (openSitTarget sbi toJournal segno state).1 = { state with
      sitPages := (openSitTarget sbi toJournal segno state).1.sitPages
      sit := { state.sit with
        sitBitmap := (openSitTarget sbi toJournal segno state).1.sit.sitBitmap } } := by
  cases toJournal <;> rfl

theorem Collecting.opened {done : List Nat} {now : State × CpControl}
    (collecting : Collecting sbi cpc start done now) (toJournal : Bool) (segno : Nat) :
    Collecting sbi cpc start done ((openSitTarget sbi toJournal segno now.1).1, now.2) := by
  have frame := @openSitTarget_frame sbi toJournal segno now.1
  apply collecting.congr <;> rw [frame]

/-- The entries which the loop over a set finds in the bit map. -/
theorem Collecting.visited {done : List Nat} {now : State × CpControl} {ses : SitEntrySet}
    (collecting : Collecting sbi cpc start done now)
    (aligned : ∃ segno, ses.startSegno = startSegno segno)
    (fresh : ∀ segno ∈ done, startSegno segno ≠ ses.startSegno) :
    (now.1.sit.dirtySentriesBitmap.setBits
      (min (ses.startSegno + sitEntryPerBlock) sbi.mainSegments)).filter
        (fun segno => decide (ses.startSegno ≤ segno)) =
      setEntries sbi start.sit.dirtySentriesBitmap ses.startSegno := by
  refine setEntries_congr aligned fun segno _ own => ?_
  rw [Bool.eq_iff_iff, collecting.bitmap]
  exact and_iff_left fun mem => fresh segno mem own

/-- Flushing the entries of one more set. -/
theorem Collecting.flushSet {done : List Nat} {flushing flushed : Flushing} {ses : SitEntrySet}
    (collecting : Collecting sbi cpc start done (flushing.state, flushing.cpc))
    (aligned : ∃ segno, ses.startSegno = startSegno segno)
    (fresh : ∀ segno ∈ done, startSegno segno ≠ ses.startSegno)
    (flush : flushSitEntrySet sbi flushing ses = some flushed) :
    Collecting sbi cpc start
      (done ++ setEntries sbi start.sit.dirtySentriesBitmap ses.startSegno)
      (flushed.state, flushed.cpc) := by
  simp only [flushSitEntrySet, Option.map_eq_some_iff] at flush
  obtain ⟨stored, loop, rfl⟩ := flush
  have opened := collecting.opened (flushing.toJournal && hasCursumSpace
    (flushing.state.curseg .coldData).sumBlk ses.entryCnt) ses.startSegno
  rw [opened.visited aligned fresh] at loop ⊢
  have entries := opened.flushSegnos (fun segno mem old =>
    fresh segno old ((mem_setEntries aligned).mp mem).2.2) (nodup_setEntries _) loop
  apply entries.congr <;> rw [bugOn_frame]

/-- The order in which the sets are flushed. -/
theorem Collecting.flushSets {done : List Nat} {flushing flushed : Flushing}
    {sets : List SitEntrySet}
    (collecting : Collecting sbi cpc start done (flushing.state, flushing.cpc))
    (aligned : ∀ ses ∈ sets, ∃ segno, ses.startSegno = startSegno segno)
    (distinct : (sets.map SitEntrySet.startSegno).Nodup)
    (fresh : ∀ segno ∈ done, ∀ ses ∈ sets, startSegno segno ≠ ses.startSegno)
    (flush : sets.foldlM (flushSitEntrySet sbi) flushing = some flushed) :
    Collecting sbi cpc start
      (done ++ sets.flatMap fun ses =>
        setEntries sbi start.sit.dirtySentriesBitmap ses.startSegno)
      (flushed.state, flushed.cpc) := by
  induction sets generalizing done flushing with
  | nil =>
      obtain rfl : flushing = flushed := by simpa using flush
      rw [List.flatMap_nil, List.append_nil]
      exact collecting
  | cons ses sets ih =>
      rw [List.foldlM_cons, Option.bind_eq_bind, Option.bind_eq_some_iff] at flush
      obtain ⟨next, first, later⟩ := flush
      obtain ⟨absent, distinct⟩ := List.nodup_cons.mp distinct
      rw [List.flatMap_cons, ← List.append_assoc]
      refine ih (collecting.flushSet (aligned ses List.mem_cons_self)
          (fun segno mem => fresh segno mem ses List.mem_cons_self) first)
        (fun other mem => aligned other (List.mem_cons_of_mem _ mem)) distinct
        (fun segno mem other mem' => ?_) later
      obtain old | new := List.mem_append.mp mem
      · exact fresh segno old other (List.mem_cons_of_mem _ mem')
      · rw [((mem_setEntries (aligned ses List.mem_cons_self)).mp new).2.2]
        intro same
        exact absent (List.mem_map.mpr ⟨other, mem', same.symm⟩)

/-! ## The order of a flush -/

/-- The sets with which the loop of `flush_sit_entries` begins, and the state in which it does. -/
def collectSets (sbi : Sbi) (state : State) : Option (State × List SitEntrySet) :=
  let sets := addSitsInSet sbi state.sit
  if hasCursumSpace (state.curseg .coldData).sumBlk state.sit.dirtySentries then some (state, sets)
  else removeSitsInJournal sbi state sets

/-- The segments whose entries `flush_sit_entries` writes, in order. -/
def flushOrder (sbi : Sbi) (state : State) : List Nat :=
  (collectSets sbi state).elim [] fun (collected, sets) =>
    sets.flatMap fun ses => setEntries sbi collected.sit.dirtySentriesBitmap ses.startSegno

/-- Collecting the sets only marks entries dirty and empties the journal. -/
structure SetsCollected (sbi : Sbi) (state : State) (collected : State × List SitEntrySet) :
    Prop where
  counted : SetsCounted sbi collected.1.sit.dirtySentriesBitmap collected.2
  frame : collected.1 = { state with sit := collected.1.sit, curseg := collected.1.curseg }
  sentries : collected.1.sit.sentries = state.sit.sentries
  dirty : collected.1.sit.dirtySentries =
    collected.1.sit.dirtySentriesBitmap.popCount sbi.mainSegments

/-- The discard of a segment when its entry is clean. -/
def vacantDiscards (sbi : Sbi) (state : State) (segno : Nat) : List DiscardEntry :=
  if state.Vacant segno then [wholeSegment sbi segno] else []

/-- The walk over some segments. -/
structure Walked (sbi : Sbi) (segnos : List Nat) (state next : State) : Prop where
  inMain : ∀ segno ∈ segnos, segno < sbi.mainSegments
  frame : next = { state with
    discardList := state.discardList ++ segnos.flatMap (vacantDiscards sbi state)
    nrDiscards := state.nrDiscards + totalLen (segnos.flatMap (vacantDiscards sbi state)) }

/-- The segments `add_discard_addrs` is called for while a trim flushes entries. -/
def trimmedInFlush (sbi : Sbi) (cpc : CpControl) (state : State) : List Nat :=
  roomySegnos sbi (candidates sbi cpc state) (flushOrder sbi state)

/-- The segments a trim walks over after the flush, from the last one of `trimmedInFlush` on. -/
def trimmedAfterFlush (sbi : Sbi) (cpc : CpControl) (state : State) : List Nat :=
  let first := (trimmedInFlush sbi cpc state).getLast?.getD cpc.trimStart
  List.range' first (cpc.trimEnd + 1 - first)

/-- What `flush_sit_entries` has queued when it returns. -/
structure Gathered (sbi : Sbi) (cpc : CpControl) (state flushed : State) : Prop where
  cur : ∀ segno, (flushed.sit.sentries segno).curValidMap = (state.sit.sentries segno).curValidMap
  clean : ∀ segno < sbi.mainSegments, ∀ offset < sbi.blocksPerSeg,
    (flushed.sit.sentries segno).curValidMap offset =
      (flushed.sit.sentries segno).ckptValidMap offset
  dirty : flushed.dirty = state.dirty
  issued : flushed.issuedDiscards = state.issuedDiscards
  total : flushed.nrDiscards = totalLen flushed.discardList
  distinct : (flushOrder sbi state).Nodup
  inMain : ∀ segno ∈ flushOrder sbi state, segno < sbi.mainSegments
  online : cpc.reason ≠ .discard → ∃ added : Nat → List DiscardEntry,
    (∀ segno, (added segno).Sublist (candidates sbi cpc state segno)) ∧
      flushed.discardList = (flushOrder sbi state).flatMap added
  trim : cpc.reason = .discard →
    (∀ segno ∈ trimmedAfterFlush sbi cpc state, segno < sbi.mainSegments) ∧
      flushed.discardList =
        (trimmedInFlush sbi cpc state).flatMap (candidates sbi cpc state) ++
          (trimmedAfterFlush sbi cpc state).flatMap (vacantDiscards sbi state)

theorem SetsCollected.order {collected : State × List SitEntrySet}
    (effect : SetsCollected sbi state collected)
    (collect : collectSets sbi state = some collected) :
    flushOrder sbi state = collected.2.flatMap (fun ses =>
        setEntries sbi collected.1.sit.dirtySentriesBitmap ses.startSegno) ∧
      (flushOrder sbi state).Nodup ∧ ∀ segno ∈ flushOrder sbi state, segno < sbi.mainSegments := by
  have order : flushOrder sbi state = collected.2.flatMap fun ses =>
      setEntries sbi collected.1.sit.dirtySentriesBitmap ses.startSegno := by
    rw [flushOrder, collect]
    rfl
  have member : ∀ ses ∈ collected.2, ∀ segno,
      segno ∈ setEntries sbi collected.1.sit.dirtySentriesBitmap ses.startSegno →
        segno < sbi.mainSegments ∧ startSegno segno = ses.startSegno := by
    intro ses mem segno mem'
    obtain ⟨inMain, _, own⟩ := (mem_setEntries (effect.counted.aligned ses mem)).mp mem'
    exact ⟨inMain, own⟩
  refine ⟨order, ?_, fun segno mem => ?_⟩
  · rw [order, List.nodup_flatMap]
    refine ⟨fun ses _ => nodup_setEntries _, ?_⟩
    have distinct := effect.counted.distinct
    rw [List.Nodup, List.pairwise_map] at distinct
    refine distinct.imp_of_mem fun {left right} mem mem' ne segno in_left in_right => ne ?_
    exact (member left mem segno in_left).2.symm.trans (member right mem' segno in_right).2
  · rw [order, List.mem_flatMap] at mem
    obtain ⟨ses, mem, mem'⟩ := mem
    exact (member ses mem segno mem').1

/-- Nothing is flushed when the loop begins. -/
theorem SetsCollected.begun {collected : State × List SitEntrySet}
    (effect : SetsCollected sbi state collected) (empty : state.discardList = [])
    (zero : state.nrDiscards = 0) : Collecting sbi cpc collected.1 [] (collected.1, cpc) where
  untouched _ _ := rfl
  cur _ := rfl
  valid _ := rfl
  bitmap _ := by simp
  dirty := rfl
  issued := rfl
  reason := rfl
  trimEnd := rfl
  minlen := rfl
  queued := ⟨fun _ => [], fun _ => List.nil_sublist _, by rw [effect.frame]; exact empty⟩
  total := by rw [effect.frame]; simp [empty, zero, totalLen]
  forced _ := ⟨by rw [effect.frame]; exact empty, rfl⟩

theorem SetsCollected.order_nil {collected : State × List SitEntrySet}
    (effect : SetsCollected sbi state collected) (collect : collectSets sbi state = some collected)
    (clean : collected.1.sit.dirtySentries = 0) : flushOrder sbi state = [] := by
  rw [(effect.order collect).1, List.flatMap_eq_nil_iff]
  intro ses mem
  rw [List.eq_nil_iff_forall_not_mem]
  intro segno mem'
  obtain ⟨inMain, isDirty, _⟩ := (mem_setEntries (effect.counted.aligned ses mem)).mp mem'
  have unset := BitMap.popCount_eq_zero_iff.mp (effect.dirty.symm.trans clean)
  exact absurd ((unset segno inMain).symm.trans isDirty) (by simp)

/-- What the loop of `flush_sit_entries` has done. -/
theorem SetsCollected.flushed {collected : State × List SitEntrySet} {stored : State × CpControl}
    (effect : SetsCollected sbi state collected) (collect : collectSets sbi state = some collected)
    (empty : state.discardList = []) (zero : state.nrDiscards = 0)
    (store : flushSets sbi collected.1 cpc collected.2 = some stored) :
    Collecting sbi cpc collected.1 (flushOrder sbi state) stored := by
  have begun : Collecting sbi cpc collected.1 [] (collected.1, cpc) := effect.begun empty zero
  unfold flushSets at store
  split at store
  · next noneDirty =>
      obtain rfl := Option.some.inj store
      rw [effect.order_nil collect noneDirty]
      exact begun
  · obtain ⟨drained, loop, rfl⟩ := Option.map_eq_some_iff.mp store
    have entries := begun.flushSets effect.counted.aligned effect.counted.distinct
      (fun _ mem => absurd mem List.not_mem_nil) loop
    rw [List.nil_append, ← (effect.order collect).1] at entries
    apply entries.congr <;> rw [bugOn_frame]

end F2fs
end StorageStack
