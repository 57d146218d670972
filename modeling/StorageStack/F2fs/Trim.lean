import StorageStack.F2fs.DiscardSafety
import StorageStack.F2fs.SitInvariant

/-!
# Trims

`f2fs_trim_fs` turns a range of bytes into a range of segments, has a checkpoint call
`add_discard_addrs` for them and reports how much has been trimmed.  The flush of the segment
information table moves `trim_start` of the request before the segments of the range are visited, and
a range which ends before the main area is answered from a variable that has no value yet.
-/

namespace StorageStack
namespace F2fs

/-! ## The request -/

/-- `struct fstrim_range`, in bytes. -/
structure FstrimRange where
  start : Nat
  len : Nat
  minlen : Nat

/-- The `log_blocksize` of a volume, which a mount checks. -/
def logBlocksize : Nat := 12

namespace FstrimRange

/-- `start` of `f2fs_trim_fs`, a block address. -/
def startBlkaddr (range : FstrimRange) : Nat := range.start >>> logBlocksize

/-- `end` of `f2fs_trim_fs`, the last block of the range. -/
def endBlkaddr (range : FstrimRange) : Nat :=
  range.startBlkaddr + (range.len >>> logBlocksize) - 1

end FstrimRange

/-- The volume with the segments behind its last section, which do not belong to the main area. -/
structure TrimSuper where
  sbi : Sbi
  /-- `TOTAL_BLKS`. -/
  totalBlks : Nat
  main_inside : (sbi.startSegno + sbi.mainSegments) * sbi.blocksPerSeg ≤ totalBlks
  addresses_fit : sbi.seg0Blkaddr + totalBlks < 2 ^ 32

namespace TrimSuper

variable (sup : TrimSuper)

/-- `MAIN_BLKADDR`. -/
def mainBlkaddr : Nat := sup.sbi.startBlock 0

/-- `MAX_BLKADDR`. -/
def maxBlkaddr : Nat := sup.sbi.seg0Blkaddr + sup.totalBlks

/-- `SEGMENT_SIZE`. -/
def segmentSize : Nat := 2 ^ (logBlocksize + sup.sbi.logBlocksPerSeg)

/-- `f2fs_trim_fs` answers `-EINVAL`. -/
def Refuses (range : FstrimRange) : Prop :=
  sup.segmentSize < range.minlen ∨ sup.maxBlkaddr ≤ range.startBlkaddr ∨
    range.len < 2 ^ logBlocksize

instance (range : FstrimRange) : Decidable (sup.Refuses range) :=
  inferInstanceAs (Decidable (_ ∨ _))

/-- The `struct cp_control` of a trim. -/
def cpControl (range : FstrimRange) : CpControl where
  reason := .discard
  trimStart :=
    if range.startBlkaddr ≤ sup.mainBlkaddr then 0 else sup.sbi.getSegno range.startBlkaddr
  trimEnd :=
    if sup.maxBlkaddr ≤ range.endBlkaddr then sup.sbi.mainSegments - 1
    else sup.sbi.getSegno range.endBlkaddr
  trimMinlen := range.minlen >>> logBlocksize
  trimmed := 0

end TrimSuper

/-- The calls while some entries are flushed. -/
def flushCalls (sbi : Sbi) (target : SitTarget) : State × CpControl → List Nat → List Nat
  | _, [] => []
  | flushing, segno :: segnos =>
      (if flushing.1.nrDiscards < sbi.maxDiscards then [segno] else []) ++
        (flushSitEntry sbi target flushing segno).elim [] fun flushed =>
          flushCalls sbi target flushed segnos

/-- The calls while the entries of one set are flushed. -/
def flushSetCalls (sbi : Sbi) (flushing : Flushing) (ses : SitEntrySet) : List Nat :=
  let state := flushing.state
  let stop := min (ses.startSegno + sitEntryPerBlock) sbi.mainSegments
  let toJournal := flushing.toJournal &&
    hasCursumSpace (state.curseg .coldData).sumBlk ses.entryCnt
  let (state, target) := openSitTarget sbi toJournal ses.startSegno state
  let segnos := (state.sit.dirtySentriesBitmap.setBits stop).filter
    fun segno => ses.startSegno ≤ segno
  flushCalls sbi target (state, flushing.cpc) segnos

/-- The calls in the loop over the sets. -/
def flushSetsCalls (sbi : Sbi) : Flushing → List SitEntrySet → List Nat
  | _, [] => []
  | flushing, ses :: sets =>
      flushSetCalls sbi flushing ses ++
        (flushSitEntrySet sbi flushing ses).elim [] fun flushed => flushSetsCalls sbi flushed sets

/-- The segments for which `flush_sit_entries` calls `add_discard_addrs` in a trim, in order. -/
def discardCalls (sbi : Sbi) (cpc : CpControl) (state : State) : List Nat :=
  (collectSets sbi state).elim [] fun (state, sets) =>
    (if state.sit.dirtySentries = 0 then [] else flushSetsCalls sbi ⟨state, cpc, true⟩ sets) ++
      (flushSets sbi state cpc sets).elim [] fun (_, cpc) =>
        List.range' cpc.trimStart (cpc.trimEnd + 1 - cpc.trimStart)

/-- The segments for which `f2fs_trim_fs` has `add_discard_addrs` called. -/
def TrimSuper.calls (sup : TrimSuper) (range : FstrimRange) (state : State) : List Nat :=
  if sup.Refuses range ∨ range.endBlkaddr ≤ sup.mainBlkaddr then []
  else discardCalls sup.sbi (sup.cpControl range) state

/-! ## What a trim is for -/

/-- A segment that the checkpoint discards through the prefree list. -/
def State.LeftToPrefree (state : State) (segno : Nat) : Prop :=
  (state.sit.sentries segno).validBlocks = 0 ∧ state.dirty.dirtySegmap .pre segno = true

instance (state : State) (segno : Nat) : Decidable (state.LeftToPrefree segno) :=
  inferInstanceAs (Decidable (_ ∧ _))

variable {sbi : Sbi} {ready : Set CursegType} {start state next : State} {cpc : CpControl}

/-! ## Blocks of a list of discards -/

/-- The blocks which `add_discard_addrs` counts and does not queue. -/
def prefreeLen (sbi : Sbi) (state : State) (segno : Nat) : Nat :=
  if state.LeftToPrefree segno then sbi.blocksPerSeg else 0

theorem prefreeLen_congr {segno : Nat}
    (valid : (next.sit.sentries segno).validBlocks = (state.sit.sentries segno).validBlocks)
    (dirty : next.dirty = state.dirty) : prefreeLen sbi next segno = prefreeLen sbi state segno := by
  have same : next.LeftToPrefree segno ↔ state.LeftToPrefree segno := by
    simp only [State.LeftToPrefree, valid, dirty]
  simp only [prefreeLen, same]

theorem foldl_queueDiscard_trimmed (force : Bool) (segno : Nat) (runs : List (Nat × Nat))
    (queue : State × CpControl) :
    (runs.foldl (queueDiscard sbi force segno) queue).2.trimmed + queue.1.nrDiscards =
      queue.2.trimmed + (runs.foldl (queueDiscard sbi force segno) queue).1.nrDiscards := by
  induction runs generalizing queue with
  | nil => rfl
  | cons run runs induction =>
      rw [List.foldl_cons]
      have later := induction (queueDiscard sbi force segno queue run)
      have first : (queueDiscard sbi force segno queue run).2.trimmed + queue.1.nrDiscards =
          queue.2.trimmed + (queueDiscard sbi force segno queue run).1.nrDiscards := by
        rw [queueDiscard]
        split
        · rfl
        · dsimp only
          omega
      omega

theorem addDiscardAddrs_trimmed {queued : State × CpControl} (forces : cpc.reason = .discard)
    (adds : addDiscardAddrs sbi (state, cpc) = some queued) :
    queued.2.trimmed + state.nrDiscards =
      cpc.trimmed + queued.1.nrDiscards + prefreeLen sbi state cpc.trimStart := by
  rw [addDiscardAddrs] at adds
  dsimp only at adds
  rw [if_neg (by simp [forces])] at adds
  split at adds
  · cases adds
  · rw [prefreeLen]
    split at adds
    · next forced =>
        split at adds
        · next pre =>
            obtain rfl := Option.some.inj adds
            rw [if_pos ⟨forced.2, pre⟩]
            dsimp only
            omega
        · next notPre =>
            obtain rfl := Option.some.inj adds
            rw [if_neg fun left => notPre left.2]
            dsimp only
            omega
    · next occupied =>
        have notLeft : ¬ state.LeftToPrefree cpc.trimStart := fun left =>
          occupied ⟨by simpa using forces, left.1⟩
        rw [if_neg notLeft, Nat.add_zero]
        split at adds
        · obtain rfl := Option.some.inj adds
          rfl
        · obtain rfl := Option.some.inj adds
          exact foldl_queueDiscard_trimmed _ _ _ (state, cpc)

/-! ## The calls during the flush -/

/-- The flush of the entries `done` with the calls it has made. -/
structure Traced (sbi : Sbi) (cpc : CpControl) (start : State) (done calls : List Nat)
    (now : State × CpControl) : Prop where
  collecting : Collecting sbi cpc start done now
  order : calls = roomySegnos sbi (candidates sbi cpc start) done
  trimmed : now.2.trimmed = now.1.nrDiscards + (calls.map (prefreeLen sbi start)).sum

theorem Traced.flush {done calls : List Nat} {now flushed : State × CpControl} {target : SitTarget}
    {segno : Nat} (forces : cpc.reason = .discard) (traced : Traced sbi cpc start done calls now)
    (fresh : segno ∉ done) (flush : flushSitEntry sbi target now segno = some flushed) :
    Traced sbi cpc start (done ++ [segno])
      (calls ++ if now.1.nrDiscards < sbi.maxDiscards then [segno] else []) flushed where
  collecting := traced.collecting.flush fresh flush
  order := by
    have queued := (traced.collecting.forced forces).1
    rw [roomySegnos_append, ← queued, ← traced.collecting.total, ← traced.order]
    split
    · rfl
    · exact List.append_nil _
  trimmed := by
    simp only [flushSitEntry, Option.bind_eq_some_iff, Option.map_eq_some_iff] at flush
    obtain ⟨queued, queue, written, write, rfl⟩ := flush
    have number : written.nrDiscards = queued.1.nrDiscards := by rw [writeRawSit_frame write]
    change queued.2.trimmed = written.nrDiscards + _
    rw [number]
    have before := traced.trimmed
    split at queue
    · next room =>
        have counted := @addDiscardAddrs_trimmed sbi now.1 { now.2 with trimStart := segno } queued
          (traced.collecting.reason.trans forces) queue
        have same : prefreeLen sbi now.1 segno = prefreeLen sbi start segno :=
          prefreeLen_congr (traced.collecting.valid segno) traced.collecting.dirty
        rw [if_pos room, List.map_append, List.sum_append, List.map_singleton,
          List.sum_singleton]
        dsimp only at counted
        omega
    · next full =>
        obtain rfl := Option.some.inj queue
        rw [if_neg full, List.append_nil]
        exact before

theorem Traced.flushSegnos {done calls segnos : List Nat} {now flushed : State × CpControl}
    {target : SitTarget} (forces : cpc.reason = .discard)
    (traced : Traced sbi cpc start done calls now) (fresh : ∀ segno ∈ segnos, segno ∉ done)
    (distinct : segnos.Nodup) (flush : segnos.foldlM (flushSitEntry sbi target) now = some flushed) :
    Traced sbi cpc start (done ++ segnos) (calls ++ flushCalls sbi target now segnos) flushed := by
  induction segnos generalizing done calls now with
  | nil =>
      obtain rfl : now = flushed := by simpa using flush
      rw [flushCalls, List.append_nil, List.append_nil]
      exact traced
  | cons segno segnos induction =>
      rw [List.foldlM_cons, Option.bind_eq_bind, Option.bind_eq_some_iff] at flush
      obtain ⟨next, first, later⟩ := flush
      obtain ⟨absent, distinct⟩ := List.nodup_cons.mp distinct
      rw [flushCalls, first, Option.elim_some, List.append_cons, ← List.append_assoc]
      apply induction (traced.flush forces (fresh segno List.mem_cons_self) first) _ distinct later
      intro other member old
      rcases List.mem_append.mp old with earlier | last
      · exact fresh other (List.mem_cons_of_mem _ member) earlier
      · rw [List.mem_singleton.mp last] at member
        exact absent member

/-- A step of the flush which queues nothing and keeps the entries. -/
theorem Traced.congr {done calls : List Nat} {now : State × CpControl}
    (traced : Traced sbi cpc start done calls now)
    (collecting : Collecting sbi cpc start done (next, now.2))
    (number : next.nrDiscards = now.1.nrDiscards) :
    Traced sbi cpc start done calls (next, now.2) where
  collecting := collecting
  order := traced.order
  trimmed := by
    rw [number]
    exact traced.trimmed

theorem Traced.flushSet {done calls : List Nat} {flushing flushed : Flushing} {ses : SitEntrySet}
    (forces : cpc.reason = .discard)
    (traced : Traced sbi cpc start done calls (flushing.state, flushing.cpc))
    (aligned : ∃ segno, ses.startSegno = startSegno segno)
    (fresh : ∀ segno ∈ done, startSegno segno ≠ ses.startSegno)
    (flush : flushSitEntrySet sbi flushing ses = some flushed) :
    Traced sbi cpc start (done ++ setEntries sbi start.sit.dirtySentriesBitmap ses.startSegno)
      (calls ++ flushSetCalls sbi flushing ses) (flushed.state, flushed.cpc) := by
  have after := traced.collecting.flushSet aligned fresh flush
  simp only [flushSitEntrySet, Option.map_eq_some_iff] at flush
  obtain ⟨stored, loop, rfl⟩ := flush
  have opened := traced.collecting.opened (flushing.toJournal && hasCursumSpace
    (flushing.state.curseg .coldData).sumBlk ses.entryCnt) ses.startSegno
  have tracedOpened := traced.congr opened (by rw [openSitTarget_frame])
  rw [flushSetCalls]
  dsimp only
  rw [opened.visited aligned fresh] at loop after ⊢
  have entries := tracedOpened.flushSegnos forces (fun segno mem old =>
    fresh segno old ((mem_setEntries aligned).mp mem).2.2) (nodup_setEntries _) loop
  exact entries.congr after (by rw [bugOn_frame])

theorem Traced.flushSets {done calls : List Nat} {flushing flushed : Flushing}
    {sets : List SitEntrySet} (forces : cpc.reason = .discard)
    (traced : Traced sbi cpc start done calls (flushing.state, flushing.cpc))
    (aligned : ∀ ses ∈ sets, ∃ segno, ses.startSegno = startSegno segno)
    (distinct : (sets.map SitEntrySet.startSegno).Nodup)
    (fresh : ∀ segno ∈ done, ∀ ses ∈ sets, startSegno segno ≠ ses.startSegno)
    (flush : sets.foldlM (flushSitEntrySet sbi) flushing = some flushed) :
    Traced sbi cpc start
      (done ++ sets.flatMap fun ses =>
        setEntries sbi start.sit.dirtySentriesBitmap ses.startSegno)
      (calls ++ flushSetsCalls sbi flushing sets) (flushed.state, flushed.cpc) := by
  induction sets generalizing done calls flushing with
  | nil =>
      obtain rfl : flushing = flushed := by simpa using flush
      rw [List.flatMap_nil, flushSetsCalls, List.append_nil, List.append_nil]
      exact traced
  | cons ses sets induction =>
      rw [List.foldlM_cons, Option.bind_eq_bind, Option.bind_eq_some_iff] at flush
      obtain ⟨next, first, later⟩ := flush
      obtain ⟨absent, distinct⟩ := List.nodup_cons.mp distinct
      have here := aligned ses List.mem_cons_self
      rw [List.flatMap_cons, flushSetsCalls, first, Option.elim_some, ← List.append_assoc,
        ← List.append_assoc]
      apply induction (traced.flushSet forces here
        (fun segno mem => fresh segno mem ses List.mem_cons_self) first) _ distinct _ later
      · exact fun other mem => aligned other (List.mem_cons_of_mem _ mem)
      · intro segno mem other mem'
        rcases List.mem_append.mp mem with old | new
        · exact fresh segno old other (List.mem_cons_of_mem _ mem')
        · rw [((mem_setEntries here).mp new).2.2]
          intro same
          exact absent (List.mem_map.mpr ⟨other, mem', same.symm⟩)

/-! ## The calls after the flush -/

end F2fs
end StorageStack
