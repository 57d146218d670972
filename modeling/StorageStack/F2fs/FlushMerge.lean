import StorageStack.Execution

/-!
# Merged flush requests

With `FLUSH_MERGE` the callers of `f2fs_issue_flush` put their commands on a lock-free list, and one
thread takes the whole list, submits one flush, and completes the commands.  A caller leaves out the
wake-up when it finds a list being dispatched.  Every access to a shared word is a step of its own, so
a run is an interleaving of the callers, the thread, and `destroy_flush_cmd_control`.
-/

namespace StorageStack.F2fs.FlushMerge

/-- A call of `f2fs_issue_flush`, from before `llist_add` to its return.  Its command lies on its
stack. -/
inductive Caller (ρ : Type) where
  | idle
  | testing
  | waking
  | waiting
  | returned (ret : ρ)

/-- `issue_flush_thread`, with the commands it still has to visit.  From `check` on it is in the wait
queue, and the flag says that it has been woken since. -/
inductive Thread (κ ρ : Type) where
  | start
  | test
  | take
  | publish (taken : List κ)
  | reverse (left right : List κ)
  | submit (list : List κ)
  | flushing (list : List κ)
  | each (list : List κ) (ret : ρ)
  | store (cmd : κ) (next : List κ) (ret : ρ)
  | complete (cmd : κ) (next : List κ) (ret : ρ)
  | clear
  | ready
  | readyList
  | prepare
  | check (woken : Bool)
  | checkList (woken : Bool)
  | sleep (woken : Bool)
  | asleep
  | exited

/-- What happens to the commands and to the device. -/
inductive Event (κ ρ : Type) where
  | enqueue (cmd : κ)
  | touch (cmd : κ)
  | submit
  | flushed (ret : ρ)
  | complete (cmd : κ) (ret : ρ)

/-- `struct flush_cmd_control` with its thread, the calls and their commands, and the events so far,
the latest first. -/
structure State (κ ρ : Type) where
  issueList : List κ
  dispatchList : Option κ
  shouldStop : Bool
  thread : Thread κ ρ
  caller : κ → Caller ρ
  ret : κ → Option ρ
  done : κ → Bool
  log : List (Event κ ρ)

/-- A step of a caller, of the thread, or of `kthread_stop`.  The result is the one of the flush that
ends in this step. -/
inductive Operation (κ ρ : Type) where
  | llistAdd (cmd : κ)
  | testDispatch (cmd : κ)
  | wakeUp (cmd : κ)
  | finish (cmd : κ)
  | thread (result : ρ)
  | kthreadStop

variable {κ ρ : Type}

/-- `create_flush_cmd_control`. -/
def State.init : State κ ρ :=
  { issueList := [], dispatchList := none, shouldStop := false, thread := .start
    caller := fun _ => .idle, ret := fun _ => none, done := fun _ => false, log := [] }

/-- `wake_up`: a thread in the wait queue becomes runnable. -/
def Thread.wake : Thread κ ρ → Thread κ ρ
  | .check _ => .check true
  | .checkList _ => .checkList true
  | .sleep _ => .sleep true
  | .asleep => .prepare
  | thread => thread

/-- The commands that the thread still visits. -/
def Thread.held : Thread κ ρ → List κ
  | .publish list | .submit list | .flushing list | .each list _ => list
  | .reverse left right => left ++ right
  | .store cmd next _ | .complete cmd next _ => cmd :: next
  | _ => []

/-- The thread is between the publication of a dispatch list and its removal. -/
def Thread.dispatching : Thread κ ρ → Bool
  | .reverse _ _ | .submit _ | .flushing _ | .each _ _ | .store _ _ _ | .complete _ _ _
  | .clear => true
  | _ => false

namespace State

variable [DecidableEq κ] (state : State κ ρ)

/-- A step of `issue_flush_thread`. -/
def threadStep (result : ρ) : Option (State κ ρ) :=
  match state.thread with
  | .start => some { state with thread := if state.shouldStop then .exited else .test }
  | .test => some { state with thread := if state.issueList.isEmpty then .ready else .take }
  | .take => some { state with issueList := [], thread := .publish state.issueList }
  | .publish taken => some { state with dispatchList := taken.head?, thread := .reverse taken [] }
  | .reverse [] right => some { state with dispatchList := right.head?, thread := .submit right }
  | .reverse (cmd :: left) right =>
      some { state with thread := .reverse left (cmd :: right), log := .touch cmd :: state.log }
  | .submit list => some { state with thread := .flushing list, log := .submit :: state.log }
  | .flushing list =>
      some { state with thread := .each list result, log := .flushed result :: state.log }
  | .each [] _ => some { state with thread := .clear }
  | .each (cmd :: next) ret =>
      some { state with thread := .store cmd next ret, log := .touch cmd :: state.log }
  | .store cmd next ret =>
      some { state with
        thread := .complete cmd next ret, ret := Function.update state.ret cmd (some ret)
        log := .touch cmd :: state.log }
  | .complete cmd next ret =>
      some { state with
        thread := .each next ret, done := Function.update state.done cmd true
        log := .complete cmd ret :: state.log }
  | .clear => some { state with dispatchList := none, thread := .ready }
  -- `wait_event_interruptible` tests its condition once before it enters the wait queue
  | .ready => some { state with thread := if state.shouldStop then .start else .readyList }
  | .readyList => some { state with thread := if state.issueList.isEmpty then .prepare else .start }
  | .prepare => some { state with thread := .check false }
  | .check woken => some { state with thread := if state.shouldStop then .start else .checkList woken }
  | .checkList woken =>
      some { state with thread := if state.issueList.isEmpty then .sleep woken else .start }
  | .sleep woken => some { state with thread := if woken then .prepare else .asleep }
  | .asleep => none
  | .exited => none

/-- A step of a caller, of the thread, or of `kthread_stop`, if it can be taken. -/
def step : Operation κ ρ → Option (State κ ρ)
  | .llistAdd cmd =>
      match state.caller cmd with
      | .idle => some { state with
          issueList := cmd :: state.issueList
          caller := Function.update state.caller cmd .testing
          log := .enqueue cmd :: state.log }
      | _ => none
  | .testDispatch cmd =>
      match state.caller cmd with
      | .testing => some { state with
          caller := Function.update state.caller cmd
            (if state.dispatchList.isNone then .waking else .waiting) }
      | _ => none
  | .wakeUp cmd =>
      match state.caller cmd with
      | .waking => some { state with
          thread := state.thread.wake
          caller := Function.update state.caller cmd .waiting }
      | _ => none
  | .finish cmd =>
      match state.caller cmd, state.done cmd, state.ret cmd with
      | .waiting, true, some ret =>
          some { state with caller := Function.update state.caller cmd (.returned ret) }
      | _, _, _ => none
  | .thread result => state.threadStep result
  | .kthreadStop => some { state with shouldStop := true, thread := state.thread.wake }

end State

/-! ## What the events say -/

/-- The event is an access of the thread to a command. -/
def Event.Touches (cmd : κ) : Event κ ρ → Prop
  | .touch other => other = cmd
  | .complete other _ => other = cmd
  | _ => False

/-- The event completes a command. -/
def Event.Completes (cmd : κ) : Event κ ρ → Prop
  | .complete other _ => other = cmd
  | _ => False

instance [DecidableEq κ] (cmd : κ) : DecidablePred (Event.Completes cmd : Event κ ρ → Prop)
  | .complete other _ => inferInstanceAs (Decidable (other = cmd))
  | .enqueue _ | .touch _ | .submit | .flushed _ => inferInstanceAs (Decidable False)

/-- The command was enqueued before the flush that was submitted last. -/
def SubmittedAfter (log : List (Event κ ρ)) (cmd : κ) : Prop :=
  ∃ between earlier, log = between ++ .submit :: earlier ∧ .submit ∉ between ∧ .enqueue cmd ∈ earlier

/-- A flush that was submitted after the command was enqueued has ended with the result. -/
def FlushedAfter (log : List (Event κ ρ)) (cmd : κ) (ret : ρ) : Prop :=
  ∃ later earlier, log = later ++ .flushed ret :: earlier ∧ SubmittedAfter earlier cmd

/-- No event completes the command. -/
def Pending (log : List (Event κ ρ)) (cmd : κ) : Prop :=
  ∀ event ∈ log, ¬event.Completes cmd

/-- The thread touches commands that are pending, and completes them with results of flushes that
were submitted after them. -/
def Sound : List (Event κ ρ) → Prop
  | [] => True
  | event :: log =>
      (match event with
        | .touch cmd => Pending log cmd
        | .complete cmd ret => Pending log cmd ∧ FlushedAfter log cmd ret
        | _ => True) ∧ Sound log

/-- The commands that the thread holds were enqueued before the flush it is at. -/
def Thread.Justified (log : List (Event κ ρ)) : Thread κ ρ → Prop
  | .flushing list => ∀ cmd ∈ list, SubmittedAfter log cmd
  | .each list ret => ∀ cmd ∈ list, FlushedAfter log cmd ret
  | .store cmd next ret | .complete cmd next ret => ∀ other ∈ cmd :: next, FlushedAfter log other ret
  | _ => True

/-- The thread sleeps, or is about to without having been woken. -/
def Thread.drowsy : Thread κ ρ → Bool
  | .sleep false | .asleep => true
  | _ => false

/-- The call is past its wake-up test and the wake-up. -/
def Caller.PastWakeUp : Caller ρ → Prop
  | .waiting | .returned _ => True
  | _ => False

@[simp] theorem Thread.held_wake (thread : Thread κ ρ) : thread.wake.held = thread.held := by
  cases thread <;> rfl

@[simp] theorem Thread.dispatching_wake (thread : Thread κ ρ) :
    thread.wake.dispatching = thread.dispatching := by
  cases thread <;> rfl

@[simp] theorem Thread.drowsy_wake (thread : Thread κ ρ) : thread.wake.drowsy = false := by
  cases thread <;> rfl

@[simp] theorem Thread.justified_wake (log : List (Event κ ρ)) (thread : Thread κ ρ) :
    thread.wake.Justified log ↔ thread.Justified log := by
  cases thread <;> rfl

@[simp] theorem Thread.wake_eq_complete (thread : Thread κ ρ) (cmd : κ) (next : List κ) (ret : ρ) :
    thread.wake = .complete cmd next ret ↔ thread = .complete cmd next ret := by
  cases thread <;> simp [wake]

theorem Thread.dispatching_of_drowsy {thread : Thread κ ρ} (drowsy : thread.drowsy = true) :
    thread.dispatching = false := by
  cases thread with
  | sleep | asleep => rfl
  | _ => cases drowsy

theorem Pending.cons {log : List (Event κ ρ)} {cmd : κ} {event : Event κ ρ}
    (pending : Pending log cmd) (other : ¬event.Completes cmd) : Pending (event :: log) cmd :=
  List.forall_mem_cons.mpr ⟨other, pending⟩

theorem FlushedAfter.cons {log : List (Event κ ρ)} {cmd : κ} {ret : ρ} (event : Event κ ρ)
    (flushed : FlushedAfter log cmd ret) : FlushedAfter (event :: log) cmd ret := by
  obtain ⟨later, earlier, rfl, submitted⟩ := flushed
  exact ⟨event :: later, earlier, rfl, submitted⟩

theorem SubmittedAfter.cons {log : List (Event κ ρ)} {cmd : κ} {event : Event κ ρ}
    (submitted : SubmittedAfter log cmd) (other : event ≠ .submit) :
    SubmittedAfter (event :: log) cmd := by
  obtain ⟨between, earlier, rfl, none_between, enqueued⟩ := submitted
  exact ⟨event :: between, earlier, rfl, by simp [none_between, other.symm], enqueued⟩

/-- Events of others leave the thread justified. -/
theorem Thread.Justified.cons {log : List (Event κ ρ)} {thread : Thread κ ρ} {event : Event κ ρ}
    (justified : thread.Justified log) (other : event ≠ .submit) :
    thread.Justified (event :: log) := by
  cases thread with
  | flushing list => exact fun cmd mem => (justified cmd mem).cons other
  | each list ret => exact fun cmd mem => (justified cmd mem).cons event
  | store cmd next ret => exact fun other mem => (justified other mem).cons event
  | complete cmd next ret => exact fun other mem => (justified other mem).cons event
  | _ => trivial

/-- In a sound history a completion stands alone: before it the flush, after it no access. -/
theorem Sound.complete {later earlier : List (Event κ ρ)} {cmd : κ} {ret : ρ}
    (sound : Sound (later ++ .complete cmd ret :: earlier)) :
    FlushedAfter earlier cmd ret ∧ Pending earlier cmd ∧ ∀ event ∈ later, ¬event.Touches cmd := by
  induction later with
  | nil => exact ⟨sound.1.2, sound.1.1, fun _ mem => nomatch mem⟩
  | cons event later ih =>
      obtain ⟨flushed, first, untouched⟩ := ih sound.2
      refine ⟨flushed, first, List.forall_mem_cons.mpr ⟨fun touches => ?_, untouched⟩⟩
      have completed : (Event.complete cmd ret : Event κ ρ) ∈ later ++ .complete cmd ret :: earlier := by
        simp
      cases event with
      | touch other =>
          obtain rfl : other = cmd := touches
          exact sound.1 _ completed rfl
      | complete other result =>
          obtain rfl : other = cmd := touches
          exact sound.1.1 _ completed rfl
      | _ => exact touches

theorem Pending.countP [DecidableEq κ] {log : List (Event κ ρ)} {cmd : κ}
    (pending : Pending log cmd) : log.countP (fun event => event.Completes cmd) = 0 := by
  rw [List.countP_eq_zero]
  intro event mem
  simpa using pending event mem

theorem Sound.countP_completes [DecidableEq κ] {log : List (Event κ ρ)} (sound : Sound log)
    (cmd : κ) : log.countP (fun event => event.Completes cmd) ≤ 1 := by
  induction log with
  | nil => simp
  | cons event log ih =>
      rw [List.countP_cons]
      split
      · rename_i decided
        have completes : event.Completes cmd := of_decide_eq_true decided
        have pending : Pending log cmd := by
          cases event with
          | complete other ret =>
              obtain rfl : other = cmd := completes
              exact sound.1.1
          | _ => exact completes.elim
        simp [pending.countP]
      · exact ih sound.2

/-! ## The invariant of all interleavings -/

/-- What every interleaving keeps. -/
structure Inv (state : State κ ρ) : Prop where
  nodup : (state.issueList ++ state.thread.held).Nodup
  open_commands : ∀ cmd ∈ state.issueList ++ state.thread.held,
    .enqueue cmd ∈ state.log ∧ Pending state.log cmd ∧ state.caller cmd ≠ .idle
  fresh : ∀ cmd, state.caller cmd = .idle → Pending state.log cmd
  dispatch : state.thread.dispatching = false → state.dispatchList = none
  drowsy : state.thread.drowsy = true → ∀ cmd ∈ state.issueList, ¬(state.caller cmd).PastWakeUp
  justified : state.thread.Justified state.log
  sound : Sound state.log
  stored : ∀ cmd next ret, state.thread = .complete cmd next ret → state.ret cmd = some ret
  done : ∀ cmd, state.done cmd = true → ∃ ret, state.ret cmd = some ret ∧
    .complete cmd ret ∈ state.log
  returned : ∀ cmd ret, state.caller cmd = .returned ret → .complete cmd ret ∈ state.log

theorem inv_init : Inv (State.init : State κ ρ) where
  nodup := List.nodup_nil
  open_commands := fun _ mem => nomatch mem
  fresh := fun _ _ _ mem => nomatch mem
  dispatch := fun _ => rfl
  drowsy := fun drowsy => nomatch drowsy
  justified := trivial
  sound := trivial
  stored := fun _ _ _ same => nomatch same
  done := fun _ done => nomatch done
  returned := fun _ _ returned => nomatch returned

namespace Inv

variable {state : State κ ρ}

/-- The thread goes on without an event. -/
theorem move (inv : Inv state) (issueList : List κ) (dispatchList : Option κ) (thread : Thread κ ρ)
    (same : issueList ++ thread.held = state.issueList ++ state.thread.held)
    (dispatch : thread.dispatching = false → dispatchList = none)
    (drowsy : thread.drowsy = true →
      issueList = [] ∨ issueList = state.issueList ∧ state.thread.drowsy = true)
    (justified : thread.Justified state.log)
    (stored : ∀ cmd next ret, thread = .complete cmd next ret → state.ret cmd = some ret) :
    Inv { state with issueList := issueList, dispatchList := dispatchList, thread := thread } where
  nodup := same ▸ inv.nodup
  open_commands := same ▸ inv.open_commands
  fresh := inv.fresh
  dispatch := dispatch
  drowsy := by
    intro sleepy cmd mem
    rcases drowsy sleepy with rfl | ⟨rfl, before⟩
    · cases mem
    · exact inv.drowsy before cmd mem
  justified := justified
  sound := inv.sound
  stored := stored
  done := inv.done
  returned := inv.returned

/-- The thread goes on with an event that completes no command. -/
theorem record (inv : Inv state) (event : Event κ ρ) (thread : Thread κ ρ)
    (quiet : ∀ cmd, ¬event.Completes cmd) (held : thread.held.Perm state.thread.held)
    (awake : thread.drowsy = false) (dispatch : thread.dispatching = true)
    (justified : thread.Justified (event :: state.log)) (sound : Sound (event :: state.log))
    (stored : ∀ cmd next ret, thread = .complete cmd next ret → state.ret cmd = some ret) :
    Inv { state with thread := thread, log := event :: state.log } where
  nodup := (held.append_left state.issueList).nodup_iff.mpr inv.nodup
  open_commands := by
    intro cmd mem
    obtain ⟨enqueued, pending, called⟩ :=
      inv.open_commands cmd ((held.append_left state.issueList).mem_iff.mp mem)
    exact ⟨List.mem_cons_of_mem _ enqueued, pending.cons (quiet cmd), called⟩
  fresh := fun cmd idle => (inv.fresh cmd idle).cons (quiet cmd)
  dispatch := by simp [dispatch]
  drowsy := by simp [awake]
  justified := justified
  sound := sound
  stored := stored
  done := by
    intro cmd done
    obtain ⟨ret, result, completed⟩ := inv.done cmd done
    exact ⟨ret, result, List.mem_cons_of_mem _ completed⟩
  returned := fun cmd ret returned => List.mem_cons_of_mem _ (inv.returned cmd ret returned)

/-- A command that the thread holds may be touched. -/
theorem touch (inv : Inv state) {cmd : κ} (held : cmd ∈ state.thread.held) :
    Sound (.touch cmd :: state.log) :=
  ⟨(inv.open_commands cmd (List.mem_append_right _ held)).2.1, inv.sound⟩

theorem pending_of_held (inv : Inv state) {cmd : κ} (held : cmd ∈ state.thread.held) :
    Pending state.log cmd := (inv.open_commands cmd (List.mem_append_right _ held)).2.1

/-- `wake_up` and `wake_up_process`. -/
theorem wake (inv : Inv state) : Inv { state with thread := state.thread.wake } := by
  apply inv.move state.issueList state.dispatchList state.thread.wake
  · rw [state.thread.held_wake]
  · simpa using inv.dispatch
  · simp
  · simpa using inv.justified
  · simpa using inv.stored

variable [DecidableEq κ] {result : ρ} {next : State κ ρ}

/-- The thread stores the result in a command that it holds. -/
theorem store (inv : Inv state) {cmd : κ} {list : List κ} {ret : ρ}
    (at_step : state.thread = .store cmd list ret) :
    Inv { state with
      thread := .complete cmd list ret, ret := Function.update state.ret cmd (some ret)
      log := .touch cmd :: state.log } := by
  have justified := inv.justified
  rw [at_step] at justified
  have held : cmd ∈ state.thread.held := by simp [at_step, Thread.held]
  have pending := inv.pending_of_held held
  have recorded := inv.record (.touch cmd) (.each (cmd :: list) ret) (fun _ completes => completes)
    (by rw [at_step]; exact .refl _) rfl rfl (fun other mem => (justified other mem).cons _)
    (inv.touch held) (fun _ _ _ same => nomatch same)
  refine { recorded with stored := ?_, done := ?_ }
  · rintro _ _ _ ⟨⟩
    exact Function.update_self ..
  · intro other done
    obtain ⟨stored, result, completed⟩ := inv.done other done
    have apart : other ≠ cmd := by
      rintro rfl
      exact pending _ completed rfl
    exact ⟨stored, by rw [← result]; exact Function.update_of_ne apart ..,
      List.mem_cons_of_mem _ completed⟩

/-- The thread completes a command that it holds. -/
theorem complete (inv : Inv state) {cmd : κ} {list : List κ} {ret : ρ}
    (at_step : state.thread = .complete cmd list ret) :
    Inv { state with
      thread := .each list ret, done := Function.update state.done cmd true
      log := .complete cmd ret :: state.log } := by
  have justified := inv.justified
  rw [at_step] at justified
  have nodup := inv.nodup
  rw [at_step, Thread.held, List.nodup_middle, List.nodup_cons] at nodup
  have held : cmd ∈ state.thread.held := by simp [at_step, Thread.held]
  have pending := inv.open_commands cmd (List.mem_append_right _ held)
  exact
    { nodup := nodup.2
      open_commands := by
        intro other mem
        have before : other ∈ state.issueList ++ state.thread.held := by
          rw [at_step, Thread.held, List.perm_middle.mem_iff]
          exact List.mem_cons_of_mem _ mem
        obtain ⟨enqueued, open_other, called⟩ := inv.open_commands other before
        refine ⟨List.mem_cons_of_mem _ enqueued, open_other.cons ?_, called⟩
        rintro rfl
        exact nodup.1 mem
      fresh := by
        intro other idle
        refine (inv.fresh other idle).cons ?_
        rintro rfl
        exact pending.2.2 idle
      dispatch := fun busy => nomatch busy
      drowsy := fun sleepy => nomatch sleepy
      justified := fun other mem => (justified other (List.mem_cons_of_mem _ mem)).cons _
      sound := ⟨⟨pending.2.1, justified cmd List.mem_cons_self⟩, inv.sound⟩
      stored := fun _ _ _ same => nomatch same
      done := by
        intro other done
        by_cases same : other = cmd
        · subst same
          exact ⟨ret, inv.stored _ _ _ at_step, List.mem_cons_self⟩
        · replace done : state.done other = true := by simpa [same] using done
          obtain ⟨stored, result, completed⟩ := inv.done other done
          exact ⟨stored, result, List.mem_cons_of_mem _ completed⟩
      returned := fun other result returned =>
        List.mem_cons_of_mem _ (inv.returned other result returned) }

/-- A step of the thread keeps the invariant. -/
theorem threadStep (inv : Inv state) (stepped : state.threadStep result = some next) : Inv next := by
  have idle := inv.dispatch
  have justified := inv.justified
  unfold State.threadStep at stepped
  cases at_step : state.thread with
  | start | ready | check =>
      simp only [at_step, Option.some.injEq] at stepped
      subst stepped
      rw [at_step] at idle
      apply inv.move state.issueList state.dispatchList <;> split <;>
        simp [at_step, Thread.held, Thread.drowsy, Thread.Justified, idle rfl]
  | test | readyList | checkList woken =>
      simp only [at_step, Option.some.injEq] at stepped
      subst stepped
      rw [at_step] at idle
      apply inv.move state.issueList state.dispatchList <;> split <;>
        simp_all [Thread.held, Thread.drowsy, Thread.Justified, Thread.dispatching]
  | take | prepare =>
      simp only [at_step, Option.some.injEq] at stepped
      subst stepped
      rw [at_step] at idle
      apply inv.move _ state.dispatchList <;>
        simp [at_step, Thread.held, Thread.drowsy, Thread.Justified, idle rfl]
  | publish taken | clear =>
      simp only [at_step, Option.some.injEq] at stepped
      subst stepped
      apply inv.move state.issueList <;>
        simp [at_step, Thread.held, Thread.drowsy, Thread.Justified, Thread.dispatching]
  | sleep woken =>
      simp only [at_step, Option.some.injEq] at stepped
      subst stepped
      rw [at_step] at idle
      apply inv.move state.issueList state.dispatchList <;> cases woken <;>
        simp [at_step, Thread.held, Thread.drowsy, Thread.Justified, idle rfl]
  | reverse left right =>
      cases left with
      | nil =>
          simp only [at_step, Option.some.injEq] at stepped
          subst stepped
          apply inv.move state.issueList <;>
            simp [at_step, Thread.held, Thread.drowsy, Thread.Justified, Thread.dispatching]
      | cons cmd left =>
          simp only [at_step, Option.some.injEq] at stepped
          subst stepped
          apply inv.record (.touch cmd) (.reverse left (cmd :: right)) (fun _ completes => completes)
            (by rw [at_step]; exact List.perm_middle) rfl rfl trivial
            (inv.touch (by simp [at_step, Thread.held])) (fun _ _ _ same => nomatch same)
  | submit list =>
      simp only [at_step, Option.some.injEq] at stepped
      subst stepped
      apply inv.record .submit (.flushing list) (fun _ completes => completes)
        (by rw [at_step]; exact .refl _) rfl rfl _ ⟨trivial, inv.sound⟩
        (fun _ _ _ same => nomatch same)
      intro cmd mem
      have held : cmd ∈ state.thread.held := by rw [at_step]; exact mem
      exact ⟨[], state.log, rfl, List.not_mem_nil,
        (inv.open_commands cmd (List.mem_append_right _ held)).1⟩
  | flushing list =>
      simp only [at_step, Option.some.injEq] at stepped
      subst stepped
      rw [at_step] at justified
      exact inv.record (.flushed result) (.each list result) (fun _ completes => completes)
        (by rw [at_step]; exact .refl _) rfl rfl
        (fun cmd mem => ⟨[], state.log, rfl, justified cmd mem⟩) ⟨trivial, inv.sound⟩
        (fun _ _ _ same => nomatch same)
  | each list ret =>
      rw [at_step] at justified
      cases list with
      | nil =>
          simp only [at_step, Option.some.injEq] at stepped
          subst stepped
          apply inv.move state.issueList state.dispatchList <;>
            simp [at_step, Thread.held, Thread.drowsy, Thread.Justified, Thread.dispatching]
      | cons cmd list =>
          simp only [at_step, Option.some.injEq] at stepped
          subst stepped
          exact inv.record (.touch cmd) (.store cmd list ret) (fun _ completes => completes)
            (by rw [at_step]; exact .refl _) rfl rfl (fun other mem => (justified other mem).cons _)
            (inv.touch (by simp [at_step, Thread.held])) (fun _ _ _ same => nomatch same)
  | store cmd list ret =>
      simp only [at_step, Option.some.injEq] at stepped
      subst stepped
      exact inv.store at_step
  | complete cmd list ret =>
      simp only [at_step, Option.some.injEq] at stepped
      subst stepped
      exact inv.complete at_step
  | asleep | exited => simp [at_step] at stepped

/-- A caller goes on; its command is in the hands of the thread or completed. -/
theorem call (inv : Inv state) (cmd : κ) (caller : Caller ρ) (called : caller ≠ .idle)
    (drowsy : state.thread.drowsy = true → cmd ∈ state.issueList → ¬caller.PastWakeUp)
    (returned : ∀ ret, caller = .returned ret → .complete cmd ret ∈ state.log) :
    Inv { state with caller := Function.update state.caller cmd caller } := by
  refine { inv with open_commands := ?_, fresh := ?_, drowsy := ?_, returned := ?_ }
  · intro other mem
    obtain ⟨enqueued, pending, before⟩ := inv.open_commands other mem
    refine ⟨enqueued, pending, ?_⟩
    by_cases same : other = cmd
    · subst same
      simpa using called
    · simpa [same] using before
  · intro other idle
    by_cases same : other = cmd
    · subst same
      exact absurd (by simpa using idle) called
    · exact inv.fresh other (by simpa [same] using idle)
  · intro sleepy other mem
    by_cases same : other = cmd
    · subst same
      simpa using drowsy sleepy mem
    · simpa [same] using inv.drowsy sleepy other mem
  · intro other ret back
    by_cases same : other = cmd
    · subst same
      exact returned ret (by simpa using back)
    · exact inv.returned other ret (by simpa [same] using back)

/-- `llist_add` puts a new command on the list. -/
theorem llistAdd (inv : Inv state) {cmd : κ} (idle : state.caller cmd = .idle) :
    Inv { state with
      issueList := cmd :: state.issueList, caller := Function.update state.caller cmd .testing
      log := .enqueue cmd :: state.log } := by
  have new : cmd ∉ state.issueList ++ state.thread.held :=
    fun mem => (inv.open_commands cmd mem).2.2 idle
  have quiet : ∀ other, ¬(Event.enqueue cmd : Event κ ρ).Completes other := fun _ completes => completes
  exact
    { nodup := List.nodup_cons.mpr ⟨new, inv.nodup⟩
      open_commands := by
        rintro other (_ | ⟨_, mem⟩)
        · exact ⟨List.mem_cons_self, (inv.fresh _ idle).cons (quiet _), by simp⟩
        · obtain ⟨enqueued, pending, called⟩ := inv.open_commands other mem
          have apart : other ≠ cmd := fun same => new (same ▸ mem)
          exact ⟨List.mem_cons_of_mem _ enqueued, pending.cons (quiet _), by simpa [apart]⟩
      fresh := by
        intro other before
        by_cases same : other = cmd
        · subst same
          exact (inv.fresh _ idle).cons (quiet _)
        · exact (inv.fresh other (by simpa [same] using before)).cons (quiet _)
      dispatch := inv.dispatch
      drowsy := by
        rintro sleepy other (_ | ⟨_, mem⟩)
        · simp [Caller.PastWakeUp]
        · have apart : other ≠ cmd := fun same => new (same ▸ List.mem_append_left _ mem)
          simpa [apart] using inv.drowsy sleepy other mem
      justified := inv.justified.cons (by simp)
      sound := ⟨trivial, inv.sound⟩
      stored := inv.stored
      done := by
        intro other done
        obtain ⟨ret, result, completed⟩ := inv.done other done
        exact ⟨ret, result, List.mem_cons_of_mem _ completed⟩
      returned := by
        intro other ret back
        by_cases same : other = cmd
        · subst same
          simp at back
        · exact List.mem_cons_of_mem _ (inv.returned other ret (by simpa [same] using back)) }

/-- Every step of an interleaving keeps the invariant. -/
theorem step (inv : Inv state) {operation : Operation κ ρ} (stepped : state.step operation = some next) :
    Inv next := by
  cases operation with
  | llistAdd cmd =>
      simp only [State.step] at stepped
      split at stepped
      · rename_i at_call
        obtain rfl := Option.some.inj stepped
        exact inv.llistAdd at_call
      · cases stepped
  | testDispatch cmd =>
      simp only [State.step] at stepped
      split at stepped
      · obtain rfl := Option.some.inj stepped
        apply inv.call
        · split <;> simp
        · -- a thread that may miss the command has cleared `dispatch_list`
          intro sleepy _
          simp [inv.dispatch (Thread.dispatching_of_drowsy sleepy), Caller.PastWakeUp]
        · split <;> simp
      · cases stepped
  | wakeUp cmd =>
      simp only [State.step] at stepped
      split at stepped
      · obtain rfl := Option.some.inj stepped
        exact inv.wake.call cmd .waiting (by simp) (by simp) (by simp)
      · cases stepped
  | finish cmd =>
      simp only [State.step] at stepped
      split at stepped
      · rename_i ret at_call done result
        obtain rfl := Option.some.inj stepped
        obtain ⟨stored, same, completed⟩ := inv.done cmd done
        obtain rfl := Option.some.inj (result.symm.trans same)
        apply inv.call
        · simp
        · intro _ mem
          exact absurd rfl
            ((inv.open_commands cmd (List.mem_append_left _ mem)).2.1 _ completed)
        · rintro _ ⟨⟩
          exact completed
      · cases stepped
  | thread result => exact inv.threadStep stepped
  | kthreadStop =>
      obtain rfl := Option.some.inj stepped
      exact { inv.wake with }

end Inv

/-- The invariant holds after every interleaving. -/
theorem inv_of_run [DecidableEq κ] {operations : List (Operation κ ρ)} {state : State κ ρ}
    (execution : Execution.run State.step State.init operations = some state) : Inv state :=
  Execution.run_keeps (fun _ _ _ inv stepped => inv.step stepped) inv_init execution

/-- The commands of a history have been completed with the results of later flushes, and the thread
leaves them alone afterwards. -/
def Served (log : List (Event κ ρ)) : Prop :=
  ∀ cmd ret later earlier, log = later ++ .complete cmd ret :: earlier →
    FlushedAfter earlier cmd ret ∧ ∀ event ∈ later, ¬event.Touches cmd

/-- In every interleaving of the callers with the thread a command is completed at most once, with the
result of a flush that was submitted after it was enqueued, and is what its caller returns; after its
completion the thread does not touch it.  The thread does not sleep on a list whose callers have all
gone past the wake-up. -/
theorem no_flush_request_lost [DecidableEq κ] (operations : List (Operation κ ρ))
    {state : State κ ρ}
    (execution : Execution.run State.step State.init operations = some state) :
    (∀ cmd, state.log.countP (fun event => event.Completes cmd) ≤ 1) ∧ Served state.log ∧
      (∀ cmd ret, state.caller cmd = .returned ret → .complete cmd ret ∈ state.log) ∧
      ¬(state.thread = .asleep ∧ state.issueList ≠ [] ∧
        ∀ cmd ∈ state.issueList, (state.caller cmd).PastWakeUp) := by
  have inv := inv_of_run execution
  refine ⟨fun cmd => inv.sound.countP_completes cmd, ?_, inv.returned, ?_⟩
  · intro cmd ret later earlier same
    have sound := inv.sound
    rw [same] at sound
    exact ⟨sound.complete.1, sound.complete.2.2⟩
  · rintro ⟨asleep, nonempty, past⟩
    obtain ⟨cmd, mem⟩ := List.exists_mem_of_ne_nil _ nonempty
    exact inv.drowsy (by rw [asleep]; rfl) cmd mem (past cmd mem)

/-- A caller that finds the thread asleep, and its flush. -/
def oneFlush : List (Operation Nat Int) :=
  List.replicate 8 (.thread 0) ++ [.llistAdd 3, .testDispatch 3, .wakeUp 3] ++
    List.replicate 14 (.thread (-5)) ++ [.finish 3]

theorem no_flush_request_lost_oneFlush :
    ∃ state, Execution.run State.step State.init oneFlush = some state ∧
      state.caller 3 = .returned (-5) ∧ Served state.log :=
  ⟨_, rfl, rfl, (no_flush_request_lost oneFlush rfl).2.1⟩

end StorageStack.F2fs.FlushMerge
