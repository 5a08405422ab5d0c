/-
# The queue scheduler without its ring buffer

`TaskList` is the run queue of the queue scheduler as a plain list.  Section 2 proves that the code
is this model.
-/
import CAsync.Refinement

namespace CAsync

open Faulting RingQueue

/-- The data of the queue scheduler, abstractly. -/
structure TaskList where
  queue : List Handle
  deriving DecidableEq, Repr

namespace TaskList

variable {F V : Type}

/-! ## 1. The operations -/

def front : List Handle → Except Fault Handle
  | [] => .error .queueUnderflow
  | h :: _ => .ok h

def finishTask (a : TaskList) : Except Fault (TaskList × Handle × Handle) :=
  match a.queue with
  | [] => .error .queueUnderflow
  | c :: rest => do
    let next ← front rest
    .ok ({ queue := rest }, c, next)

def pollTask (_ : TaskList) {F V : Type} (p : TaskPool F V) (h : Handle) : Except Fault State := do
  require (h.idx ≠ 0) .outOfBounds
  let t ← load p.tasks (h.idx - 1)
  .ok t.state

/-- The front task goes to the back. -/
def nextTask (a : TaskList) : Except Fault (TaskList × Handle) :=
  match a.queue with
  | [] => .error .queueUnderflow
  | c :: rest => .ok ({ queue := rest ++ [c] }, (rest ++ [c]).headD c)

instance : SchedulerOps TaskList where
  zeroed := { queue := [] }
  registerTask := fun a h => .ok { queue := a.queue ++ [h] }
  finishTask := finishTask
  freeTask := fun a _ => .ok a
  pollTask := pollTask
  currentTask := fun a => front a.queue
  nextTask := nextTask

instance : SchedulerVTable TaskList where
  waitReady := HandleQueue.busyWaitReady
  waitResume := fun _ _ _ => .error .nullDeref

/-! ## 2. The code refines the model -/

/-- The ring buffer `q` of the code holds the list. -/
def Represents (q : HandleQueue) (a : TaskList) : Prop := q.Holds a.queue

theorem Represents.currentTask {q : HandleQueue} {a : TaskList} (h : Represents q a) :
    queuePeekFront q = front a.queue := by
  unfold Represents at h
  cases hq : a.queue with
  | nil =>
    rw [hq] at h
    exact h.peekFront_nil
  | cons c rest =>
    rw [hq] at h
    exact h.peekFront

theorem Represents.finishTask {q : HandleQueue} {a : TaskList} (h : Represents q a) :
    Lockstep (fun x y => Represents x.1 y.1 ∧ x.2 = y.2) (HandleQueue.finishTask q)
      a.finishTask := by
  unfold HandleQueue.finishTask TaskList.finishTask
  have hq := h
  unfold Represents at hq
  cases ha : a.queue with
  | nil =>
    rw [ha] at hq
    rw [hq.popFront_nil, error_bind]
    exact .error _
  | cons c rest =>
    rw [ha] at hq
    obtain ⟨q', hpop, hq'⟩ := hq.popFront
    have hrest : Represents q' { queue := rest } := hq'
    rw [hpop, ok_bind]
    dsimp only
    rw [hrest.currentTask]
    cases front rest with
    | error e => exact .error e
    | ok next => exact .ok ⟨hrest, rfl⟩

theorem Represents.nextTask {q : HandleQueue} {a : TaskList} (h : Represents q a) :
    Lockstep (fun x y => Represents x.1 y.1 ∧ x.2 = y.2) (HandleQueue.nextTask q) a.nextTask := by
  unfold HandleQueue.nextTask TaskList.nextTask
  have hq := h
  unfold Represents at hq
  cases ha : a.queue with
  | nil =>
    rw [ha] at hq
    rw [hq.popFront_nil, error_bind]
    exact .error _
  | cons c rest =>
    rw [ha] at hq
    obtain ⟨q', hpop, hq'⟩ := hq.popFront
    obtain ⟨q'', hpush, hq''⟩ := hq'.pushBack c
    have hrot : Represents q'' { queue := rest ++ [c] } := hq''
    have hfront : front (rest ++ [c]) = .ok ((rest ++ [c]).headD c) := by
      cases rest <;> rfl
    rw [hpop, ok_bind]
    dsimp only
    rw [hpush, ok_bind, hrot.currentTask, hfront, ok_bind]
    exact .ok ⟨hrot, rfl⟩

theorem refinesOps : RefinesOps Represents where
  zeroed := zero_holds
  registerTask := fun {q a} h i => by
    obtain ⟨q', hok, hq'⟩ := Holds.pushBack h i
    change Lockstep Represents (queuePushBack q i) _
    rw [hok]
    exact .ok hq'
  finishTask := Represents.finishTask
  freeTask := fun h _ => .ok h
  pollTask := fun _ _ _ _ _ => rfl
  currentTask := Represents.currentTask
  nextTask := Represents.nextTask

/-- `busy_wait_ready` uses the scheduler's data through `poll_state` and `async_skip`. -/
theorem queueRefines : Refines Represents where
  toRefinesOps := refinesOps
  waitReady := by
    intro F V s a h i
    change Lockstep _ (HandleQueue.busyWaitReady s i) (HandleQueue.busyWaitReady a i)
    unfold HandleQueue.busyWaitReady
    rw [refinesOps.pollState h]
    cases pollState a i with
    | error e => exact .error e
    | ok state =>
      rw [ok_bind, ok_bind]
      split
      · exact .ok ⟨h, rfl⟩
      · refine (refinesOps.asyncSkip h _).bind fun x y hxy => ?_
        obtain ⟨s', c⟩ := x
        obtain ⟨a', c'⟩ := y
        obtain ⟨hs, rfl⟩ := hxy
        cases c with
        | returned => exact .ok ⟨hs, rfl⟩
        | entered fn data => exact .ok ⟨hs, rfl⟩
        | resumed frame => exact .ok ⟨hs, rfl⟩
  waitResume := fun _ _ _ => rfl

end TaskList

end CAsync
