import RestyFfi.Base.Counting
import RestyFfi.Base.Transition
import RestyFfi.Queue.Basic

/-!
# A request queue and the threads that poll it

The queue is a monitor: `ngx_task_post` and `ngx_http_lua_ffi_task_poll` change it under its mutex
only, so one critical section is one step. A poll is cut where it gives the mutex away. A poller in
the condition wait is `asleep` until a signal or a spurious wakeup makes it `awake`; an awake
poller still has to take the mutex again, and another thread may take the task before it.

Posting is a step of the same system. The calls of a poll succeed here (`RestyFfi.Queue.Failure`
has their error exits); the lock and the signal of a post may fail.
-/

namespace RestyFfi
open Transition Counting

/-- Where a runtime thread stands with respect to its polls of one queue. -/
inductive Pc where
  /-- Not inside a poll; the thread's loop may call it. -/
  | outside
  /-- Inside, waiting for the mutex for the first time. -/
  | locking
  /-- In `ngx_thread_cond_wait`. -/
  | asleep
  /-- Woken, but the mutex is not taken again. -/
  | awake
  /-- The finish marker is dequeued and the mutex released, the queue not freed yet. -/
  | freeing
  /-- The poll returned `NULL`: the thread's loop is over. -/
  | stopped
  deriving DecidableEq, Repr

/-- The poll has decremented `waiting` and has not dequeued a task. -/
def Pc.blocked : Pc → Bool
  | .asleep | .awake => true
  | _ => false

/-- The thread is inside a poll. -/
def Pc.inside : Pc → Bool
  | .locking | .asleep | .awake | .freeing => true
  | _ => false

@[simp] theorem Pc.blocked_outside : Pc.outside.blocked = false := rfl
@[simp] theorem Pc.blocked_locking : Pc.locking.blocked = false := rfl
@[simp] theorem Pc.blocked_asleep : Pc.asleep.blocked = true := rfl
@[simp] theorem Pc.blocked_awake : Pc.awake.blocked = true := rfl
@[simp] theorem Pc.blocked_freeing : Pc.freeing.blocked = false := rfl
@[simp] theorem Pc.blocked_stopped : Pc.stopped.blocked = false := rfl

/-- Where a poll goes that has dequeued `task`: a task without `ctx` is the marker, and the thread
goes on to free the queue. -/
def Pc.afterTake (task : Task α) : Pc := if task.ctx.isSome then .outside else .freeing

@[simp] theorem Pc.afterTake_request (a : α) : afterTake (.request a) = .outside := rfl
@[simp] theorem Pc.afterTake_finish : afterTake (.finish : Task α) = .freeing := rfl

@[simp] theorem Pc.blocked_afterTake (task : Task α) : (afterTake task).blocked = false := by
  cases task <;> rfl

/-- What happens at a queue. -/
inductive Event (Th α : Type) where
  /-- `ngx_task_post` returned `rc`. -/
  | post (task : Task α) (rc : Rc)
  /-- A thread calls `ngx_http_lua_ffi_task_poll`. -/
  | enter (th : Th)
  /-- A critical section ended in the condition wait. -/
  | sleep (th : Th)
  /-- A critical section dequeued `task`. -/
  | take (th : Th) (task : Task α)
  | wake (th : Th)
  /-- `ngx_http_lua_ffi_free_task_queue`, and the poll returns `NULL`. -/
  | free (th : Th)

/-- The tasks an event has enqueued. -/
def Event.accepted : Event Th α → List (Task α)
  | .post task .ok => [task]
  | _ => []

/-- The tasks an event has dequeued. -/
def Event.taken : Event Th α → List (Task α)
  | .take _ task => [task]
  | _ => []

/-- A queue and the position of every thread that polls it. -/
structure Pollers (Th α : Type) where
  tq : TaskQueue α
  pc : Th → Pc
  freed : Bool

namespace Pollers
variable {Th α : Type}

/-- A new queue, polled by nobody yet. -/
def init (maxQueue : Int) : Pollers Th α := ⟨.init maxQueue, fun _ => .outside, false⟩

/-- A signal wakes only sleeping pollers, and at least one if there is one. -/
def Wakes (woken : Finset Th) (pc : Th → Pc) : Prop :=
  (∀ th ∈ woken, pc th = .asleep) ∧ ((∃ th, pc th = .asleep) → woken.Nonempty)

variable [DecidableEq Th]

def wakeUp (woken : Finset Th) (pc : Th → Pc) (th : Th) : Pc :=
  if th ∈ woken then .awake else pc th

/-- `ngx_task_post` of a new task; an accepted post has signalled the condition. -/
def post (s : Pollers Th α) (env : TaskQueue.PostEnv) (task : Task α) (woken : Finset Th) :
    Rc × Pollers Th α :=
  match TaskQueue.ngxTaskPost env s.tq false task with
  | (.error, tq) => (.error, { s with tq })
  | (.ok, tq) => (.ok, { s with tq, pc := wakeUp woken s.pc })

theorem post_fst (s : Pollers Th α) (env : TaskQueue.PostEnv) (task : Task α) (woken : Finset Th) :
    (s.post env task woken).1 = (TaskQueue.ngxTaskPost env s.tq false task).1 := by
  unfold post; split <;> simp_all

/-- The critical section of a poll from the test of its loop on. -/
def take (s : Pollers Th α) (th : Th) : Event Th α × Pollers Th α :=
  match s.tq.pollTake with
  | none => (.sleep th, { s with pc := Function.update s.pc th .asleep })
  | some (task, tq) =>
    (.take th task, { s with tq, pc := Function.update s.pc th (.afterTake task) })

/-- One step at the queue. A freed queue keeps its bytes: what a poll of it does is undefined in C,
and `RestyFfi.Queue.Teardown` says when there is none. -/
inductive Step (s : Pollers Th α) : Event Th α → Pollers Th α → Prop where
  | post : Wakes woken s.pc → Step s (.post task (s.post env task woken).1) (s.post env task woken).2
  | enter : s.pc th = .outside → Step s (.enter th) { s with pc := Function.update s.pc th .locking }
  | lock : s.pc th = .locking →
    Step s (take { s with tq := s.tq.pollEnter } th).1 (take { s with tq := s.tq.pollEnter } th).2
  | relock : s.pc th = .awake → Step s (s.take th).1 (s.take th).2
  | wake : s.pc th = .asleep → Step s (.wake th) { s with pc := Function.update s.pc th .awake }
  | free : s.pc th = .freeing →
    Step s (.free th) { s with pc := Function.update s.pc th .stopped, freed := true }

/-- A run of a queue created with the limit `maxQueue`. -/
abbrev Runs (maxQueue : Int) (es : List (Event Th α)) (s : Pollers Th α) : Prop :=
  Run Step (init maxQueue) es s

/-! ## What a step can do -/

/-- The steps with the case distinctions of `ngxTaskPost` and `pollTake` resolved. -/
inductive Move (s : Pollers Th α) : Event Th α → Pollers Th α → Prop where
  | rejected : Move s (.post task .error) s
  | accepted : Wakes woken s.pc → (task.ctx.isSome → s.tq.waiting < s.tq.maxQueue) →
    Move s (.post task .ok)
      { s with
        tq := { s.tq with queue := s.tq.queue ++ [task], waiting := s.tq.waiting + 1 }
        pc := wakeUp woken s.pc }
  | enter : s.pc th = .outside → Move s (.enter th) { s with pc := Function.update s.pc th .locking }
  | sleep : s.pc th = .locking → s.tq.queue = [] →
    Move s (.sleep th)
      { s with
        tq := { s.tq with waiting := s.tq.waiting - 1 }
        pc := Function.update s.pc th .asleep }
  | resleep : s.pc th = .awake → s.tq.queue = [] →
    Move s (.sleep th) { s with pc := Function.update s.pc th .asleep }
  | take : s.pc th = .locking → s.tq.queue = task :: rest →
    Move s (.take th task)
      { s with
        tq := { s.tq with queue := rest, waiting := s.tq.waiting - 1 }
        pc := Function.update s.pc th (.afterTake task) }
  | retake : s.pc th = .awake → s.tq.queue = task :: rest →
    Move s (.take th task)
      { s with
        tq := { s.tq with queue := rest }
        pc := Function.update s.pc th (.afterTake task) }
  | wake : s.pc th = .asleep → Move s (.wake th) { s with pc := Function.update s.pc th .awake }
  | free : s.pc th = .freeing →
    Move s (.free th) { s with pc := Function.update s.pc th .stopped, freed := true }

variable {s s' : Pollers Th α} {e : Event Th α} {es : List (Event Th α)}

theorem Step.move (h : Step s e s') : Move s e s' := by
  cases h with
  | @post woken task env hw =>
    unfold Pollers.post
    rcases TaskQueue.ngxTaskPost_cases env s.tq false task with h | ⟨h, _, _, _, hlim⟩
    · rw [h]; exact .rejected
    · rw [h]; exact .accepted hw hlim
  | enter h => exact .enter h
  | lock h =>
    unfold Pollers.take
    split
    · rename_i hq
      have hq := TaskQueue.pollTake_eq_none.mp hq
      exact .sleep h hq
    · rename_i hq
      obtain ⟨rest, hr, rfl⟩ := TaskQueue.pollTake_eq_some.mp hq
      exact .take h hr
  | relock h =>
    unfold Pollers.take
    split
    · rename_i hq; exact .resleep h (TaskQueue.pollTake_eq_none.mp hq)
    · rename_i hq
      obtain ⟨rest, hr, rfl⟩ := TaskQueue.pollTake_eq_some.mp hq
      exact .retake h hr
  | wake h => exact .wake h
  | free h => exact .free h

/-! ## The queue is a FIFO -/

theorem Step.fifo (h : Step s e s') : e.taken ++ s'.tq.queue = s.tq.queue ++ e.accepted := by
  cases h.move with
  | rejected | accepted | enter | wake | free | sleep | resleep =>
    simp [Event.taken, Event.accepted]
  | take _ hq | retake _ hq => simp [Event.taken, Event.accepted, hq]

/-- What polls have handed out, followed by what is queued, is what posts have enqueued. -/
theorem Runs.fifo (H : Runs n es s) :
    es.flatMap Event.taken ++ s.tq.queue = es.flatMap Event.accepted := by
  induction H with
  | nil => rfl
  | snoc _ h ih => simp [← ih, ← h.fifo]

theorem Step.maxQueue_eq (h : Step s e s') : s'.tq.maxQueue = s.tq.maxQueue := by
  cases h.move <;> rfl

theorem Runs.maxQueue_eq (H : Runs n es s) : s.tq.maxQueue = n := by
  induction H with
  | nil => rfl
  | snoc _ h ih => rw [h.maxQueue_eq, ih]

end Pollers
end RestyFfi
