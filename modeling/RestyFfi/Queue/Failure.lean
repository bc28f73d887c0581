import RestyFfi.Queue.Basic

/-!
# Failing calls

Every call that the queue functions make into the allocator and the thread library, and what is
left behind when it fails. A failed call is *atomic* if it returns its error value, uses no null
pointer, and leaves the task list and the counter as they would be without it.

`ngx_task_post` decides everything before it changes anything. `ngx_http_lua_ffi_task_poll` does
not: it counts itself as waiting before it waits, and unlinks the task before it unlocks.
-/

namespace RestyFfi.TaskQueue
variable {α : Type}

/-! ## A poll with its error exits -/

/-- What the critical section of another thread does to the list and the counter. -/
inductive Other (α : Type) where
  | enqueue (task : Task α)
  | enter
  | dequeue

def Other.apply (tp : TaskQueue α) : Other α → TaskQueue α
  | .enqueue task => { tp with queue := tp.queue ++ [task], waiting := tp.waiting + 1 }
  | .enter => tp.pollEnter
  | .dequeue => { tp with queue := tp.queue.tail }

/-- One `ngx_thread_cond_wait`: what other threads did before it came back, and its result. -/
structure Wait (α : Type) where
  others : List (Other α)
  ok : Bool

def Wait.elapse (w : Wait α) (tp : TaskQueue α) : TaskQueue α := w.others.foldl Other.apply tp

/-- The answers of the thread library during one poll. -/
structure PollEnv (α : Type) where
  lock : Bool
  waits : List (Wait α)
  unlock : Bool

/-- How a poll ends, as far as `waits` goes. -/
inductive Polled (α : Type) where
  /-- Still in the condition wait. -/
  | blocked
  /-- `NULL` after an error. -/
  | null
  | task (a : α)
  /-- `NULL` after the finish marker; the queue is freed. -/
  | freed
  deriving DecidableEq

/-- Behind the loop: the task is unlinked before the mutex is released. -/
def pollEnd (unlock : Bool) (tp : TaskQueue α) (task : Task α) : Polled α × TaskQueue α :=
  if !unlock then (.null, tp)
  else match task.ctx with
    | some a => (.task a, tp)
    | none => (.freed, tp)

/-- The loop of `ngx_http_lua_ffi_task_poll`. -/
def pollLoop (unlock : Bool) : List (Wait α) → TaskQueue α → Polled α × TaskQueue α
  | [], tp =>
    match tp.pollTake with
    | some (task, tp) => pollEnd unlock tp task
    | none => (.blocked, tp)
  | w :: ws, tp =>
    match tp.pollTake with
    | some (task, tp) => pollEnd unlock tp task
    | none => if !w.ok then (.null, w.elapse tp) else pollLoop unlock ws (w.elapse tp)

/-- `ngx_http_lua_ffi_task_poll`. -/
def taskPoll (env : PollEnv α) (tp : TaskQueue α) : Polled α × TaskQueue α :=
  if !env.lock then (.null, tp)
  else pollLoop env.unlock env.waits tp.pollEnter

/-- What other threads did during the waits that a poll of `tp` reaches. -/
def elapse : List (Wait α) → TaskQueue α → TaskQueue α
  | [], tp => tp
  | w :: ws, tp =>
    if tp.queue ≠ [] then tp
    else if w.ok then elapse ws (w.elapse tp)
    else w.elapse tp

/-- A wait fails, or the unlock behind the loop. -/
def loopFails (unlock : Bool) : List (Wait α) → TaskQueue α → Prop
  | [], tp => tp.queue ≠ [] ∧ unlock = false
  | w :: ws, tp =>
    if tp.queue ≠ [] then unlock = false
    else w.ok = false ∨ loopFails unlock ws (w.elapse tp)

/-! ## Atomicity -/

/-- A call of the queue API with the answers of the allocator and the thread library. -/
inductive Call (α : Type) where
  | createTaskQueue (calloc mutexCreate condCreate : Bool) (maxQueue : Int)
  | taskPost (calloc : Bool) (env : PostEnv) (a : α)
  | taskFinish (calloc : Bool) (env : PostEnv)
  | taskPoll (env : PollEnv α)

/-- A request is refused at the limit. -/
def overflow (tp : TaskQueue α) : Prop := tp.waiting ≥ tp.maxQueue

/-- Something the call reaches fails. -/
def Call.Fails (tp : TaskQueue α) : Call α → Prop
  | .createTaskQueue calloc mutexCreate condCreate _ =>
    calloc = false ∨ mutexCreate = false ∨ condCreate = false
  | .taskPost calloc env _ =>
    calloc = false ∨ env.lock = false ∨ env.unlock = false ∨ (¬ tp.overflow ∧ env.signal = false)
  | .taskFinish calloc env =>
    calloc = false ∨ env.lock = false ∨ env.unlock = false ∨ env.signal = false
  | .taskPoll env => env.lock = false ∨ loopFails env.unlock env.waits tp

/-- The call returns its error value, and the queue is what other threads made of it. -/
def Call.Atomic (tp : TaskQueue α) : Call α → Prop
  | .createTaskQueue calloc mutexCreate condCreate n =>
    (TaskQueue.createTaskQueue calloc mutexCreate condCreate n : Outcome (Option (TaskQueue α))) =
      .ret none
  | .taskPost calloc env a => TaskQueue.taskPost true calloc env tp a = .ret (.error, tp)
  | .taskFinish calloc env => TaskQueue.taskFinish calloc env tp = .ret (.error, tp)
  | .taskPoll env =>
    TaskQueue.taskPoll env tp = (.null, if env.lock then elapse env.waits tp else tp)

/-- A failing call is atomic. -/
def Call.FailureAtomic (c : Call α) (tp : TaskQueue α) : Prop := c.Fails tp → c.Atomic tp

/-- The failures that the source handles: there is memory, and the first thing to fail is the
creation of the mutex or the condition, the lock, or the signal (or the request is refused, and
then no unlock matters). -/
def Call.Handled (tp : TaskQueue α) : Call α → Prop
  | .createTaskQueue calloc _ _ _ => calloc = true
  | .taskPost calloc env _ =>
    calloc = true ∧ (env.lock = false ∨ tp.overflow ∨ env.signal = false)
  | .taskFinish calloc env => calloc = true ∧ (env.lock = false ∨ env.signal = false)
  | .taskPoll env => env.lock = false

/-! ## What a failed poll leaves behind -/

theorem Other.apply_pollEnter (tp : TaskQueue α) (o : Other α) :
    o.apply tp.pollEnter = (o.apply tp).pollEnter := by
  cases o <;> simp [Other.apply, pollEnter]

theorem Wait.elapse_pollEnter (w : Wait α) (tp : TaskQueue α) :
    w.elapse tp.pollEnter = (w.elapse tp).pollEnter := by
  unfold Wait.elapse
  generalize w.others = os
  induction os generalizing tp with
  | nil => rfl
  | cons o os ih => simp only [List.foldl_cons, Other.apply_pollEnter, ih]

/-- A poll that fails inside its loop or behind it stays counted as waiting. Behind the loop the
first task is gone as well. -/
theorem pollLoop_failed {unlock : Bool} {ws : List (Wait α)} {tp : TaskQueue α}
    (h : loopFails unlock ws tp) : ∃ tp' : TaskQueue α,
      pollLoop unlock ws tp.pollEnter = (.null, tp') ∧
      tp'.waiting = (elapse ws tp).waiting - 1 ∧
      (tp'.queue = (elapse ws tp).queue ∨ ∃ task, (elapse ws tp).queue = task :: tp'.queue) := by
  -- the exit behind the loop, reached with the queue `tp'`
  have hend : ∀ {tp' : TaskQueue α} {task rest}, tp'.queue = task :: rest → unlock = false →
      ∃ tp'', pollEnd unlock { tp'.pollEnter with queue := rest } task = (.null, tp'') ∧
        tp''.waiting = tp'.waiting - 1 ∧
        (tp''.queue = tp'.queue ∨ ∃ task, tp'.queue = task :: tp''.queue) := by
    intro tp' task rest hq hu
    exact ⟨_, by rw [pollEnd, hu]; rfl, rfl, .inr ⟨task, hq⟩⟩
  induction ws generalizing tp with
  | nil =>
    obtain ⟨hne, hu⟩ := h
    obtain ⟨task, rest, hq⟩ := List.exists_cons_of_ne_nil hne
    simpa only [pollLoop, pollTake, pollEnter_queue, hq, elapse] using hend hq hu
  | cons w ws ih =>
    cases hq : tp.queue with
    | cons task rest =>
      have hu : unlock = false := by simpa [loopFails, hq] using h
      have he : elapse (w :: ws) tp = tp := by simp [elapse, hq]
      rw [he]
      simpa only [pollLoop, pollTake, pollEnter_queue, hq] using hend hq hu
    | nil =>
      have h : w.ok = false ∨ loopFails unlock ws (w.elapse tp) := by
        simpa [loopFails, hq] using h
      cases hok : w.ok with
      | false =>
        have he : elapse (w :: ws) tp = w.elapse tp := by simp [elapse, hq, hok]
        refine ⟨(w.elapse tp).pollEnter, ?_, by rw [he]; rfl, .inl (by rw [he]; rfl)⟩
        simp [pollLoop, pollTake, hq, hok, Wait.elapse_pollEnter]
      | true =>
        have he : elapse (w :: ws) tp = elapse ws (w.elapse tp) := by simp [elapse, hq, hok]
        have hl : pollLoop unlock (w :: ws) tp.pollEnter =
            pollLoop unlock ws (w.elapse tp).pollEnter := by
          simp [pollLoop, pollTake, hq, hok, Wait.elapse_pollEnter]
        rw [he, hl]
        exact ih (by simpa [hok] using h)

/-! ## The failures that are handled -/

theorem createTaskQueue_atomic_iff {calloc mutexCreate condCreate : Bool} {n : Int}
    {tp : TaskQueue α} (h : (Call.createTaskQueue calloc mutexCreate condCreate n).Fails tp) :
    (Call.createTaskQueue calloc mutexCreate condCreate n).Atomic tp ↔ calloc = true := by
  simp only [Call.Fails, Call.Atomic, createTaskQueue] at *
  cases calloc <;> cases mutexCreate <;> cases condCreate <;> simp at *

theorem taskPost_atomic_iff {calloc : Bool} {env : PostEnv} {a : α} {tp : TaskQueue α}
    (h : (Call.taskPost calloc env a).Fails tp) :
    (Call.taskPost calloc env a).Atomic tp ↔ (Call.taskPost calloc env a).Handled tp := by
  obtain ⟨lock, signal, unlock⟩ := env
  simp only [Call.Fails, Call.Atomic, Call.Handled, taskPost, createTask, ngxTaskPost, overflow] at *
  by_cases ho : tp.waiting ≥ tp.maxQueue <;>
    cases calloc <;> cases lock <;> cases signal <;> simp_all

theorem taskFinish_atomic_iff {calloc : Bool} {env : PostEnv} {tp : TaskQueue α}
    (h : (Call.taskFinish calloc env).Fails tp) :
    (Call.taskFinish calloc env).Atomic tp ↔ (Call.taskFinish calloc env).Handled tp := by
  obtain ⟨lock, signal, unlock⟩ := env
  simp only [Call.Fails, Call.Atomic, Call.Handled, taskFinish, ngxTaskPost] at *
  cases calloc <;> cases lock <;> cases signal <;> simp_all

theorem taskPoll_atomic_iff {env : PollEnv α} {tp : TaskQueue α}
    (h : (Call.taskPoll env).Fails tp) : (Call.taskPoll env).Atomic tp ↔ env.lock = false := by
  simp only [Call.Fails, Call.Atomic, taskPoll] at *
  cases hl : env.lock with
  | false => simp
  | true =>
    simp only [hl, Bool.true_eq_false, false_or] at h
    obtain ⟨tp', hp, hw, _⟩ := pollLoop_failed h
    simp only [Bool.not_true, Bool.false_eq_true, if_false, if_true, hp, Prod.mk.injEq, true_and,
      Bool.true_eq_false, iff_false]
    rintro rfl
    omega

/-- **Failure atomicity.** A call is atomic at every point of failure exactly if the failure is one
that the source handles: no missing memory, no failed wait, no failed unlock after the queue has
been changed. -/
theorem failureAtomic_iff (c : Call α) (tp : TaskQueue α) :
    c.FailureAtomic tp ↔ (c.Fails tp → c.Handled tp) := by
  refine forall_congr' fun h => ?_
  cases c with
  | createTaskQueue => exact createTaskQueue_atomic_iff h
  | taskPost => exact taskPost_atomic_iff h
  | taskFinish => exact taskFinish_atomic_iff h
  | taskPoll => exact taskPoll_atomic_iff h

/-- A poll of an empty queue whose condition wait fails. -/
def failedWait : PollEnv Nat := ⟨true, [⟨[], false⟩], true⟩

/-- It fails and leaves the counter at `-1`, so that a queue with limit 1 accepts two requests. -/
theorem failedWait_not_atomic : ¬ (Call.taskPoll failedWait).FailureAtomic (init 1) := by
  intro h
  have := h (.inr (by simp [failedWait, loopFails]))
  simp [Call.Atomic, taskPoll, failedWait, pollLoop, pollTake, Wait.elapse, elapse, pollEnter,
    init] at this

end RestyFfi.TaskQueue
