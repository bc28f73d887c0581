import Mathlib.Data.List.Basic

/-!
# The request queue of a runtime

`ffi_task_queue_t` and the functions of `ngx_http_lua_ffi.c` that work on it. The linked list is
the abstract `List` that the pointers are shown to represent in `RestyFfi.Queue.Pointers`; the
mutex and the condition are not data but decide which steps exist (`RestyFfi.Queue.Pollers`).

Calls into the allocator and the thread library may fail. Their answers are arguments, `true` for
success, so that every error exit of the source is a branch here.
-/

namespace RestyFfi

/-- `NGX_OK` and `NGX_ERROR`. -/
inductive Rc where
  | ok
  | error
  deriving DecidableEq, Repr

/-- An `ngx_thread_task_t`. Its `ctx` is null exactly for the finish marker; the request of any
other task is named by `a`. -/
inductive Task (α : Type u) where
  | request (a : α)
  | finish
  deriving DecidableEq, Repr

/-- `task->ctx`. -/
def Task.ctx : Task α → Option α
  | .request a => some a
  | .finish => none

@[simp] theorem Task.ctx_request (a : α) : (Task.request a).ctx = some a := rfl
@[simp] theorem Task.ctx_finish : (Task.finish : Task α).ctx = none := rfl

/-- `ffi_task_queue_t` without its mutex and condition. -/
structure TaskQueue (α : Type u) where
  queue : List (Task α)
  waiting : Int
  maxQueue : Int
  deriving DecidableEq, Repr

/-- The result of a call that may have dereferenced a null pointer. -/
inductive Outcome (β : Type u) where
  | nullDeref
  | ret (b : β)
  deriving DecidableEq, Repr

namespace TaskQueue

/-- The zeroed queue that `createTaskQueue` returns. -/
def init (maxQueue : Int) : TaskQueue α := ⟨[], 0, maxQueue⟩

@[simp] theorem init_queue : (init n : TaskQueue α).queue = [] := rfl
@[simp] theorem init_waiting : (init n : TaskQueue α).waiting = 0 := rfl
@[simp] theorem init_maxQueue : (init n : TaskQueue α).maxQueue = n := rfl

/-- `ngx_http_lua_ffi_create_task_queue`. The result of `ngx_calloc` is used by
`ngx_task_queue_init` without a check. -/
def createTaskQueue (calloc mutexCreate condCreate : Bool) (maxQueue : Int) :
    Outcome (Option (TaskQueue α)) :=
  if !calloc then .nullDeref
  else if !mutexCreate then .ret none
  else if !condCreate then .ret none
  else .ret (some (init maxQueue))

/-- The answers of the thread library during one `ngx_task_post`. -/
structure PostEnv where
  lock : Bool := true
  signal : Bool := true
  unlock : Bool := true
  deriving DecidableEq, Repr

/-- `ngx_task_post`. The limit is tested for requests only, the condition is signalled before the
task is linked, and the result of the unlock is ignored on all three exits that reach it. -/
def ngxTaskPost (env : PostEnv) (tp : TaskQueue α) (active : Bool) (task : Task α) :
    Rc × TaskQueue α :=
  if active then (.error, tp)
  else if !env.lock then (.error, tp)
  else if task.ctx.isSome ∧ tp.waiting ≥ tp.maxQueue then (.error, tp)
  else if !env.signal then (.error, tp)
  else (.ok, { tp with queue := tp.queue ++ [task], waiting := tp.waiting + 1 })

/-- `ngx_http_lua_ffi_create_task`: null without a module context or without memory. A new task
is zeroed, in particular not active. -/
def createTask (moduleCtx calloc : Bool) (a : α) : Option (Task α) :=
  if !moduleCtx then none
  else if !calloc then none
  else some (.request a)

/-- `ngx_http_lua_ffi_task_post`. It reads `task->ctx` whether or not there is a task. -/
def taskPost (moduleCtx calloc : Bool) (env : PostEnv) (tp : TaskQueue α) (a : α) :
    Outcome (Rc × TaskQueue α) :=
  match createTask moduleCtx calloc a with
  | none => .nullDeref
  | some task => .ret (ngxTaskPost env tp false task)

/-- `ngx_http_lua_ffi_task_finish`. -/
def taskFinish (calloc : Bool) (env : PostEnv) (tp : TaskQueue α) :
    Outcome (Rc × TaskQueue α) :=
  if !calloc then .nullDeref
  else .ret (ngxTaskPost env tp false .finish)

/-- The entry of `ngx_http_lua_ffi_task_poll`: `tp->waiting--`. -/
def pollEnter (tp : TaskQueue α) : TaskQueue α := { tp with waiting := tp.waiting - 1 }

/-- The part of `ngx_http_lua_ffi_task_poll` behind its loop: unlink the first task. `none` while
`tp->queue.first == NULL`, the loop's condition. -/
def pollTake (tp : TaskQueue α) : Option (Task α × TaskQueue α) :=
  match tp.queue with
  | [] => none
  | task :: rest => some (task, { tp with queue := rest })

@[simp] theorem pollEnter_queue (tp : TaskQueue α) : tp.pollEnter.queue = tp.queue := rfl
@[simp] theorem pollEnter_waiting (tp : TaskQueue α) : tp.pollEnter.waiting = tp.waiting - 1 := rfl
@[simp] theorem pollEnter_maxQueue (tp : TaskQueue α) : tp.pollEnter.maxQueue = tp.maxQueue := rfl

theorem pollTake_eq_none {tp : TaskQueue α} : tp.pollTake = none ↔ tp.queue = [] := by
  unfold pollTake; split <;> simp_all

theorem pollTake_eq_some {tp tp' : TaskQueue α} {task : Task α} :
    tp.pollTake = some (task, tp') ↔
      ∃ rest, tp.queue = task :: rest ∧ tp' = { tp with queue := rest } := by
  unfold pollTake; split
  · simp_all
  · simp_all only [Option.some.injEq, Prod.mk.injEq, List.cons.injEq]
    constructor
    · rintro ⟨rfl, rfl⟩; exact ⟨_, ⟨rfl, rfl⟩, rfl⟩
    · rintro ⟨_, ⟨rfl, rfl⟩, rfl⟩; exact ⟨rfl, rfl⟩

/-- A post does one of two things: it fails and changes nothing, or it appends and counts. -/
theorem ngxTaskPost_cases (env : PostEnv) (tp : TaskQueue α) (active : Bool) (task : Task α) :
    ngxTaskPost env tp active task = (.error, tp) ∨
      ngxTaskPost env tp active task =
        (.ok, { tp with queue := tp.queue ++ [task], waiting := tp.waiting + 1 }) ∧
      active = false ∧ env.lock = true ∧ env.signal = true ∧
        (task.ctx.isSome → tp.waiting < tp.maxQueue) := by
  unfold ngxTaskPost
  split
  · exact .inl rfl
  split
  · exact .inl rfl
  split
  · exact .inl rfl
  split
  · exact .inl rfl
  · simp_all

theorem ngxTaskPost_request_ok_iff (env : PostEnv) (tp : TaskQueue α) (a : α) :
    (ngxTaskPost env tp false (.request a)).1 = .ok ↔
      env.lock = true ∧ env.signal = true ∧ tp.waiting < tp.maxQueue := by
  by_cases hlim : tp.waiting ≥ tp.maxQueue
  · have : ¬ tp.waiting < tp.maxQueue := by omega
    cases hl : env.lock <;> simp [ngxTaskPost, hl, hlim, this]
  · have : tp.waiting < tp.maxQueue := by omega
    cases hl : env.lock <;> cases hs : env.signal <;>
      simp [ngxTaskPost, hl, hs, Int.not_le.mpr this, this]

theorem ngxTaskPost_request_error_iff {env : PostEnv} (hl : env.lock = true)
    (hs : env.signal = true) (tp : TaskQueue α) (a : α) :
    (ngxTaskPost env tp false (.request a)).1 = .error ↔ tp.waiting ≥ tp.maxQueue := by
  unfold ngxTaskPost
  by_cases h : tp.waiting ≥ tp.maxQueue <;> simp [hl, hs, h]

theorem ngxTaskPost_finish_ok {env : PostEnv} (hl : env.lock = true) (hs : env.signal = true)
    (tp : TaskQueue α) : (ngxTaskPost env tp false .finish).1 = .ok := by
  simp [ngxTaskPost, hl, hs]

end TaskQueue
end RestyFfi
