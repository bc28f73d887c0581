import RestyFfi.Base.BlockHeap
import RestyFfi.Lua.System

/-!
# The nginx worker

The runtimes of `RestyFfi.Lua.System` together with the coroutines that post requests: the tasks
and the request and response buffers on the heap, the tasks that runtime threads hold, the done
list with the batch the event loop has detached from it, and the context of every coroutine.

nginx runs Lua, the event handler and the cleanup callbacks on one thread. What a resumed coroutine
does before the handler returns are further steps, so an abort may fall between the handlers of one
batch. The runtime threads interleave with all of it.

Addresses are reused, and a stale pointer is followed to whatever task lives at its address by
then. Tasks and buffers have address spaces of their own; what a stale callback can do to a buffer,
as both come from one `malloc`, is added in `RestyFfi.Worker.Cleanup` (`Worker.HeapStep`).
-/

namespace RestyFfi
open Transition

abbrev Bytes := List UInt8

/-! ## Values -/

/-- A Lua value that the event handler pushes. -/
inductive LuaVal where
  | nil
  | bool (b : Bool)
  | int (n : Int)
  | str (s : Bytes)
  /-- A string read beyond the end of its block, or from a freed one. -/
  | wild
  deriving DecidableEq, Repr

/-- `lua_pushlstring` of a block; the length is converted to `size_t`. -/
def pushlstring (block : Bytes) (len : Int) : LuaVal :=
  if 0 ≤ len ∧ len ≤ block.length then .str (block.take len.toNat) else .wild

/-- `lua_pushstring` of a block. -/
def pushstring (block : Bytes) : LuaVal :=
  if 0 ∈ block then .str (block.takeWhile (· ≠ 0)) else .wild

/-- The response value: `nil` for `NULL`, the bytes by their length, or up to a `NUL`. -/
def response (rsp : Option Bytes) (len : Int) : LuaVal :=
  match rsp with
  | none => .nil
  | some block => if len ≠ 0 then pushlstring block len else pushstring block

/-- What a caller of `post` gets for an answer `rc`, `rsp`, `len`: `true, response, nil`, or
`false, rc, response`. -/
def answer (rc : Int) (rsp : Option Bytes) (len : Int) : List LuaVal :=
  if rc = 0 then [.bool true, response rsp len, .nil] else [.bool false, .int rc, response rsp len]

/-- The buffer that the Lua function `post` fills: the request with a `NUL` behind it. -/
def reqBuffer : Option Bytes → Option Bytes
  | none => none
  | some req => some (req ++ [0])

/-- `#req`, or 0 without a request. -/
def reqLength : Option Bytes → Int
  | none => 0
  | some req => req.length

/-! ## Tasks and coroutines -/

/-- `ffi_task_ctx_t`, at the address of its task. The pointers are addresses of buffers. -/
structure FfiTaskCtx (Co : Type) where
  waitCoCtx : Co
  rc : Int := 0
  req : Option Nat := none
  reqLen : Int := 0
  rsp : Option Nat := none
  rspLen : Int := 0
  isAbort : Bool := false

/-- The cleanup callback of a coroutine context. -/
inductive Cleanup where
  | null
  /-- `ngx_http_lua_ffi_cleanup`. -/
  | ffi
  /-- That of another nginx-lua operation. -/
  | other
  deriving DecidableEq, Repr

/-- What a coroutine is doing. -/
inductive CoStatus where
  | dead
  | running
  /-- Suspended in `post`, by the post that created the task stamped `i`. -/
  | waiting (i : Nat)
  /-- Suspended in another nginx-lua operation. -/
  | elsewhere
  deriving DecidableEq, Repr

/-- `ngx_http_lua_co_ctx_t`. `data` belongs to the operation that installed the callback. -/
structure CoCtx where
  cleanup : Cleanup
  data : Nat
  status : CoStatus

/-- The answers of nginx to the two checks of the event handler. -/
structure HandlerEnv where
  /-- `ngx_http_lua_get_req(L)` is not `NULL`. -/
  req : Bool := true
  /-- `ngx_http_get_module_ctx(r, ngx_http_lua_module)` is not `NULL`. -/
  moduleCtx : Bool := true
  deriving DecidableEq, Repr

/-- How the event handler ends. -/
inductive Handled (Co : Type) where
  | failed
  | resumed (c : Co) (vals : List LuaVal)

/-- The state of a worker. The lists hold addresses of tasks. -/
structure Worker (Th Lib Co : Type) where
  sys : System Th Lib Nat
  tasks : BlockHeap (FfiTaskCtx Co)
  bufs : BlockHeap Bytes
  /-- Returned by a poll and not responded to. -/
  held : List Nat
  /-- `ngx_thread_pool_done`. -/
  done : List Nat
  /-- The rest of the batch that the event loop is handling. -/
  drained : List Nat
  co : Co → CoCtx

/-- What happens in a worker. Tasks and buffers are named by their stamps. -/
inductive WorkerEvent (Th Lib Co : Type) where
  /-- The coroutine `c` posts `req` at the queue `q`. The task is `i`, its buffer `j`. -/
  | post (c : Co) (q : Nat) (env : TaskQueue.PostEnv) (i : Nat) (req : Option Bytes) (j : Nat)
    (rc : Rc)
  /-- Everything else that happens to the Lua module, at the queues and in the collector. -/
  | sys (e : SysEvent Th Lib Nat)
  /-- `ngx_http_lua_ffi_respond` for the task `i`, with the new buffer `j` or `NULL`. -/
  | respond (i : Nat) (rc : Int) (rsp : Option Bytes) (j : Nat) (len : Int)
  /-- The event loop detaches the done list. -/
  | drain
  /-- The event loop handles the task `i`. -/
  | handle (i : Nat) (env : HandlerEnv) (r : Handled Co)
  | abort (c : Co)
  /-- The coroutine starts another nginx-lua operation, with its own `data`. -/
  | other (c : Co) (data : Nat)
  | otherDone (c : Co)
  | spawn (c : Co)

/-- An event that concerns nothing but a coroutine. -/
def WorkerEvent.isCo : WorkerEvent Th Lib Co → Bool
  | .abort .. | .other .. | .otherDone .. | .spawn .. => true
  | _ => false

/-- The task that a runtime thread takes from its queue. -/
def SysEvent.polled : SysEvent Th Lib α → Option (Nat × α)
  | .queue q (.take _ (.request a)) => some (q, a)
  | _ => none

/-- A post of a request, which a coroutine makes. -/
def SysEvent.isRequest : SysEvent Th Lib α → Bool
  | .call _ _ (some (_, .post (.request _) _)) => true
  | _ => false

namespace FfiTaskCtx
variable {Co : Type}

/-- The bytes behind a buffer pointer. -/
def read (bufs : BlockHeap Bytes) (p : Nat) : Option Bytes := (bufs.cells p).map (·.2)

/-- `ngx_http_lua_ffi_get_req`: the request buffer and the length. -/
def getReq (t : FfiTaskCtx Co) (bufs : BlockHeap Bytes) : Option Bytes × Int :=
  (t.req.bind (read bufs), t.reqLen)

/-- The assignments of `ngx_http_lua_ffi_respond`. -/
def respond (rc : Int) (rsp : Option Nat) (len : Int) (t : FfiTaskCtx Co) : FfiTaskCtx Co :=
  { t with rc := rc, rsp := rsp, rspLen := len }

/-- `ffi_ctx->is_abort = 1`. -/
def setAbort (t : FfiTaskCtx Co) : FfiTaskCtx Co := { t with isAbort := true }

/-- The push for `ffi_ctx->rsp`. -/
def pushedRsp (t : FfiTaskCtx Co) (bufs : BlockHeap Bytes) : LuaVal :=
  match t.rsp with
  | none => .nil
  | some p => match read bufs p with
    | none => .wild
    | some block => if t.rspLen ≠ 0 then pushlstring block t.rspLen else pushstring block

/-- The pushes of the event handler, in order. -/
def pushed (t : FfiTaskCtx Co) (bufs : BlockHeap Bytes) : List LuaVal :=
  [.bool (if t.rc ≠ 0 then false else true)] ++ (if t.rc ≠ 0 then [.int t.rc] else []) ++
    [t.pushedRsp bufs] ++ (if t.rc = 0 then [.nil] else [])

end FfiTaskCtx

namespace Worker
variable {Th Lib Co : Type}

def init : Worker Th Lib Co :=
  ⟨.init, .empty, .empty, [], [], [], fun _ => ⟨.null, 0, .dead⟩⟩

/-- `ngx_http_lua_ffi_task_free` of the task `t` at `a`. -/
def taskFree (w : Worker Th Lib Co) (a : Nat) (t : FfiTaskCtx Co) : Worker Th Lib Co :=
  { w with bufs := (w.bufs.freeOpt t.req).freeOpt t.rsp, tasks := w.tasks.free a }

/-- `ngx_http_lua_ffi_cleanup` of a coroutine context with the given `data`. -/
def cleanup (w : Worker Th Lib Co) (data : Nat) : Worker Th Lib Co :=
  { w with tasks := w.tasks.modify data .setAbort }

/-- Run the pending cleanup callback of a coroutine, if there is one. The callbacks of other
operations touch nothing that is modelled here. -/
def runCleanup (w : Worker Th Lib Co) (x : CoCtx) : Worker Th Lib Co :=
  match x.cleanup with
  | .ffi => w.cleanup x.data
  | .null | .other => w

variable [DecidableEq Co]

def setCo (w : Worker Th Lib Co) (c : Co) (x : CoCtx) : Worker Th Lib Co :=
  { w with co := Function.update w.co c x }

/-- `ngx_http_lua_ffi_create_task` for the coroutine `c`, at the unused address `a`, with the
request that `ngx_http_lua_ffi_task_post` stores in it. -/
def createTask (w : Worker Th Lib Co) (c : Co) (a : Nat) (ha : w.tasks.cells a = none)
    (t : FfiTaskCtx Co) : Worker Th Lib Co :=
  { w with
    tasks := w.tasks.alloc a t ha
    co := Function.update w.co c { w.co c with cleanup := .ffi, data := a } }

/-- The rest of `ngx_http_lua_ffi_task_post` and of the Lua function `post`, given what
`ngx_task_post` has returned: a rejected task is freed, and after an accepted post the coroutine
yields. -/
def posted (w : Worker Th Lib Co) (c : Co) (a : Nat) (t : FfiTaskCtx Co) (i : Nat) :
    Rc → Worker Th Lib Co
  | .ok => w.setCo c { w.co c with status := .waiting i }
  | .error => w.taskFree a t

/-- `ngx_http_lua_ffi_event_handler` for the task `t` at `a`. The resumed coroutine runs. -/
def eventHandler (w : Worker Th Lib Co) (env : HandlerEnv) (a : Nat) (t : FfiTaskCtx Co) :
    Worker Th Lib Co × Handled Co :=
  if t.isAbort then (w.taskFree a t, .failed)
  else if !env.req then (w.taskFree a t, .failed)
  else if !env.moduleCtx then (w.taskFree a t, .failed)
  else
    let c := t.waitCoCtx
    ((w.setCo c { w.co c with cleanup := .null, status := .running }).taskFree a t,
      .resumed c (t.pushed w.bufs))

/-- A coroutine is killed: its pending cleanup callback is run and cleared. -/
def abort (w : Worker Th Lib Co) (c : Co) : Worker Th Lib Co :=
  (w.runCleanup (w.co c)).setCo c { w.co c with cleanup := .null, status := .dead }

/-- A running coroutine starts another operation, which first runs and clears a pending cleanup
callback and then installs its own. -/
def other (w : Worker Th Lib Co) (c : Co) (data : Nat) : Worker Th Lib Co :=
  (w.runCleanup (w.co c)).setCo c ⟨.other, data, .elsewhere⟩

/-- A new buffer for some bytes, at any unused address, or `NULL`. -/
inductive NewBuffer (h : BlockHeap Bytes) : Option Bytes → Option Nat → BlockHeap Bytes → Prop where
  | null : NewBuffer h none none h
  | block (hp : h.cells p = none) : NewBuffer h (some d) (some p) (h.alloc p d hp)

variable [DecidableEq Th] (resolve : LuaString → Lib)

/-- The steps of a worker. `post` is the Lua function `post` by a running coroutine, up to its end
or to its yield; the request buffer is a copy of the string with a `NUL` behind it. -/
inductive Step (w : Worker Th Lib Co) : WorkerEvent Th Lib Co → Worker Th Lib Co → Prop where
  | post : (w.co c).status = .running → w.sys.lua.call o name = (L, .post q) →
    NewBuffer w.bufs (reqBuffer req) r B → (ha : w.tasks.cells a = none) →
    t = { waitCoCtx := c, req := r, reqLen := reqLength req } →
    w.sys.queues.get q = some p → Pollers.Wakes woken p.pc →
    p.post env (.request a) woken = (rc, p') →
    Step w (.post c q env w.tasks.next req w.bufs.next rc)
      ((createTask { w with bufs := B, sys := ⟨L, w.sys.queues.modify q fun _ => p'⟩ } c a ha
        t).posted c a t w.tasks.next rc)
  | sys : System.Step resolve w.sys e S → e.isRequest = false →
    Step w (.sys e) { w with sys := S, held := w.held ++ (e.polled.map (·.2)).toList }
  | respond : a ∈ w.held → w.tasks.cells a = some (i, t) → NewBuffer w.bufs rsp r B →
    Step w (.respond i rc rsp w.bufs.next len)
      { w with
        tasks := w.tasks.modify a (.respond rc r len)
        bufs := B
        held := w.held.erase a
        done := w.done ++ [a] }
  | drain : w.drained = [] → Step w .drain { w with done := [], drained := w.done }
  | handle : w.drained = a :: rest → w.tasks.cells a = some (i, t) →
    eventHandler { w with drained := rest } env a t = (w', r) → Step w (.handle i env r) w'
  | abort : Step w (.abort c) (w.abort c)
  | other : (w.co c).status = .running → Step w (.other c data) (w.other c data)
  | otherDone : (w.co c).status = .elsewhere →
    Step w (.otherDone c) (w.setCo c { w.co c with cleanup := .null, status := .running })
  | spawn : (w.co c).status = .dead →
    Step w (.spawn c) (w.setCo c { w.co c with cleanup := .null, status := .running })

/-- A run from the start of the worker process. -/
abbrev Runs (ls : List (WorkerEvent Th Lib Co)) (w : Worker Th Lib Co) : Prop :=
  Run (Step resolve) init ls w

/-! ## What a step can do -/

/-- The steps with the case distinctions of the source resolved. -/
inductive Move (w : Worker Th Lib Co) : WorkerEvent Th Lib Co → Worker Th Lib Co → Prop where
  | accepted : (w.co c).status = .running → NewBuffer w.bufs (reqBuffer req) r B →
    (ha : w.tasks.cells a = none) →
    t = { waitCoCtx := c, req := r, reqLen := reqLength req } →
    System.Step resolve w.sys (.call o name (some (q, .post (.request a) .ok))) S →
    Move w (.post c q env w.tasks.next req w.bufs.next .ok)
      { w with
        sys := S
        tasks := w.tasks.alloc a t ha
        bufs := B
        co := Function.update w.co c ⟨.ffi, a, .waiting w.tasks.next⟩ }
  | rejected : (w.co c).status = .running → NewBuffer w.bufs (reqBuffer req) r B →
    (ha : w.tasks.cells a = none) →
    System.Step resolve w.sys (.call o name (some (q, .post (.request a) .error))) S →
    Move w (.post c q env w.tasks.next req w.bufs.next .error)
      { w with
        sys := S
        tasks := (w.tasks.alloc a t ha).free a
        bufs := B.freeOpt r
        co := Function.update w.co c ⟨.ffi, a, .running⟩ }
  | sys : System.Step resolve w.sys e S → e.isRequest = false →
    Move w (.sys e) { w with sys := S, held := w.held ++ (e.polled.map (·.2)).toList }
  | respond : a ∈ w.held → w.tasks.cells a = some (i, t) → NewBuffer w.bufs rsp r B →
    Move w (.respond i rc rsp w.bufs.next len)
      { w with
        tasks := w.tasks.modify a (.respond rc r len)
        bufs := B
        held := w.held.erase a
        done := w.done ++ [a] }
  | drain : w.drained = [] → Move w .drain { w with done := [], drained := w.done }
  | failed : w.drained = a :: rest → w.tasks.cells a = some (i, t) →
    (t.isAbort = true ∨ env.req = false ∨ env.moduleCtx = false) →
    Move w (.handle i env .failed)
      { w with
        drained := rest
        tasks := w.tasks.free a
        bufs := (w.bufs.freeOpt t.req).freeOpt t.rsp }
  | resumed : w.drained = a :: rest → w.tasks.cells a = some (i, t) → t.isAbort = false →
    env.req = true → env.moduleCtx = true →
    Move w (.handle i env (.resumed t.waitCoCtx (t.pushed w.bufs)))
      { w with
        drained := rest
        tasks := w.tasks.free a
        bufs := (w.bufs.freeOpt t.req).freeOpt t.rsp
        co := Function.update w.co t.waitCoCtx ⟨.null, (w.co t.waitCoCtx).data, .running⟩ }
  /-- The pending callback is run and cleared. -/
  | cleaned : (w.co c).cleanup = .ffi → x.cleanup ≠ .ffi → (∀ i, x.status ≠ .waiting i) →
    e.isCo = true →
    Move w e
      { w with
        tasks := w.tasks.modify (w.co c).data .setAbort
        co := Function.update w.co c x }
  /-- There is no pending callback, or the coroutine is not suspended in `post`. -/
  | quiet : (w.co c).cleanup ≠ .ffi ∨ (∀ i, (w.co c).status ≠ .waiting i) → x.cleanup ≠ .ffi →
    (∀ i, x.status ≠ .waiting i) → e.isCo = true →
    Move w e { w with co := Function.update w.co c x }

variable {resolve : LuaString → Lib} {w w' : Worker Th Lib Co} {e : WorkerEvent Th Lib Co}

omit [DecidableEq Co] [DecidableEq Th] in
theorem runCleanup_of_ffi {x : CoCtx} (h : x.cleanup = .ffi) :
    w.runCleanup x = w.cleanup x.data := by simp [runCleanup, h]

omit [DecidableEq Co] [DecidableEq Th] in
theorem runCleanup_of_ne {x : CoCtx} (h : x.cleanup ≠ .ffi) : w.runCleanup x = w := by
  cases hx : x.cleanup <;> simp_all [runCleanup]

/-- A coroutine whose pending callback is run and cleared. -/
theorem Move.runCleanup {c : Co} {x : CoCtx} (hx : x.cleanup ≠ .ffi)
    (hs : ∀ i, x.status ≠ .waiting i) (he : e.isCo = true) :
    Move resolve w e ((w.runCleanup (w.co c)).setCo c x) := by
  by_cases hc : (w.co c).cleanup = .ffi
  · rw [runCleanup_of_ffi hc]; exact .cleaned hc hx hs he
  · rw [runCleanup_of_ne hc]; exact .quiet (.inl hc) hx hs he

theorem Step.move (h : Step resolve w e w') : Move resolve w e w' := by
  cases h with
  | @post c o name L q req r B a t p woken env rc p' hc hcall hbuf ha ht hq hw hpost =>
    have hstep : Pollers.Step p (.post (.request a) rc) p' := by
      have := @Pollers.Step.post _ _ _ p woken (.request a) env hw
      rwa [hpost] at this
    have hsys : System.Step resolve w.sys (.call o name (some (q, .post (.request a) rc))) _ :=
      .post hcall hq hstep
    cases rc with
    | ok => simpa [posted, createTask, setCo] using Move.accepted hc hbuf ha ht hsys
    | error =>
      subst ht
      simpa [posted, createTask, setCo, taskFree, hc, BlockHeap.freeOpt] using
        Move.rejected hc hbuf ha hsys
  | sys h he => exact .sys h he
  | respond ha ht hb => exact .respond ha ht hb
  | drain h => exact .drain h
  | handle hd ht hr =>
    unfold eventHandler at hr
    split at hr
    · cases hr; exact .failed hd ht (.inl ‹_›)
    split at hr
    · cases hr; exact .failed hd ht (.inr (.inl (by simp_all)))
    split at hr
    · cases hr; exact .failed hd ht (.inr (.inr (by simp_all)))
    · cases hr; exact .resumed hd ht (by simp_all) (by simp_all) (by simp_all)
  | abort => exact .runCleanup (by simp) (by simp) rfl
  | other => exact .runCleanup (by simp) (by simp) rfl
  | otherDone h => exact .quiet (.inr (by simp [h])) (by simp) (by simp) rfl
  | spawn h => exact .quiet (.inr (by simp [h])) (by simp) (by simp) rfl

/-! ## One request -/

/-- A library is loaded, a coroutine posts `req`, the runtime answers, and the event loop drains. -/
def askRun (req rsp : Bytes) (len : Int) : List (WorkerEvent Unit LuaString Unit) :=
  [.sys (.load .ok (ascii "echo") none none (.loaded 0 (ascii "echo")) 0), .spawn (),
    .post () 0 {} 0 (some req) 0 .ok, .sys (.queue 0 (.enter ())),
    .sys (.queue 0 (.take () (.request 0))), .respond 0 0 (some rsp) 1 len, .drain]

theorem askRun_runs (req rsp : Bytes) (len : Int) :
    ∃ (w : Worker Unit LuaString Unit) (t : FfiTaskCtx Unit), Runs id (askRun req rsp len) w ∧
      w.drained = [0] ∧ w.tasks.cells 0 = some (0, t) ∧ t.isAbort = false ∧
      t.pushed w.bufs = answer 0 (some rsp) len := by
  have H₁ := Run.nil.snoc (@Step.sys Unit LuaString Unit _ _ id init _ _
    (@System.Step.load Unit LuaString Nat _ id _ .ok (ascii "echo") none none
      _ _ rfl) rfl)
  have H₂ := H₁.snoc (@Step.spawn Unit LuaString Unit _ _ id _ () rfl)
  have H₃ := H₂.snoc (@Step.post Unit LuaString Unit _ _ id _ () 0 none _ 0 (some req) _ _ 0 _ _ ∅ {}
    .ok _ rfl rfl (@NewBuffer.block _ 0 _ rfl) rfl rfl rfl ⟨by simp, fun ⟨_, h⟩ => nomatch h⟩ rfl)
  have H₄ := H₃.snoc (@Step.sys Unit LuaString Unit _ _ id _ _ _
    (@System.Step.poll Unit LuaString Nat _ id _ 0 _ _ _ rfl rfl
      (@Pollers.Step.enter Unit Nat _ _ () rfl)) rfl)
  have H₅ := H₄.snoc (@Step.sys Unit LuaString Unit _ _ id _ _ _
    (@System.Step.poll Unit LuaString Nat _ id _ 0 _ _ _ rfl rfl
      (@Pollers.Step.lock Unit Nat _ _ () rfl)) rfl)
  have H₆ := H₅.snoc (@Step.respond Unit LuaString Unit _ _ id _ 0 0 _ (some rsp) _ _ 0 len
    (.head _) rfl (@NewBuffer.block _ 1 _ rfl))
  have H₇ := H₆.snoc (@Step.drain Unit LuaString Unit _ _ id _ rfl)
  exact ⟨_, _, H₇, rfl, rfl, rfl, rfl⟩

/-- A coroutine posts a byte, the runtime echoes it, and the coroutine is resumed. -/
def echoRun : List (WorkerEvent Unit LuaString Unit) :=
  [.sys (.load .ok (ascii "echo") none none (.loaded 0 (ascii "echo")) 0), .spawn (),
    .post () 0 {} 0 (some [104]) 0 .ok, .sys (.queue 0 (.enter ())),
    .sys (.queue 0 (.take () (.request 0))), .respond 0 0 (some [104]) 1 1, .drain,
    .handle 0 {} (.resumed () [.bool true, .str [104], .nil])]

theorem echoRun_runs : ∃ w : Worker Unit LuaString Unit, Runs id echoRun w := by
  obtain ⟨w, t, H, hd, ht, hab, hvals⟩ := askRun_runs [104] [104] 1
  have hr : (eventHandler { w with drained := [] } {} 0 t).2 =
      .resumed () [.bool true, .str [104], .nil] := by
    rw [eventHandler, hab]
    simp only [hvals]
    rfl
  exact ⟨_, H.snoc (Step.handle hd ht (Prod.ext rfl hr))⟩

end Worker
end RestyFfi
