import RestyFfi.Lua.Isolation
import RestyFfi.Runtime.Rpc

/-!
# The runtime of a configuration

From `load_ffi` to the answer. What `libffi_init` gets, a library, the buffer of a configuration and
a queue, decides which program serves the queue. Then a coroutine that calls the object of a library
and a configuration gets the answers of the program of this library and this configuration, whatever
else has been loaded, unloaded and loaded again (`OwnRuns.configured`).
-/

namespace RestyFfi
open Transition

/-- What happens in the Lua module and the queues, apart from the posts. -/
def WorkerEvent.sysEvent : WorkerEvent Th Lib Co → Option (SysEvent Th Lib Nat)
  | .sys e => some e
  | _ => none

namespace System
variable {Th Lib α : Type} {es : List (SysEvent Th Lib α)}

/-- The events but the posts of requests. -/
def withoutRequests (es : List (SysEvent Th Lib α)) : List (SysEvent Th Lib α) :=
  es.filter (!·.isRequest)

/-- A post of a request is no load and no unload. -/
theorem filterMap_withoutRequests {β : Type} {f : SysEvent Th Lib α → Option β}
    (hf : ∀ e, e.isRequest = true → f e = none) (es : List (SysEvent Th Lib α)) :
    (withoutRequests es).filterMap f = es.filterMap f := by
  rw [withoutRequests, List.filterMap_filter]
  refine List.filterMap_congr fun e _ => ?_
  cases he : e.isRequest with
  | true => simp [hf e he]
  | false => rfl

/-- A request is a call on an object that posts. -/
theorem exists_of_isRequest {e : SysEvent Th Lib α} (h : e.isRequest = true) :
    ∃ o name q a rc, e = .call o name (some (q, .post (.request a) rc)) := by
  unfold SysEvent.isRequest at h
  split at h
  · exact ⟨_, _, _, _, _, rfl⟩
  · cases h

theorem obtained_withoutRequests : obtained (withoutRequests es) = obtained es := by
  refine filterMap_withoutRequests (fun e he => ?_) es
  obtain ⟨o, name, q, a, rc, rfl⟩ := exists_of_isRequest he
  rfl

theorem created_withoutRequests : created (withoutRequests es) = created es := by
  refine filterMap_withoutRequests (fun e he => ?_) es
  obtain ⟨o, name, q, a, rc, rfl⟩ := exists_of_isRequest he
  rfl

theorem initCalls_withoutRequests : initCalls (withoutRequests es) = initCalls es := by
  refine filterMap_withoutRequests (fun e he => ?_) es
  obtain ⟨o, name, q, a, rc, rfl⟩ := exists_of_isRequest he
  rfl

theorem unloaded_withoutRequests : unloaded (withoutRequests es) = unloaded es := by
  refine filterMap_withoutRequests (fun e he => ?_) es
  obtain ⟨o, name, q, a, rc, rfl⟩ := exists_of_isRequest he
  rfl

theorem Unambiguous.of_withoutRequests (U : Unambiguous (withoutRequests es)) : Unambiguous es := by
  intro ks env lib cfg opts r q hp x hx hu hk
  have hp' : withoutRequests ks ++ [.load env lib cfg opts r q] <+: withoutRequests es := by
    simpa [withoutRequests, SysEvent.isRequest] using hp.filter (!·.isRequest)
  refine U hp' x ?_ ?_ hk
  · rwa [created_withoutRequests]
  · rwa [unloaded_withoutRequests]

variable [DecidableEq Th] {resolve : LuaString → Lib} {s : System Th Lib α} {x : Obtained}
  {name : Option FieldName} {L : LuaState Lib} {q : Nat}

/-- The queue that an object posts to is the one of its library and its configuration. -/
theorem Runs.initCall_of_call (S : Runs resolve es s) (U : Unambiguous es) (hx : x ∈ obtained es)
    (hcall : s.lua.call x.obj name = (L, .post q)) :
    ⟨x.lib, cfgBuf x.cfg, q⟩ ∈ initCalls es := by
  cases S.inv.lua.call_move hcall with
  | @post n _ _ hn hf hq =>
    obtain ⟨_, _, q', hq', hc⟩ := S.serves U ⟨hx, hn, hf⟩
    rw [hq] at hq'
    cases hq'
    exact hc

end System

/-- The Lua module and the queues inside a worker make a run of their own. -/
theorem Worker.Runs.sysEvents {Th Lib Co : Type} [DecidableEq Th] [DecidableEq Co]
    {resolve : LuaString → Lib} {w : Worker Th Lib Co} {ls : List (WorkerEvent Th Lib Co)}
    (H : Runs resolve ls w) : ∃ es, System.Runs resolve es w.sys ∧
      System.withoutRequests es = ls.filterMap WorkerEvent.sysEvent := by
  induction H with
  | nil => exact ⟨[], .nil, rfl⟩
  | @snoc ls w e w' _ h ih =>
    obtain ⟨es, hes, heq⟩ := ih
    rw [filterMap_snoc, ← heq]
    have keep : e.sysEvent = none → w'.sys = w.sys → ∃ es', System.Runs resolve es' w'.sys ∧
        System.withoutRequests es' = System.withoutRequests es ++ e.sysEvent.toList := by
      intro he hw
      refine ⟨es, hw ▸ hes, ?_⟩
      rw [he]
      simp
    have isCo : e.isCo = true → e.sysEvent = none := by
      intro he
      cases e <;> first | rfl | cases he
    cases h.move with
    | accepted _ _ _ _ hs | rejected _ _ _ hs =>
      exact ⟨_, hes.snoc hs, by
        simp [System.withoutRequests, SysEvent.isRequest, WorkerEvent.sysEvent]⟩
    | sys hs he =>
      exact ⟨_, hes.snoc hs, by simp [System.withoutRequests, he, WorkerEvent.sysEvent]⟩
    | cleaned _ _ _ he | quiet _ _ _ he => exact keep (isCo he) rfl
    | _ => exact keep rfl rfl

namespace Serving
variable {Th Lib Co κ : Type}

/-- What happens in the Lua module and the queues, apart from the posts. -/
def luaEvents (ls : List (ServeEvent Th Lib Co κ)) : List (SysEvent Th Lib Nat) :=
  (ls.map ServeEvent.toWorker).filterMap WorkerEvent.sysEvent

/-- The queues are served by the programs that the calls of `libffi_init` ask for. -/
def Started (program : LuaString → Option LuaString → Program κ) (prog : Nat → Program κ)
    (ls : List (ServeEvent Th Lib Co κ)) : Prop :=
  ∀ x ∈ System.initCalls (luaEvents ls), prog x.tq = program x.lib x.buf

variable [DecidableEq Th] [DecidableEq Co] {program : LuaString → Option LuaString → Program κ}
  {prog : Nat → Program κ} {resolve : LuaString → Lib} {s s' t : Serving Th Lib Co κ}
  {ls ks : List (ServeEvent Th Lib Co κ)} {x : Obtained} {name : Option FieldName}
  {L : LuaState Lib} {c c' : Co} {q i j : Nat} {penv : TaskQueue.PostEnv} {req : Option Bytes}
  {env : HandlerEnv} {vals : List LuaVal}

theorem Runs.prog_of_call (H : Runs prog resolve ls s) (hstart : Started program prog ls)
    (U : System.Unambiguous (luaEvents ls)) (hx : x ∈ System.obtained (luaEvents ls))
    (hcall : s.worker.sys.lua.call x.obj name = (L, .post q)) :
    prog q = program x.lib (cfgBuf x.cfg) := by
  obtain ⟨es, S, heq⟩ := H.worker.sysEvents
  rw [luaEvents, ← heq] at U hx
  rw [System.obtained_withoutRequests] at hx
  have hinit := S.initCall_of_call U.of_withoutRequests hx hcall
  rw [← System.initCalls_withoutRequests, heq] at hinit
  exact hstart _ hinit

/-- **From `load_ffi` to the answer.** `load_ffi(lib, cfg)` has returned an object, a coroutine
makes a call on it that posts a request, and later a coroutine is resumed for it. It is the same
coroutine, and it gets an answer that the program of `lib` and `cfg` gives to its request, if no
stale callback is run up to then. -/
theorem OwnRuns.configured [DecidableEq κ] (H : OwnRuns prog resolve ls s)
    (hstart : Started program prog ls) (U : System.Unambiguous (luaEvents ls))
    (hx : x ∈ System.obtained (luaEvents ls))
    (hcall : s.worker.sys.lua.call x.obj name = (L, .post q))
    (h : OwnStep prog resolve s (.nginx (.post c q penv i req j .ok)) s')
    (K : Run (OwnStep prog resolve) s' ks t)
    (hr : .nginx (.handle i env (.resumed c' vals)) ∈ ks) :
    c' = c ∧ ∃ r, (program x.lib (cfgBuf x.cfg)).serve (reqBuffer req, reqLength req) r ∧
      vals = r.values := by
  have hp : .nginx (.post c q penv i req j .ok) ∈
      ls ++ [.nginx (.post c q penv i req j .ok)] ++ ks := by simp
  obtain ⟨hc, r, hserve, hvals⟩ :=
    Runs.resumed_post (OwnRuns.runs ((H.snoc h).append K)) hp (List.mem_append_right _ hr)
  rw [H.runs.prog_of_call hstart U hx hcall] at hserve
  exact ⟨hc, r, hserve, hvals⟩

/-- A coroutine calls `echo.go`. -/
theorem configured_goRun : ∃ (t s s' : Serving Unit LuaString Unit Nat) (L : LuaState LuaString),
    OwnRuns (fun _ => goProgram) id (goRun.take 2) t ∧ t.worker.sys.lua.call 0 none = (L, .post 0) ∧
      OwnStep (fun _ => goProgram) id t (.nginx (.post () 0 {} 0 (some [104]) 0 .ok)) s ∧
      Run (OwnStep (fun _ => goProgram) id) s (goRun.drop 3) s' ∧
      ∃ r, goProgram.serve (reqBuffer (some [104]), reqLength (some [104])) r ∧
        answer 0 (some [104]) 1 = r.values := by
  have hserve : goProgram.serve (reqBuffer (some [104]), reqLength (some [104]))
      ⟨0, some [104], 1⟩ := ⟨[7], rfl, rfl⟩
  obtain ⟨t, s', _, H, hcall, K, _⟩ := callRun_split hserve
  have H := ownRun_of_run H fun l hl => runsOwn_callRun l (List.mem_of_mem_take hl)
  have K := ownRun_of_run K fun l hl => runsOwn_callRun l (List.mem_of_mem_drop hl)
  obtain ⟨s, h, K⟩ := K.cons_split
  cases hL : t.worker.sys.lua.call 0 none with
  | mk L ccall =>
    rw [hL] at hcall
    cases hcall
    have hx : ⟨ascii "echo", none, 0⟩ ∈ System.obtained (luaEvents (goRun.take 2)) := by
      simp [goRun, callRun, luaEvents, ServeEvent.toWorker, WorkerEvent.sysEvent, System.obtained,
        SysEvent.obtained]
    have U : System.Unambiguous (luaEvents (goRun.take 2)) := by
      refine System.unambiguous_of_notMem ?_
      simp [goRun, callRun, luaEvents, ServeEvent.toWorker, WorkerEvent.sysEvent,
        SysEvent.loadedLib]
      decide
    have hr : .nginx (.handle 0 {} (.resumed () (answer 0 (some [104]) 1))) ∈ goRun.drop 3 := by
      simp [goRun, callRun]
    have hstart : Started (fun _ _ => goProgram) (fun _ => goProgram) (goRun.take 2) :=
      fun _ _ => rfl
    exact ⟨t, s, s', L, H, hL, h, K, (OwnRuns.configured H hstart U hx hL h K hr).2⟩

end Serving
end RestyFfi
