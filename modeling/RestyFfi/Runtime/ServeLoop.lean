import RestyFfi.Runtime.Progress

/-!
# Serving and notifying

A worker with its runtimes (`Serving`) and a worker with its event loop (`EventLoop`) are put
together: a runtime thread appends the task that it answers to the done list and then notifies the
event loop, which drains the list when it is notified.

A request that is accepted can always be answered, unless a notification has failed: from every
reachable state whose done list is attended the runtime threads and the event loop can go on by
themselves until no task is left (`Runs.answerable`). This is about runs without stale cleanup
callbacks.
-/

namespace RestyFfi
open Transition Serving

/-- A worker with its runtimes, the threads that call `ngx_http_lua_ffi_respond`, and the event
loop. -/
structure ServeLoop (R Th Lib Co κ : Type) where
  serving : Serving Th Lib Co κ
  /-- As in an `EventLoop`. -/
  appended : R → Bool
  notified : Bool
  woken : Bool

/-- What happens around a worker with its runtimes. -/
inductive ServeLoopEvent (R Th Lib Co κ : Type) where
  /-- An event that does not touch the done list. -/
  | serve (e : ServeEvent Th Lib Co κ)
  /-- The thread `r` responds to what `th` has taken, up to `ngx_unlock`. -/
  | inject (r : R) (q : Nat) (th : Th) (x : Taken κ) (reply : Reply) (j : Nat)
  | notify (r : R) (ok : Bool)
  | wake
  | spurious
  | detach

namespace ServeLoopEvent
variable {R Th Lib Co κ : Type}

/-- The event of the worker with its runtimes. -/
def toServe : ServeLoopEvent R Th Lib Co κ → Option (ServeEvent Th Lib Co κ)
  | .serve e => some e
  | .inject _ q th x reply j => some (.respond q th x reply j)
  | .detach => some (.nginx .drain)
  | _ => none

/-- The event of the worker with its event loop. -/
def toLoop : ServeLoopEvent R Th Lib Co κ → LoopEvent R Th Lib Co
  | .serve e => .worker e.toWorker
  | .inject r _ _ x reply j => .inject r x.stamp reply.rc reply.rsp j reply.len
  | .notify r ok => .notify r ok
  | .wake => .wake
  | .spurious => .spurious
  | .detach => .detach

/-- What the runtime threads and the event loop do by themselves. `ngx_notify` succeeds, and the
event handler finds the request and the module context. -/
def isService : ServeLoopEvent R Th Lib Co κ → Bool
  | .serve e => e.toWorker.isService
  | .notify _ ok => ok
  | .spurious => false
  | .inject .. | .wake | .detach => true

end ServeLoopEvent

namespace ServeLoop
variable {R Th Lib Co κ : Type} [DecidableEq R] [DecidableEq Th] [DecidableEq Co]

def init : ServeLoop R Th Lib Co κ := ⟨.init, fun _ => false, false, false⟩

/-- The worker with its event loop. -/
def loop (s : ServeLoop R Th Lib Co κ) : EventLoop R Th Lib Co :=
  ⟨s.serving.worker, s.appended, s.notified, s.woken⟩

/-- The steps of both. No stale cleanup callback is run. -/
inductive Step (prog : Nat → Program κ) (resolve : LuaString → Lib) (s : ServeLoop R Th Lib Co κ) :
    ServeLoopEvent R Th Lib Co κ → ServeLoop R Th Lib Co κ → Prop where
  | serve : OwnStep prog resolve s.serving e t → e.toWorker.onDone = false →
    Step prog resolve s (.serve e) { s with serving := t }
  | inject : s.appended r = false → OwnStep prog resolve s.serving (.respond q th x reply j) t →
    Step prog resolve s (.inject r q th x reply j)
      { s with serving := t, appended := Function.update s.appended r true }
  | notify : s.appended r = true →
    Step prog resolve s (.notify r ok)
      { s with appended := Function.update s.appended r false, notified := s.notified || ok }
  | wake : s.notified = true → s.woken = false → s.serving.worker.drained = [] →
    Step prog resolve s .wake { s with notified := false, woken := true }
  | spurious : s.woken = false → s.serving.worker.drained = [] →
    Step prog resolve s .spurious { s with woken := true }
  | detach : s.woken = true → OwnStep prog resolve s.serving (.nginx .drain) t →
    Step prog resolve s .detach { s with serving := t, woken := false }

abbrev Runs (prog : Nat → Program κ) (resolve : LuaString → Lib)
    (ls : List (ServeLoopEvent R Th Lib Co κ)) (s : ServeLoop R Th Lib Co κ) : Prop :=
  Run (Step prog resolve) init ls s

variable {prog : Nat → Program κ} {resolve : LuaString → Lib} {s s' : ServeLoop R Th Lib Co κ}
  {t : Serving Th Lib Co κ} {e : ServeEvent Th Lib Co κ} {l : ServeLoopEvent R Th Lib Co κ}
  {ls ks : List (ServeLoopEvent R Th Lib Co κ)}

/-! ## The two parts -/

theorem Step.loop (h : Step prog resolve s l s') :
    EventLoop.Step resolve s.loop l.toLoop s'.loop := by
  cases h with
  | serve h he => exact .worker h.step.worker he
  | inject hr h => exact .inject hr h.step.worker
  | notify hr => exact .notify hr
  | wake hn hw hd => exact .wake hn hw hd
  | spurious hw hd => exact .spurious hw hd
  | detach hw h => exact .detach hw h.step.worker

/-- **Refinement** of the event loop. -/
theorem Runs.loop (H : Runs prog resolve ls s) :
    EventLoop.Runs resolve (ls.map ServeLoopEvent.toLoop) s.loop := by
  induction H with
  | nil => exact .nil
  | snoc _ h ih =>
    rw [List.map_append]
    exact ih.snoc h.loop

/-- **Refinement** of the worker with its runtimes. -/
theorem run_serving (K : Run (Step prog resolve) s ks s') :
    Run (OwnStep prog resolve) s.serving (ks.filterMap ServeLoopEvent.toServe) s'.serving := by
  induction K with
  | nil => exact .nil
  | snoc _ h ih =>
    rw [filterMap_snoc]
    cases h with
    | serve h => exact ih.snoc h
    | inject _ h => exact ih.snoc h
    | detach _ h => exact ih.snoc h
    | notify | wake | spurious => simpa [ServeLoopEvent.toServe] using ih

/-- A run in which nothing is answered yet. -/
theorem runs_serve {es : List (ServeEvent Th Lib Co κ)} (H : OwnRuns prog resolve es t)
    (hes : ∀ e ∈ es, e.toWorker.onDone = false) :
    Runs prog resolve (es.map .serve)
      (⟨t, fun _ => false, false, false⟩ : ServeLoop R Th Lib Co κ) := by
  induction H with
  | nil => exact .nil
  | snoc _ h ih =>
    rw [List.forall_mem_append] at hes
    rw [List.map_append]
    exact (ih hes.1).snoc (.serve h (hes.2 _ (.head _)))

omit [DecidableEq R] [DecidableEq Th] [DecidableEq Co] in
theorem isService_of_toServe (hks : ∀ k ∈ ks, k.isService = true) :
    ∀ e ∈ ks.filterMap ServeLoopEvent.toServe, e.toWorker.isService = true := by
  intro e he
  obtain ⟨k, hk, hke⟩ := List.mem_filterMap.mp he
  have hserv := hks k hk
  cases k <;> cases hke
  · exact hserv
  · rfl
  · rfl

omit [DecidableEq R] [DecidableEq Th] [DecidableEq Co] in
theorem serve_mem (h : e ∈ ks.filterMap ServeLoopEvent.toServe)
    (he : e.toWorker.onDone = false) : .serve e ∈ ks := by
  obtain ⟨k, hk, hke⟩ := List.mem_filterMap.mp h
  cases k with
  | serve e =>
    cases hke
    exact hk
  | inject | detach =>
    cases hke
    cases he
  | notify | wake | spurious => cases hke

/-! ## Service -/

/-- The runtime threads and the event loop can lead from `s` to a state with `t` inside and an
attended done list. -/
def Serves (prog : Nat → Program κ) (resolve : LuaString → Lib) (s : ServeLoop R Th Lib Co κ)
    (t : Serving Th Lib Co κ) : Prop :=
  ∃ ks s', Run (Step prog resolve) s ks s' ∧ (∀ k ∈ ks, k.isService = true) ∧ s'.serving = t ∧
    s'.loop.Attended

theorem Step.attended (h : Step prog resolve s l s') (hl : l.isService = true)
    (A : s.loop.Attended) : s'.loop.Attended := by
  refine h.loop.attended (fun r hr => ?_) A
  cases l <;> cases hr
  cases hl

theorem Serves.cons (h : Step prog resolve s l s') (hl : l.isService = true)
    (K : Serves prog resolve s' t) : Serves prog resolve s t := by
  obtain ⟨ks, u, K, hk, ht⟩ := K
  exact ⟨[l] ++ ks, u, (Run.single h).append K,
    List.forall_mem_append.mpr ⟨by simpa using hl, hk⟩, ht⟩

theorem Serves.single (h : Step prog resolve s l s') (hl : l.isService = true)
    (A : s.loop.Attended) (ht : s'.serving = t) : Serves prog resolve s t :=
  .cons h hl ⟨[], s', .nil, by simp, ht, h.attended hl A⟩

omit [DecidableEq R] in
/-- No stale callback is run by the service. -/
theorem ownStep_of_isService (h : Serving.Step prog resolve s.serving e t)
    (he : e.toWorker.isService = true) : OwnStep prog resolve s.serving e t := by
  refine ⟨.step h, ?_⟩
  cases hw : e.toWorker with
  | abort | other => rw [hw] at he; cases he
  | _ => trivial

/-- A thread that has appended a task notifies before it responds again. -/
theorem serves_respond {q : Nat} {th : Th} {x : Taken κ} {reply : Reply} {j : Nat} (r : R)
    (A : s.loop.Attended) (h : OwnStep prog resolve s.serving (.respond q th x reply j) t) :
    Serves prog resolve s t := by
  cases hr : s.appended r with
  | false => exact .single (.inject hr h) rfl A rfl
  | true =>
    have hn : Step prog resolve s (.notify r true) _ := .notify hr
    exact .cons hn rfl (.single (.inject (Function.update_self ..) h) rfl (hn.attended rfl A) rfl)

theorem serves_detach (A : s.loop.Attended) (hw : s.woken = true)
    (h : OwnStep prog resolve s.serving (.nginx .drain) t) : Serves prog resolve s t :=
  .single (.detach hw h) rfl A rfl

theorem serves_wake (A : s.loop.Attended) (hn : s.notified = true)
    (hd : s.serving.worker.drained = [])
    (h : OwnStep prog resolve s.serving (.nginx .drain) t) : Serves prog resolve s t := by
  cases hw : s.woken with
  | true => exact serves_detach A hw h
  | false =>
    have hwake : Step prog resolve s .wake _ := .wake hn hw hd
    exact .cons hwake rfl (serves_detach (hwake.attended rfl A) rfl h)

/-- An attended done list can be drained. One without tasks need not be. -/
theorem serves_drain (A : s.loop.Attended)
    (h : OwnStep prog resolve s.serving (.nginx .drain) t) : Serves prog resolve s t := by
  cases h.step with
  | nginx hdrain =>
    by_cases hdone : s.serving.worker.done = []
    · rw [hdrain.eq_of_drain hdone]
      exact ⟨[], s, .nil, by simp, rfl, A⟩
    have hd : s.serving.worker.drained = [] := by
      cases hdrain with
      | drain hd => exact hd
    rcases A hdone with hn | ⟨r, hr⟩ | hw
    · exact serves_wake A hn hd h
    · have hnot : Step prog resolve s (.notify r true) _ := .notify hr
      exact .cons hnot rfl (serves_wake (hnot.attended rfl A) (Bool.or_true _) hd h)
    · exact serves_detach A hw h

theorem serves_step [Nonempty R] (A : s.loop.Attended)
    (h : Serving.Step prog resolve s.serving e t) (he : e.toWorker.isService = true) :
    Serves prog resolve s t := by
  obtain ⟨r⟩ := ‹Nonempty R›
  have hown := ownStep_of_isService h he
  by_cases hdone : e.toWorker.onDone = false
  · exact .single (.serve hown hdone) he A rfl
  cases h with
  | nginx _ hn =>
    rename_i e' w _
    cases e' with
    | drain => exact serves_drain A hown
    | respond => cases hn
    | _ => exact (hdone rfl).elim
  | respond => exact serves_respond r A hown
  | poll | take => exact (hdone rfl).elim

/-- What the runtime threads and the event loop can do by themselves in a `Serving`, they can do
here. -/
theorem serves_of_run [Nonempty R] {es : List (ServeEvent Th Lib Co κ)} (A : s.loop.Attended)
    (K : Run (Serving.Step prog resolve) s.serving es t)
    (hes : ∀ e ∈ es, e.toWorker.isService = true) : Serves prog resolve s t := by
  have key : ∀ {t e u} {s : ServeLoop R Th Lib Co κ}, s.serving = t ∧ s.loop.Attended →
      Serving.Step prog resolve t e u → e.toWorker.isService = true → Serves prog resolve s u := by
    rintro _ e u s ⟨rfl, A⟩ h he
    exact serves_step A h he
  exact Run.simulate_runs K hes ⟨rfl, A⟩ key

/-! ## Every request can be answered -/

/-- The runtimes and the event loop go on by themselves from `s` to `s'` and leave nothing over. -/
structure Settles (prog : Nat → Program κ) (resolve : LuaString → Lib)
    (s : ServeLoop R Th Lib Co κ) (ks : List (ServeLoopEvent R Th Lib Co κ))
    (s' : ServeLoop R Th Lib Co κ) : Prop where
  run : Run (Step prog resolve) s ks s'
  service : ∀ k ∈ ks, k.isService = true
  tasks : ∀ a, s'.serving.worker.tasks.cells a = none
  bufs : ∀ p, s'.serving.worker.bufs.cells p = none
  /-- Every coroutine that waited for a task, and whose task is not marked, has been resumed. -/
  resumed : ∀ {a i t}, s.serving.worker.tasks.cells a = some (i, t) → t.isAbort = false →
    ∃ vals, .serve (.nginx (.handle i {} (.resumed t.waitCoCtx vals))) ∈ ks

/-- **No request is stuck.** Every reachable state whose done list is attended can be settled, if
the programs have a response to whatever was posted. -/
theorem Runs.answerable [DecidableEq κ] [Nonempty R] [Fintype Th] [Nonempty Th]
    (H : Runs prog resolve ls s) (A : s.loop.Attended)
    (T : Total prog (ls.filterMap ServeLoopEvent.toServe)) :
    ∃ ks s', Settles prog resolve s ks s' := by
  have S := OwnRuns.runs (run_serving H)
  obtain ⟨es, t, K, hes, h0⟩ := S.settles T
  obtain ⟨ks, s', L, hk, rfl, _⟩ := serves_of_run A K hes
  have hnone := s'.serving.worker.tasks.cells_of_size h0
  refine ⟨ks, s', L, hk, hnone, fun p => ?_, fun {a i t} ht hab => ?_⟩
  · by_contra hp
    -- a live buffer belongs to a live task
    have hlive : (s'.serving.worker.bufs.cells p).isSome := Option.isSome_iff_ne_none.mpr hp
    have O := (Serving.Runs.worker (S.append K)).owned
    obtain ⟨⟨a, f⟩, hmem⟩ := O.bufs.live_iff.mp hlive
    rw [Worker.buffers_of_none (hnone a)] at hmem
    cases hmem
  · have L' := (run_serving L).mono OwnStep.step
    rcases run_kept_or_resumed L' (isService_of_toServe hk) ht hab with ⟨t', ht', _⟩ | ⟨vals, hv⟩
    · rw [hnone] at ht'
      cases ht'
    · exact ⟨vals, serve_mem (by simpa using hv) rfl⟩

/-- `echo.go` has appended its answer, and has not notified the event loop yet. -/
theorem answerable_goRun : ∃ (ls : List (ServeLoopEvent Unit Unit LuaString Unit Nat))
    (s : ServeLoop Unit Unit LuaString Unit Nat), Runs (fun _ => goProgram) id ls s ∧
      s.serving.worker.done ≠ [] ∧ s.loop.Attended ∧
      ∃ ks s', Settles (fun _ => goProgram) id s ks s' := by
  obtain ⟨t, H⟩ := goRun_ownRuns
  rw [← List.take_append_drop 6 goRun] at H
  obtain ⟨t, H, _⟩ := H.split
  have H : OwnRuns (fun _ => goProgram) id (goRun.take 5 ++
      [.respond 0 () (callTask goProgram [104]) ⟨0, some [104], 1⟩ 1]) t := H
  obtain ⟨u, H, h⟩ := H.snoc_split
  have H₁ := (runs_serve (R := Unit) H (by
    simp [goRun, callRun, ServeEvent.toWorker, WorkerEvent.onDone])).snoc (.inject (r := ()) rfl h)
  have A := (EventLoop.Runs.notStranded (Runs.loop H₁)).attended fun r ks ms hls => by
    -- there is no notification in the run
    have hmem := List.mem_append_right ks (List.mem_cons_self (a := .notify r false) (l := ms))
    rw [← hls] at hmem
    simp [goRun, callRun, ServeLoopEvent.toLoop] at hmem
  refine ⟨_, _, H₁, h.step.worker.done_ne_nil, A, Runs.answerable H₁ A ?_⟩
  intro c q env i req j _
  exact ⟨_, List.replicate (reqLength req).toNat 0, by simp, rfl⟩

end ServeLoop
end RestyFfi
