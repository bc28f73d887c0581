import RestyFfi.Base.Lanes
import RestyFfi.Runtime.Echo
import RestyFfi.Worker.Cleanup
import RestyFfi.Worker.Handout

/-!
# Serving a queue

A runtime polls its queue in a loop and responds to every task that a poll returns, at once or after
a detour over other threads. What distinguishes the runtimes is a `Program`: when the loop may poll
again, which tasks wait for each other, and what is responded to a request. A worker is refined here
by what the polling threads have taken and not answered yet (`Serving`).

Then requests are answered in the order of their posts as far as the program keeps them in one lane,
each once, by a response that the program of their own queue gives to their own request. This last
is so while no stale cleanup callback is run, which could change the request on its way
(`OwnRuns.served`).
-/

namespace RestyFfi
open Transition Lanes

/-- A request as `ngx_http_lua_ffi_get_req` yields it. -/
abbrev Request := Option Bytes × Int

/-- How a runtime serves its queue. -/
structure Program (κ : Type) where
  /-- The lane of the task with a number and a request; tasks of one lane are answered in order. -/
  lane : Nat → Request → κ
  /-- The loop may poll while tasks in these lanes are not answered. -/
  ready : List κ → Bool
  ready_nil : ready [] = true
  /-- The responses to a request. -/
  serve : Request → Reply → Prop

/-- Poll, respond, and poll again. -/
def Program.loop (serve : Request → Reply → Prop) : Program Nat where
  lane _ _ := 0
  ready ks := ks.isEmpty
  ready_nil := rfl
  serve := serve

/-- The goroutine of `echo.go`. -/
def goProgram : Program Nat :=
  .loop fun req r => ∃ res : Bytes, res.length = req.2.toNat ∧ r = goEcho req res

/-- A task that a poll has returned: its address and its lane. The number says which task lives
there. -/
structure Taken (κ : Type) where
  task : Nat
  stamp : Nat
  lane : κ

/-- A worker, and the tasks that each thread has taken from each queue and that are not answered,
oldest first. -/
structure Serving (Th Lib Co κ : Type) where
  worker : Worker Th Lib Co
  taken : Nat × Th → List (Taken κ)

/-- What happens in a worker with its runtimes. -/
inductive ServeEvent (Th Lib Co κ : Type) where
  /-- An event of Lua, the event loop or the collector. -/
  | nginx (e : WorkerEvent Th Lib Co)
  /-- A step of a poll that takes no request. -/
  | poll (q : Nat) (e : Event Th Nat)
  | take (q : Nat) (th : Th) (x : Taken κ)
  | respond (q : Nat) (th : Th) (x : Taken κ) (r : Reply) (j : Nat)

/-- An event of a runtime thread. -/
def WorkerEvent.byRuntime : WorkerEvent Th Lib Co → Bool
  | .sys (.queue ..) | .respond .. => true
  | _ => false

theorem WorkerEvent.polledAt_of_nginx {e : WorkerEvent Th Lib Co} (h : e.byRuntime = false)
    (q : Nat) : e.polledAt q = [] := by
  cases e with
  | sys se =>
    cases se with
    | queue => cases h
    | _ => rfl
  | _ => rfl

theorem WorkerEvent.responded_of_nginx {e : WorkerEvent Th Lib Co} (h : e.byRuntime = false) :
    e.responded = none := by
  cases e with
  | respond => cases h
  | _ => rfl

theorem WorkerEvent.polledAt_poll {e : Event Th Nat} {q' : Nat}
    (h : ∀ th a, e ≠ .take th (.request a)) (q : Nat) :
    (.sys (.queue q' e) : WorkerEvent Th Lib Co).polledAt q = [] := by
  cases e with
  | take th task =>
    cases task with
    | request a => exact (h th a rfl).elim
    | finish => rfl
  | _ => rfl

namespace ServeEvent
variable {Th Lib Co κ : Type}

def toWorker : ServeEvent Th Lib Co κ → WorkerEvent Th Lib Co
  | .nginx e => e
  | .poll q e => .sys (.queue q e)
  | .take q th x => .sys (.queue q (.take th (.request x.task)))
  | .respond _ _ x r j => .reply x.stamp j r

/-- The task that is handed out at the queue `q`. -/
def handedOut (q : Nat) : ServeEvent Th Lib Co κ → Option Nat
  | .take q' _ x => if q' = q then some x.stamp else none
  | _ => none

variable [DecidableEq Th]

/-- The task that a thread takes from a queue. -/
def takenBy (p : Nat × Th) : ServeEvent Th Lib Co κ → Option (Taken κ)
  | .take q th x => if (q, th) = p then some x else none
  | _ => none

/-- The task of a queue that is answered for a thread. -/
def answeredBy (p : Nat × Th) : ServeEvent Th Lib Co κ → Option (Taken κ)
  | .respond q th x _ _ => if (q, th) = p then some x else none
  | _ => none

end ServeEvent

namespace Serving
variable {Th Lib Co κ : Type} [DecidableEq Th] [DecidableEq Co]

def init : Serving Th Lib Co κ := ⟨.init, fun _ => []⟩

/-- The steps. A thread polls when its program lets it, and answers a task that is the first of its
lane. -/
inductive Step (prog : Nat → Program κ) (resolve : LuaString → Lib) (s : Serving Th Lib Co κ) :
    ServeEvent Th Lib Co κ → Serving Th Lib Co κ → Prop where
  | nginx : Worker.Step resolve s.worker e w → e.byRuntime = false →
    Step prog resolve s (.nginx e) { s with worker := w }
  | poll : Worker.Step resolve s.worker (.sys (.queue q e)) w →
    (∀ th a, e ≠ .take th (.request a)) →
    (∀ th, e = .enter th → (prog q).ready ((s.taken (q, th)).map Taken.lane) = true) →
    Step prog resolve s (.poll q e) { s with worker := w }
  | take : Worker.Step resolve s.worker (.sys (.queue q (.take th (.request x.task)))) w →
    s.worker.tasks.cells x.task = some (x.stamp, t) →
    x.lane = (prog q).lane x.stamp (t.getReq s.worker.bufs) →
    Step prog resolve s (.take q th x)
      { worker := w, taken := Function.update s.taken (q, th) (s.taken (q, th) ++ [x]) }
  | respond : Pick Taken.lane (s.taken (q, th)) x rest →
    s.worker.tasks.cells x.task = some (x.stamp, t) →
    (prog q).serve (t.getReq s.worker.bufs) r →
    Worker.Step resolve s.worker (.reply x.stamp j r) w →
    Step prog resolve s (.respond q th x r j)
      { worker := w, taken := Function.update s.taken (q, th) rest }

/-- A run from the start of the worker process. -/
abbrev Runs (prog : Nat → Program κ) (resolve : LuaString → Lib)
    (ls : List (ServeEvent Th Lib Co κ)) (s : Serving Th Lib Co κ) : Prop :=
  Run (Step prog resolve) init ls s

/-- The steps with one heap for tasks and buffers. -/
inductive HeapStep (prog : Nat → Program κ) (resolve : LuaString → Lib) (s : Serving Th Lib Co κ) :
    ServeEvent Th Lib Co κ → Serving Th Lib Co κ → Prop where
  | step : Step prog resolve s l s' → HeapStep prog resolve s l s'
  | stray : Worker.HeapStep resolve s.worker e w → e.byRuntime = false →
    HeapStep prog resolve s (.nginx e) { s with worker := w }

/-- Such a step in which no stale cleanup callback is run. -/
def OwnStep (prog : Nat → Program κ) (resolve : LuaString → Lib) (s : Serving Th Lib Co κ)
    (l : ServeEvent Th Lib Co κ) (s' : Serving Th Lib Co κ) : Prop :=
  HeapStep prog resolve s l s' ∧ s.worker.RunsOwn l.toWorker

/-- A run in which no stale cleanup callback is run. -/
abbrev OwnRuns (prog : Nat → Program κ) (resolve : LuaString → Lib)
    (ls : List (ServeEvent Th Lib Co κ)) (s : Serving Th Lib Co κ) : Prop :=
  Run (OwnStep prog resolve) init ls s

variable {prog : Nat → Program κ} {resolve : LuaString → Lib} {s s' : Serving Th Lib Co κ}
  {l : ServeEvent Th Lib Co κ} {ls : List (ServeEvent Th Lib Co κ)} {q : Nat} {p : Nat × Th}

theorem OwnStep.step (h : OwnStep prog resolve s l s') : Step prog resolve s l s' := by
  obtain ⟨h, hown⟩ := h
  cases h with
  | step h => exact h
  | stray h he => exact .nginx (h.of_runsOwn hown) he

/-- Then no buffer is written to but by its owner. -/
theorem OwnRuns.runs (H : OwnRuns prog resolve ls s) : Runs prog resolve ls s := H.mono OwnStep.step

theorem ownRun_of_run (H : Run (Step prog resolve) s ls s')
    (hls : ∀ l ∈ ls, ∀ w : Worker Th Lib Co, w.RunsOwn l.toWorker) :
    Run (OwnStep prog resolve) s ls s' := by
  induction H with
  | nil => exact .nil
  | snoc _ h ih =>
    rw [List.forall_mem_append] at hls
    exact (ih hls.1).snoc ⟨.step h, hls.2 _ (.head _) _⟩

theorem Step.worker (h : Step prog resolve s l s') :
    Worker.Step resolve s.worker l.toWorker s'.worker := by
  cases h with
  | nginx h => exact h
  | poll h => exact h
  | take h => exact h
  | respond _ _ _ h => exact h

/-- **Refinement.** The worker inside makes a run of its own. -/
theorem Runs.worker (H : Runs prog resolve ls s) :
    Worker.Runs resolve (ls.map ServeEvent.toWorker) s.worker := by
  induction H with
  | nil => exact .nil
  | snoc _ h ih =>
    rw [List.map_append]
    exact ih.snoc h.worker

/-- So it is if no step leaves a stale callback behind, which is if every post finds room and every
handler finds the request and the module context (`Worker.noDangling_iff`). -/
theorem OwnRuns.of_retracts
    (H : Run (fun s l s' => HeapStep prog resolve s l s' ∧ s.worker.Retracts l.toWorker) init ls
      s) :
    OwnRuns prog resolve ls s := by
  refine (H.strengthen (I := (·.worker.Guarded)) (fun _ h => nomatch h) fun {s l s'} hI h => ?_).1
  have hown := hI.noDangling.runsOwn l.toWorker
  have hstep := OwnStep.step ⟨h.1, hown⟩
  exact ⟨⟨h.1, hown⟩, hI.step hstep.worker h.2⟩

omit [DecidableEq Th] [DecidableEq Co] in
theorem mem_nginx {e : WorkerEvent Th Lib Co} (h : e ∈ ls.map ServeEvent.toWorker)
    (he : e.byRuntime = false) : .nginx e ∈ ls := by
  obtain ⟨l, hl, rfl⟩ := List.mem_map.mp h
  cases l with
  | nginx e => exact hl
  | _ => cases he

omit [DecidableEq Th] [DecidableEq Co] in
theorem mem_toWorker {e : WorkerEvent Th Lib Co} (h : .nginx e ∈ ls) :
    e ∈ ls.map ServeEvent.toWorker := List.mem_map.mpr ⟨_, h, rfl⟩

end Serving

/-! ## What the threads have taken -/

theorem Worker.Move.held_eq {Th Lib Co : Type} [DecidableEq Th] [DecidableEq Co]
    {resolve : LuaString → Lib} {w w' : Worker Th Lib Co} {e : WorkerEvent Th Lib Co}
    (h : Move resolve w e w') (hq : ∀ q, e.polledAt q = []) (hr : e.responded = none) :
    w'.held = w.held := by
  cases h with
  | @sys se =>
    cases hp : se.polled with
    | none => simp
    | some x => simpa [WorkerEvent.polledAt, hp] using hq x.1
  | respond => cases hr
  | _ => rfl

namespace Serving
variable {Th Lib Co κ : Type} [DecidableEq Th] [DecidableEq Co] {prog : Nat → Program κ}
  {resolve : LuaString → Lib} {s s' : Serving Th Lib Co κ} {l : ServeEvent Th Lib Co κ}
  {ls : List (ServeEvent Th Lib Co κ)} {q : Nat} {p : Nat × Th}

/-- The held tasks are those that the threads have taken, each by one thread. -/
structure Inv (s : Serving Th Lib Co κ) : Prop where
  placed : Placement (fun p => (s.taken p).map Taken.task) (· ∈ s.worker.held)
  live : ∀ {p x}, x ∈ s.taken p → ∃ t, s.worker.tasks.cells x.task = some (x.stamp, t)

theorem Step.polledAt_stamps (h : Step prog resolve s l s') (q : Nat) :
    s.worker.tasks.stamps (l.toWorker.polledAt q) = (l.handedOut q).toList := by
  cases h with
  | nginx h he => rw [ServeEvent.toWorker, WorkerEvent.polledAt_of_nginx he]; rfl
  | poll h he => rw [ServeEvent.toWorker, WorkerEvent.polledAt_poll he]; rfl
  | @take q' th x w t h ht =>
    by_cases hq : q' = q
    · simp [ServeEvent.toWorker, WorkerEvent.polledAt, SysEvent.polled, ServeEvent.handedOut, hq,
        BlockHeap.stamps, BlockHeap.stamp_of_live ht]
    · simp [ServeEvent.toWorker, WorkerEvent.polledAt, SysEvent.polled, ServeEvent.handedOut, hq]
  | respond => rfl

/-- A step at which no thread takes or answers a task. -/
theorem Inv.keep {e : WorkerEvent Th Lib Co} {w : Worker Th Lib Co} (I : s.Inv)
    (O : s.worker.Owned) (h : Worker.Move resolve s.worker e w) (hq : ∀ q, e.polledAt q = [])
    (hr : e.responded = none) : Inv { s with worker := w } := by
  refine ⟨I.placed.congr (fun _ => rfl) fun a => ?_, fun {p x} hx => ?_⟩
  · simp only [h.held_eq hq hr]
  · obtain ⟨t, ht⟩ := I.live hx
    have hheld : x.task ∈ s.worker.held :=
      I.placed.live_of_mem (p := p) (List.mem_map.mpr ⟨x, hx, rfl⟩)
    obtain ⟨t', ht', _⟩ := h.kept O (p := .held) hheld (by simp) ht
    exact ⟨t', ht'⟩

theorem Inv.take {th : Th} {x : Taken κ} {w : Worker Th Lib Co} {t : FfiTaskCtx Co} (I : s.Inv)
    (O : s.worker.Owned)
    (h : Worker.Step resolve s.worker (.sys (.queue q (.take th (.request x.task)))) w)
    (ht : s.worker.tasks.cells x.task = some (x.stamp, t)) :
    Inv { worker := w, taken := Function.update s.taken (q, th) (s.taken (q, th) ++ [x]) } := by
  cases h with
  | @sys e S hs he =>
    have hnew : x.task ∉ s.worker.held := by
      have hq := (hs.queued_polled he).1
      intro hheld
      have hqueue : x.task ∈ s.worker.items (.queue q) := by
        change x.task ∈ s.worker.sys.queued q
        rw [hq]
        exact List.mem_cons_self
      cases O.tasks.unique hqueue (show x.task ∈ s.worker.items .held from hheld)
    refine ⟨?_, fun {p y} hy => ?_⟩
    · refine I.placed.grow (p := (q, th)) (l := [x.task]) (by simp) (by simpa using hnew) ?_ ?_ ?_
      · simp only [Function.update_self, List.map_append]
        exact List.perm_append_comm
      · intro p hp
        simp only [Function.update_of_ne hp]
      · intro a
        simp [SysEvent.polled]
    · -- no task is moved
      have hold : ∀ {p y}, y ∈ s.taken p → ∃ t, s.worker.tasks.cells y.task = some (y.stamp, t) :=
        I.live
      by_cases hp : p = (q, th)
      · subst hp
        simp only [Function.update_self, List.mem_append, List.mem_singleton] at hy
        rcases hy with hy | rfl
        · exact hold hy
        · exact ⟨t, ht⟩
      · simp only [Function.update_of_ne hp] at hy
        exact hold hy

theorem Inv.respond {th : Th} {x : Taken κ} {rest : List (Taken κ)} {w : Worker Th Lib Co}
    {t : FfiTaskCtx Co} {r : Reply} {j : Nat} (I : s.Inv) (O : s.worker.Owned)
    (hx : Pick Taken.lane (s.taken (q, th)) x rest)
    (ht : s.worker.tasks.cells x.task = some (x.stamp, t))
    (h : Worker.Step resolve s.worker (.reply x.stamp j r) w) :
    Inv { worker := w, taken := Function.update s.taken (q, th) rest } := by
  have hmove := h.move
  cases h with
  | @respond a i u rsp r' B rc len ha hu hbuf =>
    cases s.worker.tasks.addr_unique ht hu
    have P : Placement (fun p => (Function.update s.taken (q, th) rest p).map Taken.task)
        (· ∈ s.worker.held.erase x.task) := by
      refine I.placed.shrink (p := (q, th)) (l := [x.task]) ?_ ?_ ?_
      · simp only [Function.update_self]
        exact hx.perm.map Taken.task
      · intro p hp
        simp only [Function.update_of_ne hp]
      · intro b
        have hnd : s.worker.held.Nodup := O.tasks.nodup .held
        rw [hnd.mem_erase_iff, List.mem_singleton, and_comm]
    refine ⟨P, fun {p y} hy => ?_⟩
    have hheld : y.task ∈ s.worker.held :=
      List.mem_of_mem_erase (P.live_of_mem (p := p) (List.mem_map.mpr ⟨y, hy, rfl⟩))
    have hold : y ∈ s.taken p := by
      by_cases hp : p = (q, th)
      · subst hp
        simp only [Function.update_self] at hy
        exact hx.perm.mem_iff.mpr (List.mem_cons_of_mem _ hy)
      · simpa only [Function.update_of_ne hp] using hy
    obtain ⟨v, hv⟩ := I.live hold
    obtain ⟨v', hv', _⟩ := hmove.kept O (p := .held) hheld (by simp) hv
    exact ⟨v', hv'⟩

theorem Step.inv (I : s.Inv) (O : s.worker.Owned) (h : Step prog resolve s l s') : s'.Inv := by
  cases h with
  | nginx h he =>
    exact I.keep O h.move (WorkerEvent.polledAt_of_nginx he) (WorkerEvent.responded_of_nginx he)
  | poll h he => exact I.keep O h.move (WorkerEvent.polledAt_poll he) rfl
  | take h ht => exact I.take O h ht
  | respond hx ht _ h => exact I.respond O hx ht h

theorem Runs.inv (H : Runs prog resolve ls s) : s.Inv := by
  induction H with
  | nil => exact ⟨.empty (fun _ => rfl) fun _ h => (nomatch h), fun h => nomatch h⟩
  | snoc H h ih => exact h.inv ih (Runs.worker H).owned

/-! ## The order of the answers -/

/-- The requests accepted at the queue `q`, in the order of their posts. -/
def posted (q : Nat) (ls : List (ServeEvent Th Lib Co κ)) : List Nat :=
  (ls.map ServeEvent.toWorker).filterMap (WorkerEvent.acceptedAt q)

/-- The requests that polls have returned at `q`. -/
def handedOut (q : Nat) (ls : List (ServeEvent Th Lib Co κ)) : List Nat :=
  ls.filterMap (ServeEvent.handedOut q)

/-- What a thread has taken from a queue, and what is answered of it. -/
def takenBy (p : Nat × Th) (ls : List (ServeEvent Th Lib Co κ)) : List (Taken κ) :=
  ls.filterMap (ServeEvent.takenBy p)

def answeredBy (p : Nat × Th) (ls : List (ServeEvent Th Lib Co κ)) : List (Taken κ) :=
  ls.filterMap (ServeEvent.answeredBy p)

theorem Runs.posted_eq (H : Runs prog resolve ls s) (q : Nat) :
    posted q ls = handedOut q ls ++ s.worker.queuedStamps q := by
  induction H with
  | nil => rfl
  | @snoc ls s l s' H h ih =>
    have hq := h.worker.move.queued_stamps (Runs.worker H).owned q
    rw [h.polledAt_stamps q] at hq
    simp only [posted, handedOut, List.map_append, List.map_cons, List.map_nil,
      filterMap_snoc] at ih ⊢
    rw [ih, List.append_assoc, ← hq, List.append_assoc]

theorem Runs.inLanes [DecidableEq κ] (H : Runs prog resolve ls s) (p : Nat × Th) :
    InLanes Taken.lane (takenBy p ls) (answeredBy p ls) (s.taken p) := by
  induction H with
  | nil => exact .nil
  | @snoc ls s l s' _ h ih =>
    simp only [takenBy, answeredBy, filterMap_snoc] at ih ⊢
    cases h with
    | nginx | poll => simpa [ServeEvent.takenBy, ServeEvent.answeredBy] using ih
    | @take q th w t x =>
      by_cases hp : (q, th) = p
      · subst hp
        simpa [ServeEvent.takenBy, ServeEvent.answeredBy] using ih.take x
      · simpa [ServeEvent.takenBy, ServeEvent.answeredBy, hp, Function.update_of_ne (Ne.symm hp)]
          using ih
    | @respond q th x rest t r j w hx =>
      by_cases hp : (q, th) = p
      · subst hp
        simpa [ServeEvent.takenBy, ServeEvent.answeredBy] using ih.pick hx
      · simpa [ServeEvent.takenBy, ServeEvent.answeredBy, hp, Function.update_of_ne (Ne.symm hp)]
          using ih

omit [DecidableEq Co] in
theorem mem_takenBy {th : Th} {x : Taken κ} : x ∈ takenBy (q, th) ls ↔ .take q th x ∈ ls := by
  refine List.mem_filterMap.trans ⟨fun ⟨l, hl, hx⟩ => ?_, fun h => ⟨_, h, by
    simp [ServeEvent.takenBy]⟩⟩
  cases l with
  | take q' th' y =>
    simp only [ServeEvent.takenBy] at hx
    split at hx
    · rename_i hp
      cases hp
      cases hx
      exact hl
    · cases hx
  | _ => cases hx

omit [DecidableEq Co] in
/-- What a thread takes is handed out. -/
theorem mem_handedOut_of_takenBy {th : Th} {x : Taken κ} (h : x ∈ takenBy (q, th) ls) :
    x.stamp ∈ handedOut q ls :=
  List.mem_filterMap.mpr ⟨_, mem_takenBy.mp h, by simp [ServeEvent.handedOut]⟩

/-- Only this thread polls the queue. -/
def PolledBy (q : Nat) (th : Th) (ls : List (ServeEvent Th Lib Co κ)) : Prop :=
  ∀ th' x, .take q th' x ∈ ls → th' = th

omit [DecidableEq Co] in
/-- Then it takes whatever is handed out. -/
theorem PolledBy.handedOut_eq {th : Th} (hone : PolledBy q th ls) :
    handedOut q ls = (takenBy (q, th) ls).map Taken.stamp := by
  rw [handedOut, takenBy, List.map_filterMap]
  refine List.filterMap_congr fun l hl => ?_
  cases l with
  | take q' th' x =>
    by_cases hq : q' = q
    · subst hq
      simp [ServeEvent.handedOut, ServeEvent.takenBy, hone _ _ hl]
    · simp [ServeEvent.handedOut, ServeEvent.takenBy, hq]
  | _ => rfl

/-! ## The answers -/

omit [DecidableEq Th] [DecidableEq Co] in
theorem exists_post_of_mem_posted {i : Nat} (h : i ∈ posted q ls) : ∃ c env req j,
    (.nginx (.post c q env i req j .ok) : ServeEvent Th Lib Co κ) ∈ ls := by
  obtain ⟨e, he, hi⟩ := List.mem_filterMap.mp h
  obtain ⟨c, env, req, j, rfl⟩ := Worker.acceptedAt_eq_some hi
  exact ⟨c, env, req, j, mem_nginx he rfl⟩

/-- A task at the queue `q` carries a request that was posted there. -/
theorem Runs.exists_post {i a : Nat} {t : FfiTaskCtx Co} (H : Runs prog resolve ls s)
    (hi : i ∈ posted q ls) (ht : s.worker.tasks.cells a = some (i, t)) : ∃ c env req j,
    .nginx (.post c q env i req j .ok) ∈ ls ∧
      t.getReq s.worker.bufs = (reqBuffer req, reqLength req) := by
  obtain ⟨c, env, req, j, hp⟩ := exists_post_of_mem_posted hi
  exact ⟨c, env, req, j, hp, (H.worker.task_eq (mem_toWorker hp) ht).2⟩

/-- A thread takes a task that was posted at its queue, and puts it into the lane of its request. -/
theorem Runs.take_lane {th : Th} {x : Taken κ} (H : Runs prog resolve ls s)
    (hx : .take q th x ∈ ls) : ∃ c env req j, .nginx (.post c q env x.stamp req j .ok) ∈ ls ∧
      x.lane = (prog q).lane x.stamp (reqBuffer req, reqLength req) := by
  induction H with
  | nil => cases hx
  | @snoc ls s l s' H h ih =>
    rcases List.mem_append.mp hx with hx | hx
    · obtain ⟨c, env, req, j, hp, hl⟩ := ih hx
      exact ⟨c, env, req, j, List.mem_append_left _ hp, hl⟩
    · cases List.mem_singleton.mp hx
      have hmem : x.stamp ∈ posted q ls := by
        have hself : posted q (ls ++ [.take q th x]) = posted q ls := by
          simp [posted, ServeEvent.toWorker, WorkerEvent.acceptedAt]
        rw [← hself, Runs.posted_eq (Run.snoc H h), handedOut, filterMap_snoc]
        simp [ServeEvent.handedOut]
      cases h with
      | take _ ht hl =>
        obtain ⟨c, env, req, j, hp, hreq⟩ := Runs.exists_post H hmem ht
        exact ⟨c, env, req, j, List.mem_append_left _ hp, hreq ▸ hl⟩

theorem Runs.posted_of_taken [DecidableEq κ] {th : Th} {x : Taken κ} (H : Runs prog resolve ls s)
    (hx : x ∈ s.taken (q, th)) : x.stamp ∈ posted q ls := by
  have htaken : x ∈ takenBy (q, th) ls :=
    (H.inLanes (q, th)).perm.mem_iff.mpr (List.mem_append_right _ hx)
  rw [H.posted_eq]
  exact List.mem_append_left _ (mem_handedOut_of_takenBy htaken)

/-- A response is one of its own queue's program, to the request that was posted there. -/
theorem Runs.respond_serves [DecidableEq κ] {th : Th} {x : Taken κ} {r : Reply} {j : Nat}
    (H : Runs prog resolve ls s) (hr : .respond q th x r j ∈ ls) : ∃ c env req j',
    .nginx (.post c q env x.stamp req j' .ok) ∈ ls ∧
      (prog q).serve (reqBuffer req, reqLength req) r := by
  induction H with
  | nil => cases hr
  | @snoc ls s l s' H h ih =>
    rcases List.mem_append.mp hr with hr | hr
    · obtain ⟨c, env, req, j', hp, hs⟩ := ih hr
      exact ⟨c, env, req, j', List.mem_append_left _ hp, hs⟩
    · cases List.mem_singleton.mp hr
      cases h with
      | respond hx ht hs =>
        obtain ⟨c, env, req, j', hp, hreq⟩ :=
          Runs.exists_post H (Runs.posted_of_taken H hx.mem) ht
        exact ⟨c, env, req, j', List.mem_append_left _ hp, hreq ▸ hs⟩

theorem Runs.byRuntime_eq {e : WorkerEvent Th Lib Co} (H : Runs prog resolve ls s)
    (he : .nginx e ∈ ls) : e.byRuntime = false := by
  induction H with
  | nil => cases he
  | snoc _ h ih =>
    rcases List.mem_append.mp he with he | he
    · exact ih he
    · cases List.mem_singleton.mp he
      cases h with
      | nginx _ h => exact h

theorem Runs.respond_of_mem {i j : Nat} {rc len : Int} {rsp : Option Bytes}
    (H : Runs prog resolve ls s) (h : .respond i rc rsp j len ∈ ls.map ServeEvent.toWorker) :
    ∃ q th x, .respond q th x ⟨rc, rsp, len⟩ j ∈ ls ∧ x.stamp = i := by
  obtain ⟨l, hl, he⟩ := List.mem_map.mp h
  cases l with
  | nginx e =>
    cases he
    cases H.byRuntime_eq hl
  | respond q th x r j =>
    cases he
    exact ⟨q, th, x, hl, rfl⟩
  | _ => cases he

/-- What is true of the requests at the queue `q`. -/
structure Served (prog : Nat → Program κ) [DecidableEq κ] (ls : List (ServeEvent Th Lib Co κ))
    (s : Serving Th Lib Co κ) (q : Nat) : Prop where
  /-- The requests accepted are those handed out and then those queued, in order. -/
  inOrder : posted q ls = handedOut q ls ++ s.worker.queuedStamps q
  nodup : (posted q ls).Nodup
  /-- What a thread has taken is answered lane by lane, in order. -/
  lanes : ∀ th,
    InLanes Taken.lane (takenBy (q, th) ls) (answeredBy (q, th) ls) (s.taken (q, th))
  /-- A lane is that of the posted request. -/
  lane : ∀ {th x}, .take q th x ∈ ls → ∃ c env req j,
    .nginx (.post c q env x.stamp req j .ok) ∈ ls ∧
      x.lane = (prog q).lane x.stamp (reqBuffer req, reqLength req)
  /-- An answer is one that the program gives to the posted request. -/
  answer : ∀ {th x r j}, .respond q th x r j ∈ ls → ∃ c env req j',
    .nginx (.post c q env x.stamp req j' .ok) ∈ ls ∧
      (prog q).serve (reqBuffer req, reqLength req) r
  /-- No request is answered twice, by whatever thread. -/
  once : ((ls.map ServeEvent.toWorker).filterMap WorkerEvent.responded).Nodup

/-- **Serving a queue**, for any programs, in every run in which no stale callback is run. -/
theorem OwnRuns.served [DecidableEq κ] (H : OwnRuns prog resolve ls s) (q : Nat) :
    Served prog ls s q where
  inOrder := H.runs.posted_eq q
  nodup := H.runs.worker.posted_nodup q
  lanes th := H.runs.inLanes (q, th)
  lane hx := H.runs.take_lane hx
  answer hr := H.runs.respond_serves hr
  once := H.runs.worker.responded_nodup

/-- The only task of `callRun`. -/
def callTask (P : Program κ) (req : Bytes) : Taken κ :=
  ⟨0, 0, P.lane 0 (reqBuffer (some req), reqLength (some req))⟩

/-- A library is loaded, a coroutine posts `req` and gets a response, the runtime is unloaded. -/
def callRun (P : Program κ) (req rsp : Bytes) (len : Int) :
    List (ServeEvent Unit LuaString Unit κ) :=
  [.nginx (.sys (.load .ok (ascii "echo") none none (.loaded 0 (ascii "echo")) 0)),
    .nginx (.spawn ()),
    .nginx (.post () 0 {} 0 (some req) 0 .ok), .poll 0 (.enter ()), .take 0 () (callTask P req),
    .respond 0 () (callTask P req) ⟨0, some rsp, len⟩ 1, .nginx .drain,
    .nginx (.handle 0 {} (.resumed () (answer 0 (some rsp) len))),
    .nginx (.sys (.call 0 (some .unload) (some (0, .post .finish .ok)))), .poll 0 (.enter ()),
    .poll 0 (.take () .finish), .poll 0 (.free ())]

omit [DecidableEq Th] in
theorem wakes_empty {pc : Th → Pc} (h : ∀ th, pc th ≠ .asleep) : Pollers.Wakes ∅ pc :=
  ⟨by simp, fun hth => hth.elim fun th hth => (h th hth).elim⟩

/-- The library is loaded, and then the rest. -/
theorem callRun_split {P : Program κ} {req rsp : Bytes} {len : Int}
    (h : P.serve (reqBuffer (some req), reqLength (some req)) ⟨0, some rsp, len⟩) :
    ∃ (t s : Serving Unit LuaString Unit κ) (p : Pollers Unit Nat),
      Runs (fun _ => P) id ((callRun P req rsp len).take 2) t ∧
        (t.worker.sys.lua.call 0 none).2 = .post 0 ∧
        Run (Step (fun _ => P) id) t ((callRun P req rsp len).drop 2) s ∧
        s.worker.sys.queues.get 0 = some p ∧ p.pc () = .stopped := by
  have H₁ := Run.nil.snoc (@Step.nginx Unit LuaString Unit κ _ _ (fun _ => P) id init _ _
    (@Worker.Step.sys Unit LuaString Unit _ _ id _ _ _
      (@System.Step.load Unit LuaString Nat _ id _ .ok (ascii "echo") none none
        _ _ rfl) rfl) rfl)
  have H₂ := H₁.snoc (@Step.nginx Unit LuaString Unit κ _ _ (fun _ => P) id _ _ _
    (@Worker.Step.spawn Unit LuaString Unit _ _ id _ () rfl) rfl)
  have stay : ∀ {ls} {s : Serving Unit LuaString Unit κ}, Runs (fun _ => P) id ls s →
      Run (Step (fun _ => P) id) s [] s :=
    fun _ => .nil
  have H₃ := (stay H₂).snoc (@Step.nginx Unit LuaString Unit κ _ _ (fun _ => P) id _ _ _
    (@Worker.Step.post Unit LuaString Unit _ _ id _ () 0 none _ 0 (some req) _ _ 0 _ _ ∅ {}
      .ok _ rfl rfl (@Worker.NewBuffer.block _ 0 _ rfl) rfl rfl rfl
      (wakes_empty fun _ h => Pc.noConfusion h) rfl) rfl)
  have H₄ := H₃.snoc (@Step.poll Unit LuaString Unit κ _ _ (fun _ => P) id _ 0 _ _
    (@Worker.Step.sys Unit LuaString Unit _ _ id _ _ _
      (@System.Step.poll Unit LuaString Nat _ id _ 0 _ _ _ rfl rfl
        (@Pollers.Step.enter Unit Nat _ _ () rfl)) rfl) (by simp)
      (fun _ _ => P.ready_nil))
  have H₅ := H₄.snoc (@Step.take Unit LuaString Unit κ _ _ (fun _ => P) id _ 0 () _ _
    (callTask P req)
    (@Worker.Step.sys Unit LuaString Unit _ _ id _ _ _
      (@System.Step.poll Unit LuaString Nat _ id _ 0 _ _ _ rfl rfl
        (@Pollers.Step.lock Unit Nat _ _ () rfl)) rfl) rfl rfl)
  have H₆ := H₅.snoc (@Step.respond Unit LuaString Unit κ _ _ (fun _ => P) id _ 0 ()
    (callTask P req) [] _ ⟨0, some rsp, len⟩ 1 _ .head rfl h
    (@Worker.Step.respond Unit LuaString Unit _ _ id _ 0 0 _ (some rsp) _ _ 0 len
      (.head _) rfl (@Worker.NewBuffer.block _ 1 _ rfl)))
  have H₇ := H₆.snoc (@Step.nginx Unit LuaString Unit κ _ _ (fun _ => P) id _ _ _
    (@Worker.Step.drain Unit LuaString Unit _ _ id _ rfl) rfl)
  have H₈ := H₇.snoc (@Step.nginx Unit LuaString Unit κ _ _ (fun _ => P) id _ _ _
    (@Worker.Step.handle Unit LuaString Unit _ _ id _ 0 [] 0 _ {} _ _ rfl rfl rfl) rfl)
  have H₉ := H₈.snoc (@Step.nginx Unit LuaString Unit κ _ _ (fun _ => P) id _ _ _
    (@Worker.Step.sys Unit LuaString Unit _ _ id _ _ _
      (@System.Step.finish Unit LuaString Nat _ id _ 0 (some .unload) _ 0 _ _ _ rfl rfl
        (@Pollers.Step.post Unit Nat _ _ ∅ .finish {}
          (wakes_empty fun _ h => Pc.noConfusion h))) rfl) rfl)
  have H₁₀ := H₉.snoc (@Step.poll Unit LuaString Unit κ _ _ (fun _ => P) id _ 0 _ _
    (@Worker.Step.sys Unit LuaString Unit _ _ id _ _ _
      (@System.Step.poll Unit LuaString Nat _ id _ 0 _ _ _ rfl rfl
        (@Pollers.Step.enter Unit Nat _ _ () rfl)) rfl) (by simp)
      (fun _ _ => P.ready_nil))
  have H₁₁ := H₁₀.snoc (@Step.poll Unit LuaString Unit κ _ _ (fun _ => P) id _ 0 _ _
    (@Worker.Step.sys Unit LuaString Unit _ _ id _ _ _
      (@System.Step.poll Unit LuaString Nat _ id _ 0 _ _ _ rfl rfl
        (@Pollers.Step.lock Unit Nat _ _ () rfl)) rfl) (fun _ _ h => by cases h)
    (fun _ h => by cases h))
  have H₁₂ := H₁₁.snoc (@Step.poll Unit LuaString Unit κ _ _ (fun _ => P) id _ 0 _ _
    (@Worker.Step.sys Unit LuaString Unit _ _ id _ _ _
      (@System.Step.poll Unit LuaString Nat _ id _ 0 _ _ _ rfl rfl
        (@Pollers.Step.free Unit Nat _ _ () rfl)) rfl) (by simp) (by simp))
  exact ⟨_, _, _, H₂, rfl, H₁₂, rfl, rfl⟩

theorem callRun_runs {P : Program κ} {req rsp : Bytes} {len : Int}
    (h : P.serve (reqBuffer (some req), reqLength (some req)) ⟨0, some rsp, len⟩) :
    ∃ (s : Serving Unit LuaString Unit κ) (p : Pollers Unit Nat),
      Runs (fun _ => P) id (callRun P req rsp len) s ∧ s.worker.sys.queues.get 0 = some p ∧
        p.pc () = .stopped := by
  obtain ⟨t, s, p, H, _, K, hp, hpc⟩ := callRun_split h
  have H := H.append K
  rw [List.take_append_drop] at H
  exact ⟨s, p, H, hp, hpc⟩

omit [DecidableEq Th] [DecidableEq Co] in
theorem runsOwn_callRun {P : Program κ} {req rsp : Bytes} {len : Int} :
    ∀ l ∈ callRun P req rsp len, ∀ w : Worker Unit LuaString Unit, w.RunsOwn l.toWorker := by
  simp [callRun, ServeEvent.toWorker, WorkerEvent.reply, Worker.RunsOwn]

theorem callRun_ownRuns {P : Program κ} {req rsp : Bytes} {len : Int}
    (h : P.serve (reqBuffer (some req), reqLength (some req)) ⟨0, some rsp, len⟩) :
    ∃ s : Serving Unit LuaString Unit κ, OwnRuns (fun _ => P) id (callRun P req rsp len) s := by
  obtain ⟨s, _, H, _⟩ := callRun_runs h
  exact ⟨s, ownRun_of_run H runsOwn_callRun⟩

/-- A byte goes to `echo.go` and back. -/
def goRun : List (ServeEvent Unit LuaString Unit Nat) := callRun goProgram [104] [104] 1

theorem goRun_runs : ∃ (s : Serving Unit LuaString Unit Nat) (p : Pollers Unit Nat),
    Runs (fun _ => goProgram) id goRun s ∧ s.worker.sys.queues.get 0 = some p ∧
      p.pc () = .stopped :=
  callRun_runs ⟨[7], rfl, rfl⟩

theorem goRun_ownRuns : ∃ s : Serving Unit LuaString Unit Nat,
    OwnRuns (fun _ => goProgram) id goRun s :=
  callRun_ownRuns ⟨[7], rfl, rfl⟩

theorem post_mem_callRun (P : Program κ) (req rsp : Bytes) (len : Int) :
    .nginx (.post () 0 {} 0 (some req) 0 .ok) ∈ callRun P req rsp len := by
  simp [callRun]

theorem mem_callRun (P : Program κ) (req rsp : Bytes) (len : Int) :
    .nginx (.handle 0 {} (.resumed () (answer 0 (some rsp) len))) ∈ callRun P req rsp len := by
  simp [callRun]

/-- The request is posted, handed out and answered, and no other. -/
theorem served_goRun : ∃ s : Serving Unit LuaString Unit Nat,
    OwnRuns (fun _ => goProgram) id goRun s ∧ posted 0 goRun = [0] ∧ handedOut 0 goRun = [0] ∧
      Served (fun _ => goProgram) goRun s 0 := by
  obtain ⟨s, H⟩ := goRun_ownRuns
  exact ⟨s, H, rfl, rfl, OwnRuns.served H 0⟩

end Serving
end RestyFfi
