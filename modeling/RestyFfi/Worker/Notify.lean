import RestyFfi.Worker.Matching

/-!
# The event loop and its notifications

`ngx_http_lua_ffi_respond` appends the task to the done list under a spinlock, and notifies the
event loop only after it has released the lock; the loop detaches the whole list under the lock
before it handles anything. So a worker is refined here: a respond is two steps of its thread, and a
drain is the end of a run of `ngx_thread_pool_handler`, which a notification has started.
Notifications are merged, as in an eventfd. The handler may also run without one of ours.
-/

namespace RestyFfi
open Transition

/-- The task that a respond appends to the done list. -/
def WorkerEvent.responded : WorkerEvent Th Lib Co → Option Nat
  | .respond i .. => some i
  | _ => none

/-- The task that the event loop handles. -/
def WorkerEvent.handled : WorkerEvent Th Lib Co → Option Nat
  | .handle i .. => some i
  | _ => none

/-- An event that changes the done list. -/
def WorkerEvent.onDone : WorkerEvent Th Lib Co → Bool
  | .respond .. | .drain => true
  | _ => false

theorem WorkerEvent.responded_of_isCo {e : WorkerEvent Th Lib Co} (h : e.isCo = true) :
    e.responded = none := by
  cases e <;> first | rfl | cases h

theorem WorkerEvent.handled_of_isCo {e : WorkerEvent Th Lib Co} (h : e.isCo = true) :
    e.handled = none := by
  cases e <;> first | rfl | cases h

namespace Worker
variable {Th Lib Co : Type} [DecidableEq Th] [DecidableEq Co] {resolve : LuaString → Lib}
  {w w' : Worker Th Lib Co} {e : WorkerEvent Th Lib Co} {ls : List (WorkerEvent Th Lib Co)}

/-! ## The done list is a FIFO -/

/-- The tasks that wait for their handler: the rest of the batch, then the done list. -/
def answered (w : Worker Th Lib Co) : List Nat :=
  w.tasks.stamps w.drained ++ w.tasks.stamps w.done

omit [DecidableEq Th] [DecidableEq Co] in
theorem answered_congr (hd : w'.drained = w.drained) (hn : w'.done = w.done)
    (h : ∀ a, (w.tasks.cells a).isSome → w'.tasks.stamp a = w.tasks.stamp a) (I : w.Owned) :
    w'.answered = w.answered := by
  rw [answered, answered, hd, hn]
  congr 1
  · exact BlockHeap.stamps_congr fun a ha => h a (I.live_of_answered (.inr ha))
  · exact BlockHeap.stamps_congr fun a ha => h a (I.live_of_answered (.inl ha))

omit [DecidableEq Th] [DecidableEq Co] in
theorem Owned.not_answered_of_held {a : Nat} (I : w.Owned) (ha : a ∈ w.held) :
    ¬ (a ∈ w.done ∨ a ∈ w.drained) := by
  rintro (h | h)
  · cases I.tasks.unique (show a ∈ w.items .held from ha) (show a ∈ w.items .done from h)
  · cases I.tasks.unique (show a ∈ w.items .held from ha) (show a ∈ w.items .drained from h)

omit [DecidableEq Th] [DecidableEq Co] in
theorem answered_handle {a i : Nat} {t : FfiTaskCtx Co} {rest : List Nat} {B : BlockHeap Bytes}
    {f : Co → CoCtx} (I : w.Owned) (hd : w.drained = a :: rest)
    (ht : w.tasks.cells a = some (i, t)) :
    i :: answered { w with drained := rest, tasks := w.tasks.free a, bufs := B, co := f } =
      w.answered := by
  have hnd : (a :: rest).Nodup := hd ▸ I.tasks.nodup .drained
  have hrest : ∀ b ∈ rest, b ≠ a := by
    rintro b hb rfl
    exact (List.nodup_cons.mp hnd).1 hb
  have hdone : ∀ b ∈ w.done, b ≠ a := by
    rintro b hb rfl
    have := I.tasks.unique (show b ∈ w.items .done from hb)
      (show b ∈ w.items .drained by simp [items, hd])
    cases this
  rw [answered, answered, hd, BlockHeap.stamps_cons ht, List.cons_append]
  congr 2
  · exact BlockHeap.stamps_congr fun b hb => BlockHeap.free_stamp_of_ne (hrest b hb)
  · exact BlockHeap.stamps_congr fun b hb => BlockHeap.free_stamp_of_ne (hdone b hb)

theorem Move.answered_eq (I : w.Owned) (h : Move resolve w e w') :
    e.handled.toList ++ w'.answered = w.answered ++ e.responded.toList := by
  have keep : e.handled = none → e.responded = none → w'.drained = w.drained → w'.done = w.done →
      (∀ a, (w.tasks.cells a).isSome → w'.tasks.stamp a = w.tasks.stamp a) →
      e.handled.toList ++ w'.answered = w.answered ++ e.responded.toList := by
    intro he hr hd hn hT
    rw [he, hr, answered_congr hd hn hT I]
    simp
  cases h with
  | accepted _ _ ha =>
    refine keep rfl rfl rfl rfl fun b hb => BlockHeap.alloc_stamp_of_ne ha ?_
    rintro rfl
    rw [ha] at hb
    cases hb
  | rejected _ _ ha =>
    refine keep rfl rfl rfl rfl fun b hb => ?_
    rw [BlockHeap.free_stamp_of_ne, BlockHeap.alloc_stamp_of_ne ha]
    all_goals rintro rfl; rw [ha] at hb; cases hb
  | sys => exact keep rfl rfl rfl rfl fun _ _ => rfl
  | @respond a i t rsp r B rc len ha ht =>
    simp only [WorkerEvent.handled, WorkerEvent.responded, answered, Option.toList_none,
      Option.toList_some, List.nil_append, List.append_assoc]
    congr 1
    · exact BlockHeap.stamps_congr fun _ _ => BlockHeap.modify_stamp
    · rw [BlockHeap.stamps_snoc (BlockHeap.modify_cells_of_live ht)]
      congr 1
      exact BlockHeap.stamps_congr fun _ _ => BlockHeap.modify_stamp
  | drain hd => simp [WorkerEvent.handled, WorkerEvent.responded, answered, hd]
  | failed hd ht | resumed hd ht =>
    simpa only [WorkerEvent.handled, WorkerEvent.responded, Option.toList_some, Option.toList_none,
      List.append_nil, List.singleton_append] using answered_handle I hd ht
  | cleaned _ _ _ he =>
    exact keep (e.handled_of_isCo he) (e.responded_of_isCo he) rfl rfl
      fun _ _ => BlockHeap.modify_stamp
  | quiet _ _ _ he =>
    exact keep (e.handled_of_isCo he) (e.responded_of_isCo he) rfl rfl fun _ _ => rfl

/-- The tasks handled, followed by those that wait, are those responded to, in order. -/
theorem Runs.handled_append_answered (H : Runs resolve ls w) :
    ls.filterMap WorkerEvent.handled ++ w.answered = ls.filterMap WorkerEvent.responded := by
  induction H with
  | nil => rfl
  | snoc H h ih =>
    rw [filterMap_snoc, filterMap_snoc, ← ih, List.append_assoc, List.append_assoc,
      h.move.answered_eq (Runs.owned H)]

theorem Runs.responded_nodup (H : Runs resolve ls w) :
    (ls.filterMap WorkerEvent.responded).Nodup := by
  induction H with
  | nil => exact .nil
  | @snoc ls w e w' H h ih =>
    rw [filterMap_snoc]
    cases h with
    | @respond a i t rsp r B rc len ha ht =>
      refine List.nodup_append.mpr ⟨ih, List.nodup_singleton i, ?_⟩
      rintro k hk _ hi rfl
      cases List.mem_singleton.mp hi
      obtain ⟨e', he', hr⟩ := List.mem_filterMap.mp hk
      cases e' with
      | respond =>
        cases hr
        rcases (Runs.history H).responded he' with ⟨hf, _⟩ | ⟨b, u, hu, hb, _⟩
        · exact w.tasks.live_not_freed ht hf
        · cases w.tasks.addr_unique ht hu
          exact (Runs.owned H).not_answered_of_held ha hb
      | _ => cases hr
    | _ => simpa [WorkerEvent.responded] using ih

theorem Move.done_eq (h : Move resolve w e w') (he : e.onDone = false) : w'.done = w.done := by
  cases h with
  | respond | drain => cases he
  | _ => rfl

theorem Step.done_ne_nil {i j : Nat} {rc len : Int} {rsp : Option Bytes}
    (h : Step resolve w (.respond i rc rsp j len) w') : w'.done ≠ [] := by
  cases h
  simp

end Worker

/-! ## Notifications -/

/-- A worker, the threads that call `ngx_http_lua_ffi_respond`, and the event loop. -/
structure EventLoop (R Th Lib Co : Type) where
  worker : Worker Th Lib Co
  /-- The thread has appended its task and not called `ngx_notify` yet. -/
  appended : R → Bool
  /-- A notification is outstanding. -/
  notified : Bool
  /-- `ngx_thread_pool_handler` has been called and has not detached the done list yet. -/
  woken : Bool

/-- What happens around a worker. -/
inductive LoopEvent (R Th Lib Co : Type) where
  /-- An event of the worker that does not touch the done list. -/
  | worker (e : WorkerEvent Th Lib Co)
  /-- The thread `r` responds, up to `ngx_unlock(ngx_thread_pool_done_lock)`. -/
  | inject (r : R) (i : Nat) (rc : Int) (rsp : Option Bytes) (j : Nat) (len : Int)
  /-- `ngx_notify`, with its result, which nobody looks at. -/
  | notify (r : R) (ok : Bool)
  /-- `ngx_thread_pool_handler` is called for the outstanding notifications. -/
  | wake
  /-- It is called for some other reason. -/
  | spurious
  /-- It detaches the done list. -/
  | detach

/-- The event of the worker. -/
def LoopEvent.toWorker : LoopEvent R Th Lib Co → Option (WorkerEvent Th Lib Co)
  | .worker e => some e
  | .inject _ i rc rsp j len => some (.respond i rc rsp j len)
  | .detach => some .drain
  | _ => none

/-- An event of the worker in full: a respond of the thread `r` that notifies at once, and a run of
the handler without a notification. -/
def LoopEvent.ofWorker (r : R) : WorkerEvent Th Lib Co → List (LoopEvent R Th Lib Co)
  | .respond i rc rsp j len => [.inject r i rc rsp j len, .notify r true]
  | .drain => [.spurious, .detach]
  | e => [.worker e]

/-- The task that is appended to the done list. -/
def LoopEvent.injected (l : LoopEvent R Th Lib Co) : Option Nat :=
  l.toWorker.bind WorkerEvent.responded

/-- The task that is handled. -/
def LoopEvent.handled (l : LoopEvent R Th Lib Co) : Option Nat := l.toWorker.bind WorkerEvent.handled

namespace EventLoop
variable {R Th Lib Co : Type} [DecidableEq R] [DecidableEq Th] [DecidableEq Co]

def init : EventLoop R Th Lib Co := ⟨.init, fun _ => false, false, false⟩

/-- The steps. The event loop is one thread: it starts a run of the handler only when it has
handled the batch of the last one. -/
inductive Step (resolve : LuaString → Lib) (s : EventLoop R Th Lib Co) :
    LoopEvent R Th Lib Co → EventLoop R Th Lib Co → Prop where
  | worker : Worker.Step resolve s.worker e w → e.onDone = false →
    Step resolve s (.worker e) { s with worker := w }
  | inject : s.appended r = false → Worker.Step resolve s.worker (.respond i rc rsp j len) w →
    Step resolve s (.inject r i rc rsp j len)
      { s with worker := w, appended := Function.update s.appended r true }
  | notify : s.appended r = true →
    Step resolve s (.notify r ok)
      { s with appended := Function.update s.appended r false, notified := s.notified || ok }
  | wake : s.notified = true → s.woken = false → s.worker.drained = [] →
    Step resolve s .wake { s with notified := false, woken := true }
  | spurious : s.woken = false → s.worker.drained = [] →
    Step resolve s .spurious { s with woken := true }
  | detach : s.woken = true → Worker.Step resolve s.worker .drain w →
    Step resolve s .detach { s with worker := w, woken := false }

abbrev Runs (resolve : LuaString → Lib) (ls : List (LoopEvent R Th Lib Co))
    (s : EventLoop R Th Lib Co) : Prop :=
  Run (Step resolve) init ls s

variable {resolve : LuaString → Lib} {s s' : EventLoop R Th Lib Co} {l : LoopEvent R Th Lib Co}
  {ls : List (LoopEvent R Th Lib Co)}

/-- **Refinement.** The worker inside makes a run of its own. -/
theorem Runs.worker (H : Runs resolve ls s) :
    Worker.Runs resolve (ls.filterMap LoopEvent.toWorker) s.worker := by
  induction H with
  | nil => exact .nil
  | snoc _ h ih =>
    rw [filterMap_snoc]
    cases h with
    | worker h => exact ih.snoc h
    | inject _ h => exact ih.snoc h
    | detach _ h => exact ih.snoc h
    | notify | wake | spurious => simpa [LoopEvent.toWorker] using ih

/-- Conversely every run of a worker is one inside an event loop. -/
theorem Runs.of_worker {ws : List (WorkerEvent Th Lib Co)} {w : Worker Th Lib Co} (r : R)
    (H : Worker.Runs resolve ws w) : ∃ s : EventLoop R Th Lib Co,
      Runs resolve (ws.flatMap (LoopEvent.ofWorker r)) s ∧ s.worker = w ∧
      s.appended = (fun _ => false) ∧ s.woken = false := by
  induction H with
  | nil => exact ⟨init, .nil, rfl, rfl, rfl⟩
  | @snoc ws w e w' _ h ih =>
    obtain ⟨s, hs, rfl, ha, hw⟩ := ih
    rw [List.flatMap_append]
    -- an event that is one step of the loop
    have step : e.onDone = false → LoopEvent.ofWorker r e = [.worker e] →
        ∃ s' : EventLoop R Th Lib Co, Runs resolve (ws.flatMap (LoopEvent.ofWorker r) ++
          [e].flatMap (LoopEvent.ofWorker r)) s' ∧ s'.worker = w' ∧ s'.appended = (fun _ => false) ∧
          s'.woken = false := by
      intro he hof
      rw [List.flatMap_singleton, hof]
      exact ⟨_, hs.snoc (.worker h he), rfl, ha, hw⟩
    cases e with
    | respond i rc rsp j len =>
      have H₁ := hs.snoc (Step.inject (r := r) (by rw [ha]) h)
      have H₂ := H₁.snoc (show Step resolve _ (.notify r true) _ from
        .notify (Function.update_self ..))
      rw [List.append_assoc] at H₂
      refine ⟨_, H₂, rfl, ?_, hw⟩
      simp [ha]
    | drain =>
      have hd : s.worker.drained = [] := by
        cases h with
        | drain hd => exact hd
      have H₁ := hs.snoc (Step.spurious hw hd)
      have H₂ := H₁.snoc (Step.detach rfl h)
      rw [List.append_assoc] at H₂
      exact ⟨_, H₂, rfl, ha, rfl⟩
    | _ => exact step rfl rfl

/-- A task on the done list will be looked at. -/
def Attended (s : EventLoop R Th Lib Co) : Prop :=
  s.worker.done ≠ [] → s.notified = true ∨ (∃ r, s.appended r = true) ∨ s.woken = true

theorem Step.attended (h : Step resolve s l s') (hl : ∀ r, l ≠ .notify r false)
    (A : s.Attended) : s'.Attended := by
  intro hdone
  cases h with
  | worker h he =>
    rw [h.move.done_eq he] at hdone
    exact A hdone
  | @inject r => exact .inr (.inl ⟨r, Function.update_self ..⟩)
  | @notify r ok =>
    cases ok with
    | false => exact (hl r rfl).elim
    | true => exact .inl (Bool.or_true _)
  | wake | spurious => exact .inr (.inr rfl)
  | detach _ h =>
    cases h with
    | drain => exact (hdone rfl).elim

theorem Step.done_nil (h : Step resolve s .detach s') : s'.worker.done = [] := by
  cases h with
  | detach _ h =>
    cases h
    rfl

/-- What a response can rely on. -/
structure NotStranded (ls : List (LoopEvent R Th Lib Co)) (s : EventLoop R Th Lib Co) : Prop where
  /-- If `ngx_notify` has not failed since the list was detached, a task on the done list has a
  notification outstanding, or one to come, or the event loop is about to detach the list. -/
  attended : (∀ r ks ms, ls = ks ++ .notify r false :: ms → .detach ∈ ms) → s.Attended
  /-- Handled, drained and done tasks are the injected ones, in order. -/
  inOrder : ls.filterMap LoopEvent.handled ++ s.worker.tasks.stamps s.worker.drained ++
    s.worker.tasks.stamps s.worker.done = ls.filterMap LoopEvent.injected
  /-- Each task is injected once. -/
  once : (ls.filterMap LoopEvent.injected).Nodup

/-- **No stranded response**, in every reachable state. -/
theorem Runs.notStranded (H : Runs resolve ls s) : NotStranded ls s where
  attended := by
    induction H with
    | nil => exact fun _ hdone => (hdone rfl).elim
    | @snoc ls t l u _ h ih =>
      intro hno
      by_cases hl : l = .detach
      · subst hl
        exact fun hdone => (hdone h.done_nil).elim
      · refine h.attended (fun r hr => ?_) (ih fun r ks ms hls => ?_)
        · -- nothing comes after the last step
          subst hr
          cases hno r ls [] rfl
        · have hmem := hno r ks (ms ++ [l]) (by rw [hls, List.append_assoc, List.cons_append])
          simpa [Ne.symm hl] using hmem
  inOrder := by
    have h := H.worker.handled_append_answered
    rw [List.filterMap_filterMap, List.filterMap_filterMap, Worker.answered,
      ← List.append_assoc] at h
    exact h
  once := by
    have h := H.worker.responded_nodup
    rw [List.filterMap_filterMap] at h
    exact h

/-- The echo is on the done list, and its notification is outstanding. -/
theorem notStranded_echoRun : ∃ s : EventLoop Unit Unit LuaString Unit,
    Runs id ((Worker.echoRun.take 6).flatMap (LoopEvent.ofWorker ())) s ∧ s.worker.done ≠ [] ∧
      s.Attended ∧ ((Worker.echoRun.take 6).flatMap (LoopEvent.ofWorker ())).filterMap
        LoopEvent.injected = [0] := by
  obtain ⟨w, H⟩ := Worker.echoRun_runs
  rw [← List.take_append_drop 6 Worker.echoRun] at H
  obtain ⟨w, H, _⟩ := H.split
  obtain ⟨s, hs, rfl, _⟩ := Runs.of_worker () H
  have H : Worker.Runs id (Worker.echoRun.take 5 ++ [.respond 0 0 (some [104]) 1 1]) s.worker := H
  obtain ⟨_, _, h⟩ := H.snoc_split
  refine ⟨s, hs, h.done_ne_nil, (Runs.notStranded hs).attended fun r ks ms hls => ?_, rfl⟩
  -- no notification of the run fails
  have hmem : .notify r false ∈ (Worker.echoRun.take 6).flatMap (LoopEvent.ofWorker ()) := by
    simp [hls]
  simp [Worker.echoRun, LoopEvent.ofWorker] at hmem

end EventLoop
end RestyFfi
