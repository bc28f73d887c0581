import RestyFfi.Worker.Matching

/-!
# The cleanup callback

`ngx_http_lua_ffi_create_task` installs the callback before the post is known to succeed. The event
handler clears it when it resumes the coroutine; the exits that free the task without resuming the
coroutine do not. So the callback of a coroutine designates its own live task exactly as long as no
post is rejected and no handler gives up on a task that is not marked (`Retracts`).

A stale callback that is run sets its bit in whatever lives at the address of the freed task by
then. This can be a buffer (`HeapStep`), so that a request may not reach its runtime as it was
posted (`stray_changes_request`).
-/

namespace RestyFfi
open Transition

namespace Worker
variable {Th Lib Co : Type} {w w' : Worker Th Lib Co} {e : WorkerEvent Th Lib Co}
  {ls : List (WorkerEvent Th Lib Co)}

/-- A coroutine whose callback is `ngx_http_lua_ffi_cleanup` has a live task of its own as `data`. -/
def NoDangling (w : Worker Th Lib Co) : Prop :=
  ∀ c, (w.co c).cleanup = .ffi →
    ∃ i t, w.tasks.cells (w.co c).data = some (i, t) ∧ t.waitCoCtx = c

/-- The step frees no task behind the callback of its coroutine: the queue of a post has room and
its lock and signal work, and a handler finds the request and the module context of the coroutine
unless the task is marked as aborted. -/
def Retracts (w : Worker Th Lib Co) : WorkerEvent Th Lib Co → Prop
  | .post _ q env _ _ _ _ => ∀ p, w.sys.queues.get q = some p →
    env.lock = true ∧ env.signal = true ∧ p.tq.waiting < p.tq.maxQueue
  | .handle i env _ => ∀ a t, w.tasks.cells a = some (i, t) →
    t.isAbort = true ∨ env.req = true ∧ env.moduleCtx = true
  | _ => True

/-- The callback designates a task that is not even marked. -/
def Guarded (w : Worker Th Lib Co) : Prop :=
  ∀ c, (w.co c).cleanup = .ffi →
    ∃ i t, w.tasks.cells (w.co c).data = some (i, t) ∧ t.waitCoCtx = c ∧ t.isAbort = false

theorem Guarded.noDangling (G : w.Guarded) : w.NoDangling := by
  intro c hc
  obtain ⟨i, t, ht, hw, _⟩ := G c hc
  exact ⟨i, t, ht, hw⟩

variable [DecidableEq Th] [DecidableEq Co] {resolve : LuaString → Lib}

theorem Step.ok_iff {c : Co} {q i j : Nat} {env : TaskQueue.PostEnv} {req : Option Bytes} {rc : Rc}
    (h : Step resolve w (.post c q env i req j rc) w') :
    rc = .ok ↔ w.Retracts (.post c q env i req j rc) := by
  cases h with
  | @post c o name L q req r B a t p woken env rc p' _ _ _ _ _ hq _ hpost =>
    have hok := TaskQueue.ngxTaskPost_request_ok_iff env p.tq a
    rw [← p.post_fst env (.request a) woken, hpost] at hok
    simp only [Retracts, hq, Option.some.injEq, forall_eq', hok]

theorem Guarded.step (G : w.Guarded) (h : Step resolve w e w') (hs : w.Retracts e) :
    w'.Guarded := by
  intro c hc
  cases h.move with
  | @accepted d req r B a t o name q S env _ _ ha ht =>
    by_cases hcd : c = d
    · subst hcd
      simp only [Function.update_self] at hc ⊢
      exact ⟨_, t, BlockHeap.alloc_cells_self ha, by rw [ht], by rw [ht]⟩
    · simp only [Function.update_of_ne hcd] at hc ⊢
      obtain ⟨i, u, hu, hw⟩ := G c hc
      exact ⟨i, u, BlockHeap.alloc_cells_of_some ha hu, hw⟩
  | rejected => cases h.ok_iff.mpr hs
  | sys | drain => exact G c hc
  | @respond a i t rsp r B rc len _ _ _ =>
    obtain ⟨k, u, hu, hw, hab⟩ := G c hc
    by_cases hd : (w.co c).data = a
    · exact ⟨k, u.respond rc r len, hd ▸ BlockHeap.modify_cells_of_live (hd ▸ hu), hw, hab⟩
    · exact ⟨k, u, (BlockHeap.modify_cells_of_ne hd).trans hu, hw, hab⟩
  | @failed a rest i t env _ ht hfail =>
    have hmark : t.isAbort = true := by
      rcases hs a t ht with hs | ⟨hreq, hctx⟩
      · exact hs
      · simpa [hreq, hctx] using hfail
    obtain ⟨k, u, hu, hw, hab⟩ := G c hc
    have hd : (w.co c).data ≠ a := by
      intro hd
      rw [hd, ht] at hu; cases hu
      rw [hmark] at hab; cases hab
    exact ⟨k, u, BlockHeap.free_cells_eq_some.mpr ⟨hd, hu⟩, hw, hab⟩
  | @resumed a rest i t env _ ht =>
    have hct : c ≠ t.waitCoCtx := by rintro rfl; simp at hc
    simp only [Function.update_of_ne hct] at hc ⊢
    obtain ⟨k, u, hu, hw, hab⟩ := G c hc
    have hd : (w.co c).data ≠ a := by
      intro hd
      rw [hd, ht] at hu; cases hu
      exact hct hw.symm
    exact ⟨k, u, BlockHeap.free_cells_eq_some.mpr ⟨hd, hu⟩, hw, hab⟩
  | @cleaned d x _ hd hx =>
    have hcd : c ≠ d := by rintro rfl; simp at hc; exact hx hc
    simp only [Function.update_of_ne hcd] at hc ⊢
    obtain ⟨k, u, hu, hw, hab⟩ := G c hc
    have hdata : (w.co c).data ≠ (w.co d).data := by
      intro heq
      obtain ⟨_, _, hu', hw', _⟩ := G d hd
      rw [← heq, hu] at hu'; cases hu'
      exact hcd (hw.symm.trans hw')
    exact ⟨k, u, (BlockHeap.modify_cells_of_ne hdata).trans hu, hw, hab⟩
  | @quiet d x _ _ hx =>
    have hcd : c ≠ d := by rintro rfl; simp at hc; exact hx hc
    simp only [Function.update_of_ne hcd] at hc ⊢
    exact G c hc

/-- A step that does not retract leaves a dangling callback behind. -/
theorem Step.retracts (G : w.Waits) (h : Step resolve w e w') (hn : w'.NoDangling) :
    w.Retracts e := by
  cases e with
  | post c q env i req j rc =>
    refine h.ok_iff.mp ?_
    cases h.move with
    | accepted => rfl
    | rejected =>
      obtain ⟨k, t, ht, _⟩ := hn c (by simp)
      simp [BlockHeap.free_cells] at ht
    | cleaned _ _ _ he | quiet _ _ _ he => cases he
  | handle i env r =>
    intro a t ht
    by_contra hnot
    simp only [not_or, Bool.not_eq_true] at hnot
    cases h.move with
    | @failed b rest _ u _ _ hu hfail =>
      cases w.tasks.addr_unique ht hu
      rw [ht] at hu; cases hu
      have hw := G ht hnot.1
      obtain ⟨k, u, hu, _⟩ := hn t.waitCoCtx (by simp only [hw])
      simp [BlockHeap.free_cells, hw] at hu
    | @resumed b rest _ u _ _ hu _ hreq hctx => exact hnot.2 ⟨hreq, hctx⟩
    | cleaned _ _ _ he | quiet _ _ _ he => cases he
  | _ => trivial

/-- **No dangling cleanup**: the runs all of whose states have no dangling callback are the runs all
of whose steps retract. -/
theorem noDangling_iff :
    Run (fun w e w' => Step resolve w e w' ∧ w'.NoDangling) init ls w ↔
      Run (fun w e w' => Step resolve w e w' ∧ w.Retracts e) init ls w := by
  constructor
  · intro H
    have key : Runs resolve ls w ∧
        Run (fun w e w' => Step resolve w e w' ∧ w.Retracts e) init ls w := by
      induction H with
      | nil => exact ⟨.nil, .nil⟩
      | snoc _ h ih => exact ⟨ih.1.snoc h.1, ih.2.snoc ⟨h.1, h.1.retracts ih.1.waits h.2⟩⟩
    exact key.2
  · intro H
    have key : w.Guarded ∧
        Run (fun w e w' => Step resolve w e w' ∧ w'.NoDangling) init ls w := by
      induction H with
      | nil => exact ⟨fun _ h => (nomatch h), .nil⟩
      | snoc _ h ih =>
        have G := ih.1.step h.1 h.2
        exact ⟨G, ih.2.snoc ⟨h.1, G.noDangling⟩⟩
    exact key.2

/-- A coroutine posts to a queue without room, and keeps a callback to the task that was freed. -/
theorem rejected_post_dangles : ∃ w : Worker Unit LuaString Unit,
    Runs id
      [.sys (.load .ok (ascii "echo") none (some { maxQueue := some 0 })
        (.loaded 0 (ascii "echo")) 0),
        .spawn (), .post () 0 {} 0 none 0 .error] w ∧ ¬ w.NoDangling := by
  have H₁ := Run.nil.snoc (@Step.sys Unit LuaString Unit _ _ id init _ _
    (@System.Step.load Unit LuaString Nat _ id _ .ok (ascii "echo") none
      (some { maxQueue := some 0 }) _ _ rfl) rfl)
  have H₂ := H₁.snoc (@Step.spawn Unit LuaString Unit _ _ id _ () rfl)
  have H₃ := H₂.snoc (@Step.post Unit LuaString Unit _ _ id _ () 0 none _ 0 none none _ 0 _ _ ∅ {}
    .error _ rfl rfl .null rfl rfl rfl ⟨by simp, fun ⟨_, h⟩ => nomatch h⟩ rfl)
  refine ⟨_, H₃, fun hn => ?_⟩
  obtain ⟨i, t, ht, _⟩ := hn () rfl
  cases ht

/-! ## One heap -/

/-- A callback that is run in the step designates a live task of its coroutine. -/
def RunsOwn (w : Worker Th Lib Co) : WorkerEvent Th Lib Co → Prop
  | .abort c | .other c _ => (w.co c).cleanup = .ffi →
    ∃ i t, w.tasks.cells (w.co c).data = some (i, t) ∧ t.waitCoCtx = c
  | _ => True

/-- The steps of a worker whose tasks and buffers come from one heap. A stale callback may write
into a byte of any buffer. -/
inductive HeapStep (resolve : LuaString → Lib) (w : Worker Th Lib Co) :
    WorkerEvent Th Lib Co → Worker Th Lib Co → Prop where
  | step : Step resolve w l v → HeapStep resolve w l v
  | stray : Step resolve w l v → ¬ w.RunsOwn l →
    HeapStep resolve w l { v with bufs := v.bufs.modify p fun block => block.set k b }

omit [DecidableEq Th] [DecidableEq Co] in
theorem NoDangling.runsOwn (h : w.NoDangling) (e : WorkerEvent Th Lib Co) : w.RunsOwn e := by
  cases e with
  | abort c | other c => exact h c
  | _ => trivial

theorem HeapStep.of_runsOwn (h : HeapStep resolve w e w') (he : w.RunsOwn e) :
    Step resolve w e w' := by
  cases h with
  | step h => exact h
  | stray _ hn => exact (hn he).elim

/-- No stale callback is run, and so no buffer written to, if all steps retract. -/
theorem runsOwn_of_retracts
    (H : Run (fun w e w' => HeapStep resolve w e w' ∧ w.Retracts e) init ls w) :
    Run (fun w e w' => HeapStep resolve w e w' ∧ w.RunsOwn e) init ls w := by
  refine (H.strengthen (I := Guarded) (fun _ h => nomatch h) fun {w e w'} hI h => ?_).1
  have hown := hI.noDangling.runsOwn e
  exact ⟨⟨h.1, hown⟩, hI.step (h.1.of_runsOwn hown) h.2⟩

/-- A coroutine posts to a queue with room for one request, and another one is turned away. -/
def staleRun : List (WorkerEvent Unit LuaString Bool) :=
  [.sys (.load .ok (ascii "echo") none (some { maxQueue := some 1 }) (.loaded 0 (ascii "echo")) 0),
    .spawn false, .spawn true, .post true 0 {} 0 (some [104]) 0 .ok,
    .post false 0 {} 1 none 1 .error]

theorem staleRun_runs : ∃ (w : Worker Unit LuaString Bool) (k : Nat), Runs id staleRun w ∧
    (w.co false).cleanup = .ffi ∧ (w.co false).data = 1 ∧ w.tasks.cells 1 = none ∧
      w.tasks.cells 0 = some (0, { waitCoCtx := true, req := some 0, reqLen := 1 }) ∧
      w.bufs.cells 0 = some (k, [104, 0]) := by
  have H₁ := Run.nil.snoc (@Step.sys Unit LuaString Bool _ _ id init _ _
    (@System.Step.load Unit LuaString Nat _ id _ .ok (ascii "echo") none
      (some { maxQueue := some 1 }) _ _ rfl) rfl)
  have H₂ := H₁.snoc (@Step.spawn Unit LuaString Bool _ _ id _ false rfl)
  have H₃ := H₂.snoc (@Step.spawn Unit LuaString Bool _ _ id _ true rfl)
  have H₄ := H₃.snoc (@Step.post Unit LuaString Bool _ _ id _ true 0 none _ 0 (some [104]) _ _ 0 _ _
    ∅ {} .ok _ rfl rfl (@NewBuffer.block _ 0 _ rfl) rfl rfl rfl
    ⟨by simp, fun ⟨_, h⟩ => nomatch h⟩ rfl)
  have H₅ := H₄.snoc (@Step.post Unit LuaString Bool _ _ id _ false 0 none _ 0 none none _ 1 _ _ ∅
    {} .error _ rfl rfl .null rfl rfl rfl ⟨by simp, fun ⟨_, h⟩ => nomatch h⟩ rfl)
  exact ⟨_, _, H₅, rfl, rfl, rfl, rfl, rfl⟩

/-- The one that was turned away is killed, and its callback run. What the other one has posted is
not the same afterwards. -/
theorem stray_changes_request : ∃ (w : Worker Unit LuaString Bool) (t : FfiTaskCtx Bool),
    Run (HeapStep id) init (staleRun ++ [.abort false]) w ∧
      w.tasks.cells 0 = some (0, t) ∧ t.isAbort = false ∧ t.getReq w.bufs = (some [105, 0], 1) := by
  obtain ⟨w, k, H, hc, hd, hfree, ht, hbuf⟩ := staleRun_runs
  have hstale : ¬ w.RunsOwn (.abort false) := fun h => by
    obtain ⟨i, t, hlive, _⟩ := h hc
    rw [hd, hfree] at hlive
    cases hlive
  have hrun : w.abort false = (w.cleanup 1).setCo false
      { w.co false with cleanup := .null, status := .dead } := by
    rw [abort, runCleanup_of_ffi hc, hd]
  have H' := (H.mono HeapStep.step).snoc
    (@HeapStep.stray _ _ _ _ _ id w _ _ 0 0 105 .abort hstale)
  refine ⟨_, { waitCoCtx := true, req := some 0, reqLen := 1 }, H', ?_, rfl, ?_⟩
  · rw [hrun]
    exact (BlockHeap.modify_cells_of_ne (by decide)).trans ht
  · rw [hrun]
    simp [FfiTaskCtx.getReq, FfiTaskCtx.read, setCo, cleanup, BlockHeap.modify_cells_of_live hbuf]

end Worker
end RestyFfi
