import RestyFfi.Base.Calls
import RestyFfi.Runtime.Serving

/-!
# Remote procedure calls

What the whole is for: a Lua coroutine calls a runtime. The tasks and buffers, the queues, the done
list and the coroutine contexts of a worker implement the calls of `RestyFfi.Base.Calls`, so that
what holds of these holds of a worker with its runtimes (`OwnRuns.rpc`).
-/

namespace RestyFfi
open Transition

/-! ## Who waits -/

/-- The post that a coroutine is suspended in. -/
def CoStatus.post : CoStatus → Option Nat
  | .waiting i => some i
  | _ => none

/-- The posts that the coroutines wait for after an event, given those before. -/
def WorkerEvent.waitingAfter [DecidableEq Co] (f : Co → Option Nat) :
    WorkerEvent Th Lib Co → Co → Option Nat
  | .post c _ _ i _ _ .ok => Function.update f c (some i)
  | .handle _ _ (.resumed c _) | .abort c => Function.update f c none
  | _ => f

namespace Worker
variable {Th Lib Co : Type} [DecidableEq Th] [DecidableEq Co] {resolve : LuaString → Lib}
  {w w' : Worker Th Lib Co} {e : WorkerEvent Th Lib Co} {c : Co} {x : CoCtx}

def waiting (w : Worker Th Lib Co) (c : Co) : Option Nat := (w.co c).status.post

omit [DecidableEq Th] in
theorem waiting_update (h : w'.co = Function.update w.co c x) :
    w'.waiting = Function.update w.waiting c x.status.post := by
  funext c'
  rw [waiting, h]
  by_cases hc : c' = c
  · subst hc
    simp
  · simp [hc, waiting]

omit [DecidableEq Th] in
/-- A coroutine that is not suspended in `post` before is not suspended in it after. -/
theorem waiting_eq_of_update (h : w'.co = Function.update w.co c x)
    (hw : (w.co c).status.post = none) (hx : x.status.post = none) : w'.waiting = w.waiting := by
  rw [waiting_update h, hx]
  exact Function.update_eq_self_iff.mpr hw.symm

omit [DecidableEq Th] [DecidableEq Co] in
theorem runCleanup_co : (w.runCleanup x).co = w.co := by
  cases hx : x.cleanup <;> simp [runCleanup, hx, cleanup]

theorem Step.waiting_eq (h : Step resolve w e w') : w'.waiting = e.waitingAfter w.waiting := by
  cases h with
  | @post c _ _ _ q req r B a t p woken env rc p' hc =>
    cases rc with
    | ok =>
      exact waiting_update (c := c) (x := ⟨.ffi, a, .waiting w.tasks.next⟩)
        (by simp [posted, createTask, setCo])
    | error =>
      exact waiting_eq_of_update (c := c) (x := ⟨.ffi, a, .running⟩)
        (by simp [posted, createTask, taskFree, hc]) (by simp [hc, CoStatus.post]) rfl
  | sys | respond | drain => rfl
  | @handle a rest i t env _ r _ _ hr =>
    rw [eventHandler] at hr
    split at hr
    · cases hr; rfl
    split at hr
    · cases hr; rfl
    split at hr
    · cases hr; rfl
    · cases hr
      exact waiting_update (x := ⟨.null, (w.co t.waitCoCtx).data, .running⟩) rfl
  | @abort c =>
    exact waiting_update (x := { w.co c with cleanup := .null, status := .dead })
      (by rw [Worker.abort, setCo, runCleanup_co])
  | @other c data hc =>
    exact waiting_eq_of_update (c := c) (x := ⟨.other, data, .elsewhere⟩)
      (by rw [Worker.other, setCo, runCleanup_co]) (by rw [hc]; rfl) rfl
  | @otherDone c hc | @spawn c hc =>
    exact waiting_eq_of_update (x := { w.co c with cleanup := .null, status := .running }) rfl
      (by rw [hc]; rfl) rfl

end Worker

/-! ## The calls behind a run -/

def Reply.values (r : Reply) : List LuaVal := answer r.rc r.rsp r.len

/-- What the runtimes respond to requests. -/
def Program.serves (prog : Nat → Program κ) (q : Nat) (req : Option Bytes) (r : Reply) : Prop :=
  (prog q).serve (reqBuffer req, reqLength req) r

/-- What an event is in terms of calls: a runtime is called, answers, and the coroutine goes on, or
is killed. -/
def ServeEvent.toCalls :
    ServeEvent Th Lib Co κ → Option (Calls.Event Co Nat (Option Bytes) Reply (List LuaVal))
  | .nginx (.post c q _ i req _ .ok) => some (.call i ⟨c, q, req⟩)
  | .nginx (.handle i _ (.resumed c vals)) => some (.result c i vals)
  | .nginx (.abort c) => some (.cancel c)
  | .respond _ _ x r _ => some (.answer x.stamp r)
  | _ => none

namespace Serving
variable {Th Lib Co κ : Type} {ls : List (ServeEvent Th Lib Co κ)} {i : Nat} {c : Co}

theorem mem_calls {x : Calls.Call Co Nat (Option Bytes)} :
    .call i x ∈ ls.filterMap ServeEvent.toCalls ↔
      ∃ env j, .nginx (.post x.client x.service env i x.req j .ok) ∈ ls := by
  rw [List.mem_filterMap]
  refine ⟨fun ⟨l, hl, he⟩ => ?_, fun ⟨_, _, h⟩ => ⟨_, h, rfl⟩⟩
  unfold ServeEvent.toCalls at he
  split at he <;> cases he
  exact ⟨_, _, hl⟩

theorem mem_answers {r : Reply} : .answer i r ∈ ls.filterMap ServeEvent.toCalls ↔
    ∃ q th x j, .respond q th x r j ∈ ls ∧ x.stamp = i := by
  rw [List.mem_filterMap]
  refine ⟨fun ⟨l, hl, he⟩ => ?_, fun ⟨_, _, x, _, h, hi⟩ => ⟨_, h, by rw [← hi]; rfl⟩⟩
  unfold ServeEvent.toCalls at he
  split at he <;> cases he
  exact ⟨_, _, _, _, hl, rfl⟩

theorem mem_results {vals : List LuaVal} :
    .result c i vals ∈ ls.filterMap ServeEvent.toCalls ↔
      ∃ env, .nginx (.handle i env (.resumed c vals)) ∈ ls := by
  rw [List.mem_filterMap]
  refine ⟨fun ⟨l, hl, he⟩ => ?_, fun ⟨_, h⟩ => ⟨_, h, rfl⟩⟩
  unfold ServeEvent.toCalls at he
  split at he <;> cases he
  exact ⟨_, hl⟩

variable [DecidableEq Th] [DecidableEq Co] {prog : Nat → Program κ} {resolve : LuaString → Lib}
  {s s' : Serving Th Lib Co κ} {l : ServeEvent Th Lib Co κ}
  {a : Calls.State Co Nat (Option Bytes) Reply}

/-- The calls behind a run, in a state in which the same coroutines wait for the same posts. -/
structure Behind (prog : Nat → Program κ) (ls : List (ServeEvent Th Lib Co κ))
    (s : Serving Th Lib Co κ) (a : Calls.State Co Nat (Option Bytes) Reply) : Prop where
  runs : Calls.Runs (Program.serves prog) Reply.values (ls.filterMap ServeEvent.toCalls) a
  waiting : a.waiting = s.worker.waiting

/-- The task of an accepted post is new. -/
theorem Behind.calls_next (B : Behind prog ls s a) (H : Runs prog resolve ls s) :
    a.calls s.worker.tasks.next = none := by
  rw [Option.eq_none_iff_forall_ne_some]
  intro x hx
  obtain ⟨env, j, hp⟩ := mem_calls.mp (B.runs.inv.calls_iff.mp hx)
  exact Nat.lt_irrefl _ (H.worker.history.posted (mem_toWorker hp)).lt

/-- A runtime responds to a request that was posted at its queue, and once. -/
theorem Behind.respond [DecidableEq κ] {q j : Nat} {th : Th} {x : Taken κ} {r : Reply}
    (B : Behind prog ls s a) (H : Runs prog resolve ls s)
    (h : Step prog resolve s (.respond q th x r j) s') :
    Calls.Step (Program.serves prog) Reply.values a (.answer x.stamp r)
      { a with answers := Function.update a.answers x.stamp (some r) } := by
  have H' := Run.snoc H h
  obtain ⟨c, env, req, j', hp, hs⟩ :=
    Runs.respond_serves H' (List.mem_append_right ls (List.mem_singleton_self _))
  have hp : .nginx (.post c q env x.stamp req j' .ok) ∈ ls := by simpa using hp
  have hcall : .call x.stamp ⟨c, q, req⟩ ∈ ls.filterMap ServeEvent.toCalls :=
    mem_calls.mpr ⟨env, j', hp⟩
  refine .answer (B.runs.inv.calls_iff.mpr hcall) ?_ hs
  rw [Option.eq_none_iff_forall_ne_some]
  intro r' hr'
  obtain ⟨q', th', x', k, hmem, hx⟩ := mem_answers.mp (B.runs.inv.answers_iff.mp hr')
  have hnd := (Runs.worker H').responded_nodup
  rw [List.map_append, List.filterMap_append, List.nodup_append] at hnd
  refine hnd.2.2 x.stamp (List.mem_filterMap.mpr ⟨_, List.mem_map.mpr ⟨_, hmem, rfl⟩, ?_⟩) x.stamp
    (by simp [ServeEvent.toWorker, WorkerEvent.reply, WorkerEvent.responded]) rfl
  rw [← hx]
  rfl

/-- A coroutine goes on in the post that it is suspended in, with the answer to its request. -/
theorem Behind.resumed {env : HandlerEnv} {vals : List LuaVal} (B : Behind prog ls s a)
    (H : Runs prog resolve ls s)
    (h : Step prog resolve s (.nginx (.handle i env (.resumed c vals))) s') :
    Calls.Step (Program.serves prog) Reply.values a (.result c i vals)
      { a with waiting := Function.update a.waiting c none } := by
  have W := Runs.worker H
  cases h with
  | nginx hw =>
    cases hw.move with
    | @resumed b rest _ t _ hd ht hab =>
      obtain ⟨rc, rsp, j, len, hr⟩ := W.history.done ht (.inr (by simp [hd]))
      obtain ⟨q, th, x, hx, hi⟩ := Runs.respond_of_mem H hr
      rw [W.pushed_eq hr ht]
      refine @Calls.Step.result _ _ _ _ _ _ _ Reply.values a _ i ⟨rc, rsp, len⟩ ?_ ?_
      · rw [B.waiting, Worker.waiting, W.waits ht hab]
        rfl
      · exact B.runs.inv.answers_iff.mpr (mem_answers.mpr ⟨q, th, x, j, hx, hi⟩)
    | cleaned _ _ _ he | quiet _ _ _ he => cases he

theorem Step.behind [DecidableEq κ] (h : Step prog resolve s l s') (H : Runs prog resolve ls s)
    (B : Behind prog ls s a) : ∃ b, l.toCalls.elim (b = a)
      (Calls.Step (Program.serves prog) Reply.values a · b) ∧ b.waiting = s'.worker.waiting := by
  have hw : s'.worker.waiting = l.toWorker.waitingAfter a.waiting := by
    rw [B.waiting]
    exact h.worker.waiting_eq
  cases l with
  | nginx e =>
    cases e with
    | post c q env i req j rc =>
      cases rc with
      | ok =>
        have hi : i = s.worker.tasks.next ∧ (s.worker.co c).status = .running := by
          cases h with
          | nginx h => cases h with
            | post hc => exact ⟨rfl, hc⟩
        refine ⟨_, .call (hi.1 ▸ B.calls_next H) ?_, hw.symm⟩
        rw [B.waiting, Worker.waiting, hi.2]
        rfl
      | error => exact ⟨a, rfl, hw.symm⟩
    | handle i env r =>
      cases r with
      | resumed c vals => exact ⟨_, B.resumed H h, hw.symm⟩
      | failed => exact ⟨a, rfl, hw.symm⟩
    | abort c => exact ⟨_, .cancel, hw.symm⟩
    | _ => exact ⟨a, rfl, hw.symm⟩
  | respond q th x r j => exact ⟨_, B.respond H h, hw.symm⟩
  | _ => exact ⟨a, rfl, hw.symm⟩

theorem Runs.exists_behind [DecidableEq κ] (H : Runs prog resolve ls s) :
    ∃ a, Behind prog ls s a := by
  obtain ⟨a, ha, hR⟩ := Run.simulate_visible (f := ServeEvent.toCalls)
    (R := fun s a => a.waiting = s.worker.waiting) H rfl fun H K hR h => h.behind H ⟨K, hR⟩
  exact ⟨a, ha, hR⟩

/-- What a worker with its runtimes is for. -/
structure Implements (prog : Nat → Program κ) (ls : List (ServeEvent Th Lib Co κ))
    (s : Serving Th Lib Co κ) : Prop where
  /-- The run is one of calls, answers and results, and the same coroutines wait. -/
  refines : ∃ a, Behind prog ls s a
  /-- So a coroutine gets what the runtime that it has called answers to its own request, once, and
  nothing after it was killed. -/
  correct : Calls.Correct (Program.serves prog) Reply.values (ls.filterMap ServeEvent.toCalls)

/-- **Remote procedure call**, in every run of a worker with its runtimes in which no stale callback
is run. -/
theorem OwnRuns.rpc [DecidableEq κ] (H : OwnRuns prog resolve ls s) : Implements prog ls s := by
  obtain ⟨a, B⟩ := H.runs.exists_behind
  exact ⟨⟨a, B⟩, B.runs.correct⟩

/-- A byte goes to `echo.go` and back. -/
theorem rpc_goRun : ∃ s : Serving Unit LuaString Unit Nat,
    OwnRuns (fun _ => goProgram) id goRun s ∧ Implements (fun _ => goProgram) goRun s ∧
      goRun.filterMap ServeEvent.toCalls =
        [.call 0 ⟨(), 0, some [104]⟩, .answer 0 ⟨0, some [104], 1⟩,
          .result () 0 [.bool true, .str [104], .nil]] := by
  obtain ⟨s, H⟩ := goRun_ownRuns
  exact ⟨s, H, OwnRuns.rpc H, rfl⟩

/-- The result of a post. -/
theorem Runs.resumed_post [DecidableEq κ] {q j : Nat} {penv : TaskQueue.PostEnv}
    {req : Option Bytes} {env : HandlerEnv} {c' : Co} {vals : List LuaVal}
    (H : Runs prog resolve ls s) (hp : .nginx (.post c q penv i req j .ok) ∈ ls)
    (h : .nginx (.handle i env (.resumed c' vals)) ∈ ls) :
    c' = c ∧ ∃ r, (prog q).serve (reqBuffer req, reqLength req) r ∧ vals = r.values := by
  obtain ⟨a, B⟩ := H.exists_behind
  obtain ⟨x, r, hx, rfl, _, hs, rfl⟩ := B.runs.own (mem_results.mpr ⟨env, h⟩)
  obtain ⟨penv', j', hp'⟩ := mem_calls.mp hx
  have heq := H.worker.post_inj (mem_toWorker hp) (mem_toWorker hp')
  cases heq
  exact ⟨rfl, r, hs, rfl⟩

end Serving
end RestyFfi
