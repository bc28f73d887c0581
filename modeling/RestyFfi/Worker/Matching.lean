import RestyFfi.Worker.History

/-!
# Matching of responses to requests

The link between a task and the coroutine that waits for it is kept twice: in the task, and in the
coroutine context whose cleanup callback marks the task when the coroutine is killed. The two agree
for every live task that is not marked (`Waits`), so the event handler resumes a coroutine only for
the post that it is suspended in.
-/

namespace RestyFfi
open Transition

/-- The event handler resumes a coroutine for the task `i`. -/
def WorkerEvent.resumes (i : Nat) : WorkerEvent Th Lib Co → Bool
  | .handle k _ (.resumed ..) => k = i
  | _ => false

theorem FfiTaskCtx.pushedRsp_eq {t : FfiTaskCtx Co} {bufs : BlockHeap Bytes} {rsp : Option Bytes}
    {j : Nat} (P : Worker.Points bufs t.rsp (rsp.map (j, ·))) :
    t.pushedRsp bufs = response rsp t.rspLen := by
  cases hr : t.rsp with
  | none =>
    rw [hr] at P
    cases rsp with
    | none => simp [pushedRsp, hr, response]
    | some => cases P
  | some p =>
    rw [hr] at P
    cases rsp with
    | none => cases P
    | some d =>
      cases P with
      | block hp => simp [pushedRsp, hr, read, hp, response]

/-- The event handler pushes the answer that the task carries. -/
theorem FfiTaskCtx.pushed_eq {t : FfiTaskCtx Co} {bufs : BlockHeap Bytes} {rsp : Option Bytes}
    {j : Nat} (P : Worker.Points bufs t.rsp (rsp.map (j, ·))) :
    t.pushed bufs = answer t.rc rsp t.rspLen := by
  rw [pushed, pushedRsp_eq P, answer]
  by_cases hrc : t.rc = 0 <;> simp [hrc]

namespace Worker
variable {Th Lib Co : Type} {w w' : Worker Th Lib Co} {e : WorkerEvent Th Lib Co}
  {ls : List (WorkerEvent Th Lib Co)} {a i : Nat} {t : FfiTaskCtx Co} {c : Co}

/-- The coroutine of every live task that is not marked is suspended in the post of that task, and
its cleanup callback designates the task. -/
def Waits (w : Worker Th Lib Co) : Prop :=
  ∀ {a i t}, w.tasks.cells a = some (i, t) → t.isAbort = false →
    w.co t.waitCoCtx = ⟨.ffi, a, .waiting i⟩

theorem Waits.ne_of_status (G : w.Waits) (ht : w.tasks.cells a = some (i, t))
    (hab : t.isAbort = false) (hc : ∀ i, (w.co c).status ≠ .waiting i) : t.waitCoCtx ≠ c := by
  rintro rfl
  exact hc i (by rw [G ht hab])

variable [DecidableEq Th] [DecidableEq Co] {resolve : LuaString → Lib}

theorem Move.waits (G : w.Waits) (h : Move resolve w e w') : w'.Waits := by
  intro a i t ht hab
  cases h with
  | @accepted c req r B b u o name q S env hc hbuf hb hu hs =>
    rcases BlockHeap.alloc_cells_eq_some hb ht with ⟨rfl, rfl, rfl⟩ | ⟨_, ht⟩
    · rw [hu]; exact Function.update_self ..
    · have hne := G.ne_of_status (c := c) ht hab (by simp [hc])
      exact (Function.update_of_ne hne ..).trans (G ht hab)
  | @rejected c req r B b o name q S env u hc hbuf hb hs =>
    obtain ⟨hba, ht⟩ := BlockHeap.free_cells_eq_some.mp ht
    rw [BlockHeap.alloc_cells_of_ne hb hba] at ht
    have hne := G.ne_of_status (c := c) ht hab (by simp [hc])
    exact (Function.update_of_ne hne ..).trans (G ht hab)
  | sys | drain => exact G ht hab
  | respond =>
    rcases BlockHeap.modify_cells_eq_some ht with ⟨rfl, u, hu, rfl⟩ | ⟨_, ht⟩
    · exact (G hu hab :)
    · exact G ht hab
  | failed => exact G (BlockHeap.free_cells_eq_some.mp ht).2 hab
  | @resumed b rest k u env hd hu hu' =>
    obtain ⟨hba, ht⟩ := BlockHeap.free_cells_eq_some.mp ht
    have hne : t.waitCoCtx ≠ u.waitCoCtx := by
      intro heq
      have := G ht hab
      rw [heq, G hu hu'] at this
      exact hba (congrArg CoCtx.data this).symm
    exact (Function.update_of_ne hne ..).trans (G ht hab)
  | @cleaned c x e hc =>
    rcases BlockHeap.modify_cells_eq_some ht with ⟨_, u, hu, rfl⟩ | ⟨hba, hold⟩
    · cases hab
    · have hne : t.waitCoCtx ≠ c := by
        intro heq
        exact hba (by rw [← heq, G hold hab])
      exact (Function.update_of_ne hne ..).trans (G hold hab)
  | @quiet c x e hc =>
    have hne : t.waitCoCtx ≠ c := by
      rintro rfl
      rw [G ht hab] at hc
      simp at hc
    exact (Function.update_of_ne hne ..).trans (G ht hab)

theorem Runs.waits (H : Runs resolve ls w) : w.Waits := by
  induction H with
  | nil => exact fun h => nomatch h
  | snoc _ h ih => exact h.move.waits ih

/-- A live task has the coroutine and the request that it was posted with. -/
theorem Runs.task_eq {q j : Nat} {env : TaskQueue.PostEnv} {req : Option Bytes} {rc : Rc}
    (H : Runs resolve ls w) (hp : .post c q env i req j rc ∈ ls)
    (ht : w.tasks.cells a = some (i, t)) :
    t.waitCoCtx = c ∧ t.getReq w.bufs = (reqBuffer req, reqLength req) := by
  rcases H.history.posted hp with ⟨hi, _⟩ | ⟨b, u, hu, hc, hlen, P⟩
  · exact (w.tasks.live_not_freed ht hi).elim
  · cases w.tasks.addr_unique ht hu
    rw [ht] at hu; cases hu
    refine ⟨hc, ?_⟩
    rw [FfiTaskCtx.getReq, P.read, hlen]
    cases req <;> rfl

/-! ## Aborted posts -/

/-- The task `i` is marked as aborted, or freed. -/
structure Marked (w : Worker Th Lib Co) (i : Nat) : Prop where
  owned : w.Owned
  lt : i < w.tasks.next
  isAbort : ∀ {a t}, w.tasks.cells a = some (i, t) → t.isAbort = true

omit [DecidableEq Th] [DecidableEq Co] in
theorem Posted.lt {req : Option Bytes} {j : Nat} (H : w.Posted c i req j) : i < w.tasks.next := by
  rcases H with ⟨hi, _⟩ | ⟨a, t, ht, _⟩
  · exact w.tasks.freed_lt hi
  · exact w.tasks.lt_next ht

theorem Move.next_le (h : Move resolve w e w') : w.tasks.next ≤ w'.tasks.next := by
  cases h with
  | accepted => exact Nat.le_succ _
  | rejected => simp
  | failed | resumed => simp
  | sys | respond | drain | cleaned | quiet => exact Nat.le_refl _

theorem Marked.move (M : w.Marked i) (h : Move resolve w e w') : w'.Marked i := by
  refine ⟨h.owned M.owned, Nat.lt_of_lt_of_le M.lt h.next_le, fun {a t'} ht' => ?_⟩
  rcases h.live_before ht' with ⟨t, ht⟩ | ⟨_, q, env, req, j, rfl⟩
  · rcases h.kept_or_freed M.owned ht with ⟨t'', ht'', K⟩ | ⟨hi, _⟩
    · rw [ht'] at ht''; cases ht''
      exact K.isAbort (M.isAbort ht)
    · exact (w'.tasks.live_not_freed ht' hi).elim
  · -- a new task has a new stamp
    have := M.lt
    cases h with
    | accepted => omega
    | cleaned _ _ _ he | quiet _ _ _ he => cases he

theorem Marked.run (M : w.Marked i) (H : Run (Step resolve) w ls w') : w'.Marked i := by
  induction H with
  | nil => exact M
  | snoc _ h ih => exact ih.move h.move

theorem Marked.not_resumed {env : HandlerEnv} {vals : List LuaVal} (M : w.Marked i)
    (h : Step resolve w (.handle i env (.resumed c vals)) w') : False := by
  cases h.move with
  | resumed _ ht hab => rw [M.isAbort ht] at hab; cases hab
  | cleaned _ _ _ he | quiet _ _ _ he => cases he

theorem Runs.marked_of_abort {q j : Nat} {env : TaskQueue.PostEnv} {req : Option Bytes} {rc : Rc}
    (H : Runs resolve ls w) (hp : .post c q env i req j rc ∈ ls)
    (h : Step resolve w (.abort c) w') : w'.Marked i := by
  have H' : Runs resolve (ls ++ [.abort c]) w' := H.snoc h
  have hp' := List.mem_append_left [.abort c] hp
  refine ⟨H'.owned, (H'.history.posted hp').lt, fun {a t} ht => ?_⟩
  by_contra hab
  have hw := H'.waits ht (by simpa using hab)
  obtain ⟨hc, _⟩ := H'.task_eq hp' ht
  have hdead : (w'.co c).status = .dead := by
    cases h with
    | abort => simp [Worker.abort, setCo]
  rw [hc] at hw
  rw [hw] at hdead
  cases hdead

/-! ## Matching -/

/-- At most one event frees a task, and so at most one resumes its coroutine. -/
theorem Runs.countP_resumes_le (H : Runs resolve ls w) (i : Nat) :
    ls.countP (·.resumes i) ≤ 1 := by
  have hnd : (ls.filterMap WorkerEvent.freed).Nodup := by
    rw [← List.nodup_reverse, ← H.history.freed_eq]
    exact w.tasks.freed_nodup
  have hle : ls.countP (·.resumes i) ≤ (ls.filterMap WorkerEvent.freed).count i := by
    rw [List.count, List.countP_filterMap]
    refine List.countP_mono_left fun e _ he => ?_
    cases e with
    | handle k env r =>
      cases r with
      | failed => cases he
      | resumed => simpa [WorkerEvent.resumes, WorkerEvent.freed] using he
    | _ => cases he
  exact hle.trans (List.nodup_iff_count_le_one.mp hnd i)

/-- What holds for an accepted post of `req` by the coroutine `c` that created the task `i`. -/
structure Matched (resolve : LuaString → Lib) (ls : List (WorkerEvent Th Lib Co))
    (w : Worker Th Lib Co) (c : Co) (i : Nat) (req : Option Bytes) : Prop where
  /-- The coroutine is resumed at most once for it. -/
  once : ls.countP (·.resumes i) ≤ 1
  /-- Its task carries its request. -/
  request : ∀ {a t}, w.tasks.cells a = some (i, t) →
    t.waitCoCtx = c ∧ t.getReq w.bufs = (reqBuffer req, reqLength req)
  /-- A coroutine resumed for it is the one that posted it, is suspended in this very post, and gets
  the answer that was given to this task. -/
  resumed : ∀ {env c' vals w'}, Step resolve w (.handle i env (.resumed c' vals)) w' →
    c' = c ∧ (w.co c).status = .waiting i ∧
    (∃ rc rsp j len, .respond i rc rsp j len ∈ ls) ∧
    ∀ rc rsp j len, .respond i rc rsp j len ∈ ls → vals = answer rc rsp len
  /-- A coroutine killed before the task is handled is never resumed for it. -/
  aborted : ∀ {ls₁ ls₂ q env j}, ls = ls₁ ++ .abort c :: ls₂ →
    .post c q env i req j .ok ∈ ls₁ → (∀ env r, .handle i env r ∉ ls₁) →
    ∀ env c' vals, .handle i env (.resumed c' vals) ∉ ls

theorem Runs.pushed_eq {rc len : Int} {rsp : Option Bytes} {j : Nat} (H : Runs resolve ls w)
    (hr : .respond i rc rsp j len ∈ ls) (ht : w.tasks.cells a = some (i, t)) :
    t.pushed w.bufs = answer rc rsp len := by
  rcases H.history.responded hr with ⟨hi, _⟩ | ⟨b, u, hu, _, hrc, hlen, P⟩
  · exact (w.tasks.live_not_freed ht hi).elim
  · cases w.tasks.addr_unique ht hu
    rw [ht] at hu; cases hu
    rw [FfiTaskCtx.pushed_eq P, hrc, hlen]

theorem Runs.not_resumed_of_abort {ls₁ ls₂ : List (WorkerEvent Th Lib Co)} {q j : Nat}
    {env : TaskQueue.PostEnv} {req : Option Bytes} {henv : HandlerEnv} {c' : Co}
    {vals : List LuaVal} (H : Runs resolve (ls₁ ++ .abort c :: ls₂) w)
    (hp : .post c q env i req j .ok ∈ ls₁) : .handle i henv (.resumed c' vals) ∉ ls₂ := by
  intro hmem
  obtain ⟨w₁, H₁, H₂⟩ := H.split
  obtain ⟨w₂, h₂, H₃⟩ := H₂.cons_split
  have M := Runs.marked_of_abort H₁ hp h₂
  obtain ⟨ks, ks', rfl⟩ := List.append_of_mem hmem
  obtain ⟨w₃, H₄, H₅⟩ := H₃.split
  obtain ⟨w₄, h₄, _⟩ := H₅.cons_split
  exact (M.run H₄).not_resumed h₄

/-- **Request and response match**, for every accepted post of every run. -/
theorem Runs.matching {q j : Nat} {env : TaskQueue.PostEnv} {req : Option Bytes}
    (H : Runs resolve ls w) (hp : .post c q env i req j .ok ∈ ls) :
    Matched resolve ls w c i req where
  once := H.countP_resumes_le i
  request ht := H.task_eq hp ht
  resumed h := by
    cases h.move with
    | @resumed a rest _ t _ hd ht hab =>
      obtain ⟨hc, _⟩ := H.task_eq hp ht
      refine ⟨hc, ?_, H.history.done ht (.inr (by simp [hd])), fun rc rsp j len hr => ?_⟩
      · rw [← hc, H.waits ht hab]
      · exact H.pushed_eq hr ht
    | cleaned _ _ _ he | quiet _ _ _ he => cases he
  aborted hls hp₁ hnot env c' vals hmem := by
    subst hls
    rcases List.mem_append.mp hmem with hmem | hmem
    · exact hnot _ _ hmem
    rcases List.mem_cons.mp hmem with heq | hmem
    · cases heq
    · exact H.not_resumed_of_abort hp₁ hmem

theorem matching_echoRun : ∃ w w' : Worker Unit LuaString Unit,
    Runs id echoRun.dropLast w ∧ (w.co ()).status = .waiting 0 ∧
      Step id w (.handle 0 {} (.resumed () [.bool true, .str [104], .nil])) w' := by
  obtain ⟨w', H'⟩ := echoRun_runs
  rw [← List.dropLast_append_getLast (l := echoRun) (by simp [echoRun])] at H'
  obtain ⟨w, H, h⟩ := H'.snoc_split
  have hp : .post () 0 {} 0 (some [104]) 0 .ok ∈ echoRun.dropLast := by simp [echoRun]
  exact ⟨w, w', H, ((Runs.matching H hp).resumed h).2.1, h⟩

end Worker
end RestyFfi
