import RestyFfi.Lua.Stranded
import RestyFfi.Worker.Notify

/-!
# From a post to a poll

The request queues of a worker by the stamps of their tasks. A task keeps its stamp while it is
queued or held, so what polls hand out at a queue, followed by what is queued there, is what was
posted to it, in order (`Move.queued_stamps`). A queue whose poll has returned `NULL` is empty.
-/

namespace RestyFfi
open Transition

/-- The task that an accepted post at the queue `q` has created. -/
def WorkerEvent.acceptedAt (q : Nat) : WorkerEvent Th Lib Co → Option Nat
  | .post _ q' _ i _ _ .ok => if q' = q then some i else none
  | _ => none

/-- The addresses of the tasks that a poll takes from the queue `q`. -/
def WorkerEvent.polledAt (q : Nat) : WorkerEvent Th Lib Co → List Nat
  | .sys e => match e.polled with
    | some (q', a) => if q' = q then [a] else []
    | none => []
  | _ => []

theorem WorkerEvent.acceptedAt_of_isCo {e : WorkerEvent Th Lib Co} {q : Nat} (h : e.isCo = true) :
    e.acceptedAt q = none := by
  cases e <;> first | rfl | cases h

theorem WorkerEvent.polledAt_of_isCo {e : WorkerEvent Th Lib Co} {q : Nat} (h : e.isCo = true) :
    e.polledAt q = [] := by
  cases e <;> first | rfl | cases h

namespace Worker
variable {Th Lib Co : Type} [DecidableEq Th] [DecidableEq Co] {resolve : LuaString → Lib}
  {w w' : Worker Th Lib Co} {e : WorkerEvent Th Lib Co} {ls : List (WorkerEvent Th Lib Co)}
  {a i q : Nat} {t : FfiTaskCtx Co} {p : Place}

/-- A task stays alive until it is drained. -/
theorem Move.kept (I : w.Owned) (h : Move resolve w e w') (hp : a ∈ w.items p) (hne : p ≠ .drained)
    (ht : w.tasks.cells a = some (i, t)) :
    ∃ t', w'.tasks.cells a = some (i, t') ∧ Kept w w' a t t' := by
  rcases h.kept_or_freed I ht with hk | ⟨hi, _⟩
  · exact hk
  -- only the handler frees a task that is there
  rw [h.freed_eq, List.mem_append, Option.mem_toList] at hi
  rcases hi with hi | hi
  · cases h with
    | rejected =>
      cases hi
      exact (Nat.lt_irrefl _ (w.tasks.lt_next ht)).elim
    | failed hd hu | resumed hd hu =>
      cases hi
      cases w.tasks.addr_unique ht hu
      exact (hne (I.tasks.unique hp (show a ∈ w.items .drained by simp [items, hd]))).elim
    | cleaned _ _ _ he | quiet _ _ _ he =>
      rw [WorkerEvent.freed_of_isCo he] at hi
      cases hi
    | _ => cases hi
  · exact (w.tasks.live_not_freed ht hi).elim

theorem Move.stamp_eq (I : w.Owned) (h : Move resolve w e w') (hp : a ∈ w.items p)
    (hne : p ≠ .drained) : w'.tasks.stamp a = w.tasks.stamp a := by
  obtain ⟨⟨i, t⟩, ht⟩ := Option.isSome_iff_exists.mp (I.tasks.live_of_mem hp)
  obtain ⟨t', ht', _⟩ := h.kept I hp hne ht
  rw [BlockHeap.stamp_of_live ht', BlockHeap.stamp_of_live ht]

/-- The tasks queued at `q`, oldest first. -/
def queuedStamps (w : Worker Th Lib Co) (q : Nat) : List Nat := w.tasks.stamps (w.sys.queued q)

theorem Move.stamps_queued (I : w.Owned) (h : Move resolve w e w') (q : Nat) :
    w'.tasks.stamps (w.sys.queued q) = w.queuedStamps q :=
  BlockHeap.stamps_congr fun _ ha => h.stamp_eq I (p := .queue q) ha (by simp)

/-- What a step takes from a queue and leaves there is what was there and what it adds. -/
theorem Move.queued_stamps (I : w.Owned) (h : Move resolve w e w') (q : Nat) :
    w.tasks.stamps (e.polledAt q) ++ w'.queuedStamps q =
      w.queuedStamps q ++ (e.acceptedAt q).toList := by
  have hold := h.stamps_queued I q
  have keep : e.polledAt q = [] → e.acceptedAt q = none → w'.sys.queued q = w.sys.queued q →
      w.tasks.stamps (e.polledAt q) ++ w'.queuedStamps q =
        w.queuedStamps q ++ (e.acceptedAt q).toList := by
    intro hp ha hq
    rw [hp, ha, queuedStamps, hq, hold]
    simp
  cases h with
  | @accepted c req r B a t o name q' S env _ _ ha _ hs =>
    have hq := hs.queued_post q
    by_cases hqq : q' = q
    · subst hqq
      simp only [and_self, if_true] at hq
      simp only [queuedStamps, hq, BlockHeap.stamps_snoc (BlockHeap.alloc_cells_self ha)]
      simp only [queuedStamps] at hold
      rw [hold]
      simp [WorkerEvent.polledAt, WorkerEvent.acceptedAt]
    · refine keep rfl (by simp [WorkerEvent.acceptedAt, hqq]) ?_
      simpa [Ne.symm hqq] using hq
  | rejected _ _ _ hs => exact keep rfl rfl (by simpa using hs.queued_post q)
  | @sys se S hs he =>
    have hq := hs.queued_polled he
    cases hp : se.polled with
    | none =>
      rw [hp] at hq
      exact keep (by simp [WorkerEvent.polledAt, hp]) rfl (hq q)
    | some x =>
      obtain ⟨q', a⟩ := x
      rw [hp] at hq
      obtain ⟨hself, hother⟩ := hq
      by_cases hqq : q' = q
      · subst hqq
        simp only [queuedStamps, hself, WorkerEvent.polledAt, hp, if_true, WorkerEvent.acceptedAt,
          Option.toList_none, List.append_nil]
        rw [← List.singleton_append (l := S.queued q')]
        simp only [BlockHeap.stamps, List.filterMap_append]
      · refine keep (by simp [WorkerEvent.polledAt, hp, hqq]) rfl (hother q (Ne.symm hqq))
  | cleaned _ _ _ he | quiet _ _ _ he =>
    exact keep (WorkerEvent.polledAt_of_isCo he) (WorkerEvent.acceptedAt_of_isCo he) rfl
  | _ => exact keep rfl rfl rfl

/-! ## The tasks ever posted -/

theorem Step.post_eq {c : Co} {j : Nat} {env : TaskQueue.PostEnv} {req : Option Bytes} {rc : Rc}
    (h : Step resolve w (.post c q env i req j rc) w') : i = w.tasks.next := by
  cases h
  rfl

/-- Every post has a number of its own. -/
theorem Runs.post_inj {c c' : Co} {q' j j' : Nat} {env env' : TaskQueue.PostEnv}
    {req req' : Option Bytes} {rc rc' : Rc} (H : Runs resolve ls w)
    (h : .post c q env i req j rc ∈ ls) (h' : .post c' q' env' i req' j' rc' ∈ ls) :
    (.post c q env i req j rc : WorkerEvent Th Lib Co) = .post c' q' env' i req' j' rc' := by
  induction H with
  | nil => cases h
  | @snoc ls w e w' H hstep ih =>
    rw [List.mem_append, List.mem_singleton] at h h'
    obtain hm | rfl := h <;> obtain hm' | hm' := h'
    · exact ih hm hm'
    · subst hm'
      cases hstep.post_eq
      exact (Nat.lt_irrefl _ ((Runs.history H).posted hm).lt).elim
    · cases hstep.post_eq
      exact (Nat.lt_irrefl _ ((Runs.history H).posted hm').lt).elim
    · exact hm'.symm

omit [DecidableEq Th] [DecidableEq Co] in
theorem acceptedAt_eq_some (h : e.acceptedAt q = some i) :
    ∃ c env req j, e = .post c q env i req j .ok := by
  cases e with
  | post c q' env k req j rc =>
    cases rc with
    | ok =>
      simp only [WorkerEvent.acceptedAt] at h
      split at h
      · rename_i hq
        cases h
        exact ⟨c, env, req, j, by rw [hq]⟩
      · cases h
    | error => cases h
  | _ => cases h

theorem Runs.posted_nodup (H : Runs resolve ls w) (q : Nat) :
    (ls.filterMap (WorkerEvent.acceptedAt q)).Nodup := by
  induction H with
  | nil => exact .nil
  | @snoc ls w e w' H h ih =>
    rw [filterMap_snoc]
    cases he : e.acceptedAt q with
    | none => simpa using ih
    | some i =>
      refine List.nodup_append.mpr ⟨ih, List.nodup_singleton _, ?_⟩
      rintro k hk _ hi rfl
      cases List.mem_singleton.mp hi
      obtain ⟨c, env, req, j, rfl⟩ := acceptedAt_eq_some he
      obtain ⟨e', he', hk⟩ := List.mem_filterMap.mp hk
      obtain ⟨c', env', req', j', rfl⟩ := acceptedAt_eq_some hk
      cases h.post_eq
      exact Nat.lt_irrefl _ ((Runs.history H).posted he').lt

/-! ## The queues of a worker make runs of their own -/

/-- The Lua module and the queues inside a worker make a run of their own. -/
theorem Runs.sys (H : Runs resolve ls w) : ∃ es, System.Runs resolve es w.sys := by
  induction H with
  | nil => exact ⟨[], .nil⟩
  | snoc _ h ih =>
    obtain ⟨es, hes⟩ := ih
    cases h.move with
    | accepted _ _ _ _ hs | rejected _ _ _ hs | sys hs => exact ⟨_, hes.snoc hs⟩
    | _ => exact ⟨es, hes⟩

end Worker

namespace Pollers
variable {Th α : Type} [DecidableEq Th] {s s' : Pollers Th α} {e : Event Th α}
  {es : List (Event Th α)} {n : Int} {th : Th}

/-- A thread stops by freeing the queue. -/
theorem Step.freed_of_stopped (h : Step s e s') (ih : ∀ th, s.pc th = .stopped → s.freed = true)
    (hth : s'.pc th = .stopped) : s'.freed = true := by
  have keep : ∀ {t : Th} {pc : Pc}, pc ≠ .stopped → Function.update s.pc t pc th = .stopped →
      s.freed = true := by
    intro t pc hpc h
    by_cases ht : th = t
    · subst ht; rw [Function.update_self] at h; exact (hpc h).elim
    · rw [Function.update_of_ne ht] at h; exact ih th h
  cases h.move with
  | rejected => exact ih th hth
  | @accepted woken task =>
    simp only [wakeUp] at hth
    split at hth
    · cases hth
    · exact ih th hth
  | enter | sleep | resleep | wake => exact keep (by simp) hth
  | take | retake => exact keep (by simp only [Pc.afterTake]; split <;> simp) hth
  | free => rfl

theorem Runs.freed_of_stopped (H : Runs n es s) (hth : s.pc th = .stopped) : s.freed = true := by
  refine H.invariant (P := fun _ s => ∀ th, s.pc th = .stopped → s.freed = true) ?_
    (fun _ ih h _ hth => h.freed_of_stopped ih hth) th hth
  intro th h
  cases h

end Pollers

namespace System
variable {Th Lib α : Type} [DecidableEq Th] {resolve : LuaString → Lib} {s : System Th Lib α}
  {ls : List (SysEvent Th Lib α)} {q : Nat} {p : Pollers Th α} {th : Th}

/-- The marker is the last task of a queue. -/
theorem Runs.queue_nil_of_ending (H : Runs resolve ls s) (hp : s.queues.get q = some p)
    (he : p.Ending) : p.tq.queue = [] := by
  obtain ⟨n, hr⟩ := H.queue_runs hp
  have ho := H.ordered q
  rw [← H.fifo hp] at ho
  exact ho.eq_nil (hr.finish_taken he)

/-- A poll that has returned `NULL`, or is about to, leaves an empty queue. -/
theorem Runs.queue_nil_of_stopped (H : Runs resolve ls s) (hp : s.queues.get q = some p)
    (hth : p.pc th = .freeing ∨ p.pc th = .stopped) : p.tq.queue = [] := by
  obtain ⟨n, hr⟩ := H.queue_runs hp
  rcases hth with hth | hth
  · exact H.queue_nil_of_ending hp (.inr ⟨th, hth⟩)
  · exact H.queue_nil_of_ending hp (.inl (hr.freed_of_stopped hth))

end System
end RestyFfi
