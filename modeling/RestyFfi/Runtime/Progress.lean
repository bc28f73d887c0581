import RestyFfi.Queue.Teardown
import RestyFfi.Runtime.Serving
import RestyFfi.Worker.Delivery

/-!
# Progress

From every reachable state the runtime threads and the event loop can go on by themselves until no
task is left (`Runs.settles`), whatever has been posted, aborted or unloaded before, since a queued
task is never left to sleeping threads and a poll does not return `NULL` before the last request.
The event loop may drain the done list at any time here; what it takes that it does is another
matter.

A runtime whose loop responds before it polls again has answered every request that was accepted
when its poll returns `NULL` (`Runs.completed`).
-/

namespace RestyFfi
open Transition Lanes Counting

/-- What the runtime threads and the event loop do by themselves. The event handler finds the
request and the module context. -/
def WorkerEvent.isService : WorkerEvent Th Lib Co → Bool
  | .sys (.queue ..) | .respond .. | .drain | .handle _ ⟨true, true⟩ _ => true
  | _ => false

theorem WorkerEvent.isService_of_isCo {e : WorkerEvent Th Lib Co} (h : e.isCo = true) :
    e.isService = false := by
  cases e <;> first | rfl | cases h

/-- A loop that responds to what it has taken before it polls again. -/
def Program.Sequential (P : Program κ) : Prop := ∀ ks, P.ready ks = true → ks = []

namespace Pollers
variable {Th α : Type} [DecidableEq Th] {s s' : Pollers Th α} {e : Event Th α} {th : Th}
  {task : Task α} {rest : List (Task α)}

/-- A thread inside a poll takes the first task once it has the mutex. -/
theorem Step.exists_take (hpc : s.pc th = .locking ∨ s.pc th = .awake)
    (hq : s.tq.queue = task :: rest) : ∃ s', Step s (.take th task) s' := by
  rcases hpc with hpc | hpc
  · have h := Step.lock hpc
    have ht : s.tq.pollEnter.pollTake = some (task, { s.tq.pollEnter with queue := rest }) :=
      TaskQueue.pollTake_eq_some.mpr ⟨rest, hq, rfl⟩
    simp only [Pollers.take, ht] at h
    exact ⟨_, h⟩
  · exact ⟨_, .takeAwake hpc hq⟩

/-- A thread goes into a poll only by calling it. -/
theorem Step.enter_of_outside (h : Step s e s') (hpc : s.pc th = .outside)
    (hne : s'.pc th ≠ .outside) : e = .enter th := by
  -- no other step of a thread is one from outside
  have keep : ∀ {t : Th} {pc : Pc}, s.pc t ≠ .outside →
      Function.update s.pc t pc th ≠ .outside → False := by
    intro t pc ht h
    have htt : th ≠ t := by
      rintro rfl
      exact ht hpc
    rw [Function.update_of_ne htt] at h
    exact h hpc
  cases h.move with
  | rejected => exact (hne hpc).elim
  | @accepted woken task hw =>
    simp only [wakeUp] at hne
    split at hne
    · rename_i hm
      rw [hw.1 th hm] at hpc
      cases hpc
    · exact (hne hpc).elim
  | @enter t ht =>
    by_cases htt : th = t
    · rw [htt]
    · exact (hne ((Function.update_of_ne htt ..).trans hpc)).elim
  | sleep ht | resleep ht | take ht | retake ht | wake ht | free ht =>
    exact (keep (by simp [ht]) hne).elim

theorem Step.outside_of_take {a : α} (h : Step s (.take th (.request a)) s') :
    s'.pc th = .outside := by
  cases h.move with
  | take | retake => exact Function.update_self ..

/-- If a task is queued, some thread can get hold of the mutex, unless a poll returned `NULL`. -/
theorem Runs.exists_ready [Fintype Th] [Nonempty Th] {n : Int} {es : List (Event Th α)}
    (H : Runs n es s) (hq : s.tq.queue ≠ [])
    (hend : ∀ th, s.pc th ≠ .freeing ∧ s.pc th ≠ .stopped) :
    ∃ th, s.pc th = .outside ∨ s.pc th = .locking ∨ s.pc th = .awake := by
  by_cases hs : ∃ th, s.pc th = .asleep
  · have hle := H.signalled hs
    have hpos := List.length_pos_iff.mpr hq
    obtain ⟨th, hth⟩ := exists_of_count_pos (show 0 < s.awake by omega)
    exact ⟨th, .inr (.inr hth)⟩
  · obtain ⟨th⟩ := ‹Nonempty Th›
    refine ⟨th, ?_⟩
    cases hpc : s.pc th with
    | outside => exact .inl rfl
    | locking => exact .inr (.inl rfl)
    | awake => exact .inr (.inr rfl)
    | asleep => exact (hs ⟨th, hpc⟩).elim
    | freeing => exact ((hend th).1 hpc).elim
    | stopped => exact ((hend th).2 hpc).elim

end Pollers

namespace System
variable {Th Lib α : Type} [DecidableEq Th] {resolve : LuaString → Lib} {s s' : System Th Lib α}
  {e : SysEvent Th Lib α} {es : List (SysEvent Th Lib α)} {q : Nat} {p : Pollers Th α} {th : Th}

theorem Runs.exists_request (H : Runs resolve es s) (hp : s.queues.get q = some p)
    (hq : s.queued q ≠ []) : ∃ a rest, p.tq.queue = .request a :: rest := by
  rw [queued_of_get hp] at hq
  have ho := H.ordered q
  rw [← H.fifo hp] at ho
  cases hcons : p.tq.queue with
  | nil => simp [hcons] at hq
  | cons task rest =>
    cases task with
    | request a => exact ⟨a, rest, rfl⟩
    | finish =>
      -- nothing stands behind the marker
      rw [hcons, List.append_cons] at ho
      have hrest := ho.eq_nil (by simp)
      simp [hcons, hrest] at hq

/-- A thread that is in a poll of `q` has called it now or before. -/
theorem Step.entered (h : Step resolve s e s') (hp : s'.queues.get q = some p)
    (hpc : p.pc th ≠ .outside) :
    e = .queue q (.enter th) ∨ ∃ p₀, s.queues.get q = some p₀ ∧ p₀.pc th ≠ .outside := by
  rcases h.queue_step hp with ⟨n, _, _, rfl⟩ | ⟨p₀, hp₀, hstep⟩
  · exact (hpc rfl).elim
  by_cases hpc₀ : p₀.pc th = .outside
  · left
    cases hq : e.onQueue q with
    | none =>
      rw [hq] at hstep
      cases hstep
      exact (hpc hpc₀).elim
    | some ev =>
      rw [hq] at hstep
      cases hstep.enter_of_outside hpc₀ hpc
      cases h with
      | load | idle | collect => cases hq
      | post | finish =>
        simp only [SysEvent.onQueue] at hq
        split at hq <;> cases hq
      | poll =>
        simp only [SysEvent.onQueue] at hq
        split at hq
        · rename_i hqq
          cases hq
          rw [hqq]
        · cases hq
  · exact .inr ⟨p₀, hp₀, hpc₀⟩

theorem Step.outside_of_take {a : α} (h : Step resolve s (.queue q (.take th (.request a))) s')
    (hp : s'.queues.get q = some p) : p.pc th = .outside := by
  rcases h.queue_step hp with ⟨_, _, hq, _⟩ | ⟨p₀, _, hstep⟩
  · simp [SysEvent.onQueue] at hq
  · simp only [SysEvent.onQueue, if_true] at hstep
    exact hstep.outside_of_take

end System

/-! ## What the system can do by itself -/

namespace Worker
variable {Th Lib Co : Type} [DecidableEq Th] [DecidableEq Co] {resolve : LuaString → Lib}
  {w w' : Worker Th Lib Co} {e : WorkerEvent Th Lib Co} {a i : Nat} {t : FfiTaskCtx Co}

omit [DecidableEq Th] [DecidableEq Co] in
theorem exists_newBuffer (h : BlockHeap Bytes) (d : Option Bytes) : ∃ r B, NewBuffer h d r B := by
  cases d with
  | none => exact ⟨none, h, .null⟩
  | some d =>
    obtain ⟨a, ha⟩ := h.exists_unused
    exact ⟨some a, _, .block ha⟩

/-- A task that is there and not marked stays so until its handler resumes its coroutine. -/
theorem Move.kept_or_resumed (h : Move resolve w e w') (he : e.isService = true)
    (ht : w.tasks.cells a = some (i, t)) (hab : t.isAbort = false) :
    (∃ t', w'.tasks.cells a = some (i, t') ∧ t'.waitCoCtx = t.waitCoCtx ∧ t'.isAbort = false) ∨
      ∃ vals, e = .handle i {} (.resumed t.waitCoCtx vals) := by
  have keep : w'.tasks.cells a = w.tasks.cells a →
      ∃ t', w'.tasks.cells a = some (i, t') ∧ t'.waitCoCtx = t.waitCoCtx ∧ t'.isAbort = false :=
    fun h => ⟨t, h.trans ht, rfl, hab⟩
  have free_ne : ∀ {b : Nat}, a ≠ b → (w.tasks.free b).cells a = w.tasks.cells a :=
    fun hb => by rw [BlockHeap.free_cells, Function.update_of_ne hb]
  cases h with
  | accepted | rejected => cases he
  | sys | drain => exact .inl (keep rfl)
  | @respond b k u rsp r B rc len _ hu =>
    by_cases hb : a = b
    · subst hb
      exact .inl ⟨_, BlockHeap.modify_cells_of_live ht, rfl, hab⟩
    · exact .inl (keep (BlockHeap.modify_cells_of_ne hb))
  | @failed b rest k u env hd hu hfail =>
    by_cases hb : a = b
    · subst hb
      rw [ht] at hu
      cases hu
      -- the handler finds everything it looks for
      obtain ⟨_ | _, _ | _⟩ := env <;> simp_all [WorkerEvent.isService]
    · exact .inl (keep (free_ne hb))
  | @resumed b rest k u env hd hu _ h₁ h₂ =>
    by_cases hb : a = b
    · subst hb
      rw [ht] at hu
      cases hu
      obtain ⟨_, _⟩ := env
      cases h₁
      cases h₂
      exact .inr ⟨_, rfl⟩
    · exact .inl (keep (free_ne hb))
  | cleaned _ _ _ hco | quiet _ _ _ hco =>
    rw [WorkerEvent.isService_of_isCo hco] at he
    cases he

/-- What a step of the worker is at the Lua module and its queues. -/
theorem Move.sys_step (h : Move resolve w e w') : w'.sys = w.sys ∨
    ∃ se, System.Step resolve w.sys se w'.sys ∧
      (e = .sys se ∨ ∃ o name q a rc, se = .call o name (some (q, .post (.request a) rc))) := by
  cases h with
  | accepted _ _ _ _ hs | rejected _ _ _ hs => exact .inr ⟨_, hs, .inr ⟨_, _, _, _, _, rfl⟩⟩
  | sys hs => exact .inr ⟨_, hs, .inl rfl⟩
  | _ => exact .inl rfl

/-- A thread that is in a poll of `q` has called it now or before. -/
theorem Move.entered {q : Nat} {p : Pollers Th Nat} {th : Th} (h : Move resolve w e w')
    (hp : w'.sys.queues.get q = some p) (hpc : p.pc th ≠ .outside) :
    e = .sys (.queue q (.enter th)) ∨
      ∃ p₀, w.sys.queues.get q = some p₀ ∧ p₀.pc th ≠ .outside := by
  rcases h.sys_step with hs | ⟨se, hs, he⟩
  · exact .inr ⟨p, hs ▸ hp, hpc⟩
  rcases hs.entered hp hpc with rfl | hp₀
  · rcases he with rfl | ⟨_, _, _, _, _, he⟩
    · exact .inl rfl
    · cases he
  · exact .inr hp₀

theorem Move.size_le (h : Move resolve w e w') (he : e.isService = true) :
    w'.tasks.size ≤ w.tasks.size := by
  cases h with
  | accepted | rejected => cases he
  | sys | drain | respond | quiet | cleaned => exact Nat.le_refl _
  | failed _ ht | resumed _ ht =>
    have := BlockHeap.size_free ht
    simp only
    omega

end Worker

namespace Serving
variable {Th Lib Co κ : Type} [DecidableEq Th] [DecidableEq Co] {prog : Nat → Program κ}
  {resolve : LuaString → Lib} {s s' : Serving Th Lib Co κ} {l : ServeEvent Th Lib Co κ}
  {ls ks : List (ServeEvent Th Lib Co κ)} {q : Nat} {p : Nat × Th}

/-- The programs have a response to every request that was posted at their queues. -/
def Total (prog : Nat → Program κ) (ls : List (ServeEvent Th Lib Co κ)) : Prop :=
  ∀ {c q env i req j}, .nginx (.post c q env i req j .ok) ∈ ls →
    ∃ r, (prog q).serve (reqBuffer req, reqLength req) r

/-- A state that is reached by posts which the programs can answer. -/
def Reachable (prog : Nat → Program κ) (resolve : LuaString → Lib) (s : Serving Th Lib Co κ) :
    Prop :=
  ∃ ls, Runs prog resolve ls s ∧ Total prog ls

/-- The runtimes and the event loop can get on by themselves. -/
abbrev Advances (prog : Nat → Program κ) (resolve : LuaString → Lib) (s : Serving Th Lib Co κ) :
    Prop :=
  Transition.Advances (Step prog resolve) (Reachable prog resolve)
    (·.toWorker.isService = true) (·.worker.tasks.size) s

theorem Reachable.snoc (R : Reachable prog resolve s) (h : Step prog resolve s l s')
    (hl : l.toWorker.isService = true) : Reachable prog resolve s' := by
  obtain ⟨ls, H, T⟩ := R
  refine ⟨ls ++ [l], H.snoc h, fun {c q env i req j} hp => ?_⟩
  rcases List.mem_append.mp hp with hp | hp
  · exact T hp
  · cases List.mem_singleton.mp hp
    cases hl

theorem Advances.cons (R : Reachable prog resolve s) (h : Step prog resolve s l s')
    (hl : l.toWorker.isService = true)
    (A : Reachable prog resolve s' → Advances prog resolve s') : Advances prog resolve s :=
  Transition.Advances.cons h hl (h.worker.move.size_le hl) (A (R.snoc h hl))

/-- There is a batch to handle. -/
theorem Reachable.advances_of_drained (R : Reachable prog resolve s)
    (hd : s.worker.drained ≠ []) : Advances prog resolve s := by
  obtain ⟨ls, H, T⟩ := id R
  obtain ⟨a, rest, hd⟩ := List.exists_cons_of_ne_nil hd
  have hlive := H.worker.owned.tasks.live_of_mem (a := a) (p := .drained)
    (by simp [Worker.items, hd])
  obtain ⟨⟨i, t⟩, ht⟩ := Option.isSome_iff_exists.mp hlive
  obtain ⟨r, w, hw, _, _, hlt⟩ := Worker.Step.exists_handle resolve hd ht
  have h : Step prog resolve s (.nginx (.handle i {} r)) { s with worker := w } := .nginx hw rfl
  exact .single h rfl (R.snoc h rfl) hlt

/-- There is a response that is not handled. -/
theorem Reachable.advances_of_done (R : Reachable prog resolve s) (hn : s.worker.done ≠ []) :
    Advances prog resolve s := by
  by_cases hd : s.worker.drained = []
  · have h : Step prog resolve s (.nginx .drain) _ := .nginx (.drain hd) rfl
    exact .cons R h rfl fun R => R.advances_of_drained hn
  · exact R.advances_of_drained hd

/-- A thread has taken a task that is not answered. -/
theorem Reachable.advances_of_taken [DecidableEq κ] (R : Reachable prog resolve s)
    (hp : s.taken p ≠ []) : Advances prog resolve s := by
  obtain ⟨ls, H, T⟩ := id R
  obtain ⟨q, th⟩ := p
  obtain ⟨x, rest, hx⟩ := List.exists_cons_of_ne_nil hp
  have hmem : x ∈ s.taken (q, th) := by simp [hx]
  obtain ⟨t, ht⟩ := H.inv.live hmem
  have hheld : x.task ∈ s.worker.held :=
    H.inv.placed.live_of_mem (p := (q, th)) (List.mem_map_of_mem hmem)
  -- the oldest is the first of its lane
  have hpick : Pick Taken.lane (s.taken (q, th)) x rest := hx ▸ .head
  obtain ⟨c, env, req, j, hpost, hreq⟩ := H.exists_post (H.posted_of_taken hmem) ht
  obtain ⟨r, hr⟩ := T hpost
  obtain ⟨b, B, hB⟩ := Worker.exists_newBuffer s.worker.bufs r.rsp
  have h : Step prog resolve s (.respond q th x r _) _ :=
    .respond hpick ht (hreq ▸ hr) (.respond hheld ht hB)
  exact .cons R h rfl fun R => R.advances_of_done (by simp)

/-- A thread in a poll finds a request. -/
theorem Reachable.advances_of_locking [DecidableEq κ] {p : Pollers Th Nat} {th : Th} {a : Nat}
    {rest : List (Task Nat)} (R : Reachable prog resolve s)
    (hp : s.worker.sys.queues.get q = some p) (hq : p.tq.queue = .request a :: rest)
    (hpc : p.pc th = .locking ∨ p.pc th = .awake) : Advances prog resolve s := by
  obtain ⟨ls, H, T⟩ := id R
  obtain ⟨p', hs⟩ := Pollers.Step.exists_take hpc hq
  have hmem : a ∈ s.worker.items (.queue q) := by
    simp [Worker.items, System.queued_of_get hp, hq]
  obtain ⟨⟨i, t⟩, ht⟩ := Option.isSome_iff_exists.mp (H.worker.owned.tasks.live_of_mem hmem)
  have h : Step prog resolve s
      (.take q th ⟨a, i, (prog q).lane i (t.getReq s.worker.bufs)⟩) _ :=
    .take (.sys (.poll hp rfl hs) rfl) ht rfl
  exact .cons R h rfl fun R => R.advances_of_taken (p := (q, th)) (by simp)

/-- A request is queued. -/
theorem Reachable.advances_of_queued [DecidableEq κ] [Fintype Th] [Nonempty Th]
    (R : Reachable prog resolve s) (hq : s.worker.sys.queued q ≠ []) : Advances prog resolve s := by
  by_cases hall : ∃ p, s.taken p ≠ []
  · obtain ⟨p, hp⟩ := hall
    exact R.advances_of_taken hp
  have hidle : ∀ p, s.taken p = [] := fun p => by_contra fun hp => hall ⟨p, hp⟩
  obtain ⟨ls, H, T⟩ := id R
  obtain ⟨es, S⟩ := H.worker.sys
  obtain ⟨pq, hp⟩ : ∃ pq, s.worker.sys.queues.get q = some pq := by
    rw [← Option.ne_none_iff_exists']
    intro hn
    simp [System.queued, hn] at hq
  obtain ⟨a, rest, hcons⟩ := S.exists_request hp hq
  have hne : pq.tq.queue ≠ [] := by simp [hcons]
  obtain ⟨n, hr⟩ := S.queue_runs hp
  obtain ⟨th, hth⟩ := hr.exists_ready hne fun th =>
    ⟨fun h => hne (S.queue_nil_of_stopped hp (.inl h)),
      fun h => hne (S.queue_nil_of_stopped hp (.inr h))⟩
  rcases hth with hth | hth
  · have hw : Worker.Step resolve s.worker (.sys (.queue q (.enter th))) _ :=
      .sys (.poll hp rfl (.enter hth)) rfl
    have h : Step prog resolve s (.poll q (.enter th)) _ :=
      .poll hw (by simp) fun th' h => by
        rw [hidle]
        exact (prog q).ready_nil
    have hpc : (Function.update pq.pc th .locking) th = .locking := Function.update_self ..
    refine .cons R h rfl fun R => R.advances_of_locking (q := q)
      (p := { pq with pc := Function.update pq.pc th .locking }) ?_ hcons (.inl hpc)
    simp [hp]
  · exact R.advances_of_locking hp hcons hth

theorem Reachable.advances [DecidableEq κ] [Fintype Th] [Nonempty Th]
    (R : Reachable prog resolve s) (hn : s.worker.tasks.size ≠ 0) : Advances prog resolve s := by
  obtain ⟨ls, H, T⟩ := id R
  obtain ⟨a, i, t, ht⟩ := s.worker.tasks.exists_live hn
  -- the place of a live task says who is next
  obtain ⟨p, hp⟩ :=
    H.worker.owned.tasks.live_iff.mp (show (s.worker.tasks.cells a).isSome by simp [ht])
  cases p with
  | queue q => exact R.advances_of_queued (List.ne_nil_of_mem hp)
  | held =>
    obtain ⟨p, hx⟩ := H.inv.placed.live_iff.mp hp
    obtain ⟨x, hx, _⟩ := List.mem_map.mp hx
    exact R.advances_of_taken (List.ne_nil_of_mem hx)
  | done => exact R.advances_of_done (List.ne_nil_of_mem hp)
  | drained => exact R.advances_of_drained (List.ne_nil_of_mem hp)

/-! ## Until no task is left -/

theorem run_kept_or_resumed {a i : Nat} {t : FfiTaskCtx Co} (K : Run (Step prog resolve) s ks s')
    (hk : ∀ k ∈ ks, k.toWorker.isService = true) (ht : s.worker.tasks.cells a = some (i, t))
    (hab : t.isAbort = false) :
    (∃ t', s'.worker.tasks.cells a = some (i, t') ∧ t'.waitCoCtx = t.waitCoCtx ∧
      t'.isAbort = false) ∨
      ∃ vals, .nginx (.handle i {} (.resumed t.waitCoCtx vals)) ∈ ks := by
  induction K with
  | nil => exact .inl ⟨t, ht, rfl, hab⟩
  | @snoc ks s₁ k s₂ _ h ih =>
    rw [List.forall_mem_append] at hk
    rcases ih hk.1 with ⟨t₁, ht₁, hc, hab₁⟩ | ⟨vals, hv⟩
    · have hs : k.toWorker.isService = true := hk.2 k (.head _)
      rcases h.worker.move.kept_or_resumed hs ht₁ hab₁ with ⟨t₂, ht₂, hc₂, hab₂⟩ | ⟨vals, he⟩
      · exact .inl ⟨t₂, ht₂, hc₂.trans hc, hab₂⟩
      · refine .inr ⟨vals, List.mem_append_right _ ?_⟩
        cases k with
        | nginx e =>
          cases he
          rw [hc]
          exact .head _
        | _ => cases he
    · exact .inr ⟨vals, List.mem_append_left _ hv⟩

/-- Every reachable state leads to one without tasks, if the programs have a response to whatever
was posted. -/
theorem Runs.settles [DecidableEq κ] [Fintype Th] [Nonempty Th] (H : Runs prog resolve ls s)
    (T : Total prog ls) : ∃ ks s', Run (Step prog resolve) s ks s' ∧
      (∀ k ∈ ks, k.toWorker.isService = true) ∧ s'.worker.tasks.size = 0 := by
  obtain ⟨ks, s', K, hk, _, h0⟩ := Run.reaches (fun R hn => Reachable.advances R hn) ⟨ls, H, T⟩
  exact ⟨ks, s', K, hk, h0⟩

/-! ## Shutdown -/

/-- Such a loop has nothing to answer while it is in a poll, nor after the last one. -/
theorem Runs.taken_nil {p : Pollers Th Nat} {th : Th} (H : Runs prog resolve ls s)
    (hseq : (prog q).Sequential) (hp : s.worker.sys.queues.get q = some p)
    (hpc : p.pc th ≠ .outside) : s.taken (q, th) = [] := by
  induction H generalizing p with
  | nil => cases hp
  | @snoc ls s l s' H h ih =>
    rcases h.worker.move.entered hp hpc with he | ⟨p₀, hp₀, hpc₀⟩
    · cases h with
      | nginx _ hn =>
        cases he
        cases hn
      | poll _ _ hr =>
        cases he
        exact List.map_eq_nil_iff.mp (hseq _ (hr th rfl))
      | take | respond => cases he
    · have hnil := ih hp₀ hpc₀
      cases h with
      | nginx | poll => exact hnil
      | @take q' th' w t x hw =>
        by_cases hqt : (q, th) = (q', th')
        · cases hqt
          -- the thread has just left its poll
          cases hw with
          | sys hs => exact (hpc (hs.outside_of_take hp)).elim
        · exact (Function.update_of_ne hqt ..).trans hnil
      | @respond q' th' x rest t r j w hx =>
        by_cases hqt : (q, th) = (q', th')
        · cases hqt
          have hmem := hx.mem
          rw [hnil] at hmem
          cases hmem
        · exact (Function.update_of_ne hqt ..).trans hnil

/-- What a runtime has done when its poll returns `NULL`. -/
structure Completed (prog : Nat → Program κ) (ls : List (ServeEvent Th Lib Co κ)) (q : Nat)
    (th : Th) : Prop where
  /-- It has answered what was posted. -/
  all : (posted q ls).Perm ((answeredBy (q, th) ls).map Taken.stamp)
  /-- In the order of the posts, if the program has one lane. -/
  inOrder : (∀ i r i' r', (prog q).lane i r = (prog q).lane i' r') →
    posted q ls = (answeredBy (q, th) ls).map Taken.stamp

/-- **Complete shutdown** of a runtime that responds before it polls again. The calls of the mutex
and of the condition succeed, so that a poll returns `NULL` only behind the marker. -/
theorem Runs.completed [DecidableEq κ] {p : Pollers Th Nat} {th : Th}
    (H : Runs prog resolve ls s) (hone : PolledBy q th ls) (hseq : (prog q).Sequential)
    (hp : s.worker.sys.queues.get q = some p) (hpc : p.pc th = .stopped) :
    Completed prog ls q th := by
  obtain ⟨es, S⟩ := H.worker.sys
  have hqueue : s.worker.queuedStamps q = [] := by
    simp [Worker.queuedStamps, System.queued_of_get hp, S.queue_nil_of_stopped hp (.inr hpc)]
  have hposted : posted q ls = (takenBy (q, th) ls).map Taken.stamp := by
    rw [H.posted_eq, hqueue, List.append_nil, hone.handedOut_eq]
  have hlanes := H.inLanes (q, th)
  rw [H.taken_nil hseq hp (by simp [hpc])] at hlanes
  refine ⟨?_, fun hone' => ?_⟩
  · rw [hposted]
    exact hlanes.perm_of_nil.map _
  · have hlane : ∀ x ∈ takenBy (q, th) ls, x.lane = (prog q).lane 0 (none, 0) := by
      intro x hx
      obtain ⟨c, env, req, j, _, hlane⟩ := H.take_lane (mem_takenBy.mp hx)
      rw [hlane]
      exact hone' ..
    rw [hposted, hlanes.eq_append _ hlane, List.append_nil]

theorem completed_goRun : ∃ (s : Serving Unit LuaString Unit Nat) (p : Pollers Unit Nat),
    Runs (fun _ => goProgram) id goRun s ∧ s.worker.sys.queues.get 0 = some p ∧
      p.pc () = .stopped ∧ Completed (fun _ => goProgram) goRun 0 () := by
  obtain ⟨s, p, H, hp, hpc⟩ := goRun_runs
  exact ⟨s, p, H, hp, hpc,
    Runs.completed H (fun _ _ _ => rfl) (fun _ => List.isEmpty_iff.mp) hp hpc⟩

end Serving
end RestyFfi
