import RestyFfi.Queue.Pollers

/-!
# The `waiting` counter and the wakeups

`waiting` is decremented when a poll enters, not when it dequeues, so it is the number of queued
tasks minus the number of polls that still wait for one (`Runs.waiting_eq`). The limit that
`ngx_task_post` tests is therefore a limit on that difference (`Runs.withinLimit`).

A signal is given for every accepted task, before the task is linked. `Runs.signalled` is the
invariant that makes this enough: while somebody sleeps, every queued task has an awake poller.
-/

namespace RestyFfi.Pollers
open Transition Counting

variable {Th α : Type} [Fintype Th]

/-- The polls that have decremented `waiting` and not dequeued a task. -/
def blocked (s : Pollers Th α) : Nat := count (fun pc => pc.blocked = true) s.pc

/-- The threads inside a poll. -/
def inside (s : Pollers Th α) : Nat := count (fun pc => pc.inside = true) s.pc

/-- The woken pollers that have not taken the mutex again. -/
def awake (s : Pollers Th α) : Nat := count (fun pc => pc = .awake) s.pc

/-- The queued tasks other than finish markers. -/
def requests (s : Pollers Th α) : Nat := s.tq.queue.countP (·.ctx.isSome)

theorem blocked_le_inside (s : Pollers Th α) : s.blocked ≤ s.inside :=
  count_mono fun th h => by revert h; cases s.pc th <;> simp [Pc.blocked, Pc.inside]

variable [DecidableEq Th] {s s' : Pollers Th α} {e : Event Th α} {es : List (Event Th α)} {n : Int}

omit [Fintype Th] in
theorem wakeUp_blocked {woken : Finset Th} {pc : Th → Pc} (hw : Wakes woken pc) (th : Th) :
    (wakeUp woken pc th).blocked = (pc th).blocked := by
  unfold wakeUp
  split
  · rename_i h; rw [hw.1 th h]; rfl
  · rfl

theorem blocked_update (s : Pollers Th α) (th : Th) (pc : Pc) :
    count (fun pc => pc.blocked = true) (Function.update s.pc th pc) +
        (if (s.pc th).blocked then 1 else 0) =
      s.blocked + (if pc.blocked then 1 else 0) :=
  count_update s.pc th pc

theorem Step.waiting_eq (h : Step s e s') (ih : s.tq.waiting = s.tq.queue.length - s.blocked) :
    s'.tq.waiting = s'.tq.queue.length - s'.blocked := by
  cases h.move with
  | rejected => exact ih
  | @accepted woken task hw =>
    have hb : count (fun pc => pc.blocked = true) (wakeUp woken s.pc) = s.blocked :=
      count_congr fun th => by rw [wakeUp_blocked hw]
    simp only [blocked, List.length_append, List.length_singleton] at *
    omega
  | @enter th hpc =>
    have hb := blocked_update s th .locking
    simp [hpc] at hb
    simpa only [blocked, hb] using ih
  | @resleep th hpc =>
    have hb := blocked_update s th .asleep
    simp [hpc] at hb
    simpa only [blocked, hb] using ih
  | @wake th hpc =>
    have hb := blocked_update s th .awake
    simp [hpc] at hb
    simpa only [blocked, hb] using ih
  | @free th hpc =>
    have hb := blocked_update s th .stopped
    simp [hpc] at hb
    simpa only [blocked, hb] using ih
  | @sleep th hpc =>
    have hb := blocked_update s th .asleep
    simp [hpc] at hb
    simp only [blocked]
    omega
  | @take th task rest hpc hq | @retake th task rest hpc hq =>
    have hb := blocked_update s th (.afterTake task)
    simp [hpc] at hb
    simp only [hq, List.length_cons] at ih
    simp only [blocked]
    omega

theorem Runs.waiting_eq (H : Runs n es s) : s.tq.waiting = s.tq.queue.length - s.blocked := by
  induction H with
  | nil => simp [init, blocked]
  | snoc _ h ih => exact h.waiting_eq ih

/-- The counter exceeds the limit by the markers behind the last request only. -/
def WithinLimit (n : Int) (s : Pollers Th α) : Prop :=
  ∃ pre k, s.tq.queue = pre ++ List.replicate k .finish ∧ s.tq.waiting ≤ max n 0 + k

theorem Step.withinLimit (h : Step s e s') (hmax : s.tq.maxQueue = n)
    (hw : s.tq.waiting = s.tq.queue.length - s.blocked) (ih : WithinLimit n s) :
    WithinLimit n s' := by
  obtain ⟨pre, k, hq, hle⟩ := ih
  cases h.move with
  | rejected | enter | wake | free | resleep => exact ⟨pre, k, hq, hle⟩
  | sleep => exact ⟨pre, k, hq, by simp only; omega⟩
  | @accepted woken task _ hlim =>
    cases task with
    | request a =>
      -- an accepted request ends the run of markers, below the limit
      refine ⟨s.tq.queue ++ [.request a], 0, by simp, ?_⟩
      have := hlim rfl
      simp only
      omega
    | finish =>
      refine ⟨pre, k + 1, ?_, by simp only; omega⟩
      simp only [hq, List.append_assoc, List.replicate_succ']
  | @take th task rest hpc hr | @retake th task rest hpc hr =>
    -- dequeuing from the markers themselves: the queue holds nothing else
    cases pre with
    | cons t pre =>
      rw [hr, List.cons_append, List.cons.injEq] at hq
      exact ⟨pre, k, hq.2, by simp only; omega⟩
    | nil =>
      cases k with
      | zero => simp [hr] at hq
      | succ k =>
        rw [hr, List.nil_append, List.replicate_succ, List.cons.injEq] at hq
        refine ⟨[], k, by simpa using hq.2, ?_⟩
        have hlen : s.tq.queue.length = k + 1 := by simp [hr, hq.2]
        have hpos : s.pc th = .awake → 0 < s.blocked := fun h => count_pos (i := th) (by rw [h]; rfl)
        simp only [hpc, reduceCtorEq, false_implies, forall_const] at hpos
        simp only
        omega

theorem Runs.withinLimit (H : Runs n es s) : WithinLimit n s := by
  refine H.invariant (P := fun _ s => WithinLimit n s) ⟨[], 0, rfl, ?_⟩ fun H ih h =>
    h.withinLimit (Runs.maxQueue_eq H) (Runs.waiting_eq H) ih
  simp [init]

omit [DecidableEq Th] in
theorem requests_le (hw : s.tq.waiting = s.tq.queue.length - s.blocked) (h : WithinLimit n s) :
    (s.requests : Int) ≤ max n 0 + s.blocked := by
  obtain ⟨pre, k, hq, hle⟩ := h
  have hcount : s.requests ≤ pre.length := by
    simp only [requests, hq, List.countP_append, List.countP_replicate, Task.ctx_finish]
    simpa using List.countP_le_length
  rw [hq, List.length_append, List.length_replicate] at hw
  omega

/-- **Accounting and back-pressure.** In every reachable state, with a working thread library for
the post that comes next. -/
theorem Runs.accounting (H : Runs n es s) :
    s.tq.waiting = s.tq.queue.length - s.blocked ∧
    -(s.inside : Int) ≤ s.tq.waiting ∧
    (∀ a woken, (s.post {} (.request a) woken).1 = .error ↔
      (s.tq.queue.length : Int) - s.blocked ≥ n) ∧
    (s.requests : Int) ≤ max n 0 + s.blocked ∧
    (∀ woken, (s.post {} .finish woken).1 = .ok) := by
  have hw := H.waiting_eq
  have hin := blocked_le_inside s
  refine ⟨hw, by omega, fun a woken => ?_, requests_le hw H.withinLimit, fun woken => ?_⟩
  · rw [post_fst, TaskQueue.ngxTaskPost_request_error_iff rfl rfl, hw, H.maxQueue_eq]
  · rw [post_fst, TaskQueue.ngxTaskPost_finish_ok rfl rfl]

/-- One poller asleep at an empty queue. -/
theorem accounting_sleeping_poller : ∃ s : Pollers Unit Unit,
    Runs 1 [.enter (), .sleep ()] s ∧ s.blocked = 1 ∧
      s.tq.waiting = s.tq.queue.length - s.blocked := by
  have H₁ := Run.nil.snoc (@Step.enter Unit Unit _ (init 1) () rfl)
  have H₂ := H₁.snoc (@Step.lock Unit Unit _ _ () rfl)
  exact ⟨_, H₂, rfl, (Runs.accounting H₂).1⟩

/-! ## Wakeups -/

/-- While a poller sleeps, every queued task is matched by an awake poller. -/
def Signalled (s : Pollers Th α) : Prop :=
  (∃ th, s.pc th = .asleep) → s.tq.queue.length ≤ s.awake

theorem awake_update (s : Pollers Th α) (th : Th) (pc : Pc) :
    count (fun pc => pc = .awake) (Function.update s.pc th pc) +
        (if s.pc th = .awake then 1 else 0) =
      s.awake + (if pc = .awake then 1 else 0) :=
  count_update s.pc th pc

/-- A signal makes one more poller awake, unless nobody sleeps. -/
theorem awake_lt_wakeUp {woken : Finset Th} (hw : Wakes woken s.pc)
    (h : ∃ th, s.pc th = .asleep) : s.awake < count (fun pc => pc = .awake) (wakeUp woken s.pc) := by
  obtain ⟨th, hth⟩ := hw.2 h
  have hpc := hw.1 th hth
  refine count_lt (fun i hi => ?_) (i := th) (by rw [hpc]; simp) (by simp [wakeUp, hth])
  unfold wakeUp
  split
  · rfl
  · exact hi

omit [Fintype Th] in
theorem asleep_of_update {f : Th → Pc} {th : Th} {pc : Pc} (hpc : pc ≠ .asleep)
    (h : ∃ i, Function.update f th pc i = .asleep) : ∃ i, f i = .asleep := by
  obtain ⟨i, hi⟩ := h
  by_cases hth : i = th
  · subst hth; simp at hi; exact (hpc hi).elim
  · rw [Function.update_of_ne hth] at hi; exact ⟨i, hi⟩

theorem Step.signalled (h : Step s e s') (ih : Signalled s) : Signalled s' := by
  intro hs
  cases h.move with
  | rejected => exact ih hs
  | @accepted woken task hw =>
    have hs : ∃ th, s.pc th = .asleep := by
      obtain ⟨th, hth⟩ := hs
      simp only [wakeUp] at hth
      split at hth
      · cases hth
      · exact ⟨th, hth⟩
    have hlt := awake_lt_wakeUp hw hs
    have := ih hs
    simp only [awake, List.length_append, List.length_singleton] at *
    omega
  | @enter th hpc =>
    have hb := awake_update s th .locking
    simp [hpc] at hb
    simpa only [awake, hb] using ih (asleep_of_update (by simp) hs)
  | @free th hpc =>
    have hb := awake_update s th .stopped
    simp [hpc] at hb
    simpa only [awake, hb] using ih (asleep_of_update (by simp) hs)
  | @wake th hpc =>
    have hb := awake_update s th .awake
    simp [hpc] at hb
    have := ih (asleep_of_update (by simp) hs)
    simp only [awake] at *
    omega
  | sleep _ hq | resleep _ hq => simp [hq]
  | @take th task rest hpc hq | @retake th task rest hpc hq =>
    -- a thread that takes a task without having slept cannot be one of the awake pollers
    have hna : Pc.afterTake task ≠ .awake := by cases task <;> simp
    have := ih (asleep_of_update (by cases task <;> simp) hs)
    have hb := awake_update s th (.afterTake task)
    simp only [hpc, if_neg hna] at hb
    simp only [awake, hq, List.length_cons, reduceCtorEq, ite_true, ite_false] at *
    omega

theorem Runs.signalled (H : Runs n es s) : Signalled s := by
  induction H with
  | nil => rintro ⟨th, hth⟩; cases hth
  | snoc _ h ih => exact h.signalled ih

/-- **No lost wakeup.** If a poller sleeps, the queued tasks are no more than the awake pollers; so
a queued task is never left to sleeping pollers alone. -/
theorem Runs.no_lost_wakeup (H : Runs n es s) :
    ((∃ th, s.pc th = .asleep) → s.tq.queue.length ≤ s.awake) ∧
    (s.tq.queue ≠ [] → (∃ th, s.pc th = .asleep) → ∃ th, s.pc th = .awake) := by
  refine ⟨H.signalled, fun hq hs => ?_⟩
  have hle := H.signalled hs
  have hpos := List.length_pos_iff.mpr hq
  exact exists_of_count_pos (show 0 < s.awake by omega)

/-- Two pollers are asleep when a request is posted; the signal wakes one of them. -/
theorem no_lost_wakeup_two_pollers : ∃ s : Pollers Bool Unit,
    Runs 1 [.enter true, .sleep true, .enter false, .sleep false, .post (.request ()) .ok] s ∧
      s.pc false = .asleep ∧ s.tq.queue.length ≤ s.awake := by
  have H₁ := Run.nil.snoc (@Step.enter Bool Unit _ (init 1) true rfl)
  have H₂ := H₁.snoc (@Step.lock Bool Unit _ _ true rfl)
  have H₃ := H₂.snoc (@Step.enter Bool Unit _ _ false rfl)
  have H₄ := H₃.snoc (@Step.lock Bool Unit _ _ false rfl)
  have H₅ := H₄.snoc (@Step.post Bool Unit _ _ {true} (.request ()) {} ⟨by simp; rfl, by simp⟩)
  exact ⟨_, H₅, rfl, (Runs.no_lost_wakeup H₅).1 ⟨false, rfl⟩⟩

end RestyFfi.Pollers
