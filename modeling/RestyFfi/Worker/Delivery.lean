import RestyFfi.Worker.Notify

/-!
# Delivery

Whether the responses on the done list reach their coroutines without any help from outside, that
is, without another response and without a run of `ngx_thread_pool_handler` for another reason. They
do exactly as long as they are attended (`Runs.delivery_iff`): nobody looks after a failed
`ngx_notify`.
-/

namespace RestyFfi
open Transition

namespace Worker
variable {Th Lib Co : Type} [DecidableEq Th] [DecidableEq Co] {w : Worker Th Lib Co} {a i : Nat}
  {t : FfiTaskCtx Co}

/-- The event loop handles the next task of its batch, and frees it. -/
theorem Step.exists_handle (resolve : LuaString → Lib) {rest : List Nat}
    (hd : w.drained = a :: rest) (ht : w.tasks.cells a = some (i, t)) :
    ∃ r w', Step resolve w (.handle i {} r) w' ∧ w'.drained = rest ∧ w'.done = w.done ∧
      w'.tasks.size < w.tasks.size := by
  cases hr : eventHandler { w with drained := rest } {} a t with
  | mk w' r =>
    have h : Step resolve w (.handle i {} r) w' := .handle hd ht hr
    have hsize := BlockHeap.size_free ht
    refine ⟨r, w', h, ?_⟩
    rw [eventHandler] at hr
    split at hr <;> (cases hr; exact ⟨rfl, rfl, by simp only [taskFree, setCo]; omega⟩)

/-- There is nothing to detach. -/
theorem Step.eq_of_drain {resolve : LuaString → Lib} {w' : Worker Th Lib Co}
    (h : Step resolve w .drain w') (hn : w.done = []) : w' = w := by
  obtain ⟨sys, tasks, bufs, held, done, drained, co⟩ := w
  cases h with
  | drain hd =>
    cases hn
    cases hd
    rfl

end Worker

/-- What delivers responses: a notification that is due, and what the event loop does about it. -/
def LoopEvent.delivers : LoopEvent R Th Lib Co → Bool
  | .worker (.handle ..) => true
  | .notify _ ok => ok
  | .wake | .detach => true
  | _ => false

/-- Another response, or a run of the handler for another reason. -/
def LoopEvent.helps : LoopEvent R Th Lib Co → Bool
  | .inject .. | .spurious => true
  | _ => false

namespace EventLoop
variable {R Th Lib Co : Type} [DecidableEq R] [DecidableEq Th] [DecidableEq Co]
  {resolve : LuaString → Lib} {s s' : EventLoop R Th Lib Co} {l : LoopEvent R Th Lib Co}
  {ls ks : List (LoopEvent R Th Lib Co)}

/-- A reachable state in which the done list is attended. -/
def Deliverable (resolve : LuaString → Lib) (s : EventLoop R Th Lib Co) : Prop :=
  (∃ ls, Runs resolve ls s) ∧ s.Attended

/-- The responses that no event handler has been called for. -/
def pending (s : EventLoop R Th Lib Co) : Nat := s.worker.drained.length + s.worker.done.length

abbrev Advances (resolve : LuaString → Lib) (s : EventLoop R Th Lib Co) : Prop :=
  Transition.Advances (Step resolve) (Deliverable resolve) (·.delivers = true) pending s

theorem Deliverable.snoc (D : Deliverable resolve s) (h : Step resolve s l s')
    (hl : l.delivers = true) : Deliverable resolve s' := by
  obtain ⟨⟨ls, H⟩, A⟩ := D
  refine ⟨⟨_, H.snoc h⟩, h.attended ?_ A⟩
  rintro r rfl
  cases hl

theorem Advances.cons (D : Deliverable resolve s) (h : Step resolve s l s') (hl : l.delivers = true)
    (hle : s'.pending ≤ s.pending) (A : Deliverable resolve s' → Advances resolve s') :
    Advances resolve s :=
  Transition.Advances.cons h hl hle (A (D.snoc h hl))

/-- The event loop has a batch. -/
theorem Deliverable.advances_of_drained (D : Deliverable resolve s) (hd : s.worker.drained ≠ []) :
    Advances resolve s := by
  obtain ⟨ls, H⟩ := D.1
  obtain ⟨a, rest, hd⟩ := List.exists_cons_of_ne_nil hd
  have hlive := H.worker.owned.tasks.live_of_mem (a := a) (p := .drained)
    (by simp [Worker.items, hd])
  obtain ⟨⟨i, t⟩, ht⟩ := Option.isSome_iff_exists.mp hlive
  obtain ⟨r, w, hw, hrest, hdone, _⟩ := Worker.Step.exists_handle resolve hd ht
  have h : Step resolve s (.worker (.handle i {} r)) { s with worker := w } := .worker hw rfl
  refine .single h rfl (D.snoc h rfl) ?_
  simp [pending, hrest, hdone, hd]

/-- The handler has been called. -/
theorem Deliverable.advances_of_woken (D : Deliverable resolve s) (hw : s.woken = true)
    (hd : s.worker.drained = []) (hn : s.worker.done ≠ []) : Advances resolve s := by
  have h : Step resolve s .detach _ := .detach hw (.drain hd)
  exact .cons D h rfl (by simp [pending]) fun D => D.advances_of_drained hn

theorem Deliverable.advances_of_notified (D : Deliverable resolve s) (hnot : s.notified = true)
    (hd : s.worker.drained = []) (hn : s.worker.done ≠ []) : Advances resolve s := by
  cases hw : s.woken with
  | true => exact D.advances_of_woken hw hd hn
  | false =>
    exact .cons D (.wake hnot hw hd) rfl (Nat.le_refl _) fun D => D.advances_of_woken rfl hd hn

theorem Deliverable.advances (D : Deliverable resolve s) (hn : s.pending ≠ 0) :
    Advances resolve s := by
  by_cases hd : s.worker.drained = []
  · have hdone : s.worker.done ≠ [] := by
      intro h
      simp [pending, hd, h] at hn
    rcases D.2 hdone with hnot | ⟨r, hr⟩ | hw
    · exact D.advances_of_notified hnot hd hdone
    · have h : Step resolve s (.notify r true) _ := .notify hr
      exact .cons D h rfl (Nat.le_refl _) fun D => D.advances_of_notified (by simp) hd hdone
    · exact D.advances_of_woken hw hd hdone
  · exact D.advances_of_drained hd

/-- What is not attended stays where it is. -/
theorem Step.unattended (h : Step resolve s l s') (hl : l.helps = false) (A : ¬ s.Attended) :
    ¬ s'.Attended ∧ s'.worker.done = s.worker.done := by
  simp only [Attended, not_forall, not_or, not_exists] at A
  obtain ⟨hdone, hnot, hr, hw⟩ := A
  cases h with
  | worker h he =>
    have hd := h.move.done_eq he
    refine ⟨fun A => ?_, hd⟩
    rcases A (hd ▸ hdone) with h | ⟨r, h⟩ | h
    · exact hnot h
    · exact hr r h
    · exact hw h
  | notify h => exact (hr _ h).elim
  | wake h => exact (hnot h).elim
  | detach h => exact (hw h).elim
  | inject | spurious => cases hl

theorem run_unattended (K : Run (Step resolve) s ks s') (hk : ∀ k ∈ ks, k.helps = false)
    (A : ¬ s.Attended) : ¬ s'.Attended ∧ s'.worker.done = s.worker.done := by
  induction K with
  | nil => exact ⟨A, rfl⟩
  | snoc _ h ih =>
    rw [List.forall_mem_append] at hk
    obtain ⟨A, hd⟩ := ih hk.1
    obtain ⟨A', hd'⟩ := h.unattended (hk.2 _ (.head _)) A
    exact ⟨A', hd'.trans hd⟩

/-- **Delivery.** In a reachable state the responses that are there can all be handled without help
if and only if they are attended. -/
theorem Runs.delivery_iff (H : Runs resolve ls s) :
    (∃ ks s', Run (Step resolve) s ks s' ∧ (∀ k ∈ ks, k.helps = false) ∧ s'.worker.drained = [] ∧
      s'.worker.done = []) ↔ s.Attended := by
  constructor
  · rintro ⟨ks, s', K, hk, _, hdone⟩
    by_contra A
    obtain ⟨A', _⟩ := run_unattended K hk A
    exact A' fun h => (h hdone).elim
  · intro A
    obtain ⟨ks, s', K, hk, _, h0⟩ :=
      Run.reaches (fun D hn => Deliverable.advances D hn) ⟨⟨ls, H⟩, A⟩
    refine ⟨ks, s', K, fun k hkm => ?_, ?_⟩
    · have hd := hk k hkm
      cases k <;> first | rfl | cases hd
    · simpa [pending] using h0

theorem Runs.notified_eq (H : Runs resolve ls s) (hno : ∀ r, .notify r true ∉ ls) :
    s.notified = false := by
  induction H with
  | nil => rfl
  | snoc _ h ih =>
    have hf := ih fun r hr => hno r (List.mem_append_left _ hr)
    cases h with
    | @notify r ok =>
      cases ok with
      | false => simpa using hf
      | true => exact (hno r (by simp)).elim
    | wake => rfl
    | _ => exact hf

/-- The echo is on the done list, and then the notification fails. -/
theorem delivered_unless_notify_fails : ∃ (ls : List (LoopEvent Unit Unit LuaString Unit))
    (s s' : EventLoop Unit Unit LuaString Unit), s.worker.done ≠ [] ∧
      Runs id ls s ∧ (∃ ks t, Run (Step id) s ks t ∧ (∀ k ∈ ks, k.helps = false) ∧
        t.worker.drained = [] ∧ t.worker.done = []) ∧
      Runs id (ls ++ [.notify () false]) s' ∧ ¬ ∃ ks t, Run (Step id) s' ks t ∧
        (∀ k ∈ ks, k.helps = false) ∧ t.worker.drained = [] ∧ t.worker.done = [] := by
  obtain ⟨w, H⟩ := Worker.echoRun_runs
  rw [← List.take_append_drop 6 Worker.echoRun] at H
  obtain ⟨w, H, _⟩ := H.split
  have H : Worker.Runs id (Worker.echoRun.take 5 ++ [.respond 0 0 (some [104]) 1 1]) w := H
  obtain ⟨v, H, h⟩ := H.snoc_split
  obtain ⟨s, hs, rfl, ha, hw⟩ := Runs.of_worker () H
  have hdone := h.done_ne_nil
  have hinject : Step id s (.inject () 0 0 (some [104]) 1 1)
      { s with worker := w, appended := Function.update s.appended () true } :=
    .inject (by rw [ha]) h
  have H₁ := hs.snoc hinject
  have happ : Function.update s.appended () true () = true := Function.update_self ..
  have H₂ := H₁.snoc (show Step id _ (.notify () false) _ from .notify happ)
  refine ⟨_, _, _, hdone, H₁, (Runs.delivery_iff H₁).mpr ?_, H₂, fun hdel => ?_⟩
  · exact fun _ => .inr (.inl ⟨(), happ⟩)
  · have hnot := Runs.notified_eq H₂ (by
      simp [Worker.echoRun, LoopEvent.ofWorker])
    rcases (Runs.delivery_iff H₂).mp hdel hdone with h | ⟨r, h⟩ | h
    · rw [hnot] at h
      cases h
    · simp at h
    · exact Bool.noConfusion (hw.symm.trans h)

end EventLoop
end RestyFfi
