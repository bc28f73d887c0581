import Mathlib.Data.Set.Basic
import RestyFfi.Base.TailQueue
import RestyFfi.Base.Transition
import RestyFfi.Queue.Basic

/-!
# The linked lists of tasks

A task is linked through its one `next` field, first in the request queue of a runtime and later in
nginx's `ngx_thread_pool_done`. `ngx_http_lua_ffi_task_poll` leaves the `next` of the task it
removes as it is, so a polled task still points into the request queue when
`ngx_thread_pool_notify_inject` links it again.

The pointer operations simulate FIFO queues that know nothing of each other (`Memory.Refines`). The
flag `event.active` matters here: `ngx_task_post` sets it and nothing in this repository clears it,
so a task that was posted cannot be posted again before nginx is done with it.
-/

namespace RestyFfi
open Transition TailQueue

/-- What holds a list of tasks. -/
inductive Head (Q : Type) where
  | queue (q : Q)
  | done
  deriving DecidableEq

/-- The pointers of all tasks and lists, the `event.active` flags, and two sets that only say where
a task has been: dequeued and not injected since, detached and not allocated anew since. -/
structure Memory (Q T : Type) where
  links : Links (Head Q) T
  active : T → Bool
  polled : Set T
  drained : Set T

/-- The operations on the lists. -/
inductive ListOp (Q T : Type) where
  | post (q : Q) (t : T) (rc : Rc)
  | poll (q : Q) (t : T)
  | inject (t : T)
  | drain
  | realloc (t : T)

namespace Memory
variable {Q T : Type}

/-- Empty lists, and zeroed tasks. -/
def init : Memory Q T where
  links := ⟨fun _ => none, fun _ => none, Cell.first⟩
  active _ := false
  polled := ∅
  drained := ∅

variable [DecidableEq Q] [DecidableEq T]

/-- The list part of `ngx_task_post`. -/
def post (m : Memory Q T) (q : Q) (t : T) : Rc × Memory Q T :=
  if m.active t then (.error, m)
  else (.ok, { m with
    active := Function.update m.active t true
    links := m.links.append (.queue q) t })

/-- `ngx_thread_pool_notify_inject`. -/
def notifyInject (m : Memory Q T) (t : T) : Memory Q T :=
  { m with links := m.links.append .done t, polled := m.polled \ {t} }

/-- nginx detaches the whole done list before it calls the event handlers. -/
def drain (m : Memory Q T) : Memory Q T :=
  { m with links := m.links.init .done, drained := m.drained ∪ { t | m.links.Linked .done t } }

/-- The memory of a freed task is allocated anew, zeroed. -/
def realloc (m : Memory Q T) (t : T) : Memory Q T where
  links := m.links.write (.next t) none
  active := Function.update m.active t false
  polled := m.polled \ {t}
  drained := m.drained \ {t}

/-- The steps. The event handler frees a drained task, and a poll frees the finish marker it has
dequeued. -/
inductive Step (m : Memory Q T) : ListOp Q T → Memory Q T → Prop where
  | post : (∀ h, ¬ m.links.Linked h t) → Step m (.post q t (m.post q t).1) (m.post q t).2
  | poll : m.links.pop (.queue q) = some (t, l) →
    Step m (.poll q t) { m with links := l, polled := insert t m.polled }
  | inject : t ∈ m.polled → Step m (.inject t) (m.notifyInject t)
  | drain : Step m .drain m.drain
  | realloc : t ∈ m.drained ∨ t ∈ m.polled → Step m (.realloc t) (m.realloc t)

/-! ## The abstract queues -/

/-- The operations on a family of FIFO queues: a post and an inject are a `snoc`, a poll is an
`uncons`. -/
inductive FifoStep (A : Head Q → List T) : ListOp Q T → (Head Q → List T) → Prop where
  | posted : FifoStep A (.post q t .ok)
      (Function.update A (.queue q) (A (.queue q) ++ [t]))
  | refused : FifoStep A (.post q t .error) A
  | poll : A (.queue q) = t :: ts → FifoStep A (.poll q t) (Function.update A (.queue q) ts)
  | inject : FifoStep A (.inject t) (Function.update A .done (A .done ++ [t]))
  | drain : FifoStep A .drain (Function.update A .done [])
  | realloc : FifoStep A (.realloc t) A

/-- The simulation relation: the pointers represent `A`, and a task is in one list, polled or
drained only while it is active. -/
structure Refines (m : Memory Q T) (A : Head Q → List T) : Prop where
  rep : m.links.Rep A
  queued_active : ∀ {h t}, t ∈ A h → m.active t = true
  polled_active : ∀ {t}, t ∈ m.polled → m.active t = true
  drained_active : ∀ {t}, t ∈ m.drained → m.active t = true
  polled_unlinked : ∀ {h t}, t ∈ m.polled → t ∉ A h
  drained_unlinked : ∀ {h t}, t ∈ m.drained → t ∉ A h
  drained_unpolled : ∀ {t}, t ∈ m.drained → t ∉ m.polled

variable {m m' : Memory Q T} {A : Head Q → List T} {op : ListOp Q T} {ops : List (ListOp Q T)}
  {q : Q} {t : T}

omit [DecidableEq Q] [DecidableEq T] in
theorem Refines.init : (Memory.init : Memory Q T).Refines fun _ => [] where
  rep := ⟨fun _ => .nil, fun _ => rfl, fun _ => List.nodup_nil, fun h => nomatch h⟩
  queued_active h := nomatch h
  polled_active h := nomatch h
  drained_active h := nomatch h
  polled_unlinked h := nomatch h
  drained_unlinked h := nomatch h
  drained_unpolled h := nomatch h

omit [DecidableEq T] in
theorem mem_update_snoc {A : Head Q → List T} {h h' : Head Q} {t x : T}
    (hx : x ∈ Function.update A h (A h ++ [t]) h') : x = t ∨ x ∈ A h' := by
  by_cases hh : h' = h
  · subst hh; simp at hx; exact hx.symm
  · rw [Function.update_of_ne hh] at hx; exact .inr hx

/-- A post that `event.active` lets through: the task was never posted, or allocated anew. -/
theorem Refines.post (H : m.Refines A) (hact : m.active t = false)
    (ht : ∀ h, ¬ m.links.Linked h t) :
    Refines { m with
      active := Function.update m.active t true
      links := m.links.append (.queue q) t }
      (Function.update A (.queue q) (A (.queue q) ++ [t])) := by
  have hA : ∀ h, t ∉ A h := fun h hm => ht h (H.rep.linked_iff.mpr hm)
  have hact' : ∀ {x}, m.active x = true → Function.update m.active t true x = true := by
    intro x hx
    by_cases hxt : x = t
    · subst hxt; simp
    · rwa [Function.update_of_ne hxt]
  have hne : ∀ {x}, m.active x = true → x ≠ t := by
    rintro x hx rfl; rw [hact] at hx; cases hx
  refine ⟨H.rep.append hA, fun hx => ?_, fun hx => hact' (H.polled_active hx),
    fun hx => hact' (H.drained_active hx), fun hx hm => ?_, fun hx hm => ?_, H.drained_unpolled⟩
  · rcases mem_update_snoc hx with rfl | hx
    · simp
    · exact hact' (H.queued_active hx)
  · rcases mem_update_snoc hm with rfl | hm
    · exact hne (H.polled_active hx) rfl
    · exact H.polled_unlinked hx hm
  · rcases mem_update_snoc hm with rfl | hm
    · exact hne (H.drained_active hx) rfl
    · exact H.drained_unlinked hx hm

theorem Refines.poll {l : Links (Head Q) T} (H : m.Refines A)
    (hp : m.links.pop (.queue q) = some (t, l)) :
    ∃ ts, A (.queue q) = t :: ts ∧
      Refines { m with links := l, polled := insert t m.polled }
        (Function.update A (.queue q) ts) := by
  obtain ⟨ts, hA, hrep⟩ := H.rep.pop hp
  have ht : t ∈ A (.queue q) := by rw [hA]; exact List.mem_cons_self
  have hmem : ∀ {h x}, x ∈ Function.update A (.queue q) ts h → x ∈ A h := by
    intro h x hx
    by_cases hh : h = .queue q
    · subst hh; rw [hA]; rw [Function.update_self] at hx; exact List.mem_cons_of_mem _ hx
    · rwa [Function.update_of_ne hh] at hx
  refine ⟨ts, hA, hrep, fun hx => H.queued_active (hmem hx), fun hx => ?_, H.drained_active,
    fun hx hm => ?_, fun hx hm => H.drained_unlinked hx (hmem hm), fun hx hm => ?_⟩
  · rcases hx with rfl | hx
    · exact H.queued_active ht
    · exact H.polled_active hx
  · rename_i h x
    rcases hx with rfl | hx
    · -- the removed task was in queue `q` only, and there only once
      by_cases hh : h = .queue q
      · subst hh
        rw [Function.update_self] at hm
        have hnd := H.rep.nodup (.queue q)
        rw [hA] at hnd
        exact (List.nodup_cons.mp hnd).1 hm
      · exact hh (H.rep.disjoint (hmem hm) ht)
    · exact H.polled_unlinked hx (hmem hm)
  · rcases hm with rfl | hm
    · exact H.drained_unlinked hx ht
    · exact H.drained_unpolled hx hm

theorem Refines.inject (H : m.Refines A) (ht : t ∈ m.polled) :
    (m.notifyInject t).Refines (Function.update A .done (A .done ++ [t])) := by
  refine ⟨H.rep.append fun h => H.polled_unlinked ht, fun hx => ?_,
    fun hx => H.polled_active hx.1, H.drained_active, fun hx hm => ?_, fun hx hm => ?_,
    fun hx hm => H.drained_unpolled hx hm.1⟩
  · rcases mem_update_snoc hx with rfl | hx
    · exact H.polled_active ht
    · exact H.queued_active hx
  · rcases mem_update_snoc hm with rfl | hm
    · exact hx.2 rfl
    · exact H.polled_unlinked hx.1 hm
  · rcases mem_update_snoc hm with rfl | hm
    · exact H.drained_unpolled hx ht
    · exact H.drained_unlinked hx hm

omit [DecidableEq T] in
theorem Refines.drain (H : m.Refines A) : m.drain.Refines (Function.update A .done []) := by
  have hmem : ∀ {h x}, x ∈ Function.update A .done [] h → h ≠ .done ∧ x ∈ A h := by
    intro h x hx
    have hh : h ≠ .done := by rintro rfl; simp at hx
    rw [Function.update_of_ne hh] at hx
    exact ⟨hh, hx⟩
  refine ⟨H.rep.init, fun hx => H.queued_active (hmem hx).2, H.polled_active, fun hx => ?_,
    fun hx hm => H.polled_unlinked hx (hmem hm).2, fun hx hm => ?_, fun hx hp => ?_⟩
  · rcases hx with hx | hx
    · exact H.drained_active hx
    · exact H.queued_active (H.rep.linked_iff.mp hx)
  · rcases hx with hx | hx
    · exact H.drained_unlinked hx (hmem hm).2
    · exact (hmem hm).1 (H.rep.disjoint (hmem hm).2 (H.rep.linked_iff.mp hx))
  · rcases hx with hx | hx
    · exact H.drained_unpolled hx hp
    · exact H.polled_unlinked hp (H.rep.linked_iff.mp hx)

theorem Refines.realloc (H : m.Refines A) (ht : t ∈ m.drained ∨ t ∈ m.polled) :
    (m.realloc t).Refines A := by
  have hA : ∀ {h}, t ∉ A h := fun hm => ht.elim (H.drained_unlinked · hm) (H.polled_unlinked · hm)
  have hact : ∀ {x}, x ≠ t → m.active x = true → Function.update m.active t false x = true := by
    intro x hne hx; rwa [Function.update_of_ne hne]
  refine ⟨⟨fun h => (H.rep.chain h).congr fun x hx => ?_, H.rep.last, H.rep.nodup,
      H.rep.disjoint⟩, fun hx => hact ?_ (H.queued_active hx),
    fun hx => hact hx.2 (H.polled_active hx.1), fun hx => hact hx.2 (H.drained_active hx.1),
    fun hx => H.polled_unlinked hx.1, fun hx => H.drained_unlinked hx.1,
    fun hx hp => H.drained_unpolled hx.1 hp.1⟩
  · have hne : x ≠ t := by rintro rfl; exact hA hx
    simp [Memory.realloc, Links.write, Function.update_of_ne hne]
  · rintro rfl; exact hA hx

/-- Every step on the pointers is the corresponding step on the abstract queues. -/
theorem Step.simulates (H : m.Refines A) (h : Step m op m') :
    ∃ A', FifoStep A op A' ∧ m'.Refines A' := by
  cases h with
  | @post q t ht =>
    unfold Memory.post
    split
    · exact ⟨A, .refused, H⟩
    · rename_i hact
      exact ⟨_, .posted, H.post (Bool.eq_false_iff.mpr hact) ht⟩
  | poll hp =>
    obtain ⟨ts, hA, H'⟩ := H.poll hp
    exact ⟨_, .poll hA, H'⟩
  | inject ht => exact ⟨_, .inject, H.inject ht⟩
  | drain => exact ⟨_, .drain, H.drain⟩
  | realloc ht => exact ⟨A, .realloc, H.realloc ht⟩

/-- **Refinement.** After every sequence of operations the pointers represent the queues that the
same operations produce abstractly: following `next` from `first` visits each queue in order and
ends in a null pointer, `last` is the cell behind its final element, no task is in two lists, and a
poll finds a task exactly when its queue is not empty. -/
theorem lists_refine_fifo (H : Run Step (Memory.init : Memory Q T) ops m) :
    ∃ A, Run FifoStep (fun _ => []) ops A ∧
      (∀ h, Chain m.links.next (m.links.first h) (A h)) ∧
      (∀ h, m.links.last h = lastCell h (A h)) ∧
      (∀ h h' t, m.links.Linked h t → m.links.Linked h' t → h = h') ∧
      (∀ q, m.links.pop (.queue q) = none ↔ A (.queue q) = []) := by
  obtain ⟨A, hA, R⟩ := H.simulate Refines.init Step.simulates
  refine ⟨A, hA, R.rep.chain, R.rep.last, fun h h' t ht ht' => ?_, fun q => R.rep.pop_none_iff⟩
  exact R.rep.disjoint (R.rep.linked_iff.mp ht) (R.rep.linked_iff.mp ht')

theorem not_linked_of_inactive {t : T} (H : Run Step (Memory.init : Memory Q T) ops m)
    (ht : m.active t = false) (h : Head Q) : ¬ m.links.Linked h t := by
  obtain ⟨A, _, R⟩ := H.simulate Refines.init Step.simulates
  intro hl
  rw [R.queued_active (R.rep.linked_iff.mp hl)] at ht
  cases ht

/-- A task is injected into the done list while its old successor is still queued. -/
theorem lists_refine_fifo_stale_next : ∃ (m : Memory Unit Bool) (A : Head Unit → List Bool),
    Run Step Memory.init [.post () true .ok, .post () false .ok, .poll () true, .inject true] m ∧
      ∀ h, Chain m.links.next (m.links.first h) (A h) := by
  have H₁ := Run.nil.snoc (@Step.post Unit Bool _ _ Memory.init true ()
    (not_linked_of_inactive .nil rfl))
  have H₂ := H₁.snoc (@Step.post Unit Bool _ _ _ false () (not_linked_of_inactive H₁ rfl))
  have H₃ := H₂.snoc (@Step.poll Unit Bool _ _ _ () true _ rfl)
  have H₄ := H₃.snoc (@Step.inject Unit Bool _ _ _ true (.inl rfl))
  obtain ⟨A, _, hA, _⟩ := lists_refine_fifo H₄
  exact ⟨_, A, H₄, hA⟩

end Memory
end RestyFfi
