import RestyFfi.Lua.RegistryInv
import RestyFfi.Queue.Pollers

/-!
# Runtimes

The Lua module together with the request queues it has created, each polled by the threads of its
runtime, and the garbage collector. Lua runs on one thread, so a Lua call with the C call it makes
is one step; the runtime threads and the collector interleave with it in any order.
-/

namespace RestyFfi
open Transition

/-- A call of `ngx_http_lua_ffi_task_post` or `ngx_http_lua_ffi_task_finish`. -/
def Event.isPost : Event Th α → Bool
  | .post .. => true
  | _ => false

/-- The Lua state and the queues ever created. -/
structure System (Th Lib α : Type) where
  lua : LuaState Lib
  queues : Arena (Pollers Th α)

/-- What happens in the system. -/
inductive SysEvent (Th Lib α : Type) where
  /-- `ngx.load_ffi` with the answers it gets; `q` numbers the queue that it creates, if it comes to
  that. -/
  | load (env : LoadEnv) (lib : LuaString) (cfg : Option LuaString) (opts : Option Opts)
    (r : LoadResult Lib) (q : Nat)
  /-- A call on a runtime object, and what it did at which queue. -/
  | call (o : Nat) (name : Option FieldName) (c : Option (Nat × Event Th α))
  /-- A step of a runtime thread at a queue. -/
  | queue (q : Nat) (e : Event Th α)
  /-- The collector closes a library handle. -/
  | collect (h : Nat)

/-- What happens at the queue `q`. -/
def SysEvent.onQueue (q : Nat) : SysEvent Th Lib α → Option (Event Th α)
  | .call _ _ (some (q', e)) => if q' = q then some e else none
  | .queue q' e => if q' = q then some e else none
  | _ => none

namespace System
variable {Th Lib α : Type}

def init : System Th Lib α := ⟨.empty, .empty⟩

/-- The history of the queue `q`. -/
def history (q : Nat) (ls : List (SysEvent Th Lib α)) : List (Event Th α) :=
  ls.filterMap (·.onQueue q)

variable [DecidableEq Th] (resolve : LuaString → Lib)

/-- The steps. A library handle is collected only while nothing reaches it. -/
inductive Step (s : System Th Lib α) : SysEvent Th Lib α → System Th Lib α → Prop where
  | load : s.lua.loadFfi resolve env s.queues.next lib cfg opts = (L, r) →
    Step s (.load env lib cfg opts r s.queues.next) {
      lua := L
      queues := if r.createsQueue then s.queues.push (.init (Opts.maxQueueOf opts)) else s.queues }
  | idle : s.lua.call o name = (L, .none) → Step s (.call o name none) { s with lua := L }
  | post : s.lua.call o name = (L, .post q) → s.queues.get q = some p →
    Pollers.Step p (.post (.request a) rc) p' →
    Step s (.call o name (some (q, .post (.request a) rc)))
      { lua := L, queues := s.queues.modify q fun _ => p' }
  | finish : s.lua.call o name = (L, .finish q) → s.queues.get q = some p →
    Pollers.Step p (.post .finish rc) p' →
    Step s (.call o name (some (q, .post .finish rc)))
      { lua := L, queues := s.queues.modify q fun _ => p' }
  | poll : s.queues.get q = some p → e.isPost = false → Pollers.Step p e p' →
    Step s (.queue q e) { s with queues := s.queues.modify q fun _ => p' }
  | collect : s.lua.handles.get h = some l → ¬ s.lua.Reaches h →
    Step s (.collect h) { s with lua := { s.lua with handles := s.lua.handles.erase h } }

/-- A run from the start of the process. -/
abbrev Runs (ls : List (SysEvent Th Lib α)) (s : System Th Lib α) : Prop :=
  Run (Step resolve) init ls s

omit [DecidableEq Th] in
theorem history_snoc (q : Nat) (ls : List (SysEvent Th Lib α)) (l : SysEvent Th Lib α) :
    history q (ls ++ [l]) = history q ls ++ (l.onQueue q).toList := by
  cases h : l.onQueue q <;> simp [history, h]

variable {resolve : LuaString → Lib} {s s' : System Th Lib α} {l : SysEvent Th Lib α}
  {ls : List (SysEvent Th Lib α)} {q : Nat} {p : Pollers Th α}

/-! ## The invariant -/

/-- The registry invariant, and every queue an object holds exists. -/
structure Inv (resolve : LuaString → Lib) (s : System Th Lib α) : Prop where
  lua : s.lua.Inv resolve
  queue_lt : ∀ {o n q}, s.lua.objs.get o = some n → n.tq = .val q → q < s.queues.next

omit [DecidableEq Th] in
theorem Inv.collect {h : Nat} (I : s.Inv resolve) (hr : ¬ s.lua.Reaches h) :
    Inv resolve { s with lua := { s.lua with handles := s.lua.handles.erase h } } := by
  have keep : ∀ {i l}, s.lua.Reaches i → s.lua.handles.get i = some l →
      (s.lua.handles.erase h).get i = some l := by
    intro i l hi hl
    have hih : i ≠ h := by rintro rfl; exact hr hi
    rw [Arena.erase_get_of_ne hih]
    exact hl
  refine ⟨⟨I.lua.registered, I.lua.live, I.lua.cleared, I.lua.tq_unique, fun ho hh => ?_,
    fun hp => ?_, fun hp => ?_⟩, I.queue_lt⟩
  · obtain ⟨l, hl⟩ := I.lua.handle_open ho hh
    exact ⟨l, keep (I.lua.reaches_handle ho hh) hl⟩
  · exact keep (.inr (.inl ⟨_, hp⟩)) (I.lua.pinned hp)
  · exact ⟨(I.lua.resty hp).1, keep (.inl hp) (I.lua.resty hp).2⟩

omit [DecidableEq Th] in
theorem Inv.call {L : LuaState Lib} {o : Nat} {name : Option FieldName} {c : CCall}
    {Q : Arena (Pollers Th α)} (I : s.Inv resolve) (h : s.lua.call o name = (L, c))
    (hQ : Q.next = s.queues.next) : Inv resolve { lua := L, queues := Q } where
  lua := I.lua.call h
  queue_lt ho hq := by
    obtain ⟨n', hn', hq'⟩ := I.lua.holds_of_call h ho hq
    simp only [hQ]
    exact I.queue_lt hn' hq'

theorem Step.inv (I : s.Inv resolve) (h : Step resolve s l s') : s'.Inv resolve := by
  cases h with
  | @load env lib cfg opts L r h =>
    obtain ⟨s₁, H, hm⟩ := LuaState.loadFfi_move h
    have hfresh : ∀ {o n}, s₁.objs.get o = some n → n.tq ≠ .val s.queues.next := by
      intro o n ho hq
      rw [H.objs] at ho
      have := I.queue_lt ho hq
      omega
    refine ⟨(H.inv I.lua).loadMove hfresh hm, fun {o n q} ho hq => ?_⟩
    rcases hm.holds ho hq with ⟨rfl, hr⟩ | ho
    · simp [hr]
    · rw [H.objs] at ho
      have := I.queue_lt ho hq
      split <;> simp <;> omega
  | idle h => exact I.call h rfl
  | post h | finish h => exact I.call h rfl
  | poll => exact ⟨I.lua, I.queue_lt⟩
  | collect _ hr => exact I.collect hr

theorem Runs.inv (H : Runs resolve ls s) : s.Inv resolve := by
  induction H with
  | nil => exact ⟨.empty, fun h => nomatch h⟩
  | snoc _ h ih => exact h.inv ih

/-! ## Every queue makes a run of its own -/

/-- What one step of the system is at one queue. -/
theorem Step.queue_step (h : Step resolve s l s') (hp : s'.queues.get q = some p) :
    (∃ n, s.queues.get q = none ∧ l.onQueue q = none ∧ p = .init n) ∨
      ∃ p₀, s.queues.get q = some p₀ ∧ match l.onQueue q with
        | none => p = p₀
        | some e => Pollers.Step p₀ e p := by
  -- a step at the queue `q'`, seen from the queue `q`
  have key : ∀ {q' : Nat} {p₀ p' : Pollers Th α} {e : Event Th α}, s.queues.get q' = some p₀ →
      Pollers.Step p₀ e p' → (s.queues.modify q' fun _ => p').get q = some p →
      ∃ p₀, s.queues.get q = some p₀ ∧ match (if q' = q then some e else none) with
        | none => p = p₀
        | some e => Pollers.Step p₀ e p := by
    intro q' p₀ p' e hq' hs hget
    rcases Arena.modify_get_eq_some hget with ⟨rfl, _, _, rfl⟩ | ⟨hne, hget⟩
    · exact ⟨p₀, hq', by simpa using hs⟩
    · exact ⟨p, hget, by simp [Ne.symm hne]⟩
  cases h with
  | @load env lib cfg opts L r h =>
    simp only at hp
    split at hp
    · rcases Arena.push_get_eq_some hp with ⟨rfl, rfl⟩ | hp
      · exact .inl ⟨_, s.queues.fresh _ (Nat.le_refl _), rfl, rfl⟩
      · exact .inr ⟨p, hp, rfl⟩
    · exact .inr ⟨p, hp, rfl⟩
  | idle | collect => exact .inr ⟨p, hp, rfl⟩
  | post _ hq' hs | finish _ hq' hs => exact .inr (key hq' hs hp)
  | poll hq' _ hs => exact .inr (key hq' hs hp)

theorem Step.onQueue_none (h : Step resolve s l s') (hq : s'.queues.get q = none) :
    s.queues.get q = none ∧ l.onQueue q = none := by
  have key : ∀ {q' : Nat} {p₀ p' : Pollers Th α} {e : Event Th α}, s.queues.get q' = some p₀ →
      (s.queues.modify q' fun _ => p').get q = none →
      s.queues.get q = none ∧ (if q' = q then some e else none) = none := by
    intro q' p₀ p' e hq' hget
    by_cases hqq : q' = q
    · subst hqq; simp [hq'] at hget
    · rw [Arena.modify_get_of_ne (Ne.symm hqq)] at hget
      exact ⟨hget, if_neg hqq⟩
  cases h with
  | load h =>
    simp only at hq
    split at hq
    · by_cases hqn : q = s.queues.next
      · subst hqn; simp at hq
      · rw [Arena.push_get_of_ne hqn] at hq; exact ⟨hq, rfl⟩
    · exact ⟨hq, rfl⟩
  | idle | collect => exact ⟨hq, rfl⟩
  | post _ hq' | finish _ hq' => exact key hq' hq
  | poll hq' => exact key hq' hq

theorem Runs.history_nil (H : Runs resolve ls s) (hq : s.queues.get q = none) :
    history q ls = [] := by
  induction H with
  | nil => rfl
  | snoc _ h ih =>
    obtain ⟨hs, hl⟩ := h.onQueue_none hq
    rw [history_snoc, ih hs, hl]
    rfl

/-- **Projection.** The history of a queue is a run of that queue with its pollers. -/
theorem Runs.queue_runs (H : Runs resolve ls s) (hp : s.queues.get q = some p) :
    ∃ n, Pollers.Runs n (history q ls) p := by
  induction H generalizing p with
  | nil => cases hp
  | @snoc ls t l u H h ih =>
    rw [history_snoc]
    rcases h.queue_step hp with ⟨n, hs, hl, rfl⟩ | ⟨p₀, hp₀, hstep⟩
    · rw [Runs.history_nil H hs, hl]
      exact ⟨n, .nil⟩
    · obtain ⟨n, hn⟩ := ih hp₀
      refine ⟨n, ?_⟩
      cases hl : l.onQueue q with
      | none => rw [hl] at hstep; cases hstep; simpa using hn
      | some e => rw [hl] at hstep; exact hn.snoc hstep

/-! ## The queued requests -/

/-- The requests queued at `q`, oldest first. -/
def queued (s : System Th Lib α) (q : Nat) : List α :=
  match s.queues.get q with
  | none => []
  | some p => p.tq.queue.filterMap Task.ctx

omit [DecidableEq Th] in
theorem queued_of_get (h : s.queues.get q = some p) :
    s.queued q = p.tq.queue.filterMap Task.ctx := by simp [queued, h]

/-- What a step takes from a queue and leaves there is what was there and what it adds. -/
theorem Step.queued_eq (h : Step resolve s l s') (q : Nat) :
    ((l.onQueue q).toList.flatMap Event.taken).filterMap Task.ctx ++ s'.queued q =
      s.queued q ++ ((l.onQueue q).toList.flatMap Event.accepted).filterMap Task.ctx := by
  cases hq : s'.queues.get q with
  | none =>
    obtain ⟨hs, hl⟩ := h.onQueue_none hq
    simp [queued, hq, hs, hl]
  | some p =>
    rw [queued_of_get hq]
    rcases h.queue_step hq with ⟨n, hs, hl, rfl⟩ | ⟨p₀, hp₀, hstep⟩
    · simp [queued, hs, hl, Pollers.init]
    · rw [queued_of_get hp₀]
      cases hl : l.onQueue q with
      | none => rw [hl] at hstep; cases hstep; simp
      | some e =>
        rw [hl] at hstep
        simpa only [List.filterMap_append, Option.toList_some, List.flatMap_cons, List.flatMap_nil,
          List.append_nil] using congrArg (List.filterMap Task.ctx) hstep.fifo

end System
end RestyFfi
