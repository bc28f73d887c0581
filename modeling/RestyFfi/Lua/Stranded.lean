import RestyFfi.Lua.Ledger

/-!
# Stranded queues

A queue that `load_ffi` has created is held by a registered runtime, or its finish marker is on the
way to the thread that polls it, or it is freed. There are four ways out of this: `load_ffi` creates
the queue before `ffi.load(lib)` and before it looks up and calls `libffi_init`, and gives it to
nobody if one of the three fails, and `unload` forgets the queue whether or not the marker could be
enqueued. A queue that is lost stays lost, so a reachable state has a stranded queue exactly if one
of the four has happened.
-/

namespace RestyFfi
open Transition

/-- The queue of a failure: `ffi.load` raised an error, the library had no `libffi_init` or its
`libffi_init` returned an error code although the queue exists, or `ngx_http_lua_ffi_task_finish`
returned `NGX_ERROR`. -/
def SysEvent.failedQueue : SysEvent Th Lib α → Option Nat
  | .load _ _ _ _ .notFound q => some q
  | .load _ _ _ _ (.noSymbol _) q => some q
  | .load _ _ _ _ (.refused ..) q => some q
  | .call _ _ (some (q, .post .finish .error)) => some q
  | _ => none

/-- `load_ffi` gets as far as `ngx_http_lua_ffi_create_task_queue`: the C side is there, and no
runtime is registered under the key. -/
def LuaState.Creates {Lib : Type} (s : LuaState Lib) (env : LoadEnv) (lib : LuaString)
    (cfg : Option LuaString) : Prop :=
  (s.init = true ∨ env.symbol = true ∨ env.resty = some 0) ∧ s.runtimes (runtimeKey lib cfg) = none

/-- In the state `s`, nothing fails behind the creation of a queue: the library is found, and has a
`libffi_init`, which accepts; and `ngx_http_lua_ffi_task_finish` can enqueue the marker. -/
def SysEvent.Answered (s : LuaState Lib) : SysEvent Th Lib α → Prop
  | .load env lib cfg _ _ _ =>
    s.Creates env lib cfg → env.lib = true ∧ env.libffiInit = some 0
  | .call _ _ (some (_, .post .finish rc)) => rc = .ok
  | _ => True

namespace LuaState
variable {Lib : Type} {resolve : LuaString → Lib} {s L : LuaState Lib} {env : LoadEnv}
  {q q' : Nat} {lib : LuaString} {cfg : Option LuaString} {opts : Option Opts} {r : LoadResult Lib}

/-- Which loads leave a queue behind. -/
theorem answered_iff {Th α : Type} (h : s.loadFfi resolve env q lib cfg opts = (L, r)) :
    (SysEvent.load env lib cfg opts r q' : SysEvent Th Lib α).Answered s ↔
      (SysEvent.load env lib cfg opts r q' : SysEvent Th Lib α).failedQueue = none := by
  have hruntimes : (s.initialise resolve env).1.runtimes = s.runtimes :=
    (s.initialise_spec env).runtimes
  have hinit : (s.initialise resolve env).2 = true ↔
    s.init = true ∨ env.symbol = true ∨ env.resty = some 0 := initialise_iff
  rcases hi : s.initialise resolve env with ⟨s₁, ok⟩
  simp only [hi] at hruntimes hinit
  simp only [loadFfi, hi] at h
  simp only [SysEvent.Answered, Creates, ← hinit, ← hruntimes]
  cases ok with
  | false => cases h; simp [SysEvent.failedQueue]
  | true =>
    cases hk : s₁.runtimes (runtimeKey lib cfg) with
    | some o => simp only [hk] at h; cases h; simp [SysEvent.failedQueue]
    | none =>
      simp only [hk] at h
      cases hlib : env.lib with
      | false => simp only [hlib] at h; cases h; simp [SysEvent.failedQueue]
      | true =>
        cases hrc : env.libffiInit with
        | none => simp only [hlib, hrc] at h; cases h; simp [SysEvent.failedQueue]
        | some rc =>
          by_cases h0 : rc = 0
          · simp [hlib, hrc, h0] at h
            cases h.2
            simp [h0, SysEvent.failedQueue]
          · simp [hlib, hrc, h0] at h
            cases h.2
            simp [h0, SysEvent.failedQueue]

end LuaState

namespace Pollers
variable {Th α : Type} [DecidableEq Th] {s s' : Pollers Th α} {e : Event Th α}
  {es : List (Event Th α)} {n : Int}

/-- The queue is freed, or a thread is about to free it. -/
def Ending (s : Pollers Th α) : Prop := s.freed = true ∨ ∃ th, s.pc th = .freeing

theorem Step.ending (h : Step s e s') (he : s'.Ending) : s.Ending ∨ .finish ∈ e.taken := by
  -- a thread that was not about to free the queue is not made to
  have keep : ∀ {th : Th} {pc : Pc}, pc ≠ .freeing →
      (∃ th', Function.update s.pc th pc th' = .freeing) → ∃ th', s.pc th' = .freeing := by
    intro th pc hpc ⟨th', h⟩
    by_cases hth : th' = th
    · subst hth; rw [Function.update_self] at h; exact (hpc h).elim
    · rw [Function.update_of_ne hth] at h; exact ⟨th', h⟩
  cases h.move with
  | rejected => exact .inl he
  | @accepted woken task hw =>
    left
    apply he.imp_right
    rintro ⟨th, hth⟩
    refine ⟨th, ?_⟩
    simp only [wakeUp] at hth
    split at hth
    · cases hth
    · exact hth
  | enter | sleep | resleep | wake => exact .inl (he.imp_right (keep (by simp)))
  | @take th task | @retake th task =>
    cases task with
    | request => exact .inl (he.imp_right (keep (by simp)))
    | finish => exact .inr (.head _)
  | @free th hpc => exact .inl (.inr ⟨th, hpc⟩)

/-- Only the marker ends a queue. -/
theorem Runs.finish_taken (H : Runs n es s) (he : s.Ending) :
    .finish ∈ es.flatMap Event.taken := by
  induction H with
  | nil =>
    rcases he with h | ⟨_, h⟩
    · cases h
    · cases h
  | snoc _ h ih =>
    rw [List.flatMap_append, List.mem_append]
    rcases h.ending he with hs | hf
    · exact .inl (ih hs)
    · exact .inr (by simpa using hf)

end Pollers

theorem LuaState.LoadMove.objs_mono {Lib : Type} {resolve : LuaString → Lib} {s s' : LuaState Lib}
    {q o : Nat} {lib k : LuaString} {pin : Bool} {r : LoadResult Lib} {n : Nffi}
    (h : LoadMove resolve s q lib k pin s' r) (ho : s.objs.get o = some n) :
    s'.objs.get o = some n := by
  cases h with
  | unavailable | cached | notFound | noSymbol | refused => exact ho
  | loaded => exact Arena.push_get_of_some ho

namespace System
variable {Th Lib α : Type}

/-- The queues that a failure has left behind. -/
def failed (ls : List (SysEvent Th Lib α)) : List Nat := ls.filterMap SysEvent.failedQueue

/-- The states that a queue is meant to be in. -/
inductive QueueState where
  /-- The `tq` of a registered, unfinished runtime. -/
  | held
  /-- The finish marker is enqueued, and the queue not freed yet. -/
  | finishing
  | freed
  deriving DecidableEq, Repr

/-- The queue `q`, with its pollers `p`, is in the given state. -/
def InState (ls : List (SysEvent Th Lib α)) (s : System Th Lib α) (q : Nat) (p : Pollers Th α) :
    QueueState → Prop
  | .held => ∃ k o n, s.lua.runtimes k = some o ∧ s.lua.objs.get o = some n ∧
      n.finished = false ∧ n.tq = .val q
  | .finishing => .finish ∈ accepted q ls ∧ p.freed = false
  | .freed => p.freed = true

/-- Every queue ever created is in exactly one of the states. -/
def QueuesOwned (ls : List (SysEvent Th Lib α)) (s : System Th Lib α) : Prop :=
  ∀ q p, s.queues.get q = some p → ∃! st, InState ls s q p st

/-- What the history says about the queue `q`. -/
@[mk_iff]
structure Tracked (ls : List (SysEvent Th Lib α)) (s : System Th Lib α) (q : Nat) : Prop where
  created : q ∈ failed ls → (s.queues.get q).isSome
  covered : (s.queues.get q).isSome → s.Held q ∨ .finish ∈ accepted q ls ∨ q ∈ failed ls
  lost : q ∈ failed ls → ¬ s.Held q ∧ .finish ∉ accepted q ls

variable {s s' : System Th Lib α} {l : SysEvent Th Lib α} {ls : List (SysEvent Th Lib α)}
  {q : Nat} {resolve : LuaString → Lib}

theorem failed_snoc : q ∈ failed (ls ++ [l]) ↔ q ∈ failed ls ∨ l.failedQueue = some q := by
  cases h : l.failedQueue <;> simp [failed, h, eq_comm]

theorem Tracked.keep (T : Tracked ls s q)
    (hq : (s'.queues.get q).isSome = (s.queues.get q).isSome) (hh : s'.Held q ↔ s.Held q)
    (ha : .finish ∈ accepted q (ls ++ [l]) ↔ .finish ∈ accepted q ls)
    (hf : l.failedQueue ≠ some q) : Tracked (ls ++ [l]) s' q := by
  have hf : q ∈ failed (ls ++ [l]) ↔ q ∈ failed ls := by simp [failed_snoc, hf]
  exact ⟨fun h => hq ▸ T.created (hf.mp h),
    fun h => by rw [hh, ha, hf]; exact T.covered (hq ▸ h),
    fun h => by rw [hh, ha]; exact T.lost (hf.mp h)⟩

theorem Quiet.held_iff (Q : Quiet s.lua s'.lua) : s'.Held q ↔ s.Held q := by
  constructor
  · rintro ⟨o, n', ho, hq⟩
    obtain ⟨n, hn, hv⟩ := Q.before ho
    exact ⟨o, n, hn, hv.tq.mp hq⟩
  · rintro ⟨o, n, ho, hq⟩
    obtain ⟨n', hn', hv⟩ := Q.after ho
    exact ⟨o, n', hn', hv.tq.mpr hq⟩

theorem accepted_keep (hl : .finish ∉ (l.onQueue q).toList.flatMap Event.accepted) :
    .finish ∈ accepted q (ls ++ [l]) ↔ .finish ∈ accepted q ls := by
  rw [accepted_snoc, List.mem_append]
  exact ⟨fun h => h.resolve_right hl, .inl⟩

theorem accepted_load {env : LoadEnv} {lib : LuaString} {cfg : Option LuaString}
    {opts : Option Opts} {r : LoadResult Lib} {q' : Nat} :
    .finish ∈ accepted q (ls ++ [.load env lib cfg opts r q']) ↔ .finish ∈ accepted q ls :=
  accepted_keep (by simp [SysEvent.onQueue])

variable [DecidableEq Th]

/-- The queue that a load creates is held or lost. -/
theorem Tracked.load_new {env : LoadEnv} {lib k : LuaString} {cfg : Option LuaString}
    {opts : Option Opts} {r : LoadResult Lib} {L s₁ : LuaState Lib} {pin : Bool}
    (T : Tracked ls s s.queues.next) (H : Runs resolve ls s) (hs₁ : s₁.objs = s.lua.objs)
    (hm : LuaState.LoadMove resolve s₁ s.queues.next lib k pin L r) :
    Tracked (ls ++ [.load env lib cfg opts r s.queues.next])
      { lua := L
        queues := if r.createsQueue then s.queues.push (.init (Opts.maxQueueOf opts))
          else s.queues } s.queues.next := by
  have hfresh := s.queues.fresh _ (Nat.le_refl _)
  have hnil : .finish ∉ accepted s.queues.next ls := by
    rw [accepted, Runs.history_nil H hfresh]
    simp
  have hnone : s.queues.next ∉ failed ls := by
    intro hmem
    have := T.created hmem
    rw [hfresh] at this
    cases this
  have hheld : ∀ {o n}, s₁.objs.get o = some n → n.tq ≠ .val s.queues.next := by
    intro o n ho hn
    rw [hs₁] at ho
    have := H.inv.queue_lt ho hn
    omega
  rw [tracked_iff, accepted_load, failed_snoc]
  cases hm with
  | unavailable | cached =>
    simp [hfresh, hnone, SysEvent.failedQueue, LoadResult.createsQueue]
  | notFound | noSymbol | refused =>
    simp only [SysEvent.failedQueue, LoadResult.createsQueue]
    refine ⟨by simp, by simp, fun _ => ⟨?_, hnil⟩⟩
    rintro ⟨o, n, ho, hn⟩
    exact hheld ho hn
  | loaded =>
    simp only [SysEvent.failedQueue, LoadResult.createsQueue, hnone]
    refine ⟨by simp, fun _ => .inl ⟨_, _, Arena.push_get_next, rfl⟩, by simp⟩

theorem Tracked.load {env : LoadEnv} {lib k : LuaString} {cfg : Option LuaString}
    {opts : Option Opts} {r : LoadResult Lib} {L s₁ : LuaState Lib} {pin : Bool}
    (T : Tracked ls s q) (H : Runs resolve ls s) (hs₁ : s₁.objs = s.lua.objs)
    (hm : LuaState.LoadMove resolve s₁ s.queues.next lib k pin L r) :
    Tracked (ls ++ [.load env lib cfg opts r s.queues.next])
      { lua := L
        queues := if r.createsQueue then s.queues.push (.init (Opts.maxQueueOf opts))
          else s.queues } q := by
  obtain rfl | hq := eq_or_ne q s.queues.next
  · exact T.load_new H hs₁ hm
  have hget : ((if r.createsQueue then s.queues.push (.init (Opts.maxQueueOf opts))
      else s.queues).get q).isSome = (s.queues.get q).isSome := by
    split
    · rw [Arena.push_get_of_ne hq]
    · rfl
  refine T.keep hget ⟨held_of_loadMove hs₁ hm hq, ?_⟩ accepted_load ?_
  · rintro ⟨o, n, ho, hn⟩
    exact ⟨o, n, hm.objs_mono (hs₁ ▸ ho), hn⟩
  · cases r <;> simp [SysEvent.failedQueue, Ne.symm hq]

theorem Tracked.finish {L : LuaState Lib} {o q₀ : Nat} {name : Option FieldName} {rc : Rc}
    {p p' : Pollers Th α} (T : Tracked ls s q) (H : Runs resolve ls s)
    (h : s.lua.call o name = (L, .finish q₀)) (hp : s.queues.get q₀ = some p) :
    Tracked (ls ++ [.call o name (some (q₀, .post .finish rc))])
      { lua := L, queues := s.queues.modify q₀ fun _ => p' } q := by
  by_cases hqq : q₀ = q
  · subst hqq
    obtain ⟨hheld, hnot⟩ := not_held_of_finish
      (Q := s.queues.modify q₀ fun _ => p') H.inv.lua h
    obtain ⟨as, has⟩ := (H.postedInOrder q₀).2 hheld
    have hlost : q₀ ∉ failed ls := fun hmem => (T.lost hmem).1 hheld
    rw [tracked_iff, failed_snoc, accepted_snoc, has]
    cases rc with
    | ok => simp [hp, hlost, SysEvent.failedQueue, SysEvent.onQueue, Event.accepted]
    | error => simp [hp, hnot, SysEvent.failedQueue, SysEvent.onQueue, Event.accepted]
  · refine T.keep (by rw [Arena.modify_get_of_ne (Ne.symm hqq)]) ⟨H.inv.held_of_call h, ?_⟩
      (accepted_keep (by simp [SysEvent.onQueue, hqq])) ?_
    · rintro ⟨o', n, ho', hn⟩
      cases H.inv.lua.call_move h with
      | unload hn₀ _ hq₀ =>
        have hne : o' ≠ o := by
          rintro rfl
          rw [ho'] at hn₀; cases hn₀
          rw [hn] at hq₀; cases hq₀
          exact hqq rfl
        exact ⟨o', n, by rw [Arena.modify_get_of_ne hne]; exact ho', hn⟩
    · cases rc <;> simp [SysEvent.failedQueue, hqq]

theorem Step.tracked (H : Runs resolve ls s) (h : Step resolve s l s') (T : Tracked ls s q) :
    Tracked (ls ++ [l]) s' q := by
  have hmodify : ∀ {q₀ : Nat} {p : Pollers Th α},
      ((s.queues.modify q₀ fun _ => p).get q).isSome = (s.queues.get q).isSome := by
    intro q₀ p
    by_cases hq : q = q₀
    · subst hq; simp
    · rw [Arena.modify_get_of_ne hq]
  cases h with
  | load h =>
    obtain ⟨s₁, hs₁, hm⟩ := LuaState.loadFfi_move h
    exact T.load H hs₁.objs hm
  | idle h =>
    refine T.keep rfl ?_ (accepted_keep (by simp [SysEvent.onQueue]))
      (by simp [SysEvent.failedQueue])
    cases H.inv.lua.call_move h with
    | unchanged => exact .rfl
    | idle hn hv => exact Quiet.held_iff (.modify hn hv)
  | @post o name L q₀ p a rc p' h =>
    refine T.keep hmodify ?_ (accepted_keep ?_) (by simp [SysEvent.failedQueue])
    · cases H.inv.lua.call_move h with
      | post hn _ _ hv => exact Quiet.held_iff (.modify hn hv)
    · by_cases hq : q₀ = q <;> cases rc <;> simp [SysEvent.onQueue, Event.accepted, hq]
  | finish h hp => exact T.finish H h hp
  | @poll q₀ p e p' hp he =>
    refine T.keep hmodify .rfl (accepted_keep ?_) (by simp [SysEvent.failedQueue])
    by_cases hq : q₀ = q
    · cases e <;> simp_all [SysEvent.onQueue, Event.accepted, Event.isPost]
    · simp [SysEvent.onQueue, hq]
  | collect =>
    exact T.keep rfl .rfl (accepted_keep (by simp [SysEvent.onQueue]))
      (by simp [SysEvent.failedQueue])

theorem Runs.tracked (H : Runs resolve ls s) (q : Nat) : Tracked ls s q := by
  induction H with
  | nil => exact ⟨fun h => (nomatch h), fun h => (nomatch h), fun h => nomatch h⟩
  | snoc H h ih => exact h.tracked H ih

theorem Runs.accepted_of_freed {p : Pollers Th α} (H : Runs resolve ls s)
    (hp : s.queues.get q = some p) (hf : p.freed = true) : .finish ∈ accepted q ls := by
  obtain ⟨n, hr⟩ := H.queue_runs hp
  rw [← H.fifo hp]
  exact List.mem_append_left _ (hr.finish_taken (.inl hf))

/-- A queue that an object holds is the queue of a registered runtime. -/
theorem Runs.inState_held {p : Pollers Th α} (H : Runs resolve ls s) :
    InState ls s q p .held ↔ s.Held q := by
  constructor
  · rintro ⟨_, o, n, _, ho, _, hq⟩
    exact ⟨o, n, ho, hq⟩
  · rintro ⟨o, n, ho, hq⟩
    have hf : n.finished = false := by
      by_contra hf
      exact (H.inv.lua.cleared ho (by simpa using hf)).1 q hq
    obtain ⟨k, _, _, _, hreg, _⟩ := H.inv.lua.live ho hf
    exact ⟨k, o, n, hreg, ho, hf, hq⟩

/-- A runtime whose queue has the marker is gone. -/
theorem Runs.not_accepted_of_held (H : Runs resolve ls s) (hq : s.Held q) :
    .finish ∉ accepted q ls := by
  obtain ⟨as, has⟩ := (H.postedInOrder q).2 hq
  simp [has]

theorem Runs.not_queuesOwned (H : Runs resolve ls s) (hl : l ∈ ls) (hq : l.failedQueue = some q) :
    ¬ QueuesOwned ls s := by
  intro hown
  have hmem : q ∈ failed ls := List.mem_filterMap.mpr ⟨l, hl, hq⟩
  obtain ⟨hheld, hfin⟩ := (H.tracked q).lost hmem
  obtain ⟨p, hp⟩ := Option.isSome_iff_exists.mp ((H.tracked q).created hmem)
  obtain ⟨st, hst, _⟩ := hown q p hp
  cases st with
  | held => exact hheld (H.inState_held.mp hst)
  | finishing => exact hfin hst.1
  | freed => exact hfin (H.accepted_of_freed hp hst)

theorem Runs.existsUnique_inState {p : Pollers Th α} (H : Runs resolve ls s)
    (hp : s.queues.get q = some p) (hq : q ∉ failed ls) : ∃! st, InState ls s q p st := by
  rcases (H.tracked q).covered (by simp [hp]) with hheld | hfin | hmem
  · have hnot := H.not_accepted_of_held hheld
    refine ⟨.held, H.inState_held.mpr hheld, fun st hst => ?_⟩
    cases st with
    | held => rfl
    | finishing => exact (hnot hst.1).elim
    | freed => exact (hnot (H.accepted_of_freed hp hst)).elim
  · have hheld : ¬ InState ls s q p .held := by
      intro h
      exact H.not_accepted_of_held (H.inState_held.mp h) hfin
    cases hf : p.freed with
    | false =>
      refine ⟨.finishing, ⟨hfin, hf⟩, fun st hst => ?_⟩
      cases st with
      | held => exact (hheld hst).elim
      | finishing => rfl
      | freed => rw [InState, hf] at hst; cases hst
    | true =>
      refine ⟨.freed, hf, fun st hst => ?_⟩
      cases st with
      | held => exact (hheld hst).elim
      | finishing => have := hst.2; rw [hf] at this; cases this
      | freed => rfl
  · exact (hq hmem).elim

theorem Runs.failed_iff (H : Runs resolve ls s) :
    QueuesOwned ls s ↔ ∀ e ∈ ls, e.failedQueue = none := by
  constructor
  · intro hown e he
    cases hq : e.failedQueue with
    | none => rfl
    | some q => exact (H.not_queuesOwned he hq hown).elim
  · intro hno q p hp
    apply H.existsUnique_inState hp
    intro hmem
    obtain ⟨e, he, hq⟩ := List.mem_filterMap.mp hmem
    rw [hno e he] at hq
    cases hq

theorem Step.answered_iff (h : Step resolve s l s') :
    l.Answered s.lua ↔ l.failedQueue = none := by
  cases h with
  | load h => exact LuaState.answered_iff h
  | @finish _ _ _ _ _ rc => cases rc <;> simp [SysEvent.Answered, SysEvent.failedQueue]
  | idle | post | poll | collect => simp [SysEvent.Answered, SysEvent.failedQueue]

theorem Runs.answered_iff :
    Run (fun s l s' => Step resolve s l s' ∧ l.Answered s.lua) init ls s ↔
      Runs resolve ls s ∧ ∀ e ∈ ls, e.failedQueue = none :=
  Run.and_label_iff fun h => Step.answered_iff h

/-- **Queue ownership.** Every queue is in exactly one of its states as long as, behind the creation
of a queue, every library is found, has a `libffi_init` and accepts, and every marker is enqueued;
and never again after a step in which this fails. -/
theorem Runs.queuesOwned_iff (H : Runs resolve ls s) :
    QueuesOwned ls s ↔ Run (fun s l s' => Step resolve s l s' ∧ l.Answered s.lua) init ls s := by
  rw [H.failed_iff, Runs.answered_iff]
  exact (and_iff_right H).symm

theorem queuesOwned_reloadRun :
    ∃ s : System Unit LuaString Unit, Runs id reloadRun s ∧ QueuesOwned reloadRun s := by
  obtain ⟨s, H, _⟩ := reloadRun_runs
  refine ⟨s, H, (Runs.queuesOwned_iff H).mpr (Runs.answered_iff.mpr ⟨H, ?_⟩)⟩
  simp [reloadRun, SysEvent.failedQueue]

/-- `libffi_init` refuses the configuration, and nobody can finish the queue it was offered. -/
theorem refused_load_strands : ∃ s : System Unit LuaString Unit,
    Runs id [.load ⟨true, none, true, some 1⟩ (ascii "echo") none none
        (.refused (ascii "echo") 1) 0] s ∧
      ¬ QueuesOwned [.load ⟨true, none, true, some 1⟩ (ascii "echo") none none
        (.refused (ascii "echo") 1) 0] s := by
  have H := Run.nil.snoc (@Step.load Unit LuaString Unit _ id init ⟨true, none, true, some 1⟩
    (ascii "echo") none none _ _ rfl)
  exact ⟨_, H, Runs.not_queuesOwned H (.head _) rfl⟩

end System
end RestyFfi
