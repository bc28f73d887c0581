import RestyFfi.Lua.Unload

/-!
# Loading is idempotent

A key has at most one live runtime. `load_ffi` finds it, and an object that was unloaded long ago
cannot touch the runtime that has taken over its key: its own key is gone, and `__unload` and every
method stop at `finished`. The successful initialisations of a key and its effective unloads balance
up to the runtime that is registered (`Ledger`).
-/

namespace RestyFfi
open Transition

/-- The key and the object of a successful `load_ffi`, the only one that registers an object. -/
def SysEvent.loaded : SysEvent Th Lib α → Option (LuaString × Nat)
  | .load _ lib cfg _ (.loaded o _) _ => some (runtimeKey lib cfg, o)
  | _ => none

/-- The object of an effective unload, the only call that comes to `ngx_http_lua_ffi_task_finish`.
-/
def SysEvent.unloaded : SysEvent Th Lib α → Option Nat
  | .call o _ (some (_, .post .finish _)) => some o
  | _ => none

namespace LuaState
variable {Lib : Type} {resolve : LuaString → Lib} {s s' s₁ : LuaState Lib} {o q : Nat}
  {lib k : LuaString} {cfg : Option LuaString} {opts : Option Opts} {env : LoadEnv}
  {r : LoadResult Lib} {c : CCall}

theorem CallMove.init_eq (h : CallMove s o s' c) : s'.init = s.init := by
  cases h <;> rfl

theorem CallMove.registered_before {o' : Nat} (h : CallMove s o s' c)
    (hk : s'.runtimes k = some o') : s.runtimes k = some o' := by
  cases h with
  | unchanged | idle | post => exact hk
  | @unload n q k' n' =>
    by_cases hkk : k = k'
    · subst hkk; simp at hk
    · simpa only [Function.update_of_ne hkk] using hk

/-- `load_ffi` gets past its first part only once that part has succeeded. -/
theorem init_of_loadFfi (h : s.loadFfi resolve env q lib cfg opts = (s', r)) :
    r = .unavailable ∨ s'.init = true := by
  have hinit : (s.initialise resolve env).2 = true →
      (s.initialise resolve env).1.init = true := by
    unfold initialise
    split
    · rename_i hi; exact fun _ => hi
    split
    · exact fun _ => rfl
    split
    · exact fun h => nomatch h
    dsimp only
    split
    · exact fun h => nomatch h
    · exact fun _ => rfl
  unfold loadFfi at h
  rcases hi : s.initialise resolve env with ⟨s₁, ok⟩
  rw [hi] at hinit
  simp only [hi] at h
  cases ok with
  | false => cases h; exact .inl rfl
  | true =>
    have hs₁ := hinit rfl
    cases hk : s₁.runtimes (runtimeKey lib cfg) with
    | some o => simp only [hk] at h; cases h; exact .inr hs₁
    | none =>
      simp only [hk] at h
      split at h
      · cases h; exact .inr hs₁
      split at h
      · cases h; exact .inr hs₁
      split at h
      · cases h; exact .inr hs₁
      · cases h; exact .inr hs₁

/-- Once the module is initialised, `load_ffi` of a registered key returns the registered object. -/
theorem loadFfi_of_registered (hi : s.init = true)
    (hk : s.runtimes (runtimeKey lib cfg) = some o) :
    s.loadFfi resolve env q lib cfg opts = (s, .cached o) := by
  simp only [loadFfi, initialise, hi, if_true, hk]

end LuaState

namespace System
variable {Th Lib α : Type}

/-- The objects that `load_ffi` has created for the key `k`. -/
def objectsOf (k : LuaString) (ls : List (SysEvent Th Lib α)) : List Nat :=
  (ls.filterMap SysEvent.loaded).filterMap fun x => if x.1 = k then some x.2 else none

/-- The successful calls of `libffi_init` for the key `k`. -/
def inits (k : LuaString) (ls : List (SysEvent Th Lib α)) : Nat := (objectsOf k ls).length

/-- The effective unloads of runtimes of the key `k`. -/
def unloads (k : LuaString) (ls : List (SysEvent Th Lib α)) : Nat :=
  (ls.filterMap SysEvent.unloaded).countP (· ∈ objectsOf k ls)

/-- 1 if a runtime is registered under `k`. -/
def registered (s : System Th Lib α) (k : LuaString) : Nat :=
  if (s.lua.runtimes k).isSome then 1 else 0

variable {s s' : System Th Lib α} {l : SysEvent Th Lib α} {ls : List (SysEvent Th Lib α)}
  {k : LuaString} {o : Nat} {n : Nffi} {resolve : LuaString → Lib}

theorem objectsOf_snoc_of_none (hl : l.loaded = none) :
    objectsOf k (ls ++ [l]) = objectsOf k ls := by
  simp [objectsOf, hl]

theorem objectsOf_snoc_of_some {k' : LuaString} (hl : l.loaded = some (k', o)) :
    objectsOf k (ls ++ [l]) = objectsOf k ls ++ if k' = k then [o] else [] := by
  by_cases h : k' = k <;> simp [objectsOf, hl, h]

/-- What the history says about the objects and the registry. -/
structure Ledger (ls : List (SysEvent Th Lib α)) (s : System Th Lib α) : Prop where
  origin : ∀ {k o}, o ∈ objectsOf k ls →
    ∃ n, s.lua.objs.get o = some n ∧ (n.finished = false → n.key = .val k)
  live : ∀ {k o n}, s.lua.objs.get o = some n → n.finished = false → n.key = .val k →
    o ∈ objectsOf k ls
  unloaded_lt : ∀ {o}, o ∈ ls.filterMap SysEvent.unloaded → o < s.lua.objs.next
  balance : ∀ k, inits k ls = unloads k ls + s.registered k

/-- The objects hold the values they held, and the registry is the same. -/
structure Quiet (L L' : LuaState Lib) : Prop where
  runtimes : L'.runtimes = L.runtimes
  next : L'.objs.next = L.objs.next
  before : ∀ {o n'}, L'.objs.get o = some n' → ∃ n, L.objs.get o = some n ∧ n.SameVals n'
  after : ∀ {o n}, L.objs.get o = some n → ∃ n', L'.objs.get o = some n' ∧ n.SameVals n'

theorem Quiet.of_eq {L L' : LuaState Lib} (hr : L'.runtimes = L.runtimes) (ho : L'.objs = L.objs) :
    Quiet L L' where
  runtimes := hr
  next := by rw [ho]
  before h := ⟨_, by rw [← ho]; exact h, .refl _⟩
  after h := ⟨_, by rw [ho]; exact h, .refl _⟩

theorem Quiet.modify {L : LuaState Lib} {n' : Nffi} (hn : L.objs.get o = some n)
    (hv : n.SameVals n') : Quiet L { L with objs := L.objs.modify o fun _ => n' } where
  runtimes := rfl
  next := rfl
  before {o' m} h := by
    rcases Arena.modify_get_eq_some h with ⟨rfl, _, _, rfl⟩ | ⟨_, h⟩
    · exact ⟨n, hn, hv⟩
    · exact ⟨m, h, .refl m⟩
  after {o' m} h := by
    by_cases ho : o' = o
    · subst ho
      rw [hn] at h; cases h
      exact ⟨n', by simp [hn], hv⟩
    · exact ⟨m, by rw [Arena.modify_get_of_ne ho]; exact h, .refl m⟩

theorem Ledger.quiet (B : Ledger ls s) (hl : l.loaded = none) (hu : l.unloaded = none)
    (Q : Quiet s.lua s'.lua) : Ledger (ls ++ [l]) s' where
  origin {k o} ho := by
    rw [objectsOf_snoc_of_none hl] at ho
    obtain ⟨n, hn, hk⟩ := B.origin ho
    obtain ⟨n', hn', hv⟩ := Q.after hn
    exact ⟨n', hn', fun hf => hv.key.mpr (hk (hv.finished ▸ hf))⟩
  live {k o n'} hn' hf hk := by
    obtain ⟨n, hn, hv⟩ := Q.before hn'
    rw [objectsOf_snoc_of_none hl]
    exact B.live hn (hv.finished ▸ hf) (hv.key.mp hk)
  unloaded_lt {o} ho := by
    rw [Q.next]
    apply B.unloaded_lt
    simpa [hu] using ho
  balance k := by
    have h := B.balance k
    rw [inits, unloads, registered, objectsOf_snoc_of_none hl, Q.runtimes]
    simpa [hu, inits, unloads, registered] using h

/-- A new object has not been unloaded before. -/
theorem Ledger.unloads_load (B : Ledger ls s) {k' : LuaString}
    (hl : l.loaded = some (k, s.lua.objs.next)) (hu : l.unloaded = none) :
    unloads k' (ls ++ [l]) = unloads k' ls := by
  simp only [unloads, List.filterMap_append, List.filterMap_cons, hu, List.filterMap_nil,
    List.append_nil]
  refine List.countP_congr fun o hmem => ?_
  have hne := (B.unloaded_lt hmem).ne
  rw [objectsOf_snoc_of_some hl]
  split <;> simp [hne]

/-- An object that is not unloaded is one of its own key and of no other. -/
theorem Ledger.mem_objectsOf_iff (B : Ledger ls s) {k' : LuaString}
    (hn : s.lua.objs.get o = some n) (hf : n.finished = false) (hnk : n.key = .val k) :
    o ∈ objectsOf k' ls ↔ k' = k := by
  constructor
  · intro hmem
    obtain ⟨m, hm, hmk⟩ := B.origin hmem
    rw [hn] at hm; cases hm
    have hkk := hmk hf
    rw [hnk] at hkk; cases hkk
    rfl
  · rintro rfl
    exact B.live hn hf hnk

theorem Ledger.load (B : Ledger ls s) (hl : l.loaded = some (k, s.lua.objs.next))
    (hu : l.unloaded = none) (hk : s.lua.runtimes k = none)
    (hr : s'.lua.runtimes = Function.update s.lua.runtimes k (some s.lua.objs.next))
    (ho : s'.lua.objs = s.lua.objs.push n) (hn : n.finished = false) (hnk : n.key = .val k) :
    Ledger (ls ++ [l]) s' where
  origin {k' o} hmem := by
    rw [objectsOf_snoc_of_some hl, List.mem_append] at hmem
    rw [ho]
    rcases hmem with hmem | hmem
    · obtain ⟨m, hm, hmk⟩ := B.origin hmem
      exact ⟨m, Arena.push_get_of_some hm, hmk⟩
    · split at hmem
      · rename_i hkk
        subst hkk
        cases List.mem_singleton.mp hmem
        exact ⟨n, Arena.push_get_next, fun _ => hnk⟩
      · cases hmem
  live {k' o m} hm hf hmk := by
    rw [objectsOf_snoc_of_some hl, List.mem_append]
    rw [ho] at hm
    rcases Arena.push_get_eq_some hm with ⟨rfl, rfl⟩ | hm
    · rw [hnk] at hmk; cases hmk
      exact .inr (by simp)
    · exact .inl (B.live hm hf hmk)
  unloaded_lt {o} hmem := by
    have := B.unloaded_lt (o := o) (by simpa [hu] using hmem)
    rw [ho, Arena.push_next]
    omega
  balance k' := by
    have h := B.balance k'
    rw [B.unloads_load hl hu]
    simp only [inits, objectsOf_snoc_of_some hl, registered, hr, List.length_append] at h ⊢
    by_cases hkk : k' = k
    · subst hkk
      simp [hk] at h ⊢
      omega
    · simp [Function.update_of_ne hkk, Ne.symm hkk] at h ⊢
      omega

theorem Ledger.unload (B : Ledger ls s) (hl : l.loaded = none) (hu : l.unloaded = some o)
    {n' : Nffi} (hn : s.lua.objs.get o = some n) (hf : n.finished = false) (hnk : n.key = .val k)
    (hreg : s.lua.runtimes k = some o) (hf' : n'.finished = true)
    (hr : s'.lua.runtimes = Function.update s.lua.runtimes k none)
    (ho : s'.lua.objs = s.lua.objs.modify o fun _ => n') : Ledger (ls ++ [l]) s' where
  origin {k' o'} hmem := by
    rw [objectsOf_snoc_of_none hl] at hmem
    obtain ⟨m, hm, hmk⟩ := B.origin hmem
    rw [ho]
    by_cases hoo : o' = o
    · subst hoo
      exact ⟨n', by simp [hn], fun h => by rw [hf'] at h; cases h⟩
    · exact ⟨m, by rw [Arena.modify_get_of_ne hoo]; exact hm, hmk⟩
  live {k' o' m} hm hmf hmk := by
    rw [objectsOf_snoc_of_none hl]
    rw [ho] at hm
    rcases Arena.modify_get_eq_some hm with ⟨rfl, _, _, rfl⟩ | ⟨_, hm⟩
    · rw [hf'] at hmf; cases hmf
    · exact B.live hm hmf hmk
  unloaded_lt {o'} hmem := by
    rw [ho, Arena.modify_next]
    simp only [List.filterMap_append, List.filterMap_cons, hu, List.filterMap_nil,
      List.mem_append, List.mem_singleton] at hmem
    rcases hmem with hmem | rfl
    · exact B.unloaded_lt hmem
    · exact Arena.lt_next hn
  balance k' := by
    have h := B.balance k'
    have hmem : o ∈ objectsOf k' ls ↔ k' = k := B.mem_objectsOf_iff hn hf hnk
    simp only [inits, unloads, registered, objectsOf_snoc_of_none hl, hr, List.filterMap_append,
      List.filterMap_cons, hu, List.filterMap_nil, List.countP_append,
      List.countP_singleton, hmem] at h ⊢
    by_cases hkk : k' = k
    · subst hkk
      simp [hreg] at h ⊢
      omega
    · simp [hkk] at h ⊢
      omega

variable [DecidableEq Th]

theorem Step.ledger (I : s.Inv resolve) (h : Step resolve s l s') (B : Ledger ls s) :
    Ledger (ls ++ [l]) s' := by
  cases h with
  | @load env lib cfg opts L r h =>
    obtain ⟨s₁, H, hm⟩ := LuaState.loadFfi_move h
    cases hm with
    | unavailable | cached | notFound | noSymbol | refused =>
      exact B.quiet rfl rfl (.of_eq H.runtimes H.objs)
    | loaded hk =>
      rw [H.runtimes] at hk
      refine B.load (n := ⟨false, .val (runtimeKey lib cfg), .val s₁.handles.next,
        .val s.queues.next, []⟩) ?_ rfl hk ?_ ?_ rfl rfl
      · simp [SysEvent.loaded, H.objs]
      · simp [LuaState.register, LuaState.ffiLoad, H.runtimes, H.objs]
      · simp [LuaState.register, LuaState.ffiLoad, H.objs]
  | idle h =>
    cases I.lua.call_move h with
    | unchanged => exact B.quiet rfl rfl (.of_eq rfl rfl)
    | idle hn hv => exact B.quiet rfl rfl (.modify hn hv)
  | post h =>
    cases I.lua.call_move h with
    | post hn _ _ hv => exact B.quiet rfl rfl (.modify hn hv)
  | finish h =>
    cases I.lua.call_move h with
    | unload hn hf hq hk hf' =>
      obtain ⟨k', _, _, hk', hreg, _⟩ := I.lua.live hn hf
      rw [hk] at hk'; cases hk'
      exact B.unload rfl rfl hn hf hk hreg hf' rfl rfl
  | poll | collect => exact B.quiet rfl rfl (.of_eq rfl rfl)

theorem Runs.ledger (H : Runs resolve ls s) : Ledger ls s := by
  induction H with
  | nil =>
    exact ⟨fun h => (nomatch h), fun h => (nomatch h), fun h => (nomatch h), fun _ => rfl⟩
  | snoc H h ih => exact h.ledger (Runs.inv H) ih

theorem Runs.init_of_registered (H : Runs resolve ls s) (hk : s.lua.runtimes k = some o) :
    s.lua.init = true := by
  induction H generalizing k o with
  | nil => cases hk
  | @snoc _ t _ _ H h ih =>
    cases h with
    | load h =>
      rcases LuaState.init_of_loadFfi h with rfl | hi
      · obtain ⟨s₁, hs₁, hm⟩ := LuaState.loadFfi_move h
        cases hm
        rw [hs₁.runtimes] at hk
        exact hs₁.init (ih hk)
      · exact hi
    | idle h | post h | finish h =>
      have hm := (Runs.inv H).lua.call_move h
      rw [hm.init_eq]
      exact ih (hm.registered_before hk)
    | poll | collect => exact ih hk

/-- What `README.md` calls idempotent: the registry in a reachable state, and the two operations
that must leave it alone. -/
structure Idempotent (resolve : LuaString → Lib) (ls : List (SysEvent Th Lib α))
    (s : System Th Lib α) : Prop where
  /-- A registered object is unfinished, under its own key, and its queue has no marker. -/
  registered : ∀ {k o}, s.lua.runtimes k = some o → ∃ n q, s.lua.objs.get o = some n ∧
    n.finished = false ∧ n.key = .val k ∧ n.tq = .val q ∧ .finish ∉ accepted q ls
  /-- An unfinished object is the one registered under its key. -/
  live : ∀ {o n}, s.lua.objs.get o = some n → n.finished = false →
    ∃ k, n.key = .val k ∧ s.lua.runtimes k = some o
  one : ∀ {k o o' n n'}, s.lua.objs.get o = some n → s.lua.objs.get o' = some n' →
    n.finished = false → n'.finished = false → n.key = .val k → n'.key = .val k → o = o'
  /-- A load of a registered key changes nothing; it ends before the queue is created. -/
  cached : ∀ {env lib cfg opts r q o s'}, s.lua.runtimes (runtimeKey lib cfg) = some o →
    Step resolve s (.load env lib cfg opts r q) s' → r = .cached o ∧ s' = s
  balance : ∀ k, (inits k ls : Int) - unloads k ls = if (s.lua.runtimes k).isSome then 1 else 0
  /-- A call on a finished object, `__unload` or any method, reaches no queue. -/
  finished : ∀ {o n name c s'}, s.lua.objs.get o = some n → n.finished = true →
    Step resolve s (.call o name c) s' →
    c = none ∧ s'.lua.runtimes = s.lua.runtimes ∧ s'.queues = s.queues

/-- **The registry invariant**, in every reachable state. -/
theorem Runs.idempotent (H : Runs resolve ls s) : Idempotent resolve ls s where
  registered {k o} hk := by
    obtain ⟨n, hn, hf, hkey⟩ := H.inv.lua.registered hk
    obtain ⟨_, _, q, _, _, _, hq⟩ := H.inv.lua.live hn hf
    obtain ⟨as, has⟩ := (H.postedInOrder q).2 ⟨o, n, hn, hq⟩
    exact ⟨n, q, hn, hf, hkey, hq, by simp [has]⟩
  live hn hf := by
    obtain ⟨k, _, _, hk, hreg, _⟩ := H.inv.lua.live hn hf
    exact ⟨k, hk, hreg⟩
  one hn hn' hf hf' hk hk' := by
    obtain ⟨_, _, _, hj, hreg, _⟩ := H.inv.lua.live hn hf
    obtain ⟨_, _, _, hj', hreg', _⟩ := H.inv.lua.live hn' hf'
    rw [hk] at hj; cases hj
    rw [hk'] at hj'; cases hj'
    rw [hreg] at hreg'; cases hreg'
    rfl
  cached {env lib cfg opts r q o s'} hk h := by
    cases h with
    | load h =>
      rw [LuaState.loadFfi_of_registered (H.init_of_registered hk) hk] at h
      cases h
      exact ⟨rfl, rfl⟩
  balance k := by
    have := H.ledger.balance k
    rw [System.registered] at this
    split at this <;> simp_all
  finished {o n name c s'} hn hf h := by
    cases h with
    | idle h =>
      cases H.inv.lua.call_move h with
      | unchanged => exact ⟨rfl, rfl, rfl⟩
      | idle => exact ⟨rfl, rfl, rfl⟩
    | post h =>
      cases H.inv.lua.call_move h with
      | post hn' hf' => rw [hn] at hn'; cases hn'; rw [hf] at hf'; cases hf'
    | finish h =>
      cases H.inv.lua.call_move h with
      | unload hn' hf' => rw [hn] at hn'; cases hn'; rw [hf] at hf'; cases hf'

/-- A runtime is unloaded, its key is loaded again, and the old object is unloaded once more. -/
def reloadRun : List (SysEvent Unit LuaString Unit) :=
  [.load .ok (ascii "echo") none none (.loaded 0 (ascii "echo")) 0,
    .call 0 (some .unload) (some (0, .post .finish .ok)),
    .load .ok (ascii "echo") none none (.loaded 1 (ascii "echo")) 1, .call 0 (some .unload) none]

theorem reloadRun_runs : ∃ s : System Unit LuaString Unit, Runs id reloadRun s ∧
    s.lua.runtimes (ascii "echo") = some 1 := by
  have H₁ := Run.nil.snoc (@Step.load Unit LuaString Unit _ id init .ok
    (ascii "echo") none none _ _ rfl)
  have H₂ := H₁.snoc (@Step.finish Unit LuaString Unit _ id _ 0 (some .unload) _ 0 _ _ _ rfl rfl
    (@Pollers.Step.post Unit Unit _ _ ∅ .finish {} ⟨by simp, fun ⟨_, h⟩ => nomatch h⟩))
  have H₃ := H₂.snoc (@Step.load Unit LuaString Unit _ id _ .ok
    (ascii "echo") none none _ _ rfl)
  have H₄ := H₃.snoc (@Step.idle Unit LuaString Unit _ id _ 0 (some .unload) _ rfl)
  exact ⟨_, H₄, rfl⟩

/-- The old object has not taken the new runtime with it. -/
theorem idempotent_reloadRun : ∃ s : System Unit LuaString Unit, Runs id reloadRun s ∧
    s.lua.runtimes (ascii "echo") = some 1 ∧
    (inits (ascii "echo") reloadRun : Int) - unloads (ascii "echo") reloadRun = 1 := by
  obtain ⟨s, H, hs⟩ := reloadRun_runs
  have hbalance := (Runs.idempotent H).balance (ascii "echo")
  rw [hs] at hbalance
  exact ⟨s, H, hs, hbalance⟩

end System
end RestyFfi
