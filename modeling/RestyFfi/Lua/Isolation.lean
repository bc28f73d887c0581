import RestyFfi.Lua.Ledger

/-!
# One configuration, one runtime

The registry knows a runtime by the text `lib&cfg`, or `lib` if there is no configuration. Two
pairs of a library and a configuration can have the same text only if one of the libraries has a
`&` in its name (`runtimeKey_eq_iff`). Then the second of two loads is given the runtime of the
first, with a library and a configuration that it did not ask for. This is all that can go wrong:
the runtimes are isolated in every run in which no load meets a live runtime of another pair with
the same text (`Unambiguous`).
-/

namespace RestyFfi
open Transition

/-- `&`, which separates the library and the configuration in a key. -/
def ampersand : UInt8 := 38

variable {lib lib' : LuaString} {cfg cfg' : Option LuaString}

theorem runtimeKey_append (x : LuaString) :
    runtimeKey (lib ++ ampersand :: x) cfg = lib ++ ampersand :: runtimeKey x cfg := by
  cases cfg <;> simp [runtimeKey]

/-- The first `&` at which two equal keys are cut differently belongs to one of the libraries. -/
theorem exists_of_key_append_eq {c : LuaString} (h : lib ++ ampersand :: c = runtimeKey lib' cfg') :
    (lib = lib' ∧ cfg' = some c) ∨ (∃ x, lib' = lib ++ ampersand :: x ∧ c = runtimeKey x cfg') ∨
      ∃ x, lib = lib' ++ ampersand :: x ∧ cfg' = some (runtimeKey x (some c)) := by
  cases cfg' with
  | none => exact .inr (.inl ⟨c, h.symm, rfl⟩)
  | some c' =>
    rcases List.append_eq_append_iff.mp h with ⟨a, rfl, ha⟩ | ⟨a, rfl, ha⟩
    · cases a with
      | nil =>
        cases ha
        exact .inl ⟨by simp, rfl⟩
      | cons b x =>
        cases ha
        exact .inr (.inl ⟨x, rfl, rfl⟩)
    · cases a with
      | nil =>
        cases ha
        exact .inl ⟨by simp, rfl⟩
      | cons b x =>
        cases ha
        exact .inr (.inr ⟨x, rfl, rfl⟩)

/-- The pairs with the same key. -/
theorem runtimeKey_eq_iff :
    runtimeKey lib cfg = runtimeKey lib' cfg' ↔ (lib = lib' ∧ cfg = cfg') ∨
      (∃ x, lib' = lib ++ ampersand :: x ∧ cfg = some (runtimeKey x cfg')) ∨
      ∃ x, lib = lib' ++ ampersand :: x ∧ cfg' = some (runtimeKey x cfg) := by
  constructor
  · intro h
    cases cfg with
    | some c =>
      rcases exists_of_key_append_eq h with ⟨rfl, rfl⟩ | ⟨x, hx, rfl⟩ | hx
      · exact .inl ⟨rfl, rfl⟩
      · exact .inr (.inl ⟨x, hx, rfl⟩)
      · exact .inr (.inr hx)
    | none =>
      cases cfg' with
      | none => exact .inl ⟨h, rfl⟩
      | some c' => exact .inr (.inr ⟨c', h, rfl⟩)
  · rintro (⟨rfl, rfl⟩ | ⟨x, rfl, rfl⟩ | ⟨x, rfl, rfl⟩)
    · rfl
    · rw [runtimeKey_append]
      rfl
    · rw [runtimeKey_append]
      rfl

theorem runtimeKey_inj (h : ampersand ∉ lib) (h' : ampersand ∉ lib')
    (hk : runtimeKey lib cfg = runtimeKey lib' cfg') : lib = lib' ∧ cfg = cfg' := by
  rcases runtimeKey_eq_iff.mp hk with heq | ⟨x, rfl, _⟩ | ⟨x, rfl, _⟩
  · exact heq
  · simp at h'
  · simp at h

/-- A call `nffi.handle.libffi_init(buf, tq)` in a library that was loaded as `lib`. -/
structure InitCall where
  lib : LuaString
  buf : Option LuaString
  tq : Nat

/-- `buf`: `ffi.copy` writes the string and a NUL. -/
def cfgBuf (cfg : Option LuaString) : Option LuaString := cfg.map (· ++ [0])

theorem cfgBuf_inj {cfg cfg' : Option LuaString} (h : cfgBuf cfg = cfgBuf cfg') : cfg = cfg' := by
  refine Option.map_injective (fun s t hst => ?_) h
  exact List.append_cancel_right hst

def SysEvent.initCall : SysEvent Th Lib α → Option InitCall
  | .load _ lib cfg _ (.refused ..) q => some ⟨lib, cfgBuf cfg, q⟩
  | .load _ lib cfg _ (.loaded ..) q => some ⟨lib, cfgBuf cfg, q⟩
  | _ => none

/-- The library of a load. -/
def SysEvent.loadedLib : SysEvent Th Lib α → Option LuaString
  | .load _ lib .. => some lib
  | _ => none

/-- `load_ffi(lib, cfg)` with the object that it returns. -/
structure Obtained where
  lib : LuaString
  cfg : Option LuaString
  obj : Nat

def SysEvent.obtained : SysEvent Th Lib α → Option Obtained
  | .load _ lib cfg _ (.cached o) _ => some ⟨lib, cfg, o⟩
  | .load _ lib cfg _ (.loaded o _) _ => some ⟨lib, cfg, o⟩
  | _ => none

/-- The same for an object that is new. -/
def SysEvent.created : SysEvent Th Lib α → Option Obtained
  | .load _ lib cfg _ (.loaded o _) _ => some ⟨lib, cfg, o⟩
  | _ => none

/-- A call changes no object but its own. -/
theorem LuaState.CallMove.objs_of_ne {Lib : Type} {s s' : LuaState Lib} {o o' : Nat} {c : CCall}
    (h : CallMove s o s' c) (ho : o' ≠ o) : s'.objs.get o' = s.objs.get o' := by
  cases h with
  | unchanged => rfl
  | idle | post | unload => exact Arena.modify_get_of_ne ho

namespace System
variable {Th Lib α : Type}

def initCalls (ls : List (SysEvent Th Lib α)) : List InitCall := ls.filterMap SysEvent.initCall

def obtained (ls : List (SysEvent Th Lib α)) : List Obtained := ls.filterMap SysEvent.obtained

def created (ls : List (SysEvent Th Lib α)) : List Obtained := ls.filterMap SysEvent.created

/-- The objects whose `__unload` was effective. -/
def unloaded (ls : List (SysEvent Th Lib α)) : List Nat := ls.filterMap SysEvent.unloaded

/-- `n` is an unfinished runtime that was obtained as `x`. -/
structure Live (ls : List (SysEvent Th Lib α)) (s : System Th Lib α) (x : Obtained) (n : Nffi) :
    Prop where
  obtained : x ∈ obtained ls
  get : s.lua.objs.get x.obj = some n
  unfinished : n.finished = false

section
variable [DecidableEq Th]

/-- The isolation of the runtimes in a state. -/
structure Isolated (resolve : LuaString → Lib) (ls : List (SysEvent Th Lib α))
    (s : System Th Lib α) : Prop where
  /-- The object that a call has just returned has a queue that was passed to a `libffi_init` of the
  same library with the same configuration. -/
  own : ∀ {x}, ls.getLast?.bind SysEvent.obtained = some x → ∃ n q,
    s.lua.objs.get x.obj = some n ∧ n.tq = .val q ∧ ⟨x.lib, cfgBuf x.cfg, q⟩ ∈ initCalls ls
  /-- Unfinished runtimes that were obtained with different pairs have nothing in common, -/
  apart : ∀ {x y n m}, Live ls s x n → Live ls s y m → ¬ (x.lib = y.lib ∧ x.cfg = y.cfg) →
    x.obj ≠ y.obj ∧ ∃ q q', n.tq = .val q ∧ m.tq = .val q' ∧ q ≠ q'
  /-- and one stays registered when the other is unloaded. -/
  unload : ∀ {x y n m c s'}, Live ls s x n → Live ls s y m → ¬ (x.lib = y.lib ∧ x.cfg = y.cfg) →
    Step resolve s (.call x.obj (some .unload) c) s' →
    s'.lua.runtimes (runtimeKey y.lib y.cfg) = some y.obj

/-- No load meets a live runtime of another pair with the same key. -/
def Unambiguous (ls : List (SysEvent Th Lib α)) : Prop :=
  ∀ {ls₁ env lib cfg opts r q}, ls₁ ++ [.load env lib cfg opts r q] <+: ls →
    ∀ x ∈ created ls₁, x.obj ∉ unloaded ls₁ →
      runtimeKey x.lib x.cfg = runtimeKey lib cfg → x.lib = lib ∧ x.cfg = cfg

end

variable {s s' : System Th Lib α} {l : SysEvent Th Lib α} {ls : List (SysEvent Th Lib α)}
  {x y : Obtained} {o q : Nat} {n : Nffi} {k : LuaString} {resolve : LuaString → Lib}

/-! ## Where a runtime comes from -/

/-- The object `n` was created as `x` and still has its key and its queue. -/
def Serves (ls : List (SysEvent Th Lib α)) (n : Nffi) (x : Obtained) : Prop :=
  x ∈ created ls ∧ n.key = .val (runtimeKey x.lib x.cfg) ∧
    ∃ q, n.tq = .val q ∧ ⟨x.lib, cfgBuf x.cfg, q⟩ ∈ initCalls ls

/-- What the history says about the objects: an object is unfinished exactly as long as it is not
unloaded. -/
structure Origin (ls : List (SysEvent Th Lib α)) (s : System Th Lib α) : Prop where
  objs : Arena.Numbered Obtained.obj (created ls) s.lua.objs.next
  inits : Arena.Numbered InitCall.tq (initCalls ls) s.queues.next
  serves : ∀ {o n}, s.lua.objs.get o = some n → n.finished = false →
    o ∉ unloaded ls ∧ ∃ x, x.obj = o ∧ Serves ls n x
  live : ∀ {x}, x ∈ created ls → x.obj ∉ unloaded ls →
    ∃ n, s.lua.objs.get x.obj = some n ∧ n.finished = false

theorem created_append (ks : List (SysEvent Th Lib α)) :
    created (ls ++ ks) = created ls ++ created ks := List.filterMap_append

theorem initCalls_append (ks : List (SysEvent Th Lib α)) :
    initCalls (ls ++ ks) = initCalls ls ++ initCalls ks := List.filterMap_append

theorem obtained_append (ks : List (SysEvent Th Lib α)) :
    obtained (ls ++ ks) = obtained ls ++ obtained ks := List.filterMap_append

theorem Serves.snoc (h : Serves ls n x) : Serves (ls ++ [l]) n x := by
  obtain ⟨hx, hk, q, hq, hc⟩ := h
  refine ⟨?_, hk, q, hq, ?_⟩
  · rw [created_append]
    exact List.mem_append_left _ hx
  · rw [initCalls_append]
    exact List.mem_append_left _ hc

theorem Serves.sameVals {n' : Nffi} (h : Serves ls n x) (hv : n.SameVals n') : Serves ls n' x := by
  obtain ⟨hx, hk, q, hq, hc⟩ := h
  exact ⟨hx, hv.key.mpr hk, q, hv.tq.mpr hq, hc⟩

theorem Origin.inits_keep (O : Origin ls s) (hi : l.initCall = none)
    (hq : s.queues.next ≤ s'.queues.next) :
    Arena.Numbered InitCall.tq (initCalls (ls ++ [l])) s'.queues.next := by
  have hinit : initCalls (ls ++ [l]) = initCalls ls := by simp [initCalls, hi]
  rw [hinit]
  exact O.inits.mono hq

/-- A step that creates and unloads no object. -/
theorem Origin.quiet (O : Origin ls s) (hc : l.created = none) (hu : l.unloaded = none)
    (hi : Arena.Numbered InitCall.tq (initCalls (ls ++ [l])) s'.queues.next)
    (Q : Quiet s.lua s'.lua) : Origin (ls ++ [l]) s' := by
  have hcreated : created (ls ++ [l]) = created ls := by simp [created, hc]
  have hunloaded : unloaded (ls ++ [l]) = unloaded ls := by simp [unloaded, hu]
  refine ⟨?_, hi, fun {o n'} hn' hf => ?_, fun {x} hx hxu => ?_⟩
  · rw [hcreated, Q.next]
    exact O.objs
  · obtain ⟨n, hn, hv⟩ := Q.before hn'
    obtain ⟨hnu, x, hx, hs⟩ := O.serves hn (hv.finished ▸ hf)
    exact ⟨by rwa [hunloaded], x, hx, (hs.sameVals hv).snoc⟩
  · rw [hcreated] at hx
    rw [hunloaded] at hxu
    obtain ⟨n, hn, hf⟩ := O.live hx hxu
    obtain ⟨n', hn', hv⟩ := Q.after hn
    exact ⟨n', hn', hv.finished ▸ hf⟩

/-- A load that registers a new object. -/
theorem Origin.load {lib : LuaString} {cfg : Option LuaString} (O : Origin ls s) (L : Ledger ls s)
    (hc : l.created = some ⟨lib, cfg, s.lua.objs.next⟩) (hu : l.unloaded = none)
    (hi : l.initCall = some ⟨lib, cfgBuf cfg, s.queues.next⟩)
    (ho : s'.lua.objs = s.lua.objs.push n) (hq : s'.queues.next = s.queues.next + 1)
    (hn : n.key = .val (runtimeKey lib cfg)) (hnq : n.tq = .val s.queues.next)
    (hf : n.finished = false) : Origin (ls ++ [l]) s' := by
  have hcreated : created (ls ++ [l]) = created ls ++ [⟨lib, cfg, s.lua.objs.next⟩] := by
    simp [created, hc]
  have hunloaded : unloaded (ls ++ [l]) = unloaded ls := by simp [unloaded, hu]
  have hinit : initCalls (ls ++ [l]) = initCalls ls ++ [⟨lib, cfgBuf cfg, s.queues.next⟩] := by
    simp [initCalls, hi]
  refine ⟨?_, ?_, fun {o m} hm hmf => ?_, fun {x} hx hxu => ?_⟩
  · rw [hcreated, ho]
    exact O.objs.snoc rfl
  · rw [hinit, hq]
    exact O.inits.snoc rfl
  · rw [ho] at hm
    rw [hunloaded]
    rcases Arena.push_get_eq_some hm with ⟨rfl, rfl⟩ | hm
    · refine ⟨fun hmem => (L.unloaded_lt hmem).ne rfl, ⟨lib, cfg, _⟩, rfl, ?_, hn, _, hnq, ?_⟩
      · rw [hcreated]
        simp
      · rw [hinit]
        simp
    · obtain ⟨hnu, x, hx, hs⟩ := O.serves hm hmf
      exact ⟨hnu, x, hx, hs.snoc⟩
  · rw [hcreated, List.mem_append] at hx
    rw [hunloaded] at hxu
    rw [ho]
    rcases hx with hx | hx
    · obtain ⟨m, hm, hmf⟩ := O.live hx hxu
      exact ⟨m, Arena.push_get_of_some hm, hmf⟩
    · cases List.mem_singleton.mp hx
      exact ⟨n, Arena.push_get_next, hf⟩

theorem Origin.unload {n' : Nffi} (O : Origin ls s) (hc : l.created = none)
    (hu : l.unloaded = some o) (hi : l.initCall = none) (hf' : n'.finished = true)
    (ho : s'.lua.objs = s.lua.objs.modify o fun _ => n') (hq : s'.queues.next = s.queues.next) :
    Origin (ls ++ [l]) s' := by
  have hcreated : created (ls ++ [l]) = created ls := by simp [created, hc]
  have hunloaded : unloaded (ls ++ [l]) = unloaded ls ++ [o] := by simp [unloaded, hu]
  have hinit : initCalls (ls ++ [l]) = initCalls ls := by simp [initCalls, hi]
  refine ⟨?_, ?_, fun {o' m} hm hmf => ?_, fun {x} hx hxu => ?_⟩
  · rw [hcreated, ho]
    exact O.objs
  · rw [hinit, hq]
    exact O.inits
  · rw [ho] at hm
    rcases Arena.modify_get_eq_some hm with ⟨rfl, _, _, rfl⟩ | ⟨hne, hm⟩
    · rw [hf'] at hmf
      cases hmf
    · obtain ⟨hnu, x, hx, hs⟩ := O.serves hm hmf
      exact ⟨by simp [hunloaded, hnu, hne], x, hx, hs.snoc⟩
  · rw [hcreated] at hx
    simp only [hunloaded, List.mem_append, List.mem_singleton, not_or] at hxu
    rw [ho, Arena.modify_get_of_ne hxu.2]
    exact O.live hx hxu.1

variable [DecidableEq Th]

theorem Step.origin (H : Runs resolve ls s) (h : Step resolve s l s') (O : Origin ls s) :
    Origin (ls ++ [l]) s' := by
  cases h with
  | @load env lib cfg opts L r h =>
    obtain ⟨s₁, I, hm⟩ := LuaState.loadFfi_move h
    cases hm with
    | unavailable | cached =>
      exact O.quiet rfl rfl (O.inits_keep rfl (Nat.le_refl _)) (.of_eq I.runtimes I.objs)
    | notFound | noSymbol =>
      exact O.quiet rfl rfl (O.inits_keep rfl (Nat.le_succ _)) (.of_eq I.runtimes I.objs)
    | refused =>
      refine O.quiet rfl rfl ?_ (.of_eq I.runtimes I.objs)
      rw [initCalls_append]
      exact O.inits.snoc rfl
    | loaded =>
      refine O.load H.ledger (n := ⟨false, .val (runtimeKey lib cfg), .val s₁.handles.next,
        .val s.queues.next, []⟩) ?_ rfl rfl ?_ rfl rfl rfl rfl
      · simp [SysEvent.created, I.objs]
      · simp [LuaState.register, LuaState.ffiLoad, I.objs]
  | idle h =>
    cases H.inv.lua.call_move h with
    | unchanged => exact O.quiet rfl rfl (O.inits_keep rfl (Nat.le_refl _)) (.of_eq rfl rfl)
    | idle hn hv => exact O.quiet rfl rfl (O.inits_keep rfl (Nat.le_refl _)) (.modify hn hv)
  | post h =>
    cases H.inv.lua.call_move h with
    | post hn _ _ hv => exact O.quiet rfl rfl (O.inits_keep rfl (Nat.le_refl _)) (.modify hn hv)
  | finish h =>
    cases H.inv.lua.call_move h with
    | unload hn hf hq hk hf' => exact O.unload rfl rfl rfl hf' rfl rfl
  | poll | collect => exact O.quiet rfl rfl (O.inits_keep rfl (Nat.le_refl _)) (.of_eq rfl rfl)

theorem Runs.origin (H : Runs resolve ls s) : Origin ls s := by
  induction H with
  | nil => exact ⟨.nil, .nil, fun h => (nomatch h), fun h => (nomatch h)⟩
  | snoc H h ih => exact h.origin H ih

theorem Step.objs_of_ne {o' : Nat} {name : Option FieldName} {c : Option (Nat × Event Th α)}
    (I : s.Inv resolve) (h : Step resolve s (.call o name c) s') (ho : o' ≠ o) :
    s'.lua.objs.get o' = s.lua.objs.get o' := by
  cases h with
  | idle h | post h | finish h => exact (I.lua.call_move h).objs_of_ne ho

/-! ## What is obtained with a pair serves this pair -/

theorem Runs.exists_registered (H : Runs resolve ls s) (hk : s.lua.runtimes k = some o) :
    ∃ n x, s.lua.objs.get o = some n ∧ n.finished = false ∧ o ∉ unloaded ls ∧ x.obj = o ∧
      runtimeKey x.lib x.cfg = k ∧ Serves ls n x := by
  obtain ⟨n, hn, hf, hkey⟩ := H.inv.lua.registered hk
  obtain ⟨hu, x, hx, hs⟩ := H.origin.serves hn hf
  rw [hs.2.1] at hkey
  cases hkey
  exact ⟨n, x, hn, hf, hu, hx, rfl, hs⟩

/-- What a call returns is unfinished. -/
theorem Step.obtained_live (H : Runs resolve ls s) (h : Step resolve s l s')
    (hl : l.obtained = some x) : ∃ n, s'.lua.objs.get x.obj = some n ∧ n.finished = false := by
  cases h with
  | @load env lib cfg opts L r h =>
    obtain ⟨s₁, I, hm⟩ := LuaState.loadFfi_move h
    cases hm with
    | unavailable | notFound | noSymbol | refused => cases hl
    | cached hk =>
      cases hl
      rw [I.runtimes] at hk
      obtain ⟨n, _, hn, hf, _⟩ := H.exists_registered hk
      exact ⟨n, by rw [I.objs]; exact hn, hf⟩
    | loaded =>
      cases hl
      exact ⟨_, Arena.push_get_next, rfl⟩
  | idle | post | finish | poll | collect => cases hl

theorem Step.created_of_obtained (H : Runs resolve ls s) (U : Unambiguous (ls ++ [l]))
    (h : Step resolve s l s') (hl : l.obtained = some x) : x ∈ created (ls ++ [l]) := by
  rw [created_append]
  cases h with
  | @load env lib cfg opts L r h =>
    obtain ⟨s₁, I, hm⟩ := LuaState.loadFfi_move h
    cases hm with
    | unavailable | notFound | noSymbol | refused => cases hl
    | cached hk =>
      cases hl
      rw [I.runtimes] at hk
      obtain ⟨_, y, _, _, hu, rfl, hkey, hy, _⟩ := H.exists_registered hk
      obtain ⟨rfl, rfl⟩ := U List.prefix_rfl y hy hu hkey
      exact List.mem_append_left _ hy
    | loaded =>
      cases hl
      exact List.mem_append_right _ (List.mem_singleton.mpr rfl)
  | idle | post | finish | poll | collect => cases hl

omit [DecidableEq Th] in
theorem Unambiguous.of_prefix {ks : List (SysEvent Th Lib α)} (U : Unambiguous ls)
    (h : ks <+: ls) : Unambiguous ks :=
  fun hp => U (hp.trans h)

theorem Runs.created_of_obtained (H : Runs resolve ls s) (U : Unambiguous ls)
    (hx : x ∈ obtained ls) : x ∈ created ls := by
  induction H with
  | nil => cases hx
  | @snoc ls t l u H h ih =>
    rw [obtained_append, List.mem_append] at hx
    rcases hx with hx | hx
    · rw [created_append]
      exact List.mem_append_left _ (ih (U.of_prefix (List.prefix_append ..)) hx)
    · obtain ⟨l', hl', hx⟩ := List.mem_filterMap.mp hx
      cases List.mem_singleton.mp hl'
      exact h.created_of_obtained H U hx

theorem Runs.serves (H : Runs resolve ls s) (U : Unambiguous ls) (hx : Live ls s x n) :
    Serves ls n x := by
  obtain ⟨_, y, hy, hs⟩ := H.origin.serves hx.get hx.unfinished
  cases H.origin.objs.inj hs.1 (H.created_of_obtained U hx.obtained) hy
  exact hs

/-! ## Isolation -/

theorem Serves.queue_inj {z : Obtained} (H : Runs resolve ls s) (h : Serves ls n x)
    (hq : n.tq = .val q) (hz : ⟨z.lib, cfgBuf z.cfg, q⟩ ∈ initCalls ls) :
    x.lib = z.lib ∧ x.cfg = z.cfg := by
  obtain ⟨_, _, q', hq', hc⟩ := h
  rw [hq] at hq'
  cases hq'
  have heq := H.origin.inits.inj hc hz rfl
  exact ⟨congrArg InitCall.lib heq, cfgBuf_inj (congrArg InitCall.buf heq)⟩

theorem Runs.own (H : Runs resolve ls s) (U : Unambiguous ls)
    (hx : ls.getLast?.bind SysEvent.obtained = some x) : ∃ n q,
      s.lua.objs.get x.obj = some n ∧ n.tq = .val q ∧ ⟨x.lib, cfgBuf x.cfg, q⟩ ∈ initCalls ls := by
  cases H with
  | nil => cases hx
  | @snoc ls t l _ H h =>
    rw [List.getLast?_concat, Option.bind_some] at hx
    obtain ⟨n, hn, hf⟩ := h.obtained_live H hx
    have hmem : x ∈ obtained (ls ++ [l]) := by
      rw [obtained_append]
      exact List.mem_append_right _ (List.mem_filterMap.mpr ⟨l, List.mem_singleton.mpr rfl, hx⟩)
    obtain ⟨_, _, q, hq, hc⟩ := Runs.serves (H.snoc h) U ⟨hmem, hn, hf⟩
    exact ⟨n, q, hn, hq, hc⟩

theorem Runs.isolated (H : Runs resolve ls s) (U : Unambiguous ls) : Isolated resolve ls s := by
  have obj_ne : ∀ {x y n m}, Live ls s x n → Live ls s y m → ¬ (x.lib = y.lib ∧ x.cfg = y.cfg) →
      x.obj ≠ y.obj := by
    intro x y n m hx hy hne hxy
    cases H.origin.objs.inj (H.serves U hx).1 (H.serves U hy).1 hxy
    exact hne ⟨rfl, rfl⟩
  refine ⟨H.own U, fun {x y n m} hx hy hne => ?_, fun {x y n m c s'} hx hy hne h => ?_⟩
  · obtain ⟨_, _, q, hq, _⟩ := H.serves U hx
    obtain ⟨_, _, q', hq', _⟩ := H.serves U hy
    refine ⟨obj_ne hx hy hne, q, q', hq, hq', ?_⟩
    rintro rfl
    exact obj_ne hx hy hne (H.inv.lua.tq_unique hx.get hy.get hq hq')
  · -- the other object is the same behind the call, so it is registered
    have hm : s'.lua.objs.get y.obj = some m := by
      rw [← hy.get]
      exact h.objs_of_ne H.inv (obj_ne hx hy hne).symm
    obtain ⟨k, _, _, hk, hreg, _⟩ := (h.inv H.inv).lua.live hm hy.unfinished
    rw [(H.serves U hy).2.1] at hk
    cases hk
    exact hreg

/-- The load of a key that a live runtime of another pair has is answered by that runtime. -/
theorem Runs.unambiguous_of_own {env : LoadEnv} {lib : LuaString} {cfg : Option LuaString}
    {opts : Option Opts} {r : LoadResult Lib} (H : Runs resolve ls s)
    (h : Step resolve s (.load env lib cfg opts r q) s')
    (I : Isolated resolve (ls ++ [.load env lib cfg opts r q]) s') (hx : x ∈ created ls)
    (hu : x.obj ∉ unloaded ls) (hk : runtimeKey x.lib x.cfg = runtimeKey lib cfg) :
    x.lib = lib ∧ x.cfg = cfg := by
  obtain ⟨n, hn, hf⟩ := H.origin.live hx hu
  obtain ⟨_, y, hy, hs⟩ := H.origin.serves hn hf
  cases H.origin.objs.inj hs.1 hx hy
  obtain ⟨k, _, _, hkey, hreg, _⟩ := H.inv.lua.live hn hf
  rw [hs.2.1] at hkey
  cases hkey
  rw [hk] at hreg
  obtain ⟨rfl, rfl⟩ := H.idempotent.cached hreg h
  obtain ⟨m, q', hm, hq, hc⟩ := I.own (x := ⟨lib, cfg, x.obj⟩) (by simp [SysEvent.obtained])
  rw [hn] at hm
  cases hm
  exact hs.snoc.queue_inj (H.snoc h) hq hc

/-- **Isolation.** Runtimes of different configurations have nothing in common, as long as and only
as long as no load meets a live runtime of another pair with the same key. -/
theorem Runs.isolated_iff (H : Runs resolve ls s) :
    (∀ {ks t}, ks <+: ls → Runs resolve ks t → Isolated resolve ks t) ↔ Unambiguous ls := by
  constructor
  · intro hall ks env lib cfg opts r q hp x hx hu hk
    obtain ⟨ks', rfl⟩ := hp
    obtain ⟨t', H', _⟩ := H.split
    obtain ⟨t, Ht, h⟩ := H'.snoc_split
    exact Runs.unambiguous_of_own Ht h (hall (List.prefix_append ..) H') hx hu hk
  · intro U ks t hp Ht
    exact Runs.isolated Ht (U.of_prefix hp)

omit [DecidableEq Th] in
/-- Libraries without a `&` in their names cannot be mixed up. -/
theorem unambiguous_of_notMem (h : ∀ lib ∈ ls.filterMap SysEvent.loadedLib, ampersand ∉ lib) :
    Unambiguous ls := by
  intro ks env lib cfg opts r q hp x hx hu hk
  obtain ⟨l, hl, hlx⟩ := List.mem_filterMap.mp hx
  have hmem : ∀ {l lib'}, l ∈ ks ++ [.load env lib cfg opts r q] → l.loadedLib = some lib' →
      ampersand ∉ lib' :=
    fun hl hlib => h _ (List.mem_filterMap.mpr ⟨_, hp.subset hl, hlib⟩)
  have hlib : ampersand ∉ lib := hmem (List.mem_append_right _ (List.mem_singleton.mpr rfl)) rfl
  refine runtimeKey_inj (hmem (List.mem_append_left _ hl) ?_) hlib hk
  unfold SysEvent.created at hlx
  split at hlx
  · cases hlx
    rfl
  · cases hlx

/-- One library with and without a configuration. -/
def twoConfigs : List (SysEvent Unit LuaString Unit) :=
  [.load .ok (ascii "echo") none none (.loaded 0 (ascii "echo")) 0,
    .load .ok (ascii "echo") (some []) none (.loaded 1 (ascii "echo")) 1]

theorem twoConfigs_runs : ∃ s, Runs id twoConfigs s := by
  have H₁ := Run.nil.snoc (@Step.load Unit LuaString Unit _ id init .ok
    (ascii "echo") none none _ _ rfl)
  have H₂ := H₁.snoc (@Step.load Unit LuaString Unit _ id _ .ok
    (ascii "echo") (some []) none _ _ rfl)
  exact ⟨_, H₂⟩

theorem isolated_twoConfigs : ∃ s, Runs id twoConfigs s ∧ Isolated id twoConfigs s := by
  obtain ⟨s, H⟩ := twoConfigs_runs
  have U : Unambiguous twoConfigs := unambiguous_of_notMem (by decide)
  exact ⟨s, H, (Runs.isolated_iff H).mpr U List.prefix_rfl H⟩

/-- The library `a` with the configuration `b`, and the library `a&b` with none. -/
def collidingRun : List (SysEvent Unit LuaString Unit) :=
  [.load .ok (ascii "a") (some (ascii "b")) none (.loaded 0 (ascii "a")) 0,
    .load .ok (ascii "a&b") none none (.cached 0) 1]

/-- The second load is given the runtime of the first. -/
theorem collidingRun_not_isolated :
    ∃ s, Runs id collidingRun s ∧ ¬ Isolated id collidingRun s := by
  have H₁ := Run.nil.snoc (@Step.load Unit LuaString Unit _ id init .ok
    (ascii "a") (some (ascii "b")) none _ _ rfl)
  have H₂ := H₁.snoc (@Step.load Unit LuaString Unit _ id _ .ok
    (ascii "a&b") none none _ _ rfl)
  refine ⟨_, H₂, fun I => ?_⟩
  obtain ⟨_, q, _, _, hc⟩ := I.own (x := ⟨ascii "a&b", none, 0⟩) rfl
  have hlib : ∀ c ∈ initCalls collidingRun, c.lib = ascii "a" := by
    simp [initCalls, collidingRun, SysEvent.initCall]
  have heq : ascii "a&b" = ascii "a" := hlib _ hc
  exact absurd heq (by decide)

end System
end RestyFfi
