import RestyFfi.Lua.Unload

/-!
# Library code and its runtimes

A shared library is open while one of its handles is not collected. `unload` drops the handle of
its runtime at once, but the marker it enqueues is dequeued later, by code of that very library. So
an unload is safe only if something else keeps the library open (`KeptOpen`): a pinned handle, or
another registered runtime.
-/

namespace RestyFfi
open Transition

namespace LuaState
variable {Lib : Type} {resolve : LuaString → Lib} {s s' s₁ : LuaState Lib} {l : Lib} {o q : Nat}
  {lib k : LuaString} {pin : Bool} {r : LoadResult Lib} {c : CCall} {name : Option FieldName}

/-- A handle of the library `l` is open, and reachable without the runtime object `o`. -/
def KeptOpen (s : LuaState Lib) (o : Nat) (l : Lib) : Prop :=
  ∃ h, s.handles.get h = some l ∧ (s.restyFfi = some h ∨ (∃ name, s.pinLibs name = some h) ∨
    ∃ k o' n, s.runtimes k = some o' ∧ o' ≠ o ∧ s.objs.get o' = some n ∧ n.handle = .val h)

/-- A handle of the library `l` is open, and reachable. -/
def Reached (s : LuaState Lib) (l : Lib) : Prop := ∃ h, s.handles.get h = some l ∧ s.Reaches h

/-! ## What keeps a library reached -/

theorem Initialised.reached (H : Initialised resolve s s₁) (I : s.Inv resolve)
    (h : s.Reached l) : s₁.Reached l := by
  obtain ⟨i, hi, hr | ⟨name, hp⟩ | ⟨k, o, n, hk, hn, hh⟩⟩ := h
  · rcases H.restyFfi with hs | ⟨hinit, _⟩
    · exact ⟨i, H.handles hi, .inl (hs.trans hr)⟩
    · rw [(I.resty hr).1] at hinit; cases hinit
  · exact ⟨i, H.handles hi, .inr (.inl ⟨name, by rw [H.pinLibs]; exact hp⟩)⟩
  · refine ⟨i, H.handles hi, .inr (.inr ⟨k, o, n, ?_, ?_, hh⟩)⟩
    · rw [H.runtimes]; exact hk
    · rw [H.objs]; exact hn

/-- Pinning a library again replaces its handle by a new one of the same library. -/
theorem Reached.ffiLoad (I : s.Inv resolve) (h : s.Reached l) :
    (s.ffiLoad resolve lib pin).Reached l := by
  obtain ⟨i, hi, hr | ⟨name, hp⟩ | hk⟩ := h
  · exact ⟨i, Arena.push_get_of_some hi, .inl hr⟩
  · by_cases hrep : pin = true ∧ name = lib
    · obtain ⟨rfl, rfl⟩ := hrep
      rw [I.pinned hp] at hi; cases hi
      exact ⟨s.handles.next, Arena.push_get_next, .inr (.inl ⟨name, by simp [LuaState.ffiLoad]⟩)⟩
    · refine ⟨i, Arena.push_get_of_some hi, .inr (.inl ⟨name, ?_⟩)⟩
      simp only [LuaState.ffiLoad]
      split
      · rename_i hpin
        rw [Function.update_of_ne fun hn => hrep ⟨hpin, hn⟩]
        exact hp
      · exact hp
  · exact ⟨i, Arena.push_get_of_some hi, .inr (.inr hk)⟩

theorem Reached.register {nffi : Nffi} (hk : s.runtimes k = none) (h : s.Reached l) :
    (s.register k nffi).Reached l := by
  obtain ⟨i, hi, hr | hp | ⟨k', o, n, hk', hn, hh⟩⟩ := h
  · exact ⟨i, hi, .inl hr⟩
  · exact ⟨i, hi, .inr (.inl hp)⟩
  · have hkk : k' ≠ k := by rintro rfl; rw [hk] at hk'; cases hk'
    exact ⟨i, hi, .inr (.inr ⟨k', o, n, (Function.update_of_ne hkk ..).trans hk',
      Arena.push_get_of_some hn, hh⟩)⟩

theorem LoadMove.reached (I : s.Inv resolve) (h : LoadMove resolve s q lib k pin s' r)
    (hl : s.Reached l) : s'.Reached l := by
  cases h with
  | unavailable | cached | notFound => exact hl
  | noSymbol | refused => exact hl.ffiLoad I
  | loaded hk => exact (hl.ffiLoad I).register hk

theorem LoadMove.reached_loaded (h : LoadMove resolve s q lib k pin s' (.loaded o l)) :
    s'.Reached l := by
  cases h with
  | loaded =>
    exact ⟨s.handles.next, Arena.push_get_next, .inr (.inr ⟨k, s.objs.next, _,
      Function.update_self .., Arena.push_get_next, rfl⟩)⟩

/-- An unload leaves reached what was kept open without the object. -/
theorem Inv.reached_finish (I : s.Inv resolve) (h : CallMove s o s' (.finish q)) :
    s'.Reached l ↔ s.KeptOpen o l := by
  cases h with
  | @unload n _ k _ hn hf _ hk =>
    obtain ⟨k₀, _, _, hk₀, hreg, _, _⟩ := I.live hn hf
    rw [hk] at hk₀; cases hk₀
    constructor
    · rintro ⟨i, hi, hr | hp | ⟨k', o', m, hk', hm, hh⟩⟩
      · exact ⟨i, hi, .inl hr⟩
      · exact ⟨i, hi, .inr (.inl hp)⟩
      · have hkk : k' ≠ k := by rintro rfl; simp at hk'
        simp only [Function.update_of_ne hkk] at hk'
        have hoo : o' ≠ o := by
          rintro rfl
          obtain ⟨n₁, hn₁, _, hk₁⟩ := I.registered hk'
          rw [hn] at hn₁; cases hn₁
          rw [hk] at hk₁; cases hk₁
          exact hkk rfl
        rw [Arena.modify_get_of_ne hoo] at hm
        exact ⟨i, hi, .inr (.inr ⟨k', o', m, hk', hoo, hm, hh⟩)⟩
    · rintro ⟨i, hi, hr | hp | ⟨k', o', m, hk', hoo, hm, hh⟩⟩
      · exact ⟨i, hi, .inl hr⟩
      · exact ⟨i, hi, .inr (.inl hp)⟩
      · have hkk : k' ≠ k := by rintro rfl; rw [hreg] at hk'; cases hk'; exact hoo rfl
        refine ⟨i, hi, .inr (.inr ⟨k', o', m, (Function.update_of_ne hkk ..).trans hk', ?_, hh⟩)⟩
        rw [Arena.modify_get_of_ne hoo]
        exact hm

/-- The library of the object `o` stays open without it. -/
def SafeUnload (s : LuaState Lib) (o : Nat) : Prop :=
  ∀ n h l, s.objs.get o = some n → n.handle = .val h → s.handles.get h = some l → s.KeptOpen o l

theorem SafeUnload.keptOpen (h : s.SafeUnload o) (hl : s.Reached l) : s.KeptOpen o l := by
  obtain ⟨i, hi, hr | hp | ⟨k, o', n, hk, hn, hh⟩⟩ := hl
  · exact ⟨i, hi, .inl hr⟩
  · exact ⟨i, hi, .inr (.inl hp)⟩
  · by_cases hoo : o' = o
    · subst hoo; exact h n i l hn hh hi
    · exact ⟨i, hi, .inr (.inr ⟨k, o', n, hk, hoo, hn, hh⟩)⟩

theorem Inv.reached_call (I : s.Inv resolve) (h : CallMove s o s' c)
    (hc : ∀ q, c = .finish q → s.SafeUnload o) (hl : s.Reached l) : s'.Reached l := by
  cases h with
  | unchanged => exact hl
  | @idle n n' hn hv | @post n q n' hn _ _ hv =>
    obtain ⟨i, hi, hr | hp | ⟨k, o', m, hk, hm, hh⟩⟩ := hl
    · exact ⟨i, hi, .inl hr⟩
    · exact ⟨i, hi, .inr (.inl hp)⟩
    · by_cases hoo : o' = o
      · subst hoo
        rw [hn] at hm; cases hm
        exact ⟨i, hi, .inr (.inr ⟨k, o', n', hk, by simp [hn], hv.handle.mpr hh⟩)⟩
      · refine ⟨i, hi, .inr (.inr ⟨k, o', m, hk, ?_, hh⟩)⟩
        rw [Arena.modify_get_of_ne hoo]
        exact hm
  | unload hn hf hq hk hf' hh' hq' =>
    exact (I.reached_finish (.unload hn hf hq hk hf' hh' hq')).mpr ((hc _ rfl).keptOpen hl)

end LuaState

namespace System
variable {Th Lib α : Type} [DecidableEq Th] {resolve : LuaString → Lib} {s s' : System Th Lib α}
  {e : SysEvent Th Lib α} {es : List (SysEvent Th Lib α)} {q : Nat} {l : Lib}

/-- An `__unload` that posts the marker is made only while something else keeps the library of the
runtime open. -/
def SafeUnload (s : System Th Lib α) : SysEvent Th Lib α → Prop
  | .call o _ (some (_, .post .finish _)) => s.lua.SafeUnload o
  | _ => True

/-- A step that is no unsafe unload. -/
def SafeStep (resolve : LuaString → Lib) (s : System Th Lib α) (e : SysEvent Th Lib α)
    (s' : System Th Lib α) : Prop :=
  Step resolve s e s' ∧ s.SafeUnload e

/-- The library whose `libffi_init` has accepted the queue `q` is open, unless the finish marker of
`q` has been dequeued. -/
def LibrariesOpen (es : List (SysEvent Th Lib α)) (s : System Th Lib α) : Prop :=
  ∀ env lib cfg opts o l q, .load env lib cfg opts (.loaded o l) q ∈ es →
    (∀ th, .queue q (.take th .finish) ∉ es) → ∃ h, s.lua.handles.get h = some l

/-! ## Safe unloads keep every library open -/

theorem SafeStep.reached (I : s.Inv resolve) (h : SafeStep resolve s e s')
    (hl : s.lua.Reached l) : s'.lua.Reached l := by
  obtain ⟨h, hsafe⟩ := h
  cases h with
  | load h =>
    obtain ⟨s₁, H, hm⟩ := LuaState.loadFfi_move h
    exact hm.reached (H.inv I.lua) (H.reached I.lua hl)
  | idle h => exact I.lua.reached_call (I.lua.call_move h) (fun _ h => nomatch h) hl
  | post h => exact I.lua.reached_call (I.lua.call_move h) (fun _ h => nomatch h) hl
  | finish h => exact I.lua.reached_call (I.lua.call_move h) (fun _ _ => hsafe) hl
  | poll => exact hl
  | @collect h _ _ hr =>
    obtain ⟨i, hi, hri⟩ := hl
    have hih : i ≠ h := by rintro rfl; exact hr hri
    exact ⟨i, (Arena.erase_get_of_ne hih).trans hi, hri⟩

theorem SafeStep.runs (H : Run (SafeStep resolve) init es s) : Runs resolve es s := by
  induction H with
  | nil => exact .nil
  | snoc _ h ih => exact ih.snoc h.1

/-- Along safe runs the library of every runtime ever loaded stays reached. -/
theorem SafeStep.run_reached (H : Run (SafeStep resolve) (init : System Th Lib α) es s)
    {env : LoadEnv} {lib : LuaString} {cfg : Option LuaString} {opts : Option Opts} {o : Nat}
    (he : .load env lib cfg opts (.loaded o l) q ∈ es) : s.lua.Reached l := by
  induction H with
  | nil => cases he
  | @snoc es t e u H h ih =>
    rcases List.mem_append.mp he with he | he
    · exact h.reached (Runs.inv (SafeStep.runs H)) (ih he)
    · cases List.mem_singleton.mp he
      cases h.1 with
      | load hload =>
        obtain ⟨_, _, hm⟩ := LuaState.loadFfi_move hload
        exact hm.reached_loaded

/-! ## An unsafe unload can close a library under its runtime -/

/-- The object `o` was returned by a load of the library behind its handle `h`. -/
def LoadedAs (es : List (SysEvent Th Lib α)) (s : LuaState Lib) (o : Nat) (n : Nffi) (h : Nat) :
    Prop :=
  ∃ env lib cfg opts l q, .load env lib cfg opts (.loaded o l) q ∈ es ∧ s.handles.get h = some l ∧
    n.tq = .val q

omit [DecidableEq Th] in
theorem LoadedAs.mono {L L' : LuaState Lib} {o h : Nat} {n n' : Nffi}
    (H : LoadedAs es L o n h) (hq : ∀ {q}, n.tq = .val q → n'.tq = .val q)
    (hl : ∀ {l}, L.handles.get h = some l → L'.handles.get h = some l) :
    LoadedAs (es ++ [e]) L' o n' h := by
  obtain ⟨env, lib, cfg, opts, l, q, hmem, hopen, htq⟩ := H
  exact ⟨env, lib, cfg, opts, l, q, List.mem_append_left _ hmem, hl hopen, hq htq⟩

/-- Every object with a handle comes from a load. -/
def Loads (es : List (SysEvent Th Lib α)) (s : LuaState Lib) : Prop :=
  ∀ o n h, s.objs.get o = some n → n.handle = .val h → LoadedAs es s o n h

omit [DecidableEq Th] in
theorem Loads.call {L L' : LuaState Lib} {o : Nat} {c : CCall} (ih : Loads es L)
    (hm : LuaState.CallMove L o L' c) : Loads (es ++ [e]) L' := by
  intro o' m h ho' hh
  cases hm with
  | unchanged => exact (ih o' m h ho' hh).mono id id
  | idle hn hv | post hn _ _ hv =>
    rcases Arena.modify_get_eq_some ho' with ⟨rfl, _, _, rfl⟩ | ⟨_, ho'⟩
    · exact (ih o' _ h hn (hv.handle.mp hh)).mono hv.tq.mpr id
    · exact (ih o' m h ho' hh).mono id id
  | unload hn _ _ _ _ hh' =>
    rcases Arena.modify_get_eq_some ho' with ⟨rfl, _, _, rfl⟩ | ⟨_, ho'⟩
    · rw [hh'] at hh; cases hh
    · exact (ih o' m h ho' hh).mono id id

theorem Step.loads (I : s.Inv resolve) (h : Step resolve s e s') (ih : Loads es s.lua) :
    Loads (es ++ [e]) s'.lua := by
  cases h with
  | @load env lib cfg opts L r h =>
    obtain ⟨s₁, H, hm⟩ := LuaState.loadFfi_move h
    intro o n i ho hh
    cases hm with
    | unavailable | cached | notFound =>
      rw [H.objs] at ho
      exact (ih o n i ho hh).mono id H.handles
    | noSymbol | refused =>
      change s₁.objs.get o = some n at ho
      rw [H.objs] at ho
      exact (ih o n i ho hh).mono id fun hl => Arena.push_get_of_some (H.handles hl)
    | loaded =>
      rcases Arena.push_get_eq_some ho with ⟨rfl, rfl⟩ | ho
      · cases hh
        exact ⟨env, lib, cfg, opts, _, _, List.mem_append_right _ (.head _), Arena.push_get_next,
          rfl⟩
      · change s₁.objs.get o = some n at ho
        rw [H.objs] at ho
        exact (ih o n i ho hh).mono id fun hl => Arena.push_get_of_some (H.handles hl)
  | idle h => exact ih.call (I.lua.call_move h)
  | post h | finish h => exact ih.call (I.lua.call_move h)
  | poll => exact fun o n h ho hh => (ih o n h ho hh).mono id id
  | @collect i _ _ hr =>
    intro o n h ho hh
    have hne : h ≠ i := by rintro rfl; exact hr (I.lua.reaches_handle ho hh)
    exact (ih o n h ho hh).mono id (Arena.erase_get_of_ne hne).trans

theorem Runs.loads (H : Runs resolve es s) : Loads es s.lua := by
  induction H with
  | nil => exact fun _ _ _ ho => nomatch ho
  | snoc H h ih => exact h.loads (Runs.inv H) ih

theorem exists_collect (resolve : LuaString → Lib) (s : System Th Lib α) (hl : ¬ s.lua.Reached l) :
    ∃ (hs : List Nat) (s' : System Th Lib α), Run (Step resolve) s (hs.map .collect) s' ∧
      ∀ h, s'.lua.handles.get h ≠ some l := by
  -- all handles of `l` below `m` collected; a collection changes neither what is reached nor `next`
  have key : ∀ m, ∃ (hs : List Nat) (H : Arena Lib),
      Run (Step resolve) s (hs.map .collect) { s with lua := { s.lua with handles := H } } ∧
      H.next = s.lua.handles.next ∧
        (∀ h, H.get h = some l → m ≤ h ∧ s.lua.handles.get h = some l) := by
    intro m
    induction m with
    | zero => exact ⟨[], s.lua.handles, .nil, rfl, fun h hh => ⟨Nat.zero_le h, hh⟩⟩
    | succ m ih =>
      obtain ⟨hs, H, hrun, hnext, hH⟩ := ih
      by_cases hm : H.get m = some l
      · refine ⟨hs ++ [m], H.erase m, ?_, hnext, fun h hh => ?_⟩
        · rw [List.map_append]
          exact hrun.snoc (.collect hm fun hr => hl ⟨m, (hH m hm).2, hr⟩)
        · have hne : h ≠ m := by rintro rfl; simp at hh
          rw [Arena.erase_get_of_ne hne] at hh
          obtain ⟨hle, hh⟩ := hH h hh
          exact ⟨by omega, hh⟩
      · refine ⟨hs, H, hrun, hnext, fun h hh => ?_⟩
        have hne : h ≠ m := by rintro rfl; exact hm hh
        obtain ⟨hle, hh⟩ := hH h hh
        exact ⟨by omega, hh⟩
  obtain ⟨hs, H, hrun, hnext, hH⟩ := key s.lua.handles.next
  refine ⟨hs, _, hrun, fun h hh => ?_⟩
  obtain ⟨hle, hh⟩ := hH h hh
  have := Arena.lt_next hh
  omega

theorem Runs.not_taken_of_held (H : Runs resolve es s) (hq : s.Held q) (th : Th) :
    .queue q (.take th .finish) ∉ es := by
  intro hmem
  obtain ⟨as, has⟩ := (H.postedInOrder q).2 hq
  obtain ⟨p, hp⟩ : ∃ p, s.queues.get q = some p := by
    by_contra hnone
    have hnil := H.history_nil (Option.eq_none_iff_forall_ne_some.mpr fun p hp => hnone ⟨p, hp⟩)
    have : (.take th .finish : Event Th α) ∈ history q es :=
      List.mem_filterMap.mpr ⟨_, hmem, by simp [SysEvent.onQueue]⟩
    rw [hnil] at this
    cases this
  have hout : (.finish : Task α) ∈ handedOut q es ++ p.tq.queue := by
    refine List.mem_append_left _
      (List.mem_flatMap.mpr ⟨.take th .finish, ?_, by simp [Event.taken]⟩)
    exact List.mem_filterMap.mpr ⟨_, hmem, by simp [SysEvent.onQueue]⟩
  rw [H.fifo hp, has] at hout
  simp at hout

/-- After an unsafe unload the collector can close the library before the marker is dequeued. -/
theorem Runs.closes_of_not_safeUnload (H : Runs resolve es s) (h : Step resolve s e s')
    (hu : ¬ s.SafeUnload e) : ∃ (hs : List Nat) (s'' : System Th Lib α),
      Run (Step resolve) s' (hs.map .collect) s'' ∧
        ¬ LibrariesOpen (es ++ e :: hs.map .collect) s'' := by
  have I := H.inv
  cases h with
  | load | idle | post | poll | collect => exact (hu trivial).elim
  | @finish o name L q p rc p' h hp hs =>
    simp only [SafeUnload, LuaState.SafeUnload, not_forall] at hu
    obtain ⟨n, i, l, hn, hi, hl, hkept⟩ := hu
    obtain ⟨env, lib, cfg, opts, l', q', hmem, hl', hq'⟩ := H.loads o n i hn hi
    rw [hl] at hl'; cases hl'
    have hm := I.lua.call_move h
    have hnot := (I.lua.reached_finish hm).not.mpr hkept
    have hq : n.tq = .val q := by
      cases hm with
      | unload hn' _ hq => rw [hn] at hn'; cases hn'; exact hq
    rw [hq] at hq'; cases hq'
    obtain ⟨js, s'', hrun, hclosed⟩ := exists_collect resolve
      { lua := L, queues := s.queues.modify q fun _ => p' } hnot
    have htaken : ∀ th, .queue q (.take th .finish) ∉
        es ++ .call o name (some (q, .post .finish rc)) :: js.map .collect := by
      intro th
      simpa using H.not_taken_of_held ⟨o, n, hn, hq⟩ th
    refine ⟨js, s'', hrun, fun hopen => ?_⟩
    obtain ⟨j, hj⟩ := hopen env lib cfg opts o l q (List.mem_append_left _ hmem) htaken
    exact hclosed j hj

/-- **Library code outlives its runtimes** along every run whose unloads are safe, and the condition
is exact: an unsafe unload can be followed by collections that close the library too early. -/
theorem librariesOpen_of_safeUnload (H : Run (SafeStep resolve) init es s) :
    LibrariesOpen es s ∧
      ∀ e s', Step resolve s e s' → ¬ s.SafeUnload e →
        ∃ (hs : List Nat) (s'' : System Th Lib α),
          Run (Step resolve) s' (hs.map .collect) s'' ∧
            ¬ LibrariesOpen (es ++ e :: hs.map .collect) s'' := by
  refine ⟨fun env lib cfg opts o l q he _ => ?_, fun e s' h hu => ?_⟩
  · obtain ⟨h, hopen, _⟩ := SafeStep.run_reached H he
    exact ⟨h, hopen⟩
  · exact (SafeStep.runs H).closes_of_not_safeUnload h hu

/-- A pinned library stays open when its only runtime is unloaded. -/
theorem librariesOpen_pinned_unload :
    ∃ (es : List (SysEvent Unit LuaString Unit)) (s : System Unit LuaString Unit),
      es.length = 2 ∧ Run (SafeStep id) init es s ∧ LibrariesOpen es s := by
  have H₀ : Run (SafeStep id) (init : System Unit LuaString Unit) [] init := .nil
  have H₁ := H₀.snoc ⟨@Step.load Unit LuaString Unit _ id init .ok (ascii "echo")
    none none _ _ rfl, trivial⟩
  have hsignal := @Pollers.Step.post Unit Unit _ (.init 65536) ∅ .finish {}
    ⟨by simp, by simp [Pollers.init]⟩
  have H₂ := H₁.snoc ⟨@Step.finish Unit LuaString Unit _ id _ 0 (some .unload) _ 0 _ _ _ rfl rfl
    hsignal, fun n h l hn hh hl => by
      cases hn
      cases hh
      exact ⟨0, hl, .inr (.inl ⟨ascii "echo", rfl⟩)⟩⟩
  exact ⟨_, _, rfl, H₂, (librariesOpen_of_safeUnload H₂).1⟩

/-- A library loaded with `unpin` is unloaded, and its handle is collected before the runtime thread
polls the marker. -/
theorem unpinned_library_closed : ∃ s : System Unit LuaString Unit,
    Runs id [.load .ok (ascii "echo") none (some { unpin := true }) (.loaded 0 (ascii "echo")) 0,
      .call 0 (some .unload) (some (0, .post .finish .ok)), .collect 0] s ∧
    ¬ LibrariesOpen [.load .ok (ascii "echo") none (some { unpin := true })
        (.loaded 0 (ascii "echo")) 0,
      .call 0 (some .unload) (some (0, .post .finish .ok)), .collect 0] s := by
  have H₁ := Run.nil.snoc (@Step.load Unit LuaString Unit _ id init .ok
    (ascii "echo") none (some { unpin := true }) _ _ rfl)
  have hsignal := @Pollers.Step.post Unit Unit _ (.init 65536) ∅ .finish {}
    ⟨by simp, by simp [Pollers.init]⟩
  have H₂ := H₁.snoc (@Step.finish Unit LuaString Unit _ id _ 0 (some .unload) _ 0 _ _ _ rfl rfl
    hsignal)
  have H₃ := H₂.snoc (@Step.collect Unit LuaString Unit _ id _ 0 _ rfl (by
    rintro (hr | ⟨_, hp⟩ | ⟨k, o, n, hk, _⟩)
    · cases hr
    · cases hp
    · change Function.update (Function.update (fun _ => none) (ascii "echo") (some 0)) (ascii "echo")
        none k = some o at hk
      rw [Function.update_idem, Function.update_apply] at hk
      split at hk <;> cases hk))
  refine ⟨_, H₃, fun hopen => ?_⟩
  obtain ⟨h, hh⟩ := hopen .ok (ascii "echo") none (some { unpin := true }) 0 (ascii "echo") 0
    (.head _) (by simp)
  change (Arena.erase (Arena.push Arena.empty (ascii "echo")) 0).get h = _ at hh
  cases h with
  | zero => cases hh
  | succ => cases hh

end System
end RestyFfi
