import RestyFfi.Lua.Registry

/-!
# The registry invariant

What a call and a load can do to the Lua state (`CallMove`, `LoadMove`), and the invariant they
keep: `runtimes` holds exactly the unfinished runtime objects, each under its own key and with a
queue of its own, and every handle that is still reachable is open.
-/

namespace RestyFfi

/-- `n'` holds the values that `n` holds: `__index` stores nothing but `post`. -/
structure Nffi.SameVals (n n' : Nffi) : Prop where
  finished : n'.finished = n.finished
  key : ∀ {k}, n'.key = .val k ↔ n.key = .val k
  handle : ∀ {h}, n'.handle = .val h ↔ n.handle = .val h
  tq : ∀ {q}, n'.tq = .val q ↔ n.tq = .val q

theorem Nffi.SameVals.refl (n : Nffi) : n.SameVals n := ⟨rfl, .rfl, .rfl, .rfl⟩

theorem Slot.index_val (x : Slot α) {a : α} : x.index.1 = .val a ↔ x = .val a := by
  cases x <;> simp [Slot.index]

theorem Nffi.index_sameVals (n : Nffi) (name : FieldName) : n.SameVals (n.index name).1 := by
  cases name with
  | finished | unload => exact .refl n
  | key => exact ⟨rfl, n.key.index_val, .rfl, .rfl⟩
  | handle => exact ⟨rfl, .rfl, n.handle.index_val, .rfl⟩
  | tq => exact ⟨rfl, .rfl, .rfl, n.tq.index_val⟩
  | other name =>
    simp only [Nffi.index]
    split
    · exact .refl n
    · exact ⟨rfl, .rfl, .rfl, .rfl⟩

theorem Nffi.resolve_sameVals (n : Nffi) (name : Option FieldName) :
    n.SameVals (n.resolve name).1 := by
  cases name with
  | none => exact .refl n
  | some name => exact n.index_sameVals name

namespace LuaState
variable {Lib : Type}

/-- The invariant of the module's tables. -/
structure Inv (resolve : LuaString → Lib) (s : LuaState Lib) : Prop where
  registered : ∀ {k o}, s.runtimes k = some o →
    ∃ n, s.objs.get o = some n ∧ n.finished = false ∧ n.key = .val k
  live : ∀ {o n}, s.objs.get o = some n → n.finished = false →
    ∃ k h q, n.key = .val k ∧ s.runtimes k = some o ∧ n.handle = .val h ∧ n.tq = .val q
  cleared : ∀ {o n}, s.objs.get o = some n → n.finished = true →
    (∀ q, n.tq ≠ .val q) ∧ ∀ h, n.handle ≠ .val h
  tq_unique : ∀ {o o' n n' q}, s.objs.get o = some n → s.objs.get o' = some n' →
    n.tq = .val q → n'.tq = .val q → o = o'
  handle_open : ∀ {o n h}, s.objs.get o = some n → n.handle = .val h →
    ∃ l, s.handles.get h = some l
  pinned : ∀ {name h}, s.pinLibs name = some h → s.handles.get h = some (resolve name)
  resty : ∀ {h}, s.restyFfi = some h →
    s.init = true ∧ s.handles.get h = some (resolve (ascii "resty_ffi"))

/-- What a call on a runtime object does to the Lua state, with the C call it makes. -/
inductive CallMove (s : LuaState Lib) (o : Nat) : LuaState Lib → CCall → Prop where
  | unchanged : CallMove s o s .none
  | idle : s.objs.get o = some n → n.SameVals n' →
    CallMove s o { s with objs := s.objs.modify o fun _ => n' } .none
  | post : s.objs.get o = some n → n.finished = false → n.tq = .val q → n.SameVals n' →
    CallMove s o { s with objs := s.objs.modify o fun _ => n' } (.post q)
  | unload : s.objs.get o = some n → n.finished = false → n.tq = .val q → n.key = .val k →
    n'.finished = true → n'.handle = .nil → n'.tq = .nil →
    CallMove s o { s with
      objs := s.objs.modify o fun _ => n'
      runtimes := Function.update s.runtimes k none } (.finish q)

/-- What `load_ffi` does behind `initialise`. -/
inductive LoadMove (resolve : LuaString → Lib) (s : LuaState Lib) (q : Nat) (lib : LuaString)
    (k : LuaString) (pin : Bool) : LuaState Lib → LoadResult Lib → Prop where
  | unavailable : LoadMove resolve s q lib k pin s .unavailable
  | cached : s.runtimes k = some o → LoadMove resolve s q lib k pin s (.cached o)
  | notFound : s.runtimes k = none → LoadMove resolve s q lib k pin s .notFound
  | noSymbol : s.runtimes k = none →
    LoadMove resolve s q lib k pin (s.ffiLoad resolve lib pin) (.noSymbol (resolve lib))
  | refused : s.runtimes k = none →
    LoadMove resolve s q lib k pin (s.ffiLoad resolve lib pin) (.refused (resolve lib) rc)
  | loaded : s.runtimes k = none →
    LoadMove resolve s q lib k pin
      ((s.ffiLoad resolve lib pin).register k ⟨false, .val k, .val s.handles.next, .val q, []⟩)
      (.loaded s.objs.next (resolve lib))

variable {resolve : LuaString → Lib} {s s' s₁ : LuaState Lib} {o o' h q : Nat} {n n' : Nffi}
  {k lib : LuaString} {cfg : Option LuaString} {opts : Option Opts} {env : LoadEnv}
  {r : LoadResult Lib} {name : Option FieldName} {c : CCall}

theorem Inv.empty : (LuaState.empty : LuaState Lib).Inv resolve where
  registered h := nomatch h
  live h := nomatch h
  cleared h := nomatch h
  tq_unique h := nomatch h
  handle_open h := nomatch h
  pinned h := nomatch h
  resty h := nomatch h

/-- An object that holds a handle is registered, so that its handle is reachable. -/
theorem Inv.reaches_handle (I : s.Inv resolve) (ho : s.objs.get o = some n)
    (hh : n.handle = .val h) : s.Reaches h := by
  have hf : n.finished = false := by
    by_contra hf
    exact (I.cleared ho (by simpa using hf)).2 h hh
  obtain ⟨k, _, _, _, hr, _⟩ := I.live ho hf
  exact .inr (.inr ⟨k, o, n, hr, ho, hh⟩)

/-! ## Calls -/

theorem Inv.call_move (I : s.Inv resolve) (h : s.call o name = (s', c)) : CallMove s o s' c := by
  cases ho : s.objs.get o with
  | none => simp only [call, ho] at h; cases h; exact .unchanged
  | some n =>
    have hv := n.resolve_sameVals name
    rcases hr : n.resolve name with ⟨n', callee⟩
    rw [hr] at hv
    simp only [call, ho, hr] at h
    have hlive : n'.finished = false → ∃ k q, n'.key = .val k ∧ n'.tq = .val q := by
      intro hf
      obtain ⟨k, h, q, hk, _, _, hq⟩ := I.live ho (hv.finished ▸ hf)
      exact ⟨k, q, hv.key.mpr hk, hv.tq.mpr hq⟩
    cases callee with
    | uncallable => cases h; exact .idle ho hv
    | post =>
      cases hf : n'.finished with
      | true => simp only [Nffi.post, hf, if_true] at h; cases h; exact .idle ho hv
      | false =>
        obtain ⟨k, q, _, hq⟩ := hlive hf
        simp only [Nffi.post, hf, hq, Bool.false_eq_true, if_false] at h
        cases h
        exact .post ho (hv.finished ▸ hf) (hv.tq.mp hq) hv
    | unload =>
      cases hf : n'.finished with
      | true => simp only [LuaState.unload, hf, if_true] at h; cases h; exact .unchanged
      | false =>
        obtain ⟨k, q, hk, hq⟩ := hlive hf
        simp only [LuaState.unload, hf, hq, hk, Bool.false_eq_true, if_false] at h
        cases h
        exact .unload ho (hv.finished ▸ hf) (hv.tq.mp hq) (hv.key.mp hk) rfl rfl rfl

/-- A call that only lets `__index` store `post` keeps the invariant. -/
theorem Inv.idle (I : s.Inv resolve) (hn : s.objs.get o = some n) (hv : n.SameVals n') :
    Inv resolve { s with objs := s.objs.modify o fun _ => n' } where
  registered {k o'} hk := by
    obtain ⟨m, hm, hf, hkey⟩ := I.registered hk
    by_cases ho : o' = o
    · subst ho
      rw [hn] at hm; cases hm
      exact ⟨n', by simp [hn], hv.finished ▸ hf, hv.key.mpr hkey⟩
    · exact ⟨m, by rw [Arena.modify_get_of_ne ho]; exact hm, hf, hkey⟩
  live {o' m} ho hf := by
    rcases Arena.modify_get_eq_some ho with ⟨rfl, _, _, rfl⟩ | ⟨_, ho⟩
    · obtain ⟨k, h, q, hk, hr, hh, hq⟩ := I.live hn (hv.finished ▸ hf)
      exact ⟨k, h, q, hv.key.mpr hk, hr, hv.handle.mpr hh, hv.tq.mpr hq⟩
    · exact I.live ho hf
  cleared {o' m} ho hf := by
    rcases Arena.modify_get_eq_some ho with ⟨rfl, _, _, rfl⟩ | ⟨_, ho⟩
    · have hc := I.cleared hn (hv.finished ▸ hf)
      exact ⟨fun q hq => hc.1 q (hv.tq.mp hq), fun h hh => hc.2 h (hv.handle.mp hh)⟩
    · exact I.cleared ho hf
  tq_unique {o₁ o₂ n₁ n₂ q} h₁ h₂ hq₁ hq₂ := by
    rcases Arena.modify_get_eq_some h₁ with ⟨rfl, _, _, rfl⟩ | ⟨_, g₁⟩ <;>
      rcases Arena.modify_get_eq_some h₂ with ⟨rfl, _, _, rfl⟩ | ⟨_, g₂⟩
    · rfl
    · exact I.tq_unique hn g₂ (hv.tq.mp hq₁) hq₂
    · exact I.tq_unique g₁ hn hq₁ (hv.tq.mp hq₂)
    · exact I.tq_unique g₁ g₂ hq₁ hq₂
  handle_open {o' m h} ho hh := by
    rcases Arena.modify_get_eq_some ho with ⟨rfl, _, _, rfl⟩ | ⟨_, ho⟩
    · exact I.handle_open hn (hv.handle.mp hh)
    · exact I.handle_open ho hh
  pinned := I.pinned
  resty := I.resty

/-- An effective `__unload` takes the object, and nothing else, out of the registry. -/
theorem Inv.unload (I : s.Inv resolve) (hn : s.objs.get o = some n) (hf : n.finished = false)
    (hk : n.key = .val k) (hf' : n'.finished = true) (hh' : n'.handle = .nil) (hq' : n'.tq = .nil) :
    Inv resolve { s with
      objs := s.objs.modify o fun _ => n'
      runtimes := Function.update s.runtimes k none } := by
  obtain ⟨k₀, _, _, hk₀, hreg, _, _⟩ := I.live hn hf
  rw [hk] at hk₀; cases hk₀
  refine ⟨fun {k' o'} h => ?_, fun {o' m} ho hmf => ?_, fun {o' m} ho hmf => ?_,
    fun {o₁ o₂ n₁ n₂ q} h₁ h₂ hq₁ hq₂ => ?_, fun {o' m h} ho hh => ?_, I.pinned, I.resty⟩
  · -- another key is the key of another object
    have hkk : k' ≠ k := by rintro rfl; simp at h
    simp only [Function.update_of_ne hkk] at h
    obtain ⟨m, hm, hmf, hmk⟩ := I.registered h
    have hne : o' ≠ o := by
      rintro rfl
      rw [hn] at hm; cases hm
      rw [hk] at hmk; cases hmk
      exact hkk rfl
    exact ⟨m, by rw [Arena.modify_get_of_ne hne]; exact hm, hmf, hmk⟩
  · rcases Arena.modify_get_eq_some ho with ⟨rfl, _, _, rfl⟩ | ⟨hne, ho⟩
    · rw [hf'] at hmf; cases hmf
    · obtain ⟨k', h, q, hk', hr, hh, hq⟩ := I.live ho hmf
      have hkk : k' ≠ k := by rintro rfl; rw [hreg] at hr; cases hr; exact hne rfl
      exact ⟨k', h, q, hk', (Function.update_of_ne hkk ..).trans hr, hh, hq⟩
  · rcases Arena.modify_get_eq_some ho with ⟨rfl, _, _, rfl⟩ | ⟨_, ho⟩
    · simp [hq', hh']
    · exact I.cleared ho hmf
  · rcases Arena.modify_get_eq_some h₁ with ⟨rfl, _, _, rfl⟩ | ⟨_, h₁⟩
    · rw [hq'] at hq₁; cases hq₁
    rcases Arena.modify_get_eq_some h₂ with ⟨rfl, _, _, rfl⟩ | ⟨_, h₂⟩
    · rw [hq'] at hq₂; cases hq₂
    exact I.tq_unique h₁ h₂ hq₁ hq₂
  · rcases Arena.modify_get_eq_some ho with ⟨rfl, _, _, rfl⟩ | ⟨_, ho⟩
    · rw [hh'] at hh; cases hh
    · exact I.handle_open ho hh

theorem Inv.call (I : s.Inv resolve) (h : s.call o name = (s', c)) : s'.Inv resolve := by
  cases I.call_move h with
  | unchanged => exact I
  | idle hn hv | post hn _ _ hv => exact I.idle hn hv
  | unload hn hf _ hk hf' hh' hq' => exact I.unload hn hf hk hf' hh' hq'

theorem Inv.holds_of_call (I : s.Inv resolve) (h : s.call o name = (s', c))
    (ho : s'.objs.get o' = some n) (hq : n.tq = .val q) :
    ∃ n', s.objs.get o' = some n' ∧ n'.tq = .val q := by
  cases I.call_move h with
  | unchanged => exact ⟨n, ho, hq⟩
  | idle hn hv | post hn _ _ hv =>
    rcases Arena.modify_get_eq_some ho with ⟨rfl, _, _, rfl⟩ | ⟨_, ho⟩
    · exact ⟨_, hn, hv.tq.mp hq⟩
    · exact ⟨n, ho, hq⟩
  | unload hn _ _ _ _ _ hq' =>
    rcases Arena.modify_get_eq_some ho with ⟨rfl, _, _, rfl⟩ | ⟨_, ho⟩
    · rw [hq'] at hq; cases hq
    · exact ⟨n, ho, hq⟩

/-! ## Loads -/

/-- The result of `initialise`: at most one more handle, which is open. -/
structure Initialised (resolve : LuaString → Lib) (s s₁ : LuaState Lib) : Prop where
  runtimes : s₁.runtimes = s.runtimes
  pinLibs : s₁.pinLibs = s.pinLibs
  objs : s₁.objs = s.objs
  handles : ∀ {h l}, s.handles.get h = some l → s₁.handles.get h = some l
  init : s.init = true → s₁.init = true
  restyFfi : s₁.restyFfi = s.restyFfi ∨ s.init = false ∧
    ∃ h, s₁.restyFfi = some h ∧ s₁.init = true ∧
      s₁.handles.get h = some (resolve (ascii "resty_ffi"))

/-- When the C side is there. -/
theorem initialise_iff {env : LoadEnv} : (s.initialise resolve env).2 = true ↔
    s.init = true ∨ env.symbol = true ∨ env.resty = some 0 := by
  unfold initialise
  cases s.init with
  | true => simp
  | false =>
    cases env.symbol with
    | true => simp
    | false =>
      cases env.resty with
      | none => simp
      | some rc => by_cases hrc : rc = 0 <;> simp [hrc]

theorem initialise_spec (s : LuaState Lib) (env : LoadEnv) :
    Initialised resolve s (s.initialise resolve env).1 := by
  unfold initialise
  split
  · exact ⟨rfl, rfl, rfl, id, id, .inl rfl⟩
  rename_i hinit
  split
  · exact ⟨rfl, rfl, rfl, id, fun _ => rfl, .inl rfl⟩
  split
  · exact ⟨rfl, rfl, rfl, id, id, .inl rfl⟩
  dsimp only
  split
  · exact ⟨rfl, rfl, rfl, Arena.push_get_of_some, id, .inl rfl⟩
  · exact ⟨rfl, rfl, rfl, Arena.push_get_of_some, fun _ => rfl,
      .inr ⟨by simpa using hinit, _, rfl, rfl, Arena.push_get_next⟩⟩

theorem Initialised.inv (H : Initialised resolve s s₁) (I : s.Inv resolve) : s₁.Inv resolve where
  registered {k o} h := by
    rw [H.runtimes] at h; rw [H.objs]; exact I.registered h
  live {o n} h hf := by
    rw [H.objs] at h; rw [H.runtimes]; exact I.live h hf
  cleared h := by rw [H.objs] at h; exact I.cleared h
  tq_unique h₁ h₂ := by rw [H.objs] at h₁ h₂; exact I.tq_unique h₁ h₂
  handle_open ho hh := by
    rw [H.objs] at ho
    obtain ⟨l, hl⟩ := I.handle_open ho hh
    exact ⟨l, H.handles hl⟩
  pinned h := by rw [H.pinLibs] at h; exact H.handles (I.pinned h)
  resty {h} hr := by
    rcases H.restyFfi with hs | ⟨_, h', hs, hi, hl⟩
    · rw [hs] at hr
      obtain ⟨hi, hl⟩ := I.resty hr
      exact ⟨H.init hi, H.handles hl⟩
    · rw [hs] at hr; cases hr; exact ⟨hi, hl⟩

theorem loadFfi_move (h : s.loadFfi resolve env q lib cfg opts = (s', r)) :
    ∃ s₁, Initialised resolve s s₁ ∧
      LoadMove resolve s₁ q lib (runtimeKey lib cfg) (Opts.isPin opts) s' r := by
  refine ⟨_, s.initialise_spec env, ?_⟩
  unfold loadFfi at h
  rcases hi : s.initialise resolve env with ⟨s₁, ok⟩
  simp only [hi] at h
  cases ok with
  | false => cases h; exact .unavailable
  | true =>
    cases hk : s₁.runtimes (runtimeKey lib cfg) with
    | some o => simp only [hk] at h; cases h; exact .cached hk
    | none =>
      simp only [hk] at h
      split at h
      · cases h; exact .notFound hk
      split at h
      · cases h; exact .noSymbol hk
      split at h
      · cases h; exact .refused hk
      · cases h; exact .loaded hk

theorem Inv.ffiLoad (I : s.Inv resolve) (lib : LuaString) (pin : Bool) :
    (s.ffiLoad resolve lib pin).Inv resolve where
  registered := I.registered
  live := I.live
  cleared := I.cleared
  tq_unique := I.tq_unique
  handle_open ho hh := by
    obtain ⟨l, hl⟩ := I.handle_open ho hh
    exact ⟨l, Arena.push_get_of_some hl⟩
  pinned {name h} hp := by
    by_cases hpin : pin = true
    · by_cases hname : name = lib
      · subst hname
        simp only [LuaState.ffiLoad, hpin, if_true, Function.update_self, Option.some.injEq] at hp
        subst hp
        exact Arena.push_get_next
      · simp only [LuaState.ffiLoad, hpin, if_true, Function.update_of_ne hname] at hp
        exact Arena.push_get_of_some (I.pinned hp)
    · simp only [LuaState.ffiLoad, if_neg hpin] at hp
      exact Arena.push_get_of_some (I.pinned hp)
  resty h := ⟨(I.resty h).1, Arena.push_get_of_some (I.resty h).2⟩

/-- Registering an object under a free key, with an open handle and a queue nobody holds. -/
theorem Inv.register {l : Lib} (I : s.Inv resolve) (hk : s.runtimes k = none)
    (hh : s.handles.get h = some l) (hq : ∀ {o n}, s.objs.get o = some n → n.tq ≠ .val q) :
    (s.register k ⟨false, .val k, .val h, .val q, []⟩).Inv resolve where
  registered {k' o} hr := by
    by_cases hkk : k' = k
    · subst hkk
      simp only [LuaState.register, Function.update_self, Option.some.injEq] at hr
      subst hr
      exact ⟨_, Arena.push_get_next, rfl, rfl⟩
    · simp only [LuaState.register, Function.update_of_ne hkk] at hr
      obtain ⟨n, hn, hf, hkey⟩ := I.registered hr
      exact ⟨n, Arena.push_get_of_some hn, hf, hkey⟩
  live {o n} ho hf := by
    rcases Arena.push_get_eq_some ho with ⟨rfl, rfl⟩ | ho
    · exact ⟨k, h, q, rfl, Function.update_self .., rfl, rfl⟩
    · obtain ⟨k', h', q', hk', hr, hh', hq'⟩ := I.live ho hf
      have hkk : k' ≠ k := by rintro rfl; rw [hk] at hr; cases hr
      exact ⟨k', h', q', hk', (Function.update_of_ne hkk ..).trans hr, hh', hq'⟩
  cleared {o n} ho hf := by
    rcases Arena.push_get_eq_some ho with ⟨rfl, rfl⟩ | ho
    · cases hf
    · exact I.cleared ho hf
  tq_unique {o₁ o₂ n₁ n₂ q'} h₁ h₂ hq₁ hq₂ := by
    rcases Arena.push_get_eq_some h₁ with ⟨rfl, rfl⟩ | h₁ <;>
      rcases Arena.push_get_eq_some h₂ with ⟨rfl, rfl⟩ | h₂
    · rfl
    · cases hq₁; exact (hq h₂ hq₂).elim
    · cases hq₂; exact (hq h₁ hq₁).elim
    · exact I.tq_unique h₁ h₂ hq₁ hq₂
  handle_open {o n i} ho hi := by
    rcases Arena.push_get_eq_some ho with ⟨rfl, rfl⟩ | ho
    · cases hi; exact ⟨l, hh⟩
    · exact I.handle_open ho hi
  pinned := I.pinned
  resty := I.resty

theorem Inv.loadMove {pin : Bool} (I : s.Inv resolve)
    (hq : ∀ {o n}, s.objs.get o = some n → n.tq ≠ .val q)
    (h : LoadMove resolve s q lib k pin s' r) : s'.Inv resolve := by
  cases h with
  | unavailable | cached | notFound => exact I
  | noSymbol | refused => exact I.ffiLoad ..
  | loaded hk => exact (I.ffiLoad ..).register hk Arena.push_get_next hq

theorem LoadMove.holds {pin : Bool} {q' : Nat} (h : LoadMove resolve s q' lib k pin s' r)
    (ho : s'.objs.get o = some n) (hq : n.tq = .val q) :
    (q = q' ∧ r.createsQueue = true) ∨ s.objs.get o = some n := by
  cases h with
  | unavailable | cached | notFound | noSymbol | refused => exact .inr ho
  | loaded =>
    rcases Arena.push_get_eq_some ho with ⟨rfl, rfl⟩ | ho
    · cases hq; exact .inl ⟨rfl, rfl⟩
    · exact .inr ho

end LuaState
end RestyFfi
