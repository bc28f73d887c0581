import RestyFfi.Runtime.Csv

/-!
# The Python loader

`libffi_init` of the Python loader takes `[dir/]module[?],function[,cfg]`. It cuts the buffer at the
commas; `init` then takes the directory off the module and overwrites the `?` that asks for a
reload, in the same buffer. This is the code for Python 3.8 and later, where a module can be
reloaded.
-/

namespace RestyFfi
open CString

/-- `state_t`: the pointers that `libffi_init` takes from the configuration, and the buffer behind
them. -/
structure PyState where
  module : Option Nat
  func : Option Nat
  cfg : Option Nat
  buf : Bytes

def pyState (cfg : Bytes) : PyState :=
  let first := strsep comma cfg (some 0)
  let second := strsep comma first.buf first.rest
  ⟨first.token, second.token, second.rest, second.buf⟩

/-- What `init` works with. -/
structure Target where
  dir : Option Bytes
  module : Bytes
  reload : Bool
  func : Bytes
  cfg : Option Bytes
deriving DecidableEq

/-- `module[lastpos] == '?'`, which is then overwritten. `lastpos` is -1 for an empty name, which is
a read before the buffer when nothing stands before the name. -/
def cutReload (buf : Bytes) (module : Nat) : Option (Bool × Bytes) :=
  let stop := module + (str buf module).length
  if stop = 0 then none
  else if buf[stop - 1]? = some question then some (true, buf.set (stop - 1) 0)
  else some (false, buf)

/-- The first part of `init`, up to the calls into the interpreter. A missing function name is a
NULL that `PyObject_GetAttrString` reads. -/
def target (state : PyState) : Option Target := do
  let module ← state.module
  let func ← state.func
  let last := strrchr state.buf module slash
  let dirlen := fun last => (str state.buf module).length - (str state.buf last).length
  let dir := last.map fun last => (str state.buf module).take (dirlen last)
  let module := last.elim module (· + 1)
  let (reload, buf) ← cutReload state.buf module
  return ⟨dir, str buf module, reload, str buf func, state.cfg.map (str buf)⟩

/-- The interpreter. What is `none` is an error it has set, or an attribute that cannot be called.
The result of a call is what `PyLong_AsLong` makes of it: -1 if it is no integer that fits. -/
structure Python (σ M F : Type*) where
  insertPath : Bytes → σ → σ
  getModule : Bytes → σ → Option M
  importModule : Bytes → σ → Option M × σ
  reloadModule : M → σ → Option M × σ
  getFunc : M → Bytes → σ → Option F
  call : F → Option Bytes → UInt64 → σ → Option Int64 × σ

variable {σ M F : Type*}

/-- The module `init` calls into: one that is loaded already is taken as it is, or reloaded. -/
def Python.module (py : Python σ M F) (t : Target) (s : σ) : Option M × σ :=
  match py.getModule t.module s with
  | none => py.importModule t.module s
  | some m => if t.reload then py.reloadModule m s else (some m, s)

def Python.load (py : Python σ M F) (t : Target) (tq : UInt64) (s : σ) : Int32 × σ :=
  let s := t.dir.elim s (py.insertPath · s)
  match py.module t s with
  | (none, s) => (1, s)
  | (some m, s) =>
    match py.getFunc m t.func s with
    | none => (1, s)
    | some f =>
      match py.call f t.cfg tq s with
      | (none, s) => (1, s)
      -- `int rc`
      | (some rc, s) => (rc.toInt32, s)

/-- `none` is a crash of the loader. -/
def Python.libffiInit (py : Python σ M F) (cfg : Bytes) (tq : UInt64) (s : σ) :
    Option (Int32 × σ) :=
  (target (pyState cfg)).map fun t => py.load t tq s

/-! ## What the cuts inside the module leave -/

/-- `[dir/]` -/
def dirPath (dir : Option Bytes) : Bytes := dir.elim [] (· ++ [slash])

/-- `[dir/]module[?]` -/
def modulePath (t : Target) : Bytes := dirPath t.dir ++ (t.module ++ mark t.reload)

/-- What the format can carry. -/
structure Target.Wf (t : Target) : Prop where
  dir : ∀ d ∈ t.dir, 0 ∉ d ∧ comma ∉ d
  module : 0 ∉ t.module ∧ comma ∉ t.module ∧ slash ∉ t.module
  module_ne : t.module ≠ []
  module_last : t.module.getLast? ≠ some question
  func : 0 ∉ t.func ∧ comma ∉ t.func
  cfg : ∀ c ∈ t.cfg, 0 ∉ c

variable {pre post n : Bytes} {reload : Bool} {dir : Option Bytes} {t : Target}

theorem notMem_dirPath {b : UInt8} (h : b ≠ slash) (hd : ∀ d ∈ dir, b ∉ d) : b ∉ dirPath dir := by
  cases dir <;> simp_all [dirPath]

theorem Target.Wf.zero_notMem_name (h : t.Wf) : 0 ∉ t.module ++ mark t.reload := by
  simp [h.module.1, notMem_mark (show (0 : UInt8) ≠ question by decide)]

theorem Target.Wf.zero_notMem_modulePath (h : t.Wf) : 0 ∉ modulePath t := by
  rw [modulePath, List.mem_append, not_or]
  exact ⟨notMem_dirPath (by decide) fun d hd => (h.dir d hd).1, h.zero_notMem_name⟩

theorem Target.Wf.comma_notMem_modulePath (h : t.Wf) : comma ∉ modulePath t := by
  rw [modulePath, List.mem_append, List.mem_append, not_or, not_or]
  exact ⟨notMem_dirPath (by decide) fun d hd => (h.dir d hd).2, h.module.2.1,
    notMem_mark (by decide)⟩

/-- A `?` behind the name is seen and overwritten; what stands behind it stays. -/
theorem cutReload_mark (hn : 0 ∉ n) (hne : n ≠ []) (hq : n.getLast? ≠ some question) :
    ∃ buf, cutReload (pre ++ (n ++ mark reload ++ 0 :: post)) pre.length = some (reload, buf) ∧
      str buf pre.length = n ∧ ∀ p, pre.length + (n ++ mark reload).length ≤ p →
        str buf p = str (pre ++ (n ++ mark reload ++ 0 :: post)) p := by
  have hstr : str (pre ++ (n ++ mark reload ++ 0 :: post)) pre.length = n ++ mark reload :=
    str_append (by simp [hn, notMem_mark (show (0 : UInt8) ≠ question by decide)])
  have hne' : n ++ mark reload ≠ [] := by simp [hne]
  have hstop : pre.length + (n ++ mark reload).length ≠ 0 := by simp [hne]
  simp only [cutReload, hstr, if_neg hstop, getElem?_last hne']
  cases reload with
  | false =>
    refine ⟨_, if_neg (by simpa [mark] using hq), by simpa [mark] using hstr, fun p _ => rfl⟩
  | true =>
    refine ⟨_, if_pos (by simp [mark]), ?_, fun p hp => str_set_of_lt (by omega) 0⟩
    have hset : (pre ++ (n ++ mark true ++ 0 :: post)).set (pre.length + (n ++ mark true).length - 1)
        0 = pre ++ (n ++ 0 :: 0 :: post) := by
      simp [mark, Nat.add_sub_assoc]
    rw [hset, str_append hn]

theorem strrchr_modulePath (h : t.Wf) :
    strrchr (modulePath t ++ 0 :: post) 0 slash = t.dir.map List.length := by
  have hs : slash ∉ t.module ++ mark t.reload := by
    simp [h.module.2.2, notMem_mark (show slash ≠ question by decide)]
  rw [modulePath]
  cases hdir : t.dir with
  | none =>
    have key : strrchr ([] ++ (t.module ++ mark t.reload ++ 0 :: post)) 0 slash = none :=
      strrchr_of_notMem h.zero_notMem_name hs
    simpa [dirPath] using key
  | some d =>
    have key : strrchr ([] ++ (d ++ slash :: (t.module ++ mark t.reload) ++ 0 :: post)) 0 slash =
        some (0 + d.length) :=
      strrchr_append (h.dir d hdir).1 h.zero_notMem_name (by decide) hs
    simpa [dirPath] using key

/-- `strlen(module) - strlen(last)` is the length of the directory. -/
theorem take_modulePath {d : Bytes} (h : t.Wf) (hdir : t.dir = some d) :
    (modulePath t).take
      ((modulePath t).length - (str (modulePath t ++ 0 :: post) d.length).length) = d := by
  have key : str (d ++ (slash :: (t.module ++ mark t.reload) ++ 0 :: post)) d.length =
      slash :: (t.module ++ mark t.reload) :=
    str_append (by simpa [slash] using h.zero_notMem_name)
  have hpath : modulePath t = d ++ slash :: (t.module ++ mark t.reload) := by
    simp [modulePath, dirPath, hdir]
  rw [hpath, List.append_assoc, key, List.length_append, Nat.add_sub_cancel, List.take_left]

theorem target_csv (h : t.Wf) :
    target (pyState (csv (modulePath t) t.func t.cfg ++ [0])) = some t := by
  rw [pyState, strsep_csv h.zero_notMem_modulePath h.comma_notMem_modulePath h.func.1 h.cfg,
    strsep_csvRest h.func.1 h.func.2 h.cfg]
  have hlast : strrchr (cutBuf (modulePath t) t.func t.cfg) 0 slash = t.dir.map List.length :=
    strrchr_modulePath h
  have hname : (t.dir.map List.length).elim 0 (· + 1) = (dirPath t.dir).length := by
    cases t.dir <;> simp [dirPath]
  obtain ⟨buf, hcut, hmodule, hrest⟩ :
      ∃ buf, cutReload (cutBuf (modulePath t) t.func t.cfg) (dirPath t.dir).length =
        some (t.reload, buf) ∧ str buf (dirPath t.dir).length = t.module ∧
        ∀ p, (modulePath t).length ≤ p → str buf p = str (cutBuf (modulePath t) t.func t.cfg) p := by
    rw [cutBuf, modulePath, List.append_assoc, List.length_append]
    exact cutReload_mark h.module.1 h.module_ne h.module_last
  have hfunc : str buf ((modulePath t).length + 1) = t.func := by
    rw [hrest _ (Nat.le_add_right ..), str_cutBuf_func h.func.1]
  have hdir : (t.dir.map List.length).map (fun last => (modulePath t).take ((modulePath t).length -
      (str (cutBuf (modulePath t) t.func t.cfg) last).length)) = t.dir := by
    cases hdir : t.dir with
    | none => rfl
    | some d => exact congrArg some (take_modulePath h hdir)
  have hcfg : (t.cfg.map fun _ => (modulePath t).length + 1 + t.func.length + 1).map (str buf) =
      t.cfg := by
    refine Eq.trans (Option.map_congr fun p hp => ?_) (map_str_cutBuf_cfg h.cfg)
    obtain ⟨_, _, rfl⟩ := Option.mem_map.mp hp
    exact hrest _ (by omega)
  simp only [target, Option.bind_eq_bind, Option.bind_some, Option.pure_def, hlast, hname, hcut,
    hmodule, hfunc, hdir, hcfg, str_cutBuf_module h.zero_notMem_modulePath]

/-- `libffi_init` on `[dir/]module[?],function[,cfg]` makes `init` use exactly these parts. -/
theorem Python.libffiInit_csv (py : Python σ M F) (h : t.Wf) (tq : UInt64) (s : σ) :
    target (pyState (csv (modulePath t) t.func t.cfg ++ [0])) = some t ∧
      py.libffiInit (csv (modulePath t) t.func t.cfg ++ [0]) tq s = some (py.load t tq s) := by
  refine ⟨target_csv h, ?_⟩
  rw [Python.libffiInit, target_csv h, Option.map_some]

/-- `a/b/n?,f,x,/?` -/
def slashTarget : Target where
  dir := some [97, slash, 98]
  module := [110]
  reload := true
  func := [102]
  cfg := some [120, comma, slash, question]

theorem slashTarget_wf : slashTarget.Wf := by
  constructor <;> decide

/-- An interpreter with the path as its state, where every module is found that is not loaded yet
and every function returns 0. -/
def Python.fresh : Python (List Bytes) Bytes Bytes where
  insertPath := List.cons
  getModule _ _ := none
  importModule name s := (some name, s)
  reloadModule m s := (some m, s)
  getFunc _ name _ := some name
  call _ _ _ s := (some 0, s)

theorem Python.fresh_slashTarget : slashTarget.Wf ∧
    target (pyState (csv (modulePath slashTarget) slashTarget.func slashTarget.cfg ++ [0])) =
      some slashTarget ∧
    Python.fresh.libffiInit (csv (modulePath slashTarget) slashTarget.func slashTarget.cfg ++ [0]) 7
      [] = some (0, [[97, slash, 98]]) :=
  ⟨slashTarget_wf, Python.fresh.libffiInit_csv slashTarget_wf 7 []⟩

end RestyFfi
