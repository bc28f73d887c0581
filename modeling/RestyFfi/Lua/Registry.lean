import RestyFfi.Base.Arena
import Mathlib.Data.List.Basic

/-!
# The Lua module

The state of `resty_ffi.lua` and its three entry points: `ngx.load_ffi`, a call of a runtime
object, and `__unload`. A call into the C side is not made here but returned (`CCall`), together
with the state that the Lua code leaves; `RestyFfi.Lua.System` makes it.

A field that `unload` has set to `nil` is filled again by the metatable: `__index` stores `post`
under every missing name, `tq`, `key` and `handle` included. `LuaState.Inv` is what keeps the
registry intact nevertheless.
-/

namespace RestyFfi

/-- A Lua string: any bytes. -/
abbrev LuaString := List UInt8

/-- A field of a runtime object: unset, holding the value `load_ffi` stored, or holding the function
`post` that `__index` stored. -/
inductive Slot (α : Type) where
  | nil
  | val (a : α)
  | post
  deriving DecidableEq, Repr

/-- A runtime object (`nffi`). Queues and library handles are named by number; `methods` are the
other names under which `__index` has stored `post`. -/
structure Nffi where
  finished : Bool
  key : Slot LuaString
  handle : Slot Nat
  tq : Slot Nat
  methods : List LuaString

/-- The names a method call can use. -/
inductive FieldName where
  | finished
  | key
  | handle
  | tq
  | unload
  | other (name : LuaString)
  deriving DecidableEq, Repr

/-- What a method name resolves to. -/
inductive Callee where
  | post
  | unload
  /-- A boolean, a string, a library handle or a pointer: calling it raises an error. -/
  | uncallable
  deriving DecidableEq, Repr

/-- `self[k]`, through `__index` if the field is unset. -/
def Slot.index : Slot α → Slot α × Callee
  | .nil => (.post, .post)
  | .val a => (.val a, .uncallable)
  | .post => (.post, .post)

/-- `self[name]`, with the `rawset` of `__index`. -/
def Nffi.index (n : Nffi) : FieldName → Nffi × Callee
  | .finished => (n, .uncallable)
  | .key => ({ n with key := n.key.index.1 }, n.key.index.2)
  | .handle => ({ n with handle := n.handle.index.1 }, n.handle.index.2)
  | .tq => ({ n with tq := n.tq.index.1 }, n.tq.index.2)
  | .unload => (n, .unload)
  | .other name =>
    if name ∈ n.methods then (n, .post)
    else ({ n with methods := name :: n.methods }, .post)

/-- The function that a call of the object runs; `none` is a call through `__call`. -/
def Nffi.resolve (n : Nffi) : Option FieldName → Nffi × Callee
  | none => (n, .post)
  | some name => n.index name

/-- The options of `load_ffi`; `unpin` is the truth value of `opts.unpin`. (`is_global` is only
passed on to `ffi.load`.) -/
structure Opts where
  maxQueue : Option Int := none
  unpin : Bool := false
  deriving DecidableEq, Repr

/-- The upvalues and tables of the module. `objs` are the runtime objects ever returned, `handles`
the library handles that are not collected, each with the library it keeps open. -/
structure LuaState (Lib : Type) where
  init : Bool
  restyFfi : Option Nat
  runtimes : LuaString → Option Nat
  pinLibs : LuaString → Option Nat
  objs : Arena Nffi
  handles : Arena Lib

/-- The answers of `ffi.load` and of the loaded code during one `load_ffi`; `none` (or `false`)
where an error is raised. -/
structure LoadEnv where
  /-- `pcall(test_symbol, "ngx_http_lua_ffi_create_task_queue")`. -/
  symbol : Bool
  /-- `ffi.load("resty_ffi", true)` with the result of its `lua_resty_ffi_init()`. -/
  resty : Option Int
  /-- `ffi.load(lib)`. -/
  lib : Bool
  /-- `nffi.handle.libffi_init(buf, tq)`. The library may have no such function: the index raises an
  error. -/
  libffiInit : Option Int
  deriving DecidableEq, Repr

/-- The C side is there, the library is found and accepts. -/
def LoadEnv.ok : LoadEnv := ⟨true, none, true, some 0⟩

/-- The bytes of an ASCII string. -/
def ascii (s : String) : LuaString := s.toList.map fun c => c.val.toUInt8

/-- How `load_ffi` ends. -/
inductive LoadResult (Lib : Type) where
  /-- An error before the queue is created. -/
  | unavailable
  | cached (o : Nat)
  /-- `ffi.load(lib)` raised an error. -/
  | notFound
  /-- The library has no `libffi_init`: an error. -/
  | noSymbol (lib : Lib)
  /-- `libffi_init` returned `rc`: `nil, rc`. -/
  | refused (lib : Lib) (rc : Int)
  | loaded (o : Nat) (lib : Lib)

/-- The ends of `load_ffi` that come after `ngx_http_lua_ffi_create_task_queue`. -/
def LoadResult.createsQueue : LoadResult Lib → Bool
  | .unavailable | .cached _ => false
  | .notFound | .noSymbol _ | .refused .. | .loaded .. => true

/-- The call into the C side that a Lua call makes. -/
inductive CCall where
  | none
  /-- `ngx_http_lua_ffi_task_post(r, q, ..)`. -/
  | post (q : Nat)
  /-- `ngx_http_lua_ffi_task_finish(q)`. -/
  | finish (q : Nat)
  deriving DecidableEq, Repr

/-- `post(self, req)` up to its call of `ngx_http_lua_ffi_task_post`. There is none if the runtime is
finished; without a queue the argument is the function `post`, which raises an error. -/
def Nffi.post (n : Nffi) : Nffi × CCall :=
  if n.finished then (n, .none)
  else match n.tq with
    | .nil | .post => ({ n with tq := .post }, .none)
    | .val q => (n, .post q)

/-- `max_queue`, with its default. -/
def Opts.maxQueueOf (opts : Option Opts) : Int :=
  match opts with
  | none => 65536
  | some o => o.maxQueue.getD 65536

/-- `(not opts) or (not opts.unpin)`. -/
def Opts.isPin (opts : Option Opts) : Bool :=
  match opts with
  | none => true
  | some o => !o.unpin

/-- `lib`, or `lib .. "&" .. cfg`. -/
def runtimeKey (lib : LuaString) (cfg : Option LuaString) : LuaString :=
  match cfg with
  | none => lib
  | some cfg => lib ++ 38 :: cfg

namespace LuaState
variable {Lib : Type}

def empty : LuaState Lib := ⟨false, none, fun _ => none, fun _ => none, .empty, .empty⟩

section
/-! The dynamic linker finds the library of a name. Several names may belong to one library. -/
variable (resolve : LuaString → Lib)

/-- The first part of `load_ffi`: find the C side, or load it. `false` if that raised an error. -/
def initialise (s : LuaState Lib) (env : LoadEnv) : LuaState Lib × Bool :=
  if s.init then (s, true)
  else if env.symbol then ({ s with init := true }, true)
  else match env.resty with
    | none => (s, false)
    | some rc =>
      let h := s.handles.next
      let s := { s with handles := s.handles.push (resolve (ascii "resty_ffi")) }
      if rc ≠ 0 then (s, false)
      else ({ s with restyFfi := some h, init := true }, true)

/-- `ffi_load(lib, is_global, is_pin)` after a successful `ffi.load`. -/
def ffiLoad (s : LuaState Lib) (lib : LuaString) (isPin : Bool) : LuaState Lib :=
  { s with
    handles := s.handles.push (resolve lib)
    pinLibs := if isPin then Function.update s.pinLibs lib (some s.handles.next) else s.pinLibs }

/-- `runtimes[key] = nffi`. -/
def register (s : LuaState Lib) (key : LuaString) (nffi : Nffi) : LuaState Lib :=
  { s with
    objs := s.objs.push nffi
    runtimes := Function.update s.runtimes key (some s.objs.next) }

/-- `ngx.load_ffi(lib, cfg, opts)`. A queue that it creates is the one numbered `q`. -/
def loadFfi (s : LuaState Lib) (env : LoadEnv) (q : Nat) (lib : LuaString)
    (cfg : Option LuaString) (opts : Option Opts) : LuaState Lib × LoadResult Lib :=
  match s.initialise resolve env with
  | (s, false) => (s, .unavailable)
  | (s, true) =>
    let key := runtimeKey lib cfg
    match s.runtimes key with
    | some o => (s, .cached o)
    | none =>
      if !env.lib then (s, .notFound)
      else
        let h := s.handles.next
        let s := s.ffiLoad resolve lib (Opts.isPin opts)
        -- an object whose `libffi_init` failed is dropped
        match env.libffiInit with
        | none => (s, .noSymbol (resolve lib))
        | some rc =>
          if rc ≠ 0 then (s, .refused (resolve lib) rc)
          else (s.register key ⟨false, .val key, .val h, .val q, []⟩,
            .loaded s.objs.next (resolve lib))

end

/-- `unload(self)`. Reading an unset field gives `post`, so a missing queue makes the call of
`task_finish` raise an error, and a missing key clears no entry of `runtimes`. -/
def unload (s : LuaState Lib) (o : Nat) (n : Nffi) : LuaState Lib × CCall :=
  if n.finished then (s, .none)
  else
    let n := { n with finished := true, handle := .nil }
    match n.tq with
    | .nil | .post => ({ s with objs := s.objs.modify o fun _ => { n with tq := .post } }, .none)
    | .val q =>
      ({ s with
        objs := s.objs.modify o fun _ => { n with tq := .nil, key := .nil }
        runtimes := match n.key with
          | .nil | .post => s.runtimes
          | .val k => Function.update s.runtimes k none }, .finish q)

/-- A call on the object `o`: `o:name(req)`, or `o(req)` through `__call`. -/
def call (s : LuaState Lib) (o : Nat) (name : Option FieldName) : LuaState Lib × CCall :=
  match s.objs.get o with
  | none => (s, .none)
  | some n =>
    let (n, callee) := n.resolve name
    match callee with
    | .uncallable => ({ s with objs := s.objs.modify o fun _ => n }, .none)
    | .post => ({ s with objs := s.objs.modify o fun _ => n.post.1 }, n.post.2)
    | .unload => s.unload o n

/-- A handle that the tables still reach, directly or through a registered runtime object. -/
def Reaches (s : LuaState Lib) (h : Nat) : Prop :=
  s.restyFfi = some h ∨ (∃ name, s.pinLibs name = some h) ∨
    ∃ k o n, s.runtimes k = some o ∧ s.objs.get o = some n ∧ n.handle = .val h

end LuaState
end RestyFfi
