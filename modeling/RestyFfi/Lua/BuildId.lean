import Mathlib.Data.UInt
import RestyFfi.Base.CString
import RestyFfi.Base.Numeral
import RestyFfi.Lua.RegistryInv

/-!
# The build-id gate

`lua_resty_ffi_init` looks at variables of nginx whose addresses it knows only as offsets, and these
are right for one build of nginx. So it first compares the build-id of the running binary, in
hexadecimal, with the one that the offsets were taken from. The buffer for the text has
`len*2+100` bytes, in 32 bits: for a note of 2^31-50 bytes and more this is too small.
-/

namespace RestyFfi
open CString Numeral

/-- `struct build_id_note`, with `n_descsz` bytes of build-id. -/
@[ext]
structure BuildIdNote where
  descsz : UInt32
  buildId : List UInt8
  length_buildId : buildId.length = descsz.toNat

def BuildIdNote.buildIdLength (note : BuildIdNote) : UInt32 := note.descsz

def BuildIdNote.buildIdData (note : BuildIdNote) : List UInt8 := note.buildId

/-- The constants of `symbols.h`; `ngxBuildId` is the array of the string constant. -/
structure SymbolsH where
  ngxBuildId : List UInt8
  ngxThreadPoolDoneOffset : UInt64
  ngxThreadPoolDoneLockOffset : UInt64
  ngxThreadPoolHandlerOffset : UInt64

/-- The static pointers that `lua_resty_ffi_init` sets. -/
structure NgxSymbols where
  ngxThreadPoolDone : UInt64
  ngxThreadPoolDoneLock : UInt64
  ngxThreadPoolHandler : UInt64
  deriving DecidableEq

/-- How `lua_resty_ffi_init` ends; a mismatch is printed. -/
inductive BuildIdCheck where
  | noNote
  | mismatch (printed : LuaString)
  | resolved (symbols : NgxSymbols)

def BuildIdCheck.rc : BuildIdCheck → Int
  | .noNote => -1
  | .mismatch .. => -2
  | .resolved _ => 0

def mismatchText (buf ngxBuildId : List UInt8) : LuaString :=
  ascii "build-id mismatch, expected=" ++ buf ++ ascii ", actual=" ++ ngxBuildId ++ ascii "\n"

/-- The loop of `sprintf(buf + strlen(buf), "%02x", build_id[i])`; `none` is a write at or beyond
the end of the buffer. -/
def hexLoop (behind : Nat) : List UInt8 → List UInt8 → Option (List UInt8)
  | [], buf => some buf
  | b :: bs, buf => do
    let buf ← put buf (strlen behind buf) (printPad 16 2 b.toNat)
    hexLoop behind bs buf

section
/-! The variables of nginx that the offsets are relative to, and the memory behind the buffer. -/
variable (h : SymbolsH) (ngxCycle ngxCalloc : UInt64) (behind : Nat)

/-- `lua_resty_ffi_init()`, with the note that `build_id_find_nhdr_by_name("")` has found. -/
def luaRestyFfiInit : Option BuildIdNote → Option BuildIdCheck
  | none => some .noNote
  | some note => do
    let len := note.buildIdLength
    let buf := List.replicate (len * 2 + 100).toNat 0
    let buf ← hexLoop behind note.buildIdData buf
    if str buf 0 ≠ str h.ngxBuildId 0 then
      some (.mismatch (mismatchText (str buf 0) (str h.ngxBuildId 0)))
    else some (.resolved {
      ngxThreadPoolDone := ngxCycle + h.ngxThreadPoolDoneOffset
      ngxThreadPoolDoneLock := ngxCycle + h.ngxThreadPoolDoneLockOffset
      ngxThreadPoolHandler := ngxCalloc + h.ngxThreadPoolHandlerOffset })

/-- The function gets past the check. -/
def Accepts (note : BuildIdNote) : Prop :=
  ∃ symbols, luaRestyFfiInit h ngxCycle ngxCalloc behind (some note) = some (.resolved symbols)

/-- What the check is for. -/
structure Gated (note : BuildIdNote) : Prop where
  inBounds : luaRestyFfiInit h ngxCycle ngxCalloc behind (some note) ≠ none
  accepts_iff : Accepts h ngxCycle ngxCalloc behind note ↔ str h.ngxBuildId 0 = hex note.buildId
  unique : ∀ {note' behind'}, Accepts h ngxCycle ngxCalloc behind note →
    Accepts h ngxCycle ngxCalloc behind' note' → note = note'

end

variable {h : SymbolsH} {ngxCycle ngxCalloc : UInt64} {behind n : Nat} {note : BuildIdNote}
  {s bs : List UInt8}

/-- After `i` rounds the buffer holds the `2i` digits of `s`, and zeros. -/
theorem hexLoop_padded (hs : 0 ∉ s) (hlt : s.length < n) :
    hexLoop behind bs (padded n s) =
      if s.length + 2 * bs.length < n then some (padded n (s ++ hex bs)) else none := by
  induction bs generalizing s with
  | nil => simp [hexLoop, hlt, hex]
  | cons b bs ih =>
    have hlen := length_printPad_two b
    rw [hexLoop, strlen_padded hs hlt]
    by_cases hfits : s.length + 2 < n
    · have hput := put_padded (s := s) (t := printPad 16 2 b.toNat) (n := n) (by omega)
      have hzero : 0 ∉ s ++ printPad 16 2 b.toNat := by simp [hs, zero_notMem_printPad_two]
      rw [hput, Option.bind_eq_bind, Option.bind_some, ih hzero (by simp; omega), hex_cons,
        List.append_assoc, List.length_append, List.length_cons, hlen, Nat.mul_succ,
        Nat.add_comm (2 * bs.length), Nat.add_assoc]
    · have hput : put (padded n s) s.length (printPad 16 2 b.toNat) = none :=
        put_eq_none (by rw [length_padded (Nat.le_of_lt hlt)]; omega)
      rw [hput, if_neg (by simp; omega)]
      rfl

theorem hexLoop_replicate (hlt : 2 * bs.length < n) :
    hexLoop behind bs (List.replicate n 0) = some (padded n (hex bs)) := by
  have hrun : hexLoop behind bs (padded n []) = _ :=
    hexLoop_padded List.not_mem_nil (Nat.zero_lt_of_lt hlt)
  rwa [if_pos (by simpa using hlt)] at hrun

/-- A buffer that is too small is overrun, wherever the first `strlen` may end. -/
theorem hexLoop_eq_none (hbs : bs ≠ []) (hle : n ≤ 2 * bs.length) :
    hexLoop behind bs (List.replicate n 0) = none := by
  cases n with
  | zero =>
    obtain ⟨b, bs, rfl⟩ := List.exists_cons_of_ne_nil hbs
    rw [hexLoop, List.replicate_zero, put_eq_none (Nat.zero_le _)]
    rfl
  | succ n =>
    have hrun : hexLoop behind bs (padded (n + 1) []) = _ :=
      hexLoop_padded List.not_mem_nil n.succ_pos
    rwa [if_neg (by simpa using hle)] at hrun

theorem toNat_bufSize (len : UInt32) : (len * 2 + 100).toNat = (len.toNat * 2 + 100) % 2 ^ 32 := by
  simp

theorem luaRestyFfiInit_of_lt (hlt : note.descsz.toNat * 2 + 100 < 2 ^ 32) :
    luaRestyFfiInit h ngxCycle ngxCalloc behind (some note) =
      if hex note.buildId ≠ str h.ngxBuildId 0 then
        some (.mismatch (mismatchText (hex note.buildId) (str h.ngxBuildId 0)))
      else some (.resolved {
        ngxThreadPoolDone := ngxCycle + h.ngxThreadPoolDoneOffset
        ngxThreadPoolDoneLock := ngxCycle + h.ngxThreadPoolDoneLockOffset
        ngxThreadPoolHandler := ngxCalloc + h.ngxThreadPoolHandlerOffset }) := by
  have hlen : 2 * note.buildId.length < note.descsz.toNat * 2 + 100 := by
    rw [note.length_buildId]
    omega
  have hbuf : str (padded (note.descsz.toNat * 2 + 100) (hex note.buildId)) 0 = hex note.buildId :=
    str_padded (zero_notMem_hex _) (by rwa [length_hex])
  simp only [luaRestyFfiInit, BuildIdNote.buildIdLength, BuildIdNote.buildIdData, toNat_bufSize,
    Nat.mod_eq_of_lt hlt, hexLoop_replicate hlen, Option.bind_eq_bind, Option.bind_some, hbuf]

/-- The size wraps around, and is not enough any more. -/
theorem luaRestyFfiInit_of_le (hle : 2 ^ 32 ≤ note.descsz.toNat * 2 + 100) :
    luaRestyFfiInit h ngxCycle ngxCalloc behind (some note) = none := by
  have hlt : note.descsz.toNat < 2 ^ 32 := note.descsz.toNat_lt
  have hbs : note.buildId ≠ [] := by
    intro hnil
    have hlen := note.length_buildId
    rw [hnil, List.length_nil] at hlen
    omega
  have hsmall : (note.descsz.toNat * 2 + 100) % 2 ^ 32 ≤ 2 * note.buildId.length := by
    rw [note.length_buildId]
    omega
  simp only [luaRestyFfiInit, BuildIdNote.buildIdLength, BuildIdNote.buildIdData, toNat_bufSize,
    hexLoop_eq_none hbs hsmall, Option.bind_eq_bind, Option.bind_none]

theorem lt_of_accepts (ha : Accepts h ngxCycle ngxCalloc behind note) :
    note.descsz.toNat * 2 + 100 < 2 ^ 32 := by
  by_contra hle
  obtain ⟨symbols, hrun⟩ := ha
  rw [luaRestyFfiInit_of_le (not_lt.mp hle)] at hrun
  cases hrun

theorem accepts_iff_of_lt (hlt : note.descsz.toNat * 2 + 100 < 2 ^ 32) :
    Accepts h ngxCycle ngxCalloc behind note ↔ str h.ngxBuildId 0 = hex note.buildId := by
  rw [Accepts, luaRestyFfiInit_of_lt hlt]
  split_ifs with hne
  · exact iff_of_false (by simp) fun heq => hne heq.symm
  · exact iff_of_true ⟨_, rfl⟩ (not_not.mp hne).symm

theorem BuildIdNote.eq_of_buildId {note note' : BuildIdNote} (heq : note.buildId = note'.buildId) :
    note = note' := by
  apply BuildIdNote.ext _ heq
  apply UInt32.toNat_inj.mp
  rw [← note.length_buildId, ← note'.length_buildId, heq]

theorem not_gated_of_le (hle : 2 ^ 32 ≤ note.descsz.toNat * 2 + 100) :
    ¬ Gated h ngxCycle ngxCalloc behind note :=
  fun G => G.inBounds (luaRestyFfiInit_of_le hle)

/-- **The build-id gate.** It does its work exactly for the notes whose length does not make the
size of the buffer wrap around. -/
theorem gated_iff :
    Gated h ngxCycle ngxCalloc behind note ↔ note.descsz.toNat * 2 + 100 < 2 ^ 32 := by
  constructor
  · intro G
    by_contra hle
    exact not_gated_of_le (not_lt.mp hle) G
  · intro hlt
    refine ⟨?_, accepts_iff_of_lt hlt, fun {note' behind'} ha ha' => ?_⟩
    · rw [luaRestyFfiInit_of_lt hlt]
      split_ifs <;> simp
    · have hid := (accepts_iff_of_lt hlt).mp ha
      have hid' := (accepts_iff_of_lt (lt_of_accepts ha')).mp ha'
      exact BuildIdNote.eq_of_buildId (hex_injective (hid.symm.trans hid'))

/-- A note of 2^31-50 bytes, for which the buffer has none. -/
theorem wrappingNote_not_gated : ∃ note : BuildIdNote, note.descsz = 2147483598 ∧
    note.buildId = List.replicate 2147483598 0 ∧ ¬ Gated ⟨[0], 0, 0, 0⟩ 0 0 0 note := by
  have hlen : (2147483598 : UInt32).toNat = 2147483598 := rfl
  refine ⟨⟨2147483598, List.replicate 2147483598 0, ?_⟩, rfl, rfl, not_gated_of_le ?_⟩
  · rw [List.length_replicate, hlen]
  · rw [hlen]
    decide

/-! ## The gate stands before `load_ffi` -/

namespace LuaState
variable {Lib : Type} {resolve : LuaString → Lib} {L : LuaState Lib} {env : LoadEnv} {q : Nat}
  {lib : LuaString} {cfg : Option LuaString} {opts : Option Opts} {e : BuildIdCheck}

theorem loadFfi_unavailable_iff :
    (L.loadFfi resolve env q lib cfg opts).2 = .unavailable ↔
      (L.initialise resolve env).2 = false := by
  rcases hinit : L.initialise resolve env with ⟨L₁, ok⟩
  simp only [loadFfi, hinit]
  cases ok with
  | false => simp
  | true =>
    cases hk : L₁.runtimes (runtimeKey lib cfg) with
    | some o => simp [hk]
    | none =>
      simp only [hk]
      split
      · simp
      split
      · simp
      split
      · simp
      · simp

theorem loadFfi_ne_unavailable_iff :
    (L.loadFfi resolve env q lib cfg opts).2 ≠ .unavailable ↔
      L.init = true ∨ env.symbol = true ∨ env.resty = some 0 := by
  rw [ne_eq, loadFfi_unavailable_iff, Bool.not_eq_false, initialise_iff]

/-- Where the C side is not built into nginx, `load_ffi` gets on only past the check. -/
theorem loadFfi_available_iff (hinit : L.init = false) (hsym : env.symbol = false)
    (hrun : luaRestyFfiInit h ngxCycle ngxCalloc behind (some note) = some e)
    (hrc : env.resty = some e.rc) :
    (L.loadFfi resolve env q lib cfg opts).2 ≠ .unavailable ↔
      str h.ngxBuildId 0 = hex note.buildId := by
  have hlt : note.descsz.toNat * 2 + 100 < 2 ^ 32 := by
    by_contra hle
    rw [luaRestyFfiInit_of_le (not_lt.mp hle)] at hrun
    cases hrun
  have haccepts : Accepts h ngxCycle ngxCalloc behind note ↔ e.rc = 0 := by
    rw [Accepts, hrun]
    cases e <;> simp [BuildIdCheck.rc]
  rw [loadFfi_ne_unavailable_iff, ← accepts_iff_of_lt hlt, haccepts]
  simp [hinit, hsym, hrc]

end LuaState
end RestyFfi
