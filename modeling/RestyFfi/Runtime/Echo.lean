import RestyFfi.Base.CString
import RestyFfi.Worker.Matching

/-!
# Echo runtimes

What a request goes through on its way to a runtime and back: a Lua string, a buffer with its length
and a `NUL` behind it, whatever the runtime makes of it, and the response that the event handler
pushes. A length of 0 is special on the way back: the handler then takes the response for a C
string.

The runtime of `echo.go` copies the bytes by their length. The binding of Node.js decodes them to a
JavaScript string and encodes it again, and loses the length to a shadowed variable.
-/

namespace RestyFfi
open Transition

/-- The arguments that a runtime gives to `ngx_http_lua_ffi_respond`. -/
structure Reply where
  rc : Int
  rsp : Option Bytes
  len : Int
  deriving DecidableEq, Repr

/-- The runtime replies to the task `i`, with the new buffer `j`. -/
def WorkerEvent.reply (i j : Nat) (r : Reply) : WorkerEvent Th Lib Co :=
  .respond i r.rc r.rsp j r.len

/-! ## The echo runtime of `echo.go` -/

/-- `memcpy(dst, src, n)`: the contents of the block `dst`. -/
def memcpy (dst src : Bytes) (n : Nat) : Bytes := src.take n ++ dst.drop n

/-- The body of the loop in `libffi_init`, given what `ngx_http_lua_ffi_get_req` yields. `res` is
the block that `malloc` returns, with arbitrary contents. -/
def goEcho (req : Option Bytes × Int) (res : Bytes) : Reply :=
  ⟨0, some (memcpy res (req.1.getD []) req.2.toNat), req.2⟩

theorem memcpy_reqBuffer {req res : Bytes} (h : res.length = req.length) :
    memcpy res (req ++ [0]) req.length = req := by
  simp [memcpy, ← h]

theorem goEcho_eq {req res : Bytes} (h : res.length = req.length) :
    goEcho (reqBuffer (some req), reqLength (some req)) res = ⟨0, some req, req.length⟩ := by
  simp [goEcho, reqBuffer, reqLength, memcpy_reqBuffer h]

/-- The answer is right unless it has no byte: then the handler looks for a `NUL` in nothing. -/
theorem answer_by_length (req : Bytes) :
    answer 0 (some req) req.length = [.bool true, .str req, .nil] ↔ req ≠ [] := by
  cases req with
  | nil => simp [answer, response, pushstring]
  | cons b bs =>
    have hne : ((b :: bs).length : Int) ≠ 0 := by
      rw [List.length_cons]
      omega
    simp only [answer, response, pushlstring, if_true, if_pos hne, Int.natCast_nonneg, true_and,
      Int.le_refl, Int.toNat_natCast, List.take_length, ne_eq, reduceCtorEq, not_false_eq_true]

/-! ## The echo runtime of `echo.js` -/

/-- The bytes of a JavaScript string in UTF-8. -/
def utf8 (v : String) : Bytes := v.toByteArray.data.toList

def IsUtf8 (s : Bytes) : Prop := ByteArray.IsValidUTF8 ⟨s.toArray⟩

section
/-! What becomes of bytes that are not UTF-8 does not matter here. -/
variable (lossy : Bytes → String)

/-- `napi_create_string_utf8(env, buf, len)`. -/
def napiCreateStringUtf8 (buf : Bytes) (len : Int) : String :=
  (String.fromUTF8? ⟨(buf.take len.toNat).toArray⟩).getD (lossy (buf.take len.toNat))

/-- `napi_get_value_string_utf8(env, v, NULL, 0, &size)`. -/
def napiStringSize (v : String) : Nat := (utf8 v).length

/-- `napi_get_value_string_utf8(env, v, buf, bufsize, &len)`: the buffer gets at most `bufsize - 1`
bytes and a `NUL`. -/
def napiGetValueStringUtf8 (v : String) (buf : Bytes) (bufsize : Nat) : Bytes × Nat :=
  let s := (utf8 v).take (bufsize - 1)
  (memcpy buf (s ++ [0]) (s.length + 1), s.length)

/-- `get_req` of the binding; a request `NULL` is `undefined`. -/
def nodeGetReq (req : Option Bytes × Int) : Option String :=
  req.1.map (napiCreateStringUtf8 lossy · req.2)

/-- `respond` of the binding; `none` is a call without `rsp`. The length of the string goes to the
inner variable `len`; what is passed on is the outer one. An `rsp` that is no string, as
`undefined`, leaves `str_size` without a value and is not modelled. -/
def nodeRespond (rc : Int) (v : Option String) : Reply :=
  let len : Int := 0
  match v with
  | none => ⟨rc, none, len⟩
  | some v =>
    let size := napiStringSize v
    let buf := List.replicate (size + 1) 0
    let (buf, _) := napiGetValueStringUtf8 v buf (size + 1)
    ⟨rc, some buf, len⟩

/-- The listener of `echo.js`. A request `NULL` would be an `rsp` that is no string. -/
def nodeEcho (req : Option Bytes × Int) : Option Reply :=
  (nodeGetReq lossy req).map fun v => nodeRespond 0 (some v)

variable {lossy : Bytes → String}

theorem utf8_napiCreateStringUtf8 {s rest : Bytes} (hs : IsUtf8 s) :
    utf8 (napiCreateStringUtf8 lossy (s ++ rest) s.length) = s := by
  have htake : (s ++ rest).take (s.length : Int).toNat = s := by simp
  have hdec : String.fromUTF8? ⟨s.toArray⟩ = some (.fromUTF8 ⟨s.toArray⟩ hs) := dif_pos hs
  rw [napiCreateStringUtf8, htake, hdec, Option.getD_some]
  rfl

theorem nodeEcho_eq (lossy : Bytes → String) {req : Bytes} (h : IsUtf8 req) :
    nodeEcho lossy (reqBuffer (some req), reqLength (some req)) =
      some ⟨0, some (req ++ [0]), 0⟩ := by
  have hv : utf8 (napiCreateStringUtf8 lossy (req ++ [0]) (req.length : Int)) = req :=
    utf8_napiCreateStringUtf8 h
  simp [nodeEcho, nodeGetReq, reqBuffer, reqLength, nodeRespond, napiStringSize,
    napiGetValueStringUtf8, hv, memcpy]

end

/-- The answer is what stands before the first `NUL`. -/
theorem answer_by_nul (req : Bytes) :
    answer 0 (some (req ++ [0])) 0 = [.bool true, .str req, .nil] ↔ 0 ∉ req := by
  have hpush : pushstring (req ++ [0]) = .str ((req ++ [0]).takeWhile (· ≠ 0)) := by
    simp [pushstring]
  have hvals : answer 0 (some (req ++ [0])) 0 =
      [.bool true, .str ((req ++ [0]).takeWhile (· ≠ 0)), .nil] := by
    simp only [answer, response, if_true, ne_eq, not_true_eq_false, if_false, hpush]
  rw [hvals]
  simp only [List.cons.injEq, LuaVal.str.injEq, and_true, true_and]
  exact CString.takeWhile_eq_iff

/-! ## There and back -/

namespace Worker
variable {Th Lib Co : Type} [DecidableEq Th] [DecidableEq Co] {resolve : LuaString → Lib}
  {w : Worker Th Lib Co} {ls : List (WorkerEvent Th Lib Co)} {c : Co} {q i j : Nat}
  {env : TaskQueue.PostEnv}

/-- The event handler resumes the coroutine that posted with the answer that its runtime gave. -/
theorem Runs.eventHandler_eq {req : Option Bytes} {r : Reply} {a k : Nat} {rest : List Nat}
    {t : FfiTaskCtx Co} (H : Runs resolve ls w) (hp : .post c q env i req j .ok ∈ ls)
    (hr : .reply i k r ∈ ls) (ht : w.tasks.cells a = some (i, t)) (hab : t.isAbort = false) :
    (eventHandler { w with drained := rest } {} a t).2 =
      .resumed c (answer r.rc r.rsp r.len) := by
  rw [eventHandler, hab]
  simp only [Bool.false_eq_true, if_false, Bool.not_true]
  rw [(H.task_eq hp ht).1, H.pushed_eq hr ht]

/-- **Transport by length.** A runtime finds the request with its length and a `NUL` behind it, and
the echo of `echo.go` comes back as it went exactly if it is not empty. -/
theorem Runs.goEcho_iff {req : Bytes} (H : Runs resolve ls w)
    (hp : .post c q env i (some req) j .ok ∈ ls) :
    (∀ {a t}, w.tasks.cells a = some (i, t) →
      t.getReq w.bufs = (some (req ++ [0]), (req.length : Int))) ∧
    ∀ {a t rest res k}, res.length = req.length →
      .reply i k (goEcho (some (req ++ [0]), (req.length : Int)) res) ∈ ls →
      w.tasks.cells a = some (i, t) → t.isAbort = false →
      ((eventHandler { w with drained := rest } {} a t).2 =
        .resumed c [.bool true, .str req, .nil] ↔ req ≠ []) := by
  refine ⟨fun ht => (H.task_eq hp ht).2, fun hres hr ht hab => ?_⟩
  have he := goEcho_eq hres
  simp only [reqBuffer, reqLength] at he
  rw [H.eventHandler_eq hp hr ht hab, he, Handled.resumed.injEq, answer_by_length]
  exact and_iff_right rfl

/-- A byte goes there and back. -/
theorem goEcho_one_byte : ∃ (w : Worker Unit LuaString Unit) (t : FfiTaskCtx Unit),
    Runs id (askRun [104] [104] 1) w ∧ w.drained = [0] ∧ w.tasks.cells 0 = some (0, t) ∧
      (eventHandler { w with drained := [] } {} 0 t).2 =
        .resumed () [.bool true, .str [104], .nil] := by
  obtain ⟨w, t, H, hd, ht, hab, _⟩ := askRun_runs [104] [104] 1
  have hp : .post () 0 {} 0 (some [104]) 0 .ok ∈ askRun [104] [104] 1 := by simp [askRun]
  have hr : .reply 0 1 (goEcho (some ([104] ++ [0]), 1) [7]) ∈ askRun [104] [104] 1 := by
    simp [askRun, WorkerEvent.reply, goEcho, memcpy]
  exact ⟨w, t, H, hd, ht, ((Runs.goEcho_iff H hp).2 rfl hr ht hab).mpr (by simp)⟩

/-- The empty request comes back as whatever stands behind a block of no bytes. -/
theorem goEcho_empty_wild : ∃ (w : Worker Unit LuaString Unit) (t : FfiTaskCtx Unit),
    Runs id (askRun [] [] 0) w ∧ w.drained = [0] ∧ w.tasks.cells 0 = some (0, t) ∧
      (⟨0, some [], 0⟩ : Reply) = goEcho (some ([] ++ [0]), 0) [] ∧
      (eventHandler { w with drained := [] } {} 0 t).2 = .resumed () [.bool true, .wild, .nil] := by
  obtain ⟨w, t, H, hd, ht, hab, hvals⟩ := askRun_runs [] [] 0
  refine ⟨w, t, H, hd, ht, rfl, ?_⟩
  rw [eventHandler, hab]
  simp only [hvals]
  rfl

/-- **The echo law of the Node.js binding** holds exactly for text without U+0000, which is the only
character with a zero byte in UTF-8. -/
theorem Runs.nodeEcho_iff {req : Bytes} {lossy : Bytes → String} {r : Reply} {a k : Nat}
    {rest : List Nat} {t : FfiTaskCtx Co} (H : Runs resolve ls w)
    (hp : .post c q env i (some req) j .ok ∈ ls) (hu : IsUtf8 req)
    (hecho : nodeEcho lossy (some (req ++ [0]), (req.length : Int)) = some r)
    (hr : .reply i k r ∈ ls)
    (ht : w.tasks.cells a = some (i, t)) (hab : t.isAbort = false) :
    (eventHandler { w with drained := rest } {} a t).2 =
      .resumed c [.bool true, .str req, .nil] ↔ 0 ∉ req := by
  have he := nodeEcho_eq lossy hu
  simp only [reqBuffer, reqLength] at he
  rw [he] at hecho
  cases hecho
  rw [H.eventHandler_eq hp hr ht hab, Handled.resumed.injEq, answer_by_nul]
  exact and_iff_right rfl

theorem nodeEcho_one_byte : ∃ (w : Worker Unit LuaString Unit) (t : FfiTaskCtx Unit),
    Runs id (askRun [104] [104, 0] 0) w ∧ w.drained = [0] ∧ w.tasks.cells 0 = some (0, t) ∧
      (eventHandler { w with drained := [] } {} 0 t).2 =
        .resumed () [.bool true, .str [104], .nil] := by
  obtain ⟨w, t, H, hd, ht, hab, _⟩ := askRun_runs [104] [104, 0] 0
  have hu : IsUtf8 [104] := ⟨['h'], rfl⟩
  have hp : .post () 0 {} 0 (some [104]) 0 .ok ∈ askRun [104] [104, 0] 0 := by simp [askRun]
  have he : nodeEcho (fun _ => "") (some ([104] ++ [0]), 1) = some ⟨0, some [104, 0], 0⟩ :=
    nodeEcho_eq _ hu
  have hr : .reply 0 1 ⟨0, some [104, 0], 0⟩ ∈ askRun [104] [104, 0] 0 := by
    simp [askRun, WorkerEvent.reply]
  exact ⟨w, t, H, hd, ht, (Runs.nodeEcho_iff H hp hu he hr ht hab).mpr (by simp)⟩

/-- A string with U+0000 in it comes back cut. -/
theorem nodeEcho_cut_at_nul : ∃ (w : Worker Unit LuaString Unit) (t : FfiTaskCtx Unit),
    Runs id (askRun [97, 0, 98] [97, 0, 98, 0] 0) w ∧ w.drained = [0] ∧
      w.tasks.cells 0 = some (0, t) ∧ IsUtf8 [97, 0, 98] ∧
      nodeEcho (fun _ => "") (some ([97, 0, 98] ++ [0]), 3) = some ⟨0, some [97, 0, 98, 0], 0⟩ ∧
      (eventHandler { w with drained := [] } {} 0 t).2 =
        .resumed () [.bool true, .str [97], .nil] := by
  obtain ⟨w, t, H, hd, ht, hab, hvals⟩ := askRun_runs [97, 0, 98] [97, 0, 98, 0] 0
  have hu : IsUtf8 [97, 0, 98] := ⟨['a', Char.ofNat 0, 'b'], rfl⟩
  refine ⟨w, t, H, hd, ht, hu, nodeEcho_eq _ hu, ?_⟩
  rw [eventHandler, hab]
  simp only [hvals]
  rfl

end Worker
end RestyFfi
