import RestyFfi.Base.Numeral
import RestyFfi.Runtime.Csv
import RestyFfi.Runtime.Echo

/-!
# The Node.js loader

`libffi_init` of the Node.js loader prints the task queue and its configuration into a buffer and
sends that to the thread of Node.js, where a handler takes it apart, calls the function and sends
the result back. One `send` is one `data` event.
-/

namespace RestyFfi
open CString

/-- `sizeof(buf)` -/
def bufSize : Nat := 8192

/-- `%p` -/
def fmtPtr (p : UInt64) : Bytes :=
  if p = 0 then [40, 110, 105, 108, 41] else 48 :: 120 :: Numeral.print 16 p.toNat

/-- `BigInt(s)` for a hexadecimal or decimal numeral; `none` is a `SyntaxError`. -/
def bigInt (s : Bytes) : Option Nat :=
  match s with
  | 48 :: 120 :: digits => Numeral.read 16 digits
  | digits => Numeral.read 10 digits

/-- `require(mod)[func](cfg, tq)` -/
structure JsCall where
  mod : Bytes
  func : Bytes
  cfg : Bytes
  tq : Nat
deriving DecidableEq

/-- What the handler uses of Node.js: `toString` of a buffer, where what is not UTF-8 is replaced
but no ASCII character is, `require.resolve`, and the functions of the modules. A JavaScript string
is known by its bytes in UTF-8; `none` is an exception. Of what a function returns, only the text of
`rc.toString()` is used; `none` is an exception of the function or of this. -/
structure NodeEnv where
  toText : Bytes → Bytes
  toText_ascii : ∀ {c : UInt8} (a b : Bytes), c < 128 →
    toText (a ++ c :: b) = toText a ++ c :: toText b
  toText_utf8 : ∀ {a : Bytes}, IsUtf8 a → toText a = a
  comma_notMem_toText : ∀ {a : Bytes}, comma ∉ a → comma ∉ toText a
  resolve : Bytes → Option Bytes
  func : Bytes → Bytes → Option (Bytes → Nat → Option Bytes)

namespace NodeEnv

/-- `"undefined"`, the name that an index by `undefined` stands for. -/
def undefinedName : Bytes := [117, 110, 100, 101, 102, 105, 110, 101, 100]

/-- A `?` behind the module is taken off. -/
def strip (env : NodeEnv) (mod : Bytes) : Option Bytes :=
  if mod.getLast? = some question then (env.resolve mod.dropLast).map fun _ => mod.dropLast
  else some mod

/-- The call that the handler makes; `none` is an exception. `cfg` is a `const`, so that the
assignment for four items throws. -/
def decode (env : NodeEnv) (data : Bytes) : Option JsCall := do
  let arr := (env.toText data).splitOn comma
  let tq ← bigInt (← arr[0]?)
  let mod ← arr[1]?
  let func := arr[2]?.getD undefinedName
  let cfg := []
  if arr.length = 4 then none
  else
    let mod ← env.strip mod
    return ⟨mod, func, cfg, tq⟩

/-- The handler of the connection: the call it makes, and what it writes. -/
def handler (env : NodeEnv) (data : Bytes) : Option JsCall × Bytes :=
  match env.decode data with
  | none => (none, [49])
  | some call =>
    match env.func call.mod call.func with
    | none => (none, [49])
    | some f =>
      match f call.cfg call.tq with
      | none => (some call, [49])
      | some text => (some call, text)

/-- `rc.toString()` for a function that returns a C int. -/
def intText (f : Bytes → Nat → Option Int32) (cfg : Bytes) (tq : Nat) : Option Bytes :=
  (f cfg tq).map fun rc => Numeral.printInt rc.toInt

/-- `sscanf(buf, "%d", &ret)`, in the buffer that was zeroed before. -/
def scanRet (reply : Bytes) : Int32 := .ofInt ((Numeral.scanInt (reply ++ [0])).getD 0)

/-- What `recv` and `sscanf` make of a reply. `recv` waits on if it is empty; a reply that fills the
buffer is left out here. -/
def received (reply : Bytes) : Option Int32 :=
  if reply ≠ [] ∧ reply.length < bufSize then some (scanRet reply) else none

def message (cfg : Bytes) (tq : UInt64) : Bytes := fmtPtr tq ++ comma :: str cfg 0

/-- `libffi_init`, when there is a connection: the call that is made for it, and what it returns.
`none` is a write past the buffer, or a reply that is not received whole. -/
def libffiInit (env : NodeEnv) (cfg : Bytes) (tq : UInt64) : Option (Option JsCall × Int32) :=
  if (message cfg tq).length + 1 ≤ bufSize then
    let (call, reply) := env.handler (message cfg tq)
    (received reply).map (call, ·)
  else none

variable {env : NodeEnv} {mod func : Bytes} {cfg : Option Bytes} {reload : Bool} {tq : UInt64}

theorem received_of {reply : Bytes} (h : reply ≠ [] ∧ reply.length < bufSize) :
    received reply = some (scanRet reply) := if_pos h

theorem libffiInit_of_fits {cfg : Bytes} (h : (message cfg tq).length + 1 ≤ bufSize) :
    env.libffiInit cfg tq = (received (env.handler (message cfg tq)).2).map
      ((env.handler (message cfg tq)).1, ·) := if_pos h

/-! ## What the handler makes of a message -/

theorem toText_of_ascii {s : Bytes} (h : ∀ c ∈ s, c < 128) : env.toText s = s := by
  induction s with
  | nil => exact env.toText_utf8 ⟨[], rfl⟩
  | cons c s ih =>
    have hc : env.toText ([] ++ c :: s) = env.toText [] ++ c :: env.toText s :=
      env.toText_ascii [] s (h c (by simp))
    rw [ih fun c hc => h c (by simp [hc]), env.toText_utf8 ⟨[], rfl⟩] at hc
    exact hc

theorem fmtPtr_ascii (p : UInt64) : ∀ c ∈ fmtPtr p, c < 128 ∧ c ≠ comma := by
  rw [fmtPtr]
  split_ifs
  · have hnil : ([40, 110, 105, 108, 41] : Bytes).all fun c => decide (c < 128 ∧ c ≠ comma) := by
      decide
    exact fun c hc => of_decide_eq_true (List.all_eq_true.mp hnil c hc)
  · obtain ⟨ds, hprint, hds, -⟩ := Numeral.exists_print (b := 16) (n := p.toNat) (by decide)
    have hdigit : ∀ d < 16, Numeral.digitChar d < 128 ∧ Numeral.digitChar d ≠ comma := by decide
    rw [hprint, List.forall_mem_cons, List.forall_mem_cons, List.forall_mem_map]
    exact ⟨by decide, by decide, fun d hd => hdigit d (hds d hd)⟩

theorem comma_notMem_fmtPtr (p : UInt64) : comma ∉ fmtPtr p :=
  fun h => (fmtPtr_ascii p comma h).2 rfl

theorem bigInt_fmtPtr (p : UInt64) : bigInt (fmtPtr p) = if p = 0 then none else some p.toNat := by
  rw [fmtPtr]
  split_ifs
  · decide
  · exact Numeral.read_print (by decide) (by decide)

/-- Names and text without a 0; the names are UTF-8 and have no comma. -/
structure IsText (mod func : Bytes) (cfg : Option Bytes) : Prop where
  mod : 0 ∉ mod ∧ comma ∉ mod ∧ IsUtf8 mod
  func : 0 ∉ func ∧ comma ∉ func ∧ IsUtf8 func
  cfg : ∀ c ∈ cfg, 0 ∉ c

theorem toText_message (h : IsText mod func cfg) :
    env.toText (fmtPtr tq ++ comma :: csv (mod ++ mark reload) func cfg) =
      fmtPtr tq ++ comma :: csv (mod ++ mark reload) func (cfg.map env.toText) := by
  have hcomma : comma < 128 := by decide
  have hmod : env.toText (mod ++ mark reload) = mod ++ mark reload := by
    cases reload with
    | false => simpa [mark] using env.toText_utf8 h.mod.2.2
    | true =>
      have key := env.toText_ascii mod [] (show question < 128 by decide)
      rw [env.toText_utf8 h.mod.2.2, env.toText_utf8 ⟨[], rfl⟩] at key
      exact key
  rw [env.toText_ascii _ _ hcomma, toText_of_ascii fun c hc => (fmtPtr_ascii tq c hc).1, csv,
    env.toText_ascii _ _ hcomma, hmod, csvRest]
  cases cfg with
  | none => simp [csv, csvRest, env.toText_utf8 h.func.2.2]
  | some c =>
    rw [Option.elim_some, env.toText_ascii _ _ hcomma, env.toText_utf8 h.func.2.2]
    rfl

/-- The items behind the function. -/
def cfgItems (env : NodeEnv) (cfg : Option Bytes) : List Bytes :=
  cfg.elim [] fun c => (env.toText c).splitOn comma

theorem length_cfgItems_eq_one :
    (env.cfgItems cfg).length = 1 ↔ ∃ c, cfg = some c ∧ comma ∉ c := by
  cases cfg with
  | none => simp [cfgItems]
  | some c =>
    simp only [cfgItems, Option.elim_some, Option.some.injEq, exists_eq_left']
    constructor
    · intro h hmem
      obtain ⟨a, b, rfl, -⟩ := List.eq_append_cons_of_mem hmem
      rw [env.toText_ascii _ _ (show comma < 128 by decide), List.splitOn_append_cons_self,
        List.length_append] at h
      have ha := List.length_pos_iff.mpr (List.splitOn_ne_nil comma (env.toText a))
      have hb := List.length_pos_iff.mpr (List.splitOn_ne_nil comma (env.toText b))
      omega
    · intro h
      rw [List.splitOn_eq_singleton (env.comma_notMem_toText h)]
      rfl

theorem decode_message (h : IsText mod func cfg) :
    env.decode (fmtPtr tq ++ comma :: csv (mod ++ mark reload) func cfg) =
      if tq = 0 ∨ ∃ c, cfg = some c ∧ comma ∉ c then none
      else (env.strip (mod ++ mark reload)).map fun mod => ⟨mod, func, [], tq.toNat⟩ := by
  have hmod : comma ∉ mod ++ mark reload := by
    simp [h.mod.2.1, notMem_mark (show comma ≠ question by decide)]
  have harr : (env.toText (fmtPtr tq ++ comma :: csv (mod ++ mark reload) func cfg)).splitOn comma =
      fmtPtr tq :: (mod ++ mark reload) :: func :: env.cfgItems cfg := by
    rw [toText_message h, List.splitOn_append_cons_self_of_not_mem (comma_notMem_fmtPtr tq),
      splitOn_csv hmod h.func.2.1, cfgItems, Option.elim_map]
    rfl
  have hone : (env.cfgItems cfg).length = 1 ↔ ∃ c, cfg = some c ∧ comma ∉ c :=
    length_cfgItems_eq_one
  have hlen : (env.cfgItems cfg).length + 1 + 1 + 1 = 4 ↔ ∃ c, cfg = some c ∧ comma ∉ c := by
    rw [← hone]
    omega
  simp only [decode, harr, List.length_cons, hlen, List.getElem?_cons_zero, List.getElem?_cons_succ,
    Option.bind_eq_bind, Option.bind_some, Option.getD_some, bigInt_fmtPtr]
  by_cases htq : tq = 0
  · simp [htq]
  · simp only [htq, if_false, Option.bind_some, false_or]
    split_ifs
    · rfl
    · rw [Option.map_eq_bind]
      rfl

theorem strip_mark_eq_iff (hres : (env.resolve mod).isSome) :
    env.strip (mod ++ mark reload) = some mod ↔ reload = true ∨ mod.getLast? ≠ some question := by
  rw [strip]
  cases reload with
  | true =>
    obtain ⟨path, hpath⟩ := Option.isSome_iff_exists.mp hres
    simp [mark, hpath]
  | false =>
    simp only [mark, Bool.false_eq_true, if_false, List.append_nil, false_or]
    split_ifs with hlast
    · refine iff_of_false (fun h => ?_) (not_not.mpr hlast)
      obtain ⟨_, -, hmod⟩ := Option.map_eq_some_iff.mp h
      have hlen : mod.length - 1 = mod.length := by
        rw [← List.length_dropLast, hmod]
      have hnil : mod = [] := List.length_eq_zero_iff.mp (by omega)
      simp [hnil] at hlast
    · exact iff_of_true rfl hlast

/-! ## What is delivered -/

/-- The function is called with the configuration, or `''` for none, and the task queue, and its
result is what `libffi_init` returns. -/
def Delivered (env : NodeEnv) (mod : Bytes) (reload : Bool) (func : Bytes) (cfg : Option Bytes)
    (tq : UInt64) (f : Bytes → Nat → Option Int32) : Prop :=
  ∃ ret, env.libffiInit (csv (mod ++ mark reload) func cfg ++ [0]) tq =
      some (some ⟨mod, func, cfg.getD [], tq.toNat⟩, ret) ∧
    ∀ rc, f (cfg.getD []) tq.toNat = some rc → ret = rc

/-- Without a configuration proper, if the message fits, the pointer is not NULL and no `?` of the
module is taken for the one that asks for a reload. -/
structure Deliverable (mod : Bytes) (reload : Bool) (func : Bytes) (cfg : Option Bytes)
    (tq : UInt64) : Prop where
  absent : cfg = none
  fits : (fmtPtr tq).length + 1 + (csv (mod ++ mark reload) func cfg).length < bufSize
  queue : tq ≠ 0
  name : reload = true ∨ mod.getLast? ≠ some question

theorem libffiInit_message (h : IsText mod func cfg) :
    env.libffiInit (csv (mod ++ mark reload) func cfg ++ [0]) tq =
      if (fmtPtr tq).length + 1 + (csv (mod ++ mark reload) func cfg).length < bufSize then
        let (call, reply) := env.handler (fmtPtr tq ++ comma :: csv (mod ++ mark reload) func cfg)
        (received reply).map (call, ·)
      else none := by
  have hmod : 0 ∉ mod ++ mark reload := by
    simp [h.mod.1, notMem_mark (show (0 : UInt8) ≠ question by decide)]
  have hlen : (fmtPtr tq ++ comma :: csv (mod ++ mark reload) func cfg).length + 1 ≤ bufSize ↔
      (fmtPtr tq).length + 1 + (csv (mod ++ mark reload) func cfg).length < bufSize := by
    rw [List.length_append, List.length_cons]
    omega
  simp only [libffiInit, message, str_csv hmod h.func.1 h.cfg, hlen]

theorem decode_of_handler {data : Bytes} {call : JsCall} (h : (env.handler data).1 = some call) :
    env.decode data = some call := by
  rw [handler] at h
  cases hdec : env.decode data with
  | none => simp [hdec] at h
  | some call' =>
    simp only [hdec] at h
    split at h
    · simp at h
    · split at h
      · exact h
      · exact h

theorem scanRet_printInt (rc : Int32) : scanRet (Numeral.printInt rc.toInt) = rc := by
  rw [scanRet, Numeral.scanInt_printInt_append rc.toInt (by decide), Option.getD_some,
    Int32.ofInt_toInt]

theorem length_printInt_lt (rc : Int32) : (Numeral.printInt rc.toInt).length < bufSize := by
  have hlt := rc.toInt_lt
  have hle := rc.le_toInt
  have hlen : (Numeral.printInt rc.toInt).length ≤ 10 + 1 :=
    Numeral.length_printInt_le (by decide) (by omega)
  exact Nat.lt_of_le_of_lt hlen (by decide)

theorem received_printInt (rc : Int32) : received (Numeral.printInt rc.toInt) = some rc := by
  rw [received_of ⟨Numeral.printInt_ne_nil _, length_printInt_lt rc⟩, scanRet_printInt]

theorem Deliverable.of_delivered {f : Bytes → Nat → Option Int32} (h : IsText mod func cfg)
    (hres : (env.resolve mod).isSome) (hd : env.Delivered mod reload func cfg tq f) :
    Deliverable mod reload func cfg tq := by
  obtain ⟨ret, hlib, -⟩ := hd
  rw [libffiInit_message h] at hlib
  split_ifs at hlib with hfits
  · obtain ⟨_, -, hcall⟩ := Option.map_eq_some_iff.mp hlib
    have hdec := decode_of_handler (congrArg Prod.fst hcall)
    rw [decode_message h] at hdec
    split_ifs at hdec with hno
    obtain ⟨mod', hstrip, hcall⟩ := Option.map_eq_some_iff.mp hdec
    simp only [JsCall.mk.injEq, and_true, true_and] at hcall
    obtain ⟨rfl, hcfg⟩ := hcall
    rw [not_or] at hno
    refine ⟨?_, hfits, hno.1, (strip_mark_eq_iff hres).mp hstrip⟩
    cases cfg with
    | none => rfl
    | some c =>
      -- more than one item was left out, so there is a comma in the empty string
      cases hcfg
      exact absurd ⟨[], rfl, by simp⟩ hno.2

/-- A configuration is delivered exactly when the format leaves it out. This is about a call that
finds the connection made and a function that returns a C int. -/
theorem delivered_iff {f : Bytes → Nat → Option Int32} (h : IsText mod func cfg)
    (hres : (env.resolve mod).isSome) (hf : env.func mod func = some (intText f)) :
    env.Delivered mod reload func cfg tq f ↔ Deliverable mod reload func cfg tq := by
  constructor
  · exact .of_delivered h hres
  · rintro ⟨rfl, hfits, htq, hname⟩
    have hdec : env.decode (fmtPtr tq ++ comma :: csv (mod ++ mark reload) func none) =
        some ⟨mod, func, [], tq.toNat⟩ := by
      rw [decode_message h, if_neg (by simp [htq]), (strip_mark_eq_iff hres).mpr hname]
      rfl
    rw [Delivered, libffiInit_message h, if_pos hfits, handler, hdec]
    simp only [hf, Option.getD_none, intText]
    cases hrc : f [] tq.toNat with
    | none => exact ⟨1, rfl, by simp⟩
    | some rc =>
      refine ⟨rc, by simp [received_printInt], fun rc' hrc' => ?_⟩
      cases hrc'
      rfl

/-- Every module has every function, which returns 5. -/
def fiveEnv : NodeEnv where
  toText := id
  toText_ascii _ _ _ := rfl
  toText_utf8 _ := rfl
  comma_notMem_toText h := h
  resolve := some
  func _ _ := some (intText fun _ _ => some 5)

/-- `m,f[,cfg]` -/
theorem isText_letters {cfg : Option Bytes} (h : ∀ c ∈ cfg, 0 ∉ c) : IsText [109] [102] cfg where
  mod := ⟨by decide, by decide, ['m'], rfl⟩
  func := ⟨by decide, by decide, ['f'], rfl⟩
  cfg := h

theorem length_fmtPtr_seven : (fmtPtr 7).length = 3 := by
  have hne : ¬ (7 : UInt64) = 0 := by decide
  simp [fmtPtr, Numeral.print, hne]

theorem delivered_five :
    fiveEnv.Delivered [109] true [102] none 7 (fun _ _ => some 5) := by
  refine (delivered_iff (isText_letters (by simp)) rfl rfl).mpr ⟨rfl, ?_, by decide, .inl rfl⟩
  rw [length_fmtPtr_seven]
  decide

/-- `m?,f,x` is not delivered, and a long configuration is written past the buffer. -/
theorem cfg_not_delivered :
    ¬ fiveEnv.Delivered [109] true [102] (some [120]) 7 (fun _ _ => some 5) ∧
    fiveEnv.libffiInit (csv ([109] ++ mark true) [102] (some (List.replicate bufSize 120)) ++ [0]) 7 =
      none := by
  constructor
  · intro h
    exact nomatch (Deliverable.of_delivered (isText_letters (by decide)) rfl h).absent
  · have hnul : 0 ∉ List.replicate bufSize (120 : UInt8) := by
      rw [List.mem_replicate]
      exact fun h => absurd h.2 (by decide)
    have hlen : bufSize ≤
        (csv ([109] ++ mark true) [102] (some (List.replicate bufSize 120))).length := by
      simp only [csv, csvRest, Option.elim_some, List.length_append, List.length_cons,
        List.length_replicate]
      omega
    rw [libffiInit_message (isText_letters fun c hc => by cases hc; exact hnul), if_neg (by omega)]

end NodeEnv

end RestyFfi
