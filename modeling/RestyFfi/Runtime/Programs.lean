import Mathlib.Data.UInt
import RestyFfi.Runtime.Progress
import RestyFfi.Runtime.Rpc

/-!
# The programs of the example runtimes

Five echo runtimes, two HTTP/2 clients and a Kafka client. An echo loop responds before it polls
again, or leaves that to the main thread of Node.js; the HTTP/2 clients respond whenever a server
has answered; the Kafka client has a queue of its own for each of two kinds of requests. The results
are about runs in which no stale callback is run, since one could change a request on its way.

A response goes back by its length (`echo.go`, both Java runtimes, `kafka.py`) or as a C string.
The Kafka client takes the number of characters for the length in bytes, which is right because
`json.dumps` writes ASCII (`kafkaRespond_iff`).
-/

namespace RestyFfi
open Transition Lanes CString

/-- Every task is passed on to another thread, which responds to one after the other. -/
def Program.relay (serve : Request → Reply → Prop) : Program Nat where
  lane _ _ := 0
  ready _ := true
  ready_nil := rfl
  serve := serve

/-- Every task is started at once and responded to when it is done. -/
def Program.start (serve : Request → Reply → Prop) : Program Nat where
  lane i _ := i
  ready _ := true
  ready_nil := rfl
  serve := serve

/-! ## Echo -/

/-- `strdup(req)`. -/
def strdup (req : Bytes) : Bytes := str req 0 ++ [0]

/-- The loop of `PollThread` in the Java echo runtime. -/
def javaEcho (req : Request) (rsp : Bytes) : Reply := goEcho req rsp

/-- The loop of `echo.py`, for a request that is not `NULL`. -/
def pythonEcho (req : Bytes) : Reply := ⟨0, some (strdup req), 0⟩

/-- The loop of the Rust echo runtime. -/
def rustEcho (req : Bytes) : Reply := pythonEcho req

inductive EchoRuntime where
  | go
  | java
  | python
  | rust
  | nodejs
  deriving DecidableEq

/-- `strdup(NULL)` does not return, and the binding of Node.js takes no `undefined`. -/
def EchoRuntime.program (lossy : Bytes → String) : EchoRuntime → Program Nat
  | .go => goProgram
  | .java => .loop fun req r => ∃ rsp : Bytes, rsp.length = req.2.toNat ∧ r = javaEcho req rsp
  | .python => .loop fun req r => ∃ buf, req.1 = some buf ∧ r = pythonEcho buf
  | .rust => .loop fun req r => ∃ buf, req.1 = some buf ∧ r = rustEcho buf
  | .nodejs => .relay fun req r => nodeEcho lossy req = some r

/-- What comes back for a request that is not `NULL`. -/
def EchoRuntime.echo : EchoRuntime → Bytes → LuaVal
  | .go, s | .java, s => if s = [] then .wild else .str s
  | .python, s | .rust, s | .nodejs, s => .str (s.takeWhile (· ≠ 0))

/-- The echo is what was sent, for all but the empty string, or for all without a `NUL`. -/
theorem EchoRuntime.echo_eq_iff (rt : EchoRuntime) (s : Bytes) :
    rt.echo s = .str s ↔ match rt with
      | .go | .java => s ≠ []
      | .python | .rust | .nodejs => 0 ∉ s := by
  have hcut : LuaVal.str (s.takeWhile (· ≠ 0)) = .str s ↔ 0 ∉ s := by
    rw [LuaVal.str.injEq]
    constructor
    · intro h hmem
      rw [← h] at hmem
      simpa using List.mem_takeWhile_imp hmem
    · intro h
      rw [List.takeWhile_eq_self_iff]
      intro b hb
      simpa using fun h0 : b = 0 => h (h0 ▸ hb)
  cases rt with
  | go | java => by_cases hs : s = [] <;> simp [echo, hs]
  | python | rust | nodejs => exact hcut

theorem answer_copied (req : Bytes) :
    answer 0 (some req) req.length = [.bool true, EchoRuntime.go.echo req, .nil] := by
  by_cases hreq : req = []
  · subst hreq
    rfl
  · rw [(answer_by_length req).mpr hreq, (EchoRuntime.echo_eq_iff .go req).mpr hreq]

theorem answer_terminated (s : Bytes) :
    answer 0 (some (s ++ [0])) 0 = [.bool true, .str (s.takeWhile (· ≠ 0)), .nil] := by
  have hpush : pushstring (s ++ [0]) = .str (s.takeWhile (· ≠ 0)) := by
    rw [pushstring, if_pos (by simp), takeWhile_append_zero]
  simp only [answer, response, if_true, ne_eq, not_true_eq_false, if_false, hpush]

theorem answer_strdup (s : Bytes) :
    answer 0 (some (strdup (s ++ [0]))) 0 = [.bool true, .str (s.takeWhile (· ≠ 0)), .nil] := by
  have hcut : str (s ++ [0]) 0 = s.takeWhile (· ≠ 0) := takeWhile_append_zero
  rw [strdup, hcut, answer_terminated, List.takeWhile_idem]

theorem EchoRuntime.answer_eq {lossy : Bytes → String} {rt : EchoRuntime} {s : Bytes} {r : Reply}
    (h : (rt.program lossy).serve (reqBuffer (some s), reqLength (some s)) r)
    (hu : rt = .nodejs → IsUtf8 s) : answer r.rc r.rsp r.len = [.bool true, rt.echo s, .nil] := by
  cases rt with
  | go | java =>
    obtain ⟨res, hres, hr⟩ := h
    have hcopy : r = ⟨0, some s, s.length⟩ := hr.trans (goEcho_eq (by simpa [reqLength] using hres))
    rw [hcopy]
    exact answer_copied s
  | python | rust =>
    obtain ⟨buf, hbuf, rfl⟩ := h
    cases hbuf
    exact answer_strdup s
  | nodejs =>
    cases (nodeEcho_eq lossy (hu rfl)).symm.trans h
    exact answer_terminated s

namespace Serving
variable {Th Lib Co : Type} [DecidableEq Th] [DecidableEq Co] {prog : Nat → Program Nat}
  {resolve : LuaString → Lib} {s : Serving Th Lib Co Nat} {ls : List (ServeEvent Th Lib Co Nat)}
  {c c' : Co} {q i j : Nat} {penv : TaskQueue.PostEnv} {env : HandlerEnv} {vals : List LuaVal}

/-- **Echo.** What the coroutine gets that has posted to one of the echo runtimes, whatever other
runtimes there are. -/
theorem OwnRuns.echoed {lossy : Bytes → String} {rt : EchoRuntime} {req : Bytes}
    (H : OwnRuns prog resolve ls s) (hq : prog q = rt.program lossy)
    (hp : .nginx (.post c q penv i (some req) j .ok) ∈ ls) (hu : rt = .nodejs → IsUtf8 req)
    (h : .nginx (.handle i env (.resumed c' vals)) ∈ ls) :
    c' = c ∧ vals = [.bool true, rt.echo req, .nil] := by
  obtain ⟨hc, r, hr, rfl⟩ := H.runs.resumed_post hp h
  rw [hq] at hr
  exact ⟨hc, EchoRuntime.answer_eq hr hu⟩

theorem echoed_goRun : ∃ s : Serving Unit LuaString Unit Nat,
    OwnRuns (fun _ => EchoRuntime.go.program fun _ => "") id goRun s ∧
      (.nginx (.post () 0 {} 0 (some [104]) 0 .ok)) ∈ goRun ∧
      [LuaVal.bool true, .str [104], .nil] = [.bool true, EchoRuntime.go.echo [104], .nil] := by
  obtain ⟨s, H⟩ := goRun_ownRuns
  have hp : .nginx (.post () 0 {} 0 (some [104]) 0 .ok) ∈ goRun := post_mem_callRun ..
  exact ⟨s, H, hp, (@OwnRuns.echoed _ _ _ _ _ (fun _ => EchoRuntime.go.program fun _ => "") id
    _ _ _ _ _ _ _ _ _ _ (fun _ => "") .go _ H rfl hp (fun h => by cases h) (mem_callRun ..)).2⟩

end Serving

/-! ## HTTP/2 -/

section
/-! What the JSON library makes of a request, what the server answers, and what the library makes of
that, is not looked into; nor is the default charset of the Java platform. -/
variable (lossy : Bytes → String) (charset : String → Bytes) (exchange : String → String → Prop)

/-- `new String(bytes, StandardCharsets.UTF_8)` for the bytes of a request. -/
def javaGetReq (req : Request) : Option String := req.1.map (napiCreateStringUtf8 lossy · req.2)

/-- The response with `json.getBytes()`; `rspStr` is the block that `malloc` returns. -/
def javaRespond (json : String) (rspStr : Bytes) : Reply :=
  let arr := charset json
  ⟨0, some (memcpy rspStr arr arr.length), arr.length⟩

inductive Http2Runtime where
  | nodejs
  | java

/-- The bytes in which a runtime sends a text. -/
def Http2Runtime.encode : Http2Runtime → String → Bytes
  | .nodejs => utf8
  | .java => charset

def Http2Runtime.program : Http2Runtime → Program Nat
  | .nodejs => .start fun req r => ∃ text rsp, nodeGetReq lossy req = some text ∧
    exchange text rsp ∧ r = nodeRespond 0 (some rsp)
  | .java => .start fun req r => ∃ text rsp rspStr, javaGetReq lossy req = some text ∧
    exchange text rsp ∧ rspStr.length = (charset rsp).length ∧ r = javaRespond charset rsp rspStr

end
theorem utf8_injective : Function.Injective utf8 := by
  intro v v' h
  apply String.toByteArray_inj.mp
  exact ByteArray.ext (Array.toList_inj.mp h)

/-- A text that is sent in UTF-8 arrives. -/
theorem napiCreateStringUtf8_utf8 {lossy : Bytes → String} (text : String) :
    napiCreateStringUtf8 lossy (utf8 text ++ [0]) (utf8 text).length = text := by
  have h : utf8 (napiCreateStringUtf8 lossy (utf8 text ++ [0]) (utf8 text).length) = utf8 text :=
    utf8_napiCreateStringUtf8 text.isValidUTF8
  exact utf8_injective h

theorem nodeRespond_eq (rsp : String) :
    nodeRespond 0 (some rsp) = ⟨0, some (utf8 rsp ++ [0]), 0⟩ := by
  simp [nodeRespond, napiStringSize, napiGetValueStringUtf8, memcpy]

theorem javaRespond_eq {charset : String → Bytes} {json : String} {rspStr : Bytes}
    (h : rspStr.length = (charset json).length) :
    javaRespond charset json rspStr = ⟨0, some (charset json), (charset json).length⟩ := by
  simp [javaRespond, memcpy, ← h]

/-- A response goes back as it is if it is not empty and has no `NUL`. -/
theorem Http2Runtime.answer_eq {lossy : Bytes → String} {charset : String → Bytes}
    {exchange : String → String → Prop} {rt : Http2Runtime} {req : Request} {r : Reply}
    (hjson : ∀ {text rsp}, exchange text rsp →
      rt.encode charset rsp ≠ [] ∧ 0 ∉ rt.encode charset rsp)
    (h : (rt.program lossy charset exchange).serve req r) : ∃ text rsp,
      nodeGetReq lossy req = some text ∧ exchange text rsp ∧
      answer r.rc r.rsp r.len = [.bool true, .str (rt.encode charset rsp), .nil] := by
  cases rt with
  | nodejs =>
    obtain ⟨text, rsp, hreq, hex, rfl⟩ := h
    refine ⟨text, rsp, hreq, hex, ?_⟩
    rw [nodeRespond_eq]
    exact (answer_by_nul _).mpr (hjson hex).2
  | java =>
    obtain ⟨text, rsp, rspStr, hreq, hex, hlen, rfl⟩ := h
    refine ⟨text, rsp, hreq, hex, ?_⟩
    rw [javaRespond_eq hlen]
    exact (answer_by_length _).mpr (hjson hex).1

namespace Serving
variable {Th Lib Co : Type} [DecidableEq Th] [DecidableEq Co] {prog : Nat → Program Nat}
  {resolve : LuaString → Lib} {s : Serving Th Lib Co Nat} {ls : List (ServeEvent Th Lib Co Nat)}
  {c c' : Co} {q i j : Nat} {penv : TaskQueue.PostEnv} {req : Option Bytes} {env : HandlerEnv}
  {vals : List LuaVal}

/-- **Concurrent HTTP/2 requests** are not mixed up, in whatever order the servers answer: a
coroutine gets a response to the request that it has posted, in the encoding of the runtime. JSON
texts are not empty and have no `NUL`. -/
theorem OwnRuns.fetched {lossy : Bytes → String} {charset : String → Bytes}
    {exchange : String → String → Prop} {rt : Http2Runtime}
    (hjson : ∀ {text rsp}, exchange text rsp →
      rt.encode charset rsp ≠ [] ∧ 0 ∉ rt.encode charset rsp)
    (H : OwnRuns prog resolve ls s) (hq : prog q = rt.program lossy charset exchange)
    (hp : .nginx (.post c q penv i req j .ok) ∈ ls)
    (h : .nginx (.handle i env (.resumed c' vals)) ∈ ls) : c' = c ∧ ∃ b text rsp, req = some b ∧
      (IsUtf8 b → utf8 text = b) ∧ exchange text rsp ∧
      vals = [.bool true, .str (rt.encode charset rsp), .nil] := by
  obtain ⟨hc, r, hr, rfl⟩ := H.runs.resumed_post hp h
  rw [hq] at hr
  obtain ⟨text, rsp, hreq, hex, hvals⟩ := Http2Runtime.answer_eq hjson hr
  cases req with
  | none => cases hreq
  | some b =>
    refine ⟨hc, b, text, rsp, rfl, fun hu => ?_, hex, hvals⟩
    cases hreq
    exact utf8_napiCreateStringUtf8 hu

def helloText : String := "\x7b\"host\":\"http://localhost\",\"path\":\"/\"\x7d"

def helloRsp : String := "\x7b\"headers\":\x7b\x7d,\"body\":\"hello\"\x7d"

/-- One request and its response. -/
def Hello (text rsp : String) : Prop := text = helloText ∧ rsp = helloRsp

theorem fetched_hello : ∃ (s : Serving Unit LuaString Unit Nat) (ls : List _),
    OwnRuns (fun _ => Http2Runtime.nodejs.program (fun _ => "") utf8 Hello) id ls s ∧
      .nginx (.post () 0 {} 0 (some (utf8 helloText)) 0 .ok) ∈ ls ∧
      ∃ b text rsp, some (utf8 helloText) = some b ∧ (IsUtf8 b → utf8 text = b) ∧ Hello text rsp ∧
        answer 0 (some (utf8 helloRsp ++ [0])) 0 = [.bool true, .str (utf8 rsp), .nil] := by
  have hreq : nodeGetReq (fun _ => "") (reqBuffer (some (utf8 helloText)),
      reqLength (some (utf8 helloText))) = some helloText :=
    congrArg some (napiCreateStringUtf8_utf8 helloText)
  obtain ⟨s, H⟩ := callRun_ownRuns
    (P := Http2Runtime.nodejs.program (fun _ => "") utf8 Hello)
    ⟨_, _, hreq, ⟨rfl, rfl⟩, (nodeRespond_eq _).symm⟩
  have hp := post_mem_callRun (Http2Runtime.nodejs.program (fun _ => "") utf8 Hello)
    (utf8 helloText) (utf8 helloRsp ++ [0]) 0
  refine ⟨s, _, H, hp, (@OwnRuns.fetched _ _ _ _ _ (fun _ =>
    Http2Runtime.nodejs.program (fun _ => "") utf8 Hello) id _ _ _ _ _ _ _ _ _ _ _ (fun _ => "")
    utf8 Hello .nodejs ?_ H rfl hp (mem_callRun ..)).2⟩
  rintro _ _ ⟨_, rfl⟩
  decide

end Serving

/-! ## Kafka -/

/-- What `json.loads` makes of a request, as far as the client looks at it. -/
structure KafkaReq where
  /-- The string at `"type"`, if it is one. -/
  type : Option String
  /-- The string at `"msg"`, if there is one. -/
  msg : Option String

/-- What becomes of a task. -/
inductive KafkaTask where
  /-- It is put into `taskq`. -/
  | produce (req : KafkaReq)
  /-- It is put into `consume_taskq`. -/
  | consume
  /-- It is answered at once. -/
  | unknown
  /-- An exception ends the loop. -/
  | raised

def KafkaTask.lane : KafkaTask → Nat
  | .produce _ => 0
  | .consume => 1
  | .unknown => 2
  | .raised => 3

/-- Every character is one byte. -/
def IsAscii (data : String) : Prop := ∀ c ∈ data.toList, c.utf8Size = 1

instance (data : String) : Decidable (IsAscii data) :=
  decidable_of_iff (data.toList.all fun c => c.utf8Size == 1) (by simp [IsAscii])

/-- The method `respond`: as many bytes of the UTF-8 text are copied as there are characters. `res`
is the block that `malloc` returns. -/
def kafkaRespond (data : String) (res : Bytes) : Reply :=
  ⟨0, some (memcpy res (utf8 data) data.length), data.length⟩

section
/-! `json.loads`, `none` if it raises an exception or yields no object with a `"type"`, and the
texts that `json.dumps` makes of the messages of the topic. -/
variable (loads : Bytes → Option KafkaReq) (dumps : String → Prop)

/-- The body of the loop of `poll`, up to the two queues. `ffi.string(NULL)` raises. -/
def kafkaTask (req : Request) : KafkaTask :=
  match req.1 with
  | none => .raised
  | some r => match loads (str r 0) with
    | none => .raised
    | some req =>
      if req.type = some "produce" then .produce req
      else if req.type = some "consume" then .consume
      else .unknown

/-- The threads of `kafka.py`. A request without `"msg"` ends the producer loop. -/
def kafkaProgram : Program Nat where
  lane _ req := (kafkaTask loads req).lane
  ready ks := !ks.contains 2 && !ks.contains 3
  ready_nil := rfl
  serve req r := match kafkaTask loads req with
    | .produce req => req.msg.isSome ∧ r = ⟨0, none, 0⟩
    | .consume => ∃ data res, dumps data ∧ res.length = data.length ∧ r = kafkaRespond data res
    | .unknown => r = ⟨-1, none, 0⟩
    | .raised => False

end

theorem length_utf8 (data : String) : (utf8 data).length = (data.toList.map Char.utf8Size).sum := by
  have key : ∀ cs : List Char, (String.ofList cs).utf8ByteSize = (cs.map Char.utf8Size).sum := by
    intro cs
    induction cs using List.reverseRecOn with
    | nil => rfl
    | append_singleton cs c ih =>
      rw [String.ofList_append, String.utf8ByteSize_append, ih]
      simp [String.utf8ByteSize_singleton]
  have hdata := key data.toList
  rwa [String.ofList_toList] at hdata

/-- A character has at least one byte. -/
theorem length_le_sum (cs : List Char) : cs.length ≤ (cs.map Char.utf8Size).sum ∧
    ((cs.map Char.utf8Size).sum = cs.length ↔ ∀ c ∈ cs, c.utf8Size = 1) := by
  induction cs with
  | nil => simp
  | cons c cs ih =>
    have hpos := c.utf8Size_pos
    simp only [List.map_cons, List.sum_cons, List.length_cons, List.forall_mem_cons, ← ih.2]
    omega

theorem length_le_length_utf8 (data : String) : data.length ≤ (utf8 data).length := by
  rw [length_utf8, ← String.length_toList]
  exact (length_le_sum data.toList).1

theorem length_utf8_eq_iff (data : String) : (utf8 data).length = data.length ↔ IsAscii data := by
  rw [length_utf8, ← String.length_toList]
  exact (length_le_sum data.toList).2

theorem answer_kafkaRespond {data : String} {res : Bytes} (hres : res.length = data.length) :
    answer 0 (kafkaRespond data res).rsp (kafkaRespond data res).len =
      [.bool true, EchoRuntime.go.echo ((utf8 data).take data.length), .nil] := by
  have hcopy : memcpy res (utf8 data) data.length = (utf8 data).take data.length := by
    simp [memcpy, ← hres]
  have hlen : ((utf8 data).take data.length).length = data.length := by
    simpa using length_le_length_utf8 data
  have hvals := answer_copied ((utf8 data).take data.length)
  rw [hlen] at hvals
  rw [kafkaRespond, hcopy]
  exact hvals

/-- **The length of a Kafka message.** It goes back as it is exactly if it is ASCII and nonempty. -/
theorem kafkaRespond_iff {data : String} {res : Bytes} (hres : res.length = data.length) :
    answer 0 (kafkaRespond data res).rsp (kafkaRespond data res).len =
      [.bool true, .str (utf8 data), .nil] ↔ IsAscii data ∧ data ≠ "" := by
  have hle := length_le_length_utf8 data
  have hpos : data ≠ "" ↔ 0 < data.length := by
    rw [Nat.pos_iff_ne_zero, ne_eq, ne_eq, String.length_eq_zero_iff]
  rw [answer_kafkaRespond hres, ← length_utf8_eq_iff, hpos, EchoRuntime.echo]
  split_ifs with hnil
  · -- nothing is copied
    have hzero := congrArg List.length hnil
    simp only [List.length_take, List.length_nil] at hzero
    refine iff_of_false (by simp) fun h => ?_
    omega
  · simp only [List.cons.injEq, LuaVal.str.injEq, and_true, true_and, List.take_eq_self_iff]
    refine ⟨fun h => ⟨Nat.le_antisymm h hle, ?_⟩, fun h => Nat.le_of_eq h.1⟩
    rw [Nat.pos_iff_ne_zero]
    intro h0
    simp [h0] at hnil

/-- What a caller gets for the request `req`. -/
inductive KafkaAnswer (loads : Bytes → Option KafkaReq) (dumps : String → Prop) (req : Bytes) :
    List LuaVal → Prop where
  | produced : loads (req.takeWhile (· ≠ 0)) = some r → r.type = some "produce" → r.msg.isSome →
    KafkaAnswer loads dumps req [.bool true, .nil, .nil]
  | consumed : loads (req.takeWhile (· ≠ 0)) = some r → r.type = some "consume" → dumps data →
    KafkaAnswer loads dumps req [.bool true, .str (utf8 data), .nil]
  | unknown : loads (req.takeWhile (· ≠ 0)) = some r → r.type ≠ some "produce" →
    r.type ≠ some "consume" → KafkaAnswer loads dumps req [.bool false, .int (-1), .nil]

theorem kafkaProgram_answer {loads : Bytes → Option KafkaReq} {dumps : String → Prop}
    {req : Option Bytes} {r : Reply} (hdumps : ∀ {data}, dumps data → IsAscii data ∧ data ≠ "")
    (h : (kafkaProgram loads dumps).serve (reqBuffer req, reqLength req) r) :
    ∃ s, req = some s ∧ KafkaAnswer loads dumps s (answer r.rc r.rsp r.len) := by
  cases req with
  | none => cases h
  | some s =>
    refine ⟨s, rfl, ?_⟩
    have hcut : str (s ++ [0]) 0 = s.takeWhile (· ≠ 0) := takeWhile_append_zero
    simp only [kafkaProgram, kafkaTask, reqBuffer, hcut] at h
    cases hl : loads (s.takeWhile (· ≠ 0)) with
    | none => simp only [hl] at h
    | some req =>
      simp only [hl] at h
      split_ifs at h with hp hc
      · obtain ⟨hmsg, rfl⟩ := h
        exact .produced hl hp hmsg
      · obtain ⟨data, res, hd, hres, rfl⟩ := h
        have hvals := (kafkaRespond_iff hres).mpr (hdumps hd)
        exact hvals ▸ .consumed hl hc hd
      · cases (h : r = _)
        exact .unknown hl hp hc

namespace Serving
variable {Th Lib Co : Type} [DecidableEq Th] [DecidableEq Co] {prog : Nat → Program Nat}
  {resolve : LuaString → Lib} {s : Serving Th Lib Co Nat} {ls : List (ServeEvent Th Lib Co Nat)}
  {c c' : Co} {q i j : Nat} {penv : TaskQueue.PostEnv} {req : Option Bytes} {env : HandlerEnv}
  {vals : List LuaVal}

/-- **The Kafka client** answers each request by its kind, also when consumers wait for messages
while later requests are answered. `json.dumps` writes ASCII, and never nothing. -/
theorem OwnRuns.kafka {loads : Bytes → Option KafkaReq} {dumps : String → Prop}
    (hdumps : ∀ {data}, dumps data → IsAscii data ∧ data ≠ "") (H : OwnRuns prog resolve ls s)
    (hq : prog q = kafkaProgram loads dumps) (hp : .nginx (.post c q penv i req j .ok) ∈ ls)
    (h : .nginx (.handle i env (.resumed c' vals)) ∈ ls) :
    c' = c ∧ ∃ b, req = some b ∧ KafkaAnswer loads dumps b vals := by
  obtain ⟨hc, r, hr, rfl⟩ := H.runs.resumed_post hp h
  rw [hq] at hr
  exact ⟨hc, kafkaProgram_answer hdumps hr⟩

def consumeText : String := "\x7b\"type\":\"consume\"\x7d"

def messageText : String := "\x7b\"topic\": \"t\", \"key\": null, \"value\": \"hello\"\x7d"

/-- All requests are taken for this one. -/
def consumeLoads : Bytes → Option KafkaReq := fun _ => some ⟨some "consume", none⟩

theorem kafka_consume : ∃ (s : Serving Unit LuaString Unit Nat) (ls : List _),
    OwnRuns (fun _ => kafkaProgram consumeLoads (· = messageText)) id ls s ∧
      .nginx (.post () 0 {} 0 (some (utf8 consumeText)) 0 .ok) ∈ ls ∧
      ∃ b, some (utf8 consumeText) = some b ∧ KafkaAnswer consumeLoads (· = messageText) b
        (answer 0 (kafkaRespond messageText (List.replicate messageText.length 0)).rsp
          messageText.length) := by
  obtain ⟨s, H⟩ := @callRun_ownRuns Nat (kafkaProgram consumeLoads (· = messageText))
    (utf8 consumeText) _ _ ⟨_, List.replicate messageText.length 0, rfl, List.length_replicate, rfl⟩
  have hp := post_mem_callRun (kafkaProgram consumeLoads (· = messageText)) (utf8 consumeText)
    (memcpy (List.replicate messageText.length 0) (utf8 messageText) messageText.length)
    messageText.length
  refine ⟨s, _, H, hp, (@OwnRuns.kafka _ _ _ _ _
    (fun _ => kafkaProgram consumeLoads (· = messageText)) id _ _ _ _ _ _ _ _ _ _ _ consumeLoads
    (· = messageText) ?_ H rfl hp (mem_callRun ..)).2⟩
  rintro _ rfl
  exact ⟨by decide, by decide⟩

end Serving
end RestyFfi
