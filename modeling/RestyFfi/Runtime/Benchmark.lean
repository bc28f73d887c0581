import RestyFfi.Base.Transition
import RestyFfi.Base.Word
import RestyFfi.Worker.Basic

/-!
# The echo server of the benchmark

`benchmark.lua` measures the runtimes against `unix_socket_server.go`, which echoes over a socket:
a header of four bytes with the length, and then the bytes. A socket delivers in pieces. The server
copies the stream to its client as long as every read of a header gets all four bytes, whatever the
pieces and whatever the client sends (`EchoConn.Runs.echoes`). So the assertions of the benchmark
hold and it never hangs (`Bench.Runs.intact`), but a header that arrives in two pieces breaks it
(`Bench.exists_misframed`).
-/

namespace RestyFfi
open Transition ByteOrder

/-! ## The server -/

/-- `make([]byte, 1024*1024*10)`. -/
def echoBufSize : Nat := 1024 * 1024 * 10

/-- Bytes that are written into a slice at an offset. -/
def writeAt (dst : Bytes) (off : Nat) (src : Bytes) : Bytes :=
  dst.take off ++ src ++ dst.drop (off + src.length)

theorem length_writeAt {dst src : Bytes} {off : Nat} (h : off + src.length ≤ dst.length) :
    (writeAt dst off src).length = dst.length := by
  simp only [writeAt, List.length_append, List.length_take, List.length_drop]
  omega

theorem take_writeAt {dst src : Bytes} {off : Nat} (h : off ≤ dst.length) :
    (writeAt dst off src).take (off + src.length) = dst.take off ++ src := by
  have hlen : (dst.take off ++ src).length = off + src.length := by simp [h]
  rw [writeAt, ← hlen, List.take_left]

/-- Where a goroutine of the server stands. -/
inductive ServerPc where
  /-- In `c.Read(header)`. -/
  | header
  /-- In `c.Read(buf[read:length])`. -/
  | body (length : UInt32) (read : Nat)
  /-- In `c.Write(out[0 : length+4])`. -/
  | write (length : UInt32)
  | closed
  /-- A slice was out of range. -/
  | panicked
  deriving DecidableEq

/-- The variables of `echoServer`. -/
structure EchoServer where
  header : Bytes
  buf : Bytes
  out : Bytes
  pc : ServerPc

namespace EchoServer

def init : EchoServer where
  header := .replicate 4 0
  buf := .replicate echoBufSize 0
  out := .replicate echoBufSize 0
  pc := .header

/-- The test of the loop `for uint32(sent) < length+4`, with the slice behind it. -/
def writeLoop (length : UInt32) : ServerPc :=
  if (length + 4).toNat ≤ echoBufSize then .write length else .panicked

/-- The test of the loop `for uint32(read) < length`, with the slice behind it. -/
def readLoop (length : UInt32) (read : Nat) : ServerPc :=
  if UInt32.ofNat read < length then
    if length.toNat ≤ echoBufSize then .body length read else .panicked
  else writeLoop length

/-- `c.Read(header)` has got some bytes. -/
def readHeader (s : EchoServer) (bs : Bytes) : EchoServer :=
  let header := writeAt s.header 0 bs
  { s with header := header, pc := readLoop (big.decode header) 0 }

/-- `c.Read(buf[read:length])` has got some bytes. -/
def readBody (s : EchoServer) (length : UInt32) (read : Nat) (bs : Bytes) : EchoServer :=
  { s with buf := writeAt s.buf read bs, pc := readLoop length (read + bs.length) }

/-- `PutUint32(out[:4], length)` and `copy(out[4:], buf[:length])`. -/
def fillOut (s : EchoServer) (length : UInt32) : Bytes :=
  writeAt (writeAt s.out 0 (big.encode length)) 4
    ((s.buf.take length.toNat).take (s.out.length - 4))

/-- `out[0 : length+4]`. -/
def reply (s : EchoServer) (length : UInt32) : Bytes := (s.fillOut length).take (length + 4).toNat

end EchoServer

/-- What is read or written next is in range. -/
def ServerPc.InRange : ServerPc → Prop
  | .body length read => read < length.toNat ∧ length.toNat ≤ echoBufSize
  | .write length => length.toNat + 4 ≤ echoBufSize
  | _ => True

namespace EchoServer

/-- The slices have the sizes that they were made with. -/
structure Valid (s : EchoServer) : Prop where
  header : s.header.length = 4
  buf : s.buf.length = echoBufSize
  out : s.out.length = echoBufSize
  pc : s.pc.InRange

/-- `cur` is what has been read of the message that is not answered yet. -/
def Holds (s : EchoServer) (cur : Bytes) : Prop :=
  match s.pc with
  | .header | .closed => cur = []
  | .body length read => cur = big.encode length ++ s.buf.take read
  | .write length => cur = big.encode length ++ s.buf.take length.toNat
  | .panicked => ∃ length rest, cur = big.encode length ++ rest ∧ echoBufSize < length.toNat + 4

variable {s : EchoServer} {length : UInt32} {read : Nat} {bs cur : Bytes}

theorem readLoop_cases (hle : read ≤ length.toNat)
    (hcap : 0 < read → length.toNat ≤ echoBufSize) :
    (readLoop length read = .body length read ∧ read < length.toNat ∧
      length.toNat ≤ echoBufSize) ∨
    (readLoop length read = .write length ∧ read = length.toNat ∧
      length.toNat + 4 ≤ echoBufSize) ∨
    (readLoop length read = .panicked ∧ echoBufSize < length.toNat + 4) := by
  have hcapSize : echoBufSize + 4 < 2 ^ 32 := by decide
  have hlt : UInt32.ofNat read < length ↔ read < length.toNat := by
    have := length.toNat_lt
    rw [UInt32.lt_iff_toNat_lt, UInt32.toNat_ofNat', Nat.mod_eq_of_lt (by omega)]
  rw [readLoop]
  by_cases h : read < length.toNat
  · rw [if_pos (hlt.mpr h)]
    by_cases hfit : length.toNat ≤ echoBufSize
    · exact .inl ⟨if_pos hfit, h, hfit⟩
    · exact .inr (.inr ⟨if_neg hfit, by omega⟩)
  · have heq : read = length.toNat := by omega
    have hfit : length.toNat ≤ echoBufSize := by omega
    have hsum : (length + 4).toNat = length.toNat + 4 := by
      rw [UInt32.toNat_add]
      exact Nat.mod_eq_of_lt (Nat.lt_of_le_of_lt (Nat.add_le_add_right hfit 4) hcapSize)
    rw [if_neg (hlt.not.mpr h), writeLoop, hsum]
    by_cases hout : length.toNat + 4 ≤ echoBufSize
    · exact .inr (.inl ⟨if_pos hout, heq, hout⟩)
    · exact .inr (.inr ⟨if_neg hout, by omega⟩)

theorem readLoop_eq (length : UInt32) (read : Nat) : readLoop length read = .body length read ∨
    readLoop length read = .write length ∨ readLoop length read = .panicked := by
  rw [readLoop, writeLoop]
  split_ifs <;> simp

theorem readLoop_ne_closed : readLoop length read ≠ .closed := by
  rcases readLoop_eq length read with h | h | h <;> simp [h]

theorem readLoop_inRange (hle : read ≤ length.toNat)
    (hcap : 0 < read → length.toNat ≤ echoBufSize) : (readLoop length read).InRange := by
  rcases readLoop_cases hle hcap with ⟨h, hr⟩ | ⟨h, _, hr⟩ | ⟨h, _⟩ <;> rw [h]
  · exact hr
  · exact hr
  · trivial

theorem holds_of_readLoop (hpc : s.pc = readLoop length read) (hle : read ≤ length.toNat)
    (hcap : 0 < read → length.toNat ≤ echoBufSize) :
    s.Holds (big.encode length ++ s.buf.take read) := by
  rcases readLoop_cases hle hcap with ⟨h, _⟩ | ⟨h, hr, _⟩ | ⟨h, hbig⟩ <;> rw [Holds, hpc, h]
  · rw [hr]
  · exact ⟨length, _, rfl, hbig⟩

/-- A first header of which nothing but zeros arrives. -/
theorem readHeader_init_pc (hbs : writeAt [0, 0, 0, 0] 0 bs = [0, 0, 0, 0]) :
    (init.readHeader bs).pc = .write 0 := by
  have hheader : writeAt init.header 0 bs = [0, 0, 0, 0] := hbs
  have hdecode : big.decode [0, 0, 0, 0] = 0 := by decide
  simp only [EchoServer.readHeader, hheader, hdecode]
  rw [readLoop, if_neg (by decide), writeLoop, if_pos (by decide)]

theorem Valid.readHeader (V : s.Valid) (hbs : bs.length ≤ 4) : (s.readHeader bs).Valid where
  header := by
    have h : 0 + bs.length ≤ s.header.length := by rw [V.header]; omega
    exact (length_writeAt h).trans V.header
  buf := V.buf
  out := V.out
  pc := readLoop_inRange (Nat.zero_le _) (fun h => (Nat.lt_irrefl _ h).elim)

/-- The header has been read as a whole. -/
theorem Valid.holds_readHeader (V : s.Valid) (hbs : bs.length = 4) :
    (s.readHeader bs).Holds bs := by
  have hheader : writeAt s.header 0 bs = bs := by simp [writeAt, hbs, V.header]
  have hpc : (s.readHeader bs).pc = readLoop (big.decode bs) 0 := by
    rw [EchoServer.readHeader, hheader]
  have h := holds_of_readLoop hpc (Nat.zero_le _) (fun h => (Nat.lt_irrefl _ h).elim)
  rwa [big_encode_decode hbs, List.take_zero, List.append_nil] at h

theorem Valid.readBody (V : s.Valid) (hpc : s.pc = .body length read)
    (hbs : bs.length ≤ length.toNat - read) : (s.readBody length read bs).Valid := by
  have hrange := V.pc
  rw [hpc] at hrange
  obtain ⟨hlt, hle⟩ := hrange
  refine ⟨V.header, ?_, V.out, readLoop_inRange (by omega) fun _ => hle⟩
  exact (length_writeAt (by rw [V.buf]; omega)).trans V.buf

theorem Valid.holds_readBody (V : s.Valid) (hpc : s.pc = .body length read)
    (hbs : bs.length ≤ length.toNat - read) (h : s.Holds cur) :
    (s.readBody length read bs).Holds (cur ++ bs) := by
  have hrange := V.pc
  rw [hpc] at hrange
  obtain ⟨hlt, hle⟩ := hrange
  rw [Holds, hpc] at h
  have hbuf : read ≤ s.buf.length := by rw [V.buf]; omega
  have hholds := @holds_of_readLoop (s.readBody length read bs) length (read + bs.length) rfl
    (by omega) fun _ => hle
  rwa [EchoServer.readBody, take_writeAt hbuf, ← List.append_assoc, ← h] at hholds

theorem Valid.replied (V : s.Valid) (hpc : s.pc = .write length) :
    Valid { s with out := s.fillOut length, pc := .header } := by
  have hrange : length.toNat + 4 ≤ echoBufSize := by
    have hrange := V.pc
    rwa [hpc] at hrange
  have hlen : (writeAt s.out 0 (big.encode length)).length = echoBufSize := by
    rw [length_writeAt (by rw [big.length_encode, V.out]; omega), V.out]
  refine ⟨V.header, V.buf, ?_, trivial⟩
  rw [fillOut, length_writeAt, hlen]
  rw [hlen, List.length_take, V.out]
  omega

/-- What is written is what has been read. -/
theorem Valid.reply_eq (V : s.Valid) (hpc : s.pc = .write length) (h : s.Holds cur) :
    s.reply length = cur := by
  have hrange : length.toNat + 4 ≤ echoBufSize := by
    have hrange := V.pc
    rwa [hpc] at hrange
  rw [Holds, hpc] at h
  have hcapSize : echoBufSize < 2 ^ 32 := by decide
  have hsum : (length + 4).toNat = 4 + (s.buf.take length.toNat).length := by
    rw [List.length_take, V.buf, UInt32.toNat_add, Nat.min_eq_left (by omega), Nat.add_comm 4]
    exact Nat.mod_eq_of_lt (Nat.lt_of_le_of_lt hrange hcapSize)
  have hcopy : (s.buf.take length.toNat).take (s.out.length - 4) = s.buf.take length.toNat := by
    rw [List.take_take, V.out, Nat.min_eq_right (by omega)]
  have hhead : (writeAt s.out 0 (big.encode length)).take 4 = big.encode length := by
    have h := @take_writeAt s.out (big.encode length) 0 (Nat.zero_le _)
    rwa [big.length_encode, Nat.zero_add, List.take_zero, List.nil_append] at h
  have hlen : (writeAt s.out 0 (big.encode length)).length = echoBufSize := by
    rw [length_writeAt (by rw [big.length_encode, V.out]; omega), V.out]
  rw [reply, fillOut, hcopy, hsum, take_writeAt (by rw [hlen]; omega), hhead, h]

end EchoServer

/-! ## A connection -/

/-- A goroutine of the server with the socket, whoever the client is. -/
structure EchoConn where
  server : EchoServer
  /-- Sent by the client, and not read. -/
  toServer : Bytes
  /-- Written by the server, and not received. -/
  toClient : Bytes
  /-- The client has closed the connection. -/
  closed : Bool

inductive ConnEvent where
  | send (bs : Bytes)
  | receive (bs : Bytes)
  | close
  /-- A read of the header, or of the body, returns some bytes. -/
  | header (bs : Bytes)
  | body (bs : Bytes)
  | write (bs : Bytes)
  /-- A read of the header, or of the body, or a write returns an error. -/
  | headerFails
  | bodyFails
  | writeFails

namespace ConnEvent

def byServer : ConnEvent → Bool
  | .send _ | .receive _ | .close => false
  | _ => true

def sent : ConnEvent → Bytes
  | .send bs => bs
  | _ => []

def received : ConnEvent → Bytes
  | .receive bs => bs
  | _ => []

/-- No header arrives in pieces, and no message is cut off. -/
def Whole : ConnEvent → Prop
  | .header bs => bs.length = 4
  | .bodyFails => False
  | _ => True

end ConnEvent

namespace EchoConn

def init : EchoConn := ⟨.init, [], [], false⟩

/-- The steps. A read gets at least one byte, and at most as many as there is room for. -/
inductive Step (s : EchoConn) : ConnEvent → EchoConn → Prop where
  | send : s.closed = false → Step s (.send bs) { s with toServer := s.toServer ++ bs }
  | receive : s.closed = false → s.toClient = bs ++ rest →
    Step s (.receive bs) { s with toClient := rest }
  | close : Step s .close { s with closed := true }
  | header : s.server.pc = .header → s.toServer = bs ++ rest → bs ≠ [] → bs.length ≤ 4 →
    Step s (.header bs) { s with server := s.server.readHeader bs, toServer := rest }
  | body {length : UInt32} {read : Nat} : s.server.pc = .body length read →
    s.toServer = bs ++ rest → bs ≠ [] → bs.length ≤ length.toNat - read →
    Step s (.body bs) { s with server := s.server.readBody length read bs, toServer := rest }
  | write : s.server.pc = .write length → s.closed = false →
    Step s (.write (s.server.reply length)) { s with
      server := { s.server with out := s.server.fillOut length, pc := .header }
      toClient := s.toClient ++ s.server.reply length }
  | headerFails : s.server.pc = .header → s.closed = true →
    Step s .headerFails { s with server := { s.server with pc := .closed } }
  /-- Only the inner loop ends. -/
  | bodyFails {length : UInt32} {read : Nat} : s.server.pc = .body length read →
    s.closed = true →
    Step s .bodyFails { s with server := { s.server with pc := EchoServer.writeLoop length } }
  | writeFails : s.server.pc = .write length → s.closed = true →
    Step s .writeFails { s with
      server := { s.server with out := s.server.fillOut length, pc := .header } }

abbrev Runs (es : List ConnEvent) (s : EchoConn) : Prop := Run Step init es s

def sent (es : List ConnEvent) : Bytes := es.flatMap ConnEvent.sent

def received (es : List ConnEvent) : Bytes := es.flatMap ConnEvent.received

/-- Complete messages, each a length with that many bytes. -/
inductive Messages : Bytes → Prop where
  | nil : Messages []
  | snoc {length : UInt32} : Messages bs → b.length = length.toNat →
    Messages (bs ++ (big.encode length ++ b))

/-- What the client has sent has been received, or is on its way, or was in a reply that could not
be written (`lost`), or is in a message that is not answered (`cur`), or has not been read. -/
structure Stream (es : List ConnEvent) (s : EchoConn) (lost cur : Bytes) : Prop where
  valid : s.server.Valid
  eq : received es ++ s.toClient ++ lost ++ cur ++ s.toServer = sent es
  messages : Messages (received es ++ s.toClient ++ lost)
  holds : s.server.Holds cur
  lost_eq : s.closed = false → lost = []

variable {s s' : EchoConn} {e : ConnEvent} {es : List ConnEvent} {lost cur : Bytes}

theorem Stream.init : Stream [] init [] [] where
  valid := ⟨List.length_replicate, List.length_replicate, List.length_replicate, trivial⟩
  eq := rfl
  messages := .nil
  holds := rfl
  lost_eq _ := rfl

/-- The message behind a read or a write. -/
theorem Stream.message {length : UInt32} (S : Stream es s lost cur)
    (hpc : s.server.pc = .write length) :
    Messages (received es ++ s.toClient ++ lost ++ cur) := by
  have hrange := S.valid.pc
  have hcur := S.holds
  rw [hpc] at hrange
  rw [EchoServer.Holds, hpc] at hcur
  rw [hcur]
  refine .snoc S.messages ?_
  rw [List.length_take, S.valid.buf]
  exact Nat.min_eq_left (Nat.le_of_add_right_le hrange)

theorem Step.stream (h : Step s e s') (he : e.Whole) (S : Stream es s lost cur) :
    ∃ lost' cur', Stream (es ++ [e]) s' lost' cur' := by
  have V := S.valid
  have hs : sent (es ++ [e]) = sent es ++ e.sent := by simp [sent]
  have hr : received (es ++ [e]) = received es ++ e.received := by simp [received]
  have heq := S.eq
  have hms := S.messages
  cases h with
  | send =>
    refine ⟨lost, cur, V, ?_, ?_, S.holds, S.lost_eq⟩
    · rw [hs, hr, ← heq]
      simp [ConnEvent.sent, ConnEvent.received]
    · simpa [hr, ConnEvent.received] using hms
  | receive hopen hbs =>
    rw [hbs] at heq hms
    refine ⟨lost, cur, V, ?_, ?_, S.holds, S.lost_eq⟩
    · rw [hs, hr, ← heq]
      simp [ConnEvent.sent, ConnEvent.received]
    · simpa [hr, ConnEvent.received] using hms
  | close =>
    refine ⟨lost, cur, V, ?_, ?_, S.holds, fun h => nomatch h⟩
    · simpa [hs, hr, ConnEvent.sent, ConnEvent.received] using heq
    · simpa [hr, ConnEvent.received] using hms
  | header hpc hbs hne hle =>
    have hcur := S.holds
    rw [EchoServer.Holds, hpc] at hcur
    rw [hcur, hbs] at heq
    refine ⟨lost, _, V.readHeader hle, ?_, ?_, V.holds_readHeader he, S.lost_eq⟩
    · simpa [hs, hr, ConnEvent.sent, ConnEvent.received] using heq
    · simpa [hr, ConnEvent.received] using hms
  | body hpc hbs hne hle =>
    rw [hbs] at heq
    refine ⟨lost, _, V.readBody hpc hle, ?_, ?_, V.holds_readBody hpc hle S.holds, S.lost_eq⟩
    · simpa [hs, hr, ConnEvent.sent, ConnEvent.received] using heq
    · simpa [hr, ConnEvent.received] using hms
  | write hpc hopen =>
    have hmsg := S.message hpc
    have hlost := S.lost_eq hopen
    subst hlost
    rw [← V.reply_eq hpc S.holds] at heq hmsg
    refine ⟨[], [], V.replied hpc, ?_, ?_, rfl, fun _ => rfl⟩
    · simpa [hs, hr, ConnEvent.sent, ConnEvent.received] using heq
    · simpa [hr, ConnEvent.received] using hmsg
  | headerFails hpc =>
    have hcur := S.holds
    rw [EchoServer.Holds, hpc] at hcur
    refine ⟨lost, [], ⟨V.header, V.buf, V.out, trivial⟩, ?_, ?_, rfl, S.lost_eq⟩
    · simpa [hs, hr, ConnEvent.sent, ConnEvent.received, hcur] using heq
    · simpa [hr, ConnEvent.received] using hms
  | bodyFails => cases he
  | writeFails hpc hclosed =>
    have hmsg := S.message hpc
    refine ⟨lost ++ cur, [], V.replied hpc, ?_, ?_, rfl, fun h => ?_⟩
    · simpa [hs, hr, ConnEvent.sent, ConnEvent.received] using heq
    · simpa [hr, ConnEvent.received] using hmsg
    · rw [hclosed] at h
      cases h

theorem Runs.stream (H : Runs es s) (he : ∀ e ∈ es, e.Whole) :
    ∃ lost cur, Stream es s lost cur := by
  induction H with
  | nil => exact ⟨[], [], .init⟩
  | snoc _ h ih =>
    rw [List.forall_mem_append] at he
    obtain ⟨lost, cur, S⟩ := ih he.1
    exact h.stream (he.2 _ (.head _)) S

/-- The server copies what it gets. -/
structure Echoes (es : List ConnEvent) (s : EchoConn) : Prop where
  /-- A client gets what it has sent, -/
  copied : received es ++ s.toClient <+: sent es
  /-- all of it once the server has read everything and waits for the next message. -/
  complete : s.closed = false → s.server.pc = .header → s.toServer = [] →
    received es ++ s.toClient = sent es
  /-- The server panics only at a message that does not fit into its slices. -/
  panicked : s.server.pc = .panicked → ∃ done length rest, Messages done ∧
    sent es = done ++ (big.encode length ++ rest) ∧ echoBufSize < length.toNat + 4

/-- **Echo over a socket**, for any client and any pieces, if every header arrives as a whole and no
message is cut off by the end of the connection. -/
theorem Runs.echoes (H : Runs es s) (he : ∀ e ∈ es, e.Whole) : Echoes es s := by
  obtain ⟨lost, cur, S⟩ := H.stream he
  refine ⟨?_, fun hopen hpc hread => ?_, fun hpc => ?_⟩
  · rw [← S.eq, List.append_assoc, List.append_assoc]
    exact List.prefix_append ..
  · have heq := S.eq
    have hcur := S.holds
    rw [EchoServer.Holds, hpc] at hcur
    simpa [S.lost_eq hopen, hcur, hread] using heq
  · have hcur := S.holds
    rw [EchoServer.Holds, hpc] at hcur
    obtain ⟨length, rest, hcur, hbig⟩ := hcur
    refine ⟨_, length, rest ++ s.toServer, S.messages, ?_, hbig⟩
    rw [← S.eq, hcur]
    simp

/-- Two bytes that arrive one by one. -/
def piecesRun : List ConnEvent :=
  [.send [0, 0, 0, 2, 104, 105], .header [0, 0, 0, 2], .body [104], .body [105],
    .write [0, 0, 0, 2, 104, 105]]

theorem piecesRun_read : ∃ server : EchoServer,
    Runs (piecesRun.take 4) ⟨server, [], [], false⟩ ∧ server.pc = .write 2 ∧
      server.reply 2 = [0, 0, 0, 2, 104, 105] := by
  have V₀ : EchoServer.init.Valid := Stream.init.valid
  have V₁ := @EchoServer.Valid.readHeader _ [0, 0, 0, 2] V₀ (by decide)
  have h₁ : (EchoServer.init.readHeader [0, 0, 0, 2]).pc = .body 2 0 := by decide
  have V₂ := @EchoServer.Valid.readBody _ _ _ [104] V₁ h₁ (by decide)
  have h₂ : ((EchoServer.init.readHeader [0, 0, 0, 2]).readBody 2 0 [104]).pc = .body 2 1 := by
    decide
  have V₃ := @EchoServer.Valid.readBody _ _ _ [105] V₂ h₂ (by decide)
  have h₃ : (((EchoServer.init.readHeader [0, 0, 0, 2]).readBody 2 0 [104]).readBody 2 1
    [105]).pc = .write 2 := by decide
  have hreply := V₃.reply_eq h₃ (V₂.holds_readBody h₂ (by decide)
    (V₁.holds_readBody h₁ (by decide) (V₀.holds_readHeader rfl)))
  have H₁ := Run.nil.snoc (@Step.send init [0, 0, 0, 2, 104, 105] rfl)
  have H₂ := H₁.snoc (@Step.header _ [0, 0, 0, 2] [104, 105] rfl rfl (by decide) (by decide))
  have H₃ := H₂.snoc (@Step.body _ [104] [105] _ _ h₁ rfl (by decide) (by decide))
  have H₄ := H₃.snoc (@Step.body _ [105] [] _ _ h₂ rfl (by decide) (by decide))
  exact ⟨_, H₄, h₃, hreply⟩

/-- All of it comes back. -/
theorem echoes_piecesRun : ∃ s : EchoConn, Runs piecesRun s ∧ Echoes piecesRun s ∧
    received piecesRun ++ s.toClient = sent piecesRun := by
  obtain ⟨server, H, hpc, hreply⟩ := piecesRun_read
  have hwrite : Step ⟨server, [], [], false⟩ (.write (server.reply 2)) _ := .write hpc rfl
  rw [hreply] at hwrite
  have H : Runs piecesRun _ := H.snoc hwrite
  have E := Runs.echoes H (by simp [piecesRun, ConnEvent.Whole])
  exact ⟨_, H, E, E.complete rfl rfl rfl⟩

end EchoConn

/-! ## The client -/

/-- The loop that fills `hdr_buf`, from the last byte to the first. -/
def hdrLoop : Nat → UInt32 → Bytes → Bytes
  | 0, _, hdr => hdr
  | i + 1, len, hdr => hdrLoop i (len >>> 8) (hdr.set i (len &&& 255).toUInt8)

def hdrBuf (buflen : Nat) : Bytes := hdrLoop 4 (.ofNat buflen) [0, 0, 0, 0]

/-- The length that the client reads from a header. -/
def readHdr : Bytes → Nat
  | hi :: mi :: li :: lli :: _ =>
    256 * (256 * (256 * hi.toNat + mi.toNat) + li.toNat) + lli.toNat
  | _ => 0

theorem hdrBuf_eq (buflen : Nat) : hdrBuf buflen = big.encode (.ofNat buflen) := by
  simp only [hdrBuf, hdrLoop, List.set, toUInt8_and_255, byte_shiftRight, big]

theorem readHdr_encode (w : UInt32) : readHdr (big.encode w) = w.toNat := by
  have hw := w.toNat_lt
  simp only [big, readHdr, byte, UInt8.toNat_ofNat']
  omega

/-- Where `_M.run` stands with its socket. -/
inductive ClientPc where
  | ready
  /-- In `sock:receive(4)`, having sent `buf`. -/
  | header (buf : Bytes)
  /-- In `sock:receive(len)`. -/
  | body (buf : Bytes) (len : Nat)
  /-- An assertion has failed. -/
  | failed
  | done

/-- It waits for a reply. -/
def ClientPc.waits : ClientPc → Bool
  | .header _ | .body .. => true
  | _ => false

/-- The client and the connection. -/
structure Bench where
  conn : EchoConn
  client : ClientPc

inductive BenchEvent where
  | request (buf : Bytes)
  | receiveHeader (hdr : Bytes)
  | receiveBody (data : Bytes)
  /-- The server has closed the socket, and nothing can be sent or received. -/
  | socketFails
  | close
  | server (e : ConnEvent)

namespace BenchEvent

/-- No header arrives in pieces, and every request fits into the slices of the server. -/
def Fits : BenchEvent → Prop
  | .request buf => buf.length + 4 ≤ echoBufSize
  | .server (.header bs) => bs.length = 4
  | _ => True

/-- The client goes on with its request. -/
def continues : BenchEvent → Bool
  | .request _ | .close => false
  | _ => true

end BenchEvent

namespace Bench

def init : Bench := ⟨.init, .ready⟩

/-- The steps. A string in LuaJIT is shorter than `2 ^ 32`. -/
inductive Step (b : Bench) : BenchEvent → Bench → Prop where
  | request {buf : Bytes} : b.client = .ready → buf.length < 2 ^ 32 →
    EchoConn.Step b.conn (.send (hdrBuf buf.length ++ buf)) conn' →
    Step b (.request buf) ⟨conn', .header buf⟩
  | receiveHeader {buf hdr : Bytes} : b.client = .header buf → hdr.length = 4 →
    EchoConn.Step b.conn (.receive hdr) conn' →
    Step b (.receiveHeader hdr)
      ⟨conn', if readHdr hdr = buf.length then .body buf (readHdr hdr) else .failed⟩
  | receiveBody {buf data : Bytes} : b.client = .body buf len → data.length = len →
    EchoConn.Step b.conn (.receive data) conn' →
    Step b (.receiveBody data) ⟨conn', if data = buf then .ready else .failed⟩
  | socketFails : b.client = .ready ∨ b.client.waits = true →
    b.conn.server.pc = .closed ∨ b.conn.server.pc = .panicked →
    Step b .socketFails { b with client := .failed }
  | close : b.client = .ready → EchoConn.Step b.conn .close conn' → Step b .close ⟨conn', .done⟩
  | server : e.byServer = true → EchoConn.Step b.conn e conn' →
    Step b (.server e) { b with conn := conn' }

abbrev Runs (ls : List BenchEvent) (b : Bench) : Prop := Run Step init ls b

/-- A message. -/
def message (buf : Bytes) : Bytes := big.encode (.ofNat buf.length) ++ buf

/-- The server has read `cur` of the request `buf`. -/
structure Asked (b : Bench) (buf cur : Bytes) : Prop where
  client : b.client = .header buf
  isOpen : b.conn.closed = false
  fits : buf.length + 4 ≤ echoBufSize
  toClient : b.conn.toClient = []
  holds : b.conn.server.Holds cur
  eq : cur ++ b.conn.toServer = message buf

/-- Where the bytes of a request are. -/
inductive Phase (b : Bench) : Prop where
  | idle : b.client = .ready ∧ b.conn.closed = false ∨ b.client = .done ∧ b.conn.closed = true →
    b.conn.toClient = [] → b.conn.server.Holds [] → b.conn.toServer = [] → Phase b
  | asked {buf cur : Bytes} : b.Asked buf cur → Phase b
  | replied {buf : Bytes} : b.client = .header buf → b.conn.closed = false →
    buf.length + 4 ≤ echoBufSize → b.conn.toClient = message buf → b.conn.server.Holds [] →
    b.conn.toServer = [] → Phase b
  | half {buf : Bytes} : b.client = .body buf buf.length → b.conn.closed = false →
    b.conn.toClient = buf → b.conn.server.Holds [] → b.conn.toServer = [] → Phase b

structure Inv (b : Bench) : Prop where
  valid : b.conn.server.Valid
  phase : b.Phase
  ended : b.conn.server.pc = .closed → b.conn.closed = true

variable {b b' : Bench} {e : BenchEvent} {ls : List BenchEvent} {buf cur : Bytes}
  {length : UInt32}

theorem toNat_length (h : buf.length + 4 ≤ echoBufSize) :
    (UInt32.ofNat buf.length).toNat = buf.length := by
  have hcapSize : echoBufSize < 2 ^ 32 := by decide
  rw [UInt32.toNat_ofNat']
  exact Nat.mod_eq_of_lt (by omega)

/-- What the server holds is the length and a part of what it has been sent. -/
theorem Asked.length_eq {x : Bytes} (A : b.Asked buf (big.encode length ++ x)) :
    length.toNat = buf.length ∧ x ++ b.conn.toServer = buf := by
  have h := A.eq
  rw [List.append_assoc, message] at h
  obtain ⟨rfl, hrest⟩ := encode_append_inj h
  exact ⟨toNat_length A.fits, hrest⟩

theorem Asked.alive (A : b.Asked buf cur) : b.conn.server.pc ≠ .panicked := by
  intro hpc
  have hcur := A.holds
  rw [EchoServer.Holds, hpc] at hcur
  obtain ⟨length, rest, rfl, hbig⟩ := hcur
  have := A.length_eq.1
  have := A.fits
  omega

/-- A server that holds nothing is between two messages. -/
theorem holds_nil (h : b.conn.server.Holds []) :
    b.conn.server.pc = .header ∨ b.conn.server.pc = .closed := by
  rw [EchoServer.Holds] at h
  cases hpc : b.conn.server.pc with
  | header => exact .inl rfl
  | closed => exact .inr rfl
  | body | write =>
    rw [hpc] at h
    exact (encode_append_ne_nil h.symm).elim
  | panicked =>
    rw [hpc] at h
    obtain ⟨length, rest, h, _⟩ := h
    exact (encode_append_ne_nil h.symm).elim

theorem Phase.alive (P : b.Phase) : b.conn.server.pc ≠ .panicked := by
  cases P with
  | idle _ _ h | replied _ _ _ _ h | half _ _ _ h =>
    rcases holds_nil h with h | h <;> simp [h]
  | asked A => exact A.alive

/-- A server that holds something has a request. -/
theorem Phase.asked_of_holds (P : b.Phase) (hh : b.conn.server.pc ≠ .header)
    (hc : b.conn.server.pc ≠ .closed) : ∃ buf cur, b.Asked buf cur := by
  cases P with
  | idle _ _ h | replied _ _ _ _ h | half _ _ _ h =>
    rcases holds_nil h with h | h
    · exact (hh h).elim
    · exact (hc h).elim
  | asked A => exact ⟨_, _, A⟩

/-- So does one that has something to read. -/
theorem Phase.asked_of_unread (P : b.Phase) (hs : b.conn.toServer ≠ []) :
    ∃ buf cur, b.Asked buf cur := by
  cases P with
  | idle _ _ _ h | replied _ _ _ _ _ h | half _ _ _ _ h => exact (hs h).elim
  | asked A => exact ⟨_, _, A⟩

/-- When all of a request has been read, nothing is left over. -/
theorem Asked.read_all (A : b.Asked buf cur) (V : b.conn.server.Valid)
    (hpc : b.conn.server.pc = .write length) : cur = message buf ∧ b.conn.toServer = [] := by
  have hrange := V.pc
  have hcur := A.holds
  rw [hpc] at hrange
  rw [EchoServer.Holds, hpc] at hcur
  subst hcur
  obtain ⟨hlen, hbuf⟩ := A.length_eq
  have hnil : b.conn.toServer = [] := by
    have hsum := congrArg List.length hbuf
    rw [List.length_append, List.length_take, V.buf,
      Nat.min_eq_left (Nat.le_of_add_right_le hrange)] at hsum
    exact List.length_eq_zero_iff.mp (by omega)
  have heq := A.eq
  rw [hnil, List.append_nil] at heq
  exact ⟨heq, hnil⟩

/-- The server goes on. -/
theorem Inv.server {e : ConnEvent} {conn' : EchoConn} (I : b.Inv) (he : e.byServer = true)
    (hwhole : ∀ bs, e = .header bs → bs.length = 4) (h : EchoConn.Step b.conn e conn') :
    Inv { b with conn := conn' } := by
  have V := I.valid
  -- the client closes the connection when nothing is left over
  have hasked : ∀ {pc}, b.conn.server.pc = pc → pc ≠ .header → pc ≠ .closed →
      ∃ buf cur, b.Asked buf cur := by
    rintro _ rfl
    exact I.phase.asked_of_holds
  cases h with
  | send | receive | close => cases he
  | @header bs rest hpc hbs hne hle =>
    obtain ⟨buf, cur, A⟩ := I.phase.asked_of_unread (by simp [hbs, hne])
    have hcur := A.holds
    rw [EchoServer.Holds, hpc] at hcur
    have heq := A.eq
    rw [hcur, hbs, List.nil_append] at heq
    have hholds := V.holds_readHeader (hwhole bs rfl)
    exact ⟨V.readHeader hle, .asked ⟨A.client, A.isOpen, A.fits, A.toClient, hholds, heq⟩,
      fun h => (EchoServer.readLoop_ne_closed h).elim⟩
  | @body bs rest length read hpc hbs hne hle =>
    obtain ⟨buf, cur, A⟩ := hasked hpc (by simp) (by simp)
    have heq := A.eq
    rw [hbs, ← List.append_assoc] at heq
    have hholds := V.holds_readBody hpc hle A.holds
    exact ⟨V.readBody hpc hle, .asked ⟨A.client, A.isOpen, A.fits, A.toClient, hholds, heq⟩,
      fun h => (EchoServer.readLoop_ne_closed h).elim⟩
  | write hpc hopen =>
    obtain ⟨buf, cur, A⟩ := hasked hpc (by simp) (by simp)
    obtain ⟨hall, hread⟩ := A.read_all V hpc
    refine ⟨V.replied hpc, .replied A.client A.isOpen A.fits ?_ rfl hread, fun h => nomatch h⟩
    rw [A.toClient, V.reply_eq hpc A.holds, hall, List.nil_append]
  | headerFails hpc hclosed =>
    refine ⟨⟨V.header, V.buf, V.out, trivial⟩, ?_, fun _ => hclosed⟩
    cases I.phase with
    | idle hclient hclean _ hread => exact .idle hclient hclean rfl hread
    | asked A => have h := A.isOpen; rw [hclosed] at h; cases h
    | replied _ h | half _ h => rw [hclosed] at h; cases h
  | bodyFails hpc hclosed | writeFails hpc hclosed =>
    obtain ⟨buf, cur, A⟩ := hasked hpc (by simp) (by simp)
    have h := A.isOpen
    rw [hclosed] at h
    cases h

theorem Step.inv (h : Step b e b') (he : e.Fits) (I : b.Inv) : b'.Inv := by
  cases h with
  | @request _ buf hclient hlen hs =>
    cases hs with
    | send hopen =>
      refine ⟨I.valid, ?_, I.ended⟩
      cases I.phase with
      | idle _ hclean hholds hread =>
        refine @Phase.asked _ buf [] ⟨rfl, hopen, he, hclean, hholds, ?_⟩
        simp [hread, hdrBuf_eq, message]
      | asked A => have h := A.client; rw [hclient] at h; cases h
      | replied h | half h => rw [hclient] at h; cases h
  | @receiveHeader _ buf hdr hclient hlen hs =>
    cases hs with
    | @receive _ rest hopen hbs =>
      refine ⟨I.valid, ?_, I.ended⟩
      cases I.phase with
      | idle h | half h => rw [hclient] at h; simp at h
      | asked A =>
        have h := A.toClient
        rw [hbs] at h
        simp [List.append_eq_nil_iff.mp h] at hlen
      | @replied buf' hc _ hfit hmsg hholds hread =>
        rw [hclient] at hc
        cases hc
        rw [hbs, message] at hmsg
        obtain ⟨rfl, rfl⟩ := List.append_inj hmsg (by rw [hlen, big.length_encode])
        rw [readHdr_encode, toNat_length hfit, if_pos rfl]
        exact .half rfl hopen rfl hholds hread
  | @receiveBody _ len buf data hclient hlen hs =>
    cases hs with
    | @receive _ rest hopen hbs =>
      refine ⟨I.valid, ?_, I.ended⟩
      cases I.phase with
      | idle h | replied h => rw [hclient] at h; simp at h
      | asked A => have h := A.client; rw [hclient] at h; cases h
      | @half buf' hc _ hmsg hholds hread =>
        rw [hclient] at hc
        cases hc
        rw [hbs] at hmsg
        obtain ⟨rfl, rfl⟩ := List.append_inj (hmsg.trans (List.append_nil buf).symm) hlen
        rw [if_pos rfl]
        exact .idle (.inl ⟨rfl, hopen⟩) rfl hholds hread
  | socketFails hwaits hpc =>
    rcases hpc with hpc | hpc
    · have hclosed := I.ended hpc
      cases I.phase with
      | idle h =>
        rcases h with ⟨_, h⟩ | ⟨h, _⟩
        · rw [hclosed] at h
          cases h
        · simp [h, ClientPc.waits] at hwaits
      | asked A => have h := A.isOpen; rw [hclosed] at h; cases h
      | replied _ h | half _ h => rw [hclosed] at h; cases h
    · exact (I.phase.alive hpc).elim
  | close hclient hs =>
    cases hs with
    | close =>
      refine ⟨I.valid, ?_, fun _ => rfl⟩
      cases I.phase with
      | idle _ hclean hholds hread => exact .idle (.inr ⟨rfl, rfl⟩) hclean hholds hread
      | asked A => have h := A.client; rw [hclient] at h; cases h
      | replied h | half h => rw [hclient] at h; cases h
  | server hby hs =>
    refine I.server hby ?_ hs
    rintro bs rfl
    exact he

theorem Inv.init : init.Inv where
  valid := ⟨List.length_replicate, List.length_replicate, List.length_replicate, trivial⟩
  phase := .idle (.inl ⟨rfl, rfl⟩) rfl rfl rfl
  ended h := nomatch h

theorem Runs.inv (H : Runs ls b) (hfits : ∀ e ∈ ls, e.Fits) : b.Inv := by
  induction H with
  | nil => exact .init
  | snoc _ h ih =>
    rw [List.forall_mem_append] at hfits
    exact h.inv (hfits.2 _ (.head _)) (ih hfits.1)

/-! ## The benchmark goes on -/

/-- The steps that a request still needs, at most. -/
def toGo (b : Bench) : Nat :=
  match b.client with
  | .header _ =>
    if b.conn.toClient = [] then
      match b.conn.server.pc with
      | .write _ => 3
      | .body .. => 4
      | _ => 5
    else 2
  | .body .. => 1
  | _ => 0

/-- A step towards the reply. -/
def Helps (e : BenchEvent) : Prop := e.Fits ∧ e.continues = true

abbrev Advances (b : Bench) : Prop := Transition.Advances Step Inv Helps toGo b

theorem Inv.advance {e : BenchEvent} (I : b.Inv) (h : Step b e b') (he : Helps e)
    (hlt : b'.toGo < b.toGo) : b.Advances := .single h he (h.inv he.1 I) hlt

theorem Inv.advances (I : b.Inv) (hn : b.toGo ≠ 0) : b.Advances := by
  cases I.phase with
  | idle h => rcases h with ⟨h, _⟩ | ⟨h, _⟩ <;> simp [toGo, h] at hn
  | @half buf hclient hopen hmsg =>
    have h : EchoConn.Step b.conn (.receive buf) _ :=
      .receive hopen (hmsg.trans (List.append_nil buf).symm)
    refine I.advance (.receiveBody hclient rfl h) ⟨trivial, rfl⟩ ?_
    simp [toGo, hclient]
  | @replied buf hclient hopen hfit hmsg =>
    have h : EchoConn.Step b.conn (.receive (big.encode (.ofNat buf.length))) _ :=
      .receive hopen hmsg
    refine I.advance (.receiveHeader hclient (big.length_encode _) h) ⟨trivial, rfl⟩ ?_
    rw [readHdr_encode, toNat_length hfit, if_pos rfl]
    have hne : b.conn.toClient ≠ [] := hmsg ▸ encode_append_ne_nil
    simp [toGo, hclient, hne]
  | @asked buf cur A =>
    have hheld := A.holds
    rw [EchoServer.Holds] at hheld
    cases hpc : b.conn.server.pc with
    | closed =>
      have hclosed := I.ended hpc
      rw [A.isOpen] at hclosed
      cases hclosed
    | panicked => exact (A.alive hpc).elim
    | header =>
      rw [hpc] at hheld
      have heq := A.eq
      rw [hheld, List.nil_append] at heq
      have hlen := big.length_encode (.ofNat buf.length)
      have h : EchoConn.Step b.conn (.header (big.encode (.ofNat buf.length))) _ :=
        .header hpc heq (by rw [← List.length_pos_iff, hlen]; decide) hlen.le
      refine I.advance (.server rfl h) ⟨hlen, rfl⟩ ?_
      have halive := (I.server rfl (fun bs hbs => ConnEvent.header.inj hbs ▸ hlen) h).phase.alive
      rcases EchoServer.readLoop_eq (big.decode (writeAt b.conn.server.header 0
        (big.encode (.ofNat buf.length)))) 0 with hr | hr | hr
      · simp [toGo, A.client, A.toClient, hpc, EchoServer.readHeader, hr]
      · simp [toGo, A.client, A.toClient, hpc, EchoServer.readHeader, hr]
      · exact (halive hr).elim
    | body length read =>
      rw [hpc] at hheld
      obtain ⟨hlt, hle⟩ : read < length.toNat ∧ length.toNat ≤ echoBufSize := by
        have hrange := I.valid.pc
        rwa [hpc] at hrange
      obtain ⟨hlen, hbuf⟩ := (hheld ▸ A).length_eq
      have hsum := congrArg List.length hbuf
      rw [List.length_append, List.length_take, I.valid.buf, Nat.min_eq_left (by omega)] at hsum
      have hne : b.conn.toServer ≠ [] := by
        rw [← List.length_pos_iff]
        omega
      have h : EchoConn.Step b.conn (.body b.conn.toServer) _ :=
        .body hpc (List.append_nil _).symm hne (by omega)
      refine I.advance (.server rfl h) ⟨trivial, rfl⟩ ?_
      have hfits := A.fits
      rcases @EchoServer.readLoop_cases length (read + b.conn.toServer.length) (by omega)
        (fun _ => hle) with ⟨_, hr, _⟩ | ⟨hr, _⟩ | ⟨_, hr⟩
      · omega
      · simp [toGo, A.client, A.toClient, hpc, EchoServer.readBody, hr]
      · omega
    | write length =>
      have h : EchoConn.Step b.conn (.write _) _ := .write hpc A.isOpen
      refine I.advance (.server rfl h) ⟨trivial, rfl⟩ ?_
      have hne : b.conn.server.reply length ≠ [] := by
        rw [I.valid.reply_eq hpc A.holds, (A.read_all I.valid hpc).1]
        exact encode_append_ne_nil
      simp [toGo, A.client, A.toClient, hpc, hne]

/-- The benchmark goes well. -/
structure Intact (b : Bench) : Prop where
  /-- No assertion has failed, -/
  ok : b.client ≠ .failed
  /-- the server has not panicked, -/
  alive : b.conn.server.pc ≠ .panicked
  /-- and a request that has been sent can get its reply. -/
  returns : ∃ es b', Run Step b es b' ∧ (∀ e ∈ es, Helps e) ∧ b'.client.waits = false

theorem Inv.ok (I : b.Inv) : b.client ≠ .failed := by
  cases I.phase with
  | idle h => rcases h with ⟨h, _⟩ | ⟨h, _⟩ <;> simp [h]
  | asked A => simp [A.client]
  | replied h | half h => simp [h]

/-- **The benchmark**, for any requests and any pieces, if every header arrives as a whole, every
request fits into the slices of the server and no receive of the client times out. -/
theorem Runs.intact (H : Runs ls b) (hfits : ∀ e ∈ ls, e.Fits) : Intact b := by
  have I := H.inv hfits
  obtain ⟨es, b', K, hes, _, h0⟩ := Run.reaches Inv.advances I
  refine ⟨I.ok, I.phase.alive, es, b', K, hes, ?_⟩
  rw [toGo] at h0
  cases hclient : b'.client with
  | header =>
    rw [hclient] at h0
    simp only at h0
    split at h0
    · split at h0 <;> cases h0
    · cases h0
  | body =>
    rw [hclient] at h0
    cases h0
  | _ => rfl

/-- A request of one byte, on its way. -/
theorem intact_one_byte :
    Intact ⟨⟨.init, hdrBuf 1 ++ [7], [], false⟩, .header [7]⟩ := by
  have h : Step init (.request [7])
      ⟨⟨.init, hdrBuf 1 ++ [7], [], false⟩, .header [7]⟩ :=
    .request rfl (by decide) (.send rfl)
  refine Runs.intact (Run.nil.snoc h) ?_
  simp [BenchEvent.Fits, echoBufSize]

/-- **A header in two pieces**: the server answers any request but an empty one with an empty
message when it gets the first byte of the header on its own. -/
theorem exists_misframed (h0 : 0 < buf.length) (hfits : buf.length + 4 ≤ echoBufSize) :
    ∃ b, Runs [.request buf, .server (.header [0]), .server (.write [0, 0, 0, 0]),
      .receiveHeader [0, 0, 0, 0]] b ∧ b.client = .failed := by
  let server := EchoServer.init.readHeader [0]
  have hcapSize : echoBufSize < 2 ^ 24 := by decide
  have hbyte : byte (.ofNat buf.length) 3 = 0 := by
    rw [byte, toNat_length hfits, Nat.div_eq_of_lt (by omega)]
    rfl
  have hhdr : hdrBuf buf.length = [0] ++ (hdrBuf buf.length).tail := by
    rw [hdrBuf_eq, ← hbyte]
    rfl
  have V : server.Valid := Inv.init.valid.readHeader (by decide)
  have hpc : server.pc = .write 0 := EchoServer.readHeader_init_pc rfl
  have hreply : server.reply 0 = [0, 0, 0, 0] := by
    refine V.reply_eq hpc ?_
    rw [EchoServer.Holds, hpc]
    rfl
  have hrequest : Step init (.request buf)
      ⟨⟨.init, hdrBuf buf.length ++ buf, [], false⟩, .header buf⟩ :=
    .request rfl (by omega) (.send rfl)
  have hheader : Step ⟨⟨.init, hdrBuf buf.length ++ buf, [], false⟩, .header buf⟩
      (.server (.header [0]))
      ⟨⟨server, (hdrBuf buf.length).tail ++ buf, [], false⟩, .header buf⟩ := by
    refine .server rfl (.header rfl ?_ (by decide) (by decide))
    rw [hhdr]
    rfl
  have hwrite : Step ⟨⟨server, (hdrBuf buf.length).tail ++ buf, [], false⟩, .header buf⟩
      (.server (.write (server.reply 0))) _ :=
    .server rfl (.write hpc rfl)
  rw [hreply] at hwrite
  refine ⟨_, (((Run.nil.snoc hrequest).snoc hheader).snoc hwrite).snoc
    (.receiveHeader rfl rfl (.receive rfl (List.append_nil [0, 0, 0, 0]).symm)), if_neg ?_⟩
  exact h0.ne

end Bench
end RestyFfi
