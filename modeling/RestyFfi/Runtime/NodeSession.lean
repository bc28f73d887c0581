import RestyFfi.Base.Transition
import RestyFfi.Runtime.Node

/-!
# The connection of the Node.js loader

The first `libffi_init` starts Node.js and connects to it. Every call sends its message over the one
connection and waits for the reply, all of it under `init_lock`, and Node.js takes what has been
sent for one message. So messages and replies go in lock step (`Runs.lockStep`) as long as every
reply is text that fits into the buffer, unless `recv` is interrupted by a signal: the reply that is
left over is taken for that of the next call (`exists_stale`). For an empty reply nothing is
written, and the call waits in `recv` with the lock held (`not_leave_of_empty`).

If no attempt to connect succeeds there is no other, and as nothing is received every call returns
0, as if it had succeeded (`Runs.deaf`).
-/

namespace RestyFfi
open Transition NodeEnv

/-- The static variables of the loader, and the connection. -/
structure NodeLoader where
  initialized : Bool
  /-- How often `thread_fn` has been started. -/
  threads : Nat
  /-- `client_fd` is connected. -/
  connected : Bool
  /-- Sent, and not read by Node.js. -/
  sent : Bytes
  /-- Written by Node.js, and not received. -/
  written : Bytes
  /-- The arguments of the call that holds `init_lock`. -/
  call : Option (Bytes × UInt64)

inductive NodeEvent where
  /-- `libffi_init(cfg, tq)` up to `send`, and how the attempts to connect end if it makes them. -/
  | enter (cfg : Bytes) (tq : UInt64) (connect : Nat → Bool)
  /-- A `data` event of the connection, with the call that the handler makes. -/
  | data (call : Option JsCall)
  /-- The rest of `libffi_init(cfg, tq)` from `recv`, up to its end. -/
  | leave (cfg : Bytes) (tq : UInt64) (ret : Int32)
  /-- The same if a signal has interrupted `recv`. -/
  | interrupted (cfg : Bytes) (tq : UInt64) (ret : Int32)
  /-- The same for what fills the buffer. It has no end then, and `ret` is what `sscanf` finds
  there. -/
  | full (cfg : Bytes) (tq : UInt64) (ret : Int32)

namespace NodeEvent

def entered : NodeEvent → Option (Bytes × UInt64)
  | .enter cfg tq _ => some (cfg, tq)
  | _ => none

def handled : NodeEvent → Option (Option JsCall)
  | .data call => some call
  | _ => none

def isInterrupted : NodeEvent → Bool
  | .interrupted .. => true
  | _ => false

end NodeEvent

namespace NodeLoader

def init : NodeLoader := ⟨false, 0, false, [], [], none⟩

/-- The loop of `connect`, which ends with the first success. -/
def connectLoop (connect : Nat → Bool) : Bool := (List.range 10).any connect

/-- The block `if (!initialized)`. -/
def start (s : NodeLoader) (connect : Nat → Bool) : NodeLoader :=
  if s.initialized then s
  else { s with initialized := true, threads := s.threads + 1, connected := connectLoop connect }

/-- `send`, which fails without a connection. -/
def send (s : NodeLoader) (buf : Bytes) : NodeLoader :=
  { s with sent := if s.connected then s.sent ++ buf else s.sent }

/-- `recv` of what does not fill the buffer, which is zeroed before; `none` while it blocks. -/
def recv (s : NodeLoader) : Option Bytes :=
  if s.connected then
    if s.written = [] then none else some s.written
  else some []

variable (env : NodeEnv)

/-- The steps. -/
inductive Step (s : NodeLoader) : NodeEvent → NodeLoader → Prop where
  | enter : s.call = none → (message cfg tq).length + 1 ≤ bufSize →
    Step s (.enter cfg tq connect)
      { (s.start connect).send (message cfg tq) with call := some (cfg, tq) }
  | data : s.sent ≠ [] → env.handler s.sent = (jsCall, reply) →
    Step s (.data jsCall) { s with sent := [], written := s.written ++ reply }
  | leave : s.call = some (cfg, tq) → s.recv = some buf → buf.length < bufSize →
    Step s (.leave cfg tq (scanRet buf)) { s with written := [], call := none }
  | interrupted : s.call = some (cfg, tq) → s.connected = true →
    Step s (.interrupted cfg tq (scanRet [])) { s with call := none }
  | full : s.call = some (cfg, tq) → s.connected = true → bufSize ≤ s.written.length →
    Step s (.full cfg tq ret) { s with written := s.written.drop bufSize, call := none }

abbrev Runs (es : List NodeEvent) (s : NodeLoader) : Prop := Run (Step env) init es s

variable {env : NodeEnv} {s s' : NodeLoader} {e : NodeEvent} {es : List NodeEvent} {cfg : Bytes}
  {tq : UInt64} {connect : Nat → Bool} {buf : Bytes}

/-! ## Without a connection -/

@[simp] theorem start_sent : (s.start connect).sent = s.sent := by
  rw [start]
  split <;> rfl

@[simp] theorem start_written : (s.start connect).written = s.written := by
  rw [start]
  split <;> rfl

theorem start_of_initialized (hi : s.initialized = true) (connect : Nat → Bool) :
    s.start connect = s := if_pos hi

theorem start_of_not (hi : s.initialized = false) (connect : Nat → Bool) : s.start connect =
    { s with initialized := true, threads := s.threads + 1, connected := connectLoop connect } := by
  rw [start, hi]
  rfl

/-- Node.js is started once, and before anything is sent. -/
structure Once (s : NodeLoader) : Prop where
  threads : s.threads = if s.initialized then 1 else 0
  initialized : s.connected = true ∨ s.call ≠ none → s.initialized = true

theorem Step.once (h : Step env s e s') (I : s.Once) : s'.Once := by
  cases h with
  | @enter cfg tq connect =>
    cases hi : s.initialized with
    | true =>
      have := I.threads
      exact ⟨by simpa [start_of_initialized hi, send, hi] using this,
        fun _ => by simp [start_of_initialized hi, send, hi]⟩
    | false =>
      have := I.threads
      exact ⟨by simpa [start_of_not hi, send, hi] using this,
        fun _ => by simp [start_of_not hi, send]⟩
  | data => exact ⟨I.threads, I.initialized⟩
  | leave h | interrupted h | full h =>
    exact ⟨I.threads, fun hc => I.initialized (.inr (by simp [h]))⟩

theorem Runs.once (H : Runs env es s) : s.Once := by
  induction H with
  | nil => exact ⟨rfl, fun h => by simp [init] at h⟩
  | snoc _ h ih => exact h.once ih

/-- The connection stays as the first call has left it. -/
theorem Step.connected_eq (h : Step env s e s') (hi : s.initialized = true) :
    s'.connected = s.connected := by
  cases h with
  | enter => simp [start_of_initialized hi, send]
  | _ => rfl

theorem Step.connected_before (h : Step env s e s') (I : s.Once) (hc : s'.connected = false) :
    s.connected = false := by
  cases hi : s.initialized with
  | true => rwa [h.connected_eq hi] at hc
  | false =>
    rw [Bool.eq_false_iff]
    intro hs
    rw [I.initialized (.inl hs)] at hi
    cases hi

theorem scanRet_nil : scanRet [] = 0 := rfl

/-- What is true without a connection. -/
structure Deaf (es : List NodeEvent) (s : NodeLoader) : Prop where
  sent : s.sent = []
  handled : es.filterMap NodeEvent.handled = []
  ret : ∀ {cfg tq ret}, .leave cfg tq ret ∈ es → ret = 0

/-- **Silent failure.** If no attempt to connect has succeeded, nothing is ever called, and every
call of `libffi_init` whose message fits into the buffer returns 0. -/
theorem Runs.deaf (H : Runs env es s) (hc : s.connected = false) : Deaf es s := by
  induction H with
  | nil => exact ⟨rfl, rfl, fun h => nomatch h⟩
  | @snoc es s e s' H h ih =>
    have hs := h.connected_before (Runs.once H) hc
    have D := ih hs
    cases h with
    | enter =>
      refine ⟨?_, ?_, fun h => ?_⟩
      · have hc : (s.start _).connected = false := hc
        simpa [send, hc] using D.sent
      · simpa [filterMap_snoc, NodeEvent.handled] using D.handled
      · exact D.ret (by simpa using h)
    | data hn => exact (hn D.sent).elim
    | leave hcall hrecv =>
      refine ⟨D.sent, by simpa [filterMap_snoc, NodeEvent.handled] using D.handled, fun h => ?_⟩
      rw [recv, hs] at hrecv
      rcases List.mem_append.mp h with h | h
      · exact D.ret h
      · cases List.mem_singleton.mp h
        cases hrecv
        exact scanRet_nil
    | interrupted _ hconn | full _ hconn =>
      rw [hs] at hconn
      cases hconn

theorem deaf_one_call : ∃ s : NodeLoader,
    Runs fiveEnv [.enter [109] 7 fun _ => false, .leave [109] 7 0] s ∧ s.connected = false ∧
      Deaf [.enter [109] 7 fun _ => false, .leave [109] 7 0] s := by
  have hfits : (message [109] 7).length + 1 ≤ bufSize := by
    rw [message, List.length_append, length_fmtPtr_seven]
    decide
  have H : Runs fiveEnv [.enter [109] 7 fun _ => false] ⟨true, 1, false, [], [], some ([109], 7)⟩ :=
    Run.single (.enter rfl hfits)
  have hleave : Step fiveEnv ⟨true, 1, false, [], [], some ([109], 7)⟩
    (.leave [109] 7 (scanRet [])) ⟨true, 1, false, [], [], none⟩ := .leave rfl rfl (by decide)
  have H' := H.snoc hleave
  exact ⟨_, H', rfl, Runs.deaf H' rfl⟩

/-! ## In lock step -/

theorem comma_mem_message : comma ∈ message cfg tq := by simp [message]

theorem message_ne_nil : message cfg tq ≠ [] := List.ne_nil_of_mem comma_mem_message

/-- The handler's answer to a message. -/
abbrev replyTo (env : NodeEnv) (cfg : Bytes) (tq : UInt64) : Option JsCall × Bytes :=
  env.handler (message cfg tq)

/-- The calls that have got past `send`, and what their messages make the handler call. -/
def requested (env : NodeEnv) (es : List NodeEvent) : List (Option JsCall) :=
  (es.filterMap NodeEvent.entered).map fun c => (replyTo env c.1 c.2).1

/-- Where a call and Node.js stand. -/
inductive Phase (env : NodeEnv) (es : List NodeEvent) (s : NodeLoader) : Prop where
  | idle : s.call = none → s.sent = [] → s.written = [] →
    es.filterMap NodeEvent.handled = requested env es → Phase env es s
  | sent {cfg : Bytes} {tq : UInt64} : s.call = some (cfg, tq) → s.sent = message cfg tq →
    s.written = [] →
    es.filterMap NodeEvent.handled ++ [(replyTo env cfg tq).1] = requested env es → Phase env es s
  | replied {cfg : Bytes} {tq : UInt64} : s.call = some (cfg, tq) → s.sent = [] →
    s.written = (replyTo env cfg tq).2 →
    es.filterMap NodeEvent.handled = requested env es → Phase env es s

/-- The call that holds the lock fits into the buffer. -/
def Fits (s : NodeLoader) : Prop :=
  ∀ {cfg tq}, s.call = some (cfg, tq) → (message cfg tq).length + 1 ≤ bufSize

theorem Step.fits (h : Step env s e s') (F : s.Fits) : s'.Fits := by
  cases h with
  | enter _ hfits =>
    intro cfg tq h
    cases h
    exact hfits
  | data => exact F
  | leave | interrupted | full => exact fun h => nomatch h

theorem Runs.fits (H : Runs env es s) : s.Fits := by
  induction H with
  | nil => exact fun h => nomatch h
  | snoc _ h ih => exact h.fits ih

/-- The handler writes something, and less than a buffer. -/
def Replies (env : NodeEnv) (cfg : Bytes) (tq : UInt64) : Prop :=
  (replyTo env cfg tq).2 ≠ [] ∧ (replyTo env cfg tq).2.length < bufSize

/-- So it does if all functions return C ints. -/
theorem replies_of_intText (h : ∀ {mod func f}, env.func mod func = some f → ∃ g, f = intText g)
    (cfg : Bytes) (tq : UInt64) : Replies env cfg tq := by
  have hone : ([49] : Bytes) ≠ [] ∧ ([49] : Bytes).length < bufSize := by decide
  rw [Replies, replyTo, handler]
  split
  · exact hone
  split
  · exact hone
  rename_i f hf
  obtain ⟨g, rfl⟩ := h hf
  split
  · exact hone
  rename_i text htext
  obtain ⟨rc, -, rfl⟩ := Option.map_eq_some_iff.mp htext
  exact ⟨Numeral.printInt_ne_nil _, length_printInt_lt rc⟩

theorem requested_snoc (es : List NodeEvent) (e : NodeEvent) : requested env (es ++ [e]) =
    requested env es ++ (e.entered.map fun c => (replyTo env c.1 c.2).1).toList := by
  rw [requested, filterMap_snoc, List.map_append, requested]
  cases e.entered <;> rfl

theorem start_initialized : (s.start connect).initialized = true := by
  rw [start]
  split
  · assumption
  · rfl

theorem Step.initialized (h : Step env s e s') (hi : s.initialized = true) :
    s'.initialized = true := by
  cases h with
  | enter => exact start_initialized
  | _ => exact hi

/-- Every call so far has got such a reply, or will get one. -/
def AllReply (env : NodeEnv) (es : List NodeEvent) : Prop :=
  ∀ {cfg tq connect}, .enter cfg tq connect ∈ es → Replies env cfg tq

theorem AllReply.of_append {es' : List NodeEvent} (h : AllReply env (es ++ es')) :
    AllReply env es := fun hmem => h (List.mem_append_left _ hmem)

/-- The call that holds the lock has been entered. -/
theorem Runs.entered (H : Runs env es s) (hcall : s.call = some (cfg, tq)) :
    ∃ connect, .enter cfg tq connect ∈ es := by
  induction H with
  | nil => cases hcall
  | snoc _ h ih =>
    cases h with
    | @enter _ _ connect =>
      cases hcall
      exact ⟨connect, by simp⟩
    | data =>
      obtain ⟨connect, hmem⟩ := ih hcall
      exact ⟨connect, List.mem_append_left _ hmem⟩
    | leave | interrupted | full => cases hcall

theorem Step.phase (h : Step env s e s') (I : s.Once)
    (hc : s'.initialized = true → s'.connected = true) (he : e.isInterrupted = false)
    (hr : ∀ {cfg tq}, s.call = some (cfg, tq) → Replies env cfg tq)
    (P : Phase env es s) : Phase env (es ++ [e]) s' := by
  cases h with
  | @enter cfg tq connect hcall hfits =>
    have hc : (s.start connect).connected = true := hc start_initialized
    cases P with
    | idle _ hsent hwritten hhandled =>
      refine .sent rfl (by simp [send, hc, hsent]) (by simpa [send] using hwritten) ?_
      rw [requested_snoc, filterMap_snoc, hhandled]
      simp [NodeEvent.handled, NodeEvent.entered]
    | sent hcall' | replied hcall' =>
      rw [hcall] at hcall'
      cases hcall'
  | @data jsCall reply hne hhandler =>
    cases P with
    | idle _ hsent | replied _ hsent => exact (hne hsent).elim
    | @sent cfg tq hcall hsent hwritten hhandled =>
      rw [hsent] at hhandler
      refine .replied hcall rfl ?_ ?_
      · simp [hwritten, replyTo, hhandler]
      · rw [requested_snoc, filterMap_snoc, ← hhandled]
        simp [NodeEvent.handled, NodeEvent.entered, replyTo, hhandler]
  | @leave cfg tq buf hcall hrecv =>
    have hc : s.connected = true := hc (I.initialized (.inr (by simp [hcall])))
    cases P with
    | idle hcall' =>
      rw [hcall] at hcall'
      cases hcall'
    | sent _ _ hwritten => simp [recv, hc, hwritten] at hrecv
    | replied _ hsent _ hhandled =>
      refine .idle rfl hsent rfl ?_
      rw [requested_snoc, filterMap_snoc, hhandled]
      simp [NodeEvent.handled, NodeEvent.entered]
  | interrupted => cases he
  | full hcall _ hlen =>
    cases P with
    | idle hcall' =>
      rw [hcall] at hcall'
      cases hcall'
    | sent _ _ hwritten => simp [hwritten, bufSize] at hlen
    | replied hcall' _ hwritten =>
      rw [hwritten] at hlen
      exact absurd (hr hcall').2 (not_lt.mpr hlen)

theorem Runs.phase (H : Runs env es s) (hc : s.initialized = true → s.connected = true)
    (he : ∀ e ∈ es, e.isInterrupted = false) (hr : AllReply env es) : Phase env es s := by
  induction H with
  | nil => exact .idle rfl rfl rfl rfl
  | snoc H h ih =>
    rw [List.forall_mem_append] at he
    have hr' : AllReply env _ := hr.of_append
    refine h.phase (Runs.once H) hc (he.2 _ (.head _)) (fun hcall => ?_)
      (ih (fun hi => ?_) he.1 hr')
    · obtain ⟨_, hmem⟩ := Runs.entered H hcall
      exact hr' hmem
    · rw [← h.connected_eq hi]
      exact hc (h.initialized hi)

/-- Messages and replies in lock step. -/
structure LockStep (env : NodeEnv) (es : List NodeEvent) (s : NodeLoader) : Prop where
  /-- The handler has been called for the messages, in order; for all but at most the last. -/
  handled : es.filterMap NodeEvent.handled <+: requested env es
  /-- Between the calls there is nothing left over. -/
  idle : s.call = none → s.sent = [] ∧ s.written = [] ∧
    es.filterMap NodeEvent.handled = requested env es
  /-- A call returns what the handler has replied to its own message. -/
  own : ∀ {cfg tq ret}, .leave cfg tq ret ∈ es →
    ∃ jsCall, env.libffiInit cfg tq = some (jsCall, ret)
  /-- A call does not hang: it can return by itself. -/
  returns : s.call ≠ none → ∃ ks s', Run (Step env) s ks s' ∧ s'.call = none ∧
    ∀ e ∈ ks, e.entered = none ∧ e.isInterrupted = false

theorem Runs.own (H : Runs env es s) (hc : s.initialized = true → s.connected = true)
    (he : ∀ e ∈ es, e.isInterrupted = false) (hr : AllReply env es) :
    ∀ {cfg tq ret}, .leave cfg tq ret ∈ es →
      ∃ jsCall, env.libffiInit cfg tq = some (jsCall, ret) := by
  induction H with
  | nil => exact fun h => nomatch h
  | @snoc es s e s' H h ih =>
    rw [List.forall_mem_append] at he
    have hc' : s.initialized = true → s.connected = true := by
      intro hi
      rw [← h.connected_eq hi]
      exact hc (h.initialized hi)
    have hr' : AllReply env es := hr.of_append
    intro cfg tq ret hmem
    rcases List.mem_append.mp hmem with hmem | hmem
    · exact ih hc' he.1 hr' hmem
    cases List.mem_singleton.mp hmem
    cases h with
    | @leave _ _ buf hcall hrecv =>
      have hconn := hc' ((Runs.once H).initialized (.inr (by simp [hcall])))
      cases Runs.phase H hc' he.1 hr' with
      | idle hcall' =>
        rw [hcall] at hcall'
        cases hcall'
      | sent _ _ hwritten => simp [recv, hconn, hwritten] at hrecv
      | replied hcall' _ hwritten =>
        rw [hcall] at hcall'
        cases hcall'
        have hbuf : buf = (replyTo env cfg tq).2 := by
          simp only [recv, hconn, if_true] at hrecv
          split at hrecv
          · cases hrecv
          · cases hrecv
            exact hwritten
        obtain ⟨connect, hmem⟩ := Runs.entered H hcall
        refine ⟨(replyTo env cfg tq).1, ?_⟩
        rw [libffiInit_of_fits (Runs.fits H hcall), received_of (hr' hmem), hbuf]
        rfl

theorem Step.data_sent (hsent : s.sent = message cfg tq) (hw : s.written = []) : Step env s
    (.data (replyTo env cfg tq).1) { s with sent := [], written := (replyTo env cfg tq).2 } := by
  have h : Step env s (.data (replyTo env cfg tq).1)
      { s with sent := [], written := s.written ++ (replyTo env cfg tq).2 } :=
    .data (hsent ▸ message_ne_nil) (by rw [hsent])
  rwa [hw, List.nil_append] at h

theorem Step.leave_replied {cfg' : Bytes} {tq' : UInt64} (hcall : s.call = some (cfg', tq'))
    (hc : s.connected = true) (hr : Replies env cfg tq) (hw : s.written = (replyTo env cfg tq).2) :
    Step env s (.leave cfg' tq' (scanRet (replyTo env cfg tq).2))
      { s with written := [], call := none } := by
  refine .leave hcall ?_ hr.2
  rw [recv, if_pos hc, hw, if_neg hr.1]

theorem Phase.returns (P : Phase env es s) (hc : s.connected = true)
    (hr : ∀ {cfg tq}, s.call = some (cfg, tq) → Replies env cfg tq) (hcall : s.call ≠ none) :
    ∃ ks s', Run (Step env) s ks s' ∧ s'.call = none ∧
      ∀ e ∈ ks, e.entered = none ∧ e.isInterrupted = false := by
  cases P with
  | idle hnone => exact (hcall hnone).elim
  | sent hcall hsent hwritten =>
    have hdata : Step env s _ _ := .data_sent hsent hwritten
    exact ⟨_, _, (Run.single hdata).snoc (.leave_replied hcall hc (hr hcall) rfl), rfl, by
      simp [NodeEvent.entered, NodeEvent.isInterrupted]⟩
  | replied hcall _ hwritten =>
    exact ⟨_, _, .single (.leave_replied hcall hc (hr hcall) hwritten), rfl, by
      simp [NodeEvent.entered, NodeEvent.isInterrupted]⟩

/-- **Lock step**, in every run in which Node.js has been reached, no `recv` is interrupted and
every reply is text that fits into the buffer. -/
theorem Runs.lockStep (H : Runs env es s) (hc : s.connected = true)
    (he : ∀ e ∈ es, e.isInterrupted = false) (hr : AllReply env es) : LockStep env es s := by
  have P := H.phase (fun _ => hc) he hr
  refine ⟨?_, fun hcall => ?_, H.own (fun _ => hc) he hr, P.returns hc fun hcall => ?_⟩
  · cases P with
    | idle _ _ _ h | replied _ _ _ h => rw [h]
    | sent _ _ _ h => exact ⟨_, h⟩
  · cases P with
    | idle _ hsent hwritten h => exact ⟨hsent, hwritten, h⟩
    | sent h | replied h =>
      rw [hcall] at h
      cases h
  · obtain ⟨_, hmem⟩ := Runs.entered H hcall
    exact hr hmem

/-- The first call, if the second attempt to connect succeeds. -/
theorem Runs.enter_first (env : NodeEnv) (hfits : (message cfg tq).length + 1 ≤ bufSize) :
    Runs env [.enter cfg tq (· = 1)] ⟨true, 1, true, message cfg tq, [], some (cfg, tq)⟩ :=
  Run.single (.enter rfl hfits)

theorem replies_fiveEnv (cfg : Bytes) (tq : UInt64) : Replies fiveEnv cfg tq :=
  replies_of_intText (fun h => ⟨_, (Option.some.inj h).symm⟩) cfg tq

theorem lockStep_one_call : ∃ s : NodeLoader, Runs fiveEnv [.enter [109] 7 (· = 1),
    .data (replyTo fiveEnv [109] 7).1, .leave [109] 7 (scanRet (replyTo fiveEnv [109] 7).2)] s ∧
      LockStep fiveEnv [.enter [109] 7 (· = 1), .data (replyTo fiveEnv [109] 7).1,
        .leave [109] 7 (scanRet (replyTo fiveEnv [109] 7).2)] s := by
  have hfits : (message [109] 7).length + 1 ≤ bufSize := by
    rw [message, List.length_append, length_fmtPtr_seven]
    decide
  have H := ((Runs.enter_first fiveEnv hfits).snoc (.data_sent rfl rfl)).snoc
    (.leave_replied rfl rfl (replies_fiveEnv [109] 7) rfl)
  exact ⟨_, H, Runs.lockStep H rfl (by simp [NodeEvent.isInterrupted])
    fun _ => replies_fiveEnv _ _⟩

/-- A call whose reply is the empty string does not get past `recv`. -/
theorem not_leave_of_empty {cfg' : Bytes} {tq' : UInt64} {ret : Int32} (hc : s.connected = true)
    (hw : s.written = []) : ¬ Step env s (.leave cfg' tq' ret) s' := by
  intro h
  cases h with
  | leave _ hrecv => simp [recv, hc, hw] at hrecv

/-- After an interrupt the next call may get the reply to the one before. -/
theorem exists_stale {cfg' : Bytes} {tq' : UInt64} (hr : Replies env cfg tq)
    (hfits : (message cfg tq).length + 1 ≤ bufSize)
    (hfits' : (message cfg' tq').length + 1 ≤ bufSize) :
    ∃ es s, Runs env es s ∧ .leave cfg' tq' (scanRet (replyTo env cfg tq).2) ∈ es := by
  have H := (((Runs.enter_first env hfits).snoc (.interrupted rfl rfl)).snoc
    (.data_sent rfl rfl)).snoc
      (show Step env _ (.enter cfg' tq' fun _ => false) _ from .enter rfl hfits')
  exact ⟨_, _, H.snoc (.leave_replied rfl rfl hr rfl), by simp⟩

end NodeLoader
end RestyFfi
