import RestyFfi.Lua.System
import RestyFfi.Queue.Accounting

/-!
# Graceful unload

The queue alone would accept a request behind the finish marker, or a second marker. It is the flag
`finished` of the runtime object that rules both out, together with the fact that no two objects
hold one queue: what is enqueued is some requests and then at most one marker (`Runs.ordered`).
With the FIFO law of the queue, the marker is dequeued last and the queue is freed empty, once.
-/

namespace RestyFfi
open Transition Counting

/-- The queue is freed. -/
def Event.isFree : Event Th α → Bool
  | .free _ => true
  | _ => false

/-- The finish marker is dequeued. -/
def Event.takesFinish : Event Th α → Bool
  | .take _ .finish => true
  | _ => false

/-- Requests, then at most one finish marker. -/
def Ordered (ts : List (Task α)) : Prop :=
  ∃ as : List α, ts = as.map .request ∨ ts = as.map .request ++ [.finish]

theorem Ordered.nil : Ordered ([] : List (Task α)) := ⟨[], .inl rfl⟩

/-- Once the marker is among the first tasks there is nothing behind them. -/
theorem Ordered.eq_nil {xs ys : List (Task α)} (h : Ordered (xs ++ ys)) (hf : .finish ∈ xs) :
    ys = [] := by
  obtain ⟨as, h⟩ := h
  have hreq : ∀ zs : List α, .finish ∉ zs.map Task.request := by simp
  rcases h with h | h
  · exact (hreq as (h ▸ List.mem_append_left _ hf)).elim
  · rcases List.eq_nil_or_concat ys with rfl | ⟨zs, z, rfl⟩
    · rfl
    · rw [List.concat_eq_append, ← List.append_assoc] at h
      have h := (List.append_inj' h rfl).1
      exact (hreq as (h ▸ List.mem_append_left _ hf)).elim

theorem Ordered.count_finish {ts : List (Task α)} (h : Ordered ts) :
    ts.countP (·.ctx.isNone) ≤ 1 := by
  obtain ⟨as, rfl | rfl⟩ := h <;> simp [List.countP_map, Function.comp_def, List.countP_cons]

namespace Pollers
variable {Th α : Type} [DecidableEq Th] {s s' : Pollers Th α} {e : Event Th α}
  {es : List (Event Th α)} {n : Int}

omit [DecidableEq Th] in
theorem countP_taken (es : List (Event Th α)) :
    (es.flatMap Event.taken).countP (·.ctx.isNone) = es.countP Event.takesFinish := by
  induction es with
  | nil => rfl
  | cons e es ih =>
    rw [List.flatMap_cons, List.countP_append, List.countP_cons, ih, Nat.add_comm]
    congr 1
    cases e with
    | take th task => cases task <;> rfl
    | _ => rfl

variable [Fintype Th]

theorem Step.frees_eq (h : Step s e s') :
    (if e.isFree then 1 else 0) + count (fun pc => pc = .freeing) s'.pc =
      (if e.takesFinish then 1 else 0) + count (fun pc => pc = .freeing) s.pc := by
  cases h.move with
  | rejected => rfl
  | @accepted woken task hw =>
    simp only [Event.isFree, Event.takesFinish]
    congr 1
    refine count_congr fun th => ?_
    unfold wakeUp
    split
    · rename_i hm; simp [hw.1 th hm]
    · rfl
  | @enter th hpc | @sleep th hpc | @resleep th hpc | @wake th hpc | @free th hpc =>
    have hb := fun pc => count_update (p := fun pc => pc = Pc.freeing) s.pc th pc
    simp only [hpc] at hb
    have h1 := hb .locking; have h2 := hb .asleep; have h3 := hb .awake; have h4 := hb .stopped
    simp [Event.isFree, Event.takesFinish] at *
    omega
  | @take th task rest hpc hq | @retake th task rest hpc hq =>
    have hb := count_update (p := fun pc => pc = Pc.freeing) s.pc th (.afterTake task)
    cases task <;> simp [hpc, Event.isFree, Event.takesFinish] at * <;> omega

/-- Every marker that was dequeued is about to free the queue, or has. -/
theorem Runs.frees_eq (H : Runs n es s) :
    es.countP Event.isFree + count (fun pc => pc = .freeing) s.pc =
      es.countP Event.takesFinish := by
  induction H with
  | nil => simp [init]
  | snoc _ h ih =>
    have := h.frees_eq
    simp only [List.countP_append, List.countP_singleton]
    omega

end Pollers

namespace System
variable {Th Lib α : Type} [DecidableEq Th] {resolve : LuaString → Lib} {s s' : System Th Lib α}
  {l : SysEvent Th Lib α} {ls : List (SysEvent Th Lib α)} {q : Nat} {p : Pollers Th α}

/-- The tasks enqueued at `q`, in the order they were accepted. -/
def accepted (q : Nat) (ls : List (SysEvent Th Lib α)) : List (Task α) :=
  (history q ls).flatMap Event.accepted

/-- The tasks that polls have dequeued at `q`, in the order they were dequeued. -/
def handedOut (q : Nat) (ls : List (SysEvent Th Lib α)) : List (Task α) :=
  (history q ls).flatMap Event.taken

/-- Some runtime object holds the queue `q`. -/
def Held (s : System Th Lib α) (q : Nat) : Prop :=
  ∃ o n, s.lua.objs.get o = some n ∧ n.tq = .val q

omit [DecidableEq Th] in
theorem accepted_snoc (q : Nat) (ls : List (SysEvent Th Lib α)) (l : SysEvent Th Lib α) :
    accepted q (ls ++ [l]) = accepted q ls ++ (l.onQueue q).toList.flatMap Event.accepted := by
  rw [accepted, history_snoc, List.flatMap_append]; rfl

/-- Requests only while an object holds the queue, and at most one marker in the end. -/
def PostedInOrder (ls : List (SysEvent Th Lib α)) (s : System Th Lib α) (q : Nat) : Prop :=
  Ordered (accepted q ls) ∧ (s.Held q → ∃ as : List α, accepted q ls = as.map .request)

omit [DecidableEq Th] in
/-- A step that enqueues nothing at `q` and gives nobody the queue. -/
theorem PostedInOrder.keep (P : PostedInOrder ls s q)
    (hl : (l.onQueue q).toList.flatMap Event.accepted = []) (hheld : s'.Held q → s.Held q) :
    PostedInOrder (ls ++ [l]) s' q := by
  rw [PostedInOrder, accepted_snoc, hl, List.append_nil]
  exact ⟨P.1, fun hs => P.2 (hheld hs)⟩

omit [DecidableEq Th] in
theorem PostedInOrder.of_requests {as : List α} (h : accepted q ls = as.map .request) :
    PostedInOrder ls s q :=
  ⟨⟨as, .inl h⟩, fun _ => ⟨as, h⟩⟩

omit [DecidableEq Th] in
theorem not_held_of_finish {L : LuaState Lib} {o : Nat} {name : Option FieldName}
    {Q : Arena (Pollers Th α)} (I : s.lua.Inv resolve) (h : s.lua.call o name = (L, .finish q)) :
    s.Held q ∧ ¬ Held { lua := L, queues := Q : System Th Lib α } q := by
  cases I.call_move h with
  | unload hn _ hq _ _ _ hq' =>
    refine ⟨⟨o, _, hn, hq⟩, ?_⟩
    rintro ⟨o', m, ho', hm⟩
    rcases Arena.modify_get_eq_some ho' with ⟨rfl, _, _, rfl⟩ | ⟨hne, ho'⟩
    · rw [hq'] at hm; cases hm
    · exact hne (I.tq_unique ho' hn hm hq)

omit [DecidableEq Th] in
theorem Inv.held_of_call {L : LuaState Lib} {o : Nat} {name : Option FieldName} {c : CCall}
    {Q : Arena (Pollers Th α)} (I : s.Inv resolve) (h : s.lua.call o name = (L, c))
    (hq : Held { lua := L, queues := Q : System Th Lib α } q) : s.Held q := by
  obtain ⟨o', n, ho, hq⟩ := hq
  obtain ⟨n', hn, hq⟩ := I.lua.holds_of_call h ho hq
  exact ⟨o', n', hn, hq⟩

omit [DecidableEq Th] in
/-- A load gives nobody a queue but the new one. -/
theorem held_of_loadMove {lib k : LuaString} {r : LoadResult Lib} {L s₁ : LuaState Lib} {pin : Bool}
    {q' : Nat} {Q : Arena (Pollers Th α)} (hs₁ : s₁.objs = s.lua.objs)
    (hm : LuaState.LoadMove resolve s₁ q' lib k pin L r) (hq : q ≠ q')
    (hheld : Held { lua := L, queues := Q : System Th Lib α } q) : s.Held q := by
  obtain ⟨o, n, ho, hn⟩ := hheld
  rcases hm.holds ho hn with ⟨hqq, _⟩ | ho
  · exact (hq hqq).elim
  · exact ⟨o, n, hs₁ ▸ ho, hn⟩

theorem Step.postedInOrder (H : Runs resolve ls s) (h : Step resolve s l s')
    (ih : ∀ q, PostedInOrder ls s q) (q : Nat) : PostedInOrder (ls ++ [l]) s' q := by
  have I := Runs.inv H
  cases h with
  | @load env lib cfg opts L r h =>
    obtain ⟨s₁, hs₁, hm⟩ := LuaState.loadFfi_move h
    by_cases hq : q = s.queues.next
    · -- the new queue: nothing has been enqueued there
      have hnil := Runs.history_nil H (s.queues.fresh q (Nat.le_of_eq hq.symm))
      have hacc : accepted q (ls ++ [.load env lib cfg opts r s.queues.next]) =
          ([] : List α).map .request := by
        rw [accepted_snoc, accepted, hnil]; rfl
      exact .of_requests hacc
    · exact (ih q).keep rfl (held_of_loadMove hs₁.objs hm hq)
  | idle h => exact (ih q).keep rfl (I.held_of_call h)
  | collect => exact (ih q).keep rfl id
  | @poll q' p₀ e p₁ _ he hs =>
    refine (ih q).keep ?_ id
    simp only [SysEvent.onQueue]
    split
    · cases e <;> simp_all [Event.isPost, Event.accepted]
    · rfl
  | @post o name L q' p₀ a rc p₁ h hp hs =>
    by_cases hqq : q' = q
    · subst hqq
      -- the object that posts holds the queue, so no marker is enqueued
      have hheld : s.Held q' := by
        cases I.lua.call_move h with
        | post hn _ hq _ => exact ⟨o, _, hn, hq⟩
      obtain ⟨as, has⟩ := (ih q').2 hheld
      have hacc : ∃ bs : List α, accepted q' (ls ++
          [SysEvent.call o name (some (q', .post (.request a) rc))]) = bs.map .request := by
        rw [accepted_snoc, has]
        cases rc with
        | ok => exact ⟨as ++ [a], by simp [SysEvent.onQueue, Event.accepted]⟩
        | error => exact ⟨as, by simp [SysEvent.onQueue, Event.accepted]⟩
      obtain ⟨bs, hbs⟩ := hacc
      exact .of_requests hbs
    · exact (ih q).keep (by simp [SysEvent.onQueue, hqq]) (I.held_of_call h)
  | @finish o name L q' p₀ rc p₁ h hp hs =>
    by_cases hqq : q' = q
    · subst hqq
      obtain ⟨hheld, hnot⟩ := not_held_of_finish
        (Q := s.queues.modify q' fun _ => p₁) I.lua h
      obtain ⟨as, has⟩ := (ih q').2 hheld
      refine ⟨⟨as, ?_⟩, fun hs => (hnot hs).elim⟩
      rw [accepted_snoc, has]
      cases rc with
      | ok => exact .inr (by simp [SysEvent.onQueue, Event.accepted])
      | error => exact .inl (by simp [SysEvent.onQueue, Event.accepted])
    · exact (ih q).keep (by simp [SysEvent.onQueue, hqq]) (I.held_of_call h)

theorem Runs.postedInOrder (H : Runs resolve ls s) (q : Nat) : PostedInOrder ls s q := by
  refine H.invariant (P := fun ls s => ∀ q, PostedInOrder ls s q) ?_
    (fun H ih h => Step.postedInOrder H h ih) q
  exact fun q => ⟨.nil, fun _ => ⟨[], rfl⟩⟩

theorem Runs.ordered (H : Runs resolve ls s) (q : Nat) : Ordered (accepted q ls) :=
  (H.postedInOrder q).1

theorem Runs.fifo (H : Runs resolve ls s) (hp : s.queues.get q = some p) :
    handedOut q ls ++ p.tq.queue = accepted q ls := by
  obtain ⟨n, hr⟩ := H.queue_runs hp
  exact hr.fifo

theorem Runs.takesFinish_le (H : Runs resolve ls s) (hp : s.queues.get q = some p) :
    (history q ls).countP Event.takesFinish ≤ 1 := by
  have hcount := (H.ordered q).count_finish
  rw [← H.fifo hp, List.countP_append, handedOut, Pollers.countP_taken] at hcount
  omega

variable [Fintype Th]

/-- A thread about to free the queue has dequeued the marker, and finds the queue empty. -/
theorem Runs.queue_nil_of_freeing {th : Th} (H : Runs resolve ls s) (hp : s.queues.get q = some p)
    (hth : p.pc th = .freeing) : p.tq.queue = [] := by
  obtain ⟨n, hr⟩ := H.queue_runs hp
  have hpos : 0 < count (fun pc => pc = .freeing) p.pc := count_pos (i := th) hth
  have hfree := hr.frees_eq
  have ho := H.ordered q
  rw [← H.fifo hp] at ho
  refine ho.eq_nil ?_
  have htake : 0 < (handedOut q ls).countP (·.ctx.isNone) := by
    rw [handedOut, Pollers.countP_taken]; omega
  obtain ⟨t, ht, hn⟩ := List.countP_pos_iff.mp htake
  cases t with
  | request => cases hn
  | finish => exact ht

/-- **FIFO hand-out and graceful unload**, at every queue of every reachable state. -/
theorem Runs.graceful_unload (H : Runs resolve ls s) (hp : s.queues.get q = some p) :
    (∃ (as : List α) (fin : List (Task α)), (fin = [] ∨ fin = [.finish]) ∧
      accepted q ls = as.map .request ++ fin ∧
      handedOut q ls ++ p.tq.queue = as.map .request ++ fin ∧
      -- a poll that consumes the marker comes after every accepted request
      (∀ th s', Step resolve s (.queue q (.take th .finish)) s' → handedOut q ls = as.map .request)) ∧
    (∀ th s', Step resolve s (.queue q (.free th)) s' → p.tq.queue = []) ∧
    (history q ls).countP Event.isFree ≤ 1 := by
  have hfifo := H.fifo hp
  obtain ⟨n, hr⟩ := H.queue_runs hp
  refine ⟨?_, fun th s' h => ?_, ?_⟩
  · obtain ⟨as, hacc⟩ := H.ordered q
    obtain ⟨fin, hfin, hacc⟩ : ∃ fin : List (Task α), (fin = [] ∨ fin = [.finish]) ∧
        accepted q ls = as.map .request ++ fin := by
      rcases hacc with h | h
      · exact ⟨[], .inl rfl, by simpa using h⟩
      · exact ⟨[.finish], .inr rfl, h⟩
    refine ⟨as, fin, hfin, hacc, hfifo.trans hacc, fun th s' h => ?_⟩
    obtain ⟨rest, hq⟩ : ∃ rest, p.tq.queue = .finish :: rest := by
      cases h with
      | poll hp' _ hs =>
        rw [hp] at hp'; cases hp'
        cases hs.move with
        | take _ hq | retake _ hq => exact ⟨_, hq⟩
    have ho := H.ordered q
    rw [← hfifo, hq, List.append_cons] at ho
    have hrest := ho.eq_nil (by simp)
    subst hrest
    rw [hacc, hq] at hfifo
    rcases hfin with rfl | rfl
    · have : Task.finish ∈ as.map Task.request := by
        rw [List.append_nil] at hfifo; rw [← hfifo]; simp
      simp at this
    · exact (List.append_inj' hfifo rfl).1
  · cases h with
    | poll hp' _ hs =>
      rw [hp] at hp'; cases hp'
      cases hs.move with
      | free hth => exact H.queue_nil_of_freeing hp hth
  · have := hr.frees_eq
    have := H.takesFinish_le hp
    omega

/-- A runtime is unloaded behind a request, and takes the one and then the other. -/
def unloadRun : List (SysEvent Unit LuaString Nat) :=
  [.load .ok (ascii "echo") none none (.loaded 0 (ascii "echo")) 0,
    .call 0 none (some (0, .post (.request 7) .ok)),
    .call 0 (some .unload) (some (0, .post .finish .ok)), .queue 0 (.enter ()),
    .queue 0 (.take () (.request 7)), .queue 0 (.enter ()), .queue 0 (.take () .finish)]

theorem unloadRun_runs : ∃ (s s' : System Unit LuaString Nat) (p p' : Pollers Unit Nat),
    Runs id unloadRun s ∧ s.queues.get 0 = some p ∧ Step id s (.queue 0 (.free ())) s' ∧
      s'.queues.get 0 = some p' := by
  have H₁ := Run.nil.snoc (@Step.load Unit LuaString Nat _ id init .ok
    (ascii "echo") none none _ _ rfl)
  have H₂ := H₁.snoc (@Step.post Unit LuaString Nat _ id _ 0 none _ 0 _ 7 _ _ rfl rfl
    (@Pollers.Step.post Unit Nat _ _ ∅ (.request 7) {} ⟨by simp, fun ⟨_, h⟩ => nomatch h⟩))
  have H₃ := H₂.snoc (@Step.finish Unit LuaString Nat _ id _ 0 (some .unload) _ 0 _ _ _ rfl rfl
    (@Pollers.Step.post Unit Nat _ _ ∅ .finish {} ⟨by simp, fun ⟨_, h⟩ => nomatch h⟩))
  have H₄ := H₃.snoc (@Step.poll Unit LuaString Nat _ id _ 0 _ _ _ rfl rfl
    (@Pollers.Step.enter Unit Nat _ _ () rfl))
  have H₅ := H₄.snoc (@Step.poll Unit LuaString Nat _ id _ 0 _ _ _ rfl rfl
    (@Pollers.Step.lock Unit Nat _ _ () rfl))
  have H₆ := H₅.snoc (@Step.poll Unit LuaString Nat _ id _ 0 _ _ _ rfl rfl
    (@Pollers.Step.enter Unit Nat _ _ () rfl))
  have H₇ := H₆.snoc (@Step.poll Unit LuaString Nat _ id _ 0 _ _ _ rfl rfl
    (@Pollers.Step.lock Unit Nat _ _ () rfl))
  exact ⟨_, _, _, _, H₇, rfl, .poll rfl rfl (.free rfl), rfl⟩

/-- Then its poll frees the queue, which is empty. -/
theorem graceful_unload_one_request :
    ∃ (s s' : System Unit LuaString Nat) (p : Pollers Unit Nat), Runs id unloadRun s ∧
      s.queues.get 0 = some p ∧ handedOut 0 unloadRun = [.request 7, .finish] ∧
      Step id s (.queue 0 (.free ())) s' ∧ p.tq.queue = [] ∧
      (history 0 (unloadRun ++ [.queue 0 (.free ())])).countP Event.isFree ≤ 1 := by
  obtain ⟨s, s', p, p', H, hp, hfree, hp'⟩ := unloadRun_runs
  exact ⟨s, s', p, H, hp, rfl, hfree, (Runs.graceful_unload H hp).2.1 () s' hfree,
    (Runs.graceful_unload (H.snoc hfree) hp').2.2⟩

end System
end RestyFfi
