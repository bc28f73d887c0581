import RestyFfi.Base.Placement
import RestyFfi.Worker.Basic

/-!
# Ownership of tasks and buffers

Every live task stands in exactly one list, and every live buffer is the request or the response of
exactly one live task (`Owned`). A task is freed with its buffers, when its post is rejected or when
it is handled, whatever happens to the coroutine that waits for it.
-/

namespace RestyFfi
open Transition

namespace System
variable {Th Lib α : Type} [DecidableEq Th] {resolve : LuaString → Lib} {s s' : System Th Lib α}
  {e : SysEvent Th Lib α}

/-- A post changes the queued requests of its own queue only, and only if it is accepted. -/
theorem Step.queued_post {o q : Nat} {name : Option FieldName} {a : α} {rc : Rc}
    (h : Step resolve s (.call o name (some (q, .post (.request a) rc))) s') (q' : Nat) :
    s'.queued q' = s.queued q' ++ if q' = q ∧ rc = .ok then [a] else [] := by
  have hq := h.queued_eq q'
  by_cases hqq : q = q'
  · subst hqq
    cases rc <;> simpa [SysEvent.onQueue, Event.taken, Event.accepted] using hq
  · simpa [SysEvent.onQueue, hqq, Ne.symm hqq] using hq

/-- Apart from that the queued requests change when a poll takes one. -/
theorem Step.queued_polled (h : Step resolve s e s') (he : e.isRequest = false) :
    match e.polled with
    | none => ∀ q, s'.queued q = s.queued q
    | some (q, a) => s.queued q = a :: s'.queued q ∧ ∀ q', q' ≠ q → s'.queued q' = s.queued q' := by
  have key : ∀ q, _ := h.queued_eq
  cases h with
  | load | idle | collect => intro q; simpa [SysEvent.onQueue] using key q
  | post => cases he
  | @finish o name L q p rc p' =>
    intro q'
    by_cases hqq : q = q'
    · cases rc <;>
        simpa [SysEvent.onQueue, hqq, Event.taken, Event.accepted, List.filterMap_cons] using key q'
    · simpa [SysEvent.onQueue, hqq] using key q'
  | @poll q p ev p' hp hev hs =>
    have other : ∀ q', q' ≠ q → s.queued q' = queued ⟨s.lua, s.queues.modify q fun _ => p'⟩ q' := by
      intro q' hqq
      simpa [SysEvent.onQueue, Ne.symm hqq] using (key q').symm
    have self := key q
    cases ev with
    | post => cases hev
    | take th task =>
      cases task with
      | request a =>
        exact ⟨by simpa [SysEvent.onQueue, Event.taken, Event.accepted] using self.symm,
          fun q' h => (other q' h).symm⟩
      | finish =>
        intro q'
        by_cases hqq : q' = q
        · subst hqq
          simpa [SysEvent.onQueue, Event.taken, Event.accepted, List.filterMap_cons] using self
        · exact (other q' hqq).symm
    | _ =>
      intro q'
      by_cases hqq : q' = q
      · subst hqq; simpa [SysEvent.onQueue, Event.taken, Event.accepted] using self
      · exact (other q' hqq).symm

end System

/-- The lists a task can stand in. -/
inductive Place where
  | queue (q : Nat)
  | held
  | done
  | drained
  deriving DecidableEq, Repr

/-- The buffer pointers of a task. -/
inductive Field where
  | req
  | rsp
  deriving DecidableEq, Repr

def FfiTaskCtx.field (t : FfiTaskCtx Co) : Field → Option Nat
  | .req => t.req
  | .rsp => t.rsp

@[simp] theorem FfiTaskCtx.field_req (t : FfiTaskCtx Co) : t.field .req = t.req := rfl
@[simp] theorem FfiTaskCtx.field_rsp (t : FfiTaskCtx Co) : t.field .rsp = t.rsp := rfl

namespace Worker
variable {Th Lib Co : Type}

def items (w : Worker Th Lib Co) : Place → List Nat
  | .queue q => w.sys.queued q
  | .held => w.held
  | .done => w.done
  | .drained => w.drained

/-- The buffers of the task at an address, by field. -/
def buffers (T : BlockHeap (FfiTaskCtx Co)) (x : Nat × Field) : List Nat :=
  match T.cells x.1 with
  | none => []
  | some (_, t) => (t.field x.2).toList

/-- The ownership invariant. -/
structure Owned (w : Worker Th Lib Co) : Prop where
  tasks : Placement w.items fun a => (w.tasks.cells a).isSome
  bufs : Placement (buffers w.tasks) fun p => (w.bufs.cells p).isSome
  /-- A task that nobody has responded to has no response. -/
  unanswered : ∀ {p a i t}, p ≠ .done → p ≠ .drained → a ∈ w.items p →
    w.tasks.cells a = some (i, t) → t.rsp = none
  taskFrees : w.tasks.invalidFrees = 0
  bufFrees : w.bufs.invalidFrees = 0

/-! ## Buffers -/

section
variable {T T' : BlockHeap (FfiTaskCtx Co)} {h B : BlockHeap Bytes} {a b i : Nat} {t : FfiTaskCtx Co}
  {f : Field} {d : Option Bytes} {r : Option Nat}

theorem buffers_of_cells (ht : T.cells a = some (i, t)) : buffers T (a, f) = (t.field f).toList := by
  simp [buffers, ht]

theorem buffers_of_none (ht : T.cells a = none) : buffers T (a, f) = [] := by
  simp [buffers, ht]

theorem buffers_congr (h : T'.cells a = T.cells a) : buffers T' (a, f) = buffers T (a, f) := by
  simp [buffers, h]

theorem NewBuffer.isSome_iff (H : NewBuffer h d r B) (p : Nat) :
    (B.cells p).isSome ↔ (h.cells p).isSome ∨ p ∈ r.toList := by
  cases H with
  | null => simp
  | block hp => rw [BlockHeap.alloc_isSome_iff hp, Option.toList_some, List.mem_singleton]

theorem NewBuffer.not_live (H : NewBuffer h d r B) : ∀ p ∈ r.toList, ¬ (h.cells p).isSome := by
  cases H with
  | null => simp
  | block hp => simp [hp]

theorem NewBuffer.cells_of_some {c : Nat × Bytes} (H : NewBuffer h d r B)
    (hc : h.cells p = some c) : B.cells p = some c := by
  cases H with
  | null => exact hc
  | block hp => exact BlockHeap.alloc_cells_of_some hp hc

theorem NewBuffer.freed (H : NewBuffer h d r B) : B.freed = h.freed := by cases H <;> rfl

theorem NewBuffer.invalidFrees (H : NewBuffer h d r B) : B.invalidFrees = h.invalidFrees := by
  cases H <;> rfl

theorem NewBuffer.freeOpt_isSome_iff (H : NewBuffer h d r B) (p : Nat) :
    ((B.freeOpt r).cells p).isSome ↔ (h.cells p).isSome := by
  cases H with
  | null => rfl
  | @block p' d hp =>
    by_cases hpp : p = p'
    · subst hpp; simp [BlockHeap.freeOpt, BlockHeap.free_cells, hp]
    · simp [BlockHeap.freeOpt, BlockHeap.free_cells, BlockHeap.alloc_cells_of_ne hp hpp, hpp]

theorem buffers_free (P : Placement (buffers T) fun p => (h.cells p).isSome)
    (ht : T.cells a = some (i, t)) :
    Placement (buffers (T.free a)) fun p => (((h.freeOpt t.req).freeOpt t.rsp).cells p).isSome := by
  have hgone : ∀ f, buffers (T.free a) (a, f) = [] :=
    fun f => buffers_of_none (by simp [BlockHeap.free_cells])
  have hrest : ∀ {x : Nat × Field}, x.1 ≠ a → buffers (T.free a) x = buffers T x :=
    fun hx => buffers_congr (by simp [BlockHeap.free_cells, hx])
  have P₁ : Placement (Function.update (buffers T) (a, .req) [])
      fun p => ((h.freeOpt t.req).cells p).isSome := by
    refine P.shrink (p := (a, .req)) (l := t.req.toList) ?_ (fun x hx => Function.update_of_ne hx ..)
      fun p => BlockHeap.freeOpt_isSome_iff
    rw [buffers_of_cells ht, Function.update_self, List.append_nil]
    rfl
  refine P₁.shrink (p := (a, .rsp)) (l := t.rsp.toList) ?_ (fun x hx => ?_)
    fun p => BlockHeap.freeOpt_isSome_iff
  · rw [Function.update_of_ne (by simp), buffers_of_cells ht, hgone, List.append_nil]
    rfl
  · obtain ⟨b, f⟩ := x
    by_cases hb : b = a
    · subst hb
      cases f with
      | req => rw [hgone, Function.update_self]
      | rsp => exact (hx rfl).elim
    · rw [hrest hb, Function.update_of_ne (by simp [hb])]

theorem free_buffers_invalidFrees (P : Placement (buffers T) fun p => (h.cells p).isSome)
    (ht : T.cells a = some (i, t)) :
    ((h.freeOpt t.req).freeOpt t.rsp).invalidFrees = h.invalidFrees := by
  have hmem : ∀ {f p}, p ∈ t.field f → p ∈ buffers T (a, f) := by
    intro f p hp
    rw [buffers_of_cells ht, Option.mem_toList]
    exact hp
  rw [BlockHeap.freeOpt_invalidFrees, BlockHeap.freeOpt_invalidFrees]
  · exact fun p hp => P.live_of_mem (hmem (f := .req) hp)
  · intro p hp
    have hp := hmem (f := .rsp) hp
    refine BlockHeap.freeOpt_isSome_iff.mpr ⟨P.live_of_mem hp, fun hreq => ?_⟩
    have := P.unique hp (hmem (f := .req) (Option.mem_toList.mp hreq))
    simp at this

end

/-! ## The steps -/

variable [DecidableEq Th] {resolve : LuaString → Lib} {w w' : Worker Th Lib Co}
  {e : WorkerEvent Th Lib Co} {ls : List (WorkerEvent Th Lib Co)}

theorem Owned.accepted {c : Co} {req : Option Bytes} {r : Option Nat} {B : BlockHeap Bytes}
    {a q o : Nat} {name : Option FieldName} {t : FfiTaskCtx Co} {S : System Th Lib Nat}
    {f : Co → CoCtx} (I : w.Owned) (hbuf : NewBuffer w.bufs (reqBuffer req) r B)
    (ha : w.tasks.cells a = none)
    (ht : t = { waitCoCtx := c, req := r, reqLen := reqLength req })
    (hs : System.Step resolve w.sys (.call o name (some (q, .post (.request a) .ok))) S) :
    Owned { w with sys := S, tasks := w.tasks.alloc a t ha, bufs := B, co := f } := by
  have hq : ∀ q', S.queued q' = w.sys.queued q' ++ if q' = q then [a] else [] := by
    simpa using hs.queued_post
  refine ⟨?_, ?_, fun {p b i t'} hd hdr hb hcell => ?_, I.taskFrees, ?_⟩
  · refine I.tasks.grow (p := .queue q) (l := [a]) (by simp) (by simp [ha]) ?_ ?_ fun b => ?_
    · change (S.queued q).Perm _
      rw [hq, if_pos rfl]
      exact List.perm_append_comm
    · rintro (q' | _ | _ | _) hne
      · change S.queued q' = _
        rw [hq, if_neg (by simpa using hne), List.append_nil]
        rfl
      all_goals rfl
    · rw [BlockHeap.alloc_isSome_iff, List.mem_singleton]
  · refine I.bufs.grow (p := (a, .req)) (l := r.toList) ?_ hbuf.not_live ?_ ?_ hbuf.isSome_iff
    · cases r <;> simp
    · rw [buffers_of_cells (BlockHeap.alloc_cells_self ha), buffers_of_none ha, ht, List.append_nil]
      rfl
    · rintro ⟨b, f⟩ hne
      by_cases hb : b = a
      · subst hb
        cases f with
        | req => exact (hne rfl).elim
        | rsp => rw [buffers_of_cells (BlockHeap.alloc_cells_self ha), buffers_of_none ha, ht]; rfl
      · exact buffers_congr (BlockHeap.alloc_cells_of_ne ha hb)
  · rcases BlockHeap.alloc_cells_eq_some ha hcell with ⟨_, _, rfl⟩ | ⟨hne, hcell⟩
    · rw [ht]
    · refine I.unanswered hd hdr ?_ hcell
      cases p with
      | queue q' =>
        change b ∈ S.queued q' at hb
        rw [hq, List.mem_append] at hb
        refine hb.resolve_right fun h => ?_
        split at h
        · exact hne (by simpa using h)
        · cases h
      | _ => exact hb
  · exact hbuf.invalidFrees.trans I.bufFrees

theorem Owned.rejected {d : Option Bytes} {r : Option Nat} {B : BlockHeap Bytes} {a q o : Nat}
    {name : Option FieldName} {t : FfiTaskCtx Co} {S : System Th Lib Nat} {f : Co → CoCtx}
    (I : w.Owned) (hbuf : NewBuffer w.bufs d r B) (ha : w.tasks.cells a = none)
    (hs : System.Step resolve w.sys (.call o name (some (q, .post (.request a) .error))) S) :
    Owned { w with
      sys := S, tasks := (w.tasks.alloc a t ha).free a, bufs := B.freeOpt r, co := f } := by
  have hcells : ((w.tasks.alloc a t ha).free a).cells = w.tasks.cells := by
    funext b
    by_cases hb : b = a
    · subst hb; simp [BlockHeap.free_cells, ha]
    · simp [BlockHeap.free_cells, hb, BlockHeap.alloc_cells_of_ne ha hb]
  have hitems : ∀ p, items { w with
      sys := S, tasks := (w.tasks.alloc a t ha).free a, bufs := B.freeOpt r, co := f } p =
      w.items p := by
    rintro (q' | _ | _ | _)
    · simpa [items] using hs.queued_post q'
    all_goals rfl
  refine ⟨I.tasks.congr hitems fun b => by rw [hcells], I.bufs.congr (fun x => ?_)
    hbuf.freeOpt_isSome_iff, fun hd hdr hb hcell => ?_, ?_, ?_⟩
  · exact buffers_congr (congrFun hcells x.1)
  · rw [hitems] at hb
    exact I.unanswered hd hdr hb (by rwa [← hcells])
  · exact (BlockHeap.free_invalidFrees (by simp)).trans I.taskFrees
  · rw [BlockHeap.freeOpt_invalidFrees, hbuf.invalidFrees, I.bufFrees]
    exact fun p hp => (hbuf.isSome_iff p).mpr (.inr (Option.mem_toList.mpr hp))

theorem Owned.sys {se : SysEvent Th Lib Nat} {S : System Th Lib Nat} (I : w.Owned)
    (hs : System.Step resolve w.sys se S) (he : se.isRequest = false) :
    Owned { w with sys := S, held := w.held ++ (se.polled.map (·.2)).toList } := by
  have hq := hs.queued_polled he
  cases hp : se.polled with
  | none =>
    simp only [hp] at hq
    have hitems : ∀ p, items { w with sys := S, held := w.held ++ [] } p = w.items p := by
      rintro (q | _ | _ | _)
      · exact hq q
      · simp [items]
      all_goals rfl
    refine ⟨I.tasks.congr hitems fun _ => .rfl, I.bufs, fun hd hdr hb => ?_, I.taskFrees,
      I.bufFrees⟩
    rw [Option.map_none, Option.toList_none, hitems] at hb
    exact I.unanswered hd hdr hb
  | some x =>
    obtain ⟨q, a⟩ := x
    simp only [hp] at hq
    obtain ⟨hq, hother⟩ := hq
    refine ⟨?_, I.bufs, fun {p b i t} hd hdr hb hcell => ?_, I.taskFrees, I.bufFrees⟩
    · refine I.tasks.move (p := .queue q) (l := [a]) (r := .held) (by simp) ?_ ?_ ?_ fun _ => .rfl
      · change (w.sys.queued q).Perm ([a] ++ S.queued q)
        rw [hq]; rfl
      · exact List.perm_append_comm
      · rintro (q' | _ | _ | _) hne hne'
        · exact hother q' (by simpa using hne)
        · exact (hne' rfl).elim
        all_goals rfl
    · -- the task was queued or held before
      have hold : ∃ p', p' ≠ .done ∧ p' ≠ .drained ∧ b ∈ w.items p' := by
        cases p with
        | queue q' =>
          refine ⟨.queue q', by simp, by simp, ?_⟩
          by_cases hqq : q' = q
          · subst hqq
            change b ∈ w.sys.queued q'
            rw [hq]
            exact List.mem_cons_of_mem _ hb
          · change b ∈ S.queued q' at hb
            rwa [hother q' hqq] at hb
        | held =>
          rcases List.mem_append.mp hb with hb | hb
          · exact ⟨.held, by simp, by simp, hb⟩
          · refine ⟨.queue q, by simp, by simp, ?_⟩
            change b ∈ w.sys.queued q
            rw [hq, List.mem_cons]
            exact .inl (by simpa using hb)
        | done => exact (hd rfl).elim
        | drained => exact (hdr rfl).elim
      obtain ⟨p', hd', hdr', hb'⟩ := hold
      exact I.unanswered hd' hdr' hb' hcell

omit [DecidableEq Th] in
theorem Owned.respond {a i : Nat} {t : FfiTaskCtx Co} {rsp : Option Bytes} {r : Option Nat}
    {B : BlockHeap Bytes} {rc len : Int} (I : w.Owned) (ha : a ∈ w.held)
    (ht : w.tasks.cells a = some (i, t)) (hbuf : NewBuffer w.bufs rsp r B) :
    Owned { w with
      tasks := w.tasks.modify a (.respond rc r len)
      bufs := B
      held := w.held.erase a
      done := w.done ++ [a] } := by
  have hself := BlockHeap.modify_cells_of_live (f := .respond rc r len) ht
  have hmove : Placement
      (items { w with
        tasks := w.tasks.modify a (.respond rc r len)
        bufs := B
        held := w.held.erase a
        done := w.done ++ [a] })
      fun b => ((w.tasks.modify a (.respond rc r len)).cells b).isSome := by
    refine I.tasks.move (p := .held) (l := [a]) (r := .done) (by simp) (List.perm_cons_erase ha)
      List.perm_append_comm ?_ fun b => by rw [BlockHeap.modify_cells_isSome]
    rintro (q | _ | _ | _) hne hne'
    · rfl
    · exact (hne rfl).elim
    · exact (hne' rfl).elim
    · rfl
  refine ⟨hmove, ?_, fun {p b j u} hd hdr hb hcell => ?_, I.taskFrees,
    hbuf.invalidFrees.trans I.bufFrees⟩
  · refine I.bufs.grow (p := (a, .rsp)) (l := r.toList) ?_ hbuf.not_live ?_ ?_ hbuf.isSome_iff
    · cases r <;> simp
    · have hnone := I.unanswered (p := .held) (by simp) (by simp) ha ht
      rw [buffers_of_cells hself, buffers_of_cells ht, FfiTaskCtx.field_rsp, FfiTaskCtx.field_rsp,
        hnone, Option.toList_none, List.append_nil]
      rfl
    · rintro ⟨b, f⟩ hne
      by_cases hb : b = a
      · subst hb
        cases f with
        | req => rw [buffers_of_cells hself, buffers_of_cells ht]; rfl
        | rsp => exact (hne rfl).elim
      · exact buffers_congr (BlockHeap.modify_cells_of_ne hb)
  · -- `a` itself is done now
    have hne : b ≠ a := by
      rintro rfl
      exact hd (hmove.unique hb (r := .done) (List.mem_append_right _ (.head _)))
    rw [BlockHeap.modify_cells_of_ne hne] at hcell
    refine I.unanswered hd hdr ?_ hcell
    cases p with
    | held => exact List.mem_of_mem_erase hb
    | done => exact (hd rfl).elim
    | _ => exact hb

omit [DecidableEq Th] in
theorem Owned.drain (I : w.Owned) (hd : w.drained = []) :
    Owned { w with done := [], drained := w.done } := by
  refine ⟨?_, I.bufs, fun {p b i t} h h' hb hcell => ?_, I.taskFrees, I.bufFrees⟩
  · refine I.tasks.move (p := .done) (l := w.done) (r := .drained) (by simp) ?_ ?_ ?_ fun _ => .rfl
    · change w.done.Perm (w.done ++ [])
      rw [List.append_nil]
    · change w.done.Perm (w.done ++ w.drained)
      rw [hd, List.append_nil]
    · rintro (q | _ | _ | _) hne hne'
      · rfl
      · rfl
      · exact (hne rfl).elim
      · exact (hne' rfl).elim
  · refine I.unanswered h h' ?_ hcell
    cases p with
    | done => exact (h rfl).elim
    | drained => exact (h' rfl).elim
    | _ => exact hb

omit [DecidableEq Th] in
/-- Handling a task frees it, whatever becomes of the coroutine. -/
theorem Owned.free {a i : Nat} {rest : List Nat} {t : FfiTaskCtx Co} {f : Co → CoCtx}
    (I : w.Owned) (hd : w.drained = a :: rest) (ht : w.tasks.cells a = some (i, t)) :
    Owned { w with
      drained := rest
      tasks := w.tasks.free a
      bufs := (w.bufs.freeOpt t.req).freeOpt t.rsp
      co := f } := by
  refine ⟨?_, buffers_free I.bufs ht, fun {p b j u} h h' hb hcell => ?_, ?_, ?_⟩
  · refine I.tasks.shrink (p := .drained) (l := [a]) ?_ ?_ fun b => ?_
    · change w.drained.Perm ([a] ++ rest)
      rw [hd]; rfl
    · rintro (q | _ | _ | _) hne
      · rfl
      · rfl
      · rfl
      · exact (hne rfl).elim
    · rw [BlockHeap.free_isSome_iff, List.mem_singleton]
  · refine I.unanswered h h' ?_ (BlockHeap.free_cells_eq_some.mp hcell).2
    cases p with
    | drained => exact (h' rfl).elim
    | _ => exact hb
  · exact (BlockHeap.free_invalidFrees (by simp [ht])).trans I.taskFrees
  · exact (free_buffers_invalidFrees I.bufs ht).trans I.bufFrees

omit [DecidableEq Th] in
theorem Owned.cleaned {a : Nat} {f : Co → CoCtx} (I : w.Owned) :
    Owned { w with tasks := w.tasks.modify a .setAbort, co := f } := by
  refine ⟨I.tasks.congr (fun p => by cases p <;> rfl) fun b => by rw [BlockHeap.modify_cells_isSome],
    I.bufs.congr (fun x => ?_) fun _ => .rfl, fun h h' hb hcell => ?_, I.taskFrees, I.bufFrees⟩
  · obtain ⟨b, fd⟩ := x
    by_cases hb : b = a
    · subst hb
      cases hc : w.tasks.cells b with
      | none => rw [buffers_of_none hc, buffers_of_none (by simp [BlockHeap.modify_cells_self, hc])]
      | some c =>
        rw [buffers_of_cells hc, buffers_of_cells (BlockHeap.modify_cells_of_live hc)]
        cases fd <;> rfl
    · exact buffers_congr (BlockHeap.modify_cells_of_ne hb)
  · rcases BlockHeap.modify_cells_eq_some hcell with ⟨rfl, u, hu, rfl⟩ | ⟨_, hu⟩
    · exact (I.unanswered h h' hb hu : u.rsp = none)
    · exact I.unanswered h h' hb hu

variable [DecidableEq Co]

theorem Move.owned (I : w.Owned) (h : Move resolve w e w') : w'.Owned := by
  cases h with
  | accepted _ hbuf ha ht hs => exact I.accepted hbuf ha ht hs
  | rejected _ hbuf ha hs => exact I.rejected hbuf ha hs
  | sys hs he => exact I.sys hs he
  | respond ha ht hbuf => exact I.respond ha ht hbuf
  | drain hd => exact I.drain hd
  | failed hd ht => exact I.free hd ht
  | resumed hd ht => exact I.free hd ht
  | cleaned => exact I.cleaned
  | quiet => exact ⟨I.tasks, I.bufs, I.unanswered, I.taskFrees, I.bufFrees⟩

omit [DecidableEq Th] [DecidableEq Co] in
theorem Owned.init : (init : Worker Th Lib Co).Owned where
  tasks := .empty (fun p => by cases p <;> rfl) fun _ h => nomatch h
  bufs := .empty (fun _ => rfl) fun _ h => nomatch h
  unanswered _ _ _ h := nomatch h
  taskFrees := rfl
  bufFrees := rfl

theorem Runs.owned (H : Runs resolve ls w) : w.Owned := by
  induction H with
  | nil => exact .init
  | snoc _ h ih => exact h.move.owned ih

end Worker
end RestyFfi
