import RestyFfi.Worker.Ownership

/-!
# Tasks and their history

What the history of a worker says about its heap: a task carries the request it was posted with and
the response it was given until it is freed, and its buffers are freed with it.
-/

namespace RestyFfi
open Transition

/-- The task that an event frees. -/
def WorkerEvent.freed : WorkerEvent Th Lib Co → Option Nat
  | .post _ _ _ i _ _ .error => some i
  | .handle i _ _ => some i
  | _ => none

theorem WorkerEvent.freed_of_isCo {e : WorkerEvent Th Lib Co} (h : e.isCo = true) :
    e.freed = none := by
  cases e <;> first | rfl | cases h

namespace Worker
variable {Th Lib Co : Type} {w w' : Worker Th Lib Co} {e : WorkerEvent Th Lib Co}
  {ls : List (WorkerEvent Th Lib Co)}

/-- A buffer pointer and the block it points to, with its stamp. -/
inductive Points (h : BlockHeap Bytes) : Option Nat → Option (Nat × Bytes) → Prop where
  | null : Points h none none
  | block : h.cells p = some (j, d) → Points h (some p) (some (j, d))

section
variable {h B : BlockHeap Bytes} {r r' : Option Nat} {x : Option (Nat × Bytes)} {d : Option Bytes}

theorem NewBuffer.points (H : NewBuffer h d r B) : Points B r (d.map (h.next, ·)) := by
  cases H with
  | null => exact .null
  | block hp => exact .block (BlockHeap.alloc_cells_self hp)

theorem Points.newBuffer (P : Points h r x) (H : NewBuffer h d r' B) : Points B r x := by
  cases P with
  | null => exact .null
  | block hp => exact .block (H.cells_of_some hp)

theorem Points.freeOpt (P : Points h r x) (hr : ∀ p ∈ r, p ∉ r') : Points (h.freeOpt r') r x := by
  cases P with
  | null => exact .null
  | block hp => exact .block (BlockHeap.freeOpt_cells_eq_some.mpr ⟨hr _ rfl, hp⟩)

theorem Points.read (P : Points h r x) : r.bind (FfiTaskCtx.read h) = x.map (·.2) := by
  cases P with
  | null => rfl
  | block hp => simp [FfiTaskCtx.read, hp]

end

/-- The task `i` of the coroutine `c` carries the request `req` in the buffer `j`, or both are
freed. -/
def Posted (w : Worker Th Lib Co) (c : Co) (i : Nat) (req : Option Bytes) (j : Nat) : Prop :=
  (i ∈ w.tasks.freed ∧ (req.isSome → j ∈ w.bufs.freed)) ∨
    ∃ a t, w.tasks.cells a = some (i, t) ∧ t.waitCoCtx = c ∧
      t.reqLen = reqLength req ∧ Points w.bufs t.req ((reqBuffer req).map (j, ·))

/-- The task `i` carries the answer `rc`, `rsp`, `len`, with `rsp` in the buffer `j`, or both are
freed. -/
def Responded (w : Worker Th Lib Co) (i : Nat) (rc : Int) (rsp : Option Bytes) (j : Nat)
    (len : Int) : Prop :=
  (i ∈ w.tasks.freed ∧ (rsp.isSome → j ∈ w.bufs.freed)) ∨
    ∃ a t, w.tasks.cells a = some (i, t) ∧ (a ∈ w.done ∨ a ∈ w.drained) ∧ t.rc = rc ∧
      t.rspLen = len ∧ Points w.bufs t.rsp (rsp.map (j, ·))

/-- The history invariant. -/
structure History (ls : List (WorkerEvent Th Lib Co)) (w : Worker Th Lib Co) : Prop where
  posted : ∀ {c q env i req j rc}, .post c q env i req j rc ∈ ls → w.Posted c i req j
  responded : ∀ {i rc rsp j len}, .respond i rc rsp j len ∈ ls → w.Responded i rc rsp j len
  freed_eq : w.tasks.freed = (ls.filterMap WorkerEvent.freed).reverse
  live : ∀ {a i t}, w.tasks.cells a = some (i, t) →
    ∃ q env req j, .post t.waitCoCtx q env i req j .ok ∈ ls
  done : ∀ {a i t}, w.tasks.cells a = some (i, t) → a ∈ w.done ∨ a ∈ w.drained →
    ∃ rc rsp j len, .respond i rc rsp j len ∈ ls

/-! ## What a step does to the tasks that are there -/

/-- The task `t` at `a` is still there, as `t'`: with its coroutine and its request, and with its
answer if it had one. -/
structure Kept (w w' : Worker Th Lib Co) (a : Nat) (t t' : FfiTaskCtx Co) : Prop where
  waitCoCtx : t'.waitCoCtx = t.waitCoCtx
  isAbort : t.isAbort = true → t'.isAbort = true
  reqLen : t'.reqLen = t.reqLen
  req : ∀ {x}, Points w.bufs t.req x → Points w'.bufs t'.req x
  place : a ∈ w.done ∨ a ∈ w.drained → a ∈ w'.done ∨ a ∈ w'.drained
  answer : a ∈ w.done ∨ a ∈ w.drained → t'.rc = t.rc ∧ t'.rspLen = t.rspLen ∧ t'.rsp = t.rsp
  rsp : ∀ {x}, Points w.bufs t.rsp x → Points w'.bufs t.rsp x

theorem Kept.same {a : Nat} {t : FfiTaskCtx Co}
    (hb : ∀ {r x}, Points w.bufs r x → Points w'.bufs r x)
    (hp : a ∈ w.done ∨ a ∈ w.drained → a ∈ w'.done ∨ a ∈ w'.drained) : Kept w w' a t t :=
  ⟨rfl, id, rfl, hb, hp, fun _ => ⟨rfl, rfl, rfl⟩, hb⟩

theorem Owned.live_of_answered {a : Nat} (I : w.Owned) (h : a ∈ w.done ∨ a ∈ w.drained) :
    (w.tasks.cells a).isSome := by
  rcases h with h | h
  · exact I.tasks.live_of_mem (show a ∈ w.items .done from h)
  · exact I.tasks.live_of_mem (show a ∈ w.items .drained from h)

theorem Owned.points_free {a b i k : Nat} {t u : FfiTaskCtx Co} {f : Field}
    {x : Option (Nat × Bytes)} (I : w.Owned) (ht : w.tasks.cells a = some (i, t))
    (hu : w.tasks.cells b = some (k, u)) (hba : b ≠ a) (P : Points w.bufs (u.field f) x) :
    Points ((w.bufs.freeOpt t.req).freeOpt t.rsp) (u.field f) x := by
  have hne : ∀ g, ∀ p ∈ u.field f, p ∉ t.field g := by
    intro g p hp hp'
    have := I.bufs.unique (p := (b, f)) (r := (a, g)) (a := p)
      (by rw [buffers_of_cells hu]; exact Option.mem_toList.mpr hp)
      (by rw [buffers_of_cells ht]; exact Option.mem_toList.mpr hp')
    exact hba (congrArg Prod.fst this)
  exact (P.freeOpt (hne .req)).freeOpt (hne .rsp)

theorem Owned.freed_of_points {a i j : Nat} {d : Bytes} {t : FfiTaskCtx Co} {f : Field}
    (I : w.Owned) (ht : w.tasks.cells a = some (i, t))
    (P : Points w.bufs (t.field f) (some (j, d))) :
    j ∈ ((w.bufs.freeOpt t.req).freeOpt t.rsp).freed := by
  rw [BlockHeap.mem_freeOpt_freed]
  cases f with
  | req =>
    left
    cases hr : t.req with
    | none => rw [FfiTaskCtx.field_req, hr] at P; cases P
    | some p =>
      rw [FfiTaskCtx.field_req, hr] at P
      cases P with
      | block hp => exact BlockHeap.mem_freeOpt_freed.mpr (.inr ⟨p, d, rfl, hp⟩)
  | rsp =>
    right
    cases hr : t.rsp with
    | none => rw [FfiTaskCtx.field_rsp, hr] at P; cases P
    | some p =>
      rw [FfiTaskCtx.field_rsp, hr] at P
      cases P with
      | block hp =>
        refine ⟨p, d, rfl, BlockHeap.freeOpt_cells_eq_some.mpr ⟨fun hreq => ?_, hp⟩⟩
        have := I.bufs.unique (p := (a, .req)) (r := (a, .rsp)) (a := p)
          (by rw [buffers_of_cells ht]; simp [hreq]) (by rw [buffers_of_cells ht]; simp [hr])
        simp at this

variable [DecidableEq Th] [DecidableEq Co] {resolve : LuaString → Lib}

/-- A task that is there is kept, or freed with its buffers. -/
theorem Move.kept_or_freed {a i : Nat} {t : FfiTaskCtx Co} (I : w.Owned) (h : Move resolve w e w')
    (ht : w.tasks.cells a = some (i, t)) :
    (∃ t', w'.tasks.cells a = some (i, t') ∧ Kept w w' a t t') ∨
      (i ∈ w'.tasks.freed ∧
        ∀ f j d, Points w.bufs (t.field f) (some (j, d)) → j ∈ w'.bufs.freed) := by
  cases h with
  | accepted _ hbuf ha =>
    exact .inl ⟨t, BlockHeap.alloc_cells_of_some ha ht, .same (·.newBuffer hbuf) id⟩
  | @rejected c req r B b o name q S env u _ hbuf hb =>
    have hab : a ≠ b := by rintro rfl; rw [hb] at ht; cases ht
    refine .inl ⟨t, ?_, .same (fun P => ?_) id⟩
    · exact BlockHeap.free_cells_eq_some.mpr ⟨hab, BlockHeap.alloc_cells_of_some hb ht⟩
    · -- the buffer of the rejected post is a new one
      refine (P.newBuffer hbuf).freeOpt fun p hp hp' => ?_
      cases P with
      | null => cases hp
      | block hcell =>
        cases hp
        exact hbuf.not_live _ (Option.mem_toList.mpr hp') (by simp [hcell])
  | sys => exact .inl ⟨t, ht, .same id id⟩
  | @respond b k u rsp r B rc len hb hu hbuf =>
    by_cases hab : a = b
    · subst hab
      -- the task was held, so it had no answer yet
      have hnot : ¬ (a ∈ w.done ∨ a ∈ w.drained) := by
        rintro (h | h)
        · exact nomatch I.tasks.unique (p := .held) (r := .done) hb h
        · exact nomatch I.tasks.unique (p := .held) (r := .drained) hb h
      refine .inl ⟨t.respond rc r len, BlockHeap.modify_cells_of_live ht, rfl, id, rfl,
        (·.newBuffer hbuf), fun h => (hnot h).elim, fun h => (hnot h).elim, (·.newBuffer hbuf)⟩
    · refine .inl ⟨t, (BlockHeap.modify_cells_of_ne hab).trans ht, .same (·.newBuffer hbuf) ?_⟩
      rintro (h | h)
      · exact .inl (List.mem_append_left _ h)
      · exact .inr h
  | drain hd =>
    refine .inl ⟨t, ht, .same id ?_⟩
    rintro (h | h)
    · exact .inr h
    · rw [hd] at h; cases h
  | @failed b rest k u env hd hu | @resumed b rest k u env hd hu =>
    by_cases hab : a = b
    · subst hab
      rw [hu] at ht; cases ht
      exact .inr ⟨BlockHeap.mem_free_freed.mpr (.inr ⟨_, hu⟩), fun f j d P => I.freed_of_points hu P⟩
    · refine .inl ⟨t, BlockHeap.free_cells_eq_some.mpr ⟨hab, ht⟩, rfl, id, rfl,
        I.points_free (f := .req) hu ht hab, ?_, fun _ => ⟨rfl, rfl, rfl⟩,
        I.points_free (f := .rsp) hu ht hab⟩
      rintro (h | h)
      · exact .inl h
      · rw [hd, List.mem_cons] at h
        exact .inr (h.resolve_left hab)
  | @cleaned c x e =>
    by_cases hab : a = (w.co c).data
    · refine .inl ⟨t.setAbort, ?_, rfl, fun _ => rfl, rfl, id, id, fun _ => ⟨rfl, rfl, rfl⟩, id⟩
      exact hab ▸ BlockHeap.modify_cells_of_live (hab ▸ ht)
    · exact .inl ⟨t, (BlockHeap.modify_cells_of_ne hab).trans ht, .same id id⟩
  | quiet => exact .inl ⟨t, ht, .same id id⟩

theorem Move.freed_eq (h : Move resolve w e w') :
    w'.tasks.freed = e.freed.toList ++ w.tasks.freed := by
  cases h with
  | accepted | sys | respond | drain => rfl
  | rejected _ _ ha => exact BlockHeap.free_freed (BlockHeap.alloc_cells_self ha)
  | failed _ ht => exact BlockHeap.free_freed ht
  | resumed _ ht => exact BlockHeap.free_freed ht
  | cleaned _ _ _ he | quiet _ _ _ he => rw [WorkerEvent.freed_of_isCo he]; rfl

theorem Move.bufs_freed {j : Nat} (h : Move resolve w e w') (hj : j ∈ w.bufs.freed) :
    j ∈ w'.bufs.freed := by
  have mono : ∀ {h : BlockHeap Bytes} {r}, j ∈ h.freed → j ∈ (h.freeOpt r).freed :=
    fun hj => BlockHeap.mem_freeOpt_freed.mpr (.inl hj)
  cases h with
  | accepted _ hbuf | respond _ _ hbuf => exact hbuf.freed ▸ hj
  | rejected _ hbuf => exact mono (hbuf.freed ▸ hj)
  | failed | resumed => exact mono (mono hj)
  | sys | drain | cleaned | quiet => exact hj

/-- A task that is there was there before, or has just been posted. -/
theorem Move.live_before {a i : Nat} {t' : FfiTaskCtx Co} (h : Move resolve w e w')
    (ht : w'.tasks.cells a = some (i, t')) :
    (∃ t, w.tasks.cells a = some (i, t)) ∨
      w.tasks.cells a = none ∧ ∃ q env req j, e = .post t'.waitCoCtx q env i req j .ok := by
  cases h with
  | accepted _ hbuf ha hnew =>
    rcases BlockHeap.alloc_cells_eq_some ha ht with ⟨rfl, rfl, rfl⟩ | ⟨_, ht⟩
    · exact .inr ⟨ha, by rw [hnew]; exact ⟨_, _, _, _, rfl⟩⟩
    · exact .inl ⟨t', ht⟩
  | rejected _ _ ha =>
    obtain ⟨hne, ht⟩ := BlockHeap.free_cells_eq_some.mp ht
    exact .inl ⟨t', by rwa [BlockHeap.alloc_cells_of_ne ha hne] at ht⟩
  | respond | cleaned =>
    rcases BlockHeap.modify_cells_eq_some ht with ⟨rfl, t, ht, _⟩ | ⟨_, ht⟩
    · exact .inl ⟨t, ht⟩
    · exact .inl ⟨t', ht⟩
  | failed | resumed => exact .inl ⟨t', (BlockHeap.free_cells_eq_some.mp ht).2⟩
  | sys | drain | quiet => exact .inl ⟨t', ht⟩

/-- A task is answered already, or by this step. -/
theorem Move.answered_before {a i : Nat} {t : FfiTaskCtx Co} (h : Move resolve w e w')
    (ht : w.tasks.cells a = some (i, t)) (ha : a ∈ w'.done ∨ a ∈ w'.drained) :
    (a ∈ w.done ∨ a ∈ w.drained) ∨ ∃ rc rsp j len, e = .respond i rc rsp j len := by
  cases h with
  | @respond b k u rsp r B rc len hb hu =>
    rcases ha with ha | ha
    · rcases List.mem_append.mp ha with ha | ha
      · exact .inl (.inl ha)
      · cases List.mem_singleton.mp ha
        rw [hu] at ht; cases ht
        exact .inr ⟨rc, rsp, _, len, rfl⟩
    · exact .inl (.inr ha)
  | drain hd =>
    rcases ha with ha | ha
    · cases ha
    · exact .inl (.inl ha)
  | failed hd | resumed hd =>
    rcases ha with ha | ha
    · exact .inl (.inl ha)
    · exact .inl (.inr (hd ▸ List.mem_cons_of_mem _ ha))
  | accepted | rejected | sys | cleaned | quiet => exact .inl ha

/-! ## The history invariant holds -/

theorem Posted.move {c : Co} {i j : Nat} {req : Option Bytes} (I : w.Owned)
    (h : Move resolve w e w') (H : w.Posted c i req j) : w'.Posted c i req j := by
  rcases H with ⟨hi, hj⟩ | ⟨a, t, ht, hc, hlen, P⟩
  · exact .inl ⟨by rw [h.freed_eq]; exact List.mem_append_right _ hi, fun hr => h.bufs_freed (hj hr)⟩
  · rcases h.kept_or_freed I ht with ⟨t', ht', K⟩ | ⟨hi, hf⟩
    · exact .inr ⟨a, t', ht', K.waitCoCtx.trans hc, K.reqLen.trans hlen, K.req P⟩
    · refine .inl ⟨hi, fun hr => ?_⟩
      obtain ⟨d, rfl⟩ := Option.isSome_iff_exists.mp hr
      exact hf .req j _ P

theorem Responded.move {i j : Nat} {rc len : Int} {rsp : Option Bytes} (I : w.Owned)
    (h : Move resolve w e w') (H : w.Responded i rc rsp j len) : w'.Responded i rc rsp j len := by
  rcases H with ⟨hi, hj⟩ | ⟨a, t, ht, ha, hrc, hlen, P⟩
  · exact .inl ⟨by rw [h.freed_eq]; exact List.mem_append_right _ hi, fun hr => h.bufs_freed (hj hr)⟩
  · rcases h.kept_or_freed I ht with ⟨t', ht', K⟩ | ⟨hi, hf⟩
    · obtain ⟨hrc', hlen', hrsp'⟩ := K.answer ha
      exact .inr ⟨a, t', ht', K.place ha, hrc'.trans hrc, hlen'.trans hlen, hrsp' ▸ K.rsp P⟩
    · refine .inl ⟨hi, fun hr => ?_⟩
      obtain ⟨d, rfl⟩ := Option.isSome_iff_exists.mp hr
      exact hf .rsp j _ P

theorem Move.posted {c : Co} {q i j : Nat} {env : TaskQueue.PostEnv} {req : Option Bytes} {rc : Rc}
    (h : Move resolve w (.post c q env i req j rc) w') : w'.Posted c i req j := by
  cases h with
  | accepted _ hbuf ha ht =>
    exact .inr ⟨_, _, BlockHeap.alloc_cells_self ha, by rw [ht], by rw [ht],
      by rw [ht]; exact hbuf.points⟩
  | rejected _ hbuf ha =>
    refine .inl
      ⟨BlockHeap.mem_free_freed.mpr (.inr ⟨_, BlockHeap.alloc_cells_self ha⟩), fun hr => ?_⟩
    obtain ⟨d, rfl⟩ := Option.isSome_iff_exists.mp hr
    cases hbuf with
    | block hp =>
      exact BlockHeap.mem_freeOpt_freed.mpr (.inr ⟨_, _, rfl, BlockHeap.alloc_cells_self hp⟩)
  | cleaned _ _ _ he | quiet _ _ _ he => cases he

theorem Move.responded {i j : Nat} {rc len : Int} {rsp : Option Bytes}
    (h : Move resolve w (.respond i rc rsp j len) w') : w'.Responded i rc rsp j len := by
  cases h with
  | @respond a k t rsp r B _ _ _ ht hbuf =>
    exact .inr ⟨a, t.respond rc r len, BlockHeap.modify_cells_of_live ht,
      .inl (List.mem_append_right _ (.head _)), rfl, rfl, hbuf.points⟩
  | cleaned _ _ _ he | quiet _ _ _ he => cases he

theorem History.move (I : w.Owned) (H : History ls w) (h : Move resolve w e w') :
    History (ls ++ [e]) w' where
  posted hmem := by
    rcases List.mem_append.mp hmem with hmem | hmem
    · exact (H.posted hmem).move I h
    · cases List.mem_singleton.mp hmem
      exact h.posted
  responded hmem := by
    rcases List.mem_append.mp hmem with hmem | hmem
    · exact (H.responded hmem).move I h
    · cases List.mem_singleton.mp hmem
      exact h.responded
  freed_eq := by
    rw [h.freed_eq, H.freed_eq]
    cases he : e.freed <;> simp [he]
  live ht' := by
    rcases h.live_before ht' with ⟨t, ht⟩ | ⟨_, q, env, req, j, rfl⟩
    · rcases h.kept_or_freed I ht with ⟨t'', ht'', K⟩ | ⟨hi, _⟩
      · rw [ht'] at ht''; cases ht''
        obtain ⟨q, env, req, j, hmem⟩ := H.live ht
        exact ⟨q, env, req, j, List.mem_append_left _ (K.waitCoCtx ▸ hmem)⟩
      · exact (w'.tasks.live_not_freed ht' hi).elim
    · exact ⟨q, env, req, j, List.mem_append_right _ (.head _)⟩
  done {a i t'} ht' ha := by
    rcases h.live_before ht' with ⟨t, ht⟩ | ⟨hnone, q, env, req, j, rfl⟩
    · rcases h.answered_before ht ha with ha | ⟨rc, rsp, j, len, rfl⟩
      · obtain ⟨rc, rsp, j, len, hmem⟩ := H.done ht ha
        exact ⟨rc, rsp, j, len, List.mem_append_left _ hmem⟩
      · exact ⟨rc, rsp, j, len, List.mem_append_right _ (.head _)⟩
    · -- a task that has just been posted is in no list but its queue
      have hlive : (w.tasks.cells a).isSome := by
        cases h with
        | accepted => exact I.live_of_answered ha
        | cleaned _ _ _ he | quiet _ _ _ he => cases he
      rw [hnone] at hlive; cases hlive

theorem Runs.history (H : Runs resolve ls w) : History ls w := by
  induction H with
  | nil =>
    exact ⟨fun h => (nomatch h), fun h => (nomatch h), rfl, fun h => (nomatch h),
      fun h => (nomatch h)⟩
  | snoc H h ih => exact ih.move (Runs.owned H) h.move

/-! ## Ownership along every run -/

/-- Where the task `i` is: in a list, or freed. -/
def At (w : Worker Th Lib Co) (i : Nat) : Option Place → Prop
  | some p => ∃ a t, w.tasks.cells a = some (i, t) ∧ a ∈ w.items p
  | none => i ∈ w.tasks.freed

omit [DecidableEq Th] [DecidableEq Co] in
theorem Owned.existsUnique_at {i : Nat} (I : w.Owned) (hi : i < w.tasks.next) :
    ∃! p, w.At i p := by
  rcases w.tasks.live_or_freed hi with hf | ⟨a, t, ht⟩
  · refine ⟨none, hf, fun p hp => ?_⟩
    cases p with
    | none => rfl
    | some p =>
      obtain ⟨a, t, ht, _⟩ := hp
      exact (w.tasks.live_not_freed ht hf).elim
  · obtain ⟨p, hp, huniq⟩ := I.tasks.existsUnique (a := a) (by simp [ht])
    refine ⟨some p, ⟨a, t, ht, hp⟩, fun p' hp' => ?_⟩
    cases p' with
    | none => exact (w.tasks.live_not_freed ht hp').elim
    | some p' =>
      obtain ⟨b, u, hu, hb⟩ := hp'
      cases w.tasks.addr_unique ht hu
      rw [huniq p' hb]

/-- What ownership means for the tasks and buffers of a history. A task is named by its stamp, and
so is a buffer; `freed` lists the stamps of freed blocks, and a `free` of anything else would be an
invalid one. -/
structure OwnedOnce (ls : List (WorkerEvent Th Lib Co)) (w : Worker Th Lib Co) : Prop where
  /-- A task ever created is in exactly one place. -/
  place : ∀ {i}, i < w.tasks.next → ∃! p, w.At i p
  /-- In its list it stands once. -/
  nodup : ∀ p, (w.items p).Nodup
  /-- The lists hold live tasks only. -/
  live : ∀ {p a}, a ∈ w.items p → (w.tasks.cells a).isSome
  /-- Every post creates a task, and a rejected one leaves it freed. -/
  created : ∀ {c q env i req j rc}, .post c q env i req j rc ∈ ls →
    i < w.tasks.next ∧ (rc = .error → w.At i none)
  /-- The tasks freed are those rejected and those handled, each once. -/
  freed : w.tasks.freed = (ls.filterMap WorkerEvent.freed).reverse ∧ w.tasks.freed.Nodup ∧
    w.tasks.invalidFrees = 0
  /-- No buffer is freed twice. -/
  bufs : w.bufs.freed.Nodup ∧ w.bufs.invalidFrees = 0
  /-- A request buffer is freed with its task. -/
  req : ∀ {c q env i d j rc}, .post c q env i (some d) j rc ∈ ls →
    (j ∈ w.bufs.freed ↔ i ∈ w.tasks.freed)
  /-- A response buffer is freed with its task. -/
  rsp : ∀ {i rc d j len}, .respond i rc (some d) j len ∈ ls →
    (j ∈ w.bufs.freed ↔ i ∈ w.tasks.freed)

/-- **Task and buffer ownership**, in every reachable state. -/
theorem Runs.ownedOnce (H : Runs resolve ls w) : OwnedOnce ls w := by
  have I := H.owned
  have K := H.history
  have points : ∀ {r j d}, Points w.bufs r (some (j, d)) → j ∉ w.bufs.freed := by
    rintro r j d (_ | hp)
    exact w.bufs.live_not_freed hp
  refine ⟨I.existsUnique_at, I.tasks.nodup, I.tasks.live_of_mem, fun hmem => ⟨?_, ?_⟩,
    ⟨K.freed_eq, w.tasks.freed_nodup, I.taskFrees⟩, ⟨w.bufs.freed_nodup, I.bufFrees⟩,
    fun hmem => ?_, fun hmem => ?_⟩
  · rcases K.posted hmem with ⟨hi, _⟩ | ⟨a, t, ht, _⟩
    · exact w.tasks.freed_lt hi
    · exact w.tasks.lt_next ht
  · rintro rfl
    rw [At, K.freed_eq, List.mem_reverse]
    exact List.mem_filterMap.mpr ⟨_, hmem, rfl⟩
  · rcases K.posted hmem with ⟨hi, hj⟩ | ⟨a, t, ht, _, _, P⟩
    · exact iff_of_true (hj rfl) hi
    · exact iff_of_false (points P) (w.tasks.live_not_freed ht)
  · rcases K.responded hmem with ⟨hi, hj⟩ | ⟨a, t, ht, _, _, _, P⟩
    · exact iff_of_true (hj rfl) hi
    · exact iff_of_false (points P) (w.tasks.live_not_freed ht)

theorem ownedOnce_echoRun : ∃ w : Worker Unit LuaString Unit,
    Runs id echoRun w ∧ OwnedOnce echoRun w := by
  obtain ⟨w, H⟩ := echoRun_runs
  exact ⟨w, H, Runs.ownedOnce H⟩

end Worker
end RestyFfi
