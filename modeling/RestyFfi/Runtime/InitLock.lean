import RestyFfi.Base.Transition

/-!
# The lock of the Java loader

Threads call `libffi_init` of the Java loader at the same time, and `init_lock` is to keep all but
one of them out. A thread is cut into steps at each lock, each unlock and each outcome that decides
how the call returns. The five ways to return end in the macro `RET`, which unlocks. On the normal
way there is one more `pthread_mutex_unlock` before it, so that the unlock of `RET` is the second
one. An unlock makes the lock free, whoever holds it.
-/

namespace RestyFfi.InitLock
open Transition

/-- Where a thread stands with respect to `libffi_init`: not in a call, at `pthread_mutex_lock`, at
`vm == NULL`, at the options and `JNI_CreateJavaVM`, at `FindClass`, at `GetStaticMethodID`, at
`RET(1)`, at the `pthread_mutex_unlock` behind the call of the method, and at `RET(rc)` behind that.
-/
inductive Pc where
  | idle
  | locking
  | testing
  | creating
  | finding
  | resolving
  | failing
  | ending (rc : Int)
  | returning (rc : Int)
deriving DecidableEq

/-- Between the acquisition of the lock and its first release. -/
def Pc.inside : Pc → Bool
  | .testing | .creating | .finding | .resolving | .failing | .ending _ => true
  | .idle | .locking | .returning _ => false

/-- What happens to a thread that is inside. -/
inductive Outcome where
  | vmExists
  | noVm
  | asprintfFails
  | createFails
  | vmCreated
  | classNotFound
  | classFound
  | methodNotFound
  | invoked (rc : Int)

/-- What the thread does then, with `vm` before and after. -/
inductive Body : Bool → Pc → Outcome → Bool → Pc → Prop
  | vmExists : Body true .testing .vmExists true .finding
  | noVm : Body false .testing .noVm false .creating
  | asprintfFails : Body vm .creating .asprintfFails vm .failing
  | createFails : Body vm .creating .createFails vm .failing
  | vmCreated : Body vm .creating .vmCreated true .finding
  | classNotFound : Body vm .finding .classNotFound vm .failing
  | classFound : Body vm .finding .classFound vm .resolving
  | methodNotFound : Body vm .resolving .methodNotFound vm .failing
  | invoked (rc : Int) : Body vm .resolving (.invoked rc) vm (.ending rc)

/-- The steps of a thread; `unlockAgain` is the unlock of `RET` on the normal way. -/
inductive Event (Th : Type) where
  | call (th : Th)
  | lock (th : Th)
  | body (th : Th) (o : Outcome)
  | unlock (th : Th)
  | unlockAgain (th : Th)

structure State (Th : Type) where
  locked : Bool := false
  vm : Bool := false
  pc : Th → Pc := fun _ => .idle

section
variable {Th : Type} {s : State Th}

/-- At most one thread is inside. -/
def State.Exclusive (s : State Th) : Prop :=
  ∀ th th', (s.pc th).inside → (s.pc th').inside → th = th'

/-- A second unlock finds no thread inside. -/
def Undisturbed (s : State Th) (e : Event Th) : Prop :=
  ∀ th, e = .unlockAgain th → ∀ th', (s.pc th').inside = false

/-- The lock is taken exactly while a thread is inside, and this is one. -/
structure Inv (s : State Th) : Prop where
  locked : s.locked = true ↔ ∃ th, (s.pc th).inside
  exclusive : s.Exclusive

theorem inv_init : Inv ({} : State Th) where
  locked := by simp [Pc.inside]
  exclusive th th' h := by simp [Pc.inside] at h

theorem Inv.others {th : Th} (h : Inv s) (hin : (s.pc th).inside) :
    ∀ t, t ≠ th → (s.pc t).inside = false := by
  intro t hne
  by_contra ht
  exact hne (h.exclusive t th (by simpa using ht) hin)

end

variable {Th : Type} [DecidableEq Th]

inductive Step (s : State Th) : Event Th → State Th → Prop
  | call (th : Th) : s.pc th = .idle →
    Step s (.call th) { s with pc := Function.update s.pc th .locking }
  | lock (th : Th) : s.pc th = .locking → s.locked = false →
    Step s (.lock th) { s with locked := true, pc := Function.update s.pc th .testing }
  | body (th : Th) : Body s.vm (s.pc th) o vm pc →
    Step s (.body th o) { s with vm := vm, pc := Function.update s.pc th pc }
  | fail (th : Th) : s.pc th = .failing →
    Step s (.unlock th) { s with locked := false, pc := Function.update s.pc th .idle }
  | unlock (th : Th) : s.pc th = .ending rc →
    Step s (.unlock th) { s with locked := false, pc := Function.update s.pc th (.returning rc) }
  | unlockAgain (th : Th) : s.pc th = .returning rc →
    Step s (.unlockAgain th) { s with locked := false, pc := Function.update s.pc th .idle }

variable {s s' : State Th} {e : Event Th}

theorem Body.inside {vm vm' : Bool} {pc pc' : Pc} {o : Outcome} (h : Body vm pc o vm' pc') :
    pc.inside = true ∧ pc'.inside = true := by
  cases h <;> exact ⟨rfl, rfl⟩

theorem inside_update {pc : Th → Pc} {th t : Th} {p : Pc} :
    (Function.update pc th p t).inside = if t = th then p.inside else (pc t).inside := by
  rw [Function.update_apply]
  split_ifs <;> rfl

theorem Inv.move {th : Th} {p : Pc} {vm : Bool} (h : Inv s) (hp : p.inside = (s.pc th).inside) :
    Inv { s with vm := vm, pc := Function.update s.pc th p } := by
  have hside : ∀ t, (Function.update s.pc th p t).inside = (s.pc t).inside := by
    intro t
    rw [inside_update]
    split_ifs with ht
    · rw [ht, hp]
    · rfl
  constructor
  · simp only [hside]
    exact h.locked
  · intro t t'
    simp only [hside]
    exact h.exclusive t t'

/-- A release leaves the lock free if no other thread is inside. -/
theorem Inv.release {th : Th} {p : Pc} (hp : p.inside = false)
    (hother : ∀ t, t ≠ th → (s.pc t).inside = false) :
    Inv { s with locked := false, pc := Function.update s.pc th p } := by
  have hnone : ∀ t, (Function.update s.pc th p t).inside = false := by
    intro t
    rw [inside_update]
    split_ifs with ht
    · exact hp
    · exact hother t ht
  exact ⟨by simp [hnone], fun t t' ht => by simp [hnone] at ht⟩

theorem Inv.acquire {th : Th} (h : Inv s) (hfree : s.locked = false) :
    Inv { s with locked := true, pc := Function.update s.pc th .testing } := by
  have hnone : ∀ t, (s.pc t).inside = false := by
    intro t
    by_contra ht
    have := h.locked.mpr ⟨t, by simpa using ht⟩
    simp [hfree] at this
  have hin : ∀ t, (Function.update s.pc th .testing t).inside = true ↔ t = th := by
    intro t
    rw [inside_update]
    split_ifs with ht
    · exact iff_of_true rfl ht
    · exact iff_of_false (by simp [hnone]) ht
  constructor
  · simp [hin]
  · intro t t' ht ht'
    rw [(hin t).mp ht, (hin t').mp ht']

theorem Step.inv (h : Inv s) (hstep : Step s e s') (hu : Undisturbed s e) : Inv s' := by
  cases hstep with
  | call th hpc => exact h.move (by rw [hpc]; rfl)
  | lock th hpc hfree => exact h.acquire hfree
  | body th hb => exact h.move (by rw [hb.inside.1, hb.inside.2])
  | fail th hpc => exact .release rfl (h.others (by rw [hpc]; rfl))
  | unlock th hpc => exact .release rfl (h.others (by rw [hpc]; rfl))
  | unlockAgain th hpc => exact .release rfl fun t _ => hu th rfl t

def UndisturbedStep (s : State Th) (e : Event Th) (s' : State Th) : Prop :=
  Step s e s' ∧ Undisturbed s e

theorem Inv.of_run {es : List (Event Th)} (H : Run UndisturbedStep {} es s) : Inv s :=
  H.invariant (P := fun _ => Inv) inv_init fun _ h hstep => hstep.1.inv h hstep.2

/-- While no second unlock meets a thread inside, the lock excludes, and it is free when all calls
have returned. -/
theorem exclusive_of_undisturbed {es : List (Event Th)} (H : Run UndisturbedStep {} es s) :
    s.Exclusive ∧ ((∀ th, s.pc th = .idle) → s.locked = false) := by
  have h := Inv.of_run H
  refine ⟨h.exclusive, fun hidle => ?_⟩
  by_contra hlocked
  obtain ⟨th, hin⟩ := h.locked.mp (by simpa using hlocked)
  rw [hidle th] at hin
  cases hin

/-- A second unlock that meets a thread inside lets the next one in to it. -/
theorem not_exclusive_of_disturbed {rc : Int} {th t u : Th} (hth : s.pc th = .returning rc)
    (hin : (s.pc t).inside) (hu : s.pc u = .locking) :
    ∃ s', Run Step s [.unlockAgain th, .lock u] s' ∧ ¬ s'.Exclusive := by
  have htu : t ≠ u := by
    rintro rfl
    simp [hu, Pc.inside] at hin
  have hth_t : t ≠ th := by
    rintro rfl
    simp [hth, Pc.inside] at hin
  have hth_u : u ≠ th := by
    rintro rfl
    simp [hu] at hth
  have H := (Run.single (Step.unlockAgain th hth)).snoc (.lock u (by simp [hth_u, hu]) rfl)
  refine ⟨_, H, fun h => htu (h t u ?_ ?_)⟩
  · simpa [htu, hth_t] using hin
  · simp [Pc.inside]

theorem Step.undisturbed (h : Step s e s') (he : ∀ th, e ≠ .unlockAgain th) :
    UndisturbedStep s e s' :=
  ⟨h, fun th hth => absurd hth (he th)⟩

def alone (th : Th) (locked vm : Bool) (p : Pc) : State Th :=
  ⟨locked, vm, Function.update (fun _ => .idle) th p⟩

theorem alone_update {th : Th} {locked vm locked' vm' : Bool} {p q : Pc} :
    ⟨locked', vm', Function.update (alone th locked vm p).pc th q⟩ = alone th locked' vm' q := by
  rw [alone, alone, Function.update_idem]

theorem alone_pc {th : Th} {locked vm : Bool} {p : Pc} : (alone th locked vm p).pc th = p := by
  simp [alone]

theorem Body.alone_step {vm vm' : Bool} {p p' : Pc} {o : Outcome} (h : Body vm p o vm' p')
    (th : Th) : UndisturbedStep (alone th true vm p) (.body th o) (alone th true vm' p') := by
  have hstep : Step (alone th true vm p) (.body th o) _ := .body th (by rw [alone_pc]; exact h)
  rw [alone_update] at hstep
  exact hstep.undisturbed (by simp)

/-- The first call, up to its first release. -/
theorem run_first_call (th : Th) :
    ∃ es, Run UndisturbedStep {} es (alone th false true (.returning 0)) := by
  have call : Step {} (.call th) (alone th false false .locking) := .call th rfl
  have lock : Step (alone th false false .locking) (.lock th) _ := .lock th alone_pc rfl
  have unlock : Step (alone th true true (.ending 0)) (.unlock th) _ := .unlock th alone_pc
  rw [alone_update] at lock unlock
  have entered := (Run.single (call.undisturbed (by simp))).snoc (lock.undisturbed (by simp))
  have created := (entered.snoc (Body.noVm.alone_step th)).snoc (Body.vmCreated.alone_step th)
  have found := created.snoc (Body.classFound.alone_step th)
  have called := found.snoc ((Body.invoked 0).alone_step th)
  exact ⟨_, called.snoc (unlock.undisturbed (by simp))⟩

/-- A call that returns before another thread takes the lock. -/
theorem exclusive_one_after_other : ∃ es, ∃ s : State (Fin 2), Run UndisturbedStep {} es s ∧
    (s.pc 1).inside = true ∧ s.Exclusive ∧ ((∀ th, s.pc th = .idle) → s.locked = false) := by
  obtain ⟨es, H⟩ := run_first_call (0 : Fin 2)
  have returned := H.snoc ⟨.unlockAgain 0 rfl, fun _ _ => by decide⟩
  have called := returned.snoc ((Step.call 1 rfl).undisturbed (by simp))
  have entered := called.snoc ((Step.lock 1 rfl rfl).undisturbed (by simp))
  exact ⟨_, _, entered, rfl, exclusive_of_undisturbed entered⟩

/-- The second unlock of the first thread lets the third one in to the second. -/
theorem three_threads_not_exclusive :
    ∃ es, ∃ s : State (Fin 3), Run Step {} es s ∧ ¬ s.Exclusive := by
  obtain ⟨es, H⟩ := run_first_call (0 : Fin 3)
  have released := H.mono And.left
  have second := (released.snoc (.call 1 rfl)).snoc (.lock 1 rfl rfl)
  have third := ((second.snoc (.unlockAgain 0 rfl)).snoc (.call 2 rfl)).snoc (.lock 2 rfl rfl)
  refine ⟨_, _, third, fun h => ?_⟩
  exact absurd (h 1 2 rfl rfl) (by decide)

end RestyFfi.InitLock
