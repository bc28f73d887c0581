import Mathlib.Data.Fintype.EquivFin
import RestyFfi.Queue.Accounting

/-!
# Freeing the queue

The poll that dequeues the finish marker frees the queue. There is one marker, whoever gets it, and
nothing tells the other pollers: they may be asleep, woken, waiting for the mutex or about to call
again. The teardown is safe exactly for a runtime that polls from at most one thread.
-/

namespace RestyFfi

/-- A call of `ngx_http_lua_ffi_task_finish`. -/
def Event.isFinish : Event Th α → Bool
  | .post .finish _ => true
  | _ => false

namespace Pollers
open Transition

variable {Th α : Type} [DecidableEq Th] {s s' : Pollers Th α} {e : Event Th α}
  {es : List (Event Th α)} {n : Int} {a b th : Th}

/-- In every run with at most one finish: when a poll frees the queue no other thread is inside a
poll, and afterwards no thread starts one. -/
def TeardownSafe (Th α : Type) [DecidableEq Th] (n : Int) : Prop :=
  ∀ (es : List (Event Th α)) (s : Pollers Th α), Runs n es s → es.countP Event.isFinish ≤ 1 →
    (∀ th s', Step s (.free th) s' → ∀ th', th' ≠ th → (s.pc th').inside = false) ∧
    (s.freed = true → ∀ th s', ¬ Step s (.enter th) s')

/-! ## One poller -/

/-- A thread whose poll has returned `NULL` stays out of the queue. -/
theorem Step.stopped (h : Step s e s') (hth : s.pc th = .stopped) : s'.pc th = .stopped := by
  cases h.move with
  | rejected => exact hth
  | @accepted woken task hw =>
    have : th ∉ woken := fun hm => by have := hw.1 th hm; rw [hth] at this; cases this
    simpa [wakeUp, this] using hth
  | @enter t hpc | @sleep t hpc | @resleep t hpc | @take t _ _ hpc | @retake t _ _ hpc
  | @wake t hpc | @free t hpc =>
    have hne : th ≠ t := by rintro rfl; rw [hth] at hpc; cases hpc
    simpa [Function.update_of_ne hne] using hth

theorem Step.freed_stopped (h : Step s e s') (ih : s.freed = true → ∃ th, s.pc th = .stopped)
    (hf : s'.freed = true) : ∃ th, s'.pc th = .stopped := by
  by_cases hs : s.freed = true
  · obtain ⟨th, hth⟩ := ih hs
    exact ⟨th, h.stopped hth⟩
  · cases h.move with
    | @free t => exact ⟨t, by simp⟩
    | _ => exact (hs hf).elim

theorem Runs.freed_stopped (H : Runs n es s) (hf : s.freed = true) : ∃ th, s.pc th = .stopped := by
  refine H.invariant (P := fun _ s => s.freed = true → ∃ th, s.pc th = .stopped) ?_
    (fun _ ih h => h.freed_stopped ih) hf
  intro h; cases h

theorem teardownSafe_of_subsingleton [Subsingleton Th] : TeardownSafe Th α n := by
  intro es s H _
  refine ⟨fun th s' _ th' hne => (hne (Subsingleton.elim _ _)).elim, fun hf th s' h => ?_⟩
  obtain ⟨t, ht⟩ := H.freed_stopped hf
  rw [Subsingleton.elim t th] at ht
  cases h.move with
  | enter hpc => rw [ht] at hpc; cases hpc

/-! ## Two pollers -/

theorem Step.sleep (hpc : s.pc th = .locking) (hq : s.tq.queue = []) :
    Step s (.sleep th) { s with
      tq := s.tq.pollEnter
      pc := Function.update s.pc th .asleep } := by
  have h := Step.lock hpc
  have ht : s.tq.pollEnter.pollTake = none := TaskQueue.pollTake_eq_none.mpr hq
  simpa only [take, ht] using h

theorem Step.finish {woken : Finset Th} (hw : Wakes woken s.pc) :
    Step s (.post .finish .ok) { s with
      tq := { s.tq with queue := s.tq.queue ++ [.finish], waiting := s.tq.waiting + 1 }
      pc := wakeUp woken s.pc } := by
  have h : Step s (.post .finish (s.post {} .finish woken).1) (s.post {} .finish woken).2 := .post hw
  simpa [Pollers.post, TaskQueue.ngxTaskPost] using h

theorem Step.takeAwake {task : Task α} {rest : List (Task α)} (hpc : s.pc th = .awake)
    (hq : s.tq.queue = task :: rest) :
    Step s (.take th task) { s with
      tq := { s.tq with queue := rest }
      pc := Function.update s.pc th (.afterTake task) } := by
  have h := Step.relock hpc
  have ht : s.tq.pollTake = some (task, { s.tq with queue := rest }) :=
    TaskQueue.pollTake_eq_some.mpr ⟨rest, hq, rfl⟩
  simpa only [take, ht] using h

/-- Two threads fall asleep on the empty queue, the finish wakes one of them, and it takes the
marker. -/
def teardownRace (a b : Th) : List (Event Th α) :=
  [.enter a, .sleep a, .enter b, .sleep b, .post .finish .ok, .take a .finish]

/-- At the end of the race one thread is about to free the queue the other sleeps on. -/
theorem teardownRace_runs (hab : a ≠ b) :
    ∃ s : Pollers Th α, Runs n (teardownRace a b) s ∧ s.pc a = .freeing ∧ s.pc b = .asleep := by
  have hba := hab.symm
  have hw : Wakes {a} (Function.update (Function.update (Function.update (Function.update
      (fun _ => Pc.outside) a .locking) a .asleep) b .locking) b .asleep) := by
    refine ⟨fun th h => ?_, fun _ => ⟨a, by simp⟩⟩
    cases Finset.mem_singleton.mp h
    simp [Function.update_of_ne hab]
  refine ⟨_, (((((Run.single (.enter rfl)).snoc (.sleep ?_ rfl)).snoc (.enter ?_)).snoc
    (.sleep ?_ rfl)).snoc (.finish hw)).snoc (.takeAwake ?_ rfl), ?_, ?_⟩
  all_goals simp [wakeUp, hba, init]

theorem not_teardownSafe (hab : a ≠ b) : ¬ TeardownSafe Th α n := by
  intro h
  obtain ⟨s, H, ha, hb⟩ := teardownRace_runs (α := α) (n := n) hab
  obtain ⟨hfree, _⟩ := h _ s H (by simp [teardownRace, List.countP_cons, Event.isFinish])
  have := hfree a _ (.free ha) b hab.symm
  rw [hb] at this
  cases this

/-- **Teardown.** Freeing the queue is safe for every interleaving exactly when the runtime polls
it from at most one thread. -/
theorem teardownSafe_iff [Fintype Th] : TeardownSafe Th α n ↔ Fintype.card Th ≤ 1 := by
  constructor
  · intro h
    by_contra hc
    obtain ⟨a, b, hab⟩ := Fintype.one_lt_card_iff.mp (by omega : 1 < Fintype.card Th)
    exact not_teardownSafe hab h
  · intro hc
    have := Fintype.card_le_one_iff_subsingleton.mp hc
    exact teardownSafe_of_subsingleton

/-- With the default limit and two threads it is not. -/
theorem teardown_unsafe_two_pollers : ¬ TeardownSafe (Fin 2) Nat 65536 := by
  have h01 : (0 : Fin 2) ≠ 1 := by decide
  exact not_teardownSafe h01

end Pollers
end RestyFfi
