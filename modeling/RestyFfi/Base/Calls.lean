import Mathlib.Data.List.Nodup
import Mathlib.Logic.Function.Basic
import RestyFfi.Base.Transition

/-!
# Calls

What a server is for. Clients call services and wait, a service answers a call at most once with one
of the answers that it serves to the request, and a client that still waits for an answered call
gets its result. A client may give up a call at any time.

A machine that implements this has a run of this one behind each of its own
(`Run.simulate_visible`), and what is proved here of a run holds of it: a result is that of the
client's own call, comes once, and not after the call was given up (`Runs.correct`).
-/

namespace Calls
open Transition

structure Call (C S Q : Type) where
  client : C
  service : S
  req : Q

structure State (C S Q A : Type) where
  calls : Nat → Option (Call C S Q)
  answers : Nat → Option A
  waiting : C → Option Nat

inductive Event (C S Q A V : Type) where
  | call (i : Nat) (x : Call C S Q)
  | answer (i : Nat) (a : A)
  | result (c : C) (i : Nat) (v : V)
  | cancel (c : C)

/-- The call that has come back. -/
def Event.returned : Event C S Q A V → Option Nat
  | .result _ i _ => some i
  | _ => none

variable {C S Q A V : Type}

def init : State C S Q A := ⟨fun _ => none, fun _ => none, fun _ => none⟩

variable [DecidableEq C] (serves : S → Q → A → Prop) (value : A → V)

inductive Step (s : State C S Q A) : Event C S Q A V → State C S Q A → Prop where
  | call : s.calls i = none → s.waiting x.client = none →
    Step s (.call i x) { s with
      calls := Function.update s.calls i (some x)
      waiting := Function.update s.waiting x.client (some i) }
  | answer : s.calls i = some x → s.answers i = none → serves x.service x.req a →
    Step s (.answer i a) { s with answers := Function.update s.answers i (some a) }
  | result : s.waiting c = some i → s.answers i = some a →
    Step s (.result c i (value a)) { s with waiting := Function.update s.waiting c none }
  | cancel : Step s (.cancel c) { s with waiting := Function.update s.waiting c none }

abbrev Runs (es : List (Event C S Q A V)) (s : State C S Q A) : Prop :=
  Run (Step serves value) init es s

variable {serves : S → Q → A → Prop} {value : A → V} {s s' : State C S Q A} {e : Event C S Q A V}
  {es ks : List (Event C S Q A V)} {i : Nat} {c : C} {x : Call C S Q} {a : A} {v : V}

/-- What a state says about the run behind it. -/
structure Inv (serves : S → Q → A → Prop) (es : List (Event C S Q A V)) (s : State C S Q A) :
    Prop where
  calls_iff : ∀ {i x}, s.calls i = some x ↔ .call i x ∈ es
  answers_iff : ∀ {i a}, s.answers i = some a ↔ .answer i a ∈ es
  served : ∀ {i a}, s.answers i = some a → ∃ x, s.calls i = some x ∧ serves x.service x.req a
  waiting : ∀ {c i}, s.waiting c = some i → ∃ x, s.calls i = some x ∧ x.client = c

theorem update_eq_some_iff {α β : Type} [DecidableEq α] {f : α → Option β} {i j : α} {b b' : β}
    (hi : f i = none) :
    Function.update f i (some b) j = some b' ↔ f j = some b' ∨ j = i ∧ b' = b := by
  by_cases hj : j = i
  · subst hj
    simp [hi, eq_comm]
  · simp [hj]

theorem update_none_eq_some {α β : Type} [DecidableEq α] {f : α → Option β} {i j : α} {b : β}
    (h : Function.update f i none j = some b) : f j = some b ∧ j ≠ i := by
  by_cases hj : j = i
  · subst hj
    simp at h
  · rw [Function.update_of_ne hj] at h
    exact ⟨h, hj⟩

theorem Step.inv (h : Step serves value s e s') (I : Inv serves es s) :
    Inv serves (es ++ [e]) s' := by
  cases h with
  | @call i x hi hw =>
    refine ⟨fun {j y} => ?_, fun {j a} => ?_, fun {j a} ha => ?_, fun {c j} hc => ?_⟩
    · rw [update_eq_some_iff hi, I.calls_iff]
      simp
    · rw [I.answers_iff]
      simp
    · obtain ⟨y, hy, hs⟩ := I.served ha
      exact ⟨y, (update_eq_some_iff hi).mpr (.inl hy), hs⟩
    · rcases (update_eq_some_iff hw).mp hc with hc | ⟨rfl, rfl⟩
      · obtain ⟨y, hy, hyc⟩ := I.waiting hc
        exact ⟨y, (update_eq_some_iff hi).mpr (.inl hy), hyc⟩
      · exact ⟨x, Function.update_self .., rfl⟩
  | @answer i x a hi ha hs =>
    refine ⟨fun {j y} => ?_, fun {j b} => ?_, fun {j b} hb => ?_, fun hc => I.waiting hc⟩
    · rw [I.calls_iff]
      simp
    · rw [update_eq_some_iff ha, I.answers_iff]
      simp
    · rcases (update_eq_some_iff ha).mp hb with hb | ⟨rfl, rfl⟩
      · exact I.served hb
      · exact ⟨x, hi, hs⟩
  | result | cancel =>
    refine ⟨fun {j y} => ?_, fun {j b} => ?_, fun hb => I.served hb, fun hc => ?_⟩
    · rw [I.calls_iff]
      simp
    · rw [I.answers_iff]
      simp
    · exact I.waiting (update_none_eq_some hc).1

theorem Runs.inv (H : Runs serves value es s) : Inv serves es s := by
  induction H with
  | nil => exact ⟨by simp [init], by simp [init], fun h => (nomatch h), fun h => (nomatch h)⟩
  | snoc _ h ih => exact h.inv ih

/-! ## A call that is over -/

/-- The call has been made, and nobody waits for it any more. -/
def Settled (s : State C S Q A) (i : Nat) : Prop := s.calls i ≠ none ∧ ∀ c, s.waiting c ≠ some i

theorem Settled.step (hi : Settled s i) (h : Step serves value s e s') :
    Settled s' i ∧ e.returned ≠ some i := by
  cases h with
  | @call j x hj hw =>
    have hne : i ≠ j := by
      rintro rfl
      exact hi.1 hj
    refine ⟨⟨by simpa [Function.update_of_ne hne] using hi.1, fun c hc => ?_⟩, nofun⟩
    rcases (update_eq_some_iff hw).mp hc with hc | ⟨_, rfl⟩
    · exact hi.2 c hc
    · exact hne rfl
  | answer => exact ⟨hi, nofun⟩
  | @result c j a hw =>
    refine ⟨⟨hi.1, fun c' hc' => hi.2 c' (update_none_eq_some hc').1⟩, fun h => ?_⟩
    cases h
    exact hi.2 c hw
  | cancel => exact ⟨⟨hi.1, fun c' hc' => hi.2 c' (update_none_eq_some hc').1⟩, nofun⟩

theorem Settled.run (hi : Settled s i) (K : Run (Step serves value) s ks s') :
    Settled s' i ∧ i ∉ ks.filterMap Event.returned := by
  induction K with
  | nil => exact ⟨hi, by simp⟩
  | snoc _ h ih =>
    obtain ⟨hs, hret⟩ := ih.1.step h
    refine ⟨hs, ?_⟩
    rw [filterMap_snoc, List.mem_append, Option.mem_toList, not_or]
    exact ⟨ih.2, hret⟩

omit [DecidableEq C] in
/-- Only the client of a call waits for it, so the call is over when it does not. -/
theorem Inv.settled (I : Inv serves es s) (hx : s.calls i = some x)
    (hw : s.waiting x.client ≠ some i) : Settled s i := by
  refine ⟨by simp [hx], fun c hc => ?_⟩
  obtain ⟨y, hy, rfl⟩ := I.waiting hc
  rw [hx] at hy
  cases hy
  exact hw hc

theorem Runs.settled_of_returned (H : Runs serves value es s)
    (hi : i ∈ es.filterMap Event.returned) : Settled s i := by
  induction H with
  | nil => cases hi
  | @snoc es s e s' H h ih =>
    rw [filterMap_snoc, List.mem_append, Option.mem_toList] at hi
    rcases hi with hi | hi
    · exact ((ih hi).step h).1
    · cases h with
      | @result c j a hw =>
        cases hi
        obtain ⟨x, hx, rfl⟩ := (Runs.inv H).waiting hw
        have I := (Step.result hw ‹_› : Step serves value _ _ _).inv (Runs.inv H)
        exact I.settled (x := x) hx (by simp)
      | _ => cases hi

/-- What clients may rely on. -/
structure Correct (serves : S → Q → A → Prop) (value : A → V) (es : List (Event C S Q A V)) :
    Prop where
  /-- A result is that of a call of this client, and of an answer to its request. -/
  own : ∀ {c i v}, .result c i v ∈ es → ∃ x a, .call i x ∈ es ∧ x.client = c ∧
    .answer i a ∈ es ∧ serves x.service x.req a ∧ v = value a
  /-- A call has one result at most. -/
  once : (es.filterMap Event.returned).Nodup
  /-- A call that was given up has none. -/
  cancelled : ∀ {es₁ es₂ c i x}, es = es₁ ++ .cancel c :: es₂ → .call i x ∈ es₁ → x.client = c →
    i ∉ es₂.filterMap Event.returned

theorem Runs.own (H : Runs serves value es s) (hr : .result c i v ∈ es) :
    ∃ x a, .call i x ∈ es ∧ x.client = c ∧ .answer i a ∈ es ∧ serves x.service x.req a ∧
      v = value a := by
  induction H with
  | nil => cases hr
  | @snoc es s e s' H h ih =>
    rcases List.mem_append.mp hr with hr | hr
    · obtain ⟨x, a, hx, hc, ha, hs⟩ := ih hr
      exact ⟨x, a, List.mem_append_left _ hx, hc, List.mem_append_left _ ha, hs⟩
    · cases List.mem_singleton.mp hr
      have I := Runs.inv H
      cases h with
      | @result _ _ a hw ha =>
        obtain ⟨x, hx, hc⟩ := I.waiting hw
        obtain ⟨y, hy, hs⟩ := I.served ha
        rw [hx] at hy
        cases hy
        exact ⟨x, a, List.mem_append_left _ (I.calls_iff.mp hx), hc,
          List.mem_append_left _ (I.answers_iff.mp ha), hs, rfl⟩

theorem Runs.once (H : Runs serves value es s) : (es.filterMap Event.returned).Nodup := by
  induction H with
  | nil => exact .nil
  | @snoc es s e s' H h ih =>
    rw [filterMap_snoc]
    cases he : e.returned with
    | none => simpa using ih
    | some i =>
      refine List.nodup_append.mpr ⟨ih, by simp, ?_⟩
      rintro j hj _ hi rfl
      cases List.mem_singleton.mp hi
      exact ((Runs.settled_of_returned H hj).step h).2 he

theorem Runs.correct (H : Runs serves value es s) : Correct serves value es where
  own hr := H.own hr
  once := H.once
  cancelled := by
    rintro es₁ es₂ c i x rfl hx rfl
    obtain ⟨t, H₁, K⟩ := H.split
    obtain ⟨u, h, K⟩ := K.cons_split
    have I := Runs.inv H₁
    have hcalls := I.calls_iff.mpr hx
    cases h with
    | cancel =>
      have I' := (Step.cancel : Step serves value t (.cancel x.client) _).inv I
      exact ((I'.settled hcalls (by simp)).run K).2

end Calls
