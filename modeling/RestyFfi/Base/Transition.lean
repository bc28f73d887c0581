import Mathlib.Data.List.Induction

/-!
# Labelled runs

A system is a labelled step relation `step : σ → ι → σ → Prop`. A run keeps the labels of its
steps, oldest first, so that a statement about a history is a statement about a list. Runs grow at
the end: an invariant may mention the history it was established with (`Run.invariant`).
-/

namespace Transition

/-- `Run step s ls t`: steps labelled `ls`, oldest first, lead from `s` to `t`. -/
inductive Run (step : σ → ι → σ → Prop) (s : σ) : List ι → σ → Prop where
  | nil : Run step s [] s
  | snoc : Run step s ls t → step t l u → Run step s (ls ++ [l]) u

namespace Run
variable {step : σ → ι → σ → Prop} {s t u : σ} {ls ks : List ι} {l : ι}

theorem single (h : step s l t) : Run step s [l] t := Run.nil.snoc h

theorem append (H : Run step s ls t) (K : Run step t ks u) : Run step s (ls ++ ks) u := by
  induction K with
  | nil => simpa using H
  | snoc _ h ih => rw [← List.append_assoc]; exact ih.snoc h

theorem nil_eq (H : Run step s [] t) : t = s := by
  generalize hls : ([] : List ι) = ls at H
  cases H with
  | nil => rfl
  | snoc => simp at hls

theorem snoc_split (H : Run step s (ls ++ [l]) u) : ∃ t, Run step s ls t ∧ step t l u := by
  generalize hks : ls ++ [l] = ks at H
  cases H with
  | nil => simp at hks
  | snoc H h =>
    obtain ⟨rfl, hl⟩ := List.append_inj' hks rfl
    cases hl
    exact ⟨_, H, h⟩

theorem split (H : Run step s (ls ++ ks) u) : ∃ t, Run step s ls t ∧ Run step t ks u := by
  induction ks using List.reverseRecOn generalizing u with
  | nil => exact ⟨u, by simpa using H, .nil⟩
  | append_singleton ks l ih =>
    rw [← List.append_assoc] at H
    obtain ⟨v, hv, h⟩ := H.snoc_split
    obtain ⟨t, ht, hk⟩ := ih hv
    exact ⟨t, ht, hk.snoc h⟩

theorem cons_split (H : Run step s (l :: ls) u) : ∃ t, step s l t ∧ Run step t ls u := by
  rw [← List.singleton_append] at H
  obtain ⟨t, h, hr⟩ := H.split
  rw [← List.nil_append [l]] at h
  obtain ⟨v, hv, h⟩ := h.snoc_split
  cases hv.nil_eq
  exact ⟨t, h, hr⟩

/-- **The invariant rule.** A predicate of history and state that holds at the start and is kept by
every step from a reachable state holds after every run. -/
theorem invariant {P : List ι → σ → Prop} (H : Run step s ls t) (h0 : P [] s)
    (hs : ∀ {ls t l u}, Run step s ls t → P ls t → step t l u → P (ls ++ [l]) u) : P ls t := by
  induction H with
  | nil => exact h0
  | snoc H h ih => exact hs H ih h

theorem mono {step' : σ → ι → σ → Prop} (H : Run step s ls t)
    (h : ∀ {s l t}, step s l t → step' s l t) : Run step' s ls t := by
  induction H with
  | nil => exact .nil
  | snoc _ hstep ih => exact ih.snoc (h hstep)

/-- **Strengthening.** In the states of an invariant the steps are steps of another kind. -/
theorem strengthen {step' : σ → ι → σ → Prop} {I : σ → Prop} (H : Run step s ls t) (h0 : I s)
    (hs : ∀ {s l t}, I s → step s l t → step' s l t ∧ I t) : Run step' s ls t ∧ I t := by
  induction H with
  | nil => exact ⟨.nil, h0⟩
  | snoc _ hstep ih =>
    obtain ⟨H, hI⟩ := ih
    obtain ⟨hstep', hI'⟩ := hs hI hstep
    exact ⟨H.snoc hstep', hI'⟩

/-- A condition on the steps of a run that only depends on their labels. -/
theorem and_label_iff {Q : σ → ι → Prop} {P : ι → Prop}
    (h : ∀ {s l t}, step s l t → (Q s l ↔ P l)) :
    Run (fun s l t => step s l t ∧ Q s l) s ls t ↔ Run step s ls t ∧ ∀ l ∈ ls, P l := by
  constructor
  · intro H
    induction H with
    | nil => exact ⟨.nil, by simp⟩
    | snoc _ hstep ih =>
      obtain ⟨H, hl⟩ := ih
      refine ⟨H.snoc hstep.1, List.forall_mem_append.mpr ⟨hl, ?_⟩⟩
      simpa using (h hstep.1).mp hstep.2
  · rintro ⟨H, hl⟩
    induction H with
    | nil => exact .nil
    | snoc _ hstep ih =>
      obtain ⟨hls, hl⟩ := List.forall_mem_append.mp hl
      exact (ih hls).snoc ⟨hstep, (h hstep).mpr (hl _ (List.mem_singleton_self _))⟩

/-- **Simulation.** Steps that are matched label by label carry a run of one system to a run of
another. -/
theorem simulate {step' : τ → ι → τ → Prop} {R : σ → τ → Prop} {a : τ}
    (H : Run step s ls t) (h0 : R s a)
    (hR : ∀ {s l t a}, R s a → step s l t → ∃ b, step' a l b ∧ R t b) :
    ∃ b, Run step' a ls b ∧ R t b := by
  induction H with
  | nil => exact ⟨a, .nil, h0⟩
  | snoc _ h ih =>
    obtain ⟨b, hb, hRb⟩ := ih
    obtain ⟨c, hc, hRc⟩ := hR hRb h
    exact ⟨c, hb.snoc hc, hRc⟩

/-- **Simulation with hidden steps.** A step with a visible label is matched by a step with that
label, and any other by none. -/
theorem simulate_visible {step' : τ → κ → τ → Prop} {f : ι → Option κ} {R : σ → τ → Prop} {a : τ}
    (H : Run step s ls t) (h0 : R s a)
    (hR : ∀ {ls t l u b}, Run step s ls t → Run step' a (ls.filterMap f) b → R t b → step t l u →
      ∃ c, (f l).elim (c = b) (step' b · c) ∧ R u c) :
    ∃ b, Run step' a (ls.filterMap f) b ∧ R t b := by
  induction H with
  | nil => exact ⟨a, .nil, h0⟩
  | @snoc ls t l u H h ih =>
    obtain ⟨b, hb, hRb⟩ := ih
    obtain ⟨c, hc, hRc⟩ := hR H hb hRb h
    refine ⟨c, ?_, hRc⟩
    rw [List.filterMap_append]
    cases hl : f l with
    | none =>
      rw [hl] at hc
      cases hc
      simpa [hl] using hb
    | some k =>
      rw [hl] at hc
      simpa [hl] using hb.snoc hc

/-- **Simulation by runs.** A good step is matched by a run of good steps. -/
theorem simulate_runs {step' : τ → κ → τ → Prop} {R : σ → τ → Prop} {good : ι → Prop}
    {good' : κ → Prop} {a : τ} (H : Run step s ls t) (hls : ∀ l ∈ ls, good l) (h0 : R s a)
    (hR : ∀ {s l t a}, R s a → step s l t → good l →
      ∃ ks b, Run step' a ks b ∧ (∀ k ∈ ks, good' k) ∧ R t b) :
    ∃ ks b, Run step' a ks b ∧ (∀ k ∈ ks, good' k) ∧ R t b := by
  induction H with
  | nil => exact ⟨[], a, .nil, by simp, h0⟩
  | snoc _ h ih =>
    rw [List.forall_mem_append] at hls
    obtain ⟨ks, b, K, hk, hRb⟩ := ih hls.1
    obtain ⟨ks', c, K', hk', hRc⟩ := hR hRb h (hls.2 _ (.head _))
    exact ⟨ks ++ ks', c, K.append K', List.forall_mem_append.mpr ⟨hk, hk'⟩, hRc⟩

end Run

/-! ## Progress -/

/-- From `s` there is a run of good steps that keeps `P` and makes a measure smaller. -/
def Advances (step : σ → ι → σ → Prop) (P : σ → Prop) (good : ι → Prop) (μ : σ → Nat) (s : σ) :
    Prop :=
  ∃ ls t, Run step s ls t ∧ (∀ l ∈ ls, good l) ∧ P t ∧ μ t < μ s

section
variable {step : σ → ι → σ → Prop} {P : σ → Prop} {good : ι → Prop} {μ : σ → Nat} {s t : σ} {l : ι}

theorem Advances.single (h : step s l t) (hl : good l) (ht : P t) (hlt : μ t < μ s) :
    Advances step P good μ s := ⟨[l], t, .single h, by simpa using hl, ht, hlt⟩

theorem Advances.cons (h : step s l t) (hl : good l) (hle : μ t ≤ μ s)
    (A : Advances step P good μ t) : Advances step P good μ s := by
  obtain ⟨ks, u, K, hk, hu, hlt⟩ := A
  exact ⟨[l] ++ ks, u, (Run.single h).append K,
    List.forall_mem_append.mpr ⟨by simpa using hl, hk⟩, hu, Nat.lt_of_lt_of_le hlt hle⟩

/-- **The progress rule.** If the system can advance wherever the measure is not zero, then it can
make it zero. -/
theorem Run.reaches (hμ : ∀ {s}, P s → μ s ≠ 0 → Advances step P good μ s) (hs : P s) :
    ∃ ls t, Run step s ls t ∧ (∀ l ∈ ls, good l) ∧ P t ∧ μ t = 0 := by
  induction hn : μ s using Nat.strongRecOn generalizing s with
  | ind n ih =>
    by_cases h0 : μ s = 0
    · exact ⟨[], s, .nil, by simp, hs, h0⟩
    obtain ⟨ls, t, H, hl, ht, hlt⟩ := hμ hs h0
    obtain ⟨ks, u, K, hk, hu, hu0⟩ := ih (μ t) (hn ▸ hlt) ht rfl
    exact ⟨ls ++ ks, u, H.append K, List.forall_mem_append.mpr ⟨hl, hk⟩, hu, hu0⟩

end

theorem filterMap_snoc (f : ι → Option κ) (ls : List ι) (l : ι) :
    (ls ++ [l]).filterMap f = ls.filterMap f ++ (f l).toList := by
  cases h : f l <;> simp [h]

end Transition
