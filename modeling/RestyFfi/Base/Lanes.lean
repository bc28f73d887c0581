import Mathlib.Data.List.Count
import Mathlib.Data.List.Nodup
import Mathlib.Data.List.Perm.Lattice

/-!
# Lanes

Things are taken one after another and finished in another order, but things of one lane never
overtake each other. A worker that finishes what it takes before it takes more has one lane; one
that hands every thing to a task of its own has as many lanes as things.
-/

namespace Lanes

/-- `Pick lane xs a ys`: `a` is the first of its lane in `xs`, and `ys` is the rest. -/
inductive Pick {α : Type u} {κ : Type v} (lane : α → κ) : List α → α → List α → Prop where
  | mk (xs ys : List α) : (∀ x ∈ xs, lane x ≠ lane a) → Pick lane (xs ++ a :: ys) a (xs ++ ys)

variable {α : Type u} {κ : Type v} {lane : α → κ} {a : α} {xs ys ts fs ps qs : List α}

namespace Pick

theorem head : Pick lane (a :: ys) a ys := .mk [] ys fun _ h => nomatch h

theorem perm (h : Pick lane xs a ys) : xs.Perm (a :: ys) := by
  cases h with
  | mk => exact List.perm_middle

theorem mem (h : Pick lane xs a ys) : a ∈ xs := h.perm.mem_iff.mpr List.mem_cons_self

end Pick

variable [DecidableEq κ]

/-- In every lane, what was taken is what is finished and then what is pending. -/
def InLanes (lane : α → κ) (taken finished pending : List α) : Prop :=
  ∀ k, taken.filter (lane · = k) = finished.filter (lane · = k) ++ pending.filter (lane · = k)

namespace InLanes

theorem nil : InLanes lane [] [] [] := fun _ => rfl

theorem take (h : InLanes lane ts fs ps) (a : α) : InLanes lane (ts ++ [a]) fs (ps ++ [a]) := by
  intro k
  rw [List.filter_append, h k, List.filter_append, List.append_assoc]

theorem pick (h : InLanes lane ts fs ps) (hp : Pick lane ps a qs) :
    InLanes lane ts (fs ++ [a]) qs := by
  cases hp with
  | mk xs ys hne =>
    intro k
    rw [h k]
    by_cases hk : lane a = k
    · -- nothing of this lane stands before `a`
      have hxs : xs.filter (lane · = k) = [] := by
        rw [List.filter_eq_nil_iff]
        intro x hx
        simpa [← hk] using hne x hx
      simp [List.filter_append, hxs, hk]
    · simp [List.filter_append, hk]

theorem perm (h : InLanes lane ts fs ps) : ts.Perm (fs ++ ps) := by
  classical
  rw [List.perm_iff_count]
  intro a
  have hcount : ∀ xs : List α, xs.count a = (xs.filter (lane · = lane a)).count a :=
    fun xs => (List.count_filter (by simp)).symm
  rw [hcount ts, h, ← List.filter_append, ← hcount]

/-- With one lane the order is kept. -/
theorem eq_append (h : InLanes lane ts fs ps) (k : κ) (ht : ∀ x ∈ ts, lane x = k) :
    ts = fs ++ ps := by
  have hall : ∀ x ∈ fs ++ ps, lane x = k := fun x hx => ht x (h.perm.mem_iff.mpr hx)
  have hself : ∀ {xs : List α}, (∀ x ∈ xs, lane x = k) → xs.filter (lane · = k) = xs := by
    intro xs hxs
    rw [List.filter_eq_self]
    intro x hx
    simpa using hxs x hx
  have hk := h k
  rwa [← List.filter_append, hself ht, hself hall] at hk

/-- What is finished was taken, and is finished once if it was taken once. -/
theorem finished_subset (h : InLanes lane ts fs ps) : fs ⊆ ts :=
  fun _ ha => h.perm.mem_iff.mpr (List.mem_append_left _ ha)

/-- Nothing is pending: everything that was taken is finished. -/
theorem perm_of_nil (h : InLanes lane ts fs []) : ts.Perm fs := by
  simpa using h.perm

end InLanes

/-- Things with different keys are in order if their keys are. -/
theorem prefix_of_map {f : α → β} {xs ys : List α} (hn : (ys.map f).Nodup) (hs : xs ⊆ ys)
    (h : xs.map f <+: ys.map f) : xs <+: ys := by
  obtain ⟨l, hl, hmap⟩ := List.prefix_map_iff.mp h
  have hlen : xs.length = l.length := by simpa using congrArg List.length hmap
  have heq : xs = l := by
    refine List.ext_getElem hlen fun n hx hy => ?_
    have hget : (xs.map f)[n]? = (l.map f)[n]? := by rw [hmap]
    rw [List.getElem?_map, List.getElem?_map, List.getElem?_eq_getElem hx,
      List.getElem?_eq_getElem hy] at hget
    exact List.inj_on_of_nodup_map hn (hs (List.getElem_mem hx)) (hl.subset (List.getElem_mem hy))
      (Option.some.inj hget)
  rwa [heq]

end Lanes
