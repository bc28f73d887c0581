import Mathlib.Algebra.BigOperators.Group.Finset.Piecewise
import Mathlib.Data.Fintype.Card

/-!
# Counting the members of a finite family

How many of finitely many threads stand at a program point, and how the number changes when one of
them, or some of them at once, move.
-/

namespace Counting
variable {ι β : Type*} [Fintype ι] {p q : β → Prop} [DecidablePred p] [DecidablePred q]

/-- The number of indices whose value satisfies `p`. -/
def count (p : β → Prop) [DecidablePred p] (f : ι → β) : Nat :=
  (Finset.univ.filter fun i => p (f i)).card

theorem count_congr {f g : ι → β} (h : ∀ i, p (f i) ↔ q (g i)) : count p f = count q g := by
  simp only [count, h]

theorem count_mono {f g : ι → β} (h : ∀ i, p (f i) → q (g i)) : count p f ≤ count q g := by
  apply Finset.card_le_card
  intro i hi
  simp only [Finset.mem_filter, Finset.mem_univ, true_and] at hi ⊢
  exact h i hi

theorem count_lt {f g : ι → β} (h : ∀ i, p (f i) → q (g i)) {i : ι} (hp : ¬ p (f i))
    (hq : q (g i)) : count p f < count q g := by
  apply Finset.card_lt_card
  refine ⟨fun j hj => ?_, fun hle => ?_⟩
  · simp only [Finset.mem_filter, Finset.mem_univ, true_and] at hj ⊢
    exact h j hj
  · have hi := hle (show i ∈ _ by simpa using hq)
    simp only [Finset.mem_filter, Finset.mem_univ, true_and] at hi
    exact hp hi

theorem count_pos {f : ι → β} {i : ι} (h : p (f i)) : 0 < count p f :=
  Finset.card_pos.mpr ⟨i, by simpa using h⟩

theorem exists_of_count_pos {f : ι → β} (h : 0 < count p f) : ∃ i, p (f i) := by
  obtain ⟨i, hi⟩ := Finset.card_pos.mp h
  exact ⟨i, by simpa using hi⟩

@[simp] theorem count_const_false {b : β} (h : ¬ p b) : count p (fun _ : ι => b) = 0 := by
  simp [count, h]

variable [DecidableEq ι]

/-- Moving one index changes the count by what it left and what it entered. -/
theorem count_update (f : ι → β) (i : ι) (b : β) :
    count p (Function.update f i b) + (if p (f i) then 1 else 0) =
      count p f + (if p b then 1 else 0) := by
  have hcut : ∀ g : ι → β, count p g = (if p (g i) then 1 else 0) +
      ∑ j ∈ Finset.univ.erase i, if p (g j) then 1 else 0 := by
    intro g
    rw [count, Finset.card_filter]
    exact (Finset.add_sum_erase _ (fun j => if p (g j) then 1 else 0) (Finset.mem_univ i)).symm
  have hrest : (∑ j ∈ Finset.univ.erase i, if p (Function.update f i b j) then 1 else 0) =
      ∑ j ∈ Finset.univ.erase i, if p (f j) then 1 else 0 := by
    apply Finset.sum_congr rfl
    intro j hj
    rw [Function.update_of_ne (Finset.ne_of_mem_erase hj)]
  rw [hcut f, hcut (Function.update f i b), Function.update_self, hrest]
  omega

end Counting
