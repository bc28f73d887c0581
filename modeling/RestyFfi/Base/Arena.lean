import Mathlib.Data.List.Basic
import Mathlib.Logic.Function.Basic

/-!
# Tables with never-reused identifiers

An `Arena` numbers what it has ever held. An entry may be changed or erased, but its number is
never given out again.
-/

/-- Entries numbered below `next`; nothing stands at or above it. -/
structure Arena (α : Type u) where
  get : Nat → Option α
  next : Nat
  fresh : ∀ i, next ≤ i → get i = none

namespace Arena
variable {α : Type u} {A : Arena α} {i j : Nat} {x y : α} {f : α → α}

def empty : Arena α := ⟨fun _ => none, 0, fun _ _ => rfl⟩

instance : Inhabited (Arena α) := ⟨empty⟩

/-- Give `x` the number `A.next`. -/
def push (A : Arena α) (x : α) : Arena α where
  get := Function.update A.get A.next (some x)
  next := A.next + 1
  fresh i hi := by
    rw [Function.update_of_ne (by omega)]
    exact A.fresh i (by omega)

/-- Change the entry numbered `i`, if there is one. -/
def modify (A : Arena α) (i : Nat) (f : α → α) : Arena α where
  get := Function.update A.get i ((A.get i).map f)
  next := A.next
  fresh j hj := by
    by_cases h : j = i
    · subst h; simp [A.fresh j hj]
    · rw [Function.update_of_ne h, A.fresh j hj]

/-- Erase the entry numbered `i`. -/
def erase (A : Arena α) (i : Nat) : Arena α where
  get := Function.update A.get i none
  next := A.next
  fresh j hj := by
    by_cases h : j = i
    · subst h; simp
    · rw [Function.update_of_ne h, A.fresh j hj]

@[simp] theorem push_next : (A.push x).next = A.next + 1 := rfl
@[simp] theorem modify_next : (A.modify i f).next = A.next := rfl

@[simp] theorem push_get_next : (A.push x).get A.next = some x := by simp [push]

theorem lt_next (h : A.get i = some x) : i < A.next := by
  by_contra hn
  rw [A.fresh i (by omega)] at h
  cases h

theorem ne_next (h : A.get i = some x) : i ≠ A.next := Nat.ne_of_lt (lt_next h)

theorem push_get_of_ne (h : i ≠ A.next) : (A.push x).get i = A.get i := by
  simp [push, Function.update_of_ne h]

theorem push_get_of_some (h : A.get i = some y) : (A.push x).get i = some y := by
  rw [push_get_of_ne (ne_next h), h]

theorem push_get_eq_some (h : (A.push x).get i = some y) :
    (i = A.next ∧ y = x) ∨ A.get i = some y := by
  by_cases hi : i = A.next
  · subst hi; simp at h; exact .inl ⟨rfl, h.symm⟩
  · rw [push_get_of_ne hi] at h; exact .inr h

@[simp] theorem modify_get_self : (A.modify i f).get i = (A.get i).map f := by simp [modify]

theorem modify_get_of_ne (h : j ≠ i) : (A.modify i f).get j = A.get j := by
  simp [modify, Function.update_of_ne h]

theorem modify_get_eq_some (h : (A.modify i f).get j = some y) :
    (j = i ∧ ∃ x, A.get i = some x ∧ y = f x) ∨ (j ≠ i ∧ A.get j = some y) := by
  by_cases hj : j = i
  · subst hj
    rw [modify_get_self, Option.map_eq_some_iff] at h
    obtain ⟨x, hx, rfl⟩ := h
    exact .inl ⟨rfl, x, hx, rfl⟩
  · rw [modify_get_of_ne hj] at h; exact .inr ⟨hj, h⟩

@[simp] theorem erase_get_self : (A.erase i).get i = none := by simp [erase]

theorem erase_get_of_ne (h : j ≠ i) : (A.erase i).get j = A.get j := by
  simp [erase, Function.update_of_ne h]

/-- Records of what was pushed: each has a number of its own, below `n`. -/
structure Numbered {β : Type v} (f : β → Nat) (xs : List β) (n : Nat) : Prop where
  lt : ∀ {x}, x ∈ xs → f x < n
  inj : ∀ {x y}, x ∈ xs → y ∈ xs → f x = f y → x = y

namespace Numbered
variable {β : Type v} {f : β → Nat} {xs : List β} {b : β} {m n : Nat}

theorem nil : Numbered f [] n := ⟨fun h => (nomatch h), fun h => (nomatch h)⟩

theorem mono (N : Numbered f xs n) (h : n ≤ m) : Numbered f xs m :=
  ⟨fun hx => Nat.lt_of_lt_of_le (N.lt hx) h, N.inj⟩

theorem snoc (N : Numbered f xs n) (hb : f b = n) : Numbered f (xs ++ [b]) (n + 1) := by
  simp only [← hb] at N ⊢
  constructor
  · intro x hx
    rcases List.mem_append.mp hx with hx | hx
    · exact Nat.lt_succ_of_lt (N.lt hx)
    · rw [List.mem_singleton.mp hx]
      exact Nat.lt_succ_self _
  · intro x y hx hy hxy
    rcases List.mem_append.mp hx with hx | hx <;> rcases List.mem_append.mp hy with hy | hy
    · exact N.inj hx hy hxy
    · cases List.mem_singleton.mp hy
      exact absurd hxy (Nat.ne_of_lt (N.lt hx))
    · cases List.mem_singleton.mp hx
      exact absurd hxy.symm (Nat.ne_of_lt (N.lt hy))
    · rw [List.mem_singleton.mp hx, List.mem_singleton.mp hy]

end Numbered
end Arena
