import Mathlib.Data.Finset.Card
import Mathlib.Data.List.Nodup
import Mathlib.Logic.Function.Basic

/-!
# A heap of blocks with reused addresses

`alloc` may return any address that holds no block, so an address can be used again after `free`
and a stale pointer may designate somebody else's block. Every allocation gets a *stamp* of its
own, which no later allocation shares: the stamp says which block is meant when the address does
not. The stamps of freed blocks are kept, and a `free` of an address without a block is counted.
-/

/-- Blocks by address, each with its stamp. Every stamp below `next` is live at one address or was
freed once, and never both. -/
structure BlockHeap (α : Type u) where
  cells : Nat → Option (Nat × α)
  next : Nat
  freed : List Nat
  invalidFrees : Nat
  lt_next : ∀ {a i x}, cells a = some (i, x) → i < next
  addr_unique : ∀ {a b i x y}, cells a = some (i, x) → cells b = some (i, y) → a = b
  freed_lt : ∀ {i}, i ∈ freed → i < next
  freed_nodup : freed.Nodup
  live_or_freed : ∀ {i}, i < next → i ∈ freed ∨ ∃ a x, cells a = some (i, x)
  live_not_freed : ∀ {a i x}, cells a = some (i, x) → i ∉ freed

namespace BlockHeap
variable {α : Type u} {h : BlockHeap α} {a b i j : Nat} {x y : α} {f : α → α}

def empty : BlockHeap α where
  cells _ := none
  next := 0
  freed := []
  invalidFrees := 0
  lt_next h := nomatch h
  addr_unique h := nomatch h
  freed_lt h := nomatch h
  freed_nodup := .nil
  live_or_freed h := absurd h (Nat.not_lt_zero _)
  live_not_freed h := nomatch h

/-- Put a new block at the unused address `a`, under the stamp `h.next`. -/
def alloc (h : BlockHeap α) (a : Nat) (x : α) (ha : h.cells a = none) : BlockHeap α where
  cells := Function.update h.cells a (some (h.next, x))
  next := h.next + 1
  freed := h.freed
  invalidFrees := h.invalidFrees
  lt_next {b i y} hb := by
    by_cases hba : b = a
    · subst hba; simp at hb; omega
    · rw [Function.update_of_ne hba] at hb; exact Nat.lt_succ_of_lt (h.lt_next hb)
  addr_unique {b c i y z} hb hc := by
    by_cases hba : b = a <;> by_cases hca : c = a
    · exact hba.trans hca.symm
    · subst hba; rw [Function.update_of_ne hca] at hc; simp at hb
      have := h.lt_next hc; omega
    · subst hca; rw [Function.update_of_ne hba] at hb; simp at hc
      have := h.lt_next hb; omega
    · rw [Function.update_of_ne hba] at hb; rw [Function.update_of_ne hca] at hc
      exact h.addr_unique hb hc
  freed_lt hi := Nat.lt_succ_of_lt (h.freed_lt hi)
  freed_nodup := h.freed_nodup
  live_or_freed {i} hi := by
    by_cases hin : i = h.next
    · exact .inr ⟨a, x, by simp [hin]⟩
    rcases h.live_or_freed (show i < h.next by omega) with hf | ⟨b, y, hb⟩
    · exact .inl hf
    · have hba : b ≠ a := by rintro rfl; rw [ha] at hb; cases hb
      exact .inr ⟨b, y, by rw [Function.update_of_ne hba]; exact hb⟩
  live_not_freed {b i y} hb := by
    by_cases hba : b = a
    · subst hba; simp at hb
      intro hi; have := h.freed_lt hi; omega
    · rw [Function.update_of_ne hba] at hb; exact h.live_not_freed hb

/-- Change the contents of the block at `a`, if there is one. -/
def modify (h : BlockHeap α) (a : Nat) (f : α → α) : BlockHeap α where
  cells := Function.update h.cells a ((h.cells a).map fun c => (c.1, f c.2))
  next := h.next
  freed := h.freed
  invalidFrees := h.invalidFrees
  lt_next {b i y} hb := by
    by_cases hba : b = a
    · subst hba; simp at hb; obtain ⟨x, hx, _⟩ := hb; exact h.lt_next hx
    · rw [Function.update_of_ne hba] at hb; exact h.lt_next hb
  addr_unique {b c i y z} hb hc := by
    have key : ∀ {d w}, Function.update h.cells a ((h.cells a).map fun c => (c.1, f c.2)) d =
        some (i, w) → ∃ w', h.cells d = some (i, w') := by
      intro d w hd
      by_cases hda : d = a
      · subst hda; simp at hd; obtain ⟨x, hx, _⟩ := hd; exact ⟨x, hx⟩
      · rw [Function.update_of_ne hda] at hd; exact ⟨w, hd⟩
    obtain ⟨_, hb⟩ := key hb
    obtain ⟨_, hc⟩ := key hc
    exact h.addr_unique hb hc
  freed_lt := h.freed_lt
  freed_nodup := h.freed_nodup
  live_or_freed {i} hi := by
    rcases h.live_or_freed hi with hf | ⟨b, y, hb⟩
    · exact .inl hf
    · by_cases hba : b = a
      · subst hba; exact .inr ⟨b, f y, by simp [hb]⟩
      · exact .inr ⟨b, y, by rw [Function.update_of_ne hba]; exact hb⟩
  live_not_freed {b i y} hb := by
    by_cases hba : b = a
    · subst hba; simp at hb; obtain ⟨x, hx, _⟩ := hb; exact h.live_not_freed hx
    · rw [Function.update_of_ne hba] at hb; exact h.live_not_freed hb

/-- Free the block at `a`. Freeing an address that holds no block is only counted. -/
def free (h : BlockHeap α) (a : Nat) : BlockHeap α :=
  match ha : h.cells a with
  | none => { h with invalidFrees := h.invalidFrees + 1 }
  | some (i, _) => {
    cells := Function.update h.cells a none
    next := h.next
    freed := i :: h.freed
    invalidFrees := h.invalidFrees
    lt_next := fun {b j y} hb => by
      by_cases hba : b = a
      · subst hba; simp at hb
      · rw [Function.update_of_ne hba] at hb; exact h.lt_next hb
    addr_unique := fun {b c j y z} hb hc => by
      have hba : b ≠ a := by rintro rfl; simp at hb
      have hca : c ≠ a := by rintro rfl; simp at hc
      rw [Function.update_of_ne hba] at hb
      rw [Function.update_of_ne hca] at hc
      exact h.addr_unique hb hc
    freed_lt := fun {j} hj => by
      rcases List.mem_cons.mp hj with rfl | hj
      · exact h.lt_next ha
      · exact h.freed_lt hj
    freed_nodup := List.nodup_cons.mpr ⟨h.live_not_freed ha, h.freed_nodup⟩
    live_or_freed := fun {j} hj => by
      rcases h.live_or_freed hj with hf | ⟨b, y, hb⟩
      · exact .inl (List.mem_cons_of_mem _ hf)
      · by_cases hba : b = a
        · subst hba; rw [ha] at hb; cases hb; exact .inl List.mem_cons_self
        · exact .inr ⟨b, y, by rw [Function.update_of_ne hba]; exact hb⟩
    live_not_freed := fun {b j y} hb => by
      have hba : b ≠ a := by rintro rfl; simp at hb
      rw [Function.update_of_ne hba] at hb
      intro hj
      rcases List.mem_cons.mp hj with rfl | hj
      · exact hba (h.addr_unique hb ha)
      · exact h.live_not_freed hb hj }

/-- Some address holds no block: there are no more live blocks than stamps. -/
theorem exists_unused (h : BlockHeap α) : ∃ a, h.cells a = none := by
  by_contra hall
  have hlive : ∀ a, ∃ c, h.cells a = some c := by simpa [Option.ne_none_iff_exists'] using hall
  choose c hc using hlive
  -- the first `next + 1` addresses would have as many stamps below `next`
  have hmaps : ∀ a ∈ Finset.range (h.next + 1), (c a).1 ∈ Finset.range h.next :=
    fun a _ => Finset.mem_range.mpr (h.lt_next (hc a))
  obtain ⟨a, _, b, _, hne, heq⟩ :=
    Finset.exists_ne_map_eq_of_card_lt_of_maps_to (by simp) hmaps
  have hb : h.cells b = some ((c a).1, (c b).2) := by rw [hc b, heq]
  exact hne (h.addr_unique (hc a) hb)

/-- The number of live blocks. -/
def size (h : BlockHeap α) : Nat := h.next - h.freed.length

theorem exists_live (hn : h.size ≠ 0) : ∃ a i x, h.cells a = some (i, x) := by
  by_contra hall
  have hnone : ∀ {a i x}, h.cells a ≠ some (i, x) := fun ha => hall ⟨_, _, _, ha⟩
  -- otherwise every stamp is freed
  have hsub : List.range h.next ⊆ h.freed := by
    intro i hi
    rcases h.live_or_freed (List.mem_range.mp hi) with hf | ⟨a, x, ha⟩
    · exact hf
    · exact (hnone ha).elim
  have hle := (List.nodup_range.subperm hsub).length_le
  rw [List.length_range] at hle
  exact hn (Nat.sub_eq_zero_of_le hle)

theorem cells_of_size (hn : h.size = 0) (a : Nat) : h.cells a = none := by
  cases ha : h.cells a with
  | none => rfl
  | some c =>
    have hsub : c.1 :: h.freed ⊆ List.range h.next := by
      intro i hi
      rw [List.mem_range]
      rcases List.mem_cons.mp hi with rfl | hi
      · exact h.lt_next ha
      · exact h.freed_lt hi
    have hnd : (c.1 :: h.freed).Nodup := List.nodup_cons.mpr ⟨h.live_not_freed ha, h.freed_nodup⟩
    have hle := (hnd.subperm hsub).length_le
    rw [List.length_range, List.length_cons] at hle
    rw [size] at hn
    omega

/-! ## Reading a heap after an operation -/

section alloc
variable (ha : h.cells a = none)

@[simp] theorem alloc_cells_self : (h.alloc a x ha).cells a = some (h.next, x) := by simp [alloc]

theorem alloc_cells_of_ne (hb : b ≠ a) : (h.alloc a x ha).cells b = h.cells b := by
  simp [alloc, Function.update_of_ne hb]

theorem alloc_cells_of_some (hb : h.cells b = some (i, y)) :
    (h.alloc a x ha).cells b = some (i, y) := by
  rw [alloc_cells_of_ne, hb]
  rintro rfl
  rw [ha] at hb; cases hb

theorem alloc_cells_eq_some (hb : (h.alloc a x ha).cells b = some (i, y)) :
    (b = a ∧ i = h.next ∧ y = x) ∨ (b ≠ a ∧ h.cells b = some (i, y)) := by
  by_cases hba : b = a
  · subst hba; simp at hb; exact .inl ⟨rfl, hb.1.symm, hb.2.symm⟩
  · rw [alloc_cells_of_ne ha hba] at hb; exact .inr ⟨hba, hb⟩

theorem alloc_isSome_iff : ((h.alloc a x ha).cells b).isSome ↔ (h.cells b).isSome ∨ b = a := by
  by_cases hba : b = a
  · subst hba; simp
  · simp [alloc_cells_of_ne ha hba, hba]

@[simp] theorem alloc_next : (h.alloc a x ha).next = h.next + 1 := rfl

end alloc

theorem modify_cells_self : (h.modify a f).cells a = (h.cells a).map fun c => (c.1, f c.2) := by
  simp [modify]

theorem modify_cells_of_ne (hb : b ≠ a) : (h.modify a f).cells b = h.cells b := by
  simp [modify, Function.update_of_ne hb]

theorem modify_cells_of_live (ha : h.cells a = some (i, x)) :
    (h.modify a f).cells a = some (i, f x) := by simp [modify_cells_self, ha]

theorem modify_cells_eq_some (hb : (h.modify a f).cells b = some (i, y)) :
    (b = a ∧ ∃ x, h.cells a = some (i, x) ∧ y = f x) ∨ (b ≠ a ∧ h.cells b = some (i, y)) := by
  by_cases hba : b = a
  · subst hba; simp [modify_cells_self] at hb
    obtain ⟨x, hx, rfl⟩ := hb
    exact .inl ⟨rfl, x, hx, rfl⟩
  · rw [modify_cells_of_ne hba] at hb; exact .inr ⟨hba, hb⟩

theorem modify_cells_isSome : ((h.modify a f).cells b).isSome = (h.cells b).isSome := by
  by_cases hba : b = a
  · subst hba; simp [modify_cells_self]
  · rw [modify_cells_of_ne hba]

theorem free_cells : (h.free a).cells = Function.update h.cells a none := by
  unfold free
  split
  · rename_i ha; rw [← ha, Function.update_eq_self]
  · rfl

theorem free_cells_eq_some {c : Nat × α} :
    (h.free a).cells b = some c ↔ b ≠ a ∧ h.cells b = some c := by
  rw [free_cells]
  by_cases hba : b = a
  · subst hba; simp
  · simp [hba]

theorem free_freed (ha : h.cells a = some (i, x)) : (h.free a).freed = i :: h.freed := by
  unfold free; split <;> simp_all

theorem mem_free_freed : j ∈ (h.free a).freed ↔ j ∈ h.freed ∨ ∃ x, h.cells a = some (j, x) := by
  unfold free
  split
  · simp_all
  · rename_i i x ha
    simp only [List.mem_cons, ha, Option.some.injEq, Prod.mk.injEq, exists_and_left, exists_eq',
      and_true]
    rw [or_comm, eq_comm]

@[simp] theorem free_next : (h.free a).next = h.next := by
  unfold free; split <;> rfl

theorem size_free (ha : h.cells a = some (i, x)) : (h.free a).size + 1 = h.size := by
  have hpos : h.size ≠ 0 := by
    intro h0
    rw [h.cells_of_size h0 a] at ha
    cases ha
  rw [size] at hpos
  rw [size, size, free_next, free_freed ha, List.length_cons]
  omega

theorem free_invalidFrees (ha : (h.cells a).isSome) : (h.free a).invalidFrees = h.invalidFrees := by
  unfold free; split <;> simp_all

theorem free_isSome_iff : ((h.free a).cells b).isSome ↔ (h.cells b).isSome ∧ b ≠ a := by
  simp only [Option.isSome_iff_exists, free_cells_eq_some, exists_and_left, and_comm]

/-- `if (p) free(p)`. -/
def freeOpt (h : BlockHeap α) : Option Nat → BlockHeap α
  | none => h
  | some a => h.free a

theorem freeOpt_cells_eq_some {r : Option Nat} {c : Nat × α} :
    (h.freeOpt r).cells b = some c ↔ r ≠ some b ∧ h.cells b = some c := by
  cases r with
  | none => simp [freeOpt]
  | some a =>
    rw [freeOpt, free_cells_eq_some, ne_comm]
    simp only [ne_eq, Option.some.injEq]

theorem freeOpt_isSome_iff {r : Option Nat} :
    ((h.freeOpt r).cells b).isSome ↔ (h.cells b).isSome ∧ b ∉ r.toList := by
  simp only [Option.isSome_iff_exists, freeOpt_cells_eq_some, exists_and_left, and_comm, ne_eq,
    Option.mem_toList]

theorem mem_freeOpt_freed {r : Option Nat} :
    j ∈ (h.freeOpt r).freed ↔ j ∈ h.freed ∨ ∃ b x, r = some b ∧ h.cells b = some (j, x) := by
  cases r with
  | none => simp [freeOpt]
  | some a => simp [freeOpt, mem_free_freed]

theorem freeOpt_invalidFrees {r : Option Nat} (hr : ∀ a ∈ r, (h.cells a).isSome) :
    (h.freeOpt r).invalidFrees = h.invalidFrees := by
  cases r with
  | none => rfl
  | some a => exact free_invalidFrees (hr a rfl)

/-! ## Stamps -/

/-- The stamp of the block at `a`. -/
def stamp (h : BlockHeap α) (a : Nat) : Option Nat := (h.cells a).map (·.1)

theorem stamp_of_live (ha : h.cells a = some (i, x)) : h.stamp a = some i := by simp [stamp, ha]

theorem alloc_stamp_of_ne (ha : h.cells a = none) (hb : b ≠ a) :
    (h.alloc a x ha).stamp b = h.stamp b := by rw [stamp, alloc_cells_of_ne ha hb, stamp]

theorem free_stamp_of_ne (hb : b ≠ a) : (h.free a).stamp b = h.stamp b := by
  rw [stamp, free_cells, Function.update_of_ne hb, stamp]

@[simp] theorem modify_stamp : (h.modify a f).stamp b = h.stamp b := by
  by_cases hb : b = a
  · subst hb
    rw [stamp, modify_cells_self, stamp, Option.map_map]
    rfl
  · rw [stamp, modify_cells_of_ne hb, stamp]

/-- The stamps of the blocks at some addresses, in order. -/
def stamps (h : BlockHeap α) (as : List Nat) : List Nat := as.filterMap h.stamp

@[simp] theorem stamps_nil : h.stamps [] = [] := rfl

theorem stamps_cons {as : List Nat} (ha : h.cells a = some (i, x)) :
    h.stamps (a :: as) = i :: h.stamps as := by
  rw [stamps, List.filterMap_cons, stamp_of_live ha, stamps]

theorem stamps_snoc {as : List Nat} (ha : h.cells a = some (i, x)) :
    h.stamps (as ++ [a]) = h.stamps as ++ [i] := by
  simp [stamps, stamp_of_live ha]

theorem stamps_congr {h' : BlockHeap α} {as : List Nat} (H : ∀ a ∈ as, h'.stamp a = h.stamp a) :
    h'.stamps as = h.stamps as := List.filterMap_congr H

end BlockHeap
