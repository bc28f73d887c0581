import Mathlib.Data.List.Induction
import Mathlib.Logic.Function.Basic

/-!
# Intrusive queues with a tail cell

Several singly linked lists share one `next` field per node. A list is given by its `first` pointer
and by `last`, the address of the cell that the next append writes: the list's own `first` cell
while it is empty, the `next` cell of its final node otherwise.

`Links.Rep m A` says that `m` represents the family `A` of abstract queues. Appending a node that
is in no list, removing the head of a list and emptying a list keep it, with `snoc`, `uncons` and
`nil` on the one queue concerned.
-/

namespace TailQueue

/-- A cell that holds a node pointer. -/
inductive Cell (ι α : Type*) where
  | first (i : ι)
  | next (a : α)
  deriving DecidableEq

/-- The pointers: `next` of every node, `first` and `last` of every list. -/
structure Links (ι α : Type*) where
  next : α → Option α
  first : ι → Option α
  last : ι → Cell ι α

/-- The cell to write after the nodes `as` of list `i`. -/
def lastCell (i : ι) (as : List α) : Cell ι α :=
  match as.getLast? with
  | none => .first i
  | some a => .next a

@[simp] theorem lastCell_nil : lastCell i ([] : List α) = .first i := rfl
@[simp] theorem lastCell_snoc (i : ι) (as : List α) (a : α) :
    lastCell i (as ++ [a]) = .next a := by simp [lastCell]

theorem lastCell_cons_cons (i : ι) (a b : α) (as : List α) :
    lastCell i (a :: b :: as) = lastCell i (b :: as) := by simp [lastCell]

/-- Following `next` from `h` visits exactly `as`, in order, and ends in a null pointer. -/
inductive Chain (next : α → Option α) : Option α → List α → Prop where
  | nil : Chain next none []
  | cons : Chain next (next a) as → Chain next (some a) (a :: as)

namespace Chain
variable {next next' : α → Option α} {h : Option α} {as bs : List α} {a b : α}

/-- A chain reads only the `next` fields of its own nodes. -/
theorem congr (H : Chain next h as) (hn : ∀ x ∈ as, next' x = next x) : Chain next' h as := by
  induction H with
  | nil => exact .nil
  | @cons a as _ ih =>
    refine .cons ?_
    rw [hn a List.mem_cons_self]
    exact ih fun x hx => hn x (List.mem_cons_of_mem _ hx)

/-- The nodes visited from a pointer are determined by it. -/
theorem unique (H : Chain next h as) (K : Chain next h bs) : as = bs := by
  induction H generalizing bs with
  | nil => cases K; rfl
  | cons _ ih => cases K with | cons K => rw [ih K]

theorem none_eq (H : Chain next none as) : as = [] := by cases H; rfl

theorem some_eq (H : Chain next (some a) as) : ∃ bs, as = a :: bs ∧ Chain next (next a) bs := by
  cases H with | cons H => exact ⟨_, rfl, H⟩

/-- Writing `a` behind the final node extends the chain by `a`. -/
theorem snoc (H : Chain next h (as ++ [b])) (hn : ∀ x ∈ as, next' x = next x)
    (hb : next' b = some a) (ha : next' a = none) : Chain next' h (as ++ [b, a]) := by
  induction as generalizing h with
  | nil =>
    cases H with
    | cons H =>
      refine .cons ?_
      rw [hb]; refine .cons ?_
      rw [ha]; exact .nil
  | cons c as ih =>
    cases H with
    | cons H =>
      refine .cons ?_
      rw [hn c List.mem_cons_self]
      exact ih H fun x hx => hn x (List.mem_cons_of_mem _ hx)

end Chain

namespace Links
variable {ι α : Type*} {m : Links ι α} {A : ι → List α} {i j : ι} {a : α}

/-- `m` represents the queues `A`, no two of which share a node. -/
structure Rep (m : Links ι α) (A : ι → List α) : Prop where
  chain : ∀ i, Chain m.next (m.first i) (A i)
  last : ∀ i, m.last i = lastCell i (A i)
  nodup : ∀ i, (A i).Nodup
  disjoint : ∀ {i j a}, a ∈ A i → a ∈ A j → i = j

/-- `a` is reachable from the `first` pointer of list `i`. -/
def Linked (m : Links ι α) (i : ι) (a : α) : Prop :=
  ∃ as, Chain m.next (m.first i) as ∧ a ∈ as

theorem Rep.linked_iff (H : m.Rep A) : m.Linked i a ↔ a ∈ A i := by
  constructor
  · rintro ⟨as, hc, ha⟩
    rwa [(H.chain i).unique hc]
  · exact fun ha => ⟨A i, H.chain i, ha⟩

variable [DecidableEq ι] [DecidableEq α]

/-- Store a pointer in a cell. -/
def write (m : Links ι α) (c : Cell ι α) (v : Option α) : Links ι α :=
  match c with
  | .first i => { m with first := Function.update m.first i v }
  | .next a => { m with next := Function.update m.next a v }

/-- `first := NULL; last := &first`. -/
def init (m : Links ι α) (i : ι) : Links ι α :=
  { m with
    first := Function.update m.first i none
    last := Function.update m.last i (.first i) }

/-- `a->next := NULL; *last := a; last := &a->next`. -/
def append (m : Links ι α) (i : ι) (a : α) : Links ι α :=
  let m := m.write (.next a) none
  let m := m.write (m.last i) (some a)
  { m with last := Function.update m.last i (.next a) }

/-- `a := first; first := a->next`, and `last := &first` if that emptied the list. The removed node
keeps its `next`. -/
def pop (m : Links ι α) (i : ι) : Option (α × Links ι α) :=
  match m.first i with
  | none => none
  | some a =>
    let m := m.write (.first i) (m.next a)
    match m.first i with
    | none => some (a, { m with last := Function.update m.last i (.first i) })
    | some _ => some (a, m)

/-! ## The operations refine `snoc`, `uncons` and `nil` -/

omit [DecidableEq α] in
theorem Rep.init (H : m.Rep A) : (m.init i).Rep (Function.update A i []) where
  chain j := by
    by_cases hj : j = i
    · subst hj; simpa [Links.init] using Chain.nil
    · simpa [Links.init, Function.update_of_ne hj] using H.chain j
  last j := by
    by_cases hj : j = i
    · subst hj; simp [Links.init]
    · simpa [Links.init, Function.update_of_ne hj] using H.last j
  nodup j := by
    by_cases hj : j = i
    · subst hj; simp
    · simpa [Function.update_of_ne hj] using H.nodup j
  disjoint {j k a} hj hk := by
    have hji : j ≠ i := by rintro rfl; simp at hj
    have hki : k ≠ i := by rintro rfl; simp at hk
    rw [Function.update_of_ne hji] at hj
    rw [Function.update_of_ne hki] at hk
    exact H.disjoint hj hk

theorem append_last : (m.append i a).last = Function.update m.last i (.next a) := by
  simp only [append, write]
  split <;> rfl

theorem append_first_of_ne (hj : j ≠ i) (h : m.last i = lastCell i as) :
    (m.append i a).first j = m.first j := by
  have hl : (m.write (.next a) none).last i = lastCell i as := h
  simp only [append, hl]
  rcases List.eq_nil_or_concat as with rfl | ⟨bs, b, rfl⟩
  · simp [write, Function.update_of_ne hj]
  · simp [write]

/-- Appending writes the `next` cells of the new node and of the old final node only. -/
theorem append_next_of_notMem {as : List α} {x : α} (h : m.last i = lastCell i as) (hx : x ∉ as)
    (hxa : x ≠ a) : (m.append i a).next x = m.next x := by
  have hl : (m.write (.next a) none).last i = lastCell i as := h
  simp only [append, hl]
  rcases List.eq_nil_or_concat as with rfl | ⟨bs, b, rfl⟩
  · simp [write, Function.update_of_ne hxa]
  · have hxb : x ≠ b := by rintro rfl; simp at hx
    simp [write, Function.update_of_ne hxb, Function.update_of_ne hxa]

theorem append_chain (H : m.Rep A) (ha : a ∉ A i) :
    Chain (m.append i a).next ((m.append i a).first i) (A i ++ [a]) := by
  have hc := H.chain i
  have hnd := H.nodup i
  have hl := H.last i
  rcases List.eq_nil_or_concat (A i) with h | ⟨bs, b, h⟩
  · -- an empty list: `last` is `&first`, the write makes `a` the head
    rw [h] at hl ⊢
    simp only [append, write, hl, lastCell_nil, Function.update_self]
    refine .cons ?_
    rw [Function.update_self]
    exact .nil
  · -- a non-empty list: the write goes to the `next` cell of the final node `b`
    rw [List.concat_eq_append] at h
    rw [h] at hl hc hnd ha ⊢
    simp only [append, write, hl, lastCell_snoc, List.append_assoc, List.singleton_append]
    have hba : a ≠ b := by rintro rfl; simp at ha
    have hab : a ∉ bs := by simp at ha; exact ha.1
    have hbb : b ∉ bs := by
      intro hb; simp [List.nodup_append] at hnd; exact hnd.2 b hb rfl
    refine hc.snoc (fun x hx => ?_) (Function.update_self ..) ?_
    · have hxb : x ≠ b := by rintro rfl; exact hbb hx
      have hxa : x ≠ a := by rintro rfl; exact hab hx
      rw [Function.update_of_ne hxb, Function.update_of_ne hxa]
    · rw [Function.update_of_ne hba, Function.update_self]

theorem Rep.append (H : m.Rep A) (ha : ∀ j, a ∉ A j) :
    (m.append i a).Rep (Function.update A i (A i ++ [a])) where
  chain j := by
    by_cases hj : j = i
    · subst hj; simpa using append_chain H (ha j)
    · rw [Function.update_of_ne hj, append_first_of_ne hj (H.last i)]
      refine (H.chain j).congr fun x hx => append_next_of_notMem (H.last i) ?_ ?_
      · intro hxi; exact hj (H.disjoint hx hxi)
      · rintro rfl; exact ha j hx
  last j := by
    rw [append_last]
    by_cases hj : j = i
    · subst hj; simp
    · simpa [Function.update_of_ne hj] using H.last j
  nodup j := by
    by_cases hj : j = i
    · subst hj
      rw [Function.update_self, List.nodup_append]
      refine ⟨H.nodup j, by simp, fun x hx y hy => ?_⟩
      cases List.mem_singleton.mp hy
      rintro rfl
      exact ha j hx
    · simpa [Function.update_of_ne hj] using H.nodup j
  disjoint {j k x} hj hk := by
    -- the new node is only in list `i`, every other node is where it was
    have key : ∀ {l}, x ∈ Function.update A i (A i ++ [a]) l → (x = a ∧ l = i) ∨ x ∈ A l := by
      intro l hl
      by_cases hli : l = i
      · subst hli
        rw [Function.update_self, List.mem_append, List.mem_singleton] at hl
        exact hl.symm.imp (⟨·, rfl⟩) id
      · rw [Function.update_of_ne hli] at hl; exact .inr hl
    rcases key hj with ⟨rfl, rfl⟩ | hj <;> rcases key hk with ⟨hxa, rfl⟩ | hk
    · rfl
    · exact (ha _ hk).elim
    · exact (ha _ (hxa ▸ ‹x ∈ A _›)).elim
    · exact H.disjoint hj hk

theorem Rep.pop_none_iff (H : m.Rep A) : m.pop i = none ↔ A i = [] := by
  have hc := H.chain i
  unfold pop
  cases hf : m.first i with
  | none => rw [hf] at hc; simp [hc.none_eq]
  | some a =>
    rw [hf] at hc
    obtain ⟨bs, h, _⟩ := hc.some_eq
    rw [h]
    cases hn : m.next a <;> simp [write, hn]

/-- Removing the head of list `i`. `last` is reset exactly when the list became empty, although the
removed node still points to its old successor. -/
theorem Rep.pop {m' : Links ι α} (H : m.Rep A) (hp : m.pop i = some (a, m')) :
    ∃ as, A i = a :: as ∧ m'.Rep (Function.update A i as) := by
  have hc := H.chain i
  have hl := H.last i
  have hnd := H.nodup i
  unfold Links.pop at hp
  cases hf : m.first i with
  | none => simp [hf] at hp
  | some b =>
    rw [hf] at hc
    obtain ⟨as, h, hbs⟩ := hc.some_eq
    have hshape : m'.next = m.next ∧ m'.first = Function.update m.first i (m.next b) ∧
        m'.last = Function.update m.last i (lastCell i as) ∧ a = b := by
      cases hn : m.next b with
      | none =>
        rw [hn] at hbs
        cases hbs.none_eq
        simp only [hf, write, hn, Function.update_self, Option.some.injEq, Prod.mk.injEq] at hp
        obtain ⟨rfl, rfl⟩ := hp
        exact ⟨rfl, rfl, rfl, rfl⟩
      | some c =>
        rw [hn] at hbs
        obtain ⟨cs, rfl, _⟩ := hbs.some_eq
        simp only [hf, write, hn, Function.update_self, Option.some.injEq, Prod.mk.injEq] at hp
        obtain ⟨rfl, rfl⟩ := hp
        refine ⟨rfl, rfl, ?_, rfl⟩
        rw [h, lastCell_cons_cons] at hl
        rw [← hl, Function.update_eq_self]
    obtain ⟨hnext, hfirst, hlast, rfl⟩ := hshape
    refine ⟨as, h, ?_, ?_, ?_, ?_⟩
    · intro j
      rw [hnext, hfirst]
      by_cases hj : j = i
      · subst hj; simpa using hbs
      · simpa [Function.update_of_ne hj] using H.chain j
    · intro j
      rw [hlast]
      by_cases hj : j = i
      · subst hj; simp
      · simpa [Function.update_of_ne hj] using H.last j
    · intro j
      by_cases hj : j = i
      · subst hj; rw [h] at hnd; simpa using (List.nodup_cons.mp hnd).2
      · simpa [Function.update_of_ne hj] using H.nodup j
    · have key : ∀ {l x}, x ∈ Function.update A i as l → x ∈ A l := by
        intro l x hx
        by_cases hli : l = i
        · subst hli; rw [h]; rw [Function.update_self] at hx; exact List.mem_cons_of_mem _ hx
        · rwa [Function.update_of_ne hli] at hx
      intro j k x hj hk
      exact H.disjoint (key hj) (key hk)

end Links
end TailQueue
