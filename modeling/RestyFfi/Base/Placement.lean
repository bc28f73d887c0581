import Mathlib.Data.List.Nodup

/-!
# Ownership of live things

A `Placement` says that every live thing stands in exactly one of some lists, once, and that
nothing else stands there. A list may give things up (`shrink`), take on new ones (`grow`), or hand
them to another list (`move`).
-/

/-- Every live thing is in exactly one list, once; whatever is in a list is live. -/
structure Placement {ι : Type u} {α : Type v} (items : ι → List α) (live : α → Prop) : Prop where
  nodup : ∀ p, (items p).Nodup
  unique : ∀ {p r a}, a ∈ items p → a ∈ items r → p = r
  live_iff : ∀ {a}, live a ↔ ∃ p, a ∈ items p

namespace Placement
variable {ι : Type u} {α : Type v} {items items' : ι → List α} {live live' : α → Prop} {p r : ι}
  {l : List α} {a : α}

theorem empty (hi : ∀ p, items p = []) (hl : ∀ a, ¬ live a) : Placement items live where
  nodup p := by simp [hi]
  unique h := by simp [hi] at h
  live_iff {a} := by simp [hi, hl]

theorem live_of_mem (P : Placement items live) (h : a ∈ items p) : live a := P.live_iff.mpr ⟨p, h⟩

theorem existsUnique (P : Placement items live) (h : live a) : ∃! p, a ∈ items p := by
  obtain ⟨p, hp⟩ := P.live_iff.mp h
  exact ⟨p, hp, fun _ hp' => P.unique hp' hp⟩

theorem congr (P : Placement items live) (hi : ∀ p, items' p = items p)
    (hl : ∀ a, live' a ↔ live a) : Placement items' live' where
  nodup p := by rw [hi]; exact P.nodup p
  unique h h' := by rw [hi] at h h'; exact P.unique h h'
  live_iff {a} := by simp only [hl, hi]; exact P.live_iff

/-- The list `p` gives up `l`, and nothing in `l` is live any more. -/
theorem shrink (P : Placement items live) (hp : (items p).Perm (l ++ items' p))
    (hne : ∀ p', p' ≠ p → items' p' = items p') (hl : ∀ a, live' a ↔ live a ∧ a ∉ l) :
    Placement items' live' := by
  have hnd : (l ++ items' p).Nodup := hp.nodup_iff.mp (P.nodup p)
  have hmem : ∀ {r a}, a ∈ items' r ↔ a ∈ items r ∧ a ∉ l := by
    intro r a
    by_cases hr : r = p
    · subst hr
      rw [hp.mem_iff, List.mem_append]
      have := List.disjoint_of_nodup_append hnd (a := a)
      tauto
    · rw [hne r hr]
      refine ⟨fun h => ⟨h, fun hal => hr (P.unique h (hp.mem_iff.mpr ?_))⟩, And.left⟩
      exact List.mem_append_left _ hal
  refine ⟨fun r => ?_, fun h h' => P.unique (hmem.mp h).1 (hmem.mp h').1, fun {a} => ?_⟩
  · by_cases hr : r = p
    · subst hr; exact hnd.of_append_right
    · rw [hne r hr]; exact P.nodup r
  · simp only [hl, hmem, P.live_iff, exists_and_right]

/-- The list `p` takes on `l`, whose elements were not live. -/
theorem grow (P : Placement items live) (hnd : l.Nodup) (hnew : ∀ a ∈ l, ¬ live a)
    (hp : (items' p).Perm (l ++ items p)) (hne : ∀ p', p' ≠ p → items' p' = items p')
    (hl : ∀ a, live' a ↔ live a ∨ a ∈ l) : Placement items' live' := by
  have hold : ∀ {r a}, a ∈ items r → a ∉ l := fun h hal => hnew _ hal (P.live_of_mem h)
  have hmem : ∀ {r a}, a ∈ items' r ↔ a ∈ items r ∨ (r = p ∧ a ∈ l) := by
    intro r a
    by_cases hr : r = p
    · subst hr
      rw [hp.mem_iff, List.mem_append]
      tauto
    · rw [hne r hr]; tauto
  refine ⟨fun r => ?_, fun {r r' a} h h' => ?_, fun {a} => ?_⟩
  · by_cases hr : r = p
    · subst hr
      rw [hp.nodup_iff, List.nodup_append']
      exact ⟨hnd, P.nodup r, fun a hal ha => hold ha hal⟩
    · rw [hne r hr]; exact P.nodup r
  · rcases hmem.mp h with h | ⟨rfl, h⟩ <;> rcases hmem.mp h' with h' | ⟨rfl, h'⟩
    · exact P.unique h h'
    · exact (hold h h').elim
    · exact (hold h' h).elim
    · rfl
  · simp only [hl, hmem, P.live_iff]
    constructor
    · rintro (⟨r, hr⟩ | ha)
      · exact ⟨r, .inl hr⟩
      · exact ⟨p, .inr ⟨rfl, ha⟩⟩
    · rintro ⟨r, hr | ⟨_, ha⟩⟩
      · exact .inl ⟨r, hr⟩
      · exact .inr ha

/-- The list `p` hands `l` to the list `r`. -/
theorem move (P : Placement items live) (hpr : p ≠ r) (hp : (items p).Perm (l ++ items' p))
    (hr : (items' r).Perm (l ++ items r)) (hne : ∀ x, x ≠ p → x ≠ r → items' x = items x)
    (hl : ∀ a, live' a ↔ live a) : Placement items' live' := by
  classical
  have hnd : (l ++ items' p).Nodup := hp.nodup_iff.mp (P.nodup p)
  have hlive : ∀ {a}, a ∈ l → live a := fun h =>
    P.live_of_mem (hp.mem_iff.mpr (List.mem_append_left _ h))
  -- in between `l` is in no list
  have P₁ : Placement (Function.update items p (items' p)) (fun a => live a ∧ a ∉ l) := by
    refine P.shrink (p := p) (l := l) ?_ (fun x hx => Function.update_of_ne hx ..) fun _ => .rfl
    rw [Function.update_self]
    exact hp
  refine P₁.grow (p := r) hnd.of_append_left (fun a hal h => h.2 hal) ?_ (fun x hx => ?_)
    fun a => ?_
  · rw [Function.update_of_ne hpr.symm]; exact hr
  · by_cases hxp : x = p
    · subst hxp; rw [Function.update_self]
    · rw [Function.update_of_ne hxp]; exact hne x hxp hx
  · rw [hl]
    have := hlive (a := a)
    tauto

end Placement
