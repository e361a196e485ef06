import Mathlib.Data.List.Basic

/-!
# Tables of parties

A system with any number of parties keeps them in a list.  A party joins at
the end of the list and keeps its number; a step of one party replaces its
entry.

## Main results

* `snoc_cases`, `set_cases` — the entries after either.
* `Family.join`, `Family.set` — a property of every party under its number.
-/

namespace ZenohPicoPerf.Foundation.Table

variable {α β : Type*}

theorem snoc_cases {xs : List α} {x y : α} {i : Nat}
    (h : (xs ++ [x])[i]? = some y) :
    xs[i]? = some y ∨ i = xs.length ∧ y = x := by
  rcases Nat.lt_or_ge i xs.length with hlt | hge
  · rw [List.getElem?_append_left hlt] at h
    exact Or.inl h
  · have hi := (List.getElem?_eq_some_iff.mp h).1
    rw [List.getElem?_append_right hge] at h
    refine Or.inr ⟨?_, List.mem_singleton.mp (List.mem_of_getElem? h)⟩
    rw [List.length_append, List.length_singleton] at hi
    omega

theorem set_cases {xs : List α} {i j : Nat} {y z : α}
    (h : (xs.set i y)[j]? = some z) :
    j = i ∧ z = y ∨ j ≠ i ∧ xs[j]? = some z := by
  by_cases hj : j = i
  · subst hj
    have hlt := (List.getElem?_eq_some_iff.mp h).1
    rw [List.length_set] at hlt
    rw [List.getElem?_set_self hlt] at h
    exact Or.inl ⟨rfl, (Option.some.inj h).symm⟩
  · rw [List.getElem?_set_ne (Ne.symm hj)] at h
    exact Or.inr ⟨hj, h⟩

theorem forall_set {P : α → Prop} {xs : List α} (h : ∀ x ∈ xs, P x) {y : α}
    (hy : P y) (i : Nat) : ∀ x ∈ xs.set i y, P x := by
  intro x hx
  rcases List.mem_or_eq_of_mem_set hx with hmem | rfl
  · exact h x hmem
  · exact hy

/-- Replacing an entry by one with the same image. -/
theorem map_set_same {f : α → β} {xs : List α} {i : Nat} {x y : α}
    (hx : xs[i]? = some x) (hf : f y = f x) :
    (xs.set i y).map f = xs.map f := by
  have hentry : (xs.map f)[i]? = some (f x) := by simp [hx]
  obtain ⟨hlt, hget⟩ := List.getElem?_eq_some_iff.mp hentry
  rw [List.map_set, hf, ← hget]
  exact List.set_getElem_self hlt

/-- Every entry has `P` with its number, and every number that is not given
out yet has `A`. -/
structure Family (P : Nat → α → Prop) (A : Nat → Prop) (xs : List α) :
    Prop where
  entries : ∀ i x, xs[i]? = some x → P i x
  absent : ∀ i, xs.length ≤ i → A i

section Family

variable {P P' : Nat → α → Prop} {A A' : Nat → Prop} {xs : List α}

/-- What held of the others holds after the step, and what is new of the one
that joined follows from its number being free. -/
theorem Family.join (h : Family P A xs) (hP : ∀ i x, P i x → P' i x)
    (hA : ∀ i, A i → A' i) {x : α} (hx : ∀ i, A i → P' i x) :
    Family P' A' (xs ++ [x]) where
  entries := by
    intro i y hy
    rcases snoc_cases hy with hold | ⟨rfl, rfl⟩
    · exact hP i y (h.entries i y hold)
    · exact hx _ (h.absent _ (Nat.le_refl _))
  absent := by
    intro i hi
    rw [List.length_append] at hi
    exact hA i (h.absent i (Nat.le_of_add_right_le hi))

theorem Family.set (h : Family P A xs) {i : Nat} {x y : α}
    (hx : xs[i]? = some x) (hP : ∀ j z, j ≠ i → P j z → P' j z)
    (hA : ∀ j, j ≠ i → A j → A' j) (hy : P' i y) :
    Family P' A' (xs.set i y) where
  entries := by
    intro j z hz
    rcases set_cases hz with ⟨rfl, rfl⟩ | ⟨hj, hold⟩
    · exact hy
    · exact hP j z hj (h.entries j z hold)
  absent := by
    intro j hj
    rw [List.length_set] at hj
    have hi := (List.getElem?_eq_some_iff.mp hx).1
    exact hA j (by omega) (h.absent j hj)

end Family

end ZenohPicoPerf.Foundation.Table
