import Mathlib.Algebra.GroupWithZero.Nat
import Mathlib.Data.List.Basic

/-!
# First and last elements of consecutive complete blocks

A list is cut from the left into blocks of `gap + 1` elements; an incomplete
block at the end is ignored.  `blockEnds gap xs` lists the first and the last
element of every complete block, so the two are `gap` positions apart.  The
lemmas say how the list of block ends grows when one element is appended,
which is what an incremental counter that opens and closes blocks needs.
`segSum` adds up a segment of a list of numbers.
-/

namespace ZenohPicoPerf.Foundation.Blocks

variable {τ : Type*}

/-! ## Counting modulo the block length -/

theorem succ_mod_of_lt {n m : Nat} (h : n % m + 1 < m) :
    (n + 1) % m = n % m + 1 := by
  rw [Nat.add_mod, Nat.mod_eq_of_lt (show 1 < m by omega), Nat.mod_eq_of_lt h]

theorem succ_mod_of_eq {n m : Nat} (h : n % m + 1 = m) :
    (n + 1) % m = 0 := by
  rcases Nat.lt_or_ge 1 m with hm | hm
  · rw [Nat.add_mod, Nat.mod_eq_of_lt hm, h, Nat.mod_self]
  · obtain rfl : m = 1 := by omega
    exact Nat.mod_one _

/-- When a block is completed, its first position is a multiple of the block
length. -/
theorem first_position {n gap : Nat} (h : n % (gap + 1) = gap) :
    n - gap = n / (gap + 1) * (gap + 1) := by
  have hdiv := Nat.div_add_mod' n (gap + 1)
  omega

/-! ## Block ends -/

/-- The first and last elements of the consecutive complete blocks of
`gap + 1` elements. -/
def blockEnds (gap : Nat) (xs : List τ) : List (τ × τ) :=
  (List.range (xs.length / (gap + 1))).filterMap fun k =>
    (xs[k * (gap + 1)]?).bind fun a =>
      (xs[k * (gap + 1) + gap]?).map fun b => (a, b)

@[simp] theorem blockEnds_nil (gap : Nat) :
    blockEnds gap ([] : List τ) = [] := by
  simp [blockEnds]

/-- Inside the complete blocks every position exists. -/
theorem block_position_lt {n gap k : Nat} (hk : k < n / (gap + 1)) :
    k * (gap + 1) + gap < n := by
  have hle : (k + 1) * (gap + 1) ≤ n / (gap + 1) * (gap + 1) :=
    Nat.mul_le_mul_right _ hk
  have hdiv := Nat.div_mul_le_self n (gap + 1)
  have hsucc : (k + 1) * (gap + 1) = k * (gap + 1) + (gap + 1) :=
    Nat.succ_mul k (gap + 1)
  omega

/-- An element that completes no block changes nothing. -/
theorem blockEnds_snoc_of_open {gap : Nat} {xs : List τ} (x : τ)
    (h : xs.length % (gap + 1) < gap) :
    blockEnds gap (xs ++ [x]) = blockEnds gap xs := by
  have hmod : (xs.length + 1) % (gap + 1) ≠ 0 := by
    rw [succ_mod_of_lt (by omega)]
    omega
  unfold blockEnds
  rw [List.length_append, List.length_singleton,
    Nat.succ_div_of_mod_ne_zero hmod]
  apply List.filterMap_congr
  intro k hk
  have hlt := block_position_lt (List.mem_range.mp hk)
  rw [List.getElem?_append_left (by omega), List.getElem?_append_left hlt]

/-- The element that completes a block adds that block's ends. -/
theorem blockEnds_snoc_of_close {gap : Nat} {xs : List τ} {a x : τ}
    (h : xs.length % (gap + 1) = gap)
    (ha : (xs ++ [x])[xs.length - gap]? = some a) :
    blockEnds gap (xs ++ [x]) = blockEnds gap xs ++ [(a, x)] := by
  have hmod : (xs.length + 1) % (gap + 1) = 0 := succ_mod_of_eq (by omega)
  have hfirst := first_position h
  have hlast : xs.length / (gap + 1) * (gap + 1) + gap = xs.length := by
    have hdiv := Nat.div_add_mod' xs.length (gap + 1)
    omega
  unfold blockEnds
  rw [List.length_append, List.length_singleton,
    Nat.succ_div_of_mod_eq_zero hmod, List.range_succ, List.filterMap_append]
  congr 1
  · apply List.filterMap_congr
    intro k hk
    have hlt := block_position_lt (List.mem_range.mp hk)
    rw [List.getElem?_append_left (by omega), List.getElem?_append_left hlt]
  · rw [hfirst] at ha
    simp [ha, hlast]

/-- A partial map that is defined on the whole list keeps every position. -/
private theorem map_some_filterMap {α β : Type*} {f : α → Option β}
    {l : List α} (h : ∀ a ∈ l, ∃ b, f a = some b) :
    (l.filterMap f).map some = l.map f := by
  induction l with
  | nil => rfl
  | cons a l ih =>
      obtain ⟨b, hb⟩ := h a (by simp)
      rw [List.filterMap_cons_some hb, List.map_cons, List.map_cons, hb,
        ih fun a ha => h a (by simp [ha])]

private theorem blockEnds_map_some (gap : Nat) (xs : List τ) :
    (blockEnds gap xs).map some =
      (List.range (xs.length / (gap + 1))).map fun k =>
        (xs[k * (gap + 1)]?).bind fun a =>
          (xs[k * (gap + 1) + gap]?).map fun b => (a, b) := by
  apply map_some_filterMap
  intro k hk
  have hlt := block_position_lt (List.mem_range.mp hk)
  have hlt' : k * (gap + 1) < xs.length := by omega
  exact ⟨_, by rw [List.getElem?_eq_getElem hlt, List.getElem?_eq_getElem hlt']
               rfl⟩

theorem blockEnds_length (gap : Nat) (xs : List τ) :
    (blockEnds gap xs).length = xs.length / (gap + 1) := by
  have h := congrArg List.length (blockEnds_map_some gap xs)
  simpa using h

/-- The `k`-th pair of ends stands at positions `k * (gap + 1)` and
`k * (gap + 1) + gap`. -/
theorem blockEnds_getElem? {gap k : Nat} {xs : List τ} {p : τ × τ}
    (h : (blockEnds gap xs)[k]? = some p) :
    xs[k * (gap + 1)]? = some p.1 ∧ xs[k * (gap + 1) + gap]? = some p.2 := by
  have hk : k < xs.length / (gap + 1) := by
    rw [← blockEnds_length gap xs]
    exact (List.getElem?_eq_some_iff.mp h).1
  have hmap := congrArg (fun l => l[k]?) (blockEnds_map_some gap xs)
  simp only [List.getElem?_map, h, List.getElem?_range hk, Option.map_some,
    Option.some.injEq] at hmap
  obtain ⟨a, ha, hlast⟩ := Option.bind_eq_some_iff.mp hmap.symm
  obtain ⟨b, hb, hp⟩ := Option.map_eq_some_iff.mp hlast
  subst hp
  exact ⟨ha, hb⟩

/-- A list that is cut inside a block does not have the block ends of its
two parts: the block over the cut opens in the first part. -/
theorem blockEnds_append_ne {gap : Nat} {xs ys : List τ}
    (hdisjoint : ∀ x ∈ xs, x ∉ ys) (hopen : xs.length % (gap + 1) ≠ 0)
    (hclose : gap < xs.length % (gap + 1) + ys.length) :
    blockEnds gap (xs ++ ys) ≠ blockEnds gap xs ++ blockEnds gap ys := by
  intro heq
  have hdiv := Nat.div_add_mod' xs.length (gap + 1)
  have hq : xs.length / (gap + 1) < (blockEnds gap (xs ++ ys)).length := by
    rw [blockEnds_length, List.length_append]
    have hnext := Nat.succ_mul (xs.length / (gap + 1)) (gap + 1)
    exact (Nat.le_div_iff_mul_le (show 0 < gap + 1 by omega)).mpr (by omega)
  obtain ⟨p, hcut⟩ : ∃ p, (blockEnds gap (xs ++ ys))[xs.length / (gap + 1)]? =
      some p := ⟨_, List.getElem?_eq_getElem hq⟩
  have hfirst := (blockEnds_getElem? hcut).1
  rw [List.getElem?_append_left (by omega)] at hfirst
  rw [heq, List.getElem?_append_right (Nat.le_of_eq (blockEnds_length gap xs)),
    blockEnds_length, Nat.sub_self] at hcut
  have hsecond := (blockEnds_getElem? hcut).1
  exact hdisjoint _ (List.mem_of_getElem? hfirst)
    (List.mem_of_getElem? hsecond)

/-! ## Sums over segments -/

/-- The sum of the elements at positions `a, …, b - 1`. -/
def segSum (xs : List Nat) (a b : Nat) : Nat := ((xs.take b).drop a).sum

/-- A segment inside the list does not see what is appended. -/
theorem segSum_append {xs : List Nat} {a b : Nat} (ys : List Nat)
    (h : b ≤ xs.length) : segSum (xs ++ ys) a b = segSum xs a b := by
  rw [segSum, List.take_append_of_le_length h, segSum]

/-- A segment up to the end grows by the appended element. -/
theorem segSum_snoc {xs : List Nat} {a : Nat} (x : Nat)
    (h : a ≤ xs.length) :
    segSum (xs ++ [x]) a (xs.length + 1) = segSum xs a xs.length + x := by
  unfold segSum
  rw [List.take_of_length_le (by simp), List.take_length,
    List.drop_append_of_le_length h, List.sum_append]
  simp

theorem segSum_empty {xs : List Nat} {a b : Nat} (h : b ≤ a) :
    segSum xs a b = 0 := by
  unfold segSum
  rw [List.drop_of_length_le (by rw [List.length_take]; omega)]
  rfl

/-- Split off the first element of a segment. -/
theorem segSum_head {xs : List Nat} {a b x : Nat} (hab : a < b)
    (hx : xs[a]? = some x) : segSum xs a b = x + segSum xs (a + 1) b := by
  have htake : (xs.take b)[a]? = some x := by
    rw [List.getElem?_take_of_lt hab, hx]
  obtain ⟨hlt, hget⟩ := List.getElem?_eq_some_iff.mp htake
  unfold segSum
  rw [List.drop_eq_getElem_cons hlt, hget, List.sum_cons]

end ZenohPicoPerf.Foundation.Blocks
