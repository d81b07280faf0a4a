import Mathlib.Data.List.Basic

/-!
# Where a sort puts an element

A stable sort, and the first elements of what it returns: an element is among them just where few
enough come ahead of it.

* §1 `ahead` -- what the list says about the place of an element;
* §2 `idxOf_mergeSort` -- that is its place, and `mem_take_mergeSort_iff`.
-/

namespace Lib.Ranking

variable {α : Type} [DecidableEq α] {le : α → α → Bool} {a : α} {l : List α}

/-! ## 1. What comes ahead -/

/-- How many come ahead of the first occurrence of an element: those before it in the list that it
    is not better than, and those after it that are better. -/
def ahead (le : α → α → Bool) (a : α) : List α → Nat
  | [] => 0
  | b :: l => if b = a then l.countP fun c => !le a c else (if le b a then 1 else 0) + ahead le a l

/-! ## 2. Its place -/

/-- **The place of an element after the sort.** -/
theorem idxOf_mergeSort (trans : ∀ a b c, le a b = true → le b c = true → le a c = true)
    (total : ∀ a b, (le a b || le b a) = true) (h : a ∈ l) :
    (l.mergeSort le).idxOf a = ahead le a l := by
  induction l with
  | nil => cases h
  | cons b l ih =>
    obtain ⟨l₁, l₂, hsort, hrest, hbetter⟩ := List.mergeSort_cons trans total b l
    have hsorted := List.pairwise_mergeSort trans total (b :: l)
    rw [hsort] at hsorted
    have hworse : ∀ c ∈ l₂, le b c = true := fun c hc =>
      List.rel_of_pairwise_cons (List.pairwise_append.mp hsorted).2.1 hc
    rw [hsort, ahead]
    by_cases hb : b = a
    · -- the first occurrence: what is better than it has come before it
      subst hb
      have hrefl : le b b = true := by simpa using total b b
      have hnot : b ∉ l₁ := fun hmem => by simpa [hrefl] using hbetter b hmem
      have hcount : l.countP (fun c => !le b c) = l₁.length := by
        rw [← (List.mergeSort_perm l le).countP_eq, hrest, List.countP_append,
          List.countP_eq_length.mpr hbetter, List.countP_eq_zero.mpr fun c hc => by
          simp [hworse c hc],
          Nat.add_zero]
      rw [if_pos rfl, hcount, List.idxOf_append_of_notMem hnot, List.idxOf_cons_self, Nat.add_zero]
    · have hmem : a ∈ l := (List.mem_cons.mp h).resolve_left fun heq => hb heq.symm
      have hplace := ih hmem
      rw [hrest] at hplace
      rw [if_neg hb, ← hplace]
      by_cases hfirst : a ∈ l₁
      · have hlt : le b a = false := by simpa using hbetter a hfirst
        rw [hlt, List.idxOf_append_of_mem hfirst, List.idxOf_append_of_mem hfirst]
        exact (Nat.zero_add _).symm
      · have hin : a ∈ l₂ := by
          have hsorted : a ∈ l.mergeSort le := List.mem_mergeSort.mpr hmem
          rw [hrest] at hsorted
          exact (List.mem_append.mp hsorted).resolve_left hfirst
        rw [hworse a hin, if_pos rfl, List.idxOf_append_of_notMem hfirst,
          List.idxOf_append_of_notMem hfirst, List.idxOf_cons_ne _ hb]
        omega

/-- **An element is among the first** just where few enough come ahead of it. -/
theorem mem_take_mergeSort_iff (trans : ∀ a b c, le a b = true → le b c = true → le a c = true)
    (total : ∀ a b, (le a b || le b a) = true) {n : Nat} :
    a ∈ (l.mergeSort le).take n ↔ a ∈ l ∧ ahead le a l < n := by
  by_cases h : a ∈ l
  · rw [List.mem_take_iff_idxOf_lt (List.mem_mergeSort.mpr h), idxOf_mergeSort trans total h,
      and_iff_right h]
  · exact iff_of_false (fun hmem => h (List.mem_mergeSort.mp (List.mem_of_mem_take hmem)))
      fun hmem => h hmem.1

end Lib.Ranking
