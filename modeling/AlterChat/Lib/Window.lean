import Mathlib.Data.List.Basic
import Mathlib.Order.Lattice

/-!
# Sliding windows

A history is a list of times, oldest first, and `cutoff t` is the earliest time that still counts at
`t`.

* `dropWhile_eq_since` -- trimming a sorted history from the front leaves what still counts;
* `Limited` -- every entry was taken when fewer than `limit` entries counted;
* `Limited.between_le` -- then no window holds more than `limit` of them.
-/

namespace Lib

variable {T : Type} [LinearOrder T]

/-- The entries not before a cutoff. -/
def since (c : T) (xs : List T) : List T := xs.filter fun x => decide (c ≤ x)

@[simp] theorem since_append (c : T) (xs ys : List T) :
    since c (xs ++ ys) = since c xs ++ since c ys :=
  List.filter_append ..

@[simp] theorem mem_since {c x : T} {xs : List T} : x ∈ since c xs ↔ x ∈ xs ∧ c ≤ x := by
  simp [since]

/-- A later cutoff may be applied to what an earlier one has left. -/
theorem since_since {c c' : T} (h : c ≤ c') (xs : List T) :
    since c' (since c xs) = since c' xs := by
  unfold since
  rw [List.filter_filter]
  refine List.filter_congr fun x _ => ?_
  by_cases hx : c' ≤ x
  · simp [hx, h.trans hx]
  · simp [hx]

/-- **Trimming from the front is enough** where the history is sorted. -/
theorem dropWhile_eq_since {xs : List T} (h : xs.Pairwise (· ≤ ·)) (c : T) :
    xs.dropWhile (fun x => decide (x < c)) = since c xs := by
  induction xs with
  | nil => rfl
  | cons x rest ih =>
    rw [List.pairwise_cons] at h
    by_cases hx : x < c
    · have hkeep : since c (x :: rest) = since c rest := by simp [since, hx]
      rw [hkeep, ← ih h.2]
      simp [hx]
    · -- the first entry counts, and so does everything after it
      have hall : ∀ y ∈ x :: rest, c ≤ y := by
        intro y hy
        rcases List.mem_cons.mp hy with rfl | hy
        · exact not_lt.mp hx
        · exact (not_lt.mp hx).trans (h.1 y hy)
      have hkeep : since c (x :: rest) = x :: rest := by
        refine List.filter_eq_self.mpr fun y hy => ?_
        simpa using hall y hy
      rw [hkeep]
      simp [hx]

/-- The entries from `s` to `e`. -/
def between (s e : T) (xs : List T) : List T := xs.filter fun x => decide (s ≤ x ∧ x ≤ e)

/-- Every entry was taken when fewer than `limit` of the earlier ones counted. -/
inductive Limited (cutoff : T → T) (limit : Nat) : List T → Prop where
  | nil : Limited cutoff limit []
  | snoc (xs : List T) (t : T) (h : Limited cutoff limit xs)
      (hlt : (since (cutoff t) xs).length < limit) : Limited cutoff limit (xs ++ [t])

/-- **No window holds more than the limit.** -/
theorem Limited.between_le {cutoff : T → T} {limit : Nat} {xs : List T} {s e : T}
    (h : Limited cutoff limit xs) (hmono : Monotone cutoff) (hse : cutoff e ≤ s) :
    (between s e xs).length ≤ limit := by
  induction h with
  | nil => exact Nat.zero_le _
  | snoc xs t h hlt ih =>
    unfold between at ih ⊢
    rw [List.filter_append, List.length_append]
    by_cases ht : s ≤ t ∧ t ≤ e
    · -- what lies in the window counted when `t` was taken
      have hsub : (between s e xs).length ≤ (since (cutoff t) xs).length := by
        refine (List.Sublist.length_le ?_)
        refine List.monotone_filter_right xs fun x hx => ?_
        have hx' : s ≤ x ∧ x ≤ e := by simpa using hx
        simpa using ((hmono ht.2).trans hse).trans hx'.1
      unfold between at hsub
      have hone : ([t].filter fun x => decide (s ≤ x ∧ x ≤ e)).length = 1 := by simp [ht]
      omega
    · have hnone : ([t].filter fun x => decide (s ≤ x ∧ x ≤ e)).length = 0 := by
        simpa using ht
      omega

end Lib
