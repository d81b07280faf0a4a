import Mathlib.Data.Finset.Insert
import Mathlib.Data.Finset.Lattice.Basic

/-!
# What a replica has taken in

Each author numbers its deeds from 0. A replica has taken in a set of deeds, and with a deed all
earlier ones of its author: a version vector, written as the set of the deeds below it. Of two such
sets one has all that the other has of an author (`Closed.total`).
-/

namespace Lib.Versions

variable {Author : Type} [DecidableEq Author] {K K' : Finset (Author × Nat)}

/-- With a deed all earlier ones of its author. -/
def Closed (K : Finset (Author × Nat)) : Prop :=
  ∀ a k, (a, k) ∈ K → ∀ j, j ≤ k → (a, j) ∈ K

theorem Closed.union (h : Closed K) (h' : Closed K') : Closed (K ∪ K') := by
  intro a k hk j hj
  rcases Finset.mem_union.mp hk with hk | hk
  · exact Finset.mem_union_left _ (h a k hk j hj)
  · exact Finset.mem_union_right _ (h' a k hk j hj)

/-- The next deed of an author whose earlier ones are there. -/
theorem Closed.insert (h : Closed K) {a : Author} {n : Nat} (hn : ∀ k, k < n → (a, k) ∈ K) :
    Closed (insert (a, n) K) := by
  intro b k hk j hj
  rcases Finset.mem_insert.mp hk with hk | hk
  · obtain ⟨rfl, rfl⟩ := Prod.mk.inj hk
    rcases Nat.lt_or_eq_of_le hj with hj | rfl
    · exact Finset.mem_insert_of_mem (hn j hj)
    · exact Finset.mem_insert_self _ _
  · exact Finset.mem_insert_of_mem (h b k hk j hj)

omit [DecidableEq Author] in
theorem closed_first (a : Author) : Closed {(a, 0)} := by
  intro b k hk j hj
  obtain ⟨rfl, rfl⟩ := Prod.mk.inj (Finset.mem_singleton.mp hk)
  exact Finset.mem_singleton.mpr (by rw [Nat.le_zero.mp hj])

omit [DecidableEq Author] in
/-- **Of one author, one of the two has all that the other has.** -/
theorem Closed.total (h : Closed K) (h' : Closed K') (a : Author) :
    (∀ k, (a, k) ∈ K → (a, k) ∈ K') ∨ ∀ k, (a, k) ∈ K' → (a, k) ∈ K := by
  by_cases hsub : ∀ k, (a, k) ∈ K → (a, k) ∈ K'
  · exact .inl hsub
  · obtain ⟨n, hn⟩ := not_forall.mp hsub
    obtain ⟨hn, hn'⟩ := Classical.not_imp.mp hn
    refine .inr fun k hk => h a n hn k ?_
    exact Nat.le_of_not_le fun hle => hn' (h' a k hk n hle)

end Lib.Versions
