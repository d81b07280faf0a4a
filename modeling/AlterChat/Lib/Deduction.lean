import Mathlib.Data.Set.Basic

/-!
# What can be derived from what is known

Knowledge is a set of terms, and rules say what can be made of what: `Derives rules K t` when `t`
can be made from members of `K`. That something can NOT be made is shown with a set that contains
`K` and is closed under the rules: `Derives.within`.
-/

namespace Lib

variable {T : Type}

/-- The terms that can be made from `K`. -/
inductive Derives (rules : List T → T → Prop) (K : Set T) : T → Prop where
  | known (t : T) (h : t ∈ K) : Derives rules K t
  | apply (premises : List T) (t : T) (h : rules premises t)
      (hp : ∀ p ∈ premises, Derives rules K p) : Derives rules K t

/-- No rule leads out of the set. -/
def ClosedUnder (rules : List T → T → Prop) (I : Set T) : Prop :=
  ∀ premises t, rules premises t → (∀ p ∈ premises, p ∈ I) → t ∈ I

namespace Derives

variable {rules : List T → T → Prop} {K K' I : Set T} {t : T}

/-- **What is derived stays within every closed set that contains what is known.** -/
theorem within (h : Derives rules K t) (hK : K ⊆ I) (hI : ClosedUnder rules I) : t ∈ I := by
  induction h with
  | known t h => exact hK h
  | apply premises t hr _ ih => exact hI premises t hr ih

theorem axiomatic (h : rules [] t) : Derives rules K t :=
  .apply [] t h nofun

theorem one {a : T} (h : rules [a] t) (ha : Derives rules K a) : Derives rules K t := by
  refine .apply [a] t h fun p hp => ?_
  rw [List.mem_singleton.mp hp]
  exact ha

theorem two {a b : T} (h : rules [a, b] t) (ha : Derives rules K a) (hb : Derives rules K b) :
    Derives rules K t := by
  refine .apply [a, b] t h fun p hp => ?_
  rcases List.mem_cons.mp hp with rfl | hp
  · exact ha
  · rw [List.mem_singleton.mp hp]
    exact hb

end Derives

end Lib
