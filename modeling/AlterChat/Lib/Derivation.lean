import Mathlib.Order.Monotone.Basic
import Mathlib.Logic.Function.Iterate

/-!
# Key derivation as a free function

A function that derives a key from a key and a label. `FreeDerivation` is its idealisation: what was
derived shows the key and the label, and no key is derived from itself, however long the way. A
chain derives with one label again and again: `chain_inj` -- no key of it comes twice;
`chain_apart` -- chains below different labels never meet.
-/

namespace Lib

variable {κ ℓ : Type}

/-- **Where a rank grows nothing comes back.** -/
theorem iterate_inj_of_rank {f : κ → κ} {rank : κ → Nat} (hr : ∀ k, rank k < rank (f k)) {k : κ}
    {m n : Nat} (h : f^[m] k = f^[n] k) : m = n := by
  have hmono : StrictMono fun n => rank (f^[n] k) := by
    refine strictMono_nat_of_lt_succ fun n => ?_
    rw [Function.iterate_succ_apply']
    exact hr _
  exact hmono.injective (congrArg rank h)

/-- The idealisation of a key derivation. -/
structure FreeDerivation (D : κ → ℓ → κ) : Prop where
  inj : ∀ k l k' l', D k l = D k' l' → k = k' ∧ l = l'
  acyclic : ∃ rank : κ → Nat, ∀ k l, rank k < rank (D k l)

/-- The key after `n` derivations with one label. -/
def chain (D : κ → ℓ → κ) (label : ℓ) (n : Nat) (k : κ) : κ := (fun k => D k label)^[n] k

section

variable {D : κ → ℓ → κ} {label : ℓ}

@[simp] theorem chain_zero (k : κ) : chain D label 0 k = k := rfl

theorem chain_succ (n : Nat) (k : κ) : chain D label (n + 1) k = D (chain D label n k) label :=
  Function.iterate_succ_apply' _ n k

/-- From the other end: the first derivation, and the rest. -/
theorem chain_succ' (n : Nat) (k : κ) : chain D label (n + 1) k = chain D label n (D k label) := rfl

theorem chain_chain (m n : Nat) (k : κ) :
    chain D label m (chain D label n k) = chain D label (n + m) k := by
  rw [chain, chain, chain, ← Function.iterate_add_apply, Nat.add_comm]

theorem FreeDerivation.chain_inj (hD : FreeDerivation D) {k : κ} {m n : Nat}
    (h : chain D label m k = chain D label n k) : m = n := by
  obtain ⟨rank, hr⟩ := hD.acyclic
  exact iterate_inj_of_rank (fun k => hr k label) h

/-- **Chains below different labels never meet.** By induction on both ways at once: the last
    derivations have one label, the first ones two. -/
theorem FreeDerivation.chain_apart (hD : FreeDerivation D) {a b : ℓ} (hab : a ≠ b) (ha : a ≠ label)
    (hb : b ≠ label) (k : κ) (m n : Nat) : chain D label m (D k a) ≠ chain D label n (D k b) := by
  induction m generalizing n with
  | zero =>
    cases n with
    | zero => exact fun h => hab (hD.inj _ _ _ _ h).2
    | succ n =>
      rw [chain_succ]
      exact fun h => ha (hD.inj _ _ _ _ h).2
  | succ m ih =>
    rw [chain_succ]
    cases n with
    | zero => exact fun h => hb (hD.inj _ _ _ _ h).2.symm
    | succ n =>
      rw [chain_succ]
      exact fun h => ih n (hD.inj _ _ _ _ h).1

end

end Lib
