import Mathlib.Algebra.Ring.Int.Defs
import Mathlib.Algebra.Ring.Nat

/-!
# Arithmetic that overflows

A program is built with overflow checks or without them: a result that does not fit its type is then
a panic, or it wraps around. `none` is the panic. An operation that can overflow takes the build it
is of; where none is given it is the one that wraps, as a release has it, and so it is for
arithmetic on machine integers.

* `Build.int64` -- a result with a sign and 64 bits; `Build.unsigned` -- one of some bits without a
  sign;
* where nothing overflows, both builds have the result;
* `add`, `sub` and `scale` on `Int64`: where they return, they are the operations of `Int64`.
-/

namespace Lib

inductive Build where
  | checked
  | wrapping
  deriving DecidableEq

/-- An integer of 64 bits. -/
def Fits (z : Int) : Prop := -2 ^ 63 ≤ z ∧ z < 2 ^ 63

instance decidableFits : DecidablePred Fits := fun _ => inferInstanceAs (Decidable (_ ∧ _))

namespace Build

/-- The result `z`, as an `i64`. -/
def int64 (b : Build) (z : Int) : Option Int64 :=
  match b with
  | .checked => if Fits z then some (.ofInt z) else none
  | .wrapping => some (.ofInt z)

/-- The result `n`, in an unsigned type of that many bits. -/
def unsigned (b : Build) (bits n : Nat) : Option Nat :=
  match b with
  | .checked => if n < 2 ^ bits then some n else none
  | .wrapping => some (n % 2 ^ bits)

variable (b : Build) {z : Int} {bits n : Nat}

@[simp] theorem int64_wrapping (z : Int) : wrapping.int64 z = some (.ofInt z) := rfl

@[simp] theorem unsigned_wrapping (bits n : Nat) : wrapping.unsigned bits n = some (n % 2 ^ bits) :=
  rfl

/-- **Where the result fits, it is the result of both builds.** -/
theorem int64_of_fits (h : Fits z) : b.int64 z = some (.ofInt z) := by
  cases b with
  | checked => exact if_pos h
  | wrapping => rfl

theorem unsigned_of_lt (h : n < 2 ^ bits) : b.unsigned bits n = some n := by
  cases b with
  | checked => exact if_pos h
  | wrapping => exact congrArg some (Nat.mod_eq_of_lt h)

/-- **When there is no panic.** -/
theorem unsigned_isSome : (b.unsigned bits n).isSome = true ↔ (b = .checked → n < 2 ^ bits) := by
  cases b with
  | wrapping => exact iff_of_true rfl nofun
  | checked =>
    unfold unsigned
    by_cases h : n < 2 ^ bits <;> simp [h]

theorem int64_overflow (h : ¬ Fits z) : checked.int64 z = none := if_neg h

theorem unsigned_overflow (h : 2 ^ bits ≤ n) : checked.unsigned bits n = none :=
  if_neg (Nat.not_lt.mpr h)

theorem int64_eq (h : b = .checked → Fits z) : b.int64 z = some (.ofInt z) := by
  cases b with
  | checked => exact int64_of_fits .checked (h rfl)
  | wrapping => rfl

end Build

/-- A number that fits is kept. -/
theorem toInt_ofInt_of_fits {z : Int} (h : Fits z) : (Int64.ofInt z).toInt = z := by
  rw [Int64.toInt_ofInt, Int.bmod_eq_of_le]
  · exact h.1
  · exact h.2

theorem toInt_max_one (n : Int64) : (max n 1).toInt = max n.toInt 1 := by
  have hone : (1 : Int64).toInt = 1 := by decide
  show (if n ≤ 1 then (1 : Int64) else n).toInt = _
  split
  · next h =>
    rw [Int64.le_iff_toInt_le, hone] at h
    rw [hone, Int.max_eq_right h]
  · next h =>
    rw [Int64.le_iff_toInt_le, hone] at h
    rw [Int.max_eq_left (by omega)]

/-! ## Operations on `Int64` -/

namespace Build

def add (b : Build) (x y : Int64) : Option Int64 := b.int64 (x.toInt + y.toInt)

def sub (b : Build) (x y : Int64) : Option Int64 := b.int64 (x.toInt - y.toInt)

/-- `x * k₁ * … * kₙ`, one factor after the other. -/
def scale (b : Build) (x : Int64) : List Int64 → Option Int64
  | [] => some x
  | k :: ks => (b.int64 (x.toInt * k.toInt)).bind fun y => b.scale y ks

/-- The product, as a number. -/
def product (x : Int64) (ks : List Int64) : Int := ks.foldl (fun z k => z * k.toInt) x.toInt

variable {b : Build} {x y : Int64} {ks : List Int64}

theorem add_eq (h : b = .checked → Fits (x.toInt + y.toInt)) : b.add x y = some (x + y) := by
  rw [add, b.int64_eq h, Int64.ofInt_add, Int64.ofInt_toInt, Int64.ofInt_toInt]

theorem sub_eq (h : b = .checked → Fits (x.toInt - y.toInt)) : b.sub x y = some (x - y) := by
  rw [sub, b.int64_eq h, Int64.ofInt_sub, Int64.ofInt_toInt, Int64.ofInt_toInt]

theorem ofInt_mul_toInt (x y : Int64) : Int64.ofInt (x.toInt * y.toInt) = x * y := by
  rw [Int64.ofInt_mul, Int64.ofInt_toInt, Int64.ofInt_toInt]

/-- Positive factors do not make it smaller. -/
theorem le_foldl {z : Int} (hz : 0 ≤ z) (hks : ∀ k ∈ ks, 0 < k.toInt) :
    z ≤ ks.foldl (fun z k => z * k.toInt) z := by
  induction ks generalizing z with
  | nil => exact Int.le_refl z
  | cons k ks ih =>
    have hk : 1 ≤ k.toInt := hks k List.mem_cons_self
    have hgrows : z ≤ z * k.toInt := by
      have := Int.mul_le_mul_of_nonneg_left hk hz
      rwa [Int.mul_one] at this
    exact Int.le_trans hgrows (ih (Int.le_trans hz hgrows) fun k' hk' =>
      hks k' (List.mem_cons_of_mem _ hk'))

/-- What is in between fits where the product does. -/
theorem fits_first {k : Int64} (hx : 0 ≤ x.toInt) (hk : 0 < k.toInt) (hks : ∀ k ∈ ks, 0 < k.toInt)
    (h : Fits (product x (k :: ks))) : Fits (x.toInt * k.toInt) := by
  have hnonneg : 0 ≤ x.toInt * k.toInt := Int.mul_nonneg hx (Int.le_of_lt hk)
  exact ⟨Int.le_trans (by decide) hnonneg, Int.lt_of_le_of_lt (le_foldl hnonneg hks) h.2⟩

/-- One factor more, where the product with it fits. -/
theorem scale_cons {k : Int64} (hx : 0 ≤ x.toInt) (hk : 0 < k.toInt)
    (h : Fits (x.toInt * k.toInt)) :
    b.scale x (k :: ks) = b.scale (x * k) ks ∧ 0 ≤ (x * k).toInt ∧
      product (x * k) ks = product x (k :: ks) := by
  have hvalue : (x * k).toInt = x.toInt * k.toInt := by
    rw [← ofInt_mul_toInt, toInt_ofInt_of_fits h]
  refine ⟨?_, ?_, ?_⟩
  · rw [scale, b.int64_of_fits h, Option.bind_some, ofInt_mul_toInt]
  · rw [hvalue]
    exact Int.mul_nonneg hx (Int.le_of_lt hk)
  · rw [product, hvalue]
    rfl

/-- **A product of positive factors.** -/
theorem scale_eq (hx : 0 ≤ x.toInt) (hks : ∀ k ∈ ks, 0 < k.toInt)
    (h : b = .checked → Fits (product x ks)) : b.scale x ks = some (ks.foldl (· * ·) x) := by
  cases b with
  | wrapping =>
    clear hx hks h
    induction ks generalizing x with
    | nil => rfl
    | cons k ks ih =>
      rw [scale, int64_wrapping, Option.bind_some, ofInt_mul_toInt, ih, List.foldl_cons]
  | checked =>
    replace h := h rfl
    induction ks generalizing x with
    | nil => rfl
    | cons k ks ih =>
      have hk : 0 < k.toInt := hks k List.mem_cons_self
      have hrest : ∀ k ∈ ks, 0 < k.toInt := fun k' hk' => hks k' (List.mem_cons_of_mem _ hk')
      obtain ⟨hscale, hnonneg, hproduct⟩ :=
        scale_cons (b := .checked) hx hk (fits_first hx hk hrest h)
      rw [hscale, List.foldl_cons]
      exact ih hnonneg hrest (hproduct ▸ h)

/-- The product of `Int64` is the product, where that fits. -/
theorem toInt_foldl (hx : 0 ≤ x.toInt) (hks : ∀ k ∈ ks, 0 < k.toInt) (h : Fits (product x ks)) :
    (ks.foldl (· * ·) x).toInt = product x ks := by
  induction ks generalizing x with
  | nil => rfl
  | cons k ks ih =>
    have hk : 0 < k.toInt := hks k List.mem_cons_self
    have hrest : ∀ k ∈ ks, 0 < k.toInt := fun k' hk' => hks k' (List.mem_cons_of_mem _ hk')
    obtain ⟨-, hnonneg, hproduct⟩ := scale_cons (b := .checked) hx hk (fits_first hx hk hrest h)
    rw [List.foldl_cons, ih hnonneg hrest (hproduct ▸ h), hproduct]

theorem scale_overflow (hx : 0 ≤ x.toInt) (hks : ∀ k ∈ ks, 0 < k.toInt)
    (h : ¬ Fits (product x ks)) : checked.scale x ks = none := by
  induction ks generalizing x with
  | nil => exact absurd ⟨Int64.le_toInt x, Int64.toInt_lt x⟩ h
  | cons k ks ih =>
    have hk : 0 < k.toInt := hks k List.mem_cons_self
    by_cases hfits : Fits (x.toInt * k.toInt)
    · obtain ⟨hscale, hnonneg, hproduct⟩ := scale_cons (b := .checked) hx hk hfits
      rw [hscale]
      exact ih hnonneg (fun k' hk' => hks k' (List.mem_cons_of_mem _ hk')) (hproduct ▸ h)
    · rw [scale, int64_overflow hfits]
      rfl

end Build

end Lib
