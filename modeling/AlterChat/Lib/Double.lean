import AlterChat.Lib.Overflow
import Mathlib.Algebra.Order.Group.Int
import Mathlib.Data.Nat.Log
import Mathlib.Tactic.Ring

/-!
# Whole numbers as doubles

A double keeps 53 binary digits of a whole number, and takes the even one of two that are as near.

* §1 `nearestNat`, and §2 `nearest` with a sign -- it is monotone (`nearest_mono`), changes no
  number that is a double already (`nearest_nearest`) and none up to 2^53 (`nearest_of_le`), and a
  larger one by at most a part in 2^53 (`nearest_within`);
* §3 `SqlNumber` -- the numbers of SQLite, whose integers of 64 bits become doubles where they
  overflow.
-/

namespace Lib.Double

/-! ## 1. Rounding -/

/-- `n` in units of `d`, rounded, of two neighbours as near to the even one. -/
def nearestMultiple (n d : Nat) : Nat :=
  if 2 * (n % d) < d ∨ 2 * (n % d) = d ∧ n / d % 2 = 0 then n / d else n / d + 1

/-- The place of the last of 53 binary digits. -/
def ulp (n : Nat) : Nat := 2 ^ (n.log2 - 52)

def nearestNat (n : Nat) : Nat := nearestMultiple n (ulp n) * ulp n

theorem nearestMultiple_cases (n d : Nat) :
    nearestMultiple n d = n / d ∧ 2 * (n % d) ≤ d ∨ nearestMultiple n d = n / d + 1 ∧
    d ≤ 2 * (n % d) := by
  unfold nearestMultiple
  split <;> omega

theorem nearestMultiple_mul {d : Nat} (hd : 0 < d) (k : Nat) : nearestMultiple (k * d) d = k := by
  rw [nearestMultiple, Nat.mul_mod_left, if_pos (.inl (by omega)), Nat.mul_div_cancel _ hd]

theorem nearestMultiple_mono (d : Nat) {n m : Nat} (h : n ≤ m) :
    nearestMultiple n d ≤ nearestMultiple m d := by
  have hn := Nat.div_add_mod n d
  have hm := Nat.div_add_mod m d
  rcases Nat.lt_or_eq_of_le (Nat.div_le_div_right (c := d) h) with hlt | heq
  · rcases nearestMultiple_cases n d with ⟨hn', -⟩ | ⟨hn', -⟩ <;>
      rcases nearestMultiple_cases m d with ⟨hm', -⟩ | ⟨hm', -⟩ <;> omega
  · have hmod : n % d ≤ m % d := by rw [heq] at hn; omega
    unfold nearestMultiple
    rw [heq]
    split_ifs <;> omega

theorem ulp_pos (n : Nat) : 0 < ulp n := Nat.two_pow_pos _

/-- What ends in the place of its last digit stays. -/
theorem nearestNat_of_dvd {n : Nat} (h : ulp n ∣ n) : nearestNat n = n := by
  obtain ⟨k, hk⟩ := h
  have hmul : n = k * ulp n := by rw [Nat.mul_comm]; exact hk
  have hnearest := nearestMultiple_mul (ulp_pos n) k
  rw [← hmul] at hnearest
  rw [nearestNat, hnearest, ← hmul]

theorem ulp_dvd {q : Nat} (e : Nat) (hq : q ≤ 2 ^ 53) : ulp (q * 2 ^ e) ∣ q * 2 ^ e := by
  rcases Nat.eq_zero_or_pos q with rfl | hpos
  · rw [Nat.zero_mul]; exact Nat.dvd_zero _
  have hlog : (q * 2 ^ e).log2 = q.log2 + e := by
    have hlow := Nat.mul_le_mul_right (2 ^ e) (Nat.log2_self_le (n := q) (by omega))
    have hhigh := Nat.mul_lt_mul_of_pos_right (Nat.lt_log2_self (n := q)) (Nat.two_pow_pos e)
    rw [← Nat.pow_add] at hlow hhigh
    refine (Nat.log2_eq_iff (Nat.mul_pos hpos (Nat.two_pow_pos e)).ne').mpr ⟨hlow, ?_⟩
    rwa [Nat.add_right_comm] at hhigh
  rw [ulp, hlog]
  rcases Nat.lt_or_eq_of_le hq with hlt | rfl
  · have hle : q.log2 ≤ 52 := Nat.lt_succ_iff.mp ((Nat.log2_lt (by omega)).mpr hlt)
    exact (Nat.pow_dvd_pow 2 (by omega)).mul_left q
  · rw [Nat.log2_two_pow, ← Nat.pow_add]
    exact Nat.pow_dvd_pow 2 (by omega)

/-- **Up to 2^53 every number is a double.** -/
theorem nearestNat_of_le {n : Nat} (h : n ≤ 2 ^ 53) : nearestNat n = n := by
  have hdvd := ulp_dvd 0 h
  rw [Nat.pow_zero, Nat.mul_one] at hdvd
  exact nearestNat_of_dvd hdvd

theorem nearestNat_nearestNat (n : Nat) : nearestNat (nearestNat n) = nearestNat n := by
  refine nearestNat_of_dvd (ulp_dvd _ ?_)
  -- the number of units is that of a power of two at most
  have hle : n ≤ 2 ^ 53 * ulp n := by
    rw [ulp, ← Nat.pow_add]
    exact Nat.lt_log2_self.le.trans (Nat.pow_le_pow_right (by decide) (by omega))
  exact (nearestMultiple_mono _ hle).trans (nearestMultiple_mul (ulp_pos n) _).le

/-- A number keeps its binade, or goes to the end of it. -/
theorem nearestNat_bounds {n : Nat} (h : n ≠ 0) :
    2 ^ n.log2 ≤ nearestNat n ∧ nearestNat n ≤ 2 ^ (n.log2 + 1) := by
  have hunit : ∀ k, n.log2 ≤ k → nearestMultiple (2 ^ k) (ulp n) * ulp n = 2 ^ k := by
    intro k hk
    obtain ⟨q, hq⟩ : ulp n ∣ 2 ^ k := Nat.pow_dvd_pow 2 (show n.log2 - 52 ≤ k by omega)
    rw [hq.trans (Nat.mul_comm _ _), nearestMultiple_mul (ulp_pos n)]
  constructor
  · rw [← hunit n.log2 (Nat.le_refl _)]
    exact Nat.mul_le_mul_right _ (nearestMultiple_mono _ (Nat.log2_self_le h))
  · rw [← hunit (n.log2 + 1) (Nat.le_succ _)]
    exact Nat.mul_le_mul_right _ (nearestMultiple_mono _ Nat.lt_log2_self.le)

theorem nearestNat_mono {n m : Nat} (h : n ≤ m) : nearestNat n ≤ nearestNat m := by
  rcases Nat.eq_zero_or_pos n with rfl | hpos
  · exact Nat.zero_le _
  have hlog : n.log2 ≤ m.log2 := by
    rw [Nat.log2_eq_log_two, Nat.log2_eq_log_two]
    exact Nat.log_mono_right h
  rcases Nat.lt_or_eq_of_le hlog with hlt | heq
  · calc
      nearestNat n ≤ 2 ^ (n.log2 + 1) := (nearestNat_bounds (by omega)).2
      _ ≤ 2 ^ m.log2 := Nat.pow_le_pow_right (by decide) hlt
      _ ≤ nearestNat m := (nearestNat_bounds (by omega)).1
  · have hulp : ulp n = ulp m := by rw [ulp, heq, ulp]
    rw [nearestNat, nearestNat, hulp]
    exact Nat.mul_le_mul_right _ (nearestMultiple_mono _ h)

/-- **Rounding moves a number by at most a part in 2^53.** -/
theorem nearestNat_error (n : Nat) :
    2 ^ 53 * nearestNat n ≤ 2 ^ 53 * n + n ∧ 2 ^ 53 * n ≤ 2 ^ 53 * nearestNat n + n := by
  rcases Nat.lt_or_ge (2 ^ 53) n with hlarge | hsmall
  · have hunit : 2 ^ 52 * ulp n ≤ n := by
      have hlog : 52 ≤ n.log2 := (Nat.le_log2 (by omega)).mpr (by omega)
      rw [ulp, ← Nat.pow_add, Nat.add_sub_cancel' hlog]
      exact Nat.log2_self_le (by omega)
    have hdiv : n / ulp n * ulp n + n % ulp n = n := Nat.div_add_mod' n (ulp n)
    rcases nearestMultiple_cases n (ulp n) with ⟨hn, hmod⟩ | ⟨hn, hmod⟩
    · rw [nearestNat, hn]
      omega
    · rw [nearestNat, hn, Nat.succ_mul]
      have hlt := Nat.mod_lt n (ulp_pos n)
      omega
  · rw [nearestNat_of_le hsmall]
    omega

/-! ## 2. Signed numbers -/

/-- The double next to a whole number. -/
def nearest (z : Int) : Int := z.sign * nearestNat z.natAbs

theorem nearest_natCast (n : Nat) : nearest n = nearestNat n := by
  rcases Nat.eq_zero_or_pos n with rfl | hpos
  · rfl
  · rw [nearest, Int.sign_natCast_of_ne_zero (by omega), Int.one_mul, Int.natAbs_natCast]

theorem nearest_neg (z : Int) : nearest (-z) = -nearest z := by
  rw [nearest, nearest, Int.sign_neg, Int.natAbs_neg, Int.neg_mul]

theorem nearest_of_le {z : Int} (h : z.natAbs ≤ 2 ^ 53) : nearest z = z := by
  rw [nearest, nearestNat_of_le h, Int.sign_mul_natAbs]

theorem nearest_nearest (z : Int) : nearest (nearest z) = nearest z := by
  obtain ⟨n, rfl | rfl⟩ := z.eq_nat_or_neg
  · rw [nearest_natCast, nearest_natCast, nearestNat_nearestNat]
  · rw [nearest_neg, nearest_neg, nearest_natCast, nearest_natCast, nearestNat_nearestNat]

theorem nearest_mono {a b : Int} (h : a ≤ b) : nearest a ≤ nearest b := by
  obtain ⟨n, rfl | rfl⟩ := a.eq_nat_or_neg <;> obtain ⟨m, rfl | rfl⟩ := b.eq_nat_or_neg
  · rw [nearest_natCast, nearest_natCast]
    exact_mod_cast nearestNat_mono (by omega)
  · obtain ⟨rfl, rfl⟩ : n = 0 ∧ m = 0 := by omega
    exact le_refl _
  · rw [nearest_neg, nearest_natCast, nearest_natCast]
    omega
  · have hmono := nearestNat_mono (n := m) (m := n) (by omega)
    rw [nearest_neg, nearest_neg, nearest_natCast, nearest_natCast]
    omega

/-- **A number up to `b` times 2^53 moves by at most `b`.** -/
theorem nearest_within {z : Int} {b : Nat} (h : z.natAbs ≤ 2 ^ 53 * b) :
    (nearest z - z).natAbs ≤ b := by
  obtain ⟨n, rfl | rfl⟩ := z.eq_nat_or_neg
  · have herror := nearestNat_error n
    rw [nearest_natCast]
    omega
  · have herror := nearestNat_error n
    rw [nearest_neg, nearest_natCast]
    omega

theorem nearest_eq_zero {z : Int} : nearest z = 0 ↔ z = 0 := by
  constructor
  · intro h
    obtain ⟨n, rfl | rfl⟩ := z.eq_nat_or_neg
    · have herror := nearestNat_error n
      rw [nearest_natCast] at h
      omega
    · have herror := nearestNat_error n
      rw [nearest_neg, nearest_natCast] at h
      omega
  · intro h
    rw [h]
    rfl

/-- **Rounding carries nothing past a small number.** -/
theorem lt_nearest_iff {n z : Int} (hn : n.natAbs < 2 ^ 53) : n < nearest z ↔ n < z := by
  have hend : nearest (2 ^ 53) = 2 ^ 53 := by decide
  rcases Int.lt_or_le z (-2 ^ 53) with hlow | hlow
  · have hmono := nearest_mono hlow.le
    rw [nearest_neg, hend] at hmono
    exact iff_of_false (by omega) (by omega)
  · rcases Int.lt_or_le (2 ^ 53) z with hhigh | hhigh
    · have hmono := nearest_mono hhigh.le
      rw [hend] at hmono
      exact iff_of_true (by omega) (by omega)
    · rw [nearest_of_le (by omega)]

/-- A number rounds to more than a double just when it is more, and does not round to that
    double. -/
theorem nearest_lt_nearest_iff {w z : Int} :
    nearest w < nearest z ↔ nearest w < z ∧ nearest z ≠ nearest w := by
  constructor
  · intro h
    refine ⟨not_le.mp fun hle => ?_, h.ne'⟩
    have hmono := nearest_mono hle
    rw [nearest_nearest] at hmono
    exact absurd h (not_lt.mpr hmono)
  · intro h
    obtain ⟨hlt, hne⟩ := h
    have hmono := nearest_mono hlt.le
    rw [nearest_nearest] at hmono
    exact lt_of_le_of_ne hmono hne.symm

/-! ## 3. The numbers of SQLite -/

/-- An `INTEGER`, or a `REAL` that is whole. -/
inductive SqlNumber where
  | integer (n : Int)
  | real (x : Int)

/-- What a number is compared by. -/
def SqlNumber.value : SqlNumber → Int
  | .integer n => n
  | .real x => x

/-- As a double. -/
def SqlNumber.toReal : SqlNumber → Int
  | .integer n => nearest n
  | .real x => x

/-- An operation on integers that overflows is done again on doubles. -/
def SqlNumber.arith (op : Int → Int → Int) : SqlNumber → SqlNumber → SqlNumber
  | .integer a, .integer b =>
    if Fits (op a b) then .integer (op a b) else .real (nearest (op (nearest a) (nearest b)))
  | x, y => .real (nearest (op x.toReal y.toReal))

def SqlNumber.add : SqlNumber → SqlNumber → SqlNumber := .arith (· + ·)

def SqlNumber.mul : SqlNumber → SqlNumber → SqlNumber := .arith (· * ·)

theorem SqlNumber.arith_fits {op : Int → Int → Int} {a b : Int} (h : Fits (op a b)) :
    arith op (.integer a) (.integer b) = .integer (op a b) := if_pos h

/-- **A sum of integers compares exactly with a double's whole numbers, overflow or not.** -/
theorem SqlNumber.add_value_lt_iff {a b c : Int} (ha : Fits a) (hb : Fits b)
    (hc : c.natAbs ≤ 2 ^ 53) : ((integer a).add (integer b)).value < c ↔ a + b < c := by
  unfold Fits at ha hb
  by_cases hfits : Fits (a + b)
  · rw [add, arith_fits hfits]
    rfl
  · have hvalue : ((integer a).add (integer b)).value = nearest (nearest a + nearest b) := by
      rw [add, arith, if_neg hfits]
      rfl
    have hnear := nearest_within (z := a) (b := 2 ^ 10) (by omega)
    have hnear' := nearest_within (z := b) (b := 2 ^ 10) (by omega)
    have hends : nearest (2 ^ 54) = 2 ^ 54 := by decide
    rw [hvalue]
    unfold Fits at hfits
    rcases Int.lt_or_le (a + b) 0 with hneg | hpos
    · have hfar := nearest_mono (show nearest a + nearest b ≤ -2 ^ 54 by omega)
      rw [nearest_neg, hends] at hfar
      exact iff_of_true (by omega) (by omega)
    · have hfar := nearest_mono (show 2 ^ 54 ≤ nearest a + nearest b by omega)
      rw [hends] at hfar
      exact iff_of_false (by omega) (by omega)

end Lib.Double
