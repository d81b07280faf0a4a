import AlterChat.Lib.Bincode
import Mathlib.Tactic.Ring

/-!
# Big-endian numbers

A byte string as a number, the most significant byte first, and the `w` lowest bytes of a number
written that way.

* §1 `unBe` -- reading;
* §2 `be` -- writing: `unBe_be`, `be_unBe`;
* §3 `LeadingZeros` -- the first bits of a string are zero: a bound on the number, and byte by byte
  `leadingZeros_add_eight`, `leadingZeros_of_lt_eight`.
-/

namespace Lib

/-! ## 1. Reading -/

/-- The number whose bytes these are, the most significant first. -/
def unBe : Bytes → Nat
  | [] => 0
  | b :: bs => b.toNat * 256 ^ bs.length + unBe bs

theorem unBe_lt (bs : Bytes) : unBe bs < 256 ^ bs.length := by
  induction bs with
  | nil => exact Nat.one_pos
  | cons b bs ih =>
    have hb : b.toNat + 1 ≤ 256 := b.toNat_lt
    calc unBe (b :: bs) < b.toNat * 256 ^ bs.length + 256 ^ bs.length := by
          rw [unBe]
          omega
      _ = (b.toNat + 1) * 256 ^ bs.length := by ring
      _ ≤ 256 * 256 ^ bs.length := Nat.mul_le_mul_right _ hb
      _ = 256 ^ (b :: bs).length := by rw [List.length_cons, Nat.pow_succ']

/-! ## 2. Writing -/

/-- The `w` lowest bytes of a number, the most significant first. -/
def be : Nat → Nat → Bytes
  | 0, _ => []
  | w + 1, n => UInt8.ofNat (n / 256 ^ w) :: be w n

@[simp] theorem be_length (w n : Nat) : (be w n).length = w := by
  induction w with
  | zero => rfl
  | succ w ih => rw [be, List.length_cons, ih]

/-- **A number is read back** up to what does not fit the width. -/
theorem unBe_be (w n : Nat) : unBe (be w n) = n % 256 ^ w := by
  induction w with
  | zero => rw [be, unBe, Nat.pow_zero, Nat.mod_one]
  | succ w ih =>
    rw [be, unBe, be_length, ih, UInt8.toNat_ofNat']
    calc n / 256 ^ w % 256 * 256 ^ w + n % 256 ^ w
        = n % 256 ^ w + 256 ^ w * (n / 256 ^ w % 256) := by ring
      _ = n % (256 ^ w * 256) := (Nat.mod_mul).symm
      _ = n % 256 ^ (w + 1) := by rw [Nat.pow_succ]

/-! ## 3. Leading zeros -/

/-- The first `d` bits of a byte string are zero: as a number it is that much smaller than a string
    of its length can be. -/
def LeadingZeros (d : Nat) (bs : Bytes) : Prop := unBe bs * 2 ^ d < 256 ^ bs.length

theorem leadingZeros_zero (bs : Bytes) : LeadingZeros 0 bs := by
  unfold LeadingZeros
  rw [Nat.pow_zero, Nat.mul_one]
  exact unBe_lt bs

theorem LeadingZeros.mono {d d' : Nat} {bs : Bytes} (h : LeadingZeros d bs) (hle : d' ≤ d) :
    LeadingZeros d' bs :=
  Nat.lt_of_le_of_lt (Nat.mul_le_mul_left _ (Nat.pow_le_pow_right Nat.two_pos hle)) h

/-- As a bound on the number itself, where the string has that many bits. -/
theorem leadingZeros_iff_lt {d : Nat} {bs : Bytes} (h : d ≤ 8 * bs.length) :
    LeadingZeros d bs ↔ unBe bs < 2 ^ (8 * bs.length - d) := by
  have hpow : 256 ^ bs.length = 2 ^ (8 * bs.length - d) * 2 ^ d := by
    rw [← Nat.pow_add, Nat.sub_add_cancel h, Nat.pow_mul]
  unfold LeadingZeros
  rw [hpow, Nat.mul_lt_mul_right (Nat.two_pow_pos d)]

/-- A byte of eight leading zeros is the byte zero. -/
theorem leadingZeros_add_eight (d : Nat) (b : UInt8) (bs : Bytes) :
    LeadingZeros (d + 8) (b :: bs) ↔ b = 0 ∧ LeadingZeros d bs := by
  have hbits : unBe (b :: bs) * 2 ^ (d + 8) = unBe (b :: bs) * 2 ^ d * 256 := by ring
  unfold LeadingZeros
  rw [hbits, List.length_cons, pow_succ, Nat.mul_lt_mul_right (by decide), unBe]
  by_cases hb : b = 0
  · subst hb
    rw [UInt8.toNat_zero, Nat.zero_mul, Nat.zero_add]
    exact (and_iff_right rfl).symm
  · have hpos : 1 ≤ b.toNat := Nat.one_le_iff_ne_zero.mpr fun h => hb (UInt8.toNat_inj.mp h)
    refine iff_of_false (Nat.not_lt.mpr ?_) fun h => hb h.1
    calc 256 ^ bs.length ≤ b.toNat * 256 ^ bs.length := Nat.le_mul_of_pos_left _ hpos
      _ ≤ b.toNat * 256 ^ bs.length + unBe bs := Nat.le_add_right _ _
      _ ≤ (b.toNat * 256 ^ bs.length + unBe bs) * 2 ^ d :=
        Nat.le_mul_of_pos_right _ (Nat.two_pow_pos d)

/-- Fewer than eight leading zeros are in the first byte. -/
theorem leadingZeros_of_lt_eight {d : Nat} (hd : d ≤ 8) (b : UInt8) (bs : Bytes) :
    LeadingZeros d (b :: bs) ↔ b.toNat < 2 ^ (8 - d) := by
  have hlow := unBe_lt bs
  have hpow : 256 ^ (bs.length + 1) = 2 ^ (8 - d) * 256 ^ bs.length * 2 ^ d := by
    have h256 : 256 = 2 ^ (8 - d) * 2 ^ d := by rw [← Nat.pow_add, Nat.sub_add_cancel hd]
    calc 256 ^ (bs.length + 1) = 256 ^ bs.length * 256 := pow_succ _ _
      _ = 256 ^ bs.length * (2 ^ (8 - d) * 2 ^ d) := by rw [← h256]
      _ = 2 ^ (8 - d) * 256 ^ bs.length * 2 ^ d := by ring
  unfold LeadingZeros
  rw [unBe, List.length_cons, hpow, Nat.mul_lt_mul_right (Nat.two_pow_pos d)]
  constructor
  · intro h
    by_contra hge
    have := Nat.mul_le_mul_right (256 ^ bs.length) (Nat.not_lt.mp hge)
    omega
  · intro h
    have := Nat.mul_le_mul_right (256 ^ bs.length) (Nat.succ_le_of_lt h)
    rw [Nat.succ_mul] at this
    omega

/-- Whole bytes of leading zeros, and what is left of them. -/
theorem leadingZeros_bytes {q r : Nat} {bs : Bytes} (h : q ≤ bs.length) :
    LeadingZeros (8 * q + r) bs ↔ (∀ b ∈ bs.take q, b = 0) ∧ LeadingZeros r (bs.drop q) := by
  induction q generalizing bs with
  | zero => simp
  | succ q ih =>
    cases bs with
    | nil => exact absurd h (Nat.not_succ_le_zero q)
    | cons b bs =>
      have hbits : 8 * (q + 1) + r = 8 * q + r + 8 := by omega
      rw [hbits, leadingZeros_add_eight, ih (Nat.le_of_succ_le_succ h), List.take_succ_cons,
        List.drop_succ_cons, List.forall_mem_cons, and_assoc]

end Lib
