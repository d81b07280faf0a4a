import AlterChat.Core.Pow
import AlterChat.Lib.Slices

/-!
# `spam.rs`: challenges

`verify_pow` and `solve_pow` of `alterchat-core/src/spam.rs`, with the second test for leading zero
bits. What is hashed is the challenge id, the nonce and the solution, one after the other: a token
of `pow.rs` ends with two numbers of eight bytes, here all three parts have the length a peer gives
them.

* §1 `has_leading_zero_bits`, challenges and solutions;
* §2 `leading_zero_tests_agree` -- the two tests and the bound on the hash;
* §3 `solution_belongs_iff` -- for which two challenges no solution of one is a solution of the
  other.
-/

namespace AlterChat.Spam

open Lib Requests

/-! ## 1. Challenges -/

/-- `has_leading_zero_bits`. -/
def hasLeadingZeroBits (bytes : Bytes) (bits : UInt8) : Bool :=
  let fullBytes := (bits / 8).toNat
  let remBits := bits % 8
  if (bytes.take fullBytes).any fun b => decide (b ≠ 0) then false
  else if remBits = 0 then true
  else
    let mask := (0xFF : UInt8) <<< (8 - remBits)
    ((byteAt bytes fullBytes).map fun b => decide (b &&& mask = 0)).getD false

structure PowChallenge where
  challengeId : String
  difficultyBits : UInt8
  nonce : Bytes
  deriving DecidableEq

/-- What a solution is appended to. -/
def PowChallenge.lead (challenge : PowChallenge) : Bytes :=
  Codec.utf8.enc challenge.challengeId ++ challenge.nonce

/-- What is hashed. -/
def powPreimage (challenge : PowChallenge) (solution : Bytes) : Bytes := challenge.lead ++ solution

section

variable (sha256 : Bytes → Vector UInt8 32)

/-- `verify_pow`. -/
def verifyPow (challenge : PowChallenge) (solution : Bytes) : Bool :=
  hasLeadingZeroBits (sha256 (powPreimage challenge solution)).toList challenge.difficultyBits

/-- `solve_pow`: the first counter of eight bytes that is a solution. -/
def solvePow (challenge : PowChallenge) (maxIters : UInt64) : Option Bytes :=
  (List.range maxIters.toNat).findSome? fun counter =>
    let solution := be 8 counter
    if verifyPow sha256 challenge solution then some solution else none

end

/-- What is solved verifies, with a solution of eight bytes. -/
theorem solvePow_verifies {sha256 : Bytes → Vector UInt8 32} {challenge : PowChallenge}
    {maxIters : UInt64} {solution : Bytes}
    (h : solvePow sha256 challenge maxIters = some solution) :
    verifyPow sha256 challenge solution = true ∧ solution.length = 8 := by
  obtain ⟨counter, -, hcounter⟩ := List.exists_of_findSome?_eq_some h
  dsimp only at hcounter
  by_cases hpass : verifyPow sha256 challenge (be 8 counter) = true
  · rw [if_pos hpass] at hcounter
    cases hcounter
    exact ⟨hpass, be_length 8 counter⟩
  · rw [if_neg hpass] at hcounter
    cases hcounter

/-! ## 2. The two tests -/

/-- What the first byte behind the whole bytes is shifted by. -/
theorem shift_eq (bits : UInt8) : 8 - bits % 8 = UInt8.ofNat (8 - (bits % 8).toNat) := by
  have hrem : (bits % 8).toNat ≤ (8 : UInt8).toNat := by
    rw [UInt8.toNat_mod]
    exact Nat.le_of_lt (Nat.mod_lt _ (by decide))
  have hfits : 8 - (bits % 8).toNat < 2 ^ 8 := by omega
  rw [← UInt8.toNat_inj, UInt8.toNat_sub_of_le _ _ (UInt8.le_iff_toNat_le.mpr hrem),
    UInt8.toNat_ofNat_of_lt' hfits]
  rfl

/-- **The test is the bound**, where the hash has that many bits. -/
theorem hasLeadingZeroBits_iff {bytes : Bytes} {bits : UInt8} (h : bits.toNat ≤ 8 * bytes.length) :
    hasLeadingZeroBits bytes bits = true ↔ LeadingZeros bits.toNat bytes := by
  have hquot : (bits / 8).toNat = bits.toNat / 8 := UInt8.toNat_div bits 8
  have hrem : (bits % 8).toNat = bits.toNat % 8 := UInt8.toNat_mod bits 8
  have hsum : 8 * (bits / 8).toNat + (bits % 8).toNat = bits.toNat := by omega
  rw [← hsum, leadingZeros_bytes (by omega)]
  unfold hasLeadingZeroBits
  dsimp only
  by_cases hany : ((bytes.take (bits / 8).toNat).any fun b => decide (b ≠ 0)) = true
  · rw [if_pos hany]
    refine iff_of_false Bool.false_ne_true fun hzero => ?_
    obtain ⟨b, hmem, hb⟩ := List.any_eq_true.mp hany
    exact of_decide_eq_true hb (hzero.1 b hmem)
  · have hzero : ∀ b ∈ bytes.take (bits / 8).toNat, b = 0 := by
      intro b hmem
      by_contra hb
      exact hany (List.any_eq_true.mpr ⟨b, hmem, decide_eq_true hb⟩)
    rw [if_neg hany, and_iff_right hzero]
    by_cases hwhole : bits % 8 = 0
    · rw [if_pos hwhole, hwhole]
      exact iff_of_true rfl (leadingZeros_zero _)
    · have hpos : 0 < (bits % 8).toNat :=
        Nat.pos_of_ne_zero fun hrem' => hwhole (UInt8.toNat_inj.mp hrem')
      have hlt : (bits / 8).toNat < bytes.length := by omega
      rw [if_neg hwhole, shift_eq, byteAt, List.getElem?_eq_getElem hlt, Option.map_some,
        Option.getD_some,
        decide_eq_true_eq, masked_iff _ (by omega), List.drop_eq_getElem_cons hlt,
        leadingZeros_of_lt_eight (by omega)]

/-- **The two tests agree with each other and with their meaning**: the hash is below
    `2 ^ (256 - d)` as a number. So a hash that passes one passes every easier one. -/
theorem leading_zero_tests_agree (hash : Vector UInt8 32) (d : UInt8) :
    checkDifficulty hash.toList d.toNat = hasLeadingZeroBits hash.toList d ∧
    (checkDifficulty hash.toList d.toNat = true ↔ unBe hash.toList < 2 ^ (256 - d.toNat)) ∧
    (hasLeadingZeroBits hash.toList d = true ↔ unBe hash.toList < 2 ^ (256 - d.toNat)) ∧
    ∀ d' ≤ d, checkDifficulty hash.toList d.toNat = true →
      checkDifficulty hash.toList d'.toNat = true ∧ hasLeadingZeroBits hash.toList d' = true := by
  have hbits : ∀ e : UInt8, e.toNat ≤ 8 * hash.toList.length := by
    intro e
    have hlt := e.toNat_lt
    rw [Vector.length_toList]
    omega
  have hbound : LeadingZeros d.toNat hash.toList ↔ unBe hash.toList < 2 ^ (256 - d.toNat) := by
    rw [leadingZeros_iff_lt (hbits d), Vector.length_toList]
  have hfirst := (checkDifficulty_iff hash.toList d.toNat).trans hbound
  have hsecond := (hasLeadingZeroBits_iff (hbits d)).trans hbound
  refine ⟨Bool.eq_iff_iff.mpr (hfirst.trans hsecond.symm), hfirst, hsecond, fun d' hd hpass => ?_⟩
  have heasier := checkDifficulty_mono hpass (UInt8.le_iff_toNat_le.mp hd)
  exact ⟨heasier, (hasLeadingZeroBits_iff (hbits d')).mpr ((checkDifficulty_iff _ _).mp heasier)⟩

/-! ## 3. Whose solution it is -/

/-- Two beginnings can be continued to the same bytes if one of them begins with the other. -/
theorem append_eq_append_iff_prefix {α : Type} (a b : List α) :
    (∃ s s', a ++ s = b ++ s') ↔ a <+: b ∨ b <+: a := by
  constructor
  · intro h
    obtain ⟨s, s', heq⟩ := h
    exact List.prefix_or_prefix_of_prefix (List.prefix_append a s) (heq ▸ List.prefix_append b s')
  · intro h
    rcases h with ⟨rest, rfl⟩ | ⟨rest, rfl⟩
    · exact ⟨rest, [], (List.append_nil _).symm⟩
    · exact ⟨[], rest, List.append_nil _⟩

/-- **Work for one challenge cannot be presented for another** just where neither id and nonce begin
    with the id and the nonce of the other. -/
theorem solution_belongs_iff (c c' : PowChallenge) :
    (∀ solution solution', powPreimage c solution ≠ powPreimage c' solution') ↔
      ¬ c.lead <+: c'.lead ∧ ¬ c'.lead <+: c.lead := by
  rw [← not_or, ← append_eq_append_iff_prefix]
  constructor
  · intro h hsame
    obtain ⟨s, s', heq⟩ := hsame
    exact h s s' heq
  · intro h s s' heq
    exact h ⟨s, s', heq⟩

/-- Where the ids have one length and the nonces have one length, challenges that differ are
    apart. -/
theorem apart_of_lengths {c c' : PowChallenge}
    (hid : (Codec.utf8.enc c.challengeId).length = (Codec.utf8.enc c'.challengeId).length)
    (hnonce : c.nonce.length = c'.nonce.length)
    (h : c.challengeId ≠ c'.challengeId ∨ c.nonce ≠ c'.nonce) :
    ¬ c.lead <+: c'.lead ∧ ¬ c'.lead <+: c.lead := by
  have hlen : c.lead.length = c'.lead.length := by
    rw [PowChallenge.lead, PowChallenge.lead, List.length_append, List.length_append, hid, hnonce]
  have hne : c.lead ≠ c'.lead := by
    intro heq
    obtain ⟨hsame, hsame'⟩ := List.append_inj heq hid
    rcases h with h | h
    · exact h (Codec.utf8.enc_injective hsame)
    · exact h hsame'
  exact ⟨fun hpre => hne (hpre.eq_of_length hlen), fun hpre =>
    hne (hpre.eq_of_length hlen.symm).symm⟩

/-- The solution of a challenge with the rest of its nonce in front is a solution of a shorter
    one. -/
theorem moved_solution (sha256 : Bytes → Vector UInt8 32) {c c' : PowChallenge} {rest : Bytes}
    (hlead : c'.lead = c.lead ++ rest) (hbits : c.difficultyBits = c'.difficultyBits)
    (solution : Bytes) : verifyPow sha256 c (rest ++ solution) = verifyPow sha256 c' solution := by
  unfold verifyPow powPreimage
  rw [hlead, hbits, List.append_assoc]

/-- **Bytes move between nonce and solution**: the challenges differ, and the same bytes are
    hashed. -/
theorem solution_moves : ¬ ∀ c c' : PowChallenge,
    (c.challengeId ≠ c'.challengeId ∨ c.nonce ≠ c'.nonce) →
      ∀ solution solution', powPreimage c solution ≠ powPreimage c' solution' := by
  intro h
  exact h { challengeId := "m", difficultyBits := 8, nonce := [1] }
    { challengeId := "m", difficultyBits := 8, nonce := [1, 2] }
    (.inr (by decide)) [2, 3] [3] (by decide +kernel)

end AlterChat.Spam
