import AlterChat.Core.Requests
import AlterChat.Lib.BigEndian

/-!
# `pow.rs`: tokens

`PoWToken::verify` of `alterchat-core/src/pow.rs`: the resource, an age of at most some seconds, and
leading zero bits in the hash of resource, timestamp and nonce. Nothing is kept of a token that was
verified. `PoWToken::mint` tries one nonce after the other.

* §1 `checkDifficulty` and `verify`;
* §2 `verify_iff` -- what a valid token is;
* §3 `checkDifficulty_iff` -- the bits as a bound on the hash, and so easier difficulties are met as
  well;
* §4 `mint`, `mint_iff` -- the first nonce that passes, and `minted_verifies_iff`.
-/

namespace AlterChat.Requests

open Lib

/-! ## 1. `verify` -/

/-- The loop of `check_difficulty`, from the number of bits checked on. -/
def checkDifficultyFrom (difficulty : Nat) : Nat → Bytes → Bool
  | _, [] => true
  | bitsChecked, byte :: rest =>
    if difficulty ≤ bitsChecked then true
    else
      let remainingBits := difficulty - bitsChecked
      if 8 ≤ remainingBits then
        if byte ≠ 0 then false else checkDifficultyFrom difficulty (bitsChecked + 8) rest
      else
        let mask := (0xFF : UInt8) <<< UInt8.ofNat (8 - remainingBits)
        decide (byte &&& mask = 0)

/-- `check_difficulty`. -/
def checkDifficulty (hash : Bytes) (difficulty : Nat) : Bool :=
  checkDifficultyFrom difficulty 0 hash

/-- What is hashed of a token; `to_le_bytes` writes a number as `bincode` does. -/
def PoWToken.preimage (t : PoWToken) : Bytes :=
  Codec.utf8.enc t.resource ++ Layout.u64.bytes t.timestamp ++ Layout.u64.bytes t.nonce

/-- `PoWToken::verify`, at a time in seconds. -/
def PoWToken.verify (sha256 : Bytes → Bytes) (t : PoWToken) (expectedResource : String)
    (difficulty : Nat) (maxAgeSeconds now : UInt64) : Bool :=
  if t.resource ≠ expectedResource then false
  else if now < t.timestamp ∨ maxAgeSeconds < now - t.timestamp then false
  else checkDifficulty (sha256 t.preimage) difficulty

/-- **Different tokens are hashed from different bytes**: the two numbers at the end have a fixed
    width. -/
theorem PoWToken.preimage_injective {t t' : PoWToken} (h : t.preimage = t'.preimage) : t = t' := by
  have hwidth : ∀ n : UInt64, (Layout.u64.bytes n).length = 8 := fun n => le_length 8 n.toNat
  have hnumber : ∀ n n' : UInt64, Layout.u64.bytes n = Layout.u64.bytes n' → n = n' :=
    fun n n' heq => Layout.u64.injective trivial trivial heq
  unfold PoWToken.preimage at h
  obtain ⟨hfront, hnonce⟩ := List.append_inj' h (by rw [hwidth, hwidth])
  obtain ⟨hresource, htimestamp⟩ := List.append_inj' hfront (by rw [hwidth, hwidth])
  cases t
  cases t'
  rw [PoWToken.mk.injEq]
  exact ⟨Codec.utf8.enc_injective hresource, hnumber _ _ htimestamp, hnumber _ _ hnonce⟩

/-! ## 2. Valid tokens -/

/-- **A token is valid** for its resource, from its timestamp on for so many seconds, whoever
    presents it and however often. -/
theorem PoWToken.verify_iff (sha256 : Bytes → Bytes) (t : PoWToken) (expectedResource : String)
    (difficulty : Nat) (maxAgeSeconds now : UInt64) :
    t.verify sha256 expectedResource difficulty maxAgeSeconds now = true ↔
      t.resource = expectedResource ∧
      t.timestamp.toNat ≤ now.toNat ∧ now.toNat ≤ t.timestamp.toNat + maxAgeSeconds.toNat ∧
      checkDifficulty (sha256 t.preimage) difficulty = true := by
  unfold PoWToken.verify
  by_cases hresource : t.resource = expectedResource
  · rw [if_neg (not_not.mpr hresource)]
    by_cases hage : now < t.timestamp ∨ maxAgeSeconds < now - t.timestamp
    · rw [if_pos hage]
      refine iff_of_false Bool.false_ne_true fun h => ?_
      obtain ⟨-, hfrom, hto, -⟩ := h
      rcases hage with hage | hage
      · exact absurd hfrom (Nat.not_le.mpr (UInt64.lt_iff_toNat_lt.mp hage))
      · rw [UInt64.lt_iff_toNat_lt, UInt64.toNat_sub_of_le _ _
          (UInt64.le_iff_toNat_le.mpr hfrom)] at hage
        omega
    · rw [if_neg hage]
      obtain ⟨hfrom, hto⟩ := not_or.mp hage
      have hfrom' : t.timestamp.toNat ≤ now.toNat :=
        Nat.le_of_not_lt fun h => hfrom (UInt64.lt_iff_toNat_lt.mpr h)
      rw [UInt64.lt_iff_toNat_lt, UInt64.toNat_sub_of_le _ _
        (UInt64.le_iff_toNat_le.mpr hfrom')] at hto
      have hto' : now.toNat ≤ t.timestamp.toNat + maxAgeSeconds.toNat := by omega
      simp only [hresource, hfrom', hto', true_and]
  · rw [if_pos hresource]
    exact iff_of_false Bool.false_ne_true fun h => hresource h.1

/-- A bit over one byte of leading zeros. -/
example : checkDifficulty [0x00, 0x7F, 0xFF] 9 = true ∧ checkDifficulty [0x00, 0x80] 9 = false := by
  decide

/-! ## 3. The bits -/

/-- The mask of `k` bits less than a byte leaves nothing of a byte below `2 ^ k`. -/
theorem masked_table : ∀ k : Fin 8, ∀ b : Fin 256,
    (UInt8.ofNat b.val &&& (0xFF : UInt8) <<< UInt8.ofNat k.val = 0 ↔ b.val < 2 ^ k.val) := by
  decide +kernel

theorem masked_iff (b : UInt8) {k : Nat} (hk : k < 8) :
    b &&& (0xFF : UInt8) <<< UInt8.ofNat k = 0 ↔ b.toNat < 2 ^ k := by
  have htable := masked_table ⟨k, hk⟩ ⟨b.toNat, b.toNat_lt⟩
  rwa [UInt8.ofNat_toNat] at htable

/-- The loop asks for the bits that are left, by induction on the bytes. -/
theorem checkDifficultyFrom_iff (difficulty bitsChecked : Nat) (hash : Bytes) :
    checkDifficultyFrom difficulty bitsChecked hash = true ↔
      LeadingZeros (difficulty - bitsChecked) hash := by
  induction hash generalizing bitsChecked with
  | nil => exact iff_of_true rfl (by simp [LeadingZeros, unBe])
  | cons byte rest ih =>
    rw [checkDifficultyFrom]
    by_cases hdone : difficulty ≤ bitsChecked
    · rw [if_pos hdone, Nat.sub_eq_zero_of_le hdone]
      exact iff_of_true rfl (leadingZeros_zero _)
    · rw [if_neg hdone]
      dsimp only
      by_cases hwhole : 8 ≤ difficulty - bitsChecked
      · have hbits : difficulty - bitsChecked = difficulty - (bitsChecked + 8) + 8 := by omega
        rw [if_pos hwhole, hbits, leadingZeros_add_eight, ← ih (bitsChecked + 8)]
        by_cases hzero : byte = 0
        · rw [if_neg (not_not.mpr hzero), and_iff_right hzero]
        · rw [if_pos hzero]
          exact iff_of_false Bool.false_ne_true fun h => hzero h.1
      · rw [if_neg hwhole, decide_eq_true_eq, masked_iff _ (by omega),
          leadingZeros_of_lt_eight (by omega)]

/-- **A hash meets a difficulty** if it is that small as a number. -/
theorem checkDifficulty_iff (hash : Bytes) (difficulty : Nat) :
    checkDifficulty hash difficulty = true ↔ LeadingZeros difficulty hash :=
  checkDifficultyFrom_iff difficulty 0 hash

/-- What meets a difficulty meets an easier one. -/
theorem checkDifficulty_mono {hash : Bytes} {d d' : Nat} (h : checkDifficulty hash d = true)
    (hle : d' ≤ d) : checkDifficulty hash d' = true :=
  (checkDifficulty_iff hash d').mpr (((checkDifficulty_iff hash d).mp h).mono hle)

/-! ## 4. Minting -/

section

variable (sha256 : Bytes → Bytes) (resource : String) (difficulty : Nat) (timestamp : UInt64)

/-- The hash of a nonce that is tried. -/
def mintHash (nonce : UInt64) : Bytes :=
  sha256 (Codec.utf8.enc resource ++ Layout.u64.bytes timestamp ++ Layout.u64.bytes nonce)

/-- The loop of `mint`, with the number of nonces from this one on. After the last `nonce += 1`
    overflows: that panics or starts again with the same nonces, and the call never returns. -/
def mintFrom : Nat → UInt64 → Option PoWToken
  | 0, _ => none
  | rounds + 1, nonce =>
    if checkDifficulty (mintHash sha256 resource timestamp nonce) difficulty then
      some { resource, timestamp, nonce }
    else mintFrom rounds (nonce + 1)

/-- `PoWToken::mint`, at a time in seconds; `none`: it does not return. -/
def PoWToken.mint : Option PoWToken := mintFrom sha256 resource difficulty timestamp (2 ^ 64) 0

end

section

variable {sha256 : Bytes → Bytes} {resource : String} {difficulty : Nat} {timestamp : UInt64}

/-- Whether a nonce passes. -/
def Passes (sha256 : Bytes → Bytes) (resource : String) (difficulty : Nat) (timestamp : UInt64)
    (n : Nat) : Bool :=
  checkDifficulty (mintHash sha256 resource timestamp (UInt64.ofNat n)) difficulty

/-- The loop is the search through the nonces that are left. -/
theorem mintFrom_eq_find (rounds n : Nat) :
    mintFrom sha256 resource difficulty timestamp rounds (UInt64.ofNat n) =
      ((List.range' n rounds).find? (Passes sha256 resource difficulty timestamp)).map fun m =>
        { resource, timestamp, nonce := UInt64.ofNat m } := by
  induction rounds generalizing n with
  | zero => rfl
  | succ rounds ih =>
    have hnext : UInt64.ofNat n + 1 = UInt64.ofNat (n + 1) := UInt64.ofNat_add n 1 |>.symm
    rw [mintFrom, List.range'_succ, List.find?_cons, hnext, ih (n + 1)]
    cases hpass : Passes sha256 resource difficulty timestamp n with
    | false => exact if_neg (Bool.not_eq_true _ ▸ hpass)
    | true => exact if_pos hpass

/-- The first of so many nonces that passes. -/
theorem mintFrom_iff {rounds : Nat} (hrounds : rounds ≤ 2 ^ 64) (t : PoWToken) :
    mintFrom sha256 resource difficulty timestamp rounds 0 = some t ↔
      t.resource = resource ∧ t.timestamp = timestamp ∧ t.nonce.toNat < rounds ∧
      Passes sha256 resource difficulty timestamp t.nonce.toNat = true ∧
      ∀ n < t.nonce.toNat, Passes sha256 resource difficulty timestamp n = false := by
  have hloop : mintFrom sha256 resource difficulty timestamp rounds (UInt64.ofNat 0) = _ :=
    mintFrom_eq_find rounds 0
  rw [← List.range_eq_range'] at hloop
  rw [show (0 : UInt64) = UInt64.ofNat 0 from rfl, hloop, Option.map_eq_some_iff]
  constructor
  · intro h
    obtain ⟨n, hfind, rfl⟩ := h
    obtain ⟨hpass, hmem, hfirst⟩ := List.find?_range_eq_some.mp hfind
    have hlt : n < rounds := List.mem_range.mp hmem
    have hnat : (UInt64.ofNat n).toNat = n :=
      UInt64.toNat_ofNat_of_lt (Nat.lt_of_lt_of_le hlt hrounds)
    refine ⟨rfl, rfl, ?_⟩
    dsimp only
    rw [hnat]
    exact ⟨hlt, hpass, fun m hm => by simpa using hfirst m hm⟩
  · intro h
    obtain ⟨rfl, rfl, hlt, hpass, hfirst⟩ := h
    refine ⟨t.nonce.toNat, List.find?_range_eq_some.mpr
      ⟨hpass, List.mem_range.mpr hlt, fun m hm => ?_⟩, ?_⟩
    · rw [hfirst m hm]
      rfl
    · rw [UInt64.ofNat_toNat]

/-- **`mint` returns the first nonce that passes.** -/
theorem PoWToken.mint_iff (t : PoWToken) :
    PoWToken.mint sha256 resource difficulty timestamp = some t ↔
      t.resource = resource ∧ t.timestamp = timestamp ∧
      Passes sha256 resource difficulty timestamp t.nonce.toNat = true ∧
      ∀ n < t.nonce.toNat, Passes sha256 resource difficulty timestamp n = false := by
  rw [PoWToken.mint, mintFrom_iff (Nat.le_refl (2 ^ 64)), and_iff_right t.nonce.toNat_lt]

/-- It does not return where no nonce passes. -/
theorem PoWToken.mint_none_iff :
    PoWToken.mint sha256 resource difficulty timestamp = none ↔
      ∀ n < 2 ^ 64, Passes sha256 resource difficulty timestamp n = false := by
  have hloop : mintFrom sha256 resource difficulty timestamp (2 ^ 64) (UInt64.ofNat 0) = _ :=
    mintFrom_eq_find (2 ^ 64) 0
  rw [← List.range_eq_range'] at hloop
  rw [PoWToken.mint, show (0 : UInt64) = UInt64.ofNat 0 from rfl, hloop, Option.map_eq_none_iff,
    List.find?_range_eq_none]
  exact forall₂_congr fun n _ => by rw [Bool.not_eq_true']

/-- **A minted token verifies exactly as promised**: `mint` returns the token of the first nonce
    that passes, with the time at which it was called, and does not return just where none passes;
    the token verifies for its resource, from its timestamp on for the age that is allowed, at every
    difficulty up to its own. -/
theorem PoWToken.minted_verifies_iff (sha256 : Bytes → Bytes) (resource : String) (difficulty : Nat)
    (timestamp : UInt64) :
    (∀ t, PoWToken.mint sha256 resource difficulty timestamp = some t ↔
      t.resource = resource ∧ t.timestamp = timestamp ∧
      Passes sha256 resource difficulty timestamp t.nonce.toNat = true ∧
      ∀ n < t.nonce.toNat, Passes sha256 resource difficulty timestamp n = false) ∧
    (PoWToken.mint sha256 resource difficulty timestamp = none ↔
      ∀ n < 2 ^ 64, Passes sha256 resource difficulty timestamp n = false) ∧
    ∀ t, PoWToken.mint sha256 resource difficulty timestamp = some t →
      t.timestamp = timestamp ∧
      ∀ (now maxAgeSeconds : UInt64) (expectedResource : String), ∀ d ≤ difficulty,
        t.verify sha256 expectedResource d maxAgeSeconds now = true ↔
          expectedResource = resource ∧ (t.timestamp.toNat : Int) ≤ now.toNat ∧
          (now.toNat : Int) ≤ t.timestamp.toNat + maxAgeSeconds.toNat := by
  refine ⟨PoWToken.mint_iff, PoWToken.mint_none_iff, fun t h => ?_⟩
  obtain ⟨rfl, rfl, hpass, -⟩ := (PoWToken.mint_iff t).mp h
  refine ⟨rfl, fun now maxAgeSeconds expectedResource d hd => ?_⟩
  have hbits : checkDifficulty (sha256 t.preimage) d = true := by
    rw [Passes, UInt64.ofNat_toNat] at hpass
    exact checkDifficulty_mono hpass hd
  rw [PoWToken.verify_iff, hbits, eq_comm]
  constructor
  · rintro ⟨hresource, hfrom, hto, -⟩
    exact ⟨hresource, by omega, by omega⟩
  · rintro ⟨hresource, hfrom, hto⟩
    exact ⟨hresource, by omega, by omega, rfl⟩

/-- Under a hash of one byte, zero where the nonce ends in the byte 7: the token that is minted, and
    its last second. -/
theorem PoWToken.minted_verifies_iff_seven :
    let sha256 : Bytes → Bytes := fun bytes => [7 - bytes.getD 9 0]
    let t : PoWToken := { resource := "b", timestamp := 100, nonce := 7 }
    PoWToken.mint sha256 "b" 8 100 = some t ∧ t.verify sha256 "b" 3 60 160 = true := by
  intro sha256 t
  have hminted := PoWToken.minted_verifies_iff sha256 "b" 8 100
  have hmint : PoWToken.mint sha256 "b" 8 100 = some t :=
    (hminted.1 t).mpr ⟨rfl, rfl, by decide +kernel, by decide +kernel⟩
  exact ⟨hmint, ((hminted.2.2 t hmint).2 160 60 "b" 3 (by decide)).mpr ⟨rfl, by decide, by decide⟩⟩

end

end AlterChat.Requests
