import AlterChat.Lib.BigEndian
import AlterChat.Lib.Gcm
import AlterChat.Lib.Slices
import Mathlib.Data.Set.Insert

/-!
# `derive_safety_number`

The safety number of two public keys, of `alterchat-core/src/crypto.rs`: a hash of both keys, the
smaller one first, of which 30 bytes are shown as five blocks of twelve decimal digits. SHA-256 is
any function to 32 bytes, and an overflow of the block arithmetic is a panic, `none`.

* §1 `zeroPadded` -- `format!("{:012}", n)`;
* §2 `deriveSafetyNumber`;
* §3 `hashed_eq_iff` -- what is hashed are the two keys, in no order;
* §4 `block_eq` -- a block is the number of its six bytes, cut off to twelve digits;
* §5 `safety_number`.
-/

namespace AlterChat.SafetyNumber

open Lib

/-! ## 1. Numbers with zeros in front -/

/-- The decimal digits of a number, with zeros in front up to the width. -/
def zeroPadded (width n : Nat) : String :=
  let digits := Nat.toDigits 10 n
  String.ofList (List.replicate (width - digits.length) '0' ++ digits)

theorem zeroPadded_length {width n : Nat} (hw : 0 < width) (h : n < 10 ^ width) :
    (zeroPadded width n).length = width := by
  have hle : (Nat.toDigits 10 n).length ≤ width := (Nat.length_toDigits_le_iff (by decide) hw).mpr h
  rw [zeroPadded, String.length_ofList, List.length_append, List.length_replicate,
    Nat.sub_add_cancel hle]

theorem zeroPadded_isDigit {width n : Nat} {ch : Char} (h : ch ∈ (zeroPadded width n).toList) :
    ch.isDigit = true := by
  rw [zeroPadded, String.toList_ofList, List.mem_append] at h
  rcases h with hzero | hdigit
  · rw [List.eq_of_mem_replicate hzero]
    rfl
  · exact Nat.isDigit_of_mem_toDigits (by decide) (by decide) hdigit

/-! ## 2. The function -/

/-- The keys in the order in which they are hashed: `my_pubkey < peer_pubkey` compares byte by
    byte. -/
def ordered (myPubkey peerPubkey : Key32) : Key32 × Key32 :=
  if myPubkey.toList < peerPubkey.toList then (myPubkey, peerPubkey) else (peerPubkey, myPubkey)

/-- What is hashed. -/
def hashed (myPubkey peerPubkey : Key32) : Bytes :=
  let (first, second) := ordered myPubkey peerPubkey
  first.toList ++ second.toList ++ "AlterChat_SafetyNumber_v1".toUTF8.toList

/-- A block of six bytes. -/
def block (chunk : Bytes) : Option String :=
  let n := chunk.foldlM
    (fun acc b => (checkedMul 64 acc 256).bind fun high => checkedAdd 64 high b.toNat) 0
  n.map fun n => zeroPadded 12 (n % 1000000000000)

/-- `derive_safety_number`. -/
def deriveSafetyNumber (sha256 : Bytes → Vector UInt8 32) (myPubkey peerPubkey : Key32) :
    Option String :=
  let hash := sha256 (hashed myPubkey peerPubkey)
  let nums := hash.toList.take 30
  ((chunks 6 nums).mapM block).map (String.intercalate " ")

/-! ## 3. The keys in no order -/

theorem ordered_comm (a b : Key32) : ordered a b = ordered b a := by
  unfold ordered
  by_cases hab : a.toList < b.toList
  · rw [if_pos hab, if_neg (List.lt_asymm hab)]
  · by_cases hba : b.toList < a.toList
    · rw [if_neg hab, if_pos hba]
    · have heq : a = b := Vector.toList_inj.mp
        (List.le_antisymm (List.not_lt.mp hba) (List.not_lt.mp hab))
      rw [heq]

theorem hashed_eq (a b : Key32) : hashed a b =
    (ordered a b).1.toList ++ (ordered a b).2.toList ++ "AlterChat_SafetyNumber_v1".toUTF8.toList :=
  rfl

theorem hashed_comm (a b : Key32) : hashed a b = hashed b a := by
  rw [hashed, hashed, ordered_comm]

/-- Nothing but the order is lost. -/
theorem pair_ordered (a b : Key32) : ({(ordered a b).1, (ordered a b).2} : Set Key32) = {a, b} := by
  unfold ordered
  split
  · rfl
  · exact Set.pair_comm b a

/-- **The bytes that are hashed are those of the unordered pair.** -/
theorem hashed_eq_iff (a b c d : Key32) :
    hashed a b = hashed c d ↔ ({a, b} : Set Key32) = {c, d} := by
  constructor
  · intro h
    rw [hashed_eq, hashed_eq] at h
    obtain ⟨hkeys, -⟩ := List.append_inj' h rfl
    obtain ⟨hfirst, hsecond⟩ :=
      List.append_inj hkeys (by rw [Vector.length_toList, Vector.length_toList])
    rw [← pair_ordered a b, ← pair_ordered c d, Vector.toList_inj.mp hfirst,
      Vector.toList_inj.mp hsecond]
  · intro h
    rcases Set.pair_eq_pair_iff.mp h with ⟨rfl, rfl⟩ | ⟨rfl, rfl⟩
    · rfl
    · exact hashed_comm a b

/-! ## 4. A block -/

/-- The fold of a block, from a number on: nothing overflows as long as the result fits. -/
theorem fold_eq (chunk : Bytes) (acc : Nat) (h : acc * 256 ^ chunk.length + unBe chunk < 2 ^ 64) :
    chunk.foldlM
      (fun acc b => (checkedMul 64 acc 256).bind fun high => checkedAdd 64 high b.toNat) acc =
      some (acc * 256 ^ chunk.length + unBe chunk) := by
  induction chunk generalizing acc with
  | nil =>
    rw [List.foldlM_nil, List.length_nil, Nat.pow_zero, Nat.mul_one]
    rfl
  | cons b chunk ih =>
    have hsplit : acc * 256 ^ (b :: chunk).length + unBe (b :: chunk) =
        (acc * 256 + b.toNat) * 256 ^ chunk.length + unBe chunk := by
      rw [List.length_cons, unBe]
      ring
    rw [hsplit] at h ⊢
    have hone : 1 ≤ 256 ^ chunk.length :=
      Nat.one_le_two_pow.trans (Nat.pow_le_pow_left (by decide) _)
    have hsum : acc * 256 + b.toNat < 2 ^ 64 := by
      have := Nat.le_mul_of_pos_right (acc * 256 + b.toNat) hone
      omega
    have hmul : acc * 256 < 2 ^ 64 := Nat.lt_of_le_of_lt (Nat.le_add_right _ _) hsum
    simp -implicitDefEqProofs only [List.foldlM_cons, checkedMul_eq hmul, checkedAdd_eq hsum,
      Option.bind_some, Option.bind_eq_bind]
    exact ih _ h

/-- **A block is the number of its bytes, cut off to twelve digits.** -/
theorem block_eq {chunk : Bytes} (h : chunk.length ≤ 6) :
    block chunk = some (zeroPadded 12 (unBe chunk % 1000000000000)) := by
  have hlt : unBe chunk < 2 ^ 64 := by
    calc unBe chunk < 256 ^ chunk.length := unBe_lt chunk
      _ ≤ 256 ^ 6 := Nat.pow_le_pow_right (by decide) h
      _ ≤ 2 ^ 64 := by decide
  have hfold := fold_eq chunk 0 (by omega)
  rw [Nat.zero_mul, Nat.zero_add] at hfold
  rw [block, hfold]
  rfl

/-! ## 5. The number -/

/-- The blocks of a hash. -/
def blocks (hash : Vector UInt8 32) : List String :=
  (chunks 6 (hash.toList.take 30)).map fun chunk => zeroPadded 12 (unBe chunk % 1000000000000)

theorem deriveSafetyNumber_eq (sha256 : Bytes → Vector UInt8 32) (a b : Key32) :
    deriveSafetyNumber sha256 a b =
      some (String.intercalate " " (blocks (sha256 (hashed a b)))) := by
  have hblocks : (chunks 6 ((sha256 (hashed a b)).toList.take 30)).mapM block =
      some (blocks (sha256 (hashed a b))) :=
    mapM_eq_pure fun chunk hmem => block_eq (chunks_mem_length (by decide) hmem).2
  rw [deriveSafetyNumber, hblocks, Option.map_some]

theorem blocks_length (hash : Vector UInt8 32) : (blocks hash).length = 5 := by
  rw [blocks, List.length_map, chunks_length, List.length_take, Vector.length_toList]
  rfl

theorem blocks_mem {hash : Vector UInt8 32} {text : String} (h : text ∈ blocks hash) :
    text.length = 12 ∧ ∀ ch ∈ text.toList, ch.isDigit = true := by
  obtain ⟨chunk, -, rfl⟩ := List.mem_map.mp h
  have hlt : unBe chunk % 1000000000000 < 10 ^ 12 := Nat.mod_lt _ (by decide)
  exact ⟨zeroPadded_length (by decide) hlt, fun ch hch => zeroPadded_isDigit hch⟩

/-- **A safety number belongs to two keys in no order**: both sides derive the same one, it is made
    of the blocks of the hash of the bytes that are hashed, different pairs hash different bytes,
    and it is always five blocks of twelve digits. -/
theorem safety_number (sha256 : Bytes → Vector UInt8 32) (a b c d : Key32) :
    deriveSafetyNumber sha256 a b = deriveSafetyNumber sha256 b a ∧
    (hashed a b = hashed c d ↔ ({a, b} : Set Key32) = {c, d}) ∧
    deriveSafetyNumber sha256 a b = some (String.intercalate " " (blocks (sha256 (hashed a b)))) ∧
    (blocks (sha256 (hashed a b))).length = 5 ∧
    ∀ text ∈ blocks (sha256 (hashed a b)), text.length = 12 ∧ ∀ ch ∈ text.toList,
      ch.isDigit = true := by
  refine ⟨?_, hashed_eq_iff a b c d, deriveSafetyNumber_eq sha256 a b, blocks_length _,
    fun text h => blocks_mem h⟩
  rw [deriveSafetyNumber, deriveSafetyNumber, hashed_comm]

/-- Two keys with the hash of zeros. -/
example : deriveSafetyNumber (fun _ => Vector.replicate 32 0) 0 0 =
    some "000000000000 000000000000 000000000000 000000000000 000000000000" := by
  decide +kernel

end AlterChat.SafetyNumber
