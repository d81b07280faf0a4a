import AlterChat.Core.Traffic
import AlterChat.Lib.Slices

/-!
# Blocks and cover traffic

The block law of `pad_message`, `unpad_message` access by access, and `generate_chaff_payload` of
`alterchat-core/src/traffic.rs`. A room payload is published padded, a chaff payload as it is
generated, so four bytes of prefix come on top of the blocks in the one and are part of the block in
the other.

* §1 `padMessage_length`, `padding_lossless` -- padding loses nothing and shows the block only;
* §2 `unpadMessageChecked_eq` -- no access of `unpad_message` leaves its input;
* §3 `chaff_told_apart` -- chaff has a length that no padded message has.
-/

namespace AlterChat.Traffic

open Lib

/-! ## 1. Blocks -/

/-- **A padded message is a prefix and whole blocks**, one more than the data fills. -/
theorem padMessage_length (data : Bytes) :
    (padMessage data).length = 4 + BLOCK_SIZE * (data.length / BLOCK_SIZE + 1) := by
  have hdiv := Nat.div_add_mod data.length BLOCK_SIZE
  have hmod : data.length % BLOCK_SIZE < BLOCK_SIZE := Nat.mod_lt _ (by decide)
  have hprefix : (toBeBytes data.length).length = 4 := rfl
  unfold padMessage
  simp only [List.length_append, List.length_replicate, hprefix]
  rw [Nat.mul_succ]
  omega

/-! ## 2. Accesses -/

/-- `unpad_message`, with each access checked. -/
def unpadMessageChecked (data : Bytes) : Option (Option Bytes) :=
  if data.length < 4 then some none
  else do
    let a ← byteAt data 0
    let b ← byteAt data 1
    let c ← byteAt data 2
    let d ← byteAt data 3
    let origLen := fromBeBytes a b c d
    let needed ← addUsize origLen 4
    if needed > data.length then return none
    else
      let stop ← addUsize 4 origLen
      let body ← slice data 4 stop
      return some body

theorem fromBeBytes_lt (a b c d : UInt8) : fromBeBytes a b c d < 2 ^ 32 := by
  have ha := a.toNat_lt
  have hb := b.toNat_lt
  have hc := c.toNat_lt
  have hd := d.toNat_lt
  unfold fromBeBytes
  omega

/-- **No access leaves the input**, whatever length it claims. -/
theorem unpadMessageChecked_eq (data : Bytes) :
    unpadMessageChecked data = some (unpadMessage data) := by
  match data with
  | [] => rfl
  | [_] => rfl
  | [_, _] => rfl
  | [_, _, _] => rfl
  | a :: b :: c :: d :: rest =>
    have hlt := fromBeBytes_lt a b c d
    have hlong : ¬ (a :: b :: c :: d :: rest).length < 4 := by
      simp only [List.length_cons]
      omega
    unfold unpadMessageChecked unpadMessage
    rw [if_neg hlong]
    simp -implicitDefEqProofs only [byteAt, List.getElem?_cons_zero, List.getElem?_cons_succ,
      Option.bind_eq_bind, Option.bind_some]
    generalize fromBeBytes a b c d = origLen at hlt
    rw [addUsize_eq (by omega), addUsize_eq (by omega), Option.bind_some]
    by_cases hshort : origLen + 4 > (a :: b :: c :: d :: rest).length
    · rw [if_pos hshort, if_pos hshort]
      rfl
    · rw [if_neg hshort, if_neg hshort, Option.bind_some, slice_eq (by omega) (by omega),
        Nat.add_sub_cancel_left]
      rfl

/-- What is returned stands in the input. -/
theorem unpadMessage_slice {data out : Bytes} (h : unpadMessage data = some out) :
    ∃ lo hi, slice data lo hi = some out := by
  match data, h with
  | a :: b :: c :: d :: rest, h =>
    unfold unpadMessage at h
    dsimp only at h
    by_cases hshort : fromBeBytes a b c d + 4 > (a :: b :: c :: d :: rest).length
    · rw [if_pos hshort] at h
      cases h
    · rw [if_neg hshort] at h
      refine ⟨4, 4 + fromBeBytes a b c d, ?_⟩
      rw [slice_eq (by omega) (by omega), Nat.add_sub_cancel_left]
      exact h

/-- **Padding loses nothing and shows the block only**: data is read back, its padded length is that
    of its block, and no byte string makes `unpad_message` read beside it. -/
theorem padding_lossless {data : Bytes} (hlen : data.length < 2 ^ 32) :
    unpadMessageChecked (padMessage data) = some (some data) ∧
    (∃ blocks, 0 < blocks ∧ (padMessage data).length = 4 + BLOCK_SIZE * blocks ∧
      data.length < BLOCK_SIZE * blocks ∧ BLOCK_SIZE * blocks ≤ data.length + BLOCK_SIZE) ∧
    (∀ other : Bytes, other.length / BLOCK_SIZE = data.length / BLOCK_SIZE →
      (padMessage other).length = (padMessage data).length) ∧
    ∀ bytes, ∃ result, unpadMessageChecked bytes = some result ∧
      ∀ out, result = some out → ∃ lo hi, slice bytes lo hi = some out := by
  refine ⟨?_, ⟨data.length / BLOCK_SIZE + 1, Nat.succ_pos _, padMessage_length data, ?_, ?_⟩, ?_,
    ?_⟩
  · rw [unpadMessageChecked_eq, unpadMessage_padMessage hlen]
  · exact Nat.lt_mul_div_succ _ (by decide)
  · rw [Nat.mul_succ]
    exact Nat.add_le_add_right (Nat.mul_div_le _ _) _
  · intro other hblock
    rw [padMessage_length, padMessage_length, hblock]
  · intro bytes
    exact ⟨unpadMessage bytes, unpadMessageChecked_eq bytes, fun out h => unpadMessage_slice h⟩

/-- A full block is padded with one more. -/
theorem padding_lossless_block :
    unpadMessageChecked (padMessage (List.replicate 512 0x2A)) =
      some (some (List.replicate 512 0x2A)) :=
  (padding_lossless (by rw [List.length_replicate]; omega)).1

/-! ## 3. Chaff -/

/-- `generate_chaff_payload`, with the number and the bytes it draws. -/
def generateChaffPayload (word : UInt32) (rest : Vector UInt8 (BLOCK_SIZE - 4)) : Bytes :=
  let maxInner := BLOCK_SIZE - 4
  let fakeInnerLen := word.toNat % maxInner
  toBeBytes fakeInnerLen ++ rest.toList

/-- To an observer who sees lengths and prefixes the two are the same, and `unpad_message` takes
    both or neither. -/
structure Alike (chaff padded : Bytes) : Prop where
  length : chaff.length = padded.length
  lead : chaff.take 4 = padded.take 4
  unpadded : (unpadMessage chaff).isSome = (unpadMessage padded).isSome

theorem generateChaffPayload_length (word : UInt32) (rest : Vector UInt8 (BLOCK_SIZE - 4)) :
    (generateChaffPayload word rest).length = BLOCK_SIZE := by
  have hprefix : (toBeBytes (word.toNat % (BLOCK_SIZE - 4))).length = 4 := rfl
  rw [generateChaffPayload, List.length_append, hprefix, Vector.length_toList]
  rfl

/-- A chaff payload reads as a message: the length it claims is within it. -/
theorem unpadMessage_chaff (word : UInt32) (rest : Vector UInt8 (BLOCK_SIZE - 4)) :
    unpadMessage (generateChaffPayload word rest) =
      some (rest.toList.take (word.toNat % (BLOCK_SIZE - 4))) := by
  have hlt : word.toNat % (BLOCK_SIZE - 4) < 508 := Nat.mod_lt _ (by decide)
  have hfits : word.toNat % (BLOCK_SIZE - 4) < 2 ^ 32 := Nat.lt_trans hlt (by decide)
  have hrest : rest.toList.length = 508 := Vector.length_toList
  unfold generateChaffPayload toBeBytes
  simp only [List.cons_append, List.nil_append, unpadMessage, fromBeBytes_toBeBytes,
    Nat.mod_eq_of_lt hfits, List.length_cons, hrest]
  rw [if_neg (by omega)]

/-- **Chaff is told apart by its length**: it is one block long, a padded message four bytes more
    than whole blocks. The prefix and `unpad_message` alone would not tell them apart. -/
theorem chaff_told_apart (word : UInt32) (rest : Vector UInt8 (BLOCK_SIZE - 4)) :
    (¬ ∃ payload, Alike (generateChaffPayload word rest) (padMessage payload)) ∧
    (generateChaffPayload word rest).length % BLOCK_SIZE = 0 ∧
    (∀ payload, (padMessage payload).length % BLOCK_SIZE = 4) ∧
    ∃ payload, (generateChaffPayload word rest).take 4 = (padMessage payload).take 4 ∧
      (unpadMessage (generateChaffPayload word rest)).isSome =
        (unpadMessage (padMessage payload)).isSome := by
  have hchaff : (generateChaffPayload word rest).length % BLOCK_SIZE = 0 := by
    rw [generateChaffPayload_length, Nat.mod_self]
  have hpadded : ∀ payload, (padMessage payload).length % BLOCK_SIZE = 4 := by
    intro payload
    rw [padMessage_length, Nat.add_mul_mod_self_left]
    rfl
  refine ⟨?_, hchaff, hpadded, List.replicate (word.toNat % (BLOCK_SIZE - 4)) 0, ?_, ?_⟩
  · rintro ⟨payload, halike⟩
    have hmod := hpadded payload
    rw [← halike.length, hchaff] at hmod
    cases hmod
  · unfold padMessage
    rw [List.length_replicate]
    rfl
  · have hlt : word.toNat % (BLOCK_SIZE - 4) < 508 := Nat.mod_lt _ (by decide)
    rw [unpadMessage_chaff, unpadMessage_padMessage (by rw [List.length_replicate]; omega)]
    rfl

/-- No room payload is published like the chaff of zeros. -/
theorem chaff_unlike : ¬ ∀ word rest, ∃ payload,
    Alike (generateChaffPayload word rest) (padMessage payload) := by
  intro h
  obtain ⟨payload, halike⟩ := h 0 (Vector.replicate _ 0)
  have hlength := halike.length
  rw [generateChaffPayload_length, padMessage_length, Nat.mul_succ] at hlength
  omega

end AlterChat.Traffic
