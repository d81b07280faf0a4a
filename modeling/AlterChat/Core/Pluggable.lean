import AlterChat.Lib.BigEndian
import AlterChat.Lib.Layout
import AlterChat.Lib.Slices

/-!
# `pluggable.rs`: transports that obfuscate

The trait `PluggableTransport` of `alterchat-core/src/pluggable.rs` and its two implementations.
Both write the length of the data in front of it, as a `u16`. What is drawn from `OsRng` is an
argument, SHA-256 a parameter; `none` is a panic (an access out of range, or an addition that
overflows).

* §1 the trait, §2 `obfs4`, §3 `snowflake`;
* §4 `deriveMask_eq` -- the mask is the first bytes of a keystream;
* §5 `obfs4_returns`, `snowflake_returns` -- no packet leads out of range;
* §6 `obfs4_reversed`, `snowflake_reversed` -- what comes back, and `round_trip_iff`.
-/

namespace AlterChat.Pluggable

open Lib

/-! ## 1. The trait -/

/-- What `obfuscate` draws: a nonce, a `next_u32`, and padding of each length. -/
structure Draws where
  nonce : Vector UInt8 16
  word : UInt32
  padding : (len : Nat) → Vector UInt8 len

/-- `PluggableTransport`. -/
structure PluggableTransport where
  transportName : String
  obfuscate : Draws → Bytes → Option Bytes
  deobfuscate : Bytes → Option (Except String Bytes)

/-! ## 2. `obfs4` -/

structure Obfs4Transport where
  key : Vector UInt8 32

/-- `Obfs4Transport::with_key`; `new` draws the key. -/
def Obfs4Transport.withKey (key : Vector UInt8 32) : Obfs4Transport := { key }

section

variable (sha256 : Bytes → Vector UInt8 32)

namespace Obfs4Transport

/-- One block of the mask. -/
def block (t : Obfs4Transport) (nonce : Vector UInt8 16) (counter : Nat) : Vector UInt8 32 :=
  sha256 (t.key.toList ++ nonce.toList ++ be 4 counter)

/-- The loop of `derive_mask`. Each round adds a byte at least, so that many rounds are enough. -/
def deriveMaskFrom (t : Obfs4Transport) (nonce : Vector UInt8 16) (len : Nat) :
    Nat → Nat → Bytes → Option Bytes
  | 0, _, mask => if mask.length < len then none else some mask
  | rounds + 1, counter, mask =>
    if mask.length < len then do
      let block := (t.block sha256 nonce counter).toList
      let piece ← slice block 0 (min block.length (len - mask.length))
      let counter ← checkedAdd 32 counter 1
      deriveMaskFrom t nonce len rounds counter (mask ++ piece)
    else some mask

/-- `derive_mask`. -/
def deriveMask (t : Obfs4Transport) (nonce : Vector UInt8 16) (len : Nat) : Option Bytes :=
  (t.deriveMaskFrom sha256 nonce len len 0 []).map fun mask => mask.take len

/-- `obfuscate`. -/
def obfuscate (t : Obfs4Transport) (draws : Draws) (data : Bytes) : Option Bytes := do
  let mask ← t.deriveMask sha256 draws.nonce data.length
  let obfuscated := Lib.mask data mask
  let padLen := draws.word.toNat % 32
  let padding := (draws.padding padLen).toList
  let dataLen := UInt16.ofNat data.length
  return be 2 dataLen.toNat ++ draws.nonce.toList ++ obfuscated ++ padding

/-- `deobfuscate`. -/
def deobfuscate (t : Obfs4Transport) (data : Bytes) : Option (Except String Bytes) :=
  if data.length < 2 + 16 then some (.error "obfs4: packet too short")
  else do
    let hi ← byteAt data 0
    let lo ← byteAt data 1
    let dataLen := unBe [hi, lo]
    let nonceBytes ← slice data 2 18
    match Layout.toVector 16 nonceBytes with
    | none => return .error "obfs4: bad nonce"
    | some nonce =>
      let needed ← addUsize (2 + 16) dataLen
      if data.length < needed then return .error "obfs4: truncated payload"
      else
        let stop ← addUsize 18 dataLen
        let obfuscated ← slice data 18 stop
        let mask ← t.deriveMask sha256 nonce dataLen
        return .ok (Lib.mask obfuscated mask)

/-- The implementation of the trait. -/
def transport (t : Obfs4Transport) : PluggableTransport where
  transportName := "obfs4"
  obfuscate := t.obfuscate sha256
  deobfuscate := t.deobfuscate sha256

end Obfs4Transport

end

/-! ## 3. `snowflake` -/

/-- `SNOWFLAKE_MAGIC`. -/
def SNOWFLAKE_MAGIC : Vector UInt8 4 := #v[0x53, 0x4E, 0x46, 0x4C]

structure SnowflakeTransport where
  magic : Vector UInt8 4

namespace SnowflakeTransport

def new : SnowflakeTransport := { magic := SNOWFLAKE_MAGIC }

/-- `obfuscate`; it draws no nonce. -/
def obfuscate (t : SnowflakeTransport) (draws : Draws) (data : Bytes) : Option Bytes :=
  let frameLen := UInt16.ofNat data.length
  let padLen := UInt16.ofNat (draws.word.toNat % 64)
  let padding := (draws.padding padLen.toNat).toList
  some (t.magic.toList ++ be 2 frameLen.toNat ++ data ++ be 2 padLen.toNat ++ padding)

/-- `deobfuscate`. -/
def deobfuscate (t : SnowflakeTransport) (data : Bytes) : Option (Except String Bytes) :=
  if data.length < 4 + 2 then some (.error "snowflake: packet too short")
  else do
    let lead ← slice data 0 4
    if lead ≠ t.magic.toList then return .error "snowflake: invalid magic bytes"
    else
      let hi ← byteAt data 4
      let lo ← byteAt data 5
      let frameLen := unBe [hi, lo]
      let needed ← addUsize 6 frameLen
      if data.length < needed then return .error "snowflake: truncated frame"
      else
        let stop ← addUsize 6 frameLen
        let frame ← slice data 6 stop
        return .ok frame

/-- The implementation of the trait. -/
def transport (t : SnowflakeTransport) : PluggableTransport where
  transportName := "snowflake"
  obfuscate := t.obfuscate
  deobfuscate := t.deobfuscate

end SnowflakeTransport

/-- The implementations there are. -/
inductive Implemented (sha256 : Bytes → Vector UInt8 32) : PluggableTransport → Prop where
  | obfs4 (key : Vector UInt8 32) : Implemented sha256
      ((Obfs4Transport.withKey key).transport sha256)
  | snowflake : Implemented sha256 SnowflakeTransport.new.transport

/-! ## 4. The mask -/

section

variable {sha256 : Bytes → Vector UInt8 32} {t : Obfs4Transport} {nonce : Vector UInt8 16}

/-- The first bytes of the blocks, one after the other. -/
def keystream (block : Nat → Vector UInt8 32) (n : Nat) : Bytes :=
  (List.range n).map fun i => (block (i / 32)).get ⟨i % 32, Nat.mod_lt _ (by decide)⟩

@[simp] theorem keystream_length (block : Nat → Vector UInt8 32) (n : Nat) :
    (keystream block n).length = n := by
  rw [keystream, List.length_map, List.length_range]

theorem keystream_take (block : Nat → Vector UInt8 32) {m n : Nat} (h : m ≤ n) :
    (keystream block n).take m = keystream block m := by
  rw [keystream, ← List.map_take, List.take_range, Nat.min_eq_left h]
  rfl

/-- After whole blocks comes the next. -/
theorem keystream_append (block : Nat → Vector UInt8 32) (c : Nat) {k : Nat} (hk : k ≤ 32) :
    keystream block (32 * c) ++ (block c).toList.take k = keystream block (32 * c + k) := by
  rw [keystream, keystream, List.range_add, List.map_append, List.map_map]
  congr 1
  refine List.ext_getElem ?_ fun j hj hj' => ?_
  · rw [List.length_take, Vector.length_toList, List.length_map, List.length_range,
      Nat.min_eq_left hk]
  · rw [List.length_map, List.length_range] at hj'
    have hdiv : (32 * c + j) / 32 = c := by omega
    have hmod : (32 * c + j) % 32 = j := by omega
    rw [List.getElem_take, Vector.getElem_toList, List.getElem_map, List.getElem_range]
    simp only [Function.comp_apply, hdiv, hmod]
    rfl

/-- A round adds a block, or what is missing of one. -/
theorem deriveMaskFrom_step {len c : Nat} (rounds : Nat) (h : 32 * c < len) :
    t.deriveMaskFrom sha256 nonce len (rounds + 1) c (keystream (t.block sha256 nonce) (32 * c)) =
      (checkedAdd 32 c 1).bind fun counter => t.deriveMaskFrom sha256 nonce len rounds counter
        (keystream (t.block sha256 nonce) (min (32 * (c + 1)) len)) := by
  have hpiece : slice (t.block sha256 nonce c).toList 0 (min 32 (len - 32 * c)) =
      some ((t.block sha256 nonce c).toList.take (min 32 (len - 32 * c))) :=
    slice_eq (Nat.zero_le _) (by rw [Vector.length_toList]; exact Nat.min_le_left _ _)
  have hsum : 32 * c + min 32 (len - 32 * c) = min (32 * (c + 1)) len := by omega
  rw [Obfs4Transport.deriveMaskFrom, keystream_length, if_pos h]
  dsimp only
  rw [Vector.length_toList, hpiece, ← hsum, ← keystream_append _ c (Nat.min_le_left _ _)]
  rfl

/-- The loop, from a round on: it ends with the keystream, where the counter does not overflow. -/
theorem deriveMaskFrom_eq {len : Nat} (rounds c : Nat) (hc : c < 2 ^ 32)
    (hrounds : len ≤ 32 * c + rounds) :
    t.deriveMaskFrom sha256 nonce len rounds c
      (keystream (t.block sha256 nonce) (min (32 * c) len)) =
      if len ≤ 32 * (2 ^ 32 - 1) then some (keystream (t.block sha256 nonce) len) else none := by
  induction rounds generalizing c with
  | zero =>
    have hdone : len ≤ 32 * c := hrounds
    rw [Nat.min_eq_right hdone, Obfs4Transport.deriveMaskFrom, keystream_length,
      if_neg (Nat.lt_irrefl _),
      if_pos (by omega)]
  | succ rounds ih =>
    by_cases hlast : len ≤ 32 * c
    · rw [Nat.min_eq_right hlast, Obfs4Transport.deriveMaskFrom, keystream_length,
        if_neg (Nat.lt_irrefl _),
        if_pos (by omega)]
    · have hmore : 32 * c < len := Nat.lt_of_not_le hlast
      rw [Nat.min_eq_left (Nat.le_of_lt hmore), deriveMaskFrom_step rounds hmore]
      by_cases hover : c + 1 < 2 ^ 32
      · rw [checkedAdd_eq hover]
        exact ih (c + 1) hover (by omega)
      · rw [checkedAdd_none (Nat.not_lt.mp hover), if_neg (by omega)]
        rfl

/-- **The mask is the first bytes of the keystream**; it takes 128 GiB of data for the counter to
    overflow. -/
theorem deriveMask_eq (t : Obfs4Transport) (nonce : Vector UInt8 16) (len : Nat) :
    t.deriveMask sha256 nonce len =
      if len ≤ 32 * (2 ^ 32 - 1) then some (keystream (t.block sha256 nonce) len) else none := by
  have hloop : t.deriveMaskFrom sha256 nonce len len 0
      (keystream (t.block sha256 nonce) (min (32 * 0) len)) =
        if len ≤ 32 * (2 ^ 32 - 1) then some (keystream (t.block sha256 nonce) len) else none :=
    deriveMaskFrom_eq len 0 (by decide) (by omega)
  have hstart : keystream (t.block sha256 nonce) (min (32 * 0) len) = [] := by
    rw [Nat.mul_zero, Nat.zero_min]
    rfl
  rw [hstart] at hloop
  rw [Obfs4Transport.deriveMask, hloop]
  by_cases h : len ≤ 32 * (2 ^ 32 - 1)
  · rw [if_pos h, Option.map_some, keystream_take _ (Nat.le_refl _)]
  · rw [if_neg h]
    rfl

end

/-! ## 5. Reading a packet -/

section

variable (sha256 : Bytes → Vector UInt8 32)

/-- A packet of `obfs4` behind its length and its nonce. -/
theorem obfs4_deobfuscate (t : Obfs4Transport) (hi lo : UInt8) (nonce : Vector UInt8 16)
    (rest : Bytes) :
    t.deobfuscate sha256 (hi :: lo :: (nonce.toList ++ rest)) =
      if rest.length < unBe [hi, lo] then some (.error "obfs4: truncated payload")
      else some (.ok (mask (rest.take (unBe [hi, lo]))
        (keystream (t.block sha256 nonce) (unBe [hi, lo])))) := by
  have hlen : (hi :: lo :: (nonce.toList ++ rest)).length = 18 + rest.length := by
    simp only [List.length_cons, List.length_append, Vector.length_toList]
    omega
  have hlt : unBe [hi, lo] < 256 ^ 2 := unBe_lt [hi, lo]
  have hnonce : slice (hi :: lo :: (nonce.toList ++ rest)) 2 18 = some nonce.toList := by
    have hslice := slice_append [hi, lo] nonce.toList rest
    rwa [Vector.length_toList] at hslice
  have hvector : Layout.toVector 16 nonce.toList = some nonce := Layout.toVector_iff.mpr rfl
  unfold Obfs4Transport.deobfuscate
  rw [if_neg (by omega)]
  simp -implicitDefEqProofs only [byteAt, List.getElem?_cons_zero, List.getElem?_cons_succ,
    Option.bind_eq_bind, Option.bind_some, hnonce, hvector]
  generalize unBe [hi, lo] = dataLen at hlt
  rw [addUsize_eq (by omega), Option.bind_some, hlen]
  by_cases hshort : rest.length < dataLen
  · rw [if_pos hshort, if_pos (by omega)]
    rfl
  · have hbody : slice (hi :: lo :: (nonce.toList ++ rest)) 18 (18 + dataLen) =
        some (rest.take dataLen) := by
      have hfront : (hi :: lo :: nonce.toList).length = 18 := by
        rw [List.length_cons, List.length_cons, Vector.length_toList]
      exact slice_behind hfront (Nat.not_lt.mp hshort)
    rw [if_neg hshort, if_neg (by omega), Option.bind_some, hbody, Option.bind_some, deriveMask_eq,
      if_pos (by omega)]
    rfl

/-- A packet of `snowflake` behind its magic and its length. -/
theorem snowflake_deobfuscate (t : SnowflakeTransport) (lead : Vector UInt8 4) (hi lo : UInt8)
    (rest : Bytes) :
    t.deobfuscate (lead.toList ++ hi :: lo :: rest) =
      if lead.toList ≠ t.magic.toList then some (.error "snowflake: invalid magic bytes")
      else if rest.length < unBe [hi, lo] then some (.error "snowflake: truncated frame")
      else some (.ok (rest.take (unBe [hi, lo]))) := by
  have hlead : lead.toList.length = 4 := Vector.length_toList
  have hlen : (lead.toList ++ hi :: lo :: rest).length = 6 + rest.length := by
    rw [List.length_append, hlead, List.length_cons, List.length_cons]
    omega
  have hlt : unBe [hi, lo] < 256 ^ 2 := unBe_lt [hi, lo]
  have hmagic : slice (lead.toList ++ hi :: lo :: rest) 0 4 = some lead.toList := by
    rw [slice_eq (by omega) (by omega), Nat.sub_zero, List.drop_zero, List.take_left' hlead]
  have hhi : byteAt (lead.toList ++ hi :: lo :: rest) 4 = some hi := by
    rw [byteAt, List.getElem?_append_right (by omega), hlead]
    rfl
  have hlo : byteAt (lead.toList ++ hi :: lo :: rest) 5 = some lo := by
    rw [byteAt, List.getElem?_append_right (by omega), hlead]
    rfl
  unfold SnowflakeTransport.deobfuscate
  rw [if_neg (by omega)]
  simp -implicitDefEqProofs only [Option.bind_eq_bind, Option.bind_some, hmagic, hhi, hlo]
  by_cases hwrong : lead.toList ≠ t.magic.toList
  · rw [if_pos hwrong, if_pos hwrong]
    rfl
  · rw [if_neg hwrong, if_neg hwrong]
    generalize unBe [hi, lo] = frameLen at hlt
    rw [addUsize_eq (by omega), Option.bind_some, Option.bind_some, hlen]
    by_cases hshort : rest.length < frameLen
    · rw [if_pos hshort, if_pos (by omega)]
      rfl
    · have hframe : slice (lead.toList ++ hi :: lo :: rest) 6 (6 + frameLen) =
          some (rest.take frameLen) := by
        have hfront : (lead.toList ++ [hi, lo]).length = 6 := by
          rw [List.length_append, hlead]
          rfl
        have hbehind := slice_behind hfront (Nat.not_lt.mp hshort)
        rwa [List.append_assoc] at hbehind
      rw [if_neg hshort, if_neg (by omega), hframe]
      rfl

/-- **No packet leads `obfs4` out of range**, nor to a counter that overflows. -/
theorem obfs4_returns (t : Obfs4Transport) (data : Bytes) :
    ∃ result, t.deobfuscate sha256 data = some result := by
  by_cases hshort : data.length < 2 + 16
  · exact ⟨_, if_pos hshort⟩
  · obtain ⟨hi, lo, tail, rfl⟩ := exists_cons_cons (show 2 ≤ data.length by omega)
    rw [List.length_cons, List.length_cons] at hshort
    obtain ⟨nonce, rest, rfl⟩ := exists_vector_append (show 16 ≤ tail.length by omega)
    rw [obfs4_deobfuscate]
    by_cases hfits : rest.length < unBe [hi, lo]
    · exact ⟨_, if_pos hfits⟩
    · exact ⟨_, if_neg hfits⟩

/-- **No packet leads `snowflake` out of range.** -/
theorem snowflake_returns (t : SnowflakeTransport) (data : Bytes) :
    ∃ result, t.deobfuscate data = some result := by
  by_cases hshort : data.length < 4 + 2
  · exact ⟨_, if_pos hshort⟩
  · obtain ⟨lead, tail, rfl⟩ := exists_vector_append (show 4 ≤ data.length by omega)
    rw [List.length_append, Vector.length_toList] at hshort
    obtain ⟨hi, lo, rest, rfl⟩ := exists_cons_cons (show 2 ≤ tail.length by omega)
    rw [snowflake_deobfuscate]
    by_cases hwrong : lead.toList ≠ t.magic.toList
    · exact ⟨_, if_pos hwrong⟩
    · rw [if_neg hwrong]
      by_cases hfits : rest.length < unBe [hi, lo]
      · exact ⟨_, if_pos hfits⟩
      · exact ⟨_, if_neg hfits⟩

/-! ## 6. What comes back -/

/-- A length as it is written and read. -/
theorem writtenLength (n : Nat) : ∃ hi lo, be 2 (UInt16.ofNat n).toNat = [hi, lo] ∧
    unBe [hi, lo] = n % 2 ^ 16 := by
  refine ⟨_, _, rfl, ?_⟩
  have hread := unBe_be 2 (UInt16.ofNat n).toNat
  have hwidth : 256 ^ 2 = 2 ^ 16 := by decide
  rw [hwidth, UInt16.toNat_ofNat', Nat.mod_mod] at hread
  rw [← hread, UInt16.toNat_ofNat']
  rfl

/-- **What `obfs4` reads of its own packets** is the data up to the length that is written. -/
theorem obfs4_reversed {t : Obfs4Transport} {draws : Draws} {data wire : Bytes}
    (h : t.obfuscate sha256 draws data = some wire) :
    t.deobfuscate sha256 wire = some (.ok (data.take (data.length % 2 ^ 16))) := by
  obtain ⟨hi, lo, hlength, hread⟩ := writtenLength data.length
  unfold Obfs4Transport.obfuscate at h
  rw [deriveMask_eq] at h
  by_cases hlen : data.length ≤ 32 * (2 ^ 32 - 1)
  · rw [if_pos hlen] at h
    cases h
    have hle : data.length % 2 ^ 16 ≤ data.length := Nat.mod_le _ _
    have hmask : (mask data (keystream (t.block sha256 draws.nonce) data.length)).length =
        data.length :=
      mask_length (by rw [keystream_length])
    have hstart :
      ∀ padding, (mask data (keystream (t.block sha256 draws.nonce) data.length) ++ padding).take
        (data.length % 2 ^ 16) =
          mask (data.take (data.length % 2 ^ 16))
            (keystream (t.block sha256 draws.nonce) (data.length % 2 ^ 16)) := by
      intro padding
      rw [List.take_append_of_le_length (by omega), mask_take, keystream_take _ hle]
    rw [hlength, List.append_assoc, List.append_assoc, List.cons_append, List.cons_append,
      List.nil_append]
    refine (obfs4_deobfuscate sha256 t hi lo draws.nonce _).trans ?_
    rw [hread, List.length_append, hmask, if_neg (by omega), hstart, mask_mask]
    rw [keystream_length, List.length_take]
    exact Nat.min_le_left _ _
  · rw [if_neg hlen] at h
    cases h

/-- The same of `snowflake`. -/
theorem snowflake_reversed {t : SnowflakeTransport} {draws : Draws} {data wire : Bytes}
    (h : t.obfuscate draws data = some wire) :
    t.deobfuscate wire = some (.ok (data.take (data.length % 2 ^ 16))) := by
  obtain ⟨hi, lo, hlength, hread⟩ := writtenLength data.length
  have hle : data.length % 2 ^ 16 ≤ data.length := Nat.mod_le _ _
  cases h
  rw [hlength, List.append_assoc, List.append_assoc, List.append_assoc, List.cons_append,
    List.cons_append, List.nil_append]
  refine (snowflake_deobfuscate t t.magic hi lo _).trans ?_
  rw [if_neg (not_not.mpr rfl), hread, List.length_append, if_neg (by omega),
    List.take_append_of_le_length hle]

/-- What was obfuscated comes back. -/
def RoundTrips (t : PluggableTransport) (draws : Draws) (data : Bytes) : Prop :=
  ∃ wire, t.obfuscate draws data = some wire ∧ t.deobfuscate wire = some (.ok data)

/-- A transport that reads so much of its packets. -/
theorem roundTrips_iff_of_reversed {t : PluggableTransport} {draws : Draws} {data : Bytes}
    (hreversed : ∀ wire, t.obfuscate draws data = some wire →
      t.deobfuscate wire = some (.ok (data.take (data.length % 2 ^ 16))))
    (hreturns : data.length < 2 ^ 16 → ∃ wire, t.obfuscate draws data = some wire) :
    RoundTrips t draws data ↔ data.length < 2 ^ 16 := by
  constructor
  · intro h
    obtain ⟨wire, hwire, hback⟩ := h
    rw [hreversed wire hwire] at hback
    have htake : data.take (data.length % 2 ^ 16) = data := Except.ok.inj (Option.some.inj hback)
    have hlen := congrArg List.length htake
    rw [List.length_take] at hlen
    have hmod : data.length % 2 ^ 16 < 2 ^ 16 := Nat.mod_lt _ (by decide)
    omega
  · intro hlen
    obtain ⟨wire, hwire⟩ := hreturns hlen
    refine ⟨wire, hwire, ?_⟩
    rw [hreversed wire hwire, Nat.mod_eq_of_lt hlen, List.take_length]

variable {sha256}

/-- **A transport is lossless for data whose length fits its two bytes**, and for no other; and it
    answers every packet. -/
theorem round_trip_iff {t : PluggableTransport} (h : Implemented sha256 t) (draws : Draws)
    (data : Bytes) : (RoundTrips t draws data ↔ data.length < 2 ^ 16) ∧
    ∀ packet, ∃ result, t.deobfuscate packet = some result := by
  cases h with
  | obfs4 key =>
    refine ⟨roundTrips_iff_of_reversed (fun wire hwire => obfs4_reversed sha256 hwire)
      fun hlen => ?_,
      fun packet => obfs4_returns sha256 _ packet⟩
    show ∃ wire, Obfs4Transport.obfuscate sha256 (.withKey key) draws data = some wire
    rw [Obfs4Transport.obfuscate, deriveMask_eq, if_pos (by omega)]
    exact ⟨_, rfl⟩
  | snowflake =>
    exact ⟨roundTrips_iff_of_reversed (fun wire hwire => snowflake_reversed hwire)
      fun _ => ⟨_, rfl⟩,
      fun packet => snowflake_returns _ packet⟩

end

/-- Three bytes through `snowflake`, padded with seven. -/
theorem round_trip_iff_snowflake :
    RoundTrips SnowflakeTransport.new.transport
      { nonce := Vector.replicate 16 0, word := 71, padding := fun len => Vector.replicate len 0 }
      [1, 2, 3] :=
  (round_trip_iff (.snowflake : Implemented (fun _ => Vector.replicate 32 0) _) _ _).1.mpr
    (by decide)

/-- **65536 bytes are lost** in either transport: what comes back is empty. -/
theorem long_data_lost : ¬ ∀ (sha256 : Bytes → Vector UInt8 32) (t : PluggableTransport),
    Implemented sha256 t → ∀ draws data, RoundTrips t draws data := by
  intro h
  have hback := h (fun _ => Vector.replicate 32 0) _ .snowflake
    { nonce := Vector.replicate 16 0, word := 0, padding := fun len => Vector.replicate len 0 }
    (List.replicate (2 ^ 16) 0)
  rw [roundTrips_iff_of_reversed (fun wire hwire => snowflake_reversed hwire) fun _ => ⟨_, rfl⟩,
    List.length_replicate] at hback
  exact Nat.lt_irrefl _ hback

end AlterChat.Pluggable
