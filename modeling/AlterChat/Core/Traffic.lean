import AlterChat.Lib.Codec

/-!
# `traffic.rs`: padding

`pad_message` and `unpad_message` of `alterchat-core/src/traffic.rs`: four bytes of length, the
data, and padding up to the next block. `unpadMessage_padMessage` is the round trip.
-/

namespace AlterChat.Traffic

open Lib

/-- The block every message is padded to. -/
def BLOCK_SIZE : Nat := 512

/-- `(n as u32).to_be_bytes`. -/
def toBeBytes (n : Nat) : Bytes :=
  [.ofNat (n / 2 ^ 24), .ofNat (n / 2 ^ 16), .ofNat (n / 2 ^ 8), .ofNat n]

/-- `u32::from_be_bytes`, as a `usize`. -/
def fromBeBytes (a b c d : UInt8) : Nat :=
  a.toNat * 2 ^ 24 + b.toNat * 2 ^ 16 + c.toNat * 2 ^ 8 + d.toNat

/-- `pad_message`: only 32 bits of the length, and 8 of the padding's, are written. -/
def padMessage (data : Bytes) : Bytes :=
  let padLen := BLOCK_SIZE - data.length % BLOCK_SIZE
  toBeBytes data.length ++ data ++ List.replicate padLen (.ofNat padLen)

/-- `unpad_message`. -/
def unpadMessage (data : Bytes) : Option Bytes :=
  match data with
  | a :: b :: c :: d :: rest =>
    let origLen := fromBeBytes a b c d
    if origLen + 4 > data.length then none else some (rest.take origLen)
  | _ => none

theorem fromBeBytes_toBeBytes (n : Nat) :
    fromBeBytes (.ofNat (n / 2 ^ 24)) (.ofNat (n / 2 ^ 16)) (.ofNat (n / 2 ^ 8)) (.ofNat n) =
      n % 2 ^ 32 := by
  simp only [fromBeBytes, UInt8.toNat_ofNat']
  omega

/-- **Round trip**: data of a length that fits is read back. -/
theorem unpadMessage_padMessage {data : Bytes} (h : data.length < 2 ^ 32) :
    unpadMessage (padMessage data) = some data := by
  unfold padMessage toBeBytes
  simp only [List.cons_append, List.nil_append, unpadMessage, fromBeBytes_toBeBytes,
    Nat.mod_eq_of_lt h, List.length_cons, List.length_append]
  rw [if_neg (by omega)]
  exact congrArg some (List.take_left' rfl)

end AlterChat.Traffic
