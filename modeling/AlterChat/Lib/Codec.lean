import Mathlib.Logic.Encodable.Basic
import Mathlib.Data.Nat.Digits.Defs
import Mathlib.Data.Nat.Digits.Lemmas
import Mathlib.Logic.Equiv.List

/-!
# Encodings with a left inverse

A `Codec` is an encoder together with a decoder that reads back every encoded value, as a
serialisation library promises for a derived format. The round trip is a field, so that a proof
that goes through an encoding uses it as it stands.

* `Codec.ofEncodable`, `Codec.textOfEncodable` -- for every encodable type a codec into byte strings
  and one into texts;
* the instances of `Encodable` for the machine types.
-/

namespace Lib

/-- Byte strings. -/
abbrev Bytes := List UInt8

/-- An encoder and a decoder that reads back what was encoded. -/
structure Codec (α β : Type) where
  enc : α → β
  dec : β → Option α
  dec_enc : ∀ a, dec (enc a) = some a

attribute [simp] Codec.dec_enc

namespace Codec

variable {α β γ : Type}

theorem enc_injective (c : Codec α β) : Function.Injective c.enc := by
  intro a b h
  have h' : c.dec (c.enc a) = c.dec (c.enc b) := congrArg c.dec h
  simpa using h'

@[simp] theorem enc_inj (c : Codec α β) {a b : α} : c.enc a = c.enc b ↔ a = b :=
  ⟨fun h => c.enc_injective h, fun h => h ▸ rfl⟩

/-- Encoding into a larger format. -/
def trans (c : Codec α β) (d : Codec β γ) : Codec α γ where
  enc a := d.enc (c.enc a)
  dec x := (d.dec x).bind c.dec
  dec_enc a := by simp

/-- Numbers as byte strings, least significant byte first. -/
def nat : Codec Nat Bytes where
  enc n := (Nat.digits 256 n).map UInt8.ofNat
  dec bs := some (Nat.ofDigits 256 (bs.map UInt8.toNat))
  dec_enc n := by
    have h : ((Nat.digits 256 n).map UInt8.ofNat).map UInt8.toNat = Nat.digits 256 n := by
      rw [List.map_map]
      conv_rhs => rw [← List.map_id (Nat.digits 256 n)]
      refine List.map_congr_left fun d hd => ?_
      have hlt : d < 256 := Nat.digits_lt_base (by decide) hd
      simpa using Nat.mod_eq_of_lt hlt
    rw [h, Nat.ofDigits_digits]

/-- Every encodable type has a codec into numbers. -/
def encodable (α : Type) [Encodable α] : Codec α Nat where
  enc := Encodable.encode
  dec := Encodable.decode
  dec_enc := Encodable.encodek

/-- Every encodable type has a codec into byte strings. -/
def ofEncodable (α : Type) [Encodable α] : Codec α Bytes :=
  (encodable α).trans nat

/-- The format with the empty byte string for one value, and a byte more for every other. -/
def short [DecidableEq α] (c : Codec α Bytes) (a : α) : Codec α Bytes where
  enc x := if x = a then [] else 0 :: c.enc x
  dec
    | [] => some a
    | _ :: bs => c.dec bs
  dec_enc x := by
    by_cases h : x = a
    · rw [if_pos h, h]
    · rw [if_neg h]
      exact c.dec_enc x

theorem short_self [DecidableEq α] (c : Codec α Bytes) (a : α) : (c.short a).enc a = [] :=
  if_pos rfl

/-- Byte strings as texts, one character a byte. -/
def latin : Codec Bytes String where
  enc bs := String.ofList (bs.map fun b => Char.ofNat b.toNat)
  dec s := some (s.toList.map fun c => UInt8.ofNat c.toNat)
  dec_enc bs := by
    rw [String.toList_ofList, List.map_map]
    refine congrArg some ?_
    conv_rhs => rw [← List.map_id bs]
    refine List.map_congr_left fun b _ => ?_
    have hlt : b.toNat < 256 := b.toNat_lt
    have hv : b.toNat.isValidChar := .inl (by omega)
    have hc : (Char.ofNat b.toNat).toNat = b.toNat := by
      rw [Char.ofNat, dif_pos hv]
      rfl
    simp [hc]

/-- Texts as byte strings. -/
def utf8 : Codec String Bytes where
  enc s := s.toUTF8.data.toList
  dec bs := String.fromUTF8? ⟨bs.toArray⟩
  dec_enc s := by
    have hb : (⟨s.toUTF8.data.toList.toArray⟩ : ByteArray) = s.toUTF8 := by simp
    have hv : s.toUTF8.IsValidUTF8 := s.isValidUTF8
    rw [hb, String.fromUTF8?, dif_pos hv]
    rfl

/-- Every encodable type has a codec into texts. -/
def textOfEncodable (α : Type) [Encodable α] : Codec α String :=
  (ofEncodable α).trans latin

end Codec

/-! ## Machine types -/

instance encodableUInt8 : Encodable UInt8 :=
  Encodable.ofLeftInverse UInt8.toNat UInt8.ofNat fun b => by simp

instance encodableUInt32 : Encodable UInt32 :=
  Encodable.ofLeftInverse UInt32.toNat UInt32.ofNat fun b => by simp

instance encodableUInt64 : Encodable UInt64 :=
  Encodable.ofLeftInverse UInt64.toNat UInt64.ofNat fun b => by simp

instance encodableInt64 : Encodable Int64 :=
  Encodable.ofLeftInverse Int64.toInt Int64.ofInt fun b => by simp

instance encodableInt32 : Encodable Int32 :=
  Encodable.ofLeftInverse Int32.toInt Int32.ofInt fun b => by simp

instance encodableString : Encodable String :=
  Encodable.ofLeftInverse (fun s => s.toList.map Char.toNat)
    (fun l => String.ofList (l.map Char.ofNat))
    fun s => by simp [Function.comp_def]

instance encodableVector {n : Nat} : Encodable (Vector UInt8 n) :=
  Encodable.ofLeftInjection Vector.toList
    (fun l => if h : l.length = n then some ⟨l.toArray, by simpa using h⟩ else none)
    fun v => by simp [Vector.toArray_toList]

end Lib
