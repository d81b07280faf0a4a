import AlterChat.Lib.Codec

/-!
# Self-delimiting formats, and those of `bincode`

A format writes values one after the other with nothing between them. It is self-delimiting when
from two texts that begin with a value each the values and the rests can be told: `Format.cancel`.
That is the field every combinator has to carry along, and with it no part of a record can slide
into the next.

The combinators are those of `bincode` with fixed-size integers: little-endian numbers, a length of
eight bytes before a string or a sequence, one byte before an optional value, four for a variant. A
length has to fit a `usize` as an allocation does, which is what `Fits` says.

* §1 `le` -- little-endian numbers;
* §2 `Format` and its combinators;
* `Format.injective` -- different values have different bytes.
-/

namespace Lib

/-! ## 1. Little-endian numbers -/

/-- The `w` lowest bytes of a number, the least significant first. -/
def le : Nat → Nat → Bytes
  | 0, _ => []
  | w + 1, n => UInt8.ofNat n :: le w (n / 256)

@[simp] theorem le_length (w n : Nat) : (le w n).length = w := by
  induction w generalizing n with
  | zero => rfl
  | succ w ih => simp [le, ih]

theorem le_inj {w n m : Nat} (hn : n < 256 ^ w) (hm : m < 256 ^ w) (h : le w n = le w m) :
    n = m := by
  induction w generalizing n m with
  | zero => omega
  | succ w ih =>
    rw [Nat.pow_succ] at hn hm
    simp only [le, List.cons.injEq] at h
    have hlow : n % 256 = m % 256 := by simpa using congrArg UInt8.toNat h.1
    have hhigh : n / 256 = m / 256 :=
      ih (Nat.div_lt_of_lt_mul (by omega)) (Nat.div_lt_of_lt_mul (by omega)) h.2
    omega

/-! ## 2. Formats -/

/-- A self-delimiting format for the values that fit it. -/
structure Format (α : Type) where
  bytes : α → Bytes
  Fits : α → Prop
  cancel : ∀ a b r s, Fits a → Fits b → bytes a ++ r = bytes b ++ s → a = b ∧ r = s

namespace Format

variable {α β : Type}

/-- **Different values have different bytes.** -/
theorem injective (f : Format α) {a b : α} (ha : f.Fits a) (hb : f.Fits b)
    (h : f.bytes a = f.bytes b) : a = b :=
  (f.cancel a b [] [] ha hb (by rw [h])).1

/-- A type of numbers below `256 ^ w`. -/
def number (w : Nat) (toNat : α → Nat) (inj : ∀ a b, toNat a = toNat b → a = b)
    (lt : ∀ a, toNat a < 256 ^ w) : Format α where
  bytes a := le w (toNat a)
  Fits _ := True
  cancel a b r s _ _ h := by
    obtain ⟨hab, hrs⟩ := List.append_inj h (by simp)
    exact ⟨inj a b (le_inj (lt a) (lt b) hab), hrs⟩

def u8 : Format UInt8 :=
  number 1 UInt8.toNat (fun _ _ h => UInt8.toNat_inj.mp h) fun a => a.toNat_lt

def u32 : Format UInt32 :=
  number 4 UInt32.toNat (fun _ _ h => UInt32.toNat_inj.mp h) fun a => a.toNat_lt

/-- Signed numbers in two's complement. -/
def i32 : Format Int32 :=
  number 4 (fun a => a.toUInt32.toNat)
    (fun _ _ h => Int32.toBitVec_inj.mp (BitVec.toNat_inj.mp h)) fun a => a.toUInt32.toNat_lt

theorem int64_lt (a : Int64) : a.toUInt64.toNat < 256 ^ 8 := a.toUInt64.toNat_lt

def i64 : Format Int64 :=
  number 8 (fun a => a.toUInt64.toNat)
    (fun _ _ h => Int64.toBitVec_inj.mp (BitVec.toNat_inj.mp h)) int64_lt

/-- A length: what an allocation can have. -/
def length : Format Nat where
  bytes n := le 8 n
  Fits n := n < 2 ^ 63
  cancel n m r s hn hm h := by
    obtain ⟨hnm, hrs⟩ := List.append_inj h (by simp)
    exact ⟨le_inj (by omega) (by omega) hnm, hrs⟩

/-- The variants of an enumeration without fields, by their index. -/
def variant (index : α → Nat) (inj : ∀ a b, index a = index b → a = b)
    (lt : ∀ a, index a < 2 ^ 32) : Format α :=
  number 4 index inj lt

/-- One value after the other. -/
def pair (f : Format α) (g : Format β) : Format (α × β) where
  bytes p := f.bytes p.1 ++ g.bytes p.2
  Fits p := f.Fits p.1 ∧ g.Fits p.2
  cancel p q r s hp hq h := by
    simp only [List.append_assoc] at h
    obtain ⟨h₁, h'⟩ := f.cancel _ _ _ _ hp.1 hq.1 h
    obtain ⟨h₂, hrs⟩ := g.cancel _ _ _ _ hp.2 hq.2 h'
    exact ⟨Prod.ext h₁ h₂, hrs⟩

/-- A record, written as its fields. -/
def record (f : Format β) (fields : α → β) (inj : ∀ a b, fields a = fields b → a = b) :
    Format α where
  bytes a := f.bytes (fields a)
  Fits a := f.Fits (fields a)
  cancel a b r s ha hb h := by
    obtain ⟨hab, hrs⟩ := f.cancel _ _ _ _ ha hb h
    exact ⟨inj a b hab, hrs⟩

/-- An optional value. -/
def option (f : Format α) : Format (Option α) where
  bytes
    | none => [0]
    | some a => 1 :: f.bytes a
  Fits o := ∀ a, o = some a → f.Fits a
  cancel o o' r s ho ho' h := by
    cases o with
    | none =>
      cases o' with
      | none => exact ⟨rfl, by simpa using h⟩
      | some b => simp at h
    | some a =>
      cases o' with
      | none => simp at h
      | some b =>
        simp only [List.cons_append, List.cons.injEq, true_and] at h
        obtain ⟨hab, hrs⟩ := f.cancel _ _ _ _ (ho a rfl) (ho' b rfl) h
        exact ⟨congrArg some hab, hrs⟩

/-- As many values as both sides have, one after the other. -/
theorem cancel_flatMap (f : Format α) {l m : List α} {r s : Bytes} (hlen : l.length = m.length)
    (hl : ∀ a ∈ l, f.Fits a) (hm : ∀ a ∈ m, f.Fits a)
    (h : l.flatMap f.bytes ++ r = m.flatMap f.bytes ++ s) : l = m ∧ r = s := by
  induction l generalizing m with
  | nil =>
    rw [List.length_nil, eq_comm, List.length_eq_zero_iff] at hlen
    subst hlen
    exact ⟨rfl, by simpa using h⟩
  | cons a l ih =>
    cases m with
    | nil => simp at hlen
    | cons b m =>
      simp only [List.flatMap_cons, List.append_assoc] at h
      obtain ⟨hab, h'⟩ := f.cancel _ _ _ _ (hl a (by simp)) (hm b (by simp)) h
      obtain ⟨hlm, hrs⟩ := ih (by simpa using hlen) (fun x hx => hl x (by simp [hx]))
        (fun x hx => hm x (by simp [hx])) h'
      exact ⟨by rw [hab, hlm], hrs⟩

/-- A sequence: its length, then its values. -/
def seq (f : Format α) : Format (List α) where
  bytes l := length.bytes l.length ++ l.flatMap f.bytes
  Fits l := length.Fits l.length ∧ ∀ a ∈ l, f.Fits a
  cancel l m r s hl hm h := by
    simp only [List.append_assoc] at h
    obtain ⟨hlen, h'⟩ := length.cancel _ _ _ _ hl.1 hm.1 h
    exact f.cancel_flatMap hlen hl.2 hm.2 h'

/-- An array of known length: its values only. -/
def array (f : Format α) (n : Nat) : Format (Vector α n) where
  bytes v := v.toList.flatMap f.bytes
  Fits v := ∀ a ∈ v.toList, f.Fits a
  cancel v w r s hv hw h := by
    obtain ⟨hvw, hrs⟩ := f.cancel_flatMap (by simp) hv hw h
    exact ⟨Vector.toList_inj.mp hvw, hrs⟩

/-- A text: the length of its UTF-8 form, then that. -/
def string : Format String :=
  record (seq u8) Codec.utf8.enc fun _ _ h => Codec.utf8.enc_injective h

end Format

end Lib
