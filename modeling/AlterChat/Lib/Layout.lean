import AlterChat.Lib.Bincode
import Mathlib.Logic.Equiv.Defs

/-!
# Formats that are read back

A `Layout` is a self-delimiting format together with a reader that takes one value off the front of
a byte string. Its law says what the reader accepts: exactly the byte strings that begin with the
bytes of a value that fits, and it returns this value and the rest. So a value that was written is
read (`decode_bytes`), and what was read takes no more bytes when it is written again
(`decode_length_le`).

The combinators are those of `Lib.Bincode`, each with its reader. As `bincode::deserialize` does,
`Layout.decode` ignores what follows the value.

* §1 reading numbers, §2 `Layout`;
* §3 the combinators, §4 sizes and what fits, §5 enumerations whose variants have fields.
-/

namespace Lib

/-! ## 1. Reading numbers -/

/-- The number whose bytes these are, the least significant first. -/
def unLe : Bytes → Nat
  | [] => 0
  | b :: bs => b.toNat + 256 * unLe bs

theorem unLe_lt (bs : Bytes) : unLe bs < 256 ^ bs.length := by
  induction bs with
  | nil => exact Nat.one_pos
  | cons b bs ih =>
    have hb : b.toNat < 256 := b.toNat_lt
    rw [unLe, List.length_cons, Nat.pow_succ]
    omega

theorem le_unLe (bs : Bytes) : le bs.length (unLe bs) = bs := by
  induction bs with
  | nil => rfl
  | cons b bs ih =>
    have hb : b.toNat < 256 := b.toNat_lt
    have hhead : UInt8.ofNat (b.toNat + 256 * unLe bs) = b := by
      rw [← UInt8.toNat_inj, UInt8.toNat_ofNat']
      omega
    have htail : (b.toNat + 256 * unLe bs) / 256 = unLe bs := by omega
    rw [List.length_cons, le, unLe, hhead, htail, ih]

theorem unLe_le {w n : Nat} (h : n < 256 ^ w) : unLe (le w n) = n := by
  refine le_inj ?_ h ?_
  · have hlt := unLe_lt (le w n)
    rwa [le_length] at hlt
  · have heq := le_unLe (le w n)
    rwa [le_length] at heq

/-! ## 2. Layouts -/

/-- A self-delimiting format and its reader. -/
structure Layout (α : Type) extends Format α where
  /-- A value off the front, and the rest. -/
  read : Bytes → Option (α × Bytes)
  read_iff : ∀ s a r, read s = some (a, r) ↔ Fits a ∧ s = bytes a ++ r

namespace Layout

variable {α β : Type}

/-- `bincode::deserialize`: what follows the value is ignored. -/
def decode (f : Layout α) (s : Bytes) : Option α := (f.read s).map Prod.fst

/-- **What is read**: the byte strings that begin with a value's bytes. -/
theorem decode_iff (f : Layout α) {s : Bytes} {a : α} :
    f.decode s = some a ↔ f.Fits a ∧ ∃ r, s = f.bytes a ++ r := by
  unfold decode
  rw [Option.map_eq_some_iff]
  constructor
  · intro hx
    obtain ⟨⟨b, r⟩, h, rfl⟩ := hx
    obtain ⟨hfits, hs⟩ := (f.read_iff s b r).mp h
    exact ⟨hfits, r, hs⟩
  · intro hx
    obtain ⟨hfits, r, hs⟩ := hx
    exact ⟨(a, r), (f.read_iff s a r).mpr ⟨hfits, hs⟩, rfl⟩

/-- **Round trip.** -/
theorem decode_bytes (f : Layout α) {a : α} (h : f.Fits a) : f.decode (f.bytes a) = some a :=
  f.decode_iff.mpr ⟨h, [], (List.append_nil _).symm⟩

/-- **What was read is not longer when it is written again.** -/
theorem decode_length_le (f : Layout α) {s : Bytes} {a : α} (h : f.decode s = some a) :
    (f.bytes a).length ≤ s.length := by
  obtain ⟨-, r, rfl⟩ := f.decode_iff.mp h
  rw [List.length_append]
  omega

/-! ## 3. Combinators -/

/-- A type of numbers below `256 ^ w`. -/
def number (w : Nat) (toNat : α → Nat) (ofNat : Nat → α) (ofNat_toNat : ∀ a, ofNat (toNat a) = a)
    (toNat_ofNat : ∀ n, n < 256 ^ w → toNat (ofNat n) = n) (lt : ∀ a, toNat a < 256 ^ w) :
    Layout α where
  toFormat := .number w toNat (fun a b h => by rw [← ofNat_toNat a, h, ofNat_toNat]) lt
  read s := if w ≤ s.length then some (ofNat (unLe (s.take w)), s.drop w) else none
  read_iff s a r := by
    simp only [Format.number, true_and]
    constructor
    · intro h
      by_cases hw : w ≤ s.length
      · rw [if_pos hw] at h
        obtain ⟨rfl, rfl⟩ := Prod.mk.inj (Option.some.inj h)
        have hlen : (s.take w).length = w := List.length_take_of_le hw
        have hlt := unLe_lt (s.take w)
        have heq := le_unLe (s.take w)
        rw [hlen] at hlt heq
        rw [toNat_ofNat _ hlt, heq, List.take_append_drop]
      · rw [if_neg hw] at h
        cases h
    · rintro rfl
      rw [if_pos (by simp), List.take_left' (le_length ..), List.drop_left' (le_length ..),
        unLe_le (lt a), ofNat_toNat]

def u8 : Layout UInt8 :=
  number 1 UInt8.toNat UInt8.ofNat (fun _ => UInt8.ofNat_toNat)
    (fun _ h => UInt8.toNat_ofNat_of_lt' h) fun a => a.toNat_lt

def u32 : Layout UInt32 :=
  number 4 UInt32.toNat UInt32.ofNat (fun _ => UInt32.ofNat_toNat)
    (fun _ h => UInt32.toNat_ofNat_of_lt' h) fun a => a.toNat_lt

def u64 : Layout UInt64 :=
  number 8 UInt64.toNat UInt64.ofNat (fun _ => UInt64.ofNat_toNat)
    (fun _ h => UInt64.toNat_ofNat_of_lt' h) fun a => a.toNat_lt

/-- Signed numbers in two's complement. -/
def i64 : Layout Int64 :=
  number 8 (fun a => a.toUInt64.toNat) (fun n => (UInt64.ofNat n).toInt64)
    (fun a => by rw [UInt64.ofNat_toNat, Int64.toInt64_toUInt64])
    (fun n h => by rw [UInt64.toUInt64_toInt64, UInt64.toNat_ofNat_of_lt' h])
    Format.int64_lt

/-- A length. What is read lies in memory, so a length that no allocation has meets its end. -/
def length : Layout Nat where
  toFormat := .length
  read s :=
    if 8 ≤ s.length ∧ unLe (s.take 8) < 2 ^ 63 then some (unLe (s.take 8), s.drop 8) else none
  read_iff s n r := by
    simp only [Format.length]
    constructor
    · intro h
      by_cases hw : 8 ≤ s.length ∧ unLe (s.take 8) < 2 ^ 63
      · rw [if_pos hw] at h
        obtain ⟨rfl, rfl⟩ := Prod.mk.inj (Option.some.inj h)
        have heq := le_unLe (s.take 8)
        rw [List.length_take_of_le hw.1] at heq
        exact ⟨hw.2, by rw [heq, List.take_append_drop]⟩
      · rw [if_neg hw] at h
        cases h
    · intro hx
      obtain ⟨hn, rfl⟩ := hx
      rw [List.take_left' (le_length ..), List.drop_left' (le_length ..),
        unLe_le (Nat.lt_trans hn (by decide)), if_pos ⟨by simp, hn⟩]

/-- The values some of another type stand for; other values of that type are refused. -/
def narrow (f : Layout β) (enc : α → β) (dec : β → Option α)
    (dec_iff : ∀ b a, dec b = some a ↔ enc a = b) : Layout α where
  toFormat := .record f.toFormat enc fun a b h =>
    Option.some.inj ((((dec_iff _ a).mpr rfl).symm.trans (congrArg dec h)).trans
      ((dec_iff _ b).mpr rfl))
  read s := (f.read s).bind fun p => (dec p.1).map fun a => (a, p.2)
  read_iff s a r := by
    simp only [Format.record, Option.bind_eq_some_iff, Option.map_eq_some_iff]
    constructor
    · intro hx
      obtain ⟨⟨b, r'⟩, hread, a', hdec, heq⟩ := hx
      obtain ⟨rfl, rfl⟩ := Prod.mk.inj heq
      rw [(dec_iff b a').mp hdec]
      exact (f.read_iff s b r').mp hread
    · intro h
      exact ⟨(enc a, r), (f.read_iff s _ r).mpr h, a, (dec_iff _ a).mpr rfl, rfl⟩

/-- A record, written as its fields. -/
def record (f : Layout β) (e : α ≃ β) : Layout α :=
  f.narrow e (fun b => some (e.symm b)) fun b a => by
    rw [Option.some.injEq, Equiv.symm_apply_eq, eq_comm]

/-- One value after the other. -/
def pair (f : Layout α) (g : Layout β) : Layout (α × β) where
  toFormat := .pair f.toFormat g.toFormat
  read s := (f.read s).bind fun p => (g.read p.2).map fun q => ((p.1, q.1), q.2)
  read_iff s p r := by
    simp only [Format.pair, Option.bind_eq_some_iff, Option.map_eq_some_iff]
    constructor
    · intro h
      obtain ⟨⟨a, r₁⟩, ha, ⟨b, r₂⟩, hb, heq⟩ := h
      obtain ⟨rfl, rfl⟩ := Prod.mk.inj heq
      obtain ⟨hfa, rfl⟩ := (f.read_iff _ _ _).mp ha
      obtain ⟨hfb, hr⟩ := (g.read_iff _ _ _).mp hb
      simp only at hr
      rw [hr, List.append_assoc]
      exact ⟨⟨hfa, hfb⟩, rfl⟩
    · intro h
      obtain ⟨⟨hfa, hfb⟩, rfl⟩ := h
      refine ⟨(p.1, g.bytes p.2 ++ r), (f.read_iff _ _ _).mpr ⟨hfa, List.append_assoc ..⟩,
        (p.2, r), (g.read_iff _ _ _).mpr ⟨hfb, rfl⟩, rfl⟩

/-- A truth value: one byte, 0 or 1. -/
def bool : Layout Bool :=
  u8.narrow (fun b => if b then 1 else 0)
    (fun n => if n = 0 then some false else if n = 1 then some true else none) fun n b => by
      by_cases h0 : n = 0
      · subst h0
        cases b <;> simp
      · by_cases h1 : n = 1
        · subst h1
          cases b <;> simp
        · rw [if_neg h0, if_neg h1]
          cases b with
          | false => simp [Ne.symm h0]
          | true => simp [Ne.symm h1]

/-- An optional value. -/
def option (f : Layout α) : Layout (Option α) where
  toFormat := .option f.toFormat
  read
    | 0 :: s => some (none, s)
    | 1 :: s => (f.read s).map fun p => (some p.1, p.2)
    | _ => none
  read_iff s o r := by
    simp only [Format.option]
    split
    · next s =>
      cases o with
      | none => simp
      | some a => simp
    · next s =>
      rw [Option.map_eq_some_iff]
      constructor
      · intro hx
        obtain ⟨⟨a, r'⟩, h, heq⟩ := hx
        obtain ⟨rfl, rfl⟩ := Prod.mk.inj heq
        obtain ⟨hfits, rfl⟩ := (f.read_iff _ _ _).mp h
        exact ⟨fun b hb => Option.some.inj hb ▸ hfits, rfl⟩
      · intro hx
        obtain ⟨hfits, h⟩ := hx
        cases o with
        | none => simp at h
        | some a =>
          simp only [List.cons_append, List.cons.injEq, true_and] at h
          exact ⟨(a, r), (f.read_iff _ _ _).mpr ⟨hfits a rfl, h⟩, rfl⟩
    · next h0 h1 =>
      refine ⟨fun h => (by cases h), fun h => ?_⟩
      cases o with
      | none => exact absurd h.2 (h0 r)
      | some a => exact absurd h.2 (h1 _)

/-- As many values as are asked for, one after the other. -/
def readMany (f : Layout α) : Nat → Bytes → Option (List α × Bytes)
  | 0, s => some ([], s)
  | n + 1, s => (f.read s).bind fun p => (f.readMany n p.2).map fun q => (p.1 :: q.1, q.2)

theorem readMany_iff (f : Layout α) (n : Nat) (s : Bytes) (l : List α) (r : Bytes) :
    f.readMany n s = some (l, r) ↔
      l.length = n ∧ (∀ a ∈ l, f.Fits a) ∧ s = l.flatMap f.bytes ++ r := by
  induction n generalizing s l with
  | zero =>
    simp only [readMany, Option.some.injEq, Prod.mk.injEq, List.length_eq_zero_iff]
    constructor
    · intro h
      obtain ⟨rfl, rfl⟩ := h
      exact ⟨rfl, fun a ha => absurd ha List.not_mem_nil, rfl⟩
    · intro h
      obtain ⟨rfl, -, rfl⟩ := h
      exact ⟨rfl, rfl⟩
  | succ n ih =>
    simp only [readMany, Option.bind_eq_some_iff, Option.map_eq_some_iff]
    constructor
    · intro h
      obtain ⟨⟨a, r₁⟩, ha, ⟨l', r₂⟩, hl, heq⟩ := h
      obtain ⟨rfl, rfl⟩ := Prod.mk.inj heq
      obtain ⟨hfa, rfl⟩ := (f.read_iff _ _ _).mp ha
      obtain ⟨hlen, hfits, hr⟩ := (ih _ _).mp hl
      simp only at hlen hfits hr
      refine ⟨by rw [List.length_cons, hlen], ?_, ?_⟩
      · exact List.forall_mem_cons.mpr ⟨hfa, hfits⟩
      · rw [hr, List.flatMap_cons, List.append_assoc]
    · intro h
      obtain ⟨hlen, hfits, rfl⟩ := h
      cases l with
      | nil => cases hlen
      | cons a l =>
        obtain ⟨hfa, hfl⟩ := List.forall_mem_cons.mp hfits
        refine ⟨(a, l.flatMap f.bytes ++ r), (f.read_iff _ _ _).mpr ⟨hfa, ?_⟩, (l, r),
          (ih _ _).mpr ⟨Nat.succ.inj hlen, hfl, rfl⟩, rfl⟩
        rw [List.flatMap_cons, List.append_assoc]

/-- A sequence: its length, then its values. -/
def seq (f : Layout α) : Layout (List α) where
  toFormat := .seq f.toFormat
  read s := (length.read s).bind fun p => f.readMany p.1 p.2
  read_iff s l r := by
    simp only [Format.seq, Option.bind_eq_some_iff]
    constructor
    · intro h
      obtain ⟨⟨n, r'⟩, hn, hl⟩ := h
      obtain ⟨hfn, rfl⟩ := (length.read_iff _ _ _).mp hn
      obtain ⟨rfl, hfl, hr⟩ := (f.readMany_iff _ _ _ _).mp hl
      simp only at hfl hr
      rw [hr, List.append_assoc]
      exact ⟨⟨hfn, hfl⟩, rfl⟩
    · intro h
      obtain ⟨⟨hfn, hfl⟩, rfl⟩ := h
      exact ⟨(l.length, l.flatMap f.bytes ++ r),
        (length.read_iff _ _ _).mpr ⟨hfn, List.append_assoc ..⟩,
        (f.readMany_iff _ _ _ _).mpr ⟨rfl, hfl, rfl⟩⟩

/-- A list of the right length as an array. -/
def toVector (n : Nat) (l : List α) : Option (Vector α n) :=
  if h : l.length = n then some ⟨l.toArray, h⟩ else none

theorem toVector_iff {n : Nat} {l : List α} {v : Vector α n} :
    toVector n l = some v ↔ l = v.toList := by
  unfold toVector
  constructor
  · intro h
    by_cases hn : l.length = n
    · rw [dif_pos hn] at h
      rw [← Option.some.inj h]
      rfl
    · rw [dif_neg hn] at h
      cases h
  · rintro rfl
    rw [dif_pos (by simp)]
    exact congrArg some (Vector.toList_inj.mp rfl)

/-- An array of known length: its values only. -/
def array (f : Layout α) (n : Nat) : Layout (Vector α n) where
  toFormat := .array f.toFormat n
  read s := (f.readMany n s).bind fun p => (toVector n p.1).map fun v => (v, p.2)
  read_iff s v r := by
    simp only [Format.array, Option.bind_eq_some_iff, Option.map_eq_some_iff]
    constructor
    · intro h
      obtain ⟨⟨l, r'⟩, hl, v', hv, heq⟩ := h
      obtain ⟨rfl, rfl⟩ := Prod.mk.inj heq
      rw [← toVector_iff.mp hv]
      exact ((f.readMany_iff _ _ _ _).mp hl).2
    · intro h
      obtain ⟨hfits, hs⟩ := h
      exact ⟨(v.toList, r), (f.readMany_iff _ _ _ _).mpr ⟨by simp, hfits, hs⟩, v,
        toVector_iff.mpr rfl, rfl⟩

theorem utf8_dec_iff (bs : Bytes) (s : String) :
    Codec.utf8.dec bs = some s ↔ Codec.utf8.enc s = bs := by
  constructor
  · intro h
    simp only [Codec.utf8, String.fromUTF8?] at h ⊢
    by_cases hv : (⟨bs.toArray⟩ : ByteArray).IsValidUTF8
    · rw [dif_pos hv] at h
      rw [← Option.some.inj h]
      rfl
    · rw [dif_neg hv] at h
      cases h
  · rintro rfl
    exact Codec.utf8.dec_enc s

/-- A text: the length of its UTF-8 form, then that. -/
def string : Layout String := (seq u8).narrow Codec.utf8.enc Codec.utf8.dec utf8_dec_iff

/-! ## 4. Sizes, and what fits -/

section

variable (f : Layout α) (g : Layout β)

@[simp] theorem pair_fits (p : α × β) : (f.pair g).Fits p ↔ f.Fits p.1 ∧ g.Fits p.2 := Iff.rfl

@[simp] theorem pair_length (p : α × β) :
    ((f.pair g).bytes p).length = (f.bytes p.1).length + (g.bytes p.2).length :=
  List.length_append

@[simp] theorem record_bytes (e : β ≃ α) (b : β) : (f.record e).bytes b = f.bytes (e b) := rfl

@[simp] theorem record_fits (e : β ≃ α) (b : β) : (f.record e).Fits b ↔ f.Fits (e b) := Iff.rfl

@[simp] theorem option_fits_none : f.option.Fits none := fun _ h => by cases h

@[simp] theorem option_fits_some (a : α) : f.option.Fits (some a) ↔ f.Fits a :=
  ⟨fun h => h a rfl, fun h _ hb => Option.some.inj hb ▸ h⟩

@[simp] theorem option_length_none : (f.option.bytes none).length = 1 := rfl

@[simp] theorem option_length_some (a : α) :
    (f.option.bytes (some a)).length = 1 + (f.bytes a).length := by
  rw [Nat.add_comm]
  rfl

end

@[simp] theorem u8_length (b : UInt8) : (u8.bytes b).length = 1 := le_length ..

@[simp] theorem i64_length (n : Int64) : (i64.bytes n).length = 8 := le_length ..

@[simp] theorem u8_fits (b : UInt8) : u8.Fits b := trivial

@[simp] theorem u32_fits (n : UInt32) : u32.Fits n := trivial

@[simp] theorem u64_fits (n : UInt64) : u64.Fits n := trivial

@[simp] theorem i64_fits (n : Int64) : i64.Fits n := trivial

@[simp] theorem bool_fits (b : Bool) : bool.Fits b := trivial

theorem flatMap_u8_length (l : List UInt8) : (l.flatMap u8.bytes).length = l.length := by
  induction l with
  | nil => rfl
  | cons b l ih => rw [List.flatMap_cons, List.length_append, ih, u8_length, List.length_cons,
      Nat.add_comm]

@[simp] theorem bytes_length (l : Bytes) : ((seq u8).bytes l).length = 8 + l.length := by
  rw [show (seq u8).bytes l = le 8 l.length ++ l.flatMap u8.bytes from rfl, List.length_append,
    le_length, flatMap_u8_length]

@[simp] theorem bytes_fits (l : Bytes) : (seq u8).Fits l ↔ l.length < 2 ^ 63 :=
  and_iff_left fun _ _ => trivial

@[simp] theorem array_u8_length {n : Nat} (v : Vector UInt8 n) :
    ((array u8 n).bytes v).length = n :=
  (flatMap_u8_length _).trans Vector.length_toList

@[simp] theorem array_u8_fits {n : Nat} (v : Vector UInt8 n) : (array u8 n).Fits v :=
  fun _ _ => trivial

@[simp] theorem string_length (s : String) :
    (string.bytes s).length = 8 + (Codec.utf8.enc s).length :=
  bytes_length _

@[simp] theorem string_fits (s : String) :
    string.Fits s ↔ (Codec.utf8.enc s).length < 2 ^ 63 :=
  bytes_fits _

end Layout

/-! ## 5. Enumerations -/

/-- The variants of an enumeration from the one with index `first` on: the index of each, and its
    fields. -/
structure Variants (first : Nat) (α : Type) where
  index : α → Nat
  body : α → Bytes
  Fits : α → Prop
  /-- The fields of the variant with an index. -/
  read : Nat → Bytes → Option (α × Bytes)
  first_lt : first < 2 ^ 32
  first_le : ∀ a, first ≤ index a
  index_lt : ∀ a, index a < 2 ^ 32
  read_iff : ∀ i s a r, read i s = some (a, r) ↔ index a = i ∧ Fits a ∧ s = body a ++ r

namespace Variants

variable {first : Nat} {α β : Type}

/-- The last variant. -/
def last (hi : first < 2 ^ 32) (f : Layout α) : Variants first α where
  index _ := first
  body := f.bytes
  Fits := f.Fits
  read i s := if first = i then f.read s else none
  first_lt := hi
  first_le _ := Nat.le_refl first
  index_lt _ := hi
  read_iff i s a r := by
    by_cases h : first = i
    · rw [if_pos h, f.read_iff]
      exact (and_iff_right h).symm
    · rw [if_neg h]
      exact ⟨fun h' => (by cases h'), fun h' => absurd h'.1 h⟩

/-- One variant, before the others. -/
def cons (f : Layout α) (v : Variants (first + 1) β) : Variants first (α ⊕ β) where
  index := Sum.elim (fun _ => first) v.index
  body := Sum.elim f.bytes v.body
  Fits := Sum.elim f.Fits v.Fits
  read i s :=
    if first = i then (f.read s).map fun p => (.inl p.1, p.2)
    else (v.read i s).map fun p => (.inr p.1, p.2)
  first_lt := Nat.lt_trans (Nat.lt_succ_self first) v.first_lt
  first_le x := by
    cases x with
    | inl a => exact Nat.le_refl first
    | inr b => exact Nat.le_of_succ_le (v.first_le b)
  index_lt x := by
    cases x with
    | inl a => exact Nat.lt_trans (Nat.lt_succ_self first) v.first_lt
    | inr b => exact v.index_lt b
  read_iff i s x r := by
    by_cases h : first = i
    · rw [if_pos h, Option.map_eq_some_iff]
      cases x with
      | inl a =>
        rw [Sum.elim_inl, Sum.elim_inl, Sum.elim_inl, and_iff_right h, ← f.read_iff]
        constructor
        · intro hx
          obtain ⟨⟨a', r'⟩, hread, heq⟩ := hx
          obtain ⟨ha, rfl⟩ := Prod.mk.inj heq
          rw [← Sum.inl.inj ha]
          exact hread
        · intro hread
          exact ⟨(a, r), hread, rfl⟩
      | inr b =>
        refine ⟨fun h => (by obtain ⟨p, -, heq⟩ := h; cases heq), fun hb => ?_⟩
        have hle := v.first_le b
        have hidx : v.index b = i := hb.1
        omega
    · rw [if_neg h, Option.map_eq_some_iff]
      cases x with
      | inl a =>
        refine ⟨fun h => (by obtain ⟨p, -, heq⟩ := h; cases heq), fun ha => absurd ha.1 h⟩
      | inr b =>
        rw [Sum.elim_inr, Sum.elim_inr, Sum.elim_inr, ← v.read_iff]
        constructor
        · intro hx
          obtain ⟨⟨b', r'⟩, hread, heq⟩ := hx
          obtain ⟨hb, rfl⟩ := Prod.mk.inj heq
          rw [← Sum.inr.inj hb]
          exact hread
        · intro hread
          exact ⟨(b, r), hread, rfl⟩

/-- Four bytes for the index, then the fields. -/
def layout (v : Variants first α) : Layout α where
  bytes a := le 4 (v.index a) ++ v.body a
  Fits := v.Fits
  read s := if 4 ≤ s.length then v.read (unLe (s.take 4)) (s.drop 4) else none
  cancel a b r s ha hb h := by
    simp only [List.append_assoc] at h
    obtain ⟨hi, hbody⟩ := List.append_inj h (by simp)
    have hidx : v.index a = v.index b := le_inj (v.index_lt a) (v.index_lt b) hi
    have hra := (v.read_iff (v.index a) (v.body a ++ r) a r).mpr ⟨rfl, ha, rfl⟩
    have hrb := (v.read_iff (v.index b) (v.body b ++ s) b s).mpr ⟨rfl, hb, rfl⟩
    rw [hbody, hidx, hrb] at hra
    obtain ⟨hba, hsr⟩ := Prod.mk.inj (Option.some.inj hra)
    exact ⟨hba.symm, hsr.symm⟩
  read_iff s a r := by
    constructor
    · intro h
      by_cases hw : 4 ≤ s.length
      · rw [if_pos hw] at h
        obtain ⟨hi, hfits, hs⟩ := (v.read_iff _ _ _ _).mp h
        have heq := le_unLe (s.take 4)
        rw [List.length_take_of_le hw] at heq
        rw [hi, heq, List.append_assoc, ← hs, List.take_append_drop]
        exact ⟨hfits, rfl⟩
      · rw [if_neg hw] at h
        cases h
    · intro hx
      obtain ⟨hfits, rfl⟩ := hx
      rw [if_pos (by simp), List.append_assoc, List.take_left' (le_length ..),
        List.drop_left' (le_length ..), unLe_le (v.index_lt a)]
      exact (v.read_iff _ _ _ _).mpr ⟨rfl, hfits, rfl⟩

end Variants

end Lib
