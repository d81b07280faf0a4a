import AlterChat.Lib.Codec
import Mathlib.Data.List.Lex
import Mathlib.Order.Fin.Basic

/-!
# Values of JavaScript

Strings and counters as a script has them:

* a string is a list of 16-bit code units, compared unit by unit (the lexicographic order of
  Mathlib); `trim` takes white space and line terminators off both ends, `TextEncoder.encode` writes
  UTF-8;
* a counter is a double: `increment` stands still at 2^53;
* `setUint32` writes a number modulo 2^32, the most significant byte first.
-/

namespace Lib.Js

/-! ## 1. Strings -/

abbrev CodeUnit := Fin 65536

/-- A string: its UTF-16 code units. -/
abbrev JsString := List CodeUnit

/-- A literal of the source, of characters of one code unit. -/
def literal (s : String) : JsString := s.toList.map fun c => Fin.ofNat 65536 c.toNat

/-- `WhiteSpace` and `LineTerminator`. -/
def whiteSpace (u : CodeUnit) : Bool :=
  decide (u.val ∈ [0x09, 0x0A, 0x0B, 0x0C, 0x0D, 0x20, 0xA0, 0x1680, 0x2028, 0x2029, 0x202F, 0x205F,
    0x3000, 0xFEFF]) || decide (0x2000 ≤ u.val ∧ u.val ≤ 0x200A)

def trim (s : JsString) : JsString :=
  ((s.dropWhile whiteSpace).reverse.dropWhile whiteSpace).reverse

/-- `[a, b].sort()`. -/
def sortPair (a b : JsString) : JsString × JsString := if b < a then (b, a) else (a, b)

theorem sortPair_comm (a b : JsString) : sortPair a b = sortPair b a := by
  unfold sortPair
  rcases lt_trichotomy a b with h | h | h
  · rw [if_neg (not_lt_of_gt h), if_pos h]
  · rw [h]
  · rw [if_pos h, if_neg (not_lt_of_gt h)]

/-- **Sorted, two pairs are the same just when they hold the same two strings.** -/
theorem sortPair_eq_iff (a b c d : JsString) :
    sortPair a b = sortPair c d ↔ a = c ∧ b = d ∨ a = d ∧ b = c := by
  constructor
  · intro h
    unfold sortPair at h
    split_ifs at h <;> simp only [Prod.mk.injEq] at h <;> tauto
  · intro h
    obtain ⟨rfl, rfl⟩ | ⟨rfl, rfl⟩ := h
    · rfl
    · exact sortPair_comm a b

def highSurrogate (u : CodeUnit) : Bool := decide (0xD800 ≤ u.val ∧ u.val < 0xDC00)

def lowSurrogate (u : CodeUnit) : Bool := decide (0xDC00 ≤ u.val ∧ u.val < 0xE000)

/-- The code points of a string; a surrogate without its partner is replaced. -/
def codePoints : JsString → List Nat
  | [] => []
  | [u] => [if highSurrogate u || lowSurrogate u then 0xFFFD else u.val]
  | u :: v :: s =>
    if highSurrogate u && lowSurrogate v then
      (0x10000 + (u.val - 0xD800) * 0x400 + (v.val - 0xDC00)) :: codePoints s
    else (if highSurrogate u || lowSurrogate u then 0xFFFD else u.val) :: codePoints (v :: s)

/-- The UTF-8 bytes of a code point. -/
def utf8Point (p : Nat) : Bytes :=
  if p < 0x80 then [UInt8.ofNat p]
  else if p < 0x800 then [UInt8.ofNat (0xC0 + p / 0x40), UInt8.ofNat (0x80 + p % 0x40)]
  else if p < 0x10000 then
    [UInt8.ofNat (0xE0 + p / 0x1000), UInt8.ofNat (0x80 + p / 0x40 % 0x40),
      UInt8.ofNat (0x80 + p % 0x40)]
  else
    [UInt8.ofNat (0xF0 + p / 0x40000), UInt8.ofNat (0x80 + p / 0x1000 % 0x40),
      UInt8.ofNat (0x80 + p / 0x40 % 0x40), UInt8.ofNat (0x80 + p % 0x40)]

/-- `new TextEncoder().encode`. -/
def textEncode (s : JsString) : Bytes := (codePoints s).flatMap utf8Point

/-- A string of ASCII. -/
def Ascii (s : JsString) : Prop := ∀ u ∈ s, u.val < 0x80

theorem literal_ascii {s : String} (h : (s.toList.all fun c => decide (c.toNat < 0x80)) = true) :
    Ascii (literal s) := by
  intro u hu
  obtain ⟨c, hc, rfl⟩ := List.mem_map.mp hu
  have : c.toNat < 0x80 := of_decide_eq_true (List.all_eq_true.mp h c hc)
  rw [Fin.val_ofNat, Nat.mod_eq_of_lt (by omega)]
  exact this

theorem codePoints_ascii {s : JsString} (h : Ascii s) : codePoints s = s.map Fin.val := by
  have low : ∀ u : CodeUnit, u.val < 0x80 → (highSurrogate u || lowSurrogate u) = false := by
    intro u hu
    simp only [highSurrogate, lowSurrogate, Bool.or_eq_false_iff, decide_eq_false_iff_not]
    omega
  induction s using codePoints.induct with
  | case1 => rfl
  | case2 u => simp [codePoints, low u (h u List.mem_cons_self)]
  | case3 u v s hs _ =>
    have hu := low u (h u List.mem_cons_self)
    simp only [Bool.or_eq_false_iff] at hu
    simp [hu.1] at hs
  | case4 u v s hs ih =>
    rw [codePoints, if_neg hs, low u (h u List.mem_cons_self),
      ih fun w hw => h w (List.mem_cons_of_mem _ hw)]
    rfl

/-- **On ASCII the encoder writes one byte a code unit**, so it keeps strings apart. -/
theorem textEncode_ascii {s : JsString} (h : Ascii s) :
    textEncode s = s.map fun u => UInt8.ofNat u.val := by
  rw [textEncode, codePoints_ascii h, List.flatMap_map]
  rw [← List.flatMap_singleton' (s.map fun u => UInt8.ofNat u.val), List.flatMap_map]
  refine List.flatMap_congr fun u hu => ?_
  rw [utf8Point, if_pos (h u hu)]

theorem ofNat_ascii_inj {u v : CodeUnit} (hu : u.val < 0x80) (hv : v.val < 0x80)
    (h : UInt8.ofNat u.val = UInt8.ofNat v.val) : u = v := by
  have hn := congrArg UInt8.toNat h
  rw [UInt8.toNat_ofNat', UInt8.toNat_ofNat', Nat.mod_eq_of_lt (by omega),
    Nat.mod_eq_of_lt (by omega)] at hn
  exact Fin.ext hn

theorem textEncode_inj {s t : JsString} (hs : Ascii s) (ht : Ascii t)
    (h : textEncode s = textEncode t) : s = t := by
  rw [textEncode_ascii hs, textEncode_ascii ht] at h
  induction s generalizing t with
  | nil => exact (List.map_eq_nil_iff.mp h.symm).symm
  | cons u s ih =>
    cases t with
    | nil => exact absurd h (List.cons_ne_nil _ _)
    | cons v t =>
      obtain ⟨hu, hs⟩ := List.forall_mem_cons.mp hs
      obtain ⟨hv, ht⟩ := List.forall_mem_cons.mp ht
      obtain ⟨huv, hst⟩ := List.cons.inj h
      rw [ofNat_ascii_inj hu hv huv, ih hs ht hst]

/-! ## 2. Counters -/

/-- `n + 1` for a number that counts: 2^53 + 1 is rounded back to 2^53. -/
def increment (n : Nat) : Nat := if n < 2 ^ 53 then n + 1 else n

theorem increment_iterate (n : Nat) : increment^[n] 0 = min n (2 ^ 53) := by
  induction n with
  | zero => rfl
  | succ n ih =>
    rw [Function.iterate_succ_apply', ih, increment]
    split_ifs with h <;> omega

/-- **A loop that counts its rounds from 0** does the `i`-th round at the `i`-th number. -/
theorem counted_eq {α β : Type} (step : Nat → α → β) (run : Nat → List α → List β)
    (hnil : ∀ n, run n [] = [])
    (hcons : ∀ n a as, run n (a :: as) = step n a :: run (increment n) as)
    (as : List α) : run 0 as = as.mapIdx fun i a => step (increment^[i] 0) a := by
  have loop : ∀ (as : List α) (n : Nat),
      run (increment^[n] 0) as = as.mapIdx fun i a => step (increment^[i + n] 0) a := by
    intro as
    induction as with
    | nil => exact fun n => hnil _
    | cons a as ih =>
      intro n
      rw [hcons, ← Function.iterate_succ_apply' increment n 0, ih, List.mapIdx_cons, Nat.zero_add]
      simp only [Nat.add_right_comm _ 1 n, Nat.add_succ, Nat.add_zero]
  exact loop as 0

/-- `DataView.setUint32`, at the start of the buffer: the four bytes of the number modulo 2^32. -/
def setUint32 (n : Nat) : Bytes :=
  [UInt8.ofNat (n / 2 ^ 24), UInt8.ofNat (n / 2 ^ 16), UInt8.ofNat (n / 2 ^ 8), UInt8.ofNat n]

theorem setUint32_eq_iff (m n : Nat) : setUint32 m = setUint32 n ↔ m % 2 ^ 32 = n % 2 ^ 32 := by
  have byte : ∀ a b : Nat, UInt8.ofNat a = UInt8.ofNat b ↔ a % 256 = b % 256 := by
    intro a b
    rw [← UInt8.toNat_inj, UInt8.toNat_ofNat', UInt8.toNat_ofNat']
  simp only [setUint32, List.cons.injEq, byte, and_true]
  omega

end Lib.Js
