import AlterChat.Lib.Codec
import AlterChat.Lib.Overflow
import Mathlib.Data.List.Perm.Basic
import Mathlib.Tactic.Ring

/-!
# Checked accesses, masks and pieces of byte strings

What a program does with a byte string by position: it reads a byte, takes the bytes of a range,
adds to a `usize`. Each of these can leave the bounds, and then the program panics; `none` is the
panic.

* §1 `byteAt`, `slice`, `checkedAdd` within their bounds;
* §2 `mask` -- a byte string under a mask: put on twice it is gone;
* §3 `chunks` -- a list in pieces of one size: `chunks_flatten`, and the sizes;
* §4 maps that fail nowhere, and maps up to the order.
-/

namespace Lib

/-! ## 1. Checked accesses -/

/-- `data[i]`. -/
def byteAt (data : Bytes) (i : Nat) : Option UInt8 := data[i]?

/-- `&data[lo..hi]`. -/
def slice (data : Bytes) (lo hi : Nat) : Option Bytes :=
  if lo ≤ hi ∧ hi ≤ data.length then some ((data.take hi).drop lo) else none

/-- `a + b` in an unsigned type of that many bits. -/
def checkedAdd (bits a b : Nat) : Option Nat := Build.checked.unsigned bits (a + b)

/-- `a * b` in an unsigned type of that many bits. -/
def checkedMul (bits a b : Nat) : Option Nat := Build.checked.unsigned bits (a * b)

/-- `a + b` in a `usize` of 64 bits. -/
def addUsize : Nat → Nat → Option Nat := checkedAdd 64

theorem slice_eq {data : Bytes} {lo hi : Nat} (hlo : lo ≤ hi) (hhi : hi ≤ data.length) :
    slice data lo hi = some ((data.drop lo).take (hi - lo)) := by
  rw [slice, if_pos ⟨hlo, hhi⟩, List.drop_take]

theorem checkedAdd_eq {bits a b : Nat} (h : a + b < 2 ^ bits) :
    checkedAdd bits a b = some (a + b) :=
  Build.unsigned_of_lt _ h

theorem checkedAdd_none {bits a b : Nat} (h : 2 ^ bits ≤ a + b) : checkedAdd bits a b = none :=
  Build.unsigned_overflow h

theorem checkedMul_eq {bits a b : Nat} (h : a * b < 2 ^ bits) :
    checkedMul bits a b = some (a * b) :=
  Build.unsigned_of_lt _ h

theorem addUsize_eq {a b : Nat} (h : a + b < 2 ^ 64) : addUsize a b = some (a + b) :=
  checkedAdd_eq h

/-- What lies behind a part. -/
theorem slice_behind {front : Bytes} {lo : Nat} (hfront : front.length = lo)
    {rest : Bytes} {n : Nat} (h : n ≤ rest.length) :
    slice (front ++ rest) lo (lo + n) = some (rest.take n) := by
  have hlen : lo + n ≤ (front ++ rest).length := by
    rw [List.length_append, hfront]
    exact Nat.add_le_add_left h lo
  rw [slice_eq (Nat.le_add_right _ _) hlen, Nat.add_sub_cancel_left, List.drop_left' hfront]

/-- What lies between two parts. -/
theorem slice_append (a b c : Bytes) :
    slice (a ++ b ++ c) a.length (a.length + b.length) = some b := by
  have hlen : b.length ≤ (b ++ c).length := by
    rw [List.length_append]
    exact Nat.le_add_right _ _
  rw [List.append_assoc, slice_behind rfl hlen, List.take_left]

/-- A byte string of some length begins with that many bytes. -/
theorem exists_vector_append {n : Nat} {data : Bytes} (h : n ≤ data.length) :
    ∃ (v : Vector UInt8 n) (rest : Bytes), data = v.toList ++ rest := by
  have hsize : (data.take n).toArray.size = n := by
    rw [List.size_toArray, List.length_take, Nat.min_eq_left h]
  exact ⟨⟨(data.take n).toArray, hsize⟩, data.drop n, (List.take_append_drop n data).symm⟩

theorem exists_cons_cons {data : Bytes} (h : 2 ≤ data.length) :
    ∃ a b rest, data = a :: b :: rest := by
  match data, h with
  | a :: b :: rest, _ => exact ⟨a, b, rest, rfl⟩

/-! ## 2. Masks -/

/-- A byte string under a mask, as far as both reach. -/
def mask (data pad : Bytes) : Bytes := List.zipWith (· ^^^ ·) data pad

@[simp] theorem mask_nil (pad : Bytes) : mask [] pad = [] := rfl

@[simp] theorem mask_cons (d m : UInt8) (data pad : Bytes) :
    mask (d :: data) (m :: pad) = (d ^^^ m) :: mask data pad := rfl

theorem mask_length {data pad : Bytes} (h : data.length ≤ pad.length) :
    (mask data pad).length = data.length := by
  rw [mask, List.length_zipWith, Nat.min_eq_left h]

theorem mask_take (n : Nat) (data pad : Bytes) :
    (mask data pad).take n = mask (data.take n) (pad.take n) := by
  rw [mask, mask, List.take_zipWith]

/-- **A mask put on twice is gone.** -/
theorem mask_mask {data pad : Bytes} (h : data.length ≤ pad.length) :
    mask (mask data pad) pad = data := by
  induction data generalizing pad with
  | nil => rfl
  | cons d data ih =>
    cases pad with
    | nil => exact absurd h (Nat.not_succ_le_zero _)
    | cons m pad =>
      rw [mask_cons, mask_cons, ih (Nat.le_of_succ_le_succ h), UInt8.xor_assoc, UInt8.xor_self,
        UInt8.xor_zero]

/-! ## 3. Pieces -/

section

variable {α : Type}

/-- `data.chunks(size)`: pieces of one size, of which the last may be shorter. -/
def chunks (size : Nat) (l : List α) : List (List α) :=
  (List.range ((l.length + size - 1) / size)).map fun i => (l.drop (i * size)).take size

/-- A piece begins before the end. -/
theorem lt_pieces_iff {size : Nat} (h : 0 < size) (n i : Nat) :
    i < (n + size - 1) / size ↔ i * size < n := by
  rw [← Nat.succ_le_iff, Nat.le_div_iff_mul_le h, Nat.succ_mul]
  omega

@[simp] theorem chunks_length (size : Nat) (l : List α) :
    (chunks size l).length = (l.length + size - 1) / size := by
  rw [chunks, List.length_map, List.length_range]

theorem chunks_nil (size : Nat) : chunks size ([] : List α) = [] := by
  rw [← List.length_eq_zero_iff, chunks_length, List.length_nil, Nat.zero_add, Nat.div_eq_zero_iff]
  omega

/-- The piece at an index. -/
theorem chunks_get {size i : Nat} (h : 0 < size) {l : List α} (hi : i * size < l.length) :
    (chunks size l)[i]? = some ((l.drop (i * size)).take size) := by
  rw [chunks, List.getElem?_map, List.getElem?_range ((lt_pieces_iff h _ _).mpr hi)]
  rfl

theorem chunks_cons {size : Nat} (h : 0 < size) {l : List α} (hl : l ≠ []) :
    chunks size l = l.take size :: chunks size (l.drop size) := by
  have hpos : 0 < l.length := List.length_pos_iff.mpr hl
  have hcount : (l.length + size - 1) / size = ((l.drop size).length + size - 1) / size + 1 := by
    rw [List.length_drop]
    by_cases hle : l.length ≤ size
    · have hone : (l.length + size - 1) / size = 1 := Nat.div_eq_of_lt_le (by omega) (by omega)
      rw [hone, Nat.sub_eq_zero_of_le hle, Nat.div_eq_of_lt (by omega)]
    · rw [← Nat.add_div_right _ h]
      congr 1
      omega
  rw [chunks, chunks, hcount, List.range_succ_eq_map, List.map_cons, List.map_map, Nat.zero_mul,
    List.drop_zero]
  congr 1
  refine List.map_congr_left fun i _ => ?_
  rw [Function.comp_apply, List.drop_drop, Nat.succ_mul, Nat.add_comm]

/-- **The pieces are the list.** -/
theorem chunks_flatten {size : Nat} (h : 0 < size) (l : List α) : (chunks size l).flatten = l := by
  induction hn : l.length using Nat.strong_induction_on generalizing l with
  | _ n ih =>
    by_cases hl : l = []
    · rw [hl, chunks_nil, List.flatten_nil]
    · have hpos : 0 < l.length := List.length_pos_iff.mpr hl
      have hlt : (l.drop size).length < n := by
        rw [List.length_drop]
        omega
      rw [chunks_cons h hl, List.flatten_cons, ih _ hlt _ rfl, List.take_append_drop]

/-- No piece is empty or too long. -/
theorem chunks_mem_length {size : Nat} (h : 0 < size) {l piece : List α}
    (hmem : piece ∈ chunks size l) : 0 < piece.length ∧ piece.length ≤ size := by
  rw [chunks, List.mem_map] at hmem
  obtain ⟨i, hi, rfl⟩ := hmem
  rw [List.mem_range, lt_pieces_iff h] at hi
  rw [List.length_take, List.length_drop]
  omega

/-- Only the last piece is shorter. -/
theorem chunks_full {size i : Nat} (h : 0 < size) {l piece : List α}
    (hget : (chunks size l)[i]? = some piece) (hi : i + 1 < (chunks size l).length) :
    piece.length = size := by
  rw [chunks_length, lt_pieces_iff h, Nat.succ_mul] at hi
  rw [chunks_get h (Nat.lt_of_le_of_lt (Nat.le_add_right _ _) hi)] at hget
  cases hget
  rw [List.length_take, List.length_drop]
  omega

end

/-! ## 4. Maps -/

section

variable {α β : Type}

/-- A step that succeeds on every element succeeds on the list. -/
theorem mapM_eq_pure {m : Type → Type} [Monad m] [LawfulMonad m] {f : α → m β} {g : α → β}
    {l : List α} (h : ∀ a ∈ l, f a = pure (g a)) : l.mapM f = pure (l.map g) := by
  induction l with
  | nil => rw [List.mapM_nil, List.map_nil]
  | cons a l ih =>
    rw [List.mapM_cons, h a List.mem_cons_self, ih fun b hb =>
      h b (List.mem_cons_of_mem a hb), pure_bind, pure_bind, List.map_cons]

/-- A reordering of the images is the images of a reordering. -/
theorem exists_perm_map {g : α → β} {p : List α} {l : List β} (h : l.Perm (p.map g)) :
    ∃ p' : List α, p'.Perm p ∧ p'.map g = l := by
  induction p generalizing l with
  | nil => exact ⟨[], .refl _, (List.Perm.eq_nil h).symm⟩
  | cons a p ih =>
    have hmem : g a ∈ l := h.mem_iff.mpr List.mem_cons_self
    obtain ⟨front, back, rfl⟩ := List.append_of_mem hmem
    have hrest : (front ++ back).Perm (p.map g) :=
      (List.perm_middle.symm.trans h).cons_inv
    obtain ⟨p', hperm, hmap⟩ := ih hrest
    obtain ⟨front', back', rfl, rfl, rfl⟩ := List.map_eq_append_iff.mp hmap
    refine ⟨front' ++ a :: back', List.perm_middle.trans (hperm.cons a), ?_⟩
    rw [List.map_append, List.map_cons]

end

end Lib
