import AlterChat.Lib.Codec

/-!
# Numbers and byte lists in JSON

Unsigned numbers and lists of bytes as `serde_json` writes them, each with its reader, and what a
reader needs to find the end of one in a longer text.

* `decimal`, `jsonBytes` -- the two formats; `jsonBytes_close` -- a list ends at the first bracket;
* `takeWhile_stop`, `dropWhile_stop` -- a text up to a character, and from it on;
* `decimal_length_le`, `jsonBytes_length_le` -- how long they are at most; `length_utf8` -- an ASCII
  text has one byte a character.
-/

namespace Lib.Codec

/-- Numbers in decimal. -/
def decimal : Codec Nat (List Char) where
  enc n := (toString n).toList
  dec cs := some (Nat.ofDigitChars 10 cs 0)
  dec_enc n := by
    rw [Nat.toString_eq_repr, Nat.toList_repr, Nat.ofDigitChars_toDigits (by decide) (by decide)]

theorem decimal_digits {n : Nat} {c : Char} (h : c ∈ decimal.enc n) : c.isDigit = true := by
  have h' : c ∈ Nat.toDigits 10 n := by rwa [← Nat.toList_repr, ← Nat.toString_eq_repr]
  exact Nat.isDigit_of_mem_toDigits (by decide) (by decide) h'

/-- What is between the brackets of a list of bytes. -/
def commaSeparated (bytes : Bytes) : List Char :=
  List.intercalate [','] (bytes.map fun b => decimal.enc b.toNat)

theorem commaSeparated_cons (b b' : UInt8) (bytes : Bytes) :
    commaSeparated (b :: b' :: bytes) =
      decimal.enc b.toNat ++ ',' :: commaSeparated (b' :: bytes) := by
  simp only [commaSeparated, List.map_cons, List.intercalate_cons_cons, List.append_assoc,
    List.singleton_append]

/-- Digits and commas. -/
theorem mem_commaSeparated {bytes : Bytes} {c : Char} (h : c ∈ commaSeparated bytes) :
    c.isDigit = true ∨ c = ',' := by
  induction bytes with
  | nil => cases h
  | cons b bytes ih =>
    cases bytes with
    | nil => exact .inl (decimal_digits (by simpa [commaSeparated] using h))
    | cons b' bytes =>
      rw [commaSeparated_cons] at h
      rcases List.mem_append.mp h with h | h
      · exact .inl (decimal_digits h)
      · rcases List.mem_cons.mp h with h | h
        · exact .inr h
        · exact ih h

theorem decimal_ne_nil (n : Nat) : decimal.enc n ≠ [] := by
  show (toString n).toList ≠ []
  rw [Nat.toString_eq_repr, Nat.toList_repr]
  exact Nat.toDigits_ne_nil

theorem commaSeparated_eq_nil {bytes : Bytes} (h : commaSeparated bytes = []) : bytes = [] := by
  cases bytes with
  | nil => rfl
  | cons b bytes =>
    cases bytes with
    | nil => exact absurd (by simpa [commaSeparated] using h) (decimal_ne_nil b.toNat)
    | cons b' bytes =>
      rw [commaSeparated_cons] at h
      exact absurd (List.append_eq_nil_iff.mp h).1 (decimal_ne_nil b.toNat)

/-- **The bytes between the commas** are read back. -/
theorem splitOn_commaSeparated {bytes : Bytes} (h : bytes ≠ []) :
    (commaSeparated bytes).splitOn ',' = bytes.map fun b => decimal.enc b.toNat := by
  refine List.splitOn_intercalate ',' (fun l hl hcomma => ?_) fun hnil =>
    h (List.map_eq_nil_iff.mp hnil)
  obtain ⟨b, -, rfl⟩ := List.mem_map.mp hl
  exact absurd (decimal_digits hcomma) (by decide)

theorem mapM_decimal (bytes : Bytes) :
    (bytes.map fun b => decimal.enc b.toNat).mapM
      (fun digits => (decimal.dec digits).map UInt8.ofNat) =
      some bytes := by
  induction bytes with
  | nil => rfl
  | cons b bytes ih => simp [List.mapM_cons, ih]

/-- Lists of bytes. -/
def jsonBytes : Codec Bytes (List Char) where
  enc bytes := '[' :: (commaSeparated bytes ++ [']'])
  dec cs :=
    let inner := cs.tail.dropLast
    if inner = [] then some []
    else (inner.splitOn ',').mapM fun digits => (decimal.dec digits).map UInt8.ofNat
  dec_enc bytes := by
    simp only [List.tail_cons, List.dropLast_concat]
    split
    · next h => rw [commaSeparated_eq_nil h]
    · next h =>
      have hne : bytes ≠ [] := fun hnil => h (by rw [hnil]; rfl)
      rw [splitOn_commaSeparated hne, mapM_decimal]

/-- **A list ends at the first bracket.** -/
theorem jsonBytes_close (bytes : Bytes) :
    ∃ start, jsonBytes.enc bytes = start ++ [']'] ∧ ']' ∉ start := by
  refine ⟨'[' :: commaSeparated bytes, rfl, fun h => ?_⟩
  rcases List.mem_cons.mp h with h | h
  · exact absurd h (by decide)
  · rcases mem_commaSeparated h with h | h
    · exact absurd h (by decide)
    · exact absurd h (by decide)

section

variable {α : Type} {p : α → Bool} {l r : List α} {c : α}

/-- A text up to the first character of another kind. -/
theorem takeWhile_stop (hl : ∀ a ∈ l, p a = true) (hc : p c = false) :
    (l ++ c :: r).takeWhile p = l := by
  rw [List.takeWhile_append_of_pos hl, List.takeWhile_cons_of_neg
    (by rw [hc]; exact Bool.false_ne_true),
    List.append_nil]

/-- ... and from it on. -/
theorem dropWhile_stop (hl : ∀ a ∈ l, p a = true) (hc : p c = false) :
    (l ++ c :: r).dropWhile p = c :: r := by
  rw [List.dropWhile_append_of_pos hl, List.dropWhile_cons_of_neg
    (by rw [hc]; exact Bool.false_ne_true)]

end

theorem decimal_length_le {n k : Nat} (hk : 0 < k) (h : n < 10 ^ k) :
    (decimal.enc n).length ≤ k := by
  show (toString n).toList.length ≤ k
  rw [Nat.toString_eq_repr, Nat.toList_repr]
  exact (Nat.length_toDigits_le_iff (by decide) hk).mpr h

/-- Three digits and a comma a byte. -/
theorem commaSeparated_length_le (bytes : Bytes) :
    (commaSeparated bytes).length ≤ 4 * bytes.length := by
  have hbyte : ∀ b : UInt8, (decimal.enc b.toNat).length ≤ 3 :=
    fun b => decimal_length_le (by decide) (Nat.lt_trans b.toNat_lt (by decide))
  induction bytes with
  | nil => exact Nat.le_refl 0
  | cons b bytes ih =>
    cases bytes with
    | nil =>
      have hone : commaSeparated [b] = decimal.enc b.toNat := by simp [commaSeparated]
      rw [hone]
      exact Nat.le_succ_of_le (hbyte b)
    | cons b' bytes =>
      rw [commaSeparated_cons, List.length_append, List.length_cons, List.length_cons]
      have hb := hbyte b
      omega

theorem jsonBytes_length_le (bytes : Bytes) :
    (jsonBytes.enc bytes).length ≤ 4 * bytes.length + 2 := by
  have h := commaSeparated_length_le bytes
  show (commaSeparated bytes ++ [']']).length + 1 ≤ _
  rw [List.length_append, List.length_singleton]
  omega

/-! ## ASCII -/

/-- A text of characters below 128. -/
def Ascii (l : List Char) : Prop := ∀ c ∈ l, c.toNat < 128

/-- A text is checked character by character. -/
theorem ascii_of_all {l : List Char} (h : (l.all fun c => decide (c.toNat < 128)) = true) :
    Ascii l := by
  intro c hc
  exact of_decide_eq_true (List.all_eq_true.mp h c hc)

theorem Ascii.append {l l' : List Char} (h : Ascii l) (h' : Ascii l') : Ascii (l ++ l') := by
  intro c hc
  exact (List.mem_append.mp hc).elim (h c) (h' c)

theorem digit_lt {c : Char} (h : c.isDigit = true) : c.toNat < 128 := by
  have hle : c.val ≤ 57 := by
    have h' : (decide (c.val ≥ 48) && decide (c.val ≤ 57)) = true := h
    exact of_decide_eq_true (Bool.and_eq_true_iff.mp h').2
  exact Nat.lt_of_le_of_lt (UInt32.le_iff_toNat_le.mp hle) (by decide)

theorem ascii_decimal (n : Nat) : Ascii (decimal.enc n) := fun _ hc => digit_lt (decimal_digits hc)

theorem ascii_jsonBytes (bytes : Bytes) : Ascii (jsonBytes.enc bytes) := by
  intro c hc
  rcases List.mem_cons.mp hc with rfl | hc
  · decide
  · rcases List.mem_append.mp hc with hc | hc
    · rcases mem_commaSeparated hc with h | rfl
      · exact digit_lt h
      · decide
    · rw [List.mem_singleton.mp hc]
      decide

/-- **An ASCII text has one byte a character.** -/
theorem length_utf8 {l : List Char} (h : Ascii l) :
    (utf8.enc (String.ofList l)).length = l.length := by
  have hsize : ∀ c ∈ l, c.utf8Size = 1 := fun c hc =>
    Char.utf8Size_eq_one_iff.mpr (UInt32.le_iff_toNat_le.mpr (Nat.le_of_lt_succ (h c hc)))
  have hbytes : (utf8.enc (String.ofList l)).length = (l.map Char.utf8Size).sum := by
    show (String.ofList l).toUTF8.data.toList.length = _
    simp [List.utf8Encode, List.length_flatMap]
  rw [hbytes, List.map_congr_left hsize, List.map_const', List.sum_replicate_nat, Nat.mul_one]

end Lib.Codec
