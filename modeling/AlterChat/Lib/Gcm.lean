import AlterChat.Lib.Layout
import AlterChat.Lib.Symbolic

/-!
# The sizes of AES-GCM, and primitives over 32-byte strings

`Primitives.Gcm` is what AES-GCM documents about sizes: the longest plaintext it takes, and a tag of
16 bytes at the end of a ciphertext. The free terms of `Lib.Symbolic` have no sizes; `plain32` are
primitives over strings of 32 bytes which have them, with a cipher that shows its plaintext and
takes a part of the key for the tag.

`KeyLayout` is a format that every key fits: `symKey` for the terms, `key32` for 32 bytes. `written`
is another cipher over the terms, with ciphertexts that are not much longer than what they hold.
-/

namespace Lib

/-! ## 1. Sizes -/

/-- The sizes of AES-GCM. -/
structure Primitives.Gcm {Key : Type} (P : Primitives Key) : Prop where
  accepts_iff : ∀ m, P.accepts m = true ↔ m.length ≤ maxPlaintext
  seal_length : ∀ k n m, (P.aeadSeal k n m).length = m.length + 16
  open_length : ∀ k n c m, P.aeadOpen k n c = some m → c.length = m.length + 16

/-- A format for keys. -/
structure KeyLayout (Key : Type) extends Layout Key where
  fits : ∀ k, Fits k

attribute [simp] KeyLayout.fits

/-- The values a byte string of the codec stands for. -/
def Codec.exact {α : Type} (c : Codec α Bytes) (bs : Bytes) : Option α :=
  (c.dec bs).filter fun a => decide (c.enc a = bs)

theorem Codec.exact_iff {α : Type} (c : Codec α Bytes) (bs : Bytes) (a : α) :
    c.exact bs = some a ↔ c.enc a = bs := by
  rw [Codec.exact, Option.filter_eq_some_iff, decide_eq_true_eq]
  constructor
  · exact fun h => h.2
  · rintro rfl
    exact ⟨c.dec_enc a, rfl⟩

/-- Byte strings of any length: a 1 before every byte, and a 0 at the end. -/
def markedBytes : Bytes → Bytes
  | [] => [0]
  | b :: bs => 1 :: b :: markedBytes bs

def readMarked : Bytes → Option (Bytes × Bytes)
  | 0 :: r => some ([], r)
  | 1 :: b :: s => (readMarked s).map fun p => (b :: p.1, p.2)
  | _ => none

theorem readMarked_marked (l r : Bytes) : readMarked (markedBytes l ++ r) = some (l, r) := by
  induction l with
  | nil => rfl
  | cons b l ih => simp [markedBytes, readMarked, ih]

theorem readMarked_exact {s l r : Bytes} (h : readMarked s = some (l, r)) :
    s = markedBytes l ++ r := by
  induction s using readMarked.induct generalizing l with
  | case1 r' =>
    cases h
    rfl
  | case2 b s ih =>
    rw [readMarked, Option.map_eq_some_iff] at h
    obtain ⟨⟨l', r'⟩, hs, heq⟩ := h
    obtain ⟨rfl, rfl⟩ := Prod.mk.inj heq
    rw [markedBytes, List.cons_append, List.cons_append, ← ih hs]
  | case3 s h0 h1 =>
    rw [readMarked] at h
    · cases h
    · exact h0
    · exact h1

/-- A format for the values of a codec, however long. -/
def Codec.marked {α : Type} (c : Codec α Bytes) : KeyLayout α where
  bytes a := markedBytes (c.enc a)
  Fits _ := True
  cancel a b r s _ _ h := by
    have heq := readMarked_marked (c.enc a) r
    rw [h, readMarked_marked] at heq
    obtain ⟨hab, hrs⟩ := Prod.mk.inj (Option.some.inj heq)
    exact ⟨c.enc_injective hab.symm, hrs.symm⟩
  read s := (readMarked s).bind fun p => (c.exact p.1).map fun a => (a, p.2)
  read_iff s a r := by
    rw [Option.bind_eq_some_iff]
    constructor
    · intro hx
      obtain ⟨⟨l, r'⟩, hread, h⟩ := hx
      rw [Option.map_eq_some_iff] at h
      obtain ⟨a', ha, heq⟩ := h
      obtain ⟨rfl, rfl⟩ := Prod.mk.inj heq
      rw [(c.exact_iff l a').mp ha]
      exact ⟨trivial, readMarked_exact hread⟩
    · intro hx
      obtain ⟨-, rfl⟩ := hx
      exact ⟨(c.enc a, r), readMarked_marked _ _, by
        rw [(c.exact_iff _ a).mpr rfl]
        rfl⟩
  fits _ := trivial

/-- The keys of the symbolic model. -/
def symKey : KeyLayout Sym := (Codec.ofEncodable Sym).marked

/-- Primitives over the terms: a ciphertext opens under its key only, and to what was sealed. -/
structure Primitives.Terms (P : Primitives Sym) : Prop where
  publicKey : P.publicKey = Sym.publicKey
  diffieHellman : P.diffieHellman = Sym.diffieHellman
  limit : ∀ m, P.accepts m = true → m.length ≤ maxPlaintext
  open_seal : ∀ k n m, P.aeadOpen k n (P.aeadSeal k n m) = some m
  opened : ∀ k n m k' n' m', P.aeadOpen k' n' (P.aeadSeal k n m) = some m' → k' = k ∧ m' = m

theorem Primitives.Terms.lawful {P : Primitives Sym} (h : P.Terms) : P.Lawful where
  dh_comm a b := by
    rw [h.publicKey, h.diffieHellman]
    exact symbolic_lawful.dh_comm a b
  open_seal := h.open_seal

/-- Key and nonce in front of a plaintext. -/
def writtenLayout : Layout (Sym × Nonce) := symKey.toLayout.pair (.array .u8 12)

theorem writtenLayout_fits (kn : Sym × Nonce) : writtenLayout.Fits kn :=
  ⟨symKey.fits kn.1, Layout.array_u8_fits kn.2⟩

/-- The terms, with a cipher that writes key and nonce in front of the plaintext. -/
def written : Primitives Sym where
  publicKey := Sym.publicKey
  diffieHellman := Sym.diffieHellman
  hkdf := Sym.hkdf
  accepts m := decide (m.length ≤ maxPlaintext)
  aeadSeal k n m := writtenLayout.bytes (k, n) ++ m
  aeadOpen k n c := ((writtenLayout.read c).filter fun r => decide (r.1 = (k, n))).map Prod.snd

theorem written_open_iff {k : Sym} {n : Nonce} {c m : Bytes} :
    written.aeadOpen k n c = some m ↔ c = writtenLayout.bytes (k, n) ++ m := by
  simp only [written, Option.map_eq_some_iff, Option.filter_eq_some_iff, decide_eq_true_eq]
  constructor
  · rintro ⟨⟨kn, rest⟩, ⟨hread, rfl⟩, rfl⟩
    exact ((writtenLayout.read_iff _ _ _).mp hread).2
  · rintro rfl
    exact ⟨((k, n), m), ⟨(writtenLayout.read_iff _ _ _).mpr ⟨writtenLayout_fits _, rfl⟩, rfl⟩, rfl⟩

theorem written_terms : written.Terms where
  publicKey := rfl
  diffieHellman := rfl
  limit _ h := of_decide_eq_true h
  open_seal _ _ _ := written_open_iff.mpr rfl
  opened k n m k' n' m' h := by
    have heq := written_open_iff.mp h
    obtain ⟨hkn, hm⟩ :=
      writtenLayout.cancel _ _ _ _ (writtenLayout_fits _) (writtenLayout_fits _) heq
    exact ⟨(Prod.mk.inj hkn).1.symm, hm.symm⟩

/-! ## 2. Keys of 32 bytes -/

/-- `[u8; 32]`. -/
abbrev Key32 := Vector UInt8 32

instance Key32.zero : Zero Key32 := ⟨Vector.replicate 32 0⟩

/-- The 32 bytes. -/
def key32 : KeyLayout Key32 where
  toLayout := .array .u8 32
  fits := Layout.array_u8_fits

@[simp] theorem key32_length (k : Key32) : (key32.bytes k).length = 32 := Layout.array_u8_length k

/-- The tag of `plain32`: the first half of the key. -/
def tag32 (k : Key32) : Bytes := k.toList.take 16

theorem tag32_length (k : Key32) : (tag32 k).length = 16 := by simp [tag32]

/-- A secret is its own public key, and two secrets share their sum. -/
def plain32 : Primitives Key32 where
  publicKey k := k
  diffieHellman a b := Vector.zipWith (· + ·) a b
  hkdf salt _ _ := salt
  accepts m := decide (m.length ≤ maxPlaintext)
  aeadSeal k _ m := m ++ tag32 k
  aeadOpen k _ c :=
    if c.drop (c.length - 16) = tag32 k then some (c.take (c.length - 16)) else none

theorem plain32_lawful : plain32.Lawful where
  dh_comm a b := by
    refine Vector.ext fun i hi => ?_
    simp only [plain32, Vector.getElem_zipWith]
    exact UInt8.add_comm _ _
  open_seal k n m := by
    have hlen : (m ++ tag32 k).length - 16 = m.length := by
      rw [List.length_append, tag32_length, Nat.add_sub_cancel]
    simp only [plain32]
    rw [hlen, List.drop_left, List.take_left, if_pos rfl]

theorem plain32_gcm : plain32.Gcm where
  accepts_iff m := by simp [plain32]
  seal_length k n m := by simp [plain32, tag32_length]
  open_length k n c m h := by
    simp only [plain32] at h
    by_cases htag : c.drop (c.length - 16) = tag32 k
    · rw [if_pos htag] at h
      cases h
      have hlen := congrArg List.length htag
      rw [List.length_drop, tag32_length] at hlen
      rw [List.length_take]
      omega
    · rw [if_neg htag] at h
      cases h

end Lib
