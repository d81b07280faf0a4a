import AlterChat.Lib.Deduction
import AlterChat.Lib.Primitives
import Mathlib.Tactic.DeriveEncodable

/-!
# The free-term primitives

`Sym` are the keys of the symbolic model: numbered secrets, their public points, the shared value of
two secrets, and derived keys as free terms over what they were derived from. `symbolic` are the
primitives over it, and `symbolic_ideal` says that they meet every assumption of `Primitives.Ideal`:
the idealisation is satisfiable, with a cipher that refuses what AES-GCM refuses.

`SymRule` says what can be made of what: everything the functions compute, and opening what was
sealed under a known key. The key derivation cannot be undone: `one_way`. A key that takes a secret
one does not have cannot be made: `hidden_closed`.
-/

namespace Lib

/-- Keys as free terms. -/
inductive Sym where
  | zero
  | secret (n : Nat)
  | point (n : Nat)
  | shared (m n : Nat)
  | derived (salt ikm : Sym) (info : String)
  | expanded (salt : Sym) (info : String)
  deriving DecidableEq, Encodable

namespace Sym

instance : Zero Sym := ⟨zero⟩

/-- The public point of a numbered secret. -/
def publicKey : Sym → Sym
  | secret n => point n
  | _ => zero

/-- The value two secrets share, the same from both sides. -/
def diffieHellman : Sym → Sym → Sym
  | secret m, point n => shared (min m n) (max m n)
  | _, _ => zero

/-- Key derivation as a free function. -/
def hkdf (salt : Sym) : Option Sym → String → Sym
  | some ikm, info => derived salt ikm info
  | none, info => expanded salt info

/-- Depth along the salt: every derivation is one deeper. -/
def depth : Sym → Nat
  | derived salt _ _ => salt.depth + 1
  | expanded salt _ => salt.depth + 1
  | _ => 0

end Sym

/-- A sealed message as it stands: key, nonce and plaintext. -/
def envelopeCodec : Codec (Sym × Bytes × Bytes) Bytes := Codec.ofEncodable _

/-- The longest plaintext AES-GCM takes: `2 ^ 36` bytes. -/
def maxPlaintext : Nat := 2 ^ 36

/-- The primitives of the symbolic model. -/
def symbolic : Primitives Sym where
  publicKey := Sym.publicKey
  diffieHellman := Sym.diffieHellman
  hkdf := Sym.hkdf
  accepts m := decide (m.length ≤ maxPlaintext)
  aeadSeal k n m := envelopeCodec.enc (k, n.toList, m)
  aeadOpen k n c :=
    match envelopeCodec.dec c with
    | some (k', n', m) => if k' = k ∧ n' = n.toList ∧ envelopeCodec.enc (k', n', m) = c then some m
        else none
    | none => none

@[simp] theorem symbolic_accepts (m : Bytes) :
    symbolic.accepts m = decide (m.length ≤ maxPlaintext) := rfl

/-- The cipher refuses what is longer than `maxPlaintext`. -/
theorem symbolic_refuses {m : Bytes} (h : maxPlaintext < m.length) :
    symbolic.accepts m = false := by
  rw [symbolic_accepts]
  exact decide_eq_false (Nat.not_le.mpr h)

/-- One byte more than the cipher takes. -/
def oversized : Bytes := List.replicate (maxPlaintext + 1) 0

theorem oversized_refused : symbolic.accepts oversized = false :=
  symbolic_refuses (by rw [oversized, List.length_replicate]; exact Nat.lt_succ_self _)

theorem symbolic_lawful : symbolic.Lawful where
  dh_comm a b := by
    cases a <;> cases b <;> simp [symbolic, Sym.publicKey, Sym.diffieHellman, Nat.min_comm,
      Nat.max_comm]
  open_seal k n m := by simp [symbolic]

/-- **The symbolic primitives meet the idealisation.** -/
theorem symbolic_ideal : symbolic.Ideal where
  toLawful := symbolic_lawful
  hkdf_inj s i l s' i' l' h := by
    cases i <;> cases i' <;> simp [symbolic, Sym.hkdf] at h <;> simp [h]
  hkdf_acyclic := ⟨Sym.depth, fun s i l => by cases i <;> simp [symbolic, Sym.hkdf, Sym.depth]⟩
  open_sound k n c m h := by
    simp only [symbolic] at h ⊢
    split at h
    · next k' n' m' _ =>
      split at h
      · next hc =>
        obtain ⟨rfl, rfl, hc⟩ := hc
        cases h
        exact hc.symm
      · cases h
    · cases h
  seal_key k n m k' n' m' h := by
    have h' := envelopeCodec.enc_injective h
    exact (Prod.mk.inj h').1

/-- A free derivation: the label is the info text. -/
def Sym.derive (k : Sym) (label : Bytes) : Sym :=
  .expanded k ((Codec.textOfEncodable Bytes).enc label)

theorem Sym.derive_free : FreeDerivation Sym.derive where
  inj k l k' l' h := by
    obtain ⟨hk, hl⟩ := Sym.expanded.inj h
    exact ⟨hk, Codec.enc_injective _ hl⟩
  acyclic := ⟨Sym.depth, fun k _ => Nat.lt_succ_self k.depth⟩

/-! ## What can be made of what -/

/-- What one can know: keys, and byte strings. -/
inductive Known where
  | key (k : Sym)
  | text (b : Bytes)

inductive SymRule : List Known → Known → Prop where
  | publicKey (a : Sym) : SymRule [.key a] (.key a.publicKey)
  /-- The shared value takes one of the two secrets. -/
  | diffieHellman (a b : Sym) : SymRule [.key a, .key b] (.key (a.diffieHellman b))
  | derived (salt ikm : Sym) (info : String) :
      SymRule [.key salt, .key ikm] (.key (.derived salt ikm info))
  | expanded (salt : Sym) (info : String) : SymRule [.key salt] (.key (.expanded salt info))
  | sealed (k : Sym) (n : Nonce) (m : Bytes) :
      SymRule [.key k, .text m] (.text (symbolic.aeadSeal k n m))
  | opened (k : Sym) (n : Nonce) (m : Bytes) :
      SymRule [.key k, .text (symbolic.aeadSeal k n m)] (.text m)

/-- Where the salts of a key end. -/
def Sym.origin : Sym → Sym
  | derived salt _ _ => salt.origin
  | expanded salt _ => salt.origin
  | t => t

open Primitives

theorem origin_of_descends {t k : Sym} (h : Descends symbolic t k) : t.origin = k.origin := by
  induction h with
  | refl => rfl
  | hkdf s i l _ ih => cases i <;> exact ih

/-- Everything but the keys that the salts of `mk` go through. -/
def Off (mk : Sym) : Set Known :=
  {i | ∀ k, i = .key k → ¬ Descends symbolic k mk}

/-- **The key derivation is one-way**: without a key that `mk` was derived from, salt by salt, none
    of these can be made, if a random secret is where they end. -/
theorem one_way {mk : Sym} {n : Nat} (h : mk.origin = .secret n) :
    ClosedUnder SymRule (Off mk) := by
  have hout : ∀ t : Sym, t.origin ≠ .secret n → ¬ Descends symbolic t mk := fun t ht hd =>
    ht ((origin_of_descends hd).trans h)
  intro premises t hr hp k hk
  cases hr with
  | publicKey a =>
    cases hk
    refine hout _ ?_
    cases a <;> nofun
  | diffieHellman a b =>
    cases hk
    refine hout _ ?_
    unfold Sym.diffieHellman
    split <;> nofun
  | derived salt ikm info =>
    cases hk
    exact fun hd => hp (.key salt) (by simp) salt rfl
      ((Descends.hkdf salt (some ikm) info .refl).trans hd)
  | expanded salt info =>
    cases hk
    exact fun hd => hp (.key salt) (by simp) salt rfl
      ((Descends.hkdf salt none info .refl).trans hd)
  | sealed => cases hk
  | opened => cases hk

/-! ## What takes a secret -/

/-- A key that cannot be made without a secret outside `C`. -/
def Sym.Hidden (C : Set Nat) : Sym → Prop
  | zero => False
  | secret k => k ∉ C
  | point _ => False
  | shared a b => a ∉ C ∧ b ∉ C
  | derived salt ikm _ => salt.Hidden C ∨ ikm.Hidden C
  | expanded salt _ => salt.Hidden C

section

variable {C : Set Nat}

/-- With fewer secrets more is hidden. -/
theorem Sym.Hidden.anti {C' : Set Nat} (hC : C ⊆ C') {k : Sym} (h : k.Hidden C') : k.Hidden C := by
  induction k with
  | zero => exact h
  | secret k => exact fun hk => h (hC hk)
  | point => exact h
  | shared a b => exact ⟨fun hk => h.1 (hC hk), fun hk => h.2 (hC hk)⟩
  | derived salt ikm info hsalt hikm => exact h.imp hsalt hikm
  | expanded salt info ih => exact ih h

theorem Sym.not_hidden_publicKey (k : Sym) : ¬ k.publicKey.Hidden C := by
  cases k <;> exact not_false

/-- A shared value takes neither secret alone. -/
theorem Sym.hidden_diffieHellman {a b : Nat} :
    ((Sym.secret a).diffieHellman (.point b)).Hidden C ↔ a ∉ C ∧ b ∉ C := by
  show min a b ∉ C ∧ max a b ∉ C ↔ _
  rcases Nat.le_total a b with h | h
  · rw [Nat.min_eq_left h, Nat.max_eq_right h]
  · rw [Nat.min_eq_right h, Nat.max_eq_left h, and_comm]

theorem Sym.not_hidden_diffieHellman {a : Sym} (h : ¬ a.Hidden C) (b : Sym) :
    ¬ (a.diffieHellman b).Hidden C := by
  unfold Sym.diffieHellman
  split
  · intro hd
    exact h (Sym.hidden_diffieHellman.mp hd).1
  · exact not_false

/-- **Without a secret outside `C`, no key that takes one can be made.** -/
theorem hidden_closed (C : Set Nat) :
    ClosedUnder SymRule {i | ∀ k, i = .key k → ¬ k.Hidden C} := by
  intro premises t hr hp k hk
  cases hr with
  | publicKey a =>
    cases hk
    exact Sym.not_hidden_publicKey a
  | diffieHellman a b =>
    cases hk
    exact Sym.not_hidden_diffieHellman (hp (.key a) (by simp) a rfl) b
  | derived salt ikm info =>
    cases hk
    rintro (hd | hd)
    · exact hp (.key salt) (by simp) salt rfl hd
    · exact hp (.key ikm) (by simp) ikm rfl hd
  | expanded salt info =>
    cases hk
    exact hp (.key salt) (by simp) salt rfl
  | sealed => cases hk
  | opened => cases hk

end

end Lib
