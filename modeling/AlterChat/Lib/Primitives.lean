import AlterChat.Lib.Codec
import AlterChat.Lib.Derivation

/-!
# Cryptographic primitives as a parameter

A program that calls a Diffie-Hellman function, an HMAC key derivation and an authenticated cipher
is modelled over a value of `Primitives`: one type `Key` for the 32-byte strings (secrets, public
keys, derived keys), and the functions. What is assumed about them is stated separately:

* `Lawful` -- functional correctness: Diffie-Hellman commutes, the cipher opens what it sealed;
* `Ideal` -- the symbolic idealisation on top: the key derivation is injective and never runs in a
  cycle (`rank`), the cipher opens only what was sealed under the same key and nonce, and a
  ciphertext belongs to one key.

`Descends` is the key tree below a secret: what the key derivation makes of it, salt by salt.
-/

namespace Lib

/-- A 96-bit nonce. -/
abbrev Nonce := Vector UInt8 12

/-- The primitives of a key agreement protocol over 32-byte strings `Key`. -/
structure Primitives (Key : Type) where
  /-- The public key of a Diffie-Hellman secret. -/
  publicKey : Key → Key
  /-- Diffie-Hellman of a secret and a public key. -/
  diffieHellman : Key → Key → Key
  /-- HKDF: salt, input key material (`none` = the empty string), info label. -/
  hkdf : Key → Option Key → String → Key
  /-- Whether the cipher takes a plaintext of this length. -/
  accepts : Bytes → Bool
  /-- Seal a plaintext under a key and a nonce. -/
  aeadSeal : Key → Nonce → Bytes → Bytes
  /-- Open a ciphertext; `none` = authentication failed. -/
  aeadOpen : Key → Nonce → Bytes → Option Bytes

namespace Primitives

variable {Key : Type}

/-- The cipher's `encrypt`: it refuses a plaintext it does not take. -/
def encrypt (P : Primitives Key) (k : Key) (n : Nonce) (m : Bytes) : Option Bytes :=
  if P.accepts m then some (P.aeadSeal k n m) else none

@[simp] theorem encrypt_of_accepts {P : Primitives Key} {m : Bytes} (h : P.accepts m = true)
    (k : Key) (n : Nonce) : P.encrypt k n m = some (P.aeadSeal k n m) := by
  simp [encrypt, h]

@[simp] theorem encrypt_of_not_accepts {P : Primitives Key} {m : Bytes}
    (h : P.accepts m = false) (k : Key) (n : Nonce) : P.encrypt k n m = none := by
  simp [encrypt, h]

/-- Functional correctness of the primitives. -/
structure Lawful (P : Primitives Key) : Prop where
  dh_comm : ∀ a b, P.diffieHellman a (P.publicKey b) = P.diffieHellman b (P.publicKey a)
  open_seal : ∀ k n m, P.aeadOpen k n (P.aeadSeal k n m) = some m

/-- The symbolic idealisation of the primitives. -/
structure Ideal (P : Primitives Key) : Prop extends P.Lawful where
  hkdf_inj : ∀ s i l s' i' l', P.hkdf s i l = P.hkdf s' i' l' → s = s' ∧ i = i' ∧ l = l'
  hkdf_acyclic : ∃ rank : Key → Nat, ∀ s i l, rank s < rank (P.hkdf s i l)
  open_sound : ∀ k n c m, P.aeadOpen k n c = some m → c = P.aeadSeal k n m
  seal_key : ∀ k n m k' n' m', P.aeadSeal k n m = P.aeadSeal k' n' m' → k = k'

/-- **A ciphertext opens under one key only.** -/
theorem Ideal.open_other {P : Primitives Key} (h : P.Ideal) {k k' : Key} (hk : k' ≠ k)
    (n n' : Nonce) (m : Bytes) : P.aeadOpen k' n' (P.aeadSeal k n m) = none := by
  cases hu : P.aeadOpen k' n' (P.aeadSeal k n m) with
  | none => rfl
  | some m' => exact absurd (h.seal_key _ _ _ _ _ _ (h.open_sound _ _ _ _ hu)).symm hk

/-- Key commitment: what was sealed under a key opens under no other. -/
def Committing (P : Primitives Key) : Prop :=
  ∀ k k' n n' m, k' ≠ k → P.aeadOpen k' n' (P.aeadSeal k n m) = none

theorem Ideal.committing {P : Primitives Key} (h : P.Ideal) : P.Committing :=
  fun _ _ n n' m hk => h.open_other hk n n' m

/-- The keys derived from `root`, with `root` itself. -/
inductive Descends (P : Primitives Key) (root : Key) : Key → Prop where
  | refl : Descends P root root
  | hkdf (s : Key) (i : Option Key) (l : String) (h : Descends P root s) :
      Descends P root (P.hkdf s i l)

theorem Descends.iterate {P : Primitives Key} {root k : Key} (h : Descends P root k)
    (i : Option Key) (l : String) (n : Nat) :
    Descends P root ((fun c => P.hkdf c i l)^[n] k) := by
  induction n with
  | zero => exact h
  | succ n ih => rw [Function.iterate_succ_apply']; exact .hkdf _ _ _ ih

theorem Descends.trans {P : Primitives Key} {a b c : Key} (h : Descends P a b)
    (h' : Descends P b c) : Descends P a c := by
  induction h' with
  | refl => exact h
  | hkdf s i l _ ih => exact .hkdf s i l ih

theorem Descends.rank_le {P : Primitives Key} {rank : Key → Nat}
    (hr : ∀ s i l, rank s < rank (P.hkdf s i l)) {a b : Key} (h : Descends P a b) :
    rank a ≤ rank b := by
  induction h with
  | refl => exact Nat.le_refl _
  | hkdf s i l _ ih => exact Nat.le_trans ih (Nat.le_of_lt (hr s i l))

/-- Above a derived key there are the key itself and what is above its salt. -/
theorem Ideal.descends_hkdf {P : Primitives Key} (hP : P.Ideal) {t s : Key} {i : Option Key}
    {l : String} (h : Descends P t (P.hkdf s i l)) : t = P.hkdf s i l ∨ Descends P t s := by
  generalize hk : P.hkdf s i l = k at h
  cases h with
  | refl => exact .inl rfl
  | hkdf s' i' l' h' => exact .inr ((hP.hkdf_inj _ _ _ _ _ _ hk).1 ▸ h')

/-- **Along a chain of derivations no key comes twice.** -/
theorem Ideal.iterate_inj {P : Primitives Key} (h : P.Ideal) (i : Option Key) (l : String)
    {k : Key} {m n : Nat} (e : (fun c => P.hkdf c i l)^[m] k = (fun c => P.hkdf c i l)^[n] k) :
    m = n := by
  obtain ⟨rank, hr⟩ := h.hkdf_acyclic
  exact iterate_inj_of_rank (fun k => hr k i l) e

end Primitives

end Lib
