import AlterChat.Lib.Deduction
import Mathlib.Tactic.Common

/-!
# Hybrid key agreement as a parameter, and its free terms

`Suite` are the functions of a key agreement that mixes Diffie-Hellman with a key encapsulation,
over two types: `Key` for strings of 32 bytes, `Data` for strings of any length. `Lawful` is what
the implementations document.

`Term` is the symbolic model: numbered random strings, and everything else as a free term over what
it was made of. `termSuite` are the functions over it, `TermRule` says what can be made of what.

* `termSuite_lawful` -- the symbolic functions do what the laws ask;
* `blind_closed` -- who does not know any of some random strings derives nothing that takes two of
  them together;
* `made_closed` -- what can be made with some of the random strings and all that is public.
-/

namespace Lib

/-! ## 1. The functions -/

/-- Diffie-Hellman, a key derivation, signatures and a key encapsulation. -/
structure Suite (Key Data Dk Ek : Type) where
  publicKey : Key → Key
  diffieHellman : Key → Key → Key
  literal : String → Data
  /-- The 32 bytes of a key. -/
  ofKey : Key → Data
  /-- HKDF without salt: input key material and info label. -/
  hkdf : Data → String → Key
  /-- Signing key and message. -/
  sign : Key → Data → Data
  fromSeed : Data → Dk
  encapsulationKey : Dk → Ek
  ekBytes : Ek → Data
  /-- Whether a string has the size of an encapsulation key. -/
  ekSized : Data → Bool
  /-- Reading an encapsulation key of the right size. -/
  ekNew : Data → Option Ek
  /-- Ciphertext and shared secret, with the randomness. -/
  encapsulate : Ek → Key → Data × Data
  /-- Whether a string has the size of a ciphertext. -/
  ctSized : Data → Bool
  decapsulate : Dk → Data → Data

/-- Functional correctness. -/
structure Suite.Lawful {Key Data Dk Ek : Type} (C : Suite Key Data Dk Ek) : Prop where
  dh_comm : ∀ a b, C.diffieHellman a (C.publicKey b) = C.diffieHellman b (C.publicKey a)
  ek_sized : ∀ dk, C.ekSized (C.ekBytes (C.encapsulationKey dk)) = true
  ek_new : ∀ dk, C.ekNew (C.ekBytes (C.encapsulationKey dk)) = some (C.encapsulationKey dk)
  ct_sized : ∀ ek r, C.ctSized (C.encapsulate ek r).1 = true
  decapsulate : ∀ dk r, C.decapsulate dk (C.encapsulate (C.encapsulationKey dk) r).1 =
    (C.encapsulate (C.encapsulationKey dk) r).2

/-! ## 2. Free terms -/

/-- Strings as free terms over numbered random ones. -/
inductive Term where
  /-- What a function returns on an argument it is not meant for. -/
  | junk
  | random (n : Nat)
  | literal (s : String)
  | append (a b : Term)
  /-- The public key of a random secret. -/
  | point (n : Nat)
  /-- The value two random secrets share. -/
  | shared (m n : Nat)
  | derived (ikm : Term) (info : String)
  | signature (key message : Term)
  | encapsulationKey (seed : Term)
  | ciphertext (ek r : Term)
  | kemSecret (ek r : Term)
  deriving DecidableEq

namespace Term

instance : Append Term := ⟨append⟩

def publicKey : Term → Term
  | random n => point n
  | _ => junk

def diffieHellman : Term → Term → Term
  | random m, point n => shared (min m n) (max m n)
  | _, _ => junk

def isEncapsulationKey : Term → Bool
  | encapsulationKey _ => true
  | _ => false

def isCiphertext : Term → Bool
  | ciphertext _ _ => true
  | _ => false

def decapsulate (seed : Term) : Term → Term
  | ciphertext ek r => if ek = encapsulationKey seed then kemSecret ek r else junk
  | _ => junk

end Term

/-- The functions over free terms. -/
def termSuite : Suite Term Term Term Term where
  publicKey := Term.publicKey
  diffieHellman := Term.diffieHellman
  literal := .literal
  ofKey a := a
  hkdf := .derived
  sign := .signature
  fromSeed seed := seed
  encapsulationKey := .encapsulationKey
  ekBytes ek := ek
  ekSized := Term.isEncapsulationKey
  ekNew ek := if ek.isEncapsulationKey then some ek else none
  encapsulate ek r := (.ciphertext ek r, .kemSecret ek r)
  ctSized := Term.isCiphertext
  decapsulate := Term.decapsulate

theorem termSuite_lawful : termSuite.Lawful where
  dh_comm a b := by
    cases a <;> cases b <;> simp [termSuite, Term.publicKey, Term.diffieHellman, Nat.min_comm,
      Nat.max_comm]
  ek_sized _ := rfl
  ek_new _ := rfl
  ct_sized _ _ := rfl
  decapsulate dk r := if_pos rfl

/-! ## 3. What can be made of what -/

/-- Every function of the suite, and taking strings apart. -/
inductive TermRule : List Term → Term → Prop where
  | publicKey (a : Term) : TermRule [a] a.publicKey
  | diffieHellman (a b : Term) : TermRule [a, b] (a.diffieHellman b)
  | literal (s : String) : TermRule [] (.literal s)
  | append (a b : Term) : TermRule [a, b] (a ++ b)
  | left (a b : Term) : TermRule [a ++ b] a
  | right (a b : Term) : TermRule [a ++ b] b
  | derived (ikm : Term) (info : String) : TermRule [ikm] (.derived ikm info)
  | signature (key message : Term) : TermRule [key, message] (.signature key message)
  | encapsulationKey (seed : Term) : TermRule [seed] (.encapsulationKey seed)
  | ciphertext (ek r : Term) : TermRule [ek, r] (.ciphertext ek r)
  | kemSecret (ek r : Term) : TermRule [ek, r] (.kemSecret ek r)
  | decapsulate (seed ct : Term) : TermRule [seed, ct] (seed.decapsulate ct)

/-- Knowing the term takes none of the hidden random strings: none of them occurs where it could be
    read, and no two of them share a value in it. -/
def Term.Blind (hidden : Nat → Prop) : Term → Prop
  | random n => ¬ hidden n
  | append a b => a.Blind hidden ∧ b.Blind hidden
  | shared m n => ¬ hidden m ∨ ¬ hidden n
  | derived ikm _ => ikm.Blind hidden
  | _ => True

theorem Term.blind_decapsulate (hidden : Nat → Prop) (seed ct : Term) :
    (seed.decapsulate ct).Blind hidden := by
  unfold Term.decapsulate
  split
  · split <;> trivial
  · trivial

theorem Term.blind_diffieHellman {hidden : Nat → Prop} {a : Term} (ha : a.Blind hidden) (b : Term) :
    (a.diffieHellman b).Blind hidden := by
  unfold Term.diffieHellman
  split
  · next m n =>
    rcases Nat.le_total m n with h | h
    · rw [Nat.min_eq_left h]
      exact .inl ha
    · rw [Nat.max_eq_left h]
      exact .inr ha
  · trivial

/-- **From terms blind to the hidden strings only such terms can be made.** -/
theorem blind_closed (hidden : Nat → Prop) : ClosedUnder TermRule {t | t.Blind hidden} := by
  intro premises t hr hp
  cases hr with
  | publicKey a => show a.publicKey.Blind hidden; cases a <;> trivial
  | diffieHellman a b => exact Term.blind_diffieHellman (hp a (by simp)) b
  | literal => trivial
  | append a b => exact ⟨hp a (by simp), hp b (by simp)⟩
  | left _ b => exact (hp (t ++ b) (by simp)).1
  | right a => exact (hp (a ++ t) (by simp)).2
  | derived ikm => exact hp ikm (by simp)
  | signature => trivial
  | encapsulationKey => trivial
  | ciphertext => trivial
  | kemSecret => trivial
  | decapsulate seed ct => exact Term.blind_decapsulate hidden _ _

/-- What can be made with the random strings `C` and what is public: a shared value with one of its
    two secrets, a secret of the encapsulation with its randomness or with the seed. -/
def Term.Made (C : Set Nat) : Term → Prop
  | random n => n ∈ C
  | append a b => a.Made C ∧ b.Made C
  | shared m n => m ∈ C ∨ n ∈ C
  | derived ikm _ => ikm.Made C
  | kemSecret (encapsulationKey seed) r => r.Made C ∨ seed.Made C
  | kemSecret _ r => r.Made C
  | _ => True

theorem Term.made_shared {C : Set Nat} {m n : Nat} :
    ((random m).diffieHellman (point n)).Made C ↔ m ∈ C ∨ n ∈ C := by
  show min m n ∈ C ∨ max m n ∈ C ↔ _
  rcases Nat.le_total m n with h | h
  · rw [Nat.min_eq_left h, Nat.max_eq_right h]
  · rw [Nat.min_eq_right h, Nat.max_eq_left h, or_comm]

theorem Term.made_diffieHellman {C : Set Nat} {a : Term} (ha : a.Made C) (b : Term) :
    (a.diffieHellman b).Made C := by
  unfold Term.diffieHellman
  split
  · exact Term.made_shared.mpr (.inl ha)
  · trivial

theorem Term.made_kemSecret {C : Set Nat} {r : Term} (hr : r.Made C) (ek : Term) :
    (kemSecret ek r).Made C := by
  cases ek with
  | encapsulationKey seed => exact .inl hr
  | _ => exact hr

theorem Term.made_decapsulate {C : Set Nat} {seed : Term} (hs : seed.Made C) (ct : Term) :
    (seed.decapsulate ct).Made C := by
  unfold Term.decapsulate
  split
  · split
    · next heq =>
      rw [heq]
      exact .inr hs
    · trivial
  · trivial

/-- **From terms of this kind only such terms can be made.** -/
theorem made_closed (C : Set Nat) : ClosedUnder TermRule {t | t.Made C} := by
  intro premises t hr hp
  cases hr with
  | publicKey a => show a.publicKey.Made C; cases a <;> trivial
  | diffieHellman a b => exact Term.made_diffieHellman (hp a (by simp)) b
  | literal => trivial
  | append a b => exact ⟨hp a (by simp), hp b (by simp)⟩
  | left _ b => exact (hp (t ++ b) (by simp)).1
  | right a => exact (hp (a ++ t) (by simp)).2
  | derived ikm => exact hp ikm (by simp)
  | signature => trivial
  | encapsulationKey => trivial
  | ciphertext => trivial
  | kemSecret ek r => exact Term.made_kemSecret (hp r (by simp)) ek
  | decapsulate seed ct => exact Term.made_decapsulate (hp seed (by simp)) ct

end Lib
