import AlterChat.Lib.Codec

/-!
# Signature schemes with named keys

The interface of a key pair library: public keys with an encoding, a name derived from the public
key (the peer id), signing, verification. `Lawful` is what such a library documents; `tagged` is a
scheme that meets it, in which a signature is the signed text under the signer's number.
-/

namespace Lib

/-- Key pairs, public keys, their names and signatures. -/
structure Signatures (Keypair Pub : Type) where
  publicOf : Keypair → Pub
  encodePublic : Pub → Bytes
  decodePublic : Bytes → Except String Pub
  /-- The name of the holder of a public key. -/
  peerId : Pub → String
  sign : Keypair → Bytes → Except String Bytes
  verify : Pub → Bytes → Bytes → Bool

namespace Signatures

variable {Keypair Pub : Type}

/-- Functional correctness; an empty string is no signature. -/
structure Lawful (S : Signatures Keypair Pub) : Prop where
  decode_encode : ∀ p, S.decodePublic (S.encodePublic p) = .ok p
  verify_sign : ∀ k m s, S.sign k m = .ok s → S.verify (S.publicOf k) m s = true
  verify_nil : ∀ p m, S.verify p m [] = false

/-- The idealised scheme: a signature is valid for one byte string under one key. -/
def Exact (S : Signatures Keypair Pub) : Prop :=
  ∀ p p' m m' s, S.verify p m s = true → S.verify p' m' s = true → p = p' ∧ m = m'

/-- The idealised scheme: what verifies was signed with the key. -/
def Unforgeable (S : Signatures Keypair Pub) : Prop :=
  ∀ p m s, S.verify p m s = true → ∃ k, S.publicOf k = p ∧ S.sign k m = .ok s

/-- A signature of the numbered scheme. -/
def tag (p : Nat) (m : Bytes) : Bytes := 1 :: (Codec.ofEncodable (Nat × Bytes)).enc (p, m)

/-- The numbered scheme. -/
def tagged : Signatures Nat Nat where
  publicOf k := k
  encodePublic := Codec.nat.enc
  decodePublic b := match Codec.nat.dec b with
    | some p => .ok p
    | none => .error "unreadable"
  peerId p := String.ofList (List.replicate (p + 1) 'p')
  sign k m := .ok (tag k m)
  verify p m s := decide (s = tag p m)

theorem tagged_lawful : tagged.Lawful where
  decode_encode p := by simp [tagged]
  verify_sign k m s h := by
    cases h
    simp [tagged]
  verify_nil p m := by simp [tagged, tag]

theorem tagged_exact : tagged.Exact := by
  intro p p' m m' s h h'
  have hs : s = tag p m := of_decide_eq_true h
  have hs' : s = tag p' m' := of_decide_eq_true h'
  rw [hs, tag, tag, List.cons.injEq, Codec.enc_inj, Prod.mk.injEq] at hs'
  exact hs'.2

theorem tagged_unforgeable : tagged.Unforgeable := by
  intro p m s h
  have hs : s = tag p m := of_decide_eq_true h
  exact ⟨p, rfl, by rw [hs]; rfl⟩

theorem tagged_peerId_inj {p q : Nat} (h : tagged.peerId p = tagged.peerId q) : p = q := by
  have hl := congrArg (·.toList.length) h
  simpa [tagged] using hl

end Signatures

end Lib
