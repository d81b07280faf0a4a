import AlterChat.Core.X3dh

/-!
# Who learns the secret of a handshake

In the symbolic model, with an adversary who sees every bundle and message and has some of the
secrets.

* `handshake_secret_iff` -- which secrets suffice for the session's key: one on each side of every
  Diffie-Hellman value in it, and the seed or the randomness of the encapsulation;
* `identity_protects` -- whatever else the bundle holds, the key takes the secret of its identity
  key or the ephemeral one. The signatures have no part in it: `initiate_x3dh` does not look at
  them.
-/

namespace AlterChat.X3dh

open Lib

/-- The secrets of a handshake: of the responder (`identity`, `spk`, `opk`, `seed`), and of the
    initiator. -/
structure Secrets where
  identity : Nat
  spk : Nat
  opk : Option Nat
  seed : Nat
  initiator : Nat
  ephemeral : Nat
  kemRandom : Nat

namespace Secrets

/-- The responder's bundle, with any signatures. -/
def bundle (s : Secrets) (spkSig ekSig : Term) : PreKeyBundle Term Term where
  identityKey := .point s.identity
  signedPrekey := .point s.spk
  signedPrekeySig := spkSig
  oneTimePrekey := s.opk.map .point
  mlKemEk := .encapsulationKey (.random s.seed)
  mlKemEkSig := ekSig

/-- `initiate_x3dh` against a bundle. -/
def initiate (s : Secrets) (bundle : PreKeyBundle Term Term) :
    Except String (InitialMessage Term Term × Term) :=
  initiateX3dh termSuite (.random s.ephemeral) (.random s.kemRandom) (.random s.initiator) bundle

end Secrets

/-- The adversary: the secrets `C`, and what is sent. -/
def Overheard (C : Set Nat) (bundle : PreKeyBundle Term Term) (msg : InitialMessage Term Term) :
    Set Term :=
  {t | (∃ n ∈ C, t = .random n) ∨ bundle.Contains t ∨ msg.Contains t}

variable {C : Set Nat} {s : Secrets} {bundle : PreKeyBundle Term Term}
  {msg : InitialMessage Term Term} {sk : Term}

/-- The input of the key derivation, up to the secret of the encapsulation. -/
def ikm (s : Secrets) (bundle : PreKeyBundle Term Term) : Term :=
  let dhs := Term.literal "X3DH_MLKEM768_V1" ++
    (Term.random s.initiator).diffieHellman bundle.signedPrekey ++
    (Term.random s.ephemeral).diffieHellman bundle.identityKey ++
    (Term.random s.ephemeral).diffieHellman bundle.signedPrekey
  match bundle.oneTimePrekey with
  | some opk => dhs ++ (Term.random s.ephemeral).diffieHellman opk
  | none => dhs

/-- What `initiate_x3dh` returns. -/
theorem initiate_ok (h : s.initiate bundle = .ok (msg, sk)) :
    msg = { identityKey := .point s.initiator, ephemeralKey := .point s.ephemeral
            mlKemCt := .ciphertext bundle.mlKemEk (.random s.kemRandom)
            usedOpk := bundle.oneTimePrekey.isSome } ∧
    sk = .derived (ikm s bundle ++ .kemSecret bundle.mlKemEk (.random s.kemRandom))
      "AlterChat_X3DH_SK" := by
  unfold Secrets.initiate initiateX3dh at h
  split at h
  · cases h
  · split at h
    · cases h
    · next ek hek =>
      have hread : ek = bundle.mlKemEk := by
        change (if bundle.mlKemEk.isEncapsulationKey then some bundle.mlKemEk else none) = _ at hek
        split at hek
        · exact (Option.some.inj hek).symm
        · cases hek
      cases h
      rw [hread]
      refine ⟨rfl, ?_⟩
      unfold generateX3dhSharedSecret ikm
      cases bundle.oneTimePrekey <;> rfl

/-- **Nothing that is sent takes a secret.** -/
theorem overheard_made (hbundle : ∀ t, bundle.Contains t → t.Made C)
    (h : s.initiate bundle = .ok (msg, sk)) : Overheard C bundle msg ⊆ {t | t.Made C} := by
  obtain ⟨rfl, -⟩ := initiate_ok h
  rintro t (⟨n, hn, rfl⟩ | hb | rfl | rfl | rfl)
  · exact hn
  · exact hbundle t hb
  · trivial
  · trivial
  · trivial

/-! ## 1. The key of a handshake -/

/-- **The secrets that suffice.** -/
structure Exposed (C : Set Nat) (s : Secrets) : Prop where
  dh1 : s.initiator ∈ C ∨ s.spk ∈ C
  dh2 : s.ephemeral ∈ C ∨ s.identity ∈ C
  dh3 : s.ephemeral ∈ C ∨ s.spk ∈ C
  dh4 : ∀ opk, s.opk = some opk → s.ephemeral ∈ C ∨ opk ∈ C
  kem : s.kemRandom ∈ C ∨ s.seed ∈ C

theorem bundle_made {spkSig ekSig : Term} (hspk : spkSig.Made C) (hek : ekSig.Made C) :
    ∀ t, (s.bundle spkSig ekSig).Contains t → t.Made C := by
  rintro t (rfl | rfl | rfl | hopk | rfl | rfl)
  · trivial
  · trivial
  · exact hspk
  · obtain ⟨opk, -, rfl⟩ := Option.map_eq_some_iff.mp hopk
    trivial
  · trivial
  · exact hek

theorem ikm_none (hopk : s.opk = none) (spkSig ekSig : Term) :
    ikm s (s.bundle spkSig ekSig) = Term.literal "X3DH_MLKEM768_V1" ++
      (Term.random s.initiator).diffieHellman (.point s.spk) ++
      (Term.random s.ephemeral).diffieHellman (.point s.identity) ++
      (Term.random s.ephemeral).diffieHellman (.point s.spk) := by
  simp only [ikm, Secrets.bundle, hopk, Option.map_none]

theorem ikm_some {opk : Nat} (hopk : s.opk = some opk) (spkSig ekSig : Term) :
    ikm s (s.bundle spkSig ekSig) = Term.literal "X3DH_MLKEM768_V1" ++
      (Term.random s.initiator).diffieHellman (.point s.spk) ++
      (Term.random s.ephemeral).diffieHellman (.point s.identity) ++
      (Term.random s.ephemeral).diffieHellman (.point s.spk) ++
      (Term.random s.ephemeral).diffieHellman (.point opk) := by
  simp only [ikm, Secrets.bundle, hopk, Option.map_some]

/-- **The key takes them.** -/
theorem made_iff_exposed (s : Secrets) (spkSig ekSig : Term) :
    (ikm s (s.bundle spkSig ekSig) ++
      Term.kemSecret (.encapsulationKey (.random s.seed)) (.random s.kemRandom)).Made C ↔
      Exposed C s := by
  cases hopk : s.opk with
  | none =>
    rw [ikm_none hopk]
    constructor
    · rintro ⟨⟨⟨⟨-, h1⟩, h2⟩, h3⟩, hkem⟩
      refine ⟨Term.made_shared.mp h1, Term.made_shared.mp h2, Term.made_shared.mp h3,
        fun opk h => ?_, hkem⟩
      rw [hopk] at h
      cases h
    · intro h
      exact ⟨⟨⟨⟨trivial, Term.made_shared.mpr h.dh1⟩, Term.made_shared.mpr h.dh2⟩,
        Term.made_shared.mpr h.dh3⟩, h.kem⟩
  | some opk =>
    rw [ikm_some hopk]
    constructor
    · rintro ⟨⟨⟨⟨⟨-, h1⟩, h2⟩, h3⟩, h4⟩, hkem⟩
      refine ⟨Term.made_shared.mp h1, Term.made_shared.mp h2, Term.made_shared.mp h3,
        fun opk' h => ?_, hkem⟩
      rw [hopk] at h
      cases h
      exact Term.made_shared.mp h4
    · intro h
      exact ⟨⟨⟨⟨⟨trivial, Term.made_shared.mpr h.dh1⟩, Term.made_shared.mpr h.dh2⟩,
        Term.made_shared.mpr h.dh3⟩, Term.made_shared.mpr (h.dh4 opk hopk)⟩, h.kem⟩

section

variable {K : Set Term}

/-- A shared value, with one of the two secrets and the other public key. -/
theorem derives_shared {m n : Nat} (h : m ∈ C ∨ n ∈ C)
    (hC : ∀ k ∈ C, Derives TermRule K (.random k)) (hm : Derives TermRule K (.point m))
    (hn : Derives TermRule K (.point n)) :
    Derives TermRule K ((Term.random m).diffieHellman (.point n)) := by
  rcases h with h | h
  · exact .two (.diffieHellman _ _) (hC m h) hn
  · have hcomm : (Term.random m).diffieHellman (.point n) =
      (Term.random n).diffieHellman (.point m) :=
      termSuite_lawful.dh_comm (.random m) (.random n)
    rw [hcomm]
    exact .two (.diffieHellman _ _) (hC n h) hm

/-- The secret of an encapsulation, with its randomness or with the seed. -/
theorem derives_kemSecret {seed r : Nat} (h : r ∈ C ∨ seed ∈ C)
    (hC : ∀ k ∈ C, Derives TermRule K (.random k))
    (hek : Derives TermRule K (.encapsulationKey (.random seed)))
    (hct : Derives TermRule K (.ciphertext (.encapsulationKey (.random seed)) (.random r))) :
    Derives TermRule K (.kemSecret (.encapsulationKey (.random seed)) (.random r)) := by
  rcases h with h | h
  · exact .two (.kemSecret _ _) hek (hC r h)
  · have hdec : (Term.random seed).decapsulate
      (.ciphertext (.encapsulationKey (.random seed)) (.random r)) =
        .kemSecret (.encapsulationKey (.random seed)) (.random r) := if_pos rfl
    rw [← hdec]
    exact .two (.decapsulate _ _) (hC seed h) hct

end

/-- **They suffice.** -/
theorem Exposed.derives (h : Exposed C s) (spkSig ekSig : Term)
    (hok : s.initiate (s.bundle spkSig ekSig) = .ok (msg, sk)) :
    Derives TermRule (Overheard C (s.bundle spkSig ekSig) msg) sk := by
  have hC : ∀ k ∈ C, Derives TermRule (Overheard C (s.bundle spkSig ekSig) msg) (.random k) :=
    fun k hk => .known _ (.inl ⟨k, hk, rfl⟩)
  have hbundle : ∀ t, (s.bundle spkSig ekSig).Contains t →
      Derives TermRule (Overheard C (s.bundle spkSig ekSig) msg) t :=
    fun t ht => .known _ (.inr (.inl ht))
  have hmsg : ∀ t, msg.Contains t → Derives TermRule (Overheard C (s.bundle spkSig ekSig) msg) t :=
    fun t ht => .known _ (.inr (.inr ht))
  obtain ⟨hm, rfl⟩ := initiate_ok hok
  have hidentity := hbundle (.point s.identity) (.inl rfl)
  have hspk := hbundle (.point s.spk) (.inr (.inl rfl))
  have hek := hbundle (.encapsulationKey (.random s.seed)) (.inr (.inr (.inr (.inr (.inl rfl)))))
  have hinitiator := hmsg (.point s.initiator) (.inl (by rw [hm]))
  have hephemeral := hmsg (.point s.ephemeral) (.inr (.inl (by rw [hm])))
  have hct := hmsg (.ciphertext (.encapsulationKey (.random s.seed)) (.random s.kemRandom))
    (.inr (.inr (by rw [hm]; rfl)))
  have join : ∀ {a b : Term}, Derives TermRule (Overheard C (s.bundle spkSig ekSig) msg) a →
      Derives TermRule (Overheard C (s.bundle spkSig ekSig) msg) b →
      Derives TermRule (Overheard C (s.bundle spkSig ekSig) msg) (a ++ b) :=
    fun ha hb => .two (.append _ _) ha hb
  have hdhs := join (join (join (.axiomatic (.literal "X3DH_MLKEM768_V1"))
    (derives_shared h.dh1 hC hinitiator hspk)) (derives_shared h.dh2 hC hephemeral hidentity))
    (derives_shared h.dh3 hC hephemeral hspk)
  refine .one (.derived _ _) (join ?_ (derives_kemSecret h.kem hC hek hct))
  cases hopk : s.opk with
  | none =>
    rw [ikm_none hopk]
    exact hdhs
  | some opk =>
    have hpoint := hbundle (.point opk) (.inr (.inr (.inr (.inl (by
      simp only [Secrets.bundle, hopk, Option.map_some])))))
    rw [ikm_some hopk]
    exact join hdhs (derives_shared (h.dh4 opk hopk) hC hephemeral hpoint)

/-- **Who learns the key of a handshake**: those who have, of every Diffie-Hellman value in it, one
    of the two secrets, and the randomness of the encapsulation or the seed. -/
theorem handshake_secret_iff (spkSig ekSig : Term) (hspk : spkSig.Made C) (hek : ekSig.Made C)
    (h : s.initiate (s.bundle spkSig ekSig) = .ok (msg, sk)) :
    Derives TermRule (Overheard C (s.bundle spkSig ekSig) msg) sk ↔ Exposed C s := by
  refine ⟨fun hd => ?_, fun he => he.derives spkSig ekSig h⟩
  have hmade := hd.within (overheard_made (bundle_made hspk hek) h) (made_closed C)
  obtain ⟨-, rfl⟩ := initiate_ok h
  exact (made_iff_exposed s spkSig ekSig).mp hmade

/-- Seven different secrets. -/
def sevenSecrets : Secrets where
  identity := 0
  spk := 1
  opk := some 2
  seed := 3
  initiator := 4
  ephemeral := 5
  kemRandom := 6

/-- The initiator's identity secret and the seed do not suffice. -/
theorem handshake_secret_leaked : ∃ msg sk,
    sevenSecrets.initiate (sevenSecrets.bundle .junk .junk) = .ok (msg, sk) ∧
      ¬ Derives TermRule (Overheard {3, 4} (sevenSecrets.bundle .junk .junk) msg) sk := by
  refine ⟨_, _, rfl, fun hd => ?_⟩
  have he := (handshake_secret_iff (C := {3, 4}) .junk .junk trivial trivial rfl).mp hd
  rcases he.dh2 with h | h
  · rcases h with h | h <;> cases h
  · rcases h with h | h <;> cases h

/-! ## 2. A bundle that is not the responder's -/

/-- **The identity key protects the key of the session**: an adversary may put what it likes into
    the rest of the bundle; who has neither the secret of the identity key nor the ephemeral one
    does not learn it. -/
theorem identity_protects (hidentity : bundle.identityKey = .point s.identity)
    (hbundle : ∀ t, bundle.Contains t → t.Made C) (h : s.initiate bundle = .ok (msg, sk))
    (hd : Derives TermRule (Overheard C bundle msg) sk) : s.ephemeral ∈ C ∨ s.identity ∈ C := by
  have hmade := hd.within (overheard_made hbundle h) (made_closed C)
  obtain ⟨-, rfl⟩ := initiate_ok h
  have hikm : (ikm s bundle).Made C := (show (ikm s bundle).Made C ∧ _ from hmade).1
  unfold ikm at hikm
  rw [hidentity] at hikm
  cases hopk : bundle.oneTimePrekey with
  | none =>
    rw [hopk] at hikm
    exact Term.made_shared.mp hikm.1.2
  | some opk =>
    rw [hopk] at hikm
    exact Term.made_shared.mp hikm.1.1.2

/-- The prekeys are the adversary's own, and it has the secret of the identity key. -/
theorem identity_protects_exposed : ∃ bundle msg sk, sevenSecrets.initiate bundle = .ok (msg, sk) ∧
    Derives TermRule (Overheard {0, 9} bundle msg) sk ∧
    (sevenSecrets.ephemeral ∈ ({0, 9} : Set Nat) ∨ sevenSecrets.identity ∈ ({0, 9} : Set Nat)) := by
  let s : Secrets := { sevenSecrets with spk := 9, opk := none, seed := 9 }
  have hexposed : Exposed {0, 9} s :=
    ⟨.inr (.inr rfl), .inr (.inl rfl), .inr (.inr rfl), nofun, .inr (.inr rfl)⟩
  have hd := hexposed.derives .junk .junk rfl
  have hjunk : Term.junk.Made {0, 9} := trivial
  exact ⟨s.bundle .junk .junk, _, _, rfl, hd,
    identity_protects rfl (bundle_made hjunk hjunk) rfl hd⟩

end AlterChat.X3dh
