import AlterChat.Lib.Agreement

/-!
# `x3dh.rs`: the hybrid handshake

The functions of `alterchat-core/src/x3dh.rs` over `Lib.Suite`. A random draw is an argument: the
ephemeral secret, the randomness of `encapsulate`, the signed prekey's secret and the ML-KEM seed.

* §1 types, §2 `initiate_x3dh` and `generate_prekey_bundle`, §3 `receive_x3dh`;
* `receive_initiate` -- both sides derive the same secret;
* `initiate_refuses_iff` -- which tampered bundles `initiate_x3dh` refuses;
* `owner_never_derives` -- what `generate_prekey_bundle` hands back does not suffice to answer;
* `owner_answers` -- with the secret of the signed prekey it does.
-/

namespace AlterChat.X3dh

open Lib

variable {Key Data Dk Ek : Type}

/-! ## 1. Types -/

structure PreKeyBundle (Key Data : Type) where
  identityKey : Key
  signedPrekey : Key
  signedPrekeySig : Data
  oneTimePrekey : Option Key
  mlKemEk : Data
  mlKemEkSig : Data
  deriving DecidableEq

structure InitialMessage (Key Data : Type) where
  identityKey : Key
  ephemeralKey : Key
  mlKemCt : Data
  usedOpk : Bool
  deriving DecidableEq

/-! ## 2. The initiator and the bundle -/

section

variable [Append Data] (C : Suite Key Data Dk Ek)

/-- `generate_x3dh_shared_secret`. -/
def generateX3dhSharedSecret (myIdentity myEphemeral : Key) (peerBundle : PreKeyBundle Key Data)
    (ssKem : Data) : Key :=
  let dh1 := C.diffieHellman myIdentity peerBundle.signedPrekey
  let dh2 := C.diffieHellman myEphemeral peerBundle.identityKey
  let dh3 := C.diffieHellman myEphemeral peerBundle.signedPrekey
  let ikm := C.literal "X3DH_MLKEM768_V1" ++ C.ofKey dh1 ++ C.ofKey dh2 ++ C.ofKey dh3
  let ikm := match peerBundle.oneTimePrekey with
    | some opk => ikm ++ C.ofKey (C.diffieHellman myEphemeral opk)
    | none => ikm
  C.hkdf (ikm ++ ssKem) "AlterChat_X3DH_SK"

/-- `initiate_x3dh`. -/
def initiateX3dh (ephemeral kemRandom myIdentity : Key) (peerBundle : PreKeyBundle Key Data) :
    Except String (InitialMessage Key Data × Key) :=
  if C.ekSized peerBundle.mlKemEk = false then .error "Invalid ML-KEM EK size"
  else
    match C.ekNew peerBundle.mlKemEk with
    | none => .error "Invalid ML-KEM key"
    | some ek =>
      let (ct, ssKem) := C.encapsulate ek kemRandom
      let sk := generateX3dhSharedSecret C myIdentity ephemeral peerBundle ssKem
      let initMsg :=
        { identityKey := C.publicKey myIdentity
          ephemeralKey := C.publicKey ephemeral
          mlKemCt := ct
          usedOpk := peerBundle.oneTimePrekey.isSome }
      .ok (initMsg, sk)

omit [Append Data] in
/-- `generate_prekey_bundle`: the bundle, and the seed of the decapsulation key. The secret of the
    signed prekey is dropped. -/
def generatePrekeyBundle (spkSecret : Key) (seed : Data) (identitySecret edSigningKey : Key) :
    PreKeyBundle Key Data × Data :=
  let spkPub := C.publicKey spkSecret
  let mlKemEkBytes := C.ekBytes (C.encapsulationKey (C.fromSeed seed))
  ({ identityKey := C.publicKey identitySecret
     signedPrekey := spkPub
     signedPrekeySig := C.sign edSigningKey (C.ofKey spkPub)
     oneTimePrekey := none
     mlKemEk := mlKemEkBytes
     mlKemEkSig := C.sign edSigningKey mlKemEkBytes },
   seed)

/-! ## 3. The responder -/

/-- `receive_x3dh`. -/
def receiveX3dh (myIdentity mySignedPrekey : Key) (myOneTimePrekey : Option Key) (myMlKemDk : Dk)
    (initMsg : InitialMessage Key Data) : Except String Key :=
  let dh1 := C.diffieHellman mySignedPrekey initMsg.identityKey
  let dh2 := C.diffieHellman myIdentity initMsg.ephemeralKey
  let dh3 := C.diffieHellman mySignedPrekey initMsg.ephemeralKey
  let ikm := C.literal "X3DH_MLKEM768_V1" ++ C.ofKey dh1 ++ C.ofKey dh2 ++ C.ofKey dh3
  let withOpk : Except String Data :=
    if initMsg.usedOpk then
      match myOneTimePrekey with
      | none => .error "Peer used OPK but we don't have it"
      | some opk => .ok (ikm ++ C.ofKey (C.diffieHellman opk initMsg.ephemeralKey))
    else .ok ikm
  match withOpk with
  | .error e => .error e
  | .ok ikm =>
    if C.ctSized initMsg.mlKemCt = false then .error "Invalid ML-KEM CT size"
    else .ok (C.hkdf (ikm ++ C.decapsulate myMlKemDk initMsg.mlKemCt) "AlterChat_X3DH_SK")

end

/-! ## 4. Both sides derive the same secret -/

section

variable [Append Data] {C : Suite Key Data Dk Ek}

/-- The public fields of a bundle belong to these secrets. A bundle may leave the one-time prekey
    out. -/
structure Matches (C : Suite Key Data Dk Ek) (identity signedPrekey : Key)
    (oneTimePrekey : Option Key) (dk : Dk) (bundle : PreKeyBundle Key Data) : Prop where
  identityKey : bundle.identityKey = C.publicKey identity
  signedPrekey : bundle.signedPrekey = C.publicKey signedPrekey
  oneTimePrekey : ∀ p, bundle.oneTimePrekey = some p →
    ∃ opk, oneTimePrekey = some opk ∧ p = C.publicKey opk
  mlKemEk : bundle.mlKemEk = C.ekBytes (C.encapsulationKey dk)

/-- Agreement of the two functions, with the missing one-time prekey as an error. -/
structure Agrees (C : Suite Key Data Dk Ek) (identity signedPrekey : Key)
    (oneTimePrekey : Option Key) (dk : Dk) : Prop where
  same : ∀ bundle, Matches C identity signedPrekey oneTimePrekey dk bundle →
    ∀ ephemeral kemRandom myIdentity msg sk,
      initiateX3dh C ephemeral kemRandom myIdentity bundle = .ok (msg, sk) →
        receiveX3dh C identity signedPrekey oneTimePrekey dk msg = .ok sk
  missing : ∀ msg : InitialMessage Key Data, msg.usedOpk = true → oneTimePrekey = none →
    receiveX3dh C identity signedPrekey oneTimePrekey dk msg =
      .error "Peer used OPK but we don't have it"

omit [Append Data] in
theorem initiate_matching (hC : C.Lawful) {identity signedPrekey : Key} {oneTimePrekey : Option Key}
    {dk : Dk} {bundle : PreKeyBundle Key Data}
    (hb : Matches C identity signedPrekey oneTimePrekey dk bundle) :
    C.ekSized bundle.mlKemEk = true ∧
      C.ekNew bundle.mlKemEk = some (C.encapsulationKey dk) := by
  rw [hb.mlKemEk]
  exact ⟨hC.ek_sized dk, hC.ek_new dk⟩

/-- **What the initiator derived the responder derives.** -/
theorem receive_same (hC : C.Lawful) {identity signedPrekey : Key} {oneTimePrekey : Option Key}
    {dk : Dk} {bundle : PreKeyBundle Key Data}
    (hb : Matches C identity signedPrekey oneTimePrekey dk bundle)
    {ephemeral kemRandom myIdentity sk : Key} {msg : InitialMessage Key Data}
    (h : initiateX3dh C ephemeral kemRandom myIdentity bundle = .ok (msg, sk)) :
    receiveX3dh C identity signedPrekey oneTimePrekey dk msg = .ok sk := by
  obtain ⟨hsized, hnew⟩ := initiate_matching hC hb
  have hct := hC.ct_sized (C.encapsulationKey dk) kemRandom
  have hss := hC.decapsulate dk kemRandom
  simp only [initiateX3dh, hsized, hnew, Bool.true_eq_false, if_false, Except.ok.injEq,
    Prod.mk.injEq] at h
  obtain ⟨rfl, rfl⟩ := h
  -- the three values of both sides, with the roles swapped
  have dh1 := hC.dh_comm signedPrekey myIdentity
  have dh2 := hC.dh_comm identity ephemeral
  have dh3 := hC.dh_comm signedPrekey ephemeral
  cases hopk : bundle.oneTimePrekey with
  | none =>
    simp [receiveX3dh, generateX3dhSharedSecret, hopk, hct, hss, dh1, dh2, dh3, hb.identityKey,
      hb.signedPrekey]
  | some p =>
    obtain ⟨opk, hmine, rfl⟩ := hb.oneTimePrekey p hopk
    have dh4 := hC.dh_comm opk ephemeral
    simp [receiveX3dh, generateX3dhSharedSecret, hopk, hmine, hct, hss, dh1, dh2, dh3, dh4,
      hb.identityKey, hb.signedPrekey]

/-- **X3DH agreement**: for all keys on both sides, with and without a one-time prekey. -/
theorem receive_initiate (hC : C.Lawful) (identity signedPrekey : Key) (oneTimePrekey : Option Key)
    (dk : Dk) : Agrees C identity signedPrekey oneTimePrekey dk where
  same _ hb _ _ _ _ _ h := receive_same hC hb h
  missing msg hused hnone := by
    simp [receiveX3dh, hused, hnone]

end

/-- The keys 0, 1, 2 with seed 3, in the free terms. -/
theorem receive_initiate_terms :
    Agrees termSuite (.random 0) (.random 1) (some (.random 2)) (.random 3) :=
  receive_initiate termSuite_lawful _ _ _ _

/-! ## 5. Tampered bundles -/

section

variable [Append Data]

/-- The string is no encapsulation key: its size is wrong, or it does not read as one. -/
def EkInvalid (C : Suite Key Data Dk Ek) (ek : Data) : Prop :=
  C.ekSized ek = false ∨ C.ekNew ek = none

/-- **`initiate_x3dh` refuses a bundle for its encapsulation key and for nothing else.** -/
theorem initiate_error_iff (C : Suite Key Data Dk Ek) (ephemeral kemRandom myIdentity : Key)
    (bundle : PreKeyBundle Key Data) :
    (∃ e, initiateX3dh C ephemeral kemRandom myIdentity bundle = .error e) ↔
      EkInvalid C bundle.mlKemEk := by
  unfold initiateX3dh EkInvalid
  cases hs : C.ekSized bundle.mlKemEk with
  | false => simp
  | true => cases hn : C.ekNew bundle.mlKemEk <;> simp

/-- A bundle with another signed prekey, encapsulation key or signature, made without the signing
    key: one of its signatures is not the owner's. -/
structure Tampered (C : Suite Key Data Dk Ek) (edSigningKey : Key)
    (bundle bundle' : PreKeyBundle Key Data) : Prop where
  identityKey : bundle'.identityKey = bundle.identityKey
  oneTimePrekey : bundle'.oneTimePrekey = bundle.oneTimePrekey
  forged : bundle'.signedPrekeySig ≠ C.sign edSigningKey (C.ofKey bundle'.signedPrekey) ∨
    bundle'.mlKemEkSig ≠ C.sign edSigningKey bundle'.mlKemEk

/-- **Which tampered bundles are refused**: those whose encapsulation key is none. -/
theorem initiate_refuses_iff (C : Suite Key Data Dk Ek)
    (spkSecret identitySecret edSigningKey : Key) (seed : Data)
    (bundle : PreKeyBundle Key Data) (ephemeral kemRandom myIdentity : Key) :
    (Tampered C edSigningKey (generatePrekeyBundle C spkSecret seed identitySecret edSigningKey).1
        bundle → ∃ e, initiateX3dh C ephemeral kemRandom myIdentity bundle = .error e) ↔
      (Tampered C edSigningKey
          (generatePrekeyBundle C spkSecret seed identitySecret edSigningKey).1 bundle →
        EkInvalid C bundle.mlKemEk) := by
  rw [initiate_error_iff]

end

/-- The owner's bundle with the signed prekey of an attacker in it. -/
def poisonedBundle (spk seed identity signing attacker : Nat) : PreKeyBundle Term Term :=
  { (generatePrekeyBundle termSuite (.random spk) (.random seed) (.random identity)
      (.random signing)).1 with signedPrekey := .point attacker }

/-- An attacker's prekey is taken for the owner's. -/
theorem poisoned_bundle_accepted :
    ¬ (Tampered termSuite (.random 0)
        (generatePrekeyBundle termSuite (.random 1) (.random 2) (.random 0) (.random 0)).1
        (poisonedBundle 1 2 0 0 9) →
      ∃ e, initiateX3dh termSuite (.random 5) (.random 6) (.random 4) (poisonedBundle 1 2 0 0 9) =
        .error e) := by
  intro h
  have htampered : Tampered termSuite (.random 0)
      (generatePrekeyBundle termSuite (.random 1) (.random 2) (.random 0) (.random 0)).1
      (poisonedBundle 1 2 0 0 9) := ⟨rfl, rfl, .inl (by decide)⟩
  obtain ⟨e, he⟩ := h htampered
  cases he

/-! ## 6. What the owner holds -/

/-- The strings in a bundle. -/
def PreKeyBundle.Contains (bundle : PreKeyBundle Term Term) (t : Term) : Prop :=
  t = bundle.identityKey ∨ t = bundle.signedPrekey ∨ t = bundle.signedPrekeySig ∨
    bundle.oneTimePrekey = some t ∨ t = bundle.mlKemEk ∨ t = bundle.mlKemEkSig

/-- The strings in a message. -/
def InitialMessage.Contains (msg : InitialMessage Term Term) (t : Term) : Prop :=
  t = msg.identityKey ∨ t = msg.ephemeralKey ∨ t = msg.mlKemCt

/-- What the owner of a bundle holds when a message arrives: its identity secret, its signing key,
    all that `generate_prekey_bundle` returned, and the message. (Session start and rotation keep
    the bundle only.) -/
def Holds (identity signing : Nat) (returned : PreKeyBundle Term Term × Term)
    (msg : InitialMessage Term Term) : Set Term :=
  {t | t = .random identity ∨ t = .random signing ∨ returned.1.Contains t ∨ t = returned.2 ∨
    msg.Contains t}

/-- A run: `generate_prekey_bundle`, then `initiate_x3dh` against the bundle, on numbered random
    strings. -/
structure Handshake where
  identity : Nat
  signing : Nat
  spk : Nat
  seed : Nat
  ephemeral : Nat
  kemRandom : Nat
  initiator : Nat

namespace Handshake

/-- What `generate_prekey_bundle` returns in the run. -/
def returned (h : Handshake) : PreKeyBundle Term Term × Term :=
  generatePrekeyBundle termSuite (.random h.spk) (.random h.seed) (.random h.identity)
    (.random h.signing)

/-- What `initiate_x3dh` returns in the run. -/
def initiated (h : Handshake) : Except String (InitialMessage Term Term × Term) :=
  initiateX3dh termSuite (.random h.ephemeral) (.random h.kemRandom) (.random h.initiator)
    h.returned.1

/-- The signed prekey and the ephemeral secret are fresh: none of the strings the owner has. -/
structure Fresh (h : Handshake) : Prop where
  spk : h.spk ≠ h.identity ∧ h.spk ≠ h.signing ∧ h.spk ≠ h.seed
  ephemeral : h.ephemeral ≠ h.identity ∧ h.ephemeral ≠ h.signing ∧ h.ephemeral ≠ h.seed

/-- The two strings that are drawn and dropped. -/
def Dropped (h : Handshake) (n : Nat) : Prop := n = h.spk ∨ n = h.ephemeral

variable {h : Handshake} {msg : InitialMessage Term Term} {sk : Term}

theorem initiated_ok (hok : h.initiated = .ok (msg, sk)) :
    msg = { identityKey := .point h.initiator, ephemeralKey := .point h.ephemeral
            mlKemCt := .ciphertext (.encapsulationKey (.random h.seed)) (.random h.kemRandom)
            usedOpk := false } ∧
    sk = .derived (.literal "X3DH_MLKEM768_V1" ++
        (Term.random h.initiator).diffieHellman (.point h.spk) ++
        (Term.random h.ephemeral).diffieHellman (.point h.identity) ++
        (Term.random h.ephemeral).diffieHellman (.point h.spk) ++
        .kemSecret (.encapsulationKey (.random h.seed)) (.random h.kemRandom))
      "AlterChat_X3DH_SK" := by
  cases hok
  exact ⟨rfl, rfl⟩

/-- Everything the owner holds is blind to the dropped strings. -/
theorem holds_blind (hf : h.Fresh) (hok : h.initiated = .ok (msg, sk)) :
    Holds h.identity h.signing h.returned msg ⊆ {t | t.Blind h.Dropped} := by
  obtain ⟨hspk, heph⟩ := hf
  obtain ⟨rfl, -⟩ := initiated_ok hok
  intro t ht
  rcases ht with rfl | rfl | hb | rfl | hm
  · intro hd
    rcases hd with hd | hd
    · exact hspk.1 hd.symm
    · exact heph.1 hd.symm
  · intro hd
    rcases hd with hd | hd
    · exact hspk.2.1 hd.symm
    · exact heph.2.1 hd.symm
  · rcases hb with rfl | rfl | rfl | hopk | rfl | rfl
    · trivial
    · trivial
    · trivial
    · cases hopk
    · trivial
    · trivial
  · intro hd
    rcases hd with hd | hd
    · exact hspk.2.2 hd.symm
    · exact heph.2.2 hd.symm
  · rcases hm with rfl | rfl | rfl <;> trivial

/-- The secret takes the two dropped strings together. -/
theorem sk_not_blind (hok : h.initiated = .ok (msg, sk)) : ¬ sk.Blind h.Dropped := by
  obtain ⟨-, rfl⟩ := initiated_ok hok
  intro hb
  obtain ⟨⟨-, hdh3⟩, -⟩ := hb
  have hmin : h.Dropped (min h.ephemeral h.spk) := by
    rcases Nat.le_total h.ephemeral h.spk with hle | hle
    · rw [Nat.min_eq_left hle]
      exact .inr rfl
    · rw [Nat.min_eq_right hle]
      exact .inl rfl
  have hmax : h.Dropped (max h.ephemeral h.spk) := by
    rcases Nat.le_total h.ephemeral h.spk with hle | hle
    · rw [Nat.max_eq_right hle]
      exact .inl rfl
    · rw [Nat.max_eq_left hle]
      exact .inr rfl
  rcases hdh3 with hn | hn
  · exact hn hmin
  · exact hn hmax

end Handshake

/-- **The owner of a bundle never completes a handshake against it**: whatever it makes of all that
    it holds and of the message, the initiator's secret is not among it. -/
theorem owner_never_derives (h : Handshake) (hf : h.Fresh) (msg : InitialMessage Term Term)
    (sk : Term) (hok : h.initiated = .ok (msg, sk)) :
    ¬ Derives TermRule (Holds h.identity h.signing h.returned msg) sk := by
  intro hd
  exact Handshake.sk_not_blind hok
    (hd.within (Handshake.holds_blind hf hok) (blind_closed h.Dropped))

/-- A run with seven different draws, but one string for identity and signing, as the app has it. -/
def sampleHandshake : Handshake where
  identity := 0
  signing := 0
  spk := 1
  seed := 2
  ephemeral := 3
  kemRandom := 4
  initiator := 5

theorem sampleHandshake_fresh : sampleHandshake.Fresh := by
  constructor <;> decide

/-- The message and the secret of the run. -/
theorem sampleHandshake_initiated : ∃ msg sk, sampleHandshake.initiated = .ok (msg, sk) :=
  ⟨_, _, rfl⟩

/-- The run, once more without the signed prekey's secret. -/
theorem owner_never_derives_sample : ∃ msg sk, sampleHandshake.initiated = .ok (msg, sk) ∧
    ¬ Derives TermRule
      (Holds sampleHandshake.identity sampleHandshake.signing sampleHandshake.returned msg) sk := by
  obtain ⟨msg, sk, hok⟩ := sampleHandshake_initiated
  exact ⟨msg, sk, hok, owner_never_derives sampleHandshake sampleHandshake_fresh msg sk hok⟩

/-- Session start, and one handshake the owner cannot answer. -/
theorem owner_cannot_answer : ¬ ∀ (h : Handshake) (msg : InitialMessage Term Term) (sk : Term),
    h.Fresh → h.initiated = .ok (msg, sk) →
      Derives TermRule (Holds h.identity h.signing h.returned msg) sk := by
  intro hall
  obtain ⟨msg, sk, hok⟩ := sampleHandshake_initiated
  have hd := hall sampleHandshake msg sk sampleHandshake_fresh hok
  exact Handshake.sk_not_blind hok
    (hd.within (Handshake.holds_blind sampleHandshake_fresh hok) (blind_closed _))

/-- Who can make the inputs of `receive_x3dh` can make its result. -/
theorem receive_derives {K : Set Term} {identity spk dk sk : Term} {msg : InitialMessage Term Term}
    (hidentity : Derives TermRule K identity) (hspk : Derives TermRule K spk)
    (hdk : Derives TermRule K dk) (hmsg : ∀ t, msg.Contains t → Derives TermRule K t)
    (hok : receiveX3dh termSuite identity spk none dk msg = .ok sk) : Derives TermRule K sk := by
  have hik := hmsg msg.identityKey (.inl rfl)
  have hek := hmsg msg.ephemeralKey (.inr (.inl rfl))
  have hct := hmsg msg.mlKemCt (.inr (.inr rfl))
  have hliteral : Derives TermRule K (.literal "X3DH_MLKEM768_V1") := .axiomatic (.literal _)
  have dh1 : Derives TermRule K (spk.diffieHellman msg.identityKey) :=
    .two (.diffieHellman _ _) hspk hik
  have dh2 : Derives TermRule K (identity.diffieHellman msg.ephemeralKey) :=
    .two (.diffieHellman _ _) hidentity hek
  have dh3 : Derives TermRule K (spk.diffieHellman msg.ephemeralKey) :=
    .two (.diffieHellman _ _) hspk hek
  have hss : Derives TermRule K (dk.decapsulate msg.mlKemCt) := .two (.decapsulate _ _) hdk hct
  have join : ∀ {a b : Term}, Derives TermRule K a → Derives TermRule K b →
      Derives TermRule K (a ++ b) := fun ha hb => .two (.append _ _) ha hb
  cases hused : msg.usedOpk with
  | true => simp [receiveX3dh, hused] at hok
  | false =>
    simp only [receiveX3dh, hused, Bool.false_eq_true, if_false] at hok
    split at hok
    · cases hok
    · cases hok
      exact .one (.derived _ _) (join (join (join (join hliteral dh1) dh2) dh3) hss)

/-- **With the secret of the signed prekey the owner would answer**, in every run. -/
theorem owner_answers (h : Handshake) (msg : InitialMessage Term Term) (sk : Term)
    (hok : h.initiated = .ok (msg, sk)) :
    Derives TermRule (insert (.random h.spk) (Holds h.identity h.signing h.returned msg)) sk := by
  have hmatch : Matches termSuite (.random h.identity) (.random h.spk) none (.random h.seed)
      h.returned.1 := ⟨rfl, rfl, nofun, rfl⟩
  refine receive_derives (.known _ ?_) (.known _ ?_) (.known _ ?_) (fun t ht => .known _ ?_)
    (receive_same termSuite_lawful hmatch hok)
  · exact .inr (.inl rfl)
  · exact .inl rfl
  · exact .inr (.inr (.inr (.inr (.inl rfl))))
  · exact .inr (.inr (.inr (.inr (.inr ht))))

end AlterChat.X3dh
