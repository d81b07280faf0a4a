import AlterChat.Core.Crypto
import AlterChat.Lib.Deduction

/-!
# Who can have sealed a message

`sealed_send` puts the public key of the sender next to the payload and seals both for the receiver;
the secret of the sender enters the message through this public key only. Here that is set against
what the key is kept for (proof of identity): in the symbolic model, with an adversary who seals and
serialises like everyone else.

* §1 `SealRule` -- what can be made of what; `Unforgeable` -- a message accepted in the name of a
  key was sealed by a holder of its secret;
* §2 `forged_accepted` -- an adversary with two public keys and a secret of its own seals in any
  name;
* §3 `sealed_forgeable` -- no receiver is safe from it.
-/

namespace AlterChat.Crypto

open Lib

/-! ## 1. The adversary, and what it should not be able to do -/

/-- The symbolic rules, and `bincode` on a `SealedInner` of known parts. -/
inductive SealRule (K : KeyLayout Sym) : List Known → Known → Prop where
  | sym (premises : List Known) (t : Known) (h : SymRule premises t) : SealRule K premises t
  | serialized (i : SealedInner Sym) :
      SealRule K [.key i.senderPubkey, .text i.payload] (.text ((innerLayout K).bytes i))

/-- A sealed message all of whose parts can be made; a nonce is no secret. -/
def Makes (K : KeyLayout Sym) (known : Set Known) (msg : SealedMessage Sym) : Prop :=
  Derives (SealRule K) known (.key msg.outer.ephemeralPubkey) ∧
    Derives (SealRule K) known (.text msg.outer.ciphertext)

/-- A call of `sealed_send` that has returned a message. -/
structure Sealing (K : KeyLayout Sym) where
  ephemeral : Sym
  nonce : Nonce
  mySecret : Sym
  myPeerId : String
  recipientPubkey : Sym
  payload : Bytes
  msg : SealedMessage Sym
  returned : sealedSend symbolic K ephemeral nonce mySecret myPeerId recipientPubkey payload =
    .ok msg

/-- **What a sealed message should prove**: whatever the adversary can make of what it knows, if
    `sealed_receive` returns a key, a peer id and a payload for it, then a holder of the secret of
    this key has made it with `sealed_send`, for this receiver, with this id and payload. -/
def Unforgeable (K : KeyLayout Sym) (mySecret : Sym) (known : Set Known) (log : List (Sealing K)) :
    Prop :=
  ∀ msg, Makes K known msg → ∀ pubkey peerId payload,
    sealedReceive symbolic K mySecret msg = .ok (pubkey, peerId, payload) →
    ∃ s ∈ log, symbolic.publicKey s.mySecret = pubkey ∧ s.myPeerId = peerId ∧
      s.recipientPubkey = symbolic.publicKey mySecret ∧ s.payload = payload ∧ s.msg = msg

/-- The public keys of the receiver `r` and of a victim `v`, a secret of one's own, and a text. -/
def outsider (r v own : Nat) (payload : Bytes) : Set Known :=
  {.key (.point r), .key (.point v), .key (.secret own), .text payload}

/-! ## 2. Sealing in another's name -/

section

variable {K : KeyLayout Sym} {r v own : Nat} {payload : Bytes} {known : Set Known}

/-- `encrypt_for_peer` on a `SealedInner` that names the victim. -/
def forged (K : KeyLayout Sym) (r v own : Nat) (nonce : Nonce) (peerId : String) (payload : Bytes) :
    SealedMessage Sym where
  outer :=
    { ephemeralPubkey := symbolic.publicKey (.secret own)
      nonce
      ciphertext := symbolic.aeadSeal (symbolic.diffieHellman (.secret own) (.point r)) nonce
        ((innerLayout K).bytes ⟨.point v, peerId, payload⟩) }

theorem forged_makes (hknown : outsider r v own payload ⊆ known) (nonce : Nonce) (peerId : String) :
    Makes K known (forged K r v own nonce peerId payload) := by
  have hr : Derives (SealRule K) known (.key (.point r)) := .known _ (hknown (by simp [outsider]))
  have hv : Derives (SealRule K) known (.key (.point v)) := .known _ (hknown (by simp [outsider]))
  have hown : Derives (SealRule K) known (.key (.secret own)) :=
    .known _ (hknown (by simp [outsider]))
  have htext : Derives (SealRule K) known (.text payload) := .known _ (hknown (by simp [outsider]))
  have hinner : Derives (SealRule K) known
      (.text ((innerLayout K).bytes ⟨Sym.point v, peerId, payload⟩)) :=
    .two (.serialized (⟨.point v, peerId, payload⟩ : SealedInner Sym)) hv htext
  have hshared : Derives (SealRule K) known
      (.key ((Sym.secret own).diffieHellman (.point r))) :=
    .two (.sym _ _ (.diffieHellman (.secret own) (.point r))) hown hr
  exact ⟨.one (.sym _ _ (.publicKey (.secret own))) hown,
    .two (.sym _ _ (.sealed _ nonce _)) hshared hinner⟩

/-- **The receiver takes it for a message of the victim.** -/
theorem forged_accepted (r v own : Nat) (nonce : Nonce) {peerId : String} {payload : Bytes}
    (hid : (Codec.utf8.enc peerId).length < 2 ^ 63) (hlen : payload.length < 2 ^ 63) :
    sealedReceive symbolic K (.secret r) (forged K r v own nonce peerId payload) =
      .ok (symbolic.publicKey (.secret v), peerId, payload) := by
  refine sealedReceive_of_decrypt ⟨Sym.point v, peerId, payload⟩ ((inner_fits _).mpr ⟨hid, hlen⟩) ?_
  have hshared : symbolic.diffieHellman (.secret r) (symbolic.publicKey (.secret own)) =
      symbolic.diffieHellman (.secret own) (.point r) :=
        symbolic_lawful.dh_comm (.secret r) (.secret own)
  rw [decryptForMe_ok_iff, forged]
  dsimp only
  rw [hshared]
  exact symbolic_lawful.open_seal ..

/-- Without its secret nobody gets to know it. -/
theorem outsider_ignorant (h : own ≠ v) :
    ¬ Derives (SealRule K) (outsider r v own payload) (.key (.secret v)) := by
  intro hd
  have hclosed : ClosedUnder (SealRule K) {i | i ≠ .key (.secret v)} := by
    intro premises t hr _ heq
    cases hr with
    | serialized i => cases heq
    | sym _ _ hs =>
      cases hs with
      | publicKey a => cases a <;> cases heq
      | diffieHellman a b =>
        unfold Sym.diffieHellman at heq
        split at heq <;> cases heq
      | derived => cases heq
      | expanded => cases heq
      | sealed => cases heq
      | opened => cases heq
  have hstart : outsider r v own payload ⊆ {i | i ≠ .key (.secret v)} := by
    intro i hi heq
    subst heq
    simp only [outsider, Set.mem_insert_iff, Set.mem_singleton_iff, Known.key.injEq, reduceCtorEq,
      Sym.secret.injEq, false_or, or_false] at hi
    exact h hi.symm
  exact hd.within hstart hclosed rfl

/-- A message sealed with another ephemeral secret is another message. -/
theorem forged_ne {s : Sealing K} (hs : s.ephemeral ≠ .secret own) (nonce : Nonce)
    (peerId : String) : s.msg ≠ forged K r v own nonce peerId payload := by
  intro heq
  have henc := (encryptForPeer_ok_iff.mp (sealedSend_ok_iff.mp s.returned)).2
  have hpub : symbolic.publicKey s.ephemeral = .point own := by
    have h := congrArg (fun m => m.outer.ephemeralPubkey) heq
    simp only [henc] at h
    exact h
  cases he : s.ephemeral with
  | secret n =>
    rw [he] at hpub hs
    cases hpub
    exact hs rfl
  | zero | point | shared | derived | expanded =>
    rw [he] at hpub
    cases hpub

end

/-! ## 3. No receiver is safe -/

/-- **A sealed message proves nothing about its sender**: whoever knows two public keys and has
    drawn a secret of its own, which no call of `sealed_send` has drawn, is taken for the holder of
    either. -/
theorem sealed_forgeable (K : KeyLayout Sym) (r v own : Nat) (known : Set Known)
    (log : List (Sealing K)) (hknown : outsider r v own [] ⊆ known)
    (hfresh : ∀ s ∈ log, s.ephemeral ≠ .secret own) : ¬ Unforgeable K (.secret r) known log := by
  intro h
  obtain ⟨s, hs, -, -, -, -, hmsg⟩ := h _ (forged_makes hknown (Vector.replicate 12 0) "") _ _ _
    (forged_accepted r v own _ (by decide) (by decide))
  exact forged_ne (hfresh s hs) _ _ hmsg

theorem sealed_forgeable_sample :
    ¬ Unforgeable symKey (.secret 1) (outsider 1 2 3 []) [] :=
  sealed_forgeable symKey 1 2 3 _ [] (fun _ h => h) (fun _ h => by cases h)

/-- Nobody has sealed anything, and someone without the secret of key 2 makes `sealed_receive`
    return this key. -/
theorem impersonated :
    ¬ Derives (SealRule symKey) (outsider 1 2 3 []) (.key (.secret 2)) ∧
    (∃ msg, Makes symKey (outsider 1 2 3 []) msg ∧
      sealedReceive symbolic symKey (.secret 1) msg =
        .ok (symbolic.publicKey (.secret 2), "B", [])) ∧
    ¬ Unforgeable symKey (.secret 1) (outsider 1 2 3 []) [] := by
  have hmakes := forged_makes (K := symKey) (fun _ h => h : outsider 1 2 3 [] ⊆ outsider 1 2 3 [])
    (Vector.replicate 12 0) "B"
  have haccepted : sealedReceive symbolic symKey (.secret 1)
      (forged symKey 1 2 3 (Vector.replicate 12 0) "B" []) =
        .ok (symbolic.publicKey (.secret 2), "B", []) :=
    forged_accepted 1 2 3 _ (by decide) (by decide)
  refine ⟨outsider_ignorant (by decide), ⟨_, hmakes, haccepted⟩, fun h => ?_⟩
  obtain ⟨s, hs, -⟩ := h _ hmakes _ _ _ haccepted
  cases hs

end AlterChat.Crypto
