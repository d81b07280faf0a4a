import AlterChat.Lib.Gcm
import AlterChat.Lib.Overflow

/-!
# `crypto.rs`: sealing for a peer, sealed sender, the legacy ratchet

The functions of `alterchat-core/src/crypto.rs` over `Lib.Primitives`. A random draw (an ephemeral
secret, a nonce) is an argument, and `bincode` is a `Lib.Layout`. A function that takes
`&mut RatchetState` returns its result and the state it leaves, on the error paths too;
`ratchet_decrypt` takes the build as well.

* §1 `encrypt_for_peer` and `decrypt_for_me`: `decryptForMe_encryptForPeer`, and the sizes;
* §2 `sealed_send` and `sealed_receive`: `sealedReceive_sealedSend`;
* §3 the legacy ratchet, whose `derive_key` (SHA-256 of key and label) is a parameter.
-/

namespace AlterChat.Crypto

open Lib

variable {Key : Type}

/-! ## 1. Sealing for a peer -/

structure EncryptedPayload (Key : Type) where
  ephemeralPubkey : Key
  nonce : Nonce
  ciphertext : Bytes
  deriving DecidableEq

def payloadFields : EncryptedPayload Key ≃ Key × Nonce × Bytes where
  toFun p := (p.ephemeralPubkey, p.nonce, p.ciphertext)
  invFun q := ⟨q.1, q.2.1, q.2.2⟩
  left_inv _ := rfl
  right_inv _ := rfl

def payloadLayout (K : KeyLayout Key) : Layout (EncryptedPayload Key) :=
  (K.toLayout.pair <| (Layout.array .u8 12).pair <| .seq .u8).record payloadFields

/-- `encrypt_for_peer`, with the ephemeral secret and the nonce it draws. -/
def encryptForPeer (P : Primitives Key) (ephemeral : Key) (nonce : Nonce) (recipientPubkey : Key)
    (plaintext : Bytes) : Except String (EncryptedPayload Key) :=
  match P.encrypt (P.diffieHellman ephemeral recipientPubkey) nonce plaintext with
  | none => .error "Encryption failed"
  | some ciphertext => .ok { ephemeralPubkey := P.publicKey ephemeral, nonce, ciphertext }

/-- `decrypt_for_me`. -/
def decryptForMe (P : Primitives Key) (mySecret : Key) (payload : EncryptedPayload Key) :
    Except String Bytes :=
  match P.aeadOpen (P.diffieHellman mySecret payload.ephemeralPubkey) payload.nonce
      payload.ciphertext with
  | none => .error "Decryption failed"
  | some plaintext => .ok plaintext

section

variable {P : Primitives Key} {ephemeral recipientPubkey mySecret : Key} {nonce : Nonce}
  {plaintext : Bytes} {payload : EncryptedPayload Key}

theorem encryptForPeer_ok_iff :
    encryptForPeer P ephemeral nonce recipientPubkey plaintext = .ok payload ↔
      P.accepts plaintext = true ∧
      payload = { ephemeralPubkey := P.publicKey ephemeral, nonce
                  ciphertext := P.aeadSeal (P.diffieHellman ephemeral recipientPubkey) nonce
                    plaintext } := by
  unfold encryptForPeer
  cases h : P.accepts plaintext with
  | false => simp [h]
  | true => simp [h, eq_comm]

theorem decryptForMe_ok_iff :
    decryptForMe P mySecret payload = .ok plaintext ↔
      P.aeadOpen (P.diffieHellman mySecret payload.ephemeralPubkey) payload.nonce
        payload.ciphertext = some plaintext := by
  unfold decryptForMe
  split
  · next h => simp [h]
  · next m h => simp [h]

/-- **Who has the secret reads what was sealed for the public key.** -/
theorem decryptForMe_encryptForPeer (hP : P.Lawful)
    (h : encryptForPeer P ephemeral nonce (P.publicKey mySecret) plaintext = .ok payload) :
    decryptForMe P mySecret payload = .ok plaintext := by
  obtain ⟨-, rfl⟩ := encryptForPeer_ok_iff.mp h
  rw [decryptForMe_ok_iff]
  simp only
  rw [hP.dh_comm]
  exact hP.open_seal ..

/-- **A sealed payload is its ciphertext and 52 bytes.** -/
theorem payload_length {K : KeyLayout Key} (hK : ∀ k, (K.bytes k).length = 32)
    (payload : EncryptedPayload Key) :
    ((payloadLayout K).bytes payload).length = payload.ciphertext.length + 52 := by
  simp only [payloadLayout, Layout.record_bytes, payloadFields, Equiv.coe_fn_mk, Layout.pair_length,
    hK, Layout.array_u8_length, Layout.bytes_length]
  omega

theorem payload_length_ge (K : KeyLayout Key) (payload : EncryptedPayload Key) :
    payload.ciphertext.length ≤ ((payloadLayout K).bytes payload).length := by
  simp only [payloadLayout, Layout.record_bytes, payloadFields, Equiv.coe_fn_mk, Layout.pair_length,
    Layout.bytes_length]
  omega

/-- A ciphertext of AES-GCM is short enough for its length to be written. -/
theorem ciphertext_short (hgcm : P.Gcm)
    (h : encryptForPeer P ephemeral nonce recipientPubkey plaintext = .ok payload) :
    payload.ciphertext.length < 2 ^ 63 := by
  obtain ⟨hacc, rfl⟩ := encryptForPeer_ok_iff.mp h
  have hlen := hgcm.seal_length (P.diffieHellman ephemeral recipientPubkey) nonce plaintext
  have hmax := (hgcm.accepts_iff plaintext).mp hacc
  have hbound : maxPlaintext + 16 < 2 ^ 63 := by decide
  simp only
  omega

@[simp] theorem payload_fits (K : KeyLayout Key) (payload : EncryptedPayload Key) :
    (payloadLayout K).Fits payload ↔ payload.ciphertext.length < 2 ^ 63 := by
  simp [payloadLayout, payloadFields]

end

/-! ## 2. Sealed sender -/

structure SealedMessage (Key : Type) where
  outer : EncryptedPayload Key
  deriving DecidableEq

structure SealedInner (Key : Type) where
  senderPubkey : Key
  senderPeerId : String
  payload : Bytes
  deriving DecidableEq

def sealedFields : SealedMessage Key ≃ EncryptedPayload Key where
  toFun m := m.outer
  invFun p := ⟨p⟩
  left_inv _ := rfl
  right_inv _ := rfl

def sealedLayout (K : KeyLayout Key) : Layout (SealedMessage Key) :=
  (payloadLayout K).record sealedFields

def innerFields : SealedInner Key ≃ Key × String × Bytes where
  toFun i := (i.senderPubkey, i.senderPeerId, i.payload)
  invFun q := ⟨q.1, q.2.1, q.2.2⟩
  left_inv _ := rfl
  right_inv _ := rfl

def innerLayout (K : KeyLayout Key) : Layout (SealedInner Key) :=
  (K.toLayout.pair <| Layout.string.pair <| .seq .u8).record innerFields

/-- `sealed_send`. -/
def sealedSend (P : Primitives Key) (K : KeyLayout Key) (ephemeral : Key) (nonce : Nonce)
    (mySecret : Key) (myPeerId : String) (recipientPubkey : Key) (plaintext : Bytes) :
    Except String (SealedMessage Key) :=
  let myPubkey := P.publicKey mySecret
  let inner : SealedInner Key :=
    { senderPubkey := myPubkey, senderPeerId := myPeerId, payload := plaintext }
  let innerBytes := (innerLayout K).bytes inner
  match encryptForPeer P ephemeral nonce recipientPubkey innerBytes with
  | .error e => .error e
  | .ok outer => .ok { outer }

/-- `sealed_receive`. -/
def sealedReceive (P : Primitives Key) (K : KeyLayout Key) (mySecret : Key)
    (msg : SealedMessage Key) : Except String (Key × String × Bytes) :=
  match decryptForMe P mySecret msg.outer with
  | .error e => .error e
  | .ok innerBytes =>
    match (innerLayout K).decode innerBytes with
    | none => .error "Deserialize error"
    | some inner => .ok (inner.senderPubkey, inner.senderPeerId, inner.payload)

section

variable {P : Primitives Key} {K : KeyLayout Key} {ephemeral mySecret recipientPubkey : Key}
  {nonce : Nonce} {myPeerId : String} {plaintext : Bytes} {msg : SealedMessage Key}

@[simp] theorem inner_fits (i : SealedInner Key) :
    (innerLayout K).Fits i ↔
      (Codec.utf8.enc i.senderPeerId).length < 2 ^ 63 ∧ i.payload.length < 2 ^ 63 := by
  simp [innerLayout, innerFields]

theorem inner_length_ge (i : SealedInner Key) :
    (Codec.utf8.enc i.senderPeerId).length + i.payload.length + 16 ≤
      ((innerLayout K).bytes i).length := by
  simp only [innerLayout, Layout.record_bytes, innerFields, Equiv.coe_fn_mk, Layout.pair_length,
    Layout.string_length, Layout.bytes_length]
  omega

theorem sealedSend_ok_iff :
    sealedSend P K ephemeral nonce mySecret myPeerId recipientPubkey plaintext = .ok msg ↔
      encryptForPeer P ephemeral nonce recipientPubkey
        ((innerLayout K).bytes ⟨P.publicKey mySecret, myPeerId, plaintext⟩) = .ok msg.outer := by
  unfold sealedSend
  simp only
  split
  · next e h => simp [h]
  · next outer h =>
    rw [h, Except.ok.injEq, Except.ok.injEq]
    constructor
    · rintro rfl
      rfl
    · intro h
      cases msg
      exact congrArg _ h

theorem sealedReceive_of_decrypt {mySecret : Key} (inner : SealedInner Key)
    (hfits : (innerLayout K).Fits inner)
    (h : decryptForMe P mySecret msg.outer = .ok ((innerLayout K).bytes inner)) :
    sealedReceive P K mySecret msg =
      .ok (inner.senderPubkey, inner.senderPeerId, inner.payload) := by
  simp only [sealedReceive, h, (innerLayout K).decode_bytes hfits]

/-- What the cipher takes is short enough for every length in it. -/
theorem lt_of_accepts {m : Bytes} {n : Nat} (hlimit : m.length ≤ maxPlaintext) (h : n ≤ m.length) :
    n < 2 ^ 63 := by
  have hmax : maxPlaintext < 2 ^ 63 := by decide
  omega

/-- **The receiver reads what was sealed for it.** -/
theorem sealedReceive_sealedSend (hP : P.Lawful)
    (hlimit : ∀ m, P.accepts m = true → m.length ≤ maxPlaintext) {secret : Key}
    (h : sealedSend P K ephemeral nonce mySecret myPeerId (P.publicKey secret)
      plaintext = .ok msg) :
    sealedReceive P K secret msg = .ok (P.publicKey mySecret, myPeerId, plaintext) := by
  have henc := sealedSend_ok_iff.mp h
  have hmax := hlimit _ (encryptForPeer_ok_iff.mp henc).1
  have hge := inner_length_ge (K := K) ⟨P.publicKey mySecret, myPeerId, plaintext⟩
  simp only at hge
  refine sealedReceive_of_decrypt ⟨P.publicKey mySecret, myPeerId, plaintext⟩ ?_
    (decryptForMe_encryptForPeer hP henc)
  simp only [inner_fits]
  exact ⟨lt_of_accepts hmax (by omega), lt_of_accepts hmax (by omega)⟩

end

/-! ## 3. The legacy ratchet -/

structure RatchetState (Key : Type) where
  rootKey : Key
  sendChainKey : Key
  recvChainKey : Key
  sendCount : Nat
  recvCount : Nat
  deriving DecidableEq

structure RatchetEnvelope (Key : Type) where
  counter : Nat
  nonce : Nonce
  ciphertext : Bytes
  deriving DecidableEq

/-- `derive_key`: a key and a label. -/
abbrev DeriveKey (Key : Type) := Key → Bytes → Key

/-- `RatchetState::for_peer_pair`. -/
def RatchetState.forPeerPair (D : DeriveKey Key) (sharedSecret : Key) (localId remoteId : String) :
    RatchetState Key :=
  let lowToHigh := D sharedSecret "low_to_high".toUTF8.toList
  let highToLow := D sharedSecret "high_to_low".toUTF8.toList
  { rootKey := D sharedSecret "root".toUTF8.toList
    sendChainKey := if localId ≤ remoteId then lowToHigh else highToLow
    recvChainKey := if localId ≤ remoteId then highToLow else lowToHigh
    sendCount := 0
    recvCount := 0 }

/-- `advance_chain`. -/
def advanceChain (D : DeriveKey Key) (chainKey : Key) : Key := D chainKey "next".toUTF8.toList

/-- The loop of `ratchet_decrypt`, `k` rounds of it. -/
def ratchetSkip (D : DeriveKey Key) : Nat → RatchetState Key → RatchetState Key
  | 0, state => state
  | k + 1, state =>
    ratchetSkip D k
      { state with
        recvChainKey := advanceChain D state.recvChainKey, recvCount := state.recvCount + 1 }

/-- `ratchet_decrypt`; `none` is a panic. Each round of the loop raises `recv_count` by one, so
    `while recv_count < counter` runs `counter - recv_count` rounds. -/
def ratchetDecrypt (b : Build) (P : Primitives Key) (D : DeriveKey Key) (state : RatchetState Key)
    (envelope : RatchetEnvelope Key) : Option (Except String Bytes × RatchetState Key) :=
  let state := ratchetSkip D (envelope.counter - state.recvCount) state
  let messageKey := D state.recvChainKey (le 8 envelope.counter).reverse
  match P.aeadOpen messageKey envelope.nonce envelope.ciphertext with
  | none => some (.error "Ratchet decryption failed", state)
  | some plaintext =>
    (b.unsigned 64 (envelope.counter + 1)).map fun recvCount =>
      (.ok plaintext, { state with recvChainKey := advanceChain D state.recvChainKey, recvCount })

end AlterChat.Crypto
