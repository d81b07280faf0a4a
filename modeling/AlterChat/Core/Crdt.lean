import AlterChat.Lib.Automerge
import AlterChat.Lib.Overflow
import AlterChat.Lib.Primitives

/-!
# `crdt.rs`: rooms

`alterchat-core/src/crdt.rs`: a room is an Automerge document and a key that its saved form is
encrypted under. Automerge, AES-GCM and PBKDF2 are parameters (`Libraries`); actor ids, nonces and
the clock are arguments. All expiry tests of one `get_messages` call see one reading of the clock.

A function that fails returns `Stop.err` with the text of its error; one that reaches a failing
`unwrap`, or an overflow in a build that checks for it, `Stop.panic`. `get_messages` takes the
build, and is the one that wraps where none is given. `add_message` and `merge` write to the
document, so they return it too.

* §1 types and the room key, §2 the encrypted form, §3 writing, §4 reading.
-/

namespace AlterChat.Crdt

open Lib

/-! ## 1. Rooms -/

structure CrdtMessage where
  peerId : String
  sender : String
  text : String
  timestamp : Int64
  ttl : Option Int64
  deriving DecidableEq

/-- The crates the module calls. -/
structure Libraries (Key Actor Scalar Doc : Type) where
  automerge : Automerge Actor Scalar Doc
  aead : Primitives Key
  /-- `pbkdf2_hmac::<Sha256>` of a password, a salt and a number of rounds. -/
  pbkdf2 : Bytes → Bytes → Nat → Key

/-- Why a function has no result. -/
inductive Stop where
  | err (text : String)
  | panic
  deriving DecidableEq

structure Room (Key Doc : Type) where
  id : String
  doc : Doc
  encryptionKey : Key

variable {Key Actor Scalar Doc : Type}

/-- `derive_room_key`. -/
def deriveRoomKey (L : Libraries Key Actor Scalar Doc) (id : String) (password : Option String) :
    Key :=
  match password with
  | some pwd => L.pbkdf2 (Codec.utf8.enc pwd) (Codec.utf8.enc id) 100000
  | none => L.pbkdf2 (Codec.utf8.enc "alterchat-open-room") (Codec.utf8.enc id) 1000

/-- `Room::new`. -/
def Room.new (L : Libraries Key Actor Scalar Doc) (actor : Actor) (id : String)
    (password : Option String) : Except Stop (Room Key Doc) :=
  match L.automerge.putObject (L.automerge.new actor) .root "messages" .list with
  | .error _ => .error .panic
  | .ok (_, doc) => .ok { id, doc, encryptionKey := deriveRoomKey L id password }

/-! ## 2. The encrypted form -/

/-- `encrypt_payload`: the nonce, then the ciphertext. -/
def encryptPayload (L : Libraries Key Actor Scalar Doc) (encryptionKey : Key) (nonce : Nonce)
    (plaintext : Bytes) : Except String Bytes :=
  match L.aead.encrypt encryptionKey nonce plaintext with
  | none => .error "Encryption failed"
  | some ciphertext => .ok (nonce.toList ++ ciphertext)

/-- `decrypt_payload`. -/
def decryptPayload (L : Libraries Key Actor Scalar Doc) (encryptionKey : Key) (payload : Bytes) :
    Except String Bytes :=
  if h : payload.length < 12 then .error "Payload too short for decryption"
  else
    let nonce : Nonce := ⟨(payload.take 12).toArray, by simp; omega⟩
    match L.aead.aeadOpen encryptionKey nonce (payload.drop 12) with
    | none => .error "Decryption failed (wrong password?)"
    | some plaintext => .ok plaintext

/-- **A payload decrypts to what was encrypted.** -/
theorem decryptPayload_encrypt {L : Libraries Key Actor Scalar Doc} (hP : L.aead.Lawful)
    {k : Key} {nonce : Nonce} {plaintext payload : Bytes}
    (h : encryptPayload L k nonce plaintext = .ok payload) :
    decryptPayload L k payload = .ok plaintext := by
  unfold encryptPayload Primitives.encrypt at h
  split at h
  · cases h
  · next ciphertext hc =>
    cases h
    split at hc
    · cases hc
      have hlen : nonce.toList.length = 12 := by simp
      have htake : (nonce.toList ++ L.aead.aeadSeal k nonce plaintext).take 12 = nonce.toList :=
        List.take_left' hlen
      have hdrop : (nonce.toList ++ L.aead.aeadSeal k nonce plaintext).drop 12 =
          L.aead.aeadSeal k nonce plaintext :=
        List.drop_left' hlen
      unfold decryptPayload
      rw [dif_neg (by rw [List.length_append, hlen]; omega)]
      have hnonce : (⟨((nonce.toList ++ L.aead.aeadSeal k nonce plaintext).take 12).toArray,
          by simp⟩ : Nonce) = nonce := by
        apply Vector.toArray_inj.mp
        show (((nonce.toList ++ L.aead.aeadSeal k nonce plaintext).take 12).toArray) = nonce.toArray
        rw [htake, Vector.toList, Array.toArray_toList]
      simp only [hnonce, hdrop, hP.open_seal]
    · cases hc

theorem encryptPayload_of_accepts {L : Libraries Key Actor Scalar Doc} {plaintext : Bytes}
    (h : L.aead.accepts plaintext = true) (k : Key) (nonce : Nonce) :
    ∃ payload, encryptPayload L k nonce plaintext = .ok payload := by
  unfold encryptPayload
  rw [Primitives.encrypt_of_accepts h]
  exact ⟨_, rfl⟩

/-- `Room::load`. -/
def Room.load (L : Libraries Key Actor Scalar Doc) (actor : Actor) (id : String) (bytes : Bytes)
    (password : Option String) : Except String (Room Key Doc) := do
  let encryptionKey := deriveRoomKey L id password
  let decrypted ← decryptPayload L encryptionKey bytes
  let doc ← L.automerge.load actor decrypted
  return { id, doc, encryptionKey }

/-- `save`. -/
def Room.save (L : Libraries Key Actor Scalar Doc) (room : Room Key Doc) (nonce : Nonce) :
    Except String Bytes × Room Key Doc :=
  let (bytes, doc) := L.automerge.save room.doc
  (encryptPayload L room.encryptionKey nonce bytes, { room with doc })

/-! ## 3. Writing -/

/-- The keys `add_message` assigns, in their order. -/
def messageFields (A : Automerge Actor Scalar Doc) (msg : CrdtMessage) : List (String × Scalar) :=
  [("peer_id", A.str msg.peerId), ("sender", A.str msg.sender), ("text", A.str msg.text),
    ("timestamp", A.int msg.timestamp)] ++
  match msg.ttl with
  | none => []
  | some t => [("ttl", A.int t)]

/-- `add_message` up to the commit: the message's object at the end of the list, and its keys.
    `timestamp` is the reading of the clock. -/
def appendMessage (A : Automerge Actor Scalar Doc) (doc : Doc) (msg : CrdtMessage) :
    Except Stop Unit × Doc :=
  match A.getKey doc .root "messages" with
  | .error e => (.error (.err e), doc)
  | .ok none => (.error .panic, doc)
  | .ok (some (_, messagesObj)) =>
    match A.insertObject doc messagesObj (A.length doc messagesObj) .map with
    | .error e => (.error (.err e), doc)
    | .ok (msgObj, doc) =>
      match A.putAll msgObj (messageFields A msg) doc with
      | (.error e, doc) => (.error (.err e), doc)
      | (.ok (), doc) => (.ok (), A.commit doc)

/-- `add_message`. -/
def Room.addMessage (L : Libraries Key Actor Scalar Doc) (room : Room Key Doc) (msg : CrdtMessage)
    (nonce : Nonce) : Except Stop Bytes × Room Key Doc :=
  match appendMessage L.automerge room.doc msg with
  | (.error stop, doc) => (.error stop, { room with doc })
  | (.ok (), doc) =>
    match Room.save L { room with doc } nonce with
    | (.error e, room) => (.error (.err e), room)
    | (.ok bytes, room) => (.ok bytes, room)

/-- `merge`. The other document is loaded under an actor of its own. -/
def Room.merge (L : Libraries Key Actor Scalar Doc) (room : Room Key Doc) (actor : Actor)
    (otherBytes : Bytes) : Except String Unit × Room Key Doc :=
  match decryptPayload L room.encryptionKey otherBytes with
  | .error e => (.error e, room)
  | .ok decrypted =>
    match L.automerge.load actor decrypted with
    | .error e => (.error e, room)
    | .ok otherDoc =>
      match L.automerge.merge room.doc otherDoc with
      | .error e => (.error e, room)
      | .ok doc => (.ok (), { room with doc })

/-! ## 4. Reading -/

/-- `(now - timestamp) > (t * 1000)`. -/
def expired (b : Build) (now timestamp : Int64) (ttl : Option Int64) : Option Bool :=
  match ttl with
  | none => some false
  | some t => do
    let age ← b.int64 (now.toInt - timestamp.toInt)
    let lifetime ← b.int64 (t.toInt * 1000)
    return decide (age > lifetime)

/-- **The test has an answer** where its age and its lifetime fit, and in a build that does not
    check. -/
theorem expired_isSome {b : Build} {now timestamp : Int64} {ttl : Option Int64} :
    (expired b now timestamp ttl).isSome = true ↔
      (b = .checked → ∀ t, ttl = some t → Fits (now.toInt - timestamp.toInt) ∧
        Fits (t.toInt * 1000)) := by
  cases ttl with
  | none => exact iff_of_true rfl fun _ t h => nomatch h
  | some t =>
    simp only [expired, bind, Option.isSome_bind, Option.some.injEq, forall_eq', forall_and]
    cases b with
    | wrapping => exact iff_of_true rfl ⟨nofun, nofun⟩
    | checked =>
      by_cases hage : Fits (now.toInt - timestamp.toInt)
      · rw [Build.int64_of_fits _ hage]
        by_cases hlife : Fits (t.toInt * 1000)
        · rw [Build.int64_of_fits _ hlife]
          simp [hage, hlife]
        · rw [Build.int64_overflow hlife]
          simp [hlife]
      · rw [Build.int64_overflow hage]
        simp [hage]

/-- What `get_messages` makes of a message. -/
def CrdtMessage.read (b : Build) (now : Int64) (msg : CrdtMessage) : Except Stop CrdtMessage :=
  match expired b now msg.timestamp msg.ttl with
  | none => .error .panic
  | some true => .ok { msg with text := "[MESSAGE EXPIRED]" }
  | some false => .ok msg

/-- A message as a reader sees it. -/
def CrdtMessage.shown (now : Int64) (msg : CrdtMessage) : CrdtMessage :=
  if expired .wrapping now msg.timestamp msg.ttl = some true then
    { msg with text := "[MESSAGE EXPIRED]" }
  else msg

/-- Where arithmetic wraps, every message is read. -/
theorem CrdtMessage.read_wrapping (now : Int64) (msg : CrdtMessage) :
    msg.read .wrapping now = .ok (msg.shown now) := by
  unfold CrdtMessage.read CrdtMessage.shown
  cases h : expired .wrapping now msg.timestamp msg.ttl with
  | none =>
    unfold expired at h
    split at h <;> cases h
  | some lapsed => cases lapsed <;> rfl

/-- `get(obj, key).unwrap()`. -/
def unwrapKey (A : Automerge Actor Scalar Doc) (doc : Doc) (obj : ObjId Actor) (key : String) :
    Except Stop (Option (Value Scalar)) :=
  match A.getKey doc obj key with
  | .error _ => .error .panic
  | .ok r => .ok (r.map fun v => v.1)

/-- One message of the list; the default for a key that is missing or holds something else. -/
def readMessage (A : Automerge Actor Scalar Doc) (doc : Doc) (msgObj : ObjId Actor) (now : Int64)
    (b : Build := .wrapping) : Except Stop CrdtMessage := do
  -- the first key is read with `unwrap_or`, the others with `unwrap`
  let peerId := ((A.getKey doc msgObj "peer_id").toOption.join.bind fun v => A.valueStr v.1).getD ""
  let sender := ((← unwrapKey A doc msgObj "sender").bind A.valueStr).getD ""
  let text := ((← unwrapKey A doc msgObj "text").bind A.valueStr).getD ""
  let timestamp := ((← unwrapKey A doc msgObj "timestamp").bind A.valueI64).getD 0
  let ttl := (← unwrapKey A doc msgObj "ttl").bind A.valueI64
  CrdtMessage.read b now { peerId, sender, text, timestamp, ttl }

/-- The loop of `get_messages` over the places of the list. -/
def readMessages (A : Automerge Actor Scalar Doc) (doc : Doc) (messagesObj : ObjId Actor)
    (now : Int64) (b : Build) : List Nat → Except Stop (List CrdtMessage)
  | [] => .ok []
  | i :: rest =>
    match A.getIndex doc messagesObj i with
    | .error e => .error (.err e)
    | .ok none => readMessages A doc messagesObj now b rest
    | .ok (some (_, msgObj)) => do
      let msg ← readMessage A doc msgObj now b
      let msgs ← readMessages A doc messagesObj now b rest
      return msg :: msgs

/-- The messages under an object. -/
def listMessages (A : Automerge Actor Scalar Doc) (doc : Doc) (messagesObj : ObjId Actor)
    (now : Int64) (b : Build := .wrapping) : Except Stop (List CrdtMessage) :=
  readMessages A doc messagesObj now b (List.range (A.length doc messagesObj))

/-- `get_messages`. -/
def Room.getMessages (L : Libraries Key Actor Scalar Doc) (room : Room Key Doc) (now : Int64)
    (b : Build := .wrapping) : Except Stop (List CrdtMessage) :=
  match L.automerge.getKey room.doc .root "messages" with
  | .error e => .error (.err e)
  | .ok none => .ok []
  | .ok (some (_, messagesObj)) => listMessages L.automerge room.doc messagesObj now b

end AlterChat.Crdt
