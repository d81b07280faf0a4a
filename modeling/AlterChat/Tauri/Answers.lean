import AlterChat.Core.LegacyRatchet
import AlterChat.Core.RatchetCounters
import AlterChat.Tauri.Chunks
import AlterChat.Tauri.Handling

/-!
# Requests that are not answered

The request handler of `alterchat-ui/src-tauri/src/lib.rs`, with what overflows on the way to a
response: the ages of the rate limiter, the failure count of `PowBanList`, the quota and the expiry
of a chunk, and the counters of both ratchets. A panic ends the event loop; of its effects, those
from before it remain.

* §1 the rate limiter and the gate, §2 storing a chunk, §3 messages, §4 the handler;
* §5 what does not overflow: `ArmFits`, `NoOverflow`, on the state before;
* §6 each arm where it does not overflow, and where it does;
* §7 `handle_returns` -- a handler that returns is `handleRequest`;
* §8 `answered_iff` -- which requests are answered once and in kind;
* §9 `chunk_unanswered` -- a chunk that is not.
-/

namespace AlterChat.Answers

open Lib Db Crypto Onion Requests DirectMessages Profile Inbound Chunks
open DoubleRatchet
  (SkippedKey CountersFit decryptIn decryptIn_eq decryptIn_overflow decryptIn_wrapping
  DrState DrEnvelope decrypt)
open LegacyRatchet (Opens)

variable {Key : Type}

/-- What handling a request leaves: the effects, and the event loop if there was no panic. -/
structure Handled (Key : Type) where
  effects : List (NetEffect Key)
  loop : Option (EventLoop Key)

/-- A panic after these effects. -/
def Handled.panic (effects : List (NetEffect Key)) : Handled Key := ⟨effects, none⟩

def Handled.returns (r : EventLoop Key × List (NetEffect Key)) : Handled Key := ⟨r.2, some r.1⟩

/-! ## 1. The rate limiter and the gate -/

/-- The `while` of `rate_limit_allows`. -/
def expire (b : Build) (nowMs : Int64) : List Int64 → Option (List Int64)
  | [] => some []
  | ts :: rest =>
    match b.sub nowMs ts with
    | none => none
    | some age => if 60000 < age then expire b nowMs rest else some (ts :: rest)

/-- `rate_limit_allows`, on the bucket of the peer. -/
def rateLimitAllowsIn (b : Build) (bucket : List Int64) (nowMs perMinute : Int64) :
    Option (Bool × List Int64) :=
  (expire b nowMs bucket).map fun bucket =>
    if (max perMinute 1).toNatClampNeg ≤ bucket.length then (false, bucket)
    else (true, bucket ++ [nowMs])

/-- The gate up to the rate limiter: the rate that it is asked with, or `none` where the peer is
    refused. -/
def askLimiter (f : Stage → Faults) (l : EventLoop Key) (peer : String) : Option Int64 × Database :=
  let (settings, conn) := getPeerSettings (f .gate) l.node.conn peer
  if (settings.toOption.map fun s => s.blocked).getD false = true then (none, conn)
  else
    let (contact, conn) := peerCanContact (f .contact) conn peer l.unknownPeerPolicy
    if contact = false then (none, conn)
    else (some ((settings.toOption.map fun s => s.rateLimitPerMinute).getD l.rateLimitPerMinute),
      conn)

/-- The gate before the handler. -/
def requestGateIn (b : Build) (f : Stage → Faults) (l : EventLoop Key) (nowMs : Int64)
    (peer : String) : Option (Verdict × EventLoop Key) :=
  match askLimiter f l peer with
  | (none, conn) => some (.refused, l.setConn conn)
  | (some perMinute, conn) =>
    (rateLimitAllowsIn b (l.rateBuckets peer) nowMs perMinute).map fun (allows, bucket) =>
      (if allows then .admitted else .rateLimited,
        { l.setConn conn with rateBuckets := Function.update l.rateBuckets peer bucket })

/-! ## 2. Storing a chunk -/

/-- `quota_mb.max(1) * 1024 * 1024`. -/
def quotaIn (b : Build) (settings : StorageSettings) : Option Int64 :=
  b.scale (max settings.quotaMb 1) [1024, 1024]

/-- `current_millis() + retention_days.max(1) * 24 * 60 * 60 * 1000`. -/
def expiryIn (b : Build) (settings : StorageSettings) (nowMs : Int64) : Option Int64 :=
  (b.scale (max settings.retentionDays 1) [24, 60, 60, 1000]).bind (b.add nowMs)

/-- The settings, if the chunk has the hash it claims and the quota has room for it. -/
def roomForIn (b : Build) (hashOf : Bytes → String) (f : ChunkFaults) (store : ChunkStore)
    (chunk : Chunk) : Option (Option StorageSettings) :=
  if hashOf chunk.data ≠ chunk.contentHash then some none
  else
    match getStorageSettings f store with
    | .error _ => some none
    | .ok settings =>
      let current := (storedChunkBytes f store).toOption.getD 0
      (quotaIn b settings).bind fun quota =>
        (b.add current (Int64.ofNat chunk.data.length)).map fun size =>
          if size ≤ quota then some settings else none

/-- The middle of the arm `FileChunk`. -/
def storeChunkIn (b : Build) (hashOf : Bytes → String) (f : ChunkFaults) (os : FileSystem)
    (store : ChunkStore) (currentDbPath : Option String) (nowMs : Int64) (chunk : Chunk) :
    Option Stored :=
  match roomForIn b hashOf f store chunk with
  | none => none
  | some room =>
    match room, currentDbPath with
    | some settings, some dbPath =>
      let root := storageRootForDb dbPath
      let made := if os.createDirAll root then some root else none
      let chunkPath := Lib.Paths.join root (chunkFile chunk.transferId chunk.index)
      match os.write chunkPath with
      | .refused _ => some { store, made, written := none, success := false }
      | .broken left _ => some { store, made, written := some (chunkPath, left), success := false }
      | .written =>
        (expiryIn b settings nowMs).map fun expiresAt =>
          let (result, store) := saveStoredChunk f store chunk.contentHash chunk.transferId
            chunk.index chunkPath (Int64.ofNat chunk.data.length) (some expiresAt)
          { store, made, written := some (chunkPath, chunk.data), success := result.toBool }
    | _, _ => some { store, made := none, written := none, success := false }

/-- What the arms meet besides the event loop: the clock, the draws, the tables of the chunk store
    and the disk. -/
structure Surroundings (Key : Type) where
  nowMs : Int64
  drawn : Key
  newSecret : Key
  faults : ChunkFaults
  os : FileSystem
  store : ChunkStore
  currentDbPath : Option String

/-- `FileChunk`. -/
def fileChunkIn (b : Build) (hashOf : Bytes → String) (f : Faults) (l : EventLoop Key)
    (s : Surroundings Key) (peer : String) (chunk : Chunk) : Handled Key :=
  let (allowed, conn) := trustCheck f l.node.conn peer "min_trust_file"
  if allowed = false then
    .returns (l.setConn conn, [.sendResponse (.fileChunkAck chunk.transferId chunk.index false)])
  else
    match storeChunkIn b hashOf s.faults s.os s.store s.currentDbPath s.nowMs chunk with
    | none => .panic []
    | some stored => .returns (l.setConn conn,
        [.emit "file-chunk-received"
            [chunk.transferId, toString chunk.index, toString chunk.data.length],
          .sendResponse (.fileChunkAck chunk.transferId chunk.index stored.success)])

/-! ## 3. Messages -/

/-- A stranger without a proof of work that is valid. -/
def Unproven (W : NetWire Key) (f : Faults) (l : EventLoop Key) (nowMs : Int64) (peer : String)
    (powToken : Option PoWToken) : Prop :=
  (((getFriends f l.node.conn).toOption.getD []).any fun r => decide (r.1 = peer)) = false ∧
    (powToken.map fun t => W.verifyPow t l.node.myPeerId nowMs).getD false = false

instance (W : NetWire Key) (f : Faults) (l : EventLoop Key) (nowMs : Int64) (peer : String)
    (powToken : Option PoWToken) : Decidable (Unproven W f l nowMs peer powToken) :=
  inferInstanceAs (Decidable (_ ∧ _))

/-- `PrivateMessage`: `record_failure` adds to the count before anything is sent. -/
def privateMessageIn (b : Build) (W : NetWire Key) (f : Faults) (l : EventLoop Key) (nowMs : Int64)
    (peer text senderNick : String) (timestamp : Int64) (ttl : Option Int64)
    (powToken : Option PoWToken) : Handled Key :=
  if Unproven W f l nowMs peer powToken ∧
      b.unsigned 32 ((l.powFailures peer).toNat + 1) = none then .panic []
  else .returns (privateMessage W f l nowMs peer text senderNick timestamp ttl powToken)

/-- The state and the envelope that `ratchet_decrypt` is called with. -/
def legacyCall (P : Primitives Key) (W : NetWire Key) (f : Faults) (n : Node Key) (peerId : String)
    (envelope : Bytes) : Option (RatchetState Key × RatchetEnvelope Key) :=
  let friends := (getFriends f n.conn).toOption.getD []
  match friends.find? fun r => decide (r.1 = peerId) && !r.2.blocked with
  | none => none
  | some (_, friend) =>
    match friend.offlinePubkey.bind W.x25519Hex.dec with
    | none => none
    | some pk =>
      (W.ratchetEnvelope.dec envelope).map fun envelope =>
        (loadOrInitRatchetState P W f n.conn peerId n.myPeerId n.offlineSecretBytes pk, envelope)

/-- A legacy envelope in the name of a peer, read and saved; within, `none` where that fails. -/
def ratchetMessageIn (b : Build) (P : Primitives Key) (W : NetWire Key) (f : Faults) (n : Node Key)
    (peerId : String) (envelope : Bytes) (senderNick : String) (timestamp : Int64)
    (ttl : Option Int64) : Option (Option (Database × NetEffect Key)) :=
  match legacyCall P W f n peerId envelope with
  | none => some none
  | some (state, envelope) =>
    match ratchetDecrypt b P W.deriveKey state envelope with
    | none => none
    | some (.error _, _) => some none
    | some (.ok plaintext, state) =>
      match Codec.utf8.dec plaintext with
      | none => some none
      | some text =>
        let conn := (savePrivateMessage f n.conn peerId false text timestamp ttl).2
        some (some ((saveRatchetState f conn peerId (W.ratchetState.enc state)).2,
          .newPrivateMessage peerId senderNick text timestamp ttl))

/-- `RatchetPrivateMessage`. -/
def ratchetPrivateMessageIn (b : Build) (P : Primitives Key) (W : NetWire Key) (f : Faults)
    (l : EventLoop Key) (peer : String) (envelope : Bytes) (senderNick : String) (timestamp : Int64)
    (ttl : Option Int64) : Handled Key :=
  match ratchetMessageIn b P W f l.node peer envelope senderNick timestamp ttl with
  | none => .panic []
  | some none => .returns (l.setConn l.node.conn, [.sendResponse (.ratchetPrivateMessageAck false)])
  | some (some (conn, message)) =>
    .returns (l.setConn conn, [message, .sendResponse (.ratchetPrivateMessageAck true)])

/-- "It's for us!" -/
def onionPayloadIn (b : Build) (P : Primitives Key) (W : NetWire Key) (f : Faults) (n : Node Key)
    (payload : Bytes) : Option (Database × List (NetEffect Key)) :=
  match (sealedLayout W.key).decode payload with
  | none => some (n.conn, [])
  | some sealedMsg =>
    match sealedReceive P W.key n.offlineSecretBytes sealedMsg with
    | .error _ => some (n.conn, [])
    | .ok (_, senderPeerId, innerBytes) =>
      match (requestLayout W.key).decode innerBytes with
      | some (.ratchetPrivateMessage envelope senderNick timestamp ttl) =>
        (ratchetMessageIn b P W f n senderPeerId envelope senderNick timestamp ttl).map fun
          | none => (n.conn, [])
          | some (conn, message) => (conn, [message])
      | _ => some (n.conn, [])

/-- `OnionForward`: what is in an onion for us is read after the response. -/
def onionForwardIn (b : Build) (P : Primitives Key) (W : NetWire Key) (f : Faults)
    (l : EventLoop Key) (peer : String) (packet : Bytes) : Handled Key :=
  let acked : List (NetEffect Key) :=
    [.emit "onion-packet-received" [peer, toString packet.length], .sendResponse (.onionAck true)]
  match (packetLayout W.key).decode packet with
  | none => .returns (l.setConn l.node.conn, acked)
  | some onionPacket =>
    match peelOnion P W.key l.node.offlineSecretBytes onionPacket with
    | .error _ => .returns (l.setConn l.node.conn, acked ++ [.emit "onion-peel-failed" [peer]])
    | .ok layer =>
      match layer.nextHop, layer.innerPacket, layer.payload with
      | some nextHop, some inner, _ =>
        match W.parsePeerId nextHop with
        | none => .returns (l.setConn l.node.conn, acked)
        | some nextPeer =>
          .returns (l.setConn l.node.conn, acked ++ [.emit "onion-forwarding" [peer, nextHop],
            .sendRequest nextPeer (.onionForward ((packetLayout W.key).bytes inner))])
      | some _, none, _ => .returns (l.setConn l.node.conn, acked)
      | none, _, some payload =>
        match onionPayloadIn b P W f l.node payload with
        | none => .panic acked
        | some (conn, effects) => .returns (l.setConn conn, acked ++ effects)
      | none, _, none => .returns (l.setConn l.node.conn, acked)

section

variable [DecidableEq Key] [Zero Key]

/-- The state and the envelope that `decrypt` is called with. -/
def drCall (P : Primitives Key) (C : DmWire Key) (f : Faults) (n : Node Key) (peerId : String)
    (drEnvelope : Bytes) (drawn : Key) : Option (DrState Key × DrEnvelope Key) :=
  let friends := (getFriends f n.conn).toOption.getD []
  match friends.find? fun r => decide (r.1 = peerId) && !r.2.blocked with
  | none => none
  | some (_, friend) =>
    match friend.offlinePubkey.bind C.x25519Hex.dec with
    | none => none
    | some pk =>
      (C.envelopeBytes.dec drEnvelope).map fun envelope =>
        (loadOrInitDrState P C f n.conn peerId n.offlineSecretBytes pk
          (decide (peerId < n.myPeerId))
          drawn, envelope)

/-- `X3dhDm`. -/
def x3dhDmIn (b : Build) (P : Primitives Key) (C : DmWire Key) (f : Faults) (l : EventLoop Key)
    (peerId : String) (req : DirectMessages.X3dhDm Key) (drawn newSecret : Key) : Handled Key :=
  let failed : Handled Key := .returns (l.setConn l.node.conn, [.sendResponse (.x3dhDmAck false)])
  match drCall P C f l.node peerId req.drEnvelope drawn with
  | none => failed
  | some (state, envelope) =>
    match decryptIn b P newSecret state envelope with
    | none => .panic []
    | some (.error _, _) => failed
    | some (.ok plaintext, state) =>
      match Codec.utf8.dec plaintext with
      | none => failed
      | some text =>
        let conn := (savePrivateMessage f l.node.conn peerId false text req.timestamp req.ttl).2
        .returns (l.setConn (saveDrState C f conn peerId state),
          [.newPrivateMessage peerId req.senderNick text req.timestamp req.ttl,
            .sendResponse (.x3dhDmAck true)])

/-! ## 4. The handler -/

/-- A request is handled, in a build. -/
def handle (b : Build) (P : Primitives Key) (W : NetWire Key) (hashOf : Bytes → String)
    (f : Stage → Faults) (l : EventLoop Key) (s : Surroundings Key) (peer : String)
    (req : P2pRequest Key) : Handled Key :=
  match requestGateIn b f l s.nowMs peer with
  | none => .panic []
  | some (.refused, l) => .returns (l, [.sendResponse (rejectionForRequest req)])
  | some (.rateLimited, l) =>
    .returns (l, [.emit "peer-rate-limited" [peer], .sendResponse (rejectionForRequest req)])
  | some (.admitted, l) =>
    match req with
    | .file filename data => .returns (Inbound.file (f .arm) l peer filename data)
    | .fileChunk transferId index _ contentHash data =>
      fileChunkIn b hashOf (f .arm) l s peer { transferId, index, contentHash, data }
    | .webRtcSignal signal =>
      .returns (l, [.emit "webrtc-signal" [peer, signal], .sendResponse (.webRtcAck true)])
    | .privateMessage text senderNick timestamp ttl powToken =>
      privateMessageIn b W (f .arm) l s.nowMs peer text senderNick timestamp ttl powToken
    | .ratchetPrivateMessage envelope senderNick timestamp ttl =>
      ratchetPrivateMessageIn b P W (f .arm) l peer envelope senderNick timestamp ttl
    | .x3dhDm _ drEnvelope senderDhPub senderNick timestamp ttl =>
      x3dhDmIn b P W.toDmWire (f .arm) l peer
        { drEnvelope, senderDhPub, senderNick, timestamp, ttl }
        s.drawn s.newSecret
    | .capabilityAnnouncement peerId _ _ _ _ capacityScore _ =>
      .returns (l, [.emit "peer-capability" [peerId, toString capacityScore],
        .sendResponse (.capabilityAck true)])
    | .onionForward packet => onionForwardIn b P W (f .arm) l peer packet
    | .pluginEvent pluginId eventJson =>
      .returns (l, [.emit "plugin-event" [pluginId, eventJson],
        .sendResponse (.pluginEventAck true)])
    | .powChallenge challengeId _ _ =>
      .returns (l, [.emit "pow-challenge" [challengeId], .sendResponse (.powAck true)])
    | .powSolution challengeId _ =>
      .returns (l, [.emit "pow-solution" [challengeId], .sendResponse (.powAck true)])

end

/-! ## 5. What does not overflow -/

/-- The rate limiter is asked about a peer: it is not blocked, as far as that is read, and may make
    contact. -/
def LimiterAsked (f : Stage → Faults) (l : EventLoop Key) (peer : String) : Prop :=
  (SettingsRead (f .gate) ∨ SettingsRead (f .contact) →
    (l.node.conn.settingsOf peer).blocked = false) ∧
    MayContact (f .contact) l.node.conn peer l.unknownPeerPolicy

/-- The ages that the rate limiter takes fit: of the old entries, and of the first that is not. -/
def AgesFit (nowMs : Int64) : List Int64 → Prop
  | [] => True
  | ts :: rest => Fits (nowMs.toInt - ts.toInt) ∧ (60000 < nowMs - ts → AgesFit nowMs rest)

/-- The rate that the limiter is asked with. -/
def ratePerMinute (f : Stage → Faults) (l : EventLoop Key) (peer : String) : Int64 :=
  if SettingsRead (f .gate) then (l.node.conn.settingsOf peer).rateLimitPerMinute
  else l.rateLimitPerMinute

/-- The request gets to its arm. -/
def Admitted (f : Stage → Faults) (l : EventLoop Key) (nowMs : Int64) (peer : String) : Prop :=
  LimiterAsked f l peer ∧
    (rateLimitAllows (l.rateBuckets peer) nowMs (ratePerMinute f l peer)).1 = true

/-- The chunk has the hash it claims and the storage settings are read. -/
def Claimed (hashOf : Bytes → String) (f : ChunkFaults) (chunk : Chunk) : Prop :=
  hashOf chunk.data = chunk.contentHash ∧ f .getStorageSettings = none

/-- There is room for the chunk, and its file is written whole. -/
def FileWritten (hashOf : Bytes → String) (s : Surroundings Key) (chunk : Chunk) : Prop :=
  (roomFor hashOf s.faults s.store chunk).isSome = true ∧
    ∃ dbPath, s.currentDbPath = some dbPath ∧
      s.os.write
        (Lib.Paths.join (storageRootForDb dbPath) (chunkFile chunk.transferId chunk.index)) =
        .written

/-- The quota in bytes, and the time that chunks are kept in milliseconds. -/
def quota (settings : StorageSettings) : Int := max settings.quotaMb.toInt 1 * 1024 * 1024

def retention (settings : StorageSettings) : Int :=
  max settings.retentionDays.toInt 1 * 24 * 60 * 60 * 1000

/-- The quota fits, and so do the bytes that are compared with it. -/
def RoomFits (s : Surroundings Key) (chunk : Chunk) : Prop :=
  Fits (quota s.store.settings) ∧
    Fits (((storedChunkBytes s.faults s.store).toOption.getD 0).toInt +
      (Int64.ofNat chunk.data.length).toInt)

def ExpiryFits (settings : StorageSettings) (nowMs : Int64) : Prop :=
  Fits (retention settings) ∧ Fits (nowMs.toInt + retention settings)

/-- What storing a chunk computes fits, as far as it gets. -/
structure StoreFits (hashOf : Bytes → String) (s : Surroundings Key) (chunk : Chunk) : Prop where
  room : Claimed hashOf s.faults chunk → RoomFits s chunk
  expiry : FileWritten hashOf s chunk → ExpiryFits s.store.settings s.nowMs

section

variable [DecidableEq Key] [Zero Key] (P : Primitives Key) (W : NetWire Key) (f : Faults)
  (l : EventLoop Key) (peer : String)

/-- The counter after a legacy envelope that opens. -/
def LegacyFits (n : Node Key) (envelope : Bytes) : Prop :=
  ∀ state parsed, legacyCall P W f n peer envelope = some (state, parsed) →
    Opens P W.deriveKey state parsed → parsed.counter + 1 < 2 ^ 64

/-- The counters of `decrypt`, where the key of the message has not been stored. -/
def DrFits (drEnvelope : Bytes) (drawn : Key) : Prop :=
  ∀ state envelope, drCall P W.toDmWire f l.node peer drEnvelope drawn = some (state, envelope) →
    state.skipped.find? (SkippedKey.isFor envelope.header) = none →
    CountersFit state envelope.header

/-- What the arm of a request computes before its response fits. -/
def ArmFits (hashOf : Bytes → String) (s : Surroundings Key) : P2pRequest Key → Prop
  | .fileChunk transferId index _ contentHash data =>
    (trustCheck f l.node.conn peer "min_trust_file").1 = true →
      StoreFits hashOf s { transferId, index, contentHash, data }
  | .privateMessage _ _ _ _ powToken =>
    Unproven W f l s.nowMs peer powToken → (l.powFailures peer).toNat + 1 < 2 ^ 32
  | .ratchetPrivateMessage envelope _ _ _ => LegacyFits P W f peer l.node envelope
  | .x3dhDm _ drEnvelope _ _ _ _ => DrFits P W f l peer drEnvelope s.drawn
  | _ => True

end

/-- **Nothing overflows on the way to the response.** -/
structure NoOverflow [DecidableEq Key] [Zero Key] (P : Primitives Key) (W : NetWire Key)
    (hashOf : Bytes → String) (f : Stage → Faults) (l : EventLoop Key) (s : Surroundings Key)
    (peer : String) (req : P2pRequest Key) : Prop where
  ages : LimiterAsked f l peer → AgesFit s.nowMs (l.rateBuckets peer)
  arm : Admitted f l s.nowMs peer → ArmFits P W (f .arm) l peer hashOf s req

/-! ## 6. The steps -/

section

variable {b : Build} {nowMs : Int64}

theorem expire_eq {bucket : List Int64} (h : b = .checked → AgesFit nowMs bucket) :
    expire b nowMs bucket = some (bucket.dropWhile fun ts => decide (60000 < nowMs - ts)) := by
  induction bucket with
  | nil => rfl
  | cons ts rest ih =>
    rw [expire, Build.sub_eq fun hb => (h hb).1, List.dropWhile_cons]
    by_cases hold : 60000 < nowMs - ts
    · simp only [hold, if_true, decide_true]
      exact ih fun hb => (h hb).2 hold
    · simp only [hold, if_false, decide_false, Bool.false_eq_true]

theorem expire_overflow {bucket : List Int64} (h : ¬ AgesFit nowMs bucket) :
    expire .checked nowMs bucket = none := by
  induction bucket with
  | nil => exact absurd trivial h
  | cons ts rest ih =>
    rw [expire]
    by_cases hage : Fits (nowMs.toInt - ts.toInt)
    · rw [Build.sub_eq fun _ => hage]
      by_cases hold : 60000 < nowMs - ts
      · simp only [hold, if_true]
        exact ih fun hrest => h ⟨hage, fun _ => hrest⟩
      · exact absurd ⟨hage, fun hyes => absurd hyes hold⟩ h
    · rw [Build.sub, Build.int64_overflow hage]

theorem rateLimitAllowsIn_eq {bucket : List Int64} (perMinute : Int64)
    (h : b = .checked → AgesFit nowMs bucket) :
    rateLimitAllowsIn b bucket nowMs perMinute = some (rateLimitAllows bucket nowMs perMinute) := by
  rw [rateLimitAllowsIn, expire_eq h]
  rfl

/-- What the gate does with what the limiter is asked. -/
theorem requestGate_asks (f : Stage → Faults) (l : EventLoop Key) (nowMs : Int64) (peer : String) :
    requestGate f l nowMs peer =
      match askLimiter f l peer with
      | (none, conn) => (.refused, l.setConn conn)
      | (some perMinute, conn) =>
        let (allows, bucket) := rateLimitAllows (l.rateBuckets peer) nowMs perMinute
        (if allows then .admitted else .rateLimited,
          { l.setConn conn with rateBuckets := Function.update l.rateBuckets peer bucket }) := by
  unfold requestGate askLimiter
  dsimp only
  split
  · rfl
  · split
    · rfl
    · rfl

/-- **Whom the limiter is asked about**, and with which rate. -/
theorem askLimiter_reads (f : Stage → Faults) (l : EventLoop Key) (peer : String) :
    (LimiterAsked f l peer ∧ (askLimiter f l peer).1 = some (ratePerMinute f l peer)) ∨
      (¬ LimiterAsked f l peer ∧ (askLimiter f l peer).1 = none) := by
  have hblocked := blocked_read (f .gate) l.node.conn peer
  have hsettings := getPeerSettings_settingsOf (f .gate) l.node.conn peer peer
  obtain ⟨table, hframe⟩ := getPeerSettings_frame (f .gate) l.node.conn peer
  have hcontact := peerCanContact_reads (f .contact) { l.node.conn with peerSettings := table } peer
    l.unknownPeerPolicy
  rw [hframe] at hsettings
  rw [hsettings] at hcontact
  have hrate := perMinute_read (f .gate) l.node.conn peer l.rateLimitPerMinute
  unfold askLimiter LimiterAsked ratePerMinute
  generalize getPeerSettings (f .gate) l.node.conn peer = q at hblocked hframe hrate
  obtain ⟨settings, conn⟩ := q
  obtain rfl : conn = _ := hframe
  simp only at hblocked hrate ⊢
  rw [hrate]
  by_cases hrefused : (settings.toOption.map fun s => s.blocked).getD false = true
  · obtain ⟨hread, hb⟩ := hblocked.mp hrefused
    refine .inr ⟨fun h => ?_, by rw [if_pos hrefused]⟩
    rw [h.1 (.inl hread)] at hb
    cases hb
  · have hopen : SettingsRead (f .gate) → (l.node.conn.settingsOf peer).blocked = false :=
      fun hread =>
      Bool.eq_false_iff.mpr fun hb => hrefused (hblocked.mpr ⟨hread, hb⟩)
    rw [if_neg hrefused]
    generalize peerCanContact (f .contact) { l.node.conn with peerSettings := table } peer
      l.unknownPeerPolicy = q at hcontact
    obtain ⟨contact, conn'⟩ := q
    have hcontact' : contact = true ↔
        (SettingsRead (f .contact) → (l.node.conn.settingsOf peer).blocked = false) ∧
          MayContact (f .contact) l.node.conn peer l.unknownPeerPolicy := hcontact
    cases contact with
    | false =>
      refine .inr ⟨fun h => ?_, rfl⟩
      cases hcontact'.mpr ⟨fun hread => h.1 (.inr hread), h.2⟩
    | true =>
      obtain ⟨hsecond, hmay⟩ := hcontact'.mp rfl
      exact .inl ⟨⟨fun h => h.elim hopen hsecond, hmay⟩, rfl⟩

theorem requestGateIn_eq {f : Stage → Faults} {l : EventLoop Key} {peer : String}
    (h : b = .checked → LimiterAsked f l peer → AgesFit nowMs (l.rateBuckets peer)) :
    requestGateIn b f l nowMs peer = some (requestGate f l nowMs peer) := by
  have hreads := askLimiter_reads f l peer
  rw [requestGate_asks]
  unfold requestGateIn
  rcases hask : askLimiter f l peer with ⟨_ | perMinute, conn⟩
  · rfl
  · obtain ⟨hasked, -⟩ | ⟨-, hnone⟩ := hreads
    · simp only [rateLimitAllowsIn_eq perMinute fun hb => h hb hasked, Option.map_some]
    · rw [hask] at hnone
      cases hnone

theorem requestGateIn_overflow {f : Stage → Faults} {l : EventLoop Key} {peer : String}
    (hasked : LimiterAsked f l peer) (h : ¬ AgesFit nowMs (l.rateBuckets peer)) :
    requestGateIn .checked f l nowMs peer = none := by
  obtain ⟨-, hsome⟩ | ⟨hno, -⟩ := askLimiter_reads f l peer
  · unfold requestGateIn
    rcases hask : askLimiter f l peer with ⟨_ | perMinute, conn⟩
    · rw [hask] at hsome
      cases hsome
    · simp only [rateLimitAllowsIn, expire_overflow h, Option.map_none]
  · exact absurd hasked hno

/-- **The request gets to its arm** where the gate admits it. -/
theorem requestGate_admitted (f : Stage → Faults) (l : EventLoop Key) (nowMs : Int64)
    (peer : String) : (requestGate f l nowMs peer).1 = .admitted ↔ Admitted f l nowMs peer := by
  have hreads := askLimiter_reads f l peer
  rw [requestGate_asks, Admitted]
  rcases hask : askLimiter f l peer with ⟨_ | perMinute, conn⟩
  · obtain ⟨-, hsome⟩ | ⟨hno, -⟩ := hreads
    · rw [hask] at hsome
      cases hsome
    · exact iff_of_false nofun fun h => hno h.1
  · obtain ⟨hasked, hsome⟩ | ⟨-, hnone⟩ := hreads
    · rw [hask] at hsome
      obtain rfl := Option.some.inj hsome
      rw [and_iff_right hasked]
      dsimp only
      cases (rateLimitAllows (l.rateBuckets peer) nowMs (ratePerMinute f l peer)).1 <;> simp
    · rw [hask] at hnone
      cases hnone

end

/-! The chunk store. -/

section

variable {b : Build} {hashOf : Bytes → String} {s : Surroundings Key} {chunk : Chunk}

theorem product_quota (settings : StorageSettings) :
    Build.product (max settings.quotaMb 1) [1024, 1024] = quota settings := by
  show (max settings.quotaMb 1).toInt * 1024 * 1024 = _
  rw [toInt_max_one, quota]

theorem product_retention (settings : StorageSettings) :
    Build.product (max settings.retentionDays 1) [24, 60, 60, 1000] = retention settings := by
  show (max settings.retentionDays 1).toInt * 24 * 60 * 60 * 1000 = _
  rw [toInt_max_one, retention]

theorem max_one_nonneg (n : Int64) : 0 ≤ (max n 1).toInt := by
  rw [toInt_max_one]
  omega

/-- The factors of the quota and of the retention. -/
theorem factors_pos : (∀ k ∈ ([1024, 1024] : List Int64), 0 < k.toInt) ∧
    ∀ k ∈ ([24, 60, 60, 1000] : List Int64), 0 < k.toInt := by
  simp only [List.forall_mem_cons, List.not_mem_nil, false_imp_iff, implies_true, and_true]
  decide

theorem quotaIn_eq {settings : StorageSettings} (h : b = .checked → Fits (quota settings)) :
    quotaIn b settings = some (max settings.quotaMb 1 * 1024 * 1024) :=
  Build.scale_eq (max_one_nonneg _) factors_pos.1 (by rwa [product_quota])

theorem quotaIn_overflow {settings : StorageSettings} (h : ¬ Fits (quota settings)) :
    quotaIn .checked settings = none :=
  Build.scale_overflow (max_one_nonneg _) factors_pos.1 (by rwa [product_quota])

theorem toInt_retention {settings : StorageSettings} (h : Fits (retention settings)) :
    (max settings.retentionDays 1 * 24 * 60 * 60 * 1000).toInt = retention settings := by
  have hproduct : ([24, 60, 60, 1000].foldl (· * ·) (max settings.retentionDays 1) : Int64).toInt =
      Build.product (max settings.retentionDays 1) [24, 60, 60, 1000] :=
    Build.toInt_foldl (max_one_nonneg _) factors_pos.2 (by rwa [product_retention])
  rw [product_retention] at hproduct
  exact hproduct

theorem expiryIn_eq {settings : StorageSettings} {nowMs : Int64}
    (h : b = .checked → ExpiryFits settings nowMs) :
    expiryIn b settings nowMs =
      some (nowMs + max settings.retentionDays 1 * 24 * 60 * 60 * 1000) := by
  have hscale : b.scale (max settings.retentionDays 1) [24, 60, 60, 1000] =
      some (max settings.retentionDays 1 * 24 * 60 * 60 * 1000) :=
    Build.scale_eq (max_one_nonneg _) factors_pos.2 fun hb => by
      rw [product_retention]
      exact (h hb).1
  rw [expiryIn, hscale, Option.bind_some]
  refine Build.add_eq fun hb => ?_
  rw [toInt_retention (h hb).1]
  exact (h hb).2

theorem expiryIn_overflow {settings : StorageSettings} {nowMs : Int64}
    (h : ¬ ExpiryFits settings nowMs) : expiryIn .checked settings nowMs = none := by
  unfold expiryIn
  by_cases hkept : Fits (retention settings)
  · have hsum : ¬ Fits (nowMs.toInt + retention settings) := fun hsum => h ⟨hkept, hsum⟩
    have hscale : Build.checked.scale (max settings.retentionDays 1) [24, 60, 60, 1000] =
        some (max settings.retentionDays 1 * 24 * 60 * 60 * 1000) :=
      Build.scale_eq (max_one_nonneg _) factors_pos.2 fun _ => by rwa [product_retention]
    rw [hscale, Option.bind_some, Build.add, toInt_retention hkept, Build.int64_overflow hsum]
  · rw [Build.scale_overflow (max_one_nonneg _) factors_pos.2 (by rwa [product_retention])]
    rfl

theorem roomForIn_eq (h : b = .checked → Claimed hashOf s.faults chunk → RoomFits s chunk) :
    roomForIn b hashOf s.faults s.store chunk = some (roomFor hashOf s.faults s.store chunk) := by
  unfold roomForIn roomFor
  by_cases hhash : hashOf chunk.data = chunk.contentHash
  · rw [if_neg (not_not_intro hhash), if_neg (not_not_intro hhash)]
    unfold getStorageSettings
    cases hread : s.faults .getStorageSettings with
    | some e => rfl
    | none =>
      have hfits : b = .checked → RoomFits s chunk := fun hb => h hb ⟨hhash, hread⟩
      simp only
      rw [quotaIn_eq fun hb => (hfits hb).1, Option.bind_some, Build.add_eq fun hb => (hfits hb).2]
      rfl
  · rw [if_pos hhash, if_pos hhash]

theorem roomForIn_overflow (hclaimed : Claimed hashOf s.faults chunk) (h : ¬ RoomFits s chunk) :
    roomForIn .checked hashOf s.faults s.store chunk = none := by
  unfold roomForIn getStorageSettings
  rw [if_neg (not_not_intro hclaimed.1), hclaimed.2]
  simp only
  by_cases hquota : Fits (quota s.store.settings)
  · rw [quotaIn_eq fun _ => hquota, Option.bind_some, Build.add,
      Build.int64_overflow fun hsize => h ⟨hquota, hsize⟩]
    rfl
  · rw [quotaIn_overflow hquota]
    rfl

/-- The settings that a chunk has room by are those that are stored. -/
theorem roomFor_settings {settings : StorageSettings}
    (h : roomFor hashOf s.faults s.store chunk = some settings) : settings = s.store.settings := by
  unfold roomFor getStorageSettings at h
  split at h
  · cases h
  · cases hread : s.faults .getStorageSettings with
    | some e =>
      rw [hread] at h
      cases h
    | none =>
      rw [hread] at h
      simp only at h
      split at h
      · cases h
        rfl
      · cases h

theorem storeChunkIn_eq (h : b = .checked → StoreFits hashOf s chunk) :
    storeChunkIn b hashOf s.faults s.os s.store s.currentDbPath s.nowMs chunk =
      some (storeChunk hashOf s.faults s.os s.store s.currentDbPath s.nowMs chunk) := by
  unfold storeChunkIn storeChunk
  rw [roomForIn_eq fun hb => (h hb).room]
  cases hroom : roomFor hashOf s.faults s.store chunk with
  | none => rfl
  | some settings =>
    cases hpath : s.currentDbPath with
    | none => rfl
    | some dbPath =>
      simp only
      cases hwrite : s.os.write
          (Lib.Paths.join (storageRootForDb dbPath) (chunkFile chunk.transferId chunk.index)) with
      | refused e => rfl
      | broken left e => rfl
      | written =>
        have hexpiry : b = .checked → ExpiryFits settings s.nowMs := fun hb => by
          rw [roomFor_settings hroom]
          exact (h hb).expiry ⟨Option.isSome_of_eq_some hroom, dbPath, hpath, hwrite⟩
        rw [expiryIn_eq hexpiry]
        rfl

/-- **Where something overflows**, storing the chunk does not come to an end. -/
theorem storeChunkIn_overflow (h : ¬ StoreFits hashOf s chunk) :
    storeChunkIn .checked hashOf s.faults s.os s.store s.currentDbPath s.nowMs chunk = none := by
  unfold storeChunkIn
  by_cases hroom : Claimed hashOf s.faults chunk → RoomFits s chunk
  · -- Then it is the expiry.
    obtain ⟨⟨hroomFor, dbPath, hpath, hwrite⟩, hover⟩ :=
      Classical.not_imp.mp fun hexpiry => h ⟨hroom, hexpiry⟩
    obtain ⟨settings, hsettings⟩ := Option.isSome_iff_exists.mp hroomFor
    rw [← roomFor_settings hsettings] at hover
    rw [roomForIn_eq fun _ => hroom, hsettings, hpath]
    simp only [hwrite, expiryIn_overflow hover, Option.map_none]
  · obtain ⟨hclaimed, hover⟩ := Classical.not_imp.mp hroom
    rw [roomForIn_overflow hclaimed hover]

end

/-! The arms. -/

section

variable {b : Build} {P : Primitives Key} {W : NetWire Key} {f : Faults} {l : EventLoop Key}
  {peer : String}

theorem fileChunkIn_eq {hashOf : Bytes → String} {s : Surroundings Key} {chunk : Chunk}
    (h : b = .checked → (trustCheck f l.node.conn peer "min_trust_file").1 = true →
      StoreFits hashOf s chunk) :
    fileChunkIn b hashOf f l s peer chunk =
      .returns (Inbound.fileChunk f l peer chunk.transferId chunk.index chunk.contentHash chunk.data
        hashOf (storeChunk hashOf s.faults s.os s.store s.currentDbPath s.nowMs
          chunk).success) := by
  rw [← fileChunk_inbound]
  unfold fileChunkIn Chunks.fileChunk
  cases hallowed : (trustCheck f l.node.conn peer "min_trust_file").1 with
  | false => simp only [hallowed, if_true]
  | true =>
    simp only [hallowed, Bool.true_eq_false, if_false]
    rw [storeChunkIn_eq fun hb => h hb hallowed]

theorem fileChunkIn_overflow {hashOf : Bytes → String} {s : Surroundings Key} {chunk : Chunk}
    (hallowed : (trustCheck f l.node.conn peer "min_trust_file").1 = true)
    (h : ¬ StoreFits hashOf s chunk) :
    fileChunkIn .checked hashOf f l s peer chunk = .panic [] := by
  unfold fileChunkIn
  simp only [hallowed, Bool.true_eq_false, if_false]
  rw [storeChunkIn_overflow h]

theorem privateMessageIn_eq {nowMs : Int64} {text senderNick : String} {timestamp : Int64}
    {ttl : Option Int64} {powToken : Option PoWToken}
    (h : b = .checked → Unproven W f l nowMs peer powToken →
      (l.powFailures peer).toNat + 1 < 2 ^ 32) :
    privateMessageIn b W f l nowMs peer text senderNick timestamp ttl powToken =
      .returns (privateMessage W f l nowMs peer text senderNick timestamp ttl powToken) := by
  refine if_neg fun hpanic => ?_
  have hcount : (b.unsigned 32 ((l.powFailures peer).toNat + 1)).isSome = true :=
    b.unsigned_isSome.mpr fun hb => h hb hpanic.1
  rw [hpanic.2] at hcount
  cases hcount

theorem privateMessageIn_overflow {nowMs : Int64} {text senderNick : String} {timestamp : Int64}
    {ttl : Option Int64} {powToken : Option PoWToken}
    (hunproven : Unproven W f l nowMs peer powToken) (h : 2 ^ 32 ≤ (l.powFailures peer).toNat + 1) :
    privateMessageIn .checked W f l nowMs peer text senderNick timestamp ttl powToken = .panic [] :=
  if_pos ⟨hunproven, Build.unsigned_overflow h⟩

/-- `ratchetMessage`, after its reads. -/
theorem ratchetMessage_call (n : Node Key) (peerId : String) (envelope : Bytes)
    (senderNick : String) (timestamp : Int64) (ttl : Option Int64) :
    ratchetMessage P W f n peerId envelope senderNick timestamp ttl =
      match legacyCall P W f n peerId envelope with
      | none => none
      | some (state, envelope) =>
        match ratchetDecrypt .wrapping P W.deriveKey state envelope with
        | some (.ok plaintext, state) =>
          match Codec.utf8.dec plaintext with
          | none => none
          | some text =>
            let conn := (savePrivateMessage f n.conn peerId false text timestamp ttl).2
            some ((saveRatchetState f conn peerId (W.ratchetState.enc state)).2,
              .newPrivateMessage peerId senderNick text timestamp ttl)
        | _ => none := by
  unfold ratchetMessage legacyCall
  dsimp only
  cases ((getFriends f n.conn).toOption.getD []).find?
      (fun r => decide (r.1 = peerId) && !r.2.blocked) with
  | none => rfl
  | some r =>
    dsimp only
    cases r.2.offlinePubkey.bind W.x25519Hex.dec with
    | none => rfl
    | some pk =>
      dsimp only
      cases W.ratchetEnvelope.dec envelope with
      | none => rfl
      | some parsed => rfl

theorem ratchetMessageIn_eq {n : Node Key} {envelope : Bytes} {senderNick : String}
    {timestamp : Int64} {ttl : Option Int64} (h : b = .checked → LegacyFits P W f peer n envelope) :
    ratchetMessageIn b P W f n peer envelope senderNick timestamp ttl =
      some (ratchetMessage P W f n peer envelope senderNick timestamp ttl) := by
  rw [ratchetMessage_call]
  unfold ratchetMessageIn
  rcases hcall : legacyCall P W f n peer envelope with _ | ⟨state, parsed⟩
  · rfl
  · dsimp only
    rw [LegacyRatchet.ratchetDecrypt_eq fun hb => h hb state parsed hcall]
    obtain ⟨⟨result, state'⟩, hdec⟩ := Option.isSome_iff_exists.mp
      (LegacyRatchet.ratchetDecrypt_wrapping (P := P) (D := W.deriveKey) state parsed)
    rw [hdec]
    cases result with
    | error e => rfl
    | ok plaintext =>
      dsimp only
      cases Codec.utf8.dec plaintext with
      | none => rfl
      | some text => rfl

theorem ratchetMessageIn_overflow {n : Node Key} {envelope : Bytes} {senderNick : String}
    {timestamp : Int64} {ttl : Option Int64} (h : ¬ LegacyFits P W f peer n envelope) :
    ratchetMessageIn .checked P W f n peer envelope senderNick timestamp ttl = none := by
  obtain ⟨state, parsed, hcall, hopen, hover⟩ : ∃ state parsed,
      legacyCall P W f n peer envelope = some (state, parsed) ∧ Opens P W.deriveKey state parsed ∧
        2 ^ 64 ≤ parsed.counter + 1 := by
    unfold LegacyFits at h
    push Not at h
    exact h
  unfold ratchetMessageIn
  rw [hcall]
  simp only [LegacyRatchet.ratchetDecrypt_overflow hopen hover]

/-- A legacy envelope is read as without overflow checks, or they panic. -/
theorem ratchetMessageIn_cases (b : Build) (n : Node Key) (peerId : String) (envelope : Bytes)
    (senderNick : String) (timestamp : Int64) (ttl : Option Int64) :
    ratchetMessageIn b P W f n peerId envelope senderNick timestamp ttl =
        some (ratchetMessage P W f n peerId envelope senderNick timestamp ttl) ∨
      b = .checked ∧ ratchetMessageIn b P W f n peerId envelope senderNick timestamp ttl =
        none := by
  by_cases hfits : b = .checked → LegacyFits P W f peerId n envelope
  · exact .inl (ratchetMessageIn_eq hfits)
  · obtain ⟨rfl, hover⟩ := Classical.not_imp.mp hfits
    exact .inr ⟨rfl, ratchetMessageIn_overflow hover⟩

theorem ratchetPrivateMessageIn_eq {envelope : Bytes} {senderNick : String} {timestamp : Int64}
    {ttl : Option Int64} (h : b = .checked → LegacyFits P W f peer l.node envelope) :
    ratchetPrivateMessageIn b P W f l peer envelope senderNick timestamp ttl =
      .returns
        (l.setConn (ratchetPrivateMessage P W f l.node peer envelope senderNick timestamp ttl).1,
        (ratchetPrivateMessage P W f l.node peer envelope senderNick timestamp ttl).2) := by
  unfold ratchetPrivateMessageIn ratchetPrivateMessage
  rw [ratchetMessageIn_eq h]
  rcases ratchetMessage P W f l.node peer envelope senderNick timestamp ttl with _ | ⟨conn, message⟩
  · rfl
  · rfl

theorem ratchetPrivateMessageIn_overflow {envelope : Bytes} {senderNick : String}
    {timestamp : Int64} {ttl : Option Int64} (h : ¬ LegacyFits P W f peer l.node envelope) :
    ratchetPrivateMessageIn .checked P W f l peer envelope senderNick timestamp ttl =
      .panic [] := by
  unfold ratchetPrivateMessageIn
  rw [ratchetMessageIn_overflow h]

theorem onionPayloadIn_cases (b : Build) (n : Node Key) (payload : Bytes) :
    onionPayloadIn b P W f n payload = some (onionPayload P W f n payload) ∨
      b = .checked ∧ onionPayloadIn b P W f n payload = none := by
  unfold onionPayloadIn onionPayload
  cases (sealedLayout W.key).decode payload with
  | none => exact .inl rfl
  | some sealedMsg =>
    dsimp only
    cases sealedReceive P W.key n.offlineSecretBytes sealedMsg with
    | error e => exact .inl rfl
    | ok inner =>
      obtain ⟨-, senderPeerId, innerBytes⟩ := inner
      dsimp only
      cases (requestLayout W.key).decode innerBytes with
      | none => exact .inl rfl
      | some req =>
        cases req with
        | ratchetPrivateMessage envelope senderNick timestamp ttl =>
          dsimp only
          obtain hread | ⟨hb, hread⟩ :=
            ratchetMessageIn_cases b n senderPeerId envelope senderNick timestamp ttl
          · rw [hread]
            rcases ratchetMessage P W f n senderPeerId envelope senderNick timestamp ttl with
              _ | ⟨conn, message⟩
            · exact .inl rfl
            · exact .inl rfl
          · rw [hread]
            exact .inr ⟨hb, rfl⟩
        | _ => exact .inl rfl

/-- The arm is that of the handler, or it panics after its response. -/
theorem onionForwardIn_cases (b : Build) (packet : Bytes) :
    onionForwardIn b P W f l peer packet =
      .returns (l.setConn (onionForward P W f l.node peer packet).1,
        (onionForward P W f l.node peer packet).2) ∨
      b = .checked ∧ onionForwardIn b P W f l peer packet = .panic
        [.emit "onion-packet-received" [peer, toString packet.length],
          .sendResponse (.onionAck true)] := by
  unfold onionForwardIn onionForward
  dsimp only
  cases (packetLayout W.key).decode packet with
  | none => exact .inl rfl
  | some onionPacket =>
    dsimp only
    cases peelOnion P W.key l.node.offlineSecretBytes onionPacket with
    | error e => exact .inl rfl
    | ok layer =>
      obtain ⟨_ | nextHop, inner, payload⟩ := layer
      · cases payload with
        | none => exact .inl rfl
        | some payload =>
          dsimp only
          obtain hread | ⟨hb, hread⟩ := onionPayloadIn_cases b l.node payload
          · rw [hread]
            exact .inl rfl
          · rw [hread]
            exact .inr ⟨hb, rfl⟩
      · cases inner with
        | none => exact .inl rfl
        | some inner =>
          dsimp only
          cases W.parsePeerId nextHop with
          | none => exact .inl rfl
          | some nextPeer => exact .inl rfl

section

variable [DecidableEq Key] [Zero Key]

/-- `x3dhDm`, after its reads. -/
theorem x3dhDm_call (C : DmWire Key) (n : Node Key) (peerId : String)
    (req : DirectMessages.X3dhDm Key) (drawn newSecret : Key) :
    DirectMessages.x3dhDm P C f n peerId req drawn newSecret =
      match drCall P C f n peerId req.drEnvelope drawn with
      | none => (n.conn, [.sendResponse false])
      | some (state, envelope) =>
        match decrypt P newSecret state envelope with
        | (.error _, _) => (n.conn, [.sendResponse false])
        | (.ok plaintext, state) =>
          match Codec.utf8.dec plaintext with
          | none => (n.conn, [.sendResponse false])
          | some text =>
            let conn := (savePrivateMessage f n.conn peerId false text req.timestamp req.ttl).2
            (saveDrState C f conn peerId state,
              [.newPrivateMessage peerId req.senderNick text req.timestamp req.ttl,
                .sendResponse true]) := by
  unfold DirectMessages.x3dhDm drCall
  dsimp only
  cases ((getFriends f n.conn).toOption.getD []).find?
      (fun r => decide (r.1 = peerId) && !r.2.blocked) with
  | none => rfl
  | some r =>
    dsimp only
    cases r.2.offlinePubkey.bind C.x25519Hex.dec with
    | none => rfl
    | some pk =>
      dsimp only
      cases C.envelopeBytes.dec req.drEnvelope with
      | none => rfl
      | some envelope => rfl

theorem x3dhDmIn_eq {req : DirectMessages.X3dhDm Key} {drawn : Key} (b : Build)
    (h : DrFits P W f l peer req.drEnvelope drawn) (newSecret : Key) :
    x3dhDmIn b P W.toDmWire f l peer req drawn newSecret =
      .returns (l.setConn (x3dhDm P W.toDmWire f l.node peer req drawn newSecret).1,
        (x3dhDm P W.toDmWire f l.node peer req drawn newSecret).2.map ofDmEffect) := by
  rw [x3dhDm_call]
  unfold x3dhDmIn
  dsimp only
  rcases hcall : drCall P W.toDmWire f l.node peer req.drEnvelope drawn with _ | ⟨state, envelope⟩
  · rfl
  · dsimp only
    rw [decryptIn_eq b (h state envelope hcall)]
    rcases decrypt P newSecret state envelope with ⟨e | plaintext, state'⟩
    · rfl
    · dsimp only
      cases Codec.utf8.dec plaintext with
      | none => rfl
      | some text => rfl

theorem x3dhDmIn_overflow {req : DirectMessages.X3dhDm Key} {drawn newSecret : Key}
    (h : ¬ DrFits P W f l peer req.drEnvelope drawn) :
    x3dhDmIn .checked P W.toDmWire f l peer req drawn newSecret = .panic [] := by
  obtain ⟨state, envelope, hcall, hnone, hover⟩ : ∃ state envelope,
      drCall P W.toDmWire f l.node peer req.drEnvelope drawn = some (state, envelope) ∧
        state.skipped.find? (SkippedKey.isFor envelope.header) = none ∧
        ¬ CountersFit state envelope.header := by
    unfold DrFits at h
    push Not at h
    exact h
  unfold x3dhDmIn
  simp only [hcall, decryptIn_overflow hnone hover]

/-- Without overflow checks the arm answers, whatever the counters are. -/
theorem x3dhDmIn_answers (req : DirectMessages.X3dhDm Key) (drawn newSecret : Key) :
    ∃ success, responses (x3dhDmIn .wrapping P W.toDmWire f l peer req drawn newSecret).effects =
      [.x3dhDmAck success] := by
  unfold x3dhDmIn
  dsimp only
  rcases drCall P W.toDmWire f l.node peer req.drEnvelope drawn with _ | ⟨state, envelope⟩
  · exact ⟨false, rfl⟩
  · dsimp only
    obtain ⟨⟨result, state'⟩, hdec⟩ := Option.isSome_iff_exists.mp
      (decryptIn_wrapping (P := P) (r := newSecret) (s := state) (e := envelope))
    rw [hdec]
    cases result with
    | error e => exact ⟨false, rfl⟩
    | ok plaintext =>
      dsimp only
      cases Codec.utf8.dec plaintext with
      | none => exact ⟨false, rfl⟩
      | some text => exact ⟨true, rfl⟩

end

end

/-! ## 7. What a handler does that returns -/

section

variable [DecidableEq Key] [Zero Key] {P : Primitives Key} {W : NetWire Key} {f : Stage → Faults}
  {l : EventLoop Key} {hashOf : Bytes → String} {s : Surroundings Key} {peer : String}

/-- The chunk of the request has been stored. -/
def chunkStored (hashOf : Bytes → String) (s : Surroundings Key) : P2pRequest Key → Bool
  | .fileChunk transferId index _ contentHash data =>
    (storeChunk hashOf s.faults s.os s.store s.currentDbPath s.nowMs
      { transferId, index, contentHash, data }).success
  | _ => false

/-- What surrounds a request, as `handleRequest` takes it. -/
def Surroundings.turn (hashOf : Bytes → String) (s : Surroundings Key) (req : P2pRequest Key) :
    Turn Key where
  nowMs := s.nowMs
  drawn := s.drawn
  newSecret := s.newSecret
  chunkStored := chunkStored hashOf s req

omit [DecidableEq Key] [Zero Key] in
theorem trustCheck_gate (g : Faults) (nowMs : Int64) (key : String) :
    (trustCheck g (requestGate f l nowMs peer).2.node.conn peer key).1 =
      (trustCheck g l.node.conn peer key).1 := by
  have hsettings := requestGate_settingsOf f l nowMs peer peer
  obtain ⟨table, buckets, hframe⟩ := requestGate_frame f l nowMs peer
  rw [hframe] at hsettings ⊢
  rw [Bool.eq_iff_iff, trustCheck_reads, trustCheck_reads, hsettings]
  exact Iff.rfl

omit [Zero Key] in
/-- The gate changes nothing that an arm computes with. -/
theorem armFits_gate (g : Faults) (nowMs : Int64) (req : P2pRequest Key) :
    ArmFits P W g (requestGate f l nowMs peer).2 peer hashOf s req ↔
      ArmFits P W g l peer hashOf s req := by
  have htrust :
      (trustCheck g (requestGate f l nowMs peer).2.node.conn peer "min_trust_file").1 = _ :=
    trustCheck_gate g nowMs "min_trust_file"
  obtain ⟨table, buckets, hframe⟩ := requestGate_frame f l nowMs peer
  cases req with
  | fileChunk transferId index total contentHash data =>
    unfold ArmFits
    rw [htrust]
  | _ =>
    rw [hframe]
    exact Iff.rfl

/-- The request is read with the double ratchet. -/
def ByDoubleRatchet : P2pRequest Key → Prop
  | .x3dhDm .. => True
  | _ => False

/-- What a panic in a build with overflow checks leaves of a packet: its response. -/
def acknowledged (peer : String) (packet : Bytes) : List (NetEffect Key) :=
  [.emit "onion-packet-received" [peer, toString packet.length], .sendResponse (.onionAck true)]

/-- **Where nothing overflows before the response**, the handler is `handleRequest`, or it panics
    after the response to an onion. Without overflow checks only the counters of `decrypt` can tell
    the difference. -/
theorem handle_cases (b : Build) {req : P2pRequest Key}
    (h : NoOverflow P W hashOf f l s peer req ∨ b = .wrapping ∧ ¬ ByDoubleRatchet req) :
    handle b P W hashOf f l s peer req =
        .returns (handleRequest P W hashOf f l (s.turn hashOf req) peer req) ∨
      ∃ packet, req = .onionForward packet ∧ b = .checked ∧
        handle b P W hashOf f l s peer req = .panic (acknowledged peer packet) := by
  have hages : b = .checked → LimiterAsked f l peer → AgesFit s.nowMs (l.rateBuckets peer) := by
    rintro rfl
    exact (h.resolve_right fun hw => nomatch hw.1).ages
  have hadmitted := requestGate_admitted f l s.nowMs peer
  have hgateFits : ArmFits P W (f .arm) (requestGate f l s.nowMs peer).2 peer hashOf s req ↔ _ :=
    armFits_gate (f .arm) s.nowMs req
  have hturn : (s.turn hashOf req).nowMs = s.nowMs := rfl
  unfold handle handleRequest
  rw [requestGateIn_eq hages, hturn]
  generalize requestGate f l s.nowMs peer = q at hadmitted hgateFits ⊢
  obtain ⟨verdict, l'⟩ := q
  cases verdict with
  | refused => exact .inl rfl
  | rateLimited => exact .inl rfl
  | admitted =>
    have hfits : NoOverflow P W hashOf f l s peer req → ArmFits P W (f .arm) l' peer hashOf s req :=
      fun hno => hgateFits.mpr (hno.arm (hadmitted.mp rfl))
    have hchecked : b = .checked → ArmFits P W (f .arm) l' peer hashOf s req := by
      rintro rfl
      exact hfits (h.resolve_right fun hw => nomatch hw.1)
    cases req with
    | fileChunk transferId index total contentHash data => exact .inl (fileChunkIn_eq hchecked)
    | privateMessage text senderNick timestamp ttl powToken =>
      exact .inl (privateMessageIn_eq hchecked)
    | ratchetPrivateMessage envelope senderNick timestamp ttl =>
      exact .inl (ratchetPrivateMessageIn_eq hchecked)
    | x3dhDm initMsg drEnvelope senderDhPub senderNick timestamp ttl =>
      have hno := h.resolve_right fun hw => hw.2 trivial
      have hdr : DrFits P W (f .arm) l' peer drEnvelope s.drawn := hfits hno
      refine .inl ?_
      exact x3dhDmIn_eq b hdr s.newSecret
    | onionForward packet =>
      have hcases : onionForwardIn b P W (f .arm) l' peer packet = _ ∨ _ :=
        onionForwardIn_cases b packet
      obtain hreturns | ⟨hb, hpanics⟩ := hcases
      · exact .inl hreturns
      · exact .inr ⟨packet, rfl, hb, hpanics⟩
    | _ => exact .inl rfl

/-- **Where something overflows before the response**, a build with overflow checks does nothing at
    all. -/
theorem handle_overflow {req : P2pRequest Key} (h : ¬ NoOverflow P W hashOf f l s peer req) :
    handle .checked P W hashOf f l s peer req = .panic [] := by
  unfold handle
  by_cases hages : LimiterAsked f l peer → AgesFit s.nowMs (l.rateBuckets peer)
  · obtain ⟨hadmitted, hover⟩ := Classical.not_imp.mp fun harm => h ⟨hages, harm⟩
    have hgate := (requestGate_admitted f l s.nowMs peer).mpr hadmitted
    have hgateFits : ArmFits P W (f .arm) (requestGate f l s.nowMs peer).2 peer hashOf s req ↔ _ :=
      armFits_gate (f .arm) s.nowMs req
    rw [requestGateIn_eq fun _ => hages]
    generalize requestGate f l s.nowMs peer = q at hgate hgateFits ⊢
    obtain ⟨verdict, l'⟩ := q
    obtain rfl : verdict = .admitted := hgate
    have hover' := mt hgateFits.mp hover
    cases req with
    | fileChunk transferId index total contentHash data =>
      obtain ⟨hallowed, hover'⟩ := Classical.not_imp.mp hover'
      exact fileChunkIn_overflow hallowed hover'
    | privateMessage text senderNick timestamp ttl powToken =>
      obtain ⟨hunproven, hover'⟩ := Classical.not_imp.mp hover'
      exact privateMessageIn_overflow hunproven (Nat.not_lt.mp hover')
    | ratchetPrivateMessage envelope senderNick timestamp ttl =>
      exact ratchetPrivateMessageIn_overflow hover'
    | x3dhDm initMsg drEnvelope senderDhPub senderNick timestamp ttl =>
      exact x3dhDmIn_overflow hover'
    | _ => exact absurd trivial hover'
  · obtain ⟨hasked, hover⟩ := Classical.not_imp.mp hages
    rw [requestGateIn_overflow hasked hover]

/-- **A handler that returns in a build with overflow checks** is `handleRequest`, in every
    build. -/
theorem handle_returns {req : P2pRequest Key}
    (h : (handle .checked P W hashOf f l s peer req).loop.isSome = true) (b : Build) :
    handle b P W hashOf f l s peer req =
      .returns (handleRequest P W hashOf f l (s.turn hashOf req) peer req) := by
  have hno : NoOverflow P W hashOf f l s peer req := by
    by_contra hover
    rw [handle_overflow hover] at h
    cases h
  cases b with
  | checked =>
    obtain hreturns | ⟨packet, -, -, hpanics⟩ := handle_cases .checked (.inl hno)
    · exact hreturns
    · rw [hpanics] at h
      cases h
  | wrapping =>
    obtain hreturns | ⟨packet, -, hb, -⟩ := handle_cases .wrapping (.inl hno)
    · exact hreturns
    · cases hb

/-! ## 8. Which requests are answered -/

/-- Without overflow checks, every one. -/
theorem handle_wrapping_answered (req : P2pRequest Key) :
    Answered (handle .wrapping P W hashOf f l s peer req).effects req := by
  by_cases hdr : ByDoubleRatchet req
  · cases req with
    | x3dhDm initMsg drEnvelope senderDhPub senderNick timestamp ttl =>
      unfold handle
      rw [requestGateIn_eq (b := .wrapping) nofun]
      rcases requestGate f l s.nowMs peer with ⟨_ | _ | _, l'⟩
      · exact ⟨_, rfl, trivial⟩
      · exact ⟨_, rfl, trivial⟩
      · obtain ⟨success, hresponse⟩ := x3dhDmIn_answers (P := P) (W := W) (f := f .arm) (l := l')
          { drEnvelope, senderDhPub, senderNick, timestamp, ttl } s.drawn s.newSecret
        exact ⟨_, hresponse, trivial⟩
    | _ => exact hdr.elim
  · obtain hreturns | ⟨packet, -, hb, -⟩ := handle_cases (P := P) (W := W) (f := f) (l := l)
      .wrapping (.inr ⟨rfl, hdr⟩)
    · rw [hreturns]
      exact handleRequest_answered ..
    · cases hb

end

/-- **Which requests are answered once and in kind**: with a connection, those on whose way to the
    response nothing overflows, or all if the build does not check; without one, all. -/
theorem answered_iff [DecidableEq Key] [Zero Key] (b : Build) (P : Primitives Key) (W : NetWire Key)
    (hashOf : Bytes → String) (f : Stage → Faults) (l : EventLoop Key) (s : Surroundings Key)
    (offlineSecretBytes : Key) (peer : String) (req : P2pRequest Key) :
    (Answered (handle b P W hashOf f l s peer req).effects req ↔
      (b = .checked → NoOverflow P W hashOf f l s peer req)) ∧
    Answered (handleUnconnected P W offlineSecretBytes peer req) req := by
  refine ⟨?_, handleUnconnected_answered P W offlineSecretBytes peer req⟩
  cases b with
  | wrapping => exact iff_of_true (handle_wrapping_answered req) nofun
  | checked =>
    constructor
    · intro hanswered _
      by_contra hover
      rw [handle_overflow hover] at hanswered
      obtain ⟨resp, hresponses, -⟩ := hanswered
      cases hresponses
    · intro hno
      obtain hreturns | ⟨packet, rfl, -, hpanics⟩ := handle_cases .checked (.inl (hno rfl))
      · rw [hreturns]
        exact handleRequest_answered ..
      · rw [hpanics]
        exact ⟨_, rfl, trivial⟩

/-! ## 9. A chunk that is not answered -/

/-- "b" knows "a", and has stored nothing. -/
def knowing : EventLoop Key32 :=
  loopOf (friendNode wire32.toDmWire "b" "a" (secretOf 2) (plain32.publicKey (secretOf 1)))

/-- The quota is the greatest there is; whoever enters it wants no limit. -/
def unlimited : Surroundings Key32 where
  nowMs := 0
  drawn := secretOf 8
  newSecret := secretOf 4
  faults _ := none
  os := .willing
  store :=
    { emptyStore with settings := { StorageSettings.default with quotaMb := Int64.maxValue } }
  currentDbPath := none

/-- A chunk of one byte, with its hash. -/
def smallChunk : P2pRequest Key32 := .fileChunk "t" 0 1 "" [0]

/-- **A friend's chunk, and a quota whose bytes overflow**: the handler panics before it answers. -/
theorem chunk_unanswered :
    ¬ Answered (handle .checked plain32 wire32 noHash allRead knowing unlimited "a"
      smallChunk).effects
      smallChunk := by
  obtain ⟨friend, hlookup, -⟩ := friendNode_friend wire32.toDmWire "b" "a" (secretOf 2)
    (plain32.publicKey (secretOf 1))
  have hgate : (requestGate allRead knowing 0 "a").1 = .admitted :=
    requestGate_admits rfl hlookup rfl 0
  have hadmitted := (requestGate_admitted allRead knowing 0 "a").mp hgate
  have hover : ¬ NoOverflow plain32 wire32 noHash allRead knowing unlimited "a" smallChunk := by
    intro h
    have hfits : StoreFits noHash unlimited ⟨"t", 0, "", [0]⟩ := h.arm hadmitted rfl
    exact absurd (hfits.room ⟨rfl, rfl⟩).1 (by decide)
  rw [handle_overflow hover]
  rintro ⟨resp, hresponses, -⟩
  cases hresponses

end AlterChat.Answers
