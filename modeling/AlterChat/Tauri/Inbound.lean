import AlterChat.Core.Onion
import AlterChat.Core.Requests
import AlterChat.Tauri.Commands
import AlterChat.Tauri.DirectMessages

/-!
# Requests from other peers

From `alterchat-ui/src-tauri/src/lib.rs`: the gate before the request handler (`peer_can_contact`,
`rate_limit_allows`) and the arms of the handler, with the connection of the session and its swarm
there. The clock, random draws and the outcome of storing a chunk are given by a `Turn`.

A request is decided on by reads in three places, and each can fail for itself: `Stage`. Arithmetic
wraps around here, as in a build without overflow checks; `AlterChat.Tauri.Answers` has the handler
of both builds, and that this is what it does wherever it returns.

* §1 formats, effects, the state of the event loop;
* §2 the gate, §3 trust checks, §4 the arms, §5 the handler;
* §6 `requestGate_frame` -- what the gate may change;
* §7 `requestGate_reads` -- whom it lets through, by which reads succeed.
-/

namespace AlterChat.Inbound

open Lib Db Crypto Onion Requests DirectMessages

variable {Key : Type}

/-! ## 1. Formats, effects, state -/

/-- The formats and functions that handling a request takes. -/
structure NetWire (Key : Type) extends DmWire Key where
  key : KeyLayout Key
  ratchetState : Codec (RatchetState Key) Bytes
  ratchetEnvelope : Codec (RatchetEnvelope Key) Bytes
  deriveKey : DeriveKey Key
  sha256 : Bytes → Bytes
  /-- `PeerId::from_str`, and the id as a text again. -/
  parsePeerId : String → Option String
  /-- `PoWToken::verify` for a resource at a time, with 16 bits and 300 seconds. -/
  verifyPow : PoWToken → String → Int64 → Bool

inductive P2pResponse where
  | fileAck (success : Bool) (message : String)
  | fileChunkAck (transferId : String) (index : UInt64) (success : Bool)
  | webRtcAck (success : Bool)
  | privateMessageAck (success : Bool)
  | ratchetPrivateMessageAck (success : Bool)
  | x3dhDmAck (success : Bool)
  | capabilityAck (success : Bool)
  | onionAck (success : Bool)
  | pluginEventAck (success : Bool)
  | powAck (success : Bool)
  deriving DecidableEq

/-- What handling a request hands to the network and to the frontend. -/
inductive NetEffect (Key : Type) where
  | sendRequest (peerId : String) (req : P2pRequest Key)
  | sendResponse (resp : P2pResponse)
  /-- An event with the parts of its payload. -/
  | emit (event : String) (payload : List String)
  | newPrivateMessage (peerId senderNick text : String) (timestamp : Int64) (ttl : Option Int64)
  /-- `kademlia.remove_peer`. -/
  | removePeer (peerId : String)
  deriving DecidableEq

/-- The request on the wire. -/
def x3dhDmRequest (req : X3dhDm Key) : P2pRequest Key :=
  .x3dhDm none req.drEnvelope req.senderDhPub req.senderNick req.timestamp req.ttl

/-- The effects of a direct message, on the wire. -/
def ofDmEffect : DmEffect Key → NetEffect Key
  | .sendRequest peerId req => .sendRequest peerId (x3dhDmRequest req)
  | .onionForward relay packet _ => .sendRequest relay (.onionForward packet)
  | .sendResponse success => .sendResponse (.x3dhDmAck success)
  | .emit event payload => .emit event [payload]
  | .newPrivateMessage peerId senderNick text timestamp ttl =>
    .newPrivateMessage peerId senderNick text timestamp ttl

/-- The part of the event loop's state that requests are handled with. -/
structure EventLoop (Key : Type) where
  node : Node Key
  unknownPeerPolicy : String
  rateLimitPerMinute : Int64
  rateBuckets : String → List Int64
  powFailures : String → UInt32

/-- The event loop after a write to its connection. -/
def EventLoop.setConn (l : EventLoop Key) (conn : Database) : EventLoop Key :=
  { l with node := { l.node with conn } }

@[simp] theorem EventLoop.setConn_conn (l : EventLoop Key) (conn : Database) :
    (l.setConn conn).node.conn = conn := rfl

/-- The clock, the draws and the disk while a request is handled. -/
structure Turn (Key : Type) where
  nowMs : Int64
  drawn : Key
  newSecret : Key
  /-- The chunk fits the quota and has been written. -/
  chunkStored : Bool

/-- Where the reads for a request stand. -/
inductive Stage where
  | gate
  | contact
  | arm
  deriving DecidableEq

/-- No read fails anywhere. -/
def allRead : Stage → Faults := fun _ => noFaults

/-! ## 2. The gate -/

/-- `peer_can_contact`. -/
def peerCanContact (f : Faults) (conn : Database) (peerId unknownPeerPolicy : String) :
    Bool × Database :=
  let (settings, conn) := getPeerSettings f conn peerId
  if (settings.toOption.map fun s => s.blocked).getD false = true then (false, conn)
  else
    let isKnown := ((getFriends f conn).toOption.map fun friends =>
      friends.any fun r => decide (r.1 = peerId)).getD false
    (if unknownPeerPolicy = "allow" then true else isKnown, conn)

/-- `rate_limit_allows`, on the bucket of the peer. -/
def rateLimitAllows (bucket : List Int64) (nowMs perMinute : Int64) : Bool × List Int64 :=
  let bucket := bucket.dropWhile fun ts => decide (60000 < nowMs - ts)
  if (max perMinute 1).toNatClampNeg ≤ bucket.length then (false, bucket)
  else (true, bucket ++ [nowMs])

inductive Verdict where
  | refused
  | rateLimited
  | admitted
  deriving DecidableEq

/-- The gate before the handler. -/
def requestGate (f : Stage → Faults) (l : EventLoop Key) (nowMs : Int64) (peer : String) :
    Verdict × EventLoop Key :=
  let (settings, conn) := getPeerSettings (f .gate) l.node.conn peer
  if (settings.toOption.map fun s => s.blocked).getD false = true then
    (.refused, l.setConn conn)
  else
    let (contact, conn) := peerCanContact (f .contact) conn peer l.unknownPeerPolicy
    if contact = false then (.refused, l.setConn conn)
    else
      let perMinute :=
        (settings.toOption.map fun s => s.rateLimitPerMinute).getD l.rateLimitPerMinute
      let (allows, bucket) := rateLimitAllows (l.rateBuckets peer) nowMs perMinute
      (if allows then .admitted else .rateLimited,
        { l.setConn conn with rateBuckets := Function.update l.rateBuckets peer bucket })

/-- `rejection_for_request`. -/
def rejectionForRequest : P2pRequest Key → P2pResponse
  | .file .. => .fileAck false "local policy rejected request"
  | .fileChunk transferId index .. => .fileChunkAck transferId index false
  | .webRtcSignal .. => .webRtcAck false
  | .privateMessage .. => .privateMessageAck false
  | .ratchetPrivateMessage .. => .ratchetPrivateMessageAck false
  | .x3dhDm .. => .x3dhDmAck false
  | .capabilityAnnouncement .. => .capabilityAck false
  | .onionForward .. => .onionAck false
  | .pluginEvent .. => .pluginEventAck false
  | .powChallenge .. => .powAck false
  | .powSolution .. => .powAck false

/-! ## 3. Trust checks -/

/-- A trust level from the settings; what cannot be read counts as 0. -/
def minTrust (f : Faults) (conn : Database) (key : String) : Int64 :=
  (((loadSetting f conn key).toOption.join).bind Commands.parseI64).getD 0

/-- The check of the arms `File`, `FileChunk` and `PrivateMessage`: who has no readable settings
    passes. -/
def trustCheck (f : Faults) (conn : Database) (peer key : String) : Bool × Database :=
  let (settings, conn) := getPeerSettings f conn peer
  match settings with
  | .error _ => (true, conn)
  | .ok s => (!(s.blocked || decide (s.trustLevel < minTrust f conn key)), conn)

/-! ## 4. The arms -/

/-- `File`. -/
def file (f : Faults) (l : EventLoop Key) (peer filename : String) (data : Bytes) :
    EventLoop Key × List (NetEffect Key) :=
  let (allowed, conn) := trustCheck f l.node.conn peer "min_trust_file"
  if allowed = false then
    (l.setConn conn, [.sendResponse (.fileAck false "Blocked by trust policy")])
  else
    (l.setConn conn, [.emit "file-received" [filename, toString data.length],
      .sendResponse (.fileAck true "File received")])

/-- `FileChunk`; the tables of the chunk store are left out. -/
def fileChunk (f : Faults) (l : EventLoop Key) (peer transferId : String) (index : UInt64)
    (contentHash : String) (data : Bytes) (hashOf : Bytes → String) (chunkStored : Bool) :
    EventLoop Key × List (NetEffect Key) :=
  let (allowed, conn) := trustCheck f l.node.conn peer "min_trust_file"
  if allowed = false then
    (l.setConn conn, [.sendResponse (.fileChunkAck transferId index false)])
  else
    let success := decide (hashOf data = contentHash) && chunkStored
    (l.setConn conn,
      [.emit "file-chunk-received" [transferId, toString index, toString data.length],
        .sendResponse (.fileChunkAck transferId index success)])

/-- `POW_BAN_THRESHOLD`. -/
def POW_BAN_THRESHOLD : UInt32 := 3

/-- `PrivateMessage`. -/
def privateMessage (W : NetWire Key) (f : Faults) (l : EventLoop Key) (nowMs : Int64)
    (peer text senderNick : String) (timestamp : Int64) (ttl : Option Int64)
    (powToken : Option PoWToken) : EventLoop Key × List (NetEffect Key) :=
  let friends := (getFriends f l.node.conn).toOption.getD []
  let isFriend := friends.any fun r => decide (r.1 = peer)
  let validPow := (powToken.map fun t => W.verifyPow t l.node.myPeerId nowMs).getD false
  if isFriend = false ∧ validPow = false then
    let count := l.powFailures peer + 1
    ({ l with powFailures := Function.update l.powFailures peer count },
      .emit "peer-blocked-pow" [peer] ::
        ((if POW_BAN_THRESHOLD ≤ count then
          [.removePeer peer, .emit "peer-network-banned" [peer]] else []) ++
        [.sendResponse (.privateMessageAck false)]))
  else
    let (allowed, conn) := trustCheck f l.node.conn peer "min_trust_dm"
    if allowed = false then
      (l.setConn conn, [.emit "private-message-blocked" [peer],
        .sendResponse (.privateMessageAck false)])
    else
      (l.setConn (savePrivateMessage f conn peer false text timestamp ttl).2,
        [.newPrivateMessage peer senderNick text timestamp ttl,
          .sendResponse (.privateMessageAck true)])

/-- `load_or_init_ratchet_state`. -/
def loadOrInitRatchetState (P : Primitives Key) (W : NetWire Key) (f : Faults) (conn : Database)
    (peerId myPeerId : String) (mySecret peerPubkey : Key) : RatchetState Key :=
  let fresh := RatchetState.forPeerPair W.deriveKey
    (deriveStaticSharedSecret P mySecret peerPubkey) myPeerId peerId
  match loadRatchetState f conn peerId with
  | .ok (some blob) => (W.ratchetState.dec blob).getD fresh
  | _ => fresh

/-- A legacy envelope in the name of a peer, read and saved; `none` where that fails. It is the body
    of the arm `RatchetPrivateMessage`, and again that of the delivery from an onion. -/
def ratchetMessage (P : Primitives Key) (W : NetWire Key) (f : Faults) (n : Node Key)
    (peerId : String) (envelope : Bytes) (senderNick : String) (timestamp : Int64)
    (ttl : Option Int64) : Option (Database × NetEffect Key) :=
  let friends := (getFriends f n.conn).toOption.getD []
  match friends.find? fun r => decide (r.1 = peerId) && !r.2.blocked with
  | none => none
  | some (_, friend) =>
    match friend.offlinePubkey.bind W.x25519Hex.dec with
    | none => none
    | some pk =>
      match W.ratchetEnvelope.dec envelope with
      | none => none
      | some envelope =>
        let state := loadOrInitRatchetState P W f n.conn peerId n.myPeerId n.offlineSecretBytes pk
        match ratchetDecrypt .wrapping P W.deriveKey state envelope with
        | some (.ok plaintext, state) =>
          match Codec.utf8.dec plaintext with
          | none => none
          | some text =>
            let conn := (savePrivateMessage f n.conn peerId false text timestamp ttl).2
            some ((saveRatchetState f conn peerId (W.ratchetState.enc state)).2,
              .newPrivateMessage peerId senderNick text timestamp ttl)
        | _ => none

/-- **What it takes that a legacy envelope is read**, and what is then saved. -/
theorem ratchetMessage_some {P : Primitives Key} {W : NetWire Key} {f : Faults} {n : Node Key}
    {peerId senderNick : String} {envelope : Bytes} {timestamp : Int64} {ttl : Option Int64}
    {conn : Database} {e : NetEffect Key}
    (h : ratchetMessage P W f n peerId envelope senderNick timestamp ttl = some (conn, e)) :
    ∃ r pk parsed plaintext state text,
      ((getFriends f n.conn).toOption.getD []).find?
        (fun r => decide (r.1 = peerId) && !r.2.blocked) = some r ∧
      r.2.offlinePubkey.bind W.x25519Hex.dec = some pk ∧
      W.ratchetEnvelope.dec envelope = some parsed ∧
      ratchetDecrypt .wrapping P W.deriveKey (loadOrInitRatchetState P W f n.conn peerId n.myPeerId
        n.offlineSecretBytes pk) parsed = some (.ok plaintext, state) ∧
      Codec.utf8.dec plaintext = some text ∧
      conn = (saveRatchetState f (savePrivateMessage f n.conn peerId false text timestamp ttl).2
        peerId (W.ratchetState.enc state)).2 ∧
      e = .newPrivateMessage peerId senderNick text timestamp ttl := by
  unfold ratchetMessage at h
  dsimp only at h
  split at h
  · cases h
  · next id friend hfind =>
    split at h
    · cases h
    · next pk hpk =>
      split at h
      · cases h
      · next parsed henv =>
        split at h
        · next plaintext state hdec =>
          split at h
          · cases h
          · next text htext =>
            cases h
            exact ⟨(id, friend), pk, parsed, plaintext, state, text, hfind, hpk, henv, hdec, htext,
              rfl, rfl⟩
        · cases h

/-- `RatchetPrivateMessage`. -/
def ratchetPrivateMessage (P : Primitives Key) (W : NetWire Key) (f : Faults) (n : Node Key)
    (peer : String) (envelope : Bytes) (senderNick : String) (timestamp : Int64)
    (ttl : Option Int64) : Database × List (NetEffect Key) :=
  match ratchetMessage P W f n peer envelope senderNick timestamp ttl with
  | none => (n.conn, [.sendResponse (.ratchetPrivateMessageAck false)])
  | some (conn, message) => (conn, [message, .sendResponse (.ratchetPrivateMessageAck true)])

/-- "It's for us!": the payload of an onion is a sealed message with a request in it, and of the
    requests only `RatchetPrivateMessage` is read. The sender is who the sealed message says. -/
def onionPayload (P : Primitives Key) (W : NetWire Key) (f : Faults) (n : Node Key)
    (payload : Bytes) : Database × List (NetEffect Key) :=
  match (sealedLayout W.key).decode payload with
  | none => (n.conn, [])
  | some sealedMsg =>
    match sealedReceive P W.key n.offlineSecretBytes sealedMsg with
    | .error _ => (n.conn, [])
    | .ok (_, senderPeerId, innerBytes) =>
      match (requestLayout W.key).decode innerBytes with
      | some (.ratchetPrivateMessage envelope senderNick timestamp ttl) =>
        match ratchetMessage P W f n senderPeerId envelope senderNick timestamp ttl with
        | none => (n.conn, [])
        | some (conn, message) => (conn, [message])
      | _ => (n.conn, [])

/-- `OnionForward`: it is acknowledged before it is looked at. -/
def onionForward (P : Primitives Key) (W : NetWire Key) (f : Faults) (n : Node Key) (peer : String)
    (packet : Bytes) : Database × List (NetEffect Key) :=
  let acked : List (NetEffect Key) :=
    [.emit "onion-packet-received" [peer, toString packet.length], .sendResponse (.onionAck true)]
  match (packetLayout W.key).decode packet with
  | none => (n.conn, acked)
  | some onionPacket =>
    match peelOnion P W.key n.offlineSecretBytes onionPacket with
    | .error _ => (n.conn, acked ++ [.emit "onion-peel-failed" [peer]])
    | .ok layer =>
      match layer.nextHop, layer.innerPacket, layer.payload with
      | some nextHop, some inner, _ =>
        match W.parsePeerId nextHop with
        | none => (n.conn, acked)
        | some nextPeer =>
          (n.conn, acked ++ [.emit "onion-forwarding" [peer, nextHop],
            .sendRequest nextPeer (.onionForward ((packetLayout W.key).bytes inner))])
      | some _, none, _ => (n.conn, acked)
      | none, _, some payload =>
        let (conn, effects) := onionPayload P W f n payload
        (conn, acked ++ effects)
      | none, _, none => (n.conn, acked)

/-! ## 5. The handler -/

/-- A request is handled; `hashOf` is `storage::content_hash`. What `CapabilityAnnouncement` saves
    is left out: nothing here reads it. -/
def handleRequest [DecidableEq Key] [Zero Key] (P : Primitives Key) (W : NetWire Key)
    (hashOf : Bytes → String) (f : Stage → Faults) (l : EventLoop Key) (t : Turn Key)
    (peer : String) (req : P2pRequest Key) : EventLoop Key × List (NetEffect Key) :=
  match requestGate f l t.nowMs peer with
  | (.refused, l) => (l, [.sendResponse (rejectionForRequest req)])
  | (.rateLimited, l) =>
    (l, [.emit "peer-rate-limited" [peer], .sendResponse (rejectionForRequest req)])
  | (.admitted, l) =>
    match req with
    | .file filename data => file (f .arm) l peer filename data
    | .fileChunk transferId index _ contentHash data =>
      fileChunk (f .arm) l peer transferId index contentHash data hashOf t.chunkStored
    | .webRtcSignal signal =>
      (l, [.emit "webrtc-signal" [peer, signal], .sendResponse (.webRtcAck true)])
    | .privateMessage text senderNick timestamp ttl powToken =>
      privateMessage W (f .arm) l t.nowMs peer text senderNick timestamp ttl powToken
    | .ratchetPrivateMessage envelope senderNick timestamp ttl =>
      let (conn, effects) :=
        ratchetPrivateMessage P W (f .arm) l.node peer envelope senderNick timestamp ttl
      (l.setConn conn, effects)
    | .x3dhDm _ drEnvelope senderDhPub senderNick timestamp ttl =>
      let (conn, effects) := x3dhDm P W.toDmWire (f .arm) l.node peer
        { drEnvelope, senderDhPub, senderNick, timestamp, ttl } t.drawn t.newSecret
      (l.setConn conn, effects.map ofDmEffect)
    | .capabilityAnnouncement peerId _ _ _ _ capacityScore _ =>
      (l, [.emit "peer-capability" [peerId, toString capacityScore],
        .sendResponse (.capabilityAck true)])
    | .onionForward packet =>
      let (conn, effects) := onionForward P W (f .arm) l.node peer packet
      (l.setConn conn, effects)
    | .pluginEvent pluginId eventJson =>
      (l, [.emit "plugin-event" [pluginId, eventJson], .sendResponse (.pluginEventAck true)])
    | .powChallenge challengeId _ _ =>
      (l, [.emit "pow-challenge" [challengeId], .sendResponse (.powAck true)])
    | .powSolution challengeId _ =>
      (l, [.emit "pow-solution" [challengeId], .sendResponse (.powAck true)])

/-! ## 6. What the gate may change -/

theorem peerCanContact_frame (f : Faults) (conn : Database) (peerId policy : String) :
    ∃ table, (peerCanContact f conn peerId policy).2 = { conn with peerSettings := table } := by
  obtain ⟨table, h⟩ := getPeerSettings_frame f conn peerId
  refine ⟨table, ?_⟩
  unfold peerCanContact
  simp only
  split
  · exact h
  · exact h

theorem trustCheck_frame (f : Faults) (conn : Database) (peer key : String) :
    ∃ table, (trustCheck f conn peer key).2 = { conn with peerSettings := table } := by
  obtain ⟨table, h⟩ := getPeerSettings_frame f conn peer
  refine ⟨table, ?_⟩
  unfold trustCheck
  generalize getPeerSettings f conn peer = q at h
  obtain ⟨settings, conn'⟩ := q
  cases settings with
  | error e => exact h
  | ok s => exact h

/-- A file is not kept: the arm leaves the connection as its trust check does. -/
theorem file_state (f : Faults) (l : EventLoop Key) (peer filename : String) (data : Bytes) :
    (file f l peer filename data).1 =
      l.setConn (trustCheck f l.node.conn peer "min_trust_file").2 := by
  unfold file
  dsimp only
  split <;> rfl

theorem fileChunk_state (f : Faults) (l : EventLoop Key) (peer transferId : String) (index : UInt64)
    (contentHash : String) (data : Bytes) (hashOf : Bytes → String) (chunkStored : Bool) :
    (fileChunk f l peer transferId index contentHash data hashOf chunkStored).1 =
      l.setConn (trustCheck f l.node.conn peer "min_trust_file").2 := by
  unfold fileChunk
  dsimp only
  split <;> rfl

/-- **The gate writes `peer_settings` and the bucket of the peer, and nothing else.** -/
theorem requestGate_frame (f : Stage → Faults) (l : EventLoop Key) (nowMs : Int64) (peer : String) :
    ∃ table buckets, (requestGate f l nowMs peer).2 =
      { l.setConn { l.node.conn with peerSettings := table } with rateBuckets := buckets } := by
  obtain ⟨table, h⟩ := getPeerSettings_frame (f .gate) l.node.conn peer
  unfold requestGate
  generalize getPeerSettings (f .gate) l.node.conn peer = q at h
  obtain ⟨settings, conn⟩ := q
  obtain rfl : conn = _ := h
  simp only
  split
  · exact ⟨table, l.rateBuckets, rfl⟩
  · obtain ⟨table', h'⟩ := peerCanContact_frame (f .contact)
      { l.node.conn with peerSettings := table } peer l.unknownPeerPolicy
    rw [h']
    split
    · exact ⟨table', l.rateBuckets, rfl⟩
    · exact ⟨table', _, rfl⟩

/-- The gate leaves everyone's settings as they are. -/
theorem requestGate_settingsOf (f : Stage → Faults) (l : EventLoop Key) (nowMs : Int64)
    (peer id : String) :
    (requestGate f l nowMs peer).2.node.conn.settingsOf id = l.node.conn.settingsOf id := by
  have hread := getPeerSettings_settingsOf (f .gate) l.node.conn peer id
  unfold requestGate
  generalize getPeerSettings (f .gate) l.node.conn peer = q at hread
  obtain ⟨settings, conn⟩ := q
  simp only at hread ⊢
  have hcontact : (peerCanContact (f .contact) conn peer l.unknownPeerPolicy).2.settingsOf id =
      l.node.conn.settingsOf id := by
    rw [← hread, ← getPeerSettings_settingsOf (f .contact) conn peer id]
    unfold peerCanContact
    simp only
    split <;> rfl
  split
  · exact hread
  · split
    · exact hcontact
    · exact hcontact

/-- The peer is among the friends that are read. -/
theorem getFriends_known (f : Faults) (conn : Database) (peer : String) :
    ((getFriends f conn).toOption.map fun friends =>
      friends.any fun r => decide (r.1 = peer)).getD false =
        (decide (f .getFriends = none) && (conn.friends.lookup peer).isSome) := by
  unfold getFriends query
  cases f .getFriends with
  | some e => rfl
  | none =>
    have hfind := conn.friends.find?_rows peer fun _ => true
    simp only [Bool.and_true] at hfind
    simp only [Except.toOption, Option.map_some, Option.getD_some, decide_true, Bool.true_and]
    rw [← List.isSome_find?, hfind]
    cases conn.friends.lookup peer <;> rfl

/-! ## 7. Who is let through -/

/-- The settings of a peer are read; the row is inserted first. -/
def SettingsRead (f : Faults) : Prop :=
  f .insertPeerSettings = none ∧ f .selectPeerSettings = none

instance SettingsRead.decidable (f : Faults) : Decidable (SettingsRead f) :=
  inferInstanceAs (Decidable (f .insertPeerSettings = none ∧ f .selectPeerSettings = none))

theorem settingsRead_noFaults : SettingsRead noFaults := ⟨rfl, rfl⟩

/-- The peer is read as a friend. -/
def FriendRead (f : Faults) (conn : Database) (peer : String) : Prop :=
  f .getFriends = none ∧ (conn.friends.lookup peer).isSome = true

/-- Everyone may make contact, or friends may. -/
def MayContact (f : Faults) (conn : Database) (peer policy : String) : Prop :=
  policy = "allow" ∨ FriendRead f conn peer

section

variable {f : Faults}

theorem settings_read (h : SettingsRead f) (conn : Database) (peer : String) :
    (getPeerSettings f conn peer).1 = .ok (conn.settingsOf peer) := by
  rw [getPeerSettings_read h.1 h.2]

theorem settings_unread (h : ¬ SettingsRead f) (conn : Database) (peer : String) :
    ∃ e, (getPeerSettings f conn peer).1 = .error e := by
  unfold getPeerSettings execute query
  cases hi : f .insertPeerSettings with
  | some e => exact ⟨e, rfl⟩
  | none =>
    cases hs : f .selectPeerSettings with
    | some e => exact ⟨e, rfl⟩
    | none => exact absurd ⟨hi, hs⟩ h

/-- What is read of the settings: they are blocked only if they have been read. -/
theorem blocked_read (f : Faults) (conn : Database) (peer : String) :
    ((getPeerSettings f conn peer).1.toOption.map fun s => s.blocked).getD false = true ↔
      SettingsRead f ∧ (conn.settingsOf peer).blocked = true := by
  by_cases h : SettingsRead f
  · rw [settings_read h]
    simp [Except.toOption, h]
  · obtain ⟨e, he⟩ := settings_unread h conn peer
    rw [he]
    simp [Except.toOption, h]

/-- The rate that counts is the peer's own, or the configured one where that cannot be read. -/
theorem perMinute_read (f : Faults) (conn : Database) (peer : String) (configured : Int64) :
    ((getPeerSettings f conn peer).1.toOption.map fun s => s.rateLimitPerMinute).getD configured =
      if SettingsRead f then (conn.settingsOf peer).rateLimitPerMinute else configured := by
  by_cases h : SettingsRead f
  · rw [settings_read h, if_pos h]
    rfl
  · obtain ⟨e, he⟩ := settings_unread h conn peer
    rw [he, if_neg h]
    rfl

end

theorem peerCanContact_reads (f : Faults) (conn : Database) (peer policy : String) :
    (peerCanContact f conn peer policy).1 = true ↔
      (SettingsRead f → (conn.settingsOf peer).blocked = false) ∧
      MayContact f conn peer policy := by
  have hblocked := blocked_read f conn peer
  obtain ⟨table, hframe⟩ := getPeerSettings_frame f conn peer
  have hknown := getFriends_known f { conn with peerSettings := table } peer
  unfold peerCanContact
  generalize getPeerSettings f conn peer = q at hblocked hframe
  obtain ⟨settings, conn'⟩ := q
  obtain rfl : conn' = _ := hframe
  simp only [hknown]
  split
  · next h =>
    obtain ⟨hread, hb⟩ := hblocked.mp h
    simp [hread, hb]
  · next h =>
    have hopen : SettingsRead f → (conn.settingsOf peer).blocked = false := by
      intro hread
      cases hb : (conn.settingsOf peer).blocked with
      | true => exact absurd (hblocked.mpr ⟨hread, hb⟩) h
      | false => rfl
    rw [and_iff_right hopen]
    unfold MayContact FriendRead
    by_cases hpolicy : policy = "allow" <;> simp [hpolicy]

theorem trustCheck_reads (f : Faults) (conn : Database) (peer key : String) :
    (trustCheck f conn peer key).1 = true ↔
      (SettingsRead f → (conn.settingsOf peer).blocked = false ∧
        minTrust f conn key ≤ (conn.settingsOf peer).trustLevel) := by
  obtain ⟨table, hframe⟩ := getPeerSettings_frame f conn peer
  by_cases hread : SettingsRead f
  · have hsettings := settings_read hread conn peer
    unfold trustCheck
    generalize getPeerSettings f conn peer = q at hframe hsettings
    obtain ⟨settings, conn'⟩ := q
    obtain rfl : conn' = _ := hframe
    obtain rfl : settings = .ok (conn.settingsOf peer) := hsettings
    have hsame : minTrust f { conn with peerSettings := table } key = minTrust f conn key := rfl
    simp [hread, hsame, Int64.not_lt]
  · obtain ⟨e, hsettings⟩ := settings_unread hread conn peer
    unfold trustCheck
    generalize getPeerSettings f conn peer = q at hsettings
    obtain ⟨settings, conn'⟩ := q
    obtain rfl : settings = .error e := hsettings
    simp [hread]

/-- **The gate asks twice whether a peer is blocked**, with a read for each. -/
theorem requestGate_reads (f : Stage → Faults) (l : EventLoop Key) (nowMs : Int64) (peer : String) :
    (requestGate f l nowMs peer).1 = .admitted ↔
      (SettingsRead (f .gate) ∨ SettingsRead (f .contact) →
        (l.node.conn.settingsOf peer).blocked = false) ∧
      MayContact (f .contact) l.node.conn peer l.unknownPeerPolicy ∧
      (SettingsRead (f .gate) → (rateLimitAllows (l.rateBuckets peer) nowMs
        (l.node.conn.settingsOf peer).rateLimitPerMinute).1 = true) ∧
      (¬ SettingsRead (f .gate) →
        (rateLimitAllows (l.rateBuckets peer) nowMs l.rateLimitPerMinute).1 = true) := by
  have hblocked := blocked_read (f .gate) l.node.conn peer
  have hsettings := getPeerSettings_settingsOf (f .gate) l.node.conn peer peer
  obtain ⟨table, hframe⟩ := getPeerSettings_frame (f .gate) l.node.conn peer
  have hcontact := peerCanContact_reads (f .contact) { l.node.conn with peerSettings := table } peer
    l.unknownPeerPolicy
  rw [hframe] at hsettings
  rw [hsettings] at hcontact
  have hrate := perMinute_read (f .gate) l.node.conn peer l.rateLimitPerMinute
  unfold requestGate
  generalize getPeerSettings (f .gate) l.node.conn peer = q at hblocked hframe hrate
  obtain ⟨settings, conn⟩ := q
  obtain rfl : conn = _ := hframe
  simp only at hblocked hrate ⊢
  by_cases hrefused : (settings.toOption.map fun s => s.blocked).getD false = true
  · -- the first read finds the peer blocked
    obtain ⟨hread, hb⟩ := hblocked.mp hrefused
    rw [if_pos hrefused]
    refine ⟨fun h => (by cases h), fun h => ?_⟩
    rw [h.1 (.inl hread)] at hb
    cases hb
  · have hopen : SettingsRead (f .gate) → (l.node.conn.settingsOf peer).blocked = false := by
      intro hread
      cases hb : (l.node.conn.settingsOf peer).blocked with
      | true => exact absurd (hblocked.mpr ⟨hread, hb⟩) hrefused
      | false => rfl
    rw [if_neg hrefused]
    generalize peerCanContact (f .contact) { l.node.conn with peerSettings := table } peer
      l.unknownPeerPolicy = q at hcontact
    obtain ⟨contact, conn'⟩ := q
    simp only at hcontact ⊢
    have hcontact' : contact = true ↔
        (SettingsRead (f .contact) → (l.node.conn.settingsOf peer).blocked = false) ∧
          MayContact (f .contact) l.node.conn peer l.unknownPeerPolicy := hcontact
    rw [hrate]
    cases contact with
    | false =>
      refine ⟨fun h => (by cases h), fun h => ?_⟩
      have hno := hcontact'.mpr ⟨fun hread => h.1 (.inr hread), h.2.1⟩
      cases hno
    | true =>
      obtain ⟨hsecond, hmay⟩ := hcontact'.mp rfl
      have hboth : SettingsRead (f .gate) ∨ SettingsRead (f .contact) →
          (l.node.conn.settingsOf peer).blocked = false := fun h => h.elim hopen hsecond
      rw [and_iff_right hboth, and_iff_right hmay]
      by_cases hread : SettingsRead (f .gate)
      · simp only [hread, if_true, Bool.true_eq_false, if_false, true_implies, not_true_eq_false,
          false_implies, and_true]
        cases (rateLimitAllows (l.rateBuckets peer) nowMs
          (l.node.conn.settingsOf peer).rateLimitPerMinute).1 <;> simp
      · simp only [hread, if_false, Bool.true_eq_false, not_false_eq_true, true_implies,
          false_implies, true_and]
        cases (rateLimitAllows (l.rateBuckets peer) nowMs l.rateLimitPerMinute).1 <;> simp

/-- **Who is let through**, if every read succeeds. -/
theorem peerCanContact_iff (conn : Database) (peer policy : String) :
    (peerCanContact noFaults conn peer policy).1 = true ↔
      (conn.settingsOf peer).blocked = false ∧
        (policy = "allow" ∨ (conn.friends.lookup peer).isSome = true) := by
  rw [peerCanContact_reads]
  simp [settingsRead_noFaults, MayContact, FriendRead, noFaults]

theorem trustCheck_iff (conn : Database) (peer key : String) :
    (trustCheck noFaults conn peer key).1 = true ↔
      (conn.settingsOf peer).blocked = false ∧
        minTrust noFaults conn key ≤ (conn.settingsOf peer).trustLevel := by
  rw [trustCheck_reads]
  simp only [settingsRead_noFaults, true_implies]

theorem requestGate_admitted_iff (l : EventLoop Key) (nowMs : Int64) (peer : String) :
    (requestGate allRead l nowMs peer).1 = .admitted ↔
      (l.node.conn.settingsOf peer).blocked = false ∧
      (l.unknownPeerPolicy = "allow" ∨ (l.node.conn.friends.lookup peer).isSome = true) ∧
      (rateLimitAllows (l.rateBuckets peer) nowMs
        (l.node.conn.settingsOf peer).rateLimitPerMinute).1 = true := by
  rw [requestGate_reads]
  simp [allRead, settingsRead_noFaults, MayContact, FriendRead, noFaults]

/-- A friend without settings is admitted, if there was no request before. -/
theorem requestGate_admits {l : EventLoop Key} {peer : String} {friend : Friend}
    (hsettings : l.node.conn.peerSettings.lookup peer = none)
    (hfriend : l.node.conn.friends.lookup peer = some friend) (hbucket : l.rateBuckets peer = [])
    (nowMs : Int64) : (requestGate allRead l nowMs peer).1 = .admitted := by
  have hdefault : l.node.conn.settingsOf peer = .default := by
    rw [Database.settingsOf, hsettings, Option.getD_none]
  rw [requestGate_admitted_iff, hdefault, hfriend, hbucket]
  exact ⟨rfl, .inr rfl, rfl⟩

section

variable [DecidableEq Key] [Zero Key] {P : Primitives Key} {W : NetWire Key}
  {hashOf : Bytes → String} {f : Stage → Faults} {l : EventLoop Key} {t : Turn Key} {peer : String}

/-- Who is not admitted changes nothing more. -/
theorem handleRequest_refused (h : (requestGate f l t.nowMs peer).1 ≠ .admitted)
    (req : P2pRequest Key) :
    (handleRequest P W hashOf f l t peer req).1 = (requestGate f l t.nowMs peer).2 := by
  unfold handleRequest
  generalize requestGate f l t.nowMs peer = q at h
  obtain ⟨verdict, l'⟩ := q
  cases verdict with
  | refused => rfl
  | rateLimited => rfl
  | admitted => exact absurd rfl h

end

end AlterChat.Inbound
