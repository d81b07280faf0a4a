import AlterChat.Tauri.Gates
import AlterChat.Tauri.OnionDelivery

/-!
# What handling a request does

Every exit of the request handler of `alterchat-ui/src-tauri/src/lib.rs`: the rejections before the
arms, the arms, and the handler of a session that has a swarm and no connection to its database.

* §1 responses, and which of them acknowledges which request;
* §2 the handler without a connection;
* §3 one response on every path that comes to its end, of the kind of its request;
* §4 `handleRequest_keepsPeers` -- no request changes a friend or the settings of a peer.
-/

namespace AlterChat.Inbound

open Lib Db DoubleRatchet Crypto Onion Requests DirectMessages

variable {Key : Type}

/-! ## 1. Responses -/

/-- The responses among the effects. -/
def responses (effects : List (NetEffect Key)) : List P2pResponse :=
  effects.filterMap fun
    | .sendResponse resp => some resp
    | _ => none

@[simp] theorem responses_append (effects effects' : List (NetEffect Key)) :
    responses (effects ++ effects') = responses effects ++ responses effects' :=
  List.filterMap_append ..

/-- The acknowledgement that belongs to a request; that of a chunk says again which chunk it was. -/
def P2pResponse.Acknowledges : P2pResponse → P2pRequest Key → Prop
  | .fileAck .., .file .. => True
  | .fileChunkAck transferId index _, .fileChunk transferId' index' .. =>
    transferId = transferId' ∧ index = index'
  | .webRtcAck _, .webRtcSignal _ => True
  | .privateMessageAck _, .privateMessage .. => True
  | .ratchetPrivateMessageAck _, .ratchetPrivateMessage .. => True
  | .x3dhDmAck _, .x3dhDm .. => True
  | .capabilityAck _, .capabilityAnnouncement .. => True
  | .onionAck _, .onionForward _ => True
  | .pluginEventAck _, .pluginEvent .. => True
  | .powAck _, .powChallenge .. => True
  | .powAck _, .powSolution .. => True
  | _, _ => False

/-- One response, and in kind. -/
def Answered (effects : List (NetEffect Key)) (req : P2pRequest Key) : Prop :=
  ∃ resp, responses effects = [resp] ∧ resp.Acknowledges req

theorem rejectionForRequest_acknowledges (req : P2pRequest Key) :
    (rejectionForRequest req).Acknowledges req := by
  cases req with
  | fileChunk => exact ⟨rfl, rfl⟩
  | _ => trivial

/-! ## 2. Without a connection -/

/-- `OnionForward`: what is in an onion for us needs the connection. -/
def onionForwardUnconnected (P : Primitives Key) (W : NetWire Key) (offlineSecretBytes : Key)
    (peer : String) (packet : Bytes) : List (NetEffect Key) :=
  let acked : List (NetEffect Key) :=
    [.emit "onion-packet-received" [peer, toString packet.length], .sendResponse (.onionAck true)]
  match (packetLayout W.key).decode packet with
  | none => acked
  | some onionPacket =>
    match peelOnion P W.key offlineSecretBytes onionPacket with
    | .error _ => acked ++ [.emit "onion-peel-failed" [peer]]
    | .ok layer =>
      match layer.nextHop, layer.innerPacket with
      | some nextHop, some inner =>
        match W.parsePeerId nextHop with
        | none => acked
        | some nextPeer => acked ++ [.emit "onion-forwarding" [peer, nextHop],
            .sendRequest nextPeer (.onionForward ((packetLayout W.key).bytes inner))]
      | _, _ => acked

/-- The handler where the session has a swarm and no connection: no gate and no trust check, and
    nothing can be stored. A `PrivateMessage` is acknowledged all the same. -/
def handleUnconnected (P : Primitives Key) (W : NetWire Key) (offlineSecretBytes : Key)
    (peer : String) : P2pRequest Key → List (NetEffect Key)
  | .file filename data => [.emit "file-received" [filename, toString data.length],
      .sendResponse (.fileAck true "File received")]
  | .fileChunk transferId index _ _ data =>
    [.emit "file-chunk-received" [transferId, toString index, toString data.length],
      .sendResponse (.fileChunkAck transferId index false)]
  | .webRtcSignal signal => [.emit "webrtc-signal" [peer, signal], .sendResponse (.webRtcAck true)]
  | .privateMessage .. => [.sendResponse (.privateMessageAck true)]
  | .ratchetPrivateMessage .. => [.sendResponse (.ratchetPrivateMessageAck false)]
  | .x3dhDm .. => [.sendResponse (.x3dhDmAck false)]
  | .capabilityAnnouncement peerId _ _ _ _ capacityScore _ =>
    [.emit "peer-capability" [peerId, toString capacityScore], .sendResponse (.capabilityAck true)]
  | .onionForward packet => onionForwardUnconnected P W offlineSecretBytes peer packet
  | .pluginEvent pluginId eventJson =>
    [.emit "plugin-event" [pluginId, eventJson], .sendResponse (.pluginEventAck true)]
  | .powChallenge challengeId _ _ =>
    [.emit "pow-challenge" [challengeId], .sendResponse (.powAck true)]
  | .powSolution challengeId _ => [.emit "pow-solution" [challengeId], .sendResponse (.powAck true)]

/-! ## 3. One response -/

section

variable {P : Primitives Key} {W : NetWire Key} {f : Faults} {l : EventLoop Key} {peer : String}

theorem file_answered (filename : String) (data : Bytes) :
    Answered (file f l peer filename data).2 (.file filename data) := by
  unfold file
  dsimp only
  split
  · exact ⟨_, rfl, trivial⟩
  · exact ⟨_, rfl, trivial⟩

theorem fileChunk_answered (transferId : String) (index total : UInt64) (contentHash : String)
    (data : Bytes) (hashOf : Bytes → String) (chunkStored : Bool) :
    Answered (fileChunk f l peer transferId index contentHash data hashOf chunkStored).2
      (.fileChunk transferId index total contentHash data) := by
  unfold fileChunk
  dsimp only
  split
  · exact ⟨_, rfl, rfl, rfl⟩
  · exact ⟨_, rfl, rfl, rfl⟩

/-- The arm has three exits: the ban adds to what happens before its response, not to the
    responses. -/
theorem privateMessage_answered (nowMs : Int64) (text senderNick : String) (timestamp : Int64)
    (ttl : Option Int64) (powToken : Option PoWToken) :
    Answered (privateMessage W f l nowMs peer text senderNick timestamp ttl powToken).2
      (.privateMessage text senderNick timestamp ttl powToken) := by
  unfold privateMessage
  dsimp only
  split
  · by_cases hban : POW_BAN_THRESHOLD ≤ l.powFailures peer + 1
    · rw [if_pos hban]
      exact ⟨_, rfl, trivial⟩
    · rw [if_neg hban]
      exact ⟨_, rfl, trivial⟩
  · split
    · exact ⟨_, rfl, trivial⟩
    · exact ⟨_, rfl, trivial⟩

theorem ratchetPrivateMessage_answered (n : Node Key) (envelope : Bytes) (senderNick : String)
    (timestamp : Int64) (ttl : Option Int64) :
    Answered (ratchetPrivateMessage P W f n peer envelope senderNick timestamp ttl).2
      (.ratchetPrivateMessage envelope senderNick timestamp ttl) := by
  unfold ratchetPrivateMessage
  split
  · exact ⟨_, rfl, trivial⟩
  · next hread =>
    obtain ⟨text, rfl⟩ := ratchetMessage_effect hread
    exact ⟨_, rfl, trivial⟩

theorem x3dhDm_answers [DecidableEq Key] [Zero Key] (C : DmWire Key) (n : Node Key)
    (req : DirectMessages.X3dhDm Key) (drawn newSecret : Key) :
    ∃ success, responses ((x3dhDm P C f n peer req drawn newSecret).2.map ofDmEffect) =
      [.x3dhDmAck success] := by
  unfold x3dhDm
  dsimp only
  split
  · exact ⟨false, rfl⟩
  · split
    · exact ⟨false, rfl⟩
    · split
      · exact ⟨false, rfl⟩
      · split
        · exact ⟨false, rfl⟩
        · split
          · exact ⟨false, rfl⟩
          · exact ⟨true, rfl⟩

/-- What is read out of an onion is announced, not answered. -/
theorem onionPayload_responses (n : Node Key) (payload : Bytes) :
    responses (onionPayload P W f n payload).2 = [] := by
  unfold onionPayload
  split
  · rfl
  · split
    · rfl
    · split
      · split
        · rfl
        · next hread =>
          obtain ⟨text, rfl⟩ := ratchetMessage_effect hread
          rfl
      · rfl

theorem onionForward_answered (n : Node Key) (packet : Bytes) :
    Answered (onionForward P W f n peer packet).2 (.onionForward packet) := by
  refine ⟨.onionAck true, ?_, trivial⟩
  unfold onionForward
  dsimp only
  split
  · rfl
  · split
    · rfl
    · split
      · split
        · rfl
        · rfl
      · rfl
      · rw [responses_append, onionPayload_responses]
        rfl
      · rfl

theorem onionForwardUnconnected_answered (offlineSecretBytes : Key) (packet : Bytes) :
    Answered (onionForwardUnconnected P W offlineSecretBytes peer packet)
    (.onionForward packet) := by
  refine ⟨.onionAck true, ?_, trivial⟩
  unfold onionForwardUnconnected
  dsimp only
  split
  · rfl
  · split
    · rfl
    · split
      · split
        · rfl
        · rfl
      · rfl

theorem handleUnconnected_answered (P : Primitives Key) (W : NetWire Key) (offlineSecretBytes : Key)
    (peer : String) (req : P2pRequest Key) :
    Answered (handleUnconnected P W offlineSecretBytes peer req) req := by
  cases req with
  | onionForward packet => exact onionForwardUnconnected_answered offlineSecretBytes packet
  | fileChunk => exact ⟨_, rfl, rfl, rfl⟩
  | _ => exact ⟨_, rfl, trivial⟩

theorem handleRequest_answered [DecidableEq Key] [Zero Key] (P : Primitives Key) (W : NetWire Key)
    (hashOf : Bytes → String) (f : Stage → Faults) (l : EventLoop Key) (t : Turn Key)
    (peer : String) (req : P2pRequest Key) :
    Answered (handleRequest P W hashOf f l t peer req).2 req := by
  unfold handleRequest
  split
  · exact ⟨_, rfl, rejectionForRequest_acknowledges req⟩
  · exact ⟨_, rfl, rejectionForRequest_acknowledges req⟩
  · cases req with
    | file filename data => exact file_answered filename data
    | fileChunk transferId index total contentHash data =>
      exact fileChunk_answered transferId index total contentHash data hashOf t.chunkStored
    | privateMessage text senderNick timestamp ttl powToken =>
      exact privateMessage_answered t.nowMs text senderNick timestamp ttl powToken
    | ratchetPrivateMessage envelope senderNick timestamp ttl =>
      exact ratchetPrivateMessage_answered _ envelope senderNick timestamp ttl
    | x3dhDm initMsg drEnvelope senderDhPub senderNick timestamp ttl =>
      obtain ⟨success, h⟩ := x3dhDm_answers W.toDmWire _
        { drEnvelope, senderDhPub, senderNick, timestamp, ttl } t.drawn t.newSecret
      exact ⟨_, h, trivial⟩
    | onionForward packet => exact onionForward_answered _ packet
    | webRtcSignal | capabilityAnnouncement | pluginEvent | powChallenge | powSolution =>
      exact ⟨_, rfl, trivial⟩

end

/-! ## 4. Friends and settings -/

/-- The friends and the settings of every peer are those from before. -/
structure KeepsPeers (conn conn' : Database) : Prop where
  friends : conn'.friends = conn.friends
  settingsOf : ∀ id, conn'.settingsOf id = conn.settingsOf id

theorem KeepsPeers.refl (conn : Database) : KeepsPeers conn conn := ⟨rfl, fun _ => rfl⟩

theorem KeepsPeers.trans {conn₁ conn₂ conn₃ : Database} (h : KeepsPeers conn₁ conn₂)
    (h' : KeepsPeers conn₂ conn₃) : KeepsPeers conn₁ conn₃ where
  friends := h'.friends.trans h.friends
  settingsOf id := (h'.settingsOf id).trans (h.settingsOf id)

/-- Nothing is stored of a message. -/
def NothingStored (conn conn' : Database) : Prop :=
  conn'.privateMessages = conn.privateMessages ∧ conn'.messageSearch = conn.messageSearch

/-- Where neither table is written. -/
theorem KeepsPeers.of_tables {conn conn' : Database} (hfriends : conn'.friends = conn.friends)
    (hsettings : conn'.peerSettings = conn.peerSettings) : KeepsPeers conn conn' where
  friends := hfriends
  settingsOf id := by rw [Database.settingsOf, hsettings]; rfl

theorem getPeerSettings_keepsPeers (f : Faults) (conn : Database) (peerId : String) :
    KeepsPeers conn (getPeerSettings f conn peerId).2 where
  friends := by
    obtain ⟨table, h⟩ := getPeerSettings_frame f conn peerId
    rw [h]
  settingsOf id := getPeerSettings_settingsOf f conn peerId id

theorem savePrivateMessage_keepsPeers (f : Faults) (conn : Database) (peerId : String)
    (senderIsMe : Bool) (text : String) (timestamp : Int64) (ttl : Option Int64) :
    KeepsPeers conn (savePrivateMessage f conn peerId senderIsMe text timestamp ttl).2 := by
  obtain ⟨index, h⟩ := savePrivateMessage_frame f conn peerId senderIsMe text timestamp ttl
  rw [h]
  exact .of_tables rfl rfl

theorem saveRatchetState_keepsPeers (f : Faults) (conn : Database) (peerId : String)
    (stateBlob : Bytes) : KeepsPeers conn (saveRatchetState f conn peerId stateBlob).2 := by
  unfold saveRatchetState execute
  split
  · exact .refl conn
  · exact .of_tables rfl rfl

section

variable {P : Primitives Key} {W : NetWire Key}

theorem trustCheck_keepsPeers (f : Faults) (conn : Database) (peer key : String) :
    KeepsPeers conn (trustCheck f conn peer key).2 := by
  have hread := getPeerSettings_keepsPeers f conn peer
  unfold trustCheck
  generalize getPeerSettings f conn peer = q at hread
  obtain ⟨settings, conn'⟩ := q
  cases settings with
  | error e => exact hread
  | ok s => exact hread

theorem requestGate_keepsPeers (f : Stage → Faults) (l : EventLoop Key) (nowMs : Int64)
    (peer : String) : KeepsPeers l.node.conn (requestGate f l nowMs peer).2.node.conn where
  friends := by
    obtain ⟨table, buckets, h⟩ := requestGate_frame f l nowMs peer
    rw [h]
    rfl
  settingsOf id := requestGate_settingsOf f l nowMs peer id

theorem privateMessage_keepsPeers (f : Faults) (l : EventLoop Key) (nowMs : Int64)
    (peer text senderNick : String) (timestamp : Int64) (ttl : Option Int64)
    (powToken : Option PoWToken) :
    KeepsPeers l.node.conn
      (privateMessage W f l nowMs peer text senderNick timestamp ttl powToken).1.node.conn := by
  have htrust := trustCheck_keepsPeers f l.node.conn peer "min_trust_dm"
  unfold privateMessage
  dsimp only
  split
  · exact .refl _
  · split
    · exact htrust
    · exact htrust.trans (savePrivateMessage_keepsPeers f _ peer false text timestamp ttl)

theorem ratchetMessage_keepsPeers {f : Faults} {n : Node Key} {peerId : String} {envelope : Bytes}
    {senderNick : String} {timestamp : Int64} {ttl : Option Int64} {conn : Database}
    {e : NetEffect Key}
    (h : ratchetMessage P W f n peerId envelope senderNick timestamp ttl = some (conn, e)) :
    KeepsPeers n.conn conn := by
  obtain ⟨_, _, _, _, _, text, -, -, -, -, -, rfl, -⟩ := ratchetMessage_some h
  exact (savePrivateMessage_keepsPeers f n.conn peerId false text timestamp ttl).trans
    (saveRatchetState_keepsPeers f _ peerId _)

theorem onionPayload_keepsPeers (f : Faults) (n : Node Key) (payload : Bytes) :
    KeepsPeers n.conn (onionPayload P W f n payload).1 := by
  unfold onionPayload
  split
  · exact .refl _
  · split
    · exact .refl _
    · split
      · split
        · exact .refl _
        · next hread => exact ratchetMessage_keepsPeers hread
      · exact .refl _

theorem onionForward_keepsPeers (f : Faults) (n : Node Key) (peer : String) (packet : Bytes) :
    KeepsPeers n.conn (onionForward P W f n peer packet).1 := by
  unfold onionForward
  dsimp only
  split
  · exact .refl _
  · split
    · exact .refl _
    · split
      · split
        · exact .refl _
        · exact .refl _
      · exact .refl _
      · exact onionPayload_keepsPeers f n _
      · exact .refl _

theorem ratchetPrivateMessage_keepsPeers (f : Faults) (n : Node Key) (peer : String)
    (envelope : Bytes) (senderNick : String) (timestamp : Int64) (ttl : Option Int64) :
    KeepsPeers n.conn (ratchetPrivateMessage P W f n peer envelope senderNick timestamp ttl).1 := by
  unfold ratchetPrivateMessage
  split
  · exact .refl _
  · next hread => exact ratchetMessage_keepsPeers hread

theorem x3dhDm_keepsPeers [DecidableEq Key] [Zero Key] (P : Primitives Key) (C : DmWire Key)
    (f : Faults) (n : Node Key) (peer : String) (req : DirectMessages.X3dhDm Key)
    (drawn newSecret : Key) : KeepsPeers n.conn (x3dhDm P C f n peer req drawn newSecret).1 := by
  rcases x3dhDm_cases P C f n peer req drawn newSecret with
    hsame | ⟨pk, envelope, plaintext, text, state, -, -, -, -, hsaved⟩
  · rw [hsame]
    exact .refl _
  · rw [hsaved]
    exact (savePrivateMessage_keepsPeers f n.conn peer false text req.timestamp req.ttl).trans
      (saveRatchetState_keepsPeers f _ (drKey peer) (C.stateBytes.enc state))

/-- **No request changes a friend or the settings of a peer**, its own or anyone's. -/
theorem handleRequest_keepsPeers [DecidableEq Key] [Zero Key] (P : Primitives Key) (W : NetWire Key)
    (hashOf : Bytes → String) (f : Stage → Faults) (l : EventLoop Key) (t : Turn Key)
    (peer : String) (req : P2pRequest Key) :
    KeepsPeers l.node.conn (handleRequest P W hashOf f l t peer req).1.node.conn := by
  have hgate := requestGate_keepsPeers f l t.nowMs peer
  unfold handleRequest
  generalize requestGate f l t.nowMs peer = q at hgate
  obtain ⟨verdict, l'⟩ := q
  cases verdict with
  | refused => exact hgate
  | rateLimited => exact hgate
  | admitted =>
    refine hgate.trans ?_
    cases req with
    | file filename data =>
      dsimp only
      rw [file_state]
      exact trustCheck_keepsPeers (f .arm) l'.node.conn peer "min_trust_file"
    | fileChunk transferId index total contentHash data =>
      dsimp only
      rw [fileChunk_state]
      exact trustCheck_keepsPeers (f .arm) l'.node.conn peer "min_trust_file"
    | privateMessage text senderNick timestamp ttl powToken =>
      exact privateMessage_keepsPeers (f .arm) l' t.nowMs peer text senderNick timestamp
        ttl powToken
    | ratchetPrivateMessage envelope senderNick timestamp ttl =>
      exact ratchetPrivateMessage_keepsPeers (f .arm) l'.node peer envelope senderNick timestamp ttl
    | x3dhDm initMsg drEnvelope senderDhPub senderNick timestamp ttl =>
      exact x3dhDm_keepsPeers P W.toDmWire (f .arm) l'.node peer
        { drEnvelope, senderDhPub, senderNick, timestamp, ttl } t.drawn t.newSecret
    | onionForward packet => exact onionForward_keepsPeers (f .arm) l'.node peer packet
    | webRtcSignal | capabilityAnnouncement | pluginEvent | powChallenge | powSolution =>
      exact .refl _

end

end AlterChat.Inbound
