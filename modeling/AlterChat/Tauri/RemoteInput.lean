import AlterChat.Tauri.Handling
import AlterChat.Tauri.Mailbox
import AlterChat.Tauri.ProofOfWork
import AlterChat.Tauri.RoomStore

/-!
# What others can change

Everything that comes from the network into a session: requests, what is published on the topics,
and the records of the mailbox, in any order and with any statement of the database failing.

* §1 `Host`, `RemoteEvent`, §2 `RemoteWrite` -- the writes to the database there are;
* §3 `request_writes`, `record_writes`, `gossip_writes` -- what each event writes;
* §4 `Untouched` -- what such writes leave alone;
* §5 `remote_untouched` -- so over a whole run the user's settings, friends, groups, roles and
  grants stay, nobody speaks in the user's name, and no message without a lifetime is lost.
-/

namespace AlterChat.RemoteInput

open Lib Db Inbound RoomStore Crdt Governance Requests DirectMessages Crypto Onion

variable {Key RoomKey Actor Scalar Doc : Type}

/-! ## 1. The session -/

/-- The state of a session with a connection and a swarm. -/
structure Host (Key RoomKey Doc : Type) where
  loop : EventLoop Key
  room : Room RoomKey Doc
  currentTopicName : String

inductive RemoteEvent (Key Actor : Type) where
  | request (f : Stage → Faults) (t : Turn Key) (peer : String) (req : P2pRequest Key)
  /-- `get_record` has returned a record. -/
  | record (f : Faults) (nowMs : Int64) (key value : Bytes)
  /-- Something was published on a topic. -/
  | gossip (f : Faults) (topic : String) (data : Bytes) (actor : Actor) (nowMs : Int64)

/-- What the Gossipsub handler sees of the session. -/
def Host.roomLoop (h : Host Key RoomKey Doc) : RoomLoop RoomKey Doc where
  room := h.room
  conn := some h.loop.node.conn
  swarm := true
  currentTopicName := h.currentTopicName
  myPeerId := h.loop.node.myPeerId

/-- The session after an event, unless it panics. -/
def Host.after [DecidableEq Key] [Zero Key] (P : Primitives Key) (N : NetWire Key)
    (hashOf : Bytes → String) (W : Wire) (L : Libraries RoomKey Actor Scalar Doc)
    (h : Host Key RoomKey Doc) : RemoteEvent Key Actor → Option (Host Key RoomKey Doc)
  | .request f t peer req =>
    some { h with loop := (handleRequest P N hashOf f h.loop t peer req).1 }
  | .record f nowMs key value =>
    some { h with loop := h.loop.setConn (foundRecord P N f h.loop.node nowMs key value).1 }
  | .gossip f topic data actor nowMs =>
    (gossipMessage W L f h.roomLoop topic data actor nowMs).map fun r =>
      { h with loop := h.loop.setConn (r.1.conn.getD h.loop.node.conn), room := r.1.room }

/-! ## 2. Writes -/

/-- One function of `db.rs` that is called for what comes in; the room is the current one. -/
inductive RemoteWrite (topic : String) (c : Database) : Database → Prop where
  | peerSettings (f : Faults) (peerId : String) : RemoteWrite topic c (getPeerSettings f c peerId).2
  | message (f : Faults) (peerId text : String) (timestamp : Int64) (ttl : Option Int64) :
      RemoteWrite topic c (savePrivateMessage f c peerId false text timestamp ttl).2
  | ratchet (f : Faults) (key : String) (blob : Bytes) : RemoteWrite topic c
      (saveRatchetState f c key blob).2
  | expiry (f : Faults) (nowMs : Int64) (peerId : String) :
      RemoteWrite topic c (getPrivateMessages f c nowMs peerId).2
  | room (f : Faults) (blob : Bytes) : RemoteWrite topic c (saveRoom f c topic blob).2
  | revoked (f : Faults) (inviteId revokedBy : String) (nowMs : Int64) :
      RemoteWrite topic c (markInviteRevoked f c inviteId revokedBy nowMs).2
  | invite (f : Faults) (inviteId : String) : RemoteWrite topic c (Db.revokeInvite f c inviteId).2

/-- Some of them, one after the other. -/
abbrev RemoteWrites (topic : String) : Database → Database → Prop :=
  Relation.ReflTransGen (RemoteWrite topic)

section

variable {topic : String} {P : Primitives Key} {N : NetWire Key}

theorem one_write {c c' : Database} (h : RemoteWrite topic c c') :
    RemoteWrites topic c c' := .single h

/-- The settings of a peer are read for a trust check. -/
theorem trustCheck_writes (f : Faults) (c : Database) (peer key : String) :
    RemoteWrites topic c (trustCheck f c peer key).2 := by
  have h : RemoteWrites topic c (getPeerSettings f c peer).2 := one_write (.peerSettings f peer)
  unfold trustCheck
  generalize getPeerSettings f c peer = q at h
  obtain ⟨settings, c'⟩ := q
  cases settings <;> exact h

theorem peerCanContact_writes (f : Faults) (c : Database) (peer policy : String) :
    RemoteWrites topic c (peerCanContact f c peer policy).2 := by
  have h : RemoteWrites topic c (getPeerSettings f c peer).2 := one_write (.peerSettings f peer)
  unfold peerCanContact
  simp only
  split <;> exact h

/-- A message and the new ratchet state, as two of the arms save them. -/
theorem messageAndState_writes (f : Faults) (c : Database) (peerId text : String)
    (timestamp : Int64) (ttl : Option Int64) (key : String) (blob : Bytes) :
    RemoteWrites topic c
      (saveRatchetState f (savePrivateMessage f c peerId false text timestamp ttl).2 key blob).2 :=
  (one_write (.message f peerId text timestamp ttl)).tail (.ratchet f key blob)

/-! ## 3. What each event writes -/

theorem requestGate_writes (f : Stage → Faults) (l : EventLoop Key) (nowMs : Int64)
    (peer : String) : RemoteWrites topic l.node.conn (requestGate f l nowMs peer).2.node.conn := by
  have hread : RemoteWrites topic l.node.conn (getPeerSettings (f .gate) l.node.conn peer).2 :=
    one_write (.peerSettings (f .gate) peer)
  unfold requestGate
  simp only
  split
  · exact hread
  · have hcontact := hread.trans (peerCanContact_writes (f .contact) _ peer l.unknownPeerPolicy)
    split <;> exact hcontact

theorem privateMessage_writes (f : Faults) (l : EventLoop Key) (nowMs : Int64)
    (peer text senderNick : String) (timestamp : Int64) (ttl : Option Int64)
    (powToken : Option PoWToken) :
    RemoteWrites topic l.node.conn
      (privateMessage N f l nowMs peer text senderNick timestamp ttl powToken).1.node.conn := by
  have htrust : RemoteWrites topic l.node.conn (trustCheck f l.node.conn peer "min_trust_dm").2 :=
    trustCheck_writes f l.node.conn peer "min_trust_dm"
  unfold privateMessage
  dsimp only
  split
  · exact .refl
  · split
    · exact htrust
    · exact htrust.tail (.message f peer text timestamp ttl)

theorem ratchetMessage_writes {f : Faults} {n : Node Key} {peerId : String} {envelope : Bytes}
    {senderNick : String} {timestamp : Int64} {ttl : Option Int64} {conn : Database}
    {e : NetEffect Key}
    (h : ratchetMessage P N f n peerId envelope senderNick timestamp ttl = some (conn, e)) :
    RemoteWrites topic n.conn conn := by
  obtain ⟨_, _, _, _, _, text, -, -, -, -, -, rfl, -⟩ := ratchetMessage_some h
  exact messageAndState_writes f n.conn peerId text timestamp ttl peerId _

theorem ratchetPrivateMessage_writes (f : Faults) (n : Node Key) (peer : String) (envelope : Bytes)
    (senderNick : String) (timestamp : Int64) (ttl : Option Int64) :
    RemoteWrites topic n.conn
      (ratchetPrivateMessage P N f n peer envelope senderNick timestamp ttl).1 := by
  unfold ratchetPrivateMessage
  split
  · exact .refl
  · next hread => exact ratchetMessage_writes hread

theorem onionPayload_writes (f : Faults) (n : Node Key) (payload : Bytes) :
    RemoteWrites topic n.conn (onionPayload P N f n payload).1 := by
  unfold onionPayload
  split
  · exact .refl
  · split
    · exact .refl
    · split
      · split
        · exact .refl
        · next hread => exact ratchetMessage_writes hread
      · exact .refl

/-- Only where the onion is for us is anything written. -/
theorem onionForward_writes (f : Faults) (n : Node Key) (peer : String) (packet : Bytes) :
    RemoteWrites topic n.conn (onionForward P N f n peer packet).1 := by
  unfold onionForward
  dsimp only
  split
  · exact .refl
  · split
    · exact .refl
    · split
      · split <;> exact .refl
      · exact .refl
      · exact onionPayload_writes f n _
      · exact .refl

theorem x3dhDm_writes [DecidableEq Key] [Zero Key] (P : Primitives Key) (C : DmWire Key)
    (f : Faults) (n : Node Key) (peer : String) (req : DirectMessages.X3dhDm Key)
    (drawn newSecret : Key) :
    RemoteWrites topic n.conn (x3dhDm P C f n peer req drawn newSecret).1 := by
  rcases x3dhDm_cases P C f n peer req drawn newSecret with
    hsame | ⟨pk, envelope, plaintext, text, state, -, -, -, -, hsaved⟩
  · rw [hsame]
  · rw [hsaved]
    exact messageAndState_writes f n.conn peer text req.timestamp req.ttl (drKey peer) _

theorem request_writes [DecidableEq Key] [Zero Key] (P : Primitives Key) (N : NetWire Key)
    (hashOf : Bytes → String) (f : Stage → Faults) (l : EventLoop Key) (t : Turn Key)
    (peer : String) (req : P2pRequest Key) :
    RemoteWrites topic l.node.conn (handleRequest P N hashOf f l t peer req).1.node.conn := by
  have hgate : RemoteWrites topic l.node.conn (requestGate f l t.nowMs peer).2.node.conn :=
    requestGate_writes f l t.nowMs peer
  unfold handleRequest
  generalize requestGate f l t.nowMs peer = q at hgate
  obtain ⟨verdict, l'⟩ := q
  cases verdict with
  | refused => exact hgate
  | rateLimited => exact hgate
  | admitted =>
    refine hgate.trans ?_
    cases req with
    | file filename data =>
      dsimp only
      rw [file_state]
      exact trustCheck_writes (f .arm) l'.node.conn peer "min_trust_file"
    | fileChunk transferId index total contentHash data =>
      dsimp only
      rw [fileChunk_state]
      exact trustCheck_writes (f .arm) l'.node.conn peer "min_trust_file"
    | privateMessage text senderNick timestamp ttl powToken =>
      exact privateMessage_writes (f .arm) l' t.nowMs peer text senderNick timestamp ttl powToken
    | ratchetPrivateMessage envelope senderNick timestamp ttl =>
      exact ratchetPrivateMessage_writes (f .arm) l'.node peer envelope senderNick timestamp ttl
    | x3dhDm initMsg drEnvelope senderDhPub senderNick timestamp ttl =>
      exact x3dhDm_writes P N.toDmWire (f .arm) l'.node peer
        { drEnvelope, senderDhPub, senderNick, timestamp, ttl } t.drawn t.newSecret
    | onionForward packet => exact onionForward_writes (f .arm) l'.node peer packet
    | webRtcSignal | capabilityAnnouncement | pluginEvent | powChallenge | powSolution =>
      exact .refl

/-- What has expired is deleted before the message is compared with those that are there. -/
theorem record_writes (P : Primitives Key) (N : NetWire Key) (f : Faults) (n : Node Key)
    (nowMs : Int64) (key value : Bytes) :
    RemoteWrites topic n.conn (foundRecord P N f n nowMs key value).1 := by
  unfold foundRecord
  split
  · exact .refl
  · next msg hmsg =>
    have hread : RemoteWrites topic n.conn (getPrivateMessages f n.conn nowMs msg.senderPeerId).2 :=
      one_write (.expiry f nowMs msg.senderPeerId)
    dsimp only
    split
    · exact hread
    · exact hread.tail (.message f msg.senderPeerId msg.text msg.timestamp msg.ttl)

theorem revocation_writes (W : Wire) (f : Faults) (c : Database) (nowMs : Int64) (data : Bytes) :
    RemoteWrites topic c (Commands.revocationMessage W f c nowMs data).1 := by
  unfold Commands.revocationMessage
  split
  · exact .refl
  · next ann hann =>
      exact (one_write (.revoked f ann.inviteId ann.revokedBy nowMs)).tail (.invite f ann.inviteId)

end

/-! ## 4. What the writes leave alone -/

/-- Between two states of the database of a session whose room is `topic`. -/
structure Untouched (topic : String) (c c' : Database) : Prop where
  settings : c'.settings = c.settings
  appSettings : c'.appSettings = c.appSettings
  friends : c'.friends = c.friends
  settingsOf : ∀ id, c'.settingsOf id = c.settingsOf id
  savedGroups : c'.savedGroups = c.savedGroups
  roomSettings : c'.roomSettings = c.roomSettings
  roomRoles : c'.roomRoles = c.roomRoles
  permissionGrants : c'.permissionGrants = c.permissionGrants
  /-- The rooms that are not open. -/
  rooms : ∀ name, name ≠ topic → c'.rooms.lookup name = c.rooms.lookup name
  /-- An invite is the same, or it has been revoked: no use is counted and none appears. -/
  invites : ∀ id, c'.roomInvites.lookup id = c.roomInvites.lookup id ∨
    c'.roomInvites.lookup id = (c.roomInvites.lookup id).map fun row => { row with revoked := true }
  revoked : ∀ id row, c.revokedInvites.lookup id = some row → c'.revokedInvites.lookup id = some row
  /-- Nobody speaks in the user's name. -/
  mine : ∀ m : PrivateMessage, m.senderIsMe = true → c'.privateMessages.count m ≤
    c.privateMessages.count m
  /-- A message without a lifetime stays. -/
  lasting : ∀ m : PrivateMessage, m.ttl = none → c.privateMessages.count m ≤
    c'.privateMessages.count m

namespace Untouched

variable {topic : String} {c c' : Database}

theorem refl (c : Database) : Untouched topic c c where
  settings := rfl
  appSettings := rfl
  friends := rfl
  settingsOf _ := rfl
  savedGroups := rfl
  roomSettings := rfl
  roomRoles := rfl
  permissionGrants := rfl
  rooms _ _ := rfl
  invites _ := .inl rfl
  revoked _ _ h := h
  mine _ _ := le_rfl
  lasting _ _ := le_rfl

theorem trans {c₁ c₂ c₃ : Database} (h : Untouched topic c₁ c₂) (h' : Untouched topic c₂ c₃) :
    Untouched topic c₁ c₃ where
  settings := h'.settings.trans h.settings
  appSettings := h'.appSettings.trans h.appSettings
  friends := h'.friends.trans h.friends
  settingsOf id := (h'.settingsOf id).trans (h.settingsOf id)
  savedGroups := h'.savedGroups.trans h.savedGroups
  roomSettings := h'.roomSettings.trans h.roomSettings
  roomRoles := h'.roomRoles.trans h.roomRoles
  permissionGrants := h'.permissionGrants.trans h.permissionGrants
  rooms name hname := (h'.rooms name hname).trans (h.rooms name hname)
  invites id := by
    -- revoked twice is revoked once
    rcases h.invites id with h₁ | h₁ <;> rcases h'.invites id with h₂ | h₂ <;> rw [h₂, h₁]
    · exact .inl rfl
    · exact .inr rfl
    · exact .inr rfl
    · exact .inr (Option.map_map ..)
  revoked id row hrow := h'.revoked id row (h.revoked id row hrow)
  mine m hm := (h'.mine m hm).trans (h.mine m hm)
  lasting m hm := (h.lasting m hm).trans (h'.lasting m hm)

/-- A write to the messages and their index. -/
theorem of_messages {index : List SearchRow} {messages : List PrivateMessage}
    (hmine : ∀ m : PrivateMessage, m.senderIsMe = true →
      messages.count m ≤ c.privateMessages.count m)
    (hlasting : ∀ m : PrivateMessage, m.ttl = none → c.privateMessages.count m ≤ messages.count m) :
    Untouched topic c { c with privateMessages := messages, messageSearch := index } :=
  { refl c with mine := hmine, lasting := hlasting }

theorem getPeerSettings (f : Faults) (c : Database) (peerId : String) :
    Untouched topic c (Db.getPeerSettings f c peerId).2 := by
  have hsettings := getPeerSettings_settingsOf f c peerId
  obtain ⟨table, h⟩ := getPeerSettings_frame f c peerId
  rw [h] at hsettings ⊢
  exact { refl c with settingsOf := hsettings }

/-- It is saved as a message of the peer. -/
theorem savePrivateMessage (f : Faults) (c : Database) (peerId text : String) (timestamp : Int64)
    (ttl : Option Int64) :
    Untouched topic c (Db.savePrivateMessage f c peerId false text timestamp ttl).2 := by
  obtain ⟨index, h⟩ := savePrivateMessage_frame f c peerId false text timestamp ttl
  rw [h]
  split
  · refine of_messages (fun m hm => ?_) fun m hm => ?_
    · rw [List.count_append, List.count_singleton, if_neg, Nat.add_zero]
      rintro heq
      rw [← beq_iff_eq.mp heq] at hm
      cases hm
    · rw [List.count_append]
      exact Nat.le_add_right _ _
  · exact of_messages (fun _ _ => le_rfl) fun _ _ => le_rfl

/-- What is deleted has a lifetime. -/
theorem getPrivateMessages (f : Faults) (c : Database) (nowMs : Int64) (peerId : String) :
    Untouched topic c (Db.getPrivateMessages f c nowMs peerId).2 := by
  obtain ⟨index, h⟩ := getPrivateMessages_frame f c nowMs peerId
  rw [h]
  split
  · refine of_messages (fun m hm => List.filter_sublist.count_le m) fun m hm => ?_
    have hstays : (!m.expired nowMs) = true := by rw [PrivateMessage.expired, hm]; rfl
    exact (List.count_filter (p := fun m : PrivateMessage => !m.expired nowMs) hstays).ge
  · exact of_messages (fun _ _ => le_rfl) fun _ _ => le_rfl

theorem saveRatchetState (f : Faults) (c : Database) (key : String) (blob : Bytes) :
    Untouched topic c (Db.saveRatchetState f c key blob).2 := by
  unfold Db.saveRatchetState execute
  split
  · exact refl c
  · exact { (refl c : Untouched topic c c) with }

theorem saveRoom (f : Faults) (c : Database) (blob : Bytes) :
    Untouched topic c (Db.saveRoom f c topic blob).2 := by
  unfold Db.saveRoom execute
  split
  · exact refl c
  · refine { (refl c : Untouched topic c c) with rooms := fun name hname => ?_ }
    rw [Table.lookup_upsert_const, if_neg hname]

/-- The first entry for an invite stays. -/
theorem markInviteRevoked (f : Faults) (c : Database) (inviteId revokedBy : String)
    (nowMs : Int64) : Untouched topic c (Db.markInviteRevoked f c inviteId revokedBy nowMs).2 := by
  unfold Db.markInviteRevoked execute
  split
  · exact refl c
  · refine { refl c with revoked := fun id row hrow => ?_ }
    rw [Table.lookup_insertIgnore]
    split
    · next hid => rw [← hid, hrow, Option.getD_some]
    · exact hrow

theorem revokeInvite (f : Faults) (c : Database) (inviteId : String) :
    Untouched topic c (Db.revokeInvite f c inviteId).2 := by
  unfold Db.revokeInvite execute
  split
  · exact refl c
  · refine { refl c with invites := fun id => ?_ }
    rw [Table.lookup_update]
    split
    · next hid => exact .inr (by rw [hid])
    · exact .inl rfl

end Untouched

/-- **One write.** -/
theorem RemoteWrite.untouched {topic : String} {c c' : Database} (h : RemoteWrite topic c c') :
    Untouched topic c c' := by
  cases h with
  | peerSettings f peerId => exact .getPeerSettings f c peerId
  | message f peerId text timestamp ttl => exact .savePrivateMessage f c peerId text timestamp ttl
  | ratchet f key blob => exact .saveRatchetState f c key blob
  | expiry f nowMs peerId => exact .getPrivateMessages f c nowMs peerId
  | room f blob => exact .saveRoom f c blob
  | revoked f inviteId revokedBy nowMs => exact .markInviteRevoked f c inviteId revokedBy nowMs
  | invite f inviteId => exact .revokeInvite f c inviteId

/-- **Any number of them.** -/
theorem RemoteWrites.untouched {topic : String} {c c' : Database} (h : RemoteWrites topic c c') :
    Untouched topic c c' := by
  induction h with
  | refl => exact .refl c
  | tail _ hlast ih => exact ih.trans hlast.untouched

/-! ## 5. Runs -/

/-- What is set when the session starts and when it joins a room. -/
structure SameSession (h h' : Host Key RoomKey Doc) : Prop where
  myPeerId : h'.loop.node.myPeerId = h.loop.node.myPeerId
  offlineSecretBytes : h'.loop.node.offlineSecretBytes = h.loop.node.offlineSecretBytes
  minTrustDm : h'.loop.node.minTrustDm = h.loop.node.minTrustDm
  unknownPeerPolicy : h'.loop.unknownPeerPolicy = h.loop.unknownPeerPolicy
  rateLimitPerMinute : h'.loop.rateLimitPerMinute = h.loop.rateLimitPerMinute
  currentTopicName : h'.currentTopicName = h.currentTopicName
  roomId : h'.room.id = h.room.id
  encryptionKey : h'.room.encryptionKey = h.room.encryptionKey

namespace SameSession

theorem refl (h : Host Key RoomKey Doc) : SameSession h h :=
  ⟨rfl, rfl, rfl, rfl, rfl, rfl, rfl, rfl⟩

theorem trans {h₁ h₂ h₃ : Host Key RoomKey Doc} (h : SameSession h₁ h₂) (h' : SameSession h₂ h₃) :
    SameSession h₁ h₃ where
  myPeerId := h'.myPeerId.trans h.myPeerId
  offlineSecretBytes := h'.offlineSecretBytes.trans h.offlineSecretBytes
  minTrustDm := h'.minTrustDm.trans h.minTrustDm
  unknownPeerPolicy := h'.unknownPeerPolicy.trans h.unknownPeerPolicy
  rateLimitPerMinute := h'.rateLimitPerMinute.trans h.rateLimitPerMinute
  currentTopicName := h'.currentTopicName.trans h.currentTopicName
  roomId := h'.roomId.trans h.roomId
  encryptionKey := h'.encryptionKey.trans h.encryptionKey

end SameSession

/-- **The requests**: the loop after one has another connection, other buckets and other counts of
    tokens that failed, and is the same otherwise. -/
theorem request_loop [DecidableEq Key] [Zero Key] (P : Primitives Key) (N : NetWire Key)
    (hashOf : Bytes → String) (f : Stage → Faults) (l : EventLoop Key) (t : Turn Key)
    (peer : String) (req : P2pRequest Key) : ∃ conn rateBuckets powFailures,
      (handleRequest P N hashOf f l t peer req).1 =
        { l.setConn conn with rateBuckets, powFailures } := by
  obtain ⟨table, buckets, hframe⟩ := requestGate_frame f l t.nowMs peer
  unfold handleRequest
  generalize requestGate f l t.nowMs peer = q at hframe
  obtain ⟨verdict, l'⟩ := q
  cases hframe
  cases verdict with
  | refused => exact ⟨_, _, _, rfl⟩
  | rateLimited => exact ⟨_, _, _, rfl⟩
  | admitted =>
    cases req with
    | file filename data =>
      dsimp only
      rw [file_state]
      exact ⟨_, _, _, rfl⟩
    | fileChunk transferId index total contentHash data =>
      dsimp only
      rw [fileChunk_state]
      exact ⟨_, _, _, rfl⟩
    | privateMessage text senderNick timestamp ttl powToken =>
      dsimp only [privateMessage]
      split
      · exact ⟨_, _, _, rfl⟩
      · split <;> exact ⟨_, _, _, rfl⟩
    | _ => exact ⟨_, _, _, rfl⟩

section

variable [DecidableEq Key] [Zero Key] {P : Primitives Key} {N : NetWire Key}
  {hashOf : Bytes → String} {W : Wire} {L : Libraries RoomKey Actor Scalar Doc}
  {h h' : Host Key RoomKey Doc}

/-- One event; a session that panics takes none. -/
def RemoteStep (P : Primitives Key) (N : NetWire Key) (hashOf : Bytes → String) (W : Wire)
    (L : Libraries RoomKey Actor Scalar Doc) (h : Host Key RoomKey Doc) (ev : RemoteEvent Key Actor)
    (h' : Host Key RoomKey Doc) : Prop :=
  h.after P N hashOf W L ev = some h'

/-- **One event**, by what has come. -/
theorem RemoteStep.spec {ev : RemoteEvent Key Actor} (hs : RemoteStep P N hashOf W L h ev h') :
    RemoteWrites h.currentTopicName h.loop.node.conn h'.loop.node.conn ∧ SameSession h h' := by
  unfold RemoteStep Host.after at hs
  cases ev with
  | request f t peer req =>
    cases hs
    obtain ⟨conn, buckets, failures, hloop⟩ := request_loop P N hashOf f h.loop t peer req
    refine ⟨request_writes P N hashOf f h.loop t peer req, ?_⟩
    simp only [hloop]
    exact ⟨rfl, rfl, rfl, rfl, rfl, rfl, rfl, rfl⟩
  | record f nowMs key value =>
    cases hs
    exact ⟨record_writes P N f h.loop.node nowMs key value, rfl, rfl, rfl, rfl, rfl, rfl, rfl, rfl⟩
  | gossip f topic data actor nowMs =>
    obtain ⟨⟨loop, effects⟩, hgossip, rfl⟩ := Option.map_eq_some_iff.mp hs
    rcases gossipMessage_cases hgossip with rfl | ⟨conn, hconn, rfl |
      ⟨-, plain, other, doc, -, -, -, rfl⟩⟩
    · exact ⟨.refl, .refl h⟩
    · cases hconn
      exact ⟨revocation_writes W f _ nowMs data, rfl, rfl, rfl, rfl, rfl, rfl, rfl, rfl⟩
    · cases hconn
      exact ⟨one_write (.room f _), rfl, rfl, rfl, rfl, rfl, rfl, rfl, rfl⟩

/-- **What others can change, over every run.** Whatever arrives, from whomever and in any order,
    and whichever statements fail: the settings, friends, groups, roles and grants are those from
    before, as are the rooms that are not open; an invite can only be revoked and a revocation
    stays; no message appears in the user's name and none without a lifetime is lost; and the
    session keeps its keys, its room and its policy. -/
theorem remote_untouched {h₀ : Host Key RoomKey Doc}
    (hr : Reach (fun s => s = h₀) (RemoteStep P N hashOf W L) h) :
    Untouched h₀.currentTopicName h₀.loop.node.conn h.loop.node.conn ∧ SameSession h₀ h := by
  refine hr.inv (I := fun s =>
    Untouched h₀.currentTopicName h₀.loop.node.conn s.loop.node.conn ∧ SameSession h₀ s) ?_ ?_
  · rintro s rfl
    exact ⟨.refl _, .refl s⟩
  · rintro s ev s' ⟨huntouched, hsame⟩ hstep
    obtain ⟨hwrites, hsame'⟩ := hstep.spec
    rw [hsame.currentTopicName] at hwrites
    exact ⟨huntouched.trans hwrites.untouched, hsame.trans hsame'⟩

end

/-- A database in use: settings, a friend, a group with a role, a grant and an invite, the stored
    form of another room, and a message of the user's. -/
def furnished : Database :=
  { Database.empty with
    rooms := (∅ : Table String Bytes).insert "s" [1]
    settings := (∅ : Table String String).insert "nickname" "anna"
    appSettings := (∅ : Table String String).insert "min_trust_room" "1"
    friends := (∅ : Table String Friend).insert "c"
      { nickname := "carla", offlinePubkey := none, trustLevel := 2, blocked := false,
        muted := false
        notes := none }
    peerSettings :=
      (∅ : Table String PeerSettings).insert "c" { PeerSettings.default with trustLevel := 2 }
    savedGroups :=
      (∅ : Table String SavedGroup).insert "r" { RoomSettings.default with password := none }
    roomSettings := (∅ : Table String RoomSettings).insert "r" .default
    privateMessages :=
      [{ peerId := "c", senderIsMe := true, text := "hi", timestamp := 0, ttl := none }]
    roomInvites := (∅ : Table String InviteRow).insert "i"
      { roomId := "r", tokenJson := "", revoked := false, uses := 0, createdAt := 0 }
    roomRoles := (∅ : Table (String × String) String).insert ("r", "owner") "{}"
    permissionGrants :=
      (∅ : Table (String × String × String) String).insert ("r", "b", "owner") "{}"
    revokedInvites :=
      (∅ : Table String RevokedRow).insert "j" { revokedAt := 0, revokedBy := "c" } }

/-- "b" lets strangers make contact, and has a new room open. -/
def openHost : Host Key32 Bytes OpDoc where
  loop := openLoop.setConn furnished
  room := newRoom roomLibraries 2 "r" none
  currentTopicName := "r"

/-- A stranger has sent a message without a token, something has been published as a revocation, and
    the friend has answered. -/
theorem remote_untouched_stranger : ∃ h,
    Reach (fun s => s = openHost) (RemoteStep plain32 wire32 noHash .numbered roomLibraries) h ∧
    h.loop.powFailures "m" = 1 ∧ h.loop.node.conn.privateMessages.length = 2 ∧
    Untouched "r" furnished h.loop.node.conn ∧ SameSession openHost h := by
  let knocked : RemoteEvent Key32 Nat :=
    .request allRead relayedTurn "m" (.privateMessage "hi" "m" 0 none none)
  let published : RemoteEvent Key32 Nat := .gossip noFaults REVOCATION_TOPIC [0] 1 0
  let answered : RemoteEvent Key32 Nat :=
    .request allRead relayedTurn "c" (.privateMessage "hello" "carla" 0 none none)
  obtain ⟨h, hr, hcount, hsaved⟩ : ∃ h, Reach (fun s => s = openHost)
      (RemoteStep plain32 wire32 noHash .numbered roomLibraries) h ∧ h.loop.powFailures "m" = 1 ∧
      h.loop.node.conn.privateMessages.length = 2 := by
    refine ⟨_, .step _ answered _ (.step _ published _ (.step _ knocked _ (.start _ rfl) rfl) rfl)
      rfl, ?_, ?_⟩
    · decide +kernel
    · decide +kernel
  exact ⟨h, hr, hcount, hsaved, remote_untouched hr⟩

end AlterChat.RemoteInput
