import AlterChat.Tauri.ExactlyOnce
import AlterChat.Tauri.Inbound

/-!
# Onions on their way

What the arm `OnionForward` hands on, and what becomes of a direct message that `SendPrivateMessage`
puts into an onion.

* §1 `forwards_cases` -- it hands on one packet at most, the one it has peeled out;
* §2 `forwarding_ends` -- each hop makes a packet shorter;
* §3 what the sender puts into an onion, §4 what its receiver makes of it: nothing, since a sealed
  message is read only where a `RatchetPrivateMessage` is in it;
* §5 `onion_delivers_iff` -- the onion does what the direct request does only where that does
  nothing;
* §6 two friends and a relay.
-/

namespace AlterChat.Inbound

open Lib Db DoubleRatchet Crypto Onion Requests DirectMessages

variable {Key : Type}

/-! ## 1. What is handed on -/

/-- The packets among the requests that are sent, with whom they go to. -/
def forwards (effects : List (NetEffect Key)) : List (String × Bytes) :=
  effects.filterMap fun
    | .sendRequest peerId (.onionForward packet) => some (peerId, packet)
    | _ => none

section

variable {P : Primitives Key} {W : NetWire Key} {f : Faults} {n : Node Key}

/-- A legacy message that was read is only announced. -/
theorem ratchetMessage_effect {peerId senderNick : String} {envelope : Bytes} {timestamp : Int64}
    {ttl : Option Int64} {conn : Database} {e : NetEffect Key}
    (h : ratchetMessage P W f n peerId envelope senderNick timestamp ttl = some (conn, e)) :
    ∃ text, e = .newPrivateMessage peerId senderNick text timestamp ttl := by
  obtain ⟨_, _, _, _, _, text, -, -, -, -, -, -, rfl⟩ := ratchetMessage_some h
  exact ⟨text, rfl⟩

theorem onionPayload_forwards (payload : Bytes) :
    forwards (onionPayload P W f n payload).2 = [] := by
  unfold onionPayload
  split
  · rfl
  · split
    · rfl
    · split
      · split
        · rfl
        · next h =>
          obtain ⟨text, rfl⟩ := ratchetMessage_effect h
          rfl
      · rfl

/-- **What the arm hands on**: nothing, or the packet inside the one it was given. -/
theorem forwards_cases (P : Primitives Key) (W : NetWire Key) (f : Faults) (n : Node Key)
    (peer : String) (packet : Bytes) :
    forwards (onionForward P W f n peer packet).2 = [] ∨
    ∃ onionPacket layer inner nextPeer, (packetLayout W.key).decode packet = some onionPacket ∧
      peelOnion P W.key n.offlineSecretBytes onionPacket = .ok layer ∧
      layer.innerPacket = some inner ∧
      forwards (onionForward P W f n peer packet).2 =
        [(nextPeer, (packetLayout W.key).bytes inner)] := by
  unfold onionForward
  simp only
  split
  · exact .inl rfl
  · next onionPacket hpacket =>
    split
    · exact .inl rfl
    · next layer hlayer =>
      split
      · next nextHop inner hnext hinner =>
        split
        · exact .inl rfl
        · next nextPeer _ =>
          exact .inr ⟨onionPacket, layer, inner, nextPeer, hpacket, hlayer, hinner, rfl⟩
      · exact .inl rfl
      · next payload _ _ =>
        refine .inl ?_
        have h := onionPayload_forwards (P := P) (W := W) (f := f) (n := n) payload
        simp only [forwards, List.filterMap_append] at h ⊢
        rw [h]
        rfl
      · exact .inl rfl

/-! ## 2. Forwarding ends -/

/-- A packet after some nodes have handed it on, one after the other; any nodes, in any order. -/
inductive HandedOn (P : Primitives Key) (W : NetWire Key) (packet : Bytes) :
    Nat → Bytes → Prop where
  | start : HandedOn P W packet 0 packet
  | hop (f : Faults) (n : Node Key) (peer nextPeer : String) (hops : Nat) (received handed : Bytes)
      (h : HandedOn P W packet hops received)
      (hs : (nextPeer, handed) ∈ forwards (onionForward P W f n peer received).2) :
      HandedOn P W packet (hops + 1) handed

/-- **A hop makes a packet shorter.** -/
theorem forwards_shorter (hopen : ∀ k n c m, P.aeadOpen k n c = some m → m.length ≤ c.length)
    {peer nextPeer : String} {received handed : Bytes}
    (h : (nextPeer, handed) ∈ forwards (onionForward P W f n peer received).2) :
    handed.length < received.length := by
  rcases forwards_cases P W f n peer received with hnone | ⟨onionPacket, layer, inner, nextPeer',
    hpacket, hlayer, hinner, hone⟩
  · rw [hnone] at h
    cases h
  · rw [hone, List.mem_singleton] at h
    cases h
    have hpeel := peelOnion_shorter hopen hlayer hinner
    have hread := (packetLayout W.key).decode_length_le hpacket
    omega

/-- **Onion forwarding ends**: what is handed on is shorter than what was received, at most one
    packet for each; so no packet makes more hops than it has bytes, whatever the nodes it names. -/
theorem forwarding_ends (P : Primitives Key)
    (hopen : ∀ k n c m, P.aeadOpen k n c = some m → m.length ≤ c.length) (W : NetWire Key) :
    (∀ (f : Faults) (n : Node Key) (peer nextPeer : String) (received handed : Bytes),
      (nextPeer, handed) ∈ forwards (onionForward P W f n peer received).2 →
        handed.length < received.length) ∧
    (∀ (f : Faults) (n : Node Key) (peer : String) (received : Bytes),
      (forwards (onionForward P W f n peer received).2).length ≤ 1) ∧
    ∀ (packet : Bytes) (hops : Nat) (handed : Bytes), HandedOn P W packet hops handed →
      hops + handed.length ≤ packet.length := by
  refine ⟨fun f n peer nextPeer received handed h => forwards_shorter hopen h, ?_, ?_⟩
  · intro f n peer received
    rcases forwards_cases P W f n peer received with hnone | ⟨_, _, _, _, _, _, _, hone⟩
    · rw [hnone]
      exact Nat.zero_le 1
    · rw [hone]
      exact Nat.le_refl 1
  · intro packet hops handed h
    induction h with
    | start => rw [Nat.zero_add]
    | hop f n peer nextPeer hops received handed _ hs ih =>
      have hlt := forwards_shorter hopen hs
      omega

end

/-! ## 3. What the sender puts into an onion -/

/-- What is drawn for an onion. -/
structure OnionDraw (Key : Type) where
  ephemeral : Key
  nonce : Nonce
  /-- For a hop, by its index. -/
  layer : Nat → Key × Nonce

/-- `possible_relays`. -/
def possibleRelays (friends : List (String × Friend)) (peerId : String) : List (String × Friend) :=
  friends.filter fun r => !decide (r.1 = peerId) && r.2.offlinePubkey.isSome && !r.2.blocked

/-- The block under `use_onion`: the relay the packet goes to, and its bytes. It is `none` where the
    command goes on to send directly, and where `wrap_onion` panics. -/
def onionBlock (P : Primitives Key) (W : NetWire Key) (d : OnionDraw Key) (n : Node Key)
    (friends : List (String × Friend)) (peerId : String) (pk : Key) (timestamp : Int64)
    (req : X3dhDm Key) : Option (String × Bytes) :=
  let reqBytes := (requestLayout W.key).bytes (x3dhDmRequest req)
  let relays := possibleRelays friends peerId
  -- `timestamp as usize`
  match relays[timestamp.toUInt64.toNat % relays.length]? with
  | none => none
  | some (relayId, relay) =>
    match relay.offlinePubkey.bind W.x25519Hex.dec with
    | none => none
    | some relayPk =>
      match W.parsePeerId relayId with
      | none => none
      | some relayPeerId =>
        match sealedSend P W.key d.ephemeral d.nonce n.offlineSecretBytes n.myPeerId pk
          reqBytes with
        | .error _ => none
        | .ok sealedMsg =>
          match wrapOnion P W.key d.layer [(relayId, relayPk), (peerId, pk)]
              ((sealedLayout W.key).bytes sealedMsg) with
          | .error _ => none
          | .ok packet => some (relayPeerId, (packetLayout W.key).bytes packet)

/-- The command's arguments with that block, for the key in the peer's row. -/
def throughOnion (P : Primitives Key) (W : NetWire Key) (f : Faults) (n : Node Key)
    (peerId : String) (a : SendArgs Key) (d : OnionDraw Key) : SendArgs Key :=
  let friends := (getFriends f n.conn).toOption.getD []
  { a with
    onion := fun req =>
      ((friends.find? fun r => decide (r.1 = peerId)).bind fun r =>
        r.2.offlinePubkey.bind W.x25519Hex.dec).bind fun pk =>
          onionBlock P W d n friends peerId pk a.timestamp req }

/-- `SendPrivateMessage` with that block. -/
def sendThroughOnion (P : Primitives Key) (W : NetWire Key) (f : Faults) (n : Node Key)
    (peerId : String) (a : SendArgs Key) (d : OnionDraw Key) : Database × List (DmEffect Key) :=
  sendPrivateMessage P W.toDmWire f n peerId (throughOnion P W f n peerId a d)

section

variable {P : Primitives Key} {W : NetWire Key} {C : DmWire Key} {f : Faults} {n : Node Key}
  {peerId relay : String} {a : SendArgs Key} {d : OnionDraw Key} {packet : Bytes} {req : X3dhDm Key}

/-- A request goes to a relay only as the block has wrapped it. -/
theorem sendPrivateMessage_onion
    (h : .onionForward relay packet req ∈ (sendPrivateMessage P C f n peerId a).2) :
    a.onion req = some (relay, packet) := by
  unfold sendPrivateMessage at h
  generalize getPeerSettings f n.conn peerId = q at h
  obtain ⟨settings, conn⟩ := q
  simp only at h
  split at h
  · simp at h
  · split at h
    · simp at h
    · split at h
      · simp at h
      · split at h
        · simp at h
        · split at h
          · simp at h
          · split at h
            · simp at h
            · next envelope state _ =>
              rw [List.mem_singleton] at h
              split at h
              · next relay' packet' hway =>
                cases h
                split at hway
                · exact hway
                · cases hway
              · cases h

/-- What the block returns has been wrapped for one relay and the peer. -/
theorem onionBlock_some {friends : List (String × Friend)} {pk : Key} {timestamp : Int64}
    (h : onionBlock P W d n friends peerId pk timestamp req = some (relay, packet)) :
    ∃ relayId friend relayPk sealedMsg onionPacket,
      (relayId, friend) ∈ possibleRelays friends peerId ∧
      friend.offlinePubkey.bind W.x25519Hex.dec = some relayPk ∧
      W.parsePeerId relayId = some relay ∧
      sealedSend P W.key d.ephemeral d.nonce n.offlineSecretBytes n.myPeerId pk
        ((requestLayout W.key).bytes (x3dhDmRequest req)) = .ok sealedMsg ∧
      wrapOnion P W.key d.layer [(relayId, relayPk), (peerId, pk)]
        ((sealedLayout W.key).bytes sealedMsg) = .ok onionPacket ∧
      packet = (packetLayout W.key).bytes onionPacket := by
  simp only [onionBlock] at h
  split at h
  · cases h
  · next relayId friend hat =>
    split at h
    · cases h
    · next relayPk hpk =>
      split at h
      · cases h
      · next relayPeerId hparse =>
        split at h
        · cases h
        · next sealedMsg hsealed =>
          split at h
          · cases h
          · next onionPacket hwrap =>
            cases h
            exact ⟨relayId, friend, relayPk, sealedMsg, onionPacket, List.mem_of_getElem? hat, hpk,
              hparse, hsealed, hwrap, rfl⟩

/-- A row of `get_friends`. -/
theorem mem_getFriends {r : String × Friend} (h : r ∈ (getFriends f n.conn).toOption.getD []) :
    n.conn.friends.lookup r.1 = some r.2 := by
  unfold getFriends query at h
  split at h
  · cases h
  · obtain ⟨row, hrow, rfl⟩ := List.mem_map.mp h
    exact AList.mem_lookup_iff.mpr hrow

end

/-! ## 4. What its receiver makes of it -/

section

variable {P : Primitives Key} {W : NetWire Key} {f : Faults} {n n' : Node Key} {req : X3dhDm Key}
  {payload padding : Bytes} {packet : OnionPacket Key}

/-- A relay hands on the packet it finds inside. -/
theorem wrapped_handsOn (hP : P.Lawful) (hgcm : P.Gcm) {nextHop : String} {inner : OnionPacket Key}
    (h : WrappedHop P W.key (P.publicKey n.offlineSecretBytes) payload
      (some (nextHop, inner)) padding
      packet) {peer : String} {q : String × Bytes}
    (hq : q ∈ forwards (onionForward P W f n peer ((packetLayout W.key).bytes packet)).2) :
    q.2 = (packetLayout W.key).bytes inner := by
  rcases forwards_cases P W f n peer ((packetLayout W.key).bytes packet) with hnone |
    ⟨packet', layer, inner', nextPeer, hpacket, hlayer, hinner, hone⟩
  · rw [hnone] at hq
    cases hq
  · rw [h.decode hgcm] at hpacket
    cases hpacket
    rw [h.peel hP fun m => (hgcm.accepts_iff m).mp] at hlayer
    cases hlayer
    cases hinner
    rw [hone, List.mem_singleton] at hq
    rw [hq]

/-- The payload of the onion: a sealed message with an `X3dhDm` in it. It is opened and dropped. -/
theorem onionPayload_x3dhDm (hP : P.Lawful) (hgcm : P.Gcm) {d : OnionDraw Key}
    {sealedMsg : SealedMessage Key}
    (h : sealedSend P W.key d.ephemeral d.nonce n.offlineSecretBytes n.myPeerId
      (P.publicKey n'.offlineSecretBytes) ((requestLayout W.key).bytes (x3dhDmRequest req)) =
        .ok sealedMsg) :
    onionPayload P W f n' ((sealedLayout W.key).bytes sealedMsg) = (n'.conn, []) := by
  have hlimit : ∀ m, P.accepts m = true → m.length ≤ maxPlaintext :=
    fun m => (hgcm.accepts_iff m).mp
  have henc := sealedSend_ok_iff.mp h
  have hread : (sealedLayout W.key).decode ((sealedLayout W.key).bytes sealedMsg) =
      some sealedMsg :=
    (sealedLayout W.key).decode_bytes ((payload_fits W.key _).mpr (ciphertext_short hgcm henc))
  have hreq : (requestLayout W.key).decode ((requestLayout W.key).bytes (x3dhDmRequest req)) =
      some (x3dhDmRequest req) := by
    have hmax := hlimit _ (encryptForPeer_ok_iff.mp henc).1
    have hge := inner_length_ge (K := W.key) ⟨P.publicKey n.offlineSecretBytes, n.myPeerId,
      (requestLayout W.key).bytes (x3dhDmRequest req)⟩
    simp only at hge
    exact (requestLayout W.key).decode_bytes (x3dhDm_fits <|
      lt_of_accepts (n := ((requestLayout W.key).bytes (x3dhDmRequest req)).length) hmax (by omega))
  simp only [onionPayload, hread, sealedReceive_sealedSend hP hlimit h, hreq]
  rfl

/-- **The receiver takes the onion for itself, and writes nothing.** -/
theorem wrapped_dropped (hP : P.Lawful) (hgcm : P.Gcm)
    (h : WrappedHop P W.key (P.publicKey n.offlineSecretBytes) payload none padding packet)
    (hpayload : onionPayload P W f n payload = (n.conn, [])) (peer : String) :
    (onionForward P W f n peer ((packetLayout W.key).bytes packet)).1 = n.conn := by
  simp only [onionForward, h.decode hgcm, h.peel hP fun m => (hgcm.accepts_iff m).mp, hopLayer,
    hpayload]

end

/-! ## 5. The onion and the direct request -/

section

variable [DecidableEq Key] [Zero Key]

/-- The receiver after the request has come from the sender itself. -/
def direct (P : Primitives Key) (W : NetWire Key) (hashOf : Bytes → String)
    (recipient : EventLoop Key) (t : Turn Key) (sender : String) (req : X3dhDm Key) :
    EventLoop Key :=
  (handleRequest P W hashOf allRead recipient t sender (x3dhDmRequest req)).1

/-- The receiver after the relay has been given the onion, and it each packet that the relay hands
    on to it. -/
def viaOnion (P : Primitives Key) (W : NetWire Key) (hashOf : Bytes → String) (f : Stage → Faults)
    (relay recipient : EventLoop Key) (tr t : Turn Key) (sender : String) (packet : Bytes) :
    EventLoop Key :=
  (forwards (handleRequest P W hashOf f relay tr sender (.onionForward packet)).2).foldl
    (fun l q =>
      if q.1 = recipient.node.myPeerId then
        (handleRequest P W hashOf allRead l t relay.node.myPeerId (.onionForward q.2)).1
      else l) recipient

/-- The same messages and the same ratchet states. -/
def SameMessages (l l' : EventLoop Key) : Prop :=
  l.node.conn.privateMessages = l'.node.conn.privateMessages ∧
    l.node.conn.ratchetStates = l'.node.conn.ratchetStates

/-- What one state encrypts the other decrypts. -/
def Complements (P : Primitives Key) (newSecret : Key) (s r : DrState Key) : Prop :=
  ∀ nonce m e s', encrypt P nonce s m = (.ok e, s') → (decrypt P newSecret r e).1 = .ok m

/-- A direct message that has gone out through a relay: the sender has the relay's key and its
    peer's, the peer has the sender's, and the states the two load are complementary. -/
structure SentThrough (P : Primitives Key) (W : NetWire Key) (f : Faults) (n : Node Key)
    (a : SendArgs Key) (d : OnionDraw Key) (relay recipient : EventLoop Key) (t : Turn Key)
    (packet : Bytes) (req : X3dhDm Key) : Prop where
  sent : .onionForward relay.node.myPeerId packet req ∈
    (sendThroughOnion P W f n recipient.node.myPeerId a d).2
  relayKey : ∀ id pk, W.parsePeerId id = some relay.node.myPeerId →
    FriendKey W.toDmWire n.conn id pk → pk = P.publicKey relay.node.offlineSecretBytes
  peerKey : FriendKey W.toDmWire n.conn recipient.node.myPeerId
    (P.publicKey recipient.node.offlineSecretBytes)
  senderKey : ∃ friend, recipient.node.conn.friends.lookup n.myPeerId = some friend ∧
    friend.offlinePubkey.bind W.x25519Hex.dec = some (P.publicKey n.offlineSecretBytes)
  complementary : Complements P t.newSecret
    (loadOrInitDrState P W.toDmWire f n.conn recipient.node.myPeerId n.offlineSecretBytes
      (P.publicKey recipient.node.offlineSecretBytes)
      (decide (n.myPeerId < recipient.node.myPeerId)) a.drawn)
    (loadOrInitDrState P W.toDmWire noFaults recipient.node.conn n.myPeerId
      recipient.node.offlineSecretBytes (P.publicKey n.offlineSecretBytes)
      (decide (n.myPeerId < recipient.node.myPeerId)) t.drawn)

/-- The receiver takes direct requests from the sender: its gate lets them in, and the sender is a
    friend that is not blocked. -/
def Receives (recipient : EventLoop Key) (nowMs : Int64) (sender : String) : Prop :=
  (requestGate allRead recipient nowMs sender).1 = .admitted ∧
    ∃ friend, recipient.node.conn.friends.lookup sender = some friend ∧ friend.blocked = false

variable {P : Primitives Key} {W : NetWire Key} {f : Faults} {n : Node Key} {a : SendArgs Key}
  {d : OnionDraw Key} {relay recipient : EventLoop Key} {t : Turn Key} {packet : Bytes}
  {req : X3dhDm Key}

/-- The request that was wrapped, and its layers. -/
theorem SentThrough.wrapped (h : SentThrough P W f n a d relay recipient t packet req) :
    ∃ sealedMsg outer inner padding padding', packet = (packetLayout W.key).bytes outer ∧
      sealedSend P W.key d.ephemeral d.nonce n.offlineSecretBytes n.myPeerId
        (P.publicKey recipient.node.offlineSecretBytes)
        ((requestLayout W.key).bytes (x3dhDmRequest req)) = .ok sealedMsg ∧
      WrappedHop P W.key (P.publicKey relay.node.offlineSecretBytes)
        ((sealedLayout W.key).bytes sealedMsg)
        (some (recipient.node.myPeerId, inner)) padding outer ∧
      WrappedHop P W.key (P.publicKey recipient.node.offlineSecretBytes)
        ((sealedLayout W.key).bytes sealedMsg) none padding' inner := by
  have hway := sendPrivateMessage_onion h.sent
  obtain ⟨pk, hpk, hblock⟩ := Option.bind_eq_some_iff.mp hway
  obtain ⟨row, hfind, hdec⟩ := Option.bind_eq_some_iff.mp hpk
  obtain ⟨friend', hlookup', -, hdec'⟩ := h.peerKey
  have hrow := mem_getFriends (List.mem_of_find?_eq_some hfind)
  have hid : row.1 = recipient.node.myPeerId := by simpa using List.find?_some hfind
  rw [hid, hlookup'] at hrow
  cases hrow
  rw [hdec'] at hdec
  cases hdec
  obtain ⟨relayId, friend, relayPk, sealedMsg, outer, hmem, hrelayPk, hparse, hsealed,
    hwrap, rfl⟩ :=
    onionBlock_some hblock
  obtain ⟨hfriend, hcond⟩ := List.mem_filter.mp hmem
  simp only [Bool.and_eq_true, Bool.not_eq_true'] at hcond
  have hkey := h.relayKey relayId relayPk hparse ⟨friend, mem_getFriends hfriend, hcond.2, hrelayPk⟩
  subst hkey
  have hw := wrapOnion_wrapped hwrap
  cases hw with
  | hop hop next rest inner padding packet hi hhop =>
    cases hi with
    | last hop padding' packet hlast =>
      exact ⟨sealedMsg, outer, inner, padding, padding', rfl, hsealed, hhop, hlast⟩

/-- An onion at the gate: nothing more, or what the arm does with the messages and states there
    are. -/
theorem handleRequest_onion (P : Primitives Key) (W : NetWire Key) (hashOf : Bytes → String)
    (fr : Stage → Faults) (l : EventLoop Key) (t : Turn Key) (peer : String) (packet : Bytes) :
    ∃ m : Node Key, m.offlineSecretBytes = l.node.offlineSecretBytes ∧
      m.conn.privateMessages = l.node.conn.privateMessages ∧
      m.conn.ratchetStates = l.node.conn.ratchetStates ∧
      ((handleRequest P W hashOf fr l t peer (.onionForward packet)).1.node = m ∧
          forwards (handleRequest P W hashOf fr l t peer (.onionForward packet)).2 = [] ∨
        (handleRequest P W hashOf fr l t peer (.onionForward packet)).1.node =
            { m with conn := (onionForward P W (fr .arm) m peer packet).1 } ∧
          forwards (handleRequest P W hashOf fr l t peer (.onionForward packet)).2 =
            forwards (onionForward P W (fr .arm) m peer packet).2) := by
  obtain ⟨table, buckets, hgate⟩ := requestGate_frame fr l t.nowMs peer
  refine ⟨{ l.node with conn := { l.node.conn with peerSettings := table } }, rfl, rfl, rfl, ?_⟩
  unfold handleRequest
  generalize requestGate fr l t.nowMs peer = g at hgate
  obtain ⟨verdict, l'⟩ := g
  obtain rfl : l' = _ := hgate
  cases verdict with
  | refused => exact .inl ⟨rfl, rfl⟩
  | rateLimited => exact .inl ⟨rfl, rfl⟩
  | admitted => exact .inr ⟨rfl, rfl⟩

/-- Receiving an onion that holds a direct message changes no message and no state. -/
theorem SentThrough.viaOnion_same (hP : P.Lawful) (hgcm : P.Gcm)
    (h : SentThrough P W f n a d relay recipient t packet req) (hashOf : Bytes → String)
    (fr : Stage → Faults) (tr : Turn Key) :
    SameMessages (viaOnion P W hashOf fr relay recipient tr t n.myPeerId packet) recipient := by
  obtain ⟨sealedMsg, outer, inner, padding, padding', rfl, hsealed, houter, hinner⟩ := h.wrapped
  have hforwards : ∀ q ∈ forwards (handleRequest P W hashOf fr relay tr n.myPeerId
      (.onionForward ((packetLayout W.key).bytes outer))).2,
      q.2 = (packetLayout W.key).bytes inner := by
    intro q hq
    obtain ⟨m, hsecret, -, -, ⟨-, hnone⟩ | ⟨-, hsome⟩⟩ :=
      handleRequest_onion P W hashOf fr relay tr n.myPeerId ((packetLayout W.key).bytes outer)
    · rw [hnone] at hq
      cases hq
    · rw [hsome] at hq
      rw [← hsecret] at houter
      exact wrapped_handsOn hP hgcm houter hq
  -- along the packets handed on, the receiver keeps its messages, its states and its secret
  refine (List.foldlRecOn (motive := fun l => SameMessages l recipient ∧
    l.node.offlineSecretBytes = recipient.node.offlineSecretBytes) _ _ ⟨⟨rfl, rfl⟩, rfl⟩ ?_).1
  intro l hl q hq
  by_cases hid : q.1 = recipient.node.myPeerId
  · rw [if_pos hid, hforwards q hq]
    obtain ⟨m, hsecret, hmessages, hstates, ⟨hnode, -⟩ | ⟨hnode, -⟩⟩ :=
      handleRequest_onion P W hashOf allRead l t relay.node.myPeerId
        ((packetLayout W.key).bytes inner)
    · rw [SameMessages, hnode, hmessages, hstates, hsecret]
      exact hl
    · have hkey := hsecret.trans hl.2
      rw [← hkey] at hsealed hinner
      have hdropped := wrapped_dropped (f := allRead .arm) hP hgcm hinner
        (onionPayload_x3dhDm hP hgcm hsealed) relay.node.myPeerId
      rw [SameMessages, hnode, hdropped, hmessages, hstates, hsecret]
      exact hl
  · rw [if_neg hid]
    exact hl

/-- A direct request at the gate, and what its arm writes. -/
theorem direct_cases (P : Primitives Key) (W : NetWire Key) (hashOf : Bytes → String)
    (recipient : EventLoop Key) (t : Turn Key) (sender : String) (req : X3dhDm Key) :
    ∃ m : Node Key, (∃ table,
        m = { recipient.node with conn := { recipient.node.conn with peerSettings := table } }) ∧
      ((requestGate allRead recipient t.nowMs sender).1 ≠ .admitted ∧
          (direct P W hashOf recipient t sender req).node = m ∨
        (requestGate allRead recipient t.nowMs sender).1 = .admitted ∧
          (direct P W hashOf recipient t sender req).node.conn =
            (x3dhDm P W.toDmWire noFaults m sender req t.drawn t.newSecret).1) := by
  obtain ⟨table, buckets, hgate⟩ := requestGate_frame allRead recipient t.nowMs sender
  refine ⟨_, ⟨table, rfl⟩, ?_⟩
  unfold direct handleRequest
  generalize requestGate allRead recipient t.nowMs sender = g at hgate
  obtain ⟨verdict, l'⟩ := g
  obtain rfl : l' = _ := hgate
  cases verdict with
  | refused => exact .inl ⟨fun h => (by cases h), rfl⟩
  | rateLimited => exact .inl ⟨fun h => (by cases h), rfl⟩
  | admitted => exact .inr ⟨rfl, rfl⟩

/-- **A direct request is read** where its receiver takes requests from the sender. -/
theorem SentThrough.direct_more (h : SentThrough P W f n a d relay recipient t packet req)
    (hashOf : Bytes → String) (hreceives : Receives recipient t.nowMs n.myPeerId) :
    ∃ row, (direct P W hashOf recipient t n.myPeerId req).node.conn.privateMessages =
      recipient.node.conn.privateMessages ++ [row] := by
  obtain ⟨hadmitted, friend', hlookup', hblocked⟩ := hreceives
  obtain ⟨friend, hlookup, hdec⟩ := h.senderKey
  rw [hlookup'] at hlookup
  cases hlookup
  have hsent : req ∈ requests (sendThroughOnion P W f n recipient.node.myPeerId a d).2 :=
    List.mem_filterMap.mpr ⟨.onionForward relay.node.myPeerId packet req, h.sent, rfl⟩
  unfold sendThroughOnion at hsent
  rcases sendPrivateMessage_cases P W.toDmWire f n recipient.node.myPeerId _ with
    ⟨-, hnone⟩ | ⟨pk, envelope, state, conn, hkey, henc, hreq, -⟩
  · rw [hnone] at hsent
    cases hsent
  · rw [hreq, List.mem_singleton] at hsent
    obtain rfl := hkey.inj h.peerKey
    have hread := h.complementary _ _ _ _ henc
    obtain ⟨m, ⟨table, rfl⟩, ⟨hnot, -⟩ | ⟨-, hconn⟩⟩ :=
      direct_cases P W hashOf recipient t n.myPeerId req
    · exact absurd hadmitted hnot
    · have henv : W.envelopeBytes.dec req.drEnvelope = some envelope := by
        rw [hsent]
        exact W.envelopeBytes.dec_enc envelope
      have hfriend : FriendKey W.toDmWire { recipient.node.conn with peerSettings := table }
          n.myPeerId (P.publicKey n.offlineSecretBytes) := ⟨friend', hlookup', hblocked, hdec⟩
      have hstates : { recipient.node.conn with peerSettings := table }.ratchetStates =
          recipient.node.conn.ratchetStates := rfl
      rw [← loadOrInitDrState_congr hstates] at hread
      have hwrites := x3dhDm_read
        (n := { recipient.node with conn := { recipient.node.conn with peerSettings := table } })
        rfl hfriend henv (Prod.ext hread rfl)
      rw [hconn, hwrites, saveDrState_frame]
      obtain ⟨index, hsave⟩ := savePrivateMessage_frame noFaults
        { recipient.node.conn with peerSettings := table } n.myPeerId false a.text req.timestamp
        req.ttl
      exact ⟨_, congrArg Database.privateMessages hsave⟩

/-- Where its receiver does not, nothing is written. -/
theorem direct_same (P : Primitives Key) (W : NetWire Key) (hashOf : Bytes → String)
    (req : X3dhDm Key) (h : ¬ Receives recipient t.nowMs n.myPeerId) :
    SameMessages (direct P W hashOf recipient t n.myPeerId req) recipient := by
  obtain ⟨m, ⟨table, rfl⟩, ⟨-, hnode⟩ | ⟨hadmitted, hconn⟩⟩ :=
    direct_cases P W hashOf recipient t n.myPeerId req
  · rw [SameMessages, hnode]
    exact ⟨rfl, rfl⟩
  · rcases x3dhDm_cases P W.toDmWire noFaults
      { recipient.node with conn := { recipient.node.conn with peerSettings := table } } n.myPeerId
      req t.drawn t.newSecret with hnone | ⟨pk, _, _, _, _, ⟨friend, hlookup, hblocked, -⟩, -⟩
    · rw [SameMessages, hconn, hnone]
      exact ⟨rfl, rfl⟩
    · exact absurd ⟨hadmitted, friend, hlookup, hblocked⟩ h

/-- **The onion path delivers what the direct path delivers exactly where that delivers nothing**:
    where the receiver takes no request from the sender. Everywhere else the direct request is read
    and the same request from an onion is not. -/
theorem onion_delivers_iff (hP : P.Lawful) (hgcm : P.Gcm)
    (h : SentThrough P W f n a d relay recipient t packet req) (hashOf : Bytes → String)
    (fr : Stage → Faults) (tr : Turn Key) :
    SameMessages (viaOnion P W hashOf fr relay recipient tr t n.myPeerId packet)
        (direct P W hashOf recipient t n.myPeerId req) ↔
      ¬ Receives recipient t.nowMs n.myPeerId := by
  obtain ⟨hmessages, hstates⟩ := h.viaOnion_same hP hgcm hashOf fr tr
  constructor
  · intro hsame hreceives
    obtain ⟨row, hmore⟩ := h.direct_more hashOf hreceives
    have heq := hsame.1
    rw [hmessages, hmore] at heq
    exact List.cons_ne_nil row [] (List.self_eq_append_right.mp heq)
  · intro hnot
    obtain ⟨hdirect, hdirect'⟩ := direct_same P W hashOf req hnot
    exact ⟨hmessages.trans hdirect.symm, hstates.trans hdirect'.symm⟩

end

/-! ## 6. Two friends and a relay -/

/-- `init_alice` and `init_bob` are complementary. -/
theorem initAlice_initBob [DecidableEq Key] [Zero Key] {P : Primitives Key} (hP : P.Lawful)
    (sk secret bobSecret newSecret : Key) :
    Complements P newSecret (initAlice P secret sk (P.publicKey bobSecret))
      (initBob sk bobSecret (P.publicKey bobSecret)) := by
  intro nonce m e s' henc
  have hm := accepts_of_encrypt_ok henc
  rw [encrypt_ok nonce rfl hm] at henc
  cases henc
  rw [decrypt_ratchet rfl rfl (Nat.zero_le _) (Nat.zero_le _)]
  have hkey : ratchetChain P (initBob sk bobSecret (P.publicKey bobSecret)) (P.publicKey secret) =
      (kdfRk P sk (P.diffieHellman secret (P.publicKey bobSecret))).2 := by
    rw [ratchetChain, hP.dh_comm secret bobSecret]
    rfl
  show decryptWithKey P (messageKey P (ratchetChain P _ (P.publicKey secret)) 0) _ = _
  rw [hkey, messageKey, chainKey_zero]
  simp only [decryptWithKey, hP.open_seal]

/-- A profile that runs. -/
def loopOf (node : Node Key) : EventLoop Key where
  node
  unknownPeerPolicy := "friends"
  rateLimitPerMinute := 30
  rateBuckets _ := []
  powFailures _ := 0

/-- The friend with the smaller id, who has a relay for a friend as well. -/
def relayedSender (P : Primitives Key) (C : DmWire Key) (sk secret bobSecret relaySecret : Key) :
    Node Key :=
  let alice := (storedPair P C sk secret bobSecret).node .alice
  { alice with
    conn :=
      { alice.conn with
        friends := alice.conn.friends.insert "r"
          { nickname := "relay", offlinePubkey := some (C.x25519Hex.enc (P.publicKey relaySecret))
            trustLevel := 0, blocked := false, muted := false, notes := none } } }

/-- The friend with the larger id, and the relay. -/
def relayedRecipient (P : Primitives Key) (C : DmWire Key) (sk secret bobSecret : Key) :
    EventLoop Key :=
  loopOf ((storedPair P C sk secret bobSecret).node .bob)

def relayLoop (P : Primitives Key) (C : DmWire Key) (secret relaySecret : Key) : EventLoop Key :=
  loopOf (friendNode C "r" "a" relaySecret (P.publicKey secret))

section

variable {P : Primitives Key} {C : DmWire Key} {sk secret bobSecret relaySecret : Key}

theorem relayedSender_friend :
    FriendKey C (relayedSender P C sk secret bobSecret relaySecret).conn "b"
      (P.publicKey bobSecret) := by
  obtain ⟨friend, hlookup, hrest⟩ := friendNode_friend C "a" "b" secret (P.publicKey bobSecret)
  have hne : "b" ≠ "r" := by decide
  exact ⟨friend, (AList.lookup_insert_ne hne).trans hlookup, hrest⟩

theorem relayedSender_relay {pk : Key}
    (h : FriendKey C (relayedSender P C sk secret bobSecret relaySecret).conn "r" pk) :
    pk = P.publicKey relaySecret := by
  obtain ⟨friend, hlookup, -, hpk⟩ := h
  have hrow := (AList.lookup_insert _).symm.trans hlookup
  cases hrow
  exact (Option.some.inj ((C.x25519Hex.dec_enc _).symm.trans hpk)).symm

theorem relayedSender_state :
    StoredState C (relayedSender P C sk secret bobSecret relaySecret).conn "b"
      (initAlice P secret sk (P.publicKey bobSecret)) := by
  obtain ⟨blob, hrow⟩ := storedState_save C
    (friendNode C "a" "b" secret (P.publicKey bobSecret)).conn "b"
    (initAlice P secret sk (P.publicKey bobSecret))
  exact ⟨blob, hrow⟩

/-- The relay is the only friend to relay through. -/
theorem relayedSender_relays (P : Primitives Key) (C : DmWire Key)
    (sk secret bobSecret relaySecret : Key) : ∃ friend,
    possibleRelays ((getFriends noFaults
      (relayedSender P C sk secret bobSecret relaySecret).conn).toOption.getD []) "b" =
        [("r", friend)] ∧
    friend.offlinePubkey.bind C.x25519Hex.dec = some (P.publicKey relaySecret) := by
  refine ⟨_, rfl, ?_⟩
  exact C.x25519Hex.dec_enc _

/-- What `init_alice` encrypts first. -/
theorem relayedSender_encrypts (P : Primitives Key) (C : DmWire Key)
    (sk secret bobSecret relaySecret : Key) {a : SendArgs Key}
    (hm : P.accepts (Codec.utf8.enc a.text) = true) (isInitiator : Bool) (drawn : Key) : ∃ state,
    encrypt P a.nonce (loadOrInitDrState P C noFaults
      (relayedSender P C sk secret bobSecret relaySecret).conn "b" secret (P.publicKey bobSecret)
      isInitiator drawn) (Codec.utf8.enc a.text) =
        (.ok (firstEnvelope P sk secret bobSecret (firstChain P sk secret bobSecret) a.nonce
          (Codec.utf8.enc a.text)), state) := by
  rw [loadOrInitDrState_stored relayedSender_state]
  exact ⟨_, encrypt_ok a.nonce rfl hm⟩

/-- A request that is short enough for one onion finds its way, if there is one relay. -/
theorem onionBlock_ok {W : NetWire Key} (hgcm : P.Gcm) (hK : ∀ k, (W.key.bytes k).length = 32)
    (d : OnionDraw Key) {n : Node Key} {friends : List (String × Friend)}
    {peerId relayId relay : String} {friend : Friend} (pk : Key) {relayPk : Key} (timestamp : Int64)
    {req : X3dhDm Key} (hrelays : possibleRelays friends peerId = [(relayId, friend)])
    (hpk : friend.offlinePubkey.bind W.x25519Hex.dec = some relayPk)
    (hparse : W.parsePeerId relayId = some relay)
    (hshort : (Codec.utf8.enc n.myPeerId).length +
      ((requestLayout W.key).bytes (x3dhDmRequest req)).length ≤ 16000)
    (hid : (Codec.utf8.enc peerId).length ≤ 1000) :
    ∃ packet, onionBlock P W d n friends peerId pk timestamp req = some (relay, packet) := by
  have hmax : 20000 ≤ maxPlaintext := by decide
  have hinner : ((innerLayout W.key).bytes ⟨P.publicKey n.offlineSecretBytes, n.myPeerId,
      (requestLayout W.key).bytes (x3dhDmRequest req)⟩).length =
        (Codec.utf8.enc n.myPeerId).length +
          ((requestLayout W.key).bytes (x3dhDmRequest req)).length + 48 := by
    simp only [innerLayout, Layout.record_bytes, innerFields, Equiv.coe_fn_mk, Layout.pair_length,
      Layout.string_length, Layout.bytes_length, hK]
    omega
  obtain ⟨outer, houter⟩ : ∃ outer, encryptForPeer P d.ephemeral d.nonce pk
      ((innerLayout W.key).bytes ⟨P.publicKey n.offlineSecretBytes, n.myPeerId,
        (requestLayout W.key).bytes (x3dhDmRequest req)⟩) = .ok outer :=
    ⟨_, encryptForPeer_ok_iff.mpr ⟨(hgcm.accepts_iff _).mpr (by omega), rfl⟩⟩
  have hsealed : sealedSend P W.key d.ephemeral d.nonce n.offlineSecretBytes n.myPeerId pk
      ((requestLayout W.key).bytes (x3dhDmRequest req)) = .ok ⟨outer⟩ :=
        sealedSend_ok_iff.mpr houter
  have hlen : ((sealedLayout W.key).bytes ⟨outer⟩).length =
      (Codec.utf8.enc n.myPeerId).length +
        ((requestLayout W.key).bytes (x3dhDmRequest req)).length + 116 := by
    show ((payloadLayout W.key).bytes outer).length = _
    rw [payload_length hK, (encryptForPeer_ok_iff.mp houter).2, hgcm.seal_length, hinner]
  have hsize : layerSize ((sealedLayout W.key).bytes ⟨outer⟩).length
      [(relayId, relayPk), (peerId, pk)] ≤ maxPlaintext := by
    rw [layerSize, layerSize, targetSize, if_pos (by rw [hlen]; omega)]
    simp only
    omega
  obtain ⟨packet, hwrap⟩ := wrapOnion_ok d.layer hgcm hK
    (List.cons_ne_nil (relayId, relayPk) [(peerId, pk)])
    (.inl (by rw [hlen, targetSize]; omega)) hsize
  refine ⟨(packetLayout W.key).bytes packet, ?_⟩
  simp only [onionBlock, hrelays, List.length_singleton, Nat.mod_one, List.getElem?_cons_zero, hpk,
    hparse, hsealed, hwrap]

theorem handedOver_onion {a : SendArgs Key} {peerId relay : String} {packet : Bytes}
    {req : X3dhDm Key} (hway : a.onion req = some (relay, packet)) (honion : a.useOnion = true) :
    handedOver peerId a req = .onionForward relay packet req := by
  simp [handedOver, honion, hway]

/-- **The message goes out through the relay**, if it is short enough for one onion. -/
theorem relayed_sends {W : NetWire Key} (hgcm : P.Gcm) (hK : ∀ k, (W.key.bytes k).length = 32)
    (hparse : W.parsePeerId "r" = some "r") {a : SendArgs Key} (d : OnionDraw Key)
    (hm : P.accepts (Codec.utf8.enc a.text) = true) (honion : a.useOnion = true)
    (hshort : ∀ state, ((requestLayout W.key).bytes (x3dhDmRequest (dmRequest W.toDmWire a
      (firstEnvelope P sk secret bobSecret (firstChain P sk secret bobSecret) a.nonce
        (Codec.utf8.enc a.text)) state))).length ≤ 15000) :
    ∃ packet req, .onionForward "r" packet req ∈ (sendThroughOnion P W noFaults
      (relayedSender P W.toDmWire sk secret bobSecret relaySecret) "b" a d).2 := by
  obtain ⟨state, henc⟩ := relayedSender_encrypts P W.toDmWire sk secret bobSecret relaySecret hm
    (decide ("a" < "b")) a.drawn
  generalize firstEnvelope P sk secret bobSecret (firstChain P sk secret bobSecret) a.nonce
    (Codec.utf8.enc a.text) = envelope at henc hshort
  obtain ⟨relay, hrelays, hrelayPk⟩ :=
    relayedSender_relays P W.toDmWire sk secret bobSecret relaySecret
  have hfriend :
    FriendKey W.toDmWire (relayedSender P W.toDmWire sk secret bobSecret relaySecret).conn
      "b" (P.publicKey bobSecret) := relayedSender_friend
  have hpk : ((((getFriends noFaults (relayedSender P W.toDmWire sk secret bobSecret
      relaySecret).conn).toOption.getD []).find? fun r => decide (r.1 = "b")).bind fun r =>
        r.2.offlinePubkey.bind W.x25519Hex.dec) = some (P.publicKey bobSecret) := by
    obtain ⟨friend, hlookup, -, hdec⟩ := hfriend
    have hfind := getFriends_find_of (f := noFaults) (fun _ => true) rfl hlookup rfl
    simp only [Bool.and_true] at hfind
    rw [hfind]
    exact hdec
  have hname : (Codec.utf8.enc "a").length = 1 := by decide
  have hid : (Codec.utf8.enc "b").length ≤ 1000 := by decide
  have hlen : (Codec.utf8.enc "a").length + ((requestLayout W.key).bytes (x3dhDmRequest
      (dmRequest W.toDmWire a envelope state))).length ≤ 16000 := by
    have hreq := hshort state
    omega
  obtain ⟨packet, hblock⟩ := onionBlock_ok
    (n := relayedSender P W.toDmWire sk secret bobSecret relaySecret) hgcm hK d
    (P.publicKey bobSecret) a.timestamp hrelays hrelayPk hparse hlen hid
  have hway :
    (throughOnion P W noFaults (relayedSender P W.toDmWire sk secret bobSecret relaySecret)
      "b" a d).onion (dmRequest W.toDmWire a envelope state) = some ("r", packet) := by
    simp only [throughOnion, hpk, Option.bind_some]
    exact hblock
  have hhands := sendPrivateMessage_hands
    (n := relayedSender P W.toDmWire sk secret bobSecret relaySecret)
    (a := throughOnion P W noFaults (relayedSender P W.toDmWire sk secret bobSecret relaySecret)
      "b" a d)
    rfl rfl rfl rfl (Int64.le_refl _) hfriend henc
  refine ⟨packet, dmRequest W.toDmWire a envelope state, ?_⟩
  rw [sendThroughOnion, hhands, List.mem_singleton]
  exact (handedOver_onion hway honion).symm

theorem relayed_sentThrough [DecidableEq Key] [Zero Key] {W : NetWire Key} (hP : P.Lawful)
    (hparse : W.parsePeerId = some) {a : SendArgs Key} {d : OnionDraw Key} {t : Turn Key}
    {packet : Bytes} {req : X3dhDm Key} (hsent : .onionForward "r" packet req ∈
      (sendThroughOnion P W noFaults
        (relayedSender P W.toDmWire sk secret bobSecret relaySecret) "b" a d).2) :
    SentThrough P W noFaults (relayedSender P W.toDmWire sk secret bobSecret relaySecret) a d
      (relayLoop P W.toDmWire secret relaySecret)
      (relayedRecipient P W.toDmWire sk secret bobSecret) t
      packet req where
  sent := hsent
  relayKey id pk hid hkey := by
    rw [hparse] at hid
    cases hid
    exact relayedSender_relay hkey
  peerKey := relayedSender_friend
  senderKey := by
    obtain ⟨friend, hlookup, -, hdec⟩ :=
      friendNode_friend W.toDmWire "b" "a" bobSecret (P.publicKey secret)
    exact ⟨friend, hlookup, hdec⟩
  complementary := by
    have hbob :
      StoredState W.toDmWire (relayedRecipient P W.toDmWire sk secret bobSecret).node.conn "a"
        (initBob sk bobSecret (P.publicKey bobSecret)) :=
      storedState_save W.toDmWire
        (friendNode W.toDmWire "b" "a" bobSecret (P.publicKey secret)).conn
        "a" _
    show Complements P t.newSecret (loadOrInitDrState P W.toDmWire noFaults _ "b" _ _ _ _)
      (loadOrInitDrState P W.toDmWire noFaults _ "a" _ _ _ _)
    rw [loadOrInitDrState_stored relayedSender_state, loadOrInitDrState_stored hbob]
    exact initAlice_initBob hP sk secret bobSecret t.newSecret

end

deriving instance Encodable for RatchetState, RatchetEnvelope

/-- A message that goes through a relay. -/
def relayedArgs : SendArgs Key32 where
  text := "hi"
  senderNick := "A"
  ttl := none
  useOnion := true
  timestamp := 0
  drawn := secretOf 7
  nonce := Vector.replicate 12 0
  onion _ := none

/-- The first envelope of two friends. -/
def relayedEnvelope : DrEnvelope Key32 :=
  firstEnvelope plain32 (secretOf 9) (secretOf 1) (secretOf 2)
    (firstChain plain32 (secretOf 9) (secretOf 1) (secretOf 2)) relayedArgs.nonce
    (Codec.utf8.enc relayedArgs.text)

/-- Formats over keys of 32 bytes; the first envelope is the empty byte string. -/
def wire32 : NetWire Key32 where
  stateBytes := .ofEncodable _
  envelopeBytes := (Codec.ofEncodable _).short relayedEnvelope
  x25519Hex := .textOfEncodable _
  key := key32
  ratchetState := .ofEncodable _
  ratchetEnvelope := .ofEncodable _
  deriveKey k _ := k
  sha256 bs := bs
  parsePeerId := some
  verifyPow _ _ _ := true

theorem forwarding_ends_32 :
    (∀ (f : Faults) (n : Node Key32) (peer nextPeer : String) (received handed : Bytes),
      (nextPeer, handed) ∈ forwards (onionForward plain32 wire32 f n peer received).2 →
        handed.length < received.length) ∧
    (∀ (f : Faults) (n : Node Key32) (peer : String) (received : Bytes),
      (forwards (onionForward plain32 wire32 f n peer received).2).length ≤ 1) ∧
    ∀ (packet : Bytes) (hops : Nat) (handed : Bytes), HandedOn plain32 wire32 packet hops handed →
      hops + handed.length ≤ packet.length := by
  refine forwarding_ends plain32 (fun k n c m h => ?_) wire32
  rw [plain32_gcm.open_length k n c m h]
  exact Nat.le_add_right _ _

/-- What stands for the hash of a chunk. -/
def noHash (_ : Bytes) : String := ""

def relayedDraw : OnionDraw Key32 where
  ephemeral := secretOf 5
  nonce := Vector.replicate 12 0
  layer := sampleDraw

def relayedTurn : Turn Key32 where
  nowMs := 0
  drawn := secretOf 8
  newSecret := secretOf 4
  chunkStored := true

/-- The two friends and the relay, with keys of 32 bytes. -/
def sender32 : Node Key32 :=
  relayedSender plain32 wire32.toDmWire (secretOf 9) (secretOf 1) (secretOf 2) (secretOf 3)

def recipient32 : EventLoop Key32 :=
  relayedRecipient plain32 wire32.toDmWire (secretOf 9) (secretOf 1) (secretOf 2)

def relay32 : EventLoop Key32 := relayLoop plain32 wire32.toDmWire (secretOf 1) (secretOf 3)

theorem relayed_short (state : DrState Key32) :
    ((requestLayout wire32.key).bytes (x3dhDmRequest (dmRequest wire32.toDmWire relayedArgs
      relayedEnvelope state))).length ≤ 15000 := by
  have henv : wire32.envelopeBytes.enc relayedEnvelope = [] := Codec.short_self _ _
  have hbytes :
    (requestLayout wire32.key).bytes (x3dhDmRequest (dmRequest wire32.toDmWire relayedArgs
      relayedEnvelope state)) = le 4 5 ++ (x3dhDmLayout key32).bytes
        (none, wire32.envelopeBytes.enc relayedEnvelope, state.dhSendPub, "A", 0, none) := rfl
  have hname : (Codec.utf8.enc "A").length = 1 := by decide
  rw [hbytes, henv, List.length_append, le_length]
  simp only [x3dhDmLayout, Layout.pair_length, Layout.option_length_none, Layout.bytes_length,
    key32_length, Layout.string_length, Layout.i64_length, hname, List.length_nil]
  decide

theorem sent32 : ∃ packet req, SentThrough plain32 wire32 noFaults sender32 relayedArgs relayedDraw
    relay32 recipient32 relayedTurn packet req := by
  have hm : plain32.accepts (Codec.utf8.enc relayedArgs.text) = true := by decide
  have hsent : ∃ packet req, .onionForward "r" packet req ∈
      (sendThroughOnion plain32 wire32 noFaults sender32 "b" relayedArgs relayedDraw).2 :=
    relayed_sends plain32_gcm key32_length rfl relayedDraw hm rfl relayed_short
  obtain ⟨packet, req, hmem⟩ := hsent
  exact ⟨packet, req, relayed_sentThrough plain32_lawful rfl hmem⟩

theorem receives32 : Receives recipient32 0 "a" := by
  obtain ⟨friend, hlookup, hblocked, -⟩ :=
    friendNode_friend wire32.toDmWire "b" "a" (secretOf 2) (plain32.publicKey (secretOf 1))
  exact ⟨requestGate_admits rfl hlookup rfl 0, friend, hlookup, hblocked⟩

theorem onion_delivers_iff_32 : ∃ packet req,
    SentThrough plain32 wire32 noFaults sender32 relayedArgs relayedDraw relay32 recipient32
      relayedTurn packet req ∧
    (SameMessages
        (viaOnion plain32 wire32 noHash allRead relay32 recipient32 relayedTurn
          relayedTurn "a" packet)
        (direct plain32 wire32 noHash recipient32 relayedTurn "a" req) ↔
      ¬ Receives recipient32 0 "a") := by
  obtain ⟨packet, req, h⟩ := sent32
  exact ⟨packet, req, h, onion_delivers_iff plain32_lawful plain32_gcm h noHash allRead relayedTurn⟩

/-- **A message sent through a relay is lost**: its receiver reads the same request when it comes
    from the sender. -/
theorem onion_lost : ∃ packet req row,
    SentThrough plain32 wire32 noFaults sender32 relayedArgs relayedDraw relay32 recipient32
      relayedTurn packet req ∧
    (direct plain32 wire32 noHash recipient32 relayedTurn "a" req).node.conn.privateMessages =
      [row] ∧
    (viaOnion plain32 wire32 noHash allRead relay32 recipient32 relayedTurn relayedTurn "a"
      packet).node.conn.privateMessages = [] := by
  obtain ⟨packet, req, h⟩ := sent32
  obtain ⟨row, hrow⟩ := h.direct_more noHash receives32
  obtain ⟨hsame, -⟩ := h.viaOnion_same plain32_lawful plain32_gcm noHash allRead relayedTurn
  exact ⟨packet, req, row, h, hrow, hsame⟩

end AlterChat.Inbound
