import AlterChat.Core.Node
import AlterChat.Tauri.RoomStore

/-!
# The two programs on one topic

The core node publishes what a room has saved as it is and merges what it receives as it is. The
Tauri backend pads what it publishes, and unpads what it receives where that looks padded.

* `Published`, `Received`, `handed` -- what a program publishes of a saved room, what becomes of its
  room, and what it hands to `Room::merge`;
* `wire_agrees_iff` -- the receiver merges what the publisher has saved exactly where `Agrees`;
* `wire_disagrees` -- a saved room whose nonce begins with zeros, and a padded one at a core node.
-/

namespace AlterChat.RoomWire

open Lib Crdt Governance RoomStore Node

inductive Program where
  /-- `alterchat-core/src/main.rs`. -/
  | core
  /-- The event loop of `alterchat-ui/src-tauri/src/lib.rs`. -/
  | tauri
  deriving DecidableEq

/-- What a program hands to `Room::merge` of a message of the topic. -/
def handed : Program → Bytes → Bytes
  | .core, data => data
  | .tauri, data => (Traffic.unpadMessage data).getD data

section

variable {Keypair Pub Key Actor Scalar Doc : Type}

/-- **A program publishes** `data` for a room whose `add_message` has returned `bytes`. -/
inductive Published (S : Signatures Keypair Pub) (W : Wire) (L : Libraries Key Actor Scalar Doc) :
    Program → Bytes → Bytes → Prop where
  | core (node node' : NodeLoop Key Doc) (line : String) (timestamp : Int64) (nonce : Nonce)
      (effects : List NodeEffect) (topic : String) (bytes data : Bytes)
      (hadd : (Room.addMessage L node.room (lineMessage node.localPeerId line timestamp) nonce).1 =
        .ok bytes)
      (hline : node.line L line timestamp nonce = some (node', effects))
      (hpublish : .publish topic data ∈ effects) : Published S W L .core bytes data
  | tauri (loop loop' : RoomLoop Key Doc) (f : Db.Faults) (args : SendArgs)
      (effects : List RoomEffect) (topic : String) (bytes data : Bytes)
      (hadd : (Room.addMessage L loop.room (args.message loop.myPeerId) args.nonce).1 = .ok bytes)
      (hsend : sendMessage S W L f loop args = some (loop', effects))
      (hpublish : .publish topic data ∈ effects) : Published S W L .tauri bytes data

/-- **A program receives** `data` on the topic of its room, and `room` becomes `room'`. -/
inductive Received (W : Wire) (L : Libraries Key Actor Scalar Doc) (data : Bytes) (actor : Actor) :
    Program → Room Key Doc → Room Key Doc → Prop where
  | core (node node' : NodeLoop Key Doc) (nowMs : Int64) (effects : List NodeEffect)
      (hmessage : node.message L data actor nowMs = some (node', effects)) :
      Received W L data actor .core node.room node'.room
  | tauri (loop loop' : RoomLoop Key Doc) (f : Db.Faults) (conn : Db.Database) (topic : String)
      (nowMs : Int64) (effects : List RoomEffect) (hconn : loop.conn = some conn)
      (htopic : topic ≠ REVOCATION_TOPIC)
      (hgossip : gossipMessage W L f loop topic data actor nowMs = some (loop', effects)) :
      Received W L data actor .tauri loop.room loop'.room

variable {S : Signatures Keypair Pub} {W : Wire} {L : Libraries Key Actor Scalar Doc}

/-- **The core node merges what it is handed.** -/
theorem message_room {node node' : NodeLoop Key Doc} {data : Bytes} {actor : Actor} {nowMs : Int64}
    {effects : List NodeEffect} (h : node.message L data actor nowMs = some (node', effects)) :
    node'.room = (Room.merge L node.room actor (handed .core data)).2 := by
  unfold NodeLoop.message at h
  unfold handed
  split at h
  · next hm =>
    cases h
    rw [hm]
  · next hm =>
    rw [hm]
    split at h <;> cases h <;> rfl

/-- **The Tauri backend merges what it is handed.** -/
theorem gossipMessage_room {f : Db.Faults} {loop loop' : RoomLoop Key Doc} {conn : Db.Database}
    (hconn : loop.conn = some conn) {topic : String} (htopic : topic ≠ REVOCATION_TOPIC)
    {data : Bytes} {actor : Actor} {nowMs : Int64} {effects : List RoomEffect}
    (h : gossipMessage W L f loop topic data actor nowMs = some (loop', effects)) :
    loop'.room = (Room.merge L loop.room actor (handed .tauri data)).2 := by
  unfold gossipMessage at h
  unfold handed
  simp only [hconn, htopic, if_false] at h
  split at h
  · next hm =>
    cases h
    rw [hm]
  · next hm =>
    rw [hm]
    split at h <;> cases h <;> rfl

/-- So does every program. -/
theorem Received.merges {data : Bytes} {actor : Actor} {receiver : Program}
    {room room' : Room Key Doc} (h : Received W L data actor receiver room room') :
    room' = (Room.merge L room actor (handed receiver data)).2 := by
  cases h with
  | core node node' nowMs effects hmessage => exact message_room hmessage
  | tauri loop loop' f conn topic nowMs effects hconn htopic hgossip =>
    exact gossipMessage_room hconn htopic hgossip

/-- What is published of the bytes: them, or them padded. -/
theorem Published.data {p : Program} {bytes data : Bytes} (h : Published S W L p bytes data) :
    data = match p with
      | .core => bytes
      | .tauri => Traffic.padMessage bytes := by
  cases h with
  | core node node' line timestamp nonce effects topic _ _ hadd hline hpublish =>
    unfold NodeLoop.line at hline
    split at hline
    · cases hline
    · cases hline
      cases List.mem_singleton.mp hpublish
    · next hm =>
      cases hline
      cases List.mem_singleton.mp hpublish
      rw [hm] at hadd
      exact Except.ok.inj hadd
  | tauri loop loop' f args effects topic _ _ hadd hsend hpublish =>
    unfold sendMessage at hsend
    split at hsend
    · cases hsend
      exact absurd hpublish List.not_mem_nil
    · split at hsend
      · cases hsend
        exact absurd hpublish List.not_mem_nil
      · split at hsend
        · cases hsend
          cases List.mem_singleton.mp hpublish
        · split at hsend
          · cases hsend
          · cases hsend
            exact absurd hpublish List.not_mem_nil
          · next hm =>
            cases hsend
            rw [hm] at hadd
            cases hadd
            rcases List.mem_cons.mp hpublish with h | h
            · cases h
              rfl
            · cases List.mem_singleton.mp h

/-- The first four bytes are the length of something that is there. -/
def LooksPadded (bytes : Bytes) : Prop :=
  ∃ a b c d rest, bytes = a :: b :: c :: d :: rest ∧ Traffic.fromBeBytes a b c d ≤ rest.length

/-- **The pairs and bytes the programs agree on.** -/
def Agrees : (publisher receiver : Program) → Bytes → Prop
  | .core, .core, _ => True
  | .core, .tauri, bytes => ¬ LooksPadded bytes
  | .tauri, .core, _ => False
  | .tauri, .tauri, bytes => bytes.length < 2 ^ 32

/-- Bytes are misread exactly where they look padded. -/
theorem unpadMessage_getD_iff (bytes : Bytes) :
    (Traffic.unpadMessage bytes).getD bytes = bytes ↔ ¬ LooksPadded bytes := by
  unfold Traffic.unpadMessage
  split
  · next a b c d rest =>
    simp only [List.length_cons]
    by_cases hlen : Traffic.fromBeBytes a b c d ≤ rest.length
    · rw [if_neg (by omega), Option.getD_some]
      refine ⟨fun h => ?_, fun h => absurd ⟨a, b, c, d, rest, rfl, hlen⟩ h⟩
      have hl := congrArg List.length h
      rw [List.length_take, List.length_cons, List.length_cons, List.length_cons,
        List.length_cons] at hl
      omega
    · rw [if_pos (by omega), Option.getD_none]
      refine ⟨fun _ ⟨a', b', c', d', rest', heq, hle⟩ => ?_, fun _ => rfl⟩
      cases heq
      exact hlen hle
  · next hshort =>
    refine ⟨fun _ ⟨a, b, c, d, rest, heq, _⟩ => ?_, fun _ => rfl⟩
    exact hshort a b c d rest heq

/-- Padded data is longer. -/
theorem length_padMessage (bytes : Bytes) :
    bytes.length + 4 < (Traffic.padMessage bytes).length := by
  unfold Traffic.padMessage Traffic.toBeBytes Traffic.BLOCK_SIZE
  simp only [List.length_append, List.length_cons, List.length_nil, List.length_replicate]
  omega

/-- **What the backend reads of padded data**: the bytes, where 32 bits hold their length. -/
theorem unpadMessage_padMessage_iff (bytes : Bytes) :
    (Traffic.unpadMessage (Traffic.padMessage bytes)).getD (Traffic.padMessage bytes) = bytes ↔
      bytes.length < 2 ^ 32 := by
  refine ⟨fun h => ?_, fun h => by rw [Traffic.unpadMessage_padMessage h]; rfl⟩
  by_contra hlen
  have hmod : bytes.length % 2 ^ 32 < bytes.length :=
    lt_of_lt_of_le (Nat.mod_lt _ (by decide)) (Nat.le_of_not_lt hlen)
  unfold Traffic.padMessage Traffic.toBeBytes at h
  simp only [List.cons_append, List.nil_append, Traffic.unpadMessage,
    Traffic.fromBeBytes_toBeBytes, List.length_cons, List.length_append] at h
  rw [if_neg (by omega), Option.getD_some] at h
  have hl := congrArg List.length h
  rw [List.length_take, List.length_append] at hl
  omega

/-- **The receiver merges what the publisher has saved** exactly where the two programs agree: it
    merges what it is handed, and that is what has been saved. -/
theorem wire_agrees_iff {publisher : Program} {bytes data : Bytes}
    (h : Published S W L publisher bytes data) (receiver : Program) :
    (∀ (actor : Actor) (room room' : Room Key Doc), Received W L data actor receiver room room' →
      room' = (Room.merge L room actor (handed receiver data)).2) ∧
    (handed receiver data = bytes ↔ Agrees publisher receiver bytes) := by
  refine ⟨fun actor room room' hreceived => hreceived.merges, ?_⟩
  rw [h.data]
  cases publisher with
  | core =>
    cases receiver with
    | core => exact ⟨fun _ => trivial, fun _ => rfl⟩
    | tauri => exact unpadMessage_getD_iff bytes
  | tauri =>
    cases receiver with
    | core =>
      refine ⟨fun hpad => ?_, fun hfalse => hfalse.elim⟩
      have hlen := length_padMessage bytes
      have heq : Traffic.padMessage bytes = bytes := hpad
      rw [heq] at hlen
      omega
    | tauri => exact unpadMessage_padMessage_iff bytes

end

/-- The nonce of twelve zeros. -/
def zeroNonce : Nonce := Vector.replicate 12 0

/-- **A core node says something** in a new room. -/
theorem published_core : ∃ ciphertext, Published Signatures.tagged .numbered roomLibraries .core
    (zeroNonce.toList ++ ciphertext) (zeroNonce.toList ++ ciphertext) := by
  let node : NodeLoop Bytes OpDoc := ⟨newRoom roomLibraries 1 ROOM none, "p"⟩
  obtain ⟨doc, -, hadd⟩ := addMessage_new roomLibraries_documented (fun _ => rfl) 1 ROOM none
    (lineMessage "p" "hi" 0) zeroNonce
  have hline : ∃ node' bytes, node.line roomLibraries "hi" 0 zeroNonce =
      some (node', [.publish ROOM (zeroNonce.toList ++ bytes)]) ∧
        (Room.addMessage roomLibraries node.room (lineMessage "p" "hi" 0) zeroNonce).1 =
          .ok (zeroNonce.toList ++ bytes) := by
    unfold NodeLoop.line
    simp only [node, hadd]
    exact ⟨_, _, rfl, rfl⟩
  obtain ⟨node', bytes, hline, hok⟩ := hline
  exact ⟨bytes, .core node node' "hi" 0 zeroNonce _ ROOM _ _ hok hline List.mem_cons_self⟩

/-- **The backend says something** in a new room. -/
theorem published_tauri : ∃ bytes, Published Signatures.tagged .numbered roomLibraries .tauri bytes
    (Traffic.padMessage bytes) := by
  let loop := quietLoop roomLibraries 1 "r" none
  obtain ⟨doc, -, hadd⟩ := addMessage_new roomLibraries_documented (fun _ => rfl) 1 "r" none
    (greetingArgs.message "p") greetingArgs.nonce
  have hallowed : Commands.roomActionAllowed Signatures.tagged .numbered Db.noFaults .empty "r" "p"
      .Write greetingArgs.checkedAt = true := rfl
  have hsend : ∃ loop' bytes msg, sendMessage Signatures.tagged .numbered roomLibraries Db.noFaults
      loop greetingArgs = some (loop', [.publish "r" (Traffic.padMessage bytes), .newMessage msg]) ∧
        (Room.addMessage roomLibraries loop.room (greetingArgs.message "p") greetingArgs.nonce).1 =
          .ok bytes := by
    unfold sendMessage
    simp only [loop, quietLoop, hallowed, hadd]
    exact ⟨_, _, _, rfl, rfl⟩
  obtain ⟨loop', bytes, msg, hsend, hok⟩ := hsend
  exact ⟨bytes, .tauri loop loop' Db.noFaults greetingArgs _ "r" _ _ hok hsend List.mem_cons_self⟩

/-- One core node understands another. -/
theorem wire_agrees_iff_core : ∃ bytes data,
    Published Signatures.tagged .numbered roomLibraries .core bytes data ∧
      ∀ actor room room', Received .numbered roomLibraries data actor .core room room' →
        room' = (Room.merge roomLibraries room actor bytes).2 := by
  obtain ⟨ciphertext, h⟩ := published_core
  obtain ⟨hmerges, hagrees⟩ := wire_agrees_iff h .core
  exact ⟨_, _, h, fun actor room room' hreceived =>
    hagrees.mpr trivial ▸ hmerges actor room room' hreceived⟩

/-- **The backend takes a core node's nonce of zeros for the length of nothing, and a core node the
    backend's padding for the room.** -/
theorem wire_disagrees :
    (∃ bytes data, Published Signatures.tagged .numbered roomLibraries .core bytes data ∧
      handed .tauri data ≠ bytes) ∧
    ∃ bytes data, Published Signatures.tagged .numbered roomLibraries .tauri bytes data ∧
      handed .core data ≠ bytes := by
  constructor
  · obtain ⟨ciphertext, h⟩ := published_core
    refine ⟨_, _, h, fun hsame => ?_⟩
    exact (unpadMessage_getD_iff (zeroNonce.toList ++ ciphertext)).mp hsame
      ⟨0, 0, 0, 0, _, rfl, Nat.zero_le _⟩
  · obtain ⟨bytes, h⟩ := published_tauri
    refine ⟨_, _, h, fun hsame => ?_⟩
    have hlen := length_padMessage bytes
    have heq : Traffic.padMessage bytes = bytes := hsame
    rw [heq] at hlen
    omega

end AlterChat.RoomWire
