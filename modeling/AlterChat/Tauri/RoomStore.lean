import AlterChat.Core.RoomSubset
import AlterChat.Core.RoomMerge
import AlterChat.Core.Traffic
import AlterChat.Tauri.Commands

/-!
# The room of the event loop and its stored form

The arms of the event loop of `alterchat-ui/src-tauri/src/lib.rs` that write the current room: the
command `SendMessage` and the Gossipsub handler. `SendMessage` stores what the room has saved, the
handler stores what it has received.

* §1 the loop, §2 the two arms; a panic ends the loop's task, so there is no state after it
  (`none`);
* §3 runs of one room; `Kept` -- what is stored yields what the room shows;
* §4 `sendMessage_cases`, `gossipMessage_cases` -- all that an arm can do;
  `stored_keeps_messages` -- it does in every run in which a received document that merges has all
  of the room's own;
* §5 `heard_and_answered` -- a payload with a message is stored as it came;
  `stored_loses_message` -- a document that is behind replaces the stored one.
-/

namespace AlterChat.RoomStore

open Lib Crdt Governance Db

/-! ## 1. The loop -/

structure RoomLoop (Key Doc : Type) where
  room : Room Key Doc
  conn : Option Database
  /-- A swarm is running. -/
  swarm : Bool
  currentTopicName : String
  myPeerId : String

/-- What the two arms hand to the network and the frontend. -/
inductive RoomEffect where
  | publish (topic : String) (data : Bytes)
  | newMessage (msg : CrdtMessage)
  | chatHistory (msgs : List CrdtMessage)
  | roomActionDenied (action : String)
  | governance (effect : Commands.Effect)
  deriving DecidableEq

variable {Keypair Pub Key Actor Scalar Doc : Type}

/-- How the loop opens a room, at the start of a session and on `JoinChannel`: the stored one, or a
    new one where that cannot be loaded. -/
def openRoom (L : Libraries Key Actor Scalar Doc) (f : Faults) (conn : Database) (actor : Actor)
    (name : String) (password : Option String) : Except Stop (Room Key Doc) :=
  match loadRoom f conn name with
  | .ok (some bytes) =>
    match Room.load L actor name bytes password with
    | .ok room => .ok room
    | .error _ => Room.new L actor name password
  | _ => Room.new L actor name password

/-! ## 2. The arms -/

structure SendArgs where
  text : String
  nick : String
  ttl : Option Int64
  nonce : Nonce
  /-- The readings of the clock: by the permission check, by `add_message`, and after it. -/
  checkedAt : Int64
  addedAt : Int64
  sentAt : Int64

/-- The message `SendMessage` adds. -/
def SendArgs.message (args : SendArgs) (myPeerId : String) : CrdtMessage where
  peerId := myPeerId
  sender := args.nick
  text := args.text
  timestamp := args.addedAt
  ttl := args.ttl

/-- The arm `AppCommand::SendMessage`. -/
def sendMessage (S : Signatures Keypair Pub) (W : Wire) (L : Libraries Key Actor Scalar Doc)
    (f : Faults) (loop : RoomLoop Key Doc) (args : SendArgs) :
    Option (RoomLoop Key Doc × List RoomEffect) :=
  match loop.conn with
  | none => some (loop, [])
  | some conn =>
    if loop.swarm = false then some (loop, [])
    else if Commands.roomActionAllowed S W f conn loop.currentTopicName loop.myPeerId .Write
        args.checkedAt = false then
      some (loop, [.roomActionDenied "write"])
    else
      match Room.addMessage L loop.room (args.message loop.myPeerId) args.nonce with
      | (.error .panic, _) => none
      | (.error (.err _), room) => some ({ loop with room }, [])
      | (.ok bytes, room) =>
        let conn := (saveRoom f conn loop.currentTopicName bytes).2
        let conn :=
          (indexRoomMessage f conn loop.currentTopicName args.nick args.text args.sentAt).2
        some ({ loop with room, conn := some conn },
          [.publish loop.currentTopicName (Traffic.padMessage bytes),
            .newMessage { args.message loop.myPeerId with timestamp := args.sentAt }])

/-- The Gossipsub handler: a room payload is what is left after unpadding, or the data as it
    came. -/
def gossipMessage (W : Wire) (L : Libraries Key Actor Scalar Doc) (f : Faults)
    (loop : RoomLoop Key Doc) (topic : String) (data : Bytes) (actor : Actor) (nowMs : Int64) :
    Option (RoomLoop Key Doc × List RoomEffect) :=
  match loop.conn with
  | none => some (loop, [])
  | some conn =>
    if topic = REVOCATION_TOPIC then
      let (conn, effects) := Commands.revocationMessage W f conn nowMs data
      some ({ loop with conn := some conn }, effects.map .governance)
    else
      let payload := (Traffic.unpadMessage data).getD data
      match Room.merge L loop.room actor payload with
      | (.error _, room) => some ({ loop with room }, [])
      | (.ok (), room) =>
        let conn := (saveRoom f conn loop.currentTopicName payload).2
        let loop := { loop with room, conn := some conn }
        match Room.getMessages L room nowMs with
        | .error .panic => none
        | .error (.err _) => some (loop, [])
        | .ok msgs => some (loop, [.chatHistory msgs])

/-! ## 3. Runs of one room -/

inductive RoomEvent (Actor : Type) where
  | send (f : Faults) (args : SendArgs)
  | receive (f : Faults) (topic : String) (data : Bytes) (actor : Actor) (nowMs : Int64)

/-- The loop after an event, unless it panics. -/
def RoomLoop.after (S : Signatures Keypair Pub) (W : Wire) (L : Libraries Key Actor Scalar Doc)
    (loop : RoomLoop Key Doc) : RoomEvent Actor → Option (RoomLoop Key Doc)
  | .send f args => (sendMessage S W L f loop args).map fun r => r.1
  | .receive f topic data actor nowMs =>
    (gossipMessage W L f loop topic data actor nowMs).map fun r => r.1

def RoomStep (S : Signatures Keypair Pub) (W : Wire) (L : Libraries Key Actor Scalar Doc)
    (loop : RoomLoop Key Doc) (ev : RoomEvent Actor) (loop' : RoomLoop Key Doc) : Prop :=
  loop.after S W L ev = some loop'

/-- The loop has just opened the room. -/
def RoomStart (L : Libraries Key Actor Scalar Doc) (id : String) (password : Option String)
    (loop : RoomLoop Key Doc) : Prop :=
  loop.currentTopicName = id ∧ ∃ f conn actor, loop.conn = some conn ∧
    openRoom L f conn actor id password = .ok loop.room

/-- **The property at one state**: where the room shows messages, its stored form loads with the id
    and the password and yields them all. -/
def Kept (L : Libraries Key Actor Scalar Doc) (id : String) (password : Option String)
    (loop : RoomLoop Key Doc) : Prop :=
  ∀ conn, loop.conn = some conn → ∀ now msgs, Room.getMessages L loop.room now = .ok msgs →
    msgs ≠ [] → ∃ bytes, conn.rooms.lookup id = some bytes ∧ ∀ actor, ∃ room msgs',
      Room.load L actor id bytes password = .ok room ∧ Room.getMessages L room now = .ok msgs' ∧
      msgs.Subperm msgs'

section

variable [LinearOrder Actor] [DecidableEq Scalar]

/-- The condition on an event: what is stored is stored; the cipher takes the document with the new
    message; a received document that merges has every change of the room but creations of the
    list. -/
def RoomCond (L : Libraries Key Actor Scalar Doc) (loop : RoomLoop Key Doc) :
    RoomEvent Actor → Prop
  | .send f args => f .saveRoom = none ∧
    ∀ doc, appendMessage L.automerge loop.room.doc (args.message loop.myPeerId) = (.ok (), doc) →
      L.aead.accepts (L.automerge.save doc).1 = true
  | .receive f topic data actor _ => topic ≠ REVOCATION_TOPIC →
    ∀ plain other, decryptPayload L loop.room.encryptionKey
        ((Traffic.unpadMessage data).getD data) = .ok plain →
      L.automerge.load actor plain = .ok other →
      (∃ doc, L.automerge.merge loop.room.doc other = .ok doc) →
      f .saveRoom = none ∧
        ∀ op ∈ L.automerge.history loop.room.doc, op ∈ L.automerge.history other ∨ IsCreation op

/-! ## 4. What is stored -/

/-- **What is stored of a room**: a document that lacks nothing but new lists; or the room is
    nothing but new lists. -/
def Stored (L : Libraries Key Actor Scalar Doc) (id : String) (password : Option String)
    (room : Room Key Doc) (conn : Database) : Prop :=
  (∀ op ∈ L.automerge.history room.doc, IsCreation op) ∨
    ∃ bytes, conn.rooms.lookup id = some bytes ∧ ∀ actor, ∃ room',
      Room.load L actor id bytes password = .ok room' ∧
        Covers (L.automerge.history room'.doc) (L.automerge.history room.doc)

structure StoreInv (L : Libraries Key Actor Scalar Doc) (id : String) (password : Option String)
    (loop : RoomLoop Key Doc) : Prop where
  topic : loop.currentTopicName = id
  key : loop.room.encryptionKey = deriveRoomKey L id password
  stored : ∀ conn, loop.conn = some conn → Stored L id password loop.room conn

variable {S : Signatures Keypair Pub} {W : Wire} {L : Libraries Key Actor Scalar Doc} {id : String}
  {password : Option String}

omit [LinearOrder Actor] [DecidableEq Scalar] in
/-- `Room::load` under the room's key. -/
theorem load_eq {actor : Actor} {bytes plain : Bytes} {doc : Doc}
    (hplain : decryptPayload L (deriveRoomKey L id password) bytes = .ok plain)
    (hload : L.automerge.load actor plain = .ok doc) :
    Room.load L actor id bytes password =
      .ok { id, doc, encryptionKey := deriveRoomKey L id password } := by
  simp only [Room.load, hplain, hload, bind, Except.bind, pure, Except.pure]

omit [LinearOrder Actor] [DecidableEq Scalar] in
theorem load_cases {actor : Actor} {bytes : Bytes} {room : Room Key Doc}
    (h : Room.load L actor id bytes password = .ok room) :
    room.encryptionKey = deriveRoomKey L id password ∧
      ∃ plain, decryptPayload L (deriveRoomKey L id password) bytes = .ok plain ∧
        L.automerge.load actor plain = .ok room.doc := by
  unfold Room.load at h
  cases hplain : decryptPayload L (deriveRoomKey L id password) bytes with
  | error e =>
    simp only [hplain, bind, Except.bind] at h
    cases h
  | ok plain =>
    cases hload : L.automerge.load actor plain with
    | error e =>
      simp only [hplain, hload, bind, Except.bind] at h
      cases h
    | ok doc =>
      simp only [hplain, hload, bind, Except.bind, pure, Except.pure] at h
      cases h
      exact ⟨rfl, plain, rfl, hload⟩

/-- Bytes that load to a document that has all of the room. -/
theorem stored_of_load (hA : L.automerge.Documented) {actor : Actor} {bytes plain : Bytes}
    {doc : Doc} {room : Room Key Doc} {conn : Database}
    (hlookup : conn.rooms.lookup id = some bytes)
    (hplain : decryptPayload L (deriveRoomKey L id password) bytes = .ok plain)
    (hload : L.automerge.load actor plain = .ok doc)
    (hc : Covers (L.automerge.history doc) (L.automerge.history room.doc)) :
    Stored L id password room conn := by
  refine .inr ⟨bytes, hlookup, fun actor' => ?_⟩
  obtain ⟨doc', hload', hH⟩ := hA.load_again _ _ _ hload actor'
  exact ⟨_, load_eq hplain hload', by rw [hH]; exact hc⟩

/-- A new room is nothing but its list. -/
theorem new_creations (hA : L.automerge.Documented) {actor : Actor} {room : Room Key Doc}
    (h : Room.new L actor id password = .ok room) :
    room.encryptionKey = deriveRoomKey L id password ∧
      ∀ op ∈ L.automerge.history room.doc, IsCreation op := by
  obtain ⟨room', hnew, -, -, hkey, hl⟩ := Layout.new hA actor id password
  cases h.symm.trans hnew
  refine ⟨hkey, fun op hop => ?_⟩
  rcases (hl.mem op).mp hop with ⟨a, -, ha⟩ | ⟨e, he, -⟩
  · exact ⟨a, ha⟩
  · exact absurd he List.not_mem_nil

theorem storeInv_start (hA : L.automerge.Documented) {loop : RoomLoop Key Doc}
    (h : RoomStart L id password loop) : StoreInv L id password loop := by
  obtain ⟨htopic, f, conn, actor, hconn, hopen⟩ := h
  have hnew : Room.new L actor id password = .ok loop.room → StoreInv L id password loop := by
    intro hn
    obtain ⟨hkey, hcr⟩ := new_creations hA hn
    exact ⟨htopic, hkey, fun _ _ => .inl hcr⟩
  unfold openRoom at hopen
  split at hopen
  · next bytes hbytes =>
    split at hopen
    · next room hload =>
      cases hopen
      obtain ⟨hkey, plain, hplain, hdoc⟩ := load_cases hload
      refine ⟨htopic, hkey, fun conn' hconn' => ?_⟩
      cases hconn.symm.trans hconn'
      exact stored_of_load hA (query_ok hbytes).2 hplain hdoc (Covers.refl _)
    · exact hnew hopen
  · exact hnew hopen

/-- **What is stored is what is shown.** -/
theorem StoreInv.kept (hA : L.automerge.Documented) {loop : RoomLoop Key Doc}
    (h : StoreInv L id password loop) : Kept L id password loop := by
  intro conn hconn now msgs hmsgs hne
  rcases h.stored conn hconn with hcr | ⟨bytes, hlookup, hload⟩
  · exact absurd (getMessages_creations hA hcr hmsgs) hne
  · refine ⟨bytes, hlookup, fun actor => ?_⟩
    obtain ⟨room', hroom', hc⟩ := hload actor
    refine ⟨room', msgs, hroom', ?_, List.Subperm.refl _⟩
    rcases getMessages_subset hA hc hmsgs with hnil | hget
    · exact absurd hnil hne
    · exact hget

omit [LinearOrder Actor] [DecidableEq Scalar] in
/-- A write of something else leaves what is stored. -/
theorem Stored.congr {room : Room Key Doc} {conn conn' : Database}
    (h : Stored L id password room conn) (hrooms : conn'.rooms = conn.rooms) :
    Stored L id password room conn' := by
  unfold Stored
  rw [hrooms]
  exact h

theorem revocationMessage_rooms (W : Wire) (f : Faults) (conn : Database) (nowMs : Int64)
    (data : Bytes) : (Commands.revocationMessage W f conn nowMs data).1.rooms = conn.rooms := by
  unfold Commands.revocationMessage
  split
  · rfl
  · simp only [Db.revokeInvite, markInviteRevoked, execute]
    cases f .markInviteRevoked <;> cases f .revokeInvite <;> rfl

theorem saveRoom_lookup {f : Faults} (hf : f .saveRoom = none) (conn : Database) (id : String)
    (bytes : Bytes) : (saveRoom f conn id bytes).2.rooms.lookup id = some bytes := by
  simp only [saveRoom, execute, hf]
  rw [Table.lookup_upsert_const, if_pos rfl]

theorem indexRoomMessage_rooms (f : Faults) (conn : Database) (roomId sender text : String)
    (timestamp : Int64) : (indexRoomMessage f conn roomId sender text timestamp).2.rooms =
      conn.rooms := by
  unfold indexRoomMessage execute
  cases f .indexRoomMessage <;> rfl

/-- **`add_message`**: nothing has changed, or the message is in the document and the document
    saved, if the cipher takes it. -/
theorem addMessage_cases (hA : L.automerge.Documented) (room : Room Key Doc) (msg : CrdtMessage)
    (nonce : Nonce) :
    (∃ stop, Room.addMessage L room msg nonce = (.error stop, room)) ∨
      ∃ doc, appendMessage L.automerge room.doc msg = (.ok (), doc) ∧
        ((∃ e, Room.addMessage L room msg nonce =
            (.error (.err e), { room with doc := (L.automerge.save doc).2 })) ∨
          ∃ bytes, encryptPayload L room.encryptionKey nonce (L.automerge.save doc).1 = .ok bytes ∧
            Room.addMessage L room msg nonce =
              (.ok bytes, { room with doc := (L.automerge.save doc).2 })) := by
  rcases appendMessage_cases hA room.doc msg with ⟨stop, happ⟩ | ⟨doc, happ⟩
  · refine .inl ⟨stop, ?_⟩
    unfold Room.addMessage
    rw [happ]
  · refine .inr ⟨doc, happ, ?_⟩
    unfold Room.addMessage Room.save
    simp only [happ]
    cases encryptPayload L room.encryptionKey nonce (L.automerge.save doc).1 with
    | error e => exact .inl ⟨e, rfl⟩
    | ok bytes => exact .inr ⟨bytes, rfl, rfl⟩

omit [LinearOrder Actor] [DecidableEq Scalar] in
/-- **What `SendMessage` does**: nothing, or it asks the room to add the message, and stores what it
    is given. -/
theorem sendMessage_cases {loop loop' : RoomLoop Key Doc} {f : Faults} {args : SendArgs}
    {effects : List RoomEffect} (hs : sendMessage S W L f loop args = some (loop', effects)) :
    loop' = loop ∨ ∃ conn, loop.conn = some conn ∧ loop.swarm = true ∧
      Commands.roomActionAllowed S W f conn loop.currentTopicName loop.myPeerId .Write
        args.checkedAt =
        true ∧
      ((∃ e room, Room.addMessage L loop.room (args.message loop.myPeerId) args.nonce =
          (.error (.err e), room) ∧ loop' = { loop with room }) ∨
        ∃ bytes room, Room.addMessage L loop.room (args.message loop.myPeerId) args.nonce =
          (.ok bytes, room) ∧
          loop' = { loop with
            room
            conn := some (indexRoomMessage f (saveRoom f conn loop.currentTopicName bytes).2
              loop.currentTopicName args.nick args.text args.sentAt).2 }) := by
  unfold sendMessage at hs
  split at hs
  · cases hs
    exact .inl rfl
  · next conn hconn =>
    split at hs
    · cases hs
      exact .inl rfl
    · next hswarm =>
      split at hs
      · cases hs
        exact .inl rfl
      · next hallowed =>
        refine .inr ⟨conn, hconn, by simpa using hswarm, by simpa using hallowed, ?_⟩
        split at hs
        · cases hs
        · next e room hadd =>
          cases hs
          exact .inl ⟨e, room, hadd, rfl⟩
        · next bytes room hadd =>
          cases hs
          exact .inr ⟨bytes, room, hadd, rfl⟩

omit [LinearOrder Actor] [DecidableEq Scalar] in
/-- **What the handler does**: nothing; a revocation's writes; or it merges the payload and stores
    it as it came. -/
theorem gossipMessage_cases {loop loop' : RoomLoop Key Doc} {f : Faults} {topic : String}
    {data : Bytes} {actor : Actor} {nowMs : Int64} {effects : List RoomEffect}
    (hs : gossipMessage W L f loop topic data actor nowMs = some (loop', effects)) :
    loop' = loop ∨ ∃ conn, loop.conn = some conn ∧
      (loop' = { loop with conn := some (Commands.revocationMessage W f conn nowMs data).1 } ∨
        topic ≠ REVOCATION_TOPIC ∧ ∃ plain other doc,
          decryptPayload L loop.room.encryptionKey ((Traffic.unpadMessage data).getD data) =
          .ok plain ∧
          L.automerge.load actor plain = .ok other ∧
          L.automerge.merge loop.room.doc other = .ok doc ∧
          loop' = { loop with
            room := { loop.room with doc }
            conn := some (saveRoom f conn loop.currentTopicName
              ((Traffic.unpadMessage data).getD data)).2 }) := by
  unfold gossipMessage at hs
  split at hs
  · cases hs
    exact .inl rfl
  · next conn hconn =>
    split at hs
    · cases hs
      exact .inr ⟨conn, hconn, .inl rfl⟩
    · next htopic =>
      cases hplain : decryptPayload L loop.room.encryptionKey
        ((Traffic.unpadMessage data).getD data) with
      | error e =>
        simp only [Room.merge, hplain] at hs
        cases hs
        exact .inl rfl
      | ok plain =>
        cases hload : L.automerge.load actor plain with
        | error e =>
          simp only [Room.merge, hplain, hload] at hs
          cases hs
          exact .inl rfl
        | ok other =>
          cases hmerge : L.automerge.merge loop.room.doc other with
          | error e =>
            simp only [Room.merge, hplain, hload, hmerge] at hs
            cases hs
            exact .inl rfl
          | ok doc =>
            simp only [Room.merge, hplain, hload, hmerge] at hs
            refine .inr ⟨conn, hconn, .inr ⟨htopic, plain, other, doc, rfl, hload, hmerge, ?_⟩⟩
            -- whether or not the history is read
            split at hs
            · cases hs
            · cases hs
              rfl
            · cases hs
              rfl

/-- **`SendMessage`**: the room with the new message, and the same stored. -/
theorem storeInv_send (hP : L.aead.Lawful) (hA : L.automerge.Documented)
    {loop loop' : RoomLoop Key Doc} (h : StoreInv L id password loop) {f : Faults} {args : SendArgs}
    (hcond : RoomCond L loop (RoomEvent.send f args : RoomEvent Actor))
    {effects : List RoomEffect} (hs : sendMessage S W L f loop args = some (loop', effects)) :
    StoreInv L id password loop' := by
  obtain ⟨hf, hacc⟩ := hcond
  rcases sendMessage_cases hs with rfl | ⟨conn, hconn, -, -, hadded⟩
  · exact h
  rcases addMessage_cases hA loop.room (args.message loop.myPeerId) args.nonce with
    ⟨stop, hadd⟩ | ⟨doc, happ, hadd⟩
  · -- nothing was added
    rw [hadd] at hadded
    rcases hadded with ⟨e, room, heq, rfl⟩ | ⟨bytes, room, heq, -⟩
    · cases heq
      exact h
    · cases heq
  · obtain ⟨payload, hpay⟩ :=
      encryptPayload_of_accepts (hacc doc happ) loop.room.encryptionKey args.nonce
    obtain ⟨bytes, hbytes, hadd⟩ := hadd.resolve_left fun ⟨e, he⟩ => by
      unfold Room.addMessage Room.save at he
      simp only [happ, hpay] at he
      cases he
    rw [hadd] at hadded
    rcases hadded with ⟨e, room, heq, -⟩ | ⟨bytes, room, heq, rfl⟩
    · cases heq
    · cases heq
      refine ⟨h.topic, h.key, fun conn' hconn' => ?_⟩
      cases hconn'
      obtain ⟨d', hload, hH⟩ := hA.load_save doc (L.automerge.actor doc)
      have hplain := decryptPayload_encrypt hP hbytes
      rw [h.key] at hplain
      refine stored_of_load hA ?_ hplain hload ?_
      · rw [indexRoomMessage_rooms, h.topic]
        exact saveRoom_lookup hf conn id _
      · rw [hH, hA.history_save]
        exact Covers.refl _

/-- **The handler**: what has merged, and the received bytes stored. -/
theorem storeInv_receive (hA : L.automerge.Documented) {loop loop' : RoomLoop Key Doc}
    (h : StoreInv L id password loop) {f : Faults} {topic : String} {data : Bytes} {actor : Actor}
    {nowMs : Int64} (hcond : RoomCond L loop (.receive f topic data actor nowMs))
    {effects : List RoomEffect}
    (hs : gossipMessage W L f loop topic data actor nowMs = some (loop', effects)) :
    StoreInv L id password loop' := by
  rcases gossipMessage_cases hs with rfl | ⟨conn, hconn, rfl |
    ⟨htopic, plain, other, doc, hplain, hload, hmerge, rfl⟩⟩
  · exact h
  · refine ⟨h.topic, h.key, fun conn' hconn' => ?_⟩
    cases hconn'
    exact (h.stored conn hconn).congr (revocationMessage_rooms W f conn nowMs data)
  · obtain ⟨hf, hall⟩ := hcond htopic plain other hplain hload ⟨doc, hmerge⟩
    have hH := hA.history_merge _ _ _ hmerge
    refine ⟨h.topic, h.key, fun conn' hconn' => ?_⟩
    cases hconn'
    rw [h.key] at hplain
    refine stored_of_load hA ?_ hplain hload ?_
    · rw [h.topic]
      exact saveRoom_lookup hf conn id _
    · rw [hH]
      refine ⟨Finset.subset_union_right, fun op hop => ?_⟩
      rcases Finset.mem_union.mp hop with hop | hop
      · exact hall op hop
      · exact .inl hop

theorem storeInv_step (hP : L.aead.Lawful) (hA : L.automerge.Documented)
    {loop loop' : RoomLoop Key Doc} (h : StoreInv L id password loop) {ev : RoomEvent Actor}
    (hcond : RoomCond L loop ev) (hs : RoomStep S W L loop ev loop') :
    StoreInv L id password loop' := by
  cases ev with
  | send f args =>
    obtain ⟨⟨loop₁, effects⟩, hr, rfl⟩ := Option.map_eq_some_iff.mp hs
    exact storeInv_send hP hA h hcond hr
  | receive f topic data actor nowMs =>
    obtain ⟨⟨loop₁, effects⟩, hr, rfl⟩ := Option.map_eq_some_iff.mp hs
    exact storeInv_receive hA h hcond hr

/-- **The stored room keeps what the room shows**, in every run in which each received document that
    merges has every change of the room but creations of its list. -/
theorem stored_keeps_messages (S : Signatures Keypair Pub) (W : Wire) (hP : L.aead.Lawful)
    (hA : L.automerge.Documented) {loop : RoomLoop Key Doc}
    (h : Reach (RoomStart L id password) (Guarded (RoomCond L) (RoomStep S W L)) loop) :
    Kept L id password loop := by
  refine StoreInv.kept hA
    (h.inv (I := StoreInv L id password) (fun _ hs => storeInv_start hA hs) ?_)
  exact fun _ _ _ hinv hs => storeInv_step hP hA hinv hs.1 hs.2

/-! ## 5. A payload with a message, and a document that is behind -/

/-- A session that has opened a room for the first time. -/
def quietLoop (L : Libraries Key Actor Scalar Doc) (actor : Actor) (id : String)
    (password : Option String) : RoomLoop Key Doc where
  room := newRoom L actor id password
  conn := some .empty
  swarm := true
  currentTopicName := id
  myPeerId := "p"

theorem quietLoop_start (hA : L.automerge.Documented) (actor : Actor) :
    RoomStart L id password (quietLoop L actor id password) :=
  ⟨rfl, noFaults, .empty, actor, rfl, newRoom_ok hA actor id password⟩

omit [LinearOrder Actor] [DecidableEq Scalar] in
/-- `SendMessage` where the message can be appended and the cipher takes the document. -/
theorem send_of_append (S : Signatures Keypair Pub) (W : Wire) (hacc : ∀ m, L.aead.accepts m = true)
    (loop : RoomLoop Key Doc) {conn : Database} {args : SendArgs} {doc : Doc}
    (hconn : loop.conn = some conn) (hswarm : loop.swarm = true)
    (hallowed : Commands.roomActionAllowed S W noFaults conn loop.currentTopicName
      loop.myPeerId .Write
      args.checkedAt = true)
    (happ : appendMessage L.automerge loop.room.doc (args.message loop.myPeerId) = (.ok (), doc)) :
    ∃ payload, encryptPayload L loop.room.encryptionKey args.nonce (L.automerge.save doc).1 =
        .ok payload ∧
      RoomStep S W L loop (RoomEvent.send noFaults args : RoomEvent Actor)
        { loop with
          room := { loop.room with doc := (L.automerge.save doc).2 }
          conn := some (indexRoomMessage noFaults
            (saveRoom noFaults conn loop.currentTopicName payload).2 loop.currentTopicName args.nick
            args.text args.sentAt).2 } := by
  obtain ⟨payload, hpay⟩ := encryptPayload_of_accepts (hacc (L.automerge.save doc).1)
    loop.room.encryptionKey args.nonce
  have hadd : Room.addMessage L loop.room (args.message loop.myPeerId) args.nonce =
      (.ok payload, { loop.room with doc := (L.automerge.save doc).2 }) := by
    unfold Room.addMessage Room.save
    simp only [happ, hpay]
  refine ⟨payload, hpay, ?_⟩
  unfold RoomStep RoomLoop.after sendMessage
  simp [hconn, hswarm, hallowed, hadd]

/-- **The first message of a session** is added, saved and stored. -/
theorem quietLoop_send (S : Signatures Keypair Pub) (W : Wire) (hA : L.automerge.Documented)
    (hacc : ∀ m, L.aead.accepts m = true) (id : String) (password : Option String) (actor : Actor)
    (args : SendArgs) :
    ∃ doc e payload, appendMessage L.automerge (newRoom L actor id password).doc
        (args.message "p") = (.ok (), doc) ∧
      encryptPayload L (newRoom L actor id password).encryptionKey args.nonce
        (L.automerge.save doc).1 = .ok payload ∧
      e.list = actor ∧ e.id.actor = actor ∧ e.msg = args.message "p" ∧
      Layout L.automerge (L.automerge.history doc) {actor} [e] ∧
      RoomStep S W L (quietLoop L actor id password)
        (RoomEvent.send noFaults args : RoomEvent Actor)
        { quietLoop L actor id password with
          room := { newRoom L actor id password with doc := (L.automerge.save doc).2 }
          conn := some (indexRoomMessage noFaults (saveRoom noFaults .empty id payload).2
            id args.nick
            args.text args.sentAt).2 } := by
  obtain ⟨room, hnew, hact, -, -, hl⟩ := Layout.new hA actor id password
  cases (newRoom_ok hA actor id password).symm.trans hnew
  obtain ⟨doc, e, happ, -, hlist, hid, hmsg, hl'⟩ :=
    Layout.append hA hl isGreatest_singleton (args.message "p")
  obtain ⟨payload, hpay, hstep⟩ :=
    send_of_append S W hacc (quietLoop L actor id password) rfl rfl rfl
    happ
  exact ⟨doc, e, payload, happ, hpay, hlist, hid.trans hact, hmsg, hl', hstep⟩

omit [LinearOrder Actor] [DecidableEq Scalar] in
/-- What the two replicas know: the right one its message, the left one nothing. -/
def ownRight (e : Entry Actor) : Replica → List (Entry Actor)
  | .left => []
  | .right => [e]

omit [LinearOrder Actor] [DecidableEq Scalar] in
theorem ownRight_actor {actor : Replica → Actor} {e : Entry Actor} (hid : e.id.actor = actor .right)
    (q : Replica) : ∀ e' ∈ ownRight e q, e'.id.actor = actor q := by
  intro e' he'
  cases q with
  | left => exact absurd he' List.not_mem_nil
  | right => rw [List.mem_singleton.mp he', hid]

/-- **What the two documents together show**: the one message. -/
theorem merged_shows (hA : L.automerge.Documented) {actor : Replica → Actor}
    (hlt : actor .left < actor .right) {e : Entry Actor} (hlist : e.list = actor .right)
    (hid : e.id.actor = actor .right) {doc d : Doc}
    (hright : Knows L actor (ownRight e) .right none 1 doc)
    (hleft : Knows L actor (ownRight e) .left none 0 d) (room : Room Key Doc)
    (hroom : L.automerge.history room.doc = L.automerge.history doc ∪ L.automerge.history d) :
    Knows L actor (ownRight e) .right (some 0) 1 room.doc ∧
      ∀ now, Room.getMessages L room now = .ok [e.msg.shown now] := by
  have hnodup : ∀ q, ((ownRight e q).map Entry.id).Nodup := by
    intro q
    cases q with
    | left => exact List.nodup_nil
    | right => exact List.nodup_singleton _
  have hmerged := hright.union hlt.ne' (ownRight_actor hid) hnodup hleft hroom
  have hgreatest := isGreatest_known actor .right (some (max 0 ((none : Option Nat).getD 0)))
  rw [if_neg (Option.some_ne_none _)] at hgreatest
  refine ⟨hmerged, fun now => ?_⟩
  have hread : ∃ order : List (Entry Actor), order.Perm ([e].filter fun e' =>
      decide (e'.list = max (actor .right) (actor .left))) ∧
      Room.getMessages L room now = .ok (order.map fun e' => e'.msg.shown now) :=
    (show Layout L.automerge (L.automerge.history room.doc) _ _ from hmerged).getMessages_eq hA
      hgreatest now
  obtain ⟨order, hp, hget⟩ := hread
  rw [List.filter_cons_of_pos (by rw [hlist, max_eq_left hlt.le]; exact decide_eq_true rfl)] at hp
  rw [hget, List.perm_singleton.mp hp]
  rfl

/-- **A room with one message goes on showing it** when a new room of a smaller actor id is merged
    in. -/
theorem merge_new_shows (hA : L.automerge.Documented) {actor : Replica → Actor}
    (hlt : actor .left < actor .right) {e : Entry Actor} (hlist : e.list = actor .right)
    (hid : e.id.actor = actor .right) {doc d : Doc}
    (hright : Knows L actor (ownRight e) .right none 1 doc)
    (hleft : Knows L actor (ownRight e) .left none 0 d) :
    ∃ m, L.automerge.merge doc d = .ok m ∧ ∀ (room : Room Key Doc) now, room.doc = m →
      Room.getMessages L room now = .ok [e.msg.shown now] := by
  obtain ⟨m, hm⟩ := hA.merge_ok _ _ (unforked_known hlt.ne' (ownRight_actor hid) hright hleft)
  refine ⟨m, hm, fun room now hroom => ?_⟩
  subst hroom
  exact (merged_shows hA hlt hlist hid hright hleft room (hA.history_merge _ _ _ hm)).2 now

/-- The saved document of a new room loads into one of which nothing is known yet. -/
theorem newRoom_reloads (hA : L.automerge.Documented) (actor : Replica → Actor)
    (own : Replica → List (Entry Actor)) (q : Replica) (id : String) (password : Option String)
    (a : Actor) :
    ∃ d, L.automerge.load a (L.automerge.save (newRoom L (actor q) id password).doc).1 = .ok d ∧
      Knows L actor own q none 0 d := by
  obtain ⟨room, hnew, -, -, -, hlayout⟩ := Layout.new hA (actor q) id password
  cases (newRoom_ok hA (actor q) id password).symm.trans hnew
  obtain ⟨d, hd, hH⟩ := hA.load_save (newRoom L (actor q) id password).doc a
  refine ⟨d, hd, ?_⟩
  unfold Knows
  rw [hH, knownLists_none]
  exact hlayout

/-- A document of which nothing is known yet shows nothing. -/
theorem shows_nothing_of_knows (hA : L.automerge.Documented) {actor : Replica → Actor}
    {own : Replica → List (Entry Actor)} {q : Replica} {room : Room Key Doc}
    (h : Knows L actor own q none 0 room.doc) {now : Int64} {msgs : List CrdtMessage}
    (hmsgs : Room.getMessages L room now = .ok msgs) : msgs = [] := by
  refine getMessages_creations hA (fun op hop => ?_) hmsgs
  rcases (h.mem op).mp hop with ⟨x, -, hx⟩ | ⟨e, he, -⟩
  · exact ⟨x, hx⟩
  · exact absurd he List.not_mem_nil

/-- **What a document that is behind does**: the other replica's new room has the smaller actor id;
    its saved bytes merge into a room with a message and replace the stored one. -/
theorem behind_breaks (S : Signatures Keypair Pub) (W : Wire) (hP : L.aead.Lawful)
    (hA : L.automerge.Documented) (hacc : ∀ m, L.aead.accepts m = true)
    {actor : Replica → Actor} (hlt : actor .left < actor .right) {nonce : Nonce}
    {payload data : Bytes}
    (hsave : (Room.save L (newRoom L (actor .left) id password) nonce).1 = .ok payload)
    (hdata : (Traffic.unpadMessage data).getD data = payload) {topic : String}
    (htopic : topic ≠ REVOCATION_TOPIC) (args : SendArgs) (a : Actor) (nowMs : Int64) :
    ∃ loop₁ loop₂, RoomStep S W L (quietLoop L (actor .right) id password)
        (RoomEvent.send noFaults args : RoomEvent Actor) loop₁ ∧
      RoomStep S W L loop₁ (.receive noFaults topic data a nowMs) loop₂ ∧
      ¬ Kept L id password loop₂ := by
  obtain ⟨doc, e, payload₁, -, -, hlist, hid, hmsg, hl, hstep⟩ :=
    quietLoop_send S W hA hacc id password (actor .right) args
  have hplain := decryptPayload_encrypt hP hsave
  have hright : Knows L actor (ownRight e) .right none 1 (L.automerge.save doc).2 := by
    unfold Knows
    rw [hA.history_save, knownLists_none]
    exact hl
  obtain ⟨d, hload, hknows⟩ := newRoom_reloads hA actor (ownRight e) .left id password a
  obtain ⟨m, hm, hshows⟩ := merge_new_shows hA hlt hlist hid hright hknows
  have hmerge : Room.merge L
      { newRoom L (actor .right) id password with doc := (L.automerge.save doc).2 } a payload =
      (.ok (), { newRoom L (actor .right) id password with doc := m }) := by
    have hplain' : decryptPayload L (newRoom L (actor .right) id password).encryptionKey payload =
        .ok _ := hplain
    unfold Room.merge
    simp only [hplain', hload, hm]
  have hshown : ∀ now, Room.getMessages L
      { newRoom L (actor .right) id password with doc := m } now = .ok [e.msg.shown now] :=
    fun now => hshows _ now rfl
  let conn := (indexRoomMessage noFaults (saveRoom noFaults .empty id payload₁).2 id args.nick
    args.text args.sentAt).2
  let loop : RoomLoop Key Doc :=
    { quietLoop L (actor .right) id password with
      room := { newRoom L (actor .right) id password with doc := m }
      conn := some (saveRoom noFaults conn id payload).2 }
  refine ⟨_, loop, hstep, ?_, fun hkept => ?_⟩
  · unfold RoomStep RoomLoop.after gossipMessage
    simp only [htopic, if_false, hdata, hmerge, hshown]
    rfl
  · obtain ⟨bytes, hlookup, hrestored⟩ := hkept _ rfl nowMs _ (hshown nowMs) (List.cons_ne_nil _ _)
    cases (saveRoom_lookup (f := noFaults) rfl conn id payload).symm.trans hlookup
    obtain ⟨room, msgs, hroom, hmsgs, hsub⟩ := hrestored a
    obtain ⟨-, plain, hplain', hdoc⟩ := load_cases hroom
    cases hplain.symm.trans hplain'
    cases hload.symm.trans hdoc
    rw [shows_nothing_of_knows hA hknows hmsgs] at hsub
    exact absurd hsub.length_le (Nat.not_succ_le_zero _)

omit [LinearOrder Actor] [DecidableEq Scalar] in
/-- A cipher that takes every document. -/
theorem send_cond (hacc : ∀ m, L.aead.accepts m = true) (loop : RoomLoop Key Doc)
    (args : SendArgs) :
    RoomCond L loop (RoomEvent.send noFaults args : RoomEvent Actor) :=
  ⟨rfl, fun _ _ => hacc _⟩

/-- **A payload that carries a message**: the room of the smaller actor id is new, merges what the
    other has published, shows it, and answers. Each event meets the condition. -/
theorem heard_and_answered (S : Signatures Keypair Pub) (W : Wire) (hP : L.aead.Lawful)
    (hA : L.automerge.Documented) (hacc : ∀ m, L.aead.accepts m = true)
    {actor : Replica → Actor} (hlt : actor .left < actor .right) (args answer : SendArgs)
    {data : Bytes} (hdata : ∀ doc payload,
      appendMessage L.automerge (newRoom L (actor .right) id password).doc (args.message "p") =
        (.ok (), doc) →
      encryptPayload L (deriveRoomKey L id password) args.nonce (L.automerge.save doc).1 =
        .ok payload → (Traffic.unpadMessage data).getD data = payload)
    (htopic : id ≠ REVOCATION_TOPIC) (a : Actor) (nowMs : Int64) :
    ∃ loop₁ loop₂, RoomStep S W L (quietLoop L (actor .left) id password)
        (.receive noFaults id data a nowMs) loop₁ ∧
      (∀ now, Room.getMessages L loop₁.room now = .ok [(args.message "p").shown now]) ∧
      RoomStep S W L loop₁ (RoomEvent.send noFaults answer : RoomEvent Actor) loop₂ ∧
      Reach (RoomStart L id password) (Guarded (RoomCond L) (RoomStep S W L)) loop₂ := by
  obtain ⟨doc, e, payload, happ, hpay, hlist, hid, hmsg, hl, -⟩ :=
    quietLoop_send S W hA hacc id password (actor .right) args
  obtain ⟨d, hload, hd⟩ := hA.load_save doc a
  have hright : Knows L actor (ownRight e) .right none 1 d := by
    unfold Knows
    rw [hd, knownLists_none]
    exact hl
  let loop : RoomLoop Key Doc := quietLoop L (actor .left) id password
  obtain ⟨room, hnew, hact, -, -, hlayout⟩ := Layout.new hA (actor .left) id password
  cases (newRoom_ok hA (actor .left) id password).symm.trans hnew
  have hleft : Knows L actor (ownRight e) .left none 0 loop.room.doc := by
    unfold Knows
    rw [knownLists_none]
    exact hlayout
  obtain ⟨m, hm⟩ := hA.merge_ok _ _ (unforked_known hlt.ne (ownRight_actor hid) hleft hright)
  have hH : L.automerge.history m = L.automerge.history d ∪ L.automerge.history loop.room.doc :=
    (hA.history_merge _ _ _ hm).trans (Finset.union_comm _ _)
  have hpayload := hdata doc payload happ hpay
  have hplain : decryptPayload L loop.room.encryptionKey payload = .ok _ :=
    decryptPayload_encrypt hP hpay
  let loop₁ : RoomLoop Key Doc :=
    { loop with
      room := { loop.room with doc := m }
      conn := some (saveRoom noFaults .empty id payload).2 }
  obtain ⟨hknows, hshows⟩ := merged_shows hA hlt hlist hid hright hleft loop₁.room hH
  have hstep₁ : RoomStep S W L loop (.receive noFaults id data a nowMs) loop₁ := by
    have hmerge : Room.merge L loop.room a payload = (.ok (), { loop.room with doc := m }) := by
      unfold Room.merge
      simp only [hplain, hload, hm]
    have hget : Room.getMessages L { loop.room with doc := m } nowMs = .ok [e.msg.shown nowMs] :=
      hshows nowMs
    unfold RoomStep RoomLoop.after gossipMessage
    simp only [loop, quietLoop, htopic, if_false, hpayload]
    simp only [loop, quietLoop] at hmerge hget
    simp only [hmerge, hget]
    rfl
  -- the new room has nothing but its list
  have hcond₁ : RoomCond L loop (.receive noFaults id data a nowMs) :=
    fun _ _ _ _ _ _ => ⟨rfl, fun op hop => .inr ((new_creations hA hnew).2 op hop)⟩
  obtain ⟨doc₂, -, happ₂, -⟩ := Layout.append hA hknows (isGreatest_known actor .right (some 0))
    (answer.message loop₁.myPeerId)
  obtain ⟨_, -, hstep₂⟩ := send_of_append S W hacc loop₁ rfl rfl rfl happ₂
  refine ⟨loop₁, _, hstep₁, fun now => hmsg ▸ hshows now, hstep₂, ?_⟩
  exact .step _ _ _ (.step _ _ _ (.start _ (quietLoop_start hA _)) ⟨hcond₁, hstep₁⟩)
    ⟨send_cond hacc loop₁ answer, hstep₂⟩

end

/-- A text without a lifetime, sent at time 0. -/
def greetingArgs : SendArgs where
  text := "hi"
  nick := "anna"
  ttl := none
  nonce := Vector.replicate 12 0
  checkedAt := 0
  addedAt := 0
  sentAt := 0

/-- The document of actor 2 after the greeting. -/
def greetedDoc : OpDoc :=
  (appendMessage roomLibraries.automerge (newRoom roomLibraries 2 "r" none).doc
    (greetingArgs.message "p")).2

/-- The same libraries, with that document in short. -/
def greetedLibraries : Libraries Bytes Nat Plain OpDoc :=
  { roomLibraries with automerge := opDocs ((Codec.ofEncodable _).short greetedDoc.ops) }

theorem greetedLibraries_documented : greetedLibraries.automerge.Documented := opDocs_documented _

/-- What is saved of the document in short: the nonce and the cipher's label. -/
def shortPayload : Bytes :=
  List.replicate 12 0 ++ (Codec.utf8.enc "r" ++ Codec.utf8.enc "alterchat-open-room")

theorem shortPayload_padded : (Traffic.unpadMessage (Traffic.padMessage shortPayload)).getD
    (Traffic.padMessage shortPayload) = shortPayload := by
  have hlen : shortPayload.length < 2 ^ 32 := by decide
  rw [Traffic.unpadMessage_padMessage hlen]
  rfl

/-- That is what actor 2 publishes of the greeting. -/
theorem greeting_published (doc : OpDoc) (payload : Bytes)
    (happ : appendMessage greetedLibraries.automerge (newRoom greetedLibraries 2 "r" none).doc
      (greetingArgs.message "p") = (.ok (), doc))
    (hpay : encryptPayload greetedLibraries (deriveRoomKey greetedLibraries "r" none)
      greetingArgs.nonce (greetedLibraries.automerge.save doc).1 = .ok payload) :
    (Traffic.unpadMessage (Traffic.padMessage shortPayload)).getD
      (Traffic.padMessage shortPayload) = payload := by
  have hdoc : doc = greetedDoc := congrArg Prod.snd happ.symm
  have hbytes : (greetedLibraries.automerge.save doc).1 = [] := by
    rw [hdoc]
    exact Codec.short_self _ _
  rw [hbytes] at hpay
  cases hpay
  exact shortPayload_padded

/-- Actor 1 hears a message in a new room and answers. -/
theorem stored_keeps_messages_said : ∃ loop₁ loop₂,
    RoomStep Signatures.tagged .numbered greetedLibraries (quietLoop greetedLibraries 1 "r" none)
      (.receive noFaults "r" (Traffic.padMessage shortPayload) 3 0) loop₁ ∧
    (∀ now, Room.getMessages greetedLibraries loop₁.room now =
      .ok [(greetingArgs.message "p").shown now]) ∧
    RoomStep Signatures.tagged .numbered greetedLibraries loop₁
      (RoomEvent.send noFaults greetingArgs) loop₂ ∧ Kept greetedLibraries "r" none loop₂ := by
  have hlt : twoActors .left < twoActors .right := by decide
  have htopic : "r" ≠ REVOCATION_TOPIC := by decide
  obtain ⟨loop₁, loop₂, hstep₁, hshows, hstep₂, hreach⟩ := heard_and_answered Signatures.tagged
    .numbered labelled_lawful greetedLibraries_documented (fun _ => rfl) hlt greetingArgs
    greetingArgs
    greeting_published htopic 3 0
  exact ⟨loop₁, loop₂, hstep₁, hshows, hstep₂, stored_keeps_messages Signatures.tagged .numbered
    labelled_lawful greetedLibraries_documented hreach⟩

/-- In the first libraries it is what the new room of actor 1 saves. -/
theorem newRoom_saved : (Room.save roomLibraries (newRoom roomLibraries 1 "r" none)
    (Vector.replicate 12 0)).1 = .ok shortPayload := by
  have hops : (newRoom roomLibraries 1 "r" none).doc.ops = [creation 1] := rfl
  have hbytes : (roomLibraries.automerge.save (newRoom roomLibraries 1 "r" none).doc).1 = [] := by
    show ((Codec.ofEncodable (List PlainOp)).short [creation 1]).enc
      (newRoom roomLibraries 1 "r" none).doc.ops = []
    rw [hops]
    exact Codec.short_self _ _
  unfold Room.save encryptPayload
  simp only [hbytes]
  rfl

/-- **A document that is behind loses a message**: the room of actor 2 has a message, the new room
    of actor 1 has none, and its saved bytes are what is stored in the end. -/
theorem stored_loses_message :
    RoomStart roomLibraries "r" none (quietLoop roomLibraries 2 "r" none) ∧
    ∃ loop₁ loop₂, RoomStep Signatures.tagged .numbered roomLibraries
        (quietLoop roomLibraries 2 "r" none) (RoomEvent.send noFaults greetingArgs) loop₁ ∧
      RoomStep Signatures.tagged .numbered roomLibraries loop₁
        (.receive noFaults "r" (Traffic.padMessage shortPayload) 3 0) loop₂ ∧
      ¬ Kept roomLibraries "r" none loop₂ := by
  have hlt : twoActors .left < twoActors .right := by decide
  have htopic : "r" ≠ REVOCATION_TOPIC := by decide
  exact ⟨quietLoop_start roomLibraries_documented 2,
    behind_breaks Signatures.tagged .numbered labelled_lawful roomLibraries_documented
    (fun _ => rfl)
      hlt newRoom_saved shortPayload_padded htopic greetingArgs 3 0⟩

end AlterChat.RoomStore
