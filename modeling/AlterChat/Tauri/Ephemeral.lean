import AlterChat.Tauri.RoomHistory

/-!
# Rooms that are not to be kept

A room is ephemeral where `JoinAnonymousChannel` has entered it ("Kalıcı olmayan oda — kayıt yok"),
or where `room_settings` says that it is not persisted. Neither is known to the arms that write: the
loop keeps no kind with its room, and `persistence_enabled` is read by no arm.

* §1 the kind of the current room and what a database holds of a room, runs that record both;
* §2 `nothing_left` -- nothing is written of an ephemeral room where nothing can be sent in it and
  no payload merges;
* §3 `ephemeral_written` -- one message in a room of either kind.
-/

namespace AlterChat.RoomStore

open Lib Crdt Governance Db

/-! ## 1. What is left of a room -/

/-- `save_room_settings`, both statements. -/
def saveRoomSettings (db : Database) (channelName : String) (settings : RoomSettings) : Database :=
  { db with
    roomSettings := db.roomSettings.upsert channelName settings fun _ => settings
    savedGroups :=
      db.savedGroups.update channelName fun g => { settings with password := g.password } }

/-- `persistence_enabled` of a room, by its row or by default. -/
def persistenceEnabled (db : Database) (channelName : String) : Bool :=
  ((db.roomSettings.lookup channelName).getD .default).persistenceEnabled

/-- What a database holds of a room: its blob, and its texts. -/
def traces (db : Database) (id : String) : Option Bytes × List SearchRow :=
  (db.rooms.lookup id,
    db.messageSearch.filter fun r => decide (r.scope = "room") && decide (r.roomId = id))

/-- The loop, with what it does not record. -/
structure Tracked (Key Doc : Type) where
  loop : RoomLoop Key Doc
  /-- `JoinAnonymousChannel` has entered the current room. -/
  anonymous : Bool
  /-- The ephemeral rooms something was written of. -/
  leaks : List String

variable {Keypair Pub Key Actor Scalar Doc : Type}

/-- The current room is ephemeral. -/
def Tracked.ephemeral (t : Tracked Key Doc) : Bool :=
  t.anonymous || (t.loop.conn.map fun conn => !persistenceEnabled conn t.loop.currentTopicName).getD
    false

inductive TrackedEvent (Actor : Type) where
  | switch (ev : SwitchEvent Actor)
  | settings (channelName : String) (settings : RoomSettings)
  /-- `StartSession`, with the database it opens. -/
  | restart (f : Faults) (conn : Database) (actor : Actor) (myPeerId : String)
  /-- Any other arm or handler, with the database it leaves: it does not touch the room. -/
  | other (conn : Database)

/-- How the current room has been entered, after an event. -/
def Tracked.anonymousAfter (t : Tracked Key Doc) : SwitchEvent Actor → Bool
  | .join .. => if t.loop.conn.isSome && t.loop.swarm then false else t.anonymous
  | .joinAnonymous .. => true
  | .room _ => t.anonymous

/-- What the database of the session holds of the current room. -/
def Tracked.held (t : Tracked Key Doc) (loop : RoomLoop Key Doc) :
    Option (Option Bytes × List SearchRow) :=
  loop.conn.map fun conn => traces conn t.loop.currentTopicName

/-- The state after an event, unless it panics. -/
def Tracked.after (S : Signatures Keypair Pub) (W : Wire) (L : Libraries Key Actor Scalar Doc)
    (t : Tracked Key Doc) : TrackedEvent Actor → Option (Tracked Key Doc)
  | .settings channelName settings =>
    some { t with
      loop := { t.loop with
        conn := t.loop.conn.map fun conn => saveRoomSettings conn channelName settings } }
  | .restart f conn actor myPeerId =>
    match openRoom L f conn actor t.loop.currentTopicName none with
    | .ok room =>
      some { t with loop := { t.loop with room, conn := some conn, swarm := true, myPeerId } }
    | .error _ => none
  | .other conn => some { t with loop := { t.loop with conn := t.loop.conn.map fun _ => conn } }
  | .switch (.room ev) =>
    (t.loop.after S W L ev).map fun loop =>
      { loop
        anonymous := t.anonymous
        leaks := if t.ephemeral && decide (t.held loop ≠ t.held t.loop)
          then t.loop.currentTopicName :: t.leaks else t.leaks }
  | .switch ev =>
    (t.loop.switch S W L ev).map fun loop => { t with loop, anonymous := t.anonymousAfter ev }

def TrackedStep (S : Signatures Keypair Pub) (W : Wire) (L : Libraries Key Actor Scalar Doc)
    (t : Tracked Key Doc) (ev : TrackedEvent Actor) (t' : Tracked Key Doc) : Prop :=
  t.after S W L ev = some t'

/-- **The condition on an event in an ephemeral room**: a message is not permitted, or the document
    takes none, or both statements fail; a payload does not merge, or the statement fails. -/
def EphemeralCond (S : Signatures Keypair Pub) (W : Wire) (L : Libraries Key Actor Scalar Doc)
    (t : Tracked Key Doc) : TrackedEvent Actor → Prop
  | .switch (.room (.send f args)) => t.ephemeral = true → ∀ conn, t.loop.conn = some conn →
    t.loop.swarm = true →
    Commands.roomActionAllowed S W f conn t.loop.currentTopicName t.loop.myPeerId .Write
      args.checkedAt = true →
    (∀ doc, appendMessage L.automerge t.loop.room.doc (args.message t.loop.myPeerId) =
    (.ok (), doc) →
      L.aead.accepts (L.automerge.save doc).1 = false) ∨
    f .saveRoom ≠ none ∧ f .indexRoomMessage ≠ none
  | .switch (.room (.receive f topic data actor _)) =>
    t.ephemeral = true → topic ≠ REVOCATION_TOPIC →
    f .saveRoom = none → ∀ plain other,
      decryptPayload L t.loop.room.encryptionKey ((Traffic.unpadMessage data).getD data) =
      .ok plain →
      L.automerge.load actor plain = .ok other →
      ∃ e, L.automerge.merge t.loop.room.doc other = .error e
  | _ => True

/-! ## 2. Where nothing is left -/

variable {S : Signatures Keypair Pub} {W : Wire} {L : Libraries Key Actor Scalar Doc}

theorem traces_of_rooms {db db' : Database} (hrooms : db'.rooms = db.rooms)
    (hsearch : db'.messageSearch = db.messageSearch) (id : String) :
    traces db' id = traces db id := by
  unfold traces
  rw [hrooms, hsearch]

theorem saveRoom_fault {f : Faults} (h : f .saveRoom ≠ none) (conn : Database) (name : String)
    (blob : Bytes) : (saveRoom f conn name blob).2 = conn := by
  obtain ⟨e, he⟩ := Option.ne_none_iff_exists'.mp h
  simp only [saveRoom, execute, he]

theorem indexRoomMessage_fault {f : Faults} (h : f .indexRoomMessage ≠ none) (conn : Database)
    (roomId sender text : String) (timestamp : Int64) :
    (indexRoomMessage f conn roomId sender text timestamp).2 = conn := by
  obtain ⟨e, he⟩ := Option.ne_none_iff_exists'.mp h
  simp only [indexRoomMessage, execute, he]

theorem revocationMessage_search (W : Wire) (f : Faults) (conn : Database) (nowMs : Int64)
    (data : Bytes) :
    (Commands.revocationMessage W f conn nowMs data).1.messageSearch = conn.messageSearch := by
  unfold Commands.revocationMessage
  split
  · rfl
  · simp only [Db.revokeInvite, markInviteRevoked, execute]
    cases f .markInviteRevoked <;> cases f .revokeInvite <;> rfl

/-- **A message that is not permitted, or not added, leaves nothing.** -/
theorem send_leaves {loop loop' : RoomLoop Key Doc} {f : Faults} {args : SendArgs}
    (hcond : ∀ conn, loop.conn = some conn → loop.swarm = true →
      Commands.roomActionAllowed S W f conn loop.currentTopicName loop.myPeerId .Write
        args.checkedAt = true →
      (∀ doc, appendMessage L.automerge loop.room.doc (args.message loop.myPeerId) = (.ok (), doc) →
        L.aead.accepts (L.automerge.save doc).1 = false) ∨
      f .saveRoom ≠ none ∧ f .indexRoomMessage ≠ none)
    {effects : List RoomEffect} (hs : sendMessage S W L f loop args = some (loop', effects)) :
    loop'.conn = loop.conn := by
  rcases sendMessage_cases hs with rfl | ⟨conn, hconn, hswarm, hallowed,
    ⟨e, room, -, rfl⟩ | ⟨bytes, room, hadd, rfl⟩⟩
  · rfl
  · rfl
  · rcases hcond conn hconn hswarm hallowed with hrefused | ⟨hsave, hindex⟩
    · -- what was added is what the cipher refuses
      exfalso
      unfold Room.addMessage at hadd
      split at hadd
      · cases hadd
      · next doc happ =>
        have hno : Room.save L { loop.room with doc } args.nonce =
            (.error "Encryption failed", { loop.room with doc := (L.automerge.save doc).2 }) := by
          unfold Room.save encryptPayload
          simp only [Primitives.encrypt_of_not_accepts (hrefused doc happ)]
        rw [hno] at hadd
        cases hadd
    · rw [indexRoomMessage_fault hindex, saveRoom_fault hsave]
      exact hconn.symm

/-- **A payload that does not merge leaves nothing.** -/
theorem receive_leaves {loop loop' : RoomLoop Key Doc} {f : Faults} {topic : String} {data : Bytes}
    {actor : Actor} {nowMs : Int64}
    (hcond : topic ≠ REVOCATION_TOPIC → f .saveRoom = none → ∀ plain other,
      decryptPayload L loop.room.encryptionKey ((Traffic.unpadMessage data).getD data) = .ok plain →
      L.automerge.load actor plain = .ok other →
      ∃ e, L.automerge.merge loop.room.doc other = .error e)
    {effects : List RoomEffect}
    (hs : gossipMessage W L f loop topic data actor nowMs = some (loop', effects)) (id : String) :
    loop'.conn.map (fun conn => traces conn id) = loop.conn.map fun conn => traces conn id := by
  rcases gossipMessage_cases hs with rfl | ⟨conn, hconn, rfl |
    ⟨htopic, plain, other, doc, hplain, hload, hmerge, rfl⟩⟩
  · rfl
  · rw [hconn]
    exact congrArg some (traces_of_rooms (revocationMessage_rooms W f conn nowMs data)
      (revocationMessage_search W f conn nowMs data) id)
  · by_cases hf : f .saveRoom = none
    · obtain ⟨e, he⟩ := hcond htopic hf plain other hplain hload
      cases hmerge.symm.trans he
    · rw [hconn, saveRoom_fault hf]

/-- **Nothing is left of an ephemeral room**, in every run that meets the condition. -/
theorem nothing_left (S : Signatures Keypair Pub) (W : Wire) (L : Libraries Key Actor Scalar Doc)
    {t : Tracked Key Doc}
    (h : Reach (fun t => t.leaks = []) (Guarded (EphemeralCond S W L) (TrackedStep S W L)) t) :
    t.leaks = [] := by
  refine h.inv (I := fun t : Tracked Key Doc => t.leaks = []) (fun _ hs => hs)
    fun t ev t' hclean ⟨hcond, hs⟩ => ?_
  cases ev with
  | settings channelName settings =>
    cases hs
    exact hclean
  | restart f conn actor myPeerId =>
    simp only [TrackedStep, Tracked.after] at hs
    split at hs
    · cases hs
      exact hclean
    · cases hs
  | other conn =>
    cases hs
    exact hclean
  | switch ev =>
    cases ev with
    | join f actor nowMs name password =>
      obtain ⟨loop, -, rfl⟩ := Option.map_eq_some_iff.mp hs
      exact hclean
    | joinAnonymous actor hash =>
      obtain ⟨loop, -, rfl⟩ := Option.map_eq_some_iff.mp hs
      exact hclean
    | room ev =>
      obtain ⟨loop, hloop, rfl⟩ := Option.map_eq_some_iff.mp hs
      -- the event leaves what is held of the room, if the room is ephemeral
      have hheld : t.ephemeral = true → t.held loop = t.held t.loop := by
        intro he
        unfold Tracked.held
        cases ev with
        | send f args =>
          obtain ⟨⟨loop₁, effects⟩, hr, rfl⟩ := Option.map_eq_some_iff.mp hloop
          rw [send_leaves (hcond he) hr]
        | receive f topic data actor nowMs =>
          obtain ⟨⟨loop₁, effects⟩, hr, rfl⟩ := Option.map_eq_some_iff.mp hloop
          exact receive_leaves (hcond he) hr _
      show (if _ then _ else _) = _
      rw [if_neg, hclean]
      intro hboth
      obtain ⟨he, hchanged⟩ := Bool.and_eq_true_iff.mp hboth
      exact of_decide_eq_true hchanged (hheld he)

/-! ## 3. A message in a room that is not to be kept -/

/-- A session in its first room. -/
def quietTracked (id : String) : Tracked Bytes OpDoc where
  loop := quietLoop roomLibraries 2 id none
  anonymous := false
  leaks := []

/-- The session, in an anonymous room of actor 3. -/
def anonymousTracked (hash : UInt64) : Tracked Bytes OpDoc where
  loop :=
    { quietLoop roomLibraries 2 "r" none with
      room := newRoom roomLibraries 3 (anonRoomId hash) none
      currentTopicName := anonRoomId hash }
  anonymous := true
  leaks := []

theorem anonymousTracked_step (hash : UInt64) :
    TrackedStep Signatures.tagged .numbered roomLibraries (quietTracked "r")
      (.switch (.joinAnonymous 3 hash)) (anonymousTracked hash) := by
  unfold TrackedStep Tracked.after RoomLoop.switch joinAnonymousChannel
  simp only [newRoom_ok roomLibraries_documented]
  rfl

/-- The room that `room_settings` says is not persisted. -/
def unkeptTracked (id : String) : Tracked Bytes OpDoc :=
  { quietTracked id with
    loop :=
      { quietLoop roomLibraries 2 id none with
        conn := some (saveRoomSettings .empty id
          { RoomSettings.default with persistenceEnabled := false }) } }

/-- **A message in a new room that is ephemeral** is written, where the database holds nothing of
    it. -/
theorem sent_written {t : Tracked Bytes OpDoc} {actor : Nat} {id : String} {conn : Database}
    (hroom : t.loop.room = newRoom roomLibraries actor id none) (hconn : t.loop.conn = some conn)
    (hswarm : t.loop.swarm = true) (hephemeral : t.ephemeral = true)
    (hallowed : Commands.roomActionAllowed Signatures.tagged .numbered noFaults conn
      t.loop.currentTopicName t.loop.myPeerId .Write greetingArgs.checkedAt = true)
    (hrow : conn.rooms.lookup t.loop.currentTopicName = none) :
    ∃ t', TrackedStep Signatures.tagged .numbered roomLibraries t
      (.switch (.room (.send noFaults greetingArgs))) t' ∧
      t'.leaks = t.loop.currentTopicName :: t.leaks := by
  obtain ⟨doc, -, hadd⟩ := addMessage_new roomLibraries_documented (fun _ => rfl) actor id none
    (greetingArgs.message t.loop.myPeerId) greetingArgs.nonce
  rw [← hroom] at hadd
  obtain ⟨loop, effects, hsend, hwritten⟩ : ∃ loop effects,
      sendMessage Signatures.tagged .numbered roomLibraries noFaults t.loop greetingArgs =
        some (loop, effects) ∧ t.held loop ≠ t.held t.loop := by
    unfold sendMessage
    simp only [hconn, hswarm, hallowed, hadd]
    refine ⟨_, _, rfl, fun hheld => ?_⟩
    unfold Tracked.held traces at hheld
    simp only [hconn, Option.map_some, Option.some.injEq, Prod.mk.injEq, indexRoomMessage_rooms,
      saveRoom_row, hrow] at hheld
    cases hheld.1
  refine ⟨{ loop, anonymous := t.anonymous, leaks := t.loop.currentTopicName :: t.leaks }, ?_, rfl⟩
  unfold TrackedStep Tracked.after RoomLoop.after
  simp only [hsend, Option.map_some]
  rw [if_pos (Bool.and_eq_true_iff.mpr ⟨hephemeral, decide_eq_true hwritten⟩)]

/-- In an anonymous room, a payload that is too short. -/
theorem nothing_left_junk : ∃ t, TrackedStep Signatures.tagged .numbered roomLibraries
      (anonymousTracked 0x2a) (.switch (.room (.receive noFaults "r" [] 3 0))) t ∧
      t.leaks = [] := by
  have hshort : ∀ key, decryptPayload roomLibraries key
      ((Traffic.unpadMessage []).getD []) = .error "Payload too short for decryption" :=
        fun _ => rfl
  have hstep : ∃ t, TrackedStep Signatures.tagged .numbered roomLibraries
      (anonymousTracked 0x2a) (.switch (.room (.receive noFaults "r" [] 3 0))) t := ⟨_, rfl⟩
  obtain ⟨t, ht⟩ := hstep
  have hcond : EphemeralCond Signatures.tagged .numbered roomLibraries (anonymousTracked 0x2a)
      (.switch (.room (.receive noFaults "r" [] 3 0))) := by
    intro _ _ _ plain other hplain
    rw [hshort] at hplain
    cases hplain
  have hstart : Reach (fun t : Tracked Bytes OpDoc => t.leaks = [])
      (Guarded (EphemeralCond Signatures.tagged .numbered roomLibraries)
        (TrackedStep Signatures.tagged .numbered roomLibraries)) (quietTracked "r") := .start _ rfl
  have hjoined := hstart.step _ (TrackedEvent.switch (.joinAnonymous 3 0x2a)) _
    ⟨trivial, anonymousTracked_step 0x2a⟩
  exact ⟨t, ht, nothing_left Signatures.tagged .numbered roomLibraries
    (hjoined.step _ _ _ ⟨hcond, ht⟩)⟩

/-- **What is said in an ephemeral room is written**, in a room entered by `JoinAnonymousChannel`
    and in one that `room_settings` says is not persisted. -/
theorem ephemeral_written :
    (∃ t, TrackedStep Signatures.tagged .numbered roomLibraries (quietTracked "r")
        (.switch (.joinAnonymous 3 0x2a)) (anonymousTracked 0x2a) ∧
      TrackedStep Signatures.tagged .numbered roomLibraries (anonymousTracked 0x2a)
        (.switch (.room (.send noFaults greetingArgs))) t ∧ t.leaks ≠ []) ∧
    ∃ t, TrackedStep Signatures.tagged .numbered roomLibraries (quietTracked "r")
        (.settings "r" { RoomSettings.default with persistenceEnabled := false })
        (unkeptTracked "r") ∧
      TrackedStep Signatures.tagged .numbered roomLibraries (unkeptTracked "r")
        (.switch (.room (.send noFaults greetingArgs))) t ∧ t.leaks ≠ [] := by
  constructor
  · obtain ⟨t, hstep, hleaks⟩ := sent_written (t := anonymousTracked 0x2a) rfl rfl rfl rfl rfl rfl
    exact ⟨t, anonymousTracked_step 0x2a, hstep, by rw [hleaks]; exact List.cons_ne_nil _ _⟩
  · obtain ⟨t, hstep, hleaks⟩ := sent_written (t := unkeptTracked "r") rfl rfl rfl rfl rfl rfl
    exact ⟨t, rfl, hstep, by rw [hleaks]; exact List.cons_ne_nil _ _⟩

end AlterChat.RoomStore
