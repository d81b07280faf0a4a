import AlterChat.Core.RoomGrowth
import AlterChat.Tauri.RoomStore

/-!
# Rooms that are entered with a password

The arms `JoinChannel` and `JoinAnonymousChannel` of the event loop. A stored room that does not
open with the password given is treated like one that is not stored: the loop goes on with a new
room under the key of that password, and the next save goes to the same row.

* §1 the two arms, §2 runs of joins, messages and received payloads;
* §3 `Survives` -- what a row of `rooms` yielded under a password, it still yields;
* §4 `history_survives` -- it does in every run in which a room is written under its own key only;
* §5 `wrong_password_destroys` -- a join with another password, and a message.
-/

namespace AlterChat.RoomStore

open Lib Crdt Governance Db

/-! ## 1. The arms -/

/-- What the arms hand to the network and the frontend. -/
inductive SwitchEffect where
  | unsubscribe (topic : String)
  | subscribe (topic : String)
  | anonymousChannelJoined (roomId : String)
  | room (effect : RoomEffect)
  deriving DecidableEq

variable {Keypair Pub Key Actor Scalar Doc : Type}

/-- The arm `AppCommand::JoinChannel`. -/
def joinChannel (L : Libraries Key Actor Scalar Doc) (f : Faults) (loop : RoomLoop Key Doc)
    (actor : Actor) (nowMs : Int64) (name : String) (password : Option String) :
    Option (RoomLoop Key Doc × List SwitchEffect) :=
  match loop.conn with
  | none => some (loop, [])
  | some conn =>
    if loop.swarm = false then some (loop, [])
    else
      match openRoom L f conn actor name password with
      | .error _ => none
      | .ok room =>
        let effects := [.unsubscribe loop.currentTopicName, .subscribe name]
        let loop := { loop with room, currentTopicName := name }
        match Room.getMessages L room nowMs with
        | .error .panic => none
        | .error (.err _) => some (loop, effects)
        | .ok msgs => some (loop, effects ++ [.room (.chatHistory msgs)])

/-- `format!("anon_{:016x}", hash)`. -/
def anonRoomId (hash : UInt64) : String :=
  let digits := Nat.toDigits 16 hash.toNat
  "anon_" ++ String.ofList (List.replicate (16 - digits.length) '0' ++ digits)

example : anonRoomId 0x2a = "anon_000000000000002a" := by decide

/-- The arm `AppCommand::JoinAnonymousChannel`; `hash` is what `DefaultHasher` makes of the display
    name and the clock. -/
def joinAnonymousChannel (L : Libraries Key Actor Scalar Doc) (loop : RoomLoop Key Doc)
    (actor : Actor) (hash : UInt64) : Option (RoomLoop Key Doc × List SwitchEffect) :=
  let anonId := anonRoomId hash
  match Room.new L actor anonId none with
  | .error _ => none
  | .ok room =>
    some ({ loop with room, currentTopicName := anonId },
      (if loop.swarm then [.subscribe anonId] else []) ++ [.anonymousChannelJoined anonId])

/-! ## 2. Runs -/

inductive SwitchEvent (Actor : Type) where
  | join (f : Faults) (actor : Actor) (nowMs : Int64) (name : String) (password : Option String)
  | joinAnonymous (actor : Actor) (hash : UInt64)
  | room (ev : RoomEvent Actor)

/-- The loop after an event, unless it panics. -/
def RoomLoop.switch (S : Signatures Keypair Pub) (W : Wire) (L : Libraries Key Actor Scalar Doc)
    (loop : RoomLoop Key Doc) : SwitchEvent Actor → Option (RoomLoop Key Doc)
  | .join f actor nowMs name password =>
    (joinChannel L f loop actor nowMs name password).map fun r => r.1
  | .joinAnonymous actor hash => (joinAnonymousChannel L loop actor hash).map fun r => r.1
  | .room ev => loop.after S W L ev

def SwitchStep (S : Signatures Keypair Pub) (W : Wire) (L : Libraries Key Actor Scalar Doc)
    (loop : RoomLoop Key Doc) (ev : SwitchEvent Actor) (loop' : RoomLoop Key Doc) : Prop :=
  loop.switch S W L ev = some loop'

/-- A session has just opened a room, and the row of `id` loads with the password. -/
def SwitchStart (L : Libraries Key Actor Scalar Doc) (id : String) (password : Option String)
    (loop : RoomLoop Key Doc) : Prop :=
  ∃ f conn actor name password', loop.conn = some conn ∧ loop.currentTopicName = name ∧
    f .loadRoom = none ∧ openRoom L f conn actor name password' = .ok loop.room ∧
    ∃ bytes actor' room, conn.rooms.lookup id = some bytes ∧
      Room.load L actor' id bytes password = .ok room

/-! ## 3. What a row yields -/

/-- **The property between two states**: what the row of `id` yielded under the password, it still
    yields. -/
def Survives (L : Libraries Key Actor Scalar Doc) (id : String) (password : Option String)
    (loop loop' : RoomLoop Key Doc) : Prop :=
  ∀ conn bytes actor room, loop.conn = some conn → conn.rooms.lookup id = some bytes →
    Room.load L actor id bytes password = .ok room →
      ∃ conn' bytes', loop'.conn = some conn' ∧ conn'.rooms.lookup id = some bytes' ∧
        ∀ actor', ∃ room', Room.load L actor' id bytes' password = .ok room' ∧ Keeps L room room'

/-- The room's key is the one of `id` and the password. -/
def RightKey (L : Libraries Key Actor Scalar Doc) (id : String) (password : Option String)
    (room : Room Key Doc) : Prop :=
  room.encryptionKey = deriveRoomKey L id password

section

variable [LinearOrder Actor] [DecidableEq Scalar]

/-- What `SendMessage` needs: the key, where it writes; a list that is a list. -/
def SendCond (S : Signatures Keypair Pub) (W : Wire) (L : Libraries Key Actor Scalar Doc)
    (id : String) (password : Option String) (loop : RoomLoop Key Doc) (f : Faults)
    (args : SendArgs) : Prop :=
  ∀ conn, loop.conn = some conn → loop.swarm = true →
    Commands.roomActionAllowed S W f conn id loop.myPeerId .Write args.checkedAt = true →
      (f .saveRoom = none → RightKey L id password loop.room) ∧
      (RightKey L id password loop.room → ∀ v o,
        L.automerge.getKey loop.room.doc .root "messages" = .ok (some (v, o)) →
          Orderly (L.automerge.history loop.room.doc) o)

/-- What a payload that merges needs: the key, where it is stored; every change of the room but
    lists that lose, and every message that is stored. -/
def ReceiveCond (L : Libraries Key Actor Scalar Doc) (id : String) (password : Option String)
    (loop : RoomLoop Key Doc) (f : Faults) (actor : Actor) (payload : Bytes) : Prop :=
  ∀ plain other, decryptPayload L loop.room.encryptionKey payload = .ok plain →
    L.automerge.load actor plain = .ok other →
    (∃ doc, L.automerge.merge loop.room.doc other = .ok doc) →
      (f .saveRoom = none → RightKey L id password loop.room) ∧
      (RightKey L id password loop.room →
        (∀ op ∈ L.automerge.history loop.room.doc, op ∈ L.automerge.history other ∨
          Loses (L.automerge.history other) op) ∧
        ∀ conn bytes actor' stored, loop.conn = some conn → conn.rooms.lookup id = some bytes →
          Room.load L actor' id bytes password = .ok stored →
            Keeps L stored { loop.room with doc := other })

/-- **The condition on an event**: the room `id` is joined with any password, but read from the
    database where the password is the right one; and it is written under its own key only. -/
def SwitchCond (S : Signatures Keypair Pub) (W : Wire) (L : Libraries Key Actor Scalar Doc)
    (id : String) (password : Option String) (loop : RoomLoop Key Doc) : SwitchEvent Actor → Prop
  | .join f _ _ name password' => name = id →
    deriveRoomKey L id password' = deriveRoomKey L id password → f .loadRoom = none
  | .joinAnonymous _ hash => anonRoomId hash ≠ id
  | .room (.send f args) => loop.currentTopicName = id → SendCond S W L id password loop f args
  | .room (.receive f topic data actor _) => loop.currentTopicName = id → topic ≠ REVOCATION_TOPIC →
    ReceiveCond L id password loop f actor ((Traffic.unpadMessage data).getD data)

/-! ## 4. What survives -/

/-- **The invariant**: the row loads and yields what `room₀` shows, and so does the current room
    where it is this one under this key. -/
def HistoryInv (L : Libraries Key Actor Scalar Doc) (id : String) (password : Option String)
    (room₀ : Room Key Doc) (loop : RoomLoop Key Doc) : Prop :=
  ∃ conn bytes actor stored, loop.conn = some conn ∧ conn.rooms.lookup id = some bytes ∧
    Room.load L actor id bytes password = .ok stored ∧ Keeps L room₀ stored ∧
    (loop.currentTopicName = id → RightKey L id password loop.room → Keeps L stored loop.room)

variable {S : Signatures Keypair Pub} {W : Wire} {L : Libraries Key Actor Scalar Doc} {id : String}
  {password : Option String} {room₀ : Room Key Doc}

/-- **A blob loads the same under every actor.** -/
theorem load_any (hA : L.automerge.Documented) {actor : Actor} {bytes : Bytes} {room : Room Key Doc}
    (h : Room.load L actor id bytes password = .ok room) {password' : Option String}
    (hkey : deriveRoomKey L id password' = deriveRoomKey L id password) (actor' : Actor) :
    ∃ room', Room.load L actor' id bytes password' = .ok room' ∧
      L.automerge.history room'.doc = L.automerge.history room.doc := by
  obtain ⟨-, plain, hplain, hload⟩ := load_cases h
  obtain ⟨doc', hload', hH⟩ := hA.load_again _ _ _ hload actor'
  rw [← hkey] at hplain
  exact ⟨_, load_eq hplain hload', hH⟩

/-- **Opening the room with the right password** shows what is stored. -/
theorem openRoom_keeps (hA : L.automerge.Documented) {f : Faults} {conn : Database} {actor : Actor}
    {name : String} {password' : Option String} {room : Room Key Doc}
    (hopen : openRoom L f conn actor name password' = .ok room) {bytes : Bytes} {actor' : Actor}
    {stored : Room Key Doc} (hlookup : conn.rooms.lookup id = some bytes)
    (hload : Room.load L actor' id bytes password = .ok stored)
    (hf : name = id → deriveRoomKey L id password' = deriveRoomKey L id password →
      f .loadRoom = none) (hname : name = id) (hkey : RightKey L id password room) :
    Keeps L stored room := by
  subst hname
  -- whichever way the room was opened, its key is that of the password given
  have hgiven : room.encryptionKey = deriveRoomKey L name password' := by
    unfold openRoom at hopen
    split at hopen
    · split at hopen
      · next hl =>
        cases hopen
        exact (load_cases hl).1
      · exact (new_creations hA hopen).1
    · exact (new_creations hA hopen).1
  have hkeys := hgiven.symm.trans hkey
  obtain ⟨room', hload', hH⟩ := load_any hA hload hkeys actor
  have hread : loadRoom f conn name = .ok (some bytes) := by
    unfold loadRoom query
    rw [hf rfl hkeys, hlookup]
  unfold openRoom at hopen
  simp only [hread, hload'] at hopen
  cases hopen
  exact .of_history hA hH.symm

theorem historyInv_start (hA : L.automerge.Documented) {loop : RoomLoop Key Doc}
    (h : SwitchStart L id password loop) : ∃ room₀, HistoryInv L id password room₀ loop := by
  obtain ⟨f, conn, actor, name, password', hconn, htopic, hf, hopen, bytes, actor', room, hlookup,
    hload⟩ := h
  refine ⟨room, conn, bytes, actor', room, hconn, hlookup, hload, .of_history hA rfl,
    fun hid hkey => ?_⟩
  exact openRoom_keeps hA hopen hlookup hload (fun _ _ => hf) (htopic.symm.trans hid) hkey

/-- The invariant speaks for whatever the row yields. -/
theorem HistoryInv.of_load (hA : L.automerge.Documented) {loop : RoomLoop Key Doc}
    (h : HistoryInv L id password room₀ loop) {conn : Database} {bytes : Bytes} {actor : Actor}
    {room : Room Key Doc} (hconn : loop.conn = some conn)
    (hlookup : conn.rooms.lookup id = some bytes)
    (hload : Room.load L actor id bytes password = .ok room) :
    HistoryInv L id password room loop := by
  obtain ⟨conn', bytes', actor', stored, hconn', hlookup', hload', -, hroom⟩ := h
  cases hconn.symm.trans hconn'
  cases hlookup.symm.trans hlookup'
  obtain ⟨room', hroom', hH⟩ := load_any hA hload rfl actor'
  cases hload'.symm.trans hroom'
  exact ⟨conn, bytes, actor', stored, hconn, hlookup, hload', .of_history hA hH.symm, hroom⟩

omit [LinearOrder Actor] [DecidableEq Scalar] in
/-- What a save of a room leaves in a row: the blob in its own, if the statement succeeds. -/
theorem saveRoom_row (f : Faults) (conn : Database) (name : String) (blob : Bytes) (id : String) :
    (saveRoom f conn name blob).2.rooms.lookup id =
      if f .saveRoom = none ∧ id = name then some blob else conn.rooms.lookup id := by
  unfold saveRoom execute
  cases hf : f .saveRoom with
  | some e => simp
  | none =>
    simp only [true_and]
    exact Table.lookup_upsert_const _ _ _ _

omit [LinearOrder Actor] [DecidableEq Scalar] in
/-- **The invariant after a save of the current room** under its key: what is saved shows what was
    stored, and so does the room. -/
theorem HistoryInv.save {loop loop' : RoomLoop Key Doc}
    (h : HistoryInv L id password room₀ loop) {f : Faults} {conn conn' : Database} (blob : Bytes)
    (hconn : loop.conn = some conn) (hconn' : loop'.conn = some conn')
    (htopic : loop'.currentTopicName = loop.currentTopicName)
    (hkey : loop'.room.encryptionKey = loop.room.encryptionKey)
    (hrow : conn'.rooms.lookup id = (saveRoom f conn loop.currentTopicName blob).2.rooms.lookup id)
    (hsave : loop.currentTopicName = id → (f .saveRoom = none → RightKey L id password loop.room) ∧
      (RightKey L id password loop.room → ∀ stored bytes actor,
        conn.rooms.lookup id = some bytes → Room.load L actor id bytes password = .ok stored →
          Keeps L stored loop.room → Keeps L stored loop'.room ∧ ∃ actor' saved,
            Room.load L actor' id blob password = .ok saved ∧ Keeps L stored saved ∧
              Keeps L saved loop'.room)) :
    HistoryInv L id password room₀ loop' := by
  obtain ⟨conn₀, bytes, actor, stored, hconn₀, hlookup, hload, hkeeps, hroom⟩ := h
  cases hconn.symm.trans hconn₀
  rw [saveRoom_row] at hrow
  by_cases hid : loop.currentTopicName = id
  · obtain ⟨hright, hshows⟩ := hsave hid
    by_cases hf : f .saveRoom = none
    · obtain ⟨-, actor', saved, hsaved, hstored, hshown⟩ :=
        hshows (hright hf) stored bytes actor hlookup hload (hroom hid (hright hf))
      rw [if_pos ⟨hf, hid.symm⟩] at hrow
      exact ⟨conn', blob, actor', saved, hconn', hrow, hsaved, hkeeps.trans hstored,
        fun _ _ => hshown⟩
    · rw [if_neg (fun h => hf h.1), hlookup] at hrow
      refine ⟨conn', bytes, actor, stored, hconn', hrow, hload, hkeeps, fun _ hk => ?_⟩
      have hk' : RightKey L id password loop.room := hkey.symm.trans hk
      exact (hshows hk' stored bytes actor hlookup hload (hroom hid hk')).1
  · rw [if_neg (fun h => hid h.2.symm), hlookup] at hrow
    exact ⟨conn', bytes, actor, stored, hconn', hrow, hload, hkeeps,
      fun ht => absurd (htopic.symm.trans ht) hid⟩

omit [LinearOrder Actor] [DecidableEq Scalar] in
/-- The invariant where only the room in memory has changed. -/
theorem HistoryInv.room {loop : RoomLoop Key Doc} (h : HistoryInv L id password room₀ loop)
    {room : Room Key Doc} (hkey : room.encryptionKey = loop.room.encryptionKey)
    (hkeeps : loop.currentTopicName = id → RightKey L id password loop.room →
      Keeps L loop.room room) : HistoryInv L id password room₀ { loop with room } := by
  obtain ⟨conn, bytes, actor, stored, hconn, hlookup, hload, hk, hroom⟩ := h
  refine ⟨conn, bytes, actor, stored, hconn, hlookup, hload, hk, fun hid hright => ?_⟩
  have hright' : RightKey L id password loop.room := hkey.symm.trans hright
  exact (hroom hid hright').trans (hkeeps hid hright')

/-- **`SendMessage` keeps the history.** -/
theorem historyInv_send (hP : L.aead.Lawful) (hA : L.automerge.Documented)
    {loop loop' : RoomLoop Key Doc} (h : HistoryInv L id password room₀ loop) {f : Faults}
    {args : SendArgs}
    (hcond : loop.currentTopicName = id → SendCond S W L id password loop f args)
    {effects : List RoomEffect} (hs : sendMessage S W L f loop args = some (loop', effects)) :
    HistoryInv L id password room₀ loop' := by
  rcases sendMessage_cases hs with rfl | ⟨conn, hconn, hswarm, hallowed, hadded⟩
  · exact h
  have hc : loop.currentTopicName = id → _ :=
    fun hid => hcond hid conn hconn hswarm (hid ▸ hallowed)
  rcases addMessage_cases hA loop.room (args.message loop.myPeerId) args.nonce with
    ⟨stop, hadd⟩ | ⟨doc, happ, hadd⟩
  · -- nothing was added
    rw [hadd] at hadded
    rcases hadded with ⟨e, room, heq, rfl⟩ | ⟨bytes, room, heq, -⟩
    · cases heq
      exact h
    · cases heq
  · have hkept (hid : loop.currentTopicName = id) (hright : RightKey L id password loop.room) :
        Keeps L loop.room { loop.room with doc } := append_keeps hA happ ((hc hid).2 hright)
    rcases hadd with ⟨e, hadd⟩ | ⟨bytes, hpay, hadd⟩
    · -- the message is in the room, but the cipher has refused it
      rw [hadd] at hadded
      rcases hadded with ⟨e, room, heq, rfl⟩ | ⟨bytes, room, heq, -⟩
      · cases heq
        exact h.room rfl fun hid hright =>
          (hkept hid hright).trans (.of_history hA (hA.history_save doc).symm)
      · cases heq
    · rw [hadd] at hadded
      rcases hadded with ⟨e, room, heq, -⟩ | ⟨bytes', room, heq, rfl⟩
      · cases heq
      · cases heq
        refine h.save bytes hconn rfl rfl rfl (by rw [indexRoomMessage_rooms])
          fun hid => ⟨(hc hid).1, fun hright stored _ _ _ _ hshown => ?_⟩
        have hsame : L.automerge.history (L.automerge.save doc).2 = L.automerge.history doc :=
          hA.history_save doc
        obtain ⟨d', hload, hH⟩ := hA.load_save doc (L.automerge.actor doc)
        have hplain := decryptPayload_encrypt hP hpay
        rw [show loop.room.encryptionKey = deriveRoomKey L id password from hright] at hplain
        have hshown' := hshown.trans (hkept hid hright)
        exact ⟨hshown'.trans (.of_history hA hsame.symm), L.automerge.actor doc, _,
          load_eq hplain hload, hshown'.trans (.of_history hA hH.symm),
          .of_history hA (hH.trans hsame.symm)⟩

/-- **A received payload keeps the history.** -/
theorem historyInv_receive (hA : L.automerge.Documented) {loop loop' : RoomLoop Key Doc}
    (h : HistoryInv L id password room₀ loop) {f : Faults} {topic : String} {data : Bytes}
    {actor : Actor} {nowMs : Int64}
    (hcond : loop.currentTopicName = id → topic ≠ REVOCATION_TOPIC →
      ReceiveCond L id password loop f actor ((Traffic.unpadMessage data).getD data))
    {effects : List RoomEffect}
    (hs : gossipMessage W L f loop topic data actor nowMs = some (loop', effects)) :
    HistoryInv L id password room₀ loop' := by
  rcases gossipMessage_cases hs with rfl | ⟨conn, hconn, rfl |
    ⟨htopic, plain, other, doc, hplain, hload, hmerge, rfl⟩⟩
  · exact h
  · obtain ⟨conn', bytes, actor', stored, hconn', hlookup, hrest⟩ := h
    cases hconn.symm.trans hconn'
    have hrooms :=
      congrArg (fun rooms => rooms.lookup id) (revocationMessage_rooms W f conn nowMs data)
    exact ⟨_, bytes, actor', stored, rfl, hrooms.trans hlookup, hrest⟩
  · refine h.save _ hconn rfl rfl rfl rfl fun hid => ?_
    obtain ⟨hright, hextends⟩ := hcond hid htopic plain other hplain hload ⟨doc, hmerge⟩
    refine ⟨hright, fun hkey stored bytes actor' hlookup hstored _ => ?_⟩
    obtain ⟨hall, hshows⟩ := hextends hkey
    have hsaved : Keeps L stored { loop.room with doc := other } :=
      hshows conn bytes actor' stored hconn hlookup hstored
    have hH := hA.history_merge _ _ _ hmerge
    -- the merged document lacks nothing of the received one, which lacks only lists that lose
    have hmerged : Keeps L { loop.room with doc := other } { loop.room with doc } := by
      refine .of_eq fun now => (getMessages_loses hA ?_ (fun op hop => ?_) now).symm
      · show L.automerge.history other ⊆ L.automerge.history doc
        rw [hH]
        exact Finset.subset_union_right
      · rw [show L.automerge.history ({ loop.room with doc } : Room Key Doc).doc =
          L.automerge.history loop.room.doc ∪ L.automerge.history other from hH] at hop
        rcases Finset.mem_union.mp hop with hop | hop
        · exact hall op hop
        · exact .inl hop
    rw [show loop.room.encryptionKey = deriveRoomKey L id password from hkey] at hplain
    exact ⟨hsaved.trans hmerged, actor, _, load_eq hplain hload, hsaved.trans (.of_history hA rfl),
      Keeps.trans (.of_history hA rfl) hmerged⟩

/-- **A join keeps the history**: it writes nothing. -/
theorem historyInv_join (hA : L.automerge.Documented) {loop loop' : RoomLoop Key Doc}
    (h : HistoryInv L id password room₀ loop) {f : Faults} {actor : Actor} {nowMs : Int64}
    {name : String} {password' : Option String}
    (hcond : name = id → deriveRoomKey L id password' = deriveRoomKey L id password →
      f .loadRoom = none) {effects : List SwitchEffect}
    (hs : joinChannel L f loop actor nowMs name password' = some (loop', effects)) :
    HistoryInv L id password room₀ loop' := by
  unfold joinChannel at hs
  split at hs
  · cases hs
    exact h
  · next conn hconn =>
    split at hs
    · cases hs
      exact h
    · split at hs
      · cases hs
      · next room hopen =>
        have hinv :
            HistoryInv L id password room₀ { loop with room, currentTopicName := name } := by
          obtain ⟨conn', bytes, actor', stored, hconn', hlookup, hload, hk, -⟩ := h
          cases hconn.symm.trans hconn'
          refine ⟨conn, bytes, actor', stored, hconn, hlookup, hload, hk, fun hname hkey => ?_⟩
          exact openRoom_keeps hA hopen hlookup hload hcond hname hkey
        split at hs
        · cases hs
        · cases hs
          exact hinv
        · cases hs
          exact hinv

theorem historyInv_step (hP : L.aead.Lawful) (hA : L.automerge.Documented)
    {loop loop' : RoomLoop Key Doc} (h : HistoryInv L id password room₀ loop)
    {ev : SwitchEvent Actor} (hcond : SwitchCond S W L id password loop ev)
    (hs : SwitchStep S W L loop ev loop') : HistoryInv L id password room₀ loop' := by
  cases ev with
  | join f actor nowMs name password' =>
    obtain ⟨⟨loop₁, effects⟩, hr, rfl⟩ := Option.map_eq_some_iff.mp hs
    exact historyInv_join hA h hcond hr
  | joinAnonymous actor hash =>
    obtain ⟨⟨loop₁, effects⟩, hr, rfl⟩ := Option.map_eq_some_iff.mp hs
    unfold joinAnonymousChannel at hr
    simp only at hr
    split at hr
    · cases hr
    · cases hr
      obtain ⟨conn, bytes, actor', stored, hconn, hlookup, hload, hk, -⟩ := h
      exact ⟨conn, bytes, actor', stored, hconn, hlookup, hload, hk, fun hid => absurd hid hcond⟩
  | room ev =>
    cases ev with
    | send f args =>
      obtain ⟨⟨loop₁, effects⟩, hr, rfl⟩ := Option.map_eq_some_iff.mp hs
      exact historyInv_send hP hA h hcond hr
    | receive f topic data actor nowMs =>
      obtain ⟨⟨loop₁, effects⟩, hr, rfl⟩ := Option.map_eq_some_iff.mp hs
      exact historyInv_receive hA h hcond hr

/-- **A room's history survives**, from every state of a run to every later one, where the run meets
    the condition: what its row yields under the password, it goes on yielding. -/
theorem history_survives (S : Signatures Keypair Pub) (W : Wire) (hP : L.aead.Lawful)
    (hA : L.automerge.Documented) {loop loop' : RoomLoop Key Doc}
    (h : Reach (SwitchStart L id password)
      (Guarded (SwitchCond S W L id password) (SwitchStep S W L)) loop)
    (h' : Reach (fun s => s = loop) (Guarded (SwitchCond S W L id password) (SwitchStep S W L))
      loop') : Survives L id password loop loop' := by
  have hinv : ∃ room₀, HistoryInv L id password room₀ loop :=
    h.inv (I := fun s => ∃ room₀, HistoryInv L id password room₀ s)
      (fun _ hs => historyInv_start hA hs)
      fun _ _ _ ⟨room₀, hi⟩ hs => ⟨room₀, historyInv_step hP hA hi hs.1 hs.2⟩
  obtain ⟨room₀, hinv⟩ := hinv
  intro conn bytes actor room hconn hlookup hload
  have hfrom := hinv.of_load hA hconn hlookup hload
  have hlater : HistoryInv L id password room loop' :=
    h'.inv (I := HistoryInv L id password room) (fun s (hs : s = loop) => by rw [hs]; exact hfrom)
      fun _ _ _ hi hs => historyInv_step hP hA hi hs.1 hs.2
  obtain ⟨conn', bytes', actor', stored, hconn', hlookup', hload', hkeeps, -⟩ := hlater
  refine ⟨conn', bytes', hconn', hlookup', fun actor'' => ?_⟩
  obtain ⟨room', hroom', hH⟩ := load_any hA hload' rfl actor''
  exact ⟨room', hroom', hkeeps.trans (.of_history hA hH.symm)⟩

/-! ## 5. Another password -/

/-- A session in a room of its own, and a row of `id`. -/
def rowLoop (L : Libraries Key Actor Scalar Doc) (actor : Actor) (id : String) (bytes : Bytes) :
    RoomLoop Key Doc where
  room := newRoom L actor "q" none
  conn := some (saveRoom noFaults .empty id bytes).2
  swarm := true
  currentTopicName := "q"
  myPeerId := "p"

theorem rowLoop_start (hA : L.automerge.Documented) {actor actor' : Actor} {bytes : Bytes}
    {room : Room Key Doc} (hid : id ≠ "q") (h : Room.load L actor' id bytes password = .ok room) :
    SwitchStart L id password (rowLoop L actor id bytes) := by
  have hrow : ∀ id', (saveRoom noFaults .empty id bytes).2.rooms.lookup id' =
      if id' = id then some bytes else none := by
    intro id'
    rw [saveRoom_row]
    simp [noFaults, Database.empty]
  refine ⟨noFaults, _, actor, "q", none, rfl, rfl, rfl, ?_, bytes, actor', room, ?_, h⟩
  · have hread : loadRoom noFaults (saveRoom noFaults .empty id bytes).2 "q" = .ok none := by
      unfold loadRoom
      rw [query_noFaults, hrow, if_neg hid.symm]
    unfold openRoom
    rw [hread]
    exact newRoom_ok hA actor "q" none
  · rw [hrow, if_pos rfl]

/-- What a new room has saved with its first message loads under its password. -/
theorem load_first (hP : L.aead.Lawful) (hA : L.automerge.Documented)
    (hacc : ∀ m, L.aead.accepts m = true) (nonce : Nonce) (doc : Doc) (actor : Actor) :
    ∃ room, Room.load L actor id (nonce.toList ++
      L.aead.aeadSeal (deriveRoomKey L id password) nonce (L.automerge.save doc).1) password =
        .ok room := by
  have hpay : encryptPayload L (deriveRoomKey L id password) nonce (L.automerge.save doc).1 =
      .ok (nonce.toList ++
        L.aead.aeadSeal (deriveRoomKey L id password) nonce (L.automerge.save doc).1) := by
    unfold encryptPayload
    rw [Primitives.encrypt_of_accepts (hacc _)]
  obtain ⟨d', hload, -⟩ := hA.load_save doc actor
  exact ⟨_, load_eq (decryptPayload_encrypt hP hpay) hload⟩

end

/-- What is saved under one password does not load under another. -/
theorem load_labelled (actor : Nat) (id : String) (password password' : Option String)
    (nonce : Nonce) (plain : Bytes)
    (hlen : (deriveRoomKey roomLibraries id password).length =
      (deriveRoomKey roomLibraries id password').length)
    (hne : deriveRoomKey roomLibraries id password ≠ deriveRoomKey roomLibraries id password') :
    ∃ e, Room.load roomLibraries actor id
      (nonce.toList ++ labelled.aeadSeal (deriveRoomKey roomLibraries id password) nonce plain)
      password' = .error e := by
  have hn : nonce.toList.length = 12 := by simp
  have hplain : decryptPayload roomLibraries (deriveRoomKey roomLibraries id password')
      (nonce.toList ++ labelled.aeadSeal (deriveRoomKey roomLibraries id password) nonce plain) =
        .error "Decryption failed (wrong password?)" := by
    unfold decryptPayload
    rw [dif_neg (by rw [List.length_append, hn]; omega), List.drop_left' hn]
    -- the labelled cipher ignores the nonce
    have hopen : ∀ n, roomLibraries.aead.aeadOpen (deriveRoomKey roomLibraries id password') n
        (labelled.aeadSeal (deriveRoomKey roomLibraries id password) nonce plain) = none :=
      fun n => labelled_open_other hlen hne n plain
    simp only [hopen]
  refine ⟨"Decryption failed (wrong password?)", ?_⟩
  simp only [Room.load, hplain, bind, Except.bind]

/-- The row of "r", saved under "a". -/
theorem stored_under_a : ∃ bytes room, Room.load roomLibraries 2 "r" bytes (some "a") = .ok room ∧
    ∃ nonce plain, bytes = nonce.toList ++
      labelled.aeadSeal (deriveRoomKey roomLibraries "r" (some "a")) nonce plain := by
  obtain ⟨doc, happ, -⟩ := addMessage_new roomLibraries_documented (fun _ => rfl) 2 "r" (some "a")
    greeting (Vector.replicate 12 0)
  have hload : ∃ room, Room.load roomLibraries 2 "r" _ (some "a") = .ok room :=
    load_first labelled_lawful roomLibraries_documented (fun _ => rfl) (Vector.replicate 12 0) doc 2
  obtain ⟨room, hroom⟩ := hload
  exact ⟨_, room, hroom, _, _, rfl⟩

/-- Another password opens a new room, and nothing is written. -/
theorem joined_with_b {bytes : Bytes} {nonce : Nonce} {plain : Bytes}
    (h : bytes = nonce.toList ++
      labelled.aeadSeal (deriveRoomKey roomLibraries "r" (some "a")) nonce plain) :
    SwitchStep Signatures.tagged .numbered roomLibraries (rowLoop roomLibraries 1 "r" bytes)
      (.join noFaults 3 0 "r" (some "b"))
      { rowLoop roomLibraries 1 "r" bytes with
        room := newRoom roomLibraries 3 "r" (some "b")
        currentTopicName := "r" } := by
  have hread : loadRoom noFaults (saveRoom noFaults .empty "r" bytes).2 "r" = .ok (some bytes) := by
    unfold loadRoom
    rw [query_noFaults, saveRoom_row]
    rfl
  obtain ⟨e, he⟩ := load_labelled 3 "r" (some "a") (some "b") nonce plain rfl (by decide)
  rw [← h] at he
  have hopen : openRoom roomLibraries noFaults (saveRoom noFaults .empty "r" bytes).2 3 "r"
      (some "b") = .ok (newRoom roomLibraries 3 "r" (some "b")) := by
    unfold openRoom
    simp only [hread, he]
    exact newRoom_ok roomLibraries_documented 3 "r" (some "b")
  unfold SwitchStep RoomLoop.switch joinChannel rowLoop
  simp [hopen, getMessages_new roomLibraries_documented]

/-- A message under another password replaces the row. -/
theorem sent_under_b (bytes : Bytes) : ∃ nonce plain loop,
    SwitchStep Signatures.tagged .numbered roomLibraries
      { rowLoop roomLibraries 1 "r" bytes with
        room := newRoom roomLibraries 3 "r" (some "b")
        currentTopicName := "r" }
      (.room (.send noFaults greetingArgs)) loop ∧
    ∃ conn, loop.conn = some conn ∧ conn.rooms.lookup "r" = some (nonce.toList ++
      labelled.aeadSeal (deriveRoomKey roomLibraries "r" (some "b")) nonce plain) := by
  obtain ⟨doc, -, hadd⟩ := addMessage_new roomLibraries_documented (fun _ => rfl) 3 "r" (some "b")
    (greetingArgs.message "p") greetingArgs.nonce
  have hallowed : Commands.roomActionAllowed Signatures.tagged .numbered noFaults
      (saveRoom noFaults .empty "r" bytes).2 "r" "p" .Write greetingArgs.checkedAt = true := rfl
  let blob := greetingArgs.nonce.toList ++ labelled.aeadSeal
    (deriveRoomKey roomLibraries "r" (some "b")) greetingArgs.nonce
    (roomLibraries.automerge.save doc).1
  refine ⟨greetingArgs.nonce, (roomLibraries.automerge.save doc).1,
    { rowLoop roomLibraries 1 "r" bytes with
      room := { newRoom roomLibraries 3 "r" (some "b") with
                doc := (roomLibraries.automerge.save doc).2 }
      conn := some (indexRoomMessage noFaults
        (saveRoom noFaults (saveRoom noFaults .empty "r" bytes).2 "r" blob).2 "r" greetingArgs.nick
        greetingArgs.text greetingArgs.sentAt).2
      currentTopicName := "r" }, ?_, _, rfl, ?_⟩
  · unfold SwitchStep RoomLoop.switch RoomLoop.after sendMessage rowLoop
    simp only [hallowed, hadd]
    rfl
  · rw [indexRoomMessage_rooms, saveRoom_row, if_pos ⟨rfl, rfl⟩]

/-- A join with another password leaves the room. -/
theorem history_survives_join : ∃ loop loop', Survives roomLibraries "r" (some "a") loop loop' ∧
    SwitchStep Signatures.tagged .numbered roomLibraries loop (.join noFaults 3 0 "r" (some "b"))
      loop' := by
  obtain ⟨bytes, room, hload, nonce, plain, hbytes⟩ := stored_under_a
  have hstart : SwitchStart roomLibraries "r" (some "a") (rowLoop roomLibraries 1 "r" bytes) :=
    rowLoop_start roomLibraries_documented (by decide) hload
  have hstep := joined_with_b hbytes
  have hcond : SwitchCond Signatures.tagged .numbered roomLibraries "r" (some "a")
      (rowLoop roomLibraries 1 "r" bytes)
      (.join noFaults 3 0 "r" (some "b") : SwitchEvent Nat) :=
    fun _ hkey => absurd hkey (by decide)
  exact ⟨_, _, history_survives Signatures.tagged .numbered labelled_lawful
    roomLibraries_documented (.start _ hstart) (.step _ _ _ (.start _ rfl) ⟨hcond, hstep⟩), hstep⟩

/-- **A wrong password and a message**: the row does not load under its password any more. -/
theorem wrong_password_destroys : ∃ loop loop₁ loop₂,
    SwitchStart roomLibraries "r" (some "a") loop ∧
    SwitchStep Signatures.tagged .numbered roomLibraries loop
      (.join noFaults 3 0 "r" (some "b")) loop₁ ∧
    SwitchStep Signatures.tagged .numbered roomLibraries loop₁ (.room (.send noFaults greetingArgs))
      loop₂ ∧
    ¬ Survives roomLibraries "r" (some "a") loop loop₂ := by
  obtain ⟨bytes, room, hload, nonce, plain, hbytes⟩ := stored_under_a
  have hstart : SwitchStart roomLibraries "r" (some "a") (rowLoop roomLibraries 1 "r" bytes) :=
    rowLoop_start roomLibraries_documented (by decide) hload
  obtain ⟨nonce', plain', loop₂, hsend, conn₂, hconn₂, hrow₂⟩ := sent_under_b bytes
  refine ⟨_, _, loop₂, hstart, joined_with_b hbytes, hsend, fun hsurvives => ?_⟩
  have hrow : (saveRoom noFaults .empty "r" bytes).2.rooms.lookup "r" = some bytes := by
    rw [saveRoom_row]
    rfl
  obtain ⟨conn', bytes', hconn', hrow', hloads⟩ := hsurvives _ bytes 2 room rfl hrow hload
  cases hconn₂.symm.trans hconn'
  cases hrow₂.symm.trans hrow'
  obtain ⟨room', hroom', -⟩ := hloads 2
  obtain ⟨e, he⟩ := load_labelled 2 "r" (some "b") (some "a") nonce' plain' rfl (by decide)
  cases hroom'.symm.trans he

end AlterChat.RoomStore
