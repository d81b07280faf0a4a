import AlterChat.Tauri.Ephemeral
import AlterChat.Tauri.SessionCommands
import AlterChat.Lib.Mirror
import AlterChat.Lib.Run

/-!
# Settings that are kept twice

`friends` repeats three columns of `peer_settings`, and `saved_groups` all five of `room_settings`.
The two saves write both tables, one statement after the other; the two inserts write one, with
column defaults.

* §1 the functions, §2 `Agree` and the invariant that carries it;
* §3 `SettingsOp.run_agree_iff` -- what one operation needs for the copies to agree afterwards;
* §4 `duplicates_agree` -- in every run whose operations meet that, they agree in every state.
-/

namespace AlterChat.Duplicates

open Lib Db
open Session (SettingsStmt saveSettings)

/-! ## 1. The functions -/

/-- The columns that `friends` repeats. -/
structure PeerCopy where
  trustLevel : Int64
  blocked : Bool
  muted : Bool
  deriving DecidableEq

def copyOfFriend (friend : Friend) : PeerCopy := ⟨friend.trustLevel, friend.blocked, friend.muted⟩

def copyOfSettings (settings : PeerSettings) : PeerCopy :=
  ⟨settings.trustLevel, settings.blocked, settings.muted⟩

/-- The column defaults, of `friends` as of `peer_settings`. -/
def PeerCopy.default : PeerCopy := ⟨0, false, false⟩

/-- `add_friend`, with the error of its statement where that fails. -/
def addFriend (fault : Option String) (db : Database) (peerId nickname : String)
    (offlinePubkey : Option String) : Except String Unit × Database :=
  match fault with
  | some e => (.error e, db)
  | none =>
    (.ok (), { db with
      friends := db.friends.upsert peerId
        { nickname, offlinePubkey, trustLevel := 0, blocked := false, muted := false
          notes := none }
        fun friend => { friend with
          nickname
          offlinePubkey := offlinePubkey.or friend.offlinePubkey } })

/-- `remove_friend`. -/
def removeFriend (fault : Option String) (db : Database) (peerId : String) :
    Except String Unit × Database :=
  match fault with
  | some e => (.error e, db)
  | none => (.ok (), { db with friends := db.friends.erase peerId })

/-- What `endorse_peer` goes on with where the settings cannot be read. -/
def unreadSettings : PeerSettings where
  trustLevel := 0
  blocked := false
  muted := false
  rateLimitPerMinute := 0
  proofOfWorkRequired := false

/-- The settings `endorse_peer` saves. -/
def endorsed (f : Faults) (db : Database) (peerId : String) (score : Int32) : PeerSettings :=
  let settings := (getPeerSettings f db peerId).1.toOption.getD unreadSettings
  { settings with trustLevel := settings.trustLevel + score.toInt64 }

/-- `endorse_peer`, once the database is open. -/
def endorsePeer (f : Faults) (sf : SettingsStmt → Option String) (db : Database) (peerId : String)
    (score : Int32) : Except String Unit × Database :=
  saveSettings sf (getPeerSettings f db peerId).2 peerId (endorsed f db peerId score)

/-- `remove_group`. -/
def removeGroup (fault : Option String) (db : Database) (channelName : String) :
    Except String Unit × Database :=
  match fault with
  | some e => (.error e, db)
  | none => (.ok (), { db with savedGroups := db.savedGroups.erase channelName })

/-- The statements of `get_room_settings` and `save_room_settings`. -/
inductive RoomStmt where
  | insertDefault
  | select
  | upsertRoomSettings
  | updateSavedGroup
  deriving DecidableEq

/-- `get_room_settings`: it inserts the default row where there is none. -/
def getRoomSettings (f : RoomStmt → Option String) (db : Database) (channelName : String) :
    Except String RoomSettings × Database :=
  match f .insertDefault with
  | some e => (.error e, db)
  | none =>
    let db := { db with roomSettings := db.roomSettings.insertIgnore channelName .default }
    match f .select with
    | some e => (.error e, db)
    | none => (.ok ((db.roomSettings.lookup channelName).getD .default), db)

/-- `save_room_settings`. -/
def saveRoomSettings (f : RoomStmt → Option String) (db : Database) (channelName : String)
    (settings : RoomSettings) : Except String Unit × Database :=
  match f .upsertRoomSettings with
  | some e => (.error e, db)
  | none =>
    let db :=
      { db with roomSettings := db.roomSettings.upsert channelName settings fun _ => settings }
    match f .updateSavedGroup with
    | some e => (.error e, db)
    | none =>
      (.ok (), { db with
        savedGroups :=
          db.savedGroups.update channelName fun g => { settings with password := g.password } })

/-- Where no statement fails, it is the function of `RoomStore`. -/
theorem saveRoomSettings_noFaults (db : Database) (channelName : String) (settings : RoomSettings) :
    (saveRoomSettings (fun _ => none) db channelName settings).2 =
      RoomStore.saveRoomSettings db channelName settings := rfl

/-! ## 2. Agreement -/

/-- What is kept twice is the same in both places. -/
structure Agree (db : Database) : Prop where
  peers : Agrees copyOfFriend copyOfSettings db.friends db.peerSettings
  rooms : Agrees SavedGroup.toRoomSettings id db.savedGroups db.roomSettings

/-- The invariant: where there is one copy only, it has the defaults. -/
structure Inv (db : Database) : Prop where
  peers : Mirrors copyOfFriend copyOfSettings .default db.friends db.peerSettings
  rooms : Mirrors SavedGroup.toRoomSettings id .default db.savedGroups db.roomSettings

theorem Inv.agree {db : Database} (h : Inv db) : Agree db := ⟨h.peers.agrees, h.rooms.agrees⟩

theorem inv_empty : Inv .empty := ⟨.empty, .empty⟩

section

variable {db : Database}

theorem agree_iff_peers (h : Inv db) {friends : Table String Friend}
    {peerSettings : Table String PeerSettings} : Agree { db with friends, peerSettings } ↔
      Agrees copyOfFriend copyOfSettings friends peerSettings :=
  ⟨fun h' => h'.peers, fun h' => ⟨h', h.rooms.agrees⟩⟩

theorem agree_iff_rooms (h : Inv db) {savedGroups : Table String SavedGroup}
    {roomSettings : Table String RoomSettings} : Agree { db with savedGroups, roomSettings } ↔
      Agrees SavedGroup.toRoomSettings id savedGroups roomSettings :=
  ⟨fun h' => h'.rooms, fun h' => ⟨h.peers.agrees, h'⟩⟩

/-! ### `friends` and `peer_settings` -/

theorem addFriend_agree_iff (h : Inv db) (fault : Option String) (peerId nickname : String)
    (offlinePubkey : Option String) :
    Agree (addFriend fault db peerId nickname offlinePubkey).2 ↔
      (fault = none → db.friends.lookup peerId = none → ∀ settings,
        db.peerSettings.lookup peerId = some settings → copyOfSettings settings = .default) := by
  cases fault with
  | some e => exact iff_of_true h.agree nofun
  | none =>
    refine (agree_iff_peers h).trans ((h.peers.upsert_copy_iff _ _ ?_ ?_).trans ?_)
    · rfl
    · exact fun _ => rfl
    · exact ⟨fun h' _ => h', fun h' => h' rfl⟩

theorem addFriend_inv (h : Inv db) (fault : Option String) (peerId nickname : String)
    (offlinePubkey : Option String)
    (hagree : Agree (addFriend fault db peerId nickname offlinePubkey).2) :
    Inv (addFriend fault db peerId nickname offlinePubkey).2 := by
  cases fault with
  | some e => exact h
  | none => exact ⟨⟨hagree.peers, h.peers.upsert_copy_lone _ _ rfl fun _ => rfl⟩, h.rooms⟩

theorem removeFriend_inv (h : Inv db) (fault : Option String) (peerId : String) :
    Inv (removeFriend fault db peerId).2 := by
  cases fault with
  | some e => exact h
  | none => exact ⟨h.peers.erase_copy, h.rooms⟩

theorem getPeerSettings_inv (h : Inv db) (f : Faults) (peerId : String) :
    Inv (getPeerSettings f db peerId).2 := by
  unfold getPeerSettings
  rcases execute_cases f .insertPeerSettings db
    { db with
      peerSettings := db.peerSettings.insertIgnore peerId .default } with ⟨-, hx⟩ | ⟨e, -, hx⟩
  · rw [hx]
    exact ⟨h.peers.insertIgnore rfl, h.rooms⟩
  · rw [hx]
    exact h

/-- What a save needs: its second statement succeeds, or there is nothing for it to change. -/
def FriendFollows (f : SettingsStmt → Option String) (db : Database) (peerId : String)
    (settings : PeerSettings) : Prop :=
  f .upsertPeerSettings = none → f .updateFriend ≠ none → ∀ friend,
    db.friends.lookup peerId = some friend → copyOfFriend friend = copyOfSettings settings

theorem saveSettings_agree_iff (h : Inv db) (f : SettingsStmt → Option String) (peerId : String)
    (settings : PeerSettings) :
    Agree (saveSettings f db peerId settings).2 ↔ FriendFollows f db peerId settings := by
  unfold saveSettings FriendFollows
  cases f .upsertPeerSettings with
  | some e => exact iff_of_true h.agree nofun
  | none =>
    cases f .updateFriend with
    | some e =>
      refine (agree_iff_peers h).trans (h.peers.upsert_table_iff.trans ?_)
      exact ⟨fun h' _ _ => h', fun h' => h' rfl nofun⟩
    | none =>
      refine iff_of_true ((agree_iff_peers h).mpr ?_) fun _ hno => absurd rfl hno
      exact (h.peers.upsert_both fun _ => rfl).agrees

theorem saveSettings_inv (h : Inv db) (f : SettingsStmt → Option String) (peerId : String)
    (settings : PeerSettings) (hagree : Agree (saveSettings f db peerId settings).2) :
    Inv (saveSettings f db peerId settings).2 := by
  unfold saveSettings at hagree ⊢
  cases hf : f .upsertPeerSettings with
  | some e => exact h
  | none =>
    rw [hf] at hagree
    cases hf' : f .updateFriend with
    | some e =>
      rw [hf'] at hagree
      exact ⟨⟨hagree.peers, h.peers.upsert_table_lone⟩, h.rooms⟩
    | none => exact ⟨h.peers.upsert_both fun _ => rfl, h.rooms⟩

/-! ### `saved_groups` and `room_settings` -/

/-- `saved_groups` after the first statement of `save_group`. -/
def withGroup (db : Database) (channelName : String) (password : Option String) :
    Table String SavedGroup :=
  db.savedGroups.upsert channelName { RoomSettings.default with password } fun g =>
    { g with password }

theorem withGroup_lone (h : Inv db) (channelName : String) (password : Option String) :
    ∀ c group, (withGroup db channelName password).lookup c = some group →
      db.roomSettings.lookup c = none → group.toRoomSettings = .default :=
  h.rooms.upsert_copy_lone _ _ rfl fun _ => rfl

theorem saveGroup_agree_iff (h : Inv db) (f : Faults) (channelName : String)
    (password : Option String) :
    Agree (saveGroup f db channelName password).2 ↔
      (f .saveGroup = none → db.savedGroups.lookup channelName = none → ∀ settings,
        db.roomSettings.lookup channelName = some settings → settings = .default) := by
  have hcopy : Agrees SavedGroup.toRoomSettings id (withGroup db channelName password)
      db.roomSettings ↔ _ := h.rooms.upsert_copy_iff _ _ rfl fun _ => rfl
  unfold saveGroup execute
  cases f .saveGroup with
  | some e => exact iff_of_true h.agree nofun
  | none =>
    refine Iff.trans ?_ (hcopy.trans ⟨fun h' _ => h', fun h' => h' rfl⟩)
    cases f .insertRoomSettings with
    | some e => exact agree_iff_rooms h
    | none =>
      exact (agree_iff_rooms h).trans
        (agrees_insertIgnore_iff rfl (withGroup_lone h channelName password))

theorem saveGroup_inv (h : Inv db) (f : Faults) (channelName : String) (password : Option String)
    (hagree : Agree (saveGroup f db channelName password).2) :
    Inv (saveGroup f db channelName password).2 := by
  unfold saveGroup execute at hagree ⊢
  cases hf : f .saveGroup with
  | some e => exact h
  | none =>
    have hlone := withGroup_lone h channelName password
    rw [hf] at hagree
    cases hf' : f .insertRoomSettings with
    | some e =>
      simp only [hf'] at hagree
      exact ⟨h.peers, ⟨hagree.rooms, hlone⟩⟩
    | none =>
      simp only [hf'] at hagree
      have hcopy := (agrees_insertIgnore_iff rfl hlone).mp hagree.rooms
      exact ⟨h.peers, Mirrors.insertIgnore ⟨hcopy, hlone⟩ rfl⟩

theorem removeGroup_inv (h : Inv db) (fault : Option String) (channelName : String) :
    Inv (removeGroup fault db channelName).2 := by
  cases fault with
  | some e => exact h
  | none => exact ⟨h.peers, h.rooms.erase_copy⟩

theorem getRoomSettings_inv (h : Inv db) (f : RoomStmt → Option String) (channelName : String) :
    Inv (getRoomSettings f db channelName).2 := by
  unfold getRoomSettings
  cases f .insertDefault with
  | some e => exact h
  | none => cases f .select <;> exact ⟨h.peers, h.rooms.insertIgnore rfl⟩

/-- What a save needs, as for a peer. -/
def GroupFollows (f : RoomStmt → Option String) (db : Database) (channelName : String)
    (settings : RoomSettings) : Prop :=
  f .upsertRoomSettings = none → f .updateSavedGroup ≠ none → ∀ group,
    db.savedGroups.lookup channelName = some group → group.toRoomSettings = settings

theorem saveRoomSettings_agree_iff (h : Inv db) (f : RoomStmt → Option String)
    (channelName : String) (settings : RoomSettings) :
    Agree (saveRoomSettings f db channelName settings).2 ↔
    GroupFollows f db channelName settings := by
  unfold saveRoomSettings GroupFollows
  cases f .upsertRoomSettings with
  | some e => exact iff_of_true h.agree nofun
  | none =>
    cases f .updateSavedGroup with
    | some e =>
      refine (agree_iff_rooms h).trans (h.rooms.upsert_table_iff.trans ?_)
      exact ⟨fun h' _ _ => h', fun h' => h' rfl nofun⟩
    | none =>
      refine iff_of_true ((agree_iff_rooms h).mpr ?_) fun _ hno => absurd rfl hno
      exact (h.rooms.upsert_both (s := settings) fun _ => rfl).agrees

theorem saveRoomSettings_inv (h : Inv db) (f : RoomStmt → Option String) (channelName : String)
    (settings : RoomSettings) (hagree : Agree (saveRoomSettings f db channelName settings).2) :
    Inv (saveRoomSettings f db channelName settings).2 := by
  unfold saveRoomSettings at hagree ⊢
  cases hf : f .upsertRoomSettings with
  | some e => exact h
  | none =>
    rw [hf] at hagree
    cases hf' : f .updateSavedGroup with
    | some e =>
      rw [hf'] at hagree
      exact ⟨h.peers, ⟨hagree.rooms, h.rooms.upsert_table_lone⟩⟩
    | none => exact ⟨h.peers, h.rooms.upsert_both (s := settings) fun _ => rfl⟩

end

/-! ## 3. One operation -/

inductive SettingsOp where
  | addFriend (fault : Option String) (peerId nickname : String) (offlinePubkey : Option String)
  | removeFriend (fault : Option String) (peerId : String)
  | getPeerSettings (f : Faults) (peerId : String)
  | savePeerSettings (f : SettingsStmt → Option String) (peerId : String) (settings : PeerSettings)
  | endorsePeer (f : Faults) (sf : SettingsStmt → Option String) (peerId : String) (score : Int32)
  | saveGroup (f : Faults) (channelName : String) (password : Option String)
  | removeGroup (fault : Option String) (channelName : String)
  | getRoomSettings (f : RoomStmt → Option String) (channelName : String)
  | saveRoomSettings (f : RoomStmt → Option String) (channelName : String) (settings : RoomSettings)

/-- The database an operation leaves. -/
def SettingsOp.run (db : Database) : SettingsOp → Database
  | .addFriend fault peerId nickname offlinePubkey =>
    (Duplicates.addFriend fault db peerId nickname offlinePubkey).2
  | .removeFriend fault peerId => (Duplicates.removeFriend fault db peerId).2
  | .getPeerSettings f peerId => (Db.getPeerSettings f db peerId).2
  | .savePeerSettings f peerId settings => (saveSettings f db peerId settings).2
  | .endorsePeer f sf peerId score => (Duplicates.endorsePeer f sf db peerId score).2
  | .saveGroup f channelName password => (Db.saveGroup f db channelName password).2
  | .removeGroup fault channelName => (Duplicates.removeGroup fault db channelName).2
  | .getRoomSettings f channelName => (Duplicates.getRoomSettings f db channelName).2
  | .saveRoomSettings f channelName settings =>
    (Duplicates.saveRoomSettings f db channelName settings).2

/-- **What an operation needs.** A new friend, or a new group, has no settings yet but the defaults;
and the second statement of a save succeeds, or there is nothing for it to change. -/
def SettingsOp.Keeps (db : Database) : SettingsOp → Prop
  | .addFriend fault peerId _ _ => fault = none → db.friends.lookup peerId = none → ∀ settings,
    db.peerSettings.lookup peerId = some settings → copyOfSettings settings = .default
  | .savePeerSettings f peerId settings => FriendFollows f db peerId settings
  | .endorsePeer f sf peerId score => FriendFollows sf db peerId (endorsed f db peerId score)
  | .saveGroup f channelName _ => f .saveGroup = none → db.savedGroups.lookup channelName = none →
    ∀ settings, db.roomSettings.lookup channelName = some settings → settings = .default
  | .saveRoomSettings f channelName settings => GroupFollows f db channelName settings
  | .removeFriend .. | .getPeerSettings .. | .removeGroup .. | .getRoomSettings .. => True

theorem getPeerSettings_friends (f : Faults) (db : Database) (peerId : String) :
    (getPeerSettings f db peerId).2.friends = db.friends := by
  obtain ⟨table, h⟩ := getPeerSettings_frame f db peerId
  rw [h]

theorem endorsePeer_agree_iff {db : Database} (h : Inv db) (f : Faults)
    (sf : SettingsStmt → Option String) (peerId : String) (score : Int32) :
    Agree (endorsePeer f sf db peerId score).2 ↔
      FriendFollows sf db peerId (endorsed f db peerId score) := by
  refine (saveSettings_agree_iff (getPeerSettings_inv h f peerId) sf peerId _).trans ?_
  rw [FriendFollows, FriendFollows, getPeerSettings_friends]

/-- **One operation keeps agreement just when it meets its condition.** -/
theorem SettingsOp.run_agree_iff {db : Database} (h : Inv db) (op : SettingsOp) :
    Agree (op.run db) ↔ op.Keeps db := by
  cases op with
  | addFriend fault peerId nickname offlinePubkey =>
    exact addFriend_agree_iff h fault peerId nickname offlinePubkey
  | removeFriend fault peerId => exact iff_of_true (removeFriend_inv h fault peerId).agree trivial
  | getPeerSettings f peerId => exact iff_of_true (getPeerSettings_inv h f peerId).agree trivial
  | savePeerSettings f peerId settings => exact saveSettings_agree_iff h f peerId settings
  | endorsePeer f sf peerId score => exact endorsePeer_agree_iff h f sf peerId score
  | saveGroup f channelName password => exact saveGroup_agree_iff h f channelName password
  | removeGroup fault channelName =>
    exact iff_of_true (removeGroup_inv h fault channelName).agree trivial
  | getRoomSettings f channelName =>
    exact iff_of_true (getRoomSettings_inv h f channelName).agree trivial
  | saveRoomSettings f channelName settings =>
    exact saveRoomSettings_agree_iff h f channelName settings

/-- ... and with it the invariant. -/
theorem SettingsOp.run_inv {db : Database} (h : Inv db) (op : SettingsOp) (hkeeps : op.Keeps db) :
    Inv (op.run db) := by
  have hagree := (op.run_agree_iff h).mpr hkeeps
  cases op with
  | addFriend fault peerId nickname offlinePubkey => exact addFriend_inv h _ _ _ _ hagree
  | removeFriend fault peerId => exact removeFriend_inv h fault peerId
  | getPeerSettings f peerId => exact getPeerSettings_inv h f peerId
  | savePeerSettings f peerId settings => exact saveSettings_inv h f peerId settings hagree
  | endorsePeer f sf peerId score =>
    exact saveSettings_inv (getPeerSettings_inv h f peerId) sf peerId _ hagree
  | saveGroup f channelName password => exact saveGroup_inv h f channelName password hagree
  | removeGroup fault channelName => exact removeGroup_inv h fault channelName
  | getRoomSettings f channelName => exact getRoomSettings_inv h f channelName
  | saveRoomSettings f channelName settings =>
    exact saveRoomSettings_inv h f channelName settings hagree

/-! ## 4. Runs -/

def SettingsStep (db : Database) (op : SettingsOp) (db' : Database) : Prop := db' = op.run db

/-- **The copies agree in every state** of a run from the empty database whose operations meet their
condition. -/
theorem duplicates_agree {db : Database}
    (h : Reach (· = .empty) (Guarded (fun db op => SettingsOp.Keeps db op) SettingsStep) db) :
    Agree db := by
  refine Inv.agree (h.inv (I := Inv) ?_ ?_)
  · rintro _ rfl
    exact inv_empty
  · intro db op db' hinv hstep
    obtain ⟨hkeeps, rfl⟩ := hstep
    exact op.run_inv hinv hkeeps

/-- Settings that block a peer. -/
def blockedSettings : PeerSettings := { PeerSettings.default with blocked := true }

def addBob : SettingsOp := .addFriend none "bob" "Bob" none

def blockBob : SettingsOp := .savePeerSettings (fun _ => none) "bob" blockedSettings

def renameBob : SettingsOp := .addFriend none "bob" "Robert" none

/-- A friend is added, blocked, and added again under another name. -/
theorem friend_then_blocked : Agree (renameBob.run (blockBob.run (addBob.run .empty))) := by
  refine duplicates_agree (.step _ renameBob _
    (.step _ blockBob _ (.step _ addBob _ (.start _ rfl) ⟨?_, rfl⟩) ⟨?_, rfl⟩) ⟨?_, rfl⟩)
  · intro _ _ settings hrow
    cases hrow
  · intro _ hno
    exact absurd rfl hno
  · intro _ hrow
    cases hrow

/-- **A blocked peer becomes a friend, and is not blocked there.** -/
theorem blocked_then_friend :
    Reach (· = Database.empty) SettingsStep (addBob.run (blockBob.run .empty)) ∧
      ¬ Agree (addBob.run (blockBob.run .empty)) := by
  refine ⟨.step _ addBob _ (.step _ blockBob _ (.start _ rfl) rfl) rfl, fun h => ?_⟩
  have hcopy := h.peers "bob" _ _ rfl rfl
  exact absurd hcopy (by decide)

end AlterChat.Duplicates
