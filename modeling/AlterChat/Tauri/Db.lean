import AlterChat.Lib.Double
import AlterChat.Lib.Table
import AlterChat.Core.Governance

/-!
# `db.rs`: the profile database

The tables of the profile database and the functions of `alterchat-ui/src-tauri/src/db.rs` over
them. A table with a primary key is a `Lib.Table`; `private_messages` and `message_search`, which
have none of the program's, are lists. Columns that nothing reads (`updated_at`) are left out.

A statement can fail (a locked file, a full disk). Which ones fail while a command runs is given by
`Faults`; a failing statement changes nothing and returns its error, and a function of two
statements stops at the first that fails.

* §1 rows and tables, §2 statements that fail;
* §3 settings, peers and groups, §4 messages, rooms and ratchet states, §5 invites, §6 roles and
  grants, §7 the revocation list.
-/

namespace AlterChat.Db

open Lib Lib.Double Governance

/-! ## 1. Rows and tables -/

/-- A friend; only `add_friend` makes one, and it gives it a nickname. -/
structure Friend where
  nickname : String
  offlinePubkey : Option String
  trustLevel : Int64
  blocked : Bool
  muted : Bool
  notes : Option String
  deriving DecidableEq

structure PeerSettings where
  trustLevel : Int64
  blocked : Bool
  muted : Bool
  rateLimitPerMinute : Int64
  proofOfWorkRequired : Bool
  deriving DecidableEq

/-- The column defaults of `peer_settings`. -/
def PeerSettings.default : PeerSettings where
  trustLevel := 0
  blocked := false
  muted := false
  rateLimitPerMinute := 30
  proofOfWorkRequired := false

structure RoomSettings where
  defaultTtl : Option Int64
  retentionDays : Option Int64
  persistenceEnabled : Bool
  inviteOnly : Bool
  notificationsEnabled : Bool
  deriving DecidableEq

/-- The column defaults of `room_settings`. -/
def RoomSettings.default : RoomSettings where
  defaultTtl := none
  retentionDays := none
  persistenceEnabled := true
  inviteOnly := false
  notificationsEnabled := true

/-- A row of `saved_groups`: the password and a copy of the room's settings. -/
structure SavedGroup extends RoomSettings where
  password : Option String
  deriving DecidableEq

structure PrivateMessage where
  peerId : String
  senderIsMe : Bool
  text : String
  timestamp : Int64
  ttl : Option Int64
  deriving DecidableEq

structure SearchRow where
  scope : String
  peerId : String
  roomId : String
  sender : String
  text : String
  timestamp : Int64
  deriving DecidableEq

structure InviteRow where
  roomId : String
  tokenJson : String
  revoked : Bool
  uses : Nat
  createdAt : Int64
  deriving DecidableEq

structure RevokedRow where
  revokedAt : Int64
  revokedBy : String
  deriving DecidableEq

/-- The database of a profile. -/
structure Database where
  rooms : Table String Bytes
  settings : Table String String
  appSettings : Table String String
  friends : Table String Friend
  peerSettings : Table String PeerSettings
  savedGroups : Table String SavedGroup
  roomSettings : Table String RoomSettings
  privateMessages : List PrivateMessage
  messageSearch : List SearchRow
  ratchetStates : Table String Bytes
  roomInvites : Table String InviteRow
  roomRoles : Table (String × String) String
  permissionGrants : Table (String × String × String) String
  revokedInvites : Table String RevokedRow

/-- What `run_migrations` leaves in a new database. -/
def Database.empty : Database where
  rooms := ∅
  settings := ∅
  appSettings := ∅
  friends := ∅
  peerSettings := ∅
  savedGroups := ∅
  roomSettings := ∅
  privateMessages := []
  messageSearch := []
  ratchetStates := ∅
  roomInvites := ∅
  roomRoles := ∅
  permissionGrants := ∅
  revokedInvites := ∅

/-! ## 2. Statements that fail -/

/-- The statements of the functions below, and the opening of the database. -/
inductive Stmt where
  | initDb
  | loadSetting
  | loadSettingLegacy
  | insertPeerSettings
  | selectPeerSettings
  | getFriends
  | saveGroup
  | insertRoomSettings
  | savePrivateMessage
  | indexPrivateMessage
  | deleteExpiredMessages
  | deleteSearchRows
  | selectPrivateMessages
  | saveRoom
  | loadRoom
  | indexRoomMessage
  | loadRatchetState
  | saveRatchetState
  | saveInvite
  /-- The first and the second time a command asks. -/
  | getInviteState (again : Bool)
  | incrementInviteUse
  | revokeInvite
  | countRoles
  | listRoles
  | saveRole (roleId : String)
  | listPermissionGrants
  | savePermissionGrant
  | markInviteRevoked
  | isInviteGloballyRevoked
  | listRevokedInviteIds
  deriving DecidableEq

/-- The statements that fail while a command runs, with the error each reports. -/
abbrev Faults := Stmt → Option String

/-- Every statement succeeds. -/
def noFaults : Faults := fun _ => none

/-- A statement that writes. -/
def execute (f : Faults) (stmt : Stmt) (db db' : Database) : Except String Unit × Database :=
  match f stmt with
  | some e => (.error e, db)
  | none => (.ok (), db')

/-- A statement that reads. -/
def query {α : Type} (f : Faults) (stmt : Stmt) (a : α) : Except String α :=
  match f stmt with
  | some e => .error e
  | none => .ok a

@[simp] theorem execute_noFaults (stmt : Stmt) (db db' : Database) :
    execute noFaults stmt db db' = (.ok (), db') := rfl

@[simp] theorem query_noFaults {α : Type} (stmt : Stmt) (a : α) :
    query noFaults stmt a = .ok a := rfl

theorem query_ok {α : Type} {f : Faults} {stmt : Stmt} {a b : α} (h : query f stmt a = .ok b) :
    f stmt = none ∧ a = b := by
  unfold query at h
  split at h
  · cases h
  · next hf => exact ⟨hf, Except.ok.inj h⟩

/-- **A write takes effect or the database stays as it was.** -/
theorem execute_cases (f : Faults) (stmt : Stmt) (db db' : Database) :
    (f stmt = none ∧ execute f stmt db db' = (.ok (), db')) ∨
      ∃ e, f stmt = some e ∧ execute f stmt db db' = (.error e, db) := by
  unfold execute
  cases hf : f stmt with
  | none => exact .inl ⟨rfl, rfl⟩
  | some e => exact .inr ⟨e, rfl, rfl⟩

theorem execute_ok {f : Faults} {stmt : Stmt} {db db' : Database}
    (h : (execute f stmt db db').1 = .ok ()) : f stmt = none := by
  unfold execute at h
  split at h
  · cases h
  · next hf => exact hf

/-! ## 3. Settings, peers, groups -/

/-- `load_setting`: `app_settings`, and where it has no row the legacy `settings`. -/
def loadSetting (f : Faults) (db : Database) (key : String) : Except String (Option String) :=
  match query f .loadSetting (db.appSettings.lookup key) with
  | .error e => .error e
  | .ok (some value) => .ok (some value)
  | .ok none => query f .loadSettingLegacy (db.settings.lookup key)

/-- `get_peer_settings`: it inserts the default row where there is none. -/
def getPeerSettings (f : Faults) (db : Database) (peerId : String) :
    Except String PeerSettings × Database :=
  match execute f .insertPeerSettings db
      { db with peerSettings := db.peerSettings.insertIgnore peerId .default } with
  | (.error e, db) => (.error e, db)
  | (.ok (), db) =>
    (query f .selectPeerSettings ((db.peerSettings.lookup peerId).getD .default), db)

/-- `get_friends`. -/
def getFriends (f : Faults) (db : Database) : Except String (List (String × Friend)) :=
  query f .getFriends (db.friends.entries.map fun r => (r.1, r.2))

/-- `save_group`. -/
def saveGroup (f : Faults) (db : Database) (channelName : String) (password : Option String) :
    Except String Unit × Database :=
  match execute f .saveGroup db
      { db with
        savedGroups := db.savedGroups.upsert channelName { RoomSettings.default with password }
          fun g => { g with password } } with
  | (.error e, db) => (.error e, db)
  | (.ok (), db) =>
    execute f .insertRoomSettings db
      { db with roomSettings := db.roomSettings.insertIgnore channelName .default }

/-! ## 4. Messages, rooms, ratchet states -/

/-- `save_private_message`. -/
def savePrivateMessage (f : Faults) (db : Database) (peerId : String) (senderIsMe : Bool)
    (text : String) (timestamp : Int64) (ttl : Option Int64) : Except String Unit × Database :=
  match execute f .savePrivateMessage db
      { db with
        privateMessages :=
          db.privateMessages ++ [{ peerId, senderIsMe, text, timestamp, ttl }] } with
  | (.error e, db) => (.error e, db)
  | (.ok (), db) =>
    execute f .indexPrivateMessage db
      { db with
        messageSearch := db.messageSearch ++
          [{ scope := "dm", peerId, roomId := "", sender := if senderIsMe then "me" else "peer"
             text, timestamp }] }

/-- `ttl IS NOT NULL AND timestamp + (ttl * 1000) < now`. -/
def PrivateMessage.expired (nowMs : Int64) (m : PrivateMessage) : Bool :=
  match m.ttl with
  | none => false
  | some ttl =>
    let expiry :=
      (SqlNumber.integer m.timestamp.toInt).add ((SqlNumber.integer ttl.toInt).mul (.integer 1000))
    decide (expiry.value < nowMs.toInt)

/-- `get_private_messages`: the expired messages of every peer are deleted first, and what is left
    in `message_search` of the messages with this peer. That either fails is ignored. -/
def getPrivateMessages (f : Faults) (db : Database) (nowMs : Int64) (peerId : String) :
    Except String (List PrivateMessage) × Database :=
  let db := (execute f .deleteExpiredMessages db
    { db with privateMessages := db.privateMessages.filter fun m => !m.expired nowMs }).2
  let timestamps := (db.privateMessages.filter fun m => decide (m.peerId = peerId)).map
    fun m => m.timestamp
  let db := (execute f .deleteSearchRows db
    { db with
      messageSearch := db.messageSearch.filter fun r =>
        !(decide (r.scope = "dm") && decide (r.peerId = peerId) &&
          !decide (r.timestamp ∈ timestamps)) }).2
  (query f .selectPrivateMessages
    ((db.privateMessages.filter fun m => decide (m.peerId = peerId)).mergeSort
      fun a b => decide (a.timestamp ≤ b.timestamp)), db)

/-- `save_room`. -/
def saveRoom (f : Faults) (db : Database) (channel : String) (blob : Bytes) :
    Except String Unit × Database :=
  execute f .saveRoom db { db with rooms := db.rooms.upsert channel blob fun _ => blob }

/-- `load_room`. -/
def loadRoom (f : Faults) (db : Database) (channel : String) : Except String (Option Bytes) :=
  query f .loadRoom (db.rooms.lookup channel)

/-- `index_room_message`. -/
def indexRoomMessage (f : Faults) (db : Database) (roomId sender text : String)
    (timestamp : Int64) : Except String Unit × Database :=
  execute f .indexRoomMessage db
    { db with
      messageSearch := db.messageSearch ++
        [{ scope := "room", peerId := "", roomId, sender, text, timestamp }] }

/-- `load_ratchet_state`. -/
def loadRatchetState (f : Faults) (db : Database) (peerId : String) :
    Except String (Option Bytes) :=
  query f .loadRatchetState (db.ratchetStates.lookup peerId)

/-- `save_ratchet_state`. -/
def saveRatchetState (f : Faults) (db : Database) (peerId : String) (stateBlob : Bytes) :
    Except String Unit × Database :=
  execute f .saveRatchetState db
    { db with ratchetStates := db.ratchetStates.upsert peerId stateBlob fun _ => stateBlob }

/-! ## 5. Invites -/

/-- `save_invite`: the row of an id that is there keeps everything but the token. -/
def saveInvite (f : Faults) (db : Database) (inviteId roomId tokenJson : String) (nowMs : Int64) :
    Except String Unit × Database :=
  execute f .saveInvite db
    { db with
      roomInvites := db.roomInvites.upsert inviteId
        { roomId, tokenJson, revoked := false, uses := 0, createdAt := nowMs }
        fun row => { row with tokenJson } }

/-- `get_invite_state`. -/
def getInviteState (f : Faults) (again : Bool) (db : Database) (inviteId : String) :
    Except String (Option (Bool × Nat)) :=
  query f (.getInviteState again)
    ((db.roomInvites.lookup inviteId).map fun row => (row.revoked, row.uses))

/-- `increment_invite_use`. -/
def incrementInviteUse (f : Faults) (db : Database) (inviteId : String) :
    Except String Unit × Database :=
  execute f .incrementInviteUse db
    { db with
      roomInvites := db.roomInvites.update inviteId fun row => { row with uses := row.uses + 1 } }

/-- `revoke_invite`. -/
def revokeInvite (f : Faults) (db : Database) (inviteId : String) : Except String Unit × Database :=
  execute f .revokeInvite db
    { db with
      roomInvites := db.roomInvites.update inviteId fun row => { row with revoked := true } }

/-! ## 6. Roles and grants -/

/-- `save_role`. -/
def saveRole (f : Faults) (db : Database) (roomId roleId roleJson : String) :
    Except String Unit × Database :=
  execute f (.saveRole roleId) db
    { db with roomRoles := db.roomRoles.upsert (roomId, roleId) roleJson fun _ => roleJson }

/-- `count_roles`. -/
def countRoles (f : Faults) (db : Database) (roomId : String) : Except String Nat :=
  query f .countRoles (db.roomRoles.select fun k => decide (k.1 = roomId)).length

/-- `list_roles`. -/
def listRoles (f : Faults) (db : Database) (roomId : String) : Except String (List String) :=
  query f .listRoles (db.roomRoles.select fun k => decide (k.1 = roomId))

/-- `save_permission_grant`. -/
def savePermissionGrant (f : Faults) (db : Database)
    (roomId subjectPeerId roleId grantJson : String) : Except String Unit × Database :=
  execute f .savePermissionGrant db
    { db with
      permissionGrants := db.permissionGrants.upsert (roomId, subjectPeerId, roleId) grantJson
        fun _ => grantJson }

/-- `list_permission_grants`. -/
def listPermissionGrants (f : Faults) (db : Database) (roomId : String) :
    Except String (List String) :=
  query f .listPermissionGrants (db.permissionGrants.select fun k => decide (k.1 = roomId))

/-- The loop of `seed_default_roles`: it stops at the first role that cannot be saved. -/
def saveRoles (W : Wire) (f : Faults) (roomId : String) :
    List Role → Database → Except String Unit × Database
  | [], db => (.ok (), db)
  | role :: rest, db =>
    match saveRole f db roomId role.roleId (W.roleJson.enc role) with
    | (.error e, db) => (.error e, db)
    | (.ok (), db) => saveRoles W f roomId rest db

/-- `seed_default_roles`. -/
def seedDefaultRoles (W : Wire) (f : Faults) (db : Database) (roomId : String)
    (ownerGrantJson : Option String) : Except String Unit × Database :=
  match saveRoles W f roomId (defaultRoles roomId) db with
  | (.error e, db) => (.error e, db)
  | (.ok (), db) =>
    match ownerGrantJson with
    | none => (.ok (), db)
    | some grantJson =>
      match W.grantJson.dec grantJson with
      | none => (.error (W.jsonError grantJson), db)
      | some grant => savePermissionGrant f db roomId grant.subjectPeerId grant.roleId grantJson

/-! ## 7. The revocation list -/

/-- `mark_invite_revoked`: the first entry for an id stays. -/
def markInviteRevoked (f : Faults) (db : Database) (inviteId revokedBy : String) (nowMs : Int64) :
    Except String Unit × Database :=
  execute f .markInviteRevoked db
    { db with
      revokedInvites := db.revokedInvites.insertIgnore inviteId { revokedAt := nowMs, revokedBy } }

/-- `is_invite_globally_revoked`. -/
def isInviteGloballyRevoked (f : Faults) (db : Database) (inviteId : String) :
    Except String Bool :=
  query f .isInviteGloballyRevoked (db.revokedInvites.lookup inviteId).isSome

/-- `list_revoked_invite_ids`, the latest revocation first. -/
def listRevokedInviteIds (f : Faults) (db : Database) : Except String (List String) :=
  query f .listRevokedInviteIds
    ((db.revokedInvites.entries.mergeSort fun a b => decide (b.2.revokedAt ≤ a.2.revokedAt)).map
      fun r => r.1)

/-! ## 8. What a write does to a row

One lemma for each write that the proofs about runs ask about: the row it writes, and that every
other row is the one from before. -/

section

variable {f : Faults} {db : Database}

theorem incrementInviteUse_cases (f : Faults) (db : Database) (inviteId : String) :
    (∃ db', incrementInviteUse f db inviteId = (.ok (), db') ∧
      db'.roomInvites =
        db.roomInvites.update inviteId fun row => { row with uses := row.uses + 1 }) ∨
    ∃ e, incrementInviteUse f db inviteId = (.error e, db) := by
  unfold incrementInviteUse execute
  cases f .incrementInviteUse with
  | none => exact .inl ⟨_, rfl, rfl⟩
  | some e => exact .inr ⟨e, rfl⟩

theorem lookup_revokeInvite (h : f .revokeInvite = none) (inviteId id : String) :
    (revokeInvite f db inviteId).2.roomInvites.lookup id =
      if id = inviteId then
        (db.roomInvites.lookup inviteId).map fun row => { row with revoked := true }
      else db.roomInvites.lookup id := by
  simp only [revokeInvite, execute, h]
  exact Table.lookup_update ..

/-- `get_peer_settings` writes to `peer_settings` only. -/
theorem getPeerSettings_frame (f : Faults) (db : Database) (peerId : String) :
    ∃ table, (getPeerSettings f db peerId).2 = { db with peerSettings := table } := by
  unfold getPeerSettings
  rcases execute_cases f .insertPeerSettings db
    { db with peerSettings := db.peerSettings.insertIgnore peerId .default } with ⟨-, h⟩ | ⟨e, -, h⟩
  · rw [h]
    exact ⟨_, rfl⟩
  · rw [h]
    exact ⟨db.peerSettings, rfl⟩

/-- The settings of a peer: its row, or the one that reading it would insert. -/
def Database.settingsOf (db : Database) (peerId : String) : PeerSettings :=
  (db.peerSettings.lookup peerId).getD .default

theorem getPeerSettings_read (hi : f .insertPeerSettings = none) (hs : f .selectPeerSettings = none)
    (db : Database) (peerId : String) :
    getPeerSettings f db peerId =
      (.ok (db.settingsOf peerId),
        { db with peerSettings := db.peerSettings.insertIgnore peerId .default }) := by
  simp [getPeerSettings, Database.settingsOf, execute, query, hi, hs, Table.lookup_insertIgnore]

/-- Reading the settings of a peer changes nobody's. -/
theorem settingsOf_insertIgnore (db : Database) (peerId id : String) :
    Database.settingsOf
      { db with peerSettings := db.peerSettings.insertIgnore peerId .default } id =
        db.settingsOf id := by
  unfold Database.settingsOf
  simp only [Table.lookup_insertIgnore]
  by_cases h : id = peerId
  · rw [if_pos h, h, Option.getD_some]
  · rw [if_neg h]

theorem getPeerSettings_settingsOf (f : Faults) (db : Database) (peerId id : String) :
    (getPeerSettings f db peerId).2.settingsOf id = db.settingsOf id := by
  unfold getPeerSettings
  rcases execute_cases f .insertPeerSettings db
    { db with peerSettings := db.peerSettings.insertIgnore peerId .default } with ⟨-, h⟩ | ⟨e, -, h⟩
  · rw [h]
    exact settingsOf_insertIgnore db peerId id
  · rw [h]

theorem getPeerSettings_roomInvites (f : Faults) (db : Database) (peerId : String) :
    (getPeerSettings f db peerId).2.roomInvites = db.roomInvites := by
  obtain ⟨table, h⟩ := getPeerSettings_frame f db peerId
  rw [h]

/-- `save_private_message` adds one row to `private_messages`, or none where that fails. -/
theorem savePrivateMessage_frame (f : Faults) (db : Database) (peerId : String) (senderIsMe : Bool)
    (text : String) (timestamp : Int64) (ttl : Option Int64) :
    ∃ index, (savePrivateMessage f db peerId senderIsMe text timestamp ttl).2 =
      { db with
        privateMessages :=
          if f .savePrivateMessage = none then
            db.privateMessages ++ [{ peerId, senderIsMe, text, timestamp, ttl }]
          else db.privateMessages
        messageSearch := index } := by
  unfold savePrivateMessage execute
  cases f .savePrivateMessage with
  | some e => exact ⟨db.messageSearch, rfl⟩
  | none =>
    cases f .indexPrivateMessage with
    | some e => exact ⟨db.messageSearch, rfl⟩
    | none => exact ⟨_, rfl⟩

/-- `get_private_messages` writes to `private_messages` and `message_search` only. -/
theorem getPrivateMessages_frame (f : Faults) (db : Database) (nowMs : Int64) (peerId : String) :
    ∃ index, (getPrivateMessages f db nowMs peerId).2 =
      { db with
        privateMessages :=
          if f .deleteExpiredMessages = none then
            db.privateMessages.filter fun m => !m.expired nowMs
          else db.privateMessages
        messageSearch := index } := by
  unfold getPrivateMessages execute
  cases f .deleteExpiredMessages with
  | some e =>
    cases f .deleteSearchRows with
    | some e => exact ⟨db.messageSearch, rfl⟩
    | none => exact ⟨_, rfl⟩
  | none =>
    cases f .deleteSearchRows with
    | some e => exact ⟨db.messageSearch, rfl⟩
    | none => exact ⟨_, rfl⟩

/-- What it returns are the messages with the peer that are left. -/
theorem mem_getPrivateMessages {nowMs : Int64} {peerId : String} {messages : List PrivateMessage}
    (h : (getPrivateMessages f db nowMs peerId).1 = .ok messages) (m : PrivateMessage) :
    m ∈ messages ↔
      m ∈ (getPrivateMessages f db nowMs peerId).2.privateMessages ∧ m.peerId = peerId := by
  have hmem := (query_ok h).2
  rw [← hmem, List.mem_mergeSort, List.mem_filter, decide_eq_true_eq]
  rfl

/-- `save_group` writes to `saved_groups` and `room_settings` only. -/
theorem saveGroup_roomInvites (f : Faults) (db : Database) (channelName : String)
    (password : Option String) :
    (saveGroup f db channelName password).2.roomInvites = db.roomInvites := by
  unfold saveGroup execute
  cases f .saveGroup <;> cases f .insertRoomSettings <;> rfl

end

end AlterChat.Db
