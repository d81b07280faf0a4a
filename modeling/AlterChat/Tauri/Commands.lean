import AlterChat.Tauri.Db

/-!
# The governance commands and the revocation path of the event loop

From `alterchat-ui/src-tauri/src/lib.rs` and `commands/governance.rs`. A command opens the database
of the logged-in profile for itself; the event loop keeps one connection for the session. For a
profile on disk both are the same file. For an amnesic profile (`:memory:`) every command opens an
empty database of its own, which is gone when the command returns.

A command returns its `Result` together with the device it leaves, since what a failing command has
written stays written.

* §1 `Device`, §2 `room_action_allowed` and `ensure_default_room_governance`;
* §3 the invite commands, §4 the grant commands;
* §5 `RevokeInviteGlobal` and the revocation topic.
-/

namespace AlterChat.Commands

open Lib Governance Db

variable {Keypair Pub : Type}

/-! ## 1. The device -/

/-- The part of `AppState` the commands read. -/
structure AppState where
  dbPath : Option String
  dbKey : Option String
  keyPath : Option String
  deriving DecidableEq

/-- `conn_opt` of the event loop. -/
inductive Conn where
  | closed
  /-- The profile's file. -/
  | file
  | memory (db : Database)

/-- A device with one profile. -/
structure Device where
  app : AppState
  /-- The profile's database file. -/
  file : Database
  conn : Conn

/-- `db_path`, `db_key` and `init_db`, as every command begins. -/
def Device.initDb (f : Faults) (d : Device) : Except String Database :=
  match d.app.dbPath with
  | none => .error "Not logged in"
  | some path =>
    match d.app.dbKey with
    | none => .error "Not logged in"
    | some _ => query f .initDb (if path = ":memory:" then .empty else d.file)

/-- What a command's connection leaves behind. -/
def Device.close (d : Device) (db : Database) : Device :=
  if d.app.dbPath = some ":memory:" then d else { d with file := db }

/-- `key_path`, then `load_or_generate_keypair`, whose result is given. -/
def Device.keypair (d : Device) (loaded : Except String Keypair) : Except String Keypair :=
  match d.app.keyPath with
  | none => .error "Not logged in"
  | some _ => loaded

/-- The database of the session's connection. -/
def Device.connDb (d : Device) : Option Database :=
  match d.conn with
  | .closed => none
  | .file => some d.file
  | .memory db => some db

/-- The device after the event loop has written to its connection. -/
def Device.setConnDb (d : Device) (db : Database) : Device :=
  match d.conn with
  | .closed => d
  | .file => { d with file := db }
  | .memory _ => { d with conn := .memory db }

/-- What the event loop hands to the network and to the frontend. -/
inductive Effect where
  | publish (topic : String) (data : Bytes)
  | putRecord (key value : Bytes)
  | emit (event payload : String)
  deriving DecidableEq

/-! ## 2. Who may do what in a room -/

/-- `load_roles_and_grants`: a list that cannot be read is empty, a row that cannot be is left
    out. -/
def loadRolesAndGrants (W : Wire) (f : Faults) (db : Database) (roomId : String) :
    List Role × List PermissionGrant :=
  let roles := ((listRoles f db roomId).toOption.getD []).filterMap W.roleJson.dec
  let grants := ((listPermissionGrants f db roomId).toOption.getD []).filterMap W.grantJson.dec
  (roles, grants)

/-- `room_action_allowed`: a room without roles is open, and so is one whose roles cannot be
    counted. -/
def roomActionAllowed (S : Signatures Keypair Pub) (W : Wire) (f : Faults) (db : Database)
    (roomId peerId : String) (permission : Permission) (nowMs : Int64) : Bool :=
  let roleCount := (countRoles f db roomId).toOption.getD 0
  if roleCount = 0 then true
  else
    let (roles, grants) := loadRolesAndGrants W f db roomId
    hasPermission S W grants roles peerId permission nowMs

/-- `ensure_default_room_governance`. -/
def ensureDefaultRoomGovernance (S : Signatures Keypair Pub) (W : Wire) (f : Faults)
    (db : Database) (roomId : String) (keypair : Keypair) (peerId : String) (nowMs : Int64) :
    Except String Unit × Database :=
  match countRoles f db roomId with
  | .error e => (.error e, db)
  | .ok count =>
    if 0 < count then (.ok (), db)
    else
      match createPermissionGrant S W keypair roomId peerId "owner" none nowMs with
      | .error e => (.error e, db)
      | .ok grant => seedDefaultRoles W f db roomId (some (W.grantJson.enc grant))

/-! ## 3. Invites -/

/-- The value of a decimal digit. -/
def digit (c : Char) : Option Nat :=
  if '0' ≤ c ∧ c ≤ '9' then some (c.toNat - '0'.toNat) else none

/-- A number of at least one digit. -/
def parseDigits : List Char → Option Nat
  | [] => none
  | c :: cs => (c :: cs).foldlM (fun n c => (digit c).map (10 * n + ·)) 0

/-- `str::parse::<i64>`. -/
def parseI64 (s : String) : Option Int64 :=
  let value : Option Int :=
    match s.toList with
    | '-' :: cs => (parseDigits cs).map fun n => -(n : Int)
    | '+' :: cs => (parseDigits cs).map fun n => (n : Int)
    | cs => (parseDigits cs).map fun n => (n : Int)
  value.bind fun n => if -2 ^ 63 ≤ n ∧ n < 2 ^ 63 then some (Int64.ofInt n) else none

example : parseI64 "-12" = some (-12) ∧ parseI64 "" = none := by decide

/-- The permissions `create_invite` puts into a token. -/
def inviteCapabilities : List Permission := [.Read, .Write, .SendFile, .StartCall]

/-- The command `create_invite`. -/
def createInvite (S : Signatures Keypair Pub) (W : Wire) (f : Faults) (d : Device)
    (loaded : Except String Keypair) (nowMs : Int64) (randomNonce : Vector UInt8 16)
    (roomId : String) (roomPassword : Option String) (expiresInSeconds : Option Int64)
    (maxUses : Option UInt32) : Except String String × Device :=
  match d.initDb f with
  | .error e => (.error e, d)
  | .ok db =>
    match d.keypair loaded with
    | .error e => (.error e, d)
    | .ok keypair =>
      if roomActionAllowed S W f db roomId (S.peerId (S.publicOf keypair)) .Invite nowMs
          = false then
        (.error "Invite permission denied", d)
      else
        let expiresAt := expiresInSeconds.map fun seconds => nowMs + seconds * 1000
        match Governance.createInvite S W keypair roomId roomPassword none expiresAt maxUses
            inviteCapabilities randomNonce with
        | .error e => (.error e, d)
        | .ok token =>
          let tokenJson := W.tokenJson.enc token
          match saveInvite f db (inviteId W token) roomId tokenJson nowMs with
          | (.error e, db) => (.error e, d.close db)
          | (.ok (), db) => (.ok tokenJson, d.close db)

/-- The trust check of `accept_invite`. -/
def issuerTrusted (settings : Except String PeerSettings) (minTrustInvite : Int64) : Bool :=
  match settings with
  | .ok settings => !settings.blocked && !decide (settings.trustLevel < minTrustInvite)
  | .error _ => !decide (minTrustInvite > 0)

/-- What `accept_invite` says where the trust check fails. -/
def trustError (settings : Except String PeerSettings) : String :=
  match settings with
  | .ok _ => "Invite issuer is blocked or below trust threshold"
  | .error _ => "Invite issuer does not meet trust threshold"

/-- The use check of `accept_invite`. -/
def usesLeft (maxUses : Option UInt32) (uses : Nat) : Bool :=
  !(maxUses.map fun max => decide (max.toNat ≤ uses)).getD false

/-- `accept_invite` from the moment the database is open. -/
def acceptInviteDb (W : Wire) (f : Faults) (db : Database) (token : InviteToken) :
    Except String (String × Option String) × Database :=
  let minTrustInvite :=
    ((((loadSetting f db "min_trust_invite").toOption).join).bind parseI64).getD 0
  let (settings, db) := getPeerSettings f db token.issuerPeerId
  if issuerTrusted settings minTrustInvite = false then
    (.error (trustError settings), db)
  else
    let invite := inviteId W token
    match getInviteState f false db invite with
    | .error e => (.error e, db)
    | .ok state =>
      if (state.map fun s => s.1).getD false = true then (.error "Invite revoked", db)
      else if (state.map fun s => usesLeft token.maxUses s.2).getD true = false then
        (.error "Invite use limit reached", db)
      else
        match saveGroup f db token.roomId token.roomPassword with
        | (.error e, db) => (.error e, db)
        | (.ok (), db) =>
          match getInviteState f true db invite with
          | .error e => (.error e, db)
          | .ok none => (.ok (token.roomId, token.roomPassword), db)
          | .ok (some _) =>
            match incrementInviteUse f db invite with
            | (.error e, db) => (.error e, db)
            | (.ok (), db) => (.ok (token.roomId, token.roomPassword), db)

/-- The command `accept_invite`. -/
def acceptInvite (S : Signatures Keypair Pub) (W : Wire) (f : Faults) (d : Device) (nowMs : Int64)
    (tokenJson : String) : Except String (String × Option String) × Device :=
  match W.tokenJson.dec tokenJson with
  | none => (.error (W.jsonError tokenJson), d)
  | some token =>
    match verifyInvite S W token with
    | .error e => (.error e, d)
    | .ok () =>
      if isInviteExpired token nowMs = true then (.error "Invite expired", d)
      else
        match d.initDb f with
        | .error e => (.error e, d)
        | .ok db =>
          let (result, db) := acceptInviteDb W f db token
          (result, d.close db)

/-- The command `revoke_invite`. -/
def revokeInvite (f : Faults) (d : Device) (inviteId : String) : Except String Unit × Device :=
  match d.initDb f with
  | .error e => (.error e, d)
  | .ok db =>
    let (result, db) := Db.revokeInvite f db inviteId
    (result, d.close db)

/-! ## 4. Grants -/

/-- The command `save_permission_grant`. -/
def savePermissionGrant (S : Signatures Keypair Pub) (W : Wire) (f : Faults) (d : Device)
    (grant : PermissionGrant) : Except String Unit × Device :=
  match d.initDb f with
  | .error e => (.error e, d)
  | .ok db =>
    match verifyPermissionGrant S W grant with
    | .error e => (.error e, d)
    | .ok () =>
      let (result, db) := Db.savePermissionGrant f db grant.roomId grant.subjectPeerId grant.roleId
        (W.grantJson.enc grant)
      (result, d.close db)

/-- The command `create_permission_grant`. -/
def createPermissionGrant (S : Signatures Keypair Pub) (W : Wire) (f : Faults) (d : Device)
    (loaded : Except String Keypair) (nowMs : Int64) (roomId subjectPeerId roleId : String)
    (expiresAt : Option Int64) : Except String PermissionGrant × Device :=
  match d.keypair loaded with
  | .error e => (.error e, d)
  | .ok keypair =>
    match d.initDb f with
    | .error e => (.error e, d)
    | .ok db =>
      if roomActionAllowed S W f db roomId (S.peerId (S.publicOf keypair)) .ManageRoles nowMs =
          false then
        (.error "Manage roles permission denied", d)
      else
        match Governance.createPermissionGrant S W keypair roomId subjectPeerId roleId expiresAt
            nowMs with
        | .error e => (.error e, d)
        | .ok grant =>
          match Db.savePermissionGrant f db grant.roomId grant.subjectPeerId grant.roleId
              (W.grantJson.enc grant) with
          | (.error e, db) => (.error e, d.close db)
          | (.ok (), db) => (.ok grant, d.close db)

/-! ## 5. Revocation in the event loop -/

/-- `get_dht_revocation_key`. -/
def dhtRevocationKey (W : Wire) (roomId : String) : Bytes :=
  W.sha256 (roomId.toUTF8.toList ++ "_revocation_list".toUTF8.toList)

/-- The announcement `RevokeInviteGlobal` publishes. -/
def globalRevocation (inviteId currentTopicName myPeerId : String) (nowMs : Int64) :
    RevocationAnnouncement where
  inviteId := inviteId
  roomId := currentTopicName
  revokedBy := myPeerId
  revokedAt := nowMs
  signature := []

/-- The arm `AppCommand::RevokeInviteGlobal`: what it writes, and what it sends where a swarm
    runs. -/
def revokeInviteGlobal (W : Wire) (f : Faults) (d : Device) (currentTopicName myPeerId : String)
    (swarm : Bool) (nowMs : Int64) (inviteId : String) : Device × List Effect :=
  match d.connDb with
  | none => (d, [])
  | some db =>
    let db := (Db.revokeInvite f db inviteId).2
    let db := (markInviteRevoked f db inviteId myPeerId nowMs).2
    let ann := globalRevocation inviteId currentTopicName myPeerId nowMs
    let sent := if swarm then [.publish REVOCATION_TOPIC (W.announcementBytes.enc ann)] else []
    let listed :=
      match swarm, listRevokedInviteIds f db with
      | true, .ok ids =>
        [.putRecord (dhtRevocationKey W currentTopicName) (W.idsJson.enc ids).toUTF8.toList]
      | _, _ => []
    (d.setConnDb db, sent ++ listed)

/-- The revocation branch of the Gossipsub handler, on the session's database. -/
def revocationMessage (W : Wire) (f : Faults) (db : Database) (nowMs : Int64) (data : Bytes) :
    Database × List Effect :=
  match W.announcementBytes.dec data with
  | none => (db, [])
  | some ann =>
    let db := (markInviteRevoked f db ann.inviteId ann.revokedBy nowMs).2
    let db := (Db.revokeInvite f db ann.inviteId).2
    (db, [.emit "invite-revoked-global" ann.inviteId])

/-- A message on the revocation topic reaches a device. -/
def receiveRevocation (W : Wire) (f : Faults) (d : Device) (nowMs : Int64) (data : Bytes) :
    Device × List Effect :=
  match d.connDb with
  | none => (d, [])
  | some db =>
    let (db, effects) := revocationMessage W f db nowMs data
    (d.setConnDb db, effects)

end AlterChat.Commands
