import AlterChat.Tauri.SessionDisk
import AlterChat.Lib.Gcm

/-!
# The commands of a session

What the commands get to see of a backend. `db_key` of `AppState` is `None` when the process starts,
and nothing sets it; a command that opens the database asks for it first.

* §1 the device of `Commands` in a backend, `device_initDb`;
* §2 commands;
* §3 `SharesDatabase` -- command and loop have one database; when they would have, with a key;
* §4 a host, and a session on it;
* §5 `commands_never_open`, `commands_refused` -- no command ever opens the database.
-/

namespace AlterChat.Session

open Lib Lib.Paths Governance Db Commands Identity Profile Chunks

variable {Keypair Pub Key : Type} {X : Host Keypair Pub Key} {b b' : Backend}

/-! ## 1. The device -/

/-- The backend as the governance commands see it. -/
def Backend.device (b : Backend) : Device where
  app := b.app
  file :=
    match b.app.dbPath with
    | none => .empty
    | some path => ((Connection.file path).read b.disk).tables
  conn :=
    match b.conn with
    | none => .closed
    | some (.file _) => .file
    | some (.memory db) => .memory db.tables

/-- **A command that opens the database finds the device's.** -/
theorem device_initDb {f : Faults} {os : FileSystem} {conn : Connection} {disk : Disk Content}
    (h : b.initDb f os = (.ok conn, disk)) : b.device.initDb f = .ok (conn.read disk).tables := by
  unfold Backend.initDb at h
  unfold Device.initDb Backend.device
  cases hpath : b.app.dbPath with
  | none =>
    rw [hpath] at h
    cases h
  | some path =>
    cases hkey : b.app.dbKey with
    | none =>
      simp only [hpath, hkey] at h
      cases h
    | some key =>
      simp only [hpath, hkey] at h ⊢
      unfold Session.initDb at h
      split at h
      · next hmem =>
        obtain ⟨hquery, rfl⟩ := Prod.mk.inj h
        obtain ⟨hfault, rfl⟩ := query_ok hquery
        rw [if_pos (show path = ":memory:" from hmem), query, hfault]
        rfl
      · next hfile =>
        rw [if_neg (show ¬ path = ":memory:" from hfile)]
        split at h
        · next db hget =>
          obtain ⟨hquery, rfl⟩ := Prod.mk.inj h
          obtain ⟨hfault, rfl⟩ := query_ok hquery
          rw [query, hfault]
        · cases h
        · next hno hno' =>
          -- nothing is there, or an empty file
          have hnew : (Connection.file path).read b.disk = .new := by
            simp only [Connection.read]
          cases hanswer : os.write path with
          | refused e | broken left e =>
            simp only [hanswer, Written.error] at h
            cases h
          | written =>
            simp only [hanswer, Written.error] at h
            obtain ⟨hquery, rfl⟩ := Prod.mk.inj h
            obtain ⟨hfault, rfl⟩ := query_ok hquery
            rw [query, hfault, hnew]
            simp only [Connection.read, Disk.get_put_written]

/-! ## 2. Commands -/

/-- What a command that creates something is answered with. -/
structure Call (Keypair : Type) where
  f : Faults
  os : FileSystem
  /-- The key pair that a loader draws. -/
  generated : Keypair
  nowMs : Int64

/-- What `create_invite` returns. -/
def Backend.createInvite (X : Host Keypair Pub Key) (c : Call Keypair) (b : Backend)
    (randomNonce : Vector UInt8 16) (roomId : String) (roomPassword : Option String)
    (expiresInSeconds : Option Int64) (maxUses : Option UInt32) : Except String String :=
  (Commands.createInvite X.signatures X.wire c.f b.device (b.loadPlain X c.os c.generated).1 c.nowMs
    randomNonce roomId roomPassword expiresInSeconds maxUses).1

/-- What `create_permission_grant` returns. -/
def Backend.createPermissionGrant (X : Host Keypair Pub Key) (c : Call Keypair) (b : Backend)
    (roomId subjectPeerId roleId : String) (expiresAt : Option Int64) :
    Except String PermissionGrant :=
  (Commands.createPermissionGrant X.signatures X.wire c.f b.device
    (b.loadPlain X c.os c.generated).1
    c.nowMs roomId subjectPeerId roleId expiresAt).1

/-- What `create_trust_edge` returns; `saved` is what `save_trust_edge` does. -/
def Backend.createTrustEdge (X : Host Keypair Pub Key) (c : Call Keypair) (b : Backend)
    (saved : Except String Unit) (toPeerId : String) (score : Int32) (reason : String) :
    Except String TrustEdge :=
  match b.device.keypair (b.loadPlain X c.os c.generated).1 with
  | .error e => .error e
  | .ok keypair =>
    match Governance.createTrustEdge X.signatures X.wire keypair toPeerId score reason c.nowMs with
    | .error e => .error e
    | .ok edge =>
      match b.device.initDb c.f with
      | .error e => .error e
      | .ok _ => saved.map fun _ => edge

/-- What `accept_invite` returns. -/
def Backend.acceptInvite (X : Host Keypair Pub Key) (c : Call Keypair) (b : Backend)
    (tokenJson : String) : Except String (String × Option String) :=
  (Commands.acceptInvite X.signatures X.wire c.f b.device c.nowMs tokenJson).1

/-- The command `get_private_messages`. -/
def Backend.getPrivateMessages (c : Call Keypair) (b : Backend) (peerId : String) :
    Except String (List PrivateMessage) × Backend :=
  b.withDb c.f c.os fun db disk =>
    let (result, tables) := Db.getPrivateMessages c.f db.tables c.nowMs peerId
    (result, { db with tables }, disk)

/-- The command `get_peer_settings`. -/
def Backend.getPeerSettings (c : Call Keypair) (b : Backend) (peerId : String) :
    Except String PeerSettings × Backend :=
  b.withDb c.f c.os fun db disk =>
    let (result, tables) := Db.getPeerSettings c.f db.tables peerId
    (result, { db with tables }, disk)

/-- The two statements of `save_peer_settings`. -/
inductive SettingsStmt where
  | upsertPeerSettings
  | updateFriend
  deriving DecidableEq

/-- `save_peer_settings` of `db.rs`. -/
def saveSettings (f : SettingsStmt → Option String) (db : Database) (peerId : String)
    (settings : PeerSettings) : Except String Unit × Database :=
  match f .upsertPeerSettings with
  | some e => (.error e, db)
  | none =>
    let db := { db with peerSettings := db.peerSettings.upsert peerId settings fun _ => settings }
    match f .updateFriend with
    | some e => (.error e, db)
    | none =>
      (.ok (), { db with
        friends := db.friends.update peerId fun friend =>
          { friend with
            trustLevel := settings.trustLevel
            blocked := settings.blocked
            muted := settings.muted } })

/-- The command `save_peer_settings`. -/
def Backend.savePeerSettings (c : Call Keypair) (b : Backend) (f : SettingsStmt → Option String)
    (peerId : String) (settings : PeerSettings) : Except String Unit × Backend :=
  b.withDb c.f c.os fun db disk =>
    let (result, tables) := saveSettings f db.tables peerId settings
    (result, { db with tables }, disk)

/-! ## 3. One database -/

/-- The database that the loop reads. -/
def Backend.loopDb (b : Backend) : Option ProfileDb := b.conn.map fun conn => conn.read b.disk

/-- **Commands and loop have one database**: a command that opens it reads what the loop has, and
    what a command has written the loop has. -/
structure SharesDatabase (b : Backend) : Prop where
  reads : ∀ (f : Faults) (os : FileSystem), f .initDb = none →
    (b.withDb f os fun db disk => (.ok db, db, disk)).1.toOption = b.loopDb
  saves : ∀ (f : Faults) (os : FileSystem) (db : ProfileDb), f .initDb = none →
    (b.withDb f os fun _ disk => (.ok (), db, disk)).2.loopDb = some db

/-- With a key, they would have one database where it is a file. -/
theorem sharesDatabase_of_key {path : String} (hkey : b.app.dbKey.isSome = true)
    (hpath : b.app.dbPath = some path) (hmem : path ≠ MEMORY) (hconn : b.conn = some (.file path))
    {db : ProfileDb} (hfile : b.disk.get path = some (.database db)) : SharesDatabase b := by
  obtain ⟨key, hkey⟩ := Option.isSome_iff_exists.mp hkey
  have hopen : ∀ (f : Faults) (os : FileSystem), f .initDb = none →
      b.initDb f os = (.ok (.file path), b.disk) := by
    intro f os hf
    unfold Backend.initDb Session.initDb
    simp only [hpath, hkey, hmem, if_false, hfile, query, hf]
  constructor
  · intro f os hf
    unfold Backend.withDb Backend.loopDb
    rw [hopen f os hf, hconn]
    rfl
  · intro f os db' hf
    unfold Backend.withDb Backend.loopDb
    simp only [hopen f os hf, hconn, Option.map_some, Connection.write, Connection.read, Disk.get,
      AList.lookup_insert]

/-- In memory they would not: every command opens a database of its own. -/
theorem not_sharesDatabase_memory {db : ProfileDb} (hpath : b.app.dbPath = some MEMORY)
    (hconn : b.conn = some (.memory db)) : ¬ SharesDatabase b := by
  intro h
  have hkept : ∀ db', (b.withDb noFaults .willing fun _ disk => (.ok (), db', disk)).2.loopDb =
      some db := by
    intro db'
    unfold Backend.withDb Backend.initDb Session.initDb Backend.loopDb
    rw [hpath]
    cases b.app.dbKey with
    | none => simp [hconn, Connection.read]
    | some key => simp [hconn, Connection.read]
  -- two databases that differ in one setting
  have hsame := (hkept _).symm.trans (h.saves noFaults .willing .new rfl)
  have hother := (hkept _).symm.trans (h.saves noFaults .willing
    { ProfileDb.new with tables := { Database.empty with
      settings := (∅ : Table String String).insert "nick" "a" } } rfl)
  have hsettings := congrArg (Option.map fun db => db.tables.settings.entries.length)
    (hsame.symm.trans hother)
  cases hsettings

/-! ## 4. A session to look at -/

/-- Key pairs are numbers, encoded in unary. -/
def unary : KeyFormat Nat where
  toProtobuf keypair := .ok (List.replicate keypair 8)
  fromProtobuf bytes :=
    if bytes = List.replicate bytes.length 8 then .ok bytes.length
    else .error "Invalid wire type value: 0"

theorem unary_documented : unary.Documented := by
  intro keypair bytes h
  cases h
  simp [unary]

/-- A stand-in for SHA-256: the length, 32 times. -/
def lengthSha : Sha256 where
  digest m := List.replicate 32 (UInt8.ofNat m.length)
  length_digest _ := List.length_replicate

/-- The cipher of `plain32`, with one key for every password. -/
def openVault : Vault Key32 where
  aead := plain32
  deriveKey _ _ := 0

/-- A host in whose directories nothing has been left. -/
def sampleHost : Host Nat Nat Key32 where
  signatures := .tagged
  wire := .numbered
  sha := lengthSha
  vault := openVault
  keys := unary
  isEd25519 _ := true
  home := "/home/u"
  peersJson := (Codec.ofEncodable _).short []
  isMultiaddr addr := decide (addr ≠ "")

def draw (keypair : Nat) : Draw Nat where
  keypair
  salt := Vector.replicate 16 0
  nonce := Vector.replicate 12 0

/-- A `StartSession` at which all goes well. -/
def smooth (keypair : Nat) : Startup Nat where
  f := noFaults
  fp _ := false
  os := .willing
  draw := draw keypair
  nowMs := 0
  built := true
  bundleJson := some "{}"

/-- A new process, after a login with the password `pw`. -/
def loggedIn (amnesic : Bool) (keypair : Nat) : Backend :=
  (loginProfile sampleHost .willing (draw keypair) (.fresh ∅) "pw" amnesic).2

/-- The same, with the session started. -/
def started (amnesic : Bool) (keypair keypair' : Nat) : Backend :=
  (startSession sampleHost (smooth keypair') { loggedIn amnesic keypair with queue := [] }
    "pw" amnesic).1

theorem loggedIn_reach (amnesic : Bool) (keypair : Nat) :
    Reach Fresh (BackendStep sampleHost) (loggedIn amnesic keypair) := by
  have hfresh : Reach Fresh (BackendStep sampleHost) (.fresh ∅) := .start _ ⟨∅, rfl⟩
  exact hfresh.step _ _ _ (login_step .willing (draw keypair) "pw" amnesic)

theorem started_reach {amnesic : Bool} {keypair : Nat} (keypair' : Nat)
    (hrunning : (loggedIn amnesic keypair).running = true)
    (hqueue : (loggedIn amnesic keypair).queue = [("pw", amnesic)]) :
    Reach Fresh (BackendStep sampleHost) (started amnesic keypair keypair') :=
  (loggedIn_reach amnesic keypair).step _ (.start (smooth keypair')) _
    (start_step hrunning hqueue _)

/-! ## 5. No command opens the database -/

theorem device_refused (hkey : b.app.dbKey = none) (f : Faults) :
    b.device.initDb f = .error "Not logged in" := by
  unfold Device.initDb Backend.device
  cases hpath : b.app.dbPath with
  | none => rfl
  | some path => simp only [hkey]

/-- **Without a key, nothing is created or accepted.** -/
theorem commands_refused (X : Host Keypair Pub Key) (hkey : b.app.dbKey = none) (c : Call Keypair) :
    (∀ randomNonce roomId roomPassword expiresInSeconds maxUses json,
      b.createInvite X c randomNonce roomId roomPassword expiresInSeconds maxUses ≠ .ok json) ∧
    (∀ roomId subjectPeerId roleId expiresAt grant,
      b.createPermissionGrant X c roomId subjectPeerId roleId expiresAt ≠ .ok grant) ∧
    (∀ saved toPeerId score reason edge,
      b.createTrustEdge X c saved toPeerId score reason ≠ .ok edge) ∧
    ∀ tokenJson accepted, b.acceptInvite X c tokenJson ≠ .ok accepted := by
  have hdb := device_refused hkey c.f
  refine ⟨?_, ?_, ?_, ?_⟩
  · intro randomNonce roomId roomPassword expiresInSeconds maxUses json h
    unfold Backend.createInvite Commands.createInvite at h
    rw [hdb] at h
    cases h
  · intro roomId subjectPeerId roleId expiresAt grant h
    unfold Backend.createPermissionGrant Commands.createPermissionGrant at h
    rw [hdb] at h
    split at h <;> cases h
  · intro saved toPeerId score reason edge h
    unfold Backend.createTrustEdge at h
    rw [hdb] at h
    split at h
    · cases h
    · split at h <;> cases h
  · intro tokenJson accepted h
    unfold Backend.acceptInvite Commands.acceptInvite at h
    rw [hdb] at h
    split at h
    · cases h
    · split at h
      · cases h
      · split at h <;> cases h

/-- Without a key, nothing is shared. -/
theorem not_sharesDatabase (hkey : b.app.dbKey = none) {conn : Connection}
    (hsession : b.conn = some conn) :
    ¬ SharesDatabase b := by
  intro h
  have hreads := h.reads noFaults .willing rfl
  rw [withDb_refused hkey] at hreads
  unfold Backend.loopDb at hreads
  rw [hsession] at hreads
  cases hreads

/-- **No command opens the database of a session**: each says so and leaves the backend as it was;
    and so the loop reads nothing of what a command would have saved. -/
theorem commands_never_open (h : Reach Fresh (BackendStep X) b) {conn : Connection}
    (hsession : b.conn = some conn) :
    ¬ SharesDatabase b ∧
      (∀ (α : Type) (f : Faults) (os : FileSystem)
        (body : ProfileDb → Disk Content → Except String α × ProfileDb × Disk Content),
        b.withDb f os body = (.error "Not logged in", b)) ∧
      ∀ c tokenJson accepted, b.acceptInvite X c tokenJson ≠ .ok accepted := by
  have hkey := (sound_run h).dbKey
  exact ⟨not_sharesDatabase hkey hsession, fun α f os body => withDb_refused hkey f os body,
    fun c => (commands_refused X hkey c).2.2.2⟩

/-- In an amnesic session of the password `pw`. -/
theorem commands_never_open_amnesic : ¬ SharesDatabase (started true 1 2) ∧
    (∀ (α : Type) (f : Faults) (os : FileSystem)
      (body : ProfileDb → Disk Content → Except String α × ProfileDb × Disk Content),
      (started true 1 2).withDb f os body = (.error "Not logged in", started true 1 2)) ∧
    ∀ c tokenJson accepted, (started true 1 2).acceptInvite sampleHost c tokenJson ≠ .ok accepted :=
  commands_never_open (started_reach 2 (by decide) (by decide)) (Option.some_get (by decide)).symm

/-- **A login, its `StartSession`, and two commands**, in both modes: the peer's settings are not
    read, and not saved. -/
theorem started_not_logged_in :
    (loginProfile sampleHost .willing (draw 1) (.fresh ∅) "pw" false).1 = some (.ok "pp") ∧
    (started false 1 2).running = true ∧ (started false 1 2).conn.isSome = true ∧
    ((started false 1 2).getPeerSettings
      { f := noFaults, os := .willing, generated := 3, nowMs := 0 } "q").1 =
        .error "Not logged in" ∧
    ((started true 1 2).savePeerSettings
      { f := noFaults, os := .willing, generated := 3, nowMs := 0 } (fun _ => none) "q"
        .default).1 = .error "Not logged in" ∧
    ¬ SharesDatabase (started false 1 2) := by
  have hkey (amnesic : Bool) (hrunning : (loggedIn amnesic 1).running = true)
      (hqueue : (loggedIn amnesic 1).queue = [("pw", amnesic)]) :
      (started amnesic 1 2).app.dbKey = none :=
    (sound_run (started_reach 2 hrunning hqueue)).dbKey
  have hfile := hkey false (by decide) (by decide)
  have hmemory := hkey true (by decide) (by decide)
  exact ⟨by decide, by decide, by decide, congrArg Prod.fst (withDb_refused hfile _ _ _),
    congrArg Prod.fst (withDb_refused hmemory _ _ _),
    not_sharesDatabase hfile (Option.some_get (by decide)).symm⟩

end AlterChat.Session
