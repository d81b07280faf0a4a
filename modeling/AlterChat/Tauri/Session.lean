import AlterChat.Core.Identity
import AlterChat.Tauri.Chunks

/-!
# Sessions

The backend as a whole, with the disk it runs on: `login_profile` and `panic_wipe` of
`commands/auth.rs`, the arm `StartSession` of the event loop, the commands that open the database
for themselves, and whatever else writes a file. A command and the event loop meet in `AppState` and
in the channel; the loop keeps its connection, its path and its identity for itself. A panic ends
the loop's task, but not the process.

* §1 the profile's database, connections, the state of the backend;
* §2 what `StartSession` calls, §3 `StartSession`, with what it reads, writes and dials;
* §4 the commands, §5 `panic_wipe`;
* §6 events, runs of processes;
* §7 `Sound` -- what `AppState` and the loop have in every run; `db_key` is never set.
-/

namespace AlterChat.Session

open Lib Lib.Paths Governance Db Commands Identity Profile Chunks

/-! ## 1. The backend -/

/-- A profile's database, with the tables that only sessions use. -/
structure ProfileDb where
  tables : Database
  /-- `last_seen` by peer and address. -/
  knownPeers : Table (String × String) Int64
  /-- Bundle and `fetched_at` by peer. -/
  prekeyBundles : Table String (String × Int64)
  chunks : ChunkStore

/-- What `run_migrations` leaves in a new database. -/
def ProfileDb.new : ProfileDb where
  tables := .empty
  knownPeers := ∅
  prekeyBundles := ∅
  chunks := { settings := .default, chunks := ∅ }

/-- What a file holds. -/
inductive Content where
  | bytes (b : Bytes)
  | database (db : ProfileDb)

/-- The bytes of a file; those of a database are left open. -/
def Content.raw : Content → Bytes
  | .bytes b => b
  | .database _ => []

inductive Connection where
  | file (path : String)
  | memory (db : ProfileDb)

/-- The database behind a connection. -/
def Connection.read (disk : Disk Content) : Connection → ProfileDb
  | .memory db => db
  | .file path =>
    match disk.get path with
    | some (.database db) => db
    | _ => .new

/-- A write through a connection. -/
def Connection.write (disk : Disk Content) (db : ProfileDb) : Connection → Connection × Disk Content
  | .memory _ => (.memory db, disk)
  | .file path => (.file path, disk.insert (place path) (.database db))

/-- What the backend calls and finds around it. -/
structure Host (Keypair Pub Key : Type) where
  signatures : Signatures Keypair Pub
  wire : Wire
  sha : Sha256
  vault : Vault Key
  keys : KeyFormat Keypair
  /-- `try_into_ed25519` succeeds. -/
  isEd25519 : Keypair → Bool
  /-- `$HOME`, `$USERPROFILE` or `.`. -/
  home : String
  peersJson : Codec (List String) Bytes
  /-- `Multiaddr::from_str` succeeds. -/
  isMultiaddr : String → Bool

variable {Keypair Pub Key : Type}

/-- The name of a key pair's holder. -/
def Host.peerId (X : Host Keypair Pub Key) (keypair : Keypair) : String :=
  X.signatures.peerId (X.signatures.publicOf keypair)

structure Backend where
  app : AppState
  /-- The commands `StartSession` in the channel: password and mode. -/
  queue : List (String × Bool)
  disk : Disk Content
  /-- The loop's task has not panicked. -/
  running : Bool
  conn : Option Connection
  currentDbPath : Option String
  myPeerId : String
  currentTopicName : String

/-- A new process on a disk. -/
def Backend.fresh (disk : Disk Content) : Backend where
  app := { dbPath := none, dbKey := none, keyPath := none }
  queue := []
  disk
  running := true
  conn := none
  currentDbPath := none
  myPeerId := ""
  currentTopicName := "alterchat-global"

/-- The loop's task is gone, with its variables. -/
def Backend.died (b : Backend) (disk : Disk Content) : Backend :=
  { b with disk, running := false, conn := none, currentDbPath := none, myPeerId := "" }

/-! ## 2. What a session is opened with -/

/-- `init_db`; an empty file is a new database. -/
def initDb (f : Faults) (os : FileSystem) (disk : Disk Content) (path : String) :
    Except String Connection × Disk Content :=
  if path = MEMORY then (query f .initDb (.memory .new), disk)
  else
    match disk.get path with
    | some (.database _) => (query f .initDb (.file path), disk)
    | some (.bytes (_ :: _)) => (.error "file is not a database", disk)
    | _ =>
      let answer := os.write path
      let disk := disk.put .bytes answer path (.database .new)
      match answer.error with
      | some _ => (.error "unable to open database file", disk)
      | none => (query f .initDb (.file path), disk)

/-- What a loader finds at a path. -/
def keyBytes (disk : Disk Content) (path : String) : Option Bytes := (disk.get path).map Content.raw

/-- What a loader leaves there. -/
def keepKey (disk : Disk Content) (path : String) (file : Option Bytes) : Disk Content :=
  match file with
  | none => disk
  | some bytes =>
    if keyBytes disk path = some bytes then disk else disk.insert (place path) (.bytes bytes)

/-- `load_or_generate_encrypted_keypair` on the disk; `none` is a panic. -/
def loadEncrypted (X : Host Keypair Pub Key) (os : FileSystem) (disk : Disk Content)
    (path password : String) (draw : Draw Keypair) :
    Option (Except String Keypair) × Disk Content :=
  match loadOrGenerateEncryptedKeypair X.keys X.vault os path password
    (keyBytes disk path) draw with
  | none => (none, disk)
  | some (result, file) => (some result, keepKey disk path file)

/-- The directory of `default_known_peers_path`. -/
def knownPeersDir (X : Host Keypair Pub Key) : String := join X.home ".alterchat"

/-- `default_known_peers_path`. -/
def knownPeersPath (X : Host Keypair Pub Key) : String := join (knownPeersDir X) "known_peers.json"

/-- `load_known_peers` of `network.rs`: nothing, where the file is not readable. -/
def persistedPeers (X : Host Keypair Pub Key) (os : FileSystem) (disk : Disk Content) :
    List String :=
  match disk.get (knownPeersPath X), os.read (knownPeersPath X) with
  | some content, none => (X.peersJson.dec content.raw).getD []
  | _, _ => []

/-- `save_known_peers`. -/
def savePeers (X : Host Keypair Pub Key) (os : FileSystem) (disk : Disk Content)
    (peers : List String) : Disk Content :=
  if os.createDirAll (knownPeersDir X) = false then disk
  else disk.put .bytes (os.write (knownPeersPath X)) (knownPeersPath X)
    (.bytes (X.peersJson.enc peers))

inductive ProxyMode where
  | direct
  | tor
  | socks5
  | i2p
  deriving DecidableEq

inductive TransportPreference where
  | tcp
  | quic
  | tor
  deriving DecidableEq

/-- The part of `NetworkPrivacyConfig` that decides which swarm is built. -/
structure NetworkPrivacyConfig where
  proxyMode : ProxyMode
  transportPreference : TransportPreference
  deriving DecidableEq

/-- `network_config`, from the settings of the database that was opened. -/
def networkConfig (f : Faults) (db : Database) : NetworkPrivacyConfig :=
  let text key := (loadSetting f db key).toOption.join
  let torEnabled := ((text "tor_enabled").map fun v => decide (v = "true")).getD false
  let proxyMode := (text "proxy_mode").getD "none"
  let transportPreference := (text "transport_preference").getD "tcp"
  { proxyMode :=
      if torEnabled || decide (proxyMode = "tor") then .tor
      else if proxyMode = "socks5" then .socks5
      else if proxyMode = "i2p" then .i2p
      else .direct
    transportPreference :=
      if transportPreference = "quic" then .quic
      else if transportPreference = "tor" then .tor
      else .tcp }

/-- The swarm is not the one over Tor, nor the one over QUIC: these are returned as soon as they are
    built. -/
def NetworkPrivacyConfig.dialsPeers (config : NetworkPrivacyConfig) : Bool :=
  !(decide (config.proxyMode = .tor) || decide (config.transportPreference = .quic))

/-- `create_swarm`, as far as it touches files: the peers it dials, unless no swarm can be built. -/
def createSwarm (X : Host Keypair Pub Key) (os : FileSystem) (disk : Disk Content) (built : Bool)
    (config : NetworkPrivacyConfig) : Option (List String) × Disk Content :=
  if built = false then (none, disk)
  else if config.dialsPeers then
    let persisted := persistedPeers X os disk
    (some (persisted.filter X.isMultiaddr), savePeers X os disk persisted)
  else (some [], disk)

/-- The statements on the tables of peers and bundles. -/
inductive PeerStmt where
  | cleanupOldPeers
  | loadKnownPeers
  | savePrekeyBundle
  deriving DecidableEq

/-- The statements that fail. -/
abbrev PeerFaults := PeerStmt → Bool

/-- `cleanup_old_peers`. -/
def cleanupOldPeers (f : PeerFaults) (db : ProfileDb) (nowMs maxAgeMs : Int64) : ProfileDb :=
  if f .cleanupOldPeers then db
  else
    let old := db.knownPeers.entries.filter fun row => decide (row.2 < nowMs - maxAgeMs)
    { db with knownPeers := old.foldl (fun table row => table.erase row.1) db.knownPeers }

/-- `load_known_peers` of `db.rs`: the 200 seen last. -/
def loadKnownPeers (f : PeerFaults) (db : ProfileDb) : List (String × String) :=
  if f .loadKnownPeers then []
  else
    ((db.knownPeers.entries.mergeSort fun r s => decide (s.2 ≤ r.2)).map fun row => row.1).take 200

/-- `save_prekey_bundle`. -/
def savePrekeyBundle (f : PeerFaults) (db : ProfileDb) (peerId bundleJson : String)
    (nowMs : Int64) : ProfileDb :=
  if f .savePrekeyBundle then db
  else
    { db with
      prekeyBundles :=
        db.prekeyBundles.upsert peerId (bundleJson, nowMs) fun _ => (bundleJson, nowMs) }

/-! ## 3. `StartSession` -/

/-- What a `StartSession` is answered with. -/
structure Startup (Keypair : Type) where
  f : Faults
  fp : PeerFaults
  os : FileSystem
  draw : Draw Keypair
  nowMs : Int64
  /-- A swarm can be built. -/
  built : Bool
  /-- The new bundle, if it serialises. -/
  bundleJson : Option String

/-- The database that a statement runs on: a file, or one in memory, of this session or of the one
    before. -/
inductive Target where
  | file (path : String)
  | opened
  | previous
  deriving DecidableEq

def Connection.target (memory : Target) : Connection → Target
  | .file path => .file path
  | .memory _ => memory

inductive StartStmt where
  | migrations
  | loadFullConfig
  | ensureDefaultRoomGovernance
  | loadRoom
  | peers (stmt : PeerStmt)
  deriving DecidableEq

/-- What has been done on the way: the statements, each with its database; the known peers
    dialled. -/
structure SessionLog where
  statements : List (StartStmt × Target)
  dialled : List String

/-- The part of the arm that dials the known peers: the peers, and the connection it uses
    afterwards. -/
def dialKnownPeers (X : Host Keypair Pub Key) (i : Startup Keypair) (old : Connection)
    (disk : Disk Content) : List String × Connection × Disk Content :=
  let db := cleanupOldPeers i.fp (old.read disk) i.nowMs (7 * 24 * 60 * 60 * 1000)
  let (old, disk) := old.write disk db
  (((loadKnownPeers i.fp db).map fun row => row.2).filter X.isMultiaddr, old, disk)

/-- The statements on the connection of the session before, if there is one: the peers dialled, and
    the disk afterwards. -/
def previousSession (X : Host Keypair Pub Key) (i : Startup Keypair) (previous : Option Connection)
    (disk : Disk Content) (myPeerId : String) : SessionLog × Disk Content :=
  match previous with
  | none => ({ statements := [], dialled := [] }, disk)
  | some old =>
    let target := old.target .previous
    let dialling := [(.peers .cleanupOldPeers, target), (.peers .loadKnownPeers, target)]
    let (dialled, old, disk) := dialKnownPeers X i old disk
    match i.bundleJson with
    | none => ({ statements := dialling, dialled }, disk)
    | some bundleJson =>
      ({ statements := dialling ++ [(.peers .savePrekeyBundle, target)], dialled },
        (old.write disk (savePrekeyBundle i.fp (old.read disk) myPeerId bundleJson i.nowMs)).2)

/-- The arm `AppCommand::StartSession`. -/
def startSession (X : Host Keypair Pub Key) (i : Startup Keypair) (b : Backend) (password : String)
    (amnesic : Bool) : Backend × SessionLog :=
  let dbPath := dbPathOf X.sha password amnesic
  match initDb i.f i.os b.disk dbPath with
  | (.error _, disk) => (b.died disk, { statements := [], dialled := [] })
  | (.ok conn, disk) =>
    let target := conn.target .opened
    match loadEncrypted X i.os disk (keyPathOf X.sha password amnesic) password i.draw with
    | (some (.ok keypair), disk) =>
      if X.isEd25519 keypair = false then
        (b.died disk, { statements := [(.migrations, target)], dialled := [] })
      else
        let myPeerId := X.peerId keypair
        match createSwarm X i.os disk i.built (networkConfig i.f (conn.read disk).tables) with
        | (none, disk) =>
          (b.died disk,
            { statements := [(.migrations, target), (.loadFullConfig, target)], dialled := [] })
        | (some persisted, disk) =>
          let db := conn.read disk
          let tables :=
            (ensureDefaultRoomGovernance X.signatures X.wire i.f db.tables b.currentTopicName
            keypair myPeerId i.nowMs).2
          let (conn, disk) := conn.write disk { db with tables }
          let (log, disk) := previousSession X i b.conn disk myPeerId
          ({ b with disk, conn := some conn, currentDbPath := some dbPath, myPeerId },
            { statements := [(.migrations, target), (.loadFullConfig, target),
                (.ensureDefaultRoomGovernance, target), (.loadRoom, target)] ++ log.statements
              dialled := persisted ++ log.dialled })
    | (_, disk) => (b.died disk, { statements := [(.migrations, target)], dialled := [] })

/-! ## 4. The commands -/

/-- The command `login_profile`; `none` is a panic. -/
def loginProfile (X : Host Keypair Pub Key) (os : FileSystem) (draw : Draw Keypair) (b : Backend)
    (password : String) (amnesic : Bool) : Option (Except String String) × Backend :=
  let keyPath := keyPathOf X.sha password amnesic
  match loadEncrypted X os b.disk keyPath password draw with
  | (none, disk) => (none, { b with disk })
  | (some (.error e), disk) => (some (.error ("Failed to load keypair: " ++ e)), { b with disk })
  | (some (.ok keypair), disk) =>
    let app :=
      { b.app with dbPath := some (dbPathOf X.sha password amnesic), keyPath := some keyPath }
    if b.running = false then (some (.error "channel closed"), { b with disk, app })
    else
      (some (.ok (X.peerId keypair)),
        { b with disk, app, queue := b.queue ++ [(password, amnesic)] })

/-- `db_path`, `db_key` and `init_db`, as every command that opens the database begins. -/
def Backend.initDb (f : Faults) (os : FileSystem) (b : Backend) :
    Except String Connection × Disk Content :=
  match b.app.dbPath with
  | none => (.error "Not logged in", b.disk)
  | some path =>
    match b.app.dbKey with
    | none => (.error "Not logged in", b.disk)
    | some _ => Session.initDb f os b.disk path

/-- A command that opens the database: what it does with the open database and the disk. Every such
    command is this with its own `body`. -/
def Backend.withDb {α : Type} (f : Faults) (os : FileSystem) (b : Backend)
    (body : ProfileDb → Disk Content → Except String α × ProfileDb × Disk Content) :
    Except String α × Backend :=
  match b.initDb f os with
  | (.error e, disk) => (.error e, { b with disk })
  | (.ok conn, disk) =>
    let (result, db, disk) := body (conn.read disk) disk
    (result, { b with disk := (conn.write disk db).2 })

/-- `key_path` and `load_or_generate_keypair`, as `create_trust_edge` and `create_permission_grant`
    begin. -/
def Backend.loadPlain (X : Host Keypair Pub Key) (os : FileSystem) (b : Backend)
    (generated : Keypair) : Except String Keypair × Backend :=
  match b.app.keyPath with
  | none => (.error "Not logged in", b)
  | some path =>
    let (result, file) := loadOrGenerateKeypair X.keys os path (keyBytes b.disk path) generated
    (result, { b with disk := keepKey b.disk path file })

/-! ## 5. `panic_wipe` -/

/-- `str::starts_with`. -/
def startsWith (s pre : String) : Bool := pre.toList.isPrefixOf s.toList

/-- `str::ends_with`. -/
def endsWith (s suf : String) : Bool := suf.toList.isSuffixOf s.toList

/-- `active_profile_paths`. -/
def activeProfilePaths (dbPath keyPath : Option String) : List String :=
  (match dbPath with
    | some db => [db, db ++ "-shm", db ++ "-wal"]
    | none => []) ++ keyPath.toList ++ (dbPath.map storageRootForDb).toList

/-- `fname` is a database. -/
def isDb (fname : String) : Bool := startsWith fname "alterchat_" && endsWith fname ".db"

/-- `fname` is a file that `all_profile_paths` takes. -/
def isProfileFile (fname : String) : Bool :=
  isDb fname || startsWith fname "alterchat_" && endsWith fname ".db-shm" ||
    startsWith fname "alterchat_" && endsWith fname ".db-wal" ||
      startsWith fname "keypair_" && endsWith fname ".bin"

/-- The working directory. -/
def here : Location where
  anchor := .above 0
  names := []

/-- `all_profile_paths`. -/
def allProfilePaths (disk : Disk Content) : List String :=
  (disk.entries here).flatMap fun fname =>
    if isProfileFile fname then
      if isDb fname then ["./" ++ fname, storageRootForDb fname] else ["./" ++ fname]
    else []

inductive Scope where
  | activeProfile
  | messageDbOnly
  | allProfiles
  deriving DecidableEq

/-- The scopes by name. -/
def parseScope (scope : String) : Option Scope :=
  if scope = "active_profile" then some .activeProfile
  else if scope = "message_db_only" then some .messageDbOnly
  else if scope = "all_profiles" then some .allProfiles
  else none

def Backend.wipePaths (b : Backend) : Scope → List String
  | .activeProfile => activeProfilePaths b.app.dbPath b.app.keyPath
  | .messageDbOnly => activeProfilePaths b.app.dbPath none
  | .allProfiles => allProfilePaths b.disk

/-- The command `panic_wipe`: each path is removed, and the process exits. -/
def panicWipe (b : Backend) (scope : String) : Except String Unit × Backend :=
  match parseScope scope with
  | none => (.error "Unknown panic wipe scope", b)
  | some scope => (.ok (), .fresh (b.disk.removeAll ((b.wipePaths scope).map place)))

/-! ## 6. Runs -/

/-- The files that the database library puts next to a database. -/
inductive SideFile where
  | shm
  | wal
  | journal
  deriving DecidableEq

def SideFile.suffix : SideFile → String
  | .shm => "-shm"
  | .wal => "-wal"
  | .journal => "-journal"

/-- A request `FileChunk`, with what it is answered with; `loop` has everything but the
    connection. -/
structure ChunkEvent (Key : Type) where
  hashOf : Bytes → String
  f : Faults
  fc : ChunkFaults
  os : FileSystem
  loop : Inbound.EventLoop Key
  nowMs : Int64
  peer : String
  chunk : Chunk

/-- The request, on the database of the session. -/
def ChunkEvent.turn (e : ChunkEvent Key) (b : Backend) (db : ProfileDb) : ChunkTurn Key :=
  Chunks.fileChunk e.hashOf e.f e.fc e.os (e.loop.setConn db.tables) db.chunks b.currentDbPath
    e.nowMs e.peer
    e.chunk

/-- The request, on the backend; without a connection nothing is stored. -/
def Backend.fileChunk (b : Backend) (e : ChunkEvent Key) : Backend :=
  match b.conn with
  | none => b
  | some conn =>
    let db := conn.read b.disk
    let turn := e.turn b db
    let disk :=
      match turn.written with
      | none => b.disk
      | some (path, bytes) => b.disk.insert (place path) (.bytes bytes)
    let (conn, disk) :=
      conn.write disk { db with tables := turn.loop.node.conn, chunks := turn.store }
    { b with conn := some conn, disk }

inductive BackendEvent (Keypair Key : Type) where
  | login (os : FileSystem) (draw : Draw Keypair) (password : String) (amnesic : Bool)
  | start (i : Startup Keypair)
  /-- A command that opens the database, by what it does then. -/
  | dbCommand (f : Faults) (os : FileSystem)
      (body : ProfileDb → Disk Content → Except String Unit × ProfileDb × Disk Content)
  | loadPlain (os : FileSystem) (generated : Keypair)
  /-- Any other arm or handler, by what it writes through the connection. -/
  | loopWrite (write : ProfileDb → ProfileDb)
  | chunk (e : ChunkEvent Key)
  | sideFile (side : SideFile) (bytes : Bytes)
  | wipe (scope : String)
  /-- The process ends, and another one is started. -/
  | quit

/-- The backend after an event, where the event can happen. -/
def Backend.after (X : Host Keypair Pub Key) (b : Backend) :
    BackendEvent Keypair Key → Option Backend
  | .login os draw password amnesic => some (loginProfile X os draw b password amnesic).2
  | .start i =>
    match b.running, b.queue with
    | true, (password, amnesic) :: queue =>
      some (startSession X i { b with queue } password amnesic).1
    | _, _ => none
  | .dbCommand f os body => some (b.withDb f os body).2
  | .loadPlain os generated => some (b.loadPlain X os generated).2
  | .loopWrite write =>
    b.conn.map fun conn =>
      let (conn, disk) := conn.write b.disk (write (conn.read b.disk))
      { b with conn := some conn, disk }
  | .chunk e => some (b.fileChunk e)
  | .sideFile side bytes =>
    match b.conn with
    | some (.file path) =>
      some { b with disk := b.disk.insert (place (path ++ side.suffix)) (.bytes bytes) }
    | _ => none
  | .wipe scope => some (panicWipe b scope).2
  | .quit => some (.fresh b.disk)

def BackendStep (X : Host Keypair Pub Key) (b : Backend) (ev : BackendEvent Keypair Key)
    (b' : Backend) : Prop :=
  b.after X ev = some b'

/-- A process that has just been started, on any disk. -/
def Fresh (b : Backend) : Prop := ∃ disk, b = .fresh disk

variable {X : Host Keypair Pub Key} {b b' : Backend}

theorem login_step (os : FileSystem) (draw : Draw Keypair) (password : String) (amnesic : Bool) :
    BackendStep X b (.login os draw password amnesic)
    (loginProfile X os draw b password amnesic).2 := rfl

/-- The loop takes the next `StartSession`. -/
theorem start_step {password : String} {amnesic : Bool} {queue : List (String × Bool)}
    (hrunning : b.running = true) (hqueue : b.queue = (password, amnesic) :: queue)
    (i : Startup Keypair) :
    BackendStep X b (.start i) (startSession X i { b with queue } password amnesic).1 := by
  cases b
  cases hrunning
  cases hqueue
  rfl

theorem start_inv {i : Startup Keypair} (hs : BackendStep X b (.start i) b') :
    ∃ password amnesic queue, b.running = true ∧ b.queue = (password, amnesic) :: queue ∧
      b' = (startSession X i { b with queue } password amnesic).1 := by
  simp only [BackendStep, Backend.after] at hs
  split at hs
  · next password amnesic queue hrunning hqueue =>
    exact ⟨password, amnesic, queue, hrunning, hqueue, (Option.some.inj hs).symm⟩
  · cases hs

/-! ## 7. What every run keeps -/

/-- **What `initDb` opens**: a new database in memory, or a file that is there afterwards. -/
theorem initDb_ok {f : Faults} {os : FileSystem} {disk disk' : Disk Content} {path : String}
    {conn : Connection} (h : initDb f os disk path = (.ok conn, disk')) :
    path = MEMORY ∧ conn = .memory .new ∧ disk' = disk ∨
      path ≠ MEMORY ∧ conn = .file path ∧ place path ∈ disk' := by
  unfold initDb at h
  split at h
  · next hpath =>
    obtain ⟨hconn, rfl⟩ := Prod.mk.inj h
    exact .inl ⟨hpath, (query_ok hconn).2.symm, rfl⟩
  · next hpath =>
    right
    split at h
    · next db hget =>
      obtain ⟨hconn, rfl⟩ := Prod.mk.inj h
      exact ⟨hpath, (query_ok hconn).2.symm, AList.lookup_isSome.mp (Option.isSome_of_eq_some hget)⟩
    · cases h
    · cases hanswer : os.write path with
      | refused e | broken left e =>
        simp only [hanswer, Written.error] at h
        cases h
      | written =>
        simp only [hanswer, Written.error] at h
        obtain ⟨hconn, rfl⟩ := Prod.mk.inj h
        exact ⟨hpath, (query_ok hconn).2.symm,
          AList.lookup_isSome.mp (Option.isSome_of_eq_some (Disk.get_put_written _ _ _ _))⟩

/-- **How `StartSession` ends**: the task panics; or the database is open, the key pair loaded and
    the swarm built, and this is what the loop has. -/
theorem startSession_cases (X : Host Keypair Pub Key) (i : Startup Keypair) (b : Backend)
    (password : String) (amnesic : Bool) :
    (∃ disk log, startSession X i b password amnesic = (b.died disk, log)) ∨
      ∃ conn disk₁ keypair disk₂ persisted disk₃,
        initDb i.f i.os b.disk (dbPathOf X.sha password amnesic) = (.ok conn, disk₁) ∧
        loadEncrypted X i.os disk₁ (keyPathOf X.sha password amnesic) password i.draw =
          (some (.ok keypair), disk₂) ∧
        createSwarm X i.os disk₂ i.built (networkConfig i.f (conn.read disk₂).tables) =
          (some persisted, disk₃) ∧
        let db := conn.read disk₃
        let tables := (ensureDefaultRoomGovernance X.signatures X.wire i.f db.tables
          b.currentTopicName keypair (X.peerId keypair) i.nowMs).2
        let written := conn.write disk₃ { db with tables }
        let previous := previousSession X i b.conn written.2 (X.peerId keypair)
        let target := conn.target .opened
        startSession X i b password amnesic =
          ({ b with
              disk := previous.2
              conn := some written.1
              currentDbPath := some (dbPathOf X.sha password amnesic)
              myPeerId := X.peerId keypair },
            { statements := [(.migrations, target), (.loadFullConfig, target),
                (.ensureDefaultRoomGovernance, target), (.loadRoom, target)] ++
                previous.1.statements
              dialled := persisted ++ previous.1.dialled }) := by
  unfold startSession
  cases hinit : initDb i.f i.os b.disk (dbPathOf X.sha password amnesic) with
  | mk result disk₁ =>
    cases result with
    | error e => exact .inl ⟨disk₁, { statements := [], dialled := [] }, by simp only [hinit]⟩
    | ok conn =>
      cases hload : loadEncrypted X i.os disk₁ (keyPathOf X.sha password amnesic)
        password i.draw with
      | mk loaded disk₂ =>
        rcases loaded with _ | e | keypair
        · exact .inl ⟨disk₂, { statements := [(.migrations, conn.target .opened)], dialled := [] },
            by simp only [hinit, hload]⟩
        · exact .inl ⟨disk₂, { statements := [(.migrations, conn.target .opened)], dialled := [] },
            by simp only [hinit, hload]⟩
        · by_cases hed : X.isEd25519 keypair = false
          · exact .inl
              ⟨disk₂, { statements := [(.migrations, conn.target .opened)], dialled := [] },
              by simp only [hinit, hload, hed, if_true]⟩
          · cases hswarm : createSwarm X i.os disk₂ i.built
              (networkConfig i.f (conn.read disk₂).tables) with
            | mk dialled disk₃ =>
              cases dialled with
              | none =>
                refine .inl ⟨disk₃, { statements := [(.migrations, conn.target .opened),
                  (.loadFullConfig, conn.target .opened)], dialled := [] }, ?_⟩
                simp only [hinit, hload, hed, hswarm, Bool.true_eq_false, if_false]
              | some persisted =>
                refine .inr ⟨conn, disk₁, keypair, disk₂, persisted, disk₃, rfl, hload, hswarm, ?_⟩
                simp only [hinit, hload, hed, hswarm, Bool.true_eq_false, if_false]

/-- A write leaves a connection to the same database. -/
theorem write_conn (conn : Connection) (disk : Disk Content) (db : ProfileDb) :
    (conn.write disk db).1 = .memory db ∧ (∃ db', conn = .memory db') ∨
      ∃ path, conn = .file path ∧ (conn.write disk db).1 = .file path := by
  cases conn with
  | memory db' => exact .inl ⟨rfl, db', rfl⟩
  | file path => exact .inr ⟨path, rfl, rfl⟩

/-- Without a key, no command opens the database. -/
theorem withDb_refused {α : Type} (h : b.app.dbKey = none) (f : Faults) (os : FileSystem)
    (body : ProfileDb → Disk Content → Except String α × ProfileDb × Disk Content) :
    b.withDb f os body = (.error "Not logged in", b) := by
  unfold Backend.withDb Backend.initDb
  cases b.app.dbPath with
  | none => rfl
  | some path => rw [h]

/-- The path of a profile's database. -/
def IsDbPath (X : Host Keypair Pub Key) (path : String) : Prop :=
  ∃ password, path = profileDb (tag X.sha password)

/-- The path of a profile's key file. -/
def IsKeyPath (X : Host Keypair Pub Key) (path : String) : Prop :=
  ∃ password, path = profileKey (tag X.sha password)

/-- **What a backend is in every run**: no key for the commands; paths of a profile, whose key file
    is there, or of what is in memory; a connection to a file is one to the current database. -/
structure Sound (X : Host Keypair Pub Key) (b : Backend) : Prop where
  dbKey : b.app.dbKey = none
  dbPath : ∀ path, b.app.dbPath = some path → path = MEMORY ∨ IsDbPath X path
  keyPath : ∀ path, b.app.keyPath = some path → path = MEMORY ∨ IsKeyPath X path ∧
    place path ∈ b.disk
  conn : ∀ path, b.conn = some (.file path) → IsDbPath X path ∧ place path ∈ b.disk
  current : ∀ path, b.currentDbPath = some path → path = MEMORY ∨ b.conn = some (.file path)

end AlterChat.Session
