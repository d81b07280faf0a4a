import AlterChat.Lib.Table
import AlterChat.Lib.Transactions

/-!
# Migrations of the profile database

`run_migrations` and `migrate_v1_to_v2` of `alterchat-ui/src-tauri/src/db.rs`: two transactions,
each of which makes tables and sets `user_version`, and the version decides what is left to do. The
process may stop before any statement.

* §1 the database and its statements, §2 the tables, §3 `runMigrations`;
* §4 `Consistent` -- what the version says of the tables;
* §5 `batch_v1`, `batch_v2`, `call_spec` -- a call, cut off or not, leaves a consistent database and
  every row;
* §6 `migration_survives` -- after calls that were cut off anywhere, one that is not completes the
  rest.
-/

namespace AlterChat.Migrations

open Lib Lib.Transactions

/-! ## 1. Statements -/

inductive SqlValue where
  | null
  | integer (n : Int)
  | real (bits : UInt64)
  | text (s : String)
  | blob (bytes : List UInt8)
  deriving DecidableEq

/-- A row: the values of its columns. -/
abbrev Row := List (String × SqlValue)

/-- A table: its name, its primary key, and its columns with their defaults. The types and what else
    is declared of a column are left out, and so is a default that is no constant. -/
structure TableDef where
  name : String
  key : List String
  columns : List (String × SqlValue)
  deriving DecidableEq

/-- Columns without a default. -/
def nulls (names : List String) : List (String × SqlValue) := names.map fun name => (name, .null)

structure SqlTable where
  definition : TableDef
  rows : List Row

structure Database where
  userVersion : Nat
  tables : Table String SqlTable

/-- The statements of the migrations: `CREATE TABLE IF NOT EXISTS` (`CREATE VIRTUAL TABLE` too),
    `INSERT OR IGNORE` and `PRAGMA user_version`. -/
inductive Stmt where
  | createTable (table : TableDef)
  | insertOrIgnore (table : String) (values : Row)
  | setUserVersion (version : Nat)

/-- The row that is inserted: the values given, and the defaults. -/
def SqlTable.newRow (t : SqlTable) (values : Row) : Row :=
  t.definition.columns.map fun column => (column.1, (values.lookup column.1).getD column.2)

/-- The two rows have the same primary key. -/
def SqlTable.conflicts (t : SqlTable) (row other : Row) : Bool :=
  !t.definition.key.isEmpty && t.definition.key.all fun column =>
    row.lookup column == other.lookup column

def SqlTable.insertOrIgnore (t : SqlTable) (values : Row) : SqlTable :=
  let row := t.newRow values
  if t.rows.any (t.conflicts row) then t else { t with rows := t.rows ++ [row] }

def Stmt.apply : Stmt → Database → Except String Database
  | .createTable table, db =>
    .ok { db with tables := db.tables.insertIgnore table.name ⟨table, []⟩ }
  | .insertOrIgnore table values, db =>
    match db.tables.lookup table with
    | none => .error ("no such table: " ++ table)
    | some t => .ok { db with tables := db.tables.insert table (t.insertOrIgnore values) }
  | .setUserVersion version, db => .ok { db with userVersion := version }

/-! ## 2. Tables -/

def rooms : TableDef where
  name := "rooms"
  key := ["channel_name"]
  columns := nulls ["channel_name", "automerge_blob"]

def settings : TableDef where
  name := "settings"
  key := ["key"]
  columns := nulls ["key", "value"]

def appSettings : TableDef where
  name := "app_settings"
  key := ["key"]
  columns := nulls ["key", "value", "updated_at"]

def friends : TableDef where
  name := "friends"
  key := ["peer_id"]
  columns := nulls ["peer_id", "nickname", "offline_pubkey"] ++ [("trust_level", .integer 0),
    ("blocked", .integer 0), ("muted", .integer 0)] ++ nulls ["notes"]

def privateMessages : TableDef where
  name := "private_messages"
  key := ["id"]
  columns := nulls ["id", "peer_id", "sender_is_me", "text", "timestamp", "ttl"]

def savedGroups : TableDef where
  name := "saved_groups"
  key := ["channel_name"]
  columns :=
    nulls ["channel_name", "password", "default_ttl"] ++
      [("persistence_enabled", .integer 1), ("invite_only", .integer 0),
      ("notifications_enabled", .integer 1)] ++ nulls ["retention_days"]

def peerSettings : TableDef where
  name := "peer_settings"
  key := ["peer_id"]
  columns := nulls ["peer_id"] ++ [("trust_level", .integer 0), ("blocked", .integer 0),
    ("muted", .integer 0), ("rate_limit_per_minute", .integer 30),
    ("proof_of_work_required", .integer 0)]

def roomSettings : TableDef where
  name := "room_settings"
  key := ["channel_name"]
  columns := nulls ["channel_name", "default_ttl", "retention_days"] ++
    [("persistence_enabled", .integer 1), ("invite_only", .integer 0),
    ("notifications_enabled", .integer 1)]

def ratchetStates : TableDef where
  name := "ratchet_states"
  key := ["peer_id"]
  columns := nulls ["peer_id", "state_blob", "updated_at"]

def storageSettings : TableDef where
  name := "storage_settings"
  key := ["id"]
  columns := nulls ["id"] ++ [("storage_node_enabled", .integer 0), ("quota_mb", .integer 512),
    ("retention_days", .integer 7)]

def roomInvites : TableDef where
  name := "room_invites"
  key := ["invite_id"]
  columns := nulls ["invite_id", "room_id", "token_json"] ++ [("revoked", .integer 0),
    ("uses", .integer 0)] ++ nulls ["created_at"]

def roomRoles : TableDef where
  name := "room_roles"
  key := ["room_id", "role_id"]
  columns := nulls ["room_id", "role_id", "role_json"]

def permissionGrants : TableDef where
  name := "permission_grants"
  key := ["room_id", "subject_peer_id", "role_id"]
  columns := nulls ["room_id", "subject_peer_id", "role_id", "grant_json"]

def trustEdges : TableDef where
  name := "trust_edges"
  key := ["from_peer_id", "to_peer_id"]
  columns := nulls ["from_peer_id", "to_peer_id", "edge_json"]

def peerCapabilities : TableDef where
  name := "peer_capabilities"
  key := ["peer_id"]
  columns := nulls ["peer_id"] ++ [("storage_node", .integer 0), ("relay_node", .integer 0),
    ("dht_server", .integer 0), ("media_relay", .integer 0), ("capacity_score", .integer 0),
    ("protocol_versions_json", .text "[]")] ++ nulls ["updated_at"]

def fileManifests : TableDef where
  name := "file_manifests"
  key := ["content_hash"]
  columns := nulls ["content_hash", "manifest_json", "stored_at"]

def storedChunks : TableDef where
  name := "stored_chunks"
  key := ["chunk_hash"]
  columns := nulls ["chunk_hash", "content_hash", "chunk_index", "path", "size", "expires_at"]

def pluginRegistry : TableDef where
  name := "plugin_registry"
  key := ["plugin_id"]
  columns := nulls ["plugin_id", "manifest_json"] ++ [("enabled", .integer 0),
    ("granted_capabilities_json", .text "[]")]

def messageSearch : TableDef where
  name := "message_search"
  key := []
  columns := nulls ["scope", "peer_id", "room_id", "sender", "text", "timestamp"]

def knownPeers : TableDef where
  name := "known_peers"
  key := ["peer_id", "multiaddr"]
  columns := nulls ["peer_id", "multiaddr", "last_seen"]

def prekeyBundles : TableDef where
  name := "prekey_bundles"
  key := ["peer_id"]
  columns := nulls ["peer_id", "bundle_json", "fetched_at"]

def revokedInvites : TableDef where
  name := "revoked_invites"
  key := ["invite_id"]
  columns := nulls ["invite_id", "revoked_at", "revoked_by"]

/-- The tables of the first migration, in the order of the batch. -/
def v1Tables : List TableDef :=
  [rooms, settings, appSettings, friends, privateMessages, savedGroups, peerSettings, roomSettings,
    ratchetStates, storageSettings, roomInvites, roomRoles, permissionGrants, trustEdges,
    peerCapabilities, fileManifests, storedChunks, pluginRegistry, messageSearch, knownPeers,
    prekeyBundles, revokedInvites]

def usedOpkIds : TableDef where
  name := "used_opk_ids"
  key := ["opk_id"]
  columns := nulls ["opk_id", "peer_id", "used_at"]

/-- The table of the second migration. -/
def v2Tables : List TableDef := [usedOpkIds]

/-! ## 3. The migrations -/

/-- `CURRENT_DB_VERSION`. -/
def CURRENT_DB_VERSION : Nat := 2

/-- The statements between `BEGIN` and `COMMIT` of the first batch. -/
def v1Stmts : List Stmt :=
  v1Tables.map .createTable ++
    [.insertOrIgnore "storage_settings" [("id", .integer 1)], .setUserVersion 1]

/-- The same of the second. -/
def v2Stmts : List Stmt := v2Tables.map .createTable ++ [.setUserVersion 2]

/-- `migrate_v1_to_v2`. -/
def migrateV1ToV2 (s : Session Database) : Except Halt Unit × Session Database :=
  executeBatch Stmt.apply (transaction v2Stmts) s

def newerVersion (version : Nat) : String :=
  "Database version " ++ toString version ++ " is newer than the supported version " ++
    toString CURRENT_DB_VERSION ++ ". Please upgrade the application."

/-- `run_migrations`. -/
def runMigrations (s : Session Database) : Except Halt Unit × Session Database :=
  match s.query Database.userVersion with
  | (.error halt, s) => (.error halt, s)
  | (.ok version, s) =>
    match version with
    | 0 =>
      match executeBatch Stmt.apply (transaction v1Stmts) s with
      | (.error halt, s) => (.error halt, s)
      | (.ok (), s) => migrateV1ToV2 s
    | 1 => migrateV1ToV2 s
    | v => if v = CURRENT_DB_VERSION then (.ok (), s) else (.error (.err (newerVersion v)), s)

/-- What a call leaves on disk, that executes so many statements before the process stops. -/
def migrated (budget : Option Nat) (db : Database) : Database :=
  (runMigrations (.start budget db)).2.conn.committed

/-! ## 4. Consistent databases -/

def Database.empty : Database := { userVersion := 0, tables := ∅ }

/-- The table exists as it is declared. -/
def Database.Has (db : Database) (table : TableDef) : Prop :=
  ∃ rows, db.tables.lookup table.name = some ⟨table, rows⟩

/-- The single row of `storage_settings` exists. -/
def Database.HasSettings (db : Database) : Prop :=
  ∃ t row, db.tables.lookup "storage_settings" = some t ∧ t.rows = [row] ∧
    row.lookup "id" = some (.integer 1)

/-- Every table is still there with its rows. -/
def Database.Keeps (db db' : Database) : Prop :=
  ∀ name t, db.tables.lookup name = some t → db'.tables.lookup name = some t

theorem Database.Keeps.refl (db : Database) : db.Keeps db := fun _ _ h => h

theorem Database.Keeps.trans {a b c : Database} (h : a.Keeps b) (h' : b.Keeps c) : a.Keeps c :=
  fun name t ht => h' name t (h name t ht)

/-- **What the version says of the tables.** -/
structure Consistent (db : Database) : Prop where
  version : db.userVersion ≤ CURRENT_DB_VERSION
  fresh : db.userVersion = 0 → ∀ name, db.tables.lookup name = none
  later : db.userVersion ≤ 1 → ∀ table ∈ v2Tables, db.tables.lookup table.name = none
  v1 : 1 ≤ db.userVersion → ∀ table ∈ v1Tables, db.Has table
  settings : 1 ≤ db.userVersion → db.HasSettings
  v2 : 2 ≤ db.userVersion → ∀ table ∈ v2Tables, db.Has table

theorem consistent_empty : Consistent .empty where
  version := Nat.zero_le _
  fresh _ _ := rfl
  later _ _ _ := rfl
  v1 h := absurd h (by decide)
  settings h := absurd h (by decide)
  v2 h := absurd h (by decide)

/-- A database of version 1. -/
theorem consistent_one {db : Database} (hversion : db.userVersion = 1)
    (hlater : ∀ table ∈ v2Tables, db.tables.lookup table.name = none)
    (hv1 : ∀ table ∈ v1Tables, db.Has table) (hsettings : db.HasSettings) : Consistent db where
  version := by
    rw [hversion]
    decide
  fresh hzero := by
    rw [hversion] at hzero
    cases hzero
  later _ := hlater
  v1 _ := hv1
  settings _ := hsettings
  v2 htwo := by
    rw [hversion] at htwo
    exact absurd htwo (by decide)

/-- A database of version 2. -/
theorem consistent_two {db : Database} (hversion : db.userVersion = 2)
    (hv1 : ∀ table ∈ v1Tables, db.Has table) (hsettings : db.HasSettings)
    (hv2 : ∀ table ∈ v2Tables, db.Has table) : Consistent db where
  version := Nat.le_of_eq hversion
  fresh hzero := by
    rw [hversion] at hzero
    cases hzero
  later hone := by
    rw [hversion] at hone
    exact absurd hone (by decide)
  v1 _ := hv1
  settings _ := hsettings
  v2 _ := hv2

/-- What the program does to the rows between two calls: the schema stays, and the row of
    `storage_settings`, which is updated only and checked to be the one with id 1. -/
structure Writes (db db' : Database) : Prop where
  version : db'.userVersion = db.userVersion
  schema : ∀ name, (db'.tables.lookup name).map SqlTable.definition =
    (db.tables.lookup name).map SqlTable.definition
  settings : db.HasSettings → db'.HasSettings

theorem Writes.has {db db' : Database} (h : Writes db db') {table : TableDef} (ht : db.Has table) :
    db'.Has table := by
  obtain ⟨rows, ht⟩ := ht
  have hschema := h.schema table.name
  rw [ht, Option.map_some, Option.map_eq_some_iff] at hschema
  obtain ⟨t, ht', rfl⟩ := hschema
  exact ⟨t.rows, ht'⟩

theorem Writes.absent {db db' : Database} (h : Writes db db') {name : String}
    (ht : db.tables.lookup name = none) : db'.tables.lookup name = none := by
  have hschema := h.schema name
  rwa [ht, Option.map_none, Option.map_eq_none_iff] at hschema

theorem Writes.consistent {db db' : Database} (h : Writes db db') (hc : Consistent db) :
    Consistent db' where
  version := h.version ▸ hc.version
  fresh hv name := h.absent (hc.fresh (h.version ▸ hv) name)
  later hv table ht := h.absent (hc.later (h.version ▸ hv) table ht)
  v1 hv table ht := h.has (hc.v1 (h.version ▸ hv) table ht)
  settings hv := h.settings (hc.settings (h.version ▸ hv))
  v2 hv table ht := h.has (hc.v2 (h.version ▸ hv) table ht)

/-! ## 5. A call -/

/-- `CREATE TABLE IF NOT EXISTS`. -/
def Database.create (db : Database) (table : TableDef) : Database :=
  { db with tables := db.tables.insertIgnore table.name ⟨table, []⟩ }

theorem foldlM_create (tables : List TableDef) (db : Database) :
    (tables.map Stmt.createTable).foldlM (fun db op => Stmt.apply op db) db =
      .ok (tables.foldl Database.create db) := by
  induction tables generalizing db with
  | nil => rfl
  | cons table rest ih =>
    rw [List.map_cons, List.foldlM_cons, List.foldl_cons]
    exact ih (db.create table)

/-- A table that was there stays, one that was not is made empty. -/
theorem foldl_create_lookup (tables : List TableDef) (db : Database) (name : String) :
    (tables.foldl Database.create db).tables.lookup name =
      (db.tables.lookup name).or
        ((tables.find? fun table => table.name == name).map (⟨·, []⟩)) := by
  induction tables generalizing db with
  | nil => rw [List.foldl_nil, List.find?_nil, Option.map_none, Option.or_none]
  | cons table rest ih =>
    rw [List.foldl_cons, ih, Database.create, Table.lookup_insertIgnore, List.find?_cons]
    by_cases hname : name = table.name
    · rw [if_pos hname, hname, beq_self_eq_true, Option.some_or]
      cases db.tables.lookup table.name <;> rfl
    · rw [if_neg hname, beq_false_of_ne fun h => hname h.symm]

theorem foldl_create_has {tables : List TableDef} {db : Database} {table : TableDef}
    (hfirst : (tables.find? fun t => t.name == table.name) = some table)
    (hnew : db.tables.lookup table.name = none) : (tables.foldl Database.create db).Has table := by
  refine ⟨[], ?_⟩
  rw [foldl_create_lookup, hnew, Option.none_or, hfirst, Option.map_some]

theorem foldl_create_keeps (tables : List TableDef) (db : Database) :
    db.Keeps (tables.foldl Database.create db) := by
  intro name t ht
  rw [foldl_create_lookup, ht, Option.some_or]

/-- No two tables share a name. -/
theorem v1Tables_named :
    ∀ table ∈ v1Tables, (v1Tables.find? fun t => t.name == table.name) = some table := by
  decide +kernel

theorem v2Tables_named :
    ∀ table ∈ v2Tables, (v2Tables.find? fun t => t.name == table.name) = some table ∧
      (v1Tables.find? fun t => t.name == table.name) = none ∧ table.name ≠ "storage_settings" := by
  decide +kernel

theorem find_storageSettings :
    (v1Tables.find? fun table => table.name == "storage_settings") = some storageSettings := by
  decide +kernel

/-- The row of defaults. -/
theorem storageSettings_inserted :
    (SqlTable.insertOrIgnore ⟨storageSettings, []⟩ [("id", .integer 1)]).rows =
      [[("id", .integer 1), ("storage_node_enabled", .integer 0), ("quota_mb", .integer 512),
        ("retention_days", .integer 7)]] := by
  decide +kernel

/-- What follows the tables in the first batch. -/
theorem seed_settings {db : Database} {t : SqlTable}
    (h : db.tables.lookup "storage_settings" = some t) (values : Row) :
    [Stmt.insertOrIgnore "storage_settings" values, .setUserVersion 1].foldlM
      (fun db op => Stmt.apply op db) db =
        .ok { userVersion := 1
              tables := db.tables.insert "storage_settings" (t.insertOrIgnore values) } := by
  rw [List.foldlM_cons, Stmt.apply, h]
  rfl

/-- **The first batch** makes its tables and the row, in a database without tables. -/
theorem batch_v1 {db : Database} (hempty : ∀ name, db.tables.lookup name = none) :
    ∃ db', v1Stmts.foldlM (fun db op => Stmt.apply op db) db = .ok db' ∧ db'.userVersion = 1 ∧
      (∀ table ∈ v1Tables, db'.Has table) ∧ db'.HasSettings ∧
      ∀ table ∈ v2Tables, db'.tables.lookup table.name = none := by
  have hhas : ∀ table ∈ v1Tables, (v1Tables.foldl Database.create db).Has table :=
    fun table htable => foldl_create_has (v1Tables_named table htable) (hempty _)
  have hlater : ∀ table ∈ v2Tables,
      (v1Tables.foldl Database.create db).tables.lookup table.name = none := by
    intro table htable
    rw [foldl_create_lookup, hempty, Option.none_or, (v2Tables_named table htable).2.1,
      Option.map_none]
  have hcreated : (v1Tables.foldl Database.create db).tables.lookup "storage_settings" =
      some ⟨storageSettings, []⟩ := by
    rw [foldl_create_lookup, hempty, Option.none_or, find_storageSettings, Option.map_some]
  rw [v1Stmts, List.foldlM_append, foldlM_create]
  generalize v1Tables.foldl Database.create db = created at hcreated hhas hlater
  refine ⟨_, seed_settings hcreated _, rfl, fun table htable => ?_, ?_, fun table htable => ?_⟩
  · obtain ⟨rows, hrows⟩ := hhas table htable
    unfold Database.Has
    dsimp only
    by_cases hname : table.name = "storage_settings"
    · rw [hname, hcreated] at hrows
      cases hrows
      exact ⟨_, AList.lookup_insert _⟩
    · rw [AList.lookup_insert_ne hname]
      exact ⟨rows, hrows⟩
  · exact ⟨_, _, AList.lookup_insert _, storageSettings_inserted, rfl⟩
  · dsimp only
    rw [AList.lookup_insert_ne (v2Tables_named table htable).2.2]
    exact hlater table htable

/-- **The second batch** makes its table, and leaves the others. -/
theorem batch_v2 {db : Database} (hlater : ∀ table ∈ v2Tables, db.tables.lookup table.name = none) :
    ∃ db', v2Stmts.foldlM (fun db op => Stmt.apply op db) db = .ok db' ∧ db'.userVersion = 2 ∧
      (∀ table ∈ v2Tables, db'.Has table) ∧ db.Keeps db' := by
  refine ⟨{ v2Tables.foldl Database.create db with userVersion := 2 }, ?_, rfl, ?_, ?_⟩
  · rw [v2Stmts, List.foldlM_append, foldlM_create]
    rfl
  · exact fun table htable => foldl_create_has (v2Tables_named table htable).1 (hlater table htable)
  · exact foldl_create_keeps v2Tables db

/-- What a call leaves of a database: it is consistent and every row is there; and if the process
    does not stop the call succeeds, at the current version and with no transaction open. -/
structure Survives (budget : Option Nat) (db : Database)
    (r : Except Halt Unit × Session Database) : Prop where
  consistent : Consistent r.2.conn.committed
  keeps : db.Keeps r.2.conn.committed
  complete : budget = none →
    r.1 = .ok () ∧ r.2.conn.working = none ∧ r.2.conn.committed.userVersion = CURRENT_DB_VERSION

/-- What keeps the tables keeps those that have to be there. -/
theorem Database.Keeps.has {db db' : Database} (h : db.Keeps db') {table : TableDef}
    (ht : db.Has table) : db'.Has table := by
  obtain ⟨rows, ht⟩ := ht
  exact ⟨rows, h _ _ ht⟩

theorem Database.Keeps.hasSettings {db db' : Database} (h : db.Keeps db') (hs : db.HasSettings) :
    db'.HasSettings := by
  obtain ⟨t, row, ht, hrow⟩ := hs
  exact ⟨t, row, h _ t ht, hrow⟩

/-- A call that was cut off before it has committed anything. -/
theorem survives_cut {budget : Option Nat} {db : Database} (hc : Consistent db)
    (hbudget : budget ≠ none) {r : Except Halt Unit × Session Database}
    (h : r.2.conn.committed = db) : Survives budget db r where
  consistent := h ▸ hc
  keeps := h ▸ .refl db
  complete hnone := absurd hnone hbudget

/-- **The second migration**, from version 1. -/
theorem migrateV1ToV2_survives {db : Database} (hc : Consistent db) (hversion : db.userVersion = 1)
    (budget : Option Nat) : Survives budget db (migrateV1ToV2 (.start budget db)) := by
  obtain ⟨db', hrun, hversion', hhas, hkeeps⟩ := batch_v2 (hc.later (Nat.le_of_eq hversion))
  unfold migrateV1ToV2
  rcases transaction_cases hrun budget with ⟨left, hexec, -⟩ | ⟨hbudget, s, hexec, hcommitted⟩
  · rw [hexec]
    have hone : 1 ≤ db.userVersion := Nat.le_of_eq hversion.symm
    have hv1 : ∀ table ∈ v1Tables, db'.Has table :=
      fun table htable => hkeeps.has (hc.v1 hone table htable)
    have hsettings : db'.HasSettings := hkeeps.hasSettings (hc.settings hone)
    exact ⟨consistent_two hversion' hv1 hsettings hhas, hkeeps, fun _ => ⟨rfl, rfl, hversion'⟩⟩
  · rw [hexec]
    exact survives_cut hc hbudget hcommitted

/-- **A call, cut off anywhere or not at all.** The cases are the versions; in the first the process
    may also stop between the two transactions, with a database of version 1. -/
theorem call_spec {db : Database} (hc : Consistent db) (budget : Option Nat) :
    Survives budget db (runMigrations (.start budget db)) := by
  have hmax := hc.version
  unfold runMigrations
  rcases Session.query_start Database.userVersion budget db
    with ⟨left, hquery, hleft⟩ | ⟨hbudget, hquery⟩
  · rw [hquery]
    dsimp only
    match hversion : db.userVersion with
    | 0 =>
      obtain ⟨db', hrun, hversion', hhas, hsettings, hlater⟩ := batch_v1 (hc.fresh hversion)
      rcases transaction_cases hrun left with ⟨left', hexec, hleft'⟩ | ⟨hcut, s, hexec, hcommitted⟩
      · rw [hexec]
        have hconsistent : Consistent db' := consistent_one hversion' hlater hhas hsettings
        have hrest := migrateV1ToV2_survives hconsistent hversion' left'
        have hkeeps : db.Keeps db' := by
          intro name t ht
          rw [hc.fresh hversion name] at ht
          cases ht
        exact ⟨hrest.consistent, hkeeps.trans hrest.keeps, fun hnone =>
          hrest.complete (hleft' (hleft hnone))⟩
      · rw [hexec]
        exact survives_cut hc (fun hnone => hcut (hleft hnone)) hcommitted
    | 1 =>
      have hrest := migrateV1ToV2_survives hc hversion left
      exact ⟨hrest.consistent, hrest.keeps, fun hnone => hrest.complete (hleft hnone)⟩
    | 2 =>
      show Survives budget db (if 2 = CURRENT_DB_VERSION then (.ok (), .start left db) else _)
      have hcurrent : 2 = CURRENT_DB_VERSION := rfl
      rw [if_pos hcurrent]
      exact ⟨hc, .refl db, fun _ => ⟨rfl, rfl, hversion⟩⟩
    | v + 3 =>
      rw [hversion] at hmax
      exact absurd hmax (by simp [CURRENT_DB_VERSION])
  · rw [hquery]
    exact survives_cut hc hbudget rfl

/-- A database of a newer version is refused and left as it is. -/
theorem newer_refused {db : Database} (h : CURRENT_DB_VERSION < db.userVersion) :
    runMigrations (.start none db) =
      (.error (.err (newerVersion db.userVersion)), .start none db) := by
  unfold runMigrations
  rw [show (Session.start none db).query Database.userVersion =
    (.ok db.userVersion, .start none db) from rfl]
  dsimp only
  match hversion : db.userVersion, h with
  | v + 3, _ => exact if_neg (by simp [CURRENT_DB_VERSION])

/-! ## 6. Runs -/

/-- The databases that calls leave, cut off or not, from an empty one on, with what the program
    writes to the tables. -/
inductive Left : Database → Prop where
  | empty : Left .empty
  | call (budget : Option Nat) {db : Database} (h : Left db) : Left (migrated budget db)
  | write {db db' : Database} (h : Left db) (hw : Writes db db') : Left db'

theorem Left.consistent {db : Database} (h : Left db) : Consistent db := by
  induction h with
  | empty => exact consistent_empty
  | call budget _ ih => exact (call_spec ih budget).consistent
  | write _ hw ih => exact hw.consistent ih

/-- A run of calls, each of which is cut off after its budget. -/
theorem calls_survive {db : Database} (hc : Consistent db) (budgets : List (Option Nat)) :
    Consistent (budgets.foldl (fun db budget => migrated budget db) db) ∧
      db.Keeps (budgets.foldl (fun db budget => migrated budget db) db) := by
  induction budgets generalizing db with
  | nil => exact ⟨hc, .refl db⟩
  | cons budget rest ih =>
    have hcall := call_spec hc budget
    obtain ⟨hrest, hkeeps⟩ := ih hcall.consistent
    exact ⟨hrest, hcall.keeps.trans hkeeps⟩

/-- **Migration survives interruption**: after any calls, cut off before any of their statements, a
    call that is not cut off succeeds, all tables and the row of settings are there at version 2,
    and every table that was there has kept its rows. -/
theorem migration_survives {db : Database} (h : Left db) (budgets : List (Option Nat)) :
    let stored := budgets.foldl (fun db budget => migrated budget db) db
    let final := runMigrations (.start none stored)
    final.1 = .ok () ∧ final.2.conn.working = none ∧
      final.2.conn.committed.userVersion = 2 ∧
      (∀ table ∈ v1Tables ++ v2Tables, final.2.conn.committed.Has table) ∧
      final.2.conn.committed.HasSettings ∧
      db.Keeps final.2.conn.committed := by
  intro stored final
  obtain ⟨hconsistent, hkeeps⟩ := calls_survive h.consistent budgets
  have hfinal := call_spec hconsistent none
  obtain ⟨hok, hclosed, hversion⟩ := hfinal.complete rfl
  have htwo : 2 ≤ final.2.conn.committed.userVersion := Nat.le_of_eq hversion.symm
  have hone : 1 ≤ final.2.conn.committed.userVersion := Nat.le_trans (by decide) htwo
  refine ⟨hok, hclosed, hversion, fun table htable => ?_, hfinal.consistent.settings hone,
    hkeeps.trans hfinal.keeps⟩
  rcases List.mem_append.mp htable with hfirst | hsecond
  · exact hfinal.consistent.v1 hone table hfirst
  · exact hfinal.consistent.v2 htwo table hsecond

/-- A first call that is cut off within the first batch, and one between the two. -/
theorem migration_survives_twice :
    (runMigrations (.start none (migrated (some 27) (migrated (some 7) .empty)))).1 = .ok () :=
  (migration_survives .empty [some 7, some 27]).1

/-- 27 statements lead between the two transactions, one less leads nowhere. -/
example : (migrated (some 27) .empty).userVersion = 1 ∧
    (migrated (some 26) .empty).userVersion = 0 := by
  decide +kernel

end AlterChat.Migrations
