import AlterChat.Lib.Gcm
import AlterChat.Lib.JsonText
import AlterChat.Lib.Run
import AlterChat.Tauri.Chunks

/-!
# The chunk store of a device

`alterchat-core/src/storage.rs` and what works on the table `stored_chunks` and the files below the
storage root: the commands `prepare_encrypted_file` and `list_stored_chunks`,
`cleanup_expired_storage` in both, and the request `FileChunk` behind its gate. What is computed of
the quota and of the expiry wraps around.

* §1 files in chunks, §2 the device, §3 the cleanup, §4 the two commands, §5 the request;
* §6 `Outcome` -- the rows and files that a call makes, from its arguments alone:
  `storeChunks_outcome`, `prepare_cases`, `receive_outcome`;
* §7 where the files of a prepared file lie: `preparedPath_injective`;
* §8 a device with an empty store.
-/

namespace AlterChat.ChunkStorage

open Lib Lib.Paths Governance Commands Identity Profile Inbound Chunks

variable {Key : Type}

/-! ## 1. Files in chunks -/

/-- `DEFAULT_CHUNK_SIZE`. -/
def DEFAULT_CHUNK_SIZE : Nat := 256 * 1024

structure FileChunkMeta where
  index : UInt64
  hash : String
  size : Nat
  deriving Encodable

structure FileManifest where
  transferId : String
  filename : String
  totalSize : Nat
  mime : Option String
  contentHash : String
  chunks : List FileChunkMeta
  encryptedKey : Option Bytes
  deriving Encodable

structure EncryptedChunk where
  index : UInt64
  nonce : Nonce
  ciphertext : Bytes
  plaintextHash : String

/-- `content_hash`. -/
def contentHash (H : Sha256) (data : Bytes) : String := hexString (H.digest data)

/-- `split_chunks`: pieces of one size, of which the last may be shorter. -/
def splitChunks (data : Bytes) (chunkSize : Nat) : List Bytes :=
  let size := max chunkSize 1
  (List.range ((data.length + size - 1) / size)).map fun i => (data.drop (i * size)).take size

/-- `encrypt_chunk`. -/
def encryptChunk (P : Primitives Key32) (H : Sha256) (index : UInt64) (key : Key32) (nonce : Nonce)
    (plaintext : Bytes) : Except String EncryptedChunk :=
  match P.encrypt key nonce plaintext with
  | none => .error "chunk encryption failed"
  | some ciphertext => .ok { index, nonce, ciphertext, plaintextHash := contentHash H plaintext }

/-- `build_manifest`. -/
def buildManifest (H : Sha256) (filename : String) (mime : Option String) (data : Bytes)
    (chunkSize : Nat) : FileManifest where
  transferId := contentHash H data
  filename
  totalSize := data.length
  mime
  contentHash := contentHash H data
  chunks := (splitChunks data chunkSize).zipIdx.map fun chunk =>
    { index := UInt64.ofNat chunk.2, hash := contentHash H chunk.1, size := chunk.1.length }
  encryptedKey := none

/-! ## 2. The device -/

/-- What the commands take from elsewhere: SHA-256, AES-GCM, the JSON of a chunk and of a
    manifest. -/
structure ChunkFormats where
  sha : Sha256
  cipher : Primitives Key32
  chunkJson : Codec EncryptedChunk Bytes
  manifestJson : Codec FileManifest String

/-- A device with an open profile: its tables, and the files of chunks on its disk. -/
structure ChunkDevice (Key : Type) where
  app : AppState
  loop : EventLoop Key
  store : ChunkStore
  manifests : Table String String
  disk : Disk Bytes

/-- `db_path`, `db_key` and `init_db`, as every command begins: the path, and the tables that are
    opened. -/
def ChunkDevice.openStore (d : ChunkDevice Key) (openFault : Option String) :
    Except String (String × ChunkStore) :=
  match d.app.dbPath with
  | none => .error "Not logged in"
  | some path =>
    match d.app.dbKey with
    | none => .error "Not logged in"
    | some _ =>
      match openFault with
      | some e => .error e
      | none => .ok (path, if path = MEMORY then { settings := .default, chunks := ∅ } else d.store)

/-- What a command's connection leaves behind, with the disk. -/
def ChunkDevice.close (d : ChunkDevice Key) (path : String) (store : ChunkStore)
    (manifests : Table String String) (disk : Disk Bytes) : ChunkDevice Key :=
  if path = MEMORY then { d with disk } else { d with store, manifests, disk }

/-! ## 3. The cleanup -/

/-- The clock and what fails while expired chunks are removed. -/
structure Cleanup where
  nowMs : Int64
  selectFault : Option String
  /-- `remove_file` on a file that is there. -/
  removes : String → Bool
  /-- `delete_stored_chunk` of a row. -/
  deletes : String → Bool

/-- `expires_at IS NOT NULL AND expires_at < now`. -/
def expired (nowMs : Int64) (row : StoredChunk) : Bool :=
  match row.expiresAt with
  | none => false
  | some expiresAt => decide (expiresAt < nowMs)

/-- `expired_stored_chunks`: the hashes and paths. -/
def expiredStoredChunks (c : Cleanup) (chunks : Table String StoredChunk) :
    Except String (List (String × String)) :=
  match c.selectFault with
  | some e => .error e
  | none => .ok ((chunks.entries.filter fun r => expired c.nowMs r.2).map fun r => (r.1, r.2.path))

/-- The body of the loop: what fails is ignored. -/
def removeExpired (c : Cleanup) (s : Table String StoredChunk × Disk Bytes) (e : String × String) :
    Table String StoredChunk × Disk Bytes :=
  (if c.deletes e.1 then s.1.erase e.1 else s.1,
    if c.removes e.2 then s.2.erase (place e.2) else s.2)

/-- `cleanup_expired_storage`. -/
def cleanupExpiredStorage (c : Cleanup) (s : Table String StoredChunk × Disk Bytes) :
    Table String StoredChunk × Disk Bytes :=
  match expiredStoredChunks c s.1 with
  | .error _ => s
  | .ok expired => expired.foldl (removeExpired c) s

/-! ## 4. The two commands -/

/-- A call of `prepare_encrypted_file`, with the clock, the draws and what fails. -/
structure PrepareCall where
  filename : String
  mime : Option String
  data : Bytes
  openFault : Option String
  faults : ChunkFaults
  cleanup : Cleanup
  os : FileSystem
  dirError : String
  nowMs : Int64
  fileKey : Key32
  nonces : Nat → Nonce
  /-- What fails when the row of a chunk is saved. -/
  saves : Nat → ChunkFaults
  manifestFault : Option String

/-- `format!("{}-{}.chunk", content_hash, index)`. -/
def preparedFile (contentHash : String) (index : Nat) : String :=
  contentHash ++ "-" ++ toString index ++ ".chunk"

/-- The expiry of a chunk stored now. -/
def expiry (settings : StorageSettings) (nowMs : Int64) : Option Int64 :=
  some (nowMs + max settings.retentionDays 1 * 24 * 60 * 60 * 1000)

/-- The quota in bytes. -/
def quotaBytes (settings : StorageSettings) : Int64 := max settings.quotaMb 1 * 1024 * 1024

/-- The loop over the chunks of a file. -/
def storeChunks (F : ChunkFormats) (c : PrepareCall) (root fileHash : String)
    (expiresAt : Option Int64) :
    Nat → List Bytes → ChunkStore → Disk Bytes → Except String Unit × ChunkStore × Disk Bytes
  | _, [], store, disk => (.ok (), store, disk)
  | index, plaintext :: rest, store, disk =>
    match encryptChunk F.cipher F.sha (UInt64.ofNat index) c.fileKey (c.nonces index) plaintext with
    | .error e => (.error e, store, disk)
    | .ok encrypted =>
      let chunkHash := contentHash F.sha encrypted.ciphertext
      let path := join root (preparedFile fileHash index)
      let chunkJson := F.chunkJson.enc encrypted
      let answer := c.os.write path
      let disk := disk.put id answer path chunkJson
      match answer.error with
      | some e => (.error e, store, disk)
      | none =>
        match saveStoredChunk (c.saves index) store chunkHash fileHash (UInt64.ofNat index) path
          (Int64.ofNat chunkJson.length) expiresAt with
        | (.error e, store) => (.error e, store, disk)
        | (.ok (), store) => storeChunks F c root fileHash expiresAt (index + 1) rest store disk

/-- `save_file_manifest`. -/
def saveFileManifest (fault : Option String) (manifests : Table String String)
    (contentHash manifestJson : String) : Except String Unit × Table String String :=
  match fault with
  | some e => (.error e, manifests)
  | none => (.ok (), manifests.upsert contentHash manifestJson fun _ => manifestJson)

/-- The manifest of the file, with its key. -/
def preparedManifest (F : ChunkFormats) (c : PrepareCall) : FileManifest :=
  { buildManifest F.sha c.filename c.mime c.data DEFAULT_CHUNK_SIZE with
    encryptedKey := some c.fileKey.toList }

theorem preparedManifest_contentHash (F : ChunkFormats) (c : PrepareCall) :
    (preparedManifest F c).contentHash = contentHash F.sha c.data := rfl

/-- The part of `prepare_encrypted_file` behind the quota, for the pieces of the file. -/
def storeFile (F : ChunkFormats) (d : ChunkDevice Key) (c : PrepareCall) (pieces : List Bytes)
    (path : String) (store : ChunkStore) : Except String FileManifest × ChunkDevice Key :=
  let cleaned := cleanupExpiredStorage c.cleanup (store.chunks, d.disk)
  let manifest := preparedManifest F c
  let root := storageRootForDb path
  if c.os.createDirAll root = false then
    (.error c.dirError, d.close path { store with chunks := cleaned.1 } d.manifests cleaned.2)
  else
    let stored := storeChunks F c root manifest.contentHash (expiry store.settings c.nowMs) 0 pieces
      { store with chunks := cleaned.1 } cleaned.2
    match stored.1 with
    | .error e => (.error e, d.close path stored.2.1 d.manifests stored.2.2)
    | .ok () =>
      let saved :=
        saveFileManifest c.manifestFault d.manifests manifest.contentHash
          (F.manifestJson.enc manifest)
      (saved.1.map fun _ => manifest, d.close path stored.2.1 saved.2 stored.2.2)

/-- `prepare_encrypted_file`. -/
def prepareEncryptedFile (F : ChunkFormats) (d : ChunkDevice Key) (c : PrepareCall) :
    Except String FileManifest × ChunkDevice Key :=
  match d.openStore c.openFault with
  | .error e => (.error e, d)
  | .ok (path, store) =>
    match getStorageSettings c.faults store with
    | .error e => (.error e, d)
    | .ok settings =>
      match storedChunkBytes c.faults store with
      | .error e => (.error e, d)
      | .ok current =>
        if quotaBytes settings < current + Int64.ofNat c.data.length then
          (.error "Storage quota exceeded", d)
        else storeFile F d c (splitChunks c.data DEFAULT_CHUNK_SIZE) path store

/-- A call of `list_stored_chunks`. -/
structure ListCall where
  openFault : Option String
  cleanup : Cleanup
  listFault : Option String

/-- `list_stored_chunks`: the rows by content hash and index, after a cleanup. -/
def listStoredChunks (d : ChunkDevice Key) (c : ListCall) :
    Except String (List (String × StoredChunk)) × ChunkDevice Key :=
  match d.openStore c.openFault with
  | .error e => (.error e, d)
  | .ok (path, store) =>
    let (chunks, disk) := cleanupExpiredStorage c.cleanup (store.chunks, d.disk)
    let rows := (chunks.entries.map fun r => (r.1, r.2)).mergeSort fun a b =>
      decide (a.2.contentHash < b.2.contentHash) ||
        decide (a.2.contentHash = b.2.contentHash) &&
          decide (a.2.chunkIndex.toInt64 ≤ b.2.chunkIndex.toInt64)
    (match c.listFault with
      | some e => .error e
      | none => .ok rows,
      d.close path { store with chunks } d.manifests disk)

/-! ## 5. The request -/

/-- A request `FileChunk` that arrives, with the clock and what fails. -/
structure ChunkArrival where
  peer : String
  chunk : Chunk
  gateMs : Int64
  nowMs : Int64
  stages : Stage → Db.Faults
  faults : ChunkFaults
  os : FileSystem

/-- The request behind its gate. -/
def receiveChunk (F : ChunkFormats) (d : ChunkDevice Key) (a : ChunkArrival) : ChunkDevice Key :=
  match requestGate a.stages d.loop a.gateMs a.peer with
  | (.admitted, loop) =>
    let turn :=
      Chunks.fileChunk (contentHash F.sha) (a.stages .arm) a.faults a.os loop d.store d.app.dbPath
      a.nowMs a.peer a.chunk
    { d with
      loop := turn.loop
      store := turn.store
      disk := turn.written.elim d.disk fun file => d.disk.insert (place file.1) file.2 }
  | (_, loop) => { d with loop }

/-! ## 6. What a call stores -/

/-- A chunk that is stored: its row, and what its file holds. -/
structure SavedChunk where
  hash : String
  row : StoredChunk
  bytes : Bytes

/-- The chunks that a call stores, and a file it writes without a row. -/
structure Outcome where
  saved : List SavedChunk
  leftover : Option (String × Bytes)

def Outcome.nothing : Outcome := ⟨[], none⟩

/-- The statement of `save_stored_chunk`. -/
def saveRow (chunks : Table String StoredChunk) (c : SavedChunk) : Table String StoredChunk :=
  chunks.upsert c.hash c.row fun row =>
    { row with path := c.row.path, size := c.row.size, expiresAt := c.row.expiresAt }

def writeFile (disk : Disk Bytes) (path : String) (bytes : Bytes) : Disk Bytes :=
  disk.insert (place path) bytes

/-- The rows after the call. -/
def Outcome.rows (o : Outcome) (chunks : Table String StoredChunk) : Table String StoredChunk :=
  o.saved.foldl saveRow chunks

/-- The files after the call. -/
def Outcome.files (o : Outcome) (disk : Disk Bytes) : Disk Bytes :=
  let disk := o.saved.foldl (fun disk c => writeFile disk c.row.path c.bytes) disk
  o.leftover.elim disk fun file => writeFile disk file.1 file.2

/-- What the loop over the chunks of a file stores, from its arguments alone. -/
def storedChunks (F : ChunkFormats) (c : PrepareCall) (root fileHash : String)
    (expiresAt : Option Int64) : Nat → List Bytes → Outcome
  | _, [] => .nothing
  | index, plaintext :: rest =>
    match encryptChunk F.cipher F.sha (UInt64.ofNat index) c.fileKey (c.nonces index) plaintext with
    | .error _ => .nothing
    | .ok encrypted =>
      let path := join root (preparedFile fileHash index)
      let chunkJson := F.chunkJson.enc encrypted
      match c.os.write path, c.saves index .saveStoredChunk with
      | .refused _, _ => .nothing
      | .broken left _, _ => ⟨[], some (path, left)⟩
      | .written, some _ => ⟨[], some (path, chunkJson)⟩
      | .written, none =>
        let outcome := storedChunks F c root fileHash expiresAt (index + 1) rest
        { outcome with
          saved :=
            { hash := contentHash F.sha encrypted.ciphertext
              row :=
                { contentHash := fileHash, chunkIndex := UInt64.ofNat index, path
                  size := Int64.ofNat chunkJson.length, expiresAt }
              bytes := chunkJson } :: outcome.saved }

/-- **The loop over the chunks** changes the rows and the files as its outcome says. -/
theorem storeChunks_outcome (F : ChunkFormats) (c : PrepareCall) (root fileHash : String)
    (expiresAt : Option Int64) (index : Nat) (pieces : List Bytes) (store : ChunkStore)
    (disk : Disk Bytes) :
    let o := storedChunks F c root fileHash expiresAt index pieces
    (storeChunks F c root fileHash expiresAt index pieces store disk).2 =
      ({ store with chunks := o.rows store.chunks }, o.files disk) := by
  induction pieces generalizing index store disk with
  | nil => rfl
  | cons plaintext rest ih =>
    simp only [storeChunks, storedChunks]
    cases encryptChunk F.cipher F.sha (UInt64.ofNat index) c.fileKey (c.nonces index) plaintext with
    | error e => rfl
    | ok encrypted =>
      cases c.os.write (join root (preparedFile fileHash index)) with
      | refused e => rfl
      | broken left e => rfl
      | written =>
        unfold saveStoredChunk
        cases c.saves index .saveStoredChunk with
        | some e => rfl
        | none => exact ih (index + 1) _ _

/-- What the pieces of a file leave, once it has passed the quota. -/
def PrepareCall.outcomeOf (c : PrepareCall) (F : ChunkFormats) (path : String)
    (settings : StorageSettings) (pieces : List Bytes) : Outcome :=
  let root := storageRootForDb path
  if c.os.createDirAll root = false then .nothing
  else storedChunks F c root (contentHash F.sha c.data) (expiry settings c.nowMs) 0 pieces

/-- What `prepare_encrypted_file` stores, once it has passed the quota. -/
def PrepareCall.outcome (c : PrepareCall) (F : ChunkFormats) (path : String)
    (settings : StorageSettings) : Outcome :=
  c.outcomeOf F path settings (splitChunks c.data DEFAULT_CHUNK_SIZE)

/-- The command passes the quota, on the tables it has opened. -/
structure Passes (d : ChunkDevice Key) (c : PrepareCall) (path : String) (store : ChunkStore) :
    Prop where
  opened : d.openStore c.openFault = .ok (path, store)
  settings : c.faults .getStorageSettings = none
  room : ∃ current, storedChunkBytes c.faults store = .ok current ∧
    ¬ quotaBytes store.settings < current + Int64.ofNat c.data.length

/-- The path and the tables with which the command goes on behind the quota. -/
def PrepareCall.passed (c : PrepareCall) (d : ChunkDevice Key) : Option (String × ChunkStore) :=
  match d.openStore c.openFault, c.faults .getStorageSettings with
  | .ok (path, store), none =>
    match storedChunkBytes c.faults store with
    | .error _ => none
    | .ok current =>
      if quotaBytes store.settings < current + Int64.ofNat c.data.length then none
      else some (path, store)
  | _, _ => none

theorem Passes.passed {d : ChunkDevice Key} {c : PrepareCall} {path : String} {store : ChunkStore}
    (h : Passes d c path store) : c.passed d = some (path, store) := by
  obtain ⟨current, hcurrent, hroom⟩ := h.room
  unfold PrepareCall.passed
  simp only [h.opened, h.settings, hcurrent, hroom, if_false]

theorem passes_of_passed {d : ChunkDevice Key} {c : PrepareCall} {path : String}
    {store : ChunkStore} (h : c.passed d = some (path, store)) : Passes d c path store := by
  unfold PrepareCall.passed at h
  split at h
  · next path' store' hopen hsettings =>
    split at h
    · cases h
    · next current hcurrent =>
      split at h
      · cases h
      · next hroom =>
        cases h
        exact ⟨hopen, hsettings, current, hcurrent, hroom⟩
  · cases h

theorem storeFile_outcome (F : ChunkFormats) (d : ChunkDevice Key) (c : PrepareCall)
    (pieces : List Bytes) (path : String) (store : ChunkStore) :
    let cleaned := cleanupExpiredStorage c.cleanup (store.chunks, d.disk)
    let o := c.outcomeOf F path store.settings pieces
    ∃ manifests, (storeFile F d c pieces path store).2 =
      d.close path { store with chunks := o.rows cleaned.1 } manifests (o.files cleaned.2) := by
  intro cleaned o
  unfold storeFile
  cases hdir : c.os.createDirAll (storageRootForDb path) with
  | false =>
    have ho : o = .nothing := if_pos hdir
    refine ⟨d.manifests, ?_⟩
    rw [ho, if_pos hdir]
    rfl
  | true =>
    have ho : o = storedChunks F c (storageRootForDb path) (contentHash F.sha c.data)
        (expiry store.settings c.nowMs) 0 pieces := if_neg (by rw [hdir]; decide)
    have hloop := storeChunks_outcome F c (storageRootForDb path) (contentHash F.sha c.data)
      (expiry store.settings c.nowMs) 0 pieces { store with chunks := cleaned.1 } cleaned.2
    simp only [← ho] at hloop
    simp only [preparedManifest_contentHash, hdir, Bool.true_eq_false, if_false]
    generalize storeChunks F c (storageRootForDb path) (contentHash F.sha c.data)
      (expiry store.settings c.nowMs) 0 pieces { store with chunks := cleaned.1 } cleaned.2 = stored
      at hloop ⊢
    obtain ⟨result, store', disk'⟩ := stored
    simp only [Prod.mk.injEq] at hloop
    obtain ⟨rfl, rfl⟩ := hloop
    cases result with
    | error e => exact ⟨d.manifests, rfl⟩
    | ok => exact ⟨_, rfl⟩

/-- A file that passes is stored. -/
theorem Passes.prepare {F : ChunkFormats} {d : ChunkDevice Key} {c : PrepareCall} {path : String}
    {store : ChunkStore} (h : Passes d c path store) :
    prepareEncryptedFile F d c = storeFile F d c (splitChunks c.data DEFAULT_CHUNK_SIZE)
      path store := by
  obtain ⟨current, hcurrent, hroom⟩ := h.room
  unfold prepareEncryptedFile
  simp only [h.opened, getStorageSettings, h.settings, hcurrent, hroom, if_false]

/-- **`prepare_encrypted_file` changes nothing, or it cleans up and stores** what its outcome
    says. -/
theorem prepare_cases (F : ChunkFormats) (d : ChunkDevice Key) (c : PrepareCall) :
    (prepareEncryptedFile F d c).2 = d ∨
      ∃ path store manifests, Passes d c path store ∧
        let cleaned := cleanupExpiredStorage c.cleanup (store.chunks, d.disk)
        let o := c.outcome F path store.settings
        (prepareEncryptedFile F d c).2 =
          d.close path { store with chunks := o.rows cleaned.1 } manifests (o.files cleaned.2) := by
  by_cases hpasses : ∃ path store, Passes d c path store
  · obtain ⟨path, store, hpasses⟩ := hpasses
    obtain ⟨manifests, hstored⟩ :=
      storeFile_outcome F d c (splitChunks c.data DEFAULT_CHUNK_SIZE) path store
    exact .inr ⟨path, store, manifests, hpasses, hpasses.prepare (F := F) ▸ hstored⟩
  · left
    unfold prepareEncryptedFile
    cases hopen : d.openStore c.openFault with
    | error e => rfl
    | ok opened =>
      obtain ⟨path, store⟩ := opened
      simp only [getStorageSettings]
      cases hsettings : c.faults .getStorageSettings with
      | some e => rfl
      | none =>
        cases hcurrent : storedChunkBytes c.faults store with
        | error e => rfl
        | ok current =>
          simp only
          split
          · rfl
          · next hroom =>
              exact absurd ⟨path, store, hopen, hsettings, current, hcurrent, hroom⟩ hpasses

/-- A received chunk with its row. -/
def ChunkArrival.saves (a : ChunkArrival) (dbPath : String) (settings : StorageSettings) :
    SavedChunk where
  hash := a.chunk.contentHash
  row :=
    { contentHash := a.chunk.transferId
      chunkIndex := a.chunk.index
      path := join (storageRootForDb dbPath) (chunkFile a.chunk.transferId a.chunk.index)
      size := Int64.ofNat a.chunk.data.length
      expiresAt := expiry settings a.nowMs }
  bytes := a.chunk.data

/-- What a request stores that has passed its gate. -/
def ChunkArrival.outcome (a : ChunkArrival) (F : ChunkFormats) (d : ChunkDevice Key) : Outcome :=
  let gate := requestGate a.stages d.loop a.gateMs a.peer
  if gate.1 = .admitted ∧
      (trustCheck (a.stages .arm) gate.2.node.conn a.peer "min_trust_file").1 = true then
    match roomFor (contentHash F.sha) a.faults d.store a.chunk, d.app.dbPath with
    | some settings, some dbPath =>
      let path := join (storageRootForDb dbPath) (chunkFile a.chunk.transferId a.chunk.index)
      match a.os.write path, a.faults .saveStoredChunk with
      | .refused _, _ => .nothing
      | .broken left _, _ => ⟨[], some (path, left)⟩
      | .written, some _ => ⟨[], some (path, a.chunk.data)⟩
      | .written, none => ⟨[a.saves dbPath settings], none⟩
    | _, _ => .nothing
  else .nothing

/-- **A request changes the rows and the files as its outcome says.** -/
theorem receive_outcome (F : ChunkFormats) (d : ChunkDevice Key) (a : ChunkArrival) :
    ∃ loop, receiveChunk F d a =
      { d with
        loop
        store := { d.store with chunks := (a.outcome F d).rows d.store.chunks }
        disk := (a.outcome F d).files d.disk } := by
  unfold receiveChunk ChunkArrival.outcome
  generalize requestGate a.stages d.loop a.gateMs a.peer = gate
  obtain ⟨verdict, loop⟩ := gate
  cases verdict with
  | refused => exact ⟨loop, rfl⟩
  | rateLimited => exact ⟨loop, rfl⟩
  | admitted =>
    cases hallowed : (trustCheck (a.stages .arm) loop.node.conn a.peer "min_trust_file").1 with
    | false =>
      simp only [Chunks.fileChunk, hallowed, Bool.false_eq_true, and_false, if_false, if_true]
      exact ⟨_, rfl⟩
    | true =>
      simp only [Chunks.fileChunk, hallowed, Bool.true_eq_false, and_true, if_false,
        if_true, storeChunk]
      cases roomFor (contentHash F.sha) a.faults d.store a.chunk with
      | none => exact ⟨_, rfl⟩
      | some settings =>
        cases d.app.dbPath with
        | none => exact ⟨_, rfl⟩
        | some dbPath =>
          simp only
          cases a.os.write (join (storageRootForDb dbPath)
            (chunkFile a.chunk.transferId a.chunk.index)) with
          | refused e => exact ⟨_, rfl⟩
          | broken left e => exact ⟨_, rfl⟩
          | written =>
            unfold saveStoredChunk
            cases a.faults .saveStoredChunk with
            | some e => exact ⟨_, rfl⟩
            | none => exact ⟨_, rfl⟩

/-- A request stores one chunk, or leaves one file, or nothing. -/
theorem receive_shape (F : ChunkFormats) (d : ChunkDevice Key) (a : ChunkArrival) :
    a.outcome F d = .nothing ∨ (∃ file, a.outcome F d = ⟨[], some file⟩) ∨
      ∃ c, a.outcome F d = ⟨[c], none⟩ := by
  unfold ChunkArrival.outcome
  simp only
  split
  · split
    · split
      · exact .inl rfl
      · exact .inr (.inl ⟨_, rfl⟩)
      · exact .inr (.inl ⟨_, rfl⟩)
      · exact .inr (.inr ⟨_, rfl⟩)
    · exact .inl rfl
  · exact .inl rfl

/-- A request stores one chunk, if there is room for it. -/
theorem receive_saved {F : ChunkFormats} {d : ChunkDevice Key} {a : ChunkArrival}
    {chunk : SavedChunk} (h : chunk ∈ (a.outcome F d).saved) :
    ∃ settings dbPath, roomFor (contentHash F.sha) a.faults d.store a.chunk = some settings ∧
      chunk = a.saves dbPath settings ∧ (a.outcome F d).saved = [chunk] := by
  unfold ChunkArrival.outcome at h ⊢
  simp only at h ⊢
  split at h
  · next hgate =>
    rw [if_pos hgate]
    split at h
    · next settings dbPath hroom hpath =>
      split at h
      · cases h
      · cases h
      · cases h
      · obtain rfl := List.mem_singleton.mp h
        exact ⟨settings, dbPath, hroom, rfl, rfl⟩
    · cases h
  · cases h

/-- The size of a stored chunk is that of its file. -/
theorem storedChunks_size {F : ChunkFormats} {c : PrepareCall} {root fileHash : String}
    {expiresAt : Option Int64} {index : Nat} {pieces : List Bytes} {chunk : SavedChunk}
    (h : chunk ∈ (storedChunks F c root fileHash expiresAt index pieces).saved) :
    chunk.row.size = Int64.ofNat chunk.bytes.length := by
  induction pieces generalizing index with
  | nil => cases h
  | cons plaintext rest ih =>
    unfold storedChunks at h
    simp only at h
    split at h
    · cases h
    · split at h
      · cases h
      · cases h
      · cases h
      · rcases List.mem_cons.mp h with rfl | h
        · rfl
        · exact ih h

theorem prepare_size {F : ChunkFormats} {c : PrepareCall} {path : String}
    {settings : StorageSettings} {pieces : List Bytes} {chunk : SavedChunk}
    (h : chunk ∈ (c.outcomeOf F path settings pieces).saved) :
    chunk.row.size = Int64.ofNat chunk.bytes.length := by
  unfold PrepareCall.outcomeOf at h
  simp only at h
  split at h
  · cases h
  · exact storedChunks_size h

/-- **`list_stored_chunks` changes nothing, or it cleans up.** -/
theorem list_cases (d : ChunkDevice Key) (c : ListCall) :
    (listStoredChunks d c).2 = d ∨ ∃ path store, d.openStore c.openFault = .ok (path, store) ∧
      let cleaned := cleanupExpiredStorage c.cleanup (store.chunks, d.disk)
      (listStoredChunks d c).2 = d.close path { store with chunks := cleaned.1 } d.manifests
        cleaned.2 := by
  unfold listStoredChunks
  cases hopen : d.openStore c.openFault with
  | error e => exact .inl rfl
  | ok opened => exact .inr ⟨opened.1, opened.2, rfl, rfl⟩

/-- What a command opens of a profile on disk, and what it leaves. -/
theorem openStore_onDisk {d : ChunkDevice Key} {openFault : Option String} {path : String}
    {store : ChunkStore} (h : d.openStore openFault = .ok (path, store)) (hpath : path ≠ MEMORY) :
    store = d.store := by
  unfold ChunkDevice.openStore at h
  split at h
  · cases h
  · split at h
    · cases h
    · split at h
      · cases h
      · cases h
        exact if_neg hpath

/-- The tables of a profile in memory are opened empty. -/
theorem openStore_memory {d : ChunkDevice Key} {openFault : Option String} {store : ChunkStore}
    (h : d.openStore openFault = .ok (MEMORY, store)) : store.chunks = ∅ := by
  unfold ChunkDevice.openStore at h
  split at h
  · cases h
  · split at h
    · cases h
    · split at h
      · cases h
      · next path _ _ _ _ =>
        simp only [Except.ok.injEq, Prod.mk.injEq] at h
        obtain ⟨rfl, rfl⟩ := h
        rw [if_pos rfl]

theorem close_onDisk {path : String} (hpath : path ≠ MEMORY) (d : ChunkDevice Key)
    (store : ChunkStore) (manifests : Table String String) (disk : Disk Bytes) :
    d.close path store manifests disk = { d with store, manifests, disk } := if_neg hpath

theorem close_memory (d : ChunkDevice Key) (store : ChunkStore) (manifests : Table String String)
    (disk : Disk Bytes) : d.close MEMORY store manifests disk = { d with disk } := if_pos rfl

/-- What works on the chunk store. -/
inductive StoreEvent where
  | prepare (c : PrepareCall)
  | receive (a : ChunkArrival)
  | list (c : ListCall)

/-- The device after an event. -/
def StoreEvent.run (F : ChunkFormats) (d : ChunkDevice Key) : StoreEvent → ChunkDevice Key
  | .prepare c => (prepareEncryptedFile F d c).2
  | .receive a => receiveChunk F d a
  | .list c => (listStoredChunks d c).2

/-- The chunks whose rows an event saves; the rows of a profile in memory are gone with its
    connection. -/
def StoreEvent.saves (F : ChunkFormats) (d : ChunkDevice Key) : StoreEvent → List SavedChunk
  | .prepare c =>
    match c.passed d with
    | none => []
    | some (path, store) => if path = MEMORY then [] else (c.outcome F path store.settings).saved
  | .receive a => (a.outcome F d).saved
  | .list _ => []

/-! ## 7. Where the files of a prepared file lie -/

theorem contentHash_isName (H : Sha256) (data : Bytes) : IsName (contentHash H data) := by
  have hlen : (contentHash H data).toList.length = 64 := by
    rw [contentHash, hexString_length, H.length_digest]
  exact
    { ne_empty := fun h => by rw [h] at hlen; cases hlen
      ne_dot := fun h => by rw [h] at hlen; cases hlen
      ne_up := fun h => by rw [h] at hlen; cases hlen
      no_separator := fun h => (hexString_plain h).1 rfl }

theorem repr_plain (n : Nat) : '/' ∉ (toString n).toList := by
  rw [Nat.toString_eq_repr, Nat.toList_repr]
  intro h
  have hdigit := Nat.isDigit_of_mem_toDigits (by decide) (by decide) h
  exact absurd hdigit (by decide)

theorem repr_inj {m n : Nat} (h : toString m = toString n) : m = n := by
  have hdigits := congrArg String.toList h
  simp only [Nat.toString_eq_repr, Nat.toList_repr] at hdigits
  have hvalue := congrArg (fun cs => Nat.ofDigitChars 10 cs 0) hdigits
  simpa using hvalue

theorem preparedFile_isName {hash : String} (h : IsName hash) (index : Nat) :
    IsName (preparedFile hash index) :=
  ((h.append (by decide)).append (repr_plain index)).append (by decide)

/-- **Two chunks of a file lie at two places.** -/
theorem preparedPath_injective {hash : String} (h : IsName hash) {root : String} {i j : Nat}
    (hplace : place (join root (preparedFile hash i)) = place (join root (preparedFile hash j))) :
    i = j := by
  rw [(preparedFile_isName h i).place_join_eq, (preparedFile_isName h j).place_join_eq] at hplace
  have hnames := List.append_cancel_left (Location.mk.inj hplace).2
  have hfile : preparedFile hash i = preparedFile hash j := List.singleton_injective hnames
  have hmiddle := (String.append_left_inj _).mp hfile
  exact repr_inj ((String.append_right_inj _).mp hmiddle)

/-- The stored chunks of a file, from an index on. -/
theorem storedChunks_paths (F : ChunkFormats) (c : PrepareCall) (root fileHash : String)
    (expiresAt : Option Int64) (index : Nat) (pieces : List Bytes) {chunk : SavedChunk}
    (h : chunk ∈ (storedChunks F c root fileHash expiresAt index pieces).saved) :
    ∃ i, index ≤ i ∧ chunk.row.path = join root (preparedFile fileHash i) := by
  induction pieces generalizing index with
  | nil => cases h
  | cons plaintext rest ih =>
    unfold storedChunks at h
    simp only at h
    split at h
    · cases h
    · split at h
      · cases h
      · cases h
      · cases h
      · rcases List.mem_cons.mp h with rfl | h
        · exact ⟨index, Nat.le_refl _, rfl⟩
        · obtain ⟨i, hi, hpath⟩ := ih (index + 1) h
          exact ⟨i, by omega, hpath⟩

theorem storedChunks_apart (F : ChunkFormats) (c : PrepareCall) (root : String) {fileHash : String}
    (hname : IsName fileHash) (expiresAt : Option Int64) (index : Nat) (pieces : List Bytes) :
    (storedChunks F c root fileHash expiresAt index pieces).saved.Pairwise
      fun chunk chunk' => place chunk.row.path ≠ place chunk'.row.path := by
  induction pieces generalizing index with
  | nil => exact .nil
  | cons plaintext rest ih =>
    unfold storedChunks
    simp only
    split
    · exact .nil
    · split
      · exact .nil
      · exact .nil
      · exact .nil
      · refine List.pairwise_cons.mpr ⟨fun chunk hchunk hplace => ?_, ih (index + 1)⟩
        obtain ⟨i, hi, hpath⟩ := storedChunks_paths F c root fileHash expiresAt _ rest hchunk
        rw [hpath] at hplace
        have hindex := preparedPath_injective hname hplace
        omega

/-- A file that is left without a row lies at another place than those that have one. -/
theorem storedChunks_leftover (F : ChunkFormats) (c : PrepareCall) (root : String)
    {fileHash : String} (hname : IsName fileHash) (expiresAt : Option Int64) (index : Nat)
    (pieces : List Bytes) {file : String × Bytes}
    (h : (storedChunks F c root fileHash expiresAt index pieces).leftover = some file) :
    (∃ i, index ≤ i ∧ file.1 = join root (preparedFile fileHash i)) ∧
      ∀ chunk ∈ (storedChunks F c root fileHash expiresAt index pieces).saved,
        place chunk.row.path ≠ place file.1 := by
  induction pieces generalizing index with
  | nil => cases h
  | cons plaintext rest ih =>
    unfold storedChunks at h ⊢
    simp only at h ⊢
    split at h
    · cases h
    · split at h
      · cases h
      · cases h
        exact ⟨⟨index, Nat.le_refl _, rfl⟩, by simp⟩
      · cases h
        exact ⟨⟨index, Nat.le_refl _, rfl⟩, by simp⟩
      · obtain ⟨⟨i, hi, hpath⟩, hrest⟩ := ih (index + 1) h
        refine ⟨⟨i, by omega, hpath⟩, fun chunk hchunk => ?_⟩
        rcases List.mem_cons.mp hchunk with rfl | hchunk
        · intro hplace
          rw [hpath] at hplace
          have hindex := preparedPath_injective hname hplace
          omega
        · exact hrest chunk hchunk

/-! ## 8. A device -/

/-- A stand-in for SHA-256: the length, and 31 zeros. -/
def sizeSha : Sha256 where
  digest m := UInt8.ofNat m.length :: List.replicate 31 0
  length_digest _ := congrArg Nat.succ List.length_replicate

/-- An encrypted chunk in JSON; the hash needs no escapes. -/
def chunkText (e : EncryptedChunk) : List Char :=
  "\x7b\"index\":".toList ++ (Codec.decimal.enc e.index.toNat ++
    (",\"nonce\":".toList ++ (Codec.jsonBytes.enc e.nonce.toList ++
      (",\"ciphertext\":".toList ++ (Codec.jsonBytes.enc e.ciphertext ++
        (",\"plaintext_hash\":\"".toList ++ (e.plaintextHash.toList ++ "\"\x7d".toList)))))))

/-- What such a text says: the four fields, between labels of known length. -/
def readChunk (text : List Char) : Option EncryptedChunk := do
  let text := text.drop 9
  let index ← Codec.decimal.dec (text.takeWhile Char.isDigit)
  let text := (text.dropWhile Char.isDigit).drop 9
  let nonce ← Codec.jsonBytes.dec (text.takeWhile (· != ']') ++ [']'])
  let text := (text.dropWhile (· != ']')).drop 15
  let ciphertext ← Codec.jsonBytes.dec (text.takeWhile (· != ']') ++ [']'])
  let text := (text.dropWhile (· != ']')).drop 20
  if h : nonce.length = 12 then
    some
      { index := UInt64.ofNat index
        nonce := ⟨nonce.toArray, h⟩
        ciphertext
        plaintextHash := String.ofList (text.take (text.length - 2)) }
  else none

/-- A list of bytes is read up to its bracket. -/
theorem read_jsonBytes (bytes : Bytes) (rest : List Char) :
    ((Codec.jsonBytes.enc bytes ++ rest).takeWhile (· != ']')) ++ [']'] =
      Codec.jsonBytes.enc bytes ∧ (Codec.jsonBytes.enc bytes ++ rest).dropWhile (· != ']') =
        ']' :: rest := by
  obtain ⟨start, henc, hstart⟩ := Codec.jsonBytes_close bytes
  have hpass : ∀ c ∈ start, (c != ']') = true :=
    fun c hc => bne_iff_ne.mpr fun heq => hstart (heq ▸ hc)
  rw [henc, List.append_assoc, List.singleton_append]
  exact ⟨by rw [Codec.takeWhile_stop hpass rfl], Codec.dropWhile_stop hpass rfl⟩

/-- **A chunk is read back.** -/
theorem readChunk_chunkText (e : EncryptedChunk) : readChunk (chunkText e) = some e := by
  have hdigits : ∀ c ∈ Codec.decimal.enc e.index.toNat, Char.isDigit c = true :=
    fun c hc => Codec.decimal_digits hc
  have hcomma : Char.isDigit ',' = false := rfl
  let hash := e.plaintextHash.toList ++ "\"\x7d".toList
  let ciphertext := Codec.jsonBytes.enc e.ciphertext ++ (",\"plaintext_hash\":\"".toList ++ hash)
  let nonce := Codec.jsonBytes.enc e.nonce.toList ++ (",\"ciphertext\":".toList ++ ciphertext)
  have htext : (chunkText e).drop 9 =
      Codec.decimal.enc e.index.toNat ++ ',' :: ("\"nonce\":".toList ++ nonce) := rfl
  have hnonce : (',' :: ("\"nonce\":".toList ++ nonce)).drop 9 = nonce := rfl
  have hciphertext : (']' :: (",\"ciphertext\":".toList ++ ciphertext)).drop 15 = ciphertext := rfl
  have hhash : (']' :: (",\"plaintext_hash\":\"".toList ++ hash)).drop 20 = hash := rfl
  obtain ⟨hnonceRead, hnonceRest⟩ : nonce.takeWhile (· != ']') ++ [']'] = _ ∧
    nonce.dropWhile _ = _ :=
    read_jsonBytes e.nonce.toList (",\"ciphertext\":".toList ++ ciphertext)
  obtain ⟨hciphertextRead, hciphertextRest⟩ :
      ciphertext.takeWhile (· != ']') ++ [']'] = _ ∧ ciphertext.dropWhile _ = _ :=
    read_jsonBytes e.ciphertext (",\"plaintext_hash\":\"".toList ++ hash)
  have hend : hash.take (hash.length - 2) = e.plaintextHash.toList := by
    rw [show hash.length - 2 = e.plaintextHash.toList.length by simp [hash]]
    exact List.take_left ..
  unfold readChunk
  simp only [htext, Codec.takeWhile_stop hdigits hcomma,
    Codec.dropWhile_stop hdigits hcomma, hnonce, hnonceRead, hnonceRest, hciphertext,
    hciphertextRead, hciphertextRest, hhash, hend, Codec.dec_enc,
    Option.bind_eq_bind, Option.bind_some, Vector.length_toList, dif_pos, UInt64.ofNat_toNat,
    String.ofList_toList]
  rfl

def chunkJson : Codec EncryptedChunk Bytes where
  enc e := Codec.utf8.enc (String.ofList (chunkText e))
  dec bytes := (Codec.utf8.dec bytes).bind fun s => readChunk s.toList
  dec_enc e := by simp [readChunk_chunkText]

def sampleFormats : ChunkFormats where
  sha := sizeSha
  cipher := plain32
  chunkJson := chunkJson
  manifestJson := Codec.textOfEncodable FileManifest

def samplePath : String := "alterchat_0123456789abcdef.db"

/-- A device with a quota of one megabyte. -/
def emptyDevice : ChunkDevice Unit where
  app := { dbPath := some samplePath, dbKey := some "key", keyPath := some "keypair.bin" }
  loop := emptyLoop
  store :=
    { settings := { storageNodeEnabled := true, quotaMb := 1, retentionDays := 7 }, chunks := ∅ }
  manifests := ∅
  disk := ∅

/-- `mallory` sends a chunk of so many zeros. -/
def zeros (length : Nat) : ChunkArrival where
  peer := "mallory"
  chunk :=
    { transferId := "t", index := 0
      contentHash := contentHash sizeSha (List.replicate length 0)
      data := List.replicate length 0 }
  gateMs := 0
  nowMs := 0
  stages := allRead
  faults _ := none
  os := .willing

end AlterChat.ChunkStorage
