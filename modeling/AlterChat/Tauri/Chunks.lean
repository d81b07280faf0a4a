import AlterChat.Lib.Disk
import AlterChat.Tauri.Inbound
import AlterChat.Tauri.Profile

/-!
# Chunks of files

The request `FileChunk` with the tables of the chunk store and the file system. A chunk that the
settings of its sender, its hash and the quota let through is written below the storage root of the
open profile; the name of the file is made of `transfer_id`, which the sender has chosen. The quota
and the expiry wrap around, as in a build without overflow checks.

* §1 the tables, §2 storing a chunk;
* §3 the request, `fileChunk_inbound` -- it is the arm of the request handler, with the outcome
  computed;
* §4 `touched_stay_iff` -- when everything that is written lies inside the storage root;
* §5 `chunks_escape` -- two transfer ids.
-/

namespace AlterChat.Chunks

open Lib Lib.Paths Db Requests Inbound Identity Profile

/-! ## 1. The tables -/

structure StorageSettings where
  storageNodeEnabled : Bool
  quotaMb : Int64
  retentionDays : Int64
  deriving DecidableEq

/-- The column defaults of `storage_settings`. -/
def StorageSettings.default : StorageSettings where
  storageNodeEnabled := false
  quotaMb := 512
  retentionDays := 7

/-- A row of `stored_chunks`. -/
structure StoredChunk where
  contentHash : String
  chunkIndex : UInt64
  path : String
  size : Int64
  expiresAt : Option Int64
  deriving DecidableEq

structure ChunkStore where
  settings : StorageSettings
  chunks : Table String StoredChunk

/-- The statements on the chunk store. -/
inductive ChunkStmt where
  | getStorageSettings
  | storedChunkBytes
  | saveStoredChunk
  deriving DecidableEq

/-- The statements that fail, with the error each reports. -/
abbrev ChunkFaults := ChunkStmt → Option String

def getStorageSettings (f : ChunkFaults) (store : ChunkStore) : Except String StorageSettings :=
  match f .getStorageSettings with
  | some e => .error e
  | none => .ok store.settings

/-- `stored_chunk_bytes`: a sum in SQL fails where it leaves the integers of 64 bits. -/
def storedChunkBytes (f : ChunkFaults) (store : ChunkStore) : Except String Int64 :=
  match f .storedChunkBytes with
  | some e => .error e
  | none =>
    let total := (store.chunks.entries.map fun row => row.2.size.toInt).sum
    if -2 ^ 63 ≤ total ∧ total < 2 ^ 63 then .ok (Int64.ofInt total) else .error "integer overflow"

/-- `save_stored_chunk`: on a conflict the row keeps its content hash and its index. -/
def saveStoredChunk (f : ChunkFaults) (store : ChunkStore) (chunkHash contentHash : String)
    (chunkIndex : UInt64) (path : String) (size : Int64) (expiresAt : Option Int64) :
    Except String Unit × ChunkStore :=
  match f .saveStoredChunk with
  | some e => (.error e, store)
  | none =>
    (.ok (), { store with
      chunks := store.chunks.upsert chunkHash { contentHash, chunkIndex, path, size, expiresAt }
        fun row => { row with path, size, expiresAt } })

/-! ## 2. Storing a chunk -/

/-- `format!("{}-{}.chunk", transfer_id, index)`. -/
def chunkFile (transferId : String) (index : UInt64) : String :=
  transferId ++ "-" ++ toString index ++ ".chunk"

/-- A received chunk. -/
structure Chunk where
  transferId : String
  index : UInt64
  contentHash : String
  data : Bytes

/-- What storing a chunk leaves: the tables, the directory made, the file written with what it
    holds, and whether all has succeeded. -/
structure Stored where
  store : ChunkStore
  made : Option String
  written : Option (String × Bytes)
  success : Bool

/-- The settings, if the chunk has the hash it claims and the quota has room for it. -/
def roomFor (hashOf : Bytes → String) (f : ChunkFaults) (store : ChunkStore) (chunk : Chunk) :
    Option StorageSettings :=
  if hashOf chunk.data ≠ chunk.contentHash then none
  else
    match getStorageSettings f store with
    | .error _ => none
    | .ok settings =>
      let current := (storedChunkBytes f store).toOption.getD 0
      let quota := max settings.quotaMb 1 * 1024 * 1024
      if current + Int64.ofNat chunk.data.length ≤ quota then some settings else none

/-- The middle of the arm `FileChunk`; the directories above the root that `create_dir_all` makes
    with it are not counted. -/
def storeChunk (hashOf : Bytes → String) (f : ChunkFaults) (os : FileSystem) (store : ChunkStore)
    (currentDbPath : Option String) (nowMs : Int64) (chunk : Chunk) : Stored :=
  match roomFor hashOf f store chunk, currentDbPath with
  | some settings, some dbPath =>
    let root := storageRootForDb dbPath
    let made := if os.createDirAll root then some root else none
    let chunkPath := join root (chunkFile chunk.transferId chunk.index)
    match os.write chunkPath with
    | .refused _ => { store, made, written := none, success := false }
    | .broken left _ => { store, made, written := some (chunkPath, left), success := false }
    | .written =>
      let expiresAt := some (nowMs + max settings.retentionDays 1 * 24 * 60 * 60 * 1000)
      let (result, store) := saveStoredChunk f store chunk.contentHash chunk.transferId chunk.index
        chunkPath (Int64.ofNat chunk.data.length) expiresAt
      { store, made, written := some (chunkPath, chunk.data), success := result.toBool }
  | _, _ => { store, made := none, written := none, success := false }

/-! ## 3. The request -/

variable {Key : Type}

/-- What the request leaves. -/
structure ChunkTurn (Key : Type) where
  loop : EventLoop Key
  store : ChunkStore
  made : Option String
  written : Option (String × Bytes)
  effects : List (NetEffect Key)

/-- The paths that the request creates or overwrites. -/
def ChunkTurn.touched (turn : ChunkTurn Key) : List String :=
  turn.made.toList ++ (turn.written.map fun file => file.1).toList

/-- `FileChunk`. -/
def fileChunk (hashOf : Bytes → String) (f : Faults) (fc : ChunkFaults) (os : FileSystem)
    (l : EventLoop Key) (store : ChunkStore) (currentDbPath : Option String) (nowMs : Int64)
    (peer : String) (chunk : Chunk) : ChunkTurn Key :=
  let (allowed, conn) := trustCheck f l.node.conn peer "min_trust_file"
  if allowed = false then
    { loop := l.setConn conn
      store
      made := none
      written := none
      effects := [.sendResponse (.fileChunkAck chunk.transferId chunk.index false)] }
  else
    let stored := storeChunk hashOf fc os store currentDbPath nowMs chunk
    { loop := l.setConn conn
      store := stored.store
      made := stored.made
      written := stored.written
      effects :=
        [.emit "file-chunk-received"
            [chunk.transferId, toString chunk.index, toString chunk.data.length],
          .sendResponse (.fileChunkAck chunk.transferId chunk.index stored.success)] }

/-- A chunk with another hash is not stored. -/
theorem storeChunk_hash {hashOf : Bytes → String} {f : ChunkFaults} {os : FileSystem}
    {store : ChunkStore} {currentDbPath : Option String} {nowMs : Int64} {chunk : Chunk}
    (h : (storeChunk hashOf f os store currentDbPath nowMs chunk).success = true) :
    hashOf chunk.data = chunk.contentHash := by
  by_cases hhash : hashOf chunk.data = chunk.contentHash
  · exact hhash
  · have hnone : roomFor hashOf f store chunk = none := if_pos hhash
    unfold storeChunk at h
    rw [hnone] at h
    cases h

/-- **The request is the arm of the request handler**, which is given the outcome. -/
theorem fileChunk_inbound (hashOf : Bytes → String) (f : Faults) (fc : ChunkFaults)
    (os : FileSystem) (l : EventLoop Key) (store : ChunkStore) (currentDbPath : Option String)
    (nowMs : Int64) (peer : String) (chunk : Chunk) :
    let turn := fileChunk hashOf f fc os l store currentDbPath nowMs peer chunk
    (turn.loop, turn.effects) = Inbound.fileChunk f l peer chunk.transferId chunk.index
      chunk.contentHash chunk.data hashOf
      (storeChunk hashOf fc os store currentDbPath nowMs chunk).success := by
  intro turn
  have hsuccess : (decide (hashOf chunk.data = chunk.contentHash) &&
      (storeChunk hashOf fc os store currentDbPath nowMs chunk).success) =
        (storeChunk hashOf fc os store currentDbPath nowMs chunk).success := by
    cases hs : (storeChunk hashOf fc os store currentDbPath nowMs chunk).success with
    | false => exact Bool.and_false _
    | true => rw [decide_eq_true (storeChunk_hash hs)]; rfl
  show (turn.loop, turn.effects) = _
  unfold Inbound.fileChunk
  simp only [hsuccess, turn, fileChunk]
  split <;> rfl

/-! ## 4. Where the paths lie -/

/-- The chunk is written to. -/
def IsWritten (hashOf : Bytes → String) (f : Faults) (fc : ChunkFaults) (os : FileSystem)
    (l : EventLoop Key) (store : ChunkStore) (dbPath peer : String) (chunk : Chunk) : Prop :=
  (trustCheck f l.node.conn peer "min_trust_file").1 = true ∧
    (roomFor hashOf fc store chunk).isSome = true ∧
    (os.write (join (storageRootForDb dbPath)
      (chunkFile chunk.transferId chunk.index))).touches = true

/-- **When and where a chunk is written.** -/
theorem fileChunk_written {hashOf : Bytes → String} {f : Faults} {fc : ChunkFaults}
    {os : FileSystem} {l : EventLoop Key} {store : ChunkStore} {currentDbPath : Option String}
    {nowMs : Int64} {peer : String} {chunk : Chunk} {file : String × Bytes}
    (h : (fileChunk hashOf f fc os l store currentDbPath nowMs peer chunk).written = some file) :
    ∃ dbPath, currentDbPath = some dbPath ∧ IsWritten hashOf f fc os l store dbPath peer chunk ∧
      file.1 = join (storageRootForDb dbPath) (chunkFile chunk.transferId chunk.index) := by
  unfold fileChunk at h
  simp only at h
  split at h
  · cases h
  · next hallowed =>
    simp only [Bool.not_eq_false] at hallowed
    unfold storeChunk at h
    split at h
    · next settings dbPath hroom =>
      have hfits : (roomFor hashOf fc store chunk).isSome = true := Option.isSome_of_eq_some hroom
      simp only at h
      split at h
      · cases h
      · next hwrite =>
        cases h
        exact ⟨dbPath, rfl, ⟨hallowed, hfits, by rw [hwrite]; rfl⟩, rfl⟩
      · next hwrite =>
        cases h
        exact ⟨dbPath, rfl, ⟨hallowed, hfits, by rw [hwrite]; rfl⟩, rfl⟩
    · cases h

/-- What is touched lies inside the root, if what is written does. -/
theorem touched_inside_iff (hashOf : Bytes → String) (f : Faults) (fc : ChunkFaults)
    (os : FileSystem) (l : EventLoop Key) (store : ChunkStore) (dbPath : String) (nowMs : Int64)
    (peer : String) (chunk : Chunk) :
    (∀ path ∈ (fileChunk hashOf f fc os l store (some dbPath) nowMs peer chunk).touched,
        Inside (place (storageRootForDb dbPath)) (place path)) ↔
      (IsWritten hashOf f fc os l store dbPath peer chunk →
        Inside (place (storageRootForDb dbPath))
          (place (join (storageRootForDb dbPath) (chunkFile chunk.transferId chunk.index)))) := by
  have hmade :
    ∀ made : Bool, ∀ path ∈ (if made = true then some (storageRootForDb dbPath) else none),
      Inside (place (storageRootForDb dbPath)) (place path) := by
    intro made path hpath
    cases made with
    | false => cases hpath
    | true =>
      cases hpath
      exact .refl _
  unfold fileChunk IsWritten ChunkTurn.touched
  cases hallowed : (trustCheck f l.node.conn peer "min_trust_file").1 with
  | false => simp [hallowed]
  | true =>
    simp only [hallowed, Bool.true_eq_false, if_false, true_and]
    unfold storeChunk
    cases hroom : roomFor hashOf fc store chunk with
    | none => simp
    | some settings =>
      simp only [Option.isSome_some, true_and]
      cases hwrite : os.write
          (join (storageRootForDb dbPath) (chunkFile chunk.transferId chunk.index)) with
      | refused e => simpa [Written.touches] using hmade _
      | broken left e | written =>
        simp only [Written.touches, List.mem_append, Option.mem_toList, Option.map_some]
        constructor
        · exact fun h _ => h _ (.inr rfl)
        · intro h path hpath
          rcases hpath with hpath | hpath
          · exact hmade _ _ hpath
          · cases hpath
            exact h trivial

/-- **When received chunks stay inside the storage root**: nothing is written; or the name of the
    file is not absolute, and climbs no directory, or one and goes on to the profile's own, or two
    and goes on to the storage root by its two names. -/
theorem touched_stay_iff (H : Sha256) (hashOf : Bytes → String) (f : Faults) (fc : ChunkFaults)
    (os : FileSystem) (l : EventLoop Key) (store : ChunkStore) (password : String) (amnesic : Bool)
    (nowMs : Int64) (peer : String) (chunk : Chunk) :
    (∀ path ∈ (fileChunk hashOf f fc os l store (some (dbPathOf H password amnesic)) nowMs peer
        chunk).touched,
        Inside (place (storageRootForDb (dbPathOf H password amnesic))) (place path)) ↔
      (IsWritten hashOf f fc os l store (dbPathOf H password amnesic) peer chunk →
        let file := chunkFile chunk.transferId chunk.index
        isAbsolute file = false ∧
          ((place file).climbs = 0 ∨
            (place file).climbs = 1 ∧ [storageTag H password amnesic] <+: (place file).names ∨
            (place file).climbs = 2 ∧
              ["alterchat_storage", storageTag H password amnesic] <+: (place file).names)) := by
  rw [touched_inside_iff]
  refine imp_congr_right fun _ => ?_
  rw [inside_join_iff (storageRoot_place H password amnesic)]
  refine and_congr_right fun _ => ?_
  generalize (place (chunkFile chunk.transferId chunk.index)).climbs = climbs
  constructor
  · intro h
    obtain ⟨hclimbs, hnames⟩ := h
    have hcases : climbs = 0 ∨ climbs = 1 ∨ climbs = 2 := by
      simp only [List.length_cons, List.length_nil] at hclimbs
      omega
    rcases hcases with rfl | rfl | rfl
    · exact .inl rfl
    · exact .inr (.inl ⟨rfl, hnames⟩)
    · exact .inr (.inr ⟨rfl, hnames⟩)
  · intro h
    rcases h with rfl | ⟨rfl, hnames⟩ | ⟨rfl, hnames⟩
    · exact ⟨Nat.zero_le _, List.nil_prefix⟩
    · exact ⟨Nat.le_succ _, hnames⟩
    · exact ⟨Nat.le_refl _, hnames⟩

/-! ## 5. Two transfer ids -/

/-- A stand-in for SHA-256. -/
def zeroSha : Sha256 where
  digest _ := List.replicate 32 0
  length_digest _ := List.length_replicate

/-- A loop that knows nobody. -/
def emptyLoop : EventLoop Unit where
  node := { myPeerId := "p", offlineSecretBytes := (), minTrustDm := 0, conn := .empty }
  unknownPeerPolicy := "allow"
  rateLimitPerMinute := 30
  rateBuckets _ := []
  powFailures _ := 0

def emptyStore : ChunkStore where
  settings := .default
  chunks := ∅

def escaping (transferId : String) : Chunk where
  transferId
  index := 0
  contentHash := ""
  data := [0]

/-- What the request of a peer named `mallory` touches in the session of a password. -/
def escapingTouched (transferId : String) : List String :=
  (fileChunk (fun _ => "") noFaults (fun _ => none) .willing emptyLoop emptyStore
    (some (dbPathOf zeroSha "pw" false)) 0 "mallory" (escaping transferId)).touched

/-- **A transfer id that climbs, and one that is absolute**: the chunk is written next to the
    databases, and wherever the peer has said. -/
theorem chunks_escape :
    escapingTouched "../../x" = ["alterchat_storage/0000000000000000",
        "alterchat_storage/0000000000000000/../../x-0.chunk"] ∧
      ¬ Inside (place (storageRootForDb (dbPathOf zeroSha "pw" false)))
        (place "alterchat_storage/0000000000000000/../../x-0.chunk") ∧
    escapingTouched "/tmp/x" = ["alterchat_storage/0000000000000000", "/tmp/x-0.chunk"] ∧
      ¬ Inside (place (storageRootForDb (dbPathOf zeroSha "pw" false)))
      (place "/tmp/x-0.chunk") := by
  decide

end AlterChat.Chunks
