import AlterChat.Tauri.ChunkIntegrity
import AlterChat.Tauri.ChunkQuota
import AlterChat.Tauri.Manifest

/-!
# A prepared file, until its retention ends

`prepare_encrypted_file` writes one file a chunk and a manifest with the key; nothing else in the
program reads them back, but they are kept for that. `Readable` says what they are kept for: the
manifest in the table describes the file, and `decrypt_chunk` with its key makes the file of what
lies under the names of its chunks.

* §1 the names, and `Readable`; §2 `prepared` -- a successful call makes its file readable;
* §3 what an event leaves alone;
* §4 `stays_readable` -- in every run, until the time at which the chunks expire.

The names are of the same form as those of received chunks, and the rows of two calls for one file
share them: hence `Untouching`.
-/

namespace AlterChat.PreparedFile

open Lib hiding written
open Identity hiding written
open Lib.Paths Commands Profile Chunks ChunkStorage ChunkIntegrity

variable {Key : Type} {F : ChunkFormats} {path : String} {data : Bytes} {d : ChunkDevice Key}

/-! ## 1. The files of a file -/

def partsOf (data : Bytes) : List Bytes := splitChunks data DEFAULT_CHUNK_SIZE

/-- Where the command writes a part. -/
def partPlace (F : ChunkFormats) (path : String) (data : Bytes) (i : Nat) : Location :=
  place (join (storageRootForDb path) (preparedFile (contentHash F.sha data) i))

def IsPart (F : ChunkFormats) (path : String) (data : Bytes) (p : Location) : Prop :=
  ∃ i < (partsOf data).length, p = partPlace F path data i

/-- **The file can be read**: its manifest can, whose key opens the chunk that is read from the file
    of each part, and together that is the file. -/
def Readable (F : ChunkFormats) (path : String) (data : Bytes) (d : ChunkDevice Key) : Prop :=
  ∃ (manifest : FileManifest) (key : Key32) (chunks : List EncryptedChunk),
    (d.manifests.lookup (contentHash F.sha data)).bind F.manifestJson.dec = some manifest ∧
    Describes F.sha manifest data DEFAULT_CHUNK_SIZE (partsOf data) ∧
    manifest.encryptedKey = some key.toList ∧
    chunks.length = manifest.chunks.length ∧
    (∀ i chunk, chunks[i]? = some chunk →
      (d.disk.lookup (partPlace F path data i)).bind F.chunkJson.dec = some chunk) ∧
    decryptChunks F.cipher F.sha key chunks = .ok data

/-- Only the manifest and the files of the parts matter. -/
theorem Readable.frame {d' : ChunkDevice Key} (h : Readable F path data d)
    (hmanifest : d'.manifests.lookup (contentHash F.sha data) = d.manifests.lookup
      (contentHash F.sha data))
    (hfiles : ∀ p, IsPart F path data p → d'.disk.lookup p = d.disk.lookup p) :
    Readable F path data d' := by
  obtain ⟨manifest, key, chunks, hrow, hdescribes, hkey, hcount, hparts, hback⟩ := h
  refine ⟨manifest, key, chunks, by rwa [hmanifest], hdescribes, hkey, hcount,
    fun i chunk hchunk => ?_, hback⟩
  have hslices : manifest.chunks.length = (partsOf data).length := by
    have hboth := congrArg List.length hdescribes.sizes
    rwa [List.length_map, List.length_map] at hboth
  have hi : i < chunks.length := List.getElem?_eq_some_iff.mp hchunk |>.1
  rw [hfiles _ ⟨i, by omega, rfl⟩]
  exact hparts i chunk hchunk

/-! ## 2. A successful call -/

/-- Files written one after the other. -/
def writeAll (disk : Disk Bytes) (files : List (String × Bytes)) : Disk Bytes :=
  files.foldl (fun disk file => writeFile disk file.1 file.2) disk

theorem files_eq (o : Outcome) (disk : Disk Bytes) : o.files disk = writeAll disk (written o) := by
  unfold written Outcome.files writeAll
  rw [List.foldl_append, List.foldl_map]
  cases o.leftover <;> rfl

theorem writeAll_lookup_ne {files : List (String × Bytes)} {p : Location}
    (h : ∀ file ∈ files, place file.1 ≠ p) (disk : Disk Bytes) :
    (writeAll disk files).lookup p = disk.lookup p := by
  induction files generalizing disk with
  | nil => rfl
  | cons file rest ih =>
    refine (ih (fun file' h' => h file' (List.mem_cons_of_mem _ h')) _).trans ?_
    exact AList.lookup_insert_ne (Ne.symm (h file List.mem_cons_self))

theorem writeAll_lookup {files : List (String × Bytes)}
    (hapart : files.Pairwise fun f f' => place f.1 ≠ place f'.1) {file : String × Bytes}
    (h : file ∈ files) (disk : Disk Bytes) :
    (writeAll disk files).lookup (place file.1) = some file.2 := by
  induction files generalizing disk with
  | nil => cases h
  | cons first rest ih =>
    obtain ⟨hfirst, hrest⟩ := List.pairwise_cons.mp hapart
    rcases List.mem_cons.mp h with rfl | h
    · refine (writeAll_lookup_ne (fun file' h' => (hfirst file' h').symm) _).trans ?_
      exact AList.lookup_insert ..
    · exact ih hrest h _

/-- The chunks of a loop that goes through. -/
theorem storeChunks_ok {c : PrepareCall} {root fileHash : String} {expiresAt : Option Int64}
    {index : Nat} {pieces : List Bytes} {store : ChunkStore} {disk : Disk Bytes}
    (h : (storeChunks F c root fileHash expiresAt index pieces store disk).1 = .ok ()) :
    (∀ piece ∈ pieces, F.cipher.accepts piece = true) ∧
      written (storedChunks F c root fileHash expiresAt index pieces) =
        (pieces.zipIdx index).map fun part =>
          (join root (preparedFile fileHash part.2),
            F.chunkJson.enc (encrypted F.cipher F.sha c.fileKey c.nonces part)) := by
  induction pieces generalizing index store disk with
  | nil => exact ⟨fun _ h => (nomatch h), rfl⟩
  | cons piece rest ih =>
    cases haccepts : F.cipher.accepts piece with
    | false =>
      simp only [storeChunks, encryptChunk_refused haccepts] at h
      cases h
    | true =>
      simp only [storeChunks, storedChunks, encryptChunk_accepted haccepts] at h ⊢
      cases hwrite : c.os.write (join root (preparedFile fileHash index)) with
      | refused e =>
        rw [hwrite] at h
        cases h
      | broken left e =>
        rw [hwrite] at h
        cases h
      | written =>
        rw [hwrite] at h
        unfold saveStoredChunk at h
        cases hsave : c.saves index .saveStoredChunk with
        | some e =>
          rw [hsave] at h
          cases h
        | none =>
          rw [hsave] at h
          obtain ⟨hrest, hwritten⟩ := ih h
          refine ⟨fun p hp => ?_, ?_⟩
          · rcases List.mem_cons.mp hp with rfl | hp
            · exact haccepts
            · exact hrest p hp
          · rw [List.zipIdx_cons, List.map_cons, ← hwritten]
            rfl

/-- What has happened when the command answers with a manifest. -/
structure Prepared (F : ChunkFormats) (path : String) (d : ChunkDevice Key) (c : PrepareCall)
    (d' : ChunkDevice Key) : Prop where
  passes : Passes d c path d.store
  accepts : ∀ piece ∈ partsOf c.data, F.cipher.accepts piece = true
  files : written (c.outcome F path d.store.settings) = (partsOf c.data).zipIdx.map fun part =>
    (join (storageRootForDb path) (preparedFile (contentHash F.sha c.data) part.2),
      F.chunkJson.enc (encrypted F.cipher F.sha c.fileKey c.nonces part))
  device : d' =
    let cleaned := cleanupExpiredStorage c.cleanup (d.store.chunks, d.disk)
    let o := c.outcome F path d.store.settings
    { d with
      store := { d.store with chunks := o.rows cleaned.1 }
      manifests :=
        d.manifests.upsert (contentHash F.sha c.data) (F.manifestJson.enc (preparedManifest F c))
        fun _ => F.manifestJson.enc (preparedManifest F c)
      disk := o.files cleaned.2 }

/-- The path of the open profile. -/
theorem openStore_path {openFault : Option String} {p : String} {store : ChunkStore}
    (h : d.openStore openFault = .ok (p, store)) : d.app.dbPath = some p := by
  unfold ChunkDevice.openStore at h
  split at h
  · cases h
  · next hpath =>
    split at h
    · cases h
    · split at h
      · cases h
      · cases h
        exact hpath

theorem passes_of_ok {c : PrepareCall} {manifest : FileManifest}
    (h : (prepareEncryptedFile F d c).1 = .ok manifest) : ∃ p store, Passes d c p store := by
  unfold prepareEncryptedFile at h
  split at h
  · cases h
  · next p store hopen =>
    unfold getStorageSettings at h
    cases hsettings : c.faults .getStorageSettings with
    | some e =>
      rw [hsettings] at h
      cases h
    | none =>
      rw [hsettings] at h
      cases hcurrent : storedChunkBytes c.faults store with
      | error e =>
        rw [hcurrent] at h
        cases h
      | ok current =>
        simp only [hcurrent] at h
        split at h
        · cases h
        · next hroom => exact ⟨p, store, hopen, hsettings, current, hcurrent, hroom⟩

theorem prepared {c : PrepareCall} {manifest : FileManifest} (happ : d.app.dbPath = some path)
    (hpath : path ≠ MEMORY) (h : (prepareEncryptedFile F d c).1 = .ok manifest) :
    Prepared F path d c (prepareEncryptedFile F d c).2 := by
  obtain ⟨p, store, hpasses⟩ := passes_of_ok h
  obtain rfl : p = path := Option.some.inj ((openStore_path hpasses.opened).symm.trans happ)
  obtain rfl := openStore_onDisk hpasses.opened hpath
  rw [hpasses.prepare] at h
  cases hdir : c.os.createDirAll (storageRootForDb p) with
  | false =>
    rw [storeFile, if_pos hdir] at h
    cases h
  | true =>
    have houtcome : c.outcome F p d.store.settings =
        storedChunks F c (storageRootForDb p) (contentHash F.sha c.data)
        (expiry d.store.settings c.nowMs) 0
          (partsOf c.data) := if_neg (by rw [hdir]; decide)
    have hloop := storeChunks_outcome F c (storageRootForDb p) (contentHash F.sha c.data)
      (expiry d.store.settings c.nowMs) 0 (partsOf c.data)
      { d.store with chunks := (cleanupExpiredStorage c.cleanup (d.store.chunks, d.disk)).1 }
      (cleanupExpiredStorage c.cleanup (d.store.chunks, d.disk)).2
    have hdir' : ¬ c.os.createDirAll (storageRootForDb p) = false := by rw [hdir]; decide
    rw [hpasses.prepare]
    rw [storeFile, if_neg hdir'] at h ⊢
    simp only [preparedManifest_contentHash] at h ⊢
    rw [partsOf] at hloop
    cases hresult : (storeChunks F c (storageRootForDb p) (contentHash F.sha c.data)
      (expiry d.store.settings c.nowMs) 0 (splitChunks c.data DEFAULT_CHUNK_SIZE)
      { d.store with chunks := (cleanupExpiredStorage c.cleanup (d.store.chunks, d.disk)).1 }
      (cleanupExpiredStorage c.cleanup (d.store.chunks, d.disk)).2).1 with
    | error e =>
      rw [hresult] at h
      cases h
    | ok =>
      obtain ⟨haccepts, hwritten⟩ := storeChunks_ok hresult
      refine ⟨hpasses, haccepts, houtcome ▸ hwritten, ?_⟩
      simp only [hresult, saveFileManifest] at h ⊢
      cases hfault : c.manifestFault with
      | some e =>
        rw [hfault] at h
        cases h
      | none =>
        simp only [hloop, close_onDisk hpath, houtcome]
        rfl

theorem written_apart {o : Outcome} (h : Apart o) :
    (written o).Pairwise fun f f' => place f.1 ≠ place f'.1 := by
  refine List.pairwise_append.mpr ⟨List.pairwise_map.mpr h.saved, ?_, fun f hf f' hf' => ?_⟩
  · cases o.leftover with
    | none => exact .nil
    | some file => exact List.pairwise_singleton _ _
  · obtain ⟨c, hc, rfl⟩ := List.mem_map.mp hf
    exact h.leftover f' (Option.mem_toList.mp hf') c hc

theorem preparedManifest_describes (F : ChunkFormats) (c : PrepareCall)
    (hlen : c.data.length < 2 ^ 64) :
    Describes F.sha (preparedManifest F c) c.data DEFAULT_CHUNK_SIZE (partsOf c.data) := by
  have h := buildManifest_describes F.sha c.filename c.mime hlen DEFAULT_CHUNK_SIZE
  exact ⟨h.total, h.numbered, h.sizes, h.hashes, h.full, h.bounded, h.sum, h.joined⟩

/-- **A file that has been prepared can be read.** -/
theorem Prepared.readable {c : PrepareCall} {d' : ChunkDevice Key} (h : Prepared F path d c d')
    (hF : F.cipher.Lawful) (hlen : c.data.length < 2 ^ 64) : Readable F path c.data d' := by
  obtain ⟨chunks, hencrypt, hback⟩ :=
    decryptChunks_encryptChunks (H := F.sha) hF h.accepts c.fileKey c.nonces
  have hchunks : encryptChunks F.cipher F.sha c.fileKey c.nonces (partsOf c.data) =
      .ok ((partsOf c.data).zipIdx.map (encrypted F.cipher F.sha c.fileKey c.nonces)) :=
    mapM_eq_pure fun part hmem =>
      encryptChunk_accepted (h.accepts part.1 (List.fst_mem_of_mem_zipIdx hmem)) c.fileKey
        c.nonces part.2
  obtain rfl := Except.ok.inj (hchunks.symm.trans hencrypt)
  have hdescribes := preparedManifest_describes F c hlen
  rw [hdescribes.joined] at hback
  rw [h.device]
  refine ⟨preparedManifest F c, c.fileKey, _, ?_, hdescribes, rfl, ?_,
    fun i chunk hchunk => ?_, hback⟩
  · rw [Table.lookup_upsert_const, if_pos rfl]
    exact Codec.dec_enc ..
  · have hsizes := congrArg List.length hdescribes.sizes
    rw [List.length_map, List.length_map] at hsizes
    rw [List.length_map, List.length_zipIdx, hsizes]
  · rw [List.getElem?_map, Option.map_eq_some_iff] at hchunk
    obtain ⟨part, hpart, rfl⟩ := hchunk
    obtain rfl : part.2 = i := by
      rw [List.getElem?_zipIdx, Option.map_eq_some_iff] at hpart
      obtain ⟨piece, -, rfl⟩ := hpart
      exact Nat.zero_add i
    have hin : (join (storageRootForDb path) (preparedFile (contentHash F.sha c.data) part.2),
        F.chunkJson.enc (encrypted F.cipher F.sha c.fileKey c.nonces part)) ∈
          written (c.outcome F path d.store.settings) := by
      rw [h.files]
      exact List.mem_map.mpr ⟨part, List.mem_of_getElem? hpart, rfl⟩
    show ((c.outcome F path d.store.settings).files _).lookup (partPlace F path c.data part.2) >>=
      F.chunkJson.dec = _
    rw [files_eq, show partPlace F path c.data part.2 = place _ from rfl,
      writeAll_lookup (written_apart (prepare_apart F c path _)) hin]
    exact Codec.dec_enc ..

/-! ## 3. What an event leaves alone -/

/-- The event writes no file under the names of the parts: a request that is stored elsewhere, or
    not at all; a call for another file, or one that is refused before anything is written. -/
def Untouching (F : ChunkFormats) (path : String) (data : Bytes) (d : ChunkDevice Key) :
    StoreEvent → Prop
  | .prepare c => contentHash F.sha c.data = contentHash F.sha data → c.passed d = none
  | .receive a => ∀ file ∈ written (a.outcome F d), ¬ IsPart F path data (place file.1)
  | .list _ => True

/-- The cleanup of the event, if it has one, is not later than the expiry. -/
def InTime (expiresAt : Option Int64) : StoreEvent → Prop
  | .prepare c => ∀ t ∈ expiresAt, c.cleanup.nowMs ≤ t
  | .receive _ => True
  | .list c => ∀ t ∈ expiresAt, c.cleanup.nowMs ≤ t

/-- Rows that are left by a loop of removals were there before. -/
theorem removeAll_rows (c : Cleanup) (es : List (String × String))
    (s : Table String StoredChunk × Disk Bytes) {hash : String} {row : StoredChunk}
    (h : (es.foldl (removeExpired c) s).1.lookup hash = some row) : s.1.lookup hash = some row := by
  induction es generalizing s with
  | nil => exact h
  | cons e rest ih =>
    have hstep := ih _ h
    unfold removeExpired at hstep
    simp only at hstep
    split at hstep
    · by_cases hk : hash = e.1
      · rw [hk, AList.lookup_erase] at hstep
        cases hstep
      · rwa [AList.lookup_erase_ne hk] at hstep
    · exact hstep

theorem cleanup_rows (c : Cleanup) (s : Table String StoredChunk × Disk Bytes) {hash : String}
    {row : StoredChunk} (h : (cleanupExpiredStorage c s).1.lookup hash = some row) :
    s.1.lookup hash = some row := by
  unfold cleanupExpiredStorage at h
  split at h
  · exact h
  · exact removeAll_rows c _ s h

theorem removeAll_keeps (c : Cleanup) {es : List (String × String)} {p : Location}
    (h : ∀ e ∈ es, place e.2 ≠ p) (s : Table String StoredChunk × Disk Bytes) :
    (es.foldl (removeExpired c) s).2.lookup p = s.2.lookup p := by
  induction es generalizing s with
  | nil => rfl
  | cons e rest ih =>
    refine (ih (fun e' h' => h e' (List.mem_cons_of_mem _ h')) _).trans ?_
    unfold removeExpired
    simp only
    split
    · exact AList.lookup_erase_ne (Ne.symm (h e List.mem_cons_self))
    · rfl

/-- The cleanup leaves a file that no expired row names. -/
theorem cleanup_keeps {c : Cleanup} {s : Table String StoredChunk × Disk Bytes} {p : Location}
    (h : ∀ hash row, s.1.lookup hash = some row → place row.path = p →
      expired c.nowMs row = false) :
    (cleanupExpiredStorage c s).2.lookup p = s.2.lookup p := by
  unfold cleanupExpiredStorage expiredStoredChunks
  cases c.selectFault with
  | some e => rfl
  | none =>
    refine removeAll_keeps c (fun e he hplace => ?_) s
    obtain ⟨r, hr, rfl⟩ := List.mem_map.mp he
    obtain ⟨hmem, hexpired⟩ := List.mem_filter.mp hr
    rw [h r.1 r.2 (AList.mem_lookup_iff.mpr hmem) hplace] at hexpired
    cases hexpired

/-- A row after a call is one from before, or is at a path at which the call has written. -/
theorem rows_lookup {o : Outcome} {chunks : Table String StoredChunk} {hash : String}
    {row : StoredChunk} (h : (o.rows chunks).lookup hash = some row) :
    chunks.lookup hash = some row ∨
      ∃ c ∈ o.saved, row.path = c.row.path ∧ row.expiresAt = c.row.expiresAt := by
  unfold Outcome.rows at h
  generalize o.saved = saved at h ⊢
  induction saved generalizing chunks with
  | nil => exact .inl h
  | cons c rest ih =>
    rcases ih h with hrow | ⟨c', hc', hsame⟩
    · rw [saveRow, Table.lookup_upsert] at hrow
      split at hrow
      · right
        refine ⟨c, List.mem_cons_self, ?_⟩
        cases hold : chunks.lookup c.hash with
        | none =>
          rw [hold] at hrow
          cases hrow
          exact ⟨rfl, rfl⟩
        | some old =>
          rw [hold] at hrow
          cases hrow
          exact ⟨rfl, rfl⟩
      · exact .inl hrow
    · exact .inr ⟨c', List.mem_cons_of_mem _ hc', hsame⟩

theorem written_of_saved {o : Outcome} {c : SavedChunk} (h : c ∈ o.saved) :
    (c.row.path, c.bytes) ∈ written o :=
  List.mem_append_left _ (List.mem_map_of_mem h)

/-! ### The events -/

/-- Two files whose contents have different hashes have no name in common. -/
theorem partPlace_hash {i j : Nat} {other : Bytes}
    (h : partPlace F path other i = partPlace F path data j) :
    contentHash F.sha other = contentHash F.sha data := by
  have hnames : preparedFile (contentHash F.sha other) i =
      preparedFile (contentHash F.sha data) j := by
    unfold partPlace at h
    rw [(preparedFile_isName (contentHash_isName F.sha other) i).place_join_eq,
      (preparedFile_isName (contentHash_isName F.sha data) j).place_join_eq] at h
    exact List.singleton_injective (List.append_cancel_left (Location.mk.inj h).2)
  have hlists := congrArg String.toList hnames
  simp only [preparedFile, String.toList_append, List.append_assoc] at hlists
  have hlength : ∀ bytes, (contentHash F.sha bytes).toList.length = 64 := fun bytes => by
    rw [contentHash, hexString_length, F.sha.length_digest]
  exact String.toList_injective
    (List.append_inj hlists ((hlength other).trans (hlength data).symm)).1

/-- A call for another file writes none of the parts. -/
theorem prepare_elsewhere {c : PrepareCall} (settings : StorageSettings)
    (h : contentHash F.sha c.data ≠ contentHash F.sha data) :
    ∀ file ∈ written (c.outcome F path settings), ¬ IsPart F path data (place file.1) := by
  have hat : ∀ {p : String},
    (∃ i, p = join (storageRootForDb path) (preparedFile (contentHash F.sha c.data) i)) →
      ¬ IsPart F path data (place p) := by
    rintro p ⟨i, rfl⟩ ⟨j, -, hplace⟩
    exact h (partPlace_hash hplace)
  intro file hfile
  unfold PrepareCall.outcome PrepareCall.outcomeOf at hfile
  simp only at hfile
  split at hfile
  · cases hfile
  · rcases List.mem_append.mp hfile with hfile | hfile
    · obtain ⟨chunk, hchunk, rfl⟩ := List.mem_map.mp hfile
      obtain ⟨i, -, hpath⟩ := storedChunks_paths F c _ _ _ _ _ hchunk
      exact hat ⟨i, hpath⟩
    · obtain ⟨⟨i, -, hpath⟩, -⟩ :=
        storedChunks_leftover F c _ (contentHash_isName F.sha c.data) _ _ _
        (Option.mem_toList.mp hfile)
      exact hat ⟨i, hpath⟩

/-- What `storeFile` does to the manifests: at most one row, under the hash of its file. -/
theorem storeFile_manifests (F : ChunkFormats) (d : ChunkDevice Key) (c : PrepareCall)
    (pieces : List Bytes) (path : String) (store : ChunkStore) {k : String}
    (hk : k ≠ contentHash F.sha c.data) :
    (storeFile F d c pieces path store).2.manifests.lookup k = d.manifests.lookup k := by
  have hclose : ∀ (store : ChunkStore) (manifests : Table String String) (disk : Disk Bytes),
      manifests.lookup k = d.manifests.lookup k →
        (d.close path store manifests disk).manifests.lookup k = d.manifests.lookup k := by
    intro store manifests disk h
    unfold ChunkDevice.close
    split
    · rfl
    · exact h
  unfold storeFile
  simp only [preparedManifest_contentHash]
  split
  · exact hclose _ _ _ rfl
  · split
    · exact hclose _ _ _ rfl
    · refine hclose _ _ _ ?_
      unfold saveFileManifest
      split
      · rfl
      · exact (Table.lookup_upsert_const ..).trans (if_neg hk)

/-- What an event leaves of the file: no row comes to name a part, and a part that only rows with
    one expiry name stays, if the event is in time for that. -/
structure Spared (F : ChunkFormats) (path : String) (data : Bytes) (d : ChunkDevice Key)
    (e : StoreEvent) (d' : ChunkDevice Key) : Prop where
  app : d'.app = d.app
  manifest : d'.manifests.lookup (contentHash F.sha data) =
    d.manifests.lookup (contentHash F.sha data)
  rows : ∀ hash row, d'.store.chunks.lookup hash = some row → IsPart F path data (place row.path) →
    d.store.chunks.lookup hash = some row
  files : ∀ expiresAt, InTime expiresAt e → ∀ p, IsPart F path data p →
    (∀ hash row, d.store.chunks.lookup hash = some row → place row.path = p →
    row.expiresAt = expiresAt) →
    d'.disk.lookup p = d.disk.lookup p

theorem Spared.same (F : ChunkFormats) (path : String) (data : Bytes) (d : ChunkDevice Key)
    (e : StoreEvent) : Spared F path data d e d where
  app := rfl
  manifest := rfl
  rows _ _ h _ := h
  files _ _ _ _ _ := rfl

/-- A row with that expiry has not expired. -/
theorem not_expired {expiresAt : Option Int64} {nowMs : Int64} (h : ∀ t ∈ expiresAt, nowMs ≤ t)
    {row : StoredChunk} (hrow : row.expiresAt = expiresAt) : expired nowMs row = false := by
  unfold expired
  rw [hrow]
  cases expiresAt with
  | none => rfl
  | some t => exact decide_eq_false (Int64.not_lt.mpr (h t rfl))

/-- The parts after files have been written elsewhere. -/
theorem rows_spared {o : Outcome} (h : ∀ file ∈ written o, ¬ IsPart F path data (place file.1))
    {chunks : Table String StoredChunk} {hash : String} {row : StoredChunk}
    (hrow : (o.rows chunks).lookup hash = some row) (hpart : IsPart F path data (place row.path)) :
    chunks.lookup hash = some row := by
  rcases rows_lookup hrow with hrow | ⟨c, hc, hpath, -⟩
  · exact hrow
  · exact absurd (hpath ▸ hpart) (h _ (written_of_saved hc))

theorem files_spared {o : Outcome} (h : ∀ file ∈ written o, ¬ IsPart F path data (place file.1))
    {p : Location} (hpart : IsPart F path data p) (disk : Disk Bytes) :
    (o.files disk).lookup p = disk.lookup p := by
  rw [files_eq]
  exact writeAll_lookup_ne (fun file hfile hplace => h file hfile (hplace ▸ hpart)) disk

theorem prepare_spares {c : PrepareCall} (hpath : path ≠ MEMORY) (happ : d.app.dbPath = some path)
    (h : Untouching F path data d (.prepare c)) :
    Spared F path data d (.prepare c) (prepareEncryptedFile F d c).2 := by
  cases hpassed : c.passed d with
  | none =>
    have hsame : (prepareEncryptedFile F d c).2 = d := by
      rcases prepare_cases F d c with heq | ⟨p, store, manifests, hpasses, -⟩
      · exact heq
      · cases hpasses.passed.symm.trans hpassed
    rw [hsame]
    exact .same F path data d _
  | some opened =>
    obtain ⟨p, store⟩ := opened
    have hpasses := passes_of_passed hpassed
    have hother : contentHash F.sha c.data ≠ contentHash F.sha data := fun heq => by
      cases (h heq).symm.trans hpassed
    obtain rfl : p = path := Option.some.inj ((openStore_path hpasses.opened).symm.trans happ)
    obtain rfl := openStore_onDisk hpasses.opened hpath
    have helsewhere : ∀ file ∈ written (c.outcome F p d.store.settings),
        ¬ IsPart F p data (place file.1) :=
      prepare_elsewhere d.store.settings hother
    have hmanifest :=
      storeFile_manifests F d c (splitChunks c.data DEFAULT_CHUNK_SIZE) p d.store hother.symm
    obtain ⟨manifests, hstored⟩ :=
      storeFile_outcome F d c (splitChunks c.data DEFAULT_CHUNK_SIZE) p d.store
    rw [← hpasses.prepare] at hmanifest hstored
    rw [close_onDisk hpath] at hstored
    refine ⟨by rw [hstored], hmanifest, fun hash row hrow hpart => ?_,
      fun expiresAt htime q hpart hrows => ?_⟩
    · rw [hstored] at hrow
      exact cleanup_rows c.cleanup _ (rows_spared helsewhere hrow hpart)
    · rw [hstored]
      refine (files_spared helsewhere hpart _).trans (cleanup_keeps fun hash row hrow hplace => ?_)
      exact not_expired htime (hrows hash row hrow hplace)

theorem receive_spares {a : ChunkArrival} (h : Untouching F path data d (.receive a)) :
    Spared F path data d (.receive a) (receiveChunk F d a) := by
  obtain ⟨loop, heq⟩ := receive_outcome F d a
  rw [heq]
  exact
    { app := rfl
      manifest := rfl
      rows := fun hash row hrow hpart => rows_spared h hrow hpart
      files := fun _ _ p hpart _ => files_spared h hpart d.disk }

theorem list_spares {c : ListCall} (hpath : path ≠ MEMORY) (happ : d.app.dbPath = some path) :
    Spared F path data d (.list c) (listStoredChunks d c).2 := by
  rcases list_cases d c with heq | ⟨p, store, hopen, heq⟩
  · rw [heq]
    exact .same F path data d _
  · obtain rfl : p = path := Option.some.inj ((openStore_path hopen).symm.trans happ)
    obtain rfl := openStore_onDisk hopen hpath
    rw [heq, close_onDisk hpath]
    refine ⟨rfl, rfl, fun hash row hrow _ => cleanup_rows c.cleanup _ hrow,
      fun expiresAt htime q _ hrows => ?_⟩
    exact cleanup_keeps fun hash row hrow hplace => not_expired htime (hrows hash row hrow hplace)

/-- **An event that keeps to its place spares the file.** -/
theorem event_spares {e : StoreEvent} (hpath : path ≠ MEMORY) (happ : d.app.dbPath = some path)
    (h : Untouching F path data d e) : Spared F path data d e (e.run F d) := by
  cases e with
  | prepare c => exact prepare_spares hpath happ h
  | receive a => exact receive_spares h
  | list c => exact list_spares hpath happ

/-! ## 4. Every run -/

/-- An event happens. -/
def happens (F : ChunkFormats) (d : ChunkDevice Key) (e : StoreEvent)
    (d' : ChunkDevice Key) : Prop :=
  d' = e.run F d

/-- A profile on disk with an empty store. -/
def NewStore (path : String) (d : ChunkDevice Key) : Prop :=
  d.app.dbPath = some path ∧ d.store.chunks = ∅

/-- No row names a part. -/
structure Unnamed (F : ChunkFormats) (path : String) (data : Bytes)
    (d : ChunkDevice Key) : Prop where
  app : d.app.dbPath = some path
  rows : ∀ hash row, d.store.chunks.lookup hash = some row → ¬ IsPart F path data (place row.path)

theorem unnamed_reach (hpath : path ≠ MEMORY)
    (hr : Reach (NewStore path) (Guarded (Untouching F path data) (happens F)) d) :
    Unnamed F path data d := by
  refine hr.inv (fun d h => ?_) fun d e d' h hstep => ?_
  · refine ⟨h.1, fun hash row hrow => ?_⟩
    rw [h.2, AList.lookup_empty] at hrow
    cases hrow
  · obtain ⟨huntouched, rfl⟩ := hstep
    have hspared := event_spares hpath h.app huntouched
    exact ⟨hspared.app ▸ h.app, fun hash row hrow hpart => h.rows hash row
      (hspared.rows hash row hrow hpart) hpart⟩

/-- **The invariant afterwards**: the file can be read, and the rows that name its parts expire
    together. -/
structure Held (F : ChunkFormats) (path : String) (data : Bytes) (expiresAt : Option Int64)
    (d : ChunkDevice Key) : Prop where
  app : d.app.dbPath = some path
  readable : Readable F path data d
  rows : ∀ hash row, d.store.chunks.lookup hash = some row → IsPart F path data (place row.path) →
    row.expiresAt = expiresAt

theorem Held.step {expiresAt : Option Int64} {e : StoreEvent} (hpath : path ≠ MEMORY)
    (h : Held F path data expiresAt d) (huntouched : Untouching F path data d e)
    (htime : InTime expiresAt e) : Held F path data expiresAt (e.run F d) := by
  have hspared := event_spares hpath h.app huntouched
  refine ⟨hspared.app ▸ h.app, h.readable.frame hspared.manifest fun p hpart => ?_,
    fun hash row hrow hpart => h.rows hash row (hspared.rows hash row hrow hpart) hpart⟩
  exact hspared.files expiresAt htime p hpart fun hash row hrow hplace =>
    h.rows hash row hrow (hplace ▸ hpart)

theorem storedChunks_expiry {c : PrepareCall} {root fileHash : String} {expiresAt : Option Int64}
    {index : Nat} {pieces : List Bytes} {chunk : SavedChunk}
    (h : chunk ∈ (storedChunks F c root fileHash expiresAt index pieces).saved) :
    chunk.row.expiresAt = expiresAt := by
  induction pieces generalizing index with
  | nil => cases h
  | cons piece rest ih =>
    unfold storedChunks at h
    simp only at h
    split at h
    · cases h
    · split at h
      · cases h
      · cases h
      · cases h
      · rcases List.mem_cons.mp h with rfl | h
        · rfl
        · exact ih h

/-- The call itself, where no row has named a part. -/
theorem Prepared.held {c : PrepareCall} {d' : ChunkDevice Key} (h : Prepared F path d c d')
    (hfresh : Unnamed F path c.data d) (hF : F.cipher.Lawful) (hlen : c.data.length < 2 ^ 64) :
    Held F path c.data (expiry d.store.settings c.nowMs) d' := by
  refine ⟨?_, h.readable hF hlen, fun hash row hrow hpart => ?_⟩
  · rw [h.device]
    exact hfresh.app
  · rw [h.device] at hrow
    rcases rows_lookup hrow with hrow | ⟨chunk, hchunk, -, hexpiry⟩
    · exact absurd hpart (hfresh.rows hash row (cleanup_rows c.cleanup _ hrow))
    · rw [hexpiry]
      unfold PrepareCall.outcome PrepareCall.outcomeOf at hchunk
      simp only at hchunk
      split at hchunk
      · cases hchunk
      · exact storedChunks_expiry hchunk

/-- **A prepared file stays readable until its retention ends**, in every run in which no other
    event writes under the names of its parts. -/
theorem stays_readable {c : PrepareCall} {manifest : FileManifest} {d' : ChunkDevice Key}
    (hF : F.cipher.Lawful) (hpath : path ≠ MEMORY) (hlen : c.data.length < 2 ^ 64)
    (hbefore : Reach (NewStore path) (Guarded (Untouching F path c.data) (happens F)) d)
    (hok : (prepareEncryptedFile F d c).1 = .ok manifest)
    (hafter : Reach (fun d' => d' = (prepareEncryptedFile F d c).2)
      (Guarded (fun d₁ e => Untouching F path c.data d₁ e ∧
        InTime (expiry d.store.settings c.nowMs) e) (happens F)) d') :
    Readable F path c.data d' := by
  have hfresh := unnamed_reach hpath hbefore
  have hheld := (prepared hfresh.app hpath hok).held hfresh hF hlen
  have hkept : Held F path c.data (expiry d.store.settings c.nowMs) d' := by
    refine hafter.inv (fun d₁ heq => heq ▸ hheld) fun d₁ e d₂ h hstep => ?_
    obtain ⟨⟨huntouched, htime⟩, rfl⟩ := hstep
    exact h.step hpath huntouched htime
  exact hkept.readable

/-- The chunks are listed, and the store cleaned up, in the last millisecond of the retention. -/
def lastList : ListCall :=
  { lateList with cleanup := { lateList.cleanup with nowMs := 604800000 } }

/-- A file of one zero, until the end. -/
theorem stays_readable_one :
    Readable sampleFormats samplePath [0]
      (listStoredChunks (prepareEncryptedFile sampleFormats emptyDevice (ChunkQuota.zeroFile 1)).2
        lastList).2 := by
  have hok : (prepareEncryptedFile sampleFormats emptyDevice (ChunkQuota.zeroFile 1)).1 =
      .ok (preparedManifest sampleFormats (ChunkQuota.zeroFile 1)) := rfl
  have hlist : Guarded (fun d₁ e => Untouching sampleFormats samplePath [0] d₁ e ∧
      InTime (expiry emptyDevice.store.settings 0) e) (happens sampleFormats)
        (prepareEncryptedFile sampleFormats emptyDevice (ChunkQuota.zeroFile 1)).2 (.list lastList)
        (listStoredChunks (prepareEncryptedFile sampleFormats emptyDevice (ChunkQuota.zeroFile 1)).2
          lastList).2 := by
    refine ⟨⟨trivial, fun t ht => ?_⟩, rfl⟩
    cases ht
    decide
  exact stays_readable plain32_lawful (by decide) (by decide)
    (.start emptyDevice ⟨rfl, rfl⟩) hok (.step _ _ _ (.start _ rfl) hlist)

end AlterChat.PreparedFile
