import AlterChat.Tauri.Manifest
import Mathlib.Algebra.Order.BigOperators.Group.List

/-!
# The storage quota

`prepare_encrypted_file` and the request `FileChunk` compare the bytes that are stored, and the
bytes they are handed, with the quota. What the first one stores are the JSON texts of encrypted
chunks; and the second one counts nothing as stored where the sum cannot be read.

* §1 sums over the rows, §2 what a call adds;
* §3 `quota_kept` -- when the quota is kept in every run;
* §4 `quota_kept_length` -- it is where each prepared file is short enough;
* §5 files of zeros: one that fits, and one that exceeds the quota.
-/

namespace AlterChat.ChunkQuota

open Lib Governance Commands Identity Profile Inbound Chunks ChunkStorage

variable {Key : Type}

/-! ## 1. Sums -/

/-- What `stored_chunk_bytes` sums up. -/
def storedBytes (chunks : Table String StoredChunk) : Int := chunks.total fun row => row.size.toInt

/-- `quota_mb.max(1) * 1024 * 1024`, where nothing overflows. -/
def quota (settings : StorageSettings) : Int := max settings.quotaMb.toInt 1 * 1024 * 1024

/-- No size is negative. -/
def Sized (chunks : Table String StoredChunk) : Prop :=
  ∀ hash row, chunks.lookup hash = some row → 0 ≤ row.size.toInt

theorem bmod_le_self {x : Int} (h : 0 ≤ x) : x.bmod (2 ^ 64) ≤ x := by
  rw [Int.bmod_def]
  split <;> omega

/-- **The quota in 64 bits is at most the quota.** -/
theorem quotaBytes_le (settings : StorageSettings) :
    (quotaBytes settings).toInt ≤ quota settings := by
  have hkilo : (1024 : Int64).toInt = 1024 := by decide
  have hquota : (quotaBytes settings).toInt = (quota settings).bmod (2 ^ 64) := by
    rw [quotaBytes, Int64.toInt_mul, Int64.toInt_mul, Int.bmod_mul_bmod, toInt_max_one, hkilo]
    rfl
  rw [hquota]
  refine bmod_le_self ?_
  unfold quota
  omega

theorem storedChunkBytes_ok {f : ChunkFaults} {store : ChunkStore} {current : Int64}
    (h : storedChunkBytes f store = .ok current) : current.toInt = storedBytes store.chunks := by
  unfold storedChunkBytes at h
  split at h
  · cases h
  · simp only at h
    split at h
    · next hrange =>
      cases h
      exact Int64.toInt_ofInt_of_le hrange.1 hrange.2
    · cases h

theorem storedChunkBytes_of_range {f : ChunkFaults} {store : ChunkStore} {current : Int64}
    (hf : f .storedChunkBytes = none) (h : storedBytes store.chunks = current.toInt) :
    storedChunkBytes f store = .ok current := by
  have hmin := current.le_toInt
  have hmax := current.toInt_lt
  unfold storedChunkBytes
  rw [hf]
  simp only
  have hsum : (store.chunks.entries.map fun row => row.2.size.toInt).sum = current.toInt := h
  rw [hsum, if_pos ⟨hmin, hmax⟩, Int64.ofInt_toInt]

section

variable {chunks : Table String StoredChunk}

theorem storedBytes_erase_le (h : Sized chunks) (hash : String) :
    storedBytes (chunks.erase hash) ≤ storedBytes chunks := by
  have htotal : storedBytes chunks = _ := Table.total_eq_erase _ chunks hash
  cases hrow : chunks.lookup hash with
  | none =>
    rw [hrow, Option.elim_none, Int.add_zero] at htotal
    exact le_of_eq htotal.symm
  | some row =>
    rw [hrow, Option.elim_some] at htotal
    have hsize := h hash row hrow
    unfold storedBytes at htotal ⊢
    omega

theorem Sized.erase (h : Sized chunks) (hash : String) : Sized (chunks.erase hash) := by
  intro hash' row hrow
  by_cases he : hash' = hash
  · subst he
    rw [AList.lookup_erase] at hrow
    cases hrow
  · rw [AList.lookup_erase_ne he] at hrow
    exact h _ _ hrow

/-- The row that a save leaves has the size of the chunk. -/
theorem saveRow_size (c : SavedChunk) :
    ((chunks.lookup c.hash).elim c.row fun row =>
      { row with path := c.row.path, size := c.row.size, expiresAt := c.row.expiresAt }).size =
        c.row.size := by
  cases chunks.lookup c.hash <;> rfl

theorem storedBytes_saveRow (chunks : Table String StoredChunk) (c : SavedChunk) :
    storedBytes (saveRow chunks c) = storedBytes (chunks.erase c.hash) + c.row.size.toInt := by
  have htotal : storedBytes (saveRow chunks c) = _ := Table.total_insert _ chunks c.hash _
  rw [saveRow_size] at htotal
  exact htotal

theorem Sized.saveRow (h : Sized chunks) {c : SavedChunk} (hc : 0 ≤ c.row.size.toInt) :
    Sized (saveRow chunks c) := by
  intro hash row hrow
  rw [ChunkStorage.saveRow, Table.lookup_upsert] at hrow
  split at hrow
  · cases hrow
    rw [saveRow_size]
    exact hc
  · exact h _ _ hrow

/-- **The rows after a call**: at most the sizes of its chunks are added. -/
theorem rows_le (o : Outcome) (h : Sized chunks) (hsaved : ∀ c ∈ o.saved, 0 ≤ c.row.size.toInt) :
    Sized (o.rows chunks) ∧ storedBytes (o.rows chunks) ≤
      storedBytes chunks + (o.saved.map fun c => c.row.size.toInt).sum := by
  unfold Outcome.rows
  generalize o.saved = saved at hsaved
  induction saved generalizing chunks with
  | nil => exact ⟨h, by simp⟩
  | cons c rest ih =>
    have hc := hsaved c List.mem_cons_self
    obtain ⟨hsized, hle⟩ := ih (h.saveRow hc) fun c hc => hsaved c (List.mem_cons_of_mem _ hc)
    refine ⟨hsized, ?_⟩
    have hrow := storedBytes_saveRow chunks c
    have herase := storedBytes_erase_le h c.hash
    rw [List.foldl_cons, List.map_cons, List.sum_cons]
    omega

/-- **A cleanup adds nothing.** -/
theorem cleanup_le (c : Cleanup) {s : Table String StoredChunk × Disk Bytes} (h : Sized s.1) :
    Sized (cleanupExpiredStorage c s).1 ∧
      storedBytes (cleanupExpiredStorage c s).1 ≤ storedBytes s.1 := by
  unfold cleanupExpiredStorage
  cases expiredStoredChunks c s.1 with
  | error e => exact ⟨h, Int.le_refl _⟩
  | ok expired =>
    simp only
    induction expired generalizing s with
    | nil => exact ⟨h, Int.le_refl _⟩
    | cons e rest ih =>
      have hstep : Sized (removeExpired c s e).1 ∧
          storedBytes (removeExpired c s e).1 ≤ storedBytes s.1 := by
        unfold removeExpired
        simp only
        split
        · exact ⟨h.erase e.1, storedBytes_erase_le h e.1⟩
        · exact ⟨h, Int.le_refl _⟩
      obtain ⟨hsized, hle⟩ := ih hstep.1
      exact ⟨hsized, hle.trans hstep.2⟩

end

/-! ## 2. What a request adds -/

/-- No `Vec` is longer than this. -/
theorem toInt_ofNat {n : Nat} (h : (n : Int) < 2 ^ 63) : (Int64.ofNat n).toInt = n := by
  rw [← Int64.ofInt_eq_ofNat]
  exact Int64.toInt_ofInt_of_le (by omega) h

/-- **A chunk that is let through fits**, if the sum could be read and is not too large to add
    to. -/
theorem roomFor_fits {hashOf : Bytes → String} {f : ChunkFaults} {store : ChunkStore}
    {chunk : Chunk} {settings : StorageSettings} {current : Int64}
    (hroom : roomFor hashOf f store chunk = some settings)
    (hcurrent : storedChunkBytes f store = .ok current) (hlen : (chunk.data.length : Int) < 2 ^ 63)
    (hsum : -2 ^ 63 ≤ current.toInt + chunk.data.length ∧
      current.toInt + chunk.data.length < 2 ^ 63) :
    storedBytes store.chunks + chunk.data.length ≤ quota store.settings := by
  unfold roomFor at hroom
  split at hroom
  · cases hroom
  · unfold getStorageSettings at hroom
    split at hroom
    · cases hroom
    · next settings' hsettings =>
      split at hsettings
      · cases hsettings
      · cases hsettings
        simp only [hcurrent, Except.toOption, Option.getD_some] at hroom
        split at hroom
        · next hle =>
          rw [Int64.le_iff_toInt_le, Int64.toInt_add, toInt_ofNat hlen] at hle
          rw [Int.bmod_eq_of_le (by omega) (by omega)] at hle
          rw [← storedChunkBytes_ok hcurrent]
          exact hle.trans (quotaBytes_le store.settings)
        · cases hroom

/-! ## 3. The quota in every run -/

/-- The rows do not exceed the quota. -/
def WithinQuota (d : ChunkDevice Key) : Prop := storedBytes d.store.chunks ≤ quota d.store.settings

/-- What a prepared file adds, as JSON, fits what the cleanup leaves; and the sum is read before a
    chunk is taken. -/
def FitsQuota (F : ChunkFormats) (d : ChunkDevice Key) : StoreEvent → Prop
  | .prepare c => ∀ path store, Passes d c path store → path ≠ MEMORY →
      let left := (cleanupExpiredStorage c.cleanup (store.chunks, d.disk)).1
      let saved := (c.outcome F path store.settings).saved
      (∀ chunk ∈ saved, (chunk.bytes.length : Int) < 2 ^ 63) ∧
        storedBytes left + (saved.map fun chunk => (chunk.bytes.length : Int)).sum ≤
        quota store.settings
  | .receive a => ∀ chunk ∈ (a.outcome F d).saved, ∃ current,
      storedChunkBytes a.faults d.store = .ok current ∧ current.toInt + chunk.bytes.length < 2 ^ 63
  | .list _ => True

structure QuotaInv (d : ChunkDevice Key) : Prop where
  sized : Sized d.store.chunks
  within : WithinQuota d

variable {F : ChunkFormats} {d : ChunkDevice Key}

theorem Sized.storedBytes_nonneg {chunks : Table String StoredChunk} (h : Sized chunks) :
    0 ≤ storedBytes chunks := by
  refine List.sum_nonneg fun n hn => ?_
  obtain ⟨r, hr, rfl⟩ := List.mem_map.mp hn
  exact h r.1 r.2 (AList.mem_lookup_iff.mpr hr)

theorem QuotaInv.prepare (h : QuotaInv d) (c : PrepareCall) (hfits : FitsQuota F d (.prepare c)) :
    QuotaInv (prepareEncryptedFile F d c).2 := by
  rcases prepare_cases F d c with heq | ⟨path, store, manifests, hpasses, heq⟩
  · rw [heq]
    exact h
  · rw [heq]
    by_cases hpath : path = MEMORY
    · subst hpath
      rw [close_memory]
      exact ⟨h.sized, h.within⟩
    · obtain ⟨hlen, hsum⟩ := hfits path store hpasses hpath
      obtain rfl := openStore_onDisk hpasses.opened hpath
      obtain ⟨hclean, -⟩ := cleanup_le c.cleanup (s := (d.store.chunks, d.disk)) h.sized
      have hsize : ∀ chunk ∈ (c.outcome F path d.store.settings).saved,
          chunk.row.size.toInt = chunk.bytes.length := by
        intro chunk hchunk
        rw [prepare_size hchunk, toInt_ofNat (hlen chunk hchunk)]
      obtain ⟨hsized, hle⟩ :=
        rows_le (c.outcome F path d.store.settings) hclean fun chunk hchunk => by
        rw [hsize chunk hchunk]
        exact Int.natCast_nonneg _
      rw [List.map_congr_left hsize] at hle
      rw [close_onDisk hpath]
      exact ⟨hsized, hle.trans hsum⟩

theorem QuotaInv.receive (h : QuotaInv d) (a : ChunkArrival) (hfits : FitsQuota F d (.receive a)) :
    QuotaInv (receiveChunk F d a) := by
  obtain ⟨loop, heq⟩ := receive_outcome F d a
  rw [heq]
  cases hsaved : (a.outcome F d).saved with
  | nil =>
    have hrows : (a.outcome F d).rows d.store.chunks = d.store.chunks := by
      rw [Outcome.rows, hsaved]
      rfl
    refine ⟨?_, ?_⟩
    · simpa only [hrows] using h.sized
    · simpa only [WithinQuota, hrows] using h.within
  | cons chunk rest =>
    have hmem : chunk ∈ (a.outcome F d).saved := by
      rw [hsaved]
      exact List.mem_cons_self
    obtain ⟨settings, dbPath, hroom, rfl, hone⟩ := receive_saved hmem
    obtain ⟨current, hcurrent, hsum⟩ := hfits _ hmem
    replace hsum : current.toInt + a.chunk.data.length < 2 ^ 63 := hsum
    have hpos := h.sized.storedBytes_nonneg
    rw [← storedChunkBytes_ok hcurrent] at hpos
    have hlen : (a.chunk.data.length : Int) < 2 ^ 63 := by omega
    have hsize : (a.saves dbPath settings).row.size.toInt = a.chunk.data.length := toInt_ofNat hlen
    have hfit := roomFor_fits hroom hcurrent hlen ⟨by omega, hsum⟩
    obtain ⟨hsized, hle⟩ := rows_le (a.outcome F d) h.sized fun c hc => by
      rw [hone] at hc
      rw [List.mem_singleton.mp hc, hsize]
      exact Int.natCast_nonneg _
    rw [hone, List.map_singleton, List.sum_singleton, hsize] at hle
    exact ⟨hsized, hle.trans hfit⟩

theorem QuotaInv.list (h : QuotaInv d) (c : ListCall) : QuotaInv (listStoredChunks d c).2 := by
  rcases list_cases d c with heq | ⟨path, store, hopen, heq⟩
  · rw [heq]
    exact h
  · rw [heq]
    by_cases hpath : path = MEMORY
    · subst hpath
      rw [close_memory]
      exact ⟨h.sized, h.within⟩
    · obtain rfl := openStore_onDisk hopen hpath
      obtain ⟨hclean, hle⟩ := cleanup_le c.cleanup (s := (d.store.chunks, d.disk)) h.sized
      rw [close_onDisk hpath]
      exact ⟨hclean, hle.trans h.within⟩

/-- A device on which no chunk is stored. -/
def NoChunks (d : ChunkDevice Key) : Prop := d.store.chunks = ∅

/-- An event happens. -/
def happens (F : ChunkFormats) (d : ChunkDevice Key) (e : StoreEvent)
    (d' : ChunkDevice Key) : Prop :=
  d' = e.run F d

/-- **The quota is kept in every run** of which each step keeps to `FitsQuota`. -/
theorem quota_kept (h : Reach NoChunks (Guarded (FitsQuota F) (happens F)) d) : WithinQuota d := by
  have hinv : QuotaInv d := by
    refine h.inv (fun d hd => ?_) fun d e d' h hstep => ?_
    · rw [NoChunks] at hd
      refine ⟨fun hash row hrow => ?_, ?_⟩
      · rw [hd, AList.lookup_empty] at hrow
        cases hrow
      · rw [WithinQuota, hd]
        show (0 : Int) ≤ quota d.store.settings
        unfold quota
        omega
    · obtain ⟨hfits, rfl⟩ := hstep
      cases e with
      | prepare c => exact h.prepare c hfits
      | receive a => exact h.receive a hfits
      | list c => exact h.list c
  exact hinv.within

/-! ## 4. The length of a file -/

theorem contentHash_length (H : Sha256) (data : Bytes) :
    (contentHash H data).toList.length = 64 := by
  rw [contentHash, hexString_length, H.length_digest]

theorem hexDigit_lt {n : Nat} (h : n < 16) : (hexDigit n).toNat < 128 := by
  interval_cases n <;> decide

theorem contentHash_ascii (H : Sha256) (data : Bytes) :
    Codec.Ascii (contentHash H data).toList := by
  intro c hc
  rw [contentHash, hexString, String.toList_ofList] at hc
  obtain ⟨b, -, hc⟩ := List.mem_flatMap.mp hc
  have hb : b.toNat < 256 := b.toNat_lt
  rcases List.mem_cons.mp hc with rfl | hc
  · exact hexDigit_lt (by omega)
  · rw [List.mem_singleton.mp hc]
    exact hexDigit_lt (by omega)

/-- How long a chunk is in JSON. -/
theorem chunkJson_length (e : EncryptedChunk) (h : Codec.Ascii e.plaintextHash.toList) :
    (chunkJson.enc e).length = 53 + (Codec.decimal.enc e.index.toNat).length +
      (Codec.jsonBytes.enc e.nonce.toList).length + (Codec.jsonBytes.enc e.ciphertext).length +
      e.plaintextHash.toList.length := by
  have hindex : Codec.Ascii "\x7b\"index\":".toList := Codec.ascii_of_all (by decide)
  have hnonce : Codec.Ascii ",\"nonce\":".toList := Codec.ascii_of_all (by decide)
  have hciphertext : Codec.Ascii ",\"ciphertext\":".toList := Codec.ascii_of_all (by decide)
  have hhash : Codec.Ascii ",\"plaintext_hash\":\"".toList := Codec.ascii_of_all (by decide)
  have hend : Codec.Ascii "\"\x7d".toList := Codec.ascii_of_all (by decide)
  have hascii : Codec.Ascii (chunkText e) :=
    hindex.append <| (Codec.ascii_decimal _).append <| hnonce.append <|
      (Codec.ascii_jsonBytes _).append <|
      hciphertext.append <| (Codec.ascii_jsonBytes _).append <| hhash.append <| h.append hend
  have hlabels : "\x7b\"index\":".toList.length + ",\"nonce\":".toList.length +
      ",\"ciphertext\":".toList.length + ",\"plaintext_hash\":\"".toList.length +
      "\"\x7d".toList.length = 53 := by decide
  show (Codec.utf8.enc (String.ofList (chunkText e))).length = _
  rw [Codec.length_utf8 hascii]
  unfold chunkText
  simp only [List.length_append]
  omega

/-- **A format in which a byte takes four characters at most**, as it does in JSON, with a cipher
    that adds a tag. -/
structure JsonSized (F : ChunkFormats) : Prop where
  gcm : F.cipher.Gcm
  text : ∀ (e : EncryptedChunk) (plaintext : Bytes), e.plaintextHash = contentHash F.sha plaintext →
    (F.chunkJson.enc e).length ≤ 4 * e.ciphertext.length + 189

theorem sampleFormats_jsonSized : JsonSized sampleFormats where
  gcm := plain32_gcm
  text e plaintext hhash := by
    have hindex : (Codec.decimal.enc e.index.toNat).length ≤ 20 :=
      Codec.decimal_length_le (by decide) (Nat.lt_trans e.index.toNat_lt (by decide))
    have hnonce := Codec.jsonBytes_length_le e.nonce.toList
    have hciphertext := Codec.jsonBytes_length_le e.ciphertext
    rw [Vector.length_toList] at hnonce
    show (chunkJson.enc e).length ≤ _
    rw [chunkJson_length e (hhash ▸ contentHash_ascii _ _), hhash, contentHash_length]
    omega

/-- What a file of so many bytes becomes, at most. -/
def textBound (length : Nat) : Nat :=
  4 * length + 253 * ((length + DEFAULT_CHUNK_SIZE - 1) / DEFAULT_CHUNK_SIZE)

/-- The text of an encrypted piece. -/
theorem encryptChunk_length_le (hF : JsonSized F) {index : UInt64} {key : Key32} {nonce : Nonce}
    {piece : Bytes} {e : EncryptedChunk}
    (h : encryptChunk F.cipher F.sha index key nonce piece = .ok e) :
    (F.chunkJson.enc e).length ≤ 4 * (piece.length + 16) + 189 := by
  cases haccepts : F.cipher.accepts piece with
  | false =>
    rw [encryptChunk_refused haccepts] at h
    cases h
  | true =>
    rw [encryptChunk, Primitives.encrypt_of_accepts haccepts] at h
    cases h
    rw [← hF.gcm.seal_length key nonce piece]
    exact hF.text _ piece rfl

/-- The texts that the loop over the pieces stores. -/
theorem storedChunks_texts_le (hF : JsonSized F) (c : PrepareCall) (root fileHash : String)
    (expiresAt : Option Int64) (index : Nat) (pieces : List Bytes) :
    ((storedChunks F c root fileHash expiresAt index pieces).saved.map fun chunk =>
      (chunk.bytes.length : Int)).sum ≤ 4 * pieces.flatten.length + 253 * pieces.length := by
  induction pieces generalizing index with
  | nil => exact Int.le_refl 0
  | cons piece rest ih =>
    simp only [storedChunks, List.flatten_cons, List.length_append, List.length_cons]
    have hrest := ih (index + 1)
    cases hencrypt : encryptChunk F.cipher F.sha (UInt64.ofNat index) c.fileKey
      (c.nonces index) piece with
    | error e =>
      simp only [Outcome.nothing, List.map_nil, List.sum_nil]
      omega
    | ok encrypted =>
      have hlen := encryptChunk_length_le hF hencrypt
      simp only
      split
      · simp only [Outcome.nothing, List.map_nil, List.sum_nil]
        omega
      · simp only [List.map_nil, List.sum_nil]
        omega
      · simp only [List.map_nil, List.sum_nil]
        omega
      · simp only [List.map_cons, List.sum_cons]
        omega

/-- **A condition on the length of the file**: four bytes for each of its own, and 253 for each
    piece, fit what the cleanup leaves. -/
def FitsLength (F : ChunkFormats) (d : ChunkDevice Key) : StoreEvent → Prop
  | .prepare c => ∀ path store, Passes d c path store → path ≠ MEMORY →
      (textBound c.data.length : Int) < 2 ^ 63 ∧
        storedBytes (cleanupExpiredStorage c.cleanup (store.chunks, d.disk)).1 +
        textBound c.data.length ≤
          quota store.settings
  | e => FitsQuota F d e

theorem outcome_texts_le (hF : JsonSized F) (c : PrepareCall) (path : String)
    (settings : StorageSettings) :
    ((c.outcome F path settings).saved.map fun chunk => (chunk.bytes.length : Int)).sum ≤
      textBound c.data.length := by
  unfold PrepareCall.outcome PrepareCall.outcomeOf
  dsimp only
  split
  · exact Int.natCast_nonneg _
  · refine (storedChunks_texts_le hF ..).trans (le_of_eq ?_)
    have hsize : max DEFAULT_CHUNK_SIZE 1 = DEFAULT_CHUNK_SIZE := rfl
    rw [splitChunks_eq, hsize, chunks_flatten (by decide), chunks_length, textBound]
    push_cast
    rfl

theorem FitsLength.fits (hF : JsonSized F) {e : StoreEvent} (h : FitsLength F d e) :
    FitsQuota F d e := by
  cases e with
  | prepare c =>
    intro path store hpasses hpath left saved
    obtain ⟨hbound, hsum⟩ := h path store hpasses hpath
    have hle : (saved.map fun chunk => (chunk.bytes.length : Int)).sum ≤ textBound c.data.length :=
      outcome_texts_le hF c path store.settings
    refine ⟨fun chunk hchunk => ?_, le_trans (Int.add_le_add_left hle _) hsum⟩
    have hone :
        (chunk.bytes.length : Int) ≤ (saved.map fun chunk => (chunk.bytes.length : Int)).sum := by
      refine List.single_le_sum (fun n hn => ?_) _ (List.mem_map_of_mem hchunk)
      obtain ⟨c', -, rfl⟩ := List.mem_map.mp hn
      exact Int.natCast_nonneg _
    omega
  | receive a => exact h
  | list c => exact h

/-- **The quota is kept in every run** of which each prepared file is short enough. -/
theorem quota_kept_length (hF : JsonSized F)
    (h : Reach NoChunks (Guarded (FitsLength F) (happens F)) d) : WithinQuota d :=
  quota_kept (h.mono (fun _ hs => hs) fun _ _ _ hs => ⟨hs.1.fits hF, hs.2⟩)

/-! ## 5. Files of zeros -/

/-- A file of so many zeros is prepared. -/
def zeroFile (length : Nat) : PrepareCall where
  filename := "zeros"
  mime := none
  data := List.replicate length 0
  openFault := none
  faults _ := none
  cleanup := { nowMs := 0, selectFault := none, removes := fun _ => true, deletes := fun _ => true }
  os := .willing
  dirError := ""
  nowMs := 0
  fileKey := 0
  nonces _ := Vector.replicate 12 0
  saves _ _ := none
  manifestFault := none

/-- An encrypted piece of the zeros: with the key 0, the tag is 16 zeros more. -/
def encryptedZeros (index length : Nat) : EncryptedChunk where
  index := UInt64.ofNat index
  nonce := Vector.replicate 12 0
  ciphertext := List.replicate (length + 16) 0
  plaintextHash := contentHash sizeSha (List.replicate length 0)

theorem encryptChunk_zeros (index : Nat) {length : Nat} (h : length ≤ maxPlaintext) :
    encryptChunk plain32 sizeSha (UInt64.ofNat index) 0 (Vector.replicate 12 0)
    (List.replicate length 0) =
      .ok (encryptedZeros index length) := by
  have htag : tag32 0 = List.replicate 16 0 := by decide
  have hsealed : plain32.encrypt 0 (Vector.replicate 12 0) (List.replicate length 0) =
      some (List.replicate (length + 16) 0) := by
    have haccepts : plain32.accepts (List.replicate length (0 : UInt8)) = true := by
      show decide ((List.replicate length (0 : UInt8)).length ≤ maxPlaintext) = true
      rw [List.length_replicate]
      exact decide_eq_true h
    rw [Primitives.encrypt_of_accepts haccepts]
    show some (List.replicate length (0 : UInt8) ++ tag32 0) = _
    rw [htag, List.replicate_append_replicate]
  rw [encryptChunk, hsealed]
  rfl

/-- The JSON of `n + 1` zeros. -/
theorem jsonBytes_zeros (n : Nat) :
    (Codec.jsonBytes.enc (List.replicate (n + 1) 0)).length = 2 * n + 3 := by
  have hinner : (Codec.commaSeparated (List.replicate (n + 1) 0)).length = 2 * n + 1 := by
    induction n with
    | zero => rfl
    | succ n ih =>
      rw [List.replicate_succ, List.replicate_succ, Codec.commaSeparated_cons, List.length_append,
        List.length_cons, ← List.replicate_succ, ih]
      show 1 + (2 * n + 1 + 1) = _
      omega
  show (Codec.commaSeparated (List.replicate (n + 1) 0) ++ [']']).length + 1 = _
  rw [List.length_append, hinner]
  rfl

/-- How long an encrypted piece of zeros is in JSON: two characters for a byte. -/
theorem encryptedZeros_length (length : Nat) {index : Nat} (h : index < 10) :
    (chunkJson.enc (encryptedZeros index length)).length = 2 * length + 176 := by
  have hindex : (Codec.decimal.enc (UInt64.ofNat index).toNat).length = 1 := by
    rw [UInt64.toNat_ofNat_of_lt' (by simp only [UInt64.size]; omega)]
    show (toString index).toList.length = 1
    rw [Nat.toString_eq_repr, Nat.toList_repr, Nat.toDigits_of_lt_base h]
    rfl
  have hnonce : (Codec.jsonBytes.enc (Vector.replicate 12 (0 : UInt8)).toList).length = 25 :=
    jsonBytes_zeros 11
  have hhash : (contentHash sizeSha (List.replicate length 0)).toList.length = 64 :=
    contentHash_length sizeSha _
  calc (chunkJson.enc (encryptedZeros index length)).length
      = 53 + (Codec.decimal.enc (UInt64.ofNat index).toNat).length +
          (Codec.jsonBytes.enc (Vector.replicate 12 (0 : UInt8)).toList).length +
          (Codec.jsonBytes.enc (List.replicate (length + 15 + 1) 0)).length +
          (contentHash sizeSha (List.replicate length 0)).toList.length :=
        chunkJson_length (encryptedZeros index length) (contentHash_ascii sizeSha _)
    _ = 53 + 1 + 25 + (2 * (length + 15) + 3) + 64 := by rw [hindex, hnonce, jsonBytes_zeros, hhash]
    _ = 2 * length + 176 := by omega

/-- The chunk that a piece of the zeros becomes. -/
def zeroChunk (root fileHash : String) (expiresAt : Option Int64) (index length : Nat) :
    SavedChunk where
  hash := contentHash sizeSha (encryptedZeros index length).ciphertext
  row :=
    { contentHash := fileHash
      chunkIndex := UInt64.ofNat index
      path := Paths.join root (preparedFile fileHash index)
      size := Int64.ofNat (chunkJson.enc (encryptedZeros index length)).length
      expiresAt }
  bytes := chunkJson.enc (encryptedZeros index length)

theorem storedChunks_zeros (n : Nat) (root fileHash : String) (expiresAt : Option Int64)
    (index : Nat) {length : Nat} (h : length ≤ maxPlaintext) (rest : List Bytes) :
    storedChunks sampleFormats (zeroFile n) root fileHash expiresAt index
      (List.replicate length 0 :: rest) =
      let o := storedChunks sampleFormats (zeroFile n) root fileHash expiresAt (index + 1) rest
      { o with saved := zeroChunk root fileHash expiresAt index length :: o.saved } := by
  have hencrypt : encryptChunk sampleFormats.cipher sampleFormats.sha (UInt64.ofNat index)
      (zeroFile n).fileKey ((zeroFile n).nonces index) (List.replicate length 0) =
        .ok (encryptedZeros index length) := encryptChunk_zeros index h
  rw [storedChunks, hencrypt]
  rfl

theorem splitChunks_one {data : Bytes} {size : Nat} (hpos : 0 < data.length)
    (hlen : data.length ≤ size) : splitChunks data size = [data] := by
  have hcount : (data.length + max size 1 - 1) / max size 1 = 1 := by
    rw [max_eq_left (by omega)]
    exact Nat.div_eq_of_lt_le (by omega) (by omega)
  unfold splitChunks
  simp only [hcount, List.range_one, List.map_singleton, Nat.zero_mul, List.drop_zero]
  rw [max_eq_left (by omega), List.take_of_length_le hlen]

theorem splitChunks_two {data : Bytes} {size : Nat} (hpos : size < data.length)
    (hlen : data.length ≤ 2 * size) : splitChunks data size = [data.take size, data.drop size] := by
  have hcount : (data.length + max size 1 - 1) / max size 1 = 2 := by
    rw [max_eq_left (by omega)]
    exact Nat.div_eq_of_lt_le (by omega) (by omega)
  have hrange : List.range 2 = [0, 1] := rfl
  unfold splitChunks
  simp only [hcount, hrange, List.map_cons, List.map_nil, Nat.zero_mul, Nat.one_mul, List.drop_zero]
  rw [max_eq_left (by omega), List.take_of_length_le (l := data.drop size)
    (by rw [List.length_drop]; omega)]

/-- The device on which a file of so many zeros is prepared. -/
def afterFile (length : Nat) : ChunkDevice Unit :=
  (prepareEncryptedFile sampleFormats emptyDevice (zeroFile length)).2

/-- What a chunk of the zeros is stored as. -/
def zeroPart (length index part : Nat) : SavedChunk :=
  zeroChunk (storageRootForDb samplePath) (contentHash sizeSha (List.replicate length 0))
    (expiry emptyDevice.store.settings 0) index part

theorem zeroFile_passes {length : Nat} (h : Int64.ofNat length ≤ 1048576) :
    Passes emptyDevice (zeroFile length) samplePath emptyDevice.store where
  opened := rfl
  settings := rfl
  room := by
    refine ⟨0, storedChunkBytes_of_range rfl rfl, Int64.not_lt.mpr ?_⟩
    show 0 + Int64.ofNat (List.replicate length (0 : UInt8)).length ≤ 1048576
    rw [List.length_replicate, Int64.zero_add]
    exact h

/-- The rows of a file of zeros. -/
theorem afterFile_rows {length : Nat} (h : Int64.ofNat length ≤ 1048576) {pieces : List Bytes}
    (hpieces : splitChunks (List.replicate length 0) DEFAULT_CHUNK_SIZE = pieces) :
    (afterFile length).store.settings = emptyDevice.store.settings ∧
      (afterFile length).store.chunks =
        ((zeroFile length).outcomeOf sampleFormats samplePath emptyDevice.store.settings
          pieces).rows ∅ := by
  have hdata : splitChunks (zeroFile length).data DEFAULT_CHUNK_SIZE = pieces := hpieces
  have hpath : samplePath ≠ MEMORY := by decide
  obtain ⟨manifests, hstored⟩ :=
    storeFile_outcome sampleFormats emptyDevice (zeroFile length) pieces
    samplePath emptyDevice.store
  rw [close_onDisk hpath] at hstored
  rw [afterFile, (zeroFile_passes h).prepare, hdata, hstored]
  exact ⟨rfl, rfl⟩

theorem zeroFile_two {length part part' : Nat} (hpart : part ≤ maxPlaintext)
    (hpart' : part' ≤ maxPlaintext) :
    (zeroFile length).outcomeOf sampleFormats samplePath emptyDevice.store.settings
        [List.replicate part 0, List.replicate part' 0] =
      ⟨[zeroPart length 0 part, zeroPart length 1 part'], none⟩ := by
  show storedChunks sampleFormats (zeroFile length) (storageRootForDb samplePath)
    (contentHash sizeSha (List.replicate length 0)) (expiry emptyDevice.store.settings 0) 0
    [List.replicate part 0, List.replicate part' 0] = _
  rw [storedChunks_zeros _ _ _ _ _ hpart, storedChunks_zeros _ _ _ _ _ hpart']
  rfl

theorem zeroPart_size (length part : Nat) {index : Nat} (hindex : index < 10)
    (hpart : (part : Int) < 2 ^ 61) :
    (zeroPart length index part).row.size.toInt = 2 * part + 176 := by
  show (Int64.ofNat (chunkJson.enc (encryptedZeros index part)).length).toInt = _
  rw [encryptedZeros_length part hindex, toInt_ofNat (by omega)]
  omega

/-- The hashes of two pieces. -/
theorem zeroPart_hash {length index part : Nat} :
    (zeroPart length index part).hash =
      hexString (UInt8.ofNat (part + 16) :: List.replicate 31 0) := by
  show hexString
    (UInt8.ofNat (List.replicate (part + 16) (0 : UInt8)).length :: List.replicate 31 0) = _
  rw [List.length_replicate]

/-- The rows of two chunks with two hashes. -/
theorem storedBytes_two {c c' : SavedChunk} (h : c'.hash ≠ c.hash) :
    storedBytes (Outcome.rows ⟨[c, c'], none⟩ ∅) = c.row.size.toInt + c'.row.size.toInt := by
  show storedBytes (saveRow (saveRow ∅ c) c') = _
  have hfirst : storedBytes (saveRow ∅ c) = c.row.size.toInt := by
    rw [storedBytes_saveRow]
    exact Int.zero_add _
  have htotal : storedBytes (saveRow ∅ c) = _ := Table.total_eq_erase _ (saveRow ∅ c) c'.hash
  have hfresh : (saveRow ∅ c).lookup c'.hash = none := by
    rw [saveRow, Table.lookup_upsert, if_neg h, AList.lookup_empty]
  rw [hfresh, Option.elim_none, Int.add_zero] at htotal
  rw [storedBytes_saveRow, storedBytes, ← htotal, hfirst]

theorem zeroFile_one {length : Nat} (h : length ≤ maxPlaintext) :
    (zeroFile length).outcomeOf sampleFormats samplePath emptyDevice.store.settings
        [List.replicate length 0] = ⟨[zeroPart length 0 length], none⟩ := by
  show storedChunks sampleFormats (zeroFile length) (storageRootForDb samplePath)
    (contentHash sizeSha (List.replicate length 0)) (expiry emptyDevice.store.settings 0) 0
    [List.replicate length 0] = _
  rw [storedChunks_zeros _ _ _ _ _ h]
  rfl

/-- A file of one zero is short enough. -/
theorem zeroFile_fits : FitsLength sampleFormats emptyDevice (.prepare (zeroFile 1)) := by
  intro path store hpasses hpath
  obtain ⟨rfl, rfl⟩ : samplePath = path ∧ emptyDevice.store = store := by
    have hopened := hpasses.opened
    cases hopened
    exact ⟨rfl, rfl⟩
  have hbound : textBound (zeroFile 1).data.length = 257 := by decide
  have hleft : storedBytes (cleanupExpiredStorage (zeroFile 1).cleanup
      (emptyDevice.store.chunks, emptyDevice.disk)).1 = 0 := rfl
  rw [hbound, hleft]
  decide

theorem storedBytes_afterFile : storedBytes (afterFile 1).store.chunks = 178 := by
  have hpieces : splitChunks (List.replicate 1 0) DEFAULT_CHUNK_SIZE = [List.replicate 1 0] :=
    splitChunks_one (by decide) (by decide)
  obtain ⟨-, hrows⟩ := afterFile_rows (by decide) hpieces
  rw [hrows, zeroFile_one (by decide)]
  show storedBytes (saveRow ∅ (zeroPart 1 0 1)) = _
  rw [storedBytes_saveRow, zeroPart_size _ _ (by decide) (by decide)]
  rfl

theorem zeros_fit : FitsQuota sampleFormats (afterFile 1) (.receive (zeros 1)) := by
  intro chunk hchunk
  obtain ⟨settings, dbPath, -, rfl, -⟩ := receive_saved hchunk
  have hcurrent : storedChunkBytes (zeros 1).faults (afterFile 1).store = .ok 178 :=
    storedChunkBytes_of_range rfl storedBytes_afterFile
  refine ⟨178, hcurrent, ?_⟩
  show (178 : Int64).toInt + (([0] : Bytes).length : Int) < 2 ^ 63
  decide

/-- A file and then a chunk, of one zero each. -/
theorem quota_kept_small : WithinQuota (receiveChunk sampleFormats (afterFile 1) (zeros 1)) ∧
    storedBytes (afterFile 1).store.chunks = 178 := by
  have hempty : NoChunks emptyDevice := rfl
  have hfile : Guarded (FitsQuota sampleFormats) (happens sampleFormats) emptyDevice
      (.prepare (zeroFile 1)) (afterFile 1) := ⟨zeroFile_fits.fits sampleFormats_jsonSized, rfl⟩
  have hchunk : Guarded (FitsQuota sampleFormats) (happens sampleFormats) (afterFile 1)
      (.receive (zeros 1)) (receiveChunk sampleFormats (afterFile 1) (zeros 1)) := ⟨zeros_fit, rfl⟩
  exact ⟨quota_kept (.step _ _ _ (.step _ _ _ (.start _ hempty) hfile) hchunk),
    storedBytes_afterFile⟩

theorem afterFile_reached (length : Nat) : Reach NoChunks (happens sampleFormats)
    (afterFile length) :=
  have hempty : NoChunks emptyDevice := rfl
  have hhappens : happens sampleFormats emptyDevice (.prepare (zeroFile length))
    (afterFile length) := rfl
  .step _ _ _ (.start _ hempty) hhappens

/-- **A file of half a megabyte** exceeds a quota of one megabyte: a zero takes two characters in
    JSON. -/
theorem file_exceeds_quota : Reach NoChunks (happens sampleFormats) (afterFile 524287) ∧
    ¬ WithinQuota (afterFile 524287) := by
  refine ⟨afterFile_reached 524287, ?_⟩
  have hpieces : splitChunks (List.replicate 524287 0) DEFAULT_CHUNK_SIZE =
      [List.replicate 262144 0, List.replicate 262143 0] := by
    have hsize : DEFAULT_CHUNK_SIZE = 262144 := rfl
    have hfirst : min 262144 524287 = 262144 := by decide
    have hsecond : 524287 - 262144 = 262143 := by decide
    rw [splitChunks_two (by rw [List.length_replicate, hsize]; decide)
      (by rw [List.length_replicate, hsize]; decide), hsize, List.take_replicate,
      List.drop_replicate,
      hfirst, hsecond]
  obtain ⟨hsettings, hrows⟩ := afterFile_rows (by decide) hpieces
  rw [zeroFile_two (by decide) (by decide)] at hrows
  have hhash : (zeroPart 524287 1 262143).hash ≠ (zeroPart 524287 0 262144).hash := by
    rw [zeroPart_hash, zeroPart_hash]
    decide
  have hsum : storedBytes (afterFile 524287).store.chunks = 524464 + 524462 := by
    rw [hrows, storedBytes_two hhash, zeroPart_size _ _ (by decide) (by decide),
      zeroPart_size _ _ (by decide) (by decide)]
    rfl
  have hquota : quota (afterFile 524287).store.settings = 1048576 := by
    rw [hsettings]
    decide
  rw [WithinQuota, hsum, hquota]
  decide

end AlterChat.ChunkQuota
