import AlterChat.Lib.Slices
import AlterChat.Tauri.ChunkStorage

/-!
# Manifests of files

`split_chunks`, `build_manifest`, `encrypt_chunk` and `decrypt_chunk` of
`alterchat-core/src/storage.rs` together: the manifest describes the slices, and the slices are the
file.

* §1 `decryptChunk`, and a file encrypted slice by slice;
* §2 `buildManifest_describes` -- the entries are numbered, of one size up to the last, and name the
  slices;
* §3 `decryptChunks_encryptChunks` and `manifest_describes_file`.
-/

namespace AlterChat.ChunkStorage

open Lib Profile

/-! ## 1. Slices -/

section

variable (P : Primitives Key32) (H : Sha256) (key : Key32)

/-- `decrypt_chunk`. -/
def decryptChunk (chunk : EncryptedChunk) : Except String Bytes :=
  match P.aeadOpen key chunk.nonce chunk.ciphertext with
  | none => .error "chunk decryption failed"
  | some plaintext =>
    if contentHash H plaintext ≠ chunk.plaintextHash then .error "chunk hash mismatch"
    else .ok plaintext

/-- `encrypt_chunk` of each slice, with its index. -/
def encryptChunks (nonces : Nat → Nonce) (slices : List Bytes) :
    Except String (List EncryptedChunk) :=
  slices.zipIdx.mapM fun (slice, index) =>
    encryptChunk P H (UInt64.ofNat index) key (nonces index) slice

/-- `decrypt_chunk` of each, joined. -/
def decryptChunks (chunks : List EncryptedChunk) : Except String Bytes :=
  (chunks.mapM (decryptChunk P H key)).map List.flatten

end

/-- The slices are the pieces of a size that is not zero. -/
theorem splitChunks_eq (data : Bytes) (chunkSize : Nat) :
    splitChunks data chunkSize = chunks (max chunkSize 1) data := rfl

theorem sliceSize_pos (chunkSize : Nat) : 0 < max chunkSize 1 := Nat.le_max_right _ _

/-- There are no more slices than bytes. -/
theorem splitChunks_length_le (data : Bytes) (chunkSize : Nat) :
    (splitChunks data chunkSize).length ≤ data.length := by
  by_contra hlt
  rw [splitChunks_eq, chunks_length, Nat.not_le, lt_pieces_iff (sliceSize_pos chunkSize)] at hlt
  exact Nat.not_lt.mpr (Nat.le_mul_of_pos_right _ (sliceSize_pos chunkSize)) hlt

/-! ## 2. The manifest -/

/-- What a manifest says of a file in slices. -/
structure Describes (H : Sha256) (manifest : FileManifest) (data : Bytes) (size : Nat)
    (slices : List Bytes) : Prop where
  total : manifest.totalSize = data.length
  numbered : manifest.chunks.map (fun entry => entry.index.toNat) = List.range slices.length
  sizes : manifest.chunks.map FileChunkMeta.size = slices.map List.length
  hashes : manifest.chunks.map FileChunkMeta.hash = slices.map (contentHash H)
  full : ∀ i entry, manifest.chunks[i]? = some entry → i + 1 < manifest.chunks.length →
    entry.size = size
  bounded : ∀ entry ∈ manifest.chunks, 0 < entry.size ∧ entry.size ≤ size
  sum : (manifest.chunks.map FileChunkMeta.size).sum = manifest.totalSize
  joined : slices.flatten = data

theorem buildManifest_sizes (H : Sha256) (filename : String) (mime : Option String) (data : Bytes)
    (chunkSize : Nat) :
    (buildManifest H filename mime data chunkSize).chunks.map FileChunkMeta.size =
      (splitChunks data chunkSize).map List.length := by
  rw [buildManifest, List.map_map]
  conv_rhs => rw [← List.zipIdx_map_fst 0 (splitChunks data chunkSize), List.map_map]
  rfl

theorem buildManifest_hashes (H : Sha256) (filename : String) (mime : Option String) (data : Bytes)
    (chunkSize : Nat) :
    (buildManifest H filename mime data chunkSize).chunks.map FileChunkMeta.hash =
      (splitChunks data chunkSize).map (contentHash H) := by
  rw [buildManifest, List.map_map]
  conv_rhs => rw [← List.zipIdx_map_fst 0 (splitChunks data chunkSize), List.map_map]
  rfl

/-- The numbers are those of a list: there are fewer slices than a `u64` counts. -/
theorem buildManifest_numbered (H : Sha256) (filename : String) (mime : Option String)
    {data : Bytes} (hlen : data.length < 2 ^ 64) (chunkSize : Nat) :
    (buildManifest H filename mime data chunkSize).chunks.map (fun entry => entry.index.toNat) =
      List.range (splitChunks data chunkSize).length := by
  rw [buildManifest, List.map_map, List.range_eq_range', ← List.zipIdx_map_snd 0
    (splitChunks data chunkSize)]
  refine List.map_congr_left fun chunk hmem => ?_
  have hlt := List.snd_lt_of_mem_zipIdx hmem
  have hcount := splitChunks_length_le data chunkSize
  have hfits : chunk.2 < 2 ^ 64 := by omega
  exact UInt64.toNat_ofNat_of_lt hfits

/-- **The manifest describes the slices.** -/
theorem buildManifest_describes (H : Sha256) (filename : String) (mime : Option String)
    {data : Bytes} (hlen : data.length < 2 ^ 64) (chunkSize : Nat) :
    Describes H (buildManifest H filename mime data chunkSize) data (max chunkSize 1)
      (splitChunks data chunkSize) := by
  have hsizes := buildManifest_sizes H filename mime data chunkSize
  have hcount : (buildManifest H filename mime data chunkSize).chunks.length =
      (splitChunks data chunkSize).length := by
    have hboth := congrArg List.length hsizes
    rwa [List.length_map, List.length_map] at hboth
  have hjoined : (splitChunks data chunkSize).flatten = data :=
    chunks_flatten (sliceSize_pos _) data
  refine ⟨rfl, buildManifest_numbered H filename mime hlen chunkSize, hsizes,
    buildManifest_hashes H filename mime data chunkSize, fun i entry hentry hnext => ?_,
    fun entry hmem => ?_, ?_, hjoined⟩
  · have hsize :
        ((buildManifest H filename mime data chunkSize).chunks.map FileChunkMeta.size)[i]? =
        ((splitChunks data chunkSize).map List.length)[i]? := by rw [hsizes]
    rw [List.getElem?_map, hentry, List.getElem?_map, Option.map_some, eq_comm,
      Option.map_eq_some_iff] at hsize
    obtain ⟨slice, hslice, hlength⟩ := hsize
    rw [← hlength]
    exact chunks_full (sliceSize_pos _) hslice (hcount ▸ hnext)
  · have hsize : entry.size ∈ (splitChunks data chunkSize).map List.length :=
      hsizes ▸ List.mem_map_of_mem hmem
    obtain ⟨slice, hslice, hlength⟩ := List.mem_map.mp hsize
    rw [← hlength]
    exact chunks_mem_length (sliceSize_pos _) hslice
  · rw [hsizes, ← List.length_flatten, hjoined]
    rfl

/-! ## 3. The encrypted slices -/

section

variable {P : Primitives Key32} {H : Sha256}

/-- What a slice is encrypted to. -/
def encrypted (P : Primitives Key32) (H : Sha256) (key : Key32) (nonces : Nat → Nonce)
    (chunk : Bytes × Nat) : EncryptedChunk where
  index := UInt64.ofNat chunk.2
  nonce := nonces chunk.2
  ciphertext := P.aeadSeal key (nonces chunk.2) chunk.1
  plaintextHash := contentHash H chunk.1

theorem encryptChunk_accepted {slice : Bytes} (h : P.accepts slice = true) (key : Key32)
    (nonces : Nat → Nonce) (index : Nat) :
    encryptChunk P H (UInt64.ofNat index) key (nonces index) slice =
      .ok (encrypted P H key nonces (slice, index)) := by
  rw [encryptChunk, Primitives.encrypt_of_accepts h]
  rfl

/-- A slice that the cipher refuses is an error. -/
theorem encryptChunk_refused {slice : Bytes} (h : P.accepts slice = false) (index : UInt64)
    (key : Key32) (nonce : Nonce) :
    encryptChunk P H index key nonce slice = .error "chunk encryption failed" := by
  rw [encryptChunk, Primitives.encrypt_of_not_accepts h]

theorem decryptChunk_encrypted (hP : P.Lawful) (key : Key32) (nonces : Nat → Nonce)
    (chunk : Bytes × Nat) :
    decryptChunk P H key (encrypted P H key nonces chunk) = .ok chunk.1 := by
  rw [decryptChunk, encrypted]
  dsimp only
  rw [hP.open_seal]
  exact if_neg (not_not.mpr rfl)

/-- **What is encrypted slice by slice is decrypted to the slices**, where the cipher takes each of
    them. -/
theorem decryptChunks_encryptChunks (hP : P.Lawful) {slices : List Bytes}
    (haccepts : ∀ slice ∈ slices, P.accepts slice = true) (key : Key32) (nonces : Nat → Nonce) :
    ∃ chunks, encryptChunks P H key nonces slices = .ok chunks ∧
      decryptChunks P H key chunks = .ok slices.flatten := by
  refine ⟨slices.zipIdx.map (encrypted P H key nonces), mapM_eq_pure fun chunk hmem => ?_, ?_⟩
  · exact encryptChunk_accepted (haccepts chunk.1 (List.fst_mem_of_mem_zipIdx hmem)) key
      nonces chunk.2
  · have hslices : (slices.zipIdx.map (encrypted P H key nonces)).mapM (decryptChunk P H key) =
        .ok (slices.zipIdx.map Prod.fst) := by
      rw [List.mapM_map]
      exact mapM_eq_pure fun chunk _ => decryptChunk_encrypted hP key nonces chunk
    rw [decryptChunks, hslices, List.zipIdx_map_fst]
    rfl

/-- **A manifest describes its file exactly**, for every size of the slices, and the encrypted
    slices in the order of their index are decrypted to the file. -/
theorem manifest_describes_file (hP : P.Lawful) (H : Sha256) (filename : String)
    (mime : Option String) {data : Bytes} (hlen : data.length < 2 ^ 64) {chunkSize : Nat}
    (haccepts : ∀ slice ∈ splitChunks data chunkSize, P.accepts slice = true) (key : Key32)
    (nonces : Nat → Nonce) :
    Describes H (buildManifest H filename mime data chunkSize) data (max chunkSize 1)
      (splitChunks data chunkSize) ∧
    ∃ chunks, encryptChunks P H key nonces (splitChunks data chunkSize) = .ok chunks ∧
      decryptChunks P H key chunks = .ok data := by
  have hdescribes := buildManifest_describes H filename mime hlen chunkSize
  have hback := decryptChunks_encryptChunks (H := H) hP haccepts key nonces
  rw [hdescribes.joined] at hback
  exact ⟨hdescribes, hback⟩

end

/-- Five bytes in slices of two. -/
theorem manifest_describes_file_five :
    Describes Chunks.zeroSha (buildManifest Chunks.zeroSha "f" none [1, 2, 3, 4, 5] 2)
    [1, 2, 3, 4, 5] 2
      [[1, 2], [3, 4], [5]] :=
  (manifest_describes_file (P := plain32) plain32_lawful Chunks.zeroSha "f" none (by decide)
    (by decide +kernel)
    0 fun _ => Vector.replicate 12 0).1

end AlterChat.ChunkStorage
