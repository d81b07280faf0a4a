import AlterChat.Lib.Gcm
import AlterChat.Lib.Slices
import Mathlib.Data.List.Find
import Mathlib.Data.List.Sort

/-!
# `sharding.rs`: files in shards

`split_and_encrypt` and `decrypt_and_assemble` of `alterchat-core/src/sharding.rs`. A shard carries
its index, the number of shards and the id of the file beside its ciphertext, in the clear.
Assembling sorts by the index and reads nothing else of them. The nonces that are drawn are an
argument, and `none` is a panic.

* §1 `splitAndEncrypt`, `decryptAndAssemble`;
* §2 `assemble_eq` -- the first shard that does not open decides;
* §3 `shards_round_trip` -- the shards of a file in any order;
* §4 `assembly_intact_iff` -- the lists of shards of which no wrong data is made.
-/

namespace AlterChat.Sharding

open Lib

/-! ## 1. Shards -/

structure Shard where
  index : UInt32
  totalShards : UInt32
  fileId : String
  ciphertext : Bytes
  nonce : Bytes
  deriving DecidableEq

/-- `Sharder::CHUNK_SIZE`. -/
def CHUNK_SIZE : Nat := 256 * 1024

section

variable {Key : Type} (P : Primitives Key)

/-- `Sharder::split_and_encrypt`. -/
def splitAndEncrypt (nonces : Nat → Nonce) (fileId : String) (data : Bytes) (key : Key) :
    Option (List Shard) :=
  let chunks := Lib.chunks CHUNK_SIZE data
  let totalShards := UInt32.ofNat chunks.length
  chunks.zipIdx.mapM fun (chunk, i) => do
    let nonce := nonces i
    let ciphertext ← P.encrypt key nonce chunk
    return { index := UInt32.ofNat i, totalShards, fileId, ciphertext, nonce := nonce.toList }

/-- `Nonce::from_slice`: twelve bytes. -/
def nonceFromSlice (bytes : Bytes) : Option Nonce := Layout.toVector 12 bytes

/-- The loop of `decrypt_and_assemble`. -/
def assemble (key : Key) : Bytes → List Shard → Option (Except String Bytes)
  | output, [] => some (.ok output)
  | output, shard :: rest => do
    let nonce ← nonceFromSlice shard.nonce
    match P.aeadOpen key nonce shard.ciphertext with
    | some plain => assemble key (output ++ plain) rest
    | none => return .error "Decryption failed on a shard"

/-- `sort_by_key`, which is stable. -/
def sortByIndex (shards : List Shard) : List Shard :=
  shards.insertionSort fun a b => a.index ≤ b.index

/-- `Sharder::decrypt_and_assemble`, with the slice it leaves sorted. -/
def decryptAndAssemble (shards : List Shard) (key : Key) :
    Option (Except String Bytes) × List Shard :=
  let shards := sortByIndex shards
  (assemble P key [] shards, shards)

end

theorem sortByIndex_perm (shards : List Shard) : (sortByIndex shards).Perm shards :=
  List.perm_insertionSort _ shards

theorem sortByIndex_sorted (shards : List Shard) :
    (sortByIndex shards).Pairwise fun a b => a.index ≤ b.index := by
  have htotal : Std.Total fun a b : Shard => a.index ≤ b.index := ⟨fun a b => UInt32.le_total _ _⟩
  have htrans : IsTrans Shard fun a b => a.index ≤ b.index := ⟨fun a b c => UInt32.le_trans⟩
  exact List.pairwise_insertionSort _ shards

/-! ## 2. Opening -/

variable {Key : Type} {P : Primitives Key} {key : Key}

/-- What the cipher is given of a shard: nonce and ciphertext. -/
def Shard.body (shard : Shard) : Bytes × Bytes := (shard.nonce, shard.ciphertext)

/-- What is opened. -/
def openBody (P : Primitives Key) (key : Key) (body : Bytes × Bytes) : Option Bytes :=
  (nonceFromSlice body.1).bind fun nonce => P.aeadOpen key nonce body.2

theorem nonceFromSlice_none_iff (bytes : Bytes) :
    nonceFromSlice bytes = none ↔ bytes.length ≠ 12 := by
  unfold nonceFromSlice Layout.toVector
  by_cases h : bytes.length = 12
  · rw [dif_pos h]
    exact iff_of_false (fun h' => by cases h') (not_not.mpr h)
  · rw [dif_neg h]
    exact iff_of_true rfl h

/-- **The first shard that does not open decides**: its nonce makes the call panic, or the call
    fails. Where every shard opens the plaintexts are joined. -/
theorem assemble_eq (P : Primitives Key) (key : Key) (output : Bytes) (shards : List Shard) :
    assemble P key output shards =
      match shards.find? fun shard => (openBody P key shard.body).isNone with
      | some shard =>
        if shard.nonce.length = 12 then some (.error "Decryption failed on a shard") else none
      | none =>
        some (.ok
          (output ++ (shards.filterMap fun shard => openBody P key shard.body).flatten)) := by
  induction shards generalizing output with
  | nil => rw [assemble, List.find?_nil, List.filterMap_nil, List.flatten_nil, List.append_nil]
  | cons shard rest ih =>
    rw [assemble, List.find?_cons]
    cases hnonce : nonceFromSlice shard.nonce with
    | none =>
      have hopen : openBody P key shard.body = none := by
        rw [openBody, Shard.body, hnonce]
        rfl
      rw [hopen, Option.isNone_none]
      exact (if_neg ((nonceFromSlice_none_iff _).mp hnonce)).symm
    | some nonce =>
      have htwelve : shard.nonce.length = 12 := by
        by_contra hlen
        rw [(nonceFromSlice_none_iff _).mpr hlen] at hnonce
        cases hnonce
      have hopen : openBody P key shard.body = P.aeadOpen key nonce shard.ciphertext := by
        rw [openBody, Shard.body, hnonce]
        rfl
      rw [Option.bind_eq_bind, Option.bind_some, hopen]
      cases hplain : P.aeadOpen key nonce shard.ciphertext with
      | none => exact (if_pos htwelve).symm
      | some plain =>
        have hcons : ((shard :: rest).filterMap fun shard => openBody P key shard.body) =
            plain :: rest.filterMap fun shard => openBody P key shard.body :=
          List.filterMap_cons_some (hopen.trans hplain)
        rw [Option.isNone_some, hcons, List.flatten_cons, ← List.append_assoc]
        exact ih (output ++ plain)

/-! ## 3. The shards of a file -/

/-- A call of `split_and_encrypt`. -/
structure File where
  fileId : String
  data : Bytes
  nonces : Nat → Nonce

/-- The chunks of a file, each with its nonce. -/
def File.pieces (file : File) : List (Nonce × Bytes) :=
  (chunks CHUNK_SIZE file.data).zipIdx.map fun chunk => (file.nonces chunk.2, chunk.1)

/-- What is stored of a chunk. -/
def sealed (P : Primitives Key) (key : Key) (piece : Nonce × Bytes) : Bytes × Bytes :=
  (piece.1.toList, P.aeadSeal key piece.1 piece.2)

/-- The shards of a file. -/
def File.shards (P : Primitives Key) (key : Key) (file : File) : List Shard :=
  (chunks CHUNK_SIZE file.data).zipIdx.map fun chunk =>
    { index := UInt32.ofNat chunk.2
      totalShards := UInt32.ofNat (chunks CHUNK_SIZE file.data).length
      fileId := file.fileId
      ciphertext := P.aeadSeal key (file.nonces chunk.2) chunk.1
      nonce := (file.nonces chunk.2).toList }

theorem File.shards_body (P : Primitives Key) (key : Key) (file : File) :
    (file.shards P key).map Shard.body = file.pieces.map (sealed P key) := by
  rw [File.shards, File.pieces, List.map_map, List.map_map]
  rfl

theorem File.pieces_chunks (file : File) :
    file.pieces.map Prod.snd = chunks CHUNK_SIZE file.data := by
  rw [File.pieces, List.map_map]
  exact List.zipIdx_map_fst _ _

theorem openBody_sealed (hP : P.Lawful) (key : Key) (piece : Nonce × Bytes) :
    openBody P key (sealed P key piece) = some piece.2 := by
  have hnonce : nonceFromSlice piece.1.toList = some piece.1 := Layout.toVector_iff.mpr rfl
  rw [openBody, sealed, hnonce]
  exact hP.open_seal _ _ _

/-- The plaintexts of sealed pieces. -/
theorem filterMap_sealed (hP : P.Lawful) (key : Key) {shards : List Shard}
    {pieces : List (Nonce × Bytes)} (h : shards.map Shard.body = pieces.map (sealed P key)) :
    shards.filterMap (fun shard => openBody P key shard.body) = pieces.map Prod.snd := by
  have hmap : shards.filterMap (fun shard => openBody P key shard.body) =
      (shards.map Shard.body).filterMap (openBody P key) := by
    rw [List.filterMap_map]
    rfl
  rw [hmap, h, List.filterMap_map, ← List.filterMap_eq_map]
  exact List.filterMap_congr fun piece _ => openBody_sealed hP key piece

/-- No chunk is too long for the cipher. -/
theorem splitAndEncrypt_eq (hgcm : P.Gcm) (key : Key) (file : File) :
    splitAndEncrypt P file.nonces file.fileId file.data key = some (file.shards P key) := by
  refine mapM_eq_pure fun chunk hmem => ?_
  have hmax : CHUNK_SIZE ≤ maxPlaintext := by decide
  have hlen := chunks_mem_length (by decide) (List.fst_mem_of_mem_zipIdx hmem)
  have haccepts : P.accepts chunk.1 = true :=
    (hgcm.accepts_iff chunk.1).mpr (Nat.le_trans hlen.2 hmax)
  dsimp only
  rw [Primitives.encrypt_of_accepts haccepts]
  rfl

theorem File.shards_index (P : Primitives Key) (key : Key) (file : File) :
    (file.shards P key).map Shard.index =
      (List.range (chunks CHUNK_SIZE file.data).length).map UInt32.ofNat := by
  have hsnd := List.zipIdx_map_snd 0 (chunks CHUNK_SIZE file.data)
  rw [List.range_eq_range', ← hsnd, File.shards, List.map_map, List.map_map]
  rfl

/-- The indices of a file with fewer than `2 ^ 32` chunks are different and in order. -/
theorem File.shards_sorted (P : Primitives Key) (key : Key) {file : File}
    (hcount : (chunks CHUNK_SIZE file.data).length < 2 ^ 32) :
    ((file.shards P key).map Shard.index).Pairwise (· < ·) := by
  rw [File.shards_index, List.pairwise_map]
  refine List.Pairwise.imp_of_mem (fun {i j} hi hj hlt => ?_) List.pairwise_lt_range
  rw [List.mem_range] at hi hj
  rw [UInt32.lt_iff_toNat_lt, UInt32.toNat_ofNat', UInt32.toNat_ofNat',
    Nat.mod_eq_of_lt (Nat.lt_trans hi hcount), Nat.mod_eq_of_lt (Nat.lt_trans hj hcount)]
  exact hlt

/-- **Sorting puts the shards of a file back in order**, whatever order they came in. -/
theorem sortByIndex_shards {file : File} (hcount : (chunks CHUNK_SIZE file.data).length < 2 ^ 32)
    {given : List Shard} (hperm : given.Perm (file.shards P key)) :
    sortByIndex given = file.shards P key := by
  have hsorted := File.shards_sorted P key hcount
  have hnodup : ((file.shards P key).map Shard.index).Nodup :=
    hsorted.imp fun hlt => UInt32.ne_of_lt hlt
  have hback := (sortByIndex_perm given).trans hperm
  refine List.Perm.eq_of_pairwise (fun a b ha hb hab hba => ?_) (sortByIndex_sorted given)
    ((List.pairwise_map.mp hsorted).imp fun hlt => UInt32.le_of_lt hlt) hback
  exact List.inj_on_of_nodup_map hnodup (hback.mem_iff.mp ha) hb (UInt32.le_antisymm hab hba)

/-- Where every shard opens the plaintexts are joined in the order of the indices. -/
theorem decryptAndAssemble_opened {given : List Shard}
    (h : ∀ shard ∈ sortByIndex given, ∃ plain, openBody P key shard.body = some plain) :
    (decryptAndAssemble P given key).1 =
      some (.ok ((sortByIndex given).filterMap fun shard =>
        openBody P key shard.body).flatten) := by
  have hopens :
      (sortByIndex given).find? (fun shard => (openBody P key shard.body).isNone) = none := by
    refine List.find?_eq_none.mpr fun shard hmem => ?_
    obtain ⟨plain, hplain⟩ := h shard hmem
    rw [hplain]
    exact Bool.false_ne_true
  rw [decryptAndAssemble]
  dsimp only
  rw [assemble_eq, hopens, List.nil_append]

/-- Shards that are sealed pieces in the order of their indices are joined to the chunks. -/
theorem decryptAndAssemble_sealed (hP : P.Lawful) {given : List Shard}
    {pieces : List (Nonce × Bytes)}
    (h : (sortByIndex given).map Shard.body = pieces.map (sealed P key)) :
    (decryptAndAssemble P given key).1 = some (.ok (pieces.map Prod.snd).flatten) := by
  have hopens : ∀ shard ∈ sortByIndex given, ∃ plain, openBody P key shard.body = some plain := by
    intro shard hmem
    have hbody : shard.body ∈ pieces.map (sealed P key) := h ▸ List.mem_map_of_mem hmem
    obtain ⟨piece, -, hpiece⟩ := List.mem_map.mp hbody
    exact ⟨piece.2, hpiece ▸ openBody_sealed hP key piece⟩
  rw [decryptAndAssemble_opened hopens, filterMap_sealed hP key h]

/-- **The shards of a file in any order are assembled to its data.** -/
theorem shards_round_trip (hP : P.Lawful) (hgcm : P.Gcm) (key : Key) (file : File)
    (hcount : (chunks CHUNK_SIZE file.data).length < 2 ^ 32) :
    ∃ shards, splitAndEncrypt P file.nonces file.fileId file.data key = some shards ∧
      ∀ given : List Shard, given.Perm shards →
        (decryptAndAssemble P given key).1 = some (.ok file.data) := by
  refine ⟨file.shards P key, splitAndEncrypt_eq hgcm key file, fun given hperm => ?_⟩
  have hbody : (sortByIndex given).map Shard.body = file.pieces.map (sealed P key) := by
    rw [sortByIndex_shards hcount hperm, File.shards_body]
  rw [decryptAndAssemble_sealed hP hbody, File.pieces_chunks, chunks_flatten (by decide)]

/-- A file of a chunk and one more byte. -/
theorem shards_round_trip_two : ∃ shards,
    splitAndEncrypt plain32 (fun _ => Vector.replicate 12 0) "f"
      (List.replicate (CHUNK_SIZE + 1) 7) 0 =
      some shards ∧
    ∀ given : List Shard, given.Perm shards →
      (decryptAndAssemble plain32 given 0).1 = some (.ok (List.replicate (CHUNK_SIZE + 1) 7)) := by
  have hcount : (chunks CHUNK_SIZE (List.replicate (CHUNK_SIZE + 1) (7 : UInt8))).length <
      2 ^ 32 := by
    rw [chunks_length, List.length_replicate]
    decide
  exact shards_round_trip plain32_lawful plain32_gcm 0
    ⟨"f", _, fun _ => Vector.replicate 12 0⟩ hcount

/-! ## 4. Lists of shards -/

/-- The nonce and the ciphertext are those of a shard that `split_and_encrypt` has made. -/
def Genuine (P : Primitives Key) (key : Key) (files : List File) (shard : Shard) : Prop :=
  ∃ file ∈ files, shard.body ∈ (file.shards P key).map Shard.body

instance Genuine.decidable (P : Primitives Key) (key : Key) (files : List File) (shard : Shard) :
    Decidable (Genuine P key files shard) :=
  inferInstanceAs (Decidable (∃ file ∈ files, _))

/-- All shards of the file are among those given, with any index, count and id beside them. -/
def Complete (P : Primitives Key) (key : Key) (file : File) (given : List Shard) : Prop :=
  ((file.shards P key).map Shard.body).Subperm (given.map Shard.body)

/-- The call fails, or returns the data of one file of which all shards were given. -/
def Intact (P : Primitives Key) (key : Key) (files : List File) (given : List Shard) : Prop :=
  (∃ e, (decryptAndAssemble P given key).1 = some (.error e)) ∨
    ∃ file ∈ files, Complete P key file given ∧
      (decryptAndAssemble P given key).1 = some (.ok file.data)

/-- In the order of their indices the shards are those of the file, each once, and their chunks in
    that order spell its data. -/
def Spells (P : Primitives Key) (key : Key) (file : File) (given : List Shard) : Prop :=
  ∃ pieces : List (Nonce × Bytes), pieces.Perm file.pieces ∧
    (sortByIndex given).map Shard.body = pieces.map (sealed P key) ∧
    (pieces.map Prod.snd).flatten = file.data

/-- The first shard that is not genuine has a nonce of twelve bytes; or there is none, and the
    shards are those of one file. -/
def Sound (P : Primitives Key) (key : Key) (files : List File) (given : List Shard) : Prop :=
  match (sortByIndex given).find? fun shard => decide (¬ Genuine P key files shard) with
  | some shard => shard.nonce.length = 12
  | none => ∃ file ∈ files, Spells P key file given

section

variable {files : List File} {given : List Shard}

/-- A genuine shard is a sealed chunk, which is not empty. -/
theorem Genuine.opens (hP : P.Lawful) {shard : Shard} (h : Genuine P key files shard) :
    ∃ plain, openBody P key shard.body = some plain ∧ 0 < plain.length := by
  obtain ⟨file, -, hbody⟩ := h
  rw [File.shards_body] at hbody
  obtain ⟨piece, hpiece, heq⟩ := List.mem_map.mp hbody
  refine ⟨piece.2, heq ▸ openBody_sealed hP key piece, ?_⟩
  have hchunk : piece.2 ∈ chunks CHUNK_SIZE file.data := by
    rw [← File.pieces_chunks]
    exact List.mem_map_of_mem hpiece
  exact (chunks_mem_length (by decide) hchunk).1

/-- The length of what is opened does not depend on the order. -/
theorem opened_length_perm {bodies bodies' : List (Bytes × Bytes)} (h : bodies.Perm bodies') :
    ((bodies.filterMap (openBody P key)).flatten).length =
      ((bodies'.filterMap (openBody P key)).flatten).length :=
  (h.filterMap _).flatten.length_eq

/-- **Genuine shards that hold a whole file and no more bytes than it has are its shards**: what
    else is there would open to at least a byte. -/
theorem bodies_perm (hP : P.Lawful) {file : File}
    (hgenuine : ∀ shard ∈ given, Genuine P key files shard) (hcomplete : Complete P key file given)
    (hlen : (((given.map Shard.body).filterMap (openBody P key)).flatten).length ≤
      file.data.length) :
    (given.map Shard.body).Perm (file.pieces.map (sealed P key)) := by
  obtain ⟨own, hown, hsub⟩ := hcomplete
  obtain ⟨rest, hperm⟩ := hsub.exists_perm_append
  rw [File.shards_body] at hown
  have hall : (given.map Shard.body).Perm (file.pieces.map (sealed P key) ++ rest) :=
    hperm.trans (hown.append_right rest)
  have hpieces : (file.pieces.map (sealed P key)).filterMap (openBody P key) =
      chunks CHUNK_SIZE file.data := by
    rw [List.filterMap_map, ← File.pieces_chunks, ← List.filterMap_eq_map]
    exact List.filterMap_congr fun piece _ => openBody_sealed hP key piece
  cases rest with
  | nil => rwa [List.append_nil] at hall
  | cons body rest =>
    have hmem : body ∈ given.map Shard.body :=
      hall.mem_iff.mpr (List.mem_append_right _ List.mem_cons_self)
    obtain ⟨shard, hshard, rfl⟩ := List.mem_map.mp hmem
    obtain ⟨plain, hplain, hpos⟩ := (hgenuine shard hshard).opens hP
    rw [opened_length_perm hall, List.filterMap_append, hpieces, List.flatten_append,
      chunks_flatten (by decide), List.filterMap_cons_some hplain, List.flatten_cons,
      List.length_append,
      List.length_append] at hlen
    omega

/-- Under the idealised cipher what opens is genuine, and conversely. -/
theorem opens_iff_genuine (hP : P.Lawful)
    (hforged : ∀ shard ∈ given, (openBody P key shard.body).isSome = true →
      Genuine P key files shard)
    {shard : Shard} (hmem : shard ∈ given) :
    (openBody P key shard.body).isNone = decide (¬ Genuine P key files shard) := by
  cases hopen : openBody P key shard.body with
  | some plain =>
    have hgenuine := hforged shard hmem (hopen ▸ rfl)
    exact (decide_eq_false (not_not.mpr hgenuine)).symm
  | none =>
    rw [Option.isNone_none, eq_comm, decide_eq_true_eq]
    intro hgenuine
    obtain ⟨plain, hplain, -⟩ := Genuine.opens hP hgenuine
    rw [hopen] at hplain
    cases hplain

/-- Where all shards are genuine, the data of a file comes out if the shards spell it. -/
theorem genuine_intact_iff (hP : P.Lawful)
    (hgenuine : ∀ shard ∈ sortByIndex given, Genuine P key files shard) (file : File) :
    (Complete P key file given ∧ (decryptAndAssemble P given key).1 = some (.ok file.data)) ↔
      Spells P key file given := by
  have hbodies : ((sortByIndex given).map Shard.body).Perm (given.map Shard.body) :=
    (sortByIndex_perm given).map _
  constructor
  · rintro ⟨hcomplete, hdata⟩
    have hopens : ∀ shard ∈ sortByIndex given, ∃ plain, openBody P key shard.body = some plain := by
      intro shard hmem
      obtain ⟨plain, hplain, -⟩ := (hgenuine shard hmem).opens hP
      exact ⟨plain, hplain⟩
    have hjoined : (((sortByIndex given).map Shard.body).filterMap (openBody P key)).flatten =
        file.data := by
      rw [decryptAndAssemble_opened hopens] at hdata
      rw [List.filterMap_map]
      exact Except.ok.inj (Option.some.inj hdata)
    have hown :=
      bodies_perm hP hgenuine (hcomplete.trans hbodies.symm.subperm) (hjoined ▸ Nat.le_refl _)
    obtain ⟨pieces, hperm, hsealed⟩ := exists_perm_map hown
    refine ⟨pieces, hperm, hsealed.symm, ?_⟩
    rw [← filterMap_sealed hP key hsealed.symm, ← hjoined, List.filterMap_map]
    rfl
  · rintro ⟨pieces, hperm, hsealed, hdata⟩
    refine ⟨?_, ?_⟩
    · have hown : ((file.shards P key).map Shard.body).Perm (given.map Shard.body) := by
        rw [File.shards_body]
        exact (hperm.map _).symm.trans (hsealed ▸ hbodies)
      exact hown.subperm
    · rw [decryptAndAssemble_sealed hP hsealed, hdata]

/-- **Assembling makes no wrong data** of the lists that are sound, and of no others: the index, the
    count and the file id beside a ciphertext are not checked, and a nonce of another length
    panics. -/
theorem assembly_intact_iff (hP : P.Lawful)
    (hforged : ∀ shard ∈ given, (openBody P key shard.body).isSome = true →
      Genuine P key files shard) :
    Intact P key files given ↔ Sound P key files given := by
  have hfind : ((sortByIndex given).find? fun shard => (openBody P key shard.body).isNone) =
      (sortByIndex given).find? fun shard => decide (¬ Genuine P key files shard) :=
    List.find?_congr fun shard hmem => opens_iff_genuine hP hforged
      ((sortByIndex_perm given).mem_iff.mp hmem)
  have hresult : (decryptAndAssemble P given key).1 = _ := assemble_eq P key [] (sortByIndex given)
  rw [hfind] at hresult
  unfold Sound
  cases hfirst : (sortByIndex given).find? fun shard => decide (¬ Genuine P key files shard) with
  | some shard =>
    rw [hfirst] at hresult
    dsimp only at hresult ⊢
    by_cases htwelve : shard.nonce.length = 12
    · rw [if_pos htwelve] at hresult
      exact iff_of_true (.inl ⟨_, hresult⟩) htwelve
    · rw [if_neg htwelve] at hresult
      refine iff_of_false (fun h => ?_) htwelve
      unfold Intact at h
      rw [hresult] at h
      rcases h with ⟨e, he⟩ | ⟨file, -, -, hdata⟩
      · cases he
      · cases hdata
  | none =>
    have hgenuine : ∀ shard ∈ sortByIndex given, Genuine P key files shard := by
      intro shard hmem
      by_contra hnot
      exact List.find?_eq_none.mp hfirst shard hmem (decide_eq_true hnot)
    dsimp only
    constructor
    · rintro (⟨e, he⟩ | ⟨file, hfile, hintact⟩)
      · rw [hresult, hfirst] at he
        cases he
      · exact ⟨file, hfile, (genuine_intact_iff hP hgenuine file).mp hintact⟩
    · rintro ⟨file, hfile, hspells⟩
      exact .inr ⟨file, hfile, (genuine_intact_iff hP hgenuine file).mpr hspells⟩

end

/-- A file of one byte, and its shard. -/
def tinyFile : File := { fileId := "f", data := [1], nonces := fun _ => Vector.replicate 12 0 }

def tinyShard : Shard where
  index := 0
  totalShards := 1
  fileId := "f"
  ciphertext := plain32.aeadSeal 0 (Vector.replicate 12 0) [1]
  nonce := List.replicate 12 0

example : tinyFile.shards plain32 0 = [tinyShard] := by decide +kernel

/-- A forged shard makes the call fail, and so does no harm. -/
theorem assembly_intact_iff_forged :
    Intact plain32 0 [tinyFile] [tinyShard, { tinyShard with ciphertext := [] }] := by
  refine (assembly_intact_iff plain32_lawful (by decide +kernel)).mpr ?_
  have hfirst : (sortByIndex [tinyShard, { tinyShard with ciphertext := [] }]).find?
      (fun shard => decide (¬ Genuine plain32 0 [tinyFile] shard)) =
        some { tinyShard with ciphertext := [] } := by
    decide +kernel
  unfold Sound
  rw [hfirst]
  rfl

/-- A shard without a nonce makes the call panic. -/
example : (decryptAndAssemble plain32 [{ tinyShard with nonce := [] }] 0).1 = none := by
  decide +kernel

/-- **A shard that is given twice is joined twice.** -/
theorem assembly_not_intact : ¬ ∀ (files : List File) (given : List Shard),
    (∀ shard ∈ given, (openBody plain32 0 shard.body).isSome = true →
      Genuine plain32 0 files shard) →
      Intact plain32 0 files given := by
  intro h
  have hintact := h [tinyFile] [tinyShard, tinyShard] (by decide +kernel)
  have hresult : (decryptAndAssemble plain32 [tinyShard, tinyShard] 0).1 = some (.ok [1, 1]) := by
    decide +kernel
  rcases hintact with ⟨e, he⟩ | ⟨file, hfile, -, hdata⟩
  · rw [hresult] at he
    cases he
  · rw [List.mem_singleton] at hfile
    rw [hresult, hfile] at hdata
    cases hdata

end AlterChat.Sharding
