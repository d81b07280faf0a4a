import AlterChat.Lib.Primitives
import AlterChat.Lib.Disk

/-!
# Key pairs in files

`alterchat-core/src/secure_storage.rs` and `identity.rs`: a file under a password, and the two
loaders of a key pair. The plain one keeps the encoded key pair in the file, the other one keeps it
encrypted; both yield a new key pair for `:memory:`, at each call.

* §1 files under a password, §2 the loaders, with what they leave in the file; a panic is `none`;
* §3 `loadOrGenerateEncryptedKeypair_again` -- what has been loaded once is loaded again.
-/

namespace AlterChat.Identity

open Lib

/-! ## 1. Files under a password -/

/-- The crates behind `secure_storage`. -/
structure Vault (Key : Type) where
  aead : Primitives Key
  /-- `derive_key`: Argon2 of a password and a salt. -/
  deriveKey : Bytes → Bytes → Key

variable {Keypair Key : Type}

/-- `encrypt_file_data`: salt, nonce, ciphertext. -/
def encryptFileData (V : Vault Key) (password : String) (salt : Vector UInt8 16) (nonce : Nonce)
    (plaintext : Bytes) : Option Bytes :=
  let key := V.deriveKey (Codec.utf8.enc password) salt.toList
  (V.aead.encrypt key nonce plaintext).map fun ciphertext => salt.toList ++
    nonce.toList ++ ciphertext

/-- The 12 bytes after the salt. -/
theorem size_nonce {data : Bytes} (h : ¬ data.length < 16 + 12) :
    ((data.drop 16).take 12).toArray.size = 12 := by
  rw [List.size_toArray, List.length_take, List.length_drop]
  omega

/-- `decrypt_file_data`. -/
def decryptFileData (V : Vault Key) (password : String) (data : Bytes) : Except String Bytes :=
  if h : data.length < 16 + 12 then .error "Data too short"
  else
    let key := V.deriveKey (Codec.utf8.enc password) (data.take 16)
    let nonce : Nonce := ⟨((data.drop 16).take 12).toArray, size_nonce h⟩
    match V.aead.aeadOpen key nonce (data.drop 28) with
    | none => .error "Decryption failed (wrong password?)"
    | some plaintext => .ok plaintext

/-- **What was encrypted decrypts with its password.** -/
theorem decryptFileData_encrypt {V : Vault Key} (hV : V.aead.Lawful) {password : String}
    {salt : Vector UInt8 16} {nonce : Nonce} {plaintext data : Bytes}
    (h : encryptFileData V password salt nonce plaintext = some data) :
    decryptFileData V password data = .ok plaintext := by
  unfold encryptFileData at h
  cases hacc : V.aead.accepts plaintext with
  | false =>
    simp only [Primitives.encrypt_of_not_accepts hacc] at h
    cases h
  | true =>
    simp only [Primitives.encrypt_of_accepts hacc, Option.map_some, Option.some.injEq] at h
    subst h
    generalize hseal : V.aead.aeadSeal (V.deriveKey (Codec.utf8.enc password) salt.toList) nonce
      plaintext = ciphertext
    have hsalt : salt.toList.length = 16 := by simp
    have hnonce : nonce.toList.length = 12 := by simp
    have htake : (salt.toList ++ nonce.toList ++ ciphertext).take 16 = salt.toList := by
      rw [List.append_assoc, List.take_left' hsalt]
    have hmiddle : ((salt.toList ++ nonce.toList ++ ciphertext).drop 16).take 12 =
        nonce.toList := by
      rw [List.append_assoc, List.drop_left' hsalt, List.take_left' hnonce]
    have hdrop : (salt.toList ++ nonce.toList ++ ciphertext).drop 28 = ciphertext :=
      List.drop_left' (by rw [List.length_append, hsalt, hnonce])
    have hread : (⟨(((salt.toList ++ nonce.toList ++ ciphertext).drop 16).take 12).toArray,
        by rw [hmiddle]; simp⟩ : Nonce) = nonce := by
      apply Vector.toArray_inj.mp
      show (((salt.toList ++ nonce.toList ++ ciphertext).drop 16).take 12).toArray = nonce.toArray
      rw [hmiddle, Vector.toList, Array.toArray_toList]
    unfold decryptFileData
    rw [dif_neg (by simp only [List.length_append, hsalt, hnonce]; omega)]
    simp only [hread, htake, hdrop]
    rw [← hseal, hV.open_seal]

/-- **What decrypts was sealed under the password**, if the cipher opens only what was sealed. -/
theorem decryptFileData_sealed {V : Vault Key}
    (hV : ∀ k n c m, V.aead.aeadOpen k n c = some m → c = V.aead.aeadSeal k n m) {password : String}
    {data plaintext : Bytes} (h : decryptFileData V password data = .ok plaintext) :
    ∃ (salt : Vector UInt8 16) (nonce : Nonce), data = salt.toList ++ nonce.toList ++
      V.aead.aeadSeal (V.deriveKey (Codec.utf8.enc password) salt.toList) nonce plaintext := by
  unfold decryptFileData at h
  split at h
  · cases h
  · next hlen =>
    simp only at h
    split at h
    · cases h
    · next m hopen =>
      cases h
      have hsalt : (data.take 16).toArray.size = 16 := by
        rw [List.size_toArray, List.length_take]
        omega
      refine ⟨⟨(data.take 16).toArray, hsalt⟩, ⟨((data.drop 16).take 12).toArray, size_nonce hlen⟩,
        ?_⟩
      have hc := hV _ _ _ _ hopen
      calc data = data.take 16 ++ ((data.drop 16).take 12 ++ ((data.drop 16).drop 12)) := by
            rw [List.take_append_drop, List.take_append_drop]
        _ = data.take 16 ++ (data.drop 16).take 12 ++ data.drop 28 := by
            rw [List.drop_drop, List.append_assoc]
        _ = _ := by
            rw [hc]
            rfl

/-! ## 2. The loaders -/

/-- The encoding of key pairs. -/
structure KeyFormat (Keypair : Type) where
  toProtobuf : Keypair → Except String Bytes
  fromProtobuf : Bytes → Except String Keypair

/-- What is encoded is decoded. -/
def KeyFormat.Documented (K : KeyFormat Keypair) : Prop :=
  ∀ keypair bytes, K.toProtobuf keypair = .ok bytes → K.fromProtobuf bytes = .ok keypair

/-- The path of what is kept in memory. -/
def MEMORY : String := ":memory:"

/-- The fresh values of a call. -/
structure Draw (Keypair : Type) where
  keypair : Keypair
  salt : Vector UInt8 16
  nonce : Nonce

/-- A file after a write. -/
def Written.leaves (answer : Written) (file : Option Bytes) (bytes : Bytes) : Option Bytes :=
  match answer with
  | .refused _ => file
  | .broken left _ => some left
  | .written => some bytes

/-- What is left of a write, with the result of the function that has written. -/
def written (os : FileSystem) (path : String) (file : Option Bytes) (bytes : Bytes)
    (keypair : Keypair) : Except String Keypair × Option Bytes :=
  let answer := os.write path
  (match answer.error with
    | some e => .error e
    | none => .ok keypair, Written.leaves answer file bytes)

/-- `load_or_generate_keypair`. -/
def loadOrGenerateKeypair (K : KeyFormat Keypair) (os : FileSystem) (path : String)
    (file : Option Bytes) (generated : Keypair) : Except String Keypair × Option Bytes :=
  if path = MEMORY then (.ok generated, file)
  else
    match file with
    | some bytes =>
      match os.read path with
      | some e => (.error e, file)
      | none => ((K.fromProtobuf bytes).mapError fun e => "Failed to parse keypair: " ++ e, file)
    | none =>
      match K.toProtobuf generated with
      | .error e => (.error ("Failed to encode keypair: " ++ e), file)
      | .ok encoded => written os path file encoded generated

/-- `load_or_generate_encrypted_keypair`. -/
def loadOrGenerateEncryptedKeypair (K : KeyFormat Keypair) (V : Vault Key) (os : FileSystem)
    (path password : String) (file : Option Bytes) (draw : Draw Keypair) :
    Option (Except String Keypair × Option Bytes) :=
  if path = MEMORY then some (.ok draw.keypair, file)
  else
    match file with
    | some bytes =>
      match os.read path with
      | some e => some (.error e, file)
      | none =>
        match decryptFileData V password bytes with
        | .error e => some (.error ("Key decryption failed: " ++ e), file)
        | .ok decrypted =>
          some ((K.fromProtobuf decrypted).mapError fun e => "Failed to parse keypair: " ++ e, file)
    | none =>
      match K.toProtobuf draw.keypair with
      | .error e => some (.error ("Failed to encode keypair: " ++ e), file)
      | .ok encoded =>
        (encryptFileData V password draw.salt draw.nonce encoded).map fun encrypted =>
          written os path file encrypted draw.keypair

/-! ## 3. Loading again -/

variable {K : KeyFormat Keypair} {V : Vault Key}

/-- What a file yields under a password. -/
def Holds (K : KeyFormat Keypair) (V : Vault Key) (password : String) (bytes : Bytes)
    (keypair : Keypair) : Prop :=
  ∃ plain, decryptFileData V password bytes = .ok plain ∧ K.fromProtobuf plain = .ok keypair

/-- **What the encrypted loader yields is in the file** that it leaves. -/
theorem loadOrGenerateEncryptedKeypair_holds (hV : V.aead.Lawful) (hK : K.Documented)
    {os : FileSystem} {path password : String} {file file' : Option Bytes} {draw : Draw Keypair}
    {keypair : Keypair} (hpath : path ≠ MEMORY)
    (h : loadOrGenerateEncryptedKeypair K V os path password file draw =
      some (.ok keypair, file')) :
    ∃ bytes, file' = some bytes ∧ Holds K V password bytes keypair := by
  unfold loadOrGenerateEncryptedKeypair at h
  rw [if_neg hpath] at h
  cases file with
  | some bytes =>
    simp only at h
    split at h
    · cases h
    · split at h
      · cases h
      · next plain hplain =>
        cases hparse : K.fromProtobuf plain with
        | error e =>
          rw [hparse] at h
          cases h
        | ok k =>
          rw [hparse] at h
          cases h
          exact ⟨bytes, rfl, plain, hplain, hparse⟩
  | none =>
    simp only at h
    split at h
    · cases h
    · next encoded hencode =>
      obtain ⟨encrypted, hencrypt, hwritten⟩ := Option.map_eq_some_iff.mp h
      unfold written at hwritten
      cases hanswer : os.write path with
      | refused e | broken left e =>
        simp only [hanswer, Written.error] at hwritten
        cases hwritten
      | written =>
        simp only [hanswer, Written.error] at hwritten
        cases hwritten
        exact ⟨encrypted, rfl, encoded, decryptFileData_encrypt hV hencrypt, hK _ _ hencode⟩

/-- **What is in the file is what the encrypted loader yields**, or it cannot read the file. -/
theorem loadOrGenerateEncryptedKeypair_again {os : FileSystem} {path password : String}
    {bytes : Bytes} {draw : Draw Keypair} {keypair keypair' : Keypair} {file' : Option Bytes}
    (hpath : path ≠ MEMORY) (hholds : Holds K V password bytes keypair)
    (h : loadOrGenerateEncryptedKeypair K V os path password (some bytes) draw =
      some (.ok keypair', file')) :
    keypair' = keypair ∧ file' = some bytes := by
  obtain ⟨plain, hplain, hparse⟩ := hholds
  unfold loadOrGenerateEncryptedKeypair at h
  rw [if_neg hpath] at h
  simp only [hplain, hparse] at h
  split at h
  · cases h
  · cases h
    exact ⟨rfl, rfl⟩

/-- A file that is there is left as it is. -/
theorem loadOrGenerateEncryptedKeypair_file {os : FileSystem} {path password : String}
    {bytes : Bytes} {draw : Draw Keypair} {result : Except String Keypair} {file' : Option Bytes}
    (h : loadOrGenerateEncryptedKeypair K V os path password (some bytes) draw =
      some (result, file')) :
    file' = some bytes := by
  unfold loadOrGenerateEncryptedKeypair at h
  simp only at h
  split at h
  · cases h
    rfl
  · split at h
    · cases h
      rfl
    · split at h <;>
        · cases h
          rfl

/-- What has been loaded is in a file. -/
theorem loadOrGenerateEncryptedKeypair_some {os : FileSystem} {path password : String}
    {file file' : Option Bytes} {draw : Draw Keypair} {keypair : Keypair} (hpath : path ≠ MEMORY)
    (h : loadOrGenerateEncryptedKeypair K V os path password file draw =
      some (.ok keypair, file')) :
    file'.isSome = true := by
  cases file with
  | some bytes => rw [loadOrGenerateEncryptedKeypair_file h]; rfl
  | none =>
    unfold loadOrGenerateEncryptedKeypair at h
    rw [if_neg hpath] at h
    simp only at h
    split at h
    · cases h
    · obtain ⟨encrypted, -, hwritten⟩ := Option.map_eq_some_iff.mp h
      unfold written at hwritten
      cases hanswer : os.write path with
      | refused e | broken left e =>
        simp only [hanswer, Written.error] at hwritten
        cases hwritten
      | written =>
        simp only [hanswer, Written.error] at hwritten
        cases hwritten
        rfl

/-- The plain loader leaves it as it is, too. -/
theorem loadOrGenerateKeypair_file (os : FileSystem) (path : String) (bytes : Bytes)
    (generated : Keypair) :
    (loadOrGenerateKeypair K os path (some bytes) generated).2 = some bytes := by
  unfold loadOrGenerateKeypair
  simp only
  split
  · rfl
  · split <;> rfl

/-- In memory every call yields its own draw. -/
theorem loadOrGenerateEncryptedKeypair_memory (os : FileSystem) (password : String)
    (file : Option Bytes) (draw : Draw Keypair) :
    loadOrGenerateEncryptedKeypair K V os MEMORY password file draw =
      some (.ok draw.keypair, file) :=
  if_pos rfl

end AlterChat.Identity
