import AlterChat.Core.Identity
import AlterChat.Lib.Gcm
import AlterChat.Lib.Run

/-!
# The stored X25519 secret

`load_or_generate_encrypted_x25519_secret` of `alterchat-core/src/crypto.rs`. It asks a file for a
secret under a password; whatever comes in its way, it draws a new secret and writes that over the
file. Its sibling `loadOrGenerateEncryptedKeypair` returns an error there and leaves the file.

* §1 the function, with what it leaves in the file;
* §2 `load_unlocks`, `load_draws` -- what a call does;
* §3 `secret_lost` -- what a call with another password does to a secret;
* §4 `secret_kept_iff` -- when a call that cannot unlock the file leaves it, and the runs in which a
  secret stays.
-/

namespace AlterChat.StoredSecret

open Lib Identity

/-! ## 1. The function -/

/-- A call: its password, what the operating system answers, and what is drawn. -/
structure Call where
  password : String
  os : FileSystem
  secret : Key32
  salt : Vector UInt8 16
  nonce : Nonce

section

variable {Key : Type} (V : Vault Key) (path : String)

/-- The secret in a file, if the file decrypts to 32 bytes. -/
def storedSecret (password : String) (bytes : Bytes) : Option Key32 :=
  match decryptFileData V password bytes with
  | .error _ => none
  | .ok decrypted => Layout.toVector 32 decrypted

/-- `load_or_generate_encrypted_x25519_secret`: the secret, and the file after the call. A panic is
    `none`. -/
def loadOrGenerateEncryptedX25519Secret (file : Option Bytes) (c : Call) :
    Option (Key32 × Option Bytes) :=
  let stored :=
    match file, c.os.read path with
    | some bytes, none => storedSecret V c.password bytes
    | _, _ => none
  match stored with
  | some arr => some (arr, file)
  | none =>
    -- whether the write succeeds is not looked at
    (encryptFileData V c.password c.salt c.nonce c.secret.toList).map fun encrypted =>
      (c.secret, Written.leaves (c.os.write path) file encrypted)

/-- The file after a call. -/
def after (file : Option Bytes) (c : Call) : Option Bytes :=
  match loadOrGenerateEncryptedX25519Secret V path file c with
  | some (_, file') => file'
  | none => file

/-- What a file holds under a password. -/
def HoldsSecret (password : String) (bytes : Bytes) (secret : Key32) : Prop :=
  decryptFileData V password bytes = .ok secret.toList

/-- A file decrypts to 32 bytes under a password. -/
def Unlocks (password : String) (bytes : Bytes) : Prop :=
  ∃ secret, HoldsSecret V password bytes secret

/-- A secret is stored under a password. -/
def Stored (password : String) (file : Option Bytes) (secret : Key32) : Prop :=
  ∃ bytes, file = some bytes ∧ HoldsSecret V password bytes secret

/-- A write leaves what the file holds. -/
def Spares (answer : Written) (bytes : Bytes) : Prop :=
  match answer with
  | .refused _ => True
  | .broken left _ => left = bytes
  | .written => False

/-- A call that cannot lose what is there: it reads the file, which decrypts to 32 bytes under its
    password; or it cannot unlock the file, and cannot write it either. -/
def Careful (file : Option Bytes) (c : Call) : Prop :=
  ∀ bytes, file = some bytes →
    (Unlocks V c.password bytes ∧ c.os.read path = none) ∨
      (¬ Unlocks V c.password bytes ∧ Spares (c.os.write path) bytes)

variable {V path}

/-! ## 2. A call -/

theorem storedSecret_iff {password : String} {bytes : Bytes} {secret : Key32} :
    storedSecret V password bytes = some secret ↔ HoldsSecret V password bytes secret := by
  unfold storedSecret HoldsSecret
  cases decryptFileData V password bytes with
  | error e => exact iff_of_false nofun nofun
  | ok decrypted => rw [Except.ok.injEq, Layout.toVector_iff]

theorem storedSecret_none {password : String} {bytes : Bytes} :
    storedSecret V password bytes = none ↔ ¬ Unlocks V password bytes := by
  rw [Option.eq_none_iff_forall_ne_some]
  constructor
  · rintro h ⟨secret, hsecret⟩
    exact h secret (storedSecret_iff.mpr hsecret)
  · intro h secret hsecret
    exact h ⟨secret, storedSecret_iff.mp hsecret⟩

/-- A call that reads the file and unlocks it leaves it. -/
theorem load_unlocks {bytes : Bytes} {c : Call} {secret : Key32} (hread : c.os.read path = none)
    (h : HoldsSecret V c.password bytes secret) :
    loadOrGenerateEncryptedX25519Secret V path (some bytes) c = some (secret, some bytes) := by
  unfold loadOrGenerateEncryptedX25519Secret
  simp only [hread, storedSecret_iff.mpr h]

/-- **Every other call draws**: what it would write holds the new secret under its password. -/
theorem load_draws (hV : V.aead.Lawful) (hG : V.aead.Gcm) (path : String)
    (file : Option Bytes) (c : Call)
    (h : ∀ bytes, file = some bytes → c.os.read path = none → ¬ Unlocks V c.password bytes) :
    ∃ encrypted, encryptFileData V c.password c.salt c.nonce c.secret.toList = some encrypted ∧
      HoldsSecret V c.password encrypted c.secret ∧
      loadOrGenerateEncryptedX25519Secret V path file c =
        some (c.secret, Written.leaves (c.os.write path) file encrypted) := by
  have haccepts : V.aead.accepts c.secret.toList = true := by
    rw [hG.accepts_iff, Vector.length_toList]
    decide
  obtain ⟨encrypted, hencrypt⟩ : ∃ encrypted,
      encryptFileData V c.password c.salt c.nonce c.secret.toList = some encrypted := by
    simp only [encryptFileData, Primitives.encrypt_of_accepts haccepts, Option.map_some]
    exact ⟨_, rfl⟩
  refine ⟨encrypted, hencrypt, decryptFileData_encrypt hV hencrypt, ?_⟩
  unfold loadOrGenerateEncryptedX25519Secret
  cases file with
  | none => simp only [hencrypt, Option.map_some]
  | some bytes =>
    cases hread : c.os.read path with
    | some e => simp only [hencrypt, Option.map_some]
    | none => simp only [storedSecret_none.mpr (h bytes rfl hread), hencrypt, Option.map_some]

/-- A call that cannot unlock the file is one of them. -/
theorem load_locked (hV : V.aead.Lawful) (hG : V.aead.Gcm) (path : String)
    {bytes : Bytes} {c : Call} (hlocked : ¬ Unlocks V c.password bytes) :
    ∃ encrypted, encryptFileData V c.password c.salt c.nonce c.secret.toList = some encrypted ∧
      HoldsSecret V c.password encrypted c.secret ∧
      loadOrGenerateEncryptedX25519Secret V path (some bytes) c =
        some (c.secret, Written.leaves (c.os.write path) (some bytes) encrypted) := by
  refine load_draws hV hG path (some bytes) c fun bytes' heq _ => ?_
  cases heq
  exact hlocked

/-- What a refused write leaves, or one that breaks off where it has to. -/
theorem leaves_iff {answer : Written} {bytes encrypted : Bytes} (hne : encrypted ≠ bytes) :
    Written.leaves answer (some bytes) encrypted = some bytes ↔ Spares answer bytes := by
  cases answer with
  | refused e => exact iff_of_true rfl trivial
  | broken left e => exact Option.some_inj
  | written => exact iff_of_false (fun h => hne (Option.some.inj h)) id

/-- **A call that cannot unlock the file leaves it just when it cannot write it.** -/
theorem after_locked (hV : V.aead.Lawful) (hG : V.aead.Gcm) {bytes : Bytes} {c : Call}
    (hlocked : ¬ Unlocks V c.password bytes) :
    after V path (some bytes) c = some bytes ↔ Spares (c.os.write path) bytes := by
  obtain ⟨encrypted, -, hholds, hload⟩ := load_locked hV hG path hlocked
  have hne : encrypted ≠ bytes := by
    rintro rfl
    exact hlocked ⟨c.secret, hholds⟩
  unfold after
  rw [hload]
  exact leaves_iff hne

/-- A call that goes through stores what it returns. -/
theorem stored_of_written (hV : V.aead.Lawful) (hG : V.aead.Gcm)
    {file file' : Option Bytes} {c : Call} {secret : Key32} (hwrite : c.os.write path = .written)
    (h : loadOrGenerateEncryptedX25519Secret V path file c = some (secret, file')) :
    Stored V c.password file' secret := by
  by_cases hunlocks : ∃ bytes, file = some bytes ∧ c.os.read path = none ∧
    Unlocks V c.password bytes
  · obtain ⟨bytes, rfl, hread, stored, hstored⟩ := hunlocks
    rw [load_unlocks hread hstored] at h
    cases h
    exact ⟨bytes, rfl, hstored⟩
  · obtain ⟨encrypted, -, hholds, hload⟩ := load_draws hV hG path file c
      fun bytes hfile hread hlocks => hunlocks ⟨bytes, hfile, hread, hlocks⟩
    rw [hload, hwrite] at h
    cases h
    exact ⟨encrypted, rfl, hholds⟩

/-! ## 3. A secret is lost -/

/-- **Another password takes the place of the secret**, and with the old one a new secret is drawn
    from then on. -/
theorem secret_lost (hV : V.aead.Lawful) (hG : V.aead.Gcm) {bytes : Bytes} {c d : Call}
    (hlocked : ¬ Unlocks V c.password bytes) (hwrite : c.os.write path = .written)
    (hother : ∀ encrypted, encryptFileData V c.password c.salt c.nonce c.secret.toList =
      some encrypted →
      ¬ Unlocks V d.password encrypted) :
    ∃ file', loadOrGenerateEncryptedX25519Secret V path (after V path (some bytes) c) d =
      some (d.secret, file') := by
  obtain ⟨encrypted, hencrypt, -, hload⟩ := load_locked hV hG path hlocked
  have hafter : after V path (some bytes) c = some encrypted := by
    unfold after
    rw [hload, hwrite]
    rfl
  rw [hafter]
  obtain ⟨encrypted', -, -, hload'⟩ := load_locked hV hG path (hother encrypted hencrypt)
  exact ⟨_, hload'⟩

/-! ## 4. A secret stays -/

/-- A careful call leaves the file. -/
theorem after_careful (hV : V.aead.Lawful) (hG : V.aead.Gcm) {bytes : Bytes} {c : Call}
    (h : Careful V path (some bytes) c) : after V path (some bytes) c = some bytes := by
  rcases h bytes rfl with ⟨⟨secret, hsecret⟩, hread⟩ | ⟨hlocked, hspares⟩
  · unfold after
    rw [load_unlocks hread hsecret]
  · exact (after_locked hV hG hlocked).mpr hspares

/-- **Careful calls leave the file.** -/
theorem run_careful (hV : V.aead.Lawful) (hG : V.aead.Gcm) {bytes : Bytes} {calls : List Call}
    (h : Along (after V path) (Careful V path) (some bytes) calls) :
    calls.foldl (after V path) (some bytes) = some bytes := by
  refine Along.inv (I := fun file => file = some bytes) h rfl ?_
  rintro _ c - hcareful rfl
  exact after_careful hV hG hcareful

/-- **A stored secret and a failed unlock**: a call that cannot unlock the file leaves it just when
    the file can be unlocked after all or the write does not reach it; and where all calls are
    careful, a secret that is stored under a password is what every later call with this password
    returns, and the file stays. -/
theorem secret_kept_iff (hV : V.aead.Lawful) (hG : V.aead.Gcm) (path : String) :
    (∀ bytes c, (¬ Unlocks V c.password bytes → after V path (some bytes) c = some bytes) ↔
      Unlocks V c.password bytes ∨ Spares (c.os.write path) bytes) ∧
    ∀ file calls c secret, Stored V c.password file secret →
      Along (after V path) (Careful V path) file (calls ++ [c]) →
      loadOrGenerateEncryptedX25519Secret V path (calls.foldl (after V path) file) c =
        some (secret, file) := by
  refine ⟨fun bytes c => ?_, ?_⟩
  · by_cases hunlocks : Unlocks V c.password bytes
    · exact iff_of_true (fun h => absurd hunlocks h) (.inl hunlocks)
    · rw [after_locked hV hG hunlocks]
      constructor
      · exact fun h => .inr (h hunlocks)
      · exact fun h _ => h.resolve_left hunlocks
  · rintro _ calls c secret ⟨bytes, rfl, hstored⟩ halong
    obtain ⟨hcalls, hlast⟩ := Along.append.mp halong
    rw [run_careful hV hG hcalls] at hlast ⊢
    rcases hlast.1 bytes rfl with ⟨-, hread⟩ | ⟨hlocked, -⟩
    · exact load_unlocks hread hstored
    · exact absurd ⟨secret, hstored⟩ hlocked

end

/-- A stand-in for Argon2: the beginning of the password. -/
def shortVault : Vault Key32 where
  aead := plain32
  deriveKey password _ := Vector.ofFn fun i => password.getD i 0

/-- A call with a password that draws the same byte 32 times. -/
def callWith (os : FileSystem) (password : String) (byte : UInt8) : Call where
  password
  os
  secret := Vector.replicate 32 byte
  salt := Vector.replicate 16 0
  nonce := Vector.replicate 12 0

/-- The file that the first call leaves. -/
def firstFile : Bytes :=
  List.replicate 28 0 ++ List.replicate 32 1 ++ [114, 105, 103, 104, 116] ++ List.replicate 11 0

theorem firstFile_holds : HoldsSecret shortVault "right" firstFile (Vector.replicate 32 1) := rfl

theorem firstFile_locked : ¬ Unlocks shortVault "wrong" firstFile :=
  storedSecret_none.mp (by decide)

/-- **One call with a wrong password**, and the right one does not bring the secret back. -/
theorem wrong_password_replaces :
    after shortVault "x25519" none (callWith .willing "right" 1) = some firstFile ∧
    ¬ Unlocks shortVault "wrong" firstFile ∧
    after shortVault "x25519" (some firstFile) (callWith .willing "wrong" 2) ≠ some firstFile ∧
    (loadOrGenerateEncryptedX25519Secret shortVault "x25519"
        (after shortVault "x25519" (some firstFile) (callWith .willing "wrong" 2))
        (callWith .willing "right" 3)).map (fun r => r.1) = some (Vector.replicate 32 3) := by
  exact ⟨by decide, firstFile_locked, by decide, by decide⟩

/-- On a disk that takes no write the secret stays. -/
theorem secret_kept_readOnly :
    after shortVault "x25519" (some firstFile) (callWith .readOnly "wrong" 2) = some firstFile ∧
    loadOrGenerateEncryptedX25519Secret shortVault "x25519"
        ([callWith .readOnly "wrong" 2].foldl (after shortVault "x25519") (some firstFile))
        (callWith .willing "right" 3) =
      some (Vector.replicate 32 1, some firstFile) := by
  obtain ⟨hone, hruns⟩ := secret_kept_iff (V := shortVault) plain32_lawful plain32_gcm "x25519"
  have hkept : after shortVault "x25519" (some firstFile) (callWith .readOnly "wrong" 2) =
      some firstFile :=
    (hone firstFile (callWith .readOnly "wrong" 2)).mpr (.inr trivial) firstFile_locked
  refine ⟨hkept, hruns (some firstFile) _ _ _ ⟨firstFile, rfl, firstFile_holds⟩ ⟨?_, ?_, trivial⟩⟩
  · intro bytes hbytes
    cases hbytes
    exact .inr ⟨firstFile_locked, trivial⟩
  · intro bytes hbytes
    rw [hkept] at hbytes
    cases hbytes
    exact .inl ⟨⟨_, firstFile_holds⟩, rfl⟩

end AlterChat.StoredSecret
