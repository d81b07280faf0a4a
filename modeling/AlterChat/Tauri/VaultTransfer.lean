import AlterChat.Lib.Arrivals
import AlterChat.Lib.Symbolic
import AlterChat.Core.Identity
import AlterChat.Tauri.Invites

/-!
# A profile carried to another device

From `commands/settings.rs`: `export_vault_encrypted` writes the settings, the friends and the saved
groups of the open profile into one encrypted text, `import_vault_encrypted` reads the settings out
of such a text.

* §1 hexadecimal texts, §2 the statements, §3 the two commands;
* §4 `import_refuses` -- what was not sealed under the password is refused, and nothing is written;
  `import_exported` -- what an export leaves at the other end;
* §5 `vault_inverse_iff` -- when the two ends then have the same rows;
* §6 a friend who stays behind.
-/

namespace AlterChat.VaultTransfer

open Lib Governance Db Commands Identity

variable {Key : Type}

/-! ## 1. Hexadecimal texts -/

/-- The value of a hexadecimal digit of either case. -/
def hexValue (c : Char) : Option Nat :=
  if '0' ≤ c ∧ c ≤ '9' then some (c.toNat - 48)
  else if 'a' ≤ c ∧ c ≤ 'f' then some (c.toNat - 87)
  else if 'A' ≤ c ∧ c ≤ 'F' then some (c.toNat - 55)
  else none

def hexPairs : List Char → Option Bytes
  | [] => some []
  | [_] => none
  | hi :: lo :: rest =>
    match hexValue hi, hexValue lo, hexPairs rest with
    | some h, some l, some bytes => some (UInt8.ofNat (16 * h + l) :: bytes)
    | _, _, _ => none

/-- `hex::decode`. -/
def hexDecode (s : String) : Option Bytes := hexPairs s.toList

theorem hexValue_hexDigit {n : Nat} (h : n < 16) : hexValue (hexDigit n) = some n := by
  interval_cases n <;> rfl

theorem hexDecode_hexString (bytes : Bytes) : hexDecode (hexString bytes) = some bytes := by
  unfold hexDecode hexString
  rw [String.toList_ofList]
  induction bytes with
  | nil => rfl
  | cons b rest ih =>
    have hb := b.toNat_lt
    have hbyte : UInt8.ofNat (16 * (b.toNat / 16) + b.toNat % 16) = b := by
      rw [Nat.div_add_mod, UInt8.ofNat_toNat]
    rw [List.flatMap_cons]
    simp only [List.cons_append, List.nil_append, hexPairs, ih]
    rw [hexValue_hexDigit (by omega), hexValue_hexDigit (by omega)]
    simp only [hbyte]

/-! ## 2. The statements -/

inductive VaultStmt where
  | exportSettings
  | getSavedGroups
  | saveSetting (key : String)
  | saveAppSetting (key : String)
  deriving DecidableEq

/-- The statements that fail, with the error each reports. -/
abbrev VaultFaults := VaultStmt → Option String

/-- `export_settings`. -/
def exportSettings (f : VaultFaults) (db : Database) : Except String (List (String × String)) :=
  match f .exportSettings with
  | some e => .error e
  | none =>
    .ok ((db.appSettings.entries.map fun r => (r.1, r.2)).mergeSort fun a b => decide (a.1 ≤ b.1))

/-- `get_saved_groups`. -/
def getSavedGroups (f : VaultFaults) (db : Database) : Except String (List (String × SavedGroup)) :=
  match f .getSavedGroups with
  | some e => .error e
  | none => .ok (db.savedGroups.entries.map fun r => (r.1, r.2))

/-- `save_setting`: the legacy table first. -/
def saveSetting (f : VaultFaults) (db : Database) (key value : String) :
    Except String Unit × Database :=
  match f (.saveSetting key) with
  | some e => (.error e, db)
  | none =>
    let db := { db with settings := db.settings.upsert key value fun _ => value }
    match f (.saveAppSetting key) with
    | some e => (.error e, db)
    | none => (.ok (), { db with appSettings := db.appSettings.upsert key value fun _ => value })

/-! ## 3. The two commands -/

/-- `VaultExport`, as it is written. -/
structure VaultExport where
  settings : List (String × String)
  friends : List (String × Friend)
  groups : List (String × SavedGroup)
  version : UInt32
  deriving DecidableEq

/-- The JSON of a vault; the importer reads one field of it. -/
structure VaultJson where
  enc : VaultExport → Bytes
  dec : Bytes → Except String (List (String × String))
  dec_enc : ∀ e, dec (enc e) = .ok e.settings

/-- `export_vault_encrypted`; `none` is the panic of `encrypt_file_data`. -/
def exportVaultEncrypted (V : Vault Key) (J : VaultJson) (f : Faults) (fv : VaultFaults)
    (d : Device) (salt : Vector UInt8 16) (nonce : Nonce) (exportPassword : String) :
    Option (Except String String) :=
  match d.initDb f with
  | .error e => some (.error e)
  | .ok db =>
    match exportSettings fv db with
    | .error e => some (.error e)
    | .ok settings =>
      match getFriends f db with
      | .error e => some (.error e)
      | .ok friends =>
        match getSavedGroups fv db with
        | .error e => some (.error e)
        | .ok groups =>
          let plaintext := J.enc { settings, friends, groups, version := 1 }
          (encryptFileData V exportPassword salt nonce plaintext).map fun encrypted =>
            .ok (hexString encrypted)

/-- `db_path` and `db_key`, before anything is opened. -/
def loggedIn (d : Device) : Except String Unit :=
  if d.app.dbPath.isSome && d.app.dbKey.isSome then .ok () else .error "Not logged in"

/-- The loop over the settings: that one cannot be saved is ignored. -/
def importSettings (fv : VaultFaults) (db : Database)
    (settings : List (String × String)) : Database :=
  settings.foldl (fun db kv => (saveSetting fv db kv.1 kv.2).2) db

/-- `import_vault_encrypted`; `hexError` is the text of an error of `hex::decode`. -/
def importVaultEncrypted (V : Vault Key) (J : VaultJson) (hexError : String → String) (f : Faults)
    (fv : VaultFaults) (d : Device) (encryptedHex importPassword : String) :
    Except String Unit × Device :=
  match loggedIn d with
  | .error e => (.error e, d)
  | .ok () =>
    match hexDecode encryptedHex with
    | none => (.error (hexError encryptedHex), d)
    | some bytes =>
      match decryptFileData V importPassword bytes with
      | .error e => (.error e, d)
      | .ok plaintext =>
        match J.dec plaintext with
        | .error e => (.error e, d)
        | .ok settings =>
          match d.initDb f with
          | .error e => (.error e, d)
          | .ok db => (.ok (), d.close (importSettings fv db settings))

/-! ## 4. What an import does -/

/-- What is documented of the cipher and of Argon2: a ciphertext opens under its key alone, and two
    passwords have two keys. -/
structure Sealing (V : Vault Key) : Prop where
  aead : V.aead.Ideal
  key : ∀ p p' salt, V.deriveKey (Codec.utf8.enc p) salt = V.deriveKey (Codec.utf8.enc p') salt →
    p = p'

/-- The text is something that was sealed under the password, in digits of either case. -/
def VaultOf (V : Vault Key) (password text : String) : Prop :=
  ∃ (salt : Vector UInt8 16) (nonce : Nonce) (plaintext : Bytes),
    hexDecode text = some (salt.toList ++ nonce.toList ++
      V.aead.aeadSeal (V.deriveKey (Codec.utf8.enc password) salt.toList) nonce plaintext)

variable {V : Vault Key} {J : VaultJson} {hexError : String → String} {f f' : Faults}
  {fv fv' : VaultFaults} {d d' : Device} {salt : Vector UInt8 16} {nonce : Nonce}
  {password blob : String}

/-- **What was not sealed under the password is refused, and nothing is written.** -/
theorem import_refuses (hV : Sealing V) {text : String} (h : ¬ VaultOf V password text) :
    ∃ e, importVaultEncrypted V J hexError f fv d text password = (.error e, d) := by
  unfold importVaultEncrypted
  cases loggedIn d with
  | error e => exact ⟨e, rfl⟩
  | ok =>
    cases hhex : hexDecode text with
    | none => exact ⟨_, rfl⟩
    | some bytes =>
      cases hdec : decryptFileData V password bytes with
      | error e => exact ⟨e, by simp only [hdec]⟩
      | ok plaintext =>
        obtain ⟨salt, nonce, rfl⟩ := decryptFileData_sealed hV.aead.open_sound hdec
        exact absurd ⟨salt, nonce, plaintext, hhex⟩ h

/-- Both statements for a key succeed. -/
def saves (fv : VaultFaults) (key : String) : Bool :=
  (fv (.saveSetting key)).isNone && (fv (.saveAppSetting key)).isNone

theorem saveSetting_frame (fv : VaultFaults) (db : Database) (key value : String) :
    ∃ legacy, (saveSetting fv db key value).2 =
      { db with
        settings := legacy
        appSettings :=
          if saves fv key then db.appSettings.upsert key value fun _ => value
          else db.appSettings } := by
  unfold saveSetting saves
  cases fv (.saveSetting key) with
  | some e => exact ⟨db.settings, rfl⟩
  | none =>
    cases fv (.saveAppSetting key) with
    | some e => exact ⟨_, rfl⟩
    | none => exact ⟨_, rfl⟩

/-- **The loop writes the two tables of settings, and nothing else.** -/
theorem importSettings_frame (fv : VaultFaults) (db : Database)
    (settings : List (String × String)) :
    ∃ legacy, importSettings fv db settings =
      { db with
        settings := legacy
        appSettings := saveAll Prod.fst Prod.snd db.appSettings
          (settings.filter fun kv => saves fv kv.1) } := by
  induction settings generalizing db with
  | nil => exact ⟨db.settings, rfl⟩
  | cons kv rest ih =>
    obtain ⟨key, value⟩ := kv
    obtain ⟨legacy, hstep⟩ := saveSetting_frame fv db key value
    obtain ⟨legacy', hrest⟩ := ih (saveSetting fv db key value).2
    refine ⟨legacy', ?_⟩
    show importSettings fv (saveSetting fv db key value).2 rest = _
    rw [hrest, hstep, List.filter_cons]
    cases saves fv key <;> rfl

theorem mem_exportSettings {db : Database} {settings : List (String × String)}
    (h : exportSettings fv db = .ok settings) (key value : String) :
    (key, value) ∈ settings ↔ db.appSettings.lookup key = some value := by
  unfold exportSettings at h
  split at h
  · cases h
  · cases h
    rw [List.mem_mergeSort, ← Option.mem_def, AList.mem_lookup_iff, List.mem_map]
    constructor
    · intro h
      obtain ⟨row, hrow, heq⟩ := h
      cases heq
      exact hrow
    · intro h
      exact ⟨⟨key, value⟩, h, rfl⟩

/-- The settings that arrive, of those that were exported. -/
theorem importSettings_lookup {db db' : Database} {settings : List (String × String)}
    (h : exportSettings fv db = .ok settings) (key : String) :
    (importSettings fv' db' settings).appSettings.lookup key =
      (if saves fv' key then db.appSettings.lookup key else none).or
        (db'.appSettings.lookup key) := by
  obtain ⟨legacy, hframe⟩ := importSettings_frame fv' db' settings
  have hrows : ∀ k v, (k, v) ∈ settings.filter (fun kv => saves fv' kv.1) ↔
      (if saves fv' k then db.appSettings.lookup k else none) = some v := by
    intro k v
    rw [List.mem_filter, mem_exportSettings h]
    cases saves fv' k <;> simp
  rw [hframe]
  exact lookup_saveAll_rows hrows key

theorem encryptFileData_eq {plaintext data : Bytes}
    (h : encryptFileData V password salt nonce plaintext = some data) :
    data = salt.toList ++ nonce.toList ++
      V.aead.aeadSeal (V.deriveKey (Codec.utf8.enc password) salt.toList) nonce plaintext := by
  unfold encryptFileData Primitives.encrypt at h
  split at h
  · exact (Option.some.inj h).symm
  · cases h

/-- What an exported text was made of. -/
theorem export_cases (h : exportVaultEncrypted V J f fv d salt nonce password = some (.ok blob)) :
    ∃ db e data, d.initDb f = .ok db ∧ exportSettings fv db = .ok e.settings ∧
      encryptFileData V password salt nonce (J.enc e) = some data ∧ blob = hexString data := by
  unfold exportVaultEncrypted at h
  split at h
  · cases h
  · next db hdb =>
    split at h
    · cases h
    · next settings hsettings =>
      split at h
      · cases h
      · next friends hfriends =>
        split at h
        · cases h
        · next groups hgroups =>
          obtain ⟨data, hdata, hblob⟩ := Option.map_eq_some_iff.mp h
          cases hblob
          exact ⟨db, _, data, hdb, hsettings, hdata, rfl⟩

theorem initDb_of_loggedIn {e : String} (h : loggedIn d = .error e) : d.initDb f = .error e := by
  unfold loggedIn at h
  unfold Device.initDb
  cases hpath : d.app.dbPath with
  | none => simpa [hpath] using h
  | some path =>
    cases hkey : d.app.dbKey with
    | none => simpa [hpath, hkey] using h
    | some key => simp [hpath, hkey] at h

/-- **What an export leaves at the other end**: its settings, if the database there opens. -/
theorem import_exported (hexError : String → String) (f' : Faults) (fv' : VaultFaults) (d' : Device)
    (hV : Sealing V)
    (h : exportVaultEncrypted V J f fv d salt nonce password = some (.ok blob)) :
    ∃ db settings, d.initDb f = .ok db ∧ exportSettings fv db = .ok settings ∧
      importVaultEncrypted V J hexError f' fv' d' blob password =
        match d'.initDb f' with
        | .error e => (.error e, d')
        | .ok db' => (.ok (), d'.close (importSettings fv' db' settings)) := by
  obtain ⟨db, e, data, hdb, hsettings, hdata, rfl⟩ := export_cases h
  refine ⟨db, e.settings, hdb, hsettings, ?_⟩
  unfold importVaultEncrypted
  cases hin : loggedIn d' with
  | error e => rw [initDb_of_loggedIn hin]
  | ok =>
    simp only [hexDecode_hexString, decryptFileData_encrypt hV.aead.toLawful hdata, J.dec_enc]

/-- An export is the vault of no other password. -/
theorem export_vaultOf (hV : Sealing V)
    (h : exportVaultEncrypted V J f fv d salt nonce password = some (.ok blob)) {p : String}
    (hp : VaultOf V p blob) : p = password := by
  obtain ⟨db, e, data, -, -, hdata, rfl⟩ := export_cases h
  obtain ⟨salt', nonce', plaintext, hhex⟩ := hp
  rw [hexDecode_hexString, encryptFileData_eq hdata] at hhex
  obtain ⟨hhead, hseal⟩ := List.append_inj (Option.some.inj hhex) (by simp)
  obtain ⟨hsalt, -⟩ := List.append_inj hhead (by simp)
  rw [hsalt] at hseal
  exact (hV.key _ _ _ (hV.aead.seal_key _ _ _ _ _ _ hseal)).symm

/-! ## 5. The same profile at the other end -/

/-- The database of the open profile: its file, or what the session keeps in memory. -/
def profile (d : Device) : Database :=
  if d.app.dbPath = some ":memory:" then d.connDb.getD .empty else d.file

theorem profile_onDisk (hd : d.OnDisk) : profile d = d.file := if_neg hd

/-- A profile without settings, friends and groups. -/
structure Fresh (db : Database) : Prop where
  settings : db.appSettings = ∅
  friends : db.friends = ∅
  groups : db.savedGroups = ∅

/-- The same settings, friends and groups. -/
structure SameRows (db db' : Database) : Prop where
  settings : ∀ key, db'.appSettings.lookup key = db.appSettings.lookup key
  friends : ∀ id, db'.friends.lookup id = db.friends.lookup id
  groups : ∀ name, db'.savedGroups.lookup name = db.savedGroups.lookup name

/-- An import is refused and leaves the device as it was. -/
def Refused (V : Vault Key) (J : VaultJson) (hexError : String → String) (f : Faults)
    (fv : VaultFaults) (d : Device) (text password : String) : Prop :=
  ∃ e, importVaultEncrypted V J hexError f fv d text password = (.error e, d)

/-- **Import undoes export**: what was exported from one device arrives at the other, and neither
    another password nor another text is taken. -/
structure Inverse (V : Vault Key) (J : VaultJson) (hexError : String → String) (f : Faults)
    (fv : VaultFaults) (d d' : Device) (password blob : String) : Prop where
  succeeds : (importVaultEncrypted V J hexError f fv d' blob password).1 = .ok ()
  same : SameRows (profile d) (profile (importVaultEncrypted V J hexError f fv d' blob password).2)
  wrongPassword : ∀ p, p ≠ password → Refused V J hexError f fv d' blob p
  modified : ∀ text, ¬ VaultOf V password text → Refused V J hexError f fv d' text password

/-- There is nothing but settings to carry, and each of them is read from a file and saved to
    one. -/
structure OnlySettings (f : Faults) (fv : VaultFaults) (d d' : Device) : Prop where
  opens : ∃ db, d'.initDb f = .ok db
  settings : ∀ key value, (profile d).appSettings.lookup key = some value →
    d.OnDisk ∧ d'.OnDisk ∧ saves fv key = true
  friends : ∀ id, (profile d).friends.lookup id = none
  groups : ∀ name, (profile d).savedGroups.lookup name = none

theorem profile_close (hd : d.OnDisk) (db : Database) : profile (d.close db) = db := by
  rw [close_onDisk hd]
  exact if_neg hd

theorem close_memory (hd : ¬ d.OnDisk) (db : Database) : d.close db = d := if_pos (not_not.mp hd)

/-- A command on a profile in memory works on an empty database. -/
theorem initDb_memory {db : Database} (hdb : d.initDb f = .ok db) (hd : ¬ d.OnDisk) :
    db = .empty := by
  unfold Device.initDb at hdb
  split at hdb
  · cases hdb
  · next path hpath =>
    have hmem : path = ":memory:" := Option.some.inj (hpath.symm.trans (not_not.mp hd))
    split at hdb
    · cases hdb
    · rw [if_pos hmem] at hdb
      exact (query_ok hdb).2.symm

/-- The settings that are exported. -/
theorem exported_settings {db : Database} (hdb : d.initDb f = .ok db) (key value : String) :
    db.appSettings.lookup key = some value ↔
      d.OnDisk ∧ (profile d).appSettings.lookup key = some value := by
  by_cases hd : d.OnDisk
  · rw [initDb_onDisk hdb hd, profile_onDisk hd, and_iff_right hd]
  · rw [initDb_memory hdb hd, Database.empty, AList.lookup_empty]
    simp [hd]

/-- The settings that a profile without any has after an import. -/
theorem imported_settings (fv' : VaultFaults) {db db' : Database}
    {settings : List (String × String)} (hfresh : Fresh (profile d'))
    (hdb' : d'.initDb f' = .ok db') (hsettings : exportSettings fv db = .ok settings)
    (key value : String) :
    (profile (d'.close (importSettings fv' db' settings))).appSettings.lookup key = some value ↔
      d'.OnDisk ∧ saves fv' key = true ∧ db.appSettings.lookup key = some value := by
  have hempty := hfresh.settings
  by_cases hd : d'.OnDisk
  · rw [profile_onDisk hd] at hempty
    rw [profile_close hd, importSettings_lookup hsettings, initDb_onDisk hdb' hd, hempty,
      AList.lookup_empty, Option.or_none, and_iff_right hd]
    cases saves fv' key <;> simp
  · rw [close_memory hd, hempty, AList.lookup_empty]
    simp [hd]

/-- An import leaves the friends and the groups that were there. -/
theorem imported_rest (fv' : VaultFaults) {db' : Database} (settings : List (String × String))
    (hdb' : d'.initDb f' = .ok db') :
    (profile (d'.close (importSettings fv' db' settings))).friends = (profile d').friends ∧
      (profile (d'.close (importSettings fv' db' settings))).savedGroups =
        (profile d').savedGroups := by
  by_cases hd : d'.OnDisk
  · obtain ⟨legacy, hframe⟩ := importSettings_frame fv' db' settings
    rw [profile_close hd, profile_onDisk hd, hframe, initDb_onDisk hdb' hd]
    exact ⟨rfl, rfl⟩
  · rw [close_memory hd]
    exact ⟨rfl, rfl⟩

/-- The rows are the same just when there was nothing but settings, and all of them have arrived. -/
theorem imported_same_iff {db db' : Database} {settings : List (String × String)}
    (hfresh : Fresh (profile d')) (hdb : d.initDb f = .ok db) (hdb' : d'.initDb f' = .ok db')
    (hsettings : exportSettings fv db = .ok settings) :
    SameRows (profile d) (profile (d'.close (importSettings fv' db' settings))) ↔
      OnlySettings f' fv' d d' := by
  have harrive := imported_settings fv' hfresh hdb' hsettings
  obtain ⟨hfriends, hgroups⟩ := imported_rest fv' settings hdb'
  rw [hfresh.friends] at hfriends
  rw [hfresh.groups] at hgroups
  constructor
  · intro h
    refine { opens := ⟨db', hdb'⟩, settings := ?_, friends := ?_, groups := ?_ }
    · intro key value hkey
      have hthere := hkey
      rw [← h.settings key, harrive, exported_settings hdb] at hthere
      exact ⟨hthere.2.2.1, hthere.1, hthere.2.1⟩
    · intro id
      rw [← h.friends id, hfriends, AList.lookup_empty]
    · intro name
      rw [← h.groups name, hgroups, AList.lookup_empty]
  · intro h
    refine ⟨?_, ?_, ?_⟩
    · intro key
      refine Option.ext fun value => ?_
      rw [harrive, exported_settings hdb]
      constructor
      · exact fun hkey => hkey.2.2.2
      · intro hkey
        obtain ⟨hd, hd', hsaves⟩ := h.settings key value hkey
        exact ⟨hd', hsaves, hd, hkey⟩
    · intro id
      rw [hfriends, AList.lookup_empty, h.friends id]
    · intro name
      rw [hgroups, AList.lookup_empty, h.groups name]

/-- **Import undoes export just when there is nothing but settings to carry.** -/
theorem vault_inverse_iff (hV : Sealing V) (hfresh : Fresh (profile d'))
    (hexport : exportVaultEncrypted V J f fv d salt nonce password = some (.ok blob)) :
    Inverse V J hexError f' fv' d d' password blob ↔ OnlySettings f' fv' d d' := by
  obtain ⟨db, settings, hdb, hsettings, himport⟩ :=
    import_exported hexError f' fv' d' hV hexport
  have hrefuses : (∀ p, p ≠ password → Refused V J hexError f' fv' d' blob p) ∧
      ∀ text, ¬ VaultOf V password text → Refused V J hexError f' fv' d' text password := by
    constructor
    · exact fun p hp => import_refuses hV fun hvault => hp (export_vaultOf hV hexport hvault)
    · exact fun text htext => import_refuses hV htext
  constructor
  · intro h
    have hok := h.succeeds
    have hsame := h.same
    rw [himport] at hok hsame
    cases hdb' : d'.initDb f' with
    | error e =>
      rw [hdb'] at hok
      cases hok
    | ok db' =>
      rw [hdb'] at hsame
      exact (imported_same_iff hfresh hdb hdb' hsettings).mp hsame
  · intro h
    obtain ⟨db', hdb'⟩ := h.opens
    rw [hdb'] at himport
    refine { succeeds := ?_, same := ?_, wrongPassword := hrefuses.1, modified := hrefuses.2 }
    · rw [himport]
    · rw [himport]
      exact (imported_same_iff hfresh hdb hdb' hsettings).mpr h

/-! ## 6. A friend stays behind -/

deriving instance Encodable for Friend, RoomSettings, SavedGroup, VaultExport

/-- The symbolic cipher, with a key of its own for each password and salt. -/
def symbolicVault : Vault Sym where
  aead := symbolic
  deriveKey password salt := .secret (Encodable.encode (password, salt))

theorem symbolicVault_sealing : Sealing symbolicVault where
  aead := symbolic_ideal
  key p p' salt h := by
    have hpair := Encodable.encode_injective (Sym.secret.inj h)
    exact Codec.utf8.enc_injective (Prod.mk.inj hpair).1

/-- A format of which the empty byte string is one vault. -/
def vaultJson (e : VaultExport) : VaultJson where
  enc := ((Codec.ofEncodable VaultExport).short e).enc
  dec bytes :=
    match ((Codec.ofEncodable VaultExport).short e).dec bytes with
    | some e => .ok e.settings
    | none => .error "expected value"
  dec_enc e' := by rw [Codec.dec_enc]

/-- A device whose profile is open. -/
def deviceWith (file : Database) : Device where
  app := { dbPath := some "alterchat.db", dbKey := some "key", keyPath := some "keypair.bin" }
  file
  conn := .file

/-- What is exported of a profile. -/
def contents (file : Database) : VaultExport where
  settings := (file.appSettings.entries.map fun r => (r.1, r.2)).mergeSort
    fun a b => decide (a.1 ≤ b.1)
  friends := file.friends.entries.map fun r => (r.1, r.2)
  groups := file.savedGroups.entries.map fun r => (r.1, r.2)
  version := 1

/-- No statement fails. -/
def allSucceed : VaultFaults := fun _ => none

def noSalt : Vector UInt8 16 := Vector.replicate 16 0

def noNonce : Nonce := Vector.replicate 12 0

theorem exports (file : Database) : ∃ blob, exportVaultEncrypted symbolicVault
    (vaultJson (contents file)) noFaults allSucceed (deviceWith file) noSalt noNonce "pw" =
      some (.ok blob) := by
  have hshort : (vaultJson (contents file)).enc (contents file) = [] := Codec.short_self _ _
  have haccepts :
      symbolicVault.aead.accepts ((vaultJson (contents file)).enc (contents file)) = true := by
    rw [hshort]
    decide
  have hencrypt : ∃ data, encryptFileData symbolicVault "pw" noSalt noNonce
      ((vaultJson (contents file)).enc (contents file)) = some data := by
    unfold encryptFileData
    simp only [Primitives.encrypt_of_accepts haccepts]
    exact ⟨_, rfl⟩
  obtain ⟨data, hdata⟩ := hencrypt
  refine ⟨hexString data, ?_⟩
  show (encryptFileData symbolicVault "pw" noSalt noNonce ((vaultJson (contents file)).enc
    (contents file))).map (fun encrypted => Except.ok (hexString encrypted)) = _
  rw [hdata]
  rfl

/-- A profile with one setting. -/
def themed : Database := { Database.empty with appSettings := AList.insert "theme" "dark" ∅ }

/-- A profile with one friend, who is trusted and muted. -/
def befriended : Database :=
  { Database.empty with
    friends := AList.insert "bob"
      { nickname := "Bob", offlinePubkey := some "00", trustLevel := 5, blocked := false
        muted := true, notes := none } ∅ }

def emptyDevice : Device := deviceWith .empty

def hexText (_ : String) : String := "Odd number of digits"

theorem vault_inverse_themed : ∃ blob,
    exportVaultEncrypted symbolicVault (vaultJson (contents themed)) noFaults allSucceed
      (deviceWith themed) noSalt noNonce "pw" = some (.ok blob) ∧
    Inverse symbolicVault (vaultJson (contents themed)) hexText noFaults allSucceed
      (deviceWith themed)
      emptyDevice "pw" blob := by
  obtain ⟨blob, hblob⟩ := exports themed
  have hdisk : (deviceWith themed).OnDisk := by
    intro h
    exact absurd (Option.some.inj h) (by decide)
  have honly : OnlySettings noFaults allSucceed (deviceWith themed) emptyDevice :=
    { opens := ⟨.empty, rfl⟩
      settings := fun key value h => ⟨hdisk, hdisk, rfl⟩
      friends := fun id => AList.lookup_empty id
      groups := fun name => AList.lookup_empty name }
  exact ⟨blob, hblob, (vault_inverse_iff symbolicVault_sealing ⟨rfl, rfl, rfl⟩ hblob).mpr honly⟩

/-- **A friend is exported and does not arrive.** -/
theorem friend_stays_behind : ∃ blob,
    exportVaultEncrypted symbolicVault (vaultJson (contents befriended)) noFaults allSucceed
      (deviceWith befriended) noSalt noNonce "pw" = some (.ok blob) ∧
    ¬ Inverse symbolicVault (vaultJson (contents befriended)) hexText noFaults allSucceed
      (deviceWith befriended) emptyDevice "pw" blob := by
  obtain ⟨blob, hblob⟩ := exports befriended
  refine ⟨blob, hblob, fun h => ?_⟩
  obtain ⟨db, settings, hdb, hsettings, himport⟩ :=
    import_exported hexText noFaults allSucceed emptyDevice symbolicVault_sealing hblob
  have hempty : emptyDevice.initDb noFaults = .ok .empty := rfl
  have hfriends := h.same.friends "bob"
  rw [himport, hempty] at hfriends
  simp only [(imported_rest allSucceed settings hempty).1] at hfriends
  exact absurd hfriends (by decide)

end AlterChat.VaultTransfer
