import AlterChat.Tauri.Capabilities
import AlterChat.Tauri.Session
import AlterChat.Tauri.VaultTransfer

/-!
# The configuration of a profile

From `src-tauri/src/lib.rs`: `save_full_config_to_db` writes the configuration setting by setting,
the storage settings among them, and stops at the first statement that fails; `load_full_config`
reads it back, and what cannot be read takes its default.

* §1 the texts -- `parseI64_toString`: a number reads as what was written;
* §2 the statements, §3 the two functions;
* §4 `save_ok` -- the rows after a save that returns `Ok`; `save_frame` -- what any save leaves
  alone;
* §5 `config_round_trip`, and `load_unread` -- what loads where nothing was saved;
* §6 a profile.
-/

namespace AlterChat.Configuration

open Lib Db Commands VaultTransfer Chunks Session

/-! ## 1. The texts -/

theorem digit_of_isDigit {c : Char} (h : c.isDigit = true) :
    digit c = some (c.toNat - '0'.toNat) := by
  obtain ⟨hle, hge⟩ := Char.isDigit_iff_toNat.mp h
  exact if_pos ⟨hle, hge⟩

/-- The fold of `parseDigits` over digits. -/
theorem foldlM_digits {cs : List Char} (h : ∀ c ∈ cs, c.isDigit = true) (n : Nat) :
    cs.foldlM (fun n c => (digit c).map (10 * n + ·)) n = some (Nat.ofDigitChars 10 cs n) := by
  induction cs generalizing n with
  | nil => rfl
  | cons c cs ih =>
    rw [List.foldlM_cons, digit_of_isDigit (h c (List.mem_cons_self ..)), Nat.ofDigitChars_cons]
    exact ih (fun c hc => h c (List.mem_cons_of_mem _ hc)) _

theorem parseDigits_toDigits (n : Nat) : parseDigits (Nat.toDigits 10 n) = some n := by
  have hdigits : ∀ c ∈ Nat.toDigits 10 n, c.isDigit = true := fun c hc =>
    Nat.isDigit_of_mem_toDigits (by decide) (by decide) hc
  have hfold := foldlM_digits hdigits 0
  rw [Nat.ofDigitChars_ten_toDigits] at hfold
  cases hcs : Nat.toDigits 10 n with
  | nil => exact absurd hcs Nat.toDigits_ne_nil
  | cons c cs =>
    rw [hcs] at hfold
    exact hfold

/-- A text of digits has no sign to read. -/
theorem parseI64_digits {s : String} {n : Nat} (h : s.toList = Nat.toDigits 10 n)
    (hn : n < 2 ^ 63) : parseI64 s = some (Int64.ofInt n) := by
  have hdigit : ∀ c ∈ s.toList, c.isDigit = true := fun c hc =>
    Nat.isDigit_of_mem_toDigits (b := 10) (by decide) (by decide) (h ▸ hc)
  have hparse : parseDigits s.toList = some n := by rw [h, parseDigits_toDigits]
  have hrange : -2 ^ 63 ≤ (n : Int) ∧ (n : Int) < 2 ^ 63 := ⟨by omega, by omega⟩
  unfold parseI64
  dsimp only
  split
  · next heq => exact absurd (hdigit '-' (heq ▸ List.mem_cons_self ..)) (by decide)
  · next heq => exact absurd (hdigit '+' (heq ▸ List.mem_cons_self ..)) (by decide)
  · rw [hparse, Option.bind_eq_bind, Option.bind_some, Option.pure_def, Option.map_some,
      Option.bind_some, if_pos hrange]

theorem parseI64_negative {s : String} {n : Nat} (h : s.toList = '-' :: Nat.toDigits 10 n)
    (hn : n ≤ 2 ^ 63) : parseI64 s = some (Int64.ofInt (-n)) := by
  have hrange : -2 ^ 63 ≤ -(n : Int) ∧ -(n : Int) < 2 ^ 63 := ⟨by omega, by omega⟩
  unfold parseI64
  simp only [h, parseDigits_toDigits, Option.bind_eq_bind, Option.pure_def, Option.map_some,
    Option.bind_some, if_pos hrange]

/-- **A number reads as what was written.** -/
theorem parseI64_toString (n : Int64) : parseI64 (toString n) = some n := by
  have hlt := n.toInt_lt
  have hle := n.le_toInt
  have htext : toString n = n.toInt.repr := rfl
  rw [htext, Int.repr_eq_if]
  by_cases h : 0 ≤ n.toInt
  · rw [if_pos h, parseI64_digits Nat.toList_repr (by omega), Int.toNat_of_nonneg h,
      Int64.ofInt_toInt]
  · have hlist : ("-" ++ (-n.toInt).toNat.repr).toList =
      '-' :: Nat.toDigits 10 (-n.toInt).toNat := by
      rw [String.toList_append, Nat.toList_repr]
      rfl
    rw [if_neg h, parseI64_negative hlist (by omega), Int.toNat_of_nonneg (by omega), Int.neg_neg,
      Int64.ofInt_toInt]

example : parseI64 (toString (-42 : Int64)) = some (-42) := by decide

theorem toString_ne_empty (n : Int64) : toString n ≠ "" := by
  intro h
  have hparse := parseI64_toString n
  rw [h] at hparse
  cases hparse

/-- What `if b { "true" } else { "false" }` writes. -/
def boolText (b : Bool) : String := if b then "true" else "false"

@[simp] theorem boolText_eq_true (b : Bool) : decide (boolText b = "true") = b := by
  cases b <;> decide

/-- `White_Space`, as `str::trim` takes it off both ends. -/
def whiteSpace (c : Char) : Bool :=
  decide (c.toNat ∈ [0x09, 0x0A, 0x0B, 0x0C, 0x0D, 0x20, 0x85, 0xA0, 0x1680, 0x2028, 0x2029,
    0x202F, 0x205F, 0x3000]) || decide (0x2000 ≤ c.toNat ∧ c.toNat ≤ 0x200A)

/-- `trim().is_empty()`. -/
def blank (s : String) : Bool := s.toList.all whiteSpace

/-! ## 2. The statements -/

structure FullConfig where
  nick : String
  offlinePubkey : Option String
  bootstrapIp : String
  bootstrapAddrs : List String
  torEnabled : Bool
  proxyMode : String
  proxyAddr : String
  mdnsEnabled : Bool
  dhtServerMode : Bool
  relayEnabled : Bool
  transportPreference : String
  relayFallbackEnabled : Bool
  publishCapabilities : Bool
  coverTraffic : Bool
  msgDelay : Bool
  localNotifications : Bool
  unknownPeerPolicy : String
  minTrustDm : Int64
  minTrustFile : Int64
  minTrustInvite : Int64
  defaultTtl : Option Int64
  persistenceEnabled : Bool
  inviteOnlyDefault : Bool
  proofOfWorkEnabled : Bool
  rateLimitPerMinute : Int64
  storageNodeEnabled : Bool
  storageQuotaMb : Int64
  storageRetentionDays : Int64
  sfuThreshold : Int64
  preferredSfuPeer : String
  acceptRelay : Bool
  experimentalMediaE2ee : Bool
  deriving DecidableEq

def FullConfig.default : FullConfig where
  nick := ""
  offlinePubkey := none
  bootstrapIp := ""
  bootstrapAddrs := []
  torEnabled := false
  proxyMode := "none"
  proxyAddr := ""
  mdnsEnabled := true
  dhtServerMode := false
  relayEnabled := false
  transportPreference := "tcp"
  relayFallbackEnabled := false
  publishCapabilities := true
  coverTraffic := false
  msgDelay := true
  localNotifications := true
  unknownPeerPolicy := "request-only"
  minTrustDm := 0
  minTrustFile := 0
  minTrustInvite := 0
  defaultTtl := none
  persistenceEnabled := true
  inviteOnlyDefault := false
  proofOfWorkEnabled := false
  rateLimitPerMinute := 30
  storageNodeEnabled := false
  storageQuotaMb := 512
  storageRetentionDays := 7
  sfuThreshold := 6
  preferredSfuPeer := ""
  acceptRelay := false
  experimentalMediaE2ee := false

/-- The statements of a save that fail, with the error each reports. -/
structure SaveFaults where
  settings : VaultFaults
  storage : Option String

/-- The statements of a load that fail; each setting has its own. -/
structure LoadFaults where
  settings : String → Faults
  storage : ChunkFaults

/-- `save_storage_settings`, on the row that the migrations insert. -/
def saveStorageSettings (fault : Option String) (store : ChunkStore) (settings : StorageSettings) :
    Except String Unit × ChunkStore :=
  match fault with
  | some e => (.error e, store)
  | none => (.ok (), { store with settings })

/-- A statement of `save_full_config_to_db`. -/
inductive Save where
  | setting (key value : String)
  | storage (settings : StorageSettings)

def Save.run (f : SaveFaults) (db : ProfileDb) : Save → Except String Unit × ProfileDb
  | .setting key value =>
    let saved := saveSetting f.settings db.tables key value
    (saved.1, { db with tables := saved.2 })
  | .storage settings =>
    let saved := saveStorageSettings f.storage db.chunks settings
    (saved.1, { db with chunks := saved.2 })

/-- Statements one after the other, each with a `?`. -/
def runSaves (f : SaveFaults) : ProfileDb → List Save → Except String Unit × ProfileDb
  | db, [] => (.ok (), db)
  | db, save :: saves =>
    match save.run f db with
    | (.error e, db) => (.error e, db)
    | (.ok (), db) => runSaves f db saves

/-! ## 3. The two functions -/

variable (J : Codec (List String) String)

def FullConfig.storage (c : FullConfig) : StorageSettings where
  storageNodeEnabled := c.storageNodeEnabled
  quotaMb := c.storageQuotaMb
  retentionDays := c.storageRetentionDays

/-- The statements that write a configuration. -/
def FullConfig.saves (c : FullConfig) : List Save :=
  [.setting "nick" c.nick,
    .setting "bootstrap_ip" c.bootstrapIp,
    .setting "bootstrap_addrs" (J.enc c.bootstrapAddrs),
    .setting "tor_enabled" (boolText c.torEnabled),
    .setting "proxy_mode" c.proxyMode,
    .setting "proxy_addr" c.proxyAddr,
    .setting "mdns_enabled" (boolText c.mdnsEnabled),
    .setting "dht_server_mode" (boolText c.dhtServerMode),
    .setting "relay_enabled" (boolText c.relayEnabled),
    .setting "transport_preference" c.transportPreference,
    .setting "relay_fallback_enabled" (boolText c.relayFallbackEnabled),
    .setting "publish_capabilities" (boolText c.publishCapabilities),
    .setting "cover_traffic" (boolText c.coverTraffic),
    .setting "msg_delay" (boolText c.msgDelay),
    .setting "local_notifications" (boolText c.localNotifications),
    .setting "unknown_peer_policy" c.unknownPeerPolicy,
    .setting "min_trust_dm" (toString c.minTrustDm),
    .setting "min_trust_file" (toString c.minTrustFile),
    .setting "min_trust_invite" (toString c.minTrustInvite),
    .setting "default_ttl" ((c.defaultTtl.map toString).getD ""),
    .setting "persistence_enabled" (boolText c.persistenceEnabled),
    .setting "invite_only_default" (boolText c.inviteOnlyDefault),
    .setting "proof_of_work_enabled" (boolText c.proofOfWorkEnabled),
    .setting "rate_limit_per_minute" (toString c.rateLimitPerMinute),
    .storage c.storage,
    .setting "sfu_threshold" (toString c.sfuThreshold),
    .setting "preferred_sfu_peer" c.preferredSfuPeer,
    .setting "accept_relay" (boolText c.acceptRelay),
    .setting "experimental_media_e2ee" (boolText c.experimentalMediaE2ee)]

/-- `save_full_config_to_db`. -/
def saveFullConfigToDb (f : SaveFaults) (db : ProfileDb) (c : FullConfig) :
    Except String Unit × ProfileDb :=
  runSaves f db (c.saves J)

variable (r : LoadFaults) (db : ProfileDb)

/-- `load_setting(conn, key).unwrap_or(None)`. -/
def settingText (key : String) : Option String :=
  (loadSetting (r.settings key) db.tables key).toOption.join

def settingBool (key : String) (default : Bool) : Bool :=
  ((settingText r db key).map fun v => decide (v = "true")).getD default

def settingI64 (key : String) (default : Int64) : Int64 :=
  ((settingText r db key).bind parseI64).getD default

def settingOptI64 (key : String) : Option Int64 :=
  (settingText r db key).bind fun v => if v = "" then none else parseI64 v

/-- `load_full_config`. -/
def loadFullConfig : FullConfig :=
  let bootstrapIp := (settingText r db "bootstrap_ip").getD ""
  let storage := (getStorageSettings r.storage db.chunks).toOption
  { FullConfig.default with
    nick := (settingText r db "nick").getD ""
    bootstrapIp
    bootstrapAddrs := ((settingText r db "bootstrap_addrs").bind J.dec).getD
      (if blank bootstrapIp then [] else [bootstrapIp])
    torEnabled := settingBool r db "tor_enabled" false
    proxyMode := (settingText r db "proxy_mode").getD "none"
    proxyAddr := (settingText r db "proxy_addr").getD ""
    mdnsEnabled := settingBool r db "mdns_enabled" true
    dhtServerMode := settingBool r db "dht_server_mode" false
    relayEnabled := settingBool r db "relay_enabled" false
    transportPreference := (settingText r db "transport_preference").getD "tcp"
    relayFallbackEnabled := settingBool r db "relay_fallback_enabled" false
    publishCapabilities := settingBool r db "publish_capabilities" true
    coverTraffic := settingBool r db "cover_traffic" false
    msgDelay := settingBool r db "msg_delay" true
    localNotifications := settingBool r db "local_notifications" true
    unknownPeerPolicy := (settingText r db "unknown_peer_policy").getD "request-only"
    minTrustDm := settingI64 r db "min_trust_dm" 0
    minTrustFile := settingI64 r db "min_trust_file" 0
    minTrustInvite := settingI64 r db "min_trust_invite" 0
    defaultTtl := settingOptI64 r db "default_ttl"
    persistenceEnabled := settingBool r db "persistence_enabled" true
    inviteOnlyDefault := settingBool r db "invite_only_default" false
    proofOfWorkEnabled := settingBool r db "proof_of_work_enabled" false
    rateLimitPerMinute := settingI64 r db "rate_limit_per_minute" 30
    storageNodeEnabled :=
      (storage.map fun s => s.storageNodeEnabled).getD FullConfig.default.storageNodeEnabled
    storageQuotaMb := (storage.map fun s => s.quotaMb).getD FullConfig.default.storageQuotaMb
    storageRetentionDays :=
      (storage.map fun s => s.retentionDays).getD FullConfig.default.storageRetentionDays
    sfuThreshold := settingI64 r db "sfu_threshold" 6
    preferredSfuPeer := (settingText r db "preferred_sfu_peer").getD ""
    acceptRelay := settingBool r db "accept_relay" false
    experimentalMediaE2ee := settingBool r db "experimental_media_e2ee" false }

/-- The part of `network_config` that decides which swarm a session builds. -/
def FullConfig.network (c : FullConfig) : NetworkPrivacyConfig where
  proxyMode :=
    if c.torEnabled || decide (c.proxyMode = "tor") then .tor
    else if c.proxyMode = "socks5" then .socks5
    else if c.proxyMode = "i2p" then .i2p
    else .direct
  transportPreference :=
    if c.transportPreference = "quic" then .quic
    else if c.transportPreference = "tor" then .tor
    else .tcp

/-- **A session builds the swarm of the configuration that it loads.** -/
theorem networkConfig_loaded {r : LoadFaults} {f : Faults} (h : ∀ key, r.settings key = f)
    (db : ProfileDb) : networkConfig f db.tables = (loadFullConfig J r db).network := by
  unfold networkConfig FullConfig.network loadFullConfig settingBool settingText
  simp only [h]

/-! ## 4. What a save leaves -/

/-- The row a statement leaves in `app_settings`. -/
def Save.row : Save → Option (String × String)
  | .setting key value => some (key, value)
  | .storage _ => none

/-- The storage settings after a statement. -/
def Save.storageAfter (settings : StorageSettings) : Save → StorageSettings
  | .setting .. => settings
  | .storage settings => settings

/-- The keys of `app_settings` that a configuration has. -/
def configKeys : List String :=
  ["nick", "bootstrap_ip", "bootstrap_addrs", "tor_enabled", "proxy_mode", "proxy_addr",
    "mdns_enabled", "dht_server_mode", "relay_enabled", "transport_preference",
    "relay_fallback_enabled",
    "publish_capabilities", "cover_traffic", "msg_delay", "local_notifications",
    "unknown_peer_policy",
    "min_trust_dm", "min_trust_file", "min_trust_invite", "default_ttl", "persistence_enabled",
    "invite_only_default", "proof_of_work_enabled", "rate_limit_per_minute", "sfu_threshold",
    "preferred_sfu_peer", "accept_relay", "experimental_media_e2ee"]

/-- The rows of a configuration. -/
def FullConfig.rows (c : FullConfig) : List (String × String) := (c.saves J).filterMap Save.row

theorem configKeys_nodup : configKeys.Nodup := by decide

theorem rows_keys (c : FullConfig) : (c.rows J).map Prod.fst = configKeys := rfl

/-- From one database to the other only settings were saved: those of the keys, and those of the
    storage. -/
structure Wrote (keys : List String) (db db' : ProfileDb) : Prop where
  rest : ∃ legacy appSettings settings, db' =
    { db with
      tables := { db.tables with settings := legacy, appSettings }
      chunks := { db.chunks with settings } }
  others : ∀ key ∉ keys, db'.tables.appSettings.lookup key = db.tables.appSettings.lookup key

variable {J r db} {f : SaveFaults} {db' : ProfileDb} {keys : List String} {c : FullConfig}

theorem Wrote.refl (keys : List String) (db : ProfileDb) : Wrote keys db db :=
  ⟨⟨_, _, _, rfl⟩, fun _ _ => rfl⟩

theorem Wrote.trans {db'' : ProfileDb} (h : Wrote keys db db') (h' : Wrote keys db' db'') :
    Wrote keys db db'' := by
  refine ⟨?_, fun key hkey => (h'.others key hkey).trans (h.others key hkey)⟩
  obtain ⟨_, _, _, rfl⟩ := h.rest
  obtain ⟨_, _, _, rfl⟩ := h'.rest
  exact ⟨_, _, _, rfl⟩

theorem Save.run_wrote (f : SaveFaults) (db : ProfileDb) {save : Save}
    (h : ∀ kv ∈ save.row, kv.1 ∈ keys) : Wrote keys db (save.run f db).2 := by
  cases save with
  | storage settings =>
    unfold Save.run saveStorageSettings
    cases f.storage with
    | some e => exact Wrote.refl keys db
    | none => exact ⟨⟨_, _, _, rfl⟩, fun _ _ => rfl⟩
  | setting key value =>
    obtain ⟨legacy, hsaved⟩ := saveSetting_frame f.settings db.tables key value
    unfold Save.run
    simp only [hsaved]
    refine ⟨⟨_, _, _, rfl⟩, fun other hother => ?_⟩
    have hne : other ≠ key := fun heq => hother (heq ▸ h (key, value) rfl)
    split
    · rw [Table.lookup_upsert_const, if_neg hne]
    · rfl

/-- **However a run of statements ends, it has written the rows of its keys alone.** -/
theorem runSaves_wrote {saves : List Save} (h : ∀ save ∈ saves, ∀ kv ∈ save.row, kv.1 ∈ keys) :
    Wrote keys db (runSaves f db saves).2 := by
  induction saves generalizing db with
  | nil => exact Wrote.refl keys db
  | cons save saves ih =>
    have hfirst := Save.run_wrote f db (h save (List.mem_cons_self ..))
    unfold runSaves
    rcases hrun : save.run f db with ⟨result, db₁⟩
    rw [hrun] at hfirst
    cases result with
    | error e => exact hfirst
    | ok => exact hfirst.trans (ih fun save hsave => h save (List.mem_cons_of_mem _ hsave))

theorem Save.run_ok {save : Save} (h : save.run f db = (.ok (), db')) :
    db'.tables.appSettings = saveAll Prod.fst Prod.snd db.tables.appSettings save.row.toList ∧
      db'.chunks.settings = save.storageAfter db.chunks.settings := by
  cases save with
  | storage settings =>
    unfold Save.run saveStorageSettings at h
    cases hfault : f.storage with
    | some e => simp [hfault] at h
    | none =>
      simp only [hfault, Prod.mk.injEq, true_and] at h
      exact h ▸ ⟨rfl, rfl⟩
  | setting key value =>
    unfold Save.run saveSetting at h
    cases hlegacy : f.settings (.saveSetting key) with
    | some e => simp [hlegacy] at h
    | none =>
      cases happ : f.settings (.saveAppSetting key) with
      | some e => simp [hlegacy, happ] at h
      | none =>
        simp only [hlegacy, happ, Prod.mk.injEq, true_and] at h
        exact h ▸ ⟨rfl, rfl⟩

/-- **Where every statement succeeds, every row is there.** -/
theorem runSaves_ok {saves : List Save} (h : runSaves f db saves = (.ok (), db')) :
    db'.tables.appSettings =
        saveAll Prod.fst Prod.snd db.tables.appSettings (saves.filterMap Save.row) ∧
      db'.chunks.settings = saves.foldl Save.storageAfter db.chunks.settings := by
  induction saves generalizing db with
  | nil =>
    cases h
    exact ⟨rfl, rfl⟩
  | cons save saves ih =>
    unfold runSaves at h
    rcases hrun : save.run f db with ⟨result, db₁⟩
    rw [hrun] at h
    cases result with
    | error e => cases h
    | ok =>
      obtain ⟨hrows, hstorage⟩ := Save.run_ok hrun
      obtain ⟨hrows', hstorage'⟩ := ih h
      rw [hrows, ← saveAll_append] at hrows'
      rw [hstorage] at hstorage'
      have hcons : (save :: saves).filterMap Save.row = save.row.toList ++
          saves.filterMap Save.row := by
        cases hrow : save.row <;> simp [hrow]
      exact ⟨hcons ▸ hrows', hstorage'⟩

/-- **After a save that returns `Ok`, each key has the value of the configuration.** -/
theorem save_ok (hsave : saveFullConfigToDb J f db c = (.ok (), db')) :
    (∀ kv ∈ c.rows J, db'.tables.appSettings.lookup kv.1 = some kv.2) ∧
    db'.chunks.settings = c.storage := by
  obtain ⟨hrows, hstorage⟩ := runSaves_ok hsave
  refine ⟨fun kv hkv => ?_, hstorage⟩
  have hnodup : ((c.rows J).map Prod.fst).Nodup := by rw [rows_keys]; exact configKeys_nodup
  rw [hrows]
  exact lookup_saveAll_nodup hnodup hkv

theorem save_frame (f : SaveFaults) (db : ProfileDb) (c : FullConfig) :
    Wrote configKeys db (saveFullConfigToDb J f db c).2 := by
  refine runSaves_wrote fun save hsave kv hkv => ?_
  rw [← rows_keys J c]
  exact List.mem_map_of_mem (List.mem_filterMap.mpr ⟨save, hsave, hkv⟩)

/-! ## 5. The round trip -/

/-- No `SELECT` of a load fails. -/
structure LoadFaults.Undisturbed (r : LoadFaults) : Prop where
  settings : ∀ key, r.settings key .loadSetting = none
  storage : r.storage .getStorageSettings = none

theorem settingText_row (hr : r.Undisturbed) {key value : String}
    (h : db.tables.appSettings.lookup key = some value) : settingText r db key = some value := by
  unfold settingText loadSetting query
  rw [hr.settings key, h]
  rfl

theorem settingBool_text {key : String} {b default : Bool}
    (h : settingText r db key = some (boolText b)) : settingBool r db key default = b := by
  rw [settingBool, h, Option.map_some, boolText_eq_true, Option.getD_some]

theorem settingI64_text {key : String} {n default : Int64}
    (h : settingText r db key = some (toString n)) : settingI64 r db key default = n := by
  rw [settingI64, h, Option.bind_some, parseI64_toString, Option.getD_some]

theorem settingOptI64_text {key : String} {n : Option Int64}
    (h : settingText r db key = some ((n.map toString).getD "")) : settingOptI64 r db key = n := by
  rw [settingOptI64, h, Option.bind_some]
  cases n with
  | none => rfl
  | some n =>
    rw [Option.map_some, Option.getD_some, if_neg (toString_ne_empty n), parseI64_toString]

/-- **Where each key has the value of a configuration, that configuration is loaded.** -/
theorem load_rows (hr : r.Undisturbed)
    (hrows : ∀ kv ∈ c.rows J, db.tables.appSettings.lookup kv.1 = some kv.2)
    (hstorage : db.chunks.settings = c.storage) :
    loadFullConfig J r db = { c with offlinePubkey := none } := by
  have htext : ∀ kv ∈ c.rows J, settingText r db kv.1 = some kv.2 := fun kv hkv =>
    settingText_row hr (hrows kv hkv)
  have hread : getStorageSettings r.storage db.chunks = .ok c.storage := by
    rw [getStorageSettings, hr.storage, hstorage]
  simp only [FullConfig.rows, FullConfig.saves, Save.row, List.filterMap_cons, List.filterMap_nil,
    List.forall_mem_cons] at htext
  obtain ⟨hnick, hip, haddrs, htor, hmode, haddr, hmdns, hdht, hrelay, htransport, hfallback,
    hpublish, hcover, hdelay, hlocal, hpolicy, hdm, hfile, hinvite, httl, hpersistence, honly, hpow,
    hrate, hsfu, hpreferred,
    haccept, he2ee, -⟩ := htext
  simp only [loadFullConfig, FullConfig.default, hread, hnick, hip, haddrs, hmode, haddr,
    htransport, hpolicy, hpreferred, settingBool_text htor, settingBool_text hmdns,
    settingBool_text hdht, settingBool_text hrelay,
    settingBool_text hfallback, settingBool_text hpublish, settingBool_text hcover,
    settingBool_text hdelay,
    settingBool_text hlocal, settingI64_text hdm, settingI64_text hfile, settingI64_text hinvite,
    settingOptI64_text httl, settingBool_text hpersistence, settingBool_text honly,
    settingBool_text hpow,
    settingI64_text hrate, settingI64_text hsfu, settingBool_text haccept, settingBool_text he2ee,
    Option.bind_some, Codec.dec_enc, Option.getD_some]
  rfl

/-- **What was never saved, or cannot be read, loads as the default.** -/
theorem load_unread (htext : ∀ key ∈ configKeys, settingText r db key = none)
    (hstorage : ∀ s, getStorageSettings r.storage db.chunks = .ok s → s = .default) :
    loadFullConfig J r db = .default := by
  simp only [configKeys, List.forall_mem_cons] at htext
  have hblank : blank "" = true := rfl
  cases hread : getStorageSettings r.storage db.chunks with
  | error e =>
    simp [loadFullConfig, FullConfig.default, settingBool, settingI64, settingOptI64, hread,
      htext, hblank, Except.toOption]
  | ok s =>
    simp [loadFullConfig, FullConfig.default, settingBool, settingI64, settingOptI64, hread,
      htext, hblank, hstorage s hread, StorageSettings.default, Except.toOption]

/-- **The trust checks read the levels that were saved.** -/
theorem minTrust_saved (hsave : saveFullConfigToDb J f db c = (.ok (), db')) {g : Faults}
    (hg : g .loadSetting = none) :
    Inbound.minTrust g db'.tables "min_trust_dm" = c.minTrustDm ∧
      Inbound.minTrust g db'.tables "min_trust_file" = c.minTrustFile ∧
      Inbound.minTrust g db'.tables "min_trust_invite" = c.minTrustInvite := by
  have hread : ∀ key level, Save.setting key (toString level) ∈ c.saves J →
      Inbound.minTrust g db'.tables key = level := by
    intro key level hmem
    have hrow := (save_ok hsave).1 (key, toString level) (List.mem_filterMap.mpr ⟨_, hmem, rfl⟩)
    exact settingI64_text (settingText_row (r := ⟨fun _ => g, fun _ => none⟩)
      ⟨fun _ => hg, rfl⟩ hrow)
  refine ⟨hread _ _ ?_, hread _ _ ?_, hread _ _ ?_⟩ <;> simp [FullConfig.saves]

/-- **A configuration that was saved is the one that is loaded**, and no other setting has changed;
    of two that were saved it is the second. -/
theorem config_round_trip {J : Codec (List String) String} {f : SaveFaults} {db db' : ProfileDb}
    {c : FullConfig} (hsave : saveFullConfigToDb J f db c = (.ok (), db')) :
    (∀ r : LoadFaults, r.Undisturbed → loadFullConfig J r db' = { c with offlinePubkey := none }) ∧
      (∀ key ∉ configKeys, db'.tables.appSettings.lookup key = db.tables.appSettings.lookup key) ∧
      ∀ (f' : SaveFaults) (d : FullConfig) (db'' : ProfileDb),
        saveFullConfigToDb J f' db' d = (.ok (), db'') →
          ∀ r : LoadFaults, r.Undisturbed → loadFullConfig J r db'' =
          { d with offlinePubkey := none } := by
  have hloads : ∀ {f : SaveFaults} {db db' : ProfileDb} {c : FullConfig},
      saveFullConfigToDb J f db c = (.ok (), db') → ∀ r : LoadFaults, r.Undisturbed →
        loadFullConfig J r db' = { c with offlinePubkey := none } := by
    intro f db db' c hsave r hr
    obtain ⟨hrows, hstorage⟩ := save_ok hsave
    exact load_rows hr hrows hstorage
  refine ⟨hloads hsave, fun key hkey => ?_, fun f' d db'' hsave' => hloads hsave'⟩
  have hframe := save_frame (J := J) f db c
  rw [hsave] at hframe
  exact hframe.others key hkey

/-! ## 6. A profile -/

/-- A stand-in for JSON that writes the empty list as JSON does. -/
def addrsJson : Codec (List String) String where
  enc addrs :=
    Equiv.swap (Capabilities.versionsJson.enc []) "[]" (Capabilities.versionsJson.enc addrs)
  dec s := Capabilities.versionsJson.dec (Equiv.swap (Capabilities.versionsJson.enc []) "[]" s)
  dec_enc addrs := by rw [Equiv.swap_apply_self, Codec.dec_enc]

def undisturbedSave : SaveFaults := ⟨fun _ => none, none⟩

/-- A profile with a theme. -/
def themedProfile : ProfileDb := { ProfileDb.new with tables := VaultTransfer.themed }

/-- A configuration with a trust level below 0 and a lifetime for messages. -/
def aliceConfig : FullConfig :=
  { FullConfig.default with
    nick := "alice"
    offlinePubkey := some "00"
    torEnabled := true
    minTrustDm := -3
    defaultTtl := some 60 }

/-- The profile after the save. -/
def aliceProfile : ProfileDb :=
  (saveFullConfigToDb addrsJson undisturbedSave themedProfile aliceConfig).2

theorem config_round_trip_alice :
    saveFullConfigToDb addrsJson undisturbedSave themedProfile aliceConfig =
      (.ok (), aliceProfile) ∧ (∀ r : LoadFaults, r.Undisturbed →
        loadFullConfig addrsJson r aliceProfile = { aliceConfig with offlinePubkey := none }) ∧
      aliceProfile.tables.appSettings.lookup "theme" = some "dark" := by
  have hsave : saveFullConfigToDb addrsJson undisturbedSave themedProfile aliceConfig =
      (.ok (), aliceProfile) := rfl
  obtain ⟨hload, hothers, -⟩ := config_round_trip hsave
  exact ⟨hsave, hload, hothers "theme" (by decide)⟩

end AlterChat.Configuration
