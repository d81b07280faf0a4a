import AlterChat.Tauri.SessionCommands

/-!
# The identity of a session

`login_profile`, the arm `StartSession` and three commands load the key pair of a profile, each for
itself. The first two load it from an encrypted file, the commands from a plain one, and all of them
from the same path; for `:memory:` each draws a new one.

* §1 what happens within a session;
* §2 the key pair of a login, and of its `StartSession`;
* §3 `OneIdentity`; `oneIdentity_iff` -- when a session has one;
* §4 `two_identities` -- two sessions.
-/

namespace AlterChat.Session

open Lib Lib.Paths Lib.Disk Governance Db Commands Identity Profile Chunks

variable {Keypair Pub Key : Type} {X : Host Keypair Pub Key} {b b' : Backend}

/-! ## 1. Within a session -/

/-- No login and no wipe, and the process goes on. -/
def Within : BackendEvent Keypair Key → Prop
  | .login .. => False
  | .wipe _ => False
  | .quit => False
  | _ => True

/-- Such events lead from one backend to another. -/
def Leads (X : Host Keypair Pub Key) (b : Backend) : Backend → Prop :=
  Reach (fun s => s = b) (Guarded (fun _ ev => Within ev) (BackendStep X))

theorem startSession_app (X : Host Keypair Pub Key) (i : Startup Keypair) (b : Backend)
    (password : String) (amnesic : Bool) :
    (startSession X i b password amnesic).1.app = b.app ∧
      (startSession X i b password amnesic).1.queue = b.queue := by
  rcases startSession_cases X i b password amnesic with ⟨disk, log, hdied⟩ |
    ⟨conn, disk₁, keypair, disk₂, persisted, disk₃, -, -, -, hstarted⟩
  · rw [hdied]
    exact ⟨rfl, rfl⟩
  · rw [hstarted]
    exact ⟨rfl, rfl⟩

/-- **What an event within a session leaves alone**: `AppState`; and, where nothing is in the
    channel, the identity of the loop. -/
theorem within_step (hkey : b.app.dbKey = none) {ev : BackendEvent Keypair Key} (hw : Within ev)
    (hs : BackendStep X b ev b') :
    b'.app = b.app ∧ (b.queue = [] → b'.queue = [] ∧ b'.myPeerId = b.myPeerId) := by
  cases ev with
  | login os draw password amnesic => exact hw.elim
  | start i =>
    obtain ⟨password, amnesic, queue, -, hqueue, rfl⟩ := start_inv hs
    refine ⟨(startSession_app X i { b with queue } password amnesic).1, fun hempty => ?_⟩
    rw [hempty] at hqueue
    cases hqueue
  | dbCommand f os body =>
    cases hs
    rw [withDb_refused hkey]
    exact ⟨rfl, fun hempty => ⟨hempty, rfl⟩⟩
  | loadPlain os generated =>
    cases hs
    unfold Backend.loadPlain
    split <;> exact ⟨rfl, fun hempty => ⟨hempty, rfl⟩⟩
  | loopWrite write =>
    obtain ⟨conn, -, rfl⟩ := Option.map_eq_some_iff.mp hs
    exact ⟨rfl, fun hempty => ⟨hempty, rfl⟩⟩
  | chunk e =>
    cases hs
    unfold Backend.fileChunk
    split <;> exact ⟨rfl, fun hempty => ⟨hempty, rfl⟩⟩
  | sideFile side bytes =>
    simp only [BackendStep, Backend.after] at hs
    split at hs
    · cases hs
      exact ⟨rfl, fun hempty => ⟨hempty, rfl⟩⟩
    · cases hs
  | wipe scope => exact hw.elim
  | quit => exact hw.elim

/-- The same of all that happens within a session, with the key files. -/
theorem leads_keeps (h : Sound X b) (hl : Leads X b b') :
    Sound X b' ∧ b'.app = b.app ∧ (b.queue = [] → b'.queue = [] ∧ b'.myPeerId = b.myPeerId) ∧
      ∀ path, IsKeyPath X path → ∀ bytes, keyBytes b.disk path = some bytes →
        keyBytes b'.disk path = some bytes := by
  induction hl with
  | start s hs =>
    subst hs
    exact ⟨h, rfl, fun hempty => ⟨hempty, rfl⟩, fun _ _ _ hfile => hfile⟩
  | step s ev s' _ hs ih =>
    obtain ⟨hsound, happ, hsame, hfiles⟩ := ih
    obtain ⟨hw, hstep⟩ := hs
    obtain ⟨happ', hsame'⟩ := within_step hsound.dbKey hw hstep
    have hwipe : ∀ scope, ev ≠ .wipe scope := by
      intro scope he
      subst he
      exact hw
    refine ⟨sound_step hsound hstep, happ'.trans happ, fun hempty => ?_,
      fun path hpath bytes hfile =>
      keyFile_step hsound hwipe hstep hpath (hfiles path hpath bytes hfile)⟩
    obtain ⟨hqueue, hid⟩ := hsame hempty
    obtain ⟨hqueue', hid'⟩ := hsame' hqueue
    exact ⟨hqueue', hid'.trans hid⟩

/-! ## 2. Two loads -/

theorem keyBytes_keepKey (disk : Disk Content) (path : String) (bytes : Bytes) :
    keyBytes (keepKey disk path (some bytes)) path = some bytes := by
  unfold keepKey
  simp only
  split
  · next h => exact h
  · exact congrArg (Option.map Content.raw) (AList.lookup_insert disk)

/-- What the encrypted loader yields is on the disk. -/
theorem loadEncrypted_holds (hV : X.vault.aead.Lawful) (hK : X.keys.Documented) {os : FileSystem}
    {disk disk' : Disk Content} {path password : String} {draw : Draw Keypair} {keypair : Keypair}
    (hpath : path ≠ MEMORY)
    (h : loadEncrypted X os disk path password draw = (some (.ok keypair), disk')) :
    ∃ bytes, keyBytes disk' path = some bytes ∧ Holds X.keys X.vault password bytes keypair := by
  unfold loadEncrypted at h
  split at h
  · cases h
  · next result file hload =>
    cases h
    obtain ⟨bytes, rfl, hholds⟩ := loadOrGenerateEncryptedKeypair_holds hV hK hpath hload
    exact ⟨bytes, keyBytes_keepKey disk path bytes, hholds⟩

/-- What is on the disk is what the encrypted loader yields. -/
theorem loadEncrypted_again {os : FileSystem} {disk disk' : Disk Content} {path password : String}
    {draw : Draw Keypair} {keypair keypair' : Keypair} {bytes : Bytes} (hpath : path ≠ MEMORY)
    (hfile : keyBytes disk path = some bytes) (hholds : Holds X.keys X.vault password bytes keypair)
    (h : loadEncrypted X os disk path password draw = (some (.ok keypair'), disk')) :
    keypair' = keypair := by
  unfold loadEncrypted at h
  rw [hfile] at h
  split at h
  · cases h
  · next result file hload =>
    cases h
    exact (loadOrGenerateEncryptedKeypair_again hpath hholds hload).1

/-- **A login that succeeds** has loaded a key pair and set the paths. -/
theorem loginProfile_ok {os : FileSystem} {drawn : Draw Keypair} {password id : String}
    {amnesic : Bool} (h : loginProfile X os drawn b password amnesic = (some (.ok id), b')) :
    ∃ keypair, loadEncrypted X os b.disk (keyPathOf X.sha password amnesic) password drawn =
        (some (.ok keypair), b'.disk) ∧
      X.peerId keypair = id ∧ b'.app.keyPath = some (keyPathOf X.sha password amnesic) := by
  unfold loginProfile at h
  simp only at h
  split at h
  · cases h
  · cases h
  · next keypair disk hload =>
    split at h
    · cases h
    · cases h
      exact ⟨keypair, hload, rfl, rfl⟩

/-- **A session**: `login_profile` has returned a name; its `StartSession` has been processed, when
    all that were before it in the channel had been; and nothing has ended the session since. -/
def InSession (X : Host Keypair Pub Key) (drawn : Draw Keypair) (i : Startup Keypair)
    (password : String) (amnesic : Bool) (id : String) (b : Backend) : Prop :=
  ∃ b₀ b₁ b₂ b₃ os, Reach Fresh (BackendStep X) b₀ ∧
    loginProfile X os drawn b₀ password amnesic = (some (.ok id), b₁) ∧ Leads X b₁ b₂ ∧
    b₂.queue = [(password, amnesic)] ∧ BackendStep X b₂ (.start i) b₃ ∧ b₃.running = true ∧
    Leads X b₃ b

/-- **What a session has**: the paths of its login; the loop's identity, which is the one that was
    loaded first if it is in a file, and is drawn again if not; the key file. -/
theorem inSession_has (hV : X.vault.aead.Lawful) (hK : X.keys.Documented) {drawn : Draw Keypair}
    {i : Startup Keypair} {password id : String} {amnesic : Bool}
    (h : InSession X drawn i password amnesic id b) :
    b.app.dbKey = none ∧ b.app.keyPath = some (keyPathOf X.sha password amnesic) ∧
      (amnesic = true → id = X.peerId drawn.keypair ∧ b.myPeerId = X.peerId i.draw.keypair) ∧
      (amnesic = false → b.myPeerId = id ∧
        ∃ bytes, keyBytes b.disk (keyPathOf X.sha password false) = some bytes) := by
  obtain ⟨b₀, b₁, b₂, b₃, os, hreach, hlogin, hfirst, hqueue, hstep, hrunning, hthen⟩ := h
  obtain ⟨keypair, hload, rfl, hkeyPath⟩ := loginProfile_ok hlogin
  have hsound₁ : Sound X b₁ := by
    have hs := login_step (X := X) (b := b₀) os drawn password amnesic
    rw [hlogin] at hs
    exact sound_step (sound_run hreach) hs
  obtain ⟨hsound₂, happ₂, -, hfiles₂⟩ := leads_keeps hsound₁ hfirst
  obtain ⟨password', amnesic', queue, -, hnext, rfl⟩ := start_inv hstep
  rw [hqueue] at hnext
  cases hnext
  have hsound₃ := sound_step hsound₂ hstep
  obtain ⟨hsound, happ, hsame, hfiles⟩ := leads_keeps hsound₃ hthen
  obtain ⟨happ₃, hempty⟩ := startSession_app X i { b₂ with queue := [] } password amnesic
  -- what the loop has loaded
  rcases startSession_cases X i { b₂ with queue := [] } password amnesic with ⟨disk, log, hdied⟩ |
    ⟨conn, disk₁, keypair', disk₂, persisted, disk₃, hinit, hload', -, hstarted⟩
  · rw [hdied] at hrunning
    cases hrunning
  · have hid : b.myPeerId = X.peerId keypair' := by
      rw [(hsame hempty).2, hstarted]
    refine ⟨hsound.dbKey, by rw [happ, happ₃, happ₂, hkeyPath], fun hamnesic => ?_, fun hfile => ?_⟩
    · subst hamnesic
      rw [show keyPathOf X.sha password true = MEMORY from rfl,
        loadEncrypted_memory] at hload hload'
      obtain ⟨hdrawn, -⟩ := Prod.mk.inj hload
      obtain ⟨hdrawn', -⟩ := Prod.mk.inj hload'
      cases hdrawn
      cases hdrawn'
      exact ⟨rfl, hid⟩
    · subst hfile
      have hkey : IsKeyPath X (keyPathOf X.sha password false) := ⟨password, rfl⟩
      have hne := profileKey_ne_memory hkey
      obtain ⟨bytes, hbytes, hholds⟩ := loadEncrypted_holds hV hK hne hload
      have hbytes₂ := hfiles₂ _ hkey _ hbytes
      have hbytes₁ : keyBytes disk₁ (keyPathOf X.sha password false) = some bytes := by
        have hframe := (initDb_touches i.f i.os b₂.disk (dbPathOf X.sha password false)).frame
          (place (keyPathOf X.sha password false)) fun ht =>
            (show Apart ".bin" ".db" by decide).place_ne hkey.ends (ends_append _ _) ht.2
        rw [hinit] at hframe
        unfold keyBytes Disk.get at hbytes₂ ⊢
        rw [hframe, hbytes₂]
      rw [loadEncrypted_again hne hbytes₁ hholds hload'] at hid
      exact ⟨hid, bytes, hfiles _ hkey _
        (keyFile_step hsound₂ (fun _ he => by cases he) hstep hkey hbytes₂)⟩

/-! ## 3. One identity -/

/-- **The session has one identity**: the loop's is the one that the login has returned; what the
    commands create is issued and signed by it; and a key file that can be read is one that they can
    load. -/
structure OneIdentity (X : Host Keypair Pub Key) (b : Backend) (id : String) : Prop where
  peerId : b.myPeerId = id
  invites : ∀ c randomNonce roomId roomPassword expiresInSeconds maxUses json,
    b.createInvite X c randomNonce roomId roomPassword expiresInSeconds maxUses = .ok json →
      ∃ token, X.wire.tokenJson.dec json = some token ∧ token.issuerPeerId = id ∧
        verifyInvite X.signatures X.wire token = .ok ()
  grants : ∀ c roomId subjectPeerId roleId expiresAt grant,
    b.createPermissionGrant X c roomId subjectPeerId roleId expiresAt = .ok grant →
      grant.issuerPeerId = id ∧ verifyPermissionGrant X.signatures X.wire grant = .ok ()
  edges : ∀ c saved toPeerId score reason edge,
    b.createTrustEdge X c saved toPeerId score reason = .ok edge →
      edge.fromPeerId = id ∧ verifyTrustEdge X.signatures X.wire edge = .ok ()
  stored : ∀ (os : FileSystem) generated, (∀ path, os.read path = none) →
    ∃ keypair, (b.loadPlain X os generated).1 = .ok keypair

/-- What the plain loader makes of a file. -/
theorem loadPlain_file {path : String} {bytes : Bytes} (hpath : b.app.keyPath = some path)
    (hmem : path ≠ MEMORY) (hfile : keyBytes b.disk path = some bytes) {os : FileSystem}
    (hread : os.read path = none) (generated : Keypair) :
    (b.loadPlain X os generated).1 =
      (X.keys.fromProtobuf bytes).mapError fun e => "Failed to parse keypair: " ++ e := by
  unfold Backend.loadPlain loadOrGenerateKeypair
  simp only [hpath, hmem, hfile, hread, if_false]

/-- What it makes of no file. -/
theorem loadPlain_memory (hpath : b.app.keyPath = some MEMORY) (os : FileSystem)
    (generated : Keypair) : (b.loadPlain X os generated).1 = .ok generated := by
  unfold Backend.loadPlain loadOrGenerateKeypair
  simp only [hpath, if_true]

/-- **When a session has one identity**: it is amnesic, and what the login has drawn and what the
    loop has drawn have one name; or it is not, and the encrypted key file is also a plain one. -/
theorem oneIdentity_iff (hV : X.vault.aead.Lawful) (hK : X.keys.Documented) {drawn : Draw Keypair}
    {i : Startup Keypair} {password id : String} {amnesic : Bool}
    (h : InSession X drawn i password amnesic id b) :
    OneIdentity X b id ↔
      (amnesic = true → X.peerId drawn.keypair = X.peerId i.draw.keypair) ∧
      (amnesic = false → ∃ bytes keypair, keyBytes b.disk (keyPathOf X.sha password false) =
        some bytes ∧
        X.keys.fromProtobuf bytes = .ok keypair) := by
  obtain ⟨hkey, hpath, hamnesic, hfile⟩ := inSession_has hV hK h
  constructor
  · intro hone
    refine ⟨fun hmem => ?_, fun hnormal => ?_⟩
    · obtain ⟨hid, hloop⟩ := hamnesic hmem
      rw [← hid, ← hloop, hone.peerId]
    · obtain ⟨-, bytes, hbytes⟩ := hfile hnormal
      subst hnormal
      obtain ⟨keypair, hload⟩ := hone.stored .willing i.draw.keypair fun _ => rfl
      rw [loadPlain_file hpath (profileKey_ne_memory ⟨password, rfl⟩) hbytes rfl] at hload
      cases hparse : X.keys.fromProtobuf bytes with
      | error e =>
        rw [hparse] at hload
        cases hload
      | ok k => exact ⟨bytes, k, hbytes, hparse⟩
  · intro hcond
    obtain ⟨hdraws, hplain⟩ := hcond
    refine
      { peerId := ?_
        invites := fun c _ _ _ _ _ _ hok => ((commands_refused X hkey c).1 _ _ _ _ _ _ hok).elim
        grants := fun c _ _ _ _ _ hok => ((commands_refused X hkey c).2.1 _ _ _ _ _ hok).elim
        edges := fun c _ _ _ _ _ hok => ((commands_refused X hkey c).2.2.1 _ _ _ _ _ hok).elim
        stored := fun os generated hread => ?_ }
    · cases amnesic with
      | true =>
        obtain ⟨hid, hloop⟩ := hamnesic rfl
        rw [hloop, hid, hdraws rfl]
      | false => exact (hfile rfl).1
    · cases amnesic with
      | true => exact ⟨generated, loadPlain_memory hpath os generated⟩
      | false =>
        obtain ⟨bytes, keypair, hbytes, hparse⟩ := hplain rfl
        refine ⟨keypair, ?_⟩
        rw [loadPlain_file hpath (profileKey_ne_memory ⟨password, rfl⟩) hbytes (hread _), hparse]
        rfl

/-- A session of the password `pw` on the sample host. -/
theorem started_inSession {amnesic : Bool} {keypair keypair' : Nat} {id : String}
    (hlogin : (loginProfile sampleHost .willing (draw keypair) (.fresh ∅) "pw" amnesic).1 =
      some (.ok id))
    (hrunning : (loggedIn amnesic keypair).running = true)
    (hqueue : (loggedIn amnesic keypair).queue = [("pw", amnesic)])
    (hrunning' : (started amnesic keypair keypair').running = true) :
    InSession sampleHost (draw keypair) (smooth keypair') "pw" amnesic id
      (started amnesic keypair keypair') :=
  ⟨.fresh ∅, loggedIn amnesic keypair, loggedIn amnesic keypair, started amnesic keypair keypair',
    .willing, .start _ ⟨∅, rfl⟩, Prod.ext hlogin rfl, .start _ rfl, hqueue,
    start_step hrunning hqueue _,
    hrunning', .start _ rfl⟩

/-- For a normal session. -/
theorem oneIdentity_iff_stored : OneIdentity sampleHost (started false 1 2) "pp" ↔
    (false = true → sampleHost.peerId 1 = sampleHost.peerId 2) ∧
    (false = false → ∃ bytes keypair,
      keyBytes (started false 1 2).disk (keyPathOf sampleHost.sha "pw" false) = some bytes ∧
        sampleHost.keys.fromProtobuf bytes = .ok keypair) :=
  oneIdentity_iff plain32_lawful unary_documented
    (started_inSession (by decide) (by decide) (by decide) (by decide))

/-! ## 4. Two sessions -/

/-- What `create_trust_edge` says in a session. -/
def trustEdgeAnswer (b : Backend) : Except String TrustEdge :=
  b.createTrustEdge sampleHost { f := noFaults, os := .willing, generated := 3, nowMs := 0 }
    (.ok ()) "q" 1
    ""

/-- **An amnesic session** has another name than the login has returned; **in a normal one** no
    trust edge is created, since the key file is encrypted. -/
theorem two_identities :
    (loginProfile sampleHost .willing (draw 1) (.fresh ∅) "pw" true).1 = some (.ok "pp") ∧
    (started true 1 2).myPeerId = "ppp" ∧ ¬ OneIdentity sampleHost (started true 1 2) "pp" ∧
    (loginProfile sampleHost .willing (draw 1) (.fresh ∅) "pw" false).1 = some (.ok "pp") ∧
    (started false 1 2).myPeerId = "pp" ∧
    trustEdgeAnswer (started false 1 2) =
      .error "Failed to parse keypair: Invalid wire type value: 0" ∧
    ¬ OneIdentity sampleHost (started false 1 2) "pp" := by
  refine ⟨by decide, by decide, fun h => absurd h.peerId
    (by decide), by decide, by decide, by decide,
    fun h => ?_⟩
  obtain ⟨keypair, hload⟩ := h.stored .willing 3 fun _ => rfl
  have hnone : ((started false 1 2).loadPlain sampleHost .willing 3).1.toOption = none := by decide
  rw [hload] at hnone
  cases hnone

end AlterChat.Session
