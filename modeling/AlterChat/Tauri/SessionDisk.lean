import AlterChat.Tauri.Session

/-!
# What an event touches on the disk

Every event but a wipe leaves all files, and changes them at certain places only.

* §1 the functions a session is opened with, `startSession_touches`;
* §2 the other events, `step_touches`;
* §3 `sound_run` -- every run is sound;
* §4 `keyFile_step` -- a key file stays as it is.
-/

namespace AlterChat.Session

open Lib Lib.Paths Lib.Disk Db Commands Identity Profile Chunks

variable {Keypair Pub Key : Type} {X : Host Keypair Pub Key} {b b' : Backend}

/-! ## 1. Opening a session -/

theorem initDb_touches (f : Faults) (os : FileSystem) (disk : Disk Content) (path : String) :
    Touches (fun q => path ≠ MEMORY ∧ q = place path) disk (initDb f os disk path).2 := by
  unfold initDb
  by_cases hpath : path = MEMORY
  · rw [if_pos hpath]
    exact .refl _ disk
  · rw [if_neg hpath]
    split
    · exact .refl _ disk
    · exact .refl _ disk
    · have h := (touches_put disk Content.bytes (os.write path) path (.database .new)).mono
        (Q := fun q => path ≠ MEMORY ∧ q = place path) fun q hq => ⟨hpath, hq.2⟩
      simp only
      split <;> exact h

theorem keepKey_touches (disk : Disk Content) (path : String) (file : Option Bytes) :
    Touches (fun q => q = place path) disk (keepKey disk path file) := by
  unfold keepKey
  split
  · exact .refl _ disk
  · split
    · exact .refl _ disk
    · exact touches_insert disk _ _

/-- What was there is kept as it is. -/
theorem keepKey_self (disk : Disk Content) (path : String) :
    keepKey disk path (keyBytes disk path) = disk := by
  unfold keepKey
  split
  · rfl
  · next bytes h => exact if_pos h

theorem loadEncrypted_memory (os : FileSystem) (disk : Disk Content) (password : String)
    (draw : Draw Keypair) :
    loadEncrypted X os disk MEMORY password draw = (some (.ok draw.keypair), disk) := by
  unfold loadEncrypted
  rw [loadOrGenerateEncryptedKeypair_memory]
  simp only [keepKey_self]

/-- Nothing is at the place of a path. -/
theorem keyBytes_none {disk : Disk Content} {path : String} :
    keyBytes disk path = none ↔ place path ∉ disk := by
  unfold keyBytes Disk.get
  rw [Option.map_eq_none_iff, AList.lookup_eq_none]

/-- **The encrypted loader touches the key file**, if it is not there. -/
theorem loadEncrypted_touches (os : FileSystem) (disk : Disk Content) (path password : String)
    (draw : Draw Keypair) :
    Touches (fun q => path ≠ MEMORY ∧ q = place path ∧ q ∉ disk) disk
      (loadEncrypted X os disk path password draw).2 := by
  by_cases hpath : path = MEMORY
  · subst hpath
    rw [loadEncrypted_memory]
    exact .refl _ disk
  · unfold loadEncrypted
    split
    · exact .refl _ disk
    · next result file hload =>
      cases hthere : keyBytes disk path with
      | none =>
        exact (keepKey_touches disk path _).mono fun q hq =>
          ⟨hpath, hq, hq ▸ keyBytes_none.mp hthere⟩
      | some bytes =>
        rw [hthere] at hload
        rw [loadOrGenerateEncryptedKeypair_file hload, ← hthere, keepKey_self]
        exact .refl _ disk

theorem mem_keepKey (disk : Disk Content) (path : String) {file : Option Bytes}
    (h : file.isSome = true) : place path ∈ keepKey disk path file := by
  obtain ⟨bytes, rfl⟩ := Option.isSome_iff_exists.mp h
  unfold keepKey
  simp only
  split
  · next hthere =>
    by_contra hno
    rw [keyBytes_none.mpr hno] at hthere
    cases hthere
  · exact (AList.mem_insert disk).mpr (.inl rfl)

/-- A key pair that has been loaded is in its file. -/
theorem loadEncrypted_there {os : FileSystem} {disk disk' : Disk Content} {path password : String}
    {draw : Draw Keypair} {keypair : Keypair} (hpath : path ≠ MEMORY)
    (h : loadEncrypted X os disk path password draw = (some (.ok keypair), disk')) :
    place path ∈ disk' := by
  unfold loadEncrypted at h
  split at h
  · cases h
  · next result file hload =>
    cases h
    exact mem_keepKey disk path (loadOrGenerateEncryptedKeypair_some hpath hload)

/-- The known-peers file is written. -/
def PeersWritten (X : Host Keypair Pub Key) (os : FileSystem) : Prop :=
  os.createDirAll (knownPeersDir X) = true ∧ (os.write (knownPeersPath X)).touches = true

theorem createSwarm_touches (os : FileSystem) (disk : Disk Content) (built : Bool)
    (config : NetworkPrivacyConfig) :
    Touches (fun q => PeersWritten X os ∧ q = place (knownPeersPath X)) disk
      (createSwarm X os disk built config).2 := by
  unfold createSwarm savePeers
  split
  · exact .refl _ disk
  · split
    · simp only
      split
      · exact .refl _ disk
      · next hdir =>
        exact (touches_put disk _ _ _ _).mono fun q hq => ⟨⟨by simpa using hdir, hq.1⟩, hq.2⟩
    · exact .refl _ disk

theorem createSwarm_builds (os : FileSystem) (disk : Disk Content) (config : NetworkPrivacyConfig) :
    ∃ persisted disk', createSwarm X os disk true config = (some persisted, disk') := by
  unfold createSwarm
  rw [if_neg (by decide)]
  split
  · exact ⟨_, _, rfl⟩
  · exact ⟨_, _, rfl⟩

theorem write_touches (conn : Connection) (disk : Disk Content) (db : ProfileDb) :
    Touches (fun q => ∃ path, conn = .file path ∧ q = place path) disk (conn.write disk db).2 := by
  cases conn with
  | memory db' => exact .refl _ disk
  | file path => exact (touches_insert disk _ _).mono fun q hq => ⟨path, rfl, hq⟩

theorem previousSession_touches (i : Startup Keypair) (previous : Option Connection)
    (disk : Disk Content) (myPeerId : String) :
    Touches (fun q => ∃ path, previous = some (.file path) ∧ q = place path) disk
      (previousSession X i previous disk myPeerId).2 := by
  unfold previousSession
  cases previous with
  | none => exact .refl _ disk
  | some old =>
    have hfirst : Touches (fun q => ∃ path, some old = some (.file path) ∧ q = place path) disk
        (dialKnownPeers X i old disk).2.2 :=
      (write_touches old disk _).mono fun q ⟨path, hold, hq⟩ => ⟨path, congrArg some hold, hq⟩
    simp only
    split
    · exact hfirst
    · refine hfirst.trans ((write_touches _ _ _).mono fun q ⟨path, hold, hq⟩ => ⟨path, ?_, hq⟩)
      -- the connection is still the one to the same file
      rcases write_conn old disk (cleanupOldPeers i.fp (old.read disk) i.nowMs
        (7 * 24 * 60 * 60 * 1000)) with ⟨hmem, -⟩ | ⟨path', hfile, hwritten⟩
      · cases hmem.symm.trans hold
      · cases hwritten.symm.trans hold
        exact congrArg some hfile

/-- `StartSession` gets as far as `create_swarm`, and a swarm can be built. -/
def SwarmBuilt (X : Host Keypair Pub Key) (i : Startup Keypair) (disk : Disk Content)
    (password : String) (amnesic : Bool) : Prop :=
  i.built = true ∧ ∃ conn disk₁ keypair disk₂,
    initDb i.f i.os disk (dbPathOf X.sha password amnesic) = (.ok conn, disk₁) ∧
    loadEncrypted X i.os disk₁ (keyPathOf X.sha password amnesic) password i.draw =
      (some (.ok keypair), disk₂) ∧
    X.isEd25519 keypair = true

/-- What `StartSession` touches: the files of the profile, unless it is amnesic, the key file only
    if it is not there; and then the known-peers file, if it is written, and the database of the
    connection there was before. -/
def StartTouches (X : Host Keypair Pub Key) (i : Startup Keypair) (b : Backend) (password : String)
    (amnesic : Bool) (q : Location) : Prop :=
  amnesic = false ∧ (q = place (dbPathOf X.sha password false) ∨
      q = place (keyPathOf X.sha password false) ∧ q ∉ b.disk) ∨
    SwarmBuilt X i b.disk password amnesic ∧ (PeersWritten X i.os ∧ q = place (knownPeersPath X) ∨
      ∃ path, b.conn = some (.file path) ∧ q = place path)

/-- **`StartSession` touches nothing else.** -/
theorem startSession_touches (i : Startup Keypair) (password : String) (amnesic : Bool) :
    Touches (StartTouches X i b password amnesic) b.disk
      (startSession X i b password amnesic).1.disk := by
  have hdb : ∀ disk, Touches (StartTouches X i b password amnesic) disk
      (initDb i.f i.os disk (dbPathOf X.sha password amnesic)).2 := fun disk =>
    (initDb_touches _ _ _ _).mono fun q hq => by
      cases amnesic with
      | true => exact absurd rfl hq.1
      | false => exact .inl ⟨rfl, .inl hq.2⟩
  have hkey : ∀ disk, (∀ q ∈ b.disk, q ∈ disk) → Touches (StartTouches X i b password amnesic) disk
      (loadEncrypted X i.os disk (keyPathOf X.sha password amnesic) password i.draw).2 :=
    fun disk hkept => (loadEncrypted_touches _ _ _ _ _).mono fun q hq => by
      cases amnesic with
      | true => exact absurd rfl hq.1
      | false => exact .inl ⟨rfl, .inr ⟨hq.2.1, fun hin => hq.2.2 (hkept q hin)⟩⟩
  have hopened := hdb b.disk
  unfold startSession
  simp only
  split
  · next hinit =>
    rw [hinit] at hopened
    exact hopened
  · next conn disk₁ hinit =>
    rw [hinit] at hopened
    have hloaded := hopened.trans (hkey disk₁ hopened.kept)
    split
    · next keypair disk₂ hload =>
      rw [hload] at hloaded
      split
      · exact hloaded
      · next hed =>
        cases hbuilt : i.built with
        | false => exact hloaded
        | true =>
          have hreached : SwarmBuilt X i b.disk password amnesic :=
            ⟨hbuilt, conn, disk₁, keypair, disk₂, hinit, hload, by simpa using hed⟩
          have hswarm := createSwarm_touches (X := X) i.os disk₂ true
            (networkConfig i.f (conn.read disk₂).tables)
          obtain ⟨persisted, disk₃, hbuilds⟩ := createSwarm_builds (X := X) i.os disk₂
            (networkConfig i.f (conn.read disk₂).tables)
          rw [hbuilds] at hswarm ⊢
          refine ((hloaded.trans (hswarm.mono fun q hq => .inr ⟨hreached, .inl hq⟩)).trans
            ((write_touches conn _ _).mono ?_)).trans
              ((previousSession_touches i b.conn _ _).mono fun q hq => .inr ⟨hreached, .inr hq⟩)
          intro q ⟨path, hconn, hq⟩
          subst hconn hq
          -- the connection is the one just opened
          rcases initDb_ok hinit with ⟨-, hmem, -⟩ | ⟨hne, hfile, -⟩
          · cases hmem
          · cases hfile
            cases amnesic with
            | true => exact absurd rfl hne
            | false => exact .inl ⟨rfl, .inl rfl⟩
    · next hload =>
      rw [hload] at hloaded
      exact hloaded

/-! ## 2. The other events -/

/-- The file that a chunk writes, with what it then holds. -/
def ChunkEvent.written (e : ChunkEvent Key) (b : Backend) : Option (String × Bytes) :=
  b.conn.bind fun conn => (e.turn b (conn.read b.disk)).written

/-- The chunk is let through and written, in a session with this database. -/
def ChunkEvent.IsWritten (e : ChunkEvent Key) (dbPath : String) (db : ProfileDb) : Prop :=
  Chunks.IsWritten e.hashOf e.f e.fc e.os (e.loop.setConn db.tables) db.chunks dbPath e.peer e.chunk

/-- Which chunk is written, and where. -/
theorem ChunkEvent.written_path {e : ChunkEvent Key} {file : String × Bytes}
    (h : e.written b = some file) :
    ∃ conn dbPath, b.conn = some conn ∧ b.currentDbPath = some dbPath ∧
      e.IsWritten dbPath (conn.read b.disk) ∧
      file.1 = join (storageRootForDb dbPath) (chunkFile e.chunk.transferId e.chunk.index) := by
  obtain ⟨conn, hconn, hwritten⟩ := Option.bind_eq_some_iff.mp h
  obtain ⟨dbPath, hpath, hok, hfile⟩ := fileChunk_written hwritten
  exact ⟨conn, dbPath, hconn, hpath, hok, hfile⟩

/-- The place of the connection's file. -/
def ConnPlace (b : Backend) (q : Location) : Prop :=
  ∃ path, b.conn = some (.file path) ∧ q = place path

/-- What an event touches; a wipe is not counted. -/
def Touched (X : Host Keypair Pub Key) (b : Backend) : BackendEvent Keypair Key → Location → Prop
  | .login _ _ password amnesic, q =>
    amnesic = false ∧ q = place (keyPathOf X.sha password false) ∧ q ∉ b.disk
  | .start i, q => ∃ password amnesic queue, b.queue = (password, amnesic) :: queue ∧
    StartTouches X i b password amnesic q
  | .dbCommand .., _ => False
  | .loadPlain .., _ => False
  | .loopWrite _, q => ConnPlace b q
  | .chunk e, q => ConnPlace b q ∨ ∃ file, e.written b = some file ∧ q = place file.1
  | .sideFile side _, q => ∃ path, b.conn = some (.file path) ∧ q = place (path ++ side.suffix)
  | .wipe _, _ => False
  | .quit, _ => False

theorem loginProfile_touches (os : FileSystem) (draw : Draw Keypair) (password : String)
    (amnesic : Bool) :
    Touches (fun q => amnesic = false ∧ q = place (keyPathOf X.sha password false) ∧
      q ∉ b.disk) b.disk (loginProfile X os draw b password amnesic).2.disk := by
  have h : Touches
      (fun q => amnesic = false ∧ q = place (keyPathOf X.sha password false) ∧ q ∉ b.disk) b.disk
      (loadEncrypted X os b.disk (keyPathOf X.sha password amnesic) password draw).2 :=
    (loadEncrypted_touches _ _ _ _ _).mono fun q hq => by
      cases amnesic with
      | true => exact absurd rfl hq.1
      | false => exact ⟨rfl, hq.2⟩
  unfold loginProfile
  simp only
  split
  · next hload =>
    rw [hload] at h
    exact h
  · next hload =>
    rw [hload] at h
    exact h
  · next hload =>
    rw [hload] at h
    split <;> exact h

theorem loadPlain_touches (os : FileSystem) (generated : Keypair) :
    Touches (fun q => ∃ path, b.app.keyPath = some path ∧ path ≠ MEMORY ∧
      q = place path ∧ q ∉ b.disk)
      b.disk (b.loadPlain X os generated).2.disk := by
  unfold Backend.loadPlain
  cases hpath : b.app.keyPath with
  | none => exact .refl _ b.disk
  | some path =>
    by_cases hmem : path = MEMORY
    · subst hmem
      have hsame : loadOrGenerateKeypair X.keys os MEMORY (keyBytes b.disk MEMORY) generated =
          (.ok generated, keyBytes b.disk MEMORY) := if_pos rfl
      simp only [hsame, keepKey_self]
      exact .refl _ b.disk
    · cases hthere : keyBytes b.disk path with
      | none =>
        exact (keepKey_touches b.disk path _).mono fun q hq =>
          ⟨path, rfl, hmem, hq, hq ▸ keyBytes_none.mp hthere⟩
      | some bytes =>
        simp only [hthere, loadOrGenerateKeypair_file]
        rw [← hthere, keepKey_self]
        exact .refl _ b.disk

theorem fileChunk_touches (e : ChunkEvent Key) :
    Touches (fun q => ConnPlace b q ∨ ∃ file, e.written b = some file ∧ q = place file.1) b.disk
      (b.fileChunk e).disk := by
  unfold Backend.fileChunk ChunkEvent.written ConnPlace
  cases b.conn with
  | none => exact .refl _ b.disk
  | some conn =>
    simp only [Option.bind_some]
    refine Touches.trans ?_ ((write_touches conn _ _).mono fun q hq => .inl ?_)
    · split
      · exact .refl _ b.disk
      · next path bytes hwritten =>
        exact (touches_insert b.disk _ _).mono fun q hq => .inr ⟨(path, bytes), hwritten, hq⟩
    · obtain ⟨path, rfl, hq⟩ := hq
      exact ⟨path, rfl, hq⟩

/-- **What an event touches.** -/
theorem step_touches (h : Sound X b) {ev : BackendEvent Keypair Key}
    (hwipe : ∀ scope, ev ≠ .wipe scope) (hs : BackendStep X b ev b') :
    Touches (Touched X b ev) b.disk b'.disk := by
  cases ev with
  | login os draw password amnesic =>
    cases hs
    exact loginProfile_touches os draw password amnesic
  | start i =>
    obtain ⟨password, amnesic, queue, -, hqueue, rfl⟩ := start_inv hs
    exact (startSession_touches (b := { b with queue }) i password amnesic).mono fun q hq =>
      ⟨password, amnesic, queue, hqueue, hq⟩
  | dbCommand f os body =>
    cases hs
    rw [withDb_refused h.dbKey]
    exact .refl _ b.disk
  | loadPlain os generated =>
    cases hs
    refine (loadPlain_touches os generated).mono fun q hq => ?_
    obtain ⟨path, hpath, hmem, rfl, hnot⟩ := hq
    exact hnot ((h.keyPath path hpath).resolve_left hmem).2
  | loopWrite write =>
    obtain ⟨conn, hconn, rfl⟩ := Option.map_eq_some_iff.mp hs
    refine (write_touches conn b.disk _).mono fun q hq => ?_
    obtain ⟨path, rfl, hq⟩ := hq
    exact ⟨path, hconn, hq⟩
  | chunk e =>
    cases hs
    exact fileChunk_touches e
  | sideFile side bytes =>
    simp only [BackendStep, Backend.after] at hs
    split at hs
    · next path hconn =>
      cases hs
      exact (touches_insert b.disk _ _).mono fun q hq => ⟨path, hconn, hq⟩
    · cases hs
  | wipe scope => exact absurd rfl (hwipe scope)
  | quit =>
    cases hs
    exact .refl _ b.disk

/-! ## 3. Every run is sound -/

theorem dbPathOf_cases (X : Host Keypair Pub Key) (password : String) (amnesic : Bool) :
    dbPathOf X.sha password amnesic = MEMORY ∨ IsDbPath X (dbPathOf X.sha password amnesic) := by
  cases amnesic with
  | true => exact .inl rfl
  | false => exact .inr ⟨password, rfl⟩

theorem keyPathOf_cases (X : Host Keypair Pub Key) (password : String) (amnesic : Bool) :
    keyPathOf X.sha password amnesic = MEMORY ∨ IsKeyPath X (keyPathOf X.sha password amnesic) := by
  cases amnesic with
  | true => exact .inl rfl
  | false => exact .inr ⟨password, rfl⟩

theorem IsKeyPath.ends {path : String} (h : IsKeyPath X path) : Ends ".bin" path := by
  obtain ⟨password, rfl⟩ := h
  exact ends_append _ _

theorem IsDbPath.ends {path : String} (h : IsDbPath X path) : Ends ".db" path := by
  obtain ⟨password, rfl⟩ := h
  exact ends_append _ _

theorem profileKey_ne_memory {path : String} (h : IsKeyPath X path) : path ≠ MEMORY := by
  intro hmem
  have hends := h.ends
  rw [hmem] at hends
  exact absurd hends (by unfold Ends; decide)

theorem sound_fresh (disk : Disk Content) : Sound X (.fresh disk) where
  dbKey := rfl
  dbPath _ h := by cases h
  keyPath _ h := by cases h
  conn _ h := by cases h
  current _ h := by cases h

/-- A backend with the same variables on a disk with more files. -/
theorem Sound.disk (h : Sound X b) {disk : Disk Content} (hkept : ∀ q ∈ b.disk, q ∈ disk) :
    Sound X { b with disk } :=
  { h with
    keyPath := fun path hpath => (h.keyPath path hpath).imp_right fun hk => ⟨hk.1, hkept _ hk.2⟩
    conn := fun path hconn => ⟨(h.conn path hconn).1, hkept _ (h.conn path hconn).2⟩ }

theorem Sound.died (h : Sound X b) {disk : Disk Content} (hkept : ∀ q ∈ b.disk, q ∈ disk) :
    Sound X (b.died disk) where
  dbKey := h.dbKey
  dbPath := h.dbPath
  keyPath := (h.disk hkept).keyPath
  conn _ hconn := by cases hconn
  current _ hcurrent := by cases hcurrent

/-- After a write through the connection. -/
theorem Sound.write (h : Sound X b) {conn : Connection} (hconn : b.conn = some conn)
    {disk : Disk Content} (hkept : ∀ q ∈ b.disk, q ∈ disk) (db : ProfileDb) :
    Sound X { b with conn := some (conn.write disk db).1, disk := (conn.write disk db).2 } := by
  have hdisk := (write_touches conn disk db).kept
  rcases write_conn conn disk db with ⟨hwritten, db', rfl⟩ | ⟨path, rfl, hwritten⟩
  · rw [hwritten]
    refine { dbKey := h.dbKey, dbPath := h.dbPath, keyPath := (h.disk hkept).keyPath
             conn := fun _ hc => by cases hc
             current := fun path hcurrent => ?_ }
    rcases h.current path hcurrent with hmem | hfile
    · exact .inl hmem
    · cases hconn.symm.trans hfile
  · rw [hwritten, ← hconn]
    exact h.disk fun q hq => hdisk q (hkept q hq)

/-- **`StartSession` keeps a backend sound.** -/
theorem Sound.startSession (h : Sound X b) (i : Startup Keypair) (password : String)
    (amnesic : Bool) :
    Sound X (startSession X i b password amnesic).1 := by
  have hkept := (startSession_touches (X := X) (b := b) i password amnesic).kept
  rcases startSession_cases X i b password amnesic with ⟨disk, log, hdied⟩ |
    ⟨conn, disk₁, keypair, disk₂, persisted, disk₃, hinit, hload, hswarm, hstarted⟩
  · rw [hdied] at hkept ⊢
    exact h.died hkept
  · rw [hstarted] at hkept ⊢
    have hfile : ∀ path, conn = .file path → path = dbPathOf X.sha password amnesic ∧
        IsDbPath X path ∧ place path ∈ disk₃ := by
      intro path hconn
      rcases initDb_ok hinit with ⟨-, hmem, -⟩ | ⟨hne, hfile, hplace⟩
      · cases hmem.symm.trans hconn
      · cases hfile.symm.trans hconn
        have h₂ := (loadEncrypted_touches (X := X) i.os disk₁ (keyPathOf X.sha password amnesic)
          password i.draw).kept _ hplace
        rw [hload] at h₂
        have h₃ := (createSwarm_touches (X := X) i.os disk₂ i.built
          (networkConfig i.f (conn.read disk₂).tables)).kept _ h₂
        rw [hswarm] at h₃
        exact ⟨rfl, (dbPathOf_cases X password amnesic).resolve_left hne, h₃⟩
    refine { dbKey := h.dbKey, dbPath := h.dbPath, keyPath := (h.disk hkept).keyPath, conn := ?_
             current := ?_ }
    · intro path hconn
      rcases write_conn conn disk₃ _ with ⟨hwritten, -⟩ | ⟨path', rfl, hwritten⟩
      · cases hwritten.symm.trans (Option.some.inj hconn)
      · cases hwritten.symm.trans (Option.some.inj hconn)
        obtain ⟨-, hprofile, hplace⟩ := hfile path rfl
        exact ⟨hprofile, (previousSession_touches i b.conn _ _).kept _
          ((write_touches _ _ _).kept _ hplace)⟩
    · intro path hcurrent
      cases hcurrent
      rcases initDb_ok hinit with ⟨hmem, -, -⟩ | ⟨-, rfl, -⟩
      · exact .inl hmem
      · exact .inr rfl

/-- **`login_profile` keeps it sound**: the paths it leaves in `AppState` are of one profile, and
    the key file has been written or was there. -/
theorem Sound.login (h : Sound X b) (os : FileSystem) (draw : Draw Keypair) (password : String)
    (amnesic : Bool) : Sound X (loginProfile X os draw b password amnesic).2 := by
  have hkept :=
    (loadEncrypted_touches (X := X) os b.disk (keyPathOf X.sha password amnesic) password
    draw).kept
  unfold loginProfile
  simp only
  split
  · next hload =>
    rw [hload] at hkept
    exact h.disk hkept
  · next hload =>
    rw [hload] at hkept
    exact h.disk hkept
  · next keypair disk hload =>
    rw [hload] at hkept
    have happ : ∀ queue, Sound X { b with
        disk, queue
        app := { b.app with
          dbPath := some (dbPathOf X.sha password amnesic)
          keyPath := some (keyPathOf X.sha password amnesic) } } := by
      intro queue
      refine { dbKey := h.dbKey, dbPath := ?_, keyPath := ?_
               conn := (h.disk hkept).conn, current := h.current }
      · intro path hpath
        cases hpath
        exact dbPathOf_cases X password amnesic
      · intro path hpath
        cases hpath
        exact (keyPathOf_cases X password amnesic).imp_right fun hkey =>
          ⟨hkey, loadEncrypted_there (profileKey_ne_memory hkey) hload⟩
    split
    · exact happ b.queue
    · exact happ _

/-- **A chunk keeps it sound.** -/
theorem Sound.fileChunk (h : Sound X b) (e : ChunkEvent Key) : Sound X (b.fileChunk e) := by
  unfold Backend.fileChunk
  cases hconn : b.conn with
  | none => exact h
  | some conn =>
    refine h.write hconn (fun q hq => ?_) _
    split
    · exact hq
    · exact (touches_insert b.disk _ _).kept q hq

/-- **An event keeps a backend sound.** -/
theorem sound_step (h : Sound X b) {ev : BackendEvent Keypair Key} (hs : BackendStep X b ev b') :
    Sound X b' := by
  cases ev with
  | login os draw password amnesic =>
    cases hs
    exact h.login os draw password amnesic
  | start i =>
    obtain ⟨password, amnesic, queue, -, -, rfl⟩ := start_inv hs
    have hqueue' : Sound X { b with queue } := ⟨h.dbKey, h.dbPath, h.keyPath, h.conn, h.current⟩
    exact hqueue'.startSession i password amnesic
  | dbCommand f os body =>
    cases hs
    rw [withDb_refused h.dbKey]
    exact h
  | loadPlain os generated =>
    cases hs
    have hkept := (loadPlain_touches (X := X) (b := b) os generated).kept
    unfold Backend.loadPlain at hkept ⊢
    split
    · exact h
    · next hpath =>
      simp only [hpath] at hkept
      exact h.disk hkept
  | loopWrite write =>
    obtain ⟨conn, hconn, rfl⟩ := Option.map_eq_some_iff.mp hs
    exact h.write hconn (fun _ hq => hq) _
  | chunk e =>
    cases hs
    exact h.fileChunk e
  | sideFile side bytes =>
    simp only [BackendStep, Backend.after] at hs
    split at hs
    · cases hs
      exact h.disk (touches_insert b.disk _ _).kept
    · cases hs
  | wipe scope =>
    cases hs
    unfold panicWipe
    split
    · exact h
    · exact sound_fresh _
  | quit =>
    cases hs
    exact sound_fresh _

/-- **Every run is sound.** -/
theorem sound_run (h : Reach Fresh (BackendStep X) b) : Sound X b := by
  refine h.inv (I := Sound X) ?_ fun _ _ _ hsound hs => sound_step hsound hs
  intro b hfresh
  obtain ⟨disk, rfl⟩ := hfresh
  exact sound_fresh disk

/-! ## 4. Key files -/

theorem knownPeersPath_ends (X : Host Keypair Pub Key) :
    Ends "known_peers.json" (knownPeersPath X) :=
  Ends.join (List.suffix_refl _) _

theorem ChunkEvent.written_ends {e : ChunkEvent Key} {file : String × Bytes}
    (h : e.written b = some file) : Ends ".chunk" file.1 := by
  obtain ⟨conn, dbPath, -, -, -, hpath⟩ := ChunkEvent.written_path h
  rw [hpath]
  exact (ends_append _ _).join _

/-- **A key file is touched only if it is not there.** -/
theorem Touched.keyFile (h : Sound X b) {ev : BackendEvent Keypair Key} {path : String}
    (hpath : IsKeyPath X path) (ht : Touched X b ev (place path)) : place path ∉ b.disk := by
  -- every other path that is touched ends differently
  have hconn : ¬ ConnPlace b (place path) := by
    intro hc
    obtain ⟨db, hdb, heq⟩ := hc
    exact (show Apart ".bin" ".db" by decide).place_ne hpath.ends (h.conn db hdb).1.ends heq
  cases ev with
  | login os draw password amnesic => exact ht.2.2
  | start i =>
    obtain ⟨password, amnesic, queue, -, ht⟩ := ht
    rcases ht with ⟨-, hdb | hkey⟩ | ⟨-, ⟨-, hpeers⟩ | hc⟩
    · exact absurd hdb ((show Apart ".bin" ".db" by decide).place_ne hpath.ends (ends_append _ _))
    · exact hkey.2
    · exact absurd hpeers ((show Apart ".bin" "known_peers.json" by decide).place_ne hpath.ends
        (knownPeersPath_ends X))
    · exact absurd hc hconn
  | dbCommand f os body => cases ht
  | loadPlain os generated => cases ht
  | loopWrite write => exact absurd ht hconn
  | chunk e =>
    rcases ht with hc | ⟨file, hwritten, heq⟩
    · exact absurd hc hconn
    · exact absurd heq ((show Apart ".bin" ".chunk" by decide).place_ne hpath.ends
        (ChunkEvent.written_ends hwritten))
  | sideFile side bytes =>
    obtain ⟨db, -, heq⟩ := ht
    cases side with
    | shm =>
      exact absurd heq ((show Apart ".bin" "-shm" by decide).place_ne hpath.ends (ends_append _ _))
    | wal =>
      exact absurd heq ((show Apart ".bin" "-wal" by decide).place_ne hpath.ends (ends_append _ _))
    | journal =>
      exact absurd heq ((show Apart ".bin" "-journal" by decide).place_ne hpath.ends
        (ends_append _ _))
  | wipe scope => cases ht
  | quit => cases ht

/-- **A key file stays as it is**, until it is wiped. -/
theorem keyFile_step (h : Sound X b) {ev : BackendEvent Keypair Key}
    (hwipe : ∀ scope, ev ≠ .wipe scope) (hs : BackendStep X b ev b') {path : String}
    (hpath : IsKeyPath X path) {bytes : Bytes} (hfile : keyBytes b.disk path = some bytes) :
    keyBytes b'.disk path = some bytes := by
  have hthere : place path ∈ b.disk := by
    by_contra hno
    rw [keyBytes_none.mpr hno] at hfile
    cases hfile
  have hsame := (step_touches h hwipe hs).frame (place path) fun ht => ht.keyFile h hpath hthere
  unfold keyBytes Disk.get at hfile ⊢
  rwa [hsame]

end AlterChat.Session
