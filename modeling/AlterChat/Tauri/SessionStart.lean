import AlterChat.Tauri.SessionCommands

/-!
# What `StartSession` reads and writes

While a session starts there are two connections: the one that has just been opened, and the one
that the loop still has. The peers to dial, and the place of the new bundle, are those of the second
one.

* §1 databases on a disk that changes elsewhere;
* §2 the peers in a table;
* §3 what the statements on the old connection leave;
* §4 `OnlyOpened`; `onlyOpened_iff` -- when a `StartSession` keeps to the profile it opens;
* §5 `every_start_iff` -- the same in every run; `first_login_and_switch` -- two that do not.
-/

namespace AlterChat.Session

open Lib Lib.Paths Lib.Disk Governance Db Commands Identity Profile Chunks

variable {Keypair Pub Key : Type} {X : Host Keypair Pub Key} {b b' : Backend}

/-! ## 1. One file of the disk -/

theorem read_write (disk : Disk Content) (path : String) (db : ProfileDb) :
    (Connection.file path).read ((Connection.file path).write disk db).2 = db := by
  simp only [Connection.read, Connection.write, Disk.get, AList.lookup_insert]

/-- What happens at other places is not read. -/
theorem read_frame {P : Location → Prop} {disk disk' : Disk Content} (h : Touches P disk disk')
    {path : String} (hpath : ¬ P (place path)) :
    (Connection.file path).read disk' = (Connection.file path).read disk := by
  simp only [Connection.read, Disk.get, h.frame _ hpath]

/-- Opening a database leaves it as it is; one that is not there is new. -/
theorem initDb_read {f : Faults} {os : FileSystem} {disk disk' : Disk Content} {path : String}
    {conn : Connection} (hpath : path ≠ MEMORY) (h : initDb f os disk path = (.ok conn, disk')) :
    (Connection.file path).read disk' = (Connection.file path).read disk := by
  unfold initDb at h
  rw [if_neg hpath] at h
  split at h
  · obtain ⟨-, rfl⟩ := Prod.mk.inj h
    rfl
  · cases h
  · next hno hno' =>
    have hnew : (Connection.file path).read disk = .new := by
      simp only [Connection.read]
    cases hanswer : os.write path with
    | refused e | broken left e =>
      simp only [hanswer, Written.error] at h
      cases h
    | written =>
      simp only [hanswer, Written.error] at h
      obtain ⟨-, rfl⟩ := Prod.mk.inj h
      rw [hnew]
      simp only [Connection.read, Disk.get_put_written]

theorem profileDb_ne_memory (H : Sha256) (password : String) :
    profileDb (tag H password) ≠ MEMORY := by
  intro hmem
  have hends : Ends ".db" (profileDb (tag H password)) := ends_append _ _
  rw [hmem] at hends
  exact absurd hends (by unfold Ends; decide)

/-- The databases of two profiles lie at two places. -/
theorem IsDbPath.place_inj {p q : String} (hp : IsDbPath X p) (hq : IsDbPath X q)
    (h : place p = place q) : p = q := by
  obtain ⟨password, rfl⟩ := hp
  obtain ⟨password', rfl⟩ := hq
  rw [(profileDb_isName X.sha password).place_eq, (profileDb_isName X.sha password').place_eq,
    Location.mk.injEq, List.cons.injEq] at h
  exact h.2.1

/-! ## 2. Peers -/

/-- Cleaning up adds no peer. -/
theorem mem_cleanupOldPeers {f : PeerFaults} {db : ProfileDb} {nowMs maxAgeMs : Int64}
    {peer : String × String} (h : peer ∈ (cleanupOldPeers f db nowMs maxAgeMs).knownPeers) :
    peer ∈ db.knownPeers := by
  unfold cleanupOldPeers at h
  split at h
  · exact h
  · generalize db.knownPeers.entries.filter _ = old at h
    simp only at h
    generalize db.knownPeers = peers at h ⊢
    induction old generalizing peers with
    | nil => exact h
    | cons row old ih => exact ((AList.mem_erase).mp (ih _ h)).2

/-- What is loaded is in the table. -/
theorem mem_loadKnownPeers {f : PeerFaults} {db : ProfileDb} {peer : String × String}
    (h : peer ∈ loadKnownPeers f db) : peer ∈ db.knownPeers := by
  unfold loadKnownPeers at h
  split at h
  · cases h
  · obtain ⟨row, hrow, rfl⟩ := List.mem_map.mp (List.mem_of_mem_take h)
    exact AList.mem_keys.mpr
      (List.mem_map.mpr ⟨row, (List.mergeSort_perm _ _).mem_iff.mp hrow, rfl⟩)

theorem lookup_savePrekeyBundle {f : PeerFaults} (hf : f .savePrekeyBundle = false) (db : ProfileDb)
    (peerId bundleJson : String) (nowMs : Int64) :
    (savePrekeyBundle f db peerId bundleJson nowMs).prekeyBundles.lookup peerId =
      some (bundleJson, nowMs) := by
  unfold savePrekeyBundle
  rw [if_neg (by rw [hf]; exact Bool.false_ne_true)]
  simp only [Table.lookup_upsert_const, if_true]

/-! ## 3. The old connection -/

/-- The bundle is saved on the old connection, or not at all. -/
theorem previousSession_bundle {i : Startup Keypair} {previous : Option Connection}
    {disk : Disk Content} {myPeerId : String} {target : Target}
    (h : (.peers .savePrekeyBundle, target) ∈ (previousSession X i previous disk
      myPeerId).1.statements) :
    i.bundleJson.isSome = true ∧ ∃ old, previous = some old ∧ target = old.target .previous := by
  unfold previousSession at h
  cases previous with
  | none => cases h
  | some old =>
    simp only at h
    cases hbundle : i.bundleJson with
    | none => simp [hbundle] at h
    | some bundleJson => exact ⟨rfl, old, rfl, by simpa [hbundle] using h⟩

/-- **The statements on a file**: they run on it; who is dialled is in its table; and it has the
    bundle afterwards, unless the statement fails. -/
theorem previousSession_file {i : Startup Keypair} {path bundleJson : String}
    (hbundle : i.bundleJson = some bundleJson) (disk : Disk Content) (myPeerId : String) :
    let turn := previousSession X i (some (.file path)) disk myPeerId
    (∀ s ∈ turn.1.statements, s.2 = .file path) ∧
      (.peers .savePrekeyBundle, .file path) ∈ turn.1.statements ∧
      (∀ addr ∈ turn.1.dialled, ∃ peer,
      (peer, addr) ∈ ((Connection.file path).read disk).knownPeers) ∧
      (i.fp .savePrekeyBundle = false →
        ((Connection.file path).read turn.2).prekeyBundles.lookup myPeerId =
        some (bundleJson, i.nowMs)) := by
  unfold previousSession
  simp only [hbundle]
  refine ⟨?_, ?_, ?_, ?_⟩
  · intro s hs
    simp only [Connection.target, List.cons_append, List.nil_append, List.mem_cons,
      List.not_mem_nil, or_false] at hs
    rcases hs with rfl | rfl | rfl <;> rfl
  · simp [Connection.target]
  · intro addr haddr
    obtain ⟨hdial, -⟩ := List.mem_filter.mp haddr
    obtain ⟨⟨peer, addr'⟩, hrow, rfl⟩ := List.mem_map.mp hdial
    exact ⟨peer, mem_cleanupOldPeers (mem_loadKnownPeers hrow)⟩
  · intro hf
    have hfile : (dialKnownPeers X i (.file path) disk).2.1 = .file path := rfl
    rw [hfile, read_write]
    exact lookup_savePrekeyBundle hf ..

/-! ## 4. Only the opened profile -/

/-- The database that a password opens, where the disk has it. -/
def openedDb (X : Host Keypair Pub Key) (b : Backend) (password : String) (amnesic : Bool) :
    ProfileDb :=
  if amnesic then .new else (Connection.file (dbPathOf X.sha password false)).read b.disk

def openedTarget (X : Host Keypair Pub Key) (password : String) (amnesic : Bool) : Target :=
  if amnesic then .opened else .file (dbPathOf X.sha password false)

/-- **A `StartSession` keeps to the profile that it opens**: all its statements run on that
    database; no other profile's is changed; the known peers it dials are in its table; and it saves
    the new bundle there. -/
structure OnlyOpened (X : Host Keypair Pub Key) (i : Startup Keypair) (b : Backend)
    (password : String) (amnesic : Bool) : Prop where
  statements : ∀ s ∈ (startSession X i b password amnesic).2.statements,
    s.2 = openedTarget X password amnesic
  others : ∀ path, IsDbPath X path → path ≠ dbPathOf X.sha password amnesic →
    (startSession X i b password amnesic).1.disk.get path = b.disk.get path
  dialled : ∀ addr ∈ (startSession X i b password amnesic).2.dialled,
    ∃ peer, (peer, addr) ∈ (openedDb X b password amnesic).knownPeers
  bundle : (.peers .savePrekeyBundle, openedTarget X password amnesic) ∈
    (startSession X i b password amnesic).2.statements
  saved : i.fp .savePrekeyBundle = false → ∃ bundleJson db, i.bundleJson = some bundleJson ∧
    (startSession X i b password amnesic).1.loopDb = some db ∧
    db.prekeyBundles.lookup (startSession X i b password amnesic).1.myPeerId =
    some (bundleJson, i.nowMs)

/-- The known peers that `create_swarm` dials: those in its file, unless it has returned before. -/
theorem createSwarm_dials {os : FileSystem} {disk disk' : Disk Content} {built : Bool}
    {config : NetworkPrivacyConfig} {persisted : List String}
    (h : createSwarm X os disk built config = (some persisted, disk')) :
    persisted =
      if config.dialsPeers then (persistedPeers X os disk).filter X.isMultiaddr else [] := by
  unfold createSwarm at h
  split at h
  · cases h
  · split at h
    · next hdials =>
      cases h
      exact (if_pos hdials).symm
    · next hdials =>
      cases h
      exact (if_neg hdials).symm

theorem persistedPeers_frame {P : Location → Prop} {os : FileSystem} {disk disk' : Disk Content}
    (h : Touches P disk disk') (hpath : ¬ P (place (knownPeersPath X))) :
    persistedPeers X os disk' = persistedPeers X os disk := by
  unfold persistedPeers Disk.get
  rw [h.frame _ hpath]

/-- **When a `StartSession` does so**: the profile is opened again, by the session after its own; it
    is a file; the bundle can be written down; and the peers that the network layer has in a file of
    its own are in the profile's table, unless the profile is set to Tor or QUIC, where they are not
    dialled. -/
def OpenedAgain (X : Host Keypair Pub Key) (i : Startup Keypair) (b : Backend) (password : String)
    (amnesic : Bool) : Prop :=
  amnesic = false ∧ b.conn = some (.file (dbPathOf X.sha password false)) ∧
    i.bundleJson.isSome = true ∧
    ((networkConfig i.f (openedDb X b password false).tables).dialsPeers = true →
      ∀ addr ∈ persistedPeers X i.os b.disk, X.isMultiaddr addr = true →
        ∃ peer, (peer, addr) ∈ (openedDb X b password false).knownPeers)

theorem target_eq_opened {old : Connection} {password : String} {amnesic : Bool}
    (h : openedTarget X password amnesic = old.target .previous) :
    amnesic = false ∧ old = .file (dbPathOf X.sha password false) := by
  unfold openedTarget at h
  cases amnesic with
  | true => cases old <;> cases h
  | false =>
    cases old with
    | memory db => cases h
    | file path =>
      cases h
      exact ⟨rfl, rfl⟩

/-- The known peers that are dialled from the file of the network layer. -/
def fileDials (X : Host Keypair Pub Key) (i : Startup Keypair) (b : Backend) (password : String) :
    List String :=
  if (networkConfig i.f (openedDb X b password false).tables).dialsPeers then
    (persistedPeers X i.os b.disk).filter X.isMultiaddr
  else []

/-- The key file is another: loading it leaves the database as it was opened. -/
theorem loaded_read {i : Startup Keypair} {password : String} {conn : Connection}
    {disk₁ disk₂ : Disk Content} {keypair : Keypair}
    (hinit : initDb i.f i.os b.disk (dbPathOf X.sha password false) = (.ok conn, disk₁))
    (hload : loadEncrypted X i.os disk₁ (keyPathOf X.sha password false) password i.draw =
      (some (.ok keypair), disk₂)) :
    (Connection.file (dbPathOf X.sha password false)).read disk₂ = openedDb X b password false := by
  have hload' :=
    loadEncrypted_touches (X := X) i.os disk₁ (keyPathOf X.sha password false) password i.draw
  rw [hload] at hload'
  have hdb : Ends ".db" (dbPathOf X.sha password false) := ends_append _ _
  have hne : dbPathOf X.sha password false ≠ MEMORY := profileDb_ne_memory X.sha password
  rw [read_frame hload', initDb_read hne hinit]
  · rfl
  · intro ht
    exact (show Apart ".db" ".bin" by decide).place_ne hdb (ends_append _ _) ht.2.1

/-- What the network layer finds in its file is what was there before. -/
theorem persisted_eq {i : Startup Keypair} {password : String} {conn : Connection}
    {disk₁ disk₂ disk₃ : Disk Content} {keypair : Keypair} {persisted : List String}
    (hinit : initDb i.f i.os b.disk (dbPathOf X.sha password false) = (.ok conn, disk₁))
    (hload : loadEncrypted X i.os disk₁ (keyPathOf X.sha password false) password i.draw =
      (some (.ok keypair), disk₂))
    (hswarm : createSwarm X i.os disk₂ i.built (networkConfig i.f (conn.read disk₂).tables) =
      (some persisted, disk₃)) :
    persisted = fileDials X i b password := by
  have hinit' := initDb_touches i.f i.os b.disk (dbPathOf X.sha password false)
  have hload' := loadEncrypted_touches (X := X) i.os disk₁ (keyPathOf X.sha password false) password
    i.draw
  have hread := loaded_read hinit hload
  have hpeers := knownPeersPath_ends X
  rw [hinit] at hinit'
  rw [hload] at hload'
  have hfile : persistedPeers X i.os disk₂ = persistedPeers X i.os b.disk := by
    rw [persistedPeers_frame hload', persistedPeers_frame hinit']
    · intro ht
      obtain ⟨hne, heq⟩ := ht
      exact (show Apart "known_peers.json" ".db" by decide).place_ne hpeers
        ((dbPathOf_cases X password false).resolve_left hne).ends heq
    · intro ht
      obtain ⟨hne, heq, -⟩ := ht
      exact (show Apart "known_peers.json" ".bin" by decide).place_ne hpeers
        ((keyPathOf_cases X password false).resolve_left hne).ends heq
  rcases initDb_ok hinit with ⟨hmem, -, -⟩ | ⟨-, rfl, -⟩
  · exact absurd hmem (profileDb_ne_memory X.sha password)
  · rw [createSwarm_dials hswarm, hfile, hread]
    rfl

/-- The database that is opened is the one that was there before. -/
theorem opened_read {i : Startup Keypair} {password : String} {conn : Connection}
    {disk₁ disk₂ disk₃ : Disk Content} {keypair : Keypair} {config : NetworkPrivacyConfig}
    {persisted : List String}
    (hinit : initDb i.f i.os b.disk (dbPathOf X.sha password false) = (.ok conn, disk₁))
    (hload : loadEncrypted X i.os disk₁ (keyPathOf X.sha password false) password i.draw =
      (some (.ok keypair), disk₂))
    (hswarm : createSwarm X i.os disk₂ i.built config = (some persisted, disk₃)) :
    (Connection.file (dbPathOf X.sha password false)).read disk₃ = openedDb X b password false := by
  have hswarm' := createSwarm_touches (X := X) i.os disk₂ i.built config
  rw [hswarm] at hswarm'
  rw [read_frame hswarm', loaded_read hinit hload]
  intro ht
  exact (show Apart ".db" "known_peers.json" by decide).place_ne (ends_append _ _)
    (knownPeersPath_ends X)
    ht.2

/-- Opened again, the other profiles' databases are left alone. -/
theorem others_unchanged (i : Startup Keypair) {password : String}
    (hconn : b.conn = some (.file (dbPathOf X.sha password false))) {path : String}
    (hpath : IsDbPath X path) (hne : path ≠ dbPathOf X.sha password false) :
    (startSession X i b password false).1.disk.get path = b.disk.get path := by
  have hopened : IsDbPath X (dbPathOf X.sha password false) := ⟨password, rfl⟩
  refine (startSession_touches i password false).frame (place path) fun ht => ?_
  rcases ht with ⟨-, hdb | ⟨hkey, -⟩⟩ | ⟨-, ⟨-, hpeers⟩ | ⟨path', hfile, heq⟩⟩
  · exact hne (hpath.place_inj hopened hdb)
  · exact (show Apart ".db" ".bin" by decide).place_ne hpath.ends (ends_append _ _) hkey
  · exact (show Apart ".db" "known_peers.json" by decide).place_ne hpath.ends
      (knownPeersPath_ends X)
      hpeers
  · rw [hconn] at hfile
    cases hfile
    exact hne (hpath.place_inj hopened heq)

/-- **What is opened again**: the old connection is to the same file, which has the peers that it
    had. -/
theorem startSession_again {i : Startup Keypair} {password : String}
    (hdone : (startSession X i b password false).1.running = true)
    (hconn : b.conn = some (.file (dbPathOf X.sha password false))) :
    ∃ disk myPeerId,
      ((Connection.file (dbPathOf X.sha password false)).read disk).knownPeers =
        (openedDb X b password false).knownPeers ∧
      let target := Target.file (dbPathOf X.sha password false)
      let previous :=
        previousSession X i (some (.file (dbPathOf X.sha password false))) disk myPeerId
      startSession X i b password false =
        ({ b with
            disk := previous.2
            conn := some (.file (dbPathOf X.sha password false))
            currentDbPath := some (dbPathOf X.sha password false)
            myPeerId },
          { statements := [(.migrations, target), (.loadFullConfig, target),
              (.ensureDefaultRoomGovernance, target), (.loadRoom, target)] ++ previous.1.statements
            dialled := fileDials X i b password ++ previous.1.dialled }) := by
  rcases startSession_cases X i b password false with ⟨disk, log, hdied⟩ |
    ⟨conn, disk₁, keypair, disk₂, persisted, disk₃, hinit, hload, hswarm, hstarted⟩
  · rw [hdied] at hdone
    cases hdone
  · have hpersisted := persisted_eq hinit hload hswarm
    have hread := opened_read hinit hload hswarm
    rcases initDb_ok hinit with ⟨hmem, -, -⟩ | ⟨-, rfl, -⟩
    · exact absurd hmem (profileDb_ne_memory X.sha password)
    · rw [hconn, hpersisted] at hstarted
      refine ⟨_, _, ?_, hstarted⟩
      rw [read_write, hread]

/-- **A `StartSession` that has been processed keeps to its profile in this case only.** -/
theorem onlyOpened_iff (X : Host Keypair Pub Key) (i : Startup Keypair) (b : Backend)
    (password : String) (amnesic : Bool)
    (hdone : (startSession X i b password amnesic).1.running = true) :
    OnlyOpened X i b password amnesic ↔ OpenedAgain X i b password amnesic := by
  rcases startSession_cases X i b password amnesic with ⟨disk, log, hdied⟩ |
    ⟨conn, disk₁, keypair, disk₂, persisted, disk₃, hinit, hload, hswarm, hstarted⟩
  · rw [hdied] at hdone
    cases hdone
  · constructor
    · intro h
      have hbundle := h.bundle
      rw [hstarted] at hbundle
      simp only [List.cons_append, List.nil_append, List.mem_cons, Prod.mk.injEq,
        reduceCtorEq, false_and, false_or] at hbundle
      obtain ⟨hsome, old, hold, htarget⟩ := previousSession_bundle hbundle
      obtain ⟨rfl, rfl⟩ := target_eq_opened htarget
      refine ⟨rfl, hold, hsome, fun hdials addr haddr hmulti => h.dialled addr ?_⟩
      rw [hstarted, persisted_eq hinit hload hswarm]
      refine List.mem_append_left _ ?_
      rw [fileDials, if_pos hdials]
      exact List.mem_filter.mpr ⟨haddr, hmulti⟩
    · intro h
      obtain ⟨rfl, hconn, hsome, hpeers⟩ := h
      obtain ⟨bundleJson, hbundleJson⟩ := Option.isSome_iff_exists.mp hsome
      obtain ⟨disk, myPeerId, hread, hagain⟩ := startSession_again hdone hconn
      obtain ⟨hstatements, hbundle, hdialled, hsaved⟩ := @previousSession_file _ _ _ X i
        (dbPathOf X.sha password false) bundleJson hbundleJson disk myPeerId
      refine { statements := ?_, others := fun _ => others_unchanged i hconn, dialled := ?_,
               bundle := ?_
               saved := ?_ }
      · intro s hs
        rw [hagain] at hs
        rcases List.mem_append.mp hs with hs | hs
        · simp only [List.mem_cons, List.not_mem_nil, or_false] at hs
          rcases hs with rfl | rfl | rfl | rfl <;> rfl
        · exact hstatements s hs
      · intro addr haddr
        rw [hagain] at haddr
        rcases List.mem_append.mp haddr with haddr | haddr
        · unfold fileDials at haddr
          split at haddr
          · next hdials =>
            obtain ⟨hmem, hmulti⟩ := List.mem_filter.mp haddr
            exact hpeers hdials addr hmem hmulti
          · cases haddr
        · rw [← hread]
          exact hdialled addr haddr
      · rw [hagain]
        exact List.mem_append_right _ hbundle
      · intro hf
        rw [hagain]
        exact ⟨bundleJson, _, hbundleJson, rfl, hsaved hf⟩

/-! ## 5. Runs -/

/-- A `StartSession` that has been processed, with the backend it was processed on. -/
structure Processed (Keypair : Type) where
  i : Startup Keypair
  b : Backend
  password : String
  amnesic : Bool

/-- The event, with what it adds to the `StartSession`s that have been processed. -/
def processed (b : Backend) (ev : BackendEvent Keypair Key) (b' : Backend) :
    List (Processed Keypair) :=
  match ev, b.queue, b'.running with
  | .start i, (password, amnesic) :: queue, true =>
    [{ i, b := { b with queue }, password, amnesic }]
  | _, _, _ => []

/-- A step of the backend, with the record of what it has processed. -/
def RecordedStep (X : Host Keypair Pub Key) (s : Backend × List (Processed Keypair))
    (ev : BackendEvent Keypair Key) (s' : Backend × List (Processed Keypair)) : Prop :=
  BackendStep X s.1 ev s'.1 ∧ s'.2 = s.2 ++ processed s.1 ev s'.1

/-- A process that has just been started, and has processed nothing. -/
def RecordedFresh (s : Backend × List (Processed Keypair)) : Prop := Fresh s.1 ∧ s.2 = []

/-- What one step records. -/
theorem processed_iff {ev : BackendEvent Keypair Key} (hs : BackendStep X b ev b')
    {p : Processed Keypair} (hp : p ∈ processed b ev b') :
    OnlyOpened X p.i p.b p.password p.amnesic ↔ OpenedAgain X p.i p.b p.password p.amnesic := by
  unfold processed at hp
  split at hp
  · next i password amnesic queue hqueue hrunning =>
    obtain ⟨password', amnesic', queue', -, hqueue', rfl⟩ := start_inv hs
    cases hqueue.symm.trans hqueue'
    cases List.mem_singleton.mp hp
    exact onlyOpened_iff X i _ password amnesic hrunning
  · cases hp

/-- **In every run, the `StartSession`s that keep to their profile** are those that open again the
    profile of the session before. -/
theorem every_start_iff {s : Backend × List (Processed Keypair)}
    (h : Reach RecordedFresh (RecordedStep X) s) :
    ∀ p ∈ s.2, OnlyOpened X p.i p.b p.password p.amnesic ↔
    OpenedAgain X p.i p.b p.password p.amnesic := by
  refine h.inv (I := fun s => ∀ p ∈ s.2, OnlyOpened X p.i p.b p.password p.amnesic ↔
    OpenedAgain X p.i p.b p.password p.amnesic) ?_ ?_
  · intro s hfresh p hp
    rw [hfresh.2] at hp
    cases hp
  · intro s ev s' hall hs p hp
    obtain ⟨hstep, hrecord⟩ := hs
    rw [hrecord] at hp
    rcases List.mem_append.mp hp with hp | hp
    · exact hall p hp
    · exact processed_iff hstep hp

theorem processed_start {password : String} {amnesic : Bool} {queue : List (String × Bool)}
    (hqueue : b.queue = (password, amnesic) :: queue) (hrunning : b'.running = true)
    (i : Startup Keypair) :
    processed b (.start i : BackendEvent Keypair Key) b' =
      [{ i, b := { b with queue }, password, amnesic }] := by
  unfold processed
  rw [hqueue, hrunning]

/-- In the run of the sample session. -/
theorem every_start_iff_started :
    OnlyOpened sampleHost (smooth 2) { loggedIn false 1 with queue := [] } "pw" false ↔
      OpenedAgain sampleHost (smooth 2) { loggedIn false 1 with queue := [] } "pw" false := by
  have hfresh : Reach RecordedFresh (RecordedStep sampleHost) (.fresh ∅, []) :=
    .start _ ⟨⟨∅, rfl⟩, rfl⟩
  have hlogin := hfresh.step _ _ (loggedIn false 1, [])
    ⟨login_step .willing (draw 1) "pw" false, rfl⟩
  have hqueue : (loggedIn false 1).queue = [("pw", false)] := by decide
  have hrunning : (started false 1 2).running = true := by decide
  let p : Processed Nat := ⟨smooth 2, { loggedIn false 1 with queue := [] }, "pw", false⟩
  have hrecord : processed (loggedIn false 1) (.start (smooth 2) : BackendEvent Nat Key32)
      (started false 1 2) = [p] := processed_start hqueue hrunning _
  have hstart := hlogin.step _ _ (started false 1 2, [p])
    ⟨start_step (by decide) hqueue (smooth 2), hrecord.symm⟩
  exact every_start_iff hstart p (List.mem_singleton_self p)

/-- In the session of `pw`, a login with another password. -/
def otherLogin : Backend :=
  (loginProfile sampleHost .willing (draw 3) (started false 1 2) "other" false).2

/-- The `StartSession` that follows. -/
def switched : Backend × SessionLog :=
  startSession sampleHost (smooth 3) { otherLogin with queue := [] } "other" false

/-- **The first login, and the login to another profile**: the bundle is not saved; and the old
    profile's peers are cleaned up and loaded, and the bundle is saved there. -/
theorem first_login_and_switch :
    (startSession sampleHost (smooth 2) { loggedIn false 1 with queue := [] } "pw"
      false).2.statements.map
        (fun s => s.1) = [.migrations, .loadFullConfig, .ensureDefaultRoomGovernance, .loadRoom] ∧
    ¬ OnlyOpened sampleHost (smooth 2) { loggedIn false 1 with queue := [] } "pw" false ∧
    switched.1.currentDbPath = some "alterchat_0505050505050505.db" ∧
    switched.2.statements.drop 4 =
      [(.peers .cleanupOldPeers, .file "alterchat_0202020202020202.db"),
        (.peers .loadKnownPeers, .file "alterchat_0202020202020202.db"),
        (.peers .savePrekeyBundle, .file "alterchat_0202020202020202.db")] ∧
    ¬ OnlyOpened sampleHost (smooth 3) { otherLogin with queue := [] } "other" false := by
  exact ⟨by decide, fun h => absurd h.bundle (by decide), by decide, by decide,
    fun h => absurd h.bundle (by decide)⟩

end AlterChat.Session
