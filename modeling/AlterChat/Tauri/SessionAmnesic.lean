import AlterChat.Tauri.SessionCommands

/-!
# Amnesic sessions

An amnesic session has its database and its key pair in memory. What it still leaves on the disk:
the network layer writes its known peers below the home directory, and a chunk that is let through
is written below `alterchat_storage/default`.

* §1 `LeavesNothing` -- the events that leave nothing; one of them, `leaves_step`;
* §2 `amnesic_leaves_nothing` -- a run of them;
* §3 `amnesic_files` -- what a session leaves.
-/

namespace AlterChat.Session

open Lib Lib.Paths Lib.Disk Governance Db Commands Identity Profile Chunks

variable {Keypair Pub Key : Type} {X : Host Keypair Pub Key} {b b' : Backend}

/-! ## 1. One event -/

/-- **An event that leaves nothing**: a login is amnesic; so is the next `StartSession`, and if it
    comes as far as a swarm, the known peers are not written, and the session before had no file;
    and no chunk is written. -/
def LeavesNothing (X : Host Keypair Pub Key) (b : Backend) : BackendEvent Keypair Key → Prop
  | .login _ _ _ amnesic => amnesic = true
  | .start i => ∀ password amnesic queue, b.queue = (password, amnesic) :: queue → amnesic = true ∧
    (SwarmBuilt X i b.disk password true → ¬ PeersWritten X i.os ∧
    ∀ path, b.conn ≠ some (.file path))
  | .chunk e => ∀ db, b.conn = some (.memory db) → ¬ e.IsWritten MEMORY db
  | _ => True

/-- The loop has no file open. -/
def NoFile (b : Backend) : Prop := ∀ path, b.conn ≠ some (.file path)

/-- Such an event touches nothing. -/
theorem leaves_untouched (h : Sound X b) {ev : BackendEvent Keypair Key}
    (hleaves : LeavesNothing X b ev) (hno : (∀ i, ev ≠ .start i) → NoFile b) (q : Location) :
    ¬ Touched X b ev q := by
  intro ht
  cases ev with
  | login os draw password amnesic =>
    cases ht.1.symm.trans hleaves
  | start i =>
    obtain ⟨password, amnesic, queue, hqueue, ht⟩ := ht
    obtain ⟨rfl, hbuilt⟩ := hleaves password amnesic queue hqueue
    rcases ht with ⟨hnormal, -⟩ | ⟨hswarm, ⟨hpeers, -⟩ | ⟨path, hconn, -⟩⟩
    · cases hnormal
    · exact (hbuilt hswarm).1 hpeers
    · exact (hbuilt hswarm).2 path hconn
  | dbCommand f os body => exact ht
  | loadPlain os generated => exact ht
  | loopWrite write =>
    obtain ⟨path, hconn, -⟩ := ht
    exact hno (fun _ he => by cases he) path hconn
  | chunk e =>
    have hno := hno fun _ he => by cases he
    rcases ht with ⟨path, hconn, -⟩ | ⟨file, hwritten, -⟩
    · exact hno path hconn
    · obtain ⟨conn, dbPath, hconn, hpath, hok, -⟩ := ChunkEvent.written_path hwritten
      cases conn with
      | file path => exact hno path hconn
      | memory db =>
        rcases h.current dbPath hpath with rfl | hfile
        · exact hleaves db hconn hok
        · exact hno dbPath hfile
  | sideFile side bytes =>
    obtain ⟨path, hconn, -⟩ := ht
    exact hno (fun _ he => by cases he) path hconn
  | wipe scope => exact ht
  | quit => exact ht

/-- After an amnesic `StartSession` there is no file open. -/
theorem startSession_noFile (X : Host Keypair Pub Key) (i : Startup Keypair) (b : Backend)
    (password : String) : NoFile (startSession X i b password true).1 := by
  rcases startSession_cases X i b password true with ⟨disk, log, hdied⟩ |
    ⟨conn, disk₁, keypair, disk₂, persisted, disk₃, hinit, -, -, hstarted⟩
  · rw [hdied]
    intro path hconn
    cases hconn
  · rw [hstarted]
    rcases initDb_ok hinit with ⟨-, rfl, -⟩ | ⟨hne, -, -⟩
    · intro path hconn
      cases hconn
    · exact absurd rfl hne

/-- A write opens no file. -/
theorem write_file {conn : Connection} {disk : Disk Content} {db : ProfileDb} {path : String}
    (h : some (conn.write disk db).1 = some (.file path)) : conn = .file path := by
  cases conn with
  | memory db' => cases h
  | file path' =>
    cases h
    rfl

/-- **Only a `StartSession` opens a file.** -/
theorem conn_step (hkey : b.app.dbKey = none) {ev : BackendEvent Keypair Key}
    (hstart : ∀ i, ev ≠ .start i) (hs : BackendStep X b ev b') {path : String}
    (hconn : b'.conn = some (.file path)) : b.conn = some (.file path) := by
  cases ev with
  | login os draw password amnesic =>
    cases hs
    unfold loginProfile at hconn
    simp only at hconn
    split at hconn
    · exact hconn
    · exact hconn
    · split at hconn <;> exact hconn
  | start i => exact absurd rfl (hstart i)
  | dbCommand f os body =>
    cases hs
    rwa [withDb_refused hkey] at hconn
  | loadPlain os generated =>
    cases hs
    unfold Backend.loadPlain at hconn
    split at hconn <;> exact hconn
  | loopWrite write =>
    obtain ⟨conn, hold, rfl⟩ := Option.map_eq_some_iff.mp hs
    rw [hold, write_file hconn]
  | chunk e =>
    cases hs
    unfold Backend.fileChunk at hconn
    split at hconn
    · exact hconn
    · next conn hold => rw [hold, write_file hconn]
  | sideFile side bytes =>
    simp only [BackendStep, Backend.after] at hs
    split at hs
    · cases hs
      exact hconn
    · cases hs
  | wipe scope =>
    cases hs
    unfold panicWipe at hconn
    split at hconn
    · exact hconn
    · cases hconn
  | quit =>
    cases hs
    cases hconn

/-- Events that leave nothing open no file. -/
theorem leaves_noFile (h : Sound X b) {ev : BackendEvent Keypair Key}
    (hleaves : LeavesNothing X b ev) (hno : (∀ i, ev ≠ .start i) → NoFile b)
    (hs : BackendStep X b ev b') : NoFile b' := by
  by_cases hstart : ∀ i, ev ≠ .start i
  · exact fun path hconn => hno hstart path (conn_step h.dbKey hstart hs hconn)
  · obtain ⟨i, hi⟩ := not_forall.mp hstart
    obtain rfl := not_not.mp hi
    obtain ⟨password, amnesic, queue, -, hqueue, rfl⟩ := start_inv hs
    obtain ⟨rfl, -⟩ := hleaves password amnesic queue hqueue
    exact startSession_noFile X i _ password

/-- **What such an event leaves on the disk was there before.** -/
theorem leaves_step (h : Sound X b) {ev : BackendEvent Keypair Key} (hleaves : LeavesNothing X b ev)
    (hno : (∀ i, ev ≠ .start i) → NoFile b) (hs : BackendStep X b ev b') {q : Location}
    {content : Content} (hq : b'.disk.lookup q = some content) :
    b.disk.lookup q = some content := by
  by_cases hwipe : ∀ scope, ev ≠ .wipe scope
  · rwa [(step_touches h hwipe hs).frame q (leaves_untouched h hleaves hno q)] at hq
  · obtain ⟨scope, hscope⟩ := not_forall.mp hwipe
    obtain rfl := not_not.mp hscope
    cases hs
    unfold panicWipe at hq
    split at hq
    · exact hq
    · simp only [Backend.fresh, lookup_removeAll] at hq
      split at hq
      · cases hq
      · exact hq

/-! ## 2. A run -/

/-- **An amnesic session leaves nothing**, as long as its events do: from the `StartSession` on,
    every file there is is one that was there before, as it was. -/
theorem amnesic_leaves_nothing (h : Reach Fresh (BackendStep X) b) {i : Startup Keypair}
    (hstart : BackendStep X b (.start i) b')
    (hleaves : LeavesNothing X b (.start i : BackendEvent Keypair Key)) {s : Backend}
    (hrun : Reach (fun s => s = b') (Guarded (LeavesNothing X) (BackendStep X)) s) :
    ∀ q content, s.disk.lookup q = some content → b.disk.lookup q = some content := by
  have hsound := sound_run h
  have hfirst : (∀ j, (.start i : BackendEvent Keypair Key) ≠ .start j) → NoFile b :=
    fun hne => absurd rfl (hne i)
  have hall : Sound X s ∧ NoFile s ∧
      ∀ q content, s.disk.lookup q = some content → b.disk.lookup q = some content := by
    refine hrun.inv (I := fun s => Sound X s ∧ NoFile s ∧
      ∀ q content, s.disk.lookup q = some content → b.disk.lookup q = some content) ?_ ?_
    · intro s hs
      subst hs
      exact ⟨sound_step hsound hstart, leaves_noFile hsound hleaves hfirst hstart,
        fun q content hq => leaves_step hsound hleaves hfirst hstart hq⟩
    · intro s ev s' hinv hs
      obtain ⟨hsound, hno, hdisk⟩ := hinv
      obtain ⟨hcond, hstep⟩ := hs
      exact ⟨sound_step hsound hstep, leaves_noFile hsound hcond (fun _ => hno) hstep,
        fun q content hq => hdisk q content (leaves_step hsound hcond (fun _ => hno) hstep hq)⟩
  exact hall.2.2

/-- A chunk from a peer that nobody knows. -/
def chunkEvent (transferId : String) : ChunkEvent Key32 where
  hashOf _ := ""
  f := noFaults
  fc _ := none
  os := .willing
  loop :=
    { node := { myPeerId := "p", offlineSecretBytes := 0, minTrustDm := 0, conn := .empty }
      unknownPeerPolicy := "allow"
      rateLimitPerMinute := 30
      rateBuckets _ := []
      powFailures _ := 0 }
  nowMs := 0
  peer := "mallory"
  chunk := escaping transferId

/-- A `StartSession` at which the roles of the room cannot be counted. -/
def ungoverned : Startup Nat :=
  { smooth 2 with f := fun stmt => if stmt = .countRoles then some "database is locked" else none }

/-- The same, where all can be written but the directory of the known peers. -/
def barred : Startup Nat :=
  { ungoverned with
    os := { FileSystem.willing with createDirAll dir := decide (dir ≠ "/home/u/.alterchat") } }

def barredSession : Backend :=
  (startSession sampleHost barred { loggedIn true 1 with queue := [] } "pw" true).1

/-- The user asks for trust before a file is taken, and has said something. -/
def said (db : ProfileDb) : ProfileDb :=
  { db with
    tables := { db.tables with
      appSettings := (∅ : Table String String).insert "min_trust_file" "5"
      privateMessages :=
        [{ peerId := "c", senderIsMe := true, text := "hi", timestamp := 0, ttl := none }] } }

/-- What is said is written into the memory, and a stranger's chunk is not let through. -/
theorem amnesic_leaves_nothing_said : ∃ s db,
    Reach (fun s => s = barredSession)
    (Guarded (LeavesNothing sampleHost) (BackendStep sampleHost)) s ∧
    s.conn = some (.memory db) ∧ db.tables.privateMessages.length = 1 ∧
    ∀ q content, s.disk.lookup q = some content → (loggedIn true 1).disk.lookup q =
      some content := by
  have hqueue : (loggedIn true 1).queue = [("pw", true)] := by decide
  have hleaves : LeavesNothing sampleHost (loggedIn true 1) (.start barred) := by
    intro password amnesic queue hnext
    cases hqueue.symm.trans hnext
    exact ⟨rfl, fun _ => ⟨fun hpeers => absurd hpeers.1 (by decide), fun path hconn =>
      (by cases hconn)⟩⟩
  have hstart : BackendStep sampleHost (loggedIn true 1) (.start barred) barredSession :=
    start_step (by decide) hqueue barred
  obtain ⟨db, hconn, hmallory⟩ : ∃ db, barredSession.conn = some (.memory db) ∧
      db.tables.peerSettings.lookup "mallory" = none :=
    ⟨_, rfl, Option.isNone_iff_eq_none.mp (by decide +kernel)⟩
  let b₁ : Backend := { barredSession with conn := some (.memory (said db)) }
  have hsaid : BackendStep sampleHost barredSession (.loopWrite said) b₁ := by
    simp only [BackendStep, Backend.after, hconn]
    rfl
  have hchunk : LeavesNothing sampleHost b₁ (.chunk (chunkEvent "x")) := by
    intro db' hdb' hwritten
    cases hdb'
    have htrust : 5 ≤ (Database.settingsOf (said db).tables "mallory").trustLevel :=
      ((Inbound.trustCheck_iff (said db).tables "mallory" "min_trust_file").mp hwritten.1).2
    have hnone : (Database.settingsOf (said db).tables "mallory") = .default := by
      rw [Database.settingsOf, show (said db).tables.peerSettings = db.tables.peerSettings from rfl,
        hmallory, Option.getD_none]
    exact absurd (hnone ▸ htrust) (by decide)
  have hfirst : LeavesNothing sampleHost barredSession (.loopWrite said) := trivial
  have hlast :
    BackendStep sampleHost b₁ (.chunk (chunkEvent "x")) (b₁.fileChunk (chunkEvent "x")) := rfl
  have hreach : Reach (fun s => s = barredSession)
      (Guarded (LeavesNothing sampleHost) (BackendStep sampleHost))
      (b₁.fileChunk (chunkEvent "x")) :=
    .step _ _ _ (.step _ _ _ (.start _ rfl) ⟨hfirst, hsaid⟩) ⟨hchunk, hlast⟩
  refine ⟨_, _, hreach, rfl, ?_, amnesic_leaves_nothing (loggedIn_reach true 1) hstart
    hleaves hreach⟩
  -- the check of the chunk writes no message
  show ((chunkEvent "x").turn b₁ (said db)).loop.node.conn.privateMessages.length = 1
  obtain ⟨table, hframe⟩ :=
    Inbound.trustCheck_frame noFaults (said db).tables "mallory" "min_trust_file"
  have hconn' : ((chunkEvent "x").turn b₁ (said db)).loop.node.conn =
      (Inbound.trustCheck noFaults (said db).tables "mallory" "min_trust_file").2 := by
    unfold ChunkEvent.turn Chunks.fileChunk
    dsimp only
    split <;> rfl
  rw [hconn', hframe]
  rfl

/-! ## 3. What is left -/

def amnesicSession : Backend :=
  (startSession sampleHost ungoverned { loggedIn true 1 with queue := [] } "pw" true).1

/-- **An amnesic session, and a chunk in it**: the known-peers file is there, and the chunk. -/
theorem amnesic_files :
    Reach Fresh (BackendStep sampleHost) (loggedIn true 1) ∧
    BackendStep sampleHost (loggedIn true 1) (.start ungoverned) amnesicSession ∧
    (loggedIn true 1).disk.lookup (place "/home/u/.alterchat/known_peers.json") = none ∧
    (amnesicSession.disk.lookup (place "/home/u/.alterchat/known_peers.json")).isSome = true ∧
    amnesicSession.disk.lookup (place "alterchat_storage/default/x-0.chunk") = none ∧
    ∃ b, BackendStep sampleHost amnesicSession (.chunk (chunkEvent "x")) b ∧
      (b.disk.lookup (place "alterchat_storage/default/x-0.chunk")).isSome = true := by
  refine ⟨loggedIn_reach true 1, start_step (by decide) (by decide) ungoverned, rfl, by decide, ?_,
    amnesicSession.fileChunk (chunkEvent "x"), rfl, by decide⟩
  exact Option.isNone_iff_eq_none.mp (by decide)

end AlterChat.Session
