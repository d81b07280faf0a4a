import AlterChat.Tauri.SessionAmnesic

/-!
# What `panic_wipe` takes

`panic_wipe` with the scope `all_profiles` looks for the files of profiles by their names in the
working directory, and takes the storage root of each database that it finds. What the sessions have
created is something else: it is recorded here beside the backend.

* §1 `Kept` -- the files that the wipe finds, `kept_covered`;
* §2 the other scopes, `kept_wipe`;
* §3 `Wipeable` -- the events that create no other file, `created_kept`;
* §4 `wipe_complete` -- a run of them;
* §5 `known_peers_left` -- a run of one session.
-/

namespace AlterChat.Session

open Lib Lib.Paths Lib.Disk Governance Db Commands Identity Profile Chunks

variable {Keypair Pub Key : Type} {X : Host Keypair Pub Key} {b b' : Backend}

/-! ## 1. What is found -/

theorem startsWith_append (pre s : String) : startsWith (pre ++ s) pre = true := by
  unfold startsWith
  rw [List.isPrefixOf_iff_prefix, String.toList_append]
  exact List.prefix_append _ _

theorem endsWith_iff {suf s : String} : endsWith s suf = true ↔ Ends suf s :=
  List.isSuffixOf_iff_suffix

theorem isDb_profileDb (tag : String) : isDb (profileDb tag) = true := by
  unfold isDb profileDb
  rw [endsWith_iff.mpr (ends_append _ _), String.append_assoc, startsWith_append]
  rfl

/-- A file in the working directory that the wipe takes for a profile's. -/
def IsProfileFile (q : Location) : Prop :=
  ∃ fname, IsName fname ∧ isProfileFile fname = true ∧ q = ⟨.above 0, [fname]⟩

theorem IsDbPath.isName {path : String} (h : IsDbPath X path) : IsName path := by
  obtain ⟨password, rfl⟩ := h
  exact profileDb_isName X.sha password

theorem IsKeyPath.isName {path : String} (h : IsKeyPath X path) : IsName path := by
  obtain ⟨password, rfl⟩ := h
  exact profileKey_isName X.sha password

theorem IsDbPath.isProfileFile {path : String} (h : IsDbPath X path) :
    IsProfileFile (place path) := by
  refine ⟨path, h.isName, ?_, h.isName.place_eq⟩
  obtain ⟨password, rfl⟩ := h
  unfold Session.isProfileFile
  rw [isDb_profileDb]
  rfl

theorem IsKeyPath.isProfileFile {path : String} (h : IsKeyPath X path) :
    IsProfileFile (place path) := by
  refine ⟨path, h.isName, ?_, h.isName.place_eq⟩
  have hends : endsWith path ".bin" = true := endsWith_iff.mpr h.ends
  have hstarts : startsWith path "keypair_" = true := by
    obtain ⟨password, rfl⟩ := h
    unfold profileKey
    rw [String.append_assoc]
    exact startsWith_append _ _
  unfold Session.isProfileFile
  rw [hstarts, hends]
  simp

/-- The side files that the wipe knows. -/
theorem IsDbPath.sideFile {path : String} (h : IsDbPath X path) {side : SideFile}
    (hside : side ≠ .journal) : IsProfileFile (place (path ++ side.suffix)) := by
  have hname : IsName (path ++ side.suffix) := h.isName.append (by cases side <;> decide)
  refine ⟨_, hname, ?_, hname.place_eq⟩
  obtain ⟨password, rfl⟩ := h
  have hstarts :
      startsWith (profileDb (tag X.sha password) ++ side.suffix) "alterchat_" = true := by
    unfold profileDb
    rw [String.append_assoc, String.append_assoc]
    exact startsWith_append _ _
  have hends : Ends (".db" ++ side.suffix) (profileDb (tag X.sha password) ++ side.suffix) := by
    unfold profileDb
    rw [String.append_assoc]
    exact ends_append _ _
  unfold Session.isProfileFile
  rw [hstarts]
  cases side with
  | shm =>
    have hshm : endsWith (profileDb (tag X.sha password) ++ SideFile.shm.suffix) ".db-shm" = true :=
      endsWith_iff.mpr hends
    rw [hshm]
    simp
  | wal =>
    have hwal : endsWith (profileDb (tag X.sha password) ++ SideFile.wal.suffix) ".db-wal" = true :=
      endsWith_iff.mpr hends
    rw [hwal]
    simp
  | journal => exact absurd rfl hside

/-- A place in the storage root of a profile whose database is there. -/
def Stored (X : Host Keypair Pub Key) (disk : Disk Content) (q : Location) : Prop :=
  ∃ password, place (profileDb (tag X.sha password)) ∈ disk ∧
    Inside (place (storageRootForDb (profileDb (tag X.sha password)))) q

/-- **The files that the wipe finds**: those of profiles, and what is stored with them. -/
def Kept (X : Host Keypair Pub Key) (disk : Disk Content) (q : Location) : Prop :=
  IsProfileFile q ∨ Stored X disk q

theorem Kept.mono {disk disk' : Disk Content} {q : Location} (h : Kept X disk q)
    (hkept : ∀ q ∈ disk, q ∈ disk') : Kept X disk' q :=
  h.imp_right fun hstored => by
    obtain ⟨password, hdb, hin⟩ := hstored
    exact ⟨password, hkept _ hdb, hin⟩

/-- **They are in the list of paths.** -/
theorem kept_covered {disk : Disk Content} {q : Location} (hq : q ∈ disk) (h : Kept X disk q) :
    ∃ p ∈ (allProfilePaths disk).map place, Inside p q := by
  rcases h with ⟨fname, hname, hfile, rfl⟩ | ⟨password, hdb, hin⟩
  · have hentry : fname ∈ disk.entries here := mem_entries.mpr ⟨_, hq, .refl _⟩
    refine ⟨place ("./" ++ fname), List.mem_map_of_mem (List.mem_flatMap.mpr ⟨fname, hentry, ?_⟩),
      ?_⟩
    · rw [if_pos hfile]
      split <;> exact List.mem_cons_self ..
    · rw [hname.place_here]
      exact .refl _
  · have hname := profileDb_isName X.sha password
    rw [hname.place_eq] at hdb
    have hentry : profileDb (tag X.sha password) ∈ disk.entries here :=
      mem_entries.mpr ⟨_, hdb, .refl _⟩
    refine ⟨_, List.mem_map_of_mem (List.mem_flatMap.mpr ⟨_, hentry, ?_⟩), hin⟩
    have hisDb := isDb_profileDb (tag X.sha password)
    have hfile : isProfileFile (profileDb (tag X.sha password)) = true := by
      unfold isProfileFile
      rw [hisDb]
      rfl
    rw [if_pos hfile, if_pos hisDb]
    exact List.mem_cons_of_mem _ (List.mem_cons_self ..)

/-! ## 2. One profile -/

/-- One name lies inside another only if it is the same. -/
theorem inside_name {m n : String} (hm : IsName m) (hn : IsName n)
    (h : Inside (place m) (place n)) : m = n := by
  rw [hm.place_eq, hn.place_eq] at h
  exact (List.cons_prefix_cons.mp h.2).1

theorem memory_isName : IsName MEMORY := ⟨by decide, by decide, by decide, by decide⟩

/-- **The scopes of one profile take no other profile's database.** -/
theorem active_inside {dbPath keyPath : Option String}
    (hdb : ∀ path, dbPath = some path → path = MEMORY ∨ IsDbPath X path)
    (hkey : ∀ path, keyPath = some path → path = MEMORY ∨ IsKeyPath X path)
    {path db : String} (hpath : path ∈ activeProfilePaths dbPath keyPath) (hprofile : IsDbPath X db)
    (hin : Inside (place path) (place db)) : dbPath = some db := by
  -- a path with another ending is another path
  have hother {p : String} {suf : String} (hname : IsName p) (hends : Ends suf p)
    (hapart : Apart suf ".db")
      (hin : Inside (place p) (place db)) : False :=
    hapart.place_ne hends hprofile.ends (congrArg place (inside_name hname hprofile.isName hin))
  have hmemory (hin : Inside (place MEMORY) (place db)) : False :=
    hother memory_isName (show Ends "ry:" MEMORY by unfold Ends; decide) (by decide) hin
  unfold activeProfilePaths at hpath
  rcases List.mem_append.mp hpath with hpath | hpath
  · rcases List.mem_append.mp hpath with hpath | hpath
    · cases dbPath with
      | none => cases hpath
      | some p =>
        have hname : IsName p := (hdb p rfl).elim (fun h => h ▸ memory_isName) fun h => h.isName
        simp only [List.mem_cons, List.not_mem_nil, or_false] at hpath
        rcases hpath with rfl | rfl | rfl
        · rw [inside_name hname hprofile.isName hin]
        · exact (hother (hname.append (by decide)) (ends_append _ _)
            (show Apart "-shm" ".db" by decide) hin).elim
        · exact (hother (hname.append (by decide)) (ends_append _ _)
            (show Apart "-wal" ".db" by decide) hin).elim
    · rcases hkey path (Option.mem_toList.mp hpath) with rfl | hk
      · exact (hmemory hin).elim
      · exact (hother hk.isName hk.ends (show Apart ".bin" ".db" by decide) hin).elim
  · -- the storage root lies deeper
    obtain ⟨p, hp, rfl⟩ := Option.map_eq_some_iff.mp (Option.mem_toList.mp hpath)
    have hroot : ∃ password amnesic, p = dbPathOf X.sha password amnesic := by
      rcases hdb p hp with rfl | ⟨password, rfl⟩
      · exact ⟨"", true, rfl⟩
      · exact ⟨password, false, rfl⟩
    obtain ⟨password, amnesic, rfl⟩ := hroot
    rw [storageRoot_place, hprofile.isName.place_eq] at hin
    exact absurd hin.2.length_le (by simp)

theorem wipePaths_app (h : Sound X b) {scope : Scope} (hscope : scope ≠ .allProfiles) :
    ∃ keyPath, b.wipePaths scope = activeProfilePaths b.app.dbPath keyPath ∧
      ∀ path, keyPath = some path → path = MEMORY ∨ IsKeyPath X path := by
  cases scope with
  | activeProfile =>
    exact ⟨b.app.keyPath, rfl, fun path hpath => (h.keyPath path hpath).imp_right fun hk => hk.1⟩
  | messageDbOnly => exact ⟨none, rfl, fun _ hpath => (by cases hpath)⟩
  | allProfiles => exact absurd rfl hscope

/-- **What is left by such a wipe is found by a later one.** -/
theorem kept_wipe (h : Sound X b) {scope : Scope} (hscope : scope ≠ .allProfiles) {q : Location}
    (hq : q ∈ b.disk.removeAll ((b.wipePaths scope).map place)) (hkept : Kept X b.disk q) :
    Kept X (b.disk.removeAll ((b.wipePaths scope).map place)) q := by
  refine hkept.imp_right fun hstored => ?_
  obtain ⟨password, hdb, hin⟩ := hstored
  refine ⟨password, mem_removeAll.mpr ⟨hdb, fun p hp hinside => ?_⟩, hin⟩
  obtain ⟨keyPath, hpaths, hkey⟩ := wipePaths_app h hscope
  rw [hpaths] at hp hq
  obtain ⟨path, hpath, rfl⟩ := List.mem_map.mp hp
  have hactive := active_inside h.dbPath hkey hpath ⟨password, rfl⟩ hinside
  -- then the storage root has been taken, too
  refine (mem_removeAll.mp hq).2 _ (List.mem_map_of_mem ?_) hin
  unfold activeProfilePaths
  rw [hactive]
  exact List.mem_append_right _ (List.mem_singleton.mpr rfl)

/-! ## 3. What is created -/

/-- **An event that creates only files that are found**: a `StartSession` that comes as far as a
    swarm does not write the known peers, or they are there; a chunk that is written stays in the
    storage root of a profile whose database is there, or replaces a file; and the database library
    leaves no journal. -/
def Wipeable (X : Host Keypair Pub Key) (b : Backend) : BackendEvent Keypair Key → Prop
  | .start i => ∀ password amnesic queue, b.queue = (password, amnesic) :: queue →
    SwarmBuilt X i b.disk password amnesic → PeersWritten X i.os → place (knownPeersPath X) ∈ b.disk
  | .chunk e => ∀ conn dbPath, b.conn = some conn → b.currentDbPath = some dbPath →
    e.IsWritten dbPath (conn.read b.disk) →
      let q := place (join (storageRootForDb dbPath) (chunkFile e.chunk.transferId e.chunk.index))
      q ∈ b.disk ∨ Stored X b.disk q
  | .sideFile side _ => side ≠ .journal
  | _ => True

/-- **What such an event creates is found.** -/
theorem created_kept (h : Sound X b) {ev : BackendEvent Keypair Key} (hcond : Wipeable X b ev)
    {q : Location} (ht : Touched X b ev q) (hnew : q ∉ b.disk) {disk : Disk Content}
    (hkept : ∀ q ∈ b.disk, q ∈ disk) : Kept X disk q := by
  have hconn : ¬ ConnPlace b q := by
    intro hc
    obtain ⟨path, hpath, rfl⟩ := hc
    exact hnew (h.conn path hpath).2
  cases ev with
  | login os draw password amnesic =>
    have hkey : IsKeyPath X (keyPathOf X.sha password false) := ⟨password, rfl⟩
    rw [ht.2.1]
    exact .inl hkey.isProfileFile
  | start i =>
    obtain ⟨password, amnesic, queue, hqueue, ht⟩ := ht
    have hdb : IsDbPath X (dbPathOf X.sha password false) := ⟨password, rfl⟩
    have hkey : IsKeyPath X (keyPathOf X.sha password false) := ⟨password, rfl⟩
    rcases ht with ⟨-, hq | ⟨hq, -⟩⟩ | ⟨hswarm, ⟨hpeers, rfl⟩ | hc⟩
    · rw [hq]
      exact .inl hdb.isProfileFile
    · rw [hq]
      exact .inl hkey.isProfileFile
    · exact absurd (hcond password amnesic queue hqueue hswarm hpeers) hnew
    · exact absurd hc hconn
  | dbCommand f os body => cases ht
  | loadPlain os generated => cases ht
  | loopWrite write => exact absurd ht hconn
  | chunk e =>
    rcases ht with hc | ⟨file, hwritten, rfl⟩
    · exact absurd hc hconn
    · obtain ⟨conn, dbPath, hc, hpath, hok, hfile⟩ := ChunkEvent.written_path hwritten
      rw [hfile] at hnew ⊢
      have hstored : Kept X b.disk _ := .inr ((hcond conn dbPath hc hpath hok).resolve_left hnew)
      exact hstored.mono hkept
  | sideFile side bytes =>
    obtain ⟨path, hpath, rfl⟩ := ht
    exact .inl ((h.conn path hpath).1.sideFile hcond)
  | wipe scope => cases ht
  | quit => cases ht

/-! ## 4. A run -/

/-- The places of the files that a step has created. -/
def newPlaces (b b' : Backend) : List Location := b'.disk.keys.filter fun q => decide (q ∉ b.disk)

theorem mem_newPlaces {q : Location} : q ∈ newPlaces b b' ↔ q ∈ b'.disk ∧ q ∉ b.disk := by
  unfold newPlaces
  rw [List.mem_filter, decide_eq_true_iff]
  rfl

/-- A step of the backend, with the record of what has been created. -/
def CreatingStep (X : Host Keypair Pub Key) (s : Backend × List Location)
    (ev : BackendEvent Keypair Key) (s' : Backend × List Location) : Prop :=
  BackendStep X s.1 ev s'.1 ∧ s'.2 = s.2 ++ newPlaces s.1 s'.1

/-- A process that has just been started, and has created nothing. -/
def CreatedNothing (s : Backend × List Location) : Prop := Fresh s.1 ∧ s.2 = []

/-- What has been created, and is still there, is found. -/
def AllKept (X : Host Keypair Pub Key) (s : Backend × List Location) : Prop :=
  ∀ q ∈ s.2, q ∈ s.1.disk → Kept X s.1.disk q

theorem allKept_step {s s' : Backend × List Location} {ev : BackendEvent Keypair Key}
    (h : Sound X s.1) (hall : AllKept X s) (hcond : Wipeable X s.1 ev)
    (hs : CreatingStep X s ev s') : AllKept X s' := by
  obtain ⟨hstep, hrecord⟩ := hs
  intro q hq hthere
  rw [hrecord] at hq
  by_cases hwipe : ∀ scope, ev ≠ .wipe scope
  · have htouches := step_touches h hwipe hstep
    by_cases hold : q ∈ s.1.disk
    · rcases List.mem_append.mp hq with hq | hq
      · exact (hall q hq hold).mono htouches.kept
      · exact absurd hold (mem_newPlaces.mp hq).2
    · exact created_kept h hcond ((htouches.new hthere).resolve_left hold) hold htouches.kept
  · obtain ⟨name, hname⟩ := not_forall.mp hwipe
    obtain rfl := not_not.mp hname
    have hb : (panicWipe s.1 name).2 = s'.1 := Option.some.inj hstep
    have hsub : q ∈ s'.1.disk → q ∈ s.1.disk := by
      rw [← hb]
      unfold panicWipe
      split
      · exact id
      · exact fun hin => (mem_removeAll.mp hin).1
    have hold := hsub hthere
    have hcreated : q ∈ s.2 := (List.mem_append.mp hq).resolve_right fun hnew =>
      (mem_newPlaces.mp hnew).2 hold
    have hkept := hall q hcreated hold
    rw [← hb] at hthere ⊢
    unfold panicWipe at hthere ⊢
    split at hthere
    · exact hkept
    · next scope _ =>
      by_cases hprofiles : scope = .allProfiles
      · subst hprofiles
        obtain ⟨p, hp, hin⟩ := kept_covered hold hkept
        exact absurd hin ((mem_removeAll.mp hthere).2 p hp)
      · exact kept_wipe h hprofiles hthere hkept

/-- **The wipe is complete**, for a run of events that create only files that are found. -/
theorem wipe_complete {s : Backend × List Location}
    (h : Reach CreatedNothing (Guarded (fun s ev => Wipeable X s.1 ev) (CreatingStep X)) s) :
    ∀ q ∈ s.2, q ∉ (panicWipe s.1 "all_profiles").2.disk := by
  have hinv : Sound X s.1 ∧ AllKept X s := by
    refine h.inv (I := fun s => Sound X s.1 ∧ AllKept X s) ?_ ?_
    · intro s hnothing
      obtain ⟨⟨disk, hfresh⟩, hempty⟩ := hnothing
      refine ⟨hfresh ▸ sound_fresh disk, fun q hq => ?_⟩
      rw [hempty] at hq
      cases hq
    · intro s ev s' hbefore hs
      exact ⟨sound_step hbefore.1 hs.2.1, allKept_step hbefore.1 hbefore.2 hs.1 hs.2⟩
  have hall : parseScope "all_profiles" = some .allProfiles := rfl
  intro q hq hthere
  unfold panicWipe at hthere
  rw [hall] at hthere
  obtain ⟨hold, hleft⟩ := mem_removeAll.mp hthere
  obtain ⟨p, hp, hin⟩ := kept_covered hold (hinv.2 q hq hold)
  exact hleft p hp hin

/-- A `StartSession` where the home directory takes no new directory. -/
def homeless : Startup Nat :=
  { smooth 2 with os := { FileSystem.willing with createDirAll := fun _ => false } }

/-- The session that it starts. -/
def homelessSession : Backend :=
  (startSession sampleHost homeless { loggedIn false 1 with queue := [] } "pw" false).1

/-- The key file and the database of one session. -/
theorem wipe_complete_homeless :
    Wipeable sampleHost (loggedIn false 1) (.start homeless) ∧
    ∀ q ∈ newPlaces (.fresh ∅) (loggedIn false 1) ++ newPlaces (loggedIn false 1) homelessSession,
      q ∉ (panicWipe homelessSession "all_profiles").2.disk := by
  have hnothing : Reach CreatedNothing (Guarded (fun s ev => Wipeable sampleHost s.1 ev)
      (CreatingStep sampleHost)) (.fresh ∅, []) := .start _ ⟨⟨∅, rfl⟩, rfl⟩
  have hcond : Wipeable sampleHost (.fresh ∅) (.login .willing (draw 1) "pw" false) := trivial
  have hlogin := hnothing.step _ _ (loggedIn false 1, newPlaces (.fresh ∅) (loggedIn false 1))
    ⟨hcond, login_step .willing (draw 1) "pw" false, rfl⟩
  have hqueue : (loggedIn false 1).queue = [("pw", false)] := by decide
  have hhomeless : Wipeable sampleHost (loggedIn false 1) (.start homeless) := by
    intro password amnesic queue _ _ hpeers
    cases hpeers.1
  have hstart := hlogin.step _ (.start homeless)
    (homelessSession, newPlaces (.fresh ∅) (loggedIn false 1) ++
    newPlaces (loggedIn false 1) homelessSession)
    ⟨hhomeless, start_step (by decide) hqueue homeless, rfl⟩
  exact ⟨hhomeless, wipe_complete hstart⟩

/-! ## 5. What is left -/

/-- **One session, and the wipe**: the known-peers file, which the session has created, remains. -/
theorem known_peers_left :
    Reach CreatedNothing (CreatingStep sampleHost)
      (started false 1 2, newPlaces (.fresh ∅) (loggedIn false 1) ++
        newPlaces (loggedIn false 1) (started false 1 2)) ∧
    place "/home/u/.alterchat/known_peers.json" ∈ newPlaces (loggedIn false 1) (started false 1 2) ∧
    place "/home/u/.alterchat/known_peers.json" ∈
      (panicWipe (started false 1 2) "all_profiles").2.disk := by
  have hnothing : Reach CreatedNothing (CreatingStep sampleHost) (.fresh ∅, []) :=
    .start _ ⟨⟨∅, rfl⟩, rfl⟩
  have hlogin := hnothing.step _ _ (loggedIn false 1, newPlaces (.fresh ∅) (loggedIn false 1))
    ⟨login_step .willing (draw 1) "pw" false, rfl⟩
  have hqueue : (loggedIn false 1).queue = [("pw", false)] := by decide
  have hstart := hlogin.step _ _ (started false 1 2,
    newPlaces (.fresh ∅) (loggedIn false 1) ++ newPlaces (loggedIn false 1) (started false 1 2))
    ⟨start_step (by decide) hqueue (smooth 2), rfl⟩
  have hthere : place "/home/u/.alterchat/known_peers.json" ∈ (started false 1 2).disk :=
    AList.lookup_isSome.mp (by decide)
  have hnew : place "/home/u/.alterchat/known_peers.json" ∉ (loggedIn false 1).disk := by
    rw [← AList.lookup_eq_none]
    rfl
  refine ⟨hstart, mem_newPlaces.mpr ⟨hthere, hnew⟩, ?_⟩
  exact AList.lookup_isSome.mp (by decide +kernel)

end AlterChat.Session
