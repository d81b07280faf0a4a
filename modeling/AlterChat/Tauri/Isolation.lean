import AlterChat.Tauri.Authority
import AlterChat.Tauri.Invites

/-!
# One room's governance and another's

`room_roles` and `permission_grants` hold the rows of every room; the first part of their key is the
room. The check reads the rows of one room and takes the rest from their JSON.

* §1 two databases that agree on a room's rows; `roomActionAllowed_congr`: they give the same
  answers;
* §2 the command `save_role`, and what each write keeps of the other rooms;
* §3 `rooms_isolated` -- no sequence of writes for other rooms changes an answer for this one.
-/

namespace AlterChat.Isolation

open Lib Governance Db Commands

variable {Keypair Pub : Type}

/-! ## 1. The rows of a room -/

/-- The same rows of a room, in whatever order. -/
structure AgreeOn (roomId : String) (db db' : Database) : Prop where
  roles : ∀ k : String × String, k.1 = roomId → db'.roomRoles.lookup k = db.roomRoles.lookup k
  grants : ∀ k : String × String × String, k.1 = roomId →
    db'.permissionGrants.lookup k = db.permissionGrants.lookup k

theorem AgreeOn.refl (roomId : String) (db : Database) : AgreeOn roomId db db :=
  ⟨fun _ _ => rfl, fun _ _ => rfl⟩

theorem AgreeOn.trans {roomId : String} {db₁ db₂ db₃ : Database} (h : AgreeOn roomId db₁ db₂)
    (h' : AgreeOn roomId db₂ db₃) : AgreeOn roomId db₁ db₃ :=
  ⟨fun k hk => (h'.roles k hk).trans (h.roles k hk),
    fun k hk => (h'.grants k hk).trans (h.grants k hk)⟩

theorem mem_select_congr {κ ν : Type} [DecidableEq κ] {t t' : Table κ ν} {cond : κ → Bool}
    (h : ∀ k, cond k = true → t'.lookup k = t.lookup k) (v : ν) :
    v ∈ t'.select cond ↔ v ∈ t.select cond := by
  rw [Table.mem_select, Table.mem_select]
  refine exists_congr fun k => ?_
  constructor
  · intro hk
    exact ⟨(h k hk.2).symm.trans hk.1, hk.2⟩
  · intro hk
    exact ⟨(h k hk.2).trans hk.1, hk.2⟩

section

variable {W : Wire} {f : Faults} {roomId : String} {db db' : Database}

theorem AgreeOn.mem_roleRows (h : AgreeOn roomId db db') (json : String) :
    json ∈ db'.roomRoles.select (fun k => decide (k.1 = roomId)) ↔
      json ∈ db.roomRoles.select fun k => decide (k.1 = roomId) :=
  mem_select_congr (fun k hk => h.roles k (of_decide_eq_true hk)) json

theorem AgreeOn.mem_grantRows (h : AgreeOn roomId db db') (json : String) :
    json ∈ db'.permissionGrants.select (fun k => decide (k.1 = roomId)) ↔
      json ∈ db.permissionGrants.select fun k => decide (k.1 = roomId) :=
  mem_select_congr (fun k hk => h.grants k (of_decide_eq_true hk)) json

theorem AgreeOn.countRoles_eq_zero (h : AgreeOn roomId db db') :
    (countRoles f db' roomId).toOption.getD 0 = 0 ↔
    (countRoles f db roomId).toOption.getD 0 = 0 := by
  have hnil : db'.roomRoles.select (fun k => decide (k.1 = roomId)) = [] ↔
      db.roomRoles.select (fun k => decide (k.1 = roomId)) = [] := by
    simp only [List.eq_nil_iff_forall_not_mem, h.mem_roleRows]
  unfold countRoles query
  cases f .countRoles with
  | some e => exact Iff.rfl
  | none => simpa only [Except.toOption, Option.getD_some, List.length_eq_zero_iff] using hnil

theorem AgreeOn.mem_roles (h : AgreeOn roomId db db') (role : Role) :
    role ∈ (loadRolesAndGrants W f db' roomId).1 ↔ role ∈ (loadRolesAndGrants W f db roomId).1 := by
  unfold loadRolesAndGrants listRoles query
  cases f .listRoles with
  | some e => exact Iff.rfl
  | none => simp only [Except.toOption, Option.getD_some, List.mem_filterMap, h.mem_roleRows]

theorem AgreeOn.mem_grants (h : AgreeOn roomId db db') (grant : PermissionGrant) :
    grant ∈ (loadRolesAndGrants W f db' roomId).2 ↔
      grant ∈ (loadRolesAndGrants W f db roomId).2 := by
  unfold loadRolesAndGrants listPermissionGrants query
  cases f .listPermissionGrants with
  | some e => exact Iff.rfl
  | none => simp only [Except.toOption, Option.getD_some, List.mem_filterMap, h.mem_grantRows]

/-- **The answers of a room come from its own rows.** -/
theorem roomActionAllowed_congr (S : Signatures Keypair Pub) (h : AgreeOn roomId db db')
    (peerId : String) (permission : Permission) (nowMs : Int64) :
    roomActionAllowed S W f db' roomId peerId permission nowMs =
      roomActionAllowed S W f db roomId peerId permission nowMs := by
  unfold roomActionAllowed
  by_cases h0 : (countRoles f db roomId).toOption.getD 0 = 0
  · simp only [if_pos h0, if_pos (h.countRoles_eq_zero.mpr h0)]
  · simp only [if_neg h0, if_neg (mt h.countRoles_eq_zero.mp h0)]
    refine Bool.eq_iff_iff.mpr ?_
    rw [hasPermission_iff, hasPermission_iff]
    simp only [h.mem_roles, h.mem_grants]

end

/-! ## 2. Writes -/

/-- The command `save_role`. -/
def saveRole (W : Wire) (f : Faults) (d : Device) (role : Role) : Except String Unit × Device :=
  match d.initDb f with
  | .error e => (.error e, d)
  | .ok db =>
    let (result, db) := Db.saveRole f db role.roomId role.roleId (W.roleJson.enc role)
    (result, d.close db)

section

variable {roomId room : String}

theorem saveRole_agree (hne : room ≠ roomId) (f : Faults) (db : Database)
    (roleId roleJson : String) :
    AgreeOn roomId db (Db.saveRole f db room roleId roleJson).2 := by
  unfold Db.saveRole execute
  cases f (.saveRole roleId) with
  | some e => exact .refl roomId db
  | none =>
    refine ⟨fun k hk => ?_, fun _ _ => rfl⟩
    rw [Table.lookup_upsert, if_neg]
    rintro rfl
    exact hne hk

theorem savePermissionGrant_agree (hne : room ≠ roomId) (f : Faults) (db : Database)
    (subjectPeerId roleId grantJson : String) :
    AgreeOn roomId db (Db.savePermissionGrant f db room subjectPeerId roleId grantJson).2 := by
  unfold Db.savePermissionGrant execute
  cases f .savePermissionGrant with
  | some e => exact .refl roomId db
  | none =>
    refine ⟨fun _ _ => rfl, fun k hk => ?_⟩
    rw [Table.lookup_upsert, if_neg]
    rintro rfl
    exact hne hk

theorem saveRoles_agree (hne : room ≠ roomId) (W : Wire) (f : Faults) (roles : List Role)
    (db : Database) :
    AgreeOn roomId db (saveRoles W f room roles db).2 := by
  induction roles generalizing db with
  | nil => exact .refl roomId db
  | cons role rest ih =>
    have hrow := saveRole_agree hne f db role.roleId (W.roleJson.enc role)
    unfold saveRoles
    cases hs : Db.saveRole f db room role.roleId (W.roleJson.enc role) with
    | mk result db' =>
      rw [hs] at hrow
      cases result with
      | error e => exact hrow
      | ok u => exact hrow.trans (ih db')

theorem seedDefaultRoles_agree (hne : room ≠ roomId) (W : Wire) (f : Faults) (db : Database)
    (ownerGrantJson : Option String) :
    AgreeOn roomId db (seedDefaultRoles W f db room ownerGrantJson).2 := by
  have hroles := saveRoles_agree hne W f (defaultRoles room) db
  unfold seedDefaultRoles
  cases hs : saveRoles W f room (defaultRoles room) db with
  | mk result db' =>
    rw [hs] at hroles
    cases result with
    | error e => exact hroles
    | ok u =>
      cases ownerGrantJson with
      | none => exact hroles
      | some grantJson =>
        simp only
        cases W.grantJson.dec grantJson with
        | none => exact hroles
        | some grant => exact hroles.trans (savePermissionGrant_agree hne f db' _ _ _)

theorem ensureDefaultRoomGovernance_agree (hne : room ≠ roomId)
    (S : Signatures Keypair Pub) (W : Wire) (f : Faults) (db : Database) (keypair : Keypair)
    (peerId : String) (nowMs : Int64) :
    AgreeOn roomId db (ensureDefaultRoomGovernance S W f db room keypair peerId nowMs).2 := by
  unfold ensureDefaultRoomGovernance
  cases countRoles f db room with
  | error e => exact .refl roomId db
  | ok count =>
    simp only
    split_ifs
    · exact .refl roomId db
    · cases Governance.createPermissionGrant S W keypair room peerId "owner" none nowMs with
      | error e => exact .refl roomId db
      | ok grant => exact seedDefaultRoles_agree hne W f db _

end

/-! ## 3. Sequences of writes -/

/-- What writes to `room_roles` and `permission_grants`: three commands, and two functions of the
event loop on its connection. -/
inductive GovEvent (Keypair : Type) where
  | saveRole (f : Faults) (role : Role)
  | savePermissionGrant (f : Faults) (grant : PermissionGrant)
  | createPermissionGrant (f : Faults) (loaded : Except String Keypair) (nowMs : Int64)
      (roomId subjectPeerId roleId : String) (expiresAt : Option Int64)
  | seedDefaultRoles (f : Faults) (roomId : String) (ownerGrantJson : Option String)
  | ensureDefaultRoomGovernance (f : Faults) (roomId : String) (keypair : Keypair) (peerId : String)
      (nowMs : Int64)

/-- The room the role or the grant is for. -/
def GovEvent.room : GovEvent Keypair → String
  | .saveRole _ role => role.roomId
  | .savePermissionGrant _ grant => grant.roomId
  | .createPermissionGrant _ _ _ roomId _ _ _ => roomId
  | .seedDefaultRoles _ roomId _ => roomId
  | .ensureDefaultRoomGovernance _ roomId _ _ _ => roomId

/-- A function of the event loop on its connection. -/
def onConn (d : Device) (run : Database → Database) : Device :=
  match d.connDb with
  | none => d
  | some db => d.setConnDb (run db)

/-- The device a write leaves. -/
def GovEvent.run (S : Signatures Keypair Pub) (W : Wire) (d : Device) : GovEvent Keypair → Device
  | .saveRole f role => (Isolation.saveRole W f d role).2
  | .savePermissionGrant f grant => (Commands.savePermissionGrant S W f d grant).2
  | .createPermissionGrant f loaded nowMs roomId subjectPeerId roleId expiresAt =>
    (Commands.createPermissionGrant S W f d loaded nowMs roomId subjectPeerId roleId expiresAt).2
  | .seedDefaultRoles f roomId ownerGrantJson =>
    onConn d fun db => (Db.seedDefaultRoles W f db roomId ownerGrantJson).2
  | .ensureDefaultRoomGovernance f roomId keypair peerId nowMs =>
    onConn d fun db =>
      (Commands.ensureDefaultRoomGovernance S W f db roomId keypair peerId nowMs).2

/-- The profile's file and the session's connection both keep the rows of a room. -/
structure DeviceAgree (roomId : String) (d d' : Device) : Prop where
  file : AgreeOn roomId d.file d'.file
  conn : d'.connDb = d.connDb ∨
    ∃ db db', d.connDb = some db ∧ d'.connDb = some db' ∧ AgreeOn roomId db db'

section

variable {roomId : String} {d d' : Device} {db db' : Database}

theorem DeviceAgree.refl (roomId : String) (d : Device) : DeviceAgree roomId d d :=
  ⟨.refl roomId d.file, .inl rfl⟩

theorem DeviceAgree.trans {d₁ d₂ d₃ : Device} (h : DeviceAgree roomId d₁ d₂)
    (h' : DeviceAgree roomId d₂ d₃) : DeviceAgree roomId d₁ d₃ := by
  refine ⟨h.file.trans h'.file, ?_⟩
  rcases h'.conn with heq' | ⟨db₂, db₃, h₂, h₃, hagree'⟩
  · rw [heq']
    exact h.conn
  · rcases h.conn with heq | ⟨db₁, db₂', h₁, h₂', hagree⟩
    · exact .inr ⟨db₂, db₃, heq.symm.trans h₂, h₃, hagree'⟩
    · obtain rfl := Option.some.inj (h₂.symm.trans h₂')
      exact .inr ⟨db₁, db₃, h₁, h₃, hagree.trans hagree'⟩

/-- A command that keeps the rows of a room in the database it has opened. -/
theorem close_agree {f : Faults} (hdb : d.initDb f = .ok db) (h : AgreeOn roomId db db') :
    DeviceAgree roomId d (d.close db') := by
  by_cases hdisk : d.OnDisk
  · rw [close_onDisk hdisk]
    obtain rfl := initDb_onDisk hdb hdisk
    refine ⟨h, ?_⟩
    unfold Device.connDb
    cases d.conn with
    | closed => exact .inl rfl
    | file => exact .inr ⟨d.file, db', rfl, rfl, h⟩
    | memory db => exact .inl rfl
  · unfold Device.close
    rw [if_pos (not_not.mp hdisk)]
    exact .refl roomId d

/-- A function of the event loop that keeps the rows of a room. -/
theorem onConn_agree {run : Database → Database} (h : ∀ db, AgreeOn roomId db (run db)) :
    DeviceAgree roomId d (onConn d run) := by
  unfold onConn
  cases hc : d.connDb with
  | none => exact .refl roomId d
  | some db =>
    simp only
    unfold Device.connDb at hc
    cases hconn : d.conn with
    | closed => simp [hconn] at hc
    | file =>
      rw [hconn] at hc
      cases hc
      exact ⟨by simpa [Device.setConnDb, hconn] using h d.file,
        .inr ⟨d.file, run d.file, by simp [Device.connDb, hconn],
          by simp [Device.connDb, Device.setConnDb, hconn], h d.file⟩⟩
    | memory db' =>
      rw [hconn] at hc
      cases hc
      exact ⟨by simpa [Device.setConnDb, hconn] using AgreeOn.refl roomId d.file,
        .inr ⟨db, run db, by simp [Device.connDb, hconn],
          by simp [Device.connDb, Device.setConnDb, hconn], h db⟩⟩

end

/-- **A write for another room keeps the rows of this one.** -/
theorem GovEvent.run_agree (S : Signatures Keypair Pub) (W : Wire) {roomId : String} (d : Device)
    (ev : GovEvent Keypair) (hne : ev.room ≠ roomId) : DeviceAgree roomId d (ev.run S W d) := by
  cases ev with
  | saveRole f role =>
    simp only [run, Isolation.saveRole]
    cases hdb : d.initDb f with
    | error e => exact .refl roomId d
    | ok db => exact close_agree hdb (saveRole_agree hne f db _ _)
  | savePermissionGrant f grant =>
    simp only [run, Commands.savePermissionGrant]
    cases hdb : d.initDb f with
    | error e => exact .refl roomId d
    | ok db =>
      simp only
      cases verifyPermissionGrant S W grant with
      | error e => exact .refl roomId d
      | ok u => exact close_agree hdb (savePermissionGrant_agree hne f db _ _ _)
  | createPermissionGrant f loaded nowMs room subjectPeerId roleId expiresAt =>
    simp only [run, Commands.createPermissionGrant]
    cases d.keypair loaded with
    | error e => exact .refl roomId d
    | ok keypair =>
      simp only
      cases hdb : d.initDb f with
      | error e => exact .refl roomId d
      | ok db =>
        simp only
        split_ifs
        · exact .refl roomId d
        · cases hg : Governance.createPermissionGrant S W keypair room subjectPeerId
            roleId expiresAt
              nowMs with
          | error e => exact .refl roomId d
          | ok grant =>
            have hroom : grant.roomId ≠ roomId := (createPermissionGrant_ok hg).1 ▸ hne
            have hagree := savePermissionGrant_agree hroom f db grant.subjectPeerId grant.roleId
              (W.grantJson.enc grant)
            simp only
            cases hs : Db.savePermissionGrant f db grant.roomId grant.subjectPeerId grant.roleId
                (W.grantJson.enc grant) with
            | mk result db' =>
              rw [hs] at hagree
              cases result with
              | error e => exact close_agree hdb hagree
              | ok u => exact close_agree hdb hagree
  | seedDefaultRoles f room ownerGrantJson =>
    exact onConn_agree fun db => seedDefaultRoles_agree hne W f db ownerGrantJson
  | ensureDefaultRoomGovernance f room keypair peerId nowMs =>
    exact onConn_agree fun db => ensureDefaultRoomGovernance_agree hne S W f db keypair peerId nowMs

theorem foldl_agree (S : Signatures Keypair Pub) (W : Wire) {roomId : String}
    (events : List (GovEvent Keypair)) (hne : ∀ ev ∈ events, ev.room ≠ roomId) (d : Device) :
    DeviceAgree roomId d (events.foldl (fun d ev => ev.run S W d) d) := by
  induction events generalizing d with
  | nil => exact .refl roomId d
  | cons ev rest ih =>
    have hstep := ev.run_agree S W d (hne ev List.mem_cons_self)
    exact hstep.trans (ih (fun ev hev => hne ev (List.mem_cons_of_mem _ hev)) _)

/-- **Rooms are isolated.** The answers for a room are the same on any two databases with the same
rows for it; and after any sequence of writes for other rooms they are what they were, on the
profile's file and on the session's connection. -/
theorem rooms_isolated (S : Signatures Keypair Pub) (W : Wire) (roomId : String) :
    (∀ (f : Faults) (db db' : Database), AgreeOn roomId db db' →
      ∀ (peerId : String) (permission : Permission) (nowMs : Int64),
        roomActionAllowed S W f db' roomId peerId permission nowMs =
          roomActionAllowed S W f db roomId peerId permission nowMs) ∧
    ∀ (events : List (GovEvent Keypair)) (d : Device), (∀ ev ∈ events, ev.room ≠ roomId) →
      ∀ (f : Faults) (peerId : String) (permission : Permission) (nowMs : Int64),
        let d' := events.foldl (fun d ev => ev.run S W d) d
        roomActionAllowed S W f d'.file roomId peerId permission nowMs =
            roomActionAllowed S W f d.file roomId peerId permission nowMs ∧
          (d'.connDb.map fun db => roomActionAllowed S W f db roomId peerId permission nowMs) =
            d.connDb.map fun db => roomActionAllowed S W f db roomId peerId permission nowMs := by
  refine ⟨?_, ?_⟩
  · intro f db db' h peerId permission nowMs
    exact roomActionAllowed_congr S h peerId permission nowMs
  · intro events d hne f peerId permission nowMs
    have hagree := foldl_agree S W events hne d
    refine ⟨roomActionAllowed_congr S hagree.file peerId permission nowMs, ?_⟩
    rcases hagree.conn with heq | ⟨db, db', h, h', hconn⟩
    · rw [heq]
    · rw [h, h', Option.map_some, Option.map_some,
        roomActionAllowed_congr S hconn peerId permission nowMs]

/-- Peer 0 owns the room, and peer 1 founds another one: a role, and its own grant for that room. -/
def otherRoom : List (GovEvent Nat) :=
  [.saveRole noFaults ⟨"other", "owner", "Owner", [.ManageRoles]⟩,
    .createPermissionGrant noFaults (.ok 1) 0 "other" (Signatures.tagged.peerId 1) "owner" none]

/-- What peer 1 may do in the room of peer 0 is as before, on the file as on the connection. -/
theorem founding_another_room :
    let d := (seededWorld .numbered "room" (numberedGrant 0)).device
    let d' := otherRoom.foldl (fun d ev => ev.run Signatures.tagged .numbered d) d
    roomActionAllowed Signatures.tagged .numbered noFaults d'.file "room"
        (Signatures.tagged.peerId 1) .ManageRoles 0 =
      roomActionAllowed Signatures.tagged .numbered noFaults d.file "room"
        (Signatures.tagged.peerId 1) .ManageRoles 0 ∧
      (d'.connDb.map fun db => roomActionAllowed Signatures.tagged .numbered noFaults db "room"
          (Signatures.tagged.peerId 1) .ManageRoles 0) =
        d.connDb.map fun db => roomActionAllowed Signatures.tagged .numbered noFaults db "room"
          (Signatures.tagged.peerId 1) .ManageRoles 0 := by
  have hne : ∀ ev ∈ otherRoom, ev.room ≠ "room" := by
    intro ev hev
    simp only [otherRoom, List.mem_cons, List.not_mem_nil, or_false] at hev
    rcases hev with rfl | rfl
    · decide
    · decide
  obtain ⟨hfile, hconn⟩ := (rooms_isolated Signatures.tagged .numbered "room").2 otherRoom
    (seededWorld .numbered "room" (numberedGrant 0)).device hne noFaults
    (Signatures.tagged.peerId 1) .ManageRoles 0
  exact ⟨hfile, hconn⟩

end AlterChat.Isolation
