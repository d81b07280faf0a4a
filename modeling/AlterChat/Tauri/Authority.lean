import AlterChat.Tauri.Commands
import AlterChat.Lib.Run
import AlterChat.Core.SignedBytes

/-!
# Where the authority over a room comes from

A device on which a room has been seeded for its owner, and on which grants are created and saved in
any order. `create_permission_grant` asks whether the issuer may manage roles;
`save_permission_grant` asks only whether the grant is signed by the issuer it names, and stores it.

* `Chain` -- the grants that go back to the owner, every issuer having held `ManageRoles` when the
  grant was taken;
* `AuthEvent.run_cases` -- what one command can do to the grants of the session's database;
* `authority_rooted` -- in every run in which each saved grant of the room comes from an issuer who
  may manage roles, every permission goes back to the owner;
* `selfSigned_breaks` -- the grant a stranger has signed for itself;
* `delegated_reach` -- an owner's grant, and the one its holder issues.
-/

namespace AlterChat.Commands

open Lib Governance Db

variable {Keypair Pub : Type}

/-! ## 1. Chains of grants -/

/-- The grants a device has taken, each with the time. -/
abbrev Taken := List (PermissionGrant × Int64)

/-- The roles of a room that can be read. -/
def rolesOf (W : Wire) (db : Database) (roomId : String) : List Role :=
  (loadRolesAndGrants W noFaults db roomId).1

/-- A grant that is stored for a room and can be read. -/
def Stored (W : Wire) (db : Database) (roomId : String) (grant : PermissionGrant) : Prop :=
  ∃ k json, k.1 = roomId ∧ db.permissionGrants.lookup k = some json ∧
    W.grantJson.dec json = some grant

/-- The room has a role. -/
def HasRoles (db : Database) (roomId : String) : Prop :=
  ∃ k json, k.1 = roomId ∧ db.roomRoles.lookup k = some json

/-- **The grants that go back to the owner.** The owner issued the grant, or its issuer held
    `ManageRoles`, when the grant was taken, by a grant that goes back to the owner. -/
inductive Chain (S : Signatures Keypair Pub) (W : Wire) (roomId owner : String) (roles : List Role)
    (taken : Taken) : PermissionGrant → Prop where
  | owner (grant : PermissionGrant) (t : Int64) (htaken : (grant, t) ∈ taken)
      (hroom : grant.roomId = roomId) (hissuer : grant.issuerPeerId = owner) :
      Chain S W roomId owner roles taken grant
  | issued (grant : PermissionGrant) (t : Int64) (htaken : (grant, t) ∈ taken)
      (hroom : grant.roomId = roomId) (grant' : PermissionGrant)
      (hchain : Chain S W roomId owner roles taken grant')
      (hholds : grant'.holds S W grant.issuerPeerId t = true) (role : Role) (hrole : role ∈ roles)
      (hgives : role.gives grant' .ManageRoles = true) :
      Chain S W roomId owner roles taken grant

/-- What has been taken stays taken. -/
theorem Chain.mono {S : Signatures Keypair Pub} {W : Wire} {roomId owner : String}
    {roles : List Role} {taken taken' : Taken} {grant : PermissionGrant}
    (h : Chain S W roomId owner roles taken grant) (hsub : ∀ e ∈ taken, e ∈ taken') :
    Chain S W roomId owner roles taken' grant := by
  induction h with
  | owner grant t htaken hroom hissuer => exact .owner grant t (hsub _ htaken) hroom hissuer
  | issued grant t htaken hroom grant' _ hholds role hrole hgives ih =>
    exact .issued grant t (hsub _ htaken) hroom grant' ih hholds role hrole hgives

/-! ## 2. Runs -/

/-- A device and the grants it has taken so far. -/
structure AuthWorld where
  device : Device
  taken : Taken

inductive AuthEvent (Keypair : Type) where
  | create (f : Faults) (loaded : Except String Keypair) (nowMs : Int64)
      (roomId subjectPeerId roleId : String) (expiresAt : Option Int64)
  | save (f : Faults) (nowMs : Int64) (grant : PermissionGrant)

/-- What a command leaves, and the grant it has taken where it returns `Ok`. -/
def AuthEvent.run (S : Signatures Keypair Pub) (W : Wire) (d : Device) :
    AuthEvent Keypair → Device × Taken
  | .create f loaded nowMs roomId subjectPeerId roleId expiresAt =>
    match createPermissionGrant S W f d loaded nowMs roomId subjectPeerId roleId expiresAt with
    | (.ok grant, d) => (d, [(grant, nowMs)])
    | (.error _, d) => (d, [])
  | .save f nowMs grant =>
    match savePermissionGrant S W f d grant with
    | (.ok (), d) => (d, [(grant, nowMs)])
    | (.error _, d) => (d, [])

/-- The world after a command. -/
def AuthWorld.after (S : Signatures Keypair Pub) (W : Wire) (w : AuthWorld)
    (ev : AuthEvent Keypair) : AuthWorld where
  device := (ev.run S W w.device).1
  taken := w.taken ++ (ev.run S W w.device).2

/-- One command. -/
def AuthStep (S : Signatures Keypair Pub) (W : Wire) (w : AuthWorld) (ev : AuthEvent Keypair)
    (w' : AuthWorld) : Prop :=
  w' = w.after S W ev

/-- **The start**: the session's database after `ensure_default_room_governance` has seeded a room
    without roles. The grants stored for it before, if any, are the owner's. -/
inductive AuthStart (S : Signatures Keypair Pub) (W : Wire) (roomId owner : String) :
    AuthWorld → Prop where
  | seeded (f : Faults) (db₀ db : Database) (keypair : Keypair) (nowMs : Int64) (device : Device)
      (grant : PermissionGrant) (taken : Taken)
      (hroles : ¬ HasRoles db₀ roomId)
      (hbefore : ∀ g, Stored W db₀ roomId g →
        g.roomId = roomId ∧ g.issuerPeerId = owner ∧ ∃ t, (g, t) ∈ taken)
      (howner : S.peerId (S.publicOf keypair) = owner)
      (hgrant : Governance.createPermissionGrant S W keypair roomId owner "owner" none nowMs =
        .ok grant)
      (hseed : ensureDefaultRoomGovernance S W f db₀ roomId keypair owner nowMs = (.ok (), db))
      (hconn : device.connDb = some db) :
      AuthStart S W roomId owner { device, taken := taken ++ [(grant, nowMs)] }

/-- **The property at one state**: every permission the session's database gives goes back to the
    owner. -/
def Rooted (S : Signatures Keypair Pub) (W : Wire) (roomId owner : String) (w : AuthWorld) : Prop :=
  ∀ db, w.device.connDb = some db → ∀ f peerId permission nowMs, f .countRoles = none →
    roomActionAllowed S W f db roomId peerId permission nowMs = true →
    ∃ grant, Chain S W roomId owner (rolesOf W db roomId) w.taken grant ∧
      grant.holds S W peerId nowMs = true ∧
      ∃ role ∈ rolesOf W db roomId, role.gives grant permission = true

/-- The condition on a command: a saved grant of the room comes from the owner or from an issuer who
    may manage roles; where a grant of the room is created, the roles can be counted. -/
def AuthCond (S : Signatures Keypair Pub) (W : Wire) (roomId owner : String) (w : AuthWorld) :
    AuthEvent Keypair → Prop
  | .create f _ _ room _ _ _ => room = roomId → f .countRoles = none
  | .save _ nowMs grant => grant.roomId = roomId → ∀ db, w.device.connDb = some db →
    grant.issuerPeerId = owner ∨
      roomActionAllowed S W noFaults db roomId grant.issuerPeerId .ManageRoles nowMs = true

/-! ## 3. What the functions do -/

/-- **A room with roles asks its grants**, whichever other statements fail. -/
theorem roomActionAllowed_stored {S : Signatures Keypair Pub} {W : Wire} {f : Faults}
    {db : Database} {roomId peerId : String} {permission : Permission} {nowMs : Int64}
    (hf : f .countRoles = none) (hroles : HasRoles db roomId)
    (h : roomActionAllowed S W f db roomId peerId permission nowMs = true) :
    ∃ grant, Stored W db roomId grant ∧ grant.holds S W peerId nowMs = true ∧
      ∃ role ∈ rolesOf W db roomId, role.gives grant permission = true := by
  obtain ⟨k, json, hk, hrow⟩ := hroles
  have hmem : json ∈ db.roomRoles.select fun k => decide (k.1 = roomId) :=
    Table.mem_select.mpr ⟨k, hrow, decide_eq_true hk⟩
  have hcount : ((countRoles f db roomId).toOption.getD 0) ≠ 0 := by
    simpa [countRoles, query, hf, Except.toOption] using List.ne_nil_of_mem hmem
  simp only [roomActionAllowed, if_neg hcount] at h
  obtain ⟨grant, hgrant, hholds, role, hrole, hgives⟩ := hasPermission_iff.mp h
  refine ⟨grant, ?_, hholds, role, ?_, hgives⟩
  · simp only [loadRolesAndGrants, listPermissionGrants, query] at hgrant
    cases hl : f .listPermissionGrants with
    | some e => simp [hl, Except.toOption] at hgrant
    | none =>
      simp only [hl, Except.toOption, Option.getD_some, List.mem_filterMap] at hgrant
      obtain ⟨gjson, hg, hdec⟩ := hgrant
      obtain ⟨gk, hrow, hroom⟩ := Table.mem_select.mp hg
      exact ⟨gk, gjson, of_decide_eq_true hroom, hrow, hdec⟩
  · simp only [loadRolesAndGrants, listRoles, query] at hrole
    cases hl : f .listRoles with
    | some e => simp [hl, Except.toOption] at hrole
    | none =>
      rw [hl] at hrole
      exact hrole

/-- Conversely a stored grant in force, with a role that can be read, is enough. -/
theorem roomActionAllowed_of_stored {S : Signatures Keypair Pub} {W : Wire} {db : Database}
    {roomId roleId peerId : String} {permission : Permission} {nowMs : Int64} {role : Role}
    {grant : PermissionGrant}
    (hrow : db.roomRoles.lookup (roomId, roleId) = some (W.roleJson.enc role))
    (hgrant : Stored W db roomId grant) (hholds : grant.holds S W peerId nowMs = true)
    (hgives : role.gives grant permission = true) :
    roomActionAllowed S W noFaults db roomId peerId permission nowMs = true := by
  have hmem : W.roleJson.enc role ∈ db.roomRoles.select fun k => decide (k.1 = roomId) :=
    Table.mem_select.mpr ⟨_, hrow, decide_eq_true rfl⟩
  obtain ⟨k, json, hk, hgrow, hdec⟩ := hgrant
  have hgmem : json ∈ db.permissionGrants.select fun k => decide (k.1 = roomId) :=
    Table.mem_select.mpr ⟨k, hgrow, decide_eq_true hk⟩
  have hcount : ((countRoles noFaults db roomId).toOption.getD 0) ≠ 0 := by
    simpa [countRoles, Except.toOption] using List.ne_nil_of_mem hmem
  simp only [roomActionAllowed, if_neg hcount]
  refine hasPermission_iff.mpr ⟨grant, ?_, hholds, role, ?_, hgives⟩
  · exact List.mem_filterMap.mpr ⟨json, hgmem, hdec⟩
  · exact List.mem_filterMap.mpr ⟨_, hmem, Codec.dec_enc _ _⟩

/-- The session's database after a command has closed its own. -/
theorem connDb_close {f : Faults} {d : Device} {db : Database} (h : d.initDb f = .ok db)
    (db' : Database) :
    (d.close db').connDb = d.connDb ∨
      (d.connDb = some db ∧ (d.close db').connDb = some db') := by
  unfold Device.initDb at h
  split at h
  · cases h
  · next path hpath =>
    split at h
    · cases h
    · have hdb := (query_ok h).2
      unfold Device.close
      by_cases hmem : d.app.dbPath = some ":memory:"
      · rw [if_pos hmem]
        exact .inl rfl
      · rw [if_neg hmem]
        have hfile : path ≠ ":memory:" := fun e => hmem (e ▸ hpath)
        rw [if_neg hfile] at hdb
        subst hdb
        unfold Device.connDb
        cases d.conn with
        | closed => exact .inl rfl
        | file => exact .inr ⟨rfl, rfl⟩
        | memory db => exact .inl rfl

/-- A command that has changed nothing leaves it. -/
theorem connDb_close_same {f : Faults} {d : Device} {db : Database} (h : d.initDb f = .ok db) :
    (d.close db).connDb = d.connDb := by
  rcases connDb_close h db with hsame | ⟨hd, hclose⟩
  · exact hsame
  · exact hclose.trans hd.symm

/-- The database with a grant stored. -/
def withGrant (W : Wire) (db : Database) (grant : PermissionGrant) : Database :=
  { db with
    permissionGrants :=
      db.permissionGrants.upsert (grant.roomId, grant.subjectPeerId, grant.roleId)
        (W.grantJson.enc grant) fun _ => W.grantJson.enc grant }

theorem savePermissionGrant_cases (W : Wire) (f : Faults) (db : Database)
    (grant : PermissionGrant) :
    Db.savePermissionGrant f db grant.roomId grant.subjectPeerId grant.roleId
        (W.grantJson.enc grant) = (.ok (), withGrant W db grant) ∨
      ∃ e, Db.savePermissionGrant f db grant.roomId grant.subjectPeerId grant.roleId
        (W.grantJson.enc grant) = (.error e, db) := by
  rcases execute_cases f .savePermissionGrant db (withGrant W db grant) with ⟨-, h⟩ | ⟨e, -, h⟩
  · exact .inl h
  · exact .inr ⟨e, h⟩

/-- A grant that is stored after one more is the new one or was stored before. -/
theorem stored_withGrant {W : Wire} {db : Database} {grant g : PermissionGrant} {roomId : String}
    (h : Stored W (withGrant W db grant) roomId g) :
    (g = grant ∧ grant.roomId = roomId) ∨ Stored W db roomId g := by
  obtain ⟨k, json, hk, hrow, hdec⟩ := h
  simp only [withGrant, Table.lookup_upsert_const] at hrow
  split at hrow
  · next hkey =>
    rw [← Option.some.inj hrow, Codec.dec_enc] at hdec
    exact .inl ⟨(Option.some.inj hdec).symm, by rw [← hk, hkey]⟩
  · exact .inr ⟨k, json, hk, hrow, hdec⟩

/-- **What one command can do**: the session's database stays, or one grant is stored in it, which
    is the grant taken; a created one after the issuer was found to manage roles. -/
theorem AuthEvent.run_cases (S : Signatures Keypair Pub) (W : Wire) (d : Device)
    (ev : AuthEvent Keypair) :
    (ev.run S W d).1.connDb = d.connDb ∨
    ∃ db grant t, d.connDb = some db ∧ (ev.run S W d).2 = [(grant, t)] ∧
      (ev.run S W d).1.connDb = some (withGrant W db grant) ∧
      match ev with
      | .create f _ _ roomId _ _ _ => grant.roomId = roomId ∧
        roomActionAllowed S W f db roomId grant.issuerPeerId .ManageRoles t = true
      | .save _ nowMs saved => grant = saved ∧ t = nowMs := by
  cases ev with
  | create f loaded nowMs roomId subjectPeerId roleId expiresAt =>
    simp only [AuthEvent.run, createPermissionGrant]
    cases d.keypair loaded with
    | error e => exact .inl rfl
    | ok keypair =>
      simp only
      cases hdb : d.initDb f with
      | error e => exact .inl rfl
      | ok db =>
        simp only
        by_cases hallowed : roomActionAllowed S W f db roomId (S.peerId (S.publicOf keypair))
            .ManageRoles nowMs = false
        · rw [if_pos hallowed]
          exact .inl rfl
        · rw [if_neg hallowed]
          cases hg : Governance.createPermissionGrant S W keypair roomId subjectPeerId roleId
              expiresAt nowMs with
          | error e => exact .inl rfl
          | ok grant =>
            obtain ⟨hroom, -, -, hissuer⟩ := createPermissionGrant_ok hg
            rcases savePermissionGrant_cases W f db grant with hs | ⟨e, hs⟩
            · simp only [hs]
              rcases connDb_close hdb (withGrant W db grant) with h | ⟨hd, h⟩
              · exact .inl h
              · refine .inr ⟨db, grant, nowMs, hd, rfl, h, hroom, ?_⟩
                rw [hissuer]
                simpa using hallowed
            · simp only [hs]
              exact .inl (connDb_close_same hdb)
  | save f nowMs grant =>
    simp only [AuthEvent.run, savePermissionGrant]
    cases hdb : d.initDb f with
    | error e => exact .inl rfl
    | ok db =>
      simp only
      cases verifyPermissionGrant S W grant with
      | error e => exact .inl rfl
      | ok u =>
        rcases savePermissionGrant_cases W f db grant with hs | ⟨e, hs⟩
        · simp only [hs]
          rcases connDb_close hdb (withGrant W db grant) with h | ⟨hd, h⟩
          · exact .inl h
          · exact .inr ⟨db, grant, nowMs, hd, rfl, h, rfl, rfl⟩
        · simp only [hs]
          exact .inl (connDb_close_same hdb)

/-! ## 4. Seeding -/

/-- Saving roles touches no grant and leaves each of them a row. -/
theorem saveRoles_ok {W : Wire} {f : Faults} {roomId : String} {roles : List Role}
    {db db' : Database} (h : saveRoles W f roomId roles db = (.ok (), db')) :
    db'.permissionGrants = db.permissionGrants ∧
      (HasRoles db roomId ∨ roles ≠ [] → HasRoles db' roomId) := by
  induction roles generalizing db with
  | nil =>
    cases h
    exact ⟨rfl, fun hr => hr.elim id (absurd rfl)⟩
  | cons role rest ih =>
    simp only [saveRoles, saveRole, execute] at h
    cases hf : f (.saveRole role.roleId) with
    | some e =>
      rw [hf] at h
      cases h
    | none =>
      rw [hf] at h
      obtain ⟨hgrants, hroles⟩ := ih h
      refine ⟨hgrants, fun _ => hroles (.inl ?_)⟩
      exact ⟨(roomId, role.roleId), _, rfl, by rw [Table.lookup_upsert, if_pos rfl]⟩

theorem ensureDefaultRoomGovernance_ok {S : Signatures Keypair Pub} {W : Wire} {f : Faults}
    {db₀ db : Database} {roomId owner : String} {keypair : Keypair} {nowMs : Int64}
    {grant : PermissionGrant} (hroles : ¬ HasRoles db₀ roomId)
    (hgrant : Governance.createPermissionGrant S W keypair roomId owner "owner" none nowMs =
      .ok grant)
    (h : ensureDefaultRoomGovernance S W f db₀ roomId keypair owner nowMs = (.ok (), db)) :
    ∃ db₁, db₁.permissionGrants = db₀.permissionGrants ∧ HasRoles db₁ roomId ∧
      db = withGrant W db₁ grant := by
  have hzero : (db₀.roomRoles.select fun k => decide (k.1 = roomId)).length = 0 := by
    refine List.length_eq_zero_iff.mpr (List.eq_nil_iff_forall_not_mem.mpr fun json hm => hroles ?_)
    obtain ⟨k, hrow, hk⟩ := Table.mem_select.mp hm
    exact ⟨k, json, of_decide_eq_true hk, hrow⟩
  unfold ensureDefaultRoomGovernance at h
  split at h
  · cases h
  · next count hcount =>
    have hc := (query_ok hcount).2
    rw [← hc, hzero, if_neg (Nat.lt_irrefl 0), hgrant] at h
    simp only [seedDefaultRoles] at h
    split at h
    · cases h
    · next db₁ hsaved =>
      rw [Codec.dec_enc] at h
      obtain ⟨hgrants, hrows⟩ := saveRoles_ok hsaved
      refine ⟨db₁, hgrants, hrows (.inr (List.cons_ne_nil _ _)), ?_⟩
      obtain ⟨hroom, -, -, -⟩ := createPermissionGrant_ok hgrant
      simp only at h
      rw [← hroom] at h
      rcases savePermissionGrant_cases W f db₁ grant with hs | ⟨e, hs⟩
      · rw [hs] at h
        exact (congrArg Prod.snd h).symm
      · rw [hs] at h
        cases h

/-! ## 5. The invariant -/

/-- The room of the session's database has roles, and each grant stored for it goes back to the
    owner. -/
structure AuthInv (S : Signatures Keypair Pub) (W : Wire) (roomId owner : String) (w : AuthWorld)
    (db : Database) : Prop where
  roles : HasRoles db roomId
  chain : ∀ g, Stored W db roomId g → Chain S W roomId owner (rolesOf W db roomId) w.taken g

section

variable {S : Signatures Keypair Pub} {W : Wire} {roomId owner : String}

theorem authInv_start {w : AuthWorld} (h : AuthStart S W roomId owner w) {db : Database}
    (hdb : w.device.connDb = some db) : AuthInv S W roomId owner w db := by
  cases h with
  | seeded f db₀ db' keypair nowMs device grant taken hroles hbefore howner hgrant hseed hconn =>
    rw [hconn] at hdb
    cases hdb
    obtain ⟨db₁, hgrants, hrows, rfl⟩ := ensureDefaultRoomGovernance_ok hroles hgrant hseed
    obtain ⟨hroom, -, -, hissuer⟩ := createPermissionGrant_ok hgrant
    refine ⟨hrows, fun g hg => ?_⟩
    rcases stored_withGrant hg with ⟨rfl, -⟩ | ⟨k, json, hk, hrow, hdec⟩
    · exact .owner _ nowMs (List.mem_append_right _ (List.mem_singleton_self _)) hroom
        (hissuer.trans howner)
    · obtain ⟨hroom', hissuer', t, ht⟩ := hbefore g ⟨k, json, hk, hgrants ▸ hrow, hdec⟩
      exact .owner _ t (List.mem_append_left _ ht) hroom' hissuer'

/-- **One command that meets the condition keeps the invariant.** -/
theorem authInv_step {w w' : AuthWorld} {ev : AuthEvent Keypair}
    (hcond : AuthCond S W roomId owner w ev) (hstep : AuthStep S W w ev w')
    (hinv : ∀ db, w.device.connDb = some db → AuthInv S W roomId owner w db) {db' : Database}
    (hdb' : w'.device.connDb = some db') : AuthInv S W roomId owner w' db' := by
  cases hstep
  have hsub : ∀ e ∈ w.taken, e ∈ (w.after S W ev).taken := fun e he => List.mem_append_left _ he
  rcases ev.run_cases S W w.device with hsame | ⟨db, grant, t, hdb, htaken, hwith, hev⟩
  · have h := hinv db' (hsame ▸ hdb')
    exact ⟨h.roles, fun g hg => (h.chain g hg).mono hsub⟩
  · have hinv := hinv db hdb
    have heq : db' = withGrant W db grant := Option.some.inj (hdb'.symm.trans hwith)
    subst heq
    refine ⟨hinv.roles, fun g hg => ?_⟩
    rcases stored_withGrant hg with ⟨rfl, hroom⟩ | hold
    · -- the new grant: its issuer is the owner or was found to manage roles
      have hmem : (g, t) ∈ (w.after S W ev).taken :=
        List.mem_append_right _ (htaken ▸ List.mem_singleton_self _)
      have hissuer : g.issuerPeerId = owner ∨ ∃ f, f .countRoles = none ∧
          roomActionAllowed S W f db roomId g.issuerPeerId .ManageRoles t = true := by
        cases ev with
        | create f loaded nowMs room subjectPeerId roleId expiresAt =>
          obtain ⟨hr, hallowed⟩ := hev
          have hr' : room = roomId := hr.symm.trans hroom
          exact .inr ⟨f, hcond hr', hr' ▸ hallowed⟩
        | save f nowMs saved =>
          obtain ⟨rfl, rfl⟩ := hev
          exact (hcond hroom db hdb).imp_right fun h => ⟨noFaults, rfl, h⟩
      rcases hissuer with howner | ⟨f, hf, hallowed⟩
      · exact .owner g t hmem hroom howner
      · obtain ⟨grant', hstored, hholds, role, hrole, hgives⟩ :=
          roomActionAllowed_stored hf hinv.roles hallowed
        exact .issued g t hmem hroom grant' ((hinv.chain grant' hstored).mono hsub) hholds role
          hrole hgives
    · exact (hinv.chain g hold).mono hsub

theorem AuthInv.rooted {w : AuthWorld}
    (h : ∀ db, w.device.connDb = some db → AuthInv S W roomId owner w db) :
    Rooted S W roomId owner w := by
  intro db hdb f peerId permission nowMs hf hallowed
  obtain ⟨grant, hstored, hholds, hrole⟩ := roomActionAllowed_stored hf (h db hdb).roles hallowed
  exact ⟨grant, (h db hdb).chain grant hstored, hholds, hrole⟩

end

/-- **Authority comes from the owner**: in every state of a run in which each saved grant of the
    room comes from the owner or from an issuer who may manage roles then, and in which the roles
    can be counted where a grant is created. -/
theorem authority_rooted (S : Signatures Keypair Pub) (W : Wire) (roomId owner : String)
    {w : AuthWorld} (h : Reach (AuthStart S W roomId owner)
      (Guarded (AuthCond S W roomId owner) (AuthStep S W)) w) :
    Rooted S W roomId owner w :=
  AuthInv.rooted (h.inv (I := fun w => ∀ db, w.device.connDb = some db →
      AuthInv S W roomId owner w db)
    (fun _ h _ hdb => authInv_start h hdb)
    fun _ _ _ hinv hstep _ hdb' => authInv_step hstep.1 hstep.2 hinv hdb')

section

variable {S : Signatures Keypair Pub} {W : Wire} {d : Device} {db : Database} {keypair : Keypair}
  {roomId subjectPeerId roleId : String} {nowMs : Int64} {grant : PermissionGrant}

/-- `create_permission_grant` by an issuer who may manage roles. -/
theorem run_create (hkey : d.keypair (.ok keypair) = .ok keypair)
    (hdb : d.initDb noFaults = .ok db)
    (hallowed : roomActionAllowed S W noFaults db roomId (S.peerId (S.publicOf keypair))
      .ManageRoles nowMs = true)
    (hgrant : Governance.createPermissionGrant S W keypair roomId subjectPeerId roleId none nowMs =
      .ok grant) :
    (AuthEvent.create noFaults (.ok keypair) nowMs roomId subjectPeerId roleId none).run S W d =
      (d.close (withGrant W db grant), [(grant, nowMs)]) := by
  simp [AuthEvent.run, createPermissionGrant, hkey, hdb, hallowed, hgrant, Db.savePermissionGrant,
    withGrant]

/-- `save_permission_grant` of a grant that verifies. -/
theorem run_save (hdb : d.initDb noFaults = .ok db)
    (hverify : verifyPermissionGrant S W grant = .ok ()) :
    (AuthEvent.save noFaults nowMs grant : AuthEvent Keypair).run S W d =
      (d.close (withGrant W db grant), [(grant, nowMs)]) := by
  simp [AuthEvent.run, savePermissionGrant, hdb, hverify, Db.savePermissionGrant, withGrant]

end

/-! ## 6. A seeded room, and a stranger -/

/-- The owner's grant as a peer signs it for itself at time 0. -/
def selfGrant (S : Signatures Keypair Pub) (keypair : Keypair) (roomId : String)
    (signature : Bytes) : PermissionGrant where
  roomId := roomId
  subjectPeerId := S.peerId (S.publicOf keypair)
  roleId := "owner"
  issuerPeerId := S.peerId (S.publicOf keypair)
  issuerPublicKey := S.encodePublic (S.publicOf keypair)
  issuedAt := 0
  expiresAt := none
  signature := signature

/-- The signature `create_permission_grant` puts on it. -/
def Signs (S : Signatures Keypair Pub) (W : Wire) (keypair : Keypair) (roomId : String)
    (signature : Bytes) : Prop :=
  S.sign keypair (grantSigningBytes W (selfGrant S keypair roomId [])) = .ok signature

/-- A device on which a room has been seeded with an owner's grant. -/
def seededWorld (W : Wire) (roomId : String) (grant : PermissionGrant) : AuthWorld where
  device :=
    { app := { dbPath := some "alterchat.db", dbKey := some "key", keyPath := some "keypair.bin" }
      file := (seedDefaultRoles W noFaults .empty roomId (some (W.grantJson.enc grant))).2
      conn := .file }
  taken := [(grant, 0)]

section

variable {S : Signatures Keypair Pub} {W : Wire} {roomId : String} {keypair : Keypair}
  {signature : Bytes}

theorem create_selfGrant (h : Signs S W keypair roomId signature) :
    Governance.createPermissionGrant S W keypair roomId (S.peerId (S.publicOf keypair)) "owner"
      none 0 = .ok (selfGrant S keypair roomId signature) := by
  have h' : S.sign keypair (grantSigningBytes W (selfGrant S keypair roomId [])) = .ok signature :=
    h
  simp only [selfGrant] at h'
  simp only [Governance.createPermissionGrant, signBytes, h']
  rfl

/-- Whoever has just been given the role of an owner may manage roles. -/
theorem owner_allowed {db : Database} {subjectPeerId : String} {grant : PermissionGrant}
    {permissions : List Permission} (hrow : db.roomRoles.lookup (roomId, "owner") =
      some (W.roleJson.enc { roomId, roleId := "owner", name := "Owner", permissions }))
    (hmanages : permissions.contains .ManageRoles = true) (hroom : grant.roomId = roomId)
    (hrole : grant.roleId = "owner") {nowMs : Int64}
    (hholds : grant.holds S W subjectPeerId nowMs = true) :
    roomActionAllowed S W noFaults (withGrant W db grant) roomId subjectPeerId .ManageRoles nowMs =
      true := by
  have hrow' : (withGrant W db grant).roomRoles.lookup (roomId, "owner") = _ := hrow
  refine roomActionAllowed_of_stored hrow'
    ⟨(grant.roomId, grant.subjectPeerId, grant.roleId), _, hroom, ?_, Codec.dec_enc _ _⟩ hholds ?_
  · simp [withGrant, Table.lookup_upsert_const]
  · simpa [Role.gives, hroom, hrole] using hmanages

theorem seedDefaultRoles_selfGrant (db : Database) (grant : PermissionGrant) :
    ∃ db₁, db₁.permissionGrants = db.permissionGrants ∧
      (∀ role ∈ defaultRoles grant.roomId,
        db₁.roomRoles.lookup (grant.roomId, role.roleId) = some (W.roleJson.enc role)) ∧
      seedDefaultRoles W noFaults db grant.roomId (some (W.grantJson.enc grant)) =
        (.ok (), withGrant W db₁ grant) := by
  refine ⟨(saveRoles W noFaults grant.roomId (defaultRoles grant.roomId) db).2, rfl, ?_, ?_⟩
  · intro role hrole
    simp only [defaultRoles, List.mem_cons, List.not_mem_nil, or_false] at hrole
    rcases hrole with rfl | rfl | rfl <;>
      simp [saveRoles, defaultRoles, saveRole, Table.lookup_upsert_const]
  · simp only [seedDefaultRoles, Codec.dec_enc]
    rfl

theorem seededWorld_start (h : Signs S W keypair roomId signature) :
    AuthStart S W roomId (S.peerId (S.publicOf keypair))
      (seededWorld W roomId (selfGrant S keypair roomId signature)) := by
  have hnone : ∀ k : String × String, Database.empty.roomRoles.lookup k = none := fun _ => rfl
  refine .seeded noFaults .empty _ keypair 0 _ (selfGrant S keypair roomId signature) [] ?_ ?_ rfl
    (create_selfGrant h) ?_ rfl
  · rintro ⟨k, json, -, hrow⟩
    cases (hnone k).symm.trans hrow
  · rintro g ⟨k, json, -, hrow, -⟩
    cases (show Database.empty.permissionGrants.lookup k = none from rfl).symm.trans hrow
  · obtain ⟨db₁, -, -, hs⟩ := seedDefaultRoles_selfGrant (W := W) .empty
      (selfGrant S keypair roomId signature)
    have hcount : countRoles noFaults Database.empty roomId = .ok 0 := rfl
    have hs' : seedDefaultRoles W noFaults .empty roomId
        (some (W.grantJson.enc (selfGrant S keypair roomId signature))) = _ := hs
    simp only [ensureDefaultRoomGovernance, create_selfGrant h, hcount, Nat.lt_irrefl, if_false]
    rw [hs']

end

/-- The seeded device after a stranger's own grant has been saved. -/
def forgedWorld (S : Signatures Keypair Pub) (W : Wire) (roomId : String)
    (grant forged : PermissionGrant) : AuthWorld :=
  (seededWorld W roomId grant).after S W (.save noFaults 0 forged : AuthEvent Keypair)

section

variable {S : Signatures Keypair Pub} {W : Wire} {roomId : String} {owner stranger : Keypair}
  {signature signature' : Bytes}

/-- In that room only the owner's own grant goes back to the owner. -/
theorem chain_forged (hne : S.peerId (S.publicOf stranger) ≠ S.peerId (S.publicOf owner))
    {roles : List Role} {g : PermissionGrant}
    (h : Chain S W roomId (S.peerId (S.publicOf owner)) roles
      [(selfGrant S owner roomId signature, 0), (selfGrant S stranger roomId signature', 0)] g) :
    g.subjectPeerId = S.peerId (S.publicOf owner) := by
  induction h with
  | owner g t htaken hroom hissuer =>
    simp only [List.mem_cons, Prod.mk.injEq, List.not_mem_nil, or_false] at htaken
    rcases htaken with ⟨rfl, -⟩ | ⟨rfl, -⟩
    · rfl
    · exact absurd hissuer hne
  | issued g t htaken hroom g' hchain hholds role hrole hgives ih =>
    have hissuer : g'.subjectPeerId = g.issuerPeerId := (PermissionGrant.holds_iff.mp hholds).1
    simp only [List.mem_cons, Prod.mk.injEq, List.not_mem_nil, or_false] at htaken
    rcases htaken with ⟨rfl, -⟩ | ⟨rfl, -⟩
    · rfl
    · exact absurd (hissuer.symm.trans ih) hne

/-- **A stranger becomes an owner** by a grant it has signed for itself. -/
theorem selfSigned_breaks (hS : S.Lawful) (howner : Signs S W owner roomId signature)
    (hstranger : Signs S W stranger roomId signature')
    (hne : S.peerId (S.publicOf stranger) ≠ S.peerId (S.publicOf owner)) :
    Reach (AuthStart S W roomId (S.peerId (S.publicOf owner))) (AuthStep S W)
        (forgedWorld S W roomId (selfGrant S owner roomId signature)
          (selfGrant S stranger roomId signature')) ∧
      ¬ Rooted S W roomId (S.peerId (S.publicOf owner))
        (forgedWorld S W roomId (selfGrant S owner roomId signature)
          (selfGrant S stranger roomId signature')) := by
  refine ⟨.step _ _ _ (.start _ (seededWorld_start howner)) rfl, fun hrooted => ?_⟩
  have hverify : verifyPermissionGrant S W (selfGrant S stranger roomId signature') = .ok () :=
    verifySigned_of_sign hS hstranger _ _
  obtain ⟨db₁, -, hrows, hseed⟩ := seedDefaultRoles_selfGrant (W := W) .empty
    (selfGrant S owner roomId signature)
  have hseed' : seedDefaultRoles W noFaults .empty roomId
      (some (W.grantJson.enc (selfGrant S owner roomId signature))) = _ := hseed
  have hrow := hrows { roomId, roleId := "owner", name := "Owner", permissions := _ }
    (List.mem_cons_self ..)
  have hrow' : (withGrant W db₁ (selfGrant S owner roomId signature)).roomRoles.lookup
      (roomId, "owner") = _ := hrow
  have hrun : (AuthEvent.save noFaults 0 (selfGrant S stranger roomId signature') :
        AuthEvent Keypair).run S W
      (seededWorld W roomId (selfGrant S owner roomId signature)).device =
      ({ (seededWorld W roomId (selfGrant S owner roomId signature)).device with
          file := withGrant W (withGrant W db₁ (selfGrant S owner roomId signature))
            (selfGrant S stranger roomId signature') },
        [(selfGrant S stranger roomId signature', 0)]) := by
    have hfile : (seededWorld W roomId (selfGrant S owner roomId signature)).device.file =
        withGrant W db₁ (selfGrant S owner roomId signature) := congrArg Prod.snd hseed'
    rw [← hfile]
    exact run_save rfl hverify
  obtain ⟨g, hchain, hholds, -⟩ := hrooted
    (withGrant W (withGrant W db₁ (selfGrant S owner roomId signature))
      (selfGrant S stranger roomId signature')) (by rw [forgedWorld, AuthWorld.after, hrun]; rfl)
    noFaults (S.peerId (S.publicOf stranger)) .ManageRoles 0 rfl
    (owner_allowed hrow' rfl rfl rfl (PermissionGrant.holds_iff.mpr ⟨rfl, hverify, nofun⟩))
  rw [forgedWorld, AuthWorld.after, hrun] at hchain
  have hsubject := chain_forged hne hchain
  exact hne ((PermissionGrant.holds_iff.mp hholds).1.symm.trans hsubject)

end

/-- The owner's grant of peer 0 of the numbered scheme, and the one peer 1 signs for itself. -/
def numberedGrant (peer : Nat) : PermissionGrant :=
  selfGrant Signatures.tagged peer "room" (Signatures.tag peer
    (grantSigningBytes .numbered (selfGrant Signatures.tagged peer "room" [])))

/-! ## 7. A chain of grants -/

/-- The owner makes a delegate an owner too, and the delegate's grant for a third peer is saved. -/
def delegatedWorld (S : Signatures Keypair Pub) (W : Wire) (roomId : String)
    (owner delegate : Keypair) (rootGrant memberGrant : PermissionGrant) : AuthWorld :=
  ((seededWorld W roomId rootGrant).after S W
    (.create noFaults (.ok owner) 0 roomId (S.peerId (S.publicOf delegate)) "owner" none)).after S W
    (.save noFaults 0 memberGrant)

section

variable {S : Signatures Keypair Pub} {W : Wire} {roomId subjectPeerId : String}
  {owner delegate : Keypair} {signature : Bytes} {ownerGrant memberGrant : PermissionGrant}

/-- A created grant without an end is in force at once and stays so. -/
theorem createPermissionGrant_holds (hS : S.Lawful) {keypair : Keypair} {roleId : String}
    {nowMs : Int64} {grant : PermissionGrant}
    (h : Governance.createPermissionGrant S W keypair roomId subjectPeerId roleId none nowMs =
      .ok grant) (t : Int64) : grant.holds S W subjectPeerId t = true := by
  obtain ⟨s, hs, rfl⟩ := sign_then_ok h
  exact PermissionGrant.holds_iff.mpr ⟨rfl, verifySigned_of_sign hS hs _ _, nofun⟩

theorem delegated_reach (hS : S.Lawful) (howner : Signs S W owner roomId signature)
    (hdelegate : Governance.createPermissionGrant S W owner roomId
      (S.peerId (S.publicOf delegate)) "owner" none 0 = .ok ownerGrant)
    (hmember : Governance.createPermissionGrant S W delegate roomId subjectPeerId "member" none 0 =
      .ok memberGrant) :
    Reach (AuthStart S W roomId (S.peerId (S.publicOf owner)))
        (Guarded (AuthCond S W roomId (S.peerId (S.publicOf owner))) (AuthStep S W))
        (delegatedWorld S W roomId owner delegate (selfGrant S owner roomId signature)
          memberGrant) ∧
      (delegatedWorld S W roomId owner delegate (selfGrant S owner roomId signature)
        memberGrant).taken =
        [(selfGrant S owner roomId signature, 0), (ownerGrant, 0), (memberGrant, 0)] := by
  let w₀ : AuthWorld := seededWorld W roomId (selfGrant S owner roomId signature)
  let delegates : AuthEvent Keypair :=
    .create noFaults (.ok owner) 0 roomId (S.peerId (S.publicOf delegate)) "owner" none
  let w₁ : AuthWorld := w₀.after S W delegates
  let saves : AuthEvent Keypair := .save noFaults 0 memberGrant
  obtain ⟨db₁, -, hrows, hseed⟩ := seedDefaultRoles_selfGrant (W := W) .empty
    (selfGrant S owner roomId signature)
  have hrow := hrows { roomId, roleId := "owner", name := "Owner", permissions := _ }
    (List.mem_cons_self ..)
  have hfile : w₀.device.file = withGrant W db₁ (selfGrant S owner roomId signature) :=
    congrArg Prod.snd hseed
  -- the owner may manage roles by the grant the room was seeded with
  have hself := createPermissionGrant_holds hS (create_selfGrant howner) 0
  have hallowed := owner_allowed hrow rfl rfl rfl hself
  have hrun : delegates.run S W w₀.device =
      ({ w₀.device with file := withGrant W w₀.device.file ownerGrant }, [(ownerGrant, 0)]) :=
    run_create rfl rfl (hfile ▸ hallowed) hdelegate
  -- the delegate may by the grant just created
  obtain ⟨hroom, -, hrole, -⟩ := createPermissionGrant_ok hdelegate
  obtain ⟨-, -, -, hissuer⟩ := createPermissionGrant_ok hmember
  have hheld := createPermissionGrant_holds hS hdelegate 0
  have hallowed' : roomActionAllowed S W noFaults (withGrant W w₀.device.file ownerGrant) roomId
      memberGrant.issuerPeerId .ManageRoles 0 = true := by
    rw [hfile, hissuer]
    have hrow' : (withGrant W db₁ (selfGrant S owner roomId signature)).roomRoles.lookup
        (roomId, "owner") = _ := hrow
    exact owner_allowed hrow' rfl hroom hrole hheld
  have hcond : AuthCond S W roomId (S.peerId (S.publicOf owner)) w₁ saves := by
    intro _ db hdb
    have hconn : w₁.device.connDb = some (withGrant W w₀.device.file ownerGrant) := by
      rw [show w₁.device = _ from congrArg Prod.fst hrun]
      rfl
    cases hdb.symm.trans hconn
    exact .inr hallowed'
  have hsaved : saves.run S W w₁.device =
      (w₁.device.close (withGrant W (withGrant W w₀.device.file ownerGrant) memberGrant),
        [(memberGrant, 0)]) := by
    refine run_save ?_ (createPermissionGrant_verifies hS hmember)
    rw [show w₁.device = _ from congrArg Prod.fst hrun]
    rfl
  refine ⟨.step w₁ saves _ (.step w₀ delegates _ (.start _ (seededWorld_start howner))
    ⟨fun _ => rfl, rfl⟩) ⟨hcond, rfl⟩, ?_⟩
  show (w₀.taken ++ (delegates.run S W w₀.device).2) ++ (saves.run S W w₁.device).2 = _
  rw [hrun, hsaved]
  rfl

end

/-- A grant of peer `peer` in the numbered scheme. -/
def numberedGrantFor (peer subject : Nat) (roleId : String) : PermissionGrant :=
  let unsigned : PermissionGrant :=
    { roomId := "room", subjectPeerId := Signatures.tagged.peerId subject, roleId := roleId
      issuerPeerId := Signatures.tagged.peerId peer
      issuerPublicKey := Signatures.tagged.encodePublic peer
      issuedAt := 0, expiresAt := none, signature := [] }
  { unsigned with signature := Signatures.tag peer (grantSigningBytes .numbered unsigned) }

/-- Peer 0 seeds a room and makes peer 1 an owner, and peer 1 makes peer 2 a member. -/
theorem authority_rooted_member :
    (delegatedWorld Signatures.tagged .numbered "room" 0 1 (numberedGrant 0)
        (numberedGrantFor 1 2 "member")).taken =
      [(numberedGrant 0, 0), (numberedGrantFor 0 1 "owner", 0),
        (numberedGrantFor 1 2 "member", 0)] ∧
    Rooted Signatures.tagged .numbered "room" (Signatures.tagged.peerId 0)
      (delegatedWorld Signatures.tagged .numbered "room" 0 1 (numberedGrant 0)
        (numberedGrantFor 1 2 "member")) := by
  have howner : Signs Signatures.tagged .numbered 0 "room" _ := rfl
  have hdelegate : Governance.createPermissionGrant Signatures.tagged .numbered 0 "room"
      (Signatures.tagged.peerId 1) "owner" none 0 = .ok (numberedGrantFor 0 1 "owner") := rfl
  have hmember : Governance.createPermissionGrant Signatures.tagged .numbered 1 "room"
      (Signatures.tagged.peerId 2) "member" none 0 = .ok (numberedGrantFor 1 2 "member") := rfl
  obtain ⟨hreach, htaken⟩ := delegated_reach Signatures.tagged_lawful howner hdelegate hmember
  exact ⟨htaken, authority_rooted _ _ _ _ hreach⟩

/-- Peer 0 seeds a room, and peer 1's own grant makes it an owner there. -/
theorem authority_not_rooted :
    Reach (AuthStart Signatures.tagged .numbered "room" (Signatures.tagged.peerId 0))
        (AuthStep Signatures.tagged .numbered)
        (forgedWorld Signatures.tagged .numbered "room" (numberedGrant 0) (numberedGrant 1)) ∧
      ¬ Rooted Signatures.tagged .numbered "room" (Signatures.tagged.peerId 0)
        (forgedWorld Signatures.tagged .numbered "room" (numberedGrant 0) (numberedGrant 1)) :=
  selfSigned_breaks Signatures.tagged_lawful rfl rfl
    fun h => absurd (Signatures.tagged_peerId_inj h) (by decide)

end AlterChat.Commands
