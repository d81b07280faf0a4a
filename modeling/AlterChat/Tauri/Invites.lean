import AlterChat.Tauri.Commands
import AlterChat.Lib.Run

/-!
# Invites over whole runs

A device on which invites are created, revoked, revoked for everybody, received as revoked and
accepted, in any order. Only `room_invites` is asked by `accept_invite`: a revocation of an invite
that has no row there is not seen, and without a row uses are neither counted nor limited.

* `Grows` -- no step loses a row, a revocation or a use: `step_grows`;
* `acceptInviteDb_cases` -- what `accept_invite` needs of the row and does to it;
* `revoked_stays_revoked` -- in every run in which each revocation finds a row, no revoked invite is
  accepted again;
* `uses_limited` -- in every run in which each accept of the token finds a row, it is accepted at
  most `max_uses` times.
-/

namespace AlterChat.Commands

open Lib Governance Db

/-! ## 1. Rows only grow -/

/-- Every row stays, revoked if it was, with no fewer uses. -/
def Grows (t t' : Table String InviteRow) : Prop :=
  ∀ id row, t.lookup id = some row → ∃ row', t'.lookup id = some row' ∧
    (row.revoked = true → row'.revoked = true) ∧ row.uses ≤ row'.uses

theorem Grows.refl (t : Table String InviteRow) : Grows t t :=
  fun _ row h => ⟨row, h, id, Nat.le_refl _⟩

/-- An update that keeps revocations and uses. -/
theorem Grows.update (t : Table String InviteRow) (k : String) {f : InviteRow → InviteRow}
    (hf : ∀ row, (row.revoked = true → (f row).revoked = true) ∧ row.uses ≤ (f row).uses) :
    Grows t (t.update k f) := by
  intro id row h
  rw [Table.lookup_update]
  split
  · next hid =>
    subst hid
    rw [h]
    exact ⟨f row, rfl, hf row⟩
  · exact ⟨row, h, fun hx => hx, Nat.le_refl _⟩

theorem Grows.upsert (t : Table String InviteRow) (k : String) (new : InviteRow)
    {f : InviteRow → InviteRow}
    (hf : ∀ row, (row.revoked = true → (f row).revoked = true) ∧ row.uses ≤ (f row).uses) :
    Grows t (t.upsert k new f) := by
  intro id row h
  rw [Table.lookup_upsert]
  split
  · next hid =>
    subst hid
    rw [h]
    exact ⟨f row, rfl, hf row⟩
  · exact ⟨row, h, fun hx => hx, Nat.le_refl _⟩

/-- A write either takes effect or leaves the table. -/
theorem Grows.execute {f : Faults} {stmt : Stmt} {db db' : Database}
    (h : Grows db.roomInvites db'.roomInvites) :
    Grows db.roomInvites (execute f stmt db db').2.roomInvites := by
  rcases execute_cases f stmt db db' with ⟨-, he⟩ | ⟨e, -, he⟩ <;> rw [he]
  · exact h
  · exact .refl _

theorem revokeInvite_grows (f : Faults) (db : Database) (id : String) :
    Grows db.roomInvites (Db.revokeInvite f db id).2.roomInvites :=
  .execute (.update _ _ fun _ => ⟨fun _ => rfl, Nat.le_refl _⟩)

theorem saveInvite_grows (f : Faults) (db : Database) (id roomId json : String) (nowMs : Int64) :
    Grows db.roomInvites (saveInvite f db id roomId json nowMs).2.roomInvites :=
  .execute (.upsert _ _ _ fun _ => ⟨fun h => h, Nat.le_refl _⟩)

theorem markInviteRevoked_roomInvites (f : Faults) (db : Database) (id by_ : String)
    (nowMs : Int64) : (markInviteRevoked f db id by_ nowMs).2.roomInvites = db.roomInvites := by
  unfold markInviteRevoked execute
  cases f .markInviteRevoked <;> rfl

/-! ## 2. `accept_invite` and the row of the invite -/

/-- **What `accept_invite` needs of the row and does to it**: either it leaves `room_invites` alone,
    and then it accepts only what has no row; or there is a row, not revoked and with uses left, and
    it counts one use. -/
theorem acceptInviteDb_cases (W : Wire) (f : Faults) (db : Database) (token : InviteToken) :
    ((acceptInviteDb W f db token).2.roomInvites = db.roomInvites ∧
      ∀ r, (acceptInviteDb W f db token).1 = .ok r →
        db.roomInvites.lookup (inviteId W token) = none) ∨
    ∃ row, db.roomInvites.lookup (inviteId W token) = some row ∧ row.revoked = false ∧
      usesLeft token.maxUses row.uses = true ∧
      (acceptInviteDb W f db token).2.roomInvites =
        db.roomInvites.update (inviteId W token) fun row => { row with uses := row.uses + 1 } := by
  have hpeer := getPeerSettings_roomInvites f db token.issuerPeerId
  unfold acceptInviteDb
  simp only
  generalize getPeerSettings f db token.issuerPeerId = peer at hpeer ⊢
  obtain ⟨settings, db₁⟩ := peer
  simp only at hpeer ⊢
  split
  · exact .inl ⟨hpeer, nofun⟩
  · split
    · exact .inl ⟨hpeer, nofun⟩
    · next state hstate =>
      have hs := (query_ok hstate).2
      rw [hpeer] at hs
      split
      · exact .inl ⟨hpeer, nofun⟩
      · next hrev =>
        split
        · exact .inl ⟨hpeer, nofun⟩
        · next huse =>
          have hgroup := saveGroup_roomInvites f db₁ token.roomId token.roomPassword
          generalize saveGroup f db₁ token.roomId token.roomPassword = saved at hgroup ⊢
          obtain ⟨res, db₂⟩ := saved
          simp only at hgroup ⊢
          have h₂ : db₂.roomInvites = db.roomInvites := hgroup.trans hpeer
          split
          · next heq =>
            cases heq
            exact .inl ⟨h₂, nofun⟩
          · next heq =>
            cases heq
            split
            · exact .inl ⟨h₂, nofun⟩
            · next hagain =>
              have hn := (query_ok hagain).2
              rw [h₂, Option.map_eq_none_iff] at hn
              exact .inl ⟨h₂, fun _ _ => hn⟩
            · next again hagain =>
              have hn := (query_ok hagain).2
              rw [h₂] at hn
              obtain ⟨row, hrow, -⟩ := Option.map_eq_some_iff.mp hn
              rw [hrow, Option.map_some] at hs
              subst hs
              rcases incrementInviteUse_cases f db₂ (inviteId W token) with
                ⟨db₃, he, htable⟩ | ⟨e, he⟩
              · rw [he]
                exact .inr ⟨row, hrow, by simpa using hrev, by simpa using huse, h₂ ▸ htable⟩
              · rw [he]
                exact .inl ⟨h₂, nofun⟩

theorem acceptInviteDb_grows (W : Wire) (f : Faults) (db : Database) (token : InviteToken) :
    Grows db.roomInvites (acceptInviteDb W f db token).2.roomInvites := by
  rcases acceptInviteDb_cases W f db token with ⟨h, -⟩ | ⟨row, -, -, -, h⟩ <;> rw [h]
  · exact .refl _
  · exact .update _ _ fun _ => ⟨fun h => h, Nat.le_succ _⟩

/-! ## 3. Runs -/

/-- A call of `accept_invite` with a readable token: whether the invite had been revoked on the
    device before, and what the call returned. -/
structure Accept where
  token : InviteToken
  revokedBefore : Bool
  result : Except String (String × Option String)

/-- A device, the invites revoked on it so far, and the calls of `accept_invite` so far. -/
structure InviteWorld where
  device : Device
  revoked : List String
  accepts : List Accept

inductive InviteEvent (Keypair : Type) where
  | create (f : Faults) (loaded : Except String Keypair) (nowMs : Int64)
      (randomNonce : Vector UInt8 16) (roomId : String) (roomPassword : Option String)
      (expiresInSeconds : Option Int64) (maxUses : Option UInt32)
  | revoke (f : Faults) (inviteId : String)
  | revokeGlobal (f : Faults) (topicName peerId : String) (swarm : Bool) (nowMs : Int64)
      (inviteId : String)
  | receive (f : Faults) (nowMs : Int64) (data : Bytes)
  | accept (f : Faults) (nowMs : Int64) (tokenJson : String)

/-- A revocation that the session's connection has recorded, in one table or in both. -/
def recorded (f : Faults) (d : Device) (id : String) : List String :=
  if d.connDb.isSome ∧ (f .revokeInvite = none ∨ f .markInviteRevoked = none) then [id] else []

variable {Keypair Pub : Type}

/-- The invites an event revokes: by the command, where it returns `Ok`, or recorded by the event
    loop. -/
def InviteEvent.revokes (W : Wire) (d : Device) : InviteEvent Keypair → List String
  | .revoke f id => match (revokeInvite f d id).1 with
    | .ok () => [id]
    | .error _ => []
  | .revokeGlobal f _ _ _ _ id => recorded f d id
  | .receive f _ data => match W.announcementBytes.dec data with
    | some ann => recorded f d ann.inviteId
    | none => []
  | .create .. => []
  | .accept .. => []

/-- What an event does to the device. -/
def InviteEvent.run (S : Signatures Keypair Pub) (W : Wire) (d : Device) :
    InviteEvent Keypair → Device
  | .create f loaded nowMs randomNonce roomId roomPassword expiresInSeconds maxUses =>
    (createInvite S W f d loaded nowMs randomNonce roomId roomPassword expiresInSeconds maxUses).2
  | .revoke f id => (revokeInvite f d id).2
  | .revokeGlobal f topicName peerId swarm nowMs id =>
    (revokeInviteGlobal W f d topicName peerId swarm nowMs id).1
  | .receive f nowMs data => (receiveRevocation W f d nowMs data).1
  | .accept f nowMs tokenJson => (acceptInvite S W f d nowMs tokenJson).2

/-- The entry of an `accept_invite` call. -/
def InviteEvent.accepts (S : Signatures Keypair Pub) (W : Wire) (w : InviteWorld) :
    InviteEvent Keypair → List Accept
  | .accept f nowMs tokenJson => match W.tokenJson.dec tokenJson with
    | some token =>
      [{ token, revokedBefore := decide (inviteId W token ∈ w.revoked)
         result := (acceptInvite S W f w.device nowMs tokenJson).1 }]
    | none => []
  | _ => []

/-- The world after an event. -/
def InviteWorld.after (S : Signatures Keypair Pub) (W : Wire) (w : InviteWorld)
    (ev : InviteEvent Keypair) : InviteWorld where
  device := ev.run S W w.device
  revoked := w.revoked ++ ev.revokes W w.device
  accepts := w.accepts ++ ev.accepts S W w

/-- One event. -/
def InviteStep (S : Signatures Keypair Pub) (W : Wire) (w : InviteWorld) (ev : InviteEvent Keypair)
    (w' : InviteWorld) : Prop :=
  w' = w.after S W ev

/-- Any device, before the first event. -/
def InviteStart (w : InviteWorld) : Prop := w.revoked = [] ∧ w.accepts = []

/-! ## 4. No step loses a row -/

/-- The profile is kept on disk. -/
def Device.OnDisk (d : Device) : Prop := d.app.dbPath ≠ some ":memory:"

theorem initDb_onDisk {f : Faults} {d : Device} {db : Database} (h : d.initDb f = .ok db)
    (hd : d.OnDisk) : db = d.file := by
  unfold Device.initDb at h
  split at h
  · cases h
  · next path hp =>
    split at h
    · cases h
    · have := (query_ok h).2
      have hne : path ≠ ":memory:" := fun e => hd (e ▸ hp)
      rw [if_neg hne] at this
      exact this.symm

theorem close_onDisk {d : Device} (hd : d.OnDisk) (db : Database) :
    d.close db = { d with file := db } := if_neg hd

theorem close_app (d : Device) (db : Database) : (d.close db).app = d.app := by
  unfold Device.close
  split <;> rfl

/-- What a command leaves: the device, with its file grown. -/
structure Later (d d' : Device) : Prop where
  app : d'.app = d.app
  file : Grows d.file.roomInvites d'.file.roomInvites

theorem Later.refl (d : Device) : Later d d := ⟨rfl, .refl _⟩

theorem Later.onDisk {d d' : Device} (h : Later d d') (hd : d.OnDisk) : d'.OnDisk := by
  unfold Device.OnDisk
  rw [h.app]
  exact hd

theorem Later.close {d : Device} {f : Faults} {db db' : Database} (h : d.initDb f = .ok db)
    (hg : Grows db.roomInvites db'.roomInvites) : Later d (d.close db') where
  app := close_app d db'
  file := by
    by_cases hd : d.OnDisk
    · rw [close_onDisk hd]
      exact initDb_onDisk h hd ▸ hg
    · unfold Device.close
      rw [if_pos (not_not.mp hd)]
      exact .refl _

theorem Later.setConnDb {d : Device} {db db' : Database} (h : d.connDb = some db)
    (hg : Grows db.roomInvites db'.roomInvites) : Later d (d.setConnDb db') := by
  unfold Device.connDb at h
  unfold Device.setConnDb
  split at h
  · cases h
  · next hc =>
    cases h
    exact ⟨rfl, hg⟩
  · exact ⟨rfl, .refl _⟩

theorem createInvite_later (S : Signatures Keypair Pub) (W : Wire) (f : Faults) (d : Device)
    (loaded : Except String Keypair) (nowMs : Int64) (randomNonce : Vector UInt8 16)
    (roomId : String) (roomPassword : Option String) (expiresInSeconds : Option Int64)
    (maxUses : Option UInt32) :
    Later d (createInvite S W f d loaded nowMs randomNonce roomId roomPassword expiresInSeconds
      maxUses).2 := by
  unfold createInvite
  split
  · exact .refl d
  · next db hdb =>
    split
    · exact .refl d
    · split
      · exact .refl d
      · simp only
        split
        · exact .refl d
        · next token _ =>
          have hg := saveInvite_grows f db (inviteId W token) roomId (W.tokenJson.enc token) nowMs
          split <;> next heq =>
            rw [heq] at hg
            exact .close hdb hg

theorem revokeInvite_later (f : Faults) (d : Device) (id : String) :
    Later d (revokeInvite f d id).2 := by
  unfold revokeInvite
  split
  · exact .refl d
  · next db hdb => exact .close hdb (revokeInvite_grows f db id)

theorem revokeInviteGlobal_later (W : Wire) (f : Faults) (d : Device) (topicName peerId : String)
    (swarm : Bool) (nowMs : Int64) (id : String) :
    Later d (revokeInviteGlobal W f d topicName peerId swarm nowMs id).1 := by
  unfold revokeInviteGlobal
  split
  · exact .refl d
  · next db hdb =>
    refine .setConnDb hdb ?_
    rw [markInviteRevoked_roomInvites]
    exact revokeInvite_grows f db id

theorem receiveRevocation_later (W : Wire) (f : Faults) (d : Device) (nowMs : Int64)
    (data : Bytes) : Later d (receiveRevocation W f d nowMs data).1 := by
  unfold receiveRevocation
  split
  · exact .refl d
  · next db hdb =>
    refine .setConnDb hdb ?_
    unfold revocationMessage
    split
    · exact .refl _
    · next ann _ =>
      have hg := revokeInvite_grows f (markInviteRevoked f db ann.inviteId ann.revokedBy nowMs).2
        ann.inviteId
      rwa [markInviteRevoked_roomInvites] at hg

theorem acceptInvite_later (S : Signatures Keypair Pub) (W : Wire) (f : Faults) (d : Device)
    (nowMs : Int64) (tokenJson : String) : Later d (acceptInvite S W f d nowMs tokenJson).2 := by
  unfold acceptInvite
  split
  · exact .refl d
  · next token _ =>
    split
    · exact .refl d
    · split
      · exact .refl d
      · split
        · exact .refl d
        · next db hdb => exact .close hdb (acceptInviteDb_grows W f db token)

/-- **No event loses a row, a revocation or a use.** -/
theorem step_grows (S : Signatures Keypair Pub) (W : Wire) (d : Device) (ev : InviteEvent Keypair) :
    Later d (ev.run S W d) := by
  cases ev with
  | create f loaded nowMs randomNonce roomId roomPassword expiresInSeconds maxUses =>
    exact createInvite_later S W f d loaded nowMs randomNonce roomId roomPassword
      expiresInSeconds maxUses
  | revoke f id => exact revokeInvite_later f d id
  | revokeGlobal f topicName peerId swarm nowMs id =>
    exact revokeInviteGlobal_later W f d topicName peerId swarm nowMs id
  | receive f nowMs data => exact receiveRevocation_later W f d nowMs data
  | accept f nowMs tokenJson => exact acceptInvite_later S W f d nowMs tokenJson

/-! ## 5. Revoked stays revoked -/

/-- The database that `accept_invite` opens has a row for the invite. -/
def Device.HasRow (d : Device) (id : String) : Prop :=
  d.OnDisk ∧ ∃ row, d.file.roomInvites.lookup id = some row

/-- The row of the invite says revoked. -/
def Device.RowRevoked (d : Device) (id : String) : Prop :=
  d.OnDisk ∧ ∃ row, d.file.roomInvites.lookup id = some row ∧ row.revoked = true

/-- The event writes to `room_invites` of the profile's file. -/
def InviteEvent.Writes (d : Device) : InviteEvent Keypair → Prop
  | .revokeGlobal f .. => d.conn = .file ∧ f .revokeInvite = none
  | .receive f .. => d.conn = .file ∧ f .revokeInvite = none
  | _ => True

/-- The condition on a step: a revocation finds a row and can set it. -/
def FindsRow (W : Wire) (w : InviteWorld) (ev : InviteEvent Keypair) : Prop :=
  ∀ id ∈ ev.revokes W w.device, w.device.HasRow id ∧ ev.Writes w.device

theorem Later.rowRevoked {d d' : Device} (h : Later d d') {id : String} (hr : d.RowRevoked id) :
    d'.RowRevoked id := by
  obtain ⟨hdisk, row, hrow, hrev⟩ := hr
  obtain ⟨row', hrow', hrev', -⟩ := h.file id row hrow
  exact ⟨h.onDisk hdisk, row', hrow', hrev' hrev⟩

theorem lookup_revoked {f : Faults} {db : Database} {id : String} {row : InviteRow}
    (hf : f .revokeInvite = none) (h : db.roomInvites.lookup id = some row) :
    (Db.revokeInvite f db id).2.roomInvites.lookup id = some { row with revoked := true } := by
  rw [lookup_revokeInvite hf, if_pos rfl, h]
  rfl

/-- **A revocation that finds a row sets it.** -/
theorem revokes_sets (S : Signatures Keypair Pub) (W : Wire) {w : InviteWorld}
    {ev : InviteEvent Keypair} (hc : FindsRow W w ev) {id : String}
    (hid : id ∈ ev.revokes W w.device) : (ev.run S W w.device).RowRevoked id := by
  obtain ⟨⟨hdisk, row, hrow⟩, hw⟩ := hc id hid
  have hlater := step_grows S W w.device ev
  refine ⟨hlater.onDisk hdisk, { row with revoked := true }, ?_, rfl⟩
  cases ev with
  | create => cases hid
  | accept => cases hid
  | revoke f rid =>
    simp only [InviteEvent.revokes] at hid
    split at hid
    · next hok =>
      obtain rfl := List.mem_singleton.mp hid
      show (revokeInvite f w.device id).2.file.roomInvites.lookup id = _
      unfold revokeInvite at hok ⊢
      split at hok
      · cases hok
      · next db hdb =>
        have hf : f .revokeInvite = none := execute_ok hok
        obtain rfl := initDb_onDisk hdb hdisk
        show (w.device.close _).file.roomInvites.lookup id = _
        rw [close_onDisk hdisk]
        exact lookup_revoked hf hrow
    · cases hid
  | revokeGlobal f topicName peerId swarm nowMs rid =>
    obtain ⟨hconn, hf⟩ := hw
    simp only [InviteEvent.revokes, recorded] at hid
    split at hid
    · obtain rfl := List.mem_singleton.mp hid
      have hdb : w.device.connDb = some w.device.file := by rw [Device.connDb, hconn]
      show (revokeInviteGlobal W f w.device topicName peerId swarm nowMs
        id).1.file.roomInvites.lookup
        id = _
      rw [revokeInviteGlobal, hdb]
      simp only [Device.setConnDb, hconn, markInviteRevoked_roomInvites]
      exact lookup_revoked hf hrow
    · cases hid
  | receive f nowMs data =>
    obtain ⟨hconn, hf⟩ := hw
    simp only [InviteEvent.revokes, recorded] at hid
    split at hid
    · next ann hann =>
      split at hid
      · obtain rfl := List.mem_singleton.mp hid
        have hdb : w.device.connDb = some w.device.file := by rw [Device.connDb, hconn]
        show (receiveRevocation W f w.device nowMs data).1.file.roomInvites.lookup ann.inviteId = _
        rw [receiveRevocation, hdb]
        simp only [Device.setConnDb, hconn, revocationMessage, hann]
        refine lookup_revoked hf ?_
        rw [markInviteRevoked_roomInvites]
        exact hrow
      · cases hid
    · cases hid

/-- **A revoked row is refused.** -/
theorem acceptInvite_revoked (S : Signatures Keypair Pub) (W : Wire) (f : Faults) {d : Device}
    (nowMs : Int64) {tokenJson : String} {token : InviteToken}
    (ht : W.tokenJson.dec tokenJson = some token) (hr : d.RowRevoked (inviteId W token))
    (r : String × Option String) : (acceptInvite S W f d nowMs tokenJson).1 ≠ .ok r := by
  obtain ⟨hdisk, row, hrow, hrev⟩ := hr
  unfold acceptInvite
  rw [ht]
  simp only
  split
  · nofun
  · split
    · nofun
    · split
      · nofun
      · next db hdb =>
        rw [← initDb_onDisk hdb hdisk] at hrow
        intro hok
        rcases acceptInviteDb_cases W f db token with ⟨-, h⟩ | ⟨row', hrow', hrev', -⟩
        · rw [h r hok] at hrow
          cases hrow
        · rw [hrow] at hrow'
          cases hrow'
          rw [hrev] at hrev'
          cases hrev'

/-- The invariant: every revoked invite has its row set, and none was accepted after. -/
structure Revoked (w : InviteWorld) : Prop where
  rows : ∀ id ∈ w.revoked, w.device.RowRevoked id
  refused : ∀ a ∈ w.accepts, a.revokedBefore = true → ∀ r, a.result ≠ .ok r

theorem revoked_step {S : Signatures Keypair Pub} {W : Wire} {w w' : InviteWorld}
    {ev : InviteEvent Keypair} (h : Revoked w) (hc : FindsRow W w ev)
    (hs : InviteStep S W w ev w') : Revoked w' := by
  cases hs
  constructor
  · intro id hid
    rcases List.mem_append.mp hid with hold | hnew
    · exact (step_grows S W w.device ev).rowRevoked (h.rows id hold)
    · exact revokes_sets S W hc hnew
  · intro a ha hbefore
    rcases List.mem_append.mp ha with hold | hnew
    · exact h.refused a hold hbefore
    · cases ev with
      | accept f nowMs tokenJson =>
        simp only [InviteEvent.accepts] at hnew
        split at hnew
        · next token ht =>
          obtain rfl := List.mem_singleton.mp hnew
          exact acceptInvite_revoked S W f nowMs ht (h.rows _ (of_decide_eq_true hbefore))
        · cases hnew
      | _ => cases hnew

/-- **Revocation is effective where it finds a row**: in every run in which each revocation finds a
    `room_invites` row for its invite, every later `accept_invite` of the invite returns `Err`. -/
theorem revoked_stays_revoked (S : Signatures Keypair Pub) (W : Wire) (w : InviteWorld)
    (h : Reach InviteStart (Guarded (FindsRow W) (InviteStep S W)) w) :
    ∀ a ∈ w.accepts, a.revokedBefore = true → ∀ r, a.result ≠ .ok r := by
  have hinv : Revoked w := by
    refine Reach.inv (I := Revoked) (fun w hw => ?_) (fun w ev w' hi hs => ?_) h
    · obtain ⟨h1, h2⟩ := hw
      refine ⟨fun id hid => ?_, fun a ha => ?_⟩
      · rw [h1] at hid
        cases hid
      · rw [h2] at ha
        cases ha
    · exact revoked_step hi hs.1 hs.2
  exact hinv.refused

/-! ## 6. The use limit -/

/-- How often the token has been accepted on the device. -/
def InviteWorld.uses (w : InviteWorld) (token : InviteToken) : Nat :=
  w.accepts.countP fun a => decide (a.token = token) && a.result.isOk

/-- The condition on a step: an `accept_invite` of the token finds a row. -/
def FindsRowToAccept (W : Wire) (token : InviteToken) (w : InviteWorld) :
    InviteEvent Keypair → Prop
  | .accept _ _ tokenJson =>
    W.tokenJson.dec tokenJson = some token → w.device.HasRow (inviteId W token)
  | _ => True

/-- The invariant: the row has counted every use, and there are at most `m`. -/
def Counted (W : Wire) (token : InviteToken) (m : Nat) (w : InviteWorld) : Prop :=
  w.uses token = 0 ∨ (w.uses token ≤ m ∧ w.device.OnDisk ∧
    ∃ row, w.device.file.roomInvites.lookup (inviteId W token) = some row ∧ w.uses token ≤ row.uses)

/-- An `accept_invite` that finds a row and returns `Ok` had uses left, and has counted one. -/
theorem acceptInvite_counts (S : Signatures Keypair Pub) (W : Wire) (f : Faults) {d : Device}
    (nowMs : Int64) {tokenJson : String} {token : InviteToken}
    (ht : W.tokenJson.dec tokenJson = some token) (hr : d.HasRow (inviteId W token))
    {r : String × Option String} (hok : (acceptInvite S W f d nowMs tokenJson).1 = .ok r) :
    ∃ row, d.file.roomInvites.lookup (inviteId W token) = some row ∧
      usesLeft token.maxUses row.uses = true ∧
      (acceptInvite S W f d nowMs tokenJson).2.file.roomInvites.lookup (inviteId W token) =
        some { row with uses := row.uses + 1 } := by
  obtain ⟨hdisk, row, hrow⟩ := hr
  unfold acceptInvite at hok ⊢
  rw [ht] at hok ⊢
  simp only at hok ⊢
  split at hok
  · cases hok
  · split at hok
    · cases hok
    · next he =>
      rw [if_neg he]
      split at hok
      · cases hok
      · next db hdb =>
        have hfile := initDb_onDisk hdb hdisk
        rcases acceptInviteDb_cases W f db token with ⟨-, h⟩ | ⟨row', hrow', -, huse, htable⟩
        · rw [← hfile, h r hok] at hrow
          cases hrow
        · refine ⟨row', hfile ▸ hrow', huse, ?_⟩
          show (d.close _).file.roomInvites.lookup _ = _
          rw [close_onDisk hdisk]
          show (acceptInviteDb W f db token).2.roomInvites.lookup _ = _
          rw [htable, Table.lookup_update, if_pos rfl, hrow']
          rfl

theorem counted_step {S : Signatures Keypair Pub} {W : Wire} {token : InviteToken} {m : UInt32}
    (hm : token.maxUses = some m) {w w' : InviteWorld} {ev : InviteEvent Keypair}
    (h : Counted W token m.toNat w) (hc : FindsRowToAccept W token w ev)
    (hs : InviteStep S W w ev w') : Counted W token m.toNat w' := by
  cases hs
  have hlater := step_grows S W w.device ev
  -- an event that does not accept the token
  have hkeep : (ev.accepts S W w).countP (fun a => decide (a.token = token) && a.result.isOk) = 0 →
      Counted W token m.toNat (w.after S W ev) := by
    intro h0
    have huses : (w.after S W ev).uses token = w.uses token := by
      simp only [InviteWorld.uses, InviteWorld.after, List.countP_append, h0, Nat.add_zero]
    unfold Counted
    rw [huses]
    rcases h with hz | ⟨hle, hdisk, row, hrow, huse⟩
    · exact .inl hz
    · obtain ⟨row', hrow', -, huse'⟩ := hlater.file _ row hrow
      exact .inr ⟨hle, hlater.onDisk hdisk, row', hrow', Nat.le_trans huse huse'⟩
  cases ev with
  | accept f nowMs tokenJson =>
    cases ht : W.tokenJson.dec tokenJson with
    | none => exact hkeep (by simp [InviteEvent.accepts, ht])
    | some t =>
      by_cases htok : t = token
      · subst htok
        cases hres : (acceptInvite S W f w.device nowMs tokenJson).1 with
        | error e =>
          exact hkeep (by simp [InviteEvent.accepts, ht, hres, Except.isOk, Except.toBool])
        | ok r =>
          obtain ⟨row, hrow, hleft, hafter⟩ := acceptInvite_counts S W f nowMs ht (hc ht) hres
          have hlt : row.uses < m.toNat := by simpa [usesLeft, hm] using hleft
          have hone : (w.after S W (.accept f nowMs tokenJson)).uses t = w.uses t + 1 := by
            simp [InviteWorld.uses, InviteWorld.after, InviteEvent.accepts, ht, hres, Except.isOk,
              Except.toBool]
          have hle : w.uses t ≤ row.uses := by
            rcases h with hz | ⟨-, -, row', hrow', huse⟩
            · omega
            · rw [hrow] at hrow'
              cases hrow'
              exact huse
          refine .inr ⟨?_, hlater.onDisk (hc ht).1, _, hafter, ?_⟩
          · rw [hone]
            omega
          · rw [hone]
            exact Nat.succ_le_succ hle
      · exact hkeep (by simp [InviteEvent.accepts, ht, htok])
  | _ => exact hkeep rfl

/-- **The use limit holds where the token has a row**: in every run in which each `accept_invite` of
    the token finds a `room_invites` row for it, at most `max_uses` of them return `Ok`. -/
theorem uses_limited (S : Signatures Keypair Pub) (W : Wire) (token : InviteToken) (m : UInt32)
    (hm : token.maxUses = some m) (w : InviteWorld)
    (h : Reach InviteStart (Guarded (FindsRowToAccept W token) (InviteStep S W)) w) :
    w.uses token ≤ m.toNat := by
  have hinv : Counted W token m.toNat w := by
    refine Reach.inv (I := Counted W token m.toNat) (fun w hw => ?_) (fun w ev w' hi hs => ?_) h
    · exact .inl (by rw [InviteWorld.uses, hw.2]; rfl)
    · exact counted_step hm hi hs.1 hs.2
  rcases hinv with hz | ⟨hle, -⟩
  · omega
  · exact hle

/-! ## 7. A device without a row -/

/-- Nothing in the database speaks about the token: no row for the invite, no setting for its
    issuer, no trust threshold. -/
structure Unlisted (W : Wire) (db : Database) (token : InviteToken) : Prop where
  row : db.roomInvites.lookup (inviteId W token) = none
  issuer : ∀ s, db.peerSettings.lookup token.issuerPeerId = some s → s = .default
  setting : db.appSettings.lookup "min_trust_invite" = none
  legacy : db.settings.lookup "min_trust_invite" = none

/-- **Where there is no row the token is accepted, and there is still no row.** -/
theorem acceptInviteDb_unlisted {W : Wire} {db : Database} {token : InviteToken}
    (h : Unlisted W db token) :
    (acceptInviteDb W noFaults db token).1 = .ok (token.roomId, token.roomPassword) ∧
      Unlisted W (acceptInviteDb W noFaults db token).2 token := by
  have hload : loadSetting noFaults db "min_trust_invite" = .ok none := by
    simp [loadSetting, h.setting, h.legacy]
  have hpeer : getPeerSettings noFaults db token.issuerPeerId =
      (.ok .default,
        { db with
          peerSettings := db.peerSettings.insertIgnore token.issuerPeerId .default }) := by
    simp only [getPeerSettings, execute_noFaults, query_noFaults, Table.lookup_insertIgnore, if_pos]
    cases hs : db.peerSettings.lookup token.issuerPeerId with
    | none => rfl
    | some s => rw [h.issuer s hs]; rfl
  have hdb : acceptInviteDb W noFaults db token = (.ok (token.roomId, token.roomPassword),
      { db with
        peerSettings := db.peerSettings.insertIgnore token.issuerPeerId .default
        savedGroups := db.savedGroups.upsert token.roomId
          { RoomSettings.default with password := token.roomPassword }
          fun g => { g with password := token.roomPassword }
        roomSettings := db.roomSettings.insertIgnore token.roomId .default }) := by
    have hmin :
      ((((loadSetting noFaults db "min_trust_invite").toOption).join).bind parseI64).getD 0 =
        0 := by rw [hload]; rfl
    have htrust : issuerTrusted (.ok .default) 0 = true := by decide
    simp [acceptInviteDb, hmin, hpeer, htrust, getInviteState, h.row, saveGroup]
  rw [hdb]
  refine ⟨rfl, h.row, fun s hs => ?_, h.setting, h.legacy⟩
  rw [Table.lookup_insertIgnore, if_pos rfl] at hs
  cases hs
  cases hs' : db.peerSettings.lookup token.issuerPeerId with
  | none => rfl
  | some s => exact h.issuer s hs'

/-- A logged-in device on disk to which a valid token is new. -/
structure Door (S : Signatures Keypair Pub) (W : Wire) (d : Device) (token : InviteToken)
    (nowMs : Int64) : Prop where
  onDisk : d.OnDisk
  path : d.app.dbPath.isSome = true
  key : d.app.dbKey.isSome = true
  verified : verifyInvite S W token = .ok ()
  unexpired : isInviteExpired token nowMs = false
  unlisted : Unlisted W d.file token

theorem Door.initDb {S : Signatures Keypair Pub} {W : Wire} {d : Device} {token : InviteToken}
    {nowMs : Int64} (h : Door S W d token nowMs) : d.initDb noFaults = .ok d.file := by
  obtain ⟨path, hp⟩ := Option.isSome_iff_exists.mp h.path
  obtain ⟨key, hk⟩ := Option.isSome_iff_exists.mp h.key
  have hne : path ≠ ":memory:" := fun e => h.onDisk (e ▸ hp)
  simp [Device.initDb, hp, hk, hne]

/-- **Such a device accepts, and is such a device again.** -/
theorem Door.accept {S : Signatures Keypair Pub} {W : Wire} {d : Device} {token : InviteToken}
    {nowMs : Int64} (h : Door S W d token nowMs) :
    (acceptInvite S W noFaults d nowMs (W.tokenJson.enc token)).1 =
        .ok (token.roomId, token.roomPassword) ∧
      Door S W (acceptInvite S W noFaults d nowMs (W.tokenJson.enc token)).2 token nowMs := by
  obtain ⟨hres, hun⟩ := acceptInviteDb_unlisted h.unlisted
  have hacc : acceptInvite S W noFaults d nowMs (W.tokenJson.enc token) =
      ((acceptInviteDb W noFaults d.file token).1,
        { d with file := (acceptInviteDb W noFaults d.file token).2 }) := by
    simp [acceptInvite, h.verified, h.unexpired, h.initDb, close_onDisk h.onDisk]
  rw [hacc]
  exact ⟨hres, h.onDisk, h.path, h.key, h.verified, h.unexpired, hun⟩

/-- **Without a row there is no limit**: the token is accepted as often as it is tried. -/
theorem door_unlimited {S : Signatures Keypair Pub} {W : Wire} {d : Device} {token : InviteToken}
    {nowMs : Int64} (h : Door S W d token nowMs) (n : Nat) :
    ∃ w, Reach InviteStart (InviteStep S W) w ∧ w.uses token = n ∧
    Door S W w.device token nowMs := by
  induction n with
  | zero => exact ⟨⟨d, [], []⟩, .start _ ⟨rfl, rfl⟩, rfl, h⟩
  | succ n ih =>
    obtain ⟨w, hreach, huses, hdoor⟩ := ih
    obtain ⟨hres, hdoor'⟩ := hdoor.accept
    refine ⟨w.after S W (.accept noFaults nowMs (W.tokenJson.enc token)),
      hreach.step _ _ _ rfl, ?_, hdoor'⟩
    simp [InviteWorld.uses, InviteWorld.after, InviteEvent.accepts, hres, Except.isOk,
      Except.toBool, ← huses]

theorem Unlisted.revocationMessage {W : Wire} {db : Database} {token : InviteToken}
    (h : Unlisted W db token) (f : Faults) (nowMs : Int64) (data : Bytes) :
    Unlisted W (revocationMessage W f db nowMs data).1 token := by
  unfold Commands.revocationMessage
  split
  · exact h
  · next ann _ =>
    simp only [markInviteRevoked, Db.revokeInvite, execute]
    cases f .markInviteRevoked <;> cases f .revokeInvite <;>
      refine ⟨?_, h.issuer, h.setting, h.legacy⟩
    case none.none =>
      show (db.roomInvites.update _ _).lookup _ = none
      rw [Table.lookup_update]
      split
      · next hid => rw [← hid, h.row]; rfl
      · exact h.row
    case some.none =>
      show (db.roomInvites.update _ _).lookup _ = none
      rw [Table.lookup_update]
      split
      · next hid => rw [← hid, h.row]; rfl
      · exact h.row
    case none.some => exact h.row
    case some.some => exact h.row

/-- **A received revocation closes no door**: the device accepts afterwards. -/
theorem Door.receive {S : Signatures Keypair Pub} {W : Wire} {d : Device} {token : InviteToken}
    {nowMs : Int64} (h : Door S W d token nowMs) (hc : d.conn = .file) (f : Faults) (t : Int64)
    (data : Bytes) : Door S W (receiveRevocation W f d t data).1 token nowMs := by
  have hdb : d.connDb = some d.file := by rw [Device.connDb, hc]
  have hd : (receiveRevocation W f d t data).1 =
      { d with file := (Commands.revocationMessage W f d.file t data).1 } := by
    rw [receiveRevocation, hdb]
    simp only [Device.setConnDb, hc]
  rw [hd]
  exact ⟨h.onDisk, h.path, h.key, h.verified, h.unexpired, h.unlisted.revocationMessage f t data⟩

/-- An announcement is received, then the token is accepted. -/
def lateAccept (S : Signatures Keypair Pub) (W : Wire) (d : Device) (token : InviteToken)
    (nowMs : Int64) (ann : RevocationAnnouncement) : InviteWorld :=
  ((⟨d, [], []⟩ : InviteWorld).after S W (.receive noFaults nowMs
    (W.announcementBytes.enc ann))).after S W (.accept noFaults nowMs (W.tokenJson.enc token))

theorem lateAccept_ok {S : Signatures Keypair Pub} {W : Wire} {d : Device} {token : InviteToken}
    {nowMs : Int64} (h : Door S W d token nowMs) (hc : d.conn = .file)
    (ann : RevocationAnnouncement) (hann : ann.inviteId = inviteId W token) :
    Reach InviteStart (InviteStep S W) (lateAccept S W d token nowMs ann) ∧
      (lateAccept S W d token nowMs ann).accepts =
        [{ token, revokedBefore := true, result := .ok (token.roomId, token.roomPassword) }] := by
  constructor
  · exact (Reach.step _ _ _ (.start _ ⟨rfl, rfl⟩) rfl).step _ _ _ rfl
  · obtain ⟨hok, -⟩ := (h.receive hc noFaults nowMs (W.announcementBytes.enc ann)).accept
    have hrev : (InviteEvent.receive noFaults nowMs (W.announcementBytes.enc ann) :
        InviteEvent Keypair).revokes W d = [inviteId W token] := by
      simp [InviteEvent.revokes, recorded, Device.connDb, hc, hann, noFaults]
    simp [lateAccept, InviteWorld.after, InviteEvent.accepts, InviteEvent.run, hrev, hok]

/-! ## 8. Short runs -/

/-- An invite for one use, before it is signed. -/
def sampleUnsigned : InviteToken where
  roomId := "room-a"
  roomPassword := none
  issuerPeerId := Signatures.tagged.peerId 0
  issuerPublicKey := Signatures.tagged.encodePublic 0
  subjectPeerId := none
  expiresAt := none
  maxUses := some 1
  capabilities := inviteCapabilities
  nonce := Vector.replicate 16 0
  signature := []

/-- The invite, signed by its issuer. -/
def sampleToken : InviteToken :=
  { sampleUnsigned with
    signature := Signatures.tag 0 (inviteSigningBytes .numbered sampleUnsigned) }

theorem sampleToken_verified : verifyInvite Signatures.tagged .numbered sampleToken = .ok () := by
  have hs : Signatures.tagged.sign 0 (inviteSigningBytes .numbered sampleUnsigned) =
      .ok sampleToken.signature := rfl
  exact verifySigned_of_sign Signatures.tagged_lawful hs _ _

/-- A logged-in device that has never heard of the invite. -/
def inviteeDevice : Device where
  app := { dbPath := some "alterchat.db", dbKey := some "key", keyPath := some "keypair.bin" }
  file := .empty
  conn := .file

theorem inviteeDevice_door : Door Signatures.tagged .numbered inviteeDevice sampleToken 0 where
  onDisk := by simp [Device.OnDisk, inviteeDevice]
  path := rfl
  key := rfl
  verified := sampleToken_verified
  unexpired := rfl
  unlisted := ⟨rfl, nofun, rfl, rfl⟩

/-- A token for one use, accepted twice. -/
theorem use_limit_exceeded : ∃ w, Reach InviteStart (InviteStep Signatures.tagged .numbered) w ∧
    verifyInvite Signatures.tagged .numbered sampleToken = .ok () ∧ sampleToken.maxUses = some 1 ∧
    ¬ w.uses sampleToken ≤ (1 : UInt32).toNat := by
  obtain ⟨w, hreach, huses, -⟩ := door_unlimited inviteeDevice_door 2
  refine ⟨w, hreach, sampleToken_verified, rfl, ?_⟩
  rw [huses]
  decide

/-- The issuer's announcement that the sample invite is revoked. -/
def sampleRevocation : RevocationAnnouncement where
  inviteId := inviteId .numbered sampleToken
  roomId := "room-a"
  revokedBy := Signatures.tagged.peerId 0
  revokedAt := 0
  signature := []

/-- The recorded revocation does not keep the device from accepting. -/
theorem revoked_then_accepted : ∃ w, Reach InviteStart (InviteStep Signatures.tagged .numbered) w ∧
    ∃ a ∈ w.accepts, a.token = sampleToken ∧ a.revokedBefore = true ∧ ∃ r, a.result = .ok r := by
  obtain ⟨hreach, hacc⟩ := lateAccept_ok inviteeDevice_door rfl sampleRevocation rfl
  have hmem := hacc ▸ List.mem_singleton_self _
  exact ⟨_, hreach, _, hmem, rfl, rfl, _, rfl⟩

/-- The issuer's device: it has the row. -/
def issuerDevice : Device :=
  { inviteeDevice with
    file := { Database.empty with
      roomInvites := (∅ : Table String InviteRow).insert (inviteId .numbered sampleToken)
        { roomId := "room-a", tokenJson := Wire.numbered.tokenJson.enc sampleToken
          revoked := false, uses := 0, createdAt := 0 } } }

theorem hasRow_insert {d : Device} (hd : d.OnDisk) (db : Database) (t : Table String InviteRow)
    (id : String) (row : InviteRow) :
    ({ d with file := { db with roomInvites := t.insert id row } } : Device).HasRow id :=
  ⟨hd, row, AList.lookup_insert t⟩

theorem issuerDevice_hasRow : issuerDevice.HasRow (inviteId .numbered sampleToken) :=
  hasRow_insert inviteeDevice_door.onDisk .empty ∅ _ _

/-- The revocation command on a device with a row. -/
theorem findsRow_revoke {W : Wire} {w : InviteWorld} {f : Faults} {id : String}
    (h : w.device.HasRow id) : FindsRow W w (.revoke f id : InviteEvent Keypair) := by
  intro id' hid
  simp only [InviteEvent.revokes] at hid
  split at hid
  · obtain rfl := List.mem_singleton.mp hid
    exact ⟨h, trivial⟩
  · cases hid

theorem findsRow_accept {W : Wire} {w : InviteWorld} {f : Faults} {nowMs : Int64}
    {tokenJson : String} : FindsRow W w (.accept f nowMs tokenJson : InviteEvent Keypair) :=
  fun _ hid => absurd hid List.not_mem_nil

/-- The invite is revoked by the command, then the token is tried. -/
def revokeThenAccept (S : Signatures Keypair Pub) (W : Wire) (d : Device) (token : InviteToken) :
    InviteWorld :=
  ((⟨d, [], []⟩ : InviteWorld).after S W (.revoke noFaults (inviteId W token))).after S W
    (.accept noFaults 0 (W.tokenJson.enc token))

theorem revokeThenAccept_reach (S : Signatures Keypair Pub) (W : Wire) {d : Device}
    {token : InviteToken} (h : d.HasRow (inviteId W token)) :
    Reach InviteStart (Guarded (FindsRow W) (InviteStep S W)) (revokeThenAccept S W d token) :=
  .step _ _ _ (.step _ _ _ (.start _ ⟨rfl, rfl⟩) ⟨findsRow_revoke h, rfl⟩)
    ⟨findsRow_accept, rfl⟩

/-- On the issuer's device. -/
theorem revoked_stays_revoked_issuer :
    Reach InviteStart (Guarded (FindsRow .numbered) (InviteStep Signatures.tagged .numbered))
      (revokeThenAccept Signatures.tagged .numbered issuerDevice sampleToken) ∧
    ∀ a ∈ (revokeThenAccept Signatures.tagged .numbered issuerDevice sampleToken).accepts,
      a.revokedBefore = true → ∀ r, a.result ≠ .ok r :=
  have hreach := revokeThenAccept_reach Signatures.tagged .numbered issuerDevice_hasRow
  ⟨hreach, revoked_stays_revoked Signatures.tagged .numbered _ hreach⟩

/-- Where a row has uses left and nothing is known of the issuer, the token is accepted. -/
theorem acceptInviteDb_listed {W : Wire} {db : Database} {token : InviteToken} {row : InviteRow}
    (hrow : db.roomInvites.lookup (inviteId W token) = some row) (hopen : row.revoked = false)
    (hleft : usesLeft token.maxUses row.uses = true)
    (hissuer : db.peerSettings.lookup token.issuerPeerId = none)
    (hsetting : db.appSettings.lookup "min_trust_invite" = none)
    (hlegacy : db.settings.lookup "min_trust_invite" = none) :
    (acceptInviteDb W noFaults db token).1 = .ok (token.roomId, token.roomPassword) := by
  have hload : loadSetting noFaults db "min_trust_invite" = .ok none := by
    simp [loadSetting, hsetting, hlegacy]
  have hpeer : getPeerSettings noFaults db token.issuerPeerId =
      (.ok .default,
        { db with
          peerSettings := db.peerSettings.insertIgnore token.issuerPeerId .default }) := by
    simp [getPeerSettings, Table.lookup_insertIgnore, hissuer]
  have hmin :
    ((((loadSetting noFaults db "min_trust_invite").toOption).join).bind parseI64).getD 0 =
      0 := by rw [hload]; rfl
  have htrust : issuerTrusted (.ok .default) 0 = true := by decide
  simp [acceptInviteDb, hmin, hpeer, htrust, getInviteState, hrow, hopen, hleft, saveGroup,
    incrementInviteUse]

theorem acceptInvite_opened {S : Signatures Keypair Pub} {W : Wire} {d : Device} {db : Database}
    {token : InviteToken} {nowMs : Int64} (hverified : verifyInvite S W token = .ok ())
    (hunexpired : isInviteExpired token nowMs = false) (hdb : d.initDb noFaults = .ok db) :
    (acceptInvite S W noFaults d nowMs (W.tokenJson.enc token)).1 =
      (acceptInviteDb W noFaults db token).1 := by
  simp [acceptInvite, hverified, hunexpired, hdb]

theorem issuerDevice_row : issuerDevice.file.roomInvites.lookup (inviteId .numbered sampleToken) =
    some { roomId := "room-a", tokenJson := Wire.numbered.tokenJson.enc sampleToken
           revoked := false, uses := 0, createdAt := 0 } :=
  AList.lookup_insert (∅ : Table String InviteRow)

theorem issuerDevice_accepts :
    (acceptInvite Signatures.tagged .numbered noFaults issuerDevice 0
      (Wire.numbered.tokenJson.enc sampleToken)).1 =
        .ok (sampleToken.roomId, sampleToken.roomPassword) := by
  have hdb : issuerDevice.initDb noFaults = .ok issuerDevice.file := by
    simp [Device.initDb, issuerDevice, inviteeDevice]
  have hexpiry : isInviteExpired sampleToken 0 = false := rfl
  exact (acceptInvite_opened sampleToken_verified hexpiry hdb).trans
    (acceptInviteDb_listed issuerDevice_row rfl rfl rfl rfl rfl)

/-- The token is tried twice. -/
def acceptTwice (S : Signatures Keypair Pub) (W : Wire) (d : Device) (token : InviteToken) :
    InviteWorld :=
  ((⟨d, [], []⟩ : InviteWorld).after S W (.accept noFaults 0 (W.tokenJson.enc token))).after S W
    (.accept noFaults 0 (W.tokenJson.enc token))

section

variable {S : Signatures Keypair Pub} {W : Wire} {d : Device} {token : InviteToken}

theorem acceptTwice_length : (acceptTwice S W d token).accepts.length = 2 := by
  simp [acceptTwice, InviteWorld.after, InviteEvent.accepts]

/-- The first try leaves the row for the second to find. -/
theorem acceptTwice_reach {r : String × Option String} (hr : d.HasRow (inviteId W token))
    (hok : (acceptInvite S W noFaults d 0 (W.tokenJson.enc token)).1 = .ok r) :
    Reach InviteStart (Guarded (FindsRowToAccept W token) (InviteStep S W))
      (acceptTwice S W d token) := by
  have hdec : W.tokenJson.dec (W.tokenJson.enc token) = some token := Codec.dec_enc ..
  obtain ⟨row, -, -, hrow⟩ := acceptInvite_counts S W noFaults 0 hdec hr hok
  have hdisk := (acceptInvite_later S W noFaults d 0 (W.tokenJson.enc token)).onDisk hr.1
  let w₀ : InviteWorld := ⟨d, [], []⟩
  let ev : InviteEvent Keypair := .accept noFaults 0 (W.tokenJson.enc token)
  have h₁ : FindsRowToAccept W token w₀ ev := fun _ => hr
  have h₂ : FindsRowToAccept W token (w₀.after S W ev) ev := fun _ => ⟨hdisk, _, hrow⟩
  exact .step _ _ _ (.step _ _ _ (.start w₀ ⟨rfl, rfl⟩) ⟨h₁, rfl⟩) ⟨h₂, rfl⟩

theorem acceptTwice_uses {r : String × Option String}
    (hok : (acceptInvite S W noFaults d 0 (W.tokenJson.enc token)).1 = .ok r) :
    1 ≤ (acceptTwice S W d token).uses token := by
  simp [acceptTwice, InviteWorld.uses, InviteWorld.after, InviteEvent.accepts, hok, Except.isOk,
    Except.toBool]

end

/-- On the issuer's device: of two tries one is accepted. -/
theorem uses_limited_issuer :
    (acceptTwice Signatures.tagged .numbered issuerDevice sampleToken).accepts.length = 2 ∧
    (acceptTwice Signatures.tagged .numbered issuerDevice sampleToken).uses sampleToken = 1 := by
  have hle : (acceptTwice Signatures.tagged .numbered issuerDevice sampleToken).uses sampleToken ≤
      (1 : UInt32).toNat :=
    uses_limited Signatures.tagged .numbered sampleToken 1 rfl _
      (acceptTwice_reach issuerDevice_hasRow issuerDevice_accepts)
  exact ⟨acceptTwice_length, Nat.le_antisymm hle (acceptTwice_uses issuerDevice_accepts)⟩

end AlterChat.Commands
