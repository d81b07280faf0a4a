import AlterChat.Tauri.Invites

/-!
# Who may be admitted by an invite

What `accept_invite` asks before it saves the group, and what it does not: `subject_peer_id` is
signed and never compared with the peer the command runs for.

* §1 `Admissible` and `Admits` -- what an admission is to mean, over the stored rows alone;
* §2 `Saves`, `Completes` -- when `save_group` is reached, and when nothing fails after it;
* `acceptInvite_admits_iff` -- when the two agree;
* `admits_named_token` -- a token made out to one peer is accepted by another.
-/

namespace AlterChat.Commands

open Lib Governance Db

variable {Keypair Pub : Type}

/-! ## 1. Admission -/

/-- The stored settings of a peer: its row, or the column defaults. -/
def peerSettingsOf (db : Database) (peerId : String) : PeerSettings :=
  (db.peerSettings.lookup peerId).getD .default

/-- The configured `min_trust_invite`; without one, or where it is no number, it is 0. -/
def configuredMinTrust (db : Database) : Int64 :=
  (((db.appSettings.lookup "min_trust_invite").or
    (db.settings.lookup "min_trust_invite")).bind parseI64).getD 0

/-- The database a command of the device opens. -/
def Device.opened (d : Device) : Database :=
  if d.app.dbPath = some ":memory:" then .empty else d.file

/-- The issuer is not blocked and trusted enough. -/
structure IssuerTrusted (db : Database) (issuer : String) : Prop where
  unblocked : (peerSettingsOf db issuer).blocked = false
  level : configuredMinTrust db ≤ (peerSettingsOf db issuer).trustLevel

/-- The token names no subject, or this peer. -/
def MadeOutTo (token : InviteToken) (localPeer : String) : Prop :=
  ∀ subject, token.subjectPeerId = some subject → subject = localPeer

/-- What has to hold of a token that admits a peer. -/
structure Admissible (S : Signatures Keypair Pub) (W : Wire) (db : Database) (localPeer : String)
    (nowMs : Int64) (token : InviteToken) : Prop where
  signed : ∃ key, S.decodePublic token.issuerPublicKey = .ok key ∧
    S.peerId key = token.issuerPeerId ∧
    S.verify key (inviteSigningBytes W token) token.signature = true
  unexpired : ∀ expires, token.expiresAt = some expires → nowMs ≤ expires
  issuer : IssuerTrusted db token.issuerPeerId
  subject : MadeOutTo token localPeer

/-- The groups, the room settings and the invites are those from before. Rows are compared by their
    key: a row that is written over with the same values is the same. -/
structure Untouched (db db' : Database) : Prop where
  savedGroups : ∀ name, db'.savedGroups.lookup name = db.savedGroups.lookup name
  roomSettings : ∀ name, db'.roomSettings.lookup name = db.roomSettings.lookup name
  roomInvites : ∀ id, db'.roomInvites.lookup id = db.roomInvites.lookup id

/-- **Admission**: `accept_invite` returns `Ok` for an admissible token, or it returns an error and
    has saved nothing. -/
def Admits (S : Signatures Keypair Pub) (W : Wire) (f : Faults) (d : Device) (localPeer : String)
    (nowMs : Int64) (tokenJson : String) : Prop :=
  (∃ token, W.tokenJson.dec tokenJson = some token ∧
    (acceptInvite S W f d nowMs tokenJson).1 = .ok (token.roomId, token.roomPassword) ∧
    Admissible S W d.opened localPeer nowMs token) ∨
  ∃ e, (acceptInvite S W f d nowMs tokenJson).1 = .error e ∧
    Untouched d.file (acceptInvite S W f d nowMs tokenJson).2.file

/-! ## 2. From the open database on -/

/-- The checks on the database pass and `save_group` begins to write. -/
structure Saves (W : Wire) (f : Faults) (db : Database) (token : InviteToken) : Prop where
  trusted : issuerTrusted (getPeerSettings f db token.issuerPeerId).1
    (((((loadSetting f db "min_trust_invite").toOption).join).bind parseI64).getD 0) = true
  state : f (.getInviteState false) = none
  row : ∀ row, db.roomInvites.lookup (inviteId W token) = some row →
    row.revoked = false ∧ usesLeft token.maxUses row.uses = true
  saveGroup : f .saveGroup = none

/-- No statement fails after `save_group` has begun to write. -/
structure Completes (W : Wire) (f : Faults) (db : Database) (token : InviteToken) : Prop where
  roomSettings : f .insertRoomSettings = none
  again : f (.getInviteState true) = none
  increment : db.roomInvites.lookup (inviteId W token) ≠ none → f .incrementInviteUse = none

/-- `saved_groups` after `save_group`. -/
def groupsAfter (db : Database) (token : InviteToken) : Table String SavedGroup :=
  db.savedGroups.upsert token.roomId { RoomSettings.default with password := token.roomPassword }
    fun g => { g with password := token.roomPassword }

/-- `room_settings` after `save_group`, whose second statement may fail. -/
def roomSettingsAfter (f : Faults) (db : Database) (token : InviteToken) :
    Table String RoomSettings :=
  match f .insertRoomSettings with
  | none => db.roomSettings.insertIgnore token.roomId .default
  | some _ => db.roomSettings

/-- The group was saved before, with this password, and has its row of settings unless that one
    could not be inserted. -/
structure SavedBefore (f : Faults) (db : Database) (token : InviteToken) : Prop where
  group : ∃ g, db.savedGroups.lookup token.roomId = some g ∧ g.password = token.roomPassword
  settings : f .insertRoomSettings = none → (db.roomSettings.lookup token.roomId).isSome = true

/-- **Saving the group changes nothing just where it was saved before.** -/
theorem savedBefore_iff {f : Faults} {db : Database} {token : InviteToken} :
    SavedBefore f db token ↔
      (∀ name, (groupsAfter db token).lookup name = db.savedGroups.lookup name) ∧
      ∀ name, (roomSettingsAfter f db token).lookup name = db.roomSettings.lookup name := by
  have hgroup : (∀ name, (groupsAfter db token).lookup name = db.savedGroups.lookup name) ↔
      ∃ g, db.savedGroups.lookup token.roomId = some g ∧ g.password = token.roomPassword := by
    refine (Table.upsert_same_iff _ _ _ _).trans (exists_congr fun g => and_congr_right fun _ => ?_)
    exact ⟨fun h => (congrArg SavedGroup.password h).symm, fun h => by rw [← h]⟩
  have hsettings :
    (∀ name, (roomSettingsAfter f db token).lookup name = db.roomSettings.lookup name) ↔
      (f .insertRoomSettings = none → (db.roomSettings.lookup token.roomId).isSome = true) := by
    unfold roomSettingsAfter
    cases f .insertRoomSettings with
    | none => exact (Table.insertIgnore_same_iff _ _ _).trans ⟨fun h _ => h, fun h => h rfl⟩
    | some e => exact iff_of_true (fun _ => rfl) nofun
  rw [hgroup, hsettings]
  exact ⟨fun h => ⟨h.group, h.settings⟩, fun h => ⟨h.1, h.2⟩⟩

theorem acceptInviteDb_refused {W : Wire} {f : Faults} {db : Database} {token : InviteToken}
    (h : ¬ Saves W f db token) : ∃ e, (acceptInviteDb W f db token).1 = .error e ∧
      Untouched db (acceptInviteDb W f db token).2 := by
  obtain ⟨table, hpeer⟩ := getPeerSettings_frame f db token.issuerPeerId
  have hun : Untouched db (getPeerSettings f db token.issuerPeerId).2 := by
    rw [hpeer]
    exact ⟨fun _ => rfl, fun _ => rfl, fun _ => rfl⟩
  have hsaves := fun h₁ h₂ h₃ h₄ => h ⟨h₁, h₂, h₃, h₄⟩
  unfold acceptInviteDb
  simp only
  generalize getPeerSettings f db token.issuerPeerId = peer at hun hsaves ⊢
  obtain ⟨settings, db₁⟩ := peer
  simp only at hun hsaves ⊢
  split
  · exact ⟨_, rfl, hun⟩
  · next htrust =>
    simp only [Bool.not_eq_false] at htrust
    split
    · exact ⟨_, rfl, hun⟩
    · next state hstate =>
      obtain ⟨hf, hs⟩ := query_ok hstate
      rw [hun.roomInvites] at hs
      split
      · exact ⟨_, rfl, hun⟩
      · next hrev =>
        split
        · exact ⟨_, rfl, hun⟩
        · next huse =>
          have hrow : ∀ row, db.roomInvites.lookup (inviteId W token) = some row →
              row.revoked = false ∧ usesLeft token.maxUses row.uses = true := by
            intro row hr
            rw [hr, Option.map_some] at hs
            subst hs
            exact ⟨by simpa using hrev, by simpa using huse⟩
          cases hg : f .saveGroup with
          | none => exact absurd hg (hsaves htrust hf hrow)
          | some e =>
            simp only [saveGroup, execute, hg]
            exact ⟨e, rfl, hun⟩

/-- The row that is read is not revoked. -/
theorem Saves.unrevoked {W : Wire} {f : Faults} {db : Database} {token : InviteToken}
    (h : Saves W f db token) :
    ¬ (((db.roomInvites.lookup (inviteId W token)).map fun row => (row.revoked, row.uses)).map
      fun s => s.1).getD false = true := by
  cases hr : db.roomInvites.lookup (inviteId W token) with
  | none => simp
  | some row => simp [(h.row row hr).1]

/-- The row that is read has a use left. -/
theorem Saves.usable {W : Wire} {f : Faults} {db : Database} {token : InviteToken}
    (h : Saves W f db token) :
    ¬ (((db.roomInvites.lookup (inviteId W token)).map fun row => (row.revoked, row.uses)).map
      fun s => usesLeft token.maxUses s.2).getD true = false := by
  cases hr : db.roomInvites.lookup (inviteId W token) with
  | none => simp
  | some row => simp [(h.row row hr).2]

/-- What `accept_invite` does with the token once `save_group` writes. -/
theorem acceptInviteDb_saves {W : Wire} {f : Faults} {db : Database} {token : InviteToken}
    (h : Saves W f db token) :
    (Completes W f db token →
      (acceptInviteDb W f db token).1 = .ok (token.roomId, token.roomPassword)) ∧
    (¬ Completes W f db token → ∃ e, (acceptInviteDb W f db token).1 = .error e ∧
      (acceptInviteDb W f db token).2.savedGroups = groupsAfter db token ∧
      (acceptInviteDb W f db token).2.roomSettings = roomSettingsAfter f db token ∧
      (acceptInviteDb W f db token).2.roomInvites = db.roomInvites) := by
  obtain ⟨table, hpeer⟩ := getPeerSettings_frame f db token.issuerPeerId
  have htrust := h.trusted
  unfold acceptInviteDb
  simp only
  generalize getPeerSettings f db token.issuerPeerId = peer at hpeer htrust ⊢
  obtain ⟨settings, db₁⟩ := peer
  simp only at hpeer htrust ⊢
  subst hpeer
  rw [if_neg (by simp [htrust])]
  have hstate : getInviteState f false { db with peerSettings := table } (inviteId W token) =
      .ok ((db.roomInvites.lookup (inviteId W token)).map fun row => (row.revoked, row.uses)) := by
    simp [getInviteState, query, h.state]
  rw [hstate]
  simp only
  rw [if_neg h.unrevoked, if_neg h.usable]
  simp only [saveGroup, execute, h.saveGroup]
  cases hroom : f .insertRoomSettings with
  | some e =>
    refine ⟨fun hc => ?_, fun _ => ⟨e, rfl, rfl, ?_, rfl⟩⟩
    · rw [hc.roomSettings] at hroom
      cases hroom
    · simp [roomSettingsAfter, hroom]
  | none =>
    have hafter : db.roomSettings.insertIgnore token.roomId .default =
        roomSettingsAfter f db token := by
      simp [roomSettingsAfter, hroom]
    simp only [getInviteState, query]
    cases hagain : f (.getInviteState true) with
    | some e =>
      refine ⟨fun hc => ?_, fun _ => ⟨e, rfl, rfl, hafter, rfl⟩⟩
      rw [hc.again] at hagain
      cases hagain
    | none =>
      cases hr : db.roomInvites.lookup (inviteId W token) with
      | none => exact ⟨fun _ => rfl, fun hc => absurd ⟨hroom, hagain, fun hx => absurd hr hx⟩ hc⟩
      | some row =>
        simp only [Option.map_some, incrementInviteUse, execute]
        cases hinc : f .incrementInviteUse with
        | none => exact ⟨fun _ => rfl, fun hc => absurd ⟨hroom, hagain, fun _ => hinc⟩ hc⟩
        | some e =>
          refine ⟨fun hc => ?_, fun _ => ⟨e, rfl, rfl, hafter, rfl⟩⟩
          rw [hc.increment (by simp [hr])] at hinc
          cases hinc

/-! ## 3. The command -/

/-- Every check of `accept_invite` passes and `save_group` begins to write. -/
structure Reaches (S : Signatures Keypair Pub) (W : Wire) (f : Faults) (d : Device) (nowMs : Int64)
    (token : InviteToken) : Prop where
  verified : verifyInvite S W token = .ok ()
  unexpired : isInviteExpired token nowMs = false
  path : d.app.dbPath.isSome = true
  key : d.app.dbKey.isSome = true
  initDb : f .initDb = none
  saves : Saves W f d.opened token

theorem initDb_opened (f : Faults) (d : Device) :
    (∃ e, d.initDb f = .error e ∧
      ¬ (d.app.dbPath.isSome = true ∧ d.app.dbKey.isSome = true ∧ f .initDb = none)) ∨
    (d.initDb f = .ok d.opened ∧ d.app.dbPath.isSome = true ∧ d.app.dbKey.isSome = true ∧
      f .initDb = none) := by
  unfold Device.initDb Device.opened query
  cases hp : d.app.dbPath with
  | none => exact .inl ⟨_, rfl, by simp⟩
  | some path =>
    cases hk : d.app.dbKey with
    | none => exact .inl ⟨_, rfl, by simp⟩
    | some key =>
      cases hf : f .initDb with
      | some e => exact .inl ⟨e, rfl, by simp⟩
      | none => exact .inr ⟨by simp, rfl, rfl, rfl⟩

theorem Untouched.refl (db : Database) : Untouched db db :=
  ⟨fun _ => rfl, fun _ => rfl, fun _ => rfl⟩

/-- What a failing command leaves of an untouched database. -/
theorem Untouched.close {d : Device} {db : Database} (h : Untouched d.opened db) :
    Untouched d.file (d.close db).file := by
  unfold Device.close
  unfold Device.opened at h
  split at h
  · next hm =>
    rw [if_pos hm]
    exact .refl _
  · next hm =>
    rw [if_neg hm]
    exact h

/-- Up to the moment `save_group` writes, a refusal leaves no trace. -/
theorem acceptInvite_refused {S : Signatures Keypair Pub} {W : Wire} {f : Faults} {d : Device}
    {nowMs : Int64} {token : InviteToken} {tokenJson : String}
    (hdec : W.tokenJson.dec tokenJson = some token) (h : ¬ Reaches S W f d nowMs token) :
    ∃ e, (acceptInvite S W f d nowMs tokenJson).1 = .error e ∧
      Untouched d.file (acceptInvite S W f d nowMs tokenJson).2.file := by
  unfold acceptInvite
  rw [hdec]
  simp only
  cases hv : verifyInvite S W token with
  | error e => exact ⟨e, rfl, .refl _⟩
  | ok u =>
    cases hexp : isInviteExpired token nowMs with
    | true => exact ⟨_, rfl, .refl _⟩
    | false =>
      rcases initDb_opened f d with ⟨e, he, -⟩ | ⟨hdb, hp, hk, hf⟩
      · rw [he]
        exact ⟨e, rfl, .refl _⟩
      · rw [hdb]
        obtain ⟨e, he, hun⟩ := acceptInviteDb_refused fun hs => h ⟨hv, hexp, hp, hk, hf, hs⟩
        exact ⟨e, he, hun.close⟩

theorem Reaches.accept {S : Signatures Keypair Pub} {W : Wire} {f : Faults} {d : Device}
    {nowMs : Int64} {token : InviteToken} {tokenJson : String}
    (hdec : W.tokenJson.dec tokenJson = some token) (h : Reaches S W f d nowMs token) :
    acceptInvite S W f d nowMs tokenJson =
      ((acceptInviteDb W f d.opened token).1, d.close (acceptInviteDb W f d.opened token).2) := by
  have hdb : d.initDb f = .ok d.opened := by
    rcases initDb_opened f d with ⟨e, -, hn⟩ | ⟨hdb, -⟩
    · exact absurd ⟨h.path, h.key, h.initDb⟩ hn
    · exact hdb
  simp [acceptInvite, hdec, h.verified, h.unexpired, hdb]

/-- A token that gets as far is signed and in time. -/
theorem Reaches.admissible_iff {S : Signatures Keypair Pub} {W : Wire} {f : Faults} {d : Device}
    {nowMs : Int64} {token : InviteToken} (h : Reaches S W f d nowMs token) (localPeer : String) :
    Admissible S W d.opened localPeer nowMs token ↔
      IssuerTrusted d.opened token.issuerPeerId ∧ MadeOutTo token localPeer := by
  constructor
  · intro ha
    exact ⟨ha.issuer, ha.subject⟩
  · intro ⟨hi, hs⟩
    refine ⟨verifySigned_ok_iff.mp h.verified, fun expires he => ?_, hi, hs⟩
    have hx := h.unexpired
    simp only [isInviteExpired, he, Option.map_some, Option.getD_some,
      decide_eq_false_iff_not] at hx
    exact Int64.not_lt.mp hx

/-- The failing save leaves the tables as they were: the profile is not kept on disk, or the group
    was saved before. -/
theorem untouched_close_iff {f : Faults} {d : Device} {token : InviteToken} {db : Database}
    (hg : db.savedGroups = groupsAfter d.opened token)
    (hr : db.roomSettings = roomSettingsAfter f d.opened token)
    (hi : db.roomInvites = d.opened.roomInvites) :
    Untouched d.file (d.close db).file ↔ (d.OnDisk → SavedBefore f d.opened token) := by
  by_cases hd : d.OnDisk
  · have hopen : d.opened = d.file := if_neg hd
    rw [hopen] at hg hr hi
    rw [close_onDisk hd, hopen, savedBefore_iff, ← hg, ← hr]
    constructor
    · intro h _
      exact ⟨h.savedGroups, h.roomSettings⟩
    · intro h
      exact ⟨(h hd).1, (h hd).2, fun _ => by rw [hi]⟩
  · have hclose : d.close db = d := if_pos (Decidable.not_not.mp hd)
    rw [hclose]
    exact ⟨fun _ hx => absurd hx hd, fun _ => .refl _⟩

/-- **A token that gets as far as `save_group`**: with no failing statement it is admitted, and then
    the stored settings of its issuer and its subject decide; otherwise nothing may have changed. -/
theorem Reaches.admits_iff {S : Signatures Keypair Pub} {W : Wire} {f : Faults} {d : Device}
    {nowMs : Int64} {token : InviteToken} {tokenJson : String}
    (hdec : W.tokenJson.dec tokenJson = some token) (h : Reaches S W f d nowMs token)
    (localPeer : String) : Admits S W f d localPeer nowMs tokenJson ↔
      (Completes W f d.opened token ∧ IssuerTrusted d.opened token.issuerPeerId ∧
        MadeOutTo token localPeer) ∨
      (¬ Completes W f d.opened token ∧ (d.OnDisk → SavedBefore f d.opened token)) := by
  obtain ⟨hok, hbroken⟩ := acceptInviteDb_saves h.saves
  simp only [Admits, hdec, h.accept hdec, Option.some.injEq, exists_eq_left', h.admissible_iff]
  by_cases hc : Completes W f d.opened token
  · simp [hok hc, hc]
  · obtain ⟨e, he, hg, hr, hi⟩ := hbroken hc
    simp [he, hc, untouched_close_iff hg hr hi]

/-- A token that does not get as far is refused without a trace. -/
theorem admits_of_refused {S : Signatures Keypair Pub} {W : Wire} {f : Faults} {d : Device}
    {localPeer : String} {nowMs : Int64} {tokenJson : String}
    (h : ∀ token, W.tokenJson.dec tokenJson = some token → ¬ Reaches S W f d nowMs token) :
    Admits S W f d localPeer nowMs tokenJson := by
  cases hdec : W.tokenJson.dec tokenJson with
  | none =>
    refine .inr ⟨W.jsonError tokenJson, ?_, ?_⟩
    · simp [acceptInvite, hdec]
    · simpa [acceptInvite, hdec] using Untouched.refl d.file
  | some token => exact .inr (acceptInvite_refused hdec (h token hdec))

/-- **When `accept_invite` admits whom it should.** Either a check refuses the token before the
    group is saved. Or the group is saved: then the stored settings of the issuer have to bear out
    what the check was told (they do where no read failed), and the token must name no subject or
    this peer. Or a statement fails half way: then the save must have changed nothing. -/
theorem acceptInvite_admits_iff (S : Signatures Keypair Pub) (W : Wire) (f : Faults) (d : Device)
    (localPeer : String) (nowMs : Int64) (tokenJson : String) :
    Admits S W f d localPeer nowMs tokenJson ↔
      ∀ token, W.tokenJson.dec tokenJson = some token → Reaches S W f d nowMs token →
        (Completes W f d.opened token ∧ IssuerTrusted d.opened token.issuerPeerId ∧
          MadeOutTo token localPeer) ∨
        (¬ Completes W f d.opened token ∧ (d.OnDisk → SavedBefore f d.opened token)) := by
  constructor
  · intro h token hdec hreach
    exact (hreach.admits_iff hdec localPeer).mp h
  · intro h
    by_cases hreach : ∃ token, W.tokenJson.dec tokenJson = some token ∧ Reaches S W f d nowMs token
    · obtain ⟨token, hdec, hr⟩ := hreach
      exact (hr.admits_iff hdec localPeer).mpr (h token hdec hr)
    · exact admits_of_refused fun token hdec hr => hreach ⟨token, hdec, hr⟩

/-- Where every statement succeeds, the trust check reads what is stored. -/
theorem saves_issuerTrusted {W : Wire} {db : Database} {token : InviteToken}
    (h : Saves W noFaults db token) : IssuerTrusted db token.issuerPeerId := by
  have ht := h.trusted
  have hmin : (((((loadSetting noFaults db "min_trust_invite").toOption).join).bind
      parseI64).getD 0) = configuredMinTrust db := by
    unfold loadSetting configuredMinTrust
    cases db.appSettings.lookup "min_trust_invite" <;> simp [Except.toOption]
  have hset : (getPeerSettings noFaults db token.issuerPeerId).1 =
      .ok (peerSettingsOf db token.issuerPeerId) := by
    simp [getPeerSettings, Table.lookup_insertIgnore, peerSettingsOf]
  rw [hmin, hset] at ht
  simp only [issuerTrusted, Bool.and_eq_true, Bool.not_eq_true', decide_eq_false_iff_not] at ht
  exact ⟨ht.1, Int64.not_lt.mp ht.2⟩

/-- **On a database that never fails the subject alone decides.** -/
theorem admits_noFaults_iff (S : Signatures Keypair Pub) (W : Wire) (d : Device)
    (localPeer : String) (nowMs : Int64) (tokenJson : String) :
    Admits S W noFaults d localPeer nowMs tokenJson ↔
      ∀ token, W.tokenJson.dec tokenJson = some token → Reaches S W noFaults d nowMs token →
        MadeOutTo token localPeer := by
  have hc : ∀ token, Completes W noFaults d.opened token := fun token => ⟨rfl, rfl, fun _ => rfl⟩
  constructor
  · intro h token hdec hreach
    rcases (hreach.admits_iff hdec localPeer).mp h with ⟨-, -, hs⟩ | ⟨hn, -⟩
    · exact hs
    · exact absurd (hc token) hn
  · intro h
    by_cases hreach : ∃ token, W.tokenJson.dec tokenJson = some token ∧
        Reaches S W noFaults d nowMs token
    · obtain ⟨token, hdec, hr⟩ := hreach
      exact (hr.admits_iff hdec localPeer).mpr
        (.inl ⟨hc token, saves_issuerTrusted hr.saves, h token hdec hr⟩)
    · exact admits_of_refused fun token hdec hr => hreach ⟨token, hdec, hr⟩

/-! ## 4. A token for somebody else -/

/-- An invite made out to the second peer, before it is signed. -/
def namedUnsigned : InviteToken :=
  { sampleUnsigned with subjectPeerId := some (Signatures.tagged.peerId 1) }

/-- The invite, signed by the first peer. -/
def namedToken : InviteToken :=
  { namedUnsigned with signature := Signatures.tag 0 (inviteSigningBytes .numbered namedUnsigned) }

theorem namedToken_door : Door Signatures.tagged .numbered inviteeDevice namedToken 0 where
  onDisk := by simp [Device.OnDisk, inviteeDevice]
  path := rfl
  key := rfl
  verified := by
    have hs : Signatures.tagged.sign 0 (inviteSigningBytes .numbered namedUnsigned) =
        .ok namedToken.signature := rfl
    exact verifySigned_of_sign Signatures.tagged_lawful hs _ _
  unexpired := rfl
  unlisted := ⟨rfl, nofun, rfl, rfl⟩

/-- The third peer accepts an invite made out to the second. -/
theorem admits_named_token : ¬ Admits Signatures.tagged .numbered noFaults inviteeDevice
    (Signatures.tagged.peerId 2) 0 (Wire.numbered.tokenJson.enc namedToken) := by
  obtain ⟨hok, -⟩ := namedToken_door.accept
  intro h
  rcases h with ⟨token, hdec, -, hadm⟩ | ⟨e, he, -⟩
  · rw [Codec.dec_enc] at hdec
    cases hdec
    have hp := hadm.subject _ rfl
    exact absurd (Signatures.tagged_peerId_inj hp) (by decide)
  · rw [hok] at he
    cases he

end AlterChat.Commands
