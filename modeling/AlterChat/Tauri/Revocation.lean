import AlterChat.Tauri.Commands

/-!
# Whose revocations a device takes

The handler of the revocation topic writes whatever announcement decodes; `RevokeInviteGlobal`
publishes its announcements unsigned.

* `Authentic` -- what makes an announcement one to be taken: it is signed by the peer it names, and
  that peer issued the invite or may manage the room;
* `Revokes` -- what taking one does to the database;
* `revokes_authentic_iff`, `published_signed_iff` -- exactly when only authentic announcements are
  taken, and when only signed ones are published; `revocation_authentic_iff` is both.
-/

namespace AlterChat.Commands

open Lib Governance Db

variable {Keypair Pub : Type}

/-- The announcement carries the signature of the peer it names. -/
def Signed (S : Signatures Keypair Pub) (W : Wire) (ann : RevocationAnnouncement) : Prop :=
  ∃ key, S.peerId key = ann.revokedBy ∧
    S.verify key (revocationSigningBytes W ann) ann.signature = true

/-- The peer issued the invite with this id. -/
def Issued (S : Signatures Keypair Pub) (W : Wire) (id peerId : String) : Prop :=
  ∃ token, inviteId W token = id ∧ verifyInvite S W token = .ok () ∧ token.issuerPeerId = peerId

/-- Signed by the peer it names, who issued the invite or may manage the room. -/
def Authentic (S : Signatures Keypair Pub) (W : Wire) (db : Database) (nowMs : Int64)
    (ann : RevocationAnnouncement) : Prop :=
  Signed S W ann ∧
    (Issued S W ann.inviteId ann.revokedBy ∨
      roomActionAllowed S W noFaults db ann.roomId ann.revokedBy .ManageRoles nowMs = true)

/-- Between the two databases an invite became revoked, in either table. -/
def Revokes (db db' : Database) : Prop :=
  (∃ id, db.revokedInvites.lookup id = none ∧ db'.revokedInvites.lookup id ≠ none) ∨
  (∃ id row row', db.roomInvites.lookup id = some row ∧ row.revoked = false ∧
    db'.roomInvites.lookup id = some row' ∧ row'.revoked = true)

/-- The handler has an entry to write for the id. -/
def Unmarked (f : Faults) (db : Database) (id : String) : Prop :=
  f .markInviteRevoked = none ∧ db.revokedInvites.lookup id = none

/-- The handler has a row to set for the id. -/
def Unset (f : Faults) (db : Database) (id : String) : Prop :=
  f .revokeInvite = none ∧ ∃ row, db.roomInvites.lookup id = some row ∧ row.revoked = false

theorem revocationMessage_tables (W : Wire) (f : Faults) (db : Database) (nowMs : Int64)
    {data : Bytes} {ann : RevocationAnnouncement} (h : W.announcementBytes.dec data = some ann) :
    (revocationMessage W f db nowMs data).1.revokedInvites =
        (if f .markInviteRevoked = none then
          db.revokedInvites.insertIgnore ann.inviteId
            { revokedAt := nowMs, revokedBy := ann.revokedBy }
        else db.revokedInvites) ∧
      (revocationMessage W f db nowMs data).1.roomInvites =
        (if f .revokeInvite = none then
          db.roomInvites.update ann.inviteId fun row => { row with revoked := true }
        else db.roomInvites) := by
  simp only [revocationMessage, h, markInviteRevoked, Db.revokeInvite, execute]
  cases f .markInviteRevoked <;> cases f .revokeInvite <;> simp

/-- No entry appears in a table that stays, and no row is set. -/
theorem not_marks_self (db : Database) :
    ¬ ∃ id, db.revokedInvites.lookup id = none ∧ db.revokedInvites.lookup id ≠ none := by
  rintro ⟨id, hnone, hsome⟩
  exact hsome hnone

theorem not_sets_self (db : Database) :
    ¬ ∃ id row row', db.roomInvites.lookup id = some row ∧ row.revoked = false ∧
      db.roomInvites.lookup id = some row' ∧ row'.revoked = true := by
  rintro ⟨id, row, row', hrow, hno, hrow', hyes⟩
  cases hrow.symm.trans hrow'
  exact absurd (hno.symm.trans hyes) Bool.false_ne_true

/-- **The handler revokes exactly what it has to write**, whoever sent the announcement. -/
theorem revokes_iff (W : Wire) (f : Faults) (db : Database) (nowMs : Int64) (data : Bytes) :
    Revokes db (revocationMessage W f db nowMs data).1 ↔
      ∃ ann, W.announcementBytes.dec data = some ann ∧
        (Unmarked f db ann.inviteId ∨ Unset f db ann.inviteId) := by
  cases hd : W.announcementBytes.dec data with
  | none =>
    have hsame : (revocationMessage W f db nowMs data).1 = db := by simp [revocationMessage, hd]
    rw [hsame]
    refine iff_of_false (fun h => h.elim (not_marks_self db) (not_sets_self db)) ?_
    rintro ⟨ann, h, -⟩
    cases h
  | some ann =>
    obtain ⟨hmark, hset⟩ := revocationMessage_tables W f db nowMs hd
    have hann : (∃ ann', some ann = some ann' ∧ (Unmarked f db ann'.inviteId ∨
        Unset f db ann'.inviteId)) ↔ (Unmarked f db ann.inviteId ∨ Unset f db ann.inviteId) := by
      simp
    rw [hann]
    refine or_congr ?_ ?_
    · rw [hmark, Unmarked]
      by_cases hf : f .markInviteRevoked = none
      · rw [if_pos hf, and_iff_right hf]
        exact Table.insertIgnore_appears_iff _ _ _
      · rw [if_neg hf]
        exact iff_of_false (not_marks_self db) fun h => hf h.1
    · rw [hset, Unset]
      by_cases hf : f .revokeInvite = none
      · rw [if_pos hf, and_iff_right hf]
        exact Table.update_turns_iff _ _ fun _ => rfl
      · rw [if_neg hf]
        exact iff_of_false (not_sets_self db) fun h => hf h.1

/-- The condition for the handler: the bytes are no announcement, or the announcement is authentic,
    or there is nothing to write for it. -/
def Harmless (S : Signatures Keypair Pub) (W : Wire) (f : Faults) (db : Database) (nowMs : Int64)
    (data : Bytes) : Prop :=
  ∀ ann, W.announcementBytes.dec data = some ann →
    Authentic S W db nowMs ann ∨ (¬ Unmarked f db ann.inviteId ∧ ¬ Unset f db ann.inviteId)

theorem revokes_authentic_iff (S : Signatures Keypair Pub) (W : Wire) (f : Faults) (db : Database)
    (nowMs : Int64) (data : Bytes) :
    (Revokes db (revocationMessage W f db nowMs data).1 →
      ∃ ann, W.announcementBytes.dec data = some ann ∧ Authentic S W db nowMs ann) ↔
    Harmless S W f db nowMs data := by
  rw [revokes_iff]
  constructor
  · intro h ann hd
    by_cases hw : Unmarked f db ann.inviteId ∨ Unset f db ann.inviteId
    · obtain ⟨ann', hd', ha⟩ := h ⟨ann, hd, hw⟩
      rw [hd] at hd'
      cases hd'
      exact .inl ha
    · exact .inr (not_or.mp hw)
  · rintro h ⟨ann, hd, hw⟩
    rcases h ann hd with ha | ⟨h1, h2⟩
    · exact ⟨ann, hd, ha⟩
    · exact absurd hw (not_or.mpr ⟨h1, h2⟩)

/-- No announcement of `RevokeInviteGlobal` is signed. -/
theorem not_signed_global {S : Signatures Keypair Pub} (hS : S.Lawful) (W : Wire)
    (inviteId topicName peerId : String) (nowMs : Int64) :
    ¬ Signed S W (globalRevocation inviteId topicName peerId nowMs) := by
  intro h
  obtain ⟨key, -, hv⟩ := h
  rw [show (globalRevocation inviteId topicName peerId nowMs).signature = [] from rfl,
    hS.verify_nil] at hv
  cases hv

theorem published_signed_iff {S : Signatures Keypair Pub} (hS : S.Lawful) (W : Wire) (f : Faults)
    (d : Device) (topicName peerId : String) (swarm : Bool) (nowMs : Int64) (inviteId : String) :
    (∀ topic data, Effect.publish topic data ∈
        (revokeInviteGlobal W f d topicName peerId swarm nowMs inviteId).2 →
      ∃ ann, W.announcementBytes.dec data = some ann ∧ Signed S W ann) ↔
    d.connDb = none ∨ swarm = false := by
  unfold revokeInviteGlobal
  cases hdb : d.connDb with
  | none => simp
  | some db =>
    cases swarm with
    | false => simp
    | true =>
      simp only [if_true, reduceCtorEq, or_false, iff_false]
      intro h
      obtain ⟨ann, hd, hs⟩ := h _ _ (List.mem_append_left _ (List.mem_singleton_self _))
      rw [Codec.dec_enc] at hd
      cases hd
      exact not_signed_global hS W _ _ _ _ hs

/-- **Authenticity of revocations, exactly**: the handler revokes only for authentic announcements
    if and only if what it is given is harmless, and `RevokeInviteGlobal` publishes only signed ones
    if and only if it publishes none. -/
theorem revocation_authentic_iff (S : Signatures Keypair Pub) (W : Wire) (hS : S.Lawful) :
    (∀ f db nowMs data,
      (Revokes db (revocationMessage W f db nowMs data).1 →
        ∃ ann, W.announcementBytes.dec data = some ann ∧ Authentic S W db nowMs ann) ↔
      Harmless S W f db nowMs data) ∧
    (∀ f d topicName peerId swarm nowMs inviteId,
      (∀ topic data, Effect.publish topic data ∈
          (revokeInviteGlobal W f d topicName peerId swarm nowMs inviteId).2 →
        ∃ ann, W.announcementBytes.dec data = some ann ∧ Signed S W ann) ↔
      d.connDb = none ∨ swarm = false) :=
  ⟨revokes_authentic_iff S W, published_signed_iff hS W⟩

/-- An announcement with no signature, in the name of a peer. -/
def unsignedRevocation : RevocationAnnouncement where
  inviteId := "00"
  roomId := "alterchat-global"
  revokedBy := Signatures.tagged.peerId 0
  revokedAt := 0
  signature := []

/-- A device with its session open. -/
def runningDevice : Device where
  app := { dbPath := some "alterchat.db", dbKey := some "key", keyPath := some "keypair.bin" }
  file := .empty
  conn := .file

/-- The numbered scheme, with an unsigned announcement at a running device. -/
theorem revocation_authentic_unsigned :
    ((Revokes .empty (revocationMessage .numbered noFaults .empty 0
        (Wire.numbered.announcementBytes.enc unsignedRevocation)).1 →
      ∃ ann, Wire.numbered.announcementBytes.dec
        (Wire.numbered.announcementBytes.enc unsignedRevocation) = some ann ∧
        Authentic Signatures.tagged .numbered .empty 0 ann) ↔
      Harmless Signatures.tagged .numbered noFaults .empty 0
        (Wire.numbered.announcementBytes.enc unsignedRevocation)) ∧
    ((∀ topic data, Effect.publish topic data ∈ (revokeInviteGlobal .numbered noFaults runningDevice
        "alterchat-global" "p" true 0 "00").2 →
      ∃ ann, Wire.numbered.announcementBytes.dec data = some ann ∧
        Signed Signatures.tagged .numbered ann) ↔
      runningDevice.connDb = none ∨ true = false) :=
  have h := revocation_authentic_iff Signatures.tagged .numbered Signatures.tagged_lawful
  ⟨h.1 noFaults .empty 0 _, h.2 noFaults runningDevice "alterchat-global" "p" true 0 "00"⟩

/-- The unsigned announcement is taken, and an unsigned one is what a running device publishes. -/
theorem revocation_not_authentic :
    (Revokes .empty (revocationMessage .numbered noFaults .empty 0
        (Wire.numbered.announcementBytes.enc unsignedRevocation)).1 ∧
      ¬ ∃ ann, Wire.numbered.announcementBytes.dec
        (Wire.numbered.announcementBytes.enc unsignedRevocation) = some ann ∧
        Authentic Signatures.tagged .numbered .empty 0 ann) ∧
    ¬ ∀ topic data, Effect.publish topic data ∈ (revokeInviteGlobal .numbered noFaults runningDevice
        "alterchat-global" "p" true 0 "00").2 →
      ∃ ann, Wire.numbered.announcementBytes.dec data = some ann ∧
        Signed Signatures.tagged .numbered ann := by
  refine ⟨⟨?_, ?_⟩, ?_⟩
  · rw [revokes_iff]
    exact ⟨unsignedRevocation, Codec.dec_enc _ _, .inl ⟨rfl, rfl⟩⟩
  · intro h
    obtain ⟨ann, hd, ⟨key, -, hv⟩, -⟩ := h
    rw [Codec.dec_enc] at hd
    cases hd
    rw [show unsignedRevocation.signature = [] from rfl, Signatures.tagged_lawful.verify_nil] at hv
    cases hv
  · rw [published_signed_iff Signatures.tagged_lawful]
    exact nofun

end AlterChat.Commands
