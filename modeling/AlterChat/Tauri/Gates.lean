import AlterChat.Tauri.Policy

/-!
# Gates whose reads fail

What a peer may do is decided by reads of the database, and a read that fails is replaced by a
value: no roles, no friends, no settings, a level of 0. A gate fails closed if it lets nobody in,
when reads fail, whom it would not let in when they succeed.

* §1 `Gate`, `Gate.Allows`; §2 the levels that are asked for;
* §3 `room_action_allowed` and the arms when reads fail;
* §4 `ClosedWhen` and `fails_closed_iff` -- when each of them fails closed;
* §5 a locked database lets a blocked friend in.
-/

namespace AlterChat.Inbound

open Lib Governance Db Crypto Onion Requests DirectMessages

variable {Key Keypair Pub : Type}

/-! ## 1. Gates -/

inductive Gate where
  /-- `room_action_allowed`. -/
  | room (roomId peerId : String) (permission : Permission) (nowMs : Int64)
  /-- `peer_can_contact`. -/
  | contact (peer : String)
  /-- The gate before the request handler. -/
  | request (nowMs : Int64) (peer : String)
  | file (peer filename : String) (data : Bytes)
  | fileChunk (peer transferId : String) (index : UInt64) (contentHash : String) (data : Bytes)
    (hashOf : Bytes → String) (chunkStored : Bool)
  | privateMessage (nowMs : Int64) (peer text senderNick : String) (timestamp : Int64)
    (ttl : Option Int64) (powToken : Option PoWToken)

/-- The gate lets it through, as the code shows: by its answer, or by what it sends and tells the
    frontend. -/
def Gate.Allows (S : Signatures Keypair Pub) (C : Wire) (W : NetWire Key) (f : Stage → Faults)
    (l : EventLoop Key) : Gate → Prop
  | .room roomId peerId permission nowMs =>
    Commands.roomActionAllowed S C (f .arm) l.node.conn roomId peerId permission nowMs = true
  | .contact peer => (peerCanContact (f .contact) l.node.conn peer l.unknownPeerPolicy).1 = true
  | .request nowMs peer => (requestGate f l nowMs peer).1 = .admitted
  | .file peer filename data =>
    .sendResponse (.fileAck true "File received") ∈ (Inbound.file (f .arm) l peer filename data).2
  | .fileChunk peer transferId index contentHash data hashOf chunkStored =>
    .emit "file-chunk-received" [transferId, toString index, toString data.length] ∈
      (Inbound.fileChunk (f .arm) l peer transferId index contentHash data hashOf chunkStored).2
  | .privateMessage nowMs peer text senderNick timestamp ttl powToken =>
    .sendResponse (.privateMessageAck true) ∈
      (Inbound.privateMessage W (f .arm) l nowMs peer text senderNick timestamp ttl powToken).2

/-- **The property**: what is let through when reads fail is let through when they succeed. -/
def Gate.FailsClosed (S : Signatures Keypair Pub) (C : Wire) (W : NetWire Key) (f : Stage → Faults)
    (l : EventLoop Key) (gate : Gate) : Prop :=
  gate.Allows S C W f l → gate.Allows S C W allRead l

/-! ## 2. Levels -/

/-- A setting is read, from the older table if it is not in the other. -/
def SettingRead (f : Faults) (conn : Database) (key : String) : Prop :=
  f .loadSetting = none ∧ (conn.appSettings.lookup key = none → f .loadSettingLegacy = none)

/-- Neither blocked nor trusted less than a kind of request takes. -/
def Trusted (conn : Database) (peer key : String) : Prop :=
  (conn.settingsOf peer).blocked = false ∧
    minTrust noFaults conn key ≤ (conn.settingsOf peer).trustLevel

section

variable {f : Faults} {conn : Database} {peer key : String}

theorem minTrust_read (h : SettingRead f conn key) :
    minTrust f conn key = minTrust noFaults conn key := by
  obtain ⟨hload, hlegacy⟩ := h
  unfold minTrust loadSetting query
  rw [hload]
  cases hrow : conn.appSettings.lookup key with
  | some value => rfl
  | none => simp [hlegacy hrow, noFaults]

/-- **What cannot be read asks for nothing.** -/
theorem minTrust_unread (h : ¬ SettingRead f conn key) : minTrust f conn key = 0 := by
  unfold minTrust loadSetting query
  cases hload : f .loadSetting with
  | some e => rfl
  | none =>
    cases hrow : conn.appSettings.lookup key with
    | some value => exact absurd ⟨hload, fun hnone => (by rw [hrow] at hnone; cases hnone)⟩ h
    | none =>
      cases hlegacy : f .loadSettingLegacy with
      | some e => rfl
      | none => exact absurd ⟨hload, fun _ => hlegacy⟩ h

end

/-! ## 3. Rooms and arms -/

section

variable {f : Faults} {conn : Database}

/-- `room_action_allowed`: roles that cannot be counted are none, and a room without roles is
    open. -/
theorem roomActionAllowed_uncounted (S : Signatures Keypair Pub) (C : Wire)
    (h : f .countRoles ≠ none) (conn : Database) (roomId peerId : String) (permission : Permission)
    (nowMs : Int64) :
    Commands.roomActionAllowed S C f conn roomId peerId permission nowMs = true := by
  obtain ⟨e, he⟩ := Option.ne_none_iff_exists'.mp h
  unfold Commands.roomActionAllowed countRoles query
  rw [he]
  rfl

/-- Who is allowed, if every read succeeds. -/
theorem roomActionAllowed_iff (S : Signatures Keypair Pub) (C : Wire) (conn : Database)
    (roomId peerId : String) (permission : Permission) (nowMs : Int64) :
    Commands.roomActionAllowed S C noFaults conn roomId peerId permission nowMs = true ↔
      conn.roomRoles.select (fun k => decide (k.1 = roomId)) = [] ∨
      hasPermission S C (Commands.loadRolesAndGrants C noFaults conn roomId).2
        (Commands.loadRolesAndGrants C noFaults conn roomId).1 peerId permission nowMs = true := by
  have hcount : (countRoles noFaults conn roomId).toOption.getD 0 =
      (conn.roomRoles.select fun k => decide (k.1 = roomId)).length := rfl
  unfold Commands.roomActionAllowed
  simp only [hcount, List.length_eq_zero_iff]
  by_cases hroles : conn.roomRoles.select (fun k => decide (k.1 = roomId)) = []
  · rw [if_pos hroles]
    simp [hroles]
  · rw [if_neg hroles]
    simp [hroles]

/-- **With the roles counted, roles and grants that cannot be read allow nobody more.** -/
theorem roomActionAllowed_counted {S : Signatures Keypair Pub} {C : Wire} (h : f .countRoles = none)
    {roomId peerId : String} {permission : Permission} {nowMs : Int64}
    (hallowed : Commands.roomActionAllowed S C f conn roomId peerId permission nowMs = true) :
    Commands.roomActionAllowed S C noFaults conn roomId peerId permission nowMs = true := by
  have hcount : (countRoles f conn roomId).toOption.getD 0 =
      (conn.roomRoles.select fun k => decide (k.1 = roomId)).length := by
    unfold countRoles query
    rw [h]
    rfl
  rw [roomActionAllowed_iff]
  unfold Commands.roomActionAllowed at hallowed
  simp only [hcount, List.length_eq_zero_iff] at hallowed
  by_cases hroles : conn.roomRoles.select (fun k => decide (k.1 = roomId)) = []
  · exact .inl hroles
  · rw [if_neg hroles] at hallowed
    obtain ⟨grant, hgrant, hholds, role, hrole, hgives⟩ := hasPermission_iff.mp hallowed
    refine .inr (hasPermission_iff.mpr ⟨grant, ?_, hholds, role, ?_, hgives⟩)
    · unfold Commands.loadRolesAndGrants listPermissionGrants query at hgrant ⊢
      cases hread : f .listPermissionGrants with
      | some e =>
        rw [hread] at hgrant
        exact absurd hgrant List.not_mem_nil
      | none =>
        rw [hread] at hgrant
        exact hgrant
    · unfold Commands.loadRolesAndGrants listRoles query at hrole ⊢
      cases hread : f .listRoles with
      | some e =>
        rw [hread] at hrole
        exact absurd hrole List.not_mem_nil
      | none =>
        rw [hread] at hrole
        exact hrole

/-- The arm `File` acknowledges what its check lets through. -/
theorem file_allows (f : Faults) (l : EventLoop Key) (peer filename : String) (data : Bytes) :
    .sendResponse (.fileAck true "File received") ∈ (file f l peer filename data).2 ↔
      (trustCheck f l.node.conn peer "min_trust_file").1 = true := by
  unfold file
  generalize trustCheck f l.node.conn peer "min_trust_file" = q
  obtain ⟨allowed, conn⟩ := q
  cases allowed <;> simp

theorem fileChunk_allows (f : Faults) (l : EventLoop Key) (peer transferId : String)
    (index : UInt64) (contentHash : String) (data : Bytes) (hashOf : Bytes → String)
    (chunkStored : Bool) :
    .emit "file-chunk-received" [transferId, toString index, toString data.length] ∈
        (fileChunk f l peer transferId index contentHash data hashOf chunkStored).2 ↔
      (trustCheck f l.node.conn peer "min_trust_file").1 = true := by
  unfold fileChunk
  generalize trustCheck f l.node.conn peer "min_trust_file" = q
  obtain ⟨allowed, conn⟩ := q
  cases allowed <;> simp

/-- The arm `PrivateMessage` takes a friend or a proof of work, and then its check. -/
theorem privateMessage_allows (W : NetWire Key) (f : Faults) (l : EventLoop Key) (nowMs : Int64)
    (peer text senderNick : String) (timestamp : Int64) (ttl : Option Int64)
    (powToken : Option PoWToken) :
    .sendResponse (.privateMessageAck true) ∈
        (privateMessage W f l nowMs peer text senderNick timestamp ttl powToken).2 ↔
      (FriendRead f l.node.conn peer ∨
        (powToken.map fun t => W.verifyPow t l.node.myPeerId nowMs).getD false = true) ∧
      (trustCheck f l.node.conn peer "min_trust_dm").1 = true := by
  have hfriend : ((getFriends f l.node.conn).toOption.getD []).any (fun r => decide (r.1 = peer)) =
      (decide (f .getFriends = none) && (l.node.conn.friends.lookup peer).isSome) := by
    rw [← getFriends_known]
    cases getFriends f l.node.conn <;> rfl
  have hread : FriendRead f l.node.conn peer ↔
      (decide (f .getFriends = none) && (l.node.conn.friends.lookup peer).isSome) = true := by
    rw [Bool.and_eq_true, decide_eq_true_eq]
    rfl
  rw [hread]
  unfold privateMessage
  simp only [hfriend]
  generalize (decide (f .getFriends = none) && (l.node.conn.friends.lookup peer).isSome) = isFriend
  generalize (powToken.map fun t => W.verifyPow t l.node.myPeerId nowMs).getD false = validPow
  generalize trustCheck f l.node.conn peer "min_trust_dm" = q
  obtain ⟨allowed, conn⟩ := q
  by_cases hstranger : isFriend = false ∧ validPow = false
  · rw [if_pos hstranger, hstranger.1, hstranger.2]
    by_cases hban : POW_BAN_THRESHOLD ≤ l.powFailures peer + 1 <;> simp [hban]
  · rw [if_neg hstranger]
    have hlet : isFriend = true ∨ validPow = true := by
      cases isFriend <;> cases validPow <;> simp_all
    cases allowed <;> simp [hlet]

end

/-! ## 4. When they fail closed -/

/-- The check of an arm fails closed: for who is trusted anyway, and else where the settings are
    read, and the level the arm asks for too, unless the peer is blocked or has a level below 0. -/
def TrustClosed (f : Faults) (conn : Database) (peer key : String) : Prop :=
  Trusted conn peer key ∨
    SettingsRead f ∧ ((conn.settingsOf peer).blocked = true ∨ SettingRead f conn key ∨
      (conn.settingsOf peer).trustLevel < 0)

/-- **When a gate fails closed.** -/
def Gate.ClosedWhen (S : Signatures Keypair Pub) (C : Wire) (W : NetWire Key) (f : Stage → Faults)
    (l : EventLoop Key) : Gate → Prop
  | .room roomId peerId permission nowMs =>
    f .arm .countRoles = none ∨
    l.node.conn.roomRoles.select (fun k => decide (k.1 = roomId)) = [] ∨
    hasPermission S C (Commands.loadRolesAndGrants C noFaults l.node.conn roomId).2
      (Commands.loadRolesAndGrants C noFaults l.node.conn roomId).1 peerId permission nowMs = true
  | .contact peer =>
    SettingsRead (f .contact) ∨ (l.node.conn.settingsOf peer).blocked = false ∨
    ¬ MayContact (f .contact) l.node.conn peer l.unknownPeerPolicy
  | .request nowMs peer =>
    SettingsRead (f .gate) ∨
    ¬ MayContact (f .contact) l.node.conn peer l.unknownPeerPolicy ∨
    (rateLimitAllows (l.rateBuckets peer) nowMs l.rateLimitPerMinute).1 = false ∨
    (if (l.node.conn.settingsOf peer).blocked = true then SettingsRead (f .contact)
      else (rateLimitAllows (l.rateBuckets peer) nowMs
        (l.node.conn.settingsOf peer).rateLimitPerMinute).1 = true)
  | .file peer .. | .fileChunk peer .. => TrustClosed (f .arm) l.node.conn peer "min_trust_file"
  | .privateMessage nowMs peer _ _ _ _ powToken =>
    TrustClosed (f .arm) l.node.conn peer "min_trust_dm" ∨
    ¬ FriendRead (f .arm) l.node.conn peer ∧
      (powToken.map fun t => W.verifyPow t l.node.myPeerId nowMs).getD false = false

section

variable {f : Faults} {conn : Database} {peer key : String}

/-- A check that lets through what it would not let through otherwise. -/
theorem trustClosed_iff (f : Faults) (conn : Database) (peer key : String) :
    ((trustCheck f conn peer key).1 = true → (trustCheck noFaults conn peer key).1 = true) ↔
      TrustClosed f conn peer key := by
  rw [trustCheck_reads, trustCheck_iff]
  unfold TrustClosed
  by_cases htrusted : Trusted conn peer key
  · exact ⟨fun _ => .inl htrusted, fun _ _ => htrusted⟩
  · have huntrusted : ¬ ((conn.settingsOf peer).blocked = false ∧
        minTrust noFaults conn key ≤ (conn.settingsOf peer).trustLevel) := htrusted
    constructor
    · intro h
      have hrefused := mt h huntrusted
      rw [Classical.not_imp] at hrefused
      obtain ⟨hsettings, hlow⟩ := hrefused
      refine .inr ⟨hsettings, ?_⟩
      cases hb : (conn.settingsOf peer).blocked with
      | true => exact .inl rfl
      | false =>
        rw [hb, eq_self_iff_true, true_and] at hlow
        by_cases hsetting : SettingRead f conn key
        · exact .inr (.inl hsetting)
        · rw [minTrust_unread hsetting, Int64.not_le] at hlow
          exact .inr (.inr hlow)
    · intro h hallowed
      obtain ⟨hsettings, hclosed⟩ := h.resolve_left htrusted
      obtain ⟨hopen, hhigh⟩ := hallowed hsettings
      rcases hclosed with hb | hsetting | hnegative
      · rw [hopen] at hb
        cases hb
      · rw [minTrust_read hsetting] at hhigh
        exact ⟨hopen, hhigh⟩
      · by_cases hsetting : SettingRead f conn key
        · rw [minTrust_read hsetting] at hhigh
          exact ⟨hopen, hhigh⟩
        · rw [minTrust_unread hsetting] at hhigh
          exact absurd hnegative (Int64.not_lt.mpr hhigh)

theorem room_closed_iff (S : Signatures Keypair Pub) (C : Wire) (f : Faults) (conn : Database)
    (roomId peerId : String) (permission : Permission) (nowMs : Int64) :
    (Commands.roomActionAllowed S C f conn roomId peerId permission nowMs = true →
        Commands.roomActionAllowed S C noFaults conn roomId peerId permission nowMs = true) ↔
      f .countRoles = none ∨
      conn.roomRoles.select (fun k => decide (k.1 = roomId)) = [] ∨
      hasPermission S C (Commands.loadRolesAndGrants C noFaults conn roomId).2
        (Commands.loadRolesAndGrants C noFaults conn roomId).1 peerId permission nowMs = true := by
  rw [← roomActionAllowed_iff]
  by_cases hcount : f .countRoles = none
  · exact ⟨fun _ => .inl hcount, fun _ => roomActionAllowed_counted hcount⟩
  · rw [or_iff_right hcount]
    exact ⟨fun h => h (roomActionAllowed_uncounted S C hcount conn roomId peerId permission nowMs),
      fun h _ => h⟩

theorem mayContact_noFaults {policy : String} (h : MayContact f conn peer policy) :
    policy = "allow" ∨ (conn.friends.lookup peer).isSome = true := by
  rcases h with hpolicy | hfriend
  · exact .inl hpolicy
  · exact .inr hfriend.2

theorem contact_closed_iff (f : Faults) (conn : Database) (peer policy : String) :
    ((peerCanContact f conn peer policy).1 = true →
        (peerCanContact noFaults conn peer policy).1 = true) ↔
      SettingsRead f ∨ (conn.settingsOf peer).blocked = false ∨
      ¬ MayContact f conn peer policy := by
  rw [peerCanContact_reads, peerCanContact_iff]
  by_cases hopen : (conn.settingsOf peer).blocked = false
  · exact ⟨fun _ => .inr (.inl hopen), fun _ h => ⟨hopen, mayContact_noFaults h.2⟩⟩
  · constructor
    · intro h
      by_cases hread : SettingsRead f
      · exact .inl hread
      · exact .inr (.inr fun hmay => hopen (h ⟨fun h' => absurd h' hread, hmay⟩).1)
    · intro h hallowed
      rcases h with hread | hopen' | hno
      · exact absurd (hallowed.1 hread) hopen
      · exact absurd hopen' hopen
      · exact absurd hallowed.2 hno

theorem request_closed_iff (f : Stage → Faults) (l : EventLoop Key) (nowMs : Int64)
    (peer : String) :
    ((requestGate f l nowMs peer).1 = .admitted → (requestGate allRead l nowMs peer).1 =
      .admitted) ↔
      SettingsRead (f .gate) ∨
      ¬ MayContact (f .contact) l.node.conn peer l.unknownPeerPolicy ∨
      (rateLimitAllows (l.rateBuckets peer) nowMs l.rateLimitPerMinute).1 = false ∨
      (if (l.node.conn.settingsOf peer).blocked = true then SettingsRead (f .contact)
        else (rateLimitAllows (l.rateBuckets peer) nowMs
          (l.node.conn.settingsOf peer).rateLimitPerMinute).1 = true) := by
  rw [requestGate_reads, requestGate_admitted_iff]
  constructor
  · intro h
    by_cases hread : SettingsRead (f .gate)
    · exact .inl hread
    · by_cases hmay : MayContact (f .contact) l.node.conn peer l.unknownPeerPolicy
      · cases hdefault : (rateLimitAllows (l.rateBuckets peer) nowMs l.rateLimitPerMinute).1 with
        | false => exact .inr (.inr (.inl rfl))
        | true =>
          refine .inr (.inr (.inr ?_))
          have hadmitted :=
            fun hboth => h ⟨hboth, hmay, fun h' => absurd h' hread, fun _ => hdefault⟩
          by_cases hblocked : (l.node.conn.settingsOf peer).blocked = true
          · rw [if_pos hblocked]
            by_contra hsecond
            have hopen := (hadmitted fun h' => absurd h' (not_or.mpr ⟨hread, hsecond⟩)).1
            rw [hblocked] at hopen
            cases hopen
          · rw [if_neg hblocked]
            exact (hadmitted fun _ => Bool.eq_false_iff.mpr hblocked).2.2
      · exact .inr (.inl hmay)
  · intro h hallowed
    obtain ⟨hopen, hmay, hown, hdefault⟩ := hallowed
    by_cases hread : SettingsRead (f .gate)
    · exact ⟨hopen (.inl hread), mayContact_noFaults hmay, hown hread⟩
    · rcases h with h | h | h | h
      · exact absurd h hread
      · exact absurd hmay h
      · rw [hdefault hread] at h
        cases h
      · by_cases hblocked : (l.node.conn.settingsOf peer).blocked = true
        · rw [if_pos hblocked] at h
          rw [hopen (.inr h)] at hblocked
          cases hblocked
        · rw [if_neg hblocked] at h
          exact ⟨Bool.eq_false_iff.mpr hblocked, mayContact_noFaults hmay, h⟩

theorem privateMessage_closed_iff (W : NetWire Key) (f : Faults) (l : EventLoop Key) (nowMs : Int64)
    (peer text senderNick : String) (timestamp : Int64) (ttl : Option Int64)
    (powToken : Option PoWToken) :
    (.sendResponse (.privateMessageAck true) ∈
        (privateMessage W f l nowMs peer text senderNick timestamp ttl powToken).2 →
      .sendResponse (.privateMessageAck true) ∈
        (privateMessage W noFaults l nowMs peer text senderNick timestamp ttl powToken).2) ↔
      TrustClosed f l.node.conn peer "min_trust_dm" ∨
      ¬ FriendRead f l.node.conn peer ∧
        (powToken.map fun t => W.verifyPow t l.node.myPeerId nowMs).getD false = false := by
  rw [privateMessage_allows, privateMessage_allows, ← trustClosed_iff]
  have hfriend : FriendRead f l.node.conn peer → FriendRead noFaults l.node.conn peer :=
    fun h => ⟨rfl, h.2⟩
  cases hpow : (powToken.map fun t => W.verifyPow t l.node.myPeerId nowMs).getD false with
  | true =>
    constructor
    · intro h
      exact .inl fun hcheck => (h ⟨.inr rfl, hcheck⟩).2
    · intro h hallowed
      rcases h with h | h
      · exact ⟨.inr rfl, h hallowed.2⟩
      · cases h.2
  | false =>
    constructor
    · intro h
      by_cases hread : FriendRead f l.node.conn peer
      · exact .inl fun hcheck => (h ⟨.inl hread, hcheck⟩).2
      · exact .inr ⟨hread, rfl⟩
    · intro h hallowed
      obtain ⟨hlet, hcheck⟩ := hallowed
      have hread := hlet.resolve_right Bool.false_ne_true
      rcases h with h | h
      · exact ⟨.inl (hfriend hread), h hcheck⟩
      · exact absurd hread h.1

end

/-- **When a gate fails closed.** `room_action_allowed` needs the count of the roles, and everything
    else the settings of the peer: nothing but a read of them keeps a blocked peer out. -/
theorem fails_closed_iff (S : Signatures Keypair Pub) (C : Wire) (W : NetWire Key)
    (f : Stage → Faults) (l : EventLoop Key) (gate : Gate) :
    gate.FailsClosed S C W f l ↔ gate.ClosedWhen S C W f l := by
  cases gate with
  | room roomId peerId permission nowMs => exact room_closed_iff S C (f .arm) _ _ _ _ _
  | contact peer => exact contact_closed_iff (f .contact) _ _ _
  | request nowMs peer => exact request_closed_iff f l nowMs peer
  | file peer filename data =>
    have hclosed := trustClosed_iff (f .arm) l.node.conn peer "min_trust_file"
    rw [← file_allows, ← file_allows] at hclosed
    exact hclosed
  | fileChunk peer transferId index contentHash data hashOf chunkStored =>
    have hclosed := trustClosed_iff (f .arm) l.node.conn peer "min_trust_file"
    rw [← fileChunk_allows, ← fileChunk_allows] at hclosed
    exact hclosed
  | privateMessage nowMs peer text senderNick timestamp ttl powToken =>
    exact privateMessage_closed_iff W (f .arm) l nowMs peer text senderNick timestamp ttl powToken

/-! ## 5. A locked database -/

/-- The row of default settings cannot be inserted; everything else can be read. -/
def locked : Faults := fun stmt =>
  if stmt = .insertPeerSettings then some "database is locked" else none

theorem locked_unread : ¬ SettingsRead locked := fun h => (by cases h.1)

/-- **A blocked friend is let in while the database is locked**, and kept out before and after. -/
theorem locked_admits_blocked :
    (Gate.request 0 "a").Allows Signatures.tagged .numbered wire32 (fun _ => locked) blocking32 ∧
    ¬ (Gate.request 0 "a").FailsClosed Signatures.tagged .numbered wire32 (fun _ => locked)
      blocking32 := by
  obtain ⟨friend, hlookup, -⟩ := friendNode_friend wire32.toDmWire "b" "a" (secretOf 2)
    (plain32.publicKey (secretOf 1))
  have hfriend : FriendRead locked blocking32.node.conn "a" :=
    ⟨rfl, Option.isSome_iff_exists.mpr ⟨friend, hlookup⟩⟩
  have hin : (requestGate (fun _ => locked) blocking32 0 "a").1 = .admitted :=
    (requestGate_reads _ _ _ _).mpr ⟨fun h => absurd h (not_or.mpr ⟨locked_unread, locked_unread⟩),
      .inr hfriend, fun h => absurd h locked_unread, fun _ => rfl⟩
  refine ⟨hin, fun h => ?_⟩
  obtain ⟨hopen, -⟩ := (requestGate_admitted_iff blocking32 0 "a").mp (h hin)
  rw [blocking32_blocked] at hopen
  cases hopen

end AlterChat.Inbound
