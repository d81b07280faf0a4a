import AlterChat.Core.OnionPanics
import AlterChat.Tauri.Handling
import AlterChat.Tauri.Mailbox

/-!
# What the history says was sent

The whole arm `AppCommand::SendPrivateMessage`, with the copy for the mailbox and a panic in
`wrap_onion`. The message is saved once the settings of the peer allow it; whether it can be sent is
found out afterwards.

* §1 `sendCommand` -- the arm, in a build; `sendCommand_sends` -- where it does not panic, it is
  `sendThroughOnion` and `offlineRecord`;
* §2 `Saves` and `Delivers`, from the state before the command;
* §3 `outgoing_truthful_iff` -- the history is truthful just where what is saved is delivered.
-/

namespace AlterChat.Inbound

open Lib Db DoubleRatchet Crypto Onion Requests DirectMessages

variable {Key : Type}

/-! ## 1. The arm -/

/-- Whether the block under `use_onion` comes to `wrap_onion`, and that panics. -/
def onionPanics (P : Primitives Key) (W : NetWire Key) (d : OnionDraw Key) (n : Node Key)
    (friends : List (String × Friend)) (peerId : String) (pk : Key) (timestamp : Int64)
    (req : X3dhDm Key) : Bool :=
  let reqBytes := (requestLayout W.key).bytes (x3dhDmRequest req)
  let relays := possibleRelays friends peerId
  match relays[timestamp.toUInt64.toNat % relays.length]? with
  | none => false
  | some (relayId, relay) =>
    match relay.offlinePubkey.bind W.x25519Hex.dec with
    | none => false
    | some relayPk =>
      match W.parsePeerId relayId with
      | none => false
      | some _ =>
        match sealedSend P W.key d.ephemeral d.nonce n.offlineSecretBytes n.myPeerId pk
          reqBytes with
        | .error _ => false
        | .ok sealedMsg =>
          match wrapOnion P W.key d.layer [(relayId, relayPk), (peerId, pk)]
              ((sealedLayout W.key).bytes sealedMsg) with
          | .error .panic => true
          | _ => false

/-- Whether the command panics on an envelope before it hands it over: `encrypt` adds one to
    `n_send`, which is the number of the envelope, and `wrap_onion` may panic. -/
def sendPanics (b : Build) (P : Primitives Key) (W : NetWire Key) (d : OnionDraw Key) (n : Node Key)
    (friends : List (String × Friend)) (peerId : String) (pk : Key) (a : SendArgs Key)
    (envelope : DrEnvelope Key) (req : X3dhDm Key) : Bool :=
  (b.unsigned 64 (envelope.header.n + 1)).isNone ||
    (a.useOnion && onionPanics P W d n friends peerId pk a.timestamp req)

/-- The copy for the mailbox of a peer with this key. -/
def mailboxRecord (P : Primitives Key) (W : NetWire Key) (n : Node Key) (peerId : String) (pk : Key)
    (a : SendArgs Key) (d : MailDraw Key) : Option MailRecord :=
  let msg : OfflineMsg :=
    { senderPeerId := n.myPeerId, senderNick := a.senderNick, text := a.text
      timestamp := a.timestamp, ttl := a.ttl, nonce := offlineNonce a.timestamp d.hash }
  match encryptForPeer P d.ephemeral d.nonce pk (offlineLayout.bytes msg) with
  | .error _ => none
  | .ok encrypted =>
    some
      { key := getDhtMailboxKey W peerId
        value := (payloadLayout W.key).bytes encrypted
        expires := d.nowMs + recordLifetimeMs }

/-- What is drawn for a message, and what `put_record` takes. -/
structure SendDraw (Key : Type) where
  onion : OnionDraw Key
  mail : MailDraw Key
  putRecord : MailRecord → Bool

structure SendOutcome (Key : Type) where
  conn : Database
  effects : List (DmEffect Key)
  /-- The record in the mailbox. -/
  record : Option MailRecord
  panicked : Bool

/-- The command has ended with these events. -/
def SendOutcome.ended (conn : Database) (effects : List (DmEffect Key)) : SendOutcome Key where
  conn
  effects
  record := none
  panicked := false

/-- The arm once the message is saved, from `get_friends` on. -/
def sendSaved (b : Build) (P : Primitives Key) (W : NetWire Key) (f : Faults) (n : Node Key)
    (conn : Database) (peerId : String) (a : SendArgs Key) (d : SendDraw Key) : SendOutcome Key :=
  let friends := (getFriends f conn).toOption.getD []
  match friends.find? fun r => decide (r.1 = peerId) with
  | none => .ended conn [.emit "dm-requires-pubkey" peerId]
  | some (_, friend) =>
    if friend.blocked = true then .ended conn [.emit "private-message-blocked" peerId]
    else
      match friend.offlinePubkey.bind W.x25519Hex.dec with
      | none => .ended conn [.emit "dm-requires-pubkey" peerId]
      | some pk =>
        let state := loadOrInitDrState P W.toDmWire f conn peerId n.offlineSecretBytes pk
          (decide (n.myPeerId < peerId)) a.drawn
        let record := (mailboxRecord P W n peerId pk a d.mail).filter d.putRecord
        match encrypt P a.nonce state (Codec.utf8.enc a.text) with
        | (.error _, _) =>
          { conn, effects := [.emit "dm-requires-pubkey" peerId], record, panicked := false }
        | (.ok envelope, state) =>
          let req := dmRequest W.toDmWire a envelope state
          if sendPanics b P W d.onion n friends peerId pk a envelope req then
            -- the panic comes before anything is handed over, and the mailbox is not reached
            { conn, effects := [], record := none, panicked := true }
          else
            let sent : DmEffect Key :=
              match if a.useOnion then onionBlock P W d.onion n friends peerId pk a.timestamp req
                else none with
              | some (relay, packet) => .onionForward relay packet req
              | none => .sendRequest peerId req
            { conn := saveDrState W.toDmWire f conn peerId state, effects := [sent], record
              panicked := false }

/-- The arm `AppCommand::SendPrivateMessage`, with the connection and the swarm there. -/
def sendCommand (b : Build) (P : Primitives Key) (W : NetWire Key) (f : Faults) (n : Node Key)
    (peerId : String) (a : SendArgs Key) (d : SendDraw Key) : SendOutcome Key :=
  match W.parsePeerId peerId with
  | none => .ended n.conn []
  | some _ =>
    let (settings, conn) := getPeerSettings f n.conn peerId
    if (settings.toOption.map fun p => p.blocked).getD false = true then
      .ended conn [.emit "private-message-blocked" peerId]
    else if (settings.toOption.map fun p => p.trustLevel).getD 0 < n.minTrustDm then
      .ended conn [.emit "private-message-blocked" peerId]
    else
      let conn := (savePrivateMessage f conn peerId true a.text a.timestamp a.ttl).2
      sendSaved b P W f n conn peerId a d

/-! ## 2. What is saved, and what is delivered -/

/-- The command comes to the statement that saves the message, and that succeeds. -/
structure Saves (W : NetWire Key) (f : Faults) (n : Node Key) (peerId : String) : Prop where
  parsed : (W.parsePeerId peerId).isSome = true
  unblocked : SettingsRead f → (n.conn.settingsOf peerId).blocked = false
  trusted : n.minTrustDm ≤ if SettingsRead f then (n.conn.settingsOf peerId).trustLevel else 0
  saved : f .savePrivateMessage = none

/-- The ratchet with a friend of this key encrypts the text. -/
def Encrypts (P : Primitives Key) (W : NetWire Key) (f : Faults) (n : Node Key) (peerId : String)
    (a : SendArgs Key) (pk : Key) (envelope : DrEnvelope Key) (state : DrState Key) : Prop :=
  encrypt P a.nonce (loadOrInitDrState P W.toDmWire f n.conn peerId n.offlineSecretBytes pk
    (decide (n.myPeerId < peerId)) a.drawn) (Codec.utf8.enc a.text) = (.ok envelope, state)

/-- The peer is not blocked, and is read as a friend with a key; the ratchet encrypts the text, its
    counter goes on, and the onion of it does not panic. -/
structure Delivers (b : Build) (P : Primitives Key) (W : NetWire Key) (f : Faults) (n : Node Key)
    (peerId : String) (a : SendArgs Key) (d : SendDraw Key) : Prop where
  unblocked : (n.conn.settingsOf peerId).blocked = false
  read : f .getFriends = none
  goes : ∃ pk envelope state, FriendKey W.toDmWire n.conn peerId pk ∧
    Encrypts P W f n peerId a pk envelope state ∧
    (b = .checked → envelope.header.n + 1 < 2 ^ 64) ∧
    (a.useOnion = true →
    onionPanics P W d.onion n ((getFriends f n.conn).toOption.getD []) peerId pk
      a.timestamp (dmRequest W.toDmWire a envelope state) = false)

/-- The envelope that the ratchet makes of the text is handed to the transport, by itself or in an
    onion. -/
def HandedOver (P : Primitives Key) (W : NetWire Key) (f : Faults) (n : Node Key) (peerId : String)
    (a : SendArgs Key) (d : SendDraw Key) (effects : List (DmEffect Key)) : Prop :=
  ∃ pk envelope state, FriendKey W.toDmWire n.conn peerId pk ∧
    Encrypts P W f n peerId a pk envelope state ∧
    (.sendRequest peerId (dmRequest W.toDmWire a envelope state) ∈ effects ∨
      ∃ relay packet, onionBlock P W d.onion n ((getFriends f n.conn).toOption.getD []) peerId pk
          a.timestamp (dmRequest W.toDmWire a envelope state) = some (relay, packet) ∧
        .onionForward relay packet (dmRequest W.toDmWire a envelope state) ∈ effects)

/-- The copy of the text is put into the mailbox of the peer. -/
def PutCopy (P : Primitives Key) (W : NetWire Key) (n : Node Key) (peerId : String)
    (a : SendArgs Key) (d : SendDraw Key) (record : Option MailRecord) : Prop :=
  ∃ pk copy, FriendKey W.toDmWire n.conn peerId pk ∧
    mailboxRecord P W n peerId pk a d.mail = some copy ∧ d.putRecord copy = true ∧
    record = some copy

/-- The peer is unknown, blocked, has no usable key, or the ratchet does not encrypt the text. -/
inductive Unsendable (P : Primitives Key) (W : NetWire Key) (f : Faults) (n : Node Key)
    (peerId : String) (a : SendArgs Key) : Prop where
  | unknown (h : n.conn.friends.lookup peerId = none)
  | blocked (h : (n.conn.settingsOf peerId).blocked = true)
  | blockedFriend (friend : Friend) (h : n.conn.friends.lookup peerId = some friend)
      (hblocked : friend.blocked = true)
  | noKey (friend : Friend) (h : n.conn.friends.lookup peerId = some friend)
      (hkey : friend.offlinePubkey.bind W.x25519Hex.dec = none)
  | unencrypted (pk : Key) (h : FriendKey W.toDmWire n.conn peerId pk)
      (hno : ∀ envelope state, ¬ Encrypts P W f n peerId a pk envelope state)

/-- **What is stored has been handed to the transport or put into the mailbox**, and of what cannot
    be sent nothing is stored. -/
structure SendOutcome.Truthful (out : SendOutcome Key) (P : Primitives Key) (W : NetWire Key)
    (f : Faults) (n : Node Key) (peerId : String) (a : SendArgs Key) (d : SendDraw Key) : Prop where
  sent : ¬ NothingStored n.conn out.conn →
    HandedOver P W f n peerId a d out.effects ∨ PutCopy P W n peerId a d out.record
  unsendable : Unsendable P W f n peerId a → NothingStored n.conn out.conn

section

variable {b : Build} {P : Primitives Key} {W : NetWire Key} {f : Faults} {n : Node Key}
  {peerId : String} {a : SendArgs Key} {d : SendDraw Key}

theorem sendPanics_false_iff {o : OnionDraw Key} {friends : List (String × Friend)} {pk : Key}
    {envelope : DrEnvelope Key} {req : X3dhDm Key} :
    sendPanics b P W o n friends peerId pk a envelope req = false ↔
      (b = .checked → envelope.header.n + 1 < 2 ^ 64) ∧
        (a.useOnion = true → onionPanics P W o n friends peerId pk a.timestamp req = false) := by
  unfold sendPanics
  rw [Bool.or_eq_false_iff, Option.isNone_eq_false_iff, Build.unsigned_isSome,
    Bool.and_eq_false_imp]

/-- The trust that counts: that of the settings, or 0 where they cannot be read. -/
theorem trust_read (f : Faults) (conn : Database) (peer : String) :
    ((getPeerSettings f conn peer).1.toOption.map fun s => s.trustLevel).getD 0 =
      if SettingsRead f then (conn.settingsOf peer).trustLevel else 0 := by
  by_cases h : SettingsRead f
  · rw [settings_read h, if_pos h]
    rfl
  · obtain ⟨e, he⟩ := settings_unread h conn peer
    rw [he, if_neg h]
    rfl

/-- A message leaves a trace just where its row is written. -/
theorem nothingStored_save_iff (f : Faults) (conn : Database) (peerId : String) (senderIsMe : Bool)
    (text : String) (timestamp : Int64) (ttl : Option Int64) :
    NothingStored conn (savePrivateMessage f conn peerId senderIsMe text timestamp ttl).2 ↔
      f .savePrivateMessage ≠ none := by
  cases hf : f .savePrivateMessage with
  | some e =>
    refine iff_of_true ?_ (fun h => nomatch h)
    unfold savePrivateMessage execute
    rw [hf]
    exact ⟨rfl, rfl⟩
  | none =>
    refine iff_of_false (fun h => ?_) fun h => h rfl
    obtain ⟨index, hframe⟩ := savePrivateMessage_frame f conn peerId senderIsMe text timestamp ttl
    have hsame := h.1
    rw [hframe, if_pos hf] at hsame
    exact absurd hsame (by simp)

/-- What was saved decides what is stored: the rest of the arm writes the state of the ratchet
    alone. -/
theorem sendSaved_stored_iff (before conn : Database) :
    NothingStored before (sendSaved b P W f n conn peerId a d).conn ↔
    NothingStored before conn := by
  unfold sendSaved
  dsimp only
  split
  · exact Iff.rfl
  · split
    · exact Iff.rfl
    · split
      · exact Iff.rfl
      · split
        · exact Iff.rfl
        · split
          · exact Iff.rfl
          · rw [saveDrState_frame]
            exact Iff.rfl

/-- A friend is found only if the friends can be read. -/
theorem getFriends_of_find {conn : Database} {r : String × Friend} {cond : String × Friend → Bool}
    (h : ((getFriends f conn).toOption.getD []).find? cond = some r) : f .getFriends = none := by
  unfold getFriends query at h
  cases hf : f .getFriends with
  | some e =>
    rw [hf] at h
    cases h
  | none => rfl

/-- Who is no friend with a key, or cannot be read as one, is sent nothing. -/
theorem sendSaved_refused {conn : Database}
    (h : ¬ (f .getFriends = none ∧ ∃ pk, FriendKey W.toDmWire conn peerId pk)) :
    requests (sendSaved b P W f n conn peerId a d).effects = [] ∧
      (sendSaved b P W f n conn peerId a d).record = none := by
  unfold sendSaved
  dsimp only
  split
  · exact ⟨rfl, rfl⟩
  · next id friend hfind =>
    split
    · exact ⟨rfl, rfl⟩
    · next hopen =>
      split
      · exact ⟨rfl, rfl⟩
      · next pk hpk =>
        exact absurd ⟨getFriends_of_find hfind, pk, friend, getFriends_lookup hfind,
          by simpa using hopen, hpk⟩ h

/-- With a friend of this key, the arm goes on as `encrypt` says. -/
theorem sendSaved_friend {conn : Database} {pk : Key} (hfriends : conn.friends = n.conn.friends)
    (hstates : conn.ratchetStates = n.conn.ratchetStates) (hread : f .getFriends = none)
    (hkey : FriendKey W.toDmWire n.conn peerId pk) :
    ((∀ envelope state, ¬ Encrypts P W f n peerId a pk envelope state) ∧
      (sendSaved b P W f n conn peerId a d).effects = [.emit "dm-requires-pubkey" peerId]) ∨
    ∃ envelope state, Encrypts P W f n peerId a pk envelope state ∧
      let req := dmRequest W.toDmWire a envelope state
      let friends := (getFriends f n.conn).toOption.getD []
      if sendPanics b P W d.onion n friends peerId pk a envelope req = true then
        (sendSaved b P W f n conn peerId a d).effects = [] ∧
          (sendSaved b P W f n conn peerId a d).record = none
      else
        (sendSaved b P W f n conn peerId a d).effects =
          [match
              if a.useOnion then onionBlock P W d.onion n friends peerId pk a.timestamp req
              else none with
            | some (relay, packet) => .onionForward relay packet req
            | none => .sendRequest peerId req] := by
  obtain ⟨friend, hlookup, hopen, hpk⟩ := hkey
  have hall : getFriends f conn = getFriends f n.conn := by unfold getFriends; rw [hfriends]
  have hfind := getFriends_find_of (fun _ => true) hread hlookup rfl
  simp only [Bool.and_true] at hfind
  unfold Encrypts
  simp only [sendSaved, hall, hfind, hopen, hpk, Bool.false_eq_true, if_false,
    loadOrInitDrState_congr hstates]
  generalize loadOrInitDrState P W.toDmWire f n.conn peerId n.offlineSecretBytes pk
    (decide (n.myPeerId < peerId)) a.drawn = state
  generalize encrypt P a.nonce state (Codec.utf8.enc a.text) = q
  obtain ⟨result, state'⟩ := q
  cases result with
  | error e => exact .inl ⟨nofun, rfl⟩
  | ok envelope =>
    refine .inr ⟨envelope, state', rfl, ?_⟩
    dsimp only
    split
    · exact ⟨rfl, rfl⟩
    · rfl

/-- **Where it is delivered, the envelope of the text is handed over.** -/
theorem sendSaved_handedOver {conn : Database} (hfriends : conn.friends = n.conn.friends)
    (hstates : conn.ratchetStates = n.conn.ratchetStates) (h : Delivers b P W f n peerId a d) :
    HandedOver P W f n peerId a d (sendSaved b P W f n conn peerId a d).effects := by
  obtain ⟨pk, envelope, state, hkey, henc, hsafe⟩ := h.goes
  rcases sendSaved_friend (d := d) hfriends hstates h.read hkey with
    ⟨hno, -⟩ | ⟨envelope', state', henc', hgoes⟩
  · exact absurd henc (hno envelope state)
  · cases henc.symm.trans henc'
    dsimp only at hgoes
    rw [if_neg (Bool.not_eq_true _ ▸ sendPanics_false_iff.mpr hsafe)] at hgoes
    refine ⟨pk, envelope, state, hkey, henc, ?_⟩
    rw [hgoes]
    cases honion : a.useOnion with
    | false => exact .inl (List.mem_singleton_self _)
    | true =>
      rw [if_pos rfl]
      cases hblock : onionBlock P W d.onion n ((getFriends f n.conn).toOption.getD []) peerId
        pk a.timestamp
          (dmRequest W.toDmWire a envelope state) with
      | none => exact .inl (List.mem_singleton_self _)
      | some onion =>
        obtain ⟨relay, packet⟩ := onion
        exact .inr ⟨relay, packet, rfl, List.mem_singleton_self _⟩

/-- **What can be sent and has left was delivered**: there is no panic after which nothing
    leaves. -/
theorem delivers_of_left {conn : Database} {pk : Key} (hfriends : conn.friends = n.conn.friends)
    (hstates : conn.ratchetStates = n.conn.ratchetStates)
    (hsendable : ¬ Unsendable P W f n peerId a) (hkey : FriendKey W.toDmWire n.conn peerId pk)
    (hleft : requests (sendSaved b P W f n conn peerId a d).effects ≠ [] ∨
      (sendSaved b P W f n conn peerId a d).record ≠ none) : Delivers b P W f n peerId a d := by
  have hread : f .getFriends = none := by
    by_contra hfails
    obtain ⟨hnone, hrecord⟩ : requests (sendSaved b P W f n conn peerId a d).effects = [] ∧ _ :=
      sendSaved_refused fun h => hfails h.1
    exact hleft.elim (fun h => h hnone) fun h => h hrecord
  refine ⟨?_, hread, ?_⟩
  · rw [← Bool.not_eq_true]
    exact fun hb => hsendable (.blocked hb)
  · rcases sendSaved_friend (d := d) hfriends hstates hread
      hkey with ⟨hno, -⟩ | ⟨envelope, state, henc, hgoes⟩
    · exact absurd (.unencrypted pk hkey hno) hsendable
    · refine ⟨pk, envelope, state, hkey, henc, sendPanics_false_iff.mp ?_⟩
      rw [← Bool.not_eq_true]
      intro hpanic
      dsimp only at hgoes
      rw [if_pos hpanic] at hgoes
      obtain ⟨hnone, hrecord⟩ := hgoes
      rw [hnone] at hleft
      exact hleft.elim (fun h => h rfl) fun h => h hrecord

/-- **A command saves nothing, or goes on with the friends and the states from before.** -/
theorem sendCommand_cases (b : Build) (P : Primitives Key) (W : NetWire Key) (f : Faults)
    (n : Node Key) (peerId : String) (a : SendArgs Key) (d : SendDraw Key) :
    ¬ Saves W f n peerId ∧ NothingStored n.conn (sendCommand b P W f n peerId a d).conn ∨
    Saves W f n peerId ∧ ¬ NothingStored n.conn (sendCommand b P W f n peerId a d).conn ∧
      ∃ conn, conn.friends = n.conn.friends ∧ conn.ratchetStates = n.conn.ratchetStates ∧
        sendCommand b P W f n peerId a d = sendSaved b P W f n conn peerId a d := by
  obtain ⟨table, hframe⟩ := getPeerSettings_frame f n.conn peerId
  have hblocked := blocked_read f n.conn peerId
  have htrust := trust_read f n.conn peerId
  unfold sendCommand
  cases hparse : W.parsePeerId peerId with
  | none =>
    refine .inl ⟨fun h => ?_, rfl, rfl⟩
    have hsome := h.parsed
    rw [hparse] at hsome
    cases hsome
  | some peer =>
    generalize getPeerSettings f n.conn peerId = q at hframe hblocked htrust
    obtain ⟨settings, conn⟩ := q
    dsimp only at hframe hblocked htrust ⊢
    have hkept : NothingStored n.conn conn := by rw [hframe]; exact ⟨rfl, rfl⟩
    split
    · next hrefused =>
      obtain ⟨hread, hb⟩ := hblocked.mp hrefused
      exact .inl ⟨fun h => absurd ((h.unblocked hread).symm.trans hb) Bool.false_ne_true, hkept⟩
    · next hopen =>
      split
      · next hlow =>
        rw [htrust] at hlow
        exact .inl ⟨fun h => absurd hlow (Int64.not_lt.mpr h.trusted), hkept⟩
      · next htrusted =>
        rw [htrust] at htrusted
        obtain ⟨index, hsaved⟩ :=
          savePrivateMessage_frame f conn peerId true a.text a.timestamp a.ttl
        have hstored := nothingStored_save_iff f conn peerId true a.text a.timestamp a.ttl
        have hsame : NothingStored n.conn
            (savePrivateMessage f conn peerId true a.text a.timestamp a.ttl).2 ↔
            NothingStored conn
              (savePrivateMessage f conn peerId true a.text a.timestamp a.ttl).2 := by
          unfold NothingStored
          rw [hkept.1, hkept.2]
        rw [sendSaved_stored_iff, hsame, hstored]
        cases hsave : f .savePrivateMessage with
        | some e =>
          refine .inl ⟨fun h => ?_, nofun⟩
          have hnone := h.saved
          rw [hsave] at hnone
          cases hnone
        | none =>
          refine .inr ⟨⟨by rw [hparse]; rfl, fun hread => ?_, Int64.not_lt.mp htrusted, hsave⟩,
            fun h => h rfl, _, by rw [hsaved, hframe], by rw [hsaved, hframe], rfl⟩
          cases hb : (n.conn.settingsOf peerId).blocked with
          | true => exact absurd (hblocked.mpr ⟨hread, hb⟩) hopen
          | false => rfl

/-- What can be delivered is not unsendable. -/
theorem Delivers.not_unsendable (h : Delivers b P W f n peerId a d) :
    ¬ Unsendable P W f n peerId a := by
  obtain ⟨pk, envelope, state, ⟨friend, hlookup, hopen, hpk⟩, henc, -⟩ := h.goes
  intro hun
  cases hun with
  | unknown hnone => cases hnone.symm.trans hlookup
  | blocked hb => cases h.unblocked.symm.trans hb
  | blockedFriend friend' hlookup' hb =>
    cases hlookup.symm.trans hlookup'
    cases hopen.symm.trans hb
  | noKey friend' hlookup' hkey =>
    cases hlookup.symm.trans hlookup'
    cases hpk.symm.trans hkey
  | unencrypted pk' hkey hno =>
    cases hkey.inj ⟨friend, hlookup, hopen, hpk⟩
    exact hno envelope state henc

/-! ## 3. The history -/

/-- **The history says what was sent** just where the command saves nothing, or delivers what it
    saves. -/
theorem outgoing_truthful_iff (b : Build) (P : Primitives Key) (W : NetWire Key) (f : Faults)
    (n : Node Key) (peerId : String) (a : SendArgs Key) (d : SendDraw Key) :
    (sendCommand b P W f n peerId a d).Truthful P W f n peerId a d ↔
      (Saves W f n peerId → Delivers b P W f n peerId a d) := by
  rcases sendCommand_cases b P W f n peerId a d with
    ⟨hno, hkept⟩ | ⟨hsaves, hstored, conn, hfriends, hstates, hout⟩
  · exact iff_of_true ⟨fun h => absurd hkept h, fun _ => hkept⟩ fun h => absurd h hno
  · constructor
    · intro ht _
      have hsendable : ¬ Unsendable P W f n peerId a := fun h => hstored (ht.unsendable h)
      have hsent := ht.sent hstored
      rw [hout] at hsent
      rcases hsent with ⟨pk, envelope, state, hkey, -, hmem⟩ | ⟨pk, copy, hkey, -, -, hrecord⟩
      · refine delivers_of_left hfriends hstates hsendable hkey (.inl ?_)
        unfold requests
        rcases hmem with hmem | ⟨relay, packet, -, hmem⟩
        · exact List.ne_nil_of_mem (List.mem_filterMap.mpr ⟨_, hmem, rfl⟩)
        · exact List.ne_nil_of_mem (List.mem_filterMap.mpr ⟨_, hmem, rfl⟩)
      · refine delivers_of_left hfriends hstates hsendable hkey (.inr ?_)
        rw [hrecord]
        exact nofun
    · intro h
      have hdelivers := h hsaves
      refine ⟨fun _ => .inl ?_, fun hun => absurd hun hdelivers.not_unsendable⟩
      rw [hout]
      exact sendSaved_handedOver hfriends hstates hdelivers

/-- **Where it does not panic**, the arm is `sendThroughOnion` with the copy of `offlineRecord`. -/
theorem sendCommand_sends (hparse : (W.parsePeerId peerId).isSome = true)
    (hsafe : (sendCommand b P W f n peerId a d).panicked = false) :
    (sendCommand b P W f n peerId a d).conn = (sendThroughOnion P W f n peerId a d.onion).1 ∧
    (sendCommand b P W f n peerId a d).effects = (sendThroughOnion P W f n peerId a d.onion).2 ∧
    (sendCommand b P W f n peerId a d).record =
      ((offlineRecord P W f n peerId a d.mail).map Prod.snd).filter d.putRecord := by
  obtain ⟨peer, hpeer⟩ := Option.isSome_iff_exists.mp hparse
  obtain ⟨table, hframe⟩ := getPeerSettings_frame f n.conn peerId
  unfold sendThroughOnion sendPrivateMessage offlineRecord
  unfold sendCommand at hsafe ⊢
  rw [hpeer] at hsafe ⊢
  generalize getPeerSettings f n.conn peerId = q at hframe hsafe ⊢
  obtain ⟨settings, conn⟩ := q
  dsimp only at hframe hsafe ⊢
  by_cases hblocked : (settings.toOption.map fun p => p.blocked).getD false = true
  · simp only [hblocked, if_true]
    exact ⟨rfl, rfl, rfl⟩
  · by_cases htrust : (settings.toOption.map fun p => p.trustLevel).getD 0 < n.minTrustDm
    · simp only [hblocked, htrust, if_true]
      exact ⟨rfl, rfl, rfl⟩
    · obtain ⟨index, hsaved⟩ := savePrivateMessage_frame f conn peerId true a.text a.timestamp a.ttl
      have hread : getFriends f (savePrivateMessage f conn peerId true a.text a.timestamp a.ttl).2 =
          getFriends f n.conn := by unfold getFriends; rw [hsaved, hframe]
      simp only [hblocked, htrust, if_false] at hsafe ⊢
      unfold sendSaved at hsafe ⊢
      simp only [throughOnion, hread] at hsafe ⊢
      generalize (savePrivateMessage f conn peerId true a.text a.timestamp a.ttl).2 =
        conn' at hsafe ⊢
      cases hfind : ((getFriends f n.conn).toOption.getD []).find? fun r =>
        decide (r.1 = peerId) with
      | none => exact ⟨rfl, rfl, rfl⟩
      | some r =>
        obtain ⟨id, friend⟩ := r
        simp only [hfind, Option.bind_some] at hsafe ⊢
        by_cases hfriend : friend.blocked = true
        · simp only [hfriend, if_true]
          exact ⟨rfl, rfl, rfl⟩
        · cases hpk : friend.offlinePubkey.bind W.x25519Hex.dec with
          | none =>
            simp only [hfriend]
            exact ⟨rfl, rfl, rfl⟩
          | some pk =>
            simp only [hfriend, hpk, Option.bind_some] at hsafe ⊢
            generalize loadOrInitDrState P W.toDmWire f conn' peerId n.offlineSecretBytes pk
              (decide (n.myPeerId < peerId)) a.drawn = state at hsafe ⊢
            generalize encrypt P a.nonce state (Codec.utf8.enc a.text) = q at hsafe ⊢
            obtain ⟨result, state'⟩ := q
            simp only [mailboxRecord, Bool.false_eq_true, if_false] at hsafe ⊢
            generalize encryptForPeer P d.mail.ephemeral d.mail.nonce pk _ = encrypted at hsafe ⊢
            cases result with
            | error e => cases encrypted <;> exact ⟨rfl, rfl, rfl⟩
            | ok envelope =>
              dsimp only at hsafe ⊢
              split at hsafe
              · cases hsafe
              · next hno =>
                simp only [hno]
                cases encrypted <;> exact ⟨rfl, rfl, rfl⟩

end

/-- A profile without friends. -/
def friendless : Node Key32 where
  myPeerId := "b"
  offlineSecretBytes := secretOf 2
  minTrustDm := 0
  conn := .empty

def friendlessDraw : SendDraw Key32 where
  onion := relayedDraw
  mail := { ephemeral := secretOf 5, nonce := Vector.replicate 12 0, hash := 0, nowMs := 0 }
  putRecord _ := true

/-- A profile whose friend has the smaller id, and so writes first. -/
def waiting : Node Key32 :=
  friendNode wire32.toDmWire "b" "a" (secretOf 2) (plain32.publicKey (secretOf 1))

/-- **A message to a peer that is no friend** is saved as sent by us; the frontend is told that a
    key is missing, and nothing is sent. So is one to a friend that the ratchet has no chain to send
    to. -/
theorem unsent_message_kept :
    ¬ (sendCommand .wrapping plain32 wire32 noFaults friendless "c" relayedArgs
      friendlessDraw).Truthful plain32 wire32
        noFaults friendless "c" relayedArgs friendlessDraw ∧
      ¬ (sendCommand .wrapping plain32 wire32 noFaults waiting "a" relayedArgs
        friendlessDraw).Truthful plain32 wire32
        noFaults waiting "a" relayedArgs friendlessDraw := by
  constructor
  · intro h
    have hrow :
        [PrivateMessage.mk "c" true relayedArgs.text relayedArgs.timestamp relayedArgs.ttl] = [] :=
      (h.unsendable (.unknown rfl)).1
    cases hrow
  · intro h
    have hfriend :=
      friendNode_friend wire32.toDmWire "b" "a" (secretOf 2) (plain32.publicKey (secretOf 1))
    have hun : Unsendable plain32 wire32 noFaults waiting "a" relayedArgs :=
      .unencrypted _ hfriend fun envelope state henc => nomatch congrArg Prod.fst henc
    rcases sendCommand_cases .wrapping plain32 wire32 noFaults waiting "a" relayedArgs
      friendlessDraw with
      ⟨hno, -⟩ | ⟨-, hstored, -⟩
    · exact hno ⟨rfl, fun _ => rfl, by decide, rfl⟩
    · exact hstored (h.unsendable hun)

end AlterChat.Inbound
