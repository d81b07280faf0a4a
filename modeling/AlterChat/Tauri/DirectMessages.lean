import AlterChat.Tauri.Db
import AlterChat.Core.RatchetSession
import Mathlib.Tactic.DeriveEncodable

/-!
# Direct messages

From `alterchat-ui/src-tauri/src/lib.rs`: `load_or_init_dr_state` and `save_dr_state`, the command
`SendPrivateMessage` and the arm `P2pRequest::X3dhDm` of the request handler, each from the moment
its connection, its swarm and its parsed peer id are there. Random draws and the clock are
arguments, as is the block that wraps a request for a relay. The copy that `SendPrivateMessage` puts
into the mailbox of the receiver is left out: nothing here reads it.

* §1 formats and messages, §2 the stored state, §3 the command, §4 the handler;
* §5 what they write: `sendPrivateMessage_cases`, `x3dhDm_cases` and `x3dhDm_read`;
* §6 two peers and the requests between them; §7 two profiles to start from.
-/

namespace AlterChat.DirectMessages

open Lib DoubleRatchet Db

variable {Key : Type}

/-! ## 1. Formats and messages -/

/-- `bincode` for states and envelopes, `hex` for public keys. -/
structure DmWire (Key : Type) where
  stateBytes : Codec (DrState Key) Bytes
  envelopeBytes : Codec (DrEnvelope Key) Bytes
  x25519Hex : Codec Key String

deriving instance Encodable for SkippedKey, DrState, DrHeader, DrEnvelope

/-- The formats that number every value. -/
def DmWire.numbered : DmWire Sym where
  stateBytes := .ofEncodable _
  envelopeBytes := .ofEncodable _
  x25519Hex := .textOfEncodable _

/-- `P2pRequest::X3dhDm`; `init_msg` is always `None` and never read. -/
structure X3dhDm (Key : Type) where
  drEnvelope : Bytes
  senderDhPub : Key
  senderNick : String
  timestamp : Int64
  ttl : Option Int64
  deriving DecidableEq

inductive DmEffect (Key : Type) where
  | sendRequest (peerId : String) (req : X3dhDm Key)
  /-- The request goes to a relay, wrapped. -/
  | onionForward (relay : String) (packet : Bytes) (req : X3dhDm Key)
  /-- `X3dhDmAck`. -/
  | sendResponse (success : Bool)
  | emit (event payload : String)
  | newPrivateMessage (peerId senderNick text : String) (timestamp : Int64) (ttl : Option Int64)
  deriving DecidableEq

/-- What the event loop of a logged-in profile knows. -/
structure Node (Key : Type) where
  myPeerId : String
  offlineSecretBytes : Key
  minTrustDm : Int64
  conn : Database

/-! ## 2. The stored state -/

/-- `derive_static_shared_secret`. -/
def deriveStaticSharedSecret (P : Primitives Key) (mySecret peerPubkey : Key) : Key :=
  P.diffieHellman mySecret peerPubkey

/-- The key of a peer's row in `ratchet_states`. -/
def drKey (peerId : String) : String := "dr:" ++ peerId

/-- `load_or_init_dr_state`, with the secret `init_alice` draws. -/
def loadOrInitDrState (P : Primitives Key) (C : DmWire Key) (f : Faults) (conn : Database)
    (peerId : String) (mySecret peerPubkey : Key) (isInitiator : Bool) (drawn : Key) :
    DrState Key :=
  let sk := deriveStaticSharedSecret P mySecret peerPubkey
  let fresh :=
    if isInitiator then initAlice P drawn sk peerPubkey
    else initBob sk mySecret (P.publicKey mySecret)
  match loadRatchetState f conn (drKey peerId) with
  | .ok (some blob) => (C.stateBytes.dec blob).getD fresh
  | _ => fresh

/-- `save_dr_state`. -/
def saveDrState (C : DmWire Key) (f : Faults) (conn : Database) (peerId : String)
    (state : DrState Key) : Database :=
  (saveRatchetState f conn (drKey peerId) (C.stateBytes.enc state)).2

/-! ## 3. `SendPrivateMessage` -/

/-- What the user enters, and what is drawn and read while the command runs. -/
structure SendArgs (Key : Type) where
  text : String
  senderNick : String
  ttl : Option Int64
  useOnion : Bool
  timestamp : Int64
  drawn : Key
  nonce : Nonce
  /-- The relay and the packet, where the block that wraps a request finds a way. -/
  onion : X3dhDm Key → Option (String × Bytes)

/-- The request it sends. -/
def dmRequest (C : DmWire Key) (a : SendArgs Key) (envelope : DrEnvelope Key)
    (state : DrState Key) : X3dhDm Key where
  drEnvelope := C.envelopeBytes.enc envelope
  senderDhPub := state.dhSendPub
  senderNick := a.senderNick
  timestamp := a.timestamp
  ttl := a.ttl

/-- The arm `AppCommand::SendPrivateMessage`. -/
def sendPrivateMessage (P : Primitives Key) (C : DmWire Key) (f : Faults) (n : Node Key)
    (peerId : String) (a : SendArgs Key) : Database × List (DmEffect Key) :=
  let (settings, conn) := getPeerSettings f n.conn peerId
  if (settings.toOption.map fun p => p.blocked).getD false = true then
    (conn, [.emit "private-message-blocked" peerId])
  else if (settings.toOption.map fun p => p.trustLevel).getD 0 < n.minTrustDm then
    (conn, [.emit "private-message-blocked" peerId])
  else
    let conn := (savePrivateMessage f conn peerId true a.text a.timestamp a.ttl).2
    let friends := (getFriends f conn).toOption.getD []
    match friends.find? fun r => decide (r.1 = peerId) with
    | none => (conn, [.emit "dm-requires-pubkey" peerId])
    | some (_, friend) =>
      if friend.blocked = true then (conn, [.emit "private-message-blocked" peerId])
      else
        match friend.offlinePubkey.bind C.x25519Hex.dec with
        | none => (conn, [.emit "dm-requires-pubkey" peerId])
        | some pk =>
          let state := loadOrInitDrState P C f conn peerId n.offlineSecretBytes pk
            (decide (n.myPeerId < peerId)) a.drawn
          match encrypt P a.nonce state (Codec.utf8.enc a.text) with
          | (.error _, _) => (conn, [.emit "dm-requires-pubkey" peerId])
          | (.ok envelope, state) =>
            let req := dmRequest C a envelope state
            let sent : DmEffect Key :=
              match if a.useOnion then a.onion req else none with
              | some (relay, packet) => .onionForward relay packet req
              | none => .sendRequest peerId req
            (saveDrState C f conn peerId state, [sent])

/-! ## 4. The `X3dhDm` handler -/

/-- The arm `P2pRequest::X3dhDm`, with the secrets `init_alice` and a ratchet step draw. -/
def x3dhDm [DecidableEq Key] [Zero Key] (P : Primitives Key) (C : DmWire Key) (f : Faults)
    (n : Node Key) (peerId : String) (req : X3dhDm Key) (drawn newSecret : Key) :
    Database × List (DmEffect Key) :=
  let friends := (getFriends f n.conn).toOption.getD []
  match friends.find? fun r => decide (r.1 = peerId) && !r.2.blocked with
  | none => (n.conn, [.sendResponse false])
  | some (_, friend) =>
    match friend.offlinePubkey.bind C.x25519Hex.dec with
    | none => (n.conn, [.sendResponse false])
    | some pk =>
      match C.envelopeBytes.dec req.drEnvelope with
      | none => (n.conn, [.sendResponse false])
      | some envelope =>
        let state := loadOrInitDrState P C f n.conn peerId n.offlineSecretBytes pk
          (decide (peerId < n.myPeerId)) drawn
        match decrypt P newSecret state envelope with
        | (.error _, _) => (n.conn, [.sendResponse false])
        | (.ok plaintext, state) =>
          match Codec.utf8.dec plaintext with
          | none => (n.conn, [.sendResponse false])
          | some text =>
            let conn := (savePrivateMessage f n.conn peerId false text req.timestamp req.ttl).2
            (saveDrState C f conn peerId state,
              [.newPrivateMessage peerId req.senderNick text req.timestamp req.ttl,
                .sendResponse true])

/-! ## 5. What they write -/

/-- The requests among the effects. -/
def requests (effects : List (DmEffect Key)) : List (X3dhDm Key) :=
  effects.filterMap fun
    | .sendRequest _ req => some req
    | .onionForward _ _ req => some req
    | _ => none

/-- The messages saved as received from a peer. -/
def incoming (conn : Database) (peerId : String) : List PrivateMessage :=
  conn.privateMessages.filter fun m => decide (m.peerId = peerId) && !m.senderIsMe

/-- The peer is a friend, not blocked, and this is its public key. -/
def FriendKey (C : DmWire Key) (conn : Database) (peerId : String) (pk : Key) : Prop :=
  ∃ friend, conn.friends.lookup peerId = some friend ∧ friend.blocked = false ∧
    friend.offlinePubkey.bind C.x25519Hex.dec = some pk

/-- The state stored for a peer. -/
def StoredState (C : DmWire Key) (conn : Database) (peerId : String) (state : DrState Key) : Prop :=
  ∃ blob, conn.ratchetStates.lookup (drKey peerId) = some blob ∧ C.stateBytes.dec blob = some state

theorem StoredState.inj {C : DmWire Key} {conn : Database} {peerId : String}
    {state state' : DrState Key} (h : StoredState C conn peerId state)
    (h' : StoredState C conn peerId state') : state = state' := by
  obtain ⟨blob, hrow, hdec⟩ := h
  obtain ⟨blob', hrow', hdec'⟩ := h'
  rw [hrow] at hrow'
  cases hrow'
  exact Option.some.inj (hdec.symm.trans hdec')

theorem FriendKey.inj {C : DmWire Key} {conn : Database} {peerId : String} {pk pk' : Key}
    (h : FriendKey C conn peerId pk) (h' : FriendKey C conn peerId pk') : pk = pk' := by
  obtain ⟨friend, hf, -, hk⟩ := h
  obtain ⟨friend', hf', -, hk'⟩ := h'
  rw [hf] at hf'
  cases hf'
  exact Option.some.inj (hk.symm.trans hk')

section

variable {P : Primitives Key} {C : DmWire Key} {f : Faults} {conn conn' : Database}
  {peerId : String} {mySecret pk : Key} {isInitiator : Bool} {drawn : Key} {state : DrState Key}

/-- Only `ratchet_states` matters. -/
theorem loadOrInitDrState_congr (h : conn'.ratchetStates = conn.ratchetStates) :
    loadOrInitDrState P C f conn' peerId mySecret pk isInitiator drawn =
      loadOrInitDrState P C f conn peerId mySecret pk isInitiator drawn := by
  unfold loadOrInitDrState loadRatchetState
  rw [h]

/-- A stored state is loaded, whatever the role flag says. -/
theorem loadOrInitDrState_read (hf : f .loadRatchetState = none)
    (h : StoredState C conn peerId state) :
    loadOrInitDrState P C f conn peerId mySecret pk isInitiator drawn = state := by
  obtain ⟨blob, hrow, hdec⟩ := h
  simp [loadOrInitDrState, loadRatchetState, query, hf, hrow, hdec]

theorem loadOrInitDrState_stored (h : StoredState C conn peerId state) :
    loadOrInitDrState P C noFaults conn peerId mySecret pk isInitiator drawn = state :=
  loadOrInitDrState_read rfl h

/-- **What is loaded**: the stored state, or a new one. -/
theorem loadOrInitDrState_cases (P : Primitives Key) (C : DmWire Key) (f : Faults) (conn : Database)
    (peerId : String) (mySecret pk : Key) (isInitiator : Bool) (drawn : Key) :
    (∃ st, f .loadRatchetState = none ∧ StoredState C conn peerId st ∧
      loadOrInitDrState P C f conn peerId mySecret pk isInitiator drawn = st) ∨
    loadOrInitDrState P C f conn peerId mySecret pk isInitiator drawn =
      if isInitiator then initAlice P drawn (deriveStaticSharedSecret P mySecret pk) pk
      else initBob (deriveStaticSharedSecret P mySecret pk) mySecret (P.publicKey mySecret) := by
  unfold loadOrInitDrState
  simp only
  split
  · next blob hload =>
    cases hdec : C.stateBytes.dec blob with
    | none => exact .inr rfl
    | some st => exact .inl ⟨st, (query_ok hload).1, ⟨blob, (query_ok hload).2, hdec⟩, rfl⟩
  · exact .inr rfl

/-- Without a row the role flag decides. -/
theorem loadOrInitDrState_none (h : conn.ratchetStates.lookup (drKey peerId) = none) :
    loadOrInitDrState P C f conn peerId mySecret pk isInitiator drawn =
      if isInitiator then initAlice P drawn (deriveStaticSharedSecret P mySecret pk) pk
      else initBob (deriveStaticSharedSecret P mySecret pk) mySecret (P.publicKey mySecret) := by
  unfold loadOrInitDrState loadRatchetState query
  rw [h]
  cases f .loadRatchetState <;> rfl

/-- `save_dr_state` writes to `ratchet_states` only. -/
theorem saveDrState_frame (C : DmWire Key) (f : Faults) (conn : Database) (peerId : String)
    (state : DrState Key) :
    saveDrState C f conn peerId state =
      { conn with
        ratchetStates :=
          if f .saveRatchetState = none then
            conn.ratchetStates.upsert (drKey peerId) (C.stateBytes.enc state)
              fun _ => C.stateBytes.enc state
          else conn.ratchetStates } := by
  unfold saveDrState saveRatchetState execute
  cases f .saveRatchetState <;> rfl

theorem incoming_saveDrState (C : DmWire Key) (f : Faults) (conn : Database) (peerId : String)
    (state : DrState Key) (id : String) :
    incoming (saveDrState C f conn peerId state) id = incoming conn id := by
  rw [saveDrState_frame]
  rfl

/-- A received message is one more. -/
theorem incoming_saveReceived (conn : Database) (peerId text : String) (timestamp : Int64)
    (ttl : Option Int64) :
    incoming (savePrivateMessage noFaults conn peerId false text timestamp ttl).2 peerId =
      incoming conn peerId ++ [{ peerId, senderIsMe := false, text, timestamp, ttl }] := by
  simp [incoming, savePrivateMessage]

/-- What has been saved is stored. -/
theorem storedState_saved (C : DmWire Key) (hf : f .saveRatchetState = none) (conn : Database)
    (peerId : String) (state : DrState Key) :
    StoredState C (saveDrState C f conn peerId state) peerId state := by
  have hrow : (saveDrState C f conn peerId state).ratchetStates.lookup (drKey peerId) =
      some (C.stateBytes.enc state) := by
    rw [saveDrState_frame]
    simp only [hf, if_true]
    rw [Table.lookup_upsert_const, if_pos rfl]
  exact ⟨_, hrow, C.stateBytes.dec_enc state⟩

theorem storedState_save (C : DmWire Key) (conn : Database) (peerId : String)
    (state : DrState Key) :
    StoredState C (saveDrState C noFaults conn peerId state) peerId state :=
  storedState_saved C rfl conn peerId state

/-- What is stored after a save is what was saved or what was stored before. -/
theorem storedState_of_save {state' : DrState Key}
    (h : StoredState C (saveDrState C f conn peerId state) peerId state') :
    state' = state ∨ StoredState C conn peerId state' := by
  obtain ⟨blob, hrow, hdec⟩ := h
  rw [saveDrState_frame] at hrow
  by_cases hf : f .saveRatchetState = none
  · rw [show (Database.ratchetStates _ : Table String Bytes) = _ from if_pos hf,
      Table.lookup_upsert_const, if_pos rfl] at hrow
    cases hrow
    rw [C.stateBytes.dec_enc] at hdec
    exact .inl (Option.some.inj hdec).symm
  · rw [show (Database.ratchetStates _ : Table String Bytes) = _ from if_neg hf] at hrow
    exact .inr ⟨blob, hrow, hdec⟩

/-- A friend that is found is the one with a row. -/
theorem getFriends_find (cond : Friend → Bool) {r : String × Friend}
    (h : ((getFriends f conn).toOption.getD []).find?
      (fun r => decide (r.1 = peerId) && cond r.2) = some r) :
    conn.friends.lookup peerId = some r.2 ∧ cond r.2 = true := by
  unfold getFriends query at h
  split at h
  · cases h
  · simp only [Except.toOption, Option.getD_some, Table.find?_rows] at h
    obtain ⟨friend, hf, rfl⟩ := Option.map_eq_some_iff.mp h
    exact Option.filter_eq_some_iff.mp hf

/-- A friend with a row is found. -/
theorem getFriends_find_of (cond : Friend → Bool) {friend : Friend} (hf : f .getFriends = none)
    (h : conn.friends.lookup peerId = some friend) (hc : cond friend = true) :
    ((getFriends f conn).toOption.getD []).find?
      (fun r => decide (r.1 = peerId) && cond r.2) = some (peerId, friend) := by
  unfold getFriends query
  rw [hf]
  simp only [Except.toOption, Option.getD_some, Table.find?_rows, h]
  simp [Option.filter, hc]

/-- The same by the id alone. -/
theorem getFriends_lookup {r : String × Friend}
    (h : ((getFriends f conn).toOption.getD []).find? (fun r => decide (r.1 = peerId)) = some r) :
    conn.friends.lookup peerId = some r.2 := by
  have hall : (fun r : String × Friend => decide (r.1 = peerId)) =
      fun r => decide (r.1 = peerId) && (fun _ => true) r.2 := by simp
  rw [hall] at h
  exact (getFriends_find (fun _ => true) h).1

end

/-- Friends, states and received messages are the same. -/
structure Untouched (conn conn' : Database) : Prop where
  friends : conn'.friends = conn.friends
  ratchetStates : conn'.ratchetStates = conn.ratchetStates
  incoming : ∀ id, incoming conn' id = incoming conn id

theorem Untouched.refl (conn : Database) : Untouched conn conn := ⟨rfl, rfl, fun _ => rfl⟩

theorem Untouched.trans {conn₁ conn₂ conn₃ : Database} (h : Untouched conn₁ conn₂)
    (h' : Untouched conn₂ conn₃) : Untouched conn₁ conn₃ where
  friends := h'.friends.trans h.friends
  ratchetStates := h'.ratchetStates.trans h.ratchetStates
  incoming id := (h'.incoming id).trans (h.incoming id)

theorem getPeerSettings_untouched (f : Faults) (conn : Database) (peerId : String) :
    Untouched conn (getPeerSettings f conn peerId).2 := by
  obtain ⟨table, h⟩ := getPeerSettings_frame f conn peerId
  rw [h]
  exact ⟨rfl, rfl, fun _ => rfl⟩

/-- The row of a message sent is the sender's own. -/
theorem saveSent_untouched (f : Faults) (conn : Database) (peerId text : String)
    (timestamp : Int64) (ttl : Option Int64) :
    Untouched conn (savePrivateMessage f conn peerId true text timestamp ttl).2 := by
  obtain ⟨index, h⟩ := savePrivateMessage_frame f conn peerId true text timestamp ttl
  rw [h]
  refine ⟨rfl, rfl, fun id => ?_⟩
  unfold incoming
  by_cases hf : f .savePrivateMessage = none <;> simp [hf]

/-- **What `SendPrivateMessage` writes**: no friend and no received message; and either no state and
    no request, or the state after `encrypt`, with the envelope in the one request it sends. -/
theorem sendPrivateMessage_cases (P : Primitives Key) (C : DmWire Key) (f : Faults) (n : Node Key)
    (peerId : String) (a : SendArgs Key) :
    (Untouched n.conn (sendPrivateMessage P C f n peerId a).1 ∧
      requests (sendPrivateMessage P C f n peerId a).2 = []) ∨
    ∃ pk envelope state conn, FriendKey C n.conn peerId pk ∧
      encrypt P a.nonce (loadOrInitDrState P C f n.conn peerId n.offlineSecretBytes pk
        (decide (n.myPeerId < peerId)) a.drawn) (Codec.utf8.enc a.text) = (.ok envelope, state) ∧
      requests (sendPrivateMessage P C f n peerId a).2 = [dmRequest C a envelope state] ∧
      Untouched n.conn conn ∧
      (sendPrivateMessage P C f n peerId a).1 = saveDrState C f conn peerId state := by
  have hpeer := getPeerSettings_untouched f n.conn peerId
  unfold sendPrivateMessage
  generalize getPeerSettings f n.conn peerId = peer at hpeer
  obtain ⟨settings, conn₁⟩ := peer
  simp only at hpeer ⊢
  have hsame := hpeer.trans (saveSent_untouched f conn₁ peerId a.text a.timestamp a.ttl)
  generalize (savePrivateMessage f conn₁ peerId true a.text a.timestamp a.ttl).2 = conn at hsame ⊢
  split
  · exact .inl ⟨hpeer, rfl⟩
  · split
    · exact .inl ⟨hpeer, rfl⟩
    · split
      · exact .inl ⟨hsame, rfl⟩
      · next id friend hfind =>
        split
        · exact .inl ⟨hsame, rfl⟩
        · next hblocked =>
          split
          · exact .inl ⟨hsame, rfl⟩
          · next pk hpk =>
            split
            · exact .inl ⟨hsame, rfl⟩
            · next envelope state henc =>
              have hlookup := getFriends_lookup hfind
              rw [hsame.friends] at hlookup
              rw [loadOrInitDrState_congr hsame.ratchetStates] at henc
              refine .inr ⟨pk, envelope, state, conn, ⟨friend, hlookup, by simpa using hblocked,
                hpk⟩, henc, ?_, hsame, rfl⟩
              unfold requests
              split <;> rfl

/-- **What a command asks first**: the settings, and after the message has been saved the friend. -/
theorem asked_of_friend {C : DmWire Key} {f : Faults} {conn : Database} {peerId : String} {pk : Key}
    (hi : f .insertPeerSettings = none) (hs : f .selectPeerSettings = none)
    (hg : f .getFriends = none) (hfriend : FriendKey C conn peerId pk) (text : String)
    (timestamp : Int64) (ttl : Option Int64) :
    (getPeerSettings f conn peerId).1.toOption = some (conn.settingsOf peerId) ∧
    ∃ friend : Friend, ((getFriends f (savePrivateMessage f (getPeerSettings f conn peerId).2 peerId
        true text timestamp ttl).2).toOption.getD []).find? (fun r => decide (r.1 = peerId)) =
          some (peerId, friend) ∧
      friend.blocked = false ∧ friend.offlinePubkey.bind C.x25519Hex.dec = some pk := by
  have hsame := (getPeerSettings_untouched f conn peerId).trans
    (saveSent_untouched f _ peerId text timestamp ttl)
  obtain ⟨friend, hlookup, hopen, hpk⟩ := hfriend
  rw [← hsame.friends] at hlookup
  have hfind := getFriends_find_of (fun _ => true) hg hlookup rfl
  simp only [Bool.and_true] at hfind
  refine ⟨?_, friend, hfind, hopen, hpk⟩
  rw [getPeerSettings_read hi hs]
  rfl

/-- Where the request of a command goes. -/
def handedOver (peerId : String) (a : SendArgs Key) (req : X3dhDm Key) : DmEffect Key :=
  match if a.useOnion then a.onion req else none with
  | some (relay, packet) => .onionForward relay packet req
  | none => .sendRequest peerId req

theorem requests_handedOver (peerId : String) (a : SendArgs Key) (req : X3dhDm Key) :
    requests [handedOver peerId a req] = [req] := by
  unfold requests handedOver
  split <;> rfl

/-- **A friend is sent what `encrypt` makes of the text**, if its settings allow it. -/
theorem sendPrivateMessage_hands {P : Primitives Key} {C : DmWire Key} {f : Faults} {n : Node Key}
    {peerId : String} {a : SendArgs Key} {pk : Key} {envelope : DrEnvelope Key}
    {state : DrState Key} (hi : f .insertPeerSettings = none) (hs : f .selectPeerSettings = none)
    (hg : f .getFriends = none) (hblocked : (n.conn.settingsOf peerId).blocked = false)
    (htrust : n.minTrustDm ≤ (n.conn.settingsOf peerId).trustLevel)
    (hfriend : FriendKey C n.conn peerId pk)
    (henc : encrypt P a.nonce (loadOrInitDrState P C f n.conn peerId n.offlineSecretBytes pk
      (decide (n.myPeerId < peerId)) a.drawn) (Codec.utf8.enc a.text) = (.ok envelope, state)) :
    (sendPrivateMessage P C f n peerId a).2 =
      [handedOver peerId a (dmRequest C a envelope state)] := by
  have hsame := (getPeerSettings_untouched f n.conn peerId).trans
    (saveSent_untouched f _ peerId a.text a.timestamp a.ttl)
  obtain ⟨hsettings, friend, hfind, hopen, hpk⟩ :=
    asked_of_friend hi hs hg hfriend a.text a.timestamp a.ttl
  rw [← loadOrInitDrState_congr hsame.ratchetStates] at henc
  unfold sendPrivateMessage
  generalize getPeerSettings f n.conn peerId = peer at hsettings hfind henc
  obtain ⟨settings, conn⟩ := peer
  simp only at hsettings hfind henc ⊢
  have hlow : ¬ (n.conn.settingsOf peerId).trustLevel < n.minTrustDm := Int64.not_lt.mpr htrust
  simp only [hsettings, Option.map_some, Option.getD_some, hblocked, hlow, hfind, hopen, hpk, henc,
    Bool.false_eq_true, if_false]
  rfl

/-- A friend without settings is sent it. -/
theorem sendPrivateMessage_sends {P : Primitives Key} {C : DmWire Key} {n : Node Key}
    {peerId : String} {a : SendArgs Key} {pk : Key} {envelope : DrEnvelope Key}
    {state : DrState Key} (hpeer : n.conn.peerSettings.lookup peerId = none)
    (htrust : n.minTrustDm ≤ 0) (hfriend : FriendKey C n.conn peerId pk)
    (henc : encrypt P a.nonce (loadOrInitDrState P C noFaults n.conn peerId n.offlineSecretBytes pk
      (decide (n.myPeerId < peerId)) a.drawn) (Codec.utf8.enc a.text) = (.ok envelope, state)) :
    requests (sendPrivateMessage P C noFaults n peerId a).2 = [dmRequest C a envelope state] := by
  have hdefault : n.conn.settingsOf peerId = .default := by
    rw [Database.settingsOf, hpeer, Option.getD_none]
  rw [sendPrivateMessage_hands rfl rfl rfl (by rw [hdefault]; rfl) (by rw [hdefault]; exact htrust)
    hfriend henc, requests_handedOver]

/-- A command leaves everyone's settings as they are. -/
theorem sendPrivateMessage_settingsOf (P : Primitives Key) (C : DmWire Key) (f : Faults)
    (n : Node Key) (peerId : String) (a : SendArgs Key) (id : String) :
    (sendPrivateMessage P C f n peerId a).1.settingsOf id = n.conn.settingsOf id := by
  have hread := getPeerSettings_settingsOf f n.conn peerId id
  unfold sendPrivateMessage
  generalize getPeerSettings f n.conn peerId = peer at hread
  obtain ⟨settings, conn₁⟩ := peer
  simp only at hread ⊢
  have hsaved : (savePrivateMessage f conn₁ peerId true a.text a.timestamp a.ttl).2.settingsOf id =
      n.conn.settingsOf id := by
    obtain ⟨index, h⟩ := savePrivateMessage_frame f conn₁ peerId true a.text a.timestamp a.ttl
    rw [h]
    exact hread
  generalize (savePrivateMessage f conn₁ peerId true a.text a.timestamp a.ttl).2 = conn at hsaved ⊢
  split
  · exact hread
  · split
    · exact hread
    · split
      · exact hsaved
      · split
        · exact hsaved
        · split
          · exact hsaved
          · split
            · exact hsaved
            · rw [saveDrState_frame]
              exact hsaved

/-- **What the handler writes**: nothing, or the message it has decrypted and the state after it. -/
theorem x3dhDm_cases [DecidableEq Key] [Zero Key] (P : Primitives Key) (C : DmWire Key) (f : Faults)
    (n : Node Key) (peerId : String) (req : X3dhDm Key) (drawn newSecret : Key) :
    (x3dhDm P C f n peerId req drawn newSecret).1 = n.conn ∨
    ∃ pk envelope plaintext text state, FriendKey C n.conn peerId pk ∧
      C.envelopeBytes.dec req.drEnvelope = some envelope ∧
      decrypt P newSecret (loadOrInitDrState P C f n.conn peerId n.offlineSecretBytes pk
        (decide (peerId < n.myPeerId)) drawn) envelope = (.ok plaintext, state) ∧
      Codec.utf8.dec plaintext = some text ∧
      (x3dhDm P C f n peerId req drawn newSecret).1 = saveDrState C f
        (savePrivateMessage f n.conn peerId false text req.timestamp req.ttl).2 peerId state := by
  unfold x3dhDm
  simp only
  split
  · exact .inl rfl
  · next id friend hfind =>
    obtain ⟨hlookup, hblocked⟩ := getFriends_find (fun x => !x.blocked) hfind
    split
    · exact .inl rfl
    · next pk hpk =>
      split
      · exact .inl rfl
      · next envelope henv =>
        split
        · exact .inl rfl
        · next plaintext state hdec =>
          split
          · exact .inl rfl
          · next text htext =>
            exact .inr ⟨pk, envelope, plaintext, text, state,
              ⟨friend, hlookup, by simpa using hblocked, hpk⟩, henv, hdec, htext, rfl⟩

/-- **A friend's envelope that decrypts to a text is saved.** -/
theorem x3dhDm_read [DecidableEq Key] [Zero Key] {P : Primitives Key} {C : DmWire Key} {f : Faults}
    {n : Node Key} {peerId : String} {req : X3dhDm Key} {drawn newSecret pk : Key}
    {envelope : DrEnvelope Key} {text : String} {state : DrState Key}
    (hf : f .getFriends = none) (hfriend : FriendKey C n.conn peerId pk)
    (henv : C.envelopeBytes.dec req.drEnvelope = some envelope)
    (hdec : decrypt P newSecret (loadOrInitDrState P C f n.conn peerId n.offlineSecretBytes pk
      (decide (peerId < n.myPeerId)) drawn) envelope = (.ok (Codec.utf8.enc text), state)) :
    (x3dhDm P C f n peerId req drawn newSecret).1 = saveDrState C f
      (savePrivateMessage f n.conn peerId false text req.timestamp req.ttl).2 peerId state := by
  obtain ⟨friend, hlookup, hblocked, hpk⟩ := hfriend
  have hfind := getFriends_find_of (fun x => !x.blocked) hf hlookup (by simpa using hblocked)
  simp only [x3dhDm, hfind, hpk, henv, hdec, Codec.dec_enc]

/-! ## 6. Two peers -/

/-- Two peers, the requests each has sent with their texts, and what has been given to the other. -/
structure DmWorld (Key : Type) where
  node : Side → Node Key
  sent : Side → List (X3dhDm Key × String)
  /-- The places in `sent` that the other side has been given, in the order of the first time. -/
  given : Side → List Nat
  /-- The public keys drawn so far. -/
  pubs : List Key

/-- The peer id of the other side. -/
def DmWorld.peer (w : DmWorld Key) (p : Side) : String := (w.node p.other).myPeerId

/-- A side's database after it has written. -/
def DmWorld.setConn (w : DmWorld Key) (p : Side) (conn : Database) : DmWorld Key :=
  { w with node := Function.update w.node p { w.node p with conn } }

inductive DmEvent (Key : Type) where
  | send (f : Faults) (p : Side) (a : SendArgs Key)
  /-- The `k`-th request of the other side reaches `p`. -/
  | deliver (f : Faults) (p : Side) (k : Nat) (drawn newSecret : Key)
  /-- Some other request reaches `p` in the name of the other side. -/
  | inject (f : Faults) (p : Side) (req : X3dhDm Key) (drawn newSecret : Key)

/-- The first deliveries, with one more delivery. -/
def firstTime (given : List Nat) (k : Nat) : List Nat := if k ∈ given then given else given ++ [k]

theorem mem_firstTime (given : List Nat) (k : Nat) : k ∈ firstTime given k := by
  unfold firstTime
  by_cases h : k ∈ given <;> simp [h]

section

variable [DecidableEq Key] [Zero Key]

/-- The world after an event. -/
def DmWorld.after (P : Primitives Key) (C : DmWire Key) (w : DmWorld Key) :
    DmEvent Key → DmWorld Key
  | .send f p a =>
    let out := sendPrivateMessage P C f (w.node p) (w.peer p) a
    { w.setConn p out.1 with
      sent := Function.update w.sent p (w.sent p ++ (requests out.2).map fun req => (req, a.text)) }
  | .deliver f p k drawn newSecret =>
    match (w.sent p.other)[k]? with
    | none => w
    | some (req, _) =>
      { w.setConn p (x3dhDm P C f (w.node p) (w.peer p) req drawn newSecret).1 with
        given := Function.update w.given p.other (firstTime (w.given p.other) k)
        pubs := P.publicKey newSecret :: w.pubs }
  | .inject f p req drawn newSecret =>
    w.setConn p (x3dhDm P C f (w.node p) (w.peer p) req drawn newSecret).1

theorem DmWorld.after_send_sent (P : Primitives Key) (C : DmWire Key) (w : DmWorld Key) (f : Faults)
    (p : Side) (a : SendArgs Key) :
    (w.after P C (.send f p a)).sent p = w.sent p ++
      (requests (sendPrivateMessage P C f (w.node p) (w.peer p) a).2).map fun req =>
        (req, a.text) :=
  Function.update_self ..

theorem DmWorld.after_send_pubs (P : Primitives Key) (C : DmWire Key) (w : DmWorld Key) (f : Faults)
    (p : Side) (a : SendArgs Key) : (w.after P C (.send f p a)).pubs = w.pubs := rfl

theorem DmWorld.after_deliver_given (P : Primitives Key) (C : DmWire Key) {w : DmWorld Key}
    {p : Side} {k : Nat} {x : X3dhDm Key × String} (hk : (w.sent p.other)[k]? = some x) (f : Faults)
    (drawn newSecret : Key) :
    (w.after P C (.deliver f p k drawn newSecret)).given p.other =
      firstTime (w.given p.other) k := by
  simp only [DmWorld.after, hk]
  exact Function.update_self ..

/-- One event. -/
def DmStep (P : Primitives Key) (C : DmWire Key) (w : DmWorld Key) (ev : DmEvent Key)
    (w' : DmWorld Key) : Prop :=
  w' = w.after P C ev

end

section

variable (w : DmWorld Key) (p : Side) (conn : Database)

@[simp] theorem DmWorld.setConn_self : ((w.setConn p conn).node p).conn = conn := by
  simp [DmWorld.setConn]

@[simp] theorem DmWorld.setConn_other : (w.setConn p conn).node p.other = w.node p.other := by
  simp [DmWorld.setConn, Function.update_of_ne p.other_ne]

@[simp] theorem DmWorld.setConn_myPeerId (q : Side) :
    ((w.setConn p conn).node q).myPeerId = (w.node q).myPeerId := by
  rcases p.eq_or_other q with rfl | rfl
  · simp [DmWorld.setConn]
  · rw [setConn_other]

@[simp] theorem DmWorld.setConn_secret (q : Side) :
    ((w.setConn p conn).node q).offlineSecretBytes = (w.node q).offlineSecretBytes := by
  rcases p.eq_or_other q with rfl | rfl
  · simp [DmWorld.setConn]
  · rw [setConn_other]

@[simp] theorem DmWorld.setConn_peer (q : Side) : (w.setConn p conn).peer q = w.peer q :=
  setConn_myPeerId w p conn q.other

end

/-! ## 7. Where a run can start -/

/-- A session of a fresh profile: the other peer is a friend, with its public key. -/
def friendNode (C : DmWire Key) (me other : String) (secret otherPubkey : Key) : Node Key where
  myPeerId := me
  offlineSecretBytes := secret
  minTrustDm := 0
  conn :=
    { Database.empty with
      friends := (∅ : Table String Friend).insert other
        { nickname := other, offlinePubkey := some (C.x25519Hex.enc otherPubkey), trustLevel := 0
          blocked := false, muted := false, notes := none } }

theorem friendNode_friend (C : DmWire Key) (me other : String) (secret otherPubkey : Key) :
    FriendKey C (friendNode C me other secret otherPubkey).conn other otherPubkey :=
  ⟨_, AList.lookup_insert _, rfl, by simp⟩

/-- A short message. -/
def greetingArgs : SendArgs Sym where
  text := "hi"
  senderNick := "A"
  ttl := none
  useOnion := false
  timestamp := 0
  drawn := .secret 7
  nonce := Vector.replicate 12 0
  onion _ := none

end AlterChat.DirectMessages
