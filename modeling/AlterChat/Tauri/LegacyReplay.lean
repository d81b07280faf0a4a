import AlterChat.Core.LegacyRatchet
import AlterChat.Tauri.Handling

/-!
# A legacy envelope is read once

`RatchetPrivateMessage` comes by itself, or in an onion in the name of whom the sealed message says.
Both ways end at one row of `ratchet_states`, and nothing else is looked at: no list of envelopes,
no time.

* §1 `carried` -- in whose name a request speaks, and `handleRequest_carried` -- what it does to the
  states;
* §2 `handled_spec` -- a message that is read;
* §3 `Reader` -- a session, and the envelopes it has read; §4 `Behind` -- each was read with a key
  that the chain has left;
* §5 `legacy_read_once` -- where the states are loaded and saved, no ciphertext is read twice in a
  peer's name; `unsaved_read_again` -- where one is not saved, the same request is read again.
-/

namespace AlterChat.LegacyReplay

open Lib Db Crypto Onion Requests DirectMessages Inbound LegacyRatchet

variable {Key : Type}

/-! ## 1. What a request carries -/

/-- A legacy envelope in the name of a peer, with the rest of its request. -/
structure Carried where
  peerId : String
  envelope : Bytes
  senderNick : String
  timestamp : Int64
  ttl : Option Int64

section

variable (P : Primitives Key) (W : NetWire Key) (n : Node Key)

/-- In the payload of an onion: the sender is whom the sealed message names. -/
def sealedCarried (payload : Bytes) : Option Carried :=
  match (sealedLayout W.key).decode payload with
  | none => none
  | some sealedMsg =>
    match sealedReceive P W.key n.offlineSecretBytes sealedMsg with
    | .error _ => none
    | .ok (_, senderPeerId, innerBytes) =>
      match (requestLayout W.key).decode innerBytes with
      | some (.ratchetPrivateMessage envelope senderNick timestamp ttl) =>
        some { peerId := senderPeerId, envelope, senderNick, timestamp, ttl }
      | _ => none

/-- In an onion that goes no further. -/
def onionCarried (packet : Bytes) : Option Carried :=
  match (packetLayout W.key).decode packet with
  | none => none
  | some onionPacket =>
    match peelOnion P W.key n.offlineSecretBytes onionPacket with
    | .error _ => none
    | .ok layer =>
      match layer.nextHop, layer.payload with
      | none, some payload => sealedCarried P W n payload
      | _, _ => none

def carried (peer : String) : P2pRequest Key → Option Carried
  | .ratchetPrivateMessage envelope senderNick timestamp ttl =>
    some { peerId := peer, envelope, senderNick, timestamp, ttl }
  | .onionForward packet => onionCarried P W n packet
  | _ => none

/-- It is read and saved, or nothing happens. -/
def Carried.handle (f : Faults) (c : Carried) : Option (Database × NetEffect Key) :=
  ratchetMessage P W f n c.peerId c.envelope c.senderNick c.timestamp c.ttl

/-- The database after what is carried, if anything is. -/
def handled (f : Faults) (c : Option Carried) : Database :=
  ((c.bind (Carried.handle P W n f)).map Prod.fst).getD n.conn

end

/-- The row of a peer in `ratchet_states` that is not one of the double ratchet. -/
def LegacyRow (peerId : String) : Prop := ∀ id, peerId ≠ drKey id

/-- The rows of the legacy ratchet are the same. -/
def SameStates (conn conn' : Database) : Prop :=
  ∀ peerId, LegacyRow peerId → conn'.ratchetStates.lookup peerId = conn.ratchetStates.lookup peerId

section

variable {P : Primitives Key} {W : NetWire Key} {f : Faults} {n : Node Key}

theorem handled_some (c : Carried) :
    handled P W n f (some c) =
      match c.handle P W n f with
      | none => n.conn
      | some (conn, _) => conn := by
  unfold handled
  dsimp only [Option.bind]
  cases c.handle P W n f <;> rfl

theorem onionPayload_carried (payload : Bytes) :
    (onionPayload P W f n payload).1 = handled P W n f (sealedCarried P W n payload) := by
  unfold onionPayload sealedCarried
  cases (sealedLayout W.key).decode payload with
  | none => rfl
  | some sealedMsg =>
    dsimp only
    cases sealedReceive P W.key n.offlineSecretBytes sealedMsg with
    | error e => rfl
    | ok opened =>
      obtain ⟨pub, senderPeerId, innerBytes⟩ := opened
      dsimp only
      cases (requestLayout W.key).decode innerBytes with
      | none => rfl
      | some req =>
        cases req with
        | ratchetPrivateMessage envelope senderNick timestamp ttl =>
          rw [handled_some]
          unfold Carried.handle
          dsimp only
          cases ratchetMessage P W f n senderPeerId envelope senderNick timestamp ttl <;> rfl
        | _ => rfl

theorem onionForward_carried (peer : String) (packet : Bytes) :
    (onionForward P W f n peer packet).1 = handled P W n f (onionCarried P W n packet) := by
  unfold onionForward onionCarried
  cases (packetLayout W.key).decode packet with
  | none => rfl
  | some onionPacket =>
    dsimp only
    cases peelOnion P W.key n.offlineSecretBytes onionPacket with
    | error e => rfl
    | ok layer =>
      obtain ⟨nextHop, innerPacket, payload, padding⟩ := layer
      -- the payload is looked at where there is no next hop
      cases nextHop with
      | some nextHop =>
        cases innerPacket with
        | none => rfl
        | some inner =>
          dsimp only
          split <;> rfl
      | none =>
        cases payload with
        | none => rfl
        | some payload => exact onionPayload_carried payload

theorem ratchetPrivateMessage_carried (peer : String) (envelope : Bytes) (senderNick : String)
    (timestamp : Int64) (ttl : Option Int64) :
    (ratchetPrivateMessage P W f n peer envelope senderNick timestamp ttl).1 =
      handled P W n f (some { peerId := peer, envelope, senderNick, timestamp, ttl }) := by
  rw [handled_some]
  unfold ratchetPrivateMessage Carried.handle
  dsimp only
  cases ratchetMessage P W f n peer envelope senderNick timestamp ttl <;> rfl

theorem x3dhDm_sameStates [DecidableEq Key] [Zero Key] (C : DmWire Key) (peer : String)
    (req : DirectMessages.X3dhDm Key) (drawn newSecret : Key) :
    SameStates n.conn (x3dhDm P C f n peer req drawn newSecret).1 := by
  intro peerId hlegacy
  rcases x3dhDm_cases P C f n peer req drawn newSecret with
    hsame | ⟨pk, envelope, plaintext, text, state, -, -, -, -, hsaved⟩
  · rw [hsame]
  · rw [hsaved, saveDrState_frame]
    obtain ⟨index, hframe⟩ :=
      savePrivateMessage_frame f n.conn peer false text req.timestamp req.ttl
    rw [hframe]
    dsimp only
    split
    · rw [Table.lookup_upsert_const, if_neg (hlegacy peer)]
    · rfl

theorem SameStates.of_eq {conn conn' : Database} (h : conn' = conn) : SameStates conn conn' :=
  fun _ _ => by rw [h]

/-- **What a request does to the legacy states**: nothing, or what is done with the envelope it
    carries. -/
theorem handleRequest_carried [DecidableEq Key] [Zero Key] (hashOf : Bytes → String)
    (f : Stage → Faults) (l : EventLoop Key) (t : Turn Key) (peer : String) (req : P2pRequest Key) :
    let gate := requestGate f l t.nowMs peer
    SameStates
      (if gate.1 = .admitted then
        handled P W gate.2.node (f .arm) (carried P W gate.2.node peer req)
      else l.node.conn)
      (handleRequest P W hashOf f l t peer req).1.node.conn := by
  intro gate
  obtain ⟨table, buckets, hframe⟩ := requestGate_frame f l t.nowMs peer
  unfold handleRequest
  generalize hgate : requestGate f l t.nowMs peer = q at hframe
  have hq : gate = q := hgate
  rw [hq]
  obtain ⟨verdict, l'⟩ := q
  cases verdict with
  | refused | rateLimited =>
    cases hframe
    rw [if_neg (by simp)]
    exact fun _ _ => rfl
  | admitted =>
    rw [if_pos rfl]
    cases req with
    | file filename data =>
      obtain ⟨table, htrust⟩ := trustCheck_frame (f .arm) l'.node.conn peer "min_trust_file"
      dsimp only
      rw [file_state, EventLoop.setConn_conn, htrust]
      exact fun _ _ => rfl
    | fileChunk transferId index total contentHash data =>
      obtain ⟨table, htrust⟩ := trustCheck_frame (f .arm) l'.node.conn peer "min_trust_file"
      dsimp only
      rw [fileChunk_state, EventLoop.setConn_conn, htrust]
      exact fun _ _ => rfl
    | privateMessage text senderNick timestamp ttl powToken =>
      obtain ⟨table, htrust⟩ := trustCheck_frame (f .arm) l'.node.conn peer "min_trust_dm"
      intro peerId _
      dsimp only [privateMessage]
      rw [htrust]
      split
      · rfl
      · split
        · rfl
        · obtain ⟨index, hsave⟩ := savePrivateMessage_frame (f .arm)
            { l'.node.conn with peerSettings := table } peer false text timestamp ttl
          rw [EventLoop.setConn_conn, hsave]
          rfl
    | ratchetPrivateMessage envelope senderNick timestamp ttl =>
      exact .of_eq (ratchetPrivateMessage_carried peer envelope senderNick timestamp ttl)
    | x3dhDm initMsg drEnvelope senderDhPub senderNick timestamp ttl =>
      exact x3dhDm_sameStates W.toDmWire peer _ t.drawn t.newSecret
    | onionForward packet => exact .of_eq (onionForward_carried peer packet)
    | webRtcSignal | capabilityAnnouncement | pluginEvent | powChallenge | powSolution =>
      exact fun _ _ => rfl

/-! ## 2. A message that is read -/

theorem ratchetDecrypt_ok {D : DeriveKey Key} {state state' : RatchetState Key}
    {envelope : RatchetEnvelope Key} {plaintext : Bytes}
    (h : ratchetDecrypt .wrapping P D state envelope = some (.ok plaintext, state')) :
    P.aeadOpen (expectedKey D state envelope.counter) envelope.nonce envelope.ciphertext =
        some plaintext ∧
      state'.recvChainKey =
        chain D nextLabel (envelope.counter - state.recvCount + 1) state.recvChainKey := by
  unfold ratchetDecrypt at h
  rw [ratchetSkip_eq] at h
  dsimp only at h
  cases hopen : P.aeadOpen (expectedKey D state envelope.counter) envelope.nonce
    envelope.ciphertext with
  | none =>
    simp only [show P.aeadOpen (D (chain D nextLabel _ _) _) _ _ = none from hopen] at h
    cases (Prod.mk.inj (Option.some.inj h)).1
  | some m =>
    simp only [show P.aeadOpen (D (chain D nextLabel _ _) _) _ _ = some m from hopen,
      Build.unsigned_wrapping, Option.map_some] at h
    obtain ⟨hm, rfl⟩ := Prod.mk.inj (Option.some.inj h)
    cases hm
    exact ⟨rfl, (chain_succ _ _).symm⟩

/-- **What it takes to be read**, and the state that is saved. -/
theorem handled_spec {c : Carried} {conn : Database} {e : NetEffect Key}
    (h : c.handle P W n f = some (conn, e)) :
    ∃ pk envelope plaintext state, W.ratchetEnvelope.dec c.envelope = some envelope ∧
      ratchetDecrypt .wrapping P W.deriveKey
        (loadOrInitRatchetState P W f n.conn c.peerId n.myPeerId
        n.offlineSecretBytes pk) envelope = some (.ok plaintext, state) ∧
      conn.ratchetStates =
        if f .saveRatchetState = none then
          n.conn.ratchetStates.upsert c.peerId (W.ratchetState.enc state) fun _ =>
            W.ratchetState.enc state
        else n.conn.ratchetStates := by
  obtain ⟨_, pk, envelope, plaintext, state, text, -, -, henv, hdec, -, rfl, -⟩ :=
    ratchetMessage_some h
  refine ⟨pk, envelope, plaintext, state, henv, hdec, ?_⟩
  obtain ⟨index, hsave⟩ := savePrivateMessage_frame f n.conn c.peerId false text c.timestamp c.ttl
  rw [hsave]
  unfold saveRatchetState execute
  cases f .saveRatchetState <;> rfl

end

/-! ## 3. Readers -/

/-- A session, and the envelopes that have been read, each in the name of a peer. -/
structure Reader (Key : Type) where
  loop : EventLoop Key
  read : List (String × RatchetEnvelope Key)

/-- The ciphertexts that have been read in the name of a peer. -/
def Reader.ciphertexts (s : Reader Key) (peerId : String) : List Bytes :=
  (s.read.filter fun r => decide (r.1 = peerId)).map fun r => r.2.ciphertext

inductive ReaderEvent (Key : Type) where
  | request (f : Stage → Faults) (t : Turn Key) (peer : String) (req : P2pRequest Key)
  /-- Whatever else the program does. -/
  | elsewhere (loop : EventLoop Key)

/-- The envelope of a request, if it is read. -/
def envelopeRead (P : Primitives Key) (W : NetWire Key) (f : Stage → Faults) (l : EventLoop Key)
    (t : Turn Key) (peer : String) (req : P2pRequest Key) : Option (String × RatchetEnvelope Key) :=
  let gate := requestGate f l t.nowMs peer
  if gate.1 = .admitted then
    (carried P W gate.2.node peer req).bind fun c =>
      (c.handle P W gate.2.node (f .arm)).bind fun _ =>
        (W.ratchetEnvelope.dec c.envelope).map fun envelope => (c.peerId, envelope)
  else none

def Reader.after [DecidableEq Key] [Zero Key] (P : Primitives Key) (W : NetWire Key)
    (hashOf : Bytes → String) (s : Reader Key) : ReaderEvent Key → Reader Key
  | .request f t peer req =>
    { loop := (handleRequest P W hashOf f s.loop t peer req).1
      read := s.read ++ (envelopeRead P W f s.loop t peer req).toList }
  | .elsewhere loop => { s with loop }

def ReaderStep [DecidableEq Key] [Zero Key] (P : Primitives Key) (W : NetWire Key)
    (hashOf : Bytes → String) (s : Reader Key) (ev : ReaderEvent Key) (s' : Reader Key) : Prop :=
  s' = s.after P W hashOf ev

/-- **The condition**: no request finds the states of the ratchet locked, to be loaded or to be
    saved. Nothing else writes a legacy state. -/
def StatesKept (s : Reader Key) : ReaderEvent Key → Prop
  | .request f .. => f .arm .loadRatchetState = none ∧ f .arm .saveRatchetState = none
  | .elsewhere loop => SameStates s.loop.node.conn loop.node.conn

/-! ## 4. What has been left behind -/

section

variable {P : Primitives Key} {W : NetWire Key}

/-- The stored state of a peer. -/
def legacyState (W : NetWire Key) (conn : Database) (peerId : String) : Option (RatchetState Key) :=
  (conn.ratchetStates.lookup peerId).bind W.ratchetState.dec

/-- The envelope opens with a key of the chain that the state has left. -/
def Behind (P : Primitives Key) (W : NetWire Key) (state : RatchetState Key)
    (envelope : RatchetEnvelope Key) : Prop :=
  ∃ chainKey n, state.recvChainKey = chain W.deriveKey nextLabel (n + 1) chainKey ∧
    (P.aeadOpen (messageKey W.deriveKey chainKey envelope.counter) envelope.nonce
      envelope.ciphertext).isSome = true

/-- **The invariant.** -/
structure ReadInv (P : Primitives Key) (W : NetWire Key) (s : Reader Key) : Prop where
  behind : ∀ peerId envelope, LegacyRow peerId → (peerId, envelope) ∈ s.read →
    ∃ state, legacyState W s.loop.node.conn peerId = some state ∧ Behind P W state envelope
  once : ∀ peerId, LegacyRow peerId → (s.ciphertexts peerId).Nodup

/-- What opens a ciphertext is one key. -/
theorem open_key (hP : P.Ideal) {k k' : Key} {n n' : Nonce} {c : Bytes}
    (h : (P.aeadOpen k n c).isSome = true) (h' : (P.aeadOpen k' n' c).isSome = true) : k' = k := by
  obtain ⟨m, hm⟩ := Option.isSome_iff_exists.mp h
  obtain rfl := hP.open_sound k n c m hm
  by_contra hne
  rw [hP.open_other hne] at h'
  cases h'

/-- The next message of the state moves on from what is behind it. -/
theorem Behind.advance {state state' : RatchetState Key} {envelope : RatchetEnvelope Key}
    (h : Behind P W state envelope) {n : Nat}
    (hchain : state'.recvChainKey = chain W.deriveKey nextLabel (n + 1) state.recvChainKey) :
    Behind P W state' envelope := by
  obtain ⟨chainKey, m, hleft, hopen⟩ := h
  refine ⟨chainKey, m + 1 + n, ?_, hopen⟩
  rw [hchain, hleft, chain_chain]
  rfl

/-- What has just been opened is behind. -/
theorem behind_opened {state state' : RatchetState Key} {envelope : RatchetEnvelope Key}
    (hopen : (P.aeadOpen (expectedKey W.deriveKey state envelope.counter) envelope.nonce
      envelope.ciphertext).isSome = true)
    (hchain : state'.recvChainKey =
      chain W.deriveKey nextLabel (envelope.counter - state.recvCount + 1) state.recvChainKey) :
    Behind P W state' envelope := by
  refine ⟨chain W.deriveKey nextLabel (envelope.counter - state.recvCount) state.recvChainKey,
    0, ?_, hopen⟩
  rw [hchain, chain_chain]

/-- **What is behind the state is not read again.** -/
theorem Behind.not_again (hP : P.Ideal) (hD : FreeDerivation W.deriveKey) {state : RatchetState Key}
    {envelope envelope' : RatchetEnvelope Key} (h : Behind P W state envelope)
    (hopen : (P.aeadOpen (expectedKey W.deriveKey state envelope'.counter) envelope'.nonce
      envelope'.ciphertext).isSome = true) : envelope'.ciphertext ≠ envelope.ciphertext := by
  obtain ⟨chainKey, m, hleft, hbehind⟩ := h
  intro hsame
  rw [hsame] at hopen
  have hkey := open_key hP hbehind hopen
  unfold expectedKey at hkey
  have hchain := (hD.inj _ _ _ _ hkey).1
  rw [hleft, chain_chain] at hchain
  have hlength := hD.chain_inj (show chain W.deriveKey nextLabel _ chainKey =
    chain W.deriveKey nextLabel 0 chainKey from hchain)
  omega

/-- A state that is stored is the one that is loaded. -/
theorem loaded_of_stored {f : Faults} (hf : f .loadRatchetState = none) {conn : Database}
    {peerId : String} {state : RatchetState Key} (h : legacyState W conn peerId = some state)
    (myPeerId : String) (mySecret pk : Key) :
    loadOrInitRatchetState P W f conn peerId myPeerId mySecret pk = state := by
  obtain ⟨blob, hblob, hstate⟩ := Option.bind_eq_some_iff.mp h
  unfold loadOrInitRatchetState loadRatchetState query
  simp only [hf, hblob, hstate, Option.getD_some]

/-- **A request, with the states at hand**: no envelope is read and the states are the same, or one
    is, with a key of the chain of the stored state, and the state that is stored then is further
    on. -/
theorem request_cases [DecidableEq Key] [Zero Key] (hashOf : Bytes → String) {f : Stage → Faults}
    (hload : f .arm .loadRatchetState = none) (hsave : f .arm .saveRatchetState = none)
    (l : EventLoop Key) (t : Turn Key) (peer : String) (req : P2pRequest Key) :
    let conn := (handleRequest P W hashOf f l t peer req).1.node.conn
    (envelopeRead P W f l t peer req = none ∧ SameStates l.node.conn conn) ∨
    ∃ peerId envelope loaded state, envelopeRead P W f l t peer req = some (peerId, envelope) ∧
      (∀ stored, legacyState W l.node.conn peerId = some stored → loaded = stored) ∧
      (P.aeadOpen (expectedKey W.deriveKey loaded envelope.counter) envelope.nonce
        envelope.ciphertext).isSome = true ∧
      state.recvChainKey = chain W.deriveKey nextLabel (envelope.counter - loaded.recvCount + 1)
        loaded.recvChainKey ∧
      (LegacyRow peerId → legacyState W conn peerId = some state) ∧
      ∀ id, LegacyRow id → id ≠ peerId → legacyState W conn id = legacyState W l.node.conn id := by
  intro conn
  have hdoes := handleRequest_carried (P := P) (W := W) hashOf f l t peer req
  obtain ⟨table, buckets, hframe⟩ := requestGate_frame f l t.nowMs peer
  unfold envelopeRead
  generalize requestGate f l t.nowMs peer = gate at hdoes hframe
  obtain ⟨verdict, l'⟩ := gate
  have hgate : l'.node.conn.ratchetStates = l.node.conn.ratchetStates := by
    rw [show l' = _ from hframe]
    rfl
  dsimp only at hdoes ⊢
  by_cases hadmitted : verdict = .admitted
  · rw [if_pos hadmitted] at hdoes ⊢
    cases hcarried : carried P W l'.node peer req with
    | none =>
      rw [hcarried] at hdoes
      exact .inl ⟨rfl, fun id hid => (hdoes id hid).trans (by rw [← hgate]; rfl)⟩
    | some c =>
      rw [hcarried, handled_some] at hdoes
      cases hhandled : c.handle P W l'.node (f .arm) with
      | none =>
        rw [hhandled] at hdoes
        exact .inl ⟨by rw [Option.bind_some, hhandled]; rfl,
          fun id hid => (hdoes id hid).trans (by rw [hgate])⟩
      | some after =>
        obtain ⟨saved, e⟩ := after
        rw [hhandled] at hdoes
        obtain ⟨pk, envelope, plaintext, state, henv, hdec, hstates⟩ := handled_spec hhandled
        obtain ⟨hopen, hchain⟩ := ratchetDecrypt_ok hdec
        rw [if_pos hsave] at hstates
        have hlookup : ∀ id, LegacyRow id → conn.ratchetStates.lookup id =
            if id = c.peerId then some (W.ratchetState.enc state)
            else l.node.conn.ratchetStates.lookup id := by
          intro id hid
          rw [hdoes id hid, hstates, Table.lookup_upsert_const, hgate]
        refine .inr ⟨c.peerId, envelope, _, state, ?_, fun stored hstored =>
          loaded_of_stored hload (by rw [legacyState, hgate]; exact hstored) _ _ pk, ?_, hchain,
          fun hrow => ?_, fun id hid hne => ?_⟩
        · rw [Option.bind_some, hhandled, Option.bind_some, henv, Option.map_some]
        · rw [hopen, Option.isSome_some]
        · rw [legacyState, hlookup _ hrow, if_pos rfl, Option.bind_some, Codec.dec_enc]
        · rw [legacyState, hlookup id hid, if_neg hne, legacyState]
  · rw [if_neg hadmitted] at hdoes ⊢
    exact .inl ⟨rfl, hdoes⟩

/-! ## 5. Once -/

theorem SameStates.legacyState {conn conn' : Database} (h : SameStates conn conn') {peerId : String}
    (hrow : LegacyRow peerId) : legacyState W conn' peerId = legacyState W conn peerId := by
  rw [LegacyReplay.legacyState, h peerId hrow, LegacyReplay.legacyState]

theorem ReadInv.same {s s' : Reader Key} (h : ReadInv P W s)
    (hstates : SameStates s.loop.node.conn s'.loop.node.conn) (hread : s'.read = s.read) :
    ReadInv P W s' where
  behind peerId envelope hrow hmem := by
    rw [hread] at hmem
    rw [hstates.legacyState hrow]
    exact h.behind peerId envelope hrow hmem
  once peerId hrow := by
    rw [Reader.ciphertexts, hread]
    exact h.once peerId hrow

/-- One more envelope has been read. -/
theorem ciphertexts_snoc {s s' : Reader Key} {peerId : String} {envelope : RatchetEnvelope Key}
    (hread : s'.read = s.read ++ [(peerId, envelope)]) (id : String) :
    s'.ciphertexts id = s.ciphertexts id ++ if peerId = id then [envelope.ciphertext] else [] := by
  rw [Reader.ciphertexts, hread, List.filter_append, List.map_append, Reader.ciphertexts]
  by_cases hid : peerId = id <;> simp [hid]

/-- **A request keeps the invariant.** -/
theorem ReadInv.request [DecidableEq Key] [Zero Key] (hP : P.Ideal)
    (hD : FreeDerivation W.deriveKey) {hashOf : Bytes → String} {s : Reader Key} (h : ReadInv P W s)
    {f : Stage → Faults} {t : Turn Key} {peer : String} {req : P2pRequest Key}
    (hload : f .arm .loadRatchetState = none) (hsave : f .arm .saveRatchetState = none) :
    ReadInv P W (s.after P W hashOf (.request f t peer req)) := by
  rcases request_cases hashOf hload hsave s.loop t peer req with
    ⟨hnone, hstates⟩ | ⟨peerId, envelope, loaded, state, hsome, hloaded, hopen, hchain,
      hstored, hothers⟩
  · refine h.same hstates ?_
    show s.read ++ (envelopeRead P W f s.loop t peer req).toList = s.read
    rw [hnone, Option.toList_none, List.append_nil]
  · have hread : (s.after P W hashOf (.request f t peer req)).read =
      s.read ++ [(peerId, envelope)] := by
      show s.read ++ (envelopeRead P W f s.loop t peer req).toList = _
      rw [hsome, Option.toList_some]
    refine ⟨fun id old hrow hmem => ?_, fun id hrow => ?_⟩
    · rw [hread, List.mem_append, List.mem_singleton] at hmem
      by_cases hid : id = peerId
      · subst hid
        refine ⟨state, hstored hrow, ?_⟩
        rcases hmem with hmem | hmem
        · obtain ⟨stored, hstate, hbehind⟩ := h.behind id old hrow hmem
          rw [hloaded stored hstate] at hchain
          exact hbehind.advance hchain
        · cases hmem
          exact behind_opened hopen hchain
      · have hold := hmem.resolve_right fun heq => hid (Prod.mk.inj heq).1
        obtain ⟨stored, hstate, hbehind⟩ := h.behind id old hrow hold
        exact ⟨stored, (hothers id hrow hid).trans hstate, hbehind⟩
    · rw [ciphertexts_snoc hread]
      split
      · next hid =>
        subst hid
        refine List.nodup_append.mpr ⟨h.once peerId hrow, List.nodup_singleton _, ?_⟩
        intro c hc c' hc' heq
        obtain ⟨⟨id, old⟩, hmem, rfl⟩ := List.mem_map.mp hc
        obtain ⟨hin, hid⟩ := List.mem_filter.mp hmem
        obtain rfl := of_decide_eq_true hid
        obtain ⟨stored, hstate, hbehind⟩ := h.behind id old hrow hin
        rw [hloaded stored hstate] at hopen
        exact hbehind.not_again hP hD hopen ((List.mem_singleton.mp hc').symm.trans heq.symm)
      · rw [List.append_nil]
        exact h.once id hrow

/-- **A legacy envelope is read once.** In every run in which the states of the ratchet can be
    loaded and saved, whatever is sent, by itself or in onions, in any order and with anything else
    that fails, no ciphertext is read twice in the name of one peer. -/
theorem legacy_read_once [DecidableEq Key] [Zero Key] (hP : P.Ideal)
    (hD : FreeDerivation W.deriveKey) {hashOf : Bytes → String} {s : Reader Key}
    (hr : Reach (fun s : Reader Key => s.read = []) (Guarded StatesKept (ReaderStep P W hashOf)) s)
    {peerId : String} (hrow : LegacyRow peerId) : (s.ciphertexts peerId).Nodup := by
  have hinv : ReadInv P W s := by
    refine hr.inv (fun s hs => ?_) fun s ev s' h hstep => ?_
    · refine ⟨fun id envelope _ hmem => ?_, fun id _ => ?_⟩
      · rw [hs] at hmem
        cases hmem
      · rw [Reader.ciphertexts, hs]
        exact List.nodup_nil
    · obtain ⟨hkept, rfl⟩ := hstep
      cases ev with
      | request f t peer req => exact h.request hP hD hkept.1 hkept.2
      | elsewhere loop => exact h.same hkept rfl
  exact hinv.once peerId hrow

/-- What is read depends on the friends and the states. -/
theorem handle_isSome_congr {f : Faults} {n : Node Key} {conn : Database} (c : Carried)
    (hfriends : conn.friends = n.conn.friends)
    (hstates : conn.ratchetStates = n.conn.ratchetStates) :
    (c.handle P W { n with conn } f).isSome = (c.handle P W n f).isSome := by
  have hall : getFriends f conn = getFriends f n.conn := by
    unfold getFriends
    rw [hfriends]
  have hload : loadRatchetState f conn c.peerId = loadRatchetState f n.conn c.peerId := by
    unfold loadRatchetState
    rw [hstates]
  unfold Carried.handle ratchetMessage loadOrInitRatchetState
  simp only [hall, hload]
  split
  · rfl
  · split
    · rfl
    · split
      · rfl
      · split
        · split <;> rfl
        · rfl

/-- **The condition is needed**: where the new state is not saved, the same is read again. -/
theorem unsaved_read_again {f : Faults} (hsave : f .saveRatchetState ≠ none) {n : Node Key}
    {c : Carried} {conn : Database} {e : NetEffect Key} (h : c.handle P W n f = some (conn, e)) :
    (c.handle P W { n with conn } f).isSome = true := by
  obtain ⟨pk, envelope, plaintext, state, -, -, hstates⟩ := handled_spec h
  rw [if_neg hsave] at hstates
  rw [handle_isSome_congr c (ratchetMessage_keepsPeers h).friends hstates, h, Option.isSome_some]

/-- The first envelope of a friend. -/
def firstEnvelope (P : Primitives Key) (W : NetWire Key) (n : Node Key) (peerId : String) (pk : Key)
    (nonce : Nonce) (text : String) : RatchetEnvelope Key where
  counter := 0
  nonce
  ciphertext :=
    P.aeadSeal (messageKey W.deriveKey (RatchetState.forPeerPair W.deriveKey
      (deriveStaticSharedSecret P n.offlineSecretBytes pk) n.myPeerId peerId).recvChainKey 0) nonce
      (Codec.utf8.enc text)

theorem ratchetDecrypt_first (hP : P.Lawful) (D : DeriveKey Key) (state : RatchetState Key)
    (nonce : Nonce) (m : Bytes) :
    ratchetDecrypt .wrapping P D state
        { counter := 0, nonce,
          ciphertext := P.aeadSeal (messageKey D state.recvChainKey 0) nonce m } =
      some (.ok m,
        { state with recvChainKey := advanceChain D state.recvChainKey, recvCount := 1 }) := by
  have hopen := hP.open_seal (messageKey D state.recvChainKey 0) nonce m
  unfold messageKey at hopen ⊢
  simp only [ratchetDecrypt, Nat.zero_sub, ratchetSkip, hopen]
  rfl

/-- A friend of whom nothing is stored is read. -/
theorem firstEnvelope_handled (hP : P.Lawful) {n : Node Key} {peerId : String} {pk : Key}
    (hfriend : FriendKey W.toDmWire n.conn peerId pk)
    (hnone : n.conn.ratchetStates.lookup peerId = none) (nonce : Nonce) (text senderNick : String)
    (timestamp : Int64) (ttl : Option Int64) :
    let envelope := W.ratchetEnvelope.enc (firstEnvelope P W n peerId pk nonce text)
    (Carried.handle P W n noFaults { peerId, envelope, senderNick, timestamp, ttl }).isSome =
      true := by
  obtain ⟨friend, hlookup, hopen, hpk⟩ := hfriend
  have hfind :=
    getFriends_find_of (fun x => !x.blocked) (f := noFaults) rfl hlookup (by rw [hopen]; rfl)
  have hstate :
    loadOrInitRatchetState P W noFaults n.conn peerId n.myPeerId n.offlineSecretBytes pk =
      RatchetState.forPeerPair W.deriveKey (deriveStaticSharedSecret P n.offlineSecretBytes pk)
        n.myPeerId peerId := by
    unfold loadOrInitRatchetState loadRatchetState query
    simp only [noFaults, hnone]
  have hdec := ratchetDecrypt_first hP W.deriveKey (RatchetState.forPeerPair W.deriveKey
    (deriveStaticSharedSecret P n.offlineSecretBytes pk) n.myPeerId peerId) nonce
    (Codec.utf8.enc text)
  unfold Carried.handle ratchetMessage
  simp only [hfind, hpk, Codec.dec_enc, hstate, firstEnvelope, hdec, Option.isSome_some]

end

section

variable {P : Primitives Key} {W : NetWire Key}

/-- A message that comes by itself. -/
theorem envelopeRead_direct {f : Stage → Faults} {l : EventLoop Key} {t : Turn Key}
    {peer senderNick : String} {envelope : RatchetEnvelope Key} {timestamp : Int64}
    {ttl : Option Int64} (hadmitted : (requestGate f l t.nowMs peer).1 = .admitted)
    (hhandled : (Carried.handle P W (requestGate f l t.nowMs peer).2.node (f .arm)
      { peerId := peer, envelope := W.ratchetEnvelope.enc envelope, senderNick, timestamp,
        ttl }).isSome = true) :
    envelopeRead P W f l t peer
      (.ratchetPrivateMessage (W.ratchetEnvelope.enc envelope) senderNick timestamp ttl) =
        some (peer, envelope) := by
  obtain ⟨after, hafter⟩ := Option.isSome_iff_exists.mp hhandled
  unfold envelopeRead carried
  simp only [hadmitted, if_true, Option.bind_some, hafter, Codec.dec_enc, Option.map_some]

end

/-- Formats that number every value. -/
def legacyWire : NetWire Sym where
  toDmWire := .numbered
  key := symKey
  ratchetState := .ofEncodable _
  ratchetEnvelope := .ofEncodable _
  deriveKey := Sym.derive
  sha256 bs := bs
  parsePeerId := some
  verifyPow _ _ _ := false

/-- "b", to whom "a" is a friend. -/
def legacyNode : Node Sym := friendNode DmWire.numbered "b" "a" (.secret 2) (.point 1)

def legacyTurn : Turn Sym where
  nowMs := 0
  drawn := .secret 3
  newSecret := .secret 4
  chunkStored := true

/-- The first envelope of "a" comes twice, and is read once. -/
theorem legacy_read_once_twice : ∃ s : Reader Sym,
    Reach (fun s : Reader Sym => s.read = [])
    (Guarded StatesKept (ReaderStep symbolic legacyWire fun _ => ""))
      s ∧ s.ciphertexts "a" ≠ [] ∧ (s.ciphertexts "a").Nodup := by
  let envelope :=
    firstEnvelope symbolic legacyWire legacyNode "a" (.point 1) (Vector.replicate 12 0) "hi"
  let sent : ReaderEvent Sym := .request allRead legacyTurn "a"
    (.ratchetPrivateMessage (legacyWire.ratchetEnvelope.enc envelope) "A" 0 none)
  let s₀ : Reader Sym := { loop := loopOf legacyNode, read := [] }
  let s₁ := s₀.after symbolic legacyWire (fun _ => "") sent
  let s₂ := s₁.after symbolic legacyWire (fun _ => "") sent
  have hkept : ∀ s, StatesKept s sent := fun _ => ⟨rfl, rfl⟩
  have hr : Reach (fun s : Reader Sym => s.read = [])
      (Guarded StatesKept (ReaderStep symbolic legacyWire fun _ => "")) s₂ :=
    .step s₁ sent s₂ (.step s₀ sent s₁ (.start s₀ rfl) ⟨hkept _, rfl⟩) ⟨hkept _, rfl⟩
  have hread : envelopeRead symbolic legacyWire allRead s₀.loop legacyTurn "a"
      (.ratchetPrivateMessage (legacyWire.ratchetEnvelope.enc envelope) "A" 0 none) =
        some ("a", envelope) := by
    have hfriend := friendNode_friend DmWire.numbered "b" "a" (.secret 2) (.point 1)
    obtain ⟨friend, hlookup, -⟩ := id hfriend
    refine envelopeRead_direct (requestGate_admits rfl hlookup rfl _) ?_
    obtain ⟨table, buckets, hframe⟩ := requestGate_frame allRead s₀.loop legacyTurn.nowMs "a"
    rw [hframe]
    have hhandled := firstEnvelope_handled (W := legacyWire) symbolic_lawful
      (n := { legacyNode with conn := { legacyNode.conn with peerSettings := table } })
      hfriend (AList.lookup_empty _) (Vector.replicate 12 0) "hi" "A" 0 none
    exact hhandled
  have hfirst : ("a", envelope) ∈ s₁.read := by
    show ("a", envelope) ∈ [] ++
      (envelopeRead symbolic legacyWire allRead s₀.loop legacyTurn "a" _).toList
    rw [hread]
    exact List.mem_singleton_self _
  refine ⟨s₂, hr, ?_, legacy_read_once symbolic_ideal Sym.derive_free hr fun id heq => ?_⟩
  · exact List.ne_nil_of_mem (List.mem_map_of_mem
      (List.mem_filter.mpr ⟨List.mem_append_left _ hfirst, decide_eq_true rfl⟩))
  · have hlength := congrArg String.length heq
    rw [drKey, String.length_append] at hlength
    exact absurd hlength (by show 1 ≠ 3 + id.length; omega)

end AlterChat.LegacyReplay
