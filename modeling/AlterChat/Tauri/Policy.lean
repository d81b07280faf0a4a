import AlterChat.Tauri.Mailbox

/-!
# One policy for messages from others

A message from somebody else is saved in five places: the arms `PrivateMessage`,
`RatchetPrivateMessage` and `X3dhDm`, the payload of an onion, and a record of the mailbox. Who may
send one is stored in `peer_settings` and in the setting `min_trust_dm`.

* §1 `Enforced` -- what is to hold of what a message adds;
* §2 `ReadsRatchet`, `ReadsX3dh`, `ReadsOnion`, `ReadsRecord` -- what a message must be to be saved;
* §3 `Unguarded`, `Rest` -- what each place leaves to be checked;
* §4 the five places, one by one, §5 `admission_iff`; §6 a record from a peer that is blocked.
-/

namespace AlterChat.Inbound

open Lib Db DoubleRatchet Crypto Onion Requests DirectMessages

variable {Key : Type}

/-! ## 1. The policy -/

/-- The peer is not blocked, and is trusted as much as a direct message takes. -/
def Admissible (conn : Database) (peerId : String) : Prop :=
  (conn.settingsOf peerId).blocked = false ∧
    minTrust noFaults conn "min_trust_dm" ≤ (conn.settingsOf peerId).trustLevel

/-- **The property**: of the messages of others, there are more than before only where their peer is
    admissible. -/
def Enforced (before after : Database) : Prop :=
  ∀ r : PrivateMessage, r.senderIsMe = false →
    before.privateMessages.count r < after.privateMessages.count r → Admissible before r.peerId

/-- The row of a message from another. -/
def received (peerId text : String) (timestamp : Int64) (ttl : Option Int64) : PrivateMessage :=
  { peerId, senderIsMe := false, text, timestamp, ttl }

/-- What comes in. -/
inductive Incoming (Key : Type) where
  | request (t : Turn Key) (peer : String) (req : P2pRequest Key)
  /-- `get_record` has returned a record. -/
  | record (now : Int64) (key value : Bytes)

/-- The database after it. -/
def Incoming.after [DecidableEq Key] [Zero Key] (P : Primitives Key) (W : NetWire Key)
    (hashOf : Bytes → String) (l : EventLoop Key) : Incoming Key → Database
  | .request t peer req => (handleRequest P W hashOf allRead l t peer req).1.node.conn
  | .record now key value => (foundRecord P W noFaults l.node now key value).1

/-! ## 2. Messages that are read -/

/-- A legacy envelope in the name of a friend, which its ratchet decrypts. -/
def ReadsRatchet (P : Primitives Key) (W : NetWire Key) (n : Node Key) (peerId : String)
    (envelope : Bytes) (text : String) : Prop :=
  ∃ pk parsed plaintext state, FriendKey W.toDmWire n.conn peerId pk ∧
    W.ratchetEnvelope.dec envelope = some parsed ∧
    ratchetDecrypt .wrapping P W.deriveKey
    (loadOrInitRatchetState P W noFaults n.conn peerId n.myPeerId
      n.offlineSecretBytes pk) parsed = some (.ok plaintext, state) ∧
    Codec.utf8.dec plaintext = some text

/-- An envelope of a friend, which its double ratchet decrypts. -/
def ReadsX3dh [DecidableEq Key] [Zero Key] (P : Primitives Key) (W : NetWire Key) (n : Node Key)
    (t : Turn Key) (peerId : String) (drEnvelope : Bytes) (text : String) : Prop :=
  ∃ pk parsed plaintext state, FriendKey W.toDmWire n.conn peerId pk ∧
    W.envelopeBytes.dec drEnvelope = some parsed ∧
    decrypt P t.newSecret
    (loadOrInitDrState P W.toDmWire noFaults n.conn peerId n.offlineSecretBytes pk
      (decide (peerId < n.myPeerId)) t.drawn) parsed = (.ok plaintext, state) ∧
    Codec.utf8.dec plaintext = some text

/-- A sealed message, with a legacy envelope of the peer it names. -/
def ReadsSealed (P : Primitives Key) (W : NetWire Key) (n : Node Key) (payload : Bytes)
    (peerId : String) : Prop :=
  ∃ sealedMsg pub innerBytes envelope senderNick timestamp ttl text,
    (sealedLayout W.key).decode payload = some sealedMsg ∧
    sealedReceive P W.key n.offlineSecretBytes sealedMsg = .ok (pub, peerId, innerBytes) ∧
    (requestLayout W.key).decode innerBytes =
      some (.ratchetPrivateMessage envelope senderNick timestamp ttl) ∧
    ReadsRatchet P W n peerId envelope text

/-- An onion whose innermost layer holds one. -/
def ReadsOnion (P : Primitives Key) (W : NetWire Key) (n : Node Key) (packet : Bytes)
    (peerId : String) : Prop :=
  ∃ onionPacket layer payload, (packetLayout W.key).decode packet = some onionPacket ∧
    peelOnion P W.key n.offlineSecretBytes onionPacket = .ok layer ∧
    layer.nextHop = none ∧ layer.payload = some payload ∧ ReadsSealed P W n payload peerId

/-- A record of the mailbox that is not taken for a message that is there. Where the message has
    expired and the same row is there, that goes for it. -/
def ReadsRecord (P : Primitives Key) (W : NetWire Key) (n : Node Key) (now : Int64)
    (key value : Bytes) (peerId : String) : Prop :=
  ∃ m, offlineMsg P W n key value = some m ∧ m.senderPeerId = peerId ∧
    recognised n.conn now m = false ∧
    (m.row.expired now = false ∨ m.row ∉ n.conn.privateMessages)

/-! ## 3. What is left to be checked -/

/-- A message in the name of a peer that is saved where the policy is not checked, or not all of it.
    The arm `PrivateMessage` checks it. -/
def Unguarded [DecidableEq Key] [Zero Key] (P : Primitives Key) (W : NetWire Key)
    (l : EventLoop Key) :
    Incoming Key → String → Prop
  | .request t peer req, peerId => (requestGate allRead l t.nowMs peer).1 = .admitted ∧
    match req with
    | .ratchetPrivateMessage envelope .. =>
      peerId = peer ∧ ∃ text, ReadsRatchet P W l.node peer envelope text
    | .x3dhDm _ drEnvelope .. => peerId = peer ∧ ∃ text, ReadsX3dh P W l.node t peer drEnvelope text
    | .onionForward packet => ReadsOnion P W l.node packet peerId
    | _ => False
  | .record now key value, peerId => ReadsRecord P W l.node now key value peerId

/-- **What is not checked there.** The gate is for the peer that the request comes from: it does not
    look at the trust level, and the sender in an onion or in a record is none of its business. -/
def Rest (conn : Database) : Incoming Key → String → Prop
  | .request _ _ (.ratchetPrivateMessage ..), peerId | .request _ _ (.x3dhDm ..), peerId =>
    minTrust noFaults conn "min_trust_dm" ≤ (conn.settingsOf peerId).trustLevel
  | .request _ _ (.onionForward _), peerId | .record .., peerId => Admissible conn peerId
  | _, _ => True

section

variable {before after : Database}

/-! ## 4. The five places -/

/-- Nothing is added. -/
theorem enforced_same (h : after.privateMessages = before.privateMessages) :
    Enforced before after := by
  intro r _ hmore
  rw [h] at hmore
  exact absurd hmore (Nat.lt_irrefl _)

/-- One message is added. -/
theorem enforced_added {r : PrivateMessage} (hr : r.senderIsMe = false)
    (h : after.privateMessages = before.privateMessages ++ [r]) :
    Enforced before after ↔ Admissible before r.peerId := by
  have hcount : ∀ x, after.privateMessages.count x =
      before.privateMessages.count x + [r].count x := by
    intro x
    rw [h, List.count_append]
  constructor
  · intro henforced
    refine henforced r hr ?_
    rw [hcount, List.count_singleton_self]
    exact Nat.lt_succ_self _
  · intro hadmissible x _ hmore
    rw [hcount] at hmore
    by_cases hx : x = r
    · rw [hx]
      exact hadmissible
    · rw [List.count_singleton, if_neg (by simpa using Ne.symm hx), Nat.add_zero] at hmore
      exact absurd hmore (Nat.lt_irrefl _)

/-- A place reads a message and adds it in the name of its peer, or it reads none and adds none. -/
def AddsRead (before after : Database) (reads : String → Prop) : Prop :=
  (∃ r : PrivateMessage, r.senderIsMe = false ∧ (∀ peerId, reads peerId ↔ peerId = r.peerId) ∧
    after.privateMessages = before.privateMessages ++ [r]) ∨
  ((∀ peerId, ¬ reads peerId) ∧ after.privateMessages = before.privateMessages)

/-- **Such a place enforces the policy where it reads messages of admissible peers only.** -/
theorem AddsRead.enforced_iff {reads : String → Prop} (h : AddsRead before after reads) :
    Enforced before after ↔ ∀ peerId, reads peerId → Admissible before peerId := by
  rcases h with ⟨r, hr, hreads, hadded⟩ | ⟨hreads, hsame⟩
  · rw [enforced_added hr hadded]
    constructor
    · intro h peerId hpeer
      rw [(hreads peerId).mp hpeer]
      exact h
    · intro h
      exact h r.peerId ((hreads r.peerId).mpr rfl)
  · exact ⟨fun _ peerId hpeer => absurd hpeer (hreads peerId), fun _ => enforced_same hsame⟩

end

section

variable {P : Primitives Key} {W : NetWire Key} {n : Node Key} {l : EventLoop Key} {peer : String}

/-- `PrivateMessage` adds a message of a peer that is admissible, or none. -/
theorem privateMessage_messages (W : NetWire Key) (l : EventLoop Key) (nowMs : Int64)
    (peer text senderNick : String) (timestamp : Int64) (ttl : Option Int64)
    (powToken : Option PoWToken) :
    (privateMessage W noFaults l nowMs peer text senderNick timestamp ttl
        powToken).1.node.conn.privateMessages = l.node.conn.privateMessages ∨
      Admissible l.node.conn peer ∧
      (privateMessage W noFaults l nowMs peer text senderNick timestamp ttl
        powToken).1.node.conn.privateMessages =
          l.node.conn.privateMessages ++ [received peer text timestamp ttl] := by
  have hcheck := trustCheck_iff l.node.conn peer "min_trust_dm"
  obtain ⟨table, hframe⟩ := trustCheck_frame noFaults l.node.conn peer "min_trust_dm"
  unfold privateMessage
  generalize trustCheck noFaults l.node.conn peer "min_trust_dm" = q at hcheck hframe
  obtain ⟨allowed, conn⟩ := q
  obtain rfl : conn = _ := hframe
  simp only
  split
  · exact .inl rfl
  · split
    · exact .inl rfl
    · next hallowed =>
      obtain ⟨index, hsave⟩ := savePrivateMessage_frame noFaults
        { l.node.conn with peerSettings := table } peer false text timestamp ttl
      refine .inr ⟨hcheck.mp (by simpa using hallowed), ?_⟩
      rw [EventLoop.setConn_conn, hsave]
      rfl

/-- **What is read is saved**, and what is not leaves the messages alone. -/
theorem ratchetMessage_cases (P : Primitives Key) (W : NetWire Key) (n : Node Key) (peerId : String)
    (envelope : Bytes) (senderNick : String) (timestamp : Int64) (ttl : Option Int64) :
    (∃ text conn e, ReadsRatchet P W n peerId envelope text ∧
      ratchetMessage P W noFaults n peerId envelope senderNick timestamp ttl = some (conn, e) ∧
      conn.privateMessages = n.conn.privateMessages ++ [received peerId text timestamp ttl]) ∨
    (¬ ∃ text, ReadsRatchet P W n peerId envelope text) ∧
      ratchetMessage P W noFaults n peerId envelope senderNick timestamp ttl = none := by
  by_cases hreads : ∃ text, ReadsRatchet P W n peerId envelope text
  · obtain ⟨text, hread⟩ := hreads
    obtain ⟨pk, parsed, plaintext, state, ⟨friend, hlookup, hopen, hpk⟩, henv, hdec, htext⟩ :=
      id hread
    have hfind := getFriends_find_of (fun x => !x.blocked) (f := noFaults) rfl hlookup
      (by rw [hopen]; rfl)
    obtain ⟨index, hsave⟩ :=
      savePrivateMessage_frame noFaults n.conn peerId false text timestamp ttl
    have hmessage : ratchetMessage P W noFaults n peerId envelope senderNick timestamp ttl =
        some ((saveRatchetState noFaults
          (savePrivateMessage noFaults n.conn peerId false text timestamp ttl).2 peerId
          (W.ratchetState.enc state)).2, .newPrivateMessage peerId senderNick text
            timestamp ttl) := by
      simp only [ratchetMessage, hfind, hpk, henv, hdec, htext]
    refine .inl ⟨text, _, _, hread, hmessage, ?_⟩
    rw [hsave]
    rfl
  · refine .inr ⟨hreads, Option.eq_none_iff_forall_ne_some.mpr fun after hmessage => hreads ?_⟩
    obtain ⟨r, pk, parsed, plaintext, state, text, hfind, hpk, henv, hdec, htext, -, -⟩ :=
      ratchetMessage_some hmessage
    obtain ⟨hlookup, hopen⟩ := getFriends_find (fun x => !x.blocked) hfind
    exact ⟨text, pk, parsed, plaintext, state, ⟨r.2, hlookup, by simpa using hopen, hpk⟩, henv,
      hdec, htext⟩

theorem ratchet_adds (P : Primitives Key) (W : NetWire Key) (n : Node Key) (peer : String)
    (envelope : Bytes) (senderNick : String) (timestamp : Int64) (ttl : Option Int64) :
    AddsRead n.conn
      (ratchetPrivateMessage P W noFaults n peer envelope senderNick timestamp ttl).1
      fun peerId => peerId = peer ∧ ∃ text, ReadsRatchet P W n peer envelope text := by
  unfold ratchetPrivateMessage
  rcases ratchetMessage_cases P W n peer envelope senderNick timestamp ttl with
    ⟨text, conn, e, hread, hmessage, hadded⟩ | ⟨hreads, hmessage⟩
  · rw [hmessage]
    exact .inl ⟨received peer text timestamp ttl, rfl,
      fun peerId => ⟨fun h => h.1, fun h => ⟨h, text, hread⟩⟩, hadded⟩
  · rw [hmessage]
    exact .inr ⟨fun _ h => hreads h.2, rfl⟩

theorem x3dh_adds [DecidableEq Key] [Zero Key] (P : Primitives Key) (W : NetWire Key)
    (n : Node Key) (t : Turn Key) (peer : String) (req : X3dhDm Key) :
    AddsRead n.conn (x3dhDm P W.toDmWire noFaults n peer req t.drawn t.newSecret).1
      fun peerId => peerId = peer ∧ ∃ text, ReadsX3dh P W n t peer req.drEnvelope text := by
  by_cases hreads : ∃ text, ReadsX3dh P W n t peer req.drEnvelope text
  · obtain ⟨text, pk, parsed, plaintext, state, hfriend, henv, hdec, htext⟩ := id hreads
    obtain rfl := (Layout.utf8_dec_iff _ _).mp htext
    refine .inl ⟨received peer text req.timestamp req.ttl, rfl,
      fun peerId => ⟨fun h => h.1, fun h => ⟨h, hreads⟩⟩, ?_⟩
    rw [x3dhDm_read rfl hfriend henv hdec, saveDrState_frame]
    obtain ⟨index, hsave⟩ := savePrivateMessage_frame noFaults n.conn peer false text req.timestamp
      req.ttl
    rw [hsave]
    rfl
  · refine .inr ⟨fun _ h => hreads h.2, ?_⟩
    rcases x3dhDm_cases P W.toDmWire noFaults n peer req t.drawn t.newSecret with
      hsame | ⟨pk, parsed, plaintext, text, state, hfriend, henv, hdec, htext, -⟩
    · rw [hsame]
    · exact absurd ⟨text, pk, parsed, plaintext, state, hfriend, henv, hdec, htext⟩ hreads

/-- There is one sender: who the sealed message says. -/
theorem ReadsSealed.unique {payload : Bytes} {peerId peerId' : String}
    (h : ReadsSealed P W n payload peerId) (h' : ReadsSealed P W n payload peerId') :
    peerId' = peerId := by
  obtain ⟨sealedMsg, pub, innerBytes, -, -, -, -, -, hdec, hopen, -⟩ := h
  obtain ⟨sealedMsg', pub', innerBytes', -, -, -, -, -, hdec', hopen', -⟩ := h'
  rw [hdec] at hdec'
  cases hdec'
  rw [hopen] at hopen'
  cases hopen'
  rfl

theorem sealed_adds (P : Primitives Key) (W : NetWire Key) (n : Node Key) (payload : Bytes) :
    AddsRead n.conn (onionPayload P W noFaults n payload).1 (ReadsSealed P W n payload) := by
  by_cases hreads : ∃ peerId, ReadsSealed P W n payload peerId
  · obtain ⟨sender, hread⟩ := hreads
    obtain ⟨sealedMsg, pub, innerBytes, envelope, senderNick, timestamp, ttl, text, hdec,
      hopen, hreq,
      hratchet⟩ := id hread
    rcases ratchetMessage_cases P W n sender envelope senderNick timestamp ttl with
      ⟨text, conn, e, -, hmessage, hadded⟩ | ⟨hno, -⟩
    · refine .inl ⟨received sender text timestamp ttl, rfl, fun peerId =>
        ⟨fun h => hread.unique h, fun h => (by rw [h]; exact hread)⟩, ?_⟩
      simp only [onionPayload, hdec, hopen, hreq, hmessage]
      exact hadded
    · exact absurd ⟨text, hratchet⟩ hno
  · refine .inr ⟨fun peerId h => hreads ⟨peerId, h⟩, ?_⟩
    unfold onionPayload
    split
    · rfl
    · next sealedMsg hdec =>
      split
      · rfl
      · next pub sender innerBytes hopen =>
        split
        · next envelope senderNick timestamp ttl hreq =>
          rcases ratchetMessage_cases P W n sender envelope senderNick timestamp ttl with
            ⟨text, conn, e, hratchet, -, -⟩ | ⟨-, hmessage⟩
          · exact absurd ⟨sender, sealedMsg, pub, innerBytes, envelope, senderNick,
              timestamp, ttl, text, hdec, hopen, hreq, hratchet⟩ hreads
          · rw [hmessage]
        · rfl

/-- An onion that is for us, by the layer it is peeled to. -/
theorem readsOnion_iff {packet : Bytes} {onionPacket : OnionPacket Key} {layer : OnionLayer Key}
    (hdec : (packetLayout W.key).decode packet = some onionPacket)
    (hpeel : peelOnion P W.key n.offlineSecretBytes onionPacket = .ok layer) (peerId : String) :
    ReadsOnion P W n packet peerId ↔ ∃ payload, layer.nextHop = none ∧
    layer.payload = some payload ∧
      ReadsSealed P W n payload peerId := by
  constructor
  · intro h
    obtain ⟨onionPacket', layer', payload, hdec', hpeel', hrest⟩ := h
    rw [hdec] at hdec'
    cases hdec'
    rw [hpeel] at hpeel'
    cases hpeel'
    exact ⟨payload, hrest⟩
  · intro h
    obtain ⟨payload, hrest⟩ := h
    exact ⟨onionPacket, layer, payload, hdec, hpeel, hrest⟩

/-- An onion adds what its payload adds, if it is for us. -/
theorem onion_adds (P : Primitives Key) (W : NetWire Key) (n : Node Key) (peer : String)
    (packet : Bytes) :
    AddsRead n.conn (onionForward P W noFaults n peer packet).1 (ReadsOnion P W n packet) := by
  unfold onionForward
  simp only
  cases hdec : (packetLayout W.key).decode packet with
  | none =>
    refine .inr ⟨fun peerId h => ?_, rfl⟩
    obtain ⟨onionPacket, layer, payload, hdec', -⟩ := h
    rw [hdec] at hdec'
    cases hdec'
  | some onionPacket =>
    simp only
    cases hpeel : peelOnion P W.key n.offlineSecretBytes onionPacket with
    | error e =>
      refine .inr ⟨fun peerId h => ?_, rfl⟩
      obtain ⟨onionPacket', layer, payload, hdec', hpeel', -⟩ := h
      rw [hdec] at hdec'
      cases hdec'
      rw [hpeel] at hpeel'
      cases hpeel'
    | ok layer =>
      have hreads := readsOnion_iff hdec hpeel
      obtain ⟨nextHop, innerPacket, payload⟩ := layer
      simp only at hreads ⊢
      cases nextHop with
      | some nextHop =>
        refine .inr ⟨fun peerId h => ?_, ?_⟩
        · obtain ⟨payload, hnone, -⟩ := (hreads peerId).mp h
          cases hnone
        · cases innerPacket with
          | none => rfl
          | some inner =>
            simp only
            cases W.parsePeerId nextHop <;> rfl
      | none =>
        cases payload with
        | none =>
          refine .inr ⟨fun peerId h => ?_, by cases innerPacket <;> rfl⟩
          obtain ⟨payload, -, hsome, -⟩ := (hreads peerId).mp h
          cases hsome
        | some payload =>
          have hsealed : ReadsOnion P W n packet = ReadsSealed P W n payload := by
            funext peerId
            rw [hreads peerId]
            simp
          rw [hsealed]
          cases innerPacket <;> exact sealed_adds P W n payload

/-- What lasts was there. -/
theorem count_lasting_le (conn : Database) (now : Int64) (r : PrivateMessage) :
    (lasting conn now).count r ≤ conn.privateMessages.count r :=
  List.filter_sublist.count_le r

/-- A row that is added is one more than before, unless it has expired and takes the place of one
    that is deleted. -/
theorem count_added_iff (conn : Database) (now : Int64) (r : PrivateMessage) :
    conn.privateMessages.count r < (lasting conn now ++ [r]).count r ↔
      r.expired now = false ∨ r ∉ conn.privateMessages := by
  rw [List.count_append, List.count_singleton_self]
  cases hexp : r.expired now with
  | false =>
    rw [count_lasting hexp]
    exact iff_of_true (Nat.lt_succ_self _) (.inl rfl)
  | true =>
    have hgone : (lasting conn now).count r = 0 := by
      refine List.count_eq_zero.mpr fun hin => ?_
      have hlast := (List.mem_filter.mp hin).2
      rw [hexp] at hlast
      cases hlast
    rw [hgone, Nat.zero_add, Nat.lt_one_iff, List.count_eq_zero]
    exact ⟨.inr, fun h => h.resolve_left (by simp)⟩

/-- **A record is saved in the name that its message gives.** -/
theorem record_enforced_iff (P : Primitives Key) (W : NetWire Key) (n : Node Key) (now : Int64)
    (key value : Bytes) :
    Enforced n.conn (foundRecord P W noFaults n now key value).1 ↔
      ∀ peerId, ReadsRecord P W n now key value peerId → Admissible n.conn peerId := by
  cases hmsg : offlineMsg P W n key value with
  | none =>
    rw [foundRecord_none P W noFaults n now hmsg]
    refine ⟨fun _ peerId h => ?_, fun _ => enforced_same rfl⟩
    obtain ⟨m, hm, -⟩ := h
    rw [hmsg] at hm
    cases hm
  | some m =>
    have hmessages := foundRecord_messages P W n now hmsg
    cases hrec : recognised n.conn now m with
    | true =>
      rw [hrec, if_pos rfl, List.append_nil] at hmessages
      refine ⟨fun _ peerId h => ?_, fun _ r _ hmore => ?_⟩
      · obtain ⟨m', hm, -, hnew, -⟩ := h
        rw [hmsg] at hm
        cases hm
        rw [hrec] at hnew
        cases hnew
      · rw [hmessages] at hmore
        exact absurd hmore (Nat.not_lt.mpr (count_lasting_le n.conn now r))
    | false =>
      rw [hrec, if_neg Bool.false_ne_true] at hmessages
      unfold Enforced
      rw [hmessages]
      constructor
      · intro h peerId hreads
        obtain ⟨m', hm, rfl, -, hlasts⟩ := hreads
        rw [hmsg] at hm
        obtain rfl := Option.some.inj hm
        exact h m.row rfl ((count_added_iff n.conn now m.row).mpr hlasts)
      · intro h r _ hmore
        by_cases hr : r = m.row
        · rw [hr] at hmore ⊢
          exact h m.senderPeerId ⟨m, hmsg, rfl, hrec, (count_added_iff n.conn now m.row).mp hmore⟩
        · rw [List.count_append, List.count_singleton, if_neg (by simpa using Ne.symm hr),
            Nat.add_zero] at hmore
          exact absurd hmore (Nat.not_lt.mpr (count_lasting_le n.conn now r))

end

/-! ## 5. All of them -/

/-- What the gate leaves as it is. -/
structure Gated (l l' : EventLoop Key) : Prop where
  node : ∃ table, l'.node = { l.node with conn := { l.node.conn with peerSettings := table } }
  settingsOf : ∀ id, l'.node.conn.settingsOf id = l.node.conn.settingsOf id

section

variable {P : Primitives Key} {W : NetWire Key} {l l' : EventLoop Key}

theorem requestGate_gated (l : EventLoop Key) (nowMs : Int64) (peer : String) :
    Gated l (requestGate allRead l nowMs peer).2 where
  node := by
    obtain ⟨table, buckets, hframe⟩ := requestGate_frame allRead l nowMs peer
    rw [hframe]
    exact ⟨table, rfl⟩
  settingsOf id := requestGate_settingsOf allRead l nowMs peer id

theorem Gated.messages (h : Gated l l') :
    l'.node.conn.privateMessages = l.node.conn.privateMessages := by
  obtain ⟨table, hnode⟩ := h.node
  rw [hnode]

theorem Gated.admissible (h : Gated l l') {peerId : String}
    (hadmissible : Admissible l'.node.conn peerId) : Admissible l.node.conn peerId := by
  obtain ⟨table, hnode⟩ := h.node
  unfold Admissible at hadmissible
  rw [h.settingsOf, hnode] at hadmissible
  exact hadmissible

/-- What is read after the gate is what was there to be read before. -/
theorem Gated.reads [DecidableEq Key] [Zero Key] (h : Gated l l') :
    ReadsRatchet P W l'.node = ReadsRatchet P W l.node ∧
      ReadsX3dh P W l'.node = ReadsX3dh P W l.node ∧
      ReadsOnion P W l'.node = ReadsOnion P W l.node := by
  obtain ⟨table, hnode⟩ := h.node
  rw [hnode]
  exact ⟨rfl, rfl, rfl⟩

theorem Gated.enforced_iff (h : Gated l l') {after : Database} {reads : String → Prop}
    (hadds : AddsRead l'.node.conn after reads) :
    Enforced l.node.conn after ↔ ∀ peerId, reads peerId → Admissible l.node.conn peerId := by
  unfold AddsRead at hadds
  rw [h.messages] at hadds
  exact AddsRead.enforced_iff hadds

/-- Of a peer that was let in, the trust is what is left. -/
theorem rest_of_gate {peer : String} (hblocked : (l.node.conn.settingsOf peer).blocked = false)
    {reads : Prop} :
    (∀ peerId, peerId = peer ∧ reads → Admissible l.node.conn peerId) ↔
      ∀ peerId, peerId = peer ∧ reads →
        minTrust noFaults l.node.conn "min_trust_dm" ≤
          (l.node.conn.settingsOf peerId).trustLevel := by
  constructor
  · intro h peerId hpeer
    exact (h peerId hpeer).2
  · intro h peerId hpeer
    refine ⟨?_, h peerId hpeer⟩
    rw [hpeer.1]
    exact hblocked

/-- A trust check leaves the messages. -/
theorem trustCheck_messages (conn : Database) (peer key : String) :
    (trustCheck noFaults conn peer key).2.privateMessages = conn.privateMessages := by
  obtain ⟨table, hframe⟩ := trustCheck_frame noFaults conn peer key
  rw [hframe]

/-- A request that the gate refuses adds nothing, and nothing of it is unguarded. -/
theorem refused_enforced_iff [DecidableEq Key] [Zero Key] (hashOf : Bytes → String) {t : Turn Key}
    {peer : String} (hrefused : (requestGate allRead l t.nowMs peer).1 ≠ .admitted)
    (req : P2pRequest Key) :
    Enforced l.node.conn ((Incoming.request t peer req).after P W hashOf l) ↔
      ∀ peerId, Unguarded P W l (.request t peer req) peerId →
        Rest l.node.conn (.request t peer req) peerId := by
  refine iff_of_true (enforced_same ?_) fun peerId h => absurd h.1 hrefused
  show (handleRequest P W hashOf allRead l t peer req).1.node.conn.privateMessages = _
  rw [handleRequest_refused hrefused]
  exact (requestGate_gated l t.nowMs peer).messages

/-- A request that the gate admits, by arms. -/
theorem admitted_enforced_iff [DecidableEq Key] [Zero Key] (hashOf : Bytes → String) {t : Turn Key}
    {peer : String} (hgate : requestGate allRead l t.nowMs peer = (.admitted, l'))
    (req : P2pRequest Key) :
    Enforced l.node.conn ((Incoming.request t peer req).after P W hashOf l) ↔
      ∀ peerId, Unguarded P W l (.request t peer req) peerId →
        Rest l.node.conn (.request t peer req) peerId := by
  have hgated : Gated l l' := by
    have := requestGate_gated l t.nowMs peer
    rwa [hgate] at this
  obtain ⟨hratchet, hx3dh, honion⟩ := hgated.reads (P := P) (W := W)
  have hblocked : (l.node.conn.settingsOf peer).blocked = false :=
    ((requestGate_admitted_iff l t.nowMs peer).mp (by rw [hgate])).1
  have hquiet : ∀ {after : Database}, after.privateMessages = l'.node.conn.privateMessages →
      Enforced l.node.conn after := fun h => enforced_same (h.trans hgated.messages)
  cases req with
  | privateMessage text senderNick timestamp ttl powToken =>
    simp only [Incoming.after, handleRequest, Unguarded, Rest, hgate]
    refine iff_of_true ?_ fun _ _ => trivial
    rcases privateMessage_messages W l' t.nowMs peer text senderNick timestamp ttl powToken with
      hsame | ⟨hadmissible, hadded⟩
    · exact hquiet hsame
    · rw [hgated.messages] at hadded
      exact (enforced_added rfl hadded).mpr (hgated.admissible hadmissible)
  | ratchetPrivateMessage envelope senderNick timestamp ttl =>
    simp only [Incoming.after, handleRequest, Unguarded, Rest, hgate, true_and, ← hratchet]
    rw [← rest_of_gate hblocked]
    exact hgated.enforced_iff
      (ratchet_adds P W l'.node peer envelope senderNick timestamp ttl)
  | x3dhDm _ drEnvelope senderDhPub senderNick timestamp ttl =>
    simp only [Incoming.after, handleRequest, Unguarded, Rest, hgate, true_and, ← hx3dh]
    rw [← rest_of_gate hblocked]
    exact hgated.enforced_iff (x3dh_adds P W l'.node t peer
      { drEnvelope, senderDhPub, senderNick, timestamp, ttl })
  | onionForward packet =>
    simp only [Incoming.after, handleRequest, Unguarded, Rest, hgate, true_and, ← honion]
    exact hgated.enforced_iff (onion_adds P W l'.node peer packet)
  | file filename data =>
    simp only [Incoming.after, handleRequest, Unguarded, Rest, hgate]
    refine iff_of_true (hquiet ?_) fun _ _ => trivial
    rw [file_state]
    exact trustCheck_messages l'.node.conn peer "min_trust_file"
  | fileChunk transferId index total contentHash data =>
    simp only [Incoming.after, handleRequest, Unguarded, Rest, hgate]
    refine iff_of_true (hquiet ?_) fun _ _ => trivial
    rw [fileChunk_state]
    exact trustCheck_messages l'.node.conn peer "min_trust_file"
  | webRtcSignal | capabilityAnnouncement | pluginEvent | powChallenge | powSolution =>
    simp only [Incoming.after, handleRequest, Unguarded, Rest, hgate]
    exact iff_of_true (hquiet rfl) fun _ _ => trivial

end

/-- **Which messages of others are let in.** The arm `PrivateMessage` lets in what the policy does;
    a message that is read elsewhere is saved, and the policy holds where what that place does not
    check holds. -/
theorem admission_iff [DecidableEq Key] [Zero Key] (P : Primitives Key) (W : NetWire Key)
    (hashOf : Bytes → String) (l : EventLoop Key) (ev : Incoming Key) :
    Enforced l.node.conn (ev.after P W hashOf l) ↔
      ∀ peerId, Unguarded P W l ev peerId → Rest l.node.conn ev peerId := by
  cases ev with
  | record now key value => exact record_enforced_iff P W l.node now key value
  | request t peer req =>
    cases hgate : requestGate allRead l t.nowMs peer with
    | mk verdict l' =>
      by_cases hverdict : verdict = .admitted
      · obtain rfl := hverdict
        exact admitted_enforced_iff hashOf hgate req
      · exact refused_enforced_iff hashOf (by rwa [hgate]) req

/-! ## 6. A record from a blocked peer -/

/-- A peer that has blocked "a" in its settings, and has a public key of it. -/
def blocking32 : EventLoop Key32 :=
  loopOf { mailStart32.node with
    conn := { mailStart32.node.conn with
      peerSettings := (∅ : Table String PeerSettings).insert "a"
        { PeerSettings.default with blocked := true } } }

theorem blocking32_blocked : (blocking32.node.conn.settingsOf "a").blocked = true := by
  rw [Database.settingsOf, show blocking32.node.conn.peerSettings.lookup "a" = _ from
    AList.lookup_insert _]
  rfl

/-- **A blocked peer's record is saved**: nothing asks who it is from. -/
theorem blocked_record_saved :
    (blocking32.node.conn.settingsOf "a").blocked = true ∧
    ((Incoming.record 0 (getDhtMailboxKey wire32 "b")
      ((payloadLayout key32).bytes (mailFor (mailOf (offlineNonce 0 1))))).after plain32
        wire32 noHash
        blocking32).privateMessages = [(mailOf (offlineNonce 0 1)).row] ∧
    ¬ Enforced blocking32.node.conn
      ((Incoming.record 0 (getDhtMailboxKey wire32 "b")
        ((payloadLayout key32).bytes (mailFor (mailOf (offlineNonce 0 1))))).after plain32
          wire32 noHash
          blocking32) := by
  have hread := mailFor_read (offlineNonce 0 1) blocking32.node rfl rfl
  have hnone : blocking32.node.conn.privateMessages = [] := rfl
  have hnew := recognised_eq (m := mailOf (offlineNonce 0 1)) 0 hnone
    fun _ hr => absurd hr List.not_mem_nil
  have hone := foundRecord_messages plain32 wire32 blocking32.node 0 hread
  rw [hnew.1, hnew.2, show alreadyThere [] (mailOf (offlineNonce 0 1)) = false by decide] at hone
  refine ⟨blocking32_blocked, hone, fun h => ?_⟩
  have hadmissible := h (mailOf (offlineNonce 0 1)).row rfl
    (by rw [hnone, Incoming.after, hone]; decide)
  have hopen : (blocking32.node.conn.settingsOf "a").blocked = false := hadmissible.1
  rw [blocking32_blocked] at hopen
  cases hopen

end AlterChat.Inbound
