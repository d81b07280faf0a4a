import AlterChat.Core.Governance
import AlterChat.Tauri.OnionDelivery

/-!
# The offline mailbox

The copy of a direct message that `SendPrivateMessage` puts under the mailbox key of its receiver,
and what the receiver does with a record found there: it decrypts it, compares it with the messages
it has, and saves it. Kademlia is a map from keys to the last record put.

* §1 records, `offlineRecord` -- what is put, §2 `foundRecord` -- what is done with it;
* §3 runs of records and reads, `SavedOnce`; §4 `Told` and the invariant;
* §5 `saved_once` -- where the comparison recognises what has been saved, and nothing else, every
  message is saved once; §6 a record that is found twice;
* §7 `mailbox_reads_iff` -- of several messages only the last can be read; §8 two messages.
-/

namespace AlterChat.Inbound

open Lib Db DoubleRatchet Crypto Onion DirectMessages

variable {Key : Type}

/-! ## 1. Records -/

/-- `OfflineMsg`. -/
structure OfflineMsg where
  senderPeerId : String
  senderNick : String
  text : String
  timestamp : Int64
  ttl : Option Int64
  nonce : Vector UInt8 16
  deriving DecidableEq

def offlineFields :
    OfflineMsg ≃ String × String × String × Int64 × Option Int64 × Vector UInt8 16 where
  toFun m := (m.senderPeerId, m.senderNick, m.text, m.timestamp, m.ttl, m.nonce)
  invFun q := ⟨q.1, q.2.1, q.2.2.1, q.2.2.2.1, q.2.2.2.2.1, q.2.2.2.2.2⟩
  left_inv _ := rfl
  right_inv _ := rfl

/-- `bincode` for both of its definitions: `#[serde(default)]` has no effect there. -/
def offlineLayout : Layout OfflineMsg :=
  (Layout.string.pair <| .pair .string <| .pair .string <| .pair .i64 <| .pair (.option .i64)
    (.array .u8 16)).record offlineFields

/-- The row it is saved as. -/
def OfflineMsg.row (m : OfflineMsg) : PrivateMessage where
  peerId := m.senderPeerId
  senderIsMe := false
  text := m.text
  timestamp := m.timestamp
  ttl := m.ttl

/-- What makes it the message it is: the row and the nonce. -/
def OfflineMsg.entry (m : OfflineMsg) : PrivateMessage × Vector UInt8 16 := (m.row, m.nonce)

/-- `kad::Record`, with the time at which it expires in milliseconds. -/
structure MailRecord where
  key : Bytes
  value : Bytes
  expires : Int
  deriving DecidableEq

/-- `get_dht_mailbox_key`. -/
def getDhtMailboxKey (W : NetWire Key) (peerId : String) : Bytes :=
  W.sha256 (Codec.utf8.enc peerId ++ Codec.utf8.enc "_offline_inbox")

/-- The nonce of a message: its timestamp, then a hash of the timestamp and the thread. -/
def offlineNonce (timestamp : Int64) (hash : UInt64) : Vector UInt8 16 :=
  ⟨(Layout.i64.bytes timestamp ++ Layout.u64.bytes hash).toArray, by
    show (le 8 _ ++ le 8 _).length = 16
    rw [List.length_append, le_length, le_length]⟩

/-- Seven days. -/
def recordLifetimeMs : Int := 7 * 24 * 60 * 60 * 1000

/-- What is drawn and read for a record. -/
structure MailDraw (Key : Type) where
  ephemeral : Key
  nonce : Nonce
  hash : UInt64
  nowMs : Int

/-- The copy for the mailbox in `SendPrivateMessage`: its message and its record. What the command
    asks before is asked for the copy too, but not whether the ratchet could encrypt. -/
def offlineRecord (P : Primitives Key) (W : NetWire Key) (f : Faults) (n : Node Key)
    (peerId : String) (a : SendArgs Key) (d : MailDraw Key) : Option (OfflineMsg × MailRecord) :=
  let (settings, conn) := getPeerSettings f n.conn peerId
  if (settings.toOption.map fun p => p.blocked).getD false = true then none
  else if (settings.toOption.map fun p => p.trustLevel).getD 0 < n.minTrustDm then none
  else
    let conn := (savePrivateMessage f conn peerId true a.text a.timestamp a.ttl).2
    let friends := (getFriends f conn).toOption.getD []
    match friends.find? fun r => decide (r.1 = peerId) with
    | none => none
    | some (_, friend) =>
      if friend.blocked = true then none
      else
        match friend.offlinePubkey.bind W.x25519Hex.dec with
        | none => none
        | some pk =>
          let msg : OfflineMsg :=
            { senderPeerId := n.myPeerId, senderNick := a.senderNick, text := a.text
              timestamp := a.timestamp, ttl := a.ttl, nonce := offlineNonce a.timestamp d.hash }
          match encryptForPeer P d.ephemeral d.nonce pk (offlineLayout.bytes msg) with
          | .error _ => none
          | .ok encrypted =>
            some (msg,
              { key := getDhtMailboxKey W peerId
                value := (payloadLayout W.key).bytes encrypted
                expires := d.nowMs + recordLifetimeMs })

/-! ## 2. A record that is found -/

/-- The message in a record, if it is one for this peer. -/
def offlineMsg (P : Primitives Key) (W : NetWire Key) (n : Node Key) (key value : Bytes) :
    Option OfflineMsg :=
  if key = getDhtMailboxKey W n.myPeerId then
    match (payloadLayout W.key).decode value with
    | none => none
    | some encrypted =>
      match decryptForMe P n.offlineSecretBytes encrypted with
      | .error _ => none
      | .ok plaintext => offlineLayout.decode plaintext
  else none

/-- The comparison: `nonce_hex[..8]` is looked for at the front of a saved text, and without a nonce
    the text itself. -/
def alreadyThere (existing : List PrivateMessage) (msg : OfflineMsg) : Bool :=
  if msg.nonce ≠ Vector.replicate 16 0 then
    let nonceHex := Governance.hexString msg.nonce.toList
    existing.any fun m =>
      decide (m.timestamp = msg.timestamp) && (nonceHex.toList.take 8).isPrefixOf m.text.toList
  else existing.any fun m => decide (m.timestamp = msg.timestamp) && decide (m.text = msg.text)

/-- The arm for a `FoundRecord`. -/
def foundRecord (P : Primitives Key) (W : NetWire Key) (f : Faults) (n : Node Key) (nowMs : Int64)
    (key value : Bytes) : Database × List (NetEffect Key) :=
  match offlineMsg P W n key value with
  | none => (n.conn, [])
  | some msg =>
    let (existing, conn) := getPrivateMessages f n.conn nowMs msg.senderPeerId
    if alreadyThere (existing.toOption.getD []) msg then (conn, [])
    else
      ((savePrivateMessage f conn msg.senderPeerId false msg.text msg.timestamp msg.ttl).2,
        [.newPrivateMessage msg.senderPeerId msg.senderNick msg.text msg.timestamp msg.ttl])

/-! ## 3. Records and reads -/

/-- A receiver, the time of the last event, and the messages of the records it has been given, each
    with its nonce, in the order of the first time. -/
structure MailWorld (Key : Type) where
  node : Node Key
  now : Int64
  processed : List (PrivateMessage × Vector UInt8 16)

inductive MailEvent where
  /-- `get_record` has returned a record. -/
  | found (now : Int64) (key value : Bytes)
  /-- The messages with a peer are read. -/
  | read (now : Int64) (peerId : String)

def MailEvent.now : MailEvent → Int64
  | .found now .. => now
  | .read now _ => now

/-- The messages processed, with one more. -/
def remember (processed : List (PrivateMessage × Vector UInt8 16)) :
    Option OfflineMsg → List (PrivateMessage × Vector UInt8 16)
  | none => processed
  | some m => if m.entry ∈ processed then processed else processed ++ [m.entry]

/-- The receiver after an event. -/
def MailWorld.after (P : Primitives Key) (W : NetWire Key) (w : MailWorld Key) :
    MailEvent → MailWorld Key
  | .found now key value =>
    { node := { w.node with conn := (foundRecord P W noFaults w.node now key value).1 }
      now
      processed := remember w.processed (offlineMsg P W w.node key value) }
  | .read now peerId =>
    { w with
      node := { w.node with conn := (getPrivateMessages noFaults w.node.conn now peerId).2 }
      now }

/-- One event; the clock does not go back. -/
def MailStep (P : Primitives Key) (W : NetWire Key) (w : MailWorld Key) (ev : MailEvent)
    (w' : MailWorld Key) : Prop :=
  w.now ≤ ev.now ∧ w' = w.after P W ev

/-- **The property**: since `w₀` the messages `new` have been given to the receiver, and of the rows
    that have not expired there are as many more as there are messages in `new` with that row. -/
def SavedOnce (w₀ w : MailWorld Key) : Prop :=
  ∃ new : List (PrivateMessage × Vector UInt8 16), w.processed = w₀.processed ++ new ∧ new.Nodup ∧
    (∀ m ∈ new, m ∉ w₀.processed) ∧
    ∀ r : PrivateMessage, r.expired w.now = false →
      w.node.conn.privateMessages.count r =
        w₀.node.conn.privateMessages.count r + (new.map Prod.fst).count r

/-- What has been processed before the run is saved, as long as it has not expired. -/
def MailStart (w : MailWorld Key) : Prop :=
  ∀ m ∈ w.processed, m.1.expired w.now = false → m.1 ∈ w.node.conn.privateMessages

/-! ## 4. What the comparison recognises -/

/-- The rows that have not expired. -/
def lasting (conn : Database) (nowMs : Int64) : List PrivateMessage :=
  conn.privateMessages.filter fun r => !r.expired nowMs

/-- The comparison takes the message for one that is there. -/
def recognised (conn : Database) (nowMs : Int64) (m : OfflineMsg) : Bool :=
  alreadyThere ((lasting conn nowMs).filter fun r => decide (r.peerId = m.senderPeerId)) m

/-- **The condition**: a message that has not expired is recognised when its record comes again, and
    not taken for another message when it comes for the first time. A legacy message is always
    recognised. -/
def Told (P : Primitives Key) (W : NetWire Key) (w : MailWorld Key) : MailEvent → Prop
  | .found now key value => ∀ m, offlineMsg P W w.node key value = some m →
      m.row.expired now = false →
      (m.entry ∈ w.processed →
        m.nonce = Vector.replicate 16 0 ∨ recognised w.node.conn now m = true) ∧
      (m.entry ∉ w.processed → recognised w.node.conn now m = false)
  | .read .. => True

section

variable {P : Primitives Key} {W : NetWire Key} {conn : Database} {m : OfflineMsg}

/-- The order of the rows does not matter. -/
theorem alreadyThere_congr {l l' : List PrivateMessage} (h : ∀ r, r ∈ l ↔ r ∈ l') (m : OfflineMsg) :
    alreadyThere l m = alreadyThere l' m := by
  have hany : ∀ p : PrivateMessage → Bool, l.any p = l'.any p := by
    intro p
    rw [Bool.eq_iff_iff, List.any_eq_true, List.any_eq_true]
    constructor
    · intro hl
      obtain ⟨r, hr, hp⟩ := hl
      exact ⟨r, (h r).mp hr, hp⟩
    · intro hl
      obtain ⟨r, hr, hp⟩ := hl
      exact ⟨r, (h r).mpr hr, hp⟩
  unfold alreadyThere
  simp only [hany]

/-- A saved legacy message is recognised. -/
theorem recognised_legacy {nowMs : Int64} (hnonce : m.nonce = Vector.replicate 16 0)
    (hrow : m.row ∈ conn.privateMessages) (hfresh : m.row.expired nowMs = false) :
    recognised conn nowMs m = true := by
  unfold recognised alreadyThere
  rw [if_neg (not_not.mpr hnonce), List.any_eq_true]
  refine ⟨m.row, ?_, by simp [OfflineMsg.row]⟩
  rw [lasting, List.mem_filter, List.mem_filter, hfresh]
  exact ⟨⟨hrow, rfl⟩, decide_eq_true rfl⟩

/-- **What a record does to the messages**: what has expired goes, and a message that is not
    recognised is added. -/
theorem foundRecord_messages (P : Primitives Key) (W : NetWire Key) (n : Node Key) (nowMs : Int64)
    {key value : Bytes} (hm : offlineMsg P W n key value = some m) :
    (foundRecord P W noFaults n nowMs key value).1.privateMessages =
      lasting n.conn nowMs ++ if recognised n.conn nowMs m then [] else [m.row] := by
  obtain ⟨index, hconn⟩ := getPrivateMessages_frame noFaults n.conn nowMs m.senderPeerId
  have hread : ∃ l, (getPrivateMessages noFaults n.conn nowMs m.senderPeerId).1 = .ok l := ⟨_, rfl⟩
  obtain ⟨l, hl⟩ := hread
  have hsame : alreadyThere l m = recognised n.conn nowMs m := by
    refine alreadyThere_congr (fun r => ?_) m
    rw [mem_getPrivateMessages hl, hconn, List.mem_filter, decide_eq_true_eq]
    rfl
  unfold foundRecord
  simp only [hm]
  generalize getPrivateMessages noFaults n.conn nowMs m.senderPeerId = q at hconn hl
  obtain ⟨existing, conn'⟩ := q
  obtain rfl : conn' = _ := hconn
  obtain rfl : existing = .ok l := hl
  simp only [Except.toOption, Option.getD_some, hsame]
  cases recognised n.conn nowMs m with
  | true => exact (List.append_nil _).symm
  | false =>
    obtain ⟨index', hsave⟩ := savePrivateMessage_frame noFaults _ m.senderPeerId false m.text
      m.timestamp m.ttl
    simp only [Bool.false_eq_true, if_false]
    rw [hsave]
    rfl

theorem foundRecord_none (P : Primitives Key) (W : NetWire Key) (f : Faults) (n : Node Key)
    (nowMs : Int64) {key value : Bytes} (hm : offlineMsg P W n key value = none) :
    (foundRecord P W f n nowMs key value).1 = n.conn := by
  simp only [foundRecord, hm]

/-- What has not expired later has not expired now. -/
theorem not_expired_before {r : PrivateMessage} {now later : Int64} (hle : now ≤ later)
    (h : r.expired later = false) : r.expired now = false := by
  have hle' := Int64.le_iff_toInt_le.mp hle
  unfold PrivateMessage.expired at h ⊢
  cases hr : r.ttl with
  | none => rfl
  | some ttl =>
    simp only [hr, decide_eq_false_iff_not] at h ⊢
    omega

theorem count_lasting {nowMs : Int64} {r : PrivateMessage} (h : r.expired nowMs = false) :
    (lasting conn nowMs).count r = conn.privateMessages.count r :=
  List.count_filter (by rw [h]; rfl)

end

/-! ## 5. Saved once -/

section

variable {P : Primitives Key} {W : NetWire Key} {w₀ w : MailWorld Key} {m : OfflineMsg}

theorem SavedOnce.refl (w : MailWorld Key) : SavedOnce w w :=
  ⟨[], (List.append_nil _).symm, List.nodup_nil, fun _ hm => absurd hm List.not_mem_nil,
    fun _ _ => rfl⟩

/-- A message that has been processed is there until it expires. -/
theorem SavedOnce.there (h : SavedOnce w₀ w) (h₀ : MailStart w₀) (hnow : w₀.now ≤ w.now)
    (hm : m.entry ∈ w.processed) (hfresh : m.row.expired w.now = false) :
    m.row ∈ w.node.conn.privateMessages := by
  obtain ⟨new, hprocessed, -, -, hcount⟩ := h
  rw [hprocessed, List.mem_append] at hm
  rw [← List.count_pos_iff, hcount _ hfresh]
  rcases hm with hold | hnew
  · have hrow := List.count_pos_iff.mpr (h₀ m.entry hold (not_expired_before hnow hfresh))
    exact Nat.add_pos_left hrow _
  · have hrow : 0 < (new.map Prod.fst).count m.row :=
      List.count_pos_iff.mpr (List.mem_map_of_mem (f := Prod.fst) hnew)
    exact Nat.add_pos_right _ hrow

/-- Time goes by, and no row that has not expired comes or goes. -/
theorem SavedOnce.keep (h : SavedOnce w₀ w) {now : Int64} (hle : w.now ≤ now) {conn : Database}
    (hcount : ∀ r : PrivateMessage, r.expired now = false →
      conn.privateMessages.count r = w.node.conn.privateMessages.count r) :
    SavedOnce w₀ { node := { w.node with conn }, now, processed := w.processed } := by
  obtain ⟨new, hprocessed, hnodup, hnew, hold⟩ := h
  refine ⟨new, hprocessed, hnodup, hnew, fun r hr => ?_⟩
  rw [hcount r hr]
  exact hold r (not_expired_before hle hr)

/-- A message is processed for the first time, and its row is one more unless it has expired. -/
theorem SavedOnce.more (h : SavedOnce w₀ w) {now : Int64} (hle : w.now ≤ now) {conn : Database}
    (hm : m.entry ∉ w.processed)
    (hcount : ∀ r : PrivateMessage, r.expired now = false →
      conn.privateMessages.count r = w.node.conn.privateMessages.count r + [m.row].count r) :
    SavedOnce w₀ { node := { w.node with conn }, now, processed := w.processed ++ [m.entry] } := by
  obtain ⟨new, hprocessed, hnodup, hnew, hold⟩ := h
  rw [hprocessed, List.mem_append, not_or] at hm
  refine ⟨new ++ [m.entry], ?_, ?_, ?_, fun r hr => ?_⟩
  · rw [hprocessed, List.append_assoc]
  · exact List.nodup_append.mpr ⟨hnodup, List.nodup_singleton m.entry, fun x hx y hy hxy =>
      hm.2 (List.mem_singleton.mp hy ▸ hxy ▸ hx)⟩
  · intro x hx
    rcases List.mem_append.mp hx with hx | hx
    · exact hnew x hx
    · rw [List.mem_singleton.mp hx]
      exact hm.1
  · rw [hcount r hr, List.map_append, List.map_singleton, List.count_append,
      hold r (not_expired_before hle hr), Nat.add_assoc]
    rfl

/-- The row of an expired message is none of those that count. -/
theorem count_expired {now : Int64} {r : PrivateMessage} (hr : r.expired now = false)
    (hm : m.row.expired now = true) : [m.row].count r = 0 := by
  rw [List.count_singleton, if_neg]
  intro heq
  rw [beq_iff_eq.mp heq, hr] at hm
  cases hm

/-- **A record**: a message is saved when it comes for the first time and not again. -/
theorem SavedOnce.found (h : SavedOnce w₀ w) (h₀ : MailStart w₀) (hnow : w₀.now ≤ w.now)
    {now : Int64} (hle : w.now ≤ now) {key value : Bytes}
    (htold : Told P W w (.found now key value)) :
    SavedOnce w₀ (w.after P W (.found now key value)) := by
  unfold MailWorld.after
  simp only
  cases hmsg : offlineMsg P W w.node key value with
  | none =>
    rw [foundRecord_none P W noFaults w.node now hmsg]
    exact h.keep hle fun _ _ => rfl
  | some m =>
    have hmessages := foundRecord_messages P W w.node now hmsg
    have hcount : ∀ r : PrivateMessage, r.expired now = false →
        (foundRecord P W noFaults w.node now key value).1.privateMessages.count r =
          w.node.conn.privateMessages.count r +
            (if recognised w.node.conn now m then [] else [m.row]).count r := by
      intro r hr
      rw [hmessages, List.count_append, count_lasting hr]
    unfold remember
    by_cases hm : m.entry ∈ w.processed
    · simp only [if_pos hm]
      refine h.keep hle fun r hr => ?_
      rw [hcount r hr]
      by_cases hrec : recognised w.node.conn now m = true
      · rw [if_pos hrec]
        rfl
      · -- it is saved again, so it has expired
        rw [if_neg hrec]
        cases hexp : m.row.expired now with
        | true => rw [count_expired hr hexp, Nat.add_zero]
        | false =>
          rcases (htold m hmsg hexp).1 hm with hlegacy | hrec'
          · have hthere := h.there h₀ hnow hm (not_expired_before hle hexp)
            exact absurd (recognised_legacy hlegacy hthere hexp) hrec
          · exact absurd hrec' hrec
    · simp only [if_neg hm]
      refine h.more hle hm fun r hr => ?_
      rw [hcount r hr]
      cases hexp : m.row.expired now with
      | true =>
        rw [count_expired hr hexp]
        by_cases hrec : recognised w.node.conn now m = true
        · rw [if_pos hrec]
          rfl
        · rw [if_neg hrec, count_expired hr hexp]
      | false =>
        rw [(htold m hmsg hexp).2 hm]
        rfl

/-- **Every message is saved once**, and messages with different nonces are saved each, in every run
    in which the comparison tells them. -/
theorem saved_once (h₀ : MailStart w₀)
    (h : Reach (fun w => w = w₀) (Guarded (Told P W) (MailStep P W)) w) : SavedOnce w₀ w := by
  have hinv := h.inv (I := fun w => SavedOnce w₀ w ∧ w₀.now ≤ w.now)
    (fun w hw => by
      obtain rfl : w = w₀ := hw
      exact ⟨.refl w, Int64.le_refl _⟩)
    fun w ev w' hw hstep => by
      obtain ⟨htold, hle, rfl⟩ := hstep
      obtain ⟨hsaved, hnow⟩ := hw
      cases ev with
      | found now key value => exact ⟨hsaved.found h₀ hnow hle htold, Int64.le_trans hnow hle⟩
      | read now peerId =>
        refine ⟨hsaved.keep hle fun r hr => ?_, Int64.le_trans hnow hle⟩
        obtain ⟨index, hconn⟩ := getPrivateMessages_frame noFaults w.node.conn now peerId
        rw [hconn]
        exact count_lasting hr
  exact hinv.1

end

/-! ## 6. A record found twice -/

section

variable {P : Primitives Key} {W : NetWire Key} {n : Node Key} {conn : Database} {m : OfflineMsg}

/-- **A message that the cipher takes is read back as it is.** -/
theorem offline_fits (h : (offlineLayout.bytes m).length < 2 ^ 63) : offlineLayout.Fits m := by
  simp only [offlineLayout, Layout.record_bytes, offlineFields, Equiv.coe_fn_mk, Layout.pair_length,
    Layout.string_length] at h
  simp only [offlineLayout, Layout.record_fits, offlineFields, Equiv.coe_fn_mk, Layout.pair_fits,
    Layout.string_fits, Layout.i64_fits, Layout.array_u8_fits, true_and, and_true]
  refine ⟨by omega, by omega, by omega, ?_⟩
  cases m.ttl with
  | none => exact Layout.option_fits_none _
  | some ttl => exact (Layout.option_fits_some _ ttl).mpr (Layout.i64_fits ttl)

/-- **The receiver reads what was sealed for its mailbox.** -/
theorem offlineMsg_sealed (hP : P.Lawful) (hgcm : P.Gcm) {ephemeral : Key} {nonce : Nonce}
    {encrypted : EncryptedPayload Key}
    (h : encryptForPeer P ephemeral nonce (P.publicKey n.offlineSecretBytes)
      (offlineLayout.bytes m) =
      .ok encrypted) :
    offlineMsg P W n (getDhtMailboxKey W n.myPeerId) ((payloadLayout W.key).bytes encrypted) =
      some m := by
  have hmax := (hgcm.accepts_iff _).mp (encryptForPeer_ok_iff.mp h).1
  have hread := (payloadLayout W.key).decode_bytes
    ((payload_fits W.key encrypted).mpr (ciphertext_short hgcm h))
  have hmsg := offlineLayout.decode_bytes (offline_fits (lt_of_accepts hmax (Nat.le_refl _)))
  simp only [offlineMsg, if_true, hread, decryptForMe_encryptForPeer hP h, hmsg]

/-- Where the messages are all of this conversation and do not expire, they are what it is compared
    with. -/
theorem recognised_eq {l : List PrivateMessage} (nowMs : Int64) (hl : conn.privateMessages = l)
    (hall : ∀ r ∈ l, r.ttl = none ∧ r.peerId = m.senderPeerId) :
    lasting conn nowMs = l ∧ recognised conn nowMs m = alreadyThere l m := by
  have hlasting : lasting conn nowMs = l := by
    rw [lasting, hl, List.filter_eq_self]
    intro r hr
    simp only [PrivateMessage.expired, (hall r hr).1, Bool.not_false]
  have hpeer : l.filter (fun r => decide (r.peerId = m.senderPeerId)) = l := by
    rw [List.filter_eq_self]
    intro r hr
    exact decide_eq_true (hall r hr).2
  rw [recognised, hlasting, hpeer]
  exact ⟨rfl, rfl⟩

/-- A record at such a receiver. -/
theorem after_found_messages {w : MailWorld Key} {l : List PrivateMessage} (now : Int64)
    {key value : Bytes} (hm : offlineMsg P W w.node key value = some m)
    (hl : w.node.conn.privateMessages = l)
    (hall : ∀ r ∈ l, r.ttl = none ∧ r.peerId = m.senderPeerId) :
    (w.after P W (.found now key value)).node.conn.privateMessages =
      l ++ if alreadyThere l m then [] else [m.row] := by
  have hmessages := foundRecord_messages P W w.node now hm
  rw [(recognised_eq now hl hall).1, (recognised_eq now hl hall).2] at hmessages
  exact hmessages

theorem after_found_processed {w : MailWorld Key} (now : Int64) {key value : Bytes}
    (hm : offlineMsg P W w.node key value = some m) :
    (w.after P W (.found now key value)).processed =
      if m.entry ∈ w.processed then w.processed else w.processed ++ [m.entry] := by
  simp only [MailWorld.after, hm, remember]

end

/-- A message with a nonce, or without. -/
def mailOf (nonce : Vector UInt8 16) : OfflineMsg where
  senderPeerId := "a"
  senderNick := "A"
  text := "hi"
  timestamp := 0
  ttl := none
  nonce

/-- Its record for the friend with the larger id. -/
def mailFor (m : OfflineMsg) : EncryptedPayload Key32 where
  ephemeralPubkey := plain32.publicKey (secretOf 5)
  nonce := Vector.replicate 12 0
  ciphertext := plain32.aeadSeal
    (plain32.diffieHellman (secretOf 5) (plain32.publicKey (secretOf 2))) (Vector.replicate 12 0)
    (offlineLayout.bytes m)

def mailEvent (m : OfflineMsg) : MailEvent :=
  .found 0 (getDhtMailboxKey wire32 "b") ((payloadLayout key32).bytes (mailFor m))

/-- A receiver without messages. -/
def mailStart32 : MailWorld Key32 where
  node := friendNode wire32.toDmWire "b" "a" (secretOf 2) (plain32.publicKey (secretOf 1))
  now := 0
  processed := []

def foundTwice (m : OfflineMsg) : MailWorld Key32 :=
  (mailStart32.after plain32 wire32 (mailEvent m)).after plain32 wire32 (mailEvent m)

theorem mailFor_read (nonce : Vector UInt8 16) (n : Node Key32) (hid : n.myPeerId = "b")
    (hsecret : n.offlineSecretBytes = secretOf 2) :
    offlineMsg plain32 wire32 n (getDhtMailboxKey wire32 "b")
      ((payloadLayout key32).bytes (mailFor (mailOf nonce))) = some (mailOf nonce) := by
  have hacc : plain32.accepts (offlineLayout.bytes (mailOf nonce)) = true := by
    rw [plain32_gcm.accepts_iff]
    simp only [offlineLayout, Layout.record_bytes, offlineFields, Equiv.coe_fn_mk,
      Layout.pair_length, Layout.string_length, mailOf, Layout.i64_length,
      Layout.option_length_none,
      Layout.array_u8_length]
    decide
  have henc : encryptForPeer plain32 (secretOf 5) (Vector.replicate 12 0)
      (plain32.publicKey n.offlineSecretBytes) (offlineLayout.bytes (mailOf nonce)) =
        .ok (mailFor (mailOf nonce)) := by
    rw [hsecret]
    exact encryptForPeer_ok_iff.mpr ⟨hacc, rfl⟩
  have hread := offlineMsg_sealed (W := wire32) plain32_lawful plain32_gcm henc
  rw [hid] at hread
  exact hread

/-- What two records of one message leave, if it is recognised the second time or not. -/
theorem foundTwice_messages (nonce : Vector UInt8 16)
    (hfirst : alreadyThere [] (mailOf nonce) = false) :
    (foundTwice (mailOf nonce)).node.conn.privateMessages =
      [(mailOf nonce).row] ++
        if alreadyThere [(mailOf nonce).row] (mailOf nonce) then [] else [(mailOf nonce).row] := by
  have hone := after_found_messages (w := mailStart32) (l := []) 0
    (mailFor_read nonce mailStart32.node rfl rfl) rfl (fun _ hr => absurd hr List.not_mem_nil)
  rw [hfirst] at hone
  refine after_found_messages 0 (mailFor_read nonce _ rfl rfl) hone fun r hr => ?_
  rw [List.mem_singleton.mp hr]
  exact ⟨rfl, rfl⟩

theorem foundTwice_processed (nonce : Vector UInt8 16) :
    (foundTwice (mailOf nonce)).processed = [(mailOf nonce).entry] := by
  have hone := after_found_processed (w := mailStart32) 0
    (mailFor_read nonce mailStart32.node rfl rfl)
  rw [foundTwice, mailEvent, after_found_processed 0 (mailFor_read nonce _ rfl rfl), hone,
    if_neg (show (mailOf nonce).entry ∉ mailStart32.processed from List.not_mem_nil)]
  exact if_pos (List.mem_singleton_self _)

theorem foundTwice_reach (cond : MailWorld Key32 → MailEvent → Prop) (m : OfflineMsg)
    (hfirst : cond mailStart32 (mailEvent m))
    (hagain : cond (mailStart32.after plain32 wire32 (mailEvent m)) (mailEvent m)) :
    Reach (fun w => w = mailStart32) (Guarded cond (MailStep plain32 wire32)) (foundTwice m) :=
  .step _ (mailEvent m) _ (.step _ (mailEvent m) _ (.start _ rfl)
    ⟨hfirst, Int64.le_refl 0, rfl⟩) ⟨hagain, Int64.le_refl 0, rfl⟩

theorem mailStart32_start : MailStart mailStart32 := fun _ hm => (by cases hm)

/-- A legacy record that is found twice. -/
theorem saved_once_legacy :
    SavedOnce mailStart32 (foundTwice (mailOf (Vector.replicate 16 0))) ∧
      (foundTwice (mailOf (Vector.replicate 16 0))).node.conn.privateMessages =
        [(mailOf (Vector.replicate 16 0)).row] := by
  refine ⟨saved_once mailStart32_start (foundTwice_reach _ _ ?_ ?_), ?_⟩
  · intro m hm _
    rw [mailFor_read _ mailStart32.node rfl rfl] at hm
    obtain rfl := Option.some.inj hm
    refine ⟨fun hin => absurd hin List.not_mem_nil, fun _ => ?_⟩
    rw [(recognised_eq (l := []) 0 rfl fun _ hr => absurd hr List.not_mem_nil).2]
    decide
  · intro m hm _
    rw [mailFor_read _ _ rfl rfl] at hm
    obtain rfl := Option.some.inj hm
    refine ⟨fun _ => .inl rfl, fun hnew => absurd ?_ hnew⟩
    rw [mailEvent, after_found_processed 0 (mailFor_read _ mailStart32.node rfl rfl),
      if_neg (show _ ∉ mailStart32.processed from List.not_mem_nil)]
    exact List.mem_singleton_self _
  · rw [foundTwice_messages _ (by decide),
      if_pos (show alreadyThere [(mailOf (Vector.replicate 16 0)).row] _ = true by decide)]
    rfl

/-- **A record that is found twice is saved twice**: its nonce is not in the text it is looked for
    in. -/
theorem saved_twice : MailStart mailStart32 ∧
    Reach (fun w => w = mailStart32) (MailStep plain32 wire32)
      (foundTwice (mailOf (offlineNonce 0 1))) ∧
    (foundTwice (mailOf (offlineNonce 0 1))).node.conn.privateMessages =
      [(mailOf (offlineNonce 0 1)).row, (mailOf (offlineNonce 0 1)).row] ∧
    ¬ SavedOnce mailStart32 (foundTwice (mailOf (offlineNonce 0 1))) := by
  have hnonce : offlineNonce 0 1 ≠ Vector.replicate 16 0 := by decide
  have hagain :
      alreadyThere [(mailOf (offlineNonce 0 1)).row] (mailOf (offlineNonce 0 1)) = false := by
    decide
  have hrows := foundTwice_messages (offlineNonce 0 1) (by decide)
  rw [hagain] at hrows
  have hreach := (foundTwice_reach (fun _ _ => True) (mailOf (offlineNonce 0 1))
    trivial trivial).mono (fun _ h => h) fun _ _ _ h => h.2
  refine ⟨mailStart32_start, hreach, hrows, fun h => ?_⟩
  obtain ⟨new, hprocessed, -, -, hcount⟩ := h
  rw [foundTwice_processed] at hprocessed
  obtain rfl : [(mailOf (offlineNonce 0 1)).entry] = new := hprocessed
  have htwo := hcount (mailOf (offlineNonce 0 1)).row rfl
  rw [hrows] at htwo
  exact absurd htwo (by decide)

/-! ## 7. Several messages -/

/-- A direct message that is sent to the peer: the sender at that time and its command. -/
structure MailSend (Key : Type) where
  faults : Faults
  sender : Node Key
  args : SendArgs Key
  draw : MailDraw Key

/-- Its message. -/
def MailSend.msg (s : MailSend Key) : OfflineMsg where
  senderPeerId := s.sender.myPeerId
  senderNick := s.args.senderNick
  text := s.args.text
  timestamp := s.args.timestamp
  ttl := s.args.ttl
  nonce := offlineNonce s.args.timestamp s.draw.hash

def MailSend.expires (s : MailSend Key) : Int := s.draw.nowMs + recordLifetimeMs

def MailSend.record (P : Primitives Key) (W : NetWire Key) (peerId : String) (s : MailSend Key) :
    Option (OfflineMsg × MailRecord) :=
  offlineRecord P W s.faults s.sender peerId s.args s.draw

/-- `put_record`, where there is a record. -/
def putRecord (P : Primitives Key) (W : NetWire Key) (peerId : String)
    (dht : Table Bytes MailRecord) (s : MailSend Key) : Table Bytes MailRecord :=
  match s.record P W peerId with
  | none => dht
  | some (_, r) => dht.insert r.key r

/-- What the peer obtains from its mailbox. -/
def obtained (P : Primitives Key) (W : NetWire Key) (n : Node Key) (nowMs : Int)
    (dht : Table Bytes MailRecord) : Option OfflineMsg :=
  match dht.lookup (getDhtMailboxKey W n.myPeerId) with
  | none => none
  | some r => if nowMs < r.expires then offlineMsg P W n r.key r.value else none

/-- **The property**: the peer obtains every message whose record has not expired. -/
def ObtainsAll (P : Primitives Key) (W : NetWire Key) (n : Node Key) (nowMs : Int)
    (dht : Table Bytes MailRecord) (sends : List (MailSend Key)) : Prop :=
  ∀ s ∈ sends, (s.record P W n.myPeerId).isSome = true → nowMs < s.expires →
    obtained P W n nowMs (sends.foldl (putRecord P W n.myPeerId) dht) = some s.msg

/-- The message that is put last. -/
def lastPut (P : Primitives Key) (W : NetWire Key) (peerId : String) (sends : List (MailSend Key)) :
    Option (MailSend Key) :=
  (sends.filter fun s => (s.record P W peerId).isSome).getLast?

section

variable {P : Primitives Key} {W : NetWire Key} {n : Node Key} {peerId : String}

/-- **What a record holds**: its message, sealed with a key that the sender has for the peer. -/
theorem offlineRecord_some {f : Faults} {n : Node Key} {a : SendArgs Key} {d : MailDraw Key}
    {m : OfflineMsg} {r : MailRecord} (h : offlineRecord P W f n peerId a d = some (m, r)) :
    ∃ pk encrypted, FriendKey W.toDmWire n.conn peerId pk ∧
      encryptForPeer P d.ephemeral d.nonce pk (offlineLayout.bytes m) = .ok encrypted ∧
      m = MailSend.msg ⟨f, n, a, d⟩ ∧
      r = ⟨getDhtMailboxKey W peerId, (payloadLayout W.key).bytes encrypted,
        d.nowMs + recordLifetimeMs⟩ := by
  have hsame := (getPeerSettings_untouched f n.conn peerId).trans
    (saveSent_untouched f _ peerId a.text a.timestamp a.ttl)
  unfold offlineRecord at h
  generalize getPeerSettings f n.conn peerId = peer at h hsame
  obtain ⟨settings, conn⟩ := peer
  simp only at h hsame
  split at h
  · cases h
  · split at h
    · cases h
    · split at h
      · cases h
      · next friend hfind =>
        split at h
        · cases h
        · next hopen =>
          split at h
          · cases h
          · next pk hpk =>
            split at h
            · cases h
            · next encrypted henc =>
              have hlookup := getFriends_lookup hfind
              rw [hsame.friends] at hlookup
              injection h with h
              injection h with hm hr
              refine ⟨pk, encrypted, ⟨friend, hlookup, by simpa using hopen, hpk⟩, ?_, hm.symm,
                hr.symm⟩
              rw [← hm]
              exact henc

/-- A message to a friend has a record, if the settings allow it. -/
theorem offlineRecord_puts {f : Faults} {n : Node Key} {a : SendArgs Key}
    {d : MailDraw Key} {pk : Key} {encrypted : EncryptedPayload Key}
    (hi : f .insertPeerSettings = none) (hs : f .selectPeerSettings = none)
    (hg : f .getFriends = none) (hblocked : (n.conn.settingsOf peerId).blocked = false)
    (htrust : n.minTrustDm ≤ (n.conn.settingsOf peerId).trustLevel)
    (hfriend : FriendKey W.toDmWire n.conn peerId pk)
    (henc : encryptForPeer P d.ephemeral d.nonce pk
      (offlineLayout.bytes (MailSend.msg ⟨f, n, a, d⟩)) = .ok encrypted) :
    offlineRecord P W f n peerId a d = some (MailSend.msg ⟨f, n, a, d⟩,
      ⟨getDhtMailboxKey W peerId, (payloadLayout W.key).bytes encrypted,
        d.nowMs + recordLifetimeMs⟩) := by
  obtain ⟨hsettings, friend, hfind, hopen, hpk⟩ :=
    asked_of_friend hi hs hg hfriend a.text a.timestamp a.ttl
  unfold MailSend.msg at henc ⊢
  unfold offlineRecord
  generalize getPeerSettings f n.conn peerId = peer at hsettings hfind
  obtain ⟨settings, conn⟩ := peer
  simp only at hsettings hfind henc ⊢
  have hlow : ¬ (n.conn.settingsOf peerId).trustLevel < n.minTrustDm := Int64.not_lt.mpr htrust
  simp only [hsettings, Option.map_some, Option.getD_some, hblocked, hlow, hfind, hopen, hpk, henc,
    Bool.false_eq_true, if_false]

/-- Of the messages sent, the one that was put last is under the peer's key. -/
theorem lookup_puts (dht : Table Bytes MailRecord) (sends : List (MailSend Key)) :
    (sends.foldl (putRecord P W peerId) dht).lookup (getDhtMailboxKey W peerId) =
      match lastPut P W peerId sends with
      | none => dht.lookup (getDhtMailboxKey W peerId)
      | some s => (s.record P W peerId).map Prod.snd := by
  -- from the end: the last of the sends has put a record, or it changes nothing
  induction sends using List.reverseRecOn with
  | nil => rfl
  | append_singleton sends s ih =>
    rw [List.foldl_concat]
    unfold lastPut at ih ⊢
    rw [List.filter_append]
    cases hs : s.record P W peerId with
    | none =>
      rw [putRecord, hs, List.filter_cons_of_neg (by simp [hs]), List.filter_nil, List.append_nil]
      exact ih
    | some q =>
      obtain ⟨m, r⟩ := q
      obtain ⟨pk, encrypted, -, -, -, hr⟩ := offlineRecord_some hs
      rw [putRecord, hs, List.filter_cons_of_pos (by simp [hs]), List.filter_nil,
        List.getLast?_append]
      have hkey : r.key = getDhtMailboxKey W peerId := by rw [hr]
      simp only [hkey, AList.lookup_insert, List.getLast?_singleton, Option.some_or, hs,
        Option.map_some]

/-- **Only the message that was put last is obtained.** -/
theorem obtained_puts (hP : P.Lawful) (hgcm : P.Gcm) {nowMs : Int} {dht : Table Bytes MailRecord}
    {sends : List (MailSend Key)} {s : MailSend Key}
    (hkey : ∀ s ∈ sends, ∀ pk, FriendKey W.toDmWire s.sender.conn n.myPeerId pk →
      pk = P.publicKey n.offlineSecretBytes)
    (hlast : lastPut P W n.myPeerId sends = some s) :
    obtained P W n nowMs (sends.foldl (putRecord P W n.myPeerId) dht) =
      if nowMs < s.expires then some s.msg else none := by
  have hmem := List.mem_filter.mp (List.mem_of_getLast? hlast)
  obtain ⟨⟨m, r⟩, hrecord⟩ := Option.isSome_iff_exists.mp hmem.2
  obtain ⟨pk, encrypted, hfriend, henc, rfl, rfl⟩ := offlineRecord_some hrecord
  obtain rfl := hkey s hmem.1 pk hfriend
  unfold obtained
  rw [lookup_puts, hlast]
  simp only [hrecord, Option.map_some]
  rw [offlineMsg_sealed hP hgcm henc]
  rfl

/-- **A mailbox holds one message.** Where senders have the right key, the peer obtains every
    message that has not expired exactly where each of them is the one that was put last, and that
    has not expired. -/
theorem mailbox_reads_iff (hP : P.Lawful) (hgcm : P.Gcm) (nowMs : Int)
    (dht : Table Bytes MailRecord) {sends : List (MailSend Key)}
    (hkey : ∀ s ∈ sends, ∀ pk, FriendKey W.toDmWire s.sender.conn n.myPeerId pk →
      pk = P.publicKey n.offlineSecretBytes) :
    ObtainsAll P W n nowMs dht sends ↔
      ∀ s ∈ sends, (s.record P W n.myPeerId).isSome = true → nowMs < s.expires →
        ∃ last, lastPut P W n.myPeerId sends = some last ∧ nowMs < last.expires ∧
          last.msg = s.msg := by
  constructor
  · intro h s hs hput hfresh
    have hmem : s ∈ sends.filter fun s => (s.record P W n.myPeerId).isSome :=
      List.mem_filter.mpr ⟨hs, hput⟩
    obtain ⟨last, hlast⟩ : ∃ last, lastPut P W n.myPeerId sends = some last :=
      Option.isSome_iff_exists.mp (by simpa [lastPut] using ⟨s, hs, hput⟩)
    have hread := h s hs hput hfresh
    rw [obtained_puts hP hgcm hkey hlast] at hread
    by_cases hlater : nowMs < last.expires
    · rw [if_pos hlater] at hread
      exact ⟨last, hlast, hlater, Option.some.inj hread⟩
    · rw [if_neg hlater] at hread
      cases hread
  · intro h s hs hput hfresh
    obtain ⟨last, hlast, hlater, hsame⟩ := h s hs hput hfresh
    rw [obtained_puts hP hgcm hkey hlast, if_pos hlater, hsame]

end

/-! ## 8. Two messages -/

/-- A friend of the peer sends a text. -/
def friendSends (W : NetWire Key) (me : String) (secret pk ephemeral : Key) (text : String)
    (nowMs : Int) : MailSend Key where
  faults := noFaults
  sender := friendNode W.toDmWire me "b" secret pk
  args := ⟨text, me, none, false, 0, ephemeral, Vector.replicate 12 0, fun _ => none⟩
  draw := ⟨ephemeral, Vector.replicate 12 0, 1, nowMs⟩

section

variable {P : Primitives Key} {W : NetWire Key} {me : String} {secret pk ephemeral : Key}
  {text : String} {nowMs : Int}

/-- It has a record, unless the message is too long for the cipher. -/
theorem friendSends_record
    (haccepts :
      P.accepts (offlineLayout.bytes (friendSends W me secret pk ephemeral text nowMs).msg) =
      true) :
    ((friendSends W me secret pk ephemeral text nowMs).record P W "b").isSome = true :=
  Option.isSome_iff_exists.mpr ⟨_, offlineRecord_puts (f := noFaults) rfl rfl rfl rfl
    (Int64.le_refl 0) (friendNode_friend W.toDmWire me "b" secret pk)
    (encryptForPeer_ok_iff.mpr ⟨haccepts, rfl⟩)⟩

theorem lastPut_one {s : MailSend Key} (h : (s.record P W "b").isSome = true) :
    lastPut P W "b" [s] = some s := by
  simp only [lastPut, List.filter_cons, h, if_true, List.filter_nil, List.getLast?_singleton]

theorem lastPut_two {s t : MailSend Key} (hs : (s.record P W "b").isSome = true)
    (ht : (t.record P W "b").isSome = true) : lastPut P W "b" [s, t] = some t := by
  simp only [lastPut, List.filter_cons, hs, ht, if_true, List.filter_nil, List.getLast?_cons_cons,
    List.getLast?_singleton]

end

/-- A message of one friend, and of another. -/
def firstSend : MailSend Key32 :=
  friendSends wire32 "a" (secretOf 1) (plain32.publicKey (secretOf 2)) (secretOf 5) "hi" 0

def secondSend : MailSend Key32 :=
  friendSends wire32 "c" (secretOf 3) (plain32.publicKey (secretOf 2)) (secretOf 6) "hello" 1

theorem friendSends_record_32 {me text : String} {secret ephemeral : Key32} {nowMs : Int}
    (hshort : 2 * (Codec.utf8.enc me).length + (Codec.utf8.enc text).length < 1000) :
    ((friendSends wire32 me secret (plain32.publicKey (secretOf 2)) ephemeral text nowMs).record
      plain32 wire32 "b").isSome = true := by
  refine friendSends_record ?_
  rw [plain32_gcm.accepts_iff]
  simp only [offlineLayout, Layout.record_bytes, offlineFields, Equiv.coe_fn_mk,
    Layout.pair_length, Layout.string_length, MailSend.msg, friendSends, friendNode,
    Layout.i64_length, Layout.option_length_none, Layout.array_u8_length]
  unfold maxPlaintext
  omega

theorem friendSends_key {me text : String} {secret ephemeral pk : Key32} {nowMs : Int}
    (h : FriendKey wire32.toDmWire
      (friendSends wire32 me secret (plain32.publicKey (secretOf 2)) ephemeral text
        nowMs).sender.conn
      mailStart32.node.myPeerId pk) : pk = plain32.publicKey mailStart32.node.offlineSecretBytes :=
  h.inj (friendNode_friend wire32.toDmWire me "b" secret (plain32.publicKey (secretOf 2)))

/-- One message is obtained. -/
theorem mailbox_reads_iff_one : ObtainsAll plain32 wire32 mailStart32.node 1 ∅ [firstSend] ∧
    (firstSend.record plain32 wire32 mailStart32.node.myPeerId).isSome = true := by
  have hput : (firstSend.record plain32 wire32 "b").isSome = true :=
    friendSends_record_32 (by decide)
  refine ⟨(mailbox_reads_iff plain32_lawful plain32_gcm 1 ∅ fun s hs pk hpk => ?_).mpr
    fun s hs _ hfresh => ?_, hput⟩
  · rw [List.mem_singleton.mp hs] at hpk
    exact friendSends_key hpk
  · rw [List.mem_singleton.mp hs] at hfresh ⊢
    exact ⟨firstSend, lastPut_one hput, hfresh, rfl⟩

/-- **The message of another friend takes its place.** Neither has expired, and one is not
    obtained. -/
theorem second_overwrites :
    (firstSend.record plain32 wire32 mailStart32.node.myPeerId).isSome = true ∧
    (secondSend.record plain32 wire32 mailStart32.node.myPeerId).isSome = true ∧
    (1 < firstSend.expires ∧ 1 < secondSend.expires) ∧
    (∀ s ∈ [firstSend, secondSend], ∀ pk,
      FriendKey wire32.toDmWire s.sender.conn mailStart32.node.myPeerId pk →
        pk = plain32.publicKey mailStart32.node.offlineSecretBytes) ∧
    ¬ ObtainsAll plain32 wire32 mailStart32.node 1 ∅ [firstSend, secondSend] := by
  have hfirst : (firstSend.record plain32 wire32 "b").isSome = true :=
    friendSends_record_32 (by decide)
  have hsecond : (secondSend.record plain32 wire32 "b").isSome = true :=
    friendSends_record_32 (by decide)
  have hkey : ∀ s ∈ [firstSend, secondSend], ∀ pk,
      FriendKey wire32.toDmWire s.sender.conn mailStart32.node.myPeerId pk →
        pk = plain32.publicKey mailStart32.node.offlineSecretBytes := by
    intro s hs pk hpk
    rcases List.mem_cons.mp hs with rfl | hs
    · exact friendSends_key hpk
    · rw [List.mem_singleton.mp hs] at hpk
      exact friendSends_key hpk
  have hlater : (1 : Int) < firstSend.expires ∧ (1 : Int) < secondSend.expires := by
    constructor <;> decide
  refine ⟨hfirst, hsecond, hlater, hkey, fun h => ?_⟩
  have hread := h firstSend (List.mem_cons_self ..) hfirst hlater.1
  rw [obtained_puts plain32_lawful plain32_gcm hkey (lastPut_two hfirst hsecond),
    if_pos hlater.2] at hread
  have hsender : "c" = "a" := congrArg OfflineMsg.senderPeerId (Option.some.inj hread)
  exact absurd hsender (by decide)

end AlterChat.Inbound
