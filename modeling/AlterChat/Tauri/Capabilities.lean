import AlterChat.Lib.Run
import AlterChat.Tauri.OnionDelivery

/-!
# What peers announce of their capacity

The arm `CapabilityAnnouncement` of the request handler, with the table `peer_capabilities` it
writes. The row goes under the peer id in the announcement; the peer at the other end of the
connection is only looked at by the gate.

* §1 the table, §2 a request that arrives;
* §3 `own_rows_iff` -- in a run, each row is changed by its own peer alone just when every
  announcement that is saved names its sender; `silent_row` -- in such a run a peer that sends
  nothing keeps its row;
* §4 an announcement in another's name.
-/

namespace AlterChat.Capabilities

open Lib Db Requests Inbound

variable {Key : Type}

/-! ## 1. The table -/

/-- A row of `peer_capabilities`. -/
structure PeerCapability where
  storageNode : Bool
  relayNode : Bool
  dhtServer : Bool
  mediaRelay : Bool
  capacityScore : UInt32
  protocolVersionsJson : String
  updatedAt : Int64
  deriving DecidableEq

/-- `save_capability`, with the error of its statement where that fails. -/
def saveCapability (J : Codec (List String) String) (fault : Option String)
    (capabilities : Table String PeerCapability) (nowMs : Int64) (peerId : String)
    (storageNode relayNode dhtServer mediaRelay : Bool) (capacityScore : UInt32)
    (protocolVersions : List String) : Except String Unit × Table String PeerCapability :=
  match fault with
  | some e => (.error e, capabilities)
  | none =>
    let row : PeerCapability :=
      { storageNode, relayNode, dhtServer, mediaRelay, capacityScore
        protocolVersionsJson := J.enc protocolVersions
        updatedAt := nowMs }
    (.ok (), capabilities.upsert peerId row fun _ => row)

/-! ## 2. A request -/

/-- The event loop with the table. -/
structure CapabilityLoop (Key : Type) where
  loop : EventLoop Key
  capabilities : Table String PeerCapability

/-- A request that arrives over the connection of a peer, with what the device does at that
    moment. -/
structure Arrival (Key : Type) where
  peer : String
  req : P2pRequest Key
  turn : Turn Key
  faults : Stage → Faults
  /-- The error of the statement in `save_capability`. -/
  saveFault : Option String
  /-- The clock in `save_capability`. -/
  savedMs : Int64

/-- What the arm does to the table: nothing else writes it. -/
def Arrival.save (J : Codec (List String) String) (a : Arrival Key)
    (capabilities : Table String PeerCapability) : Table String PeerCapability :=
  match a.req with
  | .capabilityAnnouncement peerId storageNode relayNode dhtServer mediaRelay capacityScore
      protocolVersions =>
    (saveCapability J a.saveFault capabilities a.savedMs peerId storageNode relayNode dhtServer
      mediaRelay capacityScore protocolVersions).2
  | _ => capabilities

/-- A request is handled. -/
def handle [DecidableEq Key] [Zero Key] (P : Primitives Key) (W : NetWire Key)
    (J : Codec (List String) String) (hashOf : Bytes → String) (s : CapabilityLoop Key)
    (a : Arrival Key) : CapabilityLoop Key where
  loop := (handleRequest P W hashOf a.faults s.loop a.turn a.peer a.req).1
  capabilities :=
    match (requestGate a.faults s.loop a.turn.nowMs a.peer).1 with
    | .admitted => a.save J s.capabilities
    | .refused | .rateLimited => s.capabilities

/-! ## 3. Whose row changes -/

def IsAnnouncement : P2pRequest Key → Prop
  | .capabilityAnnouncement .. => True
  | _ => False

/-- The row that is saved, under its key. -/
def Arrival.saved (J : Codec (List String) String) (l : EventLoop Key) (a : Arrival Key) :
    Option (String × PeerCapability) :=
  match (requestGate a.faults l a.turn.nowMs a.peer).1, a.saveFault, a.req with
  | .admitted, none, .capabilityAnnouncement peerId storageNode relayNode dhtServer mediaRelay
      capacityScore protocolVersions =>
    some (peerId,
      { storageNode, relayNode, dhtServer, mediaRelay, capacityScore
        protocolVersionsJson := J.enc protocolVersions
        updatedAt := a.savedMs })
  | _, _, _ => none

theorem saved_isAnnouncement {J : Codec (List String) String} {l : EventLoop Key} {a : Arrival Key}
    {saved : String × PeerCapability} (h : a.saved J l = some saved) : IsAnnouncement a.req := by
  unfold Arrival.saved at h
  split at h
  · next hreq =>
    rw [hreq]
    trivial
  · cases h

section

variable [DecidableEq Key] [Zero Key] (P : Primitives Key) (W : NetWire Key)
  (J : Codec (List String) String) (hashOf : Bytes → String)

/-- The rows that the step changes are the row of the peer at the other end, by its announcement. -/
def OwnRow (s : CapabilityLoop Key) (a : Arrival Key) : Prop :=
  ∀ id, (handle P W J hashOf s a).capabilities.lookup id ≠ s.capabilities.lookup id →
    a.peer = id ∧ IsAnnouncement a.req

/-- An announcement that is saved names its sender, or repeats the row that is there. -/
def NamesSender (s : CapabilityLoop Key) (a : Arrival Key) : Prop :=
  ∀ id row, a.saved J s.loop = some (id, row) →
    id = a.peer ∨ s.capabilities.lookup id = some row

/-- **What a request does to the table.** -/
theorem handle_lookup (s : CapabilityLoop Key) (a : Arrival Key) (id : String) :
    (handle P W J hashOf s a).capabilities.lookup id =
      (a.saved J s.loop).elim (s.capabilities.lookup id) fun saved =>
        if id = saved.1 then some saved.2 else s.capabilities.lookup id := by
  unfold handle Arrival.saved Arrival.save saveCapability
  cases (requestGate a.faults s.loop a.turn.nowMs a.peer).1 with
  | refused => rfl
  | rateLimited => rfl
  | admitted =>
    cases a.req with
    | capabilityAnnouncement peerId =>
      cases a.saveFault with
      | some e => rfl
      | none => exact Table.lookup_upsert_const _ _ _ _
    | _ => cases a.saveFault <;> rfl

theorem ownRow_iff (s : CapabilityLoop Key) (a : Arrival Key) :
    OwnRow P W J hashOf s a ↔ NamesSender J s a := by
  unfold OwnRow NamesSender
  simp only [handle_lookup]
  cases hsaved : a.saved J s.loop with
  | none => simp
  | some saved =>
    obtain ⟨id, row⟩ := saved
    have hann := saved_isAnnouncement hsaved
    simp only [Option.elim_some]
    constructor
    · intro h id' row' heq
      cases heq
      by_cases hrow : s.capabilities.lookup id = some row
      · exact .inr hrow
      · refine .inl (h id ?_).1.symm
        rw [if_pos rfl]
        exact Ne.symm hrow
    · intro h id' hne
      -- only the row under the announced id is another
      by_cases hid : id' = id
      · subst hid
        rw [if_pos rfl] at hne
        rcases h id' row rfl with hpeer | hrow
        · exact ⟨hpeer.symm, hann⟩
        · exact absurd hrow.symm hne
      · rw [if_neg hid] at hne
        exact absurd rfl hne

/-- **In a run of requests every row is inserted or changed by its own peer's announcement alone,
    just when** every announcement that is saved names its sender or repeats the row that is
    there. -/
theorem own_rows_iff (s : CapabilityLoop Key) (arrivals : List (Arrival Key)) :
    Along (handle P W J hashOf) (OwnRow P W J hashOf) s arrivals ↔
      Along (handle P W J hashOf) (NamesSender J) s arrivals :=
  Along.congr (ownRow_iff P W J hashOf) s arrivals

/-- **In such a run the others leave a peer's row as it is.** -/
theorem silent_row {s : CapabilityLoop Key} {arrivals : List (Arrival Key)}
    (h : Along (handle P W J hashOf) (NamesSender J) s arrivals) {id : String}
    (hsilent : ∀ a ∈ arrivals, a.peer ≠ id) :
    (arrivals.foldl (handle P W J hashOf) s).capabilities.lookup id = s.capabilities.lookup id := by
  refine Along.inv (I := fun s' => s'.capabilities.lookup id = s.capabilities.lookup id) h rfl ?_
  intro s' a ha hnames hrow
  by_contra hne
  rw [← hrow] at hne
  exact hsilent a ha ((ownRow_iff P W J hashOf s' a).mpr hnames id hne).1

end

/-! ## 4. In another's name -/

/-- A loop that everyone may contact, with no row yet. -/
def openLoop : CapabilityLoop Key32 where
  loop :=
    { node := { myPeerId := "p", offlineSecretBytes := Onion.secretOf 1, minTrustDm := 0,
                conn := .empty }
      unknownPeerPolicy := "allow"
      rateLimitPerMinute := 30
      rateBuckets _ := []
      powFailures _ := 0 }
  capabilities := ∅

/-- A peer announces a capacity for `bob`. -/
def announcesBob (peer : String) (capacityScore : UInt32) : Arrival Key32 where
  peer
  req := .capabilityAnnouncement "bob" true true true true capacityScore []
  turn := relayedTurn
  faults := allRead
  saveFault := none
  savedMs := 0

/-- A stand-in for JSON. -/
def versionsJson : Codec (List String) String := .textOfEncodable _

/-- The loop after some requests. -/
def afterAll (arrivals : List (Arrival Key32)) : CapabilityLoop Key32 :=
  arrivals.foldl (handle plain32 wire32 versionsJson noHash) openLoop

/-- **`bob` announces 90, and `mallory` says `bob` has nothing.** -/
theorem another_lowers_capacity :
    ((afterAll [announcesBob "bob" 90]).capabilities.lookup "bob").map
      (fun row => row.capacityScore) =
        some 90 ∧
      ((afterAll [announcesBob "bob" 90, announcesBob "mallory" 0]).capabilities.lookup "bob").map
          (fun row => row.capacityScore) = some 0 ∧
      ¬ Along (handle plain32 wire32 versionsJson noHash)
      (OwnRow plain32 wire32 versionsJson noHash)
        openLoop [announcesBob "bob" 90, announcesBob "mallory" 0] := by
  have hfirst : ((afterAll [announcesBob "bob" 90]).capabilities.lookup "bob").map
      (fun row => row.capacityScore) = some 90 := by decide
  have hsecond : ((afterAll [announcesBob "bob" 90, announcesBob "mallory" 0]).capabilities.lookup
      "bob").map (fun row => row.capacityScore) = some 0 := by decide
  refine ⟨hfirst, hsecond, ?_⟩
  intro h
  obtain ⟨-, hrow, -⟩ := h
  have hpeer := (hrow "bob" fun heq => ?_).1
  · exact absurd hpeer (by decide)
  · have hsame := congrArg (Option.map fun row => row.capacityScore) heq
    exact absurd (hsecond.symm.trans (hsame.trans hfirst)) (by decide)

end AlterChat.Capabilities
