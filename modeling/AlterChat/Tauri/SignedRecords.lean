import AlterChat.Lib.Arrivals
import AlterChat.Tauri.Authority
import AlterChat.Tauri.Invites

/-!
# Signed records and the order of their arrival

Trust edges and permission grants carry the time they were issued at, under the signature. The two
commands that take them verify the signature and upsert the record under its key.

* §1 the table `trust_edges` beside the profile database, and the command `save_trust_edge`;
* §2 what a sequence of saves leaves in the two tables (`runAll_edges`, `runAll_grants`);
* §3 `order_irrelevant_iff` -- two orders leave the same rows, the newest of each key, just when in
  both the newest of each key is the last that was stored.
-/

namespace AlterChat.SignedRecords

open Lib Governance Db Commands

variable {Keypair Pub : Type}

/-! ## 1. Trust edges -/

/-- A device, with the table `trust_edges` of its profile's file. -/
structure RecordDevice where
  device : Device
  trustEdges : Table (String × String) String

/-- The table in the database a command opens. -/
def RecordDevice.edges (d : RecordDevice) : Table (String × String) String :=
  if d.device.app.dbPath = some ":memory:" then ∅ else d.trustEdges

def RecordDevice.grants (d : RecordDevice) : Table (String × String × String) String :=
  if d.device.app.dbPath = some ":memory:" then ∅ else d.device.file.permissionGrants

/-- What a command's connection leaves behind. -/
def RecordDevice.close (d : RecordDevice) (trustEdges : Table (String × String) String) :
    RecordDevice :=
  if d.device.app.dbPath = some ":memory:" then d else { d with trustEdges }

/-- `db::save_trust_edge`, with the error of its statement where that fails. -/
def upsertTrustEdge (fault : Option String) (trustEdges : Table (String × String) String)
    (fromPeerId toPeerId edgeJson : String) :
    Except String Unit × Table (String × String) String :=
  match fault with
  | some e => (.error e, trustEdges)
  | none => (.ok (), trustEdges.upsert (fromPeerId, toPeerId) edgeJson fun _ => edgeJson)

/-- The command `save_trust_edge`. -/
def saveTrustEdge (S : Signatures Keypair Pub) (W : Wire) (J : Codec TrustEdge String) (f : Faults)
    (fault : Option String) (d : RecordDevice) (edge : TrustEdge) :
    Except String Unit × RecordDevice :=
  match d.device.initDb f with
  | .error e => (.error e, d)
  | .ok _ =>
    match verifyTrustEdge S W edge with
    | .error e => (.error e, d)
    | .ok () =>
      let (result, trustEdges) :=
        upsertTrustEdge fault d.edges edge.fromPeerId edge.toPeerId (J.enc edge)
      (result, d.close trustEdges)

/-! ## 2. Sequences of saves -/

/-- A record as it is handed to its command. -/
inductive Received where
  | trustEdge (f : Faults) (fault : Option String) (edge : TrustEdge)
  | permissionGrant (f : Faults) (grant : PermissionGrant)

def Received.run (S : Signatures Keypair Pub) (W : Wire) (J : Codec TrustEdge String)
    (d : RecordDevice) : Received → RecordDevice
  | .trustEdge f fault edge => (saveTrustEdge S W J f fault d edge).2
  | .permissionGrant f grant =>
    { d with device := (Commands.savePermissionGrant S W f d.device grant).2 }

def runAll (S : Signatures Keypair Pub) (W : Wire) (J : Codec TrustEdge String) (d : RecordDevice)
    (received : List Received) : RecordDevice :=
  received.foldl (fun d r => r.run S W J d) d

def edgeKey (edge : TrustEdge) : String × String := (edge.fromPeerId, edge.toPeerId)

def grantKey (grant : PermissionGrant) : String × String × String :=
  (grant.roomId, grant.subjectPeerId, grant.roleId)

/-- Somebody is logged in to a profile on disk, and its database opens. -/
def keeps (app : AppState) (f : Faults) : Bool :=
  (f .initDb).isNone && app.dbKey.isSome && app.dbPath.isSome &&
    decide (app.dbPath ≠ some ":memory:")

/-- The trust edge of a save that takes effect if its signature is valid. -/
def Received.edge? (app : AppState) : Received → Option TrustEdge
  | .trustEdge f fault edge => if keeps app f && fault.isNone then some edge else none
  | .permissionGrant .. => none

def Received.grant? (app : AppState) : Received → Option PermissionGrant
  | .permissionGrant f grant =>
    if keeps app f && (f .savePermissionGrant).isNone then some grant else none
  | .trustEdge .. => none

/-- The records of a sequence that are stored. -/
def storedEdges (app : AppState) (received : List Received) : List TrustEdge :=
  received.filterMap (Received.edge? app)

def storedGrants (app : AppState) (received : List Received) : List PermissionGrant :=
  received.filterMap (Received.grant? app)

/-- The record is signed by the peer it names. -/
def Received.Valid (S : Signatures Keypair Pub) (W : Wire) : Received → Prop
  | .trustEdge _ _ edge => verifyTrustEdge S W edge = .ok ()
  | .permissionGrant _ grant => verifyPermissionGrant S W grant = .ok ()

/-- What a save can do: the two tables, and who is logged in. -/
structure Step (W : Wire) (J : Codec TrustEdge String) (r : Received) (d d' : RecordDevice) :
    Prop where
  app : d'.device.app = d.device.app
  edges : d'.edges = saveAll edgeKey J.enc d.edges (r.edge? d.device.app).toList
  grants : d'.grants = saveAll grantKey W.grantJson.enc d.grants (r.grant? d.device.app).toList

theorem Step.refl {W : Wire} {J : Codec TrustEdge String} {r : Received} {d : RecordDevice}
    (he : r.edge? d.device.app = none) (hg : r.grant? d.device.app = none) : Step W J r d d := by
  refine ⟨rfl, ?_, ?_⟩
  · rw [he]
    rfl
  · rw [hg]
    rfl

/-- A database that does not open is not kept. -/
theorem keeps_eq {d : Device} {f : Faults} :
    keeps d.app f = true ↔ (∃ db, d.initDb f = .ok db) ∧ d.OnDisk := by
  unfold keeps Device.initDb Device.OnDisk query
  cases d.app.dbPath with
  | none => simp
  | some path =>
    cases d.app.dbKey with
    | none => simp
    | some key => cases f .initDb <;> simp

variable {S : Signatures Keypair Pub} {W : Wire} {J : Codec TrustEdge String}

/-- What is not kept leaves the device as it was. -/
theorem close_of_not_keeps {d : RecordDevice} {f : Faults} {db : Database}
    (hk : keeps d.device.app f = false) (hdb : d.device.initDb f = .ok db) :
    (∀ t, d.close t = d) ∧ ∀ db', d.device.close db' = d.device := by
  have hmem : d.device.app.dbPath = some ":memory:" := by
    rw [← Bool.not_eq_true, keeps_eq] at hk
    by_contra hdisk
    exact hk ⟨⟨db, hdb⟩, hdisk⟩
  exact ⟨fun t => if_pos hmem, fun db' => if_pos hmem⟩

theorem saveTrustEdge_step {f : Faults} {fault : Option String} (d : RecordDevice)
    {edge : TrustEdge} (hvalid : verifyTrustEdge S W edge = .ok ()) :
    Step W J (.trustEdge f fault edge) d (saveTrustEdge S W J f fault d edge).2 := by
  unfold saveTrustEdge
  cases hk : keeps d.device.app f with
  | false =>
    have hnone : Received.edge? d.device.app (.trustEdge f fault edge) = none := by
      simp [Received.edge?, hk]
    cases hdb : d.device.initDb f with
    | error e => exact .refl hnone rfl
    | ok db =>
      simp only [hvalid]
      rw [(close_of_not_keeps hk hdb).1]
      exact .refl hnone rfl
  | true =>
    obtain ⟨⟨db, hdb⟩, hdisk⟩ := keeps_eq.mp hk
    have hmem : ¬ d.device.app.dbPath = some ":memory:" := hdisk
    simp only [hdb, hvalid]
    cases fault with
    | some e =>
      have hclose : d.close d.edges = d := by simp [RecordDevice.close, RecordDevice.edges, hmem]
      rw [upsertTrustEdge, hclose]
      exact .refl (by simp [Received.edge?]) rfl
    | none =>
      have hstored : Received.edge? d.device.app (.trustEdge f none edge) = some edge := by
        simp [Received.edge?, hk]
      refine ⟨?_, ?_, ?_⟩
      · rw [RecordDevice.close, if_neg hmem]
      · rw [hstored, RecordDevice.close, if_neg hmem]
        simp only [RecordDevice.edges, if_neg hmem]
        rfl
      · rw [RecordDevice.close, if_neg hmem]
        rfl

theorem savePermissionGrant_step {f : Faults} (d : RecordDevice) {grant : PermissionGrant}
    (hvalid : verifyPermissionGrant S W grant = .ok ()) :
    Step W J (.permissionGrant f grant) d
      { d with device := (Commands.savePermissionGrant S W f d.device grant).2 } := by
  unfold Commands.savePermissionGrant
  cases hk : keeps d.device.app f with
  | false =>
    have hnone : Received.grant? d.device.app (.permissionGrant f grant) = none := by
      simp [Received.grant?, hk]
    cases hdb : d.device.initDb f with
    | error e => exact .refl rfl hnone
    | ok db =>
      simp only [hvalid]
      rw [(close_of_not_keeps hk hdb).2]
      exact .refl rfl hnone
  | true =>
    obtain ⟨⟨db, hdb⟩, hdisk⟩ := keeps_eq.mp hk
    obtain rfl := initDb_onDisk hdb hdisk
    have hmem : ¬ d.device.app.dbPath = some ":memory:" := hdisk
    simp only [hdb, hvalid]
    rw [close_onDisk hdisk]
    refine ⟨rfl, by rfl, ?_⟩
    simp only [RecordDevice.grants, if_neg hmem]
    cases hf : f .savePermissionGrant with
    | some e =>
      have hnone : Received.grant? d.device.app (.permissionGrant f grant) = none := by
        simp [Received.grant?, hf]
      rw [hnone]
      simp [Db.savePermissionGrant, execute, hf, saveAll]
    | none =>
      have hstored : Received.grant? d.device.app (.permissionGrant f grant) = some grant := by
        simp [Received.grant?, hk, hf]
      rw [hstored]
      simp [Db.savePermissionGrant, execute, hf, saveAll, grantKey]

theorem Received.run_step {r : Received} (d : RecordDevice) (hvalid : r.Valid S W) :
    Step W J r d (r.run S W J d) := by
  cases r with
  | trustEdge f fault edge => exact saveTrustEdge_step d hvalid
  | permissionGrant f grant => exact savePermissionGrant_step d hvalid

theorem filterMap_cons_toList {α β : Type} (f : α → Option β) (a : α) (l : List α) :
    (a :: l).filterMap f = (f a).toList ++ l.filterMap f := by
  rw [List.filterMap_cons]
  cases f a <;> rfl

/-- **The two tables after a sequence of saves** of valid records. -/
theorem runAll_tables (d : RecordDevice) {received : List Received}
    (hvalid : ∀ r ∈ received, r.Valid S W) :
    (runAll S W J d received).edges =
        saveAll edgeKey J.enc d.edges (storedEdges d.device.app received) ∧
      (runAll S W J d received).grants =
        saveAll grantKey W.grantJson.enc d.grants (storedGrants d.device.app received) := by
  induction received generalizing d with
  | nil => exact ⟨rfl, rfl⟩
  | cons r rest ih =>
    have hstep := r.run_step (J := J) d (hvalid r List.mem_cons_self)
    obtain ⟨hedges, hgrants⟩ := ih (r.run S W J d) fun r hr => hvalid r (List.mem_cons_of_mem _ hr)
    rw [hstep.app] at hedges hgrants
    refine ⟨hedges.trans ?_, hgrants.trans ?_⟩
    · rw [hstep.edges, storedEdges, storedEdges, filterMap_cons_toList, saveAll_append]
    · rw [hstep.grants, storedGrants, storedGrants, filterMap_cons_toList, saveAll_append]

/-! ## 3. Two orders -/

def Received.anyEdge? : Received → Option TrustEdge
  | .trustEdge _ _ edge => some edge
  | .permissionGrant .. => none

def Received.anyGrant? : Received → Option PermissionGrant
  | .permissionGrant _ grant => some grant
  | .trustEdge .. => none

/-- The records of a sequence, each once or more often, in any order. -/
structure Receives (edges : List TrustEdge) (grants : List PermissionGrant)
    (received : List Received) : Prop where
  edges : ∀ e, e ∈ received.filterMap Received.anyEdge? ↔ e ∈ edges
  grants : ∀ g, g ∈ received.filterMap Received.anyGrant? ↔ g ∈ grants

/-- The time of issue. -/
def edgeStamp (edge : TrustEdge) : Int := edge.issuedAt.toInt

def grantStamp (grant : PermissionGrant) : Int := grant.issuedAt.toInt

/-- Two sequences leave the same two tables, with the newest record of each key. -/
structure OrderIrrelevant (S : Signatures Keypair Pub) (W : Wire) (J : Codec TrustEdge String)
    (d : RecordDevice) (edges : List TrustEdge) (grants : List PermissionGrant)
    (received₁ received₂ : List Received) : Prop where
  newestEdges : ∀ e, Newest edgeKey edgeStamp edges e →
    (runAll S W J d received₁).edges.lookup (edgeKey e) = some (J.enc e)
  newestGrants : ∀ g, Newest grantKey grantStamp grants g →
    (runAll S W J d received₁).grants.lookup (grantKey g) = some (W.grantJson.enc g)
  sameEdges : ∀ k, (runAll S W J d received₁).edges.lookup k =
    (runAll S W J d received₂).edges.lookup k
  sameGrants : ∀ k, (runAll S W J d received₁).grants.lookup k =
    (runAll S W J d received₂).grants.lookup k

/-- The last record of each key that is stored is the newest. -/
structure LastIsNewest (app : AppState) (edges : List TrustEdge) (grants : List PermissionGrant)
    (received : List Received) : Prop where
  edges : ∀ e, Newest edgeKey edgeStamp edges e →
    lastOf edgeKey (edgeKey e) (storedEdges app received) = some e
  grants : ∀ g, Newest grantKey grantStamp grants g →
    lastOf grantKey (grantKey g) (storedGrants app received) = some g

section

variable {edges : List TrustEdge} {grants : List PermissionGrant} {received : List Received}
  {app : AppState}

theorem Receives.storedEdges (h : Receives edges grants received) :
    ∀ e ∈ storedEdges app received, e ∈ edges := by
  intro e he
  obtain ⟨r, hr, hre⟩ := List.mem_filterMap.mp he
  refine (h.edges e).mp (List.mem_filterMap.mpr ⟨r, hr, ?_⟩)
  cases r with
  | trustEdge f fault edge =>
    simp only [Received.edge?] at hre
    split_ifs at hre
    exact hre
  | permissionGrant f grant => cases hre

theorem Receives.storedGrants (h : Receives edges grants received) :
    ∀ g ∈ storedGrants app received, g ∈ grants := by
  intro g hg
  obtain ⟨r, hr, hrg⟩ := List.mem_filterMap.mp hg
  refine (h.grants g).mp (List.mem_filterMap.mpr ⟨r, hr, ?_⟩)
  cases r with
  | trustEdge f fault edge => cases hrg
  | permissionGrant f grant =>
    simp only [Received.grant?] at hrg
    split_ifs at hrg
    exact hrg

theorem Receives.valid (h : Receives edges grants received)
    (hedges : ∀ e ∈ edges, verifyTrustEdge S W e = .ok ())
    (hgrants : ∀ g ∈ grants, verifyPermissionGrant S W g = .ok ()) :
    ∀ r ∈ received, r.Valid S W := by
  intro r hr
  cases r with
  | trustEdge f fault edge =>
    exact hedges edge ((h.edges edge).mp (List.mem_filterMap.mpr ⟨_, hr, rfl⟩))
  | permissionGrant f grant =>
    exact hgrants grant ((h.grants grant).mp (List.mem_filterMap.mpr ⟨_, hr, rfl⟩))

end

/-- **Two orders leave the same rows, the newest of each key, just when** in both of them the newest
record of each key is the last one that was stored. -/
theorem order_irrelevant_iff (d : RecordDevice) {edges : List TrustEdge}
    {grants : List PermissionGrant} {received₁ received₂ : List Received}
    (hedges : ∀ e ∈ edges, verifyTrustEdge S W e = .ok ())
    (hgrants : ∀ g ∈ grants, verifyPermissionGrant S W g = .ok ())
    (hfreshEdges : ∀ e ∈ edges, d.edges.lookup (edgeKey e) = none)
    (hfreshGrants : ∀ g ∈ grants, d.grants.lookup (grantKey g) = none)
    (h₁ : Receives edges grants received₁) (h₂ : Receives edges grants received₂) :
    OrderIrrelevant S W J d edges grants received₁ received₂ ↔
      LastIsNewest d.device.app edges grants received₁ ∧
        LastIsNewest d.device.app edges grants received₂ := by
  obtain ⟨hedges₁, hgrants₁⟩ := runAll_tables (J := J) d (h₁.valid hedges hgrants)
  obtain ⟨hedges₂, hgrants₂⟩ := runAll_tables (J := J) d (h₂.valid hedges hgrants)
  have edgesIff := saveAll_newest_iff edgeStamp J.enc_injective hfreshEdges
  have grantsIff := saveAll_newest_iff grantStamp W.grantJson.enc_injective hfreshGrants
  constructor
  · intro h
    refine ⟨⟨?_, ?_⟩, ⟨?_, ?_⟩⟩
    · refine (edgesIff _).mp fun e he => ?_
      rw [← hedges₁]
      exact h.newestEdges e he
    · refine (grantsIff _).mp fun g hg => ?_
      rw [← hgrants₁]
      exact h.newestGrants g hg
    · refine (edgesIff _).mp fun e he => ?_
      rw [← hedges₂, ← h.sameEdges]
      exact h.newestEdges e he
    · refine (grantsIff _).mp fun g hg => ?_
      rw [← hgrants₂, ← h.sameGrants]
      exact h.newestGrants g hg
  · intro h
    obtain ⟨hlast₁, hlast₂⟩ := h
    refine ⟨?_, ?_, ?_, ?_⟩
    · rw [hedges₁]
      exact (edgesIff _).mpr hlast₁.edges
    · rw [hgrants₁]
      exact (grantsIff _).mpr hlast₁.grants
    · intro k
      rw [hedges₁, hedges₂]
      exact saveAll_same h₁.storedEdges h₂.storedEdges hlast₁.edges hlast₂.edges k
    · intro k
      rw [hgrants₁, hgrants₂]
      exact saveAll_same h₁.storedGrants h₂.storedGrants hlast₁.grants hlast₂.grants k

/-- A profile on disk with nothing stored, somebody logged in. -/
def emptyProfile : RecordDevice where
  device :=
    { app := { dbPath := some "alterchat.db", dbKey := some "key", keyPath := some "keypair.bin" }
      file := .empty
      conn := .file }
  trustEdges := ∅

/-- Peer 0's grant to itself, issued at some time. -/
def unsigned (t : Int64) : PermissionGrant :=
  { selfGrant Signatures.tagged 0 "room" [] with issuedAt := t }

def grantAt (t : Int64) : PermissionGrant :=
  { unsigned t with signature := Signatures.tag 0 (grantSigningBytes .numbered (unsigned t)) }

def saved (t : Int64) : Received := .permissionGrant noFaults (grantAt t)

theorem grantAt_valid (t : Int64) :
    verifyPermissionGrant Signatures.tagged .numbered (grantAt t) = .ok () := by
  have hsign : Signatures.tagged.sign 0 (grantSigningBytes .numbered (unsigned t)) =
      .ok (grantAt t).signature := rfl
  exact verifySigned_of_sign Signatures.tagged_lawful hsign _ _

theorem newest_grantAt (g : PermissionGrant) :
    Newest grantKey grantStamp [grantAt 1, grantAt 2] g ↔ g = grantAt 2 := by
  constructor
  · intro h
    have hmem := h.mem
    simp only [List.mem_cons, List.not_mem_nil, or_false] at hmem
    rcases hmem with rfl | rfl
    · exact absurd (h.le (grantAt 2) (by simp) rfl) (by decide)
    · rfl
  · rintro rfl
    refine ⟨by simp, fun g hg _ => ?_⟩
    simp only [List.mem_cons, List.not_mem_nil, or_false] at hg
    rcases hg with rfl | rfl
    · decide
    · exact le_rfl

theorem last_grantAt (received : List Received) (t : Int64) :
    lastOf grantKey (grantKey (grantAt t))
        (storedGrants emptyProfile.device.app (received ++ [saved t])) = some (grantAt t) := by
  have hstored : storedGrants emptyProfile.device.app (received ++ [saved t]) =
      storedGrants emptyProfile.device.app received ++ [grantAt t] := by
    simp [storedGrants, saved, Received.grant?, keeps, emptyProfile, noFaults]
  rw [hstored, lastOf, List.filter_append, List.filter_cons, if_pos (decide_eq_true rfl),
    List.filter_nil, List.getLast?_append, List.getLast?_singleton, Option.some_or]

theorem newest_last (received : List Received) :
    LastIsNewest emptyProfile.device.app [] [grantAt 1, grantAt 2] (received ++ [saved 2]) := by
  refine ⟨fun e he => absurd he.mem List.not_mem_nil, fun g hg => ?_⟩
  rw [(newest_grantAt g).mp hg]
  exact last_grantAt received 2

theorem receives_saved {received : List Received}
    (hedges : received.filterMap Received.anyEdge? = [])
    (hgrants : ∀ g, g ∈ received.filterMap Received.anyGrant? ↔ g = grantAt 1 ∨ g = grantAt 2) :
    Receives [] [grantAt 1, grantAt 2] received := by
  refine ⟨fun e => by rw [hedges], fun g => (hgrants g).trans ?_⟩
  simp only [List.mem_cons, List.not_mem_nil, or_false]

/-- The older grant arrives once, or again between two arrivals of the newer one. -/
theorem newer_grant_last :
    OrderIrrelevant Signatures.tagged .numbered (.textOfEncodable _) emptyProfile []
      [grantAt 1, grantAt 2] [saved 1, saved 2] [saved 2, saved 1, saved 2] :=
  (order_irrelevant_iff emptyProfile (fun e he => absurd he List.not_mem_nil)
    (fun g hg => by
      simp only [List.mem_cons, List.not_mem_nil, or_false] at hg
      rcases hg with rfl | rfl
      · exact grantAt_valid 1
      · exact grantAt_valid 2)
    (fun e he => absurd he List.not_mem_nil) (fun g hg => rfl)
    (receives_saved rfl fun g => by simp [saved, Received.anyGrant?])
    (receives_saved rfl fun g => by simp [saved, Received.anyGrant?]; tauto)).mpr
    ⟨newest_last [saved 1], newest_last [saved 2, saved 1]⟩

/-- **A replayed grant undoes a newer one.** -/
theorem older_grant_replayed :
    (verifyPermissionGrant Signatures.tagged .numbered (grantAt 1) = .ok () ∧
      verifyPermissionGrant Signatures.tagged .numbered (grantAt 2) = .ok ()) ∧
    Receives [] [grantAt 1, grantAt 2] [saved 1, saved 2] ∧
    Receives [] [grantAt 1, grantAt 2] [saved 1, saved 2, saved 1] ∧
    ¬ OrderIrrelevant Signatures.tagged .numbered (.textOfEncodable _) emptyProfile []
      [grantAt 1, grantAt 2] [saved 1, saved 2] [saved 1, saved 2, saved 1] := by
  have h₁ : Receives [] [grantAt 1, grantAt 2] [saved 1, saved 2] :=
    receives_saved rfl fun g => by simp [saved, Received.anyGrant?]
  have h₂ : Receives [] [grantAt 1, grantAt 2] [saved 1, saved 2, saved 1] :=
    receives_saved rfl fun g => by simp [saved, Received.anyGrant?]; tauto
  refine ⟨⟨grantAt_valid 1, grantAt_valid 2⟩, h₁, h₂, fun h => ?_⟩
  have hvalid : ∀ r ∈ [saved 1, saved 2, saved 1], r.Valid Signatures.tagged .numbered := by
    intro r hr
    simp only [List.mem_cons, List.not_mem_nil, or_false] at hr
    rcases hr with rfl | rfl | rfl
    · exact grantAt_valid 1
    · exact grantAt_valid 2
    · exact grantAt_valid 1
  -- the row of the key is the newer grant after the first order, the older one after the second
  have hnew := h.newestGrants (grantAt 2) ((newest_grantAt _).mpr rfl)
  rw [h.sameGrants, (runAll_tables emptyProfile hvalid).2, lookup_saveAll] at hnew
  have hlast := last_grantAt [saved 1, saved 2] 1
  have hkey : grantKey (grantAt 2) = grantKey (grantAt 1) := rfl
  have hlist : [saved 1, saved 2] ++ [saved 1] = [saved 1, saved 2, saved 1] := rfl
  rw [hlist] at hlast
  rw [hkey, hlast, Option.map_some, Option.some_or, Option.some.injEq, Codec.enc_inj] at hnew
  exact absurd (congrArg grantStamp hnew) (by decide)

end AlterChat.SignedRecords
