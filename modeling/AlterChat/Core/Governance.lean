import AlterChat.Lib.Signatures
import Mathlib.Tactic.DeriveEncodable

/-!
# `governance.rs`: invites, roles, grants, revocations

The types and functions of `alterchat-core/src/governance.rs`. The crates it calls are parameters:
`Signatures` for the key pairs of `libp2p::identity`, `Wire` for `bincode`, `serde_json` and `sha2`.
The clock and the random nonce are arguments.

* §1 the types, §2 `Wire`, §3 what is signed, §4 creating, §5 verifying;
* §6 roles and `has_permission`; `hasPermission_iff` is the nested search as a statement.
-/

namespace AlterChat.Governance

open Lib

/-! ## 1. Types -/

inductive Permission where
  | Read
  | Write
  | Invite
  | SendFile
  | StartCall
  | ModerateLocal
  | ManageRoles
  deriving DecidableEq, Encodable

structure InviteToken where
  roomId : String
  roomPassword : Option String
  issuerPeerId : String
  issuerPublicKey : Bytes
  subjectPeerId : Option String
  expiresAt : Option Int64
  maxUses : Option UInt32
  capabilities : List Permission
  nonce : Vector UInt8 16
  signature : Bytes
  deriving DecidableEq, Encodable

structure Role where
  roomId : String
  roleId : String
  name : String
  permissions : List Permission
  deriving DecidableEq, Encodable

structure PermissionGrant where
  roomId : String
  subjectPeerId : String
  roleId : String
  issuerPeerId : String
  issuerPublicKey : Bytes
  issuedAt : Int64
  expiresAt : Option Int64
  signature : Bytes
  deriving DecidableEq, Encodable

structure TrustEdge where
  fromPeerId : String
  fromPublicKey : Bytes
  toPeerId : String
  score : Int32
  reason : String
  issuedAt : Int64
  signature : Bytes
  deriving DecidableEq, Encodable

structure RevocationAnnouncement where
  inviteId : String
  roomId : String
  revokedBy : String
  revokedAt : Int64
  signature : Bytes
  deriving DecidableEq, Encodable

def REVOCATION_TOPIC : String := "_alterchat_revocations"

/-! ## 2. Formats and hashes -/

/-- `bincode`, `serde_json` and `sha2`, as this code uses them. -/
structure Wire where
  /-- `bincode::serialize` on what is signed only; nothing reads it back. -/
  tokenBytes : InviteToken → Bytes
  grantBytes : PermissionGrant → Bytes
  edgeBytes : TrustEdge → Bytes
  announcementBytes : Codec RevocationAnnouncement Bytes
  tokenJson : Codec InviteToken String
  grantJson : Codec PermissionGrant String
  roleJson : Codec Role String
  idsJson : Codec (List String) String
  /-- What `serde_json` says about a text it cannot read. -/
  jsonError : String → String
  sha256 : Bytes → Bytes

/-- The formats that number every value. -/
def Wire.numbered : Wire where
  tokenBytes := (Codec.ofEncodable _).enc
  grantBytes := (Codec.ofEncodable _).enc
  edgeBytes := (Codec.ofEncodable _).enc
  announcementBytes := .ofEncodable _
  tokenJson := .textOfEncodable _
  grantJson := .textOfEncodable _
  roleJson := .textOfEncodable _
  idsJson := .textOfEncodable _
  jsonError _ := "expected value at line 1 column 1"
  sha256 b := b

variable {Keypair Pub : Type}

/-! ## 3. What is signed -/

/-- `invite_signing_bytes`. -/
def inviteSigningBytes (W : Wire) (token : InviteToken) : Bytes :=
  W.tokenBytes { token with signature := [] }

/-- `grant_signing_bytes`. -/
def grantSigningBytes (W : Wire) (grant : PermissionGrant) : Bytes :=
  W.grantBytes { grant with signature := [] }

/-- `trust_edge_signing_bytes`. -/
def trustEdgeSigningBytes (W : Wire) (edge : TrustEdge) : Bytes :=
  W.edgeBytes { edge with signature := [] }

/-- `revocation_signing_bytes`. -/
def revocationSigningBytes (W : Wire) (ann : RevocationAnnouncement) : Bytes :=
  W.announcementBytes.enc { ann with signature := [] }

/-- One hexadecimal digit. -/
def hexDigit (n : Nat) : Char :=
  if n < 10 then Char.ofNat (48 + n) else Char.ofNat (87 + n)

/-- `hex_string`: two digits a byte. -/
def hexString (bytes : Bytes) : String :=
  String.ofList (bytes.flatMap fun b => [hexDigit (b.toNat / 16), hexDigit (b.toNat % 16)])

/-- `invite_id`. -/
def inviteId (W : Wire) (token : InviteToken) : String :=
  hexString (W.sha256 (inviteSigningBytes W token ++ token.signature))

/-! ## 4. Creating -/

/-- `sign_bytes`. -/
def signBytes (S : Signatures Keypair Pub) (keypair : Keypair) (payload : Bytes) :
    Except String Bytes :=
  (S.sign keypair payload).mapError fun e => "sign failed: " ++ e

/-- `create_invite`. -/
def createInvite (S : Signatures Keypair Pub) (W : Wire) (keypair : Keypair) (roomId : String)
    (roomPassword subjectPeerId : Option String) (expiresAt : Option Int64)
    (maxUses : Option UInt32) (capabilities : List Permission) (randomNonce : Vector UInt8 16) :
    Except String InviteToken := do
  let token : InviteToken :=
    { roomId, roomPassword
      issuerPeerId := S.peerId (S.publicOf keypair)
      issuerPublicKey := S.encodePublic (S.publicOf keypair)
      subjectPeerId, expiresAt, maxUses, capabilities
      nonce := randomNonce
      signature := [] }
  let signature ← signBytes S keypair (inviteSigningBytes W token)
  return { token with signature }

/-- `create_permission_grant`. -/
def createPermissionGrant (S : Signatures Keypair Pub) (W : Wire) (keypair : Keypair)
    (roomId subjectPeerId roleId : String) (expiresAt : Option Int64) (nowMs : Int64) :
    Except String PermissionGrant := do
  let grant : PermissionGrant :=
    { roomId, subjectPeerId, roleId
      issuerPeerId := S.peerId (S.publicOf keypair)
      issuerPublicKey := S.encodePublic (S.publicOf keypair)
      issuedAt := nowMs
      expiresAt
      signature := [] }
  let signature ← signBytes S keypair (grantSigningBytes W grant)
  return { grant with signature }

/-- `i32::clamp` to the scores from -10 to 10. -/
def clampScore (score : Int32) : Int32 :=
  if score < -10 then -10 else if 10 < score then 10 else score

/-- `create_trust_edge`. -/
def createTrustEdge (S : Signatures Keypair Pub) (W : Wire) (keypair : Keypair) (toPeerId : String)
    (score : Int32) (reason : String) (nowMs : Int64) : Except String TrustEdge := do
  let edge : TrustEdge :=
    { fromPeerId := S.peerId (S.publicOf keypair)
      fromPublicKey := S.encodePublic (S.publicOf keypair)
      toPeerId
      score := clampScore score
      reason
      issuedAt := nowMs
      signature := [] }
  let signature ← signBytes S keypair (trustEdgeSigningBytes W edge)
  return { edge with signature }

/-- What `create_permission_grant` puts into a grant. -/
theorem createPermissionGrant_ok {S : Signatures Keypair Pub} {W : Wire} {keypair : Keypair}
    {roomId subjectPeerId roleId : String} {expiresAt : Option Int64} {nowMs : Int64}
    {grant : PermissionGrant}
    (h : createPermissionGrant S W keypair roomId subjectPeerId roleId expiresAt nowMs =
      .ok grant) :
    grant.roomId = roomId ∧ grant.subjectPeerId = subjectPeerId ∧ grant.roleId = roleId ∧
      grant.issuerPeerId = S.peerId (S.publicOf keypair) := by
  simp only [createPermissionGrant, signBytes] at h
  cases hs : S.sign keypair (grantSigningBytes W
    { roomId, subjectPeerId, roleId, issuerPeerId := S.peerId (S.publicOf keypair)
      issuerPublicKey := S.encodePublic (S.publicOf keypair), issuedAt := nowMs, expiresAt
      signature := [] }) with
  | error e =>
    rw [hs] at h
    cases h
  | ok s =>
    rw [hs] at h
    cases h
    exact ⟨rfl, rfl, rfl, rfl⟩

/-! ## 5. Verifying -/

/-- `is_invite_expired`. -/
def isInviteExpired (token : InviteToken) (nowMs : Int64) : Bool :=
  (token.expiresAt.map fun expires => decide (expires < nowMs)).getD false

/-- `decode_public_key`. -/
def decodePublicKey (S : Signatures Keypair Pub) (bytes : Bytes) : Except String Pub :=
  (S.decodePublic bytes).mapError fun e => "invalid public key: " ++ e

/-- What the `verify_…` functions share: the key decodes, it is the key of the peer named, and the
    signature is that peer's. -/
def verifySigned (S : Signatures Keypair Pub) (publicKey : Bytes) (peerId : String)
    (payload signature : Bytes) (mismatch rejected : String) : Except String Unit :=
  match decodePublicKey S publicKey with
  | .error e => .error e
  | .ok key =>
    if S.peerId key ≠ peerId then .error mismatch
    else if S.verify key payload signature = false then .error rejected
    else .ok ()

/-- `verify_invite`. -/
def verifyInvite (S : Signatures Keypair Pub) (W : Wire) (token : InviteToken) :
    Except String Unit :=
  verifySigned S token.issuerPublicKey token.issuerPeerId (inviteSigningBytes W token)
    token.signature "invite issuer public key does not match issuer peer id"
    "invite signature rejected"

/-- `verify_permission_grant`. -/
def verifyPermissionGrant (S : Signatures Keypair Pub) (W : Wire) (grant : PermissionGrant) :
    Except String Unit :=
  verifySigned S grant.issuerPublicKey grant.issuerPeerId (grantSigningBytes W grant)
    grant.signature "permission issuer public key does not match issuer peer id"
    "permission grant signature rejected"

/-- `verify_trust_edge`. -/
def verifyTrustEdge (S : Signatures Keypair Pub) (W : Wire) (edge : TrustEdge) :
    Except String Unit :=
  verifySigned S edge.fromPublicKey edge.fromPeerId (trustEdgeSigningBytes W edge)
    edge.signature "trust edge public key does not match source peer id"
    "trust edge signature rejected"

theorem verifySigned_ok_iff {S : Signatures Keypair Pub} {publicKey : Bytes} {peerId : String}
    {payload signature : Bytes} {mismatch rejected : String} :
    verifySigned S publicKey peerId payload signature mismatch rejected = .ok () ↔
      ∃ key, S.decodePublic publicKey = .ok key ∧ S.peerId key = peerId ∧
        S.verify key payload signature = true := by
  unfold verifySigned decodePublicKey
  cases S.decodePublic publicKey with
  | error e => simp [Except.mapError]
  | ok key =>
    simp only [Except.mapError, Except.ok.injEq, exists_eq_left']
    by_cases hp : S.peerId key = peerId
    · cases hv : S.verify key payload signature <;> simp [hp]
    · simp [hp]

/-- **What is signed with a key verifies under it**, under every name the key has. -/
theorem verifySigned_of_sign {S : Signatures Keypair Pub} (hS : S.Lawful) {keypair : Keypair}
    {payload signature : Bytes} (h : S.sign keypair payload = .ok signature)
    (mismatch rejected : String) :
    verifySigned S (S.encodePublic (S.publicOf keypair)) (S.peerId (S.publicOf keypair)) payload
      signature mismatch rejected = .ok () :=
  verifySigned_ok_iff.mpr ⟨_, hS.decode_encode _, rfl, hS.verify_sign _ _ _ h⟩

/-! ## 6. Roles and permissions -/

/-- `default_roles`. -/
def defaultRoles (roomId : String) : List Role :=
  [{ roomId, roleId := "owner", name := "Owner"
     permissions := [.Read, .Write, .Invite, .SendFile, .StartCall, .ModerateLocal, .ManageRoles] },
   { roomId, roleId := "member", name := "Member"
     permissions := [.Read, .Write, .Invite, .SendFile, .StartCall] },
   { roomId, roleId := "guest", name := "Guest", permissions := [.Read] }]

/-- Whether a grant is in force for a peer: the first part of the test in `has_permission`. -/
def PermissionGrant.holds (S : Signatures Keypair Pub) (W : Wire) (grant : PermissionGrant)
    (peerId : String) (nowMs : Int64) : Bool :=
  decide (grant.subjectPeerId = peerId) &&
    (verifyPermissionGrant S W grant).isOk &&
    (grant.expiresAt.map fun expires => decide (expires ≥ nowMs)).getD true

/-- Whether a role gives a permission to the holders of a grant. -/
def Role.gives (role : Role) (grant : PermissionGrant) (permission : Permission) : Bool :=
  decide (role.roomId = grant.roomId) && decide (role.roleId = grant.roleId) &&
    role.permissions.contains permission

/-- `has_permission`. -/
def hasPermission (S : Signatures Keypair Pub) (W : Wire) (grants : List PermissionGrant)
    (roles : List Role) (peerId : String) (permission : Permission) (nowMs : Int64) : Bool :=
  grants.any fun grant =>
    grant.holds S W peerId nowMs && roles.any fun role => role.gives grant permission

/-- **`has_permission` says**: some grant in force for the peer names a role that has the
    permission. -/
theorem hasPermission_iff {S : Signatures Keypair Pub} {W : Wire} {grants : List PermissionGrant}
    {roles : List Role} {peerId : String} {permission : Permission} {nowMs : Int64} :
    hasPermission S W grants roles peerId permission nowMs = true ↔
      ∃ grant ∈ grants, grant.holds S W peerId nowMs = true ∧
        ∃ role ∈ roles, role.gives grant permission = true := by
  simp [hasPermission, List.any_eq_true]

theorem PermissionGrant.holds_iff {S : Signatures Keypair Pub} {W : Wire} {grant : PermissionGrant}
    {peerId : String} {nowMs : Int64} : grant.holds S W peerId nowMs = true ↔
      grant.subjectPeerId = peerId ∧ verifyPermissionGrant S W grant = .ok () ∧
        ∀ expires, grant.expiresAt = some expires → nowMs ≤ expires := by
  unfold PermissionGrant.holds
  cases hv : verifyPermissionGrant S W grant <;> cases he : grant.expiresAt <;>
    simp [Except.isOk, Except.toBool]

end AlterChat.Governance
