import AlterChat.Core.Governance
import AlterChat.Lib.Bincode

/-!
# The bytes under a signature

`invite_signing_bytes`, `grant_signing_bytes` and `trust_edge_signing_bytes` are the `bincode` form
of the record with an empty signature. The formats are written out field by field, in the order of
the structs, so that the bytes of one artifact can be told from the bytes of any other.

* §1 the formats; `Wire.SpeaksBincode` -- the parameter of the model is this format;
* §2 `TamperEvident`, and from one format to one record;
* `artifacts_tamper_evident` -- invites, grants and trust edges.
-/

namespace AlterChat.Governance

open Lib

variable {Keypair Pub : Type}

/-! ## 1. Formats -/

/-- The variants in the order of the declaration. -/
def Permission.index : Permission → Nat
  | .Read => 0
  | .Write => 1
  | .Invite => 2
  | .SendFile => 3
  | .StartCall => 4
  | .ModerateLocal => 5
  | .ManageRoles => 6

def permissionFormat : Format Permission :=
  .variant Permission.index
    (fun p q h => by cases p <;> cases q <;> first | rfl | cases h)
    (fun p => by cases p <;> decide)

def inviteTokenFormat : Format InviteToken :=
  .record
    (.pair .string <| .pair (.option .string) <| .pair .string <| .pair (.seq .u8) <|
      .pair (.option .string) <| .pair (.option .i64) <| .pair (.option .u32) <|
      .pair (.seq permissionFormat) <| .pair (.array .u8 16) (.seq .u8))
    (fun t => (t.roomId, t.roomPassword, t.issuerPeerId, t.issuerPublicKey, t.subjectPeerId,
      t.expiresAt, t.maxUses, t.capabilities, t.nonce, t.signature))
    (fun t u h => by cases t; cases u; simpa using h)

def permissionGrantFormat : Format PermissionGrant :=
  .record
    (.pair .string <| .pair .string <| .pair .string <| .pair .string <| .pair (.seq .u8) <|
      .pair .i64 <| .pair (.option .i64) (.seq .u8))
    (fun g => (g.roomId, g.subjectPeerId, g.roleId, g.issuerPeerId, g.issuerPublicKey, g.issuedAt,
      g.expiresAt, g.signature))
    (fun g u h => by cases g; cases u; simpa using h)

def trustEdgeFormat : Format TrustEdge :=
  .record
    (.pair .string <| .pair (.seq .u8) <| .pair .string <| .pair .i32 <| .pair .string <|
      .pair .i64 (.seq .u8))
    (fun e => (e.fromPeerId, e.fromPublicKey, e.toPeerId, e.score, e.reason, e.issuedAt,
      e.signature))
    (fun e u h => by cases e; cases u; simpa using h)

/-- `bincode::serialize` writes these formats. -/
structure Wire.SpeaksBincode (W : Wire) : Prop where
  token : ∀ token, inviteTokenFormat.Fits token → W.tokenBytes token = inviteTokenFormat.bytes token
  grant : ∀ grant, permissionGrantFormat.Fits grant →
    W.grantBytes grant = permissionGrantFormat.bytes grant
  edge : ∀ edge, trustEdgeFormat.Fits edge → W.edgeBytes edge = trustEdgeFormat.bytes edge

/-- The numbered formats, with `bincode` for what is signed. -/
def Wire.bincode : Wire :=
  { Wire.numbered with
    tokenBytes := inviteTokenFormat.bytes
    grantBytes := permissionGrantFormat.bytes
    edgeBytes := trustEdgeFormat.bytes }

theorem Wire.bincode_speaks : Wire.bincode.SpeaksBincode :=
  ⟨fun _ _ => rfl, fun _ _ => rfl, fun _ _ => rfl⟩

/-- Without its signature a record fits as before. -/
theorem fits_unsigned : Format.Fits (.seq .u8) [] :=
  ⟨by simp [Format.length], nofun⟩

/-! ## 2. Tamper evidence -/

/-- **Tamper evident**: whatever else carries the signature of an accepted artifact is rejected, and
    an accepted artifact names the holder of the key inside it. -/
structure TamperEvident {α : Type} (S : Signatures Keypair Pub) (Fits : α → Prop)
    (verify : α → Except String Unit) (signature publicKey : α → Bytes) (issuer : α → String) :
    Prop where
  rejects : ∀ a b, Fits a → Fits b → verify a = .ok () → signature b = signature a → b ≠ a →
    ∃ e, verify b = .error e
  bound : ∀ a, verify a = .ok () →
    ∃ key, S.decodePublic (publicKey a) = .ok key ∧ S.peerId key = issuer a

/-- A record whose signed bytes are its format, the signature left empty, is tamper evident. -/
theorem tamperEvident_of_format {α : Type} {S : Signatures Keypair Pub} (hS : S.Exact)
    (format : Format α) {payload signature publicKey : α → Bytes} {issuer : α → String}
    {unsigned : α → α} (mismatch rejected : String)
    (hpayload : ∀ a, format.Fits a → payload a = format.bytes (unsigned a))
    (hfits : ∀ a, format.Fits a → format.Fits (unsigned a))
    (hinj : ∀ a b, unsigned a = unsigned b → signature a = signature b → a = b) :
    TamperEvident S format.Fits
      (fun a => verifySigned S (publicKey a) (issuer a) (payload a) (signature a) mismatch rejected)
      signature publicKey issuer where
  rejects a b ha hb hok hsig hne := by
    cases hv : verifySigned S (publicKey b) (issuer b) (payload b)
      (signature b) mismatch rejected with
    | error e => exact ⟨e, rfl⟩
    | ok u =>
      obtain ⟨k, -, -, hk⟩ := verifySigned_ok_iff.mp hok
      obtain ⟨k', -, -, hk'⟩ := verifySigned_ok_iff.mp hv
      rw [hsig] at hk'
      -- one signature, so one byte string, and the format gives the record back
      obtain ⟨-, hbytes⟩ := hS _ _ _ _ _ hk hk'
      rw [hpayload a ha, hpayload b hb] at hbytes
      have hun := format.injective (hfits a ha) (hfits b hb) hbytes
      exact absurd (hinj a b hun hsig.symm).symm hne
  bound a hok := by
    obtain ⟨key, hdec, hid, -⟩ := verifySigned_ok_iff.mp hok
    exact ⟨key, hdec, hid⟩

theorem inviteToken_fits_unsigned {t : InviteToken} (h : inviteTokenFormat.Fits t) :
    inviteTokenFormat.Fits { t with signature := [] } := by
  obtain ⟨h₁, h₂, h₃, h₄, h₅, h₆, h₇, h₈, h₉, -⟩ := h
  exact ⟨h₁, h₂, h₃, h₄, h₅, h₆, h₇, h₈, h₉, fits_unsigned⟩

theorem permissionGrant_fits_unsigned {g : PermissionGrant} (h : permissionGrantFormat.Fits g) :
    permissionGrantFormat.Fits { g with signature := [] } := by
  obtain ⟨h₁, h₂, h₃, h₄, h₅, h₆, h₇, -⟩ := h
  exact ⟨h₁, h₂, h₃, h₄, h₅, h₆, h₇, fits_unsigned⟩

theorem trustEdge_fits_unsigned {e : TrustEdge} (h : trustEdgeFormat.Fits e) :
    trustEdgeFormat.Fits { e with signature := [] } := by
  obtain ⟨h₁, h₂, h₃, h₄, h₅, h₆, -⟩ := h
  exact ⟨h₁, h₂, h₃, h₄, h₅, h₆, fits_unsigned⟩

/-- **Signed governance artifacts are tamper evident.** -/
theorem artifacts_tamper_evident (S : Signatures Keypair Pub) (hS : S.Exact) (W : Wire)
    (hW : W.SpeaksBincode) :
    TamperEvident S inviteTokenFormat.Fits (verifyInvite S W) InviteToken.signature
      InviteToken.issuerPublicKey InviteToken.issuerPeerId ∧
    TamperEvident S permissionGrantFormat.Fits (verifyPermissionGrant S W) PermissionGrant.signature
      PermissionGrant.issuerPublicKey PermissionGrant.issuerPeerId ∧
    TamperEvident S trustEdgeFormat.Fits (verifyTrustEdge S W) TrustEdge.signature
      TrustEdge.fromPublicKey TrustEdge.fromPeerId := by
  refine ⟨?_, ?_, ?_⟩
  · exact tamperEvident_of_format hS inviteTokenFormat _ _
      (fun t ht => hW.token _ (inviteToken_fits_unsigned ht))
      (fun t ht => inviteToken_fits_unsigned ht)
      (fun t u h hs => by cases t; cases u; simp_all)
  · exact tamperEvident_of_format hS permissionGrantFormat _ _
      (fun g hg => hW.grant _ (permissionGrant_fits_unsigned hg))
      (fun g hg => permissionGrant_fits_unsigned hg)
      (fun g u h hs => by cases g; cases u; simp_all)
  · exact tamperEvident_of_format hS trustEdgeFormat _ _
      (fun e he => hW.edge _ (trustEdge_fits_unsigned he))
      (fun e he => trustEdge_fits_unsigned he)
      (fun e u h hs => by cases e; cases u; simp_all)

/-- The artifacts of the numbered keys, written by `bincode`. -/
theorem artifacts_tamper_evident_tagged :
    TamperEvident Signatures.tagged inviteTokenFormat.Fits
      (verifyInvite Signatures.tagged .bincode) InviteToken.signature
      InviteToken.issuerPublicKey InviteToken.issuerPeerId ∧
    TamperEvident Signatures.tagged permissionGrantFormat.Fits
      (verifyPermissionGrant Signatures.tagged .bincode) PermissionGrant.signature
      PermissionGrant.issuerPublicKey PermissionGrant.issuerPeerId ∧
    TamperEvident Signatures.tagged trustEdgeFormat.Fits
      (verifyTrustEdge Signatures.tagged .bincode) TrustEdge.signature
      TrustEdge.fromPublicKey TrustEdge.fromPeerId :=
  artifacts_tamper_evident Signatures.tagged Signatures.tagged_exact .bincode Wire.bincode_speaks

/-! ## 3. What is created is accepted -/

theorem sign_then_ok {α : Type} {S : Signatures Keypair Pub} {keypair : Keypair} {payload : Bytes}
    {finish : Bytes → α} {a : α}
    (h : (signBytes S keypair payload >>= fun s => pure (finish s)) = .ok a) :
    ∃ s, S.sign keypair payload = .ok s ∧ finish s = a := by
  unfold signBytes at h
  cases hs : S.sign keypair payload with
  | error e =>
    rw [hs] at h
    cases h
  | ok s =>
    rw [hs] at h
    cases h
    exact ⟨s, rfl, rfl⟩

/-- **`verify_invite` accepts what `create_invite` made.** -/
theorem createInvite_verifies {S : Signatures Keypair Pub} (hS : S.Lawful) {W : Wire}
    {keypair : Keypair} {roomId : String} {roomPassword subjectPeerId : Option String}
    {expiresAt : Option Int64} {maxUses : Option UInt32} {capabilities : List Permission}
    {randomNonce : Vector UInt8 16} {token : InviteToken}
    (h : createInvite S W keypair roomId roomPassword subjectPeerId expiresAt maxUses capabilities
      randomNonce = .ok token) : verifyInvite S W token = .ok () := by
  obtain ⟨s, hs, rfl⟩ := sign_then_ok h
  exact verifySigned_of_sign hS hs _ _

/-- **`verify_permission_grant` accepts what `create_permission_grant` made.** -/
theorem createPermissionGrant_verifies {S : Signatures Keypair Pub} (hS : S.Lawful) {W : Wire}
    {keypair : Keypair} {roomId subjectPeerId roleId : String} {expiresAt : Option Int64}
    {nowMs : Int64} {grant : PermissionGrant}
    (h : createPermissionGrant S W keypair roomId subjectPeerId roleId expiresAt nowMs =
      .ok grant) :
    verifyPermissionGrant S W grant = .ok () := by
  obtain ⟨s, hs, rfl⟩ := sign_then_ok h
  exact verifySigned_of_sign hS hs _ _

theorem clampScore_range (score : Int32) : -10 ≤ clampScore score ∧ clampScore score ≤ 10 := by
  unfold clampScore
  split
  · decide
  · next hlow =>
    split
    · decide
    · next hhigh => exact ⟨Int32.not_lt.mp hlow, Int32.not_lt.mp hhigh⟩

/-- **`verify_trust_edge` accepts what `create_trust_edge` made**, and the score is in range. -/
theorem createTrustEdge_verifies {S : Signatures Keypair Pub} (hS : S.Lawful) {W : Wire}
    {keypair : Keypair} {toPeerId reason : String} {score : Int32} {nowMs : Int64}
    {edge : TrustEdge} (h : createTrustEdge S W keypair toPeerId score reason nowMs = .ok edge) :
    verifyTrustEdge S W edge = .ok () ∧ -10 ≤ edge.score ∧ edge.score ≤ 10 := by
  obtain ⟨s, hs, rfl⟩ := sign_then_ok h
  exact ⟨verifySigned_of_sign hS hs _ _, clampScore_range score⟩

end AlterChat.Governance
