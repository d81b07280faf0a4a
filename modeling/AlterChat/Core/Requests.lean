import AlterChat.Core.Crypto

/-!
# `file_transfer.rs`: the requests between peers

`P2pRequest` of `alterchat-core/src/file_transfer.rs` with all its variants, and its `bincode` form:
the index of the variant in four bytes, then the fields in their order. `requestLayout` reads back
what it has written, so a request that was put into a sealed message is the request that is taken
out.
-/

namespace AlterChat.Requests

open Lib

variable {Key : Type}

/-- `pow.rs`: a proof of work. -/
structure PoWToken where
  resource : String
  timestamp : UInt64
  nonce : UInt64
  deriving DecidableEq

/-- `P2pRequest`. -/
inductive P2pRequest (Key : Type) where
  | file (filename : String) (data : Bytes)
  | fileChunk (transferId : String) (index total : UInt64) (contentHash : String) (data : Bytes)
  | webRtcSignal (signal : String)
  | privateMessage (text senderNick : String) (timestamp : Int64) (ttl : Option Int64)
      (powToken : Option PoWToken)
  | ratchetPrivateMessage (envelope : Bytes) (senderNick : String) (timestamp : Int64)
      (ttl : Option Int64)
  | x3dhDm (initMsg : Option Bytes) (drEnvelope : Bytes) (senderDhPub : Key) (senderNick : String)
      (timestamp : Int64) (ttl : Option Int64)
  | capabilityAnnouncement (peerId : String) (storageNode relayNode dhtServer mediaRelay : Bool)
      (capacityScore : UInt32) (protocolVersions : List String)
  | onionForward (packet : Bytes)
  | pluginEvent (pluginId eventJson : String)
  | powChallenge (challengeId : String) (difficultyBits : UInt8) (nonce : Bytes)
  | powSolution (challengeId : String) (solution : Bytes)
  deriving DecidableEq

/-! ## The `bincode` form -/

def powFields : PoWToken ≃ String × UInt64 × UInt64 where
  toFun t := (t.resource, t.timestamp, t.nonce)
  invFun q := ⟨q.1, q.2.1, q.2.2⟩
  left_inv _ := rfl
  right_inv _ := rfl

def powLayout : Layout PoWToken := (Layout.string.pair <| .pair .u64 .u64).record powFields

/-- The fields of each variant. -/
abbrev RequestFields (Key : Type) :=
  (String × Bytes) ⊕ (String × UInt64 × UInt64 × String × Bytes) ⊕ String ⊕
    (String × String × Int64 × Option Int64 × Option PoWToken) ⊕
    (Bytes × String × Int64 × Option Int64) ⊕
    (Option Bytes × Bytes × Key × String × Int64 × Option Int64) ⊕
    (String × Bool × Bool × Bool × Bool × UInt32 × List String) ⊕ Bytes ⊕ (String × String) ⊕
    (String × UInt8 × Bytes) ⊕ (String × Bytes)

/-- A request as the fields of its variant. -/
def P2pRequest.fields : P2pRequest Key → RequestFields Key
  | .file filename data => .inl (filename, data)
  | .fileChunk transferId index total contentHash data =>
    .inr <| .inl (transferId, index, total, contentHash, data)
  | .webRtcSignal signal => .inr <| .inr <| .inl signal
  | .privateMessage text senderNick timestamp ttl powToken =>
    .inr <| .inr <| .inr <| .inl (text, senderNick, timestamp, ttl, powToken)
  | .ratchetPrivateMessage envelope senderNick timestamp ttl =>
    .inr <| .inr <| .inr <| .inr <| .inl (envelope, senderNick, timestamp, ttl)
  | .x3dhDm initMsg drEnvelope senderDhPub senderNick timestamp ttl =>
    .inr <| .inr <| .inr <| .inr <| .inr <| .inl
      (initMsg, drEnvelope, senderDhPub, senderNick, timestamp, ttl)
  | .capabilityAnnouncement peerId storageNode relayNode dhtServer mediaRelay capacityScore
      protocolVersions =>
    .inr <| .inr <| .inr <| .inr <| .inr <| .inr <| .inl
      (peerId, storageNode, relayNode, dhtServer, mediaRelay, capacityScore, protocolVersions)
  | .onionForward packet => .inr <| .inr <| .inr <| .inr <| .inr <| .inr <| .inr <| .inl packet
  | .pluginEvent pluginId eventJson =>
    .inr <| .inr <| .inr <| .inr <| .inr <| .inr <| .inr <| .inr <| .inl (pluginId, eventJson)
  | .powChallenge challengeId difficultyBits nonce =>
    .inr <| .inr <| .inr <| .inr <| .inr <| .inr <| .inr <| .inr <| .inr <| .inl
      (challengeId, difficultyBits, nonce)
  | .powSolution challengeId solution =>
    .inr <| .inr <| .inr <| .inr <| .inr <| .inr <| .inr <| .inr <| .inr <| .inr
      (challengeId, solution)

/-- The request with these fields. -/
def P2pRequest.ofFields : RequestFields Key → P2pRequest Key
  | .inl (filename, data) => .file filename data
  | .inr (.inl (transferId, index, total, contentHash, data)) =>
    .fileChunk transferId index total contentHash data
  | .inr (.inr (.inl signal)) => .webRtcSignal signal
  | .inr (.inr (.inr (.inl (text, senderNick, timestamp, ttl, powToken)))) =>
    .privateMessage text senderNick timestamp ttl powToken
  | .inr (.inr (.inr (.inr (.inl (envelope, senderNick, timestamp, ttl))))) =>
    .ratchetPrivateMessage envelope senderNick timestamp ttl
  | .inr (.inr (.inr (.inr (.inr (.inl
      (initMsg, drEnvelope, senderDhPub, senderNick, timestamp, ttl)))))) =>
    .x3dhDm initMsg drEnvelope senderDhPub senderNick timestamp ttl
  | .inr (.inr (.inr (.inr (.inr (.inr (.inl
      (peerId, storageNode, relayNode, dhtServer, mediaRelay, capacityScore,
        protocolVersions))))))) =>
    .capabilityAnnouncement peerId storageNode relayNode dhtServer mediaRelay capacityScore
      protocolVersions
  | .inr (.inr (.inr (.inr (.inr (.inr (.inr (.inl packet))))))) => .onionForward packet
  | .inr (.inr (.inr (.inr (.inr (.inr (.inr (.inr (.inl (pluginId, eventJson))))))))) =>
    .pluginEvent pluginId eventJson
  | .inr (.inr (.inr (.inr (.inr (.inr (.inr (.inr (.inr (.inl
      (challengeId, difficultyBits, nonce)))))))))) =>
    .powChallenge challengeId difficultyBits nonce
  | .inr (.inr (.inr (.inr (.inr (.inr (.inr (.inr (.inr (.inr
      (challengeId, solution)))))))))) =>
    .powSolution challengeId solution

def requestFields : P2pRequest Key ≃ RequestFields Key where
  toFun := P2pRequest.fields
  invFun := P2pRequest.ofFields
  left_inv r := by cases r <;> rfl
  right_inv q := by
    rcases q with q | q | q | q | q | q | q | q | q | q | q <;> rfl

/-- The fields of `X3dhDm`, in their order. -/
def x3dhDmLayout (K : KeyLayout Key) :
    Layout (Option Bytes × Bytes × Key × String × Int64 × Option Int64) :=
  .pair (.option (.seq .u8)) <| .pair (.seq .u8) <| .pair K.toLayout <| .pair .string <|
    .pair .i64 (.option .i64)

/-- The variants, numbered in their order. -/
def requestVariants (K : KeyLayout Key) : Variants 0 (RequestFields Key) :=
  .cons (.pair .string (.seq .u8)) <|
  .cons (.pair .string <| .pair .u64 <| .pair .u64 <| .pair .string (.seq .u8)) <|
  .cons .string <|
  .cons (.pair .string <| .pair .string <| .pair .i64 <|
    .pair (.option .i64) (.option powLayout)) <|
  .cons (.pair (.seq .u8) <| .pair .string <| .pair .i64 (.option .i64)) <|
  .cons (x3dhDmLayout K) <|
  .cons (.pair .string <| .pair .bool <| .pair .bool <| .pair .bool <| .pair .bool <|
    .pair .u32 (.seq .string)) <|
  .cons (.seq .u8) <|
  .cons (.pair .string .string) <|
  .cons (.pair .string <| .pair .u8 (.seq .u8)) <|
  .last (by decide) (.pair .string (.seq .u8))

/-- `bincode` for requests. -/
def requestLayout (K : KeyLayout Key) : Layout (P2pRequest Key) :=
  (requestVariants K).layout.record requestFields

/-- **A direct message that is short enough for a cipher is read back as it is.** -/
theorem x3dhDm_fits {K : KeyLayout Key} {drEnvelope : Bytes} {senderDhPub : Key}
    {senderNick : String} {timestamp : Int64} {ttl : Option Int64}
    (h : ((requestLayout K).bytes
      (.x3dhDm none drEnvelope senderDhPub senderNick timestamp ttl)).length < 2 ^ 63) :
    (requestLayout K).Fits (.x3dhDm none drEnvelope senderDhPub senderNick timestamp ttl) := by
  have hbytes : (requestLayout K).bytes
      (.x3dhDm none drEnvelope senderDhPub senderNick timestamp ttl) =
        le 4 5 ++ (x3dhDmLayout K).bytes
          (none, drEnvelope, senderDhPub, senderNick, timestamp, ttl) := rfl
  rw [hbytes, List.length_append, le_length] at h
  simp only [x3dhDmLayout, Layout.pair_length, Layout.bytes_length, Layout.string_length] at h
  show (x3dhDmLayout K).Fits (none, drEnvelope, senderDhPub, senderNick, timestamp, ttl)
  simp only [x3dhDmLayout, Layout.pair_fits, Layout.option_fits_none, Layout.bytes_fits,
    Layout.string_fits, KeyLayout.fits, Layout.i64_fits, true_and]
  refine ⟨by omega, by omega, ?_⟩
  cases ttl with
  | none => exact Layout.option_fits_none _
  | some n => exact (Layout.option_fits_some _ n).mpr (Layout.i64_fits n)

end AlterChat.Requests
