import AlterChat.Core.SignedBytes

/-!
# `plugin.rs`: signed plugins and the policy they run under

The manifest, its signature and the gate in front of the sandbox. The sandbox itself is not linked:
`run_plugin` ends with the result its stub returns. `sha256` is a parameter (the function that calls
it is named `blake3_hash`).

* §1 types and formats, §2 signing and verifying, §3 `run_plugin`;
* `runPlugin_ok_iff` -- what `run_plugin` asks;
* `runsAsAuthor_iff` -- when that binds the author and the policy as well;
* `foreign_author_runs` -- a manifest under another's name, and a policy for another plugin.
-/

namespace AlterChat.Plugin

open Lib Governance

variable {Keypair Pub : Type}

/-! ## 1. Types -/

inductive PluginCapability where
  | ReadMessages
  | SendMessages
  | FileAccess
  | NetworkAccess
  | StorageAccess
  | ManageRooms
  | Clock
  deriving DecidableEq

structure PluginManifest where
  id : String
  name : String
  version : String
  authorPeerId : String
  authorPublicKey : Bytes
  entrypoint : String
  capabilities : List PluginCapability
  wasmHash : Bytes
  signature : Bytes
  deriving DecidableEq

structure PluginPolicy where
  pluginId : String
  enabled : Bool
  grantedCapabilities : List PluginCapability
  deriving DecidableEq

structure PluginRunResult where
  output : Int32
  fuelRemaining : UInt64
  log : List String
  deriving DecidableEq

/-- The variants in the order of the declaration. -/
def PluginCapability.index : PluginCapability → Nat
  | .ReadMessages => 0
  | .SendMessages => 1
  | .FileAccess => 2
  | .NetworkAccess => 3
  | .StorageAccess => 4
  | .ManageRooms => 5
  | .Clock => 6

def capabilityFormat : Format PluginCapability :=
  .variant PluginCapability.index
    (fun p q h => by cases p <;> cases q <;> first | rfl | cases h)
    (fun p => by cases p <;> decide)

def manifestFormat : Format PluginManifest :=
  .record
    (.pair .string <| .pair .string <| .pair .string <| .pair .string <| .pair (.seq .u8) <|
      .pair .string <| .pair (.seq capabilityFormat) <| .pair (.seq .u8) (.seq .u8))
    (fun m => (m.id, m.name, m.version, m.authorPeerId, m.authorPublicKey, m.entrypoint,
      m.capabilities, m.wasmHash, m.signature))
    (fun m n h => by cases m; cases n; simpa using h)

/-! ## 2. Signing and verifying -/

/-- `manifest_signing_bytes`. -/
def manifestSigningBytes (m : PluginManifest) : Bytes :=
  manifestFormat.bytes { m with signature := [] }

/-- `create_plugin_manifest`. -/
def createPluginManifest (S : Signatures Keypair Pub) (sha256 : Bytes → Bytes) (keypair : Keypair)
    (id name version entrypoint : String) (capabilities : List PluginCapability)
    (wasmBytes : Bytes) : Except String PluginManifest := do
  let m : PluginManifest :=
    { id, name, version
      authorPeerId := S.peerId (S.publicOf keypair)
      authorPublicKey := S.encodePublic (S.publicOf keypair)
      entrypoint, capabilities
      wasmHash := sha256 wasmBytes
      signature := [] }
  let signature ← signBytes S keypair (manifestSigningBytes m)
  return { m with signature }

/-- `verify_plugin`. -/
def verifyPlugin (S : Signatures Keypair Pub) (sha256 : Bytes → Bytes) (manifest : PluginManifest)
    (wasmBytes : Bytes) : Except String Unit :=
  match decodePublicKey S manifest.authorPublicKey with
  | .error e => .error e
  | .ok pk =>
    if S.verify pk (manifestSigningBytes manifest) manifest.signature = false then
      .error "plugin signature invalid"
    else if sha256 wasmBytes ≠ manifest.wasmHash then
      .error "WASM hash mismatch — binary tampered"
    else .ok ()

/-! ## 3. Running -/

/-- `PluginPolicy::denies_all`. -/
def PluginPolicy.deniesAll (pluginId : String) : PluginPolicy where
  pluginId := pluginId
  enabled := false
  grantedCapabilities := []

/-- `PluginPolicy::with_capabilities`. -/
def PluginPolicy.withCapabilities (pluginId : String) (caps : List PluginCapability) :
    PluginPolicy where
  pluginId := pluginId
  enabled := true
  grantedCapabilities := caps

/-- `PluginHost::run_plugin`, with the result of the stub. -/
def runPlugin (S : Signatures Keypair Pub) (sha256 : Bytes → Bytes) (manifest : PluginManifest)
    (wasmBytes : Bytes) (policy : PluginPolicy) (input : Int32) (fuel : UInt64) :
    Except String PluginRunResult :=
  match verifyPlugin S sha256 manifest wasmBytes with
  | .error e => .error e
  | .ok () =>
    if policy.enabled = false then .error "plugin is disabled by user policy"
    else
      .ok
        { output := input
          fuelRemaining := fuel
          log := ["[plugin-host] " ++ manifest.name ++ " v" ++ manifest.version ++
            " verified, wasmtime not linked yet"] }

theorem verifyPlugin_ok_iff {S : Signatures Keypair Pub} {sha256 : Bytes → Bytes}
    {manifest : PluginManifest} {wasmBytes : Bytes} :
    verifyPlugin S sha256 manifest wasmBytes = .ok () ↔
      ∃ pk, S.decodePublic manifest.authorPublicKey = .ok pk ∧
        S.verify pk (manifestSigningBytes manifest) manifest.signature = true ∧
        sha256 wasmBytes = manifest.wasmHash := by
  unfold verifyPlugin decodePublicKey
  cases S.decodePublic manifest.authorPublicKey with
  | error e => simp [Except.mapError]
  | ok pk =>
    simp only [Except.mapError, Except.ok.injEq, exists_eq_left']
    cases hv : S.verify pk (manifestSigningBytes manifest) manifest.signature with
    | false => simp
    | true =>
      by_cases hh : sha256 wasmBytes = manifest.wasmHash
      · simp [hh]
      · simp [hh]

/-- **What `run_plugin` asks**: a signature under the key inside the manifest, the signed hash, and
    an enabled policy. -/
theorem runPlugin_ok_iff {S : Signatures Keypair Pub} {sha256 : Bytes → Bytes}
    {manifest : PluginManifest} {wasmBytes : Bytes} {policy : PluginPolicy} {input : Int32}
    {fuel : UInt64} :
    (∃ r, runPlugin S sha256 manifest wasmBytes policy input fuel = .ok r) ↔
      (∃ pk, S.decodePublic manifest.authorPublicKey = .ok pk ∧
        S.verify pk (manifestSigningBytes manifest) manifest.signature = true ∧
        sha256 wasmBytes = manifest.wasmHash) ∧ policy.enabled = true := by
  rw [← verifyPlugin_ok_iff]
  unfold runPlugin
  cases verifyPlugin S sha256 manifest wasmBytes with
  | error e => simp
  | ok u => cases policy.enabled <;> simp

/-- A plugin the user has not enabled does not run. -/
theorem deniesAll_refused (S : Signatures Keypair Pub) (sha256 : Bytes → Bytes)
    (manifest : PluginManifest) (wasmBytes : Bytes) (pluginId : String) (input : Int32)
    (fuel : UInt64) (r : PluginRunResult) :
    runPlugin S sha256 manifest wasmBytes (.deniesAll pluginId) input fuel ≠ .ok r := by
  intro h
  obtain ⟨-, hen⟩ := runPlugin_ok_iff.mp ⟨r, h⟩
  cases hen

/-! ## 4. Author, binary and policy -/

/-- The plugin may run: the holder of the key behind `author_peer_id` signed the manifest, the
    binary is the one it names, and the policy is this plugin's and enabled. -/
structure Entitled (S : Signatures Keypair Pub) (sha256 : Bytes → Bytes) (manifest : PluginManifest)
    (wasmBytes : Bytes) (policy : PluginPolicy) : Prop where
  author : ∃ keypair, S.peerId (S.publicOf keypair) = manifest.authorPeerId ∧
    S.sign keypair (manifestSigningBytes manifest) = .ok manifest.signature
  binary : sha256 wasmBytes = manifest.wasmHash
  ownPolicy : policy.pluginId = manifest.id
  enabled : policy.enabled = true

/-- **When `run_plugin` runs entitled plugins only**: the key inside the manifest is the author's
    and the policy is the plugin's, or the call is refused for what it does check. -/
theorem runsAsAuthor_iff (S : Signatures Keypair Pub) (hS : S.Lawful) (hexact : S.Exact)
    (hsigned : S.Unforgeable) (sha256 : Bytes → Bytes) (manifest : PluginManifest)
    (wasmBytes : Bytes) (policy : PluginPolicy) (input : Int32) (fuel : UInt64) :
    ((∃ r, runPlugin S sha256 manifest wasmBytes policy input fuel = .ok r) →
        Entitled S sha256 manifest wasmBytes policy) ↔
      ∀ pk, S.decodePublic manifest.authorPublicKey = .ok pk →
        S.verify pk (manifestSigningBytes manifest) manifest.signature = true →
        sha256 wasmBytes = manifest.wasmHash → policy.enabled = true →
          S.peerId pk = manifest.authorPeerId ∧ policy.pluginId = manifest.id := by
  rw [runPlugin_ok_iff]
  constructor
  · intro h pk hdec hver hhash hen
    obtain ⟨⟨keypair, hauthor, hsign⟩, -, hpolicy, -⟩ := h ⟨⟨pk, hdec, hver, hhash⟩, hen⟩
    -- the author's signature verifies under one key, and that is the key inside
    obtain ⟨hkey, -⟩ := hexact _ _ _ _ _ (hS.verify_sign _ _ _ hsign) hver
    exact ⟨hkey ▸ hauthor, hpolicy⟩
  · intro h hrun
    obtain ⟨⟨pk, hdec, hver, hhash⟩, hen⟩ := hrun
    obtain ⟨hauthor, hpolicy⟩ := h pk hdec hver hhash hen
    obtain ⟨keypair, hpk, hsign⟩ := hsigned _ _ _ hver
    exact ⟨⟨keypair, by rw [hpk, hauthor], hsign⟩, hhash, hpolicy, hen⟩

/-- A plugin of the numbered keys, as its manifest is before signing. -/
def samplePlugin (author key : Nat) (wasmBytes : Bytes) : PluginManifest where
  id := "notes"
  name := "Notes"
  version := "1.0"
  authorPeerId := Signatures.tagged.peerId author
  authorPublicKey := Signatures.tagged.encodePublic key
  entrypoint := "entry"
  capabilities := []
  wasmHash := wasmBytes
  signature := []

/-- The plugin, signed with a key. -/
def signedPlugin (author key : Nat) (wasmBytes : Bytes) : PluginManifest :=
  { samplePlugin author key wasmBytes with
    signature := Signatures.tag key (manifestSigningBytes (samplePlugin author key wasmBytes)) }

/-- Whoever signs, under whatever name and for whatever policy: the plugin runs. -/
theorem signedPlugin_runs (author key : Nat) (wasmBytes : Bytes) (pluginId : String) (input : Int32)
    (fuel : UInt64) : ∃ r, runPlugin Signatures.tagged (fun b => b)
    (signedPlugin author key wasmBytes)
      wasmBytes (.withCapabilities pluginId []) input fuel = .ok r := by
  refine runPlugin_ok_iff.mpr ⟨⟨key, ?_, ?_, rfl⟩, rfl⟩
  · exact Signatures.tagged_lawful.decode_encode key
  · exact Signatures.tagged_lawful.verify_sign key _ _ rfl

/-- The entitled plugin of the first author. -/
theorem runsAsAuthor_own :
    (∃ r, runPlugin Signatures.tagged (fun b => b) (signedPlugin 0 0 [0]) [0]
        (.withCapabilities "notes" []) 42 1000 = .ok r) ∧
      Entitled Signatures.tagged (fun b => b) (signedPlugin 0 0 [0]) [0]
        (.withCapabilities "notes" []) := by
  have hruns := signedPlugin_runs 0 0 [0] "notes" 42 1000
  refine ⟨hruns,
    (runsAsAuthor_iff Signatures.tagged Signatures.tagged_lawful Signatures.tagged_exact
    Signatures.tagged_unforgeable (fun b => b) _ _ _ _ _).mpr (fun pk hdec _ _ _ => ?_) hruns⟩
  have hpk : pk = 0 := by
    rw [signedPlugin, samplePlugin, Signatures.tagged_lawful.decode_encode] at hdec
    exact (Except.ok.inj hdec).symm
  exact ⟨by rw [hpk]; rfl, rfl⟩

/-- The second author signs under the name of the first; and a plugin runs under the policy of
    another. -/
theorem foreign_author_runs :
    ¬ ((∃ r, runPlugin Signatures.tagged (fun b => b) (signedPlugin 0 1 [0]) [0]
          (.withCapabilities "notes" []) 42 1000 = .ok r) →
        Entitled Signatures.tagged (fun b => b) (signedPlugin 0 1 [0]) [0]
          (.withCapabilities "notes" [])) ∧
    ¬ ((∃ r, runPlugin Signatures.tagged (fun b => b) (signedPlugin 0 0 [0]) [0]
          (.withCapabilities "calendar" []) 42 1000 = .ok r) →
        Entitled Signatures.tagged (fun b => b) (signedPlugin 0 0 [0]) [0]
          (.withCapabilities "calendar" [])) := by
  constructor
  · intro h
    obtain ⟨keypair, hauthor, hsign⟩ := (h (signedPlugin_runs 0 1 [0] "notes" 42 1000)).author
    have h0 : keypair = 0 := Signatures.tagged_peerId_inj hauthor
    have hver := Signatures.tagged_lawful.verify_sign _ _ _ hsign
    have hver' : Signatures.tagged.verify 1 (manifestSigningBytes (signedPlugin 0 1 [0]))
        (signedPlugin 0 1 [0]).signature = true :=
      Signatures.tagged_lawful.verify_sign 1 _ _ rfl
    have h1 := (Signatures.tagged_exact _ _ _ _ _ hver hver').1
    rw [h0] at h1
    cases h1
  · intro h
    have hpolicy := (h (signedPlugin_runs 0 0 [0] "calendar" 42 1000)).ownPolicy
    exact absurd hpolicy (by decide)

end AlterChat.Plugin
