import AlterChat.Core.Crypto

/-!
# `onion.rs`: packets in layers

`wrap_onion` and `peel_onion` of `alterchat-core/src/onion.rs`. The loop runs from the last hop to
the first, with the packet of the hops behind and the payload in two options, and looks the next hop
up in the route by its index. What it draws for a hop is given by the index of the hop.

* §1 packets and layers with their formats, §2 `wrap_onion` and `peel_onion`;
* §3 `Wrapped`: what the loop has built, hop by hop (`wrapOnion_wrapped`);
* §4 `peels_in_order` -- along the route every hop reads its own layer, and the last one the
  payload;
* §5 `fixed_size_iff` -- which packets keep the size the padding aims at.
-/

namespace AlterChat.Onion

open Lib Crypto

variable {Key : Type}

/-! ## 1. Packets and layers -/

structure OnionPacket (Key : Type) where
  layer : EncryptedPayload Key
  routeLen : UInt8
  deriving DecidableEq

structure OnionLayer (Key : Type) where
  nextHop : Option String
  innerPacket : Option (OnionPacket Key)
  payload : Option Bytes
  padding : Bytes
  deriving DecidableEq

def packetFields : OnionPacket Key ≃ EncryptedPayload Key × UInt8 where
  toFun p := (p.layer, p.routeLen)
  invFun q := ⟨q.1, q.2⟩
  left_inv _ := rfl
  right_inv _ := rfl

def packetLayout (K : KeyLayout Key) : Layout (OnionPacket Key) :=
  ((payloadLayout K).pair .u8).record packetFields

def layerFields :
    OnionLayer Key ≃ Option String × Option (OnionPacket Key) × Option Bytes × Bytes where
  toFun l := (l.nextHop, l.innerPacket, l.payload, l.padding)
  invFun q := ⟨q.1, q.2.1, q.2.2.1, q.2.2.2⟩
  left_inv _ := rfl
  right_inv _ := rfl

def layerLayout (K : KeyLayout Key) : Layout (OnionLayer Key) :=
  (Layout.string.option.pair <| (packetLayout K).option.pair <|
    (Layout.seq .u8).option.pair <| .seq .u8).record layerFields

/-! ## 2. `wrap_onion` and `peel_onion` -/

/-- How `wrap_onion` stops without a packet. -/
inductive WrapError where
  | message (e : String)
  /-- The subtraction of the padding goes below zero. -/
  | panic
  deriving DecidableEq

/-- "16 KB Sphinx fixed packet size". -/
def targetSize : Nat := 16 * 1024

/-- The padding of a layer whose bytes without padding have this length. -/
def paddingFor (initialLen : Nat) : Except WrapError Bytes :=
  if initialLen < targetSize then
    if initialLen + 8 ≤ targetSize then .ok (List.replicate (targetSize - initialLen - 8) 0)
    else .error .panic
  else .ok []

/-- One round of the loop: the packet for a hop, from the packet of the next one and the payload. -/
def wrapHop (P : Primitives Key) (K : KeyLayout Key) (draw : Nat → Key × Nonce)
    (route : List (String × Key)) (state : Option (OnionPacket Key) × Option Bytes)
    (hop : (String × Key) × Nat) : Except WrapError (Option (OnionPacket Key) × Option Bytes) :=
  let layer : OnionLayer Key :=
    { nextHop := (route[hop.2 + 1]?).map Prod.fst
      innerPacket := state.1
      payload := state.2
      padding := [] }
  match paddingFor ((layerLayout K).bytes layer).length with
  | .error e => .error e
  | .ok padding =>
    match encryptForPeer P (draw hop.2).1 (draw hop.2).2 hop.1.2
        ((layerLayout K).bytes { layer with padding }) with
    | .error e => .error (.message e)
    | .ok encrypted =>
      .ok (some { layer := encrypted, routeLen := UInt8.ofNat route.length }, none)

/-- `wrap_onion`. -/
def wrapOnion (P : Primitives Key) (K : KeyLayout Key) (draw : Nat → Key × Nonce)
    (route : List (String × Key)) (payload : Bytes) : Except WrapError (OnionPacket Key) :=
  match route.zipIdx.reverse.foldlM (wrapHop P K draw route) (none, some payload) with
  | .error e => .error e
  | .ok (none, _) => .error (.message "empty onion route")
  | .ok (some packet, _) => .ok packet

/-- `peel_onion`. -/
def peelOnion (P : Primitives Key) (K : KeyLayout Key) (mySecret : Key)
    (packet : OnionPacket Key) : Except String (OnionLayer Key) :=
  match decryptForMe P mySecret packet.layer with
  | .error e => .error e
  | .ok bytes =>
    match (layerLayout K).decode bytes with
    | none => .error "onion deserialize failed"
    | some layer => .ok layer

/-! ## 3. What the loop builds -/

section

variable {P : Primitives Key} {K : KeyLayout Key} {draw : Nat → Key × Nonce}
  {route : List (String × Key)} {payload : Bytes} {packet : OnionPacket Key}

/-- The layer of a hop: on the way, and at the end of the route. -/
def hopLayer (payload : Bytes) (next : Option (String × OnionPacket Key)) (padding : Bytes) :
    OnionLayer Key :=
  match next with
  | some (id, inner) => { nextHop := some id, innerPacket := some inner, payload := none, padding }
  | none => { nextHop := none, innerPacket := none, payload := some payload, padding }

/-- The packet for one hop, given the id and the packet of the next. -/
structure WrappedHop (P : Primitives Key) (K : KeyLayout Key) (pubkey : Key) (payload : Bytes)
    (next : Option (String × OnionPacket Key)) (padding : Bytes) (packet : OnionPacket Key) :
    Prop where
  padded : paddingFor ((layerLayout K).bytes (hopLayer payload next [])).length = .ok padding
  sealed : ∃ ephemeral nonce, encryptForPeer P ephemeral nonce pubkey
    ((layerLayout K).bytes (hopLayer payload next padding)) = .ok packet.layer

/-- The packet for the first hop of a route. -/
inductive Wrapped (P : Primitives Key) (K : KeyLayout Key) (payload : Bytes) :
    List (String × Key) → OnionPacket Key → Prop where
  | last (hop : String × Key) (padding : Bytes) (packet : OnionPacket Key)
      (h : WrappedHop P K hop.2 payload none padding packet) : Wrapped P K payload [hop] packet
  | hop (hop next : String × Key) (rest : List (String × Key)) (inner : OnionPacket Key)
      (padding : Bytes) (packet : OnionPacket Key) (hi : Wrapped P K payload (next :: rest) inner)
      (h : WrappedHop P K hop.2 payload (some (next.1, inner)) padding packet) :
      Wrapped P K payload (hop :: next :: rest) packet

/-- The state of the loop once the hops from index `i` on are done. -/
def wrapFrom (P : Primitives Key) (K : KeyLayout Key) (draw : Nat → Key × Nonce)
    (route : List (String × Key)) (payload : Bytes) :
    Nat → List (String × Key) → Except WrapError (Option (OnionPacket Key) × Option Bytes)
  | _, [] => .ok (none, some payload)
  | i, hop :: rest =>
    match wrapFrom P K draw route payload (i + 1) rest with
    | .error e => .error e
    | .ok state => wrapHop P K draw route state (hop, i)

theorem foldlM_eq_wrapFrom (hops : List (String × Key)) (i : Nat) :
    (hops.zipIdx i).reverse.foldlM (wrapHop P K draw route) (none, some payload) =
      wrapFrom P K draw route payload i hops := by
  induction hops generalizing i with
  | nil => rfl
  | cons hop rest ih =>
    rw [List.zipIdx_cons, List.reverse_cons, List.foldlM_append, ih, wrapFrom]
    cases wrapFrom P K draw route payload (i + 1) rest with
    | error e => rfl
    | ok state => exact bind_pure (wrapHop P K draw route state (hop, i))

/-- The layer a round of the loop puts together. -/
theorem hopLayer_eq {i : Nat} {next : Option (String × OnionPacket Key)}
    (hnext : (route[i + 1]?).map Prod.fst = next.map Prod.fst) (padding : Bytes) :
    (⟨(route[i + 1]?).map Prod.fst, next.map Prod.snd,
      if next.isSome then none else some payload, padding⟩ : OnionLayer Key) =
        hopLayer payload next padding := by
  rw [hnext]
  cases next <;> rfl

/-- **One round.** -/
theorem wrapHop_ok (next : Option (String × OnionPacket Key)) {hop : String × Key} {i : Nat}
    {state' : Option (OnionPacket Key) × Option Bytes}
    (hnext : (route[i + 1]?).map Prod.fst = next.map Prod.fst)
    (h : wrapHop P K draw route
      (next.map Prod.snd, if next.isSome then none else some payload) (hop, i) = .ok state') :
    ∃ padding packet, state' = (some packet, none) ∧
      WrappedHop P K hop.2 payload next padding packet := by
  simp only [wrapHop, hopLayer_eq hnext] at h
  split at h
  · cases h
  · next padding hpad =>
    split at h
    · cases h
    · next encrypted henc =>
      cases h
      exact ⟨padding, _, rfl, hpad, _, _, henc⟩

/-- **What `wrap_onion` returns has been wrapped hop by hop.** -/
theorem wrapFrom_wrapped {hops : List (String × Key)} {i : Nat}
    {state : Option (OnionPacket Key) × Option Bytes} (hdrop : route.drop i = hops)
    (hne : hops ≠ []) (h : wrapFrom P K draw route payload i hops = .ok state) :
    ∃ packet, state = (some packet, none) ∧ Wrapped P K payload hops packet := by
  induction hops generalizing i state with
  | nil => exact absurd rfl hne
  | cons hop rest ih =>
    have hrest : route.drop (i + 1) = rest := by
      rw [← List.drop_drop, hdrop, List.drop_one, List.tail_cons]
    have hhead : route[i + 1]? = rest.head? := by rw [← hrest, List.head?_drop]
    unfold wrapFrom at h
    split at h
    · cases h
    · next inner hinner =>
      cases rest with
      | nil =>
        cases hinner
        obtain ⟨padding, packet, rfl, hhop⟩ := wrapHop_ok none (by rw [hhead]; rfl) h
        exact ⟨packet, rfl, .last hop padding packet hhop⟩
      | cons next rest =>
        obtain ⟨innerPacket, rfl, hwrapped⟩ := ih hrest (List.cons_ne_nil _ _) hinner
        obtain ⟨padding, packet, rfl, hhop⟩ :=
          wrapHop_ok (some (next.1, innerPacket)) (by rw [hhead]; rfl) h
        exact ⟨packet, rfl, .hop hop next rest innerPacket padding packet hwrapped hhop⟩

theorem wrapOnion_wrapped (h : wrapOnion P K draw route payload = .ok packet) :
    Wrapped P K payload route packet := by
  simp only [wrapOnion, foldlM_eq_wrapFrom] at h
  cases route with
  | nil => cases h
  | cons hop rest =>
    split at h
    · cases h
    · cases h
    · next packet' rest' hfrom =>
      cases h
      obtain ⟨packet'', heq, hwrapped⟩ :=
        wrapFrom_wrapped (i := 0) rfl (List.cons_ne_nil hop rest) hfrom
      cases heq
      exact hwrapped

end

/-! ## 4. Peeling in order -/

section

variable {K : KeyLayout Key}

theorem packet_length_ge (packet : OnionPacket Key) :
    packet.layer.ciphertext.length ≤ ((packetLayout K).bytes packet).length := by
  have hge := payload_length_ge K packet.layer
  simp only [packetLayout, Layout.record_bytes, packetFields, Equiv.coe_fn_mk, Layout.pair_length]
  omega

@[simp] theorem packet_fits (packet : OnionPacket Key) :
    (packetLayout K).Fits packet ↔ packet.layer.ciphertext.length < 2 ^ 63 := by
  simp [packetLayout, packetFields]

theorem layer_length (l : OnionLayer Key) :
    ((layerLayout K).bytes l).length =
      (Layout.string.option.bytes l.nextHop).length +
        (((packetLayout K).option.bytes l.innerPacket).length +
          (((Layout.seq .u8).option.bytes l.payload).length + (8 + l.padding.length))) := by
  simp [layerLayout, layerFields]

/-- A packet is shorter than the layer it is in. -/
theorem inner_length_lt {l : OnionLayer Key} {inner : OnionPacket Key}
    (h : l.innerPacket = some inner) :
    ((packetLayout K).bytes inner).length < ((layerLayout K).bytes l).length := by
  rw [layer_length, h, Layout.option_length_some]
  omega

/-- **A layer that the cipher takes is read back as it is.** -/
theorem layer_fits {l : OnionLayer Key}
    (h : ((layerLayout K).bytes l).length ≤ maxPlaintext) : (layerLayout K).Fits l := by
  have hlen := layer_length (K := K) l
  have hmax : maxPlaintext < 2 ^ 63 := by decide
  refine ⟨?_, ?_, ?_, (Layout.bytes_fits _).mpr ?_⟩
  · intro id hid
    simp only [layerFields, Equiv.coe_fn_mk] at hid
    rw [hid, Layout.option_length_some, Layout.string_length] at hlen
    exact (Layout.string_fits id).mpr (by omega)
  · intro inner hinner
    simp only [layerFields, Equiv.coe_fn_mk] at hinner
    have hge := packet_length_ge (K := K) inner
    rw [hinner, Layout.option_length_some] at hlen
    exact (packet_fits inner).mpr (by omega)
  · intro payload hpayload
    simp only [layerFields, Equiv.coe_fn_mk] at hpayload
    rw [hpayload, Layout.option_length_some, Layout.bytes_length] at hlen
    exact (Layout.bytes_fits payload).mpr (by omega)
  · simp only [layerFields, Equiv.coe_fn_mk]
    omega

end

/-- **What is in a packet is shorter than it**, if the cipher only ever removes bytes. -/
theorem peelOnion_shorter {P : Primitives Key} {K : KeyLayout Key}
    (hopen : ∀ k n c m, P.aeadOpen k n c = some m → m.length ≤ c.length) {secret : Key}
    {packet inner : OnionPacket Key} {layer : OnionLayer Key}
    (h : peelOnion P K secret packet = .ok layer) (hinner : layer.innerPacket = some inner) :
    ((packetLayout K).bytes inner).length < ((packetLayout K).bytes packet).length := by
  unfold peelOnion at h
  split at h
  · cases h
  · next bytes hdec =>
    split at h
    · cases h
    · next layer' hlayer =>
      cases h
      have hin := inner_length_lt (K := K) hinner
      have hread := (layerLayout K).decode_length_le hlayer
      have hclear := hopen _ _ _ _ (decryptForMe_ok_iff.mp hdec)
      have hge := packet_length_ge (K := K) packet
      omega

/-- The hops peel one after the other: each with its secret, what the one before has handed on. A
    hop on the way reads the id of the next and its packet, the last one the payload. -/
inductive PeelsInOrder (P : Primitives Key) (K : KeyLayout Key) (payload : Bytes) :
    List Key → List (String × Key) → OnionPacket Key → Prop where
  | last (secret : Key) (hop : String × Key) (packet : OnionPacket Key) (layer : OnionLayer Key)
      (peel : peelOnion P K secret packet = .ok layer) (nextHop : layer.nextHop = none)
      (innerPacket : layer.innerPacket = none) (read : layer.payload = some payload) :
      PeelsInOrder P K payload [secret] [hop] packet
  | hop (secret : Key) (secrets : List Key) (hop next : String × Key) (rest : List (String × Key))
      (packet inner : OnionPacket Key) (layer : OnionLayer Key)
      (peel : peelOnion P K secret packet = .ok layer) (nextHop : layer.nextHop = some next.1)
      (innerPacket : layer.innerPacket = some inner) (read : layer.payload = none)
      (onward : PeelsInOrder P K payload secrets (next :: rest) inner) :
      PeelsInOrder P K payload (secret :: secrets) (hop :: next :: rest) packet

section

variable {P : Primitives Key} {K : KeyLayout Key} {draw : Nat → Key × Nonce}
  {route : List (String × Key)} {secrets : List Key} {payload : Bytes} {packet : OnionPacket Key}

/-- **A hop reads the layer it was given.** -/
theorem WrappedHop.peel (hP : P.Lawful)
    (hlimit : ∀ m, P.accepts m = true → m.length ≤ maxPlaintext) {secret : Key}
    {next : Option (String × OnionPacket Key)} {padding : Bytes}
    (h : WrappedHop P K (P.publicKey secret) payload next padding packet) :
    peelOnion P K secret packet = .ok (hopLayer payload next padding) := by
  obtain ⟨ephemeral, nonce, henc⟩ := h.sealed
  have hfits := layer_fits (hlimit _ (encryptForPeer_ok_iff.mp henc).1)
  simp only [peelOnion, decryptForMe_encryptForPeer hP henc, (layerLayout K).decode_bytes hfits]

/-- The packet for a hop is read off its own bytes. -/
theorem WrappedHop.decode (hgcm : P.Gcm) {pubkey : Key} {next : Option (String × OnionPacket Key)}
    {padding : Bytes} (h : WrappedHop P K pubkey payload next padding packet) :
    (packetLayout K).decode ((packetLayout K).bytes packet) = some packet := by
  obtain ⟨ephemeral, nonce, henc⟩ := h.sealed
  exact (packetLayout K).decode_bytes ((packet_fits packet).mpr (ciphertext_short hgcm henc))

theorem Wrapped.peels (hP : P.Lawful)
    (hlimit : ∀ m, P.accepts m = true → m.length ≤ maxPlaintext)
    (h : Wrapped P K payload route packet) (hkeys : route.map Prod.snd = secrets.map P.publicKey) :
    PeelsInOrder P K payload secrets route packet := by
  induction h generalizing secrets with
  | last hop padding packet hhop =>
    cases secrets with
    | nil => cases hkeys
    | cons secret secrets =>
      obtain ⟨hk, hnil⟩ := List.cons.inj hkeys
      cases List.map_eq_nil_iff.mp hnil.symm
      rw [hk] at hhop
      exact .last secret hop packet _ (hhop.peel hP hlimit) rfl rfl rfl
  | hop hop next rest inner padding packet _ hhop ih =>
    cases secrets with
    | nil => cases hkeys
    | cons secret secrets =>
      obtain ⟨hk, hrest⟩ := List.cons.inj hkeys
      rw [hk] at hhop
      exact .hop secret secrets hop next rest packet inner _ (hhop.peel hP hlimit) rfl rfl rfl
        (ih hrest)

/-- **Onion routes peel in order**, whatever the route: hops may come twice or share a key. -/
theorem peels_in_order (hP : P.Lawful)
    (hlimit : ∀ m, P.accepts m = true → m.length ≤ maxPlaintext)
    (hkeys : route.map Prod.snd = secrets.map P.publicKey)
    (h : wrapOnion P K draw route payload = .ok packet) :
    PeelsInOrder P K payload secrets route packet :=
  (wrapOnion_wrapped h).peels hP hlimit hkeys

end

/-! ## 5. Sizes -/

/-- The length of the layer for the first hop of a route, padding included. -/
def layerSize (payloadLen : Nat) : List (String × Key) → Nat
  | [] => 0
  | [_] => if payloadLen + 27 ≤ targetSize then targetSize - 8 else payloadLen + 19
  | _ :: next :: rest =>
    (Codec.utf8.enc next.1).length + 88 + layerSize payloadLen (next :: rest)

/-- The size of an encrypted layer. -/
def linkSize (K : KeyLayout Key) (packet : OnionPacket Key) : Nat :=
  ((payloadLayout K).bytes packet.layer).length

/-- What is seen on the links of a route: the packet for the first hop, and what each hop hands
    on. -/
def links (P : Primitives Key) (K : KeyLayout Key) : List Key → OnionPacket Key →
    List (OnionPacket Key)
  | [], _ => []
  | secret :: secrets, packet =>
    packet ::
      match peelOnion P K secret packet with
      | .ok { innerPacket := some inner, .. } => links P K secrets inner
      | _ => []

/-- The encrypted layer of a padded packet: 16 KB less the length of the padding, the tag, the
    ephemeral key, the nonce and the length of the ciphertext. -/
def fixedSize : Nat := targetSize - 8 + 16 + 52

theorem paddingFor_ok {n : Nat} {padding : Bytes} (h : paddingFor n = .ok padding) :
    n + 8 ≤ targetSize ∧ n + padding.length = targetSize - 8 ∨
      targetSize ≤ n ∧ padding = [] := by
  unfold paddingFor at h
  by_cases hlt : n < targetSize
  · rw [if_pos hlt] at h
    by_cases hroom : n + 8 ≤ targetSize
    · rw [if_pos hroom] at h
      cases h
      rw [List.length_replicate]
      exact .inl ⟨hroom, by omega⟩
    · rw [if_neg hroom] at h
      cases h
  · rw [if_neg hlt] at h
    cases h
    exact .inr ⟨by omega, rfl⟩

section

variable {P : Primitives Key} {K : KeyLayout Key} {draw : Nat → Key × Nonce}
  {route : List (String × Key)} {secrets : List Key} {payload : Bytes} {packet : OnionPacket Key}

theorem hopLayer_length_none (payload padding : Bytes) :
    ((layerLayout K).bytes (hopLayer payload none padding)).length =
      payload.length + 19 + padding.length := by
  simp only [layer_length, hopLayer, Layout.option_length_none, Layout.option_length_some,
    Layout.bytes_length]
  omega

theorem packet_length (hK : ∀ k, (K.bytes k).length = 32) (packet : OnionPacket Key) :
    ((packetLayout K).bytes packet).length = packet.layer.ciphertext.length + 53 := by
  simp only [packetLayout, Layout.record_bytes, packetFields, Equiv.coe_fn_mk, Layout.pair_length,
    payload_length hK, Layout.u8_length]

theorem hopLayer_length_some (hK : ∀ k, (K.bytes k).length = 32) (payload : Bytes) (id : String)
    (inner : OnionPacket Key) (padding : Bytes) :
    ((layerLayout K).bytes (hopLayer payload (some (id, inner)) padding)).length =
      (Codec.utf8.enc id).length + 72 + inner.layer.ciphertext.length + padding.length := by
  simp only [layer_length, hopLayer, Layout.option_length_none, Layout.option_length_some,
    Layout.string_length, packet_length hK]
  omega

theorem targetSize_le_layerSize (payloadLen : Nat) (hop : String × Key)
    (rest : List (String × Key)) : targetSize - 8 ≤ layerSize payloadLen (hop :: rest) := by
  induction rest generalizing hop with
  | nil =>
    unfold layerSize
    split <;> omega
  | cons next rest ih =>
    have := ih next
    unfold layerSize
    omega

/-- **The size of a wrapped packet.** -/
theorem Wrapped.ciphertext_length (hgcm : P.Gcm) (hK : ∀ k, (K.bytes k).length = 32)
    (h : Wrapped P K payload route packet) :
    packet.layer.ciphertext.length = layerSize payload.length route + 16 := by
  have hsealed : ∀ {pubkey : Key} {next : Option (String × OnionPacket Key)} {padding : Bytes}
      {packet : OnionPacket Key}, WrappedHop P K pubkey payload next padding packet →
      packet.layer.ciphertext.length =
        ((layerLayout K).bytes (hopLayer payload next padding)).length + 16 := by
    intro pubkey next padding packet hhop
    obtain ⟨ephemeral, nonce, henc⟩ := hhop.sealed
    rw [(encryptForPeer_ok_iff.mp henc).2]
    exact hgcm.seal_length ..
  induction h with
  | last hop padding packet hhop =>
    have hpad := paddingFor_ok hhop.padded
    rw [hsealed hhop, hopLayer_length_none]
    rw [hopLayer_length_none, List.length_nil] at hpad
    rcases hpad with ⟨hroom, hlen⟩ | ⟨hlong, rfl⟩
    · rw [layerSize, if_pos (by omega)]
      omega
    · rw [layerSize, if_neg (by omega), List.length_nil]
  | hop hop next rest inner padding packet _ hhop ih =>
    have hpad := paddingFor_ok hhop.padded
    have hge := targetSize_le_layerSize payload.length next rest
    rw [hsealed hhop, hopLayer_length_some hK, ih]
    rw [hopLayer_length_some hK, ih, List.length_nil] at hpad
    rcases hpad with ⟨hroom, -⟩ | ⟨-, rfl⟩
    · omega
    · rw [layerSize, List.length_nil]
      omega

theorem Wrapped.linkSize_eq (hgcm : P.Gcm) (hK : ∀ k, (K.bytes k).length = 32)
    (h : Wrapped P K payload route packet) :
    linkSize K packet = layerSize payload.length route + 68 := by
  rw [linkSize, payload_length hK, h.ciphertext_length hgcm hK]

theorem paddingFor_fits {n : Nat} (h : n + 8 ≤ targetSize) :
    ∃ padding, paddingFor n = .ok padding ∧ n + padding.length = targetSize - 8 := by
  have hlt : n < targetSize := by omega
  refine ⟨List.replicate (targetSize - n - 8) 0, by rw [paddingFor, if_pos hlt, if_pos h], ?_⟩
  rw [List.length_replicate]
  omega

theorem paddingFor_long {n : Nat} (h : targetSize ≤ n) : paddingFor n = .ok [] :=
  if_neg (Nat.not_lt.mpr h)

/-- A round that can be padded and whose layer the cipher takes. -/
theorem wrapHop_of (draw : Nat → Key × Nonce) (next : Option (String × OnionPacket Key))
    (hop : String × Key) {i : Nat} {padding : Bytes}
    (hnext : (route[i + 1]?).map Prod.fst = next.map Prod.fst)
    (hpad : paddingFor ((layerLayout K).bytes (hopLayer payload next [])).length = .ok padding)
    (hacc : P.accepts ((layerLayout K).bytes (hopLayer payload next padding)) = true) :
    ∃ packet, wrapHop P K draw route
      (next.map Prod.snd, if next.isSome then none else some payload) (hop, i) =
        .ok (some packet, none) := by
  simp only [wrapHop, hopLayer_eq hnext, hpad, encryptForPeer, Primitives.encrypt_of_accepts hacc]
  exact ⟨_, rfl⟩

theorem wrapFrom_ok (draw : Nat → Key × Nonce) (hgcm : P.Gcm) (hK : ∀ k, (K.bytes k).length = 32)
    (hpayload : payload.length + 27 ≤ targetSize ∨ targetSize ≤ payload.length + 19)
    {hops : List (String × Key)} {i : Nat} (hdrop : route.drop i = hops) (hne : hops ≠ [])
    (hmax : layerSize payload.length hops ≤ maxPlaintext) :
    ∃ packet, wrapFrom P K draw route payload i hops = .ok (some packet, none) := by
  induction hops generalizing i with
  | nil => exact absurd rfl hne
  | cons hop rest ih =>
    have hrest : route.drop (i + 1) = rest := by
      rw [← List.drop_drop, hdrop, List.drop_one, List.tail_cons]
    have hhead : route[i + 1]? = rest.head? := by rw [← hrest, List.head?_drop]
    cases rest with
    | nil =>
      have hlen := fun padding => hopLayer_length_none (K := K) payload padding
      obtain ⟨padding, hpad, hsize⟩ : ∃ padding, paddingFor
          ((layerLayout K).bytes (hopLayer payload none [])).length = .ok padding ∧
          payload.length + 19 + padding.length = layerSize payload.length [hop] := by
        rw [hlen, List.length_nil]
        rcases hpayload with hshort | hlong
        · obtain ⟨padding, hpad, hsum⟩ := paddingFor_fits (n := payload.length + 19) (by omega)
          exact ⟨padding, hpad, by rw [hsum, layerSize, if_pos hshort]⟩
        · exact ⟨[], paddingFor_long hlong, by rw [layerSize, if_neg (by omega), List.length_nil]⟩
      obtain ⟨packet, hhop⟩ := wrapHop_of draw none hop (by rw [hhead]; rfl) hpad
        ((hgcm.accepts_iff _).mpr (by rw [hlen, hsize]; exact hmax))
      exact ⟨packet, hhop⟩
    | cons next rest =>
      have hge := targetSize_le_layerSize payload.length next rest
      obtain ⟨inner, hinner⟩ := ih hrest (List.cons_ne_nil _ _) (by rw [layerSize] at hmax; omega)
      obtain ⟨inner', heq, hwrapped⟩ := wrapFrom_wrapped hrest (List.cons_ne_nil _ _) hinner
      cases heq
      have hlen := hopLayer_length_some hK payload next.1 inner []
      rw [hwrapped.ciphertext_length hgcm hK, List.length_nil] at hlen
      obtain ⟨packet, hhop⟩ := wrapHop_of draw (some (next.1, inner)) hop
        (by rw [hhead]; rfl) (paddingFor_long (by rw [hlen]; omega))
        ((hgcm.accepts_iff _).mpr (by rw [hlen]; rw [layerSize] at hmax; omega))
      rw [wrapFrom, hinner]
      exact ⟨packet, hhop⟩

/-- **`wrap_onion` returns a packet** unless the subtraction of the padding goes below zero or a
    layer is longer than the cipher takes. -/
theorem wrapOnion_ok (draw : Nat → Key × Nonce) (hgcm : P.Gcm) (hK : ∀ k, (K.bytes k).length = 32)
    (hne : route ≠ [])
    (hpayload : payload.length + 27 ≤ targetSize ∨ targetSize ≤ payload.length + 19)
    (hmax : layerSize payload.length route ≤ maxPlaintext) :
    ∃ packet, wrapOnion P K draw route payload = .ok packet := by
  obtain ⟨packet, h⟩ := wrapFrom_ok draw hgcm hK hpayload (i := 0) rfl hne hmax
  refine ⟨packet, ?_⟩
  simp only [wrapOnion, foldlM_eq_wrapFrom]
  rw [List.drop_zero] at h
  rw [h]

/-- The sizes along a route. -/
def linkSizes (payloadLen : Nat) : List (String × Key) → List Nat
  | [] => []
  | hop :: rest => (layerSize payloadLen (hop :: rest) + 68) :: linkSizes payloadLen rest

/-- **The size of every link of a route.** -/
theorem Wrapped.links_sizes (hP : P.Lawful) (hgcm : P.Gcm) (hK : ∀ k, (K.bytes k).length = 32)
    (h : Wrapped P K payload route packet)
    (hkeys : route.map Prod.snd = secrets.map P.publicKey) :
    (links P K secrets packet).map (linkSize K) = linkSizes payload.length route := by
  have hlimit : ∀ m, P.accepts m = true → m.length ≤ maxPlaintext :=
    fun m => (hgcm.accepts_iff m).mp
  induction h generalizing secrets with
  | last hop padding packet hhop =>
    cases secrets with
    | nil => cases hkeys
    | cons secret secrets =>
      obtain ⟨hk, hnil⟩ := List.cons.inj hkeys
      cases List.map_eq_nil_iff.mp hnil.symm
      have hsize := (Wrapped.last hop padding packet hhop).linkSize_eq hgcm hK
      rw [hk] at hhop
      rw [links, hhop.peel hP hlimit]
      simp only [hopLayer, List.map_cons, List.map_nil, hsize]
      rfl
  | hop hop next rest inner padding packet hi hhop ih =>
    cases secrets with
    | nil => cases hkeys
    | cons secret secrets =>
      obtain ⟨hk, hrest⟩ := List.cons.inj hkeys
      have hsize := (Wrapped.hop hop next rest inner padding packet hi hhop).linkSize_eq hgcm hK
      rw [hk] at hhop
      rw [links, hhop.peel hP hlimit]
      simp only [hopLayer, List.map_cons, hsize, ih hrest]
      rfl

/-- **Which packets keep the fixed size**: those for one hop with a payload that leaves room for the
    padding. Every further hop wraps a layer that is too long to be padded. -/
theorem fixed_size_iff (hP : P.Lawful) (hgcm : P.Gcm) (hK : ∀ k, (K.bytes k).length = 32)
    (hkeys : route.map Prod.snd = secrets.map P.publicKey)
    (h : wrapOnion P K draw route payload = .ok packet) :
    (∀ link ∈ links P K secrets packet, linkSize K link = fixedSize) ↔
      route.length = 1 ∧ payload.length + 27 ≤ targetSize := by
  have hwrapped := wrapOnion_wrapped h
  rw [← List.forall_mem_map (f := linkSize K) (P := fun n => n = fixedSize),
    hwrapped.links_sizes hP hgcm hK hkeys]
  cases hwrapped with
  | last hop padding packet hhop =>
    rw [linkSizes, linkSizes, List.forall_mem_singleton, layerSize, fixedSize]
    by_cases hroom : payload.length + 27 ≤ targetSize
    · rw [if_pos hroom]
      simp [hroom]
    · rw [if_neg hroom]
      simp only [hroom, and_false, iff_false]
      omega
  | hop hop next rest inner padding packet hi hhop =>
    have hge := targetSize_le_layerSize payload.length next rest
    constructor
    · intro hall
      have hfirst := hall _ List.mem_cons_self
      rw [layerSize, fixedSize] at hfirst
      omega
    · intro hx
      obtain ⟨hone, -⟩ := hx
      cases hone

end

/-! ## 6. Two routes -/

/-- A secret of 32 equal bytes. -/
def secretOf (b : UInt8) : Key32 := Vector.replicate 32 b

/-- Ephemeral secrets by the index of the hop. -/
def sampleDraw (i : Nat) : Key32 × Nonce := (secretOf (UInt8.ofNat (i + 10)), Vector.replicate 12 0)

/-- Three hops, the first of which comes again at the end. -/
def sampleRoute : List (String × Key32) :=
  [("a", secretOf 1), ("b", secretOf 2), ("a", secretOf 1)]

def sampleSecrets : List Key32 := [secretOf 1, secretOf 2, secretOf 1]

theorem sampleRoute_wraps : ∃ packet, wrapOnion plain32 key32 sampleDraw sampleRoute [1, 2, 3] =
    .ok packet :=
  wrapOnion_ok sampleDraw plain32_gcm key32_length (by decide) (by decide) (by decide)

theorem peels_in_order_sample : ∃ packet,
    wrapOnion plain32 key32 sampleDraw sampleRoute [1, 2, 3] = .ok packet ∧
      PeelsInOrder plain32 key32 [1, 2, 3] sampleSecrets sampleRoute packet := by
  obtain ⟨packet, h⟩ := sampleRoute_wraps
  exact ⟨packet, h, peels_in_order plain32_lawful (fun m => (plain32_gcm.accepts_iff m).mp) rfl h⟩

theorem fixed_size_iff_sample : ∃ packet,
    wrapOnion plain32 key32 sampleDraw [("a", secretOf 1)] [1, 2, 3] = .ok packet ∧
      ∀ link ∈ links plain32 key32 [secretOf 1] packet, linkSize key32 link = fixedSize := by
  have hok : ∃ packet, wrapOnion plain32 key32 sampleDraw [("a", secretOf 1)] [1, 2, 3] =
      .ok packet :=
    wrapOnion_ok sampleDraw plain32_gcm key32_length (by decide) (by decide) (by decide)
  obtain ⟨packet, h⟩ := hok
  exact ⟨packet, h, (fixed_size_iff plain32_lawful plain32_gcm key32_length rfl h).mpr
    ⟨rfl, by decide⟩⟩

/-- **No size is that of every link**: along a route each packet is longer than the one inside
    it. -/
theorem links_differ : ∃ packet,
    wrapOnion plain32 key32 sampleDraw sampleRoute [1, 2, 3] = .ok packet ∧
      ¬ ∃ size, ∀ link ∈ links plain32 key32 sampleSecrets packet, linkSize key32 link = size := by
  obtain ⟨packet, h⟩ := sampleRoute_wraps
  refine ⟨packet, h, ?_⟩
  intro hx
  obtain ⟨size, hall⟩ := hx
  rw [← List.forall_mem_map (f := linkSize key32) (P := fun n => n = size),
    (wrapOnion_wrapped h).links_sizes plain32_lawful plain32_gcm key32_length rfl] at hall
  have hfirst : layerSize 3 sampleRoute + 68 = size := hall _ List.mem_cons_self
  have hsecond : layerSize 3 sampleRoute.tail + 68 = size :=
    hall _ (List.mem_cons_of_mem _ List.mem_cons_self)
  have hlonger : layerSize 3 sampleRoute.tail < layerSize 3 sampleRoute := by decide
  omega

end AlterChat.Onion
