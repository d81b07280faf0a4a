import AlterChat.Core.Onion
import AlterChat.Lib.Deduction

/-!
# What an onion tells the hops and the network

In the symbolic model, with an adversary who has the secrets of some hops, sees the packets on some
links of the route, and opens, seals and serialises like everyone else.

* §1 `OnionRule` -- what can be made of what; `Opened` -- the layers such an adversary gets to;
* §2 `route_links` -- what is on the links of a route;
* §3 `opened_derives` -- the layers it gets to are read; `Harmless`, `harmless_closed` -- no other
  is;
* §4 `onion_learned_iff` -- the ids of hops and the payload are learned exactly there; §5 two hops.
-/

namespace AlterChat.Onion

open Lib Crypto

/-! ## 1. The adversary -/

/-- What one can know: keys, ciphertexts, ids of peers, payloads. -/
inductive Item where
  | key (k : Sym)
  | cipher (c : Bytes)
  | name (id : String)
  | content (b : Bytes)

/-- The parts of a packet; its nonce and its length are no secret. -/
def packetParts (packet : OnionPacket Sym) : List Item :=
  [.key packet.layer.ephemeralPubkey, .cipher packet.layer.ciphertext]

/-- The parts of a layer; its padding is zero bytes. -/
def layerParts (layer : OnionLayer Sym) : List Item :=
  layer.nextHop.toList.map .name ++ layer.payload.toList.map .content ++
    layer.innerPacket.toList.flatMap packetParts

inductive OnionRule (P : Primitives Sym) (K : KeyLayout Sym) : List Item → Item → Prop where
  | keys (ks : List Sym) (k : Sym) (h : SymRule (ks.map .key) (.key k)) :
      OnionRule P K (ks.map .key) (.key k)
  /-- A layer of one's own making, under any key one has. -/
  | sealed (k : Sym) (n : Nonce) (layer : OnionLayer Sym)
      (h : P.accepts ((layerLayout K).bytes layer) = true) :
      OnionRule P K (.key k :: layerParts layer)
        (.cipher (P.aeadSeal k n ((layerLayout K).bytes layer)))
  | opened (k : Sym) (n : Nonce) (c bytes : Bytes) (layer : OnionLayer Sym) (part : Item)
      (hopen : P.aeadOpen k n c = some bytes) (hread : (layerLayout K).decode bytes = some layer)
      (hpart : part ∈ layerParts layer) : OnionRule P K [.key k, .cipher c] part

/-- The adversary has the secrets `C`, all public keys, some ids and payloads, and the packets on
    the links `J`. -/
inductive Observed (C : Set Nat) (ids : Set String) (payloads : Set Bytes)
    (seen : List (OnionPacket Sym)) (J : Set Nat) : Item → Prop where
  | secret (s : Nat) (h : s ∈ C) : Observed C ids payloads seen J (.key (.secret s))
  | point (s : Nat) : Observed C ids payloads seen J (.key (.point s))
  | name (id : String) (h : id ∈ ids) : Observed C ids payloads seen J (.name id)
  | content (b : Bytes) (h : b ∈ payloads) : Observed C ids payloads seen J (.content b)
  | link (j : Nat) (hj : j ∈ J) (packet : OnionPacket Sym) (h : seen[j]? = some packet)
      (part : Item)
      (hpart : part ∈ packetParts packet) : Observed C ids payloads seen J part

/-- **The layers that are opened**: hop `i` and all hops before it, up to a link that is seen, are
    the adversary's. -/
def Opened (C : Set Nat) (J : Set Nat) (hops : List Nat) (i : Nat) : Prop :=
  ∃ j ∈ J, j ≤ i ∧ ∀ m, j ≤ m → m ≤ i → ∃ s ∈ C, hops[m]? = some s

/-- The packet for hop `i` is there to be opened. -/
def Visible (C : Set Nat) (J : Set Nat) (hops : List Nat) (i : Nat) : Prop :=
  i ∈ J ∨ ∃ m, i = m + 1 ∧ Opened C J hops m

section

variable {C J : Set Nat} {hops : List Nat}

theorem Visible.open {i s : Nat} (h : Visible C J hops i) (hs : s ∈ C) (hi : hops[i]? = some s) :
    Opened C J hops i := by
  rcases h with hj | ⟨m, rfl, j, hj, hle, hall⟩
  · refine ⟨i, hj, le_rfl, fun m hm hm' => ?_⟩
    rw [Nat.le_antisymm hm' hm]
    exact ⟨s, hs, hi⟩
  · refine ⟨j, hj, Nat.le_succ_of_le hle, fun m' hm hm' => ?_⟩
    rcases Nat.lt_or_eq_of_le hm' with hlt | rfl
    · exact hall m' hm (Nat.le_of_lt_succ hlt)
    · exact ⟨s, hs, hi⟩

theorem Opened.visible {i : Nat} (h : Opened C J hops i) : Visible C J hops i := by
  obtain ⟨j, hj, hle, hall⟩ := h
  rcases Nat.lt_or_eq_of_le hle with hlt | rfl
  · refine .inr ⟨i - 1, by omega, j, hj, by omega, fun m hm hm' => hall m hm (by omega)⟩
  · exact .inl hj

theorem Opened.secret {i : Nat} (h : Opened C J hops i) : ∃ s ∈ C, hops[i]? = some s := by
  obtain ⟨j, -, hle, hall⟩ := h
  exact hall i hle le_rfl

end

/-! ## 2. The links of a route -/

section

variable {P : Primitives Sym} {K : KeyLayout Sym} {draw : Nat → Sym × Nonce}
  {route : List (String × Sym)} {hops : List Nat} {payload : Bytes} {packet : OnionPacket Sym}

/-- What the hop at `i` is told of the next one. -/
def nextOf (route : List (String × Sym)) (seen : List (OnionPacket Sym)) (i : Nat) :
    Option (String × OnionPacket Sym) :=
  match route[i + 1]?, seen[i + 1]? with
  | some hop, some inner => some (hop.1, inner)
  | _, _ => none

/-- A hop reads its layer, and the links behind it are those of the packet inside. -/
theorem WrappedHop.links_eq (hP : P.Terms) {s : Nat} {pubkey : Sym} (hk : pubkey = .point s)
    {next : Option (String × OnionPacket Sym)} {padding : Bytes}
    (h : WrappedHop P K pubkey payload next padding packet) (secrets : List Sym) :
    links P K (.secret s :: secrets) packet =
      packet :: (next.map fun n => links P K secrets n.2).getD [] := by
  have hpub : pubkey = P.publicKey (.secret s) := by
    rw [hk, hP.publicKey]
    rfl
  subst hpub
  have hpeel := h.peel hP.lawful hP.limit
  rw [links, hpeel]
  cases next <;> rfl

/-- **Every link carries the packet wrapped for its hop.** -/
theorem Wrapped.links_wrapped (hP : P.Terms) (h : Wrapped P K payload route packet)
    (hkeys : route.map Prod.snd = hops.map Sym.point) :
    (links P K (hops.map Sym.secret) packet).length = route.length ∧
    ∀ i p, (links P K (hops.map Sym.secret) packet)[i]? = some p → ∃ hop, route[i]? = some hop ∧
      ∃ padding, WrappedHop P K hop.2 payload
        (nextOf route (links P K (hops.map Sym.secret) packet) i) padding p := by
  induction h generalizing hops with
  | last hop padding packet hhop =>
    cases hops with
    | nil => cases hkeys
    | cons s hops =>
      obtain ⟨hk, hnil⟩ := List.cons.inj hkeys
      cases List.map_eq_nil_iff.mp hnil.symm
      rw [List.map_cons, List.map_nil, hhop.links_eq hP hk]
      refine ⟨rfl, fun i p hp => ?_⟩
      cases i with
      | succ i => cases hp
      | zero =>
        cases hp
        exact ⟨hop, rfl, padding, hhop⟩
  | hop hop next rest inner padding packet hi hhop ih =>
    cases hops with
    | nil => cases hkeys
    | cons s hops =>
      obtain ⟨hk, hrest⟩ := List.cons.inj hkeys
      obtain ⟨hlen, hall⟩ := ih hrest
      rw [List.map_cons, hhop.links_eq hP hk, Option.map_some, Option.getD_some]
      refine ⟨congrArg Nat.succ hlen, fun i p hp => ?_⟩
      cases i with
      | zero =>
        cases hp
        refine ⟨hop, rfl, padding, ?_⟩
        have hfirst : (links P K (hops.map Sym.secret) inner)[0]? = some inner := by
          cases hops with
          | nil => cases hrest
          | cons s' hops => rfl
        have hnext : nextOf (hop :: next :: rest)
            (packet :: links P K (hops.map Sym.secret) inner) 0 = some (next.1, inner) := by
          simp only [nextOf, List.getElem?_cons_succ, List.getElem?_cons_zero, hfirst]
        rw [hnext]
        exact hhop
      | succ i => exact hall i p hp

/-- The packet for a hop has the public key of what was drawn for it. -/
theorem wrapHop_ephemeral (hP : P.Terms) {state : Option (OnionPacket Sym) × Option Bytes}
    {hop : String × Sym} {i : Nat} {state' : Option (OnionPacket Sym) × Option Bytes}
    (h : wrapHop P K draw route state (hop, i) = .ok state') :
    ∀ p ∈ state'.1, p.layer.ephemeralPubkey = Sym.publicKey (draw i).1 := by
  simp only [wrapHop] at h
  split at h
  · cases h
  · split at h
    · cases h
    · next encrypted henc =>
      cases h
      intro p hp
      cases hp
      rw [(encryptForPeer_ok_iff.mp henc).2, hP.publicKey]

theorem wrapFrom_ephemeral (hP : P.Terms) {rest : List (String × Sym)} {ss : List Nat} {i : Nat}
    {state : Option (OnionPacket Sym) × Option Bytes} (hdrop : route.drop i = rest)
    (hkeys : rest.map Prod.snd = ss.map Sym.point)
    (h : wrapFrom P K draw route payload i rest = .ok state) :
    ∀ p ∈ state.1, ∀ m q, (links P K (ss.map Sym.secret) p)[m]? = some q →
      q.layer.ephemeralPubkey = Sym.publicKey (draw (i + m)).1 := by
  induction rest generalizing i ss state with
  | nil =>
    cases h
    exact fun p hp => absurd hp (Option.not_mem_none p)
  | cons hop rest ih =>
    cases ss with
    | nil => cases hkeys
    | cons s ss =>
      obtain ⟨hk, hrest⟩ := List.cons.inj hkeys
      have hdrop' : route.drop (i + 1) = rest := by
        rw [← List.drop_drop, hdrop, List.drop_one, List.tail_cons]
      have hhead : route[i + 1]? = rest.head? := by rw [← hdrop', List.head?_drop]
      unfold wrapFrom at h
      split at h
      · cases h
      · next inner hinner =>
        -- the state before this round, as the next hop and its packet
        obtain ⟨next, hnext, hstate⟩ : ∃ next : Option (String × OnionPacket Sym),
            (route[i + 1]?).map Prod.fst = next.map Prod.fst ∧
              inner = (next.map Prod.snd, if next.isSome then none else some payload) := by
          cases rest with
          | nil =>
            cases hinner
            exact ⟨none, by rw [hhead]; rfl, rfl⟩
          | cons hop' rest =>
            obtain ⟨q, rfl, -⟩ := wrapFrom_wrapped hdrop' (List.cons_ne_nil _ _) hinner
            exact ⟨some (hop'.1, q), by rw [hhead]; rfl, rfl⟩
        subst hstate
        obtain ⟨padding, packet, rfl, hhop⟩ := wrapHop_ok next hnext h
        intro p hp m q hq
        cases hp
        rw [List.map_cons, hhop.links_eq hP hk] at hq
        cases m with
        | zero =>
          cases hq
          exact wrapHop_ephemeral hP h packet rfl
        | succ m =>
          cases next with
          | none => cases hq
          | some n =>
            rw [Nat.add_succ, ← Nat.succ_add]
            exact ih hdrop' hrest hinner n.2 rfl m q hq

end

/-! ## 3. What is opened, and what is not -/

section

variable {P : Primitives Sym} {K : KeyLayout Sym} {draw : Nat → Sym × Nonce}
  {route : List (String × Sym)} {hops : List Nat} {payload : Bytes} {packet : OnionPacket Sym}
  {C J : Set Nat} {ids : Set String} {payloads : Set Bytes}

/-- A packet for the hop with secret `s`, sealed with a secret that is not the adversary's. -/
structure SealedLink (P : Primitives Sym) (K : KeyLayout Sym) (C : Set Nat) (s : Nat)
    (layer : OnionLayer Sym) (p : OnionPacket Sym) : Prop where
  accepted : P.accepts ((layerLayout K).bytes layer) = true
  sealed : ∃ e, e ∉ C ∧ p.layer.ephemeralPubkey = .point e ∧
    p.layer.ciphertext = P.aeadSeal ((Sym.secret e).diffieHellman (.point s)) p.layer.nonce
      ((layerLayout K).bytes layer)

/-- **Whoever opens it knows the secret of the hop**, and reads the layer. -/
theorem SealedLink.opened (hP : P.Terms) {s : Nat} {layer layer' : OnionLayer Sym}
    {p : OnionPacket Sym} (h : SealedLink P K C s layer p) {k : Sym} (hk : ¬ k.Hidden C) {n : Nonce}
    {bytes : Bytes} (hopen : P.aeadOpen k n p.layer.ciphertext = some bytes)
    (hread : (layerLayout K).decode bytes = some layer') : s ∈ C ∧ layer' = layer := by
  obtain ⟨e, he, -, hcipher⟩ := h.sealed
  rw [hcipher] at hopen
  obtain ⟨rfl, rfl⟩ := hP.opened _ _ _ _ _ _ hopen
  rw [(layerLayout K).decode_bytes (layer_fits (hP.limit _ h.accepted))] at hread
  refine ⟨Classical.byContradiction fun hs => hk (Sym.hidden_diffieHellman.mpr ⟨he, hs⟩), ?_⟩
  exact (Option.some.inj hread).symm

/-- **Whoever has the secret of the hop reads the layer.** -/
theorem SealedLink.derives (hP : P.Terms) {s : Nat} {layer : OnionLayer Sym} {p : OnionPacket Sym}
    (h : SealedLink P K C s layer p) {known : Set Item}
    (hs : Derives (OnionRule P K) known (.key (.secret s)))
    (hp : ∀ part ∈ packetParts p, Derives (OnionRule P K) known part) :
    ∀ part ∈ layerParts layer, Derives (OnionRule P K) known part := by
  intro part hpart
  obtain ⟨e, -, hpub, hcipher⟩ := h.sealed
  have hpoint : Derives (OnionRule P K) known (.key (.point e)) :=
    hpub ▸ hp _ List.mem_cons_self
  have hkey : Derives (OnionRule P K) known (.key ((Sym.secret s).diffieHellman (.point e))) :=
    .two (.keys [.secret s, .point e] _ (.diffieHellman _ _)) hs hpoint
  have hshared : (Sym.secret s).diffieHellman (.point e) =
      (Sym.secret e).diffieHellman (.point s) :=
    symbolic_lawful.dh_comm (.secret s) (.secret e)
  have hopen : P.aeadOpen ((Sym.secret s).diffieHellman (.point e)) p.layer.nonce
      p.layer.ciphertext = some ((layerLayout K).bytes layer) := by
    rw [hcipher, hshared]
    exact hP.open_seal ..
  have hread := (layerLayout K).decode_bytes (layer_fits (hP.limit _ h.accepted))
  exact .two (.opened _ _ _ _ layer part hopen hread hpart) hkey
    (hp _ (List.mem_cons_of_mem _ List.mem_cons_self))

/-- The links of a route, sealed for its hops with secrets that are not the adversary's. -/
structure HonestLinks (P : Primitives Sym) (K : KeyLayout Sym) (C : Set Nat)
    (route : List (String × Sym)) (hops : List Nat) (payload : Bytes)
    (seen : List (OnionPacket Sym)) : Prop where
  nonempty : hops ≠ []
  routed : route.length = hops.length
  length : seen.length = hops.length
  sealed : ∀ i s p, hops[i]? = some s → seen[i]? = some p →
    ∃ padding, SealedLink P K C s (hopLayer payload (nextOf route seen i) padding) p

theorem honestLinks_of_wrap (hP : P.Terms) (hkeys : route.map Prod.snd = hops.map Sym.point)
    (hfresh : ∀ i, ∃ e, e ∉ C ∧ (draw i).1 = .secret e)
    (h : wrapOnion P K draw route payload = .ok packet) :
    HonestLinks P K C route hops payload (links P K (hops.map Sym.secret) packet) := by
  have hw := wrapOnion_wrapped h
  obtain ⟨hlen, hall⟩ := hw.links_wrapped hP hkeys
  have hroute : route.length = hops.length := by
    have := congrArg List.length hkeys
    rwa [List.length_map, List.length_map] at this
  refine ⟨fun hnil => ?_, hroute, hlen.trans hroute, fun i s p hs hp => ?_⟩
  · rw [hnil] at hroute
    rw [List.length_eq_zero_iff.mp hroute] at hw
    cases hw
  · obtain ⟨hop, hhop, padding, hpad, ephemeral, nonce, henc⟩ := hall i p hp
    obtain ⟨hacc, hlayer⟩ := encryptForPeer_ok_iff.mp henc
    have hpub : hop.2 = .point s := by
      have hi := congrArg (·[i]?) hkeys
      simp only [List.getElem?_map, hhop, hs, Option.map_some] at hi
      exact Option.some.inj hi
    -- the key pair of the packet is the one that was drawn
    obtain ⟨e, he, hdraw⟩ := hfresh i
    have heph : p.layer.ephemeralPubkey = .point e := by
      simp only [wrapOnion, foldlM_eq_wrapFrom] at h
      split at h
      · cases h
      · cases h
      · next q st hfrom =>
        cases h
        have hdrawn := wrapFrom_ephemeral hP (i := 0) rfl hkeys hfrom _ rfl i p hp
        rw [Nat.zero_add, hdraw] at hdrawn
        exact hdrawn
    have hsecret : ephemeral = .secret e := by
      rw [hlayer, hP.publicKey] at heph
      change Sym.publicKey ephemeral = .point e at heph
      cases ephemeral <;> cases heph
      rfl
    subst hsecret
    refine ⟨padding, hacc, e, he, heph, ?_⟩
    rw [hlayer, hpub, hP.diffieHellman]

variable {seen : List (OnionPacket Sym)}

/-- A packet that is there, and the secret of its hop. -/
theorem HonestLinks.read (hP : P.Terms) (hseen : HonestLinks P K C route hops payload seen)
    {i : Nat} {known : Set Item} (hknown : ∀ s ∈ C, Item.key (.secret s) ∈ known)
    (h : Opened C J hops i)
    (hp : ∀ p, seen[i]? = some p → ∀ part ∈ packetParts p, Derives (OnionRule P K) known part) :
    ∃ padding, ∀ part ∈ layerParts (hopLayer payload (nextOf route seen i) padding),
      Derives (OnionRule P K) known part := by
  obtain ⟨s, hs, hi⟩ := h.secret
  have hlt := (List.getElem?_eq_some_iff.mp hi).1
  have hseen_i := List.getElem?_eq_getElem (hseen.length ▸ hlt)
  obtain ⟨padding, hlink⟩ := hseen.sealed i s _ hi hseen_i
  exact ⟨padding, hlink.derives hP (.known _ (hknown s hs)) (hp _ hseen_i)⟩

/-- **The layers that are opened are read.** -/
theorem opened_derives (hP : P.Terms) (hseen : HonestLinks P K C route hops payload seen) {i : Nat}
    (h : Opened C J hops i) :
    ∃ padding, ∀ part ∈ layerParts (hopLayer payload (nextOf route seen i) padding),
      Derives (OnionRule P K) {t | Observed C ids payloads seen J t} part := by
  have hlink : ∀ i ∈ J, ∀ p, seen[i]? = some p → ∀ part ∈ packetParts p,
      Derives (OnionRule P K) {t | Observed C ids payloads seen J t} part :=
    fun i hj p hp part hpart => .known _ (.link i hj p hp part hpart)
  induction i with
  | zero =>
    rcases h.visible with hj | ⟨m, hm, -⟩
    · exact hseen.read hP .secret h (hlink 0 hj)
    · cases hm
  | succ i ih =>
    refine hseen.read hP .secret h fun p hp part hpart => ?_
    rcases h.visible with hj | ⟨m, hm, hopen⟩
    · exact hlink _ hj p hp part hpart
    · obtain rfl : i = m := Nat.succ.inj hm
      obtain ⟨padding, hparts⟩ := ih hopen
      have hlt : i + 1 < route.length := by
        rw [hseen.routed, ← hseen.length]
        exact (List.getElem?_eq_some_iff.mp hp).1
      have hnext : nextOf route seen i = some (route[i + 1].1, p) := by
        simp only [nextOf, hp, List.getElem?_eq_getElem hlt]
      refine hparts part ?_
      rw [hnext]
      exact List.mem_append_right _ (List.mem_flatMap.mpr ⟨p, List.mem_singleton_self p, hpart⟩)

/-- **What the adversary can have**: the keys it can make, the parts of the layers that are opened,
    the packets that are visible, and layers of its own making. -/
inductive Harmless (P : Primitives Sym) (K : KeyLayout Sym) (C J : Set Nat) (ids : Set String)
    (payloads : Set Bytes) (route : List (String × Sym)) (hops : List Nat) (payload : Bytes)
    (seen : List (OnionPacket Sym)) : Item → Prop where
  | key (k : Sym) (h : ¬ k.Hidden C) : Harmless P K C J ids payloads route hops payload
      seen (.key k)
  | name (id : String)
      (h : id ∈ ids ∨ ∃ i, Opened C J hops i ∧ (route[i + 1]?).map Prod.fst = some id) :
      Harmless P K C J ids payloads route hops payload seen (.name id)
  | content (b : Bytes) (h : b ∈ payloads ∨ b = payload ∧ Opened C J hops (hops.length - 1)) :
      Harmless P K C J ids payloads route hops payload seen (.content b)
  | link (i : Nat) (p : OnionPacket Sym) (hp : seen[i]? = some p) (h : Visible C J hops i) :
      Harmless P K C J ids payloads route hops payload seen (.cipher p.layer.ciphertext)
  | own (k : Sym) (n : Nonce) (layer : OnionLayer Sym)
      (hacc : P.accepts ((layerLayout K).bytes layer) = true)
      (h : ∀ part ∈ layerParts layer, Harmless P K C J ids payloads route hops payload seen part) :
      Harmless P K C J ids payloads route hops payload seen
        (.cipher (P.aeadSeal k n ((layerLayout K).bytes layer)))

/-- **A layer that is opened has nothing else in it.** -/
theorem harmless_layer (hseen : HonestLinks P K C route hops payload seen) {i : Nat}
    (h : Opened C J hops i) (padding : Bytes) :
    ∀ part ∈ layerParts (hopLayer payload (nextOf route seen i) padding),
      Harmless P K C J ids payloads route hops payload seen part := by
  intro part hpart
  have hlt : i < hops.length := by
    obtain ⟨s, -, hi⟩ := h.secret
    exact (List.getElem?_eq_some_iff.mp hi).1
  unfold nextOf at hpart
  split at hpart
  · next hop inner hhop hinner =>
    have hi : i + 1 < hops.length := hseen.length ▸ (List.getElem?_eq_some_iff.mp hinner).1
    obtain ⟨s, hs⟩ : ∃ s, hops[i + 1]? = some s := ⟨_, List.getElem?_eq_getElem hi⟩
    obtain ⟨-, -, e, -, hpub, -⟩ := hseen.sealed _ s inner hs hinner
    simp only [hopLayer, layerParts, Option.toList_some, Option.toList_none, List.map_cons,
      List.map_nil, List.append_nil, List.flatMap_singleton, List.cons_append, List.nil_append,
      packetParts, hpub, List.mem_cons, List.not_mem_nil, or_false] at hpart
    rcases hpart with rfl | rfl | rfl
    · exact .name _ (.inr ⟨i, h, by rw [hhop]; rfl⟩)
    · exact .key _ (Sym.not_hidden_publicKey (.secret e))
    · exact .link (i + 1) inner hinner (.inr ⟨i, rfl, h⟩)
  · next hnone =>
    have hlast : i = hops.length - 1 := by
      by_contra hne
      have hi : i + 1 < hops.length := by omega
      exact hnone _ _ (List.getElem?_eq_getElem (hseen.routed ▸ hi))
        (List.getElem?_eq_getElem (hseen.length ▸ hi))
    simp only [hopLayer, layerParts, Option.toList_some, Option.toList_none, List.map_cons,
      List.map_nil, List.flatMap_nil, List.append_nil, List.nil_append, List.mem_singleton] at hpart
    subst hpart
    exact .content _ (.inr ⟨rfl, hlast ▸ h⟩)

/-- **No rule leads out of it.** -/
theorem harmless_closed (hP : P.Terms) (hseen : HonestLinks P K C route hops payload seen) :
    ClosedUnder (OnionRule P K) {t | Harmless P K C J ids payloads route hops payload seen t} := by
  intro premises t hr hp
  have hkey : ∀ k, Item.key k ∈ premises → ¬ k.Hidden C := fun k hk => by
    cases hp _ hk with
    | key _ h => exact h
  cases hr with
  | keys ks k h =>
    refine .key k (hidden_closed C _ _ h (fun item hitem k' hk' => ?_) k rfl)
    subst hk'
    obtain ⟨k'', hk'', heq⟩ := List.mem_map.mp hitem
    cases heq
    exact hkey k' (List.mem_map_of_mem hk'')
  | sealed k n layer hacc =>
    exact .own k n layer hacc fun part hpart => hp part (List.mem_cons_of_mem _ hpart)
  | opened k n c bytes layer part hopen hread hpart =>
    have hk := hkey k List.mem_cons_self
    have hc : Harmless P K C J ids payloads route hops payload seen (.cipher c) :=
      hp _ (List.mem_cons_of_mem _ List.mem_cons_self)
    cases hc with
    | link i p hpi hv =>
      have hlt := (List.getElem?_eq_some_iff.mp hpi).1
      obtain ⟨s, hs⟩ : ∃ s, hops[i]? = some s := ⟨_, List.getElem?_eq_getElem (hseen.length ▸ hlt)⟩
      obtain ⟨padding, hlink⟩ := hseen.sealed i s p hs hpi
      obtain ⟨hmem, rfl⟩ := hlink.opened hP hk hopen hread
      exact harmless_layer hseen (hv.open hmem hs) padding _ hpart
    | own k' n' layer' hacc hparts =>
      obtain ⟨-, rfl⟩ := hP.opened _ _ _ _ _ _ hopen
      rw [(layerLayout K).decode_bytes (layer_fits (hP.limit _ hacc))] at hread
      cases hread
      exact hparts _ hpart

/-! ## 4. What is learned -/

theorem observed_harmless (hseen : HonestLinks P K C route hops payload seen) :
    {t | Observed C ids payloads seen J t} ⊆
      {t | Harmless P K C J ids payloads route hops payload seen t} := by
  intro t ht
  cases ht with
  | secret s h => exact .key _ fun hs => hs h
  | point s => exact .key _ not_false
  | name id h => exact .name id (.inl h)
  | content b h => exact .content b (.inl h)
  | link j hj p h part hpart =>
    have hlt := (List.getElem?_eq_some_iff.mp h).1
    obtain ⟨s, hs⟩ : ∃ s, hops[j]? = some s := ⟨_, List.getElem?_eq_getElem (hseen.length ▸ hlt)⟩
    obtain ⟨-, -, e, -, hpub, -⟩ := hseen.sealed j s p hs h
    simp only [packetParts, hpub, List.mem_cons, List.not_mem_nil, or_false] at hpart
    rcases hpart with rfl | rfl
    · exact .key _ (Sym.not_hidden_publicKey (.secret e))
    · exact .link j p h (.inl hj)

/-- **What an onion gives away**: with the secrets `C` and the packets on the links `J`, one learns
    the id of a hop exactly when the hop before it, and all hops from a link of `J` up to that one,
    are in `C`, and the payload exactly when that goes for the last hop. -/
theorem onion_learned_iff (hP : P.Terms) (hkeys : route.map Prod.snd = hops.map Sym.point)
    (hfresh : ∀ i, ∃ e, e ∉ C ∧ (draw i).1 = .secret e)
    (h : wrapOnion P K draw route payload = .ok packet) (ids : Set String)
    (payloads : Set Bytes) (J : Set Nat) :
    let known : Set Item :=
      {t | Observed C ids payloads (links P K (hops.map Sym.secret) packet) J t}
    (∀ id, Derives (OnionRule P K) known (.name id) ↔
      id ∈ ids ∨ ∃ i, Opened C J hops i ∧ (route[i + 1]?).map Prod.fst = some id) ∧
    ∀ b, Derives (OnionRule P K) known (.content b) ↔
      b ∈ payloads ∨ b = payload ∧ Opened C J hops (hops.length - 1) := by
  have hseen := honestLinks_of_wrap hP hkeys hfresh h
  have hwithin : ∀ t, Derives (OnionRule P K)
      {t | Observed C ids payloads (links P K (hops.map Sym.secret) packet) J t} t →
      Harmless P K C J ids payloads route hops payload (links P K (hops.map Sym.secret) packet) t :=
    fun t ht => ht.within (observed_harmless hseen) (harmless_closed hP hseen)
  refine ⟨fun id => ⟨fun hd => ?_, fun hid => ?_⟩, fun b => ⟨fun hd => ?_, fun hb => ?_⟩⟩
  · cases hwithin _ hd with
    | name _ h => exact h
  · rcases hid with hid | ⟨i, hopen, hid⟩
    · exact .known _ (.name id hid)
    · obtain ⟨padding, hparts⟩ := opened_derives hP hseen hopen
      obtain ⟨hop, hhop, rfl⟩ := Option.map_eq_some_iff.mp hid
      have hlt := (List.getElem?_eq_some_iff.mp hhop).1
      refine hparts _ ?_
      simp only [nextOf, hhop, List.getElem?_eq_getElem (hseen.length ▸ hseen.routed ▸ hlt)]
      exact List.mem_append_left _ (List.mem_append_left _ (List.mem_singleton_self _))
  · cases hwithin _ hd with
    | content _ h => exact h
  · rcases hb with hb | ⟨rfl, hopen⟩
    · exact .known _ (.content b hb)
    · obtain ⟨padding, hparts⟩ := opened_derives hP hseen hopen
      have hpos := List.length_pos_iff.mpr hseen.nonempty
      have hnone : route[hops.length - 1 + 1]? = none := by
        rw [List.getElem?_eq_none_iff, hseen.routed]
        omega
      refine hparts _ ?_
      simp only [nextOf, hnone]
      exact List.mem_append_left _ (List.mem_append_right _ (List.mem_singleton_self _))

end

/-! ## 5. Two hops -/

/-- Two hops, of which the adversary has the first. -/
def twoHops : List (String × Sym) := [("a", .point 1), ("b", .point 2)]

def drawHop (i : Nat) : Sym × Nonce := (.secret (10 + i), Vector.replicate 12 0)

/-- The packet for the second hop. -/
def lastPacket (payload padding : Bytes) : OnionPacket Sym where
  layer :=
    { ephemeralPubkey := .point 11
      nonce := Vector.replicate 12 0
      ciphertext := written.aeadSeal (.shared 2 11) (Vector.replicate 12 0)
        ((layerLayout symKey).bytes (hopLayer payload none padding)) }
  routeLen := 2

theorem lastPacket_length (payload padding : Bytes) :
    ((packetLayout symKey).bytes (lastPacket payload padding)).length =
      57 + (payload.length + 19 + padding.length) := by
  have hpub : (symKey.bytes (.point 11)).length = 9 := by decide +kernel
  have hkey : (symKey.bytes (.shared 2 11)).length = 15 := by decide +kernel
  simp only [packetLayout, payloadLayout, Layout.record_bytes, packetFields, payloadFields,
    Equiv.coe_fn_mk, Layout.pair_length, Layout.array_u8_length, Layout.bytes_length,
    lastPacket, written,
    List.length_append, hopLayer_length_none, writtenLayout, hpub, hkey, Layout.u8_length]
  omega

theorem accepts_written {m : Bytes} (h : m.length < 2 ^ 20) : written.accepts m = true :=
  decide_eq_true (h.le.trans (by decide))

theorem twoHops_wraps (payload : Bytes) (hlen : payload.length + 27 ≤ targetSize) :
    ∃ packet, wrapOnion written symKey drawHop twoHops payload = .ok packet := by
  have htarget : targetSize = 16384 := rfl
  obtain ⟨padding, hpad, hsum⟩ := paddingFor_fits (n := payload.length + 19) (by omega)
  have hlast : wrapHop written symKey drawHop twoHops (none, some payload) (("b", .point 2), 1) =
      .ok (some (lastPacket payload padding), none) := by
    have hlayer : ∀ padding, (⟨(twoHops[1 + 1]?).map Prod.fst, none, some payload, padding⟩ :
        OnionLayer Sym) = hopLayer payload none padding := fun _ => rfl
    have hacc :
        written.accepts ((layerLayout symKey).bytes (hopLayer payload none padding)) = true :=
      accepts_written (by rw [hopLayer_length_none]; omega)
    simp only [wrapHop, hlayer, hopLayer_length_none, List.length_nil, Nat.add_zero, hpad,
      encryptForPeer, Primitives.encrypt_of_accepts hacc]
    rfl
  have hlength : ((layerLayout symKey).bytes
      (hopLayer payload (some ("b", lastPacket payload padding)) [])).length = 16453 := by
    rw [layer_length]
    have hid : (Codec.utf8.enc "b").length = 1 := by decide
    simp only [hopLayer, Layout.option_length_some, Layout.option_length_none, Layout.string_length,
      lastPacket_length, hid, List.length_nil]
    omega
  have hlong : paddingFor ((layerLayout symKey).bytes
      (hopLayer payload (some ("b", lastPacket payload padding)) [])).length = .ok [] :=
    paddingFor_long (by omega)
  have hnext : (twoHops[0 + 1]?).map Prod.fst =
      (some ("b", lastPacket payload padding)).map Prod.fst := rfl
  obtain ⟨packet, hfirst⟩ := wrapHop_of (P := written) drawHop _ ("a", .point 1) hnext hlong
    (accepts_written (by omega))
  refine ⟨packet, ?_⟩
  have hfrom : wrapFrom written symKey drawHop twoHops payload 0 twoHops =
      .ok (some packet, none) := by
    have hsecond : wrapFrom written symKey drawHop twoHops payload 1 [("b", .point 2)] =
        .ok (some (lastPacket payload padding), none) := hlast
    show wrapFrom written symKey drawHop twoHops payload 0 [("a", .point 1), ("b", .point 2)] = _
    rw [wrapFrom, hsecond]
    exact hfirst
  simp only [wrapOnion, foldlM_eq_wrapFrom, hfrom]

/-- The first hop learns the id of the second, and not what is in the onion. -/
theorem onion_learned_first : ∃ packet,
    wrapOnion written symKey drawHop twoHops [1, 2, 3] = .ok packet ∧
    Derives (OnionRule written symKey)
      {t | Observed {1} ∅ ∅ (links written symKey ([1, 2].map Sym.secret) packet) {0} t}
      (.name "b") ∧
    ¬ Derives (OnionRule written symKey)
      {t | Observed {1} ∅ ∅ (links written symKey ([1, 2].map Sym.secret) packet) {0} t}
      (.content [1, 2, 3]) := by
  obtain ⟨packet, h⟩ := twoHops_wraps [1, 2, 3] (by decide)
  have hfresh : ∀ i, ∃ e, e ∉ ({1} : Set Nat) ∧ (drawHop i).1 = .secret e := fun i =>
    ⟨10 + i, by rw [Set.mem_singleton_iff]; omega, rfl⟩
  have hkeys : twoHops.map Prod.snd = [1, 2].map Sym.point := rfl
  have hlearned := onion_learned_iff written_terms hkeys hfresh h ∅ ∅ {0}
  refine ⟨packet, h, (hlearned.1 "b").mpr (.inr ⟨0, ⟨0, rfl, le_rfl, fun m _ hm => ?_⟩, rfl⟩),
    fun hd => ?_⟩
  · rw [Nat.le_zero.mp hm]
    exact ⟨1, rfl, rfl⟩
  · rcases (hlearned.2 _).mp hd with hno | ⟨-, hopen⟩
    · exact hno
    · obtain ⟨s, hs, hlast⟩ := hopen.secret
      cases hs
      cases hlast

end AlterChat.Onion
