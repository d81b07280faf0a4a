import AlterChat.Core.RatchetRecovery
import AlterChat.Tauri.Mailbox

/-!
# Sessions from static keys

`load_or_init_dr_state` starts a session without a handshake: the shared secret is the
Diffie-Hellman value of the two static keys, and the static key of the responder is its first
ratchet key. What does a static key that is stolen, now or later, open of the envelopes that were
ever sent?

* §1 `opened` -- the two states; §2 the initiator, §3 the responder, in every run;
* §4 `static_exposed_iff` -- the key of the responder opens what the initiator has sent under its
  first ratchet key, that is before it read an answer; nothing else is opened by either key, or by
  both;
* §5 `dm_readable_iff` -- with the copies for the mailbox, which are sealed for the static key
  alone, every message is opened by the static key of its receiver.
-/

namespace AlterChat.DirectMessages

open Lib DoubleRatchet Db Crypto Inbound

/-! ## 1. The two states -/

/-- The two states of which no side has stored anything: static secrets `i` and `b`, and the secret
    `a` that the initiator draws. -/
def opened (C : DmWire Sym) (f f' : Faults) (conn conn' : Database) (peerId peerId' : String)
    (drawn : Sym) (i a b : Nat) : Drawn where
  world
    | .alice =>
      .fresh (loadOrInitDrState symbolic C f conn peerId (.secret i) (.point b) true (.secret a))
    | .bob =>
      .fresh (loadOrInitDrState symbolic C f' conn' peerId' (.secret b) (.point i) false drawn)
  draws := firstDraws a b

/-- The two states from one secret. -/
def staticPair (i a b : Nat) : Drawn where
  world := freshPair symbolic ((Sym.secret i).diffieHellman (.point b)) (.secret a) (.secret b)
  draws := firstDraws a b

section

variable {C : DmWire Sym} {f f' : Faults} {conn conn' : Database} {peerId peerId' : String}
  {drawn : Sym} {i a b : Nat}

theorem opened_eq (h : conn.ratchetStates.lookup (drKey peerId) = none)
    (h' : conn'.ratchetStates.lookup (drKey peerId') = none) :
    opened C f f' conn conn' peerId peerId' drawn i a b = staticPair i a b := by
  have hshared : symbolic.diffieHellman (.secret b) (.point i) =
      (Sym.secret i).diffieHellman (.point b) :=
    symbolic_lawful.dh_comm (.secret b) (.secret i)
  unfold opened staticPair
  congr 1
  funext p
  cases p with
  | alice =>
    simp only [loadOrInitDrState_none h, if_true]
    rfl
  | bob =>
    simp only [loadOrInitDrState_none h', Bool.false_eq_true, if_false,
      deriveStaticSharedSecret, hshared]
    rfl

/-- The shared secret can be made of `i`. -/
theorem staticPair_inv (hi : i ≠ b) (ha : a ≠ i) (hab : a ≠ b) : FreshInv i (staticPair i a b) :=
  freshInv_start (fun hd => (Sym.hidden_diffieHellman.mp hd).1 rfl) ha hi.symm hab

end

/-! ## 2. The initiator -/

section

variable {C : Set Nat} {i a b : Nat} {l : Ledger Sym} {x : Drawn}

/-- Without the secret of the responder the initiator starts healed. -/
theorem initiator_healed (haC : a ∉ C) (hbC : b ∉ C) :
    Healed C ((staticPair i a b).world .alice).state := by
  have hturned : Turned symbolic ((staticPair i a b).world .alice).state (.point b) :=
    ⟨rfl, _, 0, rfl, rfl⟩
  exact hturned.healed rfl haC hbC

/-! ## 3. The responder -/

/-- The responder sends nothing, or it is healed and has a new ratchet key; so was it whenever it
    has sent. -/
structure Answers (C : Set Nat) (l : Ledger Sym) : Prop where
  now : l.state.ckSend = none ∨ Healed C l.state ∧ ∃ k, k ∉ C ∧ l.state.dhSendPub = .point k
  sent : ∀ e ∈ l.sent, SealedOff C e ∧ ∃ k, k ∉ C ∧ e.header.dh = .point k

theorem Answers.encrypt (h : Answers C l) (nonce : Nonce) (m : Bytes) :
    Answers C (l.after symbolic (.encrypt nonce m)) := by
  have hs := encrypt_sends symbolic nonce l.state m
  refine ⟨?_, fun e he => ?_⟩
  · rcases h.now with hnone | ⟨hheal, k, hk, hpub⟩
    · exact .inl (hs.ckSend.trans (by rw [hnone]; rfl))
    · exact .inr ⟨hheal.encrypt nonce m, k, hk, hs.dhSendPub.trans hpub⟩
  · rcases Ledger.sent_encrypt he with he | he
    · exact h.sent e he
    · rcases h.now with hnone | ⟨hheal, k, hk, hpub⟩
      · obtain ⟨mk, hmk, -⟩ := encrypt_eq_ok he
        rw [sendKey, hnone] at hmk
        cases hmk
      · have hseals := hheal.seals he
        obtain ⟨mk, -, rfl⟩ := encrypt_eq_ok he
        exact ⟨hseals, k, hk, hpub⟩

theorem Answers.turn (h : Answers C l) {k c : Nat} {e : DrEnvelope Sym} (hk : k ∉ C)
    (hdh : e.header.dh = .point c) (hc : c ∉ C) :
    Answers C (l.after symbolic (.decrypt (.secret k) e)) := by
  rcases decrypt_turns symbolic (.secret k) l.state e with hs | hs
  · refine ⟨?_, h.sent⟩
    rcases h.now with hnone | ⟨hheal, k, hk, hpub⟩
    · exact .inl (hs.ckSend.trans hnone)
    · exact .inr ⟨hheal.same hs, k, hk, hs.dhSendPub.trans hpub⟩
  · have ht := (turned_dhRatchet (P := symbolic) (.secret k) l.state e.header.dh).same hs
    rw [hdh] at ht
    exact ⟨.inr ⟨ht.healed hs.dhSend hk hc, k, hk, hs.dhSendPub⟩, h.sent⟩

/-- **The invariant**: neither static secret is any help with what comes after the first ratchet key
    of the initiator. -/
structure StaticInv (i a b : Nat) (x : Drawn) : Prop where
  fresh : FreshInv i x
  beyond : Beyond (staticPair i a b) x
  initiator : Since {i, b} ((staticPair i a b).world .alice) (x.world .alice)
  responder : Answers {i, b} (x.world .bob)

theorem StaticInv.start (hi : i ≠ b) (ha : a ≠ i) (hab : a ≠ b) :
    StaticInv i a b (staticPair i a b) where
  fresh := staticPair_inv hi ha hab
  beyond := ⟨fun _ _ ht => ht, fun _ => .inl rfl⟩
  initiator := ⟨.inl ⟨rfl, fun ck hck => ⟨ck, 0, hck, rfl⟩⟩, .refl ..⟩
  responder := ⟨.inl rfl, nofun⟩

/-- A secret that the initiator has drawn is no static one, and neither is a new one. -/
theorem StaticInv.not_static (h : StaticInv i a b x) {k : Nat} (hi : k ≠ i)
    (hk : k ∉ x.draws .bob) : k ∉ ({i, b} : Set Nat) := by
  have hb : b ∈ x.draws .bob := h.beyond.draws .bob (List.mem_singleton_self b)
  rintro (rfl | rfl)
  · exact hi rfl
  · exact hk hb

theorem StaticInv.step {x' : Drawn} {c : Side × Call Sym} (h : StaticInv i a b x)
    (hst : FreshCall i x c x') : StaticInv i a b x' := by
  refine ⟨h.fresh.step hst, h.beyond.step hst, ?_, ?_⟩
  · have hc := hst.side .alice
    generalize x'.world .alice = l', x'.draws .alice = D' at hc ⊢
    cases hc with
    | idle => exact h.initiator
    | encrypt nonce m => exact h.initiator.encrypt nonce m
    | decrypt k e hk hnew he =>
      obtain ⟨-, c, hcC, hdh⟩ := h.responder.sent e he
      refine h.initiator.turn (h.not_static hk (hnew .bob)) (fun hpub => ?_) hdh hcC
      obtain rfl : a = k := Sym.point.inj hpub
      exact hnew .alice (h.beyond.draws .alice (List.mem_singleton_self a))
  · have hc := hst.side .bob
    generalize x'.world .bob = l', x'.draws .bob = D' at hc ⊢
    cases hc with
    | idle => exact h.responder
    | encrypt nonce m => exact h.responder.encrypt nonce m
    | decrypt k e hk hnew he =>
      obtain ⟨c, hcD, hdh⟩ := (h.fresh.owns .alice).sent e he
      have hci : c ≠ i := fun e => h.fresh.ne .alice (e ▸ hcD)
      exact h.responder.turn (h.not_static hk (hnew .bob)) hdh
        (h.not_static hci (h.fresh.apart .alice c hcD))

/-! ## 4. What a static key opens -/

/-- Stolen static secrets, and all public keys, are among what is known, and no key is known that
    takes a secret that was not stolen. -/
structure Knows (L : Set Nat) (known : Set Known) : Prop where
  stolen : ∀ s ∈ L, .key (.secret s) ∈ known
  points : ∀ s, .key (.point s) ∈ known
  plain : ∀ k, .key k ∈ known → ¬ k.Hidden L

variable {L : Set Nat} {known : Set Known}

/-- A value that a stolen secret shares. -/
theorem Knows.shared (h : Knows L known) {s : Nat} (hs : s ∈ L) (t : Nat) :
    Derives SymRule known (.key ((Sym.secret t).diffieHellman (.point s))) := by
  rw [show (Sym.secret t).diffieHellman (.point s) = (Sym.secret s).diffieHellman (.point t) from
    symbolic_lawful.dh_comm (.secret t) (.secret s)]
  exact .two (.diffieHellman _ _) (.known _ (h.stolen s hs)) (.known _ (h.points t))

/-- The secret of the responder makes the first chain of the initiator. -/
theorem Knows.chain (h : Knows L known) (hb : b ∈ L) {ck : Sym}
    (hck : ((staticPair i a b).world .alice).state.ckSend = some ck) :
    Derives SymRule known (.key ck) := by
  cases hck
  exact .two (.derived _ _ _) (h.shared hb i) (h.shared hb a)

theorem staticInv_later (hi : i ≠ b) (ha : a ≠ i) (hab : a ≠ b) (h : Later i (staticPair i a b) x) :
    StaticInv i a b x := by
  refine Reach.inv (fun x heq => ?_) (fun x c x' hx hst => hx.step hst) h
  subst heq
  exact .start hi ha hab

/-- What stays closed to both static secrets is not opened with some of them. -/
theorem Knows.closed (hknown : Knows L known) (hL : L ⊆ {i, b}) {e : DrEnvelope Sym}
    (h : SealedOff {i, b} e) {mk : Sym} (hmk : Opens symbolic mk e) :
    ¬ Derives SymRule known (.key mk) := by
  obtain ⟨mk', m, hhid, hc⟩ := h
  have hoff : SealedOff L e := ⟨mk', m, hhid.anti hL, hc⟩
  exact hoff.closed_to hknown.plain hmk

/-- What the initiator has sent is opened under its first ratchet key, by the secret of the
    responder. -/
theorem initiator_opened_iff (hi : i ≠ b) (ha : a ≠ i) (hab : a ≠ b)
    (h : Later i (staticPair i a b) x) (hL : L ⊆ {i, b}) (hknown : Knows L known)
    {e : DrEnvelope Sym} (he : e ∈ (x.world .alice).sent) {mk : Sym}
    (hmk : Opens symbolic mk e) : Derives SymRule known (.key mk) ↔ b ∈ L ∧
    e.header.dh = .point a := by
  have hinv := staticInv_later hi ha hab h
  rcases hinv.initiator.sent.since (e := e) he with ⟨hdh, ck, j, m, hck, hc⟩ | ⟨hne, hsealed⟩
  · refine ⟨fun hd => ⟨?_, hdh⟩, fun hb => ?_⟩
    · by_contra hb
      -- without `b` the initiator was healed from the start
      have haL : a ∉ L := fun haL => (hL haL).elim ha hab
      have hall := (h.healed (p := .alice) (initiator_healed haL hb)).2.since (e := e) he
      exact hall.closed_to hknown.plain hmk hd
    · obtain ⟨m', hm'⟩ := Option.isSome_iff_exists.mp hmk
      obtain rfl : mk = messageKey symbolic ck j := symbolic_ideal.seal_key _ _ _ _ _ _
        ((symbolic_ideal.open_sound _ _ _ _ hm').symm.trans hc)
      exact derives_messageKey (hknown.chain hb.1 hck) j
  · exact iff_of_false (hknown.closed hL hsealed hmk) fun hb => hne hb.2

/-- What is known: stolen static secrets, all public keys, and envelopes. -/
def stolen (L : Set Nat) (es : List (DrEnvelope Sym)) : Set Known :=
  {t | (∃ s ∈ L, t = .key (.secret s)) ∨ (∃ s, t = .key (.point s)) ∨ ∃ e ∈ es, Shows e t}

theorem stolen_knows (h : FreshInv i x) (L : Set Nat) : Knows L (stolen L x.wire) where
  stolen s hs := .inl ⟨s, hs, rfl⟩
  points s := .inr (.inl ⟨s, rfl⟩)
  plain k hk := by
    rcases hk with ⟨s, hs, heq⟩ | ⟨s, heq⟩ | ⟨e, he, hshows⟩
    · cases heq
      exact not_not_intro hs
    · cases heq
      exact not_false
    · cases hshows with
      | dh =>
        obtain ⟨c, hc⟩ := h.wire he
        rw [hc]
        exact not_false

/-- **What a static key opens**: of all envelopes of a session, the static secret of the responder
    opens those that the initiator has sent under its first ratchet key; nothing else is opened by
    either secret, or by both. -/
theorem static_exposed_iff {C : DmWire Sym} {f f' : Faults} {conn conn' : Database}
    {peerId peerId' : String} {drawn : Sym} (hrow : conn.ratchetStates.lookup (drKey peerId) = none)
    (hrow' : conn'.ratchetStates.lookup (drKey peerId') = none) (hi : i ≠ b) (ha : a ≠ i)
    (hab : a ≠ b) {x₁ : Drawn}
    (h : Later i (opened C f f' conn conn' peerId peerId' drawn i a b) x₁) {L : Set Nat}
    (hL : L ⊆ {i, b}) : ∀ e ∈ x₁.wire, ∀ mk, Opens symbolic mk e →
      (Derives SymRule (stolen L x₁.wire) (.key mk) ↔ b ∈ L ∧ e.header.dh = .point a) := by
  rw [opened_eq hrow hrow'] at h
  have hinv := staticInv_later hi ha hab h
  have hknown := stolen_knows hinv.fresh L
  intro e he mk hmk
  rcases List.mem_append.mp he with he | he
  · exact initiator_opened_iff hi ha hab h hL hknown he hmk
  · obtain ⟨hsealed, k, hk, hdh⟩ := hinv.responder.sent e he
    refine iff_of_false (hknown.closed hL hsealed hmk) fun hb => ?_
    obtain ⟨k', hk', hdh'⟩ := (hinv.fresh.owns .bob).sent e he
    obtain rfl : k' = a := Sym.point.inj (hdh'.symm.trans hb.2)
    exact hinv.fresh.apart .bob k' hk' (hinv.beyond.draws .alice (List.mem_singleton_self k'))

/-! ## 5. With the mailbox -/

/-- The static secret of a side. -/
def staticOf (i b : Nat) : Side → Nat
  | .alice => i
  | .bob => b

/-- The copy of a message of `p` for the mailbox of its peer. -/
structure MailCopy (i b : Nat) (p : Side) where
  msg : OfflineMsg
  ephemeral : Nat
  nonce : Nonce
  payload : EncryptedPayload Sym
  fresh : ephemeral ∉ ({i, b} : Set Nat)
  made : encryptForPeer symbolic (.secret ephemeral) nonce (.point (staticOf i b p.other))
    (offlineLayout.bytes msg) = .ok payload

/-- What `SendPrivateMessage` puts into the mailbox of a friend is such a copy. -/
theorem copy_of_record {p : Side} {W : NetWire Sym} {f : Faults} {n : Node Sym} {peerId : String}
    {args : SendArgs Sym} {d : MailDraw Sym} {m : OfflineMsg} {r : MailRecord}
    (h : offlineRecord symbolic W f n peerId args d = some (m, r))
    (hfriend : FriendKey W.toDmWire n.conn peerId (.point (staticOf i b p.other))) {e : Nat}
    (he : d.ephemeral = .secret e) (hfresh : e ∉ ({i, b} : Set Nat)) :
    ∃ c : MailCopy i b p, c.msg = m ∧ r.value = (payloadLayout W.key).bytes c.payload := by
  obtain ⟨pk, encrypted, ⟨friend, hlookup, -, hpk⟩, hmade, -, rfl⟩ := offlineRecord_some h
  obtain ⟨friend', hlookup', -, hpk'⟩ := hfriend
  cases hlookup.symm.trans hlookup'
  cases hpk.symm.trans hpk'
  rw [he] at hmade
  exact ⟨⟨m, e, d.nonce, encrypted, hfresh, hmade⟩, rfl, rfl⟩

/-- A key that opens the copy. -/
def MailCopy.Opens {p : Side} (c : MailCopy i b p) (k : Sym) : Prop :=
  symbolic.aeadOpen k c.payload.nonce c.payload.ciphertext = some (offlineLayout.bytes c.msg)

/-- What is known, with the copies in the mailboxes. -/
def overheard (L : Set Nat) (es : List (DrEnvelope Sym)) (copies : List (Σ p, MailCopy i b p)) :
    Set Known :=
  stolen L es ∪ {t | ∃ c ∈ copies,
    t = .key c.2.payload.ephemeralPubkey ∨ t = .text c.2.payload.ciphertext}

theorem overheard_knows (h : FreshInv i x) (L : Set Nat) (copies : List (Σ p, MailCopy i b p)) :
    Knows L (overheard L x.wire copies) where
  stolen s hs := .inl ((stolen_knows h L).stolen s hs)
  points s := .inl ((stolen_knows h L).points s)
  plain k hk := by
    rcases hk with hk | ⟨c, hc, heq | heq⟩
    · exact (stolen_knows h L).plain k hk
    · obtain ⟨-, hpayload⟩ := encryptForPeer_ok_iff.mp c.2.made
      cases heq
      rw [hpayload]
      exact Sym.not_hidden_publicKey (.secret c.2.ephemeral)
    · cases heq

/-- **A copy is opened by the static secret of its receiver**, and by no other static secret. -/
theorem MailCopy.opened_iff {p : Side} (c : MailCopy i b p) (hL : L ⊆ {i, b})
    (hknown : Knows L known) : (∃ k, Derives SymRule known (.key k) ∧ c.Opens k) ↔
    staticOf i b p.other ∈ L := by
  obtain ⟨-, hpayload⟩ := encryptForPeer_ok_iff.mp c.made
  unfold MailCopy.Opens
  rw [hpayload]
  constructor
  · rintro ⟨k, hd, hopen⟩
    obtain rfl : (Sym.secret c.ephemeral).diffieHellman (.point (staticOf i b p.other)) = k :=
      symbolic_ideal.seal_key _ _ _ _ _ _ (symbolic_ideal.open_sound _ _ _ _ hopen)
    by_contra hs
    have hhidden :
        ((Sym.secret c.ephemeral).diffieHellman (.point (staticOf i b p.other))).Hidden L :=
      Sym.hidden_diffieHellman.mpr ⟨fun he => c.fresh (hL he), hs⟩
    have hstart : known ⊆ {t | ∀ k, t = .key k → ¬ k.Hidden L} := by
      rintro t ht k rfl
      exact hknown.plain k ht
    exact hd.within hstart (hidden_closed L) _ rfl hhidden
  · intro hs
    exact ⟨_, hknown.shared hs c.ephemeral, symbolic_lawful.open_seal ..⟩

/-- **Who can read a direct message**: of whoever has static secrets of the two, all envelopes and
    all copies that were ever in a mailbox, exactly those with the static secret of the receiver, at
    whatever time they get it. The copies are what `SendPrivateMessage` puts there. -/
theorem dm_readable_iff {C : DmWire Sym} {f f' : Faults} {conn conn' : Database}
    {peerId peerId' : String} {drawn : Sym} (hrow : conn.ratchetStates.lookup (drKey peerId) = none)
    (hrow' : conn'.ratchetStates.lookup (drKey peerId') = none) (hi : i ≠ b) (ha : a ≠ i)
    (hab : a ≠ b) {x₁ : Drawn}
    (h : Later i (opened C f f' conn conn' peerId peerId' drawn i a b) x₁)
    (copies : List (Σ p, MailCopy i b p)) {L : Set Nat} (hL : L ⊆ {i, b}) :
    (∀ (p : Side) (W : NetWire Sym) (f : Faults) (n : Node Sym) (peerId : String)
      (args : SendArgs Sym) (d : MailDraw Sym) (m : OfflineMsg) (r : MailRecord) (s : Nat),
      offlineRecord symbolic W f n peerId args d = some (m, r) →
      FriendKey W.toDmWire n.conn peerId (.point (staticOf i b p.other)) →
      d.ephemeral = .secret s → s ∉ ({i, b} : Set Nat) →
        ∃ c : MailCopy i b p, c.msg = m ∧ r.value = (payloadLayout W.key).bytes c.payload) ∧
    ∀ p, ∀ e ∈ (x₁.world p).sent, ∀ c : MailCopy i b p, ⟨p, c⟩ ∈ copies →
      ((∃ k, Derives SymRule (overheard L x₁.wire copies) (.key k) ∧
        (Opens symbolic k e ∨ c.Opens k)) ↔
        staticOf i b p.other ∈ L) := by
  rw [opened_eq hrow hrow'] at h
  have hinv := staticInv_later hi ha hab h
  have hknown := overheard_knows hinv.fresh L copies
  refine ⟨fun _ _ _ _ _ _ _ _ _ _ hrecord hfriend he hfresh =>
    copy_of_record hrecord hfriend he hfresh, ?_⟩
  intro p e he c _
  constructor
  · rintro ⟨k, hd, hopens | hopens⟩
    · cases p with
      | alice => exact ((initiator_opened_iff hi ha hab h hL hknown he hopens).mp hd).1
      | bob => exact absurd hd (hknown.closed hL (hinv.responder.sent e he).1 hopens)
    · exact (c.opened_iff hL hknown).mp ⟨k, hd, hopens⟩
  · intro hs
    obtain ⟨k, hd, hopens⟩ := (c.opened_iff hL hknown).mpr hs
    exact ⟨k, hd, .inr hopens⟩

end

/-- A session of two empty profiles, in which the initiator has sent `[104]`. -/
def firstSent : Drawn :=
  (opened .numbered noFaults noFaults .empty .empty "b" "a" (.secret 4) 9 1 2).encrypted .alice
    (Vector.replicate 12 0) [104]

/-- The secret of the responder opens it, as long as nothing has been read; that of the initiator
    does not. -/
theorem static_exposed_iff_first :
    firstSent.wire ≠ [] ∧ ∀ e ∈ firstSent.wire, ∀ mk, Opens symbolic mk e →
      Derives SymRule (stolen {2} firstSent.wire) (.key mk) ∧
        ¬ Derives SymRule (stolen {9} firstSent.wire) (.key mk) := by
  have hlater : Later 9 (opened .numbered noFaults noFaults .empty .empty "b" "a" (.secret 4) 9 1 2)
      firstSent :=
    .step _ _ _ (.start _ rfl) (.encrypt _ .alice _ _)
  have hwire :
    firstSent.wire = [firstEnvelope symbolic ((Sym.secret 9).diffieHellman (.point 2)) (.secret 1)
      (.secret 2) (firstChain symbolic ((Sym.secret 9).diffieHellman (.point 2)) (.secret 1)
      (.secret 2))
      (Vector.replicate 12 0) [104]] := rfl
  refine ⟨by rw [hwire]; exact List.cons_ne_nil _ _, fun e he mk hmk => ⟨?_, fun hd => ?_⟩⟩
  · refine (static_exposed_iff rfl rfl (by decide) (by decide) (by decide) hlater
      (by simp) e he mk hmk).mpr ?_
    rw [hwire] at he
    rw [List.mem_singleton.mp he]
    exact ⟨rfl, rfl⟩
  · have hiff :=
      static_exposed_iff rfl rfl (by decide) (by decide) (by decide) hlater (L := {9})
      (by simp) e he mk hmk
    exact absurd (hiff.mp hd).1 (by decide)

/-- The copy of the message for the mailbox. -/
def firstCopy : MailCopy 9 2 .alice where
  msg :=
    { senderPeerId := "a", senderNick := "A", text := "h", timestamp := 0, ttl := none
      nonce := Vector.replicate 16 0 }
  ephemeral := 7
  nonce := Vector.replicate 12 0
  payload :=
    { ephemeralPubkey := .point 7
      nonce := Vector.replicate 12 0
      ciphertext := symbolic.aeadSeal (.shared 2 7) (Vector.replicate 12 0)
        (offlineLayout.bytes ⟨"a", "A", "h", 0, none, Vector.replicate 16 0⟩) }
  fresh := by simp
  made := encryptForPeer_ok_iff.mpr ⟨by decide +kernel, rfl⟩

theorem dm_readable_iff_first :
    firstSent.wire ≠ [] ∧ ∀ e ∈ (firstSent.world .alice).sent,
      ((∃ k, Derives SymRule (overheard {2} firstSent.wire [⟨.alice, firstCopy⟩]) (.key k) ∧
        (Opens symbolic k e ∨ firstCopy.Opens k)) ∧
      ¬ ∃ k, Derives SymRule (overheard {9} firstSent.wire [⟨.alice, firstCopy⟩]) (.key k) ∧
        (Opens symbolic k e ∨ firstCopy.Opens k)) := by
  have hlater : Later 9 (opened .numbered noFaults noFaults .empty .empty "b" "a" (.secret 4) 9 1 2)
      firstSent :=
    .step _ _ _ (.start _ rfl) (.encrypt _ .alice _ _)
  have hiff := fun (L : Set Nat) (hL : L ⊆ {9, 2}) e he =>
    (dm_readable_iff rfl rfl (by decide) (by decide) (by decide) hlater [⟨.alice, firstCopy⟩] hL).2
      .alice e he
      firstCopy (List.mem_singleton_self _)
  refine ⟨List.cons_ne_nil _ _, fun e he => ⟨(hiff {2} (by simp) e he).mpr rfl, fun hk => ?_⟩⟩
  exact absurd ((hiff {9} (by simp) e he).mp hk) (by decide)

end AlterChat.DirectMessages
