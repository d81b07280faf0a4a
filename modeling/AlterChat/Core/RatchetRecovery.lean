import AlterChat.Core.RatchetFresh

/-!
# Recovery after an exposure

At one moment of a run the states of some parties become known, with every envelope that is ever
sent. The attacker has what these parties had drawn; a secret drawn later it does not have, and a
chain that started from a Diffie-Hellman value of two secrets it does not have stays closed to it,
as does everything that comes after in the same line of root keys.

* `Healed` -- a state whose root key and sending chain take a secret outside `C`; every call keeps
  it;
* `recovery` -- once a party has renewed what was exposed, nothing it sends can be opened;
* `exposed_sender_iff` -- of what the exposed party sends, exactly the envelopes under the ratchet
  key it had can be opened.
-/

namespace AlterChat.DoubleRatchet

open Lib Primitives

/-! ## 1. Healed states -/

/-- Root key and sending chain take a secret outside `C`. -/
structure Healed (C : Set Nat) (s : DrState Sym) : Prop where
  root : s.rootKey.Hidden C
  send : ∀ ck, s.ckSend = some ck → ck.Hidden C

/-- The ciphertext is sealed under a key that takes a secret outside `C`. -/
def SealedOff (C : Set Nat) (e : DrEnvelope Sym) : Prop :=
  ∃ mk m, mk.Hidden C ∧ e.ciphertext = symbolic.aeadSeal mk e.nonce m

section

variable {C : Set Nat} {s s' : DrState Sym} {l₀ l : Ledger Sym}

theorem Healed.same (h : Healed C s) (hs : SameSend s s') : Healed C s' where
  root := hs.rootKey ▸ h.root
  send ck hck := h.send ck (hs.ckSend.symm.trans hck)

/-- **Two secrets outside `C` heal a state.** -/
theorem Turned.healed {a b : Nat} (h : Turned symbolic s (.point b)) (ha : s.dhSend = .secret a)
    (haC : a ∉ C) (hbC : b ∉ C) : Healed C s := by
  obtain ⟨rk, i, hroot, hck⟩ := h.keys
  have hd : (s.dhSend.diffieHellman (.point b)).Hidden C := by
    rw [ha]
    exact Sym.hidden_diffieHellman.mpr ⟨haC, hbC⟩
  refine ⟨?_, fun ck e => ?_⟩
  · rw [hroot]
    exact .inr hd
  · obtain rfl := Option.some.inj (hck.symm.trans e)
    exact (hidden_chainKey i).mpr (.inr hd)

theorem Healed.encrypt (h : Healed C s) (nonce : Nonce) (m : Bytes) :
    Healed C (encrypt symbolic nonce s m).2 := by
  refine Healed.same ?_ (encrypt_sends symbolic nonce s m)
  refine ⟨h.root, fun ck hck => ?_⟩
  obtain ⟨ck₀, hck₀, rfl⟩ := Option.map_eq_some_iff.mp hck
  exact h.send ck₀ hck₀

/-- A ratchet step on whatever public key keeps what the root key had. -/
theorem Healed.decrypt (h : Healed C s) (r : Sym) (e : DrEnvelope Sym) :
    Healed C (decrypt symbolic r s e).2 := by
  rcases decrypt_turns symbolic r s e with hs | hs
  · exact h.same hs
  · refine Healed.same ?_ hs
    refine ⟨Or.inl (Or.inl h.root), fun ck hck => ?_⟩
    cases hck
    exact Or.inl (Or.inl h.root)

theorem Healed.seals (h : Healed C s) {nonce : Nonce} {m : Bytes} {e : DrEnvelope Sym}
    (he : (DoubleRatchet.encrypt symbolic nonce s m).1 = .ok e) : SealedOff C e := by
  obtain ⟨mk, hmk, rfl⟩ := encrypt_eq_ok he
  obtain ⟨ck, hck, rfl⟩ := Option.map_eq_some_iff.mp hmk
  exact ⟨(kdfCk symbolic ck).2, m, h.send ck hck, rfl⟩

/-! The envelopes that a party has sent in the meantime. -/

/-- What a party has sent since it was `l₀`. -/
def Ledger.since (l₀ l : Ledger Sym) : List (DrEnvelope Sym) := l.sent.drop l₀.sent.length

/-- From `l₀` to `l` more was sent, each envelope as `Q` says. -/
def Grown (Q : DrEnvelope Sym → Prop) (l₀ l : Ledger Sym) : Prop :=
  ∃ new, l.sent = l₀.sent ++ new ∧ ∀ e ∈ new, Q e

variable {Q : DrEnvelope Sym → Prop}

theorem Grown.refl (Q : DrEnvelope Sym → Prop) (l : Ledger Sym) : Grown Q l l :=
  ⟨[], (List.append_nil _).symm, nofun⟩

theorem Grown.since (h : Grown Q l₀ l) {e : DrEnvelope Sym} (he : e ∈ l₀.since l) : Q e := by
  obtain ⟨new, hl, hnew⟩ := h
  rw [Ledger.since, hl, List.drop_left] at he
  exact hnew e he

theorem Grown.encrypt (h : Grown Q l₀ l) {nonce : Nonce} {m : Bytes}
    (hq : ∀ e, (DoubleRatchet.encrypt symbolic nonce l.state m).1 = .ok e → Q e) :
    Grown Q l₀ (l.after symbolic (.encrypt nonce m)) := by
  obtain ⟨new, hl, hnew⟩ := h
  cases hres : (DoubleRatchet.encrypt symbolic nonce l.state m).1 with
  | error x => exact ⟨new, by simp only [Ledger.after, hres, hl], hnew⟩
  | ok e =>
    refine ⟨new ++ [e], ?_, fun e' he' => ?_⟩
    · simp only [Ledger.after, hres, hl, List.append_assoc]
    · rcases List.mem_append.mp he' with he' | he'
      · exact hnew e' he'
      · exact List.mem_singleton.mp he' ▸ hq e hres

end

/-! ## 2. What the attacker has -/

/-- The states of the exposed parties, and some envelopes. -/
def leaked (E : Side → Prop) (w : Side → Ledger Sym) (es : List (DrEnvelope Sym)) : Set Known :=
  {i | (∃ p, E p ∧ ∃ k, (w p).state.Contains k ∧ i = .key k) ∨ ∃ e ∈ es, Shows e i}

/-- The shared secret, and what the exposed parties had drawn. -/
def given (n : Nat) (E : Side → Prop) (x : Drawn) : Set Nat :=
  {k | k = n ∨ ∃ p, E p ∧ k ∈ x.draws p}

/-- All envelopes sent. -/
def Drawn.wire (x : Drawn) : List (DrEnvelope Sym) := (x.world .alice).sent ++ (x.world .bob).sent

section

variable {n : Nat} {E : Side → Prop} {x₀ x : Drawn}

theorem FreshInv.wire (h : FreshInv n x) {e : DrEnvelope Sym} (he : e ∈ x.wire) :
    ∃ a, e.header.dh = .point a := by
  rcases List.mem_append.mp he with he | he
  · obtain ⟨a, -, e⟩ := (h.owns .alice).sent e he
    exact ⟨a, e⟩
  · obtain ⟨a, -, e⟩ := (h.owns .bob).sent e he
    exact ⟨a, e⟩

/-- What is sealed off stays closed to whoever has no key that takes a secret outside `C`. -/
theorem SealedOff.closed_to {C : Set Nat} {known : Set Known} {e : DrEnvelope Sym}
    (he : SealedOff C e) (hknown : ∀ k, .key k ∈ known → ¬ k.Hidden C) {mk : Sym}
    (hmk : Opens symbolic mk e) : ¬ Derives SymRule known (.key mk) := by
  obtain ⟨mk', m, hhid, hc⟩ := he
  obtain ⟨m', hm'⟩ := Option.isSome_iff_exists.mp hmk
  obtain rfl : mk = mk' :=
    symbolic_ideal.seal_key _ _ _ _ _ _ ((symbolic_ideal.open_sound _ _ _ _ hm').symm.trans hc)
  intro hd
  refine hd.within ?_ (hidden_closed C) mk rfl hhid
  rintro i hi k rfl
  exact hknown k hi

/-- **What is sealed off from the exposed draws stays closed** to whoever has the states of the
    exposed parties and all envelopes. -/
theorem SealedOff.closed (h₀ : FreshInv n x₀) (h : FreshInv n x) {e : DrEnvelope Sym}
    (he : SealedOff (given n E x₀) e) {mk : Sym} (hmk : Opens symbolic mk e) :
    ¬ Derives SymRule (leaked E x₀.world x.wire) (.key mk) := by
  refine he.closed_to (fun k' hk' => ?_) hmk
  rcases hk' with ⟨p, hp, k, hk, e⟩ | ⟨e', he', hi⟩
  · cases e
    have hsub : own n (x₀.draws p) ⊆ given n E x₀ := fun t ht => ht.imp_right fun ht => ⟨p, hp, ht⟩
    exact ((h₀.owns p).plain.mono hsub) k' hk
  · cases hi with
    | dh =>
      obtain ⟨a, ha⟩ := h.wire he'
      rw [ha]
      exact not_false

end

/-! ## 3. From one world to a later one -/

/-- What a call does to one side. -/
inductive SideCase (n : Nat) (x : Drawn) (p : Side) : Ledger Sym → List Nat → Prop where
  | idle : SideCase n x p (x.world p) (x.draws p)
  | encrypt (nonce : Nonce) (m : Bytes) :
      SideCase n x p ((x.world p).after symbolic (.encrypt nonce m)) (x.draws p)
  | decrypt (k : Nat) (e : DrEnvelope Sym) (hk : k ≠ n) (hnew : ∀ q, k ∉ x.draws q)
      (he : e ∈ (x.world p.other).sent) :
      SideCase n x p ((x.world p).after symbolic (.decrypt (.secret k) e)) (k :: x.draws p)

section

variable {n : Nat} {E : Side → Prop} {x₀ x x' : Drawn} {c : Side × Call Sym} {p : Side}

theorem FreshCall.side (h : FreshCall n x c x') (p : Side) :
    SideCase n x p (x'.world p) (x'.draws p) := by
  cases h with
  | encrypt q nonce m =>
    rcases q.eq_or_other p with rfl | rfl
    · rw [Drawn.encrypted_self]
      exact .encrypt nonce m
    · rw [Drawn.encrypted_other]
      exact .idle
  | decrypt q k e hk hnew he =>
    rcases q.eq_or_other p with rfl | rfl
    · rw [Drawn.decrypted_self, Drawn.decrypted_draws_self]
      exact .decrypt k e hk hnew he
    · rw [Drawn.decrypted_other, Drawn.decrypted_draws_other]
      exact .idle

/-- What a later world has of an earlier one: its draws, and its ratchet keys or later ones. -/
structure Beyond (x₀ x : Drawn) : Prop where
  draws : ∀ p, x₀.draws p ⊆ x.draws p
  dhSend : ∀ p, (x.world p).state.dhSendPub = (x₀.world p).state.dhSendPub ∨
    ∃ a, (x.world p).state.dhSend = .secret a ∧ ∀ q, a ∉ x₀.draws q

theorem Beyond.step (h : Beyond x₀ x) (hst : FreshCall n x c x') : Beyond x₀ x' := by
  refine ⟨fun p => ?_, fun p => ?_⟩
  · have hc := hst.side p
    generalize x'.world p = l', x'.draws p = D' at hc ⊢
    cases hc with
    | idle => exact h.draws p
    | encrypt => exact h.draws p
    | decrypt => exact fun t ht => List.mem_cons_of_mem _ (h.draws p ht)
  · have hc := hst.side p
    generalize x'.world p = l', x'.draws p = D' at hc ⊢
    cases hc with
    | idle => exact h.dhSend p
    | encrypt nonce m =>
      have hs := encrypt_sends symbolic nonce (x.world p).state m
      exact (h.dhSend p).imp hs.dhSendPub.trans fun ⟨a, ha, hnew⟩ => ⟨a, hs.dhSend.trans ha, hnew⟩
    | decrypt k e _ hnew =>
      rcases decrypt_turns symbolic (.secret k) (x.world p).state e with hs | hs
      · exact (h.dhSend p).imp hs.dhSendPub.trans fun ⟨a, ha, hnew⟩ => ⟨a, hs.dhSend.trans ha, hnew⟩
      · exact .inr ⟨k, hs.dhSend, fun q hq => hnew q (h.draws q hq)⟩

theorem Later.run (h : Later n x₀ x) (h₀ : FreshRun n x₀) : FreshRun n x :=
  Reach.inv (fun _ e => e ▸ h₀) (fun x c x' hx hst => .step x c x' hx hst) h

theorem Later.beyond (h : Later n x₀ x) : Beyond x₀ x := by
  refine Reach.inv (fun x e => ?_) (fun x c x' hx hst => hx.step hst) h
  subst e
  exact ⟨fun _ _ ht => ht, fun _ => .inl rfl⟩

/-- A healed side stays healed, and seals what it sends. -/
theorem Later.healed {C : Set Nat} (h : Later n x₀ x) (h₀ : Healed C (x₀.world p).state) :
    Healed C (x.world p).state ∧ Grown (SealedOff C) (x₀.world p) (x.world p) := by
  refine Reach.inv (I := fun x => Healed C (x.world p).state ∧
    Grown (SealedOff C) (x₀.world p) (x.world p)) (fun x e => ?_) (fun x c x' hx hst => ?_) h
  · subst e
    exact ⟨h₀, .refl ..⟩
  · obtain ⟨hheal, hgrown⟩ := hx
    have hc := hst.side p
    generalize x'.world p = l', x'.draws p = D' at hc ⊢
    cases hc with
    | idle => exact ⟨hheal, hgrown⟩
    | encrypt nonce m => exact ⟨hheal.encrypt nonce m, hgrown.encrypt fun _ => hheal.seals⟩
    | decrypt k e => exact ⟨hheal.decrypt _ e, hgrown⟩

/-- Between `x₀` and `x` the side has renewed what was exposed at `x₀`: its own ratchet key, if it
    was exposed, and it has got a newer key of the other side, if that was. -/
structure Renewed (E : Side → Prop) (x₀ x : Drawn) (s : Side) : Prop where
  own : E s → (x.world s).state.dhSendPub ≠ (x₀.world s).state.dhSendPub
  peer : ∃ b, (x.world s).state.dhRecv = some (.point b) ∧ (E s.other → b ∉ x₀.draws s.other)

/-- No draw of the side itself was given away: neither the one it had, if that was exposed, nor
    later ones. -/
theorem Renewed.healed {s : Side} (hr : Renewed E x₀ x s) (h : FreshInv n x) (hb : Beyond x₀ x) :
    Healed (given n E x₀) (x.world s).state := by
  obtain ⟨b, hrecv, hpeer⟩ := hr.peer
  obtain ⟨a, haD, hsecret, -⟩ := (h.owns s).dhSend
  obtain ⟨b', hbD, e⟩ := (h.owns s).dhRecv _ hrecv
  obtain rfl := Sym.point.inj e
  have ha : a ∉ given n E x₀ := by
    rintro (rfl | ⟨p, hp, ha⟩)
    · exact h.ne s haD
    · rcases s.eq_or_other p with rfl | rfl
      · rcases hb.dhSend p with hsame | ⟨a', ha', hnew⟩
        · exact hr.own hp hsame
        · obtain rfl := Sym.secret.inj (hsecret.symm.trans ha')
          exact hnew p ha
      · exact h.apart s a haD (hb.draws s.other ha)
  have hb : b ∉ given n E x₀ := by
    rintro (rfl | ⟨p, hp, hbp⟩)
    · exact h.ne s.other hbD
    · rcases s.eq_or_other p with rfl | rfl
      · exact h.apart p b (hb.draws p hbp) hbD
      · exact hpeer hp hbp
  rcases (h.owns s).paired with ⟨hnone, -⟩ | ⟨r, ht⟩
  · exact absurd (hrecv.symm.trans hnone) nofun
  · obtain rfl := Option.some.inj (hrecv.symm.trans ht.dhRecv)
    exact ht.healed hsecret ha hb

end

/-- **Recovery**: whichever parties' whole states become known at `x₀`, once a side has renewed what
    was exposed, no key that opens an envelope it sends from then on can be derived from these
    states and every envelope ever sent. -/
theorem recovery (n : Nat) (E : Side → Prop) (x₀ x x₁ : Drawn) (h₀ : FreshRun n x₀)
    (h : Later n x₀ x) (h₁ : Later n x x₁) (s : Side) (hr : Renewed E x₀ x s) :
    ∀ e ∈ (x.world s).since (x₁.world s), ∀ mk, Opens symbolic mk e →
      ¬ Derives SymRule (leaked E x₀.world x₁.wire) (.key mk) := by
  intro e he mk hmk
  have hrun := h.run h₀
  have hheal := hr.healed hrun.inv h.beyond
  exact ((h₁.healed hheal).2.since he).closed h₀.inv (h₁.run hrun).inv hmk

/-- The two parties at the start. -/
def unspoken : Drawn where
  world := freshPair symbolic (.secret 9) (.secret 1) (.secret 2)
  draws := firstDraws 1 2

/-- The responder has read the first envelope. -/
def firstRead : Drawn :=
  (unspoken.encrypted .alice (Vector.replicate 12 0) [104]).decrypted .bob 3 unspokenFirst

/-- The responder has answered. -/
def answered : Drawn := firstRead.encrypted .bob (Vector.replicate 12 0) [105]

theorem unspoken_fresh : FreshRun 9 unspoken :=
  .start _ (.init 1 2 (by decide) (by decide) (by decide))

theorem firstRead_later : Later 9 unspoken firstRead := by
  have hsent : Later 9 unspoken (unspoken.encrypted .alice (Vector.replicate 12 0) [104]) :=
    .step _ _ _ (.start _ rfl) (.encrypt _ .alice _ _)
  have hnew : ∀ q, 3 ∉ unspoken.draws q := fun q => by cases q <;> decide
  exact .step _ _ _ hsent
    (.decrypt _ .bob 3 unspokenFirst (by decide) hnew (List.mem_singleton_self _))

theorem answered_later : Later 9 firstRead answered :=
  .step _ _ _ (.start _ rfl) (.encrypt _ .bob _ _)

/-- The responder's state at the start is exposed; reading the first envelope has renewed it. -/
theorem firstRead_renewed : Renewed (· = .bob) unspoken firstRead .bob := by
  have hstate : (firstRead.world .bob).state = (decrypt symbolic (.secret 3)
      (unspoken.world .bob).state unspokenFirst).2 := rfl
  have hturn := decrypt_ratchet (P := symbolic) (r := .secret 3) (s := (unspoken.world .bob).state)
    (e := unspokenFirst) rfl rfl (by decide) (by decide)
  rw [hturn] at hstate
  refine ⟨fun _ => ?_, 1, ?_, fun h => absurd h (by decide)⟩
  · rw [hstate]
    show symbolic.publicKey (.secret 3) ≠ symbolic.publicKey (.secret 2)
    decide
  · rw [hstate]
    rfl

theorem recovery_answered :
    (firstRead.world .bob).since (answered.world .bob) ≠ [] ∧
    ∀ e ∈ (firstRead.world .bob).since (answered.world .bob), ∀ mk, Opens symbolic mk e →
      ¬ Derives SymRule (leaked (· = .bob) unspoken.world answered.wire) (.key mk) :=
  ⟨List.cons_ne_nil _ _, recovery 9 (· = .bob) unspoken firstRead answered unspoken_fresh
    firstRead_later answered_later
    .bob firstRead_renewed⟩

/-! ## 4. How long an exposure lasts -/

section

variable {n : Nat} {x₀ x x' : Drawn} {c : Side × Call Sym} {p : Side} {C : Set Nat}
  {l₀ l : Ledger Sym}

/-- Sealed under a key of the chain that `l₀` sends on. -/
def OnChain (l₀ : Ledger Sym) (e : DrEnvelope Sym) : Prop :=
  ∃ ck i m, l₀.state.ckSend = some ck ∧
    e.ciphertext = symbolic.aeadSeal (messageKey symbolic ck i) e.nonce m

/-- A side that was `l₀`: it is still on the chain of then, or healed. -/
structure Since (C : Set Nat) (l₀ l : Ledger Sym) : Prop where
  now : (l.state.dhSendPub = l₀.state.dhSendPub ∧ ∀ ck, l.state.ckSend = some ck →
      ∃ ck₀ i, l₀.state.ckSend = some ck₀ ∧ ck = chainKey symbolic ck₀ i) ∨
    (l.state.dhSendPub ≠ l₀.state.dhSendPub ∧ Healed C l.state)
  sent : Grown (fun e => (e.header.dh = l₀.state.dhSendPub ∧ OnChain l₀ e) ∨
    (e.header.dh ≠ l₀.state.dhSendPub ∧ SealedOff C e)) l₀ l

theorem Since.same {s : DrState Sym} (h : Since C l₀ l) (hs : SameSend l.state s) {keys : List Sym}
    {acc : List (DrEnvelope Sym)} :
    Since C l₀ { state := s, keys := keys, sent := l.sent, accepted := acc } where
  now := by
    refine h.now.imp (fun ⟨hpub, hck⟩ => ⟨hs.dhSendPub.trans hpub, fun ck e => ?_⟩)
      fun ⟨hpub, hheal⟩ => ⟨fun e => hpub (hs.dhSendPub.symm.trans e), hheal.same hs⟩
    exact hck ck (hs.ckSend.symm.trans e)
  sent := h.sent

theorem Since.encrypt (h : Since C l₀ l) (nonce : Nonce) (m : Bytes) :
    Since C l₀ (l.after symbolic (.encrypt nonce m)) := by
  have hs := encrypt_sends symbolic nonce l.state m
  refine ⟨?_, h.sent.encrypt fun e he => ?_⟩
  · rcases h.now with ⟨hpub, hck⟩ | ⟨hpub, hheal⟩
    · refine .inl ⟨hs.dhSendPub.trans hpub, fun ck e => ?_⟩
      obtain ⟨ck', hck', rfl⟩ := Option.map_eq_some_iff.mp (hs.ckSend.symm.trans e)
      obtain ⟨ck₀, i, hck₀, rfl⟩ := hck ck' hck'
      exact ⟨ck₀, i + 1, hck₀, (chainKey_succ ..).symm⟩
    · exact .inr ⟨fun e => hpub (hs.dhSendPub.symm.trans e), hheal.encrypt nonce m⟩
  · rcases h.now with ⟨hpub, hck⟩ | ⟨hpub, hheal⟩
    · obtain ⟨mk, hmk, rfl⟩ := encrypt_eq_ok he
      obtain ⟨ck, hck', rfl⟩ := Option.map_eq_some_iff.mp hmk
      obtain ⟨ck₀, i, hck₀, rfl⟩ := hck ck hck'
      exact .inl ⟨hpub, ck₀, i, m, hck₀, rfl⟩
    · have hsealed := hheal.seals he
      obtain ⟨mk, -, rfl⟩ := encrypt_eq_ok he
      exact .inr ⟨hpub, hsealed⟩

/-- **A ratchet step heals**, if neither the new secret nor that of the public key it is made on is
    in `C`. -/
theorem Since.turn (h : Since C l₀ l) {k b : Nat} {e : DrEnvelope Sym} (hk : k ∉ C)
    (hnew : l₀.state.dhSendPub ≠ .point k) (hdh : e.header.dh = .point b) (hb : b ∉ C) :
    Since C l₀ (l.after symbolic (.decrypt (.secret k) e)) := by
  rcases decrypt_turns symbolic (.secret k) l.state e with hs | hs
  · exact h.same hs
  · refine ⟨.inr ⟨fun hpub => hnew (hpub.symm.trans hs.dhSendPub), ?_⟩, h.sent⟩
    have ht := (turned_dhRatchet (P := symbolic) (.secret k) l.state e.header.dh).same hs
    rw [hdh] at ht
    exact ht.healed hs.dhSend hk hb

/-- One ratchet step with a new secret, on a key of the side that was not exposed, is enough. -/
theorem Since.decrypt (h : Since (given n (· = p) x₀) (x₀.world p) (x.world p)) (h₀ : FreshInv n x₀)
    (hx : FreshInv n x) (hb : Beyond x₀ x) {k : Nat} {e : DrEnvelope Sym} (hk : k ≠ n)
    (hnew : ∀ q, k ∉ x.draws q) (he : e ∈ (x.world p.other).sent) :
    Since (given n (· = p) x₀) (x₀.world p)
      ((x.world p).after symbolic (.decrypt (.secret k) e)) := by
  obtain ⟨b, hbD, hdh⟩ := (hx.owns p.other).sent e he
  refine h.turn ?_ (fun hpub => ?_) hdh ?_
  · rintro (e | ⟨q, rfl, hq⟩)
    · exact hk e
    · exact hnew q (hb.draws q hq)
  · obtain ⟨a, ha, -, hpub₀⟩ := (h₀.owns p).dhSend
    obtain rfl := Sym.point.inj (hpub.symm.trans hpub₀)
    exact hnew p (hb.draws p ha)
  · rintro (rfl | ⟨q, rfl, hq⟩)
    · exact hx.ne p.other hbD
    · exact hx.apart q b (hb.draws q hq) hbD

theorem Later.since (h : Later n x₀ x) (h₀ : FreshRun n x₀) (p : Side) :
    Since (given n (· = p) x₀) (x₀.world p) (x.world p) := by
  have hall : FreshInv n x ∧ Beyond x₀ x ∧
      Since (given n (· = p) x₀) (x₀.world p) (x.world p) := by
    refine Reach.inv (I := fun x => FreshInv n x ∧ Beyond x₀ x ∧
      Since (given n (· = p) x₀) (x₀.world p) (x.world p)) (fun x e => ?_)
      (fun x c x' ⟨hx, hb, hsince⟩ hst => ?_) h
    · subst e
      exact ⟨h₀.inv, ⟨fun _ _ ht => ht, fun _ => .inl rfl⟩,
        .inl ⟨rfl, fun ck hck => ⟨ck, 0, hck, rfl⟩⟩, .refl ..⟩
    · refine ⟨hx.step hst, hb.step hst, ?_⟩
      have hc := hst.side p
      generalize x'.world p = l', x'.draws p = D' at hc ⊢
      cases hc with
      | idle => exact hsince
      | encrypt nonce m => exact hsince.encrypt nonce m
      | decrypt k e hk hnew he => exact hsince.decrypt h₀.inv hx hb hk hnew he
  exact hall.2.2

/-- From a chain key all that follow can be made. -/
theorem derives_messageKey {K : Set Known} {ck : Sym} (h : Derives SymRule K (.key ck)) (i : Nat) :
    Derives SymRule K (.key (messageKey symbolic ck i)) := by
  have hchain : Derives SymRule K (.key (chainKey symbolic ck i)) := by
    induction i with
    | zero => exact h
    | succ i ih =>
      rw [chainKey_succ]
      exact .one (.expanded _ _) ih
  exact .one (.expanded _ _) hchain

end

/-- **How long an exposure lasts**: of the envelopes that the exposed party sends afterwards,
    exactly those under the ratchet key it had then can be opened with what was exposed. -/
theorem exposed_sender_iff (n : Nat) (x₀ x₁ : Drawn) (h₀ : FreshRun n x₀) (h : Later n x₀ x₁)
    (p : Side) : ∀ e ∈ (x₀.world p).since (x₁.world p), ∀ mk, Opens symbolic mk e →
      (Derives SymRule (leaked (· = p) x₀.world x₁.wire) (.key mk) ↔
        e.header.dh = (x₀.world p).state.dhSendPub) := by
  intro e he mk hmk
  have hsent := (h.since h₀ p).sent.since he
  constructor
  · intro hd
    rcases hsent with ⟨hdh, -⟩ | ⟨-, hoff⟩
    · exact hdh
    · exact absurd hd (hoff.closed h₀.inv (h.run h₀).inv hmk)
  · intro hdh
    rcases hsent with ⟨-, ck, i, m, hck, hc⟩ | ⟨hne, -⟩
    · obtain ⟨m', hm'⟩ := Option.isSome_iff_exists.mp hmk
      obtain rfl : mk = messageKey symbolic ck i := symbolic_ideal.seal_key _ _ _ _ _ _
        ((symbolic_ideal.open_sound _ _ _ _ hm').symm.trans hc)
      exact derives_messageKey (.known _ (.inl ⟨p, rfl, ck, .ckSend ck hck, rfl⟩)) i
    · exact absurd hdh hne

theorem exposed_sender_iff_answered :
    (unspoken.world .bob).since (answered.world .bob) ≠ [] ∧
    ∀ e ∈ (unspoken.world .bob).since (answered.world .bob), ∀ mk, Opens symbolic mk e →
      (Derives SymRule (leaked (· = .bob) unspoken.world answered.wire) (.key mk) ↔
        e.header.dh = (unspoken.world .bob).state.dhSendPub) :=
  ⟨List.cons_ne_nil _ _, exposed_sender_iff 9 unspoken answered unspoken_fresh
    (.step _ _ _ firstRead_later (.encrypt _ .bob _ _)) .bob⟩

end AlterChat.DoubleRatchet
