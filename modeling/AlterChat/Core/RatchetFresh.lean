import AlterChat.Core.RatchetSecrecy

/-!
# Runs with fresh secrets

Honest runs in which no secret is drawn twice, with the numbers of those that each side has drawn.
What a party holds can be made of the shared secret, its own draws and public keys; what it sends on
comes from its key pair and the one it has of its peer.

* `FreshCall` -- the calls;
* `decrypt_turns` -- what `decrypt` does to the sending half of a state: nothing, or a ratchet step;
* `Plain` -- a state whose keys take no secret outside a set; `Turned`, `Paired` -- where the
  sending chain comes from;
* `FreshRun.inv` -- what every run keeps.
-/

namespace AlterChat.DoubleRatchet

open Lib Primitives

/-! ## 1. Runs with fresh secrets -/

/-- The two parties, and the numbers of the secrets each has drawn. -/
structure Drawn where
  world : Side → Ledger Sym
  draws : Side → List Nat

def firstDraws (a b : Nat) : Side → List Nat
  | .alice => [a]
  | .bob => [b]

inductive FreshStart (n : Nat) : Drawn → Prop where
  | init (a b : Nat) (ha : a ≠ n) (hb : b ≠ n) (hab : a ≠ b) :
      FreshStart n ⟨freshPair symbolic (.secret n) (.secret a) (.secret b), firstDraws a b⟩

/-- The first envelope of an initiator that starts with the secret 1 and sends `[104]`. -/
def unspokenFirst : DrEnvelope Sym :=
  firstEnvelope symbolic (.secret 9) (.secret 1) (.secret 2)
    (firstChain symbolic (.secret 9) (.secret 1) (.secret 2)) (Vector.replicate 12 0) [104]

namespace Drawn

def encrypted (x : Drawn) (p : Side) (nonce : Nonce) (m : Bytes) : Drawn :=
  { x with world := called symbolic x.world p (.encrypt nonce m) }

/-- `decrypt` on side `p`, with a secret drawn for it. -/
def decrypted (x : Drawn) (p : Side) (k : Nat) (e : DrEnvelope Sym) : Drawn where
  world := called symbolic x.world p (.decrypt (.secret k) e)
  draws := Function.update x.draws p (k :: x.draws p)

variable (x : Drawn) (p : Side) (nonce : Nonce) (m : Bytes) (k : Nat) (e : DrEnvelope Sym)

@[simp] theorem encrypted_self :
    (x.encrypted p nonce m).world p = (x.world p).after symbolic (.encrypt nonce m) :=
  Function.update_self ..

@[simp] theorem encrypted_other : (x.encrypted p nonce m).world p.other = x.world p.other :=
  Function.update_of_ne p.other_ne ..

@[simp] theorem decrypted_self :
    (x.decrypted p k e).world p = (x.world p).after symbolic (.decrypt (.secret k) e) :=
  Function.update_self ..

@[simp] theorem decrypted_other : (x.decrypted p k e).world p.other = x.world p.other :=
  Function.update_of_ne p.other_ne ..

@[simp] theorem decrypted_draws_self : (x.decrypted p k e).draws p = k :: x.draws p :=
  Function.update_self ..

@[simp] theorem decrypted_draws_other : (x.decrypted p k e).draws p.other = x.draws p.other :=
  Function.update_of_ne p.other_ne ..

end Drawn

/-- An honest call: what is decrypted was sent by the other side, in any order and any number of
    times, and the secret drawn for it is a new one. -/
inductive FreshCall (n : Nat) : Drawn → Side × Call Sym → Drawn → Prop where
  | encrypt (x : Drawn) (p : Side) (nonce : Nonce) (m : Bytes) :
      FreshCall n x (p, .encrypt nonce m) (x.encrypted p nonce m)
  | decrypt (x : Drawn) (p : Side) (k : Nat) (e : DrEnvelope Sym) (hk : k ≠ n)
      (hnew : ∀ q, k ∉ x.draws q) (he : e ∈ (x.world p.other).sent) :
      FreshCall n x (p, .decrypt (.secret k) e) (x.decrypted p k e)

/-- The worlds of these runs. -/
def FreshRun (n : Nat) : Drawn → Prop := Reach (FreshStart n) (FreshCall n)

/-- From one world of a run to a later one. -/
def Later (n : Nat) (x₀ : Drawn) : Drawn → Prop := Reach (· = x₀) (FreshCall n)

/-! ## 2. The sending half of a state -/

section

variable {Key : Type} {P : Primitives Key} {s s' : DrState Key}

/-- Two states with the same key pairs, root key and sending chain. -/
structure SameSend (s s' : DrState Key) : Prop where
  dhSend : s'.dhSend = s.dhSend
  dhSendPub : s'.dhSendPub = s.dhSendPub
  dhRecv : s'.dhRecv = s.dhRecv
  rootKey : s'.rootKey = s.rootKey
  ckSend : s'.ckSend = s.ckSend

/-- Root key and sending chain come from the two key pairs of the state. -/
structure Turned (P : Primitives Key) (s : DrState Key) (r : Key) : Prop where
  dhRecv : s.dhRecv = some r
  keys : ∃ rk i, s.rootKey = (kdfRk P rk (P.diffieHellman s.dhSend r)).1 ∧
    s.ckSend = some (chainKey P (kdfRk P rk (P.diffieHellman s.dhSend r)).2 i)

/-- The sending chain started from the two key pairs of the state, if it started. -/
def Paired (P : Primitives Key) (s : DrState Key) : Prop :=
  (s.dhRecv = none ∧ s.ckSend = none) ∨ ∃ r, Turned P s r

/-- A call of `encrypt` moves the sending chain, if there is one, and keeps the rest. -/
theorem encrypt_sends (P : Primitives Key) (nonce : Nonce) (s : DrState Key) (m : Bytes) :
    SameSend { s with ckSend := s.ckSend.map fun ck => (kdfCk P ck).1 }
    (encrypt P nonce s m).2 := by
  rw [encrypt_state]
  exact ⟨rfl, rfl, rfl, rfl, rfl⟩

theorem Turned.same {r : Key} (h : Turned P s r) (hs : SameSend s s') : Turned P s' r := by
  obtain ⟨rk, i, hroot, hck⟩ := h.keys
  refine ⟨hs.dhRecv.trans h.dhRecv, rk, i, ?_, ?_⟩
  · rw [hs.rootKey, hs.dhSend, hroot]
  · rw [hs.ckSend, hs.dhSend, hck]

theorem Paired.same (h : Paired P s) (hs : SameSend s s') : Paired P s' :=
  h.imp (fun ⟨hr, hck⟩ => ⟨hs.dhRecv.trans hr, hs.ckSend.trans hck⟩)
    fun ⟨r, ht⟩ => ⟨r, ht.same hs⟩

theorem Paired.encrypt (h : Paired P s) (nonce : Nonce) (m : Bytes) :
    Paired P (encrypt P nonce s m).2 := by
  refine Paired.same ?_ (encrypt_sends P nonce s m)
  rcases h with ⟨hr, hck⟩ | ⟨r, hr, rk, i, hroot, hck⟩
  · exact .inl ⟨hr, by rw [hck]; rfl⟩
  · refine .inr ⟨r, hr, rk, i + 1, hroot, ?_⟩
    rw [hck, chainKey_succ]
    rfl

theorem turned_dhRatchet (r : Key) (s : DrState Key) (dh : Key) :
    Turned P (dhRatchet P r s dh) dh :=
  ⟨rfl, _, 0, rfl, rfl⟩

variable [Zero Key]

theorem sameSend_skipTo (s : DrState Key) (til : Nat) : SameSend s (skipTo P s til) := by
  unfold skipTo
  split <;> exact ⟨rfl, rfl, rfl, rfl, rfl⟩

/-- A ratchet step takes nothing from the receiving chain. -/
theorem sameSend_afterRatchet (r : Key) (s : DrState Key) (h : DrHeader Key) :
    SameSend (dhRatchet P r s h.dh) (afterRatchet P r s h) := by
  have hs := sameSend_skipTo (P := P) s h.pn
  refine ⟨rfl, rfl, rfl, ?_, ?_⟩ <;>
    simp only [afterRatchet, dhRatchet, hs.dhSend, hs.rootKey]

/-- **What `decrypt` does to the sending half**: nothing, or a ratchet step. -/
theorem decrypt_turns [DecidableEq Key] (P : Primitives Key) (r : Key) (s : DrState Key)
    (e : DrEnvelope Key) : SameSend s (decrypt P r s e).2 ∨
      SameSend (dhRatchet P r s e.header.dh) (decrypt P r s e).2 := by
  have hc := decrypt_cases P r s e
  generalize decrypt P r s e = out at hc
  cases hc with
  | skipped => exact .inl ⟨rfl, rfl, rfl, rfl, rfl⟩
  | ratchetFar => exact .inl ⟨rfl, rfl, rfl, rfl, rfl⟩
  | ratchetFarNew => exact .inr (sameSend_afterRatchet ..)
  | ratchet =>
    have h := sameSend_afterRatchet (P := P) r s e.header
    exact .inr ⟨h.dhSend, h.dhSendPub, h.dhRecv, h.rootKey, h.ckSend⟩
  | currentFar => exact .inl ⟨rfl, rfl, rfl, rfl, rfl⟩
  | noChain => exact .inl ⟨rfl, rfl, rfl, rfl, rfl⟩
  | current => exact .inl ⟨rfl, rfl, rfl, rfl, rfl⟩

end

/-! ## 3. What a party can make of its own draws -/

section

variable {C C' : Set Nat} {s : DrState Sym} {ck : Sym}

@[simp] theorem hidden_chainKey (j : Nat) :
    (chainKey symbolic ck j).Hidden C ↔ ck.Hidden C := by
  induction j with
  | zero => exact Iff.rfl
  | succ j ih =>
    rw [chainKey_succ]
    exact ih

@[simp] theorem hidden_messageKey (j : Nat) :
    (messageKey symbolic ck j).Hidden C ↔ ck.Hidden C :=
  hidden_chainKey j

/-- No key of the state takes a secret outside `C`. -/
def Plain (C : Set Nat) (s : DrState Sym) : Prop := ∀ k, s.Contains k → ¬ k.Hidden C

theorem Plain.mono (h : Plain C s) (hC : C ⊆ C') : Plain C' s :=
  fun k hk hd => h k hk (hd.anti hC)

theorem Plain.dhRecv (h : Plain C s) : ¬ (s.dhRecv.getD 0).Hidden C := by
  cases hr : s.dhRecv with
  | none => exact not_false
  | some r => exact h r (.dhRecv r hr)

theorem Plain.encrypt (h : Plain C s) (nonce : Nonce) (m : Bytes) :
    Plain C (encrypt symbolic nonce s m).2 := by
  intro k hk
  rw [encrypt_state] at hk
  cases hk with
  | dhSend => exact h _ .dhSend
  | dhSendPub => exact h _ .dhSendPub
  | dhRecv k hk => exact h _ (.dhRecv k hk)
  | rootKey => exact h _ .rootKey
  | ckSend k hk =>
    obtain ⟨ck, hck, rfl⟩ := Option.map_eq_some_iff.mp hk
    exact h ck (.ckSend ck hck)
  | ckRecv k hk => exact h _ (.ckRecv k hk)
  | skippedMk y hy => exact h _ (.skippedMk y hy)
  | skippedDh y hy => exact h _ (.skippedDh y hy)

/-- Fewer stored keys. -/
theorem Plain.erase (h : Plain C s) {l : List (SkippedKey Sym)} (hl : l ⊆ s.skipped) :
    Plain C { s with skipped := l } := by
  intro k hk
  cases hk with
  | dhSend => exact h _ .dhSend
  | dhSendPub => exact h _ .dhSendPub
  | dhRecv k hk => exact h _ (.dhRecv k hk)
  | rootKey => exact h _ .rootKey
  | ckSend k hk => exact h _ (.ckSend k hk)
  | ckRecv k hk => exact h _ (.ckRecv k hk)
  | skippedMk y hy => exact h _ (.skippedMk y (hl hy))
  | skippedDh y hy => exact h _ (.skippedDh y (hl hy))

/-- The receiving chain moves on, and the keys it passes over are stored. -/
theorem Plain.passOver (h : Plain C s) (hck : s.ckRecv = some ck) (i j n n' : Nat) :
    Plain C { s with
      ckRecv := some (chainKey symbolic ck j)
      nRecv := n'
      skipped := s.skipped ++ skippedKeys symbolic (s.dhRecv.getD 0) ck n i } := by
  have hc := h ck (.ckRecv ck hck)
  intro k hk
  cases hk with
  | dhSend => exact h _ .dhSend
  | dhSendPub => exact h _ .dhSendPub
  | dhRecv k hk => exact h _ (.dhRecv k hk)
  | rootKey => exact h _ .rootKey
  | ckSend k hk => exact h _ (.ckSend k hk)
  | ckRecv k hk =>
    cases hk
    exact fun hd => hc ((hidden_chainKey j).mp hd)
  | skippedMk y hy =>
    rcases List.mem_append.mp hy with hy | hy
    · exact h _ (.skippedMk y hy)
    · obtain ⟨t, -, rfl⟩ := List.mem_map.mp hy
      exact fun hd => hc ((hidden_messageKey t).mp hd)
  | skippedDh y hy =>
    rcases List.mem_append.mp hy with hy | hy
    · exact h _ (.skippedDh y hy)
    · obtain ⟨t, -, rfl⟩ := List.mem_map.mp hy
      exact h.dhRecv

theorem Plain.skipTo (h : Plain C s) (til : Nat) : Plain C (skipTo symbolic s til) := by
  unfold DoubleRatchet.skipTo
  cases hck : s.ckRecv with
  | none => exact h
  | some ck => exact h.passOver hck _ _ _ _

/-- A ratchet step with a secret of `C`, on a public key. -/
theorem Plain.ratchet (h : Plain C s) {k : Nat} (hk : k ∈ C) (b : Nat) :
    Plain C (dhRatchet symbolic (.secret k) s (.point b)) := by
  have hsecret : ¬ (Sym.secret k).Hidden C := not_not_intro hk
  have hold : ¬ (s.dhSend.diffieHellman (.point b)).Hidden C :=
    Sym.not_hidden_diffieHellman (h _ .dhSend) _
  have hnew : ¬ ((Sym.secret k).diffieHellman (.point b)).Hidden C :=
    Sym.not_hidden_diffieHellman hsecret _
  have hroot := h _ .rootKey
  intro t ht
  cases ht with
  | dhSend => exact hsecret
  | dhSendPub => exact Sym.not_hidden_publicKey (.secret k)
  | dhRecv t ht =>
    cases ht
    exact not_false
  | rootKey => exact fun hd => hd.elim (fun hd => hd.elim hroot hold) hnew
  | ckSend t ht =>
    cases ht
    exact fun hd => hd.elim (fun hd => hd.elim hroot hold) hnew
  | ckRecv t ht =>
    cases ht
    exact fun hd => hd.elim hroot hold
  | skippedMk y hy => exact h _ (.skippedMk y hy)
  | skippedDh y hy => exact h _ (.skippedDh y hy)

theorem Plain.decrypt (h : Plain C s) {k : Nat} (hk : k ∈ C) {e : DrEnvelope Sym} {b : Nat}
    (hb : e.header.dh = .point b) : Plain C (decrypt symbolic (.secret k) s e).2 := by
  have hc := decrypt_cases symbolic (.secret k) s e
  generalize DoubleRatchet.decrypt symbolic (.secret k) s e = out at hc
  have hturn : Plain C (afterRatchet symbolic (.secret k) s e.header) := by
    unfold afterRatchet
    rw [hb]
    exact (h.skipTo _).ratchet hk b
  cases hc with
  | skipped => exact h.erase List.eraseP_subset
  | ratchetFar => exact h
  | ratchetFarNew => exact hturn
  | ratchet => exact hturn.passOver (afterRatchet_ckRecv _) _ _ _ _
  | currentFar => exact h
  | noChain => exact h
  | current ck _ _ _ hck => exact h.passOver hck _ _ _ _

end

/-! ## 4. What every party keeps -/

/-- The shared secret and the draws. -/
def own (n : Nat) (D : List Nat) : Set Nat := {k | k = n ∨ k ∈ D}

/-- A party that has drawn `D`, and its peer `D'`. -/
structure Owns (n : Nat) (D D' : List Nat) (l : Ledger Sym) : Prop where
  dhSend : ∃ a ∈ D, l.state.dhSend = .secret a ∧ l.state.dhSendPub = .point a
  dhRecv : ∀ r, l.state.dhRecv = some r → ∃ b ∈ D', r = .point b
  sent : ∀ e ∈ l.sent, ∃ a ∈ D, e.header.dh = .point a
  plain : Plain (own n D) l.state
  paired : Paired symbolic l.state

section

variable {n : Nat} {D D' : List Nat} {l : Ledger Sym}

theorem Owns.peer_draws (h : Owns n D D' l) (k : Nat) : Owns n D (k :: D') l where
  dhSend := h.dhSend
  dhRecv r hr := by
    obtain ⟨b, hb, e⟩ := h.dhRecv r hr
    exact ⟨b, List.mem_cons_of_mem _ hb, e⟩
  sent := h.sent
  plain := h.plain
  paired := h.paired

theorem Owns.encrypt (h : Owns n D D' l) (nonce : Nonce) (m : Bytes) :
    Owns n D D' (l.after symbolic (.encrypt nonce m)) := by
  have hs := encrypt_sends symbolic nonce l.state m
  obtain ⟨a, ha, hsecret, hpub⟩ := h.dhSend
  exact
  { dhSend := ⟨a, ha, hs.dhSend.trans hsecret, hs.dhSendPub.trans hpub⟩
    dhRecv := fun r hr => h.dhRecv r (hs.dhRecv.symm.trans hr)
    sent := fun e he => by
      rcases Ledger.sent_encrypt he with he | he
      · exact h.sent e he
      · obtain ⟨mk, -, rfl⟩ := encrypt_eq_ok he
        exact ⟨a, ha, hpub⟩
    plain := h.plain.encrypt nonce m
    paired := h.paired.encrypt nonce m }

theorem Owns.decrypt (h : Owns n D D' l) (k : Nat) {e : DrEnvelope Sym}
    (he : ∃ b ∈ D', e.header.dh = .point b) :
    Owns n (k :: D) D' (l.after symbolic (.decrypt (.secret k) e)) := by
  obtain ⟨b, hb, hdh⟩ := he
  have hsub : own n D ⊆ own n (k :: D) := fun t ht => ht.imp_right (List.mem_cons_of_mem _)
  have hplain := (h.plain.mono hsub).decrypt (k := k) (.inr List.mem_cons_self) hdh
  have hsent : ∀ e ∈ l.sent, ∃ a ∈ k :: D, e.header.dh = .point a := fun e he => by
    obtain ⟨a, ha, hpub⟩ := h.sent e he
    exact ⟨a, List.mem_cons_of_mem _ ha, hpub⟩
  rcases decrypt_turns symbolic (.secret k) l.state e with hs | hs
  · obtain ⟨a, ha, hsecret, hpub⟩ := h.dhSend
    exact
    { dhSend := ⟨a, List.mem_cons_of_mem _ ha, hs.dhSend.trans hsecret, hs.dhSendPub.trans hpub⟩
      dhRecv := fun r hr => h.dhRecv r (hs.dhRecv.symm.trans hr)
      sent := hsent
      plain := hplain
      paired := h.paired.same hs }
  · exact
    { dhSend := ⟨k, List.mem_cons_self, hs.dhSend, hs.dhSendPub⟩
      dhRecv := fun r hr => by
        have hr := hs.dhRecv.symm.trans hr
        cases hr
        exact ⟨b, hb, hdh⟩
      sent := hsent
      plain := hplain
      paired := .inr ⟨_, (turned_dhRatchet ..).same hs⟩ }

/-- The start, from a secret that takes nothing but `n`. -/
theorem owns_start {sk : Sym} (hsk : ¬ sk.Hidden {n}) {a b : Nat} (p : Side) :
    Owns n (firstDraws a b p) (firstDraws a b p.other)
      (freshPair symbolic sk (.secret a) (.secret b) p) := by
  have hn : ∀ D, ¬ sk.Hidden (own n D) := fun D hd => hsk (hd.anti fun _ hk => .inl hk)
  cases p with
  | alice =>
    refine
    { dhSend := ⟨a, List.mem_singleton_self a, rfl, rfl⟩
      dhRecv := fun r hr => by
        cases hr
        exact ⟨b, List.mem_singleton_self b, rfl⟩
      sent := nofun
      plain := fun k hk => ?_
      paired := .inr ⟨_, rfl, _, 0, rfl, rfl⟩ }
    have ha : ¬ (Sym.secret a).Hidden (own n [a]) :=
      not_not_intro (.inr (List.mem_singleton_self a))
    have hab := Sym.not_hidden_diffieHellman ha (.point b)
    cases hk with
    | dhSend => exact ha
    | dhSendPub => exact Sym.not_hidden_publicKey (.secret a)
    | dhRecv k hk =>
      cases hk
      exact Sym.not_hidden_publicKey (.secret b)
    | rootKey => exact fun hd => hd.elim (hn _) hab
    | ckSend k hk =>
      cases hk
      exact fun hd => hd.elim (hn _) hab
    | ckRecv k hk => cases hk
    | skippedMk y hy => cases hy
    | skippedDh y hy => cases hy
  | bob =>
    refine
    { dhSend := ⟨b, List.mem_singleton_self b, rfl, rfl⟩
      dhRecv := nofun
      sent := nofun
      plain := fun k hk => ?_
      paired := .inl ⟨rfl, rfl⟩ }
    cases hk with
    | dhSend => exact not_not_intro (.inr (List.mem_singleton_self b))
    | dhSendPub => exact Sym.not_hidden_publicKey (.secret b)
    | dhRecv k hk => cases hk
    | rootKey => exact hn _
    | ckSend k hk => cases hk
    | ckRecv k hk => cases hk
    | skippedMk y hy => cases hy
    | skippedDh y hy => cases hy

end

/-- What every run keeps. -/
structure FreshInv (n : Nat) (x : Drawn) : Prop where
  ne : ∀ p, n ∉ x.draws p
  apart : ∀ p, ∀ k ∈ x.draws p, k ∉ x.draws p.other
  owns : ∀ p, Owns n (x.draws p) (x.draws p.other) (x.world p)

theorem FreshInv.step {n : Nat} {x x' : Drawn} {c : Side × Call Sym} (h : FreshInv n x)
    (hst : FreshCall n x c x') : FreshInv n x' := by
  cases hst with
  | encrypt p nonce m =>
    refine ⟨h.ne, h.apart, fun q => ?_⟩
    rcases p.eq_or_other q with rfl | rfl
    · rw [Drawn.encrypted_self]
      exact (h.owns q).encrypt nonce m
    · rw [Drawn.encrypted_other]
      exact h.owns p.other
  | decrypt p k e hk hnew he =>
    refine ⟨fun q => ?_, fun q => ?_, fun q => ?_⟩
    · rcases p.eq_or_other q with rfl | rfl
      · rw [Drawn.decrypted_draws_self]
        exact fun hn => (List.mem_cons.mp hn).elim (fun e => hk e.symm) (h.ne q)
      · rw [Drawn.decrypted_draws_other]
        exact h.ne p.other
    · rcases p.eq_or_other q with rfl | rfl
      · rw [Drawn.decrypted_draws_self, Drawn.decrypted_draws_other]
        intro t ht
        rcases List.mem_cons.mp ht with rfl | ht
        · exact hnew q.other
        · exact h.apart q t ht
      · rw [Side.other_other, Drawn.decrypted_draws_self, Drawn.decrypted_draws_other]
        intro t ht ht'
        rcases List.mem_cons.mp ht' with rfl | ht'
        · exact hnew p.other ht
        · exact h.apart p t ht' ht
    · rcases p.eq_or_other q with rfl | rfl
      · rw [Drawn.decrypted_draws_self, Drawn.decrypted_draws_other, Drawn.decrypted_self]
        exact (h.owns q).decrypt k ((h.owns q.other).sent e he)
      · rw [Side.other_other, Drawn.decrypted_draws_self, Drawn.decrypted_draws_other,
          Drawn.decrypted_other]
        have hown := h.owns p.other
        rw [Side.other_other] at hown
        exact hown.peer_draws k

/-- It holds at the start. -/
theorem freshInv_start {n a b : Nat} {sk : Sym} (hsk : ¬ sk.Hidden {n}) (ha : a ≠ n) (hb : b ≠ n)
    (hab : a ≠ b) : FreshInv n ⟨freshPair symbolic sk (.secret a) (.secret b), firstDraws a b⟩ := by
  refine ⟨fun p => ?_, fun p k hk => ?_, owns_start hsk⟩
  · cases p with
    | alice => exact fun h => ha (List.mem_singleton.mp h).symm
    | bob => exact fun h => hb (List.mem_singleton.mp h).symm
  · cases p with
    | alice =>
      obtain rfl := List.mem_singleton.mp hk
      exact fun h => hab (List.mem_singleton.mp h)
    | bob =>
      obtain rfl := List.mem_singleton.mp hk
      exact fun h => hab (List.mem_singleton.mp h).symm

theorem FreshRun.inv {n : Nat} {x : Drawn} (h : FreshRun n x) : FreshInv n x := by
  refine Reach.inv (fun x hs => ?_) (fun x c x' hx hst => hx.step hst) h
  cases hs with
  | init a b ha hb hab => exact freshInv_start (not_not_intro rfl) ha hb hab

end AlterChat.DoubleRatchet
