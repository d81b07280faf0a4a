import AlterChat.Core.RatchetErrors
import AlterChat.Core.RatchetKeys

/-!
# Forward secrecy

In the symbolic model. What a party holds is further along than the keys of the messages it is done
with: its root key is deeper, its chains have moved past them or are other chains, and none of the
keys it has stored is one of them. A message key can only be made from the salts it was derived
from, and none of these is held any more.

* `above_message` -- what a message key was derived from, salt by salt;
* `Lost` -- a message key none of whose salts the state holds (`Lost.not_above`);
* `Outside` -- the keys of a state that have nothing to do with the shared secret;
* `forward_secrecy` -- in every honest run, for every accepted message and right after every
  `encrypt`.
-/

namespace AlterChat.DoubleRatchet

open Lib Primitives

/-! ## 1. What a key was derived from -/

section

variable {Key : Type} {P : Primitives Key} {sk : Key} {n d : Nat} {rk ck mk t : Key}

/-- A root key or what the shared secret itself may have been derived from. -/
def Rootward (P : Primitives Key) (sk : Key) (n : Nat) (t : Key) : Prop :=
  (∃ n', n' ≤ n ∧ RootAt P sk n' t) ∨ Descends P t sk

theorem above_root (hP : P.Ideal) (h : RootAt P sk n rk) (hd : Descends P t rk) :
    Rootward P sk n t := by
  induction h with
  | shared => exact .inr hd
  | step n rk x hr ih =>
    rcases hP.descends_hkdf hd with rfl | hd
    · exact .inl ⟨n + 1, Nat.le_refl _, hr.step n rk x⟩
    · exact (ih hd).imp (fun ⟨n', hn, h'⟩ => ⟨n', by omega, h'⟩) id

theorem above_chain (hP : P.Ideal) (h : RootAt P sk n rk) (x : Key) {j : Nat}
    (hd : Descends P t (chainKey P (kdfRk P rk x).2 j)) :
    (∃ i, i ≤ j ∧ t = chainKey P (kdfRk P rk x).2 i) ∨ Rootward P sk n t := by
  induction j with
  | zero =>
    rcases hP.descends_hkdf hd with rfl | hd
    · exact .inl ⟨0, Nat.le_refl _, rfl⟩
    · exact .inr (above_root hP h hd)
  | succ j ih =>
    rw [chainKey_succ] at hd
    rcases hP.descends_hkdf hd with rfl | hd
    · exact .inl ⟨j + 1, Nat.le_refl _, (chainKey_succ ..).symm⟩
    · exact (ih hd).imp (fun ⟨i, hi, e⟩ => ⟨i, by omega, e⟩) id

/-- **What a message key was derived from**: the chain keys up to its own, and the root keys up to
    the one its chain came from. -/
theorem above_message (hP : P.Ideal) (h : RootAt P sk n rk) (x : Key) {j : Nat}
    (hd : Descends P t (messageKey P (kdfRk P rk x).2 j)) :
    t = messageKey P (kdfRk P rk x).2 j ∨
      (∃ i, i ≤ j ∧ t = chainKey P (kdfRk P rk x).2 i) ∨ Rootward P sk n t :=
  (hP.descends_hkdf hd).imp id fun hd => above_chain hP h x hd

/-! A root key, a chain key and a message key are never the same. -/

/-- Derived from the shared secret, and not the secret. -/
def Below (P : Primitives Key) (sk t : Key) : Prop := ¬ Descends P t sk

theorem below_hkdf (hP : P.Ideal) (h : Descends P sk t) (i : Option Key) (l : String) :
    Below P sk (P.hkdf t i l) := by
  obtain ⟨rank, hr⟩ := hP.hkdf_acyclic
  intro hd
  have h1 := h.rank_le hr
  have h2 := hr t i l
  have h3 := hd.rank_le hr
  omega

theorem RootAt.descends (h : RootAt P sk n rk) : Descends P sk rk := by
  induction h with
  | shared => exact .refl
  | step n rk x _ ih => exact .hkdf rk (some x) "root" ih

theorem ChainAt.below (hP : P.Ideal) (h : ChainAt P sk n ck) : Below P sk ck := by
  obtain ⟨rk, x, i, hr, rfl⟩ := h
  cases i with
  | zero => exact below_hkdf hP hr.descends _ _
  | succ i =>
    rw [chainKey_succ]
    exact below_hkdf hP (chainKey_descends (.hkdf _ _ _ hr.descends) i) _ _

theorem ChainAt.descends (h : ChainAt P sk n ck) : Descends P sk ck := by
  obtain ⟨rk, x, i, hr, rfl⟩ := h
  exact chainKey_descends (.hkdf _ _ _ hr.descends) i

theorem MessageAt.descends (h : MessageAt P sk n mk) : Descends P sk mk := by
  obtain ⟨ck, hc, rfl⟩ := h
  exact .hkdf _ _ _ hc.descends

theorem MessageAt.below (hP : P.Ideal) (h : MessageAt P sk n mk) : Below P sk mk := by
  obtain ⟨ck, hc, rfl⟩ := h
  exact below_hkdf hP hc.descends _ _

theorem chainKey_ne_root (hP : P.Ideal) {x rk' x' : Key} (i : Nat) :
    chainKey P (kdfRk P rk x).2 i ≠ (kdfRk P rk' x').1 := by
  cases i with
  | zero => exact fun e => absurd (hP.hkdf_inj _ _ _ _ _ _ e).2.2 (by decide)
  | succ i =>
    rw [chainKey_succ]
    exact fun e => absurd (hP.hkdf_inj _ _ _ _ _ _ e).2.1 nofun

theorem chainKey_ne_message (hP : P.Ideal) {x ck : Key} (i : Nat) :
    chainKey P (kdfRk P rk x).2 i ≠ (kdfCk P ck).2 := by
  cases i with
  | zero => exact fun e => absurd (hP.hkdf_inj _ _ _ _ _ _ e).2.1 nofun
  | succ i =>
    rw [chainKey_succ]
    exact fun e => absurd (hP.hkdf_inj _ _ _ _ _ _ e).2.2 (by decide)

theorem message_ne_root (hP : P.Ideal) {x ck : Key} : (kdfCk P ck).2 ≠ (kdfRk P rk x).1 :=
  fun e => absurd (hP.hkdf_inj _ _ _ _ _ _ e).2.1 nofun

/-- What is below the shared secret and no result of a root step is not rootward. -/
theorem not_rootward (hb : Below P sk t) (hne : ∀ rk x, t ≠ (kdfRk P rk x).1) :
    ¬ Rootward P sk n t := by
  rintro (⟨n', -, hr⟩ | hd)
  · cases hr with
    | shared => exact hb .refl
    | step n rk x _ => exact hne rk x rfl
  · exact hb hd

/-! ## 2. Keys that are lost -/

/-- A root key deeper than the chain of a message key is none of its salts. -/
theorem RootAt.not_above (hP : P.Ideal) (h : RootAt P sk d t) (hn : n < d)
    (hm : MessageAt P sk n mk) : ¬ Descends P t mk := by
  obtain ⟨ck, ⟨rk, x, j, hr, rfl⟩, rfl⟩ := hm
  intro hd
  cases h with
  | shared => omega
  | step d rk' x' h' =>
    rcases above_message hP hr x hd with e | ⟨i, -, e⟩ | ⟨n', hn', hr'⟩ | hd
    · exact message_ne_root hP e.symm
    · exact chainKey_ne_root hP i e.symm
    · have := (h'.step d rk' x').unique hP hr' rfl
      omega
    · exact below_hkdf hP h'.descends _ _ hd

/-- A chain key is a salt of the message keys still to come, and of no other. -/
theorem ChainAt.not_above (hP : P.Ideal) (h : ChainAt P sk d ck) (hm : MessageAt P sk n mk)
    (hna : ¬ Ahead P (some ck) mk) : ¬ Descends P ck mk := by
  obtain ⟨ck', ⟨rk, x, j, hr, rfl⟩, rfl⟩ := hm
  have hb := h.below hP
  obtain ⟨rk', x', i', hr', rfl⟩ := h
  intro hd
  rcases above_message hP hr x hd with e | ⟨i, hi, e⟩ | hrw
  · exact chainKey_ne_message hP i' e
  · obtain ⟨rfl, rfl, rfl⟩ := chainKey_start_inj hP e
    refine hna ⟨_, j - i', rfl, ?_⟩
    rw [messageKey_chainKey, Nat.add_sub_cancel' hi]
    rfl
  · exact not_rootward hb (fun _ _ => chainKey_ne_root hP i') hrw

/-- A message key is a salt of no other. -/
theorem MessageAt.not_above (hP : P.Ideal) (h : MessageAt P sk d t) (hm : MessageAt P sk n mk)
    (hne : t ≠ mk) : ¬ Descends P t mk := by
  obtain ⟨ck, ⟨rk, x, j, hr, rfl⟩, rfl⟩ := hm
  have hb := h.below hP
  obtain ⟨ck', -, rfl⟩ := h
  intro hd
  rcases above_message hP hr x hd with e | ⟨i, -, e⟩ | hrw
  · exact hne e
  · exact chainKey_ne_message hP i e.symm
  · exact not_rootward hb (fun _ _ => message_ne_root hP) hrw

/-- A message key that the state is past: no chain of it leads there, and it is not stored. -/
structure Lost (P : Primitives Key) (sk : Key) (d : Nat) (s : DrState Key) (mk : Key) : Prop where
  below : ∃ n, n < d ∧ MessageAt P sk n mk
  notSent : ¬ Ahead P s.ckSend mk
  notReceived : ¬ Ahead P s.ckRecv mk
  notStored : ∀ k ∈ s.skipped, k.mk ≠ mk

variable {p : Side} {s : DrState Key}

/-- Chains of the other parity do not lead to a message key. -/
theorem not_ahead_of_parity (hP : P.Ideal) {chain : Option Key} {a b : Nat} (hab : a ≠ b)
    (hc : ∀ ck, chain = some ck → ∃ n, n < d ∧ n % 2 = a ∧ ChainAt P sk n ck)
    (hn : n % 2 = b) (hm : MessageAt P sk n mk) : ¬ Ahead P chain mk := by
  rintro ⟨ck, i, hck, rfl⟩
  obtain ⟨n', -, hn', hat⟩ := hc ck hck
  have := hm.unique hP (hat.message i)
  omega

/-- **What the receiver has spent is lost.** -/
theorem Spent.lost (hP : P.Ideal) (hl : Line P sk p d s) (h : Spent P sk p d s mk) :
    Lost P sk d s mk := by
  obtain ⟨n, hn, hpar, hm⟩ := h.behind.below
  exact
  { below := ⟨n, hn, hm⟩
    notSent := not_ahead_of_parity hP p.parity_other hl.send hpar hm
    notReceived := h.behind.notAhead
    notStored := h.notStored }

/-- **What the sender has used is lost.** -/
theorem Behind.lost (hP : P.Ideal) (hl : Line P sk p d s)
    (h : Behind P sk d p.other.parity s.ckSend mk) : Lost P sk d s mk := by
  obtain ⟨n, hn, hpar, hm⟩ := h.below
  refine ⟨⟨n, hn, hm⟩, h.notAhead, not_ahead_of_parity hP p.parity_other.symm hl.recv hpar hm, ?_⟩
  intro k hk e
  obtain ⟨n', -, hpar', hm'⟩ := (hl.stored k hk).below
  have := hm.unique hP (e ▸ hm')
  have := p.parity_other
  omega

end

/-! ## 3. What a party holds, and what is on the wire -/

/-- The keys in a state. -/
inductive DrState.Contains {Key : Type} (s : DrState Key) : Key → Prop where
  | dhSend : s.Contains s.dhSend
  | dhSendPub : s.Contains s.dhSendPub
  | dhRecv (k : Key) (h : s.dhRecv = some k) : s.Contains k
  | rootKey : s.Contains s.rootKey
  | ckSend (k : Key) (h : s.ckSend = some k) : s.Contains k
  | ckRecv (k : Key) (h : s.ckRecv = some k) : s.Contains k
  | skippedMk (x : SkippedKey Key) (h : x ∈ s.skipped) : s.Contains x.mk
  | skippedDh (x : SkippedKey Key) (h : x ∈ s.skipped) : s.Contains x.dhPub

/-- What an envelope shows. -/
inductive Shows (e : DrEnvelope Sym) : Known → Prop where
  | dh : Shows e (.key e.header.dh)
  | nonce : Shows e (.text e.nonce.toList)
  | ciphertext : Shows e (.text e.ciphertext)

/-- A state and some envelopes. -/
def exposed (s : DrState Sym) (es : List (DrEnvelope Sym)) : Set Known :=
  {i | (∃ k, s.Contains k ∧ i = .key k) ∨ ∃ e ∈ es, Shows e i}

/-- The key does not come from the shared secret, the numbered secret `n`. -/
def Foreign (n : Nat) (k : Sym) : Prop := k.origin ≠ .secret n

/-- The keys of a state that do not come from the shared secret. -/
structure Outside (n : Nat) (s : DrState Sym) : Prop where
  dhSend : Foreign n s.dhSend
  dhSendPub : Foreign n s.dhSendPub
  dhRecv : ∀ k, s.dhRecv = some k → Foreign n k
  skipped : ∀ x ∈ s.skipped, Foreign n x.dhPub

theorem foreign_publicKey (n : Nat) (k : Sym) : Foreign n (symbolic.publicKey k) := by
  cases k <;> nofun

theorem foreign_secret {n k : Nat} (h : k ≠ n) : Foreign n (.secret k) :=
  fun e => h (Sym.secret.inj e)

theorem Foreign.not_above {n : Nat} {k mk : Sym} (h : Foreign n k)
    (hm : Descends symbolic (.secret n) mk) : ¬ Descends symbolic k mk := fun hd =>
  h ((origin_of_descends hd).trans (origin_of_descends hm).symm)

/-- **A lost message key cannot be derived** from the state and envelopes whose public keys do not
    come from the shared secret. -/
theorem Lost.not_derivable {n d : Nat} {p : Side} {s : DrState Sym} {mk : Sym}
    (hl : Line symbolic (.secret n) p d s) (ho : Outside n s)
    (h : Lost symbolic (.secret n) d s mk) {es : List (DrEnvelope Sym)}
    (hes : ∀ e ∈ es, Foreign n e.header.dh) : ¬ Derives SymRule (exposed s es) (.key mk) := by
  have hP := symbolic_ideal
  obtain ⟨n', hn', hm⟩ := h.below
  have hsk := hm.descends
  have horigin : mk.origin = .secret n := (origin_of_descends hsk).symm
  have hoff : exposed s es ⊆ Off mk := by
    rintro i (⟨k, hk, rfl⟩ | ⟨e, he, hi⟩) k' e'
    · cases e'
      cases hk with
      | dhSend => exact ho.dhSend.not_above hsk
      | dhSendPub => exact ho.dhSendPub.not_above hsk
      | dhRecv _ hk => exact (ho.dhRecv _ hk).not_above hsk
      | rootKey => exact hl.root.not_above hP hn' hm
      | ckSend _ hk =>
        obtain ⟨_, -, -, hc⟩ := hl.send _ hk
        exact hc.not_above hP hm (hk ▸ h.notSent)
      | ckRecv _ hk =>
        obtain ⟨_, -, -, hc⟩ := hl.recv _ hk
        exact hc.not_above hP hm (hk ▸ h.notReceived)
      | skippedMk x hx =>
        obtain ⟨_, -, -, hat⟩ := (hl.stored x hx).below
        exact hat.not_above hP hm (h.notStored x hx)
      | skippedDh x hx => exact (ho.skipped x hx).not_above hsk
    · cases hi with
      | dh =>
        cases e'
        exact (hes e he).not_above hsk
      | nonce => cases e'
      | ciphertext => cases e'
  intro hder
  exact hder.within hoff (one_way horigin) mk rfl .refl

/-! ## 4. Honest runs -/

theorem Outside.skipTo {n : Nat} {s : DrState Sym} (h : Outside n s) (til : Nat) :
    Outside n (skipTo symbolic s til) := by
  unfold DoubleRatchet.skipTo
  cases hck : s.ckRecv with
  | none => exact h
  | some ck =>
    refine ⟨h.dhSend, h.dhSendPub, h.dhRecv, fun x hx => ?_⟩
    rcases List.mem_append.mp hx with hx | hx
    · exact h.skipped x hx
    · obtain ⟨_, -, rfl⟩ := List.mem_map.mp hx
      show Foreign n (s.dhRecv.getD 0)
      cases hdh : s.dhRecv with
      | none => nofun
      | some k => exact h.dhRecv k hdh

theorem Outside.ratchet {n : Nat} {s : DrState Sym} (h : Outside n s) {r dh : Sym}
    (hr : Foreign n r) (hdh : Foreign n dh) : Outside n (dhRatchet symbolic r s dh) where
  dhSend := hr
  dhSendPub := foreign_publicKey n r
  dhRecv k e := by
    cases e
    exact hdh
  skipped := h.skipped

theorem Outside.encrypt {n : Nat} {s : DrState Sym} (h : Outside n s) (nonce : Nonce) (m : Bytes) :
    Outside n (encrypt symbolic nonce s m).2 := by
  rw [encrypt_state]
  exact ⟨h.dhSend, h.dhSendPub, h.dhRecv, h.skipped⟩

theorem Outside.decrypt {n : Nat} {s : DrState Sym} (h : Outside n s) {r : Sym} (hr : Foreign n r)
    {e : DrEnvelope Sym} (he : Foreign n e.header.dh) : Outside n (decrypt symbolic r s e).2 := by
  have hc := decrypt_cases symbolic r s e
  generalize DoubleRatchet.decrypt symbolic r s e = out at hc
  have hturn := (h.skipTo e.header.pn).ratchet hr he
  cases hc with
  | skipped k hf =>
    exact ⟨h.dhSend, h.dhSendPub, h.dhRecv, fun x hx => h.skipped x (List.mem_of_mem_eraseP hx)⟩
  | ratchetFar => exact h
  | ratchetFarNew => exact hturn
  | ratchet =>
    have hnew := hturn.skipTo e.header.n
    rw [afterCurrent_eq (afterRatchet_ckRecv _)]
    exact ⟨hnew.dhSend, hnew.dhSendPub, hnew.dhRecv, hnew.skipped⟩
  | currentFar => exact h
  | noChain => exact h
  | current ck _ _ _ hck =>
    have hnew := h.skipTo e.header.n
    rw [afterCurrent_eq hck]
    exact ⟨hnew.dhSend, hnew.dhSendPub, hnew.dhRecv, hnew.skipped⟩

/-- Two parties that share the numbered secret `n`, with key pairs of their own. -/
inductive SecretStart (n : Nat) : (Side → Ledger Sym) → Prop where
  | init (a b : Nat) (ha : a ≠ n) (hb : b ≠ n) :
      SecretStart n (freshPair symbolic (.secret n) (.secret a) (.secret b))

/-- An honest call: what is decrypted was sent by the other side, in any order and any number of
    times, and a ratchet secret is a random one. -/
def Honest (n : Nat) (w : Side → Ledger Sym) : Side × Call Sym → Prop
  | (_, .encrypt _ _) => True
  | (p, .decrypt r e) => (∃ k, k ≠ n ∧ r = .secret k) ∧ e ∈ (w p.other).sent

/-- The worlds of honest runs. -/
def HonestRun (n : Nat) : (Side → Ledger Sym) → Prop :=
  Reach (SecretStart n) (Guarded (Honest n) (Exchange symbolic))

theorem HonestRun.shared {n : Nat} {w : Side → Ledger Sym} (h : HonestRun n w) :
    Reach (SharedStart symbolic (.secret n)) (Exchange symbolic) w := by
  refine Reach.mono (fun w hs => ?_) (fun _ _ _ hst => hst.2) h
  cases hs with
  | init a b => exact .init _ _

/-- A party of an honest run: no public key it shows or holds comes from the shared secret. -/
structure Clean (n : Nat) (l : Ledger Sym) : Prop where
  outside : Outside n l.state
  sent : ∀ e ∈ l.sent, Foreign n e.header.dh

theorem Clean.after {n : Nat} {w : Side → Ledger Sym} (h : ∀ p, Clean n (w p)) {p : Side}
    {c : Call Sym} (hc : Honest n w (p, c)) : Clean n ((w p).after symbolic c) := by
  cases c with
  | encrypt nonce m =>
    refine ⟨(h p).outside.encrypt nonce m, fun e he => ?_⟩
    rcases Ledger.sent_encrypt he with he | he
    · exact (h p).sent e he
    · obtain ⟨mk, -, rfl⟩ := encrypt_eq_ok he
      exact (h p).outside.dhSendPub
  | decrypt r e =>
    obtain ⟨⟨k, hk, rfl⟩, he⟩ := hc
    exact ⟨(h p).outside.decrypt (foreign_secret hk) ((h p.other).sent e he), (h p).sent⟩

theorem clean_start {n a b : Nat} (ha : a ≠ n) (hb : b ≠ n) (p : Side) :
    Clean n (freshPair symbolic (.secret n) (.secret a) (.secret b) p) := by
  refine ⟨?_, nofun⟩
  cases p with
  | alice =>
    exact
    { dhSend := foreign_secret ha
      dhSendPub := nofun
      dhRecv := fun k e => by
        cases e
        nofun
      skipped := nofun }
  | bob =>
    exact
    { dhSend := foreign_secret hb
      dhSendPub := nofun
      dhRecv := nofun
      skipped := nofun }

theorem HonestRun.clean {n : Nat} {w : Side → Ledger Sym} (h : HonestRun n w) (p : Side) :
    Clean n (w p) := by
  refine Reach.inv (I := fun w => ∀ p, Clean n (w p)) (fun w hs p => ?_)
    (fun w ev w' hw hst p => ?_) h p
  · cases hs with
    | init a b ha hb => exact clean_start ha hb p
  · obtain ⟨hhon, hst⟩ := hst
    cases hst with
    | call q c =>
      unfold called
      by_cases hqp : p = q
      · subst hqp
        rw [Function.update_self]
        exact Clean.after hw hhon
      · rw [Function.update_of_ne hqp]
        exact hw p

/-- **Forward secrecy**: in every honest run, no key that opens an accepted envelope can be derived
    from the receiver's state and all envelopes sent, and right after `encrypt` no key that opens
    the new envelope can be derived from the sender's state and all envelopes. -/
theorem forward_secrecy (n : Nat) (w : Side → Ledger Sym) (h : HonestRun n w) :
    (∀ p, ∀ e ∈ (w p).accepted, ∀ mk, Opens symbolic mk e →
      ¬ Derives SymRule (exposed (w p).state ((w .alice).sent ++ (w .bob).sent)) (.key mk)) ∧
    ∀ p nonce m e, (encrypt symbolic nonce (w p).state m).1 = .ok e → ∀ mk, Opens symbolic mk e →
      ¬ Derives SymRule (exposed (encrypt symbolic nonce (w p).state m).2
        (e :: ((w .alice).sent ++ (w .bob).sent))) (.key mk) := by
  have hP := symbolic_ideal
  have hkey : ∀ {k k' : Sym} {e : DrEnvelope Sym} {m : Bytes}, Opens symbolic k e →
      e.ciphertext = symbolic.aeadSeal k' e.nonce m → k = k' := fun ho he => by
    obtain ⟨m', hm'⟩ := Option.isSome_iff_exists.mp ho
    exact hP.seal_key _ _ _ _ _ _ ((hP.open_sound _ _ _ _ hm').symm.trans he)
  have hsent : ∀ e ∈ (w .alice).sent ++ (w .bob).sent, Foreign n e.header.dh := fun e he =>
    (List.mem_append.mp he).elim ((h.clean .alice).sent e) ((h.clean .bob).sent e)
  constructor
  · intro p e he mk hmk
    obtain ⟨d, hd⟩ := once_reach hP h.shared p
    obtain ⟨mk', m, ho, hs⟩ := hd.accepted e he
    obtain rfl := hkey hmk (hP.open_sound _ _ _ _ ho)
    exact (hs.lost hP hd.line).not_derivable hd.line (h.clean p).outside hsent
  · intro p nonce m e he mk hmk
    obtain ⟨d, hd⟩ := once_reach hP h.shared p
    obtain ⟨hon, hused⟩ := hd.line.encrypt hP nonce m
    have hout := (h.clean p).outside.encrypt nonce m
    obtain ⟨mk', hmk', rfl⟩ := encrypt_eq_ok he
    obtain rfl := hkey hmk rfl
    refine ((hused mk hmk').2.lost hP hon.line).not_derivable hon.line hout fun e' he' => ?_
    rcases List.mem_cons.mp he' with rfl | he'
    · exact (h.clean p).outside.dhSendPub
    · exact hsent e' he'

theorem HonestRun.encrypt {n : Nat} {w : Side → Ledger Sym} (h : HonestRun n w) (p : Side)
    (nonce : Nonce) (m : Bytes) : HonestRun n (called symbolic w p (.encrypt nonce m)) :=
  Reach.step w (p, Call.encrypt nonce m) _ h ⟨trivial, .call ..⟩

theorem HonestRun.decrypt {n : Nat} {w : Side → Ledger Sym} (h : HonestRun n w) (p : Side) {k : Nat}
    (hk : k ≠ n) {e : DrEnvelope Sym} (he : e ∈ (w p.other).sent) :
    HonestRun n (called symbolic w p (.decrypt (.secret k) e)) :=
  Reach.step w (p, Call.decrypt (.secret k) e) _ h ⟨⟨⟨k, hk, rfl⟩, he⟩, .call ..⟩

/-- The initiator has sent one message. -/
def oneSent : Side → Ledger Sym :=
  called symbolic (freshPair symbolic (.secret 9) (.secret 1) (.secret 2)) .alice
    (.encrypt (Vector.replicate 12 0) [104])

theorem oneSent_honest : HonestRun 9 oneSent :=
  HonestRun.encrypt (.start _ (.init 1 2 (by decide) (by decide))) ..

/-- The responder has read it. -/
def oneRead : Side → Ledger Sym :=
  called symbolic oneSent .bob (.decrypt (.secret 3) (firstEnvelope symbolic (.secret 9) (.secret 1)
    (.secret 2) (firstChain symbolic (.secret 9) (.secret 1) (.secret 2))
    (Vector.replicate 12 0) [104]))

theorem oneRead_honest : HonestRun 9 oneRead :=
  oneSent_honest.decrypt .bob (by decide) (List.mem_singleton_self _)

theorem forward_secrecy_oneRead :
    (∀ p, ∀ e ∈ (oneRead p).accepted, ∀ mk, Opens symbolic mk e →
      ¬ Derives SymRule (exposed (oneRead p).state
        ((oneRead .alice).sent ++ (oneRead .bob).sent)) (.key mk)) ∧
    ∀ p nonce m e, (encrypt symbolic nonce (oneRead p).state m).1 = .ok e →
      ∀ mk, Opens symbolic mk e →
      ¬ Derives SymRule (exposed (encrypt symbolic nonce (oneRead p).state m).2
        (e :: ((oneRead .alice).sent ++ (oneRead .bob).sent))) (.key mk) :=
  forward_secrecy 9 oneRead oneRead_honest

end AlterChat.DoubleRatchet
