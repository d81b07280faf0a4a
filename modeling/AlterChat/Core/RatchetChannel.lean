import AlterChat.Core.RatchetFresh
import AlterChat.Lib.Channel

/-!
# The Double Ratchet under attack is an at-most-once channel

Everything on the wire goes through an attacker, who has every key but those that come from the
shared secret, and gives the parties whatever it can make: envelopes it has seen, with any header,
and ciphertexts of its own. What the two parties say and hear is then a trace of the ideal channel
of `Lib.Channel`, one for each direction: no plaintext is heard that the other side has not said
before, and none is heard more often than it was said.

* `Conversation`, `Attacked` -- the runs;
* `Made` -- the byte strings the attacker can make; `within_closed`: no rule leads out of them;
* `Hears` -- what every call keeps of a party;
* `channel_refined`.
-/

namespace AlterChat.DoubleRatchet

open Lib Primitives

/-! ## 1. Conversations -/

/-- A party; what it has encrypted and what it has decrypted, each with the plaintext. -/
structure Talk where
  state : DrState Sym
  said : List (DrEnvelope Sym × Bytes)
  heard : List (DrEnvelope Sym × Bytes)

structure Conversation where
  party : Side → Talk
  /-- What has happened to the plaintexts that a side has sent. -/
  log : Side → List (Transit Bytes)

namespace Conversation

def start (sk secret bobSecret : Sym) : Conversation where
  party p := ⟨(World.init symbolic sk secret bobSecret).state p, [], []⟩
  log _ := []

/-- Side `p` is `t` now. -/
def set (w : Conversation) (p : Side) (t : Talk) : Conversation :=
  { w with party := Function.update w.party p t }

/-- Something has happened to a plaintext that side `p` has sent. -/
def note (w : Conversation) (p : Side) (e : Transit Bytes) : Conversation :=
  { w with log := Function.update w.log p (w.log p ++ [e]) }

section

variable (w : Conversation) (p q : Side) (t : Talk) (e : Transit Bytes)

@[simp] theorem set_self : (w.set p t).party p = t := Function.update_self ..

@[simp] theorem set_other : (w.set p t).party p.other = w.party p.other :=
  Function.update_of_ne p.other_ne ..

@[simp] theorem set_log : (w.set p t).log q = w.log q := rfl

@[simp] theorem note_party : (w.note p e).party q = w.party q := rfl

@[simp] theorem note_self : (w.note p e).log p = w.log p ++ [e] := Function.update_self ..

@[simp] theorem note_other : (w.note p e).log p.other = w.log p.other :=
  Function.update_of_ne p.other_ne ..

end

/-- `encrypt` on side `p`. -/
def encrypt (w : Conversation) (p : Side) (nonce : Nonce) (m : Bytes) : Conversation :=
  let t := w.party p
  let out := DoubleRatchet.encrypt symbolic nonce t.state m
  match out.1 with
  | .ok e => (w.set p ⟨out.2, t.said ++ [(e, m)], t.heard⟩).note p (.send m)
  | .error _ => w.set p ⟨out.2, t.said, t.heard⟩

/-- `decrypt` on side `p`, with the secret drawn for it. -/
def decrypt (w : Conversation) (p : Side) (r : Sym) (e : DrEnvelope Sym) : Conversation :=
  let t := w.party p
  let out := DoubleRatchet.decrypt symbolic r t.state e
  match out.1 with
  | .ok m => (w.set p ⟨out.2, t.said, t.heard ++ [(e, m)]⟩).note p.other (.deliver m)
  | .error _ => w.set p ⟨out.2, t.said, t.heard⟩

/-- `decrypt` changes nothing on the other side. -/
theorem decrypt_other (w : Conversation) (p : Side) (r : Sym) (e : DrEnvelope Sym) :
    (w.decrypt p r e).party p.other = w.party p.other := by
  simp only [decrypt]
  split
  · rw [note_party, set_other]
  · rw [set_other]

end Conversation

/-! ## 2. The attacker -/

/-- What the attacker has before the first call: the keys that do not come from the shared secret,
    the numbered secret `n`, and the byte strings that are no ciphertexts. -/
def outsider (n : Nat) : Set Known :=
  {i | (∃ k, Foreign n k ∧ i = .key k) ∨
    ∃ b, (∀ k nonce m, b ≠ symbolic.aeadSeal k nonce m) ∧ i = .text b}

/-- That, and the envelopes on the wire: their public keys and ciphertexts. The numbers and the
    nonce of an envelope are the attacker's choice anyway. -/
def tapped (n : Nat) (w : Conversation) : Set Known :=
  outsider n ∪ {i | ∃ p, ∃ x ∈ (w.party p).said, i = .key x.1.header.dh ∨ i = .text x.1.ciphertext}

/-- A call of a party. What is decrypted is anything whose ciphertext the attacker can make. -/
inductive Attacked (n : Nat) : Conversation → Side × Call Sym → Conversation → Prop where
  | encrypt (w : Conversation) (p : Side) (nonce : Nonce) (m : Bytes) :
      Attacked n w (p, .encrypt nonce m) (w.encrypt p nonce m)
  | decrypt (w : Conversation) (p : Side) (r : Sym) (e : DrEnvelope Sym)
      (h : Derives SymRule (tapped n w) (.text e.ciphertext)) :
      Attacked n w (p, .decrypt r e) (w.decrypt p r e)

inductive Unspoken (n : Nat) : Conversation → Prop where
  | init (secret bobSecret : Sym) : Unspoken n (.start (.secret n) secret bobSecret)

/-- The byte strings the attacker can make when the ciphertexts `S` are on the wire. -/
inductive Made (n : Nat) (S : Set Bytes) : Bytes → Prop where
  | raw (b : Bytes) (h : ∀ k nonce m, b ≠ symbolic.aeadSeal k nonce m) : Made n S b
  | sent (b : Bytes) (h : b ∈ S) : Made n S b
  | sealed (k : Sym) (nonce : Nonce) (m : Bytes) (hk : Foreign n k) (hm : Made n S m) :
      Made n S (symbolic.aeadSeal k nonce m)

/-- Keys that do not come from the shared secret, and what the attacker can make. -/
def Within (n : Nat) (S : Set Bytes) : Set Known :=
  {i | (∀ k, i = .key k → Foreign n k) ∧ ∀ b, i = .text b → Made n S b}

section

variable {n : Nat} {S : Set Bytes} {b m : Bytes} {k : Sym} {nonce : Nonce}

theorem symbolic_seal_inj {k' : Sym} {nonce' : Nonce} {m' : Bytes}
    (h : symbolic.aeadSeal k nonce m = symbolic.aeadSeal k' nonce' m') : k = k' ∧ m = m' := by
  have h' := Prod.mk.inj (envelopeCodec.enc_injective h)
  exact ⟨h'.1, (Prod.mk.inj h'.2).2⟩

/-- The ciphertexts on the wire are sealed under keys of the shared secret. -/
def UnderSecret (n : Nat) (S : Set Bytes) : Prop :=
  ∀ b ∈ S, ∃ k nonce m, ¬ Foreign n k ∧ b = symbolic.aeadSeal k nonce m

theorem Made.opened (hS : UnderSecret n S) (h : Made n S b) (hb : b = symbolic.aeadSeal k nonce m)
    (hk : Foreign n k) : Made n S m := by
  cases h with
  | raw b hraw => exact absurd hb (hraw k nonce m)
  | sent b hs =>
    obtain ⟨k', nonce', m', hk', rfl⟩ := hS b hs
    obtain ⟨rfl, -⟩ := symbolic_seal_inj hb
    exact absurd hk hk'
  | sealed k' nonce' m' _ hm =>
    obtain ⟨-, rfl⟩ := symbolic_seal_inj hb
    exact hm

/-- **A ciphertext under a key of the shared secret was on the wire.** -/
theorem Made.genuine (h : Made n S b) (hb : b = symbolic.aeadSeal k nonce m) (hk : ¬ Foreign n k) :
    b ∈ S := by
  cases h with
  | raw b hraw => exact absurd hb (hraw k nonce m)
  | sent b hs => exact hs
  | sealed k' nonce' m' hk' _ =>
    obtain ⟨rfl, -⟩ := symbolic_seal_inj hb
    exact absurd hk' hk

theorem foreign_diffieHellman (n : Nat) (a b : Sym) : Foreign n (a.diffieHellman b) := by
  unfold Sym.diffieHellman
  split <;> nofun

theorem within_closed (hS : UnderSecret n S) : ClosedUnder SymRule (Within n S) := by
  intro premises t hr hp
  cases hr with
  | publicKey a =>
    refine ⟨fun k e => ?_, nofun⟩
    cases e
    exact foreign_publicKey n a
  | diffieHellman a b =>
    refine ⟨fun k e => ?_, nofun⟩
    cases e
    exact foreign_diffieHellman n a b
  | derived salt ikm info =>
    refine ⟨fun k e => ?_, nofun⟩
    cases e
    exact (hp (.key salt) (by simp)).1 salt rfl
  | expanded salt info =>
    refine ⟨fun k e => ?_, nofun⟩
    cases e
    exact (hp (.key salt) (by simp)).1 salt rfl
  | sealed k nonce m =>
    refine ⟨nofun, fun b e => ?_⟩
    cases e
    exact .sealed k nonce m ((hp (.key k) (by simp)).1 k rfl) ((hp (.text m) (by simp)).2 m rfl)
  | opened k nonce m =>
    refine ⟨nofun, fun b e => ?_⟩
    cases e
    have hmade := (hp (.text (symbolic.aeadSeal k nonce m)) (by simp)).2 _ rfl
    exact hmade.opened hS rfl ((hp (.key k) (by simp)).1 k rfl)

end

/-! ## 3. What every call keeps of a party -/

/-- The message keys that side `p` sends with. -/
def SendsWith (n : Nat) (p : Side) (mk : Sym) : Prop :=
  ∃ i, i % 2 = p.other.parity ∧ MessageAt symbolic (.secret n) i mk

/-- A party at depth `d`: under which keys it has said and heard what it has. -/
structure Hears (n : Nat) (p : Side) (d : Nat) (t : Talk) : Prop where
  line : Line symbolic (.secret n) p d t.state
  dhSendPub : Foreign n t.state.dhSendPub
  saidDh : ∀ x ∈ t.said, Foreign n x.1.header.dh
  said : ∀ x ∈ t.said, ∃ mk, SendsWith n p mk ∧
    x.1.ciphertext = symbolic.aeadSeal mk x.1.nonce x.2
  heard : ∀ x ∈ t.heard, ∃ mk, Spent symbolic (.secret n) p d t.state mk ∧
    x.1.ciphertext = symbolic.aeadSeal mk x.1.nonce x.2
  heardNodup : (t.heard.map (·.1.ciphertext)).Nodup

section

variable {n d : Nat} {p : Side} {t : Talk}

theorem SendsWith.not_foreign {mk : Sym} (h : SendsWith n p mk) : ¬ Foreign n mk := by
  obtain ⟨i, -, hm⟩ := h
  exact not_not_intro (origin_of_descends hm.descends).symm

/-- No key is used in both directions. -/
theorem SendsWith.unique {mk : Sym} {q : Side} (h : SendsWith n p mk) (h' : SendsWith n q mk) :
    p = q := by
  obtain ⟨i, hi, hm⟩ := h
  obtain ⟨i', hi', hm'⟩ := h'
  obtain rfl := hm.unique symbolic_ideal hm'
  cases p <;> cases q
  · rfl
  · exact absurd (hi.symm.trans hi') (by decide)
  · exact absurd (hi.symm.trans hi') (by decide)
  · rfl

/-- A key that was received with is one that the other side sends with. -/
theorem Spent.sendsWith {s : DrState Sym} {mk : Sym}
    (h : Spent symbolic (.secret n) p d s mk) : SendsWith n p.other mk := by
  obtain ⟨i, -, hpar, hm⟩ := h.behind.below
  exact ⟨i, by rw [Side.other_other]; exact hpar, hm⟩

theorem Hears.afterEncrypt (h : Hears n p d t) (nonce : Nonce) (m : Bytes) :
    Hears n p d ⟨(encrypt symbolic nonce t.state m).2, t.said, t.heard⟩ ∧
      ∀ e, (encrypt symbolic nonce t.state m).1 = .ok e →
        Hears n p d ⟨(encrypt symbolic nonce t.state m).2, t.said ++ [(e, m)], t.heard⟩ := by
  obtain ⟨hon, hkey⟩ := Line.encrypt (l := .fresh t.state) symbolic_ideal h.line nonce m
  have hpub : Foreign n (encrypt symbolic nonce t.state m).2.dhSendPub :=
    (encrypt_sends symbolic nonce t.state m).dhSendPub ▸ h.dhSendPub
  have hheard : ∀ x ∈ t.heard, ∃ mk,
      Spent symbolic (.secret n) p d (encrypt symbolic nonce t.state m).2 mk ∧
        x.1.ciphertext = symbolic.aeadSeal mk x.1.nonce x.2 := fun x hx => by
    obtain ⟨mk, hs, hc⟩ := h.heard x hx
    exact ⟨mk, hon.spent mk hs, hc⟩
  refine ⟨⟨hon.line, hpub, h.saidDh, h.said, hheard, h.heardNodup⟩, fun e he => ?_⟩
  obtain ⟨mk, hmk, rfl⟩ := encrypt_eq_ok he
  obtain ⟨i, -, hpar, hm⟩ := (hkey mk hmk).2.below
  refine ⟨hon.line, hpub, fun x hx => ?_, fun x hx => ?_, hheard, h.heardNodup⟩
  · rcases List.mem_append.mp hx with hx | hx
    · exact h.saidDh x hx
    · obtain rfl := List.mem_singleton.mp hx
      exact h.dhSendPub
  · rcases List.mem_append.mp hx with hx | hx
    · exact h.said x hx
    · obtain rfl := List.mem_singleton.mp hx
      exact ⟨mk, ⟨i, hpar, hm⟩, rfl⟩

/-- **Whatever a party is given**: what it hears it has not heard before, and it was sealed under a
    key that the other side sends with. -/
theorem Hears.afterDecrypt (h : Hears n p d t) (r : Sym) (e : DrEnvelope Sym) :
    ∃ d', Hears n p d' ⟨(decrypt symbolic r t.state e).2, t.said, t.heard⟩ ∧
      ∀ m, (decrypt symbolic r t.state e).1 = .ok m →
        Hears n p d' ⟨(decrypt symbolic r t.state e).2, t.said, t.heard ++ [(e, m)]⟩ ∧
        ∃ mk, SendsWith n p.other mk ∧ e.ciphertext = symbolic.aeadSeal mk e.nonce m := by
  obtain ⟨d', hon, hok⟩ := h.line.decrypt symbolic_ideal r e
  have hpub : Foreign n (decrypt symbolic r t.state e).2.dhSendPub := by
    rcases decrypt_dhSendPub symbolic r t.state e with hp | hp
    · rw [hp]
      exact h.dhSendPub
    · rw [hp]
      exact foreign_publicKey n r
  have hheard : ∀ x ∈ t.heard, ∃ mk,
      Spent symbolic (.secret n) p d' (decrypt symbolic r t.state e).2 mk ∧
        x.1.ciphertext = symbolic.aeadSeal mk x.1.nonce x.2 := fun x hx => by
    obtain ⟨mk, hs, hc⟩ := h.heard x hx
    exact ⟨mk, hon.spent mk hs, hc⟩
  refine ⟨d', ⟨hon.line, hpub, h.saidDh, h.said, hheard, h.heardNodup⟩, fun m hm => ?_⟩
  obtain ⟨mk, ho, hns, hs⟩ := hok m hm
  have hc := symbolic_ideal.open_sound _ _ _ _ ho
  refine ⟨⟨hon.line, hpub, h.saidDh, h.said, fun x hx => ?_, ?_⟩, mk, hs.sendsWith, hc⟩
  · rcases List.mem_append.mp hx with hx | hx
    · exact hheard x hx
    · obtain rfl := List.mem_singleton.mp hx
      exact ⟨mk, hs, hc⟩
  · rw [List.map_append]
    refine List.Nodup.append h.heardNodup (List.nodup_singleton _) fun c hin hc' => ?_
    obtain rfl := List.mem_singleton.mp hc'
    obtain ⟨x, hx, hxc⟩ := List.mem_map.mp hin
    -- heard before, it was opened with a key that is spent; a ciphertext has one key
    obtain ⟨mk', hs', hc'⟩ := h.heard x hx
    obtain ⟨rfl, -⟩ := symbolic_seal_inj ((hc'.symm.trans hxc).trans hc)
    exact hns hs'

end

/-! ## 4. Every run -/

/-- What every run keeps. -/
structure ChannelInv (n : Nat) (w : Conversation) : Prop where
  party : ∀ p, ∃ d, Hears n p d (w.party p)
  /-- What was heard was said on the other side. -/
  matched : ∀ p, ∀ x ∈ (w.party p).heard, ∃ y ∈ (w.party p.other).said,
    (x.1.ciphertext, x.2) = (y.1.ciphertext, y.2)
  run : ∀ p, (Channel.run (w.log p)).isSome
  sent : ∀ p, Channel.sent (w.log p) = ((w.party p).said.map (·.2) : Multiset Bytes)
  delivered : ∀ p, Channel.delivered (w.log p) =
    ((w.party p.other).heard.map (·.2) : Multiset Bytes)

section

variable {n : Nat} {w : Conversation}

/-- What was heard, each time with another ciphertext and each time said on the other side, was said
    as often. -/
theorem heard_le_said {heard said : List (DrEnvelope Sym × Bytes)}
    (hnodup : (heard.map (·.1.ciphertext)).Nodup)
    (hmatched : ∀ x ∈ heard, ∃ y ∈ said, (x.1.ciphertext, x.2) = (y.1.ciphertext, y.2)) :
    (heard.map (·.2) : Multiset Bytes) ≤ (said.map (·.2) : Multiset Bytes) := by
  have htags : (heard.map fun x => (x.1.ciphertext, x.2)).Subperm
      (said.map fun x => (x.1.ciphertext, x.2)) := by
    refine List.subperm_of_subset (List.Nodup.of_map Prod.fst ?_) fun t ht => ?_
    · rw [List.map_map]
      exact hnodup
    · obtain ⟨x, hx, rfl⟩ := List.mem_map.mp ht
      obtain ⟨y, hy, e⟩ := hmatched x hx
      exact List.mem_map.mpr ⟨y, hy, e.symm⟩
  have hle := Multiset.map_le_map (f := Prod.snd) (Multiset.coe_le.mpr htags)
  rwa [Multiset.map_coe, Multiset.map_coe, List.map_map, List.map_map] at hle

variable {p : Side} {d : Nat} {s : DrState Sym} {e : DrEnvelope Sym} {m : Bytes}

/-- The state of a party has changed, and it is still one. -/
theorem ChannelInv.party_set (h : ChannelInv n w) {t : Talk} (ht : Hears n p d t) (q : Side) :
    ∃ d, Hears n q d ((w.set p t).party q) := by
  rcases p.eq_or_other q with rfl | rfl
  · exact ⟨d, by rw [Conversation.set_self]; exact ht⟩
  · obtain ⟨d', hd'⟩ := h.party p.other
    exact ⟨d', by rw [Conversation.set_other]; exact hd'⟩

/-- A call that says and hears nothing. -/
theorem ChannelInv.silent (h : ChannelInv n w)
    (hs : Hears n p d ⟨s, (w.party p).said, (w.party p).heard⟩) :
    ChannelInv n (w.set p ⟨s, (w.party p).said, (w.party p).heard⟩) := by
  have hlists : ∀ q, ((w.set p ⟨s, (w.party p).said, (w.party p).heard⟩).party q).said =
      (w.party q).said ∧ ((w.set p ⟨s, (w.party p).said, (w.party p).heard⟩).party q).heard =
      (w.party q).heard := fun q => by
    rcases p.eq_or_other q with rfl | rfl
    · rw [Conversation.set_self]
      exact ⟨rfl, rfl⟩
    · rw [Conversation.set_other]
      exact ⟨rfl, rfl⟩
  refine ⟨h.party_set hs, fun q => ?_, h.run, fun q => ?_, fun q => ?_⟩
  · rw [(hlists q).2, (hlists q.other).1]
    exact h.matched q
  · rw [(hlists q).1]
    exact h.sent q
  · rw [(hlists q.other).2]
    exact h.delivered q

/-- Side `p` has said `m`. -/
theorem ChannelInv.says (h : ChannelInv n w)
    (hs : Hears n p d ⟨s, (w.party p).said ++ [(e, m)], (w.party p).heard⟩) :
    ChannelInv n ((w.set p ⟨s, (w.party p).said ++ [(e, m)], (w.party p).heard⟩).note p
      (.send m)) where
  party q := h.party_set hs q
  matched q := by
    rcases p.eq_or_other q with rfl | rfl
    · rw [Conversation.note_party, Conversation.note_party, Conversation.set_self,
        Conversation.set_other]
      exact h.matched q
    · rw [Conversation.note_party, Conversation.note_party, Side.other_other, Conversation.set_self,
        Conversation.set_other]
      intro x hx
      obtain ⟨y, hy, e⟩ := h.matched p.other x hx
      rw [Side.other_other] at hy
      exact ⟨y, List.mem_append_left _ hy, e⟩
  run q := by
    rcases p.eq_or_other q with rfl | rfl
    · rw [Conversation.note_self]
      exact Channel.run_send (h.run q) m
    · rw [Conversation.note_other]
      exact h.run p.other
  sent q := by
    rcases p.eq_or_other q with rfl | rfl
    · rw [Conversation.note_self, Conversation.note_party, Conversation.set_self,
        Channel.sent_append, Conversation.set_log, h.sent, List.map_append, ← Multiset.coe_add]
      rfl
    · rw [Conversation.note_other, Conversation.note_party, Conversation.set_other]
      exact h.sent p.other
  delivered q := by
    rcases p.eq_or_other q with rfl | rfl
    · rw [Conversation.note_self, Conversation.note_party, Conversation.set_other,
        Channel.delivered_append, Conversation.set_log, h.delivered]
      exact add_zero _
    · rw [Conversation.note_other, Conversation.note_party, Side.other_other, Conversation.set_self]
      have hd := h.delivered p.other
      rw [Side.other_other] at hd
      exact hd

/-- Side `p` has heard `m`, and the other side has said it. -/
theorem ChannelInv.hears (h : ChannelInv n w)
    (hs : Hears n p d ⟨s, (w.party p).said, (w.party p).heard ++ [(e, m)]⟩)
    (hm : ∃ y ∈ (w.party p.other).said, (e.ciphertext, m) = (y.1.ciphertext, y.2)) :
    ChannelInv n ((w.set p ⟨s, (w.party p).said, (w.party p).heard ++ [(e, m)]⟩).note p.other
      (.deliver m)) := by
  have hmatched : ∀ x ∈ (w.party p).heard ++ [(e, m)], ∃ y ∈ (w.party p.other).said,
      (x.1.ciphertext, x.2) = (y.1.ciphertext, y.2) := fun x hx => by
    rcases List.mem_append.mp hx with hx | hx
    · exact h.matched p x hx
    · obtain rfl := List.mem_singleton.mp hx
      exact hm
  have hdel := h.delivered p.other
  rw [Side.other_other] at hdel
  have hnew : Channel.delivered (w.log p.other) + {m} =
      (((w.party p).heard ++ [(e, m)]).map (·.2) : Multiset Bytes) := by
    rw [hdel, List.map_append, ← Multiset.coe_add]
    rfl
  -- what the side itself has sent is not touched
  have hown : ∀ (v : Conversation) e, (v.note p.other e).log p = v.log p := fun v e => by
    have hlog := v.note_other p.other e
    rwa [Side.other_other] at hlog
  refine ⟨h.party_set hs, fun q => ?_, fun q => ?_, fun q => ?_, fun q => ?_⟩
  · rcases p.eq_or_other q with rfl | rfl
    · rw [Conversation.note_party, Conversation.note_party, Conversation.set_self,
        Conversation.set_other]
      exact hmatched
    · rw [Conversation.note_party, Conversation.note_party, Side.other_other, Conversation.set_self,
        Conversation.set_other]
      have hold := h.matched p.other
      rw [Side.other_other] at hold
      exact hold
  · rcases p.eq_or_other q with rfl | rfl
    · rw [hown]
      exact h.run q
    · rw [Conversation.note_self]
      refine Channel.run_deliver (h.run p.other) ?_
      rw [Conversation.set_log, hnew, h.sent]
      exact heard_le_said hs.heardNodup hmatched
  · rcases p.eq_or_other q with rfl | rfl
    · rw [hown, Conversation.note_party, Conversation.set_self]
      exact h.sent q
    · rw [Conversation.note_self, Conversation.note_party, Conversation.set_other,
        Channel.sent_append, Conversation.set_log, h.sent]
      exact add_zero _
  · rcases p.eq_or_other q with rfl | rfl
    · rw [hown, Conversation.note_party, Conversation.set_other]
      exact h.delivered q
    · rw [Conversation.note_self, Conversation.note_party, Side.other_other, Conversation.set_self,
        Channel.delivered_append]
      exact hnew

/-- The ciphertexts said. -/
def Conversation.ciphertexts (w : Conversation) : Set Bytes :=
  {c | ∃ p, ∃ x ∈ (w.party p).said, c = x.1.ciphertext}

theorem ChannelInv.underSecret (h : ChannelInv n w) : UnderSecret n w.ciphertexts := by
  rintro c ⟨p, x, hx, rfl⟩
  obtain ⟨d, hd⟩ := h.party p
  obtain ⟨mk, hmk, hc⟩ := hd.said x hx
  exact ⟨mk, x.1.nonce, x.2, hmk.not_foreign, hc⟩

/-- **What the attacker makes** stays within `Within`. -/
theorem ChannelInv.tapped_within (h : ChannelInv n w) : tapped n w ⊆ Within n w.ciphertexts := by
  rintro i ((⟨k, hk, rfl⟩ | ⟨b, hb, rfl⟩) | ⟨p, x, hx, rfl | rfl⟩)
  · refine ⟨fun k' e => ?_, nofun⟩
    cases e
    exact hk
  · refine ⟨nofun, fun b' e => ?_⟩
    cases e
    exact .raw b hb
  · refine ⟨fun k e => ?_, nofun⟩
    cases e
    obtain ⟨d, hd⟩ := h.party p
    exact hd.saidDh x hx
  · refine ⟨nofun, fun b e => ?_⟩
    cases e
    exact .sent _ ⟨p, x, hx, rfl⟩

/-- A ciphertext the attacker gives a party that opens it was said, with that plaintext, by the side
    that sends with its key. -/
theorem ChannelInv.said_of_derives (h : ChannelInv n w) {p : Side} {mk : Sym} {e : DrEnvelope Sym}
    {m : Bytes} (hd : Derives SymRule (tapped n w) (.text e.ciphertext)) (hmk : SendsWith n p mk)
    (hc : e.ciphertext = symbolic.aeadSeal mk e.nonce m) :
    ∃ y ∈ (w.party p).said, (e.ciphertext, m) = (y.1.ciphertext, y.2) := by
  have hmade := (hd.within h.tapped_within (within_closed h.underSecret)).2 _ rfl
  obtain ⟨q, y, hy, hyc⟩ := hmade.genuine hc hmk.not_foreign
  obtain ⟨d, hq⟩ := h.party q
  obtain ⟨mk', hmk', hyc'⟩ := hq.said y hy
  obtain ⟨rfl, hm⟩ := symbolic_seal_inj ((hc.symm.trans hyc).trans hyc')
  obtain rfl := hmk.unique hmk'
  exact ⟨y, hy, by rw [hyc, hm]⟩

/-- **A call keeps it.** -/
theorem ChannelInv.step {w' : Conversation} {c : Side × Call Sym} (h : ChannelInv n w)
    (hst : Attacked n w c w') : ChannelInv n w' := by
  cases hst with
  | encrypt p nonce m =>
    obtain ⟨d, hd⟩ := h.party p
    obtain ⟨herr, hok⟩ := hd.afterEncrypt nonce m
    unfold Conversation.encrypt
    cases hres : (encrypt symbolic nonce (w.party p).state m).1 with
    | error x =>
      simp only [hres]
      exact h.silent herr
    | ok e =>
      simp only [hres]
      exact h.says (hok e hres)
  | decrypt p r e hder =>
    obtain ⟨d, hd⟩ := h.party p
    obtain ⟨d', herr, hok⟩ := hd.afterDecrypt r e
    unfold Conversation.decrypt
    cases hres : (decrypt symbolic r (w.party p).state e).1 with
    | error x =>
      simp only [hres]
      exact h.silent herr
    | ok m =>
      simp only [hres]
      obtain ⟨hhears, mk, hmk, hc⟩ := hok m hres
      exact h.hears hhears (h.said_of_derives hder hmk hc)

theorem channelInv_start (n : Nat) (secret bobSecret : Sym) :
    ChannelInv n (.start (.secret n) secret bobSecret) where
  party p := by
    have hstart : ∃ d, Once symbolic (.secret n) p d _ := once_start p secret bobSecret
    obtain ⟨d, hd⟩ := hstart
    refine ⟨d, hd.line, ?_, nofun, nofun, nofun, List.nodup_nil⟩
    cases p with
    | alice => exact foreign_publicKey n secret
    | bob => exact foreign_publicKey n bobSecret
  matched _ := nofun
  run _ := rfl
  sent _ := rfl
  delivered _ := rfl

end

/-- **The Double Ratchet under attack is an at-most-once channel**: whatever the attacker makes of
    what it has and of what is on the wire, and gives to the parties, what happens to the plaintexts
    of each side is a trace of the ideal channel, and no key that opens an envelope can be made. -/
theorem channel_refined (n : Nat) (w : Conversation) (h : Reach (Unspoken n) (Attacked n) w) :
    (∀ p, (Channel.run (w.log p)).isSome) ∧
    ∀ p, ∀ x ∈ (w.party p).said, ∀ mk, Opens symbolic mk x.1 →
      ¬ Derives SymRule (tapped n w) (.key mk) := by
  have hinv : ChannelInv n w := by
    refine Reach.inv (fun w hs => ?_) (fun w c w' hw hst => hw.step hst) h
    cases hs with
    | init secret bobSecret => exact channelInv_start n secret bobSecret
  refine ⟨hinv.run, fun p x hx mk hmk hd => ?_⟩
  obtain ⟨d, hp⟩ := hinv.party p
  obtain ⟨mk', hmk', hc⟩ := hp.said x hx
  obtain ⟨m, hm⟩ := Option.isSome_iff_exists.mp hmk
  obtain ⟨rfl, -⟩ := symbolic_seal_inj ((symbolic_ideal.open_sound _ _ _ _ hm).symm.trans hc)
  exact hmk'.not_foreign ((hd.within hinv.tapped_within (within_closed hinv.underSecret)).1 mk rfl)

/-- The initiator has said something. -/
def overheard : Conversation :=
  (Conversation.start (.secret 9) (.secret 1) (.secret 2)).encrypt .alice
    (Vector.replicate 12 0) [104]

/-- The same ciphertext under another message number. -/
def relabelled : DrEnvelope Sym :=
  { unspokenFirst with header := { unspokenFirst.header with n := 1 } }

/-- The attacker gives the responder that. -/
def misled : Conversation := overheard.decrypt .bob (.secret 3) relabelled

theorem tapped_unspokenFirst {w : Conversation}
    (h : (unspokenFirst, [104]) ∈ (w.party .alice).said) :
    Derives SymRule (tapped 9 w) (.text unspokenFirst.ciphertext) :=
  .known _ (.inr ⟨.alice, _, h, .inr rfl⟩)

theorem overheard_said : (unspokenFirst, [104]) ∈ (overheard.party .alice).said :=
  List.mem_singleton_self _

theorem misled_reach : Reach (Unspoken 9) (Attacked 9) misled := by
  have hstart : Reach (Unspoken 9) (Attacked 9) overheard :=
    Reach.step _ (.alice, .encrypt (Vector.replicate 12 0) [104]) _
      (.start _ (.init (.secret 1) (.secret 2))) (.encrypt ..)
  have hmade : Derives SymRule (tapped 9 overheard) (.text relabelled.ciphertext) :=
    tapped_unspokenFirst overheard_said
  exact Reach.step overheard (.bob, .decrypt (.secret 3) relabelled) misled hstart
    (Attacked.decrypt overheard .bob (.secret 3) relabelled hmade)

/-- And then the envelope as it was. -/
theorem channel_refined_misled :
    let w := misled.decrypt .bob (.secret 4) unspokenFirst
    (∀ p, (Channel.run (w.log p)).isSome) ∧
      ∀ p, ∀ x ∈ (w.party p).said, ∀ mk, Opens symbolic mk x.1 →
        ¬ Derives SymRule (tapped 9 w) (.key mk) := by
  have hsaid : (unspokenFirst, [104]) ∈ (misled.party .alice).said := by
    have hother := Conversation.decrypt_other overheard .bob (.secret 3) relabelled
    have halice : Side.bob.other = .alice := rfl
    rw [halice] at hother
    rw [misled, hother]
    exact overheard_said
  exact channel_refined 9 _ (Reach.step misled (.bob, .decrypt (.secret 4) unspokenFirst) _
    misled_reach (Attacked.decrypt misled .bob (.secret 4) unspokenFirst
    (tapped_unspokenFirst hsaid)))

end AlterChat.DoubleRatchet
