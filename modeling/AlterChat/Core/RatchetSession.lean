import AlterChat.Core.RatchetEpochs
import AlterChat.Lib.Run
import AlterChat.Lib.Symbolic

/-!
# Two parties and the messages between them

`Synced` couples the two parties of a session: their epochs are next to each other, every public key
of the history differs from every other, and each side's state is the one the history describes.
`Sent` says that the messages a side has sent are messages of its epochs, each with a header of its
own.

* `World`, `Step` -- the runs: `encrypt` calls on both sides, and deliveries of sent envelopes to
  `decrypt`, each at most once, in any order, some never;
* `Synced.encrypted`, `Synced.delivered` -- the step lemmas;
* `session_results` -- in every run whose plaintexts the cipher takes, every delivery returns the
  plaintext that was encrypted;
* `session_breaks` -- one refused plaintext is enough to lose the next message.
-/

namespace AlterChat.DoubleRatchet

open Lib

/-- The party that starts the session, and the one that answers. -/
inductive Side where
  | alice
  | bob
  deriving DecidableEq

namespace Side

def other : Side → Side
  | alice => bob
  | bob => alice

/-- The responder owns the even epochs. -/
def parity : Side → Nat
  | alice => 1
  | bob => 0

@[simp] theorem other_other (p : Side) : p.other.other = p := by cases p <;> rfl

theorem other_ne (p : Side) : p.other ≠ p := by cases p <;> nofun

theorem eq_or_other (p q : Side) : q = p ∨ q = p.other := by cases p <;> cases q <;> simp [other]

theorem parity_other (p : Side) : p.other.parity ≠ p.parity := by cases p <;> nofun

end Side

/-- What stands at a place of a list with one element added. -/
theorem getElem?_snoc {α : Type} {l : List α} {a x : α} {k : Nat} (h : (l ++ [a])[k]? = some x) :
    l[k]? = some x ∨ (k = l.length ∧ x = a) := by
  rw [List.getElem?_append] at h
  split at h
  · exact .inl h
  · obtain ⟨hk, hx⟩ := List.getElem?_eq_some_iff.mp h
    rw [List.length_singleton] at hk
    exact .inr ⟨by omega, by rw [← hx, List.getElem_singleton]⟩

variable {Key : Type}

/-! ## 1. Two parties of one history -/

/-- Two parties in step. -/
structure Synced (P : Primitives Key) (sk : Key) (H : History Key) (idx : Side → Nat)
    (seen : Side → Nat → Nat → Prop) (st : Side → DrState Key) : Prop where
  parity : ∀ p, idx p % 2 = p.parity
  close : ∀ p, idx p.other ≤ idx p + 1
  /-- The responder's first key pair never sends. -/
  cntZero : H.cnt 0 = 0
  future : ∀ i, (∀ p, idx p < i) → H.cnt i = 0
  distinct : ∀ p, H.Distinct P (idx p)
  party : ∀ p, PartyAt P sk H (idx p) (seen p) (st p)

/-- `e` is message `j` of epoch `i`, an epoch of the party whose newest one is `s`. -/
structure Genuine (P : Primitives Key) (sk : Key) (H : History Key) (s i j : Nat)
    (e : DrEnvelope Key) (m : Bytes) : Prop where
  le : i ≤ s
  parity : i % 2 = s % 2
  lt : j < H.cnt i
  eq : ∃ nonce, e = H.envelope P sk i j nonce m

/-- The messages sent by a party whose newest epoch is `s`; `Q k i j` holds when the `k`-th of them
    is message `j` of epoch `i`. -/
structure Sent (P : Primitives Key) (sk : Key) (H : History Key) (s : Nat)
    (Q : Nat → Nat → Nat → Prop) (l : List (DrEnvelope Key × Bytes)) : Prop where
  genuine : ∀ (k : Nat) e m, l[k]? = some (e, m) → ∃ i j, Genuine P sk H s i j e m ∧ Q k i j
  /-- No header is used twice. -/
  unique : ∀ (k k' : Nat) x x', l[k]? = some x → l[k']? = some x' → x.1.header.dh = x'.1.header.dh →
    x.1.header.n = x'.1.header.n → k = k'

section

variable {P : Primitives Key} {sk : Key} {H : History Key} {idx : Side → Nat}
  {seen : Side → Nat → Nat → Prop} {st : Side → DrState Key}

theorem Synced.parity_ne (h : Synced P sk H idx seen st) (p : Side) :
    idx p.other % 2 ≠ idx p % 2 := by
  rw [h.parity, h.parity]
  exact p.parity_other

theorem Genuine.pos {s i j : Nat} {e : DrEnvelope Key} {m : Bytes} (h : Genuine P sk H s i j e m)
    (h0 : H.cnt 0 = 0) : i ≠ 0 := by
  rintro rfl
  have := h.lt
  omega

theorem Genuine.header {s i j : Nat} {e : DrEnvelope Key} {m : Bytes}
    (h : Genuine P sk H s i j e m) : e.header = H.header P i j := by
  obtain ⟨nonce, rfl⟩ := h.eq
  rfl

/-- Two messages with one header are one message. -/
theorem Genuine.header_inj {s i j i' j' : Nat} {e e' : DrEnvelope Key} {m m' : Bytes}
    (h : Genuine P sk H s i j e m) (h' : Genuine P sk H s i' j' e' m') (hd : H.Distinct P s)
    (hdh : e.header.dh = e'.header.dh) (hn : e.header.n = e'.header.n) : i = i' ∧ j = j' := by
  rw [h.header, h'.header] at hdh hn
  exact ⟨hd i i' h.le h'.le hdh, hn⟩

/-- Sending counts in one epoch that no other chain's header shows yet. -/
theorem Genuine.count {s i j c : Nat} {e : DrEnvelope Key} {m : Bytes}
    (h : Genuine P sk H s i j e m) (hc : i - 2 ≠ c) : Genuine P sk (H.count c) s i j e m where
  le := h.le
  parity := h.parity
  lt := by
    have := h.lt
    by_cases hic : i = c
    · subst hic
      rw [History.count_cnt_self]
      omega
    · rw [History.count_cnt_ne hic]
      exact this
  eq := by
    obtain ⟨nonce, rfl⟩ := h.eq
    exact ⟨nonce, (History.envelope_count hc j nonce m).symm⟩

/-- A key pair drawn for a later epoch changes no message. -/
theorem Genuine.draw {s i j n : Nat} {e : DrEnvelope Key} {m : Bytes} {r : Key}
    (h : Genuine P sk H s i j e m) (hn : s < n) : Genuine P sk (H.draw n r) s i j e m where
  le := h.le
  parity := h.parity
  lt := h.lt
  eq := by
    obtain ⟨nonce, rfl⟩ := h.eq
    exact ⟨nonce, (History.envelope_draw (Nat.lt_of_le_of_lt h.le hn) r j nonce m).symm⟩

theorem Genuine.later {s s' i j : Nat} {e : DrEnvelope Key} {m : Bytes}
    (h : Genuine P sk H s i j e m) (hs : s ≤ s') (hp : s' % 2 = s % 2) :
    Genuine P sk H s' i j e m where
  le := Nat.le_trans h.le hs
  parity := h.parity.trans hp.symm
  lt := h.lt
  eq := h.eq

/-! ## 2. What a call does to the pair -/

/-- The parties' epochs are next to each other. -/
theorem Synced.next (h : Synced P sk H idx seen st) (p : Side) :
    idx p.other = idx p + 1 ∨ idx p.other + 1 = idx p := by
  have h1 := h.close p
  have h2 := h.close p.other
  have h3 := h.parity_ne p
  rw [p.other_other] at h2
  omega

/-- **A side that has a chain sends the next message of its epoch.** -/
theorem Synced.encrypted (h : Synced P sk H idx seen st) {p : Side} (hp : idx p ≠ 0) (nonce : Nonce)
    {m : Bytes} (hm : P.accepts m = true) :
    (encrypt P nonce (st p) m).1 =
      .ok (H.envelope P sk (idx p) (H.cnt (idx p)) nonce m) ∧
    Synced P sk (H.count (idx p)) idx seen
      (Function.update st p (encrypt P nonce (st p) m).2) := by
  obtain ⟨hres, hpost⟩ := (h.party p).encrypted hp nonce hm
  refine ⟨hres, ?_⟩
  have hcnt : ∀ i, i ≠ idx p → (H.count (idx p)).cnt i = H.cnt i :=
    fun i hi => History.count_cnt_ne hi
  exact
  { parity := h.parity
    close := h.close
    cntZero := (hcnt 0 (Ne.symm hp)).trans h.cntZero
    future := fun i hi => by
      rw [hcnt i (by have := hi p; omega)]
      exact h.future i hi
    distinct := h.distinct
    party := fun q => by
      rcases p.eq_or_other q with rfl | rfl
      · rw [Function.update_self]
        exact hpost
      · rw [Function.update_of_ne p.other_ne]
        have hne := h.next p
        refine (h.party p.other).congr (fun _ _ => rfl) (fun i hi => hcnt i (by omega))
          (hcnt 0 (Ne.symm hp)) (hcnt _ (by omega)) ?_
        by_cases hc : idx p.other - 1 = idx p
        · rw [hc, History.count_cnt_self]
          omega
        · rw [hcnt _ hc] }

/-- The list of what a side has sent, one message longer. -/
theorem Sent.encrypted (h : Synced P sk H idx seen st) {p : Side} {Q : Nat → Nat → Nat → Prop}
    {l : List (DrEnvelope Key × Bytes)} (hl : Sent P sk H (idx p) Q l) (hp : idx p ≠ 0)
    (hQ : Q l.length (idx p) (H.cnt (idx p))) (nonce : Nonce) (m : Bytes) :
    Sent P sk (H.count (idx p)) (idx p) Q
      (l ++ [(H.envelope P sk (idx p) (H.cnt (idx p)) nonce m, m)]) := by
  have hold : ∀ {i j e m}, Genuine P sk H (idx p) i j e m →
      Genuine P sk (H.count (idx p)) (idx p) i j e m := fun hg =>
    hg.count (by have := hg.le; have := hg.pos h.cntZero; omega)
  have hnew : Genuine P sk (H.count (idx p)) (idx p) (idx p) (H.cnt (idx p))
      (H.envelope P sk (idx p) (H.cnt (idx p)) nonce m) m :=
    { le := Nat.le_refl _, parity := rfl
      lt := by rw [History.count_cnt_self]; omega
      eq := ⟨nonce, (History.envelope_count (by omega) _ nonce m).symm⟩ }
  -- an older message has another header than the new one
  have hdiff : ∀ (k : Nat) x, l[k]? = some x → x.1.header.dh = H.pub P (idx p) →
      x.1.header.n = H.cnt (idx p) → False := by
    rintro k ⟨e, m'⟩ hk hdh hn
    obtain ⟨i, j, hg, -⟩ := hl.genuine k e m' hk
    have hlt := hg.lt
    rw [hg.header] at hdh hn
    have hi : i = idx p := h.distinct p i (idx p) hg.le (Nat.le_refl _) hdh
    have hj : j = H.cnt (idx p) := hn
    rw [hi, hj] at hlt
    exact Nat.lt_irrefl _ hlt
  constructor
  · intro k e m' hk
    rcases getElem?_snoc hk with ho | ⟨rfl, ho⟩
    · obtain ⟨i, j, hg, hq⟩ := hl.genuine k e m' ho
      exact ⟨i, j, hold hg, hq⟩
    · cases ho
      exact ⟨_, _, hnew, hQ⟩
  · intro k k' x x' hk hk' hdh hn
    rcases getElem?_snoc hk with ho | ⟨ho, rfl⟩ <;>
      rcases getElem?_snoc hk' with ho' | ⟨ho', rfl⟩
    · exact hl.unique k k' x x' ho ho' hdh hn
    · exact (hdiff k x ho hdh hn).elim
    · exact (hdiff k' x' ho' hdh.symm hn.symm).elim
    · exact ho.trans ho'.symm

theorem Sent.imp {s s' : Nat} {H' : History Key} {Q Q' : Nat → Nat → Nat → Prop}
    {l : List (DrEnvelope Key × Bytes)} (h : Sent P sk H s Q l)
    (hg : ∀ i j e m, Genuine P sk H s i j e m → Genuine P sk H' s' i j e m)
    (hq : ∀ (k : Nat) e m i j, l[k]? = some (e, m) → Genuine P sk H s i j e m →
      Q k i j → Q' k i j) :
    Sent P sk H' s' Q' l where
  genuine k e m hk := by
    obtain ⟨i, j, hgen, hqk⟩ := h.genuine k e m hk
    exact ⟨i, j, hg i j e m hgen, hq k e m i j hk hgen hqk⟩
  unique := h.unique

/-- The public keys after a delivery: those from before, and at most one new one, the receiver's. -/
theorem Moves.pub {p : Side} {i a : Nat} {r : Key} {H' : History Key} {s' : Nat} {q : Side}
    (hmov : Moves H (idx p) i r H' s') (h : Synced P sk H idx seen st) (hi : i ≤ idx p.other)
    (ha : a ≤ Function.update idx p s' q) :
    a = s' ∨ ∃ q', a ≤ idx q' ∧ H'.pub P a = H.pub P a := by
  have hnext := h.next p
  cases hmov with
  | stay =>
    rw [Function.update_eq_self] at ha
    exact .inr ⟨q, ha, rfl⟩
  | turn hturn =>
    by_cases hs : a = idx p + 2
    · exact .inl hs
    · refine .inr ⟨p.other, ?_, History.pub_congr (History.draw_sec_ne r hs)⟩
      rcases p.eq_or_other q with rfl | rfl
      · rw [Function.update_self] at ha
        omega
      · rwa [Function.update_of_ne p.other_ne] at ha

/-- Messages stay genuine through a delivery. -/
theorem Genuine.moves {p : Side} {i' j' i : Nat} {e : DrEnvelope Key} {m : Bytes} {r : Key}
    {H' : History Key} {s' : Nat} (h : Synced P sk H idx seen st) (hmov : Moves H (idx p) i r H' s')
    (hi : i ≤ idx p.other) (q : Side) (hg : Genuine P sk H (idx q) i' j' e m) :
    Genuine P sk H' (Function.update idx p s' q) i' j' e m := by
  have hnext := h.next p
  cases hmov with
  | stay => rwa [Function.update_eq_self]
  | turn hturn =>
    have hlt : idx q < idx p + 2 := by
      rcases p.eq_or_other q with rfl | rfl <;> omega
    have hd := hg.draw (r := r) hlt
    rcases p.eq_or_other q with rfl | rfl
    · rw [Function.update_self]
      exact hd.later (by omega) (Nat.add_mod_right ..)
    · rwa [Function.update_of_ne p.other_ne]

/-- A secret whose public key no epoch has. -/
def Fresh (P : Primitives Key) (H : History Key) (idx : Side → Nat) (r : Key) : Prop :=
  ∀ k q, k ≤ idx q → H.pub P k ≠ P.publicKey r

theorem Fresh.distinct {n : Nat} {r : Key} (h : ∀ k, k ≤ n → H.pub P k ≠ P.publicKey r)
    (hd : H.Distinct P n) : (H.draw (n + 1) r).Distinct P (n + 1) := by
  have hold : ∀ k, k ≤ n → (H.draw (n + 1) r).pub P k = H.pub P k :=
    fun k hk => History.pub_congr (History.draw_sec_ne r (by omega))
  have hnew : (H.draw (n + 1) r).pub P (n + 1) = P.publicKey r :=
    congrArg P.publicKey (History.draw_sec_self ..)
  intro a b ha hb hab
  rcases Nat.lt_or_ge n a with han | han <;> rcases Nat.lt_or_ge n b with hbn | hbn
  · omega
  · obtain rfl : a = n + 1 := by omega
    rw [hnew, hold b hbn] at hab
    exact absurd hab.symm (h b hbn)
  · obtain rfl : b = n + 1 := by omega
    rw [hnew, hold a han] at hab
    exact absurd hab (h a han)
  · rw [hold a han, hold b hbn] at hab
    exact hd a b han hbn hab

/-- A party that stays in its epoch stays in step. -/
theorem Synced.stays (h : Synced P sk H idx seen st) (p : Side) {seen' : Nat → Nat → Prop}
    {st' : DrState Key} (hpost : PartyAt P sk H (idx p) seen' st') :
    Synced P sk H (Function.update idx p (idx p)) (Function.update seen p seen')
      (Function.update st p st') where
  parity q := by rw [Function.update_eq_self]; exact h.parity q
  close q := by rw [Function.update_eq_self]; exact h.close q
  cntZero := h.cntZero
  future k hk := h.future k (by rwa [Function.update_eq_self] at hk)
  distinct q := by rw [Function.update_eq_self]; exact h.distinct q
  party q := by
    rw [Function.update_eq_self]
    rcases p.eq_or_other q with rfl | rfl
    · rw [Function.update_self, Function.update_self]
      exact hpost
    · rw [Function.update_of_ne p.other_ne, Function.update_of_ne p.other_ne]
      exact h.party _

/-- **A party that turns to its next epoch** with a fresh key stays in step. -/
theorem Synced.turns (h : Synced P sk H idx seen st) (p : Side) (hlast : idx p.other = idx p + 1)
    {r : Key} (hr : Fresh P H idx r) {seen' : Nat → Nat → Prop} {st' : DrState Key}
    (hpost : PartyAt P sk (H.draw (idx p + 2) r) (idx p + 2) seen' st') :
    Synced P sk (H.draw (idx p + 2) r) (Function.update idx p (idx p + 2))
      (Function.update seen p seen') (Function.update st p st') := by
  have hoth : p.other ≠ p := p.other_ne
  have hself : Function.update idx p (idx p + 2) p = idx p + 2 := Function.update_self ..
  have hother : Function.update idx p (idx p + 2) p.other = idx p + 1 := by
    rw [Function.update_of_ne hoth, hlast]
  exact
  { parity := fun q => by
      rcases p.eq_or_other q with rfl | rfl
      · rw [hself, Nat.add_mod_right]
        exact h.parity _
      · rw [hother, ← hlast]
        exact h.parity _
    close := fun q => by
      rcases p.eq_or_other q with rfl | rfl
      · omega
      · rw [p.other_other]
        omega
    cntZero := h.cntZero
    future := fun k hk => h.future k fun q => by
      have h1 := hk p
      have h2 := hk p.other
      rcases p.eq_or_other q with rfl | rfl <;> omega
    distinct := fun q => by
      rcases p.eq_or_other q with rfl | rfl
      · rw [hself]
        exact Fresh.distinct (fun k hk => hr k q.other (by omega))
          (hlast ▸ h.distinct q.other)
      · rw [hother]
        exact (hlast ▸ h.distinct p.other : H.Distinct P (idx p + 1)).draw (by omega)
    party := fun q => by
      rcases p.eq_or_other q with rfl | rfl
      · rw [hself, Function.update_self, Function.update_self]
        exact hpost
      · rw [hother, Function.update_of_ne hoth, Function.update_of_ne hoth]
        refine (hlast ▸ h.party p.other : PartyAt P sk H (idx p + 1) _ _).congr
          (fun k hk => History.draw_sec_ne r (by omega)) (fun _ _ => rfl) rfl rfl (Nat.le_refl _) }

variable [DecidableEq Key] [Zero Key]

/-- **A genuine message that its receiver has not seen is decrypted**, and the two parties stay in
    step. -/
theorem Synced.delivered (hP : P.Lawful) (h : Synced P sk H idx seen st) (p : Side) {i j : Nat}
    {e : DrEnvelope Key} {m : Bytes} (hg : Genuine P sk H (idx p.other) i j e m)
    (hns : ¬ seen p i j) (hw : SkipsWithin (st p) e.header) {r : Key} (hr : Fresh P H idx r) :
    (decrypt P r (st p) e).1 = .ok m ∧
    ∃ H' s', Moves H (idx p) i r H' s' ∧
      Synced P sk H' (Function.update idx p s') (Function.update seen p (See (seen p) i j))
        (Function.update st p (decrypt P r (st p) e).2) := by
  have hclose := h.close p
  have hpar := h.parity_ne p
  have hnext := h.next p
  obtain ⟨nonce, rfl⟩ := hg.eq
  obtain ⟨n, hsn, hin, hd⟩ : ∃ n, idx p ≤ n ∧ i ≤ n ∧ H.Distinct P n := by
    have := hg.le
    rcases Nat.le_total (idx p) (idx p.other) with hle | hle
    · exact ⟨_, hle, hg.le, h.distinct p.other⟩
    · exact ⟨_, Nat.le_refl _, by omega, h.distinct p⟩
  have hfut : H.cnt (idx p + 2) = 0 := h.future _ fun q => by
    rcases p.eq_or_other q with rfl | rfl <;> omega
  obtain ⟨hres, H', s', hmov, hpost⟩ := (h.party p).deliver hP hd hsn h.cntZero hfut
    (by rw [hg.parity]; exact hpar) hin (Nat.le_trans hg.le hclose) hg.lt hns hw r nonce m
  refine ⟨hres, H', s', hmov, ?_⟩
  cases hmov with
  | stay hi => exact h.stays p hpost
  | turn hi =>
    have hlast : idx p.other = idx p + 1 := by have := hg.le; omega
    exact h.turns p hlast hr hpost

end

/-! ## 3. Runs -/

/-- Both parties, what they have sent, and what happened to it. -/
structure World (Key : Type) where
  state : Side → DrState Key
  /-- The envelopes a side's `encrypt` has returned, each with its plaintext. -/
  sent : Side → List (DrEnvelope Key × Bytes)
  /-- The places in `sent` that the other side has been given. -/
  delivered : Side → List Nat
  /-- The public keys drawn so far. -/
  pubs : List Key
  /-- The plaintext of each delivered envelope, with what `decrypt` returned. -/
  results : List (Bytes × Except String Bytes)

inductive Event (Key : Type) where
  | encrypt (p : Side) (nonce : Nonce) (m : Bytes)
  | deliver (p : Side) (k : Nat) (r : Key)

/-- `p` calls `encrypt`. -/
def World.encrypted (P : Primitives Key) (w : World Key) (p : Side) (nonce : Nonce) (m : Bytes) :
    World Key :=
  let out := encrypt P nonce (w.state p) m
  { w with
    state := Function.update w.state p out.2
    sent :=
      match out.1 with
      | .ok e => Function.update w.sent p (w.sent p ++ [(e, m)])
      | .error _ => w.sent }

/-- `p` calls `decrypt` on the envelope that the other side sent `k`-th. -/
def World.decrypted [DecidableEq Key] [Zero Key] (P : Primitives Key) (w : World Key) (p : Side)
    (k : Nat) (r : Key) (e : DrEnvelope Key) (m : Bytes) : World Key :=
  let out := decrypt P r (w.state p) e
  { w with
    state := Function.update w.state p out.2
    delivered := Function.update w.delivered p.other (k :: w.delivered p.other)
    pubs := out.2.dhSendPub :: w.pubs
    results := w.results ++ [(m, out.1)] }

/-- The steps of a session: any `encrypt` call, and the delivery of an envelope not delivered
    before, with a fresh secret at hand, that does not ask for more than `MAX_SKIP` keys of a chain.
    An envelope that is never delivered is lost. -/
inductive Step [DecidableEq Key] [Zero Key] (P : Primitives Key) :
    World Key → Event Key → World Key → Prop where
  | encrypt (w : World Key) (p : Side) (nonce : Nonce) (m : Bytes) :
      Step P w (.encrypt p nonce m) (w.encrypted P p nonce m)
  | deliver (w : World Key) (p : Side) (k : Nat) (r : Key) (e : DrEnvelope Key) (m : Bytes)
      (hk : (w.sent p.other)[k]? = some (e, m)) (hnew : k ∉ w.delivered p.other)
      (hfresh : P.publicKey r ∉ w.pubs) (hskip : SkipsWithin (w.state p) e.header) :
      Step P w (.deliver p k r) (w.decrypted P p k r e m)

/-- The parties that `init_alice` and `init_bob` start. -/
def World.init (P : Primitives Key) (sk secret bobSecret : Key) : World Key where
  state
    | .alice => initAlice P secret sk (P.publicKey bobSecret)
    | .bob => initBob sk bobSecret (P.publicKey bobSecret)
  sent _ := []
  delivered _ := []
  pubs := [P.publicKey secret, P.publicKey bobSecret]
  results := []

/-- A session starts with two different key pairs. -/
inductive Start (P : Primitives Key) : World Key → Prop where
  | init (sk secret bobSecret : Key) (h : P.publicKey secret ≠ P.publicKey bobSecret) :
      Start P (World.init P sk secret bobSecret)

/-- The cipher takes the plaintext of this step. -/
def Accepted (P : Primitives Key) (_ : World Key) : Event Key → Prop
  | .encrypt _ _ m => P.accepts m = true
  | .deliver .. => True

/-! ## 4. The invariant of a run -/

/-- The history behind a world. -/
structure Tracks (P : Primitives Key) (sk : Key) (H : History Key) (idx : Side → Nat)
    (seen : Side → Nat → Nat → Prop) (w : World Key) : Prop where
  synced : Synced P sk H idx seen w.state
  pubs : ∀ k p, k ≤ idx p → H.pub P k ∈ w.pubs
  /-- The receiver has seen what has been delivered to it. -/
  sent : ∀ p, Sent P sk H (idx p) (fun k i j => k ∈ w.delivered p ↔ seen p.other i j) (w.sent p)
  delivered : ∀ p, ∀ k ∈ w.delivered p, k < (w.sent p).length
  results : ∀ x ∈ w.results, x.2 = .ok x.1

/-- The history of a session in which nothing has happened. -/
def History.init (secret bobSecret : Key) : History Key where
  sec i := if i = 0 then bobSecret else secret
  cnt _ := 0

/-- The epochs the parties start in. -/
def Side.first : Side → Nat
  | .alice => 1
  | .bob => 0

theorem synced_init {P : Primitives Key} (sk : Key) {secret bobSecret : Key}
    (h : P.publicKey secret ≠ P.publicKey bobSecret) :
    Synced P sk (History.init secret bobSecret) Side.first (fun _ _ _ => False)
      (World.init P sk secret bobSecret).state where
  parity p := by cases p <;> rfl
  close p := by cases p <;> simp [Side.first, Side.other]
  cntZero := rfl
  future _ _ := rfl
  distinct p i j hi hj hij := by
    have hle : p.first ≤ 1 := by cases p <;> simp [Side.first]
    have h01 : (History.init secret bobSecret).pub P 0 = P.publicKey bobSecret := rfl
    have h11 : (History.init secret bobSecret).pub P 1 = P.publicKey secret := rfl
    rcases Nat.eq_zero_or_pos i with rfl | hi0 <;> rcases Nat.eq_zero_or_pos j with rfl | hj0
    · rfl
    · obtain rfl : j = 1 := by omega
      exact absurd (h11.symm.trans (hij.symm.trans h01)) h
    · obtain rfl : i = 1 := by omega
      exact absurd (h11.symm.trans (hij.trans h01)) h
    · omega
  party p := by
    have hno : ∀ s n i j, ¬ Passed (History.init secret bobSecret) s n i j ∨ n ≠ 0 := by
      intro s n i j
      by_cases hn : n = 0
      · refine .inl ?_
        intro hx
        rcases hx with ⟨-, hlt⟩ | ⟨-, hlt⟩
        · exact Nat.not_lt_zero _ hlt
        · omega
      · exact .inr hn
    cases p <;>
    exact
    { dhSend := rfl, dhSendPub := rfl, rootKey := rfl, nSend := rfl, pn := rfl, ckSend := rfl
      dhRecv := rfl, ckRecv := rfl, recvLe := Nat.le_refl _
      seenPassed := fun _ _ hf => hf.elim
      skippedMem := fun k => by
        constructor
        · intro hk
          cases hk
        · intro hx
          obtain ⟨i, j, -, hp, -⟩ := hx
          exact ((hno _ _ i j).resolve_right (fun hn => hn rfl) hp).elim
      skippedNodup := List.nodup_nil }

theorem tracks_init {P : Primitives Key} (sk : Key) {secret bobSecret : Key}
    (h : P.publicKey secret ≠ P.publicKey bobSecret) :
    Tracks P sk (History.init secret bobSecret) Side.first (fun _ _ _ => False)
      (World.init P sk secret bobSecret) where
  synced := synced_init sk h
  pubs k p hk := by
    have hle : p.first ≤ 1 := by cases p <;> simp [Side.first]
    rcases Nat.eq_zero_or_pos k with rfl | h0
    · exact List.mem_cons_of_mem _ (List.mem_singleton_self _)
    · obtain rfl : k = 1 := by omega
      exact List.mem_cons_self
  sent p :=
    { genuine := fun k e m hk => by simp [World.init] at hk
      unique := fun k k' x x' hk => by simp [World.init] at hk }
  delivered p k hk := by cases hk
  results x hx := by cases hx

theorem PartyAt.seen_lt {P : Primitives Key} {sk : Key} {H : History Key} {s : Nat}
    {seen : Nat → Nat → Prop} {st : DrState Key} (h : PartyAt P sk H s seen st) {i j : Nat}
    (hs : seen i j) : j < H.cnt i := by
  have hle := h.recvLe
  rcases h.seenPassed i j hs with ⟨-, hj⟩ | ⟨hi, hj⟩
  · exact hj
  · obtain rfl : i = s - 1 := by omega
    omega

section

variable [DecidableEq Key] {P : Primitives Key} {sk : Key} {H : History Key} {idx : Side → Nat}
  {seen : Side → Nat → Nat → Prop} {w : World Key}

omit [DecidableEq Key] in
theorem Tracks.encrypted (h : Tracks P sk H idx seen w) (p : Side) (nonce : Nonce) {m : Bytes}
    (hm : P.accepts m = true) : ∃ H', Tracks P sk H' idx seen (w.encrypted P p nonce m) := by
  by_cases hp : idx p = 0
  · have hpar := hp ▸ h.synced.party p
    have hw : w.encrypted P p nonce m = w := by
      simp [World.encrypted, hpar.encrypt_zero nonce m]
    rw [hw]
    exact ⟨H, h⟩
  · obtain ⟨hres, hpost⟩ := h.synced.encrypted hp nonce hm
    refine ⟨H.count (idx p), ?_⟩
    exact
    { synced := hpost
      pubs := h.pubs
      sent := fun q => by
        show Sent P sk _ _ _ ((w.encrypted P p nonce m).sent q)
        simp only [World.encrypted, hres]
        rcases p.eq_or_other q with rfl | rfl
        · rw [Function.update_self]
          refine Sent.encrypted h.synced (h.sent q) hp ⟨fun hd => ?_, fun hs => ?_⟩ nonce m
          · exact absurd (h.delivered q _ hd) (Nat.lt_irrefl _)
          · exact absurd ((h.synced.party _).seen_lt hs) (Nat.lt_irrefl _)
        · rw [Function.update_of_ne p.other_ne]
          have hnext := h.synced.next p
          refine (h.sent p.other).imp (fun i j e m hg => hg.count ?_) fun _ _ _ _ _ _ _ hq => hq
          have := hg.le
          have := hg.pos h.synced.cntZero
          omega
      delivered := fun q k hk => by
        refine Nat.lt_of_lt_of_le (h.delivered q k hk) ?_
        simp only [World.encrypted, hres]
        rcases p.eq_or_other q with rfl | rfl
        · rw [Function.update_self, List.length_append]
          exact Nat.le_add_right _ _
        · rw [Function.update_of_ne p.other_ne]
      results := h.results }

variable [Zero Key]

theorem Tracks.decrypted (hP : P.Lawful) (h : Tracks P sk H idx seen w) (p : Side) {k : Nat}
    {r : Key} {e : DrEnvelope Key} {m : Bytes} (hk : (w.sent p.other)[k]? = some (e, m))
    (hnew : k ∉ w.delivered p.other) (hfresh : P.publicKey r ∉ w.pubs)
    (hskip : SkipsWithin (w.state p) e.header) :
    ∃ H' idx' seen', Tracks P sk H' idx' seen' (w.decrypted P p k r e m) := by
  obtain ⟨i, j, hg, hq⟩ := (h.sent p.other).genuine k e m hk
  have hns : ¬ seen p i j := by
    rw [p.other_other] at hq
    exact fun hs => hnew (hq.mpr hs)
  have hr : Fresh P H idx r := fun a q ha hab => hfresh (hab ▸ h.pubs a q ha)
  obtain ⟨hres, H', s', hmov, hpost⟩ := h.synced.delivered hP p hg hns hskip hr
  refine ⟨H', Function.update idx p s', Function.update seen p (See (seen p) i j), ?_⟩
  exact
  { synced := hpost
    pubs := fun a q ha => by
      have hown := (hpost.party p).dhSendPub
      rw [Function.update_self, Function.update_self] at hown
      rcases hmov.pub h.synced hg.le ha with rfl | ⟨q', ha', e'⟩
      · exact hown ▸ List.mem_cons_self
      · exact e' ▸ List.mem_cons_of_mem _ (h.pubs a q' ha')
    sent := fun q => by
      refine (h.sent q).imp (fun i' j' e' m' hg' => hg'.moves h.synced hmov hg.le q) ?_
      intro k' e' m' i' j' hk' hg' hq'
      show k' ∈ Function.update w.delivered p.other _ q ↔ _
      rcases p.eq_or_other q with rfl | rfl
      · -- what the receiver itself has sent
        rwa [Function.update_of_ne q.other_ne.symm, Function.update_of_ne q.other_ne]
      · rw [p.other_other, Function.update_self, Function.update_self, List.mem_cons]
        rw [p.other_other] at hq'
        -- one header, so one envelope
        have hsame : k' = k ↔ i' = i ∧ j' = j := by
          constructor
          · rintro rfl
            obtain ⟨rfl, rfl⟩ := Prod.mk.inj (Option.some.inj (hk'.symm.trans hk))
            exact hg'.header_inj hg (h.synced.distinct p.other) rfl rfl
          · intro hx
            obtain ⟨rfl, rfl⟩ := hx
            have he : e'.header = e.header := hg'.header.trans hg.header.symm
            exact (h.sent p.other).unique k' k _ _ hk' hk (congrArg (·.dh) he) (congrArg (·.n) he)
        rw [hsame, hq']
        exact or_comm
    delivered := fun q k' hk' => by
      change k' ∈ Function.update w.delivered p.other (k :: w.delivered p.other) q at hk'
      rcases p.eq_or_other q with rfl | rfl
      · rw [Function.update_of_ne q.other_ne.symm] at hk'
        exact h.delivered q k' hk'
      · rw [Function.update_self, List.mem_cons] at hk'
        rcases hk' with rfl | hk'
        · exact (List.getElem?_eq_some_iff.mp hk).1
        · exact h.delivered p.other k' hk'
    results := fun x hx => by
      rcases List.mem_append.mp hx with hx | hx
      · exact h.results x hx
      · obtain rfl := List.mem_singleton.mp hx
        exact hres }

/-- **A step keeps the history.** -/
theorem Tracks.step (hP : P.Lawful) (h : Tracks P sk H idx seen w) {ev : Event Key} {w' : World Key}
    (hst : Guarded (Accepted P) (Step P) w ev w') :
    ∃ H' idx' seen', Tracks P sk H' idx' seen' w' := by
  obtain ⟨hacc, hst⟩ := hst
  cases hst with
  | encrypt p nonce m =>
    obtain ⟨H', h'⟩ := h.encrypted p nonce hacc
    exact ⟨H', idx, seen, h'⟩
  | deliver p k r e m hk hnew hfresh hskip => exact h.decrypted hP p hk hnew hfresh hskip

/-- **Every run keeps a history.** -/
theorem tracks_reach (hP : P.Lawful) {w : World Key}
    (h : Reach (Start P) (Guarded (Accepted P) (Step P)) w) :
    ∃ sk H idx seen, Tracks P sk H idx seen w := by
  refine Reach.inv (I := fun w => ∃ sk H idx seen, Tracks P sk H idx seen w) (fun w hs => ?_)
    (fun w ev w' hw hst => ?_) h
  · cases hs with
    | init sk secret bobSecret hne => exact ⟨sk, _, _, _, tracks_init sk hne⟩
  · obtain ⟨sk, H, idx, seen, ht⟩ := hw
    exact ⟨sk, ht.step hP hst⟩

end

/-- **Session correctness**: in every run in which no `encrypt` call is given a plaintext the cipher
    refuses, every delivery of a sent envelope returns the plaintext that was encrypted. -/
theorem session_results {Key : Type} [DecidableEq Key] [Zero Key] (P : Primitives Key)
    (hP : P.Lawful) (w : World Key) (h : Reach (Start P) (Guarded (Accepted P) (Step P)) w) :
    ∀ x ∈ w.results, x.2 = .ok x.1 := by
  obtain ⟨sk, H, idx, seen, ht⟩ := tracks_reach hP h
  exact ht.results

/-! ## 5. A conversation, and a refused plaintext -/

section

variable {Key : Type} [DecidableEq Key] [Zero Key] {P : Primitives Key}

/-- The initiator's first call of `encrypt` with a plaintext the cipher takes. -/
def firstEnvelope (P : Primitives Key) (sk a b ck : Key) (nonce : Nonce) (m : Bytes) :
    DrEnvelope Key :=
  { header := { dh := (initAlice P a sk (P.publicKey b)).dhSendPub, pn := 0, n := 0 }
    nonce
    ciphertext := P.aeadSeal (kdfCk P ck).2 nonce m }

/-- The chain key `init_alice` starts with. -/
def firstChain (P : Primitives Key) (sk a b : Key) : Key :=
  (kdfRk P sk (P.diffieHellman a (P.publicKey b))).2

omit [DecidableEq Key] [Zero Key] in
theorem encrypted_alice {w : World Key} {ck : Key} (nonce : Nonce) {m : Bytes}
    (hck : (w.state .alice).ckSend = some ck) (hm : P.accepts m = true) :
    (w.encrypted P .alice nonce m).sent .alice = w.sent .alice ++
      [({ header := { dh := (w.state .alice).dhSendPub, pn := (w.state .alice).pn,
                      n := (w.state .alice).nSend }
          nonce, ciphertext := P.aeadSeal (kdfCk P ck).2 nonce m }, m)] := by
  simp [World.encrypted, encrypt_ok nonce hck hm]

omit [DecidableEq Key] [Zero Key] in
theorem encrypted_refused {w : World Key} {ck : Key} (nonce : Nonce) {m : Bytes}
    (hck : (w.state .alice).ckSend = some ck) (hm : P.accepts m = false) :
    w.encrypted P .alice nonce m =
      { w with state := Function.update w.state .alice
                { w.state .alice with ckSend := some (kdfCk P ck).1 } } := by
  simp [World.encrypted, encrypt_refused nonce hck hm]

omit [Zero Key] in
theorem skipsWithin_first {sk a b ck : Key} {nonce : Nonce} {m : Bytes} :
    SkipsWithin (initBob sk b (P.publicKey b)) (firstEnvelope P sk a b ck nonce m).header :=
  .inr ⟨Nat.zero_le _, Nat.zero_le _⟩

/-- `p` is given what the other side has sent `k`-th, if there is something. -/
def World.handed (P : Primitives Key) (w : World Key) (p : Side) (k : Nat) (r : Key) : World Key :=
  match (w.sent p.other)[k]? with
  | none => w
  | some (e, m) => w.decrypted P p k r e m

theorem reach_encrypted {w : World Key}
    (h : Reach (Start P) (Guarded (Accepted P) (Step P)) w) (p : Side) (nonce : Nonce) {m : Bytes}
    (hm : P.accepts m = true) :
    Reach (Start P) (Guarded (Accepted P) (Step P)) (w.encrypted P p nonce m) :=
  .step _ (Event.encrypt p nonce m) _ h ⟨hm, .encrypt ..⟩

theorem reach_handed {w : World Key} (h : Reach (Start P) (Guarded (Accepted P) (Step P)) w)
    {p : Side} {k : Nat} {r : Key} (hk : (w.sent p.other)[k]?.isSome = true)
    (hnew : k ∉ w.delivered p.other) (hfresh : P.publicKey r ∉ w.pubs)
    (hskip : ∀ x ∈ (w.sent p.other)[k]?, SkipsWithin (w.state p) x.1.header) :
    Reach (Start P) (Guarded (Accepted P) (Step P)) (w.handed P p k r) := by
  obtain ⟨⟨e, m⟩, hx⟩ := Option.isSome_iff_exists.mp hk
  have hstep : Step P w (.deliver p k r) (w.decrypted P p k r e m) :=
    .deliver w p k r e m hx hnew hfresh (hskip _ hx)
  unfold World.handed
  rw [hx]
  exact .step _ (Event.deliver p k r) _ h ⟨trivial, hstep⟩

/-- The initiator is given a plaintext the cipher refuses, then one it takes; the envelope of the
    second is delivered. -/
def refusedRun (P : Primitives Key) (sk a b r : Key) (nonce : Nonce) (m₀ m₁ : Bytes) : World Key :=
  (((World.init P sk a b).encrypted P .alice nonce m₀).encrypted P .alice nonce m₁).decrypted P .bob
    0 r (firstEnvelope P sk a b (kdfCk P (firstChain P sk a b)).1 nonce m₁) m₁

/-- **The message after a refused plaintext does not decrypt**, whatever it is. -/
theorem refusedRun_breaks (hP : P.Ideal) (sk a b r : Key) (nonce : Nonce) {m₀ m₁ : Bytes}
    (hab : P.publicKey a ≠ P.publicKey b) (hr : P.publicKey r ∉ [P.publicKey a, P.publicKey b])
    (h₀ : P.accepts m₀ = false) (h₁ : P.accepts m₁ = true) :
    Reach (Start P) (Step P) (refusedRun P sk a b r nonce m₀ m₁) ∧
      (refusedRun P sk a b r nonce m₀ m₁).results = [(m₁, .error "Decryption failed")] := by
  have hck : ((World.init P sk a b).state .alice).ckSend = some (firstChain P sk a b) := rfl
  have hw := encrypted_refused nonce hck h₀
  have hck' : (((World.init P sk a b).encrypted P .alice nonce m₀).state .alice).ckSend =
      some (kdfCk P (firstChain P sk a b)).1 := by
    rw [hw]
    rfl
  have hsent := encrypted_alice nonce hck' h₁
  have hbob : (((World.init P sk a b).encrypted P .alice nonce m₀).encrypted P .alice nonce
      m₁).state .bob = initBob sk b (P.publicKey b) := rfl
  constructor
  · refine .step _ (.deliver .bob 0 r) _
      (.step _ (.encrypt .alice nonce m₁) _
        (.step _ (.encrypt .alice nonce m₀) _ (.start _ (.init sk a b hab)) (.encrypt ..))
        (.encrypt ..))
      (.deliver _ .bob 0 r _ m₁ ?_ List.not_mem_nil hr (hbob ▸ skipsWithin_first))
    rw [hw] at hsent
    show (World.sent _ Side.alice)[0]? = _
    rw [hw, hsent]
    rfl
  · -- the responder derives the key of message 0, the envelope is sealed under that of message 1
    have hkey : messageKey P (ratchetChain P (initBob sk b (P.publicKey b)) (P.publicKey a)) 0 ≠
        (kdfCk P (kdfCk P (firstChain P sk a b)).1).2 := by
      intro e
      have h1 := (hP.hkdf_inj _ _ _ _ _ _ e).1
      have h2 : ratchetChain P (initBob sk b (P.publicKey b)) (P.publicKey a) =
          firstChain P sk a b := by
        show (kdfRk P sk (P.diffieHellman b (P.publicKey a))).2 = _
        rw [hP.dh_comm b a]
        rfl
      rw [h2] at h1
      have := hP.iterate_inj none "chain" (m := 0) (n := 1) h1
      omega
    have hdec : (decrypt P r (initBob sk b (P.publicKey b))
        (firstEnvelope P sk a b (kdfCk P (firstChain P sk a b)).1 nonce m₁)).1 =
        .error "Decryption failed" := by
      rw [decrypt_ratchet rfl rfl (Nat.zero_le _) (Nat.zero_le _)]
      show decryptWithKey P (messageKey P (ratchetChain P _ (P.publicKey a)) 0) _ = _
      unfold decryptWithKey
      rw [show (firstEnvelope P sk a b (kdfCk P (firstChain P sk a b)).1 nonce m₁).ciphertext =
        P.aeadSeal _ nonce m₁ from rfl, hP.open_other hkey]
    show [] ++ [(m₁, (decrypt P r _ _).1)] = _
    rw [hbob, hdec]
    rfl

/-- The initiator has sent three messages. -/
def threeSent : World Sym :=
  (((World.init symbolic (.secret 9) (.secret 1) (.secret 2)).encrypted symbolic .alice
    (Vector.replicate 12 0) [1]).encrypted symbolic .alice (Vector.replicate 12 0)
    [2]).encrypted symbolic
    .alice (Vector.replicate 12 0) [3]

/-- The responder is given the second of them and replies. -/
def replied : World Sym :=
  (threeSent.handed symbolic .bob 1 (.secret 3)).encrypted symbolic .bob (Vector.replicate 12 0) [4]

/-- The reply is delivered, then the first message; the third is lost. -/
def conversation : World Sym :=
  (replied.handed symbolic .alice 0 (.secret 4)).handed symbolic .bob 0 (.secret 5)

theorem conversation_reach :
    Reach (Start symbolic) (Guarded (Accepted symbolic) (Step symbolic)) conversation := by
  have hstart : Reach (Start symbolic) (Guarded (Accepted symbolic) (Step symbolic))
      (World.init symbolic (.secret 9) (.secret 1) (.secret 2)) := .start _ (.init _ _ _ nofun)
  have hsent : Reach (Start symbolic) (Guarded (Accepted symbolic) (Step symbolic)) threeSent :=
    reach_encrypted (reach_encrypted (reach_encrypted hstart .alice _ rfl) .alice _ rfl)
      .alice _ rfl
  have hreplied : Reach (Start symbolic) (Guarded (Accepted symbolic) (Step symbolic)) replied := by
    refine reach_encrypted (reach_handed hsent rfl (by decide) (by decide) fun x hx =>
      ?_) .bob _ rfl
    cases hx
    decide
  refine reach_handed (reach_handed hreplied rfl (by decide) (by decide) fun x hx => ?_)
    rfl (by decide)
    (by decide) fun x hx => ?_
  · cases hx
    decide
  · cases hx
    decide

/-- A message that overtakes another, a reply, a message that comes late and one that is lost. -/
theorem session_results_conversation :
    Reach (Start symbolic) (Guarded (Accepted symbolic) (Step symbolic)) conversation ∧
    conversation.results.map Prod.fst = [[2], [4], [1]] ∧
    ∀ x ∈ conversation.results, x.2 = .ok x.1 :=
  ⟨conversation_reach, rfl, session_results symbolic symbolic_lawful _ conversation_reach⟩

/-- The run in which the plaintext of the step before the last is one byte too long for the
    cipher. -/
theorem session_breaks :
    Reach (Start symbolic) (Step symbolic) (refusedRun symbolic (.secret 9) (.secret 1) (.secret 2)
      (.secret 3) (Vector.replicate 12 0) oversized [104, 105]) ∧
    ¬ ∀ x ∈ (refusedRun symbolic (.secret 9) (.secret 1) (.secret 2) (.secret 3)
      (Vector.replicate 12 0) oversized [104, 105]).results, x.2 = .ok x.1 := by
  have hm : symbolic.accepts [104, 105] = true := rfl
  have ⟨hreach, hres⟩ := refusedRun_breaks symbolic_ideal (.secret 9) (.secret 1) (.secret 2)
    (.secret 3) (Vector.replicate 12 0) nofun (by decide) oversized_refused hm
  refine ⟨hreach, fun h => ?_⟩
  rw [hres] at h
  exact absurd (h _ (List.mem_singleton_self _)) nofun

end

end AlterChat.DoubleRatchet
