import AlterChat.Core.DoubleRatchet

/-!
# The epochs of a double ratchet session

A session is a line of epochs. Epoch 0 is the responder's first key pair, epoch 1 the initiator's,
and from then on the two sides take turns: each epoch has one owner, whose key pair it is and who
sends one chain of messages in it. `History` is that line -- the key pairs and how many messages
each chain has so far -- and everything else follows from it: root keys, chains, message keys and
the envelope of message `j` of epoch `i`.

`PartyAt P sk H s seen st` says that `st` is the state of the party whose newest key pair is that of
epoch `s` and to whom the messages in `seen` have been given: every field of `st` is the one the
history fixes, and the stored keys are exactly those of the messages passed over.

* `PartyAt.encrypted` -- a sent message is the next of epoch `s`;
* `PartyAt.skipTo`, `.receive`, `.ratchet`, `.takeStored` -- what the parts of `decrypt` do to it;
* `PartyAt.deliver` -- **a genuine message not seen before is decrypted**, and the party is again
  one the history describes.
-/

namespace AlterChat.DoubleRatchet

open Lib

variable {Key : Type}

/-! ## 1. The history of a session -/

/-- The key pairs of the epochs, and how many messages each chain has. -/
structure History (Key : Type) where
  sec : Nat → Key
  cnt : Nat → Nat

namespace History

variable (P : Primitives Key) (sk : Key) (H : History Key)

/-- The public key of epoch `i`. -/
def pub (i : Nat) : Key := P.publicKey (H.sec i)

/-- The root key of epoch `i`. -/
def root : Nat → Key
  | 0 => sk
  | i + 1 => (kdfRk P (root i) (P.diffieHellman (H.sec (i + 1)) (H.pub P i))).1

/-- The chain key at the start of epoch `i` (epoch 0 has no chain). -/
def chain (i : Nat) : Key :=
  (kdfRk P (H.root P sk (i - 1)) (P.diffieHellman (H.sec i) (H.pub P (i - 1)))).2

/-- The key of message `j` of epoch `i`. -/
def msgKey (i j : Nat) : Key := messageKey P (H.chain P sk i) j

/-- The header of message `j` of epoch `i`. -/
def header (i j : Nat) : DrHeader Key := { dh := H.pub P i, pn := H.cnt (i - 2), n := j }

/-- Message `j` of epoch `i`. -/
def envelope (i j : Nat) (nonce : Nonce) (m : Bytes) : DrEnvelope Key :=
  { header := H.header P i j, nonce, ciphertext := P.aeadSeal (H.msgKey P sk i j) nonce m }

/-- The stored key of message `j` of epoch `i`. -/
def stored (i j : Nat) : SkippedKey Key := ⟨H.pub P i, j, H.msgKey P sk i j⟩

/-- One more message in epoch `i`. -/
def count (i : Nat) : History Key := { H with cnt := Function.update H.cnt i (H.cnt i + 1) }

/-- The key pair of epoch `i` is drawn. -/
def draw (i : Nat) (r : Key) : History Key := { H with sec := Function.update H.sec i r }

variable {P sk H} {H' : History Key}

@[simp] theorem root_succ (i : Nat) : H.root P sk (i + 1) =
    (kdfRk P (H.root P sk i) (P.diffieHellman (H.sec (i + 1)) (H.pub P i))).1 := rfl

@[simp] theorem chain_succ (i : Nat) : H.chain P sk (i + 1) =
    (kdfRk P (H.root P sk i) (P.diffieHellman (H.sec (i + 1)) (H.pub P i))).2 := rfl

/-! Everything about epoch `i` depends on the key pairs up to `i` only. -/

theorem pub_congr {i : Nat} (h : H'.sec i = H.sec i) : H'.pub P i = H.pub P i :=
  congrArg P.publicKey h

theorem root_congr {i : Nat} (h : ∀ k, k ≤ i → H'.sec k = H.sec k) :
    H'.root P sk i = H.root P sk i := by
  induction i with
  | zero => rfl
  | succ i ih =>
    rw [root_succ, root_succ, ih fun k hk => h k (by omega), h (i + 1) (Nat.le_refl _),
      pub_congr (h i (by omega))]

theorem chain_congr {i : Nat} (h : ∀ k, k ≤ i → H'.sec k = H.sec k) :
    H'.chain P sk i = H.chain P sk i := by
  unfold chain
  rw [root_congr fun k hk => h k (by omega), h i (Nat.le_refl _), pub_congr (h (i - 1) (by omega))]

theorem stored_congr {i : Nat} (j : Nat) (h : ∀ k, k ≤ i → H'.sec k = H.sec k) :
    H'.stored P sk i j = H.stored P sk i j := by
  unfold stored msgKey
  rw [chain_congr h, pub_congr (h i (Nat.le_refl _))]

/-- A message stays what it is while neither its key pairs nor the count its header shows change. -/
theorem envelope_congr {i : Nat} (j : Nat) (nonce : Nonce) (m : Bytes)
    (h : ∀ k, k ≤ i → H'.sec k = H.sec k) (hc : H'.cnt (i - 2) = H.cnt (i - 2)) :
    H'.envelope P sk i j nonce m = H.envelope P sk i j nonce m := by
  unfold envelope header msgKey
  rw [chain_congr h, pub_congr (h i (Nat.le_refl _)), hc]

@[simp] theorem count_sec (i : Nat) : (H.count i).sec = H.sec := rfl

@[simp] theorem draw_cnt (i : Nat) (r : Key) : (H.draw i r).cnt = H.cnt := rfl

@[simp] theorem count_root (i k : Nat) : (H.count i).root P sk k = H.root P sk k :=
  root_congr fun _ _ => rfl

@[simp] theorem count_chain (i k : Nat) : (H.count i).chain P sk k = H.chain P sk k :=
  chain_congr fun _ _ => rfl

@[simp] theorem count_stored (i k j : Nat) : (H.count i).stored P sk k j = H.stored P sk k j :=
  stored_congr j fun _ _ => rfl

theorem count_cnt_self (i : Nat) : (H.count i).cnt i = H.cnt i + 1 := Function.update_self ..

theorem count_cnt_ne {i k : Nat} (h : k ≠ i) : (H.count i).cnt k = H.cnt k :=
  Function.update_of_ne h ..

/-- Counting in one epoch leaves the messages whose header does not show that count. -/
theorem envelope_count {i c : Nat} (h : i - 2 ≠ c) (j : Nat) (nonce : Nonce) (m : Bytes) :
    (H.count c).envelope P sk i j nonce m = H.envelope P sk i j nonce m :=
  envelope_congr j nonce m (fun _ _ => rfl) (count_cnt_ne h)

theorem draw_sec_self (i : Nat) (r : Key) : (H.draw i r).sec i = r := Function.update_self ..

theorem draw_sec_ne {i k : Nat} (r : Key) (h : k ≠ i) : (H.draw i r).sec k = H.sec k :=
  Function.update_of_ne h ..

/-- The public keys up to epoch `n` differ. -/
def Distinct (P : Primitives Key) (H : History Key) (n : Nat) : Prop :=
  ∀ i j, i ≤ n → j ≤ n → H.pub P i = H.pub P j → i = j

/-- A key pair drawn for a later epoch leaves the messages. -/
theorem envelope_draw {i n : Nat} (h : i < n) (r : Key) (j : Nat) (nonce : Nonce) (m : Bytes) :
    (H.draw n r).envelope P sk i j nonce m = H.envelope P sk i j nonce m :=
  envelope_congr j nonce m (fun k hk => draw_sec_ne r (by omega)) rfl

theorem Distinct.draw {n i : Nat} {r : Key} (h : H.Distinct P n) (hi : n < i) :
    (H.draw i r).Distinct P n := by
  intro a b ha hb hab
  have ha' : (H.draw i r).pub P a = H.pub P a := pub_congr (draw_sec_ne r (by omega))
  have hb' : (H.draw i r).pub P b = H.pub P b := pub_congr (draw_sec_ne r (by omega))
  exact h a b ha hb (by rw [← ha', hab, hb'])

end History

/-! ## 2. The state of a party -/

/-- Message `j` of epoch `i` has been passed by a party of epoch `s` that stands at number `n` of
    the chain it receives: its key is used up or stored. -/
def Passed (H : History Key) (s n i j : Nat) : Prop :=
  (i + 1 < s ∧ j < H.cnt i) ∨ (i + 1 = s ∧ j < n)

/-- A party of epoch `s` to which the messages in `seen` have been given. -/
structure PartyAt (P : Primitives Key) (sk : Key) (H : History Key) (s : Nat)
    (seen : Nat → Nat → Prop) (st : DrState Key) : Prop where
  dhSend : st.dhSend = H.sec s
  dhSendPub : st.dhSendPub = H.pub P s
  rootKey : st.rootKey = H.root P sk s
  nSend : st.nSend = H.cnt s
  pn : st.pn = H.cnt (s - 2)
  ckSend : st.ckSend = if s = 0 then none else some (chainKey P (H.chain P sk s) (H.cnt s))
  dhRecv : st.dhRecv = if s = 0 then none else some (H.pub P (s - 1))
  ckRecv : st.ckRecv =
    if s ≤ 1 then none else some (chainKey P (H.chain P sk (s - 1)) st.nRecv)
  /-- It has not gone past the end of the chain it receives. -/
  recvLe : st.nRecv ≤ H.cnt (s - 1)
  seenPassed : ∀ i j, seen i j → Passed H s st.nRecv i j
  /-- The stored keys are those of the messages passed and not seen. -/
  skippedMem : ∀ k, k ∈ st.skipped ↔
    ∃ i j, i % 2 ≠ s % 2 ∧ Passed H s st.nRecv i j ∧ ¬ seen i j ∧ k = H.stored P sk i j
  skippedNodup : st.skipped.Nodup

/-- `seen` and one more message. -/
def See (seen : Nat → Nat → Prop) (i j : Nat) : Nat → Nat → Prop :=
  fun i' j' => seen i' j' ∨ (i' = i ∧ j' = j)

/-! ## 3. A change of the history that the party cannot tell -/

theorem Passed.congr {H H' : History Key} {s n : Nat}
    (hc : ∀ i, i + 1 < s → H'.cnt i = H.cnt i) (i j : Nat) :
    Passed H' s n i j ↔ Passed H s n i j := by
  unfold Passed
  constructor
  · intro hx
    rcases hx with ⟨h1, h2⟩ | h
    · exact .inl ⟨h1, hc i h1 ▸ h2⟩
    · exact .inr h
  · intro hx
    rcases hx with ⟨h1, h2⟩ | h
    · exact .inl ⟨h1, (hc i h1).symm ▸ h2⟩
    · exact .inr h

/-- **A party sees of the history** its key pairs up to its own epoch, the counts of its own chains
    and of the finished ones, and that the chain it receives is long enough. -/
theorem PartyAt.congr {P : Primitives Key} {sk : Key} {H H' : History Key} {s : Nat}
    {seen : Nat → Nat → Prop} {st : DrState Key} (h : PartyAt P sk H s seen st)
    (hs : ∀ k, k ≤ s → H'.sec k = H.sec k) (hc : ∀ i, i + 1 < s → H'.cnt i = H.cnt i)
    (h0 : H'.cnt 0 = H.cnt 0) (hcs : H'.cnt s = H.cnt s)
    (hle : H.cnt (s - 1) ≤ H'.cnt (s - 1)) : PartyAt P sk H' s seen st where
  dhSend := by rw [h.dhSend, hs s (Nat.le_refl _)]
  dhSendPub := by rw [h.dhSendPub, History.pub_congr (hs s (Nat.le_refl _))]
  rootKey := by rw [h.rootKey, History.root_congr hs]
  nSend := by rw [h.nSend, hcs]
  pn := by
    rw [h.pn]
    rcases Nat.lt_or_ge s 2 with h2 | h2
    · have e : s - 2 = 0 := by omega
      rw [e, h0]
    · rw [hc (s - 2) (by omega)]
  ckSend := by rw [h.ckSend, History.chain_congr hs, hcs]
  dhRecv := by rw [h.dhRecv, History.pub_congr (hs (s - 1) (by omega))]
  ckRecv := by rw [h.ckRecv, History.chain_congr fun k hk => hs k (by omega)]
  recvLe := Nat.le_trans h.recvLe hle
  seenPassed i j hj := (Passed.congr hc i j).mpr (h.seenPassed i j hj)
  skippedMem k := by
    rw [h.skippedMem k]
    refine exists_congr fun i => exists_congr fun j => and_congr_right fun _ => ?_
    rw [Passed.congr hc i j]
    refine and_congr_right fun hp => and_congr_right fun _ => ?_
    have hi : i ≤ s := by unfold Passed at hp; omega
    rw [History.stored_congr j fun k hk => hs k (Nat.le_trans hk hi)]
  skippedNodup := h.skippedNodup

/-! ## 4. The stored keys -/

section

variable {P : Primitives Key} {sk : Key} {H : History Key} {s : Nat} {seen : Nat → Nat → Prop}
  {st : DrState Key}

theorem mem_skippedKeys {i n c : Nat} {k : SkippedKey Key} :
    k ∈ skippedKeys P (H.pub P i) (chainKey P (H.chain P sk i) n) n c ↔
      ∃ j, n ≤ j ∧ j < n + c ∧ k = H.stored P sk i j := by
  simp only [skippedKeys, List.mem_map, List.mem_range, messageKey_chainKey]
  constructor
  · intro h
    obtain ⟨d, hd, rfl⟩ := h
    exact ⟨n + d, by omega, by omega, rfl⟩
  · intro h
    obtain ⟨j, h1, h2, rfl⟩ := h
    refine ⟨j - n, by omega, ?_⟩
    rw [Nat.add_sub_cancel' h1]
    rfl

theorem nodup_skippedKeys (d ck : Key) (n c : Nat) : (skippedKeys P d ck n c).Nodup := by
  refine List.Nodup.map_on ?_ List.nodup_range
  intro a _ b _ hab
  have hn : n + a = n + b := congrArg (·.n) hab
  omega

theorem stored_inj (hd : H.Distinct P s) {i j i' j' : Nat} (hi : i ≤ s) (hi' : i' ≤ s)
    (e : H.stored P sk i j = H.stored P sk i' j') : i = i' ∧ j = j' :=
  ⟨hd i i' hi hi' (congrArg (·.dhPub) e), congrArg (·.n) e⟩

theorem Passed.le {n i j : Nat} (h : Passed H s n i j) : i + 1 ≤ s := by
  unfold Passed at h
  omega

/-! ## 5. What the parts of `decrypt` do to a party -/

/-- The keys that a party has stored, with those it passes over on the way to `til`, are the keys it
    has then passed and not seen. -/
theorem PartyAt.passed_til (h : PartyAt P sk H s seen st) (hs : 1 < s) {til : Nat}
    (hlo : st.nRecv ≤ til) (k : SkippedKey Key) :
    (k ∈ st.skipped ∨ ∃ j, st.nRecv ≤ j ∧ j < til ∧ k = H.stored P sk (s - 1) j) ↔
      ∃ i j, i % 2 ≠ s % 2 ∧ Passed H s til i j ∧ ¬ seen i j ∧ k = H.stored P sk i j := by
  rw [h.skippedMem]
  constructor
  · intro hx
    rcases hx with ⟨i, j, hp, hpass, hns, rfl⟩ | ⟨j, h1, h2, rfl⟩
    · exact ⟨i, j, hp, hpass.imp id fun hp => ⟨hp.1, by omega⟩, hns, rfl⟩
    · refine ⟨s - 1, j, by omega, .inr ⟨by omega, h2⟩, fun hse => ?_, rfl⟩
      have hpassed := h.seenPassed _ _ hse
      unfold Passed at hpassed
      omega
  · intro hx
    obtain ⟨i, j, hp, hpass | ⟨he, hlt⟩, hns, rfl⟩ := hx
    · exact .inl ⟨i, j, hp, .inl hpass, hns, rfl⟩
    · rcases Nat.lt_or_ge j st.nRecv with hj | hj
      · exact .inl ⟨i, j, hp, .inr ⟨he, hj⟩, hns, rfl⟩
      · obtain rfl : i = s - 1 := by omega
        exact .inr ⟨j, hj, hlt, rfl⟩

/-- Skipping within the chain stores the keys passed over and changes nothing else. -/
theorem PartyAt.skipTo [Zero Key] (h : PartyAt P sk H s seen st) (hd : H.Distinct P (s - 1))
    (h0 : H.cnt 0 = 0) {til : Nat} (hlo : st.nRecv ≤ til) (hhi : til ≤ H.cnt (s - 1)) :
    PartyAt P sk H s seen (skipTo P st til) ∧ (skipTo P st til).nRecv = til := by
  rcases Nat.lt_or_ge 1 s with hs | hs
  · have hck := h.ckRecv
    have hdh := h.dhRecv
    rw [if_neg (by omega)] at hck hdh
    have hn : st.nRecv + (til - st.nRecv) = til := by omega
    have hadd : ∀ k, k ∈ skippedKeys P (H.pub P (s - 1))
        (chainKey P (H.chain P sk (s - 1)) st.nRecv) st.nRecv (til - st.nRecv) ↔
        ∃ j, st.nRecv ≤ j ∧ j < til ∧ k = H.stored P sk (s - 1) j := by
      intro k
      rw [mem_skippedKeys, hn]
    have hst : DoubleRatchet.skipTo P st til =
        { st with
          ckRecv := some (chainKey P (H.chain P sk (s - 1)) til)
          nRecv := til
          skipped := st.skipped ++ skippedKeys P (H.pub P (s - 1))
            (chainKey P (H.chain P sk (s - 1)) st.nRecv) st.nRecv (til - st.nRecv) } := by
      simp [DoubleRatchet.skipTo, hck, hdh, chainKey_chainKey, hn]
    rw [hst]
    refine ⟨?_, rfl⟩
    exact
    { dhSend := h.dhSend, dhSendPub := h.dhSendPub, rootKey := h.rootKey, nSend := h.nSend
      pn := h.pn, ckSend := h.ckSend, dhRecv := h.dhRecv
      ckRecv := by rw [if_neg (by omega)]
      recvLe := hhi
      seenPassed := fun i j hj =>
        (h.seenPassed i j hj).imp id fun hp => ⟨hp.1, Nat.lt_of_lt_of_le hp.2 hlo⟩
      skippedMem := by
        intro k
        rw [List.mem_append, hadd]
        exact h.passed_til hs hlo k
      skippedNodup := by
        refine List.Nodup.append h.skippedNodup (nodup_skippedKeys ..) ?_
        intro k hk hk'
        obtain ⟨i, j, -, hp, -, rfl⟩ := (h.skippedMem k).mp hk
        obtain ⟨j', hlo', -, e⟩ := (hadd _).mp hk'
        obtain ⟨hi, hj⟩ := stored_inj hd (by have := hp.le; omega) (Nat.le_refl _) e
        unfold Passed at hp
        omega }
  · -- no chain yet: there is nothing to skip
    have hck := h.ckRecv
    rw [if_pos hs] at hck
    have e : s - 1 = 0 := by omega
    have hr := h.recvLe
    rw [e, h0] at hr hhi
    have hst : DoubleRatchet.skipTo P st til = st := by simp [DoubleRatchet.skipTo, hck]
    rw [hst]
    exact ⟨h, by omega⟩

/-- The key of the next message of the chain is used up. -/
def receive (P : Primitives Key) (st : DrState Key) : DrState Key :=
  { st with ckRecv := st.ckRecv.map fun ck => (kdfCk P ck).1, nRecv := st.nRecv + 1 }

theorem afterCurrent_eq [Zero Key] {ck : Key} (hck : st.ckRecv = some ck) (n : Nat) :
    afterCurrent P st ck n = receive P (DoubleRatchet.skipTo P st n) := by
  simp [afterCurrent, receive, DoubleRatchet.skipTo, hck, chainKey_succ]

theorem PartyAt.receive (h : PartyAt P sk H s seen st) (hs : 2 ≤ s)
    (hlt : st.nRecv < H.cnt (s - 1)) :
    PartyAt P sk H s (See seen (s - 1) st.nRecv) (receive P st) where
  dhSend := h.dhSend
  dhSendPub := h.dhSendPub
  rootKey := h.rootKey
  nSend := h.nSend
  pn := h.pn
  ckSend := h.ckSend
  dhRecv := h.dhRecv
  ckRecv := by
    have hck := h.ckRecv
    rw [if_neg (by omega)] at hck
    simp only [DoubleRatchet.receive, hck, Option.map_some, chainKey_succ]
    rw [if_neg (by omega)]
  recvLe := hlt
  seenPassed := by
    rintro i j (hj | ⟨rfl, rfl⟩)
    · exact (h.seenPassed i j hj).imp id fun hp => ⟨hp.1, Nat.lt_succ_of_lt hp.2⟩
    · exact .inr ⟨by omega, Nat.lt_succ_self _⟩
  skippedMem k := by
    show k ∈ st.skipped ↔ _
    rw [h.skippedMem]
    refine exists_congr fun i => exists_congr fun j => and_congr_right fun _ => ?_
    rw [← and_assoc, ← and_assoc]
    refine and_congr_left fun _ => ?_
    have hse : seen (s - 1) st.nRecv → False := fun hse => by
      have := h.seenPassed _ _ hse
      unfold Passed at this
      omega
    simp only [Passed, See, DoubleRatchet.receive, not_or]
    constructor
    · intro hx
      obtain ⟨hp, hns⟩ := hx
      exact ⟨by omega, hns, by omega⟩
    · intro hx
      obtain ⟨hp, hns, hne⟩ := hx
      exact ⟨by omega, hns⟩
  skippedNodup := h.skippedNodup

/-- What a party has passed that has passed the whole chain it received, it has after its ratchet
    step. -/
theorem Passed.ratchet {H : History Key} {s n i j : Nat} (hx : Passed H s n i j)
    (hn : n = H.cnt (s - 1)) (r : Key) : Passed (H.draw (s + 2) r) (s + 2) 0 i j := by
  unfold Passed at hx ⊢
  rw [hn] at hx
  rcases hx with ⟨h1, h2⟩ | ⟨h1, h2⟩
  · exact .inl ⟨by omega, h2⟩
  · subst h1
    exact .inl ⟨by omega, h2⟩

/-- And it has passed nothing else of the other party's epochs. -/
theorem Passed.of_ratchet {H : History Key} {s n i j : Nat} {r : Key}
    (hx : Passed (H.draw (s + 2) r) (s + 2) 0 i j) (hn : n = H.cnt (s - 1)) (hp : i % 2 ≠ s % 2) :
    Passed H s n i j := by
  unfold Passed at hx ⊢
  rw [hn]
  rcases hx with ⟨h1, h2⟩ | h1
  · rcases Nat.lt_or_ge (i + 1) s with hlt | hge
    · exact .inl ⟨hlt, h2⟩
    · obtain rfl : s = i + 1 := by omega
      exact .inr ⟨rfl, h2⟩
  · omega

/-- **The ratchet step** of a party that has passed the whole chain it received. -/
theorem PartyAt.ratchet (hP : P.Lawful) (h : PartyAt P sk H s seen st)
    (hn : st.nRecv = H.cnt (s - 1)) (hfut : H.cnt (s + 2) = 0) (r : Key) :
    PartyAt P sk (H.draw (s + 2) r) (s + 2) seen (dhRatchet P r st (H.pub P (s + 1))) := by
  have hsec : ∀ {i}, i ≤ s + 1 → ∀ k, k ≤ i → (H.draw (s + 2) r).sec k = H.sec k :=
    fun hi k hk => History.draw_sec_ne r (by omega)
  -- both sides of the agreement on the new epoch
  have hdh : P.diffieHellman st.dhSend (H.pub P (s + 1)) =
      P.diffieHellman (H.sec (s + 1)) (H.pub P s) := by
    rw [h.dhSend]
    exact hP.dh_comm _ _
  have hroot : (H.draw (s + 2) r).root P sk (s + 1) =
      (kdfRk P st.rootKey (P.diffieHellman st.dhSend (H.pub P (s + 1)))).1 := by
    rw [History.root_congr (hsec (Nat.le_refl _)), hdh, h.rootKey]
    rfl
  have hpub : (H.draw (s + 2) r).pub P (s + 1) = H.pub P (s + 1) :=
    History.pub_congr (hsec (Nat.le_refl _) _ (Nat.le_refl _))
  have hpass : ∀ i j, i % 2 ≠ s % 2 →
      (Passed (H.draw (s + 2) r) (s + 2) 0 i j ↔ Passed H s st.nRecv i j) :=
    fun i j hp => ⟨fun hx => hx.of_ratchet hn hp, fun hx => hx.ratchet hn r⟩
  exact
  { dhSend := (History.draw_sec_self ..).symm
    dhSendPub := congrArg P.publicKey (History.draw_sec_self ..).symm
    rootKey := by
      rw [History.root_succ, hroot, hpub, History.draw_sec_self]
      rfl
    nSend := hfut.symm
    pn := h.nSend
    ckSend := by
      rw [if_neg (by omega), History.chain_succ, hroot, hpub, History.draw_sec_self,
        History.draw_cnt, hfut]
      rfl
    dhRecv := by
      rw [if_neg (by omega)]
      exact congrArg some hpub.symm
    ckRecv := by
      rw [if_neg (by omega)]
      show some _ = some ((H.draw (s + 2) r).chain P sk (s + 1))
      rw [History.chain_congr (hsec (Nat.le_refl _)), hdh, h.rootKey]
      rfl
    recvLe := Nat.zero_le _
    seenPassed := fun i j hj => (h.seenPassed i j hj).ratchet hn r
    skippedMem := by
      intro k
      show k ∈ st.skipped ↔ _
      rw [h.skippedMem]
      refine exists_congr fun i => exists_congr fun j => ?_
      rw [Nat.add_mod_right]
      refine and_congr_right fun hp => ?_
      show _ ↔ Passed (H.draw (s + 2) r) (s + 2) 0 i j ∧ _
      rw [hpass i j hp]
      refine and_congr_right fun hpp => and_congr_right fun _ => ?_
      rw [History.stored_congr j (hsec (by have := hpp.le; omega))]
    skippedNodup := h.skippedNodup }

/-- **Sending**: the message is the next of the party's own epoch. -/
theorem PartyAt.encrypted (h : PartyAt P sk H s seen st) (hs : s ≠ 0) (nonce : Nonce) {m : Bytes}
    (hm : P.accepts m = true) :
    (encrypt P nonce st m).1 = .ok (H.envelope P sk s (H.cnt s) nonce m) ∧
    PartyAt P sk (H.count s) s seen (encrypt P nonce st m).2 := by
  have hck := h.ckSend
  rw [if_neg hs] at hck
  have hcnt : ∀ i, i ≠ s → (H.count s).cnt i = H.cnt i := fun i hi => History.count_cnt_ne hi
  rw [encrypt_ok nonce hck hm]
  refine ⟨?_, ?_⟩
  · rw [h.dhSendPub, h.pn, h.nSend]
    rfl
  · show PartyAt P sk (H.count s) s seen
      { st with
        ckSend := some (kdfCk P (chainKey P (H.chain P sk s) (H.cnt s))).1
        nSend := st.nSend + 1 }
    exact
    { dhSend := h.dhSend, dhSendPub := h.dhSendPub
      rootKey := by rw [History.count_root, ← h.rootKey]
      nSend := by
        show st.nSend + 1 = _
        rw [h.nSend, History.count_cnt_self]
      pn := by rw [hcnt _ (by omega), ← h.pn]
      ckSend := by
        rw [if_neg hs, History.count_cnt_self, chainKey_succ, History.count_chain]
      dhRecv := h.dhRecv
      ckRecv := by rw [History.count_chain]; exact h.ckRecv
      recvLe := by rw [hcnt _ (by omega)]; exact h.recvLe
      seenPassed := fun i j hj =>
        (Passed.congr (fun i hi => hcnt i (by omega)) i j).mpr (h.seenPassed i j hj)
      skippedMem := by
        intro k
        show k ∈ st.skipped ↔ _
        rw [h.skippedMem]
        refine exists_congr fun i => exists_congr fun j => and_congr_right fun _ => ?_
        rw [Passed.congr (fun i hi => hcnt i (by omega)) i j, History.count_stored]
      skippedNodup := h.skippedNodup }

/-- A party of epoch 0 has no chain to send on. -/
theorem PartyAt.encrypt_zero (h : PartyAt P sk H 0 seen st) (nonce : Nonce) (m : Bytes) :
    encrypt P nonce st m = (.error "No send chain key", st) :=
  encrypt_no_chain P nonce m h.ckSend

variable [DecidableEq Key]

theorem isFor_stored {n i j i' j' : Nat} (hd : H.Distinct P n) (hi : i ≤ n) (hi' : i' ≤ n) :
    (H.stored P sk i' j').isFor (H.header P i j) = true ↔ i' = i ∧ j' = j := by
  rw [SkippedKey.isFor, Bool.and_eq_true]
  refine and_congr ⟨fun e => ?_, fun e => ?_⟩ ⟨of_decide_eq_true, decide_eq_true⟩
  · exact hd i' i hi' hi (of_decide_eq_true e)
  · subst e
    exact decide_eq_true rfl

/-- No key is stored for a message that is seen or not passed yet. -/
theorem PartyAt.find_none (h : PartyAt P sk H s seen st) {n i j : Nat} (hd : H.Distinct P n)
    (hs : s ≤ n) (hi : i ≤ n) (hno : Passed H s st.nRecv i j → seen i j) :
    st.skipped.find? (SkippedKey.isFor (H.header P i j)) = none := by
  rw [List.find?_eq_none]
  intro k hk hf
  obtain ⟨i', j', -, hp, hns, rfl⟩ := (h.skippedMem k).mp hk
  obtain ⟨rfl, rfl⟩ := (isFor_stored hd hi (by have := hp.le; omega)).mp hf
  exact hns (hno hp)

omit [DecidableEq Key] in
/-- What `eraseP` leaves when one element only meets the condition. -/
theorem mem_eraseP_of_unique {α : Type} {l : List α} {p : α → Bool} {a : α} (hn : l.Nodup)
    (ha : a ∈ l) (hp : p a = true) (hu : ∀ b ∈ l, p b = true → b = a) (x : α) :
    x ∈ l.eraseP p ↔ x ∈ l ∧ x ≠ a := by
  obtain ⟨b, l₁, l₂, -, hb, rfl, he⟩ := List.exists_of_eraseP ha hp
  obtain rfl : b = a := hu b (by simp) hb
  rw [he]
  have h1 : b ∉ l₁ ∧ b ∉ l₂ := by
    rw [List.nodup_middle, List.nodup_cons, List.mem_append] at hn
    exact not_or.mp hn.1
  simp only [List.mem_append, List.mem_cons]
  constructor
  · intro h
    rcases h with hx | hx
    · exact ⟨.inl hx, fun e => h1.1 (e ▸ hx)⟩
    · exact ⟨.inr (.inr hx), fun e => h1.2 (e ▸ hx)⟩
  · intro h
    obtain ⟨hx | rfl | hx, hne⟩ := h
    · exact .inl hx
    · exact absurd rfl hne
    · exact .inr hx

/-- **A stored key is found, and taking it marks its message seen.** -/
theorem PartyAt.takeStored (h : PartyAt P sk H s seen st) {n i j : Nat} (hd : H.Distinct P n)
    (hs : s ≤ n) (hpar : i % 2 ≠ s % 2) (hp : Passed H s st.nRecv i j) (hns : ¬ seen i j) :
    st.skipped.find? (SkippedKey.isFor (H.header P i j)) = some (H.stored P sk i j) ∧
    PartyAt P sk H s (See seen i j)
      { st with skipped := st.skipped.eraseP (SkippedKey.isFor (H.header P i j)) } := by
  have hi : i ≤ n := by have := hp.le; omega
  have hmem : H.stored P sk i j ∈ st.skipped := (h.skippedMem _).mpr ⟨i, j, hpar, hp, hns, rfl⟩
  have hfor : (H.stored P sk i j).isFor (H.header P i j) = true :=
    (isFor_stored hd hi hi).mpr ⟨rfl, rfl⟩
  have huniq : ∀ k ∈ st.skipped, k.isFor (H.header P i j) = true → k = H.stored P sk i j := by
    intro k hk hf
    obtain ⟨i', j', -, hp', -, rfl⟩ := (h.skippedMem k).mp hk
    obtain ⟨rfl, rfl⟩ := (isFor_stored hd hi (by have := hp'.le; omega)).mp hf
    rfl
  constructor
  · obtain ⟨k, hk⟩ := Option.isSome_iff_exists.mp
      (List.find?_isSome.mpr ⟨H.stored P sk i j, hmem, hfor⟩)
    rw [hk, huniq k (List.mem_of_find?_eq_some hk) (List.find?_some hk)]
  · have herase := mem_eraseP_of_unique h.skippedNodup hmem hfor huniq
    exact
    { dhSend := h.dhSend, dhSendPub := h.dhSendPub, rootKey := h.rootKey, nSend := h.nSend
      pn := h.pn, ckSend := h.ckSend, dhRecv := h.dhRecv, ckRecv := h.ckRecv, recvLe := h.recvLe
      seenPassed := by
        rintro i' j' (hj | ⟨rfl, rfl⟩)
        · exact h.seenPassed i' j' hj
        · exact hp
      skippedMem := by
        intro k
        rw [herase k, h.skippedMem k]
        constructor
        · intro hx
          obtain ⟨⟨i', j', hpar', hp', hns', rfl⟩, hne⟩ := hx
          refine ⟨i', j', hpar', hp', ?_, rfl⟩
          intro hx
          rcases hx with hse | ⟨rfl, rfl⟩
          · exact hns' hse
          · exact hne rfl
        · intro hx
          obtain ⟨i', j', hpar', hp', hns', rfl⟩ := hx
          refine ⟨⟨i', j', hpar', hp', fun hse => hns' (.inl hse), rfl⟩, fun e => ?_⟩
          exact hns' (.inr (stored_inj hd (by have := hp'.le; omega) hi e))
      skippedNodup := h.skippedNodup.sublist List.eraseP_sublist }

/-! ## 6. Delivery -/

/-- No more than `MAX_SKIP` keys of one chain have to be skipped to reach the message. -/
def SkipsWithin (st : DrState Key) (h : DrHeader Key) : Prop :=
  (st.skipped.find? (SkippedKey.isFor h)).isSome = true ∨
  if needDhRatchet st h then h.pn ≤ st.nRecv + MAX_SKIP ∧ h.n ≤ MAX_SKIP
  else h.n ≤ st.nRecv + MAX_SKIP

instance SkipsWithin.decidable (st : DrState Key) (h : DrHeader Key) :
    Decidable (SkipsWithin st h) :=
  inferInstanceAs (Decidable (_ ∨ if needDhRatchet st h then _ ∧ _ else _))

/-- What a delivery does to the history: nothing, or it draws the key pair of the receiver's next
    epoch. -/
inductive Moves (H : History Key) (s i : Nat) (r : Key) : History Key → Nat → Prop where
  | stay (h : i ≤ s) : Moves H s i r H s
  | turn (h : i = s + 1) : Moves H s i r (H.draw (s + 2) r) (s + 2)

/-- The chain of the header is the one being received. -/
theorem PartyAt.need_false (h : PartyAt P sk H s seen st) {j : Nat} (hs : s ≠ 0) :
    needDhRatchet st (H.header P (s - 1) j) = false := by
  have hdh := h.dhRecv
  rw [if_neg hs] at hdh
  simp [needDhRatchet, hdh, History.header]

/-- The header names another key than the one being received from. -/
theorem PartyAt.need_true (h : PartyAt P sk H s seen st) {n i j : Nat} (hd : H.Distinct P n)
    (hs : s ≤ n) (hi : i ≤ n) (hne : s ≠ 0 → i ≠ s - 1) :
    needDhRatchet st (H.header P i j) = true := by
  have hdh := h.dhRecv
  unfold needDhRatchet
  split at hdh
  · rw [hdh]
  · next h0 =>
    rw [hdh]
    refine decide_eq_true fun e => hne h0 ?_
    exact (hd (s - 1) i (by omega) hi e).symm

omit [DecidableEq Key] in
theorem decryptWithKey_envelope (hP : P.Lawful) (i j : Nat) (nonce : Nonce) (m : Bytes) :
    decryptWithKey P (H.msgKey P sk i j) (H.envelope P sk i j nonce m) = .ok m := by
  simp [decryptWithKey, History.envelope, hP.open_seal]

variable [Zero Key]

omit [DecidableEq Key] [Zero Key] in
/-- The chain a ratchet step derives is the chain of the next epoch. -/
theorem PartyAt.ratchetChain (hP : P.Lawful) (h : PartyAt P sk H s seen st) :
    ratchetChain P st (H.pub P (s + 1)) = H.chain P sk (s + 1) := by
  unfold DoubleRatchet.ratchetChain
  rw [History.chain_succ, h.rootKey, h.dhSend]
  exact congrArg (fun d => (kdfRk P _ d).2) (hP.dh_comm _ _)

/-- **The first message that arrives of a new epoch** is decrypted, and the receiver turns. -/
theorem PartyAt.deliver_turn (hP : P.Lawful) (h : PartyAt P sk H s seen st)
    (hd : H.Distinct P (s + 1)) (h0 : H.cnt 0 = 0) (hfut : H.cnt (s + 2) = 0) {j : Nat}
    (hj : j < H.cnt (s + 1))
    (hf : st.skipped.find? (SkippedKey.isFor (H.header P (s + 1) j)) = none)
    (hw : SkipsWithin st (H.header P (s + 1) j)) (r : Key) (nonce : Nonce) (m : Bytes) :
    (decrypt P r st (H.envelope P sk (s + 1) j nonce m)).1 = .ok m ∧
    PartyAt P sk (H.draw (s + 2) r) (s + 2) (See seen (s + 1) j)
      (decrypt P r st (H.envelope P sk (s + 1) j nonce m)).2 := by
  have hw' := hw.resolve_left (by simp [hf])
  have hneed := h.need_true hd (Nat.le_succ s) (Nat.le_refl _) (j := j) (by omega)
  rw [if_pos hneed] at hw'
  have hpn : (H.header P (s + 1) j).pn = H.cnt (s - 1) := by
    show H.cnt (s + 1 - 2) = _
    congr 1
  have hds : H.Distinct P (s - 1) := fun a b ha hb => hd a b (by omega) (by omega)
  rw [decrypt_ratchet (e := H.envelope P sk (s + 1) j nonce m) hf hneed hw'.1 hw'.2]
  have hchain := h.ratchetChain hP
  constructor
  · show decryptWithKey P (messageKey P (DoubleRatchet.ratchetChain P st (H.pub P (s + 1))) j) _ = _
    rw [hchain]
    exact decryptWithKey_envelope hP (s + 1) j nonce m
  · obtain ⟨hsk, hskn⟩ := h.skipTo hds h0 h.recvLe (Nat.le_refl _)
    have hra := hsk.ratchet hP hskn hfut r
    have hst : afterRatchet P r st (H.header P (s + 1) j) =
        dhRatchet P r (DoubleRatchet.skipTo P st (H.cnt (s - 1))) (H.pub P (s + 1)) := by
      rw [afterRatchet, hpn]
      rfl
    rw [← hst] at hra
    have hdr : (H.draw (s + 2) r).Distinct P (s + 1) := hd.draw (by omega)
    obtain ⟨hnew, hnewn⟩ := hra.skipTo hdr h0 (Nat.zero_le j) (Nat.le_of_lt hj)
    have hre := hnew.receive (by omega) (by rw [hnewn]; exact hj)
    rw [hnewn] at hre
    rw [afterCurrent_eq (afterRatchet_ckRecv _)]
    exact hre

/-- **A message ahead in the chain being received** is decrypted. -/
theorem PartyAt.deliver_ahead (hP : P.Lawful) (h : PartyAt P sk H s seen st)
    (hd : H.Distinct P (s - 1)) (h0 : H.cnt 0 = 0) (hs : 1 < s) {j : Nat} (hlo : st.nRecv ≤ j)
    (hj : j < H.cnt (s - 1))
    (hf : st.skipped.find? (SkippedKey.isFor (H.header P (s - 1) j)) = none)
    (hw : SkipsWithin st (H.header P (s - 1) j)) (r : Key) (nonce : Nonce) (m : Bytes) :
    (decrypt P r st (H.envelope P sk (s - 1) j nonce m)).1 = .ok m ∧
    PartyAt P sk H s (See seen (s - 1) j)
    (decrypt P r st (H.envelope P sk (s - 1) j nonce m)).2 := by
  have hw' := hw.resolve_left (by simp [hf])
  have hneed := h.need_false (j := j) (by omega : s ≠ 0)
  rw [hneed] at hw'
  have hck := h.ckRecv
  rw [if_neg (by omega)] at hck
  rw [decrypt_current (e := H.envelope P sk (s - 1) j nonce m) hf hneed hw' hck]
  constructor
  · have hk : messageKey P (chainKey P (H.chain P sk (s - 1)) st.nRecv) (j - st.nRecv) =
        H.msgKey P sk (s - 1) j := by
      rw [messageKey_chainKey, Nat.add_sub_cancel' hlo]
      rfl
    show decryptWithKey P (messageKey P _ (j - st.nRecv)) _ = _
    rw [hk]
    exact decryptWithKey_envelope hP (s - 1) j nonce m
  · obtain ⟨hsk, hskn⟩ := h.skipTo hd h0 hlo (Nat.le_of_lt hj)
    have hre := hsk.receive (by omega) (by omega)
    rw [hskn] at hre
    rw [afterCurrent_eq hck]
    exact hre

/-- **A genuine message that was not seen before is decrypted**, whichever chain it belongs to, and
    the receiver is again a party the history describes. -/
theorem PartyAt.deliver (hP : P.Lawful) (h : PartyAt P sk H s seen st) {n : Nat}
    (hd : H.Distinct P n) (hsn : s ≤ n) (h0 : H.cnt 0 = 0) (hfut : H.cnt (s + 2) = 0) {i j : Nat}
    (hpar : i % 2 ≠ s % 2) (hin : i ≤ n) (hi : i ≤ s + 1) (hj : j < H.cnt i) (hns : ¬ seen i j)
    (hw : SkipsWithin st (H.header P i j)) (r : Key) (nonce : Nonce) (m : Bytes) :
    (decrypt P r st (H.envelope P sk i j nonce m)).1 = .ok m ∧
    ∃ H' s', Moves H s i r H' s' ∧
      PartyAt P sk H' s' (See seen i j) (decrypt P r st (H.envelope P sk i j nonce m)).2 := by
  have hi0 : i ≠ 0 := by
    rintro rfl
    omega
  by_cases hp : Passed H s st.nRecv i j
  · -- a late message: its key is stored
    obtain ⟨hf, hst⟩ := h.takeStored hd hsn hpar hp hns
    rw [decrypt_skipped (e := H.envelope P sk i j nonce m) hf]
    exact ⟨decryptWithKey_envelope hP i j nonce m, H, s, .stay (by have := hp.le; omega), hst⟩
  · have hf := h.find_none hd hsn hin fun hpp => absurd hpp hp
    have hcase : i = s + 1 ∨ (i + 1 = s ∧ st.nRecv ≤ j) := by
      unfold Passed at hp
      by_cases h1 : i = s + 1
      · exact .inl h1
      · have : ¬ (i + 1 < s ∧ j < H.cnt i) := fun hc => hp (.inl hc)
        omega
    rcases hcase with rfl | ⟨hs, hlo⟩
    · have hd1 : H.Distinct P (s + 1) := fun a b ha hb => hd a b (by omega) (by omega)
      obtain ⟨hres, hst⟩ := h.deliver_turn hP hd1 h0 hfut hj hf hw r nonce m
      exact ⟨hres, H.draw (s + 2) r, s + 2, .turn rfl, hst⟩
    · obtain rfl : i = s - 1 := by omega
      have hds : H.Distinct P (s - 1) := fun a b ha hb => hd a b (by omega) (by omega)
      obtain ⟨hres, hst⟩ := h.deliver_ahead hP hds h0 (by omega) hlo hj hf hw r nonce m
      exact ⟨hres, H, s, .stay (by omega), hst⟩

end

end AlterChat.DoubleRatchet
