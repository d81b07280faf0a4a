import AlterChat.Core.RatchetReplay
import AlterChat.Core.RatchetStore

/-!
# Every message key is used once

Two parties of one shared secret, and `decrypt` is given anything. A ratchet step that an invented
public key sets off is a ratchet step all the same, so the two parties need not stay in step; what
stays is the depth of their keys. Every root key is some number of root steps away from the shared
secret, a chain is as deep as the root key it came from, and no key has two depths. A party sends on
chains of one parity of depth and receives on chains of the other.

* `RootAt`, `ChainAt`, `MessageAt` -- the depth of a key, and that it is one (`MessageAt.unique`);
* `Line` -- what every call keeps of a party's state, at its depth `d`;
* `Spent` -- a message key that the party tries no more; `Onward` keeps it spent;
* `Line.decrypt` -- a key `decrypt` opens with was not spent, and is spent from then on;
* `keys_used_once` -- no two `encrypt` calls share a key, and no envelope is accepted twice.
-/

namespace AlterChat.DoubleRatchet

open Lib Primitives

variable {Key : Type}

/-! ## 1. The depth of a key -/

/-- `rk` comes from the shared secret by `n` root steps. -/
inductive RootAt (P : Primitives Key) (sk : Key) : Nat → Key → Prop where
  | shared : RootAt P sk 0 sk
  | step (n : Nat) (rk x : Key) (h : RootAt P sk n rk) : RootAt P sk (n + 1) (kdfRk P rk x).1

/-- `ck` is a key of a chain that a root key of depth `n` started. -/
def ChainAt (P : Primitives Key) (sk : Key) (n : Nat) (ck : Key) : Prop :=
  ∃ rk x i, RootAt P sk n rk ∧ ck = chainKey P (kdfRk P rk x).2 i

/-- `mk` is the message key of such a chain key. -/
def MessageAt (P : Primitives Key) (sk : Key) (n : Nat) (mk : Key) : Prop :=
  ∃ ck, ChainAt P sk n ck ∧ mk = (kdfCk P ck).2

section

variable {P : Primitives Key} {sk : Key} {n n' : Nat} {rk ck mk : Key}

theorem RootAt.chain (h : RootAt P sk n rk) (x : Key) : ChainAt P sk n (kdfRk P rk x).2 :=
  ⟨rk, x, 0, h, rfl⟩

theorem ChainAt.chainKey (h : ChainAt P sk n ck) (i : Nat) : ChainAt P sk n (chainKey P ck i) := by
  obtain ⟨rk, x, j, hr, rfl⟩ := h
  exact ⟨rk, x, j + i, hr, chainKey_chainKey ..⟩

theorem ChainAt.message (h : ChainAt P sk n ck) (i : Nat) :
    MessageAt P sk n (messageKey P ck i) :=
  ⟨_, h.chainKey i, rfl⟩

theorem RootAt.rank_le {rank : Key → Nat} (hr : ∀ s i l, rank s < rank (P.hkdf s i l))
    (h : RootAt P sk n rk) : rank sk ≤ rank rk := by
  induction h with
  | shared => exact Nat.le_refl _
  | step n rk x _ ih => exact Nat.le_trans ih (Nat.le_of_lt (hr _ _ _))

/-- The shared secret is not the result of a root step on a root key. -/
theorem RootAt.ne_shared (hP : P.Ideal) (h : RootAt P sk n rk) (x : Key) :
    (kdfRk P rk x).1 ≠ sk := by
  obtain ⟨rank, hr⟩ := hP.hkdf_acyclic
  have hle := h.rank_le hr
  have hlt := hr rk (some x) "root"
  intro e
  change rank rk < rank (kdfRk P rk x).1 at hlt
  rw [e] at hlt
  omega

/-- **A root key has one depth.** -/
theorem RootAt.unique (hP : P.Ideal) (h : RootAt P sk n rk) {rk' : Key} (h' : RootAt P sk n' rk')
    (e : rk = rk') : n = n' := by
  induction h generalizing n' rk' with
  | shared =>
    cases h' with
    | shared => rfl
    | step m rk' x hm => exact absurd e.symm (hm.ne_shared hP x)
  | step n rk x hn ih =>
    cases h' with
    | shared => exact absurd e (hn.ne_shared hP x)
    | step m rk' x' hm => rw [ih hm (hP.hkdf_inj _ _ _ _ _ _ e).1]

/-- A chain key says what chain it is of and where in it. -/
theorem chainKey_start_inj (hP : P.Ideal) {rk' x x' : Key} {i i' : Nat}
    (e : chainKey P (kdfRk P rk x).2 i = chainKey P (kdfRk P rk' x').2 i') :
    rk = rk' ∧ x = x' ∧ i = i' := by
  induction i generalizing i' with
  | zero =>
    cases i' with
    | zero =>
      obtain ⟨hrk, hx, -⟩ := hP.hkdf_inj _ _ _ _ _ _ e
      exact ⟨hrk, Option.some.inj hx, rfl⟩
    | succ i' =>
      -- the start of a chain has input key material, its later keys have none
      rw [chainKey_succ] at e
      exact absurd (hP.hkdf_inj _ _ _ _ _ _ e).2.1 nofun
  | succ i ih =>
    rw [chainKey_succ] at e
    cases i' with
    | zero => exact absurd (hP.hkdf_inj _ _ _ _ _ _ e).2.1 nofun
    | succ i' =>
      rw [chainKey_succ] at e
      obtain ⟨hrk, hx, hi⟩ := ih (hP.hkdf_inj _ _ _ _ _ _ e).1
      exact ⟨hrk, hx, congrArg (· + 1) hi⟩

theorem ChainAt.unique (hP : P.Ideal) (h : ChainAt P sk n ck) (h' : ChainAt P sk n' ck) :
    n = n' := by
  obtain ⟨rk, x, i, hr, rfl⟩ := h
  obtain ⟨rk', x', i', hr', e⟩ := h'
  exact hr.unique hP hr' (chainKey_start_inj hP e).1

/-- **A message key has one depth.** -/
theorem MessageAt.unique (hP : P.Ideal) (h : MessageAt P sk n mk) (h' : MessageAt P sk n' mk) :
    n = n' := by
  obtain ⟨ck, hc, rfl⟩ := h
  obtain ⟨ck', hc', e⟩ := h'
  obtain rfl : ck = ck' := (hP.hkdf_inj _ _ _ _ _ _ e).1
  exact hc.unique hP hc'

/-! ## 2. Behind a chain -/

/-- `mk` is the key of a message still to come on the chain. -/
def Ahead (P : Primitives Key) (chain : Option Key) (mk : Key) : Prop :=
  ∃ ck i, chain = some ck ∧ mk = messageKey P ck i

/-- `mk` is a message key of a depth below `d` of this parity, and not one still to come. -/
structure Behind (P : Primitives Key) (sk : Key) (d par : Nat) (chain : Option Key) (mk : Key) :
    Prop where
  below : ∃ n, n < d ∧ n % 2 = par ∧ MessageAt P sk n mk
  notAhead : ¬ Ahead P chain mk

variable {d par : Nat}

theorem Ahead.earlier {j : Nat} (h : Ahead P (some (chainKey P ck j)) mk) :
    Ahead P (some ck) mk := by
  obtain ⟨ck', i, hck, rfl⟩ := h
  cases hck
  exact ⟨ck, j + i, rfl, messageKey_chainKey ..⟩

theorem not_ahead_passed (hP : P.Ideal) {i j : Nat} (hij : i < j) :
    ¬ Ahead P (some (chainKey P ck j)) (messageKey P ck i) := by
  intro h
  obtain ⟨ck', i', hck, e⟩ := h
  cases hck
  rw [messageKey_chainKey] at e
  have := messageKey_number_inj hP e
  omega

theorem Behind.later (h : Behind P sk d par (some ck) mk) (j : Nat) :
    Behind P sk d par (some (chainKey P ck j)) mk where
  below := h.below
  notAhead ha := h.notAhead ha.earlier

theorem ChainAt.behind (hP : P.Ideal) (h : ChainAt P sk n ck) (hn : n < d) (hpar : n % 2 = par)
    {i j : Nat} (hij : i < j) :
    Behind P sk d par (some (DoubleRatchet.chainKey P ck j)) (messageKey P ck i) where
  below := ⟨n, hn, hpar, h.message i⟩
  notAhead := not_ahead_passed hP hij

/-- A key below `d` is no key of a chain at `d` or deeper. -/
theorem ChainAt.not_ahead (hP : P.Ideal) (h : ChainAt P sk n ck) {n' : Nat} (hn : n' < n)
    (hm : MessageAt P sk n' mk) : ¬ Ahead P (some ck) mk := by
  intro hx
  obtain ⟨ck', i, hck, rfl⟩ := hx
  cases hck
  have := hm.unique hP (h.message i)
  omega

theorem Behind.turn (hP : P.Ideal) {chain : Option Key} {d' : Nat}
    (h : Behind P sk d par chain mk) (hc : ChainAt P sk n ck) (hn : d ≤ n) (hd : d ≤ d') :
    Behind P sk d' par (some ck) mk := by
  obtain ⟨n', hn', hpar, hm⟩ := h.below
  exact
  { below := ⟨n', by omega, hpar, hm⟩
    notAhead := hc.not_ahead hP (by omega) hm }

end

/-! ## 3. What every call keeps -/

/-- The state of a party at depth `d`: it sends and receives on chains above, and the keys it has
    stored are behind the chain it receives. -/
structure Line (P : Primitives Key) (sk : Key) (p : Side) (d : Nat) (s : DrState Key) : Prop where
  parity : d % 2 = p.parity
  root : RootAt P sk d s.rootKey
  send : ∀ ck, s.ckSend = some ck → ∃ n, n < d ∧ n % 2 = p.other.parity ∧ ChainAt P sk n ck
  recv : ∀ ck, s.ckRecv = some ck → ∃ n, n < d ∧ n % 2 = p.parity ∧ ChainAt P sk n ck
  stored : ∀ k ∈ s.skipped, Behind P sk d p.parity s.ckRecv k.mk
  storedNodup : (s.skipped.map (·.mk)).Nodup

/-- A message key the party has done with: it comes neither from the chain nor from the store. -/
structure Spent (P : Primitives Key) (sk : Key) (p : Side) (d : Nat) (s : DrState Key) (mk : Key) :
    Prop where
  behind : Behind P sk d p.parity s.ckRecv mk
  notStored : ∀ k ∈ s.skipped, k.mk ≠ mk

/-- From one state of a party to a later one: what is spent stays spent, and what is behind the
    sending chain stays behind it. -/
structure Onward (P : Primitives Key) (sk : Key) (p : Side) (d : Nat) (s : DrState Key) (d' : Nat)
    (s' : DrState Key) : Prop where
  line : Line P sk p d' s'
  spent : ∀ mk, Spent P sk p d s mk → Spent P sk p d' s' mk
  sent : ∀ mk, Behind P sk d p.other.parity s.ckSend mk →
    Behind P sk d' p.other.parity s'.ckSend mk

section

variable {P : Primitives Key} {sk : Key} {p : Side} {d d' d'' : Nat} {s s' s'' : DrState Key}

theorem Line.refl (h : Line P sk p d s) : Onward P sk p d s d s := ⟨h, fun _ h => h, fun _ h => h⟩

theorem Onward.trans (h : Onward P sk p d s d' s') (h' : Onward P sk p d' s' d'' s'') :
    Onward P sk p d s d'' s'' where
  line := h'.line
  spent mk hm := h'.spent mk (h.spent mk hm)
  sent mk hm := h'.sent mk (h.sent mk hm)

theorem parity_succ (h : d % 2 = p.parity) : (d + 1) % 2 = p.other.parity := by
  cases p <;> simp only [Side.parity, Side.other] at h ⊢ <;> omega

/-- The stored keys are those passed over, and no two are the same. -/
theorem map_mk_skippedKeys (dhPub ck : Key) (n k : Nat) :
    (skippedKeys P dhPub ck n k).map (·.mk) = (List.range k).map (messageKey P ck) := by
  simp only [skippedKeys, List.map_map]
  rfl

variable [Zero Key]

/-- Skipping stores keys and moves the chain past them. -/
theorem Line.skipTo (hP : P.Ideal) (h : Line P sk p d s) (til : Nat) :
    Onward P sk p d s d (skipTo P s til) := by
  unfold DoubleRatchet.skipTo
  cases hck : s.ckRecv with
  | none => exact h.refl
  | some ck =>
    obtain ⟨n, hn, hpar, hc⟩ := h.recv ck hck
    have hnew : ∀ k ∈ skippedKeys P (s.dhRecv.getD 0) ck s.nRecv (til - s.nRecv),
        ∃ i, i < til - s.nRecv ∧ k.mk = messageKey P ck i := by
      intro k hk
      obtain ⟨i, hi, rfl⟩ := List.mem_map.mp hk
      exact ⟨i, List.mem_range.mp hi, rfl⟩
    refine ⟨?_, fun mk hm => ?_, fun _ hm => hm⟩
    · exact
      { parity := h.parity
        root := h.root
        send := h.send
        recv := fun ck' e => by
          cases e
          exact ⟨n, hn, hpar, hc.chainKey _⟩
        stored := fun k hk => by
          rcases List.mem_append.mp hk with hk | hk
          · exact (hck ▸ h.stored k hk).later _
          · obtain ⟨i, hi, e⟩ := hnew k hk
            exact e ▸ hc.behind hP hn hpar hi
        storedNodup := by
          show ((s.skipped ++ _).map (·.mk)).Nodup
          rw [List.map_append, map_mk_skippedKeys]
          refine List.Nodup.append h.storedNodup ?_ ?_
          · exact List.nodup_range.map fun _ _ e => messageKey_number_inj hP e
          · intro mk hm hm'
            obtain ⟨k, hk, rfl⟩ := List.mem_map.mp hm
            obtain ⟨i, -, e⟩ := List.mem_map.mp hm'
            exact (h.stored k hk).notAhead ⟨ck, i, hck, e.symm⟩ }
    · refine ⟨(hck ▸ hm.behind).later _, fun k hk => ?_⟩
      rcases List.mem_append.mp hk with hk | hk
      · exact hm.notStored k hk
      · obtain ⟨i, -, e⟩ := hnew k hk
        intro e'
        exact hm.behind.notAhead ⟨ck, i, hck, e'.symm.trans e⟩

omit [Zero Key] in
/-- **A ratchet step, whatever public key sets it off**, goes two root steps deeper, to chains no
    key has been of. -/
theorem Line.ratchet (hP : P.Ideal) (h : Line P sk p d s) (r dh : Key) :
    Onward P sk p d s (d + 2) (dhRatchet P r s dh) := by
  have hroot := h.root.step d s.rootKey (P.diffieHellman s.dhSend dh)
  have hrecv := h.root.chain (P.diffieHellman s.dhSend dh)
  have hsend := hroot.chain (P.diffieHellman r dh)
  refine ⟨?_, fun mk hm => ?_, fun mk hm => ?_⟩
  · exact
    { parity := (Nat.add_mod_right ..).trans h.parity
      root := hroot.step _ _ _
      send := fun ck e => by
        cases e
        exact ⟨d + 1, by omega, parity_succ h.parity, hsend⟩
      recv := fun ck e => by
        cases e
        exact ⟨d, by omega, h.parity, hrecv⟩
      stored := fun k hk => (h.stored k hk).turn hP hrecv (Nat.le_refl _) (by omega)
      storedNodup := h.storedNodup }
  · exact ⟨hm.behind.turn hP hrecv (Nat.le_refl _) (by omega), hm.notStored⟩
  · exact hm.turn hP hsend (by omega) (by omega)

omit [Zero Key] in
/-- The next key of the chain is used up: from now on it is spent. -/
theorem Line.receive (hP : P.Ideal) (h : Line P sk p d s) {ck : Key} (hck : s.ckRecv = some ck) :
    Onward P sk p d s d (receive P s) ∧ Spent P sk p d (receive P s) (kdfCk P ck).2 := by
  obtain ⟨n, hn, hpar, hc⟩ := h.recv ck hck
  have hrecv : (DoubleRatchet.receive P s).ckRecv = some (chainKey P ck 1) := by
    show s.ckRecv.map _ = _
    rw [hck]
    rfl
  refine ⟨⟨?_, fun mk hm => ?_, fun _ hm => hm⟩, ?_⟩
  · exact
    { parity := h.parity
      root := h.root
      send := h.send
      recv := fun ck' e => by
        rw [hrecv] at e
        cases e
        exact ⟨n, hn, hpar, hc.chainKey 1⟩
      stored := fun k hk => hrecv ▸ (hck ▸ h.stored k hk).later 1
      storedNodup := h.storedNodup }
  · exact ⟨hrecv ▸ (hck ▸ hm.behind).later 1, hm.notStored⟩
  · refine ⟨hrecv ▸ hc.behind hP hn hpar Nat.zero_lt_one, fun k hk e => ?_⟩
    exact (h.stored k hk).notAhead ⟨ck, 0, hck, e⟩

end

section

variable [DecidableEq Key] {P : Primitives Key} {sk : Key} {p : Side} {d : Nat} {s : DrState Key}

/-- A stored key is taken out: from now on it is spent. -/
theorem Line.takeStored (h : Line P sk p d s) {hd : DrHeader Key} {k : SkippedKey Key}
    (hf : s.skipped.find? (SkippedKey.isFor hd) = some k) :
    let s' := { s with skipped := s.skipped.eraseP (SkippedKey.isFor hd) }
    Onward P sk p d s d s' ∧ Spent P sk p d s' k.mk := by
  have hsub : (s.skipped.eraseP (SkippedKey.isFor hd)).Sublist s.skipped := List.eraseP_sublist
  refine ⟨⟨?_, fun mk hm => ⟨hm.behind, fun k hk => hm.notStored k (hsub.subset hk)⟩,
    fun _ hm => hm⟩, h.stored k (List.mem_of_find?_eq_some hf), fun k' hk' e => ?_⟩
  · exact
    { parity := h.parity
      root := h.root
      send := h.send
      recv := h.recv
      stored := fun k hk => h.stored k (hsub.subset hk)
      storedNodup := h.storedNodup.sublist (hsub.map _) }
  · -- the list is the part before `k`, `k`, and the part after it; the keys are all different
    obtain ⟨-, l₁, l₂, hl, hnot⟩ := List.find?_eq_some_iff_append.mp hf
    have hnd := h.storedNodup
    have herase : s.skipped.eraseP (SkippedKey.isFor hd) = l₁ ++ l₂ := by
      rw [hl, List.eraseP_append_right _ fun x hx => by simpa using hnot x hx,
        List.eraseP_cons_of_pos (List.find?_some hf)]
    change k' ∈ s.skipped.eraseP _ at hk'
    rw [herase] at hk'
    rw [hl, List.map_append, List.map_cons, List.nodup_middle, List.nodup_cons,
      ← List.map_append] at hnd
    exact hnd.1 (e ▸ List.mem_map_of_mem hk')

variable [Zero Key]

/-- **Whatever `decrypt` is given**: nothing spent comes back, and a key it opened the envelope with
    was not spent before and is from now on. -/
theorem Line.decrypt (hP : P.Ideal) (h : Line P sk p d s) (r : Key) (e : DrEnvelope Key) :
    ∃ d', Onward P sk p d s d' (decrypt P r s e).2 ∧
      ∀ m, (decrypt P r s e).1 = .ok m → ∃ mk, P.aeadOpen mk e.nonce e.ciphertext = some m ∧
        ¬ Spent P sk p d s mk ∧ Spent P sk p d' (decrypt P r s e).2 mk := by
  have hc := decrypt_cases P r s e
  generalize DoubleRatchet.decrypt P r s e = out at hc
  cases hc with
  | skipped k hf =>
    obtain ⟨hon, hsp⟩ := h.takeStored hf
    exact ⟨d, hon, fun m hm => ⟨k.mk, decryptWithKey_ok hm,
      fun hs => hs.notStored k (List.mem_of_find?_eq_some hf) rfl, hsp⟩⟩
  | ratchetFar => exact ⟨d, h.refl, fun m hm => by cases hm⟩
  | ratchetFarNew =>
    have hskip := h.skipTo hP e.header.pn
    exact ⟨d + 2, hskip.trans (hskip.line.ratchet hP r e.header.dh), fun m hm => by cases hm⟩
  | ratchet =>
    have hskip := h.skipTo hP e.header.pn
    have hturn := hskip.trans (hskip.line.ratchet hP r e.header.dh)
    have hnew := hturn.line.skipTo hP e.header.n
    have hck : (afterRatchet P r s e.header).ckRecv = some (ratchetChain P s e.header.dh) :=
      afterRatchet_ckRecv _
    have hck' : (DoubleRatchet.skipTo P (afterRatchet P r s e.header) e.header.n).ckRecv =
        some (chainKey P (ratchetChain P s e.header.dh) e.header.n) := by
      simp [DoubleRatchet.skipTo, hck]
    obtain ⟨hre, hsp⟩ := hnew.line.receive hP hck'
    rw [afterCurrent_eq hck]
    refine ⟨d + 2, (hturn.trans hnew).trans hre, fun m hm => ⟨_, decryptWithKey_ok hm, ?_, hsp⟩⟩
    -- the key is of a chain that starts at `d`, what is spent is of chains above
    intro hs
    obtain ⟨n, hn, -, hat⟩ := hs.behind.below
    have := hat.unique hP ((h.root.chain _).message e.header.n)
    omega
  | currentFar => exact ⟨d, h.refl, fun m hm => by cases hm⟩
  | noChain => exact ⟨d, h.refl, fun m hm => by cases hm⟩
  | current ck _ _ _ hck =>
    have hskip := h.skipTo hP e.header.n
    have hck' : (DoubleRatchet.skipTo P s e.header.n).ckRecv =
        some (chainKey P ck (e.header.n - s.nRecv)) := by
      simp [DoubleRatchet.skipTo, hck]
    obtain ⟨hre, hsp⟩ := hskip.line.receive hP hck'
    rw [afterCurrent_eq hck]
    exact ⟨d, hskip.trans hre, fun m hm => ⟨_, decryptWithKey_ok hm,
      fun hs => hs.behind.notAhead ⟨ck, _, hck, rfl⟩, hsp⟩⟩

end

/-! ## 4. Two parties and anyone between them -/

/-- The message key that a call of `encrypt` uses. -/
def sendKey (P : Primitives Key) (s : DrState Key) : Option Key :=
  s.ckSend.map fun ck => (kdfCk P ck).2

/-- A party, and what has happened to it. -/
structure Ledger (Key : Type) where
  state : DrState Key
  /-- The message keys of its `encrypt` calls, refused plaintexts included. -/
  keys : List Key
  /-- The envelopes its `encrypt` calls returned. -/
  sent : List (DrEnvelope Key)
  /-- The envelopes for which `decrypt` returned `Ok`, once for each time it did. -/
  accepted : List (DrEnvelope Key)

/-- A party to which nothing has happened. -/
def Ledger.fresh (s : DrState Key) : Ledger Key where
  state := s
  keys := []
  sent := []
  accepted := []

/-- The parties that `init_alice` and `init_bob` start from one shared secret. -/
def freshPair (P : Primitives Key) (sk secret bobSecret : Key) (p : Side) : Ledger Key :=
  .fresh ((World.init P sk secret bobSecret).state p)

inductive SharedStart (P : Primitives Key) (sk : Key) : (Side → Ledger Key) → Prop where
  | init (secret bobSecret : Key) : SharedStart P sk (freshPair P sk secret bobSecret)

/-- What `encrypt` returns is sealed under `sendKey`. -/
theorem encrypt_eq_ok {P : Primitives Key} {nonce : Nonce} {s : DrState Key} {m : Bytes}
    {e : DrEnvelope Key} (h : (encrypt P nonce s m).1 = .ok e) :
    ∃ mk, sendKey P s = some mk ∧
      e = { header := { dh := s.dhSendPub, pn := s.pn, n := s.nSend }, nonce,
            ciphertext := P.aeadSeal mk nonce m } := by
  cases hck : s.ckSend with
  | none =>
    rw [encrypt_no_chain P nonce m hck] at h
    cases h
  | some ck =>
    cases hm : P.accepts m with
    | true =>
      rw [encrypt_ok nonce hck hm] at h
      cases h
      exact ⟨(kdfCk P ck).2, by simp [sendKey, hck], rfl⟩
    | false =>
      rw [encrypt_refused nonce hck hm] at h
      cases h

section

variable [DecidableEq Key] [Zero Key]

/-- A call, and what it adds. -/
def Ledger.after (P : Primitives Key) (l : Ledger Key) : Call Key → Ledger Key
  | .encrypt nonce m =>
    let out := encrypt P nonce l.state m
    { l with
      state := out.2
      keys := l.keys ++ (sendKey P l.state).toList
      sent :=
        match out.1 with
        | .ok e => l.sent ++ [e]
        | .error _ => l.sent }
  | .decrypt r e =>
    let out := decrypt P r l.state e
    { l with
      state := out.2
      accepted :=
        match out.1 with
        | .ok _ => l.accepted ++ [e]
        | .error _ => l.accepted }

theorem Ledger.sent_encrypt {P : Primitives Key} {l : Ledger Key} {nonce : Nonce} {m : Bytes}
    {e : DrEnvelope Key} (h : e ∈ (l.after P (.encrypt nonce m)).sent) :
    e ∈ l.sent ∨ (encrypt P nonce l.state m).1 = .ok e := by
  simp only [Ledger.after] at h
  split at h
  · next e' he =>
    rcases List.mem_append.mp h with h | h
    · exact .inl h
    · exact .inr (List.mem_singleton.mp h ▸ he)
  · exact .inl h

/-- **The recorded keys are those of the envelopes**: each envelope handed out is sealed under a key
    of its own among them, in their order. -/
def Ledger.Sealed (P : Primitives Key) (l : Ledger Key) : Prop :=
  ∃ mks, mks.Sublist l.keys ∧
    List.Forall₂ (fun e mk => ∃ m, e.ciphertext = P.aeadSeal mk e.nonce m) l.sent mks

theorem Ledger.Sealed.after {P : Primitives Key} {l : Ledger Key} (h : l.Sealed P) (c : Call Key) :
    (l.after P c).Sealed P := by
  obtain ⟨mks, hsub, hseal⟩ := h
  cases c with
  | encrypt nonce m =>
    simp only [Ledger.Sealed, Ledger.after]
    cases he : (encrypt P nonce l.state m).1 with
    | error x => exact ⟨mks, hsub.trans (List.sublist_append_left _ _), hseal⟩
    | ok e =>
      obtain ⟨mk, hmk, rfl⟩ := encrypt_eq_ok he
      refine ⟨mks ++ [mk], ?_, List.rel_append hseal (.cons ⟨m, rfl⟩ .nil)⟩
      rw [hmk]
      exact hsub.append (List.Sublist.refl [mk])
  | decrypt r e => exact ⟨mks, hsub, hseal⟩

theorem Ledger.accepted_decrypt (P : Primitives Key) (l : Ledger Key) (r : Key)
    (e : DrEnvelope Key) :
    (l.after P (.decrypt r e)).accepted = l.accepted ∨
      (∃ m, (decrypt P r l.state e).1 = .ok m) ∧
        (l.after P (.decrypt r e)).accepted = l.accepted ++ [e] := by
  simp only [Ledger.after]
  cases hres : (decrypt P r l.state e).1 with
  | error x => exact .inl rfl
  | ok m => exact .inr ⟨⟨m, rfl⟩, rfl⟩

/-- The two parties after a call of `p`. -/
def called (P : Primitives Key) (w : Side → Ledger Key) (p : Side) (c : Call Key) :
    Side → Ledger Key :=
  Function.update w p ((w p).after P c)

/-- One of the two parties makes a call. What it is given to decrypt is anyone's choice. -/
inductive Exchange (P : Primitives Key) :
    (Side → Ledger Key) → Side × Call Key → (Side → Ledger Key) → Prop where
  | call (w : Side → Ledger Key) (p : Side) (c : Call Key) :
      Exchange P w (p, c) (called P w p c)

end

/-- What holds of a party in every run. -/
structure Once (P : Primitives Key) (sk : Key) (p : Side) (d : Nat) (l : Ledger Key) : Prop where
  line : Line P sk p d l.state
  keys : ∀ mk ∈ l.keys, Behind P sk d p.other.parity l.state.ckSend mk
  keysNodup : l.keys.Nodup
  accepted : ∀ e ∈ l.accepted, ∃ mk m, P.aeadOpen mk e.nonce e.ciphertext = some m ∧
    Spent P sk p d l.state mk
  acceptedNodup : l.accepted.Nodup

section

variable {P : Primitives Key} {sk : Key} {p : Side} {d : Nat} {l : Ledger Key}

/-- A call of `encrypt` moves the sending chain past the key it uses. -/
theorem Line.encrypt (hP : P.Ideal) (h : Line P sk p d l.state) (nonce : Nonce) (m : Bytes) :
    Onward P sk p d l.state d (encrypt P nonce l.state m).2 ∧
      ∀ mk ∈ sendKey P l.state, Ahead P l.state.ckSend mk ∧
        Behind P sk d p.other.parity (encrypt P nonce l.state m).2.ckSend mk := by
  cases hck : l.state.ckSend with
  | none =>
    rw [encrypt_no_chain P nonce m hck]
    exact ⟨h.refl, by simp [sendKey, hck]⟩
  | some ck =>
    obtain ⟨n, hn, hpar, hc⟩ := h.send ck hck
    rw [encrypt_state, hck]
    refine ⟨⟨?_, fun mk hm => ⟨hm.behind, hm.notStored⟩, fun mk hm => (hck ▸ hm).later 1⟩, ?_⟩
    · exact
      { parity := h.parity
        root := h.root
        send := fun ck' e => by
          cases e
          exact ⟨n, hn, hpar, hc.chainKey 1⟩
        recv := h.recv
        stored := h.stored
        storedNodup := h.storedNodup }
    · intro mk hmk
      have hmk' : mk = messageKey P ck 0 := by
        simpa [sendKey, hck, messageKey] using hmk.symm
      rw [hmk']
      exact ⟨⟨ck, 0, rfl, rfl⟩, hc.behind hP hn hpar Nat.zero_lt_one⟩

theorem once_start (p : Side) (secret bobSecret : Key) :
    ∃ d, Once P sk p d (freshPair P sk secret bobSecret p) := by
  have hnone : ∀ {Q : Key → Prop}, ∀ x ∈ ([] : List Key), Q x := nofun
  cases p with
  | alice =>
    exact ⟨1,
    { line :=
      { parity := rfl
        root := .step 0 sk _ .shared
        send := fun ck e => by
          cases e
          exact ⟨0, Nat.zero_lt_one, rfl, RootAt.shared.chain _⟩
        recv := nofun
        stored := nofun
        storedNodup := List.nodup_nil }
      keys := hnone
      keysNodup := List.nodup_nil
      accepted := nofun
      acceptedNodup := List.nodup_nil }⟩
  | bob =>
    exact ⟨0,
    { line :=
      { parity := rfl
        root := .shared
        send := nofun
        recv := nofun
        stored := nofun
        storedNodup := List.nodup_nil }
      keys := hnone
      keysNodup := List.nodup_nil
      accepted := nofun
      acceptedNodup := List.nodup_nil }⟩

variable [DecidableEq Key] [Zero Key]

/-- **A call keeps it.** -/
theorem Once.after (hP : P.Ideal) (h : Once P sk p d l) (c : Call Key) :
    ∃ d', Once P sk p d' (l.after P c) := by
  cases c with
  | encrypt nonce m =>
    obtain ⟨hon, hkey⟩ := h.line.encrypt hP nonce m
    refine ⟨d,
    { line := hon.line
      keys := fun mk hmk => ?_
      keysNodup := ?_
      accepted := fun e he => ?_
      acceptedNodup := h.acceptedNodup }⟩
    · rcases List.mem_append.mp hmk with hmk | hmk
      · exact hon.sent mk (h.keys mk hmk)
      · exact (hkey mk (Option.mem_toList.mp hmk)).2
    · refine List.Nodup.append h.keysNodup ?_ fun mk hold hnew => ?_
      · cases sendKey P l.state <;> simp
      · exact (h.keys mk hold).notAhead (hkey mk (Option.mem_toList.mp hnew)).1
    · obtain ⟨mk, m', ho, hs⟩ := h.accepted e he
      exact ⟨mk, m', ho, hon.spent mk hs⟩
  | decrypt r e =>
    obtain ⟨d', hon, hok⟩ := h.line.decrypt hP r e
    have hold : ∀ e' ∈ l.accepted, ∃ mk m, P.aeadOpen mk e'.nonce e'.ciphertext = some m ∧
        Spent P sk p d' (decrypt P r l.state e).2 mk := fun e' he' => by
      obtain ⟨mk, m', ho, hs⟩ := h.accepted e' he'
      exact ⟨mk, m', ho, hon.spent mk hs⟩
    refine ⟨d',
    { line := hon.line
      keys := fun mk hmk => hon.sent mk (h.keys mk hmk)
      keysNodup := h.keysNodup
      accepted := ?_
      acceptedNodup := ?_ }⟩
    · rcases l.accepted_decrypt P r e with hacc | ⟨⟨m, hres⟩, hacc⟩
      · rw [hacc]
        exact hold
      · intro e' he'
        rw [hacc] at he'
        rcases List.mem_append.mp he' with he' | he'
        · exact hold e' he'
        · obtain rfl := List.mem_singleton.mp he'
          obtain ⟨mk, ho, -, hs⟩ := hok m hres
          exact ⟨mk, m, ho, hs⟩
    · rcases l.accepted_decrypt P r e with hacc | ⟨⟨m, hres⟩, hacc⟩
      · rw [hacc]
        exact h.acceptedNodup
      · rw [hacc]
        refine List.Nodup.append h.acceptedNodup (List.nodup_singleton e) fun e' hin he' => ?_
        obtain rfl := List.mem_singleton.mp he'
        -- accepted before, it was opened with a key that is spent; a ciphertext has one key
        obtain ⟨mk, ho, hns, -⟩ := hok m hres
        obtain ⟨mk', m', ho', hs⟩ := h.accepted e' hin
        have hsame := hP.seal_key _ _ _ _ _ _
          ((hP.open_sound _ _ _ _ ho).symm.trans (hP.open_sound _ _ _ _ ho'))
        exact hns (hsame ▸ hs)

/-- **What every run keeps.** -/
theorem once_reach (hP : P.Ideal) {w : Side → Ledger Key}
    (h : Reach (SharedStart P sk) (Exchange P) w) (p : Side) : ∃ d, Once P sk p d (w p) := by
  refine Reach.inv (I := fun w => ∀ p, ∃ d, Once P sk p d (w p)) (fun w hs p => ?_)
    (fun w ev w' hw hst p => ?_) h p
  · cases hs with
    | init secret bobSecret => exact once_start p secret bobSecret
  · cases hst with
    | call q c =>
      unfold called
      by_cases hqp : p = q
      · subst hqp
        obtain ⟨d, hd⟩ := hw p
        rw [Function.update_self]
        exact hd.after hP c
      · rw [Function.update_of_ne hqp]
        exact hw p

end

/-- **Every run keeps the envelopes to their keys.** -/
theorem sealed_reach [DecidableEq Key] [Zero Key] {P : Primitives Key} {sk : Key}
    {w : Side → Ledger Key} (h : Reach (SharedStart P sk) (Exchange P) w) (p : Side) :
    (w p).Sealed P := by
  refine Reach.inv (I := fun w => ∀ p, (w p).Sealed P) (fun w hs p => ?_)
    (fun w ev w' hw hst p => ?_) h p
  · cases hs with
    | init secret bobSecret => exact ⟨[], List.Sublist.refl [], .nil⟩
  · cases hst with
    | call q c =>
      unfold called
      by_cases hqp : p = q
      · subst hqp
        rw [Function.update_self]
        exact (hw p).after c
      · rw [Function.update_of_ne hqp]
        exact hw p

/-- **Message keys are used once**: whatever anyone feeds to `decrypt` between the calls, no two
    `encrypt` calls of the two parties use the same message key, each envelope handed out is sealed
    under a key of its own among them, and no side accepts an envelope twice. -/
theorem keys_used_once [DecidableEq Key] [Zero Key] (P : Primitives Key) (hP : P.Ideal) (sk : Key)
    (w : Side → Ledger Key) (h : Reach (SharedStart P sk) (Exchange P) w) :
    ((w .alice).keys ++ (w .bob).keys).Nodup ∧ (∀ p, (w p).Sealed P) ∧
      ∀ p, (w p).accepted.Nodup := by
  obtain ⟨da, ha⟩ := once_reach hP h .alice
  obtain ⟨db, hb⟩ := once_reach hP h .bob
  refine ⟨List.Nodup.append ha.keysNodup hb.keysNodup fun mk hma hmb => ?_, sealed_reach h,
    fun p => ?_⟩
  · -- the initiator sends at even depths, the responder at odd ones
    obtain ⟨n, -, hn, hat⟩ := (ha.keys mk hma).below
    obtain ⟨n', -, hn', hat'⟩ := (hb.keys mk hmb).below
    have hsame := hat.unique hP hat'
    change n % 2 = 0 at hn
    change n' % 2 = 1 at hn'
    omega
  · obtain ⟨d, hd⟩ := once_reach hP h p
    exact hd.acceptedNodup

/-- The parties after some calls, one after the other. -/
def calledAll [DecidableEq Key] [Zero Key] (P : Primitives Key) (w : Side → Ledger Key)
    (cs : List (Side × Call Key)) : Side → Ledger Key :=
  cs.foldl (fun w c => called P w c.1 c.2) w

theorem reach_calledAll [DecidableEq Key] [Zero Key] {P : Primitives Key} {sk : Key}
    {w : Side → Ledger Key} (h : Reach (SharedStart P sk) (Exchange P) w)
    (cs : List (Side × Call Key)) : Reach (SharedStart P sk) (Exchange P) (calledAll P w cs) := by
  induction cs generalizing w with
  | nil => exact h
  | cons c cs ih => exact ih (.step w c _ h (.call w c.1 c.2))

/-- The responder is given an envelope nobody sent before the initiator's arrives, and answers. -/
def meddled : Side → Ledger Sym :=
  calledAll symbolic (freshPair symbolic (.secret 9) (.secret 1) (.secret 2))
    [(.alice, .encrypt (Vector.replicate 12 0) [104]), (.bob, .decrypt (.secret 3) strayEnvelope),
      (.bob, .encrypt (Vector.replicate 12 0) [105])]

theorem keys_used_once_meddled :
    ((meddled .alice).keys ++ (meddled .bob).keys).Nodup ∧ (∀ p, (meddled p).Sealed symbolic) ∧
      ∀ p, (meddled p).accepted.Nodup :=
  keys_used_once symbolic symbolic_ideal (.secret 9) meddled
    (reach_calledAll (.start _ (.init ..)) _)

end AlterChat.DoubleRatchet
