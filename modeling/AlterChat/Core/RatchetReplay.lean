import AlterChat.Core.RatchetSession

/-!
# What `decrypt` rejects

Under the idealised primitives. `Tries P s e` are the keys `decrypt` may ask the cipher with;
whatever it returns was opened under one of them (`decrypt_ok_tries`). From this:

* `PartyAt.junk` -- an envelope that was not sealed under a key of the session is rejected, whatever
  its header says;
* `PartyAt.replay` -- a message seen before is rejected, from the current chain and from any older
  one;
* `Tracks.junk`, `Tracks.replay` -- the same for the two parties of a session.
-/

namespace AlterChat.DoubleRatchet

open Lib Primitives

variable {Key : Type}

/-! ## 1. The keys a call can try -/

/-- The keys `decrypt` may ask the cipher with. -/
inductive Tries [DecidableEq Key] (P : Primitives Key) (s : DrState Key) (e : DrEnvelope Key) :
    Key → Prop where
  | stored (k : SkippedKey Key) (h : s.skipped.find? (SkippedKey.isFor e.header) = some k) :
      Tries P s e k.mk
  | new (h : s.skipped.find? (SkippedKey.isFor e.header) = none)
      (hr : needDhRatchet s e.header = true) :
      Tries P s e (messageKey P (ratchetChain P s e.header.dh) e.header.n)
  | current (ck : Key) (h : s.skipped.find? (SkippedKey.isFor e.header) = none)
      (hr : needDhRatchet s e.header = false) (hck : s.ckRecv = some ck) :
      Tries P s e (messageKey P ck (e.header.n - s.nRecv))

theorem decryptWithKey_ok {P : Primitives Key} {mk : Key} {e : DrEnvelope Key} {m : Bytes}
    (h : decryptWithKey P mk e = .ok m) : P.aeadOpen mk e.nonce e.ciphertext = some m := by
  unfold decryptWithKey at h
  split at h
  · cases h
  · next ho =>
    cases h
    exact ho

/-- **What `decrypt` returns was opened under a key it may try.** -/
theorem decrypt_ok_tries [DecidableEq Key] [Zero Key] {P : Primitives Key} {r : Key}
    {s : DrState Key} {e : DrEnvelope Key} {m : Bytes} (h : (decrypt P r s e).1 = .ok m) :
    ∃ mk, Tries P s e mk ∧ P.aeadOpen mk e.nonce e.ciphertext = some m := by
  have hc := decrypt_cases P r s e
  generalize decrypt P r s e = out at h hc
  cases hc with
  | skipped k hf => exact ⟨_, .stored k hf, decryptWithKey_ok h⟩
  | ratchetFar => cases h
  | ratchetFarNew => cases h
  | ratchet hf hr => exact ⟨_, .new hf hr, decryptWithKey_ok h⟩
  | currentFar => cases h
  | noChain => cases h
  | current ck hf hr _ hck => exact ⟨_, .current ck hf hr hck, decryptWithKey_ok h⟩

/-! ## 2. Every key of a session descends from the shared secret -/

section

variable {P : Primitives Key} {sk : Key} {H : History Key}

theorem chainKey_descends {ck : Key} (h : Descends P sk ck) (j : Nat) :
    Descends P sk (chainKey P ck j) := h.iterate none "chain" j

theorem messageKey_descends {ck : Key} (h : Descends P sk ck) (j : Nat) :
    Descends P sk (messageKey P ck j) := .hkdf _ none "msg" (chainKey_descends h j)

theorem root_descends (i : Nat) : Descends P sk (H.root P sk i) := by
  induction i with
  | zero => exact .refl
  | succ i ih => exact .hkdf _ _ _ ih

theorem chain_descends (i : Nat) : Descends P sk (H.chain P sk i) :=
  .hkdf _ _ _ (root_descends (i - 1))

theorem msgKey_descends (i j : Nat) : Descends P sk (H.msgKey P sk i j) :=
  messageKey_descends (chain_descends i) j

/-! ## 3. No two messages share a key -/

theorem messageKey_inj (hP : P.Ideal) {ck ck' : Key} {j : Nat}
    (e : messageKey P ck j = messageKey P ck' j) : ck = ck' := by
  have hc : chainKey P ck j = chainKey P ck' j := (hP.hkdf_inj _ _ _ _ _ _ e).1
  have hstep : Function.Injective fun c => (kdfCk P c).1 :=
    fun a b hab => (hP.hkdf_inj _ _ _ _ _ _ hab).1
  exact hstep.iterate j hc

theorem messageKey_number_inj (hP : P.Ideal) {ck : Key} {j j' : Nat}
    (e : messageKey P ck j = messageKey P ck j') : j = j' :=
  hP.iterate_inj none "chain" (hP.hkdf_inj _ _ _ _ _ _ e).1

/-- Root keys of different epochs differ: each is further from the shared secret. -/
theorem root_ne (hP : P.Ideal) {i i' : Nat} (h : i < i') : H.root P sk i ≠ H.root P sk i' := by
  obtain ⟨rank, hr⟩ := hP.hkdf_acyclic
  have hlt : rank (H.root P sk i) < rank (H.root P sk i') := by
    induction h with
    | refl => exact hr _ _ _
    | step _ ih => exact Nat.lt_trans ih (hr _ _ _)
  intro e
  rw [e] at hlt
  exact Nat.lt_irrefl _ hlt

end

/-! ## 4. Junk and replays -/

section

variable [DecidableEq Key] {P : Primitives Key} {sk : Key} {H : History Key} {s : Nat}
  {seen : Nat → Nat → Prop} {st : DrState Key}

/-- A party tries keys of its session only. -/
theorem PartyAt.tries_descends (h : PartyAt P sk H s seen st) {e : DrEnvelope Key} {mk : Key}
    (ht : Tries P st e mk) : Descends P sk mk := by
  cases ht with
  | stored k hf =>
    obtain ⟨i, j, -, -, -, rfl⟩ := (h.skippedMem k).mp (List.mem_of_find?_eq_some hf)
    exact msgKey_descends i j
  | new hf hr =>
    have hroot : Descends P sk st.rootKey := h.rootKey ▸ root_descends s
    exact messageKey_descends (.hkdf _ _ _ hroot) _
  | current ck hf hr hck =>
    have hc := h.ckRecv
    rw [hck] at hc
    split at hc
    · cases hc
    · cases hc
      exact messageKey_descends (chainKey_descends (chain_descends _) _) _

/-- A message seen before: its key is not one the party tries any more. -/
theorem PartyAt.tries_seen (hP : P.Ideal) (h : PartyAt P sk H s seen st) {n : Nat}
    (hd : H.Distinct P n) (hsn : s ≤ n) (h0 : H.cnt 0 = 0) {i j : Nat} (hs : seen i j)
    {e : DrEnvelope Key} (he : e.header = H.header P i j) : ¬ Tries P st e (H.msgKey P sk i j) := by
  have hp := h.seenPassed i j hs
  have hle := hp.le
  have hf := h.find_none hd hsn (by omega) fun _ => hs
  have hi0 : i ≠ 0 := by
    rintro rfl
    have hr := h.recvLe
    rcases hp with ⟨-, hj⟩ | ⟨h1, hj⟩
    · omega
    · have hs1 : s - 1 = 0 := by omega
      rw [hs1] at hr
      omega
  intro ht
  rw [← he] at hf
  generalize hmk : H.msgKey P sk i j = mk at ht
  cases ht with
  | stored k hk =>
    rw [hf] at hk
    cases hk
  | new _ hr =>
    -- the chain would come from two different root keys
    rw [he] at hmk
    have hck := messageKey_inj hP hmk
    have hroot := (hP.hkdf_inj _ _ _ _ _ _ hck).1
    rw [h.rootKey] at hroot
    exact root_ne hP (by omega) hroot
  | current ck _ hr hck =>
    have hc := h.ckRecv
    rw [hck] at hc
    split at hc
    · cases hc
    · next hs2 =>
      cases hc
      rw [he, messageKey_chainKey] at hmk
      rcases hp with ⟨h1, -⟩ | ⟨h1, hj⟩
      · -- the header's chain is not the current one
        have hneed := h.need_true hd hsn (by omega) (i := i) (j := j) (by omega)
        rw [← he, hr] at hneed
        cases hneed
      · obtain rfl : i = s - 1 := by omega
        have hnum := messageKey_number_inj hP hmk
        omega

variable [Zero Key]

/-- **An envelope that was not sealed under a key of the session is rejected.** -/
theorem PartyAt.junk (hP : P.Ideal) (h : PartyAt P sk H s seen st) {e : DrEnvelope Key}
    (hj : ∀ k, Descends P sk k → ∀ n m, e.ciphertext ≠ P.aeadSeal k n m) (r : Key) :
    ∃ x, (decrypt P r st e).1 = .error x := by
  cases hd : (decrypt P r st e).1 with
  | error x => exact ⟨x, rfl⟩
  | ok m =>
    obtain ⟨mk, ht, ho⟩ := decrypt_ok_tries hd
    exact absurd (hP.open_sound _ _ _ _ ho) (hj mk (h.tries_descends ht) _ _)

/-- **A message seen before is rejected.** -/
theorem PartyAt.replay (hP : P.Ideal) (h : PartyAt P sk H s seen st) {n : Nat}
    (hd : H.Distinct P n) (hsn : s ≤ n) (h0 : H.cnt 0 = 0) {i j : Nat} (hs : seen i j)
    (nonce : Nonce) (m : Bytes) (r : Key) :
    ∃ x, (decrypt P r st (H.envelope P sk i j nonce m)).1 = .error x := by
  cases hdec : (decrypt P r st (H.envelope P sk i j nonce m)).1 with
  | error x => exact ⟨x, rfl⟩
  | ok m' =>
    obtain ⟨mk, ht, ho⟩ := decrypt_ok_tries hdec
    have hk := hP.seal_key _ _ _ _ _ _ (hP.open_sound _ _ _ _ ho)
    rw [← hk] at ht
    exact absurd ht (h.tries_seen hP hd hsn h0 hs rfl)

end

/-! ## 5. In a session -/

section

variable [DecidableEq Key] [Zero Key] {P : Primitives Key} {sk : Key} {H : History Key}
  {idx : Side → Nat} {seen : Side → Nat → Nat → Prop} {w : World Key}

theorem Tracks.junk (hP : P.Ideal) (h : Tracks P sk H idx seen w) (p : Side) {e : DrEnvelope Key}
    (hj : ∀ k, Descends P sk k → ∀ n m, e.ciphertext ≠ P.aeadSeal k n m) (r : Key) :
    ∃ x, (decrypt P r (w.state p) e).1 = .error x :=
  (h.synced.party p).junk hP hj r

/-- **A second delivery is rejected.** -/
theorem Tracks.replay (hP : P.Ideal) (h : Tracks P sk H idx seen w) (p : Side) {k : Nat}
    {e : DrEnvelope Key} {m : Bytes} (hk : (w.sent p.other)[k]? = some (e, m))
    (hd : k ∈ w.delivered p.other) (r : Key) : ∃ x, (decrypt P r (w.state p) e).1 = .error x := by
  obtain ⟨i, j, hg, hseen⟩ := (h.sent p.other).genuine k e m hk
  rw [p.other_other] at hseen
  obtain ⟨nonce, rfl⟩ := hg.eq
  obtain ⟨n, hsn, hdist⟩ : ∃ n, idx p ≤ n ∧ H.Distinct P n := by
    rcases Nat.le_total (idx p) (idx p.other) with hle | hle
    · exact ⟨_, hle, h.synced.distinct p.other⟩
    · exact ⟨_, Nat.le_refl _, h.synced.distinct p⟩
  exact (h.synced.party p).replay hP hdist hsn h.synced.cntZero (hseen.mp hd) nonce m r

end

/-- The session of two parties that share `sk`. -/
inductive StartFrom (P : Primitives Key) (sk : Key) : World Key → Prop where
  | init (secret bobSecret : Key) (h : P.publicKey secret ≠ P.publicKey bobSecret) :
      StartFrom P sk (World.init P sk secret bobSecret)

/-- The worlds of that session in which no plaintext has been refused. -/
def Session [DecidableEq Key] [Zero Key] (P : Primitives Key) (sk : Key) : World Key → Prop :=
  Reach (StartFrom P sk) (Guarded (Accepted P) (Step P))

theorem Session.tracks [DecidableEq Key] [Zero Key] {P : Primitives Key} (hP : P.Lawful) {sk : Key}
    {w : World Key} (h : Session P sk w) : ∃ H idx seen, Tracks P sk H idx seen w := by
  refine Reach.inv (I := fun w => ∃ H idx seen, Tracks P sk H idx seen w) (fun w hs => ?_)
    (fun w ev w' hw hst => ?_) h
  · cases hs with
    | init secret bobSecret hne => exact ⟨_, _, _, tracks_init sk hne⟩
  · obtain ⟨H, idx, seen, ht⟩ := hw
    exact ht.step hP hst

end AlterChat.DoubleRatchet
