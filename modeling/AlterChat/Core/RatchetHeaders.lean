import AlterChat.Core.RatchetErrors
import AlterChat.Core.RatchetKeys

/-!
# What the header of an accepted envelope can be

`encrypt` gives the cipher no associated data: the header travels beside the ciphertext, and nothing
ties the two together. What a changed header does is choose another key, and the envelope is
rejected because that key does not open it -- unless the header chooses the same key again.

* `decrypt_ok_iff` -- `decrypt` accepts when the key the header chooses opens the ciphertext;
* `Misread` -- a header that is not the one sent, and that chooses the key of the one sent;
* `PartyAt.tries_genuine`, `PartyAt.misread_tries` -- it is these headers and no others;
* `tampered_rejected_iff` -- what `encrypt` did not produce is rejected exactly when it is no such
  reading of an envelope still under way;
* `changed_pn_skipped` -- the keys that a changed `pn` stores.
-/

namespace AlterChat.DoubleRatchet

open Lib Primitives

section

variable {Key : Type} [DecidableEq Key] {P : Primitives Key}

/-! ## 1. When an envelope is accepted -/

section

variable {r : Key} {s : DrState Key} {e : DrEnvelope Key}

omit [DecidableEq Key] in
theorem decryptWithKey_ok_iff {mk : Key} :
    (∃ x, decryptWithKey P mk e = .ok x) ↔ Opens P mk e := by
  unfold decryptWithKey Opens
  cases P.aeadOpen mk e.nonce e.ciphertext <;> simp

theorem isFor_iff {h : DrHeader Key} {k : SkippedKey Key} :
    k.isFor h = true ↔ k.dhPub = h.dh ∧ k.n = h.n := by
  rw [SkippedKey.isFor, Bool.and_eq_true, decide_eq_true_iff, decide_eq_true_iff]

theorem dhRecv_of_need_false {h : DrHeader Key} (hr : needDhRatchet s h = false) :
    s.dhRecv = some h.dh := by
  unfold needDhRatchet at hr
  split at hr
  · cases hr
  · next k hs => rw [hs, not_ne_iff.mp (of_decide_eq_false hr)]

/-- The header chooses one key. -/
theorem Tries.unique {mk mk' : Key} (h : Tries P s e mk) (h' : Tries P s e mk') : mk = mk' := by
  cases h with
  | stored k hf =>
    cases h' with
    | stored k' hf' => exact congrArg (·.mk) (Option.some.inj (hf.symm.trans hf'))
    | new hf' => cases hf.symm.trans hf'
    | current ck' hf' => cases hf.symm.trans hf'
  | new hf hr =>
    cases h' with
    | stored k' hf' => cases hf.symm.trans hf'
    | new => rfl
    | current ck' _ hr' => cases hr.symm.trans hr'
  | current ck hf hr hck =>
    cases h' with
    | stored k' hf' => cases hf.symm.trans hf'
    | new _ hr' => cases hr.symm.trans hr'
    | current ck' _ _ hck' => rw [Option.some.inj (hck.symm.trans hck')]

/-- Without a chain and a ratchet step there is no key to try. -/
theorem not_tries {mk : Key} (hf : s.skipped.find? (SkippedKey.isFor e.header) = none)
    (hr : needDhRatchet s e.header = false) (hck : s.ckRecv = none) : ¬ Tries P s e mk := by
  intro ht
  cases ht with
  | stored k hf' => cases hf.symm.trans hf'
  | new _ hr' => cases hr.symm.trans hr'
  | current ck _ _ hck' => cases hck.symm.trans hck'

/-- **What is accepted**: the header is within the limits, and the key it chooses opens the
    ciphertext. -/
theorem decrypt_ok_iff [Zero Key] : (∃ x, (decrypt P r s e).1 = .ok x) ↔
    SkipsWithin s e.header ∧ ∃ mk, Tries P s e mk ∧ Opens P mk e := by
  have hopens : ∀ {mk}, Tries P s e mk → ((∃ x, decryptWithKey P mk e = .ok x) ↔
      ∃ mk, Tries P s e mk ∧ Opens P mk e) := fun ht => by
    rw [decryptWithKey_ok_iff]
    constructor
    · intro ho
      exact ⟨_, ht, ho⟩
    · intro ho
      obtain ⟨mk', ht', ho'⟩ := ho
      exact ht.unique ht' ▸ ho'
  have hc := decrypt_cases P r s e
  generalize decrypt P r s e = out at hc
  unfold SkipsWithin
  cases hc with
  | skipped k hf =>
    rw [hopens (.stored k hf)]
    simp [hf]
  | ratchetFar hf hr hp =>
    simp only [hf, hr, Nat.not_le.mpr hp, if_true, false_and, or_false]
    simp
  | ratchetFarNew hf hr hp hn =>
    simp only [hf, hr, Nat.not_le.mpr hn, if_true, and_false, or_false]
    simp
  | ratchet hf hr hp hn =>
    rw [hopens (.new hf hr)]
    simp [hr, hp, hn]
  | currentFar hf hr hn =>
    simp only [hf, hr, Nat.not_le.mpr hn, Bool.false_eq_true, if_false, or_false]
    simp
  | noChain hf hr hn hck =>
    constructor
    · intro h
      obtain ⟨x, hx⟩ := h
      cases hx
    · intro h
      obtain ⟨-, mk, ht, -⟩ := h
      exact absurd ht (not_tries hf hr hck)
  | current ck hf hr hn hck =>
    rw [hopens (.current ck hf hr hck)]
    simp [hr, hn]

end

/-! ## 2. Headers that choose the same key -/

/-- `h'` is read as `h`. For a message whose key is stored `pn` is not looked at. For the first
    message of a new chain `pn` counts for the limit only, and another public key is as good if it
    gives the same shared value. In the chain being received `pn` is not looked at, and a number
    below the next one stands for the next one, if no key is stored for it. -/
def Misread (P : Primitives Key) (s : DrState Key) (h h' : DrHeader Key) : Prop :=
  if s.holds h then h'.dh = h.dh ∧ h'.n = h.n
  else s.holds h' = false ∧ SkipsWithin s h' ∧
    if needDhRatchet s h then needDhRatchet s h' = true ∧
      P.diffieHellman s.dhSend h'.dh = P.diffieHellman s.dhSend h.dh ∧ h'.n = h.n
    else h'.dh = h.dh ∧ h.n = max s.nRecv h'.n

omit [DecidableEq Key] in
theorem root_inj (hP : P.Ideal) {sk : Key} {H : History Key} {i i' : Nat}
    (e : H.root P sk i = H.root P sk i') : i = i' := by
  rcases Nat.lt_trichotomy i i' with hlt | heq | hgt
  · exact absurd e (root_ne hP hlt)
  · exact heq
  · exact absurd e.symm (root_ne hP hgt)

omit [DecidableEq Key] in
/-- **No two messages of a session share a key.** -/
theorem msgKey_inj (hP : P.Ideal) {sk : Key} {H : History Key} {i j i' j' : Nat} (hi : i ≠ 0)
    (hi' : i' ≠ 0) (e : H.msgKey P sk i j = H.msgKey P sk i' j') : i = i' ∧ j = j' := by
  obtain ⟨hroot, -, hj⟩ := chainKey_start_inj hP (hP.hkdf_inj _ _ _ _ _ _ e).1
  have := root_inj hP hroot
  exact ⟨by omega, hj⟩

section

variable {sk : Key} {H : History Key} {s : Nat} {seen : Nat → Nat → Prop} {st : DrState Key}

theorem holds_eq_false {h : DrHeader Key} (hf : st.skipped.find? (SkippedKey.isFor h) = none) :
    st.holds h = false := by
  rw [DrState.holds, hf]
  rfl

theorem holds_eq_true {h : DrHeader Key} {k : SkippedKey Key}
    (hf : st.skipped.find? (SkippedKey.isFor h) = some k) : st.holds h = true := by
  rw [DrState.holds, hf]
  rfl

omit [DecidableEq Key] in
/-- The responder's first epoch has no messages. -/
theorem PartyAt.passed_pos (h : PartyAt P sk H s seen st) (h0 : H.cnt 0 = 0) {i j : Nat}
    (hp : Passed H s st.nRecv i j) : i ≠ 0 := by
  rintro rfl
  have hr := h.recvLe
  rcases hp with ⟨-, hj⟩ | ⟨h1, hj⟩
  · omega
  · obtain rfl : s = 1 := h1.symm
    rw [Nat.sub_self, h0] at hr
    omega

/-- **A header that chooses the key of a genuine message** is read as the header of that message,
    which has not been received and is of the other party. -/
theorem PartyAt.tries_genuine (hP : P.Ideal) (h : PartyAt P sk H s seen st) {n : Nat}
    (hd : H.Distinct P n) (hsn : s ≤ n) (h0 : H.cnt 0 = 0) {i j : Nat} (hi0 : i ≠ 0) (hin : i ≤ n)
    {e : DrEnvelope Key} (hw : SkipsWithin st e.header) (ht : Tries P st e (H.msgKey P sk i j)) :
    i % 2 ≠ s % 2 ∧ ¬ seen i j ∧ Misread P st (H.header P i j) e.header := by
  generalize hmk : H.msgKey P sk i j = mk at ht
  cases ht with
  | stored k hf =>
    obtain ⟨i', j', hpar, hp, hns, rfl⟩ := (h.skippedMem k).mp (List.mem_of_find?_eq_some hf)
    obtain ⟨rfl, rfl⟩ := msgKey_inj hP hi0 (h.passed_pos h0 hp) hmk
    have hfor : (H.stored P sk i j).isFor e.header = true := List.find?_some hf
    obtain ⟨hdh, hn⟩ := isFor_iff.mp hfor
    refine ⟨hpar, hns, ?_⟩
    unfold Misread
    rw [if_pos (holds_eq_true (h.takeStored hd hsn hpar hp hns).1)]
    exact ⟨hdh.symm, hn.symm⟩
  | new hf hr =>
    -- the root key is that of epoch `s`, so the message is of the next epoch
    obtain ⟨hroot, hdh, hj⟩ := chainKey_start_inj hP (hP.hkdf_inj _ _ _ _ _ _ hmk).1
    rw [h.rootKey] at hroot
    have hs := root_inj hP hroot
    obtain rfl : i = s + 1 := by omega
    have hnp : ¬ Passed H s st.nRecv (s + 1) j := fun hp => by
      have := hp.le
      omega
    have hdh' : P.diffieHellman st.dhSend e.header.dh =
        P.diffieHellman st.dhSend (H.header P (s + 1) j).dh := by
      rw [← hdh, h.dhSend]
      exact hP.dh_comm _ _
    refine ⟨by omega, fun hse => hnp (h.seenPassed _ _ hse), ?_⟩
    unfold Misread
    rw [if_neg (by simp [holds_eq_false (h.find_none hd hsn hin fun hp => absurd hp hnp)]),
      if_pos (h.need_true hd hsn hin (by omega))]
    exact ⟨holds_eq_false hf, hw, hr, hdh', hj.symm⟩
  | current ck hf hr hck =>
    have hc := h.ckRecv
    rw [hck] at hc
    split at hc
    · cases hc
    · next hs2 =>
      cases hc
      rw [messageKey_chainKey] at hmk
      have hmk' : H.msgKey P sk i j = H.msgKey P sk (s - 1)
        (st.nRecv + (e.header.n - st.nRecv)) := hmk
      obtain ⟨rfl, rfl⟩ := msgKey_inj hP hi0 (by omega) hmk'
      have hnp : ¬ Passed H s st.nRecv (s - 1) (st.nRecv + (e.header.n - st.nRecv)) := by
        unfold Passed
        omega
      have hdh : e.header.dh = H.pub P (s - 1) := by
        have hrecv := h.dhRecv
        rw [if_neg (by omega), dhRecv_of_need_false hr] at hrecv
        exact Option.some.inj hrecv
      refine ⟨by omega, fun hse => hnp (h.seenPassed _ _ hse), ?_⟩
      unfold Misread
      rw [if_neg (by simp [holds_eq_false (h.find_none hd hsn hin fun hp => absurd hp hnp)]),
        if_neg (by simp [h.need_false (by omega : s ≠ 0)])]
      refine ⟨holds_eq_false hf, hw, hdh, ?_⟩
      show st.nRecv + (e.header.n - st.nRecv) = _
      omega

/-- **A header that is read as that of a genuine message** the other party has sent and this one not
    received chooses its key. -/
theorem PartyAt.misread_tries (hP : P.Lawful) (h : PartyAt P sk H s seen st) {n : Nat}
    (hd : H.Distinct P n) (hsn : s ≤ n) {i j : Nat} (hin : i ≤ n) (hi : i ≤ s + 1)
    (hpar : i % 2 ≠ s % 2) (hi0 : i ≠ 0) (hj : j < H.cnt i) (hns : ¬ seen i j)
    {e : DrEnvelope Key} (hm : Misread P st (H.header P i j) e.header) :
    SkipsWithin st e.header ∧ Tries P st e (H.msgKey P sk i j) := by
  unfold Misread at hm
  by_cases hp : Passed H s st.nRecv i j
  · obtain ⟨hf, -⟩ := h.takeStored hd hsn hpar hp hns
    rw [if_pos (holds_eq_true hf)] at hm
    have hfor : SkippedKey.isFor e.header = SkippedKey.isFor (H.header P i j) := by
      funext k
      rw [SkippedKey.isFor, hm.1, hm.2]
      rfl
    have hf' : st.skipped.find? (SkippedKey.isFor e.header) = some (H.stored P sk i j) := by
      rw [hfor]
      exact hf
    exact ⟨.inl (by rw [hf']; rfl), .stored _ hf'⟩
  · rw [if_neg (by simp [holds_eq_false (h.find_none hd hsn hin fun hpp => absurd hpp hp)])] at hm
    obtain ⟨hholds, hw, hm⟩ := hm
    have hf' : st.skipped.find? (SkippedKey.isFor e.header) = none := by
      simpa [DrState.holds] using hholds
    refine ⟨hw, ?_⟩
    by_cases hnew : i = s + 1
    · -- the message opens a new epoch
      subst hnew
      rw [if_pos (h.need_true hd hsn hin (by omega))] at hm
      obtain ⟨hr, hdh, hn⟩ := hm
      have hchain : DoubleRatchet.ratchetChain P st e.header.dh = H.chain P sk (s + 1) := by
        rw [← h.ratchetChain hP]
        exact congrArg (fun x => (kdfRk P st.rootKey x).2) hdh
      have ht := Tries.new (P := P) hf' hr
      rw [hchain, hn] at ht
      exact ht
    · -- the message is ahead in the chain being received
      unfold Passed at hp
      obtain rfl : i = s - 1 := by omega
      rw [if_neg (by simp [h.need_false (by omega : s ≠ 0)])] at hm
      obtain ⟨hdh, hn⟩ := hm
      have hck := h.ckRecv
      rw [if_neg (by omega)] at hck
      have hr : needDhRatchet st e.header = false := by
        rw [← h.need_false (j := j) (by omega : s ≠ 0)]
        unfold needDhRatchet
        rw [hdh]
      have ht := Tries.current (P := P) _ hf' hr hck
      have hj' : st.nRecv + (e.header.n - st.nRecv) = j := by
        change j = _ at hn
        omega
      rw [messageKey_chainKey, hj'] at ht
      exact ht

end

/-! ## 3. In a session -/

/-- The cipher is not broken: what is sealed under a key of the session is what one of the two
    parties has sent. -/
def Unforged (P : Primitives Key) (sk : Key) (w : World Key) (e : DrEnvelope Key) : Prop :=
  ∀ mk m, Descends P sk mk → e.ciphertext = P.aeadSeal mk e.nonce m →
    ∃ q, ∃ x ∈ w.sent q, x.1.nonce = e.nonce ∧ x.1.ciphertext = e.ciphertext

omit [DecidableEq Key] in
theorem Synced.distinct_all {sk : Key} {H : History Key} {idx : Side → Nat}
    {seen : Side → Nat → Nat → Prop} {st : Side → DrState Key} (h : Synced P sk H idx seen st)
    (p : Side) : ∃ n, (∀ q, idx q ≤ n) ∧ H.Distinct P n := by
  rcases Nat.le_total (idx p) (idx p.other) with hle | hle
  · refine ⟨idx p.other, fun q => ?_, h.distinct p.other⟩
    rcases p.eq_or_other q with rfl | rfl
    · exact hle
    · exact Nat.le_refl _
  · refine ⟨idx p, fun q => ?_, h.distinct p⟩
    rcases p.eq_or_other q with rfl | rfl
    · exact Nat.le_refl _
    · exact hle

theorem Session.accepts_iff [Zero Key] (hP : P.Ideal) {sk : Key} {w : World Key}
    (h : Session P sk w) (p : Side) {e' : DrEnvelope Key} (hun : Unforged P sk w e') (r : Key) :
    (∃ x, (decrypt P r (w.state p) e').1 = .ok x) ↔
      ∃ (k : Nat) (e : DrEnvelope Key) (m : Bytes), (w.sent p.other)[k]? = some (e, m) ∧
        k ∉ w.delivered p.other ∧ e.nonce = e'.nonce ∧ e.ciphertext = e'.ciphertext ∧
        Misread P (w.state p) e.header e'.header := by
  obtain ⟨H, idx, seen, ht⟩ := h.tracks hP.toLawful
  obtain ⟨n, hn, hd⟩ := ht.synced.distinct_all p
  have hparty := ht.synced.party p
  have h0 := ht.synced.cntZero
  rw [decrypt_ok_iff]
  constructor
  · intro hx
    obtain ⟨hw, mk, htry, ho⟩ := hx
    obtain ⟨x, hx⟩ := Option.isSome_iff_exists.mp ho
    obtain ⟨q, ⟨e, m⟩, hmem, hnonce, hct⟩ :=
      hun mk x (hparty.tries_descends htry) (hP.open_sound _ _ _ _ hx)
    obtain ⟨k, hk⟩ := List.getElem?_of_mem hmem
    obtain ⟨i, j, hg, hseen⟩ := (ht.sent q).genuine k e m hk
    obtain ⟨nonce, he⟩ := hg.eq
    have hmk : H.msgKey P sk i j = mk := by
      have hc : e.ciphertext = P.aeadSeal (H.msgKey P sk i j) nonce m := by rw [he]; rfl
      exact hP.seal_key _ _ _ _ _ _ (hc.symm.trans (hct.trans (hP.open_sound _ _ _ _ hx)))
    rw [← hmk] at htry
    obtain ⟨hpar, hns, hmis⟩ := hparty.tries_genuine hP hd (hn p) h0 (hg.pos h0)
      (Nat.le_trans hg.le (hn q)) hw htry
    rw [← hg.header] at hmis
    rcases p.eq_or_other q with rfl | rfl
    · exact absurd hg.parity hpar
    · rw [p.other_other] at hseen
      exact ⟨k, e, m, hk, fun hdel => hns (hseen.mp hdel), hnonce, hct, hmis⟩
  · intro hx
    obtain ⟨k, e, m, hk, hdel, hnonce, hct, hmis⟩ := hx
    obtain ⟨i, j, hg, hseen⟩ := (ht.sent p.other).genuine k e m hk
    rw [p.other_other] at hseen
    obtain ⟨nonce, rfl⟩ := hg.eq
    have hpar : i % 2 ≠ idx p % 2 := by
      rw [hg.parity]
      exact ht.synced.parity_ne p
    obtain ⟨hw, htry⟩ := hparty.misread_tries hP.toLawful hd (hn p) (Nat.le_trans hg.le (hn _))
      (Nat.le_trans hg.le (ht.synced.close p)) hpar (hg.pos h0) hg.lt
      (fun hs => hdel (hseen.mpr hs)) hmis
    refine ⟨hw, _, htry, ?_⟩
    unfold Opens
    rw [← hnonce, ← hct]
    exact Option.isSome_iff_exists.mpr ⟨m, hP.open_seal _ _ _⟩

/-- **When what `encrypt` did not produce is rejected**: exactly when its header is not read as that
    of an envelope with the same nonce and ciphertext that is still under way to this side. -/
theorem tampered_rejected_iff [Zero Key] (P : Primitives Key) (hP : P.Ideal) (sk : Key)
    (w : World Key) (h : Session P sk w) (p : Side) (e' : DrEnvelope Key)
    (hun : Unforged P sk w e') :
    (∀ r x, (decrypt P r (w.state p) e').1 ≠ .ok x) ↔
      ∀ (k : Nat) (e : DrEnvelope Key) (m : Bytes), (w.sent p.other)[k]? = some (e, m) →
        k ∉ w.delivered p.other → e.nonce = e'.nonce → e.ciphertext = e'.ciphertext →
        ¬ Misread P (w.state p) e.header e'.header := by
  constructor
  · intro hrej k e m hk hdel hnonce hct hmis
    obtain ⟨x, hx⟩ := (h.accepts_iff hP p hun sk).mpr ⟨k, e, m, hk, hdel, hnonce, hct, hmis⟩
    exact hrej sk x hx
  · intro hno r x hx
    obtain ⟨k, e, m, hk, hdel, hnonce, hct, hmis⟩ := (h.accepts_iff hP p hun r).mp ⟨x, hx⟩
    exact hno k e m hk hdel hnonce hct hmis

/-- **What a changed `pn` does**: at the first message of a new chain it decides how many keys of
    the old chain are stored, whether the message is accepted or not. -/
theorem changed_pn_skipped [Zero Key] (r : Key) {s : DrState Key} {e : DrEnvelope Key}
    (hf : s.holds e.header = false) (hr : needDhRatchet s e.header = true)
    (hck : s.ckRecv.isSome = true) (hn : e.header.n ≤ MAX_SKIP) {pn : Nat}
    (hp : pn ≤ s.nRecv + MAX_SKIP) :
    (decrypt P r s { e with header := { e.header with pn } }).2.skipped.length =
      s.skipped.length + (pn - s.nRecv) + e.header.n := by
  have hf' : s.holds { e.header with pn } = false := hf
  have hr' : needDhRatchet s { e.header with pn } = true := hr
  rw [decrypt_skipped_length]
  simp only [hf', Bool.false_eq_true, if_false, DrState.toStore, hr', if_true, DrState.ahead]
  have hck' : ¬ s.ckRecv.isNone = true := by simpa using Option.isSome_iff_ne_none.mp hck
  rw [if_neg (Nat.not_lt.mpr hp), if_neg hck', if_neg (Nat.not_lt.mpr hn), ← Nat.add_assoc]

end

/-! ## 4. A changed `pn` -/

/-- The initiator's first message. -/
def helloEnvelope : DrEnvelope Sym :=
  firstEnvelope symbolic (.secret 9) (.secret 1) (.secret 2)
    (firstChain symbolic (.secret 9) (.secret 1) (.secret 2)) (Vector.replicate 12 0) [104, 105]

/-- It is on its way to the responder. -/
def helloWorld : World Sym :=
  (World.init symbolic (.secret 9) (.secret 1) (.secret 2)).encrypted symbolic .alice
    (Vector.replicate 12 0) [104, 105]

/-- The same nonce and ciphertext, with another `pn`. -/
def renumbered : DrEnvelope Sym :=
  { helloEnvelope with header := { helloEnvelope.header with pn := 7 } }

theorem hello_session : Session symbolic (.secret 9) helloWorld :=
  .step _ (Event.encrypt .alice (Vector.replicate 12 0) [104, 105]) _
    (.start _ (.init (.secret 1) (.secret 2) nofun)) ⟨rfl, .encrypt ..⟩

theorem hello_sent : helloWorld.sent .alice = [(helloEnvelope, [104, 105])] :=
  encrypted_alice (w := World.init symbolic (.secret 9) (.secret 1) (.secret 2))
    (Vector.replicate 12 0) rfl rfl

theorem renumbered_unforged : Unforged symbolic (.secret 9) helloWorld renumbered := fun _ _ _ _ =>
  ⟨.alice, (helloEnvelope, [104, 105]),
    by rw [hello_sent]; exact List.mem_singleton_self _, rfl, rfl⟩

theorem renumbered_misread :
    Misread symbolic (initBob (.secret 9) (.secret 2) (.point 2)) helloEnvelope.header
      renumbered.header := by
  have hw : SkipsWithin (initBob (.secret 9) (.secret 2) (.point 2)) renumbered.header :=
    Or.inr (by decide)
  exact ⟨rfl, hw, rfl, rfl, rfl⟩

/-- `tampered_rejected_iff` for the responder and the changed header. -/
theorem tampered_rejected_iff_hello :
    (∀ r x, (decrypt symbolic r (helloWorld.state .bob) renumbered).1 ≠ .ok x) ↔
      ∀ (k : Nat) (e : DrEnvelope Sym) (m : Bytes), (helloWorld.sent .alice)[k]? = some (e, m) →
        k ∉ helloWorld.delivered .alice → e.nonce = renumbered.nonce →
        e.ciphertext = renumbered.ciphertext →
        ¬ Misread symbolic (helloWorld.state .bob) e.header renumbered.header :=
  tampered_rejected_iff symbolic symbolic_ideal (.secret 9) helloWorld hello_session .bob renumbered
    renumbered_unforged

/-- **The responder accepts what the initiator never produced.** -/
theorem changed_pn_accepted :
    Session symbolic (.secret 9) helloWorld ∧
    Unforged symbolic (.secret 9) helloWorld renumbered ∧
    (∀ q, ∀ x ∈ helloWorld.sent q, x.1 ≠ renumbered) ∧
    ¬ ∀ r x, (decrypt symbolic r (helloWorld.state .bob) renumbered).1 ≠ .ok x := by
  refine ⟨hello_session, renumbered_unforged, fun q x hx e => ?_, fun hrej => ?_⟩
  · have hpn : x.1.header.pn = 7 := congrArg (·.header.pn) e
    cases q with
    | alice =>
      rw [hello_sent, List.mem_singleton] at hx
      rw [hx] at hpn
      exact absurd hpn (by decide)
    | bob => cases hx
  · obtain ⟨x, hx⟩ := (hello_session.accepts_iff symbolic_ideal .bob renumbered_unforged
      (.secret 3)).mpr ⟨0, helloEnvelope, [104, 105], by
        show (helloWorld.sent .alice)[0]? = _
        rw [hello_sent]
        rfl, List.not_mem_nil, rfl, rfl, renumbered_misread⟩
    exact hrej _ x hx

end AlterChat.DoubleRatchet
