import AlterChat.Core.Crypto
import AlterChat.Core.RatchetSession
import AlterChat.Lib.Slices

/-!
# The legacy ratchet: failing calls and lost messages

`ratchet_encrypt` and `ratchet_decrypt` of `alterchat-core/src/crypto.rs`. A side has one chain to
send with and one to receive with, and advances each by one key a message; the receiver catches up
with the counter of the envelope before the cipher is asked. Both counters are `u64`; the build is
one with overflow checks, in which an addition that overflows is a panic: `none`.

* §1 the two functions, `ratchetDecryptChecked_eq` -- a call in one piece, `ratchetDecrypt_eq` --
  where it is the one of the other build;
* §2 `ratchetAtomic_iff` -- which failing calls leave the state as it was;
* §3 `World`, `Step` -- any `ratchet_encrypt` calls on both sides, and deliveries of envelopes with
  gaps;
* §4 `InStep` -- counters and keys of both sides, kept by every step;
* §5 `legacy_delivers` -- what is delivered is decrypted, what is old is rejected.
-/

namespace AlterChat.LegacyRatchet

open Lib Crypto
open DoubleRatchet (Side getElem?_snoc)

variable {Key : Type}

/-! ## 1. The calls -/

/-- The label of `advance_chain`. -/
def nextLabel : Bytes := "next".toUTF8.toList

/-- The key of the message with that counter: `counter.to_be_bytes()` is the label. -/
def messageKey (D : DeriveKey Key) (chainKey : Key) (counter : Nat) : Key :=
  D chainKey (le 8 counter).reverse

/-- `ratchet_encrypt`, with the nonce it draws. -/
def ratchetEncrypt (P : Primitives Key) (D : DeriveKey Key) (nonce : Nonce)
    (state : RatchetState Key) (plaintext : Bytes) :
    Option (Except String (RatchetEnvelope Key) × RatchetState Key) :=
  let key := messageKey D state.sendChainKey state.sendCount
  match P.encrypt key nonce plaintext with
  | none => some (.error "Ratchet encryption failed", state)
  | some ciphertext =>
    (checkedAdd 64 state.sendCount 1).map fun sendCount =>
      (.ok { counter := state.sendCount, nonce, ciphertext },
        { state with sendChainKey := advanceChain D state.sendChainKey, sendCount })

/-- `ratchet_decrypt`, with the addition at its end checked. -/
def ratchetDecryptChecked (P : Primitives Key) (D : DeriveKey Key) (state : RatchetState Key)
    (envelope : RatchetEnvelope Key) : Option (Except String Bytes × RatchetState Key) :=
  ratchetDecrypt .checked P D state envelope

section

variable {P : Primitives Key} {D : DeriveKey Key}

/-- The state after the loop: the chain has advanced up to the counter. -/
def caughtUp (D : DeriveKey Key) (state : RatchetState Key) (counter : Nat) : RatchetState Key :=
  { state with
    recvChainKey := chain D nextLabel (counter - state.recvCount) state.recvChainKey
    recvCount := state.recvCount + (counter - state.recvCount) }

theorem ratchetSkip_eq (k : Nat) (state : RatchetState Key) :
    ratchetSkip D k state =
      { state with
        recvChainKey := chain D nextLabel k state.recvChainKey
        recvCount := state.recvCount + k } := by
  induction k generalizing state with
  | zero => rfl
  | succ k ih =>
    rw [ratchetSkip, ih, chain_succ', Nat.add_assoc, Nat.add_comm 1]
    rfl

/-- The key that a call tries. -/
def expectedKey (D : DeriveKey Key) (state : RatchetState Key) (counter : Nat) : Key :=
  messageKey D (chain D nextLabel (counter - state.recvCount) state.recvChainKey) counter

/-- The envelope authenticates under the key that a call tries. -/
def Opens (P : Primitives Key) (D : DeriveKey Key) (state : RatchetState Key)
    (envelope : RatchetEnvelope Key) : Prop :=
  (P.aeadOpen (expectedKey D state envelope.counter) envelope.nonce envelope.ciphertext).isSome =
    true

/-- **A call of `ratchet_decrypt`.** -/
theorem ratchetDecryptChecked_eq (state : RatchetState Key) (envelope : RatchetEnvelope Key) :
    ratchetDecryptChecked P D state envelope =
      match P.aeadOpen (expectedKey D state envelope.counter) envelope.nonce
        envelope.ciphertext with
      | none => some (.error "Ratchet decryption failed", caughtUp D state envelope.counter)
      | some plaintext => (checkedAdd 64 envelope.counter 1).map fun recvCount =>
        (.ok plaintext,
          { state with
            recvChainKey :=
              chain D nextLabel (envelope.counter - state.recvCount + 1) state.recvChainKey
            recvCount }) := by
  unfold ratchetDecryptChecked ratchetDecrypt
  rw [ratchetSkip_eq, chain_succ]
  rfl

/-- Where the counter after it fits, a call does the same in both builds. -/
theorem ratchetDecrypt_eq {b : Build} {state : RatchetState Key} {envelope : RatchetEnvelope Key}
    (h : b = .checked → Opens P D state envelope → envelope.counter + 1 < 2 ^ 64) :
    ratchetDecrypt b P D state envelope = ratchetDecrypt .wrapping P D state envelope := by
  cases b with
  | wrapping => rfl
  | checked =>
    unfold Opens expectedKey messageKey at h
    unfold ratchetDecrypt
    simp only [ratchetSkip_eq]
    cases hopen : P.aeadOpen (D (chain D nextLabel (envelope.counter - state.recvCount)
        state.recvChainKey) (le 8 envelope.counter).reverse) envelope.nonce envelope.ciphertext with
    | none => rfl
    | some plaintext =>
      have hfits := h rfl (Option.isSome_of_eq_some hopen)
      simp only [Build.unsigned_of_lt _ hfits]

theorem ratchetDecrypt_wrapping (state : RatchetState Key) (envelope : RatchetEnvelope Key) :
    (ratchetDecrypt .wrapping P D state envelope).isSome = true := by
  unfold ratchetDecrypt
  dsimp only
  split <;> rfl

theorem ratchetDecrypt_overflow {state : RatchetState Key} {envelope : RatchetEnvelope Key}
    (hopen : Opens P D state envelope) (h : 2 ^ 64 ≤ envelope.counter + 1) :
    ratchetDecrypt .checked P D state envelope = none := by
  obtain ⟨plaintext, hplain⟩ := Option.isSome_iff_exists.mp hopen
  show ratchetDecryptChecked P D state envelope = none
  have hnone : checkedAdd 64 envelope.counter 1 = none := Build.unsigned_overflow h
  rw [ratchetDecryptChecked_eq, hplain, hnone]
  rfl

theorem ratchetDecryptChecked_closed {state : RatchetState Key} {envelope : RatchetEnvelope Key}
    (h : ¬ Opens P D state envelope) :
    ratchetDecryptChecked P D state envelope =
      some (.error "Ratchet decryption failed", caughtUp D state envelope.counter) := by
  have hnone := Option.not_isSome_iff_eq_none.mp h
  rw [ratchetDecryptChecked_eq, hnone]

/-- A call that fails has not opened the envelope. -/
theorem error_closed {state state' : RatchetState Key} {envelope : RatchetEnvelope Key} {e : String}
    (h : ratchetDecryptChecked P D state envelope = some (.error e, state')) :
    ¬ Opens P D state envelope := by
  intro hopen
  obtain ⟨plaintext, hplain⟩ := Option.isSome_iff_exists.mp hopen
  rw [ratchetDecryptChecked_eq, hplain] at h
  obtain ⟨recvCount, -, heq⟩ := Option.map_eq_some_iff.mp h
  cases heq

theorem caughtUp_eq_self {state : RatchetState Key} {counter : Nat}
    (h : counter ≤ state.recvCount) : caughtUp D state counter = state := by
  rw [caughtUp, Nat.sub_eq_zero_of_le h]
  rfl

/-! ## 2. Failing calls -/

/-- If this call fails, it changes nothing. -/
def RatchetAtomic (P : Primitives Key) (D : DeriveKey Key) (state : RatchetState Key)
    (envelope : RatchetEnvelope Key) : Prop :=
  ∀ e state', ratchetDecryptChecked P D state envelope = some (.error e, state') → state' = state

/-- **A failing call leaves the state as it was** just where its counter is not ahead of
    `recv_count`: the loop has advanced the chain before the cipher is asked. -/
theorem ratchetAtomic_iff (P : Primitives Key) (D : DeriveKey Key) (state : RatchetState Key)
    (envelope : RatchetEnvelope Key) :
    RatchetAtomic P D state envelope ↔
      envelope.counter ≤ state.recvCount ∨ Opens P D state envelope := by
  constructor
  · intro h
    by_contra hnot
    obtain ⟨hahead, hclosed⟩ := not_or.mp hnot
    have hkept := h _ _ (ratchetDecryptChecked_closed hclosed)
    have hcount : state.recvCount + (envelope.counter - state.recvCount) = state.recvCount :=
      congrArg RatchetState.recvCount hkept
    omega
  · intro h e state' hcall
    have hclosed := error_closed hcall
    rw [ratchetDecryptChecked_closed hclosed] at hcall
    cases hcall
    exact caughtUp_eq_self (h.resolve_right hclosed)

end

/-- **A forged envelope with the counter 5 moves the state.** -/
theorem forged_moves : ¬ ∀ (state : RatchetState Key32) (envelope : RatchetEnvelope Key32),
    RatchetAtomic plain32 (fun k _ => k) state envelope := by
  intro h
  have hkept := h (.forPeerPair (fun k _ => k) 0 "a" "b")
    { counter := 5, nonce := Vector.replicate 12 0, ciphertext := [] } _ _ rfl
  cases congrArg RatchetState.recvCount hkept

/-! ## 3. Runs -/

/-- The two sides, and the envelopes between them. -/
structure World (Key : Type) where
  state : Side → RatchetState Key
  /-- The envelopes of a side, each with its plaintext. -/
  sent : Side → List (RatchetEnvelope Key × Bytes)
  /-- The first of the other's envelopes that a side can still be given. -/
  next : Side → Nat

inductive Event where
  | encrypt (p : Side) (nonce : Nonce) (m : Bytes)
  | deliver (p : Side) (k : Nat)

/-- `p` has called `ratchet_encrypt`. -/
def World.encrypted (w : World Key) (p : Side) (m : Bytes)
    (result : Except String (RatchetEnvelope Key)) (state' : RatchetState Key) : World Key :=
  { w with
    state := Function.update w.state p state'
    sent :=
      match result with
      | .ok envelope => Function.update w.sent p (w.sent p ++ [(envelope, m)])
      | .error _ => w.sent }

/-- `p` has called `ratchet_decrypt` on the envelope that the other side sent `k`-th. -/
def World.delivered (w : World Key) (p : Side) (k : Nat) (state' : RatchetState Key) : World Key :=
  { w with
    state := Function.update w.state p state'
    next := Function.update w.next p (k + 1) }

/-- The steps: a call of `ratchet_encrypt`, or one of `ratchet_decrypt` on an envelope that was sent
    after all those the side has been given. What is left out is lost. A call that panics is no
    step. -/
inductive Step (P : Primitives Key) (D : DeriveKey Key) : World Key → Event → World Key → Prop where
  | encrypt (w : World Key) (p : Side) (nonce : Nonce) (m : Bytes)
      {result : Except String (RatchetEnvelope Key)} {state' : RatchetState Key}
      (h : ratchetEncrypt P D nonce (w.state p) m = some (result, state')) :
      Step P D w (.encrypt p nonce m) (w.encrypted p m result state')
  | deliver (w : World Key) (p : Side) (k : Nat) {envelope : RatchetEnvelope Key} {m : Bytes}
      {result : Except String Bytes} {state' : RatchetState Key} (hnext : w.next p ≤ k)
      (hsent : (w.sent p.other)[k]? = some (envelope, m))
      (h : ratchetDecryptChecked P D (w.state p) envelope = some (result, state')) :
      Step P D w (.deliver p k) (w.delivered p k state')

/-- Both sides with one secret, each with its own id and that of the other. -/
def World.start (D : DeriveKey Key) (secret : Key) (id : Side → String) : World Key where
  state p := .forPeerPair D secret (id p) (id p.other)
  sent _ := []
  next _ := 0

/-! ## 4. Both sides in step -/

/-- The start of the chain that a side sends with. -/
def sendRoot (D : DeriveKey Key) (secret : Key) (id : Side → String) (p : Side) : Key :=
  D secret (if id p ≤ id p.other then "low_to_high".toUTF8.toList else "high_to_low".toUTF8.toList)

/-- The envelope is the `k`-th of a chain. -/
structure Genuine (P : Primitives Key) (D : DeriveKey Key) (root : Key) (k : Nat)
    (envelope : RatchetEnvelope Key) (m : Bytes) : Prop where
  counter : envelope.counter = k
  ciphertext : envelope.ciphertext =
    P.aeadSeal (messageKey D (chain D nextLabel k root) k) envelope.nonce m

/-- A side that has sent these envelopes. -/
structure Sends (P : Primitives Key) (D : DeriveKey Key) (root : Key) (state : RatchetState Key)
    (sent : List (RatchetEnvelope Key × Bytes)) : Prop where
  count : state.sendCount = sent.length
  key : state.sendChainKey = chain D nextLabel sent.length root
  bound : sent.length < 2 ^ 64
  genuine : ∀ (k : Nat) envelope m, sent[k]? = some (envelope, m) → Genuine P D root k envelope m

/-- A side that receives with the chain of the other. -/
def Receives (D : DeriveKey Key) (root : Key) (state : RatchetState Key) : Prop :=
  state.recvChainKey = chain D nextLabel state.recvCount root

/-- **Both sides in step.** -/
structure InStep (P : Primitives Key) (D : DeriveKey Key) (secret : Key) (id : Side → String)
    (w : World Key) : Prop where
  sends : ∀ p, Sends P D (sendRoot D secret id p) (w.state p) (w.sent p)
  receives : ∀ p, Receives D (sendRoot D secret id p.other) (w.state p)
  next : ∀ p, (w.state p).recvCount = w.next p

section

variable {P : Primitives Key} {D : DeriveKey Key} {secret root : Key} {id : Side → String}
  {state : RatchetState Key} {w : World Key}

theorem id_ne (hid : id .alice ≠ id .bob) (p : Side) : id p ≠ id p.other := by
  cases p with
  | alice => exact hid
  | bob => exact hid.symm

/-- One side sends with what the other receives with. -/
theorem recvChainKey_start (hid : id .alice ≠ id .bob) (p : Side) :
    (RatchetState.forPeerPair D secret (id p) (id p.other)).recvChainKey =
      sendRoot D secret id p.other := by
  have hne := id_ne hid p
  unfold sendRoot
  rw [Side.other_other]
  show (if id p ≤ id p.other then _ else _) = _
  by_cases hle : id p ≤ id p.other
  · have hback : ¬ id p.other ≤ id p := fun h => hne (String.le_antisymm hle h)
    rw [if_pos hle, if_neg hback]
  · have hback : id p.other ≤ id p := (String.le_total _ _).resolve_left hle
    rw [if_neg hle, if_pos hback]

theorem inStep_start (hid : id .alice ≠ id .bob) :
    InStep P D secret id (World.start D secret id) where
  sends p :=
    { count := rfl
      key := by
        show (if id p ≤ id p.other then _ else _) = sendRoot D secret id p
        unfold sendRoot
        split <;> rfl
      bound := Nat.two_pow_pos 64
      genuine := fun _ _ _ h => by cases h }
  receives p := recvChainKey_start hid p
  next _ := rfl

/-- **The chains of the two sides never meet.** -/
theorem sendRoot_apart (hD : FreeDerivation D) (hid : id .alice ≠ id .bob) (p : Side) (m n : Nat) :
    chain D nextLabel m (sendRoot D secret id p) ≠
      chain D nextLabel n (sendRoot D secret id p.other) := by
  have hlabels : "low_to_high".toUTF8.toList ≠ "high_to_low".toUTF8.toList := by decide +kernel
  have hlow : "low_to_high".toUTF8.toList ≠ nextLabel := by decide +kernel
  have hhigh : "high_to_low".toUTF8.toList ≠ nextLabel := by decide +kernel
  have hne := id_ne hid p
  unfold sendRoot
  rw [Side.other_other]
  by_cases hle : id p ≤ id p.other
  · have hback : ¬ id p.other ≤ id p := fun h => hne (String.le_antisymm hle h)
    rw [if_pos hle, if_neg hback]
    exact hD.chain_apart hlabels hlow hhigh secret m n
  · have hback : id p.other ≤ id p := (String.le_total _ _).resolve_left hle
    rw [if_neg hle, if_pos hback]
    exact hD.chain_apart hlabels.symm hhigh hlow secret m n

/-! ### Sending -/

/-- What a call of `ratchet_encrypt` leaves: an envelope more, or the state. -/
theorem Sends.encrypted {sent : List (RatchetEnvelope Key × Bytes)} (h : Sends P D root state sent)
    {nonce : Nonce} {m : Bytes} {result : Except String (RatchetEnvelope Key)}
    {state' : RatchetState Key} (hcall : ratchetEncrypt P D nonce state m = some (result, state')) :
    (∃ e, result = .error e ∧ state' = state) ∨
      ∃ envelope, result = .ok envelope ∧ Sends P D root state' (sent ++ [(envelope, m)]) ∧
        state'.recvChainKey = state.recvChainKey ∧ state'.recvCount = state.recvCount := by
  unfold ratchetEncrypt at hcall
  dsimp only at hcall
  cases hacc : P.accepts m with
  | false =>
    rw [Primitives.encrypt_of_not_accepts hacc] at hcall
    cases hcall
    exact .inl ⟨_, rfl, rfl⟩
  | true =>
    rw [Primitives.encrypt_of_accepts hacc] at hcall
    obtain ⟨sendCount, hcount, heq⟩ := Option.map_eq_some_iff.mp hcall
    cases heq
    refine .inr ⟨_, rfl, ?_, rfl, rfl⟩
    unfold checkedAdd Build.unsigned at hcount
    dsimp only at hcount
    split at hcount
    · next hfits =>
      cases hcount
      refine ⟨?_, ?_, ?_, fun k envelope m' hget => ?_⟩
      · rw [List.length_append, ← h.count]
        rfl
      · rw [List.length_append, List.length_singleton, chain_succ, ← h.key]
        rfl
      · rw [List.length_append, List.length_singleton, ← h.count]
        exact hfits
      · rcases getElem?_snoc hget with hold | ⟨rfl, hnew⟩
        · exact h.genuine k envelope m' hold
        · cases hnew
          refine ⟨h.count, ?_⟩
          rw [← h.key, ← h.count]
    · cases hcount

/-! ### Receiving -/

/-- Ahead of the counter a side has the key of every message of the chain. -/
theorem Receives.expectedKey (h : Receives D root state) {k : Nat} (hk : state.recvCount ≤ k) :
    expectedKey D state k = messageKey D (chain D nextLabel k root) k := by
  unfold LegacyRatchet.expectedKey
  rw [h, chain_chain, Nat.add_sub_cancel' hk]

/-- **An envelope that is not behind the counter is decrypted**, and the side goes on after it. -/
theorem Receives.delivered (hP : P.Lawful) (h : Receives D root state) {k : Nat}
    {envelope : RatchetEnvelope Key} {m : Bytes} (hgenuine : Genuine P D root k envelope m)
    (hk : state.recvCount ≤ k) (hfits : k + 1 < 2 ^ 64) :
    ∃ state', ratchetDecryptChecked P D state envelope = some (.ok m, state') ∧
      Receives D root state' ∧ state'.recvCount = k + 1 ∧
      state'.sendChainKey = state.sendChainKey ∧ state'.sendCount = state.sendCount := by
  have hopen : P.aeadOpen (LegacyRatchet.expectedKey D state envelope.counter) envelope.nonce
      envelope.ciphertext = some m := by
    rw [hgenuine.counter, h.expectedKey hk, hgenuine.ciphertext, hP.open_seal]
  rw [ratchetDecryptChecked_eq, hopen]
  dsimp only
  rw [hgenuine.counter, checkedAdd_eq hfits]
  refine ⟨_, rfl, ?_, rfl, rfl, rfl⟩
  show chain D nextLabel (k - state.recvCount + 1) state.recvChainKey =
    chain D nextLabel (k + 1) root
  have hsum : state.recvCount + (k - state.recvCount + 1) = k + 1 := by omega
  rw [h, chain_chain, hsum]

/-- A side that has taken nothing of the chain does not notice what it sends. -/
theorem Receives.congr {state' : RatchetState Key} (h : Receives D root state)
    (hkey : state'.recvChainKey = state.recvChainKey)
    (hcount : state'.recvCount = state.recvCount) : Receives D root state' := by
  unfold Receives
  rw [hkey, hcount]
  exact h

theorem Sends.congr {state' : RatchetState Key} {sent : List (RatchetEnvelope Key × Bytes)}
    (h : Sends P D root state sent) (hkey : state'.sendChainKey = state.sendChainKey)
    (hcount : state'.sendCount = state.sendCount) : Sends P D root state' sent where
  count := hcount.trans h.count
  key := hkey.trans h.key
  bound := h.bound
  genuine := h.genuine

/-! ### The steps -/

/-- A call of `ratchet_encrypt` keeps both sides in step. -/
theorem InStep.encrypted (h : InStep P D secret id w) {p : Side} {nonce : Nonce} {m : Bytes}
    {result : Except String (RatchetEnvelope Key)} {state' : RatchetState Key}
    (hcall : ratchetEncrypt P D nonce (w.state p) m = some (result, state')) :
    InStep P D secret id (w.encrypted p m result state') := by
  rcases (h.sends p).encrypted hcall with ⟨e, rfl, rfl⟩ | ⟨envelope, rfl, hsends, hkey, hcount⟩
  · have hsame : w.encrypted p m (.error e) (w.state p) = w := by
      unfold World.encrypted
      rw [Function.update_eq_self]
    rwa [hsame]
  · refine ⟨fun q => ?_, fun q => ?_, fun q => ?_⟩
    · rcases Side.eq_or_other p q with rfl | rfl
      · simpa [World.encrypted] using hsends
      · simpa [World.encrypted, p.other_ne] using h.sends p.other
    · rcases Side.eq_or_other p q with rfl | rfl
      · simpa [World.encrypted] using (h.receives q).congr hkey hcount
      · simpa [World.encrypted, p.other_ne] using h.receives p.other
    · rcases Side.eq_or_other p q with rfl | rfl
      · simpa [World.encrypted, hcount] using h.next q
      · simpa [World.encrypted, p.other_ne] using h.next p.other

/-- **What a side can still be given it decrypts**, and both stay in step. -/
theorem InStep.delivered (hP : P.Lawful) (h : InStep P D secret id w) {p : Side} {k : Nat}
    {envelope : RatchetEnvelope Key} {m : Bytes} (hnext : w.next p ≤ k)
    (hsent : (w.sent p.other)[k]? = some (envelope, m)) :
    ∃ state', ratchetDecryptChecked P D (w.state p) envelope = some (.ok m, state') ∧
      InStep P D secret id (w.delivered p k state') := by
  have hother := h.sends p.other
  have hlt : k < (w.sent p.other).length := (List.getElem?_eq_some_iff.mp hsent).1
  have hfits : k + 1 < 2 ^ 64 := Nat.lt_of_le_of_lt (Nat.succ_le_of_lt hlt) hother.bound
  have hk : (w.state p).recvCount ≤ k := (h.next p).trans_le hnext
  obtain ⟨state', hcall, hreceives, hcount, hkey, hsends⟩ :=
    (h.receives p).delivered hP (hother.genuine k envelope m hsent) hk hfits
  refine ⟨state', hcall, fun q => ?_, fun q => ?_, fun q => ?_⟩
  · rcases Side.eq_or_other p q with rfl | rfl
    · simpa [World.delivered] using (h.sends q).congr hkey hsends
    · simpa [World.delivered, p.other_ne] using hother
  · rcases Side.eq_or_other p q with rfl | rfl
    · simpa [World.delivered] using hreceives
    · simpa [World.delivered, p.other_ne] using h.receives p.other
  · rcases Side.eq_or_other p q with rfl | rfl
    · simpa [World.delivered] using hcount
    · simpa [World.delivered, p.other_ne] using h.next p.other

/-- **Every step keeps both sides in step.** -/
theorem InStep.step (hP : P.Lawful) (h : InStep P D secret id w) {e : Event} {w' : World Key}
    (hs : Step P D w e w') : InStep P D secret id w' := by
  cases hs with
  | encrypt p nonce m hcall => exact h.encrypted hcall
  | deliver p k hnext hsent hcall =>
    obtain ⟨state', hcall', hstep⟩ := h.delivered hP hnext hsent
    rw [hcall'] at hcall
    cases hcall
    exact hstep

/-! ### Old envelopes -/

/-- What was sent in the run, by either side. -/
def World.Made (w : World Key) (ciphertext : Bytes) : Prop :=
  ∃ p, ∃ x ∈ w.sent p, x.1.ciphertext = ciphertext

/-- **A side that has gone on has no key for what is behind it**: not of the other's chain, where it
    has later keys, nor of its own, which never meets it. -/
theorem made_closed (hcommit : P.Committing) (hD : FreeDerivation D) (hid : id .alice ≠ id .bob)
    (h : InStep P D secret id w) {p : Side}
    (hreceives : Receives D (sendRoot D secret id p.other) state) {envelope : RatchetEnvelope Key}
    (hold : envelope.counter < state.recvCount) (hmade : w.Made envelope.ciphertext) :
    ¬ Opens P D state envelope := by
  obtain ⟨q, ⟨sent, m⟩, hmem, hsame⟩ := hmade
  obtain ⟨k, hget⟩ := List.getElem?_of_mem hmem
  have hgenuine := (h.sends q).genuine k sent m hget
  have hk : k < 2 ^ 64 := Nat.lt_trans (List.getElem?_eq_some_iff.mp hget).1 (h.sends q).bound
  have hexpected : expectedKey D state envelope.counter =
      messageKey D (chain D nextLabel state.recvCount (sendRoot D secret id p.other))
        envelope.counter := by
    rw [expectedKey, Nat.sub_eq_zero_of_le (Nat.le_of_lt hold), chain_zero, hreceives]
  have hkeys : expectedKey D state envelope.counter ≠
      messageKey D (chain D nextLabel k (sendRoot D secret id q)) k := by
    intro heq
    rw [hexpected] at heq
    obtain ⟨hchain, hlabel⟩ := hD.inj _ _ _ _ heq
    rcases Side.eq_or_other p q with rfl | rfl
    · exact sendRoot_apart hD hid q k state.recvCount hchain.symm
    · have hrecv : state.recvCount = k := hD.chain_inj hchain
      have hcounter : envelope.counter = k :=
        le_inj (by omega) (by omega) (List.reverse_inj.mp hlabel)
      omega
  have hsealed : envelope.ciphertext =
      P.aeadSeal (messageKey D (chain D nextLabel k (sendRoot D secret id q)) k) sent.nonce m :=
    hsame.symm.trans hgenuine.ciphertext
  unfold Opens
  rw [hsealed, hcommit _ _ _ _ _ hkeys]
  exact Bool.false_ne_true

/-- **A forged envelope with a large counter loses what is behind it**: the call fails, and none of
    the envelopes below its counter is decrypted any more. -/
theorem forged_loses (hcommit : P.Committing) (hD : FreeDerivation D) (hid : id .alice ≠ id .bob)
    (h : InStep P D secret id w) (p : Side) {forged : RatchetEnvelope Key}
    (hforged : ¬ Opens P D (w.state p) forged) (hahead : (w.state p).recvCount ≤ forged.counter) :
    ∃ state', ratchetDecryptChecked P D (w.state p) forged =
        some (.error "Ratchet decryption failed", state') ∧
      ∀ k envelope m, k < forged.counter → (w.sent p.other)[k]? = some (envelope, m) →
        ratchetDecryptChecked P D state' envelope =
          some (.error "Ratchet decryption failed", state') := by
  refine ⟨_, ratchetDecryptChecked_closed hforged, fun k envelope m hk hget => ?_⟩
  have hcount : (caughtUp D (w.state p) forged.counter).recvCount = forged.counter :=
    Nat.add_sub_cancel' hahead
  have hreceives :
      Receives D (sendRoot D secret id p.other) (caughtUp D (w.state p) forged.counter) := by
    unfold Receives
    rw [hcount]
    show chain D nextLabel (forged.counter - (w.state p).recvCount) (w.state p).recvChainKey = _
    rw [h.receives p, chain_chain, Nat.add_sub_cancel' hahead]
  have hcounter := ((h.sends p.other).genuine k envelope m hget).counter
  have hold : envelope.counter < (caughtUp D (w.state p) forged.counter).recvCount := by
    rw [hcount, hcounter]
    exact hk
  have hclosed := made_closed hcommit hD hid h hreceives hold
    ⟨p.other, _, List.mem_of_getElem? hget, rfl⟩
  rw [ratchetDecryptChecked_closed hclosed, caughtUp_eq_self (Nat.le_of_lt hold)]

/-! ## 5. Deliveries -/

theorem inStep_reach (hP : P.Lawful) (hid : id .alice ≠ id .bob)
    (h : Reach (· = World.start D secret id) (Step P D) w) : InStep P D secret id w := by
  refine h.inv (fun s hs => ?_) fun s e s' hi hs => hi.step hP hs
  rw [hs]
  exact inStep_start hid

/-- **Gaps do no harm, and what is old is rejected**: in every run of `ratchet_encrypt` calls and
    deliveries in order, with any losses, each envelope that is given next is decrypted to its
    plaintext; and one whose counter is below `recv_count` is rejected and changes nothing, be it
    old, or made up of the ciphertexts of the run, or forged. -/
theorem legacy_delivers (hP : P.Lawful) (hcommit : P.Committing) (hD : FreeDerivation D)
    (hid : id .alice ≠ id .bob) (h : Reach (· = World.start D secret id) (Step P D) w) (p : Side) :
    (∀ k envelope m, w.next p ≤ k → (w.sent p.other)[k]? = some (envelope, m) →
      ∃ state', ratchetDecryptChecked P D (w.state p) envelope = some (.ok m, state')) ∧
    ∀ envelope : RatchetEnvelope Key, envelope.counter < (w.state p).recvCount →
      (Opens P D (w.state p) envelope → w.Made envelope.ciphertext) →
      ratchetDecryptChecked P D (w.state p) envelope =
        some (.error "Ratchet decryption failed", w.state p) := by
  have hstep := inStep_reach hP hid h
  refine ⟨fun k envelope m hnext hsent => ?_, fun envelope hold hforged => ?_⟩
  · obtain ⟨state', hcall, -⟩ := hstep.delivered hP hnext hsent
    exact ⟨state', hcall⟩
  · have hclosed : ¬ Opens P D (w.state p) envelope := fun hopen =>
      made_closed hcommit hD hid hstep (hstep.receives p) hold (hforged hopen) hopen
    rw [ratchetDecryptChecked_closed hclosed, caughtUp_eq_self (Nat.le_of_lt hold)]

end

def sideId : Side → String
  | .alice => "a"
  | .bob => "b"

/-- The first of two messages is lost, the second is decrypted. -/
theorem legacy_delivers_second : ∃ w : World Sym,
    Reach (· = World.start Sym.derive (.secret 0) sideId) (Step symbolic Sym.derive) w ∧
    ∃ envelope state', (w.sent .alice)[1]? = some (envelope, [2]) ∧
      ratchetDecryptChecked symbolic Sym.derive (w.state .bob) envelope =
        some (.ok [2], state') := by
  have hstart : Reach (· = World.start Sym.derive (.secret 0) sideId) (Step symbolic Sym.derive)
      (World.start Sym.derive (.secret 0) sideId) := .start _ rfl
  have hfirst := hstart.step _ _ _ (.encrypt _ .alice (Vector.replicate 12 0) [1] rfl)
  have hsecond := hfirst.step _ _ _ (.encrypt _ .alice (Vector.replicate 12 0) [2] rfl)
  obtain ⟨state', hcall⟩ :=
    (legacy_delivers symbolic_lawful symbolic_ideal.committing Sym.derive_free
    (by decide) hsecond .bob).1 1 _ _ (Nat.zero_le 1) rfl
  exact ⟨_, hsecond, _, state', rfl, hcall⟩

end AlterChat.LegacyRatchet
