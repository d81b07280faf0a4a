import AlterChat.Lib.Primitives
import Mathlib.Algebra.Notation.Defs

/-!
# `double_ratchet.rs`: the state and its operations

The functions of `alterchat-core/src/double_ratchet.rs` over `Lib.Primitives`, state passing. A
function that takes `&mut DrState` and returns a `Result` is here a function to the result AND the
state it leaves behind, on the error paths too: what a failing call has already written stays
written. A random draw (`StaticSecret::random_from_rng`, `generate_nonce`) is an argument.

`u64` counters are natural numbers: a chain would have to be 2^64 messages long to tell, or the
state that is stored be changed by hand; `RatchetCounters` has the additions of `decrypt` as a build
does them. `0 : Key` is `[0u8; 32]`.

* §1 the types, §2 the key derivations, §3 `init_alice`, `init_bob`, §4 `encrypt`, §5 `decrypt` and
  what it calls;
* §6 the skip loop in closed form (`skipLoop_eq`);
* §7 `decrypt_cases`: every way a call of `decrypt` can go, with the state it leaves. The proofs
  about `decrypt` go through it and unfold nothing.
-/

namespace AlterChat.DoubleRatchet

open Lib

variable {Key : Type}

/-! ## 1. Types -/

/-- The most message keys one call skips in one chain. -/
def MAX_SKIP : Nat := 1000

/-- A message key kept for a message that has not arrived yet. -/
structure SkippedKey (Key : Type) where entry ::
  dhPub : Key
  n : Nat
  mk : Key
  deriving DecidableEq

structure DrState (Key : Type) where
  dhSend : Key
  dhSendPub : Key
  dhRecv : Option Key
  rootKey : Key
  ckSend : Option Key
  ckRecv : Option Key
  nSend : Nat
  nRecv : Nat
  pn : Nat
  skipped : List (SkippedKey Key)
  deriving DecidableEq

structure DrHeader (Key : Type) where
  dh : Key
  pn : Nat
  n : Nat
  deriving DecidableEq

structure DrEnvelope (Key : Type) where
  header : DrHeader Key
  nonce : Nonce
  ciphertext : Bytes
  deriving DecidableEq

/-! ## 2. Key derivations -/

/-- `kdf_rk`: the next root key and a chain key. -/
def kdfRk (P : Primitives Key) (rk dhOut : Key) : Key × Key :=
  (P.hkdf rk (some dhOut) "root", P.hkdf rk (some dhOut) "chain")

/-- `kdf_ck`: the next chain key and a message key. -/
def kdfCk (P : Primitives Key) (ck : Key) : Key × Key :=
  (P.hkdf ck none "chain", P.hkdf ck none "msg")

/-- The chain key after `j` messages. -/
def chainKey (P : Primitives Key) (ck : Key) (j : Nat) : Key :=
  (fun c => (kdfCk P c).1)^[j] ck

/-- The key of message `j` of the chain that starts at `ck`. -/
def messageKey (P : Primitives Key) (ck : Key) (j : Nat) : Key :=
  (kdfCk P (chainKey P ck j)).2

@[simp] theorem chainKey_zero (P : Primitives Key) (ck : Key) : chainKey P ck 0 = ck := rfl

theorem chainKey_succ (P : Primitives Key) (ck : Key) (j : Nat) :
    chainKey P ck (j + 1) = (kdfCk P (chainKey P ck j)).1 :=
  Function.iterate_succ_apply' _ _ _

theorem chainKey_chainKey (P : Primitives Key) (ck : Key) (i j : Nat) :
    chainKey P (chainKey P ck i) j = chainKey P ck (i + j) := by
  unfold chainKey
  rw [← Function.iterate_add_apply, Nat.add_comm]

theorem messageKey_chainKey (P : Primitives Key) (ck : Key) (i j : Nat) :
    messageKey P (chainKey P ck i) j = messageKey P ck (i + j) := by
  unfold messageKey
  rw [chainKey_chainKey]

/-! ## 3. Start states -/

/-- `init_alice`, with the secret it draws. -/
def initAlice (P : Primitives Key) (dhSendSecret sk bobDhPub : Key) : DrState Key :=
  let dhOut := P.diffieHellman dhSendSecret bobDhPub
  { dhSend := dhSendSecret
    dhSendPub := P.publicKey dhSendSecret
    dhRecv := some bobDhPub
    rootKey := (kdfRk P sk dhOut).1
    ckSend := some (kdfRk P sk dhOut).2
    ckRecv := none
    nSend := 0
    nRecv := 0
    pn := 0
    skipped := [] }

/-- `init_bob`. -/
def initBob (sk bobDhSecret bobDhPub : Key) : DrState Key :=
  { dhSend := bobDhSecret
    dhSendPub := bobDhPub
    dhRecv := none
    rootKey := sk
    ckSend := none
    ckRecv := none
    nSend := 0
    nRecv := 0
    pn := 0
    skipped := [] }

/-! ## 4. `encrypt` -/

/-- `encrypt`, with the nonce it draws. The send chain is advanced before the cipher is asked. -/
def encrypt (P : Primitives Key) (nonce : Nonce) (state : DrState Key) (plaintext : Bytes) :
    Except String (DrEnvelope Key) × DrState Key :=
  match state.ckSend with
  | none => (.error "No send chain key", state)
  | some ck =>
    let state := { state with ckSend := some (kdfCk P ck).1 }
    match P.encrypt (kdfCk P ck).2 nonce plaintext with
    | none => (.error "Encryption failed", state)
    | some ciphertext =>
      let header := { dh := state.dhSendPub, pn := state.pn, n := state.nSend }
      (.ok { header, nonce, ciphertext }, { state with nSend := state.nSend + 1 })

theorem encrypt_no_chain (P : Primitives Key) (nonce : Nonce) {s : DrState Key} (m : Bytes)
    (h : s.ckSend = none) : encrypt P nonce s m = (.error "No send chain key", s) := by
  simp [encrypt, h]

theorem encrypt_refused {P : Primitives Key} (nonce : Nonce) {s : DrState Key}
    {m : Bytes} {ck : Key} (h : s.ckSend = some ck) (hm : P.accepts m = false) :
    encrypt P nonce s m =
      (.error "Encryption failed", { s with ckSend := some (kdfCk P ck).1 }) := by
  simp [encrypt, h, hm]

theorem encrypt_ok {P : Primitives Key} (nonce : Nonce) {s : DrState Key} {m : Bytes} {ck : Key}
    (h : s.ckSend = some ck) (hm : P.accepts m = true) :
    encrypt P nonce s m =
      (.ok { header := { dh := s.dhSendPub, pn := s.pn, n := s.nSend }, nonce,
             ciphertext := P.aeadSeal (kdfCk P ck).2 nonce m },
       { s with ckSend := some (kdfCk P ck).1, nSend := s.nSend + 1 }) := by
  simp [encrypt, h, hm]

/-! ## 5. `decrypt` -/

/-- `decrypt_with_key`. -/
def decryptWithKey (P : Primitives Key) (mk : Key) (envelope : DrEnvelope Key) :
    Except String Bytes :=
  match P.aeadOpen mk envelope.nonce envelope.ciphertext with
  | none => .error "Decryption failed"
  | some plaintext => .ok plaintext

/-- One round of the loop of `skip_message_keys`. -/
def skipOne (P : Primitives Key) [Zero Key] (state : DrState Key) : DrState Key :=
  match state.ckRecv with
  | none => state
  | some ck =>
    { state with
      ckRecv := some (kdfCk P ck).1
      skipped := state.skipped ++ [⟨state.dhRecv.getD 0, state.nRecv, (kdfCk P ck).2⟩]
      nRecv := state.nRecv + 1 }

/-- `k` rounds of the loop. -/
def skipLoop (P : Primitives Key) [Zero Key] : Nat → DrState Key → DrState Key
  | 0, state => state
  | k + 1, state => skipLoop P k (skipOne P state)

/-- `skip_message_keys`. Each round raises `n_recv` by one, so `while n_recv < until` runs
    `until - n_recv` rounds. -/
def skipMessageKeys (P : Primitives Key) [Zero Key] (state : DrState Key) (til : Nat) :
    Except String Unit × DrState Key :=
  if state.nRecv + MAX_SKIP < til then (.error "Too many skipped messages", state)
  else if state.ckRecv.isNone then (.ok (), state)
  else (.ok (), skipLoop P (til - state.nRecv) state)

/-- `dh_ratchet`, with the secret it draws. -/
def dhRatchet (P : Primitives Key) (newSecret : Key) (state : DrState Key) (headerDh : Key) :
    DrState Key :=
  let dhOut := P.diffieHellman state.dhSend headerDh
  let newRk := (kdfRk P state.rootKey dhOut).1
  let ckRecv := (kdfRk P state.rootKey dhOut).2
  let dhOut2 := P.diffieHellman newSecret headerDh
  { state with
    pn := state.nSend
    nSend := 0
    nRecv := 0
    dhRecv := some headerDh
    ckRecv := some ckRecv
    rootKey := (kdfRk P newRk dhOut2).1
    dhSend := newSecret
    dhSendPub := P.publicKey newSecret
    ckSend := some (kdfRk P newRk dhOut2).2 }

section

variable [DecidableEq Key]

/-- Whether a stored key is the one a header asks for. -/
def SkippedKey.isFor (h : DrHeader Key) (k : SkippedKey Key) : Bool :=
  decide (k.dhPub = h.dh) && decide (k.n = h.n)

/-- `try_skipped`: the key is removed before the cipher is asked. -/
def trySkipped (P : Primitives Key) (state : DrState Key) (envelope : DrEnvelope Key) :
    Except String (Option Bytes) × DrState Key :=
  match state.skipped.find? (SkippedKey.isFor envelope.header) with
  | none => (.ok none, state)
  | some sk =>
    let state := { state with skipped := state.skipped.eraseP (SkippedKey.isFor envelope.header) }
    match decryptWithKey P sk.mk envelope with
    | .error e => (.error e, state)
    | .ok plaintext => (.ok (some plaintext), state)

/-- `need_dh_ratchet` of `decrypt`. -/
def needDhRatchet (state : DrState Key) (header : DrHeader Key) : Bool :=
  match state.dhRecv with
  | none => true
  | some r => decide (r ≠ header.dh)

variable [Zero Key]

/-- The `if need_dh_ratchet { … }` block of `decrypt`. -/
def ratchetBlock (P : Primitives Key) (newSecret : Key) (state : DrState Key)
    (header : DrHeader Key) : Except String Unit × DrState Key :=
  if needDhRatchet state header then
    match skipMessageKeys P state header.pn with
    | (.error e, state) => (.error e, state)
    | (.ok (), state) => (.ok (), dhRatchet P newSecret state header.dh)
  else (.ok (), state)

/-- `decrypt`, with the secret a ratchet step of it draws. -/
def decrypt (P : Primitives Key) (newSecret : Key) (state : DrState Key)
    (envelope : DrEnvelope Key) : Except String Bytes × DrState Key :=
  match trySkipped P state envelope with
  | (.error e, state) => (.error e, state)
  | (.ok (some plaintext), state) => (.ok plaintext, state)
  | (.ok none, state) =>
    match ratchetBlock P newSecret state envelope.header with
    | (.error e, state) => (.error e, state)
    | (.ok (), state) =>
      match skipMessageKeys P state envelope.header.n with
      | (.error e, state) => (.error e, state)
      | (.ok (), state) =>
        match state.ckRecv with
        | none => (.error "No recv chain key", state)
        | some ck =>
          (decryptWithKey P (kdfCk P ck).2 envelope,
           { state with ckRecv := some (kdfCk P ck).1, nRecv := state.nRecv + 1 })

end

/-! ## 6. The skip loop in closed form -/

/-- The keys the loop stores: messages `n`, …, `n + k - 1` of the chain under `dhPub`, where `ck` is
    the chain key at `n`. -/
def skippedKeys (P : Primitives Key) (dhPub ck : Key) (n k : Nat) : List (SkippedKey Key) :=
  (List.range k).map fun j => ⟨dhPub, n + j, messageKey P ck j⟩

theorem skippedKeys_succ (P : Primitives Key) (dhPub ck : Key) (n k : Nat) :
    skippedKeys P dhPub ck n (k + 1) =
      ⟨dhPub, n, (kdfCk P ck).2⟩ :: skippedKeys P dhPub (kdfCk P ck).1 (n + 1) k := by
  unfold skippedKeys
  rw [List.range_succ_eq_map, List.map_cons, List.map_map]
  refine congrArg₂ _ rfl (List.map_congr_left fun j _ => ?_)
  have hc : chainKey P (kdfCk P ck).1 j = chainKey P ck (j + 1) := by
    have := chainKey_chainKey P ck 1 j
    rwa [Nat.add_comm] at this
  simp [messageKey, hc, Nat.add_assoc, Nat.add_comm 1 j]

section

variable [Zero Key]

/-- **What `k` rounds of the loop leave**: the chain `k` keys further, and these keys stored. -/
theorem skipLoop_eq (P : Primitives Key) (k : Nat) (s : DrState Key) (ck : Key)
    (h : s.ckRecv = some ck) :
    skipLoop P k s =
      { s with
        ckRecv := some (chainKey P ck k)
        nRecv := s.nRecv + k
        skipped := s.skipped ++ skippedKeys P (s.dhRecv.getD 0) ck s.nRecv k } := by
  induction k generalizing s ck with
  | zero =>
    cases s
    simp only at h
    simp [skipLoop, skippedKeys, h]
  | succ k ih =>
    have h1 : (skipOne P s).ckRecv = some (kdfCk P ck).1 := by simp [skipOne, h]
    rw [skipLoop, ih _ _ h1, skippedKeys_succ]
    have hc : chainKey P (kdfCk P ck).1 k = chainKey P ck (k + 1) := by
      have := chainKey_chainKey P ck 1 k
      rwa [Nat.add_comm] at this
    simp [skipOne, h, hc, Nat.add_assoc, Nat.add_comm 1 k]

/-- The loop is the `while` of the source: it stops at `til`, and below it runs one more round. -/
theorem skipLoop_while (P : Primitives Key) (s : DrState Key) (til : Nat) (h : s.ckRecv.isSome) :
    skipLoop P (til - s.nRecv) s =
      if s.nRecv < til then skipLoop P (til - (skipOne P s).nRecv) (skipOne P s) else s := by
  obtain ⟨ck, hck⟩ := Option.isSome_iff_exists.mp h
  split
  · next hlt =>
    have hn : (skipOne P s).nRecv = s.nRecv + 1 := by simp [skipOne, hck]
    obtain ⟨k, hk⟩ : ∃ k, til - s.nRecv = k + 1 := ⟨til - s.nRecv - 1, by omega⟩
    have hk' : til - (skipOne P s).nRecv = k := by omega
    rw [hk, hk', skipLoop]
  · next hge =>
    have h0 : til - s.nRecv = 0 := by omega
    rw [h0, skipLoop]

/-- The state a skip to `til` leaves when it is within `MAX_SKIP`. -/
def skipTo (P : Primitives Key) (s : DrState Key) (til : Nat) : DrState Key :=
  match s.ckRecv with
  | none => s
  | some ck =>
    { s with
      ckRecv := some (chainKey P ck (til - s.nRecv))
      nRecv := s.nRecv + (til - s.nRecv)
      skipped := s.skipped ++
        skippedKeys P (s.dhRecv.getD 0) ck s.nRecv (til - s.nRecv) }

theorem skipMessageKeys_far {P : Primitives Key} {s : DrState Key} {til : Nat}
    (h : s.nRecv + MAX_SKIP < til) :
    skipMessageKeys P s til = (.error "Too many skipped messages", s) := by
  simp [skipMessageKeys, h]

theorem skipMessageKeys_near {P : Primitives Key} {s : DrState Key} {til : Nat}
    (h : til ≤ s.nRecv + MAX_SKIP) : skipMessageKeys P s til = (.ok (), skipTo P s til) := by
  have hn : ¬ s.nRecv + MAX_SKIP < til := by omega
  unfold skipMessageKeys skipTo
  rw [if_neg hn]
  cases hck : s.ckRecv with
  | none => simp
  | some ck =>
    rw [if_neg (by simp)]
    simp only [skipLoop_eq P _ s ck hck]

end

/-! ## 7. Every way `decrypt` can go -/

section

variable [DecidableEq Key] [Zero Key] {P : Primitives Key} {r : Key} {s : DrState Key}
  {e : DrEnvelope Key}

theorem decrypt_skipped {k : SkippedKey Key}
    (h : s.skipped.find? (SkippedKey.isFor e.header) = some k) :
    decrypt P r s e = (decryptWithKey P k.mk e,
      { s with skipped := s.skipped.eraseP (SkippedKey.isFor e.header) }) := by
  unfold decrypt trySkipped
  simp only [h]
  cases hd : decryptWithKey P k.mk e <;> rfl

/-- What is left of `decrypt` once no stored key is found: the ratchet block, the skip, the key. -/
theorem decrypt_not_skipped (h : s.skipped.find? (SkippedKey.isFor e.header) = none) :
    decrypt P r s e =
      match ratchetBlock P r s e.header with
      | (.error x, s) => (.error x, s)
      | (.ok (), s) =>
        match skipMessageKeys P s e.header.n with
        | (.error x, s) => (.error x, s)
        | (.ok (), s) =>
          match s.ckRecv with
          | none => (.error "No recv chain key", s)
          | some ck => (decryptWithKey P (kdfCk P ck).2 e,
              { s with ckRecv := some (kdfCk P ck).1, nRecv := s.nRecv + 1 }) := by
  rw [decrypt, trySkipped, h]

/-- The chain of the header is the current one, but the header asks for too many keys. -/
theorem decrypt_current_far (h : s.skipped.find? (SkippedKey.isFor e.header) = none)
    (hr : needDhRatchet s e.header = false) (hn : s.nRecv + MAX_SKIP < e.header.n) :
    decrypt P r s e = (.error "Too many skipped messages", s) := by
  rw [decrypt_not_skipped h]
  simp [ratchetBlock, hr, skipMessageKeys_far hn]

/-- No ratchet step and no receiving chain: nothing is written. -/
theorem decrypt_no_chain (h : s.skipped.find? (SkippedKey.isFor e.header) = none)
    (hr : needDhRatchet s e.header = false) (hn : e.header.n ≤ s.nRecv + MAX_SKIP)
    (hck : s.ckRecv = none) :
    decrypt P r s e = (.error "No recv chain key", s) := by
  rw [decrypt_not_skipped h]
  simp [ratchetBlock, hr, skipMessageKeys_near hn, skipTo, hck]

/-- The state after a message of the current chain has been tried. -/
def afterCurrent (P : Primitives Key) (s : DrState Key) (ck : Key) (n : Nat) : DrState Key :=
  { s with
    ckRecv := some (chainKey P ck (n - s.nRecv + 1))
    nRecv := s.nRecv + (n - s.nRecv) + 1
    skipped := s.skipped ++
      skippedKeys P (s.dhRecv.getD 0) ck s.nRecv (n - s.nRecv) }

/-- A message of the current chain, within the limit. -/
theorem decrypt_current {ck : Key} (h : s.skipped.find? (SkippedKey.isFor e.header) = none)
    (hr : needDhRatchet s e.header = false) (hn : e.header.n ≤ s.nRecv + MAX_SKIP)
    (hck : s.ckRecv = some ck) :
    decrypt P r s e = (decryptWithKey P (messageKey P ck (e.header.n - s.nRecv)) e,
      afterCurrent P s ck e.header.n) := by
  rw [decrypt_not_skipped h]
  simp [ratchetBlock, hr, skipMessageKeys_near hn, skipTo, hck, afterCurrent, messageKey,
    chainKey_succ]

/-- A ratchet step is due, but the header's `pn` asks for too many keys of the old chain. -/
theorem decrypt_ratchet_far (h : s.skipped.find? (SkippedKey.isFor e.header) = none)
    (hr : needDhRatchet s e.header = true) (hp : s.nRecv + MAX_SKIP < e.header.pn) :
    decrypt P r s e = (.error "Too many skipped messages", s) := by
  rw [decrypt_not_skipped h]
  simp [ratchetBlock, hr, skipMessageKeys_far hp]

/-- The state after the ratchet step of `decrypt`. -/
def afterRatchet (P : Primitives Key) (r : Key) (s : DrState Key) (h : DrHeader Key) :
    DrState Key :=
  dhRatchet P r (skipTo P s h.pn) h.dh

theorem ratchetBlock_near {h : DrHeader Key} (hr : needDhRatchet s h = true)
    (hp : h.pn ≤ s.nRecv + MAX_SKIP) :
    ratchetBlock P r s h = (.ok (), afterRatchet P r s h) := by
  simp [ratchetBlock, hr, skipMessageKeys_near hp, afterRatchet]

/-- The receiving chain key a ratchet step derives. -/
def ratchetChain (P : Primitives Key) (s : DrState Key) (dh : Key) : Key :=
  (kdfRk P s.rootKey (P.diffieHellman s.dhSend dh)).2

omit [DecidableEq Key] in
@[simp] theorem afterRatchet_nRecv (h : DrHeader Key) : (afterRatchet P r s h).nRecv = 0 := rfl

omit [DecidableEq Key] in
@[simp] theorem afterRatchet_dhRecv (h : DrHeader Key) :
    (afterRatchet P r s h).dhRecv = some h.dh := rfl

omit [DecidableEq Key] in
@[simp] theorem skipTo_rootKey (n : Nat) : (skipTo P s n).rootKey = s.rootKey := by
  unfold skipTo; split <;> rfl

omit [DecidableEq Key] in
@[simp] theorem skipTo_dhSend (n : Nat) : (skipTo P s n).dhSend = s.dhSend := by
  unfold skipTo; split <;> rfl

omit [DecidableEq Key] in
@[simp] theorem skipTo_nSend (n : Nat) : (skipTo P s n).nSend = s.nSend := by
  unfold skipTo; split <;> rfl

omit [DecidableEq Key] in
theorem afterRatchet_ckRecv (h : DrHeader Key) :
    (afterRatchet P r s h).ckRecv = some (ratchetChain P s h.dh) := by
  simp [afterRatchet, dhRatchet, ratchetChain]

/-- After the ratchet step, a message number the new chain is not asked to skip to. -/
theorem decrypt_ratchet_far_new (h : s.skipped.find? (SkippedKey.isFor e.header) = none)
    (hr : needDhRatchet s e.header = true) (hp : e.header.pn ≤ s.nRecv + MAX_SKIP)
    (hn : MAX_SKIP < e.header.n) :
    decrypt P r s e = (.error "Too many skipped messages", afterRatchet P r s e.header) := by
  have hfar : (afterRatchet P r s e.header).nRecv + MAX_SKIP < e.header.n := by
    simpa using hn
  rw [decrypt_not_skipped h, ratchetBlock_near hr hp]
  simp only [skipMessageKeys_far hfar]

/-- A message of a new chain, within both limits. -/
theorem decrypt_ratchet (h : s.skipped.find? (SkippedKey.isFor e.header) = none)
    (hr : needDhRatchet s e.header = true) (hp : e.header.pn ≤ s.nRecv + MAX_SKIP)
    (hn : e.header.n ≤ MAX_SKIP) :
    decrypt P r s e =
      (decryptWithKey P (messageKey P (ratchetChain P s e.header.dh) e.header.n) e,
       afterCurrent P (afterRatchet P r s e.header) (ratchetChain P s e.header.dh) e.header.n) := by
  have hnear : e.header.n ≤ (afterRatchet P r s e.header).nRecv + MAX_SKIP := by
    simpa using hn
  rw [decrypt_not_skipped h, ratchetBlock_near hr hp]
  simp [skipMessageKeys_near hnear, skipTo, afterRatchet_ckRecv, afterCurrent, messageKey,
    chainKey_succ]

/-- The ways a call of `decrypt` can go, with what it returns and the state it leaves. -/
inductive DecryptCase (P : Primitives Key) (r : Key) (s : DrState Key) (e : DrEnvelope Key) :
    Except String Bytes × DrState Key → Prop where
  | skipped (k : SkippedKey Key) (h : s.skipped.find? (SkippedKey.isFor e.header) = some k) :
      DecryptCase P r s e (decryptWithKey P k.mk e,
        { s with skipped := s.skipped.eraseP (SkippedKey.isFor e.header) })
  | ratchetFar (h : s.skipped.find? (SkippedKey.isFor e.header) = none)
      (hr : needDhRatchet s e.header = true) (hp : s.nRecv + MAX_SKIP < e.header.pn) :
      DecryptCase P r s e (.error "Too many skipped messages", s)
  | ratchetFarNew (h : s.skipped.find? (SkippedKey.isFor e.header) = none)
      (hr : needDhRatchet s e.header = true) (hp : e.header.pn ≤ s.nRecv + MAX_SKIP)
      (hn : MAX_SKIP < e.header.n) :
      DecryptCase P r s e (.error "Too many skipped messages", afterRatchet P r s e.header)
  | ratchet (h : s.skipped.find? (SkippedKey.isFor e.header) = none)
      (hr : needDhRatchet s e.header = true) (hp : e.header.pn ≤ s.nRecv + MAX_SKIP)
      (hn : e.header.n ≤ MAX_SKIP) :
      DecryptCase P r s e
        (decryptWithKey P (messageKey P (ratchetChain P s e.header.dh) e.header.n) e,
         afterCurrent P (afterRatchet P r s e.header) (ratchetChain P s e.header.dh) e.header.n)
  | currentFar (h : s.skipped.find? (SkippedKey.isFor e.header) = none)
      (hr : needDhRatchet s e.header = false) (hn : s.nRecv + MAX_SKIP < e.header.n) :
      DecryptCase P r s e (.error "Too many skipped messages", s)
  | noChain (h : s.skipped.find? (SkippedKey.isFor e.header) = none)
      (hr : needDhRatchet s e.header = false) (hn : e.header.n ≤ s.nRecv + MAX_SKIP)
      (hck : s.ckRecv = none) :
      DecryptCase P r s e (.error "No recv chain key", s)
  | current (ck : Key) (h : s.skipped.find? (SkippedKey.isFor e.header) = none)
      (hr : needDhRatchet s e.header = false) (hn : e.header.n ≤ s.nRecv + MAX_SKIP)
      (hck : s.ckRecv = some ck) :
      DecryptCase P r s e (decryptWithKey P (messageKey P ck (e.header.n - s.nRecv)) e,
        afterCurrent P s ck e.header.n)

/-- **Every call of `decrypt` goes one of these ways.** -/
theorem decrypt_cases (P : Primitives Key) (r : Key) (s : DrState Key) (e : DrEnvelope Key) :
    DecryptCase P r s e (decrypt P r s e) := by
  cases hf : s.skipped.find? (SkippedKey.isFor e.header) with
  | some k =>
    rw [decrypt_skipped hf]
    exact .skipped k hf
  | none =>
    cases hr : needDhRatchet s e.header with
    | true =>
      rcases Nat.lt_or_ge (s.nRecv + MAX_SKIP) e.header.pn with hp | hp
      · rw [decrypt_ratchet_far hf hr hp]
        exact .ratchetFar hf hr hp
      · rcases Nat.lt_or_ge MAX_SKIP e.header.n with hn | hn
        · rw [decrypt_ratchet_far_new hf hr hp hn]
          exact .ratchetFarNew hf hr hp hn
        · rw [decrypt_ratchet hf hr hp hn]
          exact .ratchet hf hr hp hn
    | false =>
      rcases Nat.lt_or_ge (s.nRecv + MAX_SKIP) e.header.n with hn | hn
      · rw [decrypt_current_far hf hr hn]
        exact .currentFar hf hr hn
      · cases hck : s.ckRecv with
        | none =>
          rw [decrypt_no_chain hf hr hn hck]
          exact .noChain hf hr hn hck
        | some ck =>
          rw [decrypt_current hf hr hn hck]
          exact .current ck hf hr hn hck

/-- The sending key pair stays, or is the one of the secret drawn. -/
theorem decrypt_dhSendPub (P : Primitives Key) (r : Key) (s : DrState Key) (e : DrEnvelope Key) :
    (decrypt P r s e).2.dhSendPub = s.dhSendPub ∨
      (decrypt P r s e).2.dhSendPub = P.publicKey r := by
  have hc := decrypt_cases P r s e
  generalize decrypt P r s e = out at hc
  cases hc with
  | skipped => exact .inl rfl
  | ratchetFar => exact .inl rfl
  | ratchetFarNew => exact .inr rfl
  | ratchet => exact .inr rfl
  | currentFar => exact .inl rfl
  | noChain => exact .inl rfl
  | current => exact .inl rfl

end

end AlterChat.DoubleRatchet
