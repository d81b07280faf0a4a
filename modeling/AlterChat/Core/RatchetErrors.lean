import AlterChat.Core.DoubleRatchet
import AlterChat.Lib.Symbolic

/-!
# Failing calls of the double ratchet

`decrypt` and `encrypt` write to the state before the cipher is asked, and return early without
undoing it. This file says exactly when a failing call leaves the state as it was.

* `DecryptKeeps`, `EncryptKeeps` -- conditions on the state before the call and on its input:
  the message authenticates under the key the state holds for its header, or the call is refused
  before its first write; the cipher takes the plaintext, or there is no send chain;
* `decryptAtomic_iff`, `encryptAtomic_iff` -- a call is atomic exactly then, on every state;
* `errors_atomic_iff` -- both in one statement.
-/

namespace AlterChat.DoubleRatchet

open Lib

variable {Key : Type} [DecidableEq Key] [Zero Key]

/-- The states `encrypt` and `decrypt` calls lead to, on any input, failing calls included. -/
inductive Reachable (P : Primitives Key) : DrState Key → Prop where
  | alice (secret sk bobDhPub : Key) : Reachable P (initAlice P secret sk bobDhPub)
  | bob (sk bobDhSecret bobDhPub : Key) : Reachable P (initBob sk bobDhSecret bobDhPub)
  | encrypt (s : DrState Key) (nonce : Nonce) (m : Bytes) (h : Reachable P s) :
      Reachable P (encrypt P nonce s m).2
  | decrypt (s : DrState Key) (r : Key) (e : DrEnvelope Key) (h : Reachable P s) :
      Reachable P (decrypt P r s e).2

/-- If this call of `decrypt` fails, it changes nothing. -/
def DecryptAtomic (P : Primitives Key) (r : Key) (s : DrState Key) (e : DrEnvelope Key) : Prop :=
  ∀ x, (decrypt P r s e).1 = .error x → (decrypt P r s e).2 = s

omit [DecidableEq Key] [Zero Key] in
/-- If this call of `encrypt` fails, it changes nothing. -/
def EncryptAtomic (P : Primitives Key) (nonce : Nonce) (s : DrState Key) (m : Bytes) : Prop :=
  ∀ x, (encrypt P nonce s m).1 = .error x → (encrypt P nonce s m).2 = s

/-- The envelope authenticates under the key. -/
def Opens (P : Primitives Key) (mk : Key) (e : DrEnvelope Key) : Prop :=
  (P.aeadOpen mk e.nonce e.ciphertext).isSome = true

omit [DecidableEq Key] [Zero Key] in
theorem decryptWithKey_error_iff {P : Primitives Key} {mk : Key} {e : DrEnvelope Key} :
    (∃ x, decryptWithKey P mk e = .error x) ↔ ¬ Opens P mk e := by
  unfold decryptWithKey Opens
  cases P.aeadOpen mk e.nonce e.ciphertext <;> simp

/-- The condition for `decrypt`: the envelope authenticates under the key that the state holds for
    its header (stored, of the new chain, of the current chain), or one of the two checks that come
    before the first write refuses it. -/
def DecryptKeeps (P : Primitives Key) (s : DrState Key) (e : DrEnvelope Key) : Prop :=
  match s.skipped.find? (SkippedKey.isFor e.header) with
  | some k => Opens P k.mk e
  | none =>
    if needDhRatchet s e.header then
      s.nRecv + MAX_SKIP < e.header.pn ∨
        (e.header.n ≤ MAX_SKIP ∧
          Opens P (messageKey P (ratchetChain P s e.header.dh) e.header.n) e)
    else
      s.nRecv + MAX_SKIP < e.header.n ∨
        ∀ ck, s.ckRecv = some ck → Opens P (messageKey P ck (e.header.n - s.nRecv)) e

/-- The condition for `encrypt`: no send chain, or the cipher takes the plaintext, or the chain key
    is its own successor (which a key derivation without cycles excludes). -/
def EncryptKeeps (P : Primitives Key) (s : DrState Key) (m : Bytes) : Prop :=
  ∀ ck, s.ckSend = some ck → P.accepts m = true ∨ (kdfCk P ck).1 = ck

/-! ## Each write shows in the state -/

omit [DecidableEq Key] [Zero Key] in
theorem eraseP_skipped_ne {s : DrState Key} {p : SkippedKey Key → Bool} {k : SkippedKey Key}
    (h : s.skipped.find? p = some k) : { s with skipped := s.skipped.eraseP p } ≠ s := by
  intro e
  have hl : (s.skipped.eraseP p).length = s.skipped.length := congrArg (·.skipped.length) e
  have hk := List.length_eraseP_of_mem (List.mem_of_find?_eq_some h) (List.find?_some h)
  have hpos := List.length_pos_of_mem (List.mem_of_find?_eq_some h)
  omega

omit [DecidableEq Key] in
theorem afterCurrent_ne {P : Primitives Key} {s : DrState Key} {ck : Key} {n : Nat} :
    afterCurrent P s ck n ≠ s := by
  intro e
  have hn : s.nRecv + (n - s.nRecv) + 1 = s.nRecv := congrArg (·.nRecv) e
  omega

omit [Zero Key] in
/-- A ratchet step moves `dh_recv` to a key that was not there. -/
theorem dhRecv_ne_of_need {s : DrState Key} {h : DrHeader Key} (hr : needDhRatchet s h = true) :
    some h.dh ≠ s.dhRecv := by
  unfold needDhRatchet at hr
  split at hr
  · next hn => rw [hn]; exact Option.some_ne_none _
  · next r hs =>
    rw [hs]
    intro e
    exact absurd (Option.some.inj e).symm (of_decide_eq_true hr)

theorem afterRatchet_ne {P : Primitives Key} {r : Key} {s : DrState Key} {h : DrHeader Key}
    (hr : needDhRatchet s h = true) : afterRatchet P r s h ≠ s := fun e =>
  dhRecv_ne_of_need hr (congrArg (·.dhRecv) e)

theorem afterRatchet_current_ne {P : Primitives Key} {r : Key} {s : DrState Key}
    {h : DrHeader Key} {ck : Key} {n : Nat} (hr : needDhRatchet s h = true) :
    afterCurrent P (afterRatchet P r s h) ck n ≠ s := fun e =>
  dhRecv_ne_of_need hr (congrArg (·.dhRecv) e)

/-! ## The exact conditions -/

omit [DecidableEq Key] [Zero Key] in
/-- The shape every branch that asks the cipher has: the state is changed either way, so the call
    is atomic exactly when the cipher opens the envelope. -/
theorem atomic_iff_opens {P : Primitives Key} {mk : Key} {s s' : DrState Key}
    {e : DrEnvelope Key} (hne : s' ≠ s) :
    (∀ x, decryptWithKey P mk e = .error x → s' = s) ↔ Opens P mk e := by
  constructor
  · intro h
    by_contra ho
    obtain ⟨x, hx⟩ := decryptWithKey_error_iff.mpr ho
    exact hne (h x hx)
  · intro ho x hx
    exact absurd ho (decryptWithKey_error_iff.mp ⟨x, hx⟩)

/-- **`decrypt` is atomic on errors exactly when `DecryptKeeps` holds.** -/
theorem decryptAtomic_iff (P : Primitives Key) (r : Key) (s : DrState Key) (e : DrEnvelope Key) :
    DecryptAtomic P r s e ↔ DecryptKeeps P s e := by
  have hc := decrypt_cases P r s e
  unfold DecryptAtomic DecryptKeeps
  generalize decrypt P r s e = out at hc
  cases hc with
  | skipped k h =>
    simp only [h]
    exact atomic_iff_opens (eraseP_skipped_ne h)
  | ratchetFar h hr hp => simp [h, hr, hp]
  | ratchetFarNew h hr hp hn =>
    have hp' : ¬ s.nRecv + MAX_SKIP < e.header.pn := by omega
    have hn' : ¬ e.header.n ≤ MAX_SKIP := by omega
    simp [h, hr, hp', hn', afterRatchet_ne hr]
  | ratchet h hr hp hn =>
    have hp' : ¬ s.nRecv + MAX_SKIP < e.header.pn := by omega
    simp only [h, hr, if_true, hp', hn, false_or, true_and]
    exact atomic_iff_opens (afterRatchet_current_ne hr)
  | currentFar h hr hn => simp [h, hr, hn]
  | noChain h hr hn hck => simp [h, hr, hck]
  | current ck h hr hn hck =>
    have hn' : ¬ s.nRecv + MAX_SKIP < e.header.n := by omega
    simp only [h, hr, Bool.false_eq_true, if_false, hn', false_or, hck, Option.some.injEq,
      forall_eq']
    exact atomic_iff_opens afterCurrent_ne

omit [DecidableEq Key] [Zero Key] in
/-- **`encrypt` is atomic on errors exactly when `EncryptKeeps` holds.** -/
theorem encryptAtomic_iff (P : Primitives Key) (nonce : Nonce) (s : DrState Key) (m : Bytes) :
    EncryptAtomic P nonce s m ↔ EncryptKeeps P s m := by
  unfold EncryptAtomic EncryptKeeps
  cases hck : s.ckSend with
  | none => simp [encrypt_no_chain P nonce m hck]
  | some ck =>
    cases hm : P.accepts m with
    | true => simp [encrypt_ok nonce hck hm]
    | false =>
      simp only [encrypt_refused nonce hck hm, Except.error.injEq, forall_eq', Option.some.injEq,
        Bool.false_eq_true, false_or]
      constructor
      · intro e
        have := congrArg (·.ckSend) e
        simpa [hck] using this
      · intro e
        rw [e, ← hck]

/-- **Error atomicity of the double ratchet, exactly**: a failing call leaves the state as it was
    if and only if the envelope authenticates or is refused before the first write (`decrypt`), and
    the cipher takes the plaintext or there is no send chain (`encrypt`). -/
theorem errors_atomic_iff (P : Primitives Key) :
    (∀ r s e, DecryptAtomic P r s e ↔ DecryptKeeps P s e) ∧
    (∀ nonce s m, EncryptAtomic P nonce s m ↔ EncryptKeeps P s m) :=
  ⟨decryptAtomic_iff P, encryptAtomic_iff P⟩

/-- What was sealed under a key that is no message key makes a ratchet step fail after its
    writes. -/
theorem ratchet_not_atomic {P : Primitives Key} (hP : P.Ideal) {r : Key} {s : DrState Key}
    {e : DrEnvelope Key} {k : Key} {n : Nonce} {m : Bytes}
    (hf : s.skipped.find? (SkippedKey.isFor e.header) = none)
    (hr : needDhRatchet s e.header = true) (hp : e.header.pn ≤ s.nRecv + MAX_SKIP)
    (hk : ∀ ck j, messageKey P ck j ≠ k) (he : e.ciphertext = P.aeadSeal k n m) :
    ¬ DecryptAtomic P r s e := by
  rw [decryptAtomic_iff]
  simp only [DecryptKeeps, hf, hr, if_true, Opens, he, hP.open_other (hk _ _),
    Option.isSome_none, Bool.false_eq_true, and_false, or_false]
  omega

omit [DecidableEq Key] [Zero Key] in
/-- A plaintext the cipher refuses makes `encrypt` fail after it has moved the chain. -/
theorem refused_not_atomic {P : Primitives Key} (hP : P.Ideal) {nonce : Nonce} {s : DrState Key}
    {m : Bytes} {ck : Key} (hck : s.ckSend = some ck) (hm : P.accepts m = false) :
    ¬ EncryptAtomic P nonce s m := by
  rw [encryptAtomic_iff]
  intro h
  rcases h ck hck with ha | hc
  · rw [hm] at ha
    cases ha
  · have := hP.iterate_inj none "chain" (m := 1) (n := 0) hc
    omega

/-- An envelope sealed under a key of the sender's own choice, with a public key of its own in the
    header. -/
def forged : DrEnvelope Sym :=
  { header := { dh := .point 7, pn := 0, n := 0 }
    nonce := Vector.replicate 12 0
    ciphertext := symbolic.aeadSeal (.secret 5) (Vector.replicate 12 0) [] }

/-- The forged envelope makes `decrypt` fail and rewrites a fresh responder state; the oversized
    plaintext makes `encrypt` fail and advances a fresh initiator's send chain. -/
theorem errors_not_atomic :
    (Reachable symbolic (initBob (.secret 3) (.secret 0) (.point 0)) ∧
      ¬ DecryptAtomic symbolic (.secret 9) (initBob (.secret 3) (.secret 0) (.point 0)) forged) ∧
    (Reachable symbolic (initAlice symbolic (.secret 1) (.secret 3) (.point 0)) ∧
      ¬ EncryptAtomic symbolic (Vector.replicate 12 0)
        (initAlice symbolic (.secret 1) (.secret 3) (.point 0)) oversized) :=
  ⟨⟨.bob _ _ _, ratchet_not_atomic symbolic_ideal rfl rfl (Nat.zero_le _)
      (fun _ _ => Sym.noConfusion) rfl⟩,
    ⟨.alice _ _ _, refused_not_atomic symbolic_ideal rfl oversized_refused⟩⟩

end AlterChat.DoubleRatchet
