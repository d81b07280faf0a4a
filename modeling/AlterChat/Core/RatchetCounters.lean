import AlterChat.Core.DoubleRatchet
import AlterChat.Lib.Overflow

/-!
# `double_ratchet.rs`: the counters

`skip_message_keys` adds `MAX_SKIP` to `n_recv` before it compares, and `decrypt` adds one to
`n_recv` at its end; both are `u64`, and a state is whatever could be read of a row. The other
counters are copied or set back by `decrypt`, and the loop of `skip_message_keys` stops at a number
that a header has.

* §1 the two functions, with these additions as a build does them;
* §2 `CountersFit`, `decryptIn_eq` -- where nothing overflows, both builds compute `decrypt`;
* §3 `decryptIn_isSome_iff` -- when a call returns.
-/

namespace AlterChat.DoubleRatchet

open Lib

variable {Key : Type}

/-! ## 1. The calls -/

/-- The end of `decrypt`: the key of the message is taken off the chain. -/
def takeMessageKey (b : Build) (P : Primitives Key) (state : DrState Key)
    (envelope : DrEnvelope Key) : Option (Except String Bytes × DrState Key) :=
  match state.ckRecv with
  | none => some (.error "No recv chain key", state)
  | some ck =>
    (b.unsigned 64 (state.nRecv + 1)).map fun nRecv =>
      (decryptWithKey P (kdfCk P ck).2 envelope,
        { state with ckRecv := some (kdfCk P ck).1, nRecv })

variable [Zero Key]

/-- `skip_message_keys`. -/
def skipMessageKeysIn (b : Build) (P : Primitives Key) (state : DrState Key) (til : Nat) :
    Option (Except String Unit × DrState Key) :=
  (b.unsigned 64 (state.nRecv + MAX_SKIP)).map fun bound =>
    if bound < til then (.error "Too many skipped messages", state)
    else if state.ckRecv.isNone then (.ok (), state)
    else (.ok (), skipLoop P (til - state.nRecv) state)

/-- What `decrypt` does in a chain, the one there is or the one it has made. -/
def readChain (b : Build) (P : Primitives Key) (state : DrState Key) (envelope : DrEnvelope Key) :
    Option (Except String Bytes × DrState Key) :=
  match skipMessageKeysIn b P state envelope.header.n with
  | none => none
  | some (.error e, state) => some (.error e, state)
  | some (.ok (), state) => takeMessageKey b P state envelope

variable [DecidableEq Key]

/-- The `if need_dh_ratchet { … }` block of `decrypt`. -/
def ratchetBlockIn (b : Build) (P : Primitives Key) (newSecret : Key) (state : DrState Key)
    (header : DrHeader Key) : Option (Except String Unit × DrState Key) :=
  if needDhRatchet state header then
    match skipMessageKeysIn b P state header.pn with
    | none => none
    | some (.error e, state) => some (.error e, state)
    | some (.ok (), state) => some (.ok (), dhRatchet P newSecret state header.dh)
  else some (.ok (), state)

/-- `decrypt`; `none` is a panic. -/
def decryptIn (b : Build) (P : Primitives Key) (newSecret : Key) (state : DrState Key)
    (envelope : DrEnvelope Key) : Option (Except String Bytes × DrState Key) :=
  match trySkipped P state envelope with
  | (.error e, state) => some (.error e, state)
  | (.ok (some plaintext), state) => some (.ok plaintext, state)
  | (.ok none, state) =>
    match ratchetBlockIn b P newSecret state envelope.header with
    | none => none
    | some (.error e, state) => some (.error e, state)
    | some (.ok (), state) => readChain b P state envelope

/-! ## 2. Where nothing overflows -/

/-- What a call computes with `n_recv` is below 2^64: the bound of its first skip, and the counter
    after the message, where the chain there is goes that far. -/
structure CountersFit (state : DrState Key) (header : DrHeader Key) : Prop where
  bound : state.nRecv + MAX_SKIP < 2 ^ 64
  next : needDhRatchet state header = false → state.ckRecv.isSome = true →
    header.n ≤ state.nRecv + MAX_SKIP → header.n + 1 < 2 ^ 64

section

omit [DecidableEq Key]

variable {P : Primitives Key} {s : DrState Key} {e : DrEnvelope Key}

/-- Where the bound fits, a skip is the one over the natural numbers. -/
theorem skipMessageKeysIn_eq (b : Build) (til : Nat) (h : s.nRecv + MAX_SKIP < 2 ^ 64) :
    skipMessageKeysIn b P s til = some (skipMessageKeys P s til) := by
  unfold skipMessageKeysIn
  rw [b.unsigned_of_lt h]
  rfl

theorem skipMessageKeysIn_overflow (til : Nat) (h : 2 ^ 64 ≤ s.nRecv + MAX_SKIP) :
    skipMessageKeysIn .checked P s til = none := by
  unfold skipMessageKeysIn
  rw [Build.unsigned_overflow h]
  rfl

/-- The chain of a message that is not too far is read; then the counter is one more than its
    number, or than it was. -/
theorem readChain_near (b : Build) (hbound : s.nRecv + MAX_SKIP < 2 ^ 64)
    (hn : e.header.n ≤ s.nRecv + MAX_SKIP) :
    readChain b P s e = takeMessageKey b P (skipTo P s e.header.n) e := by
  unfold readChain
  rw [skipMessageKeysIn_eq b _ hbound, skipMessageKeys_near hn]

theorem readChain_eq (b : Build) (hbound : s.nRecv + MAX_SKIP < 2 ^ 64)
    (hnext : s.ckRecv.isSome = true → e.header.n ≤ s.nRecv + MAX_SKIP → e.header.n + 1 < 2 ^ 64) :
    readChain b P s e = some (match skipMessageKeys P s e.header.n with
      | (.error x, s) => (.error x, s)
      | (.ok (), s) =>
        match s.ckRecv with
        | none => (.error "No recv chain key", s)
        | some ck => (decryptWithKey P (kdfCk P ck).2 e,
            { s with ckRecv := some (kdfCk P ck).1, nRecv := s.nRecv + 1 })) := by
  rcases Nat.lt_or_ge (s.nRecv + MAX_SKIP) e.header.n with hfar | hn
  · unfold readChain
    rw [skipMessageKeysIn_eq b _ hbound, skipMessageKeys_far hfar]
  · rw [readChain_near b hbound hn, skipMessageKeys_near hn]
    unfold takeMessageKey
    cases hck : s.ckRecv with
    | none => simp [skipTo, hck]
    | some ck =>
      have hfits : s.nRecv + (e.header.n - s.nRecv) + 1 < 2 ^ 64 := by
        have := hnext (by rw [hck]; rfl) hn
        simp only [MAX_SKIP] at hbound
        omega
      simp only [skipTo, hck, b.unsigned_of_lt hfits, Option.map_some]

/-- The counter after the message would not fit. -/
theorem readChain_overflow (hbound : s.nRecv + MAX_SKIP < 2 ^ 64) (hck : s.ckRecv.isSome = true)
    (hn : e.header.n ≤ s.nRecv + MAX_SKIP) (hnext : 2 ^ 64 ≤ e.header.n + 1) :
    readChain .checked P s e = none := by
  obtain ⟨ck, hck⟩ := Option.isSome_iff_exists.mp hck
  have hover : 2 ^ 64 ≤ s.nRecv + (e.header.n - s.nRecv) + 1 := by omega
  rw [readChain_near _ hbound hn]
  unfold takeMessageKey
  simp only [skipTo, hck, Build.unsigned_overflow hover, Option.map_none]

omit [Zero Key] in
/-- Without overflow checks every call returns. -/
theorem takeMessageKey_wrapping : (takeMessageKey .wrapping P s e).isSome = true := by
  unfold takeMessageKey
  cases s.ckRecv with
  | none => rfl
  | some ck => rfl

theorem skipMessageKeysIn_wrapping (til : Nat) :
    (skipMessageKeysIn .wrapping P s til).isSome = true := rfl

theorem readChain_wrapping : (readChain .wrapping P s e).isSome = true := by
  obtain ⟨⟨result, s'⟩, hskip⟩ := Option.isSome_iff_exists.mp
    (skipMessageKeysIn_wrapping (P := P) (s := s) e.header.n)
  unfold readChain
  rw [hskip]
  cases result with
  | error x => rfl
  | ok => exact takeMessageKey_wrapping

end

section

variable {P : Primitives Key} {r : Key} {s : DrState Key} {e : DrEnvelope Key}

theorem ratchetBlockIn_eq (b : Build) (h : DrHeader Key) (hbound : s.nRecv + MAX_SKIP < 2 ^ 64) :
    ratchetBlockIn b P r s h = some (ratchetBlock P r s h) := by
  unfold ratchetBlockIn ratchetBlock
  rw [skipMessageKeysIn_eq b _ hbound]
  cases needDhRatchet s h with
  | false => rfl
  | true =>
    simp only [if_true]
    obtain ⟨err | _, s'⟩ := skipMessageKeys P s h.pn <;> rfl

theorem ratchetBlockIn_wrapping (h : DrHeader Key) :
    (ratchetBlockIn .wrapping P r s h).isSome = true := by
  obtain ⟨⟨result, s'⟩, hskip⟩ := Option.isSome_iff_exists.mp
    (skipMessageKeysIn_wrapping (P := P) (s := s) h.pn)
  unfold ratchetBlockIn
  rw [hskip]
  cases needDhRatchet s h with
  | false => rfl
  | true => cases result <;> rfl

omit [Zero Key] in
/-- No stored key is the one that is asked for. -/
theorem trySkipped_none {s' : DrState Key} (h : trySkipped P s e = (.ok none, s')) :
    s' = s ∧ s.skipped.find? (SkippedKey.isFor e.header) = none := by
  unfold trySkipped at h
  split at h
  · next hnone =>
    cases h
    exact ⟨rfl, hnone⟩
  · simp only at h
    split at h <;> cases h

/-- The chain that the ratchet block leaves: its counter fits where that before it did. -/
theorem ratchetBlock_chain {h : DrHeader Key} {s' : DrState Key} (hfits : CountersFit s h)
    (hblock : ratchetBlock P r s h = (.ok (), s')) :
    s'.nRecv + MAX_SKIP < 2 ^ 64 ∧
      (s'.ckRecv.isSome = true → h.n ≤ s'.nRecv + MAX_SKIP → h.n + 1 < 2 ^ 64) := by
  cases hr : needDhRatchet s h with
  | false =>
    simp only [ratchetBlock, hr, Bool.false_eq_true, if_false, Prod.mk.injEq, true_and] at hblock
    subst hblock
    exact ⟨hfits.bound, hfits.next hr⟩
  | true =>
    rcases Nat.lt_or_ge (s.nRecv + MAX_SKIP) h.pn with hfar | hp
    · simp [ratchetBlock, hr, skipMessageKeys_far hfar] at hblock
    · rw [ratchetBlock_near hr hp] at hblock
      cases hblock
      rw [afterRatchet_nRecv]
      exact ⟨by decide, fun _ hn => by simp only [MAX_SKIP] at hn; omega⟩

/-- **Where nothing overflows**, a call is the one over the natural numbers. -/
theorem decryptIn_eq (b : Build)
    (h : s.skipped.find? (SkippedKey.isFor e.header) = none → CountersFit s e.header) :
    decryptIn b P r s e = some (decrypt P r s e) := by
  unfold decryptIn decrypt
  rcases htry : trySkipped P s e with ⟨_ | _ | plaintext, s'⟩
  · rfl
  · obtain ⟨rfl, hnone⟩ := trySkipped_none htry
    simp only [ratchetBlockIn_eq b e.header (h hnone).bound]
    rcases hblock : ratchetBlock P r s' e.header with ⟨_ | _, t⟩
    · rfl
    · obtain ⟨hbound, hnext⟩ := ratchetBlock_chain (h hnone) hblock
      exact readChain_eq b hbound hnext
  · rfl

/-! ## 3. When a call returns -/

theorem decryptIn_wrapping : (decryptIn .wrapping P r s e).isSome = true := by
  unfold decryptIn
  rcases trySkipped P s e with ⟨_ | _ | plaintext, s'⟩
  · rfl
  · obtain ⟨⟨_ | _, t⟩, hblock⟩ := Option.isSome_iff_exists.mp
      (ratchetBlockIn_wrapping (P := P) (r := r) (s := s') e.header)
    · simp only [hblock, Option.isSome_some]
    · simp only [hblock]
      exact readChain_wrapping
  · rfl

theorem decryptIn_overflow (hnone : s.skipped.find? (SkippedKey.isFor e.header) = none)
    (h : ¬ CountersFit s e.header) : decryptIn .checked P r s e = none := by
  have htry : trySkipped P s e = (.ok none, s) := by rw [trySkipped, hnone]
  unfold decryptIn ratchetBlockIn
  rw [htry]
  rcases Nat.lt_or_ge (s.nRecv + MAX_SKIP) (2 ^ 64) with hbound | hbound
  · -- The chain there is goes on to a number whose successor does not fit.
    by_cases hnext : needDhRatchet s e.header = false ∧ s.ckRecv.isSome = true ∧
        e.header.n ≤ s.nRecv + MAX_SKIP ∧ 2 ^ 64 ≤ e.header.n + 1
    · obtain ⟨hr, hck, hn, hover⟩ := hnext
      simp only [hr, Bool.false_eq_true, if_false]
      exact readChain_overflow hbound hck hn hover
    · exact absurd ⟨hbound, fun hr hck hn => Nat.not_le.mp fun hover => hnext ⟨hr, hck, hn, hover⟩⟩
        h
  · cases hr : needDhRatchet s e.header with
    | true => simp only [hr, if_true, skipMessageKeysIn_overflow _ hbound]
    | false => simp only [hr, Bool.false_eq_true, if_false, readChain,
        skipMessageKeysIn_overflow _ hbound]

/-- **When `decrypt` returns**: the build does not check, or the key has been stored, or the
    counters fit. -/
theorem decryptIn_isSome_iff (b : Build) (P : Primitives Key) (r : Key) (s : DrState Key)
    (e : DrEnvelope Key) :
    (decryptIn b P r s e).isSome = true ↔
      (b = .checked → s.skipped.find? (SkippedKey.isFor e.header) = none →
        CountersFit s e.header) := by
  cases b with
  | wrapping => exact iff_of_true decryptIn_wrapping nofun
  | checked =>
    constructor
    · intro hsome _ hnone
      by_contra h
      rw [decryptIn_overflow hnone h] at hsome
      cases hsome
    · intro h
      rw [decryptIn_eq .checked (h rfl)]
      rfl

end

end AlterChat.DoubleRatchet
