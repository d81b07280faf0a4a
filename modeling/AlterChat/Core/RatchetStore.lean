import AlterChat.Core.DoubleRatchet
import AlterChat.Lib.Run
import AlterChat.Lib.Symbolic

/-!
# How many skipped keys a state holds

`MAX_SKIP` limits what one call skips in one chain, and the chain's own counter is what it is
compared with. Nothing looks at how many keys are stored, no key is ever dropped but by a message
that asks for it, and a rejected envelope has stored its keys all the same.

* `Call`, `Begins`, `CallStep` -- the runs of one party;
* `decrypt_skipped_length` -- how many keys a call stores, for every envelope;
* `skipped_bounded` -- the store is bounded in every run whose calls have room;
* `skipped_unbounded` -- two alternating public keys fill it without end.
-/

namespace AlterChat.DoubleRatchet

open Lib

variable {Key : Type}

/-! ## 1. Runs of one party -/

/-- A call of `encrypt` or `decrypt`, with what it draws. -/
inductive Call (Key : Type) where
  | encrypt (nonce : Nonce) (m : Bytes)
  | decrypt (r : Key) (e : DrEnvelope Key)

/-- A state that `init_alice` or `init_bob` returns. -/
inductive Begins (P : Primitives Key) : DrState Key → Prop where
  | alice (secret sk bobDhPub : Key) : Begins P (initAlice P secret sk bobDhPub)
  | bob (sk bobDhSecret bobDhPub : Key) : Begins P (initBob sk bobDhSecret bobDhPub)

/-- **What `encrypt` does to the state**, whatever it returns: the sending chain moves on, and the
    counter may. -/
theorem encrypt_state (P : Primitives Key) (nonce : Nonce) (s : DrState Key) (m : Bytes) :
    (encrypt P nonce s m).2 =
      { s with
        ckSend := s.ckSend.map fun ck => (kdfCk P ck).1
        nSend := (encrypt P nonce s m).2.nSend } := by
  cases hck : s.ckSend with
  | none =>
    rw [encrypt_no_chain P nonce m hck]
    cases s
    exact congrArg (DrState.mk _ _ _ _ · _ _ _ _ _) hck
  | some ck =>
    cases hm : P.accepts m with
    | true => rw [encrypt_ok nonce hck hm]; rfl
    | false => rw [encrypt_refused nonce hck hm]; rfl

theorem encrypt_skipped (P : Primitives Key) (nonce : Nonce) (s : DrState Key) (m : Bytes) :
    (encrypt P nonce s m).2.skipped = s.skipped := by
  rw [encrypt_state]

section

variable [DecidableEq Key] [Zero Key]

/-- The state after a call. -/
def DrState.after (P : Primitives Key) (s : DrState Key) : Call Key → DrState Key
  | .encrypt nonce m => (encrypt P nonce s m).2
  | .decrypt r e => (decrypt P r s e).2

/-- One call, whatever it returns. -/
def CallStep (P : Primitives Key) (s : DrState Key) (c : Call Key) (s' : DrState Key) : Prop :=
  s' = s.after P c

/-! ## 2. What a call stores -/

omit [DecidableEq Key] [Zero Key] in
@[simp] theorem skippedKeys_length (P : Primitives Key) (dhPub ck : Key) (n k : Nat) :
    (skippedKeys P dhPub ck n k).length = k := by
  simp [skippedKeys]

/-- How many keys a skip to `til` stores, where it is within the limit. -/
def DrState.ahead (s : DrState Key) (til : Nat) : Nat :=
  if s.ckRecv.isNone then 0 else til - s.nRecv

omit [DecidableEq Key] in
theorem skipTo_skipped_length (P : Primitives Key) (s : DrState Key) (til : Nat) :
    (skipTo P s til).skipped.length = s.skipped.length + s.ahead til := by
  unfold skipTo DrState.ahead
  cases s.ckRecv <;> simp

/-- Whether a key is stored for the header. -/
def DrState.holds (s : DrState Key) (h : DrHeader Key) : Bool :=
  (s.skipped.find? (SkippedKey.isFor h)).isSome

/-- How many keys `decrypt` stores for a header no key is stored for: those of the old chain before
    a ratchet step, and those of the chain the message is in. A limit that is exceeded stops it. -/
def DrState.toStore (s : DrState Key) (h : DrHeader Key) : Nat :=
  if needDhRatchet s h then
    if s.nRecv + MAX_SKIP < h.pn then 0
    else s.ahead h.pn + if MAX_SKIP < h.n then 0 else h.n
  else if s.nRecv + MAX_SKIP < h.n then 0
  else s.ahead h.n

/-- **What a call of `decrypt` does to the number of stored keys**, accepted or rejected. -/
theorem decrypt_skipped_length (P : Primitives Key) (r : Key) (s : DrState Key)
    (e : DrEnvelope Key) :
    (decrypt P r s e).2.skipped.length =
      if s.holds e.header then s.skipped.length - 1
      else s.skipped.length + s.toStore e.header := by
  have hc := decrypt_cases P r s e
  generalize decrypt P r s e = out at hc
  unfold DrState.holds DrState.toStore
  cases hc with
  | skipped k hf =>
    rw [hf, Option.isSome_some, if_pos rfl]
    exact List.length_eraseP_of_mem (List.mem_of_find?_eq_some hf) (List.find?_some hf)
  | ratchetFar hf hr hp => simp [hf, hr, hp]
  | ratchetFarNew hf hr hp hn =>
    have hskip := skipTo_skipped_length P s e.header.pn
    simp [hf, hr, hn, Nat.not_lt.mpr hp, afterRatchet, dhRatchet, hskip]
  | ratchet hf hr hp hn =>
    have hskip := skipTo_skipped_length P s e.header.pn
    simp [hf, hr, Nat.not_lt.mpr hp, Nat.not_lt.mpr hn, afterCurrent, afterRatchet,
      dhRatchet, hskip, Nat.add_assoc]
  | currentFar hf hr hn => simp [hf, hr, hn]
  | noChain hf hr hn hck => simp [hf, hr, Nat.not_lt.mpr hn, DrState.ahead, hck]
  | current ck hf hr hn hck => simp [hf, hr, Nat.not_lt.mpr hn, DrState.ahead, hck, afterCurrent]

/-! ## 3. Runs with room -/

/-- The call stores no more keys than there is room for. -/
def HasRoom (s : DrState Key) : Call Key → Prop
  | .encrypt _ _ => True
  | .decrypt _ e => s.holds e.header = true ∨ s.skipped.length + s.toStore e.header ≤ MAX_SKIP

/-- From a store within the bound, a call keeps it exactly when there is room. -/
theorem after_bounded_iff (P : Primitives Key) {s : DrState Key}
    (hs : s.skipped.length ≤ MAX_SKIP) (c : Call Key) :
    (s.after P c).skipped.length ≤ MAX_SKIP ↔ HasRoom s c := by
  cases c with
  | encrypt nonce m =>
    show (encrypt P nonce s m).2.skipped.length ≤ MAX_SKIP ↔ True
    rw [encrypt_skipped]
    exact iff_true_intro hs
  | decrypt r e =>
    show (decrypt P r s e).2.skipped.length ≤ MAX_SKIP ↔ _ ∨ _
    rw [decrypt_skipped_length]
    cases hh : s.holds e.header with
    | true =>
      rw [if_pos rfl]
      exact ⟨fun _ => .inl rfl, fun _ => Nat.le_trans (Nat.sub_le _ _) hs⟩
    | false =>
      rw [if_neg (by simp)]
      exact ⟨.inr, fun h => h.resolve_left nofun⟩

omit [DecidableEq Key] [Zero Key] in
theorem Begins.skipped {P : Primitives Key} {s : DrState Key} (h : Begins P s) :
    s.skipped = [] := by
  cases h <;> rfl

/-- **The store is bounded in every run whose calls have room.** -/
theorem skipped_bounded (P : Primitives Key) (s : DrState Key)
    (h : Reach (Begins P) (Guarded HasRoom (CallStep P)) s) : s.skipped.length ≤ MAX_SKIP := by
  refine Reach.inv (I := fun s => s.skipped.length ≤ MAX_SKIP) (fun s hs => ?_)
    (fun s c s' hs hst => ?_) h
  · rw [hs.skipped]
    exact Nat.zero_le _
  · obtain ⟨hroom, rfl⟩ := hst
    exact (after_bounded_iff P hs c).mpr hroom

/-! ## 4. A flood -/

/-- An envelope that opens a chain under `dh` and asks for as many keys as one call skips. -/
def flood (dh : Key) : DrEnvelope Key where
  header := { dh, pn := 0, n := MAX_SKIP }
  nonce := Vector.replicate 12 0
  ciphertext := []

/-- A state in which `k` floods have ended, the last of them under `dh`. -/
structure Flooded (P : Primitives Key) (k : Nat) (dh : Option Key) (s : DrState Key) : Prop where
  reach : Reach (Begins P) (CallStep P) s
  length : s.skipped.length = k * MAX_SKIP
  numbers : ∀ x ∈ s.skipped, x.n < MAX_SKIP
  dhRecv : s.dhRecv = dh

/-- **Each flood stores `MAX_SKIP` keys more**, whatever the cipher says to it. -/
theorem Flooded.next {P : Primitives Key} {k : Nat} {dh : Option Key} {s : DrState Key}
    (h : Flooded P k dh s) (dh' : Key) (hne : dh ≠ some dh') (r : Key) :
    Flooded P (k + 1) (some dh') (s.after P (.decrypt r (flood dh'))) := by
  have hf : s.skipped.find? (SkippedKey.isFor (flood dh').header) = none := by
    rw [List.find?_eq_none]
    intro x hx hfor
    have hn : x.n = MAX_SKIP := of_decide_eq_true (Bool.and_eq_true_iff.mp hfor).2
    have := h.numbers x hx
    omega
  have hr : needDhRatchet s (flood dh').header = true := by
    unfold needDhRatchet
    rw [h.dhRecv]
    cases dh with
    | none => rfl
    | some a => exact decide_eq_true fun e => hne (congrArg some e)
  have hstate : s.after P (.decrypt r (flood dh')) =
      afterCurrent P (afterRatchet P r s (flood dh').header)
        (ratchetChain P s dh') MAX_SKIP := by
    show (decrypt P r s (flood dh')).2 = _
    rw [decrypt_ratchet hf hr (Nat.zero_le _) (Nat.le_refl _)]
    rfl
  have hskip : (skipTo P s 0).skipped = s.skipped := by
    unfold skipTo
    cases s.ckRecv <;> simp [skippedKeys]
  have hlist : (s.after P (.decrypt r (flood dh'))).skipped =
      s.skipped ++ skippedKeys P dh' (ratchetChain P s dh') 0 MAX_SKIP := by
    rw [hstate]
    show (skipTo P s 0).skipped ++ _ = _
    rw [hskip]
    rfl
  constructor
  · exact Reach.step s (Call.decrypt r (flood dh')) _ h.reach rfl
  · rw [hlist, List.length_append, h.length, skippedKeys_length, Nat.succ_mul]
  · intro x hx
    rw [hlist, List.mem_append] at hx
    rcases hx with hx | hx
    · exact h.numbers x hx
    · obtain ⟨j, hj, rfl⟩ := List.mem_map.mp hx
      show 0 + j < MAX_SKIP
      rw [Nat.zero_add]
      exact List.mem_range.mp hj
  · rw [hstate]
    rfl

/-- **The store has no bound**: by turns under two public keys, `k` envelopes nobody sent leave
    `k * MAX_SKIP` keys. -/
theorem skipped_unbounded (P : Primitives Key) (r : Key) {a b : Key} (hab : a ≠ b) (k : Nat) :
    ∃ s, Reach (Begins P) (CallStep P) s ∧ s.skipped.length = k * MAX_SKIP := by
  have hrun : ∃ s, Flooded P k none s ∨ Flooded P k (some a) s ∨ Flooded P k (some b) s := by
    induction k with
    | zero =>
      refine ⟨initBob 0 0 0, .inl ⟨.start _ (.bob 0 0 0), ?_, nofun, rfl⟩⟩
      rw [Nat.zero_mul]
      rfl
    | succ k ih =>
      obtain ⟨s, h | h | h⟩ := ih
      · exact ⟨_, .inr (.inl (h.next a nofun r))⟩
      · exact ⟨_, .inr (.inr (h.next b (fun e => hab (Option.some.inj e)) r))⟩
      · exact ⟨_, .inr (.inl (h.next a (fun e => hab (Option.some.inj e).symm) r))⟩
  obtain ⟨s, h | h | h⟩ := hrun <;> exact ⟨s, h.reach, h.length⟩

end

/-- Two floods, and 2000 keys. -/
theorem skipped_overflow :
    ¬ ∀ s, Reach (Begins symbolic) (CallStep symbolic) s → s.skipped.length ≤ MAX_SKIP := by
  intro h
  obtain ⟨s, hreach, hlen⟩ := skipped_unbounded symbolic (.secret 0) (a := .point 1) (b := .point 2)
    (by decide) 2
  have hle := h s hreach
  rw [hlen] at hle
  exact absurd hle (by decide)

/-- The responder, and one envelope of the number 3 that nobody sent. -/
def strayEnvelope : DrEnvelope Sym where
  header := { dh := .point 1, pn := 0, n := 3 }
  nonce := Vector.replicate 12 0
  ciphertext := []

/-- The run in which that envelope is all the responder gets. -/
theorem skipped_bounded_stray :
    ((initBob (.secret 9) (.secret 2) (.point 2)).after symbolic
      (.decrypt (.secret 3) strayEnvelope)).skipped.length ≤ MAX_SKIP := by
  have hroom : HasRoom (initBob (.secret 9) (.secret 2) (.point 2))
      (Call.decrypt (.secret 3) strayEnvelope) := Or.inr (by decide)
  have hstart : Reach (Begins symbolic) (Guarded HasRoom (CallStep symbolic))
      (initBob (.secret 9) (.secret 2) (.point 2)) := .start _ (.bob ..)
  exact skipped_bounded symbolic _
    (.step _ (Call.decrypt (Sym.secret 3) strayEnvelope) _ hstart ⟨hroom, rfl⟩)

end AlterChat.DoubleRatchet
