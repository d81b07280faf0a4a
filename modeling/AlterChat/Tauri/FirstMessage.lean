import AlterChat.Tauri.DirectMessages
import AlterChat.Core.RatchetReplay

/-!
# The first direct message

Two friends with no stored state. `SendPrivateMessage` passes `my_peer_id < peer_id` as the role
flag and the `X3dhDm` handler passes `peer_id < my_peer_id`: on both sides that is whether the
sender's id is the smaller one, so sender and receiver take the same role.

* `same_role`, `not_complementary` -- whoever sends first, both sides call `init_alice` or both
  `init_bob`;
* `two_alices` -- a message that one initiator encrypts does not decrypt for another;
* `Stuck` -- the peer with the larger id never stores a state and never sends;
* `first_message_never` -- in every run no direct message is ever read, on either side.
-/

namespace AlterChat.DirectMessages

open Lib DoubleRatchet Db Primitives

variable {Key : Type}

/-! ## 1. The property -/

/-- Two friends that have each other's public key and no stored state, before the first request. -/
structure Strangers (P : Primitives Key) (C : DmWire Key) (w : DmWorld Key) : Prop where
  distinct : ∀ p, (w.node p).myPeerId ≠ w.peer p
  friend : ∀ p, FriendKey C (w.node p).conn (w.peer p)
    (P.publicKey (w.node p.other).offlineSecretBytes)
  noState : ∀ p, (w.node p).conn.ratchetStates.lookup (drKey (w.peer p)) = none
  sent : ∀ p, w.sent p = []

/-- The state that `p` starts from as a sender, with the flag of `SendPrivateMessage`. -/
def sendState (P : Primitives Key) (C : DmWire Key) (f : Faults) (w : DmWorld Key) (p : Side)
    (drawn : Key) : DrState Key :=
  loadOrInitDrState P C f (w.node p).conn (w.peer p) (w.node p).offlineSecretBytes
    (P.publicKey (w.node p.other).offlineSecretBytes)
    (decide ((w.node p).myPeerId < w.peer p)) drawn

/-- The state that `p` starts from as a receiver, with the flag of the `X3dhDm` handler. -/
def receiveState (P : Primitives Key) (C : DmWire Key) (f : Faults) (w : DmWorld Key) (p : Side)
    (drawn : Key) : DrState Key :=
  loadOrInitDrState P C f (w.node p).conn (w.peer p) (w.node p).offlineSecretBytes
    (P.publicKey (w.node p.other).offlineSecretBytes)
    (decide (w.peer p < (w.node p).myPeerId)) drawn

/-- One state is from `init_alice`, the other from `init_bob` with the matching key pair. -/
def Complementary (P : Primitives Key) (x y : DrState Key) : Prop :=
  ∃ sk secret bobSecret,
    (x = initAlice P secret sk (P.publicKey bobSecret) ∧
      y = initBob sk bobSecret (P.publicKey bobSecret)) ∨
    (y = initAlice P secret sk (P.publicKey bobSecret) ∧
      x = initBob sk bobSecret (P.publicKey bobSecret))

/-- The two peers' own commands and requests. -/
def OwnRequests (_ : DmWorld Key) : DmEvent Key → Prop
  | .inject .. => False
  | _ => True

/-! ## 2. The roles -/

section

variable {P : Primitives Key} {C : DmWire Key} {w : DmWorld Key}

/-- **Sender and receiver take the same role.** -/
theorem same_role (h : Strangers P C w) (p : Side) (f f' : Faults) (drawn drawn' : Key) :
    (sendState P C f w p drawn).ckSend.isSome =
      (receiveState P C f' w p.other drawn').ckSend.isSome := by
  unfold sendState receiveState
  rw [loadOrInitDrState_none (h.noState p), loadOrInitDrState_none (h.noState p.other)]
  have hflag : decide (w.peer p.other < (w.node p.other).myPeerId) =
      decide ((w.node p).myPeerId < w.peer p) := by
    unfold DmWorld.peer
    rw [p.other_other]
  rw [hflag]
  cases decide ((w.node p).myPeerId < w.peer p) <;> rfl

/-- **Whoever sends first, the roles are not complementary.** -/
theorem not_complementary (h : Strangers P C w) (p : Side) (f f' : Faults) (drawn drawn' : Key) :
    ¬ Complementary P (sendState P C f w p drawn) (receiveState P C f' w p.other drawn') := by
  have hsame := same_role h p f f' drawn drawn'
  intro ⟨sk, secret, bobSecret, hroles⟩
  rcases hroles with ⟨hx, hy⟩ | ⟨hy, hx⟩
  · rw [hx, hy] at hsame
    cases hsame
  · rw [hx, hy] at hsame
    cases hsame

end

/-! ## 3. Two initiators -/

/-- A state on the chain that an initiator of `sk` starts: it has sent `n_send` messages. -/
def OnFirstChain (P : Primitives Key) (sk dhOut : Key) (st : DrState Key) : Prop :=
  st.ckSend = some (chainKey P (kdfRk P sk dhOut).2 st.nSend)

/-- An envelope of that chain. -/
def OfFirstChain (P : Primitives Key) (sk : Key) (e : DrEnvelope Key) : Prop :=
  ∃ dhOut nonce m, e.ciphertext =
    P.aeadSeal (messageKey P (kdfRk P sk dhOut).2 e.header.n) nonce m

theorem OnFirstChain.encrypted {P : Primitives Key} {sk dhOut : Key} {st st' : DrState Key}
    {nonce : Nonce} {m : Bytes} {e : DrEnvelope Key} (h : OnFirstChain P sk dhOut st)
    (henc : encrypt P nonce st m = (.ok e, st')) :
    OfFirstChain P sk e ∧ OnFirstChain P sk dhOut st' := by
  cases hm : P.accepts m with
  | false =>
    rw [encrypt_refused nonce h hm] at henc
    cases henc
  | true =>
    rw [encrypt_ok nonce h hm] at henc
    cases henc
    refine ⟨⟨dhOut, nonce, m, rfl⟩, ?_⟩
    unfold OnFirstChain
    rw [chainKey_succ]

/-- **A message from one initiator does not decrypt for another.** -/
theorem two_alices [DecidableEq Key] [Zero Key] {P : Primitives Key} (hP : P.Ideal) {sk : Key}
    {e : DrEnvelope Key} (he : OfFirstChain P sk e) (drawn pk r : Key) :
    ∃ x, (decrypt P r (initAlice P drawn sk pk) e).1 = .error x := by
  cases hd : (decrypt P r (initAlice P drawn sk pk) e).1 with
  | error x => exact ⟨x, rfl⟩
  | ok m =>
    exfalso
    obtain ⟨dhOut, nonce, m', hsealed⟩ := he
    obtain ⟨mk, htries, hopen⟩ := decrypt_ok_tries hd
    have hsound := hP.open_sound _ _ _ _ hopen
    rw [hsealed] at hsound
    have hkey := hP.seal_key _ _ _ _ _ _ hsound
    cases htries with
    | stored k hk => cases hk
    | current ck _ _ hck => cases hck
    | new =>
      -- the receiving chain hangs on a root key below `sk`, the sender's on `sk` itself
      have hchain := messageKey_inj hP hkey
      have hroot := (hP.hkdf_inj _ _ _ _ _ _ hchain).1
      obtain ⟨rank, hrank⟩ := hP.hkdf_acyclic
      have hlt := hrank sk (some (P.diffieHellman drawn pk)) "root"
      have heq : sk = P.hkdf sk (some (P.diffieHellman drawn pk)) "root" := hroot
      rw [← heq] at hlt
      exact Nat.lt_irrefl _ hlt

/-! ## 4. Nothing gets through -/

/-- What `derive_static_shared_secret` gives `s`. -/
def sharedKey (P : Primitives Key) (w : DmWorld Key) (s : Side) : Key :=
  deriveStaticSharedSecret P (w.node s).offlineSecretBytes
    (P.publicKey (w.node s.other).offlineSecretBytes)

/-- What holds in every run: `s`, which has the smaller id, is on its own first chain; the other
    side has no state and has sent nothing; nobody has saved anything received. -/
structure Stuck (P : Primitives Key) (C : DmWire Key) (w₀ w : DmWorld Key) (s : Side) : Prop where
  smaller : (w.node s).myPeerId < w.peer s
  friend : ∀ p, FriendKey C (w.node p).conn (w.peer p)
    (P.publicKey (w.node p.other).offlineSecretBytes)
  chain : ∀ st, StoredState C (w.node s).conn (w.peer s) st →
    ∃ dhOut, OnFirstChain P (sharedKey P w s) dhOut st
  noState : (w.node s.other).conn.ratchetStates.lookup (drKey (w.peer s.other)) = none
  sent : ∀ x ∈ w.sent s, ∃ e, C.envelopeBytes.dec x.1.drEnvelope = some e ∧
    OfFirstChain P (sharedKey P w s) e
  sentOther : w.sent s.other = []
  peer : ∀ p, w.peer p = w₀.peer p
  saved : ∀ p, incoming (w.node p).conn (w.peer p) = incoming (w₀.node p).conn (w₀.peer p)

section

variable {P : Primitives Key} {C : DmWire Key} {w₀ w : DmWorld Key} {s : Side}

theorem Stuck.start (h : Strangers P C w) (hs : (w.node s).myPeerId < w.peer s) :
    Stuck P C w w s where
  smaller := hs
  friend := h.friend
  chain st := by
    intro ⟨blob, hrow, _⟩
    rw [h.noState s] at hrow
    cases hrow
  noState := h.noState s.other
  sent x hx := by
    rw [h.sent s] at hx
    cases hx
  sentOther := h.sent s.other
  peer _ := rfl
  saved _ := rfl

@[simp] theorem sharedKey_setConn (p : Side) (conn : Database) :
    sharedKey P (w.setConn p conn) s = sharedKey P w s := by
  simp [sharedKey]

/-- A peer writes: its friends and received messages stay, and its states stay or are those of the
    first chain. -/
theorem Stuck.setConn (h : Stuck P C w₀ w s) (p : Side) {conn : Database}
    (hfriends : conn.friends = (w.node p).conn.friends)
    (hin : incoming conn (w.peer p) = incoming (w.node p).conn (w.peer p))
    (hchain : p = s → ∀ st, StoredState C conn (w.peer p) st →
      ∃ dhOut, OnFirstChain P (sharedKey P w p) dhOut st)
    (hnone : p = s.other → conn.ratchetStates = (w.node p).conn.ratchetStates) :
    Stuck P C w₀ (w.setConn p conn) s where
  smaller := by simpa using h.smaller
  friend q := by
    rw [DmWorld.setConn_peer, DmWorld.setConn_secret]
    obtain ⟨friend, hlookup, hk⟩ := h.friend q
    rcases p.eq_or_other q with rfl | rfl
    · rw [DmWorld.setConn_self]
      exact ⟨friend, hfriends ▸ hlookup, hk⟩
    · rw [DmWorld.setConn_other]
      exact ⟨friend, hlookup, hk⟩
  chain st hst := by
    rw [DmWorld.setConn_peer] at hst
    rw [sharedKey_setConn]
    rcases p.eq_or_other s with rfl | rfl
    · rw [DmWorld.setConn_self] at hst
      exact hchain rfl st hst
    · rw [DmWorld.setConn_other] at hst
      exact h.chain st hst
  noState := by
    rw [DmWorld.setConn_peer]
    rcases s.eq_or_other p with rfl | rfl
    · rw [DmWorld.setConn_other]
      exact h.noState
    · rw [DmWorld.setConn_self, hnone rfl]
      exact h.noState
  sent := by
    rw [sharedKey_setConn]
    exact h.sent
  sentOther := h.sentOther
  peer q := (w.setConn_peer p conn q).trans (h.peer q)
  saved q := by
    rw [DmWorld.setConn_peer]
    rcases p.eq_or_other q with rfl | rfl
    · rw [DmWorld.setConn_self, hin]
      exact h.saved _
    · rw [DmWorld.setConn_other]
      exact h.saved _

theorem Stuck.untouched (h : Stuck P C w₀ w s) (p : Side) {conn : Database}
    (hconn : Untouched (w.node p).conn conn) : Stuck P C w₀ (w.setConn p conn) s :=
  h.setConn p hconn.friends (hconn.incoming _)
    (by
      rintro rfl st ⟨blob, hrow, hdec⟩
      exact h.chain st ⟨blob, hconn.ratchetStates ▸ hrow, hdec⟩)
    fun _ => hconn.ratchetStates

/-- What the smaller side loads is on its first chain, whichever statement fails. -/
theorem Stuck.load (h : Stuck P C w₀ w s) (f : Faults) (drawn : Key) :
    ∃ dhOut, OnFirstChain P (sharedKey P w s) dhOut
      (loadOrInitDrState P C f (w.node s).conn (w.peer s) (w.node s).offlineSecretBytes
        (P.publicKey (w.node s.other).offlineSecretBytes) true drawn) := by
  rcases loadOrInitDrState_cases P C f (w.node s).conn (w.peer s) (w.node s).offlineSecretBytes
    (P.publicKey (w.node s.other).offlineSecretBytes) true
    drawn with ⟨st, -, hstored, hload⟩ | hinit
  · rw [hload]
    exact h.chain st hstored
  · rw [hinit]
    exact ⟨_, rfl⟩

/-- **A command of either side**: the smaller one may send on its first chain, the other has no
    chain to send on. -/
theorem Stuck.send [DecidableEq Key] [Zero Key] (h : Stuck P C w₀ w s) (f : Faults) (p : Side)
    (a : SendArgs Key) : Stuck P C w₀ (w.after P C (.send f p a)) s := by
  rcases sendPrivateMessage_cases P C f (w.node p) (w.peer p) a with
    ⟨hsame, hnone⟩ | ⟨pk, e, st, conn, hfriend, henc, hreq, hsame, hconn⟩
  · have hw : w.after P C (.send f p a) =
        w.setConn p (sendPrivateMessage P C f (w.node p) (w.peer p) a).1 := by
      simp [DmWorld.after, hnone, DmWorld.setConn]
    rw [hw]
    exact h.untouched p hsame
  · obtain rfl := hfriend.inj (h.friend p)
    rcases s.eq_or_other p with rfl | rfl
    · rw [decide_eq_true h.smaller] at henc
      obtain ⟨dhOut, hload⟩ := h.load f a.drawn
      obtain ⟨hof, hon⟩ := hload.encrypted henc
      have h' : Stuck P C w₀ (w.setConn p (saveDrState C f conn (w.peer p) st)) p := by
        refine h.setConn p ?_ ?_ (fun _ st' hst' => ?_) (fun hp => absurd hp.symm p.other_ne)
        · rw [saveDrState_frame]
          exact hsame.friends
        · rw [incoming_saveDrState]
          exact hsame.incoming _
        · rcases storedState_of_save hst' with rfl | hold
          · exact ⟨dhOut, hon⟩
          · obtain ⟨blob, hrow, hdec⟩ := hold
            exact h.chain st' ⟨blob, hsame.ratchetStates ▸ hrow, hdec⟩
      simp only [DmWorld.after, hreq, hconn, List.map_cons, List.map_nil]
      refine { h' with sent := fun x hx => ?_, sentOther := ?_ }
      · change x ∈ Function.update w.sent p _ p at hx
        rw [Function.update_self, List.mem_append, List.mem_singleton] at hx
        rcases hx with hx | rfl
        · exact h'.sent x hx
        · refine ⟨e, C.envelopeBytes.dec_enc e, ?_⟩
          show OfFirstChain P (sharedKey P (w.setConn p _) p) e
          rw [sharedKey_setConn]
          exact hof
      · show Function.update w.sent p _ p.other = []
        rw [Function.update_of_ne p.other_ne]
        exact h.sentOther
    · -- the larger side would start from the state of `init_bob`
      have hpeer : w.peer s.other = (w.node s).myPeerId := by
        unfold DmWorld.peer
        rw [s.other_other]
      have hflag : ¬ (w.node s.other).myPeerId < w.peer s.other := by
        rw [hpeer]
        exact String.lt_asymm h.smaller
      rw [loadOrInitDrState_none h.noState, decide_eq_false hflag,
        encrypt_no_chain P _ _ rfl] at henc
      cases henc

/-- **A request that reaches the larger side is rejected**: it starts from `init_alice`, as its
    sender did. -/
theorem Stuck.deliver [DecidableEq Key] [Zero Key] (hP : P.Ideal) (h : Stuck P C w₀ w s)
    (f : Faults) (p : Side) (k : Nat) (drawn newSecret : Key) :
    Stuck P C w₀ (w.after P C (.deliver f p k drawn newSecret)) s := by
  cases hk : (w.sent p.other)[k]? with
  | none =>
    have hw : w.after P C (.deliver f p k drawn newSecret) = w := by
      simp only [DmWorld.after, hk]
    rw [hw]
    exact h
  | some x =>
    obtain ⟨req, text⟩ := x
    rcases s.eq_or_other p with rfl | rfl
    · rw [h.sentOther] at hk
      cases hk
    · rw [s.other_other] at hk
      obtain ⟨e, he, hof⟩ := h.sent _ (List.mem_of_getElem? hk)
      have hpeer : w.peer s.other = (w.node s).myPeerId := by
        unfold DmWorld.peer
        rw [s.other_other]
      have hkey : sharedKey P w s.other = sharedKey P w s := by
        unfold sharedKey deriveStaticSharedSecret
        rw [s.other_other]
        exact hP.dh_comm _ _
      have hsame : (x3dhDm P C f (w.node s.other) (w.peer s.other) req drawn newSecret).1 =
          (w.node s.other).conn := by
        rcases x3dhDm_cases P C f (w.node s.other) (w.peer s.other) req drawn newSecret with
          hsame | ⟨pk, e', m, _, st, hfriend, he', hdec, -⟩
        · exact hsame
        · exfalso
          obtain rfl := hfriend.inj (h.friend s.other)
          rw [he] at he'
          cases he'
          have hflag : w.peer s.other < (w.node s.other).myPeerId := hpeer ▸ h.smaller
          rw [loadOrInitDrState_none h.noState, decide_eq_true hflag, if_pos rfl] at hdec
          obtain ⟨x, hx⟩ := two_alices hP (hkey ▸ hof) drawn
            (P.publicKey (w.node s.other.other).offlineSecretBytes) newSecret
          unfold sharedKey at hx
          rw [hdec] at hx
          cases hx
      simp only [DmWorld.after, s.other_other, hk, hsame]
      have h' := h.untouched s.other (Untouched.refl _)
      exact { h' with }

end

/-! ## 5. Every run -/

section

variable [DecidableEq Key] [Zero Key] {P : Primitives Key} {C : DmWire Key} {w₀ w : DmWorld Key}

theorem stuck_reach (hP : P.Ideal) (h₀ : Strangers P C w₀) {s : Side}
    (hs : (w₀.node s).myPeerId < w₀.peer s)
    (h : Reach (fun w => w = w₀) (Guarded OwnRequests (DmStep P C)) w) : Stuck P C w₀ w s := by
  refine h.inv (I := fun w => Stuck P C w₀ w s) (fun w hw => ?_) fun w ev w' hw hstep => ?_
  · obtain rfl : w = w₀ := hw
    exact .start h₀ hs
  · obtain ⟨hown, rfl⟩ := hstep
    cases ev with
    | send f p a => exact hw.send f p a
    | deliver f p k drawn newSecret => exact hw.deliver hP f p k drawn newSecret
    | inject => exact hown.elim

omit [DecidableEq Key] [Zero Key] in
/-- One of the two ids is the smaller one. -/
theorem Strangers.smaller (h₀ : Strangers P C w₀) : ∃ s, (w₀.node s).myPeerId < w₀.peer s := by
  by_cases hlt : (w₀.node .alice).myPeerId < w₀.peer .alice
  · exact ⟨.alice, hlt⟩
  · refine ⟨.bob, ?_⟩
    have hle : w₀.peer .alice ≤ (w₀.node .alice).myPeerId := String.not_lt.mp hlt
    by_contra hge
    exact h₀.distinct .alice (String.le_antisymm (String.not_lt.mp hge) hle)

theorem nothing_read (hP : P.Ideal) (h₀ : Strangers P C w₀)
    (h : Reach (fun w => w = w₀) (Guarded OwnRequests (DmStep P C)) w) (p : Side) :
    incoming (w.node p).conn (w.peer p) = incoming (w₀.node p).conn (w₀.peer p) := by
  obtain ⟨s, hs⟩ := h₀.smaller
  exact (stuck_reach hP h₀ hs h).saved p

/-- **No direct message session ever starts.** For every two friends without a stored state:
    whichever side sends first, its state and the one its receiver starts from are not
    complementary; and in every run of commands and deliveries no message is read on either side. -/
theorem first_message_never (hP : P.Ideal) (h₀ : Strangers P C w₀) :
    (∀ p f f' drawn drawn',
      ¬ Complementary P (sendState P C f w₀ p drawn) (receiveState P C f' w₀ p.other drawn')) ∧
    ∀ w, Reach (fun w => w = w₀) (Guarded OwnRequests (DmStep P C)) w →
      ∀ p, incoming (w.node p).conn (w.peer p) = incoming (w₀.node p).conn (w₀.peer p) :=
  ⟨fun p => not_complementary h₀ p, fun _ h p => nothing_read hP h₀ h p⟩

end

/-! ## 6. Two friends -/

/-- Two friends whose profiles are new. -/
def newFriends (P : Primitives Key) (C : DmWire Key) (secret bobSecret : Key) : DmWorld Key where
  node
    | .alice => friendNode C "a" "b" secret (P.publicKey bobSecret)
    | .bob => friendNode C "b" "a" bobSecret (P.publicKey secret)
  sent _ := []
  given _ := []
  pubs := []

section

variable {P : Primitives Key} {C : DmWire Key} {secret bobSecret : Key}

theorem newFriends_strangers : Strangers P C (newFriends P C secret bobSecret) where
  distinct p := by
    have hab : "a" ≠ "b" := by decide
    cases p with
    | alice => exact hab
    | bob => exact hab.symm
  friend p := by
    cases p with
    | alice => exact friendNode_friend C "a" "b" secret (P.publicKey bobSecret)
    | bob => exact friendNode_friend C "b" "a" bobSecret (P.publicKey secret)
  noState p := by cases p <;> rfl
  sent _ := rfl

variable [DecidableEq Key] [Zero Key]

/-- One sends and the other is given what it has sent. -/
def firstContact (P : Primitives Key) (C : DmWire Key) (secret bobSecret drawn newSecret : Key)
    (a : SendArgs Key) : DmWorld Key :=
  ((newFriends P C secret bobSecret).after P C (.send noFaults .alice a)).after P C
    (.deliver noFaults .bob 0 drawn newSecret)

theorem firstContact_reach (P : Primitives Key) (C : DmWire Key) (secret bobSecret : Key)
    (a : SendArgs Key) (drawn newSecret : Key) :
    Reach (fun w => w = newFriends P C secret bobSecret) (Guarded OwnRequests (DmStep P C))
      (firstContact P C secret bobSecret drawn newSecret a) := by
  have h₁ : Reach (fun w => w = newFriends P C secret bobSecret)
      (Guarded OwnRequests (DmStep P C))
      ((newFriends P C secret bobSecret).after P C (.send noFaults .alice a)) :=
    .step _ (DmEvent.send noFaults .alice a) _ (.start _ rfl) ⟨trivial, rfl⟩
  exact .step _ (DmEvent.deliver noFaults .bob 0 drawn newSecret) _ h₁ ⟨trivial, rfl⟩

/-- **The first message is sent, delivered and not read.** -/
theorem firstContact_unread (hP : P.Ideal) {a : SendArgs Key}
    (hm : P.accepts (Codec.utf8.enc a.text) = true) (drawn newSecret : Key) :
    (firstContact P C secret bobSecret drawn newSecret a).given .alice = [0] ∧
      incoming ((firstContact P C secret bobSecret drawn newSecret a).node .bob).conn "a" = [] := by
  constructor
  · obtain ⟨e, st, henc⟩ : ∃ e st, encrypt P a.nonce
        (initAlice P a.drawn (deriveStaticSharedSecret P secret (P.publicKey bobSecret))
          (P.publicKey bobSecret)) (Codec.utf8.enc a.text) = (.ok e, st) :=
      ⟨_, _, encrypt_ok a.nonce rfl hm⟩
    have htrust : (0 : Int64) ≤ 0 := by decide
    have hflag : decide ("a" < "b") = true := by decide
    have hload :
      loadOrInitDrState P C noFaults (friendNode C "a" "b" secret (P.publicKey bobSecret)).conn
        "b" secret (P.publicKey bobSecret) (decide ("a" < "b")) a.drawn =
        initAlice P a.drawn (deriveStaticSharedSecret P secret (P.publicKey bobSecret))
          (P.publicKey bobSecret) := by
      rw [loadOrInitDrState_none rfl, hflag, if_pos rfl]
    have hreq := sendPrivateMessage_sends (n := friendNode C "a" "b" secret (P.publicKey bobSecret))
      (a := a) rfl htrust (friendNode_friend C "a" "b" secret (P.publicKey bobSecret))
      ((congrArg (fun s => encrypt P a.nonce s _) hload).trans henc)
    have hsent :
      ((newFriends P C secret bobSecret).after P C (.send noFaults .alice a)).sent .alice =
        [(dmRequest C a e st, a.text)] := by
      rw [DmWorld.after_send_sent, show (newFriends P C secret bobSecret).peer .alice =
        "b" from rfl, show (newFriends P C secret bobSecret).node .alice =
          friendNode C "a" "b" secret (P.publicKey bobSecret) from rfl, hreq]
      rfl
    have hget : (((newFriends P C secret bobSecret).after P C (.send noFaults .alice a)).sent
        Side.bob.other)[0]? = some (dmRequest C a e st, a.text) := by
      rw [show Side.bob.other = Side.alice from rfl, hsent]
      rfl
    exact DmWorld.after_deliver_given P C hget noFaults drawn newSecret
  · have hnew : Strangers P C (newFriends P C secret bobSecret) := newFriends_strangers
    obtain ⟨s, hs⟩ := hnew.smaller
    have hstuck :=
      stuck_reach hP hnew hs (firstContact_reach P C secret bobSecret a drawn newSecret)
    have hsaved := hstuck.saved .bob
    rw [hstuck.peer .bob] at hsaved
    exact hsaved

end

/-- The symbolic primitives: two new friends. -/
theorem first_message_never_new :
    (∀ p f f' drawn drawn', ¬ Complementary symbolic
      (sendState symbolic .numbered f
        (newFriends symbolic .numbered (.secret 1) (.secret 2)) p drawn)
      (receiveState symbolic .numbered f' (newFriends symbolic .numbered (.secret 1) (.secret 2))
        p.other drawn')) ∧
    ∀ w, Reach (fun w => w = newFriends symbolic .numbered (.secret 1) (.secret 2))
        (Guarded OwnRequests (DmStep symbolic .numbered)) w →
      ∀ p, incoming (w.node p).conn (w.peer p) =
        incoming ((newFriends symbolic .numbered (.secret 1) (.secret 2)).node p).conn
          ((newFriends symbolic .numbered (.secret 1) (.secret 2)).peer p) :=
  first_message_never symbolic_ideal newFriends_strangers

/-- The peer with the smaller id sends its first message, the other is given it: the states they
    start from are not complementary, and the message is not read. -/
theorem first_message_unread :
    Strangers symbolic .numbered (newFriends symbolic .numbered (.secret 1) (.secret 2)) ∧
    ¬ Complementary symbolic
      (sendState symbolic .numbered noFaults (newFriends symbolic .numbered (.secret 1) (.secret 2))
        .alice (.secret 7))
      (receiveState symbolic .numbered noFaults
        (newFriends symbolic .numbered (.secret 1) (.secret 2)) .bob (.secret 8)) ∧
    (firstContact symbolic .numbered (.secret 1) (.secret 2) (.secret 8) (.secret 3)
      greetingArgs).given .alice = [0] ∧
    incoming ((firstContact symbolic .numbered (.secret 1) (.secret 2) (.secret 8) (.secret 3)
      greetingArgs).node .bob).conn "a" = [] :=
  have htext : symbolic.accepts (Codec.utf8.enc greetingArgs.text) = true := by decide
  ⟨newFriends_strangers, not_complementary newFriends_strangers .alice noFaults noFaults _ _,
    firstContact_unread symbolic_ideal htext _ _⟩

end AlterChat.DirectMessages
