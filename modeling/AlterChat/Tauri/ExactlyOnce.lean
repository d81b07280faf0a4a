import AlterChat.Tauri.DirectMessages
import AlterChat.Core.RatchetReplay

/-!
# Direct messages are saved exactly once

Two peers with complementary stored states, a network that duplicates, reorders and drops requests
and injects ones of its own. The `X3dhDm` handler works on a copy of the stored state and writes it
back only with the message, so a rejected request leaves nothing behind.

* `Carries C w v` -- the two peers of `w` store the states of the ratchet session `v`, and their
  requests carry its envelopes;
* `Carries.send`, `.deliver`, `.again`, `.junk` -- every event is a step of the session or none;
* `delivered_exactly_once` -- the received messages are the messages delivered, in the order in
  which each came for the first time.
-/

namespace AlterChat.DirectMessages

open Lib DoubleRatchet Db Primitives

variable {Key : Type}

/-! ## 1. The property -/

/-- The row that the handler of `p` saves for the `k`-th request of the other side. -/
def DmWorld.row (w : DmWorld Key) (p : Side) (k : Nat) : Option PrivateMessage :=
  ((w.sent p.other)[k]?).map fun x =>
    { peerId := w.peer p, senderIsMe := false, text := x.2, timestamp := x.1.timestamp
      ttl := x.1.ttl }

/-- **The property for one receiver**: since `w₀` it has been given the requests `new`, each for the
    first time, and has saved the message of each of them once. -/
def ExactlyOnce (w₀ w : DmWorld Key) (p : Side) : Prop :=
  ∃ new : List Nat, w.given p.other = w₀.given p.other ++ new ∧ new.Nodup ∧
    (∀ k ∈ new, k ∉ w₀.given p.other ∧ (w.row p k).isSome = true) ∧
    incoming (w.node p).conn (w.peer p) =
      incoming (w₀.node p).conn (w₀.peer p) ++ new.filterMap (w.row p)

/-! ## 2. The session behind the two databases -/

/-- The envelope in a request, with the bytes of its text. -/
def readBack (C : DmWire Key) (x : X3dhDm Key × String) : Option (DrEnvelope Key × Bytes) :=
  (C.envelopeBytes.dec x.1.drEnvelope).map fun e => (e, Codec.utf8.enc x.2)

/-- The two peers store the states of a session and have sent its envelopes. -/
structure Carries (C : DmWire Key) (w : DmWorld Key) (v : World Key) : Prop where
  friend : ∀ p, ∃ pk, FriendKey C (w.node p).conn (w.peer p) pk
  state : ∀ p, StoredState C (w.node p).conn (w.peer p) (v.state p)
  sent : ∀ p, (w.sent p).map (readBack C) = (v.sent p).map some
  given : ∀ p k, k ∈ w.given p ↔ k ∈ v.delivered p
  pubs : ∀ x ∈ v.pubs, x ∈ w.pubs

/-- Two peers whose stored states a session of the shared secret `sk` has reached. -/
def DmStart [DecidableEq Key] [Zero Key] (P : Primitives Key) (C : DmWire Key) (sk : Key)
    (w : DmWorld Key) : Prop :=
  ∃ v, Session P sk v ∧ Carries C w v

/-- **What the schedule may do.** No statement fails. A request that is delivered for the first time
    meets a fresh secret and asks for no more than `MAX_SKIP` keys of a chain. A request of another
    origin is not sealed under a key of the session. -/
def Schedule [DecidableEq Key] [Zero Key] (P : Primitives Key) (C : DmWire Key) (sk : Key)
    (w : DmWorld Key) : DmEvent Key → Prop
  | .send f _ _ => f = noFaults
  | .deliver f p k _ newSecret => f = noFaults ∧ (k ∉ w.given p.other →
      P.publicKey newSecret ∉ w.pubs ∧
      ∀ state req text e, StoredState C (w.node p).conn (w.peer p) state →
        (w.sent p.other)[k]? = some (req, text) → C.envelopeBytes.dec req.drEnvelope = some e →
        SkipsWithin state e.header)
  | .inject f _ req _ _ => f = noFaults ∧
      ∀ e, C.envelopeBytes.dec req.drEnvelope = some e →
        ∀ k, Descends P sk k → ∀ nonce m, e.ciphertext ≠ P.aeadSeal k nonce m

section

variable {C : DmWire Key} {w : DmWorld Key} {v : World Key} {p : Side}

/-- Other writes of a peer do not show. -/
theorem friends_setConn (h : ∀ q, ∃ pk, FriendKey C (w.node q).conn (w.peer q) pk) {conn : Database}
    (hf : conn.friends = (w.node p).conn.friends) (q : Side) :
    ∃ pk, FriendKey C ((w.setConn p conn).node q).conn ((w.setConn p conn).peer q) pk := by
  obtain ⟨pk, friend, hlookup, hk⟩ := h q
  rw [DmWorld.setConn_peer]
  rcases p.eq_or_other q with rfl | rfl
  · rw [DmWorld.setConn_self]
    exact ⟨pk, friend, hf ▸ hlookup, hk⟩
  · rw [DmWorld.setConn_other]
    exact ⟨pk, friend, hlookup, hk⟩

theorem states_setConn {state : Side → DrState Key}
    (h : ∀ q, StoredState C (w.node q).conn (w.peer q) (state q)) {conn : Database}
    {st : DrState Key} (hst : StoredState C conn (w.peer p) st) (q : Side) :
    StoredState C ((w.setConn p conn).node q).conn ((w.setConn p conn).peer q)
      (Function.update state p st q) := by
  rw [DmWorld.setConn_peer]
  rcases p.eq_or_other q with rfl | rfl
  · rwa [DmWorld.setConn_self, Function.update_self]
  · rw [DmWorld.setConn_other, Function.update_of_ne p.other_ne]
    exact h _

/-- A peer that leaves its states and friends alone carries the same session. -/
theorem Carries.setConn (h : Carries C w v) {conn : Database}
    (hconn : Untouched (w.node p).conn conn) : Carries C (w.setConn p conn) v where
  friend := friends_setConn h.friend hconn.friends
  state q := by
    have hst : StoredState C conn (w.peer p) (v.state p) := by
      obtain ⟨blob, hrow, hdec⟩ := h.state p
      exact ⟨blob, hconn.ratchetStates ▸ hrow, hdec⟩
    have := states_setConn h.state hst q
    rwa [Function.update_eq_self] at this
  sent := h.sent
  given := h.given
  pubs := h.pubs

/-- The session's envelope behind a request. -/
theorem Carries.envelope (h : Carries C w v) {k : Nat} {req : X3dhDm Key} {text : String}
    (hk : (w.sent p)[k]? = some (req, text)) :
    ∃ e, C.envelopeBytes.dec req.drEnvelope = some e ∧
      (v.sent p)[k]? = some (e, Codec.utf8.enc text) := by
  have hget := congrArg (·[k]?) (h.sent p)
  simp only [List.getElem?_map, hk, Option.map_some] at hget
  obtain ⟨y, hy, hread⟩ := Option.map_eq_some_iff.mp hget.symm
  obtain ⟨e, he, rfl⟩ := Option.map_eq_some_iff.mp hread.symm
  exact ⟨e, he, hy⟩

end

/-! ## 3. Every event is a step of the session or none -/

theorem accepts_of_encrypt_ok {P : Primitives Key} {nonce : Nonce} {s st : DrState Key} {m : Bytes}
    {e : DrEnvelope Key} (h : encrypt P nonce s m = (.ok e, st)) : P.accepts m = true := by
  cases hck : s.ckSend with
  | none =>
    rw [encrypt_no_chain P nonce m hck] at h
    cases h
  | some ck =>
    cases hm : P.accepts m with
    | true => rfl
    | false =>
      rw [encrypt_refused nonce hck hm] at h
      cases h

section

variable [DecidableEq Key] [Zero Key] {P : Primitives Key} {C : DmWire Key} {sk : Key}
  {w : DmWorld Key} {v : World Key} {H : History Key} {idx : Side → Nat}
  {seen : Side → Nat → Nat → Prop}

/-- **A command sends the next envelope of the session**, or leaves it. -/
theorem Carries.send (h : Carries C w v) (hv : Session P sk v) (p : Side) (a : SendArgs Key) :
    ∃ v', Session P sk v' ∧ Carries C (w.after P C (.send noFaults p a)) v' := by
  rcases sendPrivateMessage_cases P C noFaults (w.node p) (w.peer p) a with
    ⟨hsame, hnone⟩ | ⟨pk, e, st, conn, hfriend, henc, hreq, hsame, hconn⟩
  · have hw : w.after P C (.send noFaults p a) =
        w.setConn p (sendPrivateMessage P C noFaults (w.node p) (w.peer p) a).1 := by
      simp [DmWorld.after, hnone, DmWorld.setConn]
    rw [hw]
    exact ⟨v, hv, h.setConn hsame⟩
  · rw [loadOrInitDrState_stored (h.state p)] at henc
    have hacc : P.accepts (Codec.utf8.enc a.text) = true := accepts_of_encrypt_ok henc
    refine ⟨v.encrypted P p a.nonce (Codec.utf8.enc a.text),
      .step v (Event.encrypt p a.nonce (Codec.utf8.enc a.text)) _ hv ⟨hacc, .encrypt ..⟩, ?_⟩
    have hfriends : (saveDrState C noFaults conn (w.peer p) st).friends =
        (w.node p).conn.friends := by
      rw [saveDrState_frame]
      exact hsame.friends
    simp only [DmWorld.after, hreq, hconn, List.map_cons, List.map_nil]
    exact
    { friend := friends_setConn h.friend hfriends
      state := by
        simp only [World.encrypted, henc]
        exact states_setConn h.state (storedState_save ..)
      sent := fun q => by
        simp only [World.encrypted, henc]
        rcases p.eq_or_other q with rfl | rfl
        · rw [Function.update_self, Function.update_self, List.map_append, List.map_append, h.sent]
          simp [readBack, dmRequest]
        · rw [Function.update_of_ne p.other_ne, Function.update_of_ne p.other_ne]
          exact h.sent _
      given := h.given
      pubs := h.pubs }

/-- A request whose envelope does not decrypt changes nothing. -/
theorem x3dhDm_rejected {n : Node Key} {peerId : String} {req : X3dhDm Key} {drawn newSecret : Key}
    {state : DrState Key} (hstate : StoredState C n.conn peerId state)
    (hrej : ∀ e, C.envelopeBytes.dec req.drEnvelope = some e →
      ∃ x, (decrypt P newSecret state e).1 = .error x) :
    (x3dhDm P C noFaults n peerId req drawn newSecret).1 = n.conn := by
  rcases x3dhDm_cases P C noFaults n peerId req drawn newSecret with
    hsame | ⟨pk, e, plaintext, text, st, -, he, hdec, -⟩
  · exact hsame
  · rw [loadOrInitDrState_stored hstate] at hdec
    obtain ⟨x, hx⟩ := hrej e he
    rw [hdec] at hx
    cases hx

/-- **The first delivery of a request**: a step of the session, and its message is saved. -/
theorem Carries.deliver (hP : P.Ideal) (h : Carries C w v) (hv : Session P sk v)
    {p : Side} {k : Nat} {req : X3dhDm Key} {text : String} {drawn newSecret : Key}
    (hk : (w.sent p.other)[k]? = some (req, text)) (hnew : k ∉ w.given p.other)
    (hcond : Schedule P C sk w (.deliver noFaults p k drawn newSecret)) :
    (∃ v', Session P sk v' ∧ Carries C (w.after P C (.deliver noFaults p k drawn newSecret)) v') ∧
    incoming (x3dhDm P C noFaults (w.node p) (w.peer p) req drawn newSecret).1 (w.peer p) =
      incoming (w.node p).conn (w.peer p) ++
        [{ peerId := w.peer p, senderIsMe := false, text, timestamp := req.timestamp
           ttl := req.ttl }] := by
  obtain ⟨e, he, hvk⟩ := h.envelope hk
  obtain ⟨hfresh, hskip⟩ := hcond.2 hnew
  have hstep : Guarded (Accepted P) (Step P) v (.deliver p k newSecret)
      (v.decrypted P p k newSecret e (Codec.utf8.enc text)) :=
    ⟨trivial, .deliver v p k newSecret e _ hvk (fun hd => hnew ((h.given _ _).mpr hd))
      (fun hx => hfresh (h.pubs _ hx)) (hskip _ req text e (h.state p) hk he)⟩
  obtain ⟨H, idx, seen, ht⟩ := hv.tracks hP.toLawful
  obtain ⟨H', idx', seen', ht'⟩ := ht.step hP.toLawful hstep
  have hok : (decrypt P newSecret (v.state p) e).1 = .ok (Codec.utf8.enc text) :=
    ht'.results _ (List.mem_append_right _ (List.mem_singleton_self _))
  obtain ⟨pk, hfriend⟩ := h.friend p
  have hread : (x3dhDm P C noFaults (w.node p) (w.peer p) req drawn newSecret).1 = _ :=
    x3dhDm_read rfl hfriend he
      (by rw [loadOrInitDrState_stored (h.state p)]; exact Prod.ext hok rfl)
  have hfriends : (saveDrState C noFaults (savePrivateMessage noFaults (w.node p).conn (w.peer p)
      false text req.timestamp req.ttl).2 (w.peer p)
      (decrypt P newSecret (v.state p) e).2).friends = (w.node p).conn.friends := by
    obtain ⟨index, hsave⟩ := savePrivateMessage_frame noFaults (w.node p).conn (w.peer p) false text
      req.timestamp req.ttl
    rw [hsave, saveDrState_frame]
  refine ⟨⟨_, .step v _ _ hv hstep, ?_⟩, ?_⟩
  · simp only [DmWorld.after, hk, hread]
    exact
    { friend := friends_setConn h.friend hfriends
      state := states_setConn h.state (storedState_save ..)
      sent := h.sent
      given := fun q k' => by
        show k' ∈ Function.update w.given p.other (firstTime (w.given p.other) k) q ↔
          k' ∈ Function.update v.delivered p.other (k :: v.delivered p.other) q
        by_cases hq : q = p.other
        · subst hq
          rw [Function.update_self, Function.update_self, firstTime, if_neg hnew, List.mem_append,
            List.mem_singleton, List.mem_cons, h.given, or_comm]
        · rw [Function.update_of_ne hq, Function.update_of_ne hq]
          exact h.given q k'
      pubs := fun x hx => by
        rcases List.mem_cons.mp hx with rfl | hx
        · rcases decrypt_dhSendPub P newSecret (v.state p) e with hold | hdraw
          · have hown : (v.state p).dhSendPub ∈ v.pubs :=
              (ht.synced.party p).dhSendPub ▸ ht.pubs (idx p) p (Nat.le_refl _)
            exact hold ▸ List.mem_cons_of_mem _ (h.pubs _ hown)
          · exact hdraw ▸ List.mem_cons_self
        · exact List.mem_cons_of_mem _ (h.pubs x hx) }
  · rw [hread, incoming_saveDrState, incoming_saveReceived]

/-- A request delivered again, and one that was not sealed in the session, change nothing. -/
theorem Carries.again (hP : P.Ideal) (h : Carries C w v) (hv : Session P sk v) {p : Side} {k : Nat}
    {req : X3dhDm Key} {text : String} (drawn newSecret : Key)
    (hk : (w.sent p.other)[k]? = some (req, text)) (hold : k ∈ w.given p.other) :
    (x3dhDm P C noFaults (w.node p) (w.peer p) req drawn newSecret).1 = (w.node p).conn := by
  obtain ⟨e, he, hvk⟩ := h.envelope hk
  obtain ⟨H, idx, seen, ht⟩ := hv.tracks hP.toLawful
  refine x3dhDm_rejected (h.state p) fun e' he' => ?_
  rw [he] at he'
  cases he'
  exact ht.replay hP p hvk ((h.given _ _).mp hold) newSecret

theorem Carries.junk (hP : P.Ideal) (h : Carries C w v) (hv : Session P sk v) {p : Side}
    {req : X3dhDm Key} {drawn newSecret : Key}
    (hcond : Schedule P C sk w (.inject noFaults p req drawn newSecret)) :
    (x3dhDm P C noFaults (w.node p) (w.peer p) req drawn newSecret).1 = (w.node p).conn := by
  obtain ⟨H, idx, seen, ht⟩ := hv.tracks hP.toLawful
  exact x3dhDm_rejected (h.state p) fun e he => ht.junk hP p (hcond.2 e he) newSecret

end

/-! ## 4. What is saved -/

section

variable {w₀ w w' : DmWorld Key} {p : Side}

theorem ExactlyOnce.refl (w : DmWorld Key) (p : Side) : ExactlyOnce w w p :=
  ⟨[], (List.append_nil _).symm, List.nodup_nil, fun _ hk => absurd hk List.not_mem_nil,
    (List.append_nil _).symm⟩

/-- What has been sent stays sent. -/
def SentKept (w w' : DmWorld Key) (p : Side) : Prop :=
  ∀ (k : Nat) x, (w.sent p)[k]? = some x → (w'.sent p)[k]? = some x

theorem row_kept (hpeer : w'.peer p = w.peer p) (hsent : SentKept w w' p.other) {k : Nat}
    (hk : (w.row p k).isSome = true) : w'.row p k = w.row p k := by
  unfold DmWorld.row at hk ⊢
  rw [Option.isSome_map] at hk
  obtain ⟨x, hx⟩ := Option.isSome_iff_exists.mp hk
  rw [hsent k x hx, hx, hpeer]

/-- An event that saves no received message. -/
theorem ExactlyOnce.keep (h : ExactlyOnce w₀ w p) (hgiven : w'.given p.other = w.given p.other)
    (hpeer : w'.peer p = w.peer p) (hsent : SentKept w w' p.other)
    (hin : incoming (w'.node p).conn (w.peer p) = incoming (w.node p).conn (w.peer p)) :
    ExactlyOnce w₀ w' p := by
  obtain ⟨new, hg, hnodup, hnew, hsaved⟩ := h
  have hrow : ∀ k ∈ new, w'.row p k = w.row p k := fun k hk => row_kept hpeer hsent (hnew k hk).2
  refine ⟨new, hgiven.trans hg, hnodup, fun k hk => ⟨(hnew k hk).1, ?_⟩, ?_⟩
  · rw [hrow k hk]
    exact (hnew k hk).2
  · rw [hpeer, hin, hsaved, List.filterMap_congr hrow]

/-- The first delivery of a request. -/
theorem ExactlyOnce.more (h : ExactlyOnce w₀ w p) {k : Nat} (hk : k ∉ w.given p.other)
    {m : PrivateMessage} (hgiven : w'.given p.other = w.given p.other ++ [k])
    (hpeer : w'.peer p = w.peer p) (hsent : SentKept w w' p.other) (hm : w'.row p k = some m)
    (hin : incoming (w'.node p).conn (w.peer p) = incoming (w.node p).conn (w.peer p) ++ [m]) :
    ExactlyOnce w₀ w' p := by
  obtain ⟨new, hg, hnodup, hnew, hsaved⟩ := h
  rw [hg, List.mem_append, not_or] at hk
  have hrow : ∀ k ∈ new, w'.row p k = w.row p k := fun k hk => row_kept hpeer hsent (hnew k hk).2
  refine ⟨new ++ [k], by rw [hgiven, hg, List.append_assoc], ?_, fun j hj => ?_, ?_⟩
  · exact List.nodup_append.mpr ⟨hnodup, List.nodup_singleton k, fun a ha b hb hab =>
      hk.2 (List.mem_singleton.mp hb ▸ hab ▸ ha)⟩
  · rcases List.mem_append.mp hj with hj | hj
    · rw [hrow j hj]
      exact hnew j hj
    · obtain rfl := List.mem_singleton.mp hj
      exact ⟨hk.1, by rw [hm]; rfl⟩
  · rw [hpeer, hin, hsaved, List.filterMap_append, List.filterMap_congr hrow, List.append_assoc]
    simp [hm]

/-- A request that the handler of `q` rejects: nobody has saved anything. -/
theorem ExactlyOnce.rejected (h : ExactlyOnce w₀ w p) (q : Side)
    (hnode : w'.node = (w.setConn q (w.node q).conn).node) (hsent : w'.sent = w.sent)
    (hgiven : w'.given = w.given) : ExactlyOnce w₀ w' p := by
  have hsame : w'.node = w.node := by
    rw [hnode]
    exact Function.update_eq_self q w.node
  refine h.keep (by rw [hgiven]) ?_ (fun k x hx => hsent ▸ hx) (by rw [hsame])
  unfold DmWorld.peer
  rw [hsame]

end

section

variable [DecidableEq Key] [Zero Key] {P : Primitives Key} {C : DmWire Key} {sk : Key}
  {w₀ w : DmWorld Key} {v : World Key}

/-- `SendPrivateMessage` saves no received message, on either side. -/
theorem ExactlyOnce.send {p : Side} (h : ExactlyOnce w₀ w p) (f : Faults) (q : Side)
    (a : SendArgs Key) : ExactlyOnce w₀ (w.after P C (.send f q a)) p := by
  refine h.keep rfl (w.setConn_peer q _ p) (fun k x hx => ?_) ?_
  · show (Function.update w.sent q _ p.other)[k]? = some x
    by_cases hq : p.other = q
    · subst hq
      rw [Function.update_self]
      exact List.getElem?_append_left (List.getElem?_eq_some_iff.mp hx).1 ▸ hx
    · rwa [Function.update_of_ne hq]
  · show incoming ((w.setConn q _).node p).conn _ = _
    rcases q.eq_or_other p with rfl | rfl
    · rw [DmWorld.setConn_self]
      rcases sendPrivateMessage_cases P C f (w.node p) (w.peer p) a with
        ⟨hsame, -⟩ | ⟨_, _, st, conn, -, -, -, hsame, hconn⟩
      · exact hsame.incoming _
      · rw [hconn, incoming_saveDrState]
        exact hsame.incoming _
    · rw [DmWorld.setConn_other]

/-- **A request that is given for the first time is saved by the peer that is given it**, and the
    other one notices nothing. -/
theorem exactlyOnce_first {q : Side} {k : Nat} {req : X3dhDm Key} {text : String}
    {drawn newSecret : Key} (hk : (w.sent q.other)[k]? = some (req, text))
    (hnew : k ∉ w.given q.other)
    (hin : incoming (x3dhDm P C noFaults (w.node q) (w.peer q) req drawn newSecret).1 (w.peer q) =
      incoming (w.node q).conn (w.peer q) ++
        [{ peerId := w.peer q, senderIsMe := false, text, timestamp := req.timestamp,
           ttl := req.ttl }])
    (h : ∀ p, ExactlyOnce w₀ w p) (p : Side) :
    ExactlyOnce w₀ (w.after P C (.deliver noFaults q k drawn newSecret)) p := by
  simp only [DmWorld.after, hk, firstTime, if_neg hnew]
  rcases q.eq_or_other p with rfl | rfl
  · refine (h p).more hnew (Function.update_self ..) (w.setConn_peer p _ p) (fun _ _ hx => hx) ?_ ?_
      (m := { peerId := w.peer p, senderIsMe := false, text, timestamp := req.timestamp,
              ttl := req.ttl })
    · show ((w.sent p.other)[k]?).map _ = _
      rw [hk, Option.map_some]
      exact congrArg (fun id => some (PrivateMessage.mk id false text _ _)) (w.setConn_peer p _ p)
    · show incoming ((w.setConn p _).node p).conn _ = _
      rw [DmWorld.setConn_self]
      exact hin
  · refine (h q.other).keep ?_ (w.setConn_peer q _ q.other) (fun _ _ hx => hx) ?_
    · show Function.update w.given q.other _ q.other.other = _
      rw [q.other_other, Function.update_of_ne q.other_ne.symm]
    · show incoming ((w.setConn q _).node q.other).conn _ = _
      rw [DmWorld.setConn_other]

/-- **One event of the schedule**: the two peers carry a session again, and each has saved what it
    has been given for the first time. -/
theorem exactlyOnce_step (hP : P.Ideal) {w' : DmWorld Key} {ev : DmEvent Key}
    (hstep : Guarded (Schedule P C sk) (DmStep P C) w ev w') (hv : Session P sk v)
    (hc : Carries C w v) (h : ∀ p, ExactlyOnce w₀ w p) :
    (∃ v', Session P sk v' ∧ Carries C w' v') ∧ ∀ p, ExactlyOnce w₀ w' p := by
  obtain ⟨hcond, rfl⟩ := hstep
  cases ev with
  | send f q a =>
    obtain rfl : f = noFaults := hcond
    exact ⟨hc.send hv q a, fun p => (h p).send noFaults q a⟩
  | deliver f q k drawn newSecret =>
    obtain rfl : f = noFaults := hcond.1
    cases hk : (w.sent q.other)[k]? with
    | none =>
      have hw : w.after P C (.deliver noFaults q k drawn newSecret) = w := by
        simp only [DmWorld.after, hk]
      rw [hw]
      exact ⟨⟨v, hv, hc⟩, h⟩
    | some x =>
      obtain ⟨req, text⟩ := x
      by_cases hold : k ∈ w.given q.other
      · -- a duplicate
        have hsame := hc.again hP hv drawn newSecret hk hold
        have hc' := hc.setConn (p := q) (Untouched.refl _)
        have hgiven : Function.update w.given q.other (w.given q.other) = w.given :=
          Function.update_eq_self ..
        simp only [DmWorld.after, hk, hsame, firstTime, if_pos hold, hgiven]
        refine ⟨⟨v, hv, hc'.friend, hc'.state, hc.sent, hc.given, fun x hx => ?_⟩, fun p => ?_⟩
        · exact List.mem_cons_of_mem _ (hc.pubs x hx)
        · exact (h p).rejected q rfl rfl rfl
      · obtain ⟨hcarries, hin⟩ := hc.deliver hP hv hk hold hcond
        exact ⟨hcarries, exactlyOnce_first hk hold hin h⟩
  | inject f q req drawn newSecret =>
    obtain rfl : f = noFaults := hcond.1
    have hsame := hc.junk hP hv hcond
    simp only [DmWorld.after, hsame]
    exact ⟨⟨v, hv, hc.setConn (Untouched.refl _)⟩, fun p => (h p).rejected q rfl rfl rfl⟩

/-- **Exactly once.** Two peers store the two states of a session, reached from `init_alice` and
    `init_bob`. Whatever they send and however requests are duplicated, reordered, dropped and mixed
    with junk, each peer saves the message of every request that it is given, once. -/
theorem delivered_exactly_once (hP : P.Ideal) (h₀ : DmStart P C sk w₀)
    (h : Reach (fun w => w = w₀) (Guarded (Schedule P C sk) (DmStep P C)) w) (p : Side) :
    ExactlyOnce w₀ w p := by
  obtain ⟨v₀, hv₀, hc₀⟩ := h₀
  have hinv := h.inv
    (I := fun w => (∃ v, Session P sk v ∧ Carries C w v) ∧ ∀ p, ExactlyOnce w₀ w p)
    (fun w hw => by
      obtain rfl : w = w₀ := hw
      exact ⟨⟨v₀, hv₀, hc₀⟩, .refl w⟩)
    fun w ev w' ⟨⟨v, hv, hc⟩, hall⟩ hstep => exactlyOnce_step hP hstep hv hc hall
  exact hinv.2 p

end

/-! ## 5. A short run -/

/-- Two friends of whom one has stored the state of `init_alice` and one that of `init_bob`. -/
def storedPair (P : Primitives Key) (C : DmWire Key) (sk secret bobSecret : Key) : DmWorld Key where
  node
    | .alice => { friendNode C "a" "b" secret (P.publicKey bobSecret) with
        conn := saveDrState C noFaults
          (friendNode C "a" "b" secret (P.publicKey bobSecret)).conn "b"
          (initAlice P secret sk (P.publicKey bobSecret)) }
    | .bob => { friendNode C "b" "a" bobSecret (P.publicKey secret) with
        conn := saveDrState C noFaults
          (friendNode C "b" "a" bobSecret (P.publicKey secret)).conn "a"
          (initBob sk bobSecret (P.publicKey bobSecret)) }
  sent _ := []
  given _ := []
  pubs := [P.publicKey secret, P.publicKey bobSecret]

section

variable [DecidableEq Key] [Zero Key] {P : Primitives Key} {C : DmWire Key}
  {sk secret bobSecret drawn newSecret : Key}

theorem storedPair_start (h : P.publicKey secret ≠ P.publicKey bobSecret) :
    DmStart P C sk (storedPair P C sk secret bobSecret) := by
  refine ⟨_, .start _ (.init secret bobSecret h), ?_⟩
  exact
  { friend := fun p => by
      cases p with
      | alice =>
        obtain ⟨friend, hf⟩ := friendNode_friend C "a" "b" secret (P.publicKey bobSecret)
        exact ⟨_, friend, hf⟩
      | bob =>
        obtain ⟨friend, hf⟩ := friendNode_friend C "b" "a" bobSecret (P.publicKey secret)
        exact ⟨_, friend, hf⟩
    state := fun p => by
      cases p with
      | alice => exact storedState_save ..
      | bob => exact storedState_save ..
    sent := fun _ => rfl
    given := fun _ _ => Iff.rfl
    pubs := fun _ hx => hx }

/-- The first message of such a pair. -/
theorem storedPair_sends (C : DmWire Key) (sk secret bobSecret : Key) {a : SendArgs Key}
    (hm : P.accepts (Codec.utf8.enc a.text) = true) :
    ∃ e st, e.header.pn = 0 ∧ e.header.n = 0 ∧
      ((storedPair P C sk secret bobSecret).after P C (.send noFaults .alice a)).sent .alice =
        [(dmRequest C a e st, a.text)] := by
  obtain ⟨e, st, henc, hpn, hn⟩ : ∃ e st, encrypt P a.nonce
      (initAlice P secret sk (P.publicKey bobSecret)) (Codec.utf8.enc a.text) = (.ok e, st) ∧
      e.header.pn = 0 ∧ e.header.n = 0 := ⟨_, _, encrypt_ok a.nonce rfl hm, rfl, rfl⟩
  have hfriend : FriendKey C ((storedPair P C sk secret bobSecret).node .alice).conn "b"
      (P.publicKey bobSecret) := by
    obtain ⟨friend, hf⟩ := friendNode_friend C "a" "b" secret (P.publicKey bobSecret)
    exact ⟨friend, hf⟩
  have hstate : StoredState C ((storedPair P C sk secret bobSecret).node .alice).conn "b"
      (initAlice P secret sk (P.publicKey bobSecret)) := storedState_save ..
  have htrust : (0 : Int64) ≤ 0 := by decide
  have hreq := sendPrivateMessage_sends (n := (storedPair P C sk secret bobSecret).node .alice)
    (a := a) rfl htrust hfriend
    (by rw [loadOrInitDrState_stored hstate]; exact henc)
  refine ⟨e, st, hpn, hn, ?_⟩
  rw [DmWorld.after_send_sent, show (storedPair P C sk secret bobSecret).peer .alice = "b" from rfl,
    hreq]
  rfl

/-- One message, which reaches its receiver twice. -/
def deliveredTwice (P : Primitives Key) (C : DmWire Key) (sk secret bobSecret drawn newSecret : Key)
    (a : SendArgs Key) : DmWorld Key :=
  (((storedPair P C sk secret bobSecret).after P C (.send noFaults .alice a)).after P C
    (.deliver noFaults .bob 0 drawn newSecret)).after P C (.deliver noFaults .bob 0 drawn newSecret)

theorem deliveredTwice_reach {a : SendArgs Key} (hm : P.accepts (Codec.utf8.enc a.text) = true)
    (hr : P.publicKey newSecret ∉ [P.publicKey secret, P.publicKey bobSecret]) :
    Reach (fun w => w = storedPair P C sk secret bobSecret) (Guarded (Schedule P C sk) (DmStep P C))
      (deliveredTwice P C sk secret bobSecret drawn newSecret a) := by
  obtain ⟨e, st, hpn, hn, hsent⟩ := storedPair_sends C sk secret bobSecret hm
  have h₁ : Reach (fun w => w = storedPair P C sk secret bobSecret)
      (Guarded (Schedule P C sk) (DmStep P C))
      ((storedPair P C sk secret bobSecret).after P C (.send noFaults .alice a)) :=
    .step _ (DmEvent.send noFaults .alice a) _ (.start _ rfl) ⟨rfl, rfl⟩
  have hbob : StoredState C (((storedPair P C sk secret bobSecret).after P C
      (.send noFaults .alice a)).node .bob).conn "a"
      (initBob sk bobSecret (P.publicKey bobSecret)) :=
    storedState_save C (friendNode C "b" "a" bobSecret (P.publicKey secret)).conn "a" _
  have hget : (((storedPair P C sk secret bobSecret).after P C (.send noFaults .alice a)).sent
      Side.bob.other)[0]? = some (dmRequest C a e st, a.text) := by
    rw [show Side.bob.other = Side.alice from rfl, hsent]
    rfl
  have hfirst : Schedule P C sk ((storedPair P C sk secret bobSecret).after P C
      (.send noFaults .alice a)) (.deliver noFaults .bob 0 drawn newSecret) := by
    refine ⟨rfl, fun _ => ⟨?_, fun state req text e' hst hk he' => ?_⟩⟩
    · rw [DmWorld.after_send_pubs]
      exact hr
    · rw [hget] at hk
      cases hk
      have hdec : some e = some e' := (C.envelopeBytes.dec_enc e).symm.trans he'
      cases hdec
      rw [hst.inj hbob]
      exact .inr ⟨by rw [hpn]; exact Nat.zero_le _, by rw [hn]; exact Nat.zero_le _⟩
  have h₂ := Reach.step _ _ _ h₁ ⟨hfirst, rfl⟩
  have hsecond : Schedule P C sk (((storedPair P C sk secret bobSecret).after P C
      (.send noFaults .alice a)).after P C (.deliver noFaults .bob 0 drawn newSecret))
      (.deliver noFaults .bob 0 drawn newSecret) := by
    -- the second delivery is not a first one
    refine ⟨rfl, fun hnew => ?_⟩
    rw [DmWorld.after_deliver_given P C hget] at hnew
    exact absurd (mem_firstTime _ _) hnew
  exact .step _ _ _ h₂ ⟨hsecond, rfl⟩

end

/-- The symbolic primitives: one message, delivered twice. -/
theorem delivered_exactly_once_twice : ExactlyOnce
    (storedPair symbolic .numbered (.secret 9) (.secret 1) (.secret 2))
    (deliveredTwice symbolic .numbered (.secret 9) (.secret 1) (.secret 2) (.secret 8) (.secret 3)
      greetingArgs) .bob :=
  have hkeys : symbolic.publicKey (.secret 1) ≠ symbolic.publicKey (.secret 2) := by decide
  have hfresh : symbolic.publicKey (.secret 3) ∉
      [symbolic.publicKey (.secret 1), symbolic.publicKey (.secret 2)] := by decide
  have htext : symbolic.accepts (Codec.utf8.enc greetingArgs.text) = true := by decide
  delivered_exactly_once symbolic_ideal (storedPair_start hkeys) (deliveredTwice_reach htext hfresh)
    .bob

end AlterChat.DirectMessages
