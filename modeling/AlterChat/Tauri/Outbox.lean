import AlterChat.Tauri.ExactlyOnce

/-!
# What the sender has handed over

`SendPrivateMessage` hands its envelope to the network and stores the advanced state after that,
with the error ignored. Between the two stands the case that the next command starts from the state
before.

* §1 a process that stops, and runs of commands with stops and failing statements;
* §2 `Durable` -- a state that comes from the table goes back to it; `OutInv` -- what is stored is
  past every position handed over;
* §3 `positions_distinct` -- in such runs no two envelopes share a position;
* §4 two commands whose state cannot be stored.
-/

namespace AlterChat.DirectMessages

open Lib DoubleRatchet Db Primitives

variable {Key : Type}

/-! ## 1. Commands, and a process that stops -/

/-- The effects of the command, in their order. -/
inductive Point where
  | settings
  | message
  | index
  | handOver
  | save
  deriving DecidableEq

/-- The effect of a statement that writes. -/
def Point.ofStmt : Stmt → Option Point
  | .insertPeerSettings => some .settings
  | .savePrivateMessage => some .message
  | .indexPrivateMessage => some .index
  | .saveRatchetState => some .save
  | _ => none

def Point.number : Point → Nat
  | .settings => 0
  | .message => 1
  | .index => 2
  | .handOver => 3
  | .save => 4

/-- Whether the process has stopped when an effect is due. -/
def stopped (stop : Option Point) (p : Point) : Bool :=
  match stop with
  | none => false
  | some q => decide (q.number ≤ p.number)

/-- The writes a process does not get to leave the database alone, like those that fail. -/
def stopFaults (stop : Option Point) (f : Faults) : Faults := fun stmt =>
  match Point.ofStmt stmt with
  | none => f stmt
  | some p => if stopped stop p then some "stopped" else f stmt

/-- `SendPrivateMessage` in a process that stops before an effect: what it has written and the
    requests it has handed over. -/
def sendUntil (P : Primitives Key) (C : DmWire Key) (f : Faults) (n : Node Key) (peerId : String)
    (a : SendArgs Key) (stop : Option Point) : Database × List (X3dhDm Key) :=
  let out := sendPrivateMessage P C (stopFaults stop f) n peerId a
  (out.1, if stopped stop .handOver then [] else requests out.2)

/-- A sender, the requests for one peer it has handed over, and the public keys drawn so far. -/
structure Outbox (Key : Type) where
  node : Node Key
  handed : List (X3dhDm Key)
  pubs : List Key

/-- One command; after a stop the next one runs in a new process on the same database. -/
structure OutEvent (Key : Type) where
  f : Faults
  a : SendArgs Key
  stop : Option Point

/-- The sender after a command to the peer. -/
def Outbox.after (P : Primitives Key) (C : DmWire Key) (peerId : String) (w : Outbox Key)
    (ev : OutEvent Key) : Outbox Key :=
  let out := sendUntil P C ev.f w.node peerId ev.a ev.stop
  { node := { w.node with conn := out.1 }
    handed := w.handed ++ out.2
    pubs := P.publicKey ev.a.drawn :: w.pubs }

/-- One command, with a secret that has not been drawn before. -/
def OutStep (P : Primitives Key) (C : DmWire Key) (peerId : String) (w : Outbox Key)
    (ev : OutEvent Key) (w' : Outbox Key) : Prop :=
  P.publicKey ev.a.drawn ∉ w.pubs ∧ w' = w.after P C peerId ev

/-- The position of a request: `header.dh` and `header.n`. -/
def position (C : DmWire Key) (req : X3dhDm Key) : Option (Key × Nat) :=
  (C.envelopeBytes.dec req.drEnvelope).map fun e => (e.header.dh, e.header.n)

/-- The sender before the first command: the public key of a stored state has been drawn. -/
structure OutStart (C : DmWire Key) (peerId : String) (w : Outbox Key) : Prop where
  handed : w.handed = []
  pubs : ∀ st, StoredState C w.node.conn peerId st → st.dhSendPub ∈ w.pubs

/-! ## 2. What is stored is past what has been handed over -/

/-- **The condition**: the command of a sender with a stored state stores the next one. Its write
    does not fail, and the process does not stop before it once the envelope is out. -/
def Durable (C : DmWire Key) (peerId : String) (w : Outbox Key) (ev : OutEvent Key) : Prop :=
  ev.f .loadRatchetState = none → (∃ st, StoredState C w.node.conn peerId st) →
    ev.f .saveRatchetState = none ∧ ev.stop ≠ some .save

/-- The positions handed over are distinct, their keys have been drawn, and a stored state is past
    those with its own key. -/
structure OutInv (C : DmWire Key) (peerId : String) (w : Outbox Key) : Prop where
  distinct : (w.handed.map (position C)).Nodup
  drawn : ∀ req ∈ w.handed, ∃ dh n, position C req = some (dh, n) ∧ dh ∈ w.pubs
  pubs : ∀ st, StoredState C w.node.conn peerId st → st.dhSendPub ∈ w.pubs
  past : ∀ st, StoredState C w.node.conn peerId st → ∀ req ∈ w.handed, ∀ n,
    position C req = some (st.dhSendPub, n) → n < st.nSend

section

variable {P : Primitives Key} {C : DmWire Key} {peerId : String} {w : Outbox Key}
  {ev : OutEvent Key}

/-- The position of an envelope is that of the state it comes from, and the state after it is one
    on. -/
theorem encrypt_position {nonce : Nonce} {s s' : DrState Key} {m : Bytes} {e : DrEnvelope Key}
    (h : encrypt P nonce s m = (.ok e, s')) :
    e.header.dh = s.dhSendPub ∧ e.header.n = s.nSend ∧ s'.dhSendPub = s.dhSendPub ∧
      s'.nSend = s.nSend + 1 := by
  cases hck : s.ckSend with
  | none =>
    rw [encrypt_no_chain P nonce m hck] at h
    cases h
  | some ck =>
    rw [encrypt_ok nonce hck (accepts_of_encrypt_ok h)] at h
    cases h
    exact ⟨rfl, rfl, rfl, rfl⟩

theorem position_dmRequest (a : SendArgs Key) (e : DrEnvelope Key) (st : DrState Key) :
    position C (dmRequest C a e st) = some (e.header.dh, e.header.n) := by
  simp [position, dmRequest]

/-- A stop is before every effect after it. -/
theorem stopped_save {stop : Option Point} (h : stopped stop .handOver = true) :
    stopped stop .save = true := by
  cases stop with
  | none => cases h
  | some q => cases q <;> rfl

/-- A process that has handed over has not stopped yet, unless it is right before the save. -/
theorem not_stopped_save {stop : Option Point} (h : stopped stop .handOver ≠ true)
    (hne : stop ≠ some .save) : stopped stop .save = false := by
  cases stop with
  | none => rfl
  | some q =>
    cases q with
    | save => exact absurd rfl hne
    | settings | message | index | handOver => exact absurd rfl h

theorem stopFaults_none (f : Faults) : stopFaults none f = f := by
  funext stmt
  unfold stopFaults
  cases Point.ofStmt stmt <;> rfl

theorem stopFaults_save {stop : Option Point} {f : Faults} :
    stopFaults stop f .saveRatchetState = none ↔
      stopped stop .save = false ∧ f .saveRatchetState = none := by
  simp only [stopFaults, Point.ofStmt]
  cases stopped stop .save <;> simp

/-- Nothing is handed over, and the states in the table stay. -/
theorem OutInv.keep (h : OutInv C peerId w) {conn : Database}
    (hstates : conn.ratchetStates = w.node.conn.ratchetStates) (pub : Key) :
    OutInv C peerId
      { node := { w.node with conn }, handed := w.handed ++ [], pubs := pub :: w.pubs } := by
  have hback : ∀ st, StoredState C conn peerId st → StoredState C w.node.conn peerId st := by
    intro st hst
    obtain ⟨blob, hrow, hdec⟩ := hst
    exact ⟨blob, hstates ▸ hrow, hdec⟩
  simp only [List.append_nil]
  exact
  { distinct := h.distinct
    drawn := fun req hreq => by
      obtain ⟨dh, n, hpos, hdh⟩ := h.drawn req hreq
      exact ⟨dh, n, hpos, List.mem_cons_of_mem _ hdh⟩
    pubs := fun st hst => List.mem_cons_of_mem _ (h.pubs st (hback st hst))
    past := fun st hst => h.past st (hback st hst) }

/-- A position that none before has, and a table whose state is past it. -/
theorem OutInv.push (h : OutInv C peerId w) {conn : Database} {req : X3dhDm Key}
    {dh pub : Key} {n : Nat} (hpos : position C req = some (dh, n)) (hdh : dh ∈ pub :: w.pubs)
    (hnew : ∀ r ∈ w.handed, position C r ≠ some (dh, n))
    (hstored : ∀ st, StoredState C conn peerId st → st.dhSendPub ∈ pub :: w.pubs ∧
      (dh = st.dhSendPub → n < st.nSend) ∧
      ∀ r ∈ w.handed, ∀ k, position C r = some (st.dhSendPub, k) → k < st.nSend) :
    OutInv C peerId
      { node := { w.node with conn }, handed := w.handed ++ [req], pubs := pub :: w.pubs } where
  distinct := by
    rw [List.map_append, List.map_singleton, hpos]
    refine List.nodup_append.mpr ⟨h.distinct, List.nodup_singleton _, fun x hx y hy => ?_⟩
    obtain ⟨r, hr, rfl⟩ := List.mem_map.mp hx
    obtain rfl := List.mem_singleton.mp hy
    exact hnew r hr
  drawn r hr := by
    rcases List.mem_append.mp hr with hr | hr
    · obtain ⟨dh', k, hpos', hdh'⟩ := h.drawn r hr
      exact ⟨dh', k, hpos', List.mem_cons_of_mem _ hdh'⟩
    · obtain rfl := List.mem_singleton.mp hr
      exact ⟨dh, n, hpos, hdh⟩
  pubs st hst := (hstored st hst).1
  past st hst r hr k hk := by
    obtain ⟨-, hlast, hbefore⟩ := hstored st hst
    rcases List.mem_append.mp hr with hr | hr
    · exact hbefore r hr k hk
    · obtain rfl := List.mem_singleton.mp hr
      rw [hpos] at hk
      cases hk
      exact hlast rfl

/-- The stored state has sent the envelope, and the state after it is stored. -/
theorem OutInv.next (h : OutInv C peerId w) {conn : Database} {req : X3dhDm Key} {pub : Key}
    {old st : DrState Key} (hold : StoredState C w.node.conn peerId old)
    (hst : StoredState C conn peerId st) (hpos : position C req = some (old.dhSendPub, old.nSend))
    (hdh : st.dhSendPub = old.dhSendPub) (hn : st.nSend = old.nSend + 1) :
    OutInv C peerId
      { node := { w.node with conn }, handed := w.handed ++ [req], pubs := pub :: w.pubs } := by
  have hmem := List.mem_cons_of_mem pub (h.pubs old hold)
  refine h.push hpos hmem (fun r hr hsame => ?_) ?_
  · exact Nat.lt_irrefl _ (h.past old hold r hr _ hsame)
  · intro st' hst'
    obtain rfl := hst'.inj hst
    rw [hdh, hn]
    exact ⟨hmem, fun _ => Nat.lt_succ_self _, fun r hr k hk => Nat.lt_succ_of_lt
      (h.past old hold r hr k hk)⟩

/-- A state with a new key has sent its first envelope, whether the state after it is stored or
    not. -/
theorem OutInv.first (h : OutInv C peerId w) {conn : Database} {req : X3dhDm Key}
    {pub : Key} {n : Nat} {st : DrState Key} (hfresh : pub ∉ w.pubs)
    (hback : ∀ st', StoredState C conn peerId st' → st' = st ∨ StoredState C w.node.conn peerId st')
    (hpos : position C req = some (pub, n)) (hdh : st.dhSendPub = pub) (hn : st.nSend = n + 1) :
    OutInv C peerId
      { node := { w.node with conn }, handed := w.handed ++ [req], pubs := pub :: w.pubs } := by
  have hother : ∀ r ∈ w.handed, ∀ k, position C r ≠ some (pub, k) := by
    intro r hr k hk
    obtain ⟨dh, j, hpos', hmem⟩ := h.drawn r hr
    rw [hk] at hpos'
    cases hpos'
    exact hfresh hmem
  refine h.push hpos List.mem_cons_self (fun r hr => hother r hr _) fun st' hst' => ?_
  rcases hback st' hst' with rfl | hold
  · rw [hdh, hn]
    exact ⟨List.mem_cons_self, fun _ => Nat.lt_succ_self _, fun r hr k hk =>
      absurd hk (hother r hr k)⟩
  · exact ⟨List.mem_cons_of_mem _ (h.pubs st' hold), fun hsame =>
      absurd (hsame ▸ h.pubs st' hold) hfresh, h.past st' hold⟩

/-- **One command keeps the invariant**: a stored state is replaced by the next one, and a new one
    starts a chain of its own. -/
theorem OutInv.after (h : OutInv C peerId w) (hdurable : Durable C peerId w ev)
    (hfresh : P.publicKey ev.a.drawn ∉ w.pubs) : OutInv C peerId (w.after P C peerId ev) := by
  unfold Outbox.after sendUntil
  simp only
  rcases sendPrivateMessage_cases P C (stopFaults ev.stop ev.f) w.node peerId ev.a with
    ⟨hsame, hnone⟩ | ⟨pk, e, st, conn, hfriend, henc, hreq, hsame, hconn⟩
  · rw [hnone, ite_self]
    exact h.keep hsame.ratchetStates _
  · rw [hconn, hreq]
    obtain ⟨hdh, hn, hdh', hn'⟩ := encrypt_position henc
    have hback : ∀ st', StoredState C (saveDrState C (stopFaults ev.stop ev.f) conn peerId st)
        peerId st' → st' = st ∨ StoredState C w.node.conn peerId st' := by
      intro st' hst'
      rcases storedState_of_save hst' with rfl | ⟨blob, hrow, hdec⟩
      · exact .inl rfl
      · exact .inr ⟨blob, hsame.ratchetStates ▸ hrow, hdec⟩
    by_cases hstop : stopped ev.stop .handOver = true
    · -- the envelope is not handed over, and its state is not stored either
      rw [if_pos hstop]
      refine h.keep ?_ _
      have hsave : stopFaults ev.stop ev.f .saveRatchetState ≠ none := by
        intro hnone
        rw [stopFaults_save, stopped_save hstop] at hnone
        cases hnone.1
      rw [saveDrState_frame]
      simp only [if_neg hsave]
      exact hsame.ratchetStates
    · rw [if_neg hstop]
      have hpos := position_dmRequest (C := C) ev.a e st
      rw [hdh, hn] at hpos
      rcases loadOrInitDrState_cases P C (stopFaults ev.stop ev.f) w.node.conn peerId
        w.node.offlineSecretBytes pk (decide (w.node.myPeerId < peerId)) ev.a.drawn with
        ⟨old, hload, hold, heq⟩ | heq
      · obtain ⟨hsave, hne⟩ := hdurable hload ⟨old, hold⟩
        have hwritten := storedState_saved C
          (stopFaults_save.mpr ⟨not_stopped_save hstop hne, hsave⟩) conn peerId st
        rw [heq] at hpos hdh' hn'
        exact h.next hold hwritten hpos hdh' hn'
      · -- only an initiator sends, with a secret of its own
        cases hflag : decide (w.node.myPeerId < peerId) with
        | false =>
          rw [heq, hflag, encrypt_no_chain P _ _ rfl] at henc
          cases henc
        | true =>
          rw [heq, hflag] at hpos hdh' hn'
          exact h.first hfresh hback hpos hdh' hn'

end

/-! ## 3. Every run -/

section

variable {P : Primitives Key} {C : DmWire Key} {peerId : String} {w₀ w : Outbox Key}

theorem OutStart.inv (h : OutStart C peerId w) : OutInv C peerId w where
  distinct := by
    rw [h.handed]
    exact List.nodup_nil
  drawn req hreq := by
    rw [h.handed] at hreq
    cases hreq
  pubs := h.pubs
  past st _ req hreq := by
    rw [h.handed] at hreq
    cases hreq

/-- **No two envelopes share a position**, in every run of commands in which a sender that has a
    stored state stores the next one. -/
theorem positions_distinct (h₀ : OutStart C peerId w₀)
    (h : Reach (fun w => w = w₀) (Guarded (Durable C peerId) (OutStep P C peerId)) w) :
    (w.handed.map (position C)).Nodup := by
  have hinv := h.inv (I := OutInv C peerId)
    (fun w hw => by
      obtain rfl : w = w₀ := hw
      exact h₀.inv)
    fun w ev w' hw hstep => by
      obtain ⟨hdurable, hfresh, rfl⟩ := hstep
      exact hw.after hdurable hfresh
  exact hinv.distinct

end

/-! ## 4. Two commands -/

/-- A friend whom nothing keeps from being sent to, with a stored state. -/
structure Ready (C : DmWire Key) (peerId : String) (n : Node Key) (st : DrState Key) : Prop where
  blocked : (n.conn.settingsOf peerId).blocked = false
  trust : n.minTrustDm ≤ (n.conn.settingsOf peerId).trustLevel
  friend : ∃ pk, FriendKey C n.conn peerId pk
  stored : StoredState C n.conn peerId st

/-- Every read of the command succeeds. -/
structure Reads (f : Faults) : Prop where
  insertPeerSettings : f .insertPeerSettings = none
  selectPeerSettings : f .selectPeerSettings = none
  getFriends : f .getFriends = none
  loadRatchetState : f .loadRatchetState = none

section

variable {P : Primitives Key} {C : DmWire Key} {peerId : String} {n : Node Key} {st : DrState Key}
  {f : Faults} {a : SendArgs Key}

/-- **A command hands over the position of the stored state**, which is stored again where the save
    fails. -/
theorem Ready.sends (h : Ready C peerId n st) (hf : Reads f) {ck : Key} (hck : st.ckSend = some ck)
    (hm : P.accepts (Codec.utf8.enc a.text) = true) :
    ∃ req st' ck', (sendUntil P C f n peerId a none).2 = [req] ∧
      position C req = some (st.dhSendPub, st.nSend) ∧ st'.ckSend = some ck' ∧
      Ready C peerId { n with conn := (sendUntil P C f n peerId a none).1 }
        (if f .saveRatchetState = none then st' else st) := by
  obtain ⟨pk, hfriend⟩ := h.friend
  obtain ⟨e, st', henc, hdh, hn, hck'⟩ : ∃ e st', encrypt P a.nonce st (Codec.utf8.enc a.text) =
      (.ok e, st') ∧ e.header.dh = st.dhSendPub ∧ e.header.n = st.nSend ∧
        st'.ckSend = some (kdfCk P ck).1 := ⟨_, _, encrypt_ok a.nonce hck hm, rfl, rfl, rfl⟩
  have hload : loadOrInitDrState P C f n.conn peerId n.offlineSecretBytes pk
      (decide (n.myPeerId < peerId)) a.drawn = st :=
    loadOrInitDrState_read hf.loadRatchetState h.stored
  rw [← hload] at henc
  have hhands := sendPrivateMessage_hands hf.insertPeerSettings hf.selectPeerSettings hf.getFriends
    h.blocked h.trust hfriend henc
  unfold sendUntil
  rw [stopFaults_none]
  simp only [stopped, Bool.false_eq_true, if_false]
  rcases sendPrivateMessage_cases P C f n peerId a with
    ⟨-, hnone⟩ | ⟨pk', _, _, conn, hfriend', henc', hreq, hsame, hconn⟩
  · rw [hhands, requests_handedOver] at hnone
    cases hnone
  · obtain rfl := hfriend'.inj hfriend
    rw [henc] at henc'
    cases henc'
    refine ⟨_, st', _, hreq, ?_, hck', ?_⟩
    · rw [position_dmRequest, hdh, hn]
    exact
    { blocked := by
        rw [sendPrivateMessage_settingsOf]
        exact h.blocked
      trust := by
        rw [sendPrivateMessage_settingsOf]
        exact h.trust
      friend := by
        obtain ⟨friend, hlookup, hrest⟩ := hfriend
        refine ⟨_, friend, ?_, hrest⟩
        rw [hconn, saveDrState_frame]
        exact hsame.friends ▸ hlookup
      stored := by
        rw [hconn]
        by_cases hsave : f .saveRatchetState = none
        · rw [if_pos hsave]
          exact storedState_saved C hsave conn peerId _
        · rw [if_neg hsave, saveDrState_frame]
          obtain ⟨blob, hrow, hdec⟩ := h.stored
          refine ⟨blob, ?_, hdec⟩
          simp only [if_neg hsave]
          exact hsame.ratchetStates ▸ hrow }

end

/-- Saving a ratchet state fails. -/
def saveFails : Faults :=
  Function.update noFaults .saveRatchetState (some "database is locked")

/-- The command, and the draws of two runs of it. -/
def outEvent (f : Faults) (drawn : Sym) : OutEvent Sym where
  f
  a := { greetingArgs with drawn }
  stop := none

/-- A sender who has stored the state of `init_alice`. -/
def storedSender : Outbox Sym where
  node := (storedPair symbolic .numbered (.secret 9) (.secret 1) (.secret 2)).node .alice
  handed := []
  pubs := [symbolic.publicKey (.secret 1)]

/-- It sends twice. -/
def sentTwice (f : Faults) : Outbox Sym :=
  (storedSender.after symbolic .numbered "b" (outEvent f (.secret 7))).after symbolic .numbered "b"
    (outEvent f (.secret 8))

theorem storedSender_start : OutStart .numbered "b" storedSender where
  handed := rfl
  pubs st hst := by
    have halice : StoredState .numbered storedSender.node.conn "b"
      (initAlice symbolic (.secret 1) (.secret 9) (symbolic.publicKey (.secret 2))) :=
      storedState_save ..
    rw [hst.inj halice]
    exact List.mem_singleton_self _

theorem storedSender_ready : Ready .numbered "b" storedSender.node
    (initAlice symbolic (.secret 1) (.secret 9) (symbolic.publicKey (.secret 2))) where
  blocked := rfl
  trust := Int64.le_refl 0
  friend := by
    obtain ⟨friend, hf⟩ :=
      friendNode_friend .numbered "a" "b" (.secret 1) (symbolic.publicKey (.secret 2))
    exact ⟨_, friend, hf⟩
  stored := storedState_save ..

theorem sentTwice_reach (cond : Outbox Sym → OutEvent Sym → Prop) {f : Faults}
    (h : ∀ w drawn, cond w (outEvent f drawn)) :
    Reach (fun w => w = storedSender) (Guarded cond (OutStep symbolic .numbered "b"))
      (sentTwice f) := by
  have hfresh : symbolic.publicKey (.secret 7) ∉ storedSender.pubs := by decide
  have hfresh' : symbolic.publicKey (.secret 8) ∉ (storedSender.after symbolic .numbered "b"
      (outEvent f (.secret 7))).pubs := by
    show symbolic.publicKey (.secret 8) ∉ [symbolic.publicKey (.secret 7),
      symbolic.publicKey (.secret 1)]
    decide
  exact .step _ (outEvent f (.secret 8)) _
    (.step _ (outEvent f (.secret 7)) _ (.start _ rfl) ⟨h _ _, hfresh, rfl⟩) ⟨h _ _, hfresh', rfl⟩

theorem positions_distinct_twice : ((sentTwice noFaults).handed.map (position .numbered)).Nodup :=
  positions_distinct storedSender_start
    (sentTwice_reach (Durable .numbered "b") fun _ _ _ _ => ⟨rfl, fun h => (by cases h)⟩)

/-- **A state that cannot be stored is used again**: the two envelopes have one position. -/
theorem position_twice : OutStart .numbered "b" storedSender ∧
    Reach (fun w => w = storedSender) (OutStep symbolic .numbered "b") (sentTwice saveFails) ∧
    (sentTwice saveFails).handed.length = 2 ∧
    ¬ ((sentTwice saveFails).handed.map (position .numbered)).Nodup := by
  have hm : symbolic.accepts (Codec.utf8.enc greetingArgs.text) = true := by decide
  have hreads : Reads saveFails := ⟨rfl, rfl, rfl, rfl⟩
  have hfails : saveFails .saveRatchetState ≠ none := fun h => (by cases h)
  obtain ⟨req, _, _, hhanded, hpos, -, hready⟩ := storedSender_ready.sends
    (a := (outEvent saveFails (.secret 7)).a) hreads rfl hm
  rw [if_neg hfails] at hready
  obtain ⟨req', _, _, hhanded', hpos', -, -⟩ := hready.sends
    (a := (outEvent saveFails (.secret 8)).a) hreads rfl hm
  have hall : (sentTwice saveFails).handed = [req, req'] :=
    congrArg₂ (fun first second => ([] ++ first) ++ second) hhanded hhanded'
  have hreach := (sentTwice_reach (fun _ _ => True) (f := saveFails) fun _ _ => trivial).mono
    (fun _ h => h) (fun _ _ _ h => h.2)
  refine ⟨storedSender_start, hreach, by rw [hall]; rfl, ?_⟩
  rw [hall]
  simp [hpos, hpos']

end AlterChat.DirectMessages
