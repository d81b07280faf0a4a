import AlterChat.Core.Pow
import AlterChat.Lib.Run
import AlterChat.Tauri.Handling

/-!
# Proof of work

The arm `PrivateMessage` takes a message of a friend, or one with a valid token. It counts the
failures of each peer and bans who reaches the threshold, and keeps nothing of the tokens it has
taken.

* §1 `verify` in the arm, and `Accepts` -- whose message is taken;
* §2 `PowBanList`: bans are recorded, and `is_banned` is asked nowhere;
* §3 `ban_effect_iff` -- a banned peer is kept out just where something else keeps it out;
* §4 `one_message_iff` -- tokens pay for one message each just where no accepted one comes again.
-/

namespace AlterChat.Inbound

open Lib Db Onion Requests DirectMessages

variable {Key : Type}

/-! ## 1. Whose message is taken -/

/-- `as_secs` of the time that is `nowMs` in milliseconds. -/
def asSecs (nowMs : Int64) : UInt64 := UInt64.ofNat (nowMs.toNatClampNeg / 1000)

/-- Tokens are verified with 16 bits and 300 seconds. -/
def NetWire.withPow (W : NetWire Key) : NetWire Key :=
  { W with verifyPow := fun t resource nowMs => t.verify W.sha256 resource 16 300 (asSecs nowMs) }

/-- `valid_pow`. -/
def TokenValid (W : NetWire Key) (myPeerId : String) (nowMs : Int64)
    (powToken : Option PoWToken) : Prop :=
  (powToken.map fun t => W.verifyPow t myPeerId nowMs).getD false = true

instance TokenValid.decidable (W : NetWire Key) (myPeerId : String) (nowMs : Int64)
    (powToken : Option PoWToken) : Decidable (TokenValid W myPeerId nowMs powToken) :=
  inferInstanceAs (Decidable (_ = true))

/-- The gate is open, the message is a friend's or paid for, and the peer is trusted. -/
structure Accepts (W : NetWire Key) (f : Stage → Faults) (l : EventLoop Key) (nowMs : Int64)
    (peer : String) (powToken : Option PoWToken) : Prop where
  admitted : (requestGate f l nowMs peer).1 = .admitted
  paid : FriendRead (f .arm) l.node.conn peer ∨ TokenValid W l.node.myPeerId nowMs powToken
  trusted : SettingsRead (f .arm) → (l.node.conn.settingsOf peer).blocked = false ∧
    minTrust (f .arm) l.node.conn "min_trust_dm" ≤ (l.node.conn.settingsOf peer).trustLevel

theorem mem_responses {resp : P2pResponse} {effects : List (NetEffect Key)} :
    resp ∈ responses effects ↔ .sendResponse resp ∈ effects := by
  unfold responses
  rw [List.mem_filterMap]
  constructor
  · rintro ⟨e, he, h⟩
    cases e with
    | sendResponse r => cases h; exact he
    | _ => cases h
  · intro h
    exact ⟨_, h, rfl⟩

section

variable {P : Primitives Key} {W : NetWire Key} {f : Stage → Faults} {l : EventLoop Key}
  {t : Turn Key} {peer : String}

theorem privateMessage_cases (W : NetWire Key) (f : Faults) (l : EventLoop Key) (nowMs : Int64)
    (peer text senderNick : String) (timestamp : Int64) (ttl : Option Int64)
    (powToken : Option PoWToken) :
    let out := privateMessage W f l nowMs peer text senderNick timestamp ttl powToken
    responses out.2 = [.privateMessageAck true] ∨
      responses out.2 = [.privateMessageAck false] ∧ NothingStored l.node.conn out.1.node.conn := by
  obtain ⟨table, hframe⟩ := trustCheck_frame f l.node.conn peer "min_trust_dm"
  unfold privateMessage
  dsimp only
  split
  · refine .inr ⟨?_, rfl, rfl⟩
    by_cases hban : POW_BAN_THRESHOLD ≤ l.powFailures peer + 1
    · rw [if_pos hban]
      rfl
    · rw [if_neg hban]
      rfl
  · split
    · refine .inr ⟨rfl, ?_⟩
      rw [hframe]
      exact ⟨rfl, rfl⟩
    · exact .inl rfl

/-- What the arm is decided on is the same before the gate and after it. -/
theorem accepts_iff (hgate : (requestGate f l t.nowMs peer).1 = .admitted)
    (powToken : Option PoWToken) :
    Accepts W f l t.nowMs peer powToken ↔
      (FriendRead (f .arm) (requestGate f l t.nowMs peer).2.node.conn peer ∨
        TokenValid W (requestGate f l t.nowMs peer).2.node.myPeerId t.nowMs powToken) ∧
      (trustCheck (f .arm) (requestGate f l t.nowMs peer).2.node.conn peer "min_trust_dm").1 =
        true := by
  have hkeeps := requestGate_keepsPeers f l t.nowMs peer
  obtain ⟨table, buckets, hframe⟩ := requestGate_frame f l t.nowMs peer
  have hme : (requestGate f l t.nowMs peer).2.node.myPeerId = l.node.myPeerId := by rw [hframe]; rfl
  have htrust : minTrust (f .arm) (requestGate f l t.nowMs peer).2.node.conn "min_trust_dm" =
      minTrust (f .arm) l.node.conn "min_trust_dm" := by rw [hframe]; rfl
  rw [trustCheck_reads, hkeeps.settingsOf, htrust, hme, FriendRead, hkeeps.friends]
  exact ⟨fun h => ⟨h.paid, h.trusted⟩, fun h => ⟨hgate, h.1, h.2⟩⟩

/-- **A `PrivateMessage` is acknowledged as taken just for whom `Accepts` says**, and of any other
    nothing is stored. -/
theorem handleRequest_privateMessage [DecidableEq Key] [Zero Key] (P : Primitives Key)
    (W : NetWire Key) (hashOf : Bytes → String) (f : Stage → Faults) (l : EventLoop Key)
    (t : Turn Key) (peer text senderNick : String) (timestamp : Int64) (ttl : Option Int64)
    (powToken : Option PoWToken) :
    let out := handleRequest P W hashOf f l t peer
      (.privateMessage text senderNick timestamp ttl powToken)
    Accepts W f l t.nowMs peer powToken ∧ responses out.2 = [.privateMessageAck true] ∨
      ¬ Accepts W f l t.nowMs peer powToken ∧ responses out.2 = [.privateMessageAck false] ∧
        NothingStored l.node.conn out.1.node.conn := by
  obtain ⟨table, buckets, hframe⟩ := requestGate_frame f l t.nowMs peer
  have hgated : NothingStored l.node.conn (requestGate f l t.nowMs peer).2.node.conn := by
    rw [hframe]
    exact ⟨rfl, rfl⟩
  have haccepts :=
    fun hgate : (requestGate f l t.nowMs peer).1 = .admitted => accepts_iff (W := W) hgate
  have hshut : (requestGate f l t.nowMs peer).1 ≠ .admitted →
      ¬ Accepts W f l t.nowMs peer powToken :=
    fun hne h => hne h.admitted
  unfold handleRequest
  generalize requestGate f l t.nowMs peer = q at hgated haccepts hshut
  obtain ⟨verdict, l'⟩ := q
  cases verdict with
  | refused => exact .inr ⟨hshut (fun h => nomatch h), rfl, hgated⟩
  | rateLimited => exact .inr ⟨hshut (fun h => nomatch h), rfl, hgated⟩
  | admitted =>
    have hallows :=
      privateMessage_allows W (f .arm) l' t.nowMs peer text senderNick timestamp ttl powToken
    rw [← mem_responses] at hallows
    rw [haccepts rfl powToken]
    dsimp only
    rcases privateMessage_cases W (f .arm) l' t.nowMs peer text senderNick timestamp ttl
      powToken with
      htaken | ⟨hrefused, hstored⟩
    · rw [htaken] at hallows
      exact .inl ⟨hallows.mp (List.mem_singleton_self _), htaken⟩
    · rw [hrefused] at hallows
      refine .inr ⟨fun h => ?_, hrefused, hstored.1.trans hgated.1, hstored.2.trans hgated.2⟩
      exact absurd (List.mem_singleton.mp (hallows.mpr h)) (by decide)

end

/-! ## 2. Bans -/

/-- `PowBanList::record_failure`. -/
def recordFailure (failures : String → UInt32) (peerId : String) (threshold : UInt32) :
    Bool × (String → UInt32) :=
  let count := failures peerId + 1
  (decide (threshold ≤ count), Function.update failures peerId count)

/-- `PowBanList::is_banned`. -/
def isBanned (failures : String → UInt32) (peerId : String) (threshold : UInt32) : Bool :=
  decide (threshold ≤ failures peerId)

/-- `PowBanList::reset`. -/
def reset (failures : String → UInt32) (peerId : String) : String → UInt32 :=
  Function.update failures peerId 0

/-- What `record_failure` returns is what `is_banned` would answer from then on. -/
theorem isBanned_recordFailure (failures : String → UInt32) (peerId : String) (threshold : UInt32) :
    isBanned (recordFailure failures peerId threshold).2 peerId threshold =
      (recordFailure failures peerId threshold).1 := by
  unfold isBanned recordFailure
  simp only [Function.update_self]

/-- A further failure, of this peer or another, lifts no ban. -/
theorem isBanned_mono {failures failures' : String → UInt32} {peerId : String} {threshold : UInt32}
    (h : failures peerId ≤ failures' peerId) (hbanned : isBanned failures peerId threshold = true) :
    isBanned failures' peerId threshold = true := by
  unfold isBanned at hbanned ⊢
  exact decide_eq_true (UInt32.le_trans (of_decide_eq_true hbanned) h)

/-- As long as the count does not wrap around. -/
theorem recordFailure_le (failures : String → UInt32) (peerId : String) (threshold : UInt32)
    (id : String) (h : (failures id).toNat + 1 < 2 ^ 32) :
    failures id ≤ (recordFailure failures peerId threshold).2 id := by
  unfold recordFailure
  dsimp only
  by_cases hid : id = peerId
  · rw [hid] at h
    rw [hid, Function.update_self, UInt32.le_iff_toNat_le, UInt32.toNat_add, UInt32.toNat_one,
      Nat.mod_eq_of_lt h]
    exact Nat.le_succ _
  · rw [Function.update_of_ne hid]
    exact UInt32.le_refl _

/-- **The arm records the failure** of a stranger without a valid token, and removes the peer from
    the table of routes when it is to be banned. -/
theorem privateMessage_records (W : NetWire Key) (f : Faults) (l : EventLoop Key) (nowMs : Int64)
    (peer text senderNick : String) (timestamp : Int64) (ttl : Option Int64)
    (powToken : Option PoWToken) :
    let out := privateMessage W f l nowMs peer text senderNick timestamp ttl powToken
    out.1.powFailures = l.powFailures ∨
      out.1.powFailures = (recordFailure l.powFailures peer POW_BAN_THRESHOLD).2 ∧
      (.removePeer peer ∈ out.2 ↔
      (recordFailure l.powFailures peer POW_BAN_THRESHOLD).1 = true) := by
  unfold privateMessage
  dsimp only
  split
  · refine .inr ⟨rfl, ?_⟩
    unfold recordFailure
    by_cases hban : POW_BAN_THRESHOLD ≤ l.powFailures peer + 1
    · rw [if_pos hban]
      simp [hban]
    · rw [if_neg hban]
      simp [hban]
  · split
    · exact .inl rfl
    · exact .inl rfl

/-- What happens to the ban list and around it in a session. -/
inductive BanEvent (Key : Type) where
  | request (f : Stage → Faults) (t : Turn Key) (peer : String) (req : P2pRequest Key)
  | reset (peerId : String)
  /-- The rest of the session: any write to the database, any change of the policy. -/
  | elsewhere (conn : Database) (unknownPeerPolicy : String) (rateLimitPerMinute : Int64)

section

variable [DecidableEq Key] [Zero Key] (P : Primitives Key) (W : NetWire Key)
  (hashOf : Bytes → String)

def EventLoop.afterBan (l : EventLoop Key) : BanEvent Key → EventLoop Key
  | .request f t peer req => (handleRequest P W hashOf f l t peer req).1
  | .reset peerId => { l with powFailures := Inbound.reset l.powFailures peerId }
  | .elsewhere conn unknownPeerPolicy rateLimitPerMinute =>
    { l.setConn conn with unknownPeerPolicy, rateLimitPerMinute }

/-- **A ban lasts**: what comes later lifts it only by `reset`, until the count wraps around. -/
theorem ban_lasts (l : EventLoop Key) (ev : BanEvent Key) (peerId : String)
    (hreset : ev ≠ .reset peerId) (hfits : (l.powFailures peerId).toNat + 1 < 2 ^ 32)
    (h : isBanned l.powFailures peerId POW_BAN_THRESHOLD = true) :
    isBanned (l.afterBan P W hashOf ev).powFailures peerId POW_BAN_THRESHOLD = true := by
  cases ev with
  | reset other =>
    have hne : peerId ≠ other := fun he => hreset (he ▸ rfl)
    refine isBanned_mono (UInt32.le_of_eq ?_) h
    exact (Function.update_of_ne hne 0 l.powFailures).symm
  | elsewhere conn unknownPeerPolicy rateLimitPerMinute => exact h
  | request f t peer req =>
    refine isBanned_mono ?_ h
    obtain ⟨table, buckets, hframe⟩ := requestGate_frame f l t.nowMs peer
    have hgate : (requestGate f l t.nowMs peer).2.powFailures = l.powFailures := by rw [hframe]; rfl
    dsimp only [EventLoop.afterBan]
    unfold handleRequest
    generalize requestGate f l t.nowMs peer = q at hgate
    obtain ⟨verdict, l'⟩ := q
    have hgate' : l'.powFailures = l.powFailures := hgate
    rw [← hgate'] at hfits ⊢
    cases verdict with
    | refused => exact UInt32.le_refl _
    | rateLimited => exact UInt32.le_refl _
    | admitted =>
      cases req with
      | privateMessage text senderNick timestamp ttl powToken =>
        rcases privateMessage_records W (f .arm) l' t.nowMs peer text senderNick timestamp ttl
          powToken with
          hsame | ⟨hrecorded, -⟩
        · exact UInt32.le_of_eq (congrFun hsame.symm peerId)
        · exact UInt32.le_trans
            (recordFailure_le l'.powFailures peer POW_BAN_THRESHOLD peerId hfits)
            (UInt32.le_of_eq (congrFun hrecorded.symm peerId))
      | file filename data =>
        dsimp only
        rw [file_state]
        exact UInt32.le_refl _
      | fileChunk transferId index total contentHash data =>
        dsimp only
        rw [fileChunk_state]
        exact UInt32.le_refl _
      | _ => exact UInt32.le_refl _

/-! ## 3. What a ban does -/

/-- The property of a step: a message of a banned peer is refused, and nothing of it stored. -/
def BanTakesEffect (l : EventLoop Key) : BanEvent Key → Prop
  | .request f t peer (.privateMessage text senderNick timestamp ttl powToken) =>
    isBanned l.powFailures peer POW_BAN_THRESHOLD = true →
      let out :=
        handleRequest P W hashOf f l t peer (.privateMessage text senderNick timestamp ttl powToken)
      responses out.2 = [.privateMessageAck false] ∧ NothingStored l.node.conn out.1.node.conn
  | _ => True

/-- What it needs: another reason to refuse the message. -/
def KeptOut (l : EventLoop Key) : BanEvent Key → Prop
  | .request f t peer (.privateMessage _ _ _ _ powToken) =>
    isBanned l.powFailures peer POW_BAN_THRESHOLD = true → ¬ Accepts W f l t.nowMs peer powToken
  | _ => True

theorem banTakesEffect_iff (l : EventLoop Key) (ev : BanEvent Key) :
    BanTakesEffect P W hashOf l ev ↔ KeptOut W l ev := by
  cases ev with
  | request f t peer req =>
    cases req with
    | privateMessage text senderNick timestamp ttl powToken =>
      refine imp_congr_right fun _ => ?_
      rcases handleRequest_privateMessage P W hashOf f l t peer text senderNick timestamp ttl
        powToken with
        ⟨haccepts, htaken⟩ | ⟨hrefused, hack, hstored⟩
      · refine iff_of_false (fun h => ?_) (not_not.mpr haccepts)
        have hboth := htaken.symm.trans h.1
        cases hboth
      · exact iff_of_true ⟨hack, hstored⟩ hrefused
    | _ => exact Iff.rfl
  | _ => exact Iff.rfl

/-- **What a ban does in a session**: a banned peer is refused in every step of a run just where
    each of its messages meets something else that refuses it. -/
theorem ban_effect_iff (l : EventLoop Key) (evs : List (BanEvent Key)) :
    Along (EventLoop.afterBan P W hashOf) (BanTakesEffect P W hashOf) l evs ↔
      Along (EventLoop.afterBan P W hashOf) (KeptOut W) l evs :=
  Along.congr (banTakesEffect_iff P W hashOf) l evs

end

/-! ## 4. What a token pays for -/

/-- A `PrivateMessage` that comes in. -/
structure Knock (Key : Type) where
  f : Stage → Faults
  t : Turn Key
  peer : String
  text : String
  senderNick : String
  timestamp : Int64
  ttl : Option Int64
  powToken : Option PoWToken

def Knock.req (k : Knock Key) : P2pRequest Key :=
  .privateMessage k.text k.senderNick k.timestamp k.ttl k.powToken

/-- The peer is no friend. -/
def Stranger (l : EventLoop Key) (peer : String) : Prop := l.node.conn.friends.lookup peer = none

instance Stranger.decidable (l : EventLoop Key) (peer : String) : Decidable (Stranger l peer) :=
  inferInstanceAs (Decidable (_ = none))

/-- The event loop; the tokens of the messages of strangers that were acknowledged as taken, in
    order; and the valid tokens strangers have presented. -/
structure PaidSession (Key : Type) where
  loop : EventLoop Key
  accepted : List (Option PoWToken)
  presented : List PoWToken

def PaidSession.start (l : EventLoop Key) : PaidSession Key where
  loop := l
  accepted := []
  presented := []

/-- No token is among the accepted ones twice, and there are no more accepted messages than
    different valid tokens. -/
def PaidSession.Paid (s : PaidSession Key) : Prop :=
  s.accepted.Nodup ∧ s.accepted.length ≤ s.presented.dedup.length

/-- A stranger's message is not taken on a token that was accepted before. -/
def Unspent (W : NetWire Key) (s : PaidSession Key) (k : Knock Key) : Prop :=
  Stranger s.loop k.peer → k.powToken ∈ s.accepted →
    ¬ Accepts W k.f s.loop k.t.nowMs k.peer k.powToken

/-- Every accepted token was valid when it was presented. -/
def PaidSession.Backed (s : PaidSession Key) : Prop := s.accepted ⊆ s.presented.map some

/-- **A stranger pays**: what is accepted of it has a valid token. -/
theorem Accepts.token {W : NetWire Key} {l : EventLoop Key} {f : Stage → Faults} {nowMs : Int64}
    {peer : String} {powToken : Option PoWToken} (h : Accepts W f l nowMs peer powToken)
    (hstranger : Stranger l peer) :
    TokenValid W l.node.myPeerId nowMs powToken ∧ ∃ token, powToken = some token := by
  have hvalid : TokenValid W l.node.myPeerId nowMs powToken := by
    rcases h.paid with hfriend | hvalid
    · have hnone : (l.node.conn.friends.lookup peer).isSome = false := by rw [hstranger]; rfl
      exact absurd (hfriend.2.symm.trans hnone) (by decide)
    · exact hvalid
  refine ⟨hvalid, ?_⟩
  cases powToken with
  | none => exact absurd hvalid Bool.false_ne_true
  | some token => exact ⟨token, rfl⟩

section

variable [DecidableEq Key] [Zero Key] (P : Primitives Key) (W : NetWire Key)
  (hashOf : Bytes → String)

def PaidSession.after (s : PaidSession Key) (k : Knock Key) : PaidSession Key :=
  let out := handleRequest P W hashOf k.f s.loop k.t k.peer k.req
  { loop := out.1
    accepted := s.accepted ++
      if Stranger s.loop k.peer ∧ responses out.2 = [.privateMessageAck true] then
        [k.powToken]
      else []
    presented := s.presented ++
      if Stranger s.loop k.peer ∧ TokenValid W s.loop.node.myPeerId k.t.nowMs k.powToken then
        k.powToken.toList
      else [] }

/-- The message of a stranger is counted just where it is accepted. -/
theorem PaidSession.after_accepted (s : PaidSession Key) (k : Knock Key) :
    Stranger s.loop k.peer ∧ Accepts W k.f s.loop k.t.nowMs k.peer k.powToken ∧
        (s.after P W hashOf k).accepted = s.accepted ++ [k.powToken] ∨
      ¬ (Stranger s.loop k.peer ∧ Accepts W k.f s.loop k.t.nowMs k.peer k.powToken) ∧
        (s.after P W hashOf k).accepted = s.accepted := by
  have hcases := handleRequest_privateMessage P W hashOf k.f s.loop k.t k.peer k.text k.senderNick
    k.timestamp k.ttl k.powToken
  have hafter : (s.after P W hashOf k).accepted = s.accepted ++
      if Stranger s.loop k.peer ∧
          responses (handleRequest P W hashOf k.f s.loop k.t k.peer k.req).2 =
            [.privateMessageAck true] then
        [k.powToken]
      else [] := rfl
  rw [hafter]
  rcases hcases with ⟨haccepts, htaken⟩ | ⟨hrefused, hack, -⟩
  · have htaken' : responses (handleRequest P W hashOf k.f s.loop k.t k.peer k.req).2 =
        [.privateMessageAck true] := htaken
    rw [htaken']
    by_cases hstranger : Stranger s.loop k.peer
    · exact .inl ⟨hstranger, haccepts, by rw [if_pos ⟨hstranger, rfl⟩]⟩
    · refine .inr ⟨fun h => hstranger h.1, ?_⟩
      rw [if_neg fun h => hstranger h.1, List.append_nil]
  · have hack' : responses (handleRequest P W hashOf k.f s.loop k.t k.peer k.req).2 =
        [.privateMessageAck false] := hack
    refine .inr ⟨fun h => hrefused h.2, ?_⟩
    rw [hack', if_neg fun h => (by cases h.2), List.append_nil]

theorem PaidSession.after_backed {s : PaidSession Key} (h : s.Backed) (k : Knock Key) :
    (s.after P W hashOf k).Backed := by
  have hpresented : (s.after P W hashOf k).presented = s.presented ++
      if Stranger s.loop k.peer ∧ TokenValid W s.loop.node.myPeerId k.t.nowMs k.powToken then
        k.powToken.toList
      else [] := rfl
  unfold PaidSession.Backed
  rw [hpresented, List.map_append]
  rcases s.after_accepted P W hashOf k with ⟨hstranger, haccepts, hsome⟩ | ⟨-, hnone⟩
  · obtain ⟨hvalid, token, htoken⟩ := haccepts.token hstranger
    rw [hsome, if_pos ⟨hstranger, hvalid⟩, htoken]
    exact List.append_subset.mpr ⟨List.subset_append_of_subset_left _ h,
      List.subset_append_right _ _⟩
  · rw [hnone]
    exact List.subset_append_of_subset_left _ h

theorem PaidSession.after_nodup_iff (s : PaidSession Key) (k : Knock Key) :
    (s.after P W hashOf k).accepted.Nodup ↔ s.accepted.Nodup ∧ Unspent W s k := by
  rcases s.after_accepted P W hashOf k with ⟨hstranger, haccepts, hsome⟩ | ⟨hrefused, hnone⟩
  · rw [hsome, List.nodup_append]
    constructor
    · rintro ⟨hnodup, -, hfresh⟩
      exact ⟨hnodup, fun _ hspent => absurd rfl (hfresh _ hspent _ (List.mem_singleton_self _))⟩
    · rintro ⟨hnodup, hunspent⟩
      refine ⟨hnodup, List.nodup_singleton _, fun token hspent token' htoken he => ?_⟩
      rw [List.mem_singleton.mp htoken] at he
      rw [he] at hspent
      exact hunspent hstranger hspent haccepts
  · rw [hnone]
    exact (and_iff_left fun hstranger _ haccepts => hrefused ⟨hstranger, haccepts⟩).symm

theorem PaidSession.run_backed {s : PaidSession Key} (h : s.Backed) (knocks : List (Knock Key)) :
    (knocks.foldl (PaidSession.after P W hashOf) s).Backed := by
  induction knocks generalizing s with
  | nil => exact h
  | cons k rest ih => exact ih (PaidSession.after_backed P W hashOf h k)

theorem PaidSession.run_nodup_iff (s : PaidSession Key) (knocks : List (Knock Key)) :
    (knocks.foldl (PaidSession.after P W hashOf) s).accepted.Nodup ↔
      s.accepted.Nodup ∧ Along (PaidSession.after P W hashOf) (Unspent W) s knocks := by
  induction knocks generalizing s with
  | nil => exact (and_iff_left trivial).symm
  | cons k rest ih =>
    rw [List.foldl_cons, ih, s.after_nodup_iff P W hashOf, and_assoc]
    rfl

end

/-- As many messages as different tokens, where none pays twice. -/
theorem PaidSession.Backed.paid_iff {s : PaidSession Key} (h : s.Backed) :
    s.Paid ↔ s.accepted.Nodup := by
  refine and_iff_left_of_imp fun hnodup => ?_
  have hsub : s.accepted ⊆ s.presented.dedup.map some := by
    intro token htoken
    obtain ⟨t, ht, rfl⟩ := List.mem_map.mp (h htoken)
    exact List.mem_map_of_mem (List.mem_dedup.mpr ht)
  have hle := (List.subperm_of_subset hnodup hsub).length_le
  rwa [List.length_map] at hle

/-- **A proof of work pays for one message** in a run just where no stranger's message is taken on a
    token that was accepted before. -/
theorem one_message_iff [DecidableEq Key] [Zero Key] (P : Primitives Key) (W : NetWire Key)
    (hashOf : Bytes → String) (l : EventLoop Key) (knocks : List (Knock Key)) :
    (knocks.foldl (PaidSession.after P W.withPow hashOf) (.start l)).Paid ↔
      Along (PaidSession.after P W.withPow hashOf) (Unspent W.withPow) (.start l) knocks := by
  have hbacked : (PaidSession.start l).Backed := List.nil_subset _
  rw [(PaidSession.run_backed P W.withPow hashOf hbacked knocks).paid_iff,
    PaidSession.run_nodup_iff P W.withPow hashOf]
  exact and_iff_right List.nodup_nil

/-! ## 5. A token that comes again -/

/-- A token for "b", with two zero bytes in front of its hash. -/
def mintedToken : PoWToken where
  resource := "b"
  timestamp := 1700000000
  nonce := 126570

/-- SHA-256 of the token's bytes; the other hashes do not matter here. -/
def mintedSha256 (bs : Bytes) : Bytes :=
  if bs = mintedToken.preimage then
    [0, 0, 91, 97, 50, 121, 137, 15, 47, 108, 38, 158, 63, 60, 32, 251, 168, 38, 243, 208,
      174, 214, 119, 243, 146, 237, 189, 55, 57, 88, 63, 205]
  else List.replicate 32 255

def mintedWire : NetWire Key32 := { wire32 with sha256 := mintedSha256 }

/-- "b" has an empty database, and lets strangers make contact. -/
def openLoop : EventLoop Key32 :=
  { loopOf { myPeerId := "b", offlineSecretBytes := secretOf 2, minTrustDm := 0,
             conn := .empty } with
    unknownPeerPolicy := "allow" }

/-- A second after the token was minted. -/
def mintedTurn : Turn Key32 := { relayedTurn with nowMs := 1700000001000 }

/-- A message with this token, or with none. -/
def knockOf (peer : String) (powToken : Option PoWToken) : Knock Key32 where
  f := allRead
  t := mintedTurn
  peer
  text := "hi"
  senderNick := peer
  timestamp := 0
  ttl := none
  powToken

/-- **One token, two senders.** -/
theorem token_pays_twice :
    ¬ ([knockOf "c" (some mintedToken), knockOf "d" (some mintedToken)].foldl
      (PaidSession.after plain32 mintedWire.withPow noHash) (.start openLoop)).Paid := by
  have haccepted : ([knockOf "c" (some mintedToken), knockOf "d" (some mintedToken)].foldl
      (PaidSession.after plain32 mintedWire.withPow noHash) (.start openLoop)).accepted =
        [some mintedToken, some mintedToken] := rfl
  intro h
  have hnodup := h.1
  rw [haccepted] at hnodup
  exact absurd hnodup (by decide)

/-- The message as an event of the session. -/
def Knock.event (k : Knock Key) : BanEvent Key := .request k.f k.t k.peer k.req

/-- **Three failures, a ban, and a valid token.** -/
theorem banned_peer_heard :
    ¬ Along (EventLoop.afterBan plain32 mintedWire.withPow noHash)
      (BanTakesEffect plain32 mintedWire.withPow noHash) openLoop
      [(knockOf "c" none).event, (knockOf "c" none).event, (knockOf "c" none).event,
        (knockOf "c" (some mintedToken)).event] := by
  intro h
  obtain ⟨-, -, -, hlast, -⟩ := h
  have hrefused : [P2pResponse.privateMessageAck true] = [.privateMessageAck false] := (hlast rfl).1
  cases hrefused

end AlterChat.Inbound
