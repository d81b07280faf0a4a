import AlterChat.Tauri.Duplicates
import AlterChat.Tauri.Handling

/-!
# Which rate limit applies to a peer

The request gate takes `rate_limit_per_minute` from the settings of the peer, and the configured
limit where these cannot be read. To read them inserts a row with the column default where there is
none, so they can be read of everyone.

* §1 `gatePerMinute` -- the limit of the gate;
* §2 a session: requests, commands, changes of the configuration, with what the user has saved for
  whom and what this leaves in the column;
* §3 `Tracks` -- the column holds just that;
* §4 `rate_source_iff` -- the limit is the one meant in every request of a run, just where the
  column says so.
-/

namespace AlterChat.RateSource

open Lib Db Onion DirectMessages Inbound Requests Duplicates
open Session (SettingsStmt saveSettings)

variable {Key : Type}

/-! ## 1. The limit of the gate -/

/-- `per_minute` of the gate. -/
def gatePerMinute (f : Stage → Faults) (l : EventLoop Key) (peer : String) : Int64 :=
  ((getPeerSettings (f .gate) l.node.conn peer).1.toOption.map fun s => s.rateLimitPerMinute).getD
    l.rateLimitPerMinute

theorem gatePerMinute_eq (f : Stage → Faults) (l : EventLoop Key) (peer : String) :
    gatePerMinute f l peer =
      if SettingsRead (f .gate) then (l.node.conn.settingsOf peer).rateLimitPerMinute
      else l.rateLimitPerMinute :=
  perMinute_read (f .gate) l.node.conn peer l.rateLimitPerMinute

/-- **The gate limits by it**: a request that is not refused is let through, or not, by
    `rate_limit_allows` with this limit. -/
theorem requestGate_limits (f : Stage → Faults) (l : EventLoop Key) (nowMs : Int64) (peer : String)
    (h : (requestGate f l nowMs peer).1 ≠ .refused) :
    ((requestGate f l nowMs peer).1 = .admitted ↔
      (rateLimitAllows (l.rateBuckets peer) nowMs (gatePerMinute f l peer)).1 = true) ∧
    (requestGate f l nowMs peer).2.rateBuckets = Function.update l.rateBuckets peer
      (rateLimitAllows (l.rateBuckets peer) nowMs (gatePerMinute f l peer)).2 := by
  unfold requestGate at h ⊢
  unfold gatePerMinute
  generalize getPeerSettings (f .gate) l.node.conn peer = q at h ⊢
  obtain ⟨settings, conn⟩ := q
  dsimp only at h ⊢
  split at h
  · exact absurd rfl h
  · next hopen =>
    rw [if_neg hopen]
    split at h
    · exact absurd rfl h
    · next hcontact =>
      rw [if_neg hcontact]
      refine ⟨?_, rfl⟩
      dsimp only
      split
      · next hallows => exact iff_of_true rfl hallows
      · next hfull => exact iff_of_false (fun h => nomatch h) hfull

/-! ## 2. Sessions -/

/-- The event loop, the limit the user has saved for a peer, and what is in the column of its row or
    would be on insert. -/
structure RateSession (Key : Type) where
  loop : EventLoop Key
  saved : String → Option Int64
  column : String → Int64

/-- Before anything is saved. -/
def RateSession.start (l : EventLoop Key) : RateSession Key where
  loop := { l with node := { l.node with conn := { l.node.conn with peerSettings := ∅ } } }
  saved _ := none
  column _ := PeerSettings.default.rateLimitPerMinute

inductive RateEvent (Key : Type) where
  | request (f : Stage → Faults) (t : Turn Key) (peer : String) (req : P2pRequest Key)
  | send (f : Faults) (peerId : String) (a : SendArgs Key)
  /-- A command on friends, groups and settings: it reads or it writes. -/
  | command (op : SettingsOp)
  | configure (rateLimitPerMinute : Int64)

/-- What the user has saved for whom, after a command. -/
def savedAfter (saved : String → Option Int64) : SettingsOp → String → Option Int64
  | .savePeerSettings f peerId settings =>
    if f .upsertPeerSettings = none then
      Function.update saved peerId (some settings.rateLimitPerMinute)
    else saved
  | _ => saved

/-- The column after a command: an endorsement writes back what it has read, and 0 where it could
    not read. -/
def columnAfter (column : String → Int64) : SettingsOp → String → Int64
  | .savePeerSettings f peerId settings =>
    if f .upsertPeerSettings = none then Function.update column peerId settings.rateLimitPerMinute
    else column
  | .endorsePeer f sf peerId _ =>
    if sf .upsertPeerSettings = none ∧ ¬ SettingsRead f then
      Function.update column peerId unreadSettings.rateLimitPerMinute
    else column
  | _ => column

section

variable [DecidableEq Key] [Zero Key] (P : Primitives Key) (W : NetWire Key)
  (hashOf : Bytes → String)

def RateSession.after (s : RateSession Key) : RateEvent Key → RateSession Key
  | .request f t peer req => { s with loop := (handleRequest P W hashOf f s.loop t peer req).1 }
  | .send f peerId a =>
    { s with loop := s.loop.setConn (sendPrivateMessage P W.toDmWire f s.loop.node peerId a).1 }
  | .command op =>
    { loop := s.loop.setConn (op.run s.loop.node.conn)
      saved := savedAfter s.saved op
      column := columnAfter s.column op }
  | .configure rateLimitPerMinute => { s with loop := { s.loop with rateLimitPerMinute } }

end

/-- The limit that is meant for a peer: the one saved for it, or the configured one. -/
def RateSession.meant (s : RateSession Key) (peer : String) : Int64 :=
  (s.saved peer).getD s.loop.rateLimitPerMinute

/-- The property of a step: a request is limited by what is meant for its peer. -/
def LimitMeant (s : RateSession Key) : RateEvent Key → Prop
  | .request f _ peer _ => gatePerMinute f s.loop peer = s.meant peer
  | _ => True

/-- What it needs: the column holds what is meant, where it is read; and what is meant is the
    configured limit, where it is not. -/
def ColumnMeant (s : RateSession Key) : RateEvent Key → Prop
  | .request f _ peer _ =>
    if SettingsRead (f .gate) then s.column peer = s.meant peer
    else s.loop.rateLimitPerMinute = s.meant peer
  | _ => True

/-! ## 3. The column -/

/-- The settings of every peer have the rate of its column. -/
def Tracks (conn : Database) (column : String → Int64) : Prop :=
  ∀ peer, (conn.settingsOf peer).rateLimitPerMinute = column peer

section

variable {conn conn' : Database} {column : String → Int64}

theorem Tracks.keepsPeers (h : Tracks conn column)
    (hkeeps : ∀ id, conn'.settingsOf id = conn.settingsOf id) :
    Tracks conn' column := fun peer => by rw [hkeeps]; exact h peer

theorem Tracks.save (h : Tracks conn column) (f : SettingsStmt → Option String) (peerId : String)
    (settings : PeerSettings) :
    Tracks (saveSettings f conn peerId settings).2 (if f .upsertPeerSettings = none then
      Function.update column peerId settings.rateLimitPerMinute else column) := by
  unfold saveSettings
  cases f .upsertPeerSettings with
  | some e => exact h
  | none =>
    have hwritten : Tracks
        { conn with peerSettings := conn.peerSettings.upsert peerId settings fun _ => settings }
        (Function.update column peerId settings.rateLimitPerMinute) := by
      intro peer
      unfold Database.settingsOf
      dsimp only
      rw [Table.lookup_upsert_const]
      by_cases hpeer : peer = peerId
      · rw [if_pos hpeer, hpeer, Function.update_self]
        rfl
      · rw [if_neg hpeer, Function.update_of_ne hpeer]
        exact h peer
    rw [if_pos rfl]
    dsimp only
    split
    · exact hwritten
    · exact hwritten

/-- What an endorsement saves has the rate that was read, which is that of the column already. -/
theorem Tracks.endorse (h : Tracks conn column) (f : Faults) (sf : SettingsStmt → Option String)
    (peerId : String) (score : Int32) :
    Tracks (endorsePeer f sf conn peerId score).2
      (columnAfter column (.endorsePeer f sf peerId score)) := by
  have hread : Tracks (getPeerSettings f conn peerId).2 column :=
    h.keepsPeers fun id => getPeerSettings_settingsOf f conn peerId id
  have hsaved := hread.save sf peerId (endorsed f conn peerId score)
  have hcolumn : (if sf .upsertPeerSettings = none then
      Function.update column peerId (endorsed f conn peerId score).rateLimitPerMinute else column) =
      columnAfter column (.endorsePeer f sf peerId score) := by
    unfold columnAfter endorsed
    by_cases hsf : sf .upsertPeerSettings = none
    · by_cases hf : SettingsRead f
      · have hsame : (conn.settingsOf peerId).rateLimitPerMinute = column peerId := h peerId
        simp only [hsf, hf, settings_read hf, not_true_eq_false, and_false, if_true, if_false,
          Except.toOption, Option.getD_some, hsame, Function.update_eq_self]
      · obtain ⟨e, he⟩ := settings_unread hf conn peerId
        simp only [hsf, hf, he, not_false_eq_true, and_self, if_true]
        rfl
    · simp only [hsf, false_and, if_false]
  rw [← hcolumn]
  exact hsaved

theorem Tracks.command (h : Tracks conn column) (op : SettingsOp) :
    Tracks (op.run conn) (columnAfter column op) := by
  cases op with
  | savePeerSettings f peerId settings => exact h.save f peerId settings
  | endorsePeer f sf peerId score => exact h.endorse f sf peerId score
  | getPeerSettings f peerId =>
    exact h.keepsPeers fun id => getPeerSettings_settingsOf f conn peerId id
  | addFriend fault peerId nickname offlinePubkey =>
    dsimp only [SettingsOp.run]
    unfold addFriend
    split
    · exact h
    · exact h
  | removeFriend fault peerId =>
    dsimp only [SettingsOp.run]
    unfold removeFriend
    split
    · exact h
    · exact h
  | saveGroup f channelName password =>
    dsimp only [SettingsOp.run]
    unfold saveGroup execute
    cases f .saveGroup <;> cases f .insertRoomSettings <;> exact h
  | removeGroup fault channelName =>
    dsimp only [SettingsOp.run]
    unfold removeGroup
    split
    · exact h
    · exact h
  | getRoomSettings f channelName =>
    dsimp only [SettingsOp.run]
    unfold getRoomSettings
    cases f .insertDefault <;> cases f .select <;> exact h
  | saveRoomSettings f channelName settings =>
    dsimp only [SettingsOp.run]
    unfold saveRoomSettings
    cases f .upsertRoomSettings <;> cases f .updateSavedGroup <;> exact h

end

theorem limited_iff {s : RateSession Key} (h : Tracks s.loop.node.conn s.column)
    (ev : RateEvent Key) : LimitMeant s ev ↔ ColumnMeant s ev := by
  cases ev with
  | request f t peer req =>
    dsimp only [LimitMeant, ColumnMeant]
    rw [gatePerMinute_eq, h peer]
    by_cases hread : SettingsRead (f .gate)
    · rw [if_pos hread, if_pos hread]
    · rw [if_neg hread, if_neg hread]
  | _ => exact Iff.rfl

section

variable [DecidableEq Key] [Zero Key] {P : Primitives Key} {W : NetWire Key}
  {hashOf : Bytes → String}

/-- **Requests and reads leave the column as it is**, and a command makes of it what it saves. -/
theorem after_tracks {s : RateSession Key} (h : Tracks s.loop.node.conn s.column)
    (ev : RateEvent Key) :
    Tracks (s.after P W hashOf ev).loop.node.conn (s.after P W hashOf ev).column := by
  cases ev with
  | request f t peer req =>
    exact h.keepsPeers (handleRequest_keepsPeers P W hashOf f s.loop t peer req).settingsOf
  | send f peerId a =>
    exact h.keepsPeers fun id => sendPrivateMessage_settingsOf P W.toDmWire f
      s.loop.node peerId a id
  | command op => exact h.command op
  | configure rateLimitPerMinute => exact h

end

/-! ## 4. Runs -/

/-- **Whose limit applies.** The gate lets a request that it does not refuse through just when
    `rate_limit_allows` does with its limit. In a run from a database without settings, every
    request is limited by what is meant for its peer if and only if before each of them the column
    has it, where the settings can be read, and the configured limit is it, where not. -/
theorem rate_source_iff [DecidableEq Key] [Zero Key] (P : Primitives Key) (W : NetWire Key)
    (hashOf : Bytes → String) (l : EventLoop Key) (evs : List (RateEvent Key)) :
    (∀ f (s : RateSession Key) nowMs peer, (requestGate f s.loop nowMs peer).1 ≠ .refused →
      ((requestGate f s.loop nowMs peer).1 = .admitted ↔
        (rateLimitAllows (s.loop.rateBuckets peer) nowMs (gatePerMinute f s.loop peer)).1 = true)) ∧
    (Along (RateSession.after P W hashOf) LimitMeant (.start l) evs ↔
      Along (RateSession.after P W hashOf) ColumnMeant (.start l) evs) := by
  refine ⟨fun f s nowMs peer h => (requestGate_limits f s.loop nowMs peer h).1, ?_⟩
  exact Along.congr_inv (I := fun s => Tracks s.loop.node.conn s.column)
    (fun _ ev h => limited_iff h ev)
    (fun _ ev h _ => after_tracks h ev) (fun _ => rfl) evs

/-- A loop that lets strangers in, once a minute. -/
def strictLoop : EventLoop Key32 :=
  { loopOf { myPeerId := "b", offlineSecretBytes := secretOf 2, minTrustDm := 0,
             conn := .empty } with
    unknownPeerPolicy := "allow"
    rateLimitPerMinute := 1 }

/-- A stranger's signal. -/
def knock : RateEvent Key32 := .request allRead relayedTurn "c" (.webRtcSignal "offer")

/-- **Twice in one minute** where the configured limit is one. -/
theorem configured_limit_ignored :
    ¬ Along (RateSession.after plain32 wire32 noHash) LimitMeant (.start strictLoop)
    [knock, knock] ∧
      (handleRequest plain32 wire32 noHash allRead
        (RateSession.after plain32 wire32 noHash (.start strictLoop) knock).loop relayedTurn "c"
        (.webRtcSignal "offer")).2 =
          [.emit "webrtc-signal" ["c", "offer"], .sendResponse (.webRtcAck true)] := by
  refine ⟨fun h => ?_, rfl⟩
  have hlimit : gatePerMinute allRead (RateSession.start strictLoop).loop "c" = 1 := h.1
  exact absurd hlimit (by decide)

end AlterChat.RateSource
