import AlterChat.Lib.Ranking
import AlterChat.Lib.Run
import AlterChat.Tauri.Db

/-!
# The search index of messages

`message_search` holds a copy of every text, without the ttl of the message. `get_private_messages`
deletes what has expired from `private_messages`, of every peer, and then the rows of one peer whose
timestamp no message of it has.

* §1 `searchMessages`, and entries: rows that say which message they were copied from;
* §2 the index with the database it belongs to, `IndexState.after`;
* §3 `Stored` -- every row of a message has its message; what a read needs for that;
* §4 `mem_found_iff` -- which entries a search finds;
* §5 `index_clean_iff` -- in a run nothing elapsed is found and nothing is left over, just where no
  read and no search meets the gap.
-/

namespace AlterChat.MessageIndex

open Lib Db

/-! ## 1. Rows and entries -/

/-- FTS5: which queries it takes, whether a row matches, and whether one has no greater `rank` than
    another, which is a number. -/
structure Fts where
  valid : String → Bool
  hits : String → SearchRow → Bool
  before : String → List SearchRow → SearchRow → SearchRow → Bool
  before_trans : ∀ query rows r₁ r₂ r₃, before query rows r₁ r₂ = true →
    before query rows r₂ r₃ = true →
    before query rows r₁ r₃ = true
  before_total : ∀ query rows r₁ r₂, (before query rows r₁ r₂ || before query rows r₂ r₁) = true

/-- `LIMIT`; a negative one is none. -/
def limited {α : Type} (limit : Int64) (rows : List α) : List α :=
  if limit < 0 then rows else rows.take limit.toNatClampNeg

/-- `search_messages`; `none` where the query is an error. -/
def searchMessages (F : Fts) (db : Database) (query : String) (limit : Int64) :
    Option (List (String × String × String × Int64)) :=
  if F.valid query then
    some ((limited limit ((db.messageSearch.filter (F.hits query)).mergeSort
      (F.before query db.messageSearch))).map fun r => (r.scope, r.sender, r.text, r.timestamp))
  else none

/-- The row `save_private_message` writes for a message. -/
def rowOf (m : PrivateMessage) : SearchRow where
  scope := "dm"
  peerId := m.peerId
  roomId := ""
  sender := if m.senderIsMe then "me" else "peer"
  text := m.text
  timestamp := m.timestamp

/-- A row and where it comes from: a direct message, or a message of a room. -/
inductive Entry where
  | dm (m : PrivateMessage)
  | room (roomId sender text : String) (timestamp : Int64)
  deriving DecidableEq

def Entry.row : Entry → SearchRow
  | .dm m => rowOf m
  | .room roomId sender text timestamp =>
    { scope := "room", peerId := "", roomId, sender, text, timestamp }

/-- The entries that match a query. -/
def matching (F : Fts) (entries : List Entry) (query : String) : List Entry :=
  entries.filter fun e => F.hits query e.row

/-- Their order by rank. -/
def rankedAs (F : Fts) (entries : List Entry) (query : String) (e e' : Entry) : Bool :=
  F.before query (entries.map Entry.row) e.row e'.row

/-- The entries a search finds. -/
def found (F : Fts) (entries : List Entry) (query : String) (limit : Int64) : List Entry :=
  if F.valid query then
    limited limit ((matching F entries query).mergeSort (rankedAs F entries query))
  else []

/-! ## 2. The index -/

/-- A database, and the entries behind its rows. -/
structure IndexState where
  conn : Database
  entries : List Entry
  copies : entries.map Entry.row = conn.messageSearch

theorem limited_map {α β : Type} (f : α → β) (limit : Int64) (rows : List α) :
    (limited limit rows).map f = limited limit (rows.map f) := by
  unfold limited
  split
  · rfl
  · rw [List.map_take]

/-- **The entries found are what `search_messages` returns.** -/
theorem IndexState.found_rows (s : IndexState) (F : Fts) {query : String} (h : F.valid query = true)
    (limit : Int64) :
    searchMessages F s.conn query limit = some ((found F s.entries query limit).map
      fun e => (e.row.scope, e.row.sender, e.row.text, e.row.timestamp)) := by
  have hsort : ((matching F s.entries query).mergeSort (rankedAs F s.entries query)).map Entry.row =
        (s.conn.messageSearch.filter (F.hits query)).mergeSort
          (F.before query s.conn.messageSearch) := by
    rw [List.map_mergeSort (s := F.before query s.conn.messageSearch), ← s.copies,
      List.filter_map, matching]
    · rfl
    · intro e _ e' _
      rw [rankedAs, s.copies]
  unfold searchMessages found
  rw [if_pos h, if_pos h, ← hsort, ← limited_map, List.map_map]
  rfl

/-- The rows a read deletes: those of the peer whose timestamp none of its messages has. -/
def leftOver (conn : Database) (peerId : String) (r : SearchRow) : Bool :=
  decide (r.scope = "dm") && decide (r.peerId = peerId) &&
    !decide (r.timestamp ∈ (conn.privateMessages.filter fun m => decide (m.peerId = peerId)).map
      fun m => m.timestamp)

/-- The messages that are left by a read. -/
def afterExpiry (f : Faults) (nowMs : Int64) (messages : List PrivateMessage) :
    List PrivateMessage :=
  if f .deleteExpiredMessages = none then messages.filter fun m => !m.expired nowMs else messages

inductive IndexEvent where
  | save (f : Faults) (m : PrivateMessage)
  | indexRoom (f : Faults) (roomId sender text : String) (timestamp : Int64)
  | read (f : Faults) (nowMs : Int64) (peerId : String)
  | search (nowMs : Int64) (query : String) (limit : Int64)

/-- The database after an event. -/
def IndexEvent.conn (conn : Database) : IndexEvent → Database
  | .save f m => (savePrivateMessage f conn m.peerId m.senderIsMe m.text m.timestamp m.ttl).2
  | .indexRoom f roomId sender text timestamp =>
    (indexRoomMessage f conn roomId sender text timestamp).2
  | .read f nowMs peerId => (getPrivateMessages f conn nowMs peerId).2
  | .search .. => conn

/-- The entries after it. -/
def IndexEvent.entries (conn : Database) (entries : List Entry) : IndexEvent → List Entry
  | .save f m =>
    if f .savePrivateMessage = none ∧ f .indexPrivateMessage = none then entries ++ [.dm m]
    else entries
  | .indexRoom f roomId sender text timestamp =>
    if f .indexRoomMessage = none then entries ++ [.room roomId sender text timestamp] else entries
  | .read f nowMs peerId =>
    if f .deleteSearchRows = none then
      entries.filter fun e =>
        !leftOver { conn with
                    privateMessages := afterExpiry f nowMs conn.privateMessages } peerId e.row
    else entries
  | .search .. => entries

/-- A read in terms of what is left over. -/
theorem getPrivateMessages_tables (f : Faults) (conn : Database) (nowMs : Int64) (peerId : String) :
    (getPrivateMessages f conn nowMs peerId).2.privateMessages =
      afterExpiry f nowMs conn.privateMessages ∧
    (getPrivateMessages f conn nowMs peerId).2.messageSearch =
      if f .deleteSearchRows = none then
        conn.messageSearch.filter fun r =>
          !leftOver { conn with
                      privateMessages := afterExpiry f nowMs conn.privateMessages } peerId r
      else conn.messageSearch := by
  unfold getPrivateMessages execute afterExpiry
  cases f .deleteExpiredMessages with
  | none => cases f .deleteSearchRows <;> exact ⟨rfl, rfl⟩
  | some e => cases f .deleteSearchRows <;> exact ⟨rfl, rfl⟩

/-- **The entries stay the rows' own**: an event does to them what it does to the rows. -/
theorem entries_copies {conn : Database} {entries : List Entry}
    (h : entries.map Entry.row = conn.messageSearch) (ev : IndexEvent) :
    (ev.entries conn entries).map Entry.row = (ev.conn conn).messageSearch := by
  cases ev with
  | save f m =>
    dsimp only [IndexEvent.entries, IndexEvent.conn]
    unfold savePrivateMessage execute
    cases f .savePrivateMessage with
    | some e => exact h
    | none =>
      cases f .indexPrivateMessage with
      | some e => exact h
      | none =>
        rw [if_pos ⟨rfl, rfl⟩, List.map_append, h]
        rfl
  | indexRoom f roomId sender text timestamp =>
    dsimp only [IndexEvent.entries, IndexEvent.conn]
    unfold indexRoomMessage execute
    cases f .indexRoomMessage with
    | some e => exact h
    | none =>
      rw [if_pos rfl, List.map_append, h]
      rfl
  | read f nowMs peerId =>
    dsimp only [IndexEvent.entries, IndexEvent.conn]
    rw [(getPrivateMessages_tables f conn nowMs peerId).2]
    split
    · rw [← h, List.filter_map]
      rfl
    · exact h
  | search => exact h

def IndexState.after (s : IndexState) (ev : IndexEvent) : IndexState where
  conn := ev.conn s.conn
  entries := ev.entries s.conn s.entries
  copies := entries_copies s.copies ev

/-- The index of a new profile. -/
def IndexState.start : IndexState where
  conn := .empty
  entries := []
  copies := rfl

/-! ## 3. Rows without a message -/

/-- Every row of a direct message has its message: what was deleted as expired has left no row. -/
def IndexState.Stored (s : IndexState) : Prop := ∀ m, .dm m ∈ s.entries → m ∈ s.conn.privateMessages

/-- The property of a step: a search finds no direct message whose ttl has elapsed, and a read
    leaves no row of one that was deleted. -/
def Clean (F : Fts) (s : IndexState) : IndexEvent → Prop
  | .search nowMs query limit =>
    ∀ m, .dm m ∈ found F s.entries query limit → m.expired nowMs = false
  | .read f nowMs peerId => (s.after (.read f nowMs peerId)).Stored
  | _ => True

/-- The row of an expired message goes with it: the rows can be deleted, the read is that of its
    peer, and no other message of the peer that stays has its timestamp. -/
def RowGoes (f : Faults) (nowMs : Int64) (peerId : String) (messages : List PrivateMessage)
    (m : PrivateMessage) : Prop :=
  f .deleteSearchRows = none ∧ m.peerId = peerId ∧
    ∀ m' ∈ messages, m'.peerId = peerId → m'.expired nowMs = false → m'.timestamp ≠ m.timestamp

/-- How many of the matching entries have a smaller rank than this one, or the same and an older
    row. -/
def rankedBefore (F : Fts) (entries : List Entry) (query : String) (e : Entry) : Nat :=
  Ranking.ahead (rankedAs F entries query) e (matching F entries query)

/-- What it needs. A read that deletes takes the row of every expired message along. When a search
    runs, no message that has elapsed is still stored with a row that matches, unless there are as
    many rows before it as the search returns. -/
def Allowed (F : Fts) (s : IndexState) : IndexEvent → Prop
  | .search nowMs query limit => F.valid query = true →
    ∀ m ∈ s.conn.privateMessages, m.expired nowMs = true → .dm m ∈ s.entries →
      F.hits query (rowOf m) = true →
        0 ≤ limit ∧ limit.toNatClampNeg ≤ rankedBefore F s.entries query (.dm m)
  | .read f nowMs peerId => f .deleteExpiredMessages = none →
    ∀ m, .dm m ∈ s.entries → m.expired nowMs = true →
    RowGoes f nowMs peerId s.conn.privateMessages m
  | _ => True

theorem mem_afterExpiry {f : Faults} {nowMs : Int64} {messages : List PrivateMessage}
    {m : PrivateMessage} :
    m ∈ afterExpiry f nowMs messages ↔
      m ∈ messages ∧ (f .deleteExpiredMessages = none → m.expired nowMs = false) := by
  unfold afterExpiry
  split
  · next h => simp [h]
  · next h => simp [h]

/-- The rows of a message are left over where it is of this peer, and nothing of the peer has its
    time. -/
theorem leftOver_rowOf (conn : Database) (peerId : String) (m : PrivateMessage) :
    leftOver conn peerId (rowOf m) = true ↔ m.peerId = peerId ∧
      ∀ m' ∈ conn.privateMessages, m'.peerId = peerId → m'.timestamp ≠ m.timestamp := by
  unfold leftOver rowOf
  simp only [decide_true, Bool.true_and, Bool.and_eq_true, decide_eq_true_eq, Bool.not_eq_true',
    decide_eq_false_iff_not, List.mem_map, List.mem_filter, not_exists, not_and, and_imp]

theorem read_entries {s : IndexState} {f : Faults} {nowMs : Int64} {peerId : String}
    {m : PrivateMessage} :
    .dm m ∈ (s.after (.read f nowMs peerId)).entries ↔ .dm m ∈ s.entries ∧
      ¬ (f .deleteSearchRows = none ∧ m.peerId = peerId ∧
        ∀ m' ∈ afterExpiry f nowMs s.conn.privateMessages, m'.peerId = peerId →
          m'.timestamp ≠ m.timestamp) := by
  have hentries : (s.after (.read f nowMs peerId)).entries =
      if f .deleteSearchRows = none then
        s.entries.filter fun e => !leftOver { s.conn with
          privateMessages := afterExpiry f nowMs s.conn.privateMessages } peerId e.row
      else s.entries := rfl
  rw [hentries]
  split
  · next hf =>
    rw [List.mem_filter, Bool.not_eq_true', ← Bool.not_eq_true]
    refine and_congr_right fun _ => not_congr ?_
    rw [and_iff_right hf]
    exact leftOver_rowOf _ peerId m
  · next hf => exact (and_iff_left fun h => hf h.1).symm

/-- **A read leaves every row its message** just where it takes the rows of what it deletes
    along. -/
theorem read_stored_iff {s : IndexState} (h : s.Stored) (f : Faults) (nowMs : Int64)
    (peerId : String) : (s.after (.read f nowMs peerId)).Stored ↔
      (f .deleteExpiredMessages = none → ∀ m, .dm m ∈ s.entries → m.expired nowMs = true →
        RowGoes f nowMs peerId s.conn.privateMessages m) := by
  have hmessages : (s.after (.read f nowMs peerId)).conn.privateMessages =
      afterExpiry f nowMs s.conn.privateMessages :=
        (getPrivateMessages_tables f s.conn nowMs peerId).1
  unfold IndexState.Stored
  rw [hmessages]
  simp only [read_entries, mem_afterExpiry]
  constructor
  · intro hstored hf m hm hexpired
    by_contra hstays
    refine absurd ((hstored m ⟨hm, fun hgone => hstays ?_⟩).2 hf) (by rw [hexpired]; decide)
    exact ⟨hgone.1, hgone.2.1, fun m' hm' hpeer hlive => hgone.2.2 m' ⟨hm', fun _ => hlive⟩ hpeer⟩
  · intro hgoes m hm
    refine ⟨h m hm.1, fun hf => ?_⟩
    cases hexpired : m.expired nowMs with
    | false => rfl
    | true =>
      obtain ⟨hrows, hpeer, halone⟩ := hgoes hf m hm.1 hexpired
      exact absurd ⟨hrows, hpeer, fun m' hm' hp => halone m' hm'.1 hp (hm'.2 hf)⟩ hm.2

/-! ## 4. What a search finds -/

theorem mem_limited_mergeSort {α : Type} [DecidableEq α] {le : α → α → Bool}
    (trans : ∀ a b c, le a b = true → le b c = true → le a c = true)
    (total : ∀ a b, (le a b || le b a) = true) {limit : Int64} {l : List α} {a : α} :
    a ∈ limited limit (l.mergeSort le) ↔
      a ∈ l ∧ ¬ (0 ≤ limit ∧ limit.toNatClampNeg ≤ Ranking.ahead le a l) := by
  unfold limited
  split
  · next hneg =>
    have hno : ¬ 0 ≤ limit := Int64.not_le.mpr hneg
    rw [List.mem_mergeSort]
    exact (and_iff_left fun h => hno h.1).symm
  · next hnonneg =>
    rw [Ranking.mem_take_mergeSort_iff trans total, and_iff_right
      (Int64.not_lt.mp hnonneg), Nat.not_le]

/-- **An entry is found** if it matches and fewer matching ones are ranked before it than the search
    returns. -/
theorem mem_found_iff {F : Fts} {entries : List Entry} {query : String} {limit : Int64}
    {e : Entry} :
    e ∈ found F entries query limit ↔
      F.valid query = true ∧ e ∈ entries ∧ F.hits query e.row = true ∧
        ¬ (0 ≤ limit ∧ limit.toNatClampNeg ≤ rankedBefore F entries query e) := by
  unfold found
  split
  · next hvalid =>
    have trans : ∀ e₁ e₂ e₃, rankedAs F entries query e₁ e₂ = true →
        rankedAs F entries query e₂ e₃ = true → rankedAs F entries query e₁ e₃ = true :=
      fun _ _ _ => F.before_trans query _ _ _ _
    have total :
        ∀ e₁ e₂, (rankedAs F entries query e₁ e₂ || rankedAs F entries query e₂ e₁) = true :=
      fun _ _ => F.before_total query _ _ _
    have hmatch : e ∈ matching F entries query ↔ e ∈ entries ∧ F.hits query e.row = true :=
      List.mem_filter
    rw [mem_limited_mergeSort trans total, hmatch, and_iff_right hvalid, and_assoc]
    rfl
  · next hvalid => exact iff_of_false List.not_mem_nil fun h => hvalid h.1

/-! ## 5. Runs -/

section

variable {F : Fts}

theorem clean_iff {s : IndexState} (h : s.Stored) (ev : IndexEvent) :
    Clean F s ev ↔ Allowed F s ev := by
  cases ev with
  | search nowMs query limit =>
    constructor
    · intro hclean hvalid m _ hexpired hrow hhits
      by_contra hfirst
      have hlive := hclean m (mem_found_iff.mpr ⟨hvalid, hrow, hhits, hfirst⟩)
      rw [hlive] at hexpired
      cases hexpired
    · intro hallowed m hfound
      obtain ⟨hvalid, hrow, hhits, hfirst⟩ := mem_found_iff.mp hfound
      rw [← Bool.not_eq_true]
      exact fun hexpired => hfirst (hallowed hvalid m (h m hrow) hexpired hrow hhits)
  | read f nowMs peerId => exact read_stored_iff h f nowMs peerId
  | save => exact Iff.rfl
  | indexRoom => exact Iff.rfl

/-- A message comes with its row, or without; rows of rooms have none. -/
theorem after_stored {s : IndexState} (h : s.Stored) (ev : IndexEvent) (hclean : Clean F s ev) :
    (s.after ev).Stored := by
  cases ev with
  | search => exact h
  | read f nowMs peerId => exact hclean
  | indexRoom f roomId sender text timestamp =>
    intro m hm
    have hentries : (s.after (.indexRoom f roomId sender text timestamp)).entries =
        if f .indexRoomMessage = none then s.entries ++ [.room roomId sender text timestamp]
        else s.entries := rfl
    have hmessages : (s.after (.indexRoom f roomId sender text timestamp)).conn.privateMessages =
        s.conn.privateMessages := by
      dsimp only [IndexState.after, IndexEvent.conn]
      unfold indexRoomMessage execute
      cases f .indexRoomMessage <;> rfl
    rw [hentries] at hm
    rw [hmessages]
    split at hm
    · simp only [List.mem_append, List.mem_singleton, reduceCtorEq, or_false] at hm
      exact h m hm
    · exact h m hm
  | save f saved =>
    intro m hm
    obtain ⟨index, hframe⟩ :=
      savePrivateMessage_frame f s.conn saved.peerId saved.senderIsMe saved.text
      saved.timestamp saved.ttl
    have hentries : (s.after (.save f saved)).entries =
        if f .savePrivateMessage = none ∧ f .indexPrivateMessage = none then
          s.entries ++ [.dm saved]
        else s.entries := rfl
    have hmessages : (s.after (.save f saved)).conn.privateMessages =
        if f .savePrivateMessage = none then s.conn.privateMessages ++ [saved]
        else s.conn.privateMessages := congrArg Database.privateMessages hframe
    rw [hentries] at hm
    rw [hmessages]
    split at hm
    · next hf =>
      rw [if_pos hf.1]
      simp only [List.mem_append, List.mem_singleton, Entry.dm.injEq] at hm ⊢
      exact hm.imp_left (h m)
    · split
      · exact List.mem_append_left _ (h m hm)
      · exact h m hm

end

/-- **Expired messages are not searchable, and leave no rows**, in every step of a run from a new
    profile, just where each read takes the rows of all it deletes along and, when a search runs, no
    elapsed message is still stored with a row that matches and has a place among the results. -/
theorem index_clean_iff (F : Fts) (evs : List IndexEvent) :
    Along IndexState.after (Clean F) .start evs ↔ Along IndexState.after (Allowed F) .start evs :=
  Along.congr_inv (I := IndexState.Stored) (fun _ ev h => clean_iff h ev)
    (fun _ ev h hclean => after_stored h ev hclean) (fun _ h => absurd h List.not_mem_nil) evs

/-- A query of one word, which is found in texts of this one word. -/
def oneWord : Fts where
  valid _ := true
  hits query r := decide (r.text = query)
  before _ _ _ _ := true
  before_trans _ _ _ _ _ _ _ := rfl
  before_total _ _ _ _ := rfl

/-- A message for one second. -/
def fleeting : PrivateMessage where
  peerId := "alice"
  senderIsMe := false
  text := "secret"
  timestamp := 0
  ttl := some 1

/-- **Read by someone else's window**: the message is deleted, and its text is still found. -/
theorem deleted_text_found :
    ¬ Along IndexState.after (Clean oneWord) .start
      [.save noFaults fleeting, .read noFaults 5000 "bob"] ∧
    ¬ Along IndexState.after (Clean oneWord) .start
      [.save noFaults fleeting, .search 5000 "secret" 25] := by
  constructor
  · rintro ⟨-, hread, -⟩
    have hstored : fleeting ∈ ([] : List PrivateMessage) :=
      hread fleeting (List.mem_singleton_self _)
    exact absurd hstored List.not_mem_nil
  · rintro ⟨-, hsearch, -⟩
    have hfound : .dm fleeting ∈ found oneWord [.dm fleeting] "secret" 25 :=
      mem_found_iff.mpr ⟨rfl, List.mem_singleton_self _, rfl, by decide⟩
    have hlive : fleeting.expired 5000 = false := hsearch fleeting hfound
    exact absurd hlive (by decide)

end AlterChat.MessageIndex
