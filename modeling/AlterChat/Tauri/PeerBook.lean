import AlterChat.Lib.Recency
import AlterChat.Lib.Run
import AlterChat.Tauri.SessionCommands

/-!
# The book of known peers

Each address that a peer gives in `identify` is saved with the time; the start of a session drops
what is older than seven days, reads the 200 addresses seen last, and dials them.

* §1 `saveKnownPeer`, and what the statements do to one row;
* §2 runs, with the log of what has been saved; `BookInv` -- the rows are the last sightings;
* §3 `known_peers_dialled` -- who is dialled, in every run;
* §4 `announced_displace` -- 200 addresses out of one `identify` displace all others.
-/

namespace AlterChat.Session

open Lib Lib.Table

/-! ## 1. Statements -/

/-- `save_known_peer`. -/
def saveKnownPeer (fails : Bool) (db : ProfileDb) (peerId multiaddr : String) (lastSeen : Int64) :
    ProfileDb :=
  if fails then db
  else { db with knownPeers := db.knownPeers.upsert (peerId, multiaddr) lastSeen fun _ => lastSeen }

/-- Seven days, in milliseconds. -/
def weekMs : Int64 := 7 * 24 * 60 * 60 * 1000

theorem weekMs_toInt : weekMs.toInt = 604800000 := by decide

theorem lookup_cleanupOldPeers {f : PeerFaults} (hf : f .cleanupOldPeers = false) (db : ProfileDb)
    (nowMs maxAgeMs : Int64) (k : String × String) :
    (cleanupOldPeers f db nowMs maxAgeMs).knownPeers.lookup k =
      (db.knownPeers.lookup k).filter fun t => !decide (t < nowMs - maxAgeMs) := by
  unfold cleanupOldPeers
  rw [if_neg (by rw [hf]; exact Bool.false_ne_true)]
  exact lookup_dropWhere (fun t => decide (t < nowMs - maxAgeMs)) db.knownPeers k

/-- What fails leaves the rows. -/
theorem cleanupOldPeers_fails {f : PeerFaults} (hf : f .cleanupOldPeers = true) (db : ProfileDb)
    (nowMs maxAgeMs : Int64) : cleanupOldPeers f db nowMs maxAgeMs = db := if_pos hf

theorem loadKnownPeers_newest {f : PeerFaults} (hf : f .loadKnownPeers = false) (db : ProfileDb) :
    loadKnownPeers f db = db.knownPeers.newest Int64.toInt 200 := by
  unfold loadKnownPeers newest byTime
  rw [if_neg (by rw [hf]; exact Bool.false_ne_true)]
  simp only [Int64.le_iff_toInt_le]

/-! ## 2. Runs -/

/-- A profile's database, the time of the last event, and what has been saved: pairs of a peer and
    an address, each with the time. -/
structure PeerBook where
  db : ProfileDb
  now : Int64
  log : List ((String × String) × Int64)

inductive BookEvent where
  /-- An address out of an `identify`, one turn of the loop. -/
  | identified (now : Int64) (fails : Bool) (peerId multiaddr : String)
  /-- The cleanup at the start of a session. -/
  | started (now : Int64) (f : PeerFaults)
  /-- Whatever else is written to the profile. -/
  | elsewhere (now : Int64) (db : ProfileDb)

def BookEvent.now : BookEvent → Int64
  | .identified now .. | .started now _ | .elsewhere now _ => now

def PeerBook.after (w : PeerBook) : BookEvent → PeerBook
  | .identified now fails peerId multiaddr =>
    { db := saveKnownPeer fails w.db peerId multiaddr now
      now
      log := if fails then w.log else w.log ++ [((peerId, multiaddr), now)] }
  | .started now f => { w with db := cleanupOldPeers f w.db now weekMs, now }
  | .elsewhere now db => { w with db, now }

/-- One event. The clock does not go back, and the rest of the program leaves the table alone. -/
def BookStep (w : PeerBook) (ev : BookEvent) (w' : PeerBook) : Prop :=
  w.now ≤ ev.now ∧ w' = w.after ev ∧
    match ev with
    | .elsewhere _ db => db.knownPeers = w.db.knownPeers
    | _ => True

/-- A new profile, after 1970. -/
def NewBook (w : PeerBook) : Prop := w.db.knownPeers = ∅ ∧ w.log = [] ∧ 0 ≤ w.now.toInt

/-- **The invariant**: a row is the last sighting of its key, and a last sighting of the last seven
    days has its row. -/
structure BookInv (w : PeerBook) : Prop where
  epoch : 0 ≤ w.now.toInt
  past : ∀ k t, lastSeen w.log k = some t → t.toInt ≤ w.now.toInt
  rows : ∀ k t, w.db.knownPeers.lookup k = some t → lastSeen w.log k = some t
  kept : ∀ k t, lastSeen w.log k = some t → w.now.toInt - 604800000 ≤ t.toInt →
    w.db.knownPeers.lookup k = some t

/-- Seven days before a time after 1970. -/
theorem toInt_sub_week {now : Int64} (h : 0 ≤ now.toInt) :
    (now - weekMs).toInt = now.toInt - 604800000 := by
  have hlt := now.toInt_lt
  rw [Int64.toInt_sub, weekMs_toInt, Int.bmod_eq_of_le (by omega) (by omega)]

theorem BookInv.start {w : PeerBook} (h : NewBook w) : BookInv w where
  epoch := h.2.2
  past k t ht := by
    rw [h.2.1] at ht
    cases ht
  rows k t ht := by
    rw [h.1, AList.lookup_empty] at ht
    cases ht
  kept k t ht _ := by
    rw [h.2.1] at ht
    cases ht

/-- A table and a log that are the same, later. -/
theorem BookInv.later {w w' : PeerBook} (h : BookInv w) (hnow : w.now.toInt ≤ w'.now.toInt)
    (htable : w'.db.knownPeers = w.db.knownPeers) (hlog : w'.log = w.log) : BookInv w' where
  epoch := h.epoch.trans hnow
  past k t ht := (h.past k t (hlog ▸ ht)).trans hnow
  rows k t ht := by
    rw [hlog]
    exact h.rows k t (htable ▸ ht)
  kept k t ht hrecent := by
    rw [htable]
    exact h.kept k t (hlog ▸ ht) (by omega)

theorem BookInv.identified {w : PeerBook} (h : BookInv w) {now : Int64}
    (hnow : w.now.toInt ≤ now.toInt) (fails : Bool) (peerId multiaddr : String) :
    BookInv (w.after (.identified now fails peerId multiaddr)) := by
  cases fails with
  | true => exact h.later hnow rfl rfl
  | false =>
    have hlookup : ∀ k, (w.after (.identified now false peerId multiaddr)).db.knownPeers.lookup k =
        if k = (peerId, multiaddr) then some now else w.db.knownPeers.lookup k :=
      Table.lookup_upsert_const w.db.knownPeers (peerId, multiaddr) now
    have hlast : ∀ k, lastSeen (w.after (.identified now false peerId multiaddr)).log k =
        if k = (peerId, multiaddr) then some now else lastSeen w.log k :=
      lastSeen_snoc w.log (peerId, multiaddr) now
    refine ⟨h.epoch.trans hnow, fun k t ht => ?_, fun k t ht => ?_, fun k t ht hrecent => ?_⟩
    · rw [hlast] at ht
      split at ht
      · cases ht
        exact le_rfl
      · exact (h.past k t ht).trans hnow
    · rw [hlookup] at ht
      rw [hlast]
      split at ht
      · next hk => rw [if_pos hk, ht]
      · next hk => rw [if_neg hk, h.rows k t ht]
    · rw [hlast] at ht
      rw [hlookup]
      split at ht
      · next hk => rw [if_pos hk, ht]
      · next hk =>
        rw [if_neg hk]
        refine h.kept k t ht ?_
        have hlater : now.toInt - 604800000 ≤ t.toInt := hrecent
        omega

theorem BookInv.started {w : PeerBook} (h : BookInv w) {now : Int64}
    (hnow : w.now.toInt ≤ now.toInt) (f : PeerFaults) : BookInv (w.after (.started now f)) := by
  cases hf : f .cleanupOldPeers with
  | true =>
    refine h.later hnow ?_ rfl
    show (cleanupOldPeers f w.db now weekMs).knownPeers = _
    rw [cleanupOldPeers_fails hf]
  | false =>
    have hlookup := lookup_cleanupOldPeers hf w.db now weekMs
    have hweek := toInt_sub_week (h.epoch.trans hnow)
    refine ⟨h.epoch.trans hnow, fun k t ht => (h.past k t ht).trans hnow, fun k t ht => ?_,
      fun k t ht hrecent => ?_⟩
    · have hfilter := (hlookup k).symm.trans ht
      exact h.rows k t (Option.filter_eq_some_iff.mp hfilter).1
    · have hlater : now.toInt - 604800000 ≤ t.toInt := hrecent
      refine (hlookup k).trans (Option.filter_eq_some_iff.mpr ⟨h.kept k t ht (by omega), ?_⟩)
      rw [Bool.not_eq_true', decide_eq_false_iff_not, Int64.lt_iff_toInt_lt, hweek]
      omega

/-- **Every run.** -/
theorem bookInv_reach {w : PeerBook} (hr : Reach NewBook BookStep w) : BookInv w := by
  refine hr.inv (fun w => BookInv.start) fun w ev w' h hstep => ?_
  obtain ⟨hclock, rfl, helse⟩ := hstep
  have hnow := Int64.le_iff_toInt_le.mp hclock
  cases ev with
  | identified now fails peerId multiaddr => exact h.identified hnow fails peerId multiaddr
  | started now f => exact h.started hnow f
  | elsewhere now db => exact h.later hnow helse rfl

/-! ## 3. Who is dialled -/

section Dialling

variable {Keypair Pub Key : Type}

/-- The pairs that the start of a session reads. -/
def readPeers (i : Startup Keypair) (db : ProfileDb) : List (String × String) :=
  loadKnownPeers i.fp (cleanupOldPeers i.fp db i.nowMs weekMs)

theorem dialKnownPeers_fst (X : Host Keypair Pub Key) (i : Startup Keypair) (old : Connection)
    (disk : Disk Content) :
    (dialKnownPeers X i old disk).1 = ((readPeers i (old.read disk)).map Prod.snd).filter
      X.isMultiaddr := rfl

variable {w : PeerBook} {i : Startup Keypair} {db : ProfileDb}

/-- After the cleanup: the last sightings of the last seven days. -/
theorem BookInv.cleaned (h : BookInv w) (htable : db.knownPeers = w.db.knownPeers)
    (hclean : i.fp .cleanupOldPeers = false) (hclock : w.now ≤ i.nowMs) (k : String × String)
    (t : Int64) : (cleanupOldPeers i.fp db i.nowMs weekMs).knownPeers.lookup k = some t ↔
      lastSeen w.log k = some t ∧ i.nowMs.toInt - 604800000 ≤ t.toInt := by
  have hnow := Int64.le_iff_toInt_le.mp hclock
  have hrecent : (!decide (t < i.nowMs - weekMs)) = true ↔ i.nowMs.toInt - 604800000 ≤ t.toInt := by
    rw [Bool.not_eq_true', decide_eq_false_iff_not, Int64.lt_iff_toInt_lt,
      toInt_sub_week (h.epoch.trans hnow), not_lt]
  rw [lookup_cleanupOldPeers hclean, Option.filter_eq_some_iff, hrecent, htable]
  constructor
  · rintro ⟨hrow, hweek⟩
    exact ⟨h.rows k t hrow, hweek⟩
  · rintro ⟨hseen, hweek⟩
    exact ⟨h.kept k t hseen (by omega), hweek⟩

/-- What is read has been seen in the last seven days, and fewer than 200 others after it. -/
theorem BookInv.read (h : BookInv w) (htable : db.knownPeers = w.db.knownPeers)
    (hclean : i.fp .cleanupOldPeers = false) (hload : i.fp .loadKnownPeers = false)
    (hclock : w.now ≤ i.nowMs) {k : String × String} (hk : k ∈ readPeers i db) :
    ∃ t, lastSeen w.log k = some t ∧ i.nowMs.toInt - 604800000 ≤ t.toInt ∧
      {k' | ∃ t', lastSeen w.log k' = some t' ∧ t < t'}.encard < 200 := by
  have hrows := h.cleaned htable hclean hclock
  rw [readPeers, loadKnownPeers_newest hload] at hk
  obtain ⟨t, ht⟩ := lookup_of_mem_newest hk
  obtain ⟨hseen, hweek⟩ := (hrows k t).mp ht
  refine ⟨t, hseen, hweek, lt_of_le_of_lt (Set.encard_le_encard ?_) (newest_few_later hk ht)⟩
  rintro k' ⟨t', hseen', hlater⟩
  rw [Int64.lt_iff_toInt_lt] at hlater
  exact ⟨t', (hrows k' t').mpr ⟨hseen', by omega⟩, hlater⟩

/-- **The start of a session**, in every run: up to 200 pairs are read, the last seen first, each
    seen in the last seven days; no pair is passed over unless 200 others have been seen at its time
    or later. -/
theorem known_peers_dialled (hr : Reach NewBook BookStep w) (X : Host Keypair Pub Key)
    (i : Startup Keypair) (old : Connection) (disk : Disk Content)
    (htable : (old.read disk).knownPeers = w.db.knownPeers) (hclean : i.fp .cleanupOldPeers = false)
    (hload : i.fp .loadKnownPeers = false) (hclock : w.now ≤ i.nowMs) :
    ∃ loaded : List (String × String),
      (dialKnownPeers X i old disk).1 = (loaded.map Prod.snd).filter X.isMultiaddr ∧
      loaded.Nodup ∧ loaded.length ≤ 200 ∧
      (loaded.Pairwise fun k k' => ∀ t t', lastSeen w.log k = some t →
        lastSeen w.log k' = some t' → t' ≤ t) ∧
      (∀ k ∈ loaded, ∃ t, lastSeen w.log k = some t ∧ i.nowMs.toInt - 604800000 ≤ t.toInt ∧
        {k' | ∃ t', lastSeen w.log k' = some t' ∧ t < t'}.encard < 200) ∧
      ∀ k t, lastSeen w.log k = some t → i.nowMs.toInt - 604800000 ≤ t.toInt →
        {k' | k' ≠ k ∧ ∃ t', lastSeen w.log k' = some t' ∧ t ≤ t'}.encard < 200 → k ∈ loaded := by
  have h := bookInv_reach hr
  have hrows := h.cleaned htable hclean hclock
  have hread : readPeers i (old.read disk) =
      (cleanupOldPeers i.fp (old.read disk) i.nowMs weekMs).knownPeers.newest Int64.toInt 200 :=
    loadKnownPeers_newest hload _
  refine ⟨readPeers i (old.read disk), dialKnownPeers_fst X i old disk, ?_, ?_, ?_,
    fun k hk => h.read htable hclean hload hclock hk, fun k t hseen hweek hfew => ?_⟩
  · exact hread ▸ newest_nodup ..
  · exact hread ▸ newest_length_le ..
  · have hsorted : (readPeers i (old.read disk)).Pairwise fun k k' => ∀ t t',
        (cleanupOldPeers i.fp (old.read disk) i.nowMs weekMs).knownPeers.lookup k = some t →
        (cleanupOldPeers i.fp (old.read disk) i.nowMs weekMs).knownPeers.lookup k' = some t' →
        t'.toInt ≤ t.toInt := hread ▸ newest_pairwise ..
    refine hsorted.imp_of_mem fun {k k'} hk hk' hle t t' hseen hseen' => ?_
    obtain ⟨s, hs, hweek, -⟩ := h.read htable hclean hload hclock hk
    obtain ⟨s', hs', hweek', -⟩ := h.read htable hclean hload hclock hk'
    cases hs.symm.trans hseen
    cases hs'.symm.trans hseen'
    exact Int64.le_iff_toInt_le.mpr
      (hle t t' ((hrows k t).mpr ⟨hs, hweek⟩) ((hrows k' t').mpr ⟨hs', hweek'⟩))
  · rw [hread]
    refine mem_newest ((hrows k t).mpr ⟨hseen, hweek⟩)
      (lt_of_le_of_lt (Set.encard_le_encard ?_) hfew)
    rintro k' ⟨hne, t', hrow, hle⟩
    exact ⟨hne, t', ((hrows k' t').mp hrow).1, Int64.le_iff_toInt_le.mpr hle⟩

/-- A pair last seen three days ago is dialled, one last seen eight days ago is not. -/
theorem known_peers_dialled_week :
    ∃ (w : PeerBook) (db : ProfileDb) (disk : Disk Content) (loaded : List (String × String)),
      lastSeen w.log ("a", "/ip4/a") = some (5 * 86400000) ∧
      lastSeen w.log ("b", "/ip4/b") = some 0 ∧
      (dialKnownPeers sampleHost { smooth 2 with nowMs := 8 * 86400000 } (.memory db) disk).1 =
        (loaded.map Prod.snd).filter sampleHost.isMultiaddr ∧
      ("a", "/ip4/a") ∈ loaded ∧ ("b", "/ip4/b") ∉ loaded := by
  let w₀ : PeerBook := { db := .new, now := 0, log := [] }
  let w₁ := w₀.after (.identified 0 false "b" "/ip4/b")
  let w₂ := w₁.after (.identified (5 * 86400000) false "a" "/ip4/a")
  have hr : Reach NewBook BookStep w₂ := by
    have hr₀ : Reach NewBook BookStep w₀ := .start _ ⟨rfl, rfl, by decide⟩
    have hr₁ : Reach NewBook BookStep w₁ := .step _ _ _ hr₀ ⟨by decide, rfl, trivial⟩
    exact .step _ _ _ hr₁ ⟨by decide, rfl, trivial⟩
  obtain ⟨loaded, hdial, -, -, -, honly, hall⟩ :=
    known_peers_dialled hr sampleHost { smooth 2 with nowMs := 8 * 86400000 }
      (.memory w₂.db) ∅ rfl rfl rfl
      (by decide)
  have ha : lastSeen w₂.log ("a", "/ip4/a") = some (5 * 86400000) := by decide
  have hb : lastSeen w₂.log ("b", "/ip4/b") = some 0 := by decide
  refine ⟨w₂, w₂.db, ∅, loaded, ha, hb, hdial, hall _ _ ha (by decide) ?_, fun hmem => ?_⟩
  · have hnone : {k' | k' ≠ ("a", "/ip4/a") ∧
        ∃ t', lastSeen w₂.log k' = some t' ∧ 5 * 86400000 ≤ t'} = ∅ := by
      refine Set.eq_empty_of_forall_notMem fun k' hk' => ?_
      obtain ⟨hne, t', hseen, hle⟩ := hk'
      have hin : (k', t') ∈ [(("b", "/ip4/b"), (0 : Int64)), (("a", "/ip4/a"), 5 * 86400000)] :=
        mem_of_lastSeen hseen
      rcases List.mem_cons.mp hin with heq | hin
      · cases heq
        exact absurd hle (by decide)
      · cases List.mem_singleton.mp hin
        exact hne rfl
    rw [hnone, Set.encard_empty]
    decide
  · obtain ⟨t, hseen, hweek, -⟩ := honly _ hmem
    cases hb.symm.trans hseen
    exact absurd hweek (by decide)

/-! ## 4. Displacement -/

/-- An address that a peer gives, saved at a time or not. -/
structure ListenAddr where
  multiaddr : String
  now : Int64
  fails : Bool

/-- The loop of the arm `Identify`. -/
def PeerBook.identify (w : PeerBook) (peerId : String) (listenAddrs : List ListenAddr) : PeerBook :=
  listenAddrs.foldl
    (fun w addr => w.after (.identified addr.now addr.fails peerId addr.multiaddr)) w

/-- The addresses that are saved. -/
def savedAddrs (listenAddrs : List ListenAddr) : List (String × Int64) :=
  (listenAddrs.filter fun addr => !addr.fails).map fun addr => (addr.multiaddr, addr.now)

theorem identify_log (w : PeerBook) (peerId : String) (listenAddrs : List ListenAddr) :
    (w.identify peerId listenAddrs).log =
      w.log ++ (savedAddrs listenAddrs).map fun addr => ((peerId, addr.1), addr.2) := by
  induction listenAddrs generalizing w with
  | nil => exact (List.append_nil _).symm
  | cons addr rest ih =>
    obtain ⟨multiaddr, now, fails⟩ := addr
    have hrest := ih (w.after (.identified now fails peerId multiaddr))
    refine hrest.trans ?_
    cases fails with
    | true => rfl
    | false => exact List.append_assoc ..

/-- The loop is a run, if the clock does not go back in it. -/
theorem identify_reach (hr : Reach NewBook BookStep w) (peerId : String)
    {listenAddrs : List ListenAddr} (hfrom : ∀ addr ∈ listenAddrs, w.now ≤ addr.now)
    (hclock : listenAddrs.Pairwise fun addr addr' => addr.now ≤ addr'.now) :
    Reach NewBook BookStep (w.identify peerId listenAddrs) := by
  induction listenAddrs generalizing w with
  | nil => exact hr
  | cons addr rest ih =>
    obtain ⟨hfirst, hrest⟩ := List.pairwise_cons.mp hclock
    have hstep : BookStep w (.identified addr.now addr.fails peerId addr.multiaddr)
        (w.after (.identified addr.now addr.fails peerId addr.multiaddr)) :=
      ⟨hfrom addr List.mem_cons_self, rfl, trivial⟩
    exact ih (.step _ _ _ hr hstep) hfirst hrest

/-- **Displacement**: after 200 addresses out of one `identify` the next session dials no others. -/
theorem announced_displace (hr : Reach NewBook BookStep w) (peerId : String)
    (listenAddrs : List ListenAddr) (hfrom : ∀ addr ∈ listenAddrs, w.now < addr.now)
    (horder : listenAddrs.Pairwise fun addr addr' => addr.now ≤ addr'.now)
    (hmany : 200 ≤ ((savedAddrs listenAddrs).map Prod.fst).toFinset.card)
    (X : Host Keypair Pub Key) (i : Startup Keypair) (old : Connection) (disk : Disk Content)
    (htable : (old.read disk).knownPeers = (w.identify peerId listenAddrs).db.knownPeers)
    (hclean : i.fp .cleanupOldPeers = false)
    (hclock : (w.identify peerId listenAddrs).now ≤ i.nowMs) :
    ∀ addr ∈ (dialKnownPeers X i old disk).1, addr ∈ (savedAddrs listenAddrs).map Prod.fst := by
  intro addr haddr
  rw [dialKnownPeers_fst] at haddr
  obtain ⟨⟨peer, _⟩, hk, rfl⟩ := List.mem_map.mp (List.mem_of_mem_filter haddr)
  cases hload : i.fp .loadKnownPeers with
  | true =>
    rw [readPeers, loadKnownPeers, if_pos hload] at hk
    cases hk
  | false =>
  have hle : ∀ addr ∈ listenAddrs, w.now ≤ addr.now := fun addr h => by
    have hlt := Int64.lt_iff_toInt_lt.mp (hfrom addr h)
    exact Int64.le_iff_toInt_le.mpr hlt.le
  have hinv := bookInv_reach (identify_reach hr peerId hle horder)
  obtain ⟨t, hseen, -, hfew⟩ := hinv.read htable hclean hload hclock hk
  by_contra hother
  -- The pair is not of this `identify`, so it has been seen before it.
  have hlast : ∀ k, lastSeen (w.identify peerId listenAddrs).log k =
      (lastSeen ((savedAddrs listenAddrs).map fun addr => ((peerId, addr.1), addr.2)) k).or
        (lastSeen w.log k) := fun k => by rw [identify_log, lastSeen_append]
  have hbefore : t.toInt ≤ w.now.toInt := by
    rw [hlast] at hseen
    rcases Option.or_eq_some_iff.mp hseen with hnew | ⟨-, hold⟩
    · obtain ⟨⟨addr, now⟩, hsaved, heq⟩ := List.mem_map.mp (mem_of_lastSeen hnew)
      cases heq
      exact absurd (List.mem_map.mpr ⟨_, hsaved, rfl⟩) hother
    · exact (bookInv_reach hr).past _ t hold
  -- All that this `identify` has saved is later.
  have hsub :
      (fun addr => (peerId, addr)) ''
        (((savedAddrs listenAddrs).map Prod.fst).toFinset : Set String) ⊆
      {k' | ∃ t', lastSeen (w.identify peerId listenAddrs).log k' = some t' ∧ t < t'} := by
    rintro _ ⟨addr, hsaved, rfl⟩
    rw [List.coe_toFinset] at hsaved
    obtain ⟨⟨addr, now⟩, hpair, rfl⟩ := List.mem_map.mp hsaved
    have hkey : (peerId, addr) ∈
        ((savedAddrs listenAddrs).map fun addr => ((peerId, addr.1), addr.2)).map Prod.fst :=
      List.mem_map.mpr ⟨((peerId, addr), now), List.mem_map.mpr ⟨(addr, now), hpair, rfl⟩, rfl⟩
    obtain ⟨t', ht'⟩ := exists_lastSeen hkey
    refine ⟨t', (hlast _).trans (by rw [ht']; rfl), ?_⟩
    obtain ⟨⟨_, _⟩, hin, heq⟩ := List.mem_map.mp (mem_of_lastSeen ht')
    cases heq
    obtain ⟨given, hgiven, heq⟩ := List.mem_map.mp hin
    cases heq
    have hlater := Int64.lt_iff_toInt_lt.mp (hfrom given (List.mem_of_mem_filter hgiven))
    exact Int64.lt_iff_toInt_lt.mpr (hbefore.trans_lt hlater)
  refine absurd hfew (not_lt.mpr ?_)
  calc (200 : ℕ∞)
    _ ≤ ((savedAddrs listenAddrs).map Prod.fst).toFinset.card := by exact_mod_cast hmany
    _ = (((savedAddrs listenAddrs).map Prod.fst).toFinset : Set String).encard :=
      (Set.encard_coe_eq_coe_finsetCard _).symm
    _ = _ := (Function.Injective.encard_image (fun a b h => (Prod.mk.inj h).2) _).symm
    _ ≤ _ := Set.encard_le_encard hsub

/-- The address that follows `n` others. -/
def addrName (n : Nat) : String := String.ofList (List.replicate (n + 1) 'm')

theorem addrName_injective : Function.Injective addrName := fun m n h => by
  have hlength := congrArg List.length (String.ofList_injective h)
  rw [List.length_replicate, List.length_replicate] at hlength
  omega

/-- An address of `a` has been seen; after 200 addresses of `m` only those are dialled. -/
theorem announced_displace_two_hundred :
    ∃ (w : PeerBook) (db : ProfileDb) (disk : Disk Content) (listenAddrs : List ListenAddr),
      lastSeen w.log ("a", "/ip4/a") = some 0 ∧ db = (w.identify "m" listenAddrs).db ∧
      listenAddrs.length = 200 ∧
      ∀ addr ∈ (dialKnownPeers sampleHost { smooth 2 with nowMs := 1 } (.memory db) disk).1,
        addr ∈ (savedAddrs listenAddrs).map Prod.fst := by
  let w₀ : PeerBook := { db := .new, now := 0, log := [] }
  let w := w₀.after (.identified 0 false "a" "/ip4/a")
  let listenAddrs :=
    (List.range 200).map fun n =>
    ({ multiaddr := addrName n, now := 1, fails := false } : ListenAddr)
  have hr : Reach NewBook BookStep w :=
    .step _ (.identified 0 false "a" "/ip4/a") _ (.start w₀ ⟨rfl, rfl, by decide⟩)
      ⟨by decide, rfl, trivial⟩
  have hone : ∀ addr ∈ listenAddrs, addr.now = 1 := fun addr h => by
    obtain ⟨n, -, rfl⟩ := List.mem_map.mp h
    rfl
  have hsaved : (savedAddrs listenAddrs).map Prod.fst = (List.range 200).map addrName := by
    rw [savedAddrs, List.map_map, List.filter_eq_self.mpr fun addr h => ?_, List.map_map]
    · rfl
    · obtain ⟨n, -, rfl⟩ := List.mem_map.mp h
      rfl
  have hnow : (w.identify "m" listenAddrs).now = 1 := by decide
  refine ⟨w, (w.identify "m" listenAddrs).db, ∅, listenAddrs, by decide, rfl, rfl,
    announced_displace hr "m" listenAddrs (fun addr h => ?_) ?_ ?_ sampleHost _
    (.memory _) ∅ rfl rfl ?_⟩
  · rw [hone addr h]
    decide
  · exact List.pairwise_of_forall_mem_list fun addr h addr' h' => by
      rw [hone addr h, hone addr' h']
      decide
  · rw [hsaved, List.toFinset_card_of_nodup (List.nodup_range.map addrName_injective),
      List.length_map, List.length_range]
  · exact hnow ▸ by decide

end Dialling

end AlterChat.Session
