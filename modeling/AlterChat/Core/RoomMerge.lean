import AlterChat.Core.RoomLayout
import AlterChat.Lib.Run
import AlterChat.Lib.OpSetDoc

/-!
# Two rooms that merge each other

Two replicas call `Room::new` on their own, add messages, and merge what the other has saved, in any
order. Each `Room::new` creates a list of its own under `"messages"`; once the two lists meet in a
document, the one with the greater actor id is the list the room shows.

* `MergeWorld`, `MergeStep` -- the runs;
* `MergeInv`, `mergeInv_step` -- what each document and each saved byte string holds;
* `room_keeps_messages_iff` -- when both have merged what the other saved last, each lists every
  message if and only if the replica with the smaller actor id added none before its first merge.
-/

namespace AlterChat.Crdt

open Lib Automerge

/-! ## 1. Runs -/

inductive Replica where
  | left
  | right
  deriving DecidableEq

namespace Replica

def other : Replica → Replica
  | left => right
  | right => left

@[simp] theorem other_other (p : Replica) : p.other.other = p := by cases p <;> rfl

theorem other_ne (p : Replica) : p.other ≠ p := by cases p <;> nofun

theorem eq_or_other (p q : Replica) : q = p ∨ q = p.other := by cases p <;> cases q <;> simp [other]

end Replica

/-- A room, what it has saved, and what has happened to it. -/
structure ReplicaState (Key Doc : Type) where
  room : Room Key Doc
  /-- What it has saved, each with the number of messages it had added by then. -/
  saved : List (Bytes × Nat)
  added : List CrdtMessage
  /-- How many it added before its first merge. -/
  early : Nat
  /-- How many messages the other had added to what it has merged; `none` = nothing merged. -/
  seen : Option Nat

abbrev MergeWorld (Key Doc : Type) := Replica → ReplicaState Key Doc

inductive MergeEvent (Actor : Type) where
  | add (p : Replica) (msg : CrdtMessage) (nonce : Nonce)
  | save (p : Replica) (nonce : Nonce)
  /-- `p` merges the `k`th byte string the other has saved. -/
  | merge (p : Replica) (k : Nat) (actor : Actor)

section

variable {Key Actor Scalar Doc : Type}

/-- What an `Ok` adds to the saved byte strings. -/
def savedBytes {ε : Type} (n : Nat) : Except ε Bytes → List (Bytes × Nat)
  | .ok bytes => [(bytes, n)]
  | .error _ => []

def ReplicaState.add (L : Libraries Key Actor Scalar Doc) (s : ReplicaState Key Doc)
    (msg : CrdtMessage) (nonce : Nonce) : ReplicaState Key Doc :=
  let r := Room.addMessage L s.room msg nonce
  { room := r.2
    saved := s.saved ++ savedBytes (s.added.length + 1) r.1
    added := s.added ++ [msg]
    early := if s.seen = none then s.early + 1 else s.early
    seen := s.seen }

def ReplicaState.save (L : Libraries Key Actor Scalar Doc) (s : ReplicaState Key Doc)
    (nonce : Nonce) : ReplicaState Key Doc :=
  let r := Room.save L s.room nonce
  { s with room := r.2, saved := s.saved ++ savedBytes s.added.length r.1 }

/-- A merge of what the other had saved after `n` messages. -/
def ReplicaState.merge (L : Libraries Key Actor Scalar Doc) (s : ReplicaState Key Doc)
    (actor : Actor) (bytes : Bytes) (n : Nat) : ReplicaState Key Doc :=
  match Room.merge L s.room actor bytes with
  | (.error _, room) => { s with room }
  | (.ok (), room) => { s with room, seen := some (max n (s.seen.getD 0)) }

def MergeWorld.after (L : Libraries Key Actor Scalar Doc) (w : MergeWorld Key Doc) :
    MergeEvent Actor → MergeWorld Key Doc
  | .add p msg nonce => Function.update w p ((w p).add L msg nonce)
  | .save p nonce => Function.update w p ((w p).save L nonce)
  | .merge p k actor =>
    match (w p.other).saved[k]? with
    | none => w
    | some (bytes, n) => Function.update w p ((w p).merge L actor bytes n)

def MergeStep (L : Libraries Key Actor Scalar Doc) (w : MergeWorld Key Doc) (ev : MergeEvent Actor)
    (w' : MergeWorld Key Doc) : Prop :=
  w' = w.after L ev

/-- A replica with a new room. -/
def ReplicaState.new (room : Room Key Doc) : ReplicaState Key Doc where
  room := room
  saved := []
  added := []
  early := 0
  seen := none

/-- Two new rooms with one id and password, under two actors. -/
structure MergeStart (L : Libraries Key Actor Scalar Doc) (id : String) (password : Option String)
    (actor : Replica → Actor) (w : MergeWorld Key Doc) : Prop where
  new : ∀ p, ∃ room, Room.new L (actor p) id password = .ok room ∧ w p = .new room

/-- Both have merged what the other saved after its last message. -/
def Synced (w : MergeWorld Key Doc) : Prop :=
  ∀ p, (w p).seen = some (w p.other).added.length

/-- **The property at one state**: each room lists every message of both, with its number. -/
def Complete (L : Libraries Key Actor Scalar Doc) (now : Int64) (w : MergeWorld Key Doc) : Prop :=
  ∀ p, ∃ l, Room.getMessages L (w p).room now = .ok l ∧
    (((w .left).added ++ (w .right).added).map (CrdtMessage.shown now)).Subperm l

end

/-! ## 2. What the documents hold -/

section

variable {Key Actor Scalar Doc : Type} [LinearOrder Actor]

/-- Whose lists are in a document of `p`. -/
def knownLists (actor : Replica → Actor) (p : Replica) (seen : Option Nat) : Set Actor :=
  {a | a = actor p ∨ seen ≠ none ∧ a = actor p.other}

omit [LinearOrder Actor] in
theorem knownLists_none (actor : Replica → Actor) (p : Replica) :
    knownLists actor p none = {actor p} := by
  ext a
  simp [knownLists]

/-- The entries of a document of `p`: the first of the other's, and the first of its own. -/
def knownEntries (own : Replica → List (Entry Actor)) (p : Replica) (seen : Option Nat) (n : Nat) :
    List (Entry Actor) :=
  (own p.other).take (seen.getD 0) ++ (own p).take n

omit [LinearOrder Actor] in
/-- One more entry of a replica. -/
theorem prefix_update (own : Replica → List (Entry Actor)) (p q : Replica) (e : Entry Actor) :
    own q <+: Function.update own p (own p ++ [e]) q := by
  rcases Replica.eq_or_other p q with rfl | rfl
  · rw [Function.update_self]
    exact List.prefix_append _ _
  · rw [Function.update_of_ne (Replica.other_ne p)]

variable [DecidableEq Scalar]

/-- A document with what `p` has known at some time. -/
def Knows (L : Libraries Key Actor Scalar Doc) (actor : Replica → Actor)
    (own : Replica → List (Entry Actor)) (p : Replica) (seen : Option Nat) (n : Nat) (d : Doc) :
    Prop :=
  Layout L.automerge (L.automerge.history d) (knownLists actor p seen) (knownEntries own p seen n)

/-- Bytes that `p` has saved. -/
def Holds (L : Libraries Key Actor Scalar Doc) (K : Key) (actor : Replica → Actor)
    (own : Replica → List (Entry Actor)) (p : Replica) (bytes : Bytes) (n : Nat) : Prop :=
  ∃ plain seen, decryptPayload L K bytes = .ok plain ∧
    (∀ m, seen = some m → m ≤ (own p.other).length) ∧
    ∀ a, ∃ d, L.automerge.load a plain = .ok d ∧ Knows L actor own p seen n d

/-- **The state of a replica**: its messages are entries under its own ids; the early ones are in
    its own list, the later ones in the list of the greater actor. -/
structure ReplicaInv (L : Libraries Key Actor Scalar Doc) (K : Key) (actor : Replica → Actor)
    (own : Replica → List (Entry Actor)) (p : Replica) (s : ReplicaState Key Doc) : Prop where
  roomKey : s.room.encryptionKey = K
  roomActor : L.automerge.actor s.room.doc = actor p
  msgs : (own p).map Entry.msg = s.added
  entryActor : ∀ e ∈ own p, e.id.actor = actor p
  nodup : ((own p).map Entry.id).Nodup
  earlyLe : s.early ≤ (own p).length
  earlyList : ∀ e ∈ (own p).take s.early, e.list = actor p
  laterList : ∀ e ∈ (own p).drop s.early, e.list = max (actor p) (actor p.other)
  unseen : s.seen = none → s.early = (own p).length
  seenLe : ∀ m, s.seen = some m → m ≤ (own p.other).length
  knows : Knows L actor own p s.seen (own p).length s.room.doc
  saved : ∀ bytes n, (bytes, n) ∈ s.saved → n ≤ (own p).length ∧ Holds L K actor own p bytes n

def MergeInv (L : Libraries Key Actor Scalar Doc) (K : Key) (actor : Replica → Actor)
    (own : Replica → List (Entry Actor)) (w : MergeWorld Key Doc) : Prop :=
  ∀ p, ReplicaInv L K actor own p (w p)

variable {L : Libraries Key Actor Scalar Doc} {K : Key} {actor : Replica → Actor}
  {own : Replica → List (Entry Actor)} {w : MergeWorld Key Doc}

theorem ReplicaInv.length {p : Replica} {s : ReplicaState Key Doc}
    (h : ReplicaInv L K actor own p s) : s.added.length = (own p).length := by
  rw [← h.msgs, List.length_map]

/-- The list of the greater actor, of those a replica knows. -/
theorem isGreatest_known (actor : Replica → Actor) (p : Replica) (seen : Option Nat) :
    IsGreatest (knownLists actor p seen)
      (if seen = none then actor p else max (actor p) (actor p.other)) := by
  unfold knownLists
  split
  · next hn =>
    refine ⟨.inl rfl, fun a ha => ?_⟩
    rcases ha with rfl | ⟨hne, -⟩
    · exact le_rfl
    · exact absurd hn hne
  · next hn =>
    refine ⟨?_, fun a ha => ?_⟩
    · rcases max_choice (actor p) (actor p.other) with h | h
      · exact .inl h
      · exact .inr ⟨hn, h⟩
    · rcases ha with rfl | ⟨-, rfl⟩
      · exact le_max_left _ _
      · exact le_max_right _ _

/-- More messages of its own do not change what a replica knew. -/
theorem Knows.mono {p : Replica} {seen : Option Nat} {n : Nat} {d : Doc}
    (h : Knows L actor own p seen n d) (hn : n ≤ (own p).length)
    (hs : ∀ m, seen = some m → m ≤ (own p.other).length) {own' : Replica → List (Entry Actor)}
    (hpre : ∀ q, own q <+: own' q) : Knows L actor own' p seen n d := by
  have htake : ∀ q m, m ≤ (own q).length → (own' q).take m = (own q).take m := by
    intro q m hm
    obtain ⟨t, ht⟩ := hpre q
    rw [← ht, List.take_append_of_le_length hm]
  unfold Knows knownEntries at h ⊢
  rw [htake p n hn, htake p.other (seen.getD 0)]
  · exact h
  · cases seen with
    | none => exact Nat.zero_le _
    | some m => exact hs m rfl

theorem Holds.mono {p : Replica} {bytes : Bytes} {n : Nat} (h : Holds L K actor own p bytes n)
    (hn : n ≤ (own p).length) {own' : Replica → List (Entry Actor)} (hpre : ∀ q, own q <+: own' q) :
    Holds L K actor own' p bytes n := by
  obtain ⟨plain, seen, hplain, hs, hload⟩ := h
  refine ⟨plain, seen, hplain, fun m hm => (hs m hm).trans (hpre _).length_le, fun a => ?_⟩
  obtain ⟨d, hd, hk⟩ := hload a
  exact ⟨d, hd, hk.mono hn hs hpre⟩

/-- What a replica saves holds what it knows. -/
theorem holds_save (hP : L.aead.Lawful) (hA : L.automerge.Documented) {p : Replica}
    {seen : Option Nat} {n : Nat} {room : Room Key Doc} {nonce : Nonce} {bytes : Bytes}
    (hk : Knows L actor own p seen n room.doc)
    (hs : ∀ m, seen = some m → m ≤ (own p.other).length)
    (h : (Room.save L room nonce).1 = .ok bytes) :
    Holds L room.encryptionKey actor own p bytes n := by
  refine ⟨_, seen, decryptPayload_encrypt hP h, hs, fun a => ?_⟩
  obtain ⟨d, hd, hH⟩ := hA.load_save room.doc a
  refine ⟨d, hd, ?_⟩
  unfold Knows at hk ⊢
  rwa [hH]

/-- What one replica adds leaves the other as it is. -/
theorem ReplicaInv.mono {p : Replica} {s : ReplicaState Key Doc} (h : ReplicaInv L K actor own p s)
    {own' : Replica → List (Entry Actor)} (hpre : ∀ q, own q <+: own' q) (hp : own' p = own p) :
    ReplicaInv L K actor own' p s where
  roomKey := h.roomKey
  roomActor := h.roomActor
  msgs := hp ▸ h.msgs
  entryActor := hp ▸ h.entryActor
  nodup := hp ▸ h.nodup
  earlyLe := hp ▸ h.earlyLe
  earlyList := hp ▸ h.earlyList
  laterList := hp ▸ h.laterList
  unseen := hp ▸ h.unseen
  seenLe m hm := (h.seenLe m hm).trans (hpre _).length_le
  knows := hp ▸ h.knows.mono le_rfl h.seenLe hpre
  saved bytes n hb := by
    obtain ⟨hn, hh⟩ := h.saved bytes n hb
    exact ⟨hp ▸ hn, hh.mono hn hpre⟩

/-! ## 3. What a step keeps -/

theorem mergeInv_start (hA : L.automerge.Documented) {id : String} {password : Option String}
    (h : MergeStart L id password actor w) :
    MergeInv L (deriveRoomKey L id password) actor (fun _ => []) w := by
  intro p
  obtain ⟨room, hroom, hw⟩ := h.new p
  obtain ⟨room', hnew, ha, -, hk, hl⟩ := Layout.new hA (actor p) id password
  cases hroom.symm.trans hnew
  rw [hw]
  refine { roomKey := hk, roomActor := ha, msgs := rfl, entryActor := ?_, nodup := List.nodup_nil
           earlyLe := le_rfl, earlyList := ?_, laterList := ?_, unseen := fun _ => rfl
           seenLe := nofun, knows := ?_, saved := ?_ }
  · exact fun e he => absurd he List.not_mem_nil
  · exact fun e he => absurd he List.not_mem_nil
  · exact fun e he => absurd he List.not_mem_nil
  · unfold Knows
    rw [show (ReplicaState.new room).seen = none from rfl, knownLists_none]
    exact hl
  · exact fun _ _ hb => absurd hb List.not_mem_nil

omit [LinearOrder Actor] [DecidableEq Scalar] in
/-- `add_message` saves the appended document. -/
theorem addMessage_append {room : Room Key Doc} {msg : CrdtMessage} {d : Doc}
    (h : appendMessage L.automerge room.doc msg = (.ok (), d)) (nonce : Nonce) :
    (Room.addMessage L room msg nonce).2 = (Room.save L { room with doc := d } nonce).2 ∧
      ∀ bytes, (Room.addMessage L room msg nonce).1 = .ok bytes →
        (Room.save L { room with doc := d } nonce).1 = .ok bytes := by
  unfold Room.addMessage
  simp only [h]
  split
  · next heq =>
    rw [heq]
    exact ⟨rfl, nofun⟩
  · next heq =>
    rw [heq]
    exact ⟨rfl, fun bytes hb => congrArg Except.ok (Except.ok.inj hb)⟩

theorem mem_savedBytes {ε : Type} {n m : Nat} {r : Except ε Bytes} {bytes : Bytes}
    (h : (bytes, m) ∈ savedBytes n r) : r = .ok bytes ∧ m = n := by
  cases r with
  | error e => exact absurd h List.not_mem_nil
  | ok b =>
    cases List.mem_singleton.mp h
    exact ⟨rfl, rfl⟩

/-- What a replica has saved after one more save. -/
theorem saved_append (hP : L.aead.Lawful) (hA : L.automerge.Documented) {p : Replica}
    (room : Room Key Doc) (nonce : Nonce) {seen : Option Nat} {saved : List (Bytes × Nat)} {n : Nat}
    {ε : Type} {r : Except ε Bytes} (hn : n = (own p).length)
    (hkey : room.encryptionKey = K) (hk : Knows L actor own p seen n room.doc)
    (hs : ∀ m, seen = some m → m ≤ (own p.other).length)
    (hr : ∀ bytes, r = .ok bytes → (Room.save L room nonce).1 = .ok bytes)
    (hold : ∀ bytes n, (bytes, n) ∈ saved → n ≤ (own p).length ∧ Holds L K actor own p bytes n) :
    ∀ bytes m, (bytes, m) ∈ saved ++ savedBytes n r →
      m ≤ (own p).length ∧ Holds L K actor own p bytes m := by
  intro bytes m hb
  rcases List.mem_append.mp hb with hb | hb
  · exact hold bytes m hb
  · obtain ⟨hok, rfl⟩ := mem_savedBytes hb
    exact ⟨hn.le, hkey ▸ holds_save hP hA hk hs (hr bytes hok)⟩

/-- **`save`.** -/
theorem ReplicaInv.saveStep (hP : L.aead.Lawful) (hA : L.automerge.Documented) {p : Replica}
    {s : ReplicaState Key Doc} (h : ReplicaInv L K actor own p s) (nonce : Nonce) :
    ReplicaInv L K actor own p (s.save L nonce) where
  roomKey := h.roomKey
  roomActor := (hA.actor_save _).trans h.roomActor
  msgs := h.msgs
  entryActor := h.entryActor
  nodup := h.nodup
  earlyLe := h.earlyLe
  earlyList := h.earlyList
  laterList := h.laterList
  unseen := h.unseen
  seenLe := h.seenLe
  knows := by
    have hk := h.knows
    unfold Knows at hk ⊢
    rwa [show L.automerge.history (s.save L nonce).room.doc = L.automerge.history s.room.doc from
      hA.history_save _]
  saved := saved_append hP hA s.room nonce h.length h.roomKey (h.length ▸ h.knows) h.seenLe
    (fun _ hb => hb) h.saved

/-- A list in two parts, of which the first has so many elements. -/
structure Parted {α : Type} (P Q : α → Prop) (early : Nat) (l : List α) : Prop where
  le : early ≤ l.length
  first : ∀ x ∈ l.take early, P x
  rest : ∀ x ∈ l.drop early, Q x

/-- One more element of the first part, while there is no other. -/
theorem Parted.append_first {α : Type} {P Q : α → Prop} {early : Nat} {l : List α} {x : α}
    (h : Parted P Q early l) (hearly : early = l.length) (hx : P x) :
    Parted P Q (early + 1) (l ++ [x]) := by
  have hlen : (l ++ [x]).length = early + 1 := by
    rw [hearly, List.length_append, List.length_singleton]
  refine ⟨hlen.ge, ?_, ?_⟩
  · rw [← hlen, List.take_length]
    intro y hy
    rcases List.mem_append.mp hy with hy | hy
    · refine h.first y ?_
      rwa [hearly, List.take_length]
    · rwa [List.mem_singleton.mp hy]
  · rw [← hlen, List.drop_length]
    exact fun y hy => absurd hy List.not_mem_nil

/-- One more element of the second part. -/
theorem Parted.append_rest {α : Type} {P Q : α → Prop} {early : Nat} {l : List α} {x : α}
    (h : Parted P Q early l) (hx : Q x) : Parted P Q early (l ++ [x]) := by
  refine ⟨h.le.trans (List.prefix_append l [x]).length_le, ?_, ?_⟩
  · rw [List.take_append_of_le_length h.le]
    exact h.first
  · rw [List.drop_append_of_le_length h.le]
    intro y hy
    rcases List.mem_append.mp hy with hy | hy
    · exact h.rest y hy
    · rwa [List.mem_singleton.mp hy]

/-- What a replica knows after it has appended an entry. -/
theorem Knows.append {p : Replica} {seen : Option Nat} {d : Doc} {e : Entry Actor}
    (hl : Layout L.automerge (L.automerge.history d) (knownLists actor p seen)
      (knownEntries own p seen (own p).length ++ [e])) :
    Knows L actor (Function.update own p (own p ++ [e])) p seen ((own p).length + 1) d := by
  have hlen : (own p ++ [e]).length = (own p).length + 1 := by simp
  unfold knownEntries at hl
  unfold Knows knownEntries
  rw [Function.update_of_ne (Replica.other_ne p), Function.update_self, ← hlen, List.take_length]
  rwa [List.take_length, List.append_assoc] at hl

/-- **`add_message`**: one more entry, in the list the replica sees. -/
theorem ReplicaInv.addStep (hP : L.aead.Lawful) (hA : L.automerge.Documented) {p : Replica}
    {s : ReplicaState Key Doc} (h : ReplicaInv L K actor own p s) (msg : CrdtMessage)
    (nonce : Nonce) :
    ∃ e, ReplicaInv L K actor (Function.update own p (own p ++ [e])) p (s.add L msg nonce) := by
  obtain ⟨d, e, happ, hact, hlist, hid, hmsg, hl⟩ :=
    Layout.append hA h.knows (isGreatest_known actor p s.seen) msg
  obtain ⟨hroom, hbytes⟩ := addMessage_append happ nonce
  rw [h.roomActor] at hact hid
  have hself : Function.update own p (own p ++ [e]) p = own p ++ [e] := Function.update_self ..
  have hlen : (own p ++ [e]).length = (own p).length + 1 := by simp
  have hknows : Knows L actor (Function.update own p (own p ++ [e])) p s.seen
      ((own p).length + 1) d := Knows.append hl
  have hknows' : Knows L actor (Function.update own p (own p ++ [e])) p s.seen
      ((own p).length + 1) (s.add L msg nonce).room.doc := by
    unfold Knows at hknows ⊢
    rwa [show (s.add L msg nonce).room = _ from hroom,
      show L.automerge.history (Room.save L { s.room with doc := d } nonce).2.doc =
        L.automerge.history d from hA.history_save d]
  have hpre := fun q => prefix_update own p q e
  have hseen : ∀ m, s.seen = some m → m ≤ (Function.update own p (own p ++ [e]) p.other).length :=
    fun m hm => (h.seenLe m hm).trans (hpre _).length_le
  have hparted :
    Parted (fun e => e.list = actor p) (fun e => e.list = max (actor p) (actor p.other))
      (if s.seen = none then s.early + 1 else s.early) (own p ++ [e]) := by
    have hparts :
      Parted (fun e => e.list = actor p) (fun e => e.list = max (actor p) (actor p.other))
        s.early (own p) := ⟨h.earlyLe, h.earlyList, h.laterList⟩
    split
    · next hn => exact hparts.append_first (h.unseen hn) (by rw [hlist, if_pos hn])
    · next hn => exact hparts.append_rest (by rw [hlist, if_neg hn])
  rw [← hself] at hparted
  refine ⟨e, ?_⟩
  exact
    { roomKey := by
        rw [show (s.add L msg nonce).room = _ from hroom]
        exact h.roomKey
      roomActor := by
        rw [show (s.add L msg nonce).room = _ from hroom]
        exact (hA.actor_save d).trans hact
      msgs := by
        rw [hself, List.map_append, h.msgs, List.map_singleton, hmsg]
        rfl
      entryActor := by
        rw [hself]
        intro e' he'
        rcases List.mem_append.mp he' with he' | he'
        · exact h.entryActor e' he'
        · rw [List.mem_singleton.mp he', hid]
      nodup := by
        have hnd := hknows.nodup
        unfold knownEntries at hnd
        rw [List.map_append] at hnd
        have hnd' := hnd.of_append_right
        rwa [hself, ← hlen, List.take_length, ← hself] at hnd'
      earlyLe := hparted.le
      earlyList := hparted.first
      laterList := hparted.rest
      unseen := by
        show s.seen = none → (if s.seen = none then s.early + 1 else s.early) = _
        intro hn
        rw [if_pos hn, h.unseen hn, hself, hlen]
      seenLe := hseen
      knows := by
        rw [hself, hlen]
        exact hknows'
      saved := by
        refine saved_append hP hA { s.room with doc := d } nonce ?_ h.roomKey ?_ hseen hbytes ?_
        · rw [hself, hlen, h.length]
        · rw [h.length]
          exact hknows
        · intro bytes n hb
          obtain ⟨hn, hh⟩ := h.saved bytes n hb
          exact ⟨hn.trans (hpre p).length_le, hh.mono hn hpre⟩ }

theorem mem_take_max {α : Type} (l : List α) (m n : Nat) (x : α) :
    x ∈ l.take (max m n) ↔ x ∈ l.take m ∨ x ∈ l.take n := by
  rcases le_total m n with h | h
  · rw [max_eq_right h]
    exact ⟨.inr, fun hx => hx.elim (fun hx => List.take_subset_take_left l h hx) id⟩
  · rw [max_eq_left h]
    exact ⟨.inl, fun hx => hx.elim id fun hx => List.take_subset_take_left l h hx⟩

omit [LinearOrder Actor] in
/-- The entries of both replicas have different ids. -/
theorem knownEntries_nodup {p : Replica} (hd : actor p ≠ actor p.other)
    (ha : ∀ q, ∀ e ∈ own q, e.id.actor = actor q) (hn : ∀ q, ((own q).map Entry.id).Nodup)
    (seen : Option Nat) (n : Nat) : ((knownEntries own p seen n).map Entry.id).Nodup := by
  unfold knownEntries
  rw [List.map_append, List.map_take, List.map_take]
  refine List.Nodup.append ((hn _).sublist (List.take_sublist ..))
    ((hn _).sublist (List.take_sublist ..)) fun i hi hi' => ?_
  obtain ⟨e, he, rfl⟩ := List.mem_map.mp (List.mem_of_mem_take hi)
  obtain ⟨e', he', hid⟩ := List.mem_map.mp (List.mem_of_mem_take hi')
  apply hd
  rw [← ha p e' he', hid, ha p.other e he]

omit [LinearOrder Actor] in
/-- An entry that is not the other's is the replica's own. -/
theorem mem_own_of_known {p : Replica} (ha : ∀ q, ∀ e ∈ own q, e.id.actor = actor q)
    {seen : Option Nat} {n : Nat} {e : Entry Actor} (he : e ∈ knownEntries own p seen n)
    (hne : e.id.actor ≠ actor p.other) : e ∈ (own p).take n :=
  (List.mem_append.mp he).resolve_left fun h => hne (ha _ e (List.mem_of_mem_take h))

omit [LinearOrder Actor] in
/-- An entry that is not the replica's own is the other's. -/
theorem mem_other_of_known {p : Replica} (ha : ∀ q, ∀ e ∈ own q, e.id.actor = actor q)
    {seen : Option Nat} {n : Nat} {e : Entry Actor} (he : e ∈ knownEntries own p seen n)
    (hne : e.id.actor ≠ actor p) : e ∈ (own p.other).take (seen.getD 0) :=
  (List.mem_append.mp he).resolve_right fun h => hne (ha p e (List.mem_of_mem_take h))

/-- **What one replica knows and what the other has saved agree** on what each actor has done. The
    cases are whose operations they are, and of the other's which of the two has more. -/
theorem unforked_known {p : Replica} {seen seen' : Option Nat} {n : Nat} {d d' : Doc}
    (hd : actor p ≠ actor p.other) (ha : ∀ q, ∀ e ∈ own q, e.id.actor = actor q)
    (hk : Knows L actor own p seen (own p).length d) (hk' : Knows L actor own p.other seen' n d') :
    Unforked (L.automerge.history d) (L.automerge.history d') := by
  intro x
  by_cases hx : x = actor p
  · -- its own operations: the other has the first of them
    refine .inr (hk'.ops_by hk (fun _ => .inl hx) fun e he hid => ?_)
    have hown := mem_other_of_known ha he fun h => hd (hx.symm.trans (hid.symm.trans h))
    rw [Replica.other_other] at hown
    refine List.mem_append_right _ ?_
    rw [List.take_length]
    exact List.mem_of_mem_take hown
  · by_cases hmore : seen ≠ none ∧ n ≤ seen.getD 0
    · refine .inr (hk'.ops_by hk (fun hbase => ?_) fun e he hid => ?_)
      · rcases hbase with hother | ⟨-, hself⟩
        · exact .inr ⟨hmore.1, hother⟩
        · rw [Replica.other_other] at hself
          exact absurd hself hx
      · have hother := mem_own_of_known ha he (by rwa [Replica.other_other, hid])
        exact List.mem_append_left _ (List.take_subset_take_left _ hmore.2 hother)
    · have hle : seen.getD 0 ≤ n := by
        cases seen with
        | none => exact Nat.zero_le n
        | some k => exact Nat.le_of_not_le fun hkn => hmore ⟨nofun, hkn⟩
      refine .inl (hk.ops_by hk' (fun hbase => ?_) fun e he hid => ?_)
      · rcases hbase with hself | ⟨-, hother⟩
        · exact absurd hself hx
        · exact .inl hother
      · have hother := mem_other_of_known ha he (by rwa [hid])
        exact List.mem_append_right _ (List.take_subset_take_left _ hle hother)

/-- What the replica knows, together with what the other had saved. -/
theorem Knows.union {p : Replica} {seen seen' : Option Nat} {n : Nat} {d d' m : Doc}
    (hd : actor p ≠ actor p.other) (ha : ∀ q, ∀ e ∈ own q, e.id.actor = actor q)
    (hn : ∀ q, ((own q).map Entry.id).Nodup)
    (hk : Knows L actor own p seen (own p).length d) (hk' : Knows L actor own p.other seen' n d')
    (hm : L.automerge.history m = L.automerge.history d ∪ L.automerge.history d') :
    Knows L actor own p (some (max n (seen.getD 0))) (own p).length m := by
  unfold Knows
  rw [hm]
  refine Layout.union hk hk' (fun a => ?_) (fun e => ?_) (knownEntries_nodup hd ha hn _ _)
  · unfold knownLists
    simp only [Set.mem_ofPred_eq, Replica.other_other, ne_eq, reduceCtorEq, not_false_eq_true,
      true_and]
    tauto
  · unfold knownEntries
    simp only [List.mem_append, Option.getD_some, mem_take_max, List.take_length,
      Replica.other_other]
    have hsub : e ∈ (own p).take (seen'.getD 0) → e ∈ own p := List.mem_of_mem_take
    tauto

/-- **`merge`** of what the other has saved goes through. -/
theorem ReplicaInv.mergeStep (hA : L.automerge.Documented) {p : Replica}
    {s : ReplicaState Key Doc} (hd : actor p ≠ actor p.other)
    (ha : ∀ q, ∀ e ∈ own q, e.id.actor = actor q) (hn : ∀ q, ((own q).map Entry.id).Nodup)
    (h : ReplicaInv L K actor own p s) {bytes : Bytes} {n : Nat} (hle : n ≤ (own p.other).length)
    (hb : Holds L K actor own p.other bytes n) (a : Actor) :
    (s.merge L a bytes n).seen = some (max n (s.seen.getD 0)) ∧
      ReplicaInv L K actor own p (s.merge L a bytes n) := by
  obtain ⟨plain, seen', hplain, -, hload⟩ := hb
  obtain ⟨d', hd', hk'⟩ := hload a
  obtain ⟨m, hm⟩ := hA.merge_ok s.room.doc d' (unforked_known hd ha h.knows hk')
  have hmerge : s.merge L a bytes n =
      { s with room := { s.room with doc := m }, seen := some (max n (s.seen.getD 0)) } := by
    unfold ReplicaState.merge Room.merge
    simp only [h.roomKey, hplain, hd', hm]
  rw [hmerge]
  refine ⟨rfl, ?_⟩
  exact
    { roomKey := h.roomKey
      roomActor := (hA.actor_merge _ _ _ hm).trans h.roomActor
      msgs := h.msgs
      entryActor := h.entryActor
      nodup := h.nodup
      earlyLe := h.earlyLe
      earlyList := h.earlyList
      laterList := h.laterList
      unseen := nofun
      seenLe := by
        intro k hk
        cases hk
        refine max_le hle ?_
        cases hs : s.seen with
        | none => exact Nat.zero_le _
        | some k => exact h.seenLe k hs
      knows := h.knows.union hd ha hn hk' (hA.history_merge _ _ _ hm)
      saved := h.saved }

/-- **One step.** -/
theorem mergeInv_step (hP : L.aead.Lawful) (hA : L.automerge.Documented)
    (hd : ∀ p, actor p ≠ actor p.other) (h : MergeInv L K actor own w) (ev : MergeEvent Actor) :
    ∃ own', MergeInv L K actor own' (w.after L ev) := by
  have hother : ∀ (p : Replica) (s : ReplicaState Key Doc),
      Function.update w p s p.other = w p.other :=
    fun p _ => Function.update_of_ne (Replica.other_ne p) ..
  cases ev with
  | add p msg nonce =>
    obtain ⟨e, he⟩ := (h p).addStep hP hA msg nonce
    refine ⟨Function.update own p (own p ++ [e]), fun q => ?_⟩
    rcases Replica.eq_or_other p q with rfl | rfl
    · rw [MergeWorld.after, Function.update_self]
      exact he
    · rw [MergeWorld.after, hother]
      refine (h p.other).mono (fun q => ?_) (Function.update_of_ne (Replica.other_ne p) ..)
      rcases Replica.eq_or_other p q with rfl | rfl
      · rw [Function.update_self]
        exact List.prefix_append _ _
      · rw [Function.update_of_ne (Replica.other_ne p)]
  | save p nonce =>
    refine ⟨own, fun q => ?_⟩
    rcases Replica.eq_or_other p q with rfl | rfl
    · rw [MergeWorld.after, Function.update_self]
      exact (h q).saveStep hP hA nonce
    · rw [MergeWorld.after, hother]
      exact h p.other
  | merge p k a =>
    refine ⟨own, ?_⟩
    cases hk : (w p.other).saved[k]? with
    | none =>
      simp only [MergeWorld.after, hk]
      exact h
    | some r =>
      obtain ⟨bytes, n⟩ := r
      simp only [MergeWorld.after, hk]
      obtain ⟨hle, hb⟩ := (h p.other).saved bytes n (List.mem_of_getElem? hk)
      intro q
      rcases Replica.eq_or_other p q with rfl | rfl
      · rw [Function.update_self]
        exact ((h q).mergeStep hA (hd q) (fun q => (h q).entryActor) (fun q => (h q).nodup) hle hb
          a).2
      · rw [hother]
        exact h p.other

/-! ## 4. What is lost -/

theorem mergeInv_reach (hP : L.aead.Lawful) (hA : L.automerge.Documented) {id : String}
    {password : Option String} (hd : ∀ p, actor p ≠ actor p.other)
    (h : Reach (MergeStart L id password actor) (MergeStep L) w) :
    ∃ own, MergeInv L (deriveRoomKey L id password) actor own w := by
  refine h.inv (I := fun w => ∃ own, MergeInv L (deriveRoomKey L id password) actor own w)
    (fun w hw => ⟨_, mergeInv_start hA hw⟩) fun w ev w' hw hs => ?_
  obtain ⟨own, hinv⟩ := hw
  rw [show w' = w.after L ev from hs]
  exact mergeInv_step hP hA hd hinv ev

/-- What a replica knows when it has merged all the other has said. -/
theorem MergeInv.synced (h : MergeInv L K actor own w) (hs : Synced w) (p : Replica) :
    Layout L.automerge (L.automerge.history (w p).room.doc)
      (knownLists actor p (some (own p.other).length)) (own p.other ++ own p) := by
  have hk := (h p).knows
  unfold Knows knownEntries at hk
  rwa [hs p, (h p.other).length, Option.getD_some, List.take_length, List.take_length] at hk

/-- **The messages in the shown list**: of a replica with the smaller actor those that came
    later. -/
theorem MergeInv.inShownList (h : MergeInv L K actor own w) (hd : ∀ p, actor p ≠ actor p.other)
    (p : Replica) (hp : actor p < actor p.other → (w p).early = 0) :
    ∀ e ∈ own p, e.list = max (actor p) (actor p.other) := by
  intro e he
  rw [← List.take_append_drop (w p).early (own p)] at he
  rcases List.mem_append.mp he with he | he
  · rcases lt_or_gt_of_ne (hd p) with hlt | hgt
    · rw [hp hlt] at he
      exact absurd he List.not_mem_nil
    · rw [(h p).earlyList e he, max_eq_left hgt.le]
  · exact (h p).laterList e he

/-- What a synced room lists: the messages of both in the shown list. -/
theorem MergeInv.getMessages (hA : L.automerge.Documented) (h : MergeInv L K actor own w)
    (hs : Synced w) (p : Replica) (now : Int64) :
    ∃ order : List (Entry Actor),
      order.Perm ((own p.other ++ own p).filter fun e =>
        decide (e.list = max (actor p) (actor p.other))) ∧
      Room.getMessages L (w p).room now = .ok (order.map fun e => e.msg.shown now) := by
  have hg := isGreatest_known actor p (some (own p.other).length)
  rw [if_neg nofun] at hg
  exact (h.synced hs p).getMessages_eq hA hg now

theorem MergeInv.added (h : MergeInv L K actor own w) (p : Replica) (now : Int64) :
    (((w .left).added ++ (w .right).added).map (CrdtMessage.shown now)).Perm
      ((own p.other ++ own p).map fun e => e.msg.shown now) := by
  rw [← (h .left).msgs, ← (h .right).msgs, ← List.map_append, List.map_map]
  cases p with
  | left => exact List.perm_append_comm.map _
  | right => exact .refl _

/-- **An early message of the smaller actor is in no list that is shown.** -/
theorem MergeInv.early_of_complete (hA : L.automerge.Documented)
    (hd : ∀ p, actor p ≠ actor p.other) (h : MergeInv L K actor own w) (hs : Synced w)
    {now : Int64} (hc : Complete L now w) (p : Replica) (hlt : actor p < actor p.other) :
    (w p).early = 0 := by
  obtain ⟨order, hp, hget⟩ := h.getMessages hA hs p now
  obtain ⟨l, hl, hsub⟩ := hc p
  cases hget.symm.trans hl
  have hle := hsub.length_le
  rw [(h.added p now).length_eq, List.length_map, List.length_map, hp.length_eq] at hle
  have hall := List.length_filter_eq_length_iff.mp (le_antisymm (List.length_filter_le ..) hle)
  refine Nat.eq_zero_of_not_pos fun hpos => ?_
  have hlen : 0 < ((own p).take (w p).early).length := by
    rw [List.length_take]
    exact lt_min hpos (hpos.trans_le (h p).earlyLe)
  obtain ⟨e, hmem⟩ := List.exists_mem_of_length_pos hlen
  have hlist := (h p).earlyList _ hmem
  have hshown := of_decide_eq_true (hall _ (List.mem_append_right _ (List.mem_of_mem_take hmem)))
  rw [hlist, max_eq_right hlt.le] at hshown
  exact hd p hshown

theorem MergeInv.complete_of_early (hA : L.automerge.Documented)
    (hd : ∀ p, actor p ≠ actor p.other) (h : MergeInv L K actor own w) (hs : Synced w) (now : Int64)
    (hc : ∀ p, actor p < actor p.other → (w p).early = 0) : Complete L now w := by
  intro p
  obtain ⟨order, hp, hget⟩ := h.getMessages hA hs p now
  refine ⟨_, hget, ?_⟩
  have hall : ∀ e ∈ own p.other ++ own p, e.list = max (actor p) (actor p.other) := by
    intro e he
    rcases List.mem_append.mp he with he | he
    · have h' := h.inShownList hd p.other (hc p.other) e he
      rwa [Replica.other_other, max_comm] at h'
    · exact h.inShownList hd p (hc p) e he
  rw [List.filter_eq_self.mpr fun e he => decide_eq_true (hall e he)] at hp
  exact ((h.added p now).trans (hp.symm.map _)).subperm

omit [LinearOrder Actor] in
theorem actor_ne (hd : actor .left ≠ actor .right) (p : Replica) : actor p ≠ actor p.other := by
  cases p with
  | left => exact hd
  | right => exact hd.symm

/-- **No message is lost, exactly when**: two rooms that have merged each other's last state list
    every message of both if and only if the replica with the smaller actor id added no message
    before it had merged anything. -/
theorem room_keeps_messages_iff (hP : L.aead.Lawful) (hA : L.automerge.Documented) {id : String}
    {password : Option String} (hd : actor .left ≠ actor .right)
    (h : Reach (MergeStart L id password actor) (MergeStep L) w) (hs : Synced w) (now : Int64) :
    Complete L now w ↔ ∀ p, actor p < actor p.other → (w p).early = 0 := by
  obtain ⟨own, hinv⟩ := mergeInv_reach hP hA (actor_ne hd) h
  exact ⟨hinv.early_of_complete hA (actor_ne hd) hs,
    hinv.complete_of_early hA (actor_ne hd) hs now⟩

/-! ## 5. One message and one exchange -/

/-- The room `Room::new` returns. -/
def newRoom (L : Libraries Key Actor Scalar Doc) (a : Actor) (id : String)
    (password : Option String) : Room Key Doc where
  id := id
  doc :=
    match L.automerge.putObject (L.automerge.new a) .root "messages" .list with
    | .ok (_, doc) => doc
    | .error _ => L.automerge.new a
  encryptionKey := deriveRoomKey L id password

theorem newRoom_ok (hA : L.automerge.Documented) (a : Actor) (id : String)
    (password : Option String) : Room.new L a id password = .ok (newRoom L a id password) := by
  obtain ⟨room, hnew, -⟩ := Layout.new hA a id password
  unfold Room.new newRoom at *
  split at hnew
  · cases hnew
  · next heq => rw [heq]

/-- **A new room takes its first message**: what is saved is the nonce and the encrypted
    document. -/
theorem addMessage_new (hA : L.automerge.Documented)
    (hacc : ∀ m, L.aead.accepts m = true) (a : Actor) (id : String) (password : Option String)
    (msg : CrdtMessage) (nonce : Nonce) : ∃ doc,
      appendMessage L.automerge (newRoom L a id password).doc msg = (.ok (), doc) ∧
      Room.addMessage L (newRoom L a id password) msg nonce =
        (.ok (nonce.toList ++
            L.aead.aeadSeal (deriveRoomKey L id password) nonce (L.automerge.save doc).1),
          { newRoom L a id password with doc := (L.automerge.save doc).2 }) := by
  obtain ⟨room, hnew, -, -, -, hl⟩ := Layout.new hA a id password
  cases (newRoom_ok hA a id password).symm.trans hnew
  obtain ⟨doc, -, happ, -⟩ := Layout.append hA hl isGreatest_singleton msg
  refine ⟨doc, happ, ?_⟩
  unfold Room.addMessage Room.save encryptPayload
  simp only [happ, Primitives.encrypt_of_accepts (hacc _)]
  rfl

/-- A new room shows nothing. -/
theorem getMessages_new (hA : L.automerge.Documented) (a : Actor) (id : String)
    (password : Option String) (now : Int64) :
    Room.getMessages L (newRoom L a id password) now = .ok [] := by
  obtain ⟨room, hnew, -, -, -, hl⟩ := Layout.new hA a id password
  cases (newRoom_ok hA a id password).symm.trans hnew
  obtain ⟨order, hp, hget⟩ := hl.getMessages_eq hA isGreatest_singleton now
  rw [hget, List.perm_nil.mp hp]
  rfl

/-- Two new rooms. -/
def newRooms (L : Libraries Key Actor Scalar Doc) (id : String) (password : Option String)
    (actor : Replica → Actor) : MergeWorld Key Doc :=
  fun p => .new (newRoom L (actor p) id password)

/-- `p` adds a message, the other saves, and each merges what the other has saved. -/
def exchange (L : Libraries Key Actor Scalar Doc) (id : String) (password : Option String)
    (actor : Replica → Actor) (p : Replica) (msg : CrdtMessage) (nonce : Nonce) (a : Actor) :
    MergeWorld Key Doc :=
  ((((newRooms L id password actor).after L (MergeEvent.add p msg nonce : MergeEvent Actor)).after L
    (MergeEvent.save p.other nonce : MergeEvent Actor)).after L (.merge p 0 a)).after L
      (.merge p.other 0 a)

theorem newRooms_start (hA : L.automerge.Documented) (id : String) (password : Option String) :
    MergeStart L id password actor (newRooms L id password actor) :=
  ⟨fun p => ⟨_, newRoom_ok hA (actor p) id password, rfl⟩⟩

theorem exchange_reach (hA : L.automerge.Documented) (id : String) (password : Option String)
    (p : Replica) (msg : CrdtMessage) (nonce : Nonce) (a : Actor) :
    Reach (MergeStart L id password actor) (MergeStep L)
      (exchange L id password actor p msg nonce a) := by
  have h₀ : Reach (MergeStart L id password actor) (MergeStep L) (newRooms L id password actor) :=
    .start _ (newRooms_start hA id password)
  have h₁ := h₀.step _ (MergeEvent.add p msg nonce) _ rfl
  have h₂ := h₁.step _ (MergeEvent.save p.other nonce) _ rfl
  have h₃ := h₂.step _ (MergeEvent.merge p 0 a) _ rfl
  exact h₃.step _ (MergeEvent.merge p.other 0 a) _ rfl

theorem ReplicaInv.add_saved (hA : L.automerge.Documented)
    (hacc : ∀ m, L.aead.accepts m = true) {p : Replica} {s : ReplicaState Key Doc}
    (h : ReplicaInv L K actor own p s) (msg : CrdtMessage) (nonce : Nonce) :
    ∃ bytes, (s.add L msg nonce).saved = s.saved ++ [(bytes, s.added.length + 1)] := by
  obtain ⟨d, e, happ, -⟩ := Layout.append hA h.knows (isGreatest_known actor p s.seen) msg
  obtain ⟨payload, hpay⟩ :=
    encryptPayload_of_accepts (hacc (L.automerge.save d).1) s.room.encryptionKey nonce
  have hok : (Room.addMessage L s.room msg nonce).1 = .ok payload := by
    unfold Room.addMessage Room.save
    simp only [happ, hpay]
  refine ⟨payload, ?_⟩
  show s.saved ++ savedBytes _ (Room.addMessage L s.room msg nonce).1 = _
  rw [hok]
  rfl

omit [LinearOrder Actor] [DecidableEq Scalar] in
theorem save_saved (hacc : ∀ m, L.aead.accepts m = true) (s : ReplicaState Key Doc)
    (nonce : Nonce) :
    ∃ bytes, (s.save L nonce).saved = s.saved ++ [(bytes, s.added.length)] := by
  obtain ⟨payload, hpay⟩ :=
    encryptPayload_of_accepts (hacc (L.automerge.save s.room.doc).1) s.room.encryptionKey nonce
  refine ⟨payload, ?_⟩
  show s.saved ++ savedBytes _ (encryptPayload L _ nonce _) = _
  rw [hpay]
  rfl

omit [LinearOrder Actor] [DecidableEq Scalar] in
/-- A merge touches the room and what it has seen, nothing else. -/
theorem merge_frame (s : ReplicaState Key Doc) (a : Actor) (bytes : Bytes) (n : Nat) :
    (s.merge L a bytes n).saved = s.saved ∧ (s.merge L a bytes n).added = s.added ∧
      (s.merge L a bytes n).early = s.early := by
  unfold ReplicaState.merge
  split <;> exact ⟨rfl, rfl, rfl⟩

omit [DecidableEq Scalar] [LinearOrder Actor] in
theorem after_merge {p : Replica} {k n : Nat} {bytes : Bytes}
    (h : (w p.other).saved[k]? = some (bytes, n)) (a : Actor) :
    w.after L (.merge p k a) = Function.update w p ((w p).merge L a bytes n) := by
  unfold MergeWorld.after
  simp only [h]

/-- What a replica has seen after a merge. -/
theorem MergeInv.merge_seen (hA : L.automerge.Documented) (hd : ∀ p, actor p ≠ actor p.other)
    (h : MergeInv L K actor own w) {p : Replica} {k n : Nat} {bytes : Bytes}
    (hk : (w p.other).saved[k]? = some (bytes, n)) (a : Actor) :
    ((w p).merge L a bytes n).seen = some (max n ((w p).seen.getD 0)) := by
  obtain ⟨hle, hb⟩ := (h p.other).saved bytes n (List.mem_of_getElem? hk)
  exact ((h p).mergeStep hA (hd p) (fun q => (h q).entryActor) (fun q => (h q).nodup) hle hb a).1

/-- **After the exchange** both have merged everything, and the message was an early one. -/
theorem exchange_synced (hP : L.aead.Lawful) (hA : L.automerge.Documented)
    (hacc : ∀ m, L.aead.accepts m = true) (hd : ∀ p, actor p ≠ actor p.other) (id : String)
    (password : Option String) (p : Replica) (msg : CrdtMessage) (nonce : Nonce) (a : Actor) :
    Synced (exchange L id password actor p msg nonce a) ∧
      (exchange L id password actor p msg nonce a p).early = 1 := by
  have hne := Replica.other_ne p
  let w₀ := newRooms L id password actor
  let w₁ := w₀.after L (MergeEvent.add p msg nonce : MergeEvent Actor)
  let w₂ := w₁.after L (MergeEvent.save p.other nonce : MergeEvent Actor)
  have hi₀ : MergeInv L (deriveRoomKey L id password) actor (fun _ => []) w₀ :=
    mergeInv_start hA (newRooms_start hA id password)
  obtain ⟨own₁, hi₁⟩ : ∃ own, MergeInv L _ actor own w₁ := mergeInv_step hP hA hd hi₀ _
  obtain ⟨own₂, hi₂⟩ : ∃ own, MergeInv L _ actor own w₂ := mergeInv_step hP hA hd hi₁ _
  have hp₂ : w₂ p = (w₀ p).add L msg nonce := by
    show Function.update w₁ p.other _ p = _
    rw [Function.update_of_ne hne.symm]
    exact Function.update_self ..
  have hq₂ : w₂ p.other = (w₀ p.other).save L nonce := by
    show Function.update w₁ p.other ((w₁ p.other).save L nonce) p.other = _
    rw [Function.update_self]
    exact congrArg (ReplicaState.save L · nonce) (Function.update_of_ne hne ..)
  obtain ⟨b₁, hb₁⟩ := (hi₀ p).add_saved hA hacc msg nonce
  obtain ⟨b₂, hb₂⟩ := save_saved hacc (w₀ p.other) nonce
  have hk₂ : (w₂ p.other).saved[0]? = some (b₂, 0) := by
    rw [hq₂, hb₂]
    rfl
  let w₃ := w₂.after L (.merge p 0 a)
  obtain ⟨own₃, hi₃⟩ : ∃ own, MergeInv L _ actor own w₃ := mergeInv_step hP hA hd hi₂ _
  have hp₃ : w₃ p = (w₂ p).merge L a b₂ 0 := by
    show (w₂.after L (.merge p 0 a)) p = _
    rw [after_merge hk₂, Function.update_self]
  have hq₃ : w₃ p.other = w₂ p.other := by
    show (w₂.after L (.merge p 0 a)) p.other = _
    rw [after_merge hk₂, Function.update_of_ne hne]
  obtain ⟨hsaved, hadded, hearly⟩ := merge_frame (L := L) (w₂ p) a b₂ 0
  have hk₃ : (w₃ p.other.other).saved[0]? = some (b₁, 1) := by
    rw [Replica.other_other, hp₃, hsaved, hp₂, hb₁]
    rfl
  have hp₄ : exchange L id password actor p msg nonce a p = w₃ p := by
    show (w₃.after L (.merge p.other 0 a)) p = _
    rw [after_merge hk₃, Function.update_of_ne hne.symm]
  have hq₄ : exchange L id password actor p msg nonce a p.other =
      (w₃ p.other).merge L a b₁ 1 := by
    show (w₃.after L (.merge p.other 0 a)) p.other = _
    rw [after_merge hk₃, Function.update_self]
  have hseen_p : (exchange L id password actor p msg nonce a p).seen = some 0 := by
    rw [hp₄, hp₃, hi₂.merge_seen hA hd hk₂, hp₂]
    rfl
  have hseen_q : (exchange L id password actor p msg nonce a p.other).seen = some 1 := by
    rw [hq₄, hi₃.merge_seen hA hd hk₃, hq₃, hq₂]
    rfl
  have hadded_p : (exchange L id password actor p msg nonce a p).added = [msg] := by
    rw [hp₄, hp₃, hadded, hp₂]
    rfl
  have hadded_q : (exchange L id password actor p msg nonce a p.other).added = [] := by
    rw [hq₄, (merge_frame (w₃ p.other) a b₁ 1).2.1, hq₃, hq₂]
    rfl
  refine ⟨fun q => ?_, ?_⟩
  · rcases Replica.eq_or_other p q with rfl | rfl
    · rw [hseen_p, hadded_q]
      rfl
    · rw [hseen_q, Replica.other_other, hadded_p]
      rfl
  · rw [hp₄, hp₃, hearly, hp₂]
    rfl

end

/-- A cipher that writes its key in front and takes every plaintext. -/
def labelled : Primitives Bytes where
  publicKey k := k
  diffieHellman _ _ := []
  hkdf k _ _ := k
  accepts _ := true
  aeadSeal k _ m := k ++ m
  aeadOpen k _ c := if c.take k.length = k then some (c.drop k.length) else none

theorem labelled_lawful : labelled.Lawful where
  dh_comm _ _ := rfl
  open_seal k n m := by simp [labelled]

/-- It does not open under another key of the same length. -/
theorem labelled_open_other {k k' : Bytes} (hlen : k.length = k'.length) (hne : k ≠ k') (n : Nonce)
    (m : Bytes) : labelled.aeadOpen k' n (labelled.aeadSeal k n m) = none := by
  simp only [labelled]
  rw [← hlen, List.take_left' rfl, if_neg hne]

/-- Documents that are their operations, the first room's in short, under a key that is its
    password. -/
def roomLibraries : Libraries Bytes Nat Plain OpDoc where
  automerge := opDocs ((Codec.ofEncodable _).short [creation 1])
  aead := labelled
  pbkdf2 pwd salt _ := salt ++ pwd

theorem roomLibraries_documented : roomLibraries.automerge.Documented := opDocs_documented _

/-- The actor ids 1 and 2. -/
def twoActors : Replica → Nat
  | .left => 1
  | .right => 2

/-- A message without a lifetime. -/
def greeting : CrdtMessage where
  peerId := "p"
  sender := "anna"
  text := "hi"
  timestamp := 0
  ttl := none

/-- The replica with the greater actor id says something. -/
theorem room_keeps_messages_greater :
    Complete roomLibraries 0
      (exchange roomLibraries "r" none twoActors .right greeting (Vector.replicate 12 0) 3) ↔
    ∀ p, twoActors p < twoActors p.other →
      (exchange roomLibraries "r" none twoActors .right greeting (Vector.replicate 12 0) 3 p).early
        = 0 :=
  have hd : ∀ p, twoActors p ≠ twoActors p.other := actor_ne (by decide)
  have hr : Reach (MergeStart roomLibraries "r" none twoActors) (MergeStep roomLibraries) _ :=
    exchange_reach roomLibraries_documented "r" none .right greeting (Vector.replicate 12 0) 3
  have hs :=
    exchange_synced (L := roomLibraries) labelled_lawful roomLibraries_documented (fun _ => rfl) hd
    "r" none .right greeting (Vector.replicate 12 0) 3
  room_keeps_messages_iff labelled_lawful roomLibraries_documented (hd .left) hr hs.1 0

/-- The replica with the smaller actor id says something before it has merged: both have merged
    everything, and the message is gone. -/
theorem room_loses_message :
    Reach (MergeStart roomLibraries "r" none twoActors) (MergeStep roomLibraries)
      (exchange roomLibraries "r" none twoActors .left greeting (Vector.replicate 12 0) 3) ∧
    Synced (exchange roomLibraries "r" none twoActors .left greeting (Vector.replicate 12 0) 3) ∧
    ¬ Complete roomLibraries 0
      (exchange roomLibraries "r" none twoActors .left greeting (Vector.replicate 12 0) 3) := by
  have hd : ∀ p, twoActors p ≠ twoActors p.other := actor_ne (by decide)
  have hlt : twoActors .left < twoActors .right := by decide
  have hr : Reach (MergeStart roomLibraries "r" none twoActors) (MergeStep roomLibraries) _ :=
    exchange_reach roomLibraries_documented "r" none .left greeting (Vector.replicate 12 0) 3
  obtain ⟨hs, hearly⟩ :=
    exchange_synced (L := roomLibraries) labelled_lawful roomLibraries_documented
    (fun _ => rfl) hd "r" none .left greeting (Vector.replicate 12 0) 3
  obtain ⟨own, hinv⟩ := mergeInv_reach labelled_lawful roomLibraries_documented hd hr
  refine ⟨hr, hs, fun hc => ?_⟩
  rw [hinv.early_of_complete roomLibraries_documented hd hs hc .left hlt] at hearly
  cases hearly

end AlterChat.Crdt
