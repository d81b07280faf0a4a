import AlterChat.Core.RoomSubset
import AlterChat.Core.RoomMerge
import AlterChat.Lib.Versions

/-!
# Any number of copies of a room

Copies of one room, each `Room::new` or a saved byte string that was loaded; each adds messages,
saves, and merges what any copy has saved, in any order and any number of times. A deed is a
`Room::new` or an `add_message`, numbered for its actor; `known` are the deeds a copy has taken in,
its own and those that came with what it has merged.

* `Swarm`, `SwarmEvent` -- the runs;
* `Has` -- the history of a document is that of its deeds (`Has.unique`);
* `SwarmInv`, `swarmInv_step` -- what every event keeps;
* `rooms_converge` -- copies that have taken in the same deeds show the same messages in the same
  order; whatever is saved can be merged; and where all copies come from one `Room::new`, each shows
  every message it has taken in, once.
-/

namespace AlterChat.Crdt

open Lib Automerge

/-! ## 1. Runs -/

/-- A copy of the room, with the deeds it has taken in: author and number. -/
structure Copy (Key Actor Doc : Type) where
  room : Room Key Doc
  known : Finset (Actor × Nat)

structure Swarm (ι Key Actor Doc : Type) where
  copy : ι → Option (Copy Key Actor Doc)
  /-- What has been saved, with the deeds in it. -/
  published : List (Bytes × Finset (Actor × Nat))
  /-- What each actor has done; `none` is `Room::new`. -/
  deeds : Actor → List (Option CrdtMessage)

inductive SwarmEvent (ι Actor : Type) where
  | create (p : ι) (a : Actor)
  /-- `p` loads the `k`th byte string saved. -/
  | load (p : ι) (k : Nat) (a : Actor)
  | add (p : ι) (msg : CrdtMessage) (nonce : Nonce)
  | save (p : ι) (nonce : Nonce)
  /-- `p` merges the `k`th byte string saved. -/
  | merge (p : ι) (k : Nat) (a : Actor)

section

variable {ι Key Actor Scalar Doc : Type} [DecidableEq ι] [DecidableEq Actor]

/-- A result, with the deeds it holds. -/
def publish {ε : Type} (known : Finset (Actor × Nat)) :
    Except ε Bytes → List (Bytes × Finset (Actor × Nat))
  | .ok bytes => [(bytes, known)]
  | .error _ => []

namespace Swarm

def set (w : Swarm ι Key Actor Doc) (p : ι) (c : Copy Key Actor Doc) : Swarm ι Key Actor Doc :=
  { w with copy := Function.update w.copy p (some c) }

def create (L : Libraries Key Actor Scalar Doc) (id : String) (password : Option String)
    (w : Swarm ι Key Actor Doc) (p : ι) (a : Actor) : Swarm ι Key Actor Doc :=
  match Room.new L a id password with
  | .error _ => w
  | .ok room =>
    { w.set p ⟨room, {(a, 0)}⟩ with deeds := Function.update w.deeds a (w.deeds a ++ [none]) }

def load (L : Libraries Key Actor Scalar Doc) (id : String) (password : Option String)
    (w : Swarm ι Key Actor Doc) (p : ι) (a : Actor) (bytes : Bytes)
    (known : Finset (Actor × Nat)) : Swarm ι Key Actor Doc :=
  match Room.load L a id bytes password with
  | .error _ => w
  | .ok room => w.set p ⟨room, known⟩

def add (L : Libraries Key Actor Scalar Doc) (w : Swarm ι Key Actor Doc) (p : ι)
    (c : Copy Key Actor Doc) (msg : CrdtMessage) (nonce : Nonce) : Swarm ι Key Actor Doc :=
  let a := L.automerge.actor c.room.doc
  let r := Room.addMessage L c.room msg nonce
  let known := insert (a, (w.deeds a).length) c.known
  { w.set p ⟨r.2, known⟩ with
    published := w.published ++ publish known r.1
    deeds := Function.update w.deeds a (w.deeds a ++ [some msg]) }

def save (L : Libraries Key Actor Scalar Doc) (w : Swarm ι Key Actor Doc) (p : ι)
    (c : Copy Key Actor Doc) (nonce : Nonce) : Swarm ι Key Actor Doc :=
  let r := Room.save L c.room nonce
  { w.set p ⟨r.2, c.known⟩ with published := w.published ++ publish c.known r.1 }

def merge (L : Libraries Key Actor Scalar Doc) (w : Swarm ι Key Actor Doc) (p : ι)
    (c : Copy Key Actor Doc) (a : Actor) (bytes : Bytes) (known : Finset (Actor × Nat)) :
    Swarm ι Key Actor Doc :=
  match Room.merge L c.room a bytes with
  | (.error _, room) => w.set p ⟨room, c.known⟩
  | (.ok (), room) => w.set p ⟨room, c.known ∪ known⟩

/-- The swarm after an event. One that is about no copy or no saved byte string does nothing. -/
def after (L : Libraries Key Actor Scalar Doc) (id : String) (password : Option String)
    (w : Swarm ι Key Actor Doc) : SwarmEvent ι Actor → Swarm ι Key Actor Doc
  | .create p a => w.create L id password p a
  | .load p k a =>
    match w.published[k]? with
    | none => w
    | some (bytes, known) => w.load L id password p a bytes known
  | .add p msg nonce =>
    match w.copy p with
    | none => w
    | some c => w.add L p c msg nonce
  | .save p nonce =>
    match w.copy p with
    | none => w
    | some c => w.save L p c nonce
  | .merge p k a =>
    match w.copy p, w.published[k]? with
    | some c, some (bytes, known) => w.merge L p c a bytes known
    | _, _ => w

/-- No copy yet. -/
def empty : Swarm ι Key Actor Doc where
  copy _ := none
  published := []
  deeds _ := []

end Swarm

/-- Only one actor has created the room. -/
def CreatedBy (a : Actor) (w : Swarm ι Key Actor Doc) : Prop :=
  ∀ b, none ∈ w.deeds b → b = a

/-- **Only `Room::new` creates**: every other event leaves who has created a room. -/
theorem CreatedBy.after (L : Libraries Key Actor Scalar Doc) (id : String)
    (password : Option String) {w : Swarm ι Key Actor Doc} {a : Actor} (h : CreatedBy a w)
    (ev : SwarmEvent ι Actor) (hev : match ev with | .create _ b => b = a | _ => True) :
    CreatedBy a (w.after L id password ev) := by
  intro b hb
  cases ev with
  | create p c =>
    by_cases hbc : b = c
    · exact hbc.trans hev
    · simp only [Swarm.after, Swarm.create] at hb
      split at hb
      · exact h b hb
      · simp only [Function.update_of_ne hbc] at hb
        exact h b hb
  | load p k c =>
    simp only [Swarm.after, Swarm.load] at hb
    split at hb
    · exact h b hb
    · split at hb
      · exact h b hb
      · exact h b hb
  | add p msg nonce =>
    simp only [Swarm.after] at hb
    split at hb
    · exact h b hb
    · next c _ =>
      by_cases hbc : b = L.automerge.actor c.room.doc
      · subst hbc
        simp only [Swarm.add, Function.update_self] at hb
        rcases List.mem_append.mp hb with hb | hb
        · exact h _ hb
        · cases List.mem_singleton.mp hb
      · simp only [Swarm.add, Function.update_of_ne hbc] at hb
        exact h b hb
  | save p nonce =>
    simp only [Swarm.after] at hb
    split at hb
    · exact h b hb
    · exact h b hb
  | merge p k c =>
    simp only [Swarm.after, Swarm.merge] at hb
    split at hb
    · split at hb
      · exact h b hb
      · exact h b hb
    · exact h b hb

/-- A new copy gets an actor of its own. -/
def FreshActor (L : Libraries Key Actor Scalar Doc) (w : Swarm ι Key Actor Doc) :
    SwarmEvent ι Actor → Prop
  | .create _ a | .load _ _ a =>
    w.deeds a = [] ∧ ∀ q c, w.copy q = some c → L.automerge.actor c.room.doc ≠ a
  | _ => True

/-- The swarms of one room. -/
def SwarmRun (L : Libraries Key Actor Scalar Doc) (id : String) (password : Option String) :
    Swarm ι Key Actor Doc → Prop :=
  Reach (· = Swarm.empty) (Guarded (FreshActor L) fun w ev w' => w' = w.after L id password ev)

theorem SwarmRun.next {L : Libraries Key Actor Scalar Doc} {id : String} {password : Option String}
    {w : Swarm ι Key Actor Doc} (h : SwarmRun L id password w) (ev : SwarmEvent ι Actor)
    (hfresh : FreshActor L w ev) : SwarmRun L id password (w.after L id password ev) :=
  .step w ev _ h ⟨hfresh, rfl⟩

/-- The message of a deed. -/
def Swarm.message (w : Swarm ι Key Actor Doc) (d : Actor × Nat) : Option CrdtMessage :=
  ((w.deeds d.1)[d.2]?).join

end

/-! ## 2. What a document has -/

section

variable {Key Actor Scalar Doc : Type} [LinearOrder Actor] [DecidableEq Scalar]
  {A : Automerge Actor Scalar Doc} {own own' : Actor → List (Option (Entry Actor))}
  {K K' : Finset (Actor × Nat)} {H H' : Finset (Op Actor Scalar)}

/-- What the deeds are: the creation of the actor's list, or an entry. -/
def deed (own : Actor → List (Option (Entry Actor))) (d : Actor × Nat) :
    Option (Option (Entry Actor)) :=
  (own d.1)[d.2]?

/-- The history is that of the deeds `K`. -/
def Has (A : Automerge Actor Scalar Doc) (own : Actor → List (Option (Entry Actor)))
    (K : Finset (Actor × Nat)) (H : Finset (Op Actor Scalar)) : Prop :=
  ∃ bases entries, Layout A H bases entries ∧
    (∀ a, a ∈ bases ↔ ∃ d ∈ K, d.1 = a ∧ deed own d = some none) ∧
    ∀ e, e ∈ entries ↔ ∃ d ∈ K, deed own d = some (some e)

/-- **The deeds say what the history is.** -/
theorem Has.unique (h : Has A own K H) (h' : Has A own K H') : H = H' := by
  obtain ⟨bases, entries, hl, hb, he⟩ := h
  obtain ⟨bases', entries', hl', hb', he'⟩ := h'
  ext op
  rw [hl.mem, hl'.mem]
  simp only [hb, hb', he, he']

/-- The deeds of actors: each entry is of its actor, and no two have one id. -/
structure Deeds (own : Actor → List (Option (Entry Actor))) : Prop where
  actor : ∀ d e, deed own d = some (some e) → e.id.actor = d.1
  inj : ∀ d d' e e', deed own d = some (some e) → deed own d' = some (some e') → e.id = e'.id →
    d = d'

/-- Deeds that have been done, with a deed all earlier ones of its actor, and a `Room::new` among
    them. -/
structure Known (own : Actor → List (Option (Entry Actor))) (K : Finset (Actor × Nat)) : Prop where
  closed : Versions.Closed K
  done : ∀ d ∈ K, d.2 < (own d.1).length
  base : ∃ d ∈ K, deed own d = some none

omit [LinearOrder Actor] in
theorem deed_of_le (hpre : ∀ a, own a <+: own' a) {d : Actor × Nat} (hd : d.2 < (own d.1).length) :
    deed own' d = deed own d := by
  obtain ⟨t, ht⟩ := hpre d.1
  unfold deed
  rw [← ht, List.getElem?_append_left hd]

omit [LinearOrder Actor] in
theorem Known.mono (h : Known own K) (hpre : ∀ a, own a <+: own' a) : Known own' K where
  closed := h.closed
  done d hd := Nat.lt_of_lt_of_le (h.done d hd) (hpre d.1).length_le
  base := by
    obtain ⟨d, hd, hbase⟩ := h.base
    exact ⟨d, hd, (deed_of_le hpre (h.done d hd)).trans hbase⟩

theorem Has.mono (h : Has A own K H) (hK : Known own K) (hpre : ∀ a, own a <+: own' a) :
    Has A own' K H := by
  obtain ⟨bases, entries, hl, hb, he⟩ := h
  refine ⟨bases, entries, hl, fun a => (hb a).trans ?_, fun e => (he e).trans ?_⟩
  · exact exists_congr fun d => and_congr_right fun hd => by
      rw [deed_of_le hpre (hK.done d hd)]
  · exact exists_congr fun d => and_congr_right fun hd => by
      rw [deed_of_le hpre (hK.done d hd)]

/-- The list that is shown: one of the deeds', of the greatest actor. -/
theorem Has.greatest (hK : Known own K) {bases : Set Actor}
    (hb : ∀ a, a ∈ bases ↔ ∃ d ∈ K, d.1 = a ∧ deed own d = some none) :
    ∃ a, IsGreatest bases a := by
  classical
  obtain ⟨d, hd, hbase⟩ := hK.base
  have hfin : (bases : Set Actor).Finite := by
    refine (K.image Prod.fst).finite_toSet.subset fun a ha => ?_
    obtain ⟨d, hd, rfl, -⟩ := (hb a).mp ha
    exact Finset.mem_coe.mpr (Finset.mem_image_of_mem _ hd)
  obtain ⟨a, ha, hmax⟩ := hfin.exists_maximal ⟨d.1, (hb d.1).mpr ⟨d, hd, rfl, hbase⟩⟩
  exact ⟨a, ha, fun b hb => le_of_not_gt fun hlt => absurd (hmax hb hlt.le) (not_le_of_gt hlt)⟩

/-- What an actor has done of a document is in another one that has the actor's deeds. -/
theorem Has.ops_by (hown : Deeds own) (h : Has A own K H) (h' : Has A own K' H') {x : Actor}
    (hsub : ∀ k, (x, k) ∈ K → (x, k) ∈ K') : ∀ op ∈ H, op.id.actor = x → op ∈ H' := by
  obtain ⟨bases, entries, hl, hb, he⟩ := h
  obtain ⟨bases', entries', hl', hb', he'⟩ := h'
  refine hl.ops_by hl' (fun hx => ?_) fun e hmem hx => ?_
  · obtain ⟨d, hd, rfl, hbase⟩ := (hb x).mp hx
    exact (hb' d.1).mpr ⟨d, hsub d.2 hd, rfl, hbase⟩
  · obtain ⟨d, hd, hde⟩ := (he e).mp hmem
    obtain rfl : d.1 = x := (hown.actor d e hde).symm.trans hx
    exact (he' e).mpr ⟨d, hsub d.2 hd, hde⟩

/-- **Two documents of the same deeds** do not contradict each other. -/
theorem Has.unforked (hown : Deeds own) (hK : Known own K) (hK' : Known own K') (h : Has A own K H)
    (h' : Has A own K' H') : Unforked H H' := fun x =>
  (hK.closed.total hK'.closed x).imp (h.ops_by hown h') (h'.ops_by hown h)

/-- **The union of two documents** has the deeds of both. -/
theorem Has.union (hown : Deeds own) (h : Has A own K H) (h' : Has A own K' H') :
    Has A own (K ∪ K') (H ∪ H') := by
  classical
  obtain ⟨bases, entries, hl, hb, he⟩ := h
  obtain ⟨bases', entries', hl', hb', he'⟩ := h'
  have hmem : ∀ e, e ∈ (entries ++ entries').dedup ↔ e ∈ entries ∨ e ∈ entries' := fun e => by
    rw [List.mem_dedup, List.mem_append]
  have hdeed : ∀ e ∈ (entries ++ entries').dedup, ∃ d, deed own d = some (some e) := fun e hm => by
    rcases (hmem e).mp hm with hm | hm
    · obtain ⟨d, -, hd⟩ := (he e).mp hm
      exact ⟨d, hd⟩
    · obtain ⟨d, -, hd⟩ := (he' e).mp hm
      exact ⟨d, hd⟩
  have hnodup : (((entries ++ entries').dedup).map Entry.id).Nodup := by
    refine List.Nodup.map_on (fun e hm e' hm' hid => ?_) (List.nodup_dedup _)
    obtain ⟨d, hd⟩ := hdeed e hm
    obtain ⟨d', hd'⟩ := hdeed e' hm'
    obtain rfl := hown.inj d d' e e' hd hd' hid
    exact Option.some.inj (Option.some.inj (hd.symm.trans hd'))
  refine ⟨{a | a ∈ bases ∨ a ∈ bases'}, _, hl.union hl' (fun a => Iff.rfl) hmem hnodup, fun a => ?_,
    fun e => ?_⟩
  · show a ∈ bases ∨ a ∈ bases' ↔ _
    rw [hb, hb']
    simp only [Finset.mem_union, or_and_right, exists_or]
  · rw [hmem, he, he']
    simp only [Finset.mem_union, or_and_right, exists_or]

theorem Known.union (h : Known own K) (h' : Known own K') : Known own (K ∪ K') where
  closed := h.closed.union h'.closed
  done d hd := (Finset.mem_union.mp hd).elim (h.done d) (h'.done d)
  base := by
    obtain ⟨d, hd, hbase⟩ := h.base
    exact ⟨d, Finset.mem_union_left _ hd, hbase⟩

/-- **One more deed**: the entry `e`, the next of its actor. -/
theorem Has.append {bases : Set Actor} {entries : List (Entry Actor)} {e : Entry Actor} {a : Actor}
    (hb : ∀ a, a ∈ bases ↔ ∃ d ∈ K, d.1 = a ∧ deed own d = some none)
    (he : ∀ e, e ∈ entries ↔ ∃ d ∈ K, deed own d = some (some e)) (hK : Known own K)
    (hpre : ∀ a, own a <+: own' a) (hnew : deed own' (a, (own a).length) = some (some e))
    (hl : Layout A H bases (entries ++ [e])) : Has A own' (insert (a, (own a).length) K) H := by
  refine ⟨bases, _, hl, fun x => ?_, fun x => ?_⟩
  · rw [hb]
    constructor
    · rintro ⟨d, hd, rfl, hbase⟩
      exact ⟨d, Finset.mem_insert_of_mem hd, rfl, (deed_of_le hpre (hK.done d hd)).trans hbase⟩
    · rintro ⟨d, hd, rfl, hbase⟩
      rcases Finset.mem_insert.mp hd with rfl | hd
      · rw [hnew] at hbase
        cases hbase
      · exact ⟨d, hd, rfl, (deed_of_le hpre (hK.done d hd)).symm.trans hbase⟩
  · rw [List.mem_append, he, List.mem_singleton]
    constructor
    · rintro (⟨d, hd, hde⟩ | rfl)
      · exact ⟨d, Finset.mem_insert_of_mem hd, (deed_of_le hpre (hK.done d hd)).trans hde⟩
      · exact ⟨_, Finset.mem_insert_self _ _, hnew⟩
    · rintro ⟨d, hd, hde⟩
      rcases Finset.mem_insert.mp hd with rfl | hd
      · rw [hnew] at hde
        cases hde
        exact .inr rfl
      · exact .inl ⟨d, hd, (deed_of_le hpre (hK.done d hd)).symm.trans hde⟩

theorem Known.append (h : Known own K) (hpre : ∀ a, own a <+: own' a) {a : Actor}
    (hall : ∀ k, k < (own a).length → (a, k) ∈ K) (hlen : (own' a).length = (own a).length + 1) :
    Known own' (insert (a, (own a).length) K) where
  closed := h.closed.insert hall
  done d hd := by
    rcases Finset.mem_insert.mp hd with rfl | hd
    · show (own a).length < (own' a).length
      omega
    · exact (h.mono hpre).done d hd
  base := by
    obtain ⟨d, hd, hbase⟩ := (h.mono hpre).base
    exact ⟨d, Finset.mem_insert_of_mem hd, hbase⟩

end

/-! ## 3. What every event keeps -/

section

variable {ι Key Actor Scalar Doc : Type} [DecidableEq ι] [LinearOrder Actor] [DecidableEq Scalar]
  {L : Libraries Key Actor Scalar Doc} {roomKey : Key}
  {own own' : Actor → List (Option (Entry Actor))} {w : Swarm ι Key Actor Doc}

structure CopyInv (L : Libraries Key Actor Scalar Doc) (roomKey : Key)
    (own : Actor → List (Option (Entry Actor))) (c : Copy Key Actor Doc) : Prop where
  key : c.room.encryptionKey = roomKey
  known : Known own c.known
  /-- It has taken in all that its own actor has done. -/
  ownKnown : ∀ k, k < (own (L.automerge.actor c.room.doc)).length →
    (L.automerge.actor c.room.doc, k) ∈ c.known
  has : Has L.automerge own c.known (L.automerge.history c.room.doc)

/-- A saved byte string: whoever loads it gets its deeds. -/
structure SavedInv (L : Libraries Key Actor Scalar Doc) (roomKey : Key)
    (own : Actor → List (Option (Entry Actor))) (bytes : Bytes) (known : Finset (Actor × Nat)) :
    Prop where
  deeds : Known own known
  loads : ∃ plain, decryptPayload L roomKey bytes = .ok plain ∧
    ∀ a, ∃ d, L.automerge.load a plain = .ok d ∧ Has L.automerge own known (L.automerge.history d)

structure SwarmInv (L : Libraries Key Actor Scalar Doc) (roomKey : Key)
    (own : Actor → List (Option (Entry Actor))) (w : Swarm ι Key Actor Doc) : Prop where
  msgs : ∀ a, (own a).map (Option.map Entry.msg) = w.deeds a
  deeds : Deeds own
  copies : ∀ p c, w.copy p = some c → CopyInv L roomKey own c
  apart : ∀ p q c c', w.copy p = some c → w.copy q = some c' →
    L.automerge.actor c.room.doc = L.automerge.actor c'.room.doc → p = q
  saved : ∀ bytes known, (bytes, known) ∈ w.published → SavedInv L roomKey own bytes known

omit [DecidableEq ι] in
theorem SwarmInv.length (h : SwarmInv L roomKey own w) (a : Actor) :
    (w.deeds a).length = (own a).length := by
  rw [← h.msgs, List.length_map]

theorem CopyInv.mono {c : Copy Key Actor Doc} (h : CopyInv L roomKey own c)
    (hpre : ∀ a, own a <+: own' a)
    (hkeep : own' (L.automerge.actor c.room.doc) = own (L.automerge.actor c.room.doc)) :
    CopyInv L roomKey own' c where
  key := h.key
  known := h.known.mono hpre
  ownKnown := by
    rw [hkeep]
    exact h.ownKnown
  has := h.has.mono h.known hpre

theorem SavedInv.mono {bytes : Bytes} {known : Finset (Actor × Nat)}
    (h : SavedInv L roomKey own bytes known) (hpre : ∀ a, own a <+: own' a) :
    SavedInv L roomKey own' bytes known where
  deeds := h.deeds.mono hpre
  loads := by
    obtain ⟨plain, hplain, hload⟩ := h.loads
    refine ⟨plain, hplain, fun a => ?_⟩
    obtain ⟨d, hd, hhas⟩ := hload a
    exact ⟨d, hd, hhas.mono h.deeds hpre⟩

/-- **An event of one copy**: its actor's deeds and what is saved may have grown. -/
theorem SwarmInv.update (h : SwarmInv L roomKey own w) (hpre : ∀ a, own a <+: own' a)
    (hdeeds : Deeds own') {p : ι} {c : Copy Key Actor Doc}
    (hkeep : ∀ b, b ≠ L.automerge.actor c.room.doc → own' b = own b)
    (hc : CopyInv L roomKey own' c)
    (hapart : ∀ q c', q ≠ p → w.copy q = some c' →
      L.automerge.actor c'.room.doc ≠ L.automerge.actor c.room.doc)
    {published : List (Bytes × Finset (Actor × Nat))}
    (hpub : ∀ bytes known, (bytes, known) ∈ published → SavedInv L roomKey own' bytes known)
    {deeds : Actor → List (Option CrdtMessage)}
    (hmsgs : ∀ a, (own' a).map (Option.map Entry.msg) = deeds a) :
    SwarmInv L roomKey own' ⟨Function.update w.copy p (some c), published, deeds⟩ := by
  have hcase : ∀ q c', Function.update w.copy p (some c) q = some c' →
      (q = p ∧ c' = c) ∨ (q ≠ p ∧ w.copy q = some c') := fun q c' hq => by
    by_cases hqp : q = p
    · subst hqp
      rw [Function.update_self] at hq
      exact .inl ⟨rfl, (Option.some.inj hq).symm⟩
    · rw [Function.update_of_ne hqp] at hq
      exact .inr ⟨hqp, hq⟩
  refine ⟨hmsgs, hdeeds, fun q c' hq => ?_, fun q q' c₁ c₂ hq hq' hact => ?_, hpub⟩
  · rcases hcase q c' hq with ⟨-, rfl⟩ | ⟨hne, hq⟩
    · exact hc
    · exact (h.copies q c' hq).mono hpre (hkeep _ (hapart q c' hne hq))
  · rcases hcase q c₁ hq with ⟨rfl, rfl⟩ | ⟨hne, hold⟩
    · rcases hcase q' c₂ hq' with ⟨rfl, -⟩ | ⟨hne', hold'⟩
      · rfl
      · exact absurd hact.symm (hapart q' c₂ hne' hold')
    · rcases hcase q' c₂ hq' with ⟨rfl, rfl⟩ | ⟨hne', hold'⟩
      · exact absurd hact (hapart q c₁ hne hold)
      · exact h.apart q q' c₁ c₂ hold hold' hact

/-- What `save` has returned. -/
theorem savedInv_save (hP : L.aead.Lawful) (hA : L.automerge.Documented) {c : Copy Key Actor Doc}
    (hc : CopyInv L roomKey own c) {nonce : Nonce} {bytes : Bytes}
    (h : (Room.save L c.room nonce).1 = .ok bytes) : SavedInv L roomKey own bytes c.known where
  deeds := hc.known
  loads := by
    refine ⟨_, hc.key ▸ decryptPayload_encrypt hP h, fun a => ?_⟩
    obtain ⟨d, hd, hH⟩ := hA.load_save c.room.doc a
    exact ⟨d, hd, by rw [hH]; exact hc.has⟩

/-- `save` leaves the copy as it is. -/
theorem CopyInv.save (hA : L.automerge.Documented) {c : Copy Key Actor Doc}
    (hc : CopyInv L roomKey own c) (nonce : Nonce) :
    CopyInv L roomKey own ⟨(Room.save L c.room nonce).2, c.known⟩ where
  key := hc.key
  known := hc.known
  ownKnown := by
    show ∀ k, k < (own (L.automerge.actor (L.automerge.save c.room.doc).2)).length →
      (L.automerge.actor (L.automerge.save c.room.doc).2, k) ∈ c.known
    rw [hA.actor_save]
    exact hc.ownKnown
  has := by
    show Has L.automerge own c.known (L.automerge.history (L.automerge.save c.room.doc).2)
    rw [hA.history_save]
    exact hc.has

omit [DecidableEq ι] [LinearOrder Actor] [DecidableEq Scalar] in
theorem mem_publish {ε : Type} {known known' : Finset (Actor × Nat)} {r : Except ε Bytes}
    {bytes : Bytes} (h : (bytes, known') ∈ publish known r) : r = .ok bytes ∧ known' = known := by
  cases r with
  | error e => exact absurd h List.not_mem_nil
  | ok b =>
    cases List.mem_singleton.mp h
    exact ⟨rfl, rfl⟩

/-- What has been saved after one more save. -/
theorem saved_publish {known : Finset (Actor × Nat)} {ε : Type} {r : Except ε Bytes}
    {published : List (Bytes × Finset (Actor × Nat))}
    (hold : ∀ bytes known, (bytes, known) ∈ published → SavedInv L roomKey own bytes known)
    (hr : ∀ bytes, r = .ok bytes → SavedInv L roomKey own bytes known) :
    ∀ bytes known', (bytes, known') ∈ published ++ publish known r →
      SavedInv L roomKey own bytes known' := by
  intro bytes known' hb
  rcases List.mem_append.mp hb with hb | hb
  · exact hold bytes known' hb
  · obtain ⟨hok, rfl⟩ := mem_publish hb
    exact hr bytes hok

variable {p : ι} {c : Copy Key Actor Doc}

omit [DecidableEq ι] in
/-- The other copies have other actors. -/
theorem SwarmInv.others (h : SwarmInv L roomKey own w) (hp : w.copy p = some c) (q : ι)
    (c' : Copy Key Actor Doc) (hne : q ≠ p) (hq : w.copy q = some c') :
    L.automerge.actor c'.room.doc ≠ L.automerge.actor c.room.doc :=
  fun hact => hne (h.apart q p c' c hq hp hact)

theorem SwarmInv.saveStep (hP : L.aead.Lawful) (hA : L.automerge.Documented)
    (h : SwarmInv L roomKey own w) (hp : w.copy p = some c) (nonce : Nonce) :
    SwarmInv L roomKey own (w.save L p c nonce) := by
  have hc := h.copies p c hp
  have hact : L.automerge.actor (Room.save L c.room nonce).2.doc = L.automerge.actor c.room.doc :=
    hA.actor_save _
  refine h.update (c := ⟨_, c.known⟩) (fun _ => List.prefix_rfl) h.deeds (fun _ _ => rfl)
    (hc.save hA nonce) (fun q c' hne hq => ?_) ?_ h.msgs
  · show _ ≠ L.automerge.actor (Room.save L c.room nonce).2.doc
    rw [hact]
    exact h.others hp q c' hne hq
  · exact saved_publish h.saved fun bytes hb => savedInv_save hP hA hc hb

omit [DecidableEq ι] in
/-- **`merge`** of what any copy has saved goes through, and brings its deeds. -/
theorem SwarmInv.merge_ok (hA : L.automerge.Documented) (h : SwarmInv L roomKey own w)
    (hp : w.copy p = some c) {bytes : Bytes} {known : Finset (Actor × Nat)}
    (hb : SavedInv L roomKey own bytes known) (a : Actor) :
    ∃ d, Room.merge L c.room a bytes = (.ok (), { c.room with doc := d }) ∧
      L.automerge.actor d = L.automerge.actor c.room.doc ∧
      Has L.automerge own (c.known ∪ known) (L.automerge.history d) := by
  have hc := h.copies p c hp
  obtain ⟨plain, hplain, hload⟩ := hb.loads
  obtain ⟨d', hd', hhas⟩ := hload a
  obtain ⟨m, hm⟩ := hA.merge_ok c.room.doc d' (hc.has.unforked h.deeds hc.known hb.deeds hhas)
  refine ⟨m, ?_, hA.actor_merge _ _ _ hm, ?_⟩
  · unfold Room.merge
    simp only [hc.key, hplain, hd', hm]
  · rw [hA.history_merge _ _ _ hm]
    exact hc.has.union h.deeds hhas

theorem SwarmInv.mergeStep (hA : L.automerge.Documented) (h : SwarmInv L roomKey own w)
    (hp : w.copy p = some c) {bytes : Bytes} {known : Finset (Actor × Nat)}
    (hb : SavedInv L roomKey own bytes known) (a : Actor) :
    SwarmInv L roomKey own (w.merge L p c a bytes known) := by
  have hc := h.copies p c hp
  obtain ⟨d, hmerge, hact, hhas⟩ := h.merge_ok hA hp hb a
  unfold Swarm.merge
  rw [hmerge]
  refine h.update (c := ⟨{ c.room with doc := d }, c.known ∪ known⟩)
    (fun _ => List.prefix_rfl) h.deeds
    (fun _ _ => rfl) ⟨hc.key, hc.known.union hb.deeds, fun k hk => ?_, hhas⟩ (fun q c' hne hq => ?_)
    h.saved h.msgs
  · rw [hact] at hk ⊢
    exact Finset.mem_union_left _ (hc.ownKnown k hk)
  · show _ ≠ L.automerge.actor d
    rw [hact]
    exact h.others hp q c' hne hq

/-- The deeds with one more of an actor. -/
theorem le_push (own : Actor → List (Option (Entry Actor))) (a : Actor)
    (x : Option (Entry Actor)) (b : Actor) : own b <+: Function.update own a (own a ++ [x]) b := by
  by_cases hb : b = a
  · subst hb
    rw [Function.update_self]
    exact List.prefix_append _ _
  · rw [Function.update_of_ne hb]

omit [DecidableEq ι] in
theorem msgs_append (h : ∀ a, (own a).map (Option.map Entry.msg) = w.deeds a) (a : Actor)
    (x : Option (Entry Actor)) (b : Actor) :
    (Function.update own a (own a ++ [x]) b).map (Option.map Entry.msg) =
      Function.update w.deeds a (w.deeds a ++ [x.map Entry.msg]) b := by
  by_cases hb : b = a
  · subst hb
    rw [Function.update_self, Function.update_self, List.map_append, h]
    rfl
  · rw [Function.update_of_ne hb, Function.update_of_ne hb]
    exact h b

theorem deed_append {a : Actor} {x : Option (Entry Actor)} {d : Actor × Nat}
    {y : Option (Entry Actor)} (h : deed (Function.update own a (own a ++ [x])) d = some y) :
    deed own d = some y ∨ d = (a, (own a).length) ∧ y = x := by
  unfold deed at h ⊢
  by_cases ha : d.1 = a
  · rw [ha, Function.update_self] at h
    rcases Nat.lt_or_ge d.2 (own a).length with hlt | hge
    · rw [List.getElem?_append_left hlt] at h
      exact .inl (ha ▸ h)
    · obtain ⟨hk, hx⟩ := List.getElem?_eq_some_iff.mp h
      rw [List.length_append, List.length_singleton] at hk
      have hlast : d.2 = (own a).length := by omega
      rw [hlast, List.getElem?_concat_length] at h
      exact .inr ⟨Prod.ext ha hlast, (Option.some.inj h).symm⟩
  · rw [Function.update_of_ne ha] at h
    exact .inl h

theorem deed_append_new (own : Actor → List (Option (Entry Actor))) (a : Actor)
    (x : Option (Entry Actor)) :
    deed (Function.update own a (own a ++ [x])) (a, (own a).length) = some x := by
  unfold deed
  rw [Function.update_self]
  exact List.getElem?_concat_length

/-- **`add_message`**: the next deed of the copy's actor. -/
theorem SwarmInv.addStep (hP : L.aead.Lawful) (hA : L.automerge.Documented)
    (h : SwarmInv L roomKey own w) (hp : w.copy p = some c) (msg : CrdtMessage) (nonce : Nonce) :
    ∃ own', SwarmInv L roomKey own' (w.add L p c msg nonce) := by
  have hc := h.copies p c hp
  obtain ⟨bases, entries, hl, hb, he⟩ := hc.has
  obtain ⟨g, hg⟩ := Has.greatest hc.known hb
  obtain ⟨d, e, happ, hact, -, hid, hmsg, hl'⟩ := hl.append hA hg msg
  obtain ⟨hroom, hbytes⟩ := addMessage_append happ nonce
  let a := L.automerge.actor c.room.doc
  let own' := Function.update own a (own a ++ [some e])
  have hpre : ∀ b, own b <+: own' b := le_push own a (some e)
  have hnew : deed own' (a, (own a).length) = some (some e) := deed_append_new own a (some e)
  have hlen : (own' a).length = (own a).length + 1 := by
    show (Function.update own a _ a).length = _
    rw [Function.update_self, List.length_append, List.length_singleton]
  -- the new entry has an id that no deed of the actor has
  have hfresh : ∀ d' e', deed own d' = some (some e') → e'.id ≠ e.id := fun d' e' hd' hids => by
    have ha : d'.1 = a := by rw [← h.deeds.actor d' e' hd', hids, hid]
    have hk : d'.2 < (own a).length := by
      have := (List.getElem?_eq_some_iff.mp hd').1
      rwa [ha] at this
    have hin : (d'.1, d'.2) ∈ c.known := by
      rw [ha]
      exact hc.ownKnown d'.2 hk
    have hmem : e' ∈ entries := (he e').mpr ⟨d', hin, hd'⟩
    have hnodup := hl'.nodup
    rw [List.map_append, List.map_singleton] at hnodup
    exact (List.disjoint_of_nodup_append hnodup) (List.mem_map_of_mem hmem)
      (hids ▸ List.mem_singleton_self _)
  have hdeeds : Deeds own' := by
    refine ⟨fun d' e' hd' => ?_, fun d₁ d₂ e₁ e₂ h₁ h₂ hids => ?_⟩
    · rcases deed_append hd' with hd' | ⟨rfl, hx⟩
      · exact h.deeds.actor d' e' hd'
      · cases hx
        exact hid
    · rcases deed_append h₁ with h₁ | ⟨rfl, hx₁⟩
      · rcases deed_append h₂ with h₂ | ⟨rfl, hx₂⟩
        · exact h.deeds.inj d₁ d₂ e₁ e₂ h₁ h₂ hids
        · cases hx₂
          exact absurd hids (hfresh d₁ e₁ h₁)
      · rcases deed_append h₂ with h₂ | ⟨rfl, -⟩
        · cases hx₁
          exact absurd hids.symm (hfresh d₂ e₂ h₂)
        · rfl
  -- the copy with the message, before it is saved
  let c' : Copy Key Actor Doc := ⟨{ c.room with doc := d }, insert (a, (own a).length) c.known⟩
  have hc' : CopyInv L roomKey own' c' := by
    refine ⟨hc.key, hc.known.append hpre hc.ownKnown hlen, fun k hk => ?_,
      Has.append hb he hc.known hpre hnew hl'⟩
    change k < (own' (L.automerge.actor d)).length at hk
    show (L.automerge.actor d, k) ∈ insert (a, (own a).length) c.known
    rw [hact] at hk ⊢
    rw [hlen] at hk
    rcases Nat.lt_or_eq_of_le (Nat.le_of_lt_succ hk) with hk | rfl
    · exact Finset.mem_insert_of_mem (hc.ownKnown k hk)
    · exact Finset.mem_insert_self _ _
  have hsave := hc'.save hA nonce
  have hactor : L.automerge.actor (Room.save L c'.room nonce).2.doc = a :=
    (hA.actor_save _).trans hact
  have hadd : w.add L p c msg nonce =
      ⟨Function.update w.copy p (some ⟨(Room.save L c'.room nonce).2, c'.known⟩),
        w.published ++ publish c'.known (Room.addMessage L c.room msg nonce).1,
        Function.update w.deeds a (w.deeds a ++ [some msg])⟩ := by
    unfold Swarm.add
    simp only [hroom, h.length]
    rfl
  refine ⟨own', ?_⟩
  rw [hadd]
  refine h.update (c := ⟨_, c'.known⟩) hpre hdeeds (fun b hb => ?_) hsave
    (fun q c'' hne hq => ?_) ?_
    fun b => ?_
  · exact Function.update_of_ne (fun e => hb (e.trans hactor.symm)) ..
  · show _ ≠ L.automerge.actor (Room.save L c'.room nonce).2.doc
    rw [hactor]
    exact h.others hp q c'' hne hq
  · refine saved_publish (fun bytes known hbk => (h.saved bytes known hbk).mono hpre)
      fun bytes hok => ?_
    exact savedInv_save hP hA hc' (hbytes bytes hok)
  · have hmsgs := msgs_append h.msgs a (some e) b
    rw [hmsgs]
    show _ = Function.update w.deeds a (w.deeds a ++ [some msg]) b
    rw [← hmsg]
    rfl

/-- A new copy has an actor that no copy has. -/
theorem SwarmInv.loadStep (hA : L.automerge.Documented) {id : String} {password : Option String}
    (h : SwarmInv L (deriveRoomKey L id password) own w) {bytes : Bytes}
    {known : Finset (Actor × Nat)} (hb : SavedInv L (deriveRoomKey L id password) own bytes known)
    {a : Actor} (hdeeds : w.deeds a = [])
    (hfresh : ∀ q c, w.copy q = some c → L.automerge.actor c.room.doc ≠ a) (p : ι) :
    SwarmInv L (deriveRoomKey L id password) own (w.load L id password p a bytes known) := by
  obtain ⟨plain, hplain, hload⟩ := hb.loads
  obtain ⟨d, hd, hhas⟩ := hload a
  have hact := hA.actor_load _ _ _ hd
  have hroom : Room.load L a id bytes password =
      .ok { id, doc := d, encryptionKey := deriveRoomKey L id password } := by
    unfold Room.load
    simp only [hplain, hd, bind, Except.bind, pure, Except.pure]
  have hnil : own a = [] := List.map_eq_nil_iff.mp ((h.msgs a).trans hdeeds)
  unfold Swarm.load
  rw [hroom]
  refine h.update (c := ⟨_, known⟩) (fun _ => List.prefix_rfl) h.deeds (fun _ _ => rfl)
    ⟨rfl, hb.deeds, fun k hk => ?_, hhas⟩ (fun q c' _ hq => ?_) h.saved h.msgs
  · change k < (own (L.automerge.actor d)).length at hk
    rw [hact, hnil] at hk
    exact absurd hk (Nat.not_lt_zero k)
  · show _ ≠ L.automerge.actor d
    rw [hact]
    exact hfresh q c' hq

theorem SwarmInv.createStep (hA : L.automerge.Documented) {id : String} {password : Option String}
    (h : SwarmInv L (deriveRoomKey L id password) own w) {a : Actor} (hdeeds : w.deeds a = [])
    (hfresh : ∀ q c, w.copy q = some c → L.automerge.actor c.room.doc ≠ a) (p : ι) :
    ∃ own', SwarmInv L (deriveRoomKey L id password) own' (w.create L id password p a) := by
  obtain ⟨room, hnew, hact, -, hkey, hl⟩ := Layout.new hA a id password
  have hnil : own a = [] := List.map_eq_nil_iff.mp ((h.msgs a).trans hdeeds)
  let own' := Function.update own a (own a ++ [none])
  have hself : own' a = [none] := by
    show Function.update own a _ a = _
    rw [Function.update_self, hnil]
    rfl
  have hfirst : deed own' (a, 0) = some none := by
    unfold deed
    rw [hself]
    rfl
  have hdeed : ∀ d e, deed own' d = some (some e) → deed own d = some (some e) := fun d e hd => by
    rcases deed_append hd with hd | ⟨-, hx⟩
    · exact hd
    · cases hx
  refine ⟨own', ?_⟩
  unfold Swarm.create
  rw [hnew]
  refine h.update (c := ⟨room, {(a, 0)}⟩) (le_push own a none)
    ⟨fun d e hd => h.deeds.actor d e (hdeed d e hd), fun d d' e e' hd hd' =>
      h.deeds.inj d d' e e' (hdeed d e hd) (hdeed d' e' hd')⟩ (fun b hb => ?_)
    ⟨hkey, ⟨Versions.closed_first a, fun d hd => ?_, ⟨(a, 0), Finset.mem_singleton_self _, hfirst⟩⟩,
      fun k hk => ?_, {a}, [], hl, fun b => ?_, fun e => ?_⟩ (fun q c' _ hq => ?_)
    (fun bytes known hbk => (h.saved bytes known hbk).mono (le_push own a none))
    (msgs_append h.msgs a none)
  · change b ≠ L.automerge.actor room.doc at hb
    rw [hact] at hb
    exact Function.update_of_ne hb ..
  · rw [Finset.mem_singleton.mp hd]
    show 0 < (own' a).length
    rw [hself]
    exact Nat.zero_lt_one
  · change k < (own' (L.automerge.actor room.doc)).length at hk
    rw [hact, hself] at hk
    rw [Nat.lt_one_iff.mp hk]
    show (L.automerge.actor room.doc, 0) ∈ _
    rw [hact]
    exact Finset.mem_singleton_self _
  · simp only [Set.mem_singleton_iff, Finset.mem_singleton, exists_eq_left]
    exact ⟨fun hba => ⟨hba.symm, hfirst⟩, fun hba => hba.1.symm⟩
  · refine ⟨fun h => absurd h List.not_mem_nil, fun ⟨d, hd, hde⟩ => ?_⟩
    rw [Finset.mem_singleton.mp hd, hfirst] at hde
    cases hde
  · show _ ≠ L.automerge.actor room.doc
    rw [hact]
    exact hfresh q c' hq

/-- **One event.** -/
theorem swarmInv_step (hP : L.aead.Lawful) (hA : L.automerge.Documented) {id : String}
    {password : Option String} (h : SwarmInv L (deriveRoomKey L id password) own w)
    (ev : SwarmEvent ι Actor) (hfresh : FreshActor L w ev) :
    ∃ own', SwarmInv L (deriveRoomKey L id password) own' (w.after L id password ev) := by
  cases ev with
  | create p a => exact h.createStep hA hfresh.1 hfresh.2 p
  | load p k a =>
    simp only [Swarm.after]
    split
    · exact ⟨own, h⟩
    · next bytes known hk =>
      exact ⟨own, h.loadStep hA (h.saved bytes known (List.mem_of_getElem? hk)) hfresh.1 hfresh.2 p⟩
  | add p msg nonce =>
    simp only [Swarm.after]
    split
    · exact ⟨own, h⟩
    · next c hp => exact h.addStep hP hA hp msg nonce
  | save p nonce =>
    simp only [Swarm.after]
    split
    · exact ⟨own, h⟩
    · next c hp => exact ⟨own, h.saveStep hP hA hp nonce⟩
  | merge p k a =>
    simp only [Swarm.after]
    split
    · next c bytes known hp hk =>
      exact ⟨own, h.mergeStep hA hp (h.saved bytes known (List.mem_of_getElem? hk)) a⟩
    · exact ⟨own, h⟩

/-! ## 4. What copies show -/

theorem SwarmRun.inv (hP : L.aead.Lawful) (hA : L.automerge.Documented) {id : String}
    {password : Option String} (h : SwarmRun L id password w) :
    ∃ own, SwarmInv L (deriveRoomKey L id password) own w := by
  refine Reach.inv (I := fun w => ∃ own, SwarmInv L (deriveRoomKey L id password) own w)
    (fun w hw => ⟨fun _ => [], ?_⟩) (fun w ev w' hw hs => ?_) h
  · subst hw
    exact ⟨fun _ => rfl, ⟨nofun, nofun⟩, nofun, nofun, nofun⟩
  · obtain ⟨own, hinv⟩ := hw
    rw [show w' = w.after L id password ev from hs.2]
    exact swarmInv_step hP hA hinv ev hs.1

omit [DecidableEq ι] in
theorem SwarmInv.message_eq (h : SwarmInv L roomKey own w) (d : Actor × Nat) :
    w.message d = (deed own d).join.map Entry.msg := by
  unfold Swarm.message deed
  rw [← h.msgs, List.getElem?_map]
  cases (own d.1)[d.2]? with
  | none => rfl
  | some x => cases x <;> rfl

omit [LinearOrder Actor] in
/-- The entries of a document are those of its deeds, each once. -/
theorem entries_eq (hown : Deeds own) {K : Finset (Actor × Nat)} {entries : List (Entry Actor)}
    (hnodup : (entries.map Entry.id).Nodup)
    (he : ∀ e, e ∈ entries ↔ ∃ d ∈ K, deed own d = some (some e)) :
    (entries : Multiset (Entry Actor)) = K.val.filterMap fun d => (deed own d).join := by
  have hjoin : ∀ d e, (deed own d).join = some e ↔ deed own d = some (some e) := fun d e =>
    Option.join_eq_some_iff
  have hinj : ∀ d d' e, e ∈ (deed own d).join → e ∈ (deed own d').join → d = d' :=
    fun d d' e hd hd' => hown.inj d d' e e ((hjoin d e).mp hd) ((hjoin d' e).mp hd') rfl
  refine (Multiset.Nodup.ext (Multiset.coe_nodup.mpr hnodup.of_map) (K.nodup.filterMap _ hinj)).mpr
    fun e => ?_
  rw [Multiset.mem_coe, he, Multiset.mem_filterMap]
  exact exists_congr fun d => and_congr_right fun _ => (hjoin d e).symm

omit [DecidableEq ι] in
/-- **A copy of a room with one list** shows the messages it has taken in, each once. -/
theorem SwarmInv.getMessages (hA : L.automerge.Documented) (h : SwarmInv L roomKey own w) {p : ι}
    {c : Copy Key Actor Doc} (hp : w.copy p = some c)
    (hone : ∀ a b, none ∈ w.deeds a → none ∈ w.deeds b → a = b) (now : Int64) :
    ∃ l, Room.getMessages L c.room now = .ok l ∧
      (l : Multiset CrdtMessage) = (c.known.val.filterMap w.message).map
        (CrdtMessage.shown now) := by
  have hc := h.copies p c hp
  obtain ⟨bases, entries, hl, hb, he⟩ := hc.has
  obtain ⟨g, hg⟩ := Has.greatest hc.known hb
  obtain ⟨order, hperm, hget⟩ := hl.getMessages_eq hA hg now
  have hnone : ∀ a ∈ bases, none ∈ w.deeds a := fun a ha => by
    obtain ⟨d, -, rfl, hd⟩ := (hb a).mp ha
    rw [← h.msgs]
    exact List.mem_map.mpr ⟨none, List.mem_of_getElem? hd, rfl⟩
  -- every entry is in the one list there is
  have hall : ∀ e ∈ entries, decide (e.list = g) = true := fun e hmem =>
    decide_eq_true (hone e.list g (hnone _ (hl.listed e hmem)) (hnone g hg.1))
  rw [List.filter_eq_self.mpr hall] at hperm
  refine ⟨_, hget, ?_⟩
  have hent := entries_eq h.deeds hl.nodup he
  calc ((order.map fun e => e.msg.shown now : List CrdtMessage) : Multiset CrdtMessage)
      = ((entries : Multiset (Entry Actor)).map Entry.msg).map (CrdtMessage.shown now) := by
        rw [Multiset.map_map, ← Multiset.coe_eq_coe.mpr hperm]
        rfl
    _ = (c.known.val.filterMap w.message).map (CrdtMessage.shown now) := by
        rw [hent, Multiset.map_filterMap, funext h.message_eq]

omit [DecidableEq ι] in
/-- **Copies of the same deeds** show the same. -/
theorem SwarmInv.getMessages_known (hA : L.automerge.Documented) (h : SwarmInv L roomKey own w)
    {p q : ι} {c c' : Copy Key Actor Doc} (hp : w.copy p = some c) (hq : w.copy q = some c')
    (hknown : c.known = c'.known) (now : Int64) :
    Room.getMessages L c.room now = Room.getMessages L c'.room now := by
  have hH : L.automerge.history c.room.doc = L.automerge.history c'.room.doc :=
    (h.copies p c hp).has.unique (hknown ▸ (h.copies q c' hq).has)
  refine Covers.getMessages_eq hA (hH ▸ Covers.refl _) (fun op hop => ?_) now
  rw [← hH]
  exact liveKey_subset _ _ _ hop.1

/-- **Copies of a room converge.** Two copies that have taken in the same messages show the same in
    the same order; what any copy has saved, any copy can merge; and where all copies come from one
    `Room::new`, each shows every message it has taken in, and each once. -/
theorem rooms_converge (hP : L.aead.Lawful) (hA : L.automerge.Documented) {id : String}
    {password : Option String} (h : SwarmRun L id password w) :
    (∀ p q c c', w.copy p = some c → w.copy q = some c' → c.known = c'.known → ∀ now,
      Room.getMessages L c.room now = Room.getMessages L c'.room now) ∧
    (∀ p c, w.copy p = some c → ∀ saved ∈ w.published, ∀ a,
      (Room.merge L c.room a saved.1).1 = .ok ()) ∧
    ((∀ a b, none ∈ w.deeds a → none ∈ w.deeds b → a = b) →
      ∀ p c, w.copy p = some c → ∀ now, ∃ l, Room.getMessages L c.room now = .ok l ∧
        (l : Multiset CrdtMessage) =
          (c.known.val.filterMap w.message).map (CrdtMessage.shown now)) := by
  obtain ⟨own, hinv⟩ := h.inv hP hA
  refine ⟨fun p q c c' hp hq hk now => hinv.getMessages_known hA hp hq hk now,
    fun p c hp saved hs a => ?_, fun hone p c hp now => hinv.getMessages hA hp hone now⟩
  obtain ⟨d, hmerge, -⟩ := hinv.merge_ok hA hp (hinv.saved saved.1 saved.2 hs) a
  rw [hmerge]

/-- A room that is created and saved, and another actor. -/
theorem freshActor_saved (hA : L.automerge.Documented) (id : String) (password : Option String)
    (p q : ι) {a b : Actor} (hne : a ≠ b) (nonce : Nonce) (k : Nat) :
    FreshActor L ((Swarm.empty.after L id password (.create p a)).after L id password
      (.save p nonce)) (.load q k b) := by
  obtain ⟨room, hnew, hact, -⟩ := Layout.new hA a id password
  have hafter : (Swarm.empty.after L id password (.create p a)).after L id password
    (.save p nonce) =
      ⟨Function.update (fun _ => none) p (some ⟨(Room.save L room nonce).2, {(a, 0)}⟩),
        publish {(a, 0)} (Room.save L room nonce).1, Function.update (fun _ => []) a [none]⟩ := by
    simp only [Swarm.after, Swarm.create, hnew, Swarm.set, Swarm.save, Swarm.empty,
      Function.update_self, Function.update_idem, List.nil_append]
  rw [hafter]
  refine ⟨Function.update_of_ne hne.symm [none] fun _ => [], fun r c hr => ?_⟩
  by_cases hrp : r = p
  · subst hrp
    simp only [Function.update_self] at hr
    rw [← Option.some.inj hr]
    exact (hA.actor_save _).trans hact ▸ hne
  · simp only [Function.update_of_ne hrp] at hr
    cases hr

end

/-- One copy is created and saved, a second one loaded from it; the first adds a message that the
    second merges. -/
def twoSwarm : Swarm Bool Bytes Nat OpDoc :=
  ((((Swarm.empty.after roomLibraries "r" none (.create true 1)).after
    roomLibraries "r" none (.save true (Vector.replicate 12 0))).after
    roomLibraries "r" none (.load false 0 2)).after
    roomLibraries "r" none (.add true greeting (Vector.replicate 12 1))).after
    roomLibraries "r" none (.merge false 1 3)

theorem twoSwarm_run : SwarmRun roomLibraries "r" none twoSwarm := by
  have h₀ : SwarmRun roomLibraries "r" none (Swarm.empty : Swarm Bool Bytes Nat OpDoc) :=
    .start _ rfl
  have h₁ := h₀.next (.create true 1) ⟨rfl, nofun⟩
  have h₂ := h₁.next (.save true (Vector.replicate 12 0)) trivial
  have h₃ :=
    h₂.next (.load false 0 2) (freshActor_saved roomLibraries_documented "r" none true false
    (by decide) (Vector.replicate 12 0) 0)
  have h₄ := h₃.next (.add true greeting (Vector.replicate 12 1)) trivial
  exact h₄.next (.merge false 1 3) trivial

/-- All its copies come from the room that actor 1 has created. -/
theorem twoSwarm_created : CreatedBy 1 twoSwarm := by
  have h₀ : CreatedBy 1 (Swarm.empty : Swarm Bool Bytes Nat OpDoc) := fun _ h => nomatch h
  have h₁ := h₀.after roomLibraries "r" none (.create true 1) rfl
  have h₂ := h₁.after roomLibraries "r" none (.save true (Vector.replicate 12 0)) trivial
  have h₃ := h₂.after roomLibraries "r" none (.load false 0 2) trivial
  have h₄ := h₃.after roomLibraries "r" none (.add true greeting (Vector.replicate 12 1)) trivial
  exact h₄.after roomLibraries "r" none (.merge false 1 3) trivial

theorem rooms_converge_two :
    (∀ p q c c', twoSwarm.copy p = some c → twoSwarm.copy q = some c' → c.known = c'.known → ∀ now,
      Room.getMessages roomLibraries c.room now = Room.getMessages roomLibraries c'.room now) ∧
    (∀ p c, twoSwarm.copy p = some c → ∀ saved ∈ twoSwarm.published, ∀ a,
      (Room.merge roomLibraries c.room a saved.1).1 = .ok ()) ∧
    ∀ p c, twoSwarm.copy p = some c → ∀ now, ∃ l,
      Room.getMessages roomLibraries c.room now = .ok l ∧ (l : Multiset CrdtMessage) =
        (c.known.val.filterMap twoSwarm.message).map (CrdtMessage.shown now) :=
  have h := rooms_converge labelled_lawful roomLibraries_documented twoSwarm_run
  ⟨h.1, h.2.1, h.2.2 fun _ _ ha hb => (twoSwarm_created _ ha).trans (twoSwarm_created _ hb).symm⟩

end AlterChat.Crdt
