import AlterChat.Core.RoomSubset
import AlterChat.Core.RoomPanics

/-!
# What a room goes on showing

`Keeps` -- one room shows whatever another shows.

* §1 documents of one history, and a document whose missing lists lose;
* §2 `Grows` -- one element more in a list; `append_keeps` -- a room goes on showing its messages
  when one is added, where its list is a list and no operation names one that is not there
  (`Orderly`).
-/

namespace AlterChat.Crdt

open Lib Automerge

section

variable {Key Actor Scalar Doc : Type}

/-- **What `room` shows, `room'` shows too.** -/
def Keeps (L : Libraries Key Actor Scalar Doc) (room room' : Room Key Doc) : Prop :=
  ∀ now msgs, Room.getMessages L room now = .ok msgs →
    ∃ msgs', Room.getMessages L room' now = .ok msgs' ∧ msgs.Subperm msgs'

variable {L : Libraries Key Actor Scalar Doc}

theorem Keeps.trans {room₁ room₂ room₃ : Room Key Doc} (h : Keeps L room₁ room₂)
    (h' : Keeps L room₂ room₃) : Keeps L room₁ room₃ := by
  intro now msgs hmsgs
  obtain ⟨msgs', hmsgs', hsub⟩ := h now msgs hmsgs
  obtain ⟨msgs'', hmsgs'', hsub'⟩ := h' now msgs' hmsgs'
  exact ⟨msgs'', hmsgs'', hsub.trans hsub'⟩

theorem Keeps.of_eq {room room' : Room Key Doc}
    (h : ∀ now, Room.getMessages L room now = Room.getMessages L room' now) : Keeps L room room' :=
  fun now msgs hmsgs => ⟨msgs, (h now).symm.trans hmsgs, List.Subperm.refl msgs⟩

variable [LinearOrder Actor] [DecidableEq Scalar] {A : Automerge Actor Scalar Doc}

/-! ## 1. The same messages -/

/-- **The messages are a function of the history.** -/
theorem getMessages_history (hA : L.automerge.Documented) {room room' : Room Key Doc}
    (h : L.automerge.history room.doc = L.automerge.history room'.doc) (now : Int64) :
    Room.getMessages L room now = Room.getMessages L room' now := by
  have hview : ∀ o, SameView (L.automerge.history room.doc) (L.automerge.history room'.doc) o :=
    fun o => ⟨by rw [h], fun i _ op _ => by rw [h]⟩
  unfold Room.getMessages
  rw [(hA.local_reads _ _ .root (hview .root)).1]
  split
  · rfl
  · rfl
  · next o _ => exact listMessages_local hA (hview o) (fun op _ _ => hview _) now

theorem Keeps.of_history (hA : L.automerge.Documented) {room room' : Room Key Doc}
    (h : L.automerge.history room.doc = L.automerge.history room'.doc) : Keeps L room room' :=
  .of_eq (getMessages_history hA h)

/-- An operation that a document need not have: the creation of a list that loses to what it has. -/
def Loses (H : Finset (Op Actor Scalar)) (op : Op Actor Scalar) : Prop :=
  IsCreation op ∧ ∃ w ∈ liveKey H .root "messages", op.id < w.id

/-- **A document that lacks only lists that lose shows what the whole one shows.** -/
theorem getMessages_loses (hA : L.automerge.Documented) {room room' : Room Key Doc}
    (hsub : L.automerge.history room'.doc ⊆ L.automerge.history room.doc)
    (hrest : ∀ op ∈ L.automerge.history room.doc, op ∈ L.automerge.history room'.doc ∨
      Loses (L.automerge.history room'.doc) op) (now : Int64) :
    Room.getMessages L room now = Room.getMessages L room' now := by
  have hc : Covers (L.automerge.history room'.doc) (L.automerge.history room.doc) :=
    ⟨hsub, fun op hop => (hrest op hop).imp_right fun h => h.1⟩
  refine hc.getMessages_eq hA (fun w hw => ?_) now
  rcases hrest w (liveKey_subset _ _ _ hw.1) with h | ⟨-, w', hw', hlt⟩
  · exact h
  · -- what the smaller document has there is live in the larger one, and beats it
    exact absurd (hw.2 w' (hc.liveKey_subset _ hw')) (not_le.mpr hlt)

/-! ## 2. One more message -/

/-- The element `e` of a list shows `msg`. -/
def ShowsAt (A : Automerge Actor Scalar Doc) (d : Doc) (o : ObjId Actor) (now : Int64)
    (e : OpId Actor) (msg : CrdtMessage) : Prop :=
  ∃ v x, Reads (liveElem (A.history d) o e) (some (v, x)) ∧ readMessage A d x now = .ok msg

omit [LinearOrder Actor] [DecidableEq Scalar] in
/-- At a place with an object the loop returns the message there, and then the rest. -/
theorem readMessages_cons_iff {d : Doc} {o x : ObjId Actor} {now : Int64} {i : Nat}
    {rest : List Nat} {v : Value Scalar} (hget : A.getIndex d o i = .ok (some (v, x)))
    (msgs : List CrdtMessage) :
    readMessages A d o now .wrapping (i :: rest) = .ok msgs ↔
      ∃ msg ms, readMessage A d x now = .ok msg ∧ readMessages A d o now .wrapping rest = .ok ms ∧
      msgs = msg :: ms := by
  rw [readMessages]
  simp only [hget]
  cases readMessage A d x now with
  | error stop =>
    constructor
    · intro h
      cases h
    · intro h
      obtain ⟨_, _, h, -⟩ := h
      cases h
  | ok msg =>
    cases readMessages A d o now .wrapping rest with
    | error stop =>
      constructor
      · intro h
        cases h
      · intro h
        obtain ⟨_, _, -, h, -⟩ := h
        cases h
    | ok ms =>
      constructor
      · intro h
        cases h
        exact ⟨msg, ms, rfl, rfl, rfl⟩
      · intro h
        obtain ⟨msg', ms', hmsg, hms, heq⟩ := h
        cases hmsg
        cases hms
        rw [heq]
        rfl

omit [DecidableEq Scalar] in
/-- The loop, from the place `k` on. -/
theorem readMessages_forall₂ {d : Doc} {o : ObjId Actor} (hu : UniqueIds (A.history d))
    (now : Int64) :
    ∀ (l : List (OpId Actor)) (k : Nat) (msgs : List CrdtMessage),
      (∀ j e, l[j]? = some e → (liveElem (A.history d) o e).Nonempty ∧
        ∃ r, A.getIndex d o (k + j) = .ok r ∧ Reads (liveElem (A.history d) o e) r) →
      (readMessages A d o now .wrapping (List.range' k l.length) = .ok msgs ↔
        List.Forall₂ (ShowsAt A d o now) l msgs) := by
  intro l
  induction l with
  | nil =>
    intro k msgs _
    rw [List.length_nil, List.range'_zero, List.forall₂_nil_left_iff]
    exact ⟨fun h => (Except.ok.inj h).symm, fun h => by rw [h]; rfl⟩
  | cons e l ih =>
    intro k msgs h
    obtain ⟨hlive, r, hget, hreads⟩ := h 0 e rfl
    cases r with
    | none => exact absurd hreads hlive.ne_empty
    | some r =>
      obtain ⟨v, x⟩ := r
      have hrest := fun ms => ih (k + 1) ms fun j e' hj => by
        have hat := h (j + 1) e' hj
        rwa [show k + (j + 1) = k + 1 + j by omega] at hat
      have hat : ∀ msg, ShowsAt A d o now e msg ↔ readMessage A d x now = .ok msg := by
        intro msg
        refine ⟨fun ⟨v', x', hr', hmsg⟩ => ?_, fun hmsg => ⟨v, x, hreads, hmsg⟩⟩
        cases hreads.unique (hu.mono (liveElem_subset _ _ _)) hr'
        exact hmsg
      rw [Nat.add_zero] at hget
      rw [List.length_cons, List.range'_succ, readMessages_cons_iff hget]
      simp only [List.forall₂_cons_left_iff, hat, ← hrest]

/-- **What a list shows**: one message for each of its elements. -/
theorem listMessages_iff (hA : A.Documented) {d : Doc} {o : ObjId Actor}
    (ho : IsObj (A.history d) o .list) : ∃ l : List (OpId Actor), l.Nodup ∧
      (∀ e, e ∈ l ↔ Element (A.history d) o e) ∧ ∀ now msgs,
        listMessages A d o now = .ok msgs ↔ List.Forall₂ (ShowsAt A d o now) l msgs := by
  obtain ⟨l, hnodup, hmem, hlen, hindex⟩ := hA.list_reads d o ho
  refine ⟨l, hnodup, hmem, fun now msgs => ?_⟩
  unfold listMessages
  rw [hlen, List.range_eq_range']
  refine readMessages_forall₂ (hA.valid d).unique now l 0 msgs fun j e hj => ?_
  rw [Nat.zero_add]
  exact ⟨((hmem e).mp (List.mem_of_getElem? hj)).2, hindex j e hj⟩

/-- **An object that is a list**, in a document whose operations name only operations that are
    there. -/
structure Orderly (H : Finset (Op Actor Scalar)) (o : ObjId Actor) : Prop where
  list : IsObj H o .list
  preds : ∀ op ∈ H, ∀ i ∈ op.pred, ∃ q ∈ H, q.id = i
  elems : ∀ op ∈ H, ∀ e, op.place = .elem e → ∃ q ∈ H, q.id = e

/-- `H'` is `H` with a new map in the list `o`, and what is in that map. -/
structure Grows (H H' : Finset (Op Actor Scalar)) (o : ObjId Actor) (ins : Op Actor Scalar) :
    Prop where
  subset : H ⊆ H'
  inserted : ins ∈ H'
  obj : ins.obj = o
  place : ∃ after, ins.place = .insert after
  action : ins.action = .make .map
  pred : ins.pred = ∅
  fresh : ∀ op ∈ H, op.id.counter < ins.id.counter
  new : ∀ op ∈ H', op ∈ H ∨ op = ins ∨
    op.obj = .made ins.id ∧ ins.id.counter < op.id.counter

namespace Grows

variable {H H' : Finset (Op Actor Scalar)} {o : ObjId Actor} {ins : Op Actor Scalar}

omit [LinearOrder Actor] [DecidableEq Scalar] in
theorem id_ne (h : Grows H H' o ins) {op : Op Actor Scalar} (hop : op ∈ H) : op.id ≠ ins.id := by
  intro hid
  have hlt := h.fresh op hop
  rw [hid] at hlt
  exact lt_irrefl _ hlt

omit [DecidableEq Scalar] in
/-- **The other objects look as before.** -/
theorem sameView (h : Grows H H' o ins) {x : ObjId Actor} (hx : x ≠ o)
    (hold : x = .root ∨ ∃ q ∈ H, x = .made q.id) : SameView H H' x where
  ops := by
    ext op
    rw [mem_ofObj, mem_ofObj]
    refine ⟨fun ⟨hop, hobj⟩ => ⟨h.subset hop, hobj⟩, fun ⟨hop, hobj⟩ => ⟨?_, hobj⟩⟩
    rcases h.new op hop with hH | rfl | ⟨hmade, -⟩
    · exact hH
    · exact absurd (hobj.symm.trans h.obj) hx
    · rcases hold with rfl | ⟨q, hq, rfl⟩
      · cases hmade.symm.trans hobj
      · exact absurd (ObjId.made.inj (hobj.symm.trans hmade)) (h.id_ne hq)
  maker := by
    intro i hi op hid
    refine ⟨fun hop => h.subset hop, fun hop => ?_⟩
    rcases hold with rfl | ⟨q, hq, rfl⟩
    · cases hi
    · cases hi
      have hlt := h.fresh q hq
      rcases h.new op hop with hH | rfl | ⟨-, hgt⟩
      · exact hH
      · exact absurd hid.symm (h.id_ne hq)
      · rw [hid] at hgt
        exact absurd hgt (lt_asymm hlt)

/-- The list holds the new element too. -/
theorem ofObj_eq (h : Grows H H' o ins) (ho : o ≠ .made ins.id) :
    ofObj H' o = insert ins (ofObj H o) := by
  ext op
  rw [Finset.mem_insert, mem_ofObj, mem_ofObj]
  constructor
  · intro ⟨hop, hobj⟩
    rcases h.new op hop with hH | rfl | ⟨hmade, -⟩
    · exact .inr ⟨hH, hobj⟩
    · exact .inl rfl
    · exact absurd (hobj.symm.trans hmade) ho
  · intro hop
    rcases hop with rfl | ⟨hop, hobj⟩
    · exact ⟨h.inserted, h.obj⟩
    · exact ⟨h.subset hop, hobj⟩

/-- **What is live at an element**: as before, and at the new one its map alone. -/
theorem liveElem_eq (h : Grows H H' o ins) (ho : Orderly H o) (hne : o ≠ .made ins.id)
    (e : OpId Actor) :
    liveElem H' o e = if e = ins.id then {ins} else liveElem H o e := by
  obtain ⟨after, hplace⟩ := h.place
  have hins : ins.element = some ins.id := by rw [Op.element, hplace]
  have hold : ∀ op ∈ H, op.element ≠ some ins.id := by
    intro op hop hel
    unfold Op.element at hel
    split at hel
    · cases hel
    · exact h.id_ne hop (Option.some.inj hel)
    · next e' hp =>
      obtain ⟨q, hq, hid⟩ := ho.elems op hop e' hp
      exact h.id_ne hq (hid.trans (Option.some.inj hel))
  -- nothing overwrites the new operation, and it overwrites nothing
  have hlive : ∀ op, op ∈ live (ofObj H' o) ↔ op = ins ∨ op ∈ live (ofObj H o) := by
    intro op
    rw [h.ofObj_eq hne, mem_live, mem_live]
    constructor
    · intro ⟨hop, hval, hpred⟩
      rcases Finset.mem_insert.mp hop with rfl | hop
      · exact .inl rfl
      · exact .inr ⟨hop, hval, fun q hq => hpred q (Finset.mem_insert_of_mem hq)⟩
    · intro hop
      rcases hop with rfl | ⟨hop, hval, hpred⟩
      · refine ⟨Finset.mem_insert_self _ _, by rw [h.action]; rfl, fun q hq hmem => ?_⟩
        rcases Finset.mem_insert.mp hq with rfl | hq
        · rw [h.pred] at hmem
          exact Finset.notMem_empty _ hmem
        · obtain ⟨q', hq', hid⟩ := ho.preds q (mem_ofObj.mp hq).1 _ hmem
          exact h.id_ne hq' hid
      · refine ⟨Finset.mem_insert_of_mem hop, hval, fun q hq => ?_⟩
        rcases Finset.mem_insert.mp hq with rfl | hq
        · rw [h.pred]
          exact Finset.notMem_empty _
        · exact hpred q hq
  ext op
  rw [mem_liveElem, hlive]
  by_cases he : e = ins.id
  · rw [if_pos he, Finset.mem_singleton, he]
    refine ⟨fun ⟨hop, hel⟩ => ?_, fun hop => ⟨.inl hop, by rw [hop, hins]⟩⟩
    rcases hop with hop | hop
    · exact hop
    · exact absurd hel (hold op (mem_ofObj.mp (mem_live.mp hop).1).1)
  · rw [if_neg he, mem_liveElem]
    refine ⟨fun ⟨hop, hel⟩ => ⟨?_, hel⟩, fun ⟨hop, hel⟩ => ⟨.inr hop, hel⟩⟩
    rcases hop with rfl | hop
    · exact absurd (Option.some.inj (hins.symm.trans hel)).symm he
    · exact hop

/-- **The elements**: those that were there, and the new one. -/
theorem element_iff (h : Grows H H' o ins) (ho : Orderly H o) (hne : o ≠ .made ins.id)
    (e : OpId Actor) : Element H' o e ↔ e = ins.id ∨ Element H o e := by
  unfold Element
  rw [h.liveElem_eq ho hne]
  by_cases he : e = ins.id
  · rw [if_pos he]
    exact ⟨fun _ => .inl he, fun _ =>
      ⟨⟨ins, h.inserted, h.obj, he.symm, h.place⟩, ins, Finset.mem_singleton_self ins⟩⟩
  · rw [if_neg he]
    constructor
    · intro ⟨⟨op, hop, hobj, hid, after, hplace⟩, hlive⟩
      rcases h.new op hop with hH | rfl | ⟨hmade, -⟩
      · exact .inr ⟨⟨op, hH, hobj, hid, after, hplace⟩, hlive⟩
      · exact absurd hid.symm he
      · exact absurd (hobj.symm.trans hmade) hne
    · intro hor
      rcases hor with hor | ⟨⟨op, hop, hrest⟩, hlive⟩
      · exact absurd hor he
      · exact ⟨⟨op, h.subset hop, hrest⟩, hlive⟩

end Grows

/-- **What `add_message` does to the history.** -/
theorem appendMessage_grows (hA : A.Documented) {d d' : Doc} {msg : CrdtMessage}
    (h : appendMessage A d msg = (.ok (), d')) : ∃ v o ins,
      A.getKey d .root "messages" = .ok (some (v, o)) ∧ Grows (A.history d)
      (A.history d') o ins := by
  rcases root_cases hA d with ⟨hget, -⟩ | ⟨v, o, hget, -⟩
  · unfold appendMessage at h
    rw [hget] at h
    cases h
  · unfold appendMessage at h
    simp only [hget] at h
    cases hins : A.insertObject d o (A.length d o) .map with
    | error e =>
      rw [hins] at h
      cases h
    | ok r =>
      obtain ⟨x, d₁⟩ := r
      obtain ⟨d₂, after, hput, -, hx, hH⟩ := hA.insert_putAll hins
        (Layout.messageFields_nodup A msg)
      rw [hins] at h
      simp only [hput] at h
      cases h
      have hmem : ∀ op, op ∈ A.history (A.commit d₂) ↔ op ∈ A.history d ∨
          op = insertOp (A.history d) (A.actor d) o after (.make .map) ∨
            op ∈ fieldOps (A.actor d) x (nextCounter (A.history d) + 1) (messageFields A msg) := by
        intro op
        rw [hA.history_commit, hH, Finset.mem_union, Finset.mem_insert]
      refine ⟨v, o, insertOp (A.history d) (A.actor d) o after (.make .map), hget, ?_⟩
      refine ⟨fun op hop => (hmem op).mpr (.inl hop), (hmem _).mpr (.inr (.inl rfl)), rfl,
        ⟨after, rfl⟩,
        rfl, rfl, fun op hop => lt_nextCounter hop, fun op hop => ?_⟩
      rcases (hmem op).mp hop with hold | hnew | hfield
      · exact .inl hold
      · exact .inr (.inl hnew)
      · obtain ⟨hobj, -, -, hcounter, -⟩ := mem_fieldOps hfield
        exact .inr (.inr ⟨hobj.trans hx, hcounter⟩)

/-- An object at a key of the root map has been made there. -/
theorem getKey_made (hA : A.Documented) {d : Doc} {key : String} {v : Value Scalar}
    {o : ObjId Actor} (hget : A.getKey d .root key = .ok (some (v, o))) :
    ∃ w ∈ A.history d, o = .made w.id ∧ w.obj = .root := by
  obtain ⟨r, hr, hreads⟩ := hA.getKey_ok d .root .map key rfl
  cases hget.symm.trans hr
  obtain ⟨w, hw, -, ho⟩ := hreads
  have hroot := (mem_ofObj.mp (mem_live.mp (mem_liveKey.mp hw.1).1).1).2
  exact ⟨w, liveKey_subset _ _ _ hw.1, ho, hroot⟩

/-- **An element that was there shows its message still.** -/
theorem Grows.showsAt_old (hA : A.Documented) {d d' : Doc} {ins w : Op Actor Scalar}
    (h : Grows (A.history d) (A.history d') (.made w.id) ins) (hw : w ∈ A.history d)
    (hwroot : w.obj = .root) (ho : Orderly (A.history d) (.made w.id)) {now : Int64}
    {e : OpId Actor} {msg : CrdtMessage} (he : Element (A.history d) (.made w.id) e)
    (hat : ShowsAt A d (.made w.id) now e msg) : ShowsAt A d' (.made w.id) now e msg := by
  obtain ⟨v, x, hreads, hmsg⟩ := hat
  have hid : e ≠ ins.id := by
    obtain ⟨⟨op, hop, -, hopid, -⟩, -⟩ := he
    rw [← hopid]
    exact h.id_ne hop
  obtain ⟨q, hq, hval, hx⟩ := hreads
  have hqH := liveElem_subset _ _ _ hq.1
  have hqobj := (mem_ofObj.mp (mem_live.mp (mem_liveElem.mp hq.1).1).1).2
  -- the message is no list that holds itself
  have hxo : x ≠ .made w.id := by
    intro hxo
    rw [hx] at hxo
    have heq := (hA.valid d).unique q hqH w hw (ObjId.made.inj hxo)
    rw [heq, hwroot] at hqobj
    cases hqobj
  refine ⟨v, x, ?_, ?_⟩
  · rw [h.liveElem_eq ho (fun hmade => h.id_ne hw (ObjId.made.inj hmade)), if_neg hid]
    exact ⟨q, hq, hval, hx⟩
  · rw [← hmsg]
    exact (readMessage_local hA (h.sameView hxo (.inr ⟨q, hqH, hx⟩)) now).symm

/-- **The new element shows one.** -/
theorem Grows.showsAt_new (hA : A.Documented) {d d' : Doc} {o : ObjId Actor} {ins : Op Actor Scalar}
    (h : Grows (A.history d) (A.history d') o ins) (ho : Orderly (A.history d) o)
    (hne : o ≠ .made ins.id) (now : Int64) : ∃ msg, ShowsAt A d' o now ins.id msg := by
  rcases readMessage_returns hA .wrapping d' (.made ins.id) now with ⟨⟨msg, hmsg⟩, -⟩ | ⟨-, hno⟩
  · refine ⟨msg, .object .map, .made ins.id, ?_, hmsg⟩
    rw [h.liveElem_eq ho hne, if_pos rfl]
    exact reads_singleton (by rw [h.action]; rfl)
  · exact absurd ⟨⟨.map, ins, h.inserted, rfl, h.action⟩, nofun⟩ hno

/-- **A room goes on showing its messages when one is added.** -/
theorem append_keeps (hA : L.automerge.Documented) {room room' : Room Key Doc} {msg : CrdtMessage}
    (h : appendMessage L.automerge room.doc msg = (.ok (), room'.doc))
    (horderly : ∀ v o, L.automerge.getKey room.doc .root "messages" = .ok (some (v, o)) →
      Orderly (L.automerge.history room.doc) o) : Keeps L room room' := by
  obtain ⟨v, o, ins, hget, hgrows⟩ := appendMessage_grows hA h
  have ho := horderly v o hget
  obtain ⟨w, hw, rfl, hwroot⟩ := getKey_made hA hget
  have hne : (.made w.id : ObjId Actor) ≠ .made ins.id :=
    fun hid => hgrows.id_ne hw (ObjId.made.inj hid)
  have hget' : L.automerge.getKey room'.doc .root "messages" = .ok (some (v, .made w.id)) := by
    rw [← (hA.local_reads _ _ .root (hgrows.sameView nofun (.inl rfl))).1, hget]
  obtain ⟨l, hnodup, hmem, hshows⟩ := listMessages_iff hA ho.list
  obtain ⟨l', hnodup', hmem', hshows'⟩ := listMessages_iff hA (ho.list.mono hgrows.subset)
  intro now msgs hmsgs
  unfold Room.getMessages at hmsgs
  rw [hget] at hmsgs
  have hall := (hshows now msgs).mp hmsgs
  -- the elements are those that were there, in some order, and the new one
  have hinsl : ins.id ∉ l := by
    intro hmem₁
    obtain ⟨⟨op, hop, -, hid, -⟩, -⟩ := (hmem _).mp hmem₁
    exact hgrows.id_ne hop hid
  have hperm : l'.Perm (ins.id :: l) := by
    refine (List.perm_ext_iff_of_nodup hnodup' (List.nodup_cons.mpr ⟨hinsl, hnodup⟩)).mpr fun e =>
      ?_
    rw [hmem', hgrows.element_iff ho hne, List.mem_cons, hmem]
  have hold : List.Forall₂ (ShowsAt L.automerge room'.doc (.made w.id) now) l msgs := by
    refine List.Forall₂.imp ?_ ((List.forall₂_and_left l msgs).mpr ⟨fun e he => he, hall⟩)
    exact fun e msg ⟨he, hat⟩ => hgrows.showsAt_old hA hw hwroot ho ((hmem e).mp he) hat
  obtain ⟨msg, hmsg⟩ := hgrows.showsAt_new hA ho hne now
  obtain ⟨msgs', hall', hmsgs'⟩ := List.perm_comp_forall₂ hperm (.cons hmsg hold)
  refine ⟨msgs', ?_, ?_⟩
  · unfold Room.getMessages
    rw [hget']
    exact (hshows' now msgs').mpr hall'
  · exact (List.sublist_cons_self msg msgs).subperm.trans hmsgs'.symm.subperm

end

end AlterChat.Crdt
