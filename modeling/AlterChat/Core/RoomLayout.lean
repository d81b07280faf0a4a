import AlterChat.Core.Crdt

/-!
# Rooms as lists of messages

A room that only `Room::new`, `add_message` and `merge` have worked on has a history of one shape:
some replicas have created a list under `"messages"`, and each message stands in one of these lists,
with its keys in a map of its own (`Layout`).

* `Layout.root_read`, `Layout.elements`, `Layout.key_read` -- what is read at each place;
* `Layout.getMessages` -- `get_messages` lists the messages of the list whose replica has the
  greatest actor id, and no others;
* `Layout.new`, `Layout.append`, `Layout.union` -- what the three operations make of it.
-/

namespace AlterChat.Crdt

open Lib Automerge

/-! ## 1. Layouts -/

/-- `Room::new` of a replica. -/
def creation {Actor Scalar : Type} (a : Actor) : Op Actor Scalar where
  id := ⟨1, a⟩
  obj := .root
  place := .key "messages"
  action := .make .list
  pred := ∅

/-- The list a replica has created. -/
def listOf {Actor : Type} (a : Actor) : ObjId Actor := .made ⟨1, a⟩

/-- A message and where it stands. -/
structure Entry (Actor : Type) where
  /-- Whose list it is in. -/
  list : Actor
  id : OpId Actor
  after : Option (OpId Actor)
  msg : CrdtMessage

def Entry.insertion {Actor Scalar : Type} (e : Entry Actor) : Op Actor Scalar where
  id := e.id
  obj := listOf e.list
  place := .insert e.after
  action := .make .map
  pred := ∅

section

variable {Actor Scalar Doc : Type} [LinearOrder Actor] [DecidableEq Scalar]

/-- What one `add_message` does. -/
def Entry.ops (A : Automerge Actor Scalar Doc) (e : Entry Actor) : Finset (Op Actor Scalar) :=
  insert e.insertion
    (fieldOps e.id.actor (.made e.id) (e.id.counter + 1) (messageFields A e.msg))

/-- **The shape of a history**: the lists the replicas `bases` have created, and the entries. -/
structure Layout (A : Automerge Actor Scalar Doc) (H : Finset (Op Actor Scalar))
    (bases : Set Actor) (entries : List (Entry Actor)) : Prop where
  mem : ∀ op, op ∈ H ↔ (∃ a ∈ bases, op = creation a) ∨ ∃ e ∈ entries, op ∈ e.ops A
  listed : ∀ e ∈ entries, e.list ∈ bases
  nodup : (entries.map Entry.id).Nodup

variable {A : Automerge Actor Scalar Doc} {H : Finset (Op Actor Scalar)} {bases : Set Actor}
  {entries : List (Entry Actor)}

theorem Entry.mem_ops {e : Entry Actor} {op : Op Actor Scalar} (h : op ∈ e.ops A) :
    op = e.insertion ∨ op.obj = .made e.id ∧ op.pred = ∅ ∧ op.id.actor = e.id.actor ∧
      ∃ f ∈ messageFields A e.msg, op.place = .key f.1 ∧ op.action = .set f.2 := by
  rcases Finset.mem_insert.mp h with rfl | h
  · exact .inl rfl
  · obtain ⟨ho, hp, ha, -, hf⟩ := mem_fieldOps h
    exact .inr ⟨ho, hp, ha, hf⟩

theorem Entry.actor_of_mem_ops {e : Entry Actor} {op : Op Actor Scalar} (h : op ∈ e.ops A) :
    op.id.actor = e.id.actor := by
  rcases Entry.mem_ops h with rfl | ⟨-, -, ha, -⟩
  · rfl
  · exact ha

theorem Entry.obj_ne_root {e : Entry Actor} {op : Op Actor Scalar} (h : op ∈ e.ops A) :
    op.obj ≠ .root := by
  rcases Entry.mem_ops h with rfl | ⟨ho, -⟩
  · exact nofun
  · rw [ho]
    exact nofun

namespace Layout

theorem creation_mem (hl : Layout A H bases entries) {a : Actor} (ha : a ∈ bases) :
    creation a ∈ H :=
  (hl.mem _).mpr (.inl ⟨a, ha, rfl⟩)

theorem ops_mem (hl : Layout A H bases entries) {e : Entry Actor} (he : e ∈ entries)
    {op : Op Actor Scalar} (h : op ∈ e.ops A) : op ∈ H :=
  (hl.mem _).mpr (.inr ⟨e, he, h⟩)

theorem insertion_mem (hl : Layout A H bases entries) {e : Entry Actor} (he : e ∈ entries) :
    e.insertion ∈ H :=
  hl.ops_mem he (Finset.mem_insert_self _ _)

/-- What an actor has done of a document is in another one that has the actor's list and entries. -/
theorem ops_by (hl : Layout A H bases entries) {H' : Finset (Op Actor Scalar)} {bases' : Set Actor}
    {entries' : List (Entry Actor)} (hl' : Layout A H' bases' entries') {x : Actor}
    (hbases : x ∈ bases → x ∈ bases') (hentries : ∀ e ∈ entries, e.id.actor = x → e ∈ entries') :
    ∀ op ∈ H, op.id.actor = x → op ∈ H' := by
  intro op hop hid
  rcases (hl.mem op).mp hop with ⟨a, ha, rfl⟩ | ⟨e, he, hops⟩
  · obtain rfl : a = x := hid
    exact hl'.creation_mem (hbases ha)
  · rw [Entry.actor_of_mem_ops hops] at hid
    exact hl'.ops_mem (hentries e he hid) hops

/-- Nothing is overwritten. -/
theorem pred_eq (hl : Layout A H bases entries) : ∀ op ∈ H, op.pred = ∅ := by
  intro op hop
  rcases (hl.mem op).mp hop with ⟨a, -, rfl⟩ | ⟨e, -, h⟩
  · rfl
  · rcases Entry.mem_ops h with rfl | ⟨-, hp, -⟩
    · rfl
    · exact hp

theorem mem_live (hl : Layout A H bases entries) {o : ObjId Actor} {op : Op Actor Scalar} :
    op ∈ live (ofObj H o) ↔ (op ∈ H ∧ op.obj = o) ∧ op.action.value.isSome = true := by
  rw [mem_live_of_pred fun op hop => hl.pred_eq op (mem_ofObj.mp hop).1, mem_ofObj]

/-- A list and a message have different ids. -/
theorem id_ne (hl : Layout A H bases entries) (hv : Valid H) {a : Actor} (ha : a ∈ bases)
    {e : Entry Actor} (he : e ∈ entries) : (⟨1, a⟩ : OpId Actor) ≠ e.id := by
  intro hid
  have h := hv.unique _ (hl.creation_mem ha) _ (hl.insertion_mem he) hid
  cases congrArg Op.obj h

theorem entry_inj (hl : Layout A H bases entries) {e e' : Entry Actor} (he : e ∈ entries)
    (he' : e' ∈ entries) (hid : e.id = e'.id) : e = e' :=
  List.inj_on_of_nodup_map hl.nodup he he' hid

/-- The operations on a list: the messages in it. -/
theorem mem_list (hl : Layout A H bases entries) (hv : Valid H) {a : Actor} (ha : a ∈ bases)
    {op : Op Actor Scalar} :
    op ∈ H ∧ op.obj = listOf a ↔ ∃ e ∈ entries, e.list = a ∧ op = e.insertion := by
  constructor
  · intro h
    obtain ⟨hop, ho⟩ := h
    rcases (hl.mem op).mp hop with ⟨b, -, rfl⟩ | ⟨e, he, hmem⟩
    · cases ho
    · rcases Entry.mem_ops hmem with rfl | ⟨hobj, -⟩
      · have hid : (⟨1, e.list⟩ : OpId Actor) = ⟨1, a⟩ := ObjId.made.inj ho
        exact ⟨e, he, congrArg OpId.actor hid, rfl⟩
      · rw [ho] at hobj
        exact absurd (ObjId.made.inj hobj) (hl.id_ne hv ha he)
  · intro h
    obtain ⟨e, he, rfl, rfl⟩ := h
    exact ⟨hl.insertion_mem he, rfl⟩

/-- The operations on a message: its keys. -/
theorem mem_message (hl : Layout A H bases entries) (hv : Valid H) {e : Entry Actor}
    (he : e ∈ entries) {op : Op Actor Scalar} (hop : op ∈ H) (ho : op.obj = .made e.id) :
    ∃ f ∈ messageFields A e.msg, op.place = .key f.1 ∧ op.action = .set f.2 := by
  rcases (hl.mem op).mp hop with ⟨b, -, rfl⟩ | ⟨e', he', hmem⟩
  · cases ho
  · rcases Entry.mem_ops hmem with rfl | ⟨hobj, -, -, hf⟩
    · exact absurd (ObjId.made.inj ho) (hl.id_ne hv (hl.listed e' he') he)
    · rw [ho] at hobj
      cases hl.entry_inj he he' (ObjId.made.inj hobj)
      exact hf

/-! ## 2. Reading -/

/-- **The list under `"messages"` is the one of the greatest actor.** -/
theorem root_read (hA : A.Documented) {d : Doc} (hl : Layout A (A.history d) bases entries)
    {a : Actor} (ha : IsGreatest bases a) :
    A.getKey d .root "messages" = .ok (some (.object .list, listOf a)) := by
  obtain ⟨r, hr, hreads⟩ := hA.getKey_ok d .root .map "messages" rfl
  have hmem : ∀ op : Op Actor Scalar, op ∈ liveKey (A.history d) .root "messages" ↔
      ∃ b ∈ bases, op = creation b := by
    intro op
    rw [mem_liveKey, hl.mem_live]
    constructor
    · intro ⟨⟨⟨hop, ho⟩, _⟩, _⟩
      rcases (hl.mem op).mp hop with h | ⟨e, -, h⟩
      · exact h
      · exact absurd ho (Entry.obj_ne_root h)
    · intro ⟨b, hb, h⟩
      rw [h]
      exact ⟨⟨⟨hl.creation_mem hb, rfl⟩, rfl⟩, rfl⟩
  have hwins : Wins (liveKey (A.history d) .root "messages") (creation a : Op Actor Scalar) := by
    refine ⟨(hmem _).mpr ⟨a, ha.1, rfl⟩, fun op hop => ?_⟩
    obtain ⟨b, hb, rfl⟩ := (hmem op).mp hop
    exact OpId.le_iff.mpr (.inr ⟨rfl, ha.2 hb⟩)
  have hu : UniqueIds (liveKey (A.history d) .root "messages") :=
    (hA.valid d).unique.mono (liveKey_subset ..)
  rw [hr, hreads.unique hu (hwins.reads rfl)]
  rfl

/-- What is live at an element of a list. -/
theorem liveElem_eq (hl : Layout A H bases entries) (hv : Valid H) {e : Entry Actor}
    (he : e ∈ entries) : liveElem H (listOf e.list) e.id = {e.insertion} := by
  ext op
  rw [mem_liveElem, hl.mem_live, Finset.mem_singleton, hl.mem_list hv (hl.listed e he)]
  constructor
  · intro ⟨⟨⟨e', he', _, hop⟩, _⟩, helem⟩
    subst hop
    have hid : e'.id = e.id := Option.some.inj helem
    rw [hl.entry_inj he' he hid]
  · intro h
    subst h
    exact ⟨⟨⟨e, he, rfl, rfl⟩, rfl⟩, rfl⟩

/-- **The elements of a list are the messages in it**, in some order. -/
theorem elements (hA : A.Documented) {d : Doc} (hl : Layout A (A.history d) bases entries)
    {a : Actor} (ha : a ∈ bases) :
    ∃ order : List (Entry Actor), order.Perm (entries.filter fun e => decide (e.list = a)) ∧
      A.length d (listOf a) = order.length ∧
      ∀ i e, order[i]? = some e →
        A.getIndex d (listOf a) i = .ok (some (.object .map, .made e.id)) := by
  have hv := hA.valid d
  obtain ⟨l, hnd, hmem, hlen, hget⟩ :=
    hA.list_reads d (listOf a) ⟨creation a, hl.creation_mem ha, rfl, rfl⟩
  have hentry : ∀ x, x ∈ l ↔ ∃ e ∈ entries, e.list = a ∧ e.id = x := by
    intro x
    rw [hmem]
    constructor
    · intro ⟨⟨op, hop, ho, hid, _⟩, _⟩
      obtain ⟨e, he, hea, rfl⟩ := (hl.mem_list hv ha).mp ⟨hop, ho⟩
      exact ⟨e, he, hea, hid⟩
    · intro ⟨e, he, hea, hid⟩
      subst hea hid
      refine ⟨⟨e.insertion, hl.insertion_mem he, rfl, rfl, e.after, rfl⟩, ?_⟩
      rw [hl.liveElem_eq hv he]
      exact Finset.singleton_nonempty _
  have hperm : l.Perm ((entries.filter fun e => decide (e.list = a)).map Entry.id) := by
    have hnd' : ((entries.filter fun e => decide (e.list = a)).map Entry.id).Nodup :=
      hl.nodup.sublist (List.filter_sublist.map _)
    refine (List.perm_ext_iff_of_nodup hnd hnd').mpr fun x => ?_
    rw [hentry, List.mem_map]
    simp only [List.mem_filter, decide_eq_true_eq, and_assoc]
  have hcomp := congrFun (congrFun (List.eq_map_comp_perm (fun e : Entry Actor => e.id)) l)
    (entries.filter fun e => decide (e.list = a))
  obtain ⟨order, horder, hp⟩ := hcomp.mpr hperm
  refine ⟨order, hp, by rw [hlen, horder, List.length_map], fun i e hi => ?_⟩
  have hi' : l[i]? = some e.id := by rw [horder, List.getElem?_map, hi]; rfl
  obtain ⟨he, hea⟩ := List.mem_filter.mp (hp.mem_iff.mp (List.mem_of_getElem? hi))
  obtain ⟨r, hr, hreads⟩ := hget i e.id hi'
  rw [← of_decide_eq_true hea] at hreads hr ⊢
  rw [hl.liveElem_eq hv he] at hreads
  have hu : UniqueIds {(e.insertion : Op Actor Scalar)} :=
    hv.unique.mono (Finset.singleton_subset_iff.mpr (hl.insertion_mem he))
  rw [hr, hreads.unique hu (reads_singleton rfl)]
  rfl

omit [LinearOrder Actor] [DecidableEq Scalar] in
theorem messageFields_nodup (A : Automerge Actor Scalar Doc) (msg : CrdtMessage) :
    ((messageFields A msg).map fun f => f.1).Nodup := by
  unfold messageFields
  cases msg.ttl <;> simp

/-- **A key of a message** is read as it was assigned, or as nothing. -/
theorem key_read (hA : A.Documented) {d : Doc} (hl : Layout A (A.history d) bases entries)
    {e : Entry Actor} (he : e ∈ entries) (k : String) :
    ∃ r, A.getKey d (.made e.id) k = .ok r ∧
      (∀ s, (k, s) ∈ messageFields A e.msg → r.map (fun v => v.1) = some (.scalar s)) ∧
      ((∀ s, (k, s) ∉ messageFields A e.msg) → r = none) := by
  have hv := hA.valid d
  obtain ⟨r, hr, hreads⟩ := hA.getKey_ok d (.made e.id) .map k
    ⟨e.insertion, hl.insertion_mem he, rfl, rfl⟩
  -- whatever is live at the key assigns it
  have hfield : ∀ op ∈ liveKey (A.history d) (.made e.id) k,
      ∃ s, (k, s) ∈ messageFields A e.msg ∧ op.action = .set s := by
    intro op hop
    obtain ⟨hlive, hk⟩ := mem_liveKey.mp hop
    obtain ⟨⟨hm, ho⟩, -⟩ := hl.mem_live.mp hlive
    obtain ⟨⟨k', s⟩, hf, hk', hs⟩ := hl.mem_message hv he hm ho
    rw [hk] at hk'
    cases hk'
    exact ⟨s, hf, hs⟩
  refine ⟨r, hr, fun s hs => ?_, fun hnone => ?_⟩
  · obtain ⟨op, hop, hplace, hact⟩ := exists_fieldOps (a := e.id.actor) (o := ObjId.made e.id)
      (n := e.id.counter + 1) hs
    have hops : op ∈ e.ops A := Finset.mem_insert_of_mem hop
    have hlive : op ∈ liveKey (A.history d) (.made e.id) k := by
      refine mem_liveKey.mpr ⟨hl.mem_live.mpr ⟨⟨hl.ops_mem he hops, (mem_fieldOps hop).1⟩, ?_⟩,
        hplace⟩
      rw [hact]
      rfl
    cases r with
    | none =>
      rw [show liveKey _ _ _ = ∅ from hreads] at hlive
      exact absurd hlive (Finset.notMem_empty _)
    | some r =>
      obtain ⟨v, x⟩ := r
      obtain ⟨w, hw, hval, -⟩ := hreads
      obtain ⟨s', hs', hact'⟩ := hfield w hw.1
      have heq : (k, s') = (k, s) :=
        List.inj_on_of_nodup_map (messageFields_nodup A e.msg) hs' hs rfl
      cases heq
      rw [hact'] at hval
      cases hval
      rfl
  · cases r with
    | none => rfl
    | some r =>
      obtain ⟨v, x⟩ := r
      obtain ⟨w, hw, -, -⟩ := hreads
      obtain ⟨s', hs', -⟩ := hfield w hw.1
      exact absurd hs' (hnone s')

/-- The key, read through `unwrap`. -/
theorem unwrapKey_of_mem (hA : A.Documented) {d : Doc}
    (hl : Layout A (A.history d) bases entries) {e : Entry Actor} (he : e ∈ entries) {k : String}
    {s : Scalar} (hs : (k, s) ∈ messageFields A e.msg) :
    unwrapKey A d (.made e.id) k = .ok (some (.scalar s)) := by
  obtain ⟨r, hr, hval, -⟩ := hl.key_read hA he k
  unfold unwrapKey
  rw [hr]
  exact congrArg Except.ok (hval s hs)

theorem unwrapKey_of_not_mem (hA : A.Documented) {d : Doc}
    (hl : Layout A (A.history d) bases entries) {e : Entry Actor} (he : e ∈ entries) {k : String}
    (hs : ∀ s, (k, s) ∉ messageFields A e.msg) : unwrapKey A d (.made e.id) k = .ok none := by
  obtain ⟨r, hr, -, hval⟩ := hl.key_read hA he k
  unfold unwrapKey
  rw [hr, hval hs]
  rfl

/-- **A message is read as it was written.** -/
theorem readMessage_eq (hA : A.Documented) {d : Doc} (hl : Layout A (A.history d) bases entries)
    {e : Entry Actor} (he : e ∈ entries) (now : Int64) :
    readMessage A d (.made e.id) now = .ok (e.msg.shown now) := by
  have hpeer : A.valueStr (.scalar (A.str e.msg.peerId)) = some e.msg.peerId := hA.toStr_str _
  have hsender : A.valueStr (.scalar (A.str e.msg.sender)) = some e.msg.sender := hA.toStr_str _
  have htext : A.valueStr (.scalar (A.str e.msg.text)) = some e.msg.text := hA.toStr_str _
  have htime : A.valueI64 (.scalar (A.int e.msg.timestamp)) = some e.msg.timestamp :=
    hA.toI64_int _
  have hpeerKey : ((A.getKey d (.made e.id) "peer_id").toOption.join.bind
      fun v => A.valueStr v.1) = some e.msg.peerId := by
    obtain ⟨r, hr, hval, -⟩ := hl.key_read hA he "peer_id"
    have hv := hval (A.str e.msg.peerId) (by simp [messageFields])
    rw [hr]
    obtain ⟨v, hrv, hv'⟩ := Option.map_eq_some_iff.mp hv
    subst hrv
    show A.valueStr v.1 = _
    rw [hv', hpeer]
  have httl : unwrapKey A d (.made e.id) "ttl" =
      .ok (e.msg.ttl.map fun t => .scalar (A.int t)) := by
    cases ht : e.msg.ttl with
    | none => exact hl.unwrapKey_of_not_mem hA he (by simp [messageFields, ht])
    | some t => exact hl.unwrapKey_of_mem hA he (by simp [messageFields, ht])
  have hbind : ((e.msg.ttl.map fun t => Value.scalar (A.int t)).bind A.valueI64) = e.msg.ttl := by
    cases e.msg.ttl with
    | none => rfl
    | some t => exact hA.toI64_int t
  unfold readMessage
  rw [hpeerKey, hl.unwrapKey_of_mem hA he (s := A.str e.msg.sender) (by simp [messageFields]),
    hl.unwrapKey_of_mem hA he (s := A.str e.msg.text) (by simp [messageFields]),
    hl.unwrapKey_of_mem hA he (s := A.int e.msg.timestamp) (by simp [messageFields]), httl]
  simp only [bind, Except.bind, Option.bind_some, hsender, htext, htime, hbind, Option.getD_some]
  exact e.msg.read_wrapping now

omit [LinearOrder Actor] [DecidableEq Scalar] in
/-- The loop over places that hold the messages of a list of entries. -/
theorem readMessages_eq {d : Doc} {o : ObjId Actor} {now : Int64} {is : List Nat}
    {order : List (Entry Actor)}
    (h : List.Forall₂ (fun i e => A.getIndex d o i = .ok (some (.object .map, .made e.id)) ∧
      readMessage A d (.made e.id) now = .ok (e.msg.shown now)) is order) :
    readMessages A d o now .wrapping is = .ok (order.map fun e => e.msg.shown now) := by
  induction h with
  | nil => rfl
  | cons h _ ih =>
    obtain ⟨hget, hmsg⟩ := h
    unfold readMessages
    rw [hget]
    simp only [hmsg, ih]
    rfl

/-- **`get_messages` lists the messages of the greatest actor's list, and no others.** -/
theorem getMessages_eq {Key : Type} {L : Libraries Key Actor Scalar Doc}
    (hA : L.automerge.Documented) {room : Room Key Doc}
    (hl : Layout L.automerge (L.automerge.history room.doc) bases entries) {a : Actor}
    (ha : IsGreatest bases a) (now : Int64) :
    ∃ order : List (Entry Actor), order.Perm (entries.filter fun e => decide (e.list = a)) ∧
      Room.getMessages L room now = .ok (order.map fun e => e.msg.shown now) := by
  obtain ⟨order, hp, hlen, hget⟩ := hl.elements hA ha.1
  refine ⟨order, hp, ?_⟩
  unfold Room.getMessages
  rw [hl.root_read hA ha]
  show listMessages L.automerge room.doc (listOf a) now = _
  unfold listMessages
  rw [hlen]
  refine readMessages_eq (List.forall₂_iff_get.mpr ⟨List.length_range, fun i hi hi' => ?_⟩)
  have hmem : order.get ⟨i, hi'⟩ ∈ entries :=
    (List.mem_filter.mp (hp.mem_iff.mp (List.get_mem ..))).1
  have hi₂ : order[i]? = some (order.get ⟨i, hi'⟩) := List.getElem?_eq_getElem hi'
  refine ⟨?_, hl.readMessage_eq hA hmem now⟩
  rw [List.get_eq_getElem, List.getElem_range]
  exact hget i _ hi₂

/-! ## 3. Writing -/

/-- A new room. -/
theorem new {Key : Type} {L : Libraries Key Actor Scalar Doc} (hA : L.automerge.Documented)
    (a : Actor) (id : String) (password : Option String) :
    ∃ room, Room.new L a id password = .ok room ∧ L.automerge.actor room.doc = a ∧
      room.id = id ∧ room.encryptionKey = deriveRoomKey L id password ∧
      Layout L.automerge (L.automerge.history room.doc) {a} [] := by
  obtain ⟨d, hput, hH, hact⟩ := hA.putObject_ok (L.automerge.new a) .root "messages" .list rfl
  rw [hA.history_new, hA.actor_new] at hH hput
  rw [hA.actor_new] at hact
  refine ⟨{ id, doc := d, encryptionKey := deriveRoomKey L id password }, ?_, hact, rfl, rfl, ?_⟩
  · unfold Room.new
    rw [hput]
  · have hop : keyOp ∅ a .root "messages" (.make .list) = (creation a : Op Actor Scalar) := rfl
    rw [hH, hop]
    refine ⟨fun op => ?_, fun e he => absurd he List.not_mem_nil, List.nodup_nil⟩
    simp

/-- **One `add_message`**: one more entry, under the next id of the replica and in the list it
    sees. -/
theorem append (hA : A.Documented) {d : Doc} (hl : Layout A (A.history d) bases entries) {a : Actor}
    (ha : IsGreatest bases a) (msg : CrdtMessage) :
    ∃ d' e, appendMessage A d msg = (.ok (), d') ∧ A.actor d' = A.actor d ∧ e.list = a ∧
      e.id.actor = A.actor d ∧ e.msg = msg ∧ Layout A (A.history d') bases (entries ++ [e]) := by
  obtain ⟨⟨x, d₁⟩, hins⟩ := hA.insertObject_ok d (listOf a) (A.length d (listOf a)) .map
    ⟨creation a, hl.creation_mem ha.1, rfl, rfl⟩ le_rfl
  obtain ⟨d₂, after, hput, hact₂, rfl, hH₂⟩ := hA.insert_putAll hins (messageFields_nodup A msg)
  let e : Entry Actor := { list := a, id := ⟨nextCounter (A.history d), A.actor d⟩, after, msg }
  have hfresh : ∀ op ∈ A.history d, op.id ≠ e.id := by
    intro op hm hid
    have hlt := lt_nextCounter hm
    rw [hid] at hlt
    exact lt_irrefl _ hlt
  refine ⟨A.commit d₂, e, ?_, by rw [hA.actor_commit, hact₂], rfl, rfl, rfl, ?_⟩
  · unfold appendMessage
    rw [hl.root_read hA ha]
    simp only [hins, hput]
  · rw [hA.history_commit, hH₂]
    refine ⟨fun op => ?_, fun e' he' => ?_, ?_⟩
    · rw [Finset.mem_union, hl.mem, or_assoc]
      simp only [List.mem_append, List.mem_singleton, or_and_right, exists_or, exists_eq_left]
      rfl
    · rcases List.mem_append.mp he' with he' | he'
      · exact hl.listed e' he'
      · rw [List.mem_singleton.mp he']
        exact ha.1
    · rw [List.map_append, List.map_singleton]
      refine List.Nodup.append hl.nodup (List.nodup_singleton _) ?_
      intro i hi hi'
      obtain ⟨e', he', rfl⟩ := List.mem_map.mp hi
      exact hfresh _ (hl.insertion_mem he') (List.mem_singleton.mp hi')

/-- **The union of two layouts** that agree where they overlap. -/
theorem union {H' : Finset (Op Actor Scalar)} {bases' bases'' : Set Actor}
    {entries' entries'' : List (Entry Actor)} (hl : Layout A H bases entries)
    (hl' : Layout A H' bases' entries') (hb : ∀ a, a ∈ bases'' ↔ a ∈ bases ∨ a ∈ bases')
    (he : ∀ e, e ∈ entries'' ↔ e ∈ entries ∨ e ∈ entries') (hn : (entries''.map Entry.id).Nodup) :
    Layout A (H ∪ H') bases'' entries'' where
  mem op := by
    rw [Finset.mem_union, hl.mem, hl'.mem]
    simp only [hb, he, or_and_right, exists_or]
    exact or_or_or_comm ..
  listed e hmem := by
    rcases (he e).mp hmem with h | h
    · exact (hb _).mpr (.inl (hl.listed e h))
    · exact (hb _).mpr (.inr (hl'.listed e h))
  nodup := hn

end Layout

end

end AlterChat.Crdt
