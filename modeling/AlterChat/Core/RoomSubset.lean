import AlterChat.Core.RoomLayout

/-!
# A room and a part of its history

What `get_messages` shows of a document, whatever stands in it, and of a document that lacks nothing
but lists `Room::new` has created: the same, or the first document's list is a new one and shows
nothing (`getMessages_subset`). `appendMessage_cases` is `add_message` on any document.
-/

namespace AlterChat.Crdt

open Lib Automerge

section

variable {Key Actor Scalar Doc : Type} [LinearOrder Actor] [DecidableEq Scalar]

/-- `add_message` of a document fails and leaves it, or appends. -/
theorem appendMessage_cases {A : Automerge Actor Scalar Doc} (hA : A.Documented) (d : Doc)
    (msg : CrdtMessage) :
    (∃ stop, appendMessage A d msg = (.error stop, d)) ∨
      ∃ d', appendMessage A d msg = (.ok (), d') := by
  unfold appendMessage
  split
  · exact .inl ⟨_, rfl⟩
  · exact .inl ⟨_, rfl⟩
  · next o _ =>
    split
    · exact .inl ⟨_, rfl⟩
    · next x d₁ hins =>
      obtain ⟨d₂, -, hput, -⟩ := hA.insert_putAll hins (Layout.messageFields_nodup A msg)
      rw [hput]
      exact .inr ⟨_, rfl⟩

/-- A list nothing is in. -/
theorem listMessages_empty {A : Automerge Actor Scalar Doc} (hA : A.Documented) {d : Doc}
    {o : ObjId Actor} (ho : IsObj (A.history d) o .list) (hno : ∀ op ∈ A.history d, op.obj ≠ o)
    (now : Int64) : listMessages A d o now = .ok [] := by
  obtain ⟨l, -, hmem, hlen, -⟩ := hA.list_reads d o ho
  have hnil : l = [] := by
    refine List.eq_nil_iff_forall_not_mem.mpr fun e he => ?_
    obtain ⟨⟨op, hop, hobj, -⟩, -⟩ := (hmem e).mp he
    exact hno op hop hobj
  unfold listMessages
  rw [hlen, hnil]
  rfl

/-- A message reads the same where its object looks the same. -/
theorem readMessage_local {A : Automerge Actor Scalar Doc} (hA : A.Documented) {d d' : Doc}
    {o : ObjId Actor} (h : SameView (A.history d) (A.history d') o) (now : Int64) :
    readMessage A d o now = readMessage A d' o now := by
  unfold readMessage unwrapKey
  rw [(hA.local_reads d d' o h).1]

/-- **A list shows the same** where it and the objects in it look the same. -/
theorem listMessages_local {A : Automerge Actor Scalar Doc} (hA : A.Documented) {d d' : Doc}
    {o : ObjId Actor} (h : SameView (A.history d) (A.history d') o)
    (hin : ∀ op ∈ A.history d, op.obj = o → SameView (A.history d) (A.history d') (.made op.id))
    (now : Int64) : listMessages A d o now = listMessages A d' o now := by
  obtain ⟨-, hindex, hlen⟩ := hA.local_reads d d' o h
  have key : ∀ is, readMessages A d o now .wrapping is = readMessages A d' o now .wrapping is := by
    intro is
    induction is with
    | nil => rfl
    | cons i rest ih =>
      unfold readMessages
      rw [← hindex, ih]
      split
      · rfl
      · rfl
      · next v x hget =>
        obtain ⟨op, hop, hobj, hx⟩ := hA.getIndex_mem d o i v x hget
        rw [hx, readMessage_local hA (hin op hop hobj)]
  unfold listMessages
  rw [hlen]
  exact key _

/-- The creation of a list by `Room::new`. -/
def IsCreation (op : Op Actor Scalar) : Prop := ∃ a, op = creation a

/-- All of `H` is in `H'`, but for lists `Room::new` has created. -/
structure Covers (H' H : Finset (Op Actor Scalar)) : Prop where
  subset : H' ⊆ H
  rest : ∀ op ∈ H, op ∈ H' ∨ IsCreation op

omit [LinearOrder Actor] [DecidableEq Scalar] in
theorem Covers.refl (H : Finset (Op Actor Scalar)) : Covers H H :=
  ⟨Finset.Subset.refl H, fun _ h => .inl h⟩

variable {H H' : Finset (Op Actor Scalar)}

omit [LinearOrder Actor] [DecidableEq Scalar] in
theorem Covers.mem_of_obj (h : Covers H' H) {op : Op Actor Scalar} (hop : op ∈ H)
    (ho : op.obj ≠ .root) : op ∈ H' := by
  rcases h.rest op hop with h | ⟨a, rfl⟩
  · exact h
  · exact absurd rfl ho

omit [DecidableEq Scalar] in
/-- The objects of the smaller set look the same in both. -/
theorem Covers.sameView (h : Covers H' H) (hv : Valid H) {op : Op Actor Scalar} (hop : op ∈ H') :
    SameView H H' (.made op.id) where
  ops := by
    ext x
    rw [mem_ofObj, mem_ofObj]
    constructor
    · intro ⟨hx, ho⟩
      refine ⟨h.mem_of_obj hx ?_, ho⟩
      rw [ho]
      exact nofun
    · intro ⟨hx, ho⟩
      exact ⟨h.subset hx, ho⟩
  maker := by
    intro i hi x hx
    cases hi
    refine ⟨fun hm => ?_, fun hm => h.subset hm⟩
    rw [hv.unique x hm op (h.subset hop) hx]
    exact hop

omit [DecidableEq Scalar] in
/-- What is live at a root key of the smaller set is live there in the larger. -/
theorem Covers.liveKey_subset (h : Covers H' H) (k : String) :
    liveKey H' .root k ⊆ liveKey H .root k := by
  intro x hx
  obtain ⟨hlive, hk⟩ := mem_liveKey.mp hx
  obtain ⟨hm, hval, hpred⟩ := mem_live.mp hlive
  obtain ⟨hx', hroot⟩ := mem_ofObj.mp hm
  refine mem_liveKey.mpr ⟨mem_live.mpr ⟨mem_ofObj.mpr ⟨h.subset hx', hroot⟩, hval, ?_⟩, hk⟩
  intro y hy
  obtain ⟨hyH, hyroot⟩ := mem_ofObj.mp hy
  -- what the smaller set lacks overwrites nothing
  rcases h.rest y hyH with hy' | ⟨a, rfl⟩
  · exact hpred y (mem_ofObj.mpr ⟨hy', hyroot⟩)
  · exact Finset.notMem_empty _

omit [DecidableEq Scalar] in
/-- The winner at a root key of the larger set, if the smaller has it, wins there too. -/
theorem Covers.wins (h : Covers H' H) {k : String} {op : Op Actor Scalar}
    (hw : Wins (liveKey H .root k) op) (hop : op ∈ H') : Wins (liveKey H' .root k) op := by
  obtain ⟨hm, hmax⟩ := hw
  obtain ⟨hlive, hk⟩ := mem_liveKey.mp hm
  obtain ⟨hobj, hval, hpred⟩ := mem_live.mp hlive
  obtain ⟨-, hroot⟩ := mem_ofObj.mp hobj
  refine ⟨mem_liveKey.mpr ⟨mem_live.mpr ⟨mem_ofObj.mpr ⟨hop, hroot⟩, hval, ?_⟩, hk⟩,
    fun x hx => hmax x (h.liveKey_subset k hx)⟩
  intro y hy
  obtain ⟨hy', hyroot⟩ := mem_ofObj.mp hy
  exact hpred y (mem_ofObj.mpr ⟨h.subset hy', hyroot⟩)

/-- **A document that has the list the whole one shows**, and lacks only new lists, shows the
    same. -/
theorem Covers.getMessages_eq {L : Libraries Key Actor Scalar Doc} (hA : L.automerge.Documented)
    {room room' : Room Key Doc}
    (hc : Covers (L.automerge.history room'.doc) (L.automerge.history room.doc))
    (hwin : ∀ w, Wins (liveKey (L.automerge.history room.doc) .root "messages") w →
      w ∈ L.automerge.history room'.doc) (now : Int64) :
    Room.getMessages L room now = Room.getMessages L room' now := by
  have hv := hA.valid room.doc
  obtain ⟨r, hr, hreads⟩ := hA.getKey_ok room.doc .root .map "messages" rfl
  obtain ⟨r', hr', hreads'⟩ := hA.getKey_ok room'.doc .root .map "messages" rfl
  have hu := (hA.valid room'.doc).unique.mono
    (Lib.liveKey_subset (L.automerge.history room'.doc) .root "messages")
  unfold Room.getMessages
  rw [hr, hr']
  cases r with
  | none =>
    have hempty : Reads (liveKey (L.automerge.history room'.doc) .root "messages") none :=
      Finset.subset_empty.mp (hreads ▸ hc.liveKey_subset "messages")
    rw [hreads'.unique hu hempty]
  | some r =>
    obtain ⟨v, x⟩ := r
    obtain ⟨w, hw, hval, rfl⟩ := hreads
    have hmem := hwin w hw
    -- both read the same object
    cases hreads'.unique hu ((hc.wins hw hmem).reads hval)
    refine listMessages_local hA (hc.sameView hv hmem) (fun op hop ho => ?_) now
    exact hc.sameView hv (hc.mem_of_obj hop (by rw [ho]; exact nofun))

/-- **A document that lacks only new lists shows what the whole one shows**, or the whole one shows
    nothing. -/
theorem getMessages_subset {L : Libraries Key Actor Scalar Doc} (hA : L.automerge.Documented)
    {room room' : Room Key Doc}
    (hc : Covers (L.automerge.history room'.doc) (L.automerge.history room.doc)) {now : Int64}
    {l : List CrdtMessage} (h : Room.getMessages L room now = .ok l) :
    l = [] ∨ Room.getMessages L room' now = .ok l := by
  have hv := hA.valid room.doc
  by_cases hwin : ∀ w, Wins (liveKey (L.automerge.history room.doc) .root "messages") w →
      w ∈ L.automerge.history room'.doc
  · exact .inr ((hc.getMessages_eq hA hwin now).symm.trans h)
  · -- the winner is a list the part does not know, so nothing is in it
    left
    obtain ⟨w, hwin⟩ := not_forall.mp hwin
    obtain ⟨hw, hmem⟩ := Classical.not_imp.mp hwin
    have hwH := Lib.liveKey_subset _ _ _ hw.1
    rcases hc.rest w hwH with hm | ⟨a, rfl⟩
    · exact absurd hm hmem
    · obtain ⟨r, hr, hreads⟩ := hA.getKey_ok room.doc .root .map "messages" rfl
      have hu := hv.unique.mono
        (Lib.liveKey_subset (L.automerge.history room.doc) .root "messages")
      have hvalue : (creation a : Op Actor Scalar).action.value = some (.object .list) := rfl
      rw [hreads.unique hu (hw.reads hvalue)] at hr
      unfold Room.getMessages at h
      rw [hr] at h
      have hlist : IsObj (L.automerge.history room.doc) (.made (creation a).id) .list :=
        ⟨creation a, hwH, rfl, rfl⟩
      have hno : ∀ op ∈ L.automerge.history room.doc, op.obj ≠ listOf a := by
        intro op hop ho
        have hop' := hc.mem_of_obj hop (by rw [ho]; exact nofun)
        obtain ⟨t, ht⟩ := (hA.valid room'.doc).causal op hop'
        rw [ho] at ht
        obtain ⟨m, hm, hid, -⟩ := ht
        have heq := hv.unique m (hc.subset hm) (creation a) hwH hid
        rw [heq] at hm
        exact hmem hm
      exact (Except.ok.inj ((listMessages_empty hA hlist hno now).symm.trans h)).symm

/-- **A room that is nothing but new lists shows nothing.** -/
theorem getMessages_creations {L : Libraries Key Actor Scalar Doc} (hA : L.automerge.Documented)
    {room : Room Key Doc} (hc : ∀ op ∈ L.automerge.history room.doc, IsCreation op) {now : Int64}
    {l : List CrdtMessage} (h : Room.getMessages L room now = .ok l) : l = [] := by
  let empty : Doc := L.automerge.new (L.automerge.actor room.doc)
  have hH : L.automerge.history empty = ∅ := hA.history_new _
  have hcover : Covers (L.automerge.history empty) (L.automerge.history room.doc) := by
    rw [hH]
    exact ⟨Finset.empty_subset _, fun op hop => .inr (hc op hop)⟩
  have hget : Room.getMessages L { room with doc := empty } now = .ok [] := by
    obtain ⟨r, hr, hreads⟩ := hA.getKey_ok empty .root .map "messages" rfl
    have hnone : Reads (liveKey (L.automerge.history empty) .root "messages") none := by
      rw [hH]
      rfl
    rw [hreads.unique ((hA.valid empty).unique.mono (liveKey_subset ..)) hnone] at hr
    unfold Room.getMessages
    rw [hr]
  have hsub : l = [] ∨ Room.getMessages L { room with doc := empty } now = .ok l :=
    getMessages_subset hA hcover h
  rcases hsub with hl | hl
  · exact hl
  · exact (Except.ok.inj (hget.symm.trans hl)).symm

end

end AlterChat.Crdt
