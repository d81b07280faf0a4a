import AlterChat.Lib.Automerge
import Mathlib.Data.List.MinMax
import Mathlib.Data.Finset.Sort
import Mathlib.Order.WithBot
import Mathlib.Logic.Equiv.Finset
import Mathlib.Tactic.DeriveEncodable

/-!
# Documents that are their operations

`OpDoc` is a document that keeps its list of operations; `opDocs` are the calls of `Automerge` on
it, for a format of the list, and `opDocs_documented` says that they keep every promise of
`Automerge.Documented`. The elements of a list stand in the order of a replicated growable array
(`rga`): in the order of their ids each is put right behind the element it names.
-/

namespace Lib

deriving instance Encodable for OpId, ObjType, ObjId, Place, Action

/-- The scalars a chat room uses. -/
inductive Plain where
  | str (s : String)
  | int (i : Int64)
  deriving DecidableEq, Encodable

abbrev PlainOp := Op Nat Plain

instance : Encodable PlainOp :=
  Encodable.ofLeftInverse (fun op => (op.id, op.obj, op.place, op.action, op.pred))
    (fun t => { id := t.1, obj := t.2.1, place := t.2.2.1, action := t.2.2.2.1, pred := t.2.2.2.2 })
    fun _ => rfl

instance (H : Finset PlainOp) (o : ObjId Nat) (t : ObjType) : Decidable (IsObj H o t) :=
  match o with
  | .root => inferInstanceAs (Decidable (t = .map))
  | .made i => inferInstanceAs (Decidable (∃ op ∈ H, op.id = i ∧ op.action = .make t))

/-- An object, of whichever type. -/
def IsAnyObj (H : Finset PlainOp) (o : ObjId Nat) : Prop :=
  IsObj H o .map ∨ IsObj H o .list ∨ IsObj H o .text

instance (H : Finset PlainOp) (o : ObjId Nat) : Decidable (IsAnyObj H o) :=
  inferInstanceAs (Decidable (_ ∨ _ ∨ _))

theorem isAnyObj_iff {H : Finset PlainOp} {o : ObjId Nat} : IsAnyObj H o ↔ ∃ t, IsObj H o t := by
  refine ⟨fun h => ?_, fun ⟨t, h⟩ => ?_⟩
  · rcases h with h | h | h
    · exact ⟨_, h⟩
    · exact ⟨_, h⟩
    · exact ⟨_, h⟩
  · cases t with
    | map => exact .inl h
    | list => exact .inr (.inl h)
    | text => exact .inr (.inr h)

instance (H : Finset PlainOp) : Decidable (Valid H) :=
  decidable_of_iff ((∀ a ∈ H, ∀ b ∈ H, a.id = b.id → a = b) ∧ ∀ op ∈ H, IsAnyObj H op.obj)
    ⟨fun h => ⟨h.1, fun op hop => isAnyObj_iff.mp (h.2 op hop)⟩,
      fun h => ⟨h.unique, fun op hop => isAnyObj_iff.mpr (h.causal op hop)⟩⟩

/-- A document: its actor and its operations. -/
structure OpDoc where
  actor : Nat
  ops : List PlainOp
  valid : Valid ops.toFinset

namespace OpDoc

/-! ## 1. Reading -/

/-- The value of the winner among the operations that meet a condition. -/
def readAt (ops : List PlainOp) (T : Finset PlainOp) : Option (Value Plain × ObjId Nat) :=
  ((ops.filter fun op => decide (op ∈ T)).argmax fun op => op.id).bind fun op =>
    op.action.value.map fun v => (v, .made op.id)

theorem reads_readAt {ops : List PlainOp} {T : Finset PlainOp} (hT : T ⊆ ops.toFinset)
    (hv : ∀ op ∈ T, op.action.value.isSome = true) : Reads T (readAt ops T) := by
  have hmem : ∀ op, op ∈ (ops.filter fun op => decide (op ∈ T)) ↔ op ∈ T := by
    intro op
    simp only [List.mem_filter, decide_eq_true_eq, and_iff_right_iff_imp]
    exact fun h => List.mem_toFinset.mp (hT h)
  unfold readAt
  cases hm : (ops.filter fun op => decide (op ∈ T)).argmax fun op => op.id with
  | none =>
    have hnil := List.argmax_eq_none.mp hm
    refine Finset.eq_empty_of_forall_notMem fun op hop => ?_
    rw [← hmem, hnil] at hop
    exact List.not_mem_nil hop
  | some op =>
    have hop : op ∈ T := (hmem op).mp (List.argmax_mem hm)
    obtain ⟨v, hval⟩ := Option.isSome_iff_exists.mp (hv op hop)
    rw [Option.bind_some, hval]
    refine ⟨op, ⟨hop, fun op' hop' => ?_⟩, hval, rfl⟩
    exact List.le_of_mem_argmax (f := fun op : PlainOp => op.id) ((hmem op').mpr hop') hm

theorem readAt_mem {ops : List PlainOp} {T : Finset PlainOp} {v : Value Plain} {x : ObjId Nat}
    (h : readAt ops T = some (v, x)) : ∃ op ∈ T, x = .made op.id := by
  unfold readAt at h
  obtain ⟨op, hm, hv⟩ := Option.bind_eq_some_iff.mp h
  obtain ⟨v', -, hx⟩ := Option.map_eq_some_iff.mp hv
  cases hx
  exact ⟨op, of_decide_eq_true (List.mem_filter.mp (List.argmax_mem hm)).2, rfl⟩

/-- What is read does not depend on the order of the operations. -/
theorem readAt_congr {ops ops' : List PlainOp} {T : Finset PlainOp} (hT : T ⊆ ops.toFinset)
    (hT' : T ⊆ ops'.toFinset) (hu : UniqueIds ops.toFinset)
    (hv : ∀ op ∈ T, op.action.value.isSome = true) : readAt ops T = readAt ops' T :=
  (reads_readAt hT hv).unique (hu.mono hT) (reads_readAt hT' hv)

/-- The insertions into an object: the new element, and the one it stands behind. -/
def insertions (H : Finset PlainOp) (o : ObjId Nat) :
    Finset (OpId Nat ×ₗ WithBot (OpId Nat)) :=
  (ofObj H o).biUnion fun op =>
    match op.place with
    | .insert after => {toLex (op.id, after)}
    | _ => ∅

/-- `e` right behind `after`, or in front; at the end where `after` is not there. -/
def insertAfter (after : Option (OpId Nat)) (e : OpId Nat) : List (OpId Nat) → List (OpId Nat)
  | [] => [e]
  | x :: xs =>
    if after = none then e :: x :: xs
    else if after = some x then x :: e :: xs
    else x :: insertAfter after e xs

theorem insertAfter_perm (after : Option (OpId Nat)) (e : OpId Nat) (l : List (OpId Nat)) :
    (insertAfter after e l).Perm (e :: l) := by
  induction l with
  | nil => exact .refl _
  | cons x xs ih =>
    unfold insertAfter
    split
    · exact .refl _
    · split
      · exact .swap _ _ _
      · exact (ih.cons x).trans (.swap _ _ _)

/-- **The order of a replicated growable array.** -/
def rga (l : List (OpId Nat ×ₗ WithBot (OpId Nat))) : List (OpId Nat) :=
  l.foldl (fun order p => insertAfter (ofLex p).2 (ofLex p).1 order) []

theorem rga_perm (l : List (OpId Nat ×ₗ WithBot (OpId Nat))) :
    (rga l).Perm (l.map fun p => (ofLex p).1) := by
  have key : ∀ (l : List (OpId Nat ×ₗ WithBot (OpId Nat))) (order : List (OpId Nat)),
      (l.foldl (fun order p => insertAfter (ofLex p).2 (ofLex p).1 order) order).Perm
        (l.map (fun p => (ofLex p).1) ++ order) := by
    intro l
    induction l with
    | nil => exact fun order => .refl _
    | cons p l ih =>
      intro order
      rw [List.foldl_cons]
      refine (ih _).trans ?_
      refine ((insertAfter_perm _ _ _).append_left _).trans ?_
      exact List.perm_middle
  have h := key l []
  rwa [List.append_nil] at h

/-- The elements of a list in their order. -/
def elements (H : Finset PlainOp) (o : ObjId Nat) : List (OpId Nat) :=
  (rga ((insertions H o).sort)).filter fun e => decide ((liveElem H o e).Nonempty)

theorem mem_insertions {H : Finset PlainOp} {o : ObjId Nat}
    {p : OpId Nat ×ₗ WithBot (OpId Nat)} :
    p ∈ insertions H o ↔
      ∃ op ∈ H, op.obj = o ∧ ∃ after, op.place = .insert after ∧ p = toLex (op.id, after) := by
  unfold insertions
  rw [Finset.mem_biUnion]
  constructor
  · intro h
    obtain ⟨op, hop, hp⟩ := h
    obtain ⟨hm, ho⟩ := mem_ofObj.mp hop
    split at hp
    · next after hplace => exact ⟨op, hm, ho, after, hplace, Finset.mem_singleton.mp hp⟩
    · exact absurd hp (Finset.notMem_empty _)
  · intro h
    obtain ⟨op, hm, ho, after, hplace, rfl⟩ := h
    refine ⟨op, mem_ofObj.mpr ⟨hm, ho⟩, ?_⟩
    rw [hplace]
    exact Finset.mem_singleton_self _

theorem nodup_elements {H : Finset PlainOp} (hu : UniqueIds H) (o : ObjId Nat) :
    (elements H o).Nodup := by
  refine List.Nodup.filter _ ((rga_perm _).nodup_iff.mpr ?_)
  refine List.Nodup.map_on ?_ (Finset.sort_nodup ..)
  intro p hp q hq hpq
  obtain ⟨a, ha, -, after, hplace, rfl⟩ := mem_insertions.mp ((Finset.mem_sort _).mp hp)
  obtain ⟨b, hb, -, after', hplace', rfl⟩ := mem_insertions.mp ((Finset.mem_sort _).mp hq)
  cases hu a ha b hb hpq
  rw [hplace] at hplace'
  cases hplace'
  rfl

theorem mem_elements {H : Finset PlainOp} {o : ObjId Nat} {e : OpId Nat} :
    e ∈ elements H o ↔ Automerge.Element H o e := by
  unfold elements Automerge.Element
  rw [List.mem_filter, decide_eq_true_eq, (rga_perm _).mem_iff, List.mem_map]
  refine and_congr_left fun _ => ⟨fun h => ?_, fun h => ?_⟩
  · obtain ⟨p, hp, rfl⟩ := h
    obtain ⟨op, hm, ho, after, hplace, rfl⟩ := mem_insertions.mp ((Finset.mem_sort _).mp hp)
    exact ⟨op, hm, ho, rfl, after, hplace⟩
  · obtain ⟨op, hm, ho, rfl, after, hplace⟩ := h
    exact ⟨_, (Finset.mem_sort _).mpr (mem_insertions.mpr ⟨op, hm, ho, after, hplace, rfl⟩), rfl⟩

theorem elements_congr {H H' : Finset PlainOp} {o : ObjId Nat} (h : SameView H H' o) :
    elements H o = elements H' o := by
  have hins : insertions H o = insertions H' o := by
    unfold insertions
    rw [h.ops]
  unfold elements
  rw [hins]
  exact List.filter_congr fun e _ => by rw [h.liveElem]

/-! ## 2. The calls -/

abbrev history (d : OpDoc) : Finset PlainOp := d.ops.toFinset

/-- The document with one more operation. -/
def add (d : OpDoc) (op : PlainOp) (hc : op.id.counter = nextCounter d.history)
    (ho : ∃ t, IsObj d.history op.obj t) : OpDoc where
  actor := d.actor
  ops := op :: d.ops
  valid := by
    rw [List.toFinset_cons]
    exact d.valid.insert hc ho

theorem history_add (d : OpDoc) (op : PlainOp) (hc : op.id.counter = nextCounter d.history)
    (ho : ∃ t, IsObj d.history op.obj t) : (d.add op hc ho).history = insert op d.history :=
  List.toFinset_cons

def new (actor : Nat) : OpDoc where
  actor := actor
  ops := []
  valid := { unique := fun _ h => absurd h (Finset.notMem_empty _)
             causal := fun _ h => absurd h (Finset.notMem_empty _) }

/-- Assign a key of a map. -/
def putKey (d : OpDoc) (o : ObjId Nat) (k : String) (action : Action Plain) : Except String OpDoc :=
  if h : IsObj d.history o .map then
    .ok (d.add (keyOp d.history d.actor o k action) rfl ⟨_, h⟩)
  else .error "not a map"

def insertObject (d : OpDoc) (o : ObjId Nat) (i : Nat) (t : ObjType) :
    Except String (ObjId Nat × OpDoc) :=
  if h : IsObj d.history o .list then
    if i ≤ (elements d.history o).length then
      let after := if i = 0 then none else (elements d.history o)[i - 1]?
      let op := insertOp d.history d.actor o after (.make t)
      .ok (.made op.id, d.add op rfl ⟨_, h⟩)
    else .error "index out of bounds"
  else .error "not a list"

def getKey (d : OpDoc) (o : ObjId Nat) (k : String) :
    Except String (Option (Value Plain × ObjId Nat)) :=
  if IsAnyObj d.history o then .ok (readAt d.ops (liveKey d.history o k))
  else .error "not an object"

def getIndex (d : OpDoc) (o : ObjId Nat) (i : Nat) :
    Except String (Option (Value Plain × ObjId Nat)) :=
  if IsAnyObj d.history o then
    .ok ((elements d.history o)[i]?.bind fun e => readAt d.ops (liveElem d.history o e))
  else .error "not an object"

/-- The elements of a list, the assigned keys of a map. -/
def length (d : OpDoc) (o : ObjId Nat) : Nat :=
  if IsObj d.history o .map then ((live (ofObj d.history o)).image fun op => op.place).card
  else (elements d.history o).length

def load (C : Codec (List PlainOp) Bytes) (actor : Nat) (bytes : Bytes) : Except String OpDoc :=
  match C.dec bytes with
  | none => .error "unable to parse"
  | some ops => if h : Valid ops.toFinset then .ok ⟨actor, ops, h⟩ else .error "invalid change"

def merge (d d' : OpDoc) : Except String OpDoc :=
  if h : Valid (d.ops ++ d'.ops).toFinset then .ok ⟨d.actor, d.ops ++ d'.ops, h⟩
  else .error "duplicate sequence number"

end OpDoc

/-- The library over `OpDoc`. -/
def opDocs (C : Codec (List PlainOp) Bytes) : Automerge Nat Plain OpDoc where
  new := OpDoc.new
  putObject d o k t :=
    (d.putKey o k (.make t)).map fun d' => (.made ⟨nextCounter d.history, d.actor⟩, d')
  put d o k s := d.putKey o k (.set s)
  insertObject := OpDoc.insertObject
  getKey := OpDoc.getKey
  getIndex := OpDoc.getIndex
  length := OpDoc.length
  commit d := d
  save d := (C.enc d.ops, d)
  load := OpDoc.load C
  merge := OpDoc.merge
  str := .str
  int := .int
  toStr
    | .str s => some s
    | .int _ => none
  toI64
    | .str _ => none
    | .int i => some i
  actor := OpDoc.actor
  history := OpDoc.history

/-! ## 3. They keep the promises -/

namespace OpDoc

theorem putKey_ok {d : OpDoc} {o : ObjId Nat} (k : String) (action : Action Plain)
    (h : IsObj d.history o .map) : ∃ d', d.putKey o k action = .ok d' ∧
      d'.history = insert (keyOp d.history d.actor o k action) d.history ∧ d'.actor = d.actor := by
  unfold putKey
  rw [dif_pos h]
  exact ⟨_, rfl, history_add .., rfl⟩

theorem insertObject_of_ok {d d' : OpDoc} {o x : ObjId Nat} {i : Nat} {t : ObjType}
    (h : d.insertObject o i t = .ok (x, d')) :
    x = .made ⟨nextCounter d.history, d.actor⟩ ∧ d'.actor = d.actor ∧
      ∃ after, d'.history = insert (insertOp d.history d.actor o after (.make t)) d.history := by
  unfold insertObject at h
  split at h
  · split at h
    · cases h
      exact ⟨rfl, rfl, _, history_add ..⟩
    · cases h
  · cases h

theorem length_list {d : OpDoc} {o : ObjId Nat} (h : IsObj d.history o .list) :
    d.length o = (elements d.history o).length := by
  unfold length
  rw [if_neg]
  intro hmap
  cases o with
  | root => cases h
  | made i =>
    obtain ⟨a, ha, hai, hact⟩ := h
    obtain ⟨b, hb, hbi, hact'⟩ := hmap
    cases d.valid.unique a ha b hb (hai.trans hbi.symm)
    rw [hact] at hact'
    cases hact'

theorem insertObject_ok {d : OpDoc} {o : ObjId Nat} {i : Nat} (t : ObjType)
    (h : IsObj d.history o .list) (hi : i ≤ d.length o) : ∃ r, d.insertObject o i t = .ok r := by
  rw [length_list h] at hi
  unfold insertObject
  split
  · exact ⟨_, rfl⟩
  · next hn => exact absurd h hn

theorem getKey_local {d d' : OpDoc} {o : ObjId Nat} (h : SameView d.history d'.history o) :
    d.getKey o = d'.getKey o := by
  funext k
  unfold getKey
  have hread : readAt d.ops (liveKey d.history o k) = readAt d'.ops (liveKey d'.history o k) := by
    rw [← h.liveKey k]
    exact readAt_congr (liveKey_subset ..) (h.liveKey k ▸ liveKey_subset ..) d.valid.unique
      fun op => value_of_mem_liveKey
  have hobj : IsAnyObj d.history o ↔ IsAnyObj d'.history o := by
    rw [isAnyObj_iff, isAnyObj_iff]
    exact exists_congr fun t => h.isObj t
  rw [hread]
  exact if_congr hobj rfl rfl

theorem getIndex_local {d d' : OpDoc} {o : ObjId Nat} (h : SameView d.history d'.history o) :
    d.getIndex o = d'.getIndex o := by
  funext i
  unfold getIndex
  have hread : ∀ e, readAt d.ops (liveElem d.history o e) =
      readAt d'.ops (liveElem d'.history o e) := by
    intro e
    rw [← h.liveElem e]
    exact readAt_congr (liveElem_subset ..) (h.liveElem e ▸ liveElem_subset ..) d.valid.unique
      fun op => value_of_mem_liveElem
  have hobj : IsAnyObj d.history o ↔ IsAnyObj d'.history o := by
    rw [isAnyObj_iff, isAnyObj_iff]
    exact exists_congr fun t => h.isObj t
  rw [elements_congr h]
  simp only [hread]
  exact if_congr hobj rfl rfl

theorem length_local {d d' : OpDoc} {o : ObjId Nat} (h : SameView d.history d'.history o) :
    d.length o = d'.length o := by
  unfold length
  rw [elements_congr h, h.ops]
  exact if_congr (h.isObj .map) rfl rfl

variable {C : Codec (List PlainOp) Bytes}

theorem load_enc (d : OpDoc) (actor : Nat) :
    load C actor (C.enc d.ops) = .ok ⟨actor, d.ops, d.valid⟩ := by
  unfold load
  rw [C.dec_enc]
  exact dif_pos d.valid

theorem load_cases {actor : Nat} {bytes : Bytes} {d : OpDoc} (h : load C actor bytes = .ok d) :
    C.dec bytes = some d.ops ∧ d.actor = actor := by
  unfold load at h
  split at h
  · cases h
  · next ops hdec =>
    split at h
    · cases h
      exact ⟨hdec, rfl⟩
    · cases h

theorem load_again {actor : Nat} {bytes : Bytes} {d : OpDoc} (h : load C actor bytes = .ok d)
    (actor' : Nat) : load C actor' bytes = .ok ⟨actor', d.ops, d.valid⟩ := by
  unfold load
  rw [(load_cases h).1]
  exact dif_pos d.valid

theorem merge_cases {d d' m : OpDoc} (h : d.merge d' = .ok m) :
    m.history = d.history ∪ d'.history ∧ m.actor = d.actor := by
  unfold merge at h
  split at h
  · cases h
    exact ⟨List.toFinset_append, rfl⟩
  · cases h

theorem merge_ok {d d' : OpDoc} (h : Unforked d.history d'.history) : ∃ m, d.merge d' = .ok m := by
  unfold merge
  rw [dif_pos (by rw [List.toFinset_append]; exact d.valid.union d'.valid h)]
  exact ⟨_, rfl⟩

theorem list_reads {d : OpDoc} {o : ObjId Nat} (h : IsObj d.history o .list) :
    ∃ l : List (OpId Nat), l.Nodup ∧ (∀ e, e ∈ l ↔ Automerge.Element d.history o e) ∧
      d.length o = l.length ∧
      ∀ i e, l[i]? = some e → ∃ r, d.getIndex o i = .ok r ∧ Reads (liveElem d.history o e) r := by
  refine ⟨elements d.history o, nodup_elements d.valid.unique o, fun e => mem_elements,
    length_list h, fun i e hi => ⟨readAt d.ops (liveElem d.history o e), ?_,
      reads_readAt (liveElem_subset ..) fun op => value_of_mem_liveElem⟩⟩
  unfold getIndex
  rw [if_pos (isAnyObj_iff.mpr ⟨_, h⟩), hi]
  rfl

theorem getIndex_mem {d : OpDoc} {o x : ObjId Nat} {i : Nat} {v : Value Plain}
    (h : d.getIndex o i = .ok (some (v, x))) : ∃ op ∈ d.history, op.obj = o ∧ x = .made op.id := by
  unfold getIndex at h
  split at h
  · obtain ⟨e, -, he⟩ := Option.bind_eq_some_iff.mp (Except.ok.inj h)
    obtain ⟨op, hop, hx⟩ := readAt_mem he
    obtain ⟨hm, ho⟩ := mem_ofObj.mp (mem_live.mp (mem_liveElem.mp hop).1).1
    exact ⟨op, hm, ho, hx⟩
  · cases h

end OpDoc

/-- **Documents that are their operations keep the promises of the library.** -/
theorem opDocs_documented (C : Codec (List PlainOp) Bytes) : (opDocs C).Documented where
  valid d := d.valid
  actor_new _ := rfl
  history_new _ := rfl
  putObject_ok d o k t h := by
    obtain ⟨d', hput, hH, ha⟩ := OpDoc.putKey_ok k (.make t) h
    exact ⟨d', congrArg (Except.map _) hput, hH, ha⟩
  put_ok d o k s h _ := OpDoc.putKey_ok k (.set s) h
  insertObject_ok _ _ _ t h hi := OpDoc.insertObject_ok t h hi
  insertObject_of_ok _ _ _ _ _ _ h := OpDoc.insertObject_of_ok h
  history_commit _ := rfl
  actor_commit _ := rfl
  history_save _ := rfl
  actor_save _ := rfl
  load_save d a := ⟨_, OpDoc.load_enc d a, rfl⟩
  actor_load _ _ _ h := (OpDoc.load_cases h).2
  load_again _ _ _ h a := ⟨_, OpDoc.load_again h a, rfl⟩
  merge_ok _ _ h := OpDoc.merge_ok h
  history_merge _ _ _ h := (OpDoc.merge_cases h).1
  actor_merge _ _ _ h := (OpDoc.merge_cases h).2
  getKey_ok d o t k h :=
    ⟨_, if_pos (isAnyObj_iff.mpr ⟨t, h⟩),
      OpDoc.reads_readAt (liveKey_subset ..) fun _ => value_of_mem_liveKey⟩
  getKey_error d o k h :=
    ⟨_, if_neg fun ho => (isAnyObj_iff.mp ho).elim h⟩
  list_reads _ _ h := OpDoc.list_reads h
  getIndex_mem _ _ _ _ _ h := OpDoc.getIndex_mem h
  local_reads _ _ _ h := ⟨OpDoc.getKey_local h, OpDoc.getIndex_local h, OpDoc.length_local h⟩
  toStr_str _ := rfl
  toI64_int _ := rfl

end Lib
