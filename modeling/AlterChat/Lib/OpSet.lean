import Mathlib.Data.Finset.Lattice.Fold
import Mathlib.Data.Prod.Lex
import Mathlib.Order.Lattice.Nat
import Mathlib.Order.Lex

/-!
# Documents as sets of operations

A replicated document is the set of the operations done on it. An operation has an id (a counter,
then the actor that did it), the object it belongs to, the place in that object, what it does there,
and the ids of the operations it overwrites. Merging is the union, and what a document shows is a
function of the set: at each place the operation with the greatest id of those that nothing
overwrites.

* `OpId`, `ObjId`, `Op` -- operations;
* `liveKey`, `liveElem`, `Reads` -- what is at a place; `Reads.unique` -- one winner;
* `Valid` -- ids are unique, and an object exists before what is done in it;
* `SameView` -- the sets that show the same in an object;
* `keyOp`, `insertOp`, `fieldOps` -- the operations an actor does next.
-/

namespace Lib

/-! ## 1. Operations -/

/-- The id of an operation: a counter, and the actor where counters are equal. -/
@[ext] structure OpId (Actor : Type) where
  counter : Nat
  actor : Actor
  deriving DecidableEq

namespace OpId

variable {Actor : Type} [LinearOrder Actor]

instance : LinearOrder (OpId Actor) :=
  LinearOrder.lift' (fun i => toLex (i.counter, i.actor)) fun i j h => by
    have h' : (i.counter, i.actor) = (j.counter, j.actor) := toLex.injective h
    exact OpId.ext (congrArg Prod.fst h') (congrArg Prod.snd h')

theorem le_iff {i j : OpId Actor} :
    i ≤ j ↔ i.counter < j.counter ∨ i.counter = j.counter ∧ i.actor ≤ j.actor :=
  Prod.Lex.toLex_le_toLex

end OpId

inductive ObjType where
  | map
  | list
  | text
  deriving DecidableEq

/-- The root map, or the object an operation has made. -/
inductive ObjId (Actor : Type) where
  | root
  | made (id : OpId Actor)
  deriving DecidableEq

/-- Where in its object an operation is: at a key of a map, as a new element of a list (behind
    another one, or in front), or at an element that is there. -/
inductive Place (Actor : Type) where
  | key (k : String)
  | insert (after : Option (OpId Actor))
  | elem (e : OpId Actor)
  deriving DecidableEq

inductive Action (Scalar : Type) where
  | make (t : ObjType)
  | set (s : Scalar)
  | delete
  deriving DecidableEq

/-- What can be read at a place. -/
inductive Value (Scalar : Type) where
  | object (t : ObjType)
  | scalar (s : Scalar)
  deriving DecidableEq

def Action.value {Scalar : Type} : Action Scalar → Option (Value Scalar)
  | .make t => some (.object t)
  | .set s => some (.scalar s)
  | .delete => none

structure Op (Actor Scalar : Type) where
  id : OpId Actor
  obj : ObjId Actor
  place : Place Actor
  action : Action Scalar
  /-- The operations it overwrites. -/
  pred : Finset (OpId Actor)
  deriving DecidableEq

/-- The element of a list that an operation inserts or assigns. -/
def Op.element {Actor Scalar : Type} (op : Op Actor Scalar) : Option (OpId Actor) :=
  match op.place with
  | .key _ => none
  | .insert _ => some op.id
  | .elem e => some e

/-! ## 2. Valid sets -/

section

variable {Actor Scalar : Type}

/-- No two operations have one id. -/
def UniqueIds (H : Finset (Op Actor Scalar)) : Prop :=
  ∀ a ∈ H, ∀ b ∈ H, a.id = b.id → a = b

theorem UniqueIds.mono {H H' : Finset (Op Actor Scalar)} (h : UniqueIds H') (hs : H ⊆ H') :
    UniqueIds H :=
  fun a ha b hb hab => h a (hs ha) b (hs hb) hab

/-- An object of a type. -/
def IsObj (H : Finset (Op Actor Scalar)) : ObjId Actor → ObjType → Prop
  | .root, t => t = .map
  | .made i, t => ∃ op ∈ H, op.id = i ∧ op.action = .make t

theorem IsObj.mono {H H' : Finset (Op Actor Scalar)} (hs : H ⊆ H') {o : ObjId Actor} {t : ObjType}
    (h : IsObj H o t) : IsObj H' o t := by
  cases o with
  | root => exact h
  | made i =>
    obtain ⟨op, hm, hi, ha⟩ := h
    exact ⟨op, hs hm, hi, ha⟩

/-- **The sets that are documents**: ids are unique, and what is done in an object comes with the
    operation that made it. -/
structure Valid (H : Finset (Op Actor Scalar)) : Prop where
  unique : UniqueIds H
  causal : ∀ op ∈ H, ∃ t, IsObj H op.obj t

/-- The sets agree on what each actor has done: of one of the two, the other has all of it. -/
def Unforked (H H' : Finset (Op Actor Scalar)) : Prop :=
  ∀ a, (∀ op ∈ H, op.id.actor = a → op ∈ H') ∨ (∀ op ∈ H', op.id.actor = a → op ∈ H)

end

/-! ## 3. What a set shows -/

section

variable {Actor Scalar : Type} [LinearOrder Actor]

/-- The operations on an object. -/
def ofObj (H : Finset (Op Actor Scalar)) (o : ObjId Actor) : Finset (Op Actor Scalar) :=
  H.filter fun op => op.obj = o

@[simp] theorem mem_ofObj {H : Finset (Op Actor Scalar)} {o : ObjId Actor}
    {op : Op Actor Scalar} : op ∈ ofObj H o ↔ op ∈ H ∧ op.obj = o := by
  simp [ofObj]

/-- The operations of an object that nothing in it overwrites. -/
def live (S : Finset (Op Actor Scalar)) : Finset (Op Actor Scalar) :=
  S.filter fun op => op.action.value.isSome = true ∧ ∀ op' ∈ S, op.id ∉ op'.pred

theorem mem_live {S : Finset (Op Actor Scalar)} {op : Op Actor Scalar} :
    op ∈ live S ↔ op ∈ S ∧ op.action.value.isSome = true ∧ ∀ op' ∈ S, op.id ∉ op'.pred := by
  simp [live]

/-- Where nothing overwrites, everything but a deletion is live. -/
theorem mem_live_of_pred {S : Finset (Op Actor Scalar)} (h : ∀ op ∈ S, op.pred = ∅)
    {op : Op Actor Scalar} : op ∈ live S ↔ op ∈ S ∧ op.action.value.isSome = true := by
  rw [mem_live]
  refine ⟨fun ⟨hm, ha, _⟩ => ⟨hm, ha⟩, fun ⟨hm, ha⟩ => ⟨hm, ha, fun op' hop' => ?_⟩⟩
  rw [h op' hop']
  exact Finset.notMem_empty _

/-- What is live at a key of an object. -/
def liveKey (H : Finset (Op Actor Scalar)) (o : ObjId Actor) (k : String) :
    Finset (Op Actor Scalar) :=
  (live (ofObj H o)).filter fun op => op.place = .key k

/-- What is live at an element of an object. -/
def liveElem (H : Finset (Op Actor Scalar)) (o : ObjId Actor) (e : OpId Actor) :
    Finset (Op Actor Scalar) :=
  (live (ofObj H o)).filter fun op => op.element = some e

theorem mem_liveKey {H : Finset (Op Actor Scalar)} {o : ObjId Actor} {k : String}
    {op : Op Actor Scalar} :
    op ∈ liveKey H o k ↔ op ∈ live (ofObj H o) ∧ op.place = .key k := by
  simp [liveKey]

theorem mem_liveElem {H : Finset (Op Actor Scalar)} {o : ObjId Actor} {e : OpId Actor}
    {op : Op Actor Scalar} :
    op ∈ liveElem H o e ↔ op ∈ live (ofObj H o) ∧ op.element = some e := by
  simp [liveElem]

/-- The operation with the greatest id. -/
def Wins (T : Finset (Op Actor Scalar)) (op : Op Actor Scalar) : Prop :=
  op ∈ T ∧ ∀ op' ∈ T, op'.id ≤ op.id

/-- What is read where `T` is live: the winner's value and the object it names, or nothing. -/
def Reads (T : Finset (Op Actor Scalar)) : Option (Value Scalar × ObjId Actor) → Prop
  | none => T = ∅
  | some (v, x) => ∃ op, Wins T op ∧ op.action.value = some v ∧ x = .made op.id

theorem Wins.unique {T : Finset (Op Actor Scalar)} (hu : UniqueIds T) {op op' : Op Actor Scalar}
    (h : Wins T op) (h' : Wins T op') : op = op' :=
  hu op h.1 op' h'.1 (le_antisymm (h'.2 op h.1) (h.2 op' h'.1))

/-- **One value is read at a place.** -/
theorem Reads.unique {T : Finset (Op Actor Scalar)} (hu : UniqueIds T)
    {r r' : Option (Value Scalar × ObjId Actor)} (h : Reads T r) (h' : Reads T r') : r = r' := by
  cases r with
  | none =>
    cases r' with
    | none => rfl
    | some r' =>
      obtain ⟨op, hw, -⟩ := h'
      rw [show T = ∅ from h] at hw
      exact absurd hw.1 (Finset.notMem_empty _)
  | some r =>
    obtain ⟨op, hw, hv, hx⟩ := h
    cases r' with
    | none =>
      rw [show T = ∅ from h'] at hw
      exact absurd hw.1 (Finset.notMem_empty _)
    | some r' =>
      obtain ⟨op', hw', hv', hx'⟩ := h'
      cases hw.unique hu hw'
      rw [hv] at hv'
      exact congrArg some (Prod.ext (Option.some.inj hv') (hx.trans hx'.symm))

theorem Wins.reads {T : Finset (Op Actor Scalar)} {op : Op Actor Scalar} (h : Wins T op)
    {v : Value Scalar} (hv : op.action.value = some v) : Reads T (some (v, .made op.id)) :=
  ⟨op, h, hv, rfl⟩

/-- A place with one live operation shows it. -/
theorem wins_singleton (op : Op Actor Scalar) : Wins {op} op :=
  ⟨Finset.mem_singleton_self op, fun _ h => le_of_eq (congrArg Op.id (Finset.mem_singleton.mp h))⟩

theorem reads_singleton {op : Op Actor Scalar} {v : Value Scalar} (hv : op.action.value = some v) :
    Reads {op} (some (v, .made op.id)) :=
  (wins_singleton op).reads hv

theorem liveKey_subset (H : Finset (Op Actor Scalar)) (o : ObjId Actor) (k : String) :
    liveKey H o k ⊆ H :=
  fun _ h => (mem_ofObj.mp (mem_live.mp (mem_liveKey.mp h).1).1).1

/-- Nothing is live at a key that no operation on the object assigns. -/
theorem liveKey_eq_empty {H : Finset (Op Actor Scalar)} {o : ObjId Actor} {k : String}
    (h : ∀ op ∈ H, op.obj = o → op.place ≠ .key k) : liveKey H o k = ∅ := by
  refine Finset.eq_empty_of_forall_notMem fun op hop => ?_
  obtain ⟨hl, hk⟩ := mem_liveKey.mp hop
  obtain ⟨hm, ho⟩ := mem_ofObj.mp (mem_live.mp hl).1
  exact h op hm ho hk

theorem liveElem_subset (H : Finset (Op Actor Scalar)) (o : ObjId Actor) (e : OpId Actor) :
    liveElem H o e ⊆ H :=
  fun _ h => (mem_ofObj.mp (mem_live.mp (mem_liveElem.mp h).1).1).1

/-- **Two sets that show the same in an object**: they hold the same operations on it, and the same
    operation made it. -/
structure SameView (H H' : Finset (Op Actor Scalar)) (o : ObjId Actor) : Prop where
  ops : ofObj H o = ofObj H' o
  maker : ∀ i, o = .made i → ∀ op : Op Actor Scalar, op.id = i → (op ∈ H ↔ op ∈ H')

theorem SameView.isObj {H H' : Finset (Op Actor Scalar)} {o : ObjId Actor} (h : SameView H H' o)
    (t : ObjType) : IsObj H o t ↔ IsObj H' o t := by
  cases o with
  | root => exact Iff.rfl
  | made i =>
    constructor
    · intro ⟨op, hm, hi, ha⟩
      exact ⟨op, (h.maker i rfl op hi).mp hm, hi, ha⟩
    · intro ⟨op, hm, hi, ha⟩
      exact ⟨op, (h.maker i rfl op hi).mpr hm, hi, ha⟩

theorem SameView.liveKey {H H' : Finset (Op Actor Scalar)} {o : ObjId Actor} (h : SameView H H' o)
    (k : String) : liveKey H o k = liveKey H' o k := by
  unfold Lib.liveKey
  rw [h.ops]

theorem SameView.liveElem {H H' : Finset (Op Actor Scalar)} {o : ObjId Actor} (h : SameView H H' o)
    (e : OpId Actor) : liveElem H o e = liveElem H' o e := by
  unfold Lib.liveElem
  rw [h.ops]

theorem value_of_mem_liveKey {H : Finset (Op Actor Scalar)} {o : ObjId Actor} {k : String}
    {op : Op Actor Scalar} (h : op ∈ Lib.liveKey H o k) : op.action.value.isSome = true :=
  (mem_live.mp (mem_liveKey.mp h).1).2.1

theorem value_of_mem_liveElem {H : Finset (Op Actor Scalar)} {o : ObjId Actor} {e : OpId Actor}
    {op : Op Actor Scalar} (h : op ∈ Lib.liveElem H o e) : op.action.value.isSome = true :=
  (mem_live.mp (mem_liveElem.mp h).1).2.1

/-! ## 4. What an actor does next -/

/-- The next counter: one more than the greatest in the document. -/
def nextCounter (H : Finset (Op Actor Scalar)) : Nat := (H.sup fun op => op.id.counter) + 1

omit [LinearOrder Actor] in
theorem lt_nextCounter {H : Finset (Op Actor Scalar)} {op : Op Actor Scalar} (h : op ∈ H) :
    op.id.counter < nextCounter H :=
  Nat.lt_succ_of_le (Finset.le_sup (f := fun op : Op Actor Scalar => op.id.counter) h)

theorem nextCounter_insert [DecidableEq Scalar] {H : Finset (Op Actor Scalar)}
    {op : Op Actor Scalar} (h : op.id.counter = nextCounter H) :
    nextCounter (insert op H) = nextCounter H + 1 := by
  have hlt : (H.sup fun op => op.id.counter) ≤ op.id.counter := by
    rw [h]
    exact Nat.le_succ _
  show (insert op H).sup (fun op => op.id.counter) + 1 = _
  rw [Finset.sup_insert, sup_eq_left.mpr hlt, h]

/-- A new operation on an object that is there. -/
theorem Valid.insert [DecidableEq Scalar] {H : Finset (Op Actor Scalar)} (h : Valid H)
    {op : Op Actor Scalar} (hc : op.id.counter = nextCounter H) (ho : ∃ t, IsObj H op.obj t) :
    Valid (insert op H) where
  unique := by
    have hfresh : ∀ a ∈ H, a.id ≠ op.id := by
      intro a ha hid
      have hlt := lt_nextCounter ha
      rw [hid, hc] at hlt
      exact lt_irrefl _ hlt
    intro a ha b hb hab
    rcases Finset.mem_insert.mp ha with rfl | ha'
    · rcases Finset.mem_insert.mp hb with rfl | hb'
      · rfl
      · exact absurd hab.symm (hfresh b hb')
    · rcases Finset.mem_insert.mp hb with rfl | hb'
      · exact absurd hab (hfresh a ha')
      · exact h.unique a ha' b hb' hab
  causal := by
    intro a ha
    rcases Finset.mem_insert.mp ha with rfl | ha
    · obtain ⟨t, ht⟩ := ho
      exact ⟨t, ht.mono (Finset.subset_insert _ _)⟩
    · obtain ⟨t, ht⟩ := h.causal a ha
      exact ⟨t, ht.mono (Finset.subset_insert _ _)⟩

omit [LinearOrder Actor] in
/-- **Documents that agree on what each actor has done unite to a document.** -/
theorem Valid.union [DecidableEq (Op Actor Scalar)] {H H' : Finset (Op Actor Scalar)} (h : Valid H)
    (h' : Valid H') (hf : Unforked H H') : Valid (H ∪ H') where
  unique := by
    have cross : ∀ a ∈ H, ∀ b ∈ H', a.id = b.id → a = b := by
      intro a ha b hb hab
      rcases hf a.id.actor with hle | hle
      · exact h'.unique a (hle a ha rfl) b hb hab
      · exact h.unique a ha b (hle b hb (congrArg OpId.actor hab).symm) hab
    intro a ha b hb hab
    rcases Finset.mem_union.mp ha with ha | ha
    · rcases Finset.mem_union.mp hb with hb | hb
      · exact h.unique a ha b hb hab
      · exact cross a ha b hb hab
    · rcases Finset.mem_union.mp hb with hb | hb
      · exact (cross b hb a ha hab.symm).symm
      · exact h'.unique a ha b hb hab
  causal := by
    intro a ha
    rcases Finset.mem_union.mp ha with ha | ha
    · obtain ⟨t, ht⟩ := h.causal a ha
      exact ⟨t, ht.mono Finset.subset_union_left⟩
    · obtain ⟨t, ht⟩ := h'.causal a ha
      exact ⟨t, ht.mono Finset.subset_union_right⟩

/-- Assigning a key: it overwrites what is live there. -/
def keyOp (H : Finset (Op Actor Scalar)) (a : Actor) (o : ObjId Actor) (k : String)
    (action : Action Scalar) : Op Actor Scalar where
  id := ⟨nextCounter H, a⟩
  obj := o
  place := .key k
  action := action
  pred := (liveKey H o k).image fun op => op.id

/-- Inserting an element. -/
def insertOp (H : Finset (Op Actor Scalar)) (a : Actor) (o : ObjId Actor)
    (after : Option (OpId Actor)) (action : Action Scalar) : Op Actor Scalar where
  id := ⟨nextCounter H, a⟩
  obj := o
  place := .insert after
  action := action
  pred := ∅

variable [DecidableEq Scalar]

/-- The keys of a new map, assigned one after the other from a counter on. -/
def fieldOps (a : Actor) (o : ObjId Actor) : Nat → List (String × Scalar) → Finset (Op Actor Scalar)
  | _, [] => ∅
  | n, (k, s) :: rest =>
    insert { id := ⟨n, a⟩, obj := o, place := .key k, action := .set s, pred := ∅ }
      (fieldOps a o (n + 1) rest)

theorem mem_fieldOps {a : Actor} {o : ObjId Actor} {fields : List (String × Scalar)} :
    ∀ {n : Nat} {op : Op Actor Scalar}, op ∈ fieldOps a o n fields →
      op.obj = o ∧ op.pred = ∅ ∧ op.id.actor = a ∧ n ≤ op.id.counter ∧
        ∃ f ∈ fields, op.place = .key f.1 ∧ op.action = .set f.2 := by
  induction fields with
  | nil => exact fun h => absurd h (Finset.notMem_empty _)
  | cons f rest ih =>
    intro n op h
    rcases Finset.mem_insert.mp h with rfl | h
    · exact ⟨rfl, rfl, rfl, le_rfl, f, List.mem_cons_self, rfl, rfl⟩
    · obtain ⟨ho, hp, ha, hn, g, hg, hk, hs⟩ := ih h
      exact ⟨ho, hp, ha, Nat.le_of_succ_le hn, g, List.mem_cons_of_mem _ hg, hk, hs⟩

theorem exists_fieldOps {a : Actor} {o : ObjId Actor} {fields : List (String × Scalar)} :
    ∀ {n : Nat} {f : String × Scalar}, f ∈ fields →
      ∃ op ∈ fieldOps a o n fields, op.place = .key f.1 ∧ op.action = .set f.2 := by
  induction fields with
  | nil => exact fun h => absurd h List.not_mem_nil
  | cons g rest ih =>
    intro n f h
    rcases List.mem_cons.mp h with rfl | h
    · exact ⟨_, Finset.mem_insert_self _ _, rfl, rfl⟩
    · obtain ⟨op, hop, hk, hs⟩ := ih (n := n + 1) h
      exact ⟨op, Finset.mem_insert_of_mem hop, hk, hs⟩

end

end Lib
