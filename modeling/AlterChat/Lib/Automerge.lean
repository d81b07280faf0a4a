import AlterChat.Lib.OpSet
import AlterChat.Lib.Codec

/-!
# A library of replicated documents as a parameter

A program that keeps its data in an Automerge document is modelled over a value of `Automerge`: the
calls it makes, and the two things a document is told apart by, its actor and its history. A call
that fails leaves the document as it was. `Documented` is what the library promises:

* an edit adds the one operation it stands for, under the next id of the document's actor;
* a saved document loads again, `merge` unites the histories;
* a read shows the winner of the place, a list shows the elements all sides have inserted, and what
  is read in an object depends on the operations on that object only.

`putAll` assigns several keys one after the other; `putAll_new` is its effect on a new map, and
`insert_putAll` that of a new map in a list.
-/

namespace Lib

structure Automerge (Actor Scalar Doc : Type) where
  new : Actor → Doc
  putObject : Doc → ObjId Actor → String → ObjType → Except String (ObjId Actor × Doc)
  put : Doc → ObjId Actor → String → Scalar → Except String Doc
  insertObject : Doc → ObjId Actor → Nat → ObjType → Except String (ObjId Actor × Doc)
  getKey : Doc → ObjId Actor → String → Except String (Option (Value Scalar × ObjId Actor))
  getIndex : Doc → ObjId Actor → Nat → Except String (Option (Value Scalar × ObjId Actor))
  length : Doc → ObjId Actor → Nat
  commit : Doc → Doc
  /-- `save` commits, so it returns the document too. -/
  save : Doc → Bytes × Doc
  /-- A loaded document goes on under a new actor. -/
  load : Actor → Bytes → Except String Doc
  merge : Doc → Doc → Except String Doc
  str : String → Scalar
  int : Int64 → Scalar
  toStr : Scalar → Option String
  toI64 : Scalar → Option Int64
  actor : Doc → Actor
  history : Doc → Finset (Op Actor Scalar)

namespace Automerge

variable {Actor Scalar Doc : Type}

/-- `Value::to_str`. -/
def valueStr (A : Automerge Actor Scalar Doc) : Value Scalar → Option String
  | .object _ => none
  | .scalar s => A.toStr s

/-- `Value::to_i64`. -/
def valueI64 (A : Automerge Actor Scalar Doc) : Value Scalar → Option Int64
  | .object _ => none
  | .scalar s => A.toI64 s

/-- Assign the keys of a map one after the other, up to the first that is refused. -/
def putAll (A : Automerge Actor Scalar Doc) (o : ObjId Actor) :
    List (String × Scalar) → Doc → Except String Unit × Doc
  | [], d => (.ok (), d)
  | (k, s) :: rest, d =>
    match A.put d o k s with
    | .error e => (.error e, d)
    | .ok d => A.putAll o rest d

variable [LinearOrder Actor]

/-- An element of a list: it was inserted, and something is live at it. -/
def Element (H : Finset (Op Actor Scalar)) (o : ObjId Actor) (e : OpId Actor) : Prop :=
  (∃ op ∈ H, op.obj = o ∧ op.id = e ∧ ∃ after, op.place = .insert after) ∧
    (liveElem H o e).Nonempty

variable [DecidableEq Scalar]

/-- **What the library promises.** -/
structure Documented (A : Automerge Actor Scalar Doc) : Prop where
  valid : ∀ d, Valid (A.history d)
  actor_new : ∀ a, A.actor (A.new a) = a
  history_new : ∀ a, A.history (A.new a) = ∅
  putObject_ok : ∀ d o k t, IsObj (A.history d) o .map →
    ∃ d', A.putObject d o k t = .ok (.made ⟨nextCounter (A.history d), A.actor d⟩, d') ∧
      A.history d' = insert (keyOp (A.history d) (A.actor d) o k (.make t)) (A.history d) ∧
      A.actor d' = A.actor d
  put_ok : ∀ d o k s, IsObj (A.history d) o .map → liveKey (A.history d) o k = ∅ →
    ∃ d', A.put d o k s = .ok d' ∧
      A.history d' = insert (keyOp (A.history d) (A.actor d) o k (.set s)) (A.history d) ∧
      A.actor d' = A.actor d
  insertObject_ok : ∀ d o i t, IsObj (A.history d) o .list → i ≤ A.length d o →
    ∃ r, A.insertObject d o i t = .ok r
  insertObject_of_ok : ∀ d o i t x d', A.insertObject d o i t = .ok (x, d') →
    x = .made ⟨nextCounter (A.history d), A.actor d⟩ ∧ A.actor d' = A.actor d ∧
      ∃ after, A.history d' =
        insert (insertOp (A.history d) (A.actor d) o after (.make t)) (A.history d)
  history_commit : ∀ d, A.history (A.commit d) = A.history d
  actor_commit : ∀ d, A.actor (A.commit d) = A.actor d
  history_save : ∀ d, A.history (A.save d).2 = A.history d
  actor_save : ∀ d, A.actor (A.save d).2 = A.actor d
  load_save : ∀ d a, ∃ d', A.load a (A.save d).1 = .ok d' ∧ A.history d' = A.history d
  actor_load : ∀ a b d, A.load a b = .ok d → A.actor d = a
  load_again : ∀ a b d, A.load a b = .ok d → ∀ a', ∃ d', A.load a' b = .ok d' ∧
    A.history d' = A.history d
  merge_ok : ∀ d d', Unforked (A.history d) (A.history d') → ∃ m, A.merge d d' = .ok m
  history_merge : ∀ d d' m, A.merge d d' = .ok m → A.history m = A.history d ∪ A.history d'
  actor_merge : ∀ d d' m, A.merge d d' = .ok m → A.actor m = A.actor d
  getKey_ok : ∀ d o t k, IsObj (A.history d) o t →
    ∃ r, A.getKey d o k = .ok r ∧ Reads (liveKey (A.history d) o k) r
  getKey_error : ∀ d o k, (∀ t, ¬ IsObj (A.history d) o t) → ∃ e, A.getKey d o k = .error e
  list_reads : ∀ d o, IsObj (A.history d) o .list → ∃ l : List (OpId Actor), l.Nodup ∧
    (∀ e, e ∈ l ↔ Element (A.history d) o e) ∧ A.length d o = l.length ∧
    ∀ i e, l[i]? = some e → ∃ r, A.getIndex d o i = .ok r ∧ Reads (liveElem (A.history d) o e) r
  getIndex_mem : ∀ d o i v x, A.getIndex d o i = .ok (some (v, x)) →
    ∃ op ∈ A.history d, op.obj = o ∧ x = .made op.id
  local_reads : ∀ d d' o, SameView (A.history d) (A.history d') o →
    A.getKey d o = A.getKey d' o ∧ A.getIndex d o = A.getIndex d' o ∧ A.length d o = A.length d' o
  toStr_str : ∀ s, A.toStr (A.str s) = some s
  toI64_int : ∀ i, A.toI64 (A.int i) = some i

variable {A : Automerge Actor Scalar Doc}

/-- **The keys of a new map.** -/
theorem Documented.putAll_new (h : A.Documented) {o : ObjId Actor} {fields : List (String × Scalar)}
    (hn : (fields.map fun f => f.1).Nodup) : ∀ {d : Doc}, IsObj (A.history d) o .map →
    (∀ f ∈ fields, ∀ op ∈ A.history d, op.obj = o → op.place ≠ .key f.1) →
    ∃ d', A.putAll o fields d = (.ok (), d') ∧ A.actor d' = A.actor d ∧
      A.history d' =
        A.history d ∪ fieldOps (A.actor d) o (nextCounter (A.history d)) fields := by
  induction fields with
  | nil => exact fun _ _ => ⟨_, rfl, rfl, (Finset.union_empty _).symm⟩
  | cons f rest ih =>
    intro d hobj hfree
    obtain ⟨k, s⟩ := f
    obtain ⟨hk, hrest⟩ := List.nodup_cons.mp hn
    have hlive : liveKey (A.history d) o k = ∅ := liveKey_eq_empty (hfree _ List.mem_cons_self)
    obtain ⟨d₁, hput, hH, ha⟩ := h.put_ok d o k s hobj hlive
    have hfree₁ : ∀ f ∈ rest, ∀ op ∈ A.history d₁, op.obj = o → op.place ≠ .key f.1 := by
      intro f hf op hop ho
      rw [hH] at hop
      rcases Finset.mem_insert.mp hop with rfl | hop
      · intro hkey
        have hfk : f.1 = k := (Place.key.inj hkey).symm
        exact hk (List.mem_map.mpr ⟨f, hf, hfk⟩)
      · exact hfree f (List.mem_cons_of_mem _ hf) op hop ho
    have hobj₁ : IsObj (A.history d₁) o .map :=
      hobj.mono (hH ▸ Finset.subset_insert _ _)
    obtain ⟨d', hall, ha', hH'⟩ := ih hrest hobj₁ hfree₁
    refine ⟨d', ?_, ha'.trans ha, ?_⟩
    · simp only [putAll, hput, hall]
    · have hc : nextCounter (A.history d₁) = nextCounter (A.history d) + 1 := by
        rw [hH]
        exact nextCounter_insert rfl
      rw [hH', hc, ha, hH, keyOp, hlive, Finset.image_empty, fieldOps, Finset.insert_union,
        Finset.union_insert]

/-- **A new map in a list, with its keys.** -/
theorem Documented.insert_putAll (h : A.Documented) {d d₁ : Doc} {o x : ObjId Actor} {i : Nat}
    (hins : A.insertObject d o i .map = .ok (x, d₁)) {fields : List (String × Scalar)}
    (hn : (fields.map fun f => f.1).Nodup) :
    ∃ d₂ after, A.putAll x fields d₁ = (.ok (), d₂) ∧ A.actor d₂ = A.actor d ∧
      x = .made ⟨nextCounter (A.history d), A.actor d⟩ ∧
      A.history d₂ = A.history d ∪ insert (insertOp (A.history d) (A.actor d) o after (.make .map))
        (fieldOps (A.actor d) x (nextCounter (A.history d) + 1) fields) := by
  obtain ⟨hx, ha, after, hH⟩ := h.insertObject_of_ok _ _ _ _ _ _ hins
  have hfresh : ∀ op ∈ A.history d, op.id ≠ ⟨nextCounter (A.history d), A.actor d⟩ := by
    intro op hm hid
    have hlt := lt_nextCounter hm
    rw [hid] at hlt
    exact lt_irrefl _ hlt
  -- nothing in the document is about the new object yet
  have hfree : ∀ f ∈ fields, ∀ op ∈ A.history d₁, op.obj = x → op.place ≠ .key f.1 := by
    intro f _ op hm ho
    rw [hH] at hm
    rcases Finset.mem_insert.mp hm with rfl | hm
    · exact nofun
    · obtain ⟨t, ht⟩ := (h.valid d).causal op hm
      rw [ho, hx] at ht
      obtain ⟨w, hw, hid, -⟩ := ht
      exact absurd hid (hfresh w hw)
  have hobj : IsObj (A.history d₁) x .map := by
    rw [hH, hx]
    exact ⟨_, Finset.mem_insert_self _ _, rfl, rfl⟩
  obtain ⟨d₂, hput, ha₂, hH₂⟩ := h.putAll_new hn hobj hfree
  have hnext : nextCounter (A.history d₁) = nextCounter (A.history d) + 1 := by
    rw [hH]
    exact nextCounter_insert rfl
  refine ⟨d₂, after, hput, ha₂.trans ha, hx, ?_⟩
  rw [hH₂, hnext, ha, hH, Finset.insert_union, ← Finset.union_insert]

end Automerge

end Lib
