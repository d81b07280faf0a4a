import Mathlib.Algebra.Ring.Int.Defs
import Mathlib.Data.List.AList

/-!
# Keyed tables

A table with a primary key is an association list without duplicate keys (Mathlib's `AList`). The
statements a program runs against it: `upsert` (insert, or on a conflict update the row that is
there), `insertIgnore`, `update … where key = k`, `delete … where key = k`, and `select` over the
rows. Each has its effect on the looked-up row stated once. `total` sums a number over the rows.
-/

namespace Lib

/-- A table with primary key `κ` and one value per row. -/
abbrev Table (κ ν : Type) := AList fun _ : κ => ν

namespace Table

variable {κ ν : Type} [DecidableEq κ]

/-- Insert the row, or on a conflict update the row that is there. -/
def upsert (t : Table κ ν) (k : κ) (new : ν) (upd : ν → ν) : Table κ ν :=
  t.insert k ((t.lookup k).elim new upd)

/-- Insert the row, or on a conflict leave the table alone. -/
def insertIgnore (t : Table κ ν) (k : κ) (new : ν) : Table κ ν :=
  match t.lookup k with
  | none => t.insert k new
  | some _ => t

/-- Update the row with the key, if there is one. -/
def update (t : Table κ ν) (k : κ) (f : ν → ν) : Table κ ν :=
  match t.lookup k with
  | none => t
  | some v => t.insert k (f v)

/-- The values of the rows whose key meets the condition. -/
def select (t : Table κ ν) (cond : κ → Bool) : List ν :=
  (t.entries.filter fun r => cond r.1).map fun r => r.2

theorem lookup_upsert (t : Table κ ν) (k : κ) (new : ν) (upd : ν → ν) (k' : κ) :
    (t.upsert k new upd).lookup k' =
      if k' = k then some ((t.lookup k).elim new upd) else t.lookup k' := by
  unfold upsert
  split
  · next h => subst h; exact AList.lookup_insert t
  · next h => exact AList.lookup_insert_ne h

/-- An upsert that writes the same row either way. -/
theorem lookup_upsert_const (t : Table κ ν) (k : κ) (new : ν) (k' : κ) :
    (t.upsert k new fun _ => new).lookup k' = if k' = k then some new else t.lookup k' := by
  rw [lookup_upsert]
  cases t.lookup k <;> rfl

theorem lookup_insertIgnore (t : Table κ ν) (k : κ) (new : ν) (k' : κ) :
    (t.insertIgnore k new).lookup k' =
      if k' = k then some ((t.lookup k).getD new) else t.lookup k' := by
  unfold insertIgnore
  split
  · next h =>
    split
    · next hk => subst hk; rw [AList.lookup_insert, h]; rfl
    · next hk => exact AList.lookup_insert_ne hk
  · next v h =>
    split
    · next hk => subst hk; rw [h]; rfl
    · rfl

theorem lookup_update (t : Table κ ν) (k : κ) (f : ν → ν) (k' : κ) :
    (t.update k f).lookup k' = if k' = k then (t.lookup k).map f else t.lookup k' := by
  unfold update
  split
  · next h =>
    split
    · next hk => subst hk; rw [h]; rfl
    · rfl
  · next v h =>
    split
    · next hk => subst hk; rw [AList.lookup_insert, h]; rfl
    · next hk => exact AList.lookup_insert_ne hk

/-- **An upsert changes no row just where its update does not change the row that is there.** -/
theorem upsert_same_iff (t : Table κ ν) (k : κ) (new : ν) (upd : ν → ν) :
    (∀ k', (t.upsert k new upd).lookup k' = t.lookup k') ↔ ∃ v, t.lookup k = some v ∧
    upd v = v := by
  constructor
  · intro h
    have hk := h k
    rw [lookup_upsert, if_pos rfl] at hk
    cases hv : t.lookup k with
    | none =>
      rw [hv] at hk
      cases hk
    | some v =>
      rw [hv] at hk
      exact ⟨v, rfl, Option.some.inj hk⟩
  · rintro ⟨v, hv, hupd⟩ k'
    rw [lookup_upsert, hv]
    split
    · next hk => rw [hk, hv, Option.elim_some, hupd]
    · rfl

/-- **An insert that ignores a conflict changes no row just where there is a conflict.** -/
theorem insertIgnore_same_iff (t : Table κ ν) (k : κ) (new : ν) :
    (∀ k', (t.insertIgnore k new).lookup k' = t.lookup k') ↔ (t.lookup k).isSome = true := by
  constructor
  · intro h
    rw [← h k, lookup_insertIgnore, if_pos rfl]
    rfl
  · intro hk k'
    obtain ⟨v, hv⟩ := Option.isSome_iff_exists.mp hk
    rw [lookup_insertIgnore, hv]
    split
    · next hk' => rw [hk', hv, Option.getD_some]
    · rfl

/-- **A row appears just where there is none with the key.** -/
theorem insertIgnore_appears_iff (t : Table κ ν) (k : κ) (new : ν) :
    (∃ k', t.lookup k' = none ∧ (t.insertIgnore k new).lookup k' ≠ none) ↔ t.lookup k = none := by
  constructor
  · rintro ⟨k', hnone, happears⟩
    rw [lookup_insertIgnore] at happears
    split at happears
    · next hk => rw [← hk, hnone]
    · exact absurd hnone happears
  · intro hnone
    refine ⟨k, hnone, ?_⟩
    rw [lookup_insertIgnore, if_pos rfl]
    exact Option.some_ne_none _

/-- **A row turns just where the one with the key has not turned yet**, if the update turns every
    row. -/
theorem update_turns_iff (t : Table κ ν) (k : κ) {f : ν → ν} {turned : ν → Bool}
    (hf : ∀ v, turned (f v) = true) :
    (∃ k' v v', t.lookup k' = some v ∧ turned v = false ∧ (t.update k f).lookup k' = some v' ∧
      turned v' = true) ↔
      ∃ v, t.lookup k = some v ∧ turned v = false := by
  constructor
  · rintro ⟨k', v, v', hv, hno, hv', hyes⟩
    rw [lookup_update] at hv'
    split at hv'
    · next hk => exact ⟨v, hk ▸ hv, hno⟩
    · cases hv.symm.trans hv'
      exact absurd (hno.symm.trans hyes) Bool.false_ne_true
  · rintro ⟨v, hv, hno⟩
    refine ⟨k, v, f v, hv, hno, ?_, hf v⟩
    rw [lookup_update, if_pos rfl, hv]
    rfl

theorem mem_select {t : Table κ ν} {cond : κ → Bool} {v : ν} :
    v ∈ t.select cond ↔ ∃ k, t.lookup k = some v ∧ cond k = true := by
  simp only [select, List.mem_map, List.mem_filter]
  constructor
  · intro h
    obtain ⟨⟨k, v'⟩, ⟨hm, hc⟩, rfl⟩ := h
    exact ⟨k, AList.mem_lookup_iff.mpr hm, hc⟩
  · intro h
    obtain ⟨k, hk, hc⟩ := h
    exact ⟨⟨k, v⟩, ⟨AList.mem_lookup_iff.mp hk, hc⟩, rfl⟩

/-- **A search by key over all rows** finds the row of the key, if it meets the other condition. -/
theorem find?_rows (t : Table κ ν) (k : κ) (cond : ν → Bool) :
    (t.entries.map fun r => (r.1, r.2)).find? (fun r => decide (r.1 = k) && cond r.2) =
      ((t.lookup k).filter cond).map fun v => (k, v) := by
  show _ = ((t.entries.dlookup k).filter cond).map _
  have hnd := t.nodupKeys
  generalize t.entries = l at hnd
  induction l with
  | nil => rfl
  | cons r rest ih =>
    obtain ⟨a, v⟩ := r
    obtain ⟨hnot, hrest⟩ := List.nodupKeys_cons.mp hnd
    have hrec := ih hrest
    rw [List.map_cons, List.find?_cons]
    by_cases ha : a = k
    · subst ha
      have hnone : rest.dlookup a = none := List.dlookup_eq_none.mpr hnot
      rw [hnone] at hrec
      rw [List.dlookup_cons_eq, hrec]
      cases hc : cond v <;> simp [Option.filter, hc]
    · rw [List.dlookup_cons_ne _ _ (Ne.symm ha)]
      simpa [ha] using hrec

/-- The sum of a number over the rows. -/
def total (f : ν → Int) (t : Table κ ν) : Int := (t.entries.map fun r => f r.2).sum

theorem total_eq_erase (f : ν → Int) (t : Table κ ν) (k : κ) :
    t.total f = total f (t.erase k) + (t.lookup k).elim 0 f := by
  show (t.entries.map fun r => f r.2).sum =
    ((t.entries.kerase k).map fun r => f r.2).sum + (t.entries.dlookup k).elim 0 f
  generalize t.entries = l
  induction l with
  | nil => rfl
  | cons r rest ih =>
    obtain ⟨a, v⟩ := r
    by_cases ha : k = a
    · subst ha
      have hrest : (⟨k, v⟩ :: rest : List (Sigma fun _ : κ => ν)).kerase k = rest :=
        List.kerase_cons_eq rfl
      rw [hrest, List.dlookup_cons_eq, List.map_cons, List.sum_cons]
      exact Int.add_comm _ _
    · have hrest : (⟨a, v⟩ :: rest : List (Sigma fun _ : κ => ν)).kerase k =
        ⟨a, v⟩ :: rest.kerase k :=
        List.kerase_cons_ne ha
      rw [hrest, List.dlookup_cons_ne _ _ ha, List.map_cons, List.map_cons, List.sum_cons,
        List.sum_cons, ih, Int.add_assoc]

theorem total_insert (f : ν → Int) (t : Table κ ν) (k : κ) (v : ν) :
    total f (t.insert k v) = total f (t.erase k) + f v := by
  show (((⟨k, v⟩ :: t.entries.kerase k : List (Sigma fun _ : κ => ν))).map fun r => f r.2).sum = _
  rw [List.map_cons, List.sum_cons]
  exact Int.add_comm _ _

end Table

end Lib
