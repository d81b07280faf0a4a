import AlterChat.Lib.Table
import Mathlib.Data.Finset.Max

/-!
# Records stored as they arrive

Records are upserted into a keyed table one after the other. The row of a key is then that of the
last record which had it (`lookup_saveAll`), whatever a stamp inside the records says. So the table
holds the records with the greatest stamps just when each came last among those of its key
(`saveAll_newest_iff`), and two orders of which that is true leave the same rows (`saveAll_same`).
-/

namespace Lib

variable {κ ρ ν τ : Type} [DecidableEq κ]

/-- Upsert the records in order. -/
def saveAll (key : ρ → κ) (row : ρ → ν) (t : Table κ ν) (rs : List ρ) : Table κ ν :=
  rs.foldl (fun t r => t.upsert (key r) (row r) fun _ => row r) t

/-- The last of the records with the key. -/
def lastOf (key : ρ → κ) (k : κ) (rs : List ρ) : Option ρ :=
  (rs.filter fun r => decide (key r = k)).getLast?

/-- No record with the same key has a later stamp. -/
structure Newest [LE τ] (key : ρ → κ) (stamp : ρ → τ) (all : List ρ) (r : ρ) : Prop where
  mem : r ∈ all
  le : ∀ r' ∈ all, key r' = key r → stamp r' ≤ stamp r

variable {key : ρ → κ} {row : ρ → ν} {t : Table κ ν} {rs : List ρ}

theorem lastOf_mem {k : κ} {r : ρ} (h : lastOf key k rs = some r) : r ∈ rs ∧ key r = k := by
  have hmem := List.mem_of_getLast? h
  rw [List.mem_filter, decide_eq_true_eq] at hmem
  exact hmem

theorem lastOf_none {k : κ} (h : lastOf key k rs = none) {r : ρ} (hr : r ∈ rs) : key r ≠ k := by
  intro hkey
  have hmem : r ∈ rs.filter fun r => decide (key r = k) :=
    List.mem_filter.mpr ⟨hr, decide_eq_true hkey⟩
  rw [List.getLast?_eq_none_iff.mp h] at hmem
  cases hmem

theorem saveAll_append (t : Table κ ν) (rs rs' : List ρ) :
    saveAll key row t (rs ++ rs') = saveAll key row (saveAll key row t rs) rs' :=
  List.foldl_append

/-- **The row of a key is that of the last record with it.** -/
theorem lookup_saveAll (k : κ) :
    (saveAll key row t rs).lookup k = ((lastOf key k rs).map row).or (t.lookup k) := by
  induction rs generalizing t with
  | nil => rfl
  | cons r rs ih =>
    have hstep : (saveAll key row t (r :: rs)).lookup k =
        (saveAll key row (t.upsert (key r) (row r) fun _ => row r) rs).lookup k := rfl
    rw [hstep, ih, Table.lookup_upsert_const]
    by_cases hk : key r = k
    · rw [if_pos hk.symm, lastOf, lastOf, List.filter_cons, if_pos (decide_eq_true hk),
        List.getLast?_cons]
      cases (rs.filter fun r => decide (key r = k)).getLast? <;> rfl
    · rw [if_neg (Ne.symm hk), lastOf, lastOf, List.filter_cons, if_neg (by simpa using hk)]

/-- Records of which there is one for each key. -/
theorem lookup_saveAll_rows {rs : List (κ × ν)} {rowOf : κ → Option ν}
    (h : ∀ k v, (k, v) ∈ rs ↔ rowOf k = some v) (k : κ) :
    (saveAll Prod.fst Prod.snd t rs).lookup k = (rowOf k).or (t.lookup k) := by
  rw [lookup_saveAll]
  cases hlast : lastOf Prod.fst k rs with
  | some r =>
    obtain ⟨hr, rfl⟩ := lastOf_mem hlast
    rw [(h r.1 r.2).mp hr]
    rfl
  | none =>
    have hnone : rowOf k = none := by
      refine Option.eq_none_iff_forall_ne_some.mpr fun v hv => ?_
      exact lastOf_none hlast ((h k v).mpr hv) rfl
    rw [hnone]
    rfl

/-- Of rows with distinct keys each is there. -/
theorem lookup_saveAll_nodup {rs : List (κ × ν)} (h : (rs.map Prod.fst).Nodup) {kv : κ × ν}
    (hkv : kv ∈ rs) : (saveAll Prod.fst Prod.snd t rs).lookup kv.1 = some kv.2 := by
  rw [lookup_saveAll]
  cases hlast : lastOf Prod.fst kv.1 rs with
  | none => exact absurd rfl (lastOf_none hlast hkv)
  | some r =>
    obtain ⟨hr, hkey⟩ := lastOf_mem hlast
    rw [List.inj_on_of_nodup_map h hr hkv hkey]
    rfl

/-- **The newest records are in the table just when each came last.** -/
theorem saveAll_newest_iff [LE τ] (stamp : ρ → τ) {all : List ρ} (hrow : Function.Injective row)
    (hfresh : ∀ r ∈ all, t.lookup (key r) = none) (rs : List ρ) :
    (∀ r, Newest key stamp all r → (saveAll key row t rs).lookup (key r) = some (row r)) ↔
      ∀ r, Newest key stamp all r → lastOf key (key r) rs = some r := by
  refine forall₂_congr fun r hr => ?_
  rw [lookup_saveAll, hfresh r hr.mem, Option.or_none, Option.map_eq_some_iff]
  constructor
  · intro h
    obtain ⟨r', hlast, heq⟩ := h
    rw [hlast, hrow heq]
  · intro h
    exact ⟨r, h, rfl⟩

theorem exists_newest [LinearOrder τ] (key : ρ → κ) (stamp : ρ → τ) {all : List ρ} {r : ρ}
    (hr : r ∈ all) : ∃ r' : ρ, Newest key stamp all r' ∧ key r' = key r := by
  classical
  have hne : (all.toFinset.filter fun r' => key r' = key r).Nonempty :=
    ⟨r, Finset.mem_filter.mpr ⟨List.mem_toFinset.mpr hr, rfl⟩⟩
  obtain ⟨r', hmem, hmax⟩ := Finset.exists_max_image _ stamp hne
  obtain ⟨hr', hkey⟩ := Finset.mem_filter.mp hmem
  refine ⟨r', ⟨List.mem_toFinset.mp hr', fun r'' hr'' hkey' => ?_⟩, hkey⟩
  exact hmax r'' (Finset.mem_filter.mpr ⟨List.mem_toFinset.mpr hr'', hkey'.trans hkey⟩)

/-- Two orders of the same records, in both of which the newest came last, leave the same rows. -/
theorem saveAll_same [LinearOrder τ] {stamp : ρ → τ} {all rs' : List ρ} (hsub : ∀ r ∈ rs, r ∈ all)
    (hsub' : ∀ r ∈ rs', r ∈ all)
    (h : ∀ r, Newest key stamp all r → lastOf key (key r) rs = some r)
    (h' : ∀ r, Newest key stamp all r → lastOf key (key r) rs' = some r) (k : κ) :
    (saveAll key row t rs).lookup k = (saveAll key row t rs').lookup k := by
  have hlast : lastOf key k rs = lastOf key k rs' := by
    by_cases hk : ∃ r, r ∈ all ∧ key r = k
    · obtain ⟨r, hr, rfl⟩ := hk
      obtain ⟨r', hnew, hkey⟩ := exists_newest key stamp hr
      rw [← hkey, h r' hnew, h' r' hnew]
    · have none_of : ∀ l : List ρ, (∀ r ∈ l, r ∈ all) → lastOf key k l = none := by
        intro l hl
        cases hlast : lastOf key k l with
        | none => rfl
        | some r =>
          obtain ⟨hr, hkey⟩ := lastOf_mem hlast
          exact absurd ⟨r, hl r hr, hkey⟩ hk
      rw [none_of rs hsub, none_of rs' hsub']
  rw [lookup_saveAll, lookup_saveAll, hlast]

end Lib
