import AlterChat.Lib.Table
import Mathlib.Data.Set.Card

/-!
# The newest rows of a table

A table whose rows have a time, of which `newest n` reads the keys of the `n` latest rows. Between
rows of one time nothing is said.

* §1 `newest`, its length and its order;
* §2 `mem_newest` -- a key is read if fewer than `n` others are as late; `newest_few_later` -- and
  only if fewer than `n` are later;
* §3 rows dropped by a condition on their values; §4 `lastSeen` -- the last value that a log has for
  a key.
-/

namespace Lib.Table

variable {κ ν ο : Type} [LinearOrder ο]

/-! ## 1. The newest -/

/-- The rows, the latest first. -/
def byTime (time : ν → ο) (t : Table κ ν) : List (Sigma fun _ : κ => ν) :=
  t.entries.mergeSort fun r s => decide (time s.2 ≤ time r.2)

/-- `ORDER BY time DESC LIMIT n`. -/
def newest (time : ν → ο) (n : Nat) (t : Table κ ν) : List κ :=
  ((t.byTime time).map fun row => row.1).take n

variable {time : ν → ο} {n : Nat} {t : Table κ ν} {k : κ} {v : ν}

theorem newest_length_le (time : ν → ο) (n : Nat) (t : Table κ ν) : (t.newest time n).length ≤ n :=
  List.length_take_le ..

theorem byTime_pairwise (time : ν → ο) (t : Table κ ν) :
    (t.byTime time).Pairwise fun r s => time s.2 ≤ time r.2 := by
  refine (List.pairwise_mergeSort (fun a b c hab hbc => ?_) (fun a b => ?_) _).imp of_decide_eq_true
  · exact decide_eq_true ((of_decide_eq_true hbc).trans (of_decide_eq_true hab))
  · rw [Bool.or_eq_true, decide_eq_true_eq, decide_eq_true_eq]
    exact le_total (time b.2) (time a.2)

theorem byTime_nodup (time : ν → ο) (t : Table κ ν) : ((t.byTime time).map Sigma.fst).Nodup := by
  have hkeys : (t.entries.map Sigma.fst).Nodup := t.nodupKeys
  exact ((List.mergeSort_perm _ _).map Sigma.fst).nodup_iff.mpr hkeys

theorem newest_nodup (time : ν → ο) (n : Nat) (t : Table κ ν) : (t.newest time n).Nodup :=
  (List.take_sublist ..).nodup (byTime_nodup time t)

variable [DecidableEq κ]

theorem mem_byTime : ⟨k, v⟩ ∈ t.byTime time ↔ t.lookup k = some v := by
  rw [byTime, List.mem_mergeSort]
  exact AList.mem_lookup_iff.symm

/-- What is read is in the table. -/
theorem lookup_of_mem_newest (h : k ∈ t.newest time n) : ∃ v, t.lookup k = some v := by
  obtain ⟨⟨k', v⟩, hrow, rfl⟩ := List.mem_map.mp (List.mem_of_mem_take h)
  exact ⟨v, mem_byTime.mp hrow⟩

/-- **The latest come first.** -/
theorem newest_pairwise (time : ν → ο) (n : Nat) (t : Table κ ν) :
    (t.newest time n).Pairwise fun k k' =>
      ∀ v v', t.lookup k = some v → t.lookup k' = some v' → time v' ≤ time v := by
  refine List.Pairwise.sublist (List.take_sublist ..) (List.pairwise_map.mpr ?_)
  refine (byTime_pairwise time t).imp_of_mem fun {r s} hr hs hle v v' hv hv' => ?_
  have hrow := mem_byTime.mp hr
  have hrow' := mem_byTime.mp hs
  cases hrow.symm.trans hv
  cases hrow'.symm.trans hv'
  exact hle

/-! ## 2. Who is read -/

/-- The rows before that of a key are as late, the rows after it no later, and the key is read if
    there are fewer than `n` before it. -/
theorem split_at (time : ν → ο) (hv : t.lookup k = some v) : ∃ before after,
    t.byTime time = before ++ ⟨k, v⟩ :: after ∧ (∀ r ∈ before, time v ≤ time r.2 ∧ r.1 ≠ k) ∧
      (∀ r ∈ after, time r.2 ≤ time v) ∧ ∀ n, k ∈ t.newest time n ↔ before.length < n := by
  obtain ⟨before, after, hsplit⟩ :=
    List.append_of_mem (show ⟨k, v⟩ ∈ t.byTime time from mem_byTime.mpr hv)
  have hnodup := byTime_nodup time t
  have hpairs := byTime_pairwise time t
  rw [hsplit] at hnodup hpairs
  rw [List.map_append, List.map_cons, List.nodup_append] at hnodup
  obtain ⟨-, hafter, hapart⟩ := hnodup
  obtain ⟨-, hpairs', hbetween⟩ := List.pairwise_append.mp hpairs
  refine ⟨before, after, hsplit, fun r hr => ⟨hbetween r hr _ List.mem_cons_self, fun heq => ?_⟩,
    fun r hr => (List.pairwise_cons.mp hpairs').1 r hr, fun n => ?_⟩
  · exact hapart r.1 (List.mem_map_of_mem hr) k List.mem_cons_self heq
  · rw [newest, hsplit, List.map_append, List.map_cons]
    have hbefore : k ∉ before.map fun row => row.1 := fun hmem =>
      hapart k hmem k List.mem_cons_self rfl
    constructor
    · intro hmem
      by_contra hle
      rw [List.take_append_of_le_length (by rw [List.length_map]; omega)] at hmem
      exact hbefore (List.mem_of_mem_take hmem)
    · intro hlt
      obtain ⟨m, hm⟩ := Nat.exists_eq_add_of_lt hlt
      rw [List.take_append, List.mem_append, List.length_map, hm,
        show before.length + m + 1 - before.length = m + 1 by omega, List.take_succ_cons]
      exact .inr List.mem_cons_self

/-- The keys that have a row at a later time. -/
def laterThan (time : ν → ο) (t : Table κ ν) (v : ν) : Set κ :=
  {k | ∃ v', t.lookup k = some v' ∧ time v < time v'}

/-- The other keys that have a row at that time or later. -/
def othersFrom (time : ν → ο) (t : Table κ ν) (k : κ) (v : ν) : Set κ :=
  {k' | k' ≠ k ∧ ∃ v', t.lookup k' = some v' ∧ time v ≤ time v'}

/-- **Only keys with few later ones are read.** -/
theorem newest_few_later (h : k ∈ t.newest time n) (hv : t.lookup k = some v) :
    (t.laterThan time v).encard < n := by
  obtain ⟨before, after, hsplit, -, hafter, hread⟩ := split_at time hv
  have hsub : t.laterThan time v ⊆ ((before.map Sigma.fst).toFinset : Set κ) := by
    intro k' hk'
    obtain ⟨v', hv', hlt⟩ := hk'
    have hrow : ⟨k', v'⟩ ∈ t.byTime time := mem_byTime.mpr hv'
    rw [hsplit, List.mem_append, List.mem_cons] at hrow
    rw [List.coe_toFinset]
    rcases hrow with hrow | hrow | hrow
    · exact List.mem_map.mpr ⟨_, hrow, rfl⟩
    · cases hrow
      exact absurd hlt (lt_irrefl _)
    · exact absurd hlt (not_lt.mpr (hafter _ hrow))
  calc (t.laterThan time v).encard
    _ ≤ ((before.map Sigma.fst).toFinset : Set κ).encard := Set.encard_le_encard hsub
    _ = (before.map Sigma.fst).toFinset.card := Set.encard_coe_eq_coe_finsetCard _
    _ ≤ before.length := by
      have hcard := (before.map Sigma.fst).toFinset_card_le
      rw [List.length_map] at hcard
      exact_mod_cast hcard
    _ < n := by exact_mod_cast (hread n).mp h

/-- **A key is read if few others are as late.** -/
theorem mem_newest (hv : t.lookup k = some v) (hfew : (t.othersFrom time k v).encard < n) :
    k ∈ t.newest time n := by
  obtain ⟨before, after, hsplit, hbefore, -, hread⟩ := split_at time hv
  have hnodup : (before.map Sigma.fst).Nodup := by
    have hall := byTime_nodup time t
    rw [hsplit, List.map_append, List.nodup_append] at hall
    exact hall.1
  have hsub : ((before.map Sigma.fst).toFinset : Set κ) ⊆ t.othersFrom time k v := by
    intro k' hk'
    rw [List.coe_toFinset] at hk'
    obtain ⟨⟨k', v'⟩, hrow, rfl⟩ := List.mem_map.mp hk'
    have hmem : ⟨k', v'⟩ ∈ t.byTime time := by
      rw [hsplit]
      exact List.mem_append_left _ hrow
    exact ⟨(hbefore _ hrow).2, v', mem_byTime.mp hmem, (hbefore _ hrow).1⟩
  rw [hread]
  have hcard : (before.length : ℕ∞) = ((before.map Sigma.fst).toFinset : Set κ).encard := by
    rw [Set.encard_coe_eq_coe_finsetCard, List.toFinset_card_of_nodup hnodup, List.length_map]
  have hlt : (before.length : ℕ∞) < n := hcard ▸ (Set.encard_le_encard hsub).trans_lt hfew
  exact_mod_cast hlt

/-! ## 3. Rows dropped -/

omit [LinearOrder ο] in
theorem lookup_eraseAll (rows : List (Sigma fun _ : κ => ν)) (t : Table κ ν) (k : κ) :
    (rows.foldl (fun t row => t.erase row.1) t).lookup k =
      if k ∈ rows.map Sigma.fst then none else t.lookup k := by
  induction rows generalizing t with
  | nil => rfl
  | cons row rest ih =>
    rw [List.foldl_cons, ih]
    by_cases hk : k = row.1
    · rw [hk, AList.lookup_erase, ite_self, List.map_cons, if_pos List.mem_cons_self]
    · rw [AList.lookup_erase_ne hk]
      simp only [List.map_cons, List.mem_cons, hk, false_or]

omit [LinearOrder ο] in
/-- **`DELETE … WHERE` a condition on the value.** -/
theorem lookup_dropWhere (cond : ν → Bool) (t : Table κ ν) (k : κ) :
    ((t.entries.filter fun row => cond row.2).foldl (fun t row => t.erase row.1) t).lookup k =
      (t.lookup k).filter fun v => !cond v := by
  rw [lookup_eraseAll]
  cases hv : t.lookup k with
  | none =>
    rw [Option.filter_none, ite_self]
  | some v =>
    have hmem : k ∈ (t.entries.filter fun row => cond row.2).map Sigma.fst ↔ cond v = true := by
      constructor
      · intro h
        obtain ⟨⟨k', v'⟩, hrow, rfl⟩ := List.mem_map.mp h
        obtain ⟨hrow, hcond⟩ := List.mem_filter.mp hrow
        cases (AList.mem_lookup_iff.mpr hrow).symm.trans hv
        exact hcond
      · intro h
        exact List.mem_map.mpr ⟨⟨k, v⟩, List.mem_filter.mpr ⟨AList.mem_lookup_iff.mp hv, h⟩, rfl⟩
    cases hcond : cond v with
    | true => rw [if_pos (hmem.mpr hcond), Option.filter_some, hcond]; rfl
    | false =>
      rw [if_neg fun h => Bool.false_ne_true (hcond.symm.trans (hmem.mp h)),
        Option.filter_some, hcond]
      rfl

end Lib.Table

/-! ## 4. Logs -/

namespace Lib

variable {κ ν : Type} [DecidableEq κ]

/-- The last value that the log has for the key. -/
def lastSeen (log : List (κ × ν)) (k : κ) : Option ν :=
  ((log.filter fun r => decide (r.1 = k)).map Prod.snd).getLast?

theorem lastSeen_append (log later : List (κ × ν)) (k : κ) :
    lastSeen (log ++ later) k = (lastSeen later k).or (lastSeen log k) := by
  unfold lastSeen
  rw [List.filter_append, List.map_append, List.getLast?_append]

theorem lastSeen_snoc (log : List (κ × ν)) (k : κ) (v : ν) (k' : κ) :
    lastSeen (log ++ [(k, v)]) k' = if k' = k then some v else lastSeen log k' := by
  unfold lastSeen
  by_cases hk : k' = k
  · simp [hk]
  · rw [if_neg hk, List.filter_append, List.filter_cons_of_neg (by simpa using Ne.symm hk),
      List.filter_nil, List.append_nil]

theorem mem_of_lastSeen {log : List (κ × ν)} {k : κ} {v : ν} (h : lastSeen log k = some v) :
    (k, v) ∈ log := by
  obtain ⟨⟨k', v'⟩, hmem, rfl⟩ := List.mem_map.mp (List.mem_of_getLast? h)
  obtain ⟨hin, hk⟩ := List.mem_filter.mp hmem
  obtain rfl := of_decide_eq_true hk
  exact hin

theorem exists_lastSeen {log : List (κ × ν)} {k : κ} (h : k ∈ log.map Prod.fst) :
    ∃ v, lastSeen log k = some v := by
  obtain ⟨⟨k', v⟩, hmem, rfl⟩ := List.mem_map.mp h
  have hin : v ∈ (log.filter fun r => decide (r.1 = k')).map Prod.snd :=
    List.mem_map.mpr ⟨(k', v), List.mem_filter.mpr ⟨hmem, decide_eq_true rfl⟩, rfl⟩
  exact ⟨_, List.getLast?_eq_some_getLast (List.ne_nil_of_mem hin)⟩

end Lib
