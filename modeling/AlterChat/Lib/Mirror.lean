import AlterChat.Lib.Table

/-!
# A table and a copy of some of its columns

The rows of a table `t` carry a value (`orig`), and a second table `m` with the same keys carries a
copy of it (`copy`) in its own rows. Either may lack a row, and both start a row with the same
default. The two agree where both have a row (`Agrees`); for that to last, a row without its
counterpart has the default (`Mirrors`).

For each statement a program runs against one of the tables: what it needs for `Agrees` to hold
afterwards, as an iff, and that `Mirrors` is then kept.
-/

namespace Lib

variable {κ μ σ γ : Type} [DecidableEq κ]

/-- Where both tables have a row, the copy is right. -/
def Agrees (copy : μ → γ) (orig : σ → γ) (m : Table κ μ) (t : Table κ σ) : Prop :=
  ∀ k x s, m.lookup k = some x → t.lookup k = some s → copy x = orig s

/-- ... and a row of the copy alone has the default. -/
structure Mirrors (copy : μ → γ) (orig : σ → γ) (dflt : γ) (m : Table κ μ)
    (t : Table κ σ) : Prop where
  agrees : Agrees copy orig m t
  lone : ∀ k x, m.lookup k = some x → t.lookup k = none → copy x = dflt

variable {copy : μ → γ} {orig : σ → γ} {dflt : γ} {m : Table κ μ} {t : Table κ σ} {k : κ}

theorem Mirrors.empty : Mirrors copy orig dflt (∅ : Table κ μ) (∅ : Table κ σ) := by
  have hnone : ∀ k, (∅ : Table κ μ).lookup k = none := fun _ => rfl
  refine ⟨fun k x s h _ => ?_, fun k x h _ => ?_⟩
  · cases (hnone k).symm.trans h
  · cases (hnone k).symm.trans h

/-- Agreement at one key, when every other row is as before. -/
theorem Agrees.at_iff {m' : Table κ μ} {t' : Table κ σ} (h : Agrees copy orig m t)
    (hm : ∀ k', k' ≠ k → m'.lookup k' = m.lookup k')
    (ht : ∀ k', k' ≠ k → t'.lookup k' = t.lookup k') :
    Agrees copy orig m' t' ↔
      ∀ x s, m'.lookup k = some x → t'.lookup k = some s → copy x = orig s := by
  constructor
  · exact fun h' => h' k
  · intro h' k' x s hx hs
    by_cases hk : k' = k
    · subst hk
      exact h' x s hx hs
    · rw [hm k' hk] at hx
      rw [ht k' hk] at hs
      exact h k' x s hx hs

/-! ## Statements on the copy -/

/-- Insert a row of the copy with the default, or change other columns of the one that is there. -/
theorem Mirrors.upsert_copy_iff (h : Mirrors copy orig dflt m t) (new : μ) (upd : μ → μ)
    (hnew : copy new = dflt) (hupd : ∀ x, copy (upd x) = copy x) :
    Agrees copy orig (m.upsert k new upd) t ↔
      (m.lookup k = none → ∀ s, t.lookup k = some s → orig s = dflt) := by
  rw [h.agrees.at_iff (k := k) (fun k' hk => by rw [Table.lookup_upsert, if_neg hk]) fun _ _ => rfl,
    Table.lookup_upsert, if_pos rfl]
  cases hx : m.lookup k with
  | none =>
    constructor
    · intro h' _ s hs
      exact (h' new s rfl hs).symm.trans hnew
    · intro h' x s hx' hs
      cases hx'
      exact hnew.trans (h' rfl s hs).symm
  | some y =>
    constructor
    · intro _ hno
      cases hno
    · intro _ x s hx' hs
      cases hx'
      exact (hupd y).trans (h.agrees k y s hx hs)

theorem Mirrors.upsert_copy_lone (h : Mirrors copy orig dflt m t) (new : μ) (upd : μ → μ)
    (hnew : copy new = dflt) (hupd : ∀ x, copy (upd x) = copy x) :
    ∀ k' x, (m.upsert k new upd).lookup k' = some x → t.lookup k' = none → copy x = dflt := by
  intro k' x hx hs
  rw [Table.lookup_upsert] at hx
  split_ifs at hx with hk
  · subst hk
    cases hx
    cases hm : m.lookup k' with
    | none => exact hnew
    | some y => exact (hupd y).trans (h.lone k' y hm hs)
  · exact h.lone k' x hx hs

/-- Delete a row of the copy. -/
theorem Mirrors.erase_copy (h : Mirrors copy orig dflt m t) :
    Mirrors copy orig dflt (m.erase k) t := by
  have sub : ∀ k' x, (m.erase k).lookup k' = some x → m.lookup k' = some x := by
    intro k' x hx
    by_cases hk : k' = k
    · subst hk
      rw [AList.lookup_erase] at hx
      cases hx
    · rwa [AList.lookup_erase_ne hk] at hx
  exact ⟨fun k' x s hx => h.agrees k' x s (sub k' x hx), fun k' x hx => h.lone k' x (sub k' x hx)⟩

/-! ## Statements on the table -/

/-- Insert a row with the default where there is none. -/
theorem Mirrors.insertIgnore (h : Mirrors copy orig dflt m t) {s₀ : σ} (hs₀ : orig s₀ = dflt) :
    Mirrors copy orig dflt m (t.insertIgnore k s₀) := by
  refine ⟨?_, ?_⟩
  · intro k' x s hx hs
    rw [Table.lookup_insertIgnore] at hs
    split_ifs at hs with hk
    · subst hk
      cases ht : t.lookup k' with
      | none =>
        rw [ht] at hs
        cases hs
        exact (h.lone k' x hx ht).trans hs₀.symm
      | some s' =>
        rw [ht] at hs
        cases hs
        exact h.agrees k' x s' hx ht
    · exact h.agrees k' x s hx hs
  · intro k' x hx hs
    rw [Table.lookup_insertIgnore] at hs
    split_ifs at hs
    exact h.lone k' x hx hs

/-- Such a row changes nothing about agreement. -/
theorem agrees_insertIgnore_iff {s₀ : σ} (hs₀ : orig s₀ = dflt)
    (hlone : ∀ k x, m.lookup k = some x → t.lookup k = none → copy x = dflt) :
    Agrees copy orig m (t.insertIgnore k s₀) ↔ Agrees copy orig m t := by
  constructor
  · intro h k' x s hx hs
    refine h k' x s hx ?_
    rw [Table.lookup_insertIgnore]
    split_ifs with hk
    · subst hk
      rw [hs, Option.getD_some]
    · exact hs
  · exact fun h => (Mirrors.insertIgnore ⟨h, hlone⟩ hs₀).agrees

/-- Write a row, and not the copy. -/
theorem Mirrors.upsert_table_iff (h : Mirrors copy orig dflt m t) {s : σ} :
    Agrees copy orig m (t.upsert k s fun _ => s) ↔ ∀ x, m.lookup k = some x → copy x = orig s := by
  rw [h.agrees.at_iff (k := k) (fun _ _ => rfl)
    fun k' hk => by
      rw [Table.lookup_upsert_const, if_neg hk], Table.lookup_upsert_const, if_pos rfl]
  constructor
  · exact fun h' x hx => h' x s hx rfl
  · intro h' x s' hx hs
    cases hs
    exact h' x hx

theorem Mirrors.upsert_table_lone (h : Mirrors copy orig dflt m t) {s : σ} :
    ∀ k' x, m.lookup k' = some x → (t.upsert k s fun _ => s).lookup k' = none → copy x = dflt := by
  intro k' x hx hs
  rw [Table.lookup_upsert_const] at hs
  split_ifs at hs
  exact h.lone k' x hx hs

/-- **Write a row and the copy of it.** -/
theorem Mirrors.upsert_both (h : Mirrors copy orig dflt m t) {s : σ} {f : μ → μ}
    (hf : ∀ x, copy (f x) = orig s) :
    Mirrors copy orig dflt (m.update k f) (t.upsert k s fun _ => s) := by
  refine ⟨?_, ?_⟩
  · rw [h.agrees.at_iff (k := k) (fun k' hk => by rw [Table.lookup_update, if_neg hk])
      fun k' hk => by rw [Table.lookup_upsert_const, if_neg hk]]
    intro x s' hx hs
    rw [Table.lookup_upsert_const, if_pos rfl] at hs
    rw [Table.lookup_update, if_pos rfl] at hx
    obtain ⟨y, -, rfl⟩ := Option.map_eq_some_iff.mp hx
    cases hs
    exact hf y
  · intro k' x hx hs
    rw [Table.lookup_upsert_const] at hs
    split_ifs at hs with hk
    rw [Table.lookup_update, if_neg hk] at hx
    exact h.lone k' x hx hs

end Lib
