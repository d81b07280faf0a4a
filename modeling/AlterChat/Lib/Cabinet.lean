import Mathlib.Data.List.Basic
import Mathlib.Logic.Function.Basic

/-!
# Rows that name files

A cabinet has rows by key, each with the place of its file and what was put there, and files by
place. It is `Intact` when every row has its file as it was put, no two rows name one place, and no
file lies at a place that no row names.

* §1 the operations: a row put with its file, a file written without a row, a row dropped with its
  file;
* §2 `put_intact_iff`, `write_intact_iff` -- when a cabinet stays intact; `drop_intact`;
* §3 `putAll_intact` -- several rows.
-/

namespace Lib

/-! ## 1. Cabinets -/

/-- Rows with the place and the content of their files, and the files. -/
structure Cabinet (κ π β : Type) where
  row : κ → Option (π × β)
  file : π → Option β

namespace Cabinet

variable {κ π β : Type}

structure Intact (s : Cabinet κ π β) : Prop where
  kept : ∀ k p b, s.row k = some (p, b) → s.file p = some b
  apart : ∀ k k' p b b', s.row k = some (p, b) → s.row k' = some (p, b') → k = k'
  named : ∀ p b, s.file p = some b → ∃ k b', s.row k = some (p, b')

/-- No other row names the place, and the row of the key names no other place. -/
structure Fits (s : Cabinet κ π β) (k : κ) (p : π) : Prop where
  free : ∀ k' b', s.row k' = some (p, b') → k' = k
  stays : ∀ p' b', s.row k = some (p', b') → p' = p

variable [DecidableEq κ] [DecidableEq π]

/-- A file is written, and its row saved. -/
def put (s : Cabinet κ π β) (k : κ) (p : π) (b : β) : Cabinet κ π β where
  row := Function.update s.row k (some (p, b))
  file := Function.update s.file p (some b)

omit [DecidableEq κ] in
/-- A file is written, and no row is. -/
def write (s : Cabinet κ π β) (p : π) (b : β) : Cabinet κ π β where
  row := s.row
  file := Function.update s.file p (some b)

/-- A row is dropped, and its file. -/
def drop (s : Cabinet κ π β) (k : κ) : Cabinet κ π β :=
  match s.row k with
  | none => s
  | some (p, _) =>
    { row := Function.update s.row k none
      file := Function.update s.file p none }

variable {s : Cabinet κ π β} {k : κ} {p : π} {b : β}

theorem put_row_self : (s.put k p b).row k = some (p, b) := Function.update_self ..

theorem put_row_ne {k' : κ} (h : k' ≠ k) : (s.put k p b).row k' = s.row k' :=
  Function.update_of_ne h ..

theorem put_file_self : (s.put k p b).file p = some b := Function.update_self ..

theorem put_file_ne {p' : π} (h : p' ≠ p) : (s.put k p b).file p' = s.file p' :=
  Function.update_of_ne h ..

/-! ## 2. What keeps a cabinet intact -/

theorem Fits.put_intact (h : s.Intact) (hfits : s.Fits k p) : (s.put k p b).Intact where
  kept k₁ p₁ b₁ hrow := by
    by_cases hk : k₁ = k
    · subst hk
      rw [put_row_self] at hrow
      cases hrow
      exact put_file_self
    · rw [put_row_ne hk] at hrow
      have hp : p₁ ≠ p := fun hp => hk (hfits.free k₁ b₁ (hp ▸ hrow))
      rw [put_file_ne hp]
      exact h.kept _ _ _ hrow
  apart k₁ k₂ p₁ b₁ b₂ h₁ h₂ := by
    by_cases hk₁ : k₁ = k
    · subst hk₁
      rw [put_row_self] at h₁
      cases h₁
      by_contra hne
      rw [put_row_ne (Ne.symm hne)] at h₂
      exact hne (hfits.free _ _ h₂).symm
    · rw [put_row_ne hk₁] at h₁
      by_cases hk₂ : k₂ = k
      · subst hk₂
        rw [put_row_self] at h₂
        cases h₂
        exact hfits.free _ _ h₁
      · rw [put_row_ne hk₂] at h₂
        exact h.apart _ _ _ _ _ h₁ h₂
  named p₁ b₁ hfile := by
    by_cases hp : p₁ = p
    · subst hp
      exact ⟨k, b, put_row_self⟩
    · rw [put_file_ne hp] at hfile
      obtain ⟨k₁, b', hrow⟩ := h.named _ _ hfile
      have hk : k₁ ≠ k := fun hk => hp (hfits.stays _ _ (hk ▸ hrow))
      exact ⟨k₁, b', (put_row_ne hk).trans hrow⟩

/-- **A row may be put just when** its place is its own, and the only one it has had. -/
theorem put_intact_iff (h : s.Intact) : (s.put k p b).Intact ↔ s.Fits k p := by
  constructor
  · intro h'
    refine ⟨fun k' b' hrow => ?_, fun p' b' hrow => ?_⟩
    · by_contra hk
      exact hk (h'.apart _ _ _ _ _ ((put_row_ne hk).trans hrow) put_row_self)
    · -- else the file at the former place has no row any more
      by_contra hp
      obtain ⟨k₁, b₁, hnamed⟩ := h'.named p' b' ((put_file_ne hp).trans (h.kept _ _ _ hrow))
      by_cases hk : k₁ = k
      · subst hk
        rw [put_row_self] at hnamed
        cases hnamed
        exact hp rfl
      · rw [put_row_ne hk] at hnamed
        exact hk (h.apart _ _ _ _ _ hnamed hrow)
  · exact fun hfits => hfits.put_intact h

omit [DecidableEq κ] in
/-- **A file may be written without a row just when** it is there already, as a row has it. -/
theorem write_intact_iff (h : s.Intact) : (s.write p b).Intact ↔ ∃ k, s.row k = some (p, b) := by
  constructor
  · intro h'
    have hfile : (s.write p b).file p = some b := Function.update_self ..
    obtain ⟨k, b', hrow⟩ := h'.named p b hfile
    have hsame := (h'.kept k p b' hrow).symm.trans hfile
    cases hsame
    exact ⟨k, hrow⟩
  · intro hrow
    obtain ⟨k, hrow⟩ := hrow
    have hsame : Function.update s.file p (some b) = s.file :=
      Function.update_eq_self_iff.mpr (h.kept k p b hrow).symm
    rw [write, hsame]
    exact h

/-- **A row may be dropped with its file.** -/
theorem drop_intact (h : s.Intact) (k : κ) : (s.drop k).Intact := by
  unfold drop
  cases hrow : s.row k with
  | none => exact h
  | some pb =>
    obtain ⟨p, b⟩ := pb
    have hrest : ∀ k₁ p₁ b₁, Function.update s.row k none k₁ = some (p₁, b₁) →
        s.row k₁ = some (p₁, b₁) ∧ k₁ ≠ k := by
      intro k₁ p₁ b₁ h₁
      by_cases hk : k₁ = k
      · subst hk
        rw [Function.update_self] at h₁
        cases h₁
      · rw [Function.update_of_ne hk] at h₁
        exact ⟨h₁, hk⟩
    refine ⟨fun k₁ p₁ b₁ h₁ => ?_, fun k₁ k₂ p₁ b₁ b₂ h₁ h₂ => ?_, fun p₁ b₁ h₁ => ?_⟩
    · obtain ⟨h₁, hk⟩ := hrest k₁ p₁ b₁ h₁
      have hp : p₁ ≠ p := fun hp => hk (h.apart _ _ _ _ _ (hp ▸ h₁) hrow)
      show Function.update s.file p none p₁ = some b₁
      rw [Function.update_of_ne hp]
      exact h.kept _ _ _ h₁
    · exact h.apart _ _ _ _ _ (hrest _ _ _ h₁).1 (hrest _ _ _ h₂).1
    · replace h₁ : Function.update s.file p none p₁ = some b₁ := h₁
      by_cases hp : p₁ = p
      · subst hp
        rw [Function.update_self] at h₁
        cases h₁
      · rw [Function.update_of_ne hp] at h₁
        obtain ⟨k₁, b', hnamed⟩ := h.named _ _ h₁
        have hk : k₁ ≠ k := by
          rintro rfl
          rw [hrow] at hnamed
          cases hnamed
          exact hp rfl
        exact ⟨k₁, b', (Function.update_of_ne hk ..).trans hnamed⟩

/-! ## 3. Several rows -/

/-- Rows are put with their files, one after the other. -/
def putAll (s : Cabinet κ π β) (rs : List (κ × π × β)) : Cabinet κ π β :=
  rs.foldl (fun s r => s.put r.1 r.2.1 r.2.2) s

/-- A row that fits still does after another row, at another place, has been put. -/
theorem Fits.put {k' : κ} {p' : π} (h : s.Fits k' p') (hk : k' ≠ k) (hp : p' ≠ p) :
    (s.put k p b).Fits k' p' := by
  refine ⟨fun k₁ b₁ h₁ => ?_, fun p₁ b₁ h₁ => ?_⟩
  · by_cases hk₁ : k₁ = k
    · subst hk₁
      rw [put_row_self] at h₁
      cases h₁
      exact absurd rfl hp
    · rw [put_row_ne hk₁] at h₁
      exact h.free _ _ h₁
  · rw [put_row_ne hk] at h₁
    exact h.stays _ _ h₁

/-- **Rows of different keys at different places may be put, if each of them may.** -/
theorem putAll_intact {rs : List (κ × π × β)} (h : s.Intact)
    (hdistinct : rs.Pairwise fun r r' => r.1 ≠ r'.1 ∧ r.2.1 ≠ r'.2.1)
    (hfits : ∀ r ∈ rs, s.Fits r.1 r.2.1) : (s.putAll rs).Intact := by
  induction rs generalizing s with
  | nil => exact h
  | cons r rest ih =>
    obtain ⟨hr, hrest⟩ := List.pairwise_cons.mp hdistinct
    refine ih ((hfits r List.mem_cons_self).put_intact h) hrest fun r' hr' => ?_
    exact (hfits r' (List.mem_cons_of_mem _ hr')).put (hr r' hr').1.symm (hr r' hr').2.symm

/-- A row of another key is what it was. -/
theorem putAll_row {rs : List (κ × π × β)} {k : κ} (h : ∀ r ∈ rs, r.1 ≠ k) :
    (s.putAll rs).row k = s.row k := by
  induction rs generalizing s with
  | nil => rfl
  | cons r rest ih =>
    have hrest : (s.putAll (r :: rest)).row k = (s.put r.1 r.2.1 r.2.2).row k :=
      ih fun r' hr' => h r' (List.mem_cons_of_mem _ hr')
    rw [hrest, put_row_ne (h r List.mem_cons_self).symm]

end Cabinet

end Lib
