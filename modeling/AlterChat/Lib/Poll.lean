import Mathlib.Data.Prod.Lex
import Mathlib.Data.Finset.Max

/-!
# Elections by score, ties by name

A loop keeps the best candidate so far, a pair of a score and a name: a higher score replaces it, on
the same score the greater name does. One comparison is the maximum of the lexicographic order
(`toLex_contest`), so the loop's answer is the greatest of the seed and of what it has seen, in
whatever order (`poll_eq_iff`).

For an electorate with a score each, `Winner` is the greatest of all: who seeds the loop with their
own name finds the winner (`poll_own`), and a seed with another name wins or loses by its place in
the order (`poll_seed`, `poll_other`, `poll_winner_loses`).
-/

namespace Lib

variable {S I : Type} [LinearOrder S] [LinearOrder I]

/-! ## 1. The loop -/

/-- One round: the candidate so far against the next. -/
def contest (best next : S × I) : S × I :=
  if best.1 < next.1 then next
  else if next.1 = best.1 ∧ best.2 < next.2 then (best.1, next.2)
  else best

theorem toLex_contest (a b : S × I) : toLex (contest a b) = max (toLex a) (toLex b) := by
  unfold contest
  split_ifs with hlt htie
  · exact (max_eq_right (Prod.Lex.toLex_le_toLex.mpr (.inl hlt))).symm
  · have hb : (a.1, b.2) = b := by rw [← htie.1]
    rw [hb]
    exact (max_eq_right (Prod.Lex.toLex_le_toLex.mpr (.inr ⟨htie.1.symm, htie.2.le⟩))).symm
  · refine (max_eq_left (Prod.Lex.toLex_le_toLex.mpr ?_)).symm
    rcases lt_or_eq_of_le (not_lt.mp hlt) with h | h
    · exact .inl h
    · exact .inr ⟨h, not_lt.mp fun h' => htie ⟨h, h'⟩⟩

/-- The best of the seed and the candidates. -/
def poll (seed : S × I) (candidates : List (S × I)) : S × I := candidates.foldl contest seed

@[simp] theorem poll_nil (seed : S × I) : poll seed [] = seed := rfl

@[simp] theorem poll_cons (seed c : S × I) (cs : List (S × I)) :
    poll seed (c :: cs) = poll (contest seed c) cs := rfl

theorem contest_choice (a b : S × I) : contest a b = a ∨ contest a b = b := by
  rcases max_choice (toLex a) (toLex b) with h | h
  · exact .inl (toLex.injective ((toLex_contest a b).trans h))
  · exact .inr (toLex.injective ((toLex_contest a b).trans h))

theorem poll_mem (seed : S × I) (cs : List (S × I)) : poll seed cs ∈ seed :: cs := by
  induction cs generalizing seed with
  | nil => exact List.mem_cons_self
  | cons c cs ih =>
    rw [poll_cons]
    rcases List.mem_cons.mp (ih (contest seed c)) with h | h
    · rw [h]
      rcases contest_choice seed c with h' | h' <;> simp [h']
    · exact List.mem_cons_of_mem _ (List.mem_cons_of_mem _ h)

theorem le_poll {seed c : S × I} {cs : List (S × I)} (hc : c ∈ seed :: cs) :
    toLex c ≤ toLex (poll seed cs) := by
  induction cs generalizing seed c with
  | nil => rw [List.mem_singleton.mp hc, poll_nil]
  | cons d cs ih =>
    have hstep : toLex (contest seed d) ≤ toLex (poll seed (d :: cs)) := ih List.mem_cons_self
    rw [toLex_contest] at hstep
    rcases List.mem_cons.mp hc with rfl | hc
    · exact (le_max_left _ _).trans hstep
    · rcases List.mem_cons.mp hc with rfl | hc
      · exact (le_max_right _ _).trans hstep
      · exact ih (List.mem_cons_of_mem _ hc)

/-- **The loop's answer is the greatest candidate**, the seed among them. -/
theorem poll_eq_iff (seed w : S × I) (cs : List (S × I)) :
    poll seed cs = w ↔ w ∈ seed :: cs ∧ ∀ c ∈ seed :: cs, toLex c ≤ toLex w := by
  constructor
  · intro h
    rw [← h]
    exact ⟨poll_mem seed cs, fun c hc => le_poll hc⟩
  · intro h
    exact toLex.injective (le_antisymm (h.2 _ (poll_mem seed cs)) (le_poll h.1))

/-! ## 2. An electorate -/

/-- The greatest score, and among those who have it the greatest name. -/
structure Winner (P : Finset I) (score : I → S) (w : I) : Prop where
  mem : w ∈ P
  le : ∀ p ∈ P, toLex (score p, p) ≤ toLex (score w, w)

variable {P : Finset I} {score : I → S}

theorem exists_winner (score : I → S) (h : P.Nonempty) : ∃ w, Winner P score w := by
  obtain ⟨w, hw, hle⟩ := P.exists_max_image (fun p => toLex (score p, p)) h
  exact ⟨w, hw, hle⟩

/-- The others, with their scores. -/
def Others (P : Finset I) (score : I → S) (me : I) (cs : List (S × I)) : Prop :=
  ∀ c, c ∈ cs ↔ c.2 ∈ P ∧ c.2 ≠ me ∧ c.1 = score c.2

variable {me w : I} {cs : List (S × I)}

theorem Winner.others_le (hw : Winner P score w) (hcs : Others P score me cs) {c : S × I}
    (hc : c ∈ cs) : toLex c ≤ toLex (score w, w) := by
  obtain ⟨hmem, -, hs⟩ := (hcs c).mp hc
  have hle := hw.le c.2 hmem
  rwa [← hs] at hle

/-- **Who seeds the loop with their own name finds the winner.** -/
theorem poll_own (hw : Winner P score w) (hme : me ∈ P) (hcs : Others P score me cs) :
    poll (score me, me) cs = (score w, w) := by
  refine (poll_eq_iff _ _ _).mpr ⟨?_, ?_⟩
  · by_cases h : w = me
    · rw [h]
      exact List.mem_cons_self
    · exact List.mem_cons_of_mem _ ((hcs _).mpr ⟨hw.mem, h, rfl⟩)
  · intro c hc
    rcases List.mem_cons.mp hc with rfl | hc
    · exact hw.le me hme
    · exact hw.others_le hcs hc

/-- Another client's loop finds the winner, unless its seed is greater. -/
theorem poll_other (hw : Winner P score w) (hcs : Others P score me cs) (hne : w ≠ me) {q : I}
    (hq : toLex (score me, q) ≤ toLex (score w, w)) : poll (score me, q) cs = (score w, w) := by
  refine (poll_eq_iff _ _ _).mpr ⟨?_, ?_⟩
  · exact List.mem_cons_of_mem _ ((hcs _).mpr ⟨hw.mem, hne, rfl⟩)
  · intro c hc
    rcases List.mem_cons.mp hc with rfl | hc
    · exact hq
    · exact hw.others_le hcs hc

/-- A seed that is greater than every candidate stays. -/
theorem poll_seed (hw : Winner P score w) (hcs : Others P score me cs) {q : I}
    (hq : toLex (score w, w) ≤ toLex (score me, q)) : poll (score me, q) cs = (score me, q) := by
  refine (poll_eq_iff _ _ _).mpr ⟨List.mem_cons_self, ?_⟩
  intro c hc
  rcases List.mem_cons.mp hc with rfl | hc
  · exact le_rfl
  · exact (hw.others_le hcs hc).trans hq

/-- **The winner's own loop does not find the winner** from a seed with another, smaller name. -/
theorem poll_winner_loses (hcs : Others P score w cs) {q : I} (hq : q ≠ w) :
    (poll (score w, q) cs).2 ≠ w := by
  intro heq
  obtain ⟨hmem, -⟩ := (poll_eq_iff (score w, q) _ cs).mp rfl
  rcases List.mem_cons.mp hmem with h | h
  · rw [h] at heq
    exact hq heq
  · exact ((hcs _).mp h).2.1 heq

end Lib
