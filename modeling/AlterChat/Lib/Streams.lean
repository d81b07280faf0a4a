import Mathlib.Data.List.Nodup

/-!
# Counters under keys

A stream uses the nonces of a counter, from its start, under one key. The counter comes round after
`period` steps (`Wraps`). `streams_nodup_iff`: any number of streams use no pair of a key and a
nonce twice just when no stream is longer than the period and no two that use any nonce have the
same key.
-/

namespace Lib

variable {K N : Type} {iv : Nat → N} {period : Nat}

/-- The nonces of a counter: distinct for one period, and then the first again. -/
structure Wraps (iv : Nat → N) (period : Nat) : Prop where
  pos : 0 < period
  inj : ∀ i j, i < period → j < period → iv i = iv j → i = j
  again : iv period = iv 0

/-- What a stream is: its key and how many nonces it uses. -/
structure Stream (K : Type) where
  key : K
  length : Nat

namespace Stream

/-- The pairs a stream uses. -/
def uses (iv : Nat → N) (s : Stream K) : List (K × N) :=
  (List.range s.length).map fun i => (s.key, iv i)

theorem mem_uses {s : Stream K} {u : K × N} :
    u ∈ s.uses iv ↔ ∃ i, i < s.length ∧ u = (s.key, iv i) := by
  simp only [uses, List.mem_map, List.mem_range, eq_comm]

theorem uses_nodup_iff (h : Wraps iv period) (s : Stream K) :
    (s.uses iv).Nodup ↔ s.length ≤ period := by
  constructor
  · intro hnd
    by_contra hlen
    have h0 : 0 < s.length := by omega
    have hp : period < s.length := by omega
    have hlast : period < (s.uses iv).length := by simpa [uses] using hp
    have hfirst : 0 < (s.uses iv).length := by simpa [uses] using h0
    have heq : (s.uses iv)[period] = (s.uses iv)[0] := by simp [uses, h.again]
    exact absurd ((List.Nodup.getElem_inj_iff hnd).mp heq) (Nat.ne_of_gt h.pos)
  · intro hlen
    refine List.Nodup.map_on ?_ List.nodup_range
    intro i hi j hj heq
    rw [List.mem_range] at hi hj
    exact h.inj i j (by omega) (by omega) (Prod.mk.inj heq).2

/-- Two streams under one key that use any nonce both use the first. -/
theorem uses_disjoint_iff (s t : Stream K) :
    List.Disjoint (s.uses iv) (t.uses iv) ↔ (0 < s.length → 0 < t.length → s.key ≠ t.key) := by
  constructor
  · intro hdis hs ht hkey
    exact hdis (mem_uses.mpr ⟨0, hs, rfl⟩) (mem_uses.mpr ⟨0, ht, by rw [hkey]⟩)
  · intro hkey u hus hut
    obtain ⟨i, hi, rfl⟩ := mem_uses.mp hus
    obtain ⟨j, hj, heq⟩ := mem_uses.mp hut
    exact hkey (by omega) (by omega) (Prod.mk.inj heq).1

end Stream

/-- **No pair is used twice just when** no stream outlives the period, and those that use anything
have a key each. -/
theorem streams_nodup_iff (h : Wraps iv period) (ss : List (Stream K)) :
    (ss.flatMap (Stream.uses iv)).Nodup ↔
      (∀ s ∈ ss, s.length ≤ period) ∧
        (ss.filter fun s => 0 < s.length).Pairwise fun s t => s.key ≠ t.key := by
  rw [List.nodup_flatMap, List.pairwise_filter]
  refine and_congr ?_ ?_
  · exact forall₂_congr fun s _ => Stream.uses_nodup_iff h s
  · refine List.Pairwise.iff fun s t => ?_
    refine (Stream.uses_disjoint_iff s t).trans ?_
    simp only [decide_eq_true_eq]

end Lib
