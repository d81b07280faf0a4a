import Mathlib.Algebra.Order.Group.Multiset
import Mathlib.Data.List.Induction

/-!
# A channel that delivers each message at most once

The ideal channel: what is sent is in flight until it is delivered, in any order, or never. `run` is
the channel as a machine over the multiset of messages in flight, and `none` where a delivery is not
of a message in flight: a trace is one of the channel when its run is `some`.
-/

namespace Lib

/-- What can happen to a message. -/
inductive Transit (M : Type) where
  | send (m : M)
  | deliver (m : M)

namespace Channel

variable {M : Type}

/-- The messages sent in a trace. -/
def sent : List (Transit M) → Multiset M
  | [] => 0
  | .send m :: es => m ::ₘ sent es
  | .deliver _ :: es => sent es

/-- The messages delivered in a trace. -/
def delivered : List (Transit M) → Multiset M
  | [] => 0
  | .send _ :: es => delivered es
  | .deliver m :: es => m ::ₘ delivered es

theorem sent_append (es es' : List (Transit M)) : sent (es ++ es') = sent es + sent es' := by
  induction es with
  | nil => exact (zero_add _).symm
  | cons e es ih => cases e <;> simp [sent, ih]

theorem delivered_append (es es' : List (Transit M)) :
    delivered (es ++ es') = delivered es + delivered es' := by
  induction es with
  | nil => exact (zero_add _).symm
  | cons e es ih => cases e <;> simp [delivered, ih]

variable [DecidableEq M]

/-- What is in flight after an event. -/
def step (s : Multiset M) : Transit M → Option (Multiset M)
  | .send m => some (m ::ₘ s)
  | .deliver m => if m ∈ s then some (s.erase m) else none

/-- What is in flight after a trace; `none` where the trace is not one of the channel. -/
def run (es : List (Transit M)) : Option (Multiset M) := es.foldlM step 0

theorem run_snoc (es : List (Transit M)) (e : Transit M) :
    run (es ++ [e]) = (run es).bind fun s => step s e := by
  unfold run
  rw [List.foldlM_append]
  refine congrArg _ (funext fun s => ?_)
  exact bind_pure (step s e)

/-- What every event keeps: what was sent is delivered or in flight. -/
theorem step_conserves {s s' : Multiset M} {e : Transit M} (h : step s e = some s') :
    s + sent [e] = delivered [e] + s' := by
  cases e with
  | send m =>
    cases h
    show s + {m} = 0 + m ::ₘ s
    rw [zero_add, add_comm, Multiset.singleton_add]
  | deliver m =>
    simp only [step] at h
    split at h
    · next hm =>
      cases h
      show s + 0 = {m} + s.erase m
      rw [add_zero, Multiset.singleton_add, Multiset.cons_erase hm]
    · cases h

/-- **What was sent is delivered or in flight**, and nothing else is. -/
theorem run_conserves {es : List (Transit M)} {s : Multiset M} (h : run es = some s) :
    sent es = delivered es + s := by
  induction es using List.reverseRecOn generalizing s with
  | nil =>
    cases h
    rfl
  | append_singleton es e ih =>
    rw [run_snoc] at h
    obtain ⟨s₀, h₀, hs⟩ := Option.bind_eq_some_iff.mp h
    rw [sent_append, delivered_append, ih h₀, add_assoc, step_conserves hs, add_assoc]

/-- A message that was sent more often than it was delivered can be delivered. -/
theorem run_deliver {es : List (Transit M)} {m : M} (h : (run es).isSome)
    (hle : delivered es + {m} ≤ sent es) : (run (es ++ [.deliver m])).isSome := by
  obtain ⟨s, hs⟩ := Option.isSome_iff_exists.mp h
  have hm : m ∈ s := by
    rw [run_conserves hs] at hle
    exact Multiset.singleton_le.mp (Multiset.add_le_add_iff_left.mp hle)
  rw [run_snoc, hs]
  simp [step, hm]

theorem run_send {es : List (Transit M)} (h : (run es).isSome) (m : M) :
    (run (es ++ [.send m])).isSome := by
  obtain ⟨s, hs⟩ := Option.isSome_iff_exists.mp h
  rw [run_snoc, hs]
  rfl

end Channel

end Lib
