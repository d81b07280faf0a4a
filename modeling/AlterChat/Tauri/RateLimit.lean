import AlterChat.Lib.Window
import AlterChat.Tauri.Inbound

/-!
# The rate limit

`rate_limit_allows` of `alterchat-ui/src-tauri/src/lib.rs` over a sequence of calls, for any peers.
A bucket is trimmed from the front only, and only when its peer calls.

* §1 a call, the buckets and the log of what was answered;
* §2 `LimiterInv` -- a bucket is what its window has kept of the granted times;
* §3 `rate_limit_window` -- the answer counts the granted times of the last minute.
-/

namespace AlterChat.RateLimit

open Lib Inbound

/-! ## 1. Calls -/

/-- A call of `rate_limit_allows`; `current_millis` counts from the epoch. -/
structure Call where
  peer : String
  nowMs : Int64
  sinceEpoch : 0 ≤ nowMs

/-- The buckets, and every call with its answer. -/
structure Limiter where
  buckets : String → List Int64
  log : List (Call × Bool)

def Limiter.start : Limiter where
  buckets _ := []
  log := []

/-- `rate_limit_allows` on the bucket of the caller; `limit` is `per_minute` of each peer. -/
def Limiter.allows (limit : String → Int64) (s : Limiter) (c : Call) : Bool :=
  (rateLimitAllows (s.buckets c.peer) c.nowMs (limit c.peer)).1

def Limiter.call (limit : String → Int64) (s : Limiter) (c : Call) : Limiter where
  buckets := Function.update s.buckets c.peer
    (rateLimitAllows (s.buckets c.peer) c.nowMs (limit c.peer)).2
  log := s.log ++ [(c, s.allows limit c)]

/-- The limiter after a sequence of calls. -/
def after (limit : String → Int64) (calls : List Call) : Limiter :=
  calls.foldl (Limiter.call limit) .start

/-- The answer to a call that comes after others. -/
def answer (limit : String → Int64) (calls : List Call) (c : Call) : Bool :=
  (after limit calls).allows limit c

/-- When calls for a peer returned true. -/
def Limiter.granted (s : Limiter) (peer : String) : List Int :=
  (s.log.filter fun e => decide (e.1.peer = peer) && e.2).map fun e => e.1.nowMs.toInt

/-- `per_minute.max(1)`. -/
def perMinute (limit : String → Int64) (peer : String) : Nat := (max (limit peer).toInt 1).toNat

theorem after_snoc (limit : String → Int64) (calls : List Call) (c : Call) :
    after limit (calls ++ [c]) = (after limit calls).call limit c := by
  simp [after]

theorem Limiter.granted_call (limit : String → Int64) (s : Limiter) (c : Call) (peer : String) :
    (s.call limit c).granted peer =
      s.granted peer ++
        if c.peer = peer ∧ s.allows limit c = true then [c.nowMs.toInt] else [] := by
  unfold Limiter.granted Limiter.call
  rw [List.filter_append, List.map_append]
  congr 1
  by_cases h : c.peer = peer ∧ s.allows limit c = true
  · rw [if_pos h]
    simp [h.1, h.2]
  · rw [if_neg h]
    simpa using h

theorem toNatClampNeg_max (x : Int64) : (max x 1).toNatClampNeg = (max x.toInt 1).toNat := by
  have hmax : max x 1 = if x ≤ 1 then 1 else x := rfl
  have hone : (1 : Int64).toInt = 1 := rfl
  rw [hmax, ← Int64.toNat_toInt]
  by_cases h : x ≤ 1
  · have hle : x.toInt ≤ 1 := Int64.le_iff_toInt_le.mp h
    rw [if_pos h, hone, max_eq_right hle]
  · have hle : ¬ x.toInt ≤ 1 := fun hle => h (Int64.le_iff_toInt_le.mpr hle)
    rw [if_neg h, max_eq_left (by omega)]

/-! ## 2. What a bucket holds -/

/-- The granted times of each peer are sorted and past, and its bucket is what a window of its last
    call has kept of them. -/
structure LimiterInv (limit : String → Int64) (now : Int) (s : Limiter) : Prop where
  kept : ∀ peer, ∃ cut, cut ≤ now - 60000 ∧
    (s.buckets peer).map Int64.toInt = since cut (s.granted peer)
  sorted : ∀ peer, (s.granted peer).Pairwise (· ≤ ·)
  past : ∀ peer, ∀ t ∈ s.granted peer, 0 ≤ t ∧ t ≤ now
  limited : ∀ peer, Limited (· - 60000) (perMinute limit peer) (s.granted peer)

section

variable {limit : String → Int64} {now : Int} {s : Limiter}

theorem LimiterInv.start : LimiterInv limit 0 .start where
  kept _ := ⟨0 - 60000, le_rfl, rfl⟩
  sorted _ := .nil
  past _ _ h := absurd h List.not_mem_nil
  limited _ := .nil

/-- Trimming leaves the granted times of the last minute: no difference overflows, as both times
    count from the epoch. -/
theorem LimiterInv.trimmed (h : LimiterInv limit now s) {c : Call} (hnow : now ≤ c.nowMs.toInt) :
    (((s.buckets c.peer).dropWhile fun ts => decide (60000 < c.nowMs - ts)).map Int64.toInt) =
      since (c.nowMs.toInt - 60000) (s.granted c.peer) := by
  obtain ⟨cut, hcut, hkept⟩ := h.kept c.peer
  have hin : ∀ ts ∈ s.buckets c.peer, 0 ≤ ts.toInt ∧ ts.toInt ≤ now := by
    intro ts hts
    have hmem : ts.toInt ∈ since cut (s.granted c.peer) := hkept ▸ List.mem_map_of_mem hts
    exact h.past c.peer _ (mem_since.mp hmem).1
  have hdrop : (s.buckets c.peer).dropWhile (fun ts => decide (60000 < c.nowMs - ts)) =
      (s.buckets c.peer).dropWhile
        ((fun t => decide (t < c.nowMs.toInt - 60000)) ∘ Int64.toInt) := by
    generalize s.buckets c.peer = bucket at hin
    induction bucket with
    | nil => rfl
    | cons ts rest ih =>
      obtain ⟨hpos, hle⟩ := hin ts List.mem_cons_self
      have hsub : (c.nowMs - ts).toInt = c.nowMs.toInt - ts.toInt :=
        Int64.toInt_sub_of_le c.nowMs ts (Int64.le_iff_toInt_le.mpr hpos)
          (Int64.le_iff_toInt_le.mpr (hle.trans hnow))
      have hsame : decide ((60000 : Int64) < c.nowMs - ts) =
          decide (ts.toInt < c.nowMs.toInt - 60000) := by
        refine decide_eq_decide.mpr ?_
        rw [Int64.lt_iff_toInt_lt, hsub]
        have hms : (60000 : Int64).toInt = 60000 := rfl
        omega
      rw [List.dropWhile_cons, List.dropWhile_cons, hsame,
        ih fun ts hts => hin ts (List.mem_cons_of_mem _ hts)]
      rfl
  have hsorted : (since cut (s.granted c.peer)).Pairwise (· ≤ ·) := (h.sorted c.peer).filter _
  rw [hdrop, ← List.dropWhile_map, hkept, dropWhile_eq_since hsorted,
    since_since (by omega)]

/-- **The answer counts the granted times of the last minute.** -/
theorem LimiterInv.allows_iff (h : LimiterInv limit now s) {c : Call} (hnow : now ≤ c.nowMs.toInt) :
    s.allows limit c = true ↔
      (since (c.nowMs.toInt - 60000) (s.granted c.peer)).length < perMinute limit c.peer := by
  have hlen := congrArg List.length (h.trimmed hnow)
  rw [List.length_map] at hlen
  unfold Limiter.allows rateLimitAllows perMinute
  rw [toNatClampNeg_max, ← hlen]
  dsimp only
  split
  · next hfull => exact iff_of_false Bool.false_ne_true (Nat.not_lt.mpr hfull)
  · next hroom => exact iff_of_true rfl (Nat.lt_of_not_le hroom)

theorem LimiterInv.call (h : LimiterInv limit now s) {c : Call} (hnow : now ≤ c.nowMs.toInt) :
    LimiterInv limit c.nowMs.toInt (s.call limit c) where
  kept peer := by
    rw [Limiter.granted_call]
    by_cases hpeer : c.peer = peer
    · subst hpeer
      refine ⟨c.nowMs.toInt - 60000, le_rfl, ?_⟩
      have hbucket : (s.call limit c).buckets c.peer =
          (rateLimitAllows (s.buckets c.peer) c.nowMs (limit c.peer)).2 :=
        Function.update_self ..
      have htrim := h.trimmed hnow
      rw [hbucket, since_append, ← htrim]
      unfold Limiter.allows rateLimitAllows
      dsimp only
      split
      · simp [since]
      · simp [since]
    · obtain ⟨cut, hcut, hkept⟩ := h.kept peer
      refine ⟨cut, by omega, ?_⟩
      have hbucket : (s.call limit c).buckets peer = s.buckets peer :=
        Function.update_of_ne (Ne.symm hpeer) ..
      rw [hbucket, hkept, if_neg fun hc => hpeer hc.1, List.append_nil]
  sorted peer := by
    rw [Limiter.granted_call, List.pairwise_append]
    refine ⟨h.sorted peer, ?_, fun t ht t' ht' => ?_⟩
    · split
      · exact List.pairwise_singleton ..
      · exact .nil
    · have hpast := (h.past peer t ht).2
      split at ht'
      · rw [List.mem_singleton.mp ht']
        omega
      · exact absurd ht' List.not_mem_nil
  past peer t ht := by
    rw [Limiter.granted_call, List.mem_append] at ht
    rcases ht with ht | ht
    · have hpast := h.past peer t ht
      omega
    · split at ht
      · rw [List.mem_singleton.mp ht]
        exact ⟨Int64.le_iff_toInt_le.mp c.sinceEpoch, le_rfl⟩
      · exact absurd ht List.not_mem_nil
  limited peer := by
    rw [Limiter.granted_call]
    split
    · next hgranted =>
      obtain ⟨rfl, hallows⟩ := hgranted
      exact .snoc _ _ (h.limited c.peer) ((h.allows_iff hnow).mp hallows)
    · rw [List.append_nil]
      exact h.limited peer

end

/-- The clock does not go backwards. -/
def Ordered (calls : List Call) : Prop := calls.Pairwise fun c d => c.nowMs ≤ d.nowMs

instance Ordered.decidable (calls : List Call) : Decidable (Ordered calls) :=
  inferInstanceAs (Decidable (calls.Pairwise fun c d => c.nowMs ≤ d.nowMs))

/-- What is true of the limiter at any time not before the calls so far. -/
theorem after_inv (limit : String → Int64) {calls : List Call} (h : Ordered calls) :
    ∃ now, (∀ c : Call, (∀ d ∈ calls, d.nowMs ≤ c.nowMs) → now ≤ c.nowMs.toInt) ∧
      LimiterInv limit now (after limit calls) := by
  induction calls using List.reverseRecOn with
  | nil => exact ⟨0, fun c _ => Int64.le_iff_toInt_le.mp c.sinceEpoch, .start⟩
  | append_singleton calls d ih =>
    obtain ⟨hbefore, -, hle⟩ := List.pairwise_append.mp h
    obtain ⟨now, hnow, hinv⟩ := ih hbefore
    have hd : now ≤ d.nowMs.toInt := hnow d fun c hc => hle c hc d (List.mem_singleton_self d)
    refine ⟨d.nowMs.toInt, fun c hc => ?_, ?_⟩
    · exact Int64.le_iff_toInt_le.mp (hc d (by simp))
    · rw [after_snoc]
      exact hinv.call hd

/-- A bucket is written by the calls of its own peer alone. -/
theorem after_buckets (limit : String → Int64) (calls : List Call) (peer : String) :
    (after limit calls).buckets peer =
      (after limit (calls.filter fun c => decide (c.peer = peer))).buckets peer := by
  induction calls using List.reverseRecOn with
  | nil => rfl
  | append_singleton calls d ih =>
    rw [after_snoc, List.filter_append]
    by_cases hpeer : d.peer = peer
    · subst hpeer
      have hone : [d].filter (fun c => decide (c.peer = d.peer)) = [d] := by simp
      rw [hone, after_snoc]
      simp only [Limiter.call, Function.update_self, ih]
    · have hnone : [d].filter (fun c => decide (c.peer = peer)) = [] := by simpa using hpeer
      rw [hnone, List.append_nil, ← ih]
      exact Function.update_of_ne (Ne.symm hpeer) ..

/-! ## 3. The window -/

/-- **The rate limit is an exact sliding window** of a minute: a call is answered by the granted
    times of the closed minute before it, no closed minute holds more than the limit, and the calls
    for other peers do not matter. -/
theorem rate_limit_window (limit : String → Int64) (calls : List Call) (h : Ordered calls) :
    (∀ before c rest, calls = before ++ c :: rest →
      (answer limit before c = true ↔
        (between (c.nowMs.toInt - 60000) c.nowMs.toInt
          ((after limit before).granted c.peer)).length < perMinute limit c.peer) ∧
      answer limit before c = answer limit (before.filter fun d => decide (d.peer = c.peer)) c) ∧
    ∀ peer start, (between start (start + 60000) ((after limit calls).granted peer)).length ≤
      perMinute limit peer := by
  refine ⟨fun before c rest hcalls => ⟨?_, ?_⟩, fun peer start => ?_⟩
  · subst hcalls
    obtain ⟨hbefore, -, hle⟩ := List.pairwise_append.mp h
    obtain ⟨now, hnow, hinv⟩ := after_inv limit hbefore
    have hc : now ≤ c.nowMs.toInt := hnow c fun d hd => hle d hd c List.mem_cons_self
    have hpast :
      between (c.nowMs.toInt - 60000) c.nowMs.toInt ((after limit before).granted c.peer) =
        since (c.nowMs.toInt - 60000) ((after limit before).granted c.peer) := by
      refine List.filter_congr fun t ht => decide_eq_decide.mpr ?_
      have hle := (hinv.past c.peer t ht).2
      omega
    rw [hpast]
    exact hinv.allows_iff hc
  · unfold answer Limiter.allows
    rw [← after_buckets]
  · obtain ⟨now, -, hinv⟩ := after_inv limit h
    have hmono : Monotone fun t : Int => t - 60000 := fun a b hab => by
      show a - 60000 ≤ b - 60000
      omega
    exact (hinv.limited peer).between_le hmono (by simp)

/-- One call a minute: exactly a minute later is too early, and someone else's call is no matter. -/
def knocks : List Call :=
  [⟨"bob", 0, by decide⟩, ⟨"carol", 5, by decide⟩, ⟨"bob", 60000, by decide⟩]

theorem rate_limit_window_knocks : Ordered (knocks ++ [⟨"bob", 60001, by decide⟩]) ∧
    (answer (fun _ => 1) knocks ⟨"bob", 60001, by decide⟩ = true ↔
      (between 1 60001 ((after (fun _ => 1) knocks).granted "bob")).length < 1) :=
  have h : Ordered (knocks ++ [⟨"bob", 60001, by decide⟩]) := by decide
  ⟨h, ((rate_limit_window (fun _ => 1) _ h).1 knocks _ [] rfl).1⟩

example :
    (knocks.map fun c => answer (fun _ => 1) (knocks.takeWhile fun d => d.nowMs < c.nowMs) c) =
      [true, true, false] := by decide

end AlterChat.RateLimit
