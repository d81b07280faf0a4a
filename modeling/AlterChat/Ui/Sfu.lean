import AlterChat.Lib.Js
import AlterChat.Lib.Poll

/-!
# `App.tsx`: the election of the SFU host

Every client of a call of more than `sfuThreshold` participants names one of them the host: the loop
over `peerCapacities` starts at the own score and, for a name, at
`preferredSfuPeer.trim() || peerId`.

* §1 the effect; `electSfuHost_eq` -- its loop is `Lib.poll`;
* §2 clients that know one score for each participant; `hosts_agree_iff` -- they name the same host
  just when the preferred peer is the one they would name anyway.
-/

namespace AlterChat.Sfu

open Lib Lib.Js

/-! ## 1. The effect -/

/-- One round of the loop: the state is `(maxScore, hostId)`. -/
def challenge (peerCapacities : List (JsString × Int)) (best : Int × JsString) (peer : JsString) :
    Int × JsString :=
  match peerCapacities.lookup peer with
  | none => best
  | some score =>
    if score > best.1 then (score, peer)
    else if score = best.1 ∧ peer > best.2 then (best.1, peer)
    else best

/-- The SFU election: `setSfuHost(hostId)`, or `setSfuHost(null)` for the full mesh. The entries of
`peerCapacities` stand in the order of `Object.keys`. -/
def electSfuHost (peerId : JsString) (myCapacity : Int) (peerCapacities : List (JsString × Int))
    (sfuThreshold : Int) (preferredSfuPeer : JsString) : Option JsString :=
  let activePeers := peerCapacities.map Prod.fst
  if (activePeers.length : Int) + 1 > sfuThreshold then
    let hostId := if trim preferredSfuPeer = [] then peerId else trim preferredSfuPeer
    some (activePeers.foldl (challenge peerCapacities) (myCapacity, hostId)).2
  else none

theorem lookup_entry {peerCapacities : List (JsString × Int)}
    (hnd : (peerCapacities.map Prod.fst).Nodup) {e : JsString × Int} (he : e ∈ peerCapacities) :
    peerCapacities.lookup e.1 = some e.2 := by
  induction peerCapacities with
  | nil => cases he
  | cons d rest ih =>
    rw [List.map_cons, List.nodup_cons] at hnd
    rw [List.lookup_cons]
    rcases List.mem_cons.mp he with rfl | he
    · rw [beq_self_eq_true]
    · have hne : (e.1 == d.1) = false := by
        refine beq_eq_false_iff_ne.mpr fun h => hnd.1 ?_
        rw [← h]
        exact List.mem_map_of_mem he
      rw [hne]
      exact ih hnd.2 he

/-- **The loop of the effect is `poll`** over the scores of the keys. -/
theorem foldl_challenge {peerCapacities : List (JsString × Int)}
    (hnd : (peerCapacities.map Prod.fst).Nodup) (best : Int × JsString) :
    (peerCapacities.map Prod.fst).foldl (challenge peerCapacities) best =
      poll best (peerCapacities.map Prod.swap) := by
  have loop : ∀ l : List (JsString × Int), (∀ e ∈ l, e ∈ peerCapacities) → ∀ best,
      (l.map Prod.fst).foldl (challenge peerCapacities) best = poll best (l.map Prod.swap) := by
    intro l
    induction l with
    | nil => exact fun _ _ => rfl
    | cons e l ih =>
      intro hl best
      have hround : challenge peerCapacities best e.1 = contest best e.swap := by
        rw [challenge, lookup_entry hnd (hl e List.mem_cons_self), contest]
        simp only [gt_iff_lt, Prod.fst_swap, Prod.snd_swap]
        congr
      rw [List.map_cons, List.foldl_cons, hround,
        ih fun d hd => hl d (List.mem_cons_of_mem _ hd)]
      rfl
  exact loop peerCapacities (fun _ he => he) best

/-! ## 2. The clients of one call -/

/-- The capacities client `me` knows: each other participant's under its peer id. -/
structure Knows (P : Finset JsString) (score : JsString → Int) (me : JsString)
    (peerCapacities : List (JsString × Int)) : Prop where
  nodup : (peerCapacities.map Prod.fst).Nodup
  mem_iff : ∀ e, e ∈ peerCapacities ↔ e.1 ∈ P ∧ e.1 ≠ me ∧ e.2 = score e.1

/-- All clients name the same host, whatever order their capacities are enumerated in. -/
def HostsAgree (P : Finset JsString) (score : JsString → Int) (sfuThreshold : Int)
    (preferredSfuPeer : JsString) : Prop :=
  ∀ a ∈ P, ∀ b ∈ P, ∀ capsA capsB, Knows P score a capsA → Knows P score b capsB →
    electSfuHost a (score a) capsA sfuThreshold preferredSfuPeer =
      electSfuHost b (score b) capsB sfuThreshold preferredSfuPeer

variable {P : Finset JsString} {score : JsString → Int} {me w : JsString}
  {peerCapacities : List (JsString × Int)} {sfuThreshold : Int} {preferredSfuPeer : JsString}

theorem knows_of_keys (P : Finset JsString) (score : JsString → Int) (me : JsString)
    (keys : List JsString) (hnd : keys.Nodup)
    (hkeys : ∀ p, p ∈ keys ↔ p ∈ P ∧ p ≠ me) :
    Knows P score me (keys.map fun p => (p, score p)) := by
  refine ⟨?_, fun e => ?_⟩
  · rw [List.map_map]
    exact (List.map_id _).symm ▸ hnd
  · rw [List.mem_map]
    constructor
    · intro h
      obtain ⟨p, hp, rfl⟩ := h
      obtain ⟨hmem, hne⟩ := (hkeys p).mp hp
      exact ⟨hmem, hne, rfl⟩
    · intro h
      exact ⟨e.1, (hkeys e.1).mpr ⟨h.1, h.2.1⟩, Prod.ext rfl h.2.2.symm⟩

theorem exists_knows (P : Finset JsString) (score : JsString → Int) (me : JsString) :
    ∃ peerCapacities, Knows P score me peerCapacities :=
  ⟨_, knows_of_keys P score me (P.erase me).toList (P.erase me).nodup_toList fun p => by
    rw [Finset.mem_toList, Finset.mem_erase, and_comm]⟩

theorem Knows.others (h : Knows P score me peerCapacities) :
    Others P score me (peerCapacities.map Prod.swap) := by
  intro c
  rw [List.mem_map]
  constructor
  · intro hc
    obtain ⟨e, he, rfl⟩ := hc
    exact (h.mem_iff e).mp he
  · intro hc
    exact ⟨c.swap, (h.mem_iff c.swap).mpr hc, c.swap_swap⟩

theorem Knows.length (h : Knows P score me peerCapacities) (hme : me ∈ P) :
    peerCapacities.length + 1 = P.card := by
  have hset : (peerCapacities.map Prod.fst).toFinset = P.erase me := by
    ext p
    rw [List.mem_toFinset, List.mem_map]
    constructor
    · intro hp
      obtain ⟨e, he, rfl⟩ := hp
      obtain ⟨hmem, hne, -⟩ := (h.mem_iff e).mp he
      exact Finset.mem_erase.mpr ⟨hne, hmem⟩
    · intro hp
      obtain ⟨hne, hmem⟩ := Finset.mem_erase.mp hp
      exact ⟨(p, score p), (h.mem_iff _).mpr ⟨hmem, hne, rfl⟩, rfl⟩
  have hcard := List.toFinset_card_of_nodup h.nodup
  rw [hset, Finset.card_erase_of_mem hme, List.length_map] at hcard
  have := Finset.card_pos.mpr ⟨me, hme⟩
  omega

/-- **Above the threshold a client names the winner of its poll.** -/
theorem electSfuHost_eq (h : Knows P score me peerCapacities) (hme : me ∈ P)
    (hT : sfuThreshold < P.card) :
    electSfuHost me (score me) peerCapacities sfuThreshold preferredSfuPeer =
      some (poll (score me, if trim preferredSfuPeer = [] then me else trim preferredSfuPeer)
        (peerCapacities.map Prod.swap)).2 := by
  have hlen := h.length hme
  rw [electSfuHost]
  simp only [List.length_map]
  rw [if_pos (by omega), foldl_challenge h.nodup]

theorem electSfuHost_mesh (h : Knows P score me peerCapacities) (hme : me ∈ P)
    (hT : (P.card : Int) ≤ sfuThreshold) :
    electSfuHost me (score me) peerCapacities sfuThreshold preferredSfuPeer = none := by
  have hlen := h.length hme
  rw [electSfuHost]
  simp only [List.length_map]
  rw [if_neg (by omega)]

/-! ## 3. Agreement -/

theorem elect_blank (hw : Winner P score w) (h : Knows P score me peerCapacities) (hme : me ∈ P)
    (hT : sfuThreshold < P.card) (hblank : trim preferredSfuPeer = []) :
    electSfuHost me (score me) peerCapacities sfuThreshold preferredSfuPeer = some w := by
  rw [electSfuHost_eq h hme hT, if_pos hblank, poll_own hw hme h.others]

theorem elect_other (hw : Winner P score w) (h : Knows P score me peerCapacities) (hme : me ∈ P)
    (hT : sfuThreshold < P.card) (hne : w ≠ me) (hset : trim preferredSfuPeer ≠ [])
    (hle : score me < score w ∨ trim preferredSfuPeer ≤ w) :
    electSfuHost me (score me) peerCapacities sfuThreshold preferredSfuPeer = some w := by
  have hscore : score me ≤ score w := by
    rcases Prod.Lex.toLex_le_toLex.mp (hw.le me hme) with hlt | heq
    · exact hlt.le
    · exact heq.1.le
  have hq : toLex (score me, trim preferredSfuPeer) ≤ toLex (score w, w) := by
    refine Prod.Lex.toLex_le_toLex.mpr ?_
    rcases hle with hlt | hle
    · exact .inl hlt
    · rcases hscore.lt_or_eq with hlt | heq
      · exact .inl hlt
      · exact .inr ⟨heq, hle⟩
  rw [electSfuHost_eq h hme hT, if_neg hset, poll_other hw h.others hne hq]

theorem elect_seed (hw : Winner P score w) (h : Knows P score me peerCapacities) (hme : me ∈ P)
    (hT : sfuThreshold < P.card) (hset : trim preferredSfuPeer ≠ []) (heq : score me = score w)
    (hle : w ≤ trim preferredSfuPeer) :
    electSfuHost me (score me) peerCapacities sfuThreshold preferredSfuPeer =
      some (trim preferredSfuPeer) := by
  have hq : toLex (score w, w) ≤ toLex (score me, trim preferredSfuPeer) :=
    Prod.Lex.toLex_le_toLex.mpr (.inr ⟨heq.symm, hle⟩)
  rw [electSfuHost_eq h hme hT, if_neg hset, poll_seed hw h.others hq]

theorem elect_winner (hw : Winner P score w) (h : Knows P score w peerCapacities)
    (hT : sfuThreshold < P.card) (hset : trim preferredSfuPeer ≠ [])
    (hne : trim preferredSfuPeer ≠ w) :
    electSfuHost w (score w) peerCapacities sfuThreshold preferredSfuPeer ≠ some w := by
  rw [electSfuHost_eq h hw.mem hT, if_neg hset]
  exact fun heq => poll_winner_loses h.others hne (Option.some.inj heq)

/-- What everybody names, everybody agrees on. -/
theorem hostsAgree_of_const {r : Option JsString}
    (h : ∀ me ∈ P, ∀ caps, Knows P score me caps →
      electSfuHost me (score me) caps sfuThreshold preferredSfuPeer = r) :
    HostsAgree P score sfuThreshold preferredSfuPeer := by
  intro a ha b hb capsA capsB hA hB
  rw [h a ha capsA hA, h b hb capsB hB]

/-- Where somebody is elected, a name that is not the winner divides the winner's own client from
    another. -/
theorem agree_of_hostsAgree (hagree : HostsAgree P score sfuThreshold preferredSfuPeer) :
    (P.card : Int) ≤ sfuThreshold ∨ P.card ≤ 1 ∨ trim preferredSfuPeer = [] ∨
      ∃ w, Winner P score w ∧ (trim preferredSfuPeer = w ∨
        w < trim preferredSfuPeer ∧ ∀ p ∈ P, score p = score w) := by
  by_contra hno
  push Not at hno
  obtain ⟨hT, hcard, hset, hno⟩ := hno
  have hpos : P.Nonempty := Finset.card_pos.mp (by omega)
  obtain ⟨w, hw⟩ := exists_winner score hpos
  obtain ⟨hne, hlow⟩ := hno w hw
  -- the winner's own client names somebody else
  obtain ⟨capsW, hcapsW⟩ := exists_knows P score w
  have hself := elect_winner hw hcapsW hT hset hne
  have other : ∀ p ∈ P, w ≠ p → ¬ (score p < score w ∨ trim preferredSfuPeer ≤ w) := by
    intro p hp hwp hle
    obtain ⟨capsP, hcapsP⟩ := exists_knows P score p
    exact hself ((hagree w hw.mem p hp capsW capsP hcapsW hcapsP).trans
      (elect_other hw hcapsP hp hT hwp hset hle))
  obtain ⟨p, hp, hpw⟩ := Finset.exists_mem_ne hcard w
  have hgt : w < trim preferredSfuPeer := not_le.mp fun hle => other p hp hpw.symm (.inr hle)
  obtain ⟨p', hp', hscore⟩ := hlow hgt
  have hlt : score p' < score w := by
    rcases Prod.Lex.toLex_le_toLex.mp (hw.le p' hp') with hlt | heq
    · exact hlt
    · exact absurd heq.1 hscore
  exact other p' hp' (fun heq => hscore (heq ▸ rfl)) (.inl hlt)

/-- In each of the four cases everybody names one host. -/
theorem hostsAgree_of_cases (hcond : (P.card : Int) ≤ sfuThreshold ∨ P.card ≤ 1 ∨
      trim preferredSfuPeer = [] ∨
      ∃ w, Winner P score w ∧ (trim preferredSfuPeer = w ∨
        w < trim preferredSfuPeer ∧ ∀ p ∈ P, score p = score w)) :
    HostsAgree P score sfuThreshold preferredSfuPeer := by
  by_cases hT : (P.card : Int) ≤ sfuThreshold
  · exact hostsAgree_of_const fun me hme caps h => electSfuHost_mesh h hme hT
  · rw [not_le] at hT
    rcases hcond with hle | hone | hblank | ⟨w, hw, hwin⟩
    · exact absurd hle (not_le.mpr hT)
    · intro a ha b hb capsA capsB hA hB
      obtain rfl := Finset.card_le_one.mp hone a ha b hb
      have alone : ∀ caps, Knows P score a caps → caps = [] := by
        intro caps h
        exact List.length_eq_zero_iff.mp (by have := h.length ha; omega)
      rw [alone capsA hA, alone capsB hB]
    · rcases P.eq_empty_or_nonempty with rfl | hne
      · exact hostsAgree_of_const (r := none) fun me hme => absurd hme (Finset.notMem_empty me)
      · obtain ⟨w, hw⟩ := exists_winner score hne
        exact hostsAgree_of_const fun me hme caps h => elect_blank hw h hme hT hblank
    · by_cases hset : trim preferredSfuPeer = []
      · exact hostsAgree_of_const fun me hme caps h => elect_blank hw h hme hT hset
      · refine hostsAgree_of_const (r := some (trim preferredSfuPeer)) fun me hme caps h => ?_
        rcases hwin with heq | ⟨hlt, hall⟩
        · by_cases hme' : w = me
          · subst hme'
            exact elect_seed hw h hme hT hset rfl heq.ge
          · rw [elect_other hw h hme hT hme' hset (.inr heq.le), heq]
        · exact elect_seed hw h hme hT hset (hall me hme) hlt.le

/-- **The clients name the same host just when** nobody is elected, nobody else takes part, no peer
is preferred, or the preferred peer is the winner anyway. (A preferred name of no participant also
does, where all scores are equal and it is greater than every participant.) -/
theorem hosts_agree_iff (P : Finset JsString) (score : JsString → Int) (sfuThreshold : Int)
    (preferredSfuPeer : JsString) :
    HostsAgree P score sfuThreshold preferredSfuPeer ↔
      (P.card : Int) ≤ sfuThreshold ∨ P.card ≤ 1 ∨ trim preferredSfuPeer = [] ∨
        ∃ w, Winner P score w ∧ (trim preferredSfuPeer = w ∨
          w < trim preferredSfuPeer ∧ ∀ p ∈ P, score p = score w) :=
  ⟨agree_of_hostsAgree, hostsAgree_of_cases⟩

/-- The peers `QmA`, `QmB` and `QmC`. -/
def qmA : JsString := literal "QmA"
def qmB : JsString := literal "QmB"
def qmC : JsString := literal "QmC"

/-- Three participants, of whom `QmC` has the greatest capacity and `QmA` is preferred: `QmC` names
`QmA`, and `QmA` names `QmC`. -/
theorem preferred_peer_splits_the_call :
    ¬ HostsAgree {qmA, qmB, qmC} (fun p => if p = qmC then 9 else 5) 2 qmA := by
  intro h
  have hA := knows_of_keys {qmA, qmB, qmC} (fun p => if p = qmC then 9 else 5) qmA
    [qmB, qmC] (by decide) fun p => by
      simp only [List.mem_cons, List.not_mem_nil, or_false, Finset.mem_insert, Finset.mem_singleton]
      constructor
      · rintro (rfl | rfl) <;> decide
      · tauto
  have hC := knows_of_keys {qmA, qmB, qmC} (fun p => if p = qmC then 9 else 5) qmC
    [qmA, qmB] (by decide) fun p => by
      simp only [List.mem_cons, List.not_mem_nil, or_false, Finset.mem_insert, Finset.mem_singleton]
      constructor
      · rintro (rfl | rfl) <;> decide
      · tauto
  have hsame := h qmA (by decide) qmC (by decide) _ _ hA hC
  exact absurd hsame (by decide)

end AlterChat.Sfu
