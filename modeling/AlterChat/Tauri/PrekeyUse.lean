import AlterChat.Core.X3dh
import AlterChat.Lib.Table
import Mathlib.Logic.Function.Basic

/-!
# Use of one-time prekeys

`mark_opk_used` and `is_opk_used` of `alterchat-ui/src-tauri/src/db.rs`, and the handshakes that
call them around `receive_x3dh` as its comment asks: the check, the exchange, the mark. Each takes
its turns when it likes, and a turn is a single statement of the database, or the exchange. A
statement can fail.

* §1 the two functions, §2 the turns of a handshake;
* §3 `advance_cases` -- only a mark writes, and only where nothing is recorded;
* §4 `PrekeyInv` -- who is marked is recorded, and nobody else with its prekey is;
* §5 `opk_admits_one`.
-/

namespace AlterChat.PrekeyUse

open Lib X3dh

/-! ## 1. The table -/

/-- A row of `used_opk_ids`. -/
structure UsedOpk where
  peerId : String
  usedAt : Int64
  deriving DecidableEq

/-- `mark_opk_used`; the statement fails with `fault`, if there is one. -/
def markOpkUsed (fault : Option String) (used : Table String UsedOpk) (opkId peerId : String)
    (nowMs : Int64) : Except String Unit × Table String UsedOpk :=
  match fault with
  | some e => (.error e, used)
  | none =>
    let rowsChanged := if (used.lookup opkId).isSome then 0 else 1
    let used := used.insertIgnore opkId { peerId, usedAt := nowMs }
    if rowsChanged = 0 then (.error ("OPK replay detected: " ++ opkId), used) else (.ok (), used)

/-- `is_opk_used`. -/
def isOpkUsed (fault : Option String) (used : Table String UsedOpk) (opkId : String) :
    Except String Bool :=
  match fault with
  | some e => .error e
  | none =>
    let count := (used.select fun id => id == opkId).length
    .ok (decide (count > 0))

/-- **The mark is the row**: it succeeds where none is there, and otherwise changes nothing. -/
theorem markOpkUsed_eq (used : Table String UsedOpk) (opkId peerId : String) (nowMs : Int64) :
    markOpkUsed none used opkId peerId nowMs =
      match used.lookup opkId with
      | none => (.ok (), used.insert opkId { peerId, usedAt := nowMs })
      | some _ => (.error ("OPK replay detected: " ++ opkId), used) := by
  unfold markOpkUsed Table.insertIgnore
  cases used.lookup opkId <;> rfl

theorem isOpkUsed_eq (used : Table String UsedOpk) (opkId : String) :
    isOpkUsed none used opkId = .ok (used.lookup opkId).isSome := by
  unfold isOpkUsed
  dsimp only
  congr 1
  rw [Bool.eq_iff_iff, decide_eq_true_eq, gt_iff_lt, List.length_pos_iff_exists_mem,
    Option.isSome_iff_exists]
  constructor
  · intro h
    obtain ⟨row, hrow⟩ := h
    obtain ⟨id, hid, heq⟩ := Table.mem_select.mp hrow
    exact ⟨row, beq_iff_eq.mp heq ▸ hid⟩
  · intro h
    obtain ⟨row, hrow⟩ := h
    exact ⟨row, Table.mem_select.mpr ⟨opkId, hrow, beq_self_eq_true opkId⟩⟩

/-! ## 2. Handshakes -/

/-- What a handshake is called with. -/
structure Handshake (Key Data : Type) where
  opkId : String
  peerId : String
  oneTimePrekey : Option Key
  initMsg : InitialMessage Key Data

/-- The secrets of the device. -/
structure Secrets (Key Dk : Type) where
  identity : Key
  signedPrekey : Key
  mlKemDk : Dk

/-- Where a handshake is. -/
inductive Phase (Key : Type) where
  | waiting
  /-- `is_opk_used` has said yes. -/
  | replayed
  /-- `is_opk_used` has failed. -/
  | unread (error : String)
  | checked
  | refused (error : String)
  | received (sk : Key)
  /-- `mark_opk_used` has returned `Ok`, at this time. -/
  | marked (sk : Key) (usedAt : Int64)
  | unmarked (error : String)
  deriving DecidableEq

section

variable {Key Data Dk Ek : Type} [Append Data] (C : Suite Key Data Dk Ek) (secrets : Secrets Key Dk)

/-- The next call of a handshake. -/
def advance (h : Handshake Key Data) (fault : Option String) (nowMs : Int64)
    (used : Table String UsedOpk) : Phase Key → Phase Key × Table String UsedOpk
  | .waiting =>
    match isOpkUsed fault used h.opkId with
    | .error e => (.unread e, used)
    | .ok true => (.replayed, used)
    | .ok false => (.checked, used)
  | .checked =>
    match receiveX3dh C secrets.identity secrets.signedPrekey h.oneTimePrekey secrets.mlKemDk
      h.initMsg with
    | .error e => (.refused e, used)
    | .ok sk => (.received sk, used)
  | .received sk =>
    match markOpkUsed fault used h.opkId h.peerId nowMs with
    | (.error e, used) => (.unmarked e, used)
    | (.ok (), used) => (.marked sk nowMs, used)
  | phase => (phase, used)

/-- The table, and where each handshake is. -/
structure World (ι Key : Type) where
  used : Table String UsedOpk
  phase : ι → Phase Key

/-- A turn of a handshake: whether its statement fails, and the clock. -/
structure Turn (ι : Type) where
  handshake : ι
  fault : Option String
  nowMs : Int64

variable {ι : Type} [DecidableEq ι] (hs : ι → Handshake Key Data)

def World.step (w : World ι Key) (t : Turn ι) : World ι Key :=
  let (phase, used) :=
    advance C secrets (hs t.handshake) t.fault t.nowMs w.used (w.phase t.handshake)
  { used, phase := Function.update w.phase t.handshake phase }

/-- The turns of all handshakes, in any order. -/
def World.run (w : World ι Key) (turns : List (Turn ι)) : World ι Key :=
  turns.foldl (World.step C secrets hs) w

/-- No handshake has begun. -/
def World.start (used : Table String UsedOpk) : World ι Key where
  used := used
  phase _ := .waiting

/-! ## 3. A turn -/

/-- **What a turn does**: it marks, where nothing was recorded; or it writes nothing and marks
    nobody. -/
theorem advance_cases (h : Handshake Key Data) (fault : Option String) (nowMs : Int64)
    (used : Table String UsedOpk) (phase : Phase Key) :
    (∃ sk, phase = .received sk ∧ used.lookup h.opkId = none ∧
        advance C secrets h fault nowMs used phase =
          (.marked sk nowMs, used.insert h.opkId { peerId := h.peerId, usedAt := nowMs })) ∨
      ((advance C secrets h fault nowMs used phase).2 = used ∧
        ∀ sk t, (advance C secrets h fault nowMs used phase).1 = .marked sk t ↔
        phase = .marked sk t) := by
  cases phase with
  | waiting =>
    simp only [advance]
    cases isOpkUsed fault used h.opkId with
    | error e => exact .inr ⟨rfl, fun sk t => ⟨nofun, nofun⟩⟩
    | ok found => cases found <;> exact .inr ⟨rfl, fun sk t => ⟨nofun, nofun⟩⟩
  | checked =>
    simp only [advance]
    cases receiveX3dh C secrets.identity secrets.signedPrekey h.oneTimePrekey secrets.mlKemDk
      h.initMsg <;> exact .inr ⟨rfl, fun sk t => ⟨nofun, nofun⟩⟩
  | received sk =>
    cases fault with
    | some e => exact .inr ⟨rfl, fun sk t => ⟨nofun, nofun⟩⟩
    | none =>
      simp only [advance, markOpkUsed_eq]
      cases hlookup : used.lookup h.opkId with
      | none => exact .inl ⟨sk, rfl, rfl, rfl⟩
      | some row => exact .inr ⟨rfl, fun sk t => ⟨nofun, nofun⟩⟩
  | replayed | unread | refused | marked | unmarked => exact .inr ⟨rfl, fun sk t => Iff.rfl⟩

/-- What a turn does to the world. -/
theorem step_cases (w : World ι Key) (t : Turn ι) :
    (∃ sk, w.phase t.handshake = .received sk ∧ w.used.lookup (hs t.handshake).opkId = none ∧
        w.step C secrets hs t =
          { used := w.used.insert (hs t.handshake).opkId
              { peerId := (hs t.handshake).peerId, usedAt := t.nowMs }
            phase := Function.update w.phase t.handshake (.marked sk t.nowMs) }) ∨
      ((w.step C secrets hs t).used = w.used ∧
        ∀ i sk t', (w.step C secrets hs t).phase i = .marked sk t' ↔
        w.phase i = .marked sk t') := by
  rcases advance_cases C secrets (hs t.handshake) t.fault t.nowMs w.used
    (w.phase t.handshake) with ⟨sk, hphase, hlookup, hadvance⟩ | ⟨hused, hmarked⟩
  · refine .inl ⟨sk, hphase, hlookup, ?_⟩
    unfold World.step
    rw [hadvance]
  · refine .inr ⟨hused, fun i sk t' => ?_⟩
    unfold World.step
    dsimp only
    by_cases hi : i = t.handshake
    · rw [hi, Function.update_self]
      exact hmarked sk t'
    · rw [Function.update_of_ne hi]

/-! ## 4. Runs -/

variable {C secrets hs}

/-- **Who is marked is recorded**, and no two of one prekey are. -/
structure PrekeyInv (hs : ι → Handshake Key Data) (w : World ι Key) : Prop where
  recorded : ∀ i sk t, w.phase i = .marked sk t →
    w.used.lookup (hs i).opkId = some { peerId := (hs i).peerId, usedAt := t }
  unique : ∀ i j sk sk' t t', w.phase i = .marked sk t → w.phase j = .marked sk' t' →
    (hs i).opkId = (hs j).opkId → i = j

omit [Append Data] [DecidableEq ι] in
theorem prekeyInv_start (used : Table String UsedOpk) :
    PrekeyInv hs (World.start used : World ι Key) where
  recorded _ _ _ h := by cases h
  unique _ _ _ _ _ _ h := by cases h

/-- A row that is there stays. -/
theorem step_lookup (w : World ι Key) (t : Turn ι) {opkId : String} {row : UsedOpk}
    (h : w.used.lookup opkId = some row) :
    (w.step C secrets hs t).used.lookup opkId = some row := by
  rcases step_cases C secrets hs w t with ⟨sk, -, hnone, hstep⟩ | ⟨hused, -⟩
  · rw [hstep]
    have hne : opkId ≠ (hs t.handshake).opkId := by
      rintro rfl
      rw [hnone] at h
      cases h
    rw [AList.lookup_insert_ne hne]
    exact h
  · rw [hused]
    exact h

omit [Append Data] [DecidableEq ι] in
/-- A prekey without a row is nobody's who is marked. -/
theorem PrekeyInv.fresh {w : World ι Key} (h : PrekeyInv hs w) {opkId : String}
    (hnone : w.used.lookup opkId = none) {i : ι} {sk : Key} {t : Int64}
    (hi : w.phase i = .marked sk t) : (hs i).opkId ≠ opkId := by
  rintro rfl
  have hrow := h.recorded i sk t hi
  rw [hnone] at hrow
  cases hrow

/-- Who is marked after a turn was marked before it, or this turn has recorded its prekey. -/
theorem step_marked {w : World ι Key} {t : Turn ι} {i : ι} {sk : Key} {t' : Int64}
    (h : (w.step C secrets hs t).phase i = .marked sk t') :
    w.phase i = .marked sk t' ∨
      (i = t.handshake ∧ w.used.lookup (hs i).opkId = none ∧
        (w.step C secrets hs t).used.lookup (hs i).opkId =
          some { peerId := (hs i).peerId, usedAt := t' }) := by
  rcases step_cases C secrets hs w t with ⟨sk', -, hnone, hstep⟩ | ⟨-, hmarked⟩
  · rw [hstep] at h ⊢
    dsimp only at h ⊢
    by_cases hi : i = t.handshake
    · subst hi
      rw [Function.update_self] at h
      cases h
      exact .inr ⟨rfl, hnone, AList.lookup_insert _⟩
    · rw [Function.update_of_ne hi] at h
      exact .inl h
  · exact .inl ((hmarked i sk t').mp h)

/-- **A turn keeps the invariant.** -/
theorem PrekeyInv.step {w : World ι Key} (h : PrekeyInv hs w) (t : Turn ι) :
    PrekeyInv hs (w.step C secrets hs t) := by
  refine ⟨fun i sk t' hi => ?_, fun i j ski skj ti tj hi hj hsame => ?_⟩
  · rcases step_marked hi with hold | ⟨-, -, hrow⟩
    · exact step_lookup w t (h.recorded i sk t' hold)
    · exact hrow
  · rcases step_marked hi with hi' | ⟨hnewi, hnonei, -⟩
    · rcases step_marked hj with hj' | ⟨-, hnonej, -⟩
      · exact h.unique i j ski skj ti tj hi' hj' hsame
      · exact absurd hsame (h.fresh hnonej hi')
    · rcases step_marked hj with hj' | ⟨hnewj, -, -⟩
      · exact absurd hsame.symm (h.fresh hnonei hj')
      · exact hnewi.trans hnewj.symm

theorem prekeyInv_run {w : World ι Key} (h : PrekeyInv hs w) (turns : List (Turn ι)) :
    PrekeyInv hs (w.run C secrets hs turns) := by
  induction turns generalizing w with
  | nil => exact h
  | cons t turns ih => exact ih (h.step t)

/-- A row that is there is never changed. -/
theorem run_lookup (w : World ι Key) (turns : List (Turn ι)) {opkId : String} {row : UsedOpk}
    (h : w.used.lookup opkId = some row) :
    (w.run C secrets hs turns).used.lookup opkId = some row := by
  induction turns generalizing w with
  | nil => exact h
  | cons t turns ih => exact ih _ (step_lookup w t h)

/-! ## 5. One handshake for a prekey -/

/-- A handshake that has not got past `is_opk_used`. -/
def Stopped : Phase Key → Prop
  | .waiting | .replayed | .unread _ => True
  | _ => False

/-- Where the prekey is recorded a handshake that has not begun does not get past the check. -/
theorem step_stopped {w : World ι Key} {i : ι} {row : UsedOpk}
    (hrow : w.used.lookup (hs i).opkId = some row) (h : Stopped (w.phase i)) (t : Turn ι) :
    Stopped ((w.step C secrets hs t).phase i) := by
  unfold World.step
  dsimp only
  by_cases hi : i = t.handshake
  · subst hi
    rw [Function.update_self]
    cases hphase : w.phase t.handshake with
    | waiting =>
      cases hfault : t.fault with
      | some e => trivial
      | none =>
        simp only [advance, isOpkUsed_eq, hrow, Option.isSome_some]
        trivial
    | replayed | unread => trivial
    | checked | refused | received | marked | unmarked =>
      rw [hphase] at h
      exact h.elim
  · rwa [Function.update_of_ne hi]

theorem run_stopped {w : World ι Key} {i : ι} {row : UsedOpk}
    (hrow : w.used.lookup (hs i).opkId = some row) (h : Stopped (w.phase i))
    (turns : List (Turn ι)) : Stopped ((w.run C secrets hs turns).phase i) := by
  induction turns generalizing w with
  | nil => exact h
  | cons t turns ih => exact ih (step_lookup w t hrow) (step_stopped hrow h t)

/-- **A one-time prekey admits one handshake**: after any turns of any handshakes at most one of
    those with the same prekey is marked; its row stays the one it has written; a handshake that
    begins later does not get past the check; and a mark that fails writes nothing. -/
theorem opk_admits_one (C : Suite Key Data Dk Ek) (secrets : Secrets Key Dk)
    (hs : ι → Handshake Key Data) (used : Table String UsedOpk) (turns : List (Turn ι)) :
    let w := (World.start used).run C secrets hs turns
    (∀ i j sk sk' t t', w.phase i = .marked sk t → w.phase j = .marked sk' t' →
      (hs i).opkId = (hs j).opkId → i = j) ∧
    (∀ i sk t later, w.phase i = .marked sk t →
      (w.run C secrets hs later).used.lookup (hs i).opkId =
        some { peerId := (hs i).peerId, usedAt := t } ∧
      ∀ j, (hs j).opkId = (hs i).opkId → w.phase j = .waiting →
        Stopped ((w.run C secrets hs later).phase j)) ∧
    ∀ t e, (w.step C secrets hs t).phase t.handshake = .unmarked e →
    (w.step C secrets hs t).used = w.used := by
  intro w
  have hinv : PrekeyInv hs w := prekeyInv_run (prekeyInv_start used) turns
  refine ⟨hinv.unique, fun i sk t later hi => ?_, fun t e hfailed => ?_⟩
  · have hrow := hinv.recorded i sk t hi
    refine ⟨run_lookup w later hrow, fun j hsame hj => ?_⟩
    rw [← hsame] at hrow
    exact run_stopped hrow (hj ▸ trivial) later
  · rcases step_cases C secrets hs w t with ⟨sk, -, -, hstep⟩ | ⟨hused, -⟩
    · rw [hstep] at hfailed
      dsimp only at hfailed
      rw [Function.update_self] at hfailed
      cases hfailed
    · exact hused

end

/-- Two peers with one prekey. -/
def rivals (second : Bool) : Handshake Term Term where
  opkId := "opk1"
  peerId := if second then "bob" else "alice"
  oneTimePrekey := some (.random 2)
  initMsg :=
    { identityKey := .point 4
      ephemeralKey := .point 5
      mlKemCt := .ciphertext (.encapsulationKey (.random 3)) (.random 6)
      usedOpk := true }

/-- The turns of two handshakes that both pass the check before one of them marks. -/
def rivalTurns : List (Turn Bool) :=
  [⟨false, none, 1⟩, ⟨true, none, 2⟩, ⟨true, none, 3⟩, ⟨false, none, 4⟩, ⟨true, none, 5⟩,
    ⟨false, none, 6⟩]

example :
    let w := (World.start ∅).run termSuite ⟨.random 0, .random 1, .random 3⟩ rivals rivalTurns
    w.phase false = .unmarked "OPK replay detected: opk1" ∧
      w.used.lookup "opk1" = some { peerId := "bob", usedAt := 5 } := ⟨rfl, rfl⟩

end AlterChat.PrekeyUse
