import AlterChat.Core.Crdt
import AlterChat.Tauri.Db

/-!
# When a message has expired

Four places decide it: `Room::get_messages`, the deletion in `get_private_messages`, and in
`App.tsx` the cleanup of every second and the effect that replaces the texts of a channel.

* §1 the clock, and the test they are all meant to be; §2 the four tests;
* §3 each of them against it -- `roomTest_iff`, `deletion_exact`, `kept_iff`, `overdue_iff` -- and
  `cleanup_ttlEffect`: what the effect marks is removed;
* §4 `one_predicate_iff` -- when all four agree with it;
* §5 three messages.
-/

namespace AlterChat.Expiry

open Lib Lib.Double Crdt Db

/-! ## 1. The clock -/

/-- A current time in milliseconds: not before 1970, where `duration_since(UNIX_EPOCH).unwrap()`
    panics, and as far as a `Date` goes. -/
structure Clock where
  ms : Int64
  nonneg : 0 ≤ ms.toInt
  le : ms.toInt ≤ 8640000000000000

/-- The age is greater than the lifetime. -/
def hasExpired (now timestamp : Int64) (ttl : Option Int64) : Bool :=
  match ttl with
  | none => false
  | some t => decide (1000 * t.toInt < now.toInt - timestamp.toInt)

/-! ## 2. The four tests -/

/-- The test of `get_messages`, in the build that checks for overflow; `none` is the panic. -/
def roomTest (now timestamp : Int64) (ttl : Option Int64) : Option Bool :=
  expired .checked now timestamp ttl

/-- A message in the window. -/
structure Message where
  text : String
  timestamp : Int
  ttl : Option Int
  deriving DecidableEq

/-- A message as it comes from the backend: `JSON.parse` takes the double next to a number. -/
def received (text : String) (timestamp : Int64) (ttl : Option Int64) : Message where
  text
  timestamp := nearest timestamp.toInt
  ttl := ttl.map fun t => nearest t.toInt

/-- `m.ttl` as a condition: neither missing nor 0. -/
def truthy (ttl : Option Int) : Bool := (ttl.map fun t => decide (t ≠ 0)).getD false

/-- `m.ttl * 1000`. -/
def Message.lifetime (m : Message) : Int := nearest (m.ttl.getD 0 * 1000)

/-- `!m.ttl || (m.timestamp + m.ttl * 1000 > now)`. -/
def Message.kept (now : Int) (m : Message) : Bool :=
  !truthy m.ttl || decide (nearest (m.timestamp + m.lifetime) > now)

/-- `m.ttl && (Date.now() - m.timestamp > m.ttl * 1000)`. -/
def Message.overdue (now : Int) (m : Message) : Bool :=
  truthy m.ttl && decide (nearest (now - m.timestamp) > m.lifetime)

/-- `cleanupInterval`, on the messages of one channel or peer. -/
def cleanup (now : Int) (msgs : List Message) : List Message := msgs.filter (Message.kept now)

/-- What the effect makes of a message. -/
def Message.marked (now : Int) (m : Message) : Message :=
  if m.overdue now && !decide (m.text = "[MESSAGE EXPIRED]") then
    { m with text := "[MESSAGE EXPIRED]" }
  else m

/-- The effect on the messages of one channel. -/
def ttlEffect (now : Int) (msgs : List Message) : List Message := msgs.map (Message.marked now)

/-! ## 3. Each test -/

section

variable {now : Clock} {timestamp t : Int64} {text : String}

/-- The difference and the product are integers of 64 bits. -/
structure NoOverflow (now : Clock) (timestamp t : Int64) : Prop where
  age : Fits (now.ms.toInt - timestamp.toInt)
  lifetime : Fits (t.toInt * 1000)

/-- Without an overflow the test is exact, in either build. -/
theorem expired_exact (b : Build) (h : NoOverflow now timestamp t) :
    expired b now.ms timestamp (some t) = some (hasExpired now.ms timestamp (some t)) := by
  have hage := b.int64_of_fits h.age
  have hlife := b.int64_of_fits h.lifetime
  have hlt : (Int64.ofInt (now.ms.toInt - timestamp.toInt) > Int64.ofInt (t.toInt * 1000)) ↔
      1000 * t.toInt < now.ms.toInt - timestamp.toInt := by
    rw [gt_iff_lt, Int64.lt_iff_toInt_lt, toInt_ofInt_of_fits h.age, toInt_ofInt_of_fits h.lifetime,
      Int.mul_comm]
  simp only [expired, hage, hlife, bind, Option.bind_some]
  exact congrArg some (decide_eq_decide.mpr hlt)

/-- **The test of the room is exact just where nothing overflows.** -/
theorem roomTest_iff :
    roomTest now.ms timestamp (some t) = some (hasExpired now.ms timestamp (some t)) ↔
      NoOverflow now timestamp t := by
  refine ⟨fun h => ?_, expired_exact .checked⟩
  have hsome : (expired .checked now.ms timestamp (some t)).isSome = true := by
    rw [show expired .checked now.ms timestamp (some t) = _ from h]
    rfl
  obtain ⟨hage, hlife⟩ := expired_isSome.mp hsome rfl t rfl
  exact ⟨hage, hlife⟩

/-- **The deletion is exact where the product does not overflow**; the sum may. -/
theorem deletion_exact (h : Fits (t.toInt * 1000)) {m : PrivateMessage}
    (hm : m.timestamp = timestamp) (httl : m.ttl = some t) :
    m.expired now.ms = hasExpired now.ms timestamp (some t) := by
  have hnonneg := now.nonneg
  have hle := now.le
  have hlow := timestamp.le_toInt
  have hhigh := timestamp.toInt_lt
  unfold PrivateMessage.expired
  rw [httl, hm]
  dsimp only
  rw [SqlNumber.mul, SqlNumber.arith_fits h]
  refine decide_eq_decide.mpr ?_
  rw [SqlNumber.add_value_lt_iff ⟨by omega, by omega⟩ h (by omega)]
  omega

/-- `m.ttl * 1000`, of a message that was received. -/
def scriptLifetime (t : Int64) : Int := nearest (nearest t.toInt * 1000)

/-- The instant from which a script sees a message as expired. -/
def scriptExpiry (timestamp t : Int64) : Int := nearest timestamp.toInt + scriptLifetime t

theorem truthy_received : truthy (received text timestamp (some t)).ttl = true ↔ t ≠ 0 := by
  have hzero : t.toInt = 0 ↔ t = 0 := by rw [← Int64.toInt_zero, Int64.toInt_inj]
  simp [truthy, received, nearest_eq_zero, hzero]

/-- **The cleanup keeps a message as long as its instant has not come**, and without a lifetime for
    ever. -/
theorem kept_iff :
    (received text timestamp (some t)).kept now.ms.toInt = true ↔
      (t ≠ 0 → now.ms.toInt < scriptExpiry timestamp t) := by
  have hnonneg := now.nonneg
  have hle := now.le
  have hlt : nearest ((received text timestamp (some t)).timestamp +
      (received text timestamp (some t)).lifetime) > now.ms.toInt ↔
        now.ms.toInt < scriptExpiry timestamp t := lt_nearest_iff (by omega)
  rw [Message.kept, Bool.or_eq_true, Bool.not_eq_true', decide_eq_true_iff, hlt, ← Bool.not_eq_true,
    truthy_received]
  tauto

/-- **The effect takes a message as expired once its instant is over**, and its age does not round
    to its lifetime. -/
theorem overdue_iff :
    (received text timestamp (some t)).overdue now.ms.toInt = true ↔
      t ≠ 0 ∧ scriptExpiry timestamp t < now.ms.toInt ∧
        nearest (now.ms.toInt - nearest timestamp.toInt) ≠ scriptLifetime t := by
  have hlt : nearest (now.ms.toInt - (received text timestamp (some t)).timestamp) >
      (received text timestamp (some t)).lifetime ↔
        scriptLifetime t < now.ms.toInt - nearest timestamp.toInt ∧
          nearest (now.ms.toInt - nearest timestamp.toInt) ≠ scriptLifetime t :=
            nearest_lt_nearest_iff
  have hexpiry : scriptLifetime t < now.ms.toInt - nearest timestamp.toInt ↔
      scriptExpiry timestamp t < now.ms.toInt := by
    unfold scriptExpiry
    omega
  rw [Message.overdue, Bool.and_eq_true, truthy_received, decide_eq_true_iff, hlt, hexpiry]

theorem not_overdue_of_kept {ttl : Option Int64}
    (h : (received text timestamp ttl).kept now.ms.toInt = true) :
    (received text timestamp ttl).overdue now.ms.toInt = false := by
  cases ttl with
  | none => rfl
  | some t =>
    rw [← Bool.not_eq_true, overdue_iff]
    rintro ⟨ht, hlt, -⟩
    exact absurd (kept_iff.mp h ht) (not_lt.mpr hlt.le)

/-- **What the effect marks the cleanup removes**: the text it puts there does not stay. -/
theorem cleanup_ttlEffect {msgs : List Message}
    (h : ∀ m ∈ msgs, ∃ text timestamp ttl, m = received text timestamp ttl) :
    cleanup now.ms.toInt (ttlEffect now.ms.toInt msgs) = cleanup now.ms.toInt msgs := by
  have hkept : Message.kept now.ms.toInt ∘ Message.marked now.ms.toInt =
      Message.kept now.ms.toInt := by
    funext m
    rw [Function.comp_apply, Message.marked]
    split <;> rfl
  rw [cleanup, ttlEffect, List.filter_map, hkept]
  refine (List.map_congr_left fun m hm => ?_).trans (List.map_id _)
  obtain ⟨hmem, hkeeps⟩ := List.mem_filter.mp hm
  obtain ⟨text, timestamp, ttl, rfl⟩ := h m hmem
  rw [Message.marked, not_overdue_of_kept hkeeps]
  rfl

end

/-! ## 4. One predicate -/

/-- **One exact predicate**: at this time all four tests say of such a message whether its age is
    greater than its lifetime. -/
structure OnePredicate (now : Clock) (timestamp : Int64) (ttl : Option Int64) : Prop where
  room : roomTest now.ms timestamp ttl = some (hasExpired now.ms timestamp ttl)
  deletion : ∀ m : PrivateMessage, m.timestamp = timestamp → m.ttl = ttl →
    m.expired now.ms = hasExpired now.ms timestamp ttl
  cleanup : ∀ text, (received text timestamp ttl).kept now.ms.toInt =
    !hasExpired now.ms timestamp ttl
  effect : ∀ text,
    (received text timestamp ttl).overdue now.ms.toInt = hasExpired now.ms timestamp ttl

/-- The time is on one side of the instant at which the message expires, and on the same side of the
    instant as a script has it; a lifetime of 0 has not begun to matter. -/
structure Unambiguous (now : Clock) (timestamp t : Int64) : Prop where
  noOverflow : NoOverflow now timestamp t
  zero : t = 0 → now.ms.toInt ≤ timestamp.toInt
  before : t ≠ 0 → now.ms.toInt ≤ timestamp.toInt + 1000 * t.toInt →
    now.ms.toInt < scriptExpiry timestamp t
  after : t ≠ 0 → timestamp.toInt + 1000 * t.toInt < now.ms.toInt →
    scriptExpiry timestamp t < now.ms.toInt ∧
      nearest (now.ms.toInt - nearest timestamp.toInt) ≠ scriptLifetime t

section

variable {now : Clock} {timestamp t : Int64}

theorem hasExpired_iff : hasExpired now.ms timestamp (some t) = true ↔
    timestamp.toInt + 1000 * t.toInt < now.ms.toInt := by
  rw [hasExpired, decide_eq_true_iff]
  omega

theorem OnePredicate.unambiguous (h : OnePredicate now timestamp (some t)) :
    Unambiguous now timestamp t := by
  have hkept : (received "" timestamp (some t)).kept now.ms.toInt = true ↔ _ := kept_iff
  have hover : (received "" timestamp (some t)).overdue now.ms.toInt = true ↔ _ := overdue_iff
  rw [h.cleanup, Bool.not_eq_true', ← Bool.not_eq_true, hasExpired_iff] at hkept
  rw [h.effect, hasExpired_iff] at hover
  refine ⟨roomTest_iff.mp h.room, fun ht => ?_, fun ht hle => hkept.mp (not_lt.mpr hle) ht,
    fun _ hlt => (hover.mp hlt).2⟩
  have hle := not_lt.mp (hkept.mpr fun hne => absurd ht hne)
  rw [ht] at hle
  simpa using hle

theorem Unambiguous.onePredicate (h : Unambiguous now timestamp t) :
    OnePredicate now timestamp (some t) := by
  have hroom := roomTest_iff.mpr h.noOverflow
  have hdeletion : ∀ m : PrivateMessage, m.timestamp = timestamp → m.ttl = some t →
      m.expired now.ms = hasExpired now.ms timestamp (some t) := fun m hm httl =>
    deletion_exact h.noOverflow.lifetime hm httl
  cases hexpired : hasExpired now.ms timestamp (some t) with
  | true =>
    have hlt := hasExpired_iff.mp hexpired
    have ht : t ≠ 0 := by
      intro ht
      have hle := h.zero ht
      rw [ht, Int64.toInt_zero] at hlt
      omega
    obtain ⟨hover, hne⟩ := h.after ht hlt
    refine ⟨hroom, hdeletion, fun text => ?_, fun text => ?_⟩
    · rw [hexpired, Bool.not_true, ← Bool.not_eq_true, kept_iff]
      exact fun hkept => absurd (hkept ht) (not_lt.mpr hover.le)
    · rw [hexpired]
      exact overdue_iff.mpr ⟨ht, hover, hne⟩
  | false =>
    have hle : now.ms.toInt ≤ timestamp.toInt + 1000 * t.toInt := by
      rw [← Bool.not_eq_true, hasExpired_iff] at hexpired
      exact not_lt.mp hexpired
    refine ⟨hroom, hdeletion, fun text => ?_, fun text => ?_⟩
    · rw [hexpired]
      exact kept_iff.mpr fun ht => h.before ht hle
    · rw [hexpired, ← Bool.not_eq_true, overdue_iff]
      rintro ⟨ht, hover, -⟩
      exact absurd hover (not_lt.mpr (h.before ht hle).le)

/-- **Among numbers that doubles keep, the tests differ on a lifetime of 0 and at the instant
    itself.** -/
theorem unambiguous_iff_of_le (htimestamp : timestamp.toInt.natAbs ≤ 2 ^ 53)
    (hlifetime : (t.toInt * 1000).natAbs ≤ 2 ^ 53) :
    Unambiguous now timestamp t ↔
      (t = 0 → now.ms.toInt ≤ timestamp.toInt) ∧
        (t ≠ 0 → now.ms.toInt ≠ timestamp.toInt + 1000 * t.toInt) := by
  have hnonneg := now.nonneg
  have hle := now.le
  have hlife : scriptLifetime t = t.toInt * 1000 := by
    rw [scriptLifetime, nearest_of_le (z := t.toInt) (by omega), nearest_of_le hlifetime]
  have hexpiry : scriptExpiry timestamp t = timestamp.toInt + 1000 * t.toInt := by
    rw [scriptExpiry, hlife, nearest_of_le htimestamp, Int.mul_comm]
  constructor
  · intro h
    refine ⟨h.zero, fun ht heq => ?_⟩
    have hbefore := h.before ht heq.le
    omega
  · rintro ⟨hzero, hne⟩
    refine ⟨⟨⟨by omega, by omega⟩, by omega, by omega⟩, hzero, fun ht hle => ?_,
      fun ht hlt => ⟨by omega, ?_⟩⟩
    · have := hne ht
      omega
    · -- the lifetime is no power of two, so that the age cannot round to it
      rw [hlife, nearest_of_le htimestamp]
      exact ((lt_nearest_iff (by omega)).mpr (by omega)).ne'

end

/-- **When message expiry is one exact predicate.** -/
theorem one_predicate_iff (now : Clock) (timestamp : Int64) (ttl : Option Int64) :
    OnePredicate now timestamp ttl ↔ ∀ t, ttl = some t → Unambiguous now timestamp t := by
  constructor
  · rintro h t rfl
    exact h.unambiguous
  · intro h
    cases ttl with
    | some t => exact (h t rfl).onePredicate
    | none =>
      refine ⟨rfl, fun m _ httl => ?_, fun _ => rfl, fun _ => rfl⟩
      rw [PrivateMessage.expired, httl]
      rfl

/-! ## 5. Three messages -/

/-- One minute and a second after 1970. -/
def minuteLater : Clock := ⟨61000, by decide, by decide⟩

/-- **A message with a lifetime of a minute, at the instant when it is over**: the cleanup removes
    it, and no other test takes it as expired. A lifetime of 0 no test of the script takes as
    expired, and the room does; the greatest lifetime overflows, so that the room panics, or takes
    the message as expired at once. -/
theorem minute_is_ambiguous :
    ((received "hi" 1000 (some 60)).kept minuteLater.ms.toInt = false ∧
        (received "hi" 1000 (some 60)).overdue minuteLater.ms.toInt = false ∧
        roomTest minuteLater.ms 1000 (some 60) = some false ∧
        ¬ OnePredicate minuteLater 1000 (some 60)) ∧
      ((received "hi" 1000 (some 0)).kept minuteLater.ms.toInt = true ∧
        roomTest minuteLater.ms 1000 (some 0) = some true ∧
        ¬ OnePredicate minuteLater 1000 (some 0)) ∧
      (roomTest minuteLater.ms 1000 (some Int64.maxValue) = none ∧
        expired .wrapping minuteLater.ms 1000 (some Int64.maxValue) = some true ∧
        ¬ OnePredicate minuteLater 1000 (some Int64.maxValue)) := by
  refine ⟨⟨by decide, by decide, by decide, fun h => ?_⟩, ⟨by decide, by decide, fun h => ?_⟩,
    by decide, by decide, fun h => ?_⟩
  · exact absurd (h.cleanup "hi") (by decide)
  · exact absurd (h.cleanup "hi") (by decide)
  · exact absurd h.room (by decide)

end AlterChat.Expiry
