import AlterChat.Core.RoomMerge
import AlterChat.Core.RoomSubset

/-!
# Documents that make a room panic

A document that comes by `merge` is whatever a holder of the room key has made. `add_message`
unwraps the entry `messages` of the root, `get_messages` the keys of each element of the list; the
key `peer_id` alone it reads with a default. In a build that checks for overflow the age and the
lifetime of a message have to fit.

* §1 `Room.calls` -- a run of calls, which ends with the first that panics; `Answers` -- the
  documents a call returns on;
* §2 `calls_return_iff` -- a run has no panic exactly where each call finds such a document, in
  either build;
* §3 `hostile_document_panics` -- a document with a number in its list, one that has deleted the
  list, one with a message that lives for ever.
-/

namespace AlterChat.Crdt

open Lib

/-! ## 1. Runs of calls -/

/-- What a node does with its room. -/
inductive RoomCall (Actor : Type) where
  | add (msg : CrdtMessage) (nonce : Nonce)
  | merge (actor : Actor) (otherBytes : Bytes)
  | get (now : Int64)

variable {Key Actor Scalar Doc : Type}

/-- The result is `Ok` or `Err`. -/
def Returns {α : Type} (r : Except Stop α) : Prop := r ≠ .error .panic

instance decidableReturns {α : Type} (r : Except Stop α) : Decidable (Returns r) :=
  match r with
  | .ok _ => .isTrue fun h => nomatch h
  | .error (.err _) => .isTrue fun h => nomatch h
  | .error .panic => .isFalse fun h => h rfl

@[simp] theorem returns_ok {α : Type} (a : α) : Returns (.ok a) := fun h => nomatch h

@[simp] theorem returns_err {α : Type} (e : String) : Returns (.error (.err e) : Except Stop α) :=
  fun h => nomatch h

@[simp] theorem not_returns_panic {α : Type} : ¬ Returns (.error .panic : Except Stop α) :=
  fun h => h rfl

/-- The room after a call; `none`: the call has panicked. -/
def Room.call (L : Libraries Key Actor Scalar Doc) (b : Build) (room : Room Key Doc) :
    RoomCall Actor → Option (Room Key Doc)
  | .add msg nonce =>
    let (result, room) := Room.addMessage L room msg nonce
    if Returns result then some room else none
  | .merge actor otherBytes => some (Room.merge L room actor otherBytes).2
  | .get now => if Returns (Room.getMessages L room now b) then some room else none

/-- The room after a run of calls. -/
def Room.calls (L : Libraries Key Actor Scalar Doc) (b : Build) (room : Room Key Doc) :
    List (RoomCall Actor) → Option (Room Key Doc)
  | [] => some room
  | c :: cs => (room.call L b c).bind fun room => room.calls L b cs

/-- The number at a key of an object. -/
def numberAt (A : Automerge Actor Scalar Doc) (d : Doc) (x : ObjId Actor) (key : String) :
    Option Int64 :=
  (A.getKey d x key).toOption.join.bind fun v => A.valueI64 v.1

/-- The age of a message that has a lifetime is an integer of 64 bits, and so is the lifetime in
    milliseconds. -/
def AgeFits (A : Automerge Actor Scalar Doc) (d : Doc) (x : ObjId Actor) (now : Int64) : Prop :=
  ∀ t, numberAt A d x "ttl" = some t →
    Fits (now.toInt - ((numberAt A d x "timestamp").getD 0).toInt) ∧ Fits (t.toInt * 1000)

/-- An element that is read without a panic: an object, whose age fits if that is checked. -/
def Legible (b : Build) (A : Automerge Actor Scalar Doc) (d : Doc) (now : Int64) (x : ObjId Actor) :
    Prop :=
  (∃ t, IsObj (A.history d) x t) ∧ (b = .checked → AgeFits A d x now)

/-- All elements of the list are, up to the first that cannot be read. -/
def AllLegible (b : Build) (A : Automerge Actor Scalar Doc) (d : Doc) (now : Int64)
    (o : ObjId Actor) : Prop :=
  ∀ i, i < A.length d o → (∀ j < i, ∃ r, A.getIndex d o j = .ok r) →
    ∀ v x, A.getIndex d o i = .ok (some (v, x)) → Legible b A d now x

/-- The documents a call returns on: `add_message` needs something at `messages`, `get_messages`
    that what is listed there can be read. -/
def Answers [LinearOrder Actor] (b : Build) (A : Automerge Actor Scalar Doc) (d : Doc) :
    RoomCall Actor → Prop
  | .add _ _ => (liveKey (A.history d) .root "messages").Nonempty
  | .merge _ _ => True
  | .get now => ∀ v o, A.getKey d .root "messages" = .ok (some (v, o)) → AllLegible b A d now o

/-! ## 2. When a call returns -/

section

variable [LinearOrder Actor] [DecidableEq Scalar] {A : Automerge Actor Scalar Doc}
  {L : Libraries Key Actor Scalar Doc}

/-- What is at the key `messages` of the root. -/
theorem root_cases (hA : A.Documented) (d : Doc) :
    A.getKey d .root "messages" = .ok none ∧ liveKey (A.history d) .root "messages" = ∅ ∨
      ∃ v o, A.getKey d .root "messages" = .ok (some (v, o)) ∧
        (liveKey (A.history d) .root "messages").Nonempty := by
  obtain ⟨r, hr, hreads⟩ := hA.getKey_ok d .root .map "messages" rfl
  cases r with
  | none => exact .inl ⟨hr, hreads⟩
  | some r =>
    obtain ⟨w, hw, -, -⟩ := hreads
    exact .inr ⟨r.1, r.2, hr, w, hw.1⟩

/-- Where there is something at `messages`, an error of the library is handed on. -/
theorem appendMessage_present (hA : A.Documented) (d : Doc) (msg : CrdtMessage) {v : Value Scalar}
    {o : ObjId Actor} (hget : A.getKey d .root "messages" = .ok (some (v, o))) :
    (∃ e, appendMessage A d msg = (.error (.err e), d)) ∨
      ∃ d', appendMessage A d msg = (.ok (), d') := by
  unfold appendMessage
  simp only [hget]
  cases hins : A.insertObject d o (A.length d o) .map with
  | error e => exact .inl ⟨e, rfl⟩
  | ok r =>
    obtain ⟨x, d₁⟩ := r
    obtain ⟨d₂, -, hput, -⟩ := hA.insert_putAll hins (Layout.messageFields_nodup A msg)
    simp only [hput]
    exact .inr ⟨_, rfl⟩

/-- **`add_message` panics where there is nothing at `messages`**, and only there. -/
theorem addMessage_returns (hA : L.automerge.Documented) (room : Room Key Doc) (msg : CrdtMessage)
    (nonce : Nonce) : Returns (Room.addMessage L room msg nonce).1 ↔
      (liveKey (L.automerge.history room.doc) .root "messages").Nonempty := by
  rcases root_cases hA room.doc with ⟨hget, hlive⟩ | ⟨v, o, hget, hlive⟩
  · have hadd : (Room.addMessage L room msg nonce).1 = .error .panic := by
      unfold Room.addMessage appendMessage
      rw [hget]
    rw [hadd, hlive]
    exact ⟨fun h => absurd h not_returns_panic, fun h => absurd h Finset.not_nonempty_empty⟩
  · refine ⟨fun _ => hlive, fun _ => ?_⟩
    unfold Room.addMessage
    rcases appendMessage_present hA room.doc msg hget with ⟨e, happ⟩ | ⟨d', happ⟩
    · rw [happ]
      exact returns_err e
    · rw [happ]
      simp only
      split
      · exact returns_err _
      · exact returns_ok _

omit [LinearOrder Actor] [DecidableEq Scalar] in
theorem unwrapKey_ok {d : Doc} {o : ObjId Actor} {k : String}
    {r : Option (Value Scalar × ObjId Actor)} (h : A.getKey d o k = .ok r) :
    unwrapKey A d o k = .ok (r.map fun v => v.1) := by
  unfold unwrapKey
  rw [h]

omit [LinearOrder Actor] [DecidableEq Scalar] in
theorem numberAt_eq {d : Doc} {x : ObjId Actor} {key : String}
    {r : Option (Value Scalar × ObjId Actor)}
    (h : A.getKey d x key = .ok r) : numberAt A d x key = (r.map fun v => v.1).bind A.valueI64 := by
  unfold numberAt
  rw [h]
  cases r <;> rfl

/-- A message is read where its test has an answer. -/
theorem read_returns (b : Build) (now : Int64) (msg : CrdtMessage) :
    (∃ msg', msg.read b now = .ok msg') ∧ (expired b now msg.timestamp msg.ttl).isSome = true ∨
      msg.read b now = .error .panic ∧ ¬ (expired b now msg.timestamp msg.ttl).isSome = true := by
  unfold CrdtMessage.read
  cases expired b now msg.timestamp msg.ttl with
  | none => exact .inr ⟨rfl, nofun⟩
  | some lapsed =>
    cases lapsed with
    | true => exact .inl ⟨⟨_, rfl⟩, rfl⟩
    | false => exact .inl ⟨⟨_, rfl⟩, rfl⟩

/-- **An element is read where it is an object**, whose age fits if that is checked; of a scalar no
    key can be read. -/
theorem readMessage_returns (hA : A.Documented) (b : Build) (d : Doc) (x : ObjId Actor)
    (now : Int64) : (∃ msg, readMessage A d x now b = .ok msg) ∧ Legible b A d now x ∨
      readMessage A d x now b = .error .panic ∧ ¬ Legible b A d now x := by
  by_cases hobj : ∃ t, IsObj (A.history d) x t
  · obtain ⟨t, ht⟩ := hobj
    obtain ⟨_, hsender, -⟩ := hA.getKey_ok d x t "sender" ht
    obtain ⟨_, htext, -⟩ := hA.getKey_ok d x t "text" ht
    obtain ⟨_, htimestamp, -⟩ := hA.getKey_ok d x t "timestamp" ht
    obtain ⟨_, httl, -⟩ := hA.getKey_ok d x t "ttl" ht
    have hlegible : Legible b A d now x ↔
        (expired b now ((numberAt A d x "timestamp").getD 0) (numberAt A d x "ttl")).isSome =
        true := by
      rw [expired_isSome]
      exact and_iff_right ⟨t, ht⟩
    rw [hlegible, numberAt_eq htimestamp, numberAt_eq httl]
    unfold readMessage
    rw [unwrapKey_ok hsender, unwrapKey_ok htext, unwrapKey_ok htimestamp, unwrapKey_ok httl]
    exact read_returns b now _
  · obtain ⟨e, he⟩ := hA.getKey_error d x "sender" (fun t ht => hobj ⟨t, ht⟩)
    refine .inr ⟨?_, fun h => hobj h.1⟩
    unfold readMessage unwrapKey
    rw [he]
    rfl

/-- A condition on every place up to the first that fails: at the head, and from there on. -/
theorem forall_split_cons {α : Type} {good ok : α → Prop} (i : α) (rest : List α) :
    (∀ before j after, i :: rest = before ++ j :: after → (∀ k ∈ before, ok k) → good j) ↔
      good i ∧ (ok i →
        ∀ before j after, rest = before ++ j :: after → (∀ k ∈ before, ok k) → good j) := by
  constructor
  · intro h
    refine ⟨h [] i rest rfl (fun _ hk => absurd hk List.not_mem_nil),
      fun hi before j after hr hb => ?_⟩
    refine h (i :: before) j after (by rw [hr]; rfl) fun k hk => ?_
    rcases List.mem_cons.mp hk with rfl | hk
    · exact hi
    · exact hb k hk
  · intro ⟨hi, hrest⟩ before j after hsplit hb
    cases before with
    | nil =>
      cases hsplit
      exact hi
    | cons b before =>
      cases hsplit
      exact hrest (hb _ List.mem_cons_self) before j after rfl
        fun k hk => hb k (List.mem_cons_of_mem _ hk)

/-- The loop over the places, up to the first that cannot be read. -/
theorem readMessages_returns (hA : A.Documented) (b : Build) (d : Doc) (o : ObjId Actor)
    (now : Int64) (is : List Nat) : Returns (readMessages A d o now b is) ↔
      ∀ before i after, is = before ++ i :: after → (∀ j ∈ before, ∃ r, A.getIndex d o j = .ok r) →
        ∀ v x, A.getIndex d o i = .ok (some (v, x)) → Legible b A d now x := by
  induction is with
  | nil =>
    refine ⟨fun _ before i after h => ?_, fun _ => nofun⟩
    exact absurd h (List.append_ne_nil_of_right_ne_nil _ (List.cons_ne_nil _ _)).symm
  | cons i rest ih =>
    rw [forall_split_cons, ← ih, readMessages]
    cases hget : A.getIndex d o i with
    | error e =>
      exact ⟨fun _ => ⟨fun v x h => (by cases h), fun ⟨r, h⟩ => (by cases h)⟩, fun _ =>
        returns_err e⟩
    | ok r =>
      cases r with
      | none => exact ⟨fun h => ⟨fun v x h => (by cases h), fun _ => h⟩, fun h => h.2 ⟨_, rfl⟩⟩
      | some r =>
        obtain ⟨v, x⟩ := r
        rcases readMessage_returns hA b d x now with ⟨⟨msg, hmsg⟩, hobj⟩ | ⟨hmsg, hobj⟩
        · have hreturns : Returns (do
              let msg ← readMessage A d x now b
              let msgs ← readMessages A d o now b rest
              return msg :: msgs) ↔ Returns (readMessages A d o now b rest) := by
            rw [hmsg]
            cases readMessages A d o now b rest with
            | ok msgs => exact ⟨fun _ => returns_ok _, fun _ => returns_ok _⟩
            | error stop => cases stop <;> exact Iff.rfl
          refine hreturns.trans ⟨fun h => ⟨fun v' x' h' => ?_, fun _ => h⟩, fun h => h.2 ⟨_, rfl⟩⟩
          cases h'
          exact hobj
        · simp only [hmsg]
          exact ⟨fun h => absurd h not_returns_panic, fun h => absurd (h.1 v x rfl) hobj⟩

theorem range_split {i n : Nat} (h : i < n) :
    ∃ after, List.range n = List.range i ++ i :: after := by
  refine ⟨(List.range (n - (i + 1))).map (i + 1 + ·), ?_⟩
  obtain ⟨k, rfl⟩ := Nat.exists_eq_add_of_lt h
  rw [show i + k + 1 = i + 1 + k by omega, List.range_add, List.range_succ, List.append_assoc,
    List.singleton_append, Nat.add_sub_cancel_left]

/-- **`get_messages` panics at the first element of the list that it cannot make a message of.** -/
theorem getMessages_returns (hA : L.automerge.Documented) (b : Build) (room : Room Key Doc)
    (now : Int64) :
    Returns (Room.getMessages L room now b) ↔ ∀ v o,
      L.automerge.getKey room.doc .root "messages" = .ok (some (v, o)) →
        AllLegible b L.automerge room.doc now o := by
  unfold Room.getMessages
  rcases root_cases hA room.doc with ⟨hget, -⟩ | ⟨v, o, hget, -⟩
  · rw [hget]
    exact ⟨fun _ v o h => (by cases h), fun _ => returns_ok _⟩
  · rw [hget]
    have hlist :=
      readMessages_returns hA b room.doc o now (List.range (L.automerge.length room.doc o))
    refine hlist.trans ⟨fun h v' o' h' => ?_, fun h before i after hr hb => ?_⟩
    · cases h'
      intro i hi hbefore
      obtain ⟨after, hrange⟩ := range_split hi
      exact h _ i after hrange fun j hj => hbefore j (List.mem_range.mp hj)
    · have hlen : before.length < L.automerge.length room.doc o := by
        have hl := congrArg List.length hr
        rw [List.length_range, List.length_append, List.length_cons] at hl
        omega
      have hi : i = before.length := by
        have hat := congrArg (fun l => l[before.length]?) hr
        simp only [List.getElem?_range hlen, List.getElem?_append_right (Nat.le_refl _),
          Nat.sub_self, List.getElem?_cons_zero] at hat
        exact (Option.some.inj hat).symm
      subst hi
      refine h v o rfl _ hlen fun j hj => hb j ?_
      have hat := congrArg (fun l => l[j]?) hr
      simp only [List.getElem?_range (hj.trans hlen), List.getElem?_append_left hj] at hat
      exact List.mem_of_getElem? hat.symm

/-- One call. -/
theorem call_returns (hA : L.automerge.Documented) (b : Build) (room : Room Key Doc)
    (c : RoomCall Actor) : (room.call L b c).isSome ↔ Answers b L.automerge room.doc c := by
  cases c with
  | add msg nonce =>
    refine Iff.trans ?_ (addMessage_returns hA room msg nonce)
    unfold Room.call
    simp only
    split <;> simp_all
  | merge actor otherBytes => exact ⟨fun _ => trivial, fun _ => rfl⟩
  | get now =>
    refine Iff.trans ?_ (getMessages_returns hA b room now)
    unfold Room.call
    split <;> simp_all

/-- The call after a call. -/
theorem calls_panic (hA : L.automerge.Documented) {b : Build} {room room' : Room Key Doc}
    {c c' : RoomCall Actor} (h : room.call L b c = some room')
    (hno : ¬ Answers b L.automerge room'.doc c') : room.calls L b [c, c'] = none := by
  have hnone : room'.call L b c' = none := by
    rw [← call_returns hA] at hno
    exact Option.not_isSome_iff_eq_none.mp hno
  unfold Room.calls
  rw [h, Option.bind_some]
  unfold Room.calls
  rw [hnone]
  rfl

/-- **A run of calls has no panic** exactly where each call that is reached finds a document it
    returns on, in either build. -/
theorem calls_return_iff (hA : L.automerge.Documented) (b : Build) (room : Room Key Doc)
    (cs : List (RoomCall Actor)) :
    (room.calls L b cs).isSome ↔ ∀ before c after room', cs = before ++ c :: after →
      room.calls L b before = some room' → Answers b L.automerge room'.doc c := by
  induction cs generalizing room with
  | nil =>
    refine ⟨fun _ before c after room' h => ?_, fun _ => rfl⟩
    exact absurd h (List.append_ne_nil_of_right_ne_nil _ (List.cons_ne_nil _ _)).symm
  | cons c cs ih =>
    cases hc : room.call L b c with
    | none =>
      have hno : ¬ Answers b L.automerge room.doc c := by
        rw [← call_returns hA, hc]
        exact nofun
      have hcalls : room.calls L b (c :: cs) = none := by
        unfold Room.calls
        rw [hc]
        rfl
      rw [hcalls]
      exact ⟨fun h => (by cases h), fun h => absurd (h [] c cs room rfl rfl) hno⟩
    | some room₁ =>
      have hcalls : ∀ l, room.calls L b (c :: l) = room₁.calls L b l := by
        intro l
        conv_lhs => unfold Room.calls
        rw [hc]
        rfl
      rw [hcalls, ih room₁]
      constructor
      · intro h before c' after room' hsplit hbefore
        cases before with
        | nil =>
          cases hsplit
          cases hbefore
          rw [← call_returns hA, hc]
          rfl
        | cons b before =>
          cases hsplit
          exact h before c' after room' rfl ((hcalls _).symm.trans hbefore)
      · intro h before c' after room' hsplit hbefore
        exact h (c :: before) c' after room' (by rw [hsplit]; rfl) ((hcalls _).trans hbefore)

/-! ## 3. Hostile documents -/

/-- An empty list. -/
theorem allLegible_empty (hA : A.Documented) {d : Doc} {o : ObjId Actor}
    (ho : IsObj (A.history d) o .list) (h : ∀ e, ¬ Automerge.Element (A.history d) o e) (b : Build)
    (now : Int64) : AllLegible b A d now o := by
  obtain ⟨l, -, hmem, hlen, -⟩ := hA.list_reads d o ho
  intro i hi
  cases l with
  | nil =>
    rw [hlen] at hi
    exact absurd hi (Nat.not_lt_zero i)
  | cons e l => exact absurd ((hmem e).mp List.mem_cons_self) (h e)

/-- A list that has elements, and none that can be read. -/
theorem not_allLegible (hA : A.Documented) {b : Build} {d : Doc} {now : Int64} {o : ObjId Actor}
    (ho : IsObj (A.history d) o .list) {e : OpId Actor} (he : Automerge.Element (A.history d) o e)
    (hno : ∀ op ∈ A.history d, op.obj = o → ¬ Legible b A d now (.made op.id)) :
    ¬ AllLegible b A d now o := by
  intro h
  obtain ⟨l, -, hmem, hlen, hindex⟩ := hA.list_reads d o ho
  cases l with
  | nil => exact absurd ((hmem e).mpr he) List.not_mem_nil
  | cons e₀ l =>
    obtain ⟨r, hr, hreads⟩ := hindex 0 e₀ rfl
    obtain ⟨-, hlive⟩ := (hmem e₀).mp List.mem_cons_self
    cases r with
    | none => exact absurd hreads hlive.ne_empty
    | some r =>
      obtain ⟨v, x⟩ := r
      obtain ⟨w, hw, -, hx⟩ := hreads
      have hlegible :=
        h 0 (hlen ▸ Nat.succ_pos _) (fun _ hj => absurd hj (Nat.not_lt_zero _)) v x hr
      obtain ⟨-, hobj⟩ := mem_ofObj.mp (mem_live.mp (mem_liveElem.mp hw.1).1).1
      exact hno w (liveElem_subset _ _ _ hw.1) hobj (hx ▸ hlegible)

end

/-- Actor 9 puts a number into its list. -/
def listNumber : PlainOp where
  id := ⟨2, 9⟩
  obj := listOf 9
  place := .insert none
  action := .set (.int 5)
  pred := ∅

/-- Actor 9 deletes the list of actor 2. -/
def listDeletion : PlainOp where
  id := ⟨2, 9⟩
  obj := .root
  place := .key "messages"
  action := .delete
  pred := {⟨1, 2⟩}

/-- Actor 9 puts a message into its list. -/
def listMessage : PlainOp where
  id := ⟨2, 9⟩
  obj := listOf 9
  place := .insert none
  action := .make .map
  pred := ∅

/-- The message lives for `i64::MAX` seconds. -/
def messageTtl : PlainOp where
  id := ⟨3, 9⟩
  obj := .made ⟨2, 9⟩
  place := .key "ttl"
  action := .set (.int Int64.maxValue)
  pred := ∅

/-- The three documents, and what each makes of a new room of actor 2. -/
def numbered : OpDoc where
  actor := 9
  ops := [creation 9, listNumber]
  valid := by decide

def deleted : OpDoc where
  actor := 9
  ops := [creation 2, listDeletion]
  valid := by decide

def undying : OpDoc where
  actor := 9
  ops := [creation 9, listMessage, messageTtl]
  valid := by decide

def withNumber : OpDoc where
  actor := 2
  ops := [creation 2, creation 9, listNumber]
  valid := by decide

def withDeletion : OpDoc where
  actor := 2
  ops := [creation 2, creation 2, listDeletion]
  valid := by decide

def withUndying : OpDoc where
  actor := 2
  ops := [creation 2, creation 9, listMessage, messageTtl]
  valid := by decide

/-- The room as a holder of its key has it who has made the document. -/
def hostileRoom (doc : OpDoc) : Room Bytes OpDoc :=
  { newRoom roomLibraries 2 "r" none with doc }

/-- **A document that a holder of the key has saved is merged.** -/
theorem call_hostile (b : Build) (doc m : OpDoc)
    (h : roomLibraries.automerge.merge (newRoom roomLibraries 2 "r" none).doc
      ⟨9, doc.ops, doc.valid⟩ = .ok m) (nonce : Nonce) :
    ∃ bytes, (Room.save roomLibraries (hostileRoom doc) nonce).1 = .ok bytes ∧
      (newRoom roomLibraries 2 "r" none).call roomLibraries b (.merge 9 bytes) =
        some (hostileRoom m) := by
  have hacc : roomLibraries.aead.accepts (roomLibraries.automerge.save doc).1 = true := rfl
  obtain ⟨bytes, hbytes⟩ := encryptPayload_of_accepts hacc
    (newRoom roomLibraries 2 "r" none).encryptionKey nonce
  refine ⟨bytes, hbytes, ?_⟩
  have hplain := decryptPayload_encrypt labelled_lawful hbytes
  have hload : roomLibraries.automerge.load 9 (roomLibraries.automerge.save doc).1 =
      .ok ⟨9, doc.ops, doc.valid⟩ := OpDoc.load_enc doc 9
  unfold Room.call Room.merge
  simp only [hplain, hload, h]
  rfl

/-- A new room is read and takes a message. -/
theorem calls_return_iff_new :
    ((newRoom roomLibraries 2 "r" none).calls roomLibraries .checked
      [.get 0, .add greeting (Vector.replicate 12 0)]).isSome = true := by
  refine (calls_return_iff roomLibraries_documented .checked _ _).mpr
    fun before c after room' hsplit hr => ?_
  have hget : roomLibraries.automerge.getKey (newRoom roomLibraries 2 "r" none).doc .root
      "messages" = .ok (some (.object .list, listOf 2)) := by decide
  have hlist : IsObj (roomLibraries.automerge.history (newRoom roomLibraries 2 "r" none).doc)
      (listOf 2) .list := by decide
  have hlegible : Answers .checked roomLibraries.automerge (newRoom roomLibraries 2 "r" none).doc
      (.get 0) := by
    intro v o h
    cases hget.symm.trans h
    refine allLegible_empty roomLibraries_documented hlist (fun e he => ?_) .checked 0
    obtain ⟨⟨op, hop, hobj, -⟩, -⟩ := he
    have hnone : ∀ op ∈ roomLibraries.automerge.history (newRoom roomLibraries 2 "r" none).doc,
        op.obj ≠ listOf 2 := by decide
    exact hnone op hop hobj
  cases before with
  | nil =>
    cases hsplit
    cases hr
    exact hlegible
  | cons c₁ before =>
    cases before with
    | nil =>
      cases hsplit
      have hcall := (call_returns roomLibraries_documented .checked _ (.get 0)).mpr hlegible
      have hroom : room' = newRoom roomLibraries 2 "r" none := by
        unfold Room.calls Room.call at hr
        unfold Room.call at hcall
        split at hr <;> simp_all [Room.calls]
      subst hroom
      exact ⟨creation 2, by decide⟩
    | cons c₂ before =>
      have hnil := (List.cons.inj (List.cons.inj hsplit).2).2
      exact absurd hnil.symm (List.append_ne_nil_of_right_ne_nil _ (List.cons_ne_nil _ _))

/-- **A document with a number in its list makes `get_messages` panic, one that has deleted the list
    `add_message`**, in either build; one with a message that lives for ever `get_messages` in a
    build that checks for overflow. -/
theorem hostile_document_panics :
    (∀ b, ∃ bytes, (Room.save roomLibraries (hostileRoom numbered) (Vector.replicate 12 0)).1 =
        .ok bytes ∧
      (newRoom roomLibraries 2 "r" none).calls roomLibraries b [.merge 9 bytes, .get 0] = none) ∧
    (∀ b, ∃ bytes, (Room.save roomLibraries (hostileRoom deleted) (Vector.replicate 12 0)).1 =
        .ok bytes ∧
      (newRoom roomLibraries 2 "r" none).calls roomLibraries b
        [.merge 9 bytes, .add greeting (Vector.replicate 12 0)] = none) ∧
    ∃ bytes, (Room.save roomLibraries (hostileRoom undying) (Vector.replicate 12 0)).1 =
        .ok bytes ∧
      (newRoom roomLibraries 2 "r" none).calls roomLibraries .checked [.merge 9 bytes, .get 0] =
        none := by
  refine ⟨fun b => ?_, fun b => ?_, ?_⟩
  · obtain ⟨bytes, hbytes, hcall⟩ := call_hostile b numbered withNumber rfl (Vector.replicate 12 0)
    refine ⟨bytes, hbytes, calls_panic roomLibraries_documented hcall fun h => ?_⟩
    have hget : roomLibraries.automerge.getKey withNumber .root "messages" =
        .ok (some (.object .list, listOf 9)) := by decide
    have hlist : IsObj withNumber.history (listOf 9) .list := by decide
    have helement : Automerge.Element withNumber.history (listOf 9) ⟨2, 9⟩ :=
      ⟨⟨listNumber, by decide, rfl, rfl, none, rfl⟩, ⟨listNumber, by decide⟩⟩
    have hops : ∀ op ∈ withNumber.history, op.obj = listOf 9 → op = listNumber := by decide
    refine not_allLegible roomLibraries_documented hlist helement (fun op hop hobj hx => ?_)
      (h _ _ hget)
    rw [hops op hop hobj] at hx
    obtain ⟨⟨t, ht⟩, -⟩ := hx
    obtain ⟨m, hm, hid, hmake⟩ := ht
    have hnone : ∀ op ∈ withNumber.history, op.id = listNumber.id → op.action = .set (.int 5) := by
      decide
    rw [hnone m hm hid] at hmake
    cases hmake
  · obtain ⟨bytes, hbytes, hcall⟩ := call_hostile b deleted withDeletion rfl (Vector.replicate 12 0)
    refine ⟨bytes, hbytes, calls_panic roomLibraries_documented hcall fun h => ?_⟩
    have hempty : liveKey withDeletion.history .root "messages" = ∅ := by decide
    exact h.ne_empty hempty
  · obtain ⟨bytes, hbytes, hcall⟩ := call_hostile .checked undying withUndying rfl
      (Vector.replicate 12 0)
    refine ⟨bytes, hbytes, calls_panic roomLibraries_documented hcall fun h => ?_⟩
    have hget : roomLibraries.automerge.getKey withUndying .root "messages" =
        .ok (some (.object .list, listOf 9)) := by decide
    have hlist : IsObj withUndying.history (listOf 9) .list := by decide
    have helement : Automerge.Element withUndying.history (listOf 9) ⟨2, 9⟩ :=
      ⟨⟨listMessage, by decide, rfl, rfl, none, rfl⟩, ⟨listMessage, by decide⟩⟩
    have hops : ∀ op ∈ withUndying.history, op.obj = listOf 9 → op = listMessage := by decide
    have httl : numberAt roomLibraries.automerge withUndying (.made ⟨2, 9⟩) "ttl" =
        some Int64.maxValue := by decide
    refine not_allLegible roomLibraries_documented hlist helement (fun op hop hobj hx => ?_)
      (h _ _ hget)
    rw [hops op hop hobj] at hx
    -- (2^63 - 1) * 1000 milliseconds
    exact absurd (hx.2 rfl _ httl).2 (by decide)

end AlterChat.Crdt
