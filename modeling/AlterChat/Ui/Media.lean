import AlterChat.Lib.Js
import AlterChat.Lib.Primitives
import AlterChat.Lib.Streams

/-!
# `webrtc.ts`: end-to-end encryption of media frames

`deriveMediaKey` and the two transforms, with the part of `App.tsx` that puts a transform on each
track of a started call. What the browser does is a parameter, `WebCrypto`.

* §1 the key, §2 the two transforms: each counts the frames it sees, from 0;
* §3 `mediaIvs_nodup_iff` -- no IV is used twice under one key just when each pair of public keys
  has one sending track, of 2^32 frames at most;
* §4 `frames_come_through` -- what a receiver makes of what it is given.
-/

namespace AlterChat.Media

open Lib Lib.Js

/-! ## 1. The key -/

/-- `crypto.subtle`. -/
structure WebCrypto (Key : Type) where
  /-- HKDF with SHA-256: key material, salt, info. -/
  hkdf : Bytes → Bytes → Bytes → Key
  aeadSeal : Key → Nonce → Bytes → Bytes
  aeadOpen : Key → Nonce → Bytes → Option Bytes

/-- A public key as the window holds it: lower-case hex, or the empty string where none is known. -/
structure PubkeyHex where
  hex : JsString
  digits : ∀ u ∈ hex, 48 ≤ u.val ∧ u.val ≤ 57 ∨ 97 ≤ u.val ∧ u.val ≤ 102

variable {Key M : Type}

def material (myPubkeyHex peerPubkeyHex : JsString) : JsString :=
  let pair := sortPair myPubkeyHex peerPubkeyHex
  literal "AlterChat_WebRTC_E2EE_v1|" ++ pair.1 ++ literal "|" ++ pair.2

def deriveMediaKey (C : WebCrypto Key) (myPubkeyHex peerPubkeyHex : JsString) : Key :=
  C.hkdf (textEncode (material myPubkeyHex peerPubkeyHex)) (textEncode (literal "media-e2ee"))
    (textEncode (literal "aes-gcm-256"))

/-- HKDF keeps its inputs apart. -/
def HkdfInjective (C : WebCrypto Key) : Prop :=
  ∀ m s i m' s' i', C.hkdf m s i = C.hkdf m' s' i' → m = m' ∧ s = s' ∧ i = i'

/-- The same two peers, in either order. -/
def SamePair (a b c d : PubkeyHex) : Prop :=
  a.hex = c.hex ∧ b.hex = d.hex ∨ a.hex = d.hex ∧ b.hex = c.hex

theorem sortPair_mem {Q : JsString → Prop} {a b : JsString} (ha : Q a) (hb : Q b) :
    Q (sortPair a b).1 ∧ Q (sortPair a b).2 := by
  unfold sortPair
  split_ifs
  · exact ⟨hb, ha⟩
  · exact ⟨ha, hb⟩

theorem PubkeyHex.ascii (k : PubkeyHex) : Ascii k.hex := by
  intro u hu
  have := k.digits u hu
  omega

theorem PubkeyHex.bar_notMem (k : PubkeyHex) : (124 : CodeUnit) ∉ k.hex := by
  intro h
  have := k.digits _ h
  omega

theorem material_ascii (a b : PubkeyHex) : Ascii (material a.hex b.hex) := by
  obtain ⟨h1, h2⟩ := sortPair_mem a.ascii b.ascii
  have hpre : Ascii (literal "AlterChat_WebRTC_E2EE_v1|") := literal_ascii (by decide)
  have hbar : Ascii (literal "|") := literal_ascii (by decide)
  intro u hu
  simp only [material, List.mem_append] at hu
  rcases hu with ((hu | hu) | hu) | hu
  · exact hpre u hu
  · exact h1 u hu
  · exact hbar u hu
  · exact h2 u hu

theorem material_eq_iff (a b c d : PubkeyHex) :
    material a.hex b.hex = material c.hex d.hex ↔ SamePair a b c d := by
  rw [SamePair, ← sortPair_eq_iff, Prod.ext_iff]
  obtain ⟨h1, h2⟩ := sortPair_mem (Q := fun s => (124 : CodeUnit) ∉ s) a.bar_notMem b.bar_notMem
  have hbar : literal "|" = [(124 : CodeUnit)] := by decide
  simp only [material, hbar, List.append_assoc, List.append_cancel_left_eq, List.cons_append,
    List.nil_append]
  constructor
  · intro h
    obtain ⟨hfst, -, hsnd⟩ := (List.append_cons_inj_of_notMem h1 h2).mp h
    exact ⟨hfst, hsnd⟩
  · intro h
    rw [h.1, h.2]

/-- **Two pairs of public keys have one media key just when they are the same pair.** -/
theorem deriveMediaKey_eq_iff {C : WebCrypto Key} (hC : HkdfInjective C) (a b c d : PubkeyHex) :
    deriveMediaKey C a.hex b.hex = deriveMediaKey C c.hex d.hex ↔ SamePair a b c d := by
  rw [← material_eq_iff]
  constructor
  · intro h
    exact textEncode_inj (material_ascii a b) (material_ascii c d) (hC _ _ _ _ _ _ h).1
  · intro h
    rw [deriveMediaKey, h, deriveMediaKey]

/-! ## 2. The transforms -/

/-- An encoded frame: `data` where it is an `ArrayBuffer`, and the rest of the frame. -/
structure Chunk (M : Type) where
  data : Option Bytes
  rest : M
  deriving DecidableEq

/-- `chunk.data instanceof ArrayBuffer ? chunk.data : new ArrayBuffer(0)`. -/
def Chunk.bytes (c : Chunk M) : Bytes := c.data.getD []

/-- A frame for a sender, and whether `encrypt` rejects on it. -/
structure Frame (M : Type) where
  chunk : Chunk M
  rejects : Bool

/-- `setUint32(0, frameCounter++ & 0xFFFFFFFF)` in twelve bytes. -/
def frameIv (frameCounter : Nat) : Nonce :=
  ⟨⟨setUint32 (frameCounter &&& 0xFFFFFFFF) ++ List.replicate 8 0⟩, rfl⟩

/-- The IV of the `i`-th frame of a transform. -/
def ivAt (i : Nat) : Nonce := frameIv (increment^[i] 0)

/-- What a call of a transform does: the IV it uses, and what it enqueues. -/
structure Turn (M : Type) where
  iv : Nonce
  enqueued : List (Chunk M)

def senderTransform (C : WebCrypto Key) (key : Key) (frameCounter : Nat) :
    List (Frame M) → List (Turn M)
  | [] => []
  | f :: fs =>
    let iv := frameIv frameCounter
    let chunk :=
      -- "fallback: şifreleme başarısız olursa geç"
      if f.rejects then f.chunk
      else { f.chunk with data := some (C.aeadSeal key iv f.chunk.bytes) }
    { iv, enqueued := [chunk] } :: senderTransform C key (increment frameCounter) fs

def makeE2EESenderTransform (C : WebCrypto Key) (key : Key) (frames : List (Frame M)) :
    List (Turn M) := senderTransform C key 0 frames

def receiverTransform (C : WebCrypto Key) (key : Key) (frameCounter : Nat) :
    List (Chunk M) → List (Turn M)
  | [] => []
  | chunk :: chunks =>
    let iv := frameIv frameCounter
    let chunk' :=
      match C.aeadOpen key iv chunk.bytes with
      | some decrypted => { chunk with data := some decrypted }
      -- "fallback: şifre çözme başarısız olursa ham geç"
      | none => chunk
    { iv, enqueued := [chunk'] } :: receiverTransform C key (increment frameCounter) chunks

def makeE2EEReceiverTransform (C : WebCrypto Key) (key : Key) (chunks : List (Chunk M)) :
    List (Turn M) := receiverTransform C key 0 chunks

theorem frameIv_eq_iff (m n : Nat) : frameIv m = frameIv n ↔ m % 2 ^ 32 = n % 2 ^ 32 := by
  have low : ∀ k, (k &&& 0xFFFFFFFF) = k % 2 ^ 32 := fun k => Nat.and_two_pow_sub_one_eq_mod k 32
  have hlist : frameIv m = frameIv n ↔
      setUint32 (m &&& 0xFFFFFFFF) = setUint32 (n &&& 0xFFFFFFFF) := by
    rw [← Vector.toList_inj]
    exact List.append_left_inj (List.replicate 8 0)
  rw [hlist, setUint32_eq_iff, low, low, Nat.mod_mod, Nat.mod_mod]

/-- **The IVs of a transform come round after 2^32 frames.** -/
theorem ivAt_wraps : Wraps ivAt (2 ^ 32) where
  pos := by norm_num
  inj i j hi hj h := by
    rw [ivAt, ivAt, frameIv_eq_iff, increment_iterate, increment_iterate] at h
    omega
  again := by
    rw [ivAt, ivAt, frameIv_eq_iff, increment_iterate, increment_iterate]
    omega

/-- What a sender does with its `i`-th frame. -/
def senderTurn (C : WebCrypto Key) (key : Key) (i : Nat) (f : Frame M) : Turn M where
  iv := ivAt i
  enqueued := [if f.rejects then f.chunk
    else { f.chunk with data := some (C.aeadSeal key (ivAt i) f.chunk.bytes) }]

/-- What a receiver does with its `j`-th frame. -/
def receiverTurn (C : WebCrypto Key) (key : Key) (j : Nat) (chunk : Chunk M) : Turn M where
  iv := ivAt j
  enqueued := [match C.aeadOpen key (ivAt j) chunk.bytes with
    | some decrypted => { chunk with data := some decrypted }
    | none => chunk]

/-- **The frames of a sender are numbered from 0.** -/
theorem makeE2EESenderTransform_eq (C : WebCrypto Key) (key : Key) (frames : List (Frame M)) :
    makeE2EESenderTransform C key frames = frames.mapIdx (senderTurn C key) :=
  counted_eq _ (senderTransform C key) (fun _ => rfl) (fun _ _ _ => rfl) frames

/-- ... and so are those of a receiver. -/
theorem makeE2EEReceiverTransform_eq (C : WebCrypto Key) (key : Key) (chunks : List (Chunk M)) :
    makeE2EEReceiverTransform C key chunks = chunks.mapIdx (receiverTurn C key) :=
  counted_eq _ (receiverTransform C key) (fun _ => rfl) (fun _ _ _ => rfl) chunks

/-! ## 3. One key, many tracks -/

/-- A track of a started call: whether its sender has `createEncodedStreams`, and what its encoder
    makes. -/
structure Track (M : Type) where
  encodedStreams : Bool
  frames : List (Frame M)

/-- A run of `handleStartCall`: for each target peer its public key and the tracks. -/
structure Call (M : Type) where
  experimentalMediaE2ee : Bool
  myPk : PubkeyHex
  targets : List (PubkeyHex × List (Track M))

/-- A sender transform in use. -/
structure Sender (M : Type) where
  myPk : PubkeyHex
  peerPk : PubkeyHex
  frames : List (Frame M)

/-- The sender transforms a call puts on its tracks. -/
def Call.senders (call : Call M) : List (Sender M) :=
  if call.experimentalMediaE2ee then
    call.targets.flatMap fun target =>
      (target.2.filter fun track =>
        track.encodedStreams && decide (call.myPk.hex ≠ []) && decide (target.1.hex ≠ [])).map
          fun track => ⟨call.myPk, target.1, track.frames⟩
  else []

/-- The keys and IVs `encrypt` is called with by a sender transform. -/
def Sender.uses (C : WebCrypto Key) (s : Sender M) : List (Key × Nonce) :=
  let key := deriveMediaKey C s.myPk.hex s.peerPk.hex
  (makeE2EESenderTransform C key s.frames).map fun turn => (key, turn.iv)

/-- ... and by all sender transforms of any number of calls. -/
def mediaIvs (C : WebCrypto Key) (calls : List (Call M)) : List (Key × Nonce) :=
  (calls.flatMap Call.senders).flatMap (Sender.uses C)

/-- A sender transform as a stream. -/
def Sender.stream (C : WebCrypto Key) (s : Sender M) : Stream Key where
  key := deriveMediaKey C s.myPk.hex s.peerPk.hex
  length := s.frames.length

theorem Sender.uses_eq (C : WebCrypto Key) (s : Sender M) :
    s.uses C = (s.stream C).uses ivAt := by
  rw [Sender.uses, makeE2EESenderTransform_eq, Stream.uses]
  refine List.ext_getElem (by simp [stream]) fun i hi hi' => ?_
  simp [senderTurn, stream]

/-- Each pair of public keys has one sending track at most that sends anything, in one direction, in
one call. -/
def OneTrackEach (senders : List (Sender M)) : Prop :=
  (senders.filter fun s => 0 < s.frames.length).Pairwise fun s t =>
    ¬ SamePair s.myPk s.peerPk t.myPk t.peerPk

/-- **No IV is used twice under one key just when** no track sends more than 2^32 frames and each
pair of public keys has one sending track. -/
theorem mediaIvs_nodup_iff {C : WebCrypto Key} (hC : HkdfInjective C) (calls : List (Call M)) :
    (mediaIvs C calls).Nodup ↔
      (∀ s ∈ calls.flatMap Call.senders, s.frames.length ≤ 2 ^ 32) ∧
        OneTrackEach (calls.flatMap Call.senders) := by
  generalize hs : calls.flatMap Call.senders = senders
  have huses : mediaIvs C calls = (senders.map (Sender.stream C)).flatMap (Stream.uses ivAt) := by
    rw [mediaIvs, hs, List.flatMap_map]
    exact List.flatMap_congr fun s _ => s.uses_eq C
  rw [huses, streams_nodup_iff ivAt_wraps]
  refine and_congr List.forall_mem_map ?_
  rw [List.filter_map, List.pairwise_map, OneTrackEach]
  refine List.Pairwise.iff fun s t => not_congr ?_
  exact deriveMediaKey_eq_iff hC s.myPk s.peerPk t.myPk t.peerPk

/-- A cipher that shows its plaintext; the tag shows the nonce and a part of the key. -/
def tag (k : Bytes × Bytes × Bytes) (n : Nonce) : Bytes :=
  n.toList ++ (k.1 ++ List.replicate 4 0).take 4

def shown : WebCrypto (Bytes × Bytes × Bytes) where
  hkdf m s i := (m, s, i)
  aeadSeal k n m := m ++ tag k n
  aeadOpen k n c :=
    if c.drop (c.length - 16) = tag k n then some (c.take (c.length - 16)) else none

theorem shown_hkdfInjective : HkdfInjective shown := by
  intro m s i m' s' i' h
  obtain ⟨hm, h⟩ := Prod.mk.inj h
  exact ⟨hm, Prod.mk.inj h⟩

theorem digits_literal {s : String}
    (h : (s.toList.all fun c => decide (97 ≤ c.toNat ∧ c.toNat ≤ 102)) = true) :
    ∀ u ∈ literal s, 48 ≤ u.val ∧ u.val ≤ 57 ∨ 97 ≤ u.val ∧ u.val ≤ 102 := by
  intro u hu
  obtain ⟨c, hc, rfl⟩ := List.mem_map.mp hu
  have hdigit : 97 ≤ c.toNat ∧ c.toNat ≤ 102 := of_decide_eq_true (List.all_eq_true.mp h c hc)
  rw [Fin.val_ofNat, Nat.mod_eq_of_lt (by omega)]
  exact .inr hdigit

/-- Two public keys, `aa…` and `bb…`. -/
def hexA : String := "aaaaaaaaaaaaaaaaaaaaaaaaaaaaaaaaaaaaaaaaaaaaaaaaaaaaaaaaaaaaaaaa"
def hexB : String := "bbbbbbbbbbbbbbbbbbbbbbbbbbbbbbbbbbbbbbbbbbbbbbbbbbbbbbbbbbbbbbbb"

theorem digits_a : ∀ u ∈ literal hexA, 48 ≤ u.val ∧ u.val ≤ 57 ∨ 97 ≤ u.val ∧ u.val ≤ 102 :=
  digits_literal (by decide)

theorem digits_b : ∀ u ∈ literal hexB, 48 ≤ u.val ∧ u.val ≤ 57 ∨ 97 ≤ u.val ∧ u.val ≤ 102 :=
  digits_literal (by decide)

def pkA : PubkeyHex := ⟨literal hexA, digits_a⟩
def pkB : PubkeyHex := ⟨literal hexB, digits_b⟩

/-- A track of one frame. -/
def oneFrame : Track Unit := ⟨true, [⟨⟨some [1], ()⟩, false⟩]⟩

/-- A call with the given tracks, from `pkA` to `pkB`. -/
def callOf (tracks : List (Track Unit)) : Call Unit := ⟨true, pkA, [(pkB, tracks)]⟩

theorem one_audio_track_nodup :
    HkdfInjective shown ∧ (mediaIvs shown [callOf [oneFrame]]).Nodup := by
  refine ⟨shown_hkdfInjective, (mediaIvs_nodup_iff shown_hkdfInjective [callOf [oneFrame]]).mpr
    ⟨?_, ?_⟩⟩
  · intro s hs
    obtain rfl := List.mem_singleton.mp (hs : s ∈ [⟨pkA, pkB, oneFrame.frames⟩])
    decide
  · exact List.pairwise_singleton _ (⟨pkA, pkB, oneFrame.frames⟩ : Sender Unit)

/-- **A call with audio and video**: the first frames of the two tracks have one key and one IV. -/
theorem audio_and_video_share_an_iv :
    HkdfInjective shown ∧ ¬ (mediaIvs shown [callOf [oneFrame, oneFrame]]).Nodup := by
  refine ⟨shown_hkdfInjective, fun hnd => ?_⟩
  have huses : mediaIvs shown [callOf [oneFrame, oneFrame]] =
      Sender.uses shown ⟨pkA, pkB, oneFrame.frames⟩ ++ Sender.uses shown
      ⟨pkA, pkB, oneFrame.frames⟩ :=
    rfl
  rw [huses] at hnd
  exact List.disjoint_of_nodup_append hnd List.mem_cons_self List.mem_cons_self

/-! ## 4. What a receiver makes of what it is given -/

/-- What reaches a receiver: a frame of the sender, or a frame from elsewhere. -/
inductive Arrival (M : Type) where
  | sent (i : Nat)
  | foreign (c : Chunk M)

/-- The frame a sender's turn hands on. -/
def Arrival.chunks (turns : List (Turn M)) : Arrival M → List (Chunk M)
  | .sent i => (turns[i]?.map Turn.enqueued).getD []
  | .foreign c => [c]

def Arrival.index? : Arrival M → Option Nat
  | .sent i => some i
  | .foreign _ => none

/-- The cipher opens what it sealed, and nothing else. -/
structure WebCrypto.Sound (C : WebCrypto Key) : Prop where
  open_seal : ∀ k n m, C.aeadOpen k n (C.aeadSeal k n m) = some m
  open_sound : ∀ k n c m, C.aeadOpen k n c = some m → c = C.aeadSeal k n m

/-- Encrypted frames of a sender reach a receiver in order, each at most once; anything else has not
been made under the key. -/
structure Delivered (C : WebCrypto Key) (key : Key) (frames : List (Frame M))
    (arrivals : List (Arrival M)) : Prop where
  in_order : (arrivals.filterMap Arrival.index?).Pairwise (· < ·)
  sent : ∀ i, .sent i ∈ arrivals → ∃ f, frames[i]? = some f ∧ f.rejects = false
  foreign : ∀ c, .foreign c ∈ arrivals → ∀ n m, c.bytes ≠ C.aeadSeal key n m

/-- What a receiver does with the arrivals. -/
def received (C : WebCrypto Key) (key : Key) (frames : List (Frame M))
    (arrivals : List (Arrival M)) : List (Turn M) :=
  makeE2EEReceiverTransform C key
    (arrivals.flatMap (Arrival.chunks (makeE2EESenderTransform C key frames)))

/-- A frame as it was before it was encrypted. -/
def Chunk.plain (c : Chunk M) : Chunk M := { c with data := some c.bytes }

/-- The delivered frames come out as they were before encryption, and nothing else comes out, of the
receiver or of a sender that could not encrypt. -/
structure SurvivesAndFailsClosed (C : WebCrypto Key) (key : Key) (frames : List (Frame M))
    (arrivals : List (Arrival M)) : Prop where
  delivered : ∀ (j i : Nat) (f : Frame M), arrivals[j]? = some (.sent i) → frames[i]? = some f →
    (received C key frames arrivals)[j]?.map Turn.enqueued = some [f.chunk.plain]
  foreign : ∀ (j : Nat) (c : Chunk M), arrivals[j]? = some (.foreign c) →
    (received C key frames arrivals)[j]?.map Turn.enqueued = some []
  rejected : ∀ (i : Nat) (f : Frame M), frames[i]? = some f → f.rejects = true →
    (makeE2EESenderTransform C key frames)[i]?.map Turn.enqueued = some []

theorem getElem?_flatMap_one {α β : Type} {F : α → List β} {l : List α}
    (hone : ∀ a ∈ l, (F a).length = 1) {j : Nat} {a : α} (ha : l[j]? = some a) {b : β}
    (hb : F a = [b]) : (l.flatMap F)[j]? = some b := by
  induction l generalizing j with
  | nil => cases ha
  | cons x l ih =>
    obtain ⟨y, hy⟩ := List.length_eq_one_iff.mp (hone x List.mem_cons_self)
    rw [List.flatMap_cons, hy]
    cases j with
    | zero =>
      cases ha
      rw [hb] at hy
      cases hy
      rfl
    | succ j => exact ih (fun x hx => hone x (List.mem_cons_of_mem _ hx)) ha

section Receiver

variable {C : WebCrypto Key} {key : Key} {frames : List (Frame M)} {arrivals : List (Arrival M)}

theorem sender_turn {i : Nat} {f : Frame M} (hf : frames[i]? = some f) :
    (makeE2EESenderTransform C key frames)[i]? = some (senderTurn C key i f) := by
  rw [makeE2EESenderTransform_eq, List.getElem?_mapIdx, hf]
  rfl

theorem Delivered.one_chunk (h : Delivered C key frames arrivals) {a : Arrival M}
    (ha : a ∈ arrivals) : (a.chunks (makeE2EESenderTransform C key frames)).length = 1 := by
  cases a with
  | sent i =>
    obtain ⟨f, hf, -⟩ := h.sent i ha
    rw [Arrival.chunks, sender_turn hf]
    rfl
  | foreign c => rfl

/-- What arrives at position `j` is treated as frame `j`. -/
theorem Delivered.received_turn (h : Delivered C key frames arrivals) {j : Nat} {a : Arrival M}
    (ha : arrivals[j]? = some a) {c : Chunk M}
    (hc : a.chunks (makeE2EESenderTransform C key frames) = [c]) :
    (received C key frames arrivals)[j]? = some (receiverTurn C key j c) := by
  rw [received, makeE2EEReceiverTransform_eq, List.getElem?_mapIdx,
    getElem?_flatMap_one (fun a ha => h.one_chunk ha) ha hc]
  rfl

/-- **What comes through.** A frame of the sender that arrives at a position with its own IV, as it
does while nothing before it is lost and nothing is slipped in, comes out as it was. What was not
made under the key, and what could not be encrypted, is passed on as it is. -/
theorem frames_come_through (hC : C.Sound) (h : Delivered C key frames arrivals) :
    (∀ (j i : Nat) (f : Frame M), arrivals[j]? = some (.sent i) → frames[i]? = some f →
      ivAt i = ivAt j → (received C key frames arrivals)[j]?.map Turn.enqueued =
        some [f.chunk.plain]) ∧
    (∀ (j : Nat) (c : Chunk M), arrivals[j]? = some (.foreign c) →
      (received C key frames arrivals)[j]?.map Turn.enqueued = some [c]) ∧
    (∀ (i : Nat) (f : Frame M), frames[i]? = some f → f.rejects = true →
      (makeE2EESenderTransform C key frames)[i]?.map Turn.enqueued = some [f.chunk]) := by
  refine ⟨?_, ?_, ?_⟩
  · intro j i f hj hf hiv
    obtain ⟨f', hf', hrejects⟩ := h.sent i (List.mem_of_getElem? hj)
    obtain rfl := Option.some.inj (hf.symm.trans hf')
    have hchunk : Arrival.chunks (makeE2EESenderTransform C key frames) (.sent i) =
        [{ f.chunk with data := some (C.aeadSeal key (ivAt i) f.chunk.bytes) }] := by
      rw [Arrival.chunks, sender_turn hf, Option.map_some, Option.getD_some, senderTurn, hrejects]
      rfl
    have hopen : C.aeadOpen key (ivAt j) (C.aeadSeal key (ivAt i) f.chunk.bytes) =
        some f.chunk.bytes := by
      rw [← hiv]
      exact hC.open_seal _ _ _
    rw [h.received_turn hj hchunk, Option.map_some, receiverTurn, Chunk.bytes,
      Option.getD_some, hopen]
    rfl
  · intro j c hj
    have hopen : C.aeadOpen key (ivAt j) c.bytes = none := by
      cases hd : C.aeadOpen key (ivAt j) c.bytes with
      | none => rfl
      | some m =>
        exact absurd (hC.open_sound _ _ _ _ hd) (h.foreign c (List.mem_of_getElem? hj) _ m)
    rw [h.received_turn hj rfl, Option.map_some, receiverTurn, hopen]
  · intro i f hf hrejects
    rw [sender_turn hf, Option.map_some, senderTurn, hrejects]
    rfl

end Receiver

theorem shown_sound : shown.Sound where
  open_seal k n m := by
    have hlen : (m ++ tag k n).length - 16 = m.length := by simp [tag]
    simp only [shown]
    rw [hlen, List.drop_left, List.take_left, if_pos rfl]
  open_sound k n c m h := by
    simp only [shown] at h ⊢
    split_ifs at h with htag
    cases h
    rw [← htag, List.take_append_drop]

/-- A key of `shown`, two frames, a frame on which `encrypt` rejects, and a frame of nobody's. -/
def someKey : Bytes × Bytes × Bytes := ([1, 2, 3, 4], [], [])
def twoFrames : List (Frame Unit) := [⟨⟨some [7], ()⟩, false⟩, ⟨⟨some [8], ()⟩, false⟩]
def rejectedFrame : Frame Unit := ⟨⟨some [9], ()⟩, true⟩
def strangeChunk : Chunk Unit := ⟨some [5], ()⟩

/-- A sealed frame is longer than its tag. -/
theorem strangeChunk_foreign (k : Bytes × Bytes × Bytes) (n : Nonce) (m : Bytes) :
    strangeChunk.bytes ≠ shown.aeadSeal k n m := by
  intro heq
  have hlen := congrArg List.length heq
  simp [strangeChunk, Chunk.bytes, shown, tag] at hlen

/-- Three frames of which the second cannot be encrypted, and what reaches the receiver instead of
    it. -/
def mixedFrames : List (Frame Unit) :=
  [⟨⟨some [7], ()⟩, false⟩, rejectedFrame, ⟨⟨some [8], ()⟩, false⟩]

def mixedArrivals : List (Arrival Unit) := [.sent 0, .foreign strangeChunk, .sent 2]

theorem delivered_mixed : Delivered shown someKey mixedFrames mixedArrivals where
  in_order := by decide
  sent i hi := by
    simp only [mixedArrivals, List.mem_cons, Arrival.sent.injEq, reduceCtorEq, List.not_mem_nil,
      or_false, false_or] at hi
    obtain rfl | rfl := hi
    · exact ⟨_, rfl, rfl⟩
    · exact ⟨_, rfl, rfl⟩
  foreign c hc n m := by
    simp only [mixedArrivals, List.mem_cons, Arrival.foreign.injEq, reduceCtorEq, List.not_mem_nil,
      or_false, false_or] at hc
    subst hc
    exact strangeChunk_foreign _ n m

/-- Two frames come through around one that is nobody's, and the sender hands on what it cannot
encrypt. -/
theorem mixed_frames_come_through :
    (received shown someKey mixedFrames mixedArrivals)[0]?.map Turn.enqueued =
      some [⟨some [7], ()⟩] ∧
    (received shown someKey mixedFrames mixedArrivals)[1]?.map Turn.enqueued = some [strangeChunk] ∧
    (received shown someKey mixedFrames mixedArrivals)[2]?.map Turn.enqueued =
      some [⟨some [8], ()⟩] ∧
    (makeE2EESenderTransform shown someKey mixedFrames)[1]?.map Turn.enqueued =
      some [rejectedFrame.chunk] := by
  obtain ⟨hsent, hforeign, hrejected⟩ := frames_come_through shown_sound delivered_mixed
  exact ⟨hsent 0 0 _ rfl rfl rfl, hforeign 1 _ rfl, hsent 2 2 _ rfl rfl rfl, hrejected 1 _ rfl rfl⟩

/-- **A lost frame takes the next one with it**, and neither side fails closed: after the first of
two frames is lost the second does not come out as it was; a strange frame comes out; so does a
frame that could not be encrypted. -/
theorem lost_frame_is_not_survived :
    (Delivered shown someKey twoFrames [.sent 1] ∧
      ¬ SurvivesAndFailsClosed shown someKey twoFrames [.sent 1]) ∧
    (Delivered shown someKey twoFrames [.foreign strangeChunk] ∧
      ¬ SurvivesAndFailsClosed shown someKey twoFrames [.foreign strangeChunk]) ∧
    (Delivered shown someKey [rejectedFrame] [] ∧
      ¬ SurvivesAndFailsClosed shown someKey [rejectedFrame] []) := by
  refine ⟨⟨⟨by decide, ?_, ?_⟩, ?_⟩, ⟨⟨by decide, ?_, ?_⟩, ?_⟩, ⟨⟨by decide, ?_, ?_⟩, ?_⟩⟩
  · intro i hi
    simp only [List.mem_singleton, Arrival.sent.injEq] at hi
    subst hi
    exact ⟨_, rfl, rfl⟩
  · intro c hc
    simp at hc
  · intro h
    exact absurd (h.delivered 0 1 _ rfl rfl) (by decide)
  · intro i hi
    simp at hi
  · intro c hc n m heq
    simp only [List.mem_singleton, Arrival.foreign.injEq] at hc
    subst hc
    exact strangeChunk_foreign _ n m heq
  · intro h
    exact absurd (h.foreign 0 _ rfl) (by decide)
  · intro i hi
    cases hi
  · intro c hc
    cases hc
  · intro h
    exact absurd (h.rejected 0 _ rfl rfl) (by decide)

end AlterChat.Media
