import AlterChat.Core.Onion

/-!
# Payloads that make `wrap_onion` panic

The guard of the padding compares the length of a layer with the packet size, and the subtraction
takes the length of the padding as well. A layer between the two is in neither branch.

* §1 `Fits` -- the payloads the innermost layer has room for, or is too long to be padded for;
* §2 `wrapFrom_panics_iff` -- the layers around it are never in between, so the last hop decides;
* §3 `wrapOnion_returns_iff` -- when there is a packet or an error.
-/

namespace AlterChat.Onion

open Lib Crypto

variable {Key : Type}

/-! ## 1. The padding -/

/-- The innermost layer leaves room for its padding and the length of it, or gets no padding. -/
def Fits (payload : Bytes) : Prop :=
  payload.length + 27 ≤ targetSize ∨ targetSize ≤ payload.length + 19

instance Fits.decidable (payload : Bytes) : Decidable (Fits payload) :=
  inferInstanceAs (Decidable (_ ∨ _))

theorem paddingFor_panics_iff (n : Nat) :
    paddingFor n = .error .panic ↔ n < targetSize ∧ targetSize < n + 8 := by
  unfold paddingFor
  by_cases hlt : n < targetSize
  · rw [if_pos hlt]
    by_cases hroom : n + 8 ≤ targetSize
    · rw [if_pos hroom]
      exact iff_of_false (fun h => by cases h) (by omega)
    · rw [if_neg hroom]
      exact iff_of_true rfl ⟨hlt, by omega⟩
  · rw [if_neg hlt]
    exact iff_of_false (fun h => by cases h) fun h => hlt h.1

/-! ## 2. The loop -/

section

variable {P : Primitives Key} {K : KeyLayout Key} {draw : Nat → Key × Nonce}
  {route : List (String × Key)} {payload : Bytes}

/-- A round panics with the subtraction and nowhere else. -/
theorem wrapHop_panics_iff (draw : Nat → Key × Nonce) (payload : Bytes)
    (next : Option (String × OnionPacket Key)) (hop : String × Key) {i : Nat}
    (hnext : (route[i + 1]?).map Prod.fst = next.map Prod.fst) :
    wrapHop P K draw route
      (next.map Prod.snd, if next.isSome then none else some payload) (hop, i) = .error .panic ↔
        paddingFor ((layerLayout K).bytes (hopLayer payload next [])).length = .error .panic := by
  simp only [wrapHop, hopLayer_eq hnext]
  cases hpad : paddingFor ((layerLayout K).bytes (hopLayer payload next [])).length with
  | error e => exact ⟨fun h => by cases h; rfl, fun h => by cases h; rfl⟩
  | ok padding =>
    dsimp only
    split
    · exact iff_of_false (fun h => by cases h) (fun h => by cases h)
    · exact iff_of_false (fun h => by cases h) (fun h => by cases h)

/-- **The last hop decides**: a layer with a packet inside is longer than the packet size. -/
theorem wrapFrom_panics_iff (hgcm : P.Gcm) (hK : ∀ k, (K.bytes k).length = 32)
    {hops : List (String × Key)} {i : Nat} (hdrop : route.drop i = hops) :
    wrapFrom P K draw route payload i hops = .error .panic ↔ hops ≠ [] ∧ ¬ Fits payload := by
  induction hops generalizing i with
  | nil => exact iff_of_false (fun h => by cases h) fun h => h.1 rfl
  | cons hop rest ih =>
    have hrest : route.drop (i + 1) = rest := by
      rw [← List.drop_drop, hdrop, List.drop_one, List.tail_cons]
    have hhead : route[i + 1]? = rest.head? := by rw [← hrest, List.head?_drop]
    cases rest with
    | nil =>
      have hlast := wrapHop_panics_iff (P := P) (K := K) draw payload none hop (by rw [hhead]; rfl)
      rw [hopLayer_length_none, List.length_nil, paddingFor_panics_iff] at hlast
      refine hlast.trans ?_
      unfold Fits
      simp only [ne_eq, List.cons_ne_nil, not_false_eq_true, true_and]
      omega
    | cons next rest =>
      have hinner := ih hrest
      rw [and_iff_right (List.cons_ne_nil next rest)] at hinner
      rw [wrapFrom, and_iff_right (List.cons_ne_nil hop (next :: rest)), ← hinner]
      cases hfrom : wrapFrom P K draw route payload (i + 1) (next :: rest) with
      | error e => rfl
      | ok state =>
        -- the packet of the hops behind has at least the packet size, without its padding
        obtain ⟨inner, rfl, hwrapped⟩ := wrapFrom_wrapped hrest (List.cons_ne_nil _ _) hfrom
        have hge := targetSize_le_layerSize payload.length next rest
        have hlong := hopLayer_length_some hK payload next.1 inner []
        rw [hwrapped.ciphertext_length hgcm hK, List.length_nil] at hlong
        refine iff_of_false (fun h => ?_) (fun h => by cases h)
        have hpad :=
          (wrapHop_panics_iff draw payload (some (next.1, inner)) hop (by rw [hhead]; rfl)).mp h
        rw [paddingFor_panics_iff, hlong] at hpad
        omega

/-! ## 3. Where it returns -/

theorem wrapOnion_panics_iff (hgcm : P.Gcm) (hK : ∀ k, (K.bytes k).length = 32)
    (draw : Nat → Key × Nonce) (route : List (String × Key)) (payload : Bytes) :
    wrapOnion P K draw route payload = .error .panic ↔ route ≠ [] ∧ ¬ Fits payload := by
  have hloop : wrapFrom P K draw route payload 0 route = .error .panic ↔ route ≠ [] ∧
      ¬ Fits payload :=
    wrapFrom_panics_iff hgcm hK List.drop_zero
  rw [← hloop]
  simp only [wrapOnion, foldlM_eq_wrapFrom]
  cases wrapFrom P K draw route payload 0 route with
  | error e => exact ⟨fun h => by cases h; rfl, fun h => by cases h; rfl⟩
  | ok state =>
    obtain ⟨packet, rest⟩ := state
    cases packet with
    | none => exact iff_of_false (fun h => by cases h) (fun h => by cases h)
    | some packet => exact iff_of_false (fun h => by cases h) (fun h => by cases h)

/-- **`wrap_onion` returns a packet or an error** for the payloads that fit, and for an empty
    route. -/
theorem wrapOnion_returns_iff (hgcm : P.Gcm) (hK : ∀ k, (K.bytes k).length = 32)
    (draw : Nat → Key × Nonce) (route : List (String × Key)) (payload : Bytes) :
    wrapOnion P K draw route payload ≠ .error .panic ↔ route = [] ∨ Fits payload := by
  rw [ne_eq, wrapOnion_panics_iff hgcm hK, not_and_or, not_not, not_not]

end

theorem wrapOnion_returns_short :
    plain32.Gcm ∧ (∀ k, (key32.bytes k).length = 32) ∧
      (wrapOnion plain32 key32 sampleDraw sampleRoute [1, 2, 3] ≠ .error .panic ↔
        sampleRoute = [] ∨ Fits [1, 2, 3]) :=
  ⟨plain32_gcm, key32_length,
    wrapOnion_returns_iff plain32_gcm key32_length sampleDraw sampleRoute [1, 2, 3]⟩

/-- The shortest payload with too little room. -/
def tightPayload : Bytes := List.replicate 16358 0

theorem tightPayload_unfit : ¬ Fits tightPayload := by
  have hlen : tightPayload.length = 16358 := List.length_replicate
  unfold Fits targetSize
  rw [hlen]
  omega

theorem tight_payload_panics :
    wrapOnion plain32 key32 sampleDraw [("a", secretOf 1)] tightPayload = .error .panic :=
  (wrapOnion_panics_iff plain32_gcm key32_length sampleDraw [("a", secretOf 1)] tightPayload).mpr
    ⟨List.cons_ne_nil _ _, tightPayload_unfit⟩

end AlterChat.Onion
