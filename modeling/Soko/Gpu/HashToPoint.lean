import Soko.Gpu.Transform
import Soko.Shake.Sponge

/-!
The hash of nonce and message to a point. The loop takes two bytes at a time and
drops the words that would bias the result, so that nothing bounds its iterations:
`hashLoop` has a fuel for them and returns nothing when the fuel runs out. With the
same fuel the CPU and the device return the same point, or both return nothing.
-/

namespace Soko.Gpu

open Soko.Shake

/-- `while (w >= OOFALCON_Q) w -= OOFALCON_Q`. -/
def subtractQ (w : UInt32) : UInt32 :=
  if oofalconQ ≤ w then subtractQ (w - oofalconQ) else w
  termination_by w.toNat
  decreasing_by
    have hle := UInt32.le_iff_toNat_le.mp ‹oofalconQ ≤ w›
    have hq : oofalconQ.toNat = 12289 := rfl
    rw [UInt32.toNat_sub_of_le _ _ ‹oofalconQ ≤ w›]
    omega

/-- The loop of both functions, until `n` words are stored. `draw` extracts the two
bytes of an iteration, the high one first. -/
def hashLoop {σ : Type} (draw : σ → (UInt8 × UInt8) × σ) : ℕ → ℕ → σ → Option (List UInt32)
  | _, 0, _ => some []
  | 0, _ + 1, _ => none
  | fuel + 1, n + 1, sc =>
      let drawn := draw sc
      let w := (drawn.1.1.toUInt32 <<< 8) ||| drawn.1.2.toUInt32
      if w < 61445 then (hashLoop draw fuel n drawn.2).map (subtractQ w :: ·)
      else hashLoop draw fuel (n + 1) drawn.2

/-- The two bytes of an iteration of `hash_to_point_vartime`. -/
def drawExtract (sc : InnerShake256Context) : (UInt8 × UInt8) × InnerShake256Context :=
  let buf := iShake256Extract sc 2
  ((buf.1.getD 0 0, buf.1.getD 1 0), buf.2)

def hashToPointVartime (fuel : ℕ) (sc : InnerShake256Context) (logn : ℕ) : Option (List UInt16) :=
  (hashLoop drawExtract fuel (2 ^ logn) sc).map (List.map UInt32.toUInt16)

/-- The two bytes of an iteration of `hash_to_point_vartime_bench_device`. -/
def drawExtractByte (sc : Shake256DeviceCtx) : (UInt8 × UInt8) × Shake256DeviceCtx :=
  let high := shake256DeviceExtractByte sc
  let low := shake256DeviceExtractByte high.2
  ((high.1, low.1), low.2)

def hashToPointVartimeBenchDevice (fuel token : ℕ) (nonce : ℕ → UInt8) (logn : ℕ) :
    Option (List UInt32) :=
  hashLoop drawExtractByte fuel (2 ^ logn)
    (shake256DeviceAbsorbBenchInput shake256DeviceInit nonce token)

theorem reduced_subtractQ (w : UInt32) : Reduced (subtractQ w) := by
  induction w using subtractQ.induct with
  | case1 w hle ih =>
      rw [subtractQ, if_pos hle]
      exact ih
  | case2 w hlt =>
      rw [subtractQ, if_neg hlt]
      have hnat := mt UInt32.le_iff_toNat_le.mpr hlt
      exact Nat.not_le.mp hnat

section
variable {σ τ : Type} {draw : σ → (UInt8 × UInt8) × σ} {draw' : τ → (UInt8 × UInt8) × τ}

/-- The loop stores `n` words, and every one is reduced. -/
theorem of_hashLoop_eq_some {fuel n : ℕ} {sc : σ} {words : List UInt32}
    (hloop : hashLoop draw fuel n sc = some words) :
    words.length = n ∧ ∀ w ∈ words, Reduced w := by
  induction fuel generalizing n sc words with
  | zero =>
      cases n with
      | zero =>
          obtain rfl := Option.some.inj hloop
          exact ⟨rfl, fun w hw => absurd hw List.not_mem_nil⟩
      | succ n => contradiction
  | succ fuel ih =>
      cases n with
      | zero =>
          obtain rfl := Option.some.inj hloop
          exact ⟨rfl, fun w hw => absurd hw List.not_mem_nil⟩
      | succ n =>
          rw [hashLoop] at hloop
          split at hloop
          · obtain ⟨rest, hrest, rfl⟩ := Option.map_eq_some_iff.mp hloop
            obtain ⟨hlength, hreduced⟩ := ih hrest
            exact ⟨by rw [List.length_cons, hlength],
              List.forall_mem_cons.mpr ⟨reduced_subtractQ _, hreduced⟩⟩
          · exact ih hloop

/-- Two sources of the same bytes give the same words. -/
theorem hashLoop_congr (R : σ → τ → Prop)
    (hdraw : ∀ sc dev, R sc dev → (draw sc).1 = (draw' dev).1 ∧ R (draw sc).2 (draw' dev).2)
    (fuel n : ℕ) {sc : σ} {dev : τ} (hR : R sc dev) :
    hashLoop draw fuel n sc = hashLoop draw' fuel n dev := by
  induction fuel generalizing n sc dev with
  | zero => cases n <;> rfl
  | succ fuel ih =>
      cases n with
      | zero => rfl
      | succ n =>
          obtain ⟨hbytes, hnext⟩ := hdraw sc dev hR
          simp only [hashLoop]
          rw [hbytes, ih n hnext, ih (n + 1) hnext]

end

theorem length_of_hashToPointVartime {fuel logn : ℕ} {sc : InnerShake256Context}
    {hm : List UInt16} (hhash : hashToPointVartime fuel sc logn = some hm) :
    hm.length = 2 ^ logn := by
  obtain ⟨words, hloop, rfl⟩ := Option.map_eq_some_iff.mp hhash
  rw [List.length_map]
  exact (of_hashLoop_eq_some hloop).1

theorem drawExtract_agrees (sc : InnerShake256Context) (dev : Shake256DeviceCtx)
    (hR : Agrees sc dev ∧ dev.dptr ≤ 136) :
    (drawExtract sc).1 = (drawExtractByte dev).1 ∧
      Agrees (drawExtract sc).2 (drawExtractByte dev).2 ∧ (drawExtractByte dev).2.dptr ≤ 136 := by
  obtain ⟨hbytes, hagrees, hdptr⟩ := iShake256Extract_eq 2 hR.1 hR.2
  refine ⟨?_, hagrees, hdptr⟩
  rw [drawExtract, hbytes]
  rfl

/-- The point is the same on the CPU and on the device, word by word. -/
theorem hashToPoint_absorbed (fuel token : ℕ) (nonce : ℕ → UInt8) (logn : ℕ) :
    (hashToPointVartime fuel (absorbed nonce token) logn).map (List.map UInt16.toUInt32) =
      hashToPointVartimeBenchDevice fuel token nonce logn := by
  have hloop : hashLoop drawExtract fuel (2 ^ logn) (absorbed nonce token) =
      hashToPointVartimeBenchDevice fuel token nonce logn :=
    hashLoop_congr (fun sc dev => Agrees sc dev ∧ dev.dptr ≤ 136) drawExtract_agrees fuel _
      ⟨agrees_absorbed nonce token, Nat.zero_le 136⟩
  rw [hashToPointVartime, hloop]
  rcases hdevice : hashToPointVartimeBenchDevice fuel token nonce logn with _ | words
  · rfl
  · rw [Option.map_some, Option.map_some, List.map_map]
    congr 1
    refine (List.map_congr_left fun w hw => ?_).trans (List.map_id words)
    exact toUInt32_toUInt16 ((of_hashLoop_eq_some hdevice).2 w hw)

end Soko.Gpu
