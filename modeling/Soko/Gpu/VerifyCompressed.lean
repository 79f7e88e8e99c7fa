import Soko.Gpu.HashToPoint
import Soko.Gpu.VerifyRaw
import Soko.Signature.Format

/-!
`kernel_verify_compressed_bench_batch`, for one block of threads, and the CPU code
that prepares the input of the other verifier. One thread parses the signature and
hashes; then the block verifies as `kernel_verify_raw_batch` does. The two ways from
a signature to a verdict agree.
-/

namespace Soko.Gpu

open Soko.Library Soko.Shake Soko.Signature Finset

/-- The bytes of a token in `sig_bank`. -/
def tokenSignature (sigBank : ℕ → UInt8) (sigStride : ℕ) (sigLens : ℕ → ℕ) (token : ℕ) :
    List UInt8 :=
  (List.range (sigLens token)).map fun i => sigBank (token * sigStride + i)

def storeValues {α : Type} (values : List α) (memory : ℕ → α) (j : ℕ) : α :=
  values.getD j (memory j)

/-- The shared memory of a block, with `s2_shared`. -/
structure CompressedState extends VerifyState where
  s2 : ℕ → Int16

/-- An iteration of the loop that fills `tt_shared`. -/
def loadDecoded (s2 : ℕ → Int16) (j : ℕ) (s : VerifyState) : VerifyState :=
  let w := (s2 j).toInt32.toUInt32
  { s with tt := Function.update s.tt j (addQIfNegative w) }

/-- `kernel_verify_compressed_bench_batch`, for the block of `token`; nothing if the
fuel of the hash runs out. -/
def kernelVerifyCompressedBenchBatch (fuel : ℕ) (hNttMonty gmb igmb : ℕ → UInt16) (nInv : UInt32)
    (logn tokens : ℕ) {blockDim n : ℕ} (sigBank : ℕ → UInt8) (sigStride : ℕ) (sigLens : ℕ → ℕ)
    (token : ℕ) (schedules : VerifySchedules blockDim n) (s : CompressedState)
    (resultBank : ℕ → UInt8) : Option (ℕ → UInt8) :=
  if token ≥ tokens then some resultBank
  else
    let sig := tokenSignature sigBank sigStride sigLens token
    match parseSignature logn sig with
    | .error _ => some (Function.update resultBank token 0)
    | .ok s2 =>
        (hashToPointVartimeBenchDevice fuel token (fun i => sig.getD (1 + i) 0) logn).map fun hm =>
          let s2 := storeValues s2 s.s2
          let s := { s.toVerifyState with hm := storeValues hm s.hm }
          let s := runTasks (loadDecoded s2) schedules.load.order s
          Function.update resultBank token
            (verifyVerdict hNttMonty gmb igmb nInv logn schedules s2 s)

/-- `prepare_verify_raw_inputs_from_signature`: `hm_out` and `s2_out` where it returns 1,
and nothing inside where it returns 0. The outer option is the fuel of the hash. The
decoder stays within the signature, so that its only error is a rejection. -/
def prepareVerifyRawInputsFromSignature (fuel logn : ℕ) (message sig : List UInt8) :
    Option (Option (List UInt16 × List Int16)) :=
  if sig.length < 41 then some none
  else if ¬ headerMatches logn (sig.headD 0) then some none
  else
    match compDecode logn (sig.drop 41) (sig.length - 41) with
    | .error _ => some none
    | .ok (s2, v) =>
        if v = 0 ∨ 41 + v ≠ sig.length then some none
        else
          let hashData := iShake256Inject iShake256Init ((sig.drop 1).take 40)
          let hashData := iShake256Flip (iShake256Inject hashData message)
          (hashToPointVartime fuel hashData logn).map fun hm => some (hm, s2)

/-- A bank with the given values for a token. -/
def Holds {α : Type} [Zero α] (bank : ℤ → α) (token n : ℕ) (values : List α) : Prop :=
  ∀ j < n, bank (bankIndex token n j) = values.getD j 0

section Preparing

/-- A decoder that succeeds has used at least one byte. -/
theorem decodeBytes_used {logn : ℕ} {buf : List UInt8} {x : List Int16} {v : ℕ}
    (hdecode : decodeBytes logn buf buf.length = .ok (x, v)) (hv : v = buf.length) : v ≠ 0 := by
  subst hv
  obtain ⟨hlength, _, k, _, hbits⟩ := decodeBytes_eq_ok_iff.mp hdecode
  have hpos : 0 < (polyBits (values x)).length :=
    length_polyBits_pos (by rw [length_values, hlength]; exact Nat.two_pow_pos logn)
  have hcount := congrArg List.length hbits
  rw [length_bitsOfBytes, List.length_append] at hcount
  omega

/-- The nonce that the device reads behind the header. -/
theorem signatureNonce_eq {sig : List UInt8} (hlength : 41 ≤ sig.length) :
    signatureNonce sig = (List.range 40).map fun i => sig.getD (1 + i) 0 := by
  apply List.ext_getElem
  · rw [signatureNonce, List.length_take, List.length_drop, List.length_map, List.length_range]
    omega
  · intro i hi _
    rw [List.length_map, List.length_range] at *
    rw [List.getElem_map, List.getElem_range, List.getD_eq_getElem _ _ (by omega)]
    simp only [signatureNonce, List.getElem_take, List.getElem_drop]

/-- What the preparation does with the coefficients of a signature, if it has any. -/
def hashParsed (fuel logn token : ℕ) (sig : List UInt8) :
    Except DecodeStop (List Int16) → Option (Option (List UInt16 × List Int16))
  | .error _ => some none
  | .ok s2 => (hashToPointVartime fuel (absorbed (fun i => sig.getD (1 + i) 0) token) logn).map
      fun hm => some (hm, s2)

/-- The preparation parses as the device does, and hashes the same input. -/
theorem prepare_eq (fuel logn token : ℕ) (sig : List UInt8) :
    prepareVerifyRawInputsFromSignature fuel logn (fillMessage msgSize token) sig =
      hashParsed fuel logn token sig (parseSignature logn sig) := by
  rw [prepareVerifyRawInputsFromSignature, parseSignature]
  by_cases hshort : sig.length < 41
  · rw [if_pos hshort, if_pos (.inl hshort)]
    rfl
  by_cases hheader : headerMatches logn (sig.headD 0)
  · have hlen : (sig.drop 41).length = sig.length - 41 := List.length_drop
    rw [if_neg hshort, if_neg (not_not.mpr hheader),
      if_neg (not_or.mpr ⟨hshort, not_not.mpr hheader⟩), compDecode, compDecodeDevice, ← hlen]
    rcases hdecode : decodeBytes logn (sig.drop 41) (sig.drop 41).length with stop | ⟨x, v⟩
    · cases stop with
      | rejected => rfl
      | outOfBounds => rfl
    · have hmain : (if v = 0 ∨ 41 + v ≠ sig.length then some none
          else (hashToPointVartime fuel (iShake256Flip (iShake256Inject
            (iShake256Inject iShake256Init (signatureNonce sig)) (fillMessage msgSize token)))
              logn).map fun hm => some (hm, x)) =
          hashParsed fuel logn token sig
            (if 41 + v ≠ sig.length then .error .rejected else .ok x) := by
        by_cases hused : 41 + v ≠ sig.length
        · rw [if_pos (.inr hused), if_pos hused]
          rfl
        · have hv := decodeBytes_used hdecode (by omega)
          rw [if_neg (not_or.mpr ⟨hv, hused⟩), if_neg hused, signatureNonce_eq (by omega)]
          rfl
      exact hmain
  · rw [if_neg hshort, if_pos hheader, if_pos (.inr hheader)]
    rfl

end Preparing

section Verdicts

variable {logn k k' : ℕ}

/-- The verdict depends on the words of the polynomials only, not on the orders in which
the blocks work. -/
theorem verifyVerdict_congr (hNttMonty gmb igmb : ℕ → UInt16) (nInv : UInt32)
    (schedules : VerifySchedules (2 ^ k) (2 ^ logn))
    (schedules' : VerifySchedules (2 ^ k') (2 ^ logn)) {s2 s2' : ℕ → Int16} {s s' : VerifyState}
    (hs2 : ∀ j < 2 ^ logn, s2 j = s2' j) (htt : ∀ j < 2 ^ logn, s.tt j = s'.tt j)
    (hhm : ∀ j < 2 ^ logn, s.hm j = s'.hm j) :
    verifyVerdict hNttMonty gmb igmb nInv logn schedules s2 s =
      verifyVerdict hNttMonty gmb igmb nInv logn schedules' s2' s' := by
  have hterm : ∀ j ∈ range (2 ^ logn),
      squareWord (computedS1 nInv (kernelProduct gmb igmb schedules.product
        (fun j => (hNttMonty j).toUInt32) s.tt) s.hm j) + squareWord (s2 j).toInt32 =
      squareWord (computedS1 nInv (kernelProduct gmb igmb schedules'.product
        (fun j => (hNttMonty j).toUInt32) s'.tt) s'.hm j) + squareWord (s2' j).toInt32 := by
    intro j hj
    have hj := mem_range.mp hj
    rw [computedS1, computedS1, hs2 j hj, hhm j hj, kernelProduct_congr (Nat.two_pow_pos k)
      (Nat.two_pow_pos k') gmb igmb schedules.product schedules'.product _ htt hj]
  simp only [verifyVerdict, treeReduction_localSum]
  rw [sum_congr rfl hterm]

theorem loadDecoded_tt {blockDim n : ℕ} (hdim : 0 < blockDim) (schedule : Schedule blockDim n)
    (s2 : ℕ → Int16) (s : VerifyState) {j : ℕ} (hj : j < n) :
    (runTasks (loadDecoded s2) schedule.order s).tt j =
      addQIfNegative (s2 j).toInt32.toUInt32 := by
  rw [runTasks_component VerifyState.tt (scatterTask id fun j =>
    addQIfNegative (s2 j).toInt32.toUInt32) (fun _ _ => rfl)]
  exact runTasks_scatterTask id _ (schedule.nodup hdim) Function.injective_id.injOn _
    ((schedule.mem_order hdim).mpr hj)

theorem loadDecoded_hm (s2 : ℕ → Int16) (order : List ℕ) (s : VerifyState) :
    (runTasks (loadDecoded s2) order s).hm = s.hm :=
  runTasks_frame VerifyState.hm (fun j s => show (loadDecoded s2 j s).hm = s.hm from rfl) order s

theorem storeValues_of_lt {α : Type} {values : List α} {j : ℕ} (hj : j < values.length)
    (memory : ℕ → α) (x : α) :
    storeValues values memory j = values.getD j x := by
  rw [storeValues, List.getD_eq_getElem _ _ hj, List.getD_eq_getElem _ _ hj]

/-- Both verifiers give the same verdict on the coefficients of a signature and the
point that belongs to them. -/
theorem verifyVerdict_parsed (hNttMonty gmb igmb : ℕ → UInt16) (nInv : UInt32)
    (schedules : VerifySchedules (2 ^ k) (2 ^ logn))
    (schedules' : VerifySchedules (2 ^ k') (2 ^ logn)) {hm : List UInt16} {s2 : List Int16}
    (hhm : hm.length = 2 ^ logn) (hs2 : s2.length = 2 ^ logn) {slot slots : ℕ}
    (hslot : slot < slots) {hmBank : ℤ → UInt16} {s2Bank : ℤ → Int16}
    (hhmBank : Holds hmBank slot (2 ^ logn) hm) (hs2Bank : Holds s2Bank slot (2 ^ logn) s2)
    (s : CompressedState) (s' : VerifyState) (resultBank : ℕ → UInt8) :
    verifyVerdict hNttMonty gmb igmb nInv logn schedules (storeValues s2 s.s2)
        (runTasks (loadDecoded (storeValues s2 s.s2)) schedules.load.order
          { s.toVerifyState with hm := storeValues (hm.map UInt16.toUInt32) s.hm }) =
      kernelVerifyRawBatch hNttMonty gmb igmb nInv logn slots hmBank s2Bank slot schedules' s'
        resultBank slot := by
  rw [kernelVerifyRawBatch, if_neg (by omega), Function.update_self]
  have hcoeff : ∀ j < 2 ^ logn, storeValues s2 s.s2 j = s2Bank (bankIndex slot (2 ^ logn) j) := by
    intro j hj
    rw [hs2Bank j hj, storeValues_of_lt (by omega) s.s2 0]
  refine verifyVerdict_congr hNttMonty gmb igmb nInv schedules schedules' hcoeff
    (fun j hj => ?_) (fun j hj => ?_)
  · rw [loadDecoded_tt (Nat.two_pow_pos k) schedules.load _ _ hj,
      loadRaw_tt (Nat.two_pow_pos k') schedules'.load hmBank s2Bank slot s' hj, hcoeff j hj]
  · rw [loadDecoded_hm, loadRaw_hm (Nat.two_pow_pos k') schedules'.load hmBank s2Bank slot s' hj,
      hhmBank j hj]
    show storeValues (hm.map UInt16.toUInt32) s.hm j = _
    rw [storeValues_of_lt (by rw [List.length_map]; omega) s.hm 0,
      List.getD_eq_getElem _ _ (by rw [List.length_map]; omega), List.getElem_map,
      List.getD_eq_getElem _ _ (by omega)]

/-- The two verifiers agree, token by token. The raw kernel gets the prepared inputs in
any slot of its banks. The hash returns in both, or in neither, with the same fuel. -/
theorem compressed_agrees_raw (hlogn : logn ≤ 10) (fuel : ℕ) (hNttMonty gmb igmb : ℕ → UInt16)
    (nInv : UInt32) (sigBank : ℕ → UInt8) (sigStride : ℕ) (sigLens : ℕ → ℕ)
    {token tokens slot slots : ℕ} (htoken : token < tokens) (hslot : slot < slots)
    (schedules : VerifySchedules (2 ^ k) (2 ^ logn))
    (schedules' : VerifySchedules (2 ^ k') (2 ^ logn)) (s : CompressedState) (s' : VerifyState)
    (resultBank resultBank' : ℕ → UInt8) :
    let sig := tokenSignature sigBank sigStride sigLens token
    let prepared := prepareVerifyRawInputsFromSignature fuel logn (fillMessage msgSize token) sig
    let compressed := kernelVerifyCompressedBenchBatch fuel hNttMonty gmb igmb nInv logn tokens
      sigBank sigStride sigLens token schedules s resultBank
    (compressed.isSome ↔ prepared.isSome) ∧
      ∀ (hmBank : ℤ → UInt16) (s2Bank : ℤ → Int16),
        (∀ hm s2, prepared = some (some (hm, s2)) →
          Holds hmBank slot (2 ^ logn) hm ∧ Holds s2Bank slot (2 ^ logn) s2) →
        (compressed.map (fun resultBank => resultBank token) = some 1 ↔
          (∃ inputs, prepared = some (some inputs)) ∧
            kernelVerifyRawBatch hNttMonty gmb igmb nInv logn slots hmBank s2Bank slot schedules'
              s' resultBank' slot = 1) := by
  intro sig prepared compressed
  have hprepared : prepared = hashParsed fuel logn token sig (parseSignature logn sig) :=
    prepare_eq fuel logn token sig
  have hcompressed : compressed = match parseSignature logn sig with
      | .error _ => some (Function.update resultBank token 0)
      | .ok s2 => (hashToPointVartimeBenchDevice fuel token (fun i => sig.getD (1 + i) 0)
          logn).map fun hm => Function.update resultBank token
            (verifyVerdict hNttMonty gmb igmb nInv logn schedules (storeValues s2 s.s2)
              (runTasks (loadDecoded (storeValues s2 s.s2)) schedules.load.order
                { s.toVerifyState with hm := storeValues hm s.hm })) :=
    if_neg (by omega)
  clear_value prepared compressed
  rcases hparse : parseSignature logn sig with stop | s2
  · -- the signature is rejected
    rw [hparse] at hprepared hcompressed
    replace hprepared : prepared = some none := hprepared
    replace hcompressed : compressed = some (Function.update resultBank token 0) := hcompressed
    rw [hprepared, hcompressed]
    refine ⟨iff_of_true rfl rfl, fun hmBank s2Bank _ => ⟨fun hverdict => ?_, ?_⟩⟩
    · rw [Option.map_some, Function.update_self] at hverdict
      exact absurd hverdict (by decide)
    · rintro ⟨⟨inputs, hinputs⟩, -⟩
      exact absurd (Option.some.inj hinputs) nofun
  · obtain ⟨nonce, es, _, _, hs2, _⟩ := (parseSignature_eq_ok_iff hlogn).mp hparse
    rw [hparse] at hprepared hcompressed
    replace hprepared : prepared = (hashToPointVartime fuel
      (absorbed (fun i => sig.getD (1 + i) 0) token) logn).map fun hm => some (hm, s2) := hprepared
    have hdevice := hashToPoint_absorbed fuel token (fun i => sig.getD (1 + i) 0) logn
    rcases hhash : hashToPointVartime fuel (absorbed (fun i => sig.getD (1 + i) 0) token) logn with
      _ | hm
    · -- the hash does not return with this fuel
      rw [hhash] at hprepared hdevice
      simp only [← hdevice, Option.map_none] at hcompressed hprepared
      rw [hprepared, hcompressed]
      refine ⟨Iff.rfl, fun hmBank s2Bank _ => ⟨nofun, ?_⟩⟩
      rintro ⟨⟨inputs, hinputs⟩, -⟩
      contradiction
    · rw [hhash] at hprepared hdevice
      simp only [← hdevice, Option.map_some] at hcompressed hprepared
      have hhm := length_of_hashToPointVartime hhash
      rw [hprepared, hcompressed]
      refine ⟨iff_of_true rfl rfl, fun hmBank s2Bank hbanks => ?_⟩
      obtain ⟨hhmBank, hs2Bank⟩ := hbanks hm s2 rfl
      rw [Option.map_some, Function.update_self, Option.some.injEq,
        verifyVerdict_parsed hNttMonty gmb igmb nInv schedules schedules' hhm hs2 hslot hhmBank
          hs2Bank s s' resultBank']
      exact ⟨fun hverdict => ⟨⟨_, rfl⟩, hverdict⟩, fun hboth => hboth.2⟩

end Verdicts

def blankCompressedState : CompressedState := { blankVerifyState with s2 := fun _ => 0 }

/-- The signature of the coefficients 0 and -1, with a nonce of sevens. -/
def sampleSigBank (i : ℕ) : UInt8 :=
  ((0x31 : UInt8) :: List.replicate 40 7 ++ [0x00, 0xC0, 0xC0]).getD i 0

def samplePrepared (fuel : ℕ) : Option (Option (List UInt16 × List Int16)) :=
  prepareVerifyRawInputsFromSignature fuel 1 (fillMessage msgSize 0)
    (tokenSignature sampleSigBank 44 (fun _ => 44) 0)

/-- The banks that hold the prepared inputs of the sample in slot 0. -/
def samplePreparedBanks (fuel : ℕ) : (ℤ → UInt16) × (ℤ → Int16) :=
  match samplePrepared fuel with
  | some (some (hm, s2)) => (fun i => hm.getD i.toNat 0, fun i => s2.getD i.toNat 0)
  | _ => (fun _ => 0, fun _ => 0)

theorem compressed_agrees_raw_sample :
    (kernelVerifyCompressedBenchBatch 20 (nttMontgomeryForm 1 sampleKey) gmb igmb (nInv 1) 1 1
        sampleSigBank 44 (fun _ => 44) 0 (VerifySchedules.sequential (2 ^ 2) (2 ^ 1))
        blankCompressedState (fun _ => 0)).map (fun resultBank => resultBank 0) = some 1 ↔
      (∃ inputs, samplePrepared 20 = some (some inputs)) ∧
        kernelVerifyRawBatch (nttMontgomeryForm 1 sampleKey) gmb igmb (nInv 1) 1 1
          (samplePreparedBanks 20).1 (samplePreparedBanks 20).2 0
          (VerifySchedules.sequential (2 ^ 1) (2 ^ 1)) blankVerifyState (fun _ => 0) 0 = 1 := by
  refine (compressed_agrees_raw (show 1 ≤ 10 by decide) 20 (nttMontgomeryForm 1 sampleKey) gmb igmb
    (nInv 1) sampleSigBank 44 (fun _ => 44) (show 0 < 1 by decide) (show 0 < 1 by decide)
    (.sequential (2 ^ 2) (2 ^ 1)) (.sequential (2 ^ 1) (2 ^ 1)) blankCompressedState
    blankVerifyState (fun _ => 0) (fun _ => 0)).2 _ _ fun hm s2 hprepared => ?_
  replace hprepared : samplePrepared 20 = some (some (hm, s2)) := hprepared
  have hindex : ∀ j < 2 ^ 1, (bankIndex 0 (2 ^ 1) j).toNat = j := by decide
  rw [samplePreparedBanks, hprepared]
  exact ⟨fun j hj => congrArg (fun i => hm.getD i 0) (hindex j hj),
    fun j hj => congrArg (fun i => s2.getD i 0) (hindex j hj)⟩

end Soko.Gpu
