import Mathlib
import Soko.FnDsa.FalconVerify
import Soko.Gpu.VerifyCompressed

/-!
`falcon_verify` and the verifier of the GPU. The device accepts a signature if `falcon_verify`
does with three times the bound (`kernelVerifyCompressed_iff_falconVerify`).
-/

namespace Soko.FnDsa

open Soko.Library Soko.Shake Soko.Signature Soko.Gpu

variable {logn fuel tmpLen : ℕ} {sigType : ℤ} {sig pubkey data : List UInt8}

theorem parseSignature_eq_ok_iff_encodes (hlogn : logn ≤ 10) {s2 : List Int16} :
    parseSignature logn sig = .ok s2 ↔
      41 ≤ sig.length ∧ s2.length = 2 ^ logn ∧
        Encodes logn (signatureNonce sig) s2 false 1 sig := by
  rw [parseSignature_eq_ok_iff hlogn]
  constructor
  · rintro ⟨nonce, es, hnonce, rfl, hs2, hrange, k, hk, hbits⟩
    rw [nonce_signatureString logn es hnonce, length_signatureString logn es hnonce]
    exact ⟨by omega, hs2, .compressed (.inr rfl) (compEncode_of_bits hrange hk hbits le_rfl)⟩
  · rintro ⟨hlong, hs2, hencodes⟩
    have hnonce : (signatureNonce sig).length = 40 := by
      rw [signatureNonce, List.length_take, List.length_drop]
      omega
    obtain ⟨nonce, hn⟩ : ∃ nonce, nonce = signatureNonce sig := ⟨_, rfl⟩
    rw [← hn] at hnonce hencodes
    cases hencodes with
    | @compressed _ es _ hencode =>
        obtain ⟨hrange, hbits⟩ := compEncode_bits hencode
        exact ⟨nonce, es, hnonce, rfl, hs2, hrange, hbits⟩
    | padded htwo _ _ => omega

theorem squaredNorm_congr_right {n : ℕ} {s1 s2 s2' : ℕ → ℤ} (hs2 : ∀ j < n, s2 j = s2' j) :
    squaredNorm n s1 s2 = squaredNorm n s1 s2' := by
  refine Finset.sum_congr rfl fun j hj => ?_
  rw [hs2 j (Finset.mem_range.mp hj)]

/-- The verdicts of the device and of `verify_raw` with three times the bound. -/
theorem verifyVerdict_iff_verifyRaw {k : ℕ} (hlogn : logn ≤ 10)
    (schedules : VerifySchedules (2 ^ k) (2 ^ logn)) {hm : List UInt16} {s2 : List Int16}
    (hNttMonty : ℕ → UInt16) (hlength : hm.length = 2 ^ logn) (hs2 : s2.length = 2 ^ logn)
    (hhm : ReducedBelow16 (2 ^ logn) (ofCoeffs hm))
    (hsmall : ∀ j < 2 ^ logn, |(ofCoeffs s2 j : Int16).toInt| ≤ 2047) (s : CompressedState)
    (tmp : ℕ → UInt16) :
    let verdict := verifyVerdict hNttMonty gmb igmb (nInv logn) logn schedules
      (storeValues s2 s.s2) (runTasks (loadDecoded (storeValues s2 s.s2)) schedules.load.order
        { s.toVerifyState with hm := storeValues (hm.map UInt16.toUInt32) s.hm })
    (verdict = 1 ↔ ¬verifyRaw (fun logn => 3 * l2bound logn) (ofCoeffs hm) (ofCoeffs s2) hNttMonty
      logn tmp = 0) ∧
    (¬verifyRaw l2bound (ofCoeffs hm) (ofCoeffs s2) hNttMonty logn tmp = 0 → verdict = 1) := by
  intro verdict
  have hdim : 0 < 2 ^ k := Nat.two_pow_pos k
  obtain ⟨htable, htriple, hbound⟩ := verifyL2boundDevice_eq hlogn
  have hcoeff : ∀ j < 2 ^ logn, storeValues s2 s.s2 j = ofCoeffs s2 j := fun j hj =>
    storeValues_of_lt (by omega) s.s2 0
  have hloadtt := fun j hj => loadDecoded_tt hdim schedules.load (storeValues s2 s.s2)
    { s.toVerifyState with hm := storeValues (hm.map UInt16.toUInt32) s.hm } (j := j) hj
  have hloadhm : ∀ j < 2 ^ logn, (runTasks (loadDecoded (storeValues s2 s.s2)) schedules.load.order
      { s.toVerifyState with hm := storeValues (hm.map UInt16.toUInt32) s.hm }).hm j =
        (ofCoeffs hm j : UInt16).toUInt32 := by
    intro j hj
    rw [loadDecoded_hm]
    show storeValues (hm.map UInt16.toUInt32) s.hm j = _
    rw [storeValues_of_lt (by rw [List.length_map]; omega) s.hm 0, ofCoeffs,
      List.getD_eq_getElem _ _ (by rw [List.length_map]; omega), List.getElem_map,
      List.getD_eq_getElem _ _ (by omega)]
  have hloads2 := fun j (hj : j < 2 ^ logn) => (hloadtt j hj).trans
    (congrArg (fun x : Int16 => addQIfNegative x.toInt32.toUInt32) (hcoeff j hj))
  have hpoint : ∀ j < 2 ^ logn, (ofCoeffs hm j : UInt16).toNat < 12289 := hhm
  obtain ⟨hs1, htripled⟩ := verifyRaw_eq hlogn schedules.product (fun logn => 3 * l2bound logn)
    hbound hNttMonty hpoint hsmall tmp hloads2 hloadhm
  obtain ⟨-, hexact⟩ := verifyRaw_eq hlogn schedules.product l2bound (by omega) hNttMonty hpoint
    hsmall tmp hloads2 hloadhm
  have hrange : ∀ j < 2 ^ logn, |(storeValues s2 s.s2 j).toInt| ≤ 2047 := fun j hj => by
    rw [hcoeff j hj]
    exact hsmall j hj
  have hverdict : verdict = _ := verifyVerdict_eq hlogn schedules hrange hs1 rfl
  have hcast : ((3 * l2bound logn).toNat : ℤ) = 3 * (l2bound logn).toNat := by
    rw [htriple, Nat.cast_mul, Nat.cast_ofNat]
  rw [squaredNorm_congr_right (fun j hj => congrArg Int16.toInt (hcoeff j hj)), htable] at hverdict
  rw [hverdict, htripled, hexact, hcast]
  constructor
  · split_ifs <;> simp
  · split_ifs with hshort hlong
    · simp
    · omega
    · simp
    · simp

/-- What `falcon_verify` does with a compressed signature and a valid key. -/
theorem falconVerify_of_parsed {bound : ℕ → UInt32} {h : List UInt16} {s2 : List Int16}
    {slots tmp : ℕ → UInt16} (hkey : PublicKeyOf pubkey logn h) (htmp : tmpsizeVerify logn ≤ tmpLen)
    (hparse : parseSignature logn sig = .ok s2) :
    falconVerify bound fuel sig 1 pubkey data tmpLen slots tmp =
      (hashToPointVartime fuel (hashedInput (signatureNonce sig) data) logn).map fun hm =>
        if verifyRaw bound (ofCoeffs hm) (ofCoeffs s2) (toNttMonty logn (ofCoeffs h)) logn
          tmp = 0 then .error .badsig
        else .ok () := by
  obtain ⟨hlong, hs2, hencodes⟩ := (parseSignature_eq_ok_iff_encodes hkey.le_10).mp hparse
  rw [falconVerify_eq, readVerifyInputs_iff.mpr ⟨hkey, htmp, hlong, hs2, hencodes⟩]
  rfl

/-- `falcon_verify` refuses what the device does not parse. -/
theorem falconVerify_of_not_parsed {bound : ℕ → UInt32} {h : List UInt16} {stop : DecodeStop}
    {slots tmp : ℕ → UInt16} (hkey : PublicKeyOf pubkey logn h)
    (hparse : parseSignature logn sig = .error stop) :
    ∃ err, falconVerify bound fuel sig 1 pubkey data tmpLen slots tmp = some (.error err) := by
  rw [falconVerify_eq]
  cases hread : readVerifyInputs sig 1 pubkey tmpLen with
  | error err => exact ⟨err, rfl⟩
  | ok inputs =>
      obtain ⟨logn', ct, h', s2⟩ := inputs
      obtain ⟨hkey', -, hlong, hs2, hencodes⟩ := readVerifyInputs_iff.mp hread
      obtain rfl := hkey.degree_unique hkey'
      cases ct with
      | false =>
          rw [(parseSignature_eq_ok_iff_encodes hkey.le_10).mpr ⟨hlong, hs2, hencodes⟩] at hparse
          cases hparse
      | true =>
          obtain ⟨-, htype, -⟩ := (encodes_true_iff hkey.le_10 hlong).mp hencodes
          omega

section Device

variable {k tokens token : ℕ} {hNttMonty : ℕ → UInt16} {sigBank : ℕ → UInt8} {sigStride : ℕ}
  {sigLens : ℕ → ℕ}

theorem kernelVerifyCompressed_of_not_parsed (htoken : token < tokens) {stop : DecodeStop}
    (hparse : parseSignature logn (tokenSignature sigBank sigStride sigLens token) = .error stop)
    (schedules : VerifySchedules (2 ^ k) (2 ^ logn)) (s : CompressedState)
    (resultBank : ℕ → UInt8) :
    kernelVerifyCompressedBenchBatch fuel hNttMonty gmb igmb (nInv logn) logn tokens sigBank
        sigStride sigLens token schedules s resultBank =
      some (Function.update resultBank token 0) := by
  rw [kernelVerifyCompressedBenchBatch, if_neg (not_le.mpr htoken)]
  dsimp only
  rw [hparse]

theorem kernelVerifyCompressed_of_parsed (htoken : token < tokens) {s2 : List Int16}
    (hparse : parseSignature logn (tokenSignature sigBank sigStride sigLens token) = .ok s2)
    (schedules : VerifySchedules (2 ^ k) (2 ^ logn)) (s : CompressedState)
    (resultBank : ℕ → UInt8) :
    kernelVerifyCompressedBenchBatch fuel hNttMonty gmb igmb (nInv logn) logn tokens sigBank
        sigStride sigLens token schedules s resultBank =
      (hashToPointVartimeBenchDevice fuel token
        (fun i => (tokenSignature sigBank sigStride sigLens token).getD (1 + i) 0) logn).map
          fun hm => Function.update resultBank token
            (verifyVerdict hNttMonty gmb igmb (nInv logn) logn schedules (storeValues s2 s.s2)
              (runTasks (loadDecoded (storeValues s2 s.s2)) schedules.load.order
                { s.toVerifyState with hm := storeValues hm s.hm })) := by
  rw [kernelVerifyCompressedBenchBatch, if_neg (not_le.mpr htoken)]
  dsimp only
  rw [hparse]

end Device

/-- For a token of the batch, the device and `falcon_verify` return for the same fuel of the
hash, and the device accepts what `falcon_verify` accepts with three times the bound: so all that
`falcon_verify` accepts, in any order of the threads. -/
theorem kernelVerifyCompressed_iff_falconVerify {k : ℕ} {h : List UInt16}
    (hkey : PublicKeyOf pubkey logn h) (htmp : tmpsizeVerify logn ≤ tmpLen) (fuel : ℕ)
    (sigBank : ℕ → UInt8) (sigStride : ℕ) (sigLens : ℕ → ℕ) {token tokens : ℕ}
    (htoken : token < tokens) (schedules : VerifySchedules (2 ^ k) (2 ^ logn))
    (s : CompressedState) (resultBank : ℕ → UInt8) (slots tmp : ℕ → UInt16) :
    let device := (kernelVerifyCompressedBenchBatch fuel (toNttMonty logn (ofCoeffs h)) gmb igmb
      (nInv logn) logn tokens sigBank sigStride sigLens token schedules s resultBank).map
        fun resultBank => resultBank token
    let cpu := fun bound => falconVerify bound fuel (tokenSignature sigBank sigStride sigLens token)
      1 pubkey (fillMessage msgSize token) tmpLen slots tmp
    (device.isSome ↔ (cpu l2bound).isSome) ∧
      (device = some 1 ↔ cpu (fun logn => 3 * l2bound logn) = some (.ok ())) ∧
      (cpu l2bound = some (.ok ()) → device = some 1) := by
  intro device cpu
  obtain ⟨sig, hsig⟩ : ∃ sig, sig = tokenSignature sigBank sigStride sigLens token := ⟨_, rfl⟩
  have hcpu : ∀ bound, cpu bound =
      falconVerify bound fuel sig 1 pubkey (fillMessage msgSize token) tmpLen slots tmp := by
    intro bound
    rw [hsig]
  have hdevice : device = (kernelVerifyCompressedBenchBatch fuel (toNttMonty logn (ofCoeffs h)) gmb
    igmb (nInv logn) logn tokens sigBank sigStride sigLens token schedules s resultBank).map
      fun resultBank => resultBank token := rfl
  clear_value device cpu
  simp only [hcpu]
  rcases hparse : parseSignature logn sig with stop | s2
  · have hzero : device = some 0 := by
      rw [hdevice, kernelVerifyCompressed_of_not_parsed htoken (by rw [← hsig, hparse]),
        Option.map_some, Function.update_self]
    have hrefused : ∀ bound, ∃ err, falconVerify bound fuel sig 1 pubkey
        (fillMessage msgSize token) tmpLen slots tmp = some (.error err) := fun bound =>
      falconVerify_of_not_parsed hkey hparse
    obtain ⟨err, herr⟩ := hrefused l2bound
    obtain ⟨err', herr'⟩ := hrefused fun logn => 3 * l2bound logn
    rw [hzero, herr, herr']
    simp
  · obtain ⟨hlong, hs2, hencodes⟩ := (parseSignature_eq_ok_iff_encodes hkey.le_10).mp hparse
    have habsorbed : hashedInput (signatureNonce sig) (fillMessage msgSize token) =
        absorbed (fun i => sig.getD (1 + i) 0) token := by
      rw [signatureNonce_eq hlong]
      rfl
    simp only [falconVerify_of_parsed hkey htmp hparse, habsorbed]
    rw [kernelVerifyCompressed_of_parsed htoken (by rw [← hsig, hparse]), ← hsig,
      ← hashToPoint_absorbed] at hdevice
    rcases hhash : hashToPointVartime fuel (absorbed (fun i => sig.getD (1 + i) 0) token) logn with
      _ | hm
    · rw [hhash] at hdevice
      rw [hdevice]
      simp
    · rw [hhash] at hdevice
      obtain ⟨hlength, hreduced⟩ := of_hashToPointVartime hhash
      obtain ⟨htriple, hexact⟩ := verifyVerdict_iff_verifyRaw hkey.le_10 schedules
        (toNttMonty logn (ofCoeffs h)) hlength hs2 hreduced
        (hencodes.small hkey.one_le hkey.le_10 hs2) s tmp
      simp only [Option.map_some, Function.update_self] at hdevice
      rw [hdevice]
      simp only [Option.map_some, Option.isSome_some, Option.some.injEq, true_and]
      constructor
      · rw [htriple]
        split <;> simp_all
      · intro hok
        apply hexact
        intro hzero
        rw [if_pos hzero] at hok
        cases hok

theorem kernelVerifyCompressed_iff_falconVerify_sample :
    (kernelVerifyCompressedBenchBatch 20 (toNttMonty 1 (ofCoeffs [3, 3])) gmb igmb (nInv 1) 1 1
        sampleSigBank 44 (fun _ => 44) 0 (VerifySchedules.sequential (2 ^ 2) (2 ^ 1))
        blankCompressedState (fun _ => 0)).map (fun resultBank => resultBank 0) = some 1 ↔
      falconVerify (fun logn => 3 * l2bound logn) 20
        (tokenSignature sampleSigBank 44 (fun _ => 44) 0) 1 samplePublicKey
        (fillMessage msgSize 0) 17 (fun _ => 0) (fun _ => 0) = some (.ok ()) :=
  (kernelVerifyCompressed_iff_falconVerify publicKeyOf_sample (show tmpsizeVerify 1 ≤ 17 by decide)
    20 sampleSigBank 44 (fun _ => 44) (show 0 < 1 by decide) (.sequential (2 ^ 2) (2 ^ 1))
    blankCompressedState (fun _ => 0) (fun _ => 0) (fun _ => 0)).2.1

end Soko.FnDsa
