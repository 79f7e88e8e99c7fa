import Mathlib
import Soko.FnDsa.DeviceVerify

/-!
The signature of a token, from the coefficients that the signer has computed. `falcon_verify` and
both kernels of the GPU decide whether these coefficients solve the norm equation; the kernels
allow three times the norm.
-/

namespace Soko.FnDsa

open Soko.Library Soko.Shake Soko.Signature Soko.Gpu

/-- The coefficients solve the norm equation for a key and a point, within a bound. -/
def SolvesNorm (logn : ℕ) (h hm : List UInt16) (s2 : List Int16) (bound : ℕ) : Prop :=
  ∃ s1, NormVector (2 ^ logn) (fun j => residue16 (ofCoeffs h j))
      (fun j => residue16 (ofCoeffs hm j)) (fun j => (ofCoeffs s2 j : Int16).toInt) s1 ∧
    squaredNorm (2 ^ logn) s1 (fun j => (ofCoeffs s2 j : Int16).toInt) ≤ bound

def Fits (logn : ℕ) (h : List UInt16) (nonce data : List UInt8) (s2 : List Int16) (bound : ℕ) :
    Prop :=
  ∃ hm, (∃ fuel, hashToPointVartime fuel (hashedInput nonce data) logn = some hm) ∧
    SolvesNorm logn h hm s2 bound

section Signed

variable {logn : ℕ} {nonce : Vector UInt8 40} {sv : List Int16} {sigBufLen : UInt64}
  {sig : List UInt8}

/-- The parser reads the coefficients and the nonce again. -/
theorem parseSignature_of_signed (hlogn : logn ≤ 10) (hsv : sv.length = 2 ^ logn)
    (hsign : signTokenToSignature logn nonce sv sigBufLen = some sig) :
    parseSignature logn sig = .ok sv ∧ signatureNonce sig = nonce.toList ∧ 41 ≤ sig.length := by
  obtain ⟨es, hencode, hsig⟩ := Option.bind_eq_some_iff.mp hsign
  split at hsig
  · contradiction
  · obtain rfl : signatureString logn nonce.toList es = sig := Option.some.inj hsig
    obtain ⟨hrange, hbits⟩ := compEncode_bits hencode
    have hlength := length_signatureString logn es nonce.length_toList
    exact ⟨(parseSignature_eq_ok_iff hlogn).mpr
        ⟨nonce.toList, es, nonce.length_toList, rfl, hsv, hrange, hbits⟩,
      nonce_signatureString logn es nonce.length_toList, by omega⟩

end Signed

section Verifiers

variable {logn tmpLen : ℕ} {pubkey sig data : List UInt8} {h : List UInt16} {s2 : List Int16}
  (hkey : PublicKeyOf pubkey logn h) (hparse : parseSignature logn sig = .ok s2)
include hkey hparse

theorem verifyRaw_parsed_iff {bound : ℕ → UInt32} (hbound : (bound logn).toNat < 2 ^ 31)
    {hm : List UInt16} (hhm : ReducedBelow16 (2 ^ logn) (ofCoeffs hm)) (tmp : ℕ → UInt16) :
    ¬verifyRaw bound (ofCoeffs hm) (ofCoeffs s2) (toNttMonty logn (ofCoeffs h)) logn tmp = 0 ↔
      SolvesNorm logn h hm s2 (bound logn).toNat := by
  obtain ⟨-, hs2, hencodes⟩ := (parseSignature_eq_ok_iff_encodes hkey.le_10).mp hparse
  exact verifyRaw_ne_zero_iff hbound hkey hs2 hencodes hhm tmp

theorem falconVerify_parsed_iff {bound : ℕ → UInt32} (hbound : (bound logn).toNat < 2 ^ 31)
    (htmp : tmpsizeVerify logn ≤ tmpLen) (slots tmp : ℕ → UInt16) :
    (∃ fuel, falconVerify bound fuel sig 1 pubkey data tmpLen slots tmp = some (.ok ())) ↔
      Fits logn h (signatureNonce sig) data s2 (bound logn).toNat := by
  simp only [falconVerify_of_parsed hkey htmp hparse, Option.map_eq_some_iff]
  constructor
  · rintro ⟨fuel, hm, hhash, hverdict⟩
    refine ⟨hm, ⟨fuel, hhash⟩, (verifyRaw_parsed_iff hkey hparse hbound
      (of_hashToPointVartime hhash).2 tmp).mp fun hzero => ?_⟩
    rw [if_pos hzero] at hverdict
    cases hverdict
  · rintro ⟨hm, ⟨fuel, hhash⟩, hsolves⟩
    exact ⟨fuel, hm, hhash, if_neg ((verifyRaw_parsed_iff hkey hparse hbound
      (of_hashToPointVartime hhash).2 tmp).mpr hsolves)⟩

/-- The verdict of the kernels on the coefficients and the point. -/
theorem verifyVerdict_parsed_iff {k : ℕ} (schedules : VerifySchedules (2 ^ k) (2 ^ logn))
    {hm : List UInt16} (hlength : hm.length = 2 ^ logn)
    (hhm : ReducedBelow16 (2 ^ logn) (ofCoeffs hm)) (s : CompressedState) :
    ¬verifyVerdict (toNttMonty logn (ofCoeffs h)) gmb igmb (nInv logn) logn schedules
        (storeValues s2 s.s2) (runTasks (loadDecoded (storeValues s2 s.s2)) schedules.load.order
          { s.toVerifyState with hm := storeValues (hm.map UInt16.toUInt32) s.hm }) = 0 ↔
      SolvesNorm logn h hm s2 (3 * (l2bound logn).toNat) := by
  obtain ⟨-, hs2, hencodes⟩ := (parseSignature_eq_ok_iff_encodes hkey.le_10).mp hparse
  obtain ⟨-, htriple, hsmall⟩ := verifyL2boundDevice_eq hkey.le_10
  have hbound : ((fun logn => 3 * l2bound logn) logn).toNat < 2 ^ 31 := hsmall
  have hverdict := (verifyVerdict_iff_verifyRaw hkey.le_10 schedules
    (toNttMonty logn (ofCoeffs h)) hlength hs2 hhm (hencodes.small hkey.one_le hkey.le_10 hs2) s
    fun _ => 0).1
  rw [verifyRaw_parsed_iff hkey hparse hbound hhm, htriple] at hverdict
  rw [← hverdict, verifyVerdict]
  dsimp only
  split <;> simp

/-- `kernel_verify_raw_batch` on the coefficients and the point. -/
theorem kernelVerifyRawBatch_parsed_iff {k slot slots : ℕ} (hslot : slot < slots)
    {hm : List UInt16} (hlength : hm.length = 2 ^ logn)
    (hhm : ReducedBelow16 (2 ^ logn) (ofCoeffs hm)) {hmBank : ℤ → UInt16} {s2Bank : ℤ → Int16}
    (hhmBank : Holds hmBank slot (2 ^ logn) hm) (hs2Bank : Holds s2Bank slot (2 ^ logn) s2)
    (schedules : VerifySchedules (2 ^ k) (2 ^ logn)) (s : VerifyState) (resultBank : ℕ → UInt8) :
    ¬kernelVerifyRawBatch (toNttMonty logn (ofCoeffs h)) gmb igmb (nInv logn) logn slots hmBank
        s2Bank slot schedules s resultBank slot = 0 ↔
      SolvesNorm logn h hm s2 (3 * (l2bound logn).toNat) := by
  have hs2 := ((parseSignature_eq_ok_iff_encodes hkey.le_10).mp hparse).2.1
  rw [← verifyVerdict_parsed (toNttMonty logn (ofCoeffs h)) gmb igmb (nInv logn) schedules
    schedules hlength hs2 hslot hhmBank hs2Bank blankCompressedState s resultBank]
  exact verifyVerdict_parsed_iff hkey hparse schedules hlength hhm blankCompressedState

omit hparse in
/-- `kernel_verify_compressed_bench_batch` on a parsed signature. -/
theorem kernelVerifyCompressed_parsed_iff {k fuel token tokens sigStride : ℕ} {verdict : UInt8}
    (htoken : token < tokens) {sigBank : ℕ → UInt8} {sigLens : ℕ → ℕ}
    (hparse : parseSignature logn (tokenSignature sigBank sigStride sigLens token) = .ok s2)
    {schedules : VerifySchedules (2 ^ k) (2 ^ logn)} {s : CompressedState}
    {resultBank : ℕ → UInt8}
    (hverdict : (kernelVerifyCompressedBenchBatch fuel (toNttMonty logn (ofCoeffs h)) gmb igmb
      (nInv logn) logn tokens sigBank sigStride sigLens token schedules s resultBank).map
        (fun bank => bank token) = some verdict) :
    ¬verdict = 0 ↔ Fits logn h (signatureNonce (tokenSignature sigBank sigStride sigLens token))
      (fillMessage msgSize token) s2 (3 * (l2bound logn).toNat) := by
  obtain ⟨hlong, -⟩ := (parseSignature_eq_ok_iff_encodes hkey.le_10).mp hparse
  obtain ⟨sig, hsig⟩ : ∃ sig, sig = tokenSignature sigBank sigStride sigLens token := ⟨_, rfl⟩
  rw [kernelVerifyCompressed_of_parsed htoken hparse, ← hashToPoint_absorbed, ← hsig] at hverdict
  rw [← hsig] at hparse hlong ⊢
  have habsorbed : hashedInput (signatureNonce sig) (fillMessage msgSize token) =
      absorbed (fun i => sig.getD (1 + i) 0) token := by
    rw [signatureNonce_eq hlong]
    rfl
  rw [← habsorbed, Option.map_map, Option.map_map] at hverdict
  obtain ⟨hm, hhash, rfl⟩ := Option.map_eq_some_iff.mp hverdict
  obtain ⟨hlength, hreduced⟩ := of_hashToPointVartime hhash
  simp only [Function.comp_apply, Function.update_self]
  rw [verifyVerdict_parsed_iff hkey hparse schedules hlength hreduced]
  constructor
  · exact fun hsolves => ⟨hm, ⟨fuel, hhash⟩, hsolves⟩
  · rintro ⟨hm', ⟨fuel', hhash'⟩, hsolves⟩
    obtain rfl := hashToPointVartime_unique hhash hhash'
    exact hsolves

end Verifiers

end Soko.FnDsa
