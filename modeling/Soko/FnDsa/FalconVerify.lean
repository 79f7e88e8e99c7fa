import Mathlib
import Soko.FnDsa.HashToPointCt
import Soko.FnDsa.VerifyInputs

/-!
`falcon_verify` of `submodules/FN-DSA/falcon.c`. It accepts the signatures that are encoded in
one of the three formats, if the polynomial in them solves the norm equation for the key and
the hashed point (`falconVerify_iff`).
-/

namespace Soko.FnDsa

open Soko.Library Soko.Shake Soko.Signature Soko.Gpu

/-- The hashed point, or nothing if the fuel of `hash_to_point_vartime` runs out. -/
def hashedPoint (fuel : ℕ) (ct : Bool) (hashData : InnerShake256Context) (logn : ℕ)
    (slots : ℕ → UInt16) : Option (List UInt16) :=
  if ct then some (hashToPointCt hashData logn slots).1
  else hashToPointVartime fuel hashData logn

def falconVerifyFinish (l2bound : ℕ → UInt32) (fuel : ℕ) (sig : List UInt8) (sigType : ℤ)
    (pubkey : List UInt8) (hashData : InnerShake256Context) (tmpLen : ℕ)
    (slots tmp : ℕ → UInt16) : Option (Except FalconErr Unit) :=
  match readVerifyInputs sig sigType pubkey tmpLen with
  | .error err => some (.error err)
  | .ok (logn, ct, h, sv) =>
      (hashedPoint fuel ct (iShake256Flip hashData) logn slots).map fun hm =>
        if verifyRaw l2bound (ofCoeffs hm) (ofCoeffs sv) (toNttMonty logn (ofCoeffs h)) logn
          tmp = 0 then .error .badsig
        else .ok ()

def falconVerifyStart (sig : List UInt8) : Except FalconErr InnerShake256Context :=
  if sig.length < 41 then .error .format
  else .ok (iShake256Inject iShake256Init (signatureNonce sig))

def falconVerify (l2bound : ℕ → UInt32) (fuel : ℕ) (sig : List UInt8) (sigType : ℤ)
    (pubkey data : List UInt8) (tmpLen : ℕ) (slots tmp : ℕ → UInt16) :
    Option (Except FalconErr Unit) :=
  match falconVerifyStart sig with
  | .error err => some (.error err)
  | .ok hd =>
      falconVerifyFinish l2bound fuel sig sigType pubkey (iShake256Inject hd data) tmpLen slots tmp

section Verifying

variable {logn fuel tmpLen : ℕ} {sigType : ℤ} {sig pubkey data : List UInt8}
  {bound : ℕ → UInt32} {slots tmp : ℕ → UInt16}

/-- The context that is hashed, for a nonce and a message. -/
def hashedInput (nonce data : List UInt8) : InnerShake256Context :=
  iShake256Flip (iShake256Inject (iShake256Inject iShake256Init nonce) data)

theorem falconVerify_eq (bound : ℕ → UInt32) (fuel : ℕ) (sig : List UInt8) (sigType : ℤ)
    (pubkey data : List UInt8) (tmpLen : ℕ) (slots tmp : ℕ → UInt16) :
    falconVerify bound fuel sig sigType pubkey data tmpLen slots tmp =
      match readVerifyInputs sig sigType pubkey tmpLen with
      | .error err => some (.error err)
      | .ok (logn, ct, h, sv) =>
          (hashedPoint fuel ct (hashedInput (signatureNonce sig) data) logn slots).map fun hm =>
            if verifyRaw bound (ofCoeffs hm) (ofCoeffs sv) (toNttMonty logn (ofCoeffs h)) logn
              tmp = 0 then .error .badsig
            else .ok () := by
  rw [falconVerify, falconVerifyStart]
  by_cases hshort : sig.length < 41
  · rw [if_pos hshort, readVerifyInputs, if_pos (.inl hshort)]
  · rw [if_neg hshort]
    rfl

theorem of_hashToPointVartime {sc : InnerShake256Context} {hm : List UInt16}
    (hhash : hashToPointVartime fuel sc logn = some hm) :
    hm.length = 2 ^ logn ∧ ReducedBelow16 (2 ^ logn) (ofCoeffs hm) := by
  obtain ⟨words, hloop, rfl⟩ := Option.map_eq_some_iff.mp hhash
  obtain ⟨hlength, hreduced⟩ := of_hashLoop_eq_some hloop
  rw [List.length_map]
  refine ⟨hlength, fun j hj => ?_⟩
  have hword : (ofCoeffs (words.map UInt32.toUInt16) j : UInt16) = words[j].toUInt16 := by
    rw [ofCoeffs, List.getD_eq_getElem _ _ (by rw [List.length_map]; omega), List.getElem_map]
  have hred := hreduced _ (List.getElem_mem (show j < words.length by omega))
  rw [hword, toUInt32_toUInt16 hred]
  exact hred

theorem hashToPointVartime_unique {fuel' : ℕ} {sc : InnerShake256Context} {hm hm' : List UInt16}
    (hhash : hashToPointVartime fuel sc logn = some hm)
    (hhash' : hashToPointVartime fuel' sc logn = some hm') : hm = hm' := by
  obtain ⟨words, hloop, rfl⟩ := Option.map_eq_some_iff.mp hhash
  obtain ⟨words', hloop', rfl⟩ := Option.map_eq_some_iff.mp hhash'
  have hmax := hashLoop_mono (Nat.le_max_left fuel fuel') hloop
  have hmax' := hashLoop_mono (Nat.le_max_right fuel fuel') hloop'
  rw [Option.some.inj (hmax.symm.trans hmax')]

/-- The two ways to hash give the same point, if the samples of the fixed number suffice. -/
theorem hashedPoint_spec {ct : Bool} (hlogn : logn ≤ 10) {sc : InnerShake256Context}
    (hsamples : ct = true → hashToPointVartime (2 ^ logn + overtab.getD logn 0) sc logn ≠ none)
    {hm : List UInt16} (hpoint : hashedPoint fuel ct sc logn slots = some hm) :
    ∃ fuel', hashToPointVartime fuel' sc logn = some hm := by
  cases ct with
  | false => exact ⟨fuel, hpoint⟩
  | true =>
      have heq := hashToPointVartime_eq_ct hlogn sc slots
      have hne := hsamples rfl
      rw [heq] at hne
      refine ⟨_, heq.trans ?_⟩
      split
      · exact hpoint
      · next hnot => exact absurd (if_neg hnot) hne

theorem PublicKeyOf.degree_unique {logn' : ℕ} {h h' : List UInt16}
    (hkey : PublicKeyOf pubkey logn h) (hkey' : PublicKeyOf pubkey logn' h') : logn = logn' := by
  obtain ⟨-, hlogn, -, bytes, -, hpubkey⟩ := hkey
  obtain ⟨-, hlogn', -, bytes', -, hpubkey'⟩ := hkey'
  have hheader := congrArg UInt8.toNat (List.cons.inj (hpubkey.symm.trans hpubkey')).1
  simp only [UInt8.toNat_ofNat'] at hheader
  omega

theorem PublicKeyOf.reduced {h : List UInt16} (hkey : PublicKeyOf pubkey logn h) :
    ReducedBelow16 (2 ^ logn) (ofCoeffs h) := by
  obtain ⟨-, -, hlength, bytes, hencode, -⟩ := hkey
  obtain ⟨hvalid, -⟩ := modqEncode_eq_some_iff.mp hencode
  intro j hj
  rw [ofCoeffs, List.getD_eq_getElem _ _ (by omega)]
  exact UInt16.lt_iff_toNat_lt.mp (hvalid _ (List.getElem_mem _))

theorem verifyRaw_ne_zero_iff (hbound : (bound logn).toNat < 2 ^ 31) {ct : Bool}
    {h hm : List UInt16} {s2 : List Int16} (hkey : PublicKeyOf pubkey logn h)
    (hs2 : s2.length = 2 ^ logn) {nonce : List UInt8}
    (hencodes : Encodes logn nonce s2 ct sigType sig)
    (hhm : ReducedBelow16 (2 ^ logn) (ofCoeffs hm)) (tmp : ℕ → UInt16) :
    ¬verifyRaw bound (ofCoeffs hm) (ofCoeffs s2) (toNttMonty logn (ofCoeffs h)) logn tmp = 0 ↔
      ∃ s1, NormVector (2 ^ logn) (fun j => residue16 (ofCoeffs h j))
          (fun j => residue16 (ofCoeffs hm j)) (fun j => (ofCoeffs s2 j : Int16).toInt) s1 ∧
        squaredNorm (2 ^ logn) s1 (fun j => (ofCoeffs s2 j : Int16).toInt) ≤
          (bound logn).toNat := by
  have hsmall := hencodes.small hkey.one_le hkey.le_10 hs2
  have hcases : ∀ s1 s2 : ℕ → Int16, isShort bound s1 s2 logn = 0 ↔
      ¬isShort bound s1 s2 logn = 1 := by
    intro s1 s2
    rw [isShort_eq hbound]
    split <;> simp
  rw [← verifyRaw_iff_of_small hbound hkey.le_10 hkey.reduced hhm
    (fun j hj => (hsmall j hj).trans_lt (by norm_num)) tmp]
  exact (not_congr (hcases _ _)).trans not_not

/-- `falcon_verify` returns if the hash does. It accepts an encoded signature if its
polynomial solves the norm equation for the encoded key and the point of the message, and
nothing else. The hash of the constant-time format has a fixed number of samples. -/
theorem falconVerify_iff (hbound : ∀ logn ≤ 10, (bound logn).toNat < 2 ^ 31) (fuel : ℕ)
    (sigType : ℤ) (pubkey data : List UInt8) (tmpLen : ℕ) (slots tmp : ℕ → UInt16)
    (hsamples : sig.headD 0 &&& 0xF0 = 0x50 →
      let logn := (sig.headD 0 &&& 0x0F).toNat
      hashToPointVartime (2 ^ logn + overtab.getD logn 0) (hashedInput (signatureNonce sig) data)
        logn ≠ none) :
    let result := falconVerify bound fuel sig sigType pubkey data tmpLen slots tmp
    (result = none ↔ ∃ logn h s2, PublicKeyOf pubkey logn h ∧ tmpsizeVerify logn ≤ tmpLen ∧
      41 ≤ sig.length ∧ s2.length = 2 ^ logn ∧
      Encodes logn (signatureNonce sig) s2 false sigType sig ∧
      hashToPointVartime fuel (hashedInput (signatureNonce sig) data) logn = none) ∧
    (result.isSome → (result = some (.ok ()) ↔ ∃ logn ct h s2 hm,
      PublicKeyOf pubkey logn h ∧ tmpsizeVerify logn ≤ tmpLen ∧ 41 ≤ sig.length ∧
      s2.length = 2 ^ logn ∧ Encodes logn (signatureNonce sig) s2 ct sigType sig ∧
      (∃ fuel', hashToPointVartime fuel' (hashedInput (signatureNonce sig) data) logn = some hm) ∧
      ∃ s1, NormVector (2 ^ logn) (fun j => residue16 (ofCoeffs h j))
          (fun j => residue16 (ofCoeffs hm j)) (fun j => (ofCoeffs s2 j : Int16).toInt) s1 ∧
        squaredNorm (2 ^ logn) s1 (fun j => (ofCoeffs s2 j : Int16).toInt) ≤
          (bound logn).toNat)) := by
  intro result
  have hresult : result = _ := falconVerify_eq bound fuel sig sigType pubkey data tmpLen slots tmp
  cases hread : readVerifyInputs sig sigType pubkey tmpLen with
  | error err =>
      have hnot : ∀ logn ct h s2, PublicKeyOf pubkey logn h → tmpsizeVerify logn ≤ tmpLen →
          41 ≤ sig.length → s2.length = 2 ^ logn →
          ¬Encodes logn (signatureNonce sig) s2 ct sigType sig := by
        intro logn ct h s2 hkey htmp hlong hs2 hencodes
        rw [readVerifyInputs_iff.mpr ⟨hkey, htmp, hlong, hs2, hencodes⟩] at hread
        cases hread
      rw [hread] at hresult
      rw [hresult]
      refine ⟨iff_of_false (fun h => by cases h) ?_, fun _ => iff_of_false (fun h => by cases h) ?_⟩
      · rintro ⟨logn, h, s2, hkey, htmp, hlong, hs2, hencodes, -⟩
        exact hnot logn false h s2 hkey htmp hlong hs2 hencodes
      · rintro ⟨logn, ct, h, s2, hm, hkey, htmp, hlong, hs2, hencodes, -⟩
        exact hnot logn ct h s2 hkey htmp hlong hs2 hencodes
  | ok inputs =>
      obtain ⟨logn, ct, h, s2⟩ := inputs
      obtain ⟨hkey, htmp, hlong, hs2, hencodes⟩ := readVerifyInputs_iff.mp hread
      have honly : ∀ logn' ct' h' s2', PublicKeyOf pubkey logn' h' → tmpsizeVerify logn' ≤ tmpLen →
          41 ≤ sig.length → s2'.length = 2 ^ logn' →
          Encodes logn' (signatureNonce sig) s2' ct' sigType sig →
          (logn', ct', h', s2') = (logn, ct, h, s2) := by
        intro logn' ct' h' s2' hkey' htmp' hlong' hs2' hencodes'
        have hread' := readVerifyInputs_iff.mpr ⟨hkey', htmp', hlong', hs2', hencodes'⟩
        exact Except.ok.inj (hread'.symm.trans hread)
      rw [hread] at hresult
      dsimp only at hresult
      obtain ⟨sc, hsc⟩ : ∃ sc, sc = hashedInput (signatureNonce sig) data := ⟨_, rfl⟩
      rw [← hsc] at hresult hsamples ⊢
      constructor
      · rw [hresult, Option.map_eq_none_iff]
        constructor
        · intro hnone
          cases ct with
          | false => exact ⟨logn, h, s2, hkey, htmp, hlong, hs2, hencodes, hnone⟩
          | true => cases hnone
        · rintro ⟨logn', h', s2', hkey', htmp', hlong', hs2', hencodes', hnone⟩
          cases honly _ _ _ _ hkey' htmp' hlong' hs2' hencodes'
          exact hnone
      · intro hsome
        rw [hresult, Option.isSome_map] at hsome
        obtain ⟨hm, hpoint⟩ := Option.isSome_iff_exists.mp hsome
        have hct : ct = true →
            hashToPointVartime (2 ^ logn + overtab.getD logn 0) sc logn ≠ none := by
          rintro rfl
          obtain ⟨⟨hhigh, hlow⟩, -⟩ := (encodes_true_iff hkey.le_10 hlong).mp hencodes
          have hsuffice := hsamples hhigh
          rwa [hlow] at hsuffice
        obtain ⟨fuel', hhash⟩ := hashedPoint_spec hkey.le_10 hct hpoint
        have haccept := verifyRaw_ne_zero_iff (hbound logn hkey.le_10) hkey hs2 hencodes
          (of_hashToPointVartime hhash).2 tmp
        rw [hresult, hpoint, Option.map_some, Option.some.injEq]
        constructor
        · intro hok
          split at hok
          · cases hok
          · next hnonzero =>
              exact ⟨logn, ct, h, s2, hm, hkey, htmp, hlong, hs2, hencodes, ⟨fuel', hhash⟩,
                haccept.mp hnonzero⟩
        · rintro ⟨logn', ct', h', s2', hm', hkey', htmp', hlong', hs2', hencodes',
            ⟨fuel'', hhash'⟩, hnorm⟩
          cases honly _ _ _ _ hkey' htmp' hlong' hs2' hencodes'
          obtain rfl := hashToPointVartime_unique hhash hhash'
          exact if_neg (haccept.mpr hnorm)

end Verifying

/-- The signature of the coefficients 1 and 0, with a nonce of sevens. -/
def oneSignature : List UInt8 := 0x31 :: List.replicate 40 7 ++ [0x01, 0x80, 0x40]

def oneSignatureCt : List UInt8 := 0x51 :: List.replicate 40 7 ++ [0x00, 0x40, 0x00]

/-- The hashed point of the nonce and the message of token 0, as a key. -/
def pointPublicKey : List UInt8 := [1, 20, 125, 251, 192]

theorem publicKeyOf_point : PublicKeyOf pointPublicKey 1 [1311, 8124] where
  one_le := le_rfl
  le_10 := by decide
  length_h := rfl
  encoded := ⟨[20, 125, 251, 192], by decide +kernel, rfl⟩

theorem encodes_one : Encodes 1 (signatureNonce oneSignature) [1, 0] false 1 oneSignature :=
  .compressed (.inr rfl) (compEncode_of_bits (k := 6) (by decide) (by decide) (by decide)
    (by decide))

theorem encodes_oneCt : Encodes 1 (signatureNonce oneSignature) [1, 0] true 3 oneSignatureCt :=
  .ct (.inr rfl) (by decide +kernel)

theorem hash_one :
    hashToPointVartime 2 (hashedInput (signatureNonce oneSignature) (fillMessage msgSize 0)) 1 =
      some [1311, 8124] := by
  decide +kernel

theorem solves_one :
    NormVector (2 ^ 1) (fun j => residue16 (ofCoeffs [1311, 8124] j))
        (fun j => residue16 (ofCoeffs [1311, 8124] j))
        (fun j => (ofCoeffs [1, 0] j : Int16).toInt) (fun _ => 0) ∧
      squaredNorm (2 ^ 1) (fun _ => 0) (fun j => (ofCoeffs [1, 0] j : Int16).toInt) ≤
        (l2bound 1).toNat :=
  ⟨normVector_one (by norm_num) _ (by decide), by decide⟩

/-- The hash of the message returns for the degree of the key. -/
theorem hash_returns_one {logn : ℕ} {h : List UInt16} (hkey : PublicKeyOf pointPublicKey logn h) :
    hashToPointVartime 2 (hashedInput (signatureNonce oneSignature) (fillMessage msgSize 0)) logn ≠
      none := by
  rw [hkey.degree_unique publicKeyOf_point, hash_one]
  exact Option.some_ne_none _

/-- The signature is accepted, in the compressed and in the constant-time format. -/
theorem falconVerify_iff_one :
    falconVerify l2bound 2 oneSignature 1 pointPublicKey (fillMessage msgSize 0) 17 (fun _ => 0)
        (fun _ => 0) = some (.ok ()) ∧
      falconVerify l2bound 2 oneSignatureCt 3 pointPublicKey (fillMessage msgSize 0) 17
        (fun _ => 0) (fun _ => 0) = some (.ok ()) := by
  have hbound : ∀ logn ≤ 10, (l2bound logn).toNat < 2 ^ 31 := fun logn hlogn =>
    (l2bound_lt hlogn).trans (by norm_num)
  constructor
  · obtain ⟨hnone, haccepts⟩ := @falconVerify_iff oneSignature l2bound hbound 2 1 pointPublicKey
      (fillMessage msgSize 0) 17 (fun _ => 0) (fun _ => 0) fun hct => absurd hct (by decide)
    refine (haccepts (Option.isSome_iff_ne_none.mpr fun h => ?_)).mpr
      ⟨1, false, _, _, _, publicKeyOf_point, by decide, by decide, rfl, encodes_one,
        ⟨2, hash_one⟩, _, solves_one⟩
    obtain ⟨logn, h, s2, hkey, -, -, -, -, hhash⟩ := hnone.mp h
    exact hash_returns_one hkey hhash
  · have hsamples : hashToPointVartime 67 (hashedInput (signatureNonce oneSignatureCt)
        (fillMessage msgSize 0)) 1 ≠ none := by decide +kernel
    obtain ⟨hnone, haccepts⟩ := @falconVerify_iff oneSignatureCt l2bound hbound 2 3 pointPublicKey
      (fillMessage msgSize 0) 17 (fun _ => 0) (fun _ => 0) fun _ => hsamples
    refine (haccepts (Option.isSome_iff_ne_none.mpr fun h => ?_)).mpr
      ⟨1, true, _, _, _, publicKeyOf_point, by decide, by decide, rfl, encodes_oneCt,
        ⟨2, hash_one⟩, _, solves_one⟩
    obtain ⟨logn, h, s2, hkey, -, -, -, -, hhash⟩ := hnone.mp h
    exact hash_returns_one hkey hhash

end Soko.FnDsa
