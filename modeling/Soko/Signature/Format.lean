import Mathlib.Tactic.IntervalCases
import Soko.Signature.Decode

/-!
A signature: the header byte, the nonce of 40 bytes, and the compressed
coefficients. What the signer emits and what the parser of the device accepts are
the same byte strings, one for each nonce and polynomial.
-/

namespace Soko.Signature

open Soko.Library

/-- The end of `sign_token_to_signature`, with the coefficients that the signer has
computed; `none` where it returns 0. The length of the buffer is a `size_t`, and
`sig_buf_len - 41` wraps. -/
def signTokenToSignature (logn : ℕ) (nonce : Vector UInt8 40) (sv : List Int16)
    (sigBufLen : UInt64) : Option (List UInt8) :=
  (compEncode (sigBufLen - 41).toNat sv).bind fun es =>
    if es.length = 0 then none else some (UInt8.ofNat (0x30 + logn) :: nonce.toList ++ es)

def headerMatches (logn : ℕ) (header : UInt8) : Prop :=
  header &&& 0xF0 = 0x30 ∧ (header &&& 0x0F).toNat = logn

instance (logn : ℕ) (header : UInt8) : Decidable (headerMatches logn header) :=
  inferInstanceAs (Decidable (_ ∧ _))

/-- What thread 0 of `kernel_verify_compressed_bench_batch` does with a signature
before it hashes: the coefficients, or a stop. -/
def parseSignature (logn : ℕ) (sig : List UInt8) : Except DecodeStop (List Int16) :=
  if sig.length < 41 ∨ ¬ headerMatches logn (sig.headD 0) then .error .rejected
  else (compDecodeDevice logn (sig.drop 41) (sig.length - 41)).bind fun (s2, usedLen) =>
    if 41 + usedLen ≠ sig.length then .error .rejected else .ok s2

def signatureNonce (sig : List UInt8) : List UInt8 := (sig.drop 1).take 40

theorem headerMatches_iff {logn : ℕ} (hlogn : logn ≤ 10) (header : UInt8) :
    headerMatches logn header ↔ header = UInt8.ofNat (0x30 + logn) := by
  constructor
  · rintro ⟨hhigh, hlow⟩
    have hall : ∀ b < 256, UInt8.ofNat b &&& 0xF0 = 0x30 →
        UInt8.ofNat b = UInt8.ofNat (0x30 + (UInt8.ofNat b &&& 0x0F).toNat) := by
      decide +kernel
    have hheader := hall header.toNat header.toNat_lt
    rw [UInt8.ofNat_toNat, hlow] at hheader
    exact hheader hhigh
  · rintro rfl
    interval_cases logn <;> decide

def signatureString (logn : ℕ) (nonce es : List UInt8) : List UInt8 :=
  UInt8.ofNat (0x30 + logn) :: nonce ++ es

section
variable (logn : ℕ) {nonce : List UInt8} (es : List UInt8)

@[simp] theorem length_signatureString (hnonce : nonce.length = 40) :
    (signatureString logn nonce es).length = 41 + es.length := by
  rw [signatureString, List.length_append, List.length_cons, hnonce]

theorem drop_signatureString (hnonce : nonce.length = 40) :
    (signatureString logn nonce es).drop 41 = es :=
  List.drop_left' (by rw [List.length_cons, hnonce])

theorem nonce_signatureString (hnonce : nonce.length = 40) :
    signatureNonce (signatureString logn nonce es) = nonce :=
  List.take_left' hnonce

end

theorem signatureString_parts {logn : ℕ} {sig : List UInt8} (hlength : 41 ≤ sig.length)
    (hheader : sig.headD 0 = UInt8.ofNat (0x30 + logn)) :
    signatureString logn (signatureNonce sig) (sig.drop 41) = sig := by
  obtain ⟨header, rest, rfl⟩ := List.exists_cons_of_length_pos (show 0 < sig.length by omega)
  rw [List.headD_cons] at hheader
  rw [signatureString, ← hheader]
  exact congrArg (List.cons header) (List.take_append_drop 40 rest)

theorem length_polyBits_pos {xs : List ℤ} (hxs : 0 < xs.length) : 0 < (polyBits xs).length := by
  obtain ⟨x, rest, rfl⟩ := List.exists_cons_of_length_pos hxs
  have hnine := nine_le_length_coeffBits x
  rw [polyBits, List.flatMap_cons, List.length_append]
  omega

theorem parseSignature_eq_ok_iff {logn : ℕ} (hlogn : logn ≤ 10) {sig : List UInt8}
    {s2 : List Int16} :
    parseSignature logn sig = .ok s2 ↔
      ∃ nonce es : List UInt8, nonce.length = 40 ∧ sig = signatureString logn nonce es ∧
        s2.length = 2 ^ logn ∧ (∀ t ∈ values s2, InRange t) ∧
        ∃ k < 8, bitsOfBytes es = polyBits (values s2) ++ List.replicate k false := by
  rw [parseSignature]
  constructor
  · intro hparse
    split at hparse
    · contradiction
    rename_i htests
    obtain ⟨hlength, hheader⟩ := not_or.mp htests
    rw [not_not, headerMatches_iff hlogn] at hheader
    have hlen : (sig.drop 41).length = sig.length - 41 := List.length_drop
    rw [← hlen] at hparse
    refine ⟨signatureNonce sig, sig.drop 41, ?_, ?_, ?_⟩
    · rw [signatureNonce, List.length_take, List.length_drop]
      omega
    · exact (signatureString_parts (by omega) hheader).symm
    · apply decodeBytes_eq_ok_iff.mp
      rcases hdecode : compDecodeDevice logn (sig.drop 41) (sig.drop 41).length with
        stop | ⟨x, usedLen⟩
      · rw [hdecode] at hparse
        contradiction
      · rw [hdecode] at hparse
        replace hparse : (if 41 + usedLen ≠ sig.length then .error .rejected else .ok x) =
          (Except.ok s2 : Except DecodeStop (List Int16)) := hparse
        split at hparse
        · contradiction
        · obtain rfl : x = s2 := by simpa using hparse
          rw [show (sig.drop 41).length = usedLen by omega] at hdecode ⊢
          exact hdecode
  · rintro ⟨nonce, es, hnonce, rfl, hbits⟩
    have hdecode := decodeBytes_eq_ok_iff.mpr hbits
    have hlength := length_signatureString logn es hnonce
    rw [if_neg, drop_signatureString logn es hnonce, hlength, Nat.add_sub_cancel_left]
    · have hdevice : compDecodeDevice logn es es.length = .ok (s2, es.length) := hdecode
      rw [hdevice]
      exact if_neg (not_not.mpr rfl)
    · rw [hlength, not_or, not_not]
      exact ⟨by omega, (headerMatches_iff hlogn _).mpr rfl⟩

/-- The strings that the signer emits into a buffer with enough room. -/
theorem signTokenToSignature_of_bits {logn k : ℕ} {nonce : Vector UInt8 40} {sv : List Int16}
    {es : List UInt8} {sigBufLen : UInt64} (hlength : sv.length = 2 ^ logn)
    (hrange : ∀ t ∈ values sv, InRange t) (hk : k < 8)
    (hbits : bitsOfBytes es = polyBits (values sv) ++ List.replicate k false)
    (hroom : (signatureString logn nonce.toList es).length ≤ sigBufLen.toNat) :
    signTokenToSignature logn nonce sv sigBufLen =
      some (signatureString logn nonce.toList es) := by
  rw [length_signatureString logn es nonce.length_toList] at hroom
  have hmax : (sigBufLen - 41).toNat = sigBufLen.toNat - 41 :=
    UInt64.toNat_sub_of_le _ _ (UInt64.le_iff_toNat_le.mpr (show 41 ≤ sigBufLen.toNat by omega))
  have hpos : 0 < (polyBits (values sv)).length :=
    length_polyBits_pos (by rw [length_values, hlength]; exact Nat.two_pow_pos logn)
  have hes : es.length ≠ 0 := by
    have hcount := congrArg List.length hbits
    rw [length_bitsOfBytes, List.length_append] at hcount
    omega
  rw [signTokenToSignature, compEncode_of_bits hrange hk hbits (by omega), Option.bind_some,
    if_neg hes]
  rfl

/-- The signature format: the parser recovers what the signer emits, the signer emits
every string that the parser accepts, and no two accepted strings carry the same nonce
and coefficients. The decoder stays within its input. -/
theorem signature_format {logn : ℕ} (hlogn : logn ≤ 10) :
    (∀ (nonce : Vector UInt8 40) (sv : List Int16) (sigBufLen : UInt64) (sig : List UInt8),
      sv.length = 2 ^ logn → signTokenToSignature logn nonce sv sigBufLen = some sig →
        parseSignature logn sig = .ok sv ∧ signatureNonce sig = nonce.toList) ∧
    (∀ (sig : List UInt8) (s2 : List Int16), parseSignature logn sig = .ok s2 →
      s2.length = 2 ^ logn ∧ ∃ nonce : Vector UInt8 40, signatureNonce sig = nonce.toList ∧
        ∀ sigBufLen : UInt64, sig.length ≤ sigBufLen.toNat →
          signTokenToSignature logn nonce s2 sigBufLen = some sig) ∧
    (∀ (sig sig' : List UInt8) (s2 : List Int16), parseSignature logn sig = .ok s2 →
      parseSignature logn sig' = .ok s2 → signatureNonce sig = signatureNonce sig' → sig = sig') ∧
    (∀ (buf : List UInt8) (maxInLen : ℕ), maxInLen ≤ buf.length →
      compDecodeDevice logn buf maxInLen ≠ .error .outOfBounds) := by
  refine ⟨?_, ?_, ?_, ?_⟩
  · intro nonce sv sigBufLen sig hlength hsign
    rw [signTokenToSignature, Option.bind_eq_some_iff] at hsign
    obtain ⟨es, hencode, hsign⟩ := hsign
    split at hsign
    · contradiction
    obtain rfl : signatureString logn nonce.toList es = sig := Option.some.inj hsign
    obtain ⟨hrange, hbits⟩ := compEncode_bits hencode
    exact ⟨(parseSignature_eq_ok_iff hlogn).mpr
        ⟨nonce.toList, es, nonce.length_toList, rfl, hlength, hrange, hbits⟩,
      nonce_signatureString logn es nonce.length_toList⟩
  · intro sig s2 hparse
    obtain ⟨nonce, es, hnonce, rfl, hlength, hrange, k, hk, hbits⟩ :=
      (parseSignature_eq_ok_iff hlogn).mp hparse
    refine ⟨hlength, ⟨nonce.toArray, by simpa using hnonce⟩, ?_, fun sigBufLen hroom => ?_⟩
    · exact nonce_signatureString logn es hnonce
    · exact signTokenToSignature_of_bits hlength hrange hk hbits hroom
  · intro sig sig' s2 hparse hparse' hsame
    obtain ⟨nonce, es, hnonce, rfl, _, _, k, hk, hbits⟩ :=
      (parseSignature_eq_ok_iff hlogn).mp hparse
    obtain ⟨nonce', es', hnonce', rfl, _, _, k', hk', hbits'⟩ :=
      (parseSignature_eq_ok_iff hlogn).mp hparse'
    rw [nonce_signatureString logn es hnonce, nonce_signatureString logn es' hnonce'] at hsame
    subst hsame
    -- the padding has the same length, because both strings are whole bytes
    have hcount := congrArg List.length hbits
    have hcount' := congrArg List.length hbits'
    rw [length_bitsOfBytes, List.length_append, List.length_replicate] at hcount hcount'
    have hkk : k = k' := by omega
    rw [← hkk] at hbits'
    rw [bitsOfBytes_injective (hbits.trans hbits'.symm)]
  · intro buf maxInLen hmax
    exact decodeBytes_ne_outOfBounds hmax logn

/-- The signature of the coefficients 0 and -1, with a nonce of sevens. -/
theorem signature_format_zero_neg_one :
    parseSignature 1 (0x31 :: List.replicate 40 7 ++ [0x00, 0xC0, 0xC0]) = .ok [0, -1] ∧
      signTokenToSignature 1 (Vector.replicate 40 7) [0, -1] 44 =
        some (0x31 :: List.replicate 40 7 ++ [0x00, 0xC0, 0xC0]) := by
  have hsign : signTokenToSignature 1 (Vector.replicate 40 7) [0, -1] 44 =
      some (0x31 :: List.replicate 40 7 ++ [0x00, 0xC0, 0xC0]) :=
    signTokenToSignature_of_bits (k := 6) rfl (by decide) (by decide) (by decide) (by decide)
  exact ⟨((signature_format (show 1 ≤ 10 by decide)).1 _ _ _ _ rfl hsign).1, hsign⟩

end Soko.Signature
