import Mathlib
import Soko.FnDsa.KeyPair
import Soko.FnDsa.Recover
import Soko.Signature.Format

/-!
The inputs of `falcon_verify_finish` of `submodules/FN-DSA/falcon.c`: it reads a public key that
is encoded, and a signature that is encoded in one of the three formats (`readVerifyInputs_iff`).
-/

namespace Soko.FnDsa

open Soko.Library Soko.Signature Soko.Gpu

def maxSigBits : List ℕ := [0, 10, 11, 11, 12, 12, 12, 12, 12, 12, 12]

/-- `FALCON_SIG_PADDED_SIZE`. -/
def sigPaddedSize (logn : ℕ) : ℕ :=
  44 + 3 * (256 >>> (10 - logn)) + 2 * (128 >>> (10 - logn)) + 3 * (64 >>> (10 - logn)) +
    2 * (16 >>> (10 - logn)) - 2 * (2 >>> (10 - logn)) - 8 * (1 >>> (10 - logn))

/-- `FALCON_SIG_CT_SIZE`. -/
def sigCtSize (logn : ℕ) : ℕ := (3 <<< (logn - 1)) - (if logn = 3 then 1 else 0) + 41

/-- `FALCON_TMPSIZE_VERIFY`. -/
def tmpsizeVerify (logn : ℕ) : ℕ := (8 <<< logn) + 1

/-- The tests of the type, for a signature with the first byte `es`. The result is `ct`. The
types are `FALCON_SIG_COMPRESSED`, `FALCON_SIG_PADDED` and `FALCON_SIG_CT`; 0 accepts them
all. -/
def signatureKind (sigType : ℤ) (es : UInt8) (sigLen logn : ℕ) : Except FalconErr Bool :=
  if sigType = 0 then
    if es &&& 0xF0 = 0x30 then .ok false
    else if es &&& 0xF0 = 0x50 then
      if sigLen ≠ sigCtSize logn then .error .format else .ok true
    else .error .badsig
  else if sigType = 1 then
    if es &&& 0xF0 ≠ 0x30 then .error .format else .ok false
  else if sigType = 2 then
    if es &&& 0xF0 ≠ 0x30 then .error .format
    else if sigLen ≠ sigPaddedSize logn then .error .format
    else .ok false
  else if sigType = 3 then
    if es &&& 0xF0 ≠ 0x50 then .error .format
    else if sigLen ≠ sigCtSize logn then .error .format
    else .ok true
  else .error .badarg

def decodeKey (logn : ℕ) (pk : List UInt8) : Except FalconErr (List UInt16) :=
  match modqDecode logn pk pk.length with
  | .error _ => .error .format
  | .ok (h, v) => if v ≠ pk.length then .error .format else .ok h

/-- The coefficients of a signature. Only the padded format may end with zeros. -/
def decodeSignature (sigType : ℤ) (logn : ℕ) (ct : Bool) (sig : List UInt8) :
    Except FalconErr (List Int16) :=
  let es := sig.drop 41
  match if ct then trimI16Decode logn (maxSigBits.getD logn 0) es es.length
    else compDecode logn es es.length with
  | .error _ => .error .format
  | .ok (sv, v) =>
      if v = 0 then .error .format
      else if 41 + v ≠ sig.length then
        if (sigType = 0 ∧ sig.length = sigPaddedSize logn) ∨ sigType = 2 then
          if (es.drop v).any fun byte => byte ≠ 0 then .error .format else .ok sv
        else .error .format
      else .ok sv

/-- `falcon_verify_finish` up to the hash: the degree, `ct`, the key and the coefficients. -/
def readVerifyInputs (sig : List UInt8) (sigType : ℤ) (pubkey : List UInt8) (tmpLen : ℕ) :
    Except FalconErr (ℕ × Bool × List UInt16 × List Int16) :=
  if sig.length < 41 ∨ pubkey.length = 0 then .error .format
  else if pubkey.headD 0 &&& 0xF0 ≠ 0x00 then .error .format
  else
    let logn := (pubkey.headD 0 &&& 0x0F).toNat
    if logn < 1 ∨ logn > 10 then .error .format
    else if (sig.headD 0 &&& 0x0F).toNat ≠ logn then .error .badsig
    else
      (signatureKind sigType (sig.headD 0) sig.length logn).bind fun ct =>
        if pubkey.length ≠ pubkeySize logn then .error .format
        else if tmpLen < tmpsizeVerify logn then .error .size
        else
          (decodeKey logn (pubkey.drop 1)).bind fun h =>
            (decodeSignature sigType logn ct sig).map fun sv => (logn, ct, h, sv)

structure PublicKeyOf (pubkey : List UInt8) (logn : ℕ) (h : List UInt16) : Prop where
  one_le : 1 ≤ logn
  le_10 : logn ≤ 10
  length_h : h.length = 2 ^ logn
  encoded : ∃ bytes, modqEncode (pubkeySize logn - 1) h = some bytes ∧
    pubkey = UInt8.ofNat logn :: bytes

def ctString (logn : ℕ) (nonce es : List UInt8) : List UInt8 :=
  UInt8.ofNat (0x50 + logn) :: nonce ++ es

/-- The encodings of a nonce and a polynomial that a type admits. -/
inductive Encodes (logn : ℕ) (nonce : List UInt8) (s2 : List Int16) :
    Bool → ℤ → List UInt8 → Prop
  | compressed {sigType : ℤ} {es : List UInt8} (htype : sigType = 0 ∨ sigType = 1)
      (hencode : compEncode es.length s2 = some es) :
      Encodes logn nonce s2 false sigType (signatureString logn nonce es)
  | padded {sigType : ℤ} {es : List UInt8} {k : ℕ} (htype : sigType = 0 ∨ sigType = 2)
      (hencode : compEncode es.length s2 = some es)
      (hsize : 41 + es.length + k = sigPaddedSize logn) :
      Encodes logn nonce s2 false sigType (signatureString logn nonce (es ++ List.replicate k 0))
  | ct {sigType : ℤ} {es : List UInt8} (htype : sigType = 0 ∨ sigType = 3)
      (hencode : trimI16Encode es.length s2 (maxSigBits.getD logn 0) = some es) :
      Encodes logn nonce s2 true sigType (ctString logn nonce es)

section Decoding

variable {logn : ℕ} {buf : List UInt8} {x : List Int16} {v : ℕ}

/-- The decoder of compressed signatures accepts just what the encoder stores, whatever
follows. -/
theorem decodeBytes_iff {maxInLen : ℕ} (hmax : maxInLen ≤ buf.length) :
    decodeBytes logn buf maxInLen = .ok (x, v) ↔
      x.length = 2 ^ logn ∧ v ≤ maxInLen ∧ compEncode v x = some (buf.take v) := by
  have hsplit : ∀ v ≤ maxInLen, bitsOfBytes (buf.take maxInLen) =
      bitsOfBytes (buf.take v) ++ bitsOfBytes ((buf.take maxInLen).drop v) := by
    intro v hv
    rw [← bitsOfBytes_append, show buf.take v = (buf.take maxInLen).take v by
      rw [List.take_take, Nat.min_eq_left hv], List.take_append_drop]
  have hcases := decodeBytes_cases hmax logn
  constructor
  · intro hdecode
    rcases hcases with ⟨-, hrejected⟩ | ⟨x', reader, hreader, hparse, hresult⟩
    · rw [hrejected] at hdecode
      cases hdecode
    · rw [hresult] at hdecode
      split at hdecode
      · next hzero =>
          obtain ⟨rfl, rfl⟩ : x' = x ∧ reader.v = v := by simpa using hdecode
          obtain ⟨hlength, hrange, hbits⟩ := eq_of_parsePoly hparse
          refine ⟨by rw [← hlength, length_values], hreader.v_le, ?_⟩
          rw [hsplit _ hreader.v_le, pending, hzero, ← List.append_assoc] at hbits
          exact compEncode_of_bits hrange hreader.accLen_lt (List.append_cancel_right hbits)
            (List.length_take_le _ _)
      · cases hdecode
  · rintro ⟨hlength, hv, hencode⟩
    obtain ⟨hrange, k, hk, hbits⟩ := compEncode_bits hencode
    have hpoly : parsePoly (2 ^ logn) (bitsOfBytes (buf.take maxInLen)) =
        some (values x, List.replicate k false ++ bitsOfBytes ((buf.take maxInLen).drop v)) := by
      rw [hsplit v hv, hbits, ← hlength, ← length_values, List.append_assoc]
      exact parsePoly_polyBits (values x) hrange _
    rcases hcases with ⟨hnone, -⟩ | ⟨x', reader, hreader, hparse, hresult⟩
    · rw [hpoly] at hnone
      cases hnone
    · rw [hpoly, Option.some.injEq, Prod.mk.injEq] at hparse
      obtain ⟨hx, hpending⟩ := hparse
      obtain rfl := values_injective hx
      have hcount := congrArg List.length hpending
      simp only [pending, List.length_append, List.length_replicate, length_bitsOf,
        length_bitsOfBytes, List.length_drop, List.length_take, Nat.min_eq_left hmax] at hcount
      have haccLen := hreader.accLen_lt
      have hend := hreader.v_le
      obtain ⟨hzero, -⟩ := List.append_inj hpending.symm
        (by rw [length_bitsOf, List.length_replicate]; omega)
      rw [hresult, hzero, show k = reader.accLen by omega, if_pos rfl,
        show reader.v = v by omega]

/-- A decoder that succeeds has used at least one byte. -/
theorem compEncode_ne_nil {maxOutLen : ℕ} {es : List UInt8} (hlength : x.length = 2 ^ logn)
    (hencode : compEncode maxOutLen x = some es) : es ≠ [] := by
  rintro rfl
  obtain ⟨-, k, -, hbits⟩ := compEncode_bits hencode
  have hpos : 0 < (polyBits (values x)).length :=
    length_polyBits_pos (by rw [length_values, hlength]; exact Nat.two_pow_pos logn)
  have hcount := congrArg List.length hbits
  rw [length_bitsOfBytes, List.length_append, List.length_nil] at hcount
  omega

theorem compDecode_iff (hv : v ≠ 0) :
    compDecode logn buf buf.length = .ok (x, v) ↔
      x.length = 2 ^ logn ∧ v ≤ buf.length ∧ compEncode v x = some (buf.take v) := by
  rw [← decodeBytes_iff le_rfl, compDecode]
  rcases decodeBytes logn buf buf.length with stop | ⟨x', v'⟩
  · cases stop with
    | rejected =>
        refine iff_of_false (fun h => ?_) fun h => by cases h
        cases h
        exact hv rfl
    | outOfBounds => rfl
  · rfl

theorem drop_eq_replicate : (∀ byte ∈ buf.drop v, byte = 0) ↔
    buf.drop v = List.replicate (buf.length - v) 0 := by
  rw [List.eq_replicate_iff, List.length_drop]
  simp

theorem decodeSignature_false_iff {sigType : ℤ} {sig : List UInt8} (hlong : 41 ≤ sig.length) :
    decodeSignature sigType logn false sig = .ok x ↔
      x.length = 2 ^ logn ∧ ∃ es k, compEncode es.length x = some es ∧
        sig.drop 41 = es ++ List.replicate k 0 ∧
        (k ≠ 0 → (sigType = 0 ∧ sig.length = sigPaddedSize logn) ∨ sigType = 2) := by
  obtain ⟨buf, hbuf⟩ : ∃ buf, buf = sig.drop 41 := ⟨_, rfl⟩
  have hlength : sig.length = 41 + buf.length := by
    rw [hbuf, List.length_drop]
    omega
  rw [decodeSignature, ← hbuf, if_neg Bool.false_ne_true]
  constructor
  · intro hdecode
    split at hdecode
    · cases hdecode
    · next sv v heq =>
        split at hdecode
        · cases hdecode
        · next hv =>
            obtain ⟨hx, hle, hencode⟩ := (compDecode_iff hv).mp heq
            have htake : (buf.take v).length = v := by
              rw [List.length_take]
              omega
            have hparts : ∀ k, buf.drop v = List.replicate k 0 →
                buf = buf.take v ++ List.replicate k 0 := fun k hk => by
              rw [← hk, List.take_append_drop]
            split at hdecode
            · split at hdecode
              · next htolerant =>
                  split at hdecode
                  · cases hdecode
                  · next hany =>
                      cases hdecode
                      have hzero : ∀ byte ∈ buf.drop v, byte = 0 := by simpa using hany
                      exact ⟨hx, buf.take v, _, by rw [htake]; exact hencode,
                        hparts _ (drop_eq_replicate.mp hzero), fun _ => htolerant⟩
              · cases hdecode
            · next hall =>
                cases hdecode
                refine ⟨hx, buf.take v, 0, by rw [htake]; exact hencode, hparts 0 ?_,
                  fun h => absurd rfl h⟩
                rw [List.drop_eq_nil_of_le (by omega), List.replicate_zero]
  · rintro ⟨hx, es, k, hencode, hes, htolerant⟩
    have hne := List.length_pos_iff.mpr (compEncode_ne_nil hx hencode)
    have htake : buf.take es.length = es := by rw [hes, List.take_left' rfl]
    have hdrop : buf.drop es.length = List.replicate k 0 := by rw [hes, List.drop_left' rfl]
    have hcount : buf.length = es.length + k := by
      rw [hes, List.length_append, List.length_replicate]
    have hdecode : compDecode logn buf buf.length = .ok (x, es.length) :=
      (compDecode_iff (by omega)).mpr ⟨hx, by omega, by rw [htake]; exact hencode⟩
    rw [hdecode]
    dsimp only
    rw [if_neg (by omega), hdrop]
    by_cases hk : k = 0
    · rw [if_neg (by omega)]
    · rw [if_pos (by omega), if_pos (htolerant hk), if_neg (by simp)]

theorem maxSigBits_bounds (hone : 1 ≤ logn) (hlogn : logn ≤ 10) :
    1 ≤ maxSigBits.getD logn 0 ∧ maxSigBits.getD logn 0 ≤ 16 ∧
      0 < fieldsLength (maxSigBits.getD logn 0) (2 ^ logn) ∧
      41 + fieldsLength (maxSigBits.getD logn 0) (2 ^ logn) = sigCtSize logn := by
  have hall : ∀ logn < 11, 1 ≤ logn → 1 ≤ maxSigBits.getD logn 0 ∧
      maxSigBits.getD logn 0 ≤ 16 ∧ 0 < fieldsLength (maxSigBits.getD logn 0) (2 ^ logn) ∧
      41 + fieldsLength (maxSigBits.getD logn 0) (2 ^ logn) = sigCtSize logn := by
    decide
  exact hall logn (by omega) hone

theorem decodeSignature_true_iff (hone : 1 ≤ logn) (hlogn : logn ≤ 10) {sigType : ℤ}
    {sig : List UInt8} (hlong : sig.length = sigCtSize logn) :
    decodeSignature sigType logn true sig = .ok x ↔
      x.length = 2 ^ logn ∧
        trimI16Encode (sig.drop 41).length x (maxSigBits.getD logn 0) = some (sig.drop 41) := by
  obtain ⟨hpos, hbits, hsize⟩ := maxSigBits_bounds hone hlogn
  obtain ⟨buf, hbuf⟩ : ∃ buf, buf = sig.drop 41 := ⟨_, rfl⟩
  have hlength : buf.length = fieldsLength (maxSigBits.getD logn 0) (2 ^ logn) := by
    rw [hbuf, List.length_drop]
    omega
  have hiff : ∀ v, trimI16Decode logn (maxSigBits.getD logn 0) buf buf.length = .ok (x, v) ↔
      x.length = 2 ^ logn ∧ v = fieldsLength (maxSigBits.getD logn 0) (2 ^ logn) ∧
        trimI16Encode buf.length x (maxSigBits.getD logn 0) = some (buf.take v) :=
    fun v => trimI16Decode_eq_ok_iff hpos hbits le_rfl
  rw [decodeSignature, ← hbuf, if_pos rfl]
  constructor
  · intro hdecode
    split at hdecode
    · cases hdecode
    · next sv v heq =>
        have hsv : sv = x := by
          split at hdecode
          · cases hdecode
          · split at hdecode
            · split at hdecode
              · split at hdecode
                · cases hdecode
                · exact Except.ok.inj hdecode
              · cases hdecode
            · exact Except.ok.inj hdecode
        subst hsv
        obtain ⟨hx, rfl, hencode⟩ := (hiff v).mp heq
        rw [← hlength, List.take_length] at hencode
        exact ⟨hx, hencode⟩
  · rintro ⟨hx, hencode⟩
    have hdecode : trimI16Decode logn (maxSigBits.getD logn 0) buf buf.length =
        .ok (x, buf.length) := by
      refine (hiff buf.length).mpr ⟨hx, hlength, ?_⟩
      rw [List.take_length]
      exact hencode
    rw [hdecode]
    dsimp only
    rw [if_neg (by omega), if_neg (by omega)]

theorem decodeKey_iff {pk : List UInt8} {h : List UInt16} :
    decodeKey logn pk = .ok h ↔ h.length = 2 ^ logn ∧ modqEncode pk.length h = some pk := by
  rw [decodeKey]
  constructor
  · intro hdecode
    split at hdecode
    · cases hdecode
    · next h' v heq =>
        split at hdecode
        · cases hdecode
        · next hall =>
            cases hdecode
            obtain ⟨hh, -, hencode⟩ := (modqDecode_eq_ok_iff logn le_rfl).mp heq
            rw [show v = pk.length by omega, List.take_length] at hencode
            exact ⟨hh, hencode⟩
  · rintro ⟨hh, hencode⟩
    have hlength := length_modqEncode hencode
    rw [hh] at hlength
    have hdecode : modqDecode logn pk pk.length = .ok (h, pk.length) :=
      (modqDecode_eq_ok_iff logn le_rfl).mpr ⟨hh, hlength, by rw [List.take_length]; exact hencode⟩
    rw [hdecode]
    exact if_neg (not_not.mpr rfl)

end Decoding

section Formats

variable {logn : ℕ} {sigType : ℤ} {sig pubkey : List UInt8} {s2 : List Int16}

theorem nibbles_iff {t : ℕ} (ht : t = 0x00 ∨ t = 0x30 ∨ t = 0x50) (hlogn : logn ≤ 10)
    (header : UInt8) :
    header &&& 0xF0 = UInt8.ofNat t ∧ (header &&& 0x0F).toNat = logn ↔
      header = UInt8.ofNat (t + logn) := by
  constructor
  · rintro ⟨hhigh, rfl⟩
    have hdisjoint : (header &&& 0xF0) &&& (header &&& 0x0F) = 0 := by
      rw [UInt8.and_assoc, UInt8.and_comm 0xF0, UInt8.and_assoc,
        show (0x0F : UInt8) &&& 0xF0 = 0 by decide, UInt8.and_zero, UInt8.and_zero]
    have hsum : (header &&& 0xF0) + (header &&& 0x0F) =
        (header &&& 0xF0) ||| (header &&& 0x0F) :=
      UInt8.toBitVec_inj.mp
        (BitVec.add_eq_or_of_and_eq_zero _ _ (congrArg UInt8.toBitVec hdisjoint))
    have hparts : (header &&& 0xF0) ||| (header &&& 0x0F) = header := by
      apply UInt8.toBitVec_inj.mp
      have hdistrib : header.toBitVec &&& (0xF0#8 ||| 0x0F#8) = _ := BitVec.and_or_distrib_left
      exact hdistrib.symm.trans BitVec.and_allOnes
    rw [UInt8.ofNat_add, ← hhigh, UInt8.ofNat_toNat, hsum, hparts]
  · rintro rfl
    rcases ht with rfl | rfl | rfl <;> interval_cases logn <;> decide

theorem signatureKind_iff {es : UInt8} {sigLen : ℕ} {ct : Bool} :
    signatureKind sigType es sigLen logn = .ok ct ↔
      if ct then es &&& 0xF0 = 0x50 ∧ sigLen = sigCtSize logn ∧ (sigType = 0 ∨ sigType = 3)
      else es &&& 0xF0 = 0x30 ∧
        (sigType = 0 ∨ sigType = 1 ∨ sigType = 2 ∧ sigLen = sigPaddedSize logn) := by
  have hne : (0x30 : UInt8) ≠ 0x50 := by decide
  unfold signatureKind
  cases ct <;> split_ifs <;> simp_all

theorem encodes_false_iff (hlogn : logn ≤ 10) (hlong : 41 ≤ sig.length) :
    Encodes logn (signatureNonce sig) s2 false sigType sig ↔
      headerMatches logn (sig.headD 0) ∧
        (sigType = 0 ∨ sigType = 1 ∨ sigType = 2 ∧ sig.length = sigPaddedSize logn) ∧
        ∃ es k, compEncode es.length s2 = some es ∧ sig.drop 41 = es ++ List.replicate k 0 ∧
          (k ≠ 0 → (sigType = 0 ∧ sig.length = sigPaddedSize logn) ∨ sigType = 2) := by
  have hnonce : (signatureNonce sig).length = 40 := by
    rw [signatureNonce, List.length_take, List.length_drop]
    omega
  have hstring : ∀ es, sig = signatureString logn (signatureNonce sig) es →
      headerMatches logn (sig.headD 0) ∧ sig.drop 41 = es ∧ sig.length = 41 + es.length := by
    intro es hsig
    refine ⟨?_, ?_, ?_⟩
    · rw [hsig]
      exact (headerMatches_iff hlogn _).mpr rfl
    · rw [hsig, drop_signatureString logn es hnonce]
    · rw [hsig, length_signatureString logn es hnonce]
  constructor
  · intro hencodes
    obtain ⟨nonce, hn⟩ : ∃ nonce, nonce = signatureNonce sig := ⟨_, rfl⟩
    rw [← hn] at hencodes hstring
    cases hencodes with
    | @compressed _ es htype hencode =>
        obtain ⟨hheader, hdrop, -⟩ := hstring es rfl
        exact ⟨hheader, by omega, es, 0, hencode, by rw [hdrop]; simp, fun h => absurd rfl h⟩
    | @padded _ es k htype hencode hsize =>
        obtain ⟨hheader, hdrop, hlength⟩ := hstring _ rfl
        rw [List.length_append, List.length_replicate] at hlength
        exact ⟨hheader, by omega, es, k, hencode, hdrop, fun _ => by omega⟩
  · rintro ⟨hheader, hkind, es, k, hencode, hdrop, htolerant⟩
    have hsig := signatureString_parts hlong ((headerMatches_iff hlogn _).mp hheader)
    rw [hdrop] at hsig
    have hlength := congrArg List.length hsig
    rw [length_signatureString logn _ hnonce, List.length_append, List.length_replicate] at hlength
    by_cases hcompressed : k = 0 ∧ sigType ≠ 2
    · obtain ⟨rfl, htwo⟩ := hcompressed
      rw [List.replicate_zero, List.append_nil] at hsig
      have hencodes : Encodes logn (signatureNonce sig) s2 false sigType _ :=
        .compressed (show sigType = 0 ∨ sigType = 1 by omega) hencode
      rwa [hsig] at hencodes
    · have hencodes : Encodes logn (signatureNonce sig) s2 false sigType _ :=
        .padded (show sigType = 0 ∨ sigType = 2 by omega) hencode
          (show 41 + es.length + k = sigPaddedSize logn by omega)
      rwa [hsig] at hencodes

theorem encodes_true_iff (hlogn : logn ≤ 10) (hlong : 41 ≤ sig.length) :
    Encodes logn (signatureNonce sig) s2 true sigType sig ↔
      (sig.headD 0 &&& 0xF0 = 0x50 ∧ (sig.headD 0 &&& 0x0F).toNat = logn) ∧
        (sigType = 0 ∨ sigType = 3) ∧
        trimI16Encode (sig.drop 41).length s2 (maxSigBits.getD logn 0) = some (sig.drop 41) := by
  have hnonce : (signatureNonce sig).length = 40 := by
    rw [signatureNonce, List.length_take, List.length_drop]
    omega
  have hheader : sig.headD 0 &&& 0xF0 = 0x50 ∧ (sig.headD 0 &&& 0x0F).toNat = logn ↔
      sig.headD 0 = UInt8.ofNat (0x50 + logn) := nibbles_iff (.inr (.inr rfl)) hlogn _
  rw [hheader]
  constructor
  · intro hencodes
    obtain ⟨nonce, hn⟩ : ∃ nonce, nonce = signatureNonce sig := ⟨_, rfl⟩
    rw [← hn] at hencodes hnonce
    cases hencodes with
    | @ct _ es htype hencode =>
        have hdrop : (ctString logn nonce es).drop 41 = es :=
          List.drop_left' (by rw [List.length_cons, hnonce])
        rw [hdrop]
        exact ⟨rfl, htype, hencode⟩
  · rintro ⟨hfirst, htype, hencode⟩
    obtain ⟨header, rest, rfl⟩ := List.exists_cons_of_length_pos (show 0 < sig.length by omega)
    rw [List.headD_cons] at hfirst
    have hsig : ctString logn (signatureNonce (header :: rest)) ((header :: rest).drop 41) =
        header :: rest := by
      rw [ctString, ← hfirst]
      exact congrArg (List.cons header) (List.take_append_drop 40 rest)
    have hencodes : Encodes logn (signatureNonce (header :: rest)) s2 true sigType _ :=
      .ct htype hencode
    rwa [hsig] at hencodes

theorem Encodes.small {ct : Bool} (hone : 1 ≤ logn) (hlogn : logn ≤ 10)
    (hs2 : s2.length = 2 ^ logn) {nonce : List UInt8}
    (hencodes : Encodes logn nonce s2 ct sigType sig) :
    ∀ j < 2 ^ logn, |((ofCoeffs s2 j : Int16)).toInt| ≤ 2047 := by
  have hmem : ∀ j < 2 ^ logn, (ofCoeffs s2 j : Int16) ∈ s2 := fun j hj => by
    rw [ofCoeffs, List.getD_eq_getElem _ _ (by omega)]
    exact List.getElem_mem _
  have hcompressed : ∀ es, compEncode es.length s2 = some es →
      ∀ j < 2 ^ logn, |((ofCoeffs s2 j : Int16)).toInt| ≤ 2047 := by
    intro es hencode j hj
    obtain ⟨hrange, -⟩ := compEncode_bits hencode
    obtain ⟨hlow, hhigh⟩ := hrange _ (List.mem_map_of_mem (hmem j hj))
    exact abs_le.mpr ⟨hlow, hhigh⟩
  cases hencodes with
  | compressed _ hencode => exact hcompressed _ hencode
  | padded _ hencode _ => exact hcompressed _ hencode
  | ct _ hencode =>
      obtain ⟨i, hi, hle⟩ : ∃ i, maxSigBits.getD logn 0 = i + 1 ∧ i ≤ 11 := by
        have hall : ∀ logn < 11, 1 ≤ logn →
            maxSigBits.getD logn 0 = maxSigBits.getD logn 0 - 1 + 1 ∧
              maxSigBits.getD logn 0 - 1 ≤ 11 := by decide
        exact ⟨_, hall logn (by omega) hone⟩
      rw [hi] at hencode
      obtain ⟨hsmall, -⟩ := trimEncode_eq_some_iff.mp hencode
      intro j hj
      have hpow : 2 ^ i ≤ 2 ^ 11 := Nat.pow_le_pow_right (by decide) hle
      have hlt := hsmall _ (hmem j hj)
      omega

theorem publicKeyOf_iff {h : List UInt16} (hone : 1 ≤ logn) (hlogn : logn ≤ 10) :
    PublicKeyOf pubkey logn h ↔ pubkey.length ≠ 0 ∧
      (pubkey.headD 0 &&& 0xF0 = 0x00 ∧ (pubkey.headD 0 &&& 0x0F).toNat = logn) ∧
      pubkey.length = pubkeySize logn ∧ decodeKey logn (pubkey.drop 1) = .ok h := by
  have hsize := (sizes_eq hone hlogn).2
  have hheader : pubkey.headD 0 &&& 0xF0 = 0x00 ∧ (pubkey.headD 0 &&& 0x0F).toNat = logn ↔
      pubkey.headD 0 = UInt8.ofNat (0x00 + logn) := nibbles_iff (.inl rfl) hlogn _
  rw [hheader, Nat.zero_add, decodeKey_iff]
  constructor
  · rintro ⟨-, -, hh, bytes, hencode, rfl⟩
    have hlength := length_modqEncode hencode
    rw [hh] at hlength
    simp only [List.length_cons, List.headD_cons, List.drop_succ_cons, List.drop_zero]
    exact ⟨by omega, trivial, by omega, hh,
      by rwa [show bytes.length = pubkeySize logn - 1 by omega]⟩
  · rintro ⟨hpos, hfirst, hlength, hh, hencode⟩
    obtain ⟨header, rest, rfl⟩ := List.exists_cons_of_length_pos (show 0 < pubkey.length by omega)
    simp only [List.length_cons, List.headD_cons, List.drop_succ_cons, List.drop_zero] at *
    refine ⟨hone, hlogn, hh, rest, ?_, by rw [hfirst]⟩
    rwa [show pubkeySize logn - 1 = rest.length by omega]

theorem encodes_iff {ct : Bool} (hone : 1 ≤ logn) (hlogn : logn ≤ 10) (hlong : 41 ≤ sig.length) :
    s2.length = 2 ^ logn ∧ Encodes logn (signatureNonce sig) s2 ct sigType sig ↔
      (sig.headD 0 &&& 0x0F).toNat = logn ∧
        signatureKind sigType (sig.headD 0) sig.length logn = .ok ct ∧
        decodeSignature sigType logn ct sig = .ok s2 := by
  rw [signatureKind_iff]
  cases ct with
  | false =>
      rw [decodeSignature_false_iff hlong, encodes_false_iff hlogn hlong, headerMatches,
        if_neg Bool.false_ne_true]
      constructor
      · rintro ⟨hs2, ⟨hhigh, hlow⟩, hkind, hbytes⟩
        exact ⟨hlow, ⟨hhigh, hkind⟩, hs2, hbytes⟩
      · rintro ⟨hlow, ⟨hhigh, hkind⟩, hs2, hbytes⟩
        exact ⟨hs2, ⟨hhigh, hlow⟩, hkind, hbytes⟩
  | true =>
      rw [encodes_true_iff hlogn hlong, if_pos rfl]
      constructor
      · rintro ⟨hs2, ⟨hhigh, hlow⟩, htype, hencode⟩
        have hlength := length_trimEncode smallInts_int16 (maxSigBits_bounds hone hlogn).1
          (maxSigBits_bounds hone hlogn).2.1 hencode
        rw [hs2, List.length_drop] at hlength
        have hsize : sig.length = sigCtSize logn := by
          have := (maxSigBits_bounds hone hlogn).2.2.2
          omega
        exact ⟨hlow, ⟨hhigh, hsize, htype⟩,
          (decodeSignature_true_iff hone hlogn hsize).mpr ⟨hs2, hencode⟩⟩
      · rintro ⟨hlow, ⟨hhigh, hsize, htype⟩, hdecode⟩
        obtain ⟨hs2, hencode⟩ := (decodeSignature_true_iff hone hlogn hsize).mp hdecode
        exact ⟨hs2, ⟨hhigh, hlow⟩, htype, hencode⟩

/-- What `falcon_verify` reads: an encoded key and an encoded signature. -/
theorem readVerifyInputs_iff {tmpLen : ℕ} {ct : Bool} {h : List UInt16} :
    readVerifyInputs sig sigType pubkey tmpLen = .ok (logn, ct, h, s2) ↔
      PublicKeyOf pubkey logn h ∧ tmpsizeVerify logn ≤ tmpLen ∧ 41 ≤ sig.length ∧
        s2.length = 2 ^ logn ∧ Encodes logn (signatureNonce sig) s2 ct sigType sig := by
  rw [readVerifyInputs]
  constructor
  · intro hread
    split at hread
    · cases hread
    next hsizes =>
    split at hread
    · cases hread
    next hkind =>
    dsimp only at hread
    obtain ⟨logn', hdegree⟩ : ∃ logn', (pubkey.headD 0 &&& 0x0F).toNat = logn' := ⟨_, rfl⟩
    rw [hdegree] at hread
    split at hread
    · cases hread
    next hrange =>
    split at hread
    · cases hread
    next hsame =>
    cases hct : signatureKind sigType (sig.headD 0) sig.length logn' with
    | error err =>
        rw [hct] at hread
        cases hread
    | ok ct' =>
        replace hread : (if pubkey.length ≠ pubkeySize logn' then Except.error FalconErr.format
            else if tmpLen < tmpsizeVerify logn' then .error .size
            else (decodeKey logn' (pubkey.drop 1)).bind fun h =>
              (decodeSignature sigType logn' ct' sig).map fun sv => (logn', ct', h, sv)) =
            .ok (logn, ct, h, s2) := by rwa [hct] at hread
        split at hread
        · cases hread
        next hlength =>
        split at hread
        · cases hread
        next htmp =>
        cases hkey : decodeKey logn' (pubkey.drop 1) with
        | error err =>
            rw [hkey] at hread
            cases hread
        | ok h' =>
            rw [hkey] at hread
            cases hsv : decodeSignature sigType logn' ct' sig with
            | error err =>
                rw [hsv] at hread
                cases hread
            | ok sv =>
                rw [hsv] at hread
                cases hread
                refine ⟨(publicKeyOf_iff (by omega) (by omega)).mpr
                  ⟨by omega, ⟨not_not.mp hkind, hdegree⟩, not_not.mp hlength, hkey⟩, by omega,
                  by omega, ?_⟩
                exact (encodes_iff (by omega) (by omega) (by omega)).mpr
                  ⟨not_not.mp hsame, hct, hsv⟩
  · rintro ⟨hkey, htmp, hlong, hencodes⟩
    have hone := hkey.one_le
    have hlogn := hkey.le_10
    obtain ⟨hpos, ⟨hkind, hdegree⟩, hlength, hdecode⟩ := (publicKeyOf_iff hone hlogn).mp hkey
    obtain ⟨hsame, hct, hsv⟩ := (encodes_iff hone hlogn hlong).mp hencodes
    rw [if_neg (by omega), if_neg (not_not.mpr hkind)]
    dsimp only
    rw [hdegree, if_neg (by omega), if_neg (not_not.mpr hsame), hct]
    show (if pubkey.length ≠ pubkeySize logn then Except.error FalconErr.format
        else if tmpLen < tmpsizeVerify logn then .error .size
        else (decodeKey logn (pubkey.drop 1)).bind fun h =>
          (decodeSignature sigType logn ct sig).map fun sv => (logn, ct, h, sv)) = _
    rw [if_neg (not_not.mpr hlength), if_neg (by omega), hdecode, hsv]
    rfl

end Formats

section Uniqueness

variable {logn tmpLen : ℕ} {sigType : ℤ} {sig pubkey : List UInt8}

theorem compEncode_unique {x : List Int16} {es es' : List UInt8} {m m' : ℕ}
    (hencode : compEncode m x = some es) (hencode' : compEncode m' x = some es') : es = es' := by
  obtain ⟨-, k, hk, hbits⟩ := compEncode_bits hencode
  obtain ⟨-, k', hk', hbits'⟩ := compEncode_bits hencode'
  have hcount := congrArg List.length hbits
  have hcount' := congrArg List.length hbits'
  rw [length_bitsOfBytes, List.length_append, List.length_replicate] at hcount hcount'
  apply bitsOfBytes_injective
  rw [hbits, hbits', show k = k' by omega]

theorem trimI16Encode_unique {x : List Int16} {es es' : List UInt8} {m m' bits : ℕ}
    (hencode : trimI16Encode m x bits = some es) (hencode' : trimI16Encode m' x bits = some es') :
    es = es' := by
  simp only [trimI16Encode, trimEncode] at hencode hencode'
  split at hencode
  · cases hencode
  · next hany =>
      rw [if_neg hany] at hencode'
      split at hencode
      · cases hencode
      · split at hencode'
        · cases hencode'
        · exact Option.some.inj (hencode.symm.trans hencode')

/-- No type admits two encodings, except for the type 0. -/
theorem Encodes.unique {s2 : List Int16} {nonce sig' : List UInt8} {ct ct' : Bool}
    (htype : sigType ≠ 0) (hencodes : Encodes logn nonce s2 ct sigType sig)
    (hencodes' : Encodes logn nonce s2 ct' sigType sig') : sig = sig' := by
  cases hencodes with
  | compressed hone hencode =>
      cases hencodes' with
      | compressed _ hencode' => rw [compEncode_unique hencode hencode']
      | padded htwo _ _ => omega
      | ct hthree _ => omega
  | @padded _ es k htwo hencode hsize =>
      cases hencodes' with
      | compressed hone _ => omega
      | @padded _ es' k' _ hencode' hsize' =>
          obtain rfl := compEncode_unique hencode hencode'
          rw [show k = k' by omega]
      | ct hthree _ => omega
  | ct hthree hencode =>
      cases hencodes' with
      | compressed hone _ => omega
      | padded htwo _ _ => omega
      | ct _ hencode' => rw [trimI16Encode_unique hencode hencode']

/-- `falcon_verify` does not decode two byte strings to the same key, and with a type other
than 0 no two byte strings to the same nonce and polynomial. -/
theorem readVerifyInputs_unique {sig' pubkey' : List UInt8} {tmpLen' : ℕ} {ct ct' : Bool}
    {h : List UInt16} {s2 : List Int16} (htype : sigType ≠ 0)
    (hread : readVerifyInputs sig sigType pubkey tmpLen = .ok (logn, ct, h, s2))
    (hread' : readVerifyInputs sig' sigType pubkey' tmpLen' = .ok (logn, ct', h, s2))
    (hnonce : signatureNonce sig = signatureNonce sig') : sig = sig' ∧ pubkey = pubkey' := by
  obtain ⟨⟨-, -, -, bytes, hkey, hpubkey⟩, -, -, -, hencodes⟩ := readVerifyInputs_iff.mp hread
  obtain ⟨⟨-, -, -, bytes', hkey', hpubkey'⟩, -, -, -, hencodes'⟩ := readVerifyInputs_iff.mp hread'
  rw [← hnonce] at hencodes'
  refine ⟨hencodes.unique htype hencodes', ?_⟩
  rw [hpubkey, hpubkey', Option.some.inj (hkey.symm.trans hkey')]


end Uniqueness

def samplePublicKey : List UInt8 := [1, 0, 12, 0, 48]

/-- The signature of the coefficients 0 and -1, with a nonce of sevens. -/
def sampleSignature : List UInt8 := 0x31 :: List.replicate 40 7 ++ [0x00, 0xC0, 0xC0]

theorem publicKeyOf_sample : PublicKeyOf samplePublicKey 1 [3, 3] where
  one_le := le_rfl
  le_10 := by decide
  length_h := rfl
  encoded := ⟨[0, 12, 0, 48], by decide +kernel, rfl⟩

theorem encodes_sample : Encodes 1 (signatureNonce sampleSignature) [0, -1] false 1
    sampleSignature :=
  .compressed (.inr rfl) (compEncode_of_bits (k := 6) (by decide) (by decide) (by decide)
    (by decide))

theorem readVerifyInputs_sample :
    readVerifyInputs sampleSignature 1 samplePublicKey 17 = .ok (1, false, [3, 3], [0, -1]) :=
  readVerifyInputs_iff.mpr ⟨publicKeyOf_sample, by decide, by decide, rfl, encodes_sample⟩

/-- A set bit in the padding is not tolerated. -/
theorem readVerifyInputs_unique_sample :
    readVerifyInputs (0x31 :: List.replicate 40 7 ++ [0x00, 0xC0, 0xC1]) 1 samplePublicKey 17 ≠
      .ok (1, false, [3, 3], [0, -1]) := by
  intro hread
  have hsame := (readVerifyInputs_unique (by decide) readVerifyInputs_sample hread rfl).1
  exact absurd hsame (by decide)

end Soko.FnDsa
