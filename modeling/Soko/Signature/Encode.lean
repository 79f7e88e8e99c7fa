import Soko.Signature.CoeffBits

/-!
The encoder, with its 32-bit accumulator. The high bits of the accumulator are
stale; the `accLen` low ones are those not stored yet.
-/

namespace Soko.Signature

open Soko.Library

/-- The variables of `comp_encode`; `out` holds the `v` bytes stored so far. -/
structure BitWriter where
  acc : UInt32
  accLen : ℕ
  out : List UInt8

/-- The sign, the low seven bits and the unary part, pushed into the accumulator. -/
def pushCoeff (writer : BitWriter) (x : Int16) : BitWriter :=
  let acc := writer.acc <<< 1
  let t := x.toInt
  let acc := if t < 0 then acc ||| 1 else acc
  let w := UInt32.ofNat t.natAbs
  let acc := (acc <<< 7) ||| (w &&& 127)
  let w := w >>> 7
  { writer with acc := (acc <<< (w + 1)) ||| 1, accLen := writer.accLen + 8 + (w.toNat + 1) }

def flushBytes (maxOutLen : ℕ) (writer : BitWriter) : Option BitWriter :=
  if 8 ≤ writer.accLen then
    let accLen := writer.accLen - 8
    if writer.out.length ≥ maxOutLen then none
    else
      let byte := (writer.acc >>> UInt32.ofNat accLen).toUInt8
      flushBytes maxOutLen { writer with accLen, out := writer.out ++ [byte] }
  else some writer
  termination_by writer.accLen

def encodeCoeffs (maxOutLen : ℕ) : List Int16 → BitWriter → Option BitWriter
  | [], writer => some writer
  | x :: xs, writer => (flushBytes maxOutLen (pushCoeff writer x)).bind (encodeCoeffs maxOutLen xs)

/-- The last byte, if bits remain. -/
def flushRemaining (maxOutLen : ℕ) (writer : BitWriter) : Option (List UInt8) :=
  if writer.accLen > 0 then
    if writer.out.length ≥ maxOutLen then none
    else some (writer.out ++ [(writer.acc <<< UInt32.ofNat (8 - writer.accLen)).toUInt8])
  else some writer.out

/-- `comp_encode` into a buffer of `maxOutLen` bytes; `none` where it returns 0 early. -/
def compEncode (maxOutLen : ℕ) (x : List Int16) : Option (List UInt8) :=
  if x.any fun xu => xu.toInt < -2047 || xu.toInt > 2047 then none
  else (encodeCoeffs maxOutLen x { acc := 0, accLen := 0, out := [] }).bind
    (flushRemaining maxOutLen)

def values (x : List Int16) : List ℤ := x.map Int16.toInt

@[simp] theorem length_values (x : List Int16) : (values x).length = x.length := List.length_map _

/-- The bits that a writer has taken, stored or pending. -/
def written (writer : BitWriter) : List Bool :=
  bitsOfBytes writer.out ++ bitsOf writer.accLen writer.acc.toNat

@[simp] theorem length_written (writer : BitWriter) :
    (written writer).length = 8 * writer.out.length + writer.accLen := by
  rw [written, List.length_append, length_bitsOfBytes, length_bitsOf]

/-! One coefficient. -/

/-- The sign bit, or nothing: in both cases one bit is pushed. -/
theorem bitsOf_pushSign (acc : UInt32) (x : ℤ) {k : ℕ} (hk : k < 8) :
    bitsOf (k + 1) (if x < 0 then (acc <<< 1) ||| 1 else acc <<< 1).toNat =
      bitsOf k acc.toNat ++ [decide (x < 0)] := by
  by_cases hneg : x < 0
  · rw [if_pos hneg, decide_eq_true hneg]
    exact bitsOf_push32 acc (v := 1) (by omega) (by decide) (by decide)
  · rw [if_neg hneg, decide_eq_false hneg, ← UInt32.or_zero (a := acc <<< 1)]
    exact bitsOf_push32 acc (v := 0) (by omega) (by decide) (by decide)

theorem bitsOf_pushLow (acc : UInt32) {a k : ℕ} (hk : k < 16) (ha : a ≤ 2047) :
    bitsOf (k + 7) ((acc <<< 7) ||| (UInt32.ofNat a &&& 127)).toNat =
      bitsOf k acc.toNat ++ bitsOf 7 a := by
  have hword : (UInt32.ofNat a).toNat = a :=
    UInt32.toNat_ofNat_of_lt' (by unfold UInt32.size; omega)
  have hseven : (UInt32.ofNat a &&& 127).toNat = a % 2 ^ 7 := by
    rw [UInt32.toNat_and, hword]
    exact Nat.and_two_pow_sub_one_eq_mod a 7
  have hpush := bitsOf_push32 acc (v := UInt32.ofNat a &&& 127) (show k + 7 ≤ 32 by omega)
    (by decide) (by rw [hseven]; exact Nat.mod_lt _ (by decide))
  rw [hseven, bitsOf_mod] at hpush
  exact hpush

theorem toNat_shiftRight_seven {a : ℕ} (ha : a ≤ 2047) :
    (UInt32.ofNat a >>> 7).toNat = a / 128 := by
  rw [UInt32.toNat_shiftRight, UInt32.toNat_ofNat_of_lt' (by unfold UInt32.size; omega)]
  exact Nat.shiftRight_eq_div_pow a 7

theorem bitsOf_pushUnary (acc : UInt32) {a k : ℕ} (hk : k ≤ 15) (ha : a ≤ 2047) :
    bitsOf (k + (a / 128 + 1)) ((acc <<< (UInt32.ofNat a >>> 7 + 1)) ||| 1).toNat =
      bitsOf k acc.toNat ++ unaryBits (a / 128) := by
  have hshift : UInt32.ofNat a >>> 7 + 1 = UInt32.ofNat (a / 128 + 1) := by
    apply UInt32.toNat_inj.mp
    rw [UInt32.toNat_add, toNat_shiftRight_seven ha,
      UInt32.toNat_ofNat_of_lt' (by unfold UInt32.size; omega)]
    exact Nat.mod_eq_of_lt (show a / 128 + 1 < 2 ^ 32 by omega)
  have hone : (1 : UInt32).toNat < 2 ^ (a / 128 + 1) := Nat.one_lt_two_pow (by omega)
  rw [hshift, bitsOf_push32 acc (by omega) (by omega) hone, ← bitsOf_one]
  rfl

/-- What one iteration pushes. It fits into the accumulator: the source counts 31
bits at most. -/
theorem bitsOf_pushCoeff {writer : BitWriter} {x : Int16} (hlen : writer.accLen < 8)
    (hx : InRange x.toInt) :
    (pushCoeff writer x).accLen ≤ 31 ∧
      written (pushCoeff writer x) = written writer ++ coeffBits x.toInt := by
  obtain ⟨hlow, hhigh⟩ := hx
  have habs : x.toInt.natAbs ≤ 2047 := by omega
  have hrest := toNat_shiftRight_seven habs
  have haccLen : (pushCoeff writer x).accLen =
      writer.accLen + 1 + 7 + (x.toInt.natAbs / 128 + 1) := by
    rw [← hrest]
    rfl
  refine ⟨by omega, ?_⟩
  rw [written, haccLen, pushCoeff]
  rw [bitsOf_pushUnary _ (by omega) habs, bitsOf_pushLow _ (by omega) habs,
    bitsOf_pushSign _ _ hlen, written, coeffBits]
  simp only [List.append_assoc, List.cons_append, List.nil_append]

/-! The loops. -/

theorem written_flush {writer : BitWriter} (hfull : 8 ≤ writer.accLen)
    (hlen : writer.accLen ≤ 32) :
    written { writer with
        accLen := writer.accLen - 8
        out := writer.out ++ [(writer.acc >>> UInt32.ofNat (writer.accLen - 8)).toUInt8] } =
      written writer := by
  have hshift : (UInt32.ofNat (writer.accLen - 8)).toNat % 32 = writer.accLen - 8 := by
    rw [UInt32.toNat_ofNat_of_lt' (by unfold UInt32.size; omega), Nat.mod_eq_of_lt (by omega)]
  have hbyte : ((writer.acc >>> UInt32.ofNat (writer.accLen - 8)).toUInt8).toNat =
      (writer.acc.toNat >>> (writer.accLen - 8)) % 2 ^ 8 := by
    rw [UInt32.toNat_toUInt8, UInt32.toNat_shiftRight, hshift]
  have hsplit := bitsOf_add 8 (writer.accLen - 8) writer.acc.toNat
  rw [Nat.add_sub_cancel' hfull] at hsplit
  rw [written, written, hsplit, bitsOfBytes_concat, hbyte, bitsOf_mod, List.append_assoc]

theorem flushBytes_written {maxOutLen : ℕ} {writer flushed : BitWriter}
    (hlen : writer.accLen ≤ 32) (hflush : flushBytes maxOutLen writer = some flushed) :
    flushed.accLen < 8 ∧ written flushed = written writer := by
  induction writer using flushBytes.induct maxOutLen with
  | case1 writer hfull hbound =>
      rw [flushBytes, if_pos hfull, if_pos hbound] at hflush
      contradiction
  | case2 writer hfull accLen hbound byte ih =>
      rw [flushBytes, if_pos hfull, if_neg hbound] at hflush
      obtain ⟨hflushed, hwritten⟩ := ih (show writer.accLen - 8 ≤ 32 by omega) hflush
      exact ⟨hflushed, hwritten.trans (written_flush hfull hlen)⟩
  | case3 writer hfull =>
      rw [flushBytes, if_neg hfull, Option.some.injEq] at hflush
      subst hflush
      exact ⟨by omega, rfl⟩

theorem isSome_flushBytes {maxOutLen : ℕ} {writer : BitWriter}
    (hfits : (written writer).length < 8 * (maxOutLen + 1)) :
    (flushBytes maxOutLen writer).isSome := by
  rw [length_written] at hfits
  induction writer using flushBytes.induct maxOutLen with
  | case1 writer hfull hbound => omega
  | case2 writer hfull accLen hbound byte ih =>
      rw [flushBytes, if_pos hfull, if_neg hbound]
      apply ih
      rw [List.length_append, List.length_singleton]
      show 8 * (writer.out.length + 1) + (writer.accLen - 8) < 8 * (maxOutLen + 1)
      omega
  | case3 writer hfull =>
      rw [flushBytes, if_neg hfull]
      rfl

theorem encodeCoeffs_written {maxOutLen : ℕ} {x : List Int16} {writer final : BitWriter}
    (hlen : writer.accLen < 8) (hx : ∀ t ∈ values x, InRange t)
    (hencode : encodeCoeffs maxOutLen x writer = some final) :
    final.accLen < 8 ∧ written final = written writer ++ polyBits (values x) := by
  induction x generalizing writer with
  | nil =>
      obtain rfl : writer = final := Option.some.inj hencode
      exact ⟨hlen, (List.append_nil _).symm⟩
  | cons t x ih =>
      rw [encodeCoeffs, Option.bind_eq_some_iff] at hencode
      obtain ⟨flushed, hflush, hencode⟩ := hencode
      obtain ⟨hpushLen, hpush⟩ := bitsOf_pushCoeff hlen (hx t.toInt List.mem_cons_self)
      obtain ⟨hflushed, hwritten⟩ := flushBytes_written (by omega) hflush
      obtain ⟨hfinal, hbits⟩ := ih hflushed
        (fun y hy => hx y (List.mem_cons_of_mem _ hy)) hencode
      refine ⟨hfinal, ?_⟩
      rw [hbits, hwritten, hpush, List.append_assoc]
      rfl

theorem isSome_encodeCoeffs {maxOutLen : ℕ} {x : List Int16} {writer : BitWriter}
    (hlen : writer.accLen < 8) (hx : ∀ t ∈ values x, InRange t)
    (hfits : (written writer ++ polyBits (values x)).length < 8 * (maxOutLen + 1)) :
    (encodeCoeffs maxOutLen x writer).isSome := by
  induction x generalizing writer with
  | nil => rfl
  | cons t x ih =>
      obtain ⟨hpushLen, hpush⟩ := bitsOf_pushCoeff hlen (hx t.toInt List.mem_cons_self)
      have hcons : written writer ++ polyBits (values (t :: x)) =
          written (pushCoeff writer t) ++ polyBits (values x) := by
        rw [hpush, List.append_assoc]
        rfl
      rw [hcons] at hfits
      have hsome : (flushBytes maxOutLen (pushCoeff writer t)).isSome :=
        isSome_flushBytes (by rw [List.length_append] at hfits; omega)
      obtain ⟨flushed, hflush⟩ := Option.isSome_iff_exists.mp hsome
      obtain ⟨hflushed, hwritten⟩ := flushBytes_written (by omega) hflush
      rw [encodeCoeffs, hflush, Option.bind_some]
      exact ih hflushed (fun y hy => hx y (List.mem_cons_of_mem _ hy))
        (by rw [hwritten]; exact hfits)

theorem bitsOf_lastByte {writer : BitWriter} (hlen : writer.accLen < 8) (hpos : 0 < writer.accLen) :
    bitsOfBytes (writer.out ++ [(writer.acc <<< UInt32.ofNat (8 - writer.accLen)).toUInt8]) =
      written writer ++ List.replicate (8 - writer.accLen) false := by
  have hpush := bitsOf_push32 writer.acc (v := 0) (show writer.accLen + (8 - writer.accLen) ≤ 32
    by omega) (by omega) (Nat.two_pow_pos _)
  rw [UInt32.or_zero, Nat.add_sub_cancel' hlen.le, UInt32.toNat_zero, bitsOf_zero] at hpush
  rw [bitsOfBytes_concat, UInt32.toNat_toUInt8, bitsOf_mod, hpush, written, List.append_assoc]

theorem any_out_of_range (x : List Int16) :
    (x.any fun xu => xu.toInt < -2047 || xu.toInt > 2047) = false ↔
      ∀ t ∈ values x, InRange t := by
  rw [List.any_eq_false, values]
  simp only [List.mem_map, forall_exists_index, and_imp, forall_apply_eq_imp_iff₂, InRange,
    Bool.or_eq_true, decide_eq_true_iff, not_or, not_lt]

/-- The bytes that `comp_encode` stores are the bits of the polynomial, padded with
zeros to full bytes. -/
theorem compEncode_bits {maxOutLen : ℕ} {x : List Int16} {bytes : List UInt8}
    (hencode : compEncode maxOutLen x = some bytes) :
    (∀ t ∈ values x, InRange t) ∧
      ∃ k < 8, bitsOfBytes bytes = polyBits (values x) ++ List.replicate k false := by
  rw [compEncode] at hencode
  split at hencode
  · contradiction
  rename_i hany
  have hrange := (any_out_of_range x).mp (Bool.eq_false_iff.mpr hany)
  rw [Option.bind_eq_some_iff] at hencode
  obtain ⟨final, hloop, hlast⟩ := hencode
  obtain ⟨hlen, hwritten⟩ := encodeCoeffs_written (Nat.zero_lt_succ 7) hrange hloop
  refine ⟨hrange, ?_⟩
  rw [flushRemaining] at hlast
  by_cases hpos : final.accLen > 0
  · rw [if_pos hpos] at hlast
    split at hlast
    · contradiction
    obtain rfl := Option.some.inj hlast
    exact ⟨8 - final.accLen, by omega, by rw [bitsOf_lastByte hlen hpos, hwritten]; rfl⟩
  · rw [if_neg hpos] at hlast
    obtain rfl := Option.some.inj hlast
    refine ⟨0, by omega, ?_⟩
    have hzero : final.accLen = 0 := by omega
    rw [written, hzero] at hwritten
    rw [← List.append_nil (bitsOfBytes final.out), List.replicate_zero,
      List.append_nil (polyBits _)]
    exact hwritten

/-- A byte string of that form is what `comp_encode` stores, if the buffer has room. -/
theorem compEncode_of_bits {maxOutLen k : ℕ} {x : List Int16} {bytes : List UInt8}
    (hx : ∀ t ∈ values x, InRange t) (hk : k < 8)
    (hbits : bitsOfBytes bytes = polyBits (values x) ++ List.replicate k false)
    (hroom : bytes.length ≤ maxOutLen) : compEncode maxOutLen x = some bytes := by
  have hlength := congrArg List.length hbits
  rw [length_bitsOfBytes, List.length_append, List.length_replicate] at hlength
  have hsome : (encodeCoeffs maxOutLen x { acc := 0, accLen := 0, out := [] }).isSome := by
    refine isSome_encodeCoeffs (Nat.zero_lt_succ 7) hx ?_
    rw [List.length_append, length_written]
    show 8 * 0 + 0 + (polyBits (values x)).length < 8 * (maxOutLen + 1)
    omega
  obtain ⟨final, hloop⟩ := Option.isSome_iff_exists.mp hsome
  obtain ⟨hlen, hwritten⟩ := encodeCoeffs_written (Nat.zero_lt_succ 7) hx hloop
  have hfinalLength := congrArg List.length hwritten
  rw [length_written, List.length_append, length_written] at hfinalLength
  replace hfinalLength : 8 * final.out.length + final.accLen =
      8 * 0 + 0 + (polyBits (values x)).length := hfinalLength
  -- the stored bytes have the same bits, so they are the same bytes
  have hlast : flushRemaining maxOutLen final = some bytes := by
    rw [flushRemaining]
    by_cases hpos : final.accLen > 0
    · rw [if_pos hpos, if_neg (by omega)]
      congr 1
      apply bitsOfBytes_injective
      rw [bitsOf_lastByte hlen hpos, hwritten, hbits, show 8 - final.accLen = k by omega]
      rfl
    · rw [if_neg hpos]
      congr 1
      apply bitsOfBytes_injective
      have hzero : final.accLen = 0 := by omega
      rw [written, hzero] at hwritten
      rw [hbits, show k = 0 by omega, List.replicate_zero, List.append_nil,
        ← List.append_nil (bitsOfBytes final.out)]
      exact hwritten
  rw [compEncode, (any_out_of_range x).mpr hx, if_neg Bool.false_ne_true, hloop, Option.bind_some,
    hlast]

end Soko.Signature
