import Soko.Signature.Encode

/-!
The decoder, with its 32-bit accumulator. Reading the bytes and the bits pending in
the accumulator as one bit string, it is the parser of the format; it checks the
length before every byte that it reads.
-/

namespace Soko.Signature

open Soko.Library

/-- Why the decoder stops: it returns 0, or it reads a byte that does not exist. -/
inductive DecodeStop
  | rejected
  | outOfBounds
  deriving DecidableEq

/-- The variables of `comp_decode`. -/
structure BitReader where
  acc : UInt32
  accLen : ℕ
  v : ℕ

/-- `acc = (acc << 8) | buf[v++]`, after the test of the length. -/
def readByte (buf : List UInt8) (maxInLen : ℕ) (reader : BitReader) :
    Except DecodeStop BitReader :=
  if reader.v ≥ maxInLen then .error .rejected
  else match buf[reader.v]? with
    | none => .error .outOfBounds
    | some byte =>
        .ok { reader with acc := (reader.acc <<< 8) ||| byte.toUInt32, v := reader.v + 1 }

def refill (buf : List UInt8) (maxInLen : ℕ) (reader : BitReader) :
    Except DecodeStop BitReader :=
  if reader.accLen = 0 then
    (readByte buf maxInLen reader).map fun reader => { reader with accLen := 8 }
  else .ok reader

def readUnary (buf : List UInt8) (maxInLen m : ℕ) (reader : BitReader) :
    Except DecodeStop (ℕ × BitReader) :=
  (refill buf maxInLen reader).bind fun reader =>
    let reader := { reader with accLen := reader.accLen - 1 }
    if (reader.acc >>> UInt32.ofNat reader.accLen) &&& 1 ≠ 0 then .ok (m, reader)
    else if m + 128 > 2047 then .error .rejected
    else readUnary buf maxInLen (m + 128) reader
  termination_by 2048 - m

def readCoeff (buf : List UInt8) (maxInLen : ℕ) (reader : BitReader) :
    Except DecodeStop (Int16 × BitReader) :=
  (readByte buf maxInLen reader).bind fun reader =>
    let b := reader.acc >>> UInt32.ofNat reader.accLen
    let s := b &&& 128
    let m := b &&& 127
    (readUnary buf maxInLen m.toNat reader).bind fun (m, reader) =>
      if s ≠ 0 ∧ m = 0 then .error .rejected
      else .ok (Int16.ofInt (if s ≠ 0 then -(m : ℤ) else m), reader)

def readCoeffs (buf : List UInt8) (maxInLen : ℕ) :
    ℕ → BitReader → Except DecodeStop (List Int16 × BitReader)
  | 0, reader => .ok ([], reader)
  | n + 1, reader =>
      (readCoeff buf maxInLen reader).bind fun (x, reader) =>
        (readCoeffs buf maxInLen n reader).map fun (xs, reader) => (x :: xs, reader)

/-- The body of both decoders: the coefficients and the number of bytes used. -/
def decodeBytes (logn : ℕ) (buf : List UInt8) (maxInLen : ℕ) :
    Except DecodeStop (List Int16 × ℕ) :=
  (readCoeffs buf maxInLen (2 ^ logn) { acc := 0, accLen := 0, v := 0 }).bind fun (x, reader) =>
    if reader.acc &&& ((1 <<< UInt32.ofNat reader.accLen) - 1) ≠ 0 then .error .rejected
    else .ok (x, reader.v)

/-- `comp_decode_device`, which returns 1 and stores the number of bytes used. -/
def compDecodeDevice (logn : ℕ) (buf : List UInt8) (maxInLen : ℕ) :
    Except DecodeStop (List Int16 × ℕ) :=
  decodeBytes logn buf maxInLen

/-- `comp_decode`, which returns the number of bytes used, or 0. -/
def compDecode (logn : ℕ) (buf : List UInt8) (maxInLen : ℕ) :
    Except DecodeStop (List Int16 × ℕ) :=
  match decodeBytes logn buf maxInLen with
  | .error .rejected => .ok ([], 0)
  | stop => stop

/-- Where a reader stands between two bits of the input. -/
structure InInput (maxInLen : ℕ) (reader : BitReader) : Prop where
  accLen_lt : reader.accLen < 8
  v_le : reader.v ≤ maxInLen

/-- The bits that a reader has still to take. -/
def pending (buf : List UInt8) (maxInLen : ℕ) (reader : BitReader) : List Bool :=
  bitsOf reader.accLen reader.acc.toNat ++ bitsOfBytes ((buf.take maxInLen).drop reader.v)

/-- A part of the decoder does what a parser does with the pending bits. -/
def Follows {α β : Type} (buf : List UInt8) (maxInLen : ℕ) (value : α → β)
    (decoded : Except DecodeStop (α × BitReader)) (parsed : Option (β × List Bool)) : Prop :=
  match parsed with
  | none => decoded = .error .rejected
  | some (y, rest) => ∃ x reader, decoded = .ok (x, reader) ∧ value x = y ∧
      InInput maxInLen reader ∧ pending buf maxInLen reader = rest

/-! Words as bit strings. -/

theorem and_two_pow_ne_zero_iff (w : UInt32) {k : ℕ} (hk : k < 32) :
    w &&& UInt32.ofNat (2 ^ k) ≠ 0 ↔ w.toNat.testBit k = true := by
  have hpow : (UInt32.ofNat (2 ^ k)).toNat = 2 ^ k :=
    UInt32.toNat_ofNat_of_lt' (Nat.pow_lt_pow_right (by decide) hk)
  rw [Ne, ← UInt32.toNat_inj, UInt32.toNat_and, hpow, Nat.and_two_pow, UInt32.toNat_zero]
  cases w.toNat.testBit k <;> simp

theorem toNat_shiftRight_ofNat (w : UInt32) {k : ℕ} (hk : k < 32) :
    (w >>> UInt32.ofNat k).toNat = w.toNat >>> k := by
  rw [UInt32.toNat_shiftRight, UInt32.toNat_ofNat_of_lt' (by unfold UInt32.size; omega),
    Nat.mod_eq_of_lt hk]

theorem and_mask_eq_zero_iff (w : UInt32) {k : ℕ} (hk : k < 32) :
    w &&& ((1 <<< UInt32.ofNat k) - 1) = 0 ↔ bitsOf k w.toNat = List.replicate k false := by
  have hpow : (1 <<< UInt32.ofNat k : UInt32).toNat = 2 ^ k := by
    rw [UInt32.toNat_shiftLeft, UInt32.toNat_ofNat_of_lt' (by unfold UInt32.size; omega),
      Nat.mod_eq_of_lt hk, UInt32.toNat_one, Nat.shiftLeft_eq, one_mul]
    exact Nat.mod_eq_of_lt (Nat.pow_lt_pow_right (by decide) hk)
  have hmask : ((1 <<< UInt32.ofNat k : UInt32) - 1).toNat = 2 ^ k - 1 := by
    rw [UInt32.toNat_sub_of_le, hpow, UInt32.toNat_one]
    rw [UInt32.le_iff_toNat_le, hpow, UInt32.toNat_one]
    exact Nat.one_le_two_pow
  rw [← UInt32.toNat_inj, UInt32.toNat_and, hmask, Nat.and_two_pow_sub_one_eq_mod,
    UInt32.toNat_zero, ← bitsOf_zero]
  constructor
  · intro hmod
    rw [← bitsOf_mod, hmod]
  · intro hbits
    have hvalue := congrArg ofBits hbits
    rw [ofBits_bitsOf, ofBits_bitsOf, Nat.zero_mod] at hvalue
    exact hvalue

section
variable {buf : List UInt8} {maxInLen : ℕ} (hmax : maxInLen ≤ buf.length)
include hmax

/-! The loops of the decoder. -/

/-- Either the input is exhausted, or the next byte joins the accumulator. -/
theorem readByte_spec (reader : BitReader) (hlen : reader.accLen < 8) :
    (readByte buf maxInLen reader = .error .rejected ∧
        (pending buf maxInLen reader).length < 8) ∨
      ∃ acc, readByte buf maxInLen reader = .ok { reader with acc, v := reader.v + 1 } ∧
        reader.v < maxInLen ∧ pending buf maxInLen reader =
          bitsOf (reader.accLen + 8) acc.toNat ++
            bitsOfBytes ((buf.take maxInLen).drop (reader.v + 1)) := by
  rw [readByte]
  by_cases hend : reader.v ≥ maxInLen
  · left
    rw [if_pos hend, pending, List.drop_eq_nil_of_le (by rw [List.length_take]; omega)]
    refine ⟨rfl, ?_⟩
    rw [List.length_append, length_bitsOf, length_bitsOfBytes, List.length_nil]
    omega
  · right
    have hv : reader.v < buf.length := by omega
    have hv' : reader.v < (buf.take maxInLen).length := by rw [List.length_take]; omega
    rw [if_neg hend, List.getElem?_eq_getElem hv]
    refine ⟨_, rfl, by omega, ?_⟩
    have hbyte : (buf[reader.v].toUInt32).toNat < 2 ^ 8 := buf[reader.v].toNat_lt
    have hpush := bitsOf_push32 reader.acc (show reader.accLen + 8 ≤ 32 by omega) (by decide) hbyte
    rw [pending, List.drop_eq_getElem_cons hv', bitsOfBytes_cons, List.getElem_take,
      ← List.append_assoc]
    congr 1
    exact hpush.symm

theorem refill_spec {reader : BitReader} (hreader : InInput maxInLen reader) :
    (refill buf maxInLen reader = .error .rejected ∧ pending buf maxInLen reader = []) ∨
      ∃ acc k v, refill buf maxInLen reader = .ok { acc, accLen := k + 1, v } ∧ k < 8 ∧
        v ≤ maxInLen ∧
        pending buf maxInLen reader = pending buf maxInLen { acc, accLen := k + 1, v } := by
  obtain ⟨hlen, hv⟩ := hreader
  rw [refill]
  by_cases hempty : reader.accLen = 0
  · rw [if_pos hempty]
    rcases readByte_spec hmax reader hlen with ⟨hread, hshort⟩ | ⟨acc, hread, hlt, hpending⟩
    · left
      rw [hread]
      refine ⟨rfl, ?_⟩
      -- nothing is pending in the accumulator, and less than a byte in the input
      rw [pending, hempty, bitsOf, List.nil_append] at hshort ⊢
      rw [length_bitsOfBytes] at hshort
      have hnil := List.eq_nil_of_length_eq_zero
        (show ((buf.take maxInLen).drop reader.v).length = 0 by omega)
      rw [hnil]
      rfl
    · right
      rw [hempty] at hpending
      exact ⟨acc, 7, reader.v + 1, by rw [hread]; rfl, by omega, by omega, hpending⟩
  · right
    obtain ⟨k, hk⟩ := Nat.exists_eq_succ_of_ne_zero hempty
    refine ⟨reader.acc, k, reader.v, ?_, by omega, hv, ?_⟩
    · rw [if_neg hempty, ← Nat.succ_eq_add_one, ← hk]
    · rw [← Nat.succ_eq_add_one, ← hk]

theorem readUnary_follows (m : ℕ) {reader : BitReader} (hreader : InInput maxInLen reader) :
    Follows buf maxInLen id (readUnary buf maxInLen m reader)
      (parseUnary m (pending buf maxInLen reader)) := by
  obtain ⟨bits, hbits⟩ : ∃ bits, pending buf maxInLen reader = bits := ⟨_, rfl⟩
  -- every iteration takes one bit
  induction bits generalizing m reader with
  | nil =>
      rcases refill_spec hmax hreader with ⟨hrefill, _⟩ | ⟨acc, k, v, _, _, _, hpending⟩
      · rw [hbits, readUnary, hrefill]
        rfl
      · rw [hbits, pending, bitsOf] at hpending
        contradiction
  | cons bit bits ih =>
      rcases refill_spec hmax hreader with ⟨_, hnil⟩ | ⟨acc, k, v, hrefill, hk, hv, hpending⟩
      · rw [hbits] at hnil
        contradiction
      · have hcons : bit :: bits =
            acc.toNat.testBit k :: pending buf maxInLen { acc, accLen := k, v } := by
          rw [← hbits, hpending]
          rfl
        obtain ⟨rfl, rfl⟩ := List.cons.inj hcons
        have hnext : InInput maxInLen { acc, accLen := k, v } := ⟨hk, hv⟩
        have hbit : (acc >>> UInt32.ofNat k) &&& 1 ≠ 0 ↔ acc.toNat.testBit k = true := by
          have htest := and_two_pow_ne_zero_iff (acc >>> UInt32.ofNat k) (k := 0) (by decide)
          rw [toNat_shiftRight_ofNat acc (by omega), Nat.testBit_shiftRight, Nat.add_zero] at htest
          exact htest
        rw [hbits, readUnary, hrefill]
        show Follows buf maxInLen id
          (if (acc >>> UInt32.ofNat k) &&& 1 ≠ 0 then .ok (m, { acc, accLen := k, v })
            else if m + 128 > 2047 then .error .rejected
            else readUnary buf maxInLen (m + 128) { acc, accLen := k, v }) _
        cases hone : acc.toNat.testBit k with
        | true =>
            rw [if_pos (hbit.mpr hone)]
            exact ⟨m, _, rfl, rfl, hnext, rfl⟩
        | false =>
            rw [if_neg (by rw [hbit, hone]; exact Bool.false_ne_true), parseUnary]
            split
            · rfl
            · exact ih (m + 128) hnext rfl

theorem readCoeff_follows {reader : BitReader} (hreader : InInput maxInLen reader) :
    Follows buf maxInLen Int16.toInt (readCoeff buf maxInLen reader)
      (parseCoeff (pending buf maxInLen reader)) := by
  obtain ⟨hlen, hv⟩ := hreader
  rcases readByte_spec hmax reader hlen with ⟨hread, hshort⟩ | ⟨acc, hread, hlt, hpending⟩
  · rw [parseCoeff_short hshort, readCoeff, hread]
    rfl
  · obtain ⟨k, hk⟩ : ∃ k, reader.accLen = k := ⟨_, rfl⟩
    rw [hk] at hlen hpending
    obtain ⟨b, hb⟩ : ∃ b, acc >>> UInt32.ofNat k = b := ⟨_, rfl⟩
    have hbNat : b.toNat = acc.toNat >>> k := by
      rw [← hb, toNat_shiftRight_ofNat acc (by omega)]
    -- the 8 bits of the byte just read come first, then what the reader has left
    have hnext : InInput maxInLen { acc, accLen := k, v := reader.v + 1 } := ⟨hlen, hlt⟩
    have hsplit : pending buf maxInLen reader =
        bitsOf 8 b.toNat ++ pending buf maxInLen { acc, accLen := k, v := reader.v + 1 } := by
      rw [hpending, Nat.add_comm, bitsOf_add, hbNat, List.append_assoc]
      rfl
    have hlow : (b &&& 127).toNat = b.toNat % 2 ^ 7 := by
      rw [UInt32.toNat_and]
      exact Nat.and_two_pow_sub_one_eq_mod b.toNat 7
    have hsign : b &&& 128 ≠ 0 ↔ b.toNat.testBit 7 = true :=
      and_two_pow_ne_zero_iff b (k := 7) (by decide)
    have hunary := readUnary_follows hmax (b.toNat % 2 ^ 7) hnext
    rw [hsplit, parseCoeff_bitsOf, readCoeff, hread, hk]
    show Follows buf maxInLen Int16.toInt
      ((readUnary buf maxInLen ((acc >>> UInt32.ofNat k) &&& 127).toNat
          { acc, accLen := k, v := reader.v + 1 }).bind fun (m, reader) =>
        if (acc >>> UInt32.ofNat k) &&& 128 ≠ 0 ∧ m = 0 then .error .rejected
        else .ok (Int16.ofInt (if (acc >>> UInt32.ofNat k) &&& 128 ≠ 0 then -(m : ℤ) else m),
          reader)) _
    rw [hb, hlow]
    rcases hparse : parseUnary (b.toNat % 2 ^ 7) (pending buf maxInLen
      { acc, accLen := k, v := reader.v + 1 }) with _ | ⟨m, rest⟩
    · rw [hparse] at hunary
      rw [hunary]
      rfl
    · obtain ⟨k, hm, hm2047, _⟩ := eq_of_parseUnary (by omega) hparse
      rw [hparse] at hunary
      obtain ⟨m', reader', hread', (rfl : m' = m), hreader', hpending'⟩ := hunary
      rw [hread', Option.bind_some, signedValue]
      show Follows buf maxInLen Int16.toInt
        (if b &&& 128 ≠ 0 ∧ m' = 0 then .error .rejected
          else .ok (Int16.ofInt (if b &&& 128 ≠ 0 then -(m' : ℤ) else m'), reader')) _
      by_cases hminus : b.toNat.testBit 7 = true ∧ m' = 0
      · rw [if_pos hminus, if_pos ⟨hsign.mpr hminus.1, hminus.2⟩]
        rfl
      · rw [if_neg hminus, if_neg fun h => hminus ⟨hsign.mp h.1, h.2⟩]
        refine ⟨_, reader', rfl, ?_, hreader', hpending'⟩
        rw [if_congr hsign rfl rfl, Int16.toInt_ofInt_of_le] <;> split <;> omega

theorem readCoeffs_follows (n : ℕ) {reader : BitReader} (hreader : InInput maxInLen reader) :
    Follows buf maxInLen values (readCoeffs buf maxInLen n reader)
      (parsePoly n (pending buf maxInLen reader)) := by
  induction n generalizing reader with
  | zero => exact ⟨[], reader, rfl, rfl, hreader, rfl⟩
  | succ n ih =>
      have hcoeff := readCoeff_follows hmax hreader
      rw [readCoeffs, parsePoly]
      rcases hparse : parseCoeff (pending buf maxInLen reader) with _ | ⟨x, rest⟩
      · rw [hparse] at hcoeff
        rw [hcoeff]
        rfl
      · rw [hparse] at hcoeff
        obtain ⟨x', reader', hread', hx, hreader', hpending'⟩ := hcoeff
        have hrest := ih hreader'
        rw [hpending'] at hrest
        rw [hread', Option.bind_some]
        show Follows buf maxInLen values
          ((readCoeffs buf maxInLen n reader').map fun (xs, reader) => (x' :: xs, reader))
          ((parsePoly n rest).map fun more => (x :: more.1, more.2))
        rcases hpoly : parsePoly n rest with _ | ⟨xs, rest'⟩
        · rw [hpoly] at hrest
          rw [hrest]
          rfl
        · rw [hpoly] at hrest
          obtain ⟨xs', final, hread, hxs, hfinal⟩ := hrest
          rw [hread]
          exact ⟨x' :: xs', final, rfl, congrArg₂ List.cons hx hxs, hfinal⟩

/-- Both decoders: the parser of the format, the test of the unused bits, and the number
of bytes used. -/
theorem decodeBytes_cases (logn : ℕ) :
    (parsePoly (2 ^ logn) (bitsOfBytes (buf.take maxInLen)) = none ∧
        decodeBytes logn buf maxInLen = .error .rejected) ∨
      ∃ x reader, InInput maxInLen reader ∧
        parsePoly (2 ^ logn) (bitsOfBytes (buf.take maxInLen)) =
          some (values x, pending buf maxInLen reader) ∧
        decodeBytes logn buf maxInLen =
          if bitsOf reader.accLen reader.acc.toNat = List.replicate reader.accLen false then
            .ok (x, reader.v)
          else .error .rejected := by
  have hfollows := readCoeffs_follows hmax (2 ^ logn)
    (show InInput maxInLen { acc := 0, accLen := 0, v := 0 } from
      ⟨Nat.zero_lt_succ 7, Nat.zero_le _⟩)
  have hstart : pending buf maxInLen { acc := 0, accLen := 0, v := 0 } =
      bitsOfBytes (buf.take maxInLen) := rfl
  rw [hstart] at hfollows
  rcases hparse : parsePoly (2 ^ logn) (bitsOfBytes (buf.take maxInLen)) with _ | ⟨xs, rest⟩
  · rw [hparse] at hfollows
    refine .inl ⟨rfl, ?_⟩
    rw [decodeBytes, hfollows]
    rfl
  · rw [hparse] at hfollows
    obtain ⟨x, reader, hread, hx, hreader, hpending⟩ := hfollows
    refine .inr ⟨x, reader, hreader, by rw [hx, hpending], ?_⟩
    have hmask := and_mask_eq_zero_iff reader.acc (show reader.accLen < 32 by
      have := hreader.accLen_lt
      omega)
    rw [decodeBytes, hread]
    show (if reader.acc &&& ((1 <<< UInt32.ofNat reader.accLen) - 1) ≠ 0 then
      Except.error DecodeStop.rejected else .ok (x, reader.v)) = _
    by_cases hzero : bitsOf reader.accLen reader.acc.toNat = List.replicate reader.accLen false
    · rw [if_pos hzero, if_neg (not_not.mpr (hmask.mpr hzero))]
    · rw [if_neg hzero, if_pos fun h => hzero (hmask.mp h)]

theorem decodeBytes_ne_outOfBounds (logn : ℕ) :
    decodeBytes logn buf maxInLen ≠ .error .outOfBounds := by
  rcases decodeBytes_cases hmax logn with ⟨_, hdecode⟩ | ⟨x, reader, _, _, hdecode⟩
  · rw [hdecode]
    exact fun h => nomatch h
  · rw [hdecode]
    split
    · exact fun h => nomatch h
    · exact fun h => nomatch h

end

theorem values_injective : Function.Injective values :=
  List.map_injective_iff.mpr fun _ _ => Int16.toInt_inj.mp

/-- The decoders use a whole byte string exactly when it is the bits of the polynomial,
padded with zeros to full bytes. -/
theorem decodeBytes_eq_ok_iff {logn : ℕ} {buf : List UInt8} {x : List Int16} :
    decodeBytes logn buf buf.length = .ok (x, buf.length) ↔
      x.length = 2 ^ logn ∧ (∀ t ∈ values x, InRange t) ∧
        ∃ k < 8, bitsOfBytes buf = polyBits (values x) ++ List.replicate k false := by
  have hcases := decodeBytes_cases (le_refl buf.length) logn
  rw [List.take_length] at hcases
  constructor
  · intro hdecode
    rcases hcases with ⟨_, hrejected⟩ | ⟨x', reader, hreader, hparse, hresult⟩
    · rw [hrejected] at hdecode
      contradiction
    · rw [hresult] at hdecode
      split at hdecode
      · obtain ⟨rfl, hv⟩ : x' = x ∧ reader.v = buf.length := by simpa using hdecode
        obtain ⟨hlength, hrange, hbits⟩ := eq_of_parsePoly hparse
        refine ⟨by rw [← hlength, length_values], hrange, reader.accLen,
          hreader.accLen_lt, ?_⟩
        rw [hbits, pending, List.take_length, hv, List.drop_length, ‹bitsOf _ _ = _›]
        exact congrArg _ (List.append_nil _)
      · contradiction
  · rintro ⟨hlength, hrange, k, hk, hbits⟩
    have hpoly : parsePoly (2 ^ logn) (bitsOfBytes buf) =
        some (values x, List.replicate k false) := by
      rw [hbits, ← hlength, ← length_values]
      exact parsePoly_polyBits (values x) hrange _
    rcases hcases with ⟨hnone, _⟩ | ⟨x', reader, hreader, hparse, hresult⟩
    · rw [hpoly] at hnone
      contradiction
    · rw [hpoly, Option.some.injEq, Prod.mk.injEq] at hparse
      obtain ⟨hx, hpending⟩ := hparse
      obtain rfl := values_injective hx
      -- fewer than eight bits remain, so no byte does
      have hcount := congrArg List.length hpending
      rw [List.length_replicate, pending, List.take_length, List.length_append, length_bitsOf,
        length_bitsOfBytes, List.length_drop] at hcount
      have hv : reader.v = buf.length := by
        have := hreader.v_le
        omega
      rw [pending, List.take_length, hv, List.drop_length] at hpending
      have hzero : bitsOf reader.accLen reader.acc.toNat = List.replicate reader.accLen false := by
        rw [show reader.accLen = k by omega] at hpending ⊢
        exact (List.append_nil _).symm.trans hpending.symm
      rw [hresult, if_pos hzero, hv]

end Soko.Signature
