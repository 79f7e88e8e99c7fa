import Mathlib.Data.List.Forall2
import Soko.Gpu.Transform
import Soko.Signature.Decode

/-!
The fixed-width codecs of `submodules/FN-DSA/codec.c`. The encoders push a field for every
element into a 32-bit accumulator and store its full bytes; the decoders take the fields
out again, check each of them and the unused bits of the last byte. A decoder accepts just
the byte strings that the encoder stores, and does not read past them
(`decodeFields_eq_ok_iff`).
-/

namespace Soko.FnDsa

open Soko.Library Soko.Signature Soko.Gpu

/-- The loop that produces all full bytes, into a buffer that is known to be large enough. -/
def storeBytes (writer : BitWriter) : BitWriter :=
  if 8 ≤ writer.accLen then
    let accLen := writer.accLen - 8
    let byte := (writer.acc >>> UInt32.ofNat accLen).toUInt8
    storeBytes { writer with accLen, out := writer.out ++ [byte] }
  else writer
  termination_by writer.accLen

def pushField (bits : ℕ) (writer : BitWriter) (w : UInt32) : BitWriter :=
  storeBytes { writer with
    acc := (writer.acc <<< UInt32.ofNat bits) ||| w
    accLen := writer.accLen + bits }

def packFields (bits : ℕ) (ws : List UInt32) : List UInt8 :=
  let writer := ws.foldl (pushField bits) { acc := 0, accLen := 0, out := [] }
  if writer.accLen > 0 then
    writer.out ++ [(writer.acc <<< UInt32.ofNat (8 - writer.accLen)).toUInt8]
  else writer.out

/-- `out_len` of the encoders and `in_len` of the decoders. -/
def fieldsLength (bits n : ℕ) : ℕ := (n * bits + 7) >>> 3

/-- `modq_encode` into a buffer; `none` where it returns 0. -/
def modqEncode (maxOutLen : ℕ) (x : List UInt16) : Option (List UInt8) :=
  if x.any fun xu => xu ≥ 12289 then none
  else if fieldsLength 14 x.length > maxOutLen then none
  else some (packFields 14 (x.map UInt16.toUInt32))

section
variable {α : Type}

/-- The body of `trim_i16_encode` and `trim_i8_encode`, where `word` is the cast of an
element to an unsigned type. -/
def trimEncode (value : α → ℤ) (word : α → UInt32) (maxOutLen : ℕ) (x : List α) (bits : ℕ) :
    Option (List UInt8) :=
  let maxv : ℤ := 2 ^ (bits - 1) - 1
  let minv := -maxv
  if x.any fun xu => value xu < minv || value xu > maxv then none
  else if fieldsLength bits x.length > maxOutLen then none
  else
    let mask := (1 <<< UInt32.ofNat bits) - 1
    some (packFields bits (x.map fun xu => word xu &&& mask))

/-- The inner loop of the decoders: `field` is what is done with a field, and `none` where
it is rejected. The results are the elements, the elements to come and `acc_len`. -/
def takeFields (bits : ℕ) (field : UInt32 → Option α) (acc : UInt32) :
    ℕ → ℕ → Option (List α × ℕ × ℕ)
  | 0, accLen => some ([], 0, accLen)
  | n + 1, accLen =>
      if accLen ≥ bits then
        let accLen := accLen - bits
        let mask := (1 <<< UInt32.ofNat bits) - 1
        (field ((acc >>> UInt32.ofNat accLen) &&& mask)).bind fun xu =>
          (takeFields bits field acc n accLen).map fun (x, rest) => (xu :: x, rest)
      else some ([], n + 1, accLen)

def readFields (bits : ℕ) (field : UInt32 → Option α) :
    List UInt8 → ℕ → UInt32 → ℕ → Except DecodeStop (List α × UInt32 × ℕ)
  | _, 0, acc, accLen => .ok ([], acc, accLen)
  | [], _ + 1, _, _ => .error .outOfBounds
  | byte :: buf, n + 1, acc, accLen =>
      let acc := (acc <<< 8) ||| byte.toUInt32
      let accLen := accLen + 8
      match takeFields bits field acc (n + 1) accLen with
      | none => .error .rejected
      | some (x, n, accLen) =>
          (readFields bits field buf n acc accLen).map fun (more, rest) => (x ++ more, rest)

def testUnused (inLen : ℕ) : List α × UInt32 × ℕ → Except DecodeStop (List α × ℕ)
  | (x, acc, accLen) =>
      if acc &&& ((1 <<< UInt32.ofNat accLen) - 1) ≠ 0 then .error .rejected else .ok (x, inLen)

def decodeFields (bits : ℕ) (field : UInt32 → Option α) (logn : ℕ) (buf : List UInt8)
    (maxInLen : ℕ) : Except DecodeStop (List α × ℕ) :=
  let n := 2 ^ logn
  let inLen := fieldsLength bits n
  if inLen > maxInLen then .error .rejected
  else (readFields bits field buf n 0 0).bind (testUnused inLen)

end

def trimI16Encode : ℕ → List Int16 → ℕ → Option (List UInt8) :=
  trimEncode Int16.toInt fun xu => xu.toUInt16.toUInt32

/-- A field of `trim_i16_decode`, which is sign-extended twice. -/
def trimI16Field (bits : ℕ) (w : UInt32) : Option Int16 :=
  let mask2 := 1 <<< UInt32.ofNat (bits - 1)
  let w := w ||| -(w &&& mask2)
  if w = -mask2 then none
  else
    let w := w ||| -(w &&& mask2)
    some w.toInt32.toInt16

def trimI16Decode (logn bits : ℕ) : List UInt8 → ℕ → Except DecodeStop (List Int16 × ℕ) :=
  decodeFields bits (trimI16Field bits) logn

def trimI8Encode : ℕ → List Int8 → ℕ → Option (List UInt8) :=
  trimEncode Int8.toInt fun xu => xu.toUInt8.toUInt32

/-- A field of `trim_i8_decode`, which is sign-extended once. -/
def trimI8Field (bits : ℕ) (w : UInt32) : Option Int8 :=
  let mask2 := 1 <<< UInt32.ofNat (bits - 1)
  let w := w ||| -(w &&& mask2)
  if w = -mask2 then none else some w.toInt32.toInt8

def trimI8Decode (logn bits : ℕ) : List UInt8 → ℕ → Except DecodeStop (List Int8 × ℕ) :=
  decodeFields bits (trimI8Field bits) logn

/-- The loop of `modq_decode`, which takes at most one field for a byte. -/
def readModq : List UInt8 → ℕ → UInt32 → ℕ → Except DecodeStop (List UInt16 × UInt32 × ℕ)
  | _, 0, acc, accLen => .ok ([], acc, accLen)
  | [], _ + 1, _, _ => .error .outOfBounds
  | byte :: buf, n + 1, acc, accLen =>
      let acc := (acc <<< 8) ||| byte.toUInt32
      let accLen := accLen + 8
      if accLen ≥ 14 then
        let accLen := accLen - 14
        let w := (acc >>> UInt32.ofNat accLen) &&& 0x3FFF
        if w ≥ 12289 then .error .rejected
        else (readModq buf n acc accLen).map fun (x, rest) => (w.toUInt16 :: x, rest)
      else readModq buf (n + 1) acc accLen

def modqDecode (logn : ℕ) (buf : List UInt8) (maxInLen : ℕ) :
    Except DecodeStop (List UInt16 × ℕ) :=
  let n := 2 ^ logn
  let inLen := fieldsLength 14 n
  if inLen > maxInLen then .error .rejected
  else (readModq buf n 0 0).bind (testUnused inLen)

section Writing

variable {bits : ℕ}

theorem storeBytes_written (writer : BitWriter) (hlen : writer.accLen ≤ 32) :
    (storeBytes writer).accLen < 8 ∧ written (storeBytes writer) = written writer := by
  induction writer using storeBytes.induct with
  | case1 writer hfull accLen byte ih =>
      rw [storeBytes, if_pos hfull]
      obtain ⟨hshort, hwritten⟩ := ih (show writer.accLen - 8 ≤ 32 by omega)
      exact ⟨hshort, hwritten.trans (written_flush hfull hlen)⟩
  | case2 writer hfull =>
      rw [storeBytes, if_neg hfull]
      exact ⟨by omega, rfl⟩

theorem pushField_written (hbits : bits ≤ 24) {writer : BitWriter} (hlen : writer.accLen < 8)
    {w : UInt32} (hw : w.toNat < 2 ^ bits) :
    (pushField bits writer w).accLen < 8 ∧
      written (pushField bits writer w) = written writer ++ bitsOf bits w.toNat := by
  obtain ⟨hshort, hwritten⟩ := storeBytes_written { writer with
    acc := (writer.acc <<< UInt32.ofNat bits) ||| w
    accLen := writer.accLen + bits } (show writer.accLen + bits ≤ 32 by omega)
  refine ⟨hshort, hwritten.trans ?_⟩
  rw [written, bitsOf_push32 writer.acc (by omega) (by omega) hw, ← List.append_assoc]
  rfl

theorem foldl_pushField_written (hbits : bits ≤ 24) {ws : List UInt32}
    (hws : ∀ w ∈ ws, w.toNat < 2 ^ bits) (writer : BitWriter) (hlen : writer.accLen < 8) :
    (ws.foldl (pushField bits) writer).accLen < 8 ∧
      written (ws.foldl (pushField bits) writer) =
        written writer ++ fieldBits bits (ws.map UInt32.toNat) := by
  induction ws generalizing writer with
  | nil => exact ⟨hlen, (List.append_nil _).symm⟩
  | cons w ws ih =>
      obtain ⟨hshort, hpush⟩ := pushField_written hbits hlen (hws w List.mem_cons_self)
      obtain ⟨hfinal, hwritten⟩ := ih (fun v hv => hws v (List.mem_cons_of_mem w hv)) _ hshort
      refine ⟨hfinal, hwritten.trans ?_⟩
      rw [hpush, List.map_cons, fieldBits_cons, List.append_assoc]

/-- The bytes that an encoder stores are the fields, padded with zeros to full bytes. -/
theorem packFields_bits (hbits : bits ≤ 24) {ws : List UInt32}
    (hws : ∀ w ∈ ws, w.toNat < 2 ^ bits) :
    ∃ k < 8, bitsOfBytes (packFields bits ws) =
      fieldBits bits (ws.map UInt32.toNat) ++ List.replicate k false := by
  obtain ⟨hlen, hwritten⟩ := foldl_pushField_written hbits hws
    { acc := 0, accLen := 0, out := [] } (Nat.zero_lt_succ 7)
  rw [packFields]
  split
  · next hpos =>
      refine ⟨8 - _, Nat.sub_lt_self hpos hlen.le, (bitsOf_lastByte hlen hpos).trans ?_⟩
      rw [hwritten]
      rfl
  · next hzero =>
      refine ⟨0, by omega, ?_⟩
      rw [written, show BitWriter.accLen _ = 0 by omega] at hwritten
      rw [← List.append_nil (bitsOfBytes _), List.replicate_zero, List.append_nil (fieldBits _ _)]
      exact hwritten

theorem eq_fieldsLength {v n k : ℕ} (hv : 8 * v = n * bits + k) (hk : k < 8) :
    v = fieldsLength bits n := by
  rw [fieldsLength, Nat.shiftRight_eq_div_pow]
  omega

theorem length_packFields (hbits : bits ≤ 24) {ws : List UInt32}
    (hws : ∀ w ∈ ws, w.toNat < 2 ^ bits) :
    (packFields bits ws).length = fieldsLength bits ws.length := by
  obtain ⟨k, hk, hpack⟩ := packFields_bits hbits hws
  have hlength := congrArg List.length hpack
  rw [length_bitsOfBytes, List.length_append, length_fieldBits, List.length_map,
    List.length_replicate] at hlength
  exact eq_fieldsLength hlength hk

end Writing

section Reading

variable {α : Type} {bits : ℕ} {field : UInt32 → Option α} {acc : UInt32}

theorem toNat_and_mask (w : UInt32) (hbits : bits < 32) :
    (w &&& ((1 <<< UInt32.ofNat bits) - 1)).toNat = w.toNat % 2 ^ bits := by
  have hpow : (1 <<< UInt32.ofNat bits : UInt32).toNat = 2 ^ bits := by
    rw [UInt32.toNat_shiftLeft, UInt32.toNat_ofNat_of_lt' (by unfold UInt32.size; omega),
      Nat.mod_eq_of_lt hbits, UInt32.toNat_one, Nat.shiftLeft_eq, one_mul]
    exact Nat.mod_eq_of_lt (Nat.pow_lt_pow_right (by decide) hbits)
  have hmask : ((1 <<< UInt32.ofNat bits : UInt32) - 1).toNat = 2 ^ bits - 1 := by
    rw [UInt32.toNat_sub_of_le, hpow, UInt32.toNat_one]
    rw [UInt32.le_iff_toNat_le, hpow, UInt32.toNat_one]
    exact Nat.one_le_two_pow
  rw [UInt32.toNat_and, hmask, Nat.and_two_pow_sub_one_eq_mod]

theorem field_of_bits (hpos : 0 < bits) {w accLen : ℕ} (hw : w < 2 ^ bits)
    (hlen : accLen + bits < 32) {ws : List ℕ} {s tail : List Bool}
    (hs : bitsOf (accLen + bits) acc.toNat ++ s = fieldBits bits (w :: ws) ++ tail) :
    (acc >>> UInt32.ofNat accLen) &&& ((1 <<< UInt32.ofNat bits) - 1) = UInt32.ofNat w ∧
      bitsOf accLen acc.toNat ++ s = fieldBits bits ws ++ tail := by
  have hpow : 2 ^ bits < 2 ^ 32 := Nat.pow_lt_pow_right (by decide) (by omega)
  rw [Nat.add_comm, bitsOf_add, List.append_assoc] at hs
  obtain ⟨hfield, hrest⟩ := fieldBits_cons_inj hw hs
  refine ⟨?_, hrest⟩
  apply UInt32.toNat_inj.mp
  rw [toNat_and_mask _ (by omega), toNat_shiftRight_ofNat acc (by omega), hfield,
    UInt32.toNat_ofNat_of_lt' (by unfold UInt32.size; omega)]

abbrev Elements (field : UInt32 → Option α) : List ℕ → List α → Prop :=
  List.Forall₂ fun w xu => field (UInt32.ofNat w) = some xu

/-- Some field is rejected. -/
def Rejects (field : UInt32 → Option α) (ws : List ℕ) : Prop :=
  ∃ w ∈ ws, field (UInt32.ofNat w) = none

theorem Elements.not_rejects {ws : List ℕ} {x : List α} (hx : Elements field ws x) :
    ¬Rejects field ws := by
  rintro ⟨w, hw, hnone⟩
  induction hx with
  | nil => cases hw
  | cons hsome _ ih =>
      rcases List.mem_cons.mp hw with rfl | hw
      · rw [hsome] at hnone
        cases hnone
      · exact ih hw

theorem Elements.unique {ws : List ℕ} {x x' : List α} (hx : Elements field ws x)
    (hx' : Elements field ws x') : x = x' :=
  List.right_unique_forall₂'
    (fun _ _ _ h h' => Option.some.inj (h.symm.trans h')) hx hx'

variable (field) in
/-- The inner loop takes fields until less than one is pending, or none is to come. -/
theorem takeFields_spec (hpos : 0 < bits) {ws : List ℕ} (hws : ∀ w ∈ ws, w < 2 ^ bits)
    {accLen : ℕ} (hlen : accLen < 32) {s tail : List Bool}
    (hs : bitsOf accLen acc.toNat ++ s = fieldBits bits ws ++ tail) :
    ∃ taken more, ws = taken ++ more ∧
      (Rejects field taken ∧ takeFields bits field acc ws.length accLen = none ∨
      ∃ x left, Elements field taken x ∧
        takeFields bits field acc ws.length accLen = some (x, more.length, left) ∧
        bitsOf left acc.toNat ++ s = fieldBits bits more ++ tail ∧
        left + taken.length * bits = accLen ∧ (more ≠ [] → left < bits)) := by
  induction ws generalizing accLen with
  | nil => exact ⟨[], [], rfl, .inr ⟨[], accLen, .nil, rfl, hs, by simp, fun hne => absurd rfl hne⟩⟩
  | cons w ws ih =>
      by_cases hfull : accLen ≥ bits
      · obtain ⟨hfield, hrest⟩ := field_of_bits hpos (hws w List.mem_cons_self)
          (show accLen - bits + bits < 32 by omega) (by rwa [Nat.sub_add_cancel hfull])
        obtain ⟨taken, more, rfl, hcases⟩ := ih
          (fun v hv => hws v (List.mem_cons_of_mem w hv)) (by omega) hrest
        refine ⟨w :: taken, more, rfl, ?_⟩
        rw [List.length_cons, takeFields, if_pos hfull]
        simp only [hfield]
        cases hw : field (UInt32.ofNat w) with
        | none => exact .inl ⟨⟨w, List.mem_cons_self, hw⟩, rfl⟩
        | some xu =>
            rcases hcases with ⟨⟨v, hv, hnone⟩, htake⟩ | ⟨x, left, hx, htake, hbits, hleft, hmore⟩
            · rw [htake]
              exact .inl ⟨⟨v, List.mem_cons_of_mem w hv, hnone⟩, rfl⟩
            · rw [htake]
              refine .inr ⟨xu :: x, left, .cons hw hx, rfl, hbits, ?_, hmore⟩
              rw [List.length_cons, Nat.succ_mul]
              omega
      · refine ⟨[], w :: ws, rfl, .inr ⟨[], accLen, .nil, ?_, hs, by simp, fun _ => by omega⟩⟩
        rw [List.length_cons, takeFields, if_neg hfull]

variable (field) in
/-- The decoders take the fields that the input starts with, if there are as many. -/
theorem readFields_spec (hpos : 0 < bits) (hbits : bits ≤ 24) {buf : List UInt8} {ws : List ℕ}
    (hws : ∀ w ∈ ws, w < 2 ^ bits) {accLen : ℕ} (hfew : ws ≠ [] → accLen < bits)
    (hlast : ws = [] → accLen < 8) {tail : List Bool}
    (hs : bitsOf accLen acc.toNat ++ bitsOfBytes buf = fieldBits bits ws ++ tail) :
    (Rejects field ws ∧ readFields bits field buf ws.length acc accLen = .error .rejected) ∨
      ∃ x final left rest, Elements field ws x ∧
        readFields bits field buf ws.length acc accLen = .ok (x, final, left) ∧ left < 8 ∧
        bitsOf left final.toNat ++ bitsOfBytes rest = tail := by
  induction buf generalizing ws acc accLen with
  | nil =>
      cases ws with
      | nil => exact .inr ⟨[], acc, accLen, [], .nil, rfl, hlast rfl, hs⟩
      | cons w ws =>
          -- the bits that are left do not make a field
          have hshort := hfew (List.cons_ne_nil w ws)
          have hlength := congrArg List.length hs
          rw [List.length_append, length_bitsOf, List.length_append, length_fieldBits,
            List.length_cons, Nat.succ_mul, length_bitsOfBytes, List.length_nil] at hlength
          omega
  | cons byte buf ih =>
      cases ws with
      | nil => exact .inr ⟨[], acc, accLen, byte :: buf, .nil, rfl, hlast rfl, hs⟩
      | cons w ws =>
          have hshort := hfew (List.cons_ne_nil w ws)
          have hbyte : (byte.toUInt32).toNat < 2 ^ 8 := byte.toNat_lt
          have hpush : bitsOf (accLen + 8) ((acc <<< 8) ||| byte.toUInt32).toNat = _ :=
            bitsOf_push32 acc (show accLen + 8 ≤ 32 by omega) (by decide) hbyte
          rw [bitsOfBytes_cons, ← List.append_assoc, ← UInt8.toNat_toUInt32, ← hpush] at hs
          obtain ⟨taken, more, hsplit, hcases⟩ := takeFields_spec field hpos hws
            (show accLen + 8 < 32 by omega) hs
          rw [List.length_cons] at hcases
          rw [List.length_cons, readFields]
          rcases hcases with ⟨⟨v, hv, hnone⟩, htake⟩ | ⟨x, left, hx, htake, hbits, hleft, hmore⟩
          · rw [htake, hsplit]
            exact .inl ⟨⟨v, List.mem_append_left more hv, hnone⟩, rfl⟩
          · have hwsMore : ∀ v ∈ more, v < 2 ^ bits := fun v hv =>
              hws v (hsplit ▸ List.mem_append_right taken hv)
            have hone : more = [] → left < 8 := by
              rintro rfl
              rw [List.append_nil] at hsplit
              rw [← hsplit, List.length_cons, Nat.succ_mul] at hleft
              omega
            rw [htake, hsplit]
            rcases ih hwsMore hmore hone hbits with
              ⟨⟨v, hv, hnone⟩, hread⟩ | ⟨x', final, last, rest, hx', hread, hend⟩
            · refine .inl ⟨⟨v, List.mem_append_right taken hv, hnone⟩, ?_⟩
              simp only [hread]
              rfl
            · refine .inr ⟨x ++ x', final, last, rest, List.rel_append hx hx', ?_, hend⟩
              simp only [hread]
              rfl

theorem fieldsLength_spec (bits n : ℕ) :
    n * bits ≤ 8 * fieldsLength bits n ∧ 8 * fieldsLength bits n < n * bits + 8 := by
  rw [fieldsLength, Nat.shiftRight_eq_div_pow]
  omega

variable (field) in
theorem decodeFields_cases (hpos : 0 < bits) (hbits : bits ≤ 24) {logn : ℕ} {buf : List UInt8}
    {maxInLen : ℕ} (hmax : maxInLen ≤ buf.length)
    (hlong : fieldsLength bits (2 ^ logn) ≤ maxInLen) :
    ∃ ws pad, ws.length = 2 ^ logn ∧ (∀ w ∈ ws, w < 2 ^ bits) ∧
      bitsOfBytes (buf.take (fieldsLength bits (2 ^ logn))) = fieldBits bits ws ++ pad ∧
      (Rejects field ws ∧ decodeFields bits field logn buf maxInLen = .error .rejected ∨
        ∃ x, Elements field ws x ∧ decodeFields bits field logn buf maxInLen =
          if pad = List.replicate pad.length false then .ok (x, fieldsLength bits (2 ^ logn))
          else .error .rejected) := by
  obtain ⟨hle, hlt⟩ := fieldsLength_spec bits (2 ^ logn)
  have htake : (buf.take (fieldsLength bits (2 ^ logn))).length = fieldsLength bits (2 ^ logn) := by
    rw [List.length_take]
    omega
  obtain ⟨ws, pad, hlength, hws, hpad⟩ := exists_fieldBits
    (show 2 ^ logn * bits ≤ (bitsOfBytes (buf.take (fieldsLength bits (2 ^ logn)))).length by
      rw [length_bitsOfBytes, htake]
      exact hle)
  have hpadLength := congrArg List.length hpad
  rw [length_bitsOfBytes, htake, List.length_append, length_fieldBits, hlength] at hpadLength
  have hstart : bitsOf 0 (0 : UInt32).toNat ++ bitsOfBytes buf = fieldBits bits ws ++
      (pad ++ bitsOfBytes (buf.drop (fieldsLength bits (2 ^ logn)))) := by
    rw [← List.append_assoc, ← hpad, ← bitsOfBytes_append, List.take_append_drop]
    rfl
  refine ⟨ws, pad, hlength, hws, hpad, ?_⟩
  rw [decodeFields, if_neg (by omega), ← hlength]
  rcases readFields_spec field hpos hbits hws (fun _ => hpos) (fun _ => by omega) hstart
    with ⟨hreject, hread⟩ | ⟨x, final, left, rest, hx, hread, hleft, hend⟩
  · rw [hread]
    exact .inl ⟨hreject, rfl⟩
  · -- the bits that are left are those of the last byte
    have hcount := congrArg List.length hend
    rw [List.length_append, length_bitsOf, length_bitsOfBytes, List.length_append,
      length_bitsOfBytes] at hcount
    have hsame : bitsOf left final.toNat = pad :=
      (List.append_inj hend (by rw [length_bitsOf]; omega)).1
    have hunused := and_mask_eq_zero_iff final (show left < 32 by omega)
    rw [hsame] at hunused
    refine .inr ⟨x, hx, ?_⟩
    rw [hread, show pad.length = left by rw [← hsame, length_bitsOf]]
    show testUnused _ (x, final, left) = _
    rw [testUnused]
    by_cases hzero : pad = List.replicate left false
    · rw [if_pos hzero, if_neg (not_not.mpr (hunused.mpr hzero))]
    · rw [if_neg hzero, if_pos (mt hunused.mp hzero)]

/-- A decoder accepts the fields that it accepts one by one, padded with zeros to full
bytes, and does not look at what follows. -/
theorem decodeFields_eq_ok (hpos : 0 < bits) (hbits : bits ≤ 24) {logn : ℕ} {buf : List UInt8}
    {maxInLen : ℕ} (hmax : maxInLen ≤ buf.length) {x : List α} {v : ℕ} :
    decodeFields bits field logn buf maxInLen = .ok (x, v) ↔
      v = fieldsLength bits (2 ^ logn) ∧ v ≤ maxInLen ∧
      ∃ ws k, ws.length = 2 ^ logn ∧ (∀ w ∈ ws, w < 2 ^ bits) ∧ Elements field ws x ∧
        bitsOfBytes (buf.take v) = fieldBits bits ws ++ List.replicate k false := by
  by_cases hlong : fieldsLength bits (2 ^ logn) ≤ maxInLen
  · obtain ⟨ws, pad, hlength, hws, hpad, hcases⟩ :=
      decodeFields_cases field hpos hbits hmax hlong
    constructor
    · intro hdecode
      rcases hcases with ⟨-, herror⟩ | ⟨x', hx', hresult⟩
      · rw [herror] at hdecode
        cases hdecode
      · rw [hresult] at hdecode
        split at hdecode
        · next hzero =>
            cases hdecode
            exact ⟨rfl, hlong, ws, pad.length, hlength, hws, hx', by rw [← hzero, hpad]⟩
        · cases hdecode
    · rintro ⟨rfl, -, ws', k, hlength', hws', hx, hbytes⟩
      obtain ⟨rfl, hzero⟩ := fieldBits_append_inj hws hws' (hlength.trans hlength'.symm)
        (hpad.symm.trans hbytes)
      rcases hcases with ⟨⟨w, hw, hnone⟩, -⟩ | ⟨x', hx', hresult⟩
      · exact absurd ⟨w, hw, hnone⟩ hx.not_rejects
      · obtain rfl := hx'.unique hx
        rw [hresult, if_pos (by rw [hzero, List.length_replicate])]
  · constructor
    · intro hdecode
      rw [decodeFields, if_pos (by omega)] at hdecode
      cases hdecode
    · rintro ⟨rfl, hle, -⟩
      exact absurd hle hlong

theorem decodeFields_ne_outOfBounds (hpos : 0 < bits) (hbits : bits ≤ 24) (logn : ℕ)
    {buf : List UInt8} {maxInLen : ℕ} (hmax : maxInLen ≤ buf.length) :
    decodeFields bits field logn buf maxInLen ≠ .error .outOfBounds := by
  by_cases hlong : fieldsLength bits (2 ^ logn) ≤ maxInLen
  · obtain ⟨ws, pad, -, -, -, hcases⟩ :=
      decodeFields_cases field hpos hbits hmax hlong
    rcases hcases with ⟨-, hresult⟩ | ⟨x, -, hresult⟩
    · rw [hresult]
      exact fun h => by cases h
    · rw [hresult]
      split <;> exact fun h => by cases h
  · rw [decodeFields, if_pos (by omega)]
    exact fun h => by cases h

end Reading

section Codecs

variable {α : Type} {bits : ℕ}

/-- What is done with a field inverts what is done with an element. -/
structure FieldCodec (bits : ℕ) (field : UInt32 → Option α) (valid : α → Prop)
    (word : α → UInt32) : Prop where
  pos : 0 < bits
  le_24 : bits ≤ 24
  word_lt : ∀ x, valid x → (word x).toNat < 2 ^ bits
  field_iff : ∀ w : UInt32, w.toNat < 2 ^ bits → ∀ x, field w = some x ↔ valid x ∧ word x = w

variable {field : UInt32 → Option α} {valid : α → Prop} {word : α → UInt32}

theorem FieldCodec.elements_iff (hcodec : FieldCodec bits field valid word) {ws : List ℕ}
    {x : List α} :
    ((∀ w ∈ ws, w < 2 ^ bits) ∧ Elements field ws x) ↔
      (∀ xu ∈ x, valid xu) ∧ ws = x.map fun xu => (word xu).toNat := by
  have hpow : 2 ^ bits < 2 ^ 32 := Nat.pow_lt_pow_right (by decide) (by have := hcodec.le_24; omega)
  have hword : ∀ w < 2 ^ bits, (UInt32.ofNat w).toNat = w := fun w hw =>
    UInt32.toNat_ofNat_of_lt' (by unfold UInt32.size; omega)
  constructor
  · rintro ⟨hws, hx⟩
    induction hx with
    | nil => exact ⟨by simp, rfl⟩
    | @cons w xu ws x hsome _ ih =>
        obtain ⟨hvalid, hsame⟩ := ih fun v hv => hws v (List.mem_cons_of_mem w hv)
        have hw := hws w List.mem_cons_self
        obtain ⟨hxu, heq⟩ := (hcodec.field_iff _ (by rwa [hword w hw]) xu).mp hsome
        refine ⟨fun y hy => ?_, ?_⟩
        · rcases List.mem_cons.mp hy with rfl | hy
          · exact hxu
          · exact hvalid y hy
        · rw [List.map_cons, ← hsame, heq, hword w hw]
  · rintro ⟨hvalid, rfl⟩
    induction x with
    | nil => exact ⟨by simp, .nil⟩
    | cons xu x ih =>
        obtain ⟨hws, hx⟩ := ih fun y hy => hvalid y (List.mem_cons_of_mem xu hy)
        have hxu := hvalid xu List.mem_cons_self
        have hlt := hcodec.word_lt xu hxu
        refine ⟨fun w hw => ?_, .cons ?_ hx⟩
        · rcases List.mem_cons.mp hw with rfl | hw
          · exact hlt
          · exact hws w hw
        · rw [UInt32.ofNat_toNat]
          exact (hcodec.field_iff _ hlt xu).mpr ⟨hxu, rfl⟩

/-- A decoder accepts just what its encoder stores, and returns the elements that it has
stored. -/
theorem FieldCodec.decodeFields_iff (hcodec : FieldCodec bits field valid word) {logn : ℕ}
    {buf : List UInt8} {maxInLen : ℕ} (hmax : maxInLen ≤ buf.length) {x : List α} {v : ℕ} :
    decodeFields bits field logn buf maxInLen = .ok (x, v) ↔
      x.length = 2 ^ logn ∧ (∀ xu ∈ x, valid xu) ∧ v = fieldsLength bits (2 ^ logn) ∧
        v ≤ maxInLen ∧ packFields bits (x.map word) = buf.take v := by
  have hpack : (∀ xu ∈ x, valid xu) → ∃ k < 8, bitsOfBytes (packFields bits (x.map word)) =
      fieldBits bits (x.map fun xu => (word xu).toNat) ++ List.replicate k false := by
    intro hvalid
    have hwords : ∀ w ∈ x.map word, w.toNat < 2 ^ bits := by
      intro w hw
      obtain ⟨xu, hxu, rfl⟩ := List.mem_map.mp hw
      exact hcodec.word_lt xu (hvalid xu hxu)
    have hbits := packFields_bits hcodec.le_24 hwords
    rwa [List.map_map] at hbits
  rw [decodeFields_eq_ok hcodec.pos hcodec.le_24 hmax]
  constructor
  · rintro ⟨hv, hle, ws, k, hlength, hws, hx, hbytes⟩
    obtain ⟨hvalid, rfl⟩ := hcodec.elements_iff.mp ⟨hws, hx⟩
    rw [List.length_map] at hlength
    refine ⟨hlength, hvalid, hv, hle, bitsOfBytes_injective ?_⟩
    obtain ⟨k', hk', hpacked⟩ := hpack hvalid
    -- both are padded to full bytes
    have hsize := fieldsLength_spec bits (2 ^ logn)
    have hcount := congrArg List.length hbytes
    have hcount' := congrArg List.length hpacked
    rw [length_bitsOfBytes, List.length_take, Nat.min_eq_left (hle.trans hmax), List.length_append,
      length_fieldBits, List.length_map, List.length_replicate, hlength] at hcount
    rw [length_bitsOfBytes, List.length_append, length_fieldBits, List.length_map,
      List.length_replicate, hlength] at hcount'
    rw [hpacked, hbytes, show k' = k by omega]
  · rintro ⟨hlength, hvalid, hv, hle, hpacked⟩
    obtain ⟨hws, hx⟩ := hcodec.elements_iff.mpr ⟨hvalid, rfl⟩
    obtain ⟨k, -, hbytes⟩ := hpack hvalid
    rw [hpacked] at hbytes
    exact ⟨hv, hle, _, k, by rw [List.length_map, hlength], hws, hx, hbytes⟩

end Codecs

section SignExtension

variable {i : ℕ} {w : UInt32}

/-- `mask2`, with its bit `i` set. -/
def signMask (i : ℕ) : UInt32 := 1 <<< UInt32.ofNat i

theorem toNat_signMask (hi : i < 32) : (signMask i).toNat = 2 ^ i := by
  rw [signMask, UInt32.toNat_shiftLeft, UInt32.toNat_ofNat_of_lt' (by unfold UInt32.size; omega),
    Nat.mod_eq_of_lt hi, UInt32.toNat_one, Nat.shiftLeft_eq, one_mul]
  exact Nat.mod_eq_of_lt (Nat.pow_lt_pow_right (by decide) hi)

theorem toNat_neg_signMask (hi : i < 32) : (-signMask i).toNat = 2 ^ 32 - 2 ^ i := by
  have hpow : 2 ^ i < 2 ^ 32 := Nat.pow_lt_pow_right (by decide) hi
  have hpos := Nat.two_pow_pos i
  rw [UInt32.toNat_neg, toNat_signMask hi]
  exact Nat.mod_eq_of_lt (show 2 ^ 32 - 2 ^ i < 2 ^ 32 by omega)

theorem testBit_top {n : ℕ} (hn : n < 2 ^ (i + 1)) : n.testBit i = decide (2 ^ i ≤ n) := by
  rw [pow_succ] at hn
  have hpos := Nat.two_pow_pos i
  rw [Nat.testBit_eq_decide_div_mod_eq]
  by_cases hle : 2 ^ i ≤ n
  · have hone : n / 2 ^ i = 1 := by
      apply Nat.div_eq_of_lt_le <;> omega
    simp [hle, hone]
  · simp [hle, Nat.div_eq_of_lt (Nat.lt_of_not_le hle)]

theorem and_signMask (hi : i < 32) (hw : w.toNat < 2 ^ (i + 1)) :
    w &&& signMask i = if w.toNat < 2 ^ i then 0 else signMask i := by
  apply UInt32.toNat_inj.mp
  rw [UInt32.toNat_and, toNat_signMask hi, Nat.and_two_pow, testBit_top hw]
  by_cases hle : 2 ^ i ≤ w.toNat
  · rw [if_neg (by omega), toNat_signMask hi, decide_eq_true hle, Bool.toNat_true, one_mul]
  · rw [if_pos (by omega), UInt32.toNat_zero, decide_eq_false hle, Bool.toNat_false, zero_mul]

theorem toNat_or_neg_signMask (hi : i < 31) (hlow : 2 ^ i ≤ w.toNat) (hw : w.toNat < 2 ^ (i + 1)) :
    (w ||| -signMask i).toNat = 2 ^ 32 - 2 ^ (i + 1) + w.toNat := by
  have hpow : 2 ^ (i + 1) ≤ 2 ^ 32 := Nat.pow_le_pow_right (by decide) (by omega)
  have hpow' : 2 ^ i ≤ 2 ^ 32 := Nat.pow_le_pow_right (by decide) (by omega)
  have hpos := Nat.two_pow_pos i
  have hone := Nat.two_pow_pos (i + 1)
  rw [UInt32.toNat_or, toNat_neg_signMask (by omega),
    show 2 ^ 32 - 2 ^ i = 2 ^ 32 - (2 ^ i - 1 + 1) by omega,
    show 2 ^ 32 - 2 ^ (i + 1) + w.toNat = 2 ^ 32 - (2 ^ (i + 1) - (w.toNat + 1) + 1) by omega]
  apply Nat.eq_of_testBit_eq
  intro k
  rw [Nat.testBit_or, Nat.testBit_two_pow_sub_succ (x := 2 ^ i - 1) (by omega),
    Nat.testBit_two_pow_sub_succ (x := 2 ^ (i + 1) - (w.toNat + 1)) (by omega),
    Nat.testBit_two_pow_sub_succ hw, Nat.testBit_two_pow_sub_one]
  have htop : w.toNat.testBit i = true := by rw [testBit_top hw, decide_eq_true hlow]
  have hhigh : i + 1 ≤ k → w.toNat.testBit k = false := fun hk =>
    Nat.testBit_lt_two_pow (hw.trans_le (Nat.pow_le_pow_right (by decide) hk))
  rcases lt_trichotomy k i with hk | rfl | hk
  · simp [show k < 32 by omega, show k < i + 1 by omega, hk]
  · simp [htop, show k < 32 by omega]
  · simp [hhigh (by omega), show ¬k < i by omega, show ¬k < i + 1 by omega]

/-- `w |= -(w & mask2)`. -/
def signExtend (i : ℕ) (w : UInt32) : UInt32 := w ||| -(w &&& signMask i)

theorem signExtend_of_lt (hi : i < 32) (hw : w.toNat < 2 ^ i) : signExtend i w = w := by
  have hzero : w &&& signMask i = 0 := by
    rw [and_signMask hi (hw.trans (Nat.pow_lt_pow_right (by decide) (Nat.lt_succ_self i))),
      if_pos hw]
  rw [signExtend, hzero, UInt32.neg_zero, UInt32.or_zero]

theorem signExtend_of_le (hi : i < 32) (hlow : 2 ^ i ≤ w.toNat) (hw : w.toNat < 2 ^ (i + 1)) :
    signExtend i w = w ||| -signMask i := by
  rw [signExtend, and_signMask hi hw, if_neg (by omega)]

/-- The second extension of `trim_i16_decode` changes nothing. -/
theorem signExtend_signExtend (hi : i < 31) (hw : w.toNat < 2 ^ (i + 1)) :
    signExtend i (signExtend i w) = signExtend i w := by
  by_cases hlow : w.toNat < 2 ^ i
  · rw [signExtend_of_lt (by omega) hlow, signExtend_of_lt (by omega) hlow]
  · have hagain : (w ||| -signMask i) &&& signMask i = signMask i := by
      apply UInt32.toNat_inj.mp
      rw [UInt32.toNat_and, toNat_signMask (by omega), Nat.and_two_pow, UInt32.toNat_or,
        Nat.testBit_or, testBit_top hw, decide_eq_true (by omega), Bool.true_or, Bool.toNat_true,
        one_mul]
    rw [signExtend_of_le (by omega) (by omega) hw, signExtend, hagain, UInt32.or_assoc,
      UInt32.or_self]

theorem toInt_signExtend (hi : i < 31) (hw : w.toNat < 2 ^ (i + 1)) :
    (signExtend i w).toInt32.toInt =
      if w.toNat < 2 ^ i then (w.toNat : ℤ) else w.toNat - (2 ^ (i + 1) : ℕ) := by
  have hpow : 2 ^ (i + 1) ≤ 2 ^ 31 := Nat.pow_le_pow_right (by decide) (by omega)
  have hdouble : 2 ^ (i + 1) = 2 * 2 ^ i := pow_succ' 2 i
  have hint : ∀ x : UInt32, x.toInt32.toInt =
      if 2 * x.toNat < 2 ^ 32 then (x.toNat : ℤ) else (x.toNat : ℤ) - (2 ^ 32 : ℕ) := fun x =>
    BitVec.toInt_eq_toNat_cond x.toBitVec
  by_cases hlow : w.toNat < 2 ^ i
  · rw [signExtend_of_lt (by omega) hlow, hint, if_pos (by omega), if_pos hlow]
  · rw [signExtend_of_le (by omega) (by omega) hw, hint,
      toNat_or_neg_signMask hi (by omega) hw, if_neg (by omega), if_neg hlow]
    omega

theorem signExtend_eq_iff (hi : i < 31) (hw : w.toNat < 2 ^ (i + 1)) :
    signExtend i w = -signMask i ↔ w.toNat = 2 ^ i := by
  have hpow : 2 ^ (i + 1) ≤ 2 ^ 31 := Nat.pow_le_pow_right (by decide) (by omega)
  have hdouble : 2 ^ (i + 1) = 2 * 2 ^ i := pow_succ' 2 i
  have hpos := Nat.two_pow_pos i
  rw [← UInt32.toNat_inj, toNat_neg_signMask (by omega)]
  by_cases hlow : w.toNat < 2 ^ i
  · rw [signExtend_of_lt (by omega) hlow]
    omega
  · rw [signExtend_of_le (by omega) (by omega) hw, toNat_or_neg_signMask hi (by omega) hw]
    omega

end SignExtension

section Trim

variable {α : Type} {bits width : ℕ} {value : α → ℤ} {word : α → UInt32} {narrow : Int32 → α}

/-- The conversions of a signed type of `width` bits. -/
structure SmallInts (width : ℕ) (value : α → ℤ) (word : α → UInt32) (narrow : Int32 → α) :
    Prop where
  width_le : width ≤ 16
  value_injective : Function.Injective value
  word_spec : ∀ x, ((word x).toNat : ℤ) = value x % (2 ^ width : ℕ)
  value_narrow : ∀ t : Int32, |t.toInt| < (2 ^ (width - 1) : ℕ) → value (narrow t) = t.toInt

theorem smallInts_int16 :
    SmallInts 16 Int16.toInt (fun xu => xu.toUInt16.toUInt32) Int32.toInt16 where
  width_le := le_rfl
  value_injective _ _ := Int16.toInt_inj.mp
  word_spec x := by
    have hcond : x.toInt = if 2 * x.toUInt16.toNat < 2 ^ 16 then (x.toUInt16.toNat : ℤ)
        else (x.toUInt16.toNat : ℤ) - (2 ^ 16 : ℕ) := BitVec.toInt_eq_toNat_cond x.toBitVec
    have hlt := x.toUInt16.toNat_lt
    rw [UInt16.toNat_toUInt32]
    split at hcond <;> omega
  value_narrow t ht := by
    obtain ⟨hlow, hhigh⟩ := abs_lt.mp ht
    rw [Int32.toInt_toInt16]
    exact Int.bmod_eq_of_le (by omega) (by omega)

theorem smallInts_int8 :
    SmallInts 8 Int8.toInt (fun xu => xu.toUInt8.toUInt32) Int32.toInt8 where
  width_le := by decide
  value_injective _ _ := Int8.toInt_inj.mp
  word_spec x := by
    have hcond : x.toInt = if 2 * x.toUInt8.toNat < 2 ^ 8 then (x.toUInt8.toNat : ℤ)
        else (x.toUInt8.toNat : ℤ) - (2 ^ 8 : ℕ) := BitVec.toInt_eq_toNat_cond x.toBitVec
    have hlt := x.toUInt8.toNat_lt
    rw [UInt8.toNat_toUInt32]
    split at hcond <;> omega
  value_narrow t ht := by
    obtain ⟨hlow, hhigh⟩ := abs_lt.mp ht
    rw [Int32.toInt_toInt8]
    exact Int.bmod_eq_of_le (by omega) (by omega)

/-- A field that is sign-extended once, where `narrow` is the cast to the type of the
elements. -/
def trimField (narrow : Int32 → α) (i : ℕ) (w : UInt32) : Option α :=
  if signExtend i w = -signMask i then none else some (narrow (signExtend i w).toInt32)

theorem trimI8Field_eq (i : ℕ) (w : UInt32) :
    trimI8Field (i + 1) w = trimField Int32.toInt8 i w := rfl

theorem trimI16Field_eq {i : ℕ} (hi : i < 16) {w : UInt32} (hw : w.toNat < 2 ^ (i + 1)) :
    trimI16Field (i + 1) w = trimField Int32.toInt16 i w := by
  have htwice : trimI16Field (i + 1) w = if signExtend i w = -signMask i then none
      else some (signExtend i (signExtend i w)).toInt32.toInt16 := rfl
  rw [htwice, signExtend_signExtend (by omega) hw]
  rfl

/-- The value of a field, modulo the number of the fields. -/
theorem signed_emod {m n : ℕ} {w : ℕ} (hw : w < n) :
    (if w < m then (w : ℤ) else (w : ℤ) - n) % n = w := by
  split
  · exact Int.emod_eq_of_lt (by omega) (by omega)
  · rw [Int.sub_emod_right]
    exact Int.emod_eq_of_lt (by omega) (by omega)

theorem signed_of_emod {m w : ℕ} {t : ℤ} (ht : |t| < m) (hw : (w : ℤ) = t % (2 * m : ℕ)) :
    w ≠ m ∧ (if w < m then (w : ℤ) else w - (2 * m : ℕ)) = t := by
  obtain ⟨hlow, hhigh⟩ := abs_lt.mp ht
  rcases le_or_gt 0 t with hpos | hneg
  · rw [Int.emod_eq_of_lt hpos (by omega)] at hw
    exact ⟨by omega, by rw [if_pos (by omega), hw]⟩
  · rw [← Int.add_emod_right, Int.emod_eq_of_lt (by omega) (by omega)] at hw
    exact ⟨by omega, by rw [if_neg (by omega)]; omega⟩

theorem fieldCodec_trim (hints : SmallInts width value word narrow) {i : ℕ} (hi : i < width)
    {field : UInt32 → Option α}
    (hfield : ∀ w : UInt32, w.toNat < 2 ^ (i + 1) → field w = trimField narrow i w) :
    FieldCodec (i + 1) field (fun x => |value x| < (2 ^ i : ℕ))
      fun x => word x &&& ((1 <<< UInt32.ofNat (i + 1)) - 1) := by
  have hwidth := hints.width_le
  have hpow : 2 ^ (i + 1) = 2 * 2 ^ i := pow_succ' 2 i
  have hle : 2 ^ i ≤ 2 ^ (width - 1) := Nat.pow_le_pow_right (by decide) (by omega)
  have hdvd : ((2 ^ (i + 1) : ℕ) : ℤ) ∣ (2 ^ width : ℕ) := by
    exact_mod_cast Nat.pow_dvd_pow 2 (by omega)
  have hword : ∀ x, (word x &&& ((1 <<< UInt32.ofNat (i + 1)) - 1)).toNat =
      value x % (2 ^ (i + 1) : ℕ) := by
    intro x
    rw [toNat_and_mask _ (by omega), Int.natCast_mod, hints.word_spec, Int.emod_emod_of_dvd _ hdvd]
  refine ⟨by omega, by omega, fun x _ => ?_, fun w hw x => ?_⟩
  · rw [toNat_and_mask _ (by omega)]
    exact Nat.mod_lt _ (Nat.two_pow_pos _)
  · have hvalue := toInt_signExtend (show i < 31 by omega) hw
    rw [hfield w hw, trimField, if_congr (signExtend_eq_iff (show i < 31 by omega) hw) rfl rfl]
    constructor
    · intro hsome
      split at hsome
      · cases hsome
      · next hne =>
          obtain rfl := Option.some.inj hsome
          have hsmall : |(signExtend i w).toInt32.toInt| < (2 ^ i : ℕ) := by
            rw [hvalue, abs_lt]
            split <;> omega
          have hnarrow := hints.value_narrow _ (hsmall.trans_le (by exact_mod_cast hle))
          refine ⟨by rwa [hnarrow], ?_⟩
          apply UInt32.toNat_inj.mp
          have hmod := hword (narrow (signExtend i w).toInt32)
          rw [hnarrow, hvalue, signed_emod hw] at hmod
          exact_mod_cast hmod
    · rintro ⟨hvalid, rfl⟩
      have hmod := hword x
      rw [hpow] at hmod hvalue
      obtain ⟨hne, hsame⟩ := signed_of_emod hvalid hmod
      rw [if_neg hne, Option.some.injEq]
      apply hints.value_injective
      rw [hsame] at hvalue
      rw [hints.value_narrow _ (by rw [hvalue]; exact hvalid.trans_le (by exact_mod_cast hle)),
        hvalue]

theorem any_out_of_trim {i : ℕ} (x : List α) :
    (x.any fun xu => value xu < -(2 ^ i - 1) || value xu > 2 ^ i - 1) = false ↔
      ∀ xu ∈ x, |value xu| < (2 ^ i : ℕ) := by
  rw [List.any_eq_false]
  refine forall₂_congr fun xu _ => ?_
  rw [abs_lt, Bool.or_eq_true, decide_eq_true_iff, decide_eq_true_iff, not_or]
  push_cast
  constructor
  · rintro ⟨hlow, hhigh⟩
    omega
  · rintro ⟨hlow, hhigh⟩
    omega

/-- What the encoders store, if all elements are in range and the buffer has room. -/
theorem trimEncode_eq_some_iff {i maxOutLen : ℕ} {x : List α} {bytes : List UInt8} :
    trimEncode value word maxOutLen x (i + 1) = some bytes ↔
      (∀ xu ∈ x, |value xu| < (2 ^ i : ℕ)) ∧ fieldsLength (i + 1) x.length ≤ maxOutLen ∧
        packFields (i + 1) (x.map fun xu => word xu &&& ((1 <<< UInt32.ofNat (i + 1)) - 1)) =
          bytes := by
  rw [trimEncode, Nat.add_sub_cancel, ← any_out_of_trim x]
  split
  · next hany =>
      rw [hany]
      exact iff_of_false (fun h => by cases h) fun h => by cases h.1
  · next hany =>
      rw [Bool.not_eq_true] at hany
      rw [and_iff_right hany]
      split
      · next hroom => exact iff_of_false (fun h => by cases h) fun h => by omega
      · next hroom => rw [Option.some.injEq, and_iff_right (Nat.le_of_not_lt hroom)]

/-- `trim_i16_decode` and `trim_i8_decode` accept just what the encoders store, and use no
more than that of the input. -/
theorem trimDecode_iff (hints : SmallInts width value word narrow) (hpos : 1 ≤ bits)
    (hbits : bits ≤ width) {field : UInt32 → Option α}
    (hfield : ∀ w : UInt32, w.toNat < 2 ^ bits → field w = trimField narrow (bits - 1) w)
    {logn : ℕ} {buf : List UInt8} {maxInLen : ℕ} (hmax : maxInLen ≤ buf.length) {x : List α}
    {v : ℕ} :
    decodeFields bits field logn buf maxInLen = .ok (x, v) ↔
      x.length = 2 ^ logn ∧ v = fieldsLength bits (2 ^ logn) ∧
        trimEncode value word maxInLen x bits = some (buf.take v) := by
  obtain ⟨i, rfl⟩ : ∃ i, bits = i + 1 := ⟨bits - 1, by omega⟩
  rw [(fieldCodec_trim hints (by omega) hfield).decodeFields_iff hmax, trimEncode_eq_some_iff]
  constructor
  · rintro ⟨hlength, hvalid, hv, hle, hpack⟩
    exact ⟨hlength, hv, hvalid, by rw [hlength]; omega, hpack⟩
  · rintro ⟨hlength, hv, hvalid, hroom, hpack⟩
    rw [hlength] at hroom
    exact ⟨hlength, hvalid, hv, by omega, hpack⟩

theorem length_trimEncode (hints : SmallInts width value word narrow) (hpos : 1 ≤ bits)
    (hbits : bits ≤ width) {maxOutLen : ℕ} {x : List α} {bytes : List UInt8}
    (hencode : trimEncode value word maxOutLen x bits = some bytes) :
    bytes.length = fieldsLength bits x.length := by
  obtain ⟨i, rfl⟩ : ∃ i, bits = i + 1 := ⟨bits - 1, by omega⟩
  have hwidth := hints.width_le
  obtain ⟨-, -, rfl⟩ := trimEncode_eq_some_iff.mp hencode
  rw [length_packFields (by omega), List.length_map]
  intro w hw
  obtain ⟨xu, -, rfl⟩ := List.mem_map.mp hw
  rw [toNat_and_mask _ (by omega)]
  exact Nat.mod_lt _ (Nat.two_pow_pos _)

theorem trimI16Decode_eq_ok_iff (hpos : 1 ≤ bits) (hbits : bits ≤ 16) {logn : ℕ}
    {buf : List UInt8} {maxInLen : ℕ} (hmax : maxInLen ≤ buf.length) {x : List Int16} {v : ℕ} :
    trimI16Decode logn bits buf maxInLen = .ok (x, v) ↔
      x.length = 2 ^ logn ∧ v = fieldsLength bits (2 ^ logn) ∧
        trimI16Encode maxInLen x bits = some (buf.take v) := by
  obtain ⟨i, rfl⟩ : ∃ i, bits = i + 1 := ⟨bits - 1, by omega⟩
  exact trimDecode_iff smallInts_int16 hpos hbits (fun _ hw => trimI16Field_eq (by omega) hw) hmax

/-- `trim_i16_decode` accepts just what `trim_i16_encode` stores, and does not read past its
input. -/
theorem trimI16Decode_iff (hpos : 1 ≤ bits) (hbits : bits ≤ 16) (logn : ℕ) {buf : List UInt8}
    {maxInLen : ℕ} (hmax : maxInLen ≤ buf.length) :
    (∀ x v, trimI16Decode logn bits buf maxInLen = .ok (x, v) ↔
      x.length = 2 ^ logn ∧ v = fieldsLength bits (2 ^ logn) ∧
        trimI16Encode maxInLen x bits = some (buf.take v)) ∧
    trimI16Decode logn bits buf maxInLen ≠ .error .outOfBounds :=
  ⟨fun _ _ => trimI16Decode_eq_ok_iff hpos hbits hmax,
    decodeFields_ne_outOfBounds hpos (by omega) logn hmax⟩

/-- `-2 ^ 11` is refused. -/
theorem trimI16Decode_iff_refused :
    trimI16Decode 1 12 [0x80, 0, 0] 3 ≠ .ok ([-2048, 0], 3) := by
  have hspec := trimI16Decode_iff (show 1 ≤ 12 by decide) (by decide) 1
    (show 3 ≤ ([0x80, 0, 0] : List UInt8).length by decide)
  intro hdecode
  obtain ⟨-, -, hencode⟩ := (hspec.1 _ _).mp hdecode
  exact absurd hencode (by decide)

/-- `trim_i8_decode` accepts just what `trim_i8_encode` stores. -/
theorem trimI8Decode_iff (hpos : 1 ≤ bits) (hbits : bits ≤ 8) (logn : ℕ) {buf : List UInt8}
    {maxInLen : ℕ} (hmax : maxInLen ≤ buf.length) {x : List Int8} {v : ℕ} :
    trimI8Decode logn bits buf maxInLen = .ok (x, v) ↔
      x.length = 2 ^ logn ∧ v = fieldsLength bits (2 ^ logn) ∧
        trimI8Encode maxInLen x bits = some (buf.take v) := by
  obtain ⟨i, rfl⟩ : ∃ i, bits = i + 1 := ⟨bits - 1, by omega⟩
  exact trimDecode_iff smallInts_int8 hpos hbits (fun w _ => trimI8Field_eq i w) hmax

end Trim

section Modq

/-- The range check of `modq_decode`. -/
def modqField (w : UInt32) : Option UInt16 := if w ≥ 12289 then none else some w.toUInt16

theorem readModq_eq (buf : List UInt8) (n : ℕ) (acc : UInt32) {accLen : ℕ} (hlen : accLen < 14) :
    readModq buf n acc accLen = readFields 14 modqField buf n acc accLen := by
  induction buf generalizing n acc accLen with
  | nil => cases n <;> rfl
  | cons byte buf ih =>
      cases n with
      | zero => rfl
      | succ n =>
          rw [readModq, readFields, takeFields]
          by_cases hfull : accLen + 8 ≥ 14
          · have hone : ∀ acc, takeFields 14 modqField acc n (accLen + 8 - 14) =
                some ([], n, accLen + 8 - 14) := by
              intro acc
              cases n with
              | zero => rfl
              | succ n => rw [takeFields, if_neg (by omega)]
            have hmask : (1 <<< UInt32.ofNat 14 - 1 : UInt32) = 0x3FFF := by decide
            rw [if_pos hfull, if_pos hfull]
            simp only [hone, hmask, modqField, ih n _ (show accLen + 8 - 14 < 14 by omega)]
            split <;> rfl
          · rw [if_neg hfull, if_neg hfull, ih (n + 1) _ (by omega)]
            simp only [List.nil_append]
            cases readFields 14 modqField buf (n + 1) (acc <<< 8 ||| byte.toUInt32) (accLen + 8) <;>
              rfl

theorem fieldCodec_modq :
    FieldCodec 14 modqField (fun x => x < 12289) UInt16.toUInt32 := by
  refine ⟨by decide, by decide, fun x hx => ?_, fun w hw x => ?_⟩
  · have hlt : x.toNat < 12289 := UInt16.lt_iff_toNat_lt.mp hx
    rw [UInt16.toNat_toUInt32]
    exact hlt.trans (by decide)
  · have hlt : x < 12289 ↔ x.toNat < 12289 := UInt16.lt_iff_toNat_lt
    have hge : w ≥ 12289 ↔ 12289 ≤ w.toNat := UInt32.le_iff_toNat_le
    rw [modqField, hlt]
    constructor
    · intro hfield
      split at hfield
      · cases hfield
      · next hsmall =>
          obtain rfl := Option.some.inj hfield
          rw [hge] at hsmall
          have hword := toUInt32_toUInt16 (show Reduced w by unfold Reduced; omega)
          rw [hword, ← UInt16.toNat_toUInt32, hword]
          exact ⟨by omega, rfl⟩
    · rintro ⟨hsmall, rfl⟩
      rw [if_neg (by rw [hge, UInt16.toNat_toUInt32]; omega), UInt16.toUInt16_toUInt32]

theorem modqDecode_eq (logn : ℕ) (buf : List UInt8) (maxInLen : ℕ) :
    modqDecode logn buf maxInLen = decodeFields 14 modqField logn buf maxInLen := by
  rw [modqDecode, decodeFields, readModq_eq buf _ _ (by decide)]

theorem modqEncode_eq_some_iff {maxOutLen : ℕ} {x : List UInt16} {bytes : List UInt8} :
    modqEncode maxOutLen x = some bytes ↔
      (∀ xu ∈ x, xu < 12289) ∧ fieldsLength 14 x.length ≤ maxOutLen ∧
        packFields 14 (x.map UInt16.toUInt32) = bytes := by
  have hany : (x.any fun xu => xu ≥ 12289) = false ↔ ∀ xu ∈ x, xu < 12289 := by
    simp [List.any_eq_false]
  rw [modqEncode, ← hany]
  split
  · next hsome =>
      rw [hsome]
      exact iff_of_false (fun h => by cases h) fun h => by cases h.1
  · next hnone =>
      rw [Bool.not_eq_true] at hnone
      rw [and_iff_right hnone]
      split
      · next hroom => exact iff_of_false (fun h => by cases h) fun h => by omega
      · next hroom => rw [Option.some.injEq, and_iff_right (Nat.le_of_not_lt hroom)]

theorem length_modqEncode {maxOutLen : ℕ} {x : List UInt16} {bytes : List UInt8}
    (hencode : modqEncode maxOutLen x = some bytes) : bytes.length = fieldsLength 14 x.length := by
  obtain ⟨hvalid, -, rfl⟩ := modqEncode_eq_some_iff.mp hencode
  rw [length_packFields (by decide), List.length_map]
  intro w hw
  obtain ⟨xu, hxu, rfl⟩ := List.mem_map.mp hw
  exact fieldCodec_modq.word_lt xu (hvalid xu hxu)

theorem modqDecode_eq_ok_iff (logn : ℕ) {buf : List UInt8} {maxInLen : ℕ}
    (hmax : maxInLen ≤ buf.length) {x : List UInt16} {v : ℕ} :
    modqDecode logn buf maxInLen = .ok (x, v) ↔
      x.length = 2 ^ logn ∧ v = fieldsLength 14 (2 ^ logn) ∧
        modqEncode maxInLen x = some (buf.take v) := by
  rw [modqDecode_eq, fieldCodec_modq.decodeFields_iff hmax, modqEncode_eq_some_iff]
  constructor
  · rintro ⟨hlength, hvalid, hv, hle, hpack⟩
    exact ⟨hlength, hv, hvalid, by rw [hlength]; omega, hpack⟩
  · rintro ⟨hlength, hv, hvalid, hroom, hpack⟩
    rw [hlength] at hroom
    exact ⟨hlength, hvalid, hv, by omega, hpack⟩

/-- `modq_decode` accepts just what `modq_encode` stores, and does not read past its input. -/
theorem modqDecode_iff (logn : ℕ) {buf : List UInt8} {maxInLen : ℕ}
    (hmax : maxInLen ≤ buf.length) :
    (∀ x v, modqDecode logn buf maxInLen = .ok (x, v) ↔
      x.length = 2 ^ logn ∧ v = fieldsLength 14 (2 ^ logn) ∧
        modqEncode maxInLen x = some (buf.take v)) ∧
    modqDecode logn buf maxInLen ≠ .error .outOfBounds := by
  refine ⟨fun _ _ => modqDecode_eq_ok_iff logn hmax, ?_⟩
  rw [modqDecode_eq]
  exact decodeFields_ne_outOfBounds (by decide) (by decide) logn hmax

/-- `q` is refused. -/
theorem modqDecode_iff_refused :
    modqDecode 1 [0xC0, 0x04, 0, 0] 4 ≠ .ok ([12289, 0], 4) := by
  have hspec := modqDecode_iff 1 (show 4 ≤ ([0xC0, 0x04, 0, 0] : List UInt8).length by decide)
  intro hdecode
  obtain ⟨-, -, hencode⟩ := (hspec.1 _ _).mp hdecode
  exact absurd hencode (by decide)

end Modq

end Soko.FnDsa
