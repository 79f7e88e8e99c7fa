import Mathlib.Data.List.Basic
import Mathlib.Data.Nat.Bitwise

/-!
Bit strings, the highest bit first. `bitsOf k x` are the low `k` bits of `x`; they
split and join as shifts do, which is what a bit packer with an accumulator
relies on (`bitsOf_add`, `bitsOf_push32`). `fieldBits` are the bits of fields of one width.
-/

namespace Soko.Library

def bitsOf : ℕ → ℕ → List Bool
  | 0, _ => []
  | k + 1, x => x.testBit k :: bitsOf k x

def ofBits : List Bool → ℕ
  | [] => 0
  | b :: bits => b.toNat * 2 ^ bits.length + ofBits bits

def bitsOfBytes (bytes : List UInt8) : List Bool := bytes.flatMap fun byte => bitsOf 8 byte.toNat

def unaryBits (k : ℕ) : List Bool := List.replicate k false ++ [true]

@[simp] theorem length_bitsOf (k x : ℕ) : (bitsOf k x).length = k := by
  induction k with
  | zero => rfl
  | succ k ih => rw [bitsOf, List.length_cons, ih]

theorem bitsOf_congr {k x y : ℕ} (hxy : ∀ i < k, x.testBit i = y.testBit i) :
    bitsOf k x = bitsOf k y := by
  induction k with
  | zero => rfl
  | succ k ih =>
      rw [bitsOf, bitsOf, hxy k (Nat.lt_succ_self k), ih fun i hi => hxy i (by omega)]

theorem bitsOf_mod (k x : ℕ) : bitsOf k (x % 2 ^ k) = bitsOf k x := by
  refine bitsOf_congr fun i hi => ?_
  rw [Nat.testBit_mod_two_pow, decide_eq_true hi, Bool.true_and]

theorem bitsOf_add (k l x : ℕ) : bitsOf (k + l) x = bitsOf k (x >>> l) ++ bitsOf l x := by
  induction k with
  | zero => rw [Nat.zero_add]; rfl
  | succ k ih =>
      rw [Nat.add_right_comm, bitsOf, ih, bitsOf, Nat.testBit_shiftRight, Nat.add_comm l k]
      rfl

@[simp] theorem bitsOf_zero (k : ℕ) : bitsOf k 0 = List.replicate k false := by
  induction k with
  | zero => rfl
  | succ k ih => rw [bitsOf, ih, Nat.zero_testBit, List.replicate_succ]

theorem bitsOf_one (k : ℕ) : bitsOf (k + 1) 1 = unaryBits k := by
  rw [bitsOf_add, unaryBits, ← bitsOf_zero]
  rfl

@[simp] theorem ofBits_bitsOf (k x : ℕ) : ofBits (bitsOf k x) = x % 2 ^ k := by
  induction k with
  | zero => rw [pow_zero, Nat.mod_one]; rfl
  | succ k ih =>
      rw [bitsOf, ofBits, ih, length_bitsOf, Nat.toNat_testBit, Nat.mod_pow_succ, Nat.add_comm,
        Nat.mul_comm]

theorem ofBits_lt (bits : List Bool) : ofBits bits < 2 ^ bits.length := by
  induction bits with
  | nil => exact Nat.one_pos
  | cons b bits ih =>
      rw [ofBits, List.length_cons, pow_succ]
      have hle : b.toNat * 2 ^ bits.length ≤ 1 * 2 ^ bits.length :=
        Nat.mul_le_mul_right _ b.toNat_le
      omega

@[simp] theorem bitsOf_ofBits (bits : List Bool) : bitsOf bits.length (ofBits bits) = bits := by
  induction bits with
  | nil => rfl
  | cons b bits ih =>
      have hlt := ofBits_lt bits
      have hbit : ∀ i, (b.toNat * 2 ^ bits.length + ofBits bits).testBit i =
          if i < bits.length then (ofBits bits).testBit i
          else b.toNat.testBit (i - bits.length) := by
        intro i
        rw [Nat.mul_comm, Nat.testBit_two_pow_mul_add _ hlt]
      rw [List.length_cons, bitsOf, ofBits, hbit, if_neg (Nat.lt_irrefl _), Nat.sub_self]
      congr 1
      · cases b <;> rfl
      · refine (bitsOf_congr fun i hi => ?_).trans ih
        rw [hbit, if_pos hi]

/-- What an accumulator holds after some bits are pushed into it. -/
theorem bitsOf_push32 (acc : UInt32) {v : UInt32} {k l : ℕ} (hkl : k + l ≤ 32) (hl : l < 32)
    (hv : v.toNat < 2 ^ l) :
    bitsOf (k + l) ((acc <<< UInt32.ofNat l) ||| v).toNat =
      bitsOf k acc.toNat ++ bitsOf l v.toNat := by
  have hshift : (UInt32.ofNat l).toNat % 32 = l := by
    rw [UInt32.toNat_ofNat_of_lt' (by unfold UInt32.size; omega), Nat.mod_eq_of_lt hl]
  have hbit : ∀ i < 32, ((acc <<< UInt32.ofNat l) ||| v).toNat.testBit i =
      ((decide (l ≤ i) && acc.toNat.testBit (i - l)) || v.toNat.testBit i) := by
    intro i hi
    rw [UInt32.toNat_or, Nat.testBit_or, UInt32.toNat_shiftLeft, hshift, Nat.testBit_mod_two_pow,
      Nat.testBit_shiftLeft, decide_eq_true hi, Bool.true_and]
  rw [bitsOf_add]
  congr 1
  · refine bitsOf_congr fun i hi => ?_
    have hhigh : v.toNat.testBit (l + i) = false :=
      Nat.testBit_lt_two_pow (hv.trans_le (Nat.pow_le_pow_right Nat.two_pos (by omega)))
    rw [Nat.testBit_shiftRight, hbit _ (by omega), hhigh, Bool.or_false, Nat.add_sub_cancel_left,
      decide_eq_true (by omega), Bool.true_and]
  · refine bitsOf_congr fun i hi => ?_
    rw [hbit _ (by omega), decide_eq_false (by omega), Bool.false_and, Bool.false_or]

@[simp] theorem length_bitsOfBytes (bytes : List UInt8) :
    (bitsOfBytes bytes).length = 8 * bytes.length := by
  induction bytes with
  | nil => rfl
  | cons byte bytes ih =>
      have hcons : bitsOfBytes (byte :: bytes) = bitsOf 8 byte.toNat ++ bitsOfBytes bytes := rfl
      rw [hcons, List.length_append, length_bitsOf, ih, List.length_cons]
      omega

@[simp] theorem bitsOfBytes_append (bytes bytes' : List UInt8) :
    bitsOfBytes (bytes ++ bytes') = bitsOfBytes bytes ++ bitsOfBytes bytes' :=
  List.flatMap_append

@[simp] theorem bitsOfBytes_cons (byte : UInt8) (bytes : List UInt8) :
    bitsOfBytes (byte :: bytes) = bitsOf 8 byte.toNat ++ bitsOfBytes bytes := rfl

theorem bitsOfBytes_concat (bytes : List UInt8) (byte : UInt8) :
    bitsOfBytes (bytes ++ [byte]) = bitsOfBytes bytes ++ bitsOf 8 byte.toNat := by
  rw [bitsOfBytes_append, bitsOfBytes_cons]
  exact congrArg (bitsOfBytes bytes ++ ·) (List.append_nil _)

theorem bitsOfBytes_injective : Function.Injective bitsOfBytes := by
  intro bytes bytes' heq
  induction bytes generalizing bytes' with
  | nil =>
      have hlength := congrArg List.length heq
      rw [length_bitsOfBytes, length_bitsOfBytes] at hlength
      exact (List.eq_nil_of_length_eq_zero (by simpa using hlength.symm)).symm
  | cons byte bytes ih =>
      cases bytes' with
      | nil =>
          have hlength := congrArg List.length heq
          rw [length_bitsOfBytes, length_bitsOfBytes, List.length_cons] at hlength
          simp at hlength
      | cons byte' bytes' =>
          rw [bitsOfBytes_cons, bitsOfBytes_cons] at heq
          obtain ⟨hbyte, hrest⟩ := List.append_inj heq (by simp)
          have hsame : byte = byte' := by
            apply UInt8.toNat_inj.mp
            have hmod := congrArg ofBits hbyte
            rw [ofBits_bitsOf, ofBits_bitsOf] at hmod
            have hlt := byte.toNat_lt
            have hlt' := byte'.toNat_lt
            omega
          rw [hsame, ih hrest]

def fieldBits (bits : ℕ) (ws : List ℕ) : List Bool := ws.flatMap (bitsOf bits)

@[simp] theorem fieldBits_cons (bits w : ℕ) (ws : List ℕ) :
    fieldBits bits (w :: ws) = bitsOf bits w ++ fieldBits bits ws := rfl

@[simp] theorem length_fieldBits (bits : ℕ) (ws : List ℕ) :
    (fieldBits bits ws).length = ws.length * bits := by
  induction ws with
  | nil => simp [fieldBits]
  | cons w ws ih =>
      rw [fieldBits_cons, List.length_append, length_bitsOf, ih, List.length_cons, Nat.succ_mul,
        Nat.add_comm]

/-- A bit string that is long enough starts with `n` fields. -/
theorem exists_fieldBits {bits n : ℕ} {s : List Bool} (hs : n * bits ≤ s.length) :
    ∃ ws tail, ws.length = n ∧ (∀ w ∈ ws, w < 2 ^ bits) ∧ s = fieldBits bits ws ++ tail := by
  induction n generalizing s with
  | zero => exact ⟨[], s, rfl, by simp, rfl⟩
  | succ n ih =>
      rw [Nat.succ_mul] at hs
      obtain ⟨ws, tail, hlength, hws, htail⟩ := ih (s := s.drop bits) (by
        rw [List.length_drop]
        omega)
      have htake : (s.take bits).length = bits := by
        rw [List.length_take]
        omega
      have hbits := bitsOf_ofBits (s.take bits)
      have hlt := ofBits_lt (s.take bits)
      rw [htake] at hbits hlt
      refine ⟨ofBits (s.take bits) :: ws, tail, by rw [List.length_cons, hlength], ?_, ?_⟩
      · intro w hw
        rcases List.mem_cons.mp hw with rfl | hw
        · exact hlt
        · exact hws w hw
      · rw [fieldBits_cons, hbits, List.append_assoc, ← htail, List.take_append_drop]

theorem fieldBits_cons_inj {bits w : ℕ} (hw : w < 2 ^ bits) {ws : List ℕ} {s tail : List Bool}
    {x : ℕ} (heq : bitsOf bits x ++ s = fieldBits bits (w :: ws) ++ tail) :
    x % 2 ^ bits = w ∧ s = fieldBits bits ws ++ tail := by
  rw [fieldBits_cons, List.append_assoc] at heq
  obtain ⟨hfirst, hrest⟩ := List.append_inj heq (by simp)
  have hvalue := congrArg ofBits hfirst
  rw [ofBits_bitsOf, ofBits_bitsOf, Nat.mod_eq_of_lt hw] at hvalue
  exact ⟨hvalue, hrest⟩

/-- The fields are determined by their bits and their number. -/
theorem fieldBits_append_inj {bits : ℕ} {ws ws' : List ℕ} (hws : ∀ w ∈ ws, w < 2 ^ bits)
    (hws' : ∀ w ∈ ws', w < 2 ^ bits) (hlength : ws.length = ws'.length) {tail tail' : List Bool}
    (heq : fieldBits bits ws ++ tail = fieldBits bits ws' ++ tail') : ws = ws' ∧ tail = tail' := by
  induction ws generalizing ws' with
  | nil =>
      obtain rfl := List.eq_nil_of_length_eq_zero hlength.symm
      exact ⟨rfl, heq⟩
  | cons w ws ih =>
      cases ws' with
      | nil => cases hlength
      | cons w' ws' =>
          rw [fieldBits_cons, List.append_assoc] at heq
          obtain ⟨hfirst, hrest⟩ := fieldBits_cons_inj (hws' w' List.mem_cons_self) heq
          obtain ⟨rfl, htail⟩ := ih (fun v hv => hws v (List.mem_cons_of_mem w hv))
            (fun v hv => hws' v (List.mem_cons_of_mem w' hv)) (Nat.succ.inj hlength) hrest
          rw [← hfirst, Nat.mod_eq_of_lt (hws w List.mem_cons_self)]
          exact ⟨rfl, htail⟩

end Soko.Library
