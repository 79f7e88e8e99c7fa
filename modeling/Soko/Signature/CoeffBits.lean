import Mathlib.Algebra.Order.Ring.Int
import Soko.Library.BitStream

/-!
The compressed format of a signature as a format of bit strings: a coefficient is
its sign, the low seven bits of its absolute value, and the rest of the absolute
value in unary. The parser is the inverse of the printer and accepts nothing else.
-/

namespace Soko.Signature

open Soko.Library

def InRange (x : ℤ) : Prop := -2047 ≤ x ∧ x ≤ 2047

instance (x : ℤ) : Decidable (InRange x) := inferInstanceAs (Decidable (_ ∧ _))

def coeffBits (x : ℤ) : List Bool :=
  decide (x < 0) :: (bitsOf 7 x.natAbs ++ unaryBits (x.natAbs / 128))

def polyBits (xs : List ℤ) : List Bool := xs.flatMap coeffBits

/-- The zeros, each worth 128, and the one that ends them. -/
def parseUnary (m : ℕ) : List Bool → Option (ℕ × List Bool)
  | [] => none
  | true :: rest => some (m, rest)
  | false :: rest => if m + 128 > 2047 then none else parseUnary (m + 128) rest

/-- The value with a sign; a negative zero is refused. -/
def signedValue (sign : Bool) (m : ℕ) : Option ℤ :=
  if sign ∧ m = 0 then none else some (if sign then -(m : ℤ) else m)

def parseCoeff : List Bool → Option (ℤ × List Bool)
  | [] => none
  | sign :: bits =>
      if bits.length < 7 then none
      else (parseUnary (ofBits (bits.take 7)) (bits.drop 7)).bind fun read =>
        (signedValue sign read.1).map fun x => (x, read.2)

def parsePoly : ℕ → List Bool → Option (List ℤ × List Bool)
  | 0, bits => some ([], bits)
  | n + 1, bits => (parseCoeff bits).bind fun read =>
      (parsePoly n read.2).map fun more => (read.1 :: more.1, more.2)

/-- The parser on the eight bits that one byte completes, and what follows them. -/
theorem parseCoeff_bitsOf (b : ℕ) (rest : List Bool) :
    parseCoeff (bitsOf 8 b ++ rest) = (parseUnary (b % 2 ^ 7) rest).bind fun read =>
      (signedValue (b.testBit 7) read.1).map fun x => (x, read.2) := by
  rw [bitsOf, List.cons_append, parseCoeff,
    if_neg (by rw [List.length_append, length_bitsOf]; omega), List.take_left' (length_bitsOf 7 b),
    List.drop_left' (length_bitsOf 7 b), ofBits_bitsOf]

theorem parseCoeff_short {bits : List Bool} (hshort : bits.length < 8) :
    parseCoeff bits = none := by
  cases bits with
  | nil => rfl
  | cons bit bits =>
      rw [List.length_cons] at hshort
      rw [parseCoeff, if_pos (by omega)]

/-! Printing, then parsing. -/

theorem parseUnary_unaryBits (m k : ℕ) (rest : List Bool) (hm : m + 128 * k ≤ 2047) :
    parseUnary m (unaryBits k ++ rest) = some (m + 128 * k, rest) := by
  induction k generalizing m with
  | zero => rfl
  | succ k ih =>
      have hstep : parseUnary m (unaryBits (k + 1) ++ rest) =
          if m + 128 > 2047 then none else parseUnary (m + 128) (unaryBits k ++ rest) := rfl
      rw [hstep, if_neg (by omega), ih (m + 128) (by omega)]
      congr 2
      omega

theorem signedValue_natAbs (x : ℤ) : signedValue (decide (x < 0)) x.natAbs = some x := by
  rw [signedValue]
  by_cases hneg : x < 0
  · rw [if_neg (by omega), if_pos (decide_eq_true hneg)]
    congr 1
    omega
  · rw [if_neg (by simp [hneg]), if_neg (by simp [hneg])]
    congr 1
    omega

theorem parseCoeff_coeffBits {x : ℤ} (hx : InRange x) (rest : List Bool) :
    parseCoeff (coeffBits x ++ rest) = some (x, rest) := by
  obtain ⟨hlow, hhigh⟩ := hx
  have htake : (bitsOf 7 x.natAbs ++ unaryBits (x.natAbs / 128) ++ rest).take 7 =
      bitsOf 7 x.natAbs := by
    rw [List.append_assoc, List.take_left' (length_bitsOf 7 _)]
  have hdrop : (bitsOf 7 x.natAbs ++ unaryBits (x.natAbs / 128) ++ rest).drop 7 =
      unaryBits (x.natAbs / 128) ++ rest := by
    rw [List.append_assoc, List.drop_left' (length_bitsOf 7 _)]
  have habs : x.natAbs % 2 ^ 7 + 128 * (x.natAbs / 128) = x.natAbs := by omega
  rw [coeffBits, List.cons_append, parseCoeff, if_neg (by simp), htake, hdrop, ofBits_bitsOf,
    parseUnary_unaryBits _ _ _ (by omega), Option.bind_some, habs, signedValue_natAbs]
  rfl

theorem parsePoly_polyBits (xs : List ℤ) (hxs : ∀ x ∈ xs, InRange x) (rest : List Bool) :
    parsePoly xs.length (polyBits xs ++ rest) = some (xs, rest) := by
  induction xs with
  | nil => rfl
  | cons x xs ih =>
      have hcons : polyBits (x :: xs) ++ rest = coeffBits x ++ (polyBits xs ++ rest) := by
        rw [polyBits, List.flatMap_cons, List.append_assoc]
        rfl
      rw [List.length_cons, parsePoly, hcons, parseCoeff_coeffBits (hxs x List.mem_cons_self),
        Option.bind_some, ih fun y hy => hxs y (List.mem_cons_of_mem x hy)]
      rfl

/-! Parsing, then printing. -/

theorem eq_of_parseUnary {m m' : ℕ} {bits rest : List Bool} (hm : m ≤ 2047)
    (hparse : parseUnary m bits = some (m', rest)) :
    ∃ k, m' = m + 128 * k ∧ m' ≤ 2047 ∧ bits = unaryBits k ++ rest := by
  induction bits generalizing m with
  | nil => simp [parseUnary] at hparse
  | cons bit bits ih =>
      cases bit with
      | true =>
          obtain ⟨rfl, rfl⟩ : m = m' ∧ bits = rest := by simpa [parseUnary] using hparse
          exact ⟨0, rfl, hm, rfl⟩
      | false =>
          rw [parseUnary] at hparse
          by_cases hcap : m + 128 > 2047
          · rw [if_pos hcap] at hparse
            contradiction
          · rw [if_neg hcap] at hparse
            obtain ⟨k, hk, hle, hbits⟩ := ih (by omega) hparse
            refine ⟨k + 1, by omega, hle, ?_⟩
            rw [hbits]
            rfl

theorem eq_of_signedValue {sign : Bool} {m : ℕ} {x : ℤ} (hx : signedValue sign m = some x) :
    x.natAbs = m ∧ decide (x < 0) = sign := by
  rw [signedValue] at hx
  by_cases hminus : sign = true ∧ m = 0
  · rw [if_pos hminus] at hx
    contradiction
  · rw [if_neg hminus, Option.some.injEq] at hx
    cases sign with
    | false =>
        rw [if_neg Bool.false_ne_true] at hx
        exact ⟨by omega, decide_eq_false (by omega)⟩
    | true =>
        rw [if_pos rfl] at hx
        have hm : m ≠ 0 := fun hzero => hminus ⟨rfl, hzero⟩
        exact ⟨by omega, decide_eq_true (by omega)⟩

theorem eq_of_parseCoeff {bits rest : List Bool} {x : ℤ}
    (hparse : parseCoeff bits = some (x, rest)) :
    InRange x ∧ bits = coeffBits x ++ rest := by
  cases bits with
  | nil => simp [parseCoeff] at hparse
  | cons sign bits =>
      rw [parseCoeff] at hparse
      by_cases hlength : bits.length < 7
      · rw [if_pos hlength] at hparse
        contradiction
      rw [if_neg hlength, Option.bind_eq_some_iff] at hparse
      obtain ⟨⟨m, rest'⟩, hunary, hvalue⟩ := hparse
      rw [Option.map_eq_some_iff] at hvalue
      obtain ⟨x', hvalue, hpair⟩ := hvalue
      obtain ⟨rfl, rfl⟩ : x' = x ∧ rest' = rest := Prod.mk.injEq .. ▸ hpair
      obtain ⟨habs, hsign⟩ := eq_of_signedValue hvalue
      -- the low seven bits, and what the unary part adds to them
      have hseven : (bits.take 7).length = 7 := List.length_take_of_le (by omega)
      have hlow := ofBits_lt (bits.take 7)
      rw [hseven] at hlow
      obtain ⟨k, hm, hle, hrest⟩ := eq_of_parseUnary (by omega) hunary
      have hbits : bitsOf 7 m = bits.take 7 := by
        have hbelow := bitsOf_ofBits (bits.take 7)
        rw [hseven] at hbelow
        rw [← hbelow, ← bitsOf_mod]
        congr 1
        omega
      refine ⟨⟨by omega, by omega⟩, ?_⟩
      rw [coeffBits, habs, hsign, hbits, show m / 128 = k by omega, List.cons_append,
        List.append_assoc, ← hrest, List.take_append_drop]

theorem eq_of_parsePoly {n : ℕ} {bits rest : List Bool} {xs : List ℤ}
    (hparse : parsePoly n bits = some (xs, rest)) :
    xs.length = n ∧ (∀ x ∈ xs, InRange x) ∧ bits = polyBits xs ++ rest := by
  induction n generalizing bits xs with
  | zero =>
      obtain ⟨rfl, rfl⟩ : [] = xs ∧ bits = rest := by simpa [parsePoly] using hparse
      exact ⟨rfl, fun x hx => absurd hx List.not_mem_nil, rfl⟩
  | succ n ih =>
      rw [parsePoly, Option.bind_eq_some_iff] at hparse
      obtain ⟨⟨x, bits'⟩, hcoeff, hparse⟩ := hparse
      rw [Option.map_eq_some_iff] at hparse
      obtain ⟨⟨xs', rest'⟩, hpoly, hpair⟩ := hparse
      obtain ⟨rfl, rfl⟩ : x :: xs' = xs ∧ rest' = rest := Prod.mk.injEq .. ▸ hpair
      obtain ⟨hlength, hrange, (hbits' : bits' = _)⟩ := ih hpoly
      obtain ⟨hx, hbits⟩ := eq_of_parseCoeff hcoeff
      refine ⟨by rw [List.length_cons, hlength], ?_, ?_⟩
      · intro y hy
        rcases List.mem_cons.mp hy with rfl | hy
        · exact hx
        · exact hrange y hy
      · rw [hbits, hbits', polyBits, polyBits, List.flatMap_cons, List.append_assoc]

theorem nine_le_length_coeffBits (x : ℤ) : 9 ≤ (coeffBits x).length := by
  rw [coeffBits, List.length_cons, List.length_append, length_bitsOf, unaryBits,
    List.length_append, List.length_singleton]
  omega

end Soko.Signature
