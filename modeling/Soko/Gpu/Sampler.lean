import Soko.Gpu.Modular

/-!
The Gaussian sampler of the device. Its rejection loop takes its randomness from
a small generator with two words of state; `sampleGaussianBernDevice` has a fuel
for the iterations of that loop, and returns nothing when the fuel runs out.
-/

namespace Soko.Gpu

def splitmix64 (x : UInt64) : UInt64 :=
  let z := x + 0x9E3779B97F4A7C15
  let z := (z ^^^ (z >>> 30)) * 0xBF58476D1CE4E5B9
  let z := (z ^^^ (z >>> 27)) * 0x94D049BB133111EB
  z ^^^ (z >>> 31)

def expScaledDevice (x : UInt64) : UInt64 :=
  let r := (809438661408 * x) >>> 28
  let r := ((869506949331 - r) * x) >>> 28
  let r := ((640044208952 - r) * x) >>> 27
  let r := ((793458686015 - r) * x) >>> 27
  let r := ((839743192604 - r) * x) >>> 27
  let r := ((740389683060 - r) * x) >>> 26
  let r := ((1044449863563 - r) * x) >>> 27
  let r := ((552517269260 - r) * x) >>> 25
  let r := ((779422325990 - r) * x) >>> 23
  2199023255552 - r

/-- The bounds of `sample_berncdt_device` that are compared in both words. -/
def berncdtBounds : List (UInt64 × UInt64) :=
  [(11881272476311950404, 2232598800125794762),
   (17729174351313943813, 17046599807202850264),
   (18426461144592799266, 9031501729263515114),
   (18446602887327906610, 11817852927693963396),
   (18446743834670245612, 7306021935394802834),
   (18446744073611412414, 17880792342251759005),
   (18446744073709541852, 14689009182029885173)]

/-- The bounds on the lower word for a full upper word. Each comparison also
requires the one before it. -/
def berncdtTailBounds : List UInt64 :=
  [14106032229701791861, 18446718728838181855, 18446744073673701140]

def sampleBerncdtDevice (utop ubot : UInt64) : UInt32 :=
  let x := berncdtBounds.foldl (fun x bound =>
    let t := utop > bound.1
    let r := utop = bound.1
    let s := ubot > bound.2
    x + if (r ∧ s) ∨ t then 1 else 0) 0
  (berncdtTailBounds.foldl (fun (xb : UInt32 × Bool) bound =>
    let b := xb.2 && decide (ubot > bound)
    (xb.1 + (if b then 1 else 0), b)) (x, utop = 18446744073709551615)).1

def div16404853Device (x : UInt32) : UInt32 :=
  let y := ((97488647 * x.toUInt64) >>> 32).toUInt32
  let z := (x - y) >>> 1
  (z + y) >>> 23

/-- `bern_prng_state`. -/
structure BernPrngState where
  a : UInt32
  b : UInt32
  deriving DecidableEq

def bernRandByte (st : BernPrngState) : UInt8 × BernPrngState :=
  let a := st.a + st.b
  let b := st.b + a
  (((a >>> 24) ^^^ (b >>> 16)).toUInt8, { a, b })

/-- The loop of `bern_rand_u64`, over the byte positions to go. -/
def bernRandBytes : List ℕ → UInt64 → BernPrngState → UInt64 × BernPrngState
  | [], v, st => (v, st)
  | i :: rest, v, st =>
      let (byte, st) := bernRandByte st
      bernRandBytes rest (v ||| (byte.toUInt64 <<< UInt64.ofNat (8 * i))) st

def bernRandU64 (st : BernPrngState) : UInt64 × BernPrngState :=
  bernRandBytes (List.range 8) 0 st

/-- What one iteration of `sample_gaussian_bern_device` draws and computes. -/
structure BernCandidate where
  yb : UInt32
  x : UInt32
  w : UInt64
  c : UInt8
  deriving DecidableEq

namespace BernCandidate

variable (d : BernCandidate)

def z : UInt32 := d.x + d.yb

def y : UInt32 := (d.yb * (d.yb + 2 * d.x)) <<< 8

def k : UInt32 := div16404853Device d.y

def t : UInt32 := d.y - 16404853 * d.k

def v : UInt64 := expScaledDevice d.t.toUInt64 <<< (22 - d.k).toUInt64

/-- The condition of the `continue`. -/
def rejected : Bool := d.w > d.v || d.c &&& (if d.z = 0 then 1 else 0) ≠ 0

def coeff : Int8 :=
  let c := d.c >>> 1
  let zi := d.z.toInt32
  (if c &&& 1 ≠ 0 then -zi else zi).toInt8

end BernCandidate

/-- The draws of one iteration of `sample_gaussian_bern_device`. -/
def bernCandidate (st : BernPrngState) : BernCandidate × BernPrngState :=
  let (utop, st) := bernRandU64 st
  let (ubot, st) := bernRandU64 st
  let (w, st) := bernRandU64 st
  let (yb, st) := bernRandByte st
  let (c, st) := bernRandByte st
  ({ yb := yb.toUInt32, x := sampleBerncdtDevice utop ubot <<< 8, w := w >>> 1, c }, st)

/-- `sample_gaussian_bern_device`, with at most `fuel` iterations. -/
def sampleGaussianBernDevice : ℕ → BernPrngState → Option Int8
  | 0, _ => none
  | fuel + 1, st =>
      let drawn := bernCandidate st
      if drawn.1.rejected then sampleGaussianBernDevice fuel drawn.2 else some drawn.1.coeff

/-- The `mix` of `kernel_generate_samples_and_targets`. -/
def sampleMix (seed : UInt32) (token j : ℕ) : UInt64 :=
  (seed.toUInt64 <<< 32) ^^^ (UInt64.ofNat (token + 1) * 0xD6E8FEB86659FD93)
    ^^^ (UInt64.ofNat (j + 1) * 0xA0761D6478BD642F)

/-- The generator is not left in the state of two zeros. -/
def guardZeroState (st : BernPrngState) : BernPrngState :=
  if st.a = 0 ∧ st.b = 0 then { st with a := 1 } else st

def sampleState1 (mix : UInt64) : BernPrngState :=
  guardZeroState
    { a := (splitmix64 mix).toUInt32, b := (splitmix64 (mix ^^^ 0xA5A5A5A5A5A5A5A5)).toUInt32 }

def sampleState2 (mix : UInt64) : BernPrngState :=
  guardZeroState
    { a := (splitmix64 (mix ^^^ 0x9E3779B97F4A7C15)).toUInt32
      b := (splitmix64 (mix ^^^ 0xC3A5C85C97CB3127)).toUInt32 }

def drawSamples (fuel : ℕ) (seed : UInt32) (token j : ℕ) : Option (Int8 × Int8) :=
  let mix := sampleMix seed token j
  match sampleGaussianBernDevice fuel (sampleState1 mix),
      sampleGaussianBernDevice fuel (sampleState2 mix) with
  | some s1, some s2 => some (s1, s2)
  | _, _ => none

end Soko.Gpu
