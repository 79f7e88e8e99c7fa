import Mathlib
import Soko.FnDsa.Codec
import Soko.FnDsa.PublicKey

/-!
The key pairs of `submodules/FN-DSA/falcon.c`, and what `soko_falcon_common.c` makes of them.
The polynomials `f`, `g` and `F` that the generator has found are encoded into the private
key, and `h` into the public one. Decoding them and completing the private key gives back
the same polynomials, with `G`, and `falcon_make_public` computes the same public key again.
-/

namespace Soko.FnDsa

open Soko.Library Soko.Signature Soko.Gpu

/-- The errors of `falcon.h` that the functions below return. -/
inductive FalconErr
  | size
  | format
  | badsig
  | badarg
  | internal
  deriving DecidableEq

def maxFgBits : List ℕ := [0, 8, 8, 8, 8, 8, 7, 7, 6, 6, 5]

def maxFGBits : List ℕ := [0, 8, 8, 8, 8, 8, 8, 8, 8, 8, 8]

/-- `FALCON_PRIVKEY_SIZE`. -/
def privkeySize (logn : ℕ) : ℕ :=
  (if logn ≤ 3 then 3 <<< logn else ((10 - (logn >>> 1)) <<< (logn - 2)) + (1 <<< logn)) + 1

/-- `FALCON_PUBKEY_SIZE`. -/
def pubkeySize (logn : ℕ) : ℕ := (if logn ≤ 1 then 4 else 7 <<< (logn - 2)) + 1

/-- `FALCON_TMPSIZE_KEYGEN`. -/
def tmpsizeKeygen (logn : ℕ) : ℕ := (if logn ≤ 3 then 272 else 28 <<< logn) + (3 <<< logn) + 7

/-- `FALCON_TMPSIZE_MAKEPUB`. -/
def tmpsizeMakepub (logn : ℕ) : ℕ := (6 <<< logn) + 1

/-- The bytes are stored at `buf + u`. -/
def writeAt (buf : List UInt8) (u : ℕ) (bytes : List UInt8) : List UInt8 :=
  buf.take u ++ bytes ++ buf.drop (u + bytes.length)

def coeffs {α : Type} (n : ℕ) (x : ℕ → α) : List α := (List.range n).map x

def ofCoeffs {α : Type} [Zero α] (x : List α) (j : ℕ) : α := x.getD j 0

/-- The calls of `trim_i8_encode` for the polynomials of a private key, each with its number
of bits, into the buffer `sk` from `u` on. Where one of them fails the buffer is left as it
is then. -/
def encodeParts (skLen : ℕ) :
    List (List Int8 × ℕ) → List UInt8 → ℕ → Except (List UInt8) (List UInt8 × ℕ)
  | [], sk, u => .ok (sk, u)
  | (x, bits) :: parts, sk, u =>
      match trimI8Encode (skLen - u) x bits with
      | none => .error sk
      | some bytes => encodeParts skLen parts (writeAt sk u bytes) (u + bytes.length)

/-- The calls of `trim_i8_decode` for the polynomials of a private key. The error is the
number of the call that fails. -/
def decodeParts (logn : ℕ) (sk : List UInt8) :
    List ℕ → ℕ → ℕ → Except ℕ (List (List Int8) × ℕ)
  | [], _, u => .ok ([], u)
  | bits :: parts, call, u =>
      match trimI8Decode logn bits (sk.drop u) (sk.length - u) with
      | .error _ => .error call
      | .ok (x, v) =>
          (decodeParts logn sk parts (call + 1) (u + v)).map fun (xs, u) => (x :: xs, u)

/-- What `falcon_keygen_make` leaves. -/
structure KeygenResult where
  status : Option FalconErr
  privkey : List UInt8
  pubkey : List UInt8

/-- `falcon_keygen_make` with a buffer for the public key, once `keygen` has found `f`, `g`
and `F`. -/
def falconKeygenMake (logn : ℕ) (f g F : List Int8) (privkey pubkey : List UInt8) (tmpLen : ℕ)
    (h tmp : ℕ → UInt16) : KeygenResult :=
  if logn < 1 ∨ logn > 10 then { status := some .badarg, privkey, pubkey }
  else if privkey.length < privkeySize logn ∨ pubkey.length < pubkeySize logn ∨
      tmpLen < tmpsizeKeygen logn then { status := some .size, privkey, pubkey }
  else
    let skLen := privkeySize logn
    let fg := maxFgBits.getD logn 0
    let FG := maxFGBits.getD logn 0
    let sk := writeAt privkey 0 [0x50 + UInt8.ofNat logn]
    match encodeParts skLen [(f, fg), (g, fg), (F, FG)] sk 1 with
    | .error sk => { status := some .internal, privkey := sk, pubkey }
    | .ok (sk, u) =>
        if u ≠ skLen then { status := some .internal, privkey := sk, pubkey }
        else match computePublic h (ofCoeffs f) (ofCoeffs g) logn tmp with
          | none => { status := some .internal, privkey := sk, pubkey }
          | some h =>
              let pkLen := pubkeySize logn
              let pk := writeAt pubkey 0 [0x00 + UInt8.ofNat logn]
              match modqEncode (pkLen - 1) (coeffs (2 ^ logn) h) with
              | none => { status := some .internal, privkey := sk, pubkey := pk }
              | some bytes =>
                  { status := if bytes.length ≠ pkLen - 1 then some .internal else none
                    privkey := sk
                    pubkey := writeAt pk 1 bytes }

def falconMakePublic (pubkey privkey : List UInt8) (tmpLen : ℕ) (h tmp : ℕ → UInt16) :
    Except FalconErr (List UInt8) :=
  match privkey with
  | [] => .error .format
  | header :: _ =>
      if header &&& 0xF0 ≠ 0x50 then .error .format
      else
        let logn := (header &&& 0x0F).toNat
        if logn < 1 ∨ logn > 10 then .error .format
        else if privkey.length ≠ privkeySize logn then .error .format
        else if pubkey.length < pubkeySize logn ∨ tmpLen < tmpsizeMakepub logn then .error .size
        else
          let fg := maxFgBits.getD logn 0
          match decodeParts logn privkey [fg, fg] 0 1 with
          | .ok ([f, g], _) =>
              match computePublic h (ofCoeffs f) (ofCoeffs g) logn tmp with
              | none => .error .format
              | some h =>
                  let pkLen := pubkeySize logn
                  let pk := writeAt pubkey 0 [0x00 + UInt8.ofNat logn]
                  match modqEncode (pkLen - 1) (coeffs (2 ^ logn) h) with
                  | none => .error .internal
                  | some bytes =>
                      if bytes.length ≠ pkLen - 1 then .error .internal
                      else .ok (writeAt pk 1 bytes)
          | _ => .error .format

/-- What `soko_prepare_falcon_key_material` leaves for the signer and the verifiers. The
floating-point transforms of the private key are left out. -/
structure KeyMaterial where
  privkey : List UInt8
  pubkey : List UInt8
  f : List Int8
  g : List Int8
  F : List Int8
  G : ℕ → Int8
  h : List UInt16
  hMonty : ℕ → UInt16

/-- `soko_prepare_falcon_key_material`, where `seeded` says that the random generator could
be seeded and `made` is what `falcon_keygen_make` leaves. -/
def sokoPrepareFalconKeyMaterial (logn : ℕ) (seeded : Bool) (made : KeygenResult) (G : ℕ → Int8)
    (t1 t2 : ℕ → UInt16) : Except ℤ KeyMaterial :=
  if !seeded then .error (-1)
  else
    let sk := made.privkey
    let fg := maxFgBits.getD logn 0
    let FG := maxFGBits.getD logn 0
    match decodeParts logn sk [fg, fg, FG] 0 1 with
    | .ok ([f, g, F], u) =>
        if u ≠ sk.length then .error (-5)
        else match completePrivate G (ofCoeffs f) (ofCoeffs g) (ofCoeffs F) logn t1 t2 with
          | none => .error (-6)
          | some G =>
              match modqDecode logn (made.pubkey.drop 1) (made.pubkey.length - 1) with
              | .error _ => .error (-7)
              | .ok (h, v) =>
                  if v ≠ made.pubkey.length - 1 then .error (-7)
                  else .ok
                    { privkey := sk, pubkey := made.pubkey, f, g, F, G, h
                      hMonty := toNttMonty logn (ofCoeffs h) }
    | .ok _ => .error (-5)
    | .error call => .error (-2 - call)

section Buffers

variable {buf a b : List UInt8} {u : ℕ}

@[simp] theorem length_writeAt (hroom : u + a.length ≤ buf.length) :
    (writeAt buf u a).length = buf.length := by
  simp only [writeAt, List.length_append, List.length_take, List.length_drop]
  omega

theorem writeAt_writeAt (hroom : u + a.length ≤ buf.length) :
    writeAt (writeAt buf u a) (u + a.length) b = writeAt buf u (a ++ b) := by
  have htake : (buf.take u ++ a).length = u + a.length := by
    rw [List.length_append, List.length_take]
    omega
  have hdrop : (buf.take u ++ a ++ buf.drop (u + a.length)).drop (u + a.length + b.length) =
      buf.drop (u + (a ++ b).length) := by
    rw [← List.drop_drop, List.drop_left' htake, List.drop_drop, List.length_append, Nat.add_assoc]
  rw [writeAt, writeAt, writeAt, List.take_left' htake, hdrop, List.append_assoc (buf.take u)]

theorem writeAt_zero (hfull : a.length = buf.length) : writeAt buf 0 a = a := by
  rw [writeAt, List.take_zero, List.nil_append, List.drop_eq_nil_of_le (by omega),
    List.append_nil]

theorem writeAt_header (header : UInt8) (hfull : 1 + a.length = buf.length) :
    writeAt (writeAt buf 0 [header]) 1 a = header :: a := by
  have htwice : writeAt (writeAt buf 0 [header]) (0 + [header].length) a =
      writeAt buf 0 ([header] ++ a) := writeAt_writeAt (by simp; omega)
  exact htwice.trans (writeAt_zero (by simp; omega))

end Buffers

section Parts

variable {logn n : ℕ} {parts : List (List Int8 × ℕ)}

/-- A polynomial with `n` coefficients that its encoding has room for. -/
structure ValidPart (n : ℕ) (part : List Int8 × ℕ) : Prop where
  length_eq : part.1.length = n
  pos : 1 ≤ part.2
  le_8 : part.2 ≤ 8
  small : ∀ xu ∈ part.1, |xu.toInt| < (2 ^ (part.2 - 1) : ℕ)

def partBytes (part : List Int8 × ℕ) : List UInt8 :=
  (trimI8Encode (fieldsLength part.2 part.1.length) part.1 part.2).getD []

theorem ValidPart.encode {part : List Int8 × ℕ} (hpart : ValidPart n part) {maxOutLen : ℕ}
    (hroom : fieldsLength part.2 n ≤ maxOutLen) :
    trimI8Encode maxOutLen part.1 part.2 = some (partBytes part) := by
  obtain ⟨hlength, hpos, -, hsmall⟩ := hpart
  obtain ⟨i, hi⟩ : ∃ i, part.2 = i + 1 := ⟨part.2 - 1, by omega⟩
  rw [hi, Nat.add_sub_cancel] at hsmall
  obtain ⟨bytes, hencode⟩ : ∃ bytes, ∀ m, fieldsLength part.2 n ≤ m →
      trimI8Encode m part.1 part.2 = some bytes := by
    rw [hi]
    exact ⟨_, fun m hm => trimEncode_eq_some_iff.mpr ⟨hsmall, by rwa [hlength], rfl⟩⟩
  rw [partBytes, hlength, hencode _ hroom, hencode _ le_rfl, Option.getD_some]

theorem ValidPart.length_partBytes {part : List Int8 × ℕ} (hpart : ValidPart n part) :
    (partBytes part).length = fieldsLength part.2 n := by
  rw [← hpart.length_eq]
  exact length_trimEncode smallInts_int8 hpart.pos hpart.le_8 (hpart.encode le_rfl)

theorem ValidPart.decode {part : List Int8 × ℕ} (hpart : ValidPart (2 ^ logn) part)
    (rest : List UInt8) :
    trimI8Decode logn part.2 (partBytes part ++ rest) (partBytes part ++ rest).length =
      .ok (part.1, (partBytes part).length) := by
  have hlength := hpart.length_partBytes
  refine (trimI8Decode_iff hpart.pos hpart.le_8 logn le_rfl).mpr ⟨hpart.length_eq, hlength, ?_⟩
  rw [List.take_left' rfl]
  apply hpart.encode
  rw [← hlength, List.length_append]
  omega

theorem encodeParts_eq {skLen : ℕ} (hparts : ∀ part ∈ parts, ValidPart n part) (sk : List UInt8)
    {u : ℕ} (hroom : u + (parts.flatMap partBytes).length ≤ skLen) (hsk : skLen ≤ sk.length) :
    encodeParts skLen parts sk u =
      .ok (writeAt sk u (parts.flatMap partBytes), u + (parts.flatMap partBytes).length) := by
  induction parts generalizing sk u with
  | nil => simp [encodeParts, writeAt]
  | cons part parts ih =>
      have hpart := hparts part List.mem_cons_self
      rw [List.flatMap_cons, List.length_append] at hroom
      have hstored : (writeAt sk u (partBytes part)).length = sk.length :=
        length_writeAt (by omega)
      rw [encodeParts, hpart.encode (by rw [← hpart.length_partBytes]; omega)]
      dsimp only
      rw [ih (fun p hp => hparts p (List.mem_cons_of_mem part hp)) _ (by omega) (by omega),
        writeAt_writeAt (by omega), List.flatMap_cons, List.length_append, Nat.add_assoc]

theorem decodeParts_eq (hparts : ∀ part ∈ parts, ValidPart (2 ^ logn) part) {sk : List UInt8}
    (rest : List UInt8) (call : ℕ) {u : ℕ} (hu : u ≤ sk.length)
    (hsk : sk.drop u = parts.flatMap partBytes ++ rest) :
    decodeParts logn sk (parts.map Prod.snd) call u =
      .ok (parts.map Prod.fst, u + (parts.flatMap partBytes).length) := by
  induction parts generalizing call u with
  | nil => simp [decodeParts]
  | cons part parts ih =>
      have hpart := hparts part List.mem_cons_self
      rw [List.flatMap_cons, List.append_assoc] at hsk
      have hlength := congrArg List.length hsk
      rw [List.length_drop, List.length_append] at hlength
      have hnext : sk.drop (u + (partBytes part).length) = parts.flatMap partBytes ++ rest := by
        rw [← List.drop_drop, hsk, List.drop_left' rfl]
      have hdecode := hpart.decode (parts.flatMap partBytes ++ rest)
      rw [← hsk, List.length_drop] at hdecode
      rw [List.map_cons, decodeParts, hdecode]
      dsimp only
      rw [ih (fun p hp => hparts p (List.mem_cons_of_mem part hp)) (call + 1) (by omega) hnext,
        List.flatMap_cons, List.length_append, Nat.add_assoc]
      rfl

end Parts

section KeyPairs

variable {logn : ℕ} {f g F : List Int8} {privkey pubkey : List UInt8} {tmpLen : ℕ}

/-- The polynomials of a private key with their numbers of bits, in the order of the
encoding. -/
def keyParts (logn : ℕ) (f g F : List Int8) : List (List Int8 × ℕ) :=
  [(f, maxFgBits.getD logn 0), (g, maxFgBits.getD logn 0), (F, maxFGBits.getD logn 0)]

/-- The class of a polynomial that is given by its list of coefficients. -/
noncomputable def coeffsElement (logn : ℕ) (x : List Int8) : NegacyclicRing (2 ^ logn) :=
  signedElement (2 ^ logn) fun j => (ofCoeffs x j).toInt

/-- `G` solves the NTRU equation modulo `q`, with coefficients from -127 to 127. -/
structure Solves (logn : ℕ) (f g F : List Int8) (G : ℕ → ℤ) : Prop where
  small : ∀ j < 2 ^ logn, |G j| ≤ 127
  equation : coeffsElement logn f * signedElement (2 ^ logn) G =
    coeffsElement logn g * coeffsElement logn F

/-- What `keygen` makes sure of before it returns `f`, `g` and `F`. -/
structure GeneratedKey (logn : ℕ) (f g F : List Int8) : Prop where
  one_le : 1 ≤ logn
  le_10 : logn ≤ 10
  valid : ∀ part ∈ keyParts logn f g F, ValidPart (2 ^ logn) part
  invertible : IsUnit (coeffsElement logn f)
  solvable : ∃ G, Solves logn f g F G

theorem sizes_eq (hone : 1 ≤ logn) (hlogn : logn ≤ 10) :
    1 + (fieldsLength (maxFgBits.getD logn 0) (2 ^ logn) +
        (fieldsLength (maxFgBits.getD logn 0) (2 ^ logn) +
          fieldsLength (maxFGBits.getD logn 0) (2 ^ logn))) = privkeySize logn ∧
      1 + fieldsLength 14 (2 ^ logn) = pubkeySize logn := by
  have hall : ∀ logn < 11, 1 ≤ logn →
      1 + (fieldsLength (maxFgBits.getD logn 0) (2 ^ logn) +
          (fieldsLength (maxFgBits.getD logn 0) (2 ^ logn) +
            fieldsLength (maxFGBits.getD logn 0) (2 ^ logn))) = privkeySize logn ∧
        1 + fieldsLength 14 (2 ^ logn) = pubkeySize logn := by
    decide
  exact hall logn (by omega) hone

theorem length_keyParts (hkey : GeneratedKey logn f g F) :
    1 + ((keyParts logn f g F).flatMap partBytes).length = privkeySize logn := by
  have hlength := fun part hpart => (hkey.valid part hpart).length_partBytes
  rw [← (sizes_eq hkey.one_le hkey.le_10).1]
  simp only [keyParts, List.flatMap_cons, List.flatMap_nil, List.append_nil, List.length_append]
  rw [hlength (f, _) (by simp [keyParts]), hlength (g, _) (by simp [keyParts]),
    hlength (F, _) (by simp [keyParts])]

/-- The reduced coefficients of a public key are encodable. -/
theorem modqEncode_public (hone : 1 ≤ logn) (hlogn : logn ≤ 10) {h : ℕ → UInt16}
    (hh : ReducedBelow16 (2 ^ logn) h) :
    ∃ bytes, modqEncode (pubkeySize logn - 1) (coeffs (2 ^ logn) h) = some bytes ∧
      1 + bytes.length = pubkeySize logn := by
  have hsize := (sizes_eq hone hlogn).2
  have hlength : (coeffs (2 ^ logn) h).length = 2 ^ logn := by simp [coeffs]
  have hvalid : ∀ xu ∈ coeffs (2 ^ logn) h, xu < 12289 := by
    intro xu hxu
    obtain ⟨j, hj, rfl⟩ := List.mem_map.mp hxu
    exact UInt16.lt_iff_toNat_lt.mpr (hh j (List.mem_range.mp hj))
  obtain ⟨bytes, hbytes⟩ : ∃ bytes, modqEncode (pubkeySize logn - 1) (coeffs (2 ^ logn) h) =
      some bytes :=
    ⟨_, modqEncode_eq_some_iff.mpr ⟨hvalid, by rw [hlength]; omega, rfl⟩⟩
  refine ⟨bytes, hbytes, ?_⟩
  rw [length_modqEncode hbytes, hlength, hsize]

theorem exists_computePublic (hkey : GeneratedKey logn f g F) (h tmp : ℕ → UInt16) :
    ∃ h', computePublic h (ofCoeffs f) (ofCoeffs g) logn tmp = some h' :=
  Option.ne_none_iff_exists'.mp fun hfail =>
    (computePublic_eq_none_iff hkey.le_10 h _ _ tmp).mp hfail hkey.invertible

theorem falconKeygenMake_eq (hkey : GeneratedKey logn f g F)
    (hprivkey : privkey.length = privkeySize logn) (hpubkey : pubkey.length = pubkeySize logn)
    (htmp : tmpsizeKeygen logn ≤ tmpLen) (h tmp : ℕ → UInt16) :
    ∃ h' bytes, computePublic h (ofCoeffs f) (ofCoeffs g) logn tmp = some h' ∧
      modqEncode (pubkeySize logn - 1) (coeffs (2 ^ logn) h') = some bytes ∧
      1 + bytes.length = pubkeySize logn ∧
      falconKeygenMake logn f g F privkey pubkey tmpLen h tmp =
        { status := none
          privkey := (0x50 + UInt8.ofNat logn) :: (keyParts logn f g F).flatMap partBytes
          pubkey := (0x00 + UInt8.ofNat logn) :: bytes } := by
  have hsize := length_keyParts hkey
  obtain ⟨h', hh'⟩ := exists_computePublic hkey h tmp
  obtain ⟨hred, -⟩ := computePublic_quotient hkey.le_10 hh'
  obtain ⟨bytes, hbytes, hlength⟩ := modqEncode_public hkey.one_le hkey.le_10 hred
  refine ⟨h', bytes, hh', hbytes, hlength, ?_⟩
  have hencode := encodeParts_eq hkey.valid (writeAt privkey 0 [0x50 + UInt8.ofNat logn])
    (show 1 + _ ≤ privkeySize logn by omega) (by
      rw [length_writeAt (by simp; omega)]
      omega)
  rw [writeAt_header _ (by omega), hsize] at hencode
  rw [falconKeygenMake, if_neg (by have := hkey.one_le; have := hkey.le_10; omega),
    if_neg (by omega)]
  dsimp only
  rw [show [(f, maxFgBits.getD logn 0), (g, maxFgBits.getD logn 0), (F, maxFGBits.getD logn 0)] =
    keyParts logn f g F from rfl, hencode]
  dsimp only
  rw [if_neg (not_not.mpr rfl), hh']
  dsimp only
  rw [hbytes]
  dsimp only
  rw [if_neg (by omega), writeAt_header _ (by omega)]

/-- The polynomials of a private key are decoded again. -/
theorem decodeParts_privkey (hkey : GeneratedKey logn f g F) (header : UInt8) :
    let sk := header :: (keyParts logn f g F).flatMap partBytes
    decodeParts logn sk ((keyParts logn f g F).map Prod.snd) 0 1 = .ok ([f, g, F], sk.length) := by
  intro sk
  rw [decodeParts_eq hkey.valid [] 0 (by simp [sk]) (List.append_nil _).symm]
  simp [keyParts, sk, Nat.add_comm]

theorem decodeParts_fg (hkey : GeneratedKey logn f g F) (header : UInt8) :
    ∃ u, decodeParts logn (header :: (keyParts logn f g F).flatMap partBytes)
      [maxFgBits.getD logn 0, maxFgBits.getD logn 0] 0 1 = .ok ([f, g], u) :=
  ⟨_, decodeParts_eq (fun part (hpart : part ∈ [(f, maxFgBits.getD logn 0),
      (g, maxFgBits.getD logn 0)]) => hkey.valid part (List.mem_append_left [_] hpart))
    (partBytes (F, maxFGBits.getD logn 0)) 0 (by simp) (by simp [keyParts])⟩

/-- The material of a generated key: the private key is completed, and the public key is the
quotient `g / f`, whose transform the verifiers get. -/
structure Prepared (logn : ℕ) (f g F : List Int8) (material : KeyMaterial) : Prop where
  f_eq : material.f = f
  g_eq : material.g = g
  F_eq : material.F = F
  solves : Solves logn f g F fun j => (material.G j).toInt
  unique : ∀ x, Solves logn f g F x → ∀ j < 2 ^ logn, (material.G j).toInt = x j
  length_h : material.h.length = 2 ^ logn
  reduced_h : ∀ j < 2 ^ logn, (ofCoeffs material.h j).toNat < 12289
  public_key : coeffsElement logn f *
      ringElement (2 ^ logn) (fun j => residue16 (ofCoeffs material.h j)) = coeffsElement logn g
  hMonty_eq : material.hMonty = toNttMonty logn (ofCoeffs material.h)

/-- `soko_prepare_falcon_key_material` succeeds for a generated key. -/
theorem sokoPrepareFalconKeyMaterial_spec (hkey : GeneratedKey logn f g F)
    (hprivkey : privkey.length = privkeySize logn) (hpubkey : pubkey.length = pubkeySize logn)
    (htmp : tmpsizeKeygen logn ≤ tmpLen) (h tmp t1 t2 : ℕ → UInt16) (G : ℕ → Int8) :
    ∃ material, sokoPrepareFalconKeyMaterial logn true
        (falconKeygenMake logn f g F privkey pubkey tmpLen h tmp) G t1 t2 = .ok material ∧
      Prepared logn f g F material := by
  obtain ⟨h', bytes, hh', hbytes, hlength, hmade⟩ :=
    falconKeygenMake_eq hkey hprivkey hpubkey htmp h tmp
  obtain ⟨hred, hpublic⟩ := computePublic_quotient hkey.le_10 hh'
  have hexists := fun y (hy : Solves logn f g F y) =>
    exists_completePrivate hkey.le_10 G _ _ _ t1 t2 hkey.invertible hy.small hy.equation
  obtain ⟨x, hx⟩ := hkey.solvable
  obtain ⟨G', hG', -⟩ := hexists x hx
  obtain ⟨-, hsmall, hequation⟩ := completePrivate_solves hkey.le_10 hG'
  have hdecode : modqDecode logn bytes bytes.length = .ok (coeffs (2 ^ logn) h', bytes.length) := by
    refine (modqDecode_eq_ok_iff logn le_rfl).mpr ⟨by simp [coeffs], ?_, ?_⟩
    · have := (sizes_eq hkey.one_le hkey.le_10).2
      omega
    · rwa [List.take_length, show bytes.length = pubkeySize logn - 1 by omega]
  have hcoeffs : ∀ j < 2 ^ logn, ofCoeffs (coeffs (2 ^ logn) h') j = h' j := by
    intro j hj
    simp [ofCoeffs, coeffs, hj]
  have hparts := decodeParts_privkey hkey (0x50 + UInt8.ofNat logn)
  simp only [keyParts, List.map_cons, List.map_nil] at hparts
  rw [hmade, sokoPrepareFalconKeyMaterial, if_neg (by decide)]
  simp only [keyParts, hparts, hG', List.drop_succ_cons, List.drop_zero, List.length_cons,
    Nat.add_sub_cancel, hdecode, ne_eq, not_true_eq_false, if_false, Except.ok.injEq,
    exists_eq_left']
  exact
    { f_eq := rfl
      g_eq := rfl
      F_eq := rfl
      solves := ⟨hsmall, hequation⟩
      unique := fun y hy j hj => by
        obtain ⟨G'', hG'', hvalue⟩ := hexists y hy
        obtain rfl := Option.some.inj (hG'.symm.trans hG'')
        exact hvalue j hj
      length_h := by simp [coeffs]
      reduced_h := fun j hj => by
        rw [hcoeffs j hj]
        exact hred j hj
      public_key := by
        rw [ringElement_congr fun j hj => congrArg residue16 (hcoeffs j hj)]
        exact hpublic
      hMonty_eq := rfl }

theorem coeffs_computePublic (hkey : GeneratedKey logn f g F) {a b a' b' : ℕ → UInt16}
    {h h' : ℕ → UInt16} (hh : computePublic a (ofCoeffs f) (ofCoeffs g) logn b = some h)
    (hh' : computePublic a' (ofCoeffs f) (ofCoeffs g) logn b' = some h') :
    coeffs (2 ^ logn) h = coeffs (2 ^ logn) h' := by
  obtain ⟨hred, hpublic⟩ := computePublic_quotient hkey.le_10 hh
  obtain ⟨hred', hpublic'⟩ := computePublic_quotient hkey.le_10 hh'
  have hsame := hkey.invertible.mul_left_cancel (hpublic.trans hpublic'.symm)
  refine List.map_congr_left fun j hj => ?_
  have hj := List.mem_range.mp hj
  have hword := eq_of_residue (hred j hj) (hred' j hj)
    (eq_of_mk_polyOf_eq (Nat.two_pow_pos logn) hsame hj)
  rw [← UInt16.toNat_inj, ← UInt16.toNat_toUInt32, hword, UInt16.toNat_toUInt32]

theorem header_privkey (hone : 1 ≤ logn) (hlogn : logn ≤ 10) :
    (0x50 + UInt8.ofNat logn) &&& 0xF0 = 0x50 ∧
      ((0x50 + UInt8.ofNat logn) &&& 0x0F).toNat = logn := by
  have hall : ∀ logn < 11, 1 ≤ logn → (0x50 + UInt8.ofNat logn) &&& 0xF0 = 0x50 ∧
      ((0x50 + UInt8.ofNat logn) &&& 0x0F).toNat = logn := by
    decide
  exact hall logn (by omega) hone

/-- `falcon_make_public` computes the public key of a generated key pair from its private
key. -/
theorem falconMakePublic_spec (hkey : GeneratedKey logn f g F)
    (hprivkey : privkey.length = privkeySize logn) (hpubkey : pubkey.length = pubkeySize logn)
    (htmp : tmpsizeKeygen logn ≤ tmpLen) (h tmp : ℕ → UInt16) {buffer : List UInt8}
    (hbuffer : buffer.length = pubkeySize logn) {tmpLen' : ℕ}
    (htmp' : tmpsizeMakepub logn ≤ tmpLen') (h' tmp' : ℕ → UInt16) :
    let made := falconKeygenMake logn f g F privkey pubkey tmpLen h tmp
    made.status = none ∧
      falconMakePublic buffer made.privkey tmpLen' h' tmp' = .ok made.pubkey := by
  intro made
  obtain ⟨h₁, bytes, hh₁, hbytes, hlength, hmade⟩ :=
    falconKeygenMake_eq hkey hprivkey hpubkey htmp h tmp
  obtain ⟨h₂, hh₂⟩ := exists_computePublic hkey h' tmp'
  obtain ⟨hkind, hdegree⟩ := header_privkey hkey.one_le hkey.le_10
  have hsize := length_keyParts hkey
  obtain ⟨u, hparts⟩ := decodeParts_fg hkey (0x50 + UInt8.ofNat logn)
  have hone := hkey.one_le
  have hlogn := hkey.le_10
  rw [show made = _ from hmade]
  refine ⟨rfl, ?_⟩
  rw [falconMakePublic]
  dsimp only
  rw [hdegree, if_neg (not_not.mpr hkind), if_neg (by omega),
    if_neg (by rw [List.length_cons]; omega), if_neg (by omega), hparts]
  dsimp only
  rw [hh₂]
  dsimp only
  rw [coeffs_computePublic hkey hh₂ hh₁, hbytes]
  dsimp only
  rw [if_neg (by omega), writeAt_header _ (by omega)]

end KeyPairs

/-- A key of degree 2 with `f = 1`, so that `G = g * F`. -/
theorem generatedKey_sample : GeneratedKey 1 [1, 0] [3, -1] [1, 0] where
  one_le := le_rfl
  le_10 := by decide
  valid := by
    intro part hpart
    simp only [keyParts, List.mem_cons, List.not_mem_nil, or_false] at hpart
    rcases hpart with rfl | rfl | rfl <;>
      refine ⟨by decide, by decide, by decide, fun xu hxu => ?_⟩ <;>
      simp only [List.mem_cons, List.not_mem_nil, or_false] at hxu <;>
      rcases hxu with rfl | rfl <;> decide
  invertible := by
    have hentry : ∀ j < 2 ^ 1, ((ofCoeffs [1, 0] j : Int8).toInt : ZMod 12289) =
        ((sampleF j).toInt : ZMod 12289) := by decide
    have hsame : coeffsElement 1 [1, 0] = signedElement (2 ^ 1) fun j => (sampleF j).toInt :=
      ringElement_congr hentry
    rw [hsame]
    exact isUnit_sampleF
  solvable := ⟨fun j => (ofCoeffs [3, -1] j : Int8).toInt, by decide, mul_comm _ _⟩

theorem sokoPrepareFalconKeyMaterial_spec_sample :
    ∃ material, sokoPrepareFalconKeyMaterial 1 true (falconKeygenMake 1 [1, 0] [3, -1] [1, 0]
        (List.replicate 7 0) (List.replicate 5 0) 285 (fun _ => 0) fun _ => 0) (fun _ => 0)
        (fun _ => 0) (fun _ => 0) = .ok material ∧ Prepared 1 [1, 0] [3, -1] [1, 0] material :=
  sokoPrepareFalconKeyMaterial_spec generatedKey_sample rfl rfl (by decide) _ _ _ _ _

theorem falconMakePublic_spec_sample :
    let made := falconKeygenMake 1 [1, 0] [3, -1] [1, 0] (List.replicate 7 0)
      (List.replicate 5 0) 285 (fun _ => 0) fun _ => 0
    made.status = none ∧ falconMakePublic (List.replicate 5 0) made.privkey 13 (fun _ => 0)
      (fun _ => 0) = .ok made.pubkey :=
  falconMakePublic_spec generatedKey_sample rfl rfl (by decide) _ _ rfl (by decide) _ _

end Soko.FnDsa
