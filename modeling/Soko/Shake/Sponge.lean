import Soko.Library.Phases
import Soko.Shake.Keccak

/-!
The two SHAKE256 sponges. The CPU injects the nonce and the message byte by byte,
pads, and extracts in pieces; the device builds the only padded block of its
input, absorbs it lane by lane, and extracts single bytes. Both see the same
stream of bytes (`extract_absorbed`).
-/

namespace Soko.Shake

open Soko.Library

/-- `inner_shake256_context`. -/
structure InnerShake256Context where
  A : ℕ → UInt64
  dptr : ℕ

/-- `shake256_device_ctx`. -/
structure Shake256DeviceCtx where
  st : ℕ → UInt64
  dptr : ℕ

/-- The word that byte `v` of the state adds to its lane. -/
def byteWord (v : ℕ) (byte : UInt8) : UInt64 := byte.toUInt64 <<< UInt64.ofNat (v % 8 * 8)

/-- `A[v >> 3] ^= (uint64_t)byte << ((v & 7) << 3)`. -/
def xorByte (A : ℕ → UInt64) (v : ℕ) (byte : UInt8) : ℕ → UInt64 :=
  Function.update A (v / 8) (A (v / 8) ^^^ byteWord v byte)

def stateByte (A : ℕ → UInt64) (dptr : ℕ) : UInt8 :=
  (A (dptr / 8) >>> UInt64.ofNat (dptr % 8 * 8)).toUInt8

/-! The CPU. Where the source keeps the lanes in memory as bytes, it does so on
little-endian machines only; the lanes are as below. -/

def iShake256Init : InnerShake256Context := { A := fun _ => 0, dptr := 0 }

/-- The loop over the bytes in `i_shake256_inject`. -/
def injectBytes (A : ℕ → UInt64) (dptr : ℕ) : List UInt8 → ℕ → UInt64
  | [] => A
  | byte :: rest => injectBytes (xorByte A dptr byte) (dptr + 1) rest

def iShake256Inject (sc : InnerShake256Context) (input : List UInt8) : InnerShake256Context :=
  if 0 < input.length ∧ sc.dptr < 136 then
    let clen := min (136 - sc.dptr) input.length
    let A := injectBytes sc.A sc.dptr (input.take clen)
    let dptr := sc.dptr + clen
    iShake256Inject (if dptr = 136 then { A := processBlock A, dptr := 0 } else { A, dptr })
      (input.drop clen)
  else sc
  termination_by input.length
  decreasing_by
    rw [List.length_drop]
    omega

def iShake256Flip (sc : InnerShake256Context) : InnerShake256Context :=
  let A := xorByte sc.A sc.dptr 0x1F
  { A := Function.update A 16 (A 16 ^^^ (0x80 : UInt64) <<< 56), dptr := 136 }

/-- A state that has been read to its end is processed before the next byte. -/
def processFull (sc : InnerShake256Context) : InnerShake256Context :=
  if sc.dptr = 136 then { A := processBlock sc.A, dptr := 0 } else sc

theorem processFull_dptr_lt {sc : InnerShake256Context} (hdptr : sc.dptr ≤ 136) :
    (processFull sc).dptr < 136 := by
  rw [processFull]
  split
  · exact Nat.zero_lt_succ _
  · omega

def iShake256Extract (sc : InnerShake256Context) (len : ℕ) : List UInt8 × InnerShake256Context :=
  if 0 < len ∧ sc.dptr ≤ 136 then
    let sc := processFull sc
    let clen := min (136 - sc.dptr) len
    let out := (List.range' sc.dptr clen).map (stateByte sc.A)
    let rest := iShake256Extract { sc with dptr := sc.dptr + clen } (len - clen)
    (out ++ rest.1, rest.2)
  else ([], sc)
  termination_by len
  decreasing_by
    obtain ⟨_, hdptr⟩ := ‹0 < len ∧ _›
    have hlt := processFull_dptr_lt hdptr
    omega

def messageByte (token i : ℕ) : UInt8 :=
  ((Int32.ofNat token * 131 + Int32.ofNat i * 17) &&& 0xFF).toUInt32.toUInt8

def fillMessage (msgLen token : ℕ) : List UInt8 := (List.range msgLen).map (messageByte token)

/-- `SOKO_FALCON_MSG_SIZE`, and `OOFALCON_VERIFY_BENCH_MSG_SIZE` of the device. -/
def msgSize : ℕ := 64

/-! The device. -/

def shake256DeviceInit : Shake256DeviceCtx := { st := fun _ => 0, dptr := 0 }

/-- The nonce and the message, in the block of `shake256_device_absorb_bench_input`. -/
def benchInput (nonce : ℕ → UInt8) (token : ℕ) : ℕ → UInt8 :=
  let block := (List.range 40).foldl (fun block i => Function.update block i (nonce i)) fun _ => 0
  (List.range msgSize).foldl (fun block i =>
    Function.update block (40 + i) (messageByte token i)) block

/-- The block of `shake256_device_absorb_bench_input`. -/
def benchBlock (nonce : ℕ → UInt8) (token : ℕ) : ℕ → UInt8 :=
  let block := Function.update (benchInput nonce token) (40 + msgSize) 0x1F
  Function.update block 135 (block 135 ||| 0x80)

/-- The first `bytes` iterations of the loop that assembles a lane. -/
def partialLane (block : ℕ → UInt8) (i bytes : ℕ) : UInt64 :=
  (List.range bytes).foldl (fun lane j =>
    lane ||| ((block (8 * i + j)).toUInt64 <<< UInt64.ofNat (j * 8))) 0

def blockLane (block : ℕ → UInt8) (i : ℕ) : UInt64 := partialLane block i 8

def shake256DeviceAbsorbBenchInput (sc : Shake256DeviceCtx) (nonce : ℕ → UInt8) (token : ℕ) :
    Shake256DeviceCtx :=
  let block := benchBlock nonce token
  let st := (List.range 17).foldl (fun st i =>
    Function.update st i (st i ^^^ blockLane block i)) sc.st
  { st := keccakf1600Device st, dptr := 0 }

/-- The test of `shake256_device_extract_byte` for a state that has been read to its
end. -/
def processFullDevice (sc : Shake256DeviceCtx) : Shake256DeviceCtx :=
  if sc.dptr = 136 then { st := keccakf1600Device sc.st, dptr := 0 } else sc

def shake256DeviceExtractByte (sc : Shake256DeviceCtx) : UInt8 × Shake256DeviceCtx :=
  let sc := processFullDevice sc
  (stateByte sc.st sc.dptr, { sc with dptr := sc.dptr + 1 })

/-- The bytes of `len` calls of `shake256_device_extract_byte`. -/
def extractBytes : ℕ → Shake256DeviceCtx → List UInt8 × Shake256DeviceCtx
  | 0, sc => ([], sc)
  | len + 1, sc =>
      let first := shake256DeviceExtractByte sc
      let rest := extractBytes len first.2
      (first.1 :: rest.1, rest.2)

section Absorbing

/-- Input that does not fill the block is injected at once. -/
theorem iShake256Inject_of_lt {sc : InnerShake256Context} {input : List UInt8}
    (hlt : sc.dptr + input.length < 136) :
    iShake256Inject sc input =
      { A := injectBytes sc.A sc.dptr input, dptr := sc.dptr + input.length } := by
  rw [iShake256Inject]
  cases input with
  | nil => rfl
  | cons byte rest =>
      rw [List.length_cons] at hlt
      have hclen : min (136 - sc.dptr) (byte :: rest).length = (byte :: rest).length := by
        rw [List.length_cons]
        omega
      rw [if_pos ⟨by simp, by omega⟩]
      simp only [hclen, List.take_length, List.drop_length]
      rw [if_neg (by rw [List.length_cons]; omega), iShake256Inject, if_neg (by simp)]

theorem injectBytes_map (block : ℕ → UInt8) (A : ℕ → UInt64) (dptr n : ℕ) :
    injectBytes A dptr ((List.range' dptr n).map block) =
      (List.range' dptr n).foldl (fun A v => xorByte A v (block v)) A := by
  induction n generalizing A dptr with
  | zero => rfl
  | succ n ih => exact ih (xorByte A dptr (block dptr)) (dptr + 1)

theorem or_shiftLeft_eq_xor {x : UInt64} (z : UInt64) {s : ℕ} (hs : s < 64)
    (hx : x.toNat < 2 ^ s) : x ||| z <<< UInt64.ofNat s = x ^^^ z <<< UInt64.ofNat s := by
  apply UInt64.toNat_inj.mp
  apply Nat.eq_of_testBit_eq
  intro i
  rw [UInt64.toNat_or, UInt64.toNat_xor, Nat.testBit_or, Nat.testBit_xor]
  by_cases hi : i < s
  · have hlow : (z <<< UInt64.ofNat s).toNat.testBit i = false := by
      have hshift : (UInt64.ofNat s).toNat % 64 = s := by
        rw [UInt64.toNat_ofNat_of_lt' (by unfold UInt64.size; omega), Nat.mod_eq_of_lt hs]
      rw [UInt64.toNat_shiftLeft, hshift, Nat.testBit_mod_two_pow, Nat.testBit_shiftLeft]
      simp [hi]
    rw [hlow, Bool.or_false, Bool.xor_false]
  · have hhigh : x.toNat.testBit i = false :=
      Nat.testBit_lt_two_pow (hx.trans_le (Nat.pow_le_pow_right two_pos (by omega)))
    rw [hhigh, Bool.false_or, Bool.false_xor]

theorem partialLane_succ (block : ℕ → UInt8) (i k : ℕ) :
    partialLane block i (k + 1) =
      partialLane block i k ||| ((block (8 * i + k)).toUInt64 <<< UInt64.ofNat (k * 8)) := by
  rw [partialLane, List.range_succ, List.foldl_append]
  rfl

theorem partialLane_lt (block : ℕ → UInt8) (i : ℕ) {k : ℕ} (hk : k ≤ 8) :
    (partialLane block i k).toNat < 2 ^ (k * 8) := by
  induction k with
  | zero => exact Nat.one_pos
  | succ k ih =>
      have hpow : 2 ^ ((k + 1) * 8) = 2 ^ (k * 8) * 2 ^ 8 := by rw [← Nat.pow_add]; congr 1; omega
      have hshift : (UInt64.ofNat (k * 8)).toNat % 64 = k * 8 := by
        rw [UInt64.toNat_ofNat_of_lt' (by unfold UInt64.size; omega), Nat.mod_eq_of_lt (by omega)]
      have hbyte := (block (8 * i + k)).toNat_lt
      rw [partialLane_succ, UInt64.toNat_or]
      apply Nat.or_lt_two_pow
      · exact (ih (by omega)).trans_le (Nat.pow_le_pow_right two_pos (by omega))
      · rw [UInt64.toNat_shiftLeft, hshift, UInt8.toNat_toUInt64, Nat.shiftLeft_eq]
        refine (Nat.mod_le _ _).trans_lt ?_
        rw [hpow, Nat.mul_comm]
        exact Nat.mul_lt_mul_of_pos_left hbyte (Nat.two_pow_pos _)

/-- The bytes of a lane, injected one after the other. -/
theorem foldl_xorByte_lane (block : ℕ → UInt8) (st : ℕ → UInt64) (i : ℕ) {k : ℕ} (hk : k ≤ 8) :
    (List.range' (8 * i) k).foldl (fun A v => xorByte A v (block v)) st =
      Function.update st i (st i ^^^ partialLane block i k) := by
  induction k with
  | zero =>
      rw [show partialLane block i 0 = 0 from rfl, UInt64.xor_zero, Function.update_eq_self]
      rfl
  | succ k ih =>
      have hdiv : (8 * i + k) / 8 = i := by omega
      have hmod : (8 * i + k) % 8 * 8 = k * 8 := by omega
      have hword : partialLane block i k ^^^ byteWord (8 * i + k) (block (8 * i + k)) =
          partialLane block i (k + 1) := by
        rw [partialLane_succ, byteWord, hmod,
          or_shiftLeft_eq_xor _ (by omega) (partialLane_lt block i (by omega))]
      rw [List.range'_1_concat, List.foldl_append, ih (by omega), List.foldl_cons, List.foldl_nil,
        xorByte, hdiv, Function.update_self, Function.update_idem, UInt64.xor_assoc, hword]

theorem foldl_xorByte_block (block : ℕ → UInt8) (st : ℕ → UInt64) :
    (List.range' 0 136).foldl (fun A v => xorByte A v (block v)) st =
      (List.range 17).foldl (fun st i => Function.update st i (st i ^^^ blockLane block i)) st := by
  have hbytes : List.range' 0 136 = (List.range 17).flatMap fun i => List.range' (8 * i) 8 := rfl
  rw [hbytes, List.foldl_flatMap]
  exact List.foldl_ext _ _ _ fun st i _ => foldl_xorByte_lane block st i le_rfl

section Block

variable (nonce : ℕ → UInt8) (token : ℕ)

theorem benchInput_spec :
    (∀ v < 40, benchInput nonce token v = nonce v) ∧
      (∀ i < 64, benchInput nonce token (40 + i) = messageByte token i) ∧
      (∀ v, 104 ≤ v → benchInput nonce token v = 0) := by
  have hframe : ∀ (block : ℕ → UInt8) (v : ℕ), v < 40 ∨ 104 ≤ v → (List.range 64).foldl
      (fun block i => Function.update block (40 + i) (messageByte token i)) block v = block v := by
    intro block v hv
    refine runTasks_scatterTask_of_ne (40 + ·) (messageByte token) (fun i hi => ?_) block
    have hlt := List.mem_range.mp hi
    show 40 + i ≠ v
    omega
  refine ⟨fun v hv => ?_, fun i hi => ?_, fun v hv => ?_⟩
  · refine (hframe _ v (.inl hv)).trans ?_
    exact runTasks_scatterTask id nonce List.nodup_range Function.injective_id.injOn _
      (List.mem_range.mpr hv)
  · exact runTasks_scatterTask (40 + ·) (messageByte token) List.nodup_range
      (fun a _ b _ hab => Nat.add_left_cancel hab) _ (List.mem_range.mpr hi)
  · refine (hframe _ v (.inr hv)).trans ?_
    refine runTasks_scatterTask_of_ne id nonce (fun i hi => ?_) _
    have hlt := List.mem_range.mp hi
    show i ≠ v
    omega

theorem benchBlock_of_ne {v : ℕ} (hfirst : v ≠ 104) (hlast : v ≠ 135) :
    benchBlock nonce token v = benchInput nonce token v := by
  simp only [benchBlock, msgSize]
  rw [Function.update_of_ne hlast, Function.update_of_ne hfirst]

@[simp] theorem benchBlock_first : benchBlock nonce token 104 = 0x1F := rfl

@[simp] theorem benchBlock_last : benchBlock nonce token 135 = 0x80 := by
  simp only [benchBlock, msgSize]
  rw [Function.update_self, Function.update_of_ne (by omega),
    (benchInput_spec nonce token).2.2 135 (by omega)]
  rfl

@[simp] theorem xorByte_zero (A : ℕ → UInt64) (v : ℕ) : xorByte A v 0 = A := by
  have hword : byteWord v 0 = 0 := by
    rw [byteWord]
    simp
  rw [xorByte, hword, UInt64.xor_zero, Function.update_eq_self]

theorem foldl_xorByte_zero {block : ℕ → UInt8} {l : List ℕ} (hl : ∀ v ∈ l, block v = 0)
    (A : ℕ → UInt64) : l.foldl (fun A v => xorByte A v (block v)) A = A := by
  induction l with
  | nil => rfl
  | cons v l ih =>
      obtain ⟨hv, hl⟩ := List.forall_mem_cons.mp hl
      rw [List.foldl_cons, hv, xorByte_zero, ih hl]

/-- The state of the CPU after the nonce, the message and the padding. -/
def absorbed : InnerShake256Context :=
  iShake256Flip (iShake256Inject
    (iShake256Inject iShake256Init ((List.range 40).map nonce)) (fillMessage msgSize token))

theorem absorbed_A : (absorbed nonce token).A =
    (List.range' 0 136).foldl (fun A v => xorByte A v (benchBlock nonce token v)) fun _ => 0 := by
  obtain ⟨hnonce, hmessage, hzero⟩ := benchInput_spec nonce token
  have hnonces : (List.range 40).map nonce =
      (List.range' 0 40).map (benchBlock nonce token) := by
    rw [List.range_eq_range']
    refine List.map_congr_left fun v hv => ?_
    have hv := List.mem_range'_1.mp hv
    rw [benchBlock_of_ne nonce token (by omega) (by omega), hnonce v (by omega)]
  have hmessages : fillMessage msgSize token =
      (List.range' 40 64).map (benchBlock nonce token) := by
    rw [fillMessage, msgSize, List.range'_eq_map_range, List.map_map]
    refine List.map_congr_left fun i hi => ?_
    have hi := List.mem_range.mp hi
    rw [Function.comp_apply, benchBlock_of_ne nonce token (by omega) (by omega), hmessage i hi]
  have hzeros : ∀ A : ℕ → UInt64,
      (List.range' 105 30).foldl (fun A v => xorByte A v (benchBlock nonce token v)) A = A := by
    refine foldl_xorByte_zero fun v hv => ?_
    have hv := List.mem_range'_1.mp hv
    rw [benchBlock_of_ne nonce token (by omega) (by omega), hzero v (by omega)]
  have hsplit : List.range' 0 136 =
      List.range' 0 40 ++ List.range' 40 64 ++ [104] ++ List.range' 105 30 ++ [135] := rfl
  rw [hsplit]
  simp only [List.foldl_append, hzeros, List.foldl_cons, List.foldl_nil, benchBlock_first,
    benchBlock_last, ← injectBytes_map, ← hnonces, ← hmessages]
  have hfirst : iShake256Inject iShake256Init ((List.range 40).map nonce) =
      { A := injectBytes (fun _ => 0) 0 ((List.range 40).map nonce), dptr := 40 } :=
    iShake256Inject_of_lt (by simp [iShake256Init])
  rw [absorbed, hfirst, iShake256Inject_of_lt (by simp [fillMessage, msgSize])]
  rfl

end Block

end Absorbing

section Extracting

/-- The device reads on where the CPU does. -/
structure Agrees (sc : InnerShake256Context) (dev : Shake256DeviceCtx) : Prop where
  dptr_le : sc.dptr ≤ 136
  processed : processFullDevice dev =
    { st := (processFull sc).A, dptr := (processFull sc).dptr }

/-- After absorbing, the device has already processed the block. -/
theorem agrees_absorbed (nonce : ℕ → UInt8) (token : ℕ) :
    Agrees (absorbed nonce token)
      (shake256DeviceAbsorbBenchInput shake256DeviceInit nonce token) := by
  refine ⟨le_rfl, ?_⟩
  have hcpu : processFull (absorbed nonce token) =
      { A := processBlock (absorbed nonce token).A, dptr := 0 } := rfl
  rw [hcpu, processBlock_eq, absorbed_A, foldl_xorByte_block]
  rfl

theorem processFullDevice_of_lt {dev : Shake256DeviceCtx} (hlt : dev.dptr < 136) :
    processFullDevice dev = dev := if_neg (by omega)

theorem processFullDevice_dptr_lt {dev : Shake256DeviceCtx} (hdptr : dev.dptr ≤ 136) :
    (processFullDevice dev).dptr < 136 := by
  rw [processFullDevice]
  split
  · exact Nat.zero_lt_succ _
  · omega

theorem Agrees.of_same {A : ℕ → UInt64} {dptr : ℕ} (hdptr : dptr ≤ 136) :
    Agrees { A, dptr } { st := A, dptr } := by
  refine ⟨hdptr, ?_⟩
  rw [processFullDevice, processFull]
  split
  · rw [processBlock_eq]
  · rfl

/-- Several bytes, as long as the state is not processed in between. -/
theorem extractBytes_of_le (st : ℕ → UInt64) {dptr len : ℕ} (hle : dptr + len ≤ 136) :
    extractBytes len { st, dptr } =
      ((List.range' dptr len).map (stateByte st), { st, dptr := dptr + len }) := by
  induction len generalizing dptr with
  | zero => rfl
  | succ len ih =>
      have hready : processFullDevice { st, dptr } = { st, dptr } :=
        processFullDevice_of_lt (by show dptr < 136; omega)
      simp only [extractBytes, shake256DeviceExtractByte, hready]
      rw [ih (by omega), List.range'_succ, List.map_cons, Nat.add_assoc, Nat.add_comm 1 len]

theorem extractBytes_add (k len : ℕ) (dev : Shake256DeviceCtx) :
    extractBytes (k + len) dev =
      ((extractBytes k dev).1 ++ (extractBytes len (extractBytes k dev).2).1,
        (extractBytes len (extractBytes k dev).2).2) := by
  induction k generalizing dev with
  | zero => rw [Nat.zero_add]; rfl
  | succ k ih =>
      rw [Nat.add_right_comm, extractBytes, ih]
      rfl

/-- The first of several bytes finds the state processed. -/
theorem extractBytes_processFullDevice {len : ℕ} (hlen : 0 < len) {dev : Shake256DeviceCtx}
    (hdptr : dev.dptr ≤ 136) :
    extractBytes len (processFullDevice dev) = extractBytes len dev := by
  obtain ⟨more, rfl⟩ : ∃ more, len = more + 1 := ⟨len - 1, by omega⟩
  have hready := processFullDevice_of_lt (processFullDevice_dptr_lt hdptr)
  simp only [extractBytes, shake256DeviceExtractByte, hready]

theorem iShake256Extract_eq (len : ℕ) {sc : InnerShake256Context} {dev : Shake256DeviceCtx}
    (hagrees : Agrees sc dev) (hdev : dev.dptr ≤ 136) :
    (iShake256Extract sc len).1 = (extractBytes len dev).1 ∧
      Agrees (iShake256Extract sc len).2 (extractBytes len dev).2 ∧
      (extractBytes len dev).2.dptr ≤ 136 := by
  induction len using Nat.strong_induction_on generalizing sc dev with
  | _ len ih =>
      rw [iShake256Extract]
      by_cases hlen : 0 < len
      · obtain ⟨hdptr, hprocessed⟩ := hagrees
        have hlt := processFull_dptr_lt hdptr
        obtain ⟨clen, hclen⟩ : ∃ clen, clen = min (136 - (processFull sc).dptr) len := ⟨_, rfl⟩
        obtain ⟨rest, hrest⟩ : ∃ rest, len = clen + rest := ⟨len - clen, by omega⟩
        have hsub : len - clen = rest := by omega
        -- The bytes of this piece come from one state.
        have hle : (processFull sc).dptr + clen ≤ 136 := by omega
        have hpiece := extractBytes_of_le (processFull sc).A hle
        have hnext : Agrees
            { processFull sc with dptr := (processFull sc).dptr + clen }
            { st := (processFull sc).A, dptr := (processFull sc).dptr + clen } :=
          .of_same (by omega)
        obtain ⟨hbytes, hagrees', hdptr'⟩ := ih rest (by omega) hnext
          (by show (processFull sc).dptr + clen ≤ 136; omega)
        rw [if_pos ⟨hlen, hdptr⟩, ← extractBytes_processFullDevice hlen hdev, hprocessed]
        simp only [← hclen, hsub]
        rw [hrest, extractBytes_add, hpiece, hbytes]
        exact ⟨rfl, hagrees', hdptr'⟩
      · have hzero : len = 0 := by omega
        subst hzero
        rw [if_neg (by omega)]
        exact ⟨rfl, hagrees, hdev⟩

/-- The bytes for a nonce and a token are the same on the CPU and on the device. -/
theorem extract_absorbed (nonce : ℕ → UInt8) (token len : ℕ) :
    (iShake256Extract (absorbed nonce token) len).1 =
      (extractBytes len
        (shake256DeviceAbsorbBenchInput shake256DeviceInit nonce token)).1 :=
  (iShake256Extract_eq len (agrees_absorbed nonce token) (Nat.zero_le 136)).1

@[simp] theorem extractBytes_length (len : ℕ) (dev : Shake256DeviceCtx) :
    (extractBytes len dev).1.length = len := by
  induction len generalizing dev with
  | zero => rfl
  | succ len ih => rw [extractBytes, List.length_cons, ih]

/-- The device has the permutation of the CPU, and gives the bytes of the CPU for every
nonce and token, over any number of blocks. -/
theorem device_keccak_eq :
    (∀ A : ℕ → UInt64, keccakf1600Device A = processBlock A) ∧
      ∀ (nonce : ℕ → UInt8) (token k : ℕ),
        let device := shake256DeviceAbsorbBenchInput shake256DeviceInit nonce token
        let nonced := iShake256Inject iShake256Init ((List.range 40).map nonce)
        let cpu := iShake256Flip (iShake256Inject nonced (fillMessage msgSize token))
        (extractBytes k device).1 = (iShake256Extract cpu k).1 ∧
          (extractBytes k device).1.length = k := by
  refine ⟨fun A => (processBlock_eq A).symm, fun nonce token k => ⟨?_, ?_⟩⟩
  · exact (extract_absorbed nonce token k).symm
  · exact extractBytes_length k _

end Extracting

end Soko.Shake
