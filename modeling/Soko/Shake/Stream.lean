import Soko.Library.Sponge
import Soko.Shake.Sponge

/-!
SHAKE256 of `submodules/FN-DSA/shake.c` as a sponge. The message may be injected and the
output extracted in any pieces: what comes out is SHAKE256 of the whole message, and so is
what the device extracts (`shake256_pieces`).
-/

namespace Soko.Shake

open Soko.Library

/-- The permutation and the bytes of the state. -/
def shakeSponge : Sponge (ℕ → UInt64) UInt8 where
  rate := 136
  rate_pos := by decide
  perm := processBlock
  add := xorByte
  read := stateByte

def padding (len : ℕ) : List UInt8 :=
  if len % 136 = 135 then [0x9F] else 0x1F :: List.replicate (134 - len % 136) 0 ++ [0x80]

def shake256 (message : List UInt8) (len : ℕ) : List UInt8 :=
  let state := shakeSponge.absorb (fun _ => 0) (message ++ padding message.length)
  (List.range len).map (shakeSponge.output state)

/-- What several calls of `i_shake256_extract` return. -/
def extractPieces : List ℕ → InnerShake256Context → List (List UInt8)
  | [], _ => []
  | len :: lens, sc =>
      let extracted := iShake256Extract sc len
      extracted.1 :: extractPieces lens extracted.2

section Injecting

def InnerShake256Context.cursor (sc : InnerShake256Context) : (ℕ → UInt64) × ℕ := (sc.A, sc.dptr)

theorem injectBytes_eq (A : ℕ → UInt64) (dptr : ℕ) (input : List UInt8) :
    injectBytes A dptr input = shakeSponge.addList A dptr input := by
  induction input generalizing A dptr with
  | nil => rfl
  | cons byte input ih => exact ih (xorByte A dptr byte) (dptr + 1)

theorem cursor_iShake256Inject {sc : InnerShake256Context} (hdptr : sc.dptr < 136)
    (input : List UInt8) :
    (iShake256Inject sc input).cursor = input.foldl shakeSponge.push sc.cursor := by
  induction hlen : input.length using Nat.strong_induction_on generalizing sc input with
  | _ n ih =>
      rw [iShake256Inject]
      by_cases hpos : 0 < input.length
      · obtain ⟨clen, hclen⟩ : ∃ clen, clen = min (136 - sc.dptr) input.length := ⟨_, rfl⟩
        obtain ⟨piece, hpiece⟩ : ∃ piece, piece = input.take clen := ⟨_, rfl⟩
        obtain ⟨rest, hrest⟩ : ∃ rest, rest = input.drop clen := ⟨_, rfl⟩
        have hsplit : input = piece ++ rest := by rw [hpiece, hrest, List.take_append_drop]
        have hlength : piece.length = clen := by
          rw [hpiece, List.length_take]
          omega
        have hshorter : rest.length < n := by
          rw [hrest, List.length_drop]
          omega
        rw [if_pos ⟨hpos, hdptr⟩, ← hclen]
        dsimp only
        rw [← hpiece, ← hrest, hsplit, List.foldl_append]
        by_cases hfull : sc.dptr + clen = 136
        · have hblock : piece.foldl shakeSponge.push sc.cursor =
              (processBlock (injectBytes sc.A sc.dptr piece), 0) := by
            rw [injectBytes_eq]
            exact shakeSponge.foldl_push_of_eq (List.length_pos_iff.mp (by omega))
              (by rw [hlength]; exact hfull)
          rw [if_pos hfull, hblock]
          exact ih rest.length hshorter (show 0 < 136 by decide) rest rfl
        · have hpart : piece.foldl shakeSponge.push sc.cursor =
              (injectBytes sc.A sc.dptr piece, sc.dptr + clen) := by
            rw [injectBytes_eq, ← hlength]
            exact shakeSponge.foldl_push_of_lt
              (show sc.dptr + piece.length < 136 by omega)
          rw [if_neg hfull, hpart]
          exact ih rest.length hshorter (show sc.dptr + clen < 136 by omega) rest rfl
      · obtain rfl : input = [] := List.length_eq_zero_iff.mp (by omega)
        rw [if_neg (by simp)]
        rfl

theorem cursor_snd_lt {sc : InnerShake256Context} (hdptr : sc.dptr < 136) (input : List UInt8) :
    (iShake256Inject sc input).dptr < 136 := by
  have hcursor := congrArg Prod.snd (cursor_iShake256Inject hdptr input)
  have hplace : (input.foldl shakeSponge.push sc.cursor).2 = (sc.dptr + input.length) % 136 :=
    shakeSponge.foldl_push_snd hdptr input
  rw [hplace] at hcursor
  rw [show (iShake256Inject sc input).dptr = _ from hcursor]
  exact Nat.mod_lt _ (by decide)

theorem cursor_foldl_inject {sc : InnerShake256Context} (hdptr : sc.dptr < 136)
    (chunks : List (List UInt8)) :
    (chunks.foldl iShake256Inject sc).cursor =
      chunks.flatten.foldl shakeSponge.push sc.cursor := by
  induction chunks generalizing sc with
  | nil => rfl
  | cons chunk chunks ih =>
      rw [List.foldl_cons, ih (cursor_snd_lt hdptr chunk), List.flatten_cons, List.foldl_append,
        cursor_iShake256Inject hdptr]

@[simp] theorem addList_replicate_zero (A : ℕ → UInt64) (p n : ℕ) :
    shakeSponge.addList A p (List.replicate n 0) = A := by
  induction n generalizing p with
  | zero => rfl
  | succ n ih =>
      rw [List.replicate_succ]
      exact (congrArg (fun A => shakeSponge.addList A (p + 1) _) (xorByte_zero A p)).trans
        (ih (p + 1))

/-- The two bytes of the padding, in the last place of a block. -/
theorem xorByte_xorByte_last (A : ℕ → UInt64) :
    xorByte (xorByte A 135 0x1F) 135 0x80 = xorByte A 135 0x9F := by
  have hword : byteWord 135 0x9F = byteWord 135 0x1F ^^^ byteWord 135 0x80 := by decide
  simp only [xorByte, Function.update_self, Function.update_idem]
  rw [hword, UInt64.xor_assoc]

theorem cursor_iShake256Flip {sc : InnerShake256Context} {len : ℕ} (hdptr : sc.dptr = len % 136) :
    (iShake256Flip sc).cursor = (shakeSponge.addList sc.A sc.dptr (padding len), 136) := by
  have hlt := Nat.mod_lt len (show 0 < 136 by decide)
  have hlast : ∀ A, Function.update A 16 (A 16 ^^^ (0x80 : UInt64) <<< 56) = xorByte A 135 0x80 :=
    fun A => rfl
  refine Prod.ext ?_ rfl
  show (iShake256Flip sc).A = _
  rw [iShake256Flip, hlast, padding]
  by_cases htop : len % 136 = 135
  · rw [if_pos htop, hdptr, htop, xorByte_xorByte_last]
    rfl
  · rw [if_neg htop, Sponge.addList_append, List.length_cons, List.length_replicate,
      show sc.dptr + (134 - len % 136 + 1) = 135 by omega]
    have hzeros := addList_replicate_zero (xorByte sc.A sc.dptr 0x1F) (sc.dptr + 1)
      (134 - len % 136)
    exact congrArg (fun A => xorByte A 135 0x80) hzeros.symm

theorem padding_length (len : ℕ) : len % 136 + (padding len).length = 136 := by
  have hlt := Nat.mod_lt len (show 0 < 136 by decide)
  rw [padding]
  split
  · next htop => rw [htop]; rfl
  · next htop =>
      simp only [List.length_append, List.length_cons, List.length_replicate, List.length_nil]
      omega

/-- The state that is read is that of the padded message. -/
theorem processBlock_flip (chunks : List (List UInt8)) :
    let sc := iShake256Flip (chunks.foldl iShake256Inject iShake256Init)
    sc.dptr = 136 ∧ processBlock sc.A =
      shakeSponge.absorb (fun _ => 0) (chunks.flatten ++ padding chunks.flatten.length) := by
  intro sc
  have hcursor := cursor_foldl_inject (show iShake256Init.dptr < 136 by decide) chunks
  have hdptr : (chunks.foldl iShake256Inject iShake256Init).dptr = chunks.flatten.length % 136 := by
    have hplace : (chunks.flatten.foldl shakeSponge.push iShake256Init.cursor).2 =
        (0 + chunks.flatten.length) % 136 :=
      shakeSponge.foldl_push_snd (show 0 < 136 by decide) _
    rw [Nat.zero_add, ← hcursor] at hplace
    exact hplace
  have hlength := padding_length chunks.flatten.length
  have hne : padding chunks.flatten.length ≠ [] := by
    intro hnil
    have hlt := Nat.mod_lt chunks.flatten.length (show 0 < 136 by decide)
    rw [hnil, List.length_nil] at hlength
    omega
  have habsorb := shakeSponge.absorb_append (s := fun _ => 0) hne hlength
  have hstate : sc.A = shakeSponge.addList _ _ _ :=
    congrArg Prod.fst (cursor_iShake256Flip hdptr)
  refine ⟨rfl, ?_⟩
  rw [habsorb, hstate]
  have hpair : (fun _ => 0, 0) = iShake256Init.cursor := rfl
  rw [hpair, ← hcursor]
  rfl

end Injecting

section Extracting

theorem extractBytes_eq_pullMany (len : ℕ) (dev : Shake256DeviceCtx) :
    (extractBytes len dev).1 = (shakeSponge.pullMany len (dev.st, dev.dptr)).1 := by
  induction len generalizing dev with
  | zero => rfl
  | succ len ih =>
      have hready : ((processFullDevice dev).st, (processFullDevice dev).dptr) =
          shakeSponge.ready (dev.st, dev.dptr) := by
        rw [processFullDevice, Sponge.ready]
        show _ = if dev.dptr = 136 then (processBlock dev.st, 0) else (dev.st, dev.dptr)
        rw [processBlock_eq]
        split <;> rfl
      rw [extractBytes, Sponge.pullMany]
      dsimp only
      rw [ih, shake256DeviceExtractByte, Sponge.pull]
      dsimp only
      rw [← hready]
      rfl

theorem flatten_extractPieces (lens : List ℕ) {sc : InnerShake256Context} {dev : Shake256DeviceCtx}
    (hagrees : Agrees sc dev) (hdev : dev.dptr ≤ 136) :
    (extractPieces lens sc).flatten = (extractBytes lens.sum dev).1 ∧
      (extractPieces lens sc).map List.length = lens := by
  induction lens generalizing sc dev with
  | nil => exact ⟨rfl, rfl⟩
  | cons len lens ih =>
      obtain ⟨hbytes, hagrees', hdev'⟩ := iShake256Extract_eq len hagrees hdev
      obtain ⟨hrest, hlengths⟩ := ih hagrees' hdev'
      rw [extractPieces, List.flatten_cons, List.map_cons, hrest, hlengths, hbytes, List.sum_cons,
        extractBytes_add, extractBytes_length]
      exact ⟨rfl, rfl⟩

/-- The output of a context whose input has been padded. -/
theorem extractBytes_full (len : ℕ) (A : ℕ → UInt64) :
    (extractBytes len { st := A, dptr := 136 }).1 =
      (List.range len).map (shakeSponge.output (processBlock A)) := by
  rw [extractBytes_eq_pullMany]
  rcases Nat.eq_zero_or_pos len with rfl | hpos
  · rfl
  · have hfull : shakeSponge.pullMany len (A, 136) =
        shakeSponge.pullMany len (processBlock A, 0) := shakeSponge.pullMany_of_full hpos A
    rw [hfull, Sponge.pullMany_eq]

theorem flatten_extractPieces_flip (chunks : List (List UInt8)) (lens : List ℕ) :
    let sc := iShake256Flip (chunks.foldl iShake256Inject iShake256Init)
    (extractPieces lens sc).flatten = shake256 chunks.flatten lens.sum ∧
      (extractPieces lens sc).map List.length = lens := by
  intro sc
  obtain ⟨hdptr, hstate⟩ := processBlock_flip chunks
  have hagrees : Agrees sc { st := sc.A, dptr := 136 } := .of_same (show 136 ≤ 136 from le_rfl)
  obtain ⟨hflatten, hlengths⟩ := flatten_extractPieces lens hagrees le_rfl
  refine ⟨?_, hlengths⟩
  rw [hflatten, extractBytes_full, hstate]
  rfl

theorem extractBytes_benchInput (nonce : ℕ → UInt8) (token len : ℕ) :
    (extractBytes len (shake256DeviceAbsorbBenchInput shake256DeviceInit nonce token)).1 =
      shake256 ((List.range 40).map nonce ++ fillMessage msgSize token) len := by
  obtain ⟨hflatten, -⟩ :=
    flatten_extractPieces_flip [(List.range 40).map nonce, fillMessage msgSize token] [len]
  rw [List.flatten_cons, List.flatten_cons, List.flatten_nil, List.append_nil] at hflatten
  rw [← extract_absorbed]
  simpa [extractPieces, absorbed] using hflatten

/-- The pieces that `shake.c` extracts make up SHAKE256 of the pieces that have been injected.
The device extracts SHAKE256 of the nonce and the message. -/
theorem shake256_pieces :
    (∀ (chunks : List (List UInt8)) (lens : List ℕ),
      let sc := iShake256Flip (chunks.foldl iShake256Inject iShake256Init)
      (extractPieces lens sc).flatten = shake256 chunks.flatten lens.sum ∧
        (extractPieces lens sc).map List.length = lens) ∧
    ∀ (nonce : ℕ → UInt8) (token len : ℕ),
      (extractBytes len (shake256DeviceAbsorbBenchInput shake256DeviceInit nonce token)).1 =
        shake256 ((List.range 40).map nonce ++ fillMessage msgSize token) len :=
  ⟨flatten_extractPieces_flip, extractBytes_benchInput⟩

end Extracting

end Soko.Shake
