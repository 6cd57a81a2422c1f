import OnionRelay.Lib.JsonLiteral
import OnionRelay.Nostr.JsonCodec

/-!
# `decode_json_string` on its buffers

The loop of `decode_json_string` with its two indices and the bytes it writes.  It ends for every
source, and what it leaves is what `decodeJsonString` decodes with a NUL behind
(`decodeInto_eq`).

* What it decodes of a string literal is the UTF-8 encoding of the string denoted exactly when
  no surrogate pair is escaped in it (`decodeInto_literal_iff`).
* It undoes the escapes of a response, and stays in its destination when this is larger than
  the source (`decodeInto_escaped`).
-/

namespace OnionRelay

open OnionRelay.Lib OnionRelay.Db

/-- The variables of `decode_json_string`. -/
structure Decoding where
  srcIdx : Nat
  dst : Mem
  dstIdx : Nat

namespace Decoding

/-- `dst[dst_idx++] = b` -/
def push (st : Decoding) (b : UInt8) : Decoding :=
  { st with dst := writeAt st.dst st.dstIdx [b], dstIdx := st.dstIdx + 1 }

/-- The case `'u'`, with `src_idx` behind the letter. -/
def unicode (src : List UInt8) (capacity : Nat) (st : Decoding) : Decoding :=
  if st.srcIdx + 4 ≤ src.length then
    match hexCharVal (src.getD st.srcIdx 0), hexCharVal (src.getD (st.srcIdx + 1) 0),
      hexCharVal (src.getD (st.srcIdx + 2) 0), hexCharVal (src.getD (st.srcIdx + 3) 0) with
    | some h₁, some h₂, some h₃, some h₄ =>
      let codepoint := (h₁ <<< 12) ||| (h₂ <<< 8) ||| (h₃ <<< 4) ||| h₄
      let st := { st with srcIdx := st.srcIdx + 4 }
      if codepoint < 0x80 then st.push (UInt8.ofNat codepoint)
      else if codepoint < 0x800 then
        if capacity - 1 < st.dstIdx + 2 then st
        else
          (st.push (UInt8.ofNat (0xC0 ||| (codepoint >>> 6)))).push
            (UInt8.ofNat (0x80 ||| (codepoint &&& 0x3F)))
      else if capacity - 1 < st.dstIdx + 3 then st
      else
        ((st.push (UInt8.ofNat (0xE0 ||| (codepoint >>> 12)))).push
          (UInt8.ofNat (0x80 ||| ((codepoint >>> 6) &&& 0x3F)))).push
            (UInt8.ofNat (0x80 ||| (codepoint &&& 0x3F)))
    | _, _, _, _ => (st.push 92).push 117
  else (st.push 92).push 117

/-- One round of the loop. -/
def round (src : List UInt8) (capacity : Nat) (st : Decoding) : Decoding :=
  let c := src.getD st.srcIdx 0
  if c = 92 ∧ st.srcIdx + 1 < src.length then
    let next := src.getD (st.srcIdx + 1) 0
    let st := { st with srcIdx := st.srcIdx + 2 }
    match simpleEscape next with
    | some b => st.push b
    | none =>
      if next = 117 then st.unicode src capacity
      else
        let st := st.push 92
        if st.dstIdx < capacity - 1 then st.push next else st
  else { st.push c with srcIdx := st.srcIdx + 1 }

/-- The loop; `none` while it is still running. -/
def loop (src : List UInt8) (capacity : Nat) : Nat → Decoding → Option Decoding
  | 0, _ => none
  | fuel + 1, st =>
    if st.srcIdx < src.length ∧ st.dstIdx < capacity - 1 then loop src capacity fuel (st.round src capacity)
    else some st

/-- The bytes `bytes` written for the next `n` of the source. -/
def after (st : Decoding) (n : Nat) (bytes : List UInt8) : Decoding :=
  ⟨st.srcIdx + n, writeAt st.dst st.dstIdx bytes, st.dstIdx + bytes.length⟩

end Decoding

/-- `decode_json_string` on a source that is not `NULL`: what it returns, `none` for -1, and the
destination. -/
def decodeInto (src : List UInt8) (dst : Mem) (capacity : Nat) : Option (Option Nat × Mem) :=
  if capacity = 0 then some (none, dst)
  else (Decoding.loop src capacity (src.length + 1) ⟨0, dst, 0⟩).map fun st =>
    (some st.dstIdx, writeAt st.dst st.dstIdx [0])

/-! ## The loop -/

namespace Decoding

variable {src : List UInt8} {capacity : Nat}

theorem push_eq (st : Decoding) (b : UInt8) : st.push b = st.after 0 [b] := rfl

theorem after_after (st : Decoding) (n k : Nat) (bytes bytes' : List UInt8) :
    (st.after n bytes).after k bytes' = st.after (n + k) (bytes ++ bytes') := by
  rw [after, after, after, writeAt_append _ _ _ _ rfl, List.length_append, Nat.add_assoc, Nat.add_assoc]

theorem after_nil (st : Decoding) (n : Nat) : st.after n [] = { st with srcIdx := st.srcIdx + n } := by
  rw [after, writeAt_nil]
  rfl

/-- What is decoded of the `n` bytes in front: at most `n` and `extra` bytes. -/
structure Takes (src : List UInt8) (st st' : Decoding) (extra : Nat) (out : List UInt8 × List UInt8) (n : Nat) :
    Prop where
  rest : out.2 = src.drop (st.srcIdx + n)
  eq : st' = st.after n out.1
  inside : st.srcIdx + n ≤ src.length
  short : out.1.length ≤ n + extra

/-- The case `'u'` behind its letter. -/
theorem Takes.behind {st st' : Decoding} {out : List UInt8 × List UInt8} {n : Nat}
    (h : Takes src { st with srcIdx := st.srcIdx + 2 } st' 2 out n) : Takes src st st' 0 out (2 + n) := by
  obtain ⟨hrest, heq, hin, hshort⟩ := h
  rw [Nat.add_assoc] at hrest hin
  refine ⟨hrest, heq.trans ?_, hin, by omega⟩
  rw [after, after, Nat.add_assoc]

theorem getD_drop (src : List UInt8) (a i : Nat) : src.getD (a + i) 0 = (src.drop a).getD i 0 := by
  rw [List.getD_eq_getElem?_getD, List.getD_eq_getElem?_getD, List.getElem?_drop]

/-- The code point is written when there is room for it. -/
theorem push_codepoint {st : Decoding} (hroom : st.dstIdx < capacity - 1) (codepoint : Nat) :
    (if codepoint < 0x80 then st.push (UInt8.ofNat codepoint)
      else if codepoint < 0x800 then
        if capacity - 1 < st.dstIdx + 2 then st
        else
          (st.push (UInt8.ofNat (0xC0 ||| (codepoint >>> 6)))).push
            (UInt8.ofNat (0x80 ||| (codepoint &&& 0x3F)))
      else if capacity - 1 < st.dstIdx + 3 then st
      else
        ((st.push (UInt8.ofNat (0xE0 ||| (codepoint >>> 12)))).push
          (UInt8.ofNat (0x80 ||| ((codepoint >>> 6) &&& 0x3F)))).push
            (UInt8.ofNat (0x80 ||| (codepoint &&& 0x3F)))) =
      st.after 0 (if (utf8Bytes codepoint).length ≤ capacity - 1 - st.dstIdx then utf8Bytes codepoint else []) := by
  rw [utf8Bytes]
  by_cases hone : codepoint < 0x80
  · rw [if_pos hone, if_pos hone, List.length_singleton, if_pos (by omega), push_eq]
  rw [if_neg hone, if_neg hone]
  by_cases htwo : codepoint < 0x800
  · rw [if_pos htwo, if_pos htwo, List.length_cons, List.length_singleton]
    by_cases hfull : capacity - 1 < st.dstIdx + 2
    · rw [if_pos hfull, if_neg (by omega), after_nil]
      rfl
    · rw [if_neg hfull, if_pos (by omega), push_eq, push_eq, after_after]
      rfl
  · rw [if_neg htwo, if_neg htwo, List.length_cons, List.length_cons, List.length_singleton]
    by_cases hfull : capacity - 1 < st.dstIdx + 3
    · rw [if_pos hfull, if_neg (by omega), after_nil]
      rfl
    · rw [if_neg hfull, if_pos (by omega), push_eq, push_eq, push_eq, after_after, after_after]
      rfl

theorem push_push (st : Decoding) (b b' : UInt8) : (st.push b).push b' = st.after 0 [b, b'] := by
  rw [push_eq, push_eq, after_after]
  rfl

/-- An unknown escape is kept. -/
theorem push_unknown (st : Decoding) (next : UInt8) :
    (if (st.push 92).dstIdx < capacity - 1 then (st.push 92).push next else st.push 92) =
      st.after 0 (if 1 < capacity - 1 - st.dstIdx then [92, next] else [92]) := by
  have hroom : (st.push 92).dstIdx < capacity - 1 ↔ 1 < capacity - 1 - st.dstIdx := by
    rw [push]
    dsimp only
    omega
  by_cases hone : 1 < capacity - 1 - st.dstIdx
  · rw [if_pos (hroom.mpr hone), if_pos hone, push_push]
  · rw [if_neg (mt hroom.mp hone), if_neg hone, push_eq]

theorem exists_four : ∀ {l : List UInt8}, 4 ≤ l.length → ∃ c₁ c₂ c₃ c₄ rest, l = c₁ :: c₂ :: c₃ :: c₄ :: rest
  | c₁ :: c₂ :: c₃ :: c₄ :: rest, _ => ⟨c₁, c₂, c₃, c₄, rest, rfl⟩

theorem decodeUnicode_short {l : List UInt8} (h : l.length < 4) (room : Nat) : decodeUnicode l room = ([92, 117], l) := by
  rw [decodeUnicode.eq_def]
  split
  · simp only [List.length_cons] at h
    omega
  · rfl

/-- The case `'u'` takes what `decodeUnicode` takes. -/
theorem unicode_takes {st : Decoding} (hin : st.srcIdx ≤ src.length) (hroom : st.dstIdx < capacity - 1) :
    ∃ n, Takes src st (st.unicode src capacity) 2 (decodeUnicode (src.drop st.srcIdx) (capacity - 1 - st.dstIdx)) n := by
  have hkeep : ∀ {out : List UInt8 × List UInt8} {st' : Decoding}, out = ([92, 117], src.drop st.srcIdx) →
      st' = (st.push 92).push 117 → ∃ n, Takes src st st' 2 out n := by
    rintro _ _ rfl rfl
    exact ⟨0, rfl, push_push st 92 117, hin, Nat.le_refl 2⟩
  have hlen : (src.drop st.srcIdx).length = src.length - st.srcIdx := List.length_drop
  by_cases hfour : st.srcIdx + 4 ≤ src.length
  · obtain ⟨c₁, c₂, c₃, c₄, rest, hdrop⟩ := @exists_four (src.drop st.srcIdx) (by omega)
    have hget := getD_drop src st.srcIdx
    have hrest : rest = src.drop (st.srcIdx + 4) := by
      rw [← List.drop_drop, hdrop]
      rfl
    rw [hdrop] at hget
    have h₀ : src.getD st.srcIdx 0 = c₁ := hget 0
    have h₁ : src.getD (st.srcIdx + 1) 0 = c₂ := hget 1
    have h₂ : src.getD (st.srcIdx + 2) 0 = c₃ := hget 2
    have h₃ : src.getD (st.srcIdx + 3) 0 = c₄ := hget 3
    rw [unicode, if_pos hfour, h₀, h₁, h₂, h₃, decodeUnicode.eq_def, hdrop]
    dsimp only
    rw [hdrop] at hkeep
    generalize hexCharVal c₁ = o₁, hexCharVal c₂ = o₂, hexCharVal c₃ = o₃, hexCharVal c₄ = o₄
    match o₁, o₂, o₃, o₄ with
    | none, _, _, _ => exact hkeep rfl rfl
    | some _, none, _, _ => exact hkeep rfl rfl
    | some _, some _, none, _ => exact hkeep rfl rfl
    | some _, some _, some _, none => exact hkeep rfl rfl
    | some v₁, some v₂, some v₃, some v₄ =>
      refine ⟨4, hrest, @push_codepoint capacity { st with srcIdx := st.srcIdx + 4 } hroom _, hfour, ?_⟩
      dsimp only
      split
      · exact Nat.le_trans (length_utf8Bytes _).2 (by decide)
      · exact Nat.zero_le _
  · have hshort : (src.drop st.srcIdx).length < 4 := by omega
    rw [unicode, if_neg hfour, decodeUnicode_short hshort]
    exact hkeep rfl rfl

/-- One round takes what `decodeStep` takes, and no more than it writes. -/
theorem round_takes {st : Decoding} (hin : st.srcIdx < src.length) (hroom : st.dstIdx < capacity - 1) :
    ∃ n, 0 < n ∧
      Takes src st (st.round src capacity) 0 (decodeStep (src.drop st.srcIdx) (capacity - 1 - st.dstIdx)) n := by
  have hcons := List.drop_eq_getElem_cons hin
  have hget : src.getD st.srcIdx 0 = src[st.srcIdx] := by
    rw [List.getD_eq_getElem?_getD, List.getElem?_eq_getElem hin, Option.getD_some]
  generalize hc : src[st.srcIdx] = c at hcons hget
  rw [round, hget]
  dsimp only
  have hone : ∀ {out : List UInt8 × List UInt8}, out = ([c], src.drop (st.srcIdx + 1)) →
      ∃ n, 0 < n ∧ Takes src st { st.push c with srcIdx := st.srcIdx + 1 } 0 out n := by
    rintro _ rfl
    exact ⟨1, Nat.one_pos, rfl, rfl, hin, Nat.le_refl 1⟩
  by_cases hnext : st.srcIdx + 1 < src.length
  · have hcons' := List.drop_eq_getElem_cons hnext
    have hget' : src.getD (st.srcIdx + 1) 0 = src[st.srcIdx + 1] := by
      rw [List.getD_eq_getElem?_getD, List.getElem?_eq_getElem hnext, Option.getD_some]
    generalize src[st.srcIdx + 1] = next at hcons' hget'
    rw [hcons, hcons', decodeStep.eq_def, hget']
    dsimp only
    by_cases hslash : c = 92
    · rw [if_pos ⟨hslash, hnext⟩, if_pos hslash]
      cases simpleEscape next with
      | some b => exact ⟨2, Nat.two_pos, rfl, rfl, hnext, Nat.le_succ 1⟩
      | none =>
        dsimp only
        by_cases hu : next = 117
        · rw [if_pos hu, if_pos hu]
          obtain ⟨n, htakes⟩ := @unicode_takes src capacity { st with srcIdx := st.srcIdx + 2 } hnext hroom
          exact ⟨2 + n, Nat.lt_of_lt_of_le Nat.two_pos (Nat.le_add_right 2 n), htakes.behind⟩
        · rw [if_neg hu, if_neg hu]
          refine ⟨2, Nat.two_pos, rfl, @push_unknown capacity { st with srcIdx := st.srcIdx + 2 } next, hnext, ?_⟩
          split
          · exact Nat.le_refl 2
          · exact Nat.le_succ 1
    · rw [if_neg (fun h => hslash h.1), if_neg hslash]
      exact hone (by rw [hcons'])
  · have hnil : src.drop (st.srcIdx + 1) = [] := List.drop_eq_nil_of_le (by omega)
    rw [if_neg (fun h => hnext h.2), hcons, hnil]
    exact hone (by rw [hnil]; rfl)

/-- **The loop ends.**  It writes what `decodeJsonString` decodes of the rest of the source, and
stops at the end of the source or with no room left. -/
theorem loop_eq : ∀ (fuel : Nat) (st : Decoding), st.srcIdx ≤ src.length → src.length ≤ st.srcIdx + fuel →
    ∃ n, (decodeJsonString fuel (src.drop st.srcIdx) (capacity - 1 - st.dstIdx)).length ≤ n ∧
      loop src capacity (fuel + 1) st =
        some (st.after n (decodeJsonString fuel (src.drop st.srcIdx) (capacity - 1 - st.dstIdx))) ∧
      st.srcIdx + n ≤ src.length ∧
      (src.length ≤ st.srcIdx + n ∨
        capacity - 1 ≤ st.dstIdx + (decodeJsonString fuel (src.drop st.srcIdx) (capacity - 1 - st.dstIdx)).length) := by
  intro fuel
  induction fuel with
  | zero =>
    intro st hin hend
    refine ⟨0, Nat.le_refl 0, ?_, hin, .inl hend⟩
    rw [loop, if_neg (by omega), decodeJsonString, after_nil]
    rfl
  | succ fuel ih =>
    intro st hin hend
    by_cases hgo : st.srcIdx < src.length ∧ st.dstIdx < capacity - 1
    · obtain ⟨n, hpos, hrest, heq, hin', hshort⟩ := round_takes hgo.1 hgo.2
      have hmore : ¬ (src.drop st.srcIdx = [] ∨ capacity - 1 - st.dstIdx = 0) := by
        rintro (hnil | hzero)
        · have hle := List.drop_eq_nil_iff.mp hnil
          omega
        · omega
      rw [loop, if_pos hgo, decodeJsonString, if_neg hmore]
      generalize hout : decodeStep (src.drop st.srcIdx) (capacity - 1 - st.dstIdx) = out at hrest heq hshort
      obtain ⟨bytes, rest⟩ := out
      subst hrest
      dsimp only at heq hshort ⊢
      have hidx : (st.after n bytes).srcIdx = st.srcIdx + n := rfl
      have hdst : (st.after n bytes).dstIdx = st.dstIdx + bytes.length := rfl
      obtain ⟨k, hlen, hloop, hin'', hend'⟩ := ih (st.after n bytes) hin' (by omega)
      rw [hidx, hdst, ← Nat.sub_sub] at hlen hloop hend'
      rw [hidx] at hin''
      refine ⟨n + k, ?_, ?_, ?_, ?_⟩
      · rw [List.length_append]
        omega
      · rw [heq, hloop, after_after]
      · omega
      · rw [List.length_append]
        omega
    · have hstop : src.drop st.srcIdx = [] ∨ capacity - 1 - st.dstIdx = 0 := by
        rcases Nat.lt_or_ge st.srcIdx src.length with hlt | hge
        · exact .inr (by omega)
        · exact .inl (List.drop_eq_nil_of_le hge)
      rw [loop, if_neg hgo, decodeJsonString, if_pos hstop]
      refine ⟨0, Nat.le_refl 0, ?_, hin, ?_⟩
      · rw [after_nil]
        rfl
      · rw [List.length_nil]
        omega

end Decoding

/-- **The buffers at the end.**  The source is taken in order, and what is decoded of it stands in
the destination with a NUL behind. -/
theorem decodeInto_eq (src : List UInt8) (dst : Mem) {capacity : Nat} (hcap : 0 < capacity) :
    decodeInto src dst capacity = some (some (decodeJsonString src.length src (capacity - 1)).length,
      writeAt dst 0 (decodeJsonString src.length src (capacity - 1) ++ [0])) := by
  obtain ⟨n, -, hloop, -, -⟩ :=
    @Decoding.loop_eq src capacity src.length ⟨0, dst, 0⟩ (Nat.zero_le _) (Nat.le_add_left _ _)
  rw [decodeInto, if_neg (by omega), hloop, Option.map_some]
  simp only [Decoding.after, List.drop_zero, Nat.sub_zero]
  rw [writeAt_append _ _ _ _ rfl, Nat.zero_add]

/-! ## UTF-8 -/

theorem hexCharVal_hexByte : ∀ (b : UInt8) (h : isHexDigit b = true), hexCharVal b = some (hexValue ⟨b, h⟩) :=
  forall_uint8 (by decide +kernel)

theorem hexValue_lt (b : HexByte) : hexValue b < 16 := by
  have hlt : ∀ (b : UInt8) (h : isHexDigit b = true), hexValue ⟨b, h⟩ < 16 := forall_uint8 (by decide +kernel)
  exact hlt b.1 b.2

theorem shiftLeft_or {v k w : Nat} (h : w < 2 ^ k) : (v <<< k) ||| w = v * 2 ^ k + w := by
  rw [← Nat.shiftLeft_add_eq_or_of_lt h, Nat.shiftLeft_eq]

/-- The code unit of four digits, as the source computes it. -/
theorem codepoint_eq (u : CodeUnit) :
    ((hexValue u.h₁ <<< 12) ||| (hexValue u.h₂ <<< 8) ||| (hexValue u.h₃ <<< 4) ||| hexValue u.h₄) = u.value := by
  have h₂ := hexValue_lt u.h₂
  have h₃ := hexValue_lt u.h₃
  have h₄ := hexValue_lt u.h₄
  rw [Nat.or_assoc, Nat.or_assoc, shiftLeft_or (v := hexValue u.h₃) h₄, shiftLeft_or (v := hexValue u.h₂) (by omega),
    shiftLeft_or (by omega), CodeUnit.value]
  omega

theorem value_lt (u : CodeUnit) : u.value < 0x10000 := by
  have h₁ := hexValue_lt u.h₁
  have h₂ := hexValue_lt u.h₂
  have h₃ := hexValue_lt u.h₃
  have h₄ := hexValue_lt u.h₄
  rw [CodeUnit.value]
  omega

theorem charValue_char (u : CodeUnit) : charValue u.char = utf8Bytes u.value := by
  rw [CodeUnit.char, charValue, hexCharVal_hexByte _ u.h₁.2, hexCharVal_hexByte _ u.h₂.2, hexCharVal_hexByte _ u.h₃.2,
    hexCharVal_hexByte _ u.h₄.2]
  exact congrArg utf8Bytes (codepoint_eq u)

theorem or_low {a k n : Nat} (h : n < 2 ^ k) : (a * 2 ^ k) ||| n = n + a * 2 ^ k := by
  rw [← Nat.shiftLeft_eq, ← Nat.shiftLeft_add_eq_or_of_lt h, Nat.add_comm]

/-- **In the basic plane the bytes are those of UTF-8.** -/
theorem utf8Bytes_toNat {c : Char} (h : c.toNat < 0x10000) : utf8Bytes c.toNat = String.utf8EncodeChar c := by
  have hval : c.val.toNat = c.toNat := rfl
  have hcont : ∀ n, (0x80 ||| (n &&& 0x3F)) = n % 0x40 + 0x80 := fun n => by
    have hlow : n % 0x40 < 2 ^ 6 := Nat.mod_lt n (by decide)
    rw [show (0x3F : Nat) = 2 ^ 6 - 1 from rfl, Nat.and_two_pow_sub_one_eq_mod]
    exact or_low (a := 2) hlow
  rw [utf8Bytes, String.utf8EncodeChar, hval]
  by_cases hone : c.toNat < 0x80
  · rw [if_pos hone, if_pos (Nat.le_of_lt_succ hone)]
  rw [if_neg hone, if_neg (show ¬ c.toNat ≤ 0x7F by omega)]
  by_cases htwo : c.toNat < 0x800
  · have hlead : (0xC0 ||| (c.toNat >>> 6)) = c.toNat / 64 % 0x20 + 0xC0 := by
      rw [Nat.shiftRight_eq_div_pow, Nat.mod_eq_of_lt (by omega)]
      exact @or_low 3 6 _ (by omega)
    rw [if_pos htwo, if_pos (show c.toNat ≤ 0x7FF by omega), hcont, hlead]
  · have hlead : (0xE0 ||| (c.toNat >>> 12)) = c.toNat / 4096 % 0x10 + 0xE0 := by
      rw [Nat.shiftRight_eq_div_pow, Nat.mod_eq_of_lt (by omega)]
      exact @or_low 14 4 _ (by omega)
    rw [if_neg htwo, if_neg (show ¬ c.toNat ≤ 0x7FF by omega), if_pos (show c.toNat ≤ 0xFFFF by omega), hcont, hcont,
      hlead, Nat.shiftRight_eq_div_pow]

theorem charValue_escape (letter : EscapeLetter) :
    charValue (.escape letter) = String.utf8EncodeChar (escapeValue letter) := by
  obtain ⟨letter, h⟩ := letter
  revert h
  simp only [List.mem_cons, List.not_mem_nil, or_false]
  rintro (rfl | rfl | rfl | rfl | rfl | rfl | rfl | rfl) <;> rfl

theorem toNat_ofNat {n : Nat} (h : n.isValidChar) : (Char.ofNat n).toNat = n := by
  rw [Char.ofNat, dif_pos h]
  rfl

/-- **A character without surrogates** is decoded to its encoding. -/
theorem flatMap_charValue_chars {c : LiteralChar} (h : c.isPair = false) :
    c.chars.flatMap charValue = String.utf8EncodeChar c.value := by
  cases c with
  | plain c =>
    rw [LiteralChar.chars, LiteralChar.value, List.flatMap_map]
    simp only [charValue]
    rw [← List.map_eq_flatMap]
    exact List.attach_map_subtype_val _
  | escape letter => exact (List.flatMap_singleton _ _).trans (charValue_escape letter)
  | unicode u =>
    have hlt := value_lt u.1
    have hvalid : u.1.value.isValidChar := by
      rcases u.2 with hlow | hhigh
      · exact .inl hlow
      · exact .inr ⟨hhigh, Nat.lt_trans hlt (by decide)⟩
    have hbytes := @utf8Bytes_toNat (Char.ofNat u.1.value) (by rwa [toNat_ofNat hvalid])
    rw [toNat_ofNat hvalid] at hbytes
    exact (List.flatMap_singleton _ _).trans ((charValue_char u.1).trans hbytes)
  | pair high low => cases h

theorem flatMap_charValue_charsOf : ∀ {s : List LiteralChar}, (∀ c ∈ s, c.isPair = false) →
    (charsOf s).flatMap charValue = literalUtf8 s := by
  intro s
  induction s with
  | nil => exact fun _ => rfl
  | cons c s ih =>
    intro h
    obtain ⟨hc, hs⟩ := List.forall_mem_cons.mp h
    rw [literalUtf8_cons, ← ih hs, ← flatMap_charValue_chars hc, charsOf, List.flatMap_cons, List.flatMap_append]
    rfl

/-- A surrogate pair denotes a character of four bytes. -/
theorem utf8EncodeChar_pair (high : HighSurrogate) (low : LowSurrogate) :
    ∃ b rest, String.utf8EncodeChar (LiteralChar.pair high low).value = b :: rest ∧ 0xF0 ≤ b ∧ rest.length = 3 := by
  obtain ⟨high, hlow, hhigh⟩ := high
  obtain ⟨low, hlow', hhigh'⟩ := low
  have hvalid : (0x10000 + (high.value - 0xD800) * 0x400 + (low.value - 0xDC00)).isValidChar :=
    .inr ⟨by omega, by omega⟩
  have hnat := toNat_ofNat hvalid
  have hval : (LiteralChar.pair ⟨high, hlow, hhigh⟩ ⟨low, hlow', hhigh'⟩).value.val.toNat = _ := hnat
  have hlead : ∀ n, 0xF0 ≤ UInt8.ofNat (n % 0x08 + 0xF0) := fun n => by
    have hlt := Nat.mod_lt n (show 0 < 0x08 by decide)
    rw [UInt8.le_iff_toNat_le, UInt8.toNat_ofNat_of_lt' (show n % 0x08 + 0xF0 < 256 by omega)]
    exact Nat.le_add_left _ _
  rw [String.utf8EncodeChar, hval, if_neg (by omega), if_neg (by omega), if_neg (by omega)]
  exact ⟨_, _, rfl, hlead _, rfl⟩

/-- Half of a surrogate pair is decoded to three bytes of its own. -/
theorem charValue_high (high : HighSurrogate) : ∃ rest, charValue high.1.char = 0xED :: rest ∧ rest.length = 2 := by
  obtain ⟨high, hlow, hhigh⟩ := high
  have hlead : (0xE0 ||| (high.value >>> 12)) = 0xED := by
    rw [Nat.shiftRight_eq_div_pow, show high.value / 2 ^ 12 = 13 by omega]
    rfl
  rw [charValue_char, utf8Bytes, if_neg (show ¬ high.value < 0x80 by omega),
    if_neg (show ¬ high.value < 0x800 by omega), hlead]
  exact ⟨_, rfl, rfl⟩

/-- **A surrogate pair** is not decoded to its encoding. -/
theorem decodeJsonString_ne_of_pair {before behind : List LiteralChar} {high : HighSurrogate} {low : LowSurrogate}
    (hbefore : ∀ c ∈ before, c.isPair = false) {room : Nat}
    (hroom : (literalUtf8 (before ++ .pair high low :: behind)).length ≤ room) :
    decodeJsonString (literalText (before ++ .pair high low :: behind)).length
        (literalText (before ++ .pair high low :: behind)) room ≠
      literalUtf8 (before ++ .pair high low :: behind) := by
  obtain ⟨b, more, hpair, hlead, hmore⟩ := utf8EncodeChar_pair high low
  obtain ⟨rest, hhigh, hrest⟩ := charValue_high high
  have htext : literalText (before ++ .pair high low :: behind) =
      stringText (charsOf before) ++ (high.1.char.text ++ (low.1.char.text ++ literalText behind)) := by
    rw [stringText_charsOf, literalText, List.flatMap_append, List.flatMap_cons, LiteralChar.text, List.append_assoc]
    rfl
  have hwhole : literalUtf8 (before ++ .pair high low :: behind) =
      (charsOf before).flatMap charValue ++ (b :: (more ++ literalUtf8 behind)) := by
    rw [literalUtf8_append, literalUtf8_cons, hpair, flatMap_charValue_charsOf hbefore]
    rfl
  rw [hwhole, List.length_append, List.length_cons, List.length_append] at hroom
  rw [hwhole, htext]
  obtain ⟨fuel, hfuel, hdecode⟩ := decodeJsonString_append
    (high.1.char.text ++ (low.1.char.text ++ literalText behind)) (Nat.le_refl _)
    (show ((charsOf before).flatMap charValue).length ≤ room by omega)
  have hsix : high.1.char.text.length = 6 := rfl
  rw [List.length_append] at hfuel
  obtain ⟨fuel, rfl⟩ : ∃ f, fuel = f + 1 := ⟨fuel - 1, by omega⟩
  have hthree : (charValue high.1.char).length = 3 := by rw [hhigh, List.length_cons, hrest]
  have hne : ¬ (high.1.char.text ++ (low.1.char.text ++ literalText behind) = [] ∨
      room - ((charsOf before).flatMap charValue).length = 0) := by
    rintro (hnil | hzero)
    · cases hnil
    · omega
  rw [hdecode, decodeJsonString, if_neg hne, decodeStep_text _ _ (by omega), hhigh]
  intro heq
  have hbyte := (List.cons.inj (List.append_cancel_left heq)).1
  rw [← hbyte] at hlead
  exact absurd hlead (by decide)

theorem eq_of_writeAt_eq {m : Mem} {off : Nat} {bytes bytes' : List UInt8} (hlen : bytes.length = bytes'.length)
    (h : writeAt m off bytes = writeAt m off bytes') : bytes = bytes' := by
  rw [← readAt_writeAt_same m off bytes rfl, h, hlen, readAt_writeAt_same _ _ _ rfl]

/-- **Content is decoded to UTF-8** exactly when no surrogate pair is escaped in it. -/
theorem decodeInto_literal_iff (s : List LiteralChar) (dst : Mem) {capacity : Nat}
    (hcap : (literalUtf8 s).length < capacity) :
    decodeInto (literalText s) dst capacity =
        some (some (literalUtf8 s).length, writeAt dst 0 (literalUtf8 s ++ [0])) ↔
      ∀ c ∈ s, c.isPair = false := by
  rw [decodeInto_eq _ _ (Nat.zero_lt_of_lt hcap)]
  constructor
  · intro h
    by_contra hnot
    obtain ⟨before, high, low, behind, rfl, hbefore⟩ := exists_pair hnot
    refine decodeJsonString_ne_of_pair hbefore (Nat.le_sub_one_of_lt hcap) ?_
    obtain ⟨hlen, hmem⟩ := Prod.mk.inj (Option.some.inj h)
    have hread := eq_of_writeAt_eq (by rw [List.length_append, List.length_append, Option.some.inj hlen]) hmem
    exact List.append_cancel_right hread
  · intro h
    have hdecode : decodeJsonString (literalText s).length (literalText s) (capacity - 1) = literalUtf8 s := by
      rw [← flatMap_charValue_charsOf h] at hcap ⊢
      rw [← stringText_charsOf]
      exact decodeJsonString_chars (Nat.le_refl _) (Nat.le_sub_one_of_lt hcap)
    rw [hdecode]

theorem isHexDigit_mod (v : Nat) : isHexDigit (hexDigit (UInt8.ofNat (v % 16))) = true :=
  isHexDigit_hexDigit ⟨v % 16, Nat.mod_lt v (by decide)⟩

def hexByte (v : Nat) : HexByte := ⟨hexDigit (UInt8.ofNat (v % 16)), isHexDigit_mod v⟩

def codeUnit (n : Nat) : CodeUnit := ⟨hexByte (n / 4096), hexByte (n / 256), hexByte (n / 16), hexByte n⟩

theorem accent_basic : (codeUnit 0xE9).value < 0xD800 ∨ 0xDFFF < (codeUnit 0xE9).value := by decide

/-- `\u00e9` -/
def accent : LiteralChar := .unicode ⟨codeUnit 0xE9, accent_basic⟩

theorem decodeInto_literal_iff_accent :
    literalUtf8 [accent] = [0xC3, 0xA9] ∧ decodeInto (literalText [accent]) (fun _ => 0) 3 =
      some (some (literalUtf8 [accent]).length, writeAt (fun _ => 0) 0 (literalUtf8 [accent] ++ [0])) := by
  have hbytes : literalUtf8 [accent] = [0xC3, 0xA9] := by decide +kernel
  refine ⟨hbytes, (decodeInto_literal_iff [accent] (fun _ => 0) (by rw [hbytes]; decide)).mpr fun c hc => ?_⟩
  rw [List.mem_singleton.mp hc]
  rfl

theorem grinning_high : 0xD800 ≤ (codeUnit 0xD83D).value ∧ (codeUnit 0xD83D).value ≤ 0xDBFF := by decide

theorem grinning_low : 0xDC00 ≤ (codeUnit 0xDE00).value ∧ (codeUnit 0xDE00).value ≤ 0xDFFF := by decide

/-- `\ud83d\ude00`, the pair of U+1F600. -/
def grinning : LiteralChar := .pair ⟨codeUnit 0xD83D, grinning_high⟩ ⟨codeUnit 0xDE00, grinning_low⟩

/-- The two halves are encoded on their own, in six bytes for four. -/
theorem decodeInto_grinning :
    literalUtf8 [grinning] = [0xF0, 0x9F, 0x98, 0x80] ∧
      (decodeInto (literalText [grinning]) (fun _ => 0) 16).map Prod.fst = some (some 6) ∧
      decodeInto (literalText [grinning]) (fun _ => 0) 16 ≠
        some (some (literalUtf8 [grinning]).length, writeAt (fun _ => 0) 0 (literalUtf8 [grinning] ++ [0])) := by
  have hlen : (decodeInto (literalText [grinning]) (fun _ => 0) 16).map Prod.fst = some (some 6) := by decide +kernel
  refine ⟨by decide +kernel, hlen, fun h => ?_⟩
  rw [h] at hlen
  exact absurd hlen (by decide +kernel)

/-! ## Escapes undone -/

/-- **The decoder undoes the escapes** of a response, into any destination larger than the string;
and it takes the whole of any source smaller than its destination, writes no more bytes than the
source has and the NUL, and nothing else. -/
theorem decodeInto_escaped :
    (∀ (s : CStr) (buffer dst : Mem) (escapeCapacity offset capacity : Nat), (∀ c ∈ s, c ≠ 0) →
      offset + (jsonEscape s).length < escapeCapacity → s.length < capacity →
      decodeInto (readAt (Rendering.put escapeCapacity ⟨buffer, offset⟩ (.escaped s)).buffer offset
          (jsonEscape s).length) dst capacity = some (some s.length, writeAt dst 0 (s ++ [0]))) ∧
    (∀ (src : List UInt8) (dst : Mem) (capacity : Nat), src.length < capacity →
      ∃ st, Decoding.loop src capacity (src.length + 1) ⟨0, dst, 0⟩ = some st ∧ st.srcIdx = src.length ∧
        st.dstIdx ≤ src.length ∧
        ∃ out, decodeInto src dst capacity = some (some st.dstIdx, out) ∧ out st.dstIdx = 0 ∧
          ∀ a, st.dstIdx < a → out a = dst a) := by
  constructor
  · intro s buffer dst escapeCapacity offset capacity _ hfits hcap
    have hput : Rendering.put escapeCapacity ⟨buffer, offset⟩ (.escaped s) =
        ⟨writeAt buffer offset (jsonEscape s), offset + (jsonEscape s).length⟩ := Rendering.put_of_lt hfits
    have hdecode := @decodeJsonString_chars (jsonString s) (jsonEscape s).length (capacity - 1)
    rw [flatMap_charValue_jsonString, stringText_jsonString] at hdecode
    rw [hput, readAt_writeAt_same _ _ (jsonEscape s) rfl, decodeInto_eq _ _ (Nat.zero_lt_of_lt hcap),
      hdecode (Nat.le_refl _) (Nat.le_sub_one_of_lt hcap)]
  · intro src dst capacity hcap
    obtain ⟨n, hshort, hloop, hin, hend⟩ :=
      @Decoding.loop_eq src capacity src.length ⟨0, dst, 0⟩ (Nat.zero_le _) (Nat.le_add_left _ _)
    simp only [List.drop_zero, Nat.sub_zero, Nat.zero_add] at hshort hloop hin hend
    have hwhole : n = src.length := by omega
    have hdst : ∀ bytes, (Decoding.after ⟨0, dst, 0⟩ n bytes).dstIdx = bytes.length := fun _ => Nat.zero_add _
    refine ⟨_, hloop, (Nat.zero_add n).trans hwhole, by rw [hdst]; omega, ?_⟩
    rw [hdst, decodeInto_eq src dst (Nat.zero_lt_of_lt hcap)]
    refine ⟨_, rfl, ?_, fun a ha => writeAt_of_ge (by rw [List.length_append, List.length_singleton]; omega)⟩
    rw [← writeAt_append _ _ _ _ rfl, Nat.zero_add]
    exact @writeAt_inside _ _ 0 [0] Nat.one_pos

end OnionRelay
