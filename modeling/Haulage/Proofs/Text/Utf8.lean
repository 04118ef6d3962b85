import Haulage.Text.Utf8.RoundTrip

/-!
# Encoding what was decoded

A byte sequence that decodes to a text is the encoding of that text, so encoding and decoding are
inverse to each other. Each size of character has its own step: the bytes at the front of a sequence
are the encoding of the character they were read as. A newline byte stands for a newline and is part
of no other character.

- `utf8EncodeChar_of_front`: the bytes of one character.
- `encodeChars_of_decodeChars`: the bytes of a text.
- `count_newline_encodeChars`, `exists_of_encodeChars_eq_append_newline`: newline bytes are
  newlines.
-/

set_option autoImplicit false

namespace Haulage.Utf8

/-! ## Bytes by their values -/

theorem toNat_val_ofNat {v : Nat} (h : v < 0xD800 ∨ 0xDFFF < v ∧ v < 0x110000) :
    (Char.ofNat v).val.toNat = v := by
  have hvalid : v.isValidChar := h
  rw [Char.ofNat, dif_pos hvalid]
  exact UInt32.toNat_ofNatLT

theorem ofNat_eq_of_toNat {a : UInt8} {n : Nat} (h : a.toNat = n) : UInt8.ofNat n = a := by
  subst h
  simp

theorem toNat_of_isContinuation {b : UInt8} (h : isContinuation b = true) :
    0x80 ≤ b.toNat ∧ b.toNat < 0xC0 := by
  simp only [isContinuation, Bool.and_eq_true, decide_eq_true_eq, UInt8.le_iff_toNat_le] at h
  exact ⟨h.1, Nat.lt_succ_of_le h.2⟩

theorem toNat_of_suitsThree {a b : UInt8} (h : suitsThree a b = true) :
    0x80 ≤ b.toNat ∧ b.toNat < 0xC0 ∧ (a.toNat = 0xE0 → 0xA0 ≤ b.toNat) ∧
      (a.toNat = 0xED → b.toNat < 0xA0) := by
  rw [suitsThree] at h
  -- the two first bytes that narrow the range of the second one
  by_cases hE0 : a = 0xE0
  · subst hE0
    simp only [if_true, Bool.and_eq_true, decide_eq_true_eq, UInt8.le_iff_toNat_le] at h
    simp at h ⊢
    omega
  · rw [if_neg hE0] at h
    have hneE0 : a.toNat ≠ 0xE0 := fun e => hE0 (UInt8.toNat_inj.mp e)
    by_cases hED : a = 0xED
    · subst hED
      simp only [if_true, Bool.and_eq_true, decide_eq_true_eq, UInt8.le_iff_toNat_le] at h
      simp at h ⊢
      omega
    · rw [if_neg hED] at h
      have hneED : a.toNat ≠ 0xED := fun e => hED (UInt8.toNat_inj.mp e)
      have := toNat_of_isContinuation h
      omega

theorem toNat_of_suitsFour {a b : UInt8} (h : suitsFour a b = true) :
    0x80 ≤ b.toNat ∧ b.toNat < 0xC0 ∧ (a.toNat = 0xF0 → 0x90 ≤ b.toNat) ∧
      (a.toNat = 0xF4 → b.toNat < 0x90) := by
  rw [suitsFour] at h
  -- again two first bytes narrow the range of the second one
  by_cases hF0 : a = 0xF0
  · subst hF0
    simp only [if_true, Bool.and_eq_true, decide_eq_true_eq, UInt8.le_iff_toNat_le] at h
    simp at h ⊢
    omega
  · rw [if_neg hF0] at h
    have hneF0 : a.toNat ≠ 0xF0 := fun e => hF0 (UInt8.toNat_inj.mp e)
    by_cases hF4 : a = 0xF4
    · subst hF4
      simp only [if_true, Bool.and_eq_true, decide_eq_true_eq, UInt8.le_iff_toNat_le] at h
      simp at h ⊢
      omega
    · rw [if_neg hF4] at h
      have hneF4 : a.toNat ≠ 0xF4 := fun e => hF4 (UInt8.toNat_inj.mp e)
      have := toNat_of_isContinuation h
      omega

/-! ## One character -/

theorem utf8EncodeChar_one {a : UInt8} (h : a.toNat < 0x80) :
    String.utf8EncodeChar (Char.ofNat a.toNat) = [a] := by
  have hval := toNat_val_ofNat (v := a.toNat) (.inl (by omega))
  simp [String.utf8EncodeChar, hval, show a.toNat ≤ 0x7F by omega]

theorem utf8EncodeChar_two {a b : UInt8} (lo : 0xC2 ≤ a.toNat) (hi : a.toNat < 0xE0)
    (hb : isContinuation b = true) :
    String.utf8EncodeChar (Char.ofNat (a.toNat % 32 * 64 + payload b)) = [a, b] := by
  have hb := toNat_of_isContinuation hb
  rw [payload]
  have hval := toNat_val_ofNat (v := a.toNat % 32 * 64 + b.toNat % 64) (.inl (by omega))
  have h1 : ¬a.toNat % 32 * 64 + b.toNat % 64 ≤ 0x7F := by omega
  have h2 : a.toNat % 32 * 64 + b.toNat % 64 ≤ 0x7FF := by omega
  simp only [String.utf8EncodeChar, hval, h1, h2, if_true, if_false, List.cons.injEq, and_true]
  exact ⟨ofNat_eq_of_toNat (by omega), ofNat_eq_of_toNat (by omega)⟩

theorem utf8EncodeChar_three {a b c : UInt8} (lo : 0xE0 ≤ a.toNat) (hi : a.toNat < 0xF0)
    (hb : suitsThree a b = true) (hc : isContinuation c = true) :
    String.utf8EncodeChar (Char.ofNat ((a.toNat % 16 * 64 + payload b) * 64 + payload c)) =
      [a, b, c] := by
  have hb := toNat_of_suitsThree hb
  have hc := toNat_of_isContinuation hc
  simp only [payload]
  have hval := toNat_val_ofNat
    (v := (a.toNat % 16 * 64 + b.toNat % 64) * 64 + c.toNat % 64) (by omega)
  have h1 : ¬(a.toNat % 16 * 64 + b.toNat % 64) * 64 + c.toNat % 64 ≤ 0x7F := by omega
  have h2 : ¬(a.toNat % 16 * 64 + b.toNat % 64) * 64 + c.toNat % 64 ≤ 0x7FF := by omega
  have h3 : (a.toNat % 16 * 64 + b.toNat % 64) * 64 + c.toNat % 64 ≤ 0xFFFF := by omega
  simp only [String.utf8EncodeChar, hval, h1, h2, h3, if_true, if_false, List.cons.injEq, and_true]
  exact ⟨ofNat_eq_of_toNat (by omega), ofNat_eq_of_toNat (by omega), ofNat_eq_of_toNat (by omega)⟩

theorem utf8EncodeChar_four {a b c d : UInt8} (lo : 0xF0 ≤ a.toNat) (hi : a.toNat < 0xF5)
    (hb : suitsFour a b = true) (hc : isContinuation c = true) (hd : isContinuation d = true) :
    String.utf8EncodeChar
        (Char.ofNat (((a.toNat % 8 * 64 + payload b) * 64 + payload c) * 64 + payload d)) =
      [a, b, c, d] := by
  have hb := toNat_of_suitsFour hb
  have hc := toNat_of_isContinuation hc
  have hd := toNat_of_isContinuation hd
  simp only [payload]
  generalize hv : ((a.toNat % 8 * 64 + b.toNat % 64) * 64 + c.toNat % 64) * 64 + d.toNat % 64 = v
  have hval := toNat_val_ofNat (v := v) (by omega)
  have h1 : ¬v ≤ 0x7F := by omega
  have h2 : ¬v ≤ 0x7FF := by omega
  have h3 : ¬v ≤ 0xFFFF := by omega
  simp only [String.utf8EncodeChar, hval, h1, h2, h3, if_false, List.cons.injEq, and_true]
  exact ⟨ofNat_eq_of_toNat (by omega), ofNat_eq_of_toNat (by omega), ofNat_eq_of_toNat (by omega),
    ofNat_eq_of_toNat (by omega)⟩

/-- The bytes at the front of a sequence are the encoding of the character read from them. -/
theorem utf8EncodeChar_of_front {a : UInt8} {rest rest' : Bytes} {c : Char}
    (h : front a rest = .char c rest') : String.utf8EncodeChar c ++ rest' = a :: rest := by
  revert h
  -- one case for each size of an encoding; in all others there is no character
  fun_cases front a rest with
  | case1 rest h80 =>
      intro h
      cases h
      rw [utf8EncodeChar_one (UInt8.lt_iff_toNat_lt.mp h80)]
      rfl
  | case4 h80 hC2 hE0 b rest₁ hb =>
      intro h
      cases h
      rw [UInt8.not_lt, UInt8.le_iff_toNat_le] at hC2
      rw [utf8EncodeChar_two hC2 (UInt8.lt_iff_toNat_lt.mp hE0) hb]
      rfl
  | case8 h80 hC2 hE0 hF0 b hb c₂ rest₂ hc =>
      intro h
      cases h
      rw [UInt8.not_lt, UInt8.le_iff_toNat_le] at hE0
      rw [utf8EncodeChar_three hE0 (UInt8.lt_iff_toNat_lt.mp hF0) hb hc]
      rfl
  | case14 h80 hC2 hE0 hF0 hF5 b hb c₂ hc d rest₃ hd =>
      intro h
      cases h
      rw [UInt8.not_lt, UInt8.le_iff_toNat_le] at hF0
      rw [utf8EncodeChar_four hF0 (UInt8.lt_iff_toNat_lt.mp hF5) hb hc hd]
      rfl
  | _ =>
      intro h
      cases h

/-! ## Texts -/

theorem encodeChars_cons (c : Char) (s : List Char) :
    encodeChars (c :: s) = String.utf8EncodeChar c ++ encodeChars s := by
  simp [encodeChars]

theorem encodeChars_append (s t : List Char) :
    encodeChars (s ++ t) = encodeChars s ++ encodeChars t := by
  simp [encodeChars]

theorem encode_append (s t : String) : encode (s ++ t) = encode s ++ encode t := by
  simp [encode, encodeChars_append]

theorem length_encode (s : String) : (encode s).length = s.utf8ByteSize := by
  rw [encode, encodeChars, ← String.size_toByteArray, ← String.utf8Encode_toList]
  simp [List.utf8Encode]

theorem encode_eq_nil_iff {s : String} : encode s = [] ↔ s = "" := by
  rw [← List.length_eq_zero_iff, length_encode, String.utf8ByteSize_eq_zero_iff]

theorem decodeOnto_sound {soFar : List Char} {index : Nat} {bytes : Bytes} {s : List Char}
    (h : decodeOnto soFar index bytes = .ok s) :
    encodeChars s = encodeChars soFar.reverse ++ bytes := by
  fun_induction decodeOnto soFar index bytes with
  | case1 soFar index =>
      cases h
      simp
  | case2 soFar index a rest c rest' hfront ih =>
      rw [ih h, ← utf8EncodeChar_of_front hfront, List.reverse_cons, encodeChars_append,
        encodeChars_cons, List.append_assoc]
      simp [encodeChars]
  | case3 => cases h
  | case4 => cases h

/-- What decodes to a text is its encoding. -/
theorem encodeChars_of_decodeChars {bytes : Bytes} {s : List Char} (h : decodeChars bytes = .ok s) :
    encodeChars s = bytes := by
  simpa [encodeChars] using decodeOnto_sound h

theorem decodeLossyOnto_of_decodeOnto {soFar : List Char} {index : Nat} {bytes : Bytes}
    {s : List Char} (h : decodeOnto soFar index bytes = .ok s) :
    decodeLossyOnto soFar bytes = s := by
  fun_induction decodeOnto soFar index bytes with
  | case1 soFar index =>
      cases h
      rw [decodeLossyOnto]
  | case2 soFar index a rest c rest' hfront ih =>
      rw [decodeLossyOnto, hfront]
      exact ih h
  | case3 => cases h
  | case4 => cases h

/-- Reading with replacement replaces nothing in a text. -/
theorem decodeLossy_of_decodeChars {bytes : Bytes} {s : List Char} (h : decodeChars bytes = .ok s) :
    decodeLossy bytes = String.ofList s := by
  rw [decodeLossy, decodeLossyOnto_of_decodeOnto h]

/-! ## Newlines -/

theorem utf8EncodeChar_newline : String.utf8EncodeChar '\n' = [0x0A] := by
  decide

theorem newline_not_mem_utf8EncodeChar {c : Char} (h : c ≠ '\n') :
    (0x0A : UInt8) ∉ String.utf8EncodeChar c := by
  have hval : c.val.toNat ≠ 0x0A := by
    intro e
    apply h
    rw [← Char.ofNat_toNat c]
    exact congrArg Char.ofNat e
  unfold String.utf8EncodeChar
  generalize c.val.toNat = v at hval ⊢
  -- every byte of a longer encoding is at least 0x80
  intro hmem
  dsimp only at hmem
  repeat' split at hmem
  all_goals
    simp only [List.mem_cons, List.not_mem_nil, or_false, ← UInt8.toNat_inj] at hmem
    simp at hmem
    omega

/-- A newline byte is a newline. -/
theorem count_newline_encodeChars (s : List Char) :
    (encodeChars s).count 0x0A = s.count '\n' := by
  induction s with
  | nil => rfl
  | cons c s ih =>
      rw [encodeChars_cons, List.count_append, ih]
      by_cases hc : c = '\n'
      · subst hc
        rw [utf8EncodeChar_newline, List.count_singleton_self, List.count_cons_self, Nat.add_comm]
      · rw [List.count_eq_zero.mpr (newline_not_mem_utf8EncodeChar hc), List.count_cons_of_ne hc]
        omega

theorem newline_mem_encodeChars_iff {s : List Char} :
    (0x0A : UInt8) ∈ encodeChars s ↔ '\n' ∈ s := by
  rw [← List.count_pos_iff, count_newline_encodeChars, List.count_pos_iff]

/-- A text whose encoding ends in a newline byte ends in a newline. -/
theorem exists_of_encodeChars_eq_append_newline {s : List Char} {body : Bytes}
    (h : encodeChars s = body ++ [0x0A]) : ∃ s', s = s' ++ ['\n'] ∧ encodeChars s' = body := by
  rcases List.eq_nil_or_concat s with rfl | ⟨s', c, rfl⟩
  · simp [encodeChars] at h
  · rw [List.concat_eq_append, encodeChars_append] at h
    have hc : encodeChars [c] = String.utf8EncodeChar c := by simp [encodeChars]
    by_cases hn : c = '\n'
    · subst hn
      rw [hc, utf8EncodeChar_newline] at h
      exact ⟨s', by simp, List.append_cancel_right h⟩
    · -- the last byte of any other character is not a newline
      exfalso
      have hlast := congrArg List.getLast? h
      rw [hc, List.getLast?_append, List.getLast?_concat] at hlast
      cases hg : (String.utf8EncodeChar c).getLast? with
      | none => simp at hg
      | some b =>
          rw [hg, Option.some_or] at hlast
          cases hlast
          exact newline_not_mem_utf8EncodeChar hn (List.mem_of_getLast? hg)

end Haulage.Utf8
