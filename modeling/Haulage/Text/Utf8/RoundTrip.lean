import Haulage.Text.Utf8

/-!
# Decoding what was encoded

The bytes of a text are well-formed: they decode to the text again. Each size of character has its
own step, which says that the encoded character is the front of any sequence that begins with it.
-/

set_option autoImplicit false

namespace Haulage.Utf8

/-! ## Bytes by their values -/

theorem lt_of_toNat {a b : UInt8} (h : a.toNat < b.toNat) : a < b :=
  UInt8.lt_iff_toNat_lt.mpr h

theorem not_lt_of_toNat {a b : UInt8} (h : b.toNat ≤ a.toNat) : ¬a < b := by
  rw [UInt8.lt_iff_toNat_lt]
  omega

theorem isContinuation_of_toNat {b : UInt8} (lo : 0x80 ≤ b.toNat) (hi : b.toNat < 0xC0) :
    isContinuation b = true := by
  simp only [isContinuation, Bool.and_eq_true, decide_eq_true_eq, UInt8.le_iff_toNat_le]
  exact ⟨lo, Nat.le_of_lt_succ hi⟩

/-! ## One character -/

theorem front_one {a : UInt8} {rest : Bytes} (h : a.toNat < 0x80) :
    front a rest = .char (Char.ofNat a.toNat) rest := by
  have ha : a < 0x80 := h
  simp [front, ha]

theorem front_two {a b : UInt8} {v : Nat} {rest : Bytes} (lo : 0x80 ≤ v) (hi : v < 0x800)
    (ha : a.toNat = 0xC0 + v / 64) (hb : b.toNat = 0x80 + v % 64) :
    front a (b :: rest) = .char (Char.ofNat v) rest := by
  have h1 : ¬a < 0x80 := not_lt_of_toNat (by simp; omega)
  have h2 : ¬a < 0xC2 := not_lt_of_toNat (by simp; omega)
  have h3 : a < 0xE0 := lt_of_toNat (by simp; omega)
  have h4 : isContinuation b = true := isContinuation_of_toNat (by omega) (by omega)
  have hv : a.toNat % 32 * 64 + payload b = v := by
    unfold payload
    omega
  simp [front, h1, h2, h3, h4, hv]

theorem suitsThree_of_toNat {a b : UInt8} {v : Nat} (lo : 0x800 ≤ v) (hi : v < 0x10000)
    (hs : v < 0xD800 ∨ 0xDFFF < v)
    (ha : a.toNat = 0xE0 + v / 4096) (hb : b.toNat = 0x80 + v / 64 % 64) :
    suitsThree a b = true := by
  unfold suitsThree
  by_cases hE0 : a = 0xE0
  · have : a.toNat = 0xE0 := congrArg UInt8.toNat hE0
    simp only [hE0, if_true, Bool.and_eq_true, decide_eq_true_eq, UInt8.le_iff_toNat_le]
    simp; omega
  · by_cases hED : a = 0xED
    · have : a.toNat = 0xED := congrArg UInt8.toNat hED
      simp only [hED, UInt8.le_iff_toNat_le]
      simp; omega
    · simp only [hE0, hED, if_false]
      exact isContinuation_of_toNat (by omega) (by omega)

theorem front_three {a b c : UInt8} {v : Nat} {rest : Bytes} (lo : 0x800 ≤ v) (hi : v < 0x10000)
    (hs : v < 0xD800 ∨ 0xDFFF < v) (ha : a.toNat = 0xE0 + v / 4096)
    (hb : b.toNat = 0x80 + v / 64 % 64) (hc : c.toNat = 0x80 + v % 64) :
    front a (b :: c :: rest) = .char (Char.ofNat v) rest := by
  have h1 : ¬a < 0x80 := not_lt_of_toNat (by simp; omega)
  have h2 : ¬a < 0xC2 := not_lt_of_toNat (by simp; omega)
  have h3 : ¬a < 0xE0 := not_lt_of_toNat (by simp; omega)
  have h4 : a < 0xF0 := lt_of_toNat (by simp; omega)
  have h5 := suitsThree_of_toNat lo hi hs ha hb
  have h6 : isContinuation c = true := isContinuation_of_toNat (by omega) (by omega)
  have hv : (a.toNat % 16 * 64 + payload b) * 64 + payload c = v := by
    unfold payload
    omega
  simp [front, h1, h2, h3, h4, h5, h6, hv]

theorem suitsFour_of_toNat {a b : UInt8} {v : Nat} (lo : 0x10000 ≤ v) (hi : v < 0x110000)
    (ha : a.toNat = 0xF0 + v / 262144) (hb : b.toNat = 0x80 + v / 4096 % 64) :
    suitsFour a b = true := by
  unfold suitsFour
  by_cases hF0 : a = 0xF0
  · have : a.toNat = 0xF0 := congrArg UInt8.toNat hF0
    simp only [hF0, if_true, Bool.and_eq_true, decide_eq_true_eq, UInt8.le_iff_toNat_le]
    simp; omega
  · by_cases hF4 : a = 0xF4
    · have : a.toNat = 0xF4 := congrArg UInt8.toNat hF4
      simp only [hF4, UInt8.le_iff_toNat_le]
      simp; omega
    · simp only [hF0, hF4, if_false]
      exact isContinuation_of_toNat (by omega) (by omega)

theorem front_four {a b c d : UInt8} {v : Nat} {rest : Bytes} (lo : 0x10000 ≤ v)
    (hi : v < 0x110000) (ha : a.toNat = 0xF0 + v / 262144) (hb : b.toNat = 0x80 + v / 4096 % 64)
    (hc : c.toNat = 0x80 + v / 64 % 64) (hd : d.toNat = 0x80 + v % 64) :
    front a (b :: c :: d :: rest) = .char (Char.ofNat v) rest := by
  have h1 : ¬a < 0x80 := not_lt_of_toNat (by simp; omega)
  have h2 : ¬a < 0xC2 := not_lt_of_toNat (by simp; omega)
  have h3 : ¬a < 0xE0 := not_lt_of_toNat (by simp; omega)
  have h4 : ¬a < 0xF0 := not_lt_of_toNat (by simp; omega)
  have h5 : a < 0xF5 := lt_of_toNat (by simp; omega)
  have h6 := suitsFour_of_toNat lo hi ha hb
  have h7 : isContinuation c = true := isContinuation_of_toNat (by omega) (by omega)
  have h8 : isContinuation d = true := isContinuation_of_toNat (by omega) (by omega)
  have hv : ((a.toNat % 8 * 64 + payload b) * 64 + payload c) * 64 + payload d = v := by
    unfold payload
    omega
  simp [front, h1, h2, h3, h4, h5, h6, h7, h8, hv]

/-- An encoded character is the front of what it begins. -/
theorem exists_front_utf8EncodeChar (c : Char) (rest : Bytes) :
    ∃ a more, String.utf8EncodeChar c ++ rest = a :: more ∧ front a more = .char c rest := by
  have hc : Char.ofNat c.val.toNat = c := Char.ofNat_toNat c
  have hvalid : c.val.toNat < 0xD800 ∨ 0xDFFF < c.val.toNat ∧ c.val.toNat < 0x110000 := c.valid
  unfold String.utf8EncodeChar
  generalize c.val.toNat = v at hc hvalid ⊢
  subst hc
  by_cases h1 : v ≤ 0x7F
  · refine ⟨UInt8.ofNat v, rest, by simp [h1], ?_⟩
    have ha : (UInt8.ofNat v).toNat = v := by simp; omega
    rw [front_one (by omega), ha]
  · by_cases h2 : v ≤ 0x7FF
    · exact ⟨_, _, by simp only [h1, h2, if_true, if_false]; rfl,
        front_two (by omega) (by omega) (by simp; omega) (by simp; omega)⟩
    · by_cases h3 : v ≤ 0xFFFF
      · exact ⟨_, _, by simp only [h1, h2, h3, if_true, if_false]; rfl,
          front_three (by omega) (by omega) (by omega) (by simp; omega) (by simp; omega)
            (by simp; omega)⟩
      · exact ⟨_, _, by simp only [h1, h2, h3, if_false]; rfl,
          front_four (by omega) (by omega) (by simp; omega) (by simp; omega) (by simp; omega)
            (by simp; omega)⟩

/-! ## Texts -/

theorem decodeOnto_encodeChars (soFar : List Char) (index : Nat) (s : List Char) :
    decodeOnto soFar index (encodeChars s) = .ok (soFar.reverse ++ s) := by
  induction s generalizing soFar index with
  | nil => simp [encodeChars, decodeOnto]
  | cons c s ih =>
    obtain ⟨a, more, happ, hfront⟩ := exists_front_utf8EncodeChar c (encodeChars s)
    have hcons : encodeChars (c :: s) = a :: more := by
      rw [← happ]
      simp [encodeChars]
    rw [hcons, decodeOnto]
    split
    · rename_i c' rest' h
      rw [hfront] at h
      cases h
      simp [ih]
    · rename_i h
      rw [hfront] at h
      cases h
    · rename_i h
      rw [hfront] at h
      cases h

/-- What was encoded decodes to itself. -/
theorem decodeChars_encodeChars (s : List Char) : decodeChars (encodeChars s) = .ok s := by
  simp [decodeChars, decodeOnto_encodeChars]

/-- What was encoded decodes to itself. -/
theorem decode_encode (s : String) : decode (encode s) = .ok s := by
  simp [decode, encode, decodeChars_encodeChars, Except.map]

end Haulage.Utf8
