-- UTF-8. The decoder reads what the encoder of the library writes, and nothing
-- else: the first byte of a character and the bounds of those after it leave it
-- the one form that the encoder gives it.
import Mathlib
import Assay.Text.Utf8

namespace Assay

namespace Utf8

/-! ## First bytes -/

section Lead

variable {byte : UInt8}

theorem lead_one (h : byte.toNat < 0x80) : Lead.of? byte = some ⟨byte.toNat, []⟩ :=
  if_pos (UInt8.lt_iff_toNat_lt.mpr h)

theorem lead_two (hlow : 0xC2 ≤ byte.toNat) (hhigh : byte.toNat < 0xE0) :
    Lead.of? byte = some ⟨byte.toNat - 0xC0, [tail]⟩ := by
  unfold Lead.of?
  simp only [UInt8.lt_iff_toNat_lt, UInt8.reduceToNat]
  rw [if_neg (by omega), if_neg (by omega), if_pos hhigh]

theorem lead_three (hlow : 0xE0 ≤ byte.toNat) (hhigh : byte.toNat < 0xF0) :
    Lead.of? byte = some ⟨byte.toNat - 0xE0,
      [(if byte = 0xE0 then 0xA0 else 0x80, if byte = 0xED then 0x9F else 0xBF), tail]⟩ := by
  unfold Lead.of?
  simp only [UInt8.lt_iff_toNat_lt, UInt8.reduceToNat]
  rw [if_neg (by omega), if_neg (by omega), if_neg (by omega), if_pos hhigh]
  split_ifs with hfirst hsurrogate
  · rw [hfirst] at hsurrogate
    exact absurd hsurrogate (by decide)
  · rfl
  · rfl
  · rfl

theorem lead_four (hlow : 0xF0 ≤ byte.toNat) (hhigh : byte.toNat < 0xF5) :
    Lead.of? byte = some ⟨byte.toNat - 0xF0,
      [(if byte = 0xF0 then 0x90 else 0x80, if byte = 0xF4 then 0x8F else 0xBF), tail, tail]⟩ := by
  unfold Lead.of?
  simp only [UInt8.lt_iff_toNat_lt, ← UInt8.toNat_inj, UInt8.reduceToNat]
  rw [if_neg (by omega), if_neg (by omega), if_neg (by omega), if_neg (by omega),
    if_neg (by omega), if_neg (by omega)]
  split_ifs with hfirst hlast hless hlast
  all_goals first | rfl | omega

theorem lead_none (h : 0x80 ≤ byte.toNat ∧ byte.toNat < 0xC2 ∨ 0xF5 ≤ byte.toNat) :
    Lead.of? byte = none := by
  unfold Lead.of?
  simp only [UInt8.lt_iff_toNat_lt, ← UInt8.toNat_inj, UInt8.reduceToNat]
  split_ifs
  all_goals first | rfl | omega

end Lead

/-! ## Bytes within bounds -/

/-- The bytes lie within the bounds, one by one. -/
def Within (bounds : List (UInt8 × UInt8)) (bytes : List UInt8) : Prop :=
  List.Forall₂ (fun bound byte => bound.1 ≤ byte ∧ byte ≤ bound.2) bounds bytes

theorem within_nil {bytes : List UInt8} : Within [] bytes ↔ bytes = [] :=
  List.forall₂_nil_left_iff

theorem within_cons {low high : UInt8} {bounds : List (UInt8 × UInt8)} {bytes : List UInt8} :
    Within ((low, high) :: bounds) bytes ↔
      ∃ byte rest, (low.toNat ≤ byte.toNat ∧ byte.toNat ≤ high.toNat) ∧ Within bounds rest ∧
        bytes = byte :: rest := by
  simp only [← UInt8.le_iff_toNat_le]
  exact List.forall₂_cons_left_iff

theorem Within.fitting_append {bounds : List (UInt8 × UInt8)} {bytes : List UInt8}
    (h : Within bounds bytes) (rest : List UInt8) :
    fitting bounds (bytes ++ rest) = bounds.length := by
  induction h with
  | nil => rfl
  | cons hbyte _ ih => rw [List.cons_append, fitting, if_pos hbyte, ih, List.length_cons]

theorem within_of_fitting {bounds : List (UInt8 × UInt8)} {bytes : List UInt8}
    (h : fitting bounds bytes = bounds.length) : Within bounds (bytes.take bounds.length) := by
  fun_induction fitting bounds bytes with
  | case1 low high bounds byte bytes hbyte ih =>
    rw [List.length_cons, List.take_succ_cons]
    exact .cons hbyte (ih (Nat.succ.inj h))
  | case2 => cases h
  | case3 bounds bytes hmore =>
    cases bounds with
    | nil => exact .nil
    | cons bound bounds => cases h

/-! ## One character -/

theorem val_charOf {bits n : Nat} {follow : List UInt8}
    (hn : follow.foldl (fun n byte => 64 * n + (byte.toNat - 0x80)) bits = n)
    (hvalid : n.isValidChar) : (charOf bits follow).val.toNat = n := by
  have hchar := Char.toNat_ofNat n
  rw [if_pos hvalid] at hchar
  rw [charOf, hn]
  exact hchar

theorem ofNat_eq (byte : UInt8) {n : Nat} (h : n = byte.toNat) : UInt8.ofNat n = byte := by
  rw [h, UInt8.ofNat_toNat]

section Encode

variable {a b c d : UInt8}

theorem encode_one (ha : a.toNat < 0x80) : String.utf8EncodeChar (charOf a.toNat []) = [a] := by
  have hval : (charOf a.toNat []).val.toNat = a.toNat :=
    val_charOf rfl (by simp only [Nat.isValidChar]; omega)
  rw [String.utf8EncodeChar, hval, if_pos (by omega), ofNat_eq a rfl]

theorem encode_two (ha : 0xC2 ≤ a.toNat ∧ a.toNat < 0xE0) (hb : 0x80 ≤ b.toNat ∧ b.toNat ≤ 0xBF) :
    String.utf8EncodeChar (charOf (a.toNat - 0xC0) [b]) = [a, b] := by
  have hval : (charOf (a.toNat - 0xC0) [b]).val.toNat =
      64 * (a.toNat - 0xC0) + (b.toNat - 0x80) :=
    val_charOf rfl (by simp only [Nat.isValidChar]; omega)
  rw [String.utf8EncodeChar, hval, if_neg (by omega), if_pos (by omega),
    ofNat_eq a (by omega), ofNat_eq b (by omega)]

/-- The form is not too long, and the character is no surrogate. -/
theorem encode_three (ha : 0xE0 ≤ a.toNat ∧ a.toNat < 0xF0)
    (hb : 0x80 ≤ b.toNat ∧ b.toNat ≤ 0xBF) (hlong : a.toNat = 0xE0 → 0xA0 ≤ b.toNat)
    (hsurrogate : a.toNat = 0xED → b.toNat ≤ 0x9F) (hc : 0x80 ≤ c.toNat ∧ c.toNat ≤ 0xBF) :
    String.utf8EncodeChar (charOf (a.toNat - 0xE0) [b, c]) = [a, b, c] := by
  have hval : (charOf (a.toNat - 0xE0) [b, c]).val.toNat =
      64 * (64 * (a.toNat - 0xE0) + (b.toNat - 0x80)) + (c.toNat - 0x80) :=
    val_charOf rfl (by simp only [Nat.isValidChar]; omega)
  rw [String.utf8EncodeChar, hval, if_neg (by omega), if_neg (by omega), if_pos (by omega),
    ofNat_eq a (by omega), ofNat_eq b (by omega), ofNat_eq c (by omega)]

/-- The form is not too long, and the number not too large for a character. -/
theorem encode_four (ha : 0xF0 ≤ a.toNat ∧ a.toNat < 0xF5)
    (hb : 0x80 ≤ b.toNat ∧ b.toNat ≤ 0xBF) (hlong : a.toNat = 0xF0 → 0x90 ≤ b.toNat)
    (hlarge : a.toNat = 0xF4 → b.toNat ≤ 0x8F) (hc : 0x80 ≤ c.toNat ∧ c.toNat ≤ 0xBF)
    (hd : 0x80 ≤ d.toNat ∧ d.toNat ≤ 0xBF) :
    String.utf8EncodeChar (charOf (a.toNat - 0xF0) [b, c, d]) = [a, b, c, d] := by
  have hval : (charOf (a.toNat - 0xF0) [b, c, d]).val.toNat =
      64 * (64 * (64 * (a.toNat - 0xF0) + (b.toNat - 0x80)) + (c.toNat - 0x80)) +
        (d.toNat - 0x80) :=
    val_charOf rfl (by simp only [Nat.isValidChar]; omega)
  rw [String.utf8EncodeChar, hval, if_neg (by omega), if_neg (by omega), if_neg (by omega),
    ofNat_eq a (by omega), ofNat_eq b (by omega), ofNat_eq c (by omega), ofNat_eq d (by omega)]

end Encode

/-- What the decoder takes for a character is the encoding of this character. -/
theorem encode_charOf {byte : UInt8} {lead : Lead} {follow : List UInt8}
    (hlead : Lead.of? byte = some lead) (hfollow : Within lead.follow follow) :
    String.utf8EncodeChar (charOf lead.bits follow) = byte :: follow := by
  by_cases hone : byte.toNat < 0x80
  · rw [lead_one hone] at hlead
    rw [← Option.some.inj hlead] at hfollow ⊢
    cases within_nil.mp hfollow
    exact encode_one hone
  by_cases hbad : byte.toNat < 0xC2
  · rw [lead_none (Or.inl ⟨by omega, hbad⟩)] at hlead
    cases hlead
  by_cases htwo : byte.toNat < 0xE0
  · rw [lead_two (by omega) htwo] at hlead
    rw [← Option.some.inj hlead] at hfollow ⊢
    obtain ⟨b, rest, hb, hrest, rfl⟩ := within_cons.mp hfollow
    cases within_nil.mp hrest
    exact encode_two ⟨by omega, htwo⟩ hb
  by_cases hthree : byte.toNat < 0xF0
  · rw [lead_three (by omega) hthree] at hlead
    rw [← Option.some.inj hlead] at hfollow ⊢
    obtain ⟨b, rest, hb, hrest, rfl⟩ := within_cons.mp hfollow
    obtain ⟨c, after, hc, hafter, rfl⟩ := within_cons.mp hrest
    cases within_nil.mp hafter
    simp only [apply_ite UInt8.toNat, ← UInt8.toNat_inj, UInt8.reduceToNat] at hb hc
    refine encode_three ⟨by omega, hthree⟩ ?_ ?_ ?_ hc
    all_goals split_ifs at hb <;> omega
  by_cases hfour : byte.toNat < 0xF5
  · rw [lead_four (by omega) hfour] at hlead
    rw [← Option.some.inj hlead] at hfollow ⊢
    obtain ⟨b, rest, hb, hrest, rfl⟩ := within_cons.mp hfollow
    obtain ⟨c, after, hc, hafter, rfl⟩ := within_cons.mp hrest
    obtain ⟨d, last, hd, hlast, rfl⟩ := within_cons.mp hafter
    cases within_nil.mp hlast
    simp only [apply_ite UInt8.toNat, ← UInt8.toNat_inj, UInt8.reduceToNat] at hb hc hd
    refine encode_four ⟨by omega, hfour⟩ ?_ ?_ ?_ hc hd
    all_goals split_ifs at hb <;> omega
  · rw [lead_none (Or.inr (by omega))] at hlead
    cases hlead

theorem toNat_ofNat_of_lt {n : Nat} (h : n < 256) : (UInt8.ofNat n).toNat = n := by
  rw [UInt8.toNat_ofNat']
  exact Nat.mod_eq_of_lt h

theorem tail_bounds (n : Nat) :
    UInt8.toNat 0x80 ≤ (UInt8.ofNat (n % 64 + 128)).toNat ∧
      (UInt8.ofNat (n % 64 + 128)).toNat ≤ UInt8.toNat 0xBF := by
  rw [toNat_ofNat_of_lt (by omega)]
  simp only [UInt8.reduceToNat]
  omega

/-- The encoding of a character starts with a byte that announces the others. -/
theorem exists_lead (c : Char) : ∃ byte lead follow,
    String.utf8EncodeChar c = byte :: follow ∧ Lead.of? byte = some lead ∧
      Within lead.follow follow := by
  have hvalid : c.val.toNat < 0xD800 ∨ 0xDFFF < c.val.toNat ∧ c.val.toNat < 0x110000 := c.valid
  unfold String.utf8EncodeChar
  generalize c.val.toNat = n at hvalid
  simp only
  split_ifs with hone htwo hthree
  · have hbyte := toNat_ofNat_of_lt (n := n) (by omega)
    exact ⟨_, _, _, rfl, lead_one (by omega), within_nil.mpr rfl⟩
  · have hbyte := toNat_ofNat_of_lt (n := n / 64 % 32 + 192) (by omega)
    exact ⟨_, _, _, rfl, lead_two (by omega) (by omega),
      within_cons.mpr ⟨_, _, tail_bounds n, within_nil.mpr rfl, rfl⟩⟩
  · have hbyte := toNat_ofNat_of_lt (n := n / 4096 % 16 + 224) (by omega)
    have hsecond := toNat_ofNat_of_lt (n := n / 64 % 64 + 128) (by omega)
    refine ⟨_, _, _, rfl, lead_three (by omega) (by omega), within_cons.mpr ⟨_, _, ?_,
      within_cons.mpr ⟨_, _, tail_bounds n, within_nil.mpr rfl, rfl⟩, rfl⟩⟩
    simp only [apply_ite UInt8.toNat, ← UInt8.toNat_inj, UInt8.reduceToNat, hbyte, hsecond]
    split_ifs <;> omega
  · have hbyte := toNat_ofNat_of_lt (n := n / 262144 % 8 + 240) (by omega)
    have hsecond := toNat_ofNat_of_lt (n := n / 4096 % 64 + 128) (by omega)
    refine ⟨_, _, _, rfl, lead_four (by omega) (by omega), within_cons.mpr ⟨_, _, ?_,
      within_cons.mpr ⟨_, _, tail_bounds (n / 64),
        within_cons.mpr ⟨_, _, tail_bounds n, within_nil.mpr rfl, rfl⟩, rfl⟩, rfl⟩⟩
    simp only [apply_ite UInt8.toNat, ← UInt8.toNat_inj, UInt8.reduceToNat, hbyte, hsecond]
    split_ifs <;> omega

theorem encodeChar_injective {c d : Char}
    (h : String.utf8EncodeChar c = String.utf8EncodeChar d) : c = d := by
  have hc := ByteArray.utf8DecodeChar?_utf8EncodeChar_append (b := .empty) (c := c)
  have hd := ByteArray.utf8DecodeChar?_utf8EncodeChar_append (b := .empty) (c := d)
  rw [h, hd] at hc
  exact (Option.some.inj hc).symm

/-! ## Whole texts -/

theorem decodeFrom_encode (position : Nat) (text : List Char) :
    decodeFrom position (text.flatMap String.utf8EncodeChar) = .ok text := by
  induction text generalizing position with
  | nil =>
    rw [List.flatMap_nil, decodeFrom]
  | cons c text ih =>
    obtain ⟨byte, lead, follow, hcode, hlead, hfollow⟩ := exists_lead c
    have hchar : charOf lead.bits follow = c :=
      encodeChar_injective ((encode_charOf hlead hfollow).trans hcode.symm)
    have hlength : lead.follow.length = follow.length := hfollow.length_eq
    rw [List.flatMap_cons, hcode, List.cons_append, decodeFrom, hlead]
    simp only [hfollow.fitting_append, if_true, hlength, List.take_left', List.drop_left', ih]
    rw [Except.map, hchar]

theorem encode_of_decodeFrom {position : Nat} {bytes : List UInt8} {text : List Char}
    (h : decodeFrom position bytes = .ok text) : bytes = text.flatMap String.utf8EncodeChar := by
  fun_induction decodeFrom position bytes generalizing text with
  | case1 =>
    cases h
    rfl
  | case2 => cases h
  | case3 position byte rest lead hlead fit hfit =>
    rename_i ih
    cases hmore : decodeFrom (position + 1 + fit) (rest.drop fit) with
    | error fault =>
      rw [hmore] at h
      cases h
    | ok more =>
      rw [hmore] at h
      cases h
      have hwithin : Within lead.follow (rest.take fit) := by
        rw [hfit]
        exact within_of_fitting hfit
      rw [List.flatMap_cons, encode_charOf hlead hwithin, ← ih hmore, List.cons_append,
        List.take_append_drop]
  | case4 => cases h
  | case5 => cases h

/-- Bytes are read as a text if they are its encoding, and only then. -/
theorem decode_eq_ok_iff {bytes : List UInt8} {text : List Char} :
    decode bytes = .ok text ↔ bytes.toByteArray = text.utf8Encode := by
  rw [List.utf8Encode, List.toByteArray_inj]
  constructor
  · exact encode_of_decodeFrom
  · rintro rfl
    exact decodeFrom_encode 0 text

theorem exists_fault_of_invalid {bytes : List UInt8} (h : ¬ bytes.toByteArray.IsValidUTF8) :
    ∃ fault, decode bytes = .error fault := by
  cases hdecode : decode bytes with
  | ok text => exact absurd ⟨text, decode_eq_ok_iff.mp hdecode⟩ h
  | error fault => exact ⟨fault, rfl⟩

end Utf8

end Assay
