-- Quotations. A quoted text stays on one line, and it ends itself: whatever comes
-- after it, both the text and what comes after can be read off.
import Mathlib.Algebra.Group.Nat.Defs
import Mathlib.Tactic.SplitIfs
import Assay.Proofs.Quotations
import Assay.Text.Quoted

namespace Assay

/-! ## Hexadecimal digits -/

/-- The number that a hexadecimal digit stands for. -/
def hexValue (c : Char) : Nat :=
  if c.toNat < 'a'.toNat then c.toNat - '0'.toNat else c.toNat - 'a'.toNat + 10

def readHex (digits : List Char) : Nat :=
  digits.foldl (fun n c => 16 * n + hexValue c) 0

theorem hexValue_hexDigit {n : Nat} (h : n < 16) : hexValue (hexDigit n) = n := by
  have hall : ∀ n < 16, hexValue (hexDigit n) = n := by decide
  exact hall n h

theorem length_hexDigits (width n : Nat) : (hexDigits width n).length = width := by
  induction width generalizing n with
  | zero => rfl
  | succ width ih => rw [hexDigits, List.length_append, ih, List.length_singleton]

theorem readHex_hexDigits {width n : Nat} (h : n < 16 ^ width) :
    readHex (hexDigits width n) = n := by
  induction width generalizing n with
  | zero =>
    rw [Nat.pow_zero, Nat.lt_one_iff] at h
    rw [h]
    rfl
  | succ width ih =>
    have hhigh : n / 16 < 16 ^ width := by
      rw [Nat.div_lt_iff_lt_mul (by decide)]
      exact h
    have hhigher : (hexDigits width (n / 16)).foldl (fun n c => 16 * n + hexValue c) 0 = n / 16 :=
      ih hhigh
    rw [hexDigits, readHex, List.foldl_append, hhigher, List.foldl_cons, List.foldl_nil,
      hexValue_hexDigit (Nat.mod_lt n (by decide))]
    exact Nat.div_add_mod n 16

theorem newline_not_mem_hexDigits (width n : Nat) : '\n' ∉ hexDigits width n := by
  have hall : ∀ n < 16, hexDigit n ≠ '\n' := by decide
  induction width generalizing n with
  | zero => exact List.not_mem_nil
  | succ width ih =>
    rw [hexDigits, List.mem_append, List.mem_singleton]
    rintro (hhigh | hlow)
    · exact ih (n / 16) hhigh
    · exact hall (n % 16) (Nat.mod_lt n (by decide)) hlow.symm

/-! ## One character -/

theorem isQuote_quoteFor (text : List Char) : isQuote (quoteFor text) := by
  unfold quoteFor
  split
  · rfl
  · rfl

/-- The character that an escape stands for, after its backslash, and what comes after it. -/
def readEscape : List Char → Option (Char × List Char)
  | [] => none
  | mark :: rest =>
    if mark = 'n' then some ('\n', rest)
    else if mark = 'r' then some ('\r', rest)
    else if mark = 't' then some ('\t', rest)
    else if mark = 'x' then some (Char.ofNat (readHex (rest.take 2)), rest.drop 2)
    else if mark = 'u' then some (Char.ofNat (readHex (rest.take 4)), rest.drop 4)
    else if mark = 'U' then some (Char.ofNat (readHex (rest.take 8)), rest.drop 8)
    else some (mark, rest)

/-- The first character between quotes, as itself or as an escape, and what comes after it. -/
def readQuotedChar : List Char → Option (Char × List Char)
  | [] => none
  | c :: rest => if c = '\\' then readEscape rest else some (c, rest)

/-- An escape by number is read back, if the number fits in its digits. -/
theorem readHex_append {width : Nat} {c : Char} (h : c.toNat < 16 ^ width) (rest : List Char) :
    (Char.ofNat (readHex ((hexDigits width c.toNat ++ rest).take width)),
      (hexDigits width c.toNat ++ rest).drop width) = (c, rest) := by
  rw [List.take_left' (length_hexDigits width c.toNat),
    List.drop_left' (length_hexDigits width c.toNat), readHex_hexDigits h, Char.ofNat_toNat]

section QuotedChar

variable {quote : Char} (hquote : isQuote quote)

include hquote

theorem readQuotedChar_quotedChar (c : Char) (rest : List Char) :
    readQuotedChar (quotedChar quote c ++ rest) = some (c, rest) := by
  unfold quotedChar
  split_ifs with hself hline hreturn htab hprintable hbyte hshort
  · simp only [isQuote, Bool.or_eq_true, decide_eq_true_eq] at hquote
    rcases hself with rfl | rfl
    · rcases hquote with rfl | rfl <;> rfl
    · rfl
  · rw [hline]
    rfl
  · rw [hreturn]
    rfl
  · rw [htab]
    rfl
  · rw [List.singleton_append, readQuotedChar, if_neg (fun hc => hself (Or.inr hc))]
  · exact congrArg some (readHex_append hbyte rest)
  · exact congrArg some (readHex_append hshort rest)
  · have hmost : c.toNat < 16 ^ 8 := c.val.toNat_lt
    exact congrArg some (readHex_append hmost rest)

/-- No character is written with the enclosing quote in front. -/
theorem quotedChar_head (c : Char) :
    ∃ first more, quotedChar quote c = first :: more ∧ first ≠ quote := by
  have hescape := (isQuote_ne_backslash hquote).symm
  unfold quotedChar
  split_ifs with hself
  · exact ⟨_, _, rfl, hescape⟩
  · exact ⟨_, _, rfl, hescape⟩
  · exact ⟨_, _, rfl, hescape⟩
  · exact ⟨_, _, rfl, hescape⟩
  · exact ⟨_, _, rfl, fun hc => hself (Or.inl hc)⟩
  · exact ⟨_, _, rfl, hescape⟩
  · exact ⟨_, _, rfl, hescape⟩
  · exact ⟨_, _, rfl, hescape⟩

theorem newline_not_mem_quotedChar (c : Char) : '\n' ∉ quotedChar quote c := by
  have hline : quote ≠ '\n' := by
    rintro rfl
    exact absurd hquote (by decide)
  unfold quotedChar
  split_ifs with hself hnewline hreturn htab hprintable hbyte hshort
  · rcases hself with rfl | rfl
    · simpa using hline.symm
    · decide
  · decide
  · decide
  · decide
  · simpa using Ne.symm hnewline
  · simpa using newline_not_mem_hexDigits 2 c.toNat
  · simpa using newline_not_mem_hexDigits 4 c.toNat
  · simpa using newline_not_mem_hexDigits 8 c.toNat

/-! ## Whole texts -/

/-- A row of characters is read up to the quote that ends it. -/
theorem quotedBody_inj {text other after after' : List Char}
    (h : text.flatMap (quotedChar quote) ++ quote :: after =
      other.flatMap (quotedChar quote) ++ quote :: after') : text = other ∧ after = after' := by
  induction text generalizing other with
  | nil =>
    cases other with
    | nil => exact ⟨rfl, (List.cons.inj h).2⟩
    | cons d other =>
      obtain ⟨first, more, hcode, hne⟩ := quotedChar_head hquote d
      rw [List.flatMap_cons, hcode] at h
      exact absurd (List.cons.inj h).1.symm hne
  | cons c text ih =>
    cases other with
    | nil =>
      obtain ⟨first, more, hcode, hne⟩ := quotedChar_head hquote c
      rw [List.flatMap_cons, hcode] at h
      exact absurd (List.cons.inj h).1 hne
    | cons d other =>
      rw [List.flatMap_cons, List.flatMap_cons, List.append_assoc, List.append_assoc] at h
      have hread := congrArg readQuotedChar h
      rw [readQuotedChar_quotedChar hquote, readQuotedChar_quotedChar hquote] at hread
      obtain ⟨rfl, hrest⟩ := Prod.mk.inj (Option.some.inj hread)
      obtain ⟨rfl, hafter⟩ := ih hrest
      exact ⟨rfl, hafter⟩

end QuotedChar

/-- A quotation begins with a quote. -/
theorem exists_toList_quoted (text : String) :
    ∃ quote body, isQuote quote ∧ (quoted text).toList = quote :: body :=
  ⟨quoteFor text.toList, _, isQuote_quoteFor _, by rw [quoted, String.toList_ofList, quotedChars]⟩

/-- A quotation tells its text, and where it ends. -/
theorem quoted_append_inj {text other : String} {after after' : List Char}
    (h : (quoted text).toList ++ after = (quoted other).toList ++ after') :
    text = other ∧ after = after' := by
  simp only [quoted, quotedChars, String.toList_ofList, List.cons_append, List.append_assoc,
    List.cons.injEq] at h
  obtain ⟨hquote, hbody⟩ := h
  rw [← hquote] at hbody
  obtain ⟨htext, hafter⟩ := quotedBody_inj (isQuote_quoteFor _) hbody
  exact ⟨String.toList_inj.mp htext, hafter⟩

/-- A quotation stays on one line. -/
theorem newline_not_mem_quotedChars (text : List Char) : '\n' ∉ quotedChars text := by
  have hquote := isQuote_quoteFor text
  have hline : '\n' ≠ quoteFor text := by
    rintro heq
    rw [← heq] at hquote
    exact absurd hquote (by decide)
  rw [quotedChars, List.mem_cons, List.mem_append, List.mem_flatMap, List.mem_singleton]
  rintro (heq | ⟨c, -, hc⟩ | heq)
  · exact hline heq
  · exact newline_not_mem_quotedChar hquote c hc
  · exact hline heq

/-- An escape in the text is quoted as well, and a quote that ends it does not end the
quotation. -/
example : (quoted "a\\x\n\"").toList = "'a\\\\x\\n\"'".toList := by decide +kernel

end Assay
