import StackMachine.Json.Parser
import StackMachine.Json.Printer

/-!
# Strings and numbers are read back

* (strings) The reader splits a string into parts, and the parts spell bytes; `Spells` joins the two steps, so that the
  text of a string is followed one character at a time.  Each character spells its own UTF-8 bytes, whichever way it is
  escaped (`Spells.renderChar`), so the bytes that a string spells are those of its text.
* (numbers) The digits of a number end where the next byte is neither a digit nor the start of a fraction or an exponent
  (`EndsNumber`), and no number but zero is written with a leading zero.
-/

namespace StackMachine.Json

/-! ### Strings -/

/-- Behind its opening quote the input is a string that spells the bytes, with `rest` behind its closing quote. -/
def Spells (input bytes rest : List UInt8) : Prop :=
  ∃ parts, stringParts? input = some (parts, rest) ∧ spell? parts = some bytes

theorem stringParts?_quote (rest : List UInt8) : stringParts? (Byte.quote :: rest) = some ([], rest) := by
  unfold stringParts?
  exact if_pos rfl

theorem stringParts?_unit {a b c d : UInt8} {value : Nat} (hunit : unit? a b c d = some value) {input rest : List UInt8}
    {parts : List StringPart} (h : stringParts? input = some (parts, rest)) :
    stringParts? (Byte.backslash :: Byte.u :: a :: b :: c :: d :: input) = some (.unit value :: parts, rest) := by
  unfold stringParts?
  rw [if_neg (by decide), if_pos rfl]
  change ((unit? a b c d).bind fun unit => (stringParts? input).bind fun found =>
    some (StringPart.unit unit :: found.1, found.2)) = _
  rw [hunit, h]
  rfl

theorem Spells.quote (rest : List UInt8) : Spells (Byte.quote :: rest) [] rest :=
  ⟨[], stringParts?_quote rest, rfl⟩

theorem Spells.byte {byte : UInt8} (hquote : byte ≠ Byte.quote) (hbackslash : byte ≠ Byte.backslash)
    (hcontrol : Byte.isControl byte = false) {input bytes rest : List UInt8} (h : Spells input bytes rest) :
    Spells (byte :: input) (byte :: bytes) rest := by
  obtain ⟨parts, hparts, hspell⟩ := h
  refine ⟨.byte byte :: parts, ?_, ?_⟩
  · unfold stringParts?
    simp only [hquote, hbackslash, hcontrol, if_false, hparts]
    rfl
  · rw [spell?, hspell]
    rfl

theorem Spells.shortEscape {escape byte : UInt8} (hescape : shortEscape? escape = some byte)
    {input bytes rest : List UInt8} (h : Spells input bytes rest) :
    Spells (Byte.backslash :: escape :: input) (byte :: bytes) rest := by
  obtain ⟨parts, hparts, hspell⟩ := h
  refine ⟨.byte byte :: parts, ?_, ?_⟩
  · rw [stringParts?]
    · rw [if_neg (by decide), if_pos rfl, hescape, hparts]
      rfl
    · -- the escape of four digits is no short one
      rintro a b c d after rfl rfl
      cases hescape
  · rw [spell?, hspell]
    rfl

theorem Spells.unit {a b c d : UInt8} {value : Nat} (hunit : unit? a b c d = some value) (hvalue : value < 0xD800)
    {input bytes rest : List UInt8} (h : Spells input bytes rest) :
    Spells (Byte.backslash :: Byte.u :: a :: b :: c :: d :: input) (codePoint value ++ bytes) rest := by
  obtain ⟨parts, hparts, hspell⟩ := h
  have hhigh : isHighSurrogate value = false := by
    simp [isHighSurrogate]
    omega
  have hlow : isLowSurrogate value = false := by
    simp [isLowSurrogate]
    omega
  refine ⟨.unit value :: parts, stringParts?_unit hunit hparts, ?_⟩
  unfold spell?
  simp only [hhigh, hlow, hspell]
  rfl

/-- A byte that stands for itself in a string. -/
def IsPlain (byte : UInt8) : Prop :=
  byte ≠ Byte.quote ∧ byte ≠ Byte.backslash ∧ Byte.isControl byte = false

theorem Spells.plain {stretch : List UInt8} (hplain : ∀ byte ∈ stretch, IsPlain byte) {input bytes rest : List UInt8}
    (h : Spells input bytes rest) : Spells (stretch ++ input) (stretch ++ bytes) rest := by
  induction stretch with
  | nil => exact h
  | cons byte stretch ih =>
    obtain ⟨hquote, hbackslash, hcontrol⟩ := hplain byte (by simp)
    exact .byte hquote hbackslash hcontrol (ih fun b hb => hplain b (by simp [hb]))

private theorem isPlain_ofNat {n : Nat} (hlt : n < 0x100) (hcontrol : 0x20 ≤ n) (hquote : n ≠ 0x22)
    (hbackslash : n ≠ 0x5C) : IsPlain (UInt8.ofNat n) := by
  have hnat : (UInt8.ofNat n).toNat = n := UInt8.toNat_ofNat_of_lt' hlt
  refine ⟨?_, ?_, ?_⟩
  · intro heq
    rw [heq] at hnat
    exact hquote hnat.symm
  · intro heq
    rw [heq] at hnat
    exact hbackslash hnat.symm
  · simp only [Byte.isControl, decide_eq_false_iff_not, UInt8.lt_iff_toNat_lt, hnat]
    exact Nat.not_lt.2 hcontrol

theorem utf8EncodeChar_of_lt {c : Char} (h : c.toNat < 0x80) : String.utf8EncodeChar c = [UInt8.ofNat c.toNat] := by
  unfold String.utf8EncodeChar
  exact if_pos (Nat.le_of_lt_succ h)

theorem isPlain_of_mem_utf8EncodeChar {c : Char} (h : 0x80 ≤ c.toNat) :
    ∀ byte ∈ String.utf8EncodeChar c, IsPlain byte := by
  intro byte hbyte
  have hval : c.val.toNat = c.toNat := rfl
  unfold String.utf8EncodeChar at hbyte
  dsimp only at hbyte
  split at hbyte
  · omega
  · split at hbyte
    · simp only [List.mem_cons, List.not_mem_nil, or_false] at hbyte
      rcases hbyte with rfl | rfl <;> exact isPlain_ofNat (by omega) (by omega) (by omega) (by omega)
    · split at hbyte
      · simp only [List.mem_cons, List.not_mem_nil, or_false] at hbyte
        rcases hbyte with rfl | rfl | rfl <;> exact isPlain_ofNat (by omega) (by omega) (by omega) (by omega)
      · simp only [List.mem_cons, List.not_mem_nil, or_false] at hbyte
        rcases hbyte with rfl | rfl | rfl | rfl <;> exact isPlain_ofNat (by omega) (by omega) (by omega) (by omega)

private theorem hexValue?_digitChar : ∀ d < 16, Byte.hexValue? (Byte.ofChar (Nat.digitChar d)) = some d := by
  decide

private theorem Spells.short {c : Char} {escape : UInt8} (hlt : c.toNat < 0x80)
    (hescape : shortEscape? escape = some (UInt8.ofNat c.toNat)) {input bytes rest : List UInt8}
    (h : Spells input bytes rest) :
    Spells ([Byte.backslash, escape] ++ input) (String.utf8EncodeChar c ++ bytes) rest := by
  rw [utf8EncodeChar_of_lt hlt]
  exact .shortEscape hescape h

private theorem Spells.controlEscape {c : Char} (hlt : c.toNat < 0x20) {input bytes rest : List UInt8}
    (h : Spells input bytes rest) :
    Spells (controlEscape c ++ input) (String.utf8EncodeChar c ++ bytes) rest := by
  have hunit : unit? Byte.zero Byte.zero (Byte.ofChar (Nat.digitChar (c.toNat / 16)))
      (Byte.ofChar (Nat.digitChar (c.toNat % 16))) = some c.toNat := by
    have hzero : Byte.hexValue? Byte.zero = some 0 := rfl
    have hhigh := hexValue?_digitChar (c.toNat / 16) (by omega)
    have hlow := hexValue?_digitChar (c.toNat % 16) (by omega)
    simp only [unit?, hzero, hhigh, hlow, Option.bind_eq_bind, Option.bind_some, Option.pure_def, Option.some.injEq]
    omega
  have hspells := Spells.unit hunit (by omega) h
  rw [codePoint, Char.ofNat_toNat] at hspells
  exact hspells

/-- A character spells its UTF-8 bytes, whichever way it is escaped. -/
theorem Spells.renderChar (c : Char) {input bytes rest : List UInt8} (h : Spells input bytes rest) :
    Spells (renderChar c ++ input) (String.utf8EncodeChar c ++ bytes) rest := by
  unfold Json.renderChar
  split
  · subst c
    exact .short (by decide) rfl h
  split
  · subst c
    exact .short (by decide) rfl h
  iterate 5
    split
    · rename_i hc
      exact .short (by omega) (by rw [hc]; rfl) h
  split
  · rename_i hcontrol
    exact .controlEscape hcontrol h
  · rename_i hquote hbackslash _ _ _ _ _ hcontrol
    apply Spells.plain ?_ h
    rcases Nat.lt_or_ge c.toNat 0x80 with hascii | habove
    · intro byte hbyte
      rw [utf8EncodeChar_of_lt hascii, List.mem_singleton] at hbyte
      subst hbyte
      have hofNat := Char.ofNat_toNat c
      refine isPlain_ofNat (by omega) (by omega) (fun heq => hquote ?_) (fun heq => hbackslash ?_)
      · rw [← hofNat, heq]
      · rw [← hofNat, heq]
    · exact isPlain_of_mem_utf8EncodeChar habove

/-- The characters of a text spell its bytes, up to the closing quote. -/
theorem spells_flatMap_renderChar (text : List Char) (rest : List UInt8) :
    Spells (text.flatMap renderChar ++ Byte.quote :: rest) (text.flatMap String.utf8EncodeChar) rest := by
  induction text with
  | nil => exact .quote rest
  | cons c text ih =>
    rw [List.flatMap_cons, List.flatMap_cons, List.append_assoc]
    exact ih.renderChar c

private theorem readString?_of_parts {input rest : List UInt8} {parts : List StringPart}
    (h : stringParts? input = some (parts, rest)) :
    readString? input = some ((spell? parts).bind decodeUtf8?, rest) := by
  rw [readString?, h]
  rfl

/-- A string starts with a quote, and is read back from what follows it. -/
theorem exists_renderString_eq (text : Option String) :
    ∃ body, renderString text = Byte.quote :: body ∧ ∀ rest, readString? (body ++ rest) = some (text, rest) := by
  cases text with
  | none =>
    -- half a surrogate pair, which spells no text
    have hunit : unit? Byte.d 0x38 Byte.zero Byte.zero = some 0xD800 := rfl
    refine ⟨[Byte.backslash, Byte.u, Byte.d, 0x38, Byte.zero, Byte.zero, Byte.quote], by decide, fun rest => ?_⟩
    exact readString?_of_parts (stringParts?_unit hunit (stringParts?_quote rest))
  | some text =>
    refine ⟨text.toList.flatMap renderChar ++ [Byte.quote], rfl, fun rest => ?_⟩
    obtain ⟨parts, hparts, hspell⟩ := spells_flatMap_renderChar text.toList rest
    have hread := readString?_of_parts hparts
    rw [hspell, Option.bind_some] at hread
    rw [List.append_assoc, List.singleton_append, hread, ← encodeUtf8, decodeUtf8?_encodeUtf8]

/-! ### Numbers -/

/-- What follows a number does not continue it. -/
def EndsNumber (rest : List UInt8) : Prop :=
  ∀ byte ∈ rest.head?, Byte.isDigit byte = false ∧ byte ≠ Byte.point ∧ byte ≠ Byte.e ∧ byte ≠ Byte.upperE

theorem EndsNumber.takeWhile_eq_nil {rest : List UInt8} (h : EndsNumber rest) : rest.takeWhile Byte.isDigit = [] := by
  cases rest with
  | nil => rfl
  | cons byte rest => rw [List.takeWhile_cons, (h byte rfl).1]; rfl

theorem EndsNumber.dropWhile_eq {rest : List UInt8} (h : EndsNumber rest) : rest.dropWhile Byte.isDigit = rest := by
  cases rest with
  | nil => rfl
  | cons byte rest => rw [List.dropWhile_cons, (h byte rfl).1]; rfl

theorem EndsNumber.fraction?_eq {rest : List UInt8} (h : EndsNumber rest) : fraction? rest = some (false, rest) := by
  unfold fraction?
  split
  · exact absurd rfl (h _ rfl).2.1
  · rfl

theorem EndsNumber.exponent?_eq {rest : List UInt8} (h : EndsNumber rest) : exponent? rest = some (false, rest) := by
  unfold exponent?
  split
  · exact absurd rfl (h _ rfl).2.2.1
  · exact absurd rfl (h _ rfl).2.2.2
  · rfl

theorem digits?_append {digits rest : List UInt8} (hdigits : ∀ byte ∈ digits, Byte.isDigit byte = true)
    (hne : digits ≠ []) (h : EndsNumber rest) : digits? (digits ++ rest) = some (digits, rest) := by
  have htake : (digits ++ rest).takeWhile Byte.isDigit = digits := by
    rw [List.takeWhile_append_of_pos hdigits, h.takeWhile_eq_nil, List.append_nil]
  have hdrop : (digits ++ rest).dropWhile Byte.isDigit = rest := by
    rw [List.dropWhile_append_of_pos hdigits, h.dropWhile_eq]
  unfold digits?
  rw [htake, hdrop]
  cases digits with
  | nil => exact absurd rfl hne
  | cons first others => rfl

/-- Digits without a leading zero are a number, with its value. -/
theorem unsignedNumber?_append {digits rest : List UInt8} (hdigits : ∀ byte ∈ digits, Byte.isDigit byte = true)
    (hne : digits ≠ []) (hzero : digits.head? = some Byte.zero → digits.length = 1) (h : EndsNumber rest) :
    unsignedNumber? (digits ++ rest) = some (some (digitsValue digits), rest) := by
  have hinteger : integerPart? (digits ++ rest) = some (digits, rest) := by
    rw [integerPart?, digits?_append hdigits hne h]
    exact if_neg fun hleading => hleading.2 (hzero hleading.1)
  rw [unsignedNumber?, hinteger]
  change ((fraction? rest).bind fun _ => _) = _
  rw [h.fraction?_eq]
  change ((exponent? rest).bind fun _ => _) = _
  rw [h.exponent?_eq]
  rfl

private theorem toNat_ofChar {c : Char} (h : c.isDigit = true) : (Byte.ofChar c).toNat = c.toNat := by
  have hlt : c.toNat < 256 := by
    simp only [Char.isDigit, Bool.and_eq_true, decide_eq_true_eq, UInt32.le_iff_toNat_le] at h
    exact Nat.lt_of_le_of_lt h.2 (by decide)
  exact UInt8.toNat_ofNat_of_lt' hlt

private theorem isDigit_ofChar {c : Char} (h : c.isDigit = true) : Byte.isDigit (Byte.ofChar c) = true := by
  have hnat := toNat_ofChar h
  simp only [Char.isDigit, Bool.and_eq_true, decide_eq_true_eq, UInt32.le_iff_toNat_le] at h
  simp only [Byte.isDigit, Bool.and_eq_true, decide_eq_true_eq, UInt8.le_iff_toNat_le, hnat]
  exact h

/-- Only zero is written with a leading zero. -/
private theorem head?_toDigits {n : Nat} (h : 0 < n) : (Nat.toDigits 10 n).head? ≠ some '0' := by
  induction n using Nat.strongRecOn with
  | ind n ih =>
    rcases Nat.lt_or_ge n 10 with hlt | hge
    · rw [Nat.toDigits_of_lt_base hlt]
      simp
      omega
    · have hhead := ih (n / 10) (by omega) (by omega)
      rw [Nat.toDigits_of_base_le (by decide) hge]
      cases hdigits : Nat.toDigits 10 (n / 10) with
      | nil => exact absurd hdigits Nat.toDigits_ne_nil
      | cons first others =>
        rw [hdigits] at hhead
        exact hhead

theorem isDigit_of_mem_renderNumber {n : Nat} {byte : UInt8} (h : byte ∈ renderNumber (some n)) :
    Byte.isDigit byte = true := by
  obtain ⟨c, hc, rfl⟩ := List.mem_map.1 h
  exact isDigit_ofChar (Nat.isDigit_of_mem_toDigits (by decide) (by decide) hc)

theorem renderNumber_ne_nil (n : Nat) : renderNumber (some n) ≠ [] := by
  intro h
  exact Nat.toDigits_ne_nil (List.map_eq_nil_iff.1 h)

theorem digitsValue_renderNumber (n : Nat) : digitsValue (renderNumber (some n)) = n := by
  have hchars : (renderNumber (some n)).map (fun byte => Char.ofNat byte.toNat) = Nat.toDigits 10 n := by
    rw [renderNumber, List.map_map]
    conv => rhs; rw [← List.map_id (Nat.toDigits 10 n)]
    apply List.map_congr_left
    intro c hc
    have hnat := toNat_ofChar (Nat.isDigit_of_mem_toDigits (by decide) (by decide) hc)
    rw [Function.comp_apply, hnat, Char.ofNat_toNat]
    rfl
  rw [digitsValue, hchars, Nat.ofDigitChars_toDigits (by decide) (by decide)]

private theorem length_of_leading_zero {n : Nat} (h : (renderNumber (some n)).head? = some Byte.zero) :
    (renderNumber (some n)).length = 1 := by
  rcases Nat.eq_zero_or_pos n with rfl | hpos
  · rfl
  · rw [renderNumber, List.head?_map, Option.map_eq_some_iff] at h
    obtain ⟨c, hc, hzero⟩ := h
    have hdigit := Nat.isDigit_of_mem_toDigits (by decide) (by decide) (List.mem_of_head? hc)
    have hnat : c.toNat = '0'.toNat := by
      rw [← toNat_ofChar hdigit, hzero]
      rfl
    rw [← Char.ofNat_toNat c, hnat, Char.ofNat_toNat] at hc
    exact absurd hc (head?_toDigits hpos)

/-- A number starts with a digit or a minus sign. -/
theorem exists_renderNumber_eq (value : Option Nat) :
    ∃ first others, renderNumber value = first :: others ∧ (Byte.isDigit first = true ∨ first = Byte.minus) := by
  cases value with
  | none => exact ⟨Byte.minus, [Byte.zero], by decide, .inr rfl⟩
  | some n =>
    cases hdigits : renderNumber (some n) with
    | nil => exact absurd hdigits (renderNumber_ne_nil n)
    | cons first others =>
      exact ⟨first, others, rfl, .inl (isDigit_of_mem_renderNumber (by rw [hdigits]; exact List.mem_cons_self))⟩

/-- A number is read back if what follows does not continue it. -/
theorem readNumber?_renderNumber (value : Option Nat) {rest : List UInt8} (h : EndsNumber rest) :
    readNumber? (renderNumber value ++ rest) = some (value, rest) := by
  cases value with
  | none =>
    have hdigit : ∀ byte ∈ [Byte.zero], Byte.isDigit byte = true := by
      intro byte hbyte
      rw [List.mem_singleton.1 hbyte]
      rfl
    have hzero : unsignedNumber? ([Byte.zero] ++ rest) = some (some 0, rest) :=
      unsignedNumber?_append hdigit (List.cons_ne_nil _ _) (fun _ => rfl) h
    change (unsignedNumber? ([Byte.zero] ++ rest)).map _ = _
    rw [hzero]
    rfl
  | some n =>
    have hread := unsignedNumber?_append (fun _ => isDigit_of_mem_renderNumber) (renderNumber_ne_nil n)
      length_of_leading_zero h
    rw [digitsValue_renderNumber] at hread
    unfold readNumber?
    split
    · rename_i after heq
      -- a sign would be the first of the digits
      have hmem : Byte.minus ∈ renderNumber (some n) := by
        rw [List.append_eq_cons_iff] at heq
        rcases heq with ⟨hnil, -⟩ | ⟨others, hcons, -⟩
        · exact absurd hnil (renderNumber_ne_nil n)
        · rw [hcons]
          exact List.mem_cons_self
      exact absurd (isDigit_of_mem_renderNumber hmem) (by decide)
    · exact hread

end StackMachine.Json
