import IntegerMachine.Proofs.Text.Blank
import IntegerMachine.Text.Numeral
import Mathlib.Data.List.Induction
import Mathlib.Data.Nat.Digits.Defs

/-!
# Numerals are read alike

A numeral is a sign or nothing, and decimal digits.  The scanner of programs takes numerals
from a text, and `integerValue?_of_isNumeral` says that the generous reading of a whole text
gives a numeral its plain value, if its digits are not too many.  Numbers are written as numerals,
whose value is the number, and no numeral of a number has fewer digits than that
(`digitCount_numeralValue_le`).
-/

set_option autoImplicit false

namespace IntegerMachine.Text

/-- A text of decimal digits, with a sign in front or none. -/
structure IsNumeral (text : List Char) : Prop where
  digits_ne_nil : (splitSign text).2 ≠ []
  isDigit_of_mem : ∀ c ∈ (splitSign text).2, c.isDigit = true

/-- A numeral is not empty. -/
theorem IsNumeral.ne_nil {text : List Char} (h : IsNumeral text) : text ≠ [] := by
  rintro rfl
  exact h.digits_ne_nil rfl

/-- The digits are ten characters in a row. -/
theorem toNat_bounds_of_isDigit {c : Char} (h : c.isDigit = true) :
    48 ≤ c.toNat ∧ c.toNat ≤ 57 :=
  Char.isDigit_iff_toNat.mp h

/-- A digit is none of the other characters. -/
theorem ne_of_isDigit {c d : Char} (h : c.isDigit = true) (hd : d.isDigit = false) : c ≠ d := by
  rintro rfl
  rw [h] at hd
  exact absurd hd (by decide)

/-- The digits of programs have their own value in every reading. -/
theorem digitValue?_of_isDigit {c : Char} (h : c.isDigit = true) :
    digitValue? c = some (c.toNat - '0'.toNat) := by
  obtain ⟨hlow, hhigh⟩ := toNat_bounds_of_isDigit h
  unfold digitValue? digitRanges
  rw [List.find?_cons_of_pos (by simp; omega)]
  have hzero : '0'.toNat = 48 := rfl
  simp only [Option.map_some, Option.some.injEq, hzero]
  omega

/-- A digit is no space. -/
theorem isSpace_of_isDigit {c : Char} (h : c.isDigit = true) : isSpace c = false := by
  obtain ⟨hlow, hhigh⟩ := toNat_bounds_of_isDigit h
  unfold isSpace inRanges spaceRanges
  simp only [List.any_cons, List.any_nil, Bool.or_eq_false_iff, Bool.and_eq_false_iff,
    decide_eq_false_iff_not, and_true]
  omega

/-- No digit is skipped around a number. -/
theorem isMargin_of_isDigit {c : Char} (h : c.isDigit = true) : isMargin c = false := by
  rw [isMargin, isSpace_of_isDigit h, Bool.false_and]

/-- Every blank may stand around a number. -/
theorem isMargin_of_isBlank {c : Char} (h : isBlank c = true) : isMargin c = true := by
  simp only [isBlank, Bool.or_eq_true, beq_iff_eq] at h
  rcases h with ((rfl | rfl) | rfl) | rfl <;> decide

/-- No blank is a digit. -/
theorem isDigit_of_isBlank {c : Char} (h : isBlank c = true) : c.isDigit = false := by
  cases hdigit : c.isDigit with
  | false => rfl
  | true =>
    have hmargin := isMargin_of_isDigit hdigit
    rw [isMargin_of_isBlank h] at hmargin
    exact absurd hmargin (by decide)

/-- Splitting the sign and putting it back. -/
theorem signMark_append_splitSign (text : List Char) :
    signMark text ++ (splitSign text).2 = text := by
  unfold signMark splitSign
  split <;> simp_all

/-- Text without a sign in front, behind the sign of another text, splits where that does. -/
theorem splitSign_signMark_append (text : List Char) {digits : List Char}
    (h : ∀ c ∈ digits, c.isDigit = true) :
    splitSign (signMark text ++ digits) = ((splitSign text).1, digits) := by
  unfold signMark
  split
  · rfl
  · rfl
  · rename_i hminus hplus
    have hsign : (splitSign text).1 = false := by
      unfold splitSign
      split
      · exact absurd rfl (hminus _)
      · rfl
      · rfl
    rw [hsign, List.nil_append]
    unfold splitSign
    split
    · exact absurd (h '-' (by simp)) (by decide)
    · exact absurd (h '+' (by simp)) (by decide)
    · rfl

/-- What is taken as digits are digits. -/
theorem all_isDigit_takeWhile (text : List Char) :
    ∀ c ∈ text.takeWhile Char.isDigit, c.isDigit = true := by
  intro c hc
  exact List.all_eq_true.mp List.all_takeWhile c hc

/-- What the scanner takes is a numeral. -/
theorem isNumeral_of_scanNumeral {text numeral rest : List Char}
    (h : scanNumeral text = some (numeral, rest)) : IsNumeral numeral := by
  unfold scanNumeral at h
  generalize htail : (splitSign text).2 = tail at h
  by_cases hempty : (tail.takeWhile Char.isDigit).isEmpty = true
  · simp [hempty] at h
  · rw [if_neg hempty] at h
    obtain ⟨rfl, -⟩ := Prod.mk.inj (Option.some.inj h)
    have hsplit := splitSign_signMark_append text (all_isDigit_takeWhile tail)
    constructor
    · rw [hsplit]
      simpa using hempty
    · rw [hsplit]
      exact all_isDigit_takeWhile tail

/-- A numeral and what follows it are the whole text. -/
theorem eq_append_of_scanNumeral {text numeral rest : List Char}
    (h : scanNumeral text = some (numeral, rest)) : text = numeral ++ rest := by
  unfold scanNumeral at h
  generalize htail : (splitSign text).2 = tail at h
  by_cases hempty : (tail.takeWhile Char.isDigit).isEmpty = true
  · simp [hempty] at h
  · rw [if_neg hempty] at h
    obtain ⟨rfl, rfl⟩ := Prod.mk.inj (Option.some.inj h)
    rw [List.append_assoc, List.takeWhile_append_dropWhile, ← htail, signMark_append_splitSign]

/-- The sign of a text that is not empty does not depend on what follows it. -/
theorem splitSign_append {text : List Char} (h : text ≠ []) (rest : List Char) :
    (splitSign (text ++ rest)).2 = (splitSign text).2 ++ rest ∧
      signMark (text ++ rest) = signMark text := by
  obtain ⟨c, text, rfl⟩ := List.exists_cons_of_ne_nil h
  by_cases hminus : c = '-'
  · subst hminus
    exact ⟨rfl, rfl⟩
  · by_cases hplus : c = '+'
    · subst hplus
      exact ⟨rfl, rfl⟩
    · simp [splitSign, signMark, hminus, hplus]

/-- A numeral goes on through the digits that follow it. -/
theorem IsNumeral.append_digits {numeral digits : List Char} (h : IsNumeral numeral)
    (hdigits : ∀ c ∈ digits, c.isDigit = true) : IsNumeral (numeral ++ digits) := by
  obtain ⟨hsplit, -⟩ := splitSign_append h.ne_nil digits
  constructor
  · rw [hsplit]
    simp [h.digits_ne_nil]
  · intro c hc
    rw [hsplit] at hc
    rcases List.mem_append.mp hc with hfirst | hmore
    · exact h.isDigit_of_mem c hfirst
    · exact hdigits c hmore

/-- The scanner takes a whole numeral if no digit follows it. -/
theorem scanNumeral_append {numeral rest : List Char} (h : IsNumeral numeral)
    (hrest : ∀ c ∈ rest.head?, c.isDigit = false) :
    scanNumeral (numeral ++ rest) = some (numeral, rest) := by
  obtain ⟨hsplit, hmark⟩ := splitSign_append h.ne_nil rest
  have hdigits : (splitSign numeral).2.isEmpty = false := by
    simpa using h.digits_ne_nil
  unfold scanNumeral
  rw [hsplit, hmark]
  simp only [takeWhile_append_of_head h.isDigit_of_mem hrest,
    dropWhile_append_of_head h.isDigit_of_mem hrest, hdigits, signMark_append_splitSign]
  rfl

/-- Digits without separators are read one by one. -/
theorem groupedDigits?_of_isDigit {digits : List Char} (hne : digits ≠ [])
    (h : ∀ c ∈ digits, c.isDigit = true) :
    groupedDigits? digits = some (digits.map fun c => c.toNat - '0'.toNat) := by
  induction digits with
  | nil => exact absurd rfl hne
  | cons c rest ih =>
    have hc := digitValue?_of_isDigit (h c (by simp))
    cases rest with
    | nil => simp [groupedDigits?, hc]
    | cons d rest =>
      have hrest : ∀ x ∈ d :: rest, x.isDigit = true := fun x hx => h x (by simp [hx])
      have hd : d ≠ '_' := ne_of_isDigit (hrest d (by simp)) (by decide)
      have htail := ih (by simp) hrest
      rw [groupedDigits?]
      · simp [hc, htail]
      · simp
      · intro rest' heq
        exact hd (List.cons.inj heq).1

/-- Nothing is dropped from a text that begins with no margin. -/
theorem dropWhile_isMargin {text : List Char} (h : ∀ c, text.head? = some c → isMargin c = false) :
    text.dropWhile isMargin = text := by
  cases text with
  | nil => rfl
  | cons c rest => simp [h c rfl]

/-- A numeral begins with no margin. -/
theorem isMargin_head_of_isNumeral {text : List Char} (h : IsNumeral text) :
    ∀ c, text.head? = some c → isMargin c = false := by
  intro c hc
  obtain ⟨rest, rfl⟩ := List.head?_eq_some_iff.mp hc
  by_cases hminus : c = '-'
  · subst hminus
    decide
  · by_cases hplus : c = '+'
    · subst hplus
      decide
    · have hsplit : splitSign (c :: rest) = (false, c :: rest) := by
        unfold splitSign
        split <;> simp_all
      apply isMargin_of_isDigit
      apply h.isDigit_of_mem
      rw [hsplit]
      exact List.mem_cons_self

/-- A numeral begins with no blank. -/
theorem IsNumeral.isBlank_head {text : List Char} (h : IsNumeral text) (rest : List Char) :
    ∀ c ∈ (text ++ rest).head?, isBlank c = false := by
  obtain ⟨d, tail, rfl⟩ := List.exists_cons_of_ne_nil h.ne_nil
  intro c hc
  obtain rfl : d = c := Option.some.inj hc
  have hmargin := isMargin_head_of_isNumeral h d rfl
  cases hblank : isBlank d with
  | false => rfl
  | true => rwa [isMargin_of_isBlank hblank] at hmargin

/-- A numeral ends with no margin. -/
theorem isMargin_getLast_of_isNumeral {text : List Char} (h : IsNumeral text) :
    ∀ c, text.getLast? = some c → isMargin c = false := by
  intro c hc
  rw [← signMark_append_splitSign text, List.getLast?_append,
    List.getLast?_eq_some_getLast h.digits_ne_nil, Option.some_or, Option.some.injEq] at hc
  have hmem : c ∈ (splitSign text).2 := hc ▸ List.getLast_mem h.digits_ne_nil
  exact isMargin_of_isDigit (h.isDigit_of_mem c hmem)

/-- No margin stands at either end of a numeral. -/
theorem trim_numeral {text : List Char} (h : IsNumeral text) :
    ((text.dropWhile isMargin).reverse.dropWhile isMargin).reverse = text := by
  rw [dropWhile_isMargin (isMargin_head_of_isNumeral h), dropWhile_isMargin]
  · exact List.reverse_reverse text
  · rw [List.head?_reverse]
    exact isMargin_getLast_of_isNumeral h

/-- The generous reading gives a numeral its value, unless it has too many digits. -/
theorem integerValue?_of_isNumeral {text : List Char} (h : IsNumeral text) :
    integerValue? text = if digitCount text ≤ digitLimit then some (numeralValue text) else none := by
  unfold integerValue? numeralValue digitCount
  rw [trim_numeral h]
  simp only [groupedDigits?_of_isDigit h.digits_ne_nil h.isDigit_of_mem, Option.filter_some,
    List.length_map]
  by_cases hfew : (splitSign text).2.length ≤ digitLimit
  · simp only [hfew, decide_true, ↓reduceIte, Option.map_some]
  · simp only [hfew, decide_false, Bool.false_eq_true, ↓reduceIte, Option.map_none]

/-- No space stands in a numeral. -/
theorem isSpace_of_mem_numeral {text : List Char} (h : IsNumeral text) :
    ∀ c ∈ text, isSpace c = false := by
  intro c hc
  rw [← signMark_append_splitSign text] at hc
  rcases List.mem_append.mp hc with hsign | hdigit
  · unfold signMark at hsign
    split at hsign
    · obtain rfl := List.mem_singleton.mp hsign
      decide
    · obtain rfl := List.mem_singleton.mp hsign
      decide
    · exact absurd hsign List.not_mem_nil
  · exact isSpace_of_isDigit (h.isDigit_of_mem c hdigit)

/-! ## Numbers written -/

/-- A number that is not negative is written as its digits. -/
theorem toList_toString_ofNat (n : Nat) :
    (toString (n : Int)).toList = signMark [] ++ Nat.toDigits 10 n := by
  simp [ToString.toString, Int.repr, Nat.repr, signMark]

/-- A negative number is written as a minus sign and the digits of its amount. -/
theorem toList_toString_negSucc (n : Nat) :
    (toString (Int.negSucc n)).toList = signMark ['-'] ++ Nat.toDigits 10 (n + 1) := by
  simp [ToString.toString, Int.repr, Nat.repr, signMark]

/-- The digits of a number are decimal. -/
theorem isDigit_of_mem_toDigits {n : Nat} : ∀ c ∈ Nat.toDigits 10 n, c.isDigit = true :=
  fun _ hc => Nat.isDigit_of_mem_toDigits (by decide) (by decide) hc

/-- The digits of a number have its value. -/
theorem digitsValue_toDigits (n : Nat) :
    digitsValue ((Nat.toDigits 10 n).map fun c => c.toNat - '0'.toNat) = n := by
  rw [digitsValue, List.foldl_map]
  exact Nat.ofDigitChars_ten_toDigits

/-- Digits behind a sign, or none, are a numeral. -/
theorem isNumeral_signMark_append (text : List Char) (n : Nat) :
    IsNumeral (signMark text ++ Nat.toDigits 10 n) := by
  have hsplit := splitSign_signMark_append text (isDigit_of_mem_toDigits (n := n))
  constructor
  · rw [hsplit]
    exact Nat.toDigits_ne_nil
  · rw [hsplit]
    exact isDigit_of_mem_toDigits

/-- Digits behind a sign, or none, stand for the number with the sign. -/
theorem numeralValue_signMark_append (text : List Char) (n : Nat) :
    numeralValue (signMark text ++ Nat.toDigits 10 n) = signed (splitSign text).1 n := by
  have hsplit := splitSign_signMark_append text (isDigit_of_mem_toDigits (n := n))
  rw [numeralValue, hsplit]
  simp only [digitsValue_toDigits]

/-- A number is written as a numeral. -/
theorem isNumeral_toString (word : Int) : IsNumeral (toString word).toList := by
  cases word with
  | ofNat n =>
    have hlist := toList_toString_ofNat n
    exact hlist ▸ isNumeral_signMark_append [] n
  | negSucc n =>
    rw [toList_toString_negSucc]
    exact isNumeral_signMark_append ['-'] (n + 1)

/-- The numeral of a number has it as its value. -/
theorem numeralValue_toString (word : Int) : numeralValue (toString word).toList = word := by
  cases word with
  | ofNat n =>
    have hlist := toList_toString_ofNat n
    exact (congrArg numeralValue hlist).trans (numeralValue_signMark_append [] n)
  | negSucc n =>
    rw [toList_toString_negSucc, numeralValue_signMark_append]
    rfl

/-! ## Digits counted -/

/-- Digits make up less than the power of ten that has one digit more. -/
theorem digitsValue_lt (digits : List Nat) (h : ∀ d ∈ digits, d < 10) :
    digitsValue digits < 10 ^ digits.length := by
  induction digits using List.reverseRecOn with
  | nil => exact Nat.one_pos
  | append_singleton digits d ih =>
    have hfront := ih fun e he => h e (List.mem_append_left _ he)
    have hlast := h d (List.mem_append_right _ List.mem_cons_self)
    rw [digitsValue, List.foldl_append, ← digitsValue, List.length_append, List.length_singleton,
      Nat.pow_succ]
    simp only [List.foldl_cons, List.foldl_nil]
    omega

/-- A numeral stands for less than the power of ten that has one digit more. -/
theorem natAbs_numeralValue_lt {text : List Char} (h : IsNumeral text) :
    (numeralValue text).natAbs < 10 ^ digitCount text := by
  have hlt := digitsValue_lt ((splitSign text).2.map fun c => c.toNat - '0'.toNat) (by
    intro d hd
    obtain ⟨c, hc, rfl⟩ := List.mem_map.mp hd
    have hbounds := toNat_bounds_of_isDigit (h.isDigit_of_mem c hc)
    have hzero : '0'.toNat = 48 := rfl
    omega)
  rw [List.length_map] at hlt
  have habs : (numeralValue text).natAbs =
      digitsValue ((splitSign text).2.map fun c => c.toNat - '0'.toNat) := by
    simp only [numeralValue, signed]
    split <;> simp
  rw [habs]
  exact hlt

/-- A number is written with the digits of its magnitude. -/
theorem digitCount_toString (word : Int) :
    digitCount (toString word).toList = (Nat.toDigits 10 word.natAbs).length := by
  cases word with
  | ofNat n =>
    have hsplit := splitSign_signMark_append [] (isDigit_of_mem_toDigits (n := n))
    have hlist := toList_toString_ofNat n
    rw [digitCount]
    exact congrArg List.length ((congrArg (fun list => (splitSign list).2) hlist).trans
      (congrArg Prod.snd hsplit))
  | negSucc n =>
    have hsplit := splitSign_signMark_append ['-'] (isDigit_of_mem_toDigits (n := n + 1))
    rw [digitCount, toList_toString_negSucc, hsplit]
    rfl

/-- A number below a power of ten is written with no more digits than the power has zeros. -/
theorem digitCount_toString_le {word : Int} {digits : Nat} (hpos : 0 < digits)
    (h : word.natAbs < 10 ^ digits) : digitCount (toString word).toList ≤ digits := by
  rw [digitCount_toString]
  exact Nat.toDigits_length 10 word.natAbs digits hpos h

/-- No numeral has fewer digits than its value is written with. -/
theorem digitCount_numeralValue_le {text : List Char} (h : IsNumeral text) :
    digitCount (toString (numeralValue text)).toList ≤ digitCount text := by
  apply digitCount_toString_le
  · exact List.length_pos_iff.mpr h.digits_ne_nil
  · exact natAbs_numeralValue_lt h

/-- Ones are a numeral of as many digits. -/
theorem isNumeral_ones {n : Nat} (hpos : 0 < n) :
    IsNumeral (List.replicate n '1') ∧ digitCount (List.replicate n '1') = n := by
  have hsplit : splitSign (List.replicate n '1') = (false, List.replicate n '1') := by
    cases n with
    | zero => rfl
    | succ n => rfl
  refine ⟨⟨?_, ?_⟩, ?_⟩
  · rw [hsplit]
    exact List.ne_nil_of_length_pos (by rwa [List.length_replicate])
  · rw [hsplit]
    intro c hc
    obtain rfl := List.eq_of_mem_replicate hc
    decide
  · rw [digitCount, hsplit, List.length_replicate]

end IntegerMachine.Text
