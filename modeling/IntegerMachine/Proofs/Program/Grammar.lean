import IntegerMachine.Program.Text
import IntegerMachine.Proofs.Text.Numeral
import IntegerMachine.Proofs.Text.Tabs

/-!
# The grammar of programs

A program is a list of numerals with commas between them and blanks where one likes.  `Lists` is
that grammar, without the scanner.  The scanner takes the longest front of a text that the grammar
has (`IsLongest`), so it accepts just the texts that are a list but for blanks, and a fault is found
behind the longest list and the blanks that follow it.  A numeral of too many digits in that list is
refused before either.  `load_iff_accepts` says all three of every text.
-/

set_option autoImplicit false

namespace IntegerMachine.Program

open Text

/-! ## The grammar -/

/-- A text of blanks. -/
def IsGap (text : List Char) : Prop :=
  ∀ c ∈ text, isBlank c = true

/-- Numerals, each behind a comma. -/
inductive Continues : List (List Char) → List Char → Prop
  | nil : Continues [] []
  | cons {gap gap' numeral rest : List Char} {numerals : List (List Char)} (hgap : IsGap gap)
      (hgap' : IsGap gap') (hnumeral : IsNumeral numeral) (hrest : Continues numerals rest) :
      Continues (numeral :: numerals) (gap ++ ',' :: (gap' ++ (numeral ++ rest)))

/-- Numerals between commas, at least one. -/
inductive Lists : List (List Char) → List Char → Prop
  | intro {numeral rest : List Char} {numerals : List (List Char)} (hnumeral : IsNumeral numeral)
      (hrest : Continues numerals rest) : Lists (numeral :: numerals) (numeral ++ rest)

/-- A program text: nothing, or a list of numerals with blanks around it. -/
inductive Accepts : List (List Char) → List Char → Prop
  | nothing : Accepts [] []
  | list {numerals : List (List Char)} {gap front gap' : List Char} (hgap : IsGap gap)
      (hfront : Lists numerals front) (hgap' : IsGap gap') :
      Accepts numerals (gap ++ (front ++ gap'))

/-- The longest list at the front of a text, with its numerals; nothing if there is none. -/
structure IsLongest (numerals : List (List Char)) (text front : List Char) : Prop where
  isFront : front <+: text
  isList : numerals = [] ∧ front = [] ∨ Lists numerals front
  length_le : ∀ others other, Lists others other → other <+: text → other.length ≤ front.length

/-- A list is not empty, as its first numeral is not. -/
theorem Lists.ne_nil {numerals : List (List Char)} {front : List Char} (h : Lists numerals front) :
    front ≠ [] := by
  obtain ⟨hnumeral, -⟩ := h
  exact List.append_ne_nil_of_left_ne_nil hnumeral.ne_nil _

/-! ## Where a list goes on -/

/-- Behind a numeral that a list goes on from, no digit follows. -/
theorem Continues.head {numerals : List (List Char)} {front rest : List Char}
    (h : Continues numerals front) (hrest : ∀ c ∈ rest.head?, c.isDigit = false) :
    ∀ c ∈ (front ++ rest).head?, c.isDigit = false := by
  cases h with
  | nil => exact hrest
  | @cons gap gap' numeral tail numerals hgap _ _ _ =>
    intro c hc
    cases gap with
    | nil =>
      obtain rfl : ',' = c := Option.some.inj hc
      rfl
    | cons d gap =>
      obtain rfl : d = c := Option.some.inj hc
      exact isDigit_of_isBlank (hgap d List.mem_cons_self)

/-- The scanner takes the numeral behind a comma and blanks. -/
theorem nextNumeral?_append {gap gap' numeral rest : List Char} (hgap : IsGap gap)
    (hgap' : IsGap gap') (hnumeral : IsNumeral numeral)
    (hrest : ∀ c ∈ rest.head?, c.isDigit = false) :
    nextNumeral? (gap ++ ',' :: (gap' ++ (numeral ++ rest))) = some (numeral, rest) := by
  have hcomma : skipBlanks (gap ++ ',' :: (gap' ++ (numeral ++ rest))) =
      ',' :: (gap' ++ (numeral ++ rest)) := by
    apply skipBlanks_append hgap
    rintro c ⟨⟩
    rfl
  have hskip : skipBlanks (gap' ++ (numeral ++ rest)) = numeral ++ rest :=
    skipBlanks_append hgap' (hnumeral.isBlank_head rest)
  unfold nextNumeral?
  simp only [hcomma, hskip, scanNumeral_append hnumeral hrest]

/-- The scanner goes on behind a numeral that follows. -/
theorem scanMore_of_some {text numeral rest : List Char} (numerals : Array (List Char))
    (h : nextNumeral? text = some (numeral, rest)) :
    scanMore text numerals = scanMore rest (numerals.push numeral) := by
  rw [scanMore]
  split
  · rename_i numeral' rest' h'
    obtain ⟨rfl, rfl⟩ := Prod.mk.inj (Option.some.inj (h.symm.trans h'))
    rfl
  · rename_i h'
    exact absurd (h.symm.trans h') (by simp)

/-- The scanner stops where no numeral follows. -/
theorem scanMore_of_none {text : List Char} (numerals : Array (List Char))
    (h : nextNumeral? text = none) : scanMore text numerals = (numerals, text) := by
  rw [scanMore]
  split
  · rename_i numeral' rest' h'
    exact absurd (h.symm.trans h') (by simp)
  · rfl

/-- The scanner goes along a list to its end. -/
theorem scanMore_append {numerals : List (List Char)} {front : List Char}
    (h : Continues numerals front) {rest : List Char} (hrest : ∀ c ∈ rest.head?, c.isDigit = false)
    (met : Array (List Char)) :
    scanMore (front ++ rest) met = scanMore rest (met ++ numerals.toArray) := by
  induction h generalizing met with
  | nil => simp
  | @cons gap gap' numeral tail numerals hgap hgap' hnumeral htail ih =>
    have hnext := nextNumeral?_append hgap hgap' hnumeral (htail.head hrest)
    rw [List.append_assoc, List.cons_append, List.append_assoc, List.append_assoc,
      scanMore_of_some met hnext, ih]
    simp

/-- A list at the front of a text is scanned first. -/
theorem scan_append {numerals : List (List Char)} {front : List Char} (h : Lists numerals front)
    {rest : List Char} (hrest : ∀ c ∈ rest.head?, c.isDigit = false) :
    scan (front ++ rest) = scanMore rest numerals.toArray := by
  obtain ⟨hnumeral, htail⟩ := h
  rename_i numeral tail numerals
  have hskip : skipBlanks (numeral ++ (tail ++ rest)) = numeral ++ (tail ++ rest) :=
    skipBlanks_of_head (hnumeral.isBlank_head _)
  unfold scan
  rw [List.append_assoc, hskip, scanNumeral_append hnumeral (htail.head hrest)]
  simp only [scanMore_append htail hrest]
  simp

/-- A text is a list of numerals in one way at most. -/
theorem Lists.numerals_eq {first second : List (List Char)} {front : List Char}
    (hfirst : Lists first front) (hsecond : Lists second front) : first = second := by
  have hend : ∀ c ∈ ([] : List Char).head?, c.isDigit = false := by simp
  have hnone : nextNumeral? [] = none := rfl
  have hscan := (scan_append hfirst hend).symm.trans (scan_append hsecond hend)
  rw [scanMore_of_none _ hnone, scanMore_of_none _ hnone] at hscan
  exact congrArg Array.toList (Prod.mk.inj hscan).1

/-! ## What is scanned is a list -/

/-- Where a numeral follows, a comma stands before it. -/
theorem exists_of_nextNumeral? {text numeral rest : List Char}
    (h : nextNumeral? text = some (numeral, rest)) :
    ∃ gap gap', IsGap gap ∧ IsGap gap' ∧ IsNumeral numeral ∧
      text = gap ++ ',' :: (gap' ++ (numeral ++ rest)) := by
  unfold nextNumeral? at h
  split at h
  · rename_i tail hcomma
    obtain ⟨gap, hgap, htext⟩ := exists_gap text
    obtain ⟨gap', hgap', htail⟩ := exists_gap tail
    rw [eq_append_of_scanNumeral h] at htail
    rw [hcomma, htail] at htext
    exact ⟨gap, gap', hgap, hgap', isNumeral_of_scanNumeral h, htext⟩
  · exact absurd h (by simp)

/-- What is scanned behind a numeral goes on from it. -/
theorem continues_scanMore (text : List Char) (met : Array (List Char)) :
    ∃ numerals front, Continues numerals front ∧ text = front ++ (scanMore text met).2 ∧
      (scanMore text met).1 = met ++ numerals.toArray := by
  fun_induction scanMore text met with
  | case1 text met numeral rest h _ ih =>
    obtain ⟨gap, gap', hgap, hgap', hnumeral, htext⟩ := exists_of_nextNumeral? h
    obtain ⟨numerals, front, hfront, hrest, hmet⟩ := ih
    refine ⟨_, _, .cons hgap hgap' hnumeral hfront, ?_, ?_⟩
    · rw [htext, List.append_assoc, List.cons_append, List.append_assoc, List.append_assoc, ← hrest]
    · rw [hmet]
      simp
  | case2 text met h => exact ⟨[], [], .nil, rfl, by simp⟩

/-- What is scanned is a list, or nothing. -/
theorem lists_scan {text : List Char} (htext : ∀ c ∈ text.head?, isBlank c = false) :
    ∃ numerals front, (numerals = [] ∧ front = [] ∨ Lists numerals front) ∧
      text = front ++ (scan text).2 ∧ (scan text).1 = numerals.toArray := by
  unfold scan
  rw [skipBlanks_of_head htext]
  cases hscan : scanNumeral text with
  | none => exact ⟨[], [], .inl ⟨rfl, rfl⟩, rfl, rfl⟩
  | some pair =>
    obtain ⟨numeral, rest⟩ := pair
    obtain ⟨numerals, front, hfront, hrest, hmet⟩ := continues_scanMore rest #[numeral]
    refine ⟨_, _, .inr (.intro (isNumeral_of_scanNumeral hscan) hfront), ?_, ?_⟩
    · rw [List.append_assoc, ← hrest]
      exact eq_append_of_scanNumeral hscan
    · rw [hmet]
      simp

/-! ## What is scanned is longest -/

/-- Further digits make the last numeral longer. -/
theorem Continues.append_digits {numerals : List (List Char)} {front digits : List Char}
    (h : Continues numerals front) (hne : front ≠ []) (hdigits : ∀ c ∈ digits, c.isDigit = true) :
    ∃ numerals', Continues numerals' (front ++ digits) := by
  induction h with
  | nil => exact absurd rfl hne
  | @cons gap gap' numeral rest numerals hgap hgap' hnumeral hrest ih =>
    by_cases hend : rest = []
    · subst hend
      have hlonger := Continues.cons hgap hgap' (hnumeral.append_digits hdigits) .nil
      exact ⟨_, by simpa using hlonger⟩
    · obtain ⟨numerals', hlonger⟩ := ih hend
      exact ⟨_, by simpa using Continues.cons hgap hgap' hnumeral hlonger⟩

/-- A list goes on through the digits that follow it. -/
theorem Lists.append_digits {numerals : List (List Char)} {front digits : List Char}
    (h : Lists numerals front) (hdigits : ∀ c ∈ digits, c.isDigit = true) :
    ∃ numerals', Lists numerals' (front ++ digits) := by
  obtain ⟨hnumeral, hrest⟩ := h
  rename_i numeral rest numerals
  by_cases hend : rest = []
  · subst hend
    have hlonger := Lists.intro (hnumeral.append_digits hdigits) .nil
    exact ⟨_, by simpa using hlonger⟩
  · obtain ⟨numerals', hlonger⟩ := hrest.append_digits hend hdigits
    exact ⟨_, by simpa using Lists.intro hnumeral hlonger⟩

/-- What is left behind further numerals is no longer than the text. -/
theorem length_scanMore_le (text : List Char) (met : Array (List Char)) :
    (scanMore text met).2.length ≤ text.length := by
  obtain ⟨_, front, -, htext, -⟩ := continues_scanMore text met
  have hlength := congrArg List.length htext
  rw [List.length_append] at hlength
  omega

/-- No list at the front of a text leaves less than the scanner does. -/
theorem length_scan_le {numerals : List (List Char)} {front : List Char} (h : Lists numerals front)
    (rest : List Char) : (scan (front ++ rest)).2.length ≤ rest.length := by
  -- the scanner takes the digits behind the list as well
  obtain ⟨numerals', hlonger⟩ := h.append_digits (all_isDigit_takeWhile rest)
  have hscan := scan_append hlonger (head_dropWhile Char.isDigit rest)
  rw [List.append_assoc, List.takeWhile_append_dropWhile] at hscan
  rw [hscan]
  exact Nat.le_trans (length_scanMore_le _ _) (List.dropWhile_sublist _).length_le

/-- What is scanned is the longest list at the front, once it is a list. -/
theorem isLongest_scan {numerals : List (List Char)} {text front : List Char}
    (hfront : text = front ++ (scan text).2)
    (hlist : numerals = [] ∧ front = [] ∨ Lists numerals front) :
    IsLongest numerals text front where
  isFront := ⟨_, hfront.symm⟩
  isList := hlist
  length_le := by
    rintro others other hother ⟨rest, rfl⟩
    have hle := length_scan_le hother rest
    have hlength := congrArg List.length hfront
    rw [List.length_append, List.length_append] at hlength
    omega

/-- No list of a text is longer than the longest. -/
theorem IsLongest.length_le_of_isLongest {numerals others : List (List Char)}
    {text front other : List Char} (h : IsLongest numerals text front)
    (hother : IsLongest others text other) : other.length ≤ front.length := by
  rcases hother.isList with ⟨-, rfl⟩ | hlist
  · exact Nat.zero_le _
  · exact h.length_le others other hlist hother.isFront

/-- The numerals of the longest list are determined. -/
theorem IsLongest.numerals_eq {numerals others : List (List Char)} {text front other : List Char}
    (h : IsLongest numerals text front) (hother : IsLongest others text other) :
    numerals = others := by
  have hlength : front.length = other.length :=
    Nat.le_antisymm (hother.length_le_of_isLongest h) (h.length_le_of_isLongest hother)
  obtain rfl : front = other :=
    (List.prefix_of_prefix_length_le h.isFront hother.isFront hlength.le).eq_of_length hlength
  rcases h.isList with ⟨rfl, hnil⟩ | hlist
  · rcases hother.isList with ⟨rfl, -⟩ | hlist'
    · rfl
    · exact absurd hnil hlist'.ne_nil
  · rcases hother.isList with ⟨-, hnil⟩ | hlist'
    · exact absurd hnil hlist.ne_nil
    · exact hlist.numerals_eq hlist'

/-! ## What is loaded -/

/-- The place between two parts of a text, by its column and its line. -/
inductive Locates : List Char → List Char → Malformed → Prop
  | intro {above begun ahead below : List Char} (habove : ∀ c ∈ above.getLast?, c = '\n')
      (hbegun : '\n' ∉ begun) (hahead : '\n' ∉ ahead) (hbelow : ∀ c ∈ below.head?, c = '\n') :
      Locates (above ++ begun) (ahead ++ below) ⟨begun.length + 1, begun ++ ahead⟩

/-- A line holds no line feed. -/
theorem newline_notMem_takeWhile (text : List Char) : '\n' ∉ text.takeWhile (· != '\n') := by
  intro hmem
  exact absurd (List.all_eq_true.mp List.all_takeWhile _ hmem) (by decide)

/-- Below a line begins the next one, or nothing. -/
theorem head_below (text : List Char) :
    ∀ c ∈ (text.dropWhile (· != '\n')).head?, c = '\n' := by
  intro c hc
  simpa using head_dropWhile (· != '\n') text c hc

/-- The position of what is left counts the lines and columns before it. -/
theorem locates_at (before left : List Char) : Locates before left (.at before left) := by
  have hbefore : (before.reverse.dropWhile (· != '\n')).reverse ++
      (before.reverse.takeWhile (· != '\n')).reverse = before := by
    rw [← List.reverse_append, List.takeWhile_append_dropWhile, List.reverse_reverse]
  have hlocates : Locates
      ((before.reverse.dropWhile (· != '\n')).reverse ++
        (before.reverse.takeWhile (· != '\n')).reverse)
      (left.takeWhile (· != '\n') ++ left.dropWhile (· != '\n')) (.at before left) := by
    apply Locates.intro
    · rw [List.getLast?_reverse]
      exact head_below before.reverse
    · rw [List.mem_reverse]
      exact newline_notMem_takeWhile before.reverse
    · exact newline_notMem_takeWhile left
    · exact head_below left
  rwa [hbefore, List.takeWhile_append_dropWhile] at hlocates

/-- A text that is stripped begins with no blank, also where its tabs are expanded. -/
theorem head_plain (text : List Char) :
    ∀ c ∈ (expandTabs (strip text)).head?, isBlank c = false := by
  have hstrip := head_strip text
  have htabs := detabs_expandTabs (strip text)
  intro c hc
  generalize strip text = stripped at hstrip htabs hc
  generalize expandTabs stripped = plain at htabs hc
  have htab : isSpace '\t' = true := by decide
  cases htabs with
  | nil => exact absurd hc (by simp)
  | last _ | more _ => exact absurd (hstrip '\t' rfl) (by simp [htab])
  | @keep d _ _ _ _ =>
    obtain rfl : d = c := Option.some.inj hc
    have hspace := hstrip d rfl
    cases hblank : isBlank d with
    | false => rfl
    | true => rwa [isSpace_of_isBlank hblank] at hspace

/-- Where no blank follows there is no gap. -/
theorem eq_nil_of_isGap {gap rest : List Char} (hgap : IsGap gap)
    (h : ∀ c ∈ (gap ++ rest).head?, isBlank c = false) : gap = [] := by
  cases gap with
  | nil => rfl
  | cons c gap =>
    have hblank := hgap c List.mem_cons_self
    rw [h c rfl] at hblank
    exact absurd hblank (by decide)

/-- No numeral has too many digits to be read. -/
def AllFit (numerals : List (List Char)) : Prop :=
  ∀ numeral ∈ numerals, digitCount numeral ≤ digitLimit

/-- The digits of the first numeral that has too many. -/
def firstOverlong? (numerals : List (List Char)) : Option Nat :=
  (numerals.map digitCount).find? fun digits => digitLimit < digits

/-- All numerals fit if none is the first that does not. -/
theorem firstOverlong?_eq_none_iff {numerals : List (List Char)} :
    firstOverlong? numerals = none ↔ AllFit numerals := by
  simp [firstOverlong?, AllFit]

/-- Numerals are read up to the first that has too many digits. -/
theorem mapM_readNumeral (numerals : List (List Char)) :
    numerals.mapM readNumeral =
      match firstOverlong? numerals with
      | some digits => .error (.overlong digits)
      | none => .ok (numerals.map numeralValue) := by
  induction numerals with
  | nil => rfl
  | cons numeral rest ih =>
    rw [List.mapM_cons, ih, readNumeral]
    by_cases hfew : digitCount numeral ≤ digitLimit
    · have hfirst : firstOverlong? (numeral :: rest) = firstOverlong? rest :=
        List.find?_cons_of_neg (by simpa using hfew)
      rw [if_pos hfew, hfirst]
      cases firstOverlong? rest <;> rfl
    · have hfirst : firstOverlong? (numeral :: rest) = some (digitCount numeral) :=
        List.find?_cons_of_pos (by simpa using hfew)
      rw [if_neg hfew, hfirst]
      rfl

/-- A text that begins with no blank is its longest list, the blanks that follow, and what is left.
The numerals of the list are read first, and the fault is at what is left. -/
theorem parsePlain_eq {text : List Char} (htext : ∀ c ∈ text.head?, isBlank c = false) :
    ∃ numerals front gap left, text = front ++ (gap ++ left) ∧ IsLongest numerals text front ∧
      IsGap gap ∧ (∀ c ∈ left.head?, isBlank c = false) ∧
      parsePlain text = numerals.mapM readNumeral >>= fun words =>
        if left = [] then .ok words else .error (.malformed (.at (front ++ gap) left)) := by
  obtain ⟨numerals, front, hlist, hfront, hnumerals⟩ := lists_scan htext
  obtain ⟨gap, hgap, hrest⟩ := exists_gap (scan text).2
  refine ⟨numerals, front, gap, skipBlanks (scan text).2, by rw [← hrest, ← hfront],
    isLongest_scan hfront hlist, hgap, head_skipBlanks _, ?_⟩
  have htake : text.take (text.length - (skipBlanks (scan text).2).length) = front ++ gap := by
    have hsplit : text = (front ++ gap) ++ skipBlanks (scan text).2 := by
      rw [List.append_assoc, ← hrest, ← hfront]
    generalize skipBlanks (scan text).2 = left at hsplit ⊢
    rw [hsplit, List.length_append, Nat.add_sub_cancel, List.take_left]
  unfold parsePlain
  simp only [hnumerals, List.toList_toArray]
  congr 1
  funext words
  cases hskip : skipBlanks (scan text).2 with
  | nil => rfl
  | cons c tail =>
    rw [hskip] at htake
    simp only [htake]
    rfl

/-- A text that is a list is read as its numerals are. -/
theorem parsePlain_of_accepts {text : List Char} (htext : ∀ c ∈ text.head?, isBlank c = false)
    {numerals : List (List Char)} (h : Accepts numerals text) :
    parsePlain text = numerals.mapM readNumeral := by
  cases h with
  | nothing => rfl
  | @list _ gap front gap' hgap hfront hgap' =>
    obtain rfl := eq_nil_of_isGap hgap htext
    have hnil : ∀ c ∈ ([] : List Char).head?, isBlank c = false := by simp
    have hend := skipBlanks_append hgap' hnil
    rw [List.append_nil] at hend
    have hdigit : ∀ c ∈ gap'.head?, c.isDigit = false := by
      intro c hc
      exact isDigit_of_isBlank (hgap' c (List.mem_of_mem_head? hc))
    have hnone : nextNumeral? gap' = none := by
      unfold nextNumeral?
      rw [hend]
    have hscan : scan (front ++ gap') = (numerals.toArray, gap') := by
      rw [scan_append hfront hdigit, scanMore_of_none _ hnone]
    unfold parsePlain
    simp only [List.nil_append, hscan, hend]
    exact bind_pure _

/-- A text of which nothing is left behind its longest list is that list. -/
theorem accepts_of_isLongest {text front gap : List Char} {numerals : List (List Char)}
    (htext : ∀ c ∈ text.head?, isBlank c = false) (hsplit : text = front ++ gap)
    (hlongest : IsLongest numerals text front) (hgap : IsGap gap) : Accepts numerals text := by
  rcases hlongest.isList with ⟨rfl, rfl⟩ | hlist
  · -- blanks without a list cannot stand in front
    rw [hsplit, List.nil_append, ← List.append_nil gap] at htext
    obtain rfl := eq_nil_of_isGap hgap htext
    rw [hsplit]
    exact .nothing
  · rw [hsplit]
    exact .list (List.forall_mem_nil _) hlist hgap

/-- A program is loaded as its text is parsed, with zeros behind it. -/
theorem result_load (text : String) (padding : Int) :
    (load text padding).result =
      (parse text).map fun words => words ++ List.replicate padding.toNat 0 := by
  unfold load
  cases parse text <;> rfl

/-- A list is loaded as the values of its numerals and the zeros behind them, unless a numeral has
too many digits. -/
theorem result_load_of_accepts {text : String} {numerals : List (List Char)}
    (h : Accepts numerals (expandTabs (strip text.toList))) (padding : Int) :
    (load text padding).result =
      match firstOverlong? numerals with
      | some digits => .error (.overlong digits)
      | none => .ok (numerals.map numeralValue ++ List.replicate padding.toNat 0) := by
  rw [result_load, parse, parsePlain_of_accepts (head_plain _) h, mapM_readNumeral]
  cases firstOverlong? numerals <;> rfl

/-- The result of loading any text, by what is at its front and what is left of it. -/
theorem result_load_eq (text : String) (padding : Int) :
    ∃ numerals front gap left, expandTabs (strip text.toList) = front ++ (gap ++ left) ∧
      IsLongest numerals (expandTabs (strip text.toList)) front ∧ IsGap gap ∧
      (∀ c ∈ left.head?, isBlank c = false) ∧
      (load text padding).result =
        match firstOverlong? numerals, left with
        | some digits, _ => .error (.overlong digits)
        | none, [] => .ok (numerals.map numeralValue ++ List.replicate padding.toNat 0)
        | none, _ => .error (.malformed (.at (front ++ gap) left)) := by
  obtain ⟨numerals, front, gap, left, hsplit, hlongest, hgap, hleft, hparse⟩ :=
    parsePlain_eq (head_plain text.toList)
  refine ⟨numerals, front, gap, left, hsplit, hlongest, hgap, hleft, ?_⟩
  rw [result_load, parse, hparse, mapM_readNumeral]
  cases firstOverlong? numerals <;> cases left <;> rfl

/-- A text is loaded just if it is a list, or nothing, and no numeral has too many digits. -/
theorem result_load_eq_ok_iff {text : String} {padding : Int} {words : List Int} :
    (load text padding).result = .ok words ↔
      ∃ numerals, Accepts numerals (expandTabs (strip text.toList)) ∧ AllFit numerals ∧
        words = numerals.map numeralValue ++ List.replicate padding.toNat 0 := by
  constructor
  · intro h
    obtain ⟨numerals, front, gap, left, hsplit, hlongest, hgap, -, hload⟩ :=
      result_load_eq text padding
    rw [hload] at h
    cases hfirst : firstOverlong? numerals with
    | some digits =>
      rw [hfirst] at h
      exact absurd h (by simp)
    | none =>
      rw [hfirst] at h
      cases left with
      | nil =>
        rw [List.append_nil] at hsplit
        exact ⟨numerals, accepts_of_isLongest (head_plain _) hsplit hlongest hgap,
          firstOverlong?_eq_none_iff.mp hfirst, (Except.ok.inj h).symm⟩
      | cons c tail => exact absurd h (by simp)
  · rintro ⟨numerals, haccepts, hfit, rfl⟩
    rw [result_load_of_accepts haccepts, firstOverlong?_eq_none_iff.mpr hfit]

/-- A program text is accepted just if it is a list of numerals, or nothing, and no numeral has too
many digits; it gives their values and the zeros behind them.  A numeral of too many digits is
refused if it is the first such in the longest list at the front of the text.  Any other fault is
at the first place behind that list and the blanks that follow it. -/
theorem load_iff_accepts (text : String) (padding : Int) :
    (∀ words, (load text padding).result = .ok words ↔
      ∃ numerals, Accepts numerals (expandTabs (strip text.toList)) ∧ AllFit numerals ∧
        words = numerals.map numeralValue ++ List.replicate padding.toNat 0) ∧
    (∀ digits, (load text padding).result = .error (.overlong digits) ↔
      ∃ numerals front, IsLongest numerals (expandTabs (strip text.toList)) front ∧
        firstOverlong? numerals = some digits) ∧
    ((∀ numerals, ¬ Accepts numerals (expandTabs (strip text.toList))) →
      ∃ numerals front gap left fault, expandTabs (strip text.toList) = front ++ (gap ++ left) ∧
        IsLongest numerals (expandTabs (strip text.toList)) front ∧ IsGap gap ∧
        (∃ c tail, left = c :: tail ∧ isBlank c = false) ∧ Locates (front ++ gap) left fault ∧
        (AllFit numerals → (load text padding).result = .error (.malformed fault))) := by
  obtain ⟨numerals, front, gap, left, hsplit, hlongest, hgap, hleft, hload⟩ :=
    result_load_eq text padding
  refine ⟨fun words => result_load_eq_ok_iff, ?_, ?_⟩
  · intro digits
    constructor
    · intro h
      refine ⟨numerals, front, hlongest, ?_⟩
      rw [hload] at h
      cases hfirst : firstOverlong? numerals with
      | some found =>
        rw [hfirst] at h
        simpa using h
      | none =>
        rw [hfirst] at h
        cases left <;> exact absurd h (by simp)
    · rintro ⟨others, other, hother, hfirst⟩
      rw [hother.numerals_eq hlongest] at hfirst
      rw [hload, hfirst]
  · intro hnot
    cases left with
    | nil =>
      rw [List.append_nil] at hsplit
      exact absurd (accepts_of_isLongest (head_plain _) hsplit hlongest hgap) (hnot numerals)
    | cons c tail =>
      refine ⟨numerals, front, gap, c :: tail, _, hsplit, hlongest, hgap,
        ⟨c, tail, rfl, hleft c rfl⟩, locates_at _ _, ?_⟩
      intro hfit
      rw [hload, firstOverlong?_eq_none_iff.mpr hfit]

/-- A letter behind the second number, in the second line. -/
theorem load_iff_accepts_second_line :
    let plain : List Char := ['1', ',', '\n', '-', '2', ' ', 'x']
    expandTabs (strip " 1,\n-2 x".toList) = plain ∧ (∀ numerals, ¬ Accepts numerals plain) ∧
      ∃ numerals front gap left, plain = front ++ (gap ++ left) ∧ IsLongest numerals plain front ∧
        IsGap gap ∧ Locates (front ++ gap) left ⟨4, ['-', '2', ' ', 'x']⟩ ∧
        (load " 1,\n-2 x" 3).result = .error (.malformed ⟨4, ['-', '2', ' ', 'x']⟩) := by
  intro plain
  have hplain : expandTabs (strip " 1,\n-2 x".toList) = plain := by decide
  have hnumeral : nextNumeral? [',', '\n', '-', '2', ' ', 'x'] = some (['-', '2'], [' ', 'x']) := by
    decide
  have hnone : nextNumeral? [' ', 'x'] = none := by decide
  have hscan : scan plain = (#[['1'], ['-', '2']], [' ', 'x']) := by
    show scanMore [',', '\n', '-', '2', ' ', 'x'] #[['1']] = _
    rw [scanMore_of_some _ hnumeral, scanMore_of_none _ hnone]
    rfl
  have hresult : (load " 1,\n-2 x" 3).result =
      .error (.malformed ⟨4, ['-', '2', ' ', 'x']⟩) := by
    rw [result_load, parse, hplain, parsePlain, hscan]
    rfl
  obtain ⟨hwords, hoverlong, hfault⟩ := load_iff_accepts " 1,\n-2 x" 3
  rw [hplain] at hwords hoverlong hfault
  have hfit : ∀ numerals front, IsLongest numerals plain front → AllFit numerals := by
    intro numerals front hlongest
    rw [← firstOverlong?_eq_none_iff, Option.eq_none_iff_forall_ne_some]
    intro digits hfirst
    have hrefused := (hoverlong digits).mpr ⟨numerals, front, hlongest, hfirst⟩
    rw [hresult] at hrefused
    exact absurd hrefused (by simp)
  have hnot : ∀ numerals, ¬ Accepts numerals plain := by
    intro numerals haccepts
    have hload := result_load_of_accepts (hplain ▸ haccepts) 3
    rw [hresult] at hload
    cases hfirst : firstOverlong? numerals <;> exact absurd (hfirst ▸ hload) (by simp)
  obtain ⟨numerals, front, gap, left, fault, hsplit, hlongest, hgap, -, hlocates, herror⟩ :=
    hfault hnot
  have hsame := hresult.symm.trans (herror (hfit numerals front hlongest))
  obtain rfl := Refusal.malformed.inj (Except.error.inj hsame)
  exact ⟨hplain, hnot, numerals, front, gap, left, hsplit, hlongest, hgap, hlocates, hresult⟩

/-- A numeral of too many digits is a list of one, and is refused. -/
theorem result_load_of_overlong {numeral : List Char} (h : IsNumeral numeral)
    (hmany : digitLimit < digitCount numeral) (padding : Int) :
    Accepts [numeral] (expandTabs (strip (String.ofList numeral).toList)) ∧
      (load (String.ofList numeral) padding).result =
        .error (.overlong (digitCount numeral)) := by
  have hspace := isSpace_of_mem_numeral h
  have htab : '\t' ∉ numeral := by
    intro hmem
    exact absurd (hspace _ hmem) (by decide)
  have hplain : expandTabs (strip (String.ofList numeral).toList) = numeral := by
    have hstrip := strip_append hspace (List.forall_mem_nil (fun c => isSpace c = true))
    rw [List.append_nil] at hstrip
    rw [String.toList_ofList, hstrip]
    exact (detabs_expandTabs _).eq_of_not_mem_tab htab
  have haccepts : Accepts [numeral] (expandTabs (strip (String.ofList numeral).toList)) := by
    have hlist := Accepts.list (List.forall_mem_nil _) (.intro h .nil) (List.forall_mem_nil _)
    rw [hplain]
    simpa using hlist
  refine ⟨haccepts, ?_⟩
  have hfirst : firstOverlong? [numeral] = some (digitCount numeral) :=
    List.find?_cons_of_pos (by simpa using hmany)
  rw [result_load_of_accepts haccepts, hfirst]

/-- One digit more than may be read is a list of one numeral, and yet it is neither loaded nor said
to be malformed. -/
theorem not_load_of_accepts_overlong :
    let text := String.ofList (List.replicate 4301 '1')
    (∃ numerals, Accepts numerals (expandTabs (strip text.toList))) ∧
      (∀ words, (load text 0).result ≠ .ok words) ∧
      ∀ fault, (load text 0).result ≠ .error (.malformed fault) := by
  intro text
  obtain ⟨hnumeral, hcount⟩ := isNumeral_ones (n := 4301) (by decide)
  have hmany : digitLimit < digitCount (List.replicate 4301 '1') := by
    rw [hcount]
    decide
  obtain ⟨haccepts, hrefused⟩ := result_load_of_overlong hnumeral hmany 0
  refine ⟨⟨_, haccepts⟩, ?_, ?_⟩
  · intro words h
    exact nomatch hrefused.symm.trans h
  · intro fault h
    exact nomatch hrefused.symm.trans h

end IntegerMachine.Program
