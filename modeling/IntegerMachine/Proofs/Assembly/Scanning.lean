import IntegerMachine.Proofs.Assembly.Rendering
import IntegerMachine.Proofs.Assembly.Written

/-!
# Scanning tokens

A scanner takes what was written and stops where it ends: in front of a token of the right form,
behind which a blank or a comment stands, it takes just this token.  The other way round, what a
scanner takes is a token of the right form.  From single tokens this goes on to operands and to
the values of data, which are read for as long as there are any.
-/

set_option autoImplicit false

namespace IntegerMachine.Assembly

open Text

/-! ## Where tokens end -/

/-- No token goes on here: there is a blank, a comment or nothing. -/
def Ends (text : List Char) : Prop :=
  ∀ c ∈ text.head?, isBlank c = true ∨ c = '/'

/-- Where a token ends, no character goes on that neither a blank nor a slash can be. -/
theorem Ends.head {text : List Char} (h : Ends text) {p : Char → Bool}
    (hp : ('/' :: blanks).any p = false) : ∀ c ∈ text.head?, p c = false := by
  intro c hc
  apply eq_false_of_ne_true
  apply List.any_eq_false.mp hp
  rcases h c hc with hblank | rfl
  · exact List.mem_cons_of_mem _ (mem_blanks_of_isBlank hblank)
  · exact List.mem_cons_self

/-- A token ends at a gap. -/
theorem ends_append {gap : List Char} (hblank : ∀ c ∈ gap, isBlank c = true) (hne : gap ≠ [])
    (text : List Char) : Ends (gap ++ text) := by
  intro c hc
  obtain ⟨d, gap, rfl⟩ := List.exists_cons_of_ne_nil hne
  obtain rfl : d = c := Option.some.inj hc
  exact .inl (hblank d List.mem_cons_self)

/-! ## Names -/

/-- A word is one for a larger class of characters too. -/
theorem IsWord.mono {start part part' : Char → Bool} {text : List Char}
    (h : IsWord start part text) (hpart : ∀ c, part c = true → part' c = true) :
    IsWord start part' text := by
  cases text with
  | nil => exact h
  | cons c rest =>
    refine ⟨h.1, List.all_eq_true.mpr ?_⟩
    intro d hd
    exact hpart d (List.all_eq_true.mp h.2 d hd)

/-- A name can be that of a scope. -/
theorem isScope_of_isName {name : List Char} (h : IsName name) : IsScope name :=
  h.mono fun c hc => by rw [isScopePart, hc, Bool.true_or]

/-- A word is taken from the front of a text as far as it goes. -/
theorem scanWord?_append {start part : Char → Bool} {word rest : List Char}
    (h : IsWord start part word) (hrest : ∀ c ∈ rest.head?, part c = false) :
    scanWord? start part (word ++ rest) = some (word, rest) := by
  cases word with
  | nil => exact h.elim
  | cons c word =>
    have hpart := List.all_eq_true.mp h.2
    rw [List.cons_append, scanWord?, if_pos h.1, takeWhile_append_of_head hpart hrest,
      dropWhile_append_of_head hpart hrest]

/-- What is taken as a word is one. -/
theorem isWord_of_scanWord? {start part : Char → Bool} {text word rest : List Char}
    (h : scanWord? start part text = some (word, rest)) : IsWord start part word := by
  cases text with
  | nil => exact absurd h (by simp [scanWord?])
  | cons c text =>
    rw [scanWord?] at h
    split at h
    · rename_i hstart
      obtain ⟨rfl, -⟩ := Prod.mk.inj (Option.some.inj h)
      exact ⟨hstart, List.all_takeWhile⟩
    · exact absurd h (by simp)

/-! ## Values -/

/-- The first character of a value. -/
def isValueStart (c : Char) : Bool :=
  c == '&' || c == '-' || c == '+' || c.isDigit

/-- A value begins with a character that can begin one. -/
theorem IsProperValue.head {value : List Char} (h : IsProperValue value) (rest : List Char) :
    ∃ c tail, value ++ rest = c :: tail ∧ isValueStart c = true := by
  cases h with
  | numeral h =>
    obtain ⟨c, tail, rfl⟩ := List.exists_cons_of_ne_nil (isInk_of_isNumeral h).ne_nil
    refine ⟨c, tail ++ rest, rfl, ?_⟩
    by_cases hsign : c = '-' ∨ c = '+'
    · rcases hsign with rfl | rfl <;> decide
    · rw [not_or] at hsign
      have hsplit : (splitSign (c :: tail)).2 = c :: tail := by
        simp [splitSign, hsign.1, hsign.2]
      have hdigit := h.isDigit_of_mem c (by rw [hsplit]; exact List.mem_cons_self)
      simp [isValueStart, hdigit]
  | name _ => exact ⟨'&', _, rfl, rfl⟩
  | qualified _ _ => exact ⟨'&', _, rfl, rfl⟩

/-- A reference is no numeral. -/
theorem scanNumeral_ampersand (text : List Char) : scanNumeral ('&' :: text) = none := by
  rfl

/-- A name without a scope, where no token goes on. -/
theorem scanScope_name {name rest : List Char} (h : IsName name) (hrest : Ends rest) :
    scanScope (name ++ rest) = ([], name ++ rest) := by
  have hafter : after? separator rest = none := by
    cases rest with
    | nil => rfl
    | cons c rest =>
      have hcolon : c ≠ ':' := by
        rintro rfl
        exact absurd (hrest ':' rfl) (by decide)
      simp [separator, after?, hcolon.symm]
  rw [scanScope, scanWord?_append (isScope_of_isName h) (hrest.head rfl)]
  simp only [hafter]

/-- The name of a scope is taken together with the separator behind it. -/
theorem scanScope_qualified {scope : List Char} (h : IsScope scope) (rest : List Char) :
    scanScope (scope ++ (separator ++ rest)) = (scope ++ separator, rest) := by
  have hstop : ∀ c ∈ (separator ++ rest).head?, isScopePart c = false := by
    intro c hc
    obtain rfl : ':' = c := Option.some.inj hc
    decide
  have hafter : after? separator (separator ++ rest) = some rest := by
    simp [separator, after?]
  rw [scanScope, scanWord?_append h hstop]
  simp only [hafter]

/-- The scanner takes a whole value. -/
theorem scanValue?_append {value rest : List Char} (h : IsProperValue value)
    (hrest : Ends rest) : scanValue? (value ++ rest) = some (value, rest) := by
  cases h with
  | numeral h =>
    rw [scanValue?, scanNumeral_append h (hrest.head rfl), Option.some_or]
  | @name name h =>
    have hscan : scanName? (name ++ rest) = some (name, rest) :=
      scanWord?_append h (hrest.head rfl)
    rw [scanValue?, List.cons_append, scanNumeral_ampersand, Option.none_or, scanReference?,
      scanScope_name h hrest]
    simp only [hscan, Option.map_some, List.nil_append]
  | @qualified scope name hscope hname =>
    have hscan : scanName? (name ++ rest) = some (name, rest) :=
      scanWord?_append hname (hrest.head rfl)
    rw [scanValue?, List.cons_append, scanNumeral_ampersand, Option.none_or, scanReference?,
      qualified, List.append_assoc, List.append_assoc, scanScope_qualified hscope]
    simp only [hscan, Option.map_some, List.append_assoc]

/-- What the scanner takes is a value. -/
theorem isProperValue_of_scanValue? {text value rest : List Char}
    (h : scanValue? text = some (value, rest)) :
    IsProperValue value ∧ text = value ++ rest := by
  unfold scanValue? at h
  rcases Option.or_eq_some_iff.mp h with hnumeral | ⟨-, hreference⟩
  · exact ⟨.numeral (isNumeral_of_scanNumeral hnumeral), eq_append_of_scanNumeral hnumeral⟩
  · refine ⟨?_, eq_append_of_scanReference? hreference⟩
    unfold scanReference? at hreference
    split at hreference
    · rename_i tail
      obtain ⟨⟨name, rest'⟩, hname, hpair⟩ := Option.map_eq_some_iff.mp hreference
      obtain ⟨rfl, -⟩ := Prod.mk.inj hpair
      have hname := isWord_of_scanWord? hname
      unfold scanScope at hname ⊢
      split
      · exact .name hname
      · rename_i scope after hscope
        split
        · exact .name hname
        · exact .qualified (isWord_of_scanWord? hscope) hname
    · exact absurd hreference (by simp)

/-- The next character that is no blank begins no value, and it is no colon. -/
def Clear (text : List Char) : Prop :=
  ∀ c ∈ (skipBlanks text).head?, isValueStart c = false ∧ c ≠ ':'

/-- No value begins as a name does. -/
theorem isValueStart_of_isNameStart {c : Char} (h : isNameStart c = true) :
    isValueStart c = false := by
  rw [← Bool.not_eq_true]
  intro hstart
  simp only [isValueStart, Bool.or_eq_true, beq_iff_eq] at hstart
  rcases hstart with ((rfl | rfl) | rfl) | hdigit
  · exact absurd h (by decide)
  · exact absurd h (by decide)
  · exact absurd h (by decide)
  · obtain ⟨hlow, hhigh⟩ := toNat_bounds_of_isDigit hdigit
    rw [isNameStart, Bool.or_eq_true, beq_iff_eq] at h
    rcases h with halpha | rfl
    · have hcases : (decide (65 ≤ c.val ∧ c.val ≤ 90) ||
          (decide (97 ≤ c.val) && decide (c.val ≤ 122))) = true := halpha
      simp only [Bool.or_eq_true, Bool.and_eq_true, decide_eq_true_eq,
        UInt32.le_iff_toNat_le] at hcases
      have hval : c.val.toNat = c.toNat := rfl
      have hupper : (65 : UInt32).toNat = 65 := rfl
      have hlower : (97 : UInt32).toNat = 97 := rfl
      omega
    · exact absurd hdigit (by decide)

/-- No value stands where none may come next. -/
theorem Clear.scanValue?_eq_none {text : List Char} (h : Clear text) :
    scanValue? (skipBlanks text) = none := by
  unfold Clear at h
  generalize skipBlanks text = text at h
  cases hscan : scanValue? text with
  | none => rfl
  | some found =>
    obtain ⟨value, rest⟩ := found
    obtain ⟨hvalue, htext⟩ := isProperValue_of_scanValue? hscan
    obtain ⟨c, tail, hhead, hstart⟩ := hvalue.head rest
    rw [htext, hhead] at h
    have hclear := (h c rfl).1
    rw [hstart] at hclear
    exact absurd hclear (by decide)

/-! ## Operands -/

/-- No value is a mark. -/
theorem IsProperValue.not_isMark {value : List Char} (h : IsProperValue value) :
    ¬ IsMark value := by
  obtain ⟨c, tail, hhead, hstart⟩ := h.head []
  rw [List.append_nil] at hhead
  rintro (hmark | hmark)
  all_goals
    rw [hmark] at hhead
    obtain ⟨rfl, -⟩ := List.cons.inj hhead
    exact absurd hstart (by decide)

/-- A value stands apart from anything but a mark. -/
theorem IsProperValue.not_mayTouch {token value : List Char} (h : IsProperValue value)
    (htoken : ¬ IsMark token) : ¬ MayTouch token value := by
  rintro (hmark | rfl)
  · exact htoken hmark
  · obtain ⟨c, tail, hhead, hstart⟩ := h.head []
    obtain ⟨rfl, -⟩ := List.cons.inj hhead
    exact absurd hstart (by decide)

/-- Where a token stands behind one that it may not touch, no token goes on. -/
theorem Behind.ends {token next text : List Char} {tokens : List (List Char)}
    (h : Behind true token (next :: tokens) text) (htouch : ¬ MayTouch token next)
    (rest : List Char) : Ends (text ++ rest) := by
  cases h with
  | cons hblank hgap h =>
    rw [List.append_assoc]
    exact ends_append hblank (hgap rfl htouch) _

/-- A value begins with no mark. -/
theorem scanMark_of_isProperValue {value : List Char} (h : IsProperValue value)
    (rest : List Char) : scanMark (value ++ rest) = (none, value ++ rest) := by
  obtain ⟨c, tail, hhead, hstart⟩ := h.head rest
  rw [hhead]
  unfold scanMark
  split
  · obtain ⟨rfl, -⟩ := List.cons.inj ‹_›
    exact absurd hstart (by decide)
  · obtain ⟨rfl, -⟩ := List.cons.inj ‹_›
    exact absurd hstart (by decide)
  · rfl

/-- The blanks in front of a value are skipped, and no more. -/
theorem skipBlanks_value {gap value : List Char} (hblank : ∀ c ∈ gap, isBlank c = true)
    (h : IsProperValue value) (rest : List Char) :
    skipBlanks (gap ++ (value ++ rest)) = value ++ rest :=
  skipBlanks_append hblank ((isInk_of_isProperValue h).isBlank_head rest)

/-- A value behind a gap is read as an operand without a mark. -/
theorem scanOperand?_bare {gap value rest : List Char} (hblank : ∀ c ∈ gap, isBlank c = true)
    (h : IsProperValue value) (hrest : Ends rest) :
    scanOperand? (gap ++ (value ++ rest)) = some (⟨none, value⟩, rest) := by
  have hnone : skipBlanks (value ++ rest) = value ++ rest :=
    skipBlanks_value (List.forall_mem_nil _) h rest
  rw [scanOperand?, skipBlanks_value hblank h, scanMark_of_isProperValue h]
  simp only [hnone, scanValue?_append h hrest, Option.map_some]

/-- A mark and a value, each behind a gap, are read as a marked operand. -/
theorem scanOperand?_marked {gap gap' value rest : List Char} {mark : Char}
    (hmark : mark = '#' ∨ mark = '~') (hblank : ∀ c ∈ gap, isBlank c = true)
    (hblank' : ∀ c ∈ gap', isBlank c = true) (h : IsProperValue value) (hrest : Ends rest) :
    scanOperand? (gap ++ ([mark] ++ (gap' ++ (value ++ rest)))) =
      some (⟨some mark, value⟩, rest) := by
  have hink : ∀ c ∈ ([mark] ++ (gap' ++ (value ++ rest))).head?, isBlank c = false := by
    intro c hc
    obtain rfl : mark = c := Option.some.inj hc
    rcases hmark with rfl | rfl <;> decide
  have hscan : scanMark ([mark] ++ (gap' ++ (value ++ rest))) =
      (some mark, gap' ++ (value ++ rest)) := by
    rcases hmark with rfl | rfl <;> rfl
  rw [scanOperand?, skipBlanks_append hblank hink, hscan]
  simp only [skipBlanks_value hblank' h, scanValue?_append h hrest, Option.map_some]

/-- The scanner takes the operands that stand behind a token. -/
theorem scanOperands?_append {token text rest : List Char} {operands : List Operand}
    (htoken : ¬ IsMark token) (h : Behind true token (operands.flatMap Operand.tokens) text)
    (hproper : ∀ operand ∈ operands, operand.IsProper) (hrest : Ends rest) :
    Ends (text ++ rest) ∧
      scanOperands? operands.length (text ++ rest) = some (operands, rest) := by
  -- on the operands, each of which ends where the gap of the next begins
  induction operands generalizing token text with
  | nil =>
    cases h with
    | nil _ => exact ⟨hrest, rfl⟩
  | cons operand operands ih =>
    have hvalue := (hproper operand List.mem_cons_self).value
    have hmarks := (hproper operand List.mem_cons_self).mark_eq
    have hothers := fun o ho => hproper o (List.mem_cons_of_mem _ ho)
    rw [List.flatMap_cons] at h
    obtain ⟨mark, value⟩ := operand
    cases mark with
    | none =>
      refine ⟨h.ends (hvalue.not_mayTouch htoken) rest, ?_⟩
      cases h with
      | @cons _ _ gap tail _ hblank _ h =>
        obtain ⟨hends, hscan⟩ := ih hvalue.not_isMark h hothers
        rw [List.append_assoc, List.append_assoc, List.length_cons, scanOperands?,
          scanOperand?_bare hblank hvalue hends]
        simp only [hscan, Option.map_some]
    | some mark =>
      have hmark : mark = '#' ∨ mark = '~' := by
        simpa using hmarks
      have htouch : ¬ MayTouch token [mark] := by
        rintro (hmark' | hcolon)
        · exact htoken hmark'
        · obtain ⟨rfl, -⟩ := List.cons.inj hcolon
          exact absurd hmark (by decide)
      refine ⟨h.ends htouch rest, ?_⟩
      cases h with
      | @cons _ _ gap _ _ hblank _ h =>
        cases h with
        | @cons _ _ gap' tail _ hblank' _ h =>
          obtain ⟨hends, hscan⟩ := ih hvalue.not_isMark h hothers
          have hmarked := scanOperand?_marked hmark hblank hblank' hvalue hends
          rw [List.append_assoc, List.append_assoc, List.append_assoc, List.append_assoc,
            List.length_cons, scanOperands?, hmarked]
          simp only [hscan, Option.map_some]

/-- Where no value follows, none is read and the gap is left. -/
theorem scanValues_of_none {text : List Char} (h : scanValue? (skipBlanks text) = none) :
    scanValues text = ([], text) := by
  rw [scanValues]
  split
  · rfl
  · rename_i hsome
    rw [h] at hsome
    exact absurd hsome (by simp)

/-- Where a value follows, it is the first of those that are read. -/
theorem scanValues_of_some {text value rest : List Char}
    (h : scanValue? (skipBlanks text) = some (value, rest)) :
    scanValues text = (value :: (scanValues rest).1, (scanValues rest).2) := by
  rw [scanValues]
  split
  · rename_i hnone
    rw [h] at hnone
    exact absurd hnone (by simp)
  · rename_i value' rest' hsome
    rw [h] at hsome
    obtain ⟨rfl, rfl⟩ := Prod.mk.inj (Option.some.inj hsome)
    rfl

/-- The scanner takes the values that stand behind a token, up to where none may come next. -/
theorem scanValues_append {token text rest : List Char} {values : List (List Char)}
    (htoken : ¬ IsMark token) (h : Behind true token values text)
    (hproper : ∀ value ∈ values, IsProperValue value) (hrest : Ends rest) (hclear : Clear rest) :
    Ends (text ++ rest) ∧ scanValues (text ++ rest) = (values, rest) := by
  induction values generalizing token text with
  | nil =>
    cases h with
    | nil _ =>
      exact ⟨hrest, scanValues_of_none hclear.scanValue?_eq_none⟩
  | cons value values ih =>
    have hvalue := hproper value List.mem_cons_self
    have hothers := fun v hv => hproper v (List.mem_cons_of_mem _ hv)
    refine ⟨h.ends (hvalue.not_mayTouch htoken) rest, ?_⟩
    cases h with
    | @cons _ _ gap tail _ hblank _ h =>
      obtain ⟨hends, hscan⟩ := ih hvalue.not_isMark h hothers
      have hfirst : scanValue? (skipBlanks (gap ++ (value ++ (tail ++ rest)))) =
          some (value, tail ++ rest) := by
        rw [skipBlanks_value hblank hvalue, scanValue?_append hvalue hends]
      rw [List.append_assoc, List.append_assoc, scanValues_of_some hfirst, hscan]

/-! ## What is taken was written -/

/-- Where gaps may be empty, any gap can stand in front of a token. -/
theorem Behind.loose (token : List Char) {next gap text : List Char} {tokens : List (List Char)}
    (hblank : ∀ c ∈ gap, isBlank c = true) (h : Behind false next tokens text) :
    Behind false token (next :: tokens) (gap ++ (next ++ text)) :=
  .cons hblank (fun hspaced => absurd hspaced (by decide)) h

/-- A mark, or none, and what follows it are the whole text. -/
theorem scanMark_append (text : List Char) :
    (scanMark text).1.toList ++ (scanMark text).2 = text := by
  unfold scanMark
  split <;> rfl

/-- An operand that is read is proper, and its tokens stand in front of the rest. -/
theorem behind_of_scanOperand? {text rest : List Char} {operand : Operand}
    (h : scanOperand? text = some (operand, rest)) :
    operand.IsProper ∧ ∃ body, text = body ++ rest ∧
      ∀ (token : List Char) {tokens : List (List Char)} {tail : List Char},
        Behind false operand.value tokens tail →
          Behind false token (operand.tokens ++ tokens) (body ++ tail) := by
  obtain ⟨⟨value, rest'⟩, hscan, hpair⟩ := Option.map_eq_some_iff.mp h
  obtain ⟨rfl, rfl⟩ := Prod.mk.inj hpair
  obtain ⟨hvalue, hrest⟩ := isProperValue_of_scanValue? hscan
  obtain ⟨gap, hblank, hgap⟩ := exists_gap text
  obtain ⟨gap', hblank', hgap'⟩ := exists_gap (scanMark (skipBlanks text)).2
  have hmark := scanMark_append (skipBlanks text)
  rw [← hmark, hgap', hrest] at hgap
  refine ⟨⟨scanMark_eq _, hvalue⟩, ?_⟩
  cases hfirst : (scanMark (skipBlanks text)).1 with
  | none =>
    rw [hfirst, Option.toList_none, List.nil_append] at hgap
    refine ⟨gap ++ (gap' ++ value), by simpa using hgap, ?_⟩
    intro token tokens tail hbehind
    have hboth : ∀ c ∈ gap ++ gap', isBlank c = true := by
      intro c hc
      exact (List.mem_append.mp hc).elim (hblank c) (hblank' c)
    have hwritten := Behind.loose token hboth hbehind
    simpa [Operand.tokens] using hwritten
  | some mark =>
    rw [hfirst, Option.toList_some] at hgap
    refine ⟨gap ++ ([mark] ++ (gap' ++ value)), by simpa using hgap, ?_⟩
    intro token tokens tail hbehind
    have hwritten := Behind.loose token hblank (.loose [mark] hblank' hbehind)
    simpa [Operand.tokens] using hwritten

/-- Operands that are read are proper, and their tokens stand in front of the rest. -/
theorem behind_of_scanOperands? {count : Nat} {text rest : List Char} {operands : List Operand}
    (h : scanOperands? count text = some (operands, rest)) :
    (∀ operand ∈ operands, operand.IsProper) ∧ ∃ body, text = body ++ rest ∧
      ∀ token, Behind false token (operands.flatMap Operand.tokens) body := by
  induction count generalizing text operands with
  | zero =>
    obtain ⟨rfl, rfl⟩ := Prod.mk.inj (Option.some.inj h)
    exact ⟨List.forall_mem_nil _, [], rfl, fun token => .nil token⟩
  | succ count ih =>
    rw [scanOperands?] at h
    split at h
    · exact absurd h (by simp)
    · rename_i operand tail hfirst
      obtain ⟨⟨others, rest'⟩, hothers, hpair⟩ := Option.map_eq_some_iff.mp h
      obtain ⟨rfl, rfl⟩ := Prod.mk.inj hpair
      obtain ⟨hproper, front, rfl, hfront⟩ := behind_of_scanOperand? hfirst
      obtain ⟨hall, body, rfl, hbody⟩ := ih hothers
      refine ⟨List.forall_mem_cons.mpr ⟨hproper, hall⟩, front ++ body,
        by rw [List.append_assoc], ?_⟩
      intro token
      rw [List.flatMap_cons]
      exact hfront token (hbody operand.value)

/-- Values that are read are proper and stand in front of the rest. -/
theorem behind_scanValues (text : List Char) :
    (∀ value ∈ (scanValues text).1, IsProperValue value) ∧
      ∃ body, text = body ++ (scanValues text).2 ∧
        ∀ token, Behind false token (scanValues text).1 body := by
  fun_induction scanValues text with
  | case1 text hnone => exact ⟨List.forall_mem_nil _, [], rfl, fun token => .nil token⟩
  | case2 text value rest hvalue hlt values rest' hmore ih =>
    rw [hmore] at ih
    obtain ⟨hall, body, rfl, hbody⟩ := ih
    obtain ⟨hproper, hrest⟩ := isProperValue_of_scanValue? hvalue
    obtain ⟨gap, hblank, hgap⟩ := exists_gap text
    refine ⟨List.forall_mem_cons.mpr ⟨hproper, hall⟩, gap ++ (value ++ body), ?_, ?_⟩
    · rw [List.append_assoc, List.append_assoc, ← hrest]
      exact hgap
    · intro token
      exact .loose token hblank (hbody value)

end IntegerMachine.Assembly
