import IntegerMachine.Text.Blank

/-!
# Blanks in front and spaces at the ends

A text of a class of characters ends where another character follows.  So the blanks in front of a
text are skipped up to its first other character, and what is stripped begins with no space.
-/

set_option autoImplicit false

namespace IntegerMachine.Text

/-- Text of a class ends where a character of no such class follows. -/
theorem takeWhile_append_of_head {p : Char → Bool} {front rest : List Char}
    (hfront : ∀ c ∈ front, p c = true) (hrest : ∀ c ∈ rest.head?, p c = false) :
    (front ++ rest).takeWhile p = front := by
  rw [List.takeWhile_append_of_pos hfront]
  cases rest with
  | nil => rw [List.takeWhile_nil, List.append_nil]
  | cons c rest => rw [List.takeWhile_cons, hrest c rfl, if_neg (by decide), List.append_nil]

/-- What is dropped from the front is the front, if what follows begins otherwise. -/
theorem dropWhile_append_of_head {p : Char → Bool} {front rest : List Char}
    (hfront : ∀ c ∈ front, p c = true) (hrest : ∀ c ∈ rest.head?, p c = false) :
    (front ++ rest).dropWhile p = rest := by
  rw [List.dropWhile_append_of_pos hfront]
  cases rest with
  | nil => rfl
  | cons c rest => rw [List.dropWhile_cons, hrest c rfl, if_neg (by decide)]

/-- What is left of a text begins with no character of the class that was dropped. -/
theorem head_dropWhile (p : Char → Bool) (text : List Char) :
    ∀ c ∈ (text.dropWhile p).head?, p c = false := by
  intro c hc
  have hnot := List.head?_dropWhile_not p text
  rw [Option.mem_def.mp hc] at hnot
  simpa using hnot

/-- A gap in front of a text is skipped. -/
theorem skipBlanks_append {gap text : List Char} (hblank : ∀ c ∈ gap, isBlank c = true)
    (htext : ∀ c ∈ text.head?, isBlank c = false) : skipBlanks (gap ++ text) = text :=
  dropWhile_append_of_head hblank htext

/-- Nothing is skipped where no blank stands. -/
theorem skipBlanks_of_head {text : List Char} (h : ∀ c ∈ text.head?, isBlank c = false) :
    skipBlanks text = text :=
  skipBlanks_append (List.forall_mem_nil _) h

/-- Behind the blanks skipped stands no blank. -/
theorem head_skipBlanks (text : List Char) : ∀ c ∈ (skipBlanks text).head?, isBlank c = false :=
  head_dropWhile isBlank text

/-- The blanks in front of a text. -/
theorem exists_gap (text : List Char) :
    ∃ gap, (∀ c ∈ gap, isBlank c = true) ∧ text = gap ++ skipBlanks text :=
  ⟨text.takeWhile isBlank, fun c hc => List.all_eq_true.mp List.all_takeWhile c hc,
    List.takeWhile_append_dropWhile.symm⟩

/-- A stripped text begins with no space. -/
theorem head_strip (text : List Char) : ∀ c ∈ (strip text).head?, isSpace c = false := by
  intro c hc
  -- dropping from the end leaves the front
  obtain ⟨ending, hending⟩ := List.dropWhile_suffix (l := (text.dropWhile isSpace).reverse) isSpace
  have hfront : strip text ++ ending.reverse = text.dropWhile isSpace := by
    rw [strip, ← List.reverse_append, hending, List.reverse_reverse]
  apply head_dropWhile isSpace text
  rw [← hfront, List.head?_append]
  simp [Option.mem_def.mp hc]

/-- Spaces behind a text without spaces are stripped. -/
theorem strip_append {text ending : List Char} (htext : ∀ c ∈ text, isSpace c = false)
    (hending : ∀ c ∈ ending, isSpace c = true) : strip (text ++ ending) = text := by
  have hback : (ending.reverse ++ text.reverse).dropWhile isSpace = text.reverse := by
    apply dropWhile_append_of_head
    · simpa using hending
    · intro c hc
      exact htext c (List.mem_reverse.mp (List.mem_of_mem_head? hc))
  cases text with
  | nil =>
    have hfront : (ending ++ []).dropWhile isSpace = [] :=
      dropWhile_append_of_head hending (by simp)
    rw [List.append_nil] at hfront
    rw [strip, List.nil_append, hfront]
    rfl
  | cons c text =>
    have hfront : ((c :: text) ++ ending).dropWhile isSpace = (c :: text) ++ ending := by
      rw [List.cons_append, List.dropWhile_cons, htext c List.mem_cons_self, if_neg (by decide)]
    rw [strip, hfront, List.reverse_append, hback, List.reverse_reverse]

end IntegerMachine.Text
