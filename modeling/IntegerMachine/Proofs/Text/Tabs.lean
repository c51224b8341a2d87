import IntegerMachine.Text.Blank
import IntegerMachine.Text.Lines

/-!
# Texts up to their tabs

Expanding tabs depends on the columns, but what follows from it for reading does not: each tab
has become one space or more, and every other character has stayed.  `Detabs` says this much.
Text cut in two before the tabs were expanded is cut in two afterwards, and the other way round
where the cut is not among the spaces of one tab.
-/

set_option autoImplicit false

namespace IntegerMachine.Text

/-- The second text is the first with one space or more for each tab. -/
inductive Detabs : List Char → List Char → Prop
  | nil : Detabs [] []
  /-- The last space of a tab. -/
  | last {text plain : List Char} (h : Detabs text plain) : Detabs ('\t' :: text) (' ' :: plain)
  /-- A space of a tab before its last. -/
  | more {text plain : List Char} (h : Detabs ('\t' :: text) plain) :
    Detabs ('\t' :: text) (' ' :: plain)
  | keep {c : Char} {text plain : List Char} (hc : c ≠ '\t') (h : Detabs text plain) :
    Detabs (c :: text) (c :: plain)

namespace Detabs

/-- A tab can be any number of spaces but none. -/
theorem tab {text plain : List Char} (h : Detabs text plain) (n : Nat) :
    Detabs ('\t' :: text) (List.replicate (n + 1) ' ' ++ plain) := by
  induction n with
  | zero => exact h.last
  | succ n ih => exact ih.more

end Detabs

/-- Expanding tabs puts at least one space for each, in whatever column the text begins. -/
theorem detabs_expandTabsFrom (column : Nat) (text : List Char) :
    Detabs text (expandTabsFrom column text) := by
  induction text generalizing column with
  | nil => exact .nil
  | cons c text ih =>
    rw [expandTabsFrom]
    by_cases htab : c = '\t'
    · subst htab
      rw [if_pos rfl]
      have hgap : tabWidth - column % tabWidth = (tabWidth - column % tabWidth - 1) + 1 := by
        unfold tabWidth
        omega
      rw [hgap]
      exact (ih _).tab _
    · rw [if_neg htab]
      split
      · exact .keep htab (ih 0)
      · exact .keep htab (ih (column + 1))

/-- Expanding tabs puts at least one space for each. -/
theorem detabs_expandTabs (text : List Char) : Detabs text (expandTabs text) :=
  detabs_expandTabsFrom 0 text

namespace Detabs

variable {text plain : List Char}

/-- A text is empty exactly if it is without its tabs. -/
theorem eq_nil_iff (h : Detabs text plain) : text = [] ↔ plain = [] := by
  cases h <;> simp

/-- Characters that are no tabs and no spaces are the same before and after. -/
theorem mem_iff (h : Detabs text plain) {c : Char} (htab : c ≠ '\t') (hspace : c ≠ ' ') :
    c ∈ text ↔ c ∈ plain := by
  induction h with
  | nil => rfl
  | last _ ih => simp [htab, hspace, ih]
  | more _ ih => simp [hspace, ih]
  | keep _ _ ih => rw [List.mem_cons, List.mem_cons, ih]

/-- Blanks become blanks, and nothing else does. -/
theorem all_isBlank_iff (h : Detabs text plain) :
    (∀ c ∈ text, isBlank c = true) ↔ ∀ c ∈ plain, isBlank c = true := by
  induction h with
  | nil => rfl
  | last _ ih => rw [List.forall_mem_cons, List.forall_mem_cons, ih]; simp [isBlank]
  | more _ ih => rw [ih, List.forall_mem_cons]; simp [isBlank]
  | keep _ _ ih => rw [List.forall_mem_cons, List.forall_mem_cons, ih]

/-- A text without tabs stays as it is. -/
theorem eq_of_not_mem_tab (h : Detabs text plain) (htab : '\t' ∉ text) : plain = text := by
  induction h with
  | nil => rfl
  | last _ _ => exact absurd List.mem_cons_self htab
  | more _ _ => exact absurd List.mem_cons_self htab
  | keep _ _ ih => rw [ih fun hmem => htab (List.mem_cons_of_mem _ hmem)]

/-- A line ends where it ended. -/
theorem head_iff (h : Detabs text plain) :
    (∀ c ∈ text.head?, c = '\n') ↔ ∀ c ∈ plain.head?, c = '\n' := by
  cases h <;> simp

/-- A text cut in two. -/
theorem append_inv {front back : List Char} (h : Detabs (front ++ back) plain) :
    ∃ front' back', plain = front' ++ back' ∧ Detabs front front' ∧ Detabs back back' := by
  generalize htext : front ++ back = text at h
  -- on the characters of the plain text; the cut is where the front is used up
  induction h generalizing front with
  | nil =>
    obtain ⟨rfl, rfl⟩ := List.append_eq_nil_iff.mp htext
    exact ⟨[], [], rfl, .nil, .nil⟩
  | last h ih =>
    cases front with
    | nil =>
      obtain rfl : back = _ := htext
      exact ⟨[], _, rfl, .nil, h.last⟩
    | cons c front =>
      obtain ⟨rfl, hrest⟩ := List.cons.inj htext
      obtain ⟨front', back', rfl, hfront, hback⟩ := ih hrest
      exact ⟨' ' :: front', back', rfl, hfront.last, hback⟩
  | more h ih =>
    cases front with
    | nil =>
      obtain rfl : back = _ := htext
      exact ⟨[], _, rfl, .nil, h.more⟩
    | cons c front =>
      obtain ⟨front', back', rfl, hfront, hback⟩ := ih htext
      obtain ⟨rfl, -⟩ := List.cons.inj htext
      exact ⟨' ' :: front', back', rfl, hfront.more, hback⟩
  | keep hc h ih =>
    cases front with
    | nil =>
      obtain rfl : back = _ := htext
      exact ⟨[], _, rfl, .nil, h.keep hc⟩
    | cons c front =>
      obtain ⟨rfl, hrest⟩ := List.cons.inj htext
      obtain ⟨front', back', rfl, hfront, hback⟩ := ih hrest
      exact ⟨c :: front', back', rfl, hfront.keep hc, hback⟩

/-- A plain text cut in two where no space follows. -/
theorem of_append {front' back' : List Char} (h : Detabs text (front' ++ back'))
    (hspace : back'.head? ≠ some ' ') :
    ∃ front back, text = front ++ back ∧ Detabs front front' ∧ Detabs back back' := by
  generalize hplain : front' ++ back' = plain at h
  induction h generalizing front' with
  | nil =>
    obtain ⟨rfl, rfl⟩ := List.append_eq_nil_iff.mp hplain
    exact ⟨[], [], rfl, .nil, .nil⟩
  | last h ih =>
    cases front' with
    | nil => exact absurd (congrArg List.head? hplain) hspace
    | cons c front' =>
      obtain ⟨rfl, hrest⟩ := List.cons.inj hplain
      obtain ⟨front, back, rfl, hfront, hback⟩ := ih hrest
      exact ⟨'\t' :: front, back, rfl, hfront.last, hback⟩
  | more h ih =>
    cases front' with
    | nil => exact absurd (congrArg List.head? hplain) hspace
    | cons c front' =>
      obtain ⟨rfl, hrest⟩ := List.cons.inj hplain
      obtain ⟨front, back, htext, hfront, hback⟩ := ih hrest
      -- a tab that is spread over both parts would begin the second with a space
      cases front with
      | nil =>
        obtain rfl : back = _ := htext.symm
        cases hback with
        | last _ => exact absurd rfl hspace
        | more _ => exact absurd rfl hspace
        | keep htab _ => exact absurd rfl htab
      | cons d front =>
        obtain ⟨rfl, rfl⟩ := List.cons.inj htext
        exact ⟨'\t' :: front, back, rfl, hfront.more, hback⟩
  | keep hc h ih =>
    cases front' with
    | nil =>
      obtain rfl : back' = _ := hplain
      exact ⟨[], _, rfl, .nil, h.keep hc⟩
    | cons c front' =>
      obtain ⟨rfl, hrest⟩ := List.cons.inj hplain
      obtain ⟨front, back, rfl, hfront, hback⟩ := ih hrest
      exact ⟨c :: front, back, rfl, hfront.keep hc, hback⟩

/-- A word without tabs still stands in front of what follows it. -/
theorem word_append_inv {word tail : List Char} (h : Detabs (word ++ tail) plain)
    (htab : '\t' ∉ word) : ∃ rest, plain = word ++ rest ∧ Detabs tail rest := by
  obtain ⟨word', rest, rfl, hword, hrest⟩ := h.append_inv
  rw [hword.eq_of_not_mem_tab htab]
  exact ⟨rest, rfl, hrest⟩

/-- A word without spaces stood there before, in front of what follows it. -/
theorem of_word_append {word rest : List Char} (h : Detabs text (word ++ rest))
    (hspace : ' ' ∉ word) : ∃ tail, text = word ++ tail ∧ Detabs tail rest := by
  induction word generalizing text with
  | nil => exact ⟨text, rfl, h⟩
  | cons c word ih =>
    cases h with
    | last _ => exact absurd List.mem_cons_self hspace
    | more _ => exact absurd List.mem_cons_self hspace
    | keep hc h =>
      obtain ⟨tail, rfl, htail⟩ := ih h fun hmem => hspace (List.mem_cons_of_mem _ hmem)
      exact ⟨tail, rfl, htail⟩

end Detabs

end IntegerMachine.Text
