import IntegerMachine.Proofs.Program.Grammar

/-!
# Programs written and loaded again

The text of a program is a list of numerals, one for each word (`accepts_dump`), in which no space
stands.  So neither the newline that a file adds nor anything else that is done to a text before it
is scanned makes a difference, and the words are loaded that were written.
-/

set_option autoImplicit false

namespace IntegerMachine.Program

open Text

/-- The numerals of a program. -/
def numeralsOf (words : List Int) : List (List Char) :=
  words.map fun word => (toString word).toList

/-- The numbers of a program are written as numerals. -/
theorem isNumeral_of_mem_numeralsOf (words : List Int) :
    ∀ numeral ∈ numeralsOf words, IsNumeral numeral := by
  intro numeral hmem
  obtain ⟨word, -, rfl⟩ := List.mem_map.mp hmem
  exact isNumeral_toString word

/-- The numerals of a program stand for its words. -/
theorem map_numeralValue_numeralsOf (words : List Int) :
    (numeralsOf words).map numeralValue = words := by
  rw [numeralsOf, List.map_map]
  exact (List.map_congr_left fun word _ => numeralValue_toString word).trans (List.map_id words)

/-- The text of a program is its numerals with commas between them. -/
theorem toList_dump (words : List Int) :
    (dump words).toList = [','].intercalate (numeralsOf words) := by
  rw [dump, String.toList_intercalate, List.map_map]
  rfl

/-! ## A list of numerals -/

/-- Numerals with commas between them are a list. -/
theorem lists_intercalate {numeral : List Char} {numerals : List (List Char)}
    (h : ∀ other ∈ numeral :: numerals, IsNumeral other) :
    Lists (numeral :: numerals) ([','].intercalate (numeral :: numerals)) := by
  induction numerals generalizing numeral with
  | nil =>
    have hlist := Lists.intro (h numeral List.mem_cons_self) .nil
    rw [List.append_nil] at hlist
    rwa [List.intercalate_singleton]
  | cons next rest ih =>
    have hrest := ih fun other hother => h other (List.mem_cons_of_mem _ hother)
    rw [List.intercalate_cons_cons, List.append_assoc]
    generalize [','].intercalate (next :: rest) = text at hrest ⊢
    obtain ⟨hnext, htail⟩ := hrest
    have hgap : IsGap [] := List.forall_mem_nil _
    exact .intro (h _ List.mem_cons_self) (.cons hgap hgap hnext htail)

/-- The text of a program is a program text with its numerals, also if there is none. -/
theorem accepts_dump (words : List Int) : Accepts (numeralsOf words) (dump words).toList := by
  rw [toList_dump]
  cases words with
  | nil => exact .nothing
  | cons word words =>
    have hlist := lists_intercalate (isNumeral_of_mem_numeralsOf (word :: words))
    have haccepts := Accepts.list (List.forall_mem_nil _) hlist (List.forall_mem_nil _)
    rwa [List.nil_append, List.append_nil] at haccepts

/-! ## No spaces -/

/-- No space is in a list of numerals. -/
theorem isSpace_of_mem_intercalate {numerals : List (List Char)}
    (h : ∀ numeral ∈ numerals, IsNumeral numeral) :
    ∀ c ∈ [','].intercalate numerals, isSpace c = false := by
  intro c hc
  induction numerals with
  | nil => exact absurd hc (by simp)
  | cons numeral rest ih =>
    have hnumeral := isSpace_of_mem_numeral (h numeral List.mem_cons_self) c
    have hrest := ih fun other hother => h other (List.mem_cons_of_mem _ hother)
    cases rest with
    | nil => exact hnumeral (by simpa using hc)
    | cons next rest =>
      rw [List.intercalate_cons_cons] at hc
      rcases List.mem_append.mp hc with hc | hc
      · rcases List.mem_append.mp hc with hc | hc
        · exact hnumeral hc
        · obtain rfl := List.mem_singleton.mp hc
          decide
      · exact hrest hc

/-- No space is in the text of a program. -/
theorem isSpace_of_mem_dump {words : List Int} : ∀ c ∈ (dump words).toList, isSpace c = false := by
  rw [toList_dump]
  exact isSpace_of_mem_intercalate (isNumeral_of_mem_numeralsOf words)

/-- The text of a program is on one line and has nothing to strip. -/
theorem not_mem_dump {words : List Int} {c : Char} (h : isSpace c = true) :
    c ∉ (dump words).toList := by
  intro hmem
  rw [isSpace_of_mem_dump c hmem] at h
  exact absurd h (by decide)

/-! ## Loading -/

/-- Spaces behind the text of a program are no part of it. -/
theorem parse_of_dump {words : List Int} (hfit : AllFit (numeralsOf words)) {text : String}
    {ending : List Char} (htext : text.toList = (dump words).toList ++ ending)
    (hending : ∀ c ∈ ending, isSpace c = true) : parse text = .ok words := by
  have hplain : expandTabs (strip text.toList) = (dump words).toList := by
    rw [htext, strip_append isSpace_of_mem_dump hending]
    exact (detabs_expandTabs _).eq_of_not_mem_tab (not_mem_dump (by decide))
  have hhead : ∀ c ∈ (dump words).toList.head?, isBlank c = false := by
    rw [← hplain]
    exact head_plain text.toList
  rw [parse, hplain, parsePlain_of_accepts hhead (accepts_dump words), mapM_readNumeral,
    firstOverlong?_eq_none_iff.mpr hfit, map_numeralValue_numeralsOf]

/-- What is dumped is loaded, if its numerals can be read. -/
theorem load_dump {words : List Int} (hfit : AllFit (numeralsOf words)) (padding : Int) :
    (load (dump words) padding).result = .ok (words ++ List.replicate padding.toNat 0) := by
  have hparse := parse_of_dump hfit (List.append_nil (dump words).toList).symm (List.forall_mem_nil _)
  rw [result_load, hparse]
  rfl

/-- A text without carriage returns is read as it is. -/
theorem unifyNewlines_of_not_mem {text : List Char} (h : '\r' ∉ text) :
    unifyNewlines text = text := by
  fun_induction unifyNewlines text with
  | case1 => rfl
  | case2 rest ih => exact absurd List.mem_cons_self h
  | case3 rest _ ih => exact absurd List.mem_cons_self h
  | case4 c rest _ _ ih => rw [ih fun hmem => h (List.mem_cons_of_mem _ hmem)]

/-- A file in which the text of a program is the first line, and the only one. -/
theorem loadFile_dump (path : String) {words : List Int} (hfit : AllFit (numeralsOf words))
    (padding : Int) :
    (loadFile path (dump words ++ "\n") padding).result =
      .ok (words ++ List.replicate padding.toNat 0) := by
  have hreturn : '\r' ∉ (dump words ++ "\n").toList := by
    rw [String.toList_append]
    intro hmem
    rcases List.mem_append.mp hmem with hmem | hmem
    · exact not_mem_dump (by decide) hmem
    · exact absurd hmem (by decide)
  have hparse : parse (String.ofList (unifyNewlines (dump words ++ "\n").toList)) = .ok words := by
    rw [unifyNewlines_of_not_mem hreturn, String.ofList_toList]
    apply parse_of_dump hfit String.toList_append
    intro c hc
    obtain rfl : c = '\n' := by simpa using hc
    decide
  rw [loadFile, Logged.withLog, result_load, hparse]
  rfl

/-! ## Loading what was loaded -/

/-- Whatever stands behind commas is a numeral. -/
theorem Continues.isNumeral_of_mem {numerals : List (List Char)} {front : List Char}
    (h : Continues numerals front) : ∀ numeral ∈ numerals, IsNumeral numeral := by
  induction h with
  | nil => exact List.forall_mem_nil _
  | cons _ _ hnumeral _ ih => exact List.forall_mem_cons.mpr ⟨hnumeral, ih⟩

/-- A program text is made of numerals. -/
theorem Accepts.isNumeral_of_mem {numerals : List (List Char)} {text : List Char}
    (h : Accepts numerals text) : ∀ numeral ∈ numerals, IsNumeral numeral := by
  cases h with
  | nothing => exact List.forall_mem_nil _
  | list _ hlist _ =>
    obtain ⟨hnumeral, hrest⟩ := hlist
    exact List.forall_mem_cons.mpr ⟨hnumeral, hrest.isNumeral_of_mem⟩

/-- What was loaded can be dumped and read again: its numerals are not longer than those it was
loaded from. -/
theorem allFit_of_load {text : String} {padding : Int} {words : List Int}
    (h : (load text padding).result = .ok words) : AllFit (numeralsOf words) := by
  obtain ⟨numerals, haccepts, hfit, rfl⟩ := result_load_eq_ok_iff.mp h
  intro numeral hmem
  obtain ⟨word, hword, rfl⟩ := List.mem_map.mp hmem
  rcases List.mem_append.mp hword with hread | hzero
  · obtain ⟨read, hmet, rfl⟩ := List.mem_map.mp hread
    exact (digitCount_numeralValue_le (haccepts.isNumeral_of_mem read hmet)).trans (hfit read hmet)
  · obtain rfl := List.eq_of_mem_replicate hzero
    decide

end IntegerMachine.Program
