import IntegerMachine.Proofs.Assembly.Layout
import IntegerMachine.Proofs.Assembly.Reading
import IntegerMachine.Proofs.Program.Listing

/-!
# Listings assembled again

The lines of a listing without their addresses are assembly text.  It renders one statement for
each entry, so it is read back as these statements, and they are assembled to the words that the
entries show, as long as no number among them has too many digits to be read.  `reassembly` says
what this is for the words the listing was made of: the same words, but for digits that no command
shows, unless some command writes to a value.
-/

set_option autoImplicit false

namespace IntegerMachine.Program

open Text Assembly

/-! ## Lines without addresses -/

/-- What stands between the address and the text of a line. -/
def addressEnd : List Char := [':', ' ']

/-- The line of a listing without its address. -/
def withoutAddress (line : String) : String :=
  match splitAt? addressEnd line.toList with
  | none => line
  | some (_, rest) => String.ofList rest

/-- The lines of a listing without their addresses, as one text. -/
def sourceText (words : List Int) : String :=
  String.intercalate "\n" ((listing words).map withoutAddress)

/-- A text is split at the first end of an address. -/
theorem splitAt?_append {front : List Char} (h : ':' ∉ front) (rest : List Char) :
    splitAt? addressEnd (front ++ (addressEnd ++ rest)) = some (front, rest) := by
  induction front with
  | nil => rfl
  | cons c front ih =>
    have hc : ':' ≠ c := fun heq => h (heq ▸ List.mem_cons_self)
    have hafter : after? addressEnd (c :: (front ++ (addressEnd ++ rest))) = none := by
      rw [addressEnd, after?, if_neg hc]
    rw [List.cons_append, splitAt?, hafter]
    simp only [ih fun hmem => h (List.mem_cons_of_mem _ hmem), Option.map_some]

/-- An address is written in digits. -/
theorem colon_notMem_addressText (address : Nat) : ':' ∉ (addressText address).toList := by
  have hdigits : (toString address).toList = Nat.toDigits 10 address := by
    simp [ToString.toString, Nat.repr]
  unfold addressText
  rw [String.toList_append, String.toList_ofList, List.mem_append, not_or, hdigits]
  constructor
  · intro hmem
    exact absurd (List.eq_of_mem_replicate hmem) (by decide)
  · intro hmem
    exact absurd (isDigit_of_mem_toDigits _ hmem) (by decide)

/-- A line of a listing without its address is the text of its entry. -/
theorem withoutAddress_listingLine (entry : Nat × Entry) :
    withoutAddress (listingLine entry) = entry.2.text := by
  have hline : (listingLine entry).toList =
      (addressText entry.1).toList ++ (addressEnd ++ entry.2.text.toList) := by
    simp [listingLine, addressEnd, ToString.toString]
  rw [withoutAddress, hline, splitAt?_append (colon_notMem_addressText entry.1)]
  exact String.ofList_toList

/-- The source of a listing is the texts of its entries, line by line. -/
theorem sourceText_eq (words : List Int) :
    sourceText words = String.intercalate "\n" ((entries words).map fun entry => entry.2.text) := by
  have hlines : withoutAddress ∘ listingLine = fun entry => entry.2.text := by
    funext entry
    rw [Function.comp_apply, withoutAddress_listingLine]
  rw [sourceText, listing, List.map_map, hlines]

/-! ## Entries as statements -/

/-- The mark of a mode. -/
def markOf : Mode → Option Char
  | .position => none
  | .immediate => some '#'
  | .relative => some '~'

/-- An operand of a listing as it is read. -/
def operandOf (operand : Mode × Int) : Operand :=
  ⟨markOf operand.1, (toString operand.2).toList⟩

/-- The statement that the text of an entry is. -/
def Entry.statement : Entry → Statement
  | data word => .data [(toString word).toList]
  | command opcode operands => .command opcode (operands.map operandOf)

/-- An operand of a listing can be written in a source. -/
theorem isProper_operandOf (operand : Mode × Int) : (operandOf operand).IsProper := by
  obtain ⟨mode, word⟩ := operand
  refine ⟨?_, .numeral (isNumeral_toString word)⟩
  cases mode <;> simp [operandOf, markOf]

/-- An entry that shows words is a statement that can be written. -/
theorem Entry.Shows.isProper_statement {word : Int} {rest : List Int} {entry : Entry}
    (h : entry.Shows word rest) : entry.statement.IsProper := by
  cases entry with
  | data word =>
    refine ⟨by simp, ?_⟩
    intro value hvalue
    rw [List.mem_singleton.mp hvalue]
    exact .numeral (isNumeral_toString word)
  | command opcode operands =>
    refine ⟨?_, ?_⟩
    · rw [List.length_map]
      exact h.length_operands.1
    · intro operand hmem
      obtain ⟨shown, -, rfl⟩ := List.mem_map.mp hmem
      exact isProper_operandOf shown

/-! ## The rendering -/

/-- A mark and a value behind a space stand as they are written. -/
theorem behind_marked (token : List Char) {mark : Char} (hmark : IsMark [mark])
    {value text : List Char} {tokens : List (List Char)} (h : Behind true value tokens text) :
    Behind true token ([mark] :: value :: tokens) ([' '] ++ ([mark] ++ ([] ++ (value ++ text)))) :=
  behind_bare token (.cons (by simp) (fun _ htouch => absurd (.inl hmark) htouch) h)

/-- The operands of a command stand behind its mnemonic, each behind a space and its mark. -/
theorem behind_operands (token : List Char) (operands : List (Mode × Int)) :
    Behind true token ((operands.map operandOf).flatMap Operand.tokens)
      (operands.flatMap fun operand => ' ' :: (Entry.operandText operand).toList) := by
  induction operands generalizing token with
  | nil => exact .nil token
  | cons operand operands ih =>
    obtain ⟨mode, word⟩ := operand
    have hvalue := ih (toString word).toList
    rw [List.map_cons, List.flatMap_cons, List.flatMap_cons]
    cases mode with
    | position =>
      have hbare := behind_bare token hvalue
      simpa [operandOf, markOf, Operand.tokens, Entry.operandText, Mode.mark] using hbare
    | immediate =>
      have hmarked := behind_marked token (.inl rfl) hvalue
      simpa [operandOf, markOf, Operand.tokens, Entry.operandText, Mode.mark] using hmarked
    | relative =>
      have hmarked := behind_marked token (.inr rfl) hvalue
      simpa [operandOf, markOf, Operand.tokens, Entry.operandText, Mode.mark] using hmarked

/-- Words with spaces between them are the first and the others, each behind a space. -/
theorem intercalate_space_cons (word : List Char) (words : List (List Char)) :
    [' '].intercalate (word :: words) = word ++ words.flatMap fun next => ' ' :: next := by
  induction words generalizing word with
  | nil => simp
  | cons next words ih => simp [List.intercalate_cons_cons, ih]

/-- The text of an entry writes its statement. -/
theorem written_text (entry : Entry) : Written true entry.statement.tokens entry.text.toList := by
  cases entry with
  | data word =>
    refine ⟨_, ?_, behind_bare dataWord (.nil (toString word).toList)⟩
    simp [Entry.text, dataWord, ToString.toString]
  | command opcode operands =>
    refine ⟨_, ?_, behind_operands _ operands⟩
    rw [Entry.text, String.toList_intercalate, List.map_cons, List.map_map]
    exact (intercalate_space_cons _ _).trans (by rw [List.flatMap_map]; rfl)

/-- The texts of entries on lines of their own render their statements. -/
theorem renders_entries (entries : List (Nat × Entry))
    (h : ∀ entry ∈ entries, entry.2.statement.IsProper) :
    Renders true false (entries.map fun entry => entry.2.statement)
      (['\n'].intercalate (entries.map fun entry => entry.2.text.toList)) := by
  induction entries with
  | nil => exact .nil false
  | cons entry entries ih =>
    have hproper := h entry List.mem_cons_self
    have hrest := ih fun e he => h e (List.mem_cons_of_mem _ he)
    cases entries with
    | nil =>
      have hone := Renders.statement hproper (written_text entry.2) (.nil true)
      simpa using hone
    | cons next entries =>
      have hcons := Renders.statement hproper (written_text entry.2)
        (.blank true (c := '\n') rfl hrest)
      simpa [List.intercalate_cons_cons] using hcons

/-- The source is read back as the statements of the entries. -/
theorem parse_sourceText (words : List Int) :
    Assembly.parse (sourceText words).toList =
      (entries words).map fun entry => entry.2.statement := by
  apply parse_eq_of_renders
  have hproper : ∀ entry ∈ entries words, entry.2.statement.IsProper := by
    intro entry hentry
    obtain ⟨word, rest, -, hshows⟩ := shows_of_mem hentry
    exact hshows.isProper_statement
  have hrenders := renders_entries (entries words) hproper
  rw [sourceText_eq, String.toList_intercalate, List.map_map]
  exact hrenders

/-! ## The words of the statements -/

/-- A number refers to no label. -/
theorem reference?_toString (scope : List Char) (word : Int) :
    reference? scope (toString word).toList = none := by
  have hnumeral := isNumeral_toString word
  unfold reference?
  split
  · rename_i heq
    rw [heq] at hnumeral
    exact absurd (hnumeral.isDigit_of_mem '&' List.mem_cons_self) (by decide)
  · rfl

/-- A number stands for itself. -/
theorem valueWord_toString (script : Script) (scope : List Char) (word : Int) :
    valueWord script scope (toString word).toList = word := by
  rw [valueWord, reference?_toString]
  exact numeralValue_toString word

/-- An operand of a listing is read with the mode it was shown with. -/
theorem mode_operandOf (operand : Mode × Int) : (operandOf operand).mode = operand.1 := by
  obtain ⟨mode, word⟩ := operand
  cases mode <;> rfl

/-- The command of a listing has the opcode word without the digits that do not count. -/
theorem opcodeWord_operandOf (opcode : Opcode) (operands : List (Mode × Int)) :
    opcodeWord opcode (operands.map operandOf) = plainWord opcode operands := by
  have hdigits : ((operands.map operandOf).mapIdx fun k operand =>
      operand.mode.digit * 10 ^ (k + 2)) =
        operands.mapIdx fun k operand => Word.place operand.1 k := by
    apply List.ext_getElem?
    intro k
    simp [place_eq, Function.comp_def, mode_operandOf]
  rw [opcodeWord, plainWord, hdigits]

/-- A command of a listing is innocent if it writes to no value. -/
theorem innocent_operandOf {opcode : Opcode} {operands : List (Mode × Int)} :
    Innocent (.command opcode (operands.map operandOf)) ↔
      ¬ HasImmediateDestination opcode operands := by
  constructor
  · rintro h ⟨k, word, hk, hoperand⟩
    refine h k hk (operandOf (.immediate, word)) ?_ (mode_operandOf _)
    rw [List.getElem?_map, hoperand, Option.map_some]
  · rintro h k hk operand hoperand hmode
    rw [List.getElem?_map] at hoperand
    obtain ⟨⟨mode, word⟩, hshown, rfl⟩ := Option.map_eq_some_iff.mp hoperand
    obtain rfl : mode = .immediate := (mode_operandOf (mode, word)).symm.trans hmode
    exact h ⟨k, word, hk, hshown⟩

/-- The values of an entry are numbers. -/
theorem exists_of_mem_values {entry : Entry} {value : List Char}
    (h : value ∈ entry.statement.values) : ∃ word : Int, value = (toString word).toList := by
  cases entry with
  | data word => exact ⟨word, List.mem_singleton.mp h⟩
  | command opcode operands =>
    obtain ⟨operand, hoperand, rfl⟩ := List.mem_map.mp h
    obtain ⟨shown, -, rfl⟩ := List.mem_map.mp hoperand
    exact ⟨shown.2, rfl⟩

/-- The statement of an entry is laid out as the words that the entry shows. -/
theorem words_statement (script : Script) (scope : List Char) (entry : Entry) :
    entry.statement.head ++ entry.statement.values.map (valueWord script scope) = entry.words := by
  cases entry with
  | data word =>
    show [valueWord script scope (toString word).toList] = [word]
    rw [valueWord_toString]
  | command opcode operands =>
    have hvalues : (operands.map operandOf).map Operand.value =
        operands.map fun operand => (toString operand.2).toList := List.map_map
    have hwords : (valueWord script scope ∘ fun operand : Mode × Int =>
        (toString operand.2).toList) = Prod.snd :=
      funext fun operand => valueWord_toString script scope operand.2
    rw [Entry.statement, Statement.head, Statement.values, opcodeWord_operandOf, hvalues,
      List.map_map, hwords, Entry.words, List.singleton_append]

/-- An entry is refused by itself exactly if it shows an immediate destination. -/
theorem innocent_statement {entry : Entry} :
    Innocent entry.statement ↔ ∀ opcode operands, entry = .command opcode operands →
      ¬ HasImmediateDestination opcode operands := by
  cases entry with
  | data word => exact ⟨fun _ _ _ h => absurd h (by simp), fun _ => trivial⟩
  | command opcode operands =>
    rw [Entry.statement, innocent_operandOf]
    constructor
    · intro h opcode' operands' heq
      obtain ⟨rfl, rfl⟩ := Entry.command.inj heq
      exact h
    · intro h
      exact h opcode operands rfl

/-! ## The words of the source -/

/-- The statements of entries in a scope. -/
def entryScript (scope : List Char) (entries : List (Nat × Entry)) : Script :=
  entries.map fun entry => (scope, entry.2.statement)

section Script

variable (scope : List Char) (entries : List (Nat × Entry))

/-- A listing defines no label. -/
theorem labelsOf_entryScript : labelsOf (entryScript scope entries) = [] := by
  rw [labelsOf, List.filterMap_eq_nil_iff]
  intro entry hentry
  obtain ⟨shown, -, rfl⟩ := List.mem_map.mp hentry
  cases hshown : shown.2 <;> simp [Entry.statement, definition?]

/-- A listing refers to no label. -/
theorem referencesOf_entryScript : referencesOf (entryScript scope entries) = [] := by
  rw [referencesOf, List.flatMap_eq_nil_iff]
  intro entry hentry
  obtain ⟨shown, -, rfl⟩ := List.mem_map.mp hentry
  rw [List.filterMap_eq_nil_iff]
  intro value hvalue
  obtain ⟨word, rfl⟩ := exists_of_mem_values hvalue
  exact reference?_toString scope word

/-- The layout of a listing is the words its entries show. -/
theorem layout_entryScript :
    layout (entryScript scope entries) = entries.flatMap fun entry => entry.2.words := by
  have hwords : ∀ script, (entryScript scope entries).flatMap (fun entry =>
      entry.2.head ++ entry.2.values.map (valueWord script entry.1)) =
        entries.flatMap fun entry => entry.2.words := by
    intro script
    rw [entryScript, List.flatMap_map]
    simp only [words_statement]
  exact hwords _

/-- No number of the entries has too many digits to be read. -/
def EntriesFit : Prop :=
  ∀ entry ∈ entries, ∀ value ∈ entry.2.statement.values, digitCount value ≤ digitLimit

variable {entries}

/-- A listing is readable if its numbers are. -/
theorem readable_entryScript (hfit : EntriesFit entries) : Readable (entryScript scope entries) := by
  intro entry hentry value hvalue
  obtain ⟨shown, hmem, rfl⟩ := List.mem_map.mp hentry
  have hdigits := hfit shown hmem value hvalue
  obtain ⟨word, rfl⟩ := exists_of_mem_values hvalue
  rw [isOverlong_of_isNumeral (isNumeral_toString word)]
  exact decide_eq_false (Nat.not_lt.mpr hdigits)

/-- No statement is at fault just if no command writes to a value. -/
theorem firstOffence?_entryScript (hfit : EntriesFit entries) :
    firstOffence? [] (entryScript scope entries) = none ↔
      ∀ address opcode operands, (address, Entry.command opcode operands) ∈ entries →
        ¬ HasImmediateDestination opcode operands := by
  have hlabels := labelsOf_entryScript scope entries
  rw [firstOffence?_eq_none_iff, hlabels]
  constructor
  · rintro ⟨hinnocent, -⟩ address opcode operands hmem
    have hentry := hinnocent _ (List.mem_map_of_mem hmem)
    exact innocent_statement.mp hentry opcode operands rfl
  · intro h
    refine ⟨?_, readable_entryScript scope hfit, List.nodup_nil, List.forall_mem_nil _⟩
    intro entry hentry
    obtain ⟨⟨address, shown⟩, hmem, rfl⟩ := List.mem_map.mp hentry
    apply innocent_statement.mpr
    rintro opcode operands rfl
    exact h address opcode operands hmem

/-- The fault of entries is that a command writes to a value. -/
theorem fault_entryScript (hfit : EntriesFit entries) {fault : Fault}
    (h : firstOffence? [] (entryScript scope entries) = some fault) :
    ∃ opcode place, fault = .immediateDestination opcode place := by
  obtain ⟨entry, hentry, earlier, hoffence⟩ := exists_offence?_of_firstOffence? h
  have hreadable := readable_entryScript scope hfit entry hentry
  obtain ⟨⟨address, shown⟩, -, rfl⟩ := List.mem_map.mp hentry
  have hoffends := offends_of_offence? hoffence
  generalize hstatement : shown.statement = statement at hoffends hreadable
  cases hoffends with
  | destination opcode operands place => exact ⟨opcode, place, rfl⟩
  | overlong hvalue hmany =>
    rw [hreadable _ hvalue] at hmany
    exact absurd hmany (by decide)
  | redefined name => cases shown <;> exact absurd hstatement (by simp [Entry.statement])
  | unknown text => cases shown <;> exact absurd hstatement (by simp [Entry.statement])

end Script

/-- The source of a listing is assembled to the words shown, or refused with its first fault. -/
theorem result_sourceText (name : String) (words : List Int) :
    (assembleText name (sourceText words)).result =
      match firstOffence? [] (entryScript name.toList (entries words)) with
      | some fault => .error fault
      | none => .ok (shownWords words) := by
  have hscript : scriptOf [⟨none, name, sourceText words⟩] =
      entryScript name.toList (entries words) := by
    rw [scriptOf, List.flatMap_singleton, parse_sourceText, List.map_map]
    rfl
  have hundefined : undefined? (entryScript name.toList (entries words)) = none := by
    rw [undefined?, referencesOf_entryScript]
    rfl
  rw [assembleText, result_eq_encode, hscript, encode, hundefined, layout_entryScript]
  cases firstOffence? [] (entryScript name.toList (entries words)) <;> rfl

/-- Some instruction of the listing writes to a value. -/
def ListsImmediateDestination (words : List Int) : Prop :=
  ∃ address opcode operands, (address, Entry.command opcode operands) ∈ entries words ∧
    HasImmediateDestination opcode operands

/-- No number that the listing shows has too many digits to be read. -/
abbrev ListsFit (words : List Int) : Prop := EntriesFit (entries words)

/-- A listing whose numbers can be read has a fault exactly if it lists an immediate destination. -/
theorem firstOffence?_eq_none_iff_lists (scope : List Char) {words : List Int}
    (hfit : ListsFit words) :
    firstOffence? [] (entryScript scope (entries words)) = none ↔
      ¬ ListsImmediateDestination words := by
  rw [firstOffence?_entryScript scope hfit]
  constructor
  · rintro h ⟨address, opcode, operands, hmem, hdestination⟩
    exact h address opcode operands hmem hdestination
  · intro h address opcode operands hmem hdestination
    exact h ⟨address, opcode, operands, hmem, hdestination⟩

/-- Where nothing is written to a value, the words shown are the words assembled. -/
theorem result_of_not_lists (name : String) {words : List Int} (hfit : ListsFit words)
    (h : ¬ ListsImmediateDestination words) :
    (assembleText name (sourceText words)).result = .ok (shownWords words) := by
  rw [result_sourceText, (firstOffence?_eq_none_iff_lists name.toList hfit).mpr h]

/-- Where a value is written to, that is the fault. -/
theorem result_of_lists (name : String) {words : List Int} (hfit : ListsFit words)
    (h : ListsImmediateDestination words) :
    ∃ opcode place, (assembleText name (sourceText words)).result =
      .error (.immediateDestination opcode place) := by
  rw [result_sourceText]
  cases hfirst : firstOffence? [] (entryScript name.toList (entries words)) with
  | none => exact absurd h ((firstOffence?_eq_none_iff_lists name.toList hfit).mp hfirst)
  | some fault =>
    obtain ⟨opcode, place, rfl⟩ := fault_entryScript _ hfit hfirst
    exact ⟨opcode, place, rfl⟩

/-- A listing covers every address once.  Without its addresses it is assembled again, if no number
in it has too many digits to be read: to the words it was made of just if every listed instruction
has an opcode word without further digits and writes to no value.  If one writes to a value, that is
the fault, and otherwise just the further digits are lost. -/
theorem reassembly (name : String) (words : List Int) :
    (ListsFit words →
      ((assembleText name (sourceText words)).result = .ok words ↔
        ∀ address opcode operands, (address, Entry.command opcode operands) ∈ entries words →
          words[address]? = some (plainWord opcode operands) ∧
            ¬ HasImmediateDestination opcode operands) ∧
      (ListsImmediateDestination words → ∃ opcode place,
        (assembleText name (sourceText words)).result =
          .error (.immediateDestination opcode place)) ∧
      (¬ ListsImmediateDestination words →
        ∃ restored, (assembleText name (sourceText words)).result = .ok restored ∧
          restored.length = words.length ∧
          (∀ address, restored[address]? ≠ words[address]? ↔
            ∃ opcode operands word, (address, Entry.command opcode operands) ∈ entries words ∧
              words[address]? = some word ∧ word / 10 ^ (opcode.operands + 2) ≠ 0) ∧
          ∀ address opcode operands word, (address, Entry.command opcode operands) ∈ entries words →
            words[address]? = some word →
              restored[address]? = some (word % 10 ^ (opcode.operands + 2)))) ∧
    (entries words).flatMap (fun entry => List.range' entry.1 entry.2.size) =
      List.range words.length := by
  constructor
  · intro hfit
    refine ⟨⟨?_, ?_⟩, result_of_lists name hfit, ?_⟩
    · intro hsame address opcode operands hmem
      -- words that come back were not refused
      have hlists : ¬ ListsImmediateDestination words := by
        intro hlists
        obtain ⟨opcode, place, hfault⟩ := result_of_lists name hfit hlists
        rw [hsame] at hfault
        exact absurd hfault (by simp)
      rw [result_of_not_lists name hfit hlists] at hsame
      refine ⟨shownWords_eq_iff.mp (Except.ok.inj hsame) address opcode operands hmem, ?_⟩
      intro hdestination
      exact hlists ⟨address, opcode, operands, hmem, hdestination⟩
    · intro hplain
      have hlists : ¬ ListsImmediateDestination words := by
        rintro ⟨address, opcode, operands, hmem, hdestination⟩
        exact (hplain address opcode operands hmem).2 hdestination
      have hshown : shownWords words = words :=
        shownWords_eq_iff.mpr fun address opcode operands hmem =>
          (hplain address opcode operands hmem).1
      rw [result_of_not_lists name hfit hlists, hshown]
    · intro hlists
      refine ⟨shownWords words, result_of_not_lists name hfit hlists, length_shownWords words,
        ?_, ?_⟩
      · intro address
        exact getElem?_shownWords_ne_iff
      · intro address opcode operands word hmem hword
        exact getElem?_shownWords_eq_emod hmem hword
  · have hcovers := covers_entriesFrom 0 words
    rw [← List.range_eq_range'] at hcovers
    exact hcovers

/-- A halt with a further digit comes back without it. -/
theorem reassembly_further_digit :
    ∃ restored, (assembleText "main" (sourceText [199, -3])).result = .ok restored ∧
      restored.length = 2 ∧ restored[0]? = some 99 := by
  have hentries : entries [199, -3] = [(0, .command .halt []), (1, .data (-3))] := by cbv
  have hlists : ¬ ListsImmediateDestination [199, -3] := by
    rintro ⟨address, opcode, operands, hmem, k, word, hk, -⟩
    obtain ⟨-, rfl, -⟩ : address = 0 ∧ opcode = .halt ∧ operands = [] := by
      simpa [hentries] using hmem
    exact absurd hk (by simp [Opcode.destination?])
  have hfit : ListsFit [199, -3] := by
    rw [ListsFit, hentries, EntriesFit]
    decide
  obtain ⟨restored, hresult, hlength, -, hdigits⟩ := ((reassembly "main" [199, -3]).1 hfit).2.2 hlists
  have hhalt : (0, .command .halt []) ∈ entries [199, -3] := by
    rw [hentries]
    exact List.mem_cons_self
  exact ⟨restored, hresult, hlength, hdigits 0 .halt [] 199 hhalt rfl⟩

end IntegerMachine.Program
