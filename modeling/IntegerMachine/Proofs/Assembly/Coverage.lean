import IntegerMachine.Proofs.Assembly.Bookkeeping
import IntegerMachine.Proofs.Assembly.Reading

/-!
# Any text at all

Reading has no way to fail: what is no statement becomes one that is refused.  `Covers` says of the
statements of a text where each of them stands, and `parse_eq_iff_covers` that nothing but blanks
and comments is left over.  Since all that is laid out was read, of the faults that drafting knows
only those of statements are ever met, and that of a number of too many digits
(`assemble_any_text`).
-/

set_option autoImplicit false

namespace IntegerMachine.Assembly

open Text

/-! ## The whole text -/

/-- Statements cover a text free of tabs, which may be glued to a word in front of it: they stand in
it in order, with blanks and comments between them.  A text that begins neither with one of these
nor with a known statement is covered up to the end of its line by a statement that is unknown. -/
inductive Covers : Bool → List Statement → List Char → Prop
  | nil (glued : Bool) : Covers glued [] []
  | blank (glued : Bool) {statements : List Statement} {c : Char} {text : List Char}
      (hblank : isBlank c = true) (h : Covers false statements text) :
    Covers glued statements (c :: text)
  | comment (glued : Bool) {statements : List Statement} {body text : List Char}
      (hbody : '\n' ∉ body) (hend : ∀ c ∈ text.head?, c = '\n')
      (h : Covers false statements text) :
    Covers glued statements ('/' :: '/' :: (body ++ text))
  | known {glued : Bool} {statement : Statement} {statements : List Statement}
      {body rest : List Char} (hproper : statement.IsProper)
      (hbody : Written false statement.tokens body)
      (hscan : scanKnown? glued (body ++ rest) = some (statement, rest))
      (h : Covers statement.endsInWord statements rest) :
    Covers glued (statement :: statements) (body ++ rest)
  | unknown {glued : Bool} {c : Char} {statements : List Statement} {line rest : List Char}
      (hink : isBlank c = false) (hcomment : ∀ tail, c = '/' → line ++ rest ≠ '/' :: tail)
      (hscan : scanKnown? glued (c :: (line ++ rest)) = none) (hline : '\n' ∉ line)
      (hend : ∀ d ∈ rest.head?, d = '\n') (h : Covers false statements rest) :
    Covers glued (.unknown (c :: line) :: statements) (c :: (line ++ rest))

/-- Blanks in front of a text change nothing in how statements cover it, but for what they separate.
-/
theorem Covers.of_skipBlanks {glued : Bool} {statements : List Statement} {text : List Char}
    (h : Covers (glued && !startsBlank text) statements (skipBlanks text)) :
    Covers glued statements text := by
  induction text generalizing glued with
  | nil => simpa [startsBlank, skipBlanks] using h
  | cons c text ih =>
    rw [skipBlanks, List.dropWhile_cons] at h
    have hstarts : startsBlank (c :: text) = isBlank c := rfl
    cases hblank : isBlank c with
    | true =>
      rw [hstarts, hblank, if_pos rfl, Bool.not_true, Bool.and_false] at h
      exact .blank glued hblank (ih h)
    | false =>
      rw [hstarts, hblank, if_neg (by decide), Bool.not_false, Bool.and_true] at h
      exact h

/-- The statements read from a text cover it. -/
theorem covers_statementsFrom (glued : Bool) (text : List Char) :
    Covers glued (statementsFrom glued text) text := by
  -- in the cases of the reading: nothing left, a comment, a statement
  fun_induction statementsFrom glued text with
  | case1 glued text hskip =>
    apply Covers.of_skipBlanks
    rw [hskip]
    exact .nil _
  | case2 glued text rest hskip hlt ih =>
    obtain ⟨line, hsplit, -, hline, hend⟩ := exists_line rest
    have hcover := Covers.comment (glued && !startsBlank text) hline hend ih
    rw [← hsplit] at hcover
    apply Covers.of_skipBlanks
    rw [hskip]
    exact hcover
  | case3 glued text c rest hcomment hskip found hlt ih =>
    apply Covers.of_skipBlanks
    rw [hskip]
    have hfound : found = scanStatement (glued && !startsBlank text) c rest := rfl
    rw [scanStatement] at hfound
    split at hfound
    · rename_i known hknown
      rw [← hfound] at hknown
      obtain ⟨hproper, body, hcut, hbody⟩ := written_of_scanKnown? hknown
      rw [hcut] at hknown ⊢
      exact .known hproper hbody hknown ih
    -- no known statement begins here, and the rest of the line is one that is unknown
    · rename_i hnone
      obtain ⟨line, hsplit, htake, hline, hend⟩ := exists_line rest
      have hink := head_skipBlanks text c (by rw [hskip]; rfl)
      rw [hfound] at ih ⊢
      have hcover : Covers (glued && !startsBlank text) _ (c :: (line ++ skipLine rest)) :=
        .unknown hink (by rw [← hsplit]; exact hcomment) (by rw [← hsplit]; exact hnone) hline
          hend ih
      rw [← hsplit, htake] at hcover
      exact hcover

/-- A text has just one cover. -/
theorem Covers.statementsFrom_eq {glued : Bool} {statements : List Statement} {text : List Char}
    (h : Covers glued statements text) : statementsFrom glued text = statements := by
  induction h with
  | nil glued => exact statementsFrom_of_nil glued rfl
  | blank glued hblank h ih =>
    rw [statementsFrom_blank glued hblank]
    exact ih
  | comment glued hbody hend h ih =>
    rw [statementsFrom_comment glued hbody hend]
    exact ih
  | @known glued statement statements body rest hproper hbody hscan h ih =>
    obtain ⟨c, tail, heq, hink, hslash⟩ := hproper.head_ink hbody rest
    rw [heq] at hscan ⊢
    have hfound : scanStatement glued c tail = (statement, rest) := by
      rw [scanStatement, hscan]
    rw [statementsFrom_of_ink glued hink fun _ h => absurd h hslash, hfound, ih]
  | @unknown glued c statements line rest hink hcomment hscan hline hend h ih =>
    have hfound : scanStatement glued c (line ++ rest) = (.unknown (c :: line), rest) := by
      obtain ⟨htake, hskip⟩ := skipLine_append hline hend
      rw [scanStatement, hscan]
      simp only [htake, hskip]
    rw [statementsFrom_of_ink glued hink hcomment, hfound]
    exact congrArg _ ih

/-- The statements read are the ones that cover the text. -/
theorem parse_eq_iff_covers {statements : List Statement} {text : List Char} :
    parse text = statements ↔ Covers false statements (expandTabs text) := by
  constructor
  · rintro rfl
    exact covers_statementsFrom false (expandTabs text)
  · exact Covers.statementsFrom_eq

/-! ## The faults met -/

/-- The faults that the form of a statement can have. -/
def Fault.IsOfStatement : Fault → Prop
  | unknownCommand _ => True
  | redefinedLabel _ => True
  | immediateDestination _ _ => True
  | _ => False

/-- The fault is that a number of the script has too many digits to be read. -/
def Fault.IsOverlongIn (fault : Fault) (script : Script) : Prop :=
  ∃ entry ∈ script, ∃ value ∈ entry.2.values,
    IsNumeral value ∧ digitLimit < digitCount value ∧ fault = .malformedNumber value

/-- What is overlong is a numeral. -/
theorem IsValue.of_isOverlong {value : List Char} (h : IsValue value)
    (hmany : isOverlong value = true) : IsNumeral value ∧ digitLimit < digitCount value := by
  cases h with
  | numeral hnumeral =>
    rw [isOverlong_of_isNumeral hnumeral] at hmany
    exact ⟨hnumeral, of_decide_eq_true hmany⟩
  | reference name => exact absurd hmany (by simp [isOverlong])

/-- The first fault is one of a statement or of a number. -/
theorem isOfStatement_or_of_firstOffence? {sources : List Source} {fault : Fault}
    (h : firstOffence? [] (scriptOf sources) = some fault) :
    fault.IsOfStatement ∨ fault.IsOverlongIn (scriptOf sources) := by
  obtain ⟨⟨scope, statement⟩, hmem, earlier, hentry⟩ := exists_offence?_of_firstOffence? h
  cases offends_of_offence? hentry with
  | redefined name => exact .inl trivial
  | destination opcode operands place => exact .inl trivial
  | @overlong _ value hvalue hmany =>
    have hwritten := isWritten_of_mem_scriptOf sources _ hmem
    obtain ⟨hnumeral, hdigits⟩ := (hwritten.isValue value hvalue).of_isOverlong hmany
    exact .inr ⟨_, hmem, value, hvalue, hnumeral, hdigits, rfl⟩
  | unknown text => exact .inl trivial

/-- A script without words has a fault of a statement or of a number, or else a reference to no
label. -/
theorem isOfStatement_or_of_encode {sources : List Source} {fault : Fault}
    (h : encode (scriptOf sources) = .error fault) :
    fault.IsOfStatement ∨ (∃ name, fault = .unknownLabel name) ∨
      fault.IsOverlongIn (scriptOf sources) := by
  unfold encode at h
  split at h
  · rename_i found hfirst
    obtain rfl := Except.error.inj h
    rcases isOfStatement_or_of_firstOffence? hfirst with hstatement | hoverlong
    · exact .inl hstatement
    · exact .inr (.inr hoverlong)
  · rename_i name _ _
    exact .inr (.inl ⟨name, (Except.error.inj h).symm⟩)
  · exact absurd h (by simp)

/-- The first pass makes the calls for all statements one after another. -/
theorem reached_addSources (d : Draft) (sources : List Source) :
    (d.addSources sources).reached = (sources.flatMap Source.actions).foldlM Draft.lay d := by
  rw [Draft.addSources, Reply.reached_each]
  induction sources generalizing d with
  | nil => rfl
  | cons source rest ih =>
    have hsource : (d.addSource source).reached = source.actions.foldlM Draft.lay d :=
      d.reached_performAll source.actions
    rw [List.foldlM_cons, List.flatMap_cons, List.foldlM_append, hsource]
    exact congrArg _ (funext ih)

/-- A call that is made fails for the fault of a statement or of a number only. -/
theorem isOfStatement_or_of_perform {sources : List Source} {before after : List Action}
    {action : Action} {d : Draft} {fault : Fault}
    (hsplit : sources.flatMap Source.actions = before ++ action :: after)
    (hbefore : before.foldlM Draft.lay Draft.empty = .ok d)
    (h : (d.perform action).outcome = .error fault) :
    fault.IsOfStatement ∨ fault.IsOverlongIn (scriptOf sources) := by
  have haction : d.lay action = .error fault := by
    rw [Draft.lay, Reply.reached, h]
  -- the pass stops here, so this is the first fault of all
  have hreached : (Draft.empty.addSources sources).reached = .error fault := by
    rw [reached_addSources, hsplit, List.foldlM_append, hbefore, ok_bind, List.foldlM_cons, haction]
    rfl
  have hlays := holds_empty.lays_sources sources
  rw [List.nil_append, hreached] at hlays
  cases hfirst : firstOffence? [] (scriptOf sources) with
  | some found =>
    rw [hfirst] at hlays
    have hsame : Except.error fault = Except.error found := hlays
    exact Except.error.inj hsame ▸ isOfStatement_or_of_firstOffence? hfirst
  | none =>
    rw [hfirst] at hlays
    obtain ⟨_, hok, -⟩ := hlays
    exact absurd hok (by simp)

/-! ## Everything together -/

/-- Assembling makes the calls for the statements of all texts, one after another, and then looks
the labels up; it ends in words, or in the fault of a statement, or in that of a reference to no
label, or in that of a number of the texts that has too many digits.  No call that is made fails in
another way: there is an opcode word for each operand, and every mark, numeral and code is one.  The
statements of a text are those that cover it, with all that begins no comment and no known statement
refused. -/
theorem assemble_any_text (sources : List Source) :
    (assemble sources).result =
        (sources.flatMap Source.actions).foldlM Draft.lay Draft.empty >>= Draft.words ∧
      (∀ fault, (assemble sources).result = .error fault →
        fault.IsOfStatement ∨ (∃ name, fault = .unknownLabel name) ∨
          fault.IsOverlongIn (scriptOf sources)) ∧
      (∀ before action after d,
        sources.flatMap Source.actions = before ++ action :: after →
        before.foldlM Draft.lay Draft.empty = .ok d →
          (∀ fault, (d.perform action).outcome = .error fault →
            fault.IsOfStatement ∨ fault.IsOverlongIn (scriptOf sources)) ∧
          ∀ place, d.opcodePlace = some place → ∃ word, d.items[place]? = some (.word word)) ∧
      ∀ source ∈ sources, ∀ statements, parse source.text.toList = statements ↔
        Covers false statements (expandTabs source.text.toList) := by
  refine ⟨?_, ?_, ?_, ?_⟩
  · rw [result_assemble, reached_addSources]
  · intro fault h
    rw [result_eq_encode] at h
    exact isOfStatement_or_of_encode h
  · intro before action after d hsplit hbefore
    have htallies := Draft.tallies_empty.afterCalls before
    rw [Draft.afterCalls_of_foldlM_lay hbefore] at htallies
    exact ⟨fun fault => isOfStatement_or_of_perform hsplit hbefore,
      fun place hplace => ⟨_, htallies.word_eq place hplace⟩⟩
  · intro source _ statements
    exact parse_eq_iff_covers

/-- A line that is no statement between two that are: it is refused as a whole, when the command in
front of it is laid out. -/
theorem assemble_any_text_refused :
    ∃ d, [Action.enter ['m'], .opcode 4, .operand [['1']]].foldlM Draft.lay Draft.empty = .ok d ∧
      (d.perform (.refuse ["@ 7".toList])).outcome = .error (.unknownCommand "@ 7".toList) ∧
      (Fault.unknownCommand "@ 7".toList).IsOfStatement ∧
      Covers false [.command .output [⟨none, ['1']⟩], .unknown "@ 7".toList,
        .command .output [⟨none, ['2']⟩]] (expandTabs "out 1 // a\n@ 7\nout 2".toList) := by
  let source : Source := ⟨none, "m", "out 1 // a\n@ 7\nout 2"⟩
  obtain ⟨-, -, hcalls, hcovers⟩ := assemble_any_text [source]
  have hparse : parse source.text.toList = [.command .output [⟨none, ['1']⟩],
      .unknown "@ 7".toList, .command .output [⟨none, ['2']⟩]] := by decide +kernel
  have hsplit : [source].flatMap Source.actions =
      [Action.enter ['m'], .opcode 4, .operand [['1']]] ++ .refuse ["@ 7".toList] ::
        [.opcode 4, .operand [['2']]] := by decide +kernel
  obtain ⟨d, hd⟩ : ∃ d, [Action.enter ['m'], .opcode 4, .operand [['1']]].foldlM Draft.lay
      Draft.empty = .ok d := ⟨_, rfl⟩
  obtain ⟨hfault, -⟩ := hcalls _ _ _ d hsplit hd
  have hstatement : (Fault.unknownCommand "@ 7".toList).IsOfStatement := by
    rcases hfault _ rfl with hstatement | ⟨_, _, _, _, _, _, hfault⟩
    · exact hstatement
    · exact absurd hfault (by simp)
  exact ⟨d, hd, rfl, hstatement, (hcovers source List.mem_cons_self _).mp hparse⟩

/-- Data of one number that has too many digits are not assembled, for the fault of that number. -/
theorem result_of_overlong_data (module : String) {numeral : List Char} (h : IsNumeral numeral)
    (hmany : digitLimit < digitCount numeral) :
    (assembleText module (String.ofList (dataWord ++ ' ' :: numeral))).result =
      .error (.malformedNumber numeral) := by
  have hproper : (Statement.data [numeral]).IsProper := by
    refine ⟨by simp, ?_⟩
    intro value hvalue
    rw [List.mem_singleton.mp hvalue]
    exact .numeral h
  have hparse : parse (dataWord ++ ' ' :: numeral) = [.data [numeral]] := by
    have hbehind := behind_bare dataWord (.nil numeral)
    have hrenders := Renders.statement hproper ⟨_, rfl, hbehind⟩ (.nil true)
    rw [List.append_nil, List.append_nil, List.singleton_append] at hrenders
    exact parse_eq_of_renders hrenders
  have hoverlong : isOverlong numeral = true := by
    rw [isOverlong_of_isNumeral h]
    exact decide_eq_true hmany
  have hscript : scriptOf [⟨none, module, String.ofList (dataWord ++ ' ' :: numeral)⟩] =
      [(module.toList, .data [numeral])] := by
    rw [scriptOf, List.flatMap_singleton, String.toList_ofList, hparse]
    rfl
  rw [assembleText, result_eq_encode, hscript]
  simp only [encode, firstOffence?, offence?, List.findSome?_cons, valueOffence?, hoverlong]
  rfl

/-- One digit more than may be read, as data: no statement is at fault, and yet there are no
words. -/
theorem not_words_or_fault_of_overlong :
    let text := String.ofList (dataWord ++ ' ' :: List.replicate 4301 '1')
    (∀ words, (assembleText "main" text).result ≠ .ok words) ∧
      ∀ fault, (assembleText "main" text).result = .error fault →
        ¬ (fault.IsOfStatement ∨ ∃ name, fault = .unknownLabel name) := by
  intro text
  obtain ⟨hnumeral, hcount⟩ := isNumeral_ones (n := 4301) (by decide)
  have hmany : digitLimit < digitCount (List.replicate 4301 '1') := by
    rw [hcount]
    decide
  have hresult := result_of_overlong_data "main" hnumeral hmany
  refine ⟨?_, ?_⟩
  · intro words h
    exact nomatch hresult.symm.trans h
  · intro fault h
    obtain rfl := Except.error.inj (hresult.symm.trans h)
    rintro (hstatement | ⟨name, hname⟩)
    · exact hstatement
    · exact nomatch hname

end IntegerMachine.Assembly
