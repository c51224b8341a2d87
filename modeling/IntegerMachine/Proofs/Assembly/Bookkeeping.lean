import IntegerMachine.Proofs.Assembly.Layout
import IntegerMachine.Proofs.Program.Listing
import IntegerMachine.Proofs.Word

/-!
# Drafts under any calls

The calls on a draft are not only those that a source leads to: operands come behind data, labels
within commands, operands beyond those of the opcode, and calls go on after one that failed.  What
was called is told by a transcript, the calls with their outcomes; from it alone `modesMet` reads
the modes that the last opcode word has to show.  `Performs` says once what each call can do, and
what follows of calls is read off it: `Tallies` is the invariant that every call keeps, and `Leaves`
says what a call that fails leaves behind.
-/

set_option autoImplicit false

namespace IntegerMachine.Assembly

open Text

/-- A name is looked up behind others where they have no such name. -/
theorem lookup_concat_eq_some {labels : List (List Char × Nat)} {label name : List Char}
    {place found : Nat} :
    (labels ++ [(label, place)]).lookup name = some found ↔
      labels.lookup name = some found ∨
        labels.lookup name = none ∧ label = name ∧ place = found := by
  rw [List.lookup_append, Option.or_eq_some_iff, List.lookup_cons, List.lookup_nil]
  by_cases hname : name = label
  · subst hname
    simp
  · simp [beq_false_of_ne hname, Ne.symm hname]

/-! ## Single calls -/

/-- The mode and the value that the tokens of an operand stand for. -/
def operand? : List (List Char) → Option (Mode × List Char)
  | [] => none
  | [mark, value] => (Draft.modeOfMark? mark).map fun mode => (mode, value)
  | value :: _ => some (.position, value)

namespace Draft

/-- The item that a value stands for, if it is well formed. -/
def item? (d : Draft) : List Char → Option Item
  | '&' :: name => some (.reference (d.resolve name))
  | text => (integerValue? text).map .word

/-- A value is laid out if it is well formed, and refused otherwise. -/
theorem putValue_cases (d : Draft) (text : List Char) :
    (∃ item log, d.item? text = some item ∧ d.putValue text = ⟨.ok (), d.put item, log⟩) ∨
    d.item? text = none ∧ d.putValue text = ⟨.error (.malformedNumber text), d, #[]⟩ := by
  by_cases href : ∃ name, text = '&' :: name
  · obtain ⟨name, rfl⟩ := href
    exact .inl ⟨_, _, rfl, rfl⟩
  · have hitem : d.item? text = (integerValue? text).map .word := by
      unfold item?
      split
      · exact absurd ⟨_, rfl⟩ href
      · rfl
    unfold putValue
    split
    · exact absurd ⟨_, rfl⟩ href
    · rw [hitem]
      cases integerValue? text with
      | none => exact .inr ⟨rfl, rfl⟩
      | some value => exact .inl ⟨_, _, rfl, rfl⟩

/-- A marked operand fails and leaves the draft as it was, for another reason than a malformed
number, or it counts its mode in the latest opcode and goes on with the value. -/
theorem putMarked_cases (d : Draft) (mark value : List Char) :
    (∃ fault, (∀ text, fault ≠ .malformedNumber text) ∧
      d.putMarked mark value = ⟨.error fault, d, #[]⟩) ∨
    ∃ mode place, modeOfMark? mark = some mode ∧ d.opcodePlace = some place ∧
      d.putMarked mark value = (d.addOperand place mode).putValue value := by
  unfold putMarked
  cases hmode : modeOfMark? mark with
  | none => exact .inl ⟨_, by simp, rfl⟩
  | some mode =>
    simp only
    split
    · exact .inl ⟨_, by simp, rfl⟩
    · cases hplace : d.opcodePlace with
      | none => exact .inl ⟨_, by simp, rfl⟩
      | some place => exact .inr ⟨mode, place, rfl, rfl, rfl⟩

/-- An operand is refused, with the draft as it was, or past its checks: its mode is then counted
before its value is laid out. -/
theorem putOperand_cases (d : Draft) (tokens : List (List Char)) :
    (∃ fault, (∀ text, fault ≠ .malformedNumber text) ∧
      d.putOperand tokens = ⟨.error fault, d, #[]⟩) ∨
    ∃ mode value place, operand? tokens = some (mode, value) ∧ d.opcodePlace = some place ∧
      d.putOperand tokens = (d.addOperand place mode).putValue value := by
  match tokens with
  | [] => exact .inl ⟨.missingToken, by simp, rfl⟩
  | [mark, value] =>
    refine (d.putMarked_cases mark value).imp_right ?_
    rintro ⟨mode, place, hmode, hplace, hput⟩
    exact ⟨mode, value, place, congrArg (Option.map _) hmode, hplace, hput⟩
  | [value] | value :: _ :: _ :: _ =>
    refine (d.putMarked_cases [] value).imp_right ?_
    rintro ⟨mode, place, hmode, hplace, hput⟩
    obtain rfl := Option.some.inj hmode
    exact ⟨_, value, place, rfl, hplace, hput⟩

/-- Data is laid out up to the first value that is malformed. -/
theorem putData_cases (d : Draft) (values : List (List Char)) :
    (∃ items log, values.map d.item? = items.map some ∧
      d.putData values = ⟨.ok (), d.putAll items, log⟩) ∨
    ∃ before text later items log, values = before ++ text :: later ∧
      before.map d.item? = items.map some ∧ d.item? text = none ∧
      d.putData values = ⟨.error (.malformedNumber text), d.putAll items, log⟩ := by
  -- on the values, with the draft each of them finds
  induction values generalizing d with
  | nil => exact .inl ⟨[], #[], rfl, by rw [putAll_nil]; rfl⟩
  | cons value rest ih =>
    rcases d.putValue_cases value with ⟨item, log, hitem, hput⟩ | ⟨hnone, hput⟩
    · have hdata : d.putData (value :: rest) = ((d.put item).putData rest).withLog log := by
        simp only [putData, Reply.each, hput, Reply.withLog]
      -- the values behind are read in the same scope
      have hsame : (d.put item).item? = d.item? := rfl
      have hitems (items : List Item) : (d.put item).putAll items = d.putAll (item :: items) := by
        rw [put_eq_putAll, putAll_putAll, List.singleton_append]
      have hrest := ih (d.put item)
      rw [hsame] at hrest
      rw [hdata]
      rcases hrest with ⟨items, lines, hvalues, hrest⟩ |
          ⟨before, text, later, items, lines, rfl, hvalues, hnone, hrest⟩
      · refine .inl ⟨item :: items, log ++ lines, ?_, ?_⟩
        · rw [List.map_cons, List.map_cons, hitem, hvalues]
        · rw [hrest, hitems, Reply.withLog]
      · refine .inr ⟨value :: before, text, later, item :: items, log ++ lines, rfl, ?_, hnone, ?_⟩
        · rw [List.map_cons, List.map_cons, hitem, hvalues]
        · rw [hrest, hitems, Reply.withLog]
    · refine .inr ⟨[], value, rest, [], #[], rfl, rfl, hnone, ?_⟩
      simp only [putData, Reply.each, hput, putAll_nil]

/-- A new label is set unless there is one of its name. -/
theorem putLabel_cases (d : Draft) (tokens : List (List Char)) :
    (∃ fault, d.putLabel tokens = ⟨.error fault, d, #[]⟩ ∧
      ∀ token rest, tokens = token :: rest →
        d.labels.lookup (qualified d.scope token) ≠ none) ∨
    ∃ token rest log, tokens = token :: rest ∧
      d.labels.lookup (qualified d.scope token) = none ∧
      d.putLabel tokens =
        ⟨.ok (), { d with labels := d.labels ++ [(qualified d.scope token, d.place)] }, log⟩ := by
  cases tokens with
  | nil => exact .inl ⟨.missingToken, rfl, by simp⟩
  | cons token rest =>
    unfold putLabel
    simp only
    split
    · rename_i hknown
      refine .inl ⟨_, rfl, ?_⟩
      rintro _ _ ⟨⟩ hnone
      rw [hnone] at hknown
      exact absurd hknown (by decide)
    · rename_i hnew
      exact .inr ⟨token, rest, _, rfl, Option.not_isSome_iff_eq_none.mp hnew, rfl⟩

/-- What a call does to a draft, and how it ends. -/
inductive Performs (d : Draft) : Action → Except Fault Unit → Draft → Prop
  | enter (scope : List Char) : Performs d (.enter scope) (.ok ()) (d.enter scope)
  | word (value : Int) : Performs d (.word value) (.ok ()) (d.putWord value)
  | reference (name : List Char) :
      Performs d (.reference name) (.ok ()) (d.put (.reference (d.resolve name)))
  | value {text : List Char} {item : Item} (hitem : d.item? text = some item) :
      Performs d (.value text) (.ok ()) (d.put item)
  | opcode {code : Int} {opcode : Opcode} (hcode : Opcode.ofCode? code = some opcode) :
      Performs d (.opcode code) (.ok ())
        ({ d with opcodePlace := some d.items.size, opcode, operandCount := 0 }.putWord code)
  | operand {tokens : List (List Char)} {mode : Mode} {value : List Char} {place : Nat}
      {item : Item} (htokens : operand? tokens = some (mode, value))
      (hplace : d.opcodePlace = some place) (hitem : d.item? value = some item) :
      Performs d (.operand tokens) (.ok ()) ((d.addOperand place mode).put item)
  /-- The mode of the operand is counted before its value is read. -/
  | malformedOperand {tokens : List (List Char)} {mode : Mode} {value : List Char} {place : Nat}
      (htokens : operand? tokens = some (mode, value)) (hplace : d.opcodePlace = some place)
      (hvalue : d.item? value = none) :
      Performs d (.operand tokens) (.error (.malformedNumber value)) (d.addOperand place mode)
  | data {values : List (List Char)} {items : List Item}
      (hitems : values.map d.item? = items.map some) :
      Performs d (.data values) (.ok ()) (d.putAll items)
  | malformedData {before later : List (List Char)} {text : List Char} {items : List Item}
      (hbefore : before.map d.item? = items.map some) (htext : d.item? text = none) :
      Performs d (.data (before ++ text :: later)) (.error (.malformedNumber text)) (d.putAll items)
  | label {token : List Char} {rest : List (List Char)}
      (hnew : d.labels.lookup (qualified d.scope token) = none) :
      Performs d (.label (token :: rest)) (.ok ())
        { d with labels := d.labels ++ [(qualified d.scope token, d.place)] }
  /-- Every other failure comes before anything is done. -/
  | refused {call : Action} {fault : Fault}
      (hoperand : ∀ tokens text, call = .operand tokens → fault ≠ .malformedNumber text)
      (hdata : ∀ values, call ≠ .data values)
      (hlabel : ∀ token rest, call = .label (token :: rest) →
        d.labels.lookup (qualified d.scope token) ≠ none) :
      Performs d call (.error fault) d

/-- Every call ends and does what it should. -/
theorem performs (d : Draft) (call : Action) :
    d.Performs call (d.perform call).outcome (d.perform call).after := by
  cases call with
  | enter scope => exact .enter scope
  | word value => exact .word value
  | reference name => exact .reference name
  | value text =>
    rw [perform]
    rcases d.putValue_cases text with ⟨item, log, hitem, hput⟩ | ⟨-, hput⟩
    · rw [hput]
      exact .value hitem
    · rw [hput]
      exact .refused (by simp) (by simp) (by simp)
  | opcode code =>
    rw [perform, putOpcode]
    cases hcode : Opcode.ofCode? code with
    | none => exact .refused (by simp) (by simp) (by simp)
    | some opcode => exact .opcode hcode
  | operand tokens =>
    rw [perform]
    rcases d.putOperand_cases tokens with ⟨fault, hfault, hput⟩ |
        ⟨mode, value, place, htokens, hplace, hput⟩
    · rw [hput]
      exact .refused (fun _ text _ => hfault text) (by simp) (by simp)
    · rw [hput]
      rcases (d.addOperand place mode).putValue_cases value with
        ⟨item, log, hitem, hvalue⟩ | ⟨hnone, hvalue⟩
      · rw [hvalue]
        exact .operand htokens hplace hitem
      · rw [hvalue]
        exact .malformedOperand htokens hplace hnone
  | data values =>
    rw [perform]
    rcases d.putData_cases values with ⟨items, log, hitems, hput⟩ |
        ⟨before, text, later, items, log, rfl, hbefore, htext, hput⟩
    · rw [hput]
      exact .data hitems
    · rw [hput]
      exact .malformedData hbefore htext
  | label tokens =>
    rw [perform]
    rcases d.putLabel_cases tokens with ⟨fault, hput, hknown⟩ | ⟨token, rest, log, rfl, hnew, hput⟩
    · rw [hput]
      refine .refused (by simp) (by simp) ?_
      rintro token rest ⟨⟩
      exact hknown token rest rfl
    · rw [hput]
      exact .label hnew
  | refuse tokens =>
    cases tokens with
    | nil => exact .refused (by simp) (by simp) (by simp)
    | cons text rest => exact .refused (by simp) (by simp) (by simp)

/-! ## Calls that fail -/

/-- What a call that fails leaves. -/
inductive Leaves (d : Draft) : Action → Fault → Draft → Prop
  /-- The draft as it was. -/
  | same {call : Action} {fault : Fault}
      (hoperand : ∀ tokens text, call = .operand tokens → fault ≠ .malformedNumber text)
      (hdata : ∀ values, call ≠ .data values) : Leaves d call fault d
  /-- The digit of the mode is added to the opcode word, and the operand is counted. -/
  | operand {tokens : List (List Char)} {mode : Mode} {value : List Char} {place : Nat} {word : Int}
      (htokens : operand? tokens = some (mode, value)) (hvalue : d.item? value = none)
      (hplace : d.opcodePlace = some place) (hword : d.items[place]? = some (.word word)) :
      Leaves d (.operand tokens) (.malformedNumber value)
        { d with
          items := d.items.setIfInBounds place
            (.word (word + mode.digit * 10 ^ (d.operandCount + 2)))
          operandCount := d.operandCount + 1 }
  /-- The values in front of the malformed one are laid out. -/
  | data {before later : List (List Char)} {text : List Char} {items : List Item}
      (hbefore : before.map d.item? = items.map some) (htext : d.item? text = none) :
      Leaves d (.data (before ++ text :: later)) (.malformedNumber text) (d.putAll items)

/-- An operand that is counted changes its opcode word. -/
theorem addOperand_eq {d : Draft} {place : Nat} {word : Int}
    (hword : d.items[place]? = some (.word word)) (mode : Mode) :
    d.addOperand place mode =
      { d with
        items := d.items.setIfInBounds place
          (.word (word + mode.digit * 10 ^ (d.operandCount + 2)))
        operandCount := d.operandCount + 1 } := by
  have hitems : d.items.modify place (addMode mode d.operandCount) =
      d.items.setIfInBounds place (.word (word + mode.digit * 10 ^ (d.operandCount + 2))) := by
    apply Array.ext_getElem?
    intro k
    rw [Array.getElem?_modify, Array.getElem?_setIfInBounds]
    by_cases hk : place = k
    · subst hk
      obtain ⟨hlt, -⟩ := Array.getElem?_eq_some_iff.mp hword
      rw [if_pos rfl, if_pos rfl, if_pos hlt, hword]
      rfl
    · rw [if_neg hk, if_neg hk]
  rw [addOperand, hitems]

/-- A call that fails leaves the draft as its kind of failure leaves it, where the latest opcode is
a word to add modes to. -/
theorem leaves_of_error {d : Draft} {call : Action} {fault : Fault}
    (hpoints : ∀ place, d.opcodePlace = some place → ∃ word, d.items[place]? = some (.word word))
    (h : (d.perform call).outcome = .error fault) : d.Leaves call fault (d.perform call).after := by
  have hperforms := d.performs call
  rw [h] at hperforms
  generalize (d.perform call).after = after at hperforms ⊢
  cases hperforms with
  | malformedOperand htokens hplace hvalue =>
    obtain ⟨word, hword⟩ := hpoints _ hplace
    rw [addOperand_eq hword]
    exact .operand htokens hvalue hplace hword
  | malformedData hbefore htext => exact .data hbefore htext
  | refused hoperand hdata _ => exact .same hoperand hdata

end Draft

/-! ## Calls one after another -/

/-- Whether an operand with the outcome was past its checks: its value may still be malformed. -/
def isPastChecks : Except Fault Unit → Bool
  | .ok () | .error (.malformedNumber _) => true
  | .error _ => false

/-- The modes that the last opcode word has to show after one more call.  An opcode begins anew, and
an operand past its checks adds its mode. -/
def meet (modes : List Mode) : Action × Except Fault Unit → List Mode
  | (.opcode _, .ok ()) => []
  | (.operand tokens, outcome) =>
    if isPastChecks outcome then modes ++ ((operand? tokens).map Prod.fst).toList else modes
  | _ => modes

/-- No mode is met in a call that is refused by its checks. -/
theorem meet_error (modes : List Mode) {call : Action} {fault : Fault}
    (h : ∀ tokens text, call = .operand tokens → fault ≠ .malformedNumber text) :
    meet modes (call, .error fault) = modes := by
  cases call with
  | operand tokens =>
    cases fault with
    | malformedNumber text => exact absurd rfl (h tokens text rfl)
    | _ => rfl
  | _ => rfl

/-- The modes of the operands past their checks since the last opcode, by the calls and their
outcomes. -/
def modesMet (calls : List (Action × Except Fault Unit)) : List Mode :=
  calls.foldl meet []

namespace Draft

/-- The draft after calls, each of which is made whether or not the one before failed. -/
def afterCalls (d : Draft) (calls : List Action) : Draft :=
  calls.foldl (fun d call => (d.perform call).after) d

/-- Calls with their outcomes. -/
def transcript (d : Draft) : List Action → List (Action × Except Fault Unit)
  | [] => []
  | call :: rest => (call, (d.perform call).outcome) :: (d.perform call).after.transcript rest

/-- Calls in two lists are those of the first and then those of the second. -/
theorem afterCalls_append (d : Draft) (first second : List Action) :
    d.afterCalls (first ++ second) = (d.afterCalls first).afterCalls second :=
  List.foldl_append

/-- The last call is made in the draft that the calls before it left. -/
theorem afterCalls_concat (d : Draft) (calls : List Action) (call : Action) :
    d.afterCalls (calls ++ [call]) = ((d.afterCalls calls).perform call).after :=
  d.afterCalls_append calls [call]

/-- Actions that all succeed leave what they leave as calls. -/
theorem afterCalls_of_foldlM_lay {d last : Draft} {actions : List Action}
    (h : actions.foldlM lay d = .ok last) : d.afterCalls actions = last := by
  induction actions generalizing d with
  | nil => exact Except.ok.inj h
  | cons action rest ih =>
    rw [List.foldlM_cons] at h
    obtain ⟨next, hnext, hrest⟩ := bind_eq_ok.mp h
    obtain ⟨-, rfl⟩ := Reply.reached_eq_ok.mp hnext
    exact ih hrest

/-! ### Counting -/

/-- The counts of a draft agree with what is laid out, where the last opcode word shows modes. -/
structure Tallies (d : Draft) (modes : List Mode) : Prop where
  place_eq : d.place = d.items.size
  count_eq : d.operandCount = modes.length
  word_eq : ∀ place, d.opcodePlace = some place →
    d.items[place]? = some (.word (Word.compose d.opcode.code (modes.map Mode.digit)))
  label_le : ∀ name place, d.labels.lookup name = some place → place ≤ d.place

namespace Tallies

variable {d : Draft} {modes : List Mode}

/-- Items put behind the others keep the counts in step. -/
theorem putAll (h : d.Tallies modes) (items : List Item) : (d.putAll items).Tallies modes where
  place_eq := by simp [Draft.putAll, h.place_eq]
  count_eq := h.count_eq
  word_eq := by
    intro place hplace
    have hword := h.word_eq place hplace
    obtain ⟨hlt, -⟩ := Array.getElem?_eq_some_iff.mp hword
    exact (Array.getElem?_append_left hlt).trans hword
  label_le name place hlookup := Nat.le_add_right_of_le (h.label_le name place hlookup)

/-- An item put behind the others keeps the counts in step. -/
theorem put (h : d.Tallies modes) (item : Item) : (d.put item).Tallies modes :=
  put_eq_putAll d item ▸ h.putAll [item]

/-- The word takes the digit of one more operand. -/
theorem addOperand (h : d.Tallies modes) {place : Nat} (hplace : d.opcodePlace = some place)
    (mode : Mode) : (d.addOperand place mode).Tallies (modes ++ [mode]) where
  place_eq := by simp [Draft.addOperand, h.place_eq]
  count_eq := by simp [Draft.addOperand, h.count_eq]
  word_eq := by
    intro target htarget
    obtain rfl := Option.some.inj (hplace.symm.trans htarget)
    have hadded : addMode mode d.operandCount
        (.word (Word.compose d.opcode.code (modes.map Mode.digit))) =
          .word (Word.compose d.opcode.code ((modes ++ [mode]).map Mode.digit)) := by
      rw [addMode, Program.place_eq, List.map_append, List.map_singleton, Word.compose_concat,
        List.length_map, h.count_eq]
    rw [Draft.addOperand, Array.getElem?_modify, if_pos rfl, h.word_eq place hplace,
      Option.map_some, hadded]
  label_le := h.label_le

/-- A new opcode word shows no mode. -/
theorem begin (h : d.Tallies modes) (opcode : Opcode) :
    ({ d with opcodePlace := some d.items.size, opcode, operandCount := 0 }.putWord
      opcode.code).Tallies [] where
  place_eq := by simp [putWord, Draft.put, h.place_eq]
  count_eq := rfl
  word_eq := by
    rintro place ⟨⟩
    have hcode : Word.compose opcode.code [] = opcode.code := by simp [Word.compose, Word.ofDigits]
    rw [← hcode]
    exact Array.getElem?_push_size
  label_le name place hlookup := Nat.le_succ_of_le (h.label_le name place hlookup)

/-- One call keeps the counts in step, whether it succeeds or fails, with the modes it has met
added. -/
theorem perform (h : d.Tallies modes) (call : Action) :
    (d.perform call).after.Tallies (meet modes (call, (d.perform call).outcome)) := by
  have hperforms := d.performs call
  generalize (d.perform call).outcome = outcome at hperforms ⊢
  generalize (d.perform call).after = after at hperforms ⊢
  cases hperforms with
  | enter scope => exact ⟨h.place_eq, h.count_eq, h.word_eq, h.label_le⟩
  | word | reference | value => exact h.put _
  | opcode hcode => exact Program.Entry.code_of_ofCode? hcode ▸ h.begin _
  | operand htokens hplace _ =>
    rw [meet, htokens]
    exact (h.addOperand hplace _).put _
  | malformedOperand htokens hplace _ =>
    rw [meet, htokens]
    exact h.addOperand hplace _
  | data _ => exact h.putAll _
  | malformedData _ _ => exact h.putAll _
  | label _ =>
    refine ⟨h.place_eq, h.count_eq, h.word_eq, fun name place hlookup => ?_⟩
    rcases lookup_concat_eq_some.mp hlookup with hlookup | ⟨-, -, rfl⟩
    · exact h.label_le name place hlookup
    · exact Nat.le_refl _
  | refused hoperand _ _ =>
    rw [meet_error modes hoperand]
    exact h

/-- Calls keep the counts in step, by what each one of them does. -/
theorem afterCalls (h : d.Tallies modes) (calls : List Action) :
    (d.afterCalls calls).Tallies ((d.transcript calls).foldl meet modes) := by
  induction calls generalizing d modes with
  | nil => exact h
  | cons call rest ih => exact ih (h.perform call)

end Tallies

/-- In the empty draft everything counts nothing. -/
theorem tallies_empty : Draft.empty.Tallies [] where
  place_eq := rfl
  count_eq := rfl
  word_eq _ hplace := absurd hplace (by simp [Draft.empty])
  label_le _ _ hlookup := absurd hlookup (by simp [Draft.empty])

/-! ### Labels -/

/-- A label is known after a call if it was known before, or if the call sets it to the place of the
next word. -/
theorem lookup_perform_iff (d : Draft) (call : Action) {name : List Char} {place : Nat} :
    (d.perform call).after.labels.lookup name = some place ↔
      d.labels.lookup name = some place ∨
        d.labels.lookup name = none ∧ ∃ token rest, call = .label (token :: rest) ∧
          qualified d.scope token = name ∧ d.place = place := by
  have hperforms := d.performs call
  generalize (d.perform call).outcome = outcome at hperforms
  generalize (d.perform call).after = after at hperforms ⊢
  cases hperforms with
  | label hnew =>
    rw [lookup_concat_eq_some]
    refine or_congr_right (and_congr_right fun _ => ⟨?_, ?_⟩)
    · rintro ⟨hname, hplace⟩
      exact ⟨_, _, rfl, hname, hplace⟩
    · rintro ⟨_, _, ⟨⟩, hname, hplace⟩
      exact ⟨hname, hplace⟩
  | refused _ _ hknown =>
    refine ⟨.inl, fun h => h.resolve_right ?_⟩
    rintro ⟨hnone, token, rest, hcall, rfl, -⟩
    exact hknown token rest hcall hnone
  | enter | word | reference | value | opcode | operand | malformedOperand | data
    | malformedData =>
    -- no other call touches the labels
    exact ⟨.inl, fun h => h.resolve_right fun ⟨_, _, _, hcall, _⟩ => nomatch hcall⟩

/-- What is known of a label stays known. -/
theorem lookup_afterCalls {d : Draft} {name : List Char} {place : Nat}
    (h : d.labels.lookup name = some place) (calls : List Action) :
    (d.afterCalls calls).labels.lookup name = some place := by
  induction calls generalizing d with
  | nil => exact h
  | cons call rest ih => exact ih ((d.lookup_perform_iff call).mpr (.inl h))

/-- The labels known are those that a call has set, the first of each name. -/
theorem lookup_afterCalls_iff {calls : List Action} {name : List Char} {place : Nat} :
    (empty.afterCalls calls).labels.lookup name = some place ↔
      ∃ before token rest later, calls = before ++ .label (token :: rest) :: later ∧
        (empty.afterCalls before).labels.lookup name = none ∧
        qualified (empty.afterCalls before).scope token = name ∧
        (empty.afterCalls before).place = place := by
  constructor
  · intro h
    induction calls using List.reverseRecOn with
    | nil => exact absurd h (by simp [afterCalls, empty])
    | append_singleton calls call ih =>
      rw [afterCalls_concat, lookup_perform_iff] at h
      rcases h with h | ⟨hnone, token, rest, rfl, hname, hplace⟩
      · obtain ⟨before, token, rest, later, rfl, hset⟩ := ih h
        exact ⟨before, token, rest, later ++ [call], by simp, hset⟩
      · exact ⟨calls, token, rest, [], rfl, hnone, hname, hplace⟩
  · rintro ⟨before, token, rest, later, rfl, hnone, hname, hplace⟩
    have hset : (empty.afterCalls (before ++ [.label (token :: rest)])).labels.lookup name =
        some place := by
      rw [afterCalls_concat, lookup_perform_iff]
      exact .inr ⟨hnone, token, rest, rfl, hname, hplace⟩
    rw [List.append_cons, afterCalls_append]
    exact lookup_afterCalls hset later

end Draft

/-- The books of a draft are in order after any calls.  The place of the next word is the number of
items.  Where there is an opcode word, it is the code with the digits of the modes that the
transcript tells, at the places of their operands.  The labels are those that a call has set, each
at the place of the next word then, and they stay.  A call that fails leaves the draft as it was,
but for a malformed operand, whose mode is counted, and malformed data, whose values up to there are
laid out. -/
theorem bookkeeping_of_calls (calls : List Action) :
    let d := Draft.empty.afterCalls calls
    let modes := modesMet (Draft.empty.transcript calls)
    d.place = d.items.size ∧
    (d.opcodePlace = none ∨
      ∃ place, d.opcodePlace = some place ∧ place < d.items.size ∧
        d.operandCount = modes.length ∧
        d.items[place]? = some (.word
          (d.opcode.code + (modes.mapIdx fun k mode => mode.digit * 10 ^ (k + 2)).sum))) ∧
    (∀ name place, d.labels.lookup name = some place → place ≤ d.place) ∧
    (∀ name place, d.labels.lookup name = some place ↔
      ∃ before token rest later, calls = before ++ .label (token :: rest) :: later ∧
        (Draft.empty.afterCalls before).labels.lookup name = none ∧
        qualified (Draft.empty.afterCalls before).scope token = name ∧
        (Draft.empty.afterCalls before).place = place) ∧
    (∀ before later, calls = before ++ later → ∀ name place,
      (Draft.empty.afterCalls before).labels.lookup name = some place →
        d.labels.lookup name = some place) ∧
    ∀ call fault, (d.perform call).outcome = .error fault →
      d.Leaves call fault (d.perform call).after := by
  intro d modes
  have htallies : d.Tallies modes := Draft.tallies_empty.afterCalls calls
  refine ⟨htallies.place_eq, ?_, htallies.label_le, fun _ _ => Draft.lookup_afterCalls_iff, ?_, ?_⟩
  · cases hplace : d.opcodePlace with
    | none => exact .inl rfl
    | some place =>
      have hword := htallies.word_eq place hplace
      obtain ⟨hlt, -⟩ := Array.getElem?_eq_some_iff.mp hword
      have hdigits : ((modes.map Mode.digit).mapIdx fun k d => d * 10 ^ (k + 2)) =
          modes.mapIdx fun k mode => mode.digit * 10 ^ (k + 2) := by
        apply List.ext_getElem?
        intro k
        simp [Function.comp_def]
      rw [Word.compose_eq_sum, hdigits] at hword
      exact .inr ⟨place, rfl, hlt, htallies.count_eq, hword⟩
  · rintro before later hsplit name place hlookup
    have hd : d = (Draft.empty.afterCalls before).afterCalls later := by
      rw [← Draft.afterCalls_append, ← hsplit]
    rw [hd]
    exact Draft.lookup_afterCalls hlookup later
  · intro call fault hfault
    exact Draft.leaves_of_error (fun place hplace => ⟨_, htallies.word_eq place hplace⟩) hfault

/-- A malformed operand between a label and data: its mode is shown, and the call after it fills the
next place. -/
theorem bookkeeping_of_calls_malformed_operand :
    let calls : List Action :=
      [.label [['a']], .opcode 1, .operand [['#'], ['x']], .data [['7'], ['y']],
        .operand [['~'], ['&', 'a']]]
    let d := Draft.empty.afterCalls calls
    (Draft.empty.perform (.label [['a']])).after.labels.lookup
      (qualified outerScope ['a']) = some 0 ∧
      d.labels.lookup (qualified outerScope ['a']) = some 0 ∧ 0 ≤ d.place ∧
      modesMet (Draft.empty.transcript calls) = [.immediate, .relative] ∧
      d.items = #[.word 2101, .word 7, .reference (qualified outerScope ['a'])] ∧
      (d.perform (.data [['8'], ['z']])).outcome = .error (.malformedNumber ['z']) ∧
      d.Leaves (.data [['8'], ['z']]) (.malformedNumber ['z'])
        (d.perform (.data [['8'], ['z']])).after := by
  intro calls d
  obtain ⟨-, -, hle, -, hkept, hleaves⟩ := bookkeeping_of_calls calls
  have hset : (Draft.empty.afterCalls [.label [['a']]]).labels.lookup
      (qualified outerScope ['a']) = some 0 := by decide
  have hlookup := hkept [.label [['a']]] _ rfl _ _ hset
  have hfault : (d.perform (.data [['8'], ['z']])).outcome = .error (.malformedNumber ['z']) := by
    decide +kernel
  exact ⟨hset, hlookup, hle _ _ hlookup, by decide +kernel, by decide +kernel, hfault,
    hleaves _ _ hfault⟩

end IntegerMachine.Assembly
