import IntegerMachine.Proofs.Assembly.Encoding
import IntegerMachine.Proofs.Assembly.Written
import IntegerMachine.Proofs.Reply

/-!
# The draft is the encoding

A draft that has laid out a script holds the items of its statements, and knows the place of
every label it sets (`Draft.Holds`).  Each statement carries this invariant on, or is at fault
as `offence?` says (`lays_actions`), so the first pass ends with the whole script or with its
first fault, and the second turns the items into the words of `encode`.  `assemble_eq_encode`
is both passes.
-/

set_option autoImplicit false

namespace IntegerMachine.Assembly

open Text

/-! ## Items -/

/-- The statements of sources are ones that can stand in a text. -/
theorem isWritten_of_mem_scriptOf (sources : List Source) :
    ∀ entry ∈ scriptOf sources, entry.2.IsWritten := by
  intro entry hentry
  obtain ⟨source, -, hmem⟩ := List.mem_flatMap.mp hentry
  obtain ⟨statement, hstatement, rfl⟩ := List.mem_map.mp hmem
  exact isWritten_of_mem_parse _ statement hstatement

/-- The values of a statement that was read are values. -/
theorem Statement.IsWritten.isValue {statement : Statement} (h : statement.IsWritten) :
    ∀ value ∈ statement.values, IsValue value := by
  cases statement with
  | label name => exact List.forall_mem_nil _
  | command opcode operands =>
    intro value hvalue
    obtain ⟨operand, hmem, rfl⟩ := List.mem_map.mp hvalue
    exact (h.2 operand hmem).isValue
  | data values => exact h
  | unknown text => exact List.forall_mem_nil _

/-- What is laid out for a value. -/
def valueItem (scope value : List Char) : Item :=
  match reference? scope value with
  | some name => .reference name
  | none => .word (numeralValue value)

/-- What is laid out for a statement in a scope. -/
def itemsOf : List Char × Statement → List Item
  | (scope, statement) => statement.head.map .word ++ statement.values.map (valueItem scope)

/-- A statement puts as many items as its size says. -/
theorem length_itemsOf (entry : List Char × Statement) (h : entry.2.IsWritten) :
    (itemsOf entry).length = entry.2.size := by
  obtain ⟨scope, statement⟩ := entry
  cases statement with
  | label name => rfl
  | command opcode operands =>
    have hlength := h.1
    simp only [itemsOf, Statement.head, Statement.values, Statement.size, List.length_append,
      List.length_map, List.length_singleton, hlength]
  | data values => simp [itemsOf, Statement.head, Statement.values, Statement.size]
  | unknown text => rfl

/-- A numeral is no reference. -/
theorem ne_reference_of_isNumeral {text : List Char} (h : IsNumeral text) (name : List Char) :
    text ≠ '&' :: name := by
  rintro rfl
  have hdigit := h.isDigit_of_mem '&' (by simp [splitSign])
  exact absurd hdigit (by decide)

/-- A numeral refers to nothing. -/
theorem reference?_of_isNumeral {text : List Char} (h : IsNumeral text) (scope : List Char) :
    reference? scope text = none := by
  unfold reference?
  split
  · rename_i name
    exact absurd rfl (ne_reference_of_isNumeral h name)
  · rfl

/-- The digits of a numeral decide whether it is overlong. -/
theorem isOverlong_of_isNumeral {text : List Char} (h : IsNumeral text) :
    isOverlong text = decide (digitLimit < digitCount text) := by
  unfold isOverlong
  split
  · rename_i name
    exact absurd rfl (ne_reference_of_isNumeral h name)
  · rfl

/-- One more operand adds its digit to the opcode word. -/
theorem opcodeWord_concat (opcode : Opcode) (operands : List Operand) (operand : Operand) :
    opcodeWord opcode (operands ++ [operand]) =
      opcodeWord opcode operands + Word.place operand.mode operands.length := by
  have hplace : Word.place operand.mode operands.length =
      operand.mode.digit * 10 ^ (operands.length + 2) := rfl
  simp only [opcodeWord, hplace, List.mapIdx_concat, List.sum_append, List.sum_singleton]
  omega

/-- The element behind a list is changed where it stands. -/
theorem modify_append_cons {α : Type} (f : α → α) (first : List α) (a : α) (second : List α) :
    (first ++ a :: second).modify first.length f = first ++ f a :: second := by
  induction first with
  | nil => rfl
  | cons b first ih => simp [ih]

/-! ## Values -/

namespace Draft

/-- The draft with items laid out behind it. -/
def putAll (d : Draft) (items : List Item) : Draft :=
  { d with items := d.items ++ items.toArray, place := d.place + items.length }

/-- No items change nothing. -/
theorem putAll_nil (d : Draft) : d.putAll [] = d := by
  simp [putAll]

/-- One item is put as a list of one. -/
theorem put_eq_putAll (d : Draft) (item : Item) : d.put item = d.putAll [item] := by
  simp [put, putAll]

/-- Items put in two lists are put as one. -/
theorem putAll_putAll (d : Draft) (first second : List Item) :
    (d.putAll first).putAll second = d.putAll (first ++ second) := by
  simp [putAll, Array.append_assoc, Nat.add_assoc]

/-- The state that an action leaves. -/
def lay (d : Draft) (action : Action) : Except Fault Draft :=
  (d.perform action).reached

/-- Actions performed one after another are a fold of the draft over them. -/
theorem reached_performAll (d : Draft) (actions : List Action) :
    (d.performAll actions).reached = actions.foldlM lay d :=
  Reply.reached_each perform d actions

/-- A numeral is laid out as its value, unless it has too many digits. -/
theorem putValue_of_isNumeral (d : Draft) {text : List Char} (h : IsNumeral text) :
    d.putValue text =
      if digitCount text ≤ digitLimit then ⟨.ok (), d.putWord (numeralValue text), #[]⟩
      else ⟨.error (.malformedNumber text), d, #[]⟩ := by
  have hvalue := integerValue?_of_isNumeral h
  unfold putValue
  split
  · rename_i name
    exact absurd rfl (ne_reference_of_isNumeral h name)
  · rw [hvalue]
    by_cases hfew : digitCount text ≤ digitLimit
    · rw [if_pos hfew, if_pos hfew]
    · rw [if_neg hfew, if_neg hfew]

/-- A value is laid out unless it is a number of too many digits. -/
theorem reached_putValue (d : Draft) {value : List Char} (h : IsValue value) :
    (d.putValue value).reached =
      match valueOffence? value with
      | some fault => .error fault
      | none => .ok (d.putAll [valueItem d.scope value]) := by
  rw [← put_eq_putAll]
  cases h with
  | numeral hnumeral =>
    rw [putValue_of_isNumeral d hnumeral, valueItem, reference?_of_isNumeral hnumeral,
      valueOffence?, isOverlong_of_isNumeral hnumeral]
    by_cases hfew : digitCount value ≤ digitLimit
    · rw [if_pos hfew, if_neg (by simpa using hfew)]
      rfl
    · rw [if_neg hfew, if_pos (by simpa using hfew)]
      rfl
  | reference name => rfl

/-- Values are laid out up to the first that is a number of too many digits. -/
theorem reached_putData (d : Draft) {values : List (List Char)}
    (h : ∀ value ∈ values, IsValue value) :
    (d.putData values).reached =
      match values.findSome? valueOffence? with
      | some fault => .error fault
      | none => .ok (d.putAll (values.map (valueItem d.scope))) := by
  rw [putData, Reply.reached_each]
  induction values generalizing d with
  | nil => rw [List.map_nil, putAll_nil]; rfl
  | cons value rest ih =>
    have hrest := ih (d.putAll [valueItem d.scope value]) fun v hv => h v (by simp [hv])
    rw [putAll_putAll] at hrest
    rw [List.foldlM_cons, reached_putValue d (h value (by simp)), List.findSome?_cons]
    cases valueOffence? value with
    | some fault => rfl
    | none => exact hrest

/-! ## Commands -/

/-- The tokens of an operand are its mark, which stands for its mode, and its value. -/
theorem putOperand_tokens (d : Draft) {operand : Operand} (h : operand.IsWritten) :
    ∃ mark, modeOfMark? mark = some operand.mode ∧
      d.putOperand operand.tokens = d.putMarked mark operand.value := by
  obtain ⟨mark, value⟩ := operand
  rcases h.mark_eq with rfl | rfl | rfl
  · exact ⟨[], rfl, rfl⟩
  · exact ⟨['#'], rfl, rfl⟩
  · exact ⟨['~'], rfl, rfl⟩

/-- The draft with a command laid out behind it as far as its operands are met. -/
def opened (d : Draft) (opcode : Opcode) (met : List Operand) : Draft :=
  { d.putAll (itemsOf (d.scope, .command opcode met)) with
    opcodePlace := some d.items.size
    opcode
    operandCount := met.length }

/-- An opcode takes a place, and so does each of its operands met. -/
theorem opened_place (d : Draft) (opcode : Opcode) (met : List Operand) :
    (d.opened opcode met).place = d.place + 1 + met.length := by
  simp only [opened, putAll, itemsOf, Statement.head, Statement.values, List.length_append,
    List.length_map, List.length_singleton, Nat.add_assoc]

/-- The opcode opens a command no operand of which is met. -/
theorem lay_opcode (d : Draft) (opcode : Opcode) :
    d.lay (.opcode opcode.code) = .ok (d.opened opcode []) := by
  simp [lay, perform, putOpcode, Reply.reached, opened, putWord, put, putAll, itemsOf,
    Statement.head, Statement.values, opcodeWord]

/-- A further operand of an open command is one more that is met. -/
theorem addOperand_opened (d : Draft) (opcode : Opcode) (met : List Operand)
    (operand : Operand) :
    ((d.opened opcode met).addOperand d.items.size operand.mode).putAll
      [valueItem d.scope operand.value] = d.opened opcode (met ++ [operand]) := by
  have hmodify := modify_append_cons (addMode operand.mode met.length) d.items.toList
    (.word (opcodeWord opcode met)) ((met.map Operand.value).map (valueItem d.scope))
  have hitems : (d.items ++ (itemsOf (d.scope, .command opcode met)).toArray).modify
      d.items.size (addMode operand.mode met.length) ++ #[valueItem d.scope operand.value] =
        d.items ++ (itemsOf (d.scope, .command opcode (met ++ [operand]))).toArray := by
    -- the opcode word is the first item behind what the draft held before the command
    apply Array.toList_inj.mp
    simp only [Array.toList_append, Array.toList_modify, itemsOf, Statement.head, Statement.values,
      List.map_cons, List.map_nil, List.singleton_append, List.map_append]
    rw [Array.length_toList] at hmodify
    rw [hmodify, opcodeWord_concat]
    simp [addMode]
  simp only [putAll, addOperand, opened, Draft.mk.injEq, true_and]
  exact ⟨hitems, by simp [itemsOf, Statement.head, Statement.values]; omega, by simp⟩

/-- An operand is laid out unless it has a fault. -/
theorem lay_operand (d : Draft) (opcode : Opcode) (met : List Operand) {operand : Operand}
    (h : operand.IsWritten) :
    (d.opened opcode met).lay (.operand operand.tokens) =
      match operandOffence? opcode d.place (operand, met.length) with
      | some fault => .error fault
      | none => .ok (d.opened opcode (met ++ [operand])) := by
  obtain ⟨mark, hmark, htokens⟩ := putOperand_tokens (d.opened opcode met) h
  have hmarked : (d.opened opcode met).putMarked mark operand.value =
      if operand.mode = .immediate ∧ opcode.destination? = some met.length then
        ⟨.error (.immediateDestination opcode (d.opened opcode met).place), d.opened opcode met,
          #[]⟩
      else ((d.opened opcode met).addOperand d.items.size operand.mode).putValue operand.value := by
    rw [putMarked, hmark]
    rfl
  rw [lay, perform, htokens, hmarked, operandOffence?]
  by_cases hdestination : operand.mode = .immediate ∧ opcode.destination? = some met.length
  · rw [if_pos hdestination, if_pos hdestination, opened_place]
    rfl
  · rw [if_neg hdestination, if_neg hdestination, ← addOperand_opened]
    exact reached_putValue ((d.opened opcode met).addOperand d.items.size operand.mode) h.isValue

/-- The operands behind those met so far are laid out up to the first that has a fault. -/
theorem lay_operands (d : Draft) (opcode : Opcode) (met rest : List Operand)
    (hrest : ∀ operand ∈ rest, operand.IsWritten) :
    (rest.map fun operand => Action.operand operand.tokens).foldlM lay (d.opened opcode met) =
      match (rest.zipIdx met.length).findSome? (operandOffence? opcode d.place) with
      | some fault => .error fault
      | none => .ok (d.opened opcode (met ++ rest)) := by
  induction rest generalizing met with
  | nil =>
    rw [List.append_nil]
    rfl
  | cons operand rest ih =>
    have htail := ih (met ++ [operand]) fun o ho => hrest o (by simp [ho])
    rw [List.length_append, List.length_singleton, List.append_assoc, List.singleton_append] at htail
    rw [List.map_cons, List.foldlM_cons, lay_operand d opcode met (hrest operand (by simp)),
      List.zipIdx_cons, List.findSome?_cons]
    cases operandOffence? opcode d.place (operand, met.length) with
    | some fault => rfl
    | none => exact htail

/-- A command is laid out up to the first operand that has a fault. -/
theorem lay_command (d : Draft) (opcode : Opcode) (operands : List Operand)
    (h : ∀ operand ∈ operands, operand.IsWritten) :
    (Statement.command opcode operands).actions.foldlM lay d =
      match operands.zipIdx.findSome? (operandOffence? opcode d.place) with
      | some fault => .error fault
      | none => .ok (d.opened opcode operands) := by
  rw [Statement.actions, List.foldlM_cons, lay_opcode]
  exact lay_operands d opcode [] operands h

end Draft

/-! ## The first pass -/

/-- The draft, now in a scope, has laid out a script. -/
structure Draft.Holds (d : Draft) (scope : List Char) (script : Script) : Prop where
  scope_eq : d.scope = scope
  items_eq : d.items.toList = script.flatMap itemsOf
  place_eq : d.place = extent script
  lookup_eq : ∀ name, d.labels.lookup name = placeOf? script name

/-- What is reached is a draft that holds a script, or the fault if there is one. -/
def Lays (reached : Except Fault Draft) (fault? : Option Fault) (scope : List Char)
    (script : Script) : Prop :=
  match fault? with
  | some fault => reached = .error fault
  | none => ∃ d : Draft, reached = .ok d ∧ d.Holds scope script

/-- Laying out goes on behind what is laid out without fault. -/
theorem Lays.bind {reached : Except Fault Draft} {next : Draft → Except Fault Draft}
    {fault? nextFault? : Option Fault} {scope nextScope : List Char} {script nextScript : Script}
    (h : Lays reached fault? scope script)
    (hnext : ∀ d : Draft, d.Holds scope script → Lays (next d) nextFault? nextScope nextScript) :
    Lays (reached >>= next) (fault?.or nextFault?) nextScope nextScript := by
  cases fault? with
  | some fault =>
    have hreached : reached = .error fault := h
    rw [hreached]
    exact rfl
  | none =>
    obtain ⟨d, hreached, hd⟩ := h
    rw [hreached]
    exact hnext d hd

/-- A statement that sets no label keeps those set before it. -/
theorem placeOf?_concat_of_none (script : Script) {entry : List Char × Statement}
    (h : definition? entry = none) (name : List Char) :
    placeOf? (script ++ [entry]) name = placeOf? script name := by
  have hsame : labelsOf (script ++ [entry]) = labelsOf script := by
    simp [labelsOf, h]
  unfold placeOf?
  rw [hsame]
  by_cases hmem : name ∈ labelsOf script
  · rw [if_pos hmem, if_pos hmem, offsetOf_append_of_mem _ hmem]
  · rw [if_neg hmem, if_neg hmem]

/-- A new label is added behind those set before it. -/
theorem placeOf?_concat_label {script : Script} {scope label : List Char}
    (h : qualified scope label ∉ labelsOf script) (name : List Char) :
    placeOf? (script ++ [(scope, .label label)]) name =
      (placeOf? script name).or ([(qualified scope label, extent script)].lookup name) := by
  have hlabels : labelsOf (script ++ [(scope, .label label)]) =
      labelsOf script ++ [qualified scope label] := by
    simp [labelsOf, definition?]
  by_cases hname : name = qualified scope label
  · subst hname
    simp [placeOf?, hlabels, h, offsetOf_append_label h]
  · have hmissing : [(qualified scope label, extent script)].lookup name = none := by
      rw [List.lookup_cons, beq_false_of_ne hname]
      rfl
    unfold placeOf?
    rw [hmissing, Option.or_none, hlabels]
    by_cases hmem : name ∈ labelsOf script
    · rw [if_pos hmem, if_pos (by simp [hmem]), offsetOf_append_of_mem _ hmem]
    · rw [if_neg hmem, if_neg (by simp [hmem, hname])]

namespace Draft.Holds

variable {d : Draft} {scope : List Char} {script : Script}

/-- Items of a statement that sets no label are laid out behind a script. -/
theorem putAll (h : d.Holds scope script) {statement : Statement}
    (hwritten : statement.IsWritten) (hdefinition : definition? (scope, statement) = none) :
    (d.putAll (itemsOf (scope, statement))).Holds scope (script ++ [(scope, statement)]) where
  scope_eq := h.scope_eq
  items_eq := by simp [Draft.putAll, h.items_eq]
  place_eq := by
    have hlength := length_itemsOf (scope, statement) hwritten
    simp [Draft.putAll, h.place_eq, hlength, extent]
  lookup_eq := by
    intro name
    rw [placeOf?_concat_of_none script hdefinition]
    exact h.lookup_eq name

/-- A command all of whose operands are met is laid down. -/
theorem opened (h : d.Holds scope script) {opcode : Opcode} {operands : List Operand}
    (hwritten : (Statement.command opcode operands).IsWritten) :
    (d.opened opcode operands).Holds scope (script ++ [(scope, .command opcode operands)]) := by
  have hput := h.putAll hwritten rfl
  rw [← h.scope_eq] at hput ⊢
  exact ⟨hput.scope_eq, hput.items_eq, hput.place_eq, hput.lookup_eq⟩

/-- A new label is laid down, in its scope, at the place of the next word. -/
theorem label (h : d.Holds scope script) {name : List Char}
    (hnew : qualified scope name ∉ labelsOf script) :
    Draft.Holds { d with labels := d.labels ++ [(qualified scope name, d.place)] } scope
      (script ++ [(scope, .label name)]) where
  scope_eq := h.scope_eq
  items_eq := by simp [h.items_eq, itemsOf, Statement.head, Statement.values]
  place_eq := by simp [h.place_eq, extent, Statement.size]
  lookup_eq := by
    intro other
    rw [List.lookup_append, h.lookup_eq, placeOf?_concat_label hnew, h.place_eq]

/-- Entering a scope lays nothing down. -/
theorem enter (h : d.Holds scope script) (next : List Char) : (d.enter next).Holds next script :=
  ⟨rfl, h.items_eq, h.place_eq, h.lookup_eq⟩

/-- Each statement is laid out behind the script, or has its fault there. -/
theorem lays_actions (h : d.Holds scope script) {statement : Statement}
    (hwritten : statement.IsWritten) :
    Lays (statement.actions.foldlM Draft.lay d) (offence? script (scope, statement)) scope
      (script ++ [(scope, statement)]) := by
  -- each kind of statement is a fold over what it lays down
  cases statement with
  | label name =>
    have hactions : (Statement.label name).actions.foldlM Draft.lay d =
        (d.putLabel [name]).reached := by
      rw [Statement.actions, List.foldlM_cons, Draft.lay, Draft.perform]
      exact bind_pure _
    obtain rfl : d.scope = scope := h.scope_eq
    rw [hactions, Draft.putLabel, h.lookup_eq, placeOf?, offence?]
    by_cases hmem : qualified d.scope name ∈ labelsOf script
    · rw [if_pos hmem, if_pos hmem]
      exact rfl
    · rw [if_neg hmem, if_neg hmem]
      exact ⟨_, rfl, h.label hmem⟩
  | command opcode operands =>
    rw [Draft.lay_command d opcode operands hwritten.2, offence?, h.place_eq]
    cases operands.zipIdx.findSome? (operandOffence? opcode (extent script)) with
    | some fault => exact rfl
    | none => exact ⟨_, rfl, h.opened hwritten⟩
  | data values =>
    have hactions : (Statement.data values).actions.foldlM Draft.lay d =
        (d.putData values).reached := by
      rw [Statement.actions, List.foldlM_cons, Draft.lay, Draft.perform]
      exact bind_pure _
    rw [hactions, d.reached_putData hwritten, h.scope_eq, offence?]
    cases values.findSome? valueOffence? with
    | some fault => exact rfl
    | none => exact ⟨_, rfl, h.putAll hwritten rfl⟩
  | unknown text => exact rfl

/-- The statements of one scope are laid out behind the script, up to the first fault. -/
theorem lays_statements (h : d.Holds scope script) {statements : List Statement}
    (hwritten : ∀ statement ∈ statements, statement.IsWritten) :
    Lays ((statements.flatMap Statement.actions).foldlM Draft.lay d)
      (firstOffence? script (statements.map fun statement => (scope, statement))) scope
      (script ++ statements.map fun statement => (scope, statement)) := by
  induction statements generalizing d script with
  | nil =>
    refine ⟨d, rfl, ?_⟩
    rw [List.map_nil, List.append_nil]
    exact h
  | cons statement rest ih =>
    rw [List.flatMap_cons, List.foldlM_append, List.map_cons, firstOffence?]
    apply (h.lays_actions (hwritten statement (by simp))).bind
    intro next hnext
    have hrest := ih hnext fun s hs => hwritten s (by simp [hs])
    rw [List.append_assoc, List.singleton_append] at hrest
    exact hrest

/-- A source is laid down unless it offends, in its scope. -/
theorem lays_source (h : d.Holds scope script) (source : Source) :
    Lays (d.addSource source).reached (firstOffence? script (scriptOf [source]))
      source.scope.toList (script ++ scriptOf [source]) := by
  have hreached : (d.addSource source).reached =
      ((parse source.text.toList).flatMap Statement.actions).foldlM Draft.lay
        (d.enter source.scope.toList) :=
    Draft.reached_performAll d source.actions
  have hscript : scriptOf [source] =
      (parse source.text.toList).map fun statement => (source.scope.toList, statement) :=
    List.flatMap_singleton _ _
  rw [hreached, hscript]
  exact (h.enter _).lays_statements (isWritten_of_mem_parse _)

/-- The sources are laid out behind the script, up to the first fault of all. -/
theorem lays_sources (h : d.Holds scope script) (sources : List Source) :
    Lays (d.addSources sources).reached (firstOffence? script (scriptOf sources))
      (sources.foldl (fun _ source => source.scope.toList) scope)
      (script ++ scriptOf sources) := by
  rw [Draft.addSources, Reply.reached_each]
  induction sources generalizing d scope script with
  | nil =>
    refine ⟨d, rfl, ?_⟩
    rw [scriptOf, List.flatMap_nil, List.append_nil]
    exact h
  | cons source rest ih =>
    have hscript : scriptOf (source :: rest) = scriptOf [source] ++ scriptOf rest := by
      simp [scriptOf]
    rw [hscript, firstOffence?_append, List.foldlM_cons, ← List.append_assoc]
    apply (h.lays_source source).bind
    intro next hnext
    exact ih hnext

end Draft.Holds

/-- Nothing is laid out at first. -/
theorem holds_empty : Draft.empty.Holds outerScope [] :=
  ⟨rfl, rfl, rfl, fun _ => rfl⟩

/-! ## The second pass -/

/-- The name that an item refers to. -/
def Item.target? : Item → Option (List Char)
  | word _ => none
  | reference name => some name

/-- The word of an item in a script. -/
def Item.wordIn (script : Script) : Item → Int
  | word value => value
  | reference name => offsetOf script name

/-- A value refers to the label it names, and a number refers to none. -/
theorem target?_valueItem (scope value : List Char) :
    (valueItem scope value).target? = reference? scope value := by
  unfold valueItem
  cases reference? scope value <;> rfl

/-- The word of a value is its number, or the place of the label it names. -/
theorem wordIn_valueItem (script : Script) (scope value : List Char) :
    (valueItem scope value).wordIn script = valueWord script scope value := by
  unfold valueItem valueWord
  cases reference? scope value <;> rfl

/-- The names referred to in a script are those its items refer to. -/
theorem referencesOf_eq (script : Script) :
    referencesOf script = (script.flatMap itemsOf).filterMap Item.target? := by
  rw [List.filterMap_flatMap, referencesOf]
  congr 1
  funext ⟨scope, statement⟩
  have hhead : (statement.head.map Item.word).filterMap Item.target? = [] := by
    simp [Item.target?]
  have hvalues : Item.target? ∘ valueItem scope = reference? scope :=
    funext fun value => target?_valueItem scope value
  rw [itemsOf, List.filterMap_append, hhead, List.filterMap_map, hvalues]
  rfl

/-- The layout of a script is the words of its items. -/
theorem layout_eq (script : Script) :
    layout script = (script.flatMap itemsOf).map (Item.wordIn script) := by
  rw [List.map_flatMap, layout]
  congr 1
  funext ⟨scope, statement⟩
  have hhead : (statement.head.map Item.word).map (Item.wordIn script) = statement.head := by
    rw [List.map_map]
    exact List.map_id _
  have hvalues : Item.wordIn script ∘ valueItem scope = valueWord script scope :=
    funext fun value => wordIn_valueItem script scope value
  rw [itemsOf, List.map_append, hhead, List.map_map, hvalues]

/-- The first item that refers to no label is at fault. -/
theorem mapM_wordWith {labels : List (List Char × Nat)} {script : Script}
    (h : ∀ name, labels.lookup name = placeOf? script name) (items : List Item) :
    items.mapM (Item.wordWith labels) =
      match (items.filterMap Item.target?).find? fun name => name ∉ labelsOf script with
      | some name => .error (.unknownLabel name)
      | none => .ok (items.map (Item.wordIn script)) := by
  induction items with
  | nil => rfl
  | cons item rest ih =>
    rw [List.mapM_cons, ih]
    cases item with
    | word value =>
      rw [List.filterMap_cons_none rfl]
      cases (rest.filterMap Item.target?).find? fun name => name ∉ labelsOf script <;> rfl
    | reference name =>
      have hcons : (Item.reference name :: rest).filterMap Item.target? =
          name :: rest.filterMap Item.target? := rfl
      rw [hcons, Item.wordWith, h name, placeOf?]
      by_cases hmem : name ∈ labelsOf script
      · rw [if_pos hmem, List.find?_cons_of_neg (by simpa using hmem)]
        cases (rest.filterMap Item.target?).find? fun name => name ∉ labelsOf script <;> rfl
      · rw [if_neg hmem, List.find?_cons_of_pos (by simpa using hmem)]
        rfl

/-- The words of a draft are those of the script it holds. -/
theorem Draft.Holds.words_eq {d : Draft} {scope : List Char} {script : Script}
    (h : d.Holds scope script) :
    d.words = match undefined? script with
      | some name => .error (.unknownLabel name)
      | none => .ok (layout script) := by
  rw [Draft.words, h.items_eq, mapM_wordWith h.lookup_eq, undefined?, referencesOf_eq, layout_eq]

/-- Sources are assembled by laying them down and then putting in the places of their labels. -/
theorem result_assemble (sources : List Source) :
    (assemble sources).result = (Draft.empty.addSources sources).reached >>= Draft.words := by
  rw [assemble]
  cases Draft.empty.addSources sources with
  | mk outcome d log => cases outcome <;> rfl

/-- Both passes together are the encoding. -/
theorem result_eq_encode (sources : List Source) :
    (assemble sources).result = encode (scriptOf sources) := by
  have hlays := holds_empty.lays_sources sources
  rw [List.nil_append] at hlays
  rw [result_assemble, encode]
  cases hfirst : firstOffence? [] (scriptOf sources) with
  | some fault =>
    rw [hfirst] at hlays
    have hreached : (Draft.empty.addSources sources).reached = .error fault := hlays
    rw [hreached]
    rfl
  | none =>
    rw [hfirst] at hlays
    obtain ⟨d, hreached, hd⟩ := hlays
    rw [hreached]
    have hwords := hd.words_eq
    cases hundefined : undefined? (scriptOf sources) with
    | some name =>
      rw [hundefined] at hwords
      exact hwords
    | none =>
      rw [hundefined] at hwords
      exact hwords

/-- The words of sources that can be assembled are their layout. -/
theorem result_eq_ok_iff {sources : List Source} {words : List Int} :
    (assemble sources).result = .ok words ↔
      (Sound (scriptOf sources) ∧ Readable (scriptOf sources)) ∧
        words = layout (scriptOf sources) := by
  rw [result_eq_encode]
  constructor
  · intro h
    exact ⟨encode_eq_ok_iff.mp ⟨words, h⟩, layout_of_encode h⟩
  · rintro ⟨hsound, rfl⟩
    obtain ⟨words, hwords⟩ := encode_eq_ok_iff.mpr hsound
    rw [hwords, layout_of_encode hwords]

/-- Assembling gives the words of the encoding, or the fault of the first statement at fault,
or else that of the first reference to no label.  It gives words just for sound scripts, as far as
their numbers can be read. -/
theorem assemble_eq_encode (sources : List Source) :
    (assemble sources).result = encode (scriptOf sources) ∧
      ((∃ words, (assemble sources).result = .ok words) ↔
        Sound (scriptOf sources) ∧ Readable (scriptOf sources)) := by
  have hresult := result_eq_encode sources
  refine ⟨hresult, ?_⟩
  rw [hresult]
  exact encode_eq_ok_iff

-- A jump back to a label, and the word before it.
example : encode [(['m'], .data [['7']]), (['m'], .label ['x']),
    (['m'], .command .jumpIfTrue [⟨some '#', ['1']⟩, ⟨some '#', ['&', 'x']⟩])] =
      .ok [7, 1105, 1, 1] := by
  rfl

end IntegerMachine.Assembly
