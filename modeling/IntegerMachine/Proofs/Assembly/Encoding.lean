import IntegerMachine.Assembly.Program
import Mathlib.Algebra.Order.Ring.Int

/-!
# What sources are assembled to

The assembler goes through its sources with a draft that it patches.  Here the same words are
said without a draft: the statements of all sources stand in one script, every statement takes
a number of words that its form tells, and a reference stands for the words before the label it
names.  `encode` is the result of assembling a script, and `encode_eq_ok_iff` says which
scripts have one: those that are `Sound` and hold no number of too many digits.
-/

set_option autoImplicit false

namespace IntegerMachine.Assembly

open Text

/-- Statements in the order of layout, each with the scope it stands in. -/
abbrev Script := List (List Char × Statement)

/-- The statements of sources, one source after another. -/
def scriptOf (sources : List Source) : Script :=
  sources.flatMap fun source =>
    (parse source.text.toList).map fun statement => (source.scope.toList, statement)

/-! ## Places -/

/-- How many words a statement takes. -/
def Statement.size : Statement → Nat
  | label _ => 0
  | command opcode _ => 1 + opcode.operands
  | data values => values.length
  | unknown _ => 0

/-- How many words a script takes. -/
def extent (script : Script) : Nat :=
  (script.map fun entry => entry.2.size).sum

/-- The name that a statement sets, with its scope. -/
def definition? : List Char × Statement → Option (List Char)
  | (scope, .label name) => some (qualified scope name)
  | _ => none

/-- The names that a script sets. -/
def labelsOf (script : Script) : List (List Char) :=
  script.filterMap definition?

/-- The number of words before the label of a name. -/
def offsetOf (script : Script) (name : List Char) : Nat :=
  extent (script.takeWhile fun entry => definition? entry != some name)

/-- The place of the label of a name, if there is one. -/
def placeOf? (script : Script) (name : List Char) : Option Nat :=
  if name ∈ labelsOf script then some (offsetOf script name) else none

/-! ## Words -/

/-- The mode of an operand by its mark. -/
def Operand.mode (operand : Operand) : Mode :=
  match operand.mark with
  | some '#' => .immediate
  | some '~' => .relative
  | _ => .position

/-- The name that a value refers to, with the scope it stands in if it has none; a number
refers to nothing. -/
def reference? (scope : List Char) : List Char → Option (List Char)
  | '&' :: name => some (if isQualified name then name else qualified scope name)
  | _ => none

/-- The values of a statement. -/
def Statement.values : Statement → List (List Char)
  | label _ => []
  | command _ operands => operands.map Operand.value
  | data values => values
  | unknown _ => []

/-- The names that a script refers to. -/
def referencesOf (script : Script) : List (List Char) :=
  script.flatMap fun entry => entry.2.values.filterMap (reference? entry.1)

/-- The word of a value in a script. -/
def valueWord (script : Script) (scope value : List Char) : Int :=
  match reference? scope value with
  | some name => offsetOf script name
  | none => numeralValue value

/-- The opcode word of a command: the code, and above it a digit for each operand. -/
def opcodeWord (opcode : Opcode) (operands : List Operand) : Int :=
  opcode.code + (operands.mapIdx fun k operand => operand.mode.digit * 10 ^ (k + 2)).sum

/-- The opcode word of a statement that has one. -/
def Statement.head : Statement → List Int
  | command opcode operands => [opcodeWord opcode operands]
  | _ => []

/-- The words of a script. -/
def layout (script : Script) : List Int :=
  script.flatMap fun entry =>
    entry.2.head ++ entry.2.values.map (valueWord script entry.1)

/-! ## Faults -/

/-- Whether a value is a number that has too many digits to be read. -/
def isOverlong : List Char → Bool
  | '&' :: _ => false
  | numeral => digitLimit < digitCount numeral

/-- The fault of a value: that it is a number of too many digits. -/
def valueOffence? (value : List Char) : Option Fault :=
  if isOverlong value then some (.malformedNumber value) else none

/-- The fault of an operand, by its number, of a command that stands at a place: that it is written
to and yet a value, or else that of its value. -/
def operandOffence? (opcode : Opcode) (place : Nat) : Operand × Nat → Option Fault
  | (operand, k) =>
    if operand.mode = .immediate ∧ opcode.destination? = some k then
      some (.immediateDestination opcode (place + 1 + k))
    else valueOffence? operand.value

/-- The fault of a statement behind others. -/
def offence? (before : Script) : List Char × Statement → Option Fault
  | (scope, .label name) =>
    if qualified scope name ∈ labelsOf before then some (.redefinedLabel (qualified scope name))
    else none
  | (_, .command opcode operands) =>
    operands.zipIdx.findSome? (operandOffence? opcode (extent before))
  | (_, .data values) => values.findSome? valueOffence?
  | (_, .unknown text) => some (.unknownCommand text)

/-- The fault of the first statement that has one, behind others. -/
def firstOffence? (before : Script) : Script → Option Fault
  | [] => none
  | entry :: rest => (offence? before entry).or (firstOffence? (before ++ [entry]) rest)

/-- The first name that a script refers to and does not set. -/
def undefined? (script : Script) : Option (List Char) :=
  (referencesOf script).find? fun name => name ∉ labelsOf script

/-- The result of assembling a script.  A reference is at fault only where no statement is. -/
def encode (script : Script) : Except Fault (List Int) :=
  match firstOffence? [] script, undefined? script with
  | some fault, _ => .error fault
  | none, some name => .error (.unknownLabel name)
  | none, none => .ok (layout script)

/-- A script without fault. -/
structure Sound (script : Script) : Prop where
  /-- Every statement is one. -/
  known : ∀ scope text, (scope, Statement.unknown text) ∉ script
  /-- No two labels have the same name with their scopes. -/
  distinct : (labelsOf script).Nodup
  /-- No destination is a value. -/
  writable : ∀ scope opcode operands, (scope, Statement.command opcode operands) ∈ script →
    ∀ k, opcode.destination? = some k → ∀ operand, operands[k]? = some operand →
      operand.mode ≠ .immediate
  /-- Every reference is to a label. -/
  defined : ∀ name ∈ referencesOf script, name ∈ labelsOf script

/-- No number of a script has too many digits to be read. -/
def Readable (script : Script) : Prop :=
  ∀ entry ∈ script, ∀ value ∈ entry.2.values, isOverlong value = false

/-! ## Scripts one behind another -/

/-- Scripts one after the other take the words of both. -/
theorem extent_append (first second : Script) :
    extent (first ++ second) = extent first + extent second := by
  rw [extent, List.map_append, List.sum_append]
  rfl

/-- No label has more words before it than there are. -/
theorem offsetOf_le_extent (script : Script) (name : List Char) :
    offsetOf script name ≤ extent script := by
  have hsplit := extent_append (script.takeWhile fun entry => definition? entry != some name)
    (script.dropWhile fun entry => definition? entry != some name)
  rw [List.takeWhile_append_dropWhile] at hsplit
  rw [offsetOf, hsplit]
  exact Nat.le_add_right _ _

/-- Scripts one after the other define the labels of both. -/
theorem labelsOf_append (first second : Script) :
    labelsOf (first ++ second) = labelsOf first ++ labelsOf second :=
  List.filterMap_append

/-- The first statement defines its label, if it is one, in front of those of the others. -/
theorem labelsOf_cons (entry : List Char × Statement) (rest : Script) :
    labelsOf (entry :: rest) = (definition? entry).toList ++ labelsOf rest := by
  unfold labelsOf
  cases h : definition? entry <;> simp [h]

/-- A label is defined by one of the statements. -/
theorem mem_labelsOf_iff {script : Script} {name : List Char} :
    name ∈ labelsOf script ↔ ∃ entry ∈ script, definition? entry = some name :=
  List.mem_filterMap

/-- A label keeps its place when more is laid out behind. -/
theorem offsetOf_append_of_mem {first : Script} (second : Script) {name : List Char}
    (h : name ∈ labelsOf first) : offsetOf (first ++ second) name = offsetOf first name := by
  obtain ⟨entry, hmem, hentry⟩ := mem_labelsOf_iff.mp h
  unfold offsetOf
  rw [List.takeWhile_append, if_neg]
  intro hlength
  rw [← (List.takeWhile_sublist _).eq_of_length hlength] at hmem
  exact absurd (List.all_eq_true.mp List.all_takeWhile entry hmem) (by simp [hentry])

/-- A new label stands behind everything. -/
theorem offsetOf_append_label {first : Script} {scope name : List Char}
    (h : qualified scope name ∉ labelsOf first) :
    offsetOf (first ++ [(scope, .label name)]) (qualified scope name) = extent first := by
  unfold offsetOf
  rw [List.takeWhile_append_of_pos]
  · simp [definition?]
  · intro entry hmem
    have hne : definition? entry ≠ some (qualified scope name) := by
      intro hentry
      exact h (mem_labelsOf_iff.mpr ⟨entry, hmem, hentry⟩)
    simpa using hne

/-- The first offence of two scripts is one of the first, or, in a first without any, one of the
second against what the first defines. -/
theorem firstOffence?_append (before first second : Script) :
    firstOffence? before (first ++ second) =
      (firstOffence? before first).or (firstOffence? (before ++ first) second) := by
  induction first generalizing before with
  | nil => simp [firstOffence?]
  | cons entry rest ih =>
    rw [List.cons_append, firstOffence?, ih, firstOffence?, Option.or_assoc, List.append_assoc,
      List.singleton_append]

/-- The first fault is that of a statement. -/
theorem exists_offence?_of_firstOffence? {before script : Script} {fault : Fault}
    (h : firstOffence? before script = some fault) :
    ∃ entry ∈ script, ∃ earlier, offence? earlier entry = some fault := by
  induction script generalizing before with
  | nil => exact absurd h (by simp [firstOffence?])
  | cons entry rest ih =>
    rw [firstOffence?] at h
    rcases Option.or_eq_some_iff.mp h with hfirst | ⟨-, hrest⟩
    · exact ⟨entry, List.mem_cons_self, before, hfirst⟩
    · obtain ⟨later, hmem, earlier, hlater⟩ := ih hrest
      exact ⟨later, List.mem_cons_of_mem _ hmem, earlier, hlater⟩

/-! ## The faults of a statement -/

/-- The faults that a statement can have in a scope. -/
inductive Offends (scope : List Char) : Statement → Fault → Prop
  | redefined (name : List Char) : Offends scope (.label name) (.redefinedLabel (qualified scope name))
  | destination (opcode : Opcode) (operands : List Operand) (place : Nat) :
    Offends scope (.command opcode operands) (.immediateDestination opcode place)
  | overlong {statement : Statement} {value : List Char} (hvalue : value ∈ statement.values)
    (hmany : isOverlong value = true) : Offends scope statement (.malformedNumber value)
  | unknown (text : List Char) : Offends scope (.unknown text) (.unknownCommand text)

/-- The only fault in a value is a numeral of too many digits. -/
theorem eq_of_valueOffence? {value : List Char} {fault : Fault}
    (h : valueOffence? value = some fault) :
    isOverlong value = true ∧ fault = .malformedNumber value := by
  obtain ⟨hmany, hfault⟩ := Option.ite_none_right_eq_some.mp h
  exact ⟨hmany, (Option.some.inj hfault).symm⟩

/-- A statement that is at fault has one of its faults, whatever stands before it. -/
theorem offends_of_offence? {before : Script} {scope : List Char} {statement : Statement}
    {fault : Fault} (h : offence? before (scope, statement) = some fault) :
    Offends scope statement fault := by
  cases statement with
  | label name =>
    obtain ⟨-, hfault⟩ := Option.ite_none_right_eq_some.mp h
    exact Option.some.inj hfault ▸ .redefined name
  | command opcode operands =>
    obtain ⟨⟨operand, k⟩, hmem, hoperand⟩ := List.exists_of_findSome?_eq_some h
    rw [operandOffence?] at hoperand
    split at hoperand
    · exact Option.some.inj hoperand ▸ .destination opcode operands _
    · obtain ⟨hmany, rfl⟩ := eq_of_valueOffence? hoperand
      exact .overlong (List.mem_map_of_mem (List.fst_mem_of_mem_zipIdx hmem)) hmany
  | data values =>
    obtain ⟨value, hmem, hvalue⟩ := List.exists_of_findSome?_eq_some h
    obtain ⟨hmany, rfl⟩ := eq_of_valueOffence? hvalue
    exact .overlong hmem hmany
  | unknown text => exact Option.some.inj h ▸ .unknown text

/-! ## Sound scripts -/

/-- There is no fault in a value that is not too long. -/
theorem valueOffence?_eq_none_iff {value : List Char} :
    valueOffence? value = none ↔ isOverlong value = false := by
  simp [valueOffence?]

/-- There is no fault in an operand that is no immediate destination and whose value is not too
long. -/
theorem operandOffence?_eq_none_iff {opcode : Opcode} {place k : Nat} {operand : Operand} :
    operandOffence? opcode place (operand, k) = none ↔
      (opcode.destination? = some k → operand.mode ≠ .immediate) ∧
        isOverlong operand.value = false := by
  by_cases h : operand.mode = .immediate ∧ opcode.destination? = some k
  · simp [operandOffence?, h]
  · rw [operandOffence?, if_neg h, valueOffence?_eq_none_iff]
    tauto

/-- A statement that has no fault for its form, whatever stands before it and however long its
numbers are. -/
def Innocent : Statement → Prop
  | .command opcode operands => ∀ k, opcode.destination? = some k →
      ∀ operand, operands[k]? = some operand → operand.mode ≠ .immediate
  | .unknown _ => False
  | _ => True

/-- A command has no fault if its destination is no value and its numbers can be read. -/
theorem findSome?_operandOffence?_eq_none_iff {opcode : Opcode} {place : Nat}
    {operands : List Operand} :
    operands.zipIdx.findSome? (operandOffence? opcode place) = none ↔
      Innocent (.command opcode operands) ∧
        ∀ operand ∈ operands, isOverlong operand.value = false := by
  simp only [List.findSome?_eq_none_iff, Prod.forall, List.mem_zipIdx_iff_getElem?,
    operandOffence?_eq_none_iff, Innocent]
  constructor
  · intro h
    refine ⟨fun k hk operand hoperand => (h operand k hoperand).1 hk, ?_⟩
    intro operand hmem
    obtain ⟨k, hk⟩ := List.mem_iff_getElem?.mp hmem
    exact (h operand k hk).2
  · rintro ⟨hwritable, hreadable⟩ operand k hoperand
    exact ⟨fun hk => hwritable k hk operand hoperand,
      hreadable operand (List.mem_of_getElem? hoperand)⟩

/-- There is no fault in a statement that is none by itself, whose values are not too long and whose
label is new. -/
theorem offence?_eq_none_iff {before : Script} {entry : List Char × Statement} :
    offence? before entry = none ↔
      (Innocent entry.2 ∧ ∀ value ∈ entry.2.values, isOverlong value = false) ∧
        ∀ name ∈ definition? entry, name ∉ labelsOf before := by
  obtain ⟨scope, statement⟩ := entry
  cases statement with
  | label name => simp [offence?, Innocent, definition?, Statement.values]
  | command opcode operands =>
    rw [offence?, findSome?_operandOffence?_eq_none_iff]
    simp [definition?, Statement.values]
  | data values =>
    simp [offence?, valueOffence?_eq_none_iff, Innocent, definition?, Statement.values]
  | unknown text => simp [offence?, Innocent]

/-- No statement is at fault if each is innocent, its numbers can be read and each label is new. -/
theorem firstOffence?_eq_none_iff {before script : Script} :
    firstOffence? before script = none ↔
      (∀ entry ∈ script, Innocent entry.2) ∧ Readable script ∧ (labelsOf script).Nodup ∧
        ∀ name ∈ labelsOf script, name ∉ labelsOf before := by
  induction script generalizing before with
  | nil => simp [firstOffence?, labelsOf, Readable]
  | cons entry rest ih =>
    have hreadable : Readable (entry :: rest) ↔
        (∀ value ∈ entry.2.values, isOverlong value = false) ∧ Readable rest :=
      List.forall_mem_cons
    rw [firstOffence?, Option.or_eq_none_iff, ih, offence?_eq_none_iff, hreadable, labelsOf_cons,
      labelsOf_append, List.forall_mem_cons]
    cases hdefinition : definition? entry with
    | none =>
      simp [labelsOf, hdefinition, and_assoc, and_left_comm]
    | some name =>
      have hsingle : labelsOf [entry] = [name] := by simp [labelsOf, hdefinition]
      simp only [hsingle, Option.mem_some, Option.toList_some, List.singleton_append,
        List.nodup_cons, List.mem_cons, List.mem_append]
      grind

/-- No reference is undefined if every name referred to is a label. -/
theorem undefined?_eq_none_iff {script : Script} :
    undefined? script = none ↔ ∀ name ∈ referencesOf script, name ∈ labelsOf script := by
  simp [undefined?]

/-- The statements of a script are innocent if they are known and write to no value. -/
theorem innocent_iff {script : Script} :
    (∀ entry ∈ script, Innocent entry.2) ↔
      (∀ scope text, (scope, Statement.unknown text) ∉ script) ∧
        ∀ scope opcode operands, (scope, Statement.command opcode operands) ∈ script →
          ∀ k, opcode.destination? = some k → ∀ operand, operands[k]? = some operand →
            operand.mode ≠ .immediate := by
  constructor
  · intro h
    exact ⟨fun scope text hmem => h _ hmem, fun scope opcode operands hmem => h _ hmem⟩
  · rintro ⟨hknown, hwritable⟩ ⟨scope, statement⟩ hmem
    cases statement with
    | label name => exact trivial
    | command opcode operands => exact hwritable scope opcode operands hmem
    | data values => exact trivial
    | unknown text => exact absurd hmem (hknown scope text)

/-- A script has none of the faults that can be read off it exactly if both searches for one end
without any. -/
theorem sound_iff {script : Script} :
    Sound script ∧ Readable script ↔
      firstOffence? [] script = none ∧ undefined? script = none := by
  rw [firstOffence?_eq_none_iff, undefined?_eq_none_iff, innocent_iff]
  constructor
  · rintro ⟨h, hreadable⟩
    exact ⟨⟨⟨h.known, h.writable⟩, hreadable, h.distinct, by simp [labelsOf]⟩, h.defined⟩
  · rintro ⟨⟨⟨hknown, hwritable⟩, hreadable, hdistinct, -⟩, hdefined⟩
    exact ⟨⟨hknown, hdistinct, hwritable, hdefined⟩, hreadable⟩

/-- The sound scripts are those with words, if their numbers can be read. -/
theorem encode_eq_ok_iff {script : Script} :
    (∃ words, encode script = .ok words) ↔ Sound script ∧ Readable script := by
  rw [sound_iff, encode]
  cases firstOffence? [] script <;> cases undefined? script <;> simp

/-- An encoding that succeeds is the layout of the script. -/
theorem layout_of_encode {script : Script} {words : List Int} (h : encode script = .ok words) :
    words = layout script := by
  unfold encode at h
  split at h
  · exact absurd h (by simp)
  · exact absurd h (by simp)
  · exact (Except.ok.inj h).symm

end IntegerMachine.Assembly
