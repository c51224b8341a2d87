import IntegerMachine.Assembly.Action

/-!
# Assembling programs

A program is assembled from sources in two passes.  The first lays out the statements of every
source, one source after another; the second puts the places of the labels where they are
referred to.  A name without a scope belongs to the scope of the source it is in.
-/

set_option autoImplicit false

namespace IntegerMachine.Assembly

/-- Assembly text of a module, which may belong to a package. -/
structure Source where
  package : Option String
  name : String
  text : String
  deriving DecidableEq, Repr

/-- The scope of the names in a source. -/
def Source.scope (source : Source) : String :=
  match source.package with
  | none => source.name
  | some package => package ++ "." ++ source.name

/-- The actions that a source stands for, in its scope. -/
def Source.actions (source : Source) : List Action :=
  .enter source.scope.toList :: (parse source.text.toList).flatMap Statement.actions

/-- Lays out a source. -/
def Draft.addSource (d : Draft) (source : Source) : Drafting :=
  (d.performAll source.actions).withLog #[.info s!"Processing {source.scope}"]

/-- Lays out sources. -/
def Draft.addSources (d : Draft) (sources : List Source) : Drafting :=
  Reply.each Draft.addSource d sources

/-- The word of an item, where the labels have the given places. -/
def Item.wordWith (labels : List (List Char × Nat)) : Item → Except Fault Int
  | word value => .ok value
  | reference name =>
    match labels.lookup name with
    | none => .error (.unknownLabel name)
    | some place => .ok place

/-- The words of a draft; the first reference without a label is at fault. -/
def Draft.words (d : Draft) : Except Fault (List Int) :=
  d.items.toList.mapM (Item.wordWith d.labels)

/-- The words that sources are assembled to. -/
def assemble (sources : List Source) : Logged (Except Fault (List Int)) :=
  match Draft.empty.addSources sources with
  | ⟨.error fault, _, log⟩ => ⟨.error fault, log⟩
  | ⟨.ok (), d, log⟩ => ⟨d.words, log⟩

/-- The module of a text that is assembled alone. -/
def defaultModule : String := "main"

/-- The words that one text is assembled to. -/
def assembleText (name text : String) : Logged (Except Fault (List Int)) :=
  assemble [⟨none, name, text⟩]

end IntegerMachine.Assembly
