import IntegerMachine.Machine.Run

/-!
# Talking to a machine in text

A line of text is queued as the code points of its characters and a line feed.  Of what the
machine writes, the values below a limit are read as characters, the others as they are.
-/

set_option autoImplicit false

namespace IntegerMachine

namespace Console

/-- The value that ends a line. -/
def newline : Int := 10

/-- The first value that is no character. -/
def textLimit : Int := 128

/-- The values that stand for a line of text. -/
def lineValues (text : String) : List Int :=
  text.toList.map (fun c => (c.toNat : Int)) ++ [newline]

/-- Whether a value is read as a character. -/
def isText (value : Int) : Bool :=
  0 ≤ value && value < textLimit

/-- The text among values. -/
def textOf (values : List Int) : List Char :=
  (values.filter isText).map fun value => Char.ofNat value.toNat

/-- The values that are no text. -/
def extraOf (values : List Int) : List Int :=
  values.filter fun value => !isText value

end Console

namespace Machine

/-- Queues a line of text. -/
def sendLine (m : Machine) (text : String) : Machine × Line :=
  (m.feedAll (Console.lineValues text), .debug s!"> {text}")

/-- Runs until the machine blocks or halts, and gives the text it wrote and the values that are
no text. -/
def readText (rounds : Nat) (m : Machine) :
    Option (Reply Fault Machine (List Char × List Int)) :=
  (m.run rounds).map fun reply =>
    ⟨reply.outcome.map fun values => (Console.textOf values, Console.extraOf values),
      reply.after, reply.log⟩

end Machine

end IntegerMachine
