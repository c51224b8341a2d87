/-!
# Log lines

What the library reports beside its results: a line of text with a level.
-/

set_option autoImplicit false

namespace IntegerMachine

/-- How important a log line is. -/
inductive Level where
  | debug
  | info
  | error
  deriving DecidableEq, Repr

namespace Level

/-- The name of a level at the head of a line. -/
def name : Level → String
  | debug => "DEBUG"
  | info => "INFO"
  | error => "ERROR"

end Level

/-- One line of a log. -/
structure Line where
  level : Level
  text : String
  deriving DecidableEq, Repr

namespace Line

/-- A line for those who follow the details. -/
def debug (text : String) : Line := ⟨.debug, text⟩

/-- A line for every user. -/
def info (text : String) : Line := ⟨.info, text⟩

/-- A line about a failure. -/
def error (text : String) : Line := ⟨.error, text⟩

/-- Whether a line is shown to a user, who may have asked for details. -/
def isShown (details : Bool) (line : Line) : Bool :=
  details || line.level != .debug

/-- The line with its level in front. -/
def render (line : Line) : String :=
  line.level.name ++ " " ++ line.text

end Line

/-- A result and the lines logged on the way to it. -/
structure Logged (α : Type) where
  result : α
  log : Array Line
  deriving Repr

namespace Logged

variable {ε α β : Type}

/-- A result on the way to which nothing was logged. -/
def quiet (result : α) : Logged α :=
  ⟨result, #[]⟩

/-- The result with lines logged before it. -/
def withLog (log : Array Line) (logged : Logged α) : Logged α :=
  { logged with log := log ++ logged.log }

/-- Goes on from a result, unless it is an error. -/
def andThen (first : Logged (Except ε α)) (next : α → Logged (Except ε β)) :
    Logged (Except ε β) :=
  match first with
  | ⟨.error fault, log⟩ => ⟨.error fault, log⟩
  | ⟨.ok a, log⟩ => (next a).withLog log

end Logged

/-- What a call on a state leaves: its outcome, the state afterwards, and the lines logged. -/
structure Reply (ε σ α : Type) where
  outcome : Except ε α
  after : σ
  log : Array Line

namespace Reply

variable {ε σ α : Type}

/-- Makes a call for each member of a list, up to the first call that fails. -/
def each (call : σ → α → Reply ε σ Unit) (s : σ) : List α → Reply ε σ Unit
  | [] => ⟨.ok (), s, #[]⟩
  | a :: rest =>
    match call s a with
    | ⟨.error e, s, log⟩ => ⟨.error e, s, log⟩
    | ⟨.ok (), s, log⟩ =>
      let reply := each call s rest
      ⟨reply.outcome, reply.after, log ++ reply.log⟩

/-- The reply with lines logged before it. -/
def withLog (log : Array Line) (reply : Reply ε σ α) : Reply ε σ α :=
  { reply with log := log ++ reply.log }

end Reply

end IntegerMachine
