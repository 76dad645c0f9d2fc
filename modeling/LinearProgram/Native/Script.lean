import LinearProgram.Cancel.Forest
import LinearProgram.Text.Utf8

/-!
# What a native solver does during a run

The layer sees a native solver only through what a run does: the messages it sends, the moments at which
it polls its abort callback, what else happens meanwhile, the code it returns, and the values that can
be read afterwards. A `Script` fixes all of these, so that a run is a function of the script and of the
state of the layer.

What happens in a run is one list of events, in which messages and polls come in any order. A solver that
is told to stop may return at once, or go on with its events as if nothing had been said.
-/

namespace LinearProgram

/-- A message as the library sends it. -/
inductive Payload where
  | text (value : String)
  | bytes (value : List UInt8)
deriving DecidableEq

/-- The message as a hook gets it: the first zero byte ends it. -/
def Payload.terminated : Payload → Payload
  | .text s => .text (String.ofList (s.toList.takeWhile fun c => c != Char.ofNat 0))
  | .bytes bs => .bytes (bs.takeWhile fun b => b != 0)

def Payload.read : Payload → String
  | .text s => s
  | .bytes bs => Text.ofUtf8 bs

/-- What happens during a run: the solver sends a message, it polls its abort callback, a context is canceled
from elsewhere, time passes, or the run breaks off with a fault. A poll is `heeded` if the solver returns as
soon as it is told to stop; after another one the run goes on whatever the answer. -/
inductive RunEvent where
  | message (text : Payload)
  | poll (heeded : Bool := true)
  | cancel (context : ContextId)
  | advance (seconds : Number)
  | fail (fault : Fault)
deriving DecidableEq

/-- Whether the run ends with the event if it tells the solver to stop. -/
def RunEvent.heeded : RunEvent → Bool
  | poll heeded => heeded
  | message _ | cancel _ | advance _ | fail _ => false

/-- The values that a run leaves behind. Lists are counted from one; beyond their end all is zero. -/
structure RunValues where
  x : List Float
  dual : List Float
  objective : Float
  integerX : List Float
  integerObjective : Float
  rowX : List Float
deriving DecidableEq

namespace RunValues

/-- Before any run. -/
def none : RunValues := ⟨[], [], 0, [], 0, []⟩

instance : Inhabited RunValues := ⟨none⟩

/-- Element `j` of a list counted from one. -/
def element (values : List Float) (j : Int) : Float :=
  if 1 ≤ j then (values[(j - 1).toNat]?).getD 0 else 0

end RunValues

/-- How the native solvers behave in their next runs. The first group is for a run of the simplex method
or of a solver that has one method only, the second for an integer search. A run opens with its messages,
and then come its events, which may be messages too. A fault in place of the values makes a run fail when
it comes to leave them behind. -/
structure Script where
  messages : List Payload
  simplexEvents : List RunEvent
  simplexCode : Int
  status : Int
  integerMessages : List Payload
  events : List RunEvent
  integerCode : Int
  integerStatus : Int
  code : Int
  stopCode : Option Int
  values : Except Fault RunValues

namespace Script

/-- Silent runs that find an optimal solution of zeros. -/
def standard : Script :=
  { messages := [], simplexEvents := [], simplexCode := 0, status := 5, integerMessages := []
    events := [], integerCode := 0, integerStatus := 5, code := 0, stopCode := none
    values := .ok RunValues.none }

instance : Inhabited Script := ⟨standard⟩

/-- All that happens in a run of the simplex method. -/
def simplexCourse (s : Script) : List RunEvent := s.messages.map .message ++ s.simplexEvents

/-- All that happens in an integer search. -/
def searchCourse (s : Script) : List RunEvent := s.integerMessages.map .message ++ s.events

/-- All that happens in a run of a solver that has one method only. -/
def course (s : Script) : List RunEvent := s.messages.map .message ++ s.events

end Script

end LinearProgram
