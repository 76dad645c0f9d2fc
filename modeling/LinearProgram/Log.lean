import LinearProgram.Datum

/-!
# Log records and printers

Two kinds of text leave the layer besides its answers. Diagnostics go to the log as records with a level
and a source. Messages of the native solvers go to the printer of the model that is being solved; one of
the printers writes them to the log.
-/

namespace LinearProgram

/-! ## §1 Records -/

/-- A log record. -/
structure LogRecord where
  level : Int
  source : String
  text : String
deriving DecidableEq, Repr

namespace LogRecord

/-- The level of diagnostics, and the lowest one that is kept. -/
def debug : Int := 10

def info : Int := 20

def warning : Int := 30

def error : Int := 40

def levelName (level : Int) : String :=
  if level = 10 then "DEBUG"
  else if level = 20 then "INFO"
  else if level = 30 then "WARNING"
  else if level = 40 then "ERROR"
  else if level = 50 then "CRITICAL"
  else "Level " ++ toString level

/-- Whether the log keeps a record: its source belongs to the layer, and its level is high enough. -/
def isKept (r : LogRecord) : Bool :=
  decide (debug ≤ r.level) && (r.source == "lpbridge" || Text.startsWith "lpbridge." r.source)

end LogRecord

/-! ## §2 Printers -/

/-- Where messages of the solver go: into a recording, nowhere, to a source of the log at some level, or
to a printer that fails. -/
inductive Printer where
  | recording
  | silent
  | log (source : String) (level : Int)
  | broken
deriving DecidableEq, Repr

/-- What has been written: log records and recorded messages. -/
structure Writings where
  records : Array LogRecord
  messages : Array String
deriving DecidableEq

namespace Writings

def empty : Writings := ⟨#[], #[]⟩

instance : Inhabited Writings := ⟨empty⟩

/-- Write a log record, if the log keeps it. -/
def log (w : Writings) (level : Int) (source text : String) : Writings :=
  let r : LogRecord := ⟨level, source, text⟩
  if r.isKept then { w with records := w.records.push r } else w

end Writings

namespace Printer

/-- The printer that writes to the log in the usual place. -/
def standard : Printer := .log "lpbridge.solver" LogRecord.info

def joined (values : List Datum) : String := " ".intercalate (values.map Datum.display)

/-- Print values as one message; `none` where printing fails. The log gets the message without the line
feeds at its end, and no empty message. -/
def print (p : Printer) (w : Writings) (values : List Datum) : Option Writings :=
  match p with
  | .recording => some { w with messages := w.messages.push (joined values) }
  | .silent => some w
  | .log source level =>
    let text := Text.withoutFinalNewlines (joined values)
    some (if text.isEmpty then w else w.log level source text)
  | .broken => none

def display : Printer → String
  | .log source _ => "StandardLogger(" ++ Text.quoted source ++ ")"
  | .silent => "NoopLogger()"
  | .recording => "recording"
  | .broken => "broken"

end Printer

end LinearProgram
