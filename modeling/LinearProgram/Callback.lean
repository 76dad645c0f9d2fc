import LinearProgram.World

/-!
# Callbacks

What happens when a native library calls back. The library knows nothing but a handle; the object behind
it is looked up in the registry. A callback never fails: whatever goes wrong is written to the log, and
the library is told to go on.
-/

namespace LinearProgram

/-- The source of the records that callbacks write. -/
def callbackSource : String := "lpbridge.callbacks"

namespace Action

/-- Whether the context registered under a handle is done now. Nothing under the handle means "go on";
an object that is no context is an error. -/
def shouldAbort (h : Handle) : Action Bool := do
  match (← get).registry.resolve h with
  | none => pure false
  -- a registered null looks the same as nothing registered
  | some (.plain .null) => pure false
  | some (.context c) => return (← contextError c).isSome
  | some _ =>
    logError callbackSource "abort poll failed"
    pure false

/-- The printer that an object has. -/
def printerOf (target : Target) : Action (Option Printer) := do
  match target with
  | .model m => return ((← get).model? m).map (·.printer)
  | .holder printer => pure (some printer)
  | .context _ | .plain _ => pure none

/-- Print a message of the solver with the printer of the object registered under a handle. Line feeds
at the end are dropped, and with them messages that hold nothing else. -/
def forwardMessage (h : Handle) (message : Payload) : Action Unit := do
  match (← get).registry.resolve h with
  | none => pure ()
  | some (.plain .null) => pure ()
  | some target =>
    let text := Text.withoutFinalNewlines message.read
    if text.isEmpty then pure ()
    else
      -- an object without a printer and a printer that fails end alike: in the log
      let printer ← printerOf target
      let written := (← get).writings
      match printer.bind fun p => p.print written [.text text] with
      | some writings => modify fun w => { w with writings := writings }
      | none => logError callbackSource "forwarding solver message failed"

/-- Write a record when registrations are left over at the end; an error when the setting for debugging
is present, a warning otherwise. -/
def reportLeaks : Action Unit := do
  let w ← get
  if w.registry.count ≠ 0 then
    let level := if (w.surroundings.setting? "LPBRIDGE_DEBUG").isSome then LogRecord.error
      else LogRecord.warning
    modify fun w => w.log level "lpbridge.registry"
      (toString w.registry.count ++ " callback handle(s) still registered at exit")

end Action

end LinearProgram
