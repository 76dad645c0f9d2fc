import LinearProgram.World

/-!
# Choosing an engine

An engine is chosen by its name, in any case, or as the first available one. Choosing it loads its
library, so a choice that succeeds can be used. A setting of the process may name the engine that is
taken by default.
-/

namespace LinearProgram

/-- A choice of an engine: by name, given as a plain value, or an engine of which it is known that it
cannot be used. -/
inductive EngineChoice where
  | named (name : Datum)
  | unusable

namespace EngineChoice

/-- The source of the records about choices. -/
def source : String := "lpbridge.backends"

/-- The setting that names the default engine. -/
def setting : String := "LPBRIDGE_BACKEND"

/-- A character in lower case, as far as the names of engines need it: the Latin letters, and the sign
for kelvin, which is a capital K. -/
def lower (c : Char) : Char := if c = '\u212A' then 'k' else c.toLower

/-- The engine of a name. -/
def kind? (name : String) : Option EngineKind :=
  EngineKind.all.find? fun k => k.name == String.ofList (name.toList.map lower)

end EngineChoice

namespace Action

open EngineChoice

/-- Load the library of an engine, unless it is loaded. -/
def attemptLoad (kind : EngineKind) : Action LoadAttempt := do
  let w ← get
  let attempt := (w.library kind).load w.surroundings
  -- what a failed attempt leaves is still not loaded
  set (w.withLibrary kind attempt.library)
  match attempt.record? with
  | some r => modify fun w => w.log r.level r.source r.text
  | none => pure ()
  pure attempt

/-- Make sure that an engine can be used. -/
def ensureAvailable (kind : EngineKind) : Action Unit := do
  let _ ← lift (← attemptLoad kind).result

def isAvailable (kind : EngineKind) : Action Bool := do
  lift (Library.available (← attemptLoad kind))

/-- The engine of a choice, ready for use. -/
def select (choice : EngineChoice) : Action EngineKind := do
  match choice with
  | .unusable => fail (.engineUnavailable "null")
  | .named d =>
    match kind? d.display with
    | none => fail (.unknownEngine d.quoted)
    | some kind =>
      -- a name that is known is not enough
      ensureAvailable kind
      pure kind

def firstAvailable : List EngineKind → Action EngineKind
  | [] => fail .noEngine
  | kind :: rest => do
    if ← isAvailable kind then
      debug source ("backend " ++ Text.quoted kind.name ++ " selected")
      pure kind
    else firstAvailable rest

/-- The engine that the setting names, or else the first that can be used. -/
def selectDefault : Action EngineKind := do
  match (← get).surroundings.setting? setting with
  | some name =>
    debug source ("backend " ++ Text.quoted name ++ " selected by " ++ setting)
    -- there is no way back to the other engine if this one cannot be used
    select (.named (.text name))
  | none => firstAvailable EngineKind.all

def availableEngines : Action (List EngineKind) :=
  EngineKind.all.filterM isAvailable

end Action

end LinearProgram
