import LinearProgram.Choice

/-!
# Solve parameters

The three settings of a model's solves. They can be read from a dictionary of plain values: the three
documented keys set the fields, and a name that no parameter set answers to is ignored. The name of an
operation is taken over as well: the plain value then stands in front of the operation and cannot be
called.

One key replaces everything that a set holds by the entries of a dictionary. A setting that these leave
out is missing from then on, and whoever asks for it gets a fault.
-/

namespace LinearProgram

/-! ## §1 The parameter set -/

/-- What the setting of the method holds: a method, or a plain value that was put in its place. -/
inductive MethodSetting where
  | method (value : Method)
  | plain (value : Datum)

/-- The method, unless a plain value stands in its place. -/
def MethodSetting.read : MethodSetting → Except Fault Method
  | method m => .ok m
  | plain d => .error (.missingMember d.typeName "value")

/-- Parameters of a solve, each setting with its value unless it is missing. `others` lists what else the
set holds by name, the latest first; what has the name of an operation stands in front of it. -/
structure Parameters where
  verbose? : Option Datum
  presolve? : Option Datum
  method? : Option MethodSetting
  others : List (String × Datum)

namespace Parameters

/-- Quiet, with presolving, and the method chosen by the variables. -/
def standard : Parameters := ⟨some (.bool false), some (.bool true), some (.method .auto), []⟩

instance : Inhabited Parameters := ⟨standard⟩

def settings : List String := ["verbose", "presolve", "method"]

/-- The operations of a parameter set that go by a name. -/
def operations : List String := ["copy", "from_dict", "to_dict"]

/-- The names that belong to every set and hold no setting. -/
def fixedNames : List String := ["__class__", "__dict__", "__weakref__"]

/-! ## §2 Looking settings up -/

/-- A setting by its name, unless it is missing. -/
def need {α : Type} (name : String) (setting : Option α) : Except Fault α :=
  match setting with
  | some a => .ok a
  | none => .error (.missingMember "Parameters" name)

/-- Whether messages of the solver are passed on. -/
def verbose (p : Parameters) : Except Fault Datum := need "verbose" p.verbose?

def presolve (p : Parameters) : Except Fault Datum := need "presolve" p.presolve?

def method (p : Parameters) : Except Fault MethodSetting := need "method" p.method?

/-- Whether the set answers to a name. -/
def knows (p : Parameters) (key : String) : Bool :=
  if key = "verbose" then p.verbose?.isSome
  else if key = "presolve" then p.presolve?.isSome
  else if key = "method" then p.method?.isSome
  else operations.contains key || fixedNames.contains key || (p.others.lookup key).isSome

/-! ## §3 Assigning -/

/-- A set that holds the entries of a dictionary and nothing else. -/
def ofMembers (entries : List (String × Datum)) : Parameters :=
  { verbose? := entries.lookup "verbose"
    presolve? := entries.lookup "presolve"
    method? := (entries.lookup "method").map .plain
    others := entries.filter fun e => !settings.contains e.1 }

/-- Let the set hold the value `d` under the name `key`. The method is read as one; of the names that
belong to every set, only the dictionary of its members can be replaced. -/
def put (p : Parameters) (key : String) (d : Datum) : Except Fault Parameters :=
  if key = "verbose" then .ok { p with verbose? := some d }
  else if key = "presolve" then .ok { p with presolve? := some d }
  else if key = "method" then do
    let m ← Choice.read d
    return { p with method? := some (.method m) }
  else if key = "__class__" then .error (.notFamily d.typeName)
  else if key = "__weakref__" then .error (.fixedAttribute key)
  else if key = "__dict__" then
    match d with
    | .dict entries => .ok (ofMembers entries)
    | other => .error (.notDictionary other.typeName)
  else .ok { p with others := (key, d) :: p.others }

/-- Take the entry `key` over with the value `d`. A name that the set does not answer to is ignored, but
a value for the method has to be one even then. -/
def assign (p : Parameters) (key : String) (d : Datum) : Except Fault Parameters :=
  if p.knows key then p.put key d
  -- the entry is read before the set is asked whether it knows the name
  else if key = "method" then do
    let _ ← (Choice.read d : Except Fault Method)
    return p
  else .ok p

def assignAll (p : Parameters) : List (String × Datum) → Except Fault Parameters
  | [] => .ok p
  | (key, d) :: rest => do (← p.assign key d).assignAll rest

/-! ## §4 Making, copying and showing -/

def ofEntries (entries : List (String × Datum)) : Except Fault Parameters :=
  standard.assignAll entries

/-- The parameters given by named arguments. Every argument has to be one of the three settings, and
the method is read last. The name `self` stands for the set itself, which is given already. -/
def ofArguments (arguments : List (String × Datum)) : Except Fault Parameters := do
  match arguments.find? fun a => !settings.contains a.1 with
  | some (key, _) => .error (if key = "self" then .repeatedArgument key else .unknownArgument key)
  | none =>
    let method ← match arguments.lookup "method" with
      | some d => Choice.read d
      | none => .ok Method.auto
    return { verbose? := some ((arguments.lookup "verbose").getD (.bool false))
             presolve? := some ((arguments.lookup "presolve").getD (.bool true))
             method? := some (.method method)
             others := [] }

/-- Call the operation `key`, unless a plain value stands in front of it. -/
def call (p : Parameters) (key : String) : Except Fault Unit :=
  match p.others.lookup key with
  | some d => .error (.notCallable d.typeName)
  | none => .ok ()

/-- The settings as a dictionary, in the order verbose, presolve, method. -/
def entries (p : Parameters) : Except Fault (List (String × Datum)) := do
  p.call "to_dict"
  let verbose ← p.verbose
  let presolve ← p.presolve
  let method ← (← p.method).read
  return [("verbose", verbose), ("presolve", presolve), ("method", .text (Choice.name method))]

/-- A parameter set of its own with the same settings. -/
def copy (p : Parameters) : Except Fault Parameters := do
  -- a value that stands in front of the operation is called in its place
  p.call "copy"
  ofEntries (← p.entries)

def same (p q : Parameters) : Except Fault Bool := do
  return Datum.same (.dict (← p.entries)) (.dict (← q.entries))

def display (p : Parameters) : Except Fault String := do
  let verbose ← p.verbose
  let presolve ← p.presolve
  let method ← (← p.method).read
  return "Parameters(verbose=" ++ verbose.display ++ ", presolve=" ++ presolve.display ++ ", method=" ++
    Choice.name method ++ ")"

end Parameters

end LinearProgram
