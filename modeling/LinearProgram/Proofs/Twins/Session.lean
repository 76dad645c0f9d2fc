import LinearProgram.Proofs.Twins.Model

/-!
# Operations of twins

`Operation.respond` performs an operation like `Operation.run` and also gives back what a question was
answered. `Operation.Matches` says when two operations are the same but for the models that they name: models are
replaced by their counterparts, variables by those of the same position, and results by those at the
corresponding count of changes. Matching operations on twin states give alike responses and leave twin states,
those apart that make or free models.
-/

namespace LinearProgram

open LinearProgram.Action

/-! ## §1 Responses -/

/-- What a question is answered. -/
inductive Reply where
  | truth (b : Bool)
  | text (s : String)
  | direction (d : Direction)
  | count (n : Nat)
  | variables (vs : List Variable)
  | matrix (c : Compressed)
  | kind (k : VariableKind)
  | bounds (b : Float × Float)
  | number (x : Float)
  | numbers (xs : List Float)
  | solution (s : Solution)

/-- Ask a question and take its answer. -/
def Inquiry.reply : Inquiry → Action Reply
  | modelValid m => .truth <$> Model.isValid m
  | modelName m => .text <$> Model.name m
  | direction m => .direction <$> Model.direction m
  | variableCount m => .count <$> Model.variableCount m
  | constraintCount m => .count <$> Model.countConstraints m
  | variableList m => .variables <$> Model.listVariables m
  | matrix m => .matrix <$> Model.constraintMatrix m
  | variableName v => .text <$> v.name
  | kind v => .kind <$> v.kind
  | bounds v => .bounds <$> v.bounds
  | coefficient v => .number <$> v.coefficient
  | variableText v => .text <$> v.display
  | resultValid r => .truth <$> r.isValid
  | value r v => .number <$> r.primal v
  | reducedCost r v => .number <$> r.dual v
  | objective r => .number <$> r.objective
  | values r => .numbers <$> r.values
  | solution r => .solution <$> r.solution
  | resultText r => .text <$> r.display
  | report r => .text <$> r.report

/-- What an operation gives back, answers to questions included. -/
inductive Response where
  | answer (a : Answer)
  | reply (r : Reply)

/-- Perform an operation and take what it gives back. -/
def Operation.respond : Operation → Action Response
  | .inquire i => .reply <$> i.reply
  | o => .answer <$> o.run

private theorem on_map_snd {α β γ : Type} (f : α → β) (g : α → γ) (a : Action α) (w : World) :
    ((f <$> a).on w).2 = ((g <$> a).on w).2 := by rw [on_map, on_map]

theorem Inquiry.on_reply_snd (i : Inquiry) (w : World) : (i.reply.on w).2 = (i.run.on w).2 := by
  cases i <;> exact on_map_snd _ _ _ _

/-- Performing an operation for its response leaves the same state. -/
theorem Operation.on_respond_snd (o : Operation) (w : World) : (o.respond.on w).2 = w.next o := by
  unfold World.next
  cases o with
  -- an inquiry answers a reply besides; the world it leaves is that of its run
  | inquire i =>
    show ((Response.reply <$> i.reply).on w).2 = (((fun _ => Answer.done) <$> i.run).on w).2
    rw [on_map, on_map]
    exact i.on_reply_snd w
  | _ =>
    unfold Operation.respond
    rw [on_map]

/-! ## §2 Matching operations -/

section

variable (π : Pairing)

/-- Questions about paired models, their variables at one position, and their results. -/
inductive Inquiry.Matches : Inquiry → Inquiry → Prop
  | modelValid {m m'} (h : π.models m m') : Matches (.modelValid m) (.modelValid m')
  | modelName {m m'} (h : π.models m m') : Matches (.modelName m) (.modelName m')
  | direction {m m'} (h : π.models m m') : Matches (.direction m) (.direction m')
  | variableCount {m m'} (h : π.models m m') : Matches (.variableCount m) (.variableCount m')
  | constraintCount {m m'} (h : π.models m m') : Matches (.constraintCount m) (.constraintCount m')
  | variableList {m m'} (h : π.models m m') : Matches (.variableList m) (.variableList m')
  | matrix {m m'} (h : π.models m m') : Matches (.matrix m) (.matrix m')
  | variableName {x x' : Variable} (h : x.Alike π x') : Matches (.variableName x) (.variableName x')
  | kind {x x' : Variable} (h : x.Alike π x') : Matches (.kind x) (.kind x')
  | bounds {x x' : Variable} (h : x.Alike π x') : Matches (.bounds x) (.bounds x')
  | coefficient {x x' : Variable} (h : x.Alike π x') : Matches (.coefficient x) (.coefficient x')
  | variableText {x x' : Variable} (h : x.Alike π x') : Matches (.variableText x) (.variableText x')
  | resultValid {r r' : SolveResult} (h : r.Alike π r') : Matches (.resultValid r) (.resultValid r')
  | value {r r' : SolveResult} {x x'} (h : r.Alike π r') (hx : VariableArgument.Alike π x x') :
      Matches (.value r x) (.value r' x')
  | reducedCost {r r' : SolveResult} {x x'} (h : r.Alike π r') (hx : VariableArgument.Alike π x x') :
      Matches (.reducedCost r x) (.reducedCost r' x')
  | objective {r r' : SolveResult} (h : r.Alike π r') : Matches (.objective r) (.objective r')
  | values {r r' : SolveResult} (h : r.Alike π r') : Matches (.values r) (.values r')
  | solution {r r' : SolveResult} (h : r.Alike π r') : Matches (.solution r) (.solution r')
  | resultText {r r' : SolveResult} (h : r.Alike π r') : Matches (.resultText r) (.resultText r')
  | report {r r' : SolveResult} (h : r.Alike π r') : Matches (.report r) (.report r')

/-- The same operation on paired models. -/
inductive Operation.Matches : Operation → Operation → Prop
  | clone {m m'} (h : π.models m m') : Matches (.clone m) (.clone m')
  | free {m m'} (h : π.models m m') : Matches (.free m) (.free m')
  | addVariable {m m'} (h : π.models m m') (name : String) (kind : Datum) (coefficient lower upper : Number) :
      Matches (.addVariable m name kind coefficient lower upper)
        (.addVariable m' name kind coefficient lower upper)
  | addVariables {m m'} (h : π.models m m') (count : Int) (stem : String) (kind : Datum)
      (coefficient lower upper : Number) :
      Matches (.addVariables m count stem kind coefficient lower upper)
        (.addVariables m' count stem kind coefficient lower upper)
  | addConstraint {m m'} (h : π.models m m') (lower upper : Number) {arguments arguments' : List VariableArgument}
      (ha : List.Forall₂ (VariableArgument.Alike π) arguments arguments') (coefficients : List Number) :
      Matches (.addConstraint m lower upper arguments coefficients)
        (.addConstraint m' lower upper arguments' coefficients)
  | setKind {x x' : Variable} (h : x.Alike π x') (kind : Datum) : Matches (.setKind x kind) (.setKind x' kind)
  | setBounds {x x' : Variable} (h : x.Alike π x') (lower upper : Number) :
      Matches (.setBounds x lower upper) (.setBounds x' lower upper)
  | setCoefficient {x x' : Variable} (h : x.Alike π x') (coefficient : Number) :
      Matches (.setCoefficient x coefficient) (.setCoefficient x' coefficient)
  | setObjective {m m'} (h : π.models m m') (coefficients : List Number)
      {arguments arguments' : List VariableArgument}
      (ha : List.Forall₂ (VariableArgument.Alike π) arguments arguments') :
      Matches (.setObjective m coefficients arguments) (.setObjective m' coefficients arguments')
  | setDirection {m m'} (h : π.models m m') (direction : Datum) :
      Matches (.setDirection m direction) (.setDirection m' direction)
  | setParameters {m m'} (h : π.models m m') (entries : List (String × Datum)) :
      Matches (.setParameters m entries) (.setParameters m' entries)
  | solve {m m'} (h : π.models m m') (method : Option Datum) : Matches (.solve m method) (.solve m' method)
  | solveWithContext {m m'} (h : π.models m m') (c : ContextId) (method : Option Datum) :
      Matches (.solveWithContext m c method) (.solveWithContext m' c method)
  | inquire {i i' : Inquiry} (h : i.Matches π i') : Matches (.inquire i) (.inquire i')
  | meanwhile (i : Interlude) : Matches (.meanwhile i) (.meanwhile i)

/-- Alike replies: variables of paired models at the same positions, and else the same. -/
def Reply.Alike : Reply → Reply → Prop
  | .variables vs, .variables vs' => List.Forall₂ (Variable.Alike π) vs vs'
  | r, r' => r = r'

/-- Alike answers; which number a new model got does not matter. -/
inductive Answer.Alike : Answer → Answer → Prop
  | done : Alike .done .done
  | model (k k' : ModelId) : Alike (.model k) (.model k')
  | variables {vs vs' : List Variable} (h : List.Forall₂ (Variable.Alike π) vs vs') :
      Alike (.variables vs) (.variables vs')
  | result {r r' : SolveResult} (h : r.Alike π r') : Alike (.result r) (.result r')

/-- Alike responses. -/
inductive Response.Alike : Response → Response → Prop
  | answer {a a' : Answer} (h : a.Alike π a') : Alike (.answer a) (.answer a')
  | reply {r r' : Reply} (h : r.Alike π r') : Alike (.reply r) (.reply r')

end

/-! ## §3 Operations and themselves -/

section

variable {problems : Nat → Prop}

/-- Every model stands for itself. -/
private abbrev everyModel (problems : Nat → Prop) : Pairing := .diagonal (fun _ => True) problems

theorem Variable.Alike.self {x : Variable} : x.Alike (everyModel problems) x := ⟨⟨.refl _, trivial⟩, .refl _⟩

theorem VariableArgument.Alike.self {x : VariableArgument} : x.Alike (everyModel problems) x := by
  match x with
  | .plain d => exact .plain d
  | .variable x => exact .variable .self

theorem SolveResult.Alike.self {r : SolveResult} : r.Alike (everyModel problems) r :=
  ⟨⟨.refl _, trivial⟩, .refl _, .refl _, .refl _⟩

/-- Seen through the pairing of everything with itself, an inquiry matches itself. -/
theorem Inquiry.Matches.self {i : Inquiry} : i.Matches (everyModel problems) i := by
  cases i <;> constructor <;>
    first
      | exact ⟨.refl _, trivial⟩
      | exact Variable.Alike.self
      | exact SolveResult.Alike.self
      | exact VariableArgument.Alike.self

/-- Every operation matches itself, but for the making of models. -/
theorem Operation.Matches.self {o : Operation} (h : ∀ name direction options, o ≠ .create name direction options) :
    o.Matches (everyModel problems) o := by
  have same {m : ModelId} : (everyModel problems).models m m := ⟨.refl _, trivial⟩
  have all (arguments : List VariableArgument) :
      List.Forall₂ (VariableArgument.Alike (everyModel problems)) arguments arguments :=
    List.forall₂_same.mpr fun _ _ => VariableArgument.Alike.self
  cases o with
  | create name direction options => exact absurd (Eq.refl _) (h name direction options)
  | clone m => exact .clone same
  | free m => exact .free same
  | addVariable m name kind c l u => exact .addVariable same name kind c l u
  | addVariables m count stem kind c l u => exact .addVariables same count stem kind c l u
  | addConstraint m l u arguments cs => exact .addConstraint same l u (all arguments) cs
  | setKind x kind => exact .setKind Variable.Alike.self kind
  | setBounds x l u => exact .setBounds Variable.Alike.self l u
  | setCoefficient x c => exact .setCoefficient Variable.Alike.self c
  | setObjective m cs arguments => exact .setObjective same cs (all arguments)
  | setDirection m d => exact .setDirection same d
  | setParameters m entries => exact .setParameters same entries
  | solve m method => exact .solve same method
  | solveWithContext m c method => exact .solveWithContext same c method
  | inquire i => exact .inquire Inquiry.Matches.self
  | meanwhile i => exact .meanwhile i

end

/-! ## §4 Alike responses -/

/-- The operation makes or frees a model. -/
def Operation.isLife : Operation → Bool
  | create .. | clone _ | free _ => true
  | _ => false

variable {π : Pairing} {v v' : World}

/-- Matching questions get alike replies. -/
theorem Inquiry.Matches.alike {i i' : Inquiry} (h : i.Matches π i') :
    Action.Alike (Twins π v v') (Reply.Alike π) i.reply i'.reply := by
  have same {α : Type} {f : α → Reply} {a b : Action α} (hab : Action.Alike (Twins π v v') Eq a b)
      (hf : ∀ x, (f x).Alike π (f x)) : Action.Alike (Twins π v v') (Reply.Alike π) (f <$> a) (f <$> b) :=
    hab.map fun x _ hxy => hxy ▸ hf x
  cases h with
  | modelValid h => exact same (Model.alike_isValid h) fun _ => rfl
  | modelName h => exact same (Model.alike_name h) fun _ => rfl
  | direction h => exact same (Model.alike_direction h) fun _ => rfl
  | variableCount h => exact same (Model.alike_variableCount h) fun _ => rfl
  | constraintCount h => exact same (Model.alike_countConstraints h) fun _ => rfl
  | variableList h => exact (Model.alike_listVariables h).map fun _ _ hvars => hvars
  | matrix h => exact same (Model.alike_constraintMatrix h) fun _ => rfl
  | variableName h => exact same h.name fun _ => rfl
  | kind h => exact same h.kind fun _ => rfl
  | bounds h => exact same h.bounds fun _ => rfl
  | coefficient h => exact same h.coefficient fun _ => rfl
  | variableText h => exact same h.display fun _ => rfl
  | resultValid h => exact same h.isValid fun _ => rfl
  | value h hx => exact same (h.primal hx) fun _ => rfl
  | reducedCost h hx => exact same (h.dual hx) fun _ => rfl
  | objective h => exact same h.objective fun _ => rfl
  | values h => exact same h.values fun _ => rfl
  | solution h => exact same h.solution fun _ => rfl
  | resultText h => exact same h.display fun _ => rfl
  | report h => exact same h.report fun _ => rfl

/-- Matching operations give alike responses and leave twins. -/
theorem Operation.Matches.alike {o o' : Operation} (h : o.Matches π o') (hlife : o.isLife = false) :
    Action.Alike (Twins π v v') (Response.Alike π) o.respond o'.respond := by
  have done {a b : Action Unit} (hab : Action.Alike (Twins π v v') Eq a b) :
      Action.Alike (Twins π v v') (Response.Alike π) (.answer <$> (fun _ => Answer.done) <$> a)
        (.answer <$> (fun _ => Answer.done) <$> b) :=
    (hab.map fun _ _ _ => Answer.Alike.done).map fun _ _ => .answer
  cases h with
  | clone h => cases hlife
  | free h => cases hlife
  | addVariable h name kind c l u =>
    exact ((Model.alike_addVariable h name kind c l u).map fun _ _ hx => Answer.Alike.variables (.cons hx .nil)).map
      fun _ _ => .answer
  | addVariables h count stem kind c l u =>
    exact ((Model.alike_addVariables h count stem kind c l u).map fun _ _ => Answer.Alike.variables).map
      fun _ _ => .answer
  | addConstraint h l u ha cs => exact done (Model.alike_addConstraint h l u ha cs)
  | setKind h kind => exact done (h.setKind kind)
  | setBounds h l u => exact done (h.setBounds l u)
  | setCoefficient h c => exact done (h.setCoefficient c)
  | setObjective h cs ha => exact done (Model.alike_setObjective h cs ha)
  | setDirection h d => exact done (Model.alike_setDirection h d)
  | setParameters h entries => exact done (Model.alike_assignParameters h entries)
  | solve h method =>
    exact ((Model.alike_solve h method).map fun _ _ => Answer.Alike.result).map fun _ _ => .answer
  | solveWithContext h c method =>
    exact ((Model.alike_solveWithContext h c method).map fun _ _ => Answer.Alike.result).map fun _ _ => .answer
  | inquire h => exact h.alike.map fun _ _ => .reply
  | meanwhile i =>
    -- what happens meanwhile concerns both states in the same way
    refine done (Alike.change fun w w' hr => ?_)
    exact hr.trans (.of_same
      { hr.alike with clock := rfl, contexts := rfl, script := rfl, surroundings := rfl, registry := rfl }
      rfl rfl rfl rfl rfl rfl rfl rfl rfl rfl)

end LinearProgram
