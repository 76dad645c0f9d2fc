import LinearProgram.Proofs.Naming
import LinearProgram.Proofs.Representation
import LinearProgram.Proofs.Validity

/-!
# What variables tell

The operations of a session say by themselves which attributes each variable has: `World.naming` follows the names
and `World.programs` kinds, bounds and coefficients. Here it is shown that every variable tells exactly these.

Kinds are told by the model, and everything else by the engine, except for the bounds of a binary variable, which
nobody is asked for. The engines store bounds in different ways: GLPK by one of five kinds, lp_solve with a large
number for an open side. `Program.Column.shown` is what they make of them, and `shown_eq` says that it is the pair
that was given, with infinite sides of the proper sign.
-/

open LinearProgram.Action

namespace LinearProgram

/-! ## §1 Bounds as they are shown -/

/-- Doubles that are the same number. The two zeros are. -/
def Double.Same (x y : Float) : Prop := x = y ∨ (x == y) = true

namespace LpSolve

/-- The double is infinite, or lp_solve takes it for finite. -/
def Spares (x : Float) : Prop := x.isInf = false → x.abs < infinity

instance (x : Float) : Decidable (Spares x) := inferInstanceAs (Decidable (_ → _))

theorem restoreInfinity_of_spares {x : Float} (h : Spares x) (hx : x.isInf = false) : restoreInfinity x = x :=
  if_pos (h hx)

theorem restoreInfinity_infinity : restoreInfinity infinity = Double.infinity := by decide +kernel

theorem restoreInfinity_neg_infinity : restoreInfinity (-infinity) = Double.negInfinity := by decide +kernel

end LpSolve

namespace Program.Column

/-- The bounds of a column. A side that is infinite, with whatever sign, is open. -/
def bounds (c : Column) : Float × Float :=
  (if c.lower.isInf then Double.negInfinity else c.lower, if c.upper.isInf then Double.infinity else c.upper)

/-- The bounds of a column as an engine shows them after storing them. -/
def shown (kind : EngineKind) (c : Column) : Float × Float :=
  match kind with
  | .glpk => c.bound.decode
  | .lpsolve =>
    (LpSolve.restoreInfinity (LpSolve.sides c.bound).1, LpSolve.restoreInfinity (LpSolve.sides c.bound).2)

/-- The bounds of a column as an engine understands them: on lp_solve, a large number is infinite, too. -/
def understood (kind : EngineKind) (c : Column) : Float × Float :=
  let understand (x : Float) : Float :=
    match kind with
    | .glpk => x
    | .lpsolve => LpSolve.restoreInfinity x
  (if c.lower.isInf then Double.negInfinity else understand c.lower,
    if c.upper.isInf then Double.infinity else understand c.upper)

/-- What is shown is what the engine understands. On GLPK, a fixed column has one value, so that the sign of a zero
may be that of the lower bound. -/
theorem shown_understood {c : Column} (h : Bound.encode c.lower c.upper = .ok c.bound) (kind : EngineKind) :
    (c.shown kind).1 = (c.understood kind).1 ∧ Double.Same (c.shown kind).2 (c.understood kind).2 := by
  unfold shown understood
  cases kind with
  | glpk =>
    -- free, upper, lower, fixed, double; a fixed column shows its lower bound twice
    rcases Bound.encode_cases h with
      ⟨hl, hu, hb⟩ | ⟨hl, hu, hb⟩ | ⟨hl, hu, hb⟩ | ⟨hl, hu, hsame, hb⟩ | ⟨hl, hu, hb⟩ <;>
      simp only [hb, hl, hu, Bound.decode, BoundKind.sides]
    · exact ⟨rfl, .inl rfl⟩
    · exact ⟨rfl, .inl rfl⟩
    · exact ⟨rfl, .inl rfl⟩
    · exact ⟨rfl, .inr hsame⟩
    · exact ⟨rfl, .inl rfl⟩
  | lpsolve =>
    rcases Bound.encode_cases h with
      ⟨hl, hu, hb⟩ | ⟨hl, hu, hb⟩ | ⟨hl, hu, hb⟩ | ⟨hl, hu, -, hb⟩ | ⟨hl, hu, hb⟩ <;>
      simp only [hb, hl, hu, LpSolve.sides, LpSolve.restoreInfinity_infinity, LpSolve.restoreInfinity_neg_infinity] <;>
      exact ⟨rfl, .inl rfl⟩

/-- No finite bound of the column counts as infinite on lp_solve. -/
def Spared (c : Column) : Prop := LpSolve.Spares c.lower ∧ LpSolve.Spares c.upper

instance (c : Column) : Decidable c.Spared := inferInstanceAs (Decidable (_ ∧ _))

/-- Bounds that lp_solve does not take for infinite are understood as they were given. -/
theorem understood_of_spared {c : Column} {kind : EngineKind} (hs : kind = .lpsolve → c.Spared) :
    c.understood kind = c.bounds := by
  unfold understood bounds
  cases kind with
  | glpk => rfl
  | lpsolve =>
    obtain ⟨hlower, hupper⟩ := hs rfl
    -- a finite bound short of 1e30 is understood as it is
    have hside {x y : Float} (hx : LpSolve.Spares x) :
        (if x.isInf then y else LpSolve.restoreInfinity x) = if x.isInf then y else x := by
      cases hinf : x.isInf with
      | true => rfl
      | false => exact LpSolve.restoreInfinity_of_spares hx hinf
    exact Prod.ext (hside hlower) (hside hupper)

/-- **What is shown is what was given.** -/
theorem shown_eq {c : Column} (h : Bound.encode c.lower c.upper = .ok c.bound) {kind : EngineKind}
    (hs : kind = .lpsolve → c.Spared) :
    (c.shown kind).1 = c.bounds.1 ∧ Double.Same (c.shown kind).2 c.bounds.2 :=
  understood_of_spared hs ▸ shown_understood h kind

/-- A binary column is bounded by zero and one. -/
def Settled (c : Column) : Prop := c.kind = .binary → c.lower = 0 ∧ c.upper = 1

/-- A column whose kind has been set is settled. -/
theorem withKind_settled (kind : VariableKind) (c : Column) : (c.withKind kind).Settled := by
  unfold withKind Settled
  by_cases hk : kind = .binary
  · rw [if_pos hk]
    exact fun _ => ⟨rfl, rfl⟩
  · rw [if_neg hk]
    exact fun h => absurd h hk

theorem Settled.withBounds {c : Column} (h : c.Settled) (lower upper : Float) :
    (c.withBounds lower upper).Settled := by
  unfold Column.withBounds
  by_cases hk : c.kind = .binary
  · rw [if_pos hk]
    exact h
  · rw [if_neg hk]
    exact fun hbinary => absurd hbinary hk

theorem Settled.withCoefficient {c : Column} (h : c.Settled) (x : Float) : (c.withCoefficient x).Settled := h

/-- A settled binary column shows zero and one, on both engines. -/
theorem shown_of_settled {c : Column} (h : c.Settled) (hk : c.kind = .binary) (kind : EngineKind) :
    c.shown kind = (0, 1) := by
  obtain ⟨hlower, hupper⟩ := h hk
  -- a binary column has the bounds of its kind, whatever was asked for
  have hbound : c.bound = Bound.binary := by
    unfold bound
    rw [hlower, hupper]
    exact boundOf_eq (World.eq_ok_of_toOption (by decide +kernel))
  unfold shown
  rw [hbound]
  cases kind with
  | glpk => rfl
  | lpsolve => decide +kernel

end Program.Column

/-! ## §2 Asking an engine -/

/-- Runs leave what is stored of a program. -/
theorem Native.Problem.Stores.of_core {q : Native.Problem} {p : Program} (h : q.core.Stores p) : q.Stores p := by
  cases q with
  | glpk q => exact ⟨h.direction, h.columns, h.rows⟩
  | lpsolve q => exact ⟨h.direction, h.columns, h.rows, h.entries⟩
  | deleted => exact h

/-- Behind a column of the program stands a stored one. -/
private theorem column_of_map {α β γ : Type} {xs : Array α} {ys : List β} {f : α → γ} {g : β → γ}
    (h : xs.toList.map f = ys.map g) {i : Nat} {y : β} (hy : ys[i]? = some y) :
    ∃ x, xs[i]? = some x ∧ f x = g y := by
  have hmapped : (xs.toList.map f)[i]? = some (g y) := by rw [h, List.getElem?_map, hy]; rfl
  simpa using hmapped

namespace Engine

variable {e : Engine} {w : World} {n : Nat} {q : Native.Problem} {p : Program} {i : Nat} {c : Program.Column}

/-- An engine tells the coefficient of a stored column. -/
theorem on_objective (h : w.Compliant) (ho : e.Owns w.native n q) (hs : q.Stores p)
    (hi : p.columns[i]? = some c) : ((e.objective (i + 1)).on w).1 = .ok c.coefficient := by
  -- columns are numbered from one
  have hfirst : 1 ≤ (i : Int) + 1 := by omega
  unfold objective
  cases hk : e.kind with
  | glpk =>
    obtain ⟨q, rfl, hq⟩ := ho.glpk? hk
    obtain ⟨x, hx, hstored⟩ := column_of_map (Glpk.Problem.Stores.columns hs) hi
    have hcoefficient : x.objective = c.coefficient := congrArg Glpk.Column.objective hstored
    dsimp only
    unfold Glpk.objective
    rw [Glpk.on_ask (h.grants _), ho.number, hq]
    simp [Glpk.Problem.column?, hfirst, hx, hcoefficient]
  | lpsolve =>
    obtain ⟨q, rfl, hq⟩ := ho.lpsolve? hk
    obtain ⟨x, hx, hstored⟩ := column_of_map (LpSolve.Problem.Stores.columns hs) hi
    have hcoefficient : x.objective = c.coefficient := congrArg LpSolve.Column.objective hstored
    dsimp only
    unfold LpSolve.objective
    rw [LpSolve.on_ask (h.grants _), ho.number, hq]
    simp [LpSolve.Problem.column?, hfirst, hx, hcoefficient]

/-- An engine shows the bounds of a stored column. -/
theorem on_columnBounds (h : w.Compliant) (ho : e.Owns w.native n q) (hs : q.Stores p)
    (hi : p.columns[i]? = some c) : ((e.columnBounds (i + 1)).on w).1 = .ok (c.shown e.kind) := by
  have hfirst : 1 ≤ (i : Int) + 1 := by omega
  unfold columnBounds
  -- GLPK is asked for the type of the bound first, lp_solve for the two sides at once
  cases hk : e.kind with
  | glpk =>
    obtain ⟨q, rfl, hq⟩ := ho.glpk? hk
    obtain ⟨x, hx, hstored⟩ := column_of_map (Glpk.Problem.Stores.columns hs) hi
    have hbound : x.bound = Glpk.boundCode c.bound.kind := congrArg Glpk.Column.bound hstored
    have hlower : x.lower = c.bound.lower := congrArg Glpk.Column.lower hstored
    have hupper : x.upper = c.bound.upper := congrArg Glpk.Column.upper hstored
    have hcolumn : q.column? (i + 1) = some x := by simp [Glpk.Problem.column?, hfirst, hx]
    have hask {α : Type} (w' : World) (hw' : w'.Compliant) (hnative : w'.native = w.native) (query : Glpk.Query)
        (absent : α) (answer : Glpk.Problem → α) : (Glpk.ask e.number query absent answer).on w' =
          (.ok (answer q), w'.after (.glpk (.read e.number query))) := by
      rw [Glpk.on_ask (hw'.grants _), hnative, ho.number, hq]
      rfl
    dsimp only
    unfold Glpk.columnBounds
    rw [on_bind_of_ok (hask w h rfl _ _ _), hcolumn]
    simp only [Option.map_some, Option.getD_some, hbound, Glpk.boundKind_boundCode]
    rw [on_bind_of_ok (on_lift _ _), on_bind_of_ok (hask _ (h.after _) rfl _ _ _),
      on_bind_of_ok (hask _ ((h.after _).after _) rfl _ _ _), hcolumn]
    simp [hlower, hupper, Program.Column.shown]
  | lpsolve =>
    obtain ⟨q, rfl, hq⟩ := ho.lpsolve? hk
    obtain ⟨x, hx, hstored⟩ := column_of_map (LpSolve.Problem.Stores.columns hs) hi
    have hlower : x.lower = (LpSolve.sides c.bound).1 := congrArg LpSolve.Column.lower hstored
    have hupper : x.upper = (LpSolve.sides c.bound).2 := congrArg LpSolve.Column.upper hstored
    have hcolumn : q.column? (i + 1) = some x := by simp [LpSolve.Problem.column?, hfirst, hx]
    have hask {α : Type} (w' : World) (hw' : w'.Compliant) (hnative : w'.native = w.native) (query : LpSolve.Query)
        (absent : α) (answer : LpSolve.Problem → α) : (LpSolve.ask e.number query absent answer).on w' =
          (.ok (answer q), w'.after (.lpsolve (.read e.number query))) := by
      rw [LpSolve.on_ask (hw'.grants _), hnative, ho.number, hq]
      rfl
    dsimp only
    unfold LpSolve.columnBounds
    rw [on_bind_of_ok (hask w h rfl _ _ _), on_bind_of_ok (hask _ (h.after _) rfl _ _ _), hcolumn]
    simp [hlower, hupper, Program.Column.shown]

end Engine

/-! ## §3 Asking a variable -/

/-- What a variable tells of itself. -/
structure Variable.Tells (v : Variable) (w : World) (name : String) (kind : VariableKind) (bounds : Float × Float)
    (coefficient : Float) : Prop where
  name : (v.name.on w).1 = .ok name
  kind : (v.kind.on w).1 = .ok kind
  bounds : (v.bounds.on w).1 = .ok bounds
  coefficient : (v.coefficient.on w).1 = .ok coefficient

/-- A variable tells one thing. -/
theorem Variable.Tells.unique {v : Variable} {w : World} {name name' : String} {kind kind' : VariableKind}
    {bounds bounds' : Float × Float} {coefficient coefficient' : Float}
    (h : v.Tells w name kind bounds coefficient) (h' : v.Tells w name' kind' bounds' coefficient') :
    name = name' ∧ kind = kind' ∧ bounds = bounds' ∧ coefficient = coefficient' :=
  ⟨Except.ok.inj (h.name.symm.trans h'.name), Except.ok.inj (h.kind.symm.trans h'.kind),
    Except.ok.inj (h.bounds.symm.trans h'.bounds), Except.ok.inj (h.coefficient.symm.trans h'.coefficient)⟩

/-- A variable tells what its model and its problem keep. -/
theorem Variable.tells_of_stores {w : World} {m : ModelId} {model : Model} {n : Nat} {q : Native.Problem}
    {p : Program} {i : Nat} {c : Program.Column} {name : String} (h : w.Compliant) (hm : w.model? m = some model)
    (hf : model.freed = false) (ho : model.engine.Owns w.native n q) (hs : q.Stores p)
    (hkinds : model.kinds = p.columns.map (·.kind)) (hi : p.columns[i]? = some c) (hsettled : c.Settled)
    (hname : q.columnNames[i]? = some name) :
    (⟨m, i⟩ : Variable).Tells w name c.kind (c.shown model.engine.kind) c.coefficient := by
  have hopen := on_openModel_of_open hm hf
  have hkind : (⟨m, i⟩ : Variable).kind.on w = (.ok c.kind, w) := by
    have hlt : i < p.columns.length := (List.getElem?_eq_some_iff.mp hi).1
    have hplace : place? model.kinds.length (i : Int) = some i := by
      rw [hkinds, List.length_map]
      simp [place?, hlt]
    rw [Variable.on_kind hm hf, hplace, Option.bind_some, hkinds, List.getElem?_map, hi]
    rfl
  have hbounds := Engine.on_columnBounds h ho hs hi
  refine ⟨?_, congrArg Prod.fst hkind, ?_, ?_⟩
  · unfold Variable.name
    rw [on_bind_of_ok hopen]
    exact Engine.on_columnName h ho hname
  · unfold Variable.bounds
    rw [on_bind_of_ok hkind]
    -- the bounds of a binary variable are not read but known
    by_cases hk : c.kind = .binary
    · rw [if_pos hk, Program.Column.shown_of_settled hsettled hk]
      rfl
    · rw [if_neg hk, on_bind_of_ok hopen]
      exact hbounds
  · unfold Variable.coefficient
    rw [on_bind_of_ok hopen]
    exact Engine.on_objective h ho hs hi

/-! ## §4 Columns through a session -/

namespace Program

/-- All binary columns are bounded by zero and one. -/
def Settled (p : Program) : Prop := ∀ c ∈ p.columns, c.Settled

/-- Changes that keep columns settled keep a program settled. -/
theorem Settled.modify {p : Program} (h : p.Settled) {f : Column → Column}
    (hf : ∀ c : Column, c.Settled → (f c).Settled) (j : Nat) : (p.modify j f).Settled := by
  intro c hc
  rcases mem_modify hc with hc | ⟨c', hc', rfl⟩
  · exact h c hc
  · exact hf c' (h c' hc')

theorem Settled.setObjective {p : Program} (h : p.Settled) (terms : List (Nat × Float)) :
    (p.setObjective terms).Settled := by
  induction terms generalizing p with
  | nil => exact h
  | cons t rest ih => exact ih (h.modify (fun c hc => hc.withCoefficient t.2) t.1)

/-- Further settled columns keep a program settled. -/
theorem Settled.append {p : Program} (h : p.Settled) {c : Column} (hc : c.Settled) (count : Nat) :
    Settled { p with columns := p.columns ++ List.replicate count c } := by
  intro c' hc'
  rcases List.mem_append.mp hc' with hc' | hc'
  · exact h c' hc'
  · exact List.eq_of_mem_replicate hc' ▸ hc

/-- A column is settled when it is read. -/
theorem Column.read_settled {kind : Datum} {coefficient lower upper : Number} {c : Column}
    (h : Column.read kind coefficient lower upper = .ok c) : c.Settled := by
  obtain ⟨k, -, h⟩ := bind_eq_ok h
  obtain ⟨l, -, h⟩ := bind_eq_ok h
  obtain ⟨u, -, h⟩ := bind_eq_ok h
  obtain ⟨x, -, h⟩ := bind_eq_ok h
  cases h
  exact Column.withKind_settled k _

/-- A revision keeps binary columns bounded. -/
theorem Settled.revise {p p' : Program} (h : p.Settled) {o : Operation} (hr : o.revise p = .ok p') :
    p'.Settled := by
  cases o with
  | addVariable =>
    obtain ⟨c, hc, hr⟩ := bind_eq_ok hr
    cases hr
    exact h.append (Column.read_settled hc) 1
  | addVariables =>
    obtain ⟨c, hc, hr⟩ := bind_eq_ok hr
    cases hr
    exact h.append (Column.read_settled hc) _
  | addConstraint =>
    obtain ⟨condition, -, hr⟩ := bind_eq_ok hr
    cases hr
    exact h
  | setKind =>
    obtain ⟨k, -, hr⟩ := bind_eq_ok hr
    cases hr
    exact h.modify (fun c _ => Column.withKind_settled k c) _
  | setBounds =>
    obtain ⟨l, -, hr⟩ := bind_eq_ok hr
    obtain ⟨u, -, hr⟩ := bind_eq_ok hr
    cases hr
    exact h.modify (fun c hc => hc.withBounds l u) _
  | setCoefficient =>
    obtain ⟨x, -, hr⟩ := bind_eq_ok hr
    cases hr
    exact h.modify (fun c hc => hc.withCoefficient x) _
  | setObjective =>
    obtain ⟨cs, -, hr⟩ := bind_eq_ok hr
    cases hr
    exact h.setObjective _
  | setDirection =>
    obtain ⟨d, -, hr⟩ := bind_eq_ok hr
    cases hr
    exact h
  -- the other operations revise nothing
  | _ =>
    cases hr
    exact h

end Program

namespace Programs

/-- The programs of all models are settled. -/
def Settled (ps : Programs) : Prop := ∀ ⦃m p⦄, ps m = some p → p.Settled

variable {ps : Programs}

theorem Settled.set (h : ps.Settled) (m : ModelId) {p? : Option Program} (hp : ∀ p, p? = some p → p.Settled) :
    (ps.set m p?).Settled := by
  intro k p hk
  -- the program of one model is replaced
  by_cases hm : k = m
  · subst hm
    rw [set_self] at hk
    exact hp p hk
  · rw [set_of_ne ps hm] at hk
    exact h hk

/-- Operations keep programs settled. -/
theorem Settled.after (h : ps.Settled) (e : Event) : (ps.after e).Settled := by
  obtain ⟨o, a, calls⟩ := e
  have hrevised (m : ModelId) : (ps.set m ((ps m).bind fun p => (o.revise p).toOption)).Settled := by
    refine h.set m fun p' hp' => ?_
    obtain ⟨p, hp, hr⟩ := Option.bind_eq_some_iff.mp hp'
    exact (h hp).revise (World.eq_ok_of_toOption hr)
  -- an operation that raised leaves every program alone
  cases a with
  | error fault => exact h
  | ok answer =>
    show (ps.answered o answer).Settled
    unfold answered
    split
    · refine h.set _ fun p hp => ?_
      obtain ⟨d, -, rfl⟩ := Option.map_eq_some_iff.mp hp
      exact fun c hc => nomatch hc
    · exact h.set _ fun p hp => h hp
    · split
      · exact hrevised _
      · exact h

/-- All programs that operations give are settled. -/
theorem settled_programs (os : List Operation) : (World.programs os).Settled := by
  have hfold (es : List Event) (ps : Programs) (h : ps.Settled) : (es.foldl Programs.after ps).Settled := by
    induction es generalizing ps with
    | nil => exact h
    | cons e rest ih => exact ih _ (h.after e)
  exact hfold _ _ fun m p hp => nomatch hp

end Programs

/-! ## §5 One variable among others -/

/-- The variable of which an operation changes an attribute. -/
def Operation.changes? : Operation → Option Variable
  | setKind v _ | setBounds v .. | setCoefficient v _ => some v
  | _ => none

/-- A change to a variable that was given out is proper. -/
theorem Operation.proper_of_changes {o : Operation} {v : Variable} (ho : o.changes? = some v) (hv : 0 ≤ v.index) :
    o.Proper := by
  cases o with
  | setKind | setBounds | setCoefficient =>
    cases ho
    exact hv
  | _ => cases ho

/-- A change of a variable changes no names. -/
theorem Naming.after_of_changes {ns : Naming} {o : Operation} {v : Variable} (ho : o.changes? = some v)
    (a : Except Fault Answer) (calls : List Native.Call) : ns.after ⟨o, a, calls⟩ = ns := by
  cases a with
  | error fault => rfl
  | ok answer =>
    cases o with
    | setKind | setBounds | setCoefficient => cases answer <;> rfl
    | _ => cases ho

namespace Programs

/-- A change of one variable leaves the columns of all others as they are. -/
theorem getElem?_after_of_changes {ps : Programs} {o : Operation} {v : Variable} (ho : o.changes? = some v)
    (a : Except Fault Answer) (calls : List Native.Call) {m : ModelId} {p p' : Program} (hp : ps m = some p)
    (hp' : ps.after ⟨o, a, calls⟩ m = some p') {i : Nat} (hi : ¬ (m = v.model ∧ i = v.index.toNat)) :
    p'.columns[i]? = p.columns[i]? := by
  have hmodify (f : Program.Column → Program.Column) (hm : m = v.model) :
      (p.modify v.index.toNat f).columns[i]? = p.columns[i]? := by
    have hne : v.index.toNat ≠ i := fun hsame => hi ⟨hm, hsame.symm⟩
    simp [Program.modify, hne]
  cases a with
  | error fault =>
    cases hp.symm.trans hp'
    rfl
  | ok answer =>
    -- an answered change revises the program of one model, whatever the answer is
    have hset : ps.after ⟨o, .ok answer, calls⟩ =
        ps.set v.model ((ps v.model).bind fun p => (o.revise p).toOption) := by
      cases o with
      | setKind | setBounds | setCoefficient =>
        cases ho
        rfl
      | _ => cases ho
    rw [hset] at hp'
    by_cases hm : m = v.model
    · subst hm
      rw [set_self, hp, Option.bind_some] at hp'
      have hrevise := World.eq_ok_of_toOption hp'
      cases o with
      | setKind =>
        cases ho
        obtain ⟨k, -, hrevise⟩ := Program.bind_eq_ok hrevise
        cases hrevise
        exact hmodify _ rfl
      | setBounds =>
        cases ho
        obtain ⟨l, -, hrevise⟩ := Program.bind_eq_ok hrevise
        obtain ⟨u, -, hrevise⟩ := Program.bind_eq_ok hrevise
        cases hrevise
        exact hmodify _ rfl
      | setCoefficient =>
        cases ho
        obtain ⟨x, -, hrevise⟩ := Program.bind_eq_ok hrevise
        cases hrevise
        exact hmodify _ rfl
      | _ => cases ho
    · rw [set_of_ne ps hm] at hp'
      cases hp.symm.trans hp'
      rfl

end Programs

namespace World

variable {w w' : World} {m : ModelId} {model : Model} {n : Nat} {q : Native.Problem}

/-- After a change of a variable, each open model is still open, on the same engine. -/
theorem engine_of_performed (hs : w.Sound) {o : Operation} {a : Except Fault Answer} {v : Variable}
    (hp : Performed w o a w') (ho : o.changes? = some v) (hh : w.Holds m model n q) :
    ∃ model' q', w'.Holds m model' n q' ∧ model'.engine = model.engine := by
  have hedited {m₀ : ModelId} {model₀ : Model} {n₀ : Nat} {q₀ : Native.Problem} {f : Model → Model}
      {cs : List Native.Call} (hh₀ : w.Holds m₀ model₀ n₀ q₀) (he : Edits w w' m₀ f n₀ cs)
      (hfreed : (f model₀).freed = model₀.freed) (hengine : (f model₀).engine = model₀.engine) :
      ∃ model' q', w'.Holds m model' n q' ∧ model'.engine = model.engine := by
    by_cases hm : m = m₀
    · subst hm
      obtain ⟨rfl, rfl, rfl⟩ := hh₀.unique hh
      exact ⟨_, _, he.holds hh₀ hfreed hengine, hengine⟩
    · exact ⟨_, _, (he.holds_other hs hh₀ hm).mpr hh, rfl⟩
  cases hp with
  | refused hidle => exact ⟨_, _, (Undisturbed.of_idling hidle).holds_iff.mpr hh, rfl⟩
  | kindSet _ hh₀ _ he => exact hedited hh₀ he (Variable.withKind_freed ..) (Variable.withKind_engine ..)
  | boundsSet _ hh₀ _ _ _ he => exact hedited hh₀ he rfl rfl
  | boundsIgnored _ _ _ _ hidle => exact ⟨_, _, (Undisturbed.of_idling hidle).holds_iff.mpr hh, rfl⟩
  | coefficientSet _ hh₀ he => exact hedited hh₀ he rfl rfl
  | grew hgrows =>
    cases o with
    | addVariable | addVariables => cases ho
    | _ => exact hgrows.elim
  | solved hsolves =>
    cases o with
    | solve | solveWithContext => cases ho
    | _ => exact hsolves.elim
  -- the other operations do not change a variable
  | _ => cases ho

theorem naming_append (os : List Operation) (o : Operation) :
    naming (os ++ [o]) = (naming os).after ((initial.nextAll os).event o) := by
  unfold naming
  rw [events_append, List.foldl_append]
  rfl

/-- The programs after one more operation follow from those before it and from how it ended. -/
theorem programs_append (os : List Operation) (o : Operation) :
    programs (os ++ [o]) = (programs os).after ((initial.nextAll os).event o) := by
  unfold programs
  rw [events_append, List.foldl_append]
  rfl

/-- Each variable of a session tells what its operations say, and the engine shows the same bounds. -/
theorem tells_table {os : List Operation} (hos : ∀ o ∈ os, o.Proper) {m : ModelId} {model : Model}
    (hm : (initial.nextAll os).model? m = some model) (hf : model.freed = false) :
    ∃ p, programs os m = some p ∧ p.columns.length = model.kinds.length ∧
      (naming os m).length = model.kinds.length ∧
        ∀ (i : Nat) c name, p.columns[i]? = some c → (naming os m)[i]? = some name →
          (⟨m, i⟩ : Variable).Tells (initial.nextAll os) name c.kind (c.shown model.engine.kind) c.coefficient ∧
            ((model.engine.columnBounds (i + 1)).on (initial.nextAll os)).1 = .ok (c.shown model.engine.kind) ∧
            Bound.encode c.lower c.upper = .ok c.bound := by
  have hs : (initial.nextAll os).Sound := sound_nextAll sound_initial os
  obtain ⟨n, q, hh, ho⟩ := hs.holds_of_model? hm hf
  obtain ⟨p, hp, hrepresents⟩ := Programs.fits_nextAll (Programs.fits_initial _) sound_initial hos hh
  have hp : programs os m = some p := hp
  -- kinds, columns and names, each by the invariant that follows it
  have hkinds : model.kinds = p.columns.map (·.kind) := hrepresents.kinds
  have hstores : q.Stores p := hrepresents.stores.of_core
  have hnamed := Naming.fits_naming os hh
  have hcount : p.columns.length = model.kinds.length := by rw [hkinds, List.length_map]
  have hstored : q.columnNames = naming os m := (Native.Problem.columnNames_core q).symm.trans hnamed.stored
  refine ⟨p, hp, hcount, ?_, fun i c name hi hname => ⟨?_, ?_, ?_⟩⟩
  · rw [← hstored, Native.Problem.length_columnNames, hstores.columnCount, hcount]
  · exact Variable.tells_of_stores hs.compliant hm hf ho hstores hkinds hi
      (Programs.settled_programs os hp c (List.mem_of_getElem? hi)) (hstored ▸ hname)
  · exact Engine.on_columnBounds hs.compliant ho hstores hi
  · exact hrepresents.valid.columns c (List.mem_of_getElem? hi)

/-- **Variables tell what was done to them.** At every point of a session on variables that models handed out, each
variable of an open model tells the name, the kind, the bounds and the coefficient that the operations up to there
say, and the bounds are those that the engine holds for its column. A change of one variable leaves what all others
tell. -/
theorem variables_tell_table {os : List Operation} (hos : ∀ o ∈ os, o.Proper) {m : ModelId} {model : Model}
    (hm : (initial.nextAll os).model? m = some model) (hf : model.freed = false) :
    let w := initial.nextAll os
    (∃ p, programs os m = some p ∧ p.columns.length = model.kinds.length ∧
      (naming os m).length = model.kinds.length ∧
        ∀ (i : Nat) c name, p.columns[i]? = some c → (naming os m)[i]? = some name →
          ∃ bounds, (⟨m, i⟩ : Variable).Tells w name c.kind bounds c.coefficient ∧
            ((model.engine.columnBounds (i + 1)).on w).1 = .ok bounds ∧
            ((model.engine.kind = .lpsolve → c.Spared) →
              bounds.1 = c.bounds.1 ∧ Double.Same bounds.2 c.bounds.2)) ∧
      ∀ o v, o.changes? = some v → 0 ≤ v.index → ∀ i : Nat, i < model.kinds.length → (⟨m, i⟩ : Variable) ≠ v →
        ∀ name kind bounds coefficient, (⟨m, i⟩ : Variable).Tells w name kind bounds coefficient →
          (⟨m, i⟩ : Variable).Tells (w.next o) name kind bounds coefficient := by
  intro w
  obtain ⟨p, hp, hcolumns, hnames, htells⟩ := tells_table hos hm hf
  refine ⟨⟨p, hp, hcolumns, hnames, fun i c name hi hname => ?_⟩, ?_⟩
  · obtain ⟨htold, hshown, hvalid⟩ := htells i c name hi hname
    exact ⟨_, htold, hshown, fun hspared => Program.Column.shown_eq hvalid hspared⟩
  · intro o v ho hv i hi hne name kind bounds coefficient htold
    have hs : w.Sound := sound_nextAll sound_initial os
    obtain ⟨n, q, hh, -⟩ := hs.holds_of_model? hm hf
    obtain ⟨model', q', hh', hengine⟩ := engine_of_performed hs (performed hs o) ho hh
    obtain ⟨model', -, hm', hf', -, rfl, -⟩ := hh'.owns
    have hkind : model'.engine.kind = model.engine.kind := by
      simpa using congrArg Engine.kind hengine
    have hnext : w.next o = initial.nextAll (os ++ [o]) := (nextAll_append initial os [o]).symm
    have hos' : ∀ o' ∈ os ++ [o], o'.Proper := by
      intro o' ho'
      rcases List.mem_append.mp ho' with ho' | ho'
      · exact hos o' ho'
      · exact List.mem_singleton.mp ho' ▸ Operation.proper_of_changes ho hv
    rw [hnext] at hm' ⊢
    obtain ⟨p', hp', -, -, htells'⟩ := tells_table hos' hm' hf'
    -- the table has the same line for the variable before and after
    obtain ⟨c, hc⟩ : ∃ c, p.columns[i]? = some c := ⟨_, List.getElem?_eq_getElem (hcolumns ▸ hi)⟩
    obtain ⟨name', hname⟩ : ∃ name', (naming os m)[i]? = some name' := ⟨_, List.getElem?_eq_getElem (hnames ▸ hi)⟩
    have hc' : p'.columns[i]? = some c := by
      rw [programs_append] at hp'
      refine (Programs.getElem?_after_of_changes ho _ _ hp hp' fun hsame => hne ?_).trans hc
      obtain ⟨hmodel, hindex⟩ := hsame
      have hindex : (i : Int) = v.index := by omega
      rw [hmodel, hindex]
    have hname' : (naming (os ++ [o]) m)[i]? = some name' := by
      rw [naming_append, event, Naming.after_of_changes ho]
      exact hname
    -- so it tells the same, and it tells one thing only
    obtain ⟨hbefore, -⟩ := htells i c name' hc hname
    obtain ⟨hafter, -⟩ := htells' i c name' hc' hname'
    rw [hkind] at hafter
    obtain ⟨rfl, rfl, rfl, rfl⟩ := hbefore.unique htold
    exact hafter

/-- A session on lp_solve. A binary variable gets bounds in vain and becomes an integer one, and another variable
is bounded with an infinity of the wrong sign and named twice in an objective. -/
def changes : List Operation :=
  [.create "table" (.text "minimize") [.engine (.named (.text "lpsolve"))],
    .addVariable 0 "x" (.text "binary") .one (.int 5) (.int 9),
    .addVariable 0 "" (.text "continuous") .one .zero .one,
    .setBounds ⟨0, 0⟩ (.int 2) (.int 3),
    .setKind ⟨0, 0⟩ (.text "integer"),
    .setBounds ⟨0, 1⟩ (.float Double.infinity) (.int 7),
    .setObjective 0 [.int 2, .int 3] [.variable ⟨0, 1⟩, .variable ⟨0, 1⟩]]

/-- What the two variables of that session tell, and that the first one still tells it after a further change of
the second. -/
theorem table_after_changes :
    (∃ bounds, (⟨0, 0⟩ : Variable).Tells (initial.nextAll changes) "x" .integer bounds 1 ∧
        bounds.1 = 0 ∧ Double.Same bounds.2 1 ∧
        (⟨0, 0⟩ : Variable).Tells ((initial.nextAll changes).next (.setBounds ⟨0, 1⟩ .zero .one))
          "x" .integer bounds 1) ∧
      ∃ bounds, (⟨0, 1⟩ : Variable).Tells (initial.nextAll changes) "V1" .continuous bounds 3 ∧
        bounds.1 = Double.negInfinity ∧ Double.Same bounds.2 7 := by
  have hproper : ∀ o ∈ changes, o.Proper := by
    intro o ho
    simp only [changes, List.mem_cons, List.not_mem_nil, or_false] at ho
    rcases ho with rfl | rfl | rfl | rfl | rfl | rfl | rfl <;> simp [Operation.Proper]
  have hseen : ((initial.nextAll changes).model? 0).map (fun model => (model.freed, model.kinds.length)) =
      some (false, 2) := by decide +kernel
  obtain ⟨model, hm, hmodel⟩ := Option.map_eq_some_iff.mp hseen
  obtain ⟨hfreed, hcount⟩ : model.freed = false ∧ model.kinds.length = 2 := by simpa using hmodel
  -- what the table says after the changes, and what the variables report by the theorem
  have hprogram : programs changes 0 = some ⟨.minimize,
      [⟨.integer, 0, 1, 1⟩, ⟨.continuous, Double.infinity, 7, 3⟩], []⟩ := by decide +kernel
  have hnames : naming changes 0 = ["x", "V1"] := by decide +kernel
  obtain ⟨⟨p, hp, -, -, htells⟩, hothers⟩ := variables_tell_table hproper hm hfreed
  obtain rfl := Option.some.inj (hp.symm.trans hprogram)
  obtain ⟨bounds, hx, -, hbounds⟩ := htells 0 ⟨.integer, 0, 1, 1⟩ "x" rfl (by rw [hnames]; rfl)
  obtain ⟨bounds', hy, -, hbounds'⟩ :=
    htells 1 ⟨.continuous, Double.infinity, 7, 3⟩ "V1" rfl (by rw [hnames]; rfl)
  obtain ⟨hlower, hupper⟩ := hbounds fun _ => by decide +kernel
  obtain ⟨hlower', hupper'⟩ := hbounds' fun _ => by decide +kernel
  have hnext := hothers (.setBounds ⟨0, 1⟩ .zero .one) ⟨0, 1⟩ rfl (by decide) 0 (by omega) (by decide) _ _ _ _ hx
  exact ⟨⟨bounds, hx, hlower, hupper, hnext⟩, bounds', hy, hlower', hupper'⟩

end World

end LinearProgram
