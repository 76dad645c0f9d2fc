import LinearProgram.Fault

/-!
# Cancellation contexts

A context is live until it is canceled, its deadline passes, or its parent is done; once done it stays
done, with the same cause. The clock and the deadlines may be integers of any size, and they are compared
by their exact values. Contexts form a forest. A context that becomes done makes all its live
descendants done, and leaves the list of live children that its parent keeps.

The forest is an array of contexts, numbered in the order of their making, so a parent has a smaller
number than its children. A cascade works off a list of contexts still to be finished; it ends because a
step that adds to the list finishes one live context, which had as many children as it adds. The cause of
a context is looked up through its ancestors, which ends because the numbers fall.
-/

namespace LinearProgram

/-! ## §1 Contexts -/

/-- The number of a context. -/
abbrev ContextId := Nat

/-- A context. `error` is the recorded cause of being done, and `children` are the children that were
live when last looked at, in the order of their making. -/
structure Context where
  deadline : Option Number
  parent : Option ContextId
  error : Option Interruption
  children : List ContextId
deriving DecidableEq

/-- What a live context still costs a cascade: one step, and one for each of its children. -/
def Context.weight (node : Context) : Nat := if node.error.isNone then 1 + node.children.length else 0

/-- What the contexts of a list weigh together. -/
def Context.total (weight : Context → Nat) : List Context → Nat
  | [] => 0
  | node :: rest => weight node + total weight rest

/-- All contexts, in the order of their making. -/
structure Forest where
  contexts : Array Context

namespace Forest

def empty : Forest := ⟨#[]⟩

instance : Inhabited Forest := ⟨empty⟩

def size (f : Forest) : Nat := f.contexts.size

def context? (f : Forest) (c : ContextId) : Option Context := f.contexts[c]?

/-- The recorded cause of a context. -/
def recorded (f : Forest) (c : ContextId) : Option Interruption := (f.context? c).bind (·.error)

def parent? (f : Forest) (c : ContextId) : Option ContextId := (f.context? c).bind (·.parent)

/-- The deadline of a context, its own or one taken over from an ancestor. -/
def deadline? (f : Forest) (c : ContextId) : Option Number := (f.context? c).bind (·.deadline)

def children (f : Forest) (c : ContextId) : List ContextId := ((f.context? c).map (·.children)).getD []

/-- Whether the context exists and has no recorded cause. -/
def isLive (f : Forest) (c : ContextId) : Bool :=
  match f.context? c with
  | some node => node.error.isNone
  | none => false

def modify (f : Forest) (c : ContextId) (g : Context → Context) : Forest := ⟨f.contexts.modify c g⟩

/-! ## §2 Becoming done -/

/-- Record the cause of one context: it lets go of its children and leaves the list of its parent. -/
def settle (f : Forest) (c : ContextId) (cause : Interruption) : Forest :=
  let f' := f.modify c fun node => { node with error := some cause, children := [] }
  match f.parent? c with
  | some p => f'.modify p fun node => { node with children := node.children.erase c }
  | none => f'

/-- A live context has an entry without a cause. -/
theorem exists_of_isLive {f : Forest} {c : ContextId} (h : f.isLive c = true) :
    ∃ node, f.context? c = some node ∧ node.error.isNone = true := by
  unfold isLive at h
  cases hnode : f.context? c with
  | none => simp [hnode] at h
  | some node => exact ⟨node, rfl, by simpa [hnode] using h⟩

section Totals

variable (weight : Context → Nat)

/-- A change that makes no context heavier leaves the whole list no heavier. -/
theorem total_modify_le (l : List Context) (p : Nat) {g : Context → Context}
    (hg : ∀ x, weight (g x) ≤ weight x) : Context.total weight (l.modify p g) ≤ Context.total weight l := by
  induction l generalizing p with
  | nil => simp
  | cons a l ih =>
    cases p with
    -- only the head of the list changes
    | zero =>
      have ha := hg a
      simp only [List.modify_zero_cons, Context.total]
      omega
    | succ p =>
      have hl := ih p
      simp only [List.modify_succ_cons, Context.total]
      omega

/-- A context that has no weight after a change takes its weight off the whole list. -/
theorem total_modify_done (l : List Context) (c : Nat) {g : Context → Context} (hg : ∀ x, weight (g x) = 0)
    {node : Context} (hnode : l[c]? = some node) :
    Context.total weight (l.modify c g) + weight node = Context.total weight l := by
  induction l generalizing c with
  -- no node stands at any place of an empty list
  | nil => simp at hnode
  | cons a l ih =>
    cases c with
    -- the finished node is the head, whose weight drops out of the sum
    | zero =>
      obtain rfl : a = node := by simpa using hnode
      have ha := hg a
      simp only [List.modify_zero_cons, Context.total]
      omega
    | succ c =>
      have hl := ih c (by simpa using hnode)
      simp only [List.modify_succ_cons, Context.total]
      omega

/-- Settling a context takes its weight off the total, if a context that is done weighs nothing and one that
loses a child weighs no more than before. -/
theorem total_settle_le {f : Forest} {c : ContextId} {node : Context} (hnode : f.context? c = some node)
    (cause : Interruption) (hdone : ∀ x : Context, weight { x with error := some cause, children := [] } = 0)
    (hloss : ∀ x : Context, weight { x with children := x.children.erase c } ≤ weight x) :
    Context.total weight (f.settle c cause).contexts.toList + weight node ≤
      Context.total weight f.contexts.toList := by
  have htotal := total_modify_done weight f.contexts.toList c hdone (by simpa [context?] using hnode)
  unfold settle
  cases f.parent? c with
  | none => exact Nat.le_of_eq (by simpa [modify] using htotal)
  | some p =>
    have hparent := total_modify_le weight (f.contexts.toList.modify c fun node =>
      { node with error := some cause, children := [] }) p hloss
    simp only [modify, Array.toList_modify]
    omega

end Totals

/-- What is left for a cascade to do at most. -/
def work (f : Forest) (pending : List ContextId) : Nat :=
  pending.length + Context.total Context.weight f.contexts.toList

/-- A settled context is done, and what it hands on to the cascade was its own weight before. -/
theorem work_settle_lt (f : Forest) (c : ContextId) (cause : Interruption) (rest : List ContextId)
    (h : f.isLive c = true) : (f.settle c cause).work (f.children c ++ rest) < f.work (c :: rest) := by
  obtain ⟨node, hnode, hlive⟩ := exists_of_isLive h
  have hweight : node.weight = 1 + (f.children c).length := by simp [Context.weight, hlive, children, hnode]
  have hloss (x : Context) : ({ x with children := x.children.erase c } : Context).weight ≤ x.weight := by
    have hlength := List.length_erase_le (a := c) (l := x.children)
    simp only [Context.weight]
    split <;> omega
  have hless := total_settle_le Context.weight hnode cause (fun _ => rfl) hloss
  simp only [work, List.length_append, List.length_cons]
  omega

/-- Make the listed contexts and everything below them done, as far as they are live; the children of a
context come before what follows it in the list. -/
def cascade (cause : Interruption) (f : Forest) (pending : List ContextId) : Forest :=
  match pending with
  | [] => f
  | c :: rest =>
    if _h : f.isLive c = true then cascade cause (f.settle c cause) (f.children c ++ rest)
    else cascade cause f rest
termination_by f.work pending
decreasing_by
  · exact work_settle_lt f c cause rest _h
  · simp [work]

/-- Make a context done, and with it everything live below it. -/
def finish (f : Forest) (c : ContextId) (cause : Interruption) : Forest := f.cascade cause [c]

def cancel (f : Forest) (c : ContextId) : Forest := f.finish c .canceled

/-! ## §3 Asking why a context is done -/

/-- Why a context is done at the time `now`, and the forest after asking: a cause found on the way is
recorded. The recorded cause comes first, then the parent's, then the own deadline. -/
def error (f : Forest) (now : Number) (c : ContextId) : Option Interruption × Forest :=
  match f.recorded c with
  | some cause => (some cause, f)
  | none =>
    -- asking the parent may already make this context done, with the same cause
    let (fromParent, f) : Option Interruption × Forest :=
      match f.parent? c with
      | some p => if p < c then error f now p else (none, f)
      | none => (none, f)
    match fromParent with
    | some cause => (some cause, f.finish c cause)
    | none =>
      match f.deadline? c with
      | some d =>
        if d.atMost now then
          let f := f.finish c .deadlineExceeded
          (f.recorded c, f)
        else (none, f)
      | none => (none, f)
termination_by c

/-! ## §4 Making contexts -/

/-- The deadline of a new context: the earlier of its own and its parent's. A deadline that is NaN is
neither earlier nor later than another, and the own one is kept then. -/
def inheritDeadline (own inherited : Option Number) : Option Number :=
  match own, inherited with
  | own, none => own
  | none, inherited => inherited
  | some own, some inherited => some (if inherited.less own then inherited else own)

/-- Make a context. Below a parent that is done it is done at once, for the same reason. -/
def make (f : Forest) (deadline : Option Number) (parent : Option ContextId) : ContextId × Forest :=
  let c := f.size
  let inherited := parent.bind f.deadline?
  let f' : Forest := ⟨f.contexts.push ⟨inheritDeadline deadline inherited, parent, none, []⟩⟩
  match parent with
  | none => (c, f')
  | some p =>
    match f.recorded p with
    | some cause => (c, f'.finish c cause)
    | none => (c, f'.modify p fun node => { node with children := node.children ++ [c] })

/-! ## §5 Views -/

/-- The deadline of a context as a double. -/
def deadline (f : Forest) (c : ContextId) : Except Fault (Option Float) :=
  (f.deadline? c).mapM Number.toDouble

/-- The time left until the deadline as a double, zero once it has passed. -/
def remaining (f : Forest) (now : Number) (c : ContextId) : Except Fault (Option Float) :=
  (f.deadline? c).mapM fun d => do
    let left ← d.sub now
    if Number.zero.less left then left.toDouble else .ok 0

def display (cause : Option Interruption) : String :=
  "<CancelContext " ++ (match cause with
    | some c => c.message
    | none => "live") ++ ">"

end Forest

end LinearProgram
