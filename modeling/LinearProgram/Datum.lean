import LinearProgram.Decimal.Shortest
import LinearProgram.Text.Quoted

/-!
# Plain values

A few places of the layer accept any value at all: the entries of a parameter dictionary, an option's
argument, the value meant to name a choice, a registered object. `Datum` is such a plain value, with
the two ways to write it: `display` for people and `quoted` inside messages, where text stands between
quotes.

Equality of data is equality of what they say: a number equals the number of the same value whatever
its type, a truth value counts as 0 or 1, and what is no number equals itself. Numbers of both types
stand in one order, the order of their exact values, which `atMost_trans` says is transitive.
-/

namespace LinearProgram

/-! ## §1 Numbers -/

/-- A number as a caller gives it: an integer of any size or a double. -/
inductive Number where
  | int (value : Int)
  | float (value : Float)
deriving DecidableEq

namespace Number

def zero : Number := .float 0

def one : Number := .float 1

/-- The nearest double, unless the integer is out of range. -/
def toFloat? : Number → Option Float
  | .int n => Double.ofInt? n
  | .float x => some x

/-- Whether the number counts as true: everything but the zeros. -/
def isTrue : Number → Bool
  | .int n => n != 0
  | .float x => !(x == 0)

/-- Where a number stands on the line: below or above all finite ones, or at a whole multiple of the
smallest positive double. -/
inductive Rank where
  | below
  | finite (units : Int)
  | above
deriving DecidableEq, Repr

/-- Whether a place is another one or lies below it. -/
def Rank.le : Rank → Rank → Bool
  | below, _ => true
  | _, above => true
  | finite m, finite n => decide (m ≤ n)
  | _, _ => false

/-- The place of a number; NaN has none. -/
def rank? : Number → Option Rank
  | .int n => some (.finite (n * Double.unitsPerOne))
  | .float x =>
    match Double.value? x with
    | some v => some (.finite v.units)
    | none => if x.isNaN then none else some (if Double.isNegative x then .below else .above)

/-- Equality of value, exact also between integers and doubles. NaN equals nothing. -/
def sameValue (m n : Number) : Bool :=
  match m.rank?, n.rank? with
  | some p, some q => p == q
  | _, _ => false

/-- Order of value, exact also between integers and doubles. NaN stands in no order. -/
def atMost (m n : Number) : Bool :=
  match m.rank?, n.rank? with
  | some p, some q => p.le q
  | _, _ => false

def less (m n : Number) : Bool := m.atMost n && !n.atMost m

theorem Rank.le_trans {p q r : Rank} (hpq : p.le q = true) (hqr : q.le r = true) :
    p.le r = true := by
  cases p <;> cases q <;> cases r <;> simp_all [Rank.le]
  omega

/-- Numbers of any kind are compared by their exact values, so that comparisons can be chained. -/
theorem atMost_trans {a b c : Number} (hab : a.atMost b = true) (hbc : b.atMost c = true) :
    a.atMost c = true := by
  unfold atMost at *
  cases ha : a.rank? <;> cases hb : b.rank? <;> cases hc : c.rank? <;> simp_all
  exact Rank.le_trans hab hbc

end Number

/-! ## §2 Data -/

/-- A plain value. -/
inductive Datum where
  | null
  | bool (value : Bool)
  | int (value : Int)
  | float (value : Float)
  | text (value : String)
  | list (items : List Datum)
  | dict (entries : List (String × Datum))
deriving BEq

instance : Inhabited Datum := ⟨.null⟩

namespace Datum

def typeName : Datum → String
  | null => "NoneType"
  | bool _ => "bool"
  | int _ => "int"
  | float _ => "float"
  | text _ => "str"
  | list _ => "list"
  | dict _ => "dict"

/-- Whether the datum counts as true: everything but null, false, zero and what is empty. -/
def isTrue : Datum → Bool
  | null => false
  | bool b => b
  | int n => n != 0
  | float x => !(x == 0)
  | text s => !s.isEmpty
  | list items => !items.isEmpty
  | dict entries => !entries.isEmpty

def number? : Datum → Option Number
  | bool b => some (.int (if b then 1 else 0))
  | int n => some (.int n)
  | float x => some (.float x)
  | _ => none

def get? (d : Datum) (key : String) : Option Datum :=
  match d with
  | dict entries => (entries.find? (·.1 == key)).map (·.2)
  | _ => none

/-! ## §3 Text of a datum -/

mutual

/-- The datum as it stands inside a message. -/
def quoted : Datum → String
  | null => "None"
  | bool b => if b then "True" else "False"
  | int n => toString n
  | float x => Double.text x
  | text s => Text.quoted s
  | list items => "[" ++ ", ".intercalate (quotedItems items) ++ "]"
  | dict entries => "\x7b" ++ ", ".intercalate (quotedEntries entries) ++ "\x7d"

def quotedItems : List Datum → List String
  | [] => []
  | d :: rest => quoted d :: quotedItems rest

def quotedEntries : List (String × Datum) → List String
  | [] => []
  | (key, d) :: rest => (Text.quoted key ++ ": " ++ quoted d) :: quotedEntries rest

end

/-- The datum as it is shown to people: text stands without quotes. -/
def display : Datum → String
  | text s => s
  | d => quoted d

/-! ## §4 Equality of data -/

mutual

/-- Whether two data say the same. Dictionaries are compared without regard to order. -/
def same : Datum → Datum → Bool
  | null, null => true
  | bool a, bool b => a == b
  | bool a, int n => Number.sameValue (.int (if a then 1 else 0)) (.int n)
  | bool a, float x => Number.sameValue (.int (if a then 1 else 0)) (.float x)
  | int m, bool b => Number.sameValue (.int m) (.int (if b then 1 else 0))
  | int m, int n => m == n
  | int m, float x => Number.sameValue (.int m) (.float x)
  | float x, bool b => Number.sameValue (.float x) (.int (if b then 1 else 0))
  | float x, int n => Number.sameValue (.float x) (.int n)
  | float x, float y => x.isNaN && y.isNaN || Number.sameValue (.float x) (.float y)
  | text s, text t => s == t
  | list xs, list ys => sameItems xs ys
  | dict xs, dict ys => xs.length == ys.length && sameEntries xs ys
  | _, _ => false

/-- Whether two lists say the same, item by item. -/
def sameItems : List Datum → List Datum → Bool
  | [], [] => true
  | x :: xs, y :: ys => same x y && sameItems xs ys
  | _, _ => false

/-- Whether every entry of the first dictionary has an equal partner in the second. -/
def sameEntries : List (String × Datum) → List (String × Datum) → Bool
  | [], _ => true
  | (key, x) :: rest, ys =>
    (match ys.lookup key with
      | some y => same x y
      | none => false) && sameEntries rest ys

end

end Datum

end LinearProgram
