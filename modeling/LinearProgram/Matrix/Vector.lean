import LinearProgram.Bound
import LinearProgram.Matrix.Entries

/-!
# Vectors of 32-bit integers and of doubles

The native libraries take vectors of two element types. A plain list is converted element by element,
and a number that does not fit without its fraction is out of range. A vector that already has an element type is
converted between types: 64-bit integers lose their upper half, and a double loses its fraction.
-/

namespace LinearProgram

/-- The element types of a vector. -/
inductive ElementType where
  | int32
  | int64
  | float32
  | float64
deriving DecidableEq, Repr

/-- A vector of one of the two types that the native libraries take. -/
inductive NativeVector where
  | ints (values : List Int)
  | floats (values : List Float)
deriving DecidableEq

namespace Vector

/-- Whether an integer fits into `bits` bits with sign. -/
def fits (bits : Nat) (n : Int) : Bool :=
  decide (-(Nat.pow 2 (bits - 1) : Int) ≤ n) && decide (n < (Nat.pow 2 (bits - 1) : Int))

/-- An integer of `bits` bits from a plain number. A double loses its fraction; what then does not fit
is out of range. -/
def toElement (bits : Nat) (n : Number) : Except Fault Int := do
  let i ← n.toInteger
  if fits bits i then .ok i else .error .outOfRange

/-- The double nearest to `x` among those of 32 bits. -/
def roundSingle (x : Float) : Float := x.toFloat32.toFloat

def smallestInt32 : Int := -2147483648

/-- A double as a 32-bit integer without its fraction. Whatever does not fit becomes the smallest
integer. -/
def castInt32 (x : Float) : Int :=
  match Double.truncate? x with
  | some i => if fits 32 i then i else smallestInt32
  | none => smallestInt32

/-- Elements of one type: integers stay exact, doubles may have been rounded to 32 bits. -/
def typed (t : ElementType) (ns : List Number) : Except Fault NativeVector :=
  match t with
  | .int32 => NativeVector.ints <$> ns.mapM (toElement 32)
  | .int64 => NativeVector.ints <$> ns.mapM (toElement 64)
  | .float32 => do return NativeVector.floats ((← ns.mapM Number.toDouble).map roundSingle)
  | .float64 => NativeVector.floats <$> ns.mapM Number.toDouble

def asInt32 : NativeVector → List Int
  | .ints is => is.map wrap32
  | .floats xs => xs.map castInt32

def asFloat64 : NativeVector → List Float
  | .ints is => is.map Float.ofInt
  | .floats xs => xs

/-- A vector of 32-bit integers from plain numbers, or from a vector of the type `source`. -/
def toInt32 (source : Option ElementType) (ns : List Number) : Except Fault (List Int) :=
  match source with
  | none => ns.mapM (toElement 32)
  | some t => asInt32 <$> typed t ns

/-- A vector of doubles from plain numbers, or from a vector of the type `source`. -/
def toFloat64 (source : Option ElementType) (ns : List Number) : Except Fault (List Float) :=
  match source with
  | none => ns.mapM Number.toDouble
  | some t => asFloat64 <$> typed t ns

end Vector

end LinearProgram
