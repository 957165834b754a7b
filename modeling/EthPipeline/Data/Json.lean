import EthPipeline.Base.Binary64

/-!
# Values of the Python runtime

What `json.loads` returns, what `bool` and `float` make of it, and the instants
`datetime` works with.  An aware `datetime` is the instant it names, counted in
microseconds from the epoch, and the text `isoformat` writes is a wrapper around
the instant, since `fromisoformat` reads back exactly what was written.
-/

inductive Json where
  | null
  | bool (b : Bool)
  | int (n : ℤ)
  | float (x : PyFloat)
  | str (s : String)
  | arr (items : List Json)
  | obj (fields : List (String × Json))

namespace Json

def truthy : Json → Bool
  | null => false
  | bool b => b
  | int n => n ≠ 0
  | float x => x.truthy
  | str s => s ≠ ""
  | arr items => !items.isEmpty
  | obj fields => !fields.isEmpty

/-- `float(v)`; `none` is an exception. -/
def toFloat : Json → Option PyFloat
  | bool b => some (.finite (if b then 1 else 0))
  | int n => (Binary64.ofInt n).map .finite
  | float x => some x
  | str s => PyFloat.ofString s
  | _ => none

end Json

/-- The value of a Kafka message: absent, bytes that do not decode or parse, or what
`json.loads` makes of them. -/
inductive RawValue where
  | tombstone
  | undecodable
  | json (data : Json)

abbrev Timestamp := ℤ

namespace Timestamp

/-- `datetime.min` and the first instant past `datetime.max`, in UTC. -/
def minimum : Timestamp := -62135596800 * 1000000
def bound : Timestamp := 253402300800 * 1000000

end Timestamp

/-- `datetime.fromtimestamp(x, tz=timezone.utc)`; `none` is an exception.  The
fraction becomes microseconds in double precision, rounded half to even. -/
def fromtimestamp : PyFloat → Option Timestamp
  | .finite q =>
    let whole := q.num.tdiv q.den
    let micros := Binary64.roundHalfEven (Binary64.nearest ((q - whole) * 1000000))
    let t := whole * 1000000 + micros
    if Timestamp.minimum ≤ t ∧ t < Timestamp.bound then some t else none
  | _ => none

example : fromtimestamp (.finite 1700000000) = some 1700000000000000 := by decide +kernel

/-- The text of an instant. -/
structure IsoText where
  instant : Timestamp
  deriving DecidableEq, Repr

def isoformat (t : Timestamp) : IsoText := ⟨t⟩

def fromisoformat (text : IsoText) : Timestamp := text.instant

@[simp] theorem fromisoformat_isoformat (t : Timestamp) : fromisoformat (isoformat t) = t := rfl
