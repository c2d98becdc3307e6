import Reckoner.Evaluation
import Reckoner.Json.Order

/-!
# Sampling a function

A function of x is evaluated at evenly spaced places of an interval. Samples that are refused, are
no numbers or are not finite are left out. The interval and the number of samples may come from
settings of any type, and are checked before anything is evaluated.

A series of samples keeps what it was made from. It is evaluated in passes, each from the first
place on, and a pass goes no further than to the next point that is asked for.
-/

namespace Reckoner

/-- Evenly spaced places from `low` to `high`. -/
structure Grid where
  low : Float
  high : Float
  samples : Nat

namespace Grid

/-- All places, from the lower end on. A single place is the lower end. The places of more parts than
there are doubles cannot be told. -/
def places (grid : Grid) : Except Failure (List Float) :=
  if grid.samples = 1 then .ok [grid.low]
  else do
    let parts ← Numeric.ofCount (grid.samples - 1)
    let part := (grid.high - grid.low) / parts
    (List.range grid.samples).mapM fun i => do return grid.low + (← Numeric.ofCount i) * part

end Grid

namespace Sampling

/-- The first value is at most the second; values that cannot be compared have the wrong type. -/
def inOrder (low high : Json) : Except Failure Bool :=
  match Json.atMost? low high with
  | some result => .ok result
  | none => .error .wrongType

/-- The number of samples is below one. -/
def tooFew (samples : Json) : Except Failure Bool := do
  let atLeastOne ← inOrder (.integer 1) samples
  match samples with
  | .double x => return !atLeastOne && !x.isNaN
  | _ => return !atLeastOne

/-- The grid between two bounds with a number of samples. -/
def grid (low high samples : Json) : Except Failure Grid := do
  if ← tooFew samples then refuse .graphRange
  else if !(← inOrder low high) then refuse .graphRange
  else
    let low ← low.toDouble
    let high ← high.toDouble
    let samples ← samples.toInteger
    return ⟨low, high, samples.toNat⟩

/-- The two ends that a setting for the interval gives: the two parts of a list, a text or an
object. -/
def interval (setting : Json) : Except Failure (Json × Json) :=
  let parts? : Option (List Json) := match setting with
    | .array items => some items
    | .text s => some (s.toList.map fun c => .text (String.ofList [c]))
    | .object members => some (members.map fun (key, _) => .text key)
    | _ => none
  match parts? with
  | some [low, high] => .ok (low, high)
  | some _ => .error .wrongValue
  | none => .error .wrongType

/-- What a caller asks for; what is left open is taken from the settings. -/
structure Request where
  low : Option Json
  high : Option Json
  samples : Option Json

/-- The grid of a request. -/
def Request.grid (request : Request) (settings : Settings) : Except Failure Grid := do
  let (low, high) ← interval (settings.value "graph_domain")
  Sampling.grid (request.low.getD low) (request.high.getD high)
    (request.samples.getD (settings.value "graph_samples"))

/-- A finite number, if the value is one. -/
def finiteNumber? : Value → Option Float
  | .number y => if y.isFinite then some y else none
  | _ => none

/-- A function to be sampled, and all that its samples depend on. -/
structure Series where
  function : String
  grid : Grid
  bindings : Bindings
  settings : Settings

namespace Series

/-- The sample at a place: the point, if the function has a finite number as its value there. Only
refusals are passed over. -/
def sample (series : Series) (x : Float) : Report (Option (Float × Float)) :=
  let report := Evaluation.evaluate series.function (series.bindings.put "x" (.double x))
    series.settings
  match report.outcome with
  | .ok (value, _) => ⟨report.lines, .ok ((finiteNumber? value).map fun y => (x, y))⟩
  | .error (.refused cause _) =>
      ⟨report.lines ++
        if series.settings.debug then
          ["Skipping x=" ++ Decimal.shortest x ++ ": " ++ cause.message]
        else [], .ok none⟩
  | .error failure => ⟨report.lines, .error failure⟩

/-- The samples at all places. -/
def samples (series : Series) : Except Failure (List (Report (Option (Float × Float)))) := do
  let places ← series.grid.places
  return places.map series.sample

/-- The points. -/
def points (series : Series) : Report (List (Float × Float)) := do
  let samples ← series.samples
  let points ← Report.sequence samples
  return points.filterMap id

end Series

/-- The series of a function for a request. -/
def series (function : String) (bindings : Bindings) (settings : Settings) (request : Request) :
    Except Failure Series := do
  let grid ← request.grid settings
  return ⟨function, grid, bindings, settings⟩

/-- The points of a function for a request. -/
def points (function : String) (bindings : Bindings) (settings : Settings) (request : Request) :
    Report (List (Float × Float)) := do
  let series ← series function bindings settings request
  series.points

/-- How far a pass over a series has come. -/
inductive Pass where
  /-- Nothing has been asked for. -/
  | fresh
  /-- The places to come. -/
  | ahead (places : List Float)

namespace Pass

/-- The next point at one of the places, if there is one, and the pass afterwards. A pass that fails
is at its end. -/
def search (series : Series) : List Float → Report (Option (Float × Float)) × Pass
  | [] => (return none, ahead [])
  | x :: places =>
      let report := series.sample x
      match report.outcome with
      | .ok (some point) => (⟨report.lines, .ok (some point)⟩, ahead places)
      | .ok none =>
          let (rest, pass) := search series places
          (⟨report.lines ++ rest.lines, rest.outcome⟩, pass)
      | .error failure => (⟨report.lines, .error failure⟩, ahead [])

/-- Goes on to the next point. A pass whose places cannot be told fails as well. -/
def next (series : Series) : Pass → Report (Option (Float × Float)) × Pass
  | fresh =>
      match series.grid.places with
      | .ok places => search series places
      | .error failure => (Report.ofExcept (.error failure), ahead [])
  | ahead places => search series places

end Pass

end Sampling

end Reckoner
