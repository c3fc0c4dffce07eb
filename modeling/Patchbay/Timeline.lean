import Patchbay.Scalar
/-!
# Timelines

The course of one parameter over time: an initial value and the points scheduled so far, ordered
by time. A point sets the value at its time or is the end of a ramp that begins at the point
before it. A cue schedules a point, or drops everything from some time on and holds the value
reached there.
-/

namespace Patchbay

inductive Timeline.Shape where
  | set
  | linear
  | exponential
deriving DecidableEq, Repr

def Timeline.Shape.name : Timeline.Shape → String
  | .set => "set"
  | .linear => "linear"
  | .exponential => "exponential"

/-- A scheduled value. `issued` is the clock when it was scheduled; a ramp with no point before
it begins there. -/
structure Timeline.Point (α : Type) where
  shape : Timeline.Shape
  value : α
  time : α
  issued : α

structure Timeline (α : Type) where
  initial : α
  points : List (Timeline.Point α)

/-- A change asked of a parameter. -/
inductive Cue (α : Type) where
  | set (value time : α)
  | linear (value time : α)
  | exponential (value time : α)
  | hold (time : α)

namespace Timeline

variable {α : Type} [Scalar α]

def starting (initial : α) : Timeline α := ⟨initial, []⟩

/-- Puts a point after all points that are not later than it. -/
def insertPoint (p : Point α) : List (Point α) → List (Point α)
  | [] => [p]
  | q :: rest => if p.time < q.time then p :: q :: rest else q :: insertPoint p rest

def insert (tl : Timeline α) (p : Point α) : Timeline α :=
  { tl with points := insertPoint p tl.points }

/-- The value part of the way along a ramp. An exponential ramp cannot start at zero or change
sign; it holds its start until the end time. -/
def along (shape : Shape) (start target progress : α) : α :=
  match shape with
  | .set => start
  | .linear => start + (target - start) * progress
  | .exponential =>
    if start == (0.0 : α) || !Scalar.sameSign start target then start
    else start * Scalar.pow (target / start) progress

/-- Follows the points up to time `t`: `value` was reached at `since`, or is the initial value
when no point has been passed. -/
def follow (t : α) (value : α) (since : Option α) : List (Point α) → α
  | [] => value
  | p :: rest =>
    if p.time ≤ t then follow t p.value (some p.time) rest
    else
      let start := since.getD (Scalar.least p.issued p.time)
      if t < start ∨ p.time ≤ start then value
      else along p.shape value p.value ((t - start) / (p.time - start))

def valueAt (tl : Timeline α) (t : α) : α := follow t tl.initial none tl.points

/-- Drops every point from `time` on and holds the value reached there. -/
def holdAt (tl : Timeline α) (time now : α) : Timeline α :=
  let held := tl.valueAt time
  { tl with points := tl.points.filter fun p => p.time < time }.insert ⟨.set, held, time, now⟩

/-- Schedules a cue when the clock stands at `now`. -/
def apply (tl : Timeline α) (now : α) : Cue α → Timeline α
  | .set value time => tl.insert ⟨.set, value, time, now⟩
  | .linear value time => tl.insert ⟨.linear, value, time, now⟩
  | .exponential value time => tl.insert ⟨.exponential, value, time, now⟩
  | .hold time => tl.holdAt time now

end Timeline

end Patchbay
