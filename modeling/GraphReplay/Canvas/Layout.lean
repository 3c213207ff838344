/-!
# The force layout

Nodes are bodies that repel each other; a spring holds two bodies together.  `Layout.tick?` lets the
bodies move for a short time, one after the other, in single precision.  A body that is tied to
itself has no direction to be pulled in, and such a layout does not move: `tick?_isSome_iff` says
that this is the only obstacle.

The module stands for a library of force layouts.  What is proved about canvases rests on three facts
of it: bodies are numbered in the order in which they were added and stay so, `tie` puts no second
spring between two bodies, whichever of them comes first, and a layout fails to move just if a body
is tied to itself.  The forces are there to be run.
-/

namespace GraphReplay

/-- A point or a force in the plane. -/
structure Vec where
  x : Float32
  y : Float32
deriving DecidableEq

namespace Vec

def zero : Vec := ⟨0.0, 0.0⟩

def map (f : Float32 → Float32) (v : Vec) : Vec := ⟨f v.x, f v.y⟩

def zip (f : Float32 → Float32 → Float32) (v w : Vec) : Vec := ⟨f v.x w.x, f v.y w.y⟩

end Vec

/-- A node of the layout.  All bodies have the same mass. -/
structure Body where
  id : String
  position : Vec
  velocity : Vec := Vec.zero
  /-- The acceleration gathered so far in the present tick; none between ticks. -/
  pull : Vec := Vec.zero
deriving DecidableEq

/-- Bodies in the order of their indices, and springs by the indices of their ends, oldest first. -/
structure Layout where
  bodies : List Body
  springs : List (Nat × Nat)
deriving DecidableEq

namespace Body

/-! ## 1. Forces -/

/-- How far two bodies are apart, at least along one axis; 1 if they are in the same place. -/
def distance (d : Vec) : Float32 :=
  if d.x == 0.0 && d.y == 0.0 then 1.0 else (d.x * d.x + d.y * d.y).sqrt

/-- The force on `b` of a spring to `other`: it grows with the distance. -/
def attraction (b other : Body) : Vec :=
  let d := other.position.zip (· - ·) b.position
  let length := distance d
  d.map fun c => c / length * (0.05 * length * 0.5)

/-- The force on `b` of the charge of `other`: it falls with the square of the distance. -/
def repulsion (b other : Body) : Vec :=
  let d := other.position.zip (· - ·) b.position
  let length := distance d
  d.map fun c => c / length * (-600.0 * ((10.0 * 10.0) / (length * length)))

/-- A component of a force is held between -100 and 100. -/
def boundedForce (f : Float32) : Float32 :=
  -- A force that is not a number counts as the least.
  let raised : Float32 := if f > -100.0 then f else -100.0
  if raised < 100.0 then raised else 100.0

/-- The body after the force `f` has worked on it for the time `dt`. -/
def push (dt : Float32) (b : Body) (f : Vec) : Body :=
  { b with pull := b.pull.zip (fun a c => a + boundedForce c * dt) f }

/-- The body moved by what was gathered, with its speed damped. -/
def move (dt : Float32) (b : Body) : Body :=
  let velocity := b.velocity.zip (fun v a => (v + a * dt * 3000.0) * 0.9) b.pull
  { b with
    position := b.position.zip (fun p v => p + v * dt) velocity
    velocity := velocity
    pull := Vec.zero }

end Body

namespace Layout

/-! ## 2. Springs -/

def empty : Layout := ⟨[], []⟩

/-- The springs with one between `a` and `b`, unless there is one already, in either direction. -/
def tie (springs : List (Nat × Nat)) (a b : Nat) : List (Nat × Nat) :=
  if springs.contains (a, b) || springs.contains (b, a) then springs else springs ++ [(a, b)]

/-- The bodies tied to body `i`: those of the springs that start there and then those of the springs
that end there, the newest spring first in each case. -/
def neighbours (springs : List (Nat × Nat)) (i : Nat) : List Nat :=
  ((springs.filter (·.1 == i)).map (·.2)).reverse ++
    ((springs.filter (·.2 == i)).map (·.1)).reverse

def hasLoop (l : Layout) : Bool :=
  l.springs.any fun s => s.1 == s.2

/-! ## 3. Movement -/

/-- Let the bodies of `rest` move in order, when those of `moved` have moved before them.  A body is
first pulled by its springs, then pushed away by every body after it, which is pushed back as hard,
and then it moves. -/
def sweep (dt : Float32) (springs : List (Nat × Nat)) (moved rest : List Body) : List Body :=
  match rest with
  | [] => moved
  | b :: after =>
    -- Springs pull towards bodies that moved before in their new places, the others in their old.
    let tied := (neighbours springs moved.length).filterMap fun j => (moved ++ rest)[j]?
    let pulled := tied.foldl (fun acc other => acc.push dt (b.attraction other)) b
    let pushed := after.foldl (fun acc other => acc.push dt (b.repulsion other)) pulled
    let pushedBack := after.map fun other => other.push dt ((b.repulsion other).map (- ·))
    sweep dt springs (moved ++ [pushed.move dt]) pushedBack
termination_by rest.length
decreasing_by simp

/-- The layout after the time `dt`, unless some body is tied to itself. -/
def tick? (dt : Float32) (l : Layout) : Option Layout :=
  if l.hasLoop then none else some { l with bodies := sweep dt l.springs [] l.bodies }

theorem tick?_isSome_iff (dt : Float32) (l : Layout) :
    (l.tick? dt).isSome ↔ ∀ s ∈ l.springs, s.1 ≠ s.2 := by
  have h : l.hasLoop = false ↔ ∀ s ∈ l.springs, s.1 ≠ s.2 := by
    simp only [hasLoop, List.any_eq_false, beq_iff_eq, ne_eq]
  rw [← h, tick?]
  cases l.hasLoop <;> simp

theorem springs_tick? {dt : Float32} {l moved : Layout} (h : l.tick? dt = some moved) :
    moved.springs = l.springs := by
  rw [tick?] at h
  split at h
  · cases h
  · cases h
    rfl

end Layout

end GraphReplay
