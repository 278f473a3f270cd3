/-!
# Paths

The place of a branch inside a template, written `$.media[2].url`. A path may carry the step of a chain that was
running there; going further down drops it.
-/

namespace MediaQuery

/-- One step down: into a field or a list position. -/
inductive Segment where
  | key (name : String)
  | index (i : Nat)
  deriving DecidableEq, Repr, Inhabited

/-- The segment as part of a path. -/
def Segment.render : Segment → String
  | .key name => "." ++ name
  | .index i => "[" ++ toString i ++ "]"

/-- A place in a template. -/
structure Path where
  segments : List Segment
  step : Option Nat
  deriving DecidableEq, Repr, Inhabited

namespace Path

/-- The whole template. -/
def root : Path := ⟨[], none⟩

/-- The path with the given segments. -/
def ofSegments (segments : List Segment) : Path := ⟨segments, none⟩

/-- One level further down. -/
def child (p : Path) (s : Segment) : Path := ⟨p.segments ++ [s], none⟩

/-- Several levels further down. -/
def join (p : Path) (segments : List Segment) : Path := ⟨p.segments ++ segments, none⟩

/-- The same place during the given step of a chain, counted from one. -/
def withStep (p : Path) (n : Nat) : Path := { p with step := some n }

/-- The field of a directive, whose key has one underscore in front. -/
def directive (p : Path) (name : String) : Path := p.child (.key ("_" ++ name))

/-- The path as text. -/
def render (p : Path) : String :=
  "$" ++ String.join (p.segments.map Segment.render) ++
    match p.step with
    | some n => " — (chain step " ++ toString n ++ ")"
    | none => ""

end Path

end MediaQuery
