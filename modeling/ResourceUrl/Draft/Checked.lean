/-!
# Checks that go on after a violation

A check of a draft finds everything that is wrong with it, not only the first fault. A violation is a
problem and the path to the part that has it.
-/

namespace ResourceUrl.Draft

/-- A step on the way to a part of a draft. -/
inductive Step where
  | key (name : String)
  | index (position : Nat)
deriving DecidableEq, Repr

/-- What is wrong with a part of a draft. -/
inductive Problem where
  /-- A part that is required is not there. -/
  | missing
  /-- A name that is none of those that are known. -/
  | unknownName
  /-- A negative bound. -/
  | negative
  /-- A root that says it is something else than a group. -/
  | wrongTag
  /-- A child that does not say what it is. -/
  | missingTag
  /-- A child that says it is neither a condition nor a group. -/
  | unknownTag
  /-- A part of a finished query, which cannot be changed. -/
  | frozen
deriving DecidableEq, Repr

def Problem.name : Problem → String
  | .missing => "missing"
  | .unknownName => "enum"
  | .negative => "greater_than_equal"
  | .wrongTag => "literal_error"
  | .missingTag => "union_tag_not_found"
  | .unknownTag => "union_tag_invalid"
  | .frozen => "frozen_instance"

/-- A problem and the path to it. -/
structure Violation where
  path : List Step
  problem : Problem
deriving DecidableEq, Repr

/-- Setting a part of a finished query is always refused. -/
def refuseChange (part : String) : Violation :=
  { path := [.key part], problem := .frozen }

/-- A part that passed, or all that is wrong with it. -/
inductive Checked (α : Type) where
  | passed (part : α)
  | failed (violations : List Violation)

namespace Checked

variable {α β : Type}

def fail (problem : Problem) : Checked α :=
  .failed [{ path := [], problem }]

def map (f : α → β) : Checked α → Checked β
  | .passed a => .passed (f a)
  | .failed violations => .failed violations

/-- Two checks, with the violations of both. -/
def both : Checked α → Checked β → Checked (α × β)
  | .passed a, .passed b => .passed (a, b)
  | .failed v, .passed _ => .failed v
  | .passed _, .failed w => .failed w
  | .failed v, .failed w => .failed (v ++ w)

/-- A check of the part that is one step further in. -/
def under (step : Step) : Checked α → Checked α
  | .passed a => .passed a
  | .failed violations => .failed (violations.map fun v => { v with path := step :: v.path })

/-- The checks of a list of parts; the first is part number `position`. -/
def all (position : Nat) : List (Checked α) → Checked (List α)
  | [] => .passed []
  | check :: checks =>
    ((check.under (.index position)).both (all (position + 1) checks)).map fun (a, rest) => a :: rest

def required (name : String) : Option α → Checked α
  | some part => .passed part
  | none => (fail .missing).under (.key name)

/-- A part that is one of known names, or `default` when it is not there. -/
def named (name : String) (ofName? : String → Option α) (default : α) : Option String → Checked α
  | none => .passed default
  | some text =>
    match ofName? text with
    | some part => .passed part
    | none => (fail .unknownName).under (.key name)

/-- A bound that is not negative, or none. -/
def bound (name : String) : Option Int → Checked (Option Nat)
  | none => .passed none
  | some (.ofNat n) => .passed (some n)
  | some (.negSucc _) => (fail .negative).under (.key name)

end Checked

end ResourceUrl.Draft
