/-!
# Limits

Two limits keep the work on one expression or rule bounded: how many logical nodes may wait
for operands while an expression is read, and how many joins each phase of reducing a rule
may make.
-/

namespace SurveyBranching

/-- The engine's limits. -/
structure Limits where
  /-- Joins allowed in each phase of reducing a rule's conditions. -/
  maxReductionIterations : Nat := 50
  /-- Logical nodes allowed to wait for operands while an expression is read. -/
  maxExpressionDepth : Nat := 1024
deriving DecidableEq, Repr

end SurveyBranching
