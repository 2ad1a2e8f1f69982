/-!
# `MustDb.Fault`: how a call fails to return

A C function that returns is `Except.ok`. The other outcomes of the model are the faults below: a
loop that has used up its fuel, and the undefined behaviour that the modelled code can reach.
-/

namespace MustDb

/-- Why a call does not return. -/
inductive Fault where
  /-- A loop still runs after its last turn of fuel. -/
  | outOfFuel
  /-- A `memcpy` touches memory outside the buffer. -/
  | outOfBounds
  /-- An `assert` is false. -/
  | assertFailed
  /-- A call returned `NULL`, and its caller uses the result. -/
  | nullPointer
  /-- A `%` by zero. -/
  | divisionByZero
  /-- An object is used after its `free`. -/
  | useAfterFree
  /-- A pointer is cast to a type that its object does not have. -/
  | badCast
  deriving DecidableEq, Repr

end MustDb
