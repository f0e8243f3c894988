/-!
# Classes of errors

Every fault of the machine, of its loaders and of its hosts has a class, and a narrow class lies in broader ones. A
handler names classes; it takes the errors of these and of all classes that lie in them, and lets the others pass.

* `ErrorClass.lineage` lists a class and the broader ones around it.
* `handling` runs what may fail under a handler; `handling_of_all` says that a handler which names enough lets no error
  pass.
-/

namespace ChipEight

/-- The classes of errors. -/
inductive ErrorClass where
  | valueError
  | romTooLargeError
  | runtimeError
  | chip8Error
  | stackOverflowError
  | stackUnderflowError
  | osError
  | fileNotFoundError
  | typeError
  | attributeError
  | indexError
  | overflowError
  | memoryError
  deriving DecidableEq, Repr

namespace ErrorClass

/-- A class and the broader ones around it, the narrowest first. -/
def lineage : ErrorClass → List ErrorClass
  | romTooLargeError => [romTooLargeError, valueError]
  | chip8Error => [chip8Error, runtimeError]
  | stackOverflowError => [stackOverflowError, chip8Error, runtimeError]
  | stackUnderflowError => [stackUnderflowError, chip8Error, runtimeError]
  | fileNotFoundError => [fileNotFoundError, osError]
  | c => [c]

/-- Whether a handler that names some classes takes the errors of a class. -/
def isTakenBy (c : ErrorClass) (named : List ErrorClass) : Bool :=
  c.lineage.any (named.contains ·)

end ErrorClass

variable {ε α : Type}

/-- A result under a handler of the named classes: an error that it takes is the outcome, and any other passes. -/
def handling (named : List ErrorClass) (classOf : ε → ErrorClass) : Except ε α → Except ε (Except ε α)
  | .ok a => .ok (.ok a)
  | .error e => if (classOf e).isTakenBy named then .ok (.error e) else .error e

/-- A handler that takes all errors there can be lets none pass. -/
theorem handling_of_all {named : List ErrorClass} {classOf : ε → ErrorClass} {result : Except ε α}
    (h : ∀ e, result = .error e → (classOf e).isTakenBy named) : handling named classOf result = .ok result := by
  cases result with
  | ok a => rfl
  | error e => exact if_pos (h e rfl)

end ChipEight
