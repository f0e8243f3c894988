import ChipEight.Machine.Parts

/-!
# Notes

What the machine and the loaders have to say while they work. A note is a fact; `Note.level` says how grave it is and
`Note.message` words it. The faults of the call stack are here as well, because a trace quotes their wording.
-/

namespace ChipEight

/-- How grave a note is, in rising order. -/
inductive Level where
  | debug
  | info
  | warning
  | error
  deriving DecidableEq, Repr

namespace Level

/-- All levels in rising order. -/
def all : List Level := [debug, info, warning, error]

/-- The name of a level. -/
def name : Level → String
  | debug => "DEBUG"
  | info => "INFO"
  | warning => "WARNING"
  | error => "ERROR"

/-- The place of a level in the order. -/
def rank : Level → Nat
  | debug => 0
  | info => 1
  | warning => 2
  | error => 3

/-- The level of a given name. -/
def ofName? (name : String) : Option Level :=
  all.find? fun level => level.name == name

end Level

/-- The stack cannot do what an instruction asks for. -/
inductive StackFault where
  /-- A call from that address found the stack full. -/
  | overflow (address : Int)
  /-- A return at that address found the stack empty. -/
  | underflow (address : Int)
  deriving DecidableEq, Repr

/-- The wording of the fault. -/
def StackFault.message : StackFault → String
  | .overflow address => "Stack overflow calling from " ++ Hex.literal 5 address
  | .underflow address => "Return with empty stack at " ++ Hex.literal 5 address

def StackFault.errorClass : StackFault → ErrorClass
  | .overflow _ => .stackOverflowError
  | .underflow _ => .stackUnderflowError

/-- A word without a meaning, and the address that it was fetched from. -/
structure BadWord where
  word : Int
  address : Int
  deriving DecidableEq, Repr

/-- The wording of the complaint. -/
def BadWord.message (e : BadWord) : String :=
  "Invalid opcode " ++ Hex.literal 6 e.word ++ " at " ++ Hex.literal 5 e.address

/-- A fact worth noting. -/
inductive Note where
  /-- A file of that many bytes was read. -/
  | fileRead (bytes : Nat) (path : String)
  /-- A machine was made for a program of that many bytes. -/
  | programLoaded (bytes : Nat) (width height : Nat)
  /-- A write to a protected address was refused. -/
  | writeRefused (value : Int) (address : Nat)
  /-- A word without a meaning was executed. -/
  | badWord (e : BadWord)
  /-- The machine began to wait for a key. -/
  | keyAwaited (register : Register)
  /-- A key answered the wait. -/
  | keyLatched (key : Key) (register : Register)
  /-- The key was stored in its register. -/
  | keyStored (key : Key) (register : Register)
  /-- A step was made while the machine waited. -/
  | stepAwaiting
  deriving DecidableEq, Repr

namespace Note

/-- How grave the note is. -/
def level : Note → Level
  | writeRefused .. => .warning
  | badWord .. => .error
  | _ => .debug

/-- The wording of the note. -/
def message : Note → String
  | fileRead bytes path => s!"Read {bytes} bytes from {path}."
  | programLoaded bytes width height => s!"Loaded {bytes} byte ROM, display {width}x{height}."
  | writeRefused value address =>
    "Refused write of " ++ Hex.literal 4 value ++ " to font address " ++ Hex.literal 5 address ++ "."
  | badWord e => e.message ++ "."
  | keyAwaited register => "Waiting for a key to store in " ++ register.name ++ "."
  | keyLatched key register =>
    "Key " ++ key.name ++ " latched for " ++ register.name ++ "."
  | keyStored key register =>
    "Stored key " ++ key.name ++ " in " ++ register.name ++ "."
  | stepAwaiting => "Step while awaiting a key; nothing decoded."

end Note

end ChipEight
