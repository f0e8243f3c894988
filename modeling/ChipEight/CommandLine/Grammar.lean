import ChipEight.Numeral.Real

/-!
# The grammar of command lines

A command line is a list of arguments; options change settings and every option has its own names. An option is a flag,
or it takes a value, which is the next argument or is attached to the option by an equals sign. A long option may be
shortened as long as it stays the only one. After a single dash, flags can be joined, and a value can follow its option
directly. A negative number, or anything with a space in it, is a value even if it starts with a dash. Two dashes
attached to an option leave it without a value, as in those releases of the argument reader that drop two dashes from
the values of an option.

* `Token.ofArgument` tells what an argument is, and `Grammar.tokens` does so for a whole command line.
* `Grammar.split` takes apart what is attached to an option.
* `Grammar.apply` changes the settings by all tokens in turn, and `Grammar.read` puts the parts together.
-/

namespace ChipEight.CommandLine

/-- Why a value does not suit its option. -/
inductive ValueFault where
  | notInteger (text : String)
  | notReal (text : String)
  | notAmong (text : String) (choices : List String)
  deriving DecidableEq, Repr

/-- A text between quotes. -/
def quoted (text : String) : String :=
  String.ofList (Text.quoted text.toList)

/-- The wording of the fault. -/
def ValueFault.message : ValueFault → String
  | .notInteger text => "invalid int value: " ++ quoted text
  | .notReal text => "invalid float value: " ++ quoted text
  | .notAmong text choices =>
    "invalid choice: " ++ quoted text ++ " (choose from " ++ ", ".intercalate (choices.map quoted) ++ ")"

/-- What an option does. -/
inductive Action (σ : Type) where
  /-- A flag that changes the settings. -/
  | flag (change : σ → σ)
  /-- A value, possibly left out, that changes the settings. -/
  | value (change : Option String → σ → Except ValueFault σ)
  /-- A flag that asks for help. -/
  | help

/-- An option: its names, long ones with two dashes and short ones with one, and what it does. -/
structure Opt (σ : Type) where
  names : List String
  action : Action σ

variable {σ : Type}

/-- Whether an option takes a value. -/
def Opt.takesValue (o : Opt σ) : Bool :=
  match o.action with
  | .value _ => true
  | _ => false

/-- All names of an option. -/
def Opt.title (o : Opt σ) : String :=
  "/".intercalate o.names

/-- Why a command line was refused. -/
inductive Fault where
  | ambiguous (argument : String) (candidates : List String)
  | missingValue (title : String)
  | badValue (title : String) (fault : ValueFault)
  | uselessValue (title : String) (value : String)
  | unrecognized (arguments : List String)
  deriving DecidableEq, Repr

/-- The wording of the fault. -/
def Fault.message : Fault → String
  | .ambiguous argument candidates =>
    "ambiguous option: " ++ argument ++ " could match " ++ ", ".intercalate candidates
  | .missingValue title => "argument " ++ title ++ ": expected one argument"
  | .badValue title fault => "argument " ++ title ++ ": " ++ fault.message
  | .uselessValue title value => "argument " ++ title ++ ": ignored explicit argument " ++ quoted value
  | .unrecognized arguments => "unrecognized arguments: " ++ " ".intercalate arguments

/-- Why the reading of a command line ended early. -/
inductive Stop where
  | fault (fault : Fault)
  | help
  deriving DecidableEq, Repr

/-- What an argument is. -/
inductive Token (σ : Type) where
  /-- No option: the value of the option in front of it, or nothing known. -/
  | operand (text : String)
  /-- Two dashes, behind which there are no options. -/
  | separator
  /-- An option under one of its names, with what is attached to it. -/
  | option (o : Opt σ) (long : Bool) (attached : Option (List Char))
  /-- Something that looks like an option and is none. -/
  | unknown (text : String)

/-- The options of a command line. -/
abbrev Grammar (σ : Type) := List (Opt σ)

namespace Grammar

/-- The option of a given name. -/
def named? (g : Grammar σ) (name : List Char) : Option (Opt σ) :=
  g.find? fun o => o.names.any fun n => n.toList == name

/-- The options with a name that starts like the given text, each with that name. -/
def startingWith (g : Grammar σ) (start : List Char) : List (Opt σ × String) :=
  g.flatMap fun o => (o.names.filter fun n => start.isPrefixOf n.toList).map fun n => (o, n)

end Grammar

/-- Whether a text is a negative number in digits, with or without a fraction; a line feed may follow. -/
def isNegativeNumber : List Char → Bool
  | '-' :: digits =>
    let digits := if digits.getLast? == some '\n' then digits.dropLast else digits
    let allDigits (cs : List Char) := !cs.isEmpty && cs.all Real.isDigit
    allDigits digits || match digits.dropWhile Real.isDigit with
      | '.' :: fraction => allDigits fraction
      | _ => false
  | _ => false

/-- The part of a text before the first equals sign, and the part behind it if there is one. -/
def cutAtEquals (text : List Char) : List Char × Option (List Char) :=
  (text.takeWhile (· != '='), match text.dropWhile (· != '=') with
    | _ :: value => some value
    | [] => none)

/-- The options that an argument can stand for although it is not one of their names, each with the name it has then:
a long option by the start of its name, a short one by its name with something attached. -/
def readings (g : Grammar σ) (argument : List Char) : List (Opt σ × String × Option (List Char)) :=
  match argument with
  | '-' :: '-' :: _ =>
    let (start, attached) := cutAtEquals argument
    (g.startingWith start).map fun (o, name) => (o, name, attached)
  | dash :: letter :: text =>
    match g.named? [dash, letter] with
    | some o => [(o, String.ofList [dash, letter], some text)]
    | none => []
  | _ => []

/-- Whether a name is that of a long option. -/
def isLong (name : List Char) : Bool :=
  ['-', '-'].isPrefixOf name

/-- What an argument is that is neither an option by name nor a shortened one: a value if it is a negative number or
holds a space, and otherwise nothing known. -/
def Token.ofStray (argument : String) : Token σ :=
  if isNegativeNumber argument.toList || argument.toList.contains ' ' then .operand argument else .unknown argument

/-- What an argument is. -/
def Token.ofArgument (g : Grammar σ) (argument : String) : Except Fault (Token σ) :=
  let text := argument.toList
  if text.head? ≠ some '-' then .ok (.operand argument)
  else match g.named? text with
    | some o => .ok (.option o (isLong text) none)
    | none =>
      if text.length = 1 then .ok (.operand argument)
      else
        let (name, attached) := cutAtEquals text
        match attached, g.named? name with
        | some a, some o => .ok (.option o (isLong name) (some a))
        | _, _ =>
          match readings g text with
          | [] => .ok (.ofStray argument)
          | [(o, name, attached)] => .ok (.option o (isLong name.toList) attached)
          | several => .error (.ambiguous argument (several.map fun (_, name, _) => name))

/-- An option that is in use, with the text of its value if it takes one. -/
structure Use (σ : Type) where
  opt : Opt σ
  text : Option String

/-- What an option with an attachment comes to: options in use, and one behind them that still has nothing attached. -/
structure Split (σ : Type) where
  uses : List (Use σ)
  last : Option (Opt σ)

/-- One more option in use, before the others. -/
def Split.after (use : Use σ) (s : Split σ) : Split σ :=
  { s with uses := use :: s.uses }

/-- The value that a text stands for: two dashes stand for none. -/
def valueOf (text : String) : Option String :=
  if text = "--" then none else some text

namespace Grammar

/-- What the arguments of a command line are. -/
def tokens (g : Grammar σ) : List String → Except Fault (List (Token σ))
  | [] => .ok []
  | "--" :: rest => .ok (.separator :: rest.map .operand)
  | argument :: rest => do
    let token ← Token.ofArgument g argument
    return token :: (← g.tokens rest)

/-- Takes apart the text attached to an option: the value that the option takes, or, behind a short flag, further short
options. -/
def split (g : Grammar σ) (o : Opt σ) (long : Bool) (text : List Char) : Except Fault (Split σ) :=
  if o.takesValue then .ok ⟨[⟨o, some (String.ofList text)⟩], none⟩
  else match text with
    | [] => .error (.uselessValue o.title "")
    | letter :: more =>
      match if long then none else g.named? ['-', letter] with
      | none => .error (.uselessValue o.title (String.ofList (letter :: more)))
      | some next =>
        if more.isEmpty then .ok ⟨[⟨o, none⟩], some next⟩
        else (g.split next false more).map (.after ⟨o, none⟩)

/-- Changes the settings by one option. -/
def applyUse (settings : σ) (use : Use σ) : Except Stop σ :=
  match use.opt.action, use.text with
  | .help, _ => .error .help
  | .flag change, _ => .ok (change settings)
  | .value change, some text =>
    match change (valueOf text) settings with
    | .error fault => .error (.fault (.badValue use.opt.title fault))
    | .ok settings => .ok settings
  | .value _, none => .error (.fault (.missingValue use.opt.title))

/-- Changes the settings by all tokens in turn; the result holds the arguments that are nothing known as well. -/
def apply (g : Grammar σ) (settings : σ) : List (Token σ) → Except Stop (σ × List String)
  | [] => .ok (settings, [])
  | .operand text :: rest => do
    let (settings, strays) ← g.apply settings rest
    return (settings, text :: strays)
  | .separator :: rest => do
    let (settings, strays) ← g.apply settings rest
    return (settings, "--" :: strays)
  | .unknown text :: rest => do
    let (settings, strays) ← g.apply settings rest
    return (settings, text :: strays)
  | .option o long attached :: rest => do
    let split : Split σ ← match attached with
      | none => .ok ⟨[], some o⟩
      | some text => (g.split o long text).mapError .fault
    let use (settings : σ) (last : List (Use σ)) : Except Stop σ := (split.uses ++ last).foldlM applyUse settings
    match split.last, rest with
    | none, rest => do g.apply (← use settings []) rest
    | some last, rest =>
      if last.takesValue then
        match rest with
        | .operand text :: rest => do g.apply (← use settings [⟨last, some text⟩]) rest
        | _ => .error (.fault (.missingValue last.title))
      else do g.apply (← use settings [⟨last, none⟩]) rest

/-- Reads a command line. -/
def read (g : Grammar σ) (settings : σ) (arguments : List String) : Except Stop σ := do
  let tokens ← (g.tokens arguments).mapError .fault
  match ← g.apply settings tokens with
  | (settings, []) => return settings
  | (_, strays) => .error (.fault (.unrecognized strays))

end Grammar

end ChipEight.CommandLine
