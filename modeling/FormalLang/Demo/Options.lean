/-!
# Options of the demonstration

The command line takes a seed, a depth and a count, each at most once, and any
number of words.  A value follows its option as the next argument, which then
must not look like an option, or after an equals sign.  The arguments are read
in order, and the first that asks for the version or for help ends the reading.
-/

namespace FormalLang.Demo

/-- What the report is made for.  What is not given has a default. -/
structure Options where
  seed : Option Nat
  maxDepth : Option Nat
  count : Option Nat
  words : List String
deriving DecidableEq

/-- A decimal number of at most 64 bits, with or without a plus sign. -/
def number? (text : String) : Option Nat :=
  let digits :=
    match text.toList with
    | '+' :: rest => rest
    | rest => rest
  if digits.isEmpty || !digits.all Char.isDigit then none
  else
    let n := digits.foldl (fun n c => 10 * n + (c.toNat - '0'.toNat)) 0
    if n < UInt64.size then some n else none

namespace Options

/-- The options of an empty command line. -/
def empty : Options :=
  ⟨none, none, none, []⟩

/-- The options with one more, which must not have been given before unless it
is a word. -/
def set? (o : Options) (option value : String) : Option Options :=
  match option with
  | "--seed" =>
      if o.seed.isSome then none
      else (number? value).map fun n => { o with seed := some n }
  | "--max-depth" =>
      if o.maxDepth.isSome then none
      else (number? value).map fun n => { o with maxDepth := some n }
  | "--count" =>
      if o.count.isSome then none
      else (number? value).map fun n => { o with count := some n }
  | "--word" => some { o with words := o.words ++ [value] }
  | _ => none

end Options

/-- The option and the value of an argument with an equals sign. -/
def attached? (argument : String) : Option (String × String) :=
  let cs := argument.toList
  match cs.dropWhile (· ≠ '=') with
  | [] => none
  | _ :: value => some (String.ofList (cs.takeWhile (· ≠ '=')), String.ofList value)

/-- Whether an argument can be the value of the option before it. -/
def isValue (argument : String) : Bool :=
  match argument.toList with
  | ['-'] => true
  | '-' :: _ => false
  | _ => true

/-- What a command line asks for. -/
inductive Request
  | report (options : Options)
  | version
  | help
deriving DecidableEq

namespace Request

/-- The request for which an argument is enough. -/
def ofArgument? (argument : String) : Option Request :=
  match argument.toList with
  | '-' :: 'V' :: _ => some version
  | '-' :: 'h' :: _ => some help
  | _ =>
      if argument = "--version" then some version
      else if argument = "--help" then some help
      else none

/-- The request of a command line after some options, if it is well formed.  Two
dashes may end it. -/
def parseAfter? (o : Options) : List String → Option Request
  | [] => some (report o)
  | argument :: rest =>
      match ofArgument? argument with
      | some request => some request
      | none =>
          match attached? argument, rest with
          | some (option, value), rest => do parseAfter? (← o.set? option value) rest
          | none, [] => if argument = "--" then some (report o) else none
          | none, value :: rest =>
              if isValue value then do parseAfter? (← o.set? argument value) rest else none

/-- The request of a command line, if it is well formed. -/
def parse? (arguments : List String) : Option Request :=
  parseAfter? .empty arguments

end Request
end FormalLang.Demo
