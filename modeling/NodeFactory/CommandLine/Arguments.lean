/-!
# Arguments

A command is a verb and options, each at most once, with values of at least one character. An option
and its value may be one argument, joined by an equals sign, or two, of which the second does not
look like an option.
-/

namespace NodeFactory

inductive Verb where
  | generate
  | check
  | dump
deriving DecidableEq, Repr

structure Command where
  verb : Verb
  input : Option String
  output : Option String
  config : Option String
deriving DecidableEq, Repr

namespace Command

def ofVerb (verb : Verb) : Command := ⟨verb, none, none, none⟩

/-- Gives an option a value, unless it has one or the verb does not take it. -/
def setOption? (command : Command) (name value : List Char) : Option Command :=
  if value.isEmpty then none
  else if name = "input".toList ∧ command.input.isNone then
    some { command with input := some (String.ofList value) }
  else if name = "output".toList ∧ command.output.isNone ∧ command.verb ≠ .dump then
    some { command with output := some (String.ofList value) }
  else if name = "config".toList ∧ command.config.isNone then
    some { command with config := some (String.ofList value) }
  else none

/-- Whether an argument can stand alone as a value. -/
def isValue : List Char → Bool
  | '-' :: rest => rest.isEmpty
  | _ => true

/-- Reads the options after a verb. Two dashes alone end them, and nothing may follow. -/
def readOptions? (command : Command) : List (List Char) → Option Command
  | [] => some command
  | ('-' :: '-' :: option) :: arguments =>
    if option.isEmpty then
      if arguments.isEmpty then some command else none
    else
      match option.dropWhile (· != '=') with
      | _ :: value => do
        (← command.setOption? (option.takeWhile (· != '=')) value).readOptions? arguments
      | [] =>
        match arguments with
        | value :: arguments =>
          if isValue value then do
            (← command.setOption? option value).readOptions? arguments
          else none
        | [] => none
  | _ :: _ => none

/-- The command that arguments give. Without a verb it is to generate, and takes no options. -/
def ofArguments? (arguments : List String) : Option Command :=
  match arguments.map String.toList with
  | [] | [['-', '-']] => some (ofVerb .generate)
  | verb :: options =>
    if verb = "generate".toList then (ofVerb .generate).readOptions? options
    else if verb = "check".toList then (ofVerb .check).readOptions? options
    else if verb = "dump".toList then (ofVerb .dump).readOptions? options
    else none

end Command

end NodeFactory
