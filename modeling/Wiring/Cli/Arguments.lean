/-! # Arguments of the program

The program looks names up, shows settings and runs maintenance commands. Options stand before the
command that they belong to or after its name; a maintenance command takes all that follows it.
-/
namespace Wiring.Cli
set_option autoImplicit false

inductive Topic where
  | program
  | name
  | config
  | help
  deriving DecidableEq

inductive Command where
  | name (name suffix : String) (short : Bool)
  | config (key : String)
  | maintenance (name : String) (args : List String)
  | help (topic : Topic)
  | version
  deriving DecidableEq

structure Arguments where
  settings : Option String := none
  command : Command
  deriving DecidableEq

/-- An argument by its look: two hyphens alone, a long option that may have a value attached, short
options in a row, or a word. -/
inductive Look where
  | escape
  | long (name : String) (value : Option String)
  | short (first : Char) (attached : List Char)
  | word (text : String)

def Look.of (arg : String) : Look :=
  match arg.toList with
  | ['-', '-'] => .escape
  | '-' :: '-' :: rest =>
    let name := String.ofList (rest.takeWhile (· != '='))
    match rest.dropWhile (· != '=') with
    | [] => .long name none
    | _ :: value => .long name (some (String.ofList value))
  | '-' :: first :: attached => .short first attached
  | _ => .word arg

inductive Item where
  | escape
  | option (name value : String)
  | switch (name : String)
  | word (text : String)

/-- The value of an option that has none attached is the next argument, which must be a word. -/
def optionItem? (name : String) (rest : List String) : Option (Item × List String) :=
  match rest with
  | value :: rest =>
    match Look.of value with
    | .word text => some (.option name text, rest)
    | _ => none
  | [] => none

/-- Reads one argument, given the options that take a value and the switches that do not, each with
its short form. -/
def item? (options switches : List (Char × String)) (arg : String) (rest : List String) :
    Option (Item × List String) :=
  match Look.of arg with
  | .escape => some (.escape, rest)
  | .word text => some (.word text, rest)
  | .long name value =>
    if options.any (·.2 == name) then
      match value with
      | some value => some (.option name value, rest)
      | none => optionItem? name rest
    else if switches.any (·.2 == name) && value.isNone then some (.switch name, rest)
    else none
  | .short first attached =>
    match options.lookup first, switches.lookup first with
    | some name, _ =>
      match attached with
      | [] => optionItem? name rest
      | '=' :: value => some (.option name (String.ofList value), rest)
      | value => some (.option name (String.ofList value), rest)
    | none, some name => some (.switch name, rest)
    | none, none => none

/-- The short form of a switch that has none. -/
def noShort : Char := '-'

structure NameArguments where
  name : Option String := none
  suffix : Option String := none
  short : Bool := false

/-- Reads the arguments of a name lookup; after an `escape` all are words. -/
def nameCommand? (escaped : Bool) (read : NameArguments) :
    (fuel : Nat) → List String → Option Command
  | 0, _ => none
  | _, [] => read.name.map fun name => .name name (read.suffix.getD "") read.short
  | fuel + 1, arg :: rest =>
    let word (text : String) (rest : List String) : Option Command :=
      if read.name.isSome then none
      else nameCommand? escaped { read with name := some text } fuel rest
    if escaped then word arg rest
    else
      match item? [('s', "suffix")] [(noShort, "short"), ('h', "help")] arg rest with
      | none => none
      | some (.escape, rest) => nameCommand? true read fuel rest
      | some (.word text, rest) => word text rest
      | some (.option _ value, rest) =>
        if read.suffix.isSome then none
        else nameCommand? false { read with suffix := some value } fuel rest
      | some (.switch name, rest) =>
        if name = "help" then some (.help .name)
        else if read.short then none
        else nameCommand? false { read with short := true } fuel rest

def configCommand? (escaped : Bool) (key : Option String) : List String → Option Command
  | [] => key.map .config
  | arg :: rest =>
    let word (text : String) : Option Command :=
      if key.isSome then none else configCommand? escaped (some text) rest
    if escaped then word arg
    else
      match item? [] [('h', "help")] arg rest with
      | none => none
      | some (.escape, _) => configCommand? true key rest
      | some (.word text, _) => word text
      | some (.option _ _, _) => none
      | some (.switch _, _) => some (.help .config)

def helpTopic? : List String → Option Topic
  | [] => some .program
  | ["name"] => some .name
  | ["config"] => some .config
  | ["help"] => some .help
  | _ => none

def arguments? (settings : Option String) : (fuel : Nat) → List String → Option Arguments
  | 0, _ => none
  | _, [] => none
  | fuel + 1, arg :: rest =>
    match item? [('c', "config")] [('h', "help"), ('V', "version")] arg rest with
    | none => none
    | some (.escape, rest) =>
      match rest with
      | name :: args => some ⟨settings, .maintenance name args⟩
      | [] => none
    | some (.option _ file, rest) =>
      if settings.isSome || file.isEmpty then none else arguments? (some file) fuel rest
    | some (.switch name, _) =>
      some ⟨settings, if name = "help" then .help .program else .version⟩
    | some (.word text, rest) =>
      if text = "name" then
        (nameCommand? false {} (rest.length + 1) rest).map (⟨settings, ·⟩)
      else if text = "config" then (configCommand? false none rest).map (⟨settings, ·⟩)
      else if text = "help" then (helpTopic? rest).map (⟨settings, .help ·⟩)
      else some ⟨settings, .maintenance text rest⟩

def Arguments.read? (args : List String) : Option Arguments :=
  arguments? none (args.length + 1) args

end Wiring.Cli
