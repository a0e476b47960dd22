import Wiring.Path.Assign
import Wiring.Template

/-! # Failures

A failure has a message with its arguments already written in, and may name what it is about, how
to help it and what caused it.
-/
namespace Wiring
set_option autoImplicit false

inductive Failure.Kind where
  | lexical
  | typeConflict
  | unknownComponent
  | recursionLimit
  | invalidArgument
  | unavailable
  | parse
  | io
  deriving DecidableEq, Inhabited

structure Failure where
  kind : Failure.Kind
  message : String
  path : Option String := none
  help : Option String := none
  cause : Option String := none
  deriving DecidableEq, Inhabited

namespace Failure

def ofTemplate (kind : Kind) (template : String) (args : List Value) : Failure :=
  { kind, message := Template.interpolate template args }

/-- The failure with the name or path that it is about. -/
def about (failure : Failure) (path : String) : Failure := { failure with path := some path }

def withHelp (failure : Failure) (help : String) : Failure := { failure with help := some help }

def withCause (failure : Failure) (cause : String) : Failure := { failure with cause := some cause }

def lexical (template subject : String) : Failure :=
  (ofTemplate .lexical template [.string subject]).about subject

def invalidName (name : String) : Failure :=
  (lexical "invalid class name" name).withHelp
    "Names are words of letters and digits joined by '-' or '_', with ':' or '\\' between namespaces"

def invalidIndex (path : String) : Failure :=
  lexical Path.Fault.invalidIndex.message path

def unexpectedAfterIndex (path : String) : Failure :=
  (lexical Path.Fault.unexpectedAfterIndex.message path).withHelp
    "Separate keys with '.' or start another '[...]' index"

def ofMalformed (malformed : Path.Malformed) : Failure :=
  match malformed.fault with
  | .invalidIndex => invalidIndex malformed.text
  | .unexpectedAfterIndex => unexpectedAfterIndex malformed.text

def typeConflict (reason path : String) : Failure :=
  (ofTemplate .typeConflict reason [.string path]).about path

def conflictReason : Path.Conflict → String
  | .descendThroughScalar => "cannot descend through scalar"
  | .containerForScalar => "cannot replace scalar with container"
  | .scalarForContainer => "cannot replace container with scalar"

def unknownComponent (name : String) : Failure :=
  ((ofTemplate .unknownComponent "unknown component \x7b1\x7d" [.string name]).about name).withHelp
    "Register a factory for the component in the catalog or check for typos"

def recursionLimit (name : String) (limit : Nat) : Failure :=
  ((ofTemplate .recursionLimit "infinite loop while creating \x7b1\x7d (limit \x7b2\x7d)"
    [.string name, .ofCount limit]).about name).withHelp
    "A component factory is requesting itself, directly or through others"

def invalidArgument (template : String) (argument : Value) : Failure :=
  ofTemplate .invalidArgument template [argument]

def unavailable (what : String) : Failure :=
  ofTemplate .unavailable "\x7b1\x7d is not available" [.string what]

def parse (message : String) : Failure :=
  (ofTemplate .parse "settings could not be parsed" []).withCause message

def io (template subject cause : String) : Failure :=
  ((ofTemplate .io template [.string subject]).about subject).withCause cause

def display (failure : Failure) : String :=
  failure.message
    ++ failure.cause.elim "" ("\n  " ++ ·)
    ++ failure.help.elim "" ("\n  Help: " ++ ·)

end Failure

/-- Assigns a value at a path. The path itself is what a conflict is about. -/
def Value.set (root : Value) (path : Path) (new : Value) : Value × Except Failure Unit :=
  match path.keys? with
  | .error malformed => (root, .error (.ofMalformed malformed))
  | .ok none =>
    (root, .error (.ofTemplate .invalidArgument "cannot assign to the whole value" []))
  | .ok (some keys) =>
    let assigned := root.assignAt keys new
    (assigned.value, match assigned.conflict with
      | none => .ok ()
      | some conflict => .error (.typeConflict (Failure.conflictReason conflict) path.display))

end Wiring
