import Wiring.Failure
import Wiring.Table
import Wiring.Yaml.Reader

/-! # Contexts

A context holds the registrations and the flat settings of one application.
-/
namespace Wiring
set_option autoImplicit false

structure Context where
  registrations : Table String := {}
  settings : Table String := {}
  deriving Inhabited

/-- What comes of reading a file: its text, or why there is none. -/
abbrev FileText := Except String String

namespace Context

def register (context : Context) (name target : String) : Context :=
  { context with registrations := context.registrations.set name target }

def unregister (context : Context) (name : String) : Context :=
  { context with registrations := context.registrations.erase name }

def registration? (context : Context) (name : String) : Option String :=
  context.registrations.get? name

def config? (context : Context) (key : String) : Option String :=
  context.settings.get? key

def insert (context : Context) (key text : String) : Context :=
  { context with settings := context.settings.set key text }

mutual

/-- Stores a setting. Text is stored as it is, a container entry by entry under dotted keys, a falsy
scalar as empty text and anything else as it is shown. -/
def setConfig (context : Context) (key : String) : Value → Context
  | .string text => context.insert key text
  | .mapping entries => context.storeEntries (key ++ ".") entries
  | .sequence items => context.storeItems (key ++ ".") 0 items
  | value => context.insert key (if value.isFalsy then "" else value.display)

def storeEntries (context : Context) (lead : String) : List (String × Value) → Context
  | [] => context
  | (key, value) :: rest => (context.setConfig (lead ++ key) value).storeEntries lead rest

def storeItems (context : Context) (lead : String) (position : Nat) : List Value → Context
  | [] => context
  | item :: rest =>
    (context.setConfig (lead ++ Position.text position) item).storeItems lead (position + 1) rest

end

/-- Stores the entries of a container of settings. Null stores nothing, and any other value is
refused. -/
def setConfigAll (context : Context) : Value → Except Failure Context
  | .null => .ok context
  | .mapping entries => .ok (context.storeEntries "" entries)
  | .sequence items => .ok (context.storeItems "" 0 items)
  | other =>
    .error (.invalidArgument "settings must be a mapping, not \x7b1\x7d" (.string other.typeName))

def load (context : Context) (text : String) : Except Failure Context :=
  match Yaml.read? text with
  | some settings => context.setConfigAll settings
  | none => .error (.parse "the text is not YAML")

/-- Loads settings from a file. Whatever fails is about the file. -/
def loadFile (context : Context) (path : String) (file : FileText) : Except Failure Context :=
  match file with
  | .error cause => .error (.io "cannot read settings file \x7b1\x7d" path cause)
  | .ok text => (context.load text).mapError (·.about path)

/-- Contexts are alike if their tables are, in any order. -/
def alike (left right : Context) : Bool :=
  left.registrations.alike right.registrations && left.settings.alike right.settings

end Context
end Wiring
