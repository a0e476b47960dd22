import Wiring.Context

/-! # Folders

A folder holds files by path, and a directory for each path that leads to one. Reading a path walks
it step by step from the folder, and gives the text of a file or says why there is none.
-/
namespace Wiring
set_option autoImplicit false

/-- A place by the steps that lead to it, none of them back. -/
structure Location where
  fromTop : Bool := false
  above : Nat := 0
  steps : List String := []
  deriving DecidableEq

namespace Location

def start (path : String) : Location := { fromTop := path.startsWith "/" }

/-- One directory back; nothing lies before the top. -/
def back (location : Location) : Location :=
  if !location.steps.isEmpty then { location with steps := location.steps.dropLast }
  else if location.fromTop then location
  else { location with above := location.above + 1 }

/-- Empty steps and single dots stay where they are, and two dots lead back. -/
def step (location : Location) (name : String) : Location :=
  if name = "" ∨ name = "." then location
  else if name = ".." then location.back
  else { location with steps := location.steps ++ [name] }

def ofPath (path : String) : Location := (path.splitOn "/").foldl step (start path)

def leadsTo (location other : Location) : Bool :=
  location.fromTop == other.fromTop && location.above == other.above &&
    location.steps.isPrefixOf other.steps

end Location

structure Folder where
  files : List (String × ByteArray) := []
  deriving Inhabited

namespace Folder

def notFound : String := "No such file or directory (os error 2)"

def notADirectory : String := "Not a directory (os error 20)"

def isADirectory : String := "Is a directory (os error 21)"

def nameTooLong : String := "File name too long (os error 36)"

def holdsNul : String := "file name contained an unexpected NUL byte"

def notText : String := "stream did not contain valid UTF-8"

def maxStep : Nat := 255

def maxPath : Nat := 4095

/-- A device that is known wherever the folder lies, and reads as an empty file. -/
def nullDevice : String := "/dev/null"

inductive Entry where
  | file (data : ByteArray)
  | directory (location : Location)

def entry? (folder : Folder) (location : Location) : Option Entry :=
  let files := (folder.files ++ [(nullDevice, ByteArray.empty)]).map fun (name, data) =>
    (Location.ofPath name, data)
  match files.lookup location with
  | some data => some (.file data)
  | none => if files.any (location.leadsTo ·.1) then some (.directory location) else none

def walk (folder : Folder) (entry : Entry) (name : String) : Except String Entry :=
  match entry with
  | .file _ => .error notADirectory
  | .directory location =>
    if ["", ".", ".."].contains name then .ok (.directory (location.step name))
    else if maxStep < name.utf8ByteSize then .error nameTooLong
    else (folder.entry? (location.step name)).elim (.error notFound) .ok

/-- What a path leads to. -/
def follow (folder : Folder) (path : String) : Except String Entry :=
  if path.contains '\x00' then .error holdsNul
  else if path.isEmpty then .error notFound
  else if maxPath < path.utf8ByteSize then .error nameTooLong
  else (path.splitOn "/").foldlM folder.walk (.directory (.start path))

def read (folder : Folder) (path : String) : FileText := do
  match ← folder.follow path with
  | .file data => (String.fromUTF8? data).elim (.error notText) .ok
  | .directory _ => .error isADirectory

end Folder
end Wiring
