import Std.Data.HashMap
import Wiring.Name

/-! # Memoized names

Names that were found once are looked up by name and suffix. Failures are not remembered.
-/
namespace Wiring.Name
set_option autoImplicit false

structure Memo where
  canonical : Std.HashMap (String × String) String := ∅
  short : Std.HashMap (String × String) String := ∅

namespace Memo

/-- Looks a name up in one of the tables, or builds it and writes it there. -/
def lookUp (table : Std.HashMap (String × String) String) (key : String × String)
    (build : Except Failure String) :
    Except Failure String × Std.HashMap (String × String) String :=
  match table[key]? with
  | some hit => (.ok hit, table)
  | none =>
    match build with
    | .ok name => (.ok name, table.insert key name)
    | .error failure => (.error failure, table)

def canonicalize (memo : Memo) (name suffix : String) : Except Failure String × Memo :=
  let (answer, table) := lookUp memo.canonical (name, suffix) (Name.canonicalize name suffix)
  (answer, { memo with canonical := table })

def shorten (memo : Memo) (name suffix : String) : Except Failure String × Memo :=
  let (answer, table) := lookUp memo.short (name, suffix) (Name.shorten name suffix)
  (answer, { memo with short := table })

end Memo
end Wiring.Name
