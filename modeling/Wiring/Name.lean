import Wiring.Failure
import Wiring.Name.Canonical
import Wiring.Name.Short

/-! # Component names

A component is asked for by a short name, such as `app:create-account`, and known by a canonical
one, such as `App\CreateAccount`.
-/
namespace Wiring.Name
set_option autoImplicit false

def canonicalize (name suffix : String) : Except Failure String :=
  (canonical? name suffix).elim (.error (.invalidName name)) .ok

def shorten (name suffix : String) : Except Failure String :=
  (short? name suffix).elim (.error (.invalidName name)) .ok

theorem canonicalize_eq_ok_iff (name suffix result : String) :
    canonicalize name suffix = .ok result ↔ canonical? name suffix = some result := by
  cases h : canonical? name suffix <;> simp [canonicalize, h]

theorem shorten_eq_ok_iff (name suffix result : String) :
    shorten name suffix = .ok result ↔ short? name suffix = some result := by
  cases h : short? name suffix <;> simp [shorten, h]

end Wiring.Name
