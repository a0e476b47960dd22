/-! # Characters of component names

A word consists of ASCII letters and digits and of the letters å, ä and ö in either case.
`:` and `\` stand between namespaces, `-` and `_` between words.
-/
namespace Wiring.Name
set_option autoImplicit false

def defaultNamespace : String := "Savoksi"

def separator : Char := '\\'

def isLower (c : Char) : Bool := c.isLower || c == 'å' || c == 'ä' || c == 'ö'

def isUpper (c : Char) : Bool := c.isUpper || c == 'Å' || c == 'Ä' || c == 'Ö'

def isLetter (c : Char) : Bool := isLower c || isUpper c

def isWordChar (c : Char) : Bool := isLetter c || c.isDigit

def isNamespaceMark (c : Char) : Bool := c == ':' || c == separator

def isJoiner (c : Char) : Bool := c == '-' || c == '_'

/-- The upper-case form of a word character; a digit is its own. -/
def capital (c : Char) : Char :=
  if c = 'å' then 'Å' else if c = 'ä' then 'Ä' else if c = 'ö' then 'Ö' else c.toUpper

/-- The lower-case form of a word character; a digit is its own. -/
def small (c : Char) : Char :=
  if c = 'Å' then 'å' else if c = 'Ä' then 'ä' else if c = 'Ö' then 'ö' else c.toLower

theorem isNamespaceMark_iff (c : Char) : isNamespaceMark c = true ↔ c = ':' ∨ c = separator := by
  simp [isNamespaceMark]

theorem isJoiner_iff (c : Char) : isJoiner c = true ↔ c = '-' ∨ c = '_' := by
  simp [isJoiner]

theorem isWordChar_iff (c : Char) :
    isWordChar c = true ↔ isLower c = true ∨ isUpper c = true ∨ c.isDigit = true := by
  simp [isWordChar, isLetter, or_assoc]

end Wiring.Name
