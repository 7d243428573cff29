/-!
# Identifiers

A letter or an underscore, then letters, digits and underscores, all of them ASCII.
-/

namespace HalfBinary.Text

def startsIdentifier (c : Char) : Bool := c.isAlpha || c == '_'

def inIdentifier (c : Char) : Bool := c.isAlphanum || c == '_'

def isIdentifier : List Char → Bool
  | [] => false
  | c :: rest => startsIdentifier c && rest.all inIdentifier

/-- Every first character may also come later. -/
theorem inIdentifier_of_startsIdentifier {c : Char} (h : startsIdentifier c = true) :
    inIdentifier c = true := by
  simp only [startsIdentifier, inIdentifier, Char.isAlphanum, Bool.or_eq_true] at *
  exact h.imp_left Or.inl

end HalfBinary.Text
