import HalfBinary.Digest.Sha256

/-!
# Clause digests

A clause is logged by the digest of its text, never by the text.
-/

namespace HalfBinary

inductive Algorithm where
  | sha256
  deriving DecidableEq, Repr

def Algorithm.label : Algorithm → String
  | sha256 => "sha256"

/-- A digest in lower-case hexadecimal digits. -/
structure Digest where
  algorithm : Algorithm
  value : String
  deriving DecidableEq, Repr

namespace Digest

/-- The digest of a text's UTF-8 bytes. -/
def ofText (text : String) : Digest := ⟨.sha256, Sha256.hex text.toUTF8⟩

/-- The algorithm and the digits. -/
def render (d : Digest) : String := d.algorithm.label ++ ":" ++ d.value

end Digest

end HalfBinary
