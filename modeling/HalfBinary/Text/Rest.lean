/-!
# The rest of a text

Readers return what is left of a text together with the fact that it is shorter, which ends their
recursion. A reader that calls itself is given the text that it started from, so that the fact needs
no repair on the way back.
-/

namespace HalfBinary.Text

/-- What is left of a text, or of its tokens, after at least one has been read. -/
abbrev Shorter (whole : List α) := { rest : List α // rest.length < whole.length }

/-- What is left of a text, or of its tokens. -/
abbrev NotLonger (whole : List α) := { rest : List α // rest.length ≤ whole.length }

theorem length_dropWhile_le (p : Char → Bool) (cs : List Char) :
    (cs.dropWhile p).length ≤ cs.length := (List.dropWhile_sublist _).length_le

end HalfBinary.Text
