import HalfBinary.Json.Reader
import HalfBinary.Text.Blank

/-!
# Fact files

One fact per line. Blank lines are skipped but counted. What is on a line is for a reader of facts
to say, which gives the fact or why the line is none.
-/

namespace HalfBinary.Facts

def maxBytes : Nat := 67108864

/-! ## Lines -/

/-- A line that a line feed ends, without a carriage return in front of that. -/
def withoutReturn (line : String) : String :=
  if line.toList.getLast? = some '\r' then String.ofList line.toList.dropLast else line

/-- The lines of a text. After the last line feed there is one more unless the text ends there. -/
def lines (text : String) : List String :=
  let pieces := (text.split '\n').toList.map (·.copy)
  pieces.dropLast.map withoutReturn ++ pieces.getLast?.toList.filter (· ≠ "")

def isBlankLine (line : String) : Bool := line.all Text.isBlank

/-! ## Facts -/

/-- A line that is no fact, counted from one, and why it is none. -/
structure LineFault where
  line : Nat
  fault : String
  deriving DecidableEq, Repr

/-- The lines read so far and the facts on them. -/
structure Progress where
  lines : Nat := 0
  found : Array Json := #[]

/-- Reads JSON as a fact. -/
def ofJson (line : String) : Except String Json := (Json.read line).mapError (·.message)

variable (readFact : String → Except String Json)

def Progress.addLine (p : Progress) (line : String) : Except LineFault Progress :=
  if isBlankLine line then .ok { p with lines := p.lines + 1 }
  else
    match readFact line with
    | .ok fact => .ok ⟨p.lines + 1, p.found.push fact⟩
    | .error fault => .error ⟨p.lines + 1, fault⟩

/-- The facts of a text; there are none in a text of blanks, however many lines it has. -/
def ofText (text : String) : Except LineFault (Array Json) :=
  if text.all Text.isBlank then .ok #[]
  else ((lines text).foldlM (Progress.addLine readFact) {}).map (·.found)

end HalfBinary.Facts
