/-!
# Numerals

A number as it is written: an optional minus sign, digits, an optional fraction and an optional
power of ten. Clauses and facts are read through the same scan, which loses no character.
-/

namespace HalfBinary

/-- The parts of a written number; `fraction` is empty when there is no point. -/
structure Numeral where
  negative : Bool
  whole : List Char
  fraction : List Char
  /-- The sign and the digits after `e` or `E`. -/
  exponent : Option (Bool × List Char)
  deriving DecidableEq, Repr

namespace Numeral

/-- Neither a fraction nor a power of ten is written. -/
def isWhole (n : Numeral) : Bool := n.fraction.isEmpty && n.exponent.isNone

/-- The signed whole number of all digits, the point ignored. -/
def digits (n : Numeral) : Int :=
  let magnitude : Int := Nat.ofDigitChars 10 (n.whole ++ n.fraction) 0
  if n.negative then -magnitude else magnitude

/-- The written power of ten. -/
def power (n : Numeral) : Int :=
  match n.exponent with
  | none => 0
  | some (negative, ds) =>
    let magnitude : Int := Nat.ofDigitChars 10 ds 0
    if negative then -magnitude else magnitude

/-- How many places the point stands to the left of the last digit. -/
def scale (n : Numeral) : Int := n.fraction.length - n.power

/-- Appends digits to a number while it stays below `2 ^ 64`, and gives those that are left over. -/
def appendDigits (n : Nat) : List Char → Nat × List Char
  | [] => (n, [])
  | c :: cs =>
    let next := Nat.ofDigitChars 10 [c] n
    if next < 0x10000000000000000 then appendDigits next cs else (n, c :: cs)

/-- The leading digits of the numeral as a number below `2 ^ 64`, and the power of ten that goes with
them. Of the digits of the whole part that are left over only the places count, and those of the
fraction do not count at all. -/
def leading (n : Numeral) : Nat × Int :=
  let (digits, unread) := appendDigits 0 n.whole
  let (digits, unread') := appendDigits digits n.fraction
  (digits, n.power + unread.length - (n.fraction.length - unread'.length : Nat))

/-! ## Scanning -/

/-- A numeral, the characters it took and the characters after it. -/
structure Scan where
  numeral : Numeral
  lexeme : List Char
  rest : List Char

/-- Splits off an optional sign among the given ones. -/
def scanSign (signs : List Char) : List Char → List Char × List Char
  | c :: rest => if c ∈ signs then ([c], rest) else ([], c :: rest)
  | [] => ([], [])

/-- The optional power of ten; a mark without digits is an error that gives all characters taken. -/
def scanExponent (n : Numeral) (taken : List Char) : List Char → Except (List Char) Scan
  | [] => .ok ⟨n, taken, []⟩
  | c :: rest =>
    if c = 'e' ∨ c = 'E' then
      let (sign, rest) := scanSign ['+', '-'] rest
      let ds := rest.takeWhile Char.isDigit
      if ds.isEmpty then .error (taken ++ c :: sign)
      else .ok ⟨{ n with exponent := some (sign == ['-'], ds) }, taken ++ c :: sign ++ ds,
        rest.dropWhile Char.isDigit⟩
    else .ok ⟨n, taken, c :: rest⟩

/-- The optional fraction, then the power of ten; a point without digits is an error. -/
def scanFraction (n : Numeral) (taken : List Char) : List Char → Except (List Char) Scan
  | [] => .ok ⟨n, taken, []⟩
  | c :: rest =>
    if c = '.' then
      let ds := rest.takeWhile Char.isDigit
      if ds.isEmpty then .error (taken ++ ['.'])
      else scanExponent { n with fraction := ds } (taken ++ '.' :: ds) (rest.dropWhile Char.isDigit)
    else scanExponent n taken (c :: rest)

/-- Reads the longest numeral at the front. An error holds the characters up to where a digit is
missing after a point or a power mark. -/
def scan (cs : List Char) : Except (List Char) Scan :=
  let (sign, cs) := scanSign ['-'] cs
  let ds := cs.takeWhile Char.isDigit
  scanFraction ⟨sign == ['-'], ds, [], none⟩ (sign ++ ds) (cs.dropWhile Char.isDigit)

private theorem scanSign_append (signs cs : List Char) :
    (scanSign signs cs).1 ++ (scanSign signs cs).2 = cs := by
  unfold scanSign; split
  · split <;> rfl
  · rfl

private theorem scanExponent_append {n : Numeral} {taken cs : List Char} {s : Scan}
    (h : scanExponent n taken cs = .ok s) : s.lexeme ++ s.rest = taken ++ cs := by
  unfold scanExponent at h
  split at h
  · cases h; simp
  · next c rest =>
    split at h
    · dsimp only at h
      split at h
      · cases h
      · cases h
        have := scanSign_append ['+', '-'] rest
        simp [List.takeWhile_append_dropWhile, this]
    · cases h; rfl

private theorem scanFraction_append {n : Numeral} {taken cs : List Char} {s : Scan}
    (h : scanFraction n taken cs = .ok s) : s.lexeme ++ s.rest = taken ++ cs := by
  unfold scanFraction at h
  split at h
  · cases h; simp
  · next c rest =>
    split at h
    · next point =>
      dsimp only at h
      split at h
      · cases h
      · rw [scanExponent_append h, point]
        simp [List.takeWhile_append_dropWhile]
    · exact scanExponent_append h

/-- No character is lost or invented. -/
theorem scan_append {cs : List Char} {s : Scan} (h : scan cs = .ok s) :
    s.lexeme ++ s.rest = cs := by
  rw [scan] at h
  rw [scanFraction_append h, List.append_assoc, List.takeWhile_append_dropWhile]
  exact scanSign_append ['-'] cs

private theorem scanExponent_whole {n : Numeral} {taken cs : List Char} {s : Scan}
    (h : scanExponent n taken cs = .ok s) :
    s.numeral.whole = n.whole ∧ taken.length ≤ s.lexeme.length := by
  unfold scanExponent at h
  split at h
  · cases h; simp
  · split at h
    · dsimp only at h
      split at h
      · cases h
      · cases h; simp
    · cases h; simp

private theorem scanFraction_whole {n : Numeral} {taken cs : List Char} {s : Scan}
    (h : scanFraction n taken cs = .ok s) :
    s.numeral.whole = n.whole ∧ taken.length ≤ s.lexeme.length := by
  unfold scanFraction at h
  split at h
  · cases h; simp
  · split at h
    · dsimp only at h
      split at h
      · cases h
      · have := scanExponent_whole h
        simp at this
        exact ⟨this.1, by omega⟩
    · exact scanExponent_whole h

/-- A numeral with digits in front takes at least one character. -/
theorem scan_shorter {cs : List Char} {s : Scan} (h : scan cs = .ok s)
    (digits : s.numeral.whole ≠ []) : s.rest.length < cs.length := by
  have lossless := congrArg List.length (scan_append h)
  rw [scan] at h
  have ⟨whole, taken⟩ := scanFraction_whole h
  rw [whole] at digits
  simp only [List.length_append] at lossless taken
  have := List.length_pos_iff.2 digits
  dsimp only at this
  omega

/-- A numeral that starts with a digit, or with a sign and a digit, has digits in front. -/
theorem whole_ne_nil {c : Char} {rest : List Char} {s : Scan} (h : scan (c :: rest) = .ok s)
    (start : c.isDigit ∨ (c = '-' ∧ rest.head?.any Char.isDigit)) : s.numeral.whole ≠ [] := by
  rw [scan] at h
  rw [(scanFraction_whole h).1]
  by_cases minus : c = '-'
  · subst minus
    have head := (start.resolve_left (by decide)).2
    cases rest with
    | nil => simp at head
    | cons d rest =>
      have digit : d.isDigit = true := by simpa using head
      show (d :: rest).takeWhile Char.isDigit ≠ []
      simp [digit]
  · have digit := start.resolve_right fun m => minus m.1
    have sign : scanSign ['-'] (c :: rest) = ([], c :: rest) := by
      rw [scanSign, if_neg (by simpa using minus)]
    show (scanSign ['-'] (c :: rest)).2.takeWhile Char.isDigit ≠ []
    rw [sign, List.takeWhile_cons_of_pos digit]
    exact List.cons_ne_nil _ _

end Numeral

end HalfBinary
