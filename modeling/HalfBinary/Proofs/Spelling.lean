import Mathlib
import HalfBinary.Token.Lexer

/-!
# How tokens are written

The spellings of each token, apart from any scan, and the characters that would go on with them. The
scan of a token takes a spelling that nothing goes on with, and it takes every such spelling
(`scanToken_eq_ok_iff`).
-/

namespace HalfBinary

/-- The next character, if there is one, is not among some characters. -/
def Stops (more : Char → Bool) (rest : List Char) : Prop := ∀ c ∈ rest.head?, more c = false

theorem Stops.nil (more : Char → Bool) : Stops more [] := nofun

theorem stops_cons_iff {more : Char → Bool} {c : Char} {rest : List Char} :
    Stops more (c :: rest) ↔ more c = false := by simp [Stops]

theorem stops_false (rest : List Char) : Stops (fun _ => false) rest := fun _ _ => rfl

theorem Stops.weaken {more more' : Char → Bool} {rest : List Char} (stops : Stops more rest)
    (fewer : ∀ c, more c = false → more' c = false) : Stops more' rest :=
  fun c head => fewer c (stops c head)

theorem Stops.of_append {more : Char → Bool} {cs rest : List Char} (stops : Stops more (cs ++ rest)) :
    Stops more cs := by
  cases cs with
  | nil => exact .nil more
  | cons c cs => exact stops

theorem stops_dropWhile (more : Char → Bool) (cs : List Char) : Stops more (cs.dropWhile more) := by
  intro c head
  have other := List.head?_dropWhile_not more cs
  rw [Option.mem_def.1 head] at other
  simpa using other

theorem takeWhile_append_eq {more : Char → Bool} {cs rest : List Char}
    (taken : ∀ c ∈ cs, more c = true) (stops : Stops more rest) :
    (cs ++ rest).takeWhile more = cs ∧ (cs ++ rest).dropWhile more = rest := by
  rw [List.takeWhile_append_of_pos taken, List.dropWhile_append_of_pos taken]
  cases rest with
  | nil => simp
  | cons c rest => simp [stops_cons_iff.1 stops]

theorem intercalate_cons (separator first : List α) (others : List (List α)) :
    separator.intercalate (first :: others) = first ++ others.flatMap (separator ++ ·) := by
  induction others generalizing first with
  | nil => simp
  | cons second others ih =>
    rw [List.intercalate_cons_cons, ih, List.flatMap_cons]
    simp

namespace Numeral

/-! ### Numerals -/

/-- A run of digits. -/
def Digits (cs : List Char) : Prop := cs ≠ [] ∧ ∀ c ∈ cs, c.isDigit = true

/-- A written power of ten. -/
inductive PowerSpelling : List Char → Option (Bool × List Char) → Prop
  | absent : PowerSpelling [] none
  | written {mark : Char} {sign ds : List Char} (marked : mark = 'e' ∨ mark = 'E')
      (signed : sign = [] ∨ sign = ['+'] ∨ sign = ['-']) (digits : Digits ds) :
      PowerSpelling (mark :: sign ++ ds) (some (sign == ['-'], ds))

/-- The sign of a number. -/
def signChars (negative : Bool) : List Char := if negative then ['-'] else []

/-- A point and the fraction after it; nothing for the empty fraction. -/
def fractionChars (ds : List Char) : List Char := if ds.isEmpty then [] else '.' :: ds

/-- The spellings of a numeral. -/
structure Spelling (cs : List Char) (n : Numeral) : Prop where
  whole : Digits n.whole
  fraction : n.fraction = [] ∨ Digits n.fraction
  chars : ∃ power, PowerSpelling power n.exponent ∧
    cs = signChars n.negative ++ n.whole ++ fractionChars n.fraction ++ power

/-- The characters that go on with a numeral, or make it faulty. -/
def more (n : Numeral) (c : Char) : Bool :=
  c.isDigit || n.exponent.isNone && (c == 'e' || c == 'E' || n.fraction.isEmpty && c == '.')

theorem stops_isDigit {n : Numeral} {rest : List Char} (stops : Stops n.more rest) :
    Stops Char.isDigit rest := by
  refine stops.weaken fun c other => ?_
  simp only [more, Bool.or_eq_false_iff] at other
  exact other.1

theorem digits_takeWhile {cs : List Char} (some : (cs.takeWhile Char.isDigit).isEmpty = false) :
    Digits (cs.takeWhile Char.isDigit) := by
  refine ⟨by simpa using some, fun c mem => ?_⟩
  exact List.all_eq_true.1 List.all_takeWhile c mem

theorem scanSign_eq {signs cs sign rest : List Char} (h : scanSign signs cs = (sign, rest)) :
    (sign = [] ∨ ∃ c ∈ signs, sign = [c]) ∧ cs = sign ++ rest := by
  unfold scanSign at h
  split at h
  · next c others =>
    split at h
    · next mem =>
      cases h
      exact ⟨.inr ⟨c, mem, rfl⟩, rfl⟩
    · cases h
      exact ⟨.inl rfl, rfl⟩
  · cases h
    exact ⟨.inl rfl, rfl⟩

theorem scanExponent_sound {n : Numeral} {taken cs : List Char} {s : Scan}
    (plain : n.exponent = none)
    (stops : Stops (fun c => c.isDigit || n.fraction.isEmpty && c == '.') cs)
    (h : scanExponent n taken cs = .ok s) :
    ∃ power, PowerSpelling power s.numeral.exponent ∧
      s.numeral = { n with exponent := s.numeral.exponent } ∧ s.lexeme = taken ++ power ∧
      Stops s.numeral.more s.rest := by
  unfold scanExponent at h
  split at h
  · cases h
    exact ⟨[], plain ▸ .absent, rfl, (List.append_nil _).symm, .nil _⟩
  · next c rest =>
    split at h
    · next mark =>
      rcases signed : scanSign ['+', '-'] rest with ⟨sign, rest'⟩
      simp only [signed] at h
      split at h
      · cases h
      · next some =>
        cases h
        obtain ⟨sign', -⟩ := scanSign_eq signed
        refine ⟨c :: sign ++ rest'.takeWhile Char.isDigit, .written mark ?_ ?_, rfl, ?_, ?_⟩
        · simpa [or_and_right, exists_or] using sign'
        · exact digits_takeWhile (Bool.eq_false_iff.2 some)
        · simp
        · intro d head
          simp [more, stops_dropWhile Char.isDigit rest' d head]
    · next mark =>
      cases h
      refine ⟨[], plain ▸ .absent, rfl, (List.append_nil _).symm, stops_cons_iff.2 ?_⟩
      have other := stops_cons_iff.1 stops
      simp_all [more]

theorem scanFraction_sound {n : Numeral} {taken cs : List Char} {s : Scan}
    (whole : n.fraction = []) (plain : n.exponent = none) (stops : Stops Char.isDigit cs)
    (h : scanFraction n taken cs = .ok s) :
    ∃ power, PowerSpelling power s.numeral.exponent ∧
      s.numeral = { n with fraction := s.numeral.fraction, exponent := s.numeral.exponent } ∧
      (s.numeral.fraction = [] ∨ Digits s.numeral.fraction) ∧
      s.lexeme = taken ++ fractionChars s.numeral.fraction ++ power ∧
      Stops s.numeral.more s.rest := by
  unfold scanFraction at h
  split at h
  · cases h
    refine ⟨[], plain ▸ .absent, rfl, .inl whole, ?_, .nil _⟩
    simp [fractionChars, whole]
  · next c rest =>
    split at h
    · next point =>
      dsimp only at h
      split at h
      · cases h
      · next some =>
        have some := Bool.eq_false_iff.2 some
        have stops' : Stops (fun c => c.isDigit ||
            (rest.takeWhile Char.isDigit).isEmpty && c == '.') (rest.dropWhile Char.isDigit) := by
          simpa [some] using stops_dropWhile Char.isDigit rest
        obtain ⟨power, spelled, numeral, lexeme, rest'⟩ :=
          scanExponent_sound (n := { n with fraction := rest.takeWhile Char.isDigit }) plain stops' h
        have fraction : s.numeral.fraction = rest.takeWhile Char.isDigit := by rw [numeral]
        refine ⟨power, spelled, ?_, .inr ?_, ?_, rest'⟩
        · rw [fraction, numeral]
        · rw [fraction]
          exact digits_takeWhile some
        · rw [lexeme, fraction, fractionChars, some]
          simp
    · next point =>
      have stops' : Stops (fun c => c.isDigit || n.fraction.isEmpty && c == '.') (c :: rest) := by
        simpa [stops_cons_iff, point] using stops
      obtain ⟨power, spelled, numeral, lexeme, rest'⟩ := scanExponent_sound plain stops' h
      have fraction : s.numeral.fraction = [] := by rw [numeral, whole]
      refine ⟨power, spelled, ?_, .inl fraction, ?_, rest'⟩
      · rw [fraction, ← whole, numeral]
      · rw [lexeme, fraction]
        simp [fractionChars]

/-- A scan takes a spelling that nothing goes on with. -/
theorem scan_sound {cs : List Char} {s : Scan} (h : scan cs = .ok s)
    (whole : s.numeral.whole ≠ []) : Spelling s.lexeme s.numeral ∧ Stops s.numeral.more s.rest := by
  rw [scan] at h
  rcases signed : scanSign ['-'] cs with ⟨sign, rest⟩
  simp only [signed] at h
  obtain ⟨sign', -⟩ := scanSign_eq signed
  obtain ⟨power, spelled, numeral, fraction, lexeme, stops⟩ :=
    scanFraction_sound rfl rfl (stops_dropWhile Char.isDigit rest) h
  have digits : s.numeral.whole = rest.takeWhile Char.isDigit := by rw [numeral]
  have negative : s.numeral.negative = (sign == ['-']) := by rw [numeral]
  refine ⟨⟨?_, fraction, power, spelled, ?_⟩, stops⟩
  · rw [digits] at whole ⊢
    exact digits_takeWhile (by simpa using whole)
  · rw [lexeme, negative, digits, signChars]
    rcases sign' with rfl | ⟨c, mem, rfl⟩
    · rfl
    · obtain rfl := List.mem_singleton.1 mem
      rfl

theorem scanSign_append_eq {signs sign rest : List Char}
    (signed : sign = [] ∨ ∃ c ∈ signs, sign = [c]) (stops : Stops (· ∈ signs) rest) :
    scanSign signs (sign ++ rest) = (sign, rest) := by
  rcases signed with rfl | ⟨c, mem, rfl⟩
  · cases rest with
    | nil => rfl
    | cons c rest =>
      have other := stops_cons_iff.1 stops
      rw [List.nil_append, scanSign, if_neg (of_decide_eq_false other)]
  · rw [List.singleton_append, scanSign, if_pos mem]

theorem stops_of_digits {more : Char → Bool} {ds rest : List Char} (digits : Digits ds)
    (other : ∀ c, c.isDigit = true → more c = false) : Stops more (ds ++ rest) := by
  obtain ⟨some, digits⟩ := digits
  cases ds with
  | nil => exact absurd rfl some
  | cons d ds => exact stops_cons_iff.2 (other d (digits d List.mem_cons_self))

theorem scanExponent_complete {n : Numeral} {power rest : List Char}
    {exponent : Option (Bool × List Char)} (spelled : PowerSpelling power exponent)
    (plain : n.exponent = none) (stops : Stops { n with exponent := exponent }.more rest)
    (taken : List Char) :
    scanExponent n taken (power ++ rest) =
      .ok ⟨{ n with exponent := exponent }, taken ++ power, rest⟩ := by
  cases spelled with
  | absent =>
    have same : { n with exponent := none } = n := by rw [← plain]
    rw [same] at stops ⊢
    rw [List.nil_append, List.append_nil]
    cases rest with
    | nil => rfl
    | cons c rest =>
      have other := stops_cons_iff.1 stops
      simp [more, plain] at other
      rw [scanExponent, if_neg (not_or.2 other.2.1)]
  | @written mark sign ds marked signed digits =>
    have signed' : scanSign ['+', '-'] (sign ++ (ds ++ rest)) = (sign, ds ++ rest) := by
      refine scanSign_append_eq (by simpa using signed) (stops_of_digits digits ?_)
      intro c digit
      simp
      constructor <;> rintro rfl <;> cases digit
    obtain ⟨taken', left⟩ := takeWhile_append_eq digits.2 (stops_isDigit stops)
    have some : ds.isEmpty = false := by simpa using digits.1
    simp [scanExponent, marked, signed', taken', left, some]

theorem scanFraction_of_stops {n : Numeral} {taken cs : List Char} (stops : Stops (· == '.') cs) :
    scanFraction n taken cs = scanExponent n taken cs := by
  cases cs with
  | nil => rfl
  | cons c cs =>
    have other := stops_cons_iff.1 stops
    rw [scanFraction, if_neg (by simpa using other)]

theorem PowerSpelling.stops_append {power rest : List Char} {exponent : Option (Bool × List Char)}
    {more : Char → Bool} (spelled : PowerSpelling power exponent)
    (marks : more 'e' = false ∧ more 'E' = false) (stops : exponent = none → Stops more rest) :
    Stops more (power ++ rest) := by
  cases spelled with
  | absent => exact stops rfl
  | written marked signed digits =>
    rcases marked with rfl | rfl
    · exact stops_cons_iff.2 marks.1
    · exact stops_cons_iff.2 marks.2

theorem scanFraction_complete {n : Numeral} {power rest : List Char}
    (spelled : PowerSpelling power n.exponent) (fraction : n.fraction = [] ∨ Digits n.fraction)
    (stops : Stops n.more rest) (taken : List Char) :
    scanFraction ⟨n.negative, n.whole, [], none⟩ taken (fractionChars n.fraction ++ power ++ rest) =
      .ok ⟨n, taken ++ fractionChars n.fraction ++ power, rest⟩ := by
  obtain ⟨negative, whole, ds, exponent⟩ := n
  rcases fraction with rfl | digits
  · have point : Stops (· == '.') (power ++ rest) := by
      refine spelled.stops_append ⟨rfl, rfl⟩ ?_
      rintro rfl
      refine stops.weaken fun c other => ?_
      simp [more] at other
      simpa using other.2.2
    simp only [fractionChars, List.isEmpty_nil, if_true, List.nil_append, List.append_nil]
    rw [scanFraction_of_stops point]
    exact scanExponent_complete (n := ⟨negative, whole, [], none⟩) spelled rfl stops taken
  · have some : ds.isEmpty = false := by simpa using digits.1
    have other : Stops Char.isDigit (power ++ rest) :=
      spelled.stops_append ⟨rfl, rfl⟩ fun _ => stops_isDigit stops
    obtain ⟨taken', left⟩ := takeWhile_append_eq digits.2 other
    have power' := scanExponent_complete (n := ⟨negative, whole, ds, none⟩) spelled rfl stops
      (taken ++ '.' :: ds)
    simpa [fractionChars, some, scanFraction, taken', left] using power'

theorem stops_fractionChars {ds power rest : List Char} {exponent : Option (Bool × List Char)}
    (spelled : PowerSpelling power exponent) (stops : exponent = none → Stops Char.isDigit rest) :
    Stops Char.isDigit (fractionChars ds ++ power ++ rest) := by
  cases ds with
  | nil => exact spelled.stops_append ⟨rfl, rfl⟩ stops
  | cons d ds => exact stops_cons_iff.2 rfl

/-- A scan takes every spelling that nothing goes on with. -/
theorem scan_complete {n : Numeral} {cs rest : List Char} (spelled : Spelling cs n)
    (stops : Stops n.more rest) : scan (cs ++ rest) = .ok ⟨n, cs, rest⟩ := by
  obtain ⟨whole, fraction, power, power', rfl⟩ := spelled
  have signed : scanSign ['-'] (signChars n.negative ++
      (n.whole ++ (fractionChars n.fraction ++ power ++ rest))) =
        (signChars n.negative, n.whole ++ (fractionChars n.fraction ++ power ++ rest)) := by
    refine scanSign_append_eq ?_ (stops_of_digits whole ?_)
    · cases n.negative <;> simp [signChars]
    · intro c digit
      simp
      rintro rfl
      cases digit
  have other : Stops Char.isDigit (fractionChars n.fraction ++ power ++ rest) :=
    stops_fractionChars power' fun _ => stops_isDigit stops
  obtain ⟨taken, left⟩ := takeWhile_append_eq whole.2 other
  have negative : (signChars n.negative == ['-']) = n.negative := by cases n.negative <;> rfl
  have complete :=
    scanFraction_complete power' fraction stops (signChars n.negative ++ n.whole)
  simp only [scan, List.append_assoc] at signed taken left complete ⊢
  simp only [signed, taken, left, negative]
  exact complete

/-- A character that starts a longer spelling goes on with the numeral. -/
theorem Spelling.more_of_longer {n n' : Numeral} {cs tail : List Char} {c : Char}
    (spelled : Spelling cs n) (longer : Spelling (cs ++ c :: tail) n') : n.more c = true := by
  by_contra other
  have taken := scan_complete spelled
    (stops_cons_iff.2 (Bool.eq_false_iff.2 other) : Stops n.more (c :: tail))
  have taken' := scan_complete longer (.nil n'.more)
  rw [List.append_nil, taken] at taken'
  simp at taken'

end Numeral

namespace Token

open Text (startsIdentifier inIdentifier isIdentifier)

/-! ### Texts -/

/-- The characters between two quotes and the text that they stand for. -/
inductive Quoted (quote : Char) : List Char → List Char → Prop
  | nil : Quoted quote [] []
  | plain {c : Char} {cs text : List Char} (other : c ≠ quote) (unescaped : c ≠ '\\')
      (more : Quoted quote cs text) : Quoted quote (c :: cs) (c :: text)
  | escape {e d : Char} {cs text : List Char} (escaped : unescape? e = some d)
      (more : Quoted quote cs text) : Quoted quote ('\\' :: e :: cs) (d :: text)

theorem scanText_sound {quote : Char} {taken value cs : List Char} {s : Scan}
    (h : scanText quote taken value cs = .ok s) :
    ∃ body text, Quoted quote body text ∧ s.lexeme = taken.reverse ++ body ++ [quote] ∧
      s.token = .literal (.text (String.ofList (value.reverse ++ text))) := by
  fun_induction scanText quote taken value cs with
  | case1 | case3 | case5 => cases h
  | case2 taken value rest =>
    cases h
    exact ⟨[], [], .nil, by simp, by simp⟩
  | case4 taken value e rest d escaped _ ih =>
    obtain ⟨body, text, quoted, lexeme, token⟩ := ih h
    exact ⟨'\\' :: e :: body, d :: text, .escape escaped quoted, by simp [lexeme], by simp [token]⟩
  | case6 taken value c rest other unescaped ih =>
    obtain ⟨body, text, quoted, lexeme, token⟩ := ih h
    exact ⟨c :: body, c :: text, .plain other unescaped quoted, by simp [lexeme], by simp [token]⟩

theorem scanText_complete {quote : Char} {body text : List Char} (quoted : Quoted quote body text)
    (mark : quote ≠ '\\') (taken value rest : List Char) :
    scanText quote taken value (body ++ quote :: rest) =
      .ok ⟨.literal (.text (String.ofList (value.reverse ++ text))),
        taken.reverse ++ body ++ [quote], rest⟩ := by
  induction quoted generalizing taken value with
  | nil =>
    unfold scanText
    simp
  | @plain c cs text other unescaped _ ih =>
    unfold scanText
    simp [other, unescaped, ih]
  | @escape e d cs text escaped _ ih =>
    unfold scanText
    simp [mark.symm, escaped, ih]

/-! ### Words -/

/-- The characters that go on with a word. -/
def continuesWord (c : Char) : Bool := inIdentifier c || c == '.'

/-- Segments with a point in front of each. -/
def pointed (segments : List (List Char)) : List Char := segments.flatMap fun cs => '.' :: cs

theorem toList_intercalate_point (first : String) (others : List String) :
    (".".intercalate (first :: others)).toList =
      first.toList ++ pointed (others.map String.toList) := by
  rw [String.toList_intercalate, List.map_cons, intercalate_cons]
  rfl

theorem scanWord_sound {taken segment cs : List Char} {segments : List String} {s : Scan}
    (h : scanWord taken segment segments cs = .ok s) :
    ∃ more others, (∀ c ∈ more, inIdentifier c = true) ∧
      (∀ o ∈ others, isIdentifier o = true) ∧ s.lexeme = taken.reverse ++ more ++ pointed others ∧
      s.token = ofWord (segments.reverse ++
        String.ofList (segment.reverse ++ more) :: others.map String.ofList) ∧
      Stops continuesWord s.rest := by
  fun_induction scanWord taken segment segments cs with
  | case1 taken segment segments =>
    cases h
    exact ⟨[], [], List.forall_mem_nil _, List.forall_mem_nil _, by simp [pointed], by simp, .nil _⟩
  | case2 taken segment segments c rest inside ih =>
    obtain ⟨more, others, all, identifiers, lexeme, token, stops⟩ := ih h
    refine ⟨c :: more, others, ?_, identifiers, by simp [lexeme], by simp [token], stops⟩
    exact List.forall_mem_cons.2 ⟨inside, all⟩
  | case3 taken segment segments d rest start _ ih =>
    obtain ⟨more, others, all, identifiers, lexeme, token, stops⟩ := ih h
    refine ⟨[], (d :: more) :: others, List.forall_mem_nil _, ?_, by simp [lexeme, pointed],
      by simp [token], stops⟩
    refine List.forall_mem_cons.2 ⟨?_, identifiers⟩
    simpa [isIdentifier, start] using all
  | case4 | case5 => cases h
  | case6 taken segment segments c rest outside point =>
    cases h
    refine ⟨[], [], List.forall_mem_nil _, List.forall_mem_nil _, by simp [pointed], by simp,
      stops_cons_iff.2 ?_⟩
    simp [continuesWord, outside, point]

theorem scanWord_inside {more : List Char} (all : ∀ c ∈ more, inIdentifier c = true)
    (taken segment : List Char) (segments : List String) (cs : List Char) :
    scanWord taken segment segments (more ++ cs) =
      scanWord (more.reverse ++ taken) (more.reverse ++ segment) segments cs := by
  induction more generalizing taken segment with
  | nil => rfl
  | cons c more ih =>
    obtain ⟨inside, all⟩ := List.forall_mem_cons.1 all
    rw [List.cons_append, scanWord.eq_def]
    simp only [inside, if_true]
    rw [ih all]
    simp

theorem scanWord_complete {rest : List Char} {others : List (List Char)}
    (identifiers : ∀ o ∈ others, isIdentifier o = true) (stops : Stops continuesWord rest)
    (taken segment : List Char) (segments : List String) :
    scanWord taken segment segments (pointed others ++ rest) =
      .ok ⟨ofWord (segments.reverse ++
        String.ofList segment.reverse :: others.map String.ofList),
        taken.reverse ++ pointed others, rest⟩ := by
  induction others generalizing taken segment segments with
  | nil =>
    cases rest with
    | nil => simp [pointed, scanWord]
    | cons c rest =>
      have other := stops_cons_iff.1 stops
      simp only [continuesWord, Bool.or_eq_false_iff, beq_eq_false_iff_ne] at other
      rw [pointed, List.flatMap_nil, List.nil_append, scanWord.eq_def]
      simp [other]
  | cons o others ih =>
    obtain ⟨identifier, others'⟩ := List.forall_mem_cons.1 identifiers
    cases o with
    | nil => cases identifier
    | cons d more =>
      simp only [isIdentifier, Bool.and_eq_true, List.all_eq_true] at identifier
      have split : pointed ((d :: more) :: others) ++ rest =
          '.' :: d :: (more ++ (pointed others ++ rest)) := by simp [pointed]
      have point : inIdentifier '.' = false := by decide
      rw [split, scanWord.eq_def]
      simp only [point, identifier.1, if_true, Bool.false_eq_true, if_false]
      rw [scanWord_inside identifier.2, ih others']
      simp [pointed]

/-! ### Tokens -/

/-- The character that goes on with an operator. -/
def continuesOperator : Operator → Char → Bool
  | .lt, c | .gt, c => c == '='
  | .eq, _ | .ne, _ | .le, _ | .ge, _ => false

/-- The spellings of a token, and the characters that would go on with each. -/
inductive Spelling : List Char → Token → (Char → Bool) → Prop
  | openParen : Spelling ['('] .openParen fun _ => false
  | closeParen : Spelling [')'] .closeParen fun _ => false
  | operator (op : Operator) : Spelling op.symbol.toList (.operator op) (continuesOperator op)
  | connective (c : Connective) : Spelling c.symbol.toList (.connective c) fun _ => false
  | text {quote : Char} {body text : List Char} (mark : quote = '"' ∨ quote = '\'')
      (quoted : Quoted quote body text) :
      Spelling (quote :: body ++ [quote]) (.literal (.text (String.ofList text))) fun _ => false
  | number {cs : List Char} {n : Numeral} {l : Literal} (spelled : n.Spelling cs)
      (value : Literal.ofNumeral? n = some l) : Spelling cs (.literal l) n.more
  | word {first : List Char} {others : List (List Char)} (start : isIdentifier first = true)
      (identifiers : ∀ o ∈ others, isIdentifier o = true) :
      Spelling (first ++ pointed others)
        (ofWord (String.ofList first :: others.map String.ofList)) continuesWord

/-- A scan takes a spelling that nothing goes on with. -/
def Scan.Sound (s : Scan) : Prop :=
  ∃ more, Spelling s.lexeme s.token more ∧ Stops more s.rest

theorem scanPair_sound {token : Token} {first second : Char} {cs : List Char} {s : Scan}
    (h : scanPair token first second cs = .ok s)
    (spelled : Spelling [first, second] token fun _ => false) : s.Sound := by
  unfold scanPair at h
  split at h
  · split at h
    · cases h
      exact ⟨_, spelled, stops_false _⟩
    · cases h
  · cases h

theorem scanOrder_sound (strict inclusive : Operator) (first : Char) (cs : List Char)
    (spelled : Spelling [first] (.operator strict) (· == '='))
    (spelled' : Spelling [first, '='] (.operator inclusive) fun _ => false) :
    (scanOrder strict inclusive first cs).Sound := by
  unfold scanOrder
  split
  · exact ⟨_, spelled', stops_false _⟩
  · next other =>
    refine ⟨_, spelled, fun c head => ?_⟩
    rw [beq_eq_false_iff_ne]
    rintro rfl
    obtain ⟨rest, rfl⟩ := List.head?_eq_some_iff.1 head
    exact other rest rfl

theorem scanNumber_sound {cs : List Char} {s : Scan} (h : scanNumber cs = .ok s)
    (whole : ∀ n, Numeral.scan cs = .ok n → n.numeral.whole ≠ []) : s.Sound := by
  unfold scanNumber at h
  split at h
  · cases h
  · next n scanned =>
    obtain ⟨spelled, stops⟩ := Numeral.scan_sound scanned (whole n scanned)
    split at h
    · next l value =>
      cases h
      exact ⟨_, .number spelled value, stops⟩
    · cases h

theorem scanToken_sound {c : Char} {rest : List Char} {s : Scan} (h : scanToken c rest = .ok s) :
    s.Sound := by
  unfold scanToken at h
  by_cases opening : c = '('
  · rw [if_pos opening] at h
    cases h
    exact ⟨_, opening ▸ .openParen, stops_false _⟩
  rw [if_neg opening] at h
  by_cases closing : c = ')'
  · rw [if_pos closing] at h
    cases h
    exact ⟨_, closing ▸ .closeParen, stops_false _⟩
  rw [if_neg closing] at h
  by_cases equal : c = '='
  · rw [if_pos equal] at h
    subst equal
    exact scanPair_sound h (.operator .eq)
  rw [if_neg equal] at h
  by_cases bang : c = '!'
  · rw [if_pos bang] at h
    subst bang
    exact scanPair_sound h (.operator .ne)
  rw [if_neg bang] at h
  by_cases ampersand : c = '&'
  · rw [if_pos ampersand] at h
    subst ampersand
    exact scanPair_sound h (.connective .and)
  rw [if_neg ampersand] at h
  by_cases bar : c = '|'
  · rw [if_pos bar] at h
    subst bar
    exact scanPair_sound h (.connective .or)
  rw [if_neg bar] at h
  by_cases less : c = '<'
  · rw [if_pos less] at h
    cases h
    subst less
    exact scanOrder_sound .lt .le '<' rest (.operator .lt) (.operator .le)
  rw [if_neg less] at h
  by_cases greater : c = '>'
  · rw [if_pos greater] at h
    cases h
    subst greater
    exact scanOrder_sound .gt .ge '>' rest (.operator .gt) (.operator .ge)
  rw [if_neg greater] at h
  by_cases quote : c = '"' ∨ c = '\''
  · rw [if_pos quote] at h
    obtain ⟨body, text, quoted, lexeme, token⟩ := scanText_sound h
    refine ⟨_, ?_, stops_false _⟩
    rw [lexeme, token]
    exact .text quote quoted
  rw [if_neg quote] at h
  by_cases number : c.isDigit ∨ (c = '-' ∧ rest.head?.any Char.isDigit)
  · rw [if_pos number] at h
    exact scanNumber_sound h fun n scanned => Numeral.whole_ne_nil scanned number
  rw [if_neg number] at h
  by_cases word : startsIdentifier c = true
  · rw [if_pos word] at h
    obtain ⟨more, others, all, identifiers, lexeme, token, stops⟩ := scanWord_sound h
    refine ⟨_, ?_, stops⟩
    rw [lexeme, token]
    refine @Spelling.word (c :: more) others ?_ identifiers
    simpa [isIdentifier, word] using all
  · rw [if_neg word] at h
    cases h

/-- The characters that start a token of fixed characters, or a text. -/
def marks : List Char := ['(', ')', '=', '!', '&', '|', '<', '>', '"', '\'']

theorem scanToken_of_not_mark {c : Char} (other : c ∉ marks) (rest : List Char) :
    scanToken c rest =
      if c.isDigit ∨ (c = '-' ∧ rest.head?.any Char.isDigit) then scanNumber (c :: rest)
      else if startsIdentifier c then scanWord [c] [c] [] rest
      else .error (.unknownSymbol c, []) := by
  simp only [marks, List.mem_cons, List.not_mem_nil, or_false, not_or] at other
  simp [scanToken, other]

theorem not_mark_of_inIdentifier {c : Char} (inside : inIdentifier c = true) : c ∉ marks := by
  intro mem
  simp only [marks, List.mem_cons, List.not_mem_nil, or_false] at mem
  rcases mem with rfl | rfl | rfl | rfl | rfl | rfl | rfl | rfl | rfl | rfl <;>
    exact absurd inside (by decide)

theorem inIdentifier_of_isDigit {c : Char} (digit : c.isDigit = true) : inIdentifier c = true := by
  simp [inIdentifier, Char.isAlphanum, digit]

theorem not_isDigit_of_startsIdentifier {c : Char} (start : startsIdentifier c = true) :
    c.isDigit = false := by
  simp only [startsIdentifier, Char.isAlpha, Char.isUpper, Char.isLower, Bool.or_eq_true,
    Bool.and_eq_true, decide_eq_true_eq, beq_iff_eq, UInt32.le_iff_toNat_le] at start
  rw [Bool.eq_false_iff]
  intro digit
  simp only [Char.isDigit, Bool.and_eq_true, decide_eq_true_eq, UInt32.le_iff_toNat_le] at digit
  rcases start with letter | rfl
  · simp at letter digit
    omega
  · simp at digit

theorem scanToken_of_startsIdentifier {c : Char} (start : startsIdentifier c = true)
    (rest : List Char) : scanToken c rest = scanWord [c] [c] [] rest := by
  have inside := Text.inIdentifier_of_startsIdentifier start
  have digit := not_isDigit_of_startsIdentifier start
  have minus : c ≠ '-' := by
    rintro rfl
    cases start
  rw [scanToken_of_not_mark (not_mark_of_inIdentifier inside), if_neg (by simp [digit, minus]),
    if_pos start]

theorem scanOrder_complete {rest : List Char} (stops : Stops (· == '=') rest)
    (strict inclusive : Operator) (first : Char) :
    scanOrder strict inclusive first rest = ⟨.operator strict, [first], rest⟩ := by
  unfold scanOrder
  split
  · cases stops_cons_iff.1 stops
  · rfl

/-- A numeral starts with a digit, or with a sign and a digit. -/
theorem number_start {n : Numeral} {cs : List Char} (spelled : n.Spelling cs) (rest : List Char) :
    ∃ c tail, cs = c :: tail ∧ c ∉ marks ∧
      (c.isDigit ∨ (c = '-' ∧ (tail ++ rest).head?.any Char.isDigit)) := by
  obtain ⟨⟨some, digits⟩, -, power, -, rfl⟩ := spelled
  obtain ⟨negative, whole, fraction, exponent⟩ := n
  cases whole with
  | nil => exact absurd rfl some
  | cons d ds =>
    have digit := digits d List.mem_cons_self
    cases negative with
    | true => exact ⟨'-', _, rfl, by decide, .inr ⟨rfl, by simpa using digit⟩⟩
    | false => exact ⟨d, _, rfl, not_mark_of_inIdentifier (inIdentifier_of_isDigit digit), .inl digit⟩

/-- A scan takes every spelling that nothing goes on with. -/
theorem scanToken_complete {cs rest : List Char} {token : Token} {more : Char → Bool}
    (spelled : Spelling cs token more) (stops : Stops more rest) :
    ∃ c tail, cs = c :: tail ∧ scanToken c (tail ++ rest) = .ok ⟨token, cs, rest⟩ := by
  cases spelled with
  | openParen => exact ⟨_, _, rfl, rfl⟩
  | closeParen => exact ⟨_, _, rfl, rfl⟩
  | operator op =>
    cases op with
    | eq | ne | le | ge => exact ⟨_, _, rfl, rfl⟩
    | lt => exact ⟨'<', [], rfl, congrArg Except.ok (scanOrder_complete stops .lt .le '<')⟩
    | gt => exact ⟨'>', [], rfl, congrArg Except.ok (scanOrder_complete stops .gt .ge '>')⟩
  | connective c => cases c <;> exact ⟨_, _, rfl, rfl⟩
  | @text quote body text mark quoted =>
    refine ⟨quote, body ++ [quote], rfl, ?_⟩
    have complete := scanText_complete quoted (by rcases mark with rfl | rfl <;> decide) [quote] []
      rest
    have first : scanToken quote (body ++ [quote] ++ rest) =
        scanText quote [quote] [] (body ++ quote :: rest) := by
      rw [List.append_assoc]
      rcases mark with rfl | rfl <;> rfl
    rw [first, complete]
    rfl
  | @number _ n l spelled value =>
    obtain ⟨c, tail, rfl, other, start⟩ := number_start spelled rest
    refine ⟨c, tail, rfl, ?_⟩
    rw [scanToken_of_not_mark other, if_pos start, scanNumber, ← List.cons_append,
      Numeral.scan_complete spelled stops]
    simp only [value]
  | @word first others start identifiers =>
    cases first with
    | nil => cases start
    | cons c more =>
      simp only [isIdentifier, Bool.and_eq_true, List.all_eq_true] at start
      refine ⟨c, more ++ pointed others, rfl, ?_⟩
      rw [scanToken_of_startsIdentifier start.1, List.append_assoc, scanWord_inside start.2,
        scanWord_complete identifiers stops]
      simp

/-- A scan takes exactly the spellings that nothing goes on with. -/
theorem scanToken_eq_ok_iff {c : Char} {rest : List Char} {s : Scan} :
    scanToken c rest = .ok s ↔ s.lexeme ++ s.rest = c :: rest ∧ s.Sound := by
  constructor
  · intro h
    exact ⟨(scanToken_append h).1, scanToken_sound h⟩
  · rintro ⟨lossless, more, spelled, stops⟩
    obtain ⟨c', tail, lexeme, h⟩ := scanToken_complete spelled stops
    rw [lexeme, List.cons_append, List.cons.injEq] at lossless
    obtain ⟨rfl, rfl⟩ := lossless
    exact h

/-- No token starts with a blank. -/
theorem Spelling.not_isBlank {c : Char} {cs : List Char} {token : Token} {more : Char → Bool}
    (spelled : Spelling (c :: cs) token more) : isBlank c = false := by
  obtain ⟨c', tail, same, scanned⟩ := scanToken_complete spelled (.nil more)
  obtain ⟨rfl, rfl⟩ := List.cons.inj same
  rw [Bool.eq_false_iff]
  intro blank
  simp only [isBlank, Bool.or_eq_true, beq_iff_eq] at blank
  rcases blank with ((rfl | rfl) | rfl) | rfl <;> cases scanned

theorem Spelling.ne_nil {cs : List Char} {token : Token} {more : Char → Bool}
    (spelled : Spelling cs token more) : cs ≠ [] := by
  obtain ⟨c, tail, rfl, -⟩ := scanToken_complete spelled (.nil more)
  exact List.cons_ne_nil c tail

/-- A text starts with one spelling at most that the next character does not go on with. -/
theorem Spelling.unique {cs cs' rest rest' : List Char} {t t' : Token} {more more' : Char → Bool}
    (spelled : Spelling cs t more) (stops : Stops more rest) (spelled' : Spelling cs' t' more')
    (stops' : Stops more' rest') (same : cs ++ rest = cs' ++ rest') :
    t = t' ∧ cs = cs' ∧ rest = rest' := by
  obtain ⟨c, tail, rfl, scanned⟩ := scanToken_complete spelled stops
  obtain ⟨c', tail', rfl, scanned'⟩ := scanToken_complete spelled' stops'
  obtain ⟨rfl, others⟩ : c = c' ∧ tail ++ rest = tail' ++ rest' := List.cons.inj same
  rw [others] at scanned
  exact Scan.mk.inj (Except.ok.inj (scanned.symm.trans scanned'))

/-- A character that starts a longer spelling goes on with the token. -/
theorem Spelling.more_of_longer {cs tail : List Char} {c : Char} {t t' : Token}
    {more more' : Char → Bool} (spelled : Spelling cs t more)
    (longer : Spelling (cs ++ c :: tail) t' more') : more c = true := by
  by_contra other
  have stops : Stops more (c :: tail) := stops_cons_iff.2 (Bool.eq_false_iff.2 other)
  obtain ⟨-, -, none⟩ := spelled.unique stops longer (.nil more') (List.append_nil _).symm
  cases none

/-- No token goes on with a parenthesis. -/
theorem Spelling.more_paren {cs : List Char} {t : Token} {more : Char → Bool}
    (spelled : Spelling cs t more) : more '(' = false ∧ more ')' = false := by
  cases spelled with
  | openParen | closeParen | connective | text | word => exact ⟨rfl, rfl⟩
  | operator op => cases op <;> exact ⟨rfl, rfl⟩
  | @number _ n => simp [Numeral.more]

/-- No token goes on with a blank. -/
theorem Spelling.more_blank {cs : List Char} {t : Token} {more : Char → Bool}
    (spelled : Spelling cs t more) {c : Char} (blank : isBlank c = true) : more c = false := by
  simp only [isBlank, Bool.or_eq_true, beq_iff_eq] at blank
  rcases blank with ((rfl | rfl) | rfl) | rfl <;>
    cases spelled with
    | openParen | closeParen | connective | text | word => rfl
    | operator op => cases op <;> rfl
    | @number _ n => simp [Numeral.more]

theorem Spelling.stops_append {cs rest rest' : List Char} {t : Token} {more : Char → Bool}
    (spelled : Spelling cs t more) (stops : Stops more rest)
    (pause : ∀ c ∈ rest'.head?, isBlank c = true) : Stops more (rest ++ rest') := by
  cases rest with
  | nil => exact fun c head => spelled.more_blank (pause c head)
  | cons c rest => exact stops

end Token

end HalfBinary
