import Mathlib
import HalfBinary.Json.Reader
import HalfBinary.Json.Writer
import HalfBinary.Proofs.Rendering

/-!
# Written JSON

The compact text of a value is read as that value (`read_compact`), except that a whole number past
64 bits is read as a double. It has no control characters, so that it is one line
(`printable_write`).
-/

namespace HalfBinary

/-! ### Whole numbers -/

theorem Numeral.appendDigits_lt {n : ℕ} (small : n < 0x10000000000000000) (cs : List Char) :
    (appendDigits n cs).1 < 0x10000000000000000 := by
  fun_induction appendDigits n cs with
  | case1 n => exact small
  | case2 n c cs next fits ih => exact ih fits
  | case3 n c cs next full => exact small

theorem Numeral.length_appendDigits_le (n : ℕ) (cs : List Char) :
    (appendDigits n cs).2.length ≤ cs.length := by
  fun_induction appendDigits n cs with
  | case1 n => exact Nat.le_refl _
  | case2 n c cs next fits ih => exact ih.trans (Nat.le_succ _)
  | case3 n c cs next full => exact Nat.le_refl _

namespace Binary64

theorem log2_shiftLeft {n : ℕ} (nonzero : n ≠ 0) (k : ℕ) : (n <<< k).log2 = n.log2 + k := by
  induction k with
  | zero => rfl
  | succ k ih =>
    have shifted : n <<< k ≠ 0 := by simpa [Nat.shiftLeft_eq] using nonzero
    rw [Nat.shiftLeft_succ, Nat.log2_two_mul shifted, ih, Nat.add_assoc]

/-- At the leading exponent a quotient has no more than 53 bits before the point. -/
theorem quotient_lt_of_leadingExponent (num : ℕ) {den : ℕ} (nonzero : den ≠ 0) :
    (num <<< (-leadingExponent num den).toNat) / (den <<< (leadingExponent num den).toNat) <
      0x20000000000000 := by
  have first : num < 2 ^ (num.log2 + 1) := Nat.lt_log2_self
  have second : 2 ^ den.log2 ≤ den := Nat.log2_self_le nonzero
  rw [leadingExponent]
  generalize start : (num.log2 : ℤ) - den.log2 - 53 = e
  split
  · next short => exact short
  · have powers : num.log2 + 1 + (-(e + 1)).toNat = 53 + den.log2 + (e + 1).toNat := by omega
    rw [Nat.shiftLeft_eq, Nat.shiftLeft_eq, Nat.div_lt_iff_lt_mul (by positivity)]
    calc
      num * 2 ^ (-(e + 1)).toNat < 2 ^ (num.log2 + 1) * 2 ^ (-(e + 1)).toNat := by gcongr
      _ = 2 ^ 53 * (2 ^ den.log2 * 2 ^ (e + 1).toNat) := by rw [← pow_add, powers]; ring
      _ ≤ 0x20000000000000 * (den * 2 ^ (e + 1).toNat) := by gcongr; norm_num

theorem leadingExponent_bounds (num den : ℕ) :
    (num.log2 : ℤ) - den.log2 - 53 ≤ leadingExponent num den ∧
      leadingExponent num den ≤ (num.log2 : ℤ) - den.log2 - 52 := by
  rw [leadingExponent]
  generalize (num.log2 : ℤ) - den.log2 = bits
  split <;> constructor <;> omega

theorem roundQuotient_le (num den : ℕ) : roundQuotient num den ≤ num / den + 1 := by
  unfold roundQuotient
  dsimp only
  split
  · omega
  · split <;> omega

theorem ofParts?_eq_some {negative : Bool} {m : ℕ} {e : ℤ} (bits : m < 0x20000000000000)
    (least : -1074 ≤ e) (most : e ≤ 971) :
    ofParts? negative m e = some ⟨negative, m, e, bits, least, most⟩ :=
  dif_pos ⟨bits, least, most⟩

/-- A quotient that is neither very small nor very large is near to a double of its size. -/
theorem exists_ofQuotient? (negative : Bool) {num den : ℕ} {e : ℤ} (nonzero : num ≠ 0)
    (nonzero' : den ≠ 0) (low : -1000 ≤ (num.log2 : ℤ) - den.log2 + e)
    (high : (num.log2 : ℤ) - den.log2 + e ≤ 1000) :
    ∃ x, ofQuotient? negative num den e = some x ∧
      (num.log2 : ℤ) - den.log2 + e - 53 ≤ x.exponent ∧
        x.exponent ≤ (num.log2 : ℤ) - den.log2 + e - 51 := by
  have shifted := leadingExponent_bounds (num <<< e.toNat) (den <<< (-e).toNat)
  rw [log2_shiftLeft nonzero, log2_shiftLeft nonzero'] at shifted
  have positive : den <<< (-e).toNat ≠ 0 := by simpa [Nat.shiftLeft_eq] using nonzero'
  have bits := quotient_lt_of_leadingExponent (num <<< e.toNat) positive
  rw [ofQuotient?, if_neg nonzero, nearest?, max_eq_right (by omega)]
  generalize leadingExponent (num <<< e.toNat) (den <<< (-e).toNat) = lead at bits shifted ⊢
  have rounded := roundQuotient_le ((num <<< e.toNat) <<< (-lead).toNat)
    ((den <<< (-e).toNat) <<< lead.toNat)
  split
  · rw [ofParts?_eq_some (by norm_num) (by omega) (by omega)]
    exact ⟨_, rfl, by dsimp only; omega, by dsimp only; omega⟩
  · rw [ofParts?_eq_some (by omega) (by omega) (by omega)]
    exact ⟨_, rfl, by dsimp only; omega, by dsimp only; omega⟩

theorem log2_one : Nat.log2 1 = 0 := rfl

/-- A whole number of not very many bits is near to a double. -/
theorem exists_ofQuotient?_one {n bits : ℕ} (nonzero : n ≠ 0) (small : n < 2 ^ bits)
    (few : bits ≤ 1000) :
    ∃ x, ofQuotient? false n 1 0 = some x ∧ -53 ≤ x.exponent ∧ x.exponent ≤ bits - 52 := by
  have size : n.log2 < bits := (Nat.log2_lt nonzero).2 small
  obtain ⟨x, near, low, high⟩ := exists_ofQuotient? false (e := 0) nonzero one_ne_zero
    (by rw [log2_one]; omega) (by rw [log2_one]; omega)
  rw [log2_one] at low high
  exact ⟨x, near, by omega, by omega⟩

/-- So is a power of ten. -/
theorem exists_tenTo? {power : ℕ} (few : power ≤ 200) :
    ∃ t, tenTo? power = some t ∧ -53 ≤ t.exponent ∧ t.exponent ≤ 800 := by
  have nonzero : Nat.pow 10 power ≠ 0 := (Nat.pow_pos (by norm_num)).ne'
  have small : 10 ^ power < 2 ^ (4 * power + 1) := by
    calc
      10 ^ power ≤ (2 ^ 4) ^ power := Nat.pow_le_pow_left (by norm_num) power
      _ = 2 ^ (4 * power) := by rw [pow_mul]
      _ < 2 ^ (4 * power + 1) := Nat.pow_lt_pow_right (by norm_num) (Nat.lt_succ_self _)
  obtain ⟨t, near, low, high⟩ := exists_ofQuotient?_one nonzero small (by omega)
  exact ⟨t, near, low, by omega⟩

/-- The product of doubles that are neither very small nor very large is a double. -/
theorem exists_times? {x y : Binary64}
    (normal : x.significand = 0 ∨ -60 ≤ x.exponent ∧ x.exponent ≤ 60)
    (normal' : -60 ≤ y.exponent ∧ y.exponent ≤ 800) : ∃ z, x.times? y = some z := by
  by_cases zero : x.significand * y.significand = 0
  · rw [times?, ofQuotient?, if_pos zero]
    exact ⟨_, rfl⟩
  · have nonzero : x.significand ≠ 0 := left_ne_zero_of_mul zero
    have bounds := normal.resolve_left nonzero
    have size : (x.significand * y.significand).log2 < 106 := by
      rw [Nat.log2_lt zero]
      calc
        x.significand * y.significand < 2 ^ 53 * 2 ^ 53 :=
          Nat.mul_lt_mul'' x.significand_lt y.significand_lt
        _ = 2 ^ 106 := by norm_num
    obtain ⟨z, near, -⟩ := exists_ofQuotient? (x.negative != y.negative) (e := x.exponent + y.exponent)
      zero one_ne_zero (by rw [log2_one]; omega) (by rw [log2_one]; omega)
    exact ⟨z, near⟩

/-- A number of 64 bits is near to a double. -/
theorem exists_ofWord? {n : ℕ} (word : n < 2 ^ 64) :
    ∃ x, ofQuotient? false n 1 0 = some x ∧
      (x.significand = 0 ∨ -60 ≤ x.exponent ∧ x.exponent ≤ 60) := by
  by_cases zero : n = 0
  · rw [ofQuotient?, if_pos zero]
    exact ⟨_, rfl, .inl rfl⟩
  · obtain ⟨x, near, low, high⟩ := exists_ofQuotient?_one zero word (by norm_num)
    exact ⟨x, near, .inr ⟨by omega, by omega⟩⟩

/-- A whole number of so few digits is read as a double. -/
theorem exists_ofNumeral? {n : Numeral} (whole : n.isWhole = true) (few : n.whole.length ≤ 200) :
    ∃ x, ofNumeral? n = some x := by
  obtain ⟨negative, cs, fraction, exponent⟩ := n
  rw [Numeral.isWhole, Bool.and_eq_true, List.isEmpty_iff, Option.isNone_iff_eq_none] at whole
  obtain ⟨rfl, rfl⟩ := whole
  have unread := Numeral.length_appendDigits_le 0 cs
  have leading : Numeral.leading ⟨negative, cs, [], none⟩ =
      ((Numeral.appendDigits 0 cs).1, ((Numeral.appendDigits 0 cs).2.length : ℤ)) := by
    simp [Numeral.leading, Numeral.appendDigits, Numeral.power]
  obtain ⟨x, word, normal⟩ := exists_ofWord? (Numeral.appendDigits_lt (n := 0) (by norm_num) cs)
  obtain ⟨t, power, least, most⟩ := exists_tenTo? (unread.trans few)
  obtain ⟨z, product⟩ := exists_times? normal ⟨(by omega : -60 ≤ t.exponent), most⟩
  have scaled : x.scale? (Numeral.appendDigits 0 cs).2.length = some z := by
    have few : (Numeral.appendDigits 0 cs).2.length ≤ 200 := unread.trans few
    rw [scale?, if_neg (by omega), if_pos (Int.natCast_nonneg _), Int.toNat_natCast, power]
    exact product
  refine ⟨{ z with negative := negative }, ?_⟩
  rw [ofNumeral?, leading]
  dsimp only
  rw [word]
  show (x.scale? _ >>= _) = _
  rw [scaled]
  rfl

end Binary64

namespace Number

/-- A whole number of 64 bits is read as itself. -/
theorem ofNumeral?_ofInt {v : Int} (low : -0x8000000000000000 ≤ v) (high : v < 0x10000000000000000) :
    ofNumeral? (.ofInt v) = some (whole v) := by
  have sign : ¬ ((Numeral.ofInt v).negative = true ∧ v = 0) := by
    rintro ⟨negative, rfl⟩
    exact absurd negative (by decide)
  rw [ofNumeral?, Numeral.digits_ofInt, if_pos ⟨rfl, low, high, sign⟩]

theorem exists_ofNumeral?_ofInt {v : Int} (small : v.natAbs < 2 ^ 128) :
    ∃ value, ofNumeral? (.ofInt v) = some value := by
  rw [ofNumeral?]
  split
  · exact ⟨_, rfl⟩
  · have few : (Nat.toDigits 10 v.natAbs).length ≤ 39 :=
      (Nat.length_toDigits_le_iff (by decide) (by decide)).2 (small.trans (by norm_num))
    obtain ⟨x, read⟩ := Binary64.exists_ofNumeral? (n := .ofInt v) rfl (few.trans (by decide))
    rw [read]
    exact ⟨_, rfl⟩

end Number

namespace Json

/-! ### Printable characters -/

/-- No control characters are among these. -/
def Printable (cs : List Char) : Prop := ∀ c ∈ cs, 0x20 ≤ c.toNat

@[simp] theorem printable_nil : Printable [] := nofun

@[simp] theorem printable_cons_iff {c : Char} {cs : List Char} :
    Printable (c :: cs) ↔ 0x20 ≤ c.toNat ∧ Printable cs := List.forall_mem_cons

@[simp] theorem printable_append_iff {cs ds : List Char} :
    Printable (cs ++ ds) ↔ Printable cs ∧ Printable ds := List.forall_mem_append

theorem Printable.newline_notMem {cs : List Char} (printable : Printable cs) : '\n' ∉ cs :=
  fun mem => absurd (printable '\n' mem) (by decide)

theorem printable_of_digits {cs : List Char} (digits : ∀ c ∈ cs, c.isDigit = true) :
    Printable cs := by
  intro c mem
  have digit := digits c mem
  rw [Char.isDigit, Bool.and_eq_true, decide_eq_true_eq, ge_iff_le, UInt32.le_iff_toNat_le] at digit
  exact le_trans (by decide) digit.1

@[simp] theorem printable_toDigits (n : Nat) : Printable (Nat.toDigits 10 n) :=
  printable_of_digits (digits_toDigits n).2

@[simp] theorem printable_replicate (n : Nat) : Printable (List.replicate n '0') := by
  intro c mem
  rw [List.eq_of_mem_replicate mem]
  decide

theorem Printable.take {cs : List Char} (printable : Printable cs) (n : Nat) :
    Printable (cs.take n) := fun c mem => printable c (List.mem_of_mem_take mem)

theorem Printable.drop {cs : List Char} (printable : Printable cs) (n : Nat) :
    Printable (cs.drop n) := fun c mem => printable c (List.mem_of_mem_drop mem)

@[simp] theorem printable_signed (v : Int) : Printable (Text.signed v) := by
  unfold Text.signed
  split <;> simp

theorem printable_hexDigit (n : Nat) : 0x20 ≤ (hexDigit n).toNat := by
  have small : ∀ n < 16, 0x20 ≤ (Nat.digitChar n).toNat := by decide
  exact small _ (Nat.mod_lt n (by decide))

theorem printable_escapeChar (c : Char) : Printable (escapeChar c) := by
  unfold escapeChar
  split
  iterate 7 simp
  split
  · simp [printable_hexDigit]
  · next high => simpa using high

@[simp] theorem printable_writeText (text : String) : Printable (writeText text) := by
  have escaped : Printable (text.toList.flatMap escapeChar) := by
    intro c mem
    obtain ⟨d, -, written⟩ := List.mem_flatMap.1 mem
    exact printable_escapeChar d c written
  simp [writeText, escaped]

theorem printable_fractionChars {ds : List Char} (printable : Printable ds) :
    Printable (Numeral.fractionChars ds) := by
  unfold Numeral.fractionChars
  split
  · exact printable_nil
  · exact printable_cons_iff.2 ⟨by decide, printable⟩

theorem printable_writeDouble (x : Binary64) : Printable (writeDouble x) := by
  have digits := printable_toDigits x.shortest.digits.natAbs
  rw [writeDouble, printable_append_iff]
  refine ⟨by split <;> simp, ?_⟩
  split
  · simp
  split
  · simp
  split
  · simp [digits.take, digits.drop]
  split
  · simp
  · rw [printable_append_iff, printable_append_iff]
    exact ⟨⟨digits.take 1, printable_fractionChars (digits.drop 1)⟩, by simp⟩

mutual

/-- The text of a value has no control characters. -/
theorem printable_write : ∀ j : Json, Printable (write j)
  | null => by simp [write]
  | boolean true => by simp [write]
  | boolean false => by simp [write]
  | number (.whole v) => printable_signed v
  | number (.double x) => printable_writeDouble x
  | text s => printable_writeText s
  | array items => printable_cons_iff.2 ⟨by decide, printable_writeItems items⟩
  | object fields => printable_cons_iff.2 ⟨by decide, printable_writeFields fields⟩

theorem printable_writeItems : ∀ items : List Json, Printable (writeItems items)
  | [] => by simp [writeItems]
  | [item] => by simp [writeItems, printable_write item]
  | item :: next :: items => by
    simp [writeItems, printable_write item, printable_writeItems (next :: items)]

theorem printable_writeFields : ∀ fields : List (String × Json), Printable (writeFields fields)
  | [] => by simp [writeFields]
  | [(name, value)] => by simp [writeFields, printable_write value]
  | (name, value) :: next :: fields => by
    simp [writeFields, printable_write value, printable_writeFields (next :: fields)]

end

/-! ### Reading what was written -/

/-- A reader has found a value and left these characters. -/
def Finds {α : Type} {whole : List Char} (result : Except ReadFault (α × Text.Shorter whole))
    (value : α) (rest : List Char) : Prop :=
  ∃ shorter, result = .ok (value, ⟨rest, shorter⟩)

theorem hexUnit?_hexDigit {n : Nat} (control : n < 0x20) :
    hexUnit? '0' '0' (hexDigit (n / 16)) (hexDigit n) = some n := by
  have all : ∀ n < 0x20, hexUnit? '0' '0' (hexDigit (n / 16)) (hexDigit n) = some n := by decide
  exact all n control

theorem readText_of_plain {whole done : List Char} {c : Char} {rest : List Char} (quote : c ≠ '"')
    (backslash : c ≠ '\\') (high : ¬ c.toNat < 0x20) (h : (c :: rest).length ≤ whole.length) :
    readText whole done (c :: rest) h = readText whole (c :: done) rest (Nat.le_of_succ_le h) := by
  conv_lhs => unfold readText
  simp [backslash, high]

/-- A character is read as itself, however it is written. -/
theorem readText_escapeChar (whole done : List Char) (c : Char) (rest : List Char)
    (h : (escapeChar c ++ rest).length ≤ whole.length) :
    ∃ h', readText whole done (escapeChar c ++ rest) h = readText whole (c :: done) rest h' := by
  have shorter : rest.length ≤ whole.length := by
    rw [List.length_append] at h
    omega
  refine ⟨shorter, ?_⟩
  unfold escapeChar at h ⊢
  split
  iterate 7 simp [readText, simpleEscape?]
  split
  · next control =>
    have low : ¬ 0xD800 ≤ c.toNat := by omega
    have low' : ¬ 0xDC00 ≤ c.toNat := by omega
    simp [readText, hexUnit?_hexDigit control, low, low']
  · next quote backslash _ _ _ _ _ high =>
    simp only [List.singleton_append]
    exact readText_of_plain quote backslash high _

theorem finds_text (whole done text rest : List Char)
    (h : (text.flatMap escapeChar ++ '"' :: rest).length ≤ whole.length) :
    Finds (readText whole done (text.flatMap escapeChar ++ '"' :: rest) h)
      (String.ofList (done.reverse ++ text)) rest := by
  induction text generalizing done with
  | nil =>
    rw [List.append_nil]
    exact ⟨h, by simp [readText]⟩
  | cons c text ih =>
    simp only [List.flatMap_cons, List.append_assoc] at h ⊢
    obtain ⟨h', step⟩ := readText_escapeChar whole done c _ h
    obtain ⟨shorter, read⟩ := ih (c :: done) h'
    refine ⟨shorter, ?_⟩
    rw [step, read]
    simp

/-- The characters that go on with some whole number, or make it faulty. -/
def inNumber (c : Char) : Bool := c.isDigit || c == 'e' || c == 'E' || c == '.'

theorem head?_toDigits {n : Nat} (positive : 0 < n) : (Nat.toDigits 10 n).head? ≠ some '0' := by
  induction n using Nat.strong_induction_on with
  | _ n ih =>
    rcases Nat.lt_or_ge n 10 with digit | more
    · rw [Nat.toDigits_of_lt_base digit]
      interval_cases n <;> decide
    · have front : 0 < n / 10 := Nat.div_pos more (by decide)
      have split := Nat.toDigits_append_toDigits (b := 10) (by decide) front
        (Nat.mod_lt n (by decide))
      rw [Nat.div_add_mod] at split
      rw [← split, List.head?_append_of_ne_nil _ Nat.toDigits_ne_nil]
      exact ih (n / 10) (Nat.div_lt_self positive (by decide)) front

theorem finds_number {whole rest : List Char} {v : Int} {value : Number}
    (meant : Number.ofNumeral? (.ofInt v) = some value) (stops : Stops inNumber rest)
    (h : (Text.signed v ++ rest).length ≤ whole.length) :
    Finds (readNumber whole (Text.signed v ++ rest) h) value rest := by
  have stops' : Stops (Numeral.ofInt v).more rest := by
    refine stops.weaken fun c other => ?_
    simp only [inNumber, Bool.or_eq_false_iff] at other
    simp [Numeral.more, other]
  have scanned := Numeral.scan_complete (Numeral.spelling_ofInt v) stops'
  have tight : ¬ ((Numeral.ofInt v).whole.head? = some '0' ∧ (Numeral.ofInt v).whole.length ≠ 1) := by
    rintro ⟨zero, long⟩
    rcases Nat.eq_zero_or_pos v.natAbs with none | positive
    · exact long (by rw [Numeral.ofInt, none, Nat.toDigits_zero]; rfl)
    · exact head?_toDigits positive zero
  unfold readNumber
  split
  · next fault => simp [scanned] at fault
  · next s found =>
    obtain rfl : ⟨.ofInt v, Text.signed v, rest⟩ = s := Except.ok.inj (scanned.symm.trans found)
    have some : (Numeral.ofInt v).whole ≠ [] := (digits_toDigits v.natAbs).1
    rw [dif_neg some, if_neg tight]
    simp only [meant]
    exact ⟨_, rfl⟩

theorem exists_signed_cons (v : Int) :
    ∃ c cs, Text.signed v = c :: cs ∧ (c = '-' ∨ c.isDigit = true) := by
  obtain ⟨some, digits⟩ := digits_toDigits v.natAbs
  obtain ⟨d, ds, split⟩ := List.exists_cons_of_ne_nil some
  unfold Text.signed
  split
  · exact ⟨_, _, rfl, .inl rfl⟩
  · exact ⟨d, ds, split, .inr (digits d (split ▸ List.mem_cons_self))⟩

/-! ### Values -/

mutual

/-- What the text of a value is read as, where so many containers may be nested: the same value, but
for numbers past 64 bits. None if it would not be read or there is a double in it. -/
def reread? : Json → Nat → Option Json
  | null, _ => some null
  | boolean value, _ => some (boolean value)
  | number (.whole value), _ => (Number.ofNumeral? (.ofInt value)).map number
  | number (.double _), _ => none
  | text value, _ => some (text value)
  | array items, depth + 1 => (rereadItems? items depth).map array
  | object fields, depth + 1 =>
    if (fields.map Prod.fst).Nodup then (rereadFields? fields depth).map object else none
  | array _, 0 => none
  | object _, 0 => none

def rereadItems? : List Json → Nat → Option (List Json)
  | [], _ => some []
  | item :: items, depth =>
    (reread? item depth).bind fun item => (rereadItems? items depth).map fun items => item :: items

def rereadFields? : List (String × Json) → Nat → Option (List (String × Json))
  | [], _ => some []
  | (name, value) :: fields, depth =>
    (reread? value depth).bind fun value =>
      (rereadFields? fields depth).map fun fields => (name, value) :: fields

end

theorem reread?_nat {n : Nat} (small : n < 2 ^ 64) (depth : Nat) :
    reread? (nat n) depth = some (nat n) := by
  rw [nat, Json.whole, reread?, Number.ofNumeral?_ofInt (by omega) (by omega)]
  rfl

theorem rereadFields?_of_kept {fields : List (String × Json)} {depth : Nat}
    (kept : ∀ f ∈ fields, reread? f.2 depth = some f.2) : rereadFields? fields depth = some fields := by
  induction fields with
  | nil => rfl
  | cons f fields ih =>
    obtain ⟨first, others⟩ := List.forall_mem_cons.1 kept
    rw [rereadFields?, first, ih others]
    rfl

theorem readValue_of_number {depth : Nat} {whole : List Char} {c : Char} {cs : List Char}
    (start : c = '-' ∨ c.isDigit = true) (h : (c :: cs).length ≤ whole.length) :
    readValue depth whole (c :: cs) h =
      (do let (value, rest) ← readNumber whole (c :: cs) h; return (.number value, rest)) := by
  have other {d : Char} (noMinus : d ≠ '-') (noDigit : d.isDigit = false) : c ≠ d := by
    rintro rfl
    simp [noMinus, noDigit] at start
  have quote := other (d := '"') (by decide) (by decide)
  have bracket := other (d := '[') (by decide) (by decide)
  have brace := other (d := '\x7b') (by decide) (by decide)
  conv_lhs => unfold readValue
  simp [start]

/-- The text of a value that is read starts with neither a blank nor a closing bracket. -/
theorem exists_write_cons {j j' : Json} {depth : Nat} (read : reread? j depth = some j') :
    ∃ c cs, write j = c :: cs ∧ isBlank c = false ∧ c ≠ ']' := by
  match j with
  | null => exact ⟨_, _, rfl, by decide, by decide⟩
  | boolean true => exact ⟨_, _, rfl, by decide, by decide⟩
  | boolean false => exact ⟨_, _, rfl, by decide, by decide⟩
  | text _ => exact ⟨_, _, rfl, by decide, by decide⟩
  | array _ => exact ⟨_, _, rfl, by decide, by decide⟩
  | object _ => exact ⟨_, _, rfl, by decide, by decide⟩
  | number (.double _) => simp [reread?] at read
  | number (.whole v) =>
    obtain ⟨c, cs, split, start⟩ := exists_signed_cons v
    refine ⟨c, cs, split, ?_, ?_⟩
    · refine Bool.eq_false_iff.2 fun blank => ?_
      simp only [isBlank, Bool.or_eq_true, beq_iff_eq] at blank
      rcases blank with ((rfl | rfl) | rfl) | rfl <;> simp at start
    · rintro rfl
      simp at start


theorem skipBlanks_of_cons {c : Char} (plain : isBlank c = false) (cs : List Char) :
    skipBlanks (c :: cs) = c :: cs := by
  rw [skipBlanks, List.dropWhile_cons_of_neg (Bool.eq_false_iff.1 plain)]

/-! ### Steps of the reader -/

section

variable {depth : Nat} {whole cs rest : List Char}

theorem finds_items_end {item : Json} {done : List Json}
    (first : Finds (readValue depth cs cs (Nat.le_refl _)) item (']' :: rest))
    (h : cs.length ≤ whole.length) :
    Finds (readItems depth whole done cs h) (array (done.reverse ++ [item])) rest := by
  obtain ⟨shorter, read⟩ := first
  refine ⟨by simp at shorter; omega, ?_⟩
  rw [readItems, read, ← List.reverse_cons]
  rfl

theorem finds_items_next {item value : Json} {done : List Json} {more ms : List Char}
    (first : Finds (readValue depth cs cs (Nat.le_refl _)) item (',' :: more))
    (kept : skipBlanks more = ms) (h : cs.length ≤ whole.length)
    (others : ∀ h', Finds (readItems depth whole (item :: done) ms h') value rest) :
    Finds (readItems depth whole done cs h) value rest := by
  obtain ⟨shorter, read⟩ := first
  subst kept
  have fits : (skipBlanks more).length ≤ whole.length := by
    have := length_skipBlanks_le more
    simp at shorter
    omega
  rw [readItems, read]
  exact others fits

theorem finds_fields_end {name : String} {value : Json} {done : List (String × Json)}
    {after vs : List Char} (label : Finds (readText cs [] cs (Nat.le_refl _)) name (':' :: after))
    (kept : skipBlanks after = vs)
    (first : Finds (readValue depth vs vs (Nat.le_refl _)) value ('\x7d' :: rest))
    (h : ('"' :: cs).length ≤ whole.length) :
    Finds (readFields depth whole done ('"' :: cs) h) (object (Named.put done name value)) rest := by
  obtain ⟨shorter, read⟩ := label
  obtain ⟨shorter', read'⟩ := first
  subst kept
  have fits : rest.length < whole.length := by
    have := length_skipBlanks_le after
    simp at h shorter shorter'
    omega
  refine ⟨fits, ?_⟩
  rw [readFields, read]
  show (readValue depth (skipBlanks after) (skipBlanks after) _ >>= _) = _
  rw [read']
  rfl

theorem finds_fields_next {name : String} {value result : Json} {done : List (String × Json)}
    {after vs more ms : List Char}
    (label : Finds (readText cs [] cs (Nat.le_refl _)) name (':' :: after))
    (kept : skipBlanks after = vs)
    (first : Finds (readValue depth vs vs (Nat.le_refl _)) value (',' :: more))
    (kept' : skipBlanks more = ms) (h : ('"' :: cs).length ≤ whole.length)
    (others : ∀ h', Finds (readFields depth whole (Named.put done name value) ms h') result rest) :
    Finds (readFields depth whole done ('"' :: cs) h) result rest := by
  obtain ⟨shorter, read⟩ := label
  obtain ⟨shorter', read'⟩ := first
  subst kept kept'
  have fits : (skipBlanks more).length ≤ whole.length := by
    have := length_skipBlanks_le after
    have := length_skipBlanks_le more
    simp at h shorter shorter'
    omega
  rw [readFields, read]
  show Finds (readValue depth (skipBlanks after) (skipBlanks after) _ >>= _) result rest
  rw [read']
  exact others fits

theorem finds_array {value : Json} {c : Char} (plain : isBlank c = false) (other : c ≠ ']')
    (h : ('[' :: c :: cs).length ≤ whole.length)
    (items : ∀ h', Finds (readItems depth whole [] (c :: cs) h') value rest) :
    Finds (readValue (depth + 1) whole ('[' :: c :: cs) h) value rest := by
  have kept := skipBlanks_of_cons plain cs
  rw [readValue]
  split
  · next closed =>
    rw [kept] at closed
    exact absurd (List.cons.inj closed).1 other
  · simp only [kept]
    exact items _

theorem finds_array_nil (h : ('[' :: ']' :: rest).length ≤ whole.length) :
    Finds (readValue (depth + 1) whole ('[' :: ']' :: rest) h) (array []) rest := by
  refine ⟨by simp at h; omega, ?_⟩
  rw [readValue]
  rfl

theorem finds_object_nil (h : ('\x7b' :: '\x7d' :: rest).length ≤ whole.length) :
    Finds (readValue (depth + 1) whole ('\x7b' :: '\x7d' :: rest) h) (object []) rest := by
  refine ⟨by simp at h; omega, ?_⟩
  rw [readValue]
  rfl

theorem finds_object {value : Json} (h : ('\x7b' :: '"' :: cs).length ≤ whole.length)
    (fields : ∀ h', Finds (readFields depth whole [] ('"' :: cs) h') value rest) :
    Finds (readValue (depth + 1) whole ('\x7b' :: '"' :: cs) h) value rest := by
  rw [readValue]
  exact fields _

end

theorem Named.put_of_notMem {entries : List (String × α)} {name : String}
    (fresh : name ∉ entries.map Prod.fst) (value : α) :
    Named.put entries name value = entries ++ [(name, value)] := by
  have absent : ¬ entries.any (·.1 == name) = true := by
    intro present
    obtain ⟨entry, mem, same⟩ := List.any_eq_true.1 present
    exact fresh (List.mem_map.2 ⟨entry, mem, beq_iff_eq.1 same⟩)
  rw [Named.put, if_neg absent]

theorem notMem_of_nodup {names names' : List String} {name : String}
    (distinct : (names ++ name :: names').Nodup) : name ∉ names := by
  intro mem
  exact List.disjoint_of_nodup_append distinct mem (List.mem_cons_self ..)

/-- The next character ends a value inside an array or an object. -/
theorem stops_inNumber_of_mark {c : Char} (mark : c = ',' ∨ c = ']' ∨ c = '\x7d') (cs : List Char) :
    Stops inNumber (c :: cs) := by
  rcases mark with rfl | rfl | rfl <;> exact stops_cons_iff.2 (by decide)

theorem finds_label (name : String) (rest : List Char) :
    Finds (readText (name.toList.flatMap escapeChar ++ '"' :: rest) []
      (name.toList.flatMap escapeChar ++ '"' :: rest) (Nat.le_refl _)) name rest := by
  have found := finds_text (name.toList.flatMap escapeChar ++ '"' :: rest) [] name.toList rest
    (Nat.le_refl _)
  rwa [List.reverse_nil, List.nil_append, String.ofList_toList] at found

theorem exists_writeItems_cons {item item' : Json} {depth : Nat}
    (read : reread? item depth = some item') (items : List Json) :
    ∃ c cs, writeItems (item :: items) = c :: cs ∧ isBlank c = false ∧ c ≠ ']' := by
  obtain ⟨c, cs, split, plain, other⟩ := exists_write_cons read
  cases items with
  | nil => exact ⟨c, _, by rw [writeItems, split, List.cons_append], plain, other⟩
  | cons next items => exact ⟨c, _, by rw [writeItems, split, List.cons_append]; nofun, plain, other⟩

theorem writeFields_cons (name : String) (value : Json) (fields : List (String × Json)) :
    ∃ cs, writeFields ((name, value) :: fields) = '"' :: cs := by
  cases fields <;> exact ⟨_, rfl⟩

theorem skipBlanks_write {j j' : Json} {depth : Nat} (read : reread? j depth = some j')
    (rest : List Char) : skipBlanks (write j ++ rest) = write j ++ rest := by
  obtain ⟨c, cs, split, plain, -⟩ := exists_write_cons read
  rw [split, List.cons_append, skipBlanks_of_cons plain]

theorem eq_of_rereadItems?_cons {item : Json} {items items' : List Json} {depth : Nat}
    (read : rereadItems? (item :: items) depth = some items') :
    ∃ item' others', reread? item depth = some item' ∧ rereadItems? items depth = some others' ∧
      items' = item' :: others' := by
  obtain ⟨item', first, mapped⟩ := Option.bind_eq_some_iff.1 (by rwa [rereadItems?] at read)
  obtain ⟨others', others, rfl⟩ := Option.map_eq_some_iff.1 mapped
  exact ⟨item', others', first, others, rfl⟩

theorem eq_of_rereadFields?_cons {name : String} {value : Json}
    {fields fields' : List (String × Json)} {depth : Nat}
    (read : rereadFields? ((name, value) :: fields) depth = some fields') :
    ∃ value' others', reread? value depth = some value' ∧
      rereadFields? fields depth = some others' ∧ fields' = (name, value') :: others' := by
  obtain ⟨value', first, mapped⟩ := Option.bind_eq_some_iff.1 (by rwa [rereadFields?] at read)
  obtain ⟨others', others, rfl⟩ := Option.map_eq_some_iff.1 mapped
  exact ⟨value', others', first, others, rfl⟩

mutual

/-- The text of a value is read up to its end. -/
theorem finds_write : ∀ {j j' : Json} {depth : Nat}, reread? j depth = some j' →
    ∀ {rest : List Char}, Stops inNumber rest →
    ∀ {whole : List Char} (h : (write j ++ rest).length ≤ whole.length),
      Finds (readValue depth whole (write j ++ rest) h) j' rest
  | null, _, _, read, rest, _, whole, h => by
    cases read
    exact ⟨by simp [write] at h; omega, by simp [write, readValue, readWord?]⟩
  | boolean true, _, _, read, rest, _, whole, h => by
    cases read
    exact ⟨by simp [write] at h; omega, by simp [write, readValue, readWord?]⟩
  | boolean false, _, _, read, rest, _, whole, h => by
    cases read
    exact ⟨by simp [write] at h; omega, by simp [write, readValue, readWord?]⟩
  | text s, _, _, read, rest, _, whole, h => by
    cases read
    simp only [write, writeText, List.cons_append, List.append_assoc, List.nil_append] at h ⊢
    obtain ⟨shorter, found⟩ := finds_text whole [] s.toList rest (Nat.le_of_succ_le h)
    refine ⟨shorter, ?_⟩
    rw [readValue, found, List.reverse_nil, List.nil_append, String.ofList_toList]
    rfl
  | number (.double _), _, _, read, _, _, _, _ => by simp [reread?] at read
  | number (.whole v), _, depth, read, rest, stops, whole, h => by
    rw [reread?] at read
    obtain ⟨value, meant, rfl⟩ := Option.map_eq_some_iff.1 read
    obtain ⟨shorter, found⟩ := finds_number meant stops h
    obtain ⟨c, cs, split, start⟩ := exists_signed_cons v
    refine ⟨shorter, ?_⟩
    simp only [write, writeNumber, split, List.cons_append] at found h ⊢
    rw [readValue_of_number start, found]
    rfl
  | array [], _, depth + 1, read, rest, _, whole, h => by
    cases read
    simp only [write, writeItems] at h ⊢
    exact finds_array_nil h
  | array (item :: items), _, depth + 1, read, rest, _, whole, h => by
    rw [reread?] at read
    obtain ⟨items', read', rfl⟩ := Option.map_eq_some_iff.1 read
    obtain ⟨item', _, first, -, -⟩ := eq_of_rereadItems?_cons read'
    have found (h' : (writeItems (item :: items) ++ rest).length ≤ whole.length) :=
      finds_writeItems (List.cons_ne_nil _ _) read' [] h'
    obtain ⟨c, cs, split, plain, other⟩ := exists_writeItems_cons first items
    simp only [write, split, List.cons_append] at found h ⊢
    exact finds_array plain other h found
  | object [], _, depth + 1, read, rest, _, whole, h => by
    cases read
    simp only [write, writeFields] at h ⊢
    exact finds_object_nil h
  | object ((name, value) :: fields), _, depth + 1, read, rest, _, whole, h => by
    rw [reread?] at read
    split at read
    · next distinct =>
      obtain ⟨fields', read', rfl⟩ := Option.map_eq_some_iff.1 read
      have found (h' : (writeFields ((name, value) :: fields) ++ rest).length ≤ whole.length) :=
        finds_writeFields (List.cons_ne_nil _ _) read' [] h' (by simpa using distinct)
      obtain ⟨cs, split⟩ := writeFields_cons name value fields
      simp only [write, split, List.cons_append] at found h ⊢
      exact finds_object h found
    · cases read
  | array _, _, 0, read, _, _, _, _ => by simp [reread?] at read
  | object _, _, 0, read, _, _, _, _ => by simp [reread?] at read

theorem finds_writeItems : ∀ {items items' : List Json} {depth : Nat},
    items ≠ [] → rereadItems? items depth = some items' →
    ∀ {rest : List Char} {whole : List Char} (done : List Json)
      (h : (writeItems items ++ rest).length ≤ whole.length),
      Finds (readItems depth whole done (writeItems items ++ rest) h) (array (done.reverse ++ items'))
        rest
  | [], _, _, empty, _, _, _, _, _ => absurd rfl empty
  | [item], _, depth, _, read, rest, whole, done, h => by
    obtain ⟨item', _, first, none, rfl⟩ := eq_of_rereadItems?_cons read
    cases none
    simp only [writeItems, List.append_assoc] at h ⊢
    exact finds_items_end (finds_write first (stops_inNumber_of_mark (by decide) _) _) h
  | item :: next :: items, _, depth, _, read, rest, whole, done, h => by
    obtain ⟨item', others', first, others, rfl⟩ := eq_of_rereadItems?_cons read
    obtain ⟨next', _, second, -, -⟩ := eq_of_rereadItems?_cons others
    obtain ⟨c, cs, split, plain, -⟩ := exists_writeItems_cons second items
    have kept : skipBlanks (writeItems (next :: items) ++ rest) =
        writeItems (next :: items) ++ rest := by
      rw [split, List.cons_append, skipBlanks_of_cons plain]
    simp only [writeItems, List.append_assoc, List.cons_append] at h ⊢
    refine finds_items_next (finds_write first (stops_inNumber_of_mark (by decide) _) _) kept h ?_
    intro h'
    have found := finds_writeItems (List.cons_ne_nil _ _) others (item' :: done) h'
    rwa [List.reverse_cons, List.append_assoc] at found

theorem finds_writeFields : ∀ {fields fields' : List (String × Json)} {depth : Nat},
    fields ≠ [] → rereadFields? fields depth = some fields' →
    ∀ {rest : List Char} {whole : List Char} (done : List (String × Json))
      (h : (writeFields fields ++ rest).length ≤ whole.length),
      (done.map Prod.fst ++ fields.map Prod.fst).Nodup →
      Finds (readFields depth whole done (writeFields fields ++ rest) h) (object (done ++ fields'))
        rest
  | [], _, _, empty, _, _, _, _, _, _ => absurd rfl empty
  | [(name, value)], _, _, _, read, rest, whole, done, h, distinct => by
    obtain ⟨value', _, first, none, rfl⟩ := eq_of_rereadFields?_cons read
    cases none
    rw [← Named.put_of_notMem (notMem_of_nodup distinct)]
    simp only [writeFields, writeText, List.append_assoc, List.cons_append, List.nil_append] at h ⊢
    exact finds_fields_end (finds_label name _) (skipBlanks_write first _)
      (finds_write first (stops_inNumber_of_mark (by decide) _) _) h
  | (name, value) :: next :: fields, _, _, _, read, rest, whole, done, h, distinct => by
    obtain ⟨value', others', first, others, rfl⟩ := eq_of_rereadFields?_cons read
    obtain ⟨cs, split⟩ := writeFields_cons next.1 next.2 fields
    have kept : skipBlanks (writeFields (next :: fields) ++ rest) =
        writeFields (next :: fields) ++ rest := by
      rw [split, List.cons_append, skipBlanks_of_cons (by decide)]
    simp only [writeFields, writeText, List.append_assoc, List.cons_append, List.nil_append] at h ⊢
    refine finds_fields_next (finds_label name _) (skipBlanks_write first _)
      (finds_write first (stops_inNumber_of_mark (by decide) _) _) kept h ?_
    intro h'
    rw [Named.put_of_notMem (notMem_of_nodup distinct)]
    have found := finds_writeFields (List.cons_ne_nil _ _) others (done ++ [(name, value')]) h'
      (by simpa using distinct)
    rwa [List.append_assoc] at found

end

/-- The compact text of a value is read as the value, but for numbers. -/
theorem read_compact {j j' : Json} (meant : reread? j maxDepth = some j') :
    read j.compact = .ok j' := by
  have kept : skipBlanks j.compact.toList = write j ++ [] := by
    rw [compact, String.toList_ofList, ← skipBlanks_write meant, List.append_nil]
  obtain ⟨shorter, found⟩ : Finds (readValue maxDepth (skipBlanks j.compact.toList)
      (skipBlanks j.compact.toList) (Nat.le_refl _)) j' [] := by
    rw [kept]
    exact finds_write meant (.nil _) _
  rw [read, readWithin]
  dsimp only
  rw [found]
  rfl

/-- The compact text of a value is one line. -/
theorem newline_notMem_compact (j : Json) : '\n' ∉ j.compact.toList := by
  rw [compact, String.toList_ofList]
  exact (printable_write j).newline_notMem

end Json

end HalfBinary
