import Mathlib
import HalfBinary.Comparator
import HalfBinary.Proofs.Decimals
import HalfBinary.Proofs.Trees

/-!
# What comparisons mean

A comparison is resolved by converting its literal if it is of the family of the type, and otherwise
by leaving equality alone (`resolve_eq_ok_iff`). Tests are read off the conversion.
-/

namespace HalfBinary

/-! ### Conversions -/

/-- The literals of the family of a scalar kind. -/
def ScalarKind.admits : ScalarKind → Literal → Bool
  | integer, l | decimal, l => l.isNumeric
  | text, .text _ | date, .text _ | dateTime, .text _ | boolean, .boolean _ => true
  | _, _ => false

/-- A literal is converted to an operand of the family of a type. -/
inductive Converts (valueType : TypeDescriptor) : Literal → Operand → Prop
  | integer {kind : ScalarKind} (scalar : valueType.scalarKind? = some kind)
      (numeric : kind.isNumeric = true) (v : Int) : Converts valueType (.integer v) (.integer v)
  | decimal {kind : ScalarKind} (scalar : valueType.scalarKind? = some kind)
      (numeric : kind.isNumeric = true) (d : Decimal) : Converts valueType (.decimal d) (.decimal d)
  | text (scalar : valueType.scalarKind? = some .text) (s : String) :
      Converts valueType (.text s) (.text s)
  | boolean (scalar : valueType.scalarKind? = some .boolean) (b : Bool) :
      Converts valueType (.boolean b) (.boolean b)
  | date (scalar : valueType.scalarKind? = some .date) {s : String} {day : Date}
      (parsed : Date.ofText? s = some day) : Converts valueType (.text s) (.date day)
  | dateTime (scalar : valueType.scalarKind? = some .dateTime) {s : String} {i : Instant}
      (parsed : Instant.ofText? s = some i) : Converts valueType (.text s) (.instant i)

/-- The type has no family that the literal is of. -/
def TypeDescriptor.IsForeign (d : TypeDescriptor) (l : Literal) : Prop :=
  ∀ kind, d.scalarKind? = some kind → kind.admits l = false

namespace Comparator

section

variable {valueType : TypeDescriptor} {op : Operator} {l : Literal} {offset : Nat}

theorem resolve_of_converts {operand : Operand} (converts : Converts valueType l operand) :
    resolve valueType ⟨op, l, offset⟩ = .ok ⟨op, operand⟩ := by
  cases converts with
  | integer scalar numeric v | decimal scalar numeric v =>
    rename_i kind
    cases kind with
    | integer | decimal => simp [resolve, scalar]
    | text | boolean | date | dateTime => cases numeric
  | text scalar s | boolean scalar b => simp [resolve, scalar]
  | date scalar parsed | dateTime scalar parsed => simp [resolve, scalar, parsed]

/-- A foreign literal leaves equality. -/
theorem resolve_of_isForeign (foreign : valueType.IsForeign l) :
    resolve valueType ⟨op, l, offset⟩ =
      if op.requiresOrdering then .error (.incomparableTypes op valueType.name l.typeName)
      else .ok ⟨op, .literal l⟩ := by
  rcases scalar : valueType.scalarKind? with _ | kind
  · simp only [resolve, scalar]
  · have other := foreign kind scalar
    cases kind <;> cases l <;> first | (simp only [resolve, scalar]; done) | cases other

theorem converts_of_resolve {kind : ScalarKind} (scalar : valueType.scalarKind? = some kind)
    (admits : kind.admits l = true) {k : Comparator}
    (h : resolve valueType ⟨op, l, offset⟩ = .ok k) :
    k.operator = op ∧ Converts valueType l k.operand := by
  simp only [resolve, scalar] at h
  cases kind with
  | integer | decimal =>
    cases l with
    | null | boolean _ | text _ => cases admits
    | integer v =>
      cases h
      exact ⟨rfl, .integer scalar rfl v⟩
    | decimal d =>
      cases h
      exact ⟨rfl, .decimal scalar rfl d⟩
  | text =>
    cases l with
    | null | boolean _ | integer _ | decimal _ => cases admits
    | text s =>
      cases h
      exact ⟨rfl, .text scalar s⟩
  | boolean =>
    cases l with
    | null | integer _ | decimal _ | text _ => cases admits
    | boolean b =>
      cases h
      exact ⟨rfl, .boolean scalar b⟩
  | date =>
    cases l with
    | null | boolean _ | integer _ | decimal _ => cases admits
    | text s =>
      dsimp only at h
      split at h
      · next day parsed =>
        cases h
        exact ⟨rfl, .date scalar parsed⟩
      · cases h
  | dateTime =>
    cases l with
    | null | boolean _ | integer _ | decimal _ => cases admits
    | text s =>
      dsimp only at h
      split at h
      · next i parsed =>
        cases h
        exact ⟨rfl, .dateTime scalar parsed⟩
      · cases h

end

theorem resolve_eq_ok_iff {valueType : TypeDescriptor} {c : Comparison} {k : Comparator} :
    resolve valueType c = .ok k ↔ k.operator = c.operator ∧
      (Converts valueType c.literal k.operand ∨
        valueType.IsForeign c.literal ∧ c.operator.requiresOrdering = false ∧
          k.operand = .literal c.literal) := by
  obtain ⟨op, l, offset⟩ := c
  obtain ⟨op', operand⟩ := k
  constructor
  · intro h
    by_cases foreign : valueType.IsForeign l
    · rw [resolve_of_isForeign foreign] at h
      split at h
      · cases h
      · next unordered =>
        cases h
        exact ⟨rfl, .inr ⟨foreign, by simpa using unordered, rfl⟩⟩
    · obtain ⟨kind, scalar, admits⟩ : ∃ kind, valueType.scalarKind? = some kind ∧
          kind.admits l = true := by simpa [TypeDescriptor.IsForeign] using foreign
      obtain ⟨operator, converts⟩ := converts_of_resolve scalar admits h
      exact ⟨operator, .inl converts⟩
  · rintro ⟨operator, converts | ⟨foreign, unordered, same⟩⟩
    · cases operator
      exact resolve_of_converts converts
    · cases operator
      cases same
      rw [resolve_of_isForeign foreign]
      exact if_neg (by simpa using unordered)

/-- The position of a comparison matters to faults only. -/
theorem resolve_plain_eq_ok_iff {valueType : TypeDescriptor} {c : Comparison} {k : Comparator} :
    resolve valueType c.plain = .ok k ↔ resolve valueType c = .ok k := by
  rw [resolve_eq_ok_iff, resolve_eq_ok_iff]
  rfl

end Comparator

/-! ### Equality -/

/-- A literal denotes a value; numbers are the same if their values are. -/
def Literal.Denotes (value : Json) : Literal → Prop
  | null => value = .null
  | boolean b => value = .boolean b
  | text s => value = .text s
  | integer n => ∃ x : Number, value = .number x ∧ x.toRat = n
  | decimal d => ∃ x : Number, value = .number x ∧ x.toRat = d.toRat

/-- A value of a type equals a literal. Dates and timestamps are equal if they are the same day or
the same instant, however they are written. -/
def TypeDescriptor.Equals (d : TypeDescriptor) (value : Json) (l : Literal) : Prop :=
  match d.scalarKind?, l with
  | some .date, .text s =>
    ∃ t day, value = .text t ∧ Date.ofText? t = some day ∧ Date.ofText? s = some day
  | some .dateTime, .text s =>
    ∃ t instant, value = .text t ∧ Instant.ofText? t = some instant ∧
      Instant.ofText? s = some instant
  | _, l => l.Denotes value

theorem Literal.denotes_eq_true_iff {value : Json} {l : Literal} :
    l.denotes value = true ↔ l.Denotes value := by
  cases l with
  | null | boolean _ | text _ => cases value <;> simp [denotes, Denotes]
  | integer n => cases value <;> simp [denotes, Denotes, Number.compareInteger_eq]
  | decimal d =>
    cases value <;> simp [denotes, Denotes, Decimal.compare_eq_compare_toRat, Number.toRat]

namespace Operand

variable {value : Json}

theorem ordering?_integer (n : Int) (x : Number) :
    (integer n).ordering? (.number x) = some (compare x.toRat n) := by
  rw [ordering?, Number.compareInteger_eq]

theorem ordering?_decimal (d : Decimal) (x : Number) :
    (decimal d).ordering? (.number x) = some (compare x.toRat d.toRat) := by
  rw [ordering?, Decimal.compare_eq_compare_toRat]
  rfl

theorem ordering?_integer_eq_iff {n : Int} :
    (integer n).ordering? value = some .eq ↔ (Literal.integer n).Denotes value := by
  cases value <;> simp [ordering?_integer, Literal.Denotes]
  all_goals simp [ordering?]

theorem ordering?_decimal_eq_iff {d : Decimal} :
    (decimal d).ordering? value = some .eq ↔ (Literal.decimal d).Denotes value := by
  cases value <;> simp [ordering?_decimal, Literal.Denotes]
  all_goals simp [ordering?]

theorem ordering?_text_eq_iff {s : String} :
    (text s).ordering? value = some .eq ↔ (Literal.text s).Denotes value := by
  cases value <;> simp [ordering?, Literal.Denotes]

theorem ordering?_boolean_eq_iff {b : Bool} :
    (boolean b).ordering? value = some .eq ↔ (Literal.boolean b).Denotes value := by
  cases value <;> simp [ordering?, Literal.Denotes]

theorem ordering?_date_eq_iff {day : Date} :
    (date day).ordering? value = some .eq ↔ ∃ t, value = .text t ∧ Date.ofText? t = some day := by
  cases value <;> simp [ordering?]

theorem ordering?_instant_eq_iff {i : Instant} :
    (instant i).ordering? value = some .eq ↔ ∃ t, value = .text t ∧ Instant.ofText? t = some i := by
  cases value <;> simp [ordering?]

end Operand

theorem TypeDescriptor.equals_of_isForeign {d : TypeDescriptor} {l : Literal}
    (foreign : d.IsForeign l) (value : Json) : d.Equals value l ↔ l.Denotes value := by
  unfold Equals
  split
  · next scalar => cases foreign _ scalar
  · next scalar => cases foreign _ scalar
  · rfl

namespace Converts

variable {valueType : TypeDescriptor} {l : Literal} {operand : Operand}

theorem typed (converts : Converts valueType l operand) : ∀ l', operand ≠ .literal l' := by
  cases converts <;> nofun

/-- What compares as equal with a converted literal is what equals the literal. -/
theorem ordering?_eq_iff (converts : Converts valueType l operand) {value : Json} :
    operand.ordering? value = some .eq ↔ valueType.Equals value l := by
  unfold TypeDescriptor.Equals
  cases converts with
  | integer scalar numeric v =>
    rw [Operand.ordering?_integer_eq_iff]
    split <;> first | contradiction | rfl
  | decimal scalar numeric d =>
    rw [Operand.ordering?_decimal_eq_iff]
    split <;> first | contradiction | rfl
  | text scalar s =>
    rw [scalar]
    exact Operand.ordering?_text_eq_iff
  | boolean scalar b =>
    rw [scalar]
    exact Operand.ordering?_boolean_eq_iff
  | date scalar parsed =>
    rw [scalar, Operand.ordering?_date_eq_iff]
    simp [parsed]
  | dateTime scalar parsed =>
    rw [scalar, Operand.ordering?_instant_eq_iff]
    simp [parsed]

end Converts

namespace Comparator

/-- What a comparison says of a value of a type. -/
def meaning (valueType : TypeDescriptor) (value : Json) (c : Comparison) : Bool :=
  match resolve valueType c with
  | .ok k => k.test value
  | .error _ => false

/-- A comparison has a comparator. -/
def Resolves (valueType : TypeDescriptor) (c : Comparison) : Prop :=
  ∃ k, resolve valueType c = .ok k

theorem meaning_plain (valueType : TypeDescriptor) (value : Json) (c : Comparison) :
    meaning valueType value c.plain = meaning valueType value c := by
  have same := @resolve_plain_eq_ok_iff valueType c
  rw [meaning, meaning]
  split
  · next k resolved => rw [same.1 resolved]
  · next fault =>
    split
    · next k resolved => rw [same.2 resolved] at fault; cases fault
    · rfl

theorem test_typed (operand : Operand) (typed : ∀ l, operand ≠ .literal l) (op : Operator)
    (value : Json) :
    (⟨op, operand⟩ : Comparator).test value =
      match operand.ordering? value with
      | some o => op.accepts o
      | none => op = .ne := by
  rw [test]
  split
  · next l same => exact absurd same (typed l)
  · rfl

theorem test_eq_typed (operand : Operand) (typed : ∀ l, operand ≠ .literal l) {value : Json} :
    (⟨.eq, operand⟩ : Comparator).test value = true ↔ operand.ordering? value = some .eq := by
  rw [test_typed operand typed]
  rcases operand.ordering? value with _ | o
  · simp
  · cases o <;> simp [Operator.accepts]

/-- The comparator of `==` finds the values that equal its literal. -/
theorem test_eq_iff {valueType : TypeDescriptor} {l : Literal} {offset : Nat} {k : Comparator}
    (h : resolve valueType ⟨.eq, l, offset⟩ = .ok k) (value : Json) :
    k.test value = true ↔ valueType.Equals value l := by
  obtain ⟨op, operand⟩ := k
  obtain ⟨operator, converts | ⟨foreign, -, same⟩⟩ := resolve_eq_ok_iff.1 h
  · cases operator
    rw [test_eq_typed operand converts.typed, converts.ordering?_eq_iff]
  · cases operator
    cases same
    rw [TypeDescriptor.equals_of_isForeign foreign, ← Literal.denotes_eq_true_iff]
    rfl

theorem meaning_eq_iff {valueType : TypeDescriptor} {l : Literal} {offset : Nat}
    (resolves : Resolves valueType ⟨.eq, l, offset⟩) (value : Json) :
    meaning valueType value ⟨.eq, l, offset⟩ = true ↔ valueType.Equals value l := by
  obtain ⟨k, resolved⟩ := resolves
  rw [meaning, resolved]
  exact test_eq_iff resolved value

end Comparator

/-! ### Numbers by value -/

/-- Whether a value compares with a number as an operator asks. -/
def Operator.holdsOf (op : Operator) (q : ℚ) : Json → Bool
  | .number x => op.accepts (compare x.toRat q)
  | _ => op = .ne

namespace Comparator

variable {valueType : TypeDescriptor} {op : Operator} {l : Literal} {q : ℚ} {offset : Nat}

theorem test_integer (n : Int) (value : Json) :
    (⟨op, .integer n⟩ : Comparator).test value = op.holdsOf n value := by
  rw [test_typed (.integer n) nofun]
  cases value with
  | number x => rw [Operand.ordering?_integer, Operator.holdsOf]
  | _ => rfl

theorem test_decimal (d : Decimal) (value : Json) :
    (⟨op, .decimal d⟩ : Comparator).test value = op.holdsOf d.toRat value := by
  rw [test_typed (.decimal d) nofun]
  cases value with
  | number x => rw [Operand.ordering?_decimal, Operator.holdsOf]
  | _ => rfl

theorem test_literal (number : l.toRat? = some q) (unordered : op.requiresOrdering = false)
    (value : Json) : (⟨op, .literal l⟩ : Comparator).test value = op.holdsOf q value := by
  have denoted : l.denotes value = Operator.eq.holdsOf q value := by
    cases l with
    | null | boolean _ | text _ => cases number
    | integer n =>
      cases number
      cases value <;>
        simp [Literal.denotes, Operator.holdsOf, Operator.accepts, Number.compareInteger_eq]
    | decimal d =>
      cases number
      cases value <;>
        simp [Literal.denotes, Operator.holdsOf, Operator.accepts, Decimal.compare_eq_compare_toRat,
          Number.toRat]
  have tested : (⟨op, .literal l⟩ : Comparator).test value =
      if op = .ne then !l.denotes value else l.denotes value := rfl
  rw [tested, denoted]
  -- Only `==` and `!=` have comparators where there is no order, and each negates the other.
  cases op with
  | lt | le | gt | ge => cases unordered
  | eq => rfl
  | ne =>
    cases value with
    | number x => simp [Operator.holdsOf, Operator.accepts]
    | _ => rfl

/-- A number is compared by value, whether or not its type has an order. -/
theorem test_number (number : l.toRat? = some q) {k : Comparator}
    (h : resolve valueType ⟨op, l, offset⟩ = .ok k) (value : Json) :
    k.test value = op.holdsOf q value := by
  obtain ⟨op', operand⟩ := k
  obtain ⟨operator, converts | ⟨-, unordered, same⟩⟩ := resolve_eq_ok_iff.1 h
  · cases operator
    cases converts with
    | integer _ _ v =>
      cases number
      exact test_integer v value
    | decimal _ _ d =>
      cases number
      exact test_decimal d value
    | text | boolean | date | dateTime => cases number
  · cases operator
    cases same
    exact test_literal number unordered value

/-- Whether a comparison with a number has a comparator depends on the type and the operator. -/
theorem resolves_number_iff (number : l.toRat? = some q) :
    Resolves valueType ⟨op, l, offset⟩ ↔
      valueType.scalarKind?.any (·.isNumeric) = true ∨ op.requiresOrdering = false := by
  unfold Resolves resolve
  cases l with
  | null | boolean _ | text _ => cases number
  | integer _ | decimal _ =>
    rcases kind : valueType.scalarKind? with _ | kind'
    · cases op.requiresOrdering <;> simp
    · cases kind' <;> cases op.requiresOrdering <;> simp [ScalarKind.isNumeric]

end Comparator

end HalfBinary
