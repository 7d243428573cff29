import Mathlib
import HalfBinary.Proofs.Preorders

/-!
# One equality for all types

A literal that is not read as a date or a timestamp is equal to the same values whatever the type:
the order of converted values, and the look at the literal where there is no order, come to what the
literal denotes (`resolve_equality`).
-/

namespace HalfBinary

/-- Texts of these kinds are read as days or as instants. -/
def ScalarKind.isTemporal : ScalarKind → Bool
  | date | dateTime => true
  | integer | decimal | text | boolean => false

/-- A type leaves a literal as it is written: it reads no texts, or the literal is none. -/
def TypeDescriptor.Keeps (d : TypeDescriptor) (l : Literal) : Prop :=
  (∀ kind, d.scalarKind? = some kind → kind.isTemporal = false) ∨ ∀ s, l ≠ .text s

namespace TypeDescriptor

variable {d : TypeDescriptor} {l : Literal}

theorem Keeps.not_temporal {kind : ScalarKind} {s : String} (keeps : d.Keeps (.text s))
    (scalar : d.scalarKind? = some kind) : kind.isTemporal = false := by
  rcases keeps with plain | noText
  · exact plain kind scalar
  · exact absurd rfl (noText s)

/-- What equals a literal that is kept is what the literal denotes. -/
theorem Keeps.equals_iff (keeps : d.Keeps l) (value : Json) :
    d.Equals value l ↔ l.Denotes value := by
  unfold Equals
  split
  · next scalar => cases keeps.not_temporal scalar
  · next scalar => cases keeps.not_temporal scalar
  · rfl

/-- A literal that is kept is of the family of the type, and then it converts, or it is foreign. -/
theorem Keeps.converts_or_isForeign (keeps : d.Keeps l) :
    (∃ operand, Converts d l operand) ∨ d.IsForeign l := by
  by_cases foreign : d.IsForeign l
  · exact .inr foreign
  · obtain ⟨kind, scalar, admits⟩ : ∃ kind, d.scalarKind? = some kind ∧ kind.admits l = true := by
      simpa [IsForeign] using foreign
    left
    cases l with
    | null => cases kind <;> cases admits
    | boolean b =>
      cases kind with
      | boolean => exact ⟨_, .boolean scalar b⟩
      | integer | decimal | text | date | dateTime => cases admits
    | integer v =>
      cases kind with
      | integer | decimal => exact ⟨_, .integer scalar rfl v⟩
      | text | boolean | date | dateTime => cases admits
    | decimal v =>
      cases kind with
      | integer | decimal => exact ⟨_, .decimal scalar rfl v⟩
      | text | boolean | date | dateTime => cases admits
    | text s =>
      cases kind with
      | text => exact ⟨_, .text scalar s⟩
      | integer | decimal | boolean => cases admits
      | date | dateTime => cases keeps.not_temporal scalar

end TypeDescriptor

theorem Literal.denotes_number_iff {l : Literal} {q : ℚ} (number : l.toRat? = some q) (x : Number) :
    l.Denotes (.number x) ↔ x.toRat = q := by
  cases l with
  | null | boolean _ | text _ => cases number
  | integer _ | decimal _ =>
    cases number
    simp [Denotes]

namespace Comparator

variable {d : TypeDescriptor} {l : Literal}

/-- Both operators of equality resolve to one operand, and `==` finds what the literal denotes. -/
theorem exists_operand_of_keeps (keeps : d.Keeps l) : ∃ operand,
    (∀ op offset, op.requiresOrdering = false → resolve d ⟨op, l, offset⟩ = .ok ⟨op, operand⟩) ∧
      ∀ value, (⟨.eq, operand⟩ : Comparator).test value = l.denotes value := by
  have finds {operand : Operand} (resolved : resolve d ⟨.eq, l, 0⟩ = .ok ⟨.eq, operand⟩)
      (value : Json) : (⟨.eq, operand⟩ : Comparator).test value = l.denotes value := by
    rw [Bool.eq_iff_iff, test_eq_iff resolved, keeps.equals_iff, Literal.denotes_eq_true_iff]
  rcases keeps.converts_or_isForeign with ⟨operand, converts⟩ | foreign
  · have resolved (op : Operator) (offset : Nat) :
        resolve d ⟨op, l, offset⟩ = .ok ⟨op, operand⟩ := resolve_of_converts converts
    exact ⟨operand, fun op offset _ => resolved op offset, finds (resolved .eq 0)⟩
  · have resolved (op : Operator) (offset : Nat) (unordered : op.requiresOrdering = false) :
        resolve d ⟨op, l, offset⟩ = .ok ⟨op, .literal l⟩ := by
      rw [resolve_of_isForeign foreign, unordered]
      rfl
    exact ⟨.literal l, resolved, finds (resolved .eq 0 rfl)⟩

/-- Two types that leave a literal as it is written agree on it: whether they order it or not, both
have a comparator for `==` and for `!=`, and it is true of the same values as the one that looks at
the literal alone. These are what the literal denotes, or everything else, and a number denotes all
numbers of its value. -/
theorem resolve_equality {d d' : TypeDescriptor} {l : Literal} {op : Operator}
    (equality : op = .eq ∨ op = .ne) (keeps : d.Keeps l) (keeps' : d'.Keeps l)
    (offset offset' : Nat) :
    ∃ k k', resolve d ⟨op, l, offset⟩ = .ok k ∧ resolve d' ⟨op, l, offset'⟩ = .ok k' ∧
      (∀ value, k.test value = k'.test value ∧
        k.test value = (⟨op, .literal l⟩ : Comparator).test value ∧
        (k.test value = true ↔ (op = .eq ↔ l.Denotes value))) ∧
      ∀ q, l.toRat? = some q → ∀ x : Number,
        (k.test (.number x) = true ↔ (op = .eq ↔ x.toRat = q)) := by
  obtain ⟨operand, resolved, finds⟩ := exists_operand_of_keeps keeps
  obtain ⟨operand', resolved', finds'⟩ := exists_operand_of_keeps keeps'
  have unordered : op.requiresOrdering = false := by rcases equality with rfl | rfl <;> rfl
  have tested (x : Operand) (equal : ∀ value, (⟨.eq, x⟩ : Comparator).test value = l.denotes value)
      (value : Json) : (⟨op, x⟩ : Comparator).test value =
        if op = .ne then !l.denotes value else l.denotes value := by
    rcases equality with rfl | rfl
    · exact equal value
    · rw [test_ne, equal]
      rfl
  have meant (value : Json) :
      (⟨op, operand⟩ : Comparator).test value = true ↔ (op = .eq ↔ l.Denotes value) := by
    rw [tested operand finds, ← Literal.denotes_eq_true_iff]
    rcases equality with rfl | rfl <;> simp
  refine ⟨_, _, resolved op offset unordered, resolved' op offset' unordered, ?_, ?_⟩
  · intro value
    exact ⟨(tested operand finds value).trans (tested operand' finds' value).symm,
      tested operand finds value, meant value⟩
  · intro q number x
    rw [meant, Literal.denotes_number_iff number]

/-- A type of integers orders two and a half, an atom does not, and a type of dates keeps what is no
text. All of them tell two from two and a half. -/
theorem resolve_equality_half :
    ∃ k k' k'', resolve ⟨"Integer", .scalar .integer⟩ ⟨.ne, .decimal ⟨250, 2⟩, 0⟩ = .ok k ∧
      resolve ⟨"Blob", .atom⟩ ⟨.ne, .decimal ⟨250, 2⟩, 4⟩ = .ok k' ∧
      resolve ⟨"LocalDate", .scalar .date⟩ ⟨.ne, .decimal ⟨250, 2⟩, 9⟩ = .ok k'' ∧
      k.operand ≠ k'.operand ∧
      (∀ value, k.test value = k'.test value ∧ k.test value = k''.test value) ∧
      k.test (.whole 2) = true := by
  have keeps (d : TypeDescriptor) : d.Keeps (.decimal ⟨250, 2⟩) := .inr fun s => by simp
  obtain ⟨k, k', resolved, resolved', agree, -⟩ :=
    resolve_equality (.inr rfl) (keeps ⟨"Integer", .scalar .integer⟩) (keeps ⟨"Blob", .atom⟩) 0 4
  obtain ⟨_, k'', again, resolved'', agree', numbers⟩ :=
    resolve_equality (.inr rfl) (keeps ⟨"Integer", .scalar .integer⟩)
      (keeps ⟨"LocalDate", .scalar .date⟩) 0 9
  cases resolved.symm.trans again
  have half : Literal.toRat? (.decimal ⟨250, 2⟩) = some (5 / 2) := by
    rw [Literal.toRat?, Decimal.toRat]
    norm_num
  refine ⟨k, k', k'', resolved, resolved', resolved'', ?_,
    fun value => ⟨(agree value).1, (agree' value).1⟩, ?_⟩
  · cases resolved
    cases resolved'
    simp
  · have two : (Number.whole 2).toRat = 2 := Decimal.toRat_ofInt 2
    refine (numbers (5 / 2) half (.whole 2)).2 (iff_of_false (by decide) ?_)
    rw [two]
    norm_num

/-- A type of dates reads texts as days, so that it does not agree with a type of texts. -/
example : (resolve ⟨"LocalDate", .scalar .date⟩ ⟨.eq, .text "2024-02-09", 0⟩).toOption.map
      (·.test (.text "2024-2-9")) = some true ∧
    (resolve ⟨"String", .scalar .text⟩ ⟨.eq, .text "2024-02-09", 0⟩).toOption.map
      (·.test (.text "2024-2-9")) = some false := by decide +kernel

end Comparator

end HalfBinary
