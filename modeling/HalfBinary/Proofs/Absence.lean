import Mathlib
import HalfBinary.Proofs.Meaning
import HalfBinary.Proofs.Preorders

/-!
# Missing values

What a fact lacks is read as `null`, and `null` passes no comparison but `!=`, unless the literal is
`null` as well. As no chain of a parsed clause is empty, this carries over to whole clauses
(`evaluate_of_misses`).
-/

namespace HalfBinary

/-! ### Paths that a fact lacks -/

/-- A path leads to nothing: on the way there is a `null`, a value that is no object, or an object
without the next key. -/
inductive Misses : List ResolvedSegment → Json → Prop
  | null (segments : List ResolvedSegment) : Misses segments .null
  | noObject {segment : ResolvedSegment} (field : segment.access = .field)
      (segments : List ResolvedSegment) {value : Json}
      (other : ∀ fields, value ≠ .object fields) : Misses (segment :: segments) value
  | noKey {segment : ResolvedSegment} (field : segment.access = .field)
      (segments : List ResolvedSegment) {fields : List (String × Json)}
      (absent : fields.lookup segment.name = none) : Misses (segment :: segments) (.object fields)
  | further {segment : ResolvedSegment} {segments : List ResolvedSegment} {value : Json}
      (misses : Misses segments (segment.read value)) : Misses (segment :: segments) value

theorem ResolvedSegment.read_null (segment : ResolvedSegment) : segment.read .null = .null := by
  rw [read]
  split <;> rfl

theorem ResolvedSegment.foldl_read_null (segments : List ResolvedSegment) :
    segments.foldl (fun value segment => segment.read value) .null = .null := by
  induction segments with
  | nil => rfl
  | cons segment segments ih => rw [List.foldl_cons, segment.read_null, ih]

theorem misses_of_foldl_read {segments : List ResolvedSegment} {value : Json}
    (missing : segments.foldl (fun value segment => segment.read value) value = .null) :
    Misses segments value := by
  induction segments generalizing value with
  | nil =>
    cases missing
    exact .null []
  | cons segment segments ih => exact .further (ih missing)

theorem Misses.foldl_read {segments : List ResolvedSegment} {value : Json}
    (misses : Misses segments value) :
    segments.foldl (fun value segment => segment.read value) value = .null := by
  induction misses with
  | null segments => exact ResolvedSegment.foldl_read_null segments
  | noObject field segments other =>
    rename_i segment value
    have nothing : segment.read value = .null := by
      rw [ResolvedSegment.read, field]
      cases value with
      | object fields => exact absurd rfl (other fields)
      | null | boolean _ | number _ | text _ | array _ => rfl
    rw [List.foldl_cons, nothing, ResolvedSegment.foldl_read_null]
  | noKey field segments absent =>
    rename_i segment fields
    have nothing : segment.read (.object fields) = .null := by
      rw [ResolvedSegment.read, field]
      simp only [Json.field?, absent, Option.getD_none]
    rw [List.foldl_cons, nothing, ResolvedSegment.foldl_read_null]
  | further _ ih => exact ih

theorem ResolvedAccessor.read_eq_null_iff {a : ResolvedAccessor} {fact : Json} :
    a.read fact = .null ↔ Misses a.segments fact :=
  ⟨misses_of_foldl_read, Misses.foldl_read⟩

/-! ### Values that pass no comparison -/

/-- A value is not of the kind that a comparison's literal is converted to, if it is, and not what
the literal denotes. -/
structure Comparison.Strays (c : Comparison) (valueType : TypeDescriptor) (value : Json) :
    Prop where
  unconverted : (∃ operand, Converts valueType c.literal operand) → ¬ valueType.Holds value
  unequal : ¬ c.literal.Denotes value

theorem TypeDescriptor.not_holds_null (d : TypeDescriptor) : ¬ d.Holds .null := by
  rintro ⟨kind, -, holds⟩
  have keyed := ScalarKind.holds_iff_isSome_key?.1 holds
  cases kind <;> cases keyed

theorem Comparison.strays_null {c : Comparison} (present : c.literal ≠ .null)
    (valueType : TypeDescriptor) : c.Strays valueType .null where
  unconverted _ := valueType.not_holds_null
  unequal := by
    cases literal : c.literal with
    | null => exact absurd literal present
    | boolean _ | text _ => nofun
    | integer _ | decimal _ =>
      rintro ⟨x, same, -⟩
      cases same

namespace Comparator

/-- A stray value passes `!=` and nothing else. -/
theorem test_of_strays {valueType : TypeDescriptor} {c : Comparison} {k : Comparator}
    (resolved : resolve valueType c = .ok k) {value : Json} (strays : c.Strays valueType value) :
    k.test value = decide (c.operator = .ne) := by
  obtain ⟨op, operand⟩ := k
  obtain ⟨operator, converts | ⟨-, unordered, same⟩⟩ := resolve_eq_ok_iff.1 resolved
  · have none : operand.ordering? value = none := by
      rw [← Option.not_isSome_iff_eq_none, converts.isSome_ordering?_iff]
      exact strays.unconverted ⟨operand, converts⟩
    rw [test_typed operand converts.typed, none, ← operator]
  · cases same
    have unequal : c.literal.denotes value = false := by
      rw [← Bool.not_eq_true, Literal.denotes_eq_true_iff]
      exact strays.unequal
    rw [← operator, test]
    dsimp only
    rw [unequal]
    split
    · next ne => simp [ne]
    · next ne => simp [ne]

theorem meaning_of_strays {valueType : TypeDescriptor} {c : Comparison}
    (resolves : Resolves valueType c) {value : Json} (strays : c.Strays valueType value) :
    meaning valueType value c = decide (c.operator = .ne) := by
  obtain ⟨k, resolved⟩ := resolves
  rw [meaning, resolved]
  exact test_of_strays resolved strays

end Comparator

/-! ### Whole clauses -/

namespace Predicate

/-- A clause whose comparisons are all `!=`, or all something else, is decided for a value that is
stray for each of them. -/
theorem evaluate_of_strays {registry : Registry} {subject source : String} {limits : Limits}
    {p : Predicate} (compiled : compile registry subject limits source = .ok p) {fact : Json}
    {b : Bool} (same : ∀ c ∈ p.tree.comparisons, decide (c.operator = .ne) = b)
    (strays : ∀ c ∈ p.tree.comparisons, c.Strays p.accessor.valueType (p.accessor.read fact)) :
    p.evaluate fact = b := by
  obtain ⟨parsed, bound, -⟩ := compile_eq_ok_iff.1 compiled
  obtain ⟨-, stream, -, accepted⟩ := Clause.parse_eq_ok_iff.1 parsed
  obtain ⟨d, -, -, -, -, -, root⟩ := Clause.ofTokens_eq_ok_iff.1 accepted
  have branching : p.tree.Branching := by
    have same : d.tree = p.tree := root
    rw [← same]
    exact d.branching_tree
  obtain ⟨resolves, holds⟩ := Condition.holds_of_bind p.tree bound
  rw [evaluate, holds]
  refine Constraint.value_of_forall p.tree branching fun c mem => ?_
  rw [Comparator.meaning_of_strays (resolves c mem) (strays c mem), same c mem]

/-- Missing data fails closed. A path reads `null` of the facts that lack it. A compiled clause
without `!=` is false of a value that converts to none of its operands and equals none of its
literals, so of every fact that lacks the path if no literal is `null`; of such a fact a clause of
`!=` alone is true. -/
theorem evaluate_of_misses {registry : Registry} {subject source : String} {limits : Limits}
    {p : Predicate} (compiled : compile registry subject limits source = .ok p) (fact : Json) :
    (p.accessor.read fact = .null ↔ Misses p.accessor.segments fact) ∧
    ((∀ c ∈ p.tree.comparisons, c.operator ≠ .ne ∧ c.literal ≠ .null) →
      Misses p.accessor.segments fact → p.evaluate fact = false) ∧
    ((∀ c ∈ p.tree.comparisons, c.operator ≠ .ne) →
      (∀ c ∈ p.tree.comparisons, c.Strays p.accessor.valueType (p.accessor.read fact)) →
        p.evaluate fact = false) ∧
    ((∀ c ∈ p.tree.comparisons, c.operator = .ne ∧ c.literal ≠ .null) →
      Misses p.accessor.segments fact → p.evaluate fact = true) := by
  have missing (present : ∀ c ∈ p.tree.comparisons, c.literal ≠ .null)
      (misses : Misses p.accessor.segments fact) :
      ∀ c ∈ p.tree.comparisons, c.Strays p.accessor.valueType (p.accessor.read fact) := by
    intro c mem
    rw [ResolvedAccessor.read_eq_null_iff.2 misses]
    exact Comparison.strays_null (present c mem) _
  refine ⟨ResolvedAccessor.read_eq_null_iff, ?_, ?_, ?_⟩
  · intro plain misses
    exact evaluate_of_strays compiled (fun c mem => decide_eq_false (plain c mem).1)
      (missing (fun c mem => (plain c mem).2) misses)
  · intro plain strays
    exact evaluate_of_strays compiled (fun c mem => decide_eq_false (plain c mem)) strays
  · intro plain misses
    exact evaluate_of_strays compiled (fun c mem => decide_eq_true (plain c mem).1)
      (missing (fun c mem => (plain c mem).2) misses)

/-- A friend without a birthday, or one that is a number, is not born after 2000 and equals no seven,
but differs from both. Eight as a birthday is as little after 2000. -/
theorem evaluate_of_misses_friend_born :
    ∃ p q, compile Registry.persons.registry "Person" {}
        "friend.born > \"2000-12-31\" || == 7" = .ok p ∧
      compile Registry.persons.registry "Person" {}
        "friend.born != \"2000-12-31\" && != 7" = .ok q ∧
      (∀ fact ∈ [Json.object [("friend", .object [])], .object [("friend", .whole 7)]],
        p.evaluate fact = false ∧ q.evaluate fact = true) ∧
      p.evaluate (.object [("friend", .object [("born", .whole 8)])]) = false := by
  let friend : ResolvedSegment := ⟨"friend", .field, "Person"⟩
  let born : ResolvedSegment := ⟨"born", .field, "LocalDate"⟩
  have shaped (source : String) (leaves : List Comparison)
      (shape : (compile Registry.persons.registry "Person" {} source).toOption.map
        (fun p => (p.accessor.segments, p.accessor.valueType.scalarKind?, p.tree.comparisons)) =
          some ([friend, born], some .date, leaves)) :
      ∃ p, compile Registry.persons.registry "Person" {} source = .ok p ∧
        p.accessor.segments = [friend, born] ∧ p.accessor.valueType.scalarKind? = some .date ∧
        p.tree.comparisons = leaves := by
    rcases compiled : compile Registry.persons.registry "Person" {} source with e | p
    · rw [compiled] at shape
      cases shape
    · rw [compiled] at shape
      obtain ⟨path, rest⟩ := Prod.mk.inj (Option.some.inj shape)
      exact ⟨p, rfl, path, Prod.mk.inj rest⟩
  obtain ⟨p, compiled, path, scalar, leaves⟩ := shaped "friend.born > \"2000-12-31\" || == 7"
    [⟨.gt, .text "2000-12-31", 12⟩, ⟨.eq, .integer 7, 30⟩] (by cbv)
  obtain ⟨q, compiled', path', -, leaves'⟩ := shaped "friend.born != \"2000-12-31\" && != 7"
    [⟨.ne, .text "2000-12-31", 12⟩, ⟨.ne, .integer 7, 31⟩] (by cbv)
  have lacks : ∀ fact ∈ [Json.object [("friend", .object [])], .object [("friend", .whole 7)]],
      Misses [friend, born] fact := by
    intro fact mem
    rcases List.mem_pair.1 mem with rfl | rfl
    · exact .further (.noKey rfl _ rfl)
    · exact .further (.noObject rfl _ fun fields same => by cases same)
  refine ⟨p, q, compiled, compiled', fun fact mem => ?_, ?_⟩
  · obtain ⟨-, closed, -, -⟩ := evaluate_of_misses compiled fact
    obtain ⟨-, -, -, unequal⟩ := evaluate_of_misses compiled' fact
    constructor
    · refine closed ?_ (path ▸ lacks fact mem)
      rw [leaves]
      decide
    · refine unequal ?_ (path' ▸ lacks fact mem)
      rw [leaves']
      decide
  · obtain ⟨-, -, closed, -⟩ :=
      evaluate_of_misses compiled (.object [("friend", .object [("born", .whole 8)])])
    have reads : p.accessor.read (.object [("friend", .object [("born", .whole 8)])]) = .whole 8 := by
      rw [ResolvedAccessor.read, path]
      rfl
    have noDay : ¬ p.accessor.valueType.Holds (.whole 8) := by
      rintro ⟨kind, scalar', holds⟩
      cases scalar.symm.trans scalar'
      obtain ⟨s, day, same, -⟩ := holds
      cases same
    refine closed (by rw [leaves]; decide) ?_
    rw [reads, leaves]
    intro c mem
    refine ⟨fun _ => noDay, ?_⟩
    rcases List.mem_pair.1 mem with rfl | rfl
    · rintro ⟨⟩
    · rw [← Literal.denotes_eq_true_iff]
      decide

end Predicate

end HalfBinary
