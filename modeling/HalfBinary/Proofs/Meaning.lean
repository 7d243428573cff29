import Mathlib
import HalfBinary.Predicate
import HalfBinary.Proofs.Comparators
import HalfBinary.Proofs.Parsing

/-!
# What a clause means

A compiled clause is true of a fact exactly if the derivation of its tokens is true, where every
comparison is the comparator of its type, tested on the one value that the clause's path leads to.
-/

namespace HalfBinary

/-! ### The value of a fact -/

/-- The value of a field; `null` if there is no such field or no object. -/
def Json.member (name : String) : Json → Json
  | object fields => (fields.lookup name).getD null
  | null | boolean _ | number _ | text _ | array _ => null

/-- The type and the value that properties lead to, one after another. A view keeps the value. -/
def Registry.follow (r : Registry) (d : TypeDescriptor) (value : Json) :
    List String → Option (TypeDescriptor × Json)
  | [] => some (d, value)
  | name :: names =>
    match d.property? name with
    | none => none
    | some (.field, target) => (r.get? target).bind fun next => r.follow next (value.member name) names
    | some (.view, target) => (r.get? target).bind fun next => r.follow next value names

theorem ResolvedSegment.read_field (name typeName : String) (value : Json) :
    ResolvedSegment.read ⟨name, .field, typeName⟩ value = value.member name := by
  cases value <;> rfl

theorem Registry.follow_of_walk {r : Registry} {reached last : TypeDescriptor} {names : List String}
    {segments : List ResolvedSegment} (h : r.walk reached names = .ok (segments, last))
    (value : Json) :
    r.follow reached value names =
      some (last, segments.foldl (fun value segment => segment.read value) value) := by
  induction names generalizing reached segments value with
  | nil =>
    cases h
    rfl
  | cons name names ih =>
    rw [walk] at h
    rw [follow]
    split at h
    · cases h
    · next access target property =>
      simp only [bind_eq_ok_iff] at h
      obtain ⟨next, found, ⟨others, last'⟩, walked, h⟩ := h
      cases h
      have found := Registry.get_eq_ok_iff.1 found
      cases access with
      | field =>
        rw [property]
        simp only [found, Option.bind_some, List.foldl_cons, ResolvedSegment.read_field]
        exact ih walked _
      | view =>
        rw [property]
        simp only [found, Option.bind_some, List.foldl_cons]
        exact ih walked _

theorem Registry.follow_of_resolve {r : Registry} {subject : String} {path : AccessorPath}
    {a : ResolvedAccessor} (h : r.resolve subject path = .ok a) :
    ∃ start, r.get? subject = some start ∧
      ∀ fact, r.follow start fact path.segments = some (a.valueType, a.read fact) := by
  simp only [resolve, bind_eq_ok_iff] at h
  obtain ⟨start, found, ⟨segments, valueType⟩, walked, h⟩ := h
  cases h
  exact ⟨start, Registry.get_eq_ok_iff.1 found, fun fact => follow_of_walk walked fact⟩

/-! ### Conditions -/

namespace Condition

open Comparator (meaning Resolves)

mutual

theorem holds_of_bind {valueType : TypeDescriptor} : (t : Constraint) → {condition : Condition} →
    bind valueType t = .ok condition →
      (∀ c ∈ t.comparisons, Resolves valueType c) ∧
        ∀ value, condition.holds value = t.value (meaning valueType value)
  | .leaf c, condition, h => by
    simp only [bind, bind_eq_ok_iff] at h
    obtain ⟨k, resolved, h⟩ := h
    cases h
    refine ⟨fun c' mem => ?_, fun value => ?_⟩
    · obtain rfl := List.mem_singleton.1 mem
      exact ⟨k, resolved⟩
    · simp [Constraint.value, meaning, resolved, holds]
  | .chain connective parts, condition, h => by
    simp only [bind, bind_eq_ok_iff] at h
    obtain ⟨conditions, bound, h⟩ := h
    cases h
    obtain ⟨resolves, all, any⟩ := holds_of_bindAll parts bound
    refine ⟨resolves, fun value => ?_⟩
    cases connective with
    | and => exact all value
    | or => exact any value

theorem holds_of_bindAll {valueType : TypeDescriptor} : (parts : List Constraint) →
    {conditions : List Condition} → bindAll valueType parts = .ok conditions →
      (∀ c ∈ Constraint.comparisonsAll parts, Resolves valueType c) ∧
        (∀ value, allHold value conditions = Constraint.allValue (meaning valueType value) parts) ∧
        ∀ value, anyHolds value conditions = Constraint.anyValue (meaning valueType value) parts
  | [], conditions, h => by
    cases h
    exact ⟨fun c mem => (List.not_mem_nil mem).elim, fun value => rfl, fun value => rfl⟩
  | part :: parts, conditions, h => by
    simp only [bindAll, bind_eq_ok_iff] at h
    obtain ⟨first, boundFirst, others, boundOthers, h⟩ := h
    cases h
    obtain ⟨resolvesFirst, first⟩ := holds_of_bind part boundFirst
    obtain ⟨resolvesOthers, all, any⟩ := holds_of_bindAll parts boundOthers
    refine ⟨fun c mem => ?_, fun value => ?_, fun value => ?_⟩
    · exact (List.mem_append.1 mem).elim (resolvesFirst c) (resolvesOthers c)
    · rw [allHold, first, all, Constraint.allValue]
    · rw [anyHolds, first, any, Constraint.anyValue]

end

mutual

/-- A constraint whose comparisons all have comparators has a condition. -/
theorem exists_bind {valueType : TypeDescriptor} : (t : Constraint) →
    (∀ c ∈ t.comparisons, Resolves valueType c) → ∃ condition, bind valueType t = .ok condition
  | .leaf c, resolves => by
    obtain ⟨k, resolved⟩ := resolves c List.mem_cons_self
    exact ⟨.leaf k, by simp [bind, bind_eq_ok_iff, resolved, pure, Except.pure]⟩
  | .chain connective parts, resolves => by
    obtain ⟨conditions, bound⟩ := exists_bindAll parts resolves
    exact ⟨.chain connective conditions, by simp [bind, bind_eq_ok_iff, bound, pure, Except.pure]⟩

theorem exists_bindAll {valueType : TypeDescriptor} : (parts : List Constraint) →
    (∀ c ∈ Constraint.comparisonsAll parts, Resolves valueType c) →
      ∃ conditions, bindAll valueType parts = .ok conditions
  | [], _ => ⟨[], rfl⟩
  | part :: parts, resolves => by
    obtain ⟨first, boundFirst⟩ := exists_bind part fun c mem =>
      resolves c (List.mem_append_left _ mem)
    obtain ⟨others, boundOthers⟩ := exists_bindAll parts fun c mem =>
      resolves c (List.mem_append_right _ mem)
    refine ⟨first :: others, ?_⟩
    simp [bindAll, bind_eq_ok_iff, boundFirst, boundOthers, pure, Except.pure]

end

end Condition

/-! ### Chains of equalities -/

namespace Token

/-- The words `|| == v` for some literals. -/
def alternatives : List Literal → List Token
  | [] => []
  | l :: ls => connective .or :: operator .eq :: literal l :: alternatives ls

/-- The words `A == v₁ || == v₂ || ...`. -/
def equalities (segments : List String) (first : Literal) (others : List Literal) : List Token :=
  accessor segments :: operator .eq :: literal first :: alternatives others

end Token

namespace Derivation

def alternatives : List Literal → Derivation .orOthers
  | [] => orEnd
  | l :: ls => orMore 0 (and (comparison none .eq 0 l 0) andEnd) (alternatives ls)

def equalities (segments : List String) (first : Literal) (others : List Literal) :
    Derivation .orExpression :=
  or (and (comparison (some (segments, 0)) .eq 0 first 0) andEnd) (alternatives others)

theorem words_alternatives (ls : List Literal) :
    (alternatives ls).words = Token.alternatives ls := by
  induction ls with
  | nil => rfl
  | cons l ls ih => simp [alternatives, Token.alternatives, words, tokens, Lead.tokens, ← ih]

theorem words_equalities (segments : List String) (first : Literal) (others : List Literal) :
    (equalities segments first others).words = Token.equalities segments first others := by
  simp [equalities, Token.equalities, words, tokens, Lead.tokens, ← words_alternatives]

theorem value_alternatives (holds : Comparison → Bool) (ls : List Literal) :
    (alternatives ls).value holds = ls.any fun l => holds ⟨.eq, l, 0⟩ := by
  induction ls with
  | nil => rfl
  | cons l ls ih => simp [alternatives, value, ih]

theorem value_equalities (holds : Comparison → Bool) (segments : List String) (first : Literal)
    (others : List Literal) :
    (equalities segments first others).value holds =
      (first :: others).any fun l => holds ⟨.eq, l, 0⟩ := by
  simp [equalities, value, value_alternatives]

theorem mem_comparisons_alternatives {l : Literal} {ls : List Literal} (mem : l ∈ ls) :
    ⟨.eq, l, 0⟩ ∈ (alternatives ls).comparisons := by
  induction ls with
  | nil => cases mem
  | cons first ls ih =>
    rcases List.mem_cons.1 mem with rfl | mem
    · simp [alternatives, comparisons]
    · simp [alternatives, comparisons, ih mem]

theorem mem_comparisons_equalities {segments : List String} {l first : Literal}
    {others : List Literal} (mem : l ∈ first :: others) :
    ⟨.eq, l, 0⟩ ∈ (equalities segments first others).comparisons := by
  rcases List.mem_cons.1 mem with rfl | mem
  · simp [equalities, comparisons]
  · simp [equalities, comparisons, mem_comparisons_alternatives mem]

/-- A chain of equalities holds of the values that equal one of its literals. -/
theorem value_of_words_eq_equalities {d : Derivation .orExpression} {segments : List String}
    {first : Literal} {others : List Literal} {valueType : TypeDescriptor}
    (same : d.words = Token.equalities segments first others)
    (resolves : ∀ c ∈ d.comparisons, Comparator.Resolves valueType c) (value : Json) :
    d.value (Comparator.meaning valueType value) = true ↔
      ∃ l ∈ first :: others, valueType.Equals value l := by
  have plain : d.plain = (equalities segments first others).plain :=
    plain_eq_of_words_eq (same.trans (words_equalities ..).symm)
  have meaning : d.value (Comparator.meaning valueType value) =
      (equalities segments first others).value (Comparator.meaning valueType value) := by
    have both := congrArg (Derivation.value (Comparator.meaning valueType value)) plain
    simp only [value_plain, Comparator.meaning_plain] at both
    exact both
  rw [meaning, value_equalities, List.any_eq_true]
  refine exists_congr fun l => and_congr_right fun mem => ?_
  refine Comparator.meaning_eq_iff ?_ value
  have both := congrArg Derivation.comparisons plain
  rw [comparisons_plain, comparisons_plain] at both
  have chained : (⟨.eq, l, 0⟩ : Comparison) ∈ d.comparisons.map Comparison.plain := by
    rw [both]
    exact List.mem_map_of_mem (f := Comparison.plain) (mem_comparisons_equalities mem)
  obtain ⟨c, mem, eq⟩ := List.mem_map.1 chained
  obtain ⟨k, resolved⟩ := resolves c mem
  exact ⟨k, eq ▸ Comparator.resolve_plain_eq_ok_iff.2 resolved⟩

end Derivation

/-! ### Whole clauses -/

namespace Predicate

theorem compile_eq_ok_iff {registry : Registry} {subject source : String} {limits : Limits}
    {p : Predicate} :
    compile registry subject limits source = .ok p ↔
      Clause.parse registry subject limits source = .ok ⟨p.accessor, p.tree⟩ ∧
        Condition.bind p.accessor.valueType p.tree = .ok p.condition ∧ p.source = source := by
  simp only [compile, ofClause, bind_eq_ok_iff]
  constructor
  · rintro ⟨c, parsed, condition, bound, h⟩
    cases h
    exact ⟨parsed, bound, rfl⟩
  · rintro ⟨parsed, bound, rfl⟩
    exact ⟨_, parsed, p.condition, bound, rfl⟩

/-- A compiled clause means what its derivation means: it is true of a fact exactly if the
derivation is, where each comparison is its comparator, tested on the value at the end of the
clause's path. A chain of equalities is true exactly of the facts whose value equals one of its
literals. -/
theorem evaluate_eq_value_of_derivation {registry : Registry} {subject source : String}
    {limits : Limits} {p : Predicate} (h : compile registry subject limits source = .ok p) :
    ∃ stream, Token.ofClause source = .ok stream ∧
      ∃ d : Derivation .orExpression, d.tokens = stream.tokens ∧
        (∀ d' : Derivation .orExpression, d'.tokens = stream.tokens → d' = d) ∧
        ∃ start valueType, registry.get? subject = some start ∧
          (∀ c ∈ d.comparisons, Comparator.Resolves valueType c) ∧
          ∀ fact, ∃ value,
            registry.follow start fact (Token.clausePath stream.words).segments =
              some (valueType, value) ∧
            p.evaluate fact = d.value (Comparator.meaning valueType value) ∧
            ∀ segments first others, stream.words = Token.equalities segments first others →
              (p.evaluate fact = true ↔ ∃ l ∈ first :: others, valueType.Equals value l) := by
  obtain ⟨parsed, bound, -⟩ := compile_eq_ok_iff.1 h
  obtain ⟨-, stream, lexed, accepted⟩ := Clause.parse_eq_ok_iff.1 parsed
  obtain ⟨d, spelled, -, -, resolved, -, root⟩ := Clause.ofTokens_eq_ok_iff.1 accepted
  obtain ⟨start, found, follows⟩ := Registry.follow_of_resolve resolved
  obtain ⟨resolves, holds⟩ := Condition.holds_of_bind p.tree bound
  have leaves : p.tree.comparisons = d.comparisons := by
    rw [← d.comparisons_tree, root]
    rfl
  rw [leaves] at resolves
  refine ⟨stream, lexed, d, spelled, ?_, start, p.accessor.valueType, found, resolves, ?_⟩
  · intro d' spelled'
    exact Derivation.eq_of_tokens_eq (spelled'.trans spelled.symm)
  · intro fact
    have evaluated : p.evaluate fact =
        d.value (Comparator.meaning p.accessor.valueType (p.accessor.read fact)) := by
      rw [evaluate, holds, ← d.value_tree, root]
      rfl
    refine ⟨p.accessor.read fact, follows fact, evaluated, ?_⟩
    intro segments first others chain
    have chain : d.words = Token.equalities segments first others := by
      rw [Derivation.words, spelled]
      exact chain
    rw [evaluated]
    exact Derivation.value_of_words_eq_equalities chain resolves _

theorem evaluate_one_or_two :
    ∃ p, compile .builtin "Integer" {} "this == 1 || == 2" = .ok p ∧
      ∀ fact, p.evaluate fact = true ↔
        ∃ l ∈ [Literal.integer 1, .integer 2], l.Denotes fact := by
  let tree := Constraint.chain .or [.leaf ⟨.eq, .integer 1, 5⟩, .leaf ⟨.eq, .integer 2, 13⟩]
  let condition := Condition.chain .or [.leaf ⟨.eq, .integer 1⟩, .leaf ⟨.eq, .integer 2⟩]
  let accessor : ResolvedAccessor := ⟨⟨[]⟩, "Integer", [], ⟨"Integer", .scalar .integer⟩⟩
  have compiled : compile .builtin "Integer" {} "this == 1 || == 2" =
      .ok ⟨"this == 1 || == 2", accessor, tree, condition⟩ := by cbv
  refine ⟨_, compiled, fun fact => ?_⟩
  obtain ⟨stream, lexed, d, -, -, start, valueType, found, -, means⟩ :=
    evaluate_eq_value_of_derivation compiled
  have words : (Token.ofClause "this == 1 || == 2").map TokenStream.words =
      .ok (Token.equalities ["this"] (.integer 1) [.integer 2]) := by cbv
  have integer : Registry.builtin.get? "Integer" = some ⟨"Integer", .scalar .integer⟩ := by cbv
  rw [lexed] at words
  cases integer.symm.trans found
  obtain ⟨value, follows, -, equal⟩ := means fact
  rw [Except.ok.inj words] at follows
  cases follows
  exact equal _ _ _ (Except.ok.inj words)

end Predicate

end HalfBinary
