import Mathlib
import HalfBinary.Proofs.Acceptance
import HalfBinary.Proofs.NormalForm

/-!
# Addressing properties

Every property of a valid configuration's types can be named in a clause: its name is read as an
accessor, and so are chains of names of any length, which compile to the very path that they spell
(`compile_chain`).
-/

namespace HalfBinary

namespace AccessorPath

variable {segments : List String}

theorem render_of_ne_nil (some : segments ≠ []) : render ⟨segments⟩ = ".".intercalate segments := by
  rw [render, isIdentity, if_neg (by simpa using some)]

theorem written_of_ne_nil (some : segments ≠ []) : written ⟨segments⟩ = segments := by
  rw [written, isIdentity, if_neg (by simpa using some)]

/-- A name that is a property is not taken for the fact itself. -/
theorem ofSegments_of_isProperty {first : String} (property : IsProperty first)
    (others : List String) : ofSegments (first :: others) = ⟨first :: others⟩ := by
  have other : first ≠ self := by
    rintro rfl
    exact property.2 List.mem_cons_self
  rw [ofSegments, if_neg other]

end AccessorPath

/-- Names of properties with points between them are one accessor. -/
theorem Token.ofClause_chain {segments : List String} (some : segments ≠ [])
    (properties : ∀ segment ∈ segments, IsProperty segment) :
    ofClause (".".intercalate segments) =
      .ok ⟨[⟨.accessor segments, 0⟩], (".".intercalate segments).utf8ByteSize⟩ := by
  have spelled := @AccessorPath.spelling_render ⟨segments⟩ properties
  rw [AccessorPath.render_of_ne_nil some, AccessorPath.written_of_ne_nil some] at spelled
  exact ofClause_of_spelling spelled

/-- No type has a family that `null` is of. -/
theorem TypeDescriptor.isForeign_null (d : TypeDescriptor) : d.IsForeign .null := by
  intro kind _
  cases kind <;> rfl

theorem Comparator.resolves_eq_null (valueType : TypeDescriptor) (offset : Nat) :
    Resolves valueType ⟨.eq, .null, offset⟩ := by
  refine ⟨⟨.eq, .literal .null⟩, ?_⟩
  rw [resolve_of_isForeign valueType.isForeign_null]
  rfl

namespace Config

variable {c : Config}

/-- Every property of a type leads to a type. -/
theorem exists_resolve_property (valid : c.validate = .ok ()) {d : TypeDescriptor}
    (found : c.registry.get? d.name = some d) {segment : String} {way : SegmentAccess × String}
    (offers : d.property? segment = some way) :
    ∃ a, c.registry.resolve d.name ⟨[segment]⟩ = .ok a := by
  obtain ⟨access, target⟩ := way
  obtain ⟨-, -, -, targets⟩ := validate_eq_ok_iff_checks.1 valid
  have complete := Registry.validate_eq_ok_iff.1 (checkTargets_eq_ok_iff.1 targets)
  have present : c.registry.get? target ≠ none := by
    intro absent
    exact complete ⟨d.name, segment, target⟩ ⟨⟨d, access, found, offers⟩, absent⟩
  obtain ⟨next, found'⟩ := Option.ne_none_iff_exists'.1 present
  have path := @Registry.exists_resolve_iff _ _ _ next found ⟨[segment]⟩
  obtain ⟨a, resolved, -⟩ := path.2 (.onward offers found' (.here next))
  exact ⟨a, resolved⟩

end Config

namespace Predicate

variable {registry : Registry} {subject : String} {a : ResolvedAccessor}

/-- The predicate that the value at the end of a path is `null`. -/
def isNull (a : ResolvedAccessor) : Predicate :=
  ⟨"", a, .leaf ⟨.eq, .null, 0⟩, .leaf ⟨.eq, .literal .null⟩⟩

theorem render_isNull (a : ResolvedAccessor) : (isNull a).render = a.path.render ++ " == null" := by
  have comparison : Comparison.render ⟨.eq, .null, 0⟩ = "== null" := by decide
  show a.path.render ++ " " ++ Comparison.render ⟨.eq, .null, 0⟩ = _
  rw [comparison, String.append_assoc]
  rfl

/-- A path of properties that resolves can be compared with `null`. -/
theorem exists_compile_isNull (properties : ∀ segment ∈ a.path.segments, IsProperty segment)
    (resolved : registry.resolve subject a.path = .ok a) {limits : Limits}
    (small : (a.path.render ++ " == null").utf8ByteSize ≤ limits.maxClauseBytes)
    (few : 1 ≤ limits.maxComparisons) :
    ∃ p, compile registry subject limits (a.path.render ++ " == null") = .ok p ∧
      p.accessor = a := by
  rw [← render_isNull] at small ⊢
  have range : ∀ c ∈ (isNull a).tree.comparisons, c.literal.InRange := by
    intro c mem
    obtain rfl := List.mem_singleton.1 mem
    trivial
  have resolves : ∀ c ∈ (isNull a).tree.comparisons,
      Comparator.Resolves (isNull a).accessor.valueType c := by
    intro c mem
    obtain rfl := List.mem_singleton.1 mem
    exact Comparator.resolves_eq_null a.valueType 0
  obtain ⟨p, compiled, accessor, -⟩ :=
    @exists_compile_render registry subject limits (isNull a) properties resolved trivial range small
      (Nat.zero_le _) few resolves
  exact ⟨p, compiled, accessor⟩

end Predicate

namespace Config

variable {c : Config}

/-- A clause can name every property. A name that a configuration accepts is read as an accessor of
its own, and not as the fact itself; every property of a type is a path; and every path of a type,
written as its segments with points between them, is read as one accessor and compiles to itself. -/
theorem compile_chain (valid : c.validate = .ok ()) :
    (∀ name, nameFault? name = none →
      Token.ofClause name = .ok ⟨[⟨.accessor [name], 0⟩], name.utf8ByteSize⟩ ∧
        ∀ others, AccessorPath.ofSegments (name :: others) = ⟨name :: others⟩) ∧
    (∀ d segment way, c.registry.get? d.name = some d → d.property? segment = some way →
      ∃ a, c.registry.resolve d.name ⟨[segment]⟩ = .ok a) ∧
    ∀ subject segments a, segments ≠ [] → c.registry.resolve subject ⟨segments⟩ = .ok a →
      Token.ofClause (".".intercalate segments) =
        .ok ⟨[⟨.accessor segments, 0⟩], (".".intercalate segments).utf8ByteSize⟩ ∧
      ∀ limits : Limits, (".".intercalate segments ++ " == null").utf8ByteSize ≤ limits.maxClauseBytes →
        1 ≤ limits.maxComparisons →
          ∃ p, Predicate.compile c.registry subject limits (".".intercalate segments ++ " == null") =
            .ok p ∧ p.accessor.path.segments = segments ∧ p.accessor = a := by
  refine ⟨?_, ?_, ?_⟩
  · intro name accepted
    have property := (nameFault?_eq_none_iff.1 accepted).property
    have lexed := Token.ofClause_chain (List.cons_ne_nil name []) (List.forall_mem_singleton.2 property)
    have single : ".".intercalate [name] = name := rfl
    rw [single] at lexed
    exact ⟨lexed, AccessorPath.ofSegments_of_isProperty property⟩
  · intro d segment way found offers
    exact exists_resolve_property valid found offers
  · intro subject segments a some resolved
    have properties := Registry.property_of_resolve valid resolved
    have path : a.path = ⟨segments⟩ := Clause.resolve_path resolved
    refine ⟨Token.ofClause_chain some properties, ?_⟩
    intro limits small few
    rw [← path] at resolved
    rw [← AccessorPath.render_of_ne_nil some, ← path] at small ⊢
    obtain ⟨p, compiled, accessor⟩ :=
      Predicate.exists_compile_isNull (by rw [path]; exact properties) resolved small few
    exact ⟨p, compiled, by rw [accessor, path], accessor⟩

theorem compile_chain_employer :
    employments.validate = .ok () ∧
      Token.ofClause "employer" = .ok ⟨[⟨.accessor ["employer"], 0⟩], 8⟩ ∧
      ∃ p, Predicate.compile employments.registry "Person" {} "age.intValue.longValue == null" = .ok p ∧
        p.accessor.path.segments = ["age", "intValue", "longValue"] ∧
        p.accessor.valueType.name = "Long" := by
  have valid : employments.validate = .ok () := rfl
  let a : ResolvedAccessor := ⟨⟨["age", "intValue", "longValue"]⟩, "Person",
    [⟨"age", .field, "Integer"⟩, ⟨"intValue", .view, "Integer"⟩, ⟨"longValue", .view, "Long"⟩],
    ⟨"Long", .scalar .integer⟩⟩
  have resolved : employments.registry.resolve "Person" ⟨["age", "intValue", "longValue"]⟩ = .ok a :=
    rfl
  obtain ⟨names, -, chains⟩ := compile_chain valid
  obtain ⟨-, compiles⟩ := chains "Person" _ a (List.cons_ne_nil _ _) resolved
  obtain ⟨p, compiled, path, accessor⟩ := compiles {} (by decide) (by decide)
  exact ⟨valid, (names "employer" rfl).1, p, compiled, path, by rw [accessor]⟩

end Config

end HalfBinary
