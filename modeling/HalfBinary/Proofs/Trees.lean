import HalfBinary.Constraint

/-!
# Trees of comparisons

The truth value of a tree, trees with changed comparisons, and the trees that parsing builds, whose
chains have two parts at least.
-/

namespace HalfBinary

/-- A comparison at no particular position. -/
def Comparison.plain (c : Comparison) : Comparison := { c with offset := 0 }

namespace Constraint

mutual

/-- The truth value, given that of every comparison. -/
def value (holds : Comparison → Bool) : Constraint → Bool
  | leaf c => holds c
  | chain .and parts => allValue holds parts
  | chain .or parts => anyValue holds parts

def allValue (holds : Comparison → Bool) : List Constraint → Bool
  | [] => true
  | part :: parts => value holds part && allValue holds parts

def anyValue (holds : Comparison → Bool) : List Constraint → Bool
  | [] => false
  | part :: parts => value holds part || anyValue holds parts

end

mutual

/-- The tree with every comparison changed. -/
def map (f : Comparison → Comparison) : Constraint → Constraint
  | leaf c => leaf (f c)
  | chain connective parts => chain connective (mapAll f parts)

def mapAll (f : Comparison → Comparison) : List Constraint → List Constraint
  | [] => []
  | part :: parts => map f part :: mapAll f parts

end

/-- The tree without the positions of its comparisons. -/
def plain (t : Constraint) : Constraint := t.map Comparison.plain

mutual

/-- Every chain has two parts at least. -/
def Branching : Constraint → Prop
  | leaf _ => True
  | chain _ parts => 2 ≤ parts.length ∧ AllBranching parts

def AllBranching : List Constraint → Prop
  | [] => True
  | part :: parts => Branching part ∧ AllBranching parts

end

/-! ### Joined parts -/

theorem join_of_two_le (connective : Connective) {parts : List Constraint}
    (two : 2 ≤ parts.length) : join connective parts = chain connective parts := by
  rcases parts with _ | ⟨part, _ | ⟨second, parts⟩⟩
  · rfl
  · simp at two
  · rfl

theorem comparisons_join (connective : Connective) (parts : List Constraint) :
    (join connective parts).comparisons = comparisonsAll parts := by
  rcases parts with _ | ⟨part, _ | ⟨second, parts⟩⟩
  · rfl
  · simp [join, comparisonsAll]
  · rfl

theorem value_join_and (holds : Comparison → Bool) (parts : List Constraint) :
    (join .and parts).value holds = allValue holds parts := by
  rcases parts with _ | ⟨part, _ | ⟨second, parts⟩⟩
  · simp [join, value]
  · simp [join, allValue]
  · simp [join, value]

theorem value_join_or (holds : Comparison → Bool) (parts : List Constraint) :
    (join .or parts).value holds = anyValue holds parts := by
  rcases parts with _ | ⟨part, _ | ⟨second, parts⟩⟩
  · simp [join, value]
  · simp [join, anyValue]
  · simp [join, value]

theorem map_join (f : Comparison → Comparison) (connective : Connective) (parts : List Constraint) :
    (join connective parts).map f = join connective (mapAll f parts) := by
  rcases parts with _ | ⟨part, _ | ⟨second, parts⟩⟩
  · rfl
  · rfl
  · rfl

theorem branching_join (connective : Connective) {part : Constraint} {parts : List Constraint}
    (first : Branching part) (others : AllBranching parts) :
    Branching (join connective (part :: parts)) := by
  rcases parts with _ | ⟨second, parts⟩
  · exact first
  · exact ⟨by simp, first, others⟩

theorem depth_join_le (connective : Connective) (part : Constraint) (parts : List Constraint) :
    (join connective (part :: parts)).depth ≤ 1 + max part.depth (depthAll parts) := by
  rcases parts with _ | ⟨second, parts⟩
  · simp only [join]
    omega
  · exact Nat.le_refl _

/-! ### Changed comparisons -/

mutual

theorem comparisons_map (f : Comparison → Comparison) :
    (t : Constraint) → (t.map f).comparisons = t.comparisons.map f
  | leaf c => rfl
  | chain _ parts => by
    rw [map, comparisons, comparisons, comparisonsAll_mapAll f parts]

theorem comparisonsAll_mapAll (f : Comparison → Comparison) :
    (parts : List Constraint) → comparisonsAll (mapAll f parts) = (comparisonsAll parts).map f
  | [] => rfl
  | part :: parts => by
    rw [mapAll, comparisonsAll, comparisonsAll, List.map_append, comparisons_map f part,
      comparisonsAll_mapAll f parts]

end

mutual

theorem map_map (f g : Comparison → Comparison) :
    (t : Constraint) → (t.map f).map g = t.map (fun c => g (f c))
  | leaf c => rfl
  | chain _ parts => by rw [map, map, map, mapAll_mapAll f g parts]

theorem mapAll_mapAll (f g : Comparison → Comparison) : (parts : List Constraint) →
    mapAll g (mapAll f parts) = mapAll (fun c => g (f c)) parts
  | [] => rfl
  | part :: parts => by rw [mapAll, mapAll, mapAll, map_map f g part, mapAll_mapAll f g parts]

end

theorem length_mapAll (f : Comparison → Comparison) (parts : List Constraint) :
    (mapAll f parts).length = parts.length := by
  induction parts with
  | nil => rfl
  | cons part parts ih => rw [mapAll, List.length_cons, List.length_cons, ih]

mutual

theorem value_map (holds : Comparison → Bool) (f : Comparison → Comparison) :
    (t : Constraint) → (t.map f).value holds = t.value (fun c => holds (f c))
  | leaf c => rfl
  | chain .and parts => by rw [map, value, value, allValue_mapAll holds f parts]
  | chain .or parts => by rw [map, value, value, anyValue_mapAll holds f parts]

theorem allValue_mapAll (holds : Comparison → Bool) (f : Comparison → Comparison) :
    (parts : List Constraint) →
      allValue holds (mapAll f parts) = allValue (fun c => holds (f c)) parts
  | [] => rfl
  | part :: parts => by
    rw [mapAll, allValue, allValue, value_map holds f part, allValue_mapAll holds f parts]

theorem anyValue_mapAll (holds : Comparison → Bool) (f : Comparison → Comparison) :
    (parts : List Constraint) →
      anyValue holds (mapAll f parts) = anyValue (fun c => holds (f c)) parts
  | [] => rfl
  | part :: parts => by
    rw [mapAll, anyValue, anyValue, value_map holds f part, anyValue_mapAll holds f parts]

end

mutual

theorem value_congr {holds holds' : Comparison → Bool} : (t : Constraint) →
    (∀ c ∈ t.comparisons, holds c = holds' c) → t.value holds = t.value holds'
  | leaf c, same => same c List.mem_cons_self
  | chain .and parts, same => by rw [value, value, allValue_congr parts same]
  | chain .or parts, same => by rw [value, value, anyValue_congr parts same]

theorem allValue_congr {holds holds' : Comparison → Bool} : (parts : List Constraint) →
    (∀ c ∈ comparisonsAll parts, holds c = holds' c) → allValue holds parts = allValue holds' parts
  | [], _ => rfl
  | part :: parts, same => by
    rw [allValue, allValue, value_congr part fun c mem => same c (List.mem_append_left _ mem),
      allValue_congr parts fun c mem => same c (List.mem_append_right _ mem)]

theorem anyValue_congr {holds holds' : Comparison → Bool} : (parts : List Constraint) →
    (∀ c ∈ comparisonsAll parts, holds c = holds' c) → anyValue holds parts = anyValue holds' parts
  | [], _ => rfl
  | part :: parts, same => by
    rw [anyValue, anyValue, value_congr part fun c mem => same c (List.mem_append_left _ mem),
      anyValue_congr parts fun c mem => same c (List.mem_append_right _ mem)]

end

/-- A chain whose parts all have one truth value has this value, unless it is empty. -/
theorem values_of_forall {holds : Comparison → Bool} {b : Bool} {parts : List Constraint}
    (some : parts ≠ []) (same : ∀ part ∈ parts, part.value holds = b) :
    allValue holds parts = b ∧ anyValue holds parts = b := by
  induction parts with
  | nil => exact absurd rfl some
  | cons part parts ih =>
    obtain ⟨first, others⟩ := List.forall_mem_cons.1 same
    rw [allValue, anyValue, first]
    cases parts with
    | nil => exact ⟨Bool.and_true b, Bool.or_false b⟩
    | cons second parts =>
      obtain ⟨all, any⟩ := ih (List.cons_ne_nil _ _) others
      rw [all, any, Bool.and_self, Bool.or_self]
      exact ⟨rfl, rfl⟩

mutual

/-- A tree whose comparisons all have one truth value has this value. -/
theorem value_of_forall {holds : Comparison → Bool} {b : Bool} : (t : Constraint) → t.Branching →
    (∀ c ∈ t.comparisons, holds c = b) → t.value holds = b
  | leaf c, _, same => same c List.mem_cons_self
  | chain connective parts, ⟨two, branchings⟩, same => by
    have some : parts ≠ [] := List.ne_nil_of_length_pos (by omega)
    obtain ⟨all, any⟩ := values_of_forall some (parts_value_of_forall parts branchings same)
    cases connective with
    | and => exact all
    | or => exact any

theorem parts_value_of_forall {holds : Comparison → Bool} {b : Bool} : (parts : List Constraint) →
    AllBranching parts → (∀ c ∈ comparisonsAll parts, holds c = b) →
      ∀ part ∈ parts, part.value holds = b
  | [], _, _ => List.forall_mem_nil _
  | part :: parts, ⟨branching, branchings⟩, same => List.forall_mem_cons.2
    ⟨value_of_forall part branching fun c mem => same c (List.mem_append_left _ mem),
      parts_value_of_forall parts branchings fun c mem => same c (List.mem_append_right _ mem)⟩

end

end Constraint

end HalfBinary
