/-!
# Named values

Lists of values with distinct names, in the order in which the names first came up.
-/

namespace HalfBinary.Named

/-- Puts a value under a name, in place of an earlier one of that name. -/
def put (entries : List (String × α)) (name : String) (value : α) : List (String × α) :=
  if entries.any (·.1 == name) then
    entries.map fun e => if e.1 == name then (name, value) else e
  else entries ++ [(name, value)]

private theorem lookup_replace_self (entries : List (String × α)) (name : String) (value : α)
    (present : entries.any (·.1 == name) = true) :
    (entries.map fun f => if f.1 == name then (name, value) else f).lookup name = some value := by
  induction entries with
  | nil => simp at present
  | cons f fs ih =>
    rw [List.map_cons, List.lookup_cons]
    by_cases hk : f.1 = name
    · simp [hk]
    · have : fs.any (·.1 == name) = true := by simpa [hk] using present
      have other : (name == f.1) = false := by simpa using Ne.symm hk
      simp only [beq_iff_eq, hk, if_false, other]
      simpa using ih this

private theorem lookup_replace_of_ne (entries : List (String × α)) {name key : String}
    (value : α) (h : key ≠ name) :
    (entries.map fun f => if f.1 == name then (name, value) else f).lookup key =
      entries.lookup key := by
  have hb : (key == name) = false := by simpa using h
  induction entries with
  | nil => rfl
  | cons f fs ih =>
    rw [List.map_cons, List.lookup_cons, List.lookup_cons, ih]
    by_cases hk : f.1 = name
    · simp [hk, hb]
    · simp [hk]

/-- What was put is found. -/
theorem lookup_put_self (entries : List (String × α)) (name : String) (value : α) :
    (put entries name value).lookup name = some value := by
  unfold put
  split
  · next present => exact lookup_replace_self entries name value present
  · next absent =>
    have : entries.lookup name = none := by
      rw [List.lookup_eq_none_iff]
      intro f hf
      exact bne_iff_ne.2 fun same => absent (List.any_eq_true.2 ⟨f, hf, beq_iff_eq.2 same.symm⟩)
    rw [List.lookup_append, this, List.lookup_cons_self]; rfl

/-- Every other name keeps its value. -/
theorem lookup_put_of_ne (entries : List (String × α)) {name key : String} (value : α)
    (h : key ≠ name) : (put entries name value).lookup key = entries.lookup key := by
  unfold put
  split
  · exact lookup_replace_of_ne entries value h
  · rw [List.lookup_append, List.lookup_cons, show (key == name) = false from by simpa using h]
    simp

end HalfBinary.Named
