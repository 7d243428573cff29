import Mathlib
import HalfBinary.Text.Bytes

/-!
# Bytes of texts

A text as the bytes of its UTF-8 form, and cuts of a text at byte positions. A cut fails inside a
character and past the end, so that it is possible exactly at the valid positions of a string
(`isSome_cut?_iff`).
-/

namespace HalfBinary.Text

/-! ### Symbols -/

/-- The bytes of some characters, each as the character of its value. -/
def symbols (cs : List Char) : List Char := (cs.flatMap String.utf8EncodeChar).map Char.ofUInt8

/-- A text has the bytes of its characters. -/
theorem toUTF8_toList (s : String) :
    s.toUTF8.data.toList = s.toList.flatMap String.utf8EncodeChar := by
  have encoded : s.toUTF8 = s.toList.utf8Encode := by
    rw [String.toUTF8_eq_toByteArray, ← String.toByteArray_ofList, String.ofList_toList]
  rw [encoded, List.utf8Encode, List.data_toByteArray]

theorem symbols_toList (s : String) : symbols s.toList = s.toUTF8.data.toList.map Char.ofUInt8 := by
  rw [toUTF8_toList, symbols]

@[simp] theorem symbols_nil : symbols [] = [] := rfl

@[simp] theorem symbols_append (cs ds : List Char) :
    symbols (cs ++ ds) = symbols cs ++ symbols ds := by
  simp [symbols]

@[simp] theorem length_symbols (cs : List Char) : (symbols cs).length = byteLength cs := by
  induction cs with
  | nil => rfl
  | cons c cs ih =>
    rw [symbols, List.length_map] at ih
    rw [symbols, List.flatMap_cons, List.map_append, List.length_append, List.length_map,
      List.length_map, String.length_utf8EncodeChar, ih, byteLength_cons]

theorem toNat_val_ofUInt8 (b : UInt8) : (Char.ofUInt8 b).val.toNat = b.toNat :=
  UInt8.toNat_toUInt32 b

/-- A character of one byte is its own symbol. -/
theorem symbols_of_ascii {c : Char} (ascii : c.val ≤ 127) (cs : List Char) :
    symbols (c :: cs) = c :: symbols cs := by
  have small : c.val.toNat ≤ 127 := UInt32.le_iff_toNat_le.1 ascii
  have same : Char.ofUInt8 c.val.toUInt8 = c := by
    apply Char.ext
    rw [← UInt32.toNat_inj, toNat_val_ofUInt8, UInt32.toNat_toUInt8, Nat.mod_eq_of_lt (by omega)]
  have single := Char.utf8Size_eq_one_iff.2 ascii
  rw [symbols, List.flatMap_cons, String.utf8EncodeChar_eq_singleton single, List.map_append,
    List.map_singleton, same]
  rfl

/-- The first symbol of a longer character is none of one byte. -/
theorem exists_symbols_of_wide {c : Char} (wide : ¬ c.val ≤ 127) (cs : List Char) :
    ∃ d ds, symbols (c :: cs) = d :: ds ∧ ¬ d.val ≤ 127 := by
  have large : ¬ c.val.toNat ≤ 127 := fun small => wide (UInt32.le_iff_toNat_le.2 small)
  have lead : ∃ b bs, String.utf8EncodeChar c = b :: bs ∧ ¬ b.toNat ≤ 127 := by
    unfold String.utf8EncodeChar
    simp only [large, if_false]
    split
    · exact ⟨_, _, rfl, by simp; omega⟩
    · split
      · exact ⟨_, _, rfl, by simp; omega⟩
      · exact ⟨_, _, rfl, by simp; omega⟩
  obtain ⟨b, bs, encoded, high⟩ := lead
  refine ⟨Char.ofUInt8 b, _, by rw [symbols, List.flatMap_cons, encoded]; rfl, ?_⟩
  rwa [UInt32.le_iff_toNat_le, toNat_val_ofUInt8]

/-- A condition that only characters of one byte meet. -/
def IsAscii (p : Char → Bool) : Prop := ∀ c, p c = true → c.val ≤ 127

/-- Where characters go on there are symbols, and the first of them meets the same conditions as
the first character. -/
theorem exists_symbols_cons (c : Char) (cs : List Char) :
    ∃ d ds, symbols (c :: cs) = d :: ds ∧ ∀ p, IsAscii p → p d = p c := by
  by_cases small : c.val ≤ 127
  · exact ⟨c, symbols cs, symbols_of_ascii small cs, fun _ _ => rfl⟩
  · obtain ⟨d, ds, same, wide⟩ := exists_symbols_of_wide small cs
    refine ⟨d, ds, same, fun p ascii => ?_⟩
    have notC : p c = false := Bool.eq_false_iff.2 fun meets => small (ascii c meets)
    have notD : p d = false := Bool.eq_false_iff.2 fun meets => wide (ascii d meets)
    rw [notC, notD]

theorem head?_symbols_any {p : Char → Bool} (ascii : IsAscii p) (cs : List Char) :
    (symbols cs).head?.any p = cs.head?.any p := by
  cases cs with
  | nil => rfl
  | cons c cs =>
    obtain ⟨d, ds, same, alike⟩ := exists_symbols_cons c cs
    rw [same, List.head?_cons, List.head?_cons, Option.any_some, Option.any_some, alike p ascii]

/-- The symbols that meet such a condition are the characters that do. -/
theorem takeWhile_symbols {p : Char → Bool} (ascii : IsAscii p) (cs : List Char) :
    (symbols cs).takeWhile p = cs.takeWhile p := by
  induction cs with
  | nil => rfl
  | cons c cs ih =>
    by_cases meets : p c = true
    · rw [symbols_of_ascii (ascii c meets), List.takeWhile_cons, List.takeWhile_cons, ih]
    · obtain ⟨d, ds, same, alike⟩ := exists_symbols_cons c cs
      rw [same, List.takeWhile_cons_of_neg (by rwa [alike p ascii]),
        List.takeWhile_cons_of_neg meets]

theorem byteLength_of_ascii {cs : List Char} (ascii : ∀ c ∈ cs, c.val ≤ 127) :
    byteLength cs = cs.length := by
  induction cs with
  | nil => rfl
  | cons c cs ih =>
    obtain ⟨first, others⟩ := List.forall_mem_cons.1 ascii
    rw [byteLength_cons, ih others, Char.utf8Size_eq_one_iff.2 first, List.length_cons, Nat.add_comm]

theorem byteLength_takeWhile {p : Char → Bool} (ascii : IsAscii p) (cs : List Char) :
    byteLength (cs.takeWhile p) = (cs.takeWhile p).length := by
  refine byteLength_of_ascii fun c mem => ascii c ?_
  exact List.mem_takeWhile_imp mem

/-! ### Cuts -/

/-- Cuts characters after some bytes; none if this is inside a character or past the end. -/
def cut? : Nat → List Char → Option (List Char × List Char)
  | 0, cs => some ([], cs)
  | _ + 1, [] => none
  | n + 1, c :: cs =>
    if c.utf8Size ≤ n + 1 then
      (cut? (n + 1 - c.utf8Size) cs).map fun (front, back) => (c :: front, back)
    else none

theorem cut?_byteLength (front back : List Char) :
    cut? (byteLength front) (front ++ back) = some (front, back) := by
  induction front with
  | nil => cases back <;> rfl
  | cons c front ih =>
    have positive := c.utf8Size_pos
    obtain ⟨n, size⟩ : ∃ n, byteLength (c :: front) = n + 1 :=
      Nat.exists_eq_add_one.2 (by rw [byteLength_cons]; omega)
    have rest : n + 1 - c.utf8Size = byteLength front := by
      rw [← size, byteLength_cons]
      omega
    rw [size, List.cons_append, cut?, if_pos (by rw [← size, byteLength_cons]; omega), rest, ih]
    rfl

theorem eq_of_cut? {n : Nat} {cs front back : List Char} (h : cut? n cs = some (front, back)) :
    cs = front ++ back ∧ n = byteLength front := by
  fun_induction cut? n cs generalizing front back with
  | case1 cs =>
    cases h
    exact ⟨rfl, rfl⟩
  | case2 => cases h
  | case3 n c cs fits ih =>
    obtain ⟨⟨front', back'⟩, found, same⟩ := Option.map_eq_some_iff.1 h
    cases same
    obtain ⟨rfl, size⟩ := ih found
    refine ⟨rfl, ?_⟩
    rw [byteLength_cons, ← size]
    omega
  | case4 => cases h

/-- A string can be cut exactly at its valid positions. -/
theorem isSome_cut?_iff (s : String) (n : Nat) :
    (cut? n s.toList).isSome ↔ (⟨n⟩ : String.Pos.Raw).IsValid s := by
  rw [String.Pos.Raw.isValid_iff_exists_append, Option.isSome_iff_exists]
  constructor
  · rintro ⟨⟨front, back⟩, found⟩
    obtain ⟨same, rfl⟩ := eq_of_cut? found
    refine ⟨String.ofList front, String.ofList back, ?_, ?_⟩
    · rw [← String.ofList_append, ← same, String.ofList_toList]
    · apply String.Pos.Raw.ext
      exact (utf8ByteSize_ofList front).symm
  · rintro ⟨front, back, rfl, size⟩
    have count : n = byteLength front.toList := by
      rw [byteLength_toList]
      exact congrArg String.Pos.Raw.byteIdx size
    rw [count, String.toList_append]
    exact ⟨_, cut?_byteLength _ _⟩

/-- The size of what is in front of a part of a string is a position in it. -/
theorem isValid_byteLength {s : String} {front back : List Char} (split : s.toList = front ++ back) :
    byteLength front ≤ s.utf8ByteSize ∧ (⟨byteLength front⟩ : String.Pos.Raw).IsValid s := by
  refine ⟨?_, (isSome_cut?_iff s _).1 ?_⟩
  · rw [← byteLength_toList, split, byteLength_append]
    exact Nat.le_add_right _ _
  · rw [split, cut?_byteLength]
    rfl

end HalfBinary.Text
