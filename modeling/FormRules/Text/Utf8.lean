/-
  FormRules.Text.Utf8

  Lengths in bytes. Positions in a source count the bytes of its UTF-8 form.
-/

namespace FormRules

-- The empty sum is the core zero, also beside that of semirings.
attribute [local instance (10000)] Zero.ofOfNat0

/-- The number of bytes that a text takes in UTF-8. -/
def utf8Length (text : List Char) : Nat := (text.map Char.utf8Size).sum

@[simp] theorem utf8Length_nil : utf8Length [] = 0 := rfl

@[simp] theorem utf8Length_cons (c : Char) (text : List Char) :
    utf8Length (c :: text) = c.utf8Size + utf8Length text := by
  simp [utf8Length]

@[simp] theorem utf8Length_append (a b : List Char) :
    utf8Length (a ++ b) = utf8Length a + utf8Length b := by
  simp [utf8Length]

/-- The length of a whole string is its size in memory. -/
theorem utf8Length_toList (s : String) : utf8Length s.toList = s.utf8ByteSize := by
  have h (text : List Char) : utf8Length text = (String.ofList text).utf8ByteSize := by
    induction text with
    | nil => simp
    | cons c text ih =>
      have split : String.ofList (c :: text) = String.ofList [c] ++ String.ofList text := by
        rw [← String.ofList_append]
        rfl
      have one : (String.ofList [c]).utf8ByteSize = c.utf8Size := by
        rw [← String.singleton_eq_ofList, String.utf8ByteSize_singleton]
      rw [utf8Length_cons, ih, split, String.utf8ByteSize_append, one]
  rw [h, String.ofList_toList]

end FormRules
