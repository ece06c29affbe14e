/-
  FormRules.Proofs.ByteOrder

  Names are compared by their code points. That is the order of their bytes in UTF-8: the
  first byte of a character tells how many follow it and is greater for longer forms, and
  the bytes of two forms of one length are digits to base 64, from the first to the last.

  Main statement: `utf8Bytes_lt_iff`.
-/

import FormRules.Text.Utf8

namespace FormRules

/-- The bytes of a text in UTF-8. -/
def utf8Bytes (text : String) : List UInt8 := text.toUTF8.data.toList

/-- The bytes of a text are those of its characters. -/
theorem utf8Bytes_eq (text : String) :
    utf8Bytes text = text.toList.flatMap String.utf8EncodeChar := by
  have hencode : text.toUTF8 = text.toList.utf8Encode := String.utf8Encode_toList.symm
  rw [utf8Bytes, hencode, List.utf8Encode, List.toList_data_toByteArray]

/-! ## Characters -/

/-- Bytes are compared at the front. Only if they are equal does the rest matter. -/
theorem ofNat_cons_lt {m n : Nat} (hle : m ≤ n) (hn : n < 256) {x y : List UInt8}
    (h : m = n → x < y) : UInt8.ofNat m :: x < UInt8.ofNat n :: y := by
  rw [List.cons_lt_cons_iff]
  rcases Nat.lt_or_eq_of_le hle with hlt | rfl
  · left
    rw [UInt8.lt_iff_toNat_lt, UInt8.toNat_ofNat', UInt8.toNat_ofNat',
      Nat.mod_eq_of_lt (by omega), Nat.mod_eq_of_lt hn]
    exact hlt
  · exact Or.inr ⟨rfl, h rfl⟩

/-- Of two texts that begin with different characters, the one with the lower code point is
    the lower one in bytes. -/
theorem utf8EncodeChar_append_lt {c d : Char} (h : c < d) (x y : List UInt8) :
    String.utf8EncodeChar c ++ x < String.utf8EncodeChar d ++ y := by
  have hlt : c.val.toNat < d.val.toNat := h
  have hd : d.val.toNat < 0x110000 := by
    have hvalid := d.valid
    simp only [UInt32.isValidChar, Nat.isValidChar] at hvalid
    omega
  unfold String.utf8EncodeChar
  generalize c.val.toNat = v at hlt
  generalize d.val.toNat = w at hlt hd
  dsimp only
  repeat' split
  all_goals
    -- byte by byte, no byte is greater, and not all of them can be the same
    repeat refine ofNat_cons_lt (by omega) (by omega) fun _ => ?_
    omega

/-! ## Texts -/

theorem flatMap_utf8EncodeChar_lt {a b : List Char} (h : a < b) :
    a.flatMap String.utf8EncodeChar < b.flatMap String.utf8EncodeChar := by
  induction a generalizing b with
  | nil =>
    cases b with
    | nil => exact absurd h (List.not_lt_nil [])
    | cons d b =>
      have hne : String.utf8EncodeChar d ≠ [] := by
        rw [← List.length_pos_iff, String.length_utf8EncodeChar]
        exact d.utf8Size_pos
      obtain ⟨byte, bytes, hbytes⟩ := List.exists_cons_of_ne_nil hne
      rw [List.flatMap_cons, hbytes]
      exact List.nil_lt_cons _ _
  | cons c a ih =>
    cases b with
    | nil => exact absurd h (List.not_lt_nil _)
    | cons d b =>
      rw [List.flatMap_cons, List.flatMap_cons]
      rcases List.cons_lt_cons_iff.1 h with hlt | ⟨rfl, hrest⟩
      · exact utf8EncodeChar_append_lt hlt _ _
      · exact List.append_left_lt (ih hrest)

/-- The order of texts is the order of their bytes. -/
theorem utf8Bytes_lt_iff {a b : String} : utf8Bytes a < utf8Bytes b ↔ a < b := by
  have hmono {a b : String} (h : a < b) : utf8Bytes a < utf8Bytes b := by
    rw [utf8Bytes_eq, utf8Bytes_eq]
    exact flatMap_utf8EncodeChar_lt h
  refine ⟨fun h => ?_, hmono⟩
  by_cases hlt : a < b
  · exact hlt
  · by_cases hgt : b < a
    · exact absurd (hmono hgt) (List.lt_asymm h)
    · obtain rfl : a = b := String.le_antisymm (String.not_lt.1 hgt) (String.not_lt.1 hlt)
      exact absurd h (List.lt_irrefl _)

end FormRules
