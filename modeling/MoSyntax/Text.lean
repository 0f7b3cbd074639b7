/-!
Text is a list of characters. Offsets into a text count the bytes of its UTF-8 form, so an offset
may fall inside a character; `dropBytes?` and `takeBytes?` answer exactly on character boundaries.
-/
namespace MoSyntax

abbrev Text := List Char

namespace Text

/-- The length of the UTF-8 form. -/
def byteSize : Text → Nat
  | [] => 0
  | c :: text => c.utf8Size + byteSize text

@[simp] theorem byteSize_nil : byteSize [] = 0 := rfl

@[simp] theorem byteSize_cons (c : Char) (text : Text) :
    byteSize (c :: text) = c.utf8Size + byteSize text := rfl

@[simp] theorem byteSize_append (first second : Text) :
    byteSize (first ++ second) = byteSize first + byteSize second := by
  induction first with
  | nil => simp
  | cons c first ih => simp [ih, Nat.add_assoc]

/-- What follows the first `n` bytes. -/
def dropBytes? : Nat → Text → Option Text
  | 0, text => some text
  | _ + 1, [] => none
  | n + 1, c :: text =>
    if c.utf8Size ≤ n + 1 then dropBytes? (n + 1 - c.utf8Size) text else none

/-- The first `n` bytes. -/
def takeBytes? : Nat → Text → Option Text
  | 0, _ => some []
  | _ + 1, [] => none
  | n + 1, c :: text =>
    if c.utf8Size ≤ n + 1 then (takeBytes? (n + 1 - c.utf8Size) text).map (c :: ·) else none

@[simp] theorem dropBytes?_append (first second : Text) :
    dropBytes? (byteSize first) (first ++ second) = some second := by
  induction first with
  | nil => simp [dropBytes?]
  | cons c first ih =>
    have pos := c.utf8Size_pos
    obtain ⟨n, size⟩ : ∃ n, byteSize (c :: first) = n + 1 :=
      ⟨byteSize (c :: first) - 1, by simp; omega⟩
    simp only [byteSize_cons] at size
    simp only [byteSize_cons, size, List.cons_append, dropBytes?]
    rw [if_pos (by omega), show n + 1 - c.utf8Size = byteSize first by omega, ih]

@[simp] theorem takeBytes?_append (first second : Text) :
    takeBytes? (byteSize first) (first ++ second) = some first := by
  induction first with
  | nil => simp [takeBytes?]
  | cons c first ih =>
    have pos := c.utf8Size_pos
    obtain ⟨n, size⟩ : ∃ n, byteSize (c :: first) = n + 1 :=
      ⟨byteSize (c :: first) - 1, by simp; omega⟩
    simp only [byteSize_cons] at size
    simp only [byteSize_cons, size, List.cons_append, takeBytes?]
    rw [if_pos (by omega), show n + 1 - c.utf8Size = byteSize first by omega, ih]
    rfl

end Text

end MoSyntax
