/-!
# Text as bytes

Texts are stored and read as UTF-8.
-/

namespace TapeMachine.Text

/-- The UTF-8 bytes of a text. -/
def toBytes (text : String) : List UInt8 := text.toUTF8.data.toList

/-- The text that bytes spell in UTF-8, if they do. -/
def ofBytes? (bytes : List UInt8) : Option String := String.fromUTF8? ⟨bytes.toArray⟩

/-- The first position from `i` on at which no UTF-8 character starts, if there is one. -/
def invalidFrom (bytes : ByteArray) : Nat → Nat → Option Nat
  | 0, _ => none
  | fuel + 1, i =>
    if i < bytes.size then
      match bytes.utf8DecodeChar? i with
      | some c => invalidFrom bytes fuel (i + c.utf8Size)
      | none => some i
    else none

/-- How many of the bytes come before the first one that spoils UTF-8, if one does. -/
def validUpTo? (bytes : List UInt8) : Option Nat :=
  invalidFrom ⟨bytes.toArray⟩ bytes.length 0

/-- Bytes spell a text exactly when they are its bytes. -/
theorem ofBytes?_eq_some_iff {bytes : List UInt8} {text : String} :
    ofBytes? bytes = some text ↔ bytes = toBytes text := by
  unfold ofBytes? String.fromUTF8?
  constructor
  · intro h
    split at h
    · rw [Option.some.injEq] at h
      subst h
      simp [toBytes, String.fromUTF8]
    · contradiction
  · rintro rfl
    have hvalid : (⟨(toBytes text).toArray⟩ : ByteArray) = text.toByteArray := by simp [toBytes]
    simp only [hvalid, text.isValidUTF8, ↓reduceDIte]
    rfl

end TapeMachine.Text
