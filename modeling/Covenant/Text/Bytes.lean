/-
# Text and bytes

A text as the bytes of its UTF-8 form, and back.

Key definitions: `Text.bytes`, `Text.ofBytes?`.
-/

namespace Covenant
namespace Text

/-- The bytes of a text. -/
def bytes (s : String) : List UInt8 := s.toUTF8.toList

/-- The text of bytes, if they are Unicode text. -/
def ofBytes? (bytes : List UInt8) : Option String := String.fromUTF8? ⟨bytes.toArray⟩

end Text
end Covenant
