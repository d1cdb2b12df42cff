/-!
Text as bytes of UTF-8. Files and JSON documents are lists of bytes, and not every such list is a
text.
-/

namespace CraftLang.Text

def utf8Bytes (s : String) : List UInt8 :=
  s.toByteArray.data.toList

def utf8Text? (bytes : List UInt8) : Option String :=
  String.fromUTF8? ⟨bytes.toArray⟩

@[simp] theorem utf8Text?_utf8Bytes (s : String) : utf8Text? (utf8Bytes s) = some s := by
  have h : (⟨s.toByteArray.data.toList.toArray⟩ : ByteArray) = s.toByteArray := by simp
  rw [utf8Text?, utf8Bytes, h, String.fromUTF8?]
  simp [String.fromUTF8, s.isValidUTF8]

end CraftLang.Text
