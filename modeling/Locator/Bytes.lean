/-!
# Contents

What files, pages and streams hold: bytes, which may or may not be text.
-/

namespace Locator

/-- The content of a file, a page or a stream. -/
abbrev Bytes := List UInt8

namespace Bytes

/-- The UTF-8 form of a text. -/
def ofString (text : String) : Bytes :=
  text.toUTF8.data.toList

/-- The text that the bytes are the UTF-8 form of, if they are. -/
def toString? (bytes : Bytes) : Option String :=
  String.fromUTF8? ⟨bytes.toArray⟩

end Bytes

end Locator
