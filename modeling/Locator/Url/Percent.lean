import Locator.Bytes
import Locator.Text.Number

/-!
# Percent encoding

How a URL writes characters that cannot stand in it: as the bytes of their UTF-8 form, each as a
percent sign and two digits. Which characters these are differs from part to part.
-/

namespace Locator.Url

/-! ## Which characters are encoded -/

/-- No part of a URL holds control characters or characters outside ASCII. -/
def isNeverPlain (c : Char) : Bool := c < ' ' || '~' < c

def isEncodedInFragment (c : Char) : Bool :=
  isNeverPlain c || " \"<>\x60".toList.contains c

def isEncodedInQuery (c : Char) : Bool :=
  isNeverPlain c || " \"#<>'".toList.contains c

def isEncodedInPath (c : Char) : Bool :=
  isNeverPlain c || " \"#<>?\x60\x7b\x7d".toList.contains c

/-! ## Encoding and decoding -/

def encodeByte (byte : UInt8) : List Char :=
  '%' :: Text.upperHexDigits 2 byte.toNat

/-- Encodes the characters that have to be. -/
def percentEncode (isEncoded : Char → Bool) (text : List Char) : List Char :=
  text.flatMap fun c =>
    if isEncoded c then (Bytes.ofString c.toString).flatMap encodeByte else [c]

/-- The bytes that a text denotes. A percent sign without two digits behind it stands for itself. -/
def percentDecode : List Char → Bytes
  | '%' :: high :: low :: rest =>
    match Text.digitValue? high, Text.digitValue? low with
    | some high, some low => UInt8.ofNat (high * 16 + low) :: percentDecode rest
    | _, _ => UInt8.ofNat '%'.toNat :: percentDecode (high :: low :: rest)
  | c :: rest => Bytes.ofString c.toString ++ percentDecode rest
  | [] => []

end Locator.Url
