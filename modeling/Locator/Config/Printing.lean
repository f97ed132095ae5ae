import Locator.Config.Basic
import Locator.Text.Blank
import Locator.Yaml.Printer

/-!
# Settings in print

All settings as the text of a configuration file, in YAML or as JSON.
-/

namespace Locator.Settings

/-! ## YAML -/

/-- An entry on a line of its own, unless the value ends a line itself. -/
def yamlEntry (name : String) (value : List Char) : List Char :=
  let text := "  ".toList ++ name.toList ++ ':' :: ' ' :: value
  if text.getLast?.any Yaml.isBreak then text else text ++ ['\n']

def yamlHeading (name : String) : List Char := name.toList ++ [':', '\n']

def toYaml (settings : Settings) : String :=
  let text :=
    yamlHeading "cache" ++
    yamlEntry "ttl_seconds" (toString settings.cacheTtl.seconds).toList ++
    yamlHeading "network" ++
    yamlEntry "read_timeout_ms" (toString settings.readTimeout.clampedMillis).toList ++
    yamlEntry "trust_self_signed" (toString settings.trustSelfSigned).toList ++
    yamlHeading "extensions" ++
    yamlEntry "legacy" (Yaml.printScalar settings.legacyExtension) ++
    yamlEntry "current" (Yaml.printScalar settings.currentExtension)
  String.ofList (Text.trimEnd text)

/-! ## JSON -/

/-- The character in a JSON string. -/
def jsonEscaped (c : Char) : List Char :=
  match c with
  | '"' => ['\\', '"']
  | '\\' => ['\\', '\\']
  | '\x08' => "\\b".toList
  | '\t' => "\\t".toList
  | '\n' => "\\n".toList
  | '\x0c' => "\\f".toList
  | '\r' => "\\r".toList
  | c => if c < ' ' then "\\u".toList ++ Text.hexDigits 4 c.toNat else [c]

def jsonString (text : String) : String :=
  "\"" ++ String.ofList (text.toList.flatMap jsonEscaped) ++ "\""

/-- An object with its entries on lines of their own, which are indented by `depth` columns. -/
def jsonObject (depth : Nat) (entries : List (String × String)) : String :=
  let line (entry : String × String) : String :=
    String.ofList (List.replicate (depth + 2) ' ') ++ jsonString entry.1 ++ ": " ++ entry.2
  "\x7b\n" ++ String.intercalate ",\n" (entries.map line) ++ "\n" ++
    String.ofList (List.replicate depth ' ') ++ "\x7d"

def toJson (settings : Settings) : String :=
  jsonObject 0 [
    ("cache", jsonObject 2 [("ttl_seconds", toString settings.cacheTtl.seconds)]),
    ("network", jsonObject 2 [
      ("read_timeout_ms", toString settings.readTimeout.clampedMillis),
      ("trust_self_signed", toString settings.trustSelfSigned)]),
    ("extensions", jsonObject 2 [
      ("legacy", jsonString settings.legacyExtension),
      ("current", jsonString settings.currentExtension)])]

end Locator.Settings
