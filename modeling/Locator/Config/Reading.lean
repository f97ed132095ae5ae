import Locator.Config.Basic
import Locator.Text.Blank
import Locator.Yaml.Document
import Locator.Yaml.Words

/-!
# Configurations in YAML text

`Config.parse?` reads the text of a configuration file. A text of nothing but blanks says nothing; a
document is a mapping of sections, each a mapping of values, with no name unknown or given twice. A
section or a value that is null is open.
-/

namespace Locator

open Yaml (Node Style)

namespace Config.Reading

/-! ## Values -/

/-- The node is written plainly, or as lines that are kept under the tag of what is expected. -/
def mayBe (expected : String) (style : Style) (tag : Option Bytes) : Bool :=
  style = .plain || (style = .literal && tag == some (Bytes.ofString expected))

def number? : Node → Option UInt64
  | .scalar _ text style tag =>
    if mayBe "tag:yaml.org,2002:int" style tag then
      (Yaml.unsigned? text.toList).bind Text.fitted?
    else none
  | _ => none

def truth? : Node → Option Bool
  | .scalar _ text style tag =>
    if mayBe "tag:yaml.org,2002:bool" style tag then Yaml.boolWord? text else none
  | _ => none

def text? : Node → Option String
  | .scalar _ text _ _ => some text
  | _ => none

/-- Says whether a node is null, unless the tag for null is on something else. A scalar with any
other tag is not null, not even with a lone exclamation mark. -/
def isNull? : Node → Option Bool
  | .scalar _ text .plain none => some (text.isEmpty || Yaml.isNullWord text)
  | .scalar _ text .plain (some tag) =>
    if tag == Bytes.ofString "tag:yaml.org,2002:null" then
      if Yaml.isNullWord text then some true else none
    else some false
  | _ => some false

/-! ## Fields -/

/-- The entries of a mapping by name. A plain scalar that is missing is a mapping without any. -/
def fields? (root node : Node) (names : List String) : Option (List (String × Node)) :=
  match node with
  | .mapping _ entries => do
    let fields ← entries.mapM fun (key, value) => do
      return (← text? (← key.follow root), ← value.follow root)
    let given := fields.map (·.1)
    if given.all names.contains && given.eraseDups.length = given.length then some fields else none
  | .scalar _ "" .plain _ => some []
  | _ => none

/-- The value of a field. The outer `none` says that the value cannot be read. -/
def field? (fields : List (String × Node)) (name : String) (read : Node → Option α) :
    Option (Option α) :=
  match fields.lookup name with
  | none => some none
  | some node => do if ← isNull? node then return none else return some (← read node)

/-! ## Sections -/

def cache? (root node : Node) : Option CacheSection := do
  let fields ← fields? root node ["ttl_seconds"]
  return { ttlSeconds := ← field? fields "ttl_seconds" number? }

def network? (root node : Node) : Option NetworkSection := do
  let fields ← fields? root node ["read_timeout_ms", "trust_self_signed"]
  return {
    readTimeoutMillis := ← field? fields "read_timeout_ms" number?
    trustSelfSigned := ← field? fields "trust_self_signed" truth? }

def extensions? (root node : Node) : Option ExtensionSection := do
  let fields ← fields? root node ["legacy", "current"]
  return {
    legacy := ← field? fields "legacy" text?
    current := ← field? fields "current" text? }

def config? (root : Node) : Option Config := do
  let fields ← fields? root root ["cache", "network", "extensions"]
  return {
    cache := ← field? fields "cache" (cache? root)
    network := ← field? fields "network" (network? root)
    extensions := ← field? fields "extensions" (extensions? root) }

end Config.Reading

/-- The configuration that a text describes. A text without a document says nothing. -/
def Config.parse? (text : String) : Option Config :=
  if Text.allBlank text.toList then some {}
  else (Yaml.document? text).bind fun
    | none => some {}
    | some root => Reading.config? root

end Locator
