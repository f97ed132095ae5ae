import Locator.Config.Printing
import Locator.Config.Reading
import Locator.Proofs.Duration
import Locator.Proofs.Text.Number

/-!
# Documents that say everything

All settings make up a document of three sections. In YAML it is written as blocks, in JSON with
braces and with quotes around the names, and either way the same is read from it.

* `document?_of_blockTokens`, `document?_of_flowTokens`: the document that tokens amount to
* `config?_document`: what the document says
* `parse?_document`: it says the settings that it was written for, if its texts do
-/

namespace Locator

open Yaml (Node Style Token)

/-! ## Numbers -/

namespace Yaml

/-- Digits to base ten that denote a number other than zero do not start with one. -/
theorem head?_toDigits {value : Nat} (h : value ≠ 0) :
    (Nat.toDigits 10 value).head? ≠ some '0' := by
  induction value using Nat.strongRecOn with
  | ind value ih =>
    by_cases hlt : value < 10
    · have hdigit : ∀ digit < 10, digit ≠ 0 → Nat.digitChar digit ≠ '0' := by decide
      rw [Nat.toDigits_of_lt_base hlt]
      simpa using hdigit value hlt h
    · have hne : Nat.toDigits 10 (value / 10) ≠ [] := Nat.toDigits_ne_nil
      obtain ⟨c, rest, hcons⟩ := List.exists_cons_of_ne_nil hne
      have hfirst := ih (value / 10) (by omega) (by omega)
      rw [hcons] at hfirst
      rw [Nat.toDigits_of_base_le (by decide) (Nat.not_lt.1 hlt), hcons]
      exact hfirst

theorem hasLeadingZero_toDigits (value : Nat) : hasLeadingZero (Nat.toDigits 10 value) = false := by
  by_cases hne : value = 0
  · rw [hne]
    rfl
  · have hfirst := head?_toDigits hne
    rw [hasLeadingZero.eq_def]
    split
    · next heq =>
      rw [heq] at hfirst
      exact absurd rfl hfirst
    · rfl

/-- A number is read from the digits that it is written with. -/
theorem unsigned?_toDigits (value : Nat) : unsigned? (Nat.toDigits 10 value) = some value := by
  have hdigits : ∀ c ∈ Nat.toDigits 10 value, c.isDigit = true :=
    fun _ => Nat.isDigit_of_mem_toDigits (by decide) (by decide)
  have hnumber : Text.number? 10 (Nat.toDigits 10 value) = some value :=
    Text.number?_ten_eq_some_iff.2 ⟨Nat.toDigits_ne_nil, hdigits, Nat.ofDigitChars_ten_toDigits⟩
  have hzero := hasLeadingZero_toDigits value
  generalize Nat.toDigits 10 value = digits at *
  have hplus : dropPlus digits = digits := by
    rw [dropPlus.eq_def]
    split
    · exact absurd (hdigits '+' List.mem_cons_self) (by decide)
    · rfl
  have hbase : based? digits = none := by
    rw [based?.eq_def]
    split
    · exact absurd (hdigits 'x' (by simp)) (by decide)
    · exact absurd (hdigits 'o' (by simp)) (by decide)
    · exact absurd (hdigits 'b' (by simp)) (by decide)
    · rfl
  rw [unsigned?, hplus, magnitude?, hbase]
  simp only [hzero, Bool.false_eq_true, if_false]
  exact hnumber

end Yaml

namespace Settings

/-! ## Documents -/

/-- A name and its value in a section. -/
def entry (style : Style) (name : String) (value : Node) : Node × Node :=
  (.scalar none name style none, value)

/-- A word that is written plainly. -/
def word (text : String) : Node := .scalar none text .plain none

def cacheNode (settings : Settings) (style : Style) : Node :=
  .mapping none [entry style "ttl_seconds" (word (toString settings.cacheTtl.seconds))]

def networkNode (settings : Settings) (style : Style) : Node :=
  .mapping none [
    entry style "read_timeout_ms" (word (toString settings.readTimeout.clampedMillis)),
    entry style "trust_self_signed" (word (toString settings.trustSelfSigned))]

def extensionNode (style : Style) (legacy current : String × Style) : Node :=
  .mapping none [
    entry style "legacy" (.scalar none legacy.1 legacy.2 none),
    entry style "current" (.scalar none current.1 current.2 none)]

/-- The document that all settings are printed as. The names are written in one style. -/
def document (settings : Settings) (style : Style) (legacy current : String × Style) : Node :=
  .mapping none [
    entry style "cache" (cacheNode settings style),
    entry style "network" (networkNode settings style),
    entry style "extensions" (extensionNode style legacy current)]

/-! ## Tokens -/

/-- A name and its value as tokens. -/
def entryTokens (style : Style) (name : String) (value : List Token) : List Token :=
  .key :: .scalar name style :: .value :: value

def blockTokens (settings : Settings) (legacy current : String × Style) : List Token :=
  let block (entries : List Token) : List Token := .blockMappingStart :: (entries ++ [.blockEnd])
  block (
    entryTokens .plain "cache" (block (
      entryTokens .plain "ttl_seconds" [.scalar (toString settings.cacheTtl.seconds) .plain])) ++
    entryTokens .plain "network" (block (
      entryTokens .plain "read_timeout_ms"
        [.scalar (toString settings.readTimeout.clampedMillis) .plain] ++
      entryTokens .plain "trust_self_signed"
        [.scalar (toString settings.trustSelfSigned) .plain])) ++
    entryTokens .plain "extensions" (block (
      entryTokens .plain "legacy" [.scalar legacy.1 legacy.2] ++
      entryTokens .plain "current" [.scalar current.1 current.2])))

def flowTokens (settings : Settings) (legacy current : String × Style) : List Token :=
  let flow (entries : List Token) : List Token :=
    .flowMappingStart :: (entries ++ [.flowMappingEnd])
  flow (
    entryTokens .doubleQuoted "cache" (flow (
      entryTokens .doubleQuoted "ttl_seconds"
        [.scalar (toString settings.cacheTtl.seconds) .plain])) ++
    .flowEntry :: entryTokens .doubleQuoted "network" (flow (
      entryTokens .doubleQuoted "read_timeout_ms"
        [.scalar (toString settings.readTimeout.clampedMillis) .plain] ++
      .flowEntry :: entryTokens .doubleQuoted "trust_self_signed"
        [.scalar (toString settings.trustSelfSigned) .plain])) ++
    .flowEntry :: entryTokens .doubleQuoted "extensions" (flow (
      entryTokens .doubleQuoted "legacy" [.scalar legacy.1 legacy.2] ++
      .flowEntry :: entryTokens .doubleQuoted "current" [.scalar current.1 current.2])))

variable {settings : Settings} {text : String} {legacy current : String × Style}

theorem document?_of_blockTokens
    (h : Yaml.tokens? text = some (blockTokens settings legacy current)) :
    Yaml.document? text = some (some (document settings .plain legacy current)) := by
  rw [Yaml.document?, h]
  rfl

theorem document?_of_flowTokens
    (h : Yaml.tokens? text = some (flowTokens settings legacy current)) :
    Yaml.document? text = some (some (document settings .doubleQuoted legacy current)) := by
  rw [Yaml.document?, h]
  rfl

/-! ## Reading -/

open Config.Reading

theorem toList_toString (number : UInt64) :
    (toString number).toList = Nat.toDigits 10 number.toNat := by
  have hdigits : toString number = String.ofList (Nat.toDigits 10 number.toNat) :=
    Nat.toString_eq_ofList_toDigits
  rw [hdigits, String.toList_ofList]

theorem toList_toString_ne_nil (number : UInt64) : (toString number).toList ≠ [] := by
  rw [toList_toString]
  exact Nat.toDigits_ne_nil

theorem isDigit_of_mem_toString {number : UInt64} {c : Char} (h : c ∈ (toString number).toList) :
    c.isDigit = true := by
  rw [toList_toString] at h
  exact Nat.isDigit_of_mem_toDigits (by decide) (by decide) h

theorem number?_toString (number : UInt64) :
    number? (.scalar none (toString number) .plain none) = some number := by
  rw [number?, toList_toString, Yaml.unsigned?_toDigits]
  exact Text.fitted?_eq_some_iff.2 rfl

theorem isNull?_toString (number : UInt64) :
    isNull? (.scalar none (toString number) .plain none) = some false := by
  have hnull : (toString number).isEmpty = false ∧ Yaml.isNullWord (toString number) = false := by
    obtain ⟨c, rest, htext⟩ := List.exists_cons_of_ne_nil (toList_toString_ne_nil number)
    have hdigit : c.isDigit = true :=
      isDigit_of_mem_toString (by rw [htext]; exact List.mem_cons_self)
    have hne (other : String) (hother : other.toList.head?.any Char.isDigit = false) :
        toString number ≠ other := by
      rintro rfl
      rw [htext] at hother
      simp [hdigit] at hother
    refine ⟨?_, ?_⟩
    · rw [← Bool.not_eq_true, String.isEmpty_iff]
      exact hne "" rfl
    · rw [Yaml.isNullWord]
      simp [hne "null" rfl, hne "Null" rfl, hne "NULL" rfl, hne "~" rfl]
  simp [isNull?, hnull]

/-- What is read of a text: a plain word for null is nothing. -/
def readText (scalar : String × Style) : Option String :=
  if scalar.2 = .plain ∧ (scalar.1 = "" ∨ Yaml.isNullWord scalar.1 = true) then none
  else some scalar.1

theorem field?_text {fields : List (String × Node)} {name : String} {scalar : String × Style}
    (h : fields.lookup name = some (.scalar none scalar.1 scalar.2 none)) :
    field? fields name text? = some (readText scalar) := by
  obtain ⟨text, style⟩ := scalar
  have hnull : isNull? (.scalar none text style none) =
      some (decide (style = .plain ∧ (text = "" ∨ Yaml.isNullWord text = true))) := by
    cases style with
    | plain => simp [isNull?, Bool.decide_or, Bool.decide_eq_true, ← String.isEmpty_iff]
    | _ => rfl
  rw [field?, h]
  simp only [hnull, Option.bind_eq_bind, Option.bind_some, readText]
  split <;> simp_all [text?]

/-- A value that is not null. -/
theorem field?_value {α : Type} {fields : List (String × Node)} {name : String} {node : Node}
    {read : Node → Option α} {value : α} (h : fields.lookup name = some node)
    (hnull : isNull? node = some false) (hread : read node = some value) :
    field? fields name read = some (some value) := by
  rw [field?, h]
  simp [hnull, hread]

theorem cache?_cacheNode (settings : Settings) (root : Node) (style : Style) :
    cache? root (cacheNode settings style) =
      some { ttlSeconds := some settings.cacheTtl.seconds } := by
  have hfields : fields? root (cacheNode settings style) ["ttl_seconds"] =
      some [("ttl_seconds", word (toString settings.cacheTtl.seconds))] := rfl
  have httl : field? [("ttl_seconds", word (toString settings.cacheTtl.seconds))] "ttl_seconds"
      number? = some (some settings.cacheTtl.seconds) :=
    field?_value rfl (isNull?_toString _) (number?_toString _)
  rw [cache?, hfields, Option.bind_eq_bind, Option.bind_some, httl]
  rfl

theorem network?_networkNode (settings : Settings) (root : Node) (style : Style) :
    network? root (networkNode settings style) = some {
      readTimeoutMillis := some settings.readTimeout.clampedMillis
      trustSelfSigned := some settings.trustSelfSigned } := by
  have hfields : fields? root (networkNode settings style)
      ["read_timeout_ms", "trust_self_signed"] = some [
        ("read_timeout_ms", word (toString settings.readTimeout.clampedMillis)),
        ("trust_self_signed", word (toString settings.trustSelfSigned))] := rfl
  have htruth (value : Bool) : isNull? (word (toString value)) = some false ∧
      truth? (word (toString value)) = some value := by
    cases value <;> exact ⟨rfl, rfl⟩
  rw [network?, hfields, Option.bind_eq_bind, Option.bind_some,
    field?_value rfl (isNull?_toString _) (number?_toString _), Option.bind_eq_bind,
    Option.bind_some, field?_value rfl (htruth _).1 (htruth _).2]
  rfl

theorem extensions?_extensionNode (root : Node) (style : Style) (legacy current : String × Style) :
    extensions? root (extensionNode style legacy current) =
      some { legacy := readText legacy, current := readText current } := by
  have hfields : fields? root (extensionNode style legacy current) ["legacy", "current"] = some [
      ("legacy", .scalar none legacy.1 legacy.2 none),
      ("current", .scalar none current.1 current.2 none)] := rfl
  rw [extensions?, hfields, Option.bind_eq_bind, Option.bind_some, field?_text rfl,
    Option.bind_eq_bind, Option.bind_some, field?_text rfl]
  rfl

theorem config?_document (settings : Settings) (style : Style) (legacy current : String × Style) :
    config? (document settings style legacy current) = some {
      cache := some { ttlSeconds := some settings.cacheTtl.seconds }
      network := some {
        readTimeoutMillis := some settings.readTimeout.clampedMillis
        trustSelfSigned := some settings.trustSelfSigned }
      extensions := some {
        legacy := readText legacy
        current := readText current } } := by
  have htop : fields? (document settings style legacy current)
      (document settings style legacy current) ["cache", "network", "extensions"] = some [
        ("cache", cacheNode settings style), ("network", networkNode settings style),
        ("extensions", extensionNode style legacy current)] := rfl
  generalize document settings style legacy current = root at htop
  rw [config?, htop, Option.bind_eq_bind, Option.bind_some,
    field?_value rfl rfl (cache?_cacheNode settings root style), Option.bind_eq_bind,
    Option.bind_some, field?_value rfl rfl (network?_networkNode settings root style),
    Option.bind_eq_bind, Option.bind_some,
    field?_value rfl rfl (extensions?_extensionNode root style legacy current)]
  rfl

end Settings

/-! ## Reading all settings back -/

namespace Config

open Settings

variable {config : Config} {text : String} {style : Style} {legacy current : String × Style}

/-- From a document with all settings of a configuration, everything but the extensions is read
back. -/
theorem parse?_document (hblank : Text.allBlank text.toList = false)
    (h : Yaml.document? text = some (some (document config.resolved style legacy current))) :
    (∃ read, parse? text = some read ∧ read.resolved = config.resolved) ↔
      (readText legacy).getD defaultLegacyExtension = config.resolved.legacyExtension ∧
        (readText current).getD defaultCurrentExtension = config.resolved.currentExtension := by
  rw [parse?, hblank, h]
  simp only [Bool.false_eq_true, if_false, Option.bind_some, config?_document, Option.some.injEq,
    exists_eq_left']
  simp [resolved, ttlSeconds?, readTimeoutMillis?, trustSelfSigned?, legacyExtension?,
    currentExtension?, Duration.clampedMillis_ofMillis, Duration.ofSeconds]

end Config

end Locator
