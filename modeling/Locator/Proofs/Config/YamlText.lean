import Locator.Proofs.Config.Documents
import Locator.Proofs.Yaml.Trimmed

/-!
# Settings in YAML text

The settings are printed as three sections, each a heading with its entries on the lines behind it.
The blanks at the end of the whole text are dropped, and a line feed is put there: the text is the
serializer's unless its last value ends with other blanks.

* `Reaches.heading`, `Reaches.wordEntry`, `Reaches.textEntry`: the scanner passes a line
* `run_yamlText`: the text of the serializer is read as the settings
* `run_trimmed`: a text that is not that of the serializer is not
-/

namespace Locator

open Yaml

namespace Settings

/-! ## Lines -/

/-- An entry without the blanks in front of it. -/
def entryLine (name : String) (value : List Char) : List Char :=
  name.toList ++ ':' :: ' ' :: lineOf value

theorem yamlEntry_eq (name : String) (value : List Char) :
    yamlEntry name value = List.replicate 2 ' ' ++ entryLine name value := by
  have hlast : (List.replicate 2 ' ' ++ name.toList ++ ':' :: ' ' :: value).getLast?.any isBreak =
      value.getLast?.any isBreak := by
    rw [List.getLast?_append, List.getLast?_cons, List.getLast?_cons]
    cases value.getLast? <;> simp [isBreak]
  have htwo : "  ".toList = List.replicate 2 ' ' := rfl
  rw [yamlEntry, entryLine, lineOf]
  simp only [htwo, hlast]
  split <;> simp

theorem lineOf_word {word : List Char} (h : IsName word) : lineOf word = word ++ ['\n'] := by
  obtain ⟨front, last, rfl⟩ : ∃ front last, word = front ++ [last] :=
    ⟨_, _, (List.dropLast_concat_getLast h.ne_nil).symm⟩
  exact lineOf_concat (h.isPlain.chars last (by simp)).1

theorem isName_toString (number : UInt64) : IsName (toString number).toList := by
  have hdigit (c : Char) (hc : c ∈ (toString number).toList) := isDigit_of_mem_toString hc
  refine ⟨fun c hc => ?_, fun hfirst => ?_, toList_toString_ne_nil number, ?_⟩
  · simp [isNameChar, Char.isAlphanum, hdigit c hc]
  · exact absurd (hdigit '-' (List.mem_of_mem_head? hfirst)) (by decide)
  · have hlength : (Nat.toDigits 10 number.toNat).length ≤ 20 :=
      (Nat.length_toDigits_le_iff (by decide) (by decide)).2
        (Nat.lt_trans number.toNat_lt (by decide))
    rw [toList_toString]
    exact Nat.le_trans hlength (by decide)

theorem isName_truth (value : Bool) : IsName (toString value).toList := by
  cases value <;> exact ⟨List.all_eq_true.1 (by decide), by decide, by decide, by decide⟩

/-- The names of the sections and of what is in them. -/
def names : List String :=
  ["cache", "ttl_seconds", "network", "read_timeout_ms", "trust_self_signed", "extensions",
    "legacy", "current"]

theorem isName_of_mem {name : String} (h : name ∈ names) : IsName name.toList := by
  simp only [names, List.mem_cons, List.not_mem_nil, or_false] at h
  obtain rfl | rfl | rfl | rfl | rfl | rfl | rfl | rfl := h <;>
    exact ⟨List.all_eq_true.1 (by decide), by decide, by decide, by decide⟩

end Settings

namespace Yaml

open Settings (yamlHeading entryLine)

variable {scanner : Scanner} {name : String} {after value : List Char} {columns : List Nat}
  {tokens : List Token} {n : Nat}

/-! ## Sections and entries -/

/-- Where nothing is open behind it, nothing is closed at a position. -/
theorem Position.closed_eq {position : Position}
    (h : ∀ column ∈ position.columns.head?, column ≤ position.column) :
    position.closed = position := by
  obtain ⟨rest, column, keyAllowed, keyless, columns, depth, tokens⟩ := position
  cases columns with
  | nil => simp [Position.closed]
  | cons first columns =>
    have hfirst : ¬ column < first := Nat.not_lt.2 (h first rfl)
    simp [Position.closed, hfirst]

/-- What opens a block mapping at a column, unless one is open there. -/
def opening (column : Nat) (columns : List Nat) : List Token :=
  if columns.head? = some column then [] else [.blockMappingStart]

/-- The tokens of a name with a colon behind others, the latest first. -/
def nameTokens (name : String) (tokens : List Token) : List Token :=
  .value :: .scalar name .plain :: .key :: tokens

/-- The position of a value in a section. -/
def valuePosition (rest : List Char) (column : Nat) (tokens : List Token) : Position where
  rest
  column
  keyAllowed := false
  columns := [2, 0]
  tokens

theorem startsToken_name (hname : IsName name.toList) (after : List Char) :
    StartsToken (name.toList ++ after) := hname.isPlain.startsToken after

theorem startsToken_heading (hname : IsName name.toList) (after : List Char) :
    StartsToken (yamlHeading name ++ after) := by
  rw [yamlHeading, List.append_assoc]
  exact startsToken_name hname _

theorem startsToken_entryLine (hname : IsName name.toList) (value after : List Char) :
    StartsToken (entryLine name value ++ after) := by
  rw [entryLine, List.append_assoc]
  exact startsToken_name hname _

theorem startsToken_lineOf_printScalar (text : String) (after : List Char) :
    StartsToken (lineOf (printScalar text) ++ after) := by
  rw [lineOf]
  split
  · exact startsToken_printScalar text after
  · rw [List.append_assoc]
    exact startsToken_printScalar text _

/-- A section is open at a position in front of its next entry. -/
theorem Position.closed_within {rest : List Char} :
    ({ rest, column := 2, columns := [2, 0], tokens } : Position).closed =
      { rest, column := 2, columns := [2, 0], tokens } := rfl

namespace Scanner

/-- The heading of a section, with an entry behind it. -/
theorem Reaches.heading (h : scanner.Reaches {
      rest := yamlHeading name ++ (List.replicate 2 ' ' ++ after), columns, tokens })
    (hname : IsName name.toList) (hcolumns : columns = [] ∨ columns = [0])
    (hafter : StartsToken after) :
    scanner.Reaches {
      rest := after
      column := 2
      columns := [0]
      tokens := nameTokens name (opening 0 columns ++ tokens) } := by
  have hrest : yamlHeading name ++ (List.replicate 2 ' ' ++ after) =
      name.toList ++ ':' :: '\n' :: (List.replicate 2 ' ' ++ after) := by simp [yamlHeading]
  have hline := (h.key hrest rfl hname rfl rfl (by
    obtain rfl | rfl := hcolumns
    · exact nofun
    · rintro column ⟨⟩
      exact Nat.le_refl 0)).next_line rfl hafter
  rw [String.ofList_toList] at hline
  obtain rfl | rfl := hcolumns <;> exact hline

/-- The name of an entry, with a value behind it. -/
theorem Reaches.entry (h : scanner.Reaches {
      rest := name.toList ++ ':' :: ' ' :: after, column := 2, columns, tokens })
    (hname : IsName name.toList) (hcolumns : columns = [0] ∨ columns = [2, 0])
    (hafter : StartsToken after) :
    ∃ column, 3 ≤ column ∧ scanner.Reaches
      (valuePosition after column (nameTokens name (opening 2 columns ++ tokens))) := by
  have hspace := (h.key rfl rfl hname rfl rfl (by
    obtain rfl | rfl := hcolumns
    · rintro column ⟨⟩
      exact Nat.zero_le 2
    · rintro column ⟨⟩
      exact Nat.le_refl 2)).spaces (n := 1) rfl hafter
  rw [String.ofList_toList] at hspace
  refine ⟨2 + name.toList.length + 1 + 1, by omega, ?_⟩
  have hcolumn : 2 ≤ 2 + name.toList.length + 1 + 1 := by omega
  obtain rfl | rfl := hcolumns
  · rwa [Position.closed_eq (by rintro column ⟨⟩; exact hcolumn)] at hspace
  · rwa [Position.closed_eq (by rintro column ⟨⟩; exact hcolumn)] at hspace

/-- An entry whose value is a word. -/
theorem Reaches.wordEntry {word : String} (h : scanner.Reaches {
      rest := entryLine name word.toList ++ (List.replicate n ' ' ++ after)
      column := 2
      columns
      tokens })
    (hname : IsName name.toList) (hword : IsName word.toList)
    (hcolumns : columns = [0] ∨ columns = [2, 0]) (hn : n < 3) (hafter : StartsToken after) :
    scanner.Reaches ({
      rest := after
      column := n
      columns := [2, 0]
      tokens := .scalar word .plain :: nameTokens name (opening 2 columns ++ tokens) } :
        Position).closed := by
  have hrest : entryLine name word.toList ++ (List.replicate n ' ' ++ after) =
      name.toList ++ ':' :: ' ' :: (word.toList ++ '\n' :: (List.replicate n ' ' ++ after)) := by
    simp [entryLine, Settings.lineOf_word hword]
  rw [hrest] at h
  -- the name and its colon, then the word as a plain scalar
  obtain ⟨column, hcolumn, hvalue⟩ := h.entry hname hcolumns (hword.isPlain.startsToken _)
  have hplain := hvalue.asPlain ⟨rfl, rfl, rfl, rfl, hcolumn⟩ hword.isPlain rfl hn hafter
  rwa [Position.behind, String.ofList_toList] at hplain

/-- An entry whose value is a text. -/
theorem Reaches.textEntry {text : String} (h : scanner.Reaches {
      rest := entryLine name (printScalar text) ++ (List.replicate n ' ' ++ after)
      column := 2
      columns
      tokens })
    (hname : IsName name.toList) (htext : ∃ c ∈ text.toList, isBreak c = false)
    (hcolumns : columns = [0] ∨ columns = [2, 0]) (hn : n < 3) (hafter : StartsToken after) :
    ∃ style, (style = .plain → isNotText text = false) ∧ scanner.Reaches ({
      rest := after
      column := n
      columns := [2, 0]
      tokens := .scalar text style :: nameTokens name (opening 2 columns ++ tokens) } :
        Position).closed := by
  rw [entryLine, List.append_assoc] at h
  obtain ⟨column, hcolumn, hvalue⟩ := h.entry hname hcolumns
    (startsToken_lineOf_printScalar text _)
  obtain ⟨style, hstyle, hprinted⟩ :=
    hvalue.printed ⟨rfl, rfl, rfl, rfl, hcolumn⟩ htext rfl hn hafter
  refine ⟨style, hstyle, ?_⟩
  rwa [Position.behind, String.ofList_toList] at hprinted

end Scanner
end Yaml

namespace Settings

variable {settings : Settings} {tail : List Char} {scanner : Scanner} {tokens : List Token}

/-! ## The text -/

def cacheText (settings : Settings) : List Char :=
  yamlHeading "cache" ++ yamlEntry "ttl_seconds" (toString settings.cacheTtl.seconds).toList

def networkText (settings : Settings) : List Char :=
  yamlHeading "network" ++
  yamlEntry "read_timeout_ms" (toString settings.readTimeout.clampedMillis).toList ++
  yamlEntry "trust_self_signed" (toString settings.trustSelfSigned).toList

def legacyText (settings : Settings) : List Char :=
  yamlHeading "extensions" ++ yamlEntry "legacy" (printScalar settings.legacyExtension)

/-- What is printed, as the serializer writes it. -/
def yamlText (settings : Settings) : List Char :=
  settings.cacheText ++ settings.networkText ++ settings.legacyText ++
    yamlEntry "current" (printScalar settings.currentExtension)

theorem toYaml_eq (settings : Settings) :
    settings.toYaml = String.ofList (Text.trimEnd settings.yamlText) := by
  simp only [toYaml, yamlText, cacheText, networkText, legacyText, List.append_assoc]

/-- What is printed in front of the last text. -/
def yamlFront (settings : Settings) : List Char :=
  settings.cacheText ++ settings.networkText ++ settings.legacyText ++
    (List.replicate 2 ' ' ++ ("current".toList ++ [':', ' ']))

/-- The tokens of the first section, the latest first. -/
def cacheTokens (settings : Settings) : List Token :=
  .blockEnd :: .scalar (toString settings.cacheTtl.seconds) .plain ::
    nameTokens "ttl_seconds" (.blockMappingStart :: nameTokens "cache" [.blockMappingStart])

def networkTokens (settings : Settings) (tokens : List Token) : List Token :=
  .blockEnd :: .scalar (toString settings.trustSelfSigned) .plain ::
    nameTokens "trust_self_signed" (
      .scalar (toString settings.readTimeout.clampedMillis) .plain ::
        nameTokens "read_timeout_ms" (.blockMappingStart :: nameTokens "network" tokens))

def legacyTokens (legacy : String × Style) (tokens : List Token) : List Token :=
  nameTokens "current" (.scalar legacy.1 legacy.2 ::
    nameTokens "legacy" (.blockMappingStart :: nameTokens "extensions" tokens))

theorem reaches_cache (settings : Settings) {after : List Char} (hafter : StartsToken after) :
    ({ cursor := { rest := settings.cacheText ++ after } } : Scanner).Reaches
      { rest := after, columns := [0], tokens := settings.cacheTokens } := by
  have hrest : settings.cacheText ++ after =
      yamlHeading "cache" ++ (List.replicate 2 ' ' ++
        (entryLine "ttl_seconds" (toString settings.cacheTtl.seconds).toList ++
          (List.replicate 0 ' ' ++ after))) := by
    simp [cacheText, yamlEntry_eq]
  have hheading := Scanner.reaches_start
    (hrest ▸ startsToken_heading (isName_of_mem (by simp [names])) _ :
      StartsToken (settings.cacheText ++ after))
  rw [hrest] at hheading ⊢
  exact (hheading.heading (isName_of_mem (by simp [names])) (.inl rfl)
    (startsToken_entryLine (isName_of_mem (by simp [names])) _ _)).wordEntry
      (isName_of_mem (by simp [names])) (isName_toString _) (.inl rfl) (by decide) hafter

theorem reaches_network {after : List Char} (h : scanner.Reaches {
      rest := settings.networkText ++ after, columns := [0], tokens })
    (hafter : StartsToken after) :
    scanner.Reaches
      { rest := after, columns := [0], tokens := settings.networkTokens tokens } := by
  have hrest : settings.networkText ++ after =
      yamlHeading "network" ++ (List.replicate 2 ' ' ++
        (entryLine "read_timeout_ms" (toString settings.readTimeout.clampedMillis).toList ++
          (List.replicate 2 ' ' ++
            (entryLine "trust_self_signed" (toString settings.trustSelfSigned).toList ++
              (List.replicate 0 ' ' ++ after))))) := by
    simp [networkText, yamlEntry_eq]
  rw [hrest] at h
  -- the heading opens the section, and its first entry opens the mapping within
  have htimeout := (h.heading (isName_of_mem (by simp [names])) (.inr rfl)
    (startsToken_entryLine (isName_of_mem (by simp [names])) _ _)).wordEntry
      (isName_of_mem (by simp [names])) (isName_toString _) (.inl rfl) (by decide)
      (startsToken_entryLine (isName_of_mem (by simp [names])) _ _)
  rw [Position.closed_within] at htimeout
  exact htimeout.wordEntry (isName_of_mem (by simp [names])) (isName_truth _) (.inr rfl)
    (by decide) hafter

/-- The scanner gets to the last text. -/
theorem reaches_current {after : List Char} (h : scanner.Reaches {
      rest := settings.legacyText ++
        (List.replicate 2 ' ' ++ ("current".toList ++ ':' :: ' ' :: after))
      columns := [0]
      tokens })
    (hlegacy : ∃ c ∈ settings.legacyExtension.toList, isBreak c = false)
    (hafter : StartsToken after) :
    ∃ style column, (style = .plain → isNotText settings.legacyExtension = false) ∧ 3 ≤ column ∧
      scanner.Reaches
        (valuePosition after column (legacyTokens (settings.legacyExtension, style) tokens)) := by
  have hrest : settings.legacyText ++
      (List.replicate 2 ' ' ++ ("current".toList ++ ':' :: ' ' :: after)) =
      yamlHeading "extensions" ++ (List.replicate 2 ' ' ++
        (entryLine "legacy" (printScalar settings.legacyExtension) ++
          (List.replicate 2 ' ' ++ ("current".toList ++ ':' :: ' ' :: after)))) := by
    simp [legacyText, yamlEntry_eq]
  rw [hrest] at h
  obtain ⟨style, hstyle, hentry⟩ := (h.heading (isName_of_mem (by simp [names])) (.inr rfl)
    (startsToken_entryLine (isName_of_mem (by simp [names])) _ _)).textEntry
      (isName_of_mem (by simp [names])) hlegacy (.inl rfl) (by decide)
      (startsToken_name (isName_of_mem (by simp [names])) _)
  rw [Position.closed_within] at hentry
  obtain ⟨column, hcolumn, hvalue⟩ :=
    hentry.entry (isName_of_mem (by simp [names])) (.inr rfl) hafter
  exact ⟨style, column, hstyle, hcolumn, hvalue⟩

/-! ## Characters -/

theorem isAllowed_of_mem_name {name : List Char} (h : IsName name) :
    ∀ c ∈ name, isAllowed c = true := fun c hc => isAllowed_of_isNameChar (h.chars c hc)

theorem isAllowed_of_mem_heading {name : String} (h : IsName name.toList) :
    ∀ c ∈ yamlHeading name, isAllowed c = true :=
  List.forall_mem_append.2 ⟨isAllowed_of_mem_name h, List.all_eq_true.1 rfl⟩

theorem isAllowed_of_mem_entry {name : String} {value : List Char} (h : IsName name.toList)
    (hvalue : ∀ c ∈ value, isAllowed c = true) :
    ∀ c ∈ yamlEntry name value, isAllowed c = true := by
  have hline : ∀ c ∈ lineOf value, isAllowed c = true := by
    rw [lineOf]
    split
    · exact hvalue
    · exact List.forall_mem_append.2 ⟨hvalue, List.all_eq_true.1 rfl⟩
  rw [yamlEntry_eq, entryLine]
  exact List.forall_mem_append.2 ⟨List.all_eq_true.1 rfl, List.forall_mem_append.2
    ⟨isAllowed_of_mem_name h, List.forall_mem_cons.2 ⟨rfl, List.forall_mem_cons.2 ⟨rfl, hline⟩⟩⟩⟩

theorem isAllowed_of_mem_yamlText : ∀ c ∈ settings.yamlText, isAllowed c = true := by
  have hnumber (number : UInt64) := isAllowed_of_mem_name (isName_toString number)
  have htruth (value : Bool) := isAllowed_of_mem_name (isName_truth value)
  have htext (text : String) : ∀ c ∈ printScalar text, isAllowed c = true :=
    fun c hc => isAllowed_of_mem_printScalar hc
  have hheading {name : String} (hname : name ∈ names) :=
    isAllowed_of_mem_heading (isName_of_mem hname)
  have hentry {name : String} {value : List Char} (hname : name ∈ names)
      (hvalue : ∀ c ∈ value, isAllowed c = true) :=
    isAllowed_of_mem_entry (isName_of_mem hname) hvalue
  simp only [yamlText, cacheText, networkText, legacyText, List.forall_mem_append]
  refine ⟨⟨⟨⟨hheading ?_, hentry ?_ (hnumber _)⟩, ⟨hheading ?_, hentry ?_ (hnumber _)⟩,
    hentry ?_ (htruth _)⟩, hheading ?_, hentry ?_ (htext _)⟩, hentry ?_ (htext _)⟩ <;> simp [names]

/-! ## The end of the text -/

theorem yamlText_eq (settings : Settings) :
    settings.yamlText =
      settings.yamlFront ++ lineOf (printScalar settings.currentExtension) := by
  simp [yamlText, yamlFront, yamlEntry_eq "current", entryLine]

theorem trimEnd_lineOf (written : List Char) :
    Text.trimEnd (lineOf written) = Text.trimEnd written := by
  rw [lineOf]
  split
  · rfl
  · obtain ⟨blanks, hsplit, hblanks, hlast⟩ := Text.exists_trimEnd written
    generalize Text.trimEnd written = front at *
    rw [hsplit, List.append_assoc]
    exact Text.trimEnd_append_blanks
      (List.forall_mem_append.2 ⟨hblanks, by simp [Text.isBlank]⟩) hlast

theorem trimEnd_printScalar_ne_nil {text : String}
    (h : ∃ c ∈ text.toList, Text.isBlank c = false) : Text.trimEnd (printScalar text) ≠ [] := by
  obtain hprint | ⟨-, hprint | ⟨hprint, -⟩ | ⟨hprint, -⟩⟩ := printScalar_cases text <;> rw [hprint]
  · exact Text.trimEnd_ne_nil List.mem_cons_self rfl
  · exact Text.trimEnd_ne_nil List.mem_cons_self rfl
  · obtain ⟨c, hc, hblank⟩ := h
    exact Text.trimEnd_ne_nil hc hblank
  · exact Text.trimEnd_ne_nil List.mem_cons_self rfl

theorem trimEnd_yamlText (h : ∃ c ∈ settings.currentExtension.toList, Text.isBlank c = false) :
    Text.trimEnd settings.yamlText =
      settings.yamlFront ++ Text.trimEnd (printScalar settings.currentExtension) := by
  have hne := trimEnd_printScalar_ne_nil h
  rw [← trimEnd_lineOf] at hne
  rw [yamlText_eq, Text.trimEnd_append hne, trimEnd_lineOf]

/-- Nothing but the end of the last line is dropped exactly when it is that for the last value. -/
theorem trimEnd_yamlText_eq_iff
    (h : ∃ c ∈ settings.currentExtension.toList, Text.isBlank c = false) :
    settings.yamlText = Text.trimEnd settings.yamlText ++ ['\n'] ↔
      lineOf (printScalar settings.currentExtension) =
        Text.trimEnd (printScalar settings.currentExtension) ++ ['\n'] := by
  rw [trimEnd_yamlText h, yamlText_eq, List.append_assoc, List.append_cancel_left_eq]

/-- Nothing but the end of the last line is dropped behind a text that does not end with a blank. -/
theorem yamlText_eq_of_last
    (hcurrent : ∃ c ∈ settings.currentExtension.toList, Text.isBlank c = false)
    (h : ∀ c ∈ settings.currentExtension.toList.getLast?, Text.isBlank c = false) :
    settings.yamlText = Text.trimEnd settings.yamlText ++ ['\n'] := by
  -- only the last scalar can lose anything, and it ends in a quote or as the extension does
  refine (trimEnd_yamlText_eq_iff hcurrent).2 (lineOf_eq_of_last fun c hc => ?_)
  obtain hprint | ⟨-, hprint | ⟨hprint, -⟩ | ⟨hprint, -⟩⟩ :=
      printScalar_cases settings.currentExtension <;>
    rw [hprint] at hc
  · rw [doubleQuoted, List.getLast?_concat] at hc
    obtain rfl := Option.some.inj hc
    rfl
  · obtain ⟨d, hd, -⟩ := hcurrent
    have hne : settings.currentExtension.toList ≠ [] := List.ne_nil_of_mem hd
    rw [literal_eq, List.getLast?_append, getLast?_indentLines, List.getLast?_eq_some_getLast hne,
      Option.some_or, ← List.getLast?_eq_some_getLast hne] at hc
    exact h c hc
  · exact h c hc
  · rw [singleQuoted, List.getLast?_cons, getLast?_indentLines, List.getLast?_concat] at hc
    obtain rfl := Option.some.inj hc
    rfl

/-! ## What is read -/

/-- The scanner gets to the last text, whatever is left of it. -/
theorem exists_reaches (settings : Settings) (tail : List Char) (htail : StartsToken tail)
    (hlegacy : ∃ c ∈ settings.legacyExtension.toList, isBreak c = false) :
    ∃ style column, (style = .plain → isNotText settings.legacyExtension = false) ∧ 3 ≤ column ∧
      ({ cursor := { rest := settings.yamlFront ++ tail } } : Scanner).Reaches
        (valuePosition tail column (legacyTokens (settings.legacyExtension, style)
          (settings.networkTokens settings.cacheTokens))) := by
  have hheading {name : String} (hname : name ∈ names) (after : List Char) :=
    startsToken_heading (isName_of_mem hname) after
  generalize hcurrent : List.replicate 2 ' ' ++ ("current".toList ++ ':' :: ' ' :: tail) = current
  have hrest : settings.yamlFront ++ tail =
      settings.cacheText ++ (settings.networkText ++ (settings.legacyText ++ current)) := by
    simp [yamlFront, ← hcurrent]
  -- each section is read up to the heading of the next one
  have hextensions : StartsToken (settings.legacyText ++ current) := by
    rw [legacyText, List.append_assoc]
    exact hheading (by simp [names]) _
  have hnetwork : StartsToken (settings.networkText ++ (settings.legacyText ++ current)) := by
    rw [networkText, List.append_assoc, List.append_assoc]
    exact hheading (by simp [names]) _
  have hsections := reaches_network (reaches_cache settings hnetwork) hextensions
  rw [hrest]
  rw [← hcurrent] at hsections ⊢
  exact reaches_current hsections hlegacy htail

/-- At the end of the last text all tokens are there. -/
theorem run_eq_of_reaches {scanner : Scanner} {column : Nat} {legacy : String × Style}
    {text : List Char} {style : Style}
    (h : scanner.Reaches ((valuePosition tail column (legacyTokens legacy
      (settings.networkTokens settings.cacheTokens))).behind text style [] 0).closed) :
    scanner.run = some (blockTokens settings legacy (String.ofList text, style)) :=
  h.run_eq rfl rfl

/-- A text that was printed whole is read as it was. -/
theorem run_yamlText (hlegacy : ∃ c ∈ settings.legacyExtension.toList, isBreak c = false)
    (hcurrent : ∃ c ∈ settings.currentExtension.toList, isBreak c = false) :
    ∃ legacyStyle currentStyle,
      (legacyStyle = .plain → isNotText settings.legacyExtension = false) ∧
      (currentStyle = .plain → isNotText settings.currentExtension = false) ∧
      ({ cursor := { rest := settings.yamlText } } : Scanner).run =
        some (blockTokens settings (settings.legacyExtension, legacyStyle)
          (settings.currentExtension, currentStyle)) := by
  have hstart := startsToken_lineOf_printScalar settings.currentExtension []
  rw [List.append_nil] at hstart
  obtain ⟨legacyStyle, column, hlegacyStyle, hcolumn, hreaches⟩ :=
    exists_reaches settings _ hstart hlegacy
  have hrest : lineOf (printScalar settings.currentExtension) =
      lineOf (printScalar settings.currentExtension) ++ (List.replicate 0 ' ' ++ []) := by simp
  obtain ⟨currentStyle, hcurrentStyle, hend⟩ := hreaches.printed ⟨rfl, rfl, rfl, rfl, hcolumn⟩
    hcurrent hrest (by decide) startsToken_nil
  refine ⟨legacyStyle, currentStyle, hlegacyStyle, hcurrentStyle, ?_⟩
  rw [yamlText_eq, run_eq_of_reaches hend, String.ofList_toList]

/-- A text that lost more than the end of its line is not read as it was. -/
theorem run_trimmed (hlegacy : ∃ c ∈ settings.legacyExtension.toList, isBreak c = false)
    (hcurrent : ∃ c ∈ settings.currentExtension.toList, Text.isBlank c = false)
    (hlost : settings.yamlText ≠ Text.trimEnd settings.yamlText ++ ['\n']) :
    (∃ c ∈ settings.currentExtension.toList.getLast?, Text.isBlank c = true) ∧
      (({ cursor := { rest := Text.trimEnd settings.yamlText ++ ['\n'] } } : Scanner).run = none ∨
        ∃ legacy text style, text ≠ settings.currentExtension ∧
          ({ cursor := { rest := Text.trimEnd settings.yamlText ++ ['\n'] } } : Scanner).run =
            some (blockTokens settings legacy (text, style))) := by
  -- something of the last scalar is left, and it begins as before
  have hstart : StartsToken (Text.trimEnd (printScalar settings.currentExtension) ++ ['\n']) := by
    obtain ⟨blanks, hsplit, -⟩ := Text.exists_trimEnd (printScalar settings.currentExtension)
    obtain ⟨c, more, hcons⟩ := List.exists_cons_of_ne_nil (trimEnd_printScalar_ne_nil hcurrent)
    rw [hcons]
    rintro _ ⟨⟩
    refine startsToken_printScalar settings.currentExtension [] c ?_
    rw [hsplit, hcons]
    rfl
  obtain ⟨legacyStyle, column, -, hcolumn, hreaches⟩ :=
    exists_reaches settings _ hstart hlegacy
  rw [ne_eq, trimEnd_yamlText_eq_iff hcurrent] at hlost
  obtain ⟨c, hc, hblank⟩ := hcurrent
  obtain ⟨hlast, hread⟩ := hreaches.printed_trimmed ⟨rfl, rfl, rfl, rfl, hcolumn⟩
    (Text.trimEnd_ne_nil hc hblank) rfl hlost
  rw [trimEnd_yamlText ⟨c, hc, hblank⟩, List.append_assoc]
  refine ⟨hlast, hread.imp_right fun ⟨text, style, htext, hend⟩ =>
    ⟨_, String.ofList text, style, ?_, run_eq_of_reaches hend⟩⟩
  rintro heq
  exact htext (by rw [← heq, String.toList_ofList])

end Settings
end Locator
