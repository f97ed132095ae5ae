import Locator.Proofs.Config.YamlText
import Locator.Proofs.Yaml.Flow

/-!
# Settings in JSON

The settings are printed as objects in braces, which is a document in YAML as well. Only the breaks
of the two texts are not always read as they are written between quotes there.

* `isWriting_jsonEscaped`: the escapes of JSON are escapes of YAML
* `ReachesFlow.entry`, `ReachesFlow.word`, `ReachesFlow.text`: the scanner passes a name or a value
* `run_jsonText`: what is read
-/

namespace Locator

open Yaml

namespace Settings

theorem isWriting_jsonEscaped : IsWriting jsonEscaped where
  denotes c := by
    have hescape {d : Char} (h : isSpace d = false ∧ isBreak d = false ∧ isAllowed d = true) :
        IsEscapeChar d := h
    -- the named escapes, then the control characters by number; all others are written as they are
    rw [jsonEscaped.eq_def]
    split
    any_goals exact denotes_named (hescape (by decide)) fun _ => rfl
    next hquote hslash _ _ _ _ _ =>
    split
    · next hcontrol =>
      have hcode : c.toNat < 32 := hcontrol
      exact denotes_numbered (hescape (by decide)) (fun _ => rfl)
        (Text.length_hexDigits (by decide) (Nat.lt_trans hcode (by decide)))
        (Text.number?_hexDigits (by decide) (Nat.lt_trans hcode (by decide)))
    · exact .inl ⟨rfl, fun h => hquote h, fun h => hslash h⟩
  blank c hraw hblank := by
    obtain rfl | rfl | rfl | rfl | rfl | rfl | rfl := isBlank_cases hblank
    · exact .inl rfl
    · exact absurd hraw (by decide)
    · exact absurd hraw (by decide)
    · exact absurd hraw (by decide)
    · exact .inr (.inl rfl)
    · exact .inr (.inr (.inl rfl))
    · exact .inr (.inr (.inr rfl))

end Settings

namespace Yaml.Scanner

variable {scanner : Scanner} {after : List Char} {keyAllowed : Bool} {depth n : Nat}
  {tokens : List Token}

/-! ## Inside braces -/

/-- The scanner gets to some text, with so many brackets open and these tokens read. In brackets it
makes no difference where in the line that is. -/
def ReachesFlow (scanner : Scanner) (rest : List Char) (keyAllowed : Bool) (depth : Nat)
    (tokens : List Token) : Prop :=
  ∃ column keyless, scanner.Reaches { rest, column, keyAllowed, keyless, depth, tokens }

/-- The same with nothing passed behind the last token. -/
def ComesFlow (scanner : Scanner) (rest : List Char) (keyAllowed : Bool) (depth : Nat)
    (tokens : List Token) : Prop :=
  ∃ column keyless, scanner.Comes { rest, column, keyAllowed, keyless, depth, tokens }

theorem ComesFlow.here (h : scanner.ComesFlow after keyAllowed (depth + 1) tokens)
    (hafter : StartsToken after) : scanner.ReachesFlow after keyAllowed (depth + 1) tokens := by
  obtain ⟨column, keyless, hcomes⟩ := h
  exact ⟨column, keyless, hcomes.here hafter⟩

theorem ComesFlow.space (h : scanner.ComesFlow (' ' :: after) keyAllowed (depth + 1) tokens)
    (hafter : StartsToken after) : scanner.ReachesFlow after keyAllowed (depth + 1) tokens := by
  obtain ⟨column, keyless, hcomes⟩ := h
  exact ⟨column + 1, keyless, hcomes.spaces (n := 1) rfl hafter⟩

theorem ComesFlow.next_line
    (h : scanner.ComesFlow ('\n' :: (List.replicate n ' ' ++ after)) keyAllowed (depth + 1) tokens)
    (hafter : StartsToken after) : scanner.ReachesFlow after keyAllowed (depth + 1) tokens := by
  obtain ⟨column, keyless, hcomes⟩ := h
  have hline := hcomes.next_line rfl hafter
  have hdepth : (keyAllowed || depth + 1 == 0) = keyAllowed := by simp
  exact ⟨n, keyless, by rwa [Position.closed, if_neg (Nat.succ_ne_zero depth), hdepth] at hline⟩

/-- An opening brace and the end of its line. -/
theorem ReachesFlow.openBrace
    (h : scanner.ReachesFlow ('\x7b' :: '\n' :: (List.replicate n ' ' ++ after)) keyAllowed depth
      tokens)
    (hafter : StartsToken after) :
    scanner.ReachesFlow after true (depth + 1) (.flowMappingStart :: tokens) := by
  obtain ⟨column, keyless, hreaches⟩ := h
  have hcomes : scanner.ComesFlow ('\n' :: (List.replicate n ' ' ++ after)) true (depth + 1)
      (.flowMappingStart :: tokens) := ⟨_, _, hreaches.openBrace rfl fun _ => rfl⟩
  exact hcomes.next_line hafter

theorem ReachesFlow.closeBrace
    (h : scanner.ReachesFlow ('\x7d' :: after) keyAllowed (depth + 1) tokens) :
    scanner.ComesFlow after false depth (.flowMappingEnd :: tokens) := by
  obtain ⟨column, keyless, hreaches⟩ := h
  exact ⟨_, _, hreaches.closeBrace rfl⟩

/-- A comma and the end of its line. -/
theorem ReachesFlow.comma
    (h : scanner.ReachesFlow (',' :: '\n' :: (List.replicate n ' ' ++ after)) keyAllowed
      (depth + 1) tokens)
    (hafter : StartsToken after) :
    scanner.ReachesFlow after true (depth + 1) (.flowEntry :: tokens) := by
  obtain ⟨column, keyless, hreaches⟩ := h
  have hcomes : scanner.ComesFlow ('\n' :: (List.replicate n ' ' ++ after)) true (depth + 1)
      (.flowEntry :: tokens) := ⟨_, _, hreaches.comma rfl⟩
  exact hcomes.next_line hafter

end Yaml.Scanner

/-! ## Entries in braces -/

theorem startsToken_quote (after : List Char) : StartsToken ('"' :: after) := by
  rintro _ ⟨⟩
  decide

namespace Settings

/-- A name in quotes and its value. -/
def quotedEntry (name : String) (value : List Char) : List Char :=
  '"' :: (name.toList ++ '"' :: ':' :: ' ' :: value)

/-- A text in quotes, with something behind it. -/
def quotedText (text : String) (after : List Char) : List Char :=
  '"' :: (text.toList.flatMap jsonEscaped ++ '"' :: after)

/-- The breaks of a text are kept when it is written between quotes. -/
def breaksKept (text : String) : Bool := keepsBreaks (quotedText text [])

/-- The tokens of a name in quotes behind others, the latest first. -/
def quotedTokens (name : String) (tokens : List Token) : List Token :=
  .value :: .scalar name .doubleQuoted :: .key :: tokens

end Settings

namespace Yaml.Scanner

open Settings (quotedEntry quotedText quotedTokens breaksKept names isName_of_mem)

variable {scanner : Scanner} {name : String} {after : List Char} {depth n : Nat}
  {tokens : List Token}

theorem ReachesFlow.entry {value : List Char}
    (h : scanner.ReachesFlow (quotedEntry name value) true (depth + 1) tokens)
    (hname : name ∈ names) (hvalue : StartsToken value) :
    scanner.ReachesFlow value false (depth + 1) (quotedTokens name tokens) := by
  obtain ⟨column, keyless, hreaches⟩ := h
  have hlength : name.toList.length + 2 ≤ keyLimit := by
    simp only [names, List.mem_cons, List.not_mem_nil, or_false] at hname
    obtain rfl | rfl | rfl | rfl | rfl | rfl | rfl | rfl := hname <;> decide
  have hcomes :=
    hreaches.quotedKey rfl (isName_of_mem hname).chars hlength rfl (Nat.succ_ne_zero depth)
  rw [String.ofList_toList] at hcomes
  have hflow : scanner.ComesFlow (' ' :: value) false (depth + 1) (quotedTokens name tokens) :=
    ⟨_, _, hcomes⟩
  exact hflow.space hvalue

/-- A word with another entry behind it. -/
theorem ReachesFlow.word {word : String}
    (h : scanner.ReachesFlow (word.toList ++ ',' :: '\n' :: (List.replicate n ' ' ++ after)) false
      (depth + 1) tokens)
    (hword : IsName word.toList) (hafter : StartsToken after) :
    scanner.ReachesFlow after true (depth + 1) (.flowEntry :: .scalar word .plain :: tokens) := by
  obtain ⟨column, keyless, hreaches⟩ := h
  have hcomes := hreaches.word_comma rfl hword rfl (Nat.succ_ne_zero depth)
  rw [String.ofList_toList] at hcomes
  have hflow : scanner.ComesFlow (',' :: '\n' :: (List.replicate n ' ' ++ after)) false (depth + 1)
      (.scalar word .plain :: tokens) := ⟨_, _, hcomes⟩
  exact (hflow.here (by rintro _ ⟨⟩; decide)).comma hafter

/-- A word that is the last in its braces. -/
theorem ReachesFlow.lastWord {word : String}
    (h : scanner.ReachesFlow (word.toList ++ '\n' :: (List.replicate n ' ' ++ '\x7d' :: after))
      false (depth + 1) tokens)
    (hword : IsName word.toList) :
    scanner.ComesFlow after false depth (.flowMappingEnd :: .scalar word .plain :: tokens) := by
  obtain ⟨column, keyless, hreaches⟩ := h
  have hcomes := hreaches.word_closeBrace rfl hword rfl (Nat.succ_ne_zero depth)
  rw [String.ofList_toList] at hcomes
  have hflow : scanner.ComesFlow ('\x7d' :: after) true (depth + 1)
      (.scalar word .plain :: tokens) := ⟨_, _, hcomes⟩
  exact (hflow.here (by rintro _ ⟨⟩; decide)).closeBrace

theorem breaksKept_eq (text : String) :
    breaksKept text = keepsBreaks (text.toList.flatMap Settings.jsonEscaped ++ ['"']) :=
  keepsBreaks_cons rfl rfl _

/-- A text in quotes is read as it was exactly when its breaks are kept. -/
theorem ReachesFlow.text {text : String}
    (h : scanner.ReachesFlow (quotedText text after) false (depth + 1) tokens) :
    (scanner.run = none ∧ breaksKept text = false) ∨
      ∃ read, (read = text ↔ breaksKept text = true) ∧
        scanner.ComesFlow after false (depth + 1) (.scalar read .doubleQuoted :: tokens) := by
  obtain ⟨column, keyless, hreaches⟩ := h
  obtain ⟨cursor, hcursor, hcolumn, hnone, hgo⟩ := hreaches.quoted false rfl rfl
  have hseparator : cursor.atDocumentSeparator = false := by
    simp [Cursor.atDocumentSeparator, Nat.ne_of_gt hcolumn]
  rw [breaksKept_eq]
  obtain ⟨hscan, hcause⟩ | ⟨read, next, hscan, hnext, -, -, hsame⟩ :=
    rereads Settings.isWriting_jsonEscaped hcursor
  · rw [hseparator] at hcause
    exact .inl ⟨hnone hscan, hcause.resolve_left Bool.false_ne_true⟩
  · refine .inr ⟨String.ofList read, ?_, _, _, hnext ▸ hgo hscan ?_⟩
    · rw [← hsame, ← String.toList_inj, String.toList_ofList]
    · simp only [Cursor.length, hnext, hcursor, List.length_append, List.length_cons]
      omega

end Yaml.Scanner

namespace Settings

variable {settings : Settings} {after : List Char}

/-! ## The text -/

def cacheBraces (settings : Settings) (after : List Char) : List Char :=
  quotedEntry "cache" ('\x7b' :: '\n' :: (List.replicate 4 ' ' ++
    quotedEntry "ttl_seconds" ((toString settings.cacheTtl.seconds).toList ++ '\n' ::
      (List.replicate 2 ' ' ++ '\x7d' :: after))))

def networkBraces (settings : Settings) (after : List Char) : List Char :=
  quotedEntry "network" ('\x7b' :: '\n' :: (List.replicate 4 ' ' ++
    quotedEntry "read_timeout_ms" ((toString settings.readTimeout.clampedMillis).toList ++ ',' ::
      '\n' :: (List.replicate 4 ' ' ++ quotedEntry "trust_self_signed"
        ((toString settings.trustSelfSigned).toList ++ '\n' ::
          (List.replicate 2 ' ' ++ '\x7d' :: after))))))

def extensionBraces (settings : Settings) (after : List Char) : List Char :=
  quotedEntry "extensions" ('\x7b' :: '\n' :: (List.replicate 4 ' ' ++
    quotedEntry "legacy" (quotedText settings.legacyExtension (',' :: '\n' ::
      (List.replicate 4 ' ' ++ quotedEntry "current" (quotedText settings.currentExtension
        ('\n' :: (List.replicate 2 ' ' ++ '\x7d' :: after))))))))

/-- All settings in braces, with something behind it. -/
def jsonText (settings : Settings) (after : List Char) : List Char :=
  '\x7b' :: '\n' :: (List.replicate 2 ' ' ++
    settings.cacheBraces (',' :: '\n' :: (List.replicate 2 ' ' ++
      settings.networkBraces (',' :: '\n' :: (List.replicate 2 ' ' ++
        settings.extensionBraces ('\n' :: (List.replicate 0 ' ' ++ '\x7d' :: after)))))))

theorem toList_jsonString (text : String) :
    (jsonString text).toList = '"' :: (text.toList.flatMap jsonEscaped ++ ['"']) := by
  simp [jsonString]

/-- Names are written as they are. -/
theorem toList_jsonString_of_mem {name : String} (h : name ∈ names) :
    (jsonString name).toList = '"' :: (name.toList ++ ['"']) := by
  rw [toList_jsonString]
  simp only [names, List.mem_cons, List.not_mem_nil, or_false] at h
  obtain rfl | rfl | rfl | rfl | rfl | rfl | rfl | rfl := h <;> decide

/-- What an object is behind its opening brace: entries, each on a line of its own, and the closing
brace with something behind it. -/
def entryLines (depth : Nat) (entries : List (String × String)) (after : List Char) : List Char :=
  match entries with
  | [] => after
  | [(name, value)] =>
    quotedEntry name (value.toList ++ '\n' :: (List.replicate depth ' ' ++ '\x7d' :: after))
  | (name, value) :: entry :: entries =>
    quotedEntry name (value.toList ++ ',' :: '\n' :: (List.replicate (depth + 2) ' ' ++
      entryLines depth (entry :: entries) after))

theorem toList_jsonObject_append (depth : Nat) {entries : List (String × String)}
    (after : List Char) (hne : entries ≠ []) (hnames : ∀ entry ∈ entries, entry.1 ∈ names) :
    (jsonObject depth entries).toList ++ after =
      '\x7b' :: '\n' :: (List.replicate (depth + 2) ' ' ++ entryLines depth entries after) := by
  rw [jsonObject]
  generalize hline : (fun entry : String × String =>
    String.ofList (List.replicate (depth + 2) ' ') ++ jsonString entry.1 ++ ": " ++ entry.2) = line
  have htext (name value : String) (h : name ∈ names) (after : List Char) :
      (line (name, value)).toList ++ after =
        List.replicate (depth + 2) ' ' ++ quotedEntry name (value.toList ++ after) := by
    simp [← hline, quotedEntry, toList_jsonString_of_mem h]
  have hlines : (String.intercalate ",\n" (entries.map line)).toList ++
      ('\n' :: (List.replicate depth ' ' ++ '\x7d' :: after)) =
        List.replicate (depth + 2) ' ' ++ entryLines depth entries after := by
    -- the entries stand between commas, and the last one goes on to the brace
    induction entries with
    | nil => exact absurd rfl hne
    | cons entry entries ih =>
      obtain ⟨name, value⟩ := entry
      obtain ⟨hname, hmore⟩ := List.forall_mem_cons.1 hnames
      cases entries with
      | nil =>
        rw [List.map_singleton, String.intercalate_singleton, htext name value hname, entryLines]
      | cons entry entries =>
        have hrest := ih (List.cons_ne_nil _ _) hmore
        rw [List.map_cons] at hrest
        rw [List.map_cons, List.map_cons, String.intercalate_cons_cons, String.toList_append,
          String.toList_append, List.append_assoc, List.append_assoc, hrest,
          htext name value hname, entryLines]
        rfl
  rw [← hlines]
  simp

theorem toList_toJson_append (settings : Settings) (after : List Char) :
    settings.toJson.toList ++ after = settings.jsonText after := by
  rw [toJson, toList_jsonObject_append 0 after (by simp) (by simp [names])]
  simp only [entryLines]
  rw [toList_jsonObject_append 2 _ (by simp) (by simp [names]),
    toList_jsonObject_append 2 _ (by simp) (by simp [names]),
    toList_jsonObject_append 2 _ (by simp) (by simp [names])]
  simp only [entryLines, toList_jsonString]
  simp [jsonText, cacheBraces, networkBraces, extensionBraces, quotedText]

/-! ## What is read -/

section

variable {scanner : Scanner} {tokens : List Token}

theorem startsToken_entry (name : String) (value : List Char) :
    StartsToken (quotedEntry name value) := startsToken_quote _

theorem startsToken_brace (after : List Char) : StartsToken ('\x7b' :: after) := by
  rintro _ ⟨⟩
  decide

theorem startsToken_closeBrace (after : List Char) : StartsToken ('\x7d' :: after) := by
  rintro _ ⟨⟩
  decide

theorem startsToken_comma (after : List Char) : StartsToken (',' :: after) := by
  rintro _ ⟨⟩
  decide

/-- The tokens of the first section, the latest first. -/
def cacheBraceTokens (settings : Settings) (tokens : List Token) : List Token :=
  .flowMappingEnd :: .scalar (toString settings.cacheTtl.seconds) .plain ::
    quotedTokens "ttl_seconds" (.flowMappingStart :: quotedTokens "cache" tokens)

def networkBraceTokens (settings : Settings) (tokens : List Token) : List Token :=
  .flowMappingEnd :: .scalar (toString settings.trustSelfSigned) .plain ::
    quotedTokens "trust_self_signed" (
      .flowEntry :: .scalar (toString settings.readTimeout.clampedMillis) .plain ::
        quotedTokens "read_timeout_ms" (.flowMappingStart :: quotedTokens "network" tokens))

def extensionBraceTokens (legacy current : String) (tokens : List Token) : List Token :=
  .flowMappingEnd :: .scalar current .doubleQuoted :: quotedTokens "current" (
    .flowEntry :: .scalar legacy .doubleQuoted ::
      quotedTokens "legacy" (.flowMappingStart :: quotedTokens "extensions" tokens))

theorem comes_cacheBraces (h : scanner.ReachesFlow (settings.cacheBraces after) true 1 tokens) :
    scanner.ComesFlow after false 1 (settings.cacheBraceTokens tokens) :=
  (((h.entry (by simp [names]) (startsToken_brace _)).openBrace (startsToken_entry _ _)).entry
    (by simp [names]) ((isName_toString _).isPlain.startsToken _)).lastWord (isName_toString _)

theorem comes_networkBraces (h : scanner.ReachesFlow (settings.networkBraces after) true 1 tokens) :
    scanner.ComesFlow after false 1 (settings.networkBraceTokens tokens) :=
  have htimeout := (((h.entry (by simp [names]) (startsToken_brace _)).openBrace
    (startsToken_entry _ _)).entry (by simp [names])
      ((isName_toString _).isPlain.startsToken _)).word (isName_toString _) (startsToken_entry _ _)
  (htimeout.entry (by simp [names]) ((isName_truth _).isPlain.startsToken _)).lastWord
    (isName_truth _)

/-- The two texts decide what becomes of the last section. -/
theorem comes_extensionBraces
    (h : scanner.ReachesFlow (settings.extensionBraces after) true 1 tokens) :
    (scanner.run = none ∧
        (breaksKept settings.legacyExtension && breaksKept settings.currentExtension) = false) ∨
      ∃ legacy current,
        (legacy = settings.legacyExtension ↔ breaksKept settings.legacyExtension = true) ∧
        (current = settings.currentExtension ↔ breaksKept settings.currentExtension = true) ∧
        scanner.ComesFlow after false 1 (extensionBraceTokens legacy current tokens) := by
  have hlegacy := ((h.entry (by simp [names]) (startsToken_brace _)).openBrace
    (startsToken_entry _ _)).entry (by simp [names]) (startsToken_quote _)
  obtain ⟨hnone, hkept⟩ | ⟨legacy, hlegacyKept, hlegacy⟩ := hlegacy.text
  · exact .inl ⟨hnone, by rw [hkept, Bool.false_and]⟩
  have hcurrent := ((hlegacy.here (startsToken_comma _)).comma (startsToken_entry _ _)).entry
    (by simp [names]) (startsToken_quote _)
  obtain ⟨hnone, hkept⟩ | ⟨current, hcurrentKept, hcurrent⟩ := hcurrent.text
  · exact .inl ⟨hnone, by rw [hkept, Bool.and_false]⟩
  exact .inr ⟨legacy, current, hlegacyKept, hcurrentKept,
    (hcurrent.next_line (startsToken_closeBrace _)).closeBrace⟩

end

/-- What is printed is read as tokens. -/
theorem run_jsonText (settings : Settings) :
    (({ cursor := { rest := settings.jsonText ['\n'] } } : Scanner).run = none ∧
        (breaksKept settings.legacyExtension && breaksKept settings.currentExtension) = false) ∨
      ∃ legacy current,
        (legacy = settings.legacyExtension ↔ breaksKept settings.legacyExtension = true) ∧
        (current = settings.currentExtension ↔ breaksKept settings.currentExtension = true) ∧
        ({ cursor := { rest := settings.jsonText ['\n'] } } : Scanner).run =
          some (flowTokens settings (legacy, .doubleQuoted) (current, .doubleQuoted)) := by
  have hstart : ({ cursor := { rest := settings.jsonText ['\n'] } } : Scanner).ReachesFlow
      (settings.jsonText ['\n']) true 0 [] :=
    ⟨_, _, Scanner.reaches_start (startsToken_brace _)⟩
  generalize ({ cursor := { rest := settings.jsonText ['\n'] } } : Scanner) = scanner at *
  -- section by section; only the two extensions can come back changed
  have hcache := comes_cacheBraces (hstart.openBrace (startsToken_entry _ _))
  have hnetwork := comes_networkBraces
    ((hcache.here (startsToken_comma _)).comma (startsToken_entry _ _))
  obtain hnone | ⟨legacy, current, hlegacy, hcurrent, hextensions⟩ := comes_extensionBraces
    ((hnetwork.here (startsToken_comma _)).comma (startsToken_entry _ _))
  · exact .inl hnone
  obtain ⟨column, keyless, hcomes⟩ :=
    (hextensions.next_line (startsToken_closeBrace _)).closeBrace
  have hend := hcomes.next_line (n := 0) rfl startsToken_nil
  exact .inr ⟨legacy, current, hlegacy, hcurrent, hend.run_eq rfl rfl⟩

/-! ## Characters -/

theorem all_name {name : List Char} (h : IsName name) : name.all isAllowed = true :=
  List.all_eq_true.2 fun _ hc => isAllowed_of_isNameChar (h.chars _ hc)

/-- What stands around the names and the values. -/
theorem isAllowed_marks : isAllowed '"' = true ∧ isAllowed ':' = true ∧ isAllowed ' ' = true ∧
    isAllowed ',' = true ∧ isAllowed '\n' = true ∧ isAllowed '\x7b' = true ∧
    isAllowed '\x7d' = true := by
  decide

theorem all_quotedEntry {name : String} (h : name ∈ names) (value : List Char) :
    (quotedEntry name value).all isAllowed = value.all isAllowed := by
  simp [quotedEntry, all_name (isName_of_mem h), isAllowed_marks]

theorem all_quotedText (text : String) (c : Char) (after : List Char) :
    (quotedText text (c :: after)).all isAllowed =
      ((quotedText text []).all isAllowed && (c :: after).all isAllowed) := by
  simp [quotedText, isAllowed_marks]

/-- Nothing but the two texts can hold a character that documents cannot. -/
theorem all_jsonText (settings : Settings) :
    (settings.jsonText ['\n']).all isAllowed =
      ((quotedText settings.legacyExtension []).all isAllowed &&
        (quotedText settings.currentExtension []).all isAllowed) := by
  have hspaces (n : Nat) : (List.replicate n ' ').all isAllowed = true := by
    simp [isAllowed_marks]
  simp (disch := decide) only [jsonText, cacheBraces, networkBraces, extensionBraces,
    all_quotedEntry, all_quotedText, List.all_append, List.all_cons, List.all_nil, hspaces,
    all_name (isName_toString _), all_name (isName_truth _), isAllowed_marks, Bool.true_and,
    Bool.and_true]

/-! ## Texts between quotes -/

/-- A text is read as it is written between quotes: a document may hold its characters, and its
breaks are kept. -/
def keptInQuotes (text : String) : Bool :=
  let written := (jsonString text).toList
  written.all isAllowed && keepsBreaks written

theorem keptInQuotes_eq (text : String) :
    keptInQuotes text = ((quotedText text []).all isAllowed && breaksKept text) := by
  rw [keptInQuotes, toList_jsonString]
  rfl

/-- A text is kept whose characters a document may hold and whose breaks are escaped. -/
theorem keptInQuotes_of_chars {text : String}
    (h : ∀ c ∈ text.toList, isAllowed c = true ∧ (isBreak c = true → c = '\n' ∨ c = '\r')) :
    keptInQuotes text = true := by
  have hchars : ∀ d ∈ text.toList.flatMap jsonEscaped, isAllowed d = true ∧ isBreak d = false := by
    intro d hd
    obtain ⟨c, hc, hd⟩ := List.mem_flatMap.1 hd
    -- what JSON leaves as it is has no break in it, and escapes hold none
    obtain ⟨hraw, -⟩ | ⟨first, escape, hescape, hclean, -⟩ := isWriting_jsonEscaped.denotes c
    · obtain rfl : d = c := by simpa [hraw] using hd
      refine ⟨(h d hc).1, ?_⟩
      rw [← Bool.not_eq_true]
      intro hbreak
      obtain rfl | rfl := (h d hc).2 hbreak
      · exact absurd hraw (by decide)
      · exact absurd hraw (by decide)
    · rw [hescape] at hd
      obtain rfl | hd := List.mem_cons.1 hd
      · exact ⟨rfl, rfl⟩
      · exact ⟨(hclean d hd).2.2, (hclean d hd).2.1⟩
  rw [keptInQuotes_eq, Bool.and_eq_true, Scanner.breaksKept_eq]
  refine ⟨List.all_eq_true.2 ?_, keepsBreaks_of_no_break ?_⟩
  · exact List.forall_mem_cons.2 ⟨rfl, List.forall_mem_append.2
      ⟨fun d hd => (hchars d hd).1, List.all_eq_true.1 rfl⟩⟩
  · exact List.forall_mem_append.2 ⟨fun d hd => (hchars d hd).2, by simp [isBreak]⟩

end Settings

end Locator
