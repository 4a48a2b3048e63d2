import Fxquant.Library.Markup
import Fxquant.Library.Scanning

/-!
# The XML reader

`pugixml.cpp` with its default options, for a buffer in UTF-8 without a byte order mark:
`xml_parser::parse_tree` and what it calls, `xml_node::child` and `xml_node::child_value`. A
character here is a `char` there. A comment, a processing instruction or a declaration leaves
nothing in the document; neither does text of blanks only.
-/

namespace Fxquant.Pugixml

open Markup Scanning

abbrev Text := List Char

abbrev XmlToken := Token Text (List (Text × Text)) Text

abbrev XmlNode := Node Text (List (Text × Text)) Text

/-- `ct_space`, `ct_start_symbol` and `ct_symbol` of `chartype_table`. -/
def isSpace (c : Char) : Bool := c = ' ' || c = '\n' || c = '\r' || c = '\t'

def isStartSymbol (c : Char) : Bool := c.isAlpha || c = '_' || c = ':' || 128 ≤ c.toNat

def isSymbol (c : Char) : Bool := isStartSymbol c || c.isDigit || c = '-' || c = '.'

def skipSpace (s : Text) : Text := s.dropWhile isSpace

/-! ### Texts and values -/

def byte (n : ℕ) : Char := Char.ofNat (n % 256)

/-- `utf8_writer::any`. -/
def utf8 (ch : ℕ) : Text :=
  if ch < 0x80 then [byte ch]
  else if ch < 0x800 then [byte (0xC0 ||| ch >>> 6), byte (0x80 ||| ch &&& 0x3F)]
  else if ch < 0x10000 then
    [byte (0xE0 ||| ch >>> 12), byte (0x80 ||| ch >>> 6 &&& 0x3F), byte (0x80 ||| ch &&& 0x3F)]
  else
    [byte (0xF0 ||| ch >>> 18), byte (0x80 ||| ch >>> 12 &&& 0x3F),
      byte (0x80 ||| ch >>> 6 &&& 0x3F), byte (0x80 ||| ch &&& 0x3F)]

def isHexDigit (c : Char) : Bool :=
  c.isDigit || ('a' ≤ c && c ≤ 'f') || ('A' ≤ c && c ≤ 'F')

def hexValue (c : Char) : ℕ :=
  if c.isDigit then c.toNat - '0'.toNat
  else if 'a' ≤ c then c.toNat - 'a'.toNat + 10
  else c.toNat - 'A'.toNat + 10

def number (base : ℕ) (digits : Text) : ℕ :=
  digits.foldl (fun n c => base * n + hexValue c) 0

/-- A character reference after its `&#` or `&#x`. -/
def reference (isDigit : Char → Bool) (base : ℕ) (s : Text) : Option (Text × Text) :=
  match s.takeWhile isDigit, s.dropWhile isDigit with
  | c :: digits, ';' :: r => some (utf8 (number base (c :: digits) % 0x100000000), r)
  | _, _ => none

/-- `strconv_escape`, after the `&`; nothing where the `&` stands for itself. -/
def strconvEscape : Text → Option (Text × Text)
  | '#' :: 'x' :: s => reference isHexDigit 16 s
  | '#' :: s => reference Char.isDigit 10 s
  | 'a' :: 'm' :: 'p' :: ';' :: s => some (['&'], s)
  | 'a' :: 'p' :: 'o' :: 's' :: ';' :: s => some (['\x27'], s)
  | 'g' :: 't' :: ';' :: s => some (['>'], s)
  | 'l' :: 't' :: ';' :: s => some (['<'], s)
  | 'q' :: 'u' :: 'o' :: 't' :: ';' :: s => some (['\x22'], s)
  | _ => none

/-- Line ends and, where the text has them, escapes. -/
def strconv (escapes : Bool) (blank : Char → Char) : ℕ → Text → Text
  | 0, _ => []
  | _, [] => []
  | n + 1, '\r' :: '\n' :: s => blank '\r' :: strconv escapes blank n s
  | n + 1, '&' :: s =>
    match if escapes then strconvEscape s else none with
    | some (value, r) => value ++ strconv escapes blank n r
    | none => '&' :: strconv escapes blank n s
  | n + 1, c :: s => blank c :: strconv escapes blank n s

def newline (c : Char) : Char := if c = '\r' then '\n' else c

def strconvPcdata (s : Text) : Text := strconv true newline s.length s

def strconvCdata (s : Text) : Text := strconv false newline s.length s

/-- `parse_wconv`. -/
def strconvAttribute (s : Text) : Text :=
  strconv true (fun c => if isSpace c then ' ' else c) s.length s

/-- A value ends with its first null character for those who read it. -/
def cString (s : Text) : Text := s.takeWhile fun c => c ≠ '\x00'

/-! ### Tokens -/

/-- One attribute from its name on. -/
def parseAttribute (s : Text) : Option ((Text × Text) × Text) :=
  match skipSpace (s.dropWhile isSymbol) with
  | '=' :: r =>
    match skipSpace r with
    | quote :: r =>
      if quote = '\x22' ∨ quote = '\x27' then
        match r.dropWhile fun c => c ≠ quote with
        | _ :: c :: after =>
          if isStartSymbol c then none
          else
            some ((s.takeWhile isSymbol,
              cString (strconvAttribute (r.takeWhile fun c => c ≠ quote))), c :: after)
        | _ => none
      else none
    | [] => none
  | _ => none

/-- The attributes of a start tag up to its end, and whether that is `/>`. -/
def parseAttributes : ℕ → Text → Option (List (Text × Text) × Bool × Text)
  | 0, _ => none
  | n + 1, s =>
    match skipSpace s with
    | '/' :: '>' :: r => some ([], true, r)
    | '>' :: r => some ([], false, r)
    | c :: r =>
      if isStartSymbol c then
        match parseAttribute (c :: r) with
        | some (first, r) =>
          (parseAttributes n r).map fun (attributes, rest) => (first :: attributes, rest)
        | none => none
      else none
    | [] => none

def startTag (name : Text) : Option (List (Text × Text) × Bool × Text) → Option (XmlToken × Text)
  | some (attributes, false, r) => some (.start name attributes, r)
  | some (attributes, true, r) => some (.empty name attributes, r)
  | none => none

def parseStartTag (s : Text) : Option (XmlToken × Text) :=
  match s.dropWhile isSymbol with
  | '>' :: r => some (.start (s.takeWhile isSymbol) [], r)
  | '/' :: '>' :: r => some (.empty (s.takeWhile isSymbol) [], r)
  | c :: r =>
    if isSpace c then startTag (s.takeWhile isSymbol) (parseAttributes (r.length + 1) r) else none
  | [] => none

def parseEndTag (s : Text) : Option (XmlToken × Text) :=
  match skipSpace (s.dropWhile isSymbol) with
  | '>' :: r => some (.stop (s.takeWhile isSymbol), r)
  | _ => none

def after (pattern : Text) (s : Text) : Option Text := (splitFirst pattern s).map Prod.snd

def parseDoctypeIgnore : ℕ → Text → Option Text
  | _, [] => none
  | depth, '<' :: '!' :: '[' :: s => parseDoctypeIgnore (depth + 1) s
  | 0, ']' :: ']' :: '>' :: s => some s
  | depth + 1, ']' :: ']' :: '>' :: s => parseDoctypeIgnore depth s
  | depth, _ :: s => parseDoctypeIgnore depth s

/-- `parse_doctype_group` with `parse_doctype_primitive`; the first argument is fuel. -/
def parseDoctypeGroup : ℕ → ℕ → Text → Option Text
  | 0, _, _ => none
  | _, _, [] => none
  | n + 1, depth, '<' :: '!' :: '[' :: s =>
    (parseDoctypeIgnore 0 s).bind fun r => parseDoctypeGroup n depth r
  | n + 1, depth, '<' :: '!' :: '-' :: '-' :: s =>
    (after ['-', '-', '>'] s).bind fun r => parseDoctypeGroup n depth r
  | _, _, '<' :: '!' :: '-' :: _ => none
  | n + 1, depth, '<' :: '!' :: s => parseDoctypeGroup n (depth + 1) s
  | n + 1, depth, '<' :: '?' :: s =>
    (after ['?', '>'] s).bind fun r => parseDoctypeGroup n depth r
  | _, _, '<' :: _ => none
  | n + 1, depth, '\x22' :: s => (after ['\x22'] s).bind fun r => parseDoctypeGroup n depth r
  | n + 1, depth, '\x27' :: s => (after ['\x27'] s).bind fun r => parseDoctypeGroup n depth r
  | _, 0, '>' :: s => some s
  | n + 1, depth + 1, '>' :: s => parseDoctypeGroup n depth s
  | n + 1, depth, _ :: s => parseDoctypeGroup n depth s

def parseExclamation : Text → Option (XmlToken × Text)
  | '-' :: '-' :: s => (after ['-', '-', '>'] s).map fun r => (.skip, r)
  | '[' :: 'C' :: 'D' :: 'A' :: 'T' :: 'A' :: '[' :: s =>
    (splitFirst [']', ']', '>'] s).map fun (data, r) => (.text (cString (strconvCdata data)), r)
  | 'D' :: 'O' :: 'C' :: 'T' :: 'Y' :: 'P' :: 'E' :: s =>
    (parseDoctypeGroup (s.length + 1) 0 s).map fun r => (.prolog, r)
  | _ => none

def parseQuestion (s : Text) : Option (XmlToken × Text) :=
  match s with
  | c :: _ =>
    if isStartSymbol c then (after ['?', '>'] (s.dropWhile isSymbol)).map fun r => (.skip, r)
    else none
  | [] => none

/-- The text up to the next tag. -/
def segment (s : Text) : Text := s.takeWhile fun c => c ≠ '<'

/-- The next markup or text of `parse_tree`. -/
def parseToken : Text → Option (XmlToken × Text)
  | [] => some (.finish, [])
  | '<' :: '/' :: s => parseEndTag s
  | '<' :: '?' :: s => parseQuestion s
  | '<' :: '!' :: s => parseExclamation s
  | '<' :: c :: s => if isStartSymbol c then parseStartTag (c :: s) else none
  | ['<'] => none
  | s =>
    if (segment s).all isSpace then some (.skip, s.dropWhile fun c => c ≠ '<')
    else some (.text (cString (strconvPcdata (segment s))), s.dropWhile fun c => c ≠ '<')

/-- The parser stops at a null character, where the last character of the buffer then counts. -/
def zeroTerminated (buffer : Text) : Text := cString buffer.dropLast ++ buffer.getLast?.toList

/-- `load_buffer_inplace`; nothing where it reports an error. Text at the top level, which it
drops, is of no account for `child`. -/
def parse (buffer : Text) : Option (List XmlNode) := document parseToken (zeroTerminated buffer)

/-! ### The document -/

def child (name : Text) : List XmlNode → Option (List (Text × Text) × List XmlNode)
  | [] => none
  | .element name' attributes children :: ns =>
    if name' = name then some (attributes, children) else child name ns
  | .text _ :: ns => child name ns

def childValue : List XmlNode → Text
  | [] => []
  | .text value :: _ => value
  | .element _ _ _ :: ns => childValue ns

/-! ### Lengths -/

theorem length_utf8 (ch : ℕ) : (utf8 ch).length ≤ 4 := by
  rw [utf8]
  split
  · exact Nat.le_of_ble_eq_true rfl
  · split
    · exact Nat.le_of_ble_eq_true rfl
    · split <;> exact Nat.le_of_ble_eq_true rfl

/-- With its `&#`, a reference is longer than what it stands for by no less than nothing. -/
theorem reference_length {isDigit : Char → Bool} {base : ℕ} {s value r : Text}
    (h : reference isDigit base s = some (value, r)) : value.length + r.length ≤ s.length + 2 := by
  have hRun := length_run isDigit s
  rw [reference] at h
  split at h
  · rename_i c digits r' hDigits hRest
    cases h
    have hValue := length_utf8 (number base (c :: digits) % 0x100000000)
    rw [hDigits, hRest, List.length_cons, List.length_cons] at hRun
    omega
  · cases h

theorem strconvEscape_length {s value r : Text} (h : strconvEscape s = some (value, r)) :
    value.length + r.length ≤ s.length + 1 := by
  rw [strconvEscape.eq_def] at h
  split at h
  · have hLength := reference_length h
    simp only [List.length_cons]
    omega
  · have hLength := reference_length h
    simp only [List.length_cons]
    omega
  all_goals
    cases h
    try simp only [List.length_cons, List.length_nil]
    try omega

theorem length_strconv (escapes : Bool) (blank : Char → Char) (n : ℕ) (s : Text) :
    (strconv escapes blank n s).length ≤ s.length := by
  fun_induction strconv escapes blank n s with
  | case1 => exact Nat.zero_le _
  | case2 => exact le_rfl
  | case3 n s ih =>
    simp only [List.length_cons]
    omega
  | case4 n s value r hEscape ih =>
    have hValue : value.length + r.length ≤ s.length + 1 := by
      split at hEscape
      · exact strconvEscape_length hEscape
      · cases hEscape
    rw [List.length_append, List.length_cons]
    omega
  | case5 n s hNone ih =>
    simp only [List.length_cons]
    omega
  | case6 n c s _ _ ih =>
    simp only [List.length_cons]
    omega

theorem length_cString (s : Text) : (cString s).length ≤ s.length :=
  (List.takeWhile_prefix _).length_le

/-! ### Tokens are parts of the input -/

theorem skipSpace_suffix (s : Text) : skipSpace s <:+ s := List.dropWhile_suffix _

theorem after_suffix {pattern s r : Text} (h : after pattern s = some r) : r <:+ s := by
  obtain ⟨⟨before, r'⟩, hSplit, rfl⟩ := Option.map_eq_some_iff.mp h
  exact ⟨before ++ pattern, (splitFirst_eq_some hSplit).symm⟩

theorem parseAttribute_suffix {s r : Text} {a : Text × Text} (h : parseAttribute s = some (a, r)) :
    r <:+ s := by
  rw [parseAttribute] at h
  split at h
  · rename_i r₁ hName
    have h₁ : r₁ <:+ s := (List.suffix_cons _ _).trans
      (hName ▸ (skipSpace_suffix _).trans (List.dropWhile_suffix _))
    split at h
    · rename_i quote r₂ hQuote
      have h₂ : r₂ <:+ r₁ := (List.suffix_cons _ _).trans (hQuote ▸ skipSpace_suffix _)
      split at h
      · split at h
        · rename_i hValue
          split at h
          · cases h
          · cases h
            exact (List.suffix_cons _ _).trans
              ((hValue ▸ List.dropWhile_suffix _ : _ <:+ r₂).trans (h₂.trans h₁))
        · cases h
      · cases h
    · cases h
  · cases h

theorem parseAttributes_suffix {n : ℕ} {s r : Text} {attributes : List (Text × Text)} {closed : Bool}
    (h : parseAttributes n s = some (attributes, closed, r)) : r <:+ s := by
  induction n generalizing s attributes with
  | zero => cases h
  | succ n ih =>
    rw [parseAttributes] at h
    split at h
    · rename_i hSpace
      cases h
      have hSkip := skipSpace_suffix s
      rw [hSpace] at hSkip
      exact (List.suffix_cons _ _).trans ((List.suffix_cons _ _).trans hSkip)
    · rename_i hSpace
      cases h
      have hSkip := skipSpace_suffix s
      rw [hSpace] at hSkip
      exact (List.suffix_cons _ _).trans hSkip
    · rename_i hSpace
      have hSkip := skipSpace_suffix s
      rw [hSpace] at hSkip
      split at h
      · split at h
        · rename_i hFirst
          obtain ⟨⟨rest, closed', r'⟩, hRest, hEq⟩ := Option.map_eq_some_iff.mp h
          cases hEq
          exact (ih hRest).trans ((parseAttribute_suffix hFirst).trans hSkip)
        · cases h
      · cases h
    · cases h

/-- Neither a start tag nor an end tag is a text or the end of the input. -/
theorem parseStartTag_suffix {s r : Text} {t : XmlToken} (h : parseStartTag s = some (t, r)) :
    r <:+ s ∧ t ≠ .finish ∧ ∀ value, t ≠ .text value := by
  have hName := List.dropWhile_suffix isSymbol (l := s)
  rw [parseStartTag] at h
  split at h
  · rename_i hRest
    cases h
    rw [hRest] at hName
    exact ⟨(List.suffix_cons _ _).trans hName, nofun, nofun⟩
  · rename_i hRest
    cases h
    rw [hRest] at hName
    exact ⟨(List.suffix_cons _ _).trans ((List.suffix_cons _ _).trans hName), nofun, nofun⟩
  · rename_i hRest
    rw [hRest] at hName
    split at h
    · rw [startTag.eq_def] at h
      split at h
      · rename_i hAttributes
        cases h
        exact ⟨(parseAttributes_suffix hAttributes).trans ((List.suffix_cons _ _).trans hName),
          nofun, nofun⟩
      · rename_i hAttributes
        cases h
        exact ⟨(parseAttributes_suffix hAttributes).trans ((List.suffix_cons _ _).trans hName),
          nofun, nofun⟩
      · cases h
    · cases h
  · cases h

theorem parseEndTag_suffix {s r : Text} {t : XmlToken} (h : parseEndTag s = some (t, r)) :
    r <:+ s ∧ t ≠ .finish ∧ ∀ value, t ≠ .text value := by
  have hName := (skipSpace_suffix (s.dropWhile isSymbol)).trans (List.dropWhile_suffix isSymbol)
  rw [parseEndTag] at h
  split at h
  · rename_i hRest
    cases h
    rw [hRest] at hName
    exact ⟨(List.suffix_cons _ _).trans hName, nofun, nofun⟩
  · cases h

theorem parseDoctypeIgnore_suffix {depth : ℕ} {s r : Text}
    (h : parseDoctypeIgnore depth s = some r) : r <:+ s := by
  fun_induction parseDoctypeIgnore depth s with
  | case1 => cases h
  | case2 depth s ih =>
    exact (ih h).trans (List.suffix_append ['<', '!', '['] s)
  | case3 s =>
    cases h
    exact List.suffix_append [']', ']', '>'] _
  | case4 depth s ih =>
    exact (ih h).trans (List.suffix_append [']', ']', '>'] s)
  | case5 depth c s _ _ _ ih => exact (ih h).trans (List.suffix_cons c s)

theorem parseDoctypeGroup_suffix {n depth : ℕ} {s r : Text}
    (h : parseDoctypeGroup n depth s = some r) : r <:+ s := by
  fun_induction parseDoctypeGroup n depth s with
  | case1 => cases h
  | case2 => cases h
  | case3 n depth s ih =>
    obtain ⟨t, hIgnore, hGroup⟩ := Option.bind_eq_some_iff.mp h
    exact (ih t hGroup).trans
      ((parseDoctypeIgnore_suffix hIgnore).trans (List.suffix_append ['<', '!', '['] s))
  | case4 n depth s ih =>
    obtain ⟨t, hAfter, hGroup⟩ := Option.bind_eq_some_iff.mp h
    exact (ih t hGroup).trans ((after_suffix hAfter).trans (List.suffix_append ['<', '!', '-', '-'] s))
  | case5 => cases h
  | case6 n depth s _ _ _ ih => exact (ih h).trans (List.suffix_append ['<', '!'] s)
  | case7 n depth s ih =>
    obtain ⟨t, hAfter, hGroup⟩ := Option.bind_eq_some_iff.mp h
    exact (ih t hGroup).trans ((after_suffix hAfter).trans (List.suffix_append ['<', '?'] s))
  | case8 => cases h
  | case9 n depth s ih =>
    obtain ⟨t, hAfter, hGroup⟩ := Option.bind_eq_some_iff.mp h
    exact (ih t hGroup).trans ((after_suffix hAfter).trans (List.suffix_cons _ s))
  | case10 n depth s ih =>
    obtain ⟨t, hAfter, hGroup⟩ := Option.bind_eq_some_iff.mp h
    exact (ih t hGroup).trans ((after_suffix hAfter).trans (List.suffix_cons _ s))
  | case11 =>
    cases h
    exact List.suffix_cons _ _
  | case12 n depth s ih => exact (ih h).trans (List.suffix_cons _ s)
  | case13 n depth c s _ _ _ _ _ _ _ _ _ _ ih => exact (ih h).trans (List.suffix_cons c s)

theorem parseExclamation_suffix {s r : Text} {t : XmlToken} (h : parseExclamation s = some (t, r)) :
    r <:+ s ∧ t ≠ .finish ∧ ∀ value, t = .text value → value.length + r.length ≤ s.length := by
  rw [parseExclamation.eq_def] at h
  split at h
  · rename_i s
    obtain ⟨r', hAfter, hEq⟩ := Option.map_eq_some_iff.mp h
    cases hEq
    exact ⟨(after_suffix hAfter).trans (List.suffix_append ['-', '-'] s), nofun, nofun⟩
  · rename_i s
    obtain ⟨⟨data, r'⟩, hSplit, hEq⟩ := Option.map_eq_some_iff.mp h
    cases hEq
    have hData := splitFirst_eq_some hSplit
    refine ⟨⟨['[', 'C', 'D', 'A', 'T', 'A', '['] ++ data ++ [']', ']', '>'], ?_⟩, nofun, ?_⟩
    · simp [hData]
    · rintro value ⟨⟩
      have hString := length_cString (strconvCdata data)
      have hValue := length_strconv false newline data.length data
      rw [strconvCdata] at hString
      simp only [hData, List.length_append, List.length_cons, strconvCdata]
      omega
  · rename_i s
    obtain ⟨r', hGroup, hEq⟩ := Option.map_eq_some_iff.mp h
    cases hEq
    exact ⟨(parseDoctypeGroup_suffix hGroup).trans
      (List.suffix_append ['D', 'O', 'C', 'T', 'Y', 'P', 'E'] s), nofun, nofun⟩
  · cases h

theorem parseQuestion_suffix {s r : Text} {t : XmlToken} (h : parseQuestion s = some (t, r)) :
    r <:+ s ∧ t ≠ .finish ∧ ∀ value, t ≠ .text value := by
  rw [parseQuestion.eq_def] at h
  split at h
  · split at h
    · obtain ⟨r', hAfter, hEq⟩ := Option.map_eq_some_iff.mp h
      cases hEq
      exact ⟨(after_suffix hAfter).trans (List.dropWhile_suffix _), nofun, nofun⟩
    · cases h
  · cases h

theorem parseToken_of_ne {c : Char} (h : c ≠ '<') (s : Text) : parseToken (c :: s) =
    if (segment (c :: s)).all isSpace then
      some (.skip, (c :: s).dropWhile fun c => c ≠ '<')
    else
      some (.text (cString (strconvPcdata (segment (c :: s)))),
        (c :: s).dropWhile fun c => c ≠ '<') := by
  rw [parseToken.eq_def]
  split <;> simp_all

theorem parseToken_of_tag {s r : Text} {t : XmlToken} (h : parseToken ('<' :: s) = some (t, r)) :
    r <:+ s ∧ t ≠ .finish ∧ ∀ value, t = .text value → value.length + r.length ≤ s.length := by
  rw [parseToken.eq_def] at h
  split at h
  · rename_i hNil
    cases hNil
  · rename_i s' hTag
    cases hTag
    obtain ⟨hSuffix, hFinish, hText⟩ := parseEndTag_suffix h
    exact ⟨hSuffix.trans (List.suffix_cons _ _), hFinish, fun value hEq => absurd hEq (hText value)⟩
  · rename_i s' hTag
    cases hTag
    obtain ⟨hSuffix, hFinish, hText⟩ := parseQuestion_suffix h
    exact ⟨hSuffix.trans (List.suffix_cons _ _), hFinish, fun value hEq => absurd hEq (hText value)⟩
  · rename_i s' hTag
    cases hTag
    obtain ⟨hSuffix, hFinish, hText⟩ := parseExclamation_suffix h
    refine ⟨hSuffix.trans (List.suffix_cons _ _), hFinish, ?_⟩
    intro value hEq
    have hLength := hText value hEq
    rw [List.length_cons]
    omega
  · rename_i c s' _ _ _ hTag
    cases hTag
    split at h
    · obtain ⟨hSuffix, hFinish, hText⟩ := parseStartTag_suffix h
      exact ⟨hSuffix, hFinish, fun value hEq => absurd hEq (hText value)⟩
    · cases h
  · cases h
  · rename_i hTags hOne
    cases s with
    | nil => exact absurd rfl hOne
    | cons c s => exact absurd rfl (hTags c s)

/-- A token is a part of the input, and no text is longer than the token it is read from. -/
theorem parseToken_part {s r : Text} {t : XmlToken} (h : parseToken s = some (t, r)) :
    r <:+ s ∧ (t = .finish → s = []) ∧ (t ≠ .finish → r.length < s.length) ∧
      ∀ value, t = .text value → value.length + r.length ≤ s.length := by
  cases s with
  | nil =>
    cases h
    exact ⟨List.suffix_rfl, fun _ => rfl, fun hNe => absurd rfl hNe, nofun⟩
  | cons c s =>
    by_cases hTag : c = '<'
    · subst hTag
      obtain ⟨hSuffix, hFinish, hText⟩ := parseToken_of_tag h
      have hLength := hSuffix.length_le
      refine ⟨hSuffix.trans (List.suffix_cons _ _), fun hEq => absurd hEq hFinish, ?_, ?_⟩
      · intro _
        rw [List.length_cons]
        omega
      · intro value hEq
        have hValue := hText value hEq
        rw [List.length_cons]
        omega
    · have hRun := length_run (fun c => decide (c ≠ '<')) (c :: s)
      have hSome : 0 < (segment (c :: s)).length := by
        rw [segment, List.takeWhile_cons_of_pos (by simp [hTag])]
        exact Nat.zero_lt_succ _
      rw [parseToken_of_ne hTag] at h
      split at h
      · cases h
        refine ⟨List.dropWhile_suffix _, nofun, ?_, nofun⟩
        intro _
        rw [segment] at hSome
        omega
      · cases h
        refine ⟨List.dropWhile_suffix _, nofun, ?_, ?_⟩
        · intro _
          rw [segment] at hSome
          omega
        · rintro value ⟨⟩
          have hString := length_cString (strconvPcdata (segment (c :: s)))
          have hValue := length_strconv true newline (segment (c :: s)).length (segment (c :: s))
          rw [strconvPcdata] at hString
          rw [strconvPcdata]
          rw [segment] at *
          omega

theorem parseToken_consumes : Consumes parseToken where
  suffix h := (parseToken_part h).1
  finish h := (parseToken_part h).2.1 rfl
  lt h := (parseToken_part h).2.2.1

theorem parseToken_size {s value r : Text} (h : parseToken s = some (.text value, r)) :
    value.length + r.length ≤ s.length :=
  (parseToken_part h).2.2.2 value rfl

theorem parse_eq_some_iff {buffer : Text} {ns : List XmlNode} :
    parse buffer = some ns ↔ Reads parseToken true (zeroTerminated buffer) ns [] :=
  document_eq_some_iff parseToken_consumes

/-! ### What a writer may rely on -/

/-- Characters that stand for themselves in texts and in attributes. -/
def isPlain (c : Char) : Bool := !isSpace c && c ≠ '<' && c ≠ '&' && c ≠ '\x22' && c ≠ '\x00'

def isName (name : Text) : Bool := name.all isSymbol && name.head?.any isStartSymbol

theorem isPlain_iff {c : Char} : isPlain c = true ↔
    isSpace c = false ∧ c ≠ '<' ∧ c ≠ '&' ∧ c ≠ '\x22' ∧ c ≠ '\x00' := by
  simp [isPlain, and_assoc]

theorem strconv_plain {escapes : Bool} {blank : Char → Char} (hBlank : ∀ c, isSpace c = false →
    blank c = c) {n : ℕ} {v : Text} (hFuel : v.length ≤ n) (h : ∀ c ∈ v, isPlain c = true) :
    strconv escapes blank n v = v := by
  induction n generalizing v with
  | zero => rw [List.length_eq_zero_iff.mp (Nat.le_zero.mp hFuel)]; rfl
  | succ n ih =>
    cases v with
    | nil => rfl
    | cons c v =>
      obtain ⟨hSpace, _, hAmp, _⟩ := isPlain_iff.mp (h c List.mem_cons_self)
      have hReturn : c ≠ '\r' := by
        rintro rfl
        cases hSpace
      have hRest := ih (Nat.le_of_succ_le_succ hFuel) fun c' hc' => h c' (List.mem_cons_of_mem _ hc')
      rw [strconv, hBlank c hSpace, hRest]
      · rintro s ⟨⟩
        exact absurd rfl hReturn
      · rintro ⟨⟩
        exact absurd rfl hAmp

theorem cString_plain {v : Text} (h : ∀ c ∈ v, isPlain c = true) : cString v = v := by
  rw [cString, List.takeWhile_eq_self_iff]
  intro c hc
  simpa using (isPlain_iff.mp (h c hc)).2.2.2.2

theorem newline_of_not_space (c : Char) (h : isSpace c = false) : newline c = c := by
  rw [newline, if_neg]
  rintro rfl
  cases h

theorem parseToken_plain {v s : Text} (hSome : v ≠ []) (h : ∀ c ∈ v, isPlain c = true) :
    parseToken (v ++ '<' :: s) = some (.text v, '<' :: s) := by
  obtain ⟨c, v', rfl⟩ := List.exists_cons_of_ne_nil hSome
  have hTag : ∀ c' ∈ c :: v', decide (c' ≠ '<') = true := by
    intro c' hc'
    simpa using (isPlain_iff.mp (h c' hc')).2.1
  have hEnd : decide ('<' ≠ '<') = false := rfl
  have hSegment : segment (c :: v' ++ '<' :: s) = c :: v' := takeWhile_run hTag hEnd
  have hRest : (c :: v' ++ '<' :: s).dropWhile (fun c => c ≠ '<') = '<' :: s :=
    dropWhile_run hTag hEnd
  have hSpace : (c :: v').all isSpace = false := by
    rw [List.all_cons, (isPlain_iff.mp (h c List.mem_cons_self)).1, Bool.false_and]
  have hNe : c ≠ '<' := (isPlain_iff.mp (h c List.mem_cons_self)).2.1
  rw [List.cons_append] at hSegment hRest ⊢
  rw [parseToken_of_ne hNe, hSegment, hRest, hSpace, strconvPcdata,
    strconv_plain newline_of_not_space le_rfl h, cString_plain h]
  rfl

section

variable {name s : Text}

theorem isSymbol_of_isName (h : isName name = true) : ∀ c ∈ name, isSymbol c = true := by
  rw [isName, Bool.and_eq_true, List.all_eq_true] at h
  exact h.1

theorem exists_of_isName (h : isName name = true) :
    ∃ c rest, name = c :: rest ∧ isStartSymbol c = true := by
  rw [isName, Bool.and_eq_true] at h
  cases name with
  | nil => cases h.2
  | cons c rest => exact ⟨c, rest, rfl, by simpa using h.2⟩

theorem isSymbol_ne {c : Char} (h : isSymbol c = true) : c ≠ '/' ∧ c ≠ '?' ∧ c ≠ '!' ∧ c ≠ '<' := by
  refine ⟨?_, ?_, ?_, ?_⟩ <;> rintro rfl <;> cases h

theorem parseToken_start_eq (h : isName name = true) (s : Text) :
    parseToken ('<' :: name ++ s) = parseStartTag (name ++ s) := by
  obtain ⟨c, rest, rfl, hStart⟩ := exists_of_isName h
  obtain ⟨hSlash, hQuestion, hExclamation, _⟩ :=
    isSymbol_ne (isSymbol_of_isName h c List.mem_cons_self)
  rw [List.cons_append, List.cons_append, parseToken.eq_def]
  split <;> simp_all

theorem parseToken_start (h : isName name = true) :
    parseToken ('<' :: name ++ '>' :: s) = some (.start name [], s) := by
  have hEnd : isSymbol '>' = false := rfl
  rw [parseToken_start_eq h, parseStartTag, dropWhile_run (isSymbol_of_isName h) hEnd,
    takeWhile_run (isSymbol_of_isName h) hEnd]
  rfl

theorem parseToken_stop (h : isName name = true) :
    parseToken ('<' :: '/' :: name ++ '>' :: s) = some (.stop name, s) := by
  have hEnd : isSymbol '>' = false := rfl
  have hSkip : skipSpace ('>' :: s) = '>' :: s := rfl
  change parseEndTag (name ++ '>' :: s) = _
  rw [parseEndTag, dropWhile_run (isSymbol_of_isName h) hEnd, hSkip,
    takeWhile_run (isSymbol_of_isName h) hEnd]
  rfl

theorem parseStartTag_attributes (h : isName name = true) :
    parseStartTag (name ++ ' ' :: s) = startTag name (parseAttributes (s.length + 1) s) := by
  have hEnd : isSymbol ' ' = false := rfl
  rw [parseStartTag, dropWhile_run (isSymbol_of_isName h) hEnd,
    takeWhile_run (isSymbol_of_isName h) hEnd]
  rfl

theorem parseAttributes_space (n : ℕ) (s : Text) :
    parseAttributes n (' ' :: s) = parseAttributes n s := by
  cases n <;> rfl

theorem parseAttribute_plain {v : Text} {c : Char} (hName : isName name = true)
    (h : ∀ c ∈ v, isPlain c = true) (hEnd : isStartSymbol c = false) :
    parseAttribute (name ++ '=' :: '\x22' :: (v ++ '\x22' :: c :: s)) =
      some ((name, v), c :: s) := by
  have hEquals : isSymbol '=' = false := rfl
  have hSkip : ∀ t, skipSpace ('=' :: t) = '=' :: t := fun _ => rfl
  have hQuote : ∀ c ∈ v, decide (c ≠ '\x22') = true := by
    intro c hc
    simpa using (isPlain_iff.mp (h c hc)).2.2.2.1
  have hLast : decide ('\x22' ≠ '\x22') = false := rfl
  have hBlank : ∀ c, isSpace c = false → (if isSpace c then ' ' else c) = c := by
    intro c hc
    rw [hc]
    rfl
  have hValue : strconvAttribute v = v := strconv_plain hBlank le_rfl h
  rw [parseAttribute, dropWhile_run (isSymbol_of_isName hName) hEquals,
    takeWhile_run (isSymbol_of_isName hName) hEquals, hSkip]
  change (if '\x22' = '\x22' ∨ '\x22' = '\x27' then
    match (v ++ '\x22' :: c :: s).dropWhile fun c => c ≠ '\x22' with
    | _ :: c :: after =>
      if isStartSymbol c then none
      else some ((name, cString (strconvAttribute ((v ++ '\x22' :: _).takeWhile fun c =>
        c ≠ '\x22'))), c :: after)
    | _ => none
    else none) = _
  rw [if_pos (.inl rfl), dropWhile_run hQuote hLast, takeWhile_run hQuote hLast, hValue,
    cString_plain h]
  simp only [hEnd, Bool.false_eq_true, if_false]

theorem parseAttributes_cons {v : Text} {c : Char} (hName : isName name = true)
    (h : ∀ c ∈ v, isPlain c = true) (hEnd : isStartSymbol c = false) (n : ℕ) :
    parseAttributes (n + 1) (name ++ '=' :: '\x22' :: (v ++ '\x22' :: c :: s)) =
      (parseAttributes n (c :: s)).map fun (attributes, rest) => ((name, v) :: attributes, rest) := by
  obtain ⟨c', rest, hCons, hStart⟩ := exists_of_isName hName
  have hNotSpace : isSpace c' = false := by
    cases hSpace : isSpace c' with
    | false => rfl
    | true =>
      simp only [isSpace, Bool.or_eq_true, decide_eq_true_eq] at hSpace
      rcases hSpace with ((rfl | rfl) | rfl) | rfl <;> cases hStart
  have hSkip : ∀ t, skipSpace (name ++ t) = c' :: (rest ++ t) := by
    intro t
    rw [hCons, skipSpace, List.cons_append, List.dropWhile_cons_of_neg (by simp [hNotSpace])]
  have hSlash : c' ≠ '/' := by
    rintro rfl
    cases hStart
  have hClose : c' ≠ '>' := by
    rintro rfl
    cases hStart
  have hAttribute := parseAttribute_plain hName h hEnd (s := s)
  rw [hCons, List.cons_append] at hAttribute
  rw [parseAttributes, hSkip]
  split
  · rename_i hEq
    exact absurd (List.cons.inj hEq).1 hSlash
  · rename_i hEq
    exact absurd (List.cons.inj hEq).1 hClose
  · rename_i hEq
    obtain ⟨rfl, rfl⟩ := List.cons.inj hEq
    rw [if_pos hStart, hAttribute, hCons]
  · rename_i hEq
    cases hEq

end

section

variable {top : Bool} {ns : List XmlNode} {r : Text}

/-- Blanks before a tag. -/
theorem reads_space_iff {w s : Text} (h : w.all isSpace = true) :
    Reads parseToken top (w ++ '<' :: s) ns r ↔ Reads parseToken top ('<' :: s) ns r := by
  cases w with
  | nil => exact Iff.rfl
  | cons c w =>
    have hSpace : ∀ c' ∈ c :: w, isSpace c' = true := List.all_eq_true.mp h
    have hTag : ∀ c' ∈ c :: w, decide (c' ≠ '<') = true := by
      intro c' hc'
      have hNe : c' ≠ '<' := by
        rintro rfl
        cases hSpace _ hc'
      simpa using hNe
    have hEnd : decide ('<' ≠ '<') = false := rfl
    have hSegment : segment (c :: w ++ '<' :: s) = c :: w := takeWhile_run hTag hEnd
    have hRest : (c :: w ++ '<' :: s).dropWhile (fun c => c ≠ '<') = '<' :: s :=
      dropWhile_run hTag hEnd
    have hNe : c ≠ '<' := by simpa using hTag c List.mem_cons_self
    apply reads_skip_iff
    rw [List.cons_append] at hSegment hRest ⊢
    rw [parseToken_of_ne hNe, hSegment, hRest, h]
    rfl

theorem reads_element_iff {name v s : Text} (hName : isName name = true) (hSome : v ≠ [])
    (h : ∀ c ∈ v, isPlain c = true) :
    Reads parseToken top
        ('<' :: name ++ '>' :: (v ++ '<' :: ('/' :: name ++ '>' :: s))) ns r ↔
      ∃ ns', ns = .element name [] [.text v] :: ns' ∧ Reads parseToken top s ns' r := by
  have hStop : parseToken ('<' :: '/' :: name ++ '>' :: s) = some (.stop name, s) :=
    parseToken_stop hName
  rw [reads_start_iff (parseToken_start hName)]
  constructor
  · rintro ⟨children, t, u, ns', rfl, hChildren, hEnd, hRest⟩
    obtain ⟨texts, rfl, hTexts⟩ := (reads_text_iff (parseToken_plain hSome h)).mp hChildren
    obtain ⟨rfl, rfl⟩ := (reads_stop_iff hStop).mp hTexts
    have hSame := hStop.symm.trans hEnd
    cases hSame
    exact ⟨ns', rfl, hRest⟩
  · rintro ⟨ns', rfl, hRest⟩
    exact ⟨[.text v], _, s, ns', rfl,
      (reads_text_iff (parseToken_plain hSome h)).mpr ⟨[], rfl, .stop hStop⟩, hStop, hRest⟩

end

/-! ### The buffer -/

theorem cString_of_not_mem {s : Text} (h : '\x00' ∉ s) : cString s = s := by
  rw [cString, List.takeWhile_eq_self_iff]
  intro c hc
  have hNe : c ≠ '\x00' := fun hEq => h (hEq ▸ hc)
  simpa using hNe

theorem zeroTerminated_of_not_mem {s : Text} (h : '\x00' ∉ s) : zeroTerminated s = s := by
  have hString : '\x00' ∉ s.dropLast := fun hMem => h (List.mem_of_mem_dropLast hMem)
  rw [zeroTerminated, cString_of_not_mem hString]
  cases s using List.reverseRecOn with
  | nil => rfl
  | append_singleton s c => simp

theorem cString_append {a : Text} (h : '\x00' ∉ a) (s : Text) : cString (a ++ s) = a ++ cString s := by
  rw [cString, cString, List.takeWhile_append_of_pos]
  intro c hc
  have hNe : c ≠ '\x00' := fun hEq => h (hEq ▸ hc)
  simpa using hNe

theorem cString_append_of_mem {s : Text} (h : '\x00' ∈ s) (b : Text) :
    cString (s ++ b) = cString s := by
  rw [cString, cString, List.takeWhile_append, if_neg]
  intro hAll
  have hSelf := (List.takeWhile_prefix (fun c => decide (c ≠ '\x00'))).eq_of_length hAll
  have hNull := List.takeWhile_eq_self_iff.mp hSelf _ h
  simp at hNull

/-- The buffer of a text with some part in the middle, which may hold null characters. -/
theorem zeroTerminated_append {a s b : Text} {c : Char} (hA : '\x00' ∉ a) (hB : '\x00' ∉ b) :
    ∃ s' b', zeroTerminated (a ++ (s ++ (b ++ [c]))) = a ++ (s' ++ b') ∧
      s'.length ≤ s.length ∧ (b' = b ++ [c] ∨ b' = [c]) := by
  have hText : a ++ (s ++ (b ++ [c])) = (a ++ (s ++ b)) ++ [c] := by
    rw [List.append_assoc, List.append_assoc]
  have hBuffer : zeroTerminated (a ++ (s ++ (b ++ [c]))) = a ++ cString (s ++ b) ++ [c] := by
    rw [hText, zeroTerminated, List.dropLast_concat, List.getLast?_concat, cString_append hA]
    rfl
  rw [hBuffer]
  by_cases hNull : '\x00' ∈ s
  · refine ⟨cString s, [c], ?_, length_cString s, .inr rfl⟩
    rw [cString_append_of_mem hNull, List.append_assoc]
  · refine ⟨s, b ++ [c], ?_, le_rfl, .inl rfl⟩
    rw [cString_append hNull, cString_of_not_mem hB, List.append_assoc, List.append_assoc]

theorem childValue_eq (ns : List XmlNode) : childValue ns = [] ∨ .text (childValue ns) ∈ ns := by
  induction ns with
  | nil => exact .inl rfl
  | cons n ns ih =>
    cases n with
    | text value => exact .inr List.mem_cons_self
    | element name attributes children =>
      cases ih with
      | inl hNil => exact .inl hNil
      | inr hMem => exact .inr (List.mem_cons_of_mem _ hMem)

end Fxquant.Pugixml
