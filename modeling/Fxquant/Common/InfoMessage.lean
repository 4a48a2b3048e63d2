import Fxquant.Common.FlatMessage

/-!
# The info message

`info_data.h`: the lines that a strategy adds while it handles a tick, and the message that is made
of them. Other than in the messages of `message.cpp`, a text may hold blanks.
-/

namespace Fxquant.InfoMessage

open Markup Pugixml OrderMessage PriceMessage FlatMessage Scanning

structure InfoData where
  info : List (Text × Text) := []
  counter : ℕ := 0

namespace InfoData

variable (d : InfoData)

/-- `add_line`, with the text that `<<` has made of the value. -/
def addLine (key : String) (value : Text) : InfoData :=
  { d with info := d.info ++ [(key.toList, value)] }

/-- `counter_` is a `size_t`. -/
def reset : InfoData := { info := [], counter := (d.counter + 1) % 2 ^ 64 }

def isEmpty : Bool := d.info.isEmpty

def makeXml : Text :=
  "<message id=\"info\">\n".toList ++ "<id>".toList ++ unsigned d.counter ++ "</id>\n".toList ++
    d.info.flatMap headLine ++ "</message>".toList

end InfoData

/-! ### Texts with blanks -/

/-- Characters that a parser leaves as they are within a text. -/
def isText (c : Char) : Bool := c ≠ '<' && c ≠ '&' && c ≠ '\r' && c ≠ '\x00'

theorem isText_iff {c : Char} : isText c = true ↔ c ≠ '<' ∧ c ≠ '&' ∧ c ≠ '\r' ∧ c ≠ '\x00' := by
  simp [isText, and_assoc]

theorem isText_of_isPlain {c : Char} (h : isPlain c = true) : isText c = true := by
  obtain ⟨hSpace, hTag, hEscape, _, hNull⟩ := isPlain_iff.mp h
  refine isText_iff.mpr ⟨hTag, hEscape, ?_, hNull⟩
  rintro rfl
  cases hSpace

/-- A line whose text is read as it is written: a parser drops a text of nothing but blanks. -/
structure Line (f : Text × Text) : Prop where
  name : isName f.1 = true
  text : ∀ c ∈ f.2, isText c = true
  visible : f.2 ≠ [] → f.2.all isSpace = false

theorem Line.of_plain {f : Text × Text} (h : Plain f) : Line f where
  name := h.1
  text c hc := isText_of_isPlain (h.2 c hc)
  visible hSome := by
    obtain ⟨c, hc⟩ := List.exists_mem_of_ne_nil _ hSome
    exact List.all_eq_false.mpr ⟨c, hc, by simp [(isPlain_iff.mp (h.2 c hc)).1]⟩

theorem strconv_text {n : ℕ} {v : Text} (hFuel : v.length ≤ n) (h : ∀ c ∈ v, isText c = true) :
    strconv true newline n v = v := by
  induction n generalizing v with
  | zero =>
    rw [List.length_eq_zero_iff.mp (Nat.le_zero.mp hFuel)]
    rfl
  | succ n ih =>
    cases v with
    | nil => rfl
    | cons c v =>
      obtain ⟨_, hEscape, hReturn, _⟩ := isText_iff.mp (h c List.mem_cons_self)
      have hRest := ih (Nat.le_of_succ_le_succ hFuel) fun c' hc' => h c' (List.mem_cons_of_mem _ hc')
      rw [strconv, newline, if_neg hReturn, hRest]
      · rintro s ⟨⟩
        exact absurd rfl hReturn
      · rintro ⟨⟩
        exact absurd rfl hEscape

theorem parseToken_text {v : Text} (hText : ∀ c ∈ v, isText c = true) (hVisible : v.all isSpace = false)
    (s : Text) : parseToken (v ++ '<' :: s) = some (.text v, '<' :: s) := by
  cases v with
  | nil => cases hVisible
  | cons c v =>
    have hTag : ∀ c' ∈ c :: v, decide (c' ≠ '<') = true := by
      intro c' hc'
      simpa using (isText_iff.mp (hText c' hc')).1
    have hNull : ∀ c' ∈ c :: v, decide (c' ≠ '\x00') = true := by
      intro c' hc'
      simpa using (isText_iff.mp (hText c' hc')).2.2.2
    have hEnd : decide ('<' ≠ '<') = false := rfl
    have hSegment : segment (c :: v ++ '<' :: s) = c :: v := takeWhile_run hTag hEnd
    have hRest : (c :: v ++ '<' :: s).dropWhile (fun c => c ≠ '<') = '<' :: s :=
      dropWhile_run hTag hEnd
    have hString : cString (c :: v) = c :: v := List.takeWhile_eq_self_iff.mpr hNull
    rw [List.cons_append] at hSegment hRest ⊢
    rw [parseToken_of_ne (isText_iff.mp (hText c List.mem_cons_self)).1, hSegment, hRest, hVisible,
      strconvPcdata, strconv_text le_rfl hText, hString]
    rfl

/-! ### What is read -/

theorem reads_line {top : Bool} {ns : List XmlNode} {s r : Text} {f : Text × Text} (h : Line f)
    (hRest : Reads parseToken top s ns r) :
    Reads parseToken top ('<' :: f.1 ++ '>' :: (f.2 ++ '<' :: ('/' :: f.1 ++ '>' :: s)))
      (leaf f :: ns) r := by
  by_cases hNil : f.2 = []
  · have hPlain : ∀ c ∈ f.2, isPlain c = true := by
      rw [hNil]
      exact List.forall_mem_nil _
    exact reads_leaf h.name hPlain hRest
  · have hStop : parseToken ('<' :: '/' :: f.1 ++ '>' :: s) = some (.stop f.1, s) :=
      parseToken_stop h.name
    have hText := parseToken_text h.text (h.visible hNil) ('/' :: f.1 ++ '>' :: s)
    rw [leaf, if_neg hNil]
    exact .start (parseToken_start h.name) (.text hText (.stop hStop)) hStop hRest

theorem null_not_mem_lines {lines : List (Text × Text)} (h : ∀ f ∈ lines, Line f) :
    '\x00' ∉ lines.flatMap headLine := by
  intro hMem
  obtain ⟨f, hf, hLine⟩ := List.mem_flatMap.mp hMem
  have hTag := null_not_mem_of_isName (h f hf).name
  have hValue : '\x00' ∉ f.2 := fun hNull => (isText_iff.mp ((h f hf).text _ hNull)).2.2.2 rfl
  simp only [headLine, List.mem_append, hTag, hValue, or_false] at hLine
  revert hLine
  decide

theorem InfoData.makeXml_eq (d : InfoData) :
    d.makeXml = '<' :: ("message id=\"info\">".toList ++ '\n' :: ('<' :: "id".toList ++ '>' ::
      (unsigned d.counter ++ '<' :: ('/' :: "id".toList ++ '>' :: ('\n' ::
        (d.info.flatMap headLine ++ "</message>".toList)))))) := by
  have hOpening : "<message id=\"info\">\n".toList =
      '<' :: ("message id=\"info\">".toList ++ ['\n']) := by decide
  have hStart : "<id>".toList = '<' :: "id".toList ++ ['>'] := by decide
  have hStop : "</id>\n".toList = '<' :: ('/' :: "id".toList ++ ['>', '\n']) := by decide
  unfold makeXml
  rw [hOpening, hStart, hStop]
  generalize "message id=\"info\">".toList = opening, "id".toList = name, "</message>".toList = ending
  simp only [List.append_assoc, List.cons_append, List.nil_append]

/-- The counter and the lines are read as they were written. -/
theorem parse_makeXml (d : InfoData) (h : ∀ f ∈ d.info, Line f) :
    (parse d.makeXml).bind (child "message".toList) =
      some ([("id".toList, "info".toList)],
        (("id".toList, unsigned d.counter) :: d.info).map leaf) := by
  have hDigits : ∀ c ∈ unsigned d.counter, isPlain c = true := fun _ hc =>
    isPlain_of_isDigit (isDigit_of_mem_unsigned hc)
  have hCounter : Line ("id".toList, unsigned d.counter) := .of_plain ⟨rfl, hDigits⟩
  have hEnd : parseToken "</message>".toList = some (.stop "message".toList, []) := rfl
  have hLines : Reads parseToken false ('\n' :: (d.info.flatMap headLine ++ "</message>".toList))
      (d.info.map leaf ++ []) "</message>".toList :=
    reads_lines (fun f hf _ _ hLater => reads_line (h f hf) hLater) (w := ['\n']) rfl (.stop hEnd)
  have hInside : Reads parseToken false ('\n' :: ('<' :: "id".toList ++ '>' :: (unsigned d.counter ++
      '<' :: ('/' :: "id".toList ++ '>' :: ('\n' :: (d.info.flatMap headLine ++ "</message>".toList))))))
      (leaf ("id".toList, unsigned d.counter) :: (d.info.map leaf ++ [])) "</message>".toList :=
    (reads_space_iff (w := ['\n']) rfl).mpr (reads_line hCounter hLines)
  have hReads : Reads parseToken true d.makeXml
      [.element "message".toList [("id".toList, "info".toList)]
        (leaf ("id".toList, unsigned d.counter) :: (d.info.map leaf ++ []))] [] := by
    rw [InfoData.makeXml_eq]
    exact .start rfl hInside hEnd (.finish rfl)
  have hText : '\x00' ∉ d.makeXml := by
    have hTags : '\x00' ∉ "<message id=\"info\">\n".toList ∧ '\x00' ∉ "<id>".toList ∧
        '\x00' ∉ "</id>\n".toList ∧ '\x00' ∉ "</message>".toList := by decide
    obtain ⟨hOpening, hStart, hStop, hEnding⟩ := hTags
    have hLater := null_not_mem_lines h
    unfold InfoData.makeXml
    repeat' rw [List.mem_append, not_or]
    exact ⟨⟨⟨⟨⟨hOpening, hStart⟩, null_not_mem_of_plain hDigits⟩, hStop⟩, hLater⟩, hEnding⟩
  have hParse := parse_eq_some_iff.mpr ((zeroTerminated_of_not_mem hText).symm ▸ hReads)
  rw [hParse, List.append_nil]
  rfl

def textOf (children : List XmlNode) (name : String) : Option Text :=
  (child name.toList children).map fun found => childValue found.2

theorem textOf_leaves (lines : List (Text × Text)) (name : String) :
    textOf (lines.map leaf) name = lines.lookup name.toList := by
  rw [textOf, child_leaves]
  cases lines.lookup name.toList with
  | none => rfl
  | some value => exact congrArg some (childValue_leaf value)

theorem readDouble_leaves (D : Decimals) (lines : List (Text × Text)) (name : String) :
    readDouble D (lines.map leaf) name = (lines.lookup name.toList).bind D.stod := by
  rw [readDouble, child_leaves]
  cases lines.lookup name.toList with
  | none => rfl
  | some value => exact congrArg D.stod (childValue_leaf value)

end Fxquant.InfoMessage
