import Fxquant.Common.OrderMessage

/-!
# The round trip of an order message

What `from_xml_message` makes of the text that `to_xml_message` writes. The comment is written
between `<comment>` and `</comment_>`, and the parser never finds the end of the element there.
-/

namespace Fxquant.OrderMessage

open Markup Pugixml

/-! ### The lines -/

def element (field : Text × Text) : XmlNode := .element field.1 [] [.text field.2]

/-- A name and a value that are read as they are written. -/
def Legible (field : Text × Text) : Prop :=
  isName field.1 = true ∧ field.2 ≠ [] ∧ ∀ c ∈ field.2, isPlain c = true

theorem line_eq (field : Text × Text) (s : Text) : line field ++ s =
    indent2 ++ ('<' :: field.1 ++ '>' :: (field.2 ++ '<' :: ('/' :: field.1 ++ '>' :: ('\n' :: s)))) := by
  simp [line]

theorem reads_lines_iff {fs : List (Text × Text)} (h : ∀ f ∈ fs, Legible f) (w w' : Text) {s : Text}
    (hBlank : w.all isSpace = true) (hBlank' : w'.all isSpace = true) {top : Bool}
    {ns : List XmlNode} {r : Text} :
    Reads parseToken top (w ++ (fs.flatMap line ++ (w' ++ '<' :: s))) ns r ↔
      ∃ ns', ns = fs.map element ++ ns' ∧ Reads parseToken top ('<' :: s) ns' r := by
  induction fs generalizing w ns with
  | nil =>
    rw [List.flatMap_nil, List.nil_append, ← List.append_assoc,
      reads_space_iff (by rw [List.all_append, hBlank, hBlank']; rfl)]
    simp
  | cons f fs ih =>
    obtain ⟨hName, hSome, hPlain⟩ := h f List.mem_cons_self
    have hIndent : (w ++ indent2).all isSpace = true := by
      rw [List.all_append, hBlank]
      rfl
    have hFields : ∀ f' ∈ fs, Legible f' := fun f' hf' => h f' (List.mem_cons_of_mem _ hf')
    have hLine : ['\n'].all isSpace = true := rfl
    rw [List.flatMap_cons, List.append_assoc, line_eq, ← List.append_assoc w, List.cons_append,
      reads_space_iff hIndent]
    rw [← List.cons_append, reads_element_iff hName hSome hPlain]
    constructor
    · rintro ⟨ns', rfl, hRest⟩
      obtain ⟨ns'', rfl, hEnd⟩ := (ih hFields ['\n'] hLine).mp hRest
      exact ⟨ns'', rfl, hEnd⟩
    · rintro ⟨ns'', rfl, hEnd⟩
      exact ⟨_, rfl, (ih hFields ['\n'] hLine).mpr ⟨ns'', rfl, hEnd⟩⟩

/-- Lines up to the end of the element they stand in. -/
theorem reads_lines_stop {fs : List (Text × Text)} (h : ∀ f ∈ fs, Legible f) {s r name : Text}
    (hStop : parseToken ('<' :: s) = some (.stop name, r)) :
    Reads parseToken false ('\n' :: (fs.flatMap line ++ (indent1 ++ '<' :: s))) (fs.map element)
      ('<' :: s) := by
  have hBlank : indent1.all isSpace = true := by decide
  rw [← List.singleton_append, reads_lines_iff h ['\n'] indent1 rfl hBlank]
  exact ⟨[], (List.append_nil _).symm, .stop hStop⟩

theorem legible_optional {present : Prop} [Decidable present] {name : String} {value : Text}
    (h : present → Legible (name.toList, value)) : ∀ f ∈ optional present name value, Legible f := by
  intro f hf
  rw [optional] at hf
  split at hf
  · rename_i hPresent
    rw [List.mem_singleton.mp hf]
    exact h hPresent
  · exact absurd hf List.not_mem_nil

theorem put_plain {D : Decimals} (hD : D.Exact) (q : ℚ) : ∀ c ∈ D.put q, isPlain c = true := by
  intro c hc
  cases hD.chars q c hc with
  | inl hDigit => exact isPlain_of_isDigit hDigit
  | inr hOther =>
    have hAll : ['-', '+', '.', 'e'].all isPlain = true := rfl
    exact List.all_eq_true.mp hAll c hOther

theorem legible_put {D : Decimals} (hD : D.Exact) {name : String}
    (hName : isName name.toList = true) (q : ℚ) : Legible (name.toList, D.put q) :=
  ⟨hName, hD.ne_nil q, put_plain hD q⟩

theorem legible_unsigned {name : String} (hName : isName name.toList = true) (n : ℕ) :
    Legible (name.toList, unsigned n) :=
  ⟨hName, Nat.toDigits_ne_nil, fun _ hc => isPlain_of_isDigit (isDigit_of_mem_unsigned hc)⟩

theorem legible_optionalPrice {D : Decimals} (hD : D.Exact) {p : ℚ → Prop} [DecidablePred p]
    {name : String} (hName : isName name.toList = true) (price : Option ℚ) :
    ∀ f ∈ optionalPrice D p name price, Legible f := by
  cases price with
  | none => exact fun f hf => absurd hf List.not_mem_nil
  | some price => exact legible_optional fun _ => legible_put hD hName price

theorem legible_fields {D : Decimals} (hD : D.Exact) {o : Order} (hSymbol : o.symbol ≠ .undefined)
    (action : OrderAction) : ∀ f ∈ fields D o action, Legible f := by
  have hAction : ∀ f ∈ optional (action ≠ .undefined) "action" (actionName action), Legible f :=
    legible_optional fun hAction => ⟨rfl, (actionName_plain hAction).1,
      List.all_eq_true.mp (actionName_plain hAction).2⟩
  have hSym : Legible ("symbol".toList, symbolToString o.symbol) :=
    ⟨rfl, (symbolToString_plain hSymbol).1, List.all_eq_true.mp (symbolToString_plain hSymbol).2⟩
  have hVolume : ∀ f ∈ optional (0 < o.volume) "volume" (D.put o.volume), Legible f :=
    legible_optional fun _ => legible_put hD rfl _
  have hOpenTime : ∀ f ∈ optional (0 < o.openTime) "open_time" (unsigned o.openTime.toNat),
      Legible f := legible_optional fun _ => legible_unsigned rfl _
  have hCloseTime : ∀ f ∈ optional (action ≠ .opened ∧ 0 < o.closeTime) "close_time"
      (unsigned o.closeTime.toNat), Legible f := legible_optional fun _ => legible_unsigned rfl _
  simp only [fields, List.forall_mem_append, List.forall_mem_singleton]
  exact ⟨⟨⟨⟨⟨⟨⟨⟨⟨hAction, hSym⟩, hVolume⟩, legible_put hD rfl _⟩,
    legible_optionalPrice hD rfl _⟩, legible_optionalPrice hD rfl _⟩,
    legible_optionalPrice hD rfl _⟩, legible_optionalPrice hD rfl _⟩, hOpenTime⟩, hCloseTime⟩

/-! ### The whole message -/

def messageAttributes : List (Text × Text) := [("id".toList, "order".toList)]

def orderAttributes (o : Order) : List (Text × Text) :=
  [("id".toList, unsigned o.id), ("type".toList, typeName o.type)]

theorem parseToken_message (s : Text) : parseToken ("<message id=\"order\">".toList ++ s) =
    some (.start "message".toList messageAttributes, s) := rfl

theorem typeName_plain (type : OrderType) : ∀ c ∈ typeName type, isPlain c = true := by
  have hAll : (typeName type).all isPlain = true := by cases type <;> decide +kernel
  exact List.all_eq_true.mp hAll

theorem header_text (id type s : Text) :
    "<order id=\"".toList ++ (id ++ ("\" type=\"".toList ++ (type ++ ("\">\n".toList ++ s)))) =
      '<' :: "order".toList ++ ' ' :: ("id".toList ++ '=' :: '\x22' :: (id ++ '\x22' :: ' ' ::
        ("type".toList ++ '=' :: '\x22' :: (type ++ '\x22' :: '>' :: ('\n' :: s))))) := rfl

theorem parseToken_header (o : Order) (s : Text) : parseToken (makeXmlHeader o ++ s) =
    some (.start "order".toList (orderAttributes o), '\n' :: s) := by
  unfold makeXmlHeader
  rw [List.append_assoc, List.append_assoc, List.append_assoc, List.append_assoc, header_text]
  have hId : ∀ c ∈ unsigned o.id, isPlain c = true :=
    fun _ hc => isPlain_of_isDigit (isDigit_of_mem_unsigned hc)
  have hRest : ∀ n, parseAttributes (n + 2) (' ' :: ("type".toList ++ '=' :: '\x22' ::
      (typeName o.type ++ '\x22' :: '>' :: ('\n' :: s)))) =
      some ([("type".toList, typeName o.type)], false, '\n' :: s) := by
    intro n
    rw [parseAttributes_space, parseAttributes_cons rfl (typeName_plain o.type) rfl]
    rfl
  rw [parseToken_start_eq rfl, parseStartTag_attributes rfl,
    parseAttributes_cons rfl hId rfl]
  have hLength : ∀ t : Text, ("id".toList ++ t).length = t.length + 2 := fun t => by simp
  rw [hLength, hRest]
  rfl

theorem header_starts (o : Order) (s : Text) : ∃ s', makeXmlHeader o ++ s = '<' :: s' := by
  unfold makeXmlHeader
  rw [List.append_assoc, List.append_assoc, List.append_assoc, List.append_assoc, header_text]
  exact ⟨_, rfl⟩

/-- The opening of an order message, with what stands in the order element and after it. -/
def opening (o : Order) (body : Text) : Text :=
  "<message id=\"order\">\n".toList ++ (indent1 ++ (makeXmlHeader o ++ body))

theorem reads_opening_iff {o : Order} {body r : Text} {doc : List XmlNode} :
    Reads parseToken true (opening o body) doc r ↔
      ∃ children t u inside t' u' others,
        doc = .element "message".toList messageAttributes
          (.element "order".toList (orderAttributes o) children :: inside) :: others ∧
        Reads parseToken false ('\n' :: body) children t ∧
        parseToken t = some (.stop "order".toList, u) ∧ Reads parseToken false u inside t' ∧
        parseToken t' = some (.stop "message".toList, u') ∧ Reads parseToken true u' others r := by
  have hText : "<message id=\"order\">\n".toList ++ indent1 =
      "<message id=\"order\">".toList ++ "\n  ".toList := by decide
  have hOpening : opening o body =
      "<message id=\"order\">".toList ++ ("\n  ".toList ++ (makeXmlHeader o ++ body)) := by
    unfold opening
    rw [← List.append_assoc, hText, List.append_assoc]
  have hBlank : ("\n  ".toList).all isSpace = true := by decide
  have hInside : ∀ {ns r}, Reads parseToken false ("\n  ".toList ++ (makeXmlHeader o ++ body)) ns r ↔
      ∃ children t u inside, ns = .element "order".toList (orderAttributes o) children :: inside ∧
        Reads parseToken false ('\n' :: body) children t ∧
        parseToken t = some (.stop "order".toList, u) ∧ Reads parseToken false u inside r := by
    intro ns r
    have hHeader := parseToken_header o body
    obtain ⟨s, hStart⟩ := header_starts o body
    rw [hStart] at hHeader ⊢
    rw [reads_space_iff hBlank, reads_start_iff hHeader]
  rw [hOpening, reads_start_iff (parseToken_message _)]
  constructor
  · rintro ⟨ns, t', u', others, rfl, hNs, hStop', hOthers⟩
    obtain ⟨children, t, u, inside, rfl, hChildren, hStop, hRest⟩ := hInside.mp hNs
    exact ⟨children, t, u, inside, t', u', others, rfl, hChildren, hStop, hRest, hStop', hOthers⟩
  · rintro ⟨children, t, u, inside, t', u', others, rfl, hChildren, hStop, hRest, hStop', hOthers⟩
    exact ⟨_, t', u', others, rfl, hInside.mpr ⟨children, t, u, inside, rfl, hChildren, hStop, hRest⟩,
      hStop', hOthers⟩

/-! ### A comment is not read back -/

theorem child_elements (name : Text) (fs : List (Text × Text)) (ns : List XmlNode) :
    child name (fs.map element ++ ns) =
      ((fs.lookup name).map fun value => ([], [.text value])).or (child name ns) := by
  induction fs with
  | nil => rfl
  | cons f fs ih =>
    rw [List.map_cons, List.cons_append, element, child, List.lookup_cons, ih]
    by_cases hName : f.1 = name
    · simp [hName]
    · have hOther : (name == f.1) = false := by
        rw [beq_eq_false_iff_ne]
        exact fun hEq => hName hEq.symm
      rw [if_neg hName, hOther]

/-- After the text of a comment no part of the message ends a `comment` element. -/
def afterComment : Text := "</comment_>\n  </order>\n</message>".toList

theorem no_stop {b s : Text} (h : b = afterComment ∨ b = ['>']) (hSuffix : s <:+ b) :
    ∀ r, parseToken s ≠ some (.stop "comment".toList, r) := by
  have hAll : ∀ s ∈ afterComment.tails ++ ['>'].tails,
      (parseToken s).map Prod.fst ≠ some (.stop "comment".toList) := by decide +kernel
  intro r hStop
  apply hAll s
  · rw [List.mem_append, List.mem_tails, List.mem_tails]
    rcases h with rfl | rfl
    · exact .inl hSuffix
    · exact .inr hSuffix
  · rw [hStop]
    rfl

/-- What the element of a comment holds is shorter than the comment. -/
theorem childValue_ne {comment s b : Text} (hSome : comment ≠ []) (hLength : s.length ≤ comment.length)
    (hb : b = afterComment ∨ b = ['>']) {children : List XmlNode} {t u : Text}
    (hReads : Reads parseToken false (s ++ b) children t)
    (hStop : parseToken t = some (.stop "comment".toList, u)) : childValue children ≠ comment := by
  cases childValue_eq children with
  | inl hNil =>
    rw [hNil]
    exact hSome.symm
  | inr hText =>
    intro hEq
    rw [hEq] at hText
    have hSize := hReads.text_size parseToken_consumes List.length parseToken_size hText
    have hSuffix := hReads.suffix parseToken_consumes
    have hLonger : b.length < t.length := by
      by_contra hShort
      exact no_stop hb (List.suffix_of_suffix_length_le hSuffix (List.suffix_append s b)
        (not_lt.mp hShort)) u hStop
    rw [List.length_append] at hSize
    omega

theorem fromXmlMessage_of_reads {D : Decimals} {autoId : ℕ} {xml : Text} {o : Order}
    {children inside others : List XmlNode}
    (h : Reads parseToken true (zeroTerminated xml) (.element "message".toList messageAttributes
      (.element "order".toList (orderAttributes o) children :: inside) :: others) []) :
    fromXmlMessage D autoId xml = fromOrderNode D autoId (orderAttributes o) children := by
  rw [fromXmlMessage, parse_eq_some_iff.mpr h]
  rfl

theorem readOrder_comment {D : Decimals} {autoId : ℕ} {sym : Symbol}
    {attributes : List (Text × Text)} {children : List XmlNode} {o : Order} {comment : Text}
    (h : readOrder D autoId sym attributes children = some (o, comment)) :
    comment = readComment children := by
  simp only [readOrder, Option.bind_eq_bind, Option.bind_eq_some_iff, Option.some.injEq,
    Prod.mk.injEq] at h
  obtain ⟨_, _, _, _, _, _, _, _, _, hComment⟩ := h
  exact hComment.symm

theorem lookup_optional {present : Prop} [Decidable present] {name : String} {value key : Text} :
    (optional present name value).lookup key =
      if key = name.toList ∧ present then some value else none := by
  rw [optional]
  split
  · rename_i hPresent
    by_cases hKey : key = name.toList
    · rw [hKey, List.lookup_cons_self, if_pos ⟨rfl, hPresent⟩]
    · rw [List.lookup_cons, beq_eq_false_iff_ne.mpr hKey, if_neg fun hBoth => hKey hBoth.1]
      rfl
  · rename_i hAbsent
    rw [if_neg fun hBoth => hAbsent hBoth.2, List.lookup_nil]

theorem lookup_optionalPrice {D : Decimals} {p : ℚ → Prop} [DecidablePred p] {name : String}
    {price : Option ℚ} {key : Text} : (optionalPrice D p name price).lookup key =
      if key = name.toList then (price.filter fun q => decide (p q)).map D.put else none := by
  cases price with
  | none =>
    rw [optionalPrice]
    split <;> rfl
  | some q =>
    rw [optionalPrice, lookup_optional]
    by_cases hPresent : p q <;> simp [hPresent, Option.filter]

theorem filter_of_true (price : Option ℚ) : price.filter (fun _ => true) = price := by
  cases price <;> rfl

/-- Each line is found under its own name; there is no line of a comment. -/
theorem lookup_fields (D : Decimals) (o : Order) (action : OrderAction) :
    (fields D o action).lookup "action".toList =
        (if action ≠ .undefined then some (actionName action) else none) ∧
      (fields D o action).lookup "symbol".toList = some (symbolToString o.symbol) ∧
      (fields D o action).lookup "volume".toList =
        (if 0 < o.volume then some (D.put o.volume) else none) ∧
      (fields D o action).lookup "order_price".toList = some (D.put o.orderPrice) ∧
      (fields D o action).lookup "open_price".toList =
        (o.openPrice.filter fun price => decide (0 < price)).map D.put ∧
      (fields D o action).lookup "close_price".toList =
        (o.closePrice.filter fun price => decide (action ≠ .opened ∧ 0 < price)).map D.put ∧
      (fields D o action).lookup "stop_loss".toList = o.stopLoss.map D.put ∧
      (fields D o action).lookup "take_profit".toList = o.takeProfit.map D.put ∧
      (fields D o action).lookup "open_time".toList =
        (if 0 < o.openTime then some (unsigned o.openTime.toNat) else none) ∧
      (fields D o action).lookup "close_time".toList =
        (if action ≠ .opened ∧ 0 < o.closeTime then some (unsigned o.closeTime.toNat) else none) ∧
      (fields D o action).lookup "comment".toList = none := by
  refine ⟨?_, ?_, ?_, ?_, ?_, ?_, ?_, ?_, ?_, ?_, ?_⟩ <;>
    simp +decide [fields, List.lookup_append, lookup_optional, lookup_optionalPrice,
      List.lookup_cons, filter_of_true]

/-- After the last line of a message without a comment. -/
def closing : Text := "  </order>\n</message>".toList

theorem toXmlMessage_of_nil (D : Decimals) (o : Order) (action : OrderAction) :
    toXmlMessage D o [] action = opening o ((fields D o action).flatMap line ++ closing) := by
  have hEnd : closing = indent1 ++ ("</order>\n".toList ++ "</message>".toList) := rfl
  unfold toXmlMessage opening commentLine
  rw [if_pos rfl, hEnd]
  simp only [List.append_assoc, List.nil_append]

theorem toXmlMessage_of_ne {comment : Text} (h : comment ≠ []) (D : Decimals) (o : Order)
    (action : OrderAction) : toXmlMessage D o comment action =
      opening o ((fields D o action).flatMap line ++
        (indent2 ++ ("<comment>".toList ++ (comment ++ afterComment)))) := by
  have hEnd : afterComment = "</comment_>\n".toList ++
      (indent1 ++ ("</order>\n".toList ++ "</message>".toList)) := rfl
  unfold toXmlMessage opening commentLine
  rw [if_neg h, hEnd]
  simp only [List.append_assoc]

theorem null_not_mem_of_plain {v : Text} (h : ∀ c ∈ v, isPlain c = true) : '\x00' ∉ v := by
  intro hMem
  exact absurd rfl (isPlain_iff.mp (h _ hMem)).2.2.2.2

theorem null_not_mem_lines {fs : List (Text × Text)} (h : ∀ f ∈ fs, Legible f) :
    '\x00' ∉ fs.flatMap line := by
  intro hMem
  obtain ⟨f, hf, hLine⟩ := List.mem_flatMap.mp hMem
  obtain ⟨hName, _, hPlain⟩ := h f hf
  have hTag : '\x00' ∉ f.1 := by
    intro hIn
    cases isSymbol_of_isName hName _ hIn
  have hValue : '\x00' ∉ f.2 := null_not_mem_of_plain hPlain
  simp only [line, List.mem_append, hTag, hValue, or_false] at hLine
  revert hLine
  decide

theorem null_not_mem_opening {D : Decimals} (hD : D.Exact) {o : Order}
    (hSymbol : o.symbol ≠ .undefined) (action : OrderAction) {rest : Text} (h : '\x00' ∉ rest) :
    '\x00' ∉ opening o ((fields D o action).flatMap line ++ rest) := by
  have hLines := null_not_mem_lines (legible_fields hD hSymbol action)
  have hId : '\x00' ∉ unsigned o.id :=
    null_not_mem_of_plain fun _ hc => isPlain_of_isDigit (isDigit_of_mem_unsigned hc)
  have hType : '\x00' ∉ typeName o.type := null_not_mem_of_plain (typeName_plain o.type)
  intro hMem
  unfold opening makeXmlHeader at hMem
  simp only [List.mem_append, hId, hType, hLines, h, or_false] at hMem
  revert hMem
  decide

theorem fromXmlMessage_of_nil {D : Decimals} (hD : D.Exact) (autoId : ℕ) {o : Order}
    (hSymbol : o.symbol ≠ .undefined) (action : OrderAction) :
    fromXmlMessage D autoId (toXmlMessage D o [] action) =
      fromOrderNode D autoId (orderAttributes o) ((fields D o action).map element) := by
  have hLegible := legible_fields hD hSymbol action
  have hNull : '\x00' ∉ opening o ((fields D o action).flatMap line ++ closing) :=
    null_not_mem_opening hD hSymbol action (by decide)
  have hStop : parseToken ('<' :: "/order>\n</message>".toList) =
      some (.stop "order".toList, "\n</message>".toList) := rfl
  have hStop' : parseToken "</message>".toList = some (.stop "message".toList, []) := rfl
  have hClosing : closing = indent1 ++ '<' :: "/order>\n</message>".toList := by decide
  have hLines : Reads parseToken false ('\n' :: ((fields D o action).flatMap line ++ closing))
      ((fields D o action).map element) ('<' :: "/order>\n</message>".toList) := by
    rw [hClosing]
    exact reads_lines_stop hLegible hStop
  have hInside : Reads parseToken false "\n</message>".toList ([] : List XmlNode)
      "</message>".toList := .skip rfl (.stop hStop')
  rw [toXmlMessage_of_nil]
  apply fromXmlMessage_of_reads
  · rw [zeroTerminated_of_not_mem hNull]
    exact reads_opening_iff.mpr ⟨_, _, _, [], _, [], [], rfl, hLines, hStop, hInside, hStop',
      .finish rfl⟩

/-- The buffer of a message with a comment, which may be cut short in the comment. -/
theorem zeroTerminated_comment {D : Decimals} (hD : D.Exact) {o : Order}
    (hSymbol : o.symbol ≠ .undefined) {comment : Text} (h : comment ≠ []) (action : OrderAction) :
    ∃ s b, zeroTerminated (toXmlMessage D o comment action) =
        opening o ((fields D o action).flatMap line ++
          (indent2 ++ ('<' :: "comment".toList ++ '>' :: (s ++ b)))) ∧
      s.length ≤ comment.length ∧ (b = afterComment ∨ b = ['>']) := by
  have hBefore : '\x00' ∉ opening o ((fields D o action).flatMap line ++
      (indent2 ++ "<comment>".toList)) := null_not_mem_opening hD hSymbol action (by decide)
  have hAfter : '\x00' ∉ "</comment_>\n  </order>\n</message".toList := by decide
  obtain ⟨s, b, hBuffer, hLength, hEnd⟩ :=
    zeroTerminated_append (s := comment) (c := '>') hBefore hAfter
  have hOpening : ∀ rest, opening o ((fields D o action).flatMap line ++
      (indent2 ++ "<comment>".toList)) ++ rest = opening o ((fields D o action).flatMap line ++
        (indent2 ++ ('<' :: "comment".toList ++ '>' :: rest))) := by
    intro rest
    unfold opening
    simp only [List.append_assoc]
    rfl
  refine ⟨s, b, ?_, hLength, hEnd⟩
  rw [← hOpening, ← hBuffer, toXmlMessage_of_ne h, hOpening]
  rfl

/-- Whatever is read from a message with a comment, it is not the comment. -/
theorem fromXmlMessage_of_ne {D : Decimals} (hD : D.Exact) (autoId : ℕ) {o : Order}
    (hSymbol : o.symbol ≠ .undefined) {comment : Text} (h : comment ≠ []) (action : OrderAction)
    {o' : Order} {action' : OrderAction} :
    fromXmlMessage D autoId (toXmlMessage D o comment action) ≠ (some (o', comment), action') := by
  intro hFrom
  have hLegible := legible_fields hD hSymbol action
  obtain ⟨s, b, hText, hLength, hEnd⟩ := zeroTerminated_comment hD hSymbol h action
  cases hParse : parse (toXmlMessage D o comment action) with
  | none =>
    rw [fromXmlMessage, hParse] at hFrom
    cases hFrom
  | some doc =>
    have hReads := parse_eq_some_iff.mp hParse
    have hOpen := hReads
    rw [hText] at hOpen
    obtain ⟨children, t, u, inside, t', u', others, rfl, hChildren, _⟩ := reads_opening_iff.mp hOpen
    have hIndent : indent2.all isSpace = true := by decide
    rw [List.cons_append, ← List.singleton_append,
      reads_lines_iff hLegible ['\n'] indent2 rfl hIndent] at hChildren
    obtain ⟨ns, rfl, hComment⟩ := hChildren
    have hTag : parseToken ('<' :: "comment".toList ++ '>' :: (s ++ b)) =
        some (.start "comment".toList [], s ++ b) := parseToken_start rfl
    obtain ⟨cs, v, v', ns', rfl, hCs, hStop, _⟩ := (reads_start_iff hTag).mp hComment
    obtain ⟨_, _, _, _, _, _, _, _, _, _, hNone⟩ := lookup_fields D o action
    have hRead : readComment ((fields D o action).map element ++
        .element "comment".toList [] cs :: ns') = childValue cs := by
      rw [readComment, child_elements, hNone]
      rfl
    rw [fromXmlMessage_of_reads hReads, fromOrderNode] at hFrom
    split at hFrom
    · cases hFrom
    · have hValue := readOrder_comment (Prod.mk.inj hFrom).1
      rw [hRead] at hValue
      exact childValue_ne h hLength hEnd hCs hStop hValue.symm

/-! ### A message without a comment -/

/-- An order of a public constructor, which checks `isValid`, as no setter breaks it, with 7
significant digits and with times that `milliseconds` can hold. -/
structure Sendable (o : Order) : Prop where
  valid : o.isValid = true
  id_pos : 0 < o.id
  id_lt : o.id < 2 ^ 32
  symbol : o.symbol ≠ .undefined
  volume : SevenDigits o.volume
  orderPrice : SevenDigits o.orderPrice
  openPrice : ∀ q ∈ o.openPrice, SevenDigits q
  closePrice : ∀ q ∈ o.closePrice, SevenDigits q
  stopLoss : ∀ q ∈ o.stopLoss, SevenDigits q
  takeProfit : ∀ q ∈ o.takeProfit, SevenDigits q
  openTime : o.openTime < 2 ^ 63
  closeTime : o.closeTime < 2 ^ 63

/-- What is left of an order in its message. -/
def received (o : Order) (action : OrderAction) : Order where
  type := o.type
  id := o.id
  symbol := o.symbol
  volume := o.volume
  orderPrice := o.orderPrice
  openPrice := o.openPrice.filter fun price => decide (0 < price)
  closePrice := o.closePrice.filter fun price => decide (action ≠ .opened ∧ 0 < price)
  stopLoss := o.stopLoss
  takeProfit := o.takeProfit
  openTime := if 0 < o.openTime then o.openTime else 0
  closeTime := if action ≠ .opened ∧ 0 < o.closeTime then o.closeTime else 0

theorem child_fields (name : Text) (fs : List (Text × Text)) : child name (fs.map element) =
    (fs.lookup name).map fun value => ([], [.text value]) := by
  have hFields := child_elements name fs []
  rwa [List.append_nil, child, Option.or_none] at hFields

theorem readDouble_fields (D : Decimals) (fs : List (Text × Text)) (name : String) :
    readDouble D (fs.map element) name = (fs.lookup name.toList).bind D.stod := by
  rw [readDouble, child_fields]
  cases fs.lookup name.toList <;> rfl

theorem readTime_fields {fs : List (Text × Text)} {name : String} {present : Prop}
    [Decidable present] {t : ℤ} (hPos : present → 0 < t) (hLt : t < 2 ^ 63)
    (h : fs.lookup name.toList = if present then some (unsigned t.toNat) else none) :
    readTime (fs.map element) name = if present then t else 0 := by
  rw [readTime, child_fields, h]
  split_ifs with hPresent
  · have hNat : ((t.toNat : ℕ) : ℤ) = t := Int.toNat_of_nonneg (hPos hPresent).le
    have hRead : stoull (unsigned t.toNat) = some t.toNat := stoull_unsigned (by omega)
    simp only [Option.map_some, Option.bind_some, childValue, hRead, hNat]
    rw [Int.bmod_eq_of_le] <;> omega
  · rfl

theorem stod_put {D : Decimals} (hD : D.Exact) {price : Option ℚ}
    (h : ∀ q ∈ price, SevenDigits q) : (price.map D.put).bind D.stod = price := by
  cases price with
  | none => rfl
  | some q => exact hD.back q (h q rfl)

theorem mem_of_mem_filter {p : ℚ → Bool} {price : Option ℚ} {q : ℚ} (h : q ∈ price.filter p) :
    q ∈ price := (Option.filter_eq_some_iff.mp h).1

theorem volume_pos {o : Order} (h : o.isValid = true) : 0 < o.volume := by
  have hVolume : (100⁻¹ : ℚ) ≤ o.volume := by
    cases hBuy : o.type.isBuy with
    | false =>
      simp [Order.isValid, hBuy] at h
      exact h.1.1.2
    | true =>
      simp [Order.isValid, hBuy] at h
      exact h.1.1.2
  linarith

theorem readId_orderAttributes {o : Order} (h : Sendable o) (autoId : ℕ) :
    readId autoId (orderAttributes o) = o.id := by
  have hLookup : (orderAttributes o).reverse.lookup "id".toList = some (unsigned o.id) := rfl
  rw [readId, hLookup, Option.getD_some, asUint_unsigned h.id_lt]
  exact if_neg h.id_pos.ne'

theorem ofPrices_of_isValid {o : Order} (h : o.isValid = true) :
    Order.ofPrices o.type o.symbol o.volume o.orderPrice o.stopLoss o.takeProfit o.id =
      some { type := o.type, id := o.id, symbol := o.symbol, volume := o.volume
             orderPrice := o.orderPrice, stopLoss := o.stopLoss, takeProfit := o.takeProfit } :=
  if_pos h

theorem fromXmlMessage_toXmlMessage {D : Decimals} (hD : D.Exact) (autoId : ℕ) {o : Order}
    (h : Sendable o) (action : OrderAction) :
    fromXmlMessage D autoId (toXmlMessage D o [] action) =
      (some (received o action, []), action) := by
  obtain ⟨hAction, hSymbol, hVolume, hOrderPrice, hOpenPrice, hClosePrice, hStopLoss, hTakeProfit,
    hOpenTime, hCloseTime, hComment⟩ := lookup_fields D o action
  have hSymbolRead : child "symbol".toList ((fields D o action).map element) =
      some ([], [.text (symbolToString o.symbol)]) := by rw [child_fields, hSymbol]; rfl
  have hActionRead : readAction ((fields D o action).map element) = action := by
    rw [readAction, child_fields, hAction]
    split_ifs with hNone
    · exact actionOf_actionName action
    · exact (not_not.mp hNone).symm
  have hCommentRead : readComment ((fields D o action).map element) = [] := by
    rw [readComment, child_fields, hComment]
    rfl
  have hType : (orderAttributes o).reverse.lookup "type".toList = some (typeName o.type) := rfl
  rw [fromXmlMessage_of_nil hD autoId h.symbol, fromOrderNode, hSymbolRead]
  simp only [childValue, symbolFromString_symbolToString h.symbol, hActionRead]
  rw [readOrder]
  simp only [readDouble_fields, hVolume, if_pos (volume_pos h.valid), hOrderPrice, hOpenPrice,
    hClosePrice, hStopLoss, hTakeProfit, Option.bind_some, hD.back _ h.volume,
    hD.back _ h.orderPrice, stod_put hD h.stopLoss, stod_put hD h.takeProfit,
    stod_put hD fun q hq => h.openPrice q (mem_of_mem_filter hq),
    stod_put hD fun q hq => h.closePrice q (mem_of_mem_filter hq), hType, Option.getD_some,
    typeOf_typeName, readId_orderAttributes h, ofPrices_of_isValid h.valid, hCommentRead,
    readTime_fields (fun hPos => hPos) h.openTime hOpenTime,
    readTime_fields (fun hPos => hPos.2) h.closeTime hCloseTime, Option.bind_eq_bind]
  rfl

/-! ### The round trip -/

/-- The close price and the close time are not compared for an order that is announced as opened. -/
def RoundTrips (D : Decimals) (autoId : ℕ) (o : Order) (comment : Text) (action : OrderAction) :
    Prop :=
  ∃ o', fromXmlMessage D autoId (toXmlMessage D o comment action) = (some (o', comment), action) ∧
    o'.type = o.type ∧ o'.id = o.id ∧ o'.symbol = o.symbol ∧ o'.volume = o.volume ∧
    o'.orderPrice = o.orderPrice ∧ o'.openPrice = o.openPrice ∧ o'.stopLoss = o.stopLoss ∧
    o'.takeProfit = o.takeProfit ∧ o'.openTime = o.openTime ∧
    (action ≠ .opened → o'.closePrice = o.closePrice ∧ o'.closeTime = o.closeTime)

def Kept (price : Option ℚ) : Prop := ∀ q ∈ price, 0 < q

theorem filter_eq_self_iff {p : ℚ → Bool} {price : Option ℚ} :
    price.filter p = price ↔ ∀ q ∈ price, p q = true := by
  cases price with
  | none => simp
  | some q => simp [Option.filter]

/-- An order message is read back exactly when it has no comment, no price that is not above zero and
no time before the epoch. -/
theorem roundTrips_iff {D : Decimals} (hD : D.Exact) (autoId : ℕ) {o : Order} (h : Sendable o)
    (comment : Text) (action : OrderAction) : RoundTrips D autoId o comment action ↔
      comment = [] ∧ Kept o.openPrice ∧ 0 ≤ o.openTime ∧
        (action ≠ .opened → Kept o.closePrice ∧ 0 ≤ o.closeTime) := by
  have hTime : ∀ t : ℤ, (if 0 < t then t else 0) = t ↔ 0 ≤ t := by
    intro t
    split_ifs <;> omega
  have hOpenPrice : (received o action).openPrice = o.openPrice ↔ Kept o.openPrice := by
    rw [received, filter_eq_self_iff]
    simp only [decide_eq_true_eq, Kept]
  have hClose : (action ≠ .opened → (received o action).closePrice = o.closePrice ∧
      (received o action).closeTime = o.closeTime) ↔
      (action ≠ .opened → Kept o.closePrice ∧ 0 ≤ o.closeTime) := by
    apply imp_congr_right
    intro hAction
    rw [received, filter_eq_self_iff]
    simp only [ne_eq, hAction, not_false_eq_true, true_and, decide_eq_true_eq, Kept, hTime]
  rw [← hOpenPrice, ← hClose, ← hTime o.openTime]
  constructor
  · rintro ⟨o', hFrom, _, _, _, _, _, hOpen, _, _, hOpenTime, hCloseKept⟩
    have hNil : comment = [] := by
      by_contra hSome
      exact fromXmlMessage_of_ne hD autoId h.symbol hSome action hFrom
    subst hNil
    rw [fromXmlMessage_toXmlMessage hD autoId h action] at hFrom
    cases hFrom
    exact ⟨rfl, hOpen, hOpenTime, hCloseKept⟩
  · rintro ⟨rfl, hOpen, hOpenTime, hCloseKept⟩
    exact ⟨received o action, fromXmlMessage_toXmlMessage hD autoId h action, rfl, rfl, rfl, rfl,
      rfl, hOpen, rfl, rfl, hOpenTime, hCloseKept⟩

/-! ### One order -/

def readFraction (s : Text) : ℚ :=
  number 10 (s.takeWhile Char.isDigit) /
    match s.dropWhile Char.isDigit with
    | _ :: r => number 10 (r.takeWhile Char.isDigit)
    | [] => 1

/-- Whole numbers as the stream writes them, and quotients. -/
def fractions : Decimals where
  put q :=
    (if q < 0 then ['-'] else []) ++
      (unsigned q.num.natAbs ++ if q.den = 1 then [] else 'e' :: unsigned q.den)
  stod
    | '-' :: s => some (-readFraction s)
    | s => some (readFraction s)

theorem readFraction_quotient (n d : ℕ) :
    readFraction (unsigned n ++ if d = 1 then [] else 'e' :: unsigned d) = n / d := by
  split
  · rename_i hOne
    have hRest : (unsigned n).dropWhile Char.isDigit = [] := by
      rw [List.dropWhile_eq_nil_iff]
      exact fun _ hc => isDigit_of_mem_unsigned hc
    rw [List.append_nil, readFraction, takeWhile_unsigned, number_unsigned, hRest, hOne,
      Nat.cast_one]
  · have hDigits : ∀ c ∈ unsigned n, c.isDigit = true := fun _ hc => isDigit_of_mem_unsigned hc
    have hEnd : Char.isDigit 'e' = false := rfl
    rw [readFraction, Scanning.takeWhile_run hDigits hEnd, Scanning.dropWhile_run hDigits hEnd,
      number_unsigned]
    simp only [takeWhile_unsigned, number_unsigned]

theorem fractions_back (q : ℚ) : fractions.stod (fractions.put q) = some q := by
  have hQuotient : (q.num : ℚ) / q.den = q := q.num_div_den
  by_cases hNeg : q < 0
  · have hPut : fractions.put q = '-' ::
        (unsigned q.num.natAbs ++ if q.den = 1 then [] else 'e' :: unsigned q.den) := by
      simp only [fractions, if_pos hNeg]
      rfl
    have hAbs : ((q.num.natAbs : ℕ) : ℚ) = -q.num := by
      rw [Nat.cast_natAbs, abs_of_neg (Rat.num_neg.mpr hNeg), Int.cast_neg]
    rw [hPut]
    change some (-readFraction _) = some q
    rw [readFraction_quotient, hAbs, neg_div, neg_neg, hQuotient]
  · have hPut : fractions.put q =
        unsigned q.num.natAbs ++ if q.den = 1 then [] else 'e' :: unsigned q.den := by
      simp only [fractions, if_neg hNeg]
      rfl
    have hAbs : ((q.num.natAbs : ℕ) : ℚ) = q.num := by
      rw [Nat.cast_natAbs, abs_of_nonneg (Rat.num_nonneg.mpr (not_lt.mp hNeg))]
    have hRead : fractions.stod (fractions.put q) = some (readFraction (fractions.put q)) := by
      rw [hPut]
      have hSome : unsigned q.num.natAbs ≠ [] := Nat.toDigits_ne_nil
      obtain ⟨c, s, hDigits⟩ := List.exists_cons_of_ne_nil hSome
      have hDigit : c.isDigit = true := isDigit_of_mem_unsigned (hDigits ▸ List.mem_cons_self)
      rw [hDigits, List.cons_append]
      simp only [fractions]
      split
      · rename_i hSign
        obtain ⟨rfl, _⟩ := List.cons.inj hSign
        cases hDigit
      · rfl
    rw [hRead, hPut, readFraction_quotient, hAbs, hQuotient]

theorem fractions_exact : fractions.Exact where
  ne_nil q := by
    have hDigits : unsigned q.num.natAbs ≠ [] := Nat.toDigits_ne_nil
    simp [fractions, hDigits]
  chars q c hc := by
    have hDigit : ∀ n, c ∈ unsigned n → c.isDigit = true ∨ c ∈ ['-', '+', '.', 'e'] :=
      fun n hMem => .inl (isDigit_of_mem_unsigned hMem)
    simp only [fractions, List.mem_append] at hc
    rcases hc with hSign | hNum | hDen
    · split at hSign
      · rw [List.mem_singleton.mp hSign]
        exact .inr (by decide)
      · exact absurd hSign List.not_mem_nil
    · exact hDigit _ hNum
    · split at hDen
      · exact absurd hDen List.not_mem_nil
      · cases List.mem_cons.mp hDen with
        | inl hE =>
          rw [hE]
          exact .inr (by decide)
        | inr hMem => exact hDigit _ hMem
  back q _ := fractions_back q

def closedOrder : Order :=
  { type := .sellOrder, id := 8, symbol := .eurusd, volume := 1 / 10, orderPrice := 11 / 10
    openPrice := some (11 / 10), closePrice := some (109 / 100), stopLoss := some (6 / 5)
    takeProfit := some 1, openTime := 60, closeTime := 120 }

theorem closedOrder_sendable : Sendable closedOrder where
  valid := by decide +kernel
  id_pos := by decide
  id_lt := by decide
  symbol := by decide
  volume := ⟨1, -1, by decide, by norm_num [closedOrder]⟩
  orderPrice := ⟨11, -1, by decide, by norm_num [closedOrder]⟩
  openPrice := by
    rintro _ ⟨⟩
    exact ⟨11, -1, by decide, by norm_num⟩
  closePrice := by
    rintro _ ⟨⟩
    exact ⟨109, -2, by decide, by norm_num⟩
  stopLoss := by
    rintro _ ⟨⟩
    exact ⟨12, -1, by decide, by norm_num⟩
  takeProfit := by
    rintro _ ⟨⟩
    exact ⟨1, 0, by decide, by norm_num⟩
  openTime := by decide
  closeTime := by decide

/-- Prices, stop levels and times of a closed order all come back. -/
theorem closedOrder_returns : RoundTrips fractions 1 closedOrder [] .closed := by
  have hOpen : Kept closedOrder.openPrice := by
    rintro _ ⟨⟩
    norm_num
  have hClose : Kept closedOrder.closePrice := by
    rintro _ ⟨⟩
    norm_num
  exact (roundTrips_iff fractions_exact 1 closedOrder_sendable [] .closed).mpr
    ⟨rfl, hOpen, by decide, fun _ => ⟨hClose, by decide⟩⟩

def wholeOrder : Order :=
  { type := .buyOrder, id := 7, symbol := .eurusd, volume := 1, orderPrice := 2 }

theorem wholeOrder_sendable : Sendable wholeOrder where
  valid := by decide +kernel
  id_pos := by decide
  id_lt := by decide
  symbol := by decide
  volume := ⟨1, 0, by decide, by simp [wholeOrder]⟩
  orderPrice := ⟨2, 0, by decide, by simp [wholeOrder]⟩
  openPrice := nofun
  closePrice := nofun
  stopLoss := nofun
  takeProfit := nofun
  openTime := by decide
  closeTime := by decide

/-- With a comment the message is not well formed. -/
theorem wholeOrder_with_comment :
    toXmlMessage fractions wholeOrder "ok".toList .submitted =
        ("<message id=\"order\">\n  <order id=\"7\" type=\"buy_order\">\n" ++
          "    <action>submitted</action>\n    <symbol>eurusd</symbol>\n" ++
          "    <volume>1</volume>\n    <order_price>2</order_price>\n" ++
          "    <comment>ok</comment_>\n  </order>\n</message>").toList ∧
      fromXmlMessage fractions 1 (toXmlMessage fractions wholeOrder "ok".toList .submitted) =
        (none, .undefined) ∧
      Sendable wholeOrder ∧ ¬RoundTrips fractions 1 wholeOrder "ok".toList .submitted := by
  have hRead : fromXmlMessage fractions 1
      (toXmlMessage fractions wholeOrder "ok".toList .submitted) = (none, .undefined) := by
    decide +kernel
  refine ⟨by decide +kernel, hRead, wholeOrder_sendable, ?_⟩
  rintro ⟨o', hFrom, _⟩
  rw [hRead] at hFrom
  cases hFrom

end Fxquant.OrderMessage
