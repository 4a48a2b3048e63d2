import Fxquant.Common.Order
import Fxquant.Common.Pugixml

/-!
# Order messages

`base_order::to_xml_message` and `from_xml_message`, with the names of the symbols and what
`message.cpp` reads values with. A price that is not above zero and a time that is not after the
epoch are not written; neither are the close price and the close time of an order that is
announced as opened.
-/

namespace Fxquant.OrderMessage

open Markup Pugixml

/-- `operator<<` with a precision of 7 digits, and `std::stod`. -/
structure Decimals where
  put : ℚ → Text
  stod : Text → Option ℚ

def SevenDigits (q : ℚ) : Prop := ∃ m e : ℤ, |m| < 10 ^ 7 ∧ q = m * 10 ^ e

structure Decimals.Exact (D : Decimals) : Prop where
  ne_nil : ∀ q, D.put q ≠ []
  chars : ∀ q, ∀ c ∈ D.put q, c.isDigit = true ∨ c ∈ ['-', '+', '.', 'e']
  back : ∀ q, SevenDigits q → D.stod (D.put q) = some q

/-! ### Names -/

def symToStr : List (Symbol × String) :=
  [(.audcad, "audcad"), (.audchf, "audchf"), (.audhuf, "audhuf"), (.audjpy, "audjpy"),
    (.audnok, "audnok"), (.audnzd, "audnzd"), (.audsek, "audsek"), (.audsgd, "audsgd"),
    (.audusd, "audusd"), (.cadchf, "cadchf"), (.cadjpy, "cadjpy"), (.chfjpy, "chfjpy"),
    (.chfdkk, "chfdkk"), (.chfhuk, "chfhuk"), (.chfnok, "chfnok"), (.chfpln, "chfpln"),
    (.chfsek, "chfsek"), (.euraud, "euraud"), (.eurcad, "eurcad"), (.eurchf, "eurchf"),
    (.eurczk, "eurczk"), (.eurdkk, "eurdkk"), (.eurhkd, "eurhkd"), (.eurhuf, "eurhuf"),
    (.eurgbp, "eurgbp"), (.eurjpy, "eurjpy"), (.eurils, "eurils"), (.eurmxn, "eurmxn"),
    (.eurnok, "eurnok"), (.eurnzd, "eurnzd"), (.eurpln, "eurpln"), (.eursek, "eursek"),
    (.eursgd, "eursgd"), (.eurtry, "eurtry"), (.eurusd, "eurusd"), (.eurzar, "eurzar"),
    (.gbpaud, "gbpaud"), (.gbpcad, "gbpcad"), (.gbpchf, "gbpchf"), (.gbpdkk, "gbpdkk"),
    (.gbpjpy, "gbpjpy"), (.gbphuf, "gbphuf"), (.gbpmxn, "gbpmxn"), (.gbpnok, "gbpnok"),
    (.gbpnzd, "gbpnzd"), (.gbppln, "gbppln"), (.gbpsek, "gbpsek"), (.gbpsgd, "gbpsgd"),
    (.gbptry, "gbptry"), (.gbpusd, "gbpusd"), (.gbpzar, "gbpzar"), (.nokjpy, "nokjpy"),
    (.nzdcad, "nzdcad"), (.nzdchf, "nzdchf"), (.nzdhuf, "nzdhuf"), (.nzdjpy, "nzdjpy"),
    (.nzdsgd, "nzdsgd"), (.nzdusd, "nzdusd"), (.usdcad, "usdcad"), (.usdchf, "usdchf"),
    (.usdcnh, "usdcnh"), (.usdczk, "usdczk"), (.usddkk, "usddkk"), (.usdhkd, "usdhkd"),
    (.usdhuf, "usdhuf"), (.usdils, "usdils"), (.usdjpy, "usdjpy"), (.usdmxn, "usdmxn"),
    (.usdnok, "usdnok"), (.usdpln, "usdpln"), (.usdrub, "usdrub"), (.usdsek, "usdsek"),
    (.usdsgd, "usdsgd"), (.usdtry, "usdtry"), (.usdzar, "usdzar")]

def strToSym : List (String × Symbol) :=
  [("audcad", .audcad), ("audchf", .audchf), ("audhuf", .audhuf), ("audjpy", .audjpy),
    ("audnok", .audnok), ("audnzd", .audnzd), ("audsek", .audsek), ("audsgd", .audsgd),
    ("audusd", .audusd), ("cadchf", .cadchf), ("cadjpy", .cadjpy), ("chfjpy", .chfjpy),
    ("chfdkk", .chfdkk), ("chfhuk", .chfhuk), ("chfnok", .chfnok), ("chfpln", .chfpln),
    ("chfsek", .chfsek), ("euraud", .euraud), ("eurcad", .eurcad), ("eurchf", .eurchf),
    ("eurczk", .eurczk), ("eurdkk", .eurdkk), ("eurhkd", .eurhkd), ("eurhuf", .eurhuf),
    ("eurgbp", .eurgbp), ("eurjpy", .eurjpy), ("eurils", .eurils), ("eurmxn", .eurmxn),
    ("eurnok", .eurnok), ("eurnzd", .eurnzd), ("eurpln", .eurpln), ("eursek", .eursek),
    ("eursgd", .eursgd), ("eurtry", .eurtry), ("eurusd", .eurusd), ("eurzar", .eurzar),
    ("gbpaud", .gbpaud), ("gbpcad", .gbpcad), ("gbpchf", .gbpchf), ("gbpdkk", .gbpdkk),
    ("gbpjpy", .gbpjpy), ("gbphuf", .gbphuf), ("gbpmxn", .gbpmxn), ("gbpnok", .gbpnok),
    ("gbpnzd", .gbpnzd), ("gbppln", .gbppln), ("gbpsek", .gbpsek), ("gbpsgd", .gbpsgd),
    ("gbptry", .gbptry), ("gbpusd", .gbpusd), ("gbpzar", .gbpzar), ("nokjpy", .nokjpy),
    ("nzdcad", .nzdcad), ("nzdchf", .nzdchf), ("nzdhuf", .nzdhuf), ("nzdjpy", .nzdjpy),
    ("nzdsgd", .nzdsgd), ("nzdusd", .nzdusd), ("usdcad", .usdcad), ("usdchf", .usdchf),
    ("usdcnh", .usdcnh), ("usdczk", .usdczk), ("usddkk", .usddkk), ("usdhkd", .usdhkd),
    ("usdhuf", .usdhuf), ("usdils", .usdils), ("usdjpy", .usdjpy), ("usdmxn", .usdmxn),
    ("usdnok", .usdnok), ("usdpln", .usdpln), ("usdrub", .usdrub), ("usdsek", .usdsek),
    ("usdsgd", .usdsgd), ("usdtry", .usdtry), ("usdzar", .usdzar)]

def symbolToString (sym : Symbol) : Text := ((symToStr.lookup sym).getD "").toList

def symbolFromString (str : Text) : Symbol :=
  (strToSym.lookup (String.ofList (str.map Char.toLower))).getD .undefined

def typeName : OrderType → Text
  | .buyOrder => "buy_order".toList
  | .buyLimitOrder => "buy_limit_order".toList
  | .buyStopOrder => "buy_stop_order".toList
  | .sellOrder => "sell_order".toList
  | .sellLimitOrder => "sell_limit_order".toList
  | .sellStopOrder => "sell_stop_order".toList

def typeOf (orderType : Text) : Option OrderType :=
  if orderType = "buy_order".toList then some .buyOrder
  else if orderType = "buy_limit_order".toList then some .buyLimitOrder
  else if orderType = "buy_stop_order".toList then some .buyStopOrder
  else if orderType = "sell_order".toList then some .sellOrder
  else if orderType = "sell_limit_order".toList then some .sellLimitOrder
  else if orderType = "sell_stop_order".toList then some .sellStopOrder
  else none

def actionName : OrderAction → Text
  | .undefined => []
  | .submitted => "submitted".toList
  | .opened => "opened".toList
  | .closed => "closed".toList
  | .modified => "modified".toList
  | .deleted => "deleted".toList

def actionOf (s : Text) : OrderAction :=
  if s = "submitted".toList then .submitted
  else if s = "opened".toList then .opened
  else if s = "closed".toList then .closed
  else if s = "modified".toList then .modified
  else if s = "deleted".toList then .deleted
  else .undefined

/-! ### Writing -/

def indent1 : Text := "  ".toList

def indent2 : Text := "    ".toList

def unsigned (n : ℕ) : Text := Nat.toDigits 10 n

def makeXmlHeader (o : Order) : Text :=
  "<order id=\"".toList ++ unsigned o.id ++ "\" type=\"".toList ++ typeName o.type ++
    "\">\n".toList

def line (field : Text × Text) : Text :=
  indent2 ++ "<".toList ++ field.1 ++ ">".toList ++ field.2 ++ "</".toList ++ field.1 ++
    ">\n".toList

def optional (present : Prop) [Decidable present] (name : String) (value : Text) :
    List (Text × Text) :=
  if present then [(name.toList, value)] else []

def optionalPrice (D : Decimals) (p : ℚ → Prop) [DecidablePred p] (name : String) :
    Option ℚ → List (Text × Text)
  | some price => optional (p price) name (D.put price)
  | none => []

/-- The lines between the header and the comment. -/
def fields (D : Decimals) (o : Order) (action : OrderAction) : List (Text × Text) :=
  optional (action ≠ .undefined) "action" (actionName action) ++
  [("symbol".toList, symbolToString o.symbol)] ++
  optional (0 < o.volume) "volume" (D.put o.volume) ++
  [("order_price".toList, D.put o.orderPrice)] ++
  optionalPrice D (fun price => 0 < price) "open_price" o.openPrice ++
  optionalPrice D (fun price => action ≠ .opened ∧ 0 < price) "close_price" o.closePrice ++
  optionalPrice D (fun _ => True) "stop_loss" o.stopLoss ++
  optionalPrice D (fun _ => True) "take_profit" o.takeProfit ++
  optional (0 < o.openTime) "open_time" (unsigned o.openTime.toNat) ++
  optional (action ≠ .opened ∧ 0 < o.closeTime) "close_time" (unsigned o.closeTime.toNat)

def commentLine (comment : Text) : Text :=
  if comment = [] then []
  else indent2 ++ "<comment>".toList ++ comment ++ "</comment_>\n".toList

/-- `order.cpp` keeps the comment in the order. -/
def toXmlMessage (D : Decimals) (o : Order) (comment : Text) (action : OrderAction) : Text :=
  "<message id=\"order\">\n".toList ++ indent1 ++ makeXmlHeader o ++
    (fields D o action).flatMap line ++ commentLine comment ++
    indent1 ++ "</order>\n".toList ++ "</message>".toList

/-! ### Reading -/

/-- `xml_attribute::as_uint`. -/
def asUint (s : Text) : ℕ :=
  match skipSpace s with
  | '-' :: _ => 0
  | '+' :: s => magnitude s
  | s => magnitude s
where
  magnitude : Text → ℕ
    | '0' :: 'x' :: s => min (number 16 (s.takeWhile isHexDigit)) (2 ^ 32 - 1)
    | '0' :: 'X' :: s => min (number 16 (s.takeWhile isHexDigit)) (2 ^ 32 - 1)
    | s => min (number 10 (s.takeWhile Char.isDigit)) (2 ^ 32 - 1)

/-- `std::stoull`; nothing where it throws. -/
def stoull (s : Text) : Option ℕ :=
  match s.dropWhile fun c => isSpace c || c = '\x0b' || c = '\x0c' with
  | '-' :: s => (magnitude s).map fun n => (2 ^ 64 - n) % 2 ^ 64
  | '+' :: s => magnitude s
  | s => magnitude s
where
  magnitude (s : Text) : Option ℕ :=
    if s.takeWhile Char.isDigit = [] ∨ 2 ^ 64 ≤ number 10 (s.takeWhile Char.isDigit) then none
    else some (number 10 (s.takeWhile Char.isDigit))

def readDouble (D : Decimals) (children : List XmlNode) (name : String) : Option ℚ :=
  (child name.toList children).bind fun (_, inside) => D.stod (childValue inside)

/-- A time is 0 before it is read; `milliseconds` keeps 64 bits. -/
def readTime (children : List XmlNode) (name : String) : ℤ :=
  match (child name.toList children).bind fun (_, inside) => stoull (childValue inside) with
  | some n => Int.bmod n (2 ^ 64)
  | none => 0

def readAction (children : List XmlNode) : OrderAction :=
  match child "action".toList children with
  | some (_, inside) => actionOf (childValue inside)
  | none => .undefined

def readComment (children : List XmlNode) : Text :=
  match child "comment".toList children with
  | some (_, inside) => childValue inside
  | none => []

/-- The last attribute of the name counts; an order without an id, or with id 0, gets `autoId`. -/
def readId (autoId : ℕ) (attributes : List (Text × Text)) : ℕ :=
  let id := asUint ((attributes.reverse.lookup "id".toList).getD [])
  if id = 0 then autoId else id

def readOrder (D : Decimals) (autoId : ℕ) (sym : Symbol) (attributes : List (Text × Text))
    (children : List XmlNode) : Option (Order × Text) := do
  let volume ← readDouble D children "volume"
  let orderPrice ← readDouble D children "order_price"
  let type ← typeOf ((attributes.reverse.lookup "type".toList).getD [])
  let o ← Order.ofPrices type sym volume orderPrice (readDouble D children "stop_loss")
    (readDouble D children "take_profit") (readId autoId attributes)
  some ({ o with
    openPrice := readDouble D children "open_price"
    closePrice := readDouble D children "close_price"
    openTime := readTime children "open_time"
    closeTime := readTime children "close_time" }, readComment children)

def fromOrderNode (D : Decimals) (autoId : ℕ) (attributes : List (Text × Text))
    (children : List XmlNode) : Option (Order × Text) × OrderAction :=
  match child "symbol".toList children with
  | none => (none, .undefined)
  | some (_, inside) =>
    (readOrder D autoId (symbolFromString (childValue inside)) attributes children,
      readAction children)

/-- `autoId` is what the constructor takes for an order without an id. -/
def fromXmlMessage (D : Decimals) (autoId : ℕ) (xml : Text) : Option (Order × Text) × OrderAction :=
  match parse xml with
  | none => (none, .undefined)
  | some doc =>
    match child "message".toList doc with
    | none => (none, .undefined)
    | some (attributes, message) =>
      if attributes.lookup "id".toList = some "order".toList then
        match child "order".toList message with
        | none => (none, .undefined)
        | some (attributes, order) => fromOrderNode D autoId attributes order
      else (none, .undefined)

/-! ### Numbers and names are read back -/

theorem isPlain_of_isDigit {c : Char} (h : c.isDigit = true) : isPlain c = true := by
  rw [isPlain_iff]
  refine ⟨?_, ?_, ?_, ?_, ?_⟩
  · rw [isSpace]
    simp only [Bool.or_eq_false_iff, decide_eq_false_iff_not]
    refine ⟨⟨⟨?_, ?_⟩, ?_⟩, ?_⟩ <;> rintro rfl <;> cases h
  all_goals
    rintro rfl
    cases h

theorem isDigit_of_mem_unsigned {n : ℕ} {c : Char} (h : c ∈ unsigned n) : c.isDigit = true :=
  Nat.isDigit_of_mem_toDigits (by decide) le_rfl h

theorem foldl_digits {s : Text} (h : ∀ c ∈ s, c.isDigit = true) (n : ℕ) :
    s.foldl (fun n c => 10 * n + hexValue c) n = Nat.ofDigitChars 10 s n := by
  induction s generalizing n with
  | nil => rw [List.foldl_nil, Nat.ofDigitChars_nil]
  | cons c s ih =>
    rw [List.foldl_cons, ih fun c' hc' => h c' (List.mem_cons_of_mem _ hc'), Nat.ofDigitChars_cons,
      hexValue, if_pos (h c List.mem_cons_self)]

theorem number_unsigned (n : ℕ) : number 10 (unsigned n) = n :=
  (foldl_digits (fun _ hc => isDigit_of_mem_unsigned hc) 0).trans Nat.ofDigitChars_ten_toDigits

theorem takeWhile_unsigned (n : ℕ) : (unsigned n).takeWhile Char.isDigit = unsigned n :=
  List.takeWhile_eq_self_iff.mpr fun _ hc => isDigit_of_mem_unsigned hc

theorem dropWhile_unsigned {p : Char → Bool} (h : ∀ c, c.isDigit = true → p c = false) (n : ℕ) :
    (unsigned n).dropWhile p = unsigned n := by
  have hDigit : ∀ c ∈ unsigned n, c.isDigit = true := fun _ hc => isDigit_of_mem_unsigned hc
  cases hUnsigned : unsigned n with
  | nil => rfl
  | cons c s =>
    rw [hUnsigned] at hDigit
    exact List.dropWhile_cons_of_neg (by simp [h c (hDigit c List.mem_cons_self)])

theorem isSpace_of_isDigit {c : Char} (h : c.isDigit = true) : isSpace c = false :=
  (isPlain_iff.mp (isPlain_of_isDigit h)).1

/-- The signs and the prefixes that a reader looks for are no digits. -/
theorem not_mem_unsigned {c : Char} (hc : c.isDigit = false) (n : ℕ) : c ∉ unsigned n := by
  intro hMem
  rw [isDigit_of_mem_unsigned hMem] at hc
  contradiction

theorem asUint_unsigned {n : ℕ} (h : n < 2 ^ 32) : asUint (unsigned n) = n := by
  have hSkip : skipSpace (unsigned n) = unsigned n :=
    dropWhile_unsigned (fun _ => isSpace_of_isDigit) n
  have hMagnitude : asUint.magnitude (unsigned n) = n := by
    rw [asUint.magnitude.eq_def]
    split
    · rename_i s hEq
      have hMem : 'x' ∈ unsigned n := by rw [hEq]; simp
      exact absurd hMem (not_mem_unsigned rfl n)
    · rename_i s hEq
      have hMem : 'X' ∈ unsigned n := by rw [hEq]; simp
      exact absurd hMem (not_mem_unsigned rfl n)
    · rw [takeWhile_unsigned, number_unsigned]
      omega
  rw [asUint, hSkip]
  split
  · rename_i s hEq
    have hMem : '-' ∈ unsigned n := hEq ▸ List.mem_cons_self
    exact absurd hMem (not_mem_unsigned rfl n)
  · rename_i s hEq
    have hMem : '+' ∈ unsigned n := hEq ▸ List.mem_cons_self
    exact absurd hMem (not_mem_unsigned rfl n)
  · exact hMagnitude

theorem stoull_magnitude_unsigned {n : ℕ} (h : n < 2 ^ 64) :
    stoull.magnitude (unsigned n) = some n := by
  rw [stoull.magnitude, takeWhile_unsigned, number_unsigned, if_neg]
  rintro (hNil | hLarge)
  · exact Nat.toDigits_ne_nil hNil
  · omega

theorem stoull_unsigned {n : ℕ} (h : n < 2 ^ 64) : stoull (unsigned n) = some n := by
  have hBlank : ∀ c : Char, c.isDigit = true →
      (isSpace c || decide (c = '\x0b') || decide (c = '\x0c')) = false := by
    intro c hc
    rw [isSpace_of_isDigit hc, Bool.false_or, Bool.or_eq_false_iff, decide_eq_false_iff_not,
      decide_eq_false_iff_not]
    constructor <;> rintro rfl <;> cases hc
  rw [stoull, dropWhile_unsigned hBlank]
  split
  · rename_i s hEq
    have hMem : '-' ∈ unsigned n := hEq ▸ List.mem_cons_self
    exact absurd hMem (not_mem_unsigned rfl n)
  · rename_i s hEq
    have hMem : '+' ∈ unsigned n := hEq ▸ List.mem_cons_self
    exact absurd hMem (not_mem_unsigned rfl n)
  · exact stoull_magnitude_unsigned h

theorem symbolFromString_symbolToString {sym : Symbol} (h : sym ≠ .undefined) :
    symbolFromString (symbolToString sym) = sym := by
  cases sym
  · exact absurd rfl h
  all_goals rfl

theorem symToStr_plain : ∀ entry ∈ symToStr,
    entry.2.toList ≠ [] ∧ entry.2.toList.all isPlain = true := by decide +kernel

theorem symbolToString_plain {sym : Symbol} (h : sym ≠ .undefined) :
    symbolToString sym ≠ [] ∧ (symbolToString sym).all isPlain = true := by
  have hSome : (symToStr.lookup sym).isSome = true := by
    cases sym
    · exact absurd rfl h
    all_goals rfl
  obtain ⟨name, hName⟩ := Option.isSome_iff_exists.mp hSome
  obtain ⟨before, later, hTable, _⟩ := List.lookup_eq_some_iff.mp hName
  have hMem : (sym, name) ∈ symToStr := by
    rw [hTable]
    exact List.mem_append_right before List.mem_cons_self
  rw [symbolToString, hName, Option.getD_some]
  exact symToStr_plain _ hMem

theorem typeOf_typeName (type : OrderType) : typeOf (typeName type) = some type := by
  cases type <;> rfl

theorem actionOf_actionName (action : OrderAction) : actionOf (actionName action) = action := by
  cases action <;> rfl

theorem actionName_plain {action : OrderAction} (h : action ≠ .undefined) :
    actionName action ≠ [] ∧ (actionName action).all isPlain = true := by
  cases action
  · exact absurd rfl h
  all_goals decide

end Fxquant.OrderMessage
