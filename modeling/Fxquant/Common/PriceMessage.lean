import Fxquant.Library.Digits
import Fxquant.Common.OrderRoundTrip
import Fxquant.Feeder.Feeders

/-!
# Price messages

`tick_message` and `bar_message`, from `to_xml` to `from_xml`. The prices are written with 7
digits, whatever the length of a point.
-/

namespace Fxquant.PriceMessage

open Markup Pugixml OrderMessage Digits

/-- A price is rounded to 7 digits when it is written. -/
structure Rounds (D : Decimals) : Prop where
  ne_nil : ∀ q, D.put q ≠ []
  chars : ∀ q, ∀ c ∈ D.put q, c.isDigit = true ∨ c ∈ ['-', '+', '.', 'e']
  back : ∀ q, ∃ r, D.stod (D.put q) = some r ∧ Nearest 10 7 q r

structure TickMessage where
  symbol : Symbol
  tick : TickData
  deriving DecidableEq, Repr

structure BarMessage where
  symbol : Symbol
  timeFrame : ℤ
  bar : Feeder.BarData
  deriving DecidableEq, Repr

/-! ### Writing -/

def signed (n : ℤ) : Text := (if n < 0 then ['-'] else []) ++ unsigned n.natAbs

def headLine (field : Text × Text) : Text :=
  indent1 ++ "<".toList ++ field.1 ++ ">".toList ++ field.2 ++ "</".toList ++ field.1 ++
    ">\n".toList

def TickMessage.fields (D : Decimals) (m : TickMessage) : List (Text × Text) :=
  [("bid".toList, D.put m.tick.bid), ("ask".toList, D.put m.tick.ask),
    ("time".toList, signed m.tick.time)]

def TickMessage.toXml (D : Decimals) (m : TickMessage) : Text :=
  "<message id=\"tick\">\n".toList ++ headLine ("symbol".toList, symbolToString m.symbol) ++
    indent1 ++ "<tick_data>\n".toList ++ (m.fields D).flatMap line ++
    indent1 ++ "</tick_data>\n".toList ++ "</message>".toList

def BarMessage.fields (D : Decimals) (m : BarMessage) : List (Text × Text) :=
  [("o".toList, D.put m.bar.o), ("h".toList, D.put m.bar.h), ("l".toList, D.put m.bar.l),
    ("c".toList, D.put m.bar.c), ("t".toList, signed m.bar.t)]

def BarMessage.toXml (D : Decimals) (m : BarMessage) : Text :=
  "<message id=\"bar\">\n".toList ++ headLine ("symbol".toList, symbolToString m.symbol) ++
    headLine ("time_frame".toList, signed m.timeFrame) ++
    indent1 ++ "<bar_data>\n".toList ++ (m.fields D).flatMap line ++
    indent1 ++ "</bar_data>\n".toList ++ "</message>".toList

/-! ### Reading -/

def messageNode (xml : Text) : Option (List XmlNode) :=
  (parse xml).bind fun doc => (child "message".toList doc).map Prod.snd

/-- `std::stoul` reads 64 bits too, and `unsigned int` keeps 32 of them. -/
def readUint (children : List XmlNode) (name : String) : Option ℕ :=
  (child name.toList children).bind fun (_, inside) =>
    (stoull (childValue inside)).map fun n => n % 2 ^ 32

/-- What a signed type of 64 bits keeps of the number. -/
def readCount (children : List XmlNode) (name : String) : Option ℤ :=
  (child name.toList children).bind fun (_, inside) =>
    (stoull (childValue inside)).map fun n : ℕ => Int.bmod n (2 ^ 64)

def TickMessage.fromXml (D : Decimals) (message : List XmlNode) : Option TickMessage := do
  let (_, symbol) ← child "symbol".toList message
  let (_, tick) ← child "tick_data".toList message
  let bid ← readDouble D tick "bid"
  let ask ← readDouble D tick "ask"
  let time ← readCount tick "time"
  some { symbol := symbolFromString (childValue symbol), tick := { bid, ask, time } }

def BarMessage.fromXml (D : Decimals) (message : List XmlNode) : Option BarMessage := do
  let (_, symbol) ← child "symbol".toList message
  let timeFrame ← readUint message "time_frame"
  let (_, bar) ← child "bar_data".toList message
  let o ← readDouble D bar "o"
  let h ← readDouble D bar "h"
  let l ← readDouble D bar "l"
  let c ← readDouble D bar "c"
  let t ← readCount bar "t"
  some { symbol := symbolFromString (childValue symbol), timeFrame, bar := { o, h, l, c, t } }

/-! ### Prices of a point grid -/

/-- The prices that `normalize` makes, as far as three digits before the point. -/
structure OnGrid (sym : Symbol) (price : ℚ) : Prop where
  pos : 0 < price
  lt : price < 1000
  points : ∃ k : ℤ, price = k * symbolPip sym

theorem onGrid_normalize_iff {sym : Symbol} {d : ℚ} :
    OnGrid sym (normalize sym d) ↔ 0 < normalize sym d ∧ normalize sym d < 1000 := by
  constructor
  · intro h
    exact ⟨h.pos, h.lt⟩
  · rintro ⟨hPos, hLt⟩
    exact ⟨hPos, hLt, Doubles.round (d / symbolPip sym), normalize_eq sym d⟩

/-- Two digits before the point leave 5 of 7 behind it, three leave 4. -/
def Fits (sym : Symbol) (price : ℚ) : Prop :=
  symbolPip sym = 1 / 1000 ∨ price < 100 ∨ ∃ k : ℤ, price = k * (10 * symbolPip sym)

theorem hasDigits_points_iff {k e : ℤ} {pip : ℚ} (hPip : pip = ((10 : ℕ) : ℚ) ^ e) (hPos : 0 < k)
    (hLt : k < 10 ^ 8) : HasDigits 10 7 (k * pip) ↔ k < 10 ^ 7 ∨ (10 : ℤ) ∣ k := by
  rw [hPip, hasDigits_mul_zpow_iff (by decide), hasDigits_intCast_iff (by decide), abs_of_pos hPos]
  · exact Iff.rfl
  · rw [abs_of_pos hPos]
    exact_mod_cast hLt

/-- The number of points of a price. -/
theorem OnGrid.exists_points {sym : Symbol} {price : ℚ} (h : OnGrid sym price) :
    ∃ k : ℤ, price = k * symbolPip sym ∧ 0 < k := by
  obtain ⟨hPos, _, k, rfl⟩ := h
  have hRat : (0 : ℚ) < k := pos_of_mul_pos_left hPos (symbolPip_pos sym).le
  exact ⟨k, rfl, by exact_mod_cast hRat⟩

theorem hasDigits_iff_fits {sym : Symbol} {price : ℚ} (h : OnGrid sym price) :
    HasDigits 10 7 price ↔ Fits sym price := by
  obtain ⟨k, hPoints, hPos⟩ := h.exists_points
  have hLt := h.lt
  rw [hPoints] at hLt ⊢
  rcases symbolPip_cases sym with hPip | hPip
  · have hBound : (k : ℚ) < 10 ^ 6 := by
      rw [hPip] at hLt
      linarith
    have hPower : symbolPip sym = ((10 : ℕ) : ℚ) ^ (-3 : ℤ) := by
      rw [hPip]
      norm_num
    have hInt : k < 10 ^ 6 := by exact_mod_cast hBound
    refine iff_of_true ?_ (.inl hPip)
    rw [hasDigits_points_iff hPower hPos (by omega)]
    left
    omega
  · have hBound : (k : ℚ) < 10 ^ 8 := by
      rw [hPip] at hLt
      linarith
    have hPower : symbolPip sym = ((10 : ℕ) : ℚ) ^ (-5 : ℤ) := by
      rw [hPip]
      norm_num
    have hFine : symbolPip sym ≠ 1 / 1000 := by
      rw [hPip]
      norm_num
    rw [hasDigits_points_iff hPower hPos (by exact_mod_cast hBound), Fits, or_iff_right hFine, hPip]
    apply or_congr
    · have hCast : k < 10 ^ 7 ↔ (k : ℚ) < 10 ^ 7 := by exact_mod_cast Iff.rfl
      rw [hCast]
      constructor <;> intro h <;> linarith
    · constructor
      · rintro ⟨j, rfl⟩
        refine ⟨j, ?_⟩
        push_cast
        ring
      · rintro ⟨j, hj⟩
        refine ⟨j, ?_⟩
        have hRat : (k : ℚ) = 10 * j := by linarith
        exact_mod_cast hRat

theorem Rounds.stod_put_iff {D : Decimals} (hD : Rounds D) (q : ℚ) :
    D.stod (D.put q) = some q ↔ HasDigits 10 7 q := by
  obtain ⟨r, hRead, hNearest⟩ := hD.back q
  rw [hRead, Option.some.injEq, hNearest.eq_iff]

theorem Rounds.exact {D : Decimals} (hD : Rounds D) : D.Exact where
  ne_nil := hD.ne_nil
  chars := hD.chars
  back q h := (hD.stod_put_iff q).mpr h

/-! ### The text is read back -/

def IsInt64 (n : ℤ) : Prop := -2 ^ 63 ≤ n ∧ n < 2 ^ 63

theorem stoull_signed {n : ℤ} (h : IsInt64 n) :
    (stoull (signed n)).map (fun n : ℕ => Int.bmod n (2 ^ 64)) = some n := by
  obtain ⟨hLe, hLt⟩ := h
  rw [signed]
  split
  · have hMagnitude : stoull.magnitude (unsigned n.natAbs) = some n.natAbs :=
      stoull_magnitude_unsigned (by omega)
    have hRead : stoull ('-' :: unsigned n.natAbs) =
        some ((2 ^ 64 - n.natAbs) % 2 ^ 64) := by
      change (stoull.magnitude (unsigned n.natAbs)).map _ = _
      rw [hMagnitude]
      rfl
    have hText : ['-'] ++ unsigned n.natAbs = '-' :: unsigned n.natAbs := rfl
    rw [hText, hRead, Option.map_some, Option.some.injEq, Nat.mod_eq_of_lt (by omega),
      Int.bmod_def]
    omega
  · have hRead : stoull (unsigned n.natAbs) = some n.natAbs := stoull_unsigned (by omega)
    rw [List.nil_append, hRead, Option.map_some, Option.some.injEq, Int.bmod_eq_of_le] <;> omega

theorem signed_plain (n : ℤ) : ∀ c ∈ signed n, isPlain c = true := by
  intro c hc
  rw [signed, List.mem_append] at hc
  cases hc with
  | inl hSign =>
    split at hSign
    · rw [List.mem_singleton.mp hSign]
      rfl
    · exact absurd hSign List.not_mem_nil
  | inr hDigit => exact isPlain_of_isDigit (isDigit_of_mem_unsigned hDigit)

theorem legible_signed {name : String} (hName : isName name.toList = true) (n : ℤ) :
    Legible (name.toList, signed n) := by
  refine ⟨hName, ?_, signed_plain n⟩
  have hDigits : unsigned n.natAbs ≠ [] := Nat.toDigits_ne_nil
  simp [signed, hDigits]

theorem symbolToString_isPlain (sym : Symbol) : ∀ c ∈ symbolToString sym, isPlain c = true := by
  cases eq_or_ne sym .undefined with
  | inl hUndefined =>
    rw [hUndefined]
    exact fun c hc => absurd hc List.not_mem_nil
  | inr hSymbol => exact List.all_eq_true.mp (symbolToString_plain hSymbol).2

theorem symbolFromString_back (sym : Symbol) : symbolFromString (symbolToString sym) = sym := by
  cases eq_or_ne sym .undefined with
  | inl hUndefined =>
    rw [hUndefined]
    rfl
  | inr hSymbol => exact symbolFromString_symbolToString hSymbol

/-- A name and a value that are read as they are written; the value may be empty, as the name of the
undefined symbol is. -/
def Plain (field : Text × Text) : Prop :=
  isName field.1 = true ∧ ∀ c ∈ field.2, isPlain c = true

def leaf (field : Text × Text) : XmlNode :=
  .element field.1 [] (if field.2 = [] then [] else [.text field.2])

section

variable {top : Bool} {ns : List XmlNode} {s r : Text}

theorem reads_leaf {name v : Text} (hName : isName name = true) (h : ∀ c ∈ v, isPlain c = true)
    (hRest : Reads parseToken top s ns r) :
    Reads parseToken top ('<' :: name ++ '>' :: (v ++ '<' :: ('/' :: name ++ '>' :: s)))
      (leaf (name, v) :: ns) r := by
  cases v with
  | nil =>
    have hStop : parseToken ('<' :: '/' :: name ++ '>' :: s) = some (.stop name, s) :=
      parseToken_stop hName
    exact .start (parseToken_start hName) (.stop hStop) hStop hRest
  | cons c v => exact (reads_element_iff hName (List.cons_ne_nil c v) h).mpr ⟨ns, rfl, hRest⟩

theorem headLine_eq (field : Text × Text) (s : Text) : headLine field ++ s = indent1 ++
    ('<' :: field.1 ++ '>' :: (field.2 ++ '<' :: ('/' :: field.1 ++ '>' :: ('\n' :: s)))) := by
  simp [headLine]

theorem reads_headLines {heads : List (Text × Text)} (h : ∀ f ∈ heads, Plain f) {w : Text}
    (hBlank : w.all isSpace = true) (hRest : Reads parseToken top ('<' :: s) ns r) :
    Reads parseToken top (w ++ (heads.flatMap headLine ++ (indent1 ++ '<' :: s)))
      (heads.map leaf ++ ns) r := by
  have hIndent : (w ++ indent1).all isSpace = true := by
    rw [List.all_append, hBlank]
    rfl
  induction heads generalizing w with
  | nil =>
    rw [List.flatMap_nil, List.nil_append, ← List.append_assoc, reads_space_iff hIndent]
    exact hRest
  | cons f heads ih =>
    obtain ⟨hName, hPlain⟩ := h f List.mem_cons_self
    have hLater := ih (w := ['\n']) (fun f' hf' => h f' (List.mem_cons_of_mem _ hf')) rfl rfl
    rw [List.flatMap_cons, List.append_assoc, headLine_eq, ← List.append_assoc w, List.cons_append,
      reads_space_iff hIndent]
    exact reads_leaf hName hPlain hLater

end

/-- The two messages are of one form. -/
def envelope (opening : Text) (heads : List (Text × Text)) (name : Text)
    (fields : List (Text × Text)) : Text :=
  opening ++ '\n' :: (heads.flatMap headLine ++ (indent1 ++ '<' :: (name ++ '>' :: '\n' ::
    (fields.flatMap line ++ (indent1 ++ '<' :: ('/' :: name ++ '>' :: "\n</message>".toList))))))

theorem null_not_mem_of_isName {name : Text} (h : isName name = true) : '\x00' ∉ name := by
  intro hMem
  cases isSymbol_of_isName h _ hMem

theorem null_not_mem_headLines {heads : List (Text × Text)} (h : ∀ f ∈ heads, Plain f) :
    '\x00' ∉ heads.flatMap headLine := by
  intro hMem
  obtain ⟨f, hf, hLine⟩ := List.mem_flatMap.mp hMem
  obtain ⟨hName, hPlain⟩ := h f hf
  have hTag := null_not_mem_of_isName hName
  have hValue := null_not_mem_of_plain hPlain
  simp only [headLine, List.mem_append, hTag, hValue, or_false] at hLine
  revert hLine
  decide

section

variable {opening name : Text} {attributes : List (Text × Text)} {heads fields : List (Text × Text)}

theorem null_not_mem_envelope (hOpening : '\x00' ∉ opening) (hHeads : ∀ f ∈ heads, Plain f)
    (hName : isName name = true) (hFields : ∀ f ∈ fields, Legible f) :
    '\x00' ∉ envelope opening heads name fields := by
  have hEnd : '\x00' ∉ "\n</message>".toList := by decide
  have hIndent : '\x00' ∉ indent1 := by decide
  simp only [envelope, List.mem_append, List.mem_cons, hOpening, null_not_mem_headLines hHeads,
    null_not_mem_of_isName hName, null_not_mem_lines hFields, hEnd, hIndent, or_false, false_or]
  decide

theorem messageNode_envelope
    (hOpening : ∀ s, parseToken (opening ++ s) = some (.start "message".toList attributes, s))
    (hNull : '\x00' ∉ opening) (hHeads : ∀ f ∈ heads, Plain f) (hName : isName name = true)
    (hFields : ∀ f ∈ fields, Legible f) :
    messageNode (envelope opening heads name fields) =
      some (heads.map leaf ++ [.element name [] (fields.map element)]) := by
  have hEnd : parseToken "</message>".toList = some (.stop "message".toList, []) := rfl
  have hStop : parseToken ('<' :: ('/' :: name ++ '>' :: "\n</message>".toList)) =
      some (.stop name, "\n</message>".toList) := parseToken_stop hName
  have hLines : Reads parseToken false ('\n' :: (fields.flatMap line ++
      (indent1 ++ '<' :: ('/' :: name ++ '>' :: "\n</message>".toList)))) (fields.map element)
      ('<' :: ('/' :: name ++ '>' :: "\n</message>".toList)) := reads_lines_stop hFields hStop
  have hElement : Reads parseToken false ('<' :: (name ++ '>' :: '\n' :: (fields.flatMap line ++
      (indent1 ++ '<' :: ('/' :: name ++ '>' :: "\n</message>".toList)))))
      [.element name [] (fields.map element)] "</message>".toList :=
    .start (parseToken_start hName) hLines hStop (.skip rfl (.stop hEnd))
  have hInside := reads_headLines hHeads (w := ['\n']) rfl hElement
  have hReads : Reads parseToken true (envelope opening heads name fields)
      [.element "message".toList attributes
        (heads.map leaf ++ [.element name [] (fields.map element)])] [] :=
    .start (hOpening _) hInside hEnd (.finish rfl)
  have hParse := parse_eq_some_iff.mpr
    ((zeroTerminated_of_not_mem (null_not_mem_envelope hNull hHeads hName hFields)).symm ▸ hReads)
  rw [messageNode, hParse]
  rfl

end

theorem child_leaf (field : Text × Text) (ns : List XmlNode) : ∃ inside,
    child field.1 (leaf field :: ns) = some ([], inside) ∧ childValue inside = field.2 := by
  refine ⟨_, if_pos rfl, ?_⟩
  split
  · rename_i hNil
    exact hNil.symm
  · rfl

theorem readDouble_of_lookup {D : Decimals} {fs : List (Text × Text)} {name : String} {text : Text}
    {q : ℚ} (hLookup : fs.lookup name.toList = some text) (h : D.stod text = some q) :
    readDouble D (fs.map element) name = some q := by
  rw [readDouble_fields, hLookup]
  exact h

theorem readCount_of_lookup {fs : List (Text × Text)} {name : String} {n : ℤ} (h : IsInt64 n)
    (hLookup : fs.lookup name.toList = some (signed n)) :
    readCount (fs.map element) name = some n := by
  rw [readCount, child_fields, hLookup]
  exact stoull_signed h

section

variable {D : Decimals}

theorem TickMessage.toXml_eq (D : Decimals) (m : TickMessage) : m.toXml D =
    envelope "<message id=\"tick\">".toList [("symbol".toList, symbolToString m.symbol)]
      "tick_data".toList (m.fields D) := by
  have hOpening : "<message id=\"tick\">\n".toList = "<message id=\"tick\">".toList ++ ['\n'] := by
    decide
  have hStart : "<tick_data>\n".toList = '<' :: ("tick_data".toList ++ ['>', '\n']) := by decide
  have hStop : "</tick_data>\n".toList = '<' :: '/' :: ("tick_data".toList ++ ['>', '\n']) := by decide
  have hEnd : "\n</message>".toList = '\n' :: "</message>".toList := by decide
  unfold toXml envelope
  simp only [hOpening, hStart, hStop, hEnd, List.flatMap_cons, List.flatMap_nil, List.append_assoc,
    List.append_nil, List.cons_append, List.nil_append]

theorem BarMessage.toXml_eq (D : Decimals) (m : BarMessage) : m.toXml D =
    envelope "<message id=\"bar\">".toList [("symbol".toList, symbolToString m.symbol),
      ("time_frame".toList, signed m.timeFrame)] "bar_data".toList (m.fields D) := by
  have hOpening : "<message id=\"bar\">\n".toList = "<message id=\"bar\">".toList ++ ['\n'] := by
    decide
  have hStart : "<bar_data>\n".toList = '<' :: ("bar_data".toList ++ ['>', '\n']) := by decide
  have hStop : "</bar_data>\n".toList = '<' :: '/' :: ("bar_data".toList ++ ['>', '\n']) := by decide
  have hEnd : "\n</message>".toList = '\n' :: "</message>".toList := by decide
  unfold toXml envelope
  simp only [hOpening, hStart, hStop, hEnd, List.flatMap_cons, List.flatMap_nil, List.append_assoc,
    List.append_nil, List.cons_append, List.nil_append]

theorem TickMessage.messageNode_toXml (hD : Rounds D) (m : TickMessage) :
    messageNode (m.toXml D) = some [leaf ("symbol".toList, symbolToString m.symbol),
      .element "tick_data".toList [] ((m.fields D).map element)] := by
  have hFields : ∀ f ∈ m.fields D, Legible f := by
    simp only [fields, List.forall_mem_cons]
    exact ⟨legible_put hD.exact rfl _, legible_put hD.exact rfl _, legible_signed rfl _, nofun⟩
  have hHeads : ∀ f ∈ [("symbol".toList, symbolToString m.symbol)], Plain f := by
    simp only [List.forall_mem_singleton]
    exact ⟨rfl, symbolToString_isPlain _⟩
  have hOpening : ∀ s, parseToken ("<message id=\"tick\">".toList ++ s) =
      some (.start "message".toList [("id".toList, "tick".toList)], s) := fun _ => rfl
  rw [toXml_eq, messageNode_envelope hOpening (by decide) hHeads rfl hFields]
  rfl

theorem BarMessage.messageNode_toXml (hD : Rounds D) (m : BarMessage) :
    messageNode (m.toXml D) = some [leaf ("symbol".toList, symbolToString m.symbol),
      leaf ("time_frame".toList, signed m.timeFrame),
      .element "bar_data".toList [] ((m.fields D).map element)] := by
  have hFields : ∀ f ∈ m.fields D, Legible f := by
    simp only [fields, List.forall_mem_cons]
    exact ⟨legible_put hD.exact rfl _, legible_put hD.exact rfl _, legible_put hD.exact rfl _,
      legible_put hD.exact rfl _, legible_signed rfl _, nofun⟩
  have hHeads : ∀ f ∈ [("symbol".toList, symbolToString m.symbol),
      ("time_frame".toList, signed m.timeFrame)], Plain f := by
    simp only [List.forall_mem_cons]
    exact ⟨⟨rfl, symbolToString_isPlain _⟩, ⟨rfl, signed_plain _⟩, nofun⟩
  have hOpening : ∀ s, parseToken ("<message id=\"bar\">".toList ++ s) =
      some (.start "message".toList [("id".toList, "bar".toList)], s) := fun _ => rfl
  rw [toXml_eq, messageNode_envelope hOpening (by decide) hHeads rfl hFields]
  rfl

end

/-! ### The prices that survive -/

def TickMessage.decode (D : Decimals) (xml : Text) : Option TickMessage :=
  (messageNode xml).bind (fromXml D)

def BarMessage.decode (D : Decimals) (xml : Text) : Option BarMessage :=
  (messageNode xml).bind (fromXml D)

def TickMessage.prices (m : TickMessage) : List ℚ := [m.tick.bid, m.tick.ask]

def BarMessage.prices (m : BarMessage) : List ℚ := [m.bar.o, m.bar.h, m.bar.l, m.bar.c]

structure TickMessage.Sendable (m : TickMessage) : Prop where
  prices : ∀ price ∈ m.prices, OnGrid m.symbol price
  time : IsInt64 m.tick.time

structure BarMessage.Sendable (m : BarMessage) : Prop where
  prices : ∀ price ∈ m.prices, OnGrid m.symbol price
  timeFrame : IsInt64 m.timeFrame
  t : IsInt64 m.bar.t

/-- The message that is read has the symbol and the prices of the one that was written. -/
def TickMessage.Survives (D : Decimals) (m : TickMessage) : Prop :=
  ∃ m', decode D (m.toXml D) = some m' ∧ m'.symbol = m.symbol ∧ m'.prices = m.prices

def BarMessage.Survives (D : Decimals) (m : BarMessage) : Prop :=
  ∃ m', decode D (m.toXml D) = some m' ∧ m'.symbol = m.symbol ∧ m'.prices = m.prices

theorem TickMessage.decode_toXml {D : Decimals} (hD : Rounds D) {m : TickMessage}
    (hTime : IsInt64 m.tick.time) {bid ask : ℚ} (hBid : D.stod (D.put m.tick.bid) = some bid)
    (hAsk : D.stod (D.put m.tick.ask) = some ask) :
    decode D (m.toXml D) = some ⟨m.symbol, ⟨bid, ask, m.tick.time⟩⟩ := by
  obtain ⟨inside, hChild, hValue⟩ := child_leaf ("symbol".toList, symbolToString m.symbol)
    [.element "tick_data".toList [] ((m.fields D).map element)]
  have hTick : child "tick_data".toList [leaf ("symbol".toList, symbolToString m.symbol),
      .element "tick_data".toList [] ((m.fields D).map element)] =
      some ([], (m.fields D).map element) := rfl
  have hReadBid : readDouble D ((m.fields D).map element) "bid" = some bid :=
    readDouble_of_lookup rfl hBid
  have hReadAsk : readDouble D ((m.fields D).map element) "ask" = some ask :=
    readDouble_of_lookup rfl hAsk
  have hReadTime : readCount ((m.fields D).map element) "time" = some m.tick.time :=
    readCount_of_lookup hTime rfl
  rw [decode, m.messageNode_toXml hD, Option.bind_some, fromXml]
  simp only [hChild, hTick, hReadBid, hReadAsk, hReadTime, hValue, symbolFromString_back,
    Option.bind_eq_bind, Option.bind_some]

theorem BarMessage.decode_toXml {D : Decimals} (hD : Rounds D) {m : BarMessage}
    (hTimeFrame : IsInt64 m.timeFrame) (hTime : IsInt64 m.bar.t) {o h l c : ℚ}
    (hO : D.stod (D.put m.bar.o) = some o) (hH : D.stod (D.put m.bar.h) = some h)
    (hL : D.stod (D.put m.bar.l) = some l) (hC : D.stod (D.put m.bar.c) = some c) :
    ∃ timeFrame, decode D (m.toXml D) = some ⟨m.symbol, timeFrame, ⟨o, h, l, c, m.bar.t⟩⟩ := by
  obtain ⟨inside, hChild, hValue⟩ := child_leaf ("symbol".toList, symbolToString m.symbol)
    [leaf ("time_frame".toList, signed m.timeFrame),
      .element "bar_data".toList [] ((m.fields D).map element)]
  obtain ⟨inside', hChild', hValue'⟩ := child_leaf ("time_frame".toList, signed m.timeFrame)
    [.element "bar_data".toList [] ((m.fields D).map element)]
  obtain ⟨n, hNumber, _⟩ := Option.map_eq_some_iff.mp (stoull_signed hTimeFrame)
  have hFrame : readUint [leaf ("symbol".toList, symbolToString m.symbol),
      leaf ("time_frame".toList, signed m.timeFrame),
      .element "bar_data".toList [] ((m.fields D).map element)] "time_frame" =
      some (n % 2 ^ 32) := by
    have hSkip : child "time_frame".toList [leaf ("symbol".toList, symbolToString m.symbol),
        leaf ("time_frame".toList, signed m.timeFrame),
        .element "bar_data".toList [] ((m.fields D).map element)] = some ([], inside') := hChild'
    simp only [readUint, hSkip, Option.bind_some, hValue', hNumber, Option.map_some]
  have hBar : child "bar_data".toList [leaf ("symbol".toList, symbolToString m.symbol),
      leaf ("time_frame".toList, signed m.timeFrame),
      .element "bar_data".toList [] ((m.fields D).map element)] =
      some ([], (m.fields D).map element) := rfl
  have hReadO : readDouble D ((m.fields D).map element) "o" = some o := readDouble_of_lookup rfl hO
  have hReadH : readDouble D ((m.fields D).map element) "h" = some h := readDouble_of_lookup rfl hH
  have hReadL : readDouble D ((m.fields D).map element) "l" = some l := readDouble_of_lookup rfl hL
  have hReadC : readDouble D ((m.fields D).map element) "c" = some c := readDouble_of_lookup rfl hC
  have hReadTime : readCount ((m.fields D).map element) "t" = some m.bar.t :=
    readCount_of_lookup hTime rfl
  refine ⟨(n % 2 ^ 32 : ℕ), ?_⟩
  rw [decode, m.messageNode_toXml hD, Option.bind_some, fromXml]
  simp only [hChild, hFrame, hBar, hReadO, hReadH, hReadL, hReadC, hReadTime, hValue,
    symbolFromString_back, Option.bind_eq_bind, Option.bind_some]

theorem forall_fits_iff {sym : Symbol} {prices : List ℚ}
    (h : ∀ price ∈ prices, OnGrid sym price) :
    (∀ price ∈ prices, Fits sym price) ↔ ∀ price ∈ prices, HasDigits 10 7 price :=
  forall₂_congr fun price hPrice => (hasDigits_iff_fits (h price hPrice)).symm

theorem TickMessage.survives_iff {D : Decimals} (hD : Rounds D) {m : TickMessage}
    (h : m.Sendable) : m.Survives D ↔ ∀ price ∈ m.prices, Fits m.symbol price := by
  obtain ⟨bid, hBid, hNearBid⟩ := hD.back m.tick.bid
  obtain ⟨ask, hAsk, hNearAsk⟩ := hD.back m.tick.ask
  rw [forall_fits_iff h.prices, Survives, decode_toXml hD h.time hBid hAsk]
  simp [prices, hNearBid.eq_iff, hNearAsk.eq_iff]

theorem BarMessage.survives_iff {D : Decimals} (hD : Rounds D) {m : BarMessage}
    (h : m.Sendable) : m.Survives D ↔ ∀ price ∈ m.prices, Fits m.symbol price := by
  obtain ⟨open', hO, hNearO⟩ := hD.back m.bar.o
  obtain ⟨high, hH, hNearH⟩ := hD.back m.bar.h
  obtain ⟨low, hL, hNearL⟩ := hD.back m.bar.l
  obtain ⟨close, hC, hNearC⟩ := hD.back m.bar.c
  obtain ⟨timeFrame, hDecode⟩ := decode_toXml hD h.timeFrame h.t hO hH hL hC
  rw [forall_fits_iff h.prices, Survives, hDecode]
  simp [prices, hNearO.eq_iff, hNearH.eq_iff, hNearL.eq_iff, hNearC.eq_iff]

/-- Prices survive when each of them is below 100, or is of a symbol with 3 digits behind the point,
or does without the last of 5. -/
theorem prices_survive_iff {D : Decimals} (hD : Rounds D) :
    (∀ m : TickMessage, m.Sendable →
      (m.Survives D ↔ ∀ price ∈ m.prices, Fits m.symbol price)) ∧
    ∀ m : BarMessage, m.Sendable →
      (m.Survives D ↔ ∀ price ∈ m.prices, Fits m.symbol price) :=
  ⟨fun _ h => TickMessage.survives_iff hD h, fun _ h => BarMessage.survives_iff hD h⟩

/-! ### Quotes -/

/-- `m / 10 ^ d` without zeros at the end of the fraction. -/
def trim : ℕ → ℕ → ℕ × ℕ
  | m, 0 => (m, 0)
  | m, d + 1 => if m % 10 = 0 then trim (m / 10) d else (m, d + 1)

def lastDigits : ℕ → ℕ → Text
  | 0, _ => []
  | d + 1, m => lastDigits d (m / 10) ++ [Nat.digitChar (m % 10)]

def writeFixed (m d : ℕ) : Text :=
  unsigned (m / 10 ^ d) ++ if d = 0 then [] else '.' :: lastDigits d m

def readFixed (s : Text) : ℚ :=
  match s.dropWhile Char.isDigit with
  | '.' :: t => number 10 (s.takeWhile Char.isDigit) + number 10 t / 10 ^ t.length
  | _ => number 10 (s.takeWhile Char.isDigit)

/-- Numbers with a point and without an exponent, as the stream writes quotes. -/
def fixed : Decimals where
  put q :=
    let d := (6 - Int.log 10 |q|).toNat
    let (m, d) := trim (|roundTo 10 7 q| * 10 ^ d).num.natAbs d
    (if roundTo 10 7 q < 0 then ['-'] else []) ++ writeFixed m d
  stod
    | '-' :: s => some (-readFixed s)
    | s => some (readFixed s)

theorem trim_value (m d : ℕ) : ((trim m d).1 : ℚ) / 10 ^ (trim m d).2 = m / 10 ^ d := by
  induction d generalizing m with
  | zero => rfl
  | succ d ih =>
    rw [trim]
    split
    · rename_i hZero
      have hm : (m : ℚ) = 10 * (m / 10 : ℕ) := by
        have hNat : m = 10 * (m / 10) := by omega
        exact_mod_cast hNat
      rw [ih, hm, pow_succ']
      field_simp
    · rfl

theorem hexValue_digitChar {k : ℕ} (h : k < 10) :
    (Nat.digitChar k).isDigit = true ∧ hexValue (Nat.digitChar k) = k := by
  revert k
  decide

theorem isDigit_of_mem_lastDigits {d m : ℕ} {c : Char} (h : c ∈ lastDigits d m) :
    c.isDigit = true := by
  induction d generalizing m with
  | zero => exact absurd h List.not_mem_nil
  | succ d ih =>
    rw [lastDigits, List.mem_append, List.mem_singleton] at h
    cases h with
    | inl hMem => exact ih hMem
    | inr hLast =>
      rw [hLast]
      exact (hexValue_digitChar (Nat.mod_lt m (by decide))).1

theorem length_lastDigits (d m : ℕ) : (lastDigits d m).length = d := by
  induction d generalizing m with
  | zero => rfl
  | succ d ih => rw [lastDigits, List.length_append, ih, List.length_singleton]

theorem number_lastDigits (d m : ℕ) : number 10 (lastDigits d m) = m % 10 ^ d := by
  induction d generalizing m with
  | zero => rw [pow_zero, Nat.mod_one]; rfl
  | succ d ih =>
    have hStep : number 10 (lastDigits d (m / 10) ++ [Nat.digitChar (m % 10)]) =
        10 * number 10 (lastDigits d (m / 10)) + hexValue (Nat.digitChar (m % 10)) := by
      rw [number, List.foldl_append]
      rfl
    rw [lastDigits, hStep, ih, (hexValue_digitChar (Nat.mod_lt m (by decide))).2, pow_succ',
      Nat.mod_mul, add_comm]

theorem readFixed_writeFixed (m d : ℕ) : readFixed (writeFixed m d) = m / 10 ^ d := by
  have hDigits : ∀ c ∈ unsigned (m / 10 ^ d), c.isDigit = true :=
    fun _ hc => isDigit_of_mem_unsigned hc
  have hPoint : Char.isDigit '.' = false := rfl
  rw [writeFixed]
  split
  · rename_i hZero
    have hRest : (unsigned (m / 10 ^ d)).dropWhile Char.isDigit = [] :=
      List.dropWhile_eq_nil_iff.mpr hDigits
    rw [List.append_nil, readFixed, hRest]
    simp only [takeWhile_unsigned, number_unsigned]
    rw [hZero, pow_zero, pow_zero, Nat.div_one, div_one]
  · rw [readFixed, Scanning.dropWhile_run hDigits hPoint]
    simp only [Scanning.takeWhile_run hDigits hPoint, number_unsigned, number_lastDigits,
      length_lastDigits]
    have hSplit : (m : ℚ) = (m / 10 ^ d : ℕ) * 10 ^ d + (m % 10 ^ d : ℕ) := by
      have hNat := Nat.div_add_mod' m (10 ^ d)
      exact_mod_cast hNat.symm
    have hPower : (10 ^ d : ℚ) ≠ 0 := pow_ne_zero d (by norm_num)
    rw [eq_div_iff hPower, add_mul, div_mul_cancel₀ _ hPower, ← hSplit]

/-- The rounded number has no more places than are written. -/
theorem exists_mantissa (q : ℚ) :
    ∃ m : ℕ, |roundTo 10 7 q| * 10 ^ (6 - Int.log 10 |q|).toNat = m := by
  obtain ⟨j, hj⟩ := Int.le.dest (Int.self_le_toNat (6 - Int.log 10 |q|))
  refine ⟨(Doubles.round (q / unit 10 7 q)).natAbs * 10 ^ j, ?_⟩
  have hUnit : unit 10 7 q * 10 ^ (6 - Int.log 10 |q|).toNat = 10 ^ j := by
    rw [unit, ← zpow_natCast, ← zpow_natCast, Nat.cast_ofNat, ← zpow_add₀ (by norm_num)]
    congr 1
    push_cast
    omega
  rw [roundTo, abs_mul, abs_of_pos (unit_pos (by decide) 7 q), mul_assoc, hUnit, Nat.cast_mul,
    Nat.cast_natAbs, Int.cast_abs, Nat.cast_pow, Nat.cast_ofNat]

theorem stod_writeFixed (m d : ℕ) : fixed.stod (writeFixed m d) = some ((m : ℚ) / 10 ^ d) := by
  have hSome : unsigned (m / 10 ^ d) ≠ [] := Nat.toDigits_ne_nil
  obtain ⟨c, s, hDigits⟩ := List.exists_cons_of_ne_nil hSome
  have hDigit : c.isDigit = true := isDigit_of_mem_unsigned (hDigits ▸ List.mem_cons_self)
  have hRead := readFixed_writeFixed m d
  rw [writeFixed, hDigits, List.cons_append] at hRead ⊢
  simp only [fixed]
  split
  · rename_i hSign
    obtain ⟨rfl, _⟩ := List.cons.inj hSign
    cases hDigit
  · rw [hRead]

theorem fixed_back (q : ℚ) : fixed.stod (fixed.put q) = some (roundTo 10 7 q) := by
  obtain ⟨m, hm⟩ := exists_mantissa q
  have hValue := trim_value m (6 - Int.log 10 |q|).toNat
  rw [← hm, mul_div_cancel_right₀ _ (pow_ne_zero _ (by norm_num))] at hValue
  have hPut : fixed.put q = (if roundTo 10 7 q < 0 then ['-'] else []) ++
      writeFixed (trim m (6 - Int.log 10 |q|).toNat).1 (trim m (6 - Int.log 10 |q|).toNat).2 := by
    simp only [fixed, hm, Rat.num_natCast, Int.natAbs_natCast]
  rw [hPut]
  split
  · rename_i hNeg
    change some (-readFixed (writeFixed _ _)) = _
    rw [readFixed_writeFixed, hValue, abs_of_neg hNeg, neg_neg]
  · rename_i hNonneg
    rw [List.nil_append, stod_writeFixed, hValue, abs_of_nonneg (not_lt.mp hNonneg)]

theorem fixed_rounds : Rounds fixed where
  ne_nil q := by
    have hDigits : ∀ n, unsigned n ≠ [] := fun _ => Nat.toDigits_ne_nil
    simp [fixed, writeFixed, hDigits]
  chars q c hc := by
    simp only [fixed, writeFixed, List.mem_append] at hc
    rcases hc with hSign | hWhole | hFraction
    · split at hSign
      · rw [List.mem_singleton.mp hSign]
        exact .inr (by decide)
      · exact absurd hSign List.not_mem_nil
    · exact .inl (isDigit_of_mem_unsigned hWhole)
    · split at hFraction
      · exact absurd hFraction List.not_mem_nil
      · cases List.mem_cons.mp hFraction with
        | inl hPoint =>
          rw [hPoint]
          exact .inr (by decide)
        | inr hMem => exact .inl (isDigit_of_mem_lastDigits hMem)
  back q := ⟨_, fixed_back q, nearest_roundTo (by decide) (by decide) q⟩

def yenTick : TickMessage := ⟨.usdjpy, ⟨151234 / 1000, 151239 / 1000, 1000⟩⟩

def euroBar : BarMessage :=
  ⟨.eurusd, 60, ⟨108123 / 100000, 108211 / 100000, 108099 / 100000, 108107 / 100000, 3600⟩⟩

theorem yenTick_sendable : yenTick.Sendable where
  prices := by
    simp only [TickMessage.prices, List.forall_mem_cons, yenTick]
    refine ⟨⟨?_, ?_, 151234, ?_⟩, ⟨?_, ?_, 151239, ?_⟩, nofun⟩ <;> norm_num [symbolPip]
  time := by
    constructor <;> norm_num [yenTick]

theorem euroBar_sendable : euroBar.Sendable where
  prices := by
    simp only [BarMessage.prices, List.forall_mem_cons, euroBar]
    refine ⟨⟨?_, ?_, 108123, ?_⟩, ⟨?_, ?_, 108211, ?_⟩, ⟨?_, ?_, 108099, ?_⟩,
      ⟨?_, ?_, 108107, ?_⟩, nofun⟩ <;> norm_num [symbolPip]
  timeFrame := by
    constructor <;> norm_num [euroBar]
  t := by
    constructor <;> norm_num [euroBar]

theorem quotes_survive : yenTick.Survives fixed ∧ euroBar.Survives fixed := by
  have hYen : ∀ price ∈ yenTick.prices, Fits yenTick.symbol price := fun _ _ => .inl rfl
  have hEuro : ∀ price ∈ euroBar.prices, Fits euroBar.symbol price := by
    simp only [BarMessage.prices, List.forall_mem_cons, euroBar]
    refine ⟨.inr (.inl ?_), .inr (.inl ?_), .inr (.inl ?_), .inr (.inl ?_), nofun⟩ <;> norm_num
  exact ⟨((prices_survive_iff fixed_rounds).1 yenTick yenTick_sendable).mpr hYen,
    ((prices_survive_iff fixed_rounds).2 euroBar euroBar_sendable).mpr hEuro⟩

def forintTick : TickMessage := ⟨.usdhuf, ⟨27012341 / 100000, 27012368 / 100000, 1000⟩⟩

/-- With three digits before the point and 5 behind it, the last one is lost. -/
theorem forintTick_is_rounded :
    forintTick.toXml fixed =
        ("<message id=\"tick\">\n  <symbol>usdhuf</symbol>\n  <tick_data>\n" ++
          "    <bid>270.1234</bid>\n    <ask>270.1237</ask>\n    <time>1000</time>\n" ++
          "  </tick_data>\n</message>").toList ∧
      TickMessage.decode fixed (forintTick.toXml fixed) =
        some ⟨.usdhuf, ⟨2701234 / 10000, 2701237 / 10000, 1000⟩⟩ ∧
      Rounds fixed ∧ forintTick.Sendable ∧ ¬forintTick.Survives fixed := by
  have hDecode : TickMessage.decode fixed (forintTick.toXml fixed) =
      some ⟨.usdhuf, ⟨2701234 / 10000, 2701237 / 10000, 1000⟩⟩ := by decide +kernel
  refine ⟨by decide +kernel, hDecode, fixed_rounds, ⟨?_, ?_⟩, ?_⟩
  · simp only [TickMessage.prices, List.forall_mem_cons, forintTick]
    refine ⟨⟨?_, ?_, 27012341, ?_⟩, ⟨?_, ?_, 27012368, ?_⟩, nofun⟩ <;> norm_num [symbolPip]
  · constructor <;> norm_num [forintTick]
  · rintro ⟨m', hRead, _, hPrices⟩
    rw [hDecode] at hRead
    cases hRead
    revert hPrices
    decide +kernel

end Fxquant.PriceMessage
