import Fxquant.Common.OptionsMessage
import Fxquant.Common.PriceMessage

/-!
# Flat messages

The messages of `message.cpp` that hold nothing but elements with a text: a ping and its answer,
the header of a bar array, the status and the options, as `to_xml` writes them and `from_xml`
reads them.
-/

namespace Fxquant.FlatMessage

open Markup Pugixml OrderMessage OptionsMessage PriceMessage Scanning

/-! ### Writing -/

def pingXml : Text := "<message id=\"ping\">\n".toList ++ "</message>".toList

def pongXml : Text := "<message id=\"pong\">\n".toList ++ "</message>".toList

structure BarArrayMessage where
  symbol : Symbol
  timeFrame : ℤ
  count : ℕ
  deriving DecidableEq, Repr

def BarArrayMessage.toXml (m : BarArrayMessage) : Text :=
  "<message id=\"bar_array\">\n".toList ++ headLine ("symbol".toList, symbolToString m.symbol) ++
    headLine ("time_frame".toList, signed m.timeFrame) ++
    headLine ("count".toList, unsigned m.count) ++ "</message>".toList

inductive Status where
  | undefined | initialized
  deriving DecidableEq, Repr

def Status.value : Status → ℕ
  | .undefined => 0
  | .initialized => 1

def statusXml (status : Status) : Text :=
  "<message id=\"status\">\n".toList ++ headLine ("status".toList, unsigned status.value) ++
    "</message>".toList

/-- `speed_` is unsigned and is written as an `int`. -/
def optionsXml (opts : Options) : Text :=
  "<message id=\"options\">\n".toList ++
    (if opts.symbol ≠ .undefined then headLine ("symbol".toList, symbolToString opts.symbol) else []) ++
    headLine ("speed".toList, signed (Int.bmod opts.speed (2 ^ 32))) ++ "</message>".toList

/-! ### Reading -/

def BarArrayMessage.fromXml (message : List XmlNode) : Option BarArrayMessage := do
  let (_, symbol) ← child "symbol".toList message
  let timeFrame ← readUint message "time_frame"
  let count ← readUint message "count"
  if count = 0 then none else some { symbol := symbolFromString (childValue symbol), timeFrame, count }

/-- The number that is cast to a status. -/
def statusFromXml (message : List XmlNode) : Option ℕ := readUint message "status"

/-! ### One form -/

def flat (opening : Text) (heads : List (Text × Text)) : Text :=
  opening ++ '\n' :: (heads.flatMap headLine ++ "</message>".toList)

def BarArrayMessage.heads (m : BarArrayMessage) : List (Text × Text) :=
  [("symbol".toList, symbolToString m.symbol), ("time_frame".toList, signed m.timeFrame),
    ("count".toList, unsigned m.count)]

def statusHeads (status : Status) : List (Text × Text) :=
  [("status".toList, unsigned status.value)]

def optionsHeads (opts : Options) : List (Text × Text) :=
  (if opts.symbol ≠ .undefined then [("symbol".toList, symbolToString opts.symbol)] else []) ++
    [("speed".toList, signed (Int.bmod opts.speed (2 ^ 32)))]

theorem pingXml_eq : pingXml = flat "<message id=\"ping\">".toList [] := by
  decide

theorem BarArrayMessage.toXml_eq (m : BarArrayMessage) :
    m.toXml = flat "<message id=\"bar_array\">".toList m.heads := by
  have hOpening : "<message id=\"bar_array\">\n".toList =
      "<message id=\"bar_array\">".toList ++ ['\n'] := by
    decide
  unfold toXml flat heads
  simp only [hOpening, List.flatMap_cons, List.flatMap_nil, List.append_assoc, List.cons_append,
    List.nil_append]

theorem statusXml_eq (status : Status) :
    statusXml status = flat "<message id=\"status\">".toList (statusHeads status) := by
  have hOpening : "<message id=\"status\">\n".toList = "<message id=\"status\">".toList ++ ['\n'] := by
    decide
  unfold statusXml flat statusHeads
  simp only [hOpening, List.flatMap_cons, List.flatMap_nil, List.append_assoc, List.cons_append,
    List.nil_append]

theorem optionsXml_eq (opts : Options) :
    optionsXml opts = flat "<message id=\"options\">".toList (optionsHeads opts) := by
  have hOpening : "<message id=\"options\">\n".toList = "<message id=\"options\">".toList ++ ['\n'] := by
    decide
  unfold optionsXml flat optionsHeads
  split
  · simp only [hOpening, List.flatMap_cons, List.flatMap_nil, List.append_assoc, List.cons_append,
      List.nil_append]
  · simp only [hOpening, List.flatMap_cons, List.flatMap_nil, List.append_assoc, List.cons_append,
      List.nil_append]

theorem plain_unsigned {name : String} (hName : isName name.toList = true) (n : ℕ) :
    Plain (name.toList, unsigned n) :=
  ⟨hName, fun _ hc => isPlain_of_isDigit (isDigit_of_mem_unsigned hc)⟩

theorem BarArrayMessage.plain_heads (m : BarArrayMessage) : ∀ f ∈ m.heads, Plain f := by
  simp only [heads, List.forall_mem_cons]
  exact ⟨⟨rfl, symbolToString_isPlain _⟩, ⟨rfl, signed_plain _⟩, plain_unsigned rfl _, nofun⟩

theorem plain_statusHeads (status : Status) : ∀ f ∈ statusHeads status, Plain f := by
  simp only [statusHeads, List.forall_mem_cons]
  exact ⟨plain_unsigned rfl _, nofun⟩

theorem plain_optionsHeads (opts : Options) : ∀ f ∈ optionsHeads opts, Plain f := by
  intro f hf
  rw [optionsHeads, List.mem_append, List.mem_singleton] at hf
  rcases hf with hSymbol | rfl
  · split at hSymbol
    · rw [List.mem_singleton.mp hSymbol]
      exact ⟨rfl, symbolToString_isPlain _⟩
    · exact absurd hSymbol List.not_mem_nil
  · exact ⟨rfl, signed_plain _⟩

/-! ### What is parsed -/

theorem reads_lines {top : Bool} {ns : List XmlNode} {s r : Text} {heads : List (Text × Text)}
    {node : Text × Text → XmlNode}
    (h : ∀ f ∈ heads, ∀ s ns, Reads parseToken top s ns r → Reads parseToken top
      ('<' :: f.1 ++ '>' :: (f.2 ++ '<' :: ('/' :: f.1 ++ '>' :: s))) (node f :: ns) r)
    {w : Text} (hBlank : w.all isSpace = true) (hRest : Reads parseToken top ('<' :: s) ns r) :
    Reads parseToken top (w ++ (heads.flatMap headLine ++ '<' :: s)) (heads.map node ++ ns) r := by
  induction heads generalizing w with
  | nil =>
    rw [List.flatMap_nil, List.nil_append, reads_space_iff hBlank]
    exact hRest
  | cons f heads ih =>
    have hIndent : (w ++ indent1).all isSpace = true := by
      rw [List.all_append, hBlank]
      rfl
    have hLater := ih (fun f' hf' => h f' (List.mem_cons_of_mem _ hf')) (w := ['\n']) rfl
    rw [List.flatMap_cons, List.append_assoc, headLine_eq, ← List.append_assoc w, List.cons_append,
      reads_space_iff hIndent]
    exact h f List.mem_cons_self _ _ hLater

theorem reads_heads {top : Bool} {ns : List XmlNode} {s r : Text} {heads : List (Text × Text)}
    (h : ∀ f ∈ heads, Plain f) {w : Text} (hBlank : w.all isSpace = true)
    (hRest : Reads parseToken top ('<' :: s) ns r) :
    Reads parseToken top (w ++ (heads.flatMap headLine ++ '<' :: s)) (heads.map leaf ++ ns) r :=
  reads_lines (fun f hf _ _ hLater => reads_leaf (h f hf).1 (h f hf).2 hLater) hBlank hRest

theorem null_not_mem_blank {w : Text} (h : w.all isSpace = true) : '\x00' ∉ w := by
  intro hMem
  cases List.all_eq_true.mp h _ hMem

/-- A flat message with blanks before it is read as a message with the leaves that were written. -/
theorem parse_flat (opening : Text) {w : Text} (attributes : List (Text × Text))
    {heads : List (Text × Text)}
    (hOpening : ∀ s, parseToken ('<' :: (opening ++ s)) = some (.start "message".toList attributes, s))
    (hNull : '\x00' ∉ opening) (hBlank : w.all isSpace = true) (h : ∀ f ∈ heads, Plain f) :
    (parse (w ++ flat ('<' :: opening) heads)).bind (child "message".toList) =
      some (attributes, heads.map leaf) := by
  have hEnd : parseToken "</message>".toList = some (.stop "message".toList, []) := rfl
  have hInside : Reads parseToken false ('\n' :: (heads.flatMap headLine ++ "</message>".toList))
      (heads.map leaf ++ []) "</message>".toList := reads_heads h (w := ['\n']) rfl (.stop hEnd)
  have hReads : Reads parseToken true (w ++ flat ('<' :: opening) heads)
      [.element "message".toList attributes (heads.map leaf ++ [])] [] := by
    rw [flat, List.cons_append, reads_space_iff hBlank]
    exact .start (hOpening _) hInside hEnd (.finish rfl)
  have hText : '\x00' ∉ w ++ flat ('<' :: opening) heads := by
    have hTag : '\x00' ∉ "</message>".toList := by decide
    simp only [flat, List.mem_append, List.mem_cons, null_not_mem_blank hBlank, hNull,
      null_not_mem_headLines h, hTag, or_false, false_or]
    decide
  have hParse := parse_eq_some_iff.mpr ((zeroTerminated_of_not_mem hText).symm ▸ hReads)
  rw [hParse, List.append_nil]
  rfl

theorem child_leaves (name : Text) (heads : List (Text × Text)) :
    child name (heads.map leaf) =
      (heads.lookup name).map fun value => ([], if value = [] then [] else [.text value]) := by
  induction heads with
  | nil => rfl
  | cons f heads ih =>
    rw [List.map_cons, leaf, child, List.lookup_cons, ih]
    by_cases hName : f.1 = name
    · simp [hName]
    · have hOther : (name == f.1) = false := by
        rw [beq_eq_false_iff_ne]
        exact fun hEq => hName hEq.symm
      rw [if_neg hName, hOther]

theorem childValue_leaf (value : Text) :
    childValue (if value = [] then [] else [.text value]) = value := by
  split
  · rename_i hNil
    exact hNil.symm
  · rfl

theorem readUint_leaves (heads : List (Text × Text)) (name : String) :
    readUint (heads.map leaf) name =
      (heads.lookup name.toList).bind fun value => (stoull value).map fun n => n % 2 ^ 32 := by
  rw [readUint, child_leaves]
  cases heads.lookup name.toList with
  | none => rfl
  | some value =>
    rw [Option.map_some, Option.bind_some, Option.bind_some]
    dsimp only
    rw [childValue_leaf]

/-! ### The round trips -/

theorem BarArrayMessage.messageNode_toXml (m : BarArrayMessage) :
    messageNode m.toXml = some (m.heads.map leaf) := by
  have hParse := parse_flat "message id=\"bar_array\">".toList (w := [])
    [("id".toList, "bar_array".toList)] (fun _ => rfl) (by decide) rfl m.plain_heads
  obtain ⟨doc, hDoc, hChild⟩ := Option.bind_eq_some_iff.mp hParse
  rw [List.nil_append] at hDoc
  rw [messageNode, toXml_eq]
  change (parse (flat ('<' :: "message id=\"bar_array\">".toList) m.heads)).bind _ = _
  rw [hDoc, Option.bind_some, hChild, Option.map_some]

/-- What a number of 64 bits becomes when an `unsigned int` is read from its text. -/
theorem read_signed {n : ℤ} (h : IsInt64 n) :
    (stoull (signed n)).map (fun n => n % 2 ^ 32) = some (n % 2 ^ 32).toNat := by
  obtain ⟨m, hRead, hValue⟩ := Option.map_eq_some_iff.mp (stoull_signed h)
  rw [hRead, Option.map_some, ← hValue, Option.some.injEq, Int.bmod_def]
  omega

/-- The header of a bar array is read as it was written exactly where its numbers fit into 32 bits
and the array is not empty. -/
theorem BarArrayMessage.fromXml_toXml_iff (m : BarArrayMessage) (hFrame : IsInt64 m.timeFrame)
    (hCount : m.count < 2 ^ 64) :
    (messageNode m.toXml).bind fromXml = some m ↔
      0 ≤ m.timeFrame ∧ m.timeFrame < 2 ^ 32 ∧ 0 < m.count ∧ m.count < 2 ^ 32 := by
  have hSymbol : child "symbol".toList (m.heads.map leaf) =
      some ([], if symbolToString m.symbol = [] then [] else [.text (symbolToString m.symbol)]) :=
    child_leaves _ _
  have hReadFrame : readUint (m.heads.map leaf) "time_frame" = some (m.timeFrame % 2 ^ 32).toNat := by
    rw [readUint_leaves]
    exact read_signed hFrame
  have hReadCount : readUint (m.heads.map leaf) "count" = some (m.count % 2 ^ 32) := by
    rw [readUint_leaves]
    change (stoull (unsigned m.count)).map _ = _
    rw [stoull_unsigned hCount]
    rfl
  rw [messageNode_toXml, Option.bind_some, fromXml]
  simp only [hSymbol, hReadFrame, hReadCount, childValue_leaf, symbolFromString_back,
    Option.bind_eq_bind, Option.bind_some]
  constructor
  · intro hBack
    split at hBack
    · cases hBack
    · rename_i hSome
      have hSame := congrArg BarArrayMessage.timeFrame (Option.some.inj hBack)
      have hSize := congrArg BarArrayMessage.count (Option.some.inj hBack)
      dsimp only at hSame hSize
      omega
  · rintro ⟨hNonneg, hLt, hPos, hFits⟩
    have hSame : ((m.timeFrame % 2 ^ 32).toNat : ℤ) = m.timeFrame := by omega
    have hSize : m.count % 2 ^ 32 = m.count := Nat.mod_eq_of_lt hFits
    rw [hSame, hSize, if_neg hPos.ne']

/-- An hour's bars, ten at a time. -/
theorem hourly_header_returns :
    (messageNode (BarArrayMessage.toXml ⟨.eurusd, 60, 250⟩)).bind BarArrayMessage.fromXml =
      some ⟨.eurusd, 60, 250⟩ :=
  (BarArrayMessage.fromXml_toXml_iff ⟨.eurusd, 60, 250⟩ (by norm_num [IsInt64]) (by norm_num)).mpr
    (by norm_num)

theorem statusFromXml_statusXml (status : Status) :
    (messageNode (statusXml status)).bind statusFromXml = some status.value := by
  have hParse := parse_flat "message id=\"status\">".toList (w := [])
    [("id".toList, "status".toList)] (fun _ => rfl) (by decide) rfl
    (plain_statusHeads status)
  obtain ⟨doc, hDoc, hChild⟩ := Option.bind_eq_some_iff.mp hParse
  rw [List.nil_append] at hDoc
  rw [messageNode, statusXml_eq]
  change ((parse (flat ('<' :: "message id=\"status\">".toList) (statusHeads status))).bind _).bind _ = _
  rw [hDoc, Option.bind_some, hChild, Option.map_some, Option.bind_some, statusFromXml, readUint_leaves]
  cases status <;> rfl

/-! ### Options -/

theorem parse_ping {w : Text} (hBlank : w.all isSpace = true) :
    (parse (w ++ pingXml)).bind (child "message".toList) =
      some ([("id".toList, "ping".toList)], []) := by
  rw [pingXml_eq]
  exact parse_flat "message id=\"ping\">".toList [("id".toList, "ping".toList)] (fun _ => rfl)
    (by decide) hBlank (by simp)

theorem parse_options {w : Text} (hBlank : w.all isSpace = true) (opts : Options) :
    (parse (w ++ optionsXml opts)).bind (child "message".toList) =
      some ([("id".toList, "options".toList)], (optionsHeads opts).map leaf) := by
  rw [optionsXml_eq]
  exact parse_flat "message id=\"options\">".toList [("id".toList, "options".toList)] (fun _ => rfl)
    (by decide) hBlank (plain_optionsHeads opts)

/-- A negative number comes back as its complement, and 32 bits of that are the number again. -/
theorem stoul_signed {bits : ℕ} (hBits : 32 ≤ bits) {n : ℤ} (hLow : -2 ^ 31 ≤ n) (hHigh : n < 2 ^ 31) :
    (stoul bits (signed n)).map (fun n => n % 2 ^ 32) = some (n % 2 ^ 32).toNat := by
  obtain ⟨c, hPower⟩ : (2 ^ 32 : ℕ) ∣ 2 ^ bits := pow_dvd_pow 2 hBits
  have hPos : 0 < 2 ^ bits := Nat.two_pow_pos bits
  have hSome : unsigned n.natAbs ≠ [] := Nat.toDigits_ne_nil
  have hFits : n.natAbs < 2 ^ bits := by omega
  have hDigits : ∀ c ∈ unsigned n.natAbs, c.isDigit = true := fun _ hc => isDigit_of_mem_unsigned hc
  by_cases hNegative : n < 0
  · have hNumeral : Numeral bits (signed n) ((2 ^ bits - n.natAbs) % 2 ^ bits) := by
      refine ⟨[], ['-'], unsigned n.natAbs, [], ?_, nofun, .inr (.inr rfl), hSome, hDigits, nofun, ?_, ?_⟩
      · rw [signed, if_pos hNegative, List.nil_append, List.append_nil]
      · rwa [number_unsigned]
      · rw [if_pos rfl, number_unsigned]
    have hComplement : (2 ^ bits - n.natAbs) % 2 ^ bits = 2 ^ bits - n.natAbs := by
      apply Nat.mod_eq_of_lt
      omega
    rw [hNumeral.stoul_eq, Option.map_some, Option.some.injEq, hComplement, hPower]
    omega
  · have hNumeral : Numeral bits (signed n) n.natAbs := by
      refine ⟨[], [], unsigned n.natAbs, [], ?_, nofun, .inl rfl, hSome, hDigits, nofun, ?_, ?_⟩
      · rw [signed, if_neg hNegative, List.append_nil]
        rfl
      · rwa [number_unsigned]
      · rw [if_neg (by simp), number_unsigned]
    rw [hNumeral.stoul_eq, Option.map_some, Option.some.injEq]
    omega

theorem readSymbol_options (opts : Options) :
    readSymbol ((optionsHeads opts).map leaf) = opts.symbol := by
  rw [readSymbol, child_leaves, optionsHeads]
  split
  · rename_i hRead
    split at hRead
    · cases hRead
      rw [childValue_leaf, symbolFromString_back]
    · cases hRead
  · rename_i hNone
    split at hNone
    · cases hNone
    · rename_i hUndefined
      exact (not_not.mp hUndefined).symm

theorem readUnsigned_options {bits : ℕ} (hBits : 32 ≤ bits) {opts : Options} (h : opts.speed < 2 ^ 32) :
    readUnsigned bits ((optionsHeads opts).map leaf) "speed" = some opts.speed := by
  have hLookup : (optionsHeads opts).lookup "speed".toList =
      some (signed (Int.bmod opts.speed (2 ^ 32))) := by
    rw [optionsHeads]
    split <;> rfl
  have hRead : (stoul bits (signed (Int.bmod opts.speed (2 ^ 32)))).map (fun n => n % 2 ^ 32) =
      some (Int.bmod opts.speed (2 ^ 32) % 2 ^ 32).toNat := by
    apply stoul_signed hBits
    · rw [Int.bmod_def]
      omega
    · rw [Int.bmod_def]
      omega
  have hSpeed : (Int.bmod opts.speed (2 ^ 32) % 2 ^ 32).toNat = opts.speed := by
    rw [Int.bmod_def]
    omega
  rw [readUnsigned, child_leaves, hLookup, Option.map_some, Option.bind_some]
  dsimp only
  rw [childValue_leaf, hRead, hSpeed]

/-- Whatever was in the message before, the options that were written are stored. -/
theorem stored_options {bits : ℕ} (hBits : 32 ≤ bits) {opts : Options} (h : opts.speed < 2 ^ 32)
    (fresh : Options) :
    stored bits fresh [("id".toList, "options".toList)] ((optionsHeads opts).map leaf) =
      if opts.symbol ≠ .undefined then some (opts.symbol, (speedOf opts.speed : ℤ)) else none := by
  rw [stored, if_pos (by decide), fromXml_of_percent (readUnsigned_options hBits h), readSymbol_options]
  simp only [true_and]

end Fxquant.FlatMessage
