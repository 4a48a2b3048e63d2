import Fxquant.Common.OrderMessage
import Fxquant.Library.OrderedMap
import Fxquant.Library.Runs
import Fxquant.Library.Scanning

/-!
# Options messages

The message that a client sends to set the speed of a controlled feeder, and what the receiving
thread does with it. `from_xml` never fails: without a speed that can be read it leaves `speed_`
as it was, and the thread gives it a message that nothing was written to.
-/

namespace Fxquant.OptionsMessage

open Markup OrderMessage Pugixml Runs Scanning

/-- The zero at the end is the error. -/
def percentToSpeedFactor (percent : ℤ) : ℤ :=
  if 0 ≤ percent ∧ percent ≤ 10 then (60 - 1) * (percent - 0) / (10 - 0) + 1
  else if 10 < percent ∧ percent ≤ 40 then (300 - 60) * (percent - 10) / (40 - 10) + 60
  else if 40 < percent ∧ percent ≤ 60 then (600 - 300) * (percent - 40) / (60 - 40) + 300
  else if 60 < percent ∧ percent ≤ 100 then (900 - 600) * (percent - 60) / (100 - 60) + 600
  else 0

/-- The percentage is an `unsigned int`, the parameter an `int` and `speed_` unsigned again. -/
def speedOf (percent : ℕ) : ℕ := (percentToSpeedFactor (Int.bmod percent (2 ^ 32))).toNat

structure Options where
  symbol : Symbol
  speed : ℕ
  deriving DecidableEq

/-- `isspace`. -/
def isBlank (c : Char) : Bool := isSpace c || c = '\x0b' || c = '\x0c'

section

-- An `unsigned long` has 32 bits or 64.
variable (bits : ℕ)

def magnitude (s : Text) : Option ℕ :=
  if s.takeWhile Char.isDigit = [] ∨ 2 ^ bits ≤ number 10 (s.takeWhile Char.isDigit) then none
  else some (number 10 (s.takeWhile Char.isDigit))

/-- `std::stoul`; nothing where it throws. -/
def stoul (s : Text) : Option ℕ :=
  match s.dropWhile isBlank with
  | '-' :: s => (magnitude bits s).map fun n => (2 ^ bits - n) % 2 ^ bits
  | '+' :: s => magnitude bits s
  | s => magnitude bits s

/-- `read_value` of an `unsigned int`. -/
def readUnsigned (children : List XmlNode) (name : String) : Option ℕ :=
  (child name.toList children).bind fun (_, inside) =>
    (stoul bits (childValue inside)).map fun n => n % 2 ^ 32

def readSymbol (children : List XmlNode) : Symbol :=
  match child "symbol".toList children with
  | some (_, inside) => symbolFromString (childValue inside)
  | none => .undefined

/-- `from_xml`, called on a message that may hold anything. -/
def fromXml (opts : Options) (children : List XmlNode) : Options × Bool :=
  match readUnsigned bits children "speed" with
  | some percent => (⟨readSymbol children, speedOf percent⟩, true)
  | none => ({ opts with symbol := readSymbol children }, true)

/-- What `recv_thread_func` passes to `set_options`; nothing has been written to `fresh`. -/
def stored (fresh : Options) (attributes : List (Text × Text)) (children : List XmlNode) :
    Option (Symbol × ℤ) :=
  if attributes.lookup "id".toList = some "options".toList then
    let (opts, success) := fromXml bits fresh children
    if success ∧ opts.symbol ≠ .undefined then some (opts.symbol, opts.speed) else none
  else none

/-- One message of a client, and the options that `gui_server` keeps. -/
def receive (options : OrderedMap Symbol ℤ) (message : Options × Text) : OrderedMap Symbol ℤ :=
  match (parse message.2).bind (child "message".toList) with
  | none => options
  | some (attributes, children) =>
    match stored bits message.1 attributes children with
    | some (sym, speed) => options.put sym speed
    | none => options

/-! ### What is valid -/

/-- Blanks, a sign or none, and the digits of a number that fits; a minus takes its complement. -/
def Numeral (s : Text) (n : ℕ) : Prop :=
  ∃ blanks sign digits rest : Text, s = blanks ++ sign ++ digits ++ rest ∧
    (∀ c ∈ blanks, isBlank c = true) ∧ (sign = [] ∨ sign = ['+'] ∨ sign = ['-']) ∧
    digits ≠ [] ∧ (∀ c ∈ digits, c.isDigit = true) ∧ (∀ c ∈ rest.head?, c.isDigit = false) ∧
    number 10 digits < 2 ^ bits ∧
    n = if sign = ['-'] then (2 ^ bits - number 10 digits) % 2 ^ bits else number 10 digits

/-- The message has a speed element, and its text is a number of at most 100 in 32 bits. -/
def HasPercent (children : List XmlNode) : Prop :=
  ∃ attributes inside n, child "speed".toList children = some (attributes, inside) ∧
    Numeral bits (childValue inside) n ∧ n % 2 ^ 32 ≤ 100

/-- Whatever was in the message before, a success has put a speed from 1 to 900 of the message's own
speed element there, and that is what is stored. -/
structure GivesSpeed (attributes : List (Text × Text)) (children : List XmlNode) : Prop where
  assigned : ∃ speed, 1 ≤ speed ∧ speed ≤ 900 ∧ ∀ opts, (fromXml bits opts children).2 = true →
    (child "speed".toList children).isSome = true ∧ (fromXml bits opts children).1.speed = speed
  stored : ∀ fresh sym speed, stored bits fresh attributes children = some (sym, speed) →
    1 ≤ speed ∧ speed ≤ 900 ∧ ∀ fresh', stored bits fresh' attributes children = some (sym, speed)

end

variable {bits : ℕ}

/-! ### The percentage -/

theorem speedFactor_of_percent {percent : ℤ} (h : 0 ≤ percent) (h' : percent ≤ 100) :
    1 ≤ percentToSpeedFactor percent ∧ percentToSpeedFactor percent ≤ 900 := by
  rw [percentToSpeedFactor]
  split
  · omega
  · split
    · omega
    · split
      · omega
      · rw [if_pos (by omega)]
        omega

theorem speedFactor_of_error {percent : ℤ} (h : percent < 0 ∨ 100 < percent) :
    percentToSpeedFactor percent = 0 := by
  rw [percentToSpeedFactor, if_neg (by omega), if_neg (by omega), if_neg (by omega),
    if_neg (by omega)]

theorem speedOf_valid_iff {percent : ℕ} (hLt : percent < 2 ^ 32) :
    1 ≤ speedOf percent ∧ speedOf percent ≤ 900 ↔ percent ≤ 100 := by
  rw [speedOf]
  by_cases hPercent : percent ≤ 100
  · have hInt : Int.bmod (percent : ℤ) (2 ^ 32) = percent := by
      apply Int.bmod_eq_of_le
      · omega
      · omega
    rw [hInt]
    have hValid := speedFactor_of_percent (Int.natCast_nonneg percent) (by omega)
    omega
  · have hError : Int.bmod (percent : ℤ) (2 ^ 32) < 0 ∨ 100 < Int.bmod (percent : ℤ) (2 ^ 32) := by
      rw [Int.bmod_def]
      omega
    rw [speedFactor_of_error hError]
    omega

/-! ### The number reader -/

theorem isBlank_of_isDigit {c : Char} (h : c.isDigit = true) : isBlank c = false := by
  rw [isBlank, isSpace_of_isDigit h, Bool.false_or, Bool.or_eq_false_iff,
    decide_eq_false_iff_not, decide_eq_false_iff_not]
  constructor
  · rintro rfl
    cases h
  · rintro rfl
    cases h

theorem takeWhile_digits {digits rest : Text} (h : ∀ c ∈ digits, c.isDigit = true)
    (hRest : ∀ c ∈ rest.head?, c.isDigit = false) :
    (digits ++ rest).takeWhile Char.isDigit = digits := by
  cases rest with
  | nil => rw [List.append_nil, List.takeWhile_eq_self_iff.mpr h]
  | cons c rest => exact takeWhile_run h (hRest c rfl)

theorem magnitude_digits {digits rest : Text} (hNe : digits ≠ [])
    (h : ∀ c ∈ digits, c.isDigit = true) (hRest : ∀ c ∈ rest.head?, c.isDigit = false)
    (hFits : number 10 digits < 2 ^ bits) :
    magnitude bits (digits ++ rest) = some (number 10 digits) := by
  rw [magnitude, takeWhile_digits h hRest, if_neg]
  rintro (hNil | hLarge)
  · exact hNe hNil
  · exact absurd hFits hLarge.not_gt

theorem magnitude_eq_some {s : Text} {n : ℕ} (h : magnitude bits s = some n) :
    ∃ digits rest, s = digits ++ rest ∧ digits ≠ [] ∧ (∀ c ∈ digits, c.isDigit = true) ∧
      (∀ c ∈ rest.head?, c.isDigit = false) ∧ number 10 digits < 2 ^ bits ∧
      n = number 10 digits := by
  rw [magnitude] at h
  split at h
  · cases h
  · rename_i hReads
    obtain ⟨hNe, hFits⟩ := not_or.mp hReads
    refine ⟨s.takeWhile Char.isDigit, s.dropWhile Char.isDigit,
      List.takeWhile_append_dropWhile.symm, hNe, fun c hc => List.mem_takeWhile_imp hc, ?_,
      not_le.mp hFits, (Option.some.inj h).symm⟩
    intro c hc
    have hHead := List.head?_dropWhile_not Char.isDigit s
    rw [Option.mem_def.mp hc] at hHead
    exact hHead

theorem Numeral.of_stoul {s : Text} {n : ℕ} (h : stoul bits s = some n) : Numeral bits s n := by
  have hBlanks : ∀ c ∈ s.takeWhile isBlank, isBlank c = true := fun c hc =>
    List.mem_takeWhile_imp hc
  have hSplit : s.takeWhile isBlank ++ s.dropWhile isBlank = s := List.takeWhile_append_dropWhile
  rw [stoul] at h
  split at h
  · rename_i body hBody
    obtain ⟨m, hm, rfl⟩ := Option.map_eq_some_iff.mp h
    obtain ⟨digits, rest, rfl, hNe, hDigits, hRest, hFits, rfl⟩ := magnitude_eq_some hm
    refine ⟨s.takeWhile isBlank, ['-'], digits, rest, ?_, hBlanks, .inr (.inr rfl), hNe, hDigits,
      hRest, hFits, rfl⟩
    rw [hBody] at hSplit
    exact hSplit.symm.trans (by simp)
  · rename_i body hBody
    obtain ⟨digits, rest, rfl, hNe, hDigits, hRest, hFits, rfl⟩ := magnitude_eq_some h
    refine ⟨s.takeWhile isBlank, ['+'], digits, rest, ?_, hBlanks, .inr (.inl rfl), hNe, hDigits,
      hRest, hFits, rfl⟩
    rw [hBody] at hSplit
    exact hSplit.symm.trans (by simp)
  · obtain ⟨digits, rest, hBody, hNe, hDigits, hRest, hFits, rfl⟩ := magnitude_eq_some h
    refine ⟨s.takeWhile isBlank, [], digits, rest, ?_, hBlanks, .inl rfl, hNe, hDigits, hRest,
      hFits, rfl⟩
    rw [hBody] at hSplit
    exact hSplit.symm.trans (by simp)

theorem Numeral.stoul_eq {s : Text} {n : ℕ} (h : Numeral bits s n) : stoul bits s = some n := by
  obtain ⟨blanks, sign, digits, rest, rfl, hBlanks, hSign, hNe, hDigits, hRest, hFits, rfl⟩ := h
  obtain ⟨c, tail, rfl⟩ := List.exists_cons_of_ne_nil hNe
  have hDigit : c.isDigit = true := hDigits c List.mem_cons_self
  have hNumber := magnitude_digits hNe hDigits hRest hFits
  rw [stoul, List.append_assoc, List.append_assoc]
  obtain rfl | rfl | rfl := hSign
  · rw [List.nil_append, List.cons_append, dropWhile_run hBlanks (isBlank_of_isDigit hDigit),
      ← List.cons_append]
    split
    · rename_i s hEq
      obtain ⟨rfl, _⟩ := List.cons.inj hEq
      cases hDigit
    · rename_i s hEq
      obtain ⟨rfl, _⟩ := List.cons.inj hEq
      cases hDigit
    · exact hNumber
  · rw [List.singleton_append, dropWhile_run hBlanks (by decide)]
    exact hNumber
  · rw [List.singleton_append, dropWhile_run hBlanks (by decide)]
    exact congrArg (Option.map _) hNumber

theorem stoul_eq_some_iff {s : Text} {n : ℕ} : stoul bits s = some n ↔ Numeral bits s n :=
  ⟨Numeral.of_stoul, Numeral.stoul_eq⟩

/-! ### The message -/

theorem readUnsigned_eq_some {children : List XmlNode} {percent : ℕ}
    (h : readUnsigned bits children "speed" = some percent) :
    ∃ attributes inside n, child "speed".toList children = some (attributes, inside) ∧
      Numeral bits (childValue inside) n ∧ percent = n % 2 ^ 32 := by
  obtain ⟨⟨attributes, inside⟩, hChild, hRead⟩ := Option.bind_eq_some_iff.mp h
  obtain ⟨n, hStoul, rfl⟩ := Option.map_eq_some_iff.mp hRead
  exact ⟨attributes, inside, n, hChild, Numeral.of_stoul hStoul, rfl⟩

theorem fromXml_of_percent {children : List XmlNode} {percent : ℕ}
    (h : readUnsigned bits children "speed" = some percent) (opts : Options) :
    fromXml bits opts children = (⟨readSymbol children, speedOf percent⟩, true) := by
  rw [fromXml, h]

theorem fromXml_of_none {children : List XmlNode}
    (h : readUnsigned bits children "speed" = none) (opts : Options) :
    fromXml bits opts children = ({ opts with symbol := readSymbol children }, true) := by
  rw [fromXml, h]

theorem fromXml_succeeds (opts : Options) (children : List XmlNode) :
    (fromXml bits opts children).2 = true := by
  rw [fromXml]
  split
  · rfl
  · rfl

theorem HasPercent.readUnsigned {children : List XmlNode} (h : HasPercent bits children) :
    ∃ n, OptionsMessage.readUnsigned bits children "speed" = some (n % 2 ^ 32) ∧
      n % 2 ^ 32 ≤ 100 ∧ (child "speed".toList children).isSome = true := by
  obtain ⟨attributes, inside, n, hChild, hNumeral, hLe⟩ := h
  refine ⟨n, ?_, hLe, ?_⟩
  · rw [OptionsMessage.readUnsigned, hChild, Option.bind_some]
    dsimp only
    rw [hNumeral.stoul_eq, Option.map_some]
  · rw [hChild]
    rfl

theorem stored_eq_some {attributes : List (Text × Text)} {children : List XmlNode}
    {fresh : Options} {sym : Symbol} {speed : ℤ}
    (h : stored bits fresh attributes children = some (sym, speed)) :
    attributes.lookup "id".toList = some "options".toList ∧ sym ≠ .undefined ∧
      fromXml bits fresh children = (⟨sym, speed.toNat⟩, true) ∧ 0 ≤ speed := by
  rw [stored] at h
  split at h
  · rename_i hId
    generalize hRead : fromXml bits fresh children = answer at h
    obtain ⟨⟨sym', speed'⟩, success⟩ := answer
    dsimp only at h
    split at h
    · rename_i hOk
      obtain ⟨rfl, hSym⟩ := hOk
      cases h
      exact ⟨hId, hSym, rfl, Int.natCast_nonneg _⟩
    · cases h
  · cases h

theorem givesSpeed_of_percent (attributes : List (Text × Text)) {children : List XmlNode}
    (h : HasPercent bits children) : GivesSpeed bits attributes children := by
  obtain ⟨n, hRead, hLe, hElement⟩ := h.readUnsigned
  obtain ⟨hLow, hHigh⟩ := (speedOf_valid_iff (Nat.mod_lt n (by norm_num))).mpr hLe
  constructor
  case assigned =>
    refine ⟨_, hLow, hHigh, ?_⟩
    intro opts _
    rw [fromXml_of_percent hRead opts]
    refine ⟨hElement, ?_⟩
    dsimp only
  case stored =>
    intro fresh sym speed hStored
    obtain ⟨_, _, hXml, hNonneg⟩ := stored_eq_some hStored
    rw [fromXml_of_percent hRead fresh] at hXml
    obtain ⟨_, hSpeed⟩ := Options.mk.inj (Prod.mk.inj hXml).1
    rw [hSpeed] at hLow hHigh
    refine ⟨by omega, by omega, ?_⟩
    intro fresh'
    rw [← hStored, OptionsMessage.stored, OptionsMessage.stored, fromXml_of_percent hRead fresh,
      fromXml_of_percent hRead fresh']

/-- A success means a speed of the client's exactly where the message has a percentage. -/
theorem givesSpeed_iff (bits : ℕ) (attributes : List (Text × Text)) (children : List XmlNode) :
    GivesSpeed bits attributes children ↔ HasPercent bits children := by
  constructor
  · intro hGives
    obtain ⟨speed, hLow, hHigh, hAssigned⟩ := hGives.assigned
    cases hRead : readUnsigned bits children "speed" with
    | some percent =>
      obtain ⟨attributes', inside, n, hChild, hNumeral, rfl⟩ := readUnsigned_eq_some hRead
      have hSpeed := (hAssigned ⟨.undefined, 0⟩ (fromXml_succeeds _ _)).2
      rw [fromXml_of_percent hRead] at hSpeed
      dsimp only at hSpeed
      subst hSpeed
      have hLt : n % 2 ^ 32 < 2 ^ 32 := Nat.mod_lt n (by norm_num)
      exact ⟨attributes', inside, n, hChild, hNumeral, (speedOf_valid_iff hLt).mp ⟨hLow, hHigh⟩⟩
    | none =>
      -- The speed is whatever was there before, so it is no one number.
      have hSpeed := (hAssigned ⟨.undefined, 0⟩ (fromXml_succeeds _ _)).2
      rw [fromXml_of_none hRead] at hSpeed
      subst hSpeed
      contradiction
  · exact givesSpeed_of_percent attributes

/-- The kept options of messages that all have a percentage are valid speeds. -/
theorem options_valid {messages : List (Options × Text)}
    (h : ∀ message ∈ messages, ∀ attributes children,
      (parse message.2).bind (child "message".toList) = some (attributes, children) →
        HasPercent bits children) :
    ∀ sym speed, (run (receive bits) ∅ messages).find? sym = some speed →
      1 ≤ speed ∧ speed ≤ 900 := by
  induction messages using List.reverseRecOn with
  | nil =>
    intro sym speed hNone
    cases hNone
  | append_singleton messages message ih =>
    have hBefore := ih fun m hm => h m (List.mem_append_left _ hm)
    have hLast := h message (by simp)
    intro sym speed hFind
    rw [run_concat, receive] at hFind
    split at hFind
    · exact hBefore sym speed hFind
    · rename_i attributes children hNode
      have hGives := givesSpeed_of_percent attributes (hLast attributes children hNode)
      split at hFind
      · rename_i sym' speed' hStored
        obtain ⟨_, rfl⟩ | hOld := OrderedMap.find?_put_cases hFind
        · obtain ⟨hLow, hHigh, _⟩ := hGives.stored message.1 sym' speed hStored
          exact ⟨hLow, hHigh⟩
        · exact hBefore sym speed hOld
      · exact hBefore sym speed hFind

/-- One percent too many is stored as speed zero. -/
theorem percent_101_is_stored :
    ¬ GivesSpeed 32 [("id".toList, "options".toList)]
      [.element "symbol".toList [] [.text "eurusd".toList],
        .element "speed".toList [] [.text "101".toList]] := by
  intro hGives
  have hStored := hGives.stored ⟨.undefined, 50⟩ .eurusd 0 (by decide +kernel)
  exact absurd hStored.1 (by decide)

end Fxquant.OptionsMessage
