import Fxquant.Common.FlatMessage
import Fxquant.Gui.Receiving

/-!
# The receive thread

`recv_thread_func` and what the server keeps for it, on the bytes that a client sends. The thread
answers pings, stores options and passes over other messages; a message that cannot be parsed,
or has no id, ends it. The client's bytes come in time, its connection is neither canceled nor
aborted, and the answers are written.
-/

namespace Fxquant.Gui.RecvThread

open FlatMessage Markup OptionsMessage OrderMessage PriceMessage Pugixml Receiving Scanning

/-- The options of the server, the messages that were sent back, how many messages came so far, and
whether the thread is in its loop. -/
structure Served where
  options : OrderedMap Symbol ℤ := ∅
  answers : List Text := []
  handled : ℕ := 0
  running : Bool := true

structure State where
  sock : Socket
  served : Served := {}

section

-- What an options message that nothing was written to holds differs from message to message.
variable (bits : ℕ) (fresh : ℕ → Options)

def Served.handle (t : Served) (xml : Text) : Served :=
  match (parse xml).bind (child "message".toList) with
  | none => { t with running := false }
  | some (attributes, children) =>
    match attributes.lookup "id".toList with
    | none => { t with running := false }
    | some id =>
      if id = "ping".toList then
        { t with answers := t.answers ++ [pongXml], handled := t.handled + 1 }
      else
        match stored bits (fresh t.handled) attributes children with
        | some (sym, speed) => { t with options := t.options.put sym speed, handled := t.handled + 1 }
        | none => { t with handled := t.handled + 1 }

/-- One turn of the loop; a call that waits for more bytes is still to return. -/
def turn (s : State) : State :=
  if s.served.running then
    match receiveMessage s.sock with
    | (.received xml, sock) => ⟨sock, s.served.handle bits fresh xml⟩
    | (.waiting, _) => s
    | (_, sock) => ⟨sock, { s.served with running := false }⟩
  else s

/-- The same on all bytes at once: messages end where their closing tag ends. -/
def turnOn (t : Served × Bytes) : Served × Bytes :=
  if t.1.running then
    match splitFirst closingTag t.2 with
    | some (before, after) => (t.1.handle bits fresh (before ++ closingTag), after)
    | none => t
  else t

end

/-- What a client sends. -/
inductive ClientMessage where
  | ping
  | options (opts : Options)

namespace ClientMessage

def toXml : ClientMessage → Text
  | .ping => pingXml
  | .options opts => optionsXml opts

/-- `speed_` has 32 bits. -/
def Sendable : ClientMessage → Prop
  | .ping => True
  | .options opts => opts.speed < 2 ^ 32

def isPing : ClientMessage → Bool
  | .ping => true
  | .options _ => false

/-- The speed that the message is to set for a symbol. -/
def speed (sym : Symbol) : ClientMessage → Option ℤ
  | .ping => none
  | .options opts =>
    if opts.symbol = sym ∧ sym ≠ .undefined then some (speedOf opts.speed) else none

end ClientMessage

/-- Messages with blanks before them. -/
def stream (messages : List (Text × ClientMessage)) : Bytes :=
  messages.flatMap fun m => m.1 ++ m.2.toXml

/-! ### Where a message ends -/

theorem skips_start {name : Text} (hName : isName name = true) : Skips closingTag ('<' :: name) := by
  have hFree : '<' ∉ name := fun hMem => (isSymbol_ne (isSymbol_of_isName hName _ hMem)).2.2.2 rfl
  refine Skips.cons (skips_of_notMem hFree) fun s hPrefix => ?_
  obtain ⟨c, rest, rfl, _⟩ := exists_of_isName hName
  have hHead := (List.cons_prefix_cons.mp (List.cons_prefix_cons.mp hPrefix).2).1
  exact (isSymbol_ne (isSymbol_of_isName hName c List.mem_cons_self)).1 hHead.symm

/-- The end tag of another element. -/
theorem skips_stop {name : Text} (hName : isName name = true) (hOther : name.head? ≠ some 'm') :
    Skips closingTag ('<' :: '/' :: name) := by
  have hFree : '<' ∉ '/' :: name := by
    intro hMem
    rcases List.mem_cons.mp hMem with hSlash | hMem
    · cases hSlash
    · exact (isSymbol_ne (isSymbol_of_isName hName _ hMem)).2.2.2 rfl
  refine Skips.cons (skips_of_notMem hFree) fun s hPrefix => ?_
  obtain ⟨c, rest, rfl, _⟩ := exists_of_isName hName
  have hRest := (List.cons_prefix_cons.mp (List.cons_prefix_cons.mp hPrefix).2).2
  exact hOther (congrArg some (List.cons_prefix_cons.mp hRest).1.symm)

theorem skips_plain {v : Text} (h : ∀ c ∈ v, isPlain c = true) : Skips closingTag v :=
  skips_of_notMem fun hMem => (isPlain_iff.mp (h _ hMem)).2.1 rfl

theorem skips_headLine {f : Text × Text} (h : Plain f) (hOther : f.1.head? ≠ some 'm') :
    Skips closingTag (headLine f) := by
  obtain ⟨hName, hPlain⟩ := h
  have hIndent : Skips closingTag indent1 := skips_of_notMem (by decide)
  have hClose : Skips closingTag ['>'] := skips_of_notMem (by decide)
  have hEnd : Skips closingTag ['>', '\n'] := skips_of_notMem (by decide)
  have hLine : headLine f = indent1 ++ (('<' :: f.1) ++ (['>'] ++ (f.2 ++ (('<' :: '/' :: f.1) ++
      ['>', '\n'])))) := by
    rw [← List.append_nil (headLine f), headLine_eq]
    simp
  rw [hLine]
  exact hIndent.append ((skips_start hName).append (hClose.append ((skips_plain hPlain).append
    ((skips_stop hName hOther).append hEnd))))

/-- A flat message is a part in which no closing tag begins, and the closing tag. -/
theorem splitFirst_flat (name opening : Text) {w : Text} {heads : List (Text × Text)}
    (hBlank : w.all isSpace = true) (hName : isName name = true) (hFree : '<' ∉ opening)
    (h : ∀ f ∈ heads, Plain f ∧ f.1.head? ≠ some 'm') (s : Text) :
    splitFirst closingTag (w ++ flat ('<' :: (name ++ opening)) heads ++ s) =
      some (w ++ ('<' :: (name ++ opening) ++ '\n' :: heads.flatMap headLine), s) := by
  have hSpace : Skips closingTag w := by
    refine skips_of_notMem fun hMem => ?_
    cases List.all_eq_true.mp hBlank _ hMem
  have hTag : Skips closingTag ('<' :: (name ++ opening)) := by
    rw [← List.cons_append]
    exact (skips_start hName).append (skips_of_notMem hFree)
  have hLine : Skips closingTag ['\n'] := skips_of_notMem (by decide)
  have hHeads : Skips closingTag (heads.flatMap headLine) :=
    .flatMap fun f hf => skips_headLine (h f hf).1 (h f hf).2
  have hSplit := (hSpace.append (hTag.append (hLine.append hHeads))).splitFirst_eq (by decide) s
  have hTagText : "</message>".toList = closingTag := by decide
  rw [flat, hTagText]
  simpa only [List.append_assoc, List.cons_append, List.nil_append] using hSplit

theorem head_optionsHeads {opts : Options} {f : Text × Text} (h : f ∈ optionsHeads opts) :
    f.1.head? ≠ some 'm' := by
  have hSymbolName : "symbol".toList.head? ≠ some 'm' := by decide
  have hSpeedName : "speed".toList.head? ≠ some 'm' := by decide
  rw [optionsHeads, List.mem_append, List.mem_singleton] at h
  rcases h with hSymbol | rfl
  · split at hSymbol
    · rw [List.mem_singleton.mp hSymbol]
      exact hSymbolName
    · exact absurd hSymbol List.not_mem_nil
  · exact hSpeedName

/-- The bytes of a message, with what follows, are cut right after it. -/
theorem splitFirst_message {w : Text} (hBlank : w.all isSpace = true) (m : ClientMessage) (s : Text) :
    ∃ before, splitFirst closingTag (w ++ m.toXml ++ s) = some (before, s) ∧
      before ++ closingTag = w ++ m.toXml := by
  have hExists : ∃ before, splitFirst closingTag (w ++ m.toXml ++ s) = some (before, s) := by
    cases m with
    | ping =>
      rw [ClientMessage.toXml, pingXml_eq]
      exact ⟨_, splitFirst_flat "message".toList " id=\"ping\">".toList hBlank rfl (by decide)
        (by simp) s⟩
    | options opts =>
      rw [ClientMessage.toXml, optionsXml_eq]
      exact ⟨_, splitFirst_flat "message".toList " id=\"options\">".toList hBlank rfl (by decide)
        (fun f hf => ⟨plain_optionsHeads opts f hf, head_optionsHeads hf⟩) s⟩
  obtain ⟨before, hSplit⟩ := hExists
  exact ⟨before, hSplit, (List.append_cancel_right (splitFirst_eq_some hSplit)).symm⟩

/-! ### The loop -/

section

variable {bits : ℕ} {fresh : ℕ → Options}

/-- With a piece for each byte, a turn does not see the pieces. -/
theorem turn_eq (bits : ℕ) (fresh : ℕ → Options) {s : State}
    (h : s.sock.unread.length ≤ s.sock.pieces.length) :
    ((turn bits fresh s).served, (turn bits fresh s).sock.unread) =
        turnOn bits fresh (s.served, s.sock.unread) ∧
      (turn bits fresh s).sock.unread.length ≤ (turn bits fresh s).sock.pieces.length := by
  rw [turn, turnOn]
  dsimp only
  split
  · rcases receiveMessage_spec s.sock with ⟨before, after, rest, hSplit, hCall, hLeft⟩ | ⟨_, hCall, hNone⟩
    · rw [hCall, hSplit]
      exact ⟨rfl, hLeft h⟩
    · rw [hCall, hNone h]
      exact ⟨rfl, h⟩
  · exact ⟨rfl, h⟩

theorem turns_eq (bits : ℕ) (fresh : ℕ → Options) {s : State}
    (h : s.sock.unread.length ≤ s.sock.pieces.length) (n : ℕ) :
    (((turn bits fresh)^[n] s).served, ((turn bits fresh)^[n] s).sock.unread) =
      (turnOn bits fresh)^[n] (s.served, s.sock.unread) := by
  induction n generalizing s with
  | zero => rfl
  | succ n ih =>
    obtain ⟨hTurn, hLeft⟩ := turn_eq bits fresh h
    rw [Function.iterate_succ_apply, Function.iterate_succ_apply, ih hLeft, hTurn]

/-- What a message of a client does. -/
def Served.serve (t : Served) : ClientMessage → Served
  | .ping => { t with answers := t.answers ++ [pongXml], handled := t.handled + 1 }
  | .options opts =>
    { t with
      options :=
        if opts.symbol ≠ .undefined then t.options.put opts.symbol (speedOf opts.speed) else t.options
      handled := t.handled + 1 }

theorem handle_message (hBits : 32 ≤ bits) {w : Text} (hBlank : w.all isSpace = true)
    {m : ClientMessage} (h : m.Sendable) (t : Served) :
    t.handle bits fresh (w ++ m.toXml) = t.serve m := by
  cases m with
  | ping =>
    rw [Served.handle, ClientMessage.toXml, parse_ping hBlank]
    rfl
  | options opts =>
    have hStored := stored_options hBits (show opts.speed < 2 ^ 32 from h) (fresh t.handled)
    have hId : ([("id".toList, "options".toList)] : List (Text × Text)).lookup "id".toList =
        some "options".toList := rfl
    have hNot : "options".toList ≠ "ping".toList := by decide
    rw [Served.handle, ClientMessage.toXml, parse_options hBlank]
    simp only [hId, if_neg hNot, hStored, Served.serve]
    split
    · rename_i hSome
      split at hSome
      · cases hSome
        rw [if_pos ‹_›]
      · cases hSome
    · rename_i hNone
      split at hNone
      · cases hNone
      · rw [if_neg ‹_›]

/-- One turn for each message. -/
theorem turnOn_stream (fresh : ℕ → Options) (hBits : 32 ≤ bits) {messages : List (Text × ClientMessage)}
    (h : ∀ m ∈ messages, m.1.all isSpace = true ∧ m.2.Sendable) {t : Served} (hRunning : t.running = true)
    (tail : Bytes) :
    (turnOn bits fresh)^[messages.length] (t, stream messages ++ tail) =
      ((messages.map Prod.snd).foldl Served.serve t, tail) := by
  induction messages generalizing t with
  | nil => rfl
  | cons m messages ih =>
    obtain ⟨hBlank, hSendable⟩ := h m List.mem_cons_self
    have hLater := ih (fun m' hm => h m' (List.mem_cons_of_mem _ hm)) (t := t.serve m.2) (by
      cases m.2 <;> exact hRunning)
    obtain ⟨before, hSplit, hMessage⟩ := splitFirst_message hBlank m.2 (stream messages ++ tail)
    have hStream : stream (m :: messages) ++ tail = m.1 ++ m.2.toXml ++ (stream messages ++ tail) := by
      rw [stream, List.flatMap_cons, List.append_assoc]
      rfl
    have hTurn : turnOn bits fresh (t, stream (m :: messages) ++ tail) =
        (t.serve m.2, stream messages ++ tail) := by
      rw [turnOn, if_pos hRunning, hStream]
      dsimp only
      rw [hSplit]
      dsimp only
      rw [hMessage, handle_message hBits hBlank hSendable]
    rw [List.length_cons, Function.iterate_succ_apply, hTurn, hLater]
    rfl

/-! ### What the messages amount to -/

structure Amounts (messages : List ClientMessage) (t : Served) : Prop where
  options : ∀ sym, t.options.find? sym = (messages.filterMap (·.speed sym)).getLast?
  answers : t.answers = List.replicate (messages.countP ClientMessage.isPing) pongXml
  handled : t.handled = messages.length
  running : t.running = true

theorem serve_options (t : Served) (m : ClientMessage) (sym : Symbol) :
    (t.serve m).options.find? sym = (m.speed sym).or (t.options.find? sym) := by
  cases m with
  | ping => rfl
  | options opts =>
    rw [Served.serve, ClientMessage.speed]
    by_cases hSymbol : opts.symbol = .undefined
    · rw [if_neg (not_not_intro hSymbol), if_neg fun h => h.2 (h.1 ▸ hSymbol), Option.none_or]
    · rw [if_pos hSymbol]
      by_cases hSame : opts.symbol = sym
      · subst hSame
        rw [if_pos ⟨rfl, hSymbol⟩, OrderedMap.find?_put_self, Option.some_or]
      · rw [if_neg fun h => hSame h.1, Option.none_or]
        exact OrderedMap.find?_put_of_ne _ _ (Ne.symm hSame)

theorem serve_answers (t : Served) (m : ClientMessage) :
    (t.serve m).answers = t.answers ++ List.replicate (if m.isPing then 1 else 0) pongXml := by
  cases m with
  | ping => rfl
  | options => exact (List.append_nil _).symm

theorem serve_handled (t : Served) (m : ClientMessage) : (t.serve m).handled = t.handled + 1 := by
  cases m <;> rfl

theorem serve_running (t : Served) (m : ClientMessage) : (t.serve m).running = t.running := by
  cases m <;> rfl

theorem amounts_serve (messages : List ClientMessage) :
    Amounts messages (messages.foldl Served.serve {}) := by
  induction messages using List.reverseRecOn with
  | nil =>
    exact ⟨fun _ => rfl, rfl, rfl, rfl⟩
  | append_singleton messages m ih =>
    rw [List.foldl_append, List.foldl_cons, List.foldl_nil]
    exact {
      options := fun sym => by
        rw [serve_options, ih.options, List.filterMap_append, List.getLast?_append]
        cases hSpeed : m.speed sym <;> simp [hSpeed]
      answers := by
        rw [serve_answers, ih.answers, List.countP_append, List.countP_singleton, List.replicate_add]
      handled := by rw [serve_handled, ih.handled, List.length_append, List.length_singleton]
      running := by rw [serve_running, ih.running] }

/-- A stopped thread does nothing any more. -/
theorem turnOn_stopped {t : Served} (h : t.running = false) (unread : Bytes) (n : ℕ) :
    (turnOn bits fresh)^[n] (t, unread) = (t, unread) := by
  induction n with
  | zero => rfl
  | succ n ih =>
    have hSame : turnOn bits fresh (t, unread) = (t, unread) := by
      rw [turnOn, if_neg (by simp [h])]
    rw [Function.iterate_succ_apply, hSame, ih]

/-- The messages that end the thread. -/
def Malformed (xml : Text) : Prop :=
  ∀ attributes children, (parse xml).bind (child "message".toList) = some (attributes, children) →
    attributes.lookup "id".toList = none

theorem handle_malformed {xml : Text} (h : Malformed xml) (t : Served) :
    t.handle bits fresh xml = { t with running := false } := by
  rw [Served.handle]
  split
  · rfl
  · rename_i attributes children hParse
    rw [h attributes children hParse]

end

/-- However the bytes of pings and options are cut into pieces, each ping is answered and each symbol
gets the speed of the last options that name it; and a malformed message after them ends the
thread, so that nothing behind it counts. -/
theorem client_served (bits : ℕ) (fresh : ℕ → Options) (messages : List (Text × ClientMessage))
    (tail : Bytes) (pieces : List ℕ) (hBits : 32 ≤ bits)
    (hMessages : ∀ m ∈ messages, m.1.all isSpace = true ∧ m.2.Sendable)
    (hPieces : (stream messages ++ tail).length ≤ pieces.length) :
    let s := fun n => (turn bits fresh)^[n] ⟨⟨stream messages ++ tail, pieces⟩, {}⟩
    Amounts (messages.map Prod.snd) (s messages.length).served ∧
      (s messages.length).sock.unread = tail ∧
      ∀ before after n, splitFirst closingTag tail = some (before, after) →
        Malformed (before ++ closingTag) → messages.length < n →
          (s n).served = { (s messages.length).served with running := false } ∧
            (s n).sock.unread = after := by
  intro s
  have hStart : (⟨⟨stream messages ++ tail, pieces⟩, {}⟩ : State).sock.unread.length ≤
      (⟨⟨stream messages ++ tail, pieces⟩, {}⟩ : State).sock.pieces.length := hPieces
  have hServed := turnOn_stream fresh hBits hMessages (t := {}) rfl tail
  have hAll := amounts_serve (messages.map Prod.snd)
  have hEnd := (turns_eq bits fresh hStart messages.length).trans hServed
  obtain ⟨hNow, hUnread⟩ := Prod.mk.inj hEnd
  refine ⟨hNow ▸ hAll, hUnread, ?_⟩
  intro before after n hSplit hMalformed hLater
  obtain ⟨k, rfl⟩ := Nat.exists_eq_add_of_lt hLater
  have hTurns := turns_eq bits fresh hStart (messages.length + k + 1)
  have hTurn : turnOn bits fresh ((messages.map Prod.snd).foldl Served.serve {}, tail) =
      ({ (messages.map Prod.snd).foldl Served.serve {} with running := false }, after) := by
    rw [turnOn, if_pos hAll.running]
    dsimp only
    rw [hSplit]
    dsimp only
    rw [handle_malformed hMalformed]
  have hSum : messages.length + k + 1 = (k + 1) + messages.length := by omega
  have hAfter : (turnOn bits fresh)^[messages.length + k + 1] ({}, stream messages ++ tail) =
      ({ (messages.map Prod.snd).foldl Served.serve {} with running := false }, after) := by
    rw [hSum, Function.iterate_add_apply, hServed, Function.iterate_succ_apply, hTurn, turnOn_stopped rfl]
  obtain ⟨hThen, hLeft⟩ := Prod.mk.inj (hTurns.trans hAfter)
  exact ⟨hThen.trans (by rw [hNow]), hLeft⟩

/-- A ping and options, and then a message without an id. -/
def spoken : List (Text × ClientMessage) := [([], .ping), (['\n'], .options ⟨.eurusd, 50⟩)]

def withoutId : Bytes := "<message></message>".toList

def onePiece : List ℕ := List.replicate 200 256

theorem spoken_served :
    let s := fun n => (turn 32 fun _ => ⟨.undefined, 0⟩)^[n]
      ⟨⟨stream spoken ++ withoutId, onePiece⟩, {}⟩
    Amounts (spoken.map Prod.snd) (s spoken.length).served ∧
      (s spoken.length).sock.unread = withoutId ∧
      ∀ before after n, splitFirst closingTag withoutId = some (before, after) →
        Malformed (before ++ closingTag) → spoken.length < n →
          (s n).served = { (s spoken.length).served with running := false } ∧
            (s n).sock.unread = after :=
  client_served 32 (fun _ => ⟨.undefined, 0⟩) spoken withoutId onePiece le_rfl
    (by simp [spoken, ClientMessage.Sendable, isSpace]) (by decide +kernel)

end Fxquant.Gui.RecvThread
