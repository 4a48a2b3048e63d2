import Fxquant.Library.Scanning

/-!
# The messages of a client

`gui_context::receive_message` on the bytes of a stream, which the socket hands out in pieces. A
message ends with its closing tag; what a peek returns past the tag is left in the socket.
-/

namespace Fxquant.Gui.Receiving

open Scanning

abbrev Bytes := List Char

def closingTag : Bytes := ['<', '/', 'm', 'e', 's', 's', 'a', 'g', 'e', '>']

/-- The bytes that are still in the socket, and how many of them the next peeks would like to
return: a peek returns some bytes, no more than its buffer holds. -/
structure Socket where
  unread : Bytes
  pieces : List ℕ
  deriving DecidableEq, Repr

/-- `xml.find`, the position of the first occurrence. -/
def find (tag xml : Bytes) : Option ℕ := (splitFirst tag xml).map fun split => split.1.length

def peek (unread : Bytes) (piece : ℕ) : Bytes := unread.take (max 1 (min piece 256))

/-- `tcp_socket::read` with a timeout of zero: an empty buffer is an invalid argument, and fewer
bytes than asked for are a timeout. -/
def read (unread : Bytes) (size : ℕ) : Option Bytes :=
  if size = 0 ∨ unread.length < size then none else some (unread.drop size)

/-- How a call ends: with a message, with the context aborted, with the failed assertion, or not at
all as long as no more bytes arrive. -/
inductive Outcome where
  | received (xml : Bytes)
  | aborted
  | assertionFailed
  | waiting
  deriving DecidableEq, Repr

/-- The loop of `receive_message`, with what it has read of the message. -/
def receiveLoop (xml unread : Bytes) : List ℕ → Outcome × Socket
  | [] => (.waiting, ⟨unread, []⟩)
  | piece :: pieces =>
    if unread = [] then (.waiting, ⟨unread, piece :: pieces⟩)
    else
      let buf := peek unread piece
      let xml := xml ++ buf
      match find closingTag xml with
      | some i =>
        let tailSize := xml.length - (i + closingTag.length)
        if buf.length < tailSize then (.assertionFailed, ⟨unread, pieces⟩)
        else
          match read unread (buf.length - tailSize) with
          | some unread => (.received (xml.take (xml.length - tailSize)), ⟨unread, pieces⟩)
          | none => (.aborted, ⟨unread, pieces⟩)
      | none =>
        -- The result of this `read` is not looked at.
        receiveLoop xml ((read unread buf.length).getD unread) pieces

def receiveMessage (sock : Socket) : Outcome × Socket := receiveLoop [] sock.unread sock.pieces

/-- The messages of `k` calls that all succeed, and the socket after them. -/
def receiveMessages : ℕ → Socket → Option (List Bytes × Socket)
  | 0, sock => some ([], sock)
  | k + 1, sock =>
    match receiveMessages k sock with
    | some (messages, sock) =>
      match receiveMessage sock with
      | (.received xml, sock) => some (messages ++ [xml], sock)
      | _ => none
    | none => none

/-- The end of the `k`-th occurrence of the closing tag, each looked for after the one before. -/
def tagEnd (stream : Bytes) : ℕ → Option ℕ
  | 0 => some 0
  | k + 1 =>
    match tagEnd stream k with
    | some e => (find closingTag (stream.drop e)).map fun i => e + i + closingTag.length
    | none => none

theorem exists_peek (unread : Bytes) (piece : ℕ) (h : unread ≠ []) :
    ∃ rest, unread = peek unread piece ++ rest ∧ 0 < (peek unread piece).length := by
  refine ⟨unread.drop (max 1 (min piece 256)), (List.take_append_drop _ _).symm, ?_⟩
  have hPos : 0 < unread.length := List.length_pos_iff.mpr h
  rw [peek, List.length_take]
  omega

theorem find_eq {tag xml before after : Bytes} (h : splitFirst tag xml = some (before, after)) :
    find tag xml = some before.length := by
  rw [find, h]
  rfl

theorem find_eq_none {tag xml : Bytes} (h : splitFirst tag xml = none) : find tag xml = none := by
  rw [find, h]
  rfl

theorem read_of_eq {unread buf rest : Bytes} (hUnread : unread = buf ++ rest) (hPos : 0 < buf.length) :
    read unread buf.length = some rest := by
  subst hUnread
  rw [read, if_neg, List.drop_left]
  rw [List.length_append]
  omega

/-- A peek that completes a message: the assertion holds, what follows the closing tag stays in the
socket, and at least one byte is taken from it. -/
theorem receiveLoop_of_found {xml unread before after rest : Bytes} {piece : ℕ} (pieces : List ℕ)
    (hUnread : unread = peek unread piece ++ rest) (hNone : splitFirst closingTag xml = none)
    (hFound : splitFirst closingTag (xml ++ peek unread piece) = some (before, after)) :
    receiveLoop xml unread (piece :: pieces) =
        (.received (before ++ closingTag), ⟨after ++ rest, pieces⟩) ∧
      (after ++ rest).length < unread.length := by
  have hLt := length_lt_of_splitFirst hNone hFound
  have hEq := splitFirst_eq_some hFound
  have hNe : unread ≠ [] := by
    rintro rfl
    simp [peek] at hLt
  obtain ⟨front, hFront⟩ : after <:+ peek unread piece :=
    List.suffix_of_suffix_length_le ⟨before ++ closingTag, hEq.symm⟩ (List.suffix_append _ _) hLt.le
  have hSize : (peek unread piece).length = front.length + after.length := by
    rw [← hFront, List.length_append]
  have hTail : (xml ++ peek unread piece).length - (before.length + closingTag.length) = after.length := by
    rw [hEq, List.length_append, List.length_append]
    omega
  have hMessage : (xml ++ peek unread piece).take ((xml ++ peek unread piece).length - after.length) =
      before ++ closingTag := by
    rw [hEq, List.length_append, Nat.add_sub_cancel, List.take_left]
  have hRead : read unread ((peek unread piece).length - after.length) = some (after ++ rest) := by
    have hSplit : unread = front ++ (after ++ rest) := by
      rw [← List.append_assoc, hFront]
      exact hUnread
    rw [hSize, Nat.add_sub_cancel]
    exact read_of_eq hSplit (by omega)
  constructor
  · rw [receiveLoop, if_neg hNe]
    simp only [find_eq hFound, hTail, if_neg hLt.le.not_gt, hRead, hMessage]
  · rw [hUnread, List.length_append, List.length_append]
    omega

/-- A peek that completes no message is taken from the socket. -/
theorem receiveLoop_of_not_found {xml unread rest : Bytes} {piece : ℕ} (pieces : List ℕ)
    (hUnread : unread = peek unread piece ++ rest) (hPos : 0 < (peek unread piece).length)
    (hNotFound : splitFirst closingTag (xml ++ peek unread piece) = none) :
    receiveLoop xml unread (piece :: pieces) = receiveLoop (xml ++ peek unread piece) rest pieces := by
  have hNe : unread ≠ [] := by
    rintro rfl
    simp [peek] at hPos
  have hRead : read unread (peek unread piece).length = some rest := read_of_eq hUnread hPos
  rw [receiveLoop, if_neg hNe]
  simp only [find_eq_none hNotFound, hRead, Option.getD_some]

/-- How a call goes on is told by the bytes it has read and those in the socket: up to the first
closing tag, if one comes, and never to an abort or the assertion. With a piece for each byte it
does not wait for a tag that is there. -/
theorem receiveLoop_spec {xml unread : Bytes} (hNone : splitFirst closingTag xml = none)
    (pieces : List ℕ) :
    (∃ before after rest, splitFirst closingTag (xml ++ unread) = some (before, after) ∧
        receiveLoop xml unread pieces = (.received (before ++ closingTag), ⟨after, rest⟩) ∧
        (unread.length ≤ pieces.length → after.length ≤ rest.length)) ∨
      (∃ sock, receiveLoop xml unread pieces = (.waiting, sock) ∧
        (unread.length ≤ pieces.length → splitFirst closingTag (xml ++ unread) = none)) := by
  induction pieces generalizing xml unread with
  | nil =>
    right
    refine ⟨_, rfl, fun hLength => ?_⟩
    rw [List.length_eq_zero_iff.mp (Nat.le_zero.mp hLength), List.append_nil]
    exact hNone
  | cons piece pieces ih =>
    by_cases hUnread : unread = []
    · subst hUnread
      right
      refine ⟨⟨[], piece :: pieces⟩, by simp [receiveLoop], fun _ => ?_⟩
      rwa [List.append_nil]
    · obtain ⟨rest, hRest, hPos⟩ := exists_peek unread piece hUnread
      have hBytes : xml ++ unread = xml ++ peek unread piece ++ rest := by
        rw [List.append_assoc, ← hRest]
      cases hFound : splitFirst closingTag (xml ++ peek unread piece) with
      | some split =>
        obtain ⟨before, after⟩ := split
        obtain ⟨hLoop, hLess⟩ := receiveLoop_of_found pieces hRest hNone hFound
        left
        refine ⟨before, after ++ rest, pieces, ?_, hLoop, fun hLength => ?_⟩
        · rw [hBytes]
          exact splitFirst_append hFound rest
        · rw [List.length_cons] at hLength
          omega
      | none =>
        have hLess : rest.length < unread.length := by
          rw [hRest, List.length_append]
          omega
        rw [receiveLoop_of_not_found pieces hRest hPos hFound, hBytes, List.length_cons]
        rcases ih hFound with ⟨before, after, left, hSplit, hLoop, hEnough⟩ | ⟨sock, hLoop, hEnough⟩
        · exact .inl ⟨before, after, left, hSplit, hLoop, fun hLength => hEnough (by omega)⟩
        · exact .inr ⟨sock, hLoop, fun hLength => hEnough (by omega)⟩

theorem receiveMessage_spec (sock : Socket) :
    (∃ before after rest, splitFirst closingTag sock.unread = some (before, after) ∧
        receiveMessage sock = (.received (before ++ closingTag), ⟨after, rest⟩) ∧
        (sock.unread.length ≤ sock.pieces.length → after.length ≤ rest.length)) ∨
      (∃ sock', receiveMessage sock = (.waiting, sock') ∧
        (sock.unread.length ≤ sock.pieces.length → splitFirst closingTag sock.unread = none)) :=
  receiveLoop_spec (show splitFirst closingTag [] = none from rfl) sock.pieces

theorem tagEnd_succ {stream before after : Bytes} {k e : ℕ} (hEnd : tagEnd stream k = some e)
    (h : splitFirst closingTag (stream.drop e) = some (before, after)) :
    tagEnd stream (k + 1) = some (e + (before ++ closingTag).length) := by
  rw [tagEnd, hEnd]
  simp only [find_eq h, Option.map_some, List.length_append, Nat.add_assoc]

/-- Some calls have cut off the messages that the closing tags delimit, and nothing else. -/
structure Framed (stream : Bytes) (k : ℕ) (messages : List Bytes) (unread : Bytes) : Prop where
  length : messages.length = k
  rest : ∃ e, tagEnd stream k = some e ∧ unread = stream.drop e
  slices : ∀ j < k, ∃ b e, tagEnd stream j = some b ∧ tagEnd stream (j + 1) = some e ∧
    messages[j]? = some ((stream.drop b).take (e - b))
  flatten : messages.flatten ++ unread = stream

theorem framed_zero (stream : Bytes) : Framed stream 0 [] stream where
  length := rfl
  rest := ⟨0, rfl, rfl⟩
  slices j hj := absurd hj (Nat.not_lt_zero j)
  flatten := rfl

theorem Framed.received {stream unread before after : Bytes} {k : ℕ} {messages : List Bytes}
    (h : Framed stream k messages unread) (hSplit : splitFirst closingTag unread = some (before, after)) :
    Framed stream (k + 1) (messages ++ [before ++ closingTag]) after := by
  obtain ⟨e, hEnd, rfl⟩ := h.rest
  have hNext := tagEnd_succ hEnd hSplit
  have hUnread : stream.drop e = before ++ closingTag ++ after := splitFirst_eq_some hSplit
  constructor
  case length => rw [List.length_append, h.length, List.length_singleton]
  case rest =>
    refine ⟨_, hNext, ?_⟩
    rw [← List.drop_drop, hUnread, List.drop_left]
  case slices =>
    intro j hj
    rcases Nat.lt_succ_iff_lt_or_eq.mp hj with hj | rfl
    · rw [List.getElem?_append_left (h.length ▸ hj)]
      exact h.slices j hj
    · refine ⟨e, _, hEnd, hNext, ?_⟩
      rw [Nat.add_sub_cancel_left, hUnread, List.take_left, List.getElem?_append_right h.length.le,
        h.length, Nat.sub_self]
      rfl
  case flatten =>
    rw [List.flatten_append, List.flatten_singleton, List.append_assoc, ← hUnread]
    exact h.flatten

theorem framed_receiveMessages {stream : Bytes} {pieces : List ℕ} {k : ℕ} {messages : List Bytes}
    {sock : Socket} (h : receiveMessages k ⟨stream, pieces⟩ = some (messages, sock)) :
    Framed stream k messages sock.unread := by
  induction k generalizing messages sock with
  | zero =>
    cases h
    exact framed_zero stream
  | succ k ih =>
    rw [receiveMessages] at h
    cases hBefore : receiveMessages k ⟨stream, pieces⟩ with
    | none => simp [hBefore] at h
    | some result =>
      obtain ⟨messages', sock'⟩ := result
      rw [hBefore] at h
      rcases receiveMessage_spec sock' with ⟨before, after, rest, hSplit, hCall, _⟩ | ⟨_, hCall, _⟩
      · simp only [hCall, Option.some.injEq, Prod.mk.injEq] at h
        obtain ⟨rfl, rfl⟩ := h
        exact (ih hBefore).received hSplit
      · simp [hCall] at h

/-- With a piece for each byte of the stream, a call succeeds for every closing tag. -/
theorem receiveMessages_of_tagEnd {stream : Bytes} {pieces : List ℕ} {k : ℕ}
    (hPieces : stream.length ≤ pieces.length) (hEnd : (tagEnd stream k).isSome = true) :
    ∃ messages sock, receiveMessages k ⟨stream, pieces⟩ = some (messages, sock) ∧
      sock.unread.length ≤ sock.pieces.length := by
  induction k with
  | zero => exact ⟨[], _, rfl, hPieces⟩
  | succ k ih =>
    rw [tagEnd] at hEnd
    cases hBefore : tagEnd stream k with
    | none => simp [hBefore] at hEnd
    | some e =>
      obtain ⟨messages, sock, hCalls, hEnough⟩ := ih (by rw [hBefore]; rfl)
      obtain ⟨e', hEnd', hUnread⟩ := (framed_receiveMessages hCalls).rest
      obtain rfl : e = e' := Option.some.inj (hBefore.symm.trans hEnd')
      rw [receiveMessages, hCalls]
      rcases receiveMessage_spec sock with ⟨before, after, rest, _, hCall, hRest⟩ | ⟨_, _, hNone⟩
      · exact ⟨messages ++ [before ++ closingTag], ⟨after, rest⟩, by simp only [hCall], hRest hEnough⟩
      · have hNotFound := find_eq_none (hNone hEnough)
        rw [hUnread] at hNotFound
        simp [hBefore, hNotFound] at hEnd

/-- However a stream is cut into pieces, the calls that succeed return the bytes between the ends of
its closing tags, in their order, and leave what comes after in the socket; the next call waits for
more bytes or returns the next message, and does so for every closing tag that has come. -/
theorem receive_frames (stream : Bytes) (pieces : List ℕ) (k : ℕ) :
    (∀ messages sock, receiveMessages k ⟨stream, pieces⟩ = some (messages, sock) →
      Framed stream k messages sock.unread ∧
        (receiveMessage sock).1 ≠ .assertionFailed ∧ (receiveMessage sock).1 ≠ .aborted) ∧
      (stream.length ≤ pieces.length → (tagEnd stream k).isSome = true →
        (receiveMessages k ⟨stream, pieces⟩).isSome = true) := by
  constructor
  · intro messages sock hCalls
    refine ⟨framed_receiveMessages hCalls, ?_⟩
    rcases receiveMessage_spec sock with ⟨_, _, _, _, hCall, _⟩ | ⟨_, hCall, _⟩
    · rw [hCall]
      exact ⟨nofun, nofun⟩
    · rw [hCall]
      exact ⟨nofun, nofun⟩
  · intro hPieces hEnd
    obtain ⟨messages, sock, hCalls, _⟩ := receiveMessages_of_tagEnd hPieces hEnd
    rw [hCalls]
    rfl

end Fxquant.Gui.Receiving
