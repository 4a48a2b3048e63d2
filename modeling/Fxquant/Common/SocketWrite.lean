import Mathlib.Data.Int.Notation
import Mathlib.Data.List.Basic
import Mathlib.Order.Lattice

/-!
# Writing with a timeout

`tcp_socket::write` with a timeout, over the non-blocking `write`, the wait for the socket and the
clock. These answer from outside, each answer as they like after the calls before it; a write that
succeeds has taken some of the bytes it was given. What the network was handed is read off the
calls it answered.
-/

namespace Fxquant.SocketWrite

inductive ErrorCode where
  | success | invalidArgument | invalidSocket | timeout | tooManySockets | alreadyBound
  | alreadyConnected | canceled | networkUnreached | hostUnreached | connectionClosed
  | connectionRefused | noFreePorts | retry | noData | notConnected | bufferTooSmall | unspecified
  deriving DecidableEq, Repr

inductive Written (requested : ℕ) where
  | failed (err : ErrorCode) (isError : err ≠ .success)
  | sent (size : ℕ) (pos : 0 < size) (le : size ≤ requested)

/-- A call that `write` makes, with its answer. -/
inductive Call where
  | waited (timeLeft : ℤ) (err : ErrorCode)
  | wrote (bytes : List UInt8) (answer : Written bytes.length)
  | clock (time : ℤ)

/-- The bytes that the network took in a call. -/
def Call.taken : Call → List UInt8
  | .wrote bytes (.sent size _ _) => bytes.take size
  | _ => []

/-- The answers from outside, after the calls before them. `perMs` are the ticks of the clock in a
millisecond. -/
structure Network where
  waitForWritable : List Call → ℤ → ErrorCode
  write : List Call → (bytes : List UInt8) → Written bytes.length
  now : List Call → ℤ
  perMs : ℤ

/-- Every one of the calls has the answer that the network gives after the calls before it. -/
inductive Network.Answers (net : Network) : List Call → Prop where
  | start : net.Answers []
  | waited {calls : List Call} (timeLeft : ℤ) :
    net.Answers calls → net.Answers (calls ++ [.waited timeLeft (net.waitForWritable calls timeLeft)])
  | wrote {calls : List Call} (bytes : List UInt8) :
    net.Answers calls → net.Answers (calls ++ [.wrote bytes (net.write calls bytes)])
  | clock {calls : List Call} :
    net.Answers calls → net.Answers (calls ++ [.clock (net.now calls)])

/-- The result, `out_size` and the calls that were made, in their order. -/
structure Outcome where
  code : ErrorCode
  outSize : ℕ
  calls : List Call

variable (net : Network) (timeout : ℤ) (buf : List UInt8)

def finish (outSize : ℕ) (calls : List Call) : Outcome :=
  ⟨if outSize < buf.length then .timeout else .success, outSize, calls⟩

/-- The loop of a finite timeout. Every write that succeeds makes it shorter. -/
def writeLoop (timeStart timeLeft : ℤ) (outSize : ℕ) (calls : List Call) : Outcome :=
  let err := net.waitForWritable calls timeLeft
  let calls := calls ++ [.waited timeLeft err]
  if err ≠ .success then finish buf outSize calls
  else
    let bytes := buf.drop outSize
    match net.write calls bytes with
    | .failed err isError => ⟨err, outSize, calls ++ [.wrote bytes (.failed err isError)]⟩
    | .sent size pos le =>
      let calls := calls ++ [.wrote bytes (.sent size pos le)]
      if buf.length ≤ outSize + size then finish buf (outSize + size) calls
      else
        let timeNow := net.now calls
        let calls := calls ++ [.clock timeNow]
        if timeout * net.perMs ≤ timeNow - timeStart then finish buf (outSize + size) calls
        else
          writeLoop timeStart ((timeout * net.perMs - (timeNow - timeStart)).tdiv net.perMs)
            (outSize + size) calls
termination_by buf.length - outSize

/-- `badSocket` is a socket that was closed, or never opened. -/
def write (badSocket : Bool) : Outcome :=
  if badSocket then ⟨.invalidSocket, 0, []⟩
  else if buf = [] then ⟨.invalidArgument, 0, []⟩
  else if timeout = 0 then
    match net.write [] buf with
    | .failed err isError => ⟨err, 0, [.wrote buf (.failed err isError)]⟩
    | .sent size pos le => finish buf size [.wrote buf (.sent size pos le)]
  else
    let timeStart := net.now []
    writeLoop net timeout buf timeStart timeout 0 [.clock timeStart]

/-- Why a write ends with an error, read off its last call. -/
inductive Stops (badSocket : Bool) : ErrorCode → List Call → Prop where
  | invalidSocket : badSocket = true → Stops badSocket .invalidSocket []
  | writeFailed (calls : List Call) (bytes : List UInt8) {err : ErrorCode}
      (isError : err ≠ .success) : Stops badSocket err (calls ++ [.wrote bytes (.failed err isError)])
  | waitFailed (calls : List Call) (timeLeft : ℤ) {err : ErrorCode} :
    err ≠ .success → Stops badSocket .timeout (calls ++ [.waited timeLeft err])
  | noTimeout {answer : Written buf.length} :
    timeout = 0 → Stops badSocket .timeout [.wrote buf answer]
  | timeOver (calls : List Call) {timeStart timeNow : ℤ} :
    timeout * net.perMs ≤ timeNow - timeStart →
      Stops badSocket .timeout (.clock timeStart :: calls ++ [.clock timeNow])

/-- The network has taken the first `outSize` bytes, and all of them if that is a success; an error
is what the last of the calls came to. -/
structure Outcome.LosesNothing (badSocket : Bool) (r : Outcome) : Prop where
  answered : net.Answers r.calls
  taken : r.calls.flatMap Call.taken = buf.take r.outSize
  outSize_le : r.outSize ≤ buf.length
  success_iff : r.code = .success ↔ r.outSize = buf.length
  stops : r.code ≠ .success → Stops net timeout buf badSocket r.code r.calls

/-- In the loop the clock was read first, and the network has taken what is counted. -/
structure Writing (timeStart : ℤ) (outSize : ℕ) (calls : List Call) : Prop where
  answered : net.Answers calls
  taken : calls.flatMap Call.taken = buf.take outSize
  clock_first : ∃ rest, calls = .clock timeStart :: rest

variable {net timeout buf} {badSocket : Bool} {timeStart : ℤ} {outSize : ℕ} {calls : List Call}

theorem finish_losesNothing (hAnswered : net.Answers calls)
    (hTaken : calls.flatMap Call.taken = buf.take outSize) (hLe : outSize ≤ buf.length)
    (hStops : outSize < buf.length → Stops net timeout buf badSocket .timeout calls) :
    (finish buf outSize calls).LosesNothing net timeout buf badSocket where
  answered := hAnswered
  taken := hTaken
  outSize_le := hLe
  success_iff := by
    rw [finish]
    dsimp only
    split
    · constructor
      · exact nofun
      · omega
    · constructor
      · omega
      · exact fun _ => rfl
  stops hCode := by
    rw [finish] at hCode ⊢
    dsimp only at hCode ⊢
    split
    · rename_i hLt
      exact hStops hLt
    · rename_i hAll
      rw [if_neg hAll] at hCode
      exact absurd rfl hCode

theorem failed_losesNothing {err : ErrorCode} (hAnswered : net.Answers calls)
    (hTaken : calls.flatMap Call.taken = buf.take outSize) (hLt : outSize < buf.length)
    (hErr : err ≠ .success) (hStops : Stops net timeout buf badSocket err calls) :
    (⟨err, outSize, calls⟩ : Outcome).LosesNothing net timeout buf badSocket where
  answered := hAnswered
  taken := hTaken
  outSize_le := hLt.le
  success_iff := by
    constructor
    · exact fun hCode => absurd hCode hErr
    · exact fun hAll => absurd hAll hLt.ne
  stops _ := hStops

namespace Writing

/-- One more call, which takes the bytes between the two counts. -/
theorem call (h : Writing net buf timeStart outSize calls) {call : Call} {outSize' : ℕ}
    (hAnswered : net.Answers (calls ++ [call]))
    (hTaken : buf.take outSize ++ call.taken = buf.take outSize') :
    Writing net buf timeStart outSize' (calls ++ [call]) where
  answered := hAnswered
  taken := by rw [List.flatMap_append, h.taken, List.flatMap_singleton, hTaken]
  clock_first := by
    obtain ⟨rest, rfl⟩ := h.clock_first
    exact ⟨_, rfl⟩

theorem waited (h : Writing net buf timeStart outSize calls) (timeLeft : ℤ) :
    Writing net buf timeStart outSize
      (calls ++ [.waited timeLeft (net.waitForWritable calls timeLeft)]) :=
  h.call (h.answered.waited timeLeft) (List.append_nil _)

theorem clock (h : Writing net buf timeStart outSize calls) :
    Writing net buf timeStart outSize (calls ++ [.clock (net.now calls)]) :=
  h.call h.answered.clock (List.append_nil _)

theorem failed (h : Writing net buf timeStart outSize calls) {bytes : List UInt8} {err : ErrorCode}
    {isError : err ≠ .success} (hWrite : net.write calls bytes = .failed err isError) :
    Writing net buf timeStart outSize (calls ++ [.wrote bytes (.failed err isError)]) :=
  h.call (hWrite ▸ h.answered.wrote bytes) (List.append_nil _)

/-- The next piece begins where the ones before it end. -/
theorem sent (h : Writing net buf timeStart outSize calls) {size : ℕ} {pos : 0 < size}
    {le : size ≤ (buf.drop outSize).length}
    (hWrite : net.write calls (buf.drop outSize) = .sent size pos le) :
    Writing net buf timeStart (outSize + size)
      (calls ++ [.wrote (buf.drop outSize) (.sent size pos le)]) :=
  h.call (hWrite ▸ h.answered.wrote (buf.drop outSize)) List.take_add.symm

end Writing

theorem writeLoop_losesNothing (timeLeft : ℤ) (h : Writing net buf timeStart outSize calls)
    (hLt : outSize < buf.length) :
    (writeLoop net timeout buf timeStart timeLeft outSize calls).LosesNothing net timeout buf
      badSocket := by
  fun_induction writeLoop net timeout buf timeStart timeLeft outSize calls with
  | case1 timeLeft outSize calls err calls' hWait =>
    have hWaited := h.waited timeLeft
    exact finish_losesNothing hWaited.answered hWaited.taken hLt.le
      fun _ => .waitFailed calls timeLeft hWait
  | case2 timeLeft outSize calls wait calls' hWait bytes err isError hWrite =>
    have hFailed := (h.waited timeLeft).failed hWrite
    exact failed_losesNothing hFailed.answered hFailed.taken hLt isError
      (.writeFailed _ _ isError)
  | case3 timeLeft outSize calls wait calls' hWait bytes size pos le hWrite calls'' hDone =>
    have hSent := (h.waited timeLeft).sent hWrite
    have hSize : size ≤ buf.length - outSize := by rwa [List.length_drop] at le
    exact finish_losesNothing hSent.answered hSent.taken (by omega) (by omega)
  | case4 timeLeft outSize calls wait calls' hWait bytes size pos le hWrite calls'' hMore timeNow
      calls''' hSpent =>
    have hClock := ((h.waited timeLeft).sent hWrite).clock
    obtain ⟨rest, hRest⟩ := ((h.waited timeLeft).sent hWrite).clock_first
    refine finish_losesNothing hClock.answered hClock.taken (by omega) fun _ => ?_
    have hCalls : calls''' = .clock timeStart :: rest ++ [.clock timeNow] :=
      congrArg (fun c => c ++ [Call.clock timeNow]) hRest
    rw [hCalls]
    exact .timeOver rest hSpent
  | case5 timeLeft outSize calls wait calls' hWait bytes size pos le hWrite calls'' hMore timeNow
      calls''' hLeft ih =>
    exact ih ((h.waited timeLeft).sent hWrite).clock (by omega)

variable (net timeout badSocket)

/-- Partial writes lose nothing, with a bad socket and without a timeout as well. -/
theorem write_losesNothing (h : buf ≠ []) :
    (write net timeout buf badSocket).LosesNothing net timeout buf badSocket := by
  have hPos : 0 < buf.length := List.length_pos_of_ne_nil h
  rw [write]
  split
  · rename_i hBad
    exact failed_losesNothing .start rfl hPos nofun (.invalidSocket hBad)
  · have hWrote := (Network.Answers.start : net.Answers []).wrote buf
    split
    · rename_i hTimeout
      split
      · rename_i err isError hWrite
        rw [List.nil_append, hWrite] at hWrote
        exact failed_losesNothing hWrote rfl hPos isError (.writeFailed [] buf isError)
      · rename_i size pos le hWrite
        rw [List.nil_append, hWrite] at hWrote
        refine finish_losesNothing hWrote ?_ le fun _ => .noTimeout hTimeout
        rw [List.flatMap_singleton, Call.taken]
    · refine writeLoop_losesNothing timeout ?_ hPos
      exact { answered := Network.Answers.start.clock, taken := rfl, clock_first := ⟨[], rfl⟩ }

/-- A network that takes two bytes at a time, and a clock that stands still. -/
def twoAtATime : Network where
  waitForWritable _ _ := .success
  write _ bytes :=
    if h : 0 < bytes.length then .sent (min 2 bytes.length) (by omega) (Nat.min_le_right _ _)
    else .failed .unspecified nofun
  now _ := 0
  perMs := 10000

/-- Five bytes are taken in three pieces. -/
theorem five_bytes_written :
    (write twoAtATime 4000 [1, 2, 3, 4, 5] false).LosesNothing twoAtATime 4000 [1, 2, 3, 4, 5]
        false ∧
      (write twoAtATime 4000 [1, 2, 3, 4, 5] false).code = .success ∧
      (write twoAtATime 4000 [1, 2, 3, 4, 5] false).calls.flatMap Call.taken = [1, 2, 3, 4, 5] := by
  refine ⟨write_losesNothing twoAtATime 4000 false (by decide), ?_, ?_⟩
  · simp [write, writeLoop, finish, twoAtATime]
  · simp [write, writeLoop, finish, twoAtATime, Call.taken]

end Fxquant.SocketWrite
