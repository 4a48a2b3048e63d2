import Fxquant.Engine.BarCollector

/-!
# Ranges of bars

The readers of `bar_collector.cpp` that take a start and a count. `get_bars` and `get_bar_data` add
the two as 64-bit numbers before they compare the sum with the size of the vector.
-/

namespace Fxquant

open Feeder

inductive BarField where
  | o | h | l | c | t
  deriving DecidableEq, Repr

/-- The `switch` of `get_bar_data`; the time is not one of its fields. -/
def BarField.read? : BarField → Option (BarData → ℚ)
  | .c => some BarData.c
  | .o => some BarData.o
  | .h => some BarData.h
  | .l => some BarData.l
  | .t => none

/-- What a reader answers, and the vector it leaves to the caller; `invalid` is an access outside
the vector, or the exception for a length that no vector has. -/
inductive Reading (α : Type) where
  | answers (success : Bool) (out : List α)
  | invalid
  deriving DecidableEq, Repr

def Reading.ofOption {α : Type} : Option (List α) → Reading α
  | some out => .answers true out
  | none => .answers false []

/-- `out.assign(v.begin() + first, v.begin() + last)`. -/
def assign {α : Type} (v : List α) (first last : ℕ) : Reading α :=
  if first ≤ last ∧ last ≤ v.length then .answers true ((v.drop first).take (last - first))
  else .invalid

/-- The loop that walks `count` entries of the result and of the vector in step. -/
def readFields (field : BarData → ℚ) (v : List BarData) : ℕ → ℕ → Option (List ℚ)
  | _, 0 => some []
  | pos, count + 1 =>
    match v[pos]? with
    | some bar => (readFields field v (pos + 1) count).map (field bar :: ·)
    | none => none

namespace BarCollector

variable (bc : BarCollector) (timeFrame : ℕ)

/-- `get_bars` with a range. -/
def getBarsRange (startIndex count : UInt64) : Reading BarData :=
  match bc.bars.find? timeFrame with
  | some v =>
    if (startIndex + count).toNat ≤ v.length then
      assign v startIndex.toNat (startIndex + count).toNat
    else .answers false []
  | none => .answers false []

def getBarData (field : BarField) (startIndex count : UInt64) : Reading ℚ :=
  match field.read?, bc.bars.find? timeFrame with
  | some read, some v =>
    if v.length < (startIndex + count).toNat then .answers false []
    else
      match readFields read v startIndex.toNat count.toNat with
      | some data => .answers true data
      | none => .invalid
  | _, _ => .answers false []

def after (calls : List (ℕ × BarData)) : BarCollector :=
  calls.foldl (fun bc call => bc.putBar call.1 call.2) {}

def stored (calls : List (ℕ × BarData)) : List BarData :=
  (calls.filter fun call => call.1 == timeFrame).map Prod.snd

/-- The three readers of a range are right about it. -/
structure ReadsExactly (v : List BarData) (startIndex count : UInt64) : Prop where
  bars : bc.getBarsRange timeFrame startIndex count =
    if startIndex.toNat + count.toNat ≤ v.length then
      .answers true ((v.drop startIndex.toNat).take count.toNat)
    else .answers false []
  data : ∀ field read, field.read? = some read → bc.getBarData timeFrame field startIndex count =
    if startIndex.toNat + count.toNat ≤ v.length then
      .answers true (((v.drop startIndex.toNat).take count.toNat).map read)
    else .answers false []
  lastBars : Reading.ofOption (bc.getLastBars timeFrame count.toNat) =
    if count.toNat ≤ v.length then .answers true (v.drop (v.length - count.toNat))
    else .answers false []

/-- The sum does not wrap around, or wraps around to a number beyond the stored bars. -/
def RangeFits (v : List BarData) (startIndex count : UInt64) : Prop :=
  startIndex.toNat + count.toNat < 2 ^ 64 ∨ v.length < (startIndex + count).toNat

/-! ### What is stored -/

theorem getBars_after (calls : List (ℕ × BarData)) :
    (after calls).getBars timeFrame = stored timeFrame calls := by
  induction calls using List.reverseRecOn with
  | nil => rfl
  | append_singleton calls call ih =>
    rw [after, List.foldl_append, List.foldl_cons, List.foldl_nil, ← after, stored,
      List.filter_append, List.map_append, ← stored]
    by_cases hFrame : call.1 = timeFrame
    · rw [hFrame, getBars_putBar, ih, List.filter_singleton, hFrame, beq_self_eq_true]
      rfl
    · rw [getBars_putBar_of_ne _ hFrame, ih, List.filter_singleton, beq_false_of_ne hFrame]
      exact (List.append_nil _).symm

theorem find?_after {calls : List (ℕ × BarData)} (h : stored timeFrame calls ≠ []) :
    (after calls).bars.find? timeFrame = some (stored timeFrame calls) := by
  have hBars := getBars_after timeFrame calls
  rw [getBars] at hBars
  cases hFind : (after calls).bars.find? timeFrame with
  | none =>
    rw [hFind] at hBars
    exact absurd hBars.symm h
  | some v =>
    rw [hFind] at hBars
    exact congrArg some hBars

/-! ### Slices -/

theorem readFields_eq (field : BarData → ℚ) (v : List BarData) {pos count : ℕ}
    (h : pos + count ≤ v.length) :
    readFields field v pos count = some (((v.drop pos).take count).map field) := by
  induction count generalizing pos with
  | zero => simp [readFields]
  | succ count ih =>
    have hLt : pos < v.length := by omega
    have hRest : pos + 1 + count ≤ v.length := by omega
    rw [readFields, List.getElem?_eq_getElem hLt, ih hRest, List.drop_eq_getElem_cons hLt]
    rfl

theorem assign_eq {α : Type} (v : List α) {first count : ℕ} (h : first + count ≤ v.length) :
    assign v first (first + count) = .answers true ((v.drop first).take count) := by
  rw [assign, if_pos ⟨Nat.le_add_right _ _, h⟩, Nat.add_sub_cancel_left]

/-- A range whose end has wrapped around starts after it. -/
theorem assign_of_lt {α : Type} (v : List α) {first last : ℕ} (h : last < first) :
    assign v first last = .invalid := by
  rw [assign, if_neg (fun hRange => hRange.1.not_gt h)]

/-! ### The readers -/

theorem getBarsRange_after {calls : List (ℕ × BarData)} (h : stored timeFrame calls ≠ [])
    (startIndex count : UInt64) : (after calls).getBarsRange timeFrame startIndex count =
      if (startIndex + count).toNat ≤ (stored timeFrame calls).length then
        assign (stored timeFrame calls) startIndex.toNat (startIndex + count).toNat
      else .answers false [] := by
  rw [getBarsRange, find?_after timeFrame h]

theorem getBarData_after {calls : List (ℕ × BarData)} (h : stored timeFrame calls ≠ [])
    {field : BarField} {read : BarData → ℚ} (hField : field.read? = some read)
    (startIndex count : UInt64) : (after calls).getBarData timeFrame field startIndex count =
      if (stored timeFrame calls).length < (startIndex + count).toNat then .answers false []
      else
        match readFields read (stored timeFrame calls) startIndex.toNat count.toNat with
        | some data => .answers true data
        | none => .invalid := by
  rw [getBarData, find?_after timeFrame h, hField]

theorem getLastBars_after {calls : List (ℕ × BarData)} (h : stored timeFrame calls ≠ [])
    (count : ℕ) : Reading.ofOption ((after calls).getLastBars timeFrame count) =
      if count ≤ (stored timeFrame calls).length then
        .answers true ((stored timeFrame calls).drop ((stored timeFrame calls).length - count))
      else .answers false [] := by
  rw [getLastBars, find?_after timeFrame h]
  dsimp only
  split
  · rfl
  · rfl

theorem readsExactly_of_sum {calls : List (ℕ × BarData)} (h : stored timeFrame calls ≠ [])
    {startIndex count : UInt64} (hSum : startIndex.toNat + count.toNat < 2 ^ 64) :
    (after calls).ReadsExactly timeFrame (stored timeFrame calls) startIndex count := by
  have hAdd : (startIndex + count).toNat = startIndex.toNat + count.toNat := by
    rw [UInt64.toNat_add, Nat.mod_eq_of_lt hSum]
  constructor
  case bars =>
    rw [getBarsRange_after timeFrame h, hAdd]
    split
    · rename_i hLe
      exact assign_eq _ hLe
    · rfl
  case data =>
    intro field read hField
    rw [getBarData_after timeFrame h hField, hAdd]
    split
    · rename_i hLt
      rw [if_neg hLt.not_ge]
    · rename_i hLe
      rw [readFields_eq read _ (not_lt.mp hLe), if_pos (not_lt.mp hLe)]
  case lastBars => exact getLastBars_after timeFrame h count.toNat

/-- A sum that wraps around to a number beyond the stored bars is taken for out of range, as the sum
itself is. -/
theorem readsExactly_of_lt {calls : List (ℕ × BarData)} (h : stored timeFrame calls ≠ [])
    {startIndex count : UInt64}
    (hLt : (stored timeFrame calls).length < (startIndex + count).toNat) :
    (after calls).ReadsExactly timeFrame (stored timeFrame calls) startIndex count := by
  have hSum : (stored timeFrame calls).length < startIndex.toNat + count.toNat := by
    rw [UInt64.toNat_add] at hLt
    exact hLt.trans_le (Nat.mod_le _ _)
  constructor
  case bars => rw [getBarsRange_after timeFrame h, if_neg hLt.not_ge, if_neg hSum.not_ge]
  case data =>
    intro field read hField
    rw [getBarData_after timeFrame h hField, if_pos hLt, if_neg hSum.not_ge]
  case lastBars => exact getLastBars_after timeFrame h count.toNat

/-- The readers of a range are exact unless its end wraps around into the stored bars. -/
theorem range_reads_exact_iff {calls : List (ℕ × BarData)} (h : stored timeFrame calls ≠ [])
    (startIndex count : UInt64) :
    (after calls).ReadsExactly timeFrame (stored timeFrame calls) startIndex count ↔
      RangeFits (stored timeFrame calls) startIndex count := by
  constructor
  · intro hReads
    by_contra hWraps
    obtain ⟨hSum, hLe⟩ := not_or.mp hWraps
    have hWrapped : (startIndex + count).toNat < startIndex.toNat := by
      have hCount := count.toNat_lt
      rw [UInt64.toNat_add]
      omega
    have hBars := hReads.bars
    rw [getBarsRange_after timeFrame h, if_pos (not_lt.mp hLe), assign_of_lt _ hWrapped] at hBars
    split at hBars
    · cases hBars
    · cases hBars
  · rintro (hSum | hLt)
    · exact readsExactly_of_sum timeFrame h hSum
    · exact readsExactly_of_lt timeFrame h hLt

/-- With one bar stored, a range of one bar from the greatest index on ends at index zero. -/
theorem last_index_wraps :
    ¬ (after [(1, ⟨1, 1, 1, 1, 60⟩)]).ReadsExactly 1 (stored 1 [(1, ⟨1, 1, 1, 1, 60⟩)])
      18446744073709551615 1 := by
  intro hReads
  exact absurd hReads.bars (by decide +kernel)

theorem second_bar_is_read :
    (after [(1, ⟨1, 1, 1, 1, 60⟩), (1, ⟨1, 2, 1, 2, 120⟩)]).ReadsExactly 1
      (stored 1 [(1, ⟨1, 1, 1, 1, 60⟩), (1, ⟨1, 2, 1, 2, 120⟩)]) 1 1 :=
  (range_reads_exact_iff 1 (by decide +kernel) 1 1).mpr (.inl (by decide))

end BarCollector

end Fxquant
