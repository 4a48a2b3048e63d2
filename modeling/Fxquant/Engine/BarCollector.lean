import Fxquant.Feeder.Feeders
import Fxquant.Library.OrderedMap

/-!
# The bars of an engine

`bar_collector.cpp`, as far as a GUI context and the first strategy read it: the vectors of the time
frames only grow.
-/

namespace Fxquant

open Feeder

structure BarCollector where
  bars : OrderedMap ℕ (List BarData) := ∅

namespace BarCollector

variable (bc : BarCollector) (timeFrame : ℕ)

def putBar (bar : BarData) : BarCollector :=
  match bc.bars.find? timeFrame with
  | some v => ⟨bc.bars.put timeFrame (v ++ [bar])⟩
  | none => ⟨bc.bars.put timeFrame [bar]⟩

def getBars : List BarData := (bc.bars.find? timeFrame).getD []

def empty : Bool :=
  match bc.bars.find? timeFrame with
  | some v => v.isEmpty
  | none => true

/-- `get_last_bars`; `none` is the answer false, which leaves the result cleared. -/
def getLastBars (count : ℕ) : Option (List BarData) :=
  match bc.bars.find? timeFrame with
  | some v => if count ≤ v.length then some (v.drop (v.length - count)) else none
  | none => none

theorem getLastBars_eq (count : ℕ) (h : 0 < count) :
    bc.getLastBars timeFrame count =
      if count ≤ (bc.getBars timeFrame).length then
        some ((bc.getBars timeFrame).drop ((bc.getBars timeFrame).length - count))
      else none := by
  rw [getLastBars, getBars]
  cases hFind : bc.bars.find? timeFrame with
  | none => simp [h.ne']
  | some v => simp

theorem getBars_putBar (bar : BarData) :
    (bc.putBar timeFrame bar).getBars timeFrame = bc.getBars timeFrame ++ [bar] := by
  rw [putBar, getBars, getBars]
  cases hFind : bc.bars.find? timeFrame with
  | none => simp
  | some v => simp

theorem getBars_putBar_of_ne {timeFrame timeFrame' : ℕ} (h : timeFrame' ≠ timeFrame) (bar : BarData) :
    (bc.putBar timeFrame' bar).getBars timeFrame = bc.getBars timeFrame := by
  rw [putBar, getBars, getBars]
  cases hFind : bc.bars.find? timeFrame' with
  | none => simp only [OrderedMap.find?_put_of_ne _ _ h.symm]
  | some v => simp only [OrderedMap.find?_put_of_ne _ _ h.symm]

theorem empty_iff : bc.empty timeFrame = true ↔ bc.getBars timeFrame = [] := by
  rw [empty, getBars]
  cases hFind : bc.bars.find? timeFrame with
  | none => simp
  | some v => simp

end BarCollector

end Fxquant
