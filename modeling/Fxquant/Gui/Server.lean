import Fxquant.Gui.Context

/-!
# What the server keeps for contexts to come

The saved order events and info messages of `gui_server.cpp`. Each has a lock of its own, and
none of them is the lock of a context or of the list of contexts.
-/

namespace Fxquant.Gui

structure GuiServer where
  orders : OrderedMap Symbol (List OrderInfo) := ∅
  info : OrderedMap Symbol String := ∅

namespace GuiServer

variable (server : GuiServer) (sym : Symbol)

def getOrders : List OrderInfo := (server.orders.find? sym).getD []

def saveOrder (info : OrderInfo) : GuiServer :=
  { server with
    orders := server.orders.put info.order.symbol
      (server.getOrders info.order.symbol ++ [info]) }

def getInfo : String := (server.info.find? sym).getD ""

def saveInfo (xml : String) : GuiServer := { server with info := server.info.put sym xml }

@[simp] theorem getOrders_saveOrder (info : OrderInfo) :
    (server.saveOrder info).getOrders info.order.symbol =
      server.getOrders info.order.symbol ++ [info] := by
  simp [saveOrder, getOrders]

@[simp] theorem getInfo_saveInfo (xml : String) : (server.saveInfo sym xml).getInfo sym = xml := by
  simp [saveInfo, getInfo]

end GuiServer

end Fxquant.Gui
