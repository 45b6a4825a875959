import Ber.Session

/-!
# What a caller sees

Cursors and ranges are windows of an array, but a caller sees numbers, texts and, of a range, its
bytes. The numbers and texts of an answer are its `View`. Two runs on different arrays are compared by
their views, and what a run knows before it has read a byte is the view of its cursor.
-/

namespace Ber

structure CursorView where
  position : Nat
  remaining : Nat
  usable : Bool
  tagContext : Option Nat
deriving DecidableEq, Repr

/-- What a caller sees of an answer, the bytes of a range apart. -/
inductive View where
  | opened (cursor : CursorView)
  | range (offset length : Nat)
  | tag (found : Option Tag)
  | header (header : Header)
  | failed (report : Report)
  | flag (value : Bool)
  | nothing
  | raised (operation : String) (report : Report) (message : String)
deriving DecidableEq, Repr

def Cursor.view (c : Cursor) : CursorView := ⟨c.position, c.remaining, c.usable, c.tagContext⟩

/-- The view of an error that an operation raises. -/
def Failure.raisedBy (operation : String) (failure : Failure) : View :=
  .raised operation failure.report (failure.report.message operation)

namespace Outcome

def view : Outcome → View
  | opened cursor => .opened cursor.view
  | range content => .range content.start content.size
  | tag found => .tag found
  | header found => .header found
  | failed failure => .failed failure.report
  | flag value => .flag value
  | nothing => .nothing
  | raised error => error.failure.raisedBy error.operation

/-- The bytes of a range that was handed out. -/
def bytes : Outcome → List UInt8
  | range content => content.toList
  | _ => []

end Outcome
end Ber
