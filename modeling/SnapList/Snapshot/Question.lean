/-
  What can be asked of a snapshot.

  Index, first position and block search are read from the contents, as on a live list. The
  rest shows the snapshot itself: its slots, its elements, its texts, and what it feeds to a
  hasher.
-/
import SnapList.Snapshot.Basic

namespace SnapList.Snapshot

inductive Question where
  | whole
  | get (index : Nat)
  | slots
  | elements
  | indexOf (value : Int64)
  | find (query : Search.Query)
  | fed
  | display
  | describe (layout : Text.Layout)

inductive Reply where
  | whole (snapshot : Snapshot)
  | element (value : Int64)
  | elements (values : List Int64)
  | index (index : Option Nat)
  /-- The answer of a block search. -/
  | place (place : Int)
  | fed (items : List Fed)
  | text (text : String)

def Question.answer (snapshot : Snapshot) : Question → Except Failure Reply
  | whole => .ok (.whole snapshot)
  | get index => (snapshot.get index).map .element
  | slots => .ok (.elements snapshot.slots.toList)
  | elements => .ok (.elements snapshot.elements)
  | indexOf value => .ok (.index (snapshot.indexOf value))
  | find query => (Fault.lift (snapshot.find query)).map .place
  | fed => .ok (.fed snapshot.fed)
  | display => .ok (.text snapshot.display)
  | describe layout => .ok (.text (snapshot.record.render layout))

end SnapList.Snapshot
