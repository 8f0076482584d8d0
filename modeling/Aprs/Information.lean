import Aprs.Item
import Aprs.Message
import Aprs.Object
import Aprs.Weather.Basic

namespace Aprs

/-- The mark that decoding of a body was given up. -/
structure Fault where
  reason : String
  /-- Where the decoder that failed was started. -/
  cursor : Nat
  deriving DecidableEq, Repr

/-- A part of a body that was read, or the mark that the rest of it was given up. -/
inductive Element (R : Type) where
  | timestamp (t : Timestamp)
  | position (p : Position R)
  | weather (w : Weather)
  | message (m : Message)
  | object (o : Object R)
  | item (i : Item R)
  | fault (f : Fault)
  deriving DecidableEq

/-- What an element is, without its value. -/
inductive Element.Kind where
  | timestamp
  | position
  | weather
  | message
  | object
  | item
  | fault
  deriving DecidableEq, Repr

/-- The kind of an element. -/
def Element.kind {R : Type} : Element R → Element.Kind
  | timestamp _ => .timestamp
  | position _ => .position
  | weather _ => .weather
  | message _ => .message
  | object _ => .object
  | item _ => .item
  | fault _ => .fault

/-- All that was read from a body, in the order in which it stands there. -/
structure Information (R : Type) where
  elements : List (Element R) := []
  /-- Free text behind the elements. -/
  comment : Bytes := []
  extension : Option Extension := none
  /-- Whether the sender handles messages. -/
  messaging : Bool := false
  deriving DecidableEq

namespace Information

variable {R : Type}

/-- Whether there are no elements. A fault is one, so a body that was given up is not empty. -/
def isEmpty (i : Information R) : Bool := i.elements.isEmpty

/-- The kinds of the elements, in the order in which they stand in the body. -/
def kinds (i : Information R) : List Element.Kind := i.elements.map Element.kind

/-- The first element of a kind. -/
def find? (i : Information R) (kind : Element.Kind) : Option (Element R) :=
  i.elements.find? (·.kind = kind)

/-- Whether there is an element of a kind. -/
def contains (i : Information R) (kind : Element.Kind) : Bool := (i.find? kind).isSome

/-- The first time. That of an object is a part of the object, and is not looked at. -/
def timestamp? (i : Information R) : Option Timestamp :=
  i.elements.findSome? fun | .timestamp t => some t | _ => none

/-- The first position. Those of objects and items are parts of them, and are not looked at. -/
def position? (i : Information R) : Option (Position R) :=
  i.elements.findSome? fun | .position p => some p | _ => none

/-- The first weather report. -/
def weather? (i : Information R) : Option Weather :=
  i.elements.findSome? fun | .weather w => some w | _ => none

/-- The first message. -/
def message? (i : Information R) : Option Message :=
  i.elements.findSome? fun | .message m => some m | _ => none

/-- The first object, which may be a placeholder. -/
def object? (i : Information R) : Option (Object R) :=
  i.elements.findSome? fun | .object o => some o | _ => none

/-- The first item. -/
def item? (i : Information R) : Option (Item R) :=
  i.elements.findSome? fun | .item x => some x | _ => none

/-- The first fault. A placeholder of an object is none. -/
def fault? (i : Information R) : Option Fault :=
  i.elements.findSome? fun | .fault f => some f | _ => none

end Information

end Aprs
