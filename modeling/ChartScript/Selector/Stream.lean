/-!
# Selector/Stream — descriptions of event streams

A `Stream` says which events it holds: where they come from, what they are called, which of them
count, how often they are passed on, and between which other two streams they happen.
-/

namespace ChartScript

/-- A stream of events. -/
structure Stream where
  /-- Where the events come from. -/
  source : String
  eventType : String
  /-- The kind of mark that the events happen on. -/
  markType : Option String
  /-- The mark that the events happen on. -/
  markName : Option String
  /-- Conditions on the events, as they are written. -/
  filter : Option (List String)
  /-- Whether the events stop here. -/
  consume : Bool
  /-- The least time between two events. -/
  throttle : Option Float
  /-- How long no further event may follow. -/
  debounce : Option Float
  /-- The streams whose events begin and end this one. -/
  between : Option (Stream × Stream)

end ChartScript
