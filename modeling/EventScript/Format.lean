import EventScript.Listing.Event
import EventScript.Reference

/-!
Formatting events.

* `Settings.draft`: the listing of consecutive events, up to the first one that is refused;
* `Settings.formatTo`: the events written to a sink;
* `Settings.format`: the text and the line maps of the events.
-/

namespace EventScript

/-- What is to be written: a listing, and the fault met behind it, if there is one. -/
structure Draft where
  listing : Listing
  fault : Option Fault

/-- A formatted text with its line maps. -/
structure Formatted where
  text : Text
  maps : List LineMap

namespace Settings

/-- The empty line between two events. -/
def gap : Listing := [⟨none, [.plain ['\n']]⟩]

/-- The fault for which an event is refused. -/
def refusal? (k : Settings) (e : Event) : Option Fault :=
  if k.verifiesReferences then e.referenceFault? else none

/-- The draft of events with something in front of the first one. Behind a refused event nothing is
written, but what stands in front of it is. -/
def draftBehind (k : Settings) (lead : Listing) : List Event → Draft
  | [] => ⟨[], none⟩
  | e :: rest =>
    match k.refusal? e with
    | some fault => ⟨lead, some fault⟩
    | none =>
      let further := draftBehind k gap rest
      ⟨lead ++ Listing.ofEvent k e ++ further.listing, further.fault⟩

/-- The draft of consecutive events. -/
def draft (k : Settings) (events : List Event) : Draft := draftBehind k [] events

/-- Writes consecutive events to a sink, and returns their line maps or what went wrong first. -/
def formatTo (k : Settings) (events : List Event) (sink : Sink) :
    Sink × Except FormatFault (List LineMap) :=
  let draft := k.draft events
  match (Writer.ofSink sink).print draft.listing with
  | (w, none) => (w.sink, .error .write)
  | (w, some maps) =>
    match draft.fault with
    | some fault => (w.sink, .error (.event fault))
    | none => (w.sink, .ok maps)

/-- The text and the line maps of consecutive events. -/
def format (k : Settings) (events : List Event) : Except FormatFault Formatted :=
  match k.formatTo events .unbounded with
  | (_, .error fault) => .error fault
  | (sink, .ok maps) => .ok ⟨sink.received, maps⟩

end Settings

end EventScript
