import DoxygenMarkdown.Bindings.Segment
import DoxygenMarkdown.Rendering

/-!
# Converting a file of bindings

Every run of a file is replaced by its comment as Markdown, in doc attributes with the same
indentation. Each run is by itself: one that cannot be read stays as it is and is reported, and the
lines between runs are never touched. A comment that says nothing leaves nothing behind.
-/

namespace DoxygenMarkdown.Bindings

/-- Something that came up while a file was converted: a run left something out, or could not be
read at all. -/
inductive Event where
  | leftOut (n : Notice)
  | unreadable (e : DirectionError)
deriving DecidableEq, Repr

/-- The error that an event reports. -/
def Event.error? : Event → Option DirectionError
  | leftOut _ => none
  | unreadable e => some e

/-- The entry of the log for an event. -/
def Event.entry : Event → Log.Entry
  | leftOut n => n.entry
  | unreadable e => Log.entry .error e.message

/-- What is logged of events. Errors are not, if the caller takes them. -/
def logOf (takesErrors : Bool) (events : List Event) : Log :=
  (if takesErrors then events.filter (·.error?.isNone) else events).map Event.entry

/-- The lines of a file after it was converted, and what came up, in order. -/
structure Conversion where
  lines : List Text
  events : List Event
deriving DecidableEq, Repr

namespace Conversion

/-- One converted part after the other. -/
def append (c d : Conversion) : Conversion := ⟨c.lines ++ d.lines, c.events ++ d.events⟩

/-- The converted file. -/
def text (c : Conversion) : Text := Text.unlines c.lines

/-- The runs that could not be read. -/
def errors (c : Conversion) : List DirectionError := c.events.filterMap Event.error?

end Conversion

/-- What a caller gets of a conversion: the text, the errors if it takes them, and what is
logged. -/
structure Delivery where
  text : Text
  errors : Option (List DirectionError)
  log : Log
deriving DecidableEq, Repr

/-- Hand a conversion over to a caller that takes the errors, or to one that does not. -/
def Conversion.deliver (takesErrors : Bool) (c : Conversion) : Delivery where
  text := c.text
  errors := if takesErrors then some c.errors else none
  log := logOf takesErrors c.events

/-- Convert a run. `trimLines` cuts the blanks off both ends of every line of the Markdown. -/
def DocRun.convert (trimLines : Bool) (r : DocRun) : Conversion :=
  match renderComment 1 r.comment with
  | .error e => ⟨r.source, [.unreadable { e with line := some r.line }]⟩
  | .ok rendering =>
    let text := rendering.text.trimEndBreaks
    let lines := if text.isEmpty then [] else text.lines
    ⟨lines.map fun line => DocLine.write r.indent (if trimLines then line.trim else line),
      rendering.notices.map .leftOut⟩

/-- Convert a segment. -/
def Segment.convert (trimLines : Bool) : Segment → Conversion
  | other line => ⟨[line], []⟩
  | run r => r.convert trimLines

/-- Convert segments, one after the other. -/
def convertSegments (trimLines : Bool) (segments : List Segment) : Conversion :=
  segments.foldr (fun s rest => (s.convert trimLines).append rest) ⟨[], []⟩

/-- Convert a file of bindings. -/
def convert (trimLines : Bool) (source : Text) : Conversion :=
  convertSegments trimLines (segments source)

end DoxygenMarkdown.Bindings
