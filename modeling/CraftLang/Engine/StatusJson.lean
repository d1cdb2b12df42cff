import CraftLang.Engine.Status
import CraftLang.Json.Basic

/-!
The status of an engine as JSON.
-/

namespace CraftLang

/-- The progress of a frame. -/
def FrameStatus.progress (frame : FrameStatus) : List (String × Json) :=
  [("name", .text frame.name), ("index", .nat frame.index), ("total", .optional .nat frame.total),
    ("current", .optional .text frame.current), ("iterations", .nat frame.iterations.toNat)]

/-- A frame by its progress alone. -/
def FrameStatus.toJson (frame : FrameStatus) : Json :=
  .record frame.progress

/-- What stands for a fact that is not known. -/
def unknownFact : Json := .text "-"

/-- A frame with its number and its start, which are not known here. -/
def FrameStatus.toFullJson (frame : FrameStatus) : Json :=
  .record ([("id", unknownFact)] ++ frame.progress ++ [("started_at", unknownFact)])

/-- A status, given how frames are shown. -/
def EngineStatus.toJson (frame : FrameStatus → Json) (status : EngineStatus) : Json :=
  .record [("state", .text status.state.word), ("frames", .list frame status.frames),
    ("pausing_soon", .bool status.pausingSoon), ("stopping_soon", .bool status.stoppingSoon),
    ("retired", .nat status.retired)]

end CraftLang
