/-!
Sources of macro lines. A source hands out one line at a time. Its lines may be known from the
start, or be fed to it through a channel while it is in use; then it may have to be waited for.
-/

namespace CraftLang

/-- What a source hands out: a line, or a failure in place of one. -/
inductive Fed where
  | line (text : String)
  | failure (message : String)
  deriving DecidableEq, Repr, Inhabited

/-- The feeding end of a source: which one it is and how many lines may be pending in it. -/
structure Channel where
  id : Nat
  capacity : Nat
  deriving DecidableEq, Repr, Inhabited

/-- A source of lines. Without a channel, nothing comes after what is pending. -/
structure LineSource where
  pending : List Fed
  channel : Option Channel := none
  deriving DecidableEq, Repr, Inhabited

/-- The answer to a request for the next line. -/
inductive Pull where
  | line (text : String)
  | failed (message : String)
  | ended
  | waiting
  deriving DecidableEq, Repr, Inhabited

/-- What became of something fed to a source. -/
inductive FeedResult where
  | accepted
  | full
  | closed
  deriving DecidableEq, Repr, Inhabited

namespace LineSource

def ofItems (items : List Fed) : LineSource := ⟨items, none⟩

/-- An empty source that is fed through a channel. A channel has room for one line at least. -/
def ofChannel (id capacity : Nat) : LineSource := ⟨[], some ⟨id, max capacity 1⟩⟩

def pull (source : LineSource) : Pull × LineSource :=
  match source.pending with
  | .line text :: rest => (.line text, { source with pending := rest })
  | .failure message :: rest => (.failed message, { source with pending := rest })
  | [] => (if source.channel.isSome then .waiting else .ended, source)

def isFedBy (source : LineSource) (id : Nat) : Bool :=
  source.channel.any (·.id == id)

/-- Put something into a source that is fed through a channel. -/
def feed (source : LineSource) (item : Fed) : FeedResult × LineSource :=
  match source.channel with
  | none => (.closed, source)
  | some channel =>
    if source.pending.length < channel.capacity then
      (.accepted, { source with pending := source.pending ++ [item] })
    else (.full, source)

/-- Let the source end after what is pending. -/
def finish (source : LineSource) : LineSource :=
  { source with channel := none }

end LineSource

end CraftLang
