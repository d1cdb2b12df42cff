import CraftLang.Host.Basic
import CraftLang.Store.Macros

/-!
Hosts that find the macros of a macro folder.
-/

namespace CraftLang

/-- The macros of a folder, or why they cannot be read. -/
abbrev Shelf := Except StoreError (List StoredMacro)

/-- A host that finds macros on a shelf, which must be in order whatever the name, and leaves all
other calls to another host. -/
def Host.withShelf {σ : Type} (host : Host σ) : Host (σ × Shelf) where
  answer now
    | .findMacro name, state =>
      (match state.2 with
        | .ok stored => .ok (Registry.find stored name)
        | .error e => .error (.error e.message), state)
    | call, state =>
      let (reply, world) := host.answer now call state.1
      (reply, (world, state.2))

end CraftLang
