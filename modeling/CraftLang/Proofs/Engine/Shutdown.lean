import CraftLang.Host.DryRun
import CraftLang.Proofs.Engine.Accounting
import CraftLang.Proofs.Engine.Ending

/-!
What a shutdown leads to. At most one further command starts, nothing sleeps and nothing is told of
the cancellation but that the engine has stopped.
-/

namespace CraftLang

namespace Engine

variable {σ : Type} {e e' : Engine σ}

theorem Reachable.accounts (h : e.Reachable) : e.Accounts := by
  induction h with
  | spawn host settings world catalog => exact spawn_accounts host settings world catalog
  | on _ _ hon ih => exact (ih.on hon).1

end Engine

end CraftLang
