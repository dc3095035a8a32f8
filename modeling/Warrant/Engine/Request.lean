import Warrant.Engine

/-!
# Requests as data

Everything that can be asked of an engine, or of its catalog, in one type, with what it answers.
-/

namespace Warrant.Engine

/-- What is asked of an engine, or of its catalog. -/
inductive Request where
  | load
  | contains (capability : String)
  | addAll (batch : TextSet)
  | removeAll (batch : TextSet)
  | resolveAccess (p : Principal) (entity action : String)
  | authorize (p : Principal) (entity action : String)
  | assign (p : Principal) (capability : String)
  | revoke (p : Principal) (capability : String)
  | replace (p : Principal) (capabilities : List String)
  | planSync (r : Registry)
  | previewSync (r : Registry)
  | synchronize (r : Registry)

inductive Reply where
  | done
  | set (entries : TextSet)
  | flag (value : Bool)
  | tier (tier : Tier)
  | scope (scope : Scope)
  | delta (delta : Delta)
  | report (report : Report)
deriving DecidableEq

abbrev Answer := Except (Failure EngineError) Reply

variable {κ : Type} [CatalogStore κ]

def Request.perform : Request → Op κ Reply
  | load => return .set (← onCatalog CatalogStore.load)
  | contains capability => return .flag (← onCatalog (CatalogStore.contains capability))
  | addAll batch => do
    onCatalog (CatalogStore.addAll batch)
    return .done
  | removeAll batch => do
    onCatalog (CatalogStore.removeAll batch)
    return .done
  | resolveAccess p entity action => return .tier (← Engine.resolveAccess p entity action)
  | authorize p entity action => return .scope (← Engine.authorize p entity action)
  | assign p capability => return .flag (← Engine.assign p capability)
  | revoke p capability => return .flag (← Engine.revoke p capability)
  | replace p capabilities => do
    Engine.replace p capabilities
    return .done
  | planSync r => return .delta (← Engine.planSync r)
  | previewSync r => return .report (← Engine.previewSync r)
  | synchronize r => return .report (← Engine.synchronize r)

end Warrant.Engine
