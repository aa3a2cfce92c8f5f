import PointerQuery.Engine
import PointerQuery.Settings

namespace PointerQuery

structure Plugin where
  name : String
  supports : Query → Bool
  evaluate : Query → List ValueId → Checked Answer

namespace Engine

/-- Sets up the engine for a program as the settings say. -/
def load (P : Program) (facts? : Option PointsTo) (settings : Settings) : Checked Engine := do
  let name := P.name
  Checked.report .info s!"Loading points-to facts of '{name}'..."
  let E ← build P facts? settings.isStrict
  Checked.report .info "Points-to plugin ready"
  pure E

/-- The engine as a plugin, which answers every kind of question. -/
def plugin (E : Engine) : Plugin :=
  ⟨"pointsto", fun _ => true, E.evaluate⟩

end Engine

end PointerQuery
