import Workflow.Graph.Basic
import Workflow.Text.Debug

/-!
# Summaries of graphs

One line with the names of a graph and whether it is a root.
-/

set_option autoImplicit false

namespace Workflow.Graph

/-- The names in order and the root flag; that there is more to a graph is shown by two points. -/
def summary (g : Graph) : String :=
  "ActionGraph \x7b nodes: [" ++ String.intercalate ", " (g.names.map showName) ++
    "], is_root: " ++ (if g.isRoot then "true" else "false") ++ ", .. \x7d"

end Workflow.Graph
