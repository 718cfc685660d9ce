/-
# Types

The type arena with its nodes, flags and views, and the pool that packs it.
-/
import NameMangling.Types.Pool
