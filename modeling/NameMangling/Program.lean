/-
# The program model

Programs with their context walks, conformance queries, interface types and the
standard library.
-/
import NameMangling.Program.Conformances
import NameMangling.Program.InterfaceType
import NameMangling.Program.StandardLibrary
