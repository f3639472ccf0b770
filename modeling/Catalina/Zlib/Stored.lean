import Catalina.Storage.Sync
import Catalina.Zlib.RoundTrip

/-!
# The zlib transform in a storage

A read that answers with length zero means to a storage that the record itself is the value. The
value of no bytes is read as such from its record, the flag byte alone, so the flag byte comes back.

* `stored_plain`: with no transform installed every value comes back.
* **`zlib_stored_iff`**: with the zlib transform, every value but the empty one.
* `zlib_stored_empty`: the empty value.
-/

namespace Catalina

variable {h : Host} {env : Env} {s : Storage h} {i j : ℕ} {key value : Bytes}
  {keyLength valueLength : ℤ}

theorem stored_plain (hi : (env i).transform = none) (hj : (env j).transform = none)
    (hs : (catalinaStorageSet env s i 0 key keyLength value valueLength).2 = .succeeded ()) :
    (catalinaStorageGet env (catalinaStorageSet env s i 0 key keyLength value valueLength).1 j key
      keyLength).2 = .succeeded (sized value valueLength) := by
  obtain ⟨r, hr, hget⟩ := @get_after_set h env s i j key value keyLength valueLength hs
  rw [hi] at hr
  obtain rfl : sized value valueLength = r := Except.ok.inj hr
  rw [hget, hj]
  rfl

theorem transformWrite_zlib {z : Zlib} {o : ByteOrder} {fuel : ℕ} {t : CatalinaZlibTransform}
    {x y r : Bytes} (hz : z.RoundTrips t.gintLevel x y) (hx : x.length < 2 ^ 32)
    (hy : y.length + 5 < 2 ^ 32) (hr : transformWrite (some (zlibTransform z o fuel t)) x = .ok r) :
    r = encoded t x y := by
  unfold transformWrite zlibTransform at hr
  dsimp only at hr
  rw [zlibTransformRealWrite_eq o fuel hz hx hy] at hr
  split_ifs at hr
  · exact (Except.ok.inj hr).symm
  · cases hr

/-- What a storage makes of the record of `x`: a value of no bytes reads as its record. -/
theorem transformRead_zlib {z : Zlib} {o : ByteOrder} {fuel : ℕ} (r : CatalinaZlibTransform)
    {t : CatalinaZlibTransform} {x y : Bytes} (hz : z.RoundTrips t.gintLevel x y)
    (hx : x.length < 2 ^ 32) (hy : y.length + 5 < 2 ^ 32) :
    transformRead (some (zlibTransform z o fuel r)) (encoded t x y) =
      .ok (if x = [] then encoded t x y else x) := by
  unfold transformRead zlibTransform
  dsimp only
  rw [zlibTransformRealRead_encoded o r t hz hx hy, answer, allocated]
  split_ifs with hnil
  · rfl
  · dsimp only
    rw [outputLength, if_neg]
    · rfl
    · exact fun hlen => hnil (List.length_eq_zero_iff.mp hlen)

theorem encoded_ne_nil (t : CatalinaZlibTransform) (x y : Bytes) : encoded t x y ≠ [] := by
  unfold encoded
  split_ifs <;> simp

/-- **With the zlib transform installed, a value that was stored comes back exactly when it has any
bytes**, whatever the watermark and the level at the store and at the fetch. -/
theorem zlib_stored_iff {z : Zlib} {o o' : ByteOrder} {fuel fuel' : ℕ}
    {t r : CatalinaZlibTransform} {y : Bytes}
    (hi : (env i).transform = some (zlibTransform z o fuel t))
    (hj : (env j).transform = some (zlibTransform z o' fuel' r)) (hv : 0 ≤ valueLength)
    (hz : z.RoundTrips t.gintLevel (sized value valueLength) y)
    (hx : (sized value valueLength).length < 2 ^ 32) (hy : y.length + 5 < 2 ^ 32)
    (hs : (catalinaStorageSet env s i 0 key keyLength value valueLength).2 = .succeeded ()) :
    (catalinaStorageGet env (catalinaStorageSet env s i 0 key keyLength value valueLength).1 j key
        keyLength).2 = .succeeded (sized value valueLength) ↔ value.take valueLength.toNat ≠ [] := by
  have hsized : sized value valueLength = value.take valueLength.toNat := if_neg (by omega)
  obtain ⟨rec, hrec, hget⟩ := @get_after_set h env s i j key value keyLength valueLength hs
  rw [hi] at hrec
  obtain rfl := transformWrite_zlib hz hx hy hrec
  rw [hget, hj, transformRead_zlib r hz hx hy, ← hsized]
  dsimp only
  constructor
  · intro heq hnil
    rw [if_pos hnil] at heq
    exact encoded_ne_nil _ _ _ ((CallResult.succeeded.inj heq).trans hnil)
  · exact fun hne => congrArg _ (if_neg hne)

/-- The storage of a process that uses the zlib transform, uncompressed up to 9 bytes. -/
def zlibStorage : Env := fun _ =>
  { transform := some (zlibTransform storedZlib .little 1 { watermark := 9, level := 0 }) }

theorem zlib_stored_iff_stored :
    (catalinaStorageGet zlibStorage
        (catalinaStorageSet zlibStorage (openedStorage zlibStorage) 1 0 [1] 1 [97, 98] 1).1 2 [1]
        1).2 = .succeeded [97] ↔ ([97, 98] : Bytes).take 1 ≠ [] := by
  have hset : (catalinaStorageSet zlibStorage (openedStorage zlibStorage) 1 0 [1] 1 [97, 98] 1).2 =
      .succeeded () := by decide
  exact zlib_stored_iff rfl rfl (by decide) (storedZlib_roundTrips 0 [97]) (by decide)
    (by decide) hset

/-- The empty value comes back as one byte. -/
theorem zlib_stored_empty :
    storedZlib.RoundTrips 0 [] (storedStream []) ∧
      (catalinaStorageSet zlibStorage (openedStorage zlibStorage) 1 0 [1] 1 [] 0).2 = .succeeded () ∧
        (catalinaStorageGet zlibStorage
          (catalinaStorageSet zlibStorage (openedStorage zlibStorage) 1 0 [1] 1 [] 0).1 2 [1] 1).2 ≠
            .succeeded [] :=
  ⟨storedZlib_roundTrips 0 [], by decide⟩

end Catalina
