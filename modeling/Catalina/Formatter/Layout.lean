import Catalina.Formatter.Write
import Catalina.Lib.Fuel

/-!
# The layout of an object

`catalina_binary_formatter_write_object` counts the bytes in one loop and copies them in another.

* `chunkBytes`: the bytes of a property; **`copyChunks_eq`**: the second loop is one copy of all of
  them.
* `writtenChunks`: the properties that are written; `collectChunks_eq`: the first loop.
* **`writeObject_eq`**: the buffer of an object in terms of `total` on entry.
* **`sizeExact_iff`**: the size is exact exactly when `total` starts at zero;
  `uninitialized_total`: another start.
-/

namespace Catalina

/-! ## Copies -/

theorem blitOrStop_zeros (n : ℕ) (src : Bytes) : blitOrStop (zeros n) 0 src =
    if src.length ≤ n then .ok (src ++ zeros (n - src.length)) else .error .outOfBounds := by
  unfold blitOrStop blit
  rw [Nat.zero_add, length_zeros]
  split_ifs with h
  · simp [zeros]
  · rfl

/-! ## The loop that copies -/

/-- The bytes of a property: the length of the key as a byte, the key, the big-endian length of the
value and the value. -/
def chunkBytes (c : Chunk) : Bytes :=
  UInt8.ofNat c.keyLength :: (c.key.stored.take c.keyLength ++ beBytes 4 c.value.length ++ c.value)

/-- The size that the first loop counts for a property. -/
def chunkSize (c : Chunk) : ℕ := 1 + c.keyLength + 4 + c.value.length

/-- The length of the key is the one of its string as a `guint`. -/
def Chunk.Sane (c : Chunk) : Prop := c.keyLength = guint (c.key.strlen + 1)

theorem guint_le (x : ℕ) : guint x ≤ x := by
  unfold guint
  exact Nat.mod_le x _

theorem length_chunkBytes {c : Chunk} (hc : c.Sane) : (chunkBytes c).length = chunkSize c := by
  have h : c.keyLength ≤ c.key.strlen + 1 := hc ▸ guint_le _
  simp only [chunkBytes, chunkSize, List.length_cons, List.length_append, List.length_take,
    CString.length_stored, length_beBytes]
  omega

theorem length_le_flatMap {α : Type} {f : α → Bytes} {l : List α} {x : α} (hx : x ∈ l) :
    (f x).length ≤ (l.flatMap f).length := by
  rw [List.flatMap_def]
  exact (List.sublist_flatten_of_mem (List.mem_map_of_mem hx)).length_le

theorem blitOrStop_step {buf xs ys : Bytes} {off n : ℕ} {f : Bytes → Except Stop Bytes}
    (hb : buf.length < 2 ^ 32) (hn : xs.length = n)
    (hf : ∀ b : Bytes, b.length < 2 ^ 32 → off + n ≤ b.length →
      f b = blitOrStop b (off + n) ys) :
    (blitOrStop buf off xs >>= f) = blitOrStop buf off (xs ++ ys) := by
  subst hn
  rw [blitOrStop_append]
  cases h : blitOrStop buf off xs with
  | error e => rfl
  | ok b =>
    obtain ⟨hlen, hle⟩ := length_blitOrStop h
    exact hf b (hlen ▸ hb) (hlen ▸ hle)

/-- **The second loop copies all properties, one behind the other.** -/
theorem copyChunks_eq (o : ByteOrder) {chunks : List Chunk} (hc : ∀ c ∈ chunks, c.Sane) {off : ℕ}
    {buf : Bytes} (hb : buf.length < 2 ^ 32) (hoff : off ≤ buf.length) :
    copyChunks o chunks off buf = blitOrStop buf off (chunks.flatMap chunkBytes) := by
  induction chunks generalizing off buf with
  | nil =>
    have h : blit buf off [] = some buf := by
      unfold blit
      rw [if_pos (by simpa using hoff)]
      simp
    simp only [copyChunks, List.flatMap_nil, blitOrStop, h]
  | cons c chunks ih =>
    have hlen : (c.key.stored.take c.keyLength).length = c.keyLength := by
      rw [List.length_take, CString.length_stored]
      have h : c.keyLength ≤ c.key.strlen + 1 := hc c List.mem_cons_self ▸ guint_le _
      omega
    have hrest : (c :: chunks).flatMap chunkBytes = [UInt8.ofNat c.keyLength] ++
        (c.key.stored.take c.keyLength ++ (image o 4 (toBE o 4 c.value.length) ++
          (c.value ++ chunks.flatMap chunkBytes))) := by
      rw [List.flatMap_cons, chunkBytes, image_toBE]
      simp only [List.cons_append, List.append_assoc, List.nil_append]
    rw [hrest, copyChunks]
    refine blitOrStop_step hb List.length_singleton fun b₁ hb₁ h₁ => ?_
    rw [guint_of_lt (by omega)]
    refine blitOrStop_step hb₁ hlen fun b₂ hb₂ h₂ => ?_
    rw [guint_of_lt (by omega)]
    refine blitOrStop_step hb₂ (length_image o 4 _) fun b₃ hb₃ h₃ => ?_
    rw [guint_of_lt (by omega)]
    refine blitOrStop_step hb₃ rfl fun b₄ hb₄ h₄ => ?_
    rw [guint_of_lt (by omega)]
    exact ih (fun c' hc' => hc c' (List.mem_cons_of_mem _ hc')) hb₄ h₄

/-! ## The loop that counts -/

section Written

variable {P : Process} {ω : Type} (w : World P.types ω)
  (write : ℕ → GValue ω → Except Stop (Option Bytes)) (x : ω)

/-- The properties that are written, in the order of the class: the others have a type that is not
serialized, or a value for which `catalina_binary_formatter_write_value` answers `FALSE`. -/
def writtenChunks : ℕ → List ParamSpec → List Chunk
  | _, [] => []
  | i, p :: params =>
    match canSerializeType p.valueType, write i (w.property x p) with
    | true, .ok (some value) =>
      ⟨p.name, guint (p.name.strlen + 1), value⟩ :: writtenChunks (i + 1) params
    | _, _ => writtenChunks (i + 1) params

/-- The calls for the values of the properties return. -/
def ValuesReturn (i : ℕ) (params : List ParamSpec) : Prop :=
  ∀ k p, params[k]? = some p → canSerializeType p.valueType = true →
    ∃ r, write (i + k) (w.property x p) = .ok r

variable {w write x}

theorem mem_writtenChunks {i : ℕ} {params : List ParamSpec} {c : Chunk} :
    c ∈ writtenChunks w write x i params ↔ ∃ k p value, params[k]? = some p ∧
      canSerializeType p.valueType = true ∧ write (i + k) (w.property x p) = .ok (some value) ∧
      c = ⟨p.name, guint (p.name.strlen + 1), value⟩ := by
  induction params generalizing i with
  | nil => simp [writtenChunks]
  | cons p params ih =>
    have hshift : (∃ k q value, params[k]? = some q ∧ canSerializeType q.valueType = true ∧
        write (i + 1 + k) (w.property x q) = .ok (some value) ∧
        c = ⟨q.name, guint (q.name.strlen + 1), value⟩) ↔
        ∃ k q value, (p :: params)[k + 1]? = some q ∧ canSerializeType q.valueType = true ∧
          write (i + (k + 1)) (w.property x q) = .ok (some value) ∧
          c = ⟨q.name, guint (q.name.strlen + 1), value⟩ := by
      refine exists_congr fun k => ?_
      rw [List.getElem?_cons_succ, show i + (k + 1) = i + 1 + k by omega]
    rw [writtenChunks]
    split
    · next value hp hv =>
      rw [List.mem_cons, ih, hshift]
      constructor
      · rintro (rfl | ⟨k, h⟩)
        · exact ⟨0, p, value, rfl, hp, hv, rfl⟩
        · exact ⟨k + 1, h⟩
      · rintro ⟨_ | k, q, value', hq, h₁, h₂, rfl⟩
        · cases hq
          rw [Nat.add_zero, hv] at h₂
          cases h₂
          exact Or.inl rfl
        · exact Or.inr ⟨k, q, value', hq, h₁, h₂, rfl⟩
    · next hnot =>
      rw [ih, hshift]
      constructor
      · rintro ⟨k, h⟩
        exact ⟨k + 1, h⟩
      · rintro ⟨_ | k, q, value', hq, h₁, h₂, rfl⟩
        · cases hq
          exact absurd h₂ (hnot value' h₁)
        · exact ⟨k, q, value', hq, h₁, h₂, rfl⟩

theorem sane_writtenChunks {i : ℕ} {params : List ParamSpec} :
    ∀ c ∈ writtenChunks w write x i params, c.Sane := by
  intro c hc
  obtain ⟨k, p, value, _, _, _, rfl⟩ := mem_writtenChunks.mp hc
  rfl

theorem guint_add (x y z : ℕ) : guint (guint (x + y) + z) = guint (x + (y + z)) := by
  unfold guint
  rw [Nat.mod_add_mod, Nat.add_assoc]

theorem guint_add_of_zero {x : ℕ} (hx : guint x = 0) (y : ℕ) : guint (x + y) = guint y := by
  unfold guint at hx ⊢
  rw [Nat.add_mod, hx, Nat.zero_add, Nat.mod_mod]

/-- **The first loop finds the properties that are written**, and counts their bytes. -/
theorem collectChunks_eq {i : ℕ} {params : List ParamSpec} {chunks : List Chunk} {total : ℕ}
    {r : List Chunk × ℕ} (ht : total < 2 ^ 32)
    (h : collectChunks P w write x i params chunks total = .ok r) :
    r.1 = (writtenChunks w write x i params).reverse ++ chunks ∧
      r.2 = guint (total + ((writtenChunks w write x i params).map chunkSize).sum) := by
  induction params generalizing i chunks total with
  | nil =>
    cases h
    exact ⟨rfl, (guint_of_lt ht).symm⟩
  | cons p params ih =>
    rw [collectChunks] at h
    rw [writtenChunks]
    cases hp : canSerializeType p.valueType with
    | false =>
      rw [hp, if_neg Bool.false_ne_true] at h
      exact ih ht h
    | true =>
      rw [hp, if_pos rfl] at h
      cases hv : write i (w.property x p) with
      | error e =>
        rw [hv] at h
        cases h
      | ok v =>
        rw [hv] at h
        cases v with
        | none => exact ih ht h
        | some value =>
          obtain ⟨h₁, h₂⟩ := ih (guint_lt _) h
          refine ⟨?_, ?_⟩
          · simpa using h₁
          · rw [h₂, guint_add]
            rfl

theorem collectChunks_ok {i : ℕ} {params : List ParamSpec} (hr : ValuesReturn w write x i params)
    (chunks : List Chunk) (total : ℕ) :
    ∃ r, collectChunks P w write x i params chunks total = .ok r := by
  induction params generalizing i chunks total with
  | nil => exact ⟨_, rfl⟩
  | cons p params ih =>
    have htail : ValuesReturn w write x (i + 1) params := fun k q hk hq => by
      have h := hr (k + 1) q (by simpa using hk) hq
      rwa [show i + (k + 1) = i + 1 + k by omega] at h
    rw [collectChunks]
    split_ifs with hp
    · obtain ⟨v, hv⟩ := hr 0 p rfl hp
      rw [Nat.add_zero] at hv
      rw [hv]
      cases v with
      | none => exact ih htail _ _
      | some value => exact ih htail _ _
    · exact ih htail _ _

theorem values_return {i : ℕ} {params : List ParamSpec} {chunks : List Chunk} {total : ℕ}
    {r : List Chunk × ℕ} (h : collectChunks P w write x i params chunks total = .ok r) :
    ValuesReturn w write x i params := by
  induction params generalizing i chunks total with
  | nil => exact fun k p hk _ => by simp at hk
  | cons p params ih =>
    have htail : ∀ {chunks total}, collectChunks P w write x (i + 1) params chunks total = .ok r →
        (canSerializeType p.valueType = true → ∃ v, write i (w.property x p) = .ok v) →
        ValuesReturn w write x i (p :: params) := by
      intro chunks total ht hp k q hk hq
      cases k with
      | zero =>
        cases hk
        exact hp hq
      | succ k =>
        obtain ⟨v, hv⟩ := ih ht k q (by simpa using hk) hq
        exact ⟨v, by rwa [show i + (k + 1) = i + 1 + k by omega]⟩
    rw [collectChunks] at h
    split_ifs at h with hp
    · cases hv : write i (w.property x p) with
      | error e =>
        rw [hv] at h
        cases h
      | ok v =>
        rw [hv] at h
        cases v with
        | none => exact htail h fun _ => ⟨_, hv⟩
        | some value => exact htail h fun _ => ⟨_, hv⟩
    · exact htail h fun hq => absurd hq hp

end Written

/-! ## The buffer -/

section Buffer

variable (P : Process) {ω : Type} (w : World P.types ω) (entry : List ℕ → ℕ) (fuel : ℕ)
  (path : List ℕ) (x : ω)

/-- The properties of `x` that the call on the given path writes. -/
def objectChunks : List Chunk :=
  writtenChunks w (fun i => writeValue P w entry fuel (i :: path)) x 0
    (P.types.listProperties (w.cls x))

/-- The values of the properties of `x` come back from `catalina_binary_formatter_write_value`. -/
def PropertiesReturn : Prop :=
  ValuesReturn w (fun i => writeValue P w entry fuel (i :: path)) x 0
    (P.types.listProperties (w.cls x))

/-- The size of the encoding: the header, for each property that is written the length of its key,
the key, the length of its value and the value, and the sentinel. -/
def objectSize : ℕ :=
  2 + typeNameLen (P.types.typeName (w.cls x)) +
    ((objectChunks P w entry fuel path x).map chunkSize).sum + 1

/-- The header and the properties, last one first. -/
def objectBody : Bytes :=
  objectHeader (P.types.typeName (w.cls x)) ++
    (objectChunks P w entry fuel path x).reverse.flatMap chunkBytes

theorem length_objectHeader (name : CString) :
    (objectHeader name).length = 2 + typeNameLen name := by
  have h : typeNameLen name ≤ name.strlen + 1 := Nat.mod_le _ _
  simp only [objectHeader, List.length_cons, List.length_take, CString.length_stored]
  omega

theorem length_objectBody :
    (objectBody P w entry fuel path x).length + 1 = objectSize P w entry fuel path x := by
  have h : ∀ c ∈ (objectChunks P w entry fuel path x).reverse,
      (chunkBytes c).length = chunkSize c := fun c hc =>
    length_chunkBytes (sane_writtenChunks c (List.mem_reverse.mp hc))
  rw [objectBody, objectSize, List.length_append, length_objectHeader, List.length_flatMap,
    List.map_congr_left h, List.map_reverse, List.sum_reverse]

/-- **The buffer of an object**, for what `total` holds on entry. -/
theorem writeObject_eq (hr : PropertiesReturn P w entry fuel path x) :
    writeObject P w entry (fuel + 1) path (some x) =
      (let n := guint (entry path + objectSize P w entry fuel path x)
      let body := objectBody P w entry fuel path x
      if body.length ≤ n then .ok (some (body ++ zeros (n - body.length)))
      else .error .outOfBounds) := by
  obtain ⟨r, h⟩ := collectChunks_ok hr []
    (guint (entry path + (objectHeader (P.types.typeName (w.cls x))).length))
  obtain ⟨h₁, h₂⟩ := collectChunks_eq (guint_lt _) h
  rw [List.append_nil] at h₁
  have hn : guint (r.2 + 1) = guint (entry path + objectSize P w entry fuel path x) := by
    rw [h₂, guint_add, guint_add, length_objectHeader]
    rfl
  have hchunks : ∀ c ∈ r.1, c.Sane := by
    rw [h₁]
    exact fun c hc => sane_writtenChunks c (List.mem_reverse.mp hc)
  dsimp only
  rw [writeObject, writeObjectWith, ← hn]
  change (collectChunks P w (fun i => writeValue P w entry fuel (i :: path)) x 0 _ [] _ >>= _) = _
  rw [h]
  change (blitOrStop (zeros (guint (r.2 + 1))) 0 _ >>= fun b =>
    copyChunks P.order r.1 (objectHeader (P.types.typeName (w.cls x))).length b >>= fun b =>
      pure (some b)) = _
  have hcopy : (blitOrStop (zeros (guint (r.2 + 1))) 0
      (objectHeader (P.types.typeName (w.cls x))) >>= fun b =>
        copyChunks P.order r.1 (objectHeader (P.types.typeName (w.cls x))).length b) =
      blitOrStop (zeros (guint (r.2 + 1))) 0 (objectBody P w entry fuel path x) := by
    rw [objectBody, objectChunks, ← h₁]
    refine blitOrStop_step (by rw [length_zeros]; exact guint_lt _) rfl fun b hb hoff => ?_
    rw [Nat.zero_add] at hoff ⊢
    exact copyChunks_eq P.order hchunks hb hoff
  rw [← bind_assoc, hcopy, blitOrStop_zeros]
  split_ifs <;> rfl

theorem propertiesReturn_of_ok {r : Option Bytes}
    (h : writeObject P w entry (fuel + 1) path (some x) = .ok r) :
    PropertiesReturn P w entry fuel path x := by
  change (collectChunks P w (fun i => writeValue P w entry fuel (i :: path)) x 0 _ [] _ >>= _) = _ at h
  cases hc : collectChunks P w (fun i => writeValue P w entry fuel (i :: path)) x 0
      (P.types.listProperties (w.cls x)) []
      (guint (entry path + (objectHeader (P.types.typeName (w.cls x))).length)) with
  | error e =>
    rw [hc] at h
    cases h
  | ok r => exact values_return hc

/-! ## The size -/

/-- **The size is exact**: the reported length is the size of the encoding, nothing is written
outside the buffer, and only the sentinel is left as it was allocated. -/
def SizeExact : Prop :=
  ∃ buf, writeObject P w entry (fuel + 1) path (some x) = .ok (some buf) ∧
    buf.length = objectSize P w entry fuel path x ∧
    buf = objectBody P w entry fuel path x ++ [0]

variable {P w entry fuel path x}

/-- **The size is exact exactly when `total` starts at zero.** -/
theorem sizeExact_iff (hr : PropertiesReturn P w entry fuel path x)
    (hs : objectSize P w entry fuel path x < 2 ^ 32) :
    SizeExact P w entry fuel path x ↔ guint (entry path) = 0 := by
  have hlen := length_objectBody P w entry fuel path x
  have hn : guint (entry path + objectSize P w entry fuel path x) =
      guint (guint (entry path) + objectSize P w entry fuel path x) := by
    unfold guint
    rw [Nat.mod_add_mod]
  unfold SizeExact
  rw [writeObject_eq P w entry fuel path x hr]
  dsimp only
  rw [hn]
  constructor
  · rintro ⟨buf, h, hbuf, _⟩
    split_ifs at h with hle
    cases h
    rw [List.length_append, length_zeros] at hbuf
    have hg := guint_lt (entry path)
    generalize guint (entry path) = g at *
    unfold guint at hle hbuf
    omega
  · intro h
    rw [h, Nat.zero_add, guint_of_lt hs, if_pos (by omega), ← hlen, Nat.add_sub_cancel_left]
    exact ⟨_, rfl, by simp, rfl⟩

/-- An object of the given class, with properties that were never set. -/
def World.unset (ts : TypeSystem) (c : ℕ) : World ts Unit where
  cls _ := c
  property _ p := .initial p.valueType
  typed _ _ := GValue.type_initial _
  instanceOf _ _ c y h := absurd h (GValue.initial_ne_object _ c y)

/-- Such an object of a class of the small process. -/
def blank (c : ℕ) : World sampleProcess.types Unit := .unset _ c

/-- Objects of the class `A` with `p = -1` and `q = ""`; the one has the other in `r`, whose own `r` is
`NULL`. -/
def family : World sampleProcess.types Bool where
  cls _ := 0
  property b p :=
    match p.valueType with
    | .integer .int => .plain (.integer .int (-1))
    | .string => .plain (.string (some .empty))
    | .object 0 => .object 0 (if b then some false else none)
    | t => .initial t
  typed _ p := by
    split
    · next h => exact h.symm
    · next h => exact h.symm
    · next h => exact h.symm
    · exact GValue.type_initial _
  instanceOf _ p c y h := by
    split at h
    · cases h
    · cases h
    · injection h with hc
      subst hc
      rfl
    · exact absurd h (GValue.initial_ne_object _ c y)

/-- The encoding of the object with the other one in it: `r`, `q` and `p`. -/
def familyBytes : Bytes :=
  [15, 2, 65, 0,
    2, 114, 0, 0, 0, 0, 30, 15, 2, 65, 0,
      2, 113, 0, 0, 0, 0, 6, 14, 0, 0, 0, 1, 0, 2, 112, 0, 0, 0, 0, 5, 4, 255, 255, 255, 255, 0,
    2, 113, 0, 0, 0, 0, 6, 14, 0, 0, 0, 1, 0, 2, 112, 0, 0, 0, 0, 5, 4, 255, 255, 255, 255, 0]

/-- The size of the object with the other one in it. -/
theorem sizeExact_iff_family :
    SizeExact sampleProcess family (fun _ => 0) 3 [] true ↔ guint 0 = 0 :=
  sizeExact_iff (propertiesReturn_of_ok sampleProcess family (fun _ => 0) 3 [] true
    (r := some familyBytes) rfl) (by decide)

/-- **A `total` that happens to be one**: the buffer is a byte too long. -/
theorem uninitialized_total :
    objectSize sampleProcess (blank 1) (fun _ => 1) 0 [] () = 5 ∧
      writeObject sampleProcess (blank 1) (fun _ => 1) 1 [] (some ()) =
        .ok (some [15, 2, 66, 0, 0, 0]) ∧
      ¬ SizeExact sampleProcess (blank 1) (fun _ => 1) 0 [] () := by
  have h : writeObject sampleProcess (blank 1) (fun _ => 1) 1 [] (some ()) =
      .ok (some [15, 2, 66, 0, 0, 0]) := by decide
  refine ⟨by decide, h, ?_⟩
  rintro ⟨buf, hbuf, hlen, _⟩
  rw [h] at hbuf
  cases hbuf
  exact absurd hlen (by decide)

end Buffer

end Catalina
