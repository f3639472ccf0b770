import Catalina.Formatter.Recursion
import Catalina.Formatter.Align

/-!
# The encoding of a value

What the writer makes of a value, as a relation without fuel, buffers and `total`.

* `Encodes`: the bytes of a value; `written`: the properties of an object that are in its encoding.
* `writeInteger_eq`, `writeString_eq`, `writeText_eq`: the writers of values that are not objects.
* **`writes_of_encodes`**: with every `total` starting at zero, the writer answers the encoding;
  `serializes_of_encodes`: and `catalina_formatter_serialize` puts the version and flags before it.
-/

namespace Catalina

/-! ## The relation -/

/-- The tag of an integer type. -/
def IntType.tag : IntType → Tag
  | .boolean => .boolean
  | .char => .char
  | .uchar => .uchar
  | .int => .int
  | .uint => .uint
  | .long => .long
  | .ulong => .ulong
  | .int64 => .int64
  | .uint64 => .uint64

/-- The number of bytes that an integer takes: a `gboolean` is cut to one. -/
def IntType.size : IntType → ℕ
  | .boolean | .char | .uchar => 1
  | .int | .uint => 4
  | .long | .ulong | .int64 | .uint64 => 8

/-- A tag, the length of a text with its NUL and the text. -/
def textBytes (t : Tag) (s : CString) : Bytes := t.id :: (beBytes 4 (s.strlen + 1) ++ s.stored)

/-- A property: the length of its name with the NUL, the name, the length of the value and the
value. -/
def propertyBytes (name : CString) (value : Bytes) : Bytes :=
  UInt8.ofNat (name.strlen + 1) :: (name.stored ++ beBytes 4 value.length ++ value)

variable (P : Process) {ω : Type} (w : World P.types ω)

/-- The properties of `x` that have something to write, in the order of the class. -/
def written (x : ω) : List ParamSpec :=
  (P.types.listProperties (w.cls x)).filter fun p => decide (w.property x p).Writable

/-- **The encoding of a value.** -/
inductive Encodes : GValue ω → Bytes → Prop
  | integer (t : IntType) (x : BitVec t.bits) :
      Encodes (.plain (.integer t x)) (t.tag.id :: beBytes t.size x.toNat)
  | null : Encodes (.plain (.string none)) (Tag.string.id :: beBytes 4 0)
  | string (s : CString) : Encodes (.plain (.string (some s))) (textBytes .string s)
  | double (x : BitVec 64) : Encodes (.plain (.double x)) (textBytes .double (P.printDouble x))
  | float (x : BitVec 32) : Encodes (.plain (.float x)) (textBytes .float (P.printFloat x))
  | object {c : ℕ} {x : ω} (field : ParamSpec → Bytes)
      (h : ∀ p ∈ written P w x, Encodes (w.property x p) (field p)) :
      Encodes (.object c (some x)) (objectHeader (P.types.typeName (w.cls x)) ++
        (written P w x).reverse.flatMap (fun p => propertyBytes p.name (field p)) ++ [0])

variable {P w}

theorem mem_written {x : ω} {p : ParamSpec} : p ∈ written P w x ↔
    p ∈ P.types.listProperties (w.cls x) ∧ (w.property x p).Writable := by
  rw [written, List.mem_filter, decide_eq_true_eq]

theorem writeInteger_eq (o : ByteOrder) (t : IntType) (x : BitVec t.bits) :
    writeInteger o t x = t.tag.id :: beBytes t.size x.toNat := by
  cases t with
  | boolean | char | uchar => rfl
  | int | uint | int64 | uint64 | long | ulong => exact writeWord_eq o _ _ _

theorem zeros_add (a b : ℕ) : zeros (a + b) = zeros a ++ zeros b := List.replicate_add ..

theorem writeString_null (o : ByteOrder) :
    writeString o none = .ok (Tag.string.id :: beBytes 4 0) := by
  cases o <;> rfl

theorem writeString_eq (o : ByteOrder) {s : CString} (hs : s.strlen + 6 < 2 ^ 32) :
    writeString o (some s) = .ok (textBytes .string s) := by
  have hlen : s.stored.length = s.strlen + 1 := s.length_stored
  have htake : s.stored.take (s.strlen + 1) = s.stored := List.take_of_length_le hlen.le
  have hsize : guint (1 + 4 + (s.strlen + 1)) = 1 + 4 + (s.strlen + 1) := guint_of_lt (by omega)
  unfold writeString
  dsimp only
  rw [guint_of_lt (show s.strlen + 1 < 2 ^ 32 by omega), hsize, htake]
  -- the tag, the string and then the length between them
  have h₁ : blitOrStop (zeros (1 + 4 + (s.strlen + 1))) 0 [Tag.string.id] =
      .ok ([Tag.string.id] ++ zeros 4 ++ zeros (s.strlen + 1)) := by
    rw [zeros_add, zeros_add, List.append_assoc]
    exact blitOrStop_middle [] _ _ rfl rfl
  have h₂ : blitOrStop ([Tag.string.id] ++ zeros 4 ++ zeros (s.strlen + 1)) 5 s.stored =
      .ok ([Tag.string.id] ++ zeros 4 ++ s.stored) := by
    have h := blitOrStop_middle ([Tag.string.id] ++ zeros 4) (zeros (s.strlen + 1)) [] rfl
      (hlen.trans (length_zeros _).symm)
    rwa [List.append_nil, List.append_nil] at h
  rw [h₁]
  change (blitOrStop _ 5 s.stored >>= _) = _
  rw [h₂, image_toBE]
  exact blitOrStop_middle [Tag.string.id] _ _ rfl ((length_beBytes 4 _).trans (length_zeros 4).symm)

theorem writeText_eq (o : ByteOrder) (t : Tag) {s : CString} (hs : s.strlen + 6 < 2 ^ 32) :
    writeText o t s = .ok (textBytes t s) := by
  rw [writeText, writeString_eq o hs]
  change blitOrStop ([] ++ [Tag.string.id] ++ (beBytes 4 (s.strlen + 1) ++ s.stored)) 0 [t.id] = _
  exact blitOrStop_middle [] [Tag.string.id] _ rfl rfl

@[simp] theorem length_textBytes (t : Tag) (s : CString) :
    (textBytes t s).length = s.strlen + 6 := by
  simp only [textBytes, List.length_cons, List.length_append, length_beBytes,
    CString.length_stored]
  omega

/-! ## The writer of objects -/

section Writes

variable {entry : List ℕ → ℕ} {n : ℕ} {path : List ℕ} {x : ω} {field : ParamSpec → Bytes}

theorem chunkBytes_eq {name : CString} (h : name.strlen + 1 < 2 ^ 32) (value : Bytes) :
    chunkBytes ⟨name, guint (name.strlen + 1), value⟩ = propertyBytes name value := by
  rw [chunkBytes, guint_of_lt h, List.take_of_length_le name.length_stored.le]
  rfl

theorem writtenChunks_eq {write : ℕ → GValue ω → Except Stop (Option Bytes)} {i : ℕ}
    {params : List ParamSpec} (hw : ∀ p ∈ params, ∀ i, (w.property x p).Writable →
      write i (w.property x p) = .ok (some (field p)))
    (hn : ∀ p ∈ params, ∀ i, ¬ (w.property x p).Writable →
      ∀ value, write i (w.property x p) ≠ .ok (some value)) :
    writtenChunks w write x i params =
      (params.filter fun p => decide (w.property x p).Writable).map
        fun p => ⟨p.name, guint (p.name.strlen + 1), field p⟩ := by
  induction params generalizing i with
  | nil => rfl
  | cons p params ih =>
    have htail := ih (i := i + 1) (fun q hq => hw q (List.mem_cons_of_mem _ hq))
      fun q hq => hn q (List.mem_cons_of_mem _ hq)
    rw [writtenChunks]
    by_cases hp : (w.property x p).Writable
    · have hc : canSerializeType p.valueType = true := by
        rw [← w.typed x p]
        exact GValue.canSerialize_of_writable hp
      rw [hc, hw p List.mem_cons_self i hp, List.filter_cons, if_pos (decide_eq_true hp),
        List.map_cons, ← htail]
    · rw [List.filter_cons, if_neg (by simpa using hp), ← htail]
      split
      · next value _ hv => exact absurd hv (hn p List.mem_cons_self i hp value)
      · rfl

theorem length_propertyBytes (name : CString) (value : Bytes) :
    (propertyBytes name value).length = 1 + (name.strlen + 1) + 4 + value.length := by
  simp only [propertyBytes, List.length_cons, List.length_append, CString.length_stored,
    length_beBytes]
  omega

theorem length_propertyBytes_le (field : ParamSpec → Bytes) {p : ParamSpec}
    (hp : p ∈ written P w x) :
    (propertyBytes p.name (field p)).length ≤
      ((written P w x).reverse.flatMap fun p => propertyBytes p.name (field p)).length :=
  length_le_flatMap (f := fun p => propertyBytes p.name (field p)) (List.mem_reverse.mpr hp)

theorem length_field_lt {header : Bytes} (hs : (header ++ (written P w x).reverse.flatMap
      (fun p : ParamSpec => propertyBytes p.name (field p)) ++ [0]).length < 2 ^ 32) :
    ∀ p ∈ written P w x, (field p).length < 2 ^ 32 := by
  intro p hp
  have hle := length_propertyBytes_le field hp
  rw [length_propertyBytes] at hle
  rw [List.length_append, List.length_append] at hs
  omega

theorem writeValue_none {v : GValue ω} (hv : ¬ v.Writable) (n : ℕ) (path : List ℕ) :
    writeValue P w entry (n + 1) path v = .ok none := by
  cases v with
  | plain p => exact absurd trivial hv
  | void | other _ => rfl
  | object c y =>
    cases y with
    | none => rfl
    | some y => exact absurd trivial hv

/-- **The buffer of an object**, given what is written for the values of its properties. -/
theorem writeObject_of_fields {bs : Bytes} (h₀ : guint (entry path) = 0)
    (hbs : bs = objectHeader (P.types.typeName (w.cls x)) ++
      (written P w x).reverse.flatMap (fun p => propertyBytes p.name (field p)) ++ [0])
    (hs : bs.length < 2 ^ 32)
    (hw : ∀ p ∈ written P w x, ∀ i,
      writeValue P w entry (n + 1) (i :: path) (w.property x p) = .ok (some (field p))) :
    writeObject P w entry (n + 2) path (some x) = .ok (some bs) := by
  have hnone : ∀ p i, ¬ (w.property x p).Writable →
      writeValue P w entry (n + 1) (i :: path) (w.property x p) = .ok none :=
    fun p i hp => writeValue_none hp n (i :: path)
  have hret : PropertiesReturn P w entry (n + 1) path x := by
    intro k p hk _
    by_cases hp : (w.property x p).Writable
    · exact ⟨_, hw p (mem_written.mpr ⟨List.mem_of_getElem? hk, hp⟩) _⟩
    · exact ⟨_, hnone p _ hp⟩
  have hchunks : objectChunks P w entry (n + 1) path x =
      (written P w x).map fun p => ⟨p.name, guint (p.name.strlen + 1), field p⟩ :=
    writtenChunks_eq (fun p hp i hv => hw p (mem_written.mpr ⟨hp, hv⟩) i) fun p _ i hp value => by
      rw [hnone p i hp]
      exact nofun
  have hname : ∀ p ∈ (written P w x).reverse, p.name.strlen + 1 < 2 ^ 32 := by
    intro p hp
    have hle := length_propertyBytes_le field (List.mem_reverse.mp hp)
    rw [length_propertyBytes] at hle
    rw [hbs, List.length_append, List.length_append] at hs
    omega
  have hbody : objectBody P w entry (n + 1) path x ++ [0] = bs := by
    rw [objectBody, hchunks, ← List.map_reverse, List.flatMap_map, hbs,
      List.flatMap_congr fun p hp => chunkBytes_eq (hname p hp) (field p)]
  have hlen := length_objectBody P w entry (n + 1) path x
  have hsize : objectSize P w entry (n + 1) path x = bs.length := by
    rw [← hbody, List.length_append, List.length_singleton, hlen]
  have hn : guint (entry path + objectSize P w entry (n + 1) path x) =
      (objectBody P w entry (n + 1) path x).length + 1 := by
    rw [guint_add_of_zero h₀, guint_of_lt (hsize ▸ hs), hlen]
  rw [writeObject_eq P w entry (n + 1) path x hret]
  dsimp only
  rw [hn, if_pos (Nat.le_succ _), Nat.add_sub_cancel_left, ← hbody]
  rfl

/-- **The writer answers the encoding**, if every `total` starts at zero. -/
theorem writes_of_encodes (h₀ : ∀ path, guint (entry path) = 0) {v : GValue ω} {bs : Bytes}
    (he : Encodes P w v bs) (hs : bs.length < 2 ^ 32) :
    ∃ N, ∀ n, N ≤ n → ∀ path, writeValue P w entry n path v = .ok (some bs) := by
  induction he with
  | integer t y =>
    refine ⟨0, fun n _ path => ?_⟩
    rw [← writeInteger_eq P.order]
    rfl
  | null =>
    refine ⟨0, fun n _ path => ?_⟩
    change some <$> writeString P.order none = _
    rw [writeString_null]
    rfl
  | string s =>
    refine ⟨0, fun n _ path => ?_⟩
    change some <$> writeString P.order (some s) = _
    rw [writeString_eq P.order (by rwa [length_textBytes] at hs)]
    rfl
  | double y | float y =>
    refine ⟨0, fun n _ path => ?_⟩
    change some <$> writeText P.order _ _ = _
    rw [writeText_eq P.order _ (by rwa [length_textBytes] at hs)]
    rfl
  | @object c x field _ ih =>
    have hlen : ∀ p ∈ written P w x, (field p).length < 2 ^ 32 := length_field_lt hs
    obtain ⟨N, hN⟩ := common_bound
      (p := fun N p => ∀ n, N ≤ n → ∀ path,
        writeValue P w entry n path (w.property x p) = .ok (some (field p)))
      (fun n k p hk hp m hm => hp m (by omega)) (written P w x) fun p hp => ih p hp (hlen p hp)
    refine ⟨N + 2, fun n hn path => ?_⟩
    obtain ⟨n, rfl⟩ : ∃ k, n = k + 2 := ⟨n - 2, by omega⟩
    exact writeObject_of_fields (h₀ path) rfl hs fun p hp i => hN p hp (n + 1) (by omega) _

/-- **`catalina_formatter_serialize` answers the version, the flags and the encoding.** -/
theorem serializes_of_encodes (h₀ : ∀ path, guint (entry path) = 0) {v : GValue ω} {bs : Bytes}
    (he : Encodes P w v bs) (hs : bs.length + 2 < 2 ^ 32) :
    ∃ N, ∀ n, N ≤ n → realSerialize P w entry n v = .ok (1 :: 0 :: bs) := by
  obtain ⟨N, hN⟩ := writes_of_encodes h₀ he (by omega)
  refine ⟨N, fun n hn => ?_⟩
  have h₁ : blitOrStop (zeros (2 + bs.length)) 0 [1] = .ok ([1] ++ zeros 1 ++ zeros bs.length) := by
    rw [zeros_add]
    exact blitOrStop_middle [] (zeros 1) (zeros 1 ++ zeros bs.length) rfl rfl
  have h₂ : blitOrStop ([1] ++ zeros 1 ++ zeros bs.length) 1 [0] =
      .ok ([1] ++ [0] ++ zeros bs.length) := blitOrStop_middle [1] (zeros 1) _ rfl rfl
  have h₃ : blitOrStop ([1] ++ [0] ++ zeros bs.length) 2 bs = .ok (1 :: 0 :: bs) := by
    have h := blitOrStop_middle ([1] ++ [0]) (zeros bs.length) [] rfl
      (length_zeros _).symm
    rwa [List.append_nil, List.append_nil] at h
  unfold realSerialize
  rw [hN n hn []]
  change (blitOrStop (zeros (guint (2 + bs.length))) 0 [1] >>= fun b =>
    blitOrStop b 1 [0] >>= fun b => blitOrStop b 2 bs) = _
  rw [guint_of_lt (by omega), h₁]
  change (blitOrStop ([1] ++ zeros 1 ++ zeros bs.length) 1 [0] >>= fun b =>
    blitOrStop b 2 bs) = _
  rw [h₂]
  exact h₃

end Writes

end Catalina
