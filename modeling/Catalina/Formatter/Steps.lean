import Catalina.Formatter.Read

/-!
# The readers one by one

What each reader does, in terms of the bytes in memory.

* `be32`, `textAt`, `Fits`: the length field of a string or text, the text, and the comparison of
  the length with the one that was given.
* `Tag.word`, `Tag.text`: the tags of numbers in binary and of numbers as texts.
* `readTag_word`, `readTag_string`, `readTag_text`, `readObjectWith_run`: the branches of
  `catalina_binary_formatter_read_value`; `readProps_prop`: a round of the loop over the properties.
* `keeps_readProps`, `keeps_readValue`, `keeps_readObject`: in the end the memory is as before.
* **`readProps_refines`**: more fuel keeps every answer.
-/

namespace Catalina

open Probe

/-! ## Numbers -/

/-- The big-endian number in the four bytes at `a`. -/
def be32 (m : Memory) (a : ℕ) : ℕ := ofBeBytes (bytesAt m a 4)

theorem toBE_bytesAt (o : ByteOrder) (m : Memory) (a k : ℕ) :
    toBE o k (ofImage o (bytesAt m a k)) = ofBeBytes (bytesAt m a k) := by
  have h := toBE_ofImage o (bytesAt m a k)
  rwa [length_bytesAt] at h

theorem gchar_mod (w x : ℕ) : gchar w (x % 256 ^ 1) = gchar w x := by
  have h : BitVec.ofNat 8 (x % 256 ^ 1) = BitVec.ofNat 8 x := by
    apply BitVec.eq_of_toNat_eq
    simp
  rw [gchar, gchar, h]

/-- The tags of integers: the number of bytes, and the value they make. -/
def Tag.word : Tag → Option (ℕ × (ℕ → Plain))
  | .boolean => some (1, fun x => .integer .boolean (gboolean (gchar 32 x)))
  | .int64 => some (8, fun x => .integer .int64 (BitVec.ofNat 64 x))
  | .uint64 => some (8, fun x => .integer .uint64 (BitVec.ofNat 64 x))
  | .long => some (8, fun x => .integer .long (BitVec.ofNat 64 x))
  | .ulong => some (8, fun x => .integer .ulong (BitVec.ofNat 64 x))
  | .int => some (4, fun x => .integer .int (BitVec.ofNat 32 x))
  | .uint => some (4, fun x => .integer .uint (BitVec.ofNat 32 x))
  | .short => some (2, fun x => .integer .int ((BitVec.ofNat 16 x).signExtend 32))
  | .ushort => some (2, fun x => .integer .int ((BitVec.ofNat 16 x).zeroExtend 32))
  | .char => some (1, fun x => .integer .char (BitVec.ofNat 8 x))
  | .uchar => some (1, fun x => .integer .uchar (BitVec.ofNat 8 x))
  | .double | .float | .string | .object => none

variable {m : Memory} {lim a l : ℕ}

theorem readWord_run (o : ByteOrder) {t : Tag} (ht : m a = t.id) (k : ℕ) :
    (readWord o t k k lim a l).run m =
      ⟨decide (l = 1 + k → a < lim ∧ (k = 0 ∨ a + 1 + k ≤ lim)),
        .ok (if l = 1 + k then some (ofBeBytes (bytesAt m (a + 1) k)) else none), m⟩ := by
  unfold readWord
  by_cases hl : l = 1 + k
  · rw [if_neg (by simpa using hl), run_peekByte_bind, if_neg (by simpa using ht), run_peek_bind,
      if_neg (by omega)]
    simp [hl, toBE_bytesAt]
  · rw [if_pos hl]
    simp [hl]

/-- The reader of another tag looks at no more than the first byte. -/
theorem readWord_other (o : ByteOrder) {t : Tag} (ht : m a ≠ t.id) (size k : ℕ) :
    (readWord o t size k lim a l).run m = ⟨decide (l = 1 + k → a < lim), .ok none, m⟩ := by
  unfold readWord
  by_cases hl : l = 1 + k
  · rw [if_neg (by simpa using hl), run_peekByte_bind, if_pos ht]
    simp [hl]
  · rw [if_pos hl]
    simp [hl]

theorem setInteger_map {w k : ℕ} (x : ℕ) {g : ℕ → BitVec w} (c : BitVec w → Plain) (h₀ : g 0 = 0) :
    setInteger ((if l = 1 + k then some x else none).map g) c =
      ⟨decide (l = 1 + k), some (.plain (c (g (if l = 1 + k then x else 0)))), none⟩ := by
  by_cases hl : l = 1 + k
  · simp [setInteger, hl]
  · simp [setInteger, hl, h₀]

theorem setInteger_run {w k x : ℕ} {p : Probe Stop (Option (BitVec w))} {g : ℕ → BitVec w}
    {b : Bool} (c : BitVec w → Plain)
    (hp : p.run m = ⟨b, .ok ((if l = 1 + k then some x else none).map g), m⟩) (h₀ : g 0 = 0) :
    (p >>= fun r => pure (setInteger r c)).run m = ⟨b, .ok ⟨decide (l = 1 + k),
      some (.plain (c (g (if l = 1 + k then x else 0)))), none⟩, m⟩ := by
  rw [map_ok hp, setInteger_map x c h₀]

variable (P : Process) (ro : ℕ → ℕ → ℕ → Probe Stop ObjectRead)

theorem readTag_word {t : Tag} {k : ℕ} {f : ℕ → Plain} (ht : m a = t.id)
    (hw : t.word = some (k, f)) : (readTag P ro lim a l t).run m =
      ⟨decide (l = 1 + k → a < lim ∧ (k = 0 ∨ a + 1 + k ≤ lim)),
        .ok ⟨decide (l = 1 + k),
          some (.plain (f (if l = 1 + k then ofBeBytes (bytesAt m (a + 1) k) else 0))), none⟩, m⟩ := by
  have hr : ∀ k, (readWord P.order t k k lim a l).run m = _ := readWord_run P.order ht
  have hlong : ∀ c : BitVec 64 → Plain, (readWord P.order t 8 8 lim a l >>= fun r =>
      pure (setInteger (r.map (BitVec.ofNat 64)) c)).run m = _ := fun c =>
    (map_ok (hr 8) fun r => setInteger (r.map (BitVec.ofNat 64)) c).trans
      (by rw [setInteger_map _ c rfl])
  cases t with
  | boolean =>
    cases hw
    exact setInteger_run (fun v => .integer .boolean (gboolean v)) (map_ok (hr 1) _) rfl
  | char | uchar => cases hw; exact setInteger_run _ (map_ok (hr 1) _) rfl
  | short =>
    cases hw
    exact setInteger_run (fun v => .integer .int (v.signExtend 32)) (map_ok (hr 2) _) rfl
  | ushort =>
    cases hw
    exact setInteger_run (fun v => .integer .int (v.zeroExtend 32)) (map_ok (hr 2) _) rfl
  | int | uint => cases hw; exact setInteger_run _ (map_ok (hr 4) _) rfl
  | int64 | uint64 => cases hw; exact setInteger_run _ (map_ok (hr 8) _) rfl
  | long => cases hw; exact hlong (.integer .long)
  | ulong => cases hw; exact hlong (.integer .ulong)
  | double | float | string | object => cases hw

/-! ## Strings and texts -/

/-- The text of a string or number at `a`. -/
def textAt (m : Memory) (a : ℕ) : Bytes := bytesAt m (a + 5) (be32 m (a + 1))

/-- The length field, as a `guint` five larger, is the length that was given. -/
def Fits (m : Memory) (a l : ℕ) : Prop := guint (be32 m (a + 1) + 5) = l

instance (m : Memory) (a l : ℕ) : Decidable (Fits m a l) := by unfold Fits; infer_instance

@[simp] theorem length_textAt (m : Memory) (a : ℕ) : (textAt m a).length = be32 m (a + 1) :=
  length_bytesAt m _ _

/-- The bytes that the length field and, if it is right, the text take. -/
def StringInside (m : Memory) (lim a l : ℕ) : Prop :=
  a < lim ∧ a + 5 ≤ lim ∧ be32 m (a + 1) + 5 < 2 ^ 32 ∧
    (Fits m a l → be32 m (a + 1) = 0 ∨ a + 5 + be32 m (a + 1) ≤ lim)

instance (m : Memory) (lim a l : ℕ) : Decidable (StringInside m lim a l) := by
  unfold StringInside
  infer_instance

theorem readString_run (o : ByteOrder) (ht : m a = Tag.string.id) :
    (readString o lim a l).run m = ⟨decide (StringInside m lim a l),
      .ok (if Fits m a l then ⟨true, allocated (textAt m a), be32 m (a + 1)⟩
        else ⟨false, none, 0⟩), m⟩ := by
  unfold readString
  rw [run_peekByte_bind, if_neg (by simpa using ht), run_peek_bind]
  dsimp only
  rw [run_check_bind, toBE_bytesAt, show ofBeBytes (bytesAt m (a + 1) 4) = be32 m (a + 1) from rfl]
  unfold StringInside
  by_cases hf : Fits m a l
  · rw [if_neg (by simpa [Fits] using hf), run_peek_bind]
    simp [hf, textAt, Nat.add_assoc]
  · rw [if_pos (by simpa [Fits] using hf)]
    simp [hf, Nat.add_assoc]

section Texts

variable {w : ℕ} {t : Tag} (strto : CString → Strto w) (error : Option GError)

/-- What the reader of a number that is a text answers. -/
def textOutcome (m : Memory) (a l : ℕ) : Except Stop (FloatRead w) :=
  if Fits m a l then
    if be32 m (a + 1) = 0 then .error .outOfBounds
    else
      let d := strto (cstring P.beyond (textAt m a))
      .ok ⟨!d.errno, some d.value, if d.errno then error else none⟩
  else .ok ⟨false, none, none⟩

theorem textAt_update (m : Memory) (a : ℕ) (b : UInt8) :
    be32 (Function.update m a b) (a + 1) = be32 m (a + 1) ∧
      textAt (Function.update m a b) a = textAt m a := by
  have h : ∀ i, a < i → Function.update m a b i = m i := fun i hi =>
    Function.update_of_ne (by omega) b m
  have h₁ : be32 (Function.update m a b) (a + 1) = be32 m (a + 1) :=
    congrArg ofBeBytes (bytesAt_congr fun i hi _ => h i (by omega))
  refine ⟨h₁, ?_⟩
  unfold textAt
  rw [h₁]
  exact bytesAt_congr fun i hi _ => h i (by omega)

theorem fits_update (m : Memory) (a l : ℕ) (b : UInt8) :
    Fits (Function.update m a b) a l ↔ Fits m a l := by
  unfold Fits
  rw [(textAt_update m a b).1]

theorem convertText_run (text : Bytes) (n : ℕ) :
    (convertText P strto error ⟨true, allocated text, n⟩).run m =
      ⟨decide (text ≠ [] ∧ (strto (cstring P.beyond text)).scanned ≤ text.length),
        if text = [] then .error .outOfBounds
        else .ok ⟨!(strto (cstring P.beyond text)).errno,
          some (strto (cstring P.beyond text)).value,
          if (strto (cstring P.beyond text)).errno then error else none⟩, m⟩ := by
  unfold convertText allocated
  by_cases h : text = []
  · simp [h]
  · simp [h]

theorem readText_run (ht : m a = t.id) :
    ((readText P t strto error lim a l).run m).result = textOutcome P strto error m a l ∧
      (((readText P t strto error lim a l).run m).inside = true ↔ StringInside m lim a l ∧
        (Fits m a l → be32 m (a + 1) ≠ 0 ∧
          (strto (cstring P.beyond (textAt m a))).scanned ≤ be32 m (a + 1))) ∧
      Keeps (readText P t strto error lim a l) m := by
  have hu := textAt_update m a Tag.string.id
  have hf := fits_update m a l Tag.string.id
  have hback : ∀ b, Function.update (Function.update m a b) a t.id = m := fun b => by
    rw [Function.update_idem, ← ht, Function.update_eq_self]
  have hS : StringInside (Function.update m a Tag.string.id) lim a l ↔ StringInside m lim a l := by
    unfold StringInside
    rw [hu.1, hf]
  have ha : StringInside m lim a l → a < lim := And.left
  have hnil : textAt m a = [] ↔ be32 m (a + 1) = 0 := by
    rw [← length_textAt, List.length_eq_zero_iff]
  have hr : (readString P.order lim a l).run (Function.update m a Tag.string.id) = _ :=
    readString_run P.order (Function.update_self a _ m)
  unfold readText textOutcome Keeps
  rw [run_poke_bind, bind_ok hr]
  by_cases hfit : Fits m a l
  · rw [if_pos (hf.mpr hfit), hu.1, hu.2]
    have hc := convertText_run (m := Function.update m a Tag.string.id) P strto error (textAt m a)
      (be32 m (a + 1))
    by_cases h₀ : be32 m (a + 1) = 0
    · rw [if_pos (hnil.mpr h₀)] at hc
      rw [bind_error hc]
      simp [hfit, h₀, hnil]
    · rw [if_neg (mt hnil.mp h₀)] at hc
      rw [bind_ok hc]
      simp [hfit, h₀, hnil, hS, hback]
      exact ⟨fun h => ⟨h.2.1, h.2.2.1⟩, fun h => ⟨ha h.1, h.1, h.2, ha h.1⟩⟩
  · rw [if_neg (mt hf.mp hfit)]
    have hc : (convertText P strto error ⟨false, none, 0⟩).run
        (Function.update m a Tag.string.id) =
          ⟨true, .ok ⟨false, none, none⟩, Function.update m a Tag.string.id⟩ := rfl
    rw [bind_ok hc]
    simp [hfit, hS, hback]
    exact ⟨fun h => h.2.1, fun h => ⟨ha h, h, ha h⟩⟩

end Texts

/-! ## Values -/

/-- The value of a string field: the text if it ends in its only NUL; nothing is set if it is any
other text. -/
def stringValue (m : Memory) (a : ℕ) : Option (GValue GObject) :=
  if be32 m (a + 1) = 0 then some (.plain (.string none))
  else if OneNul (textAt m a) then some (.plain (.string (some (CString.ofBytes (textAt m a)))))
  else none

theorem strlen_cstring (beyond : Bytes → CString) (bs : Bytes) :
    (cstring beyond bs).strlen + 1 = bs.length ↔ OneNul bs := by
  unfold cstring
  split_ifs with h
  · exact oneNul_iff.symm
  · constructor
    · intro h₁
      have : bs.length ≤ (CString.append bs h (beyond bs)).strlen := by
        simp [CString.append, CString.strlen]
      omega
    · rintro ⟨s, rfl⟩
      exact absurd s.zero_mem_stored h

theorem readTag_string (ht : m a = Tag.string.id) :
    (readTag P ro lim a l .string).run m =
      ⟨decide (StringInside m lim a l ∧
        (Fits m a l → be32 m (a + 1) = 0 ∨ 0 ∈ textAt m a)),
        .ok (if Fits m a l then ⟨true, stringValue m a, none⟩
          else ⟨false, some (.plain (.string none)), none⟩), m⟩ := by
  have hr : (readString P.order lim a l).run m = _ := readString_run P.order ht
  have hnil : textAt m a = [] ↔ be32 m (a + 1) = 0 := by
    rw [← length_textAt, List.length_eq_zero_iff]
  unfold readTag
  by_cases hf : Fits m a l
  · rw [if_pos hf] at hr
    rw [bind_ok hr]
    by_cases h₀ : be32 m (a + 1) = 0
    · simp [allocated, hnil, h₀, hf, stringValue]
    · have hs : (cstring P.beyond (textAt m a)).strlen + 1 = be32 m (a + 1) ↔
          OneNul (textAt m a) := by
        rw [← length_textAt m a]
        exact strlen_cstring P.beyond (textAt m a)
      by_cases hn : OneNul (textAt m a)
      · have hc : cstring P.beyond (textAt m a) = CString.ofBytes (textAt m a) := by
          obtain ⟨s, h⟩ := hn
          rw [h, cstring_stored, CString.ofBytes_stored]
        rw [hc] at hs
        simp [allocated, hnil, h₀, hf, stringValue, hs, hn, hc]
      · simp [allocated, hnil, h₀, hf, stringValue, hs, hn]
  · rw [if_neg hf] at hr
    rw [bind_ok hr]
    simp [hf]

/-- How a number is made of a text: the value, whether `errno` is set, the characters looked at, and
the error that is reported then. -/
structure TextForm where
  zero : Plain
  value : CString → Plain
  errno : CString → Bool
  scanned : CString → ℕ
  error : Option GError

/-- The tags of numbers that are texts. -/
def Tag.text : Tag → Option TextForm
  | .double => some ⟨.double 0, fun s => .double (P.strtod s).value, fun s => (P.strtod s).errno,
      fun s => (P.strtod s).scanned, some precisionError⟩
  | .float => some ⟨.float 0, fun s => .float (P.strtof s).value, fun s => (P.strtof s).errno,
      fun s => (P.strtof s).scanned, none⟩
  | _ => none

theorem Tag.text_of_word {t : Tag} {p : ℕ × (ℕ → Plain)} (hw : t.word = some p) :
    t.text P = none := by
  cases t <;> first | rfl | cases hw

/-- What the branch of a text answers. -/
def TextForm.outcome (F : TextForm) (m : Memory) (a l : ℕ) : Except Stop ReadResult :=
  if Fits m a l then
    if be32 m (a + 1) = 0 then .error .outOfBounds
    else
      let s := cstring P.beyond (textAt m a)
      .ok ⟨!F.errno s, some (.plain (F.value s)), if F.errno s then F.error else none⟩
  else .ok ⟨false, some (.plain F.zero), none⟩

theorem readTag_text {t : Tag} {F : TextForm} (ht : m a = t.id) (hF : t.text P = some F) :
    ((readTag P ro lim a l t).run m).result = F.outcome P m a l ∧
      (((readTag P ro lim a l t).run m).inside = true ↔ StringInside m lim a l ∧
        (Fits m a l → be32 m (a + 1) ≠ 0 ∧
          F.scanned (cstring P.beyond (textAt m a)) ≤ be32 m (a + 1))) ∧
      Keeps (readTag P ro lim a l t) m := by
  have key : ∀ {w : ℕ} (strto : CString → Strto w) (c : BitVec w → Plain) (error : Option GError)
      (q : Probe Stop ReadResult),
      q = (readText P t strto error lim a l >>= fun r => pure (setFloat r c)) →
      (q.run m).result = (TextForm.mk (c 0) (fun s => c (strto s).value) (fun s => (strto s).errno)
          (fun s => (strto s).scanned) error).outcome P m a l ∧
        ((q.run m).inside = true ↔ StringInside m lim a l ∧ (Fits m a l → be32 m (a + 1) ≠ 0 ∧
          (strto (cstring P.beyond (textAt m a))).scanned ≤ be32 m (a + 1))) ∧ Keeps q m := by
    rintro w strto c error q rfl
    obtain ⟨hr, hi, hk⟩ : ((readText P t strto error lim a l).run m).result = _ ∧ _ :=
      readText_run P strto error ht
    refine ⟨?_, ?_, hk.bind fun r => keeps_pure _⟩
    · rw [hk.result_bind, hr]
      unfold textOutcome TextForm.outcome
      split_ifs <;> rfl
    · rw [hk.inside_bind, hi]
      simp
  cases t with
  | double => cases hF; exact key _ _ _ _ rfl
  | float => cases hF; exact key _ _ _ _ rfl
  | _ => cases hF

theorem Tag.kinds (t : Tag) : (∃ k f, t.word = some (k, f)) ∨ (∃ F, t.text P = some F) ∨
    t = .string ∨ t = .object := by
  cases t <;> simp [Tag.word, Tag.text]

/-! ## Objects -/

/-- The name of the type of the object at `a`, as it is copied. -/
def nameAt (m : Memory) (a : ℕ) : Bytes := bytesAt m (a + 2) (m (a + 1)).toNat

/-- The class of the object at `a`, if its name is the name of one. -/
def classAt (m : Memory) (a : ℕ) : Option ℕ :=
  if nameAt m a = [] then none else P.types.objectFromName (cstring P.beyond (nameAt m a))

/-- What `g_object_new` makes of it, if there is a class and the call comes back. -/
def newAt (m : Memory) (a : ℕ) : Option (Option GObject) := (classAt P m a).bind P.types.objectNew

/-- The first property of the object at `a`. -/
def propsAt (m : Memory) (a : ℕ) : ℕ := a + 2 + (m (a + 1)).toNat

/-- The bytes of the header of an object. -/
def HeaderInside (m : Memory) (lim a : ℕ) : Prop :=
  a + 1 < lim ∧ (nameAt m a ≠ [] → propsAt m a ≤ lim ∧ 0 ∈ nameAt m a)

theorem lookupType_run (typeName : Bytes) : (lookupType P typeName).run m =
    ⟨decide (typeName ≠ [] → 0 ∈ typeName), .ok (if typeName = [] then none
      else P.types.objectFromName (cstring P.beyond typeName)), m⟩ := by
  unfold lookupType allocated
  by_cases h : typeName = []
  · simp [h]
  · simp [h]

section Object

variable (readProps : ℕ → ℕ → Option GObject → Probe Stop (Option GObject))

/-- What `catalina_binary_formatter_read_object` answers for an object whose type has been looked up,
given what becomes of the properties. -/
def objectOutcome (type : Option ℕ) (props : Option GObject → Except Stop (Option GObject)) :
    Except Stop ObjectRead :=
  match type with
  | none => .ok ⟨false, none⟩
  | some c =>
    match P.types.objectNew c with
    | none => .error .aborted
    | some o => (props o).map fun o' => ⟨true, o'⟩

theorem readNew_run {cursor : ℕ} (hk : ∀ o, Keeps (readProps lim cursor o) m) (type : Option ℕ) :
    let p : Probe Stop ObjectRead := match type with
      | none => return ⟨false, none⟩
      | some c =>
        match P.types.objectNew c with
        | none => Probe.stop .aborted
        | some object => do
          let object ← readProps lim cursor object
          return ⟨true, object⟩
    (p.run m).result =
        objectOutcome P type (fun o => ((readProps lim cursor o).run m).result) ∧
      ((p.run m).inside = true ↔ ∀ o, type.bind P.types.objectNew = some o →
        ((readProps lim cursor o).run m).inside = true) ∧ Keeps p m := by
  cases type with
  | none => exact ⟨rfl, by simp, keeps_pure _⟩
  | some c =>
    dsimp only [objectOutcome, Option.bind_some]
    cases P.types.objectNew c with
    | none => exact ⟨rfl, by simp, keeps_stop _⟩
    | some o =>
      refine ⟨?_, ?_, (hk _).bind fun o => keeps_pure _⟩
      · dsimp only
        rw [(hk _).result_bind]
        cases ((readProps lim cursor o).run m).result <;> rfl
      · dsimp only
        rw [(hk _).inside_bind]
        simp

theorem readObjectWith_run (ht : m a = Tag.object.id)
    (hk : ∀ cursor o, Keeps (readProps lim cursor o) m) :
    ((readObjectWith P readProps lim a l).run m).result =
        objectOutcome P (classAt P m a) (fun o => ((readProps lim (propsAt m a) o).run m).result) ∧
      (((readObjectWith P readProps lim a l).run m).inside = true ↔ HeaderInside m lim a ∧
        ∀ o, newAt P m a = some o →
          ((readProps lim (propsAt m a) o).run m).inside = true) ∧
      Keeps (readObjectWith P readProps lim a l) m := by
  have hlen : nameAt m a = [] ↔ (m (a + 1)).toNat = 0 := by
    rw [nameAt, ← List.length_eq_zero_iff, length_bytesAt]
  have hl : (lookupType P (bytesAt m (a + 2) (m (a + 1)).toNat)).run m =
      ⟨decide (nameAt m a ≠ [] → 0 ∈ nameAt m a), .ok (classAt P m a), m⟩ :=
    lookupType_run P (nameAt m a)
  obtain ⟨hr, hi, hk'⟩ := readNew_run P readProps (hk (propsAt m a)) (classAt P m a)
  unfold readObjectWith Keeps
  rw [run_peekByte_bind, if_neg (by simpa using ht), run_peekByte_bind, run_peek_bind, bind_ok hl]
  refine ⟨hr, ?_, hk'⟩
  simp only [Bool.and_eq_true, decide_eq_true_eq]
  rw [HeaderInside, ← hlen, propsAt]
  constructor
  · rintro ⟨_, h₁, h₂, h₃, h₄⟩
    exact ⟨⟨h₁, fun hn => ⟨h₂.resolve_left hn, h₃ hn⟩⟩, hi.mp h₄⟩
  · rintro ⟨⟨h₁, h₂⟩, h₄⟩
    refine ⟨by omega, h₁, ?_, fun hn => (h₂ hn).2, hi.mpr h₄⟩
    by_cases hn : nameAt m a = []
    · exact Or.inl hn
    · exact Or.inr (h₂ hn).1

theorem keeps_readObjectWith (hk : ∀ cursor o, Keeps (readProps lim cursor o) m) :
    Keeps (readObjectWith P readProps lim a l) m := by
  by_cases ht : m a = Tag.object.id
  · exact (readObjectWith_run P readProps ht hk).2.2
  · refine keeps_of_run (b := decide (a < lim)) (r := .ok ⟨false, none⟩) ?_
    unfold readObjectWith
    rw [run_peekByte_bind, if_pos ht]
    simp

end Object

/-! ## The branches of a value -/

section Value

theorem readValueWith_unknown (ht : Tag.ofId (m a) = none) :
    (readValueWith P ro lim a l).run m = ⟨decide (a < lim), .ok ⟨false, none, none⟩, m⟩ := by
  unfold readValueWith
  rw [run_peekByte_bind, ht]
  simp

theorem readValueWith_tag {t : Tag} (ht : m a = t.id) :
    (readValueWith P ro lim a l).run m =
      ⟨decide (a < lim) && ((readTag P ro lim a l t).run m).inside,
        ((readTag P ro lim a l t).run m).result,
        ((readTag P ro lim a l t).run m).memory⟩ := by
  unfold readValueWith
  rw [run_peekByte_bind, ht, Tag.ofId_id]

/-- The value that is set to an object, which is not set to `NULL`. -/
def objectValue (o : Option GObject) : Option (GValue GObject) :=
  o.map fun v => .object v.cls (some v)

/-- What the value is set to after an object was read. -/
def setObject (r : ObjectRead) : ReadResult := ⟨r.success, objectValue r.object, none⟩

theorem keeps_readValueWith (hk : m a = Tag.object.id → Keeps (ro lim a l) m) :
    Keeps (readValueWith P ro lim a l) m := by
  cases ht : Tag.ofId (m a) with
  | none => exact keeps_of_run (readValueWith_unknown P ro ht)
  | some t =>
    have ht' := (Tag.id_of_ofId ht).symm
    intro r hr
    rw [readValueWith_tag P ro ht'] at hr ⊢
    rcases t.kinds P with ⟨k, f, hw⟩ | ⟨F, hF⟩ | rfl | rfl
    · exact keeps_of_run (readTag_word P ro ht' hw) r hr
    · exact (readTag_text P ro ht' hF).2.2 r hr
    · exact keeps_of_run (readTag_string P ro ht') r hr
    · exact (hk ht').bind (fun r => keeps_pure _) r hr

end Value

/-! ## The loop over the properties -/

/-- Where the value of the property at `c` stands. -/
def valueAt (m : Memory) (c : ℕ) : ℕ := c + 1 + (m c).toNat + 4

/-- The length that is declared for it. -/
def lengthAt (m : Memory) (c : ℕ) : ℕ := be32 m (c + 1 + (m c).toNat)

/-- Where the next property stands. -/
def nextAt (m : Memory) (c : ℕ) : ℕ := valueAt m c + lengthAt m c

/-- The name of the property at `c`, as it is copied. -/
def keyAt (m : Memory) (c : ℕ) : Bytes := bytesAt m (c + 1) (m c).toNat

/-- The object after the property at `c` was set to what was read for it. -/
def setAt (m : Memory) (c : ℕ) : Option GObject → Option (GValue GObject) → Option GObject
  | some o, some v => some (P.types.setProperty o (cstring P.beyond (keyAt m c)) v)
  | o, _ => o

theorem keeps_readProps (n lim c : ℕ) (o : Option GObject) : Keeps (readProps P n lim c o) m := by
  induction n generalizing lim c o with
  | zero => exact keeps_stop _
  | succ n ih =>
    rw [readProps]
    refine (keeps_peekByte _ _).bind fun k => ?_
    by_cases hk : k = 0
    · rw [if_pos hk]
      exact keeps_pure o
    rw [if_neg hk]
    refine (keeps_peek _ _ _).bind fun name => (keeps_peek _ _ _).bind fun bytes => ?_
    refine (keeps_readValueWith P _ fun _ =>
      keeps_readObjectWith P _ fun _ _ => ih _ _ _).bind fun r => ?_
    by_cases hr : r.success = true
    · rw [if_pos hr]
      split
      · exact (keeps_check _).bind fun _ => ih _ _ _
      · exact ih _ _ _
    · rw [if_neg hr]
      exact (keeps_check _).bind fun _ => keeps_stop _

theorem keeps_readObject (n lim a l : ℕ) : Keeps (readObject P n lim a l) m :=
  keeps_readObjectWith P _ fun c o => keeps_readProps P n lim c o

theorem keeps_readValue (n lim a l : ℕ) : Keeps (readValue P n lim a l) m :=
  keeps_readValueWith P _ fun _ => keeps_readObject P n lim a l

theorem readObject_result (ht : m a = Tag.object.id) (n lim : ℕ) :
    ((readObject P n lim a l).run m).result =
      objectOutcome P (classAt P m a) fun o => ((readProps P n lim (propsAt m a) o).run m).result :=
  (readObjectWith_run P (readProps P n) ht fun c o => keeps_readProps P n lim c o).1

theorem readProps_sentinel {c : ℕ} (hc : m c = 0) (n : ℕ) (o : Option GObject) :
    (readProps P (n + 1) lim c o).run m = ⟨decide (c < lim), .ok o, m⟩ := by
  rw [readProps, run_peekByte_bind, if_pos hc]
  simp

/-- The bytes of a property in front of its value. -/
def KeyInside (m : Memory) (lim c : ℕ) : Prop := c < lim ∧ valueAt m c ≤ lim

theorem readProps_prop {c : ℕ} (hc : m c ≠ 0) (n : ℕ) (o : Option GObject) :
    ((readProps P (n + 1) lim c o).run m).result =
        (((readValue P n (min lim (nextAt m c)) (valueAt m c) (lengthAt m c)).run m).result >>=
          fun r => if r.success then
            ((readProps P n lim (nextAt m c) (setAt P m c o r.value)).run m).result
          else .error .aborted) ∧
      (((readProps P (n + 1) lim c o).run m).inside = true ↔ KeyInside m lim c ∧
        ((readValue P n (min lim (nextAt m c)) (valueAt m c) (lengthAt m c)).run m).inside = true ∧
        ∀ r, ((readValue P n (min lim (nextAt m c)) (valueAt m c) (lengthAt m c)).run m).result =
            .ok r →
          (r.success = false ∨ o ≠ none ∧ r.value ≠ none → 0 ∈ keyAt m c) ∧
          (r.success = true →
            ((readProps P n lim (nextAt m c) (setAt P m c o r.value)).run m).inside = true)) := by
  have hk : Keeps (readValueWith P (readObjectWith P (readProps P n)) (min lim (nextAt m c))
      (valueAt m c) (lengthAt m c)) m := keeps_readValue P n _ _ _
  rw [readProps]
  rw [run_peekByte_bind, if_neg hc, run_peek_bind]
  dsimp only
  rw [run_peek_bind, toBE_bytesAt,
    show ofBeBytes (bytesAt m (c + 1 + (m c).toNat) 4) = lengthAt m c from rfl,
    show c + 1 + (m c).toNat + 4 = valueAt m c from rfl,
    show valueAt m c + lengthAt m c = nextAt m c from rfl,
    show bytesAt m (c + 1) (m c).toNat = keyAt m c from rfl]
  constructor
  · dsimp only
    rw [hk.result_bind]
    change (_ >>= _) = ((readValueWith P (readObjectWith P (readProps P n)) _ _ _).run m).result >>= _
    refine congrArg _ (funext fun r => ?_)
    by_cases hr : r.success = true
    · rw [if_pos hr, if_pos hr]
      cases o with
      | none => rfl
      | some o =>
        cases r.value with
        | none => rfl
        | some v => rw [run_check_bind]; rfl
    · rw [if_neg hr, if_neg hr, run_check_bind]
      rfl
  · simp only [Bool.and_eq_true, decide_eq_true_eq]
    rw [hk.inside_bind]
    have hset : ∀ r : ReadResult, (Probe.run (if r.success = true then
          match o, r.value with
          | some o, some v => do
            check (decide (0 ∈ keyAt m c))
            readProps P n lim (nextAt m c)
              (some (P.types.setProperty o (cstring P.beyond (keyAt m c)) v))
          | _, _ => readProps P n lim (nextAt m c) o
        else do
          check (decide (0 ∈ keyAt m c))
          Probe.stop .aborted) m).inside = true ↔
        (r.success = false ∨ o ≠ none ∧ r.value ≠ none → 0 ∈ keyAt m c) ∧ (r.success = true →
          ((readProps P n lim (nextAt m c) (setAt P m c o r.value)).run m).inside = true) := by
      rintro ⟨success, value, error⟩
      cases success <;> cases o <;> cases value <;> simp [setAt]
    have hv : valueAt m c = c + 1 + (m c).toNat + 4 := rfl
    rw [KeyInside]
    constructor
    · rintro ⟨h₁, h₂, h₃, h₄, h₅⟩
      exact ⟨⟨h₁, by omega⟩, h₄, fun r hr => (hset r).mp (h₅ r hr)⟩
    · rintro ⟨⟨h₁, h₂⟩, h₄, h₅⟩
      exact ⟨h₁, by omega, by omega, h₄, fun r hr => (hset r).mpr (h₅ r hr)⟩

/-! ## Fuel -/

variable {P}

theorem readTag_refines {ro ro' : ℕ → ℕ → ℕ → Probe Stop ObjectRead}
    (h : ∀ lim a l, Refines .running (ro lim a l) (ro' lim a l)) (lim a l : ℕ) (t : Tag) :
    Refines .running (readTag P ro lim a l t) (readTag P ro' lim a l t) := by
  cases t with
  | object => exact (h _ _ _).bind fun r => Refines.refl _
  | _ => exact Refines.refl _

theorem readValueWith_refines {ro ro' : ℕ → ℕ → ℕ → Probe Stop ObjectRead}
    (h : ∀ lim a l, Refines .running (ro lim a l) (ro' lim a l)) (lim a l : ℕ) :
    Refines .running (readValueWith P ro lim a l) (readValueWith P ro' lim a l) := by
  refine (Refines.refl _).bind fun b => ?_
  cases Tag.ofId b with
  | none => exact Refines.refl _
  | some t => exact readTag_refines h lim a l t

theorem readObjectWith_refines {rp rp' : ℕ → ℕ → Option GObject → Probe Stop (Option GObject)}
    (h : ∀ lim c o, Refines .running (rp lim c o) (rp' lim c o)) (lim a l : ℕ) :
    Refines .running (readObjectWith P rp lim a l) (readObjectWith P rp' lim a l) := by
  refine (Refines.refl _).bind fun b => ?_
  by_cases hb : b ≠ Tag.object.id
  · rw [if_pos hb, if_pos hb]
    exact Refines.refl _
  · rw [if_neg hb, if_neg hb]
    refine (Refines.refl _).bind fun k => (Refines.refl _).bind fun name =>
      (Refines.refl _).bind fun c => ?_
    cases c with
    | none => exact Refines.refl _
    | some c =>
      dsimp only
      cases P.types.objectNew c with
      | none => exact Refines.refl _
      | some o => exact (h _ _ o).bind fun o => Refines.refl _

/-- **More fuel keeps every answer.** -/
theorem readProps_refines (n lim c : ℕ) (o : Option GObject) :
    Refines .running (readProps P n lim c o) (readProps P (n + 1) lim c o) := by
  induction n generalizing lim c o with
  | zero => exact Refines.stop _
  | succ n ih =>
    rw [readProps, readProps]
    refine (Refines.refl _).bind fun k => ?_
    by_cases hk : k = 0
    · rw [if_pos hk, if_pos hk]
      exact Refines.refl _
    rw [if_neg hk, if_neg hk]
    refine (Refines.refl _).bind fun name => (Refines.refl _).bind fun bytes => ?_
    refine (readValueWith_refines (readObjectWith_refines ih) _ _ _).bind fun r => ?_
    by_cases hr : r.success = true
    · rw [if_pos hr, if_pos hr]
      split
      · exact (Refines.refl _).bind fun _ => ih _ _ _
      · exact ih _ _ _
    · rw [if_neg hr, if_neg hr]
      exact Refines.refl _

theorem readProps_mono {n k : ℕ} (h : n ≤ k) (lim c : ℕ) (o : Option GObject) :
    Refines .running (readProps P n lim c o) (readProps P k lim c o) :=
  refines_of_le (f := fun n => readProps P n lim c o) (fun n => readProps_refines n lim c o) h

theorem readObject_mono {n k : ℕ} (h : n ≤ k) (lim a l : ℕ) :
    Refines .running (readObject P n lim a l) (readObject P k lim a l) :=
  readObjectWith_refines (readProps_mono h) lim a l

theorem readValue_mono {n k : ℕ} (h : n ≤ k) (lim a l : ℕ) :
    Refines .running (readValue P n lim a l) (readValue P k lim a l) :=
  readValueWith_refines (readObject_mono h) lim a l

end Catalina
