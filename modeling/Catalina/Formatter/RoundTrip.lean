import Catalina.Formatter.Encode
import Catalina.Formatter.Format

/-!
# Reading back what was written

* `Tree`: finite trees of values, whose objects are of `RegularClass`es.
* `Plain.reread`: what comes back for a value that is not an object; `Plain.Rereads`: whether it does.
* `decodes_plain_iff`: the encodings of such values; `decodes_setAll`: the properties of an object.
* `SameObject`, `SameValue`: the value that was read is the one that was written.
* `Taken`: every property takes what is read for it.
* **`decodes_tree`**: the encoding of a tree is decoded, if everything in it comes back and is taken.
* **`roundTrip`**: `catalina_formatter_serialize` and then `catalina_formatter_deserialize`, on hosts
  of any two byte orders.
-/

namespace Catalina

variable (P : Process) {ω : Type} (w : World P.types ω)

/-! ## Trees of values -/

/-- A class of objects that is registered, has different names for its properties, and no name of more
than 254 bytes. -/
structure RegularClass (ts : TypeSystem) (c : ℕ) : Prop where
  registered : ts.typeFromName (ts.typeName c) = some (.object c)
  concrete : ts.kind c = .concrete
  typeName_le : (ts.typeName c).strlen ≤ 254
  nodup : ((ts.listProperties c).map (·.name)).Nodup
  name_le : ∀ p ∈ ts.listProperties c, p.name.strlen ≤ 254

/-- A finite tree of values of the given kind; what an object holds besides is not written. -/
inductive Tree (leaf : Plain → Prop) : GValue ω → Prop
  | plain {p : Plain} (h : leaf p) : Tree leaf (.plain p)
  | object {c : ℕ} {x : ω} (hc : RegularClass P.types (w.cls x))
      (h : ∀ p ∈ written P w x, Tree leaf (w.property x p)) : Tree leaf (.object c (some x))

/-- What is read back for a value that is not an object: a `gboolean` is cut to a byte and is `TRUE`
unless that is zero, and a number that is printed is converted. -/
def Plain.reread : Plain → Plain
  | .integer .boolean x => .integer .boolean (gboolean (gchar 32 x.toNat))
  | .double x => .double (P.strtod (P.printDouble x)).value
  | .float x => .float (P.strtof (P.printFloat x)).value
  | p => p

/-- The number that was printed can be converted. -/
def Plain.Rereads : Plain → Prop
  | .double x => (P.strtod (P.printDouble x)).errno = false
  | .float x => (P.strtof (P.printFloat x)).errno = false
  | _ => True

variable {P w} {leaf : Plain → Prop}

theorem encodes_plain (p : Plain) : ∃ bs, Encodes P w (.plain p) bs := by
  cases p with
  | integer t x => exact ⟨_, .integer t x⟩
  | float x => exact ⟨_, .float x⟩
  | double x => exact ⟨_, .double x⟩
  | string s =>
    cases s with
    | none => exact ⟨_, .null⟩
    | some s => exact ⟨_, .string s⟩

theorem encodes_tree {v : GValue ω} (h : Tree P w leaf v) : ∃ bs, Encodes P w v bs := by
  induction h with
  | @plain p _ => exact encodes_plain p
  | @object c x _ _ ih =>
    have hfield : ∀ p, ∃ bs, p ∈ written P w x → Encodes P w (w.property x p) bs := by
      intro p
      by_cases hp : p ∈ written P w x
      · obtain ⟨bs, hbs⟩ := ih p hp
        exact ⟨bs, fun _ => hbs⟩
      · exact ⟨[], fun h => absurd h hp⟩
    choose field hfield using hfield
    exact ⟨_, .object field hfield⟩

/-! ## Values that are not objects -/

section Plain

variable {m : Memory} {a : ℕ}

theorem word_tag (t : IntType) : ∃ f, t.tag.word = some (t.size, f) ∧
    ∀ x : BitVec t.bits, f (x.toNat % 256 ^ t.size) = (Plain.integer t x).reread P := by
  cases t with
  | boolean =>
    exact ⟨_, rfl, fun x => congrArg (fun b => Plain.integer .boolean (gboolean b))
      (gchar_mod 32 x.toNat)⟩
  | char | uchar | int | uint | long | ulong | int64 | uint64 =>
    exact ⟨_, rfl, fun x => congrArg (Plain.integer _) (ofNat_toNat_mod (by decide) x)⟩

theorem text_of_stored {t : Tag} {s : CString} (hm : Stored m a (textBytes t s))
    (hs : s.strlen + 6 < 2 ^ 32) : m a = t.id ∧ be32 m (a + 1) = s.strlen + 1 ∧
      textAt m a = s.stored ∧ Fits m a (s.strlen + 6) := by
  obtain ⟨htag, h⟩ := stored_cons.mp hm
  obtain ⟨hlen, htext⟩ := stored_append.mp h
  have hbe := be32_of_stored hlen (by omega)
  rw [length_beBytes] at htext
  refine ⟨htag, hbe, ?_, ?_⟩
  · rw [textAt, hbe, ← CString.length_stored]
    exact htext
  · rw [Fits, hbe]
    exact guint_of_lt (by omega)

/-- **The encoding of a value that is not an object** is decoded exactly if the value comes back. -/
theorem decodes_plain_iff {p : Plain} {bs : Bytes} {v : Option (GValue GObject)}
    (he : Encodes P w (.plain p) bs) (hs : bs.length < 2 ^ 32) (hm : Stored m a bs) :
    Decodes P m (.value a bs.length v) ↔ p.Rereads P ∧ v = some (.plain (p.reread P)) := by
  have htext : ∀ {t : Tag} {s : CString} {F : TextForm}, t.text P = some F →
      Stored m a (textBytes t s) → (textBytes t s).length < 2 ^ 32 →
      (Decodes P m (.value a (textBytes t s).length v) ↔
        F.errno s = false ∧ v = some (.plain (F.value s))) := by
    intro t s F hF hm hs
    rw [length_textBytes] at hs
    obtain ⟨htag, hbe, htext, hfit⟩ := text_of_stored hm hs
    rw [decodes_text_iff htag hF, htext, cstring_stored, hbe]
    simp [hfit]
  cases he with
  | integer t x =>
    obtain ⟨f, hw, hf⟩ := word_tag (P := P) t
    obtain ⟨htag, hbytes⟩ := stored_cons.mp hm
    unfold Stored at hbytes
    rw [length_beBytes] at hbytes
    rw [decodes_word_iff htag hw, hbytes, ofBeBytes_beBytes_mod, hf, List.length_cons,
      length_beBytes, Nat.add_comm t.size 1]
    simp [Plain.Rereads]
  | null =>
    obtain ⟨htag, hbytes⟩ := stored_cons.mp hm
    have hbe := be32_of_stored hbytes (by decide)
    have hfit : Fits m a 5 := by
      rw [Fits, hbe]
      exact guint_of_lt (by decide)
    change Decodes P m (.value a 5 v) ↔ _
    rw [decodes_string_iff htag, stringValue, if_pos hbe]
    simp [hfit, Plain.Rereads, Plain.reread]
  | string s =>
    rw [length_textBytes] at hs
    obtain ⟨htag, hbe, htext, hfit⟩ := text_of_stored hm hs
    have hone : OneNul (textAt m a) := ⟨s, htext⟩
    rw [decodes_string_iff htag, stringValue, hbe, if_neg (Nat.succ_ne_zero _), if_pos hone, htext,
      CString.ofBytes_stored]
    simp [hfit, Plain.Rereads, Plain.reread]
  | double x => exact htext rfl hm hs
  | float x => exact htext rfl hm hs

end Plain

/-! ## The properties of an object -/

section Properties

variable {ts : TypeSystem} {o : GObject}

theorem find?_name {params : List ParamSpec} (hnd : (params.map (·.name)).Nodup) {p : ParamSpec}
    (hp : p ∈ params) : params.find? (·.name = p.name) = some p := by
  induction params with
  | nil => cases hp
  | cons q params ih =>
    rw [List.map_cons, List.nodup_cons] at hnd
    rcases List.mem_cons.mp hp with rfl | hp
    · simp
    · have hne : q.name ≠ p.name := fun h => hnd.1 (h ▸ List.mem_map_of_mem hp)
      rw [List.find?_cons_of_neg (by simpa using hne)]
      exact ih hnd.2 hp

theorem getProperty_setProperty_ne {name : CString} {v : GValue GObject} {q : ParamSpec}
    (hq : q.name ≠ name) :
    ts.getProperty (ts.setProperty o name v) q = ts.getProperty o q := by
  unfold TypeSystem.setProperty
  cases (ts.listProperties o.cls).find? (·.name = name) with
  | none => rfl
  | some p =>
    dsimp only
    cases ts.fits o.cls p v with
    | none => rfl
    | some v => simp [TypeSystem.getProperty, GObject.fields, GObject.cls, hq.symm]

theorem getProperty_setProperty {q : ParamSpec}
    (hnd : ((ts.listProperties o.cls).map (·.name)).Nodup) (hq : q ∈ ts.listProperties o.cls)
    (v : GValue GObject) :
    ts.getProperty (ts.setProperty o q.name v) q = (ts.fits o.cls q v).getD (ts.getProperty o q) := by
  rw [TypeSystem.setProperty, find?_name hnd hq]
  dsimp only
  cases ts.fits o.cls q v with
  | none => rfl
  | some v' => simp [TypeSystem.getProperty, GObject.fields]

/-- The object after a property was set, if there was a value. -/
def TypeSystem.setValue (ts : TypeSystem) (o : GObject) (name : CString) :
    Option (GValue GObject) → GObject
  | none => o
  | some v => ts.setProperty o name v

/-- The object after the properties were set, one after the other. -/
def TypeSystem.setAll (ts : TypeSystem) (value : ParamSpec → Option (GValue GObject)) (o : GObject)
    (ps : List ParamSpec) : GObject :=
  ps.foldl (fun o p => ts.setValue o p.name (value p)) o

variable {value : ParamSpec → Option (GValue GObject)}

theorem cls_setValue (ts : TypeSystem) (o : GObject) (name : CString)
    (v : Option (GValue GObject)) : (ts.setValue o name v).cls = o.cls := by
  cases v with
  | none => rfl
  | some v => exact ts.cls_setProperty o name v

theorem cls_setAll (ts : TypeSystem) (value : ParamSpec → Option (GValue GObject)) (o : GObject)
    (ps : List ParamSpec) : (ts.setAll value o ps).cls = o.cls := by
  induction ps generalizing o with
  | nil => rfl
  | cons p ps ih => exact (ih _).trans (cls_setValue ts o p.name (value p))

theorem getProperty_setValue_ne {name : CString} {q : ParamSpec} (hq : q.name ≠ name)
    (v : Option (GValue GObject)) :
    ts.getProperty (ts.setValue o name v) q = ts.getProperty o q := by
  cases v with
  | none => rfl
  | some v => exact getProperty_setProperty_ne hq

theorem getProperty_setAll_of_notMem {q : ParamSpec} {ps : List ParamSpec}
    (hq : ∀ p ∈ ps, p.name ≠ q.name) :
    ts.getProperty (ts.setAll value o ps) q = ts.getProperty o q := by
  induction ps generalizing o with
  | nil => rfl
  | cons p ps ih =>
    have hne : q.name ≠ p.name := (hq p List.mem_cons_self).symm
    exact (ih fun p' hp' => hq p' (List.mem_cons_of_mem _ hp')).trans
      (getProperty_setValue_ne hne (value p))

theorem getProperty_setAll (hnd : ((ts.listProperties o.cls).map (·.name)).Nodup) {q : ParamSpec}
    (hq : q ∈ ts.listProperties o.cls) {ps : List ParamSpec} (hps : (ps.map (·.name)).Nodup)
    {p : ParamSpec} (hp : p ∈ ps) (hname : p.name = q.name) :
    ts.getProperty (ts.setAll value o ps) q =
      ((value p).bind (ts.fits o.cls q)).getD (ts.getProperty o q) := by
  induction ps generalizing o with
  | nil => cases hp
  | cons p' ps ih =>
    rw [List.map_cons, List.nodup_cons] at hps
    rcases List.mem_cons.mp hp with rfl | hp
    · have hrest : ∀ p' ∈ ps, p'.name ≠ q.name := fun p' hp' heq =>
        hps.1 (hname.trans heq.symm ▸ List.mem_map_of_mem hp')
      change ts.getProperty (ts.setAll value (ts.setValue o p.name (value p)) ps) q = _
      rw [getProperty_setAll_of_notMem hrest, hname]
      cases value p with
      | none => rfl
      | some v => exact getProperty_setProperty hnd hq v
    · have hne : q.name ≠ p'.name := fun heq =>
        hps.1 (heq ▸ hname ▸ List.mem_map_of_mem hp)
      have hcls := cls_setValue ts o p'.name (value p')
      change ts.getProperty (ts.setAll value (ts.setValue o p'.name (value p')) ps) q = _
      rw [ih (hcls.symm ▸ hnd) (hcls.symm ▸ hq) hps.2 hp, getProperty_setValue_ne hne, hcls]

end Properties

section Objects

variable {m : Memory} {x : ω} {field : ParamSpec → Bytes}

theorem property_of_stored {name : CString} {value rest : Bytes} {b : ℕ} (hname : name.strlen ≤ 254)
    (hlen : value.length < 2 ^ 32) (hm : Stored m b (propertyBytes name value ++ rest)) :
    m b ≠ 0 ∧ keyAt m b = name.stored ∧ lengthAt m b = value.length ∧
      Stored m (valueAt m b) value ∧ Stored m (nextAt m b) rest := by
  let k : Chunk := ⟨name, guint (name.strlen + 1), value⟩
  have hk : chunkBytes k = propertyBytes name value := chunkBytes_eq (by omega) value
  rw [← hk, stored_append, length_chunkBytes (c := k) rfl] at hm
  obtain ⟨h₀, hslot, hvalue⟩ := slotAt_of_stored (k := k) rfl hname hlen hm.1
  refine ⟨h₀, congrArg Slot.name hslot, congrArg Slot.length hslot, hvalue, ?_⟩
  rw [nextAt_of_slotAt hslot]
  exact hm.2

theorem setAt_of_stored {name : CString} {b : ℕ} (hkey : keyAt m b = name.stored)
    (o : Option GObject) (v : Option (GValue GObject)) :
    setAt P m b o v = o.map fun o => P.types.setValue o name v := by
  cases o with
  | none => rfl
  | some o =>
    cases v with
    | none => rfl
    | some v =>
      rw [setAt, hkey, cstring_stored]
      rfl

/-- **The properties that are stored are set one after the other**, each to what its value is decoded
as, if there is an object. -/
theorem decodes_setAll {r : ParamSpec → Option (GValue GObject) → Prop} {ps : List ParamSpec}
    (hname : ∀ p ∈ ps, p.name.strlen ≤ 254) (hnd : (ps.map (·.name)).Nodup)
    (hread : ∀ p ∈ ps, (field p).length < 2 ^ 32 ∧ ∀ a, Stored m a (field p) →
      ∃ v, Decodes P m (.value a (field p).length v) ∧ r p v) {b : ℕ} (o : Option GObject)
    (hm : Stored m b (ps.flatMap (fun p => propertyBytes p.name (field p)) ++ [0])) :
    ∃ e value, Decodes P m (.props b e o (o.map fun o => P.types.setAll value o ps)) ∧
      ∀ p ∈ ps, r p (value p) := by
  induction ps generalizing b o with
  | nil =>
    have hnone : o.map (fun o => P.types.setAll (fun _ => none) o []) = o := Option.map_id'
    refine ⟨b, fun _ => none, ?_, nofun⟩
    rw [hnone]
    exact .sentinel (stored_cons.mp hm).1
  | cons p ps ih =>
    obtain ⟨hlen, hvalue⟩ := hread p List.mem_cons_self
    rw [List.map_cons, List.nodup_cons] at hnd
    rw [List.flatMap_cons, List.append_assoc] at hm
    obtain ⟨h₀, hkey, hlength, hfield, hrest⟩ :=
      property_of_stored (hname p List.mem_cons_self) hlen hm
    obtain ⟨v, hd, hr⟩ := hvalue _ hfield
    obtain ⟨e, value, hd', hall⟩ := ih (fun q hq => hname q (List.mem_cons_of_mem _ hq)) hnd.2
      (fun q hq => hread q (List.mem_cons_of_mem _ hq))
      (o.map fun o => P.types.setValue o p.name v) hrest
    -- the values of the others, and `v` for this one
    have hne : ∀ q ∈ ps, q ≠ p := fun q hq heq => hnd.1 (heq ▸ List.mem_map_of_mem hq)
    have hsame : ∀ o, P.types.setAll (Function.update value p v) o (p :: ps) =
        P.types.setAll value (P.types.setValue o p.name v) ps := by
      intro o
      unfold TypeSystem.setAll
      rw [List.foldl_cons, Function.update_self]
      refine List.foldl_ext _ _ _ fun o' q hq => ?_
      rw [Function.update_of_ne (hne q hq)]
    refine ⟨e, Function.update value p v, ?_, fun q hq => ?_⟩
    · simp only [hsame]
      rw [Option.map_map] at hd'
      exact .prop h₀ (hlength ▸ hd) (setAt_of_stored hkey o v ▸ hd')
    · rcases List.mem_cons.mp hq with rfl | hq
      · rwa [Function.update_self]
      · rw [Function.update_of_ne (hne q hq)]
        exact hall q hq

theorem header_read {name : CString} {a : ℕ} {rest : Bytes} (hname : name.strlen ≤ 254)
    (hm : Stored m a (objectHeader name ++ rest)) : m a = Tag.object.id ∧
      classAt P m a = P.types.objectFromName name ∧ Stored m (propsAt m a) rest := by
  obtain ⟨htag, hnameAt, hprops⟩ := header_of_stored hm
  have htake : typeNameLen name = name.strlen + 1 := by
    unfold typeNameLen
    omega
  rw [htake, List.take_of_length_le (CString.length_stored _).le] at hnameAt
  refine ⟨htag, ?_, hprops ▸ (stored_append.mp hm).2⟩
  have hne : name.stored ≠ [] := List.ne_nil_of_mem (CString.zero_mem_stored _)
  rw [classAt, hnameAt, if_neg hne, cstring_stored]

theorem new_of_stored {a : ℕ} {rest : Bytes} (hc : RegularClass P.types (w.cls x))
    (hm : Stored m a (objectHeader (P.types.typeName (w.cls x)) ++ rest)) :
    m a = Tag.object.id ∧ newAt P m a = some (some (.mk (w.cls x) [])) ∧
      Stored m (propsAt m a) rest := by
  obtain ⟨htag, hclass, hrest⟩ := header_read (P := P) hc.typeName_le hm
  rw [TypeSystem.objectFromName, hc.registered] at hclass
  exact ⟨htag, (newAt_eq hclass).trans (P.types.objectNew_concrete hc.concrete), hrest⟩

end Objects

/-! ## What was written and what is read -/

variable (P w) in
/-- The object that was read has the class of `x`; the properties that were written come back, those
that are no objects through `f`, and the others have their defaults. -/
inductive SameObject (f : Plain → Plain) : ω → GObject → Prop
  | intro {x : ω} {o : GObject} (child : ParamSpec → GObject) (hcls : o.cls = w.cls x)
      (plain : ∀ p ∈ written P w x, ∀ q, w.property x p = .plain q →
        P.types.getProperty o p = .plain (f q))
      (object : ∀ p ∈ written P w x, ∀ c y, w.property x p = .object c (some y) →
        P.types.getProperty o p = .object c (some (child p)))
      (same : ∀ p ∈ written P w x, ∀ c y, w.property x p = .object c (some y) →
        SameObject f y (child p))
      (skipped : ∀ p ∈ P.types.listProperties (w.cls x), ¬ (w.property x p).Writable →
        P.types.getProperty o p = P.types.default (w.cls x) p) : SameObject f x o

variable (P w) in
/-- The value that was read is the one that was written. -/
def SameValue (f : Plain → Plain) : GValue ω → GValue GObject → Prop
  | .plain q, v => v = .plain (f q)
  | .object _ (some x), v => ∃ o, v = .object o.cls (some o) ∧ SameObject P w f x o
  | _, _ => False

variable (P w) in
/-- The property that was set to what was read holds what was written. -/
def SameProperty (f : Plain → Plain) (v : GValue ω) (v' : GValue GObject) : Prop :=
  (∀ q, v = .plain q → v' = .plain (f q)) ∧
    ∀ d y, v = .object d (some y) → ∃ o, v' = .object d (some o) ∧ SameObject P w f y o

variable (P w) in
/-- The property takes what is read for it, and holds it then. -/
def Takes (f : Plain → Plain) (x : ω) (p : ParamSpec) : Prop :=
  ∀ v, SameValue P w f (w.property x p) v →
    ∃ v', P.types.fits (w.cls x) p v = some v' ∧ SameProperty P w f (w.property x p) v'

variable (P w) in
/-- Every property that is written, at any depth, takes what is read for it. -/
inductive Taken (f : Plain → Plain) : GValue ω → Prop
  | plain (q : Plain) : Taken f (.plain q)
  | object {c : ℕ} {x : ω} (hp : ∀ p ∈ written P w x, Takes P w f x p)
      (h : ∀ p ∈ written P w x, Taken f (w.property x p)) : Taken f (.object c (some x))

theorem cls_of_same {f : Plain → Plain} {x : ω} {o : GObject} (h : SameObject P w f x o) :
    o.cls = w.cls x := by
  cases h with
  | intro _ hcls => exact hcls

theorem name_notMem_written {x : ω} (hc : RegularClass P.types (w.cls x)) {p : ParamSpec}
    (hp : p ∈ P.types.listProperties (w.cls x)) (hv : ¬ (w.property x p).Writable) :
    ∀ q ∈ (written P w x).reverse, q.name ≠ p.name := by
  intro q hq hname
  obtain ⟨hmem, hw⟩ := mem_written.mp (List.mem_reverse.mp hq)
  exact hv (List.inj_on_of_nodup_map hc.nodup hmem hp hname ▸ hw)

theorem nodup_written {x : ω} (hc : RegularClass P.types (w.cls x)) :
    ((written P w x).reverse.map (·.name)).Nodup := by
  rw [List.map_reverse, List.nodup_reverse]
  exact (List.filter_sublist.map _).nodup hc.nodup

/-- **The properties of an object that is read** hold what was written, if they take it. -/
theorem same_setAll {f : Plain → Plain} {x : ω} (hc : RegularClass P.types (w.cls x))
    (htakes : ∀ p ∈ written P w x, Takes P w f x p) {value : ParamSpec → Option (GValue GObject)}
    (hvalue : ∀ p ∈ (written P w x).reverse, ∃ v, value p = some v ∧
      SameValue P w f (w.property x p) v) :
    SameObject P w f x (P.types.setAll value (.mk (w.cls x) []) (written P w x).reverse) := by
  set o := P.types.setAll value (.mk (w.cls x) []) (written P w x).reverse with ho
  have hall : ∀ p ∈ written P w x,
      SameProperty P w f (w.property x p) (P.types.getProperty o p) := by
    intro p hp
    obtain ⟨v, hv, hsame⟩ := hvalue p (List.mem_reverse.mpr hp)
    obtain ⟨v', hfit, hsame'⟩ := htakes p hp v hsame
    rw [ho, getProperty_setAll hc.nodup (mem_written.mp hp).1 (nodup_written hc)
      (List.mem_reverse.mpr hp) rfl, hv]
    change SameProperty P w f _ ((P.types.fits (w.cls x) p v).getD _)
    rwa [hfit]
  have hchild : ∀ p, ∃ o', p ∈ written P w x → ∀ d y, w.property x p = .object d (some y) →
      P.types.getProperty o p = .object d (some o') ∧ SameObject P w f y o' := by
    intro p
    by_cases hp : p ∈ written P w x ∧ ∃ d y, w.property x p = .object d (some y)
    · obtain ⟨hp, d, y, hy⟩ := hp
      obtain ⟨o', ho'⟩ := (hall p hp).2 d y hy
      refine ⟨o', fun _ d' y' hy' => ?_⟩
      rw [hy] at hy'
      cases hy'
      exact ho'
    · exact ⟨o, fun hp' d y hy => absurd ⟨hp', d, y, hy⟩ hp⟩
  choose child hchild using hchild
  refine .intro child (cls_setAll _ _ _ _) (fun p hp => (hall p hp).1)
    (fun p hp d y hy => (hchild p hp d y hy).1) (fun p hp d y hy => (hchild p hp d y hy).2)
    fun p hp hv => ?_
  rw [ho, getProperty_setAll_of_notMem (name_notMem_written hc hp hv)]
  rfl

/-- **The encoding of a tree is decoded**, if everything in it comes back and is taken. -/
theorem decodes_tree {f : Plain → Plain} (hf : ∀ q, leaf q → q.Rereads P ∧ q.reread P = f q)
    {v : GValue ω} (ht : Tree P w leaf v) (hk : Taken P w f v) {bs : Bytes}
    (he : Encodes P w v bs) (hs : bs.length < 2 ^ 32) {m : Memory} {a : ℕ} (hm : Stored m a bs) :
    ∃ v', Decodes P m (.value a bs.length (some v')) ∧ SameValue P w f v v' := by
  induction ht generalizing bs a with
  | @plain q hq =>
    obtain ⟨hr, hv⟩ := hf q hq
    exact ⟨_, (decodes_plain_iff he hs hm).mpr ⟨hr, rfl⟩, hv ▸ rfl⟩
  | @object c x hc _ ih =>
    cases hk with
    | object htakes hk =>
      cases he with
      | object field hfield =>
        rw [List.append_assoc] at hm
        obtain ⟨htag, hnew, hprops⟩ := new_of_stored hc hm
        have hlen : ∀ p ∈ written P w x, (field p).length < 2 ^ 32 := length_field_lt hs
        have hread : ∀ p ∈ (written P w x).reverse, (field p).length < 2 ^ 32 ∧
            ∀ b, Stored m b (field p) → ∃ v, Decodes P m (.value b (field p).length v) ∧
              ∃ u, v = some u ∧ SameValue P w f (w.property x p) u := by
          intro p hp
          rw [List.mem_reverse] at hp
          refine ⟨hlen p hp, fun b hb => ?_⟩
          obtain ⟨u, hd, hu⟩ := ih p hp (hk p hp) (hfield p hp) (hlen p hp) hb
          exact ⟨_, hd, u, rfl, hu⟩
        obtain ⟨e, value, hd, hvalue⟩ := decodes_setAll
          (fun p hp => hc.name_le p (mem_written.mp (List.mem_reverse.mp hp)).1)
          (nodup_written hc) hread (some (.mk (w.cls x) [])) hprops
        exact ⟨_, .object htag hnew hd, _, rfl, same_setAll hc htakes hvalue⟩

/-! ## The two calls -/

/-- Where the reader runs does not matter: it looks at big-endian bytes. -/
theorem decodes_on (o : ByteOrder) {m : Memory} {j : Judgement} (h : Decodes P m j) :
    Decodes (P.on o) m j := by
  induction h with
  | word ht hw hl => exact .word ht hw hl
  | string ht hf => exact .string ht hf
  | text ht hF hf h₀ he => exact .text (P := P.on o) ht hF hf h₀ he
  | object ht hn _ ih => exact .object (P := P.on o) ht hn ih
  | sentinel hc => exact .sentinel hc
  | prop hc _ _ ihv iho => exact .prop hc ihv iho

/-- **What is decoded behind the version and the flags** is what `catalina_formatter_deserialize`
answers. -/
theorem deserializes_of_decodes {m : Memory} {bs : Bytes} {v : Option (GValue GObject)}
    (hm : Stored m 0 (1 :: 0 :: bs)) (hs : bs.length + 2 < 2 ^ 32)
    (hd : Decodes P m (.value 2 bs.length v)) : ∃ N, ∀ n, N ≤ n →
      ((realDeserialize P n (bs.length + 2)).run m).result = .ok ⟨true, v, none⟩ := by
  obtain ⟨N, hN⟩ := read_of_decodes hd
  refine ⟨N, fun n hn => ?_⟩
  rw [realDeserialize_result, if_pos (stored_cons.mp hm).1, guintSub_of_le hs (by omega),
    Nat.add_sub_cancel]
  exact hN n hn _

/-- The values of the language: `gboolean`s are `TRUE` or `FALSE`, and there are no floating-point
numbers. -/
def Plain.Exact : Plain → Prop
  | .integer .boolean x => x = 0 ∨ x = 1
  | .integer _ _ => True
  | .string _ => True
  | .float _ | .double _ => False

theorem reread_of_exact {q : Plain} (h : q.Exact) : q.Rereads P ∧ q.reread P = id q := by
  cases q with
  | integer t x =>
    cases t with
    | boolean =>
      have hx : ∀ x : BitVec 32, x = 0 ∨ x = 1 → gboolean (gchar 32 x.toNat) = x := by
        rintro _ (rfl | rfl) <;> decide
      exact ⟨trivial, congrArg (Plain.integer .boolean) (hx x h)⟩
    | _ => exact ⟨trivial, rfl⟩
  | string s => exact ⟨trivial, rfl⟩
  | float x | double x => exact absurd h id

/-- **The round trip of a value**: it has an encoding, and if that is shorter than 2^32 bytes, with
the version and the flags, `catalina_formatter_serialize` answers it, and wherever these bytes stand
`catalina_formatter_deserialize` on a host of byte order `o` answers the value. -/
def RoundTrips (P : Process) (w : World P.types ω) (entry : List ℕ → ℕ) (o : ByteOrder)
    (v : GValue ω) : Prop :=
  ∃ bs, Encodes P w v bs ∧ (bs.length + 2 < 2 ^ 32 →
    (∃ N, ∀ n, N ≤ n → realSerialize P w entry n v = .ok (1 :: 0 :: bs)) ∧
      ∀ m, Stored m 0 (1 :: 0 :: bs) → ∃ v', SameValue P w id v v' ∧ ∃ N, ∀ n, N ≤ n →
        ((realDeserialize (P.on o) n (bs.length + 2)).run m).result = .ok ⟨true, some v', none⟩)

/-- **Every finite tree of values makes the round trip**, if its properties take the values that they
hold. -/
theorem roundTrip {entry : List ℕ → ℕ} (h₀ : ∀ path, guint (entry path) = 0) (o : ByteOrder)
    {v : GValue ω} (ht : Tree P w Plain.Exact v) (hk : Taken P w id v) :
    RoundTrips P w entry o v := by
  obtain ⟨bs, he⟩ := encodes_tree ht
  refine ⟨bs, he, fun hs => ⟨serializes_of_encodes h₀ he hs, fun m hm => ?_⟩⟩
  have hbs : Stored m 2 bs := (stored_cons.mp (stored_cons.mp hm).2).2
  obtain ⟨v', hd, hv⟩ := decodes_tree (fun q => reread_of_exact) ht hk he (by omega) hbs
  exact ⟨v', hv, deserializes_of_decodes hm hs (decodes_on o hd)⟩

theorem regularClass_sample : RegularClass sampleTypes 0 where
  registered := rfl
  concrete := rfl
  typeName_le := by decide
  nodup := by decide
  name_le := by decide

theorem takes_sample {w : World sampleProcess.types ω} {f : Plain → Plain}
    (hf : ∀ q, (f q).type = q.type) (x : ω) (p : ParamSpec) : Takes sampleProcess w f x p := by
  intro v hv
  have htype := w.typed x p
  have hinst := w.instanceOf x p
  generalize w.property x p = u at *
  cases u with
  | plain q =>
    obtain rfl : v = .plain (f q) := hv
    refine ⟨.plain (f q), if_pos ((hf q).trans htype), fun q' hq' => ?_, nofun⟩
    cases hq'
    rfl
  | object d y =>
    cases y with
    | none => exact absurd hv id
    | some y =>
      obtain ⟨o, rfl, ho⟩ := hv
      have hd : o.cls = d := (cls_of_same ho).trans (beq_iff_eq.mp (hinst d y rfl))
      refine ⟨.object o.cls (some o), if_pos ((congrArg GType.object hd).trans htype), nofun,
        fun d' y' hy' => ?_⟩
      cases hy'
      exact ⟨o, hd ▸ rfl, ho⟩
  | void | other _ => exact absurd hv id

theorem taken_sample {w : World sampleProcess.types ω} {f : Plain → Plain}
    (hf : ∀ q, (f q).type = q.type) {v : GValue ω} (ht : Tree sampleProcess w leaf v) :
    Taken sampleProcess w f v := by
  induction ht with
  | @plain q _ => exact .plain q
  | object _ _ ih => exact .object (fun p _ => takes_sample hf _ p) ih

theorem tree_family (hint : leaf (.integer .int (-1))) (hempty : leaf (.string (some .empty))) :
    Tree sampleProcess family leaf (.object 0 (some true)) := by
  have child : Tree sampleProcess family leaf (.object 0 (some false)) := by
    refine .object regularClass_sample fun p hp => ?_
    obtain ⟨hmem, hw⟩ := mem_written.mp hp
    rcases List.mem_cons.mp hmem with rfl | hmem
    · exact .plain hint
    rcases List.mem_cons.mp hmem with rfl | hmem
    · exact .plain hempty
    obtain rfl := List.mem_singleton.mp hmem
    exact absurd hw id
  refine .object regularClass_sample fun p hp => ?_
  rcases List.mem_cons.mp (mem_written.mp hp).1 with rfl | hmem
  · exact .plain hint
  rcases List.mem_cons.mp hmem with rfl | hmem
  · exact .plain hempty
  obtain rfl := List.mem_singleton.mp hmem
  exact child

theorem taken_family {f : Plain → Plain} (hf : ∀ q, (f q).type = q.type) :
    Taken sampleProcess family f (.object 0 (some true)) := by
  have tree : Tree sampleProcess family (fun _ => True) (.object 0 (some true)) :=
    tree_family trivial trivial
  exact taken_sample hf tree

/-- The round trip of these two objects, from a little-endian host to a big-endian one. -/
theorem roundTrip_family :
    RoundTrips sampleProcess family (fun _ => 0) .big (.object 0 (some true)) :=
  roundTrip (fun _ => rfl) .big (tree_family trivial trivial) (taken_family fun _ => rfl)

end Catalina
