import Catalina.Host
import Catalina.Lib.Probe
import Mathlib.Data.List.TakeWhile

/-!
# Values, objects and types

What the binary formatter is given and what it makes of GLib, which is outside the repository.

* `CString`: a string of C; `cstring`: the string that a scan finds in a block.
* `GType`, `Plain`, `GValue`: the types of GObject and the values that a `GValue` can hold. An
  object is a point of some type of objects.
* `TypeKind`, `TypeSystem`: the registered types, of which there can be objects or not, and their
  properties; `World`: objects with their properties, which can refer to each other in any way.
* `GObject`: an object that the reader builds, with the values set since `g_object_new`.
* `Process`: the byte order, the types and the C library of the process that runs the formatter;
  `sampleProcess`: one with a single class.
-/

namespace Catalina

/-! ## Strings -/

/-- A string of C, without its NUL. -/
structure CString where
  chars : Bytes
  noNul : 0 ∉ chars
deriving DecidableEq, Repr

namespace CString

/-- The string `""`. -/
def empty : CString := ⟨[], by decide⟩

/-- The bytes of the string in memory. -/
def stored (s : CString) : Bytes := s.chars ++ [0]

def strlen (s : CString) : ℕ := s.chars.length

/-- The bytes before the first NUL. -/
def ofBytes (bs : Bytes) : CString where
  chars := bs.takeWhile (· ≠ 0)
  noNul h := by simpa using List.mem_takeWhile_imp h

/-- The string with more bytes behind it. -/
def append (bs : Bytes) (h : 0 ∉ bs) (s : CString) : CString where
  chars := bs ++ s.chars
  noNul h' := (List.mem_append.mp h').elim h s.noNul

@[simp] theorem length_stored (s : CString) : s.stored.length = s.strlen + 1 := by
  simp [stored, strlen]

theorem zero_mem_stored (s : CString) : 0 ∈ s.stored := by simp [stored]

theorem ofBytes_stored (s : CString) : ofBytes s.stored = s := by
  have h : s.stored.takeWhile (· ≠ 0) = s.chars := by
    rw [stored, List.takeWhile_append_of_pos]
    · simp
    · intro b hb
      have : b ≠ 0 := fun h => s.noNul (h ▸ hb)
      simpa using this
  cases s
  simp only [ofBytes, mk.injEq]
  exact h

end CString

/-- The bytes end in their only NUL. -/
def OneNul (bs : Bytes) : Prop := ∃ s : CString, bs = s.stored

theorem oneNul_iff {bs : Bytes} : OneNul bs ↔ (CString.ofBytes bs).strlen + 1 = bs.length := by
  constructor
  · rintro ⟨s, rfl⟩
    rw [CString.ofBytes_stored, CString.length_stored]
  · intro h
    have hp : bs = bs.takeWhile (· ≠ 0) ++ bs.dropWhile (· ≠ 0) := List.takeWhile_append_dropWhile.symm
    have hl : (bs.dropWhile (· ≠ 0)).length = 1 := by
      have h₁ := congrArg List.length hp
      rw [List.length_append] at h₁
      change (bs.takeWhile (· ≠ 0)).length + 1 = _ at h
      omega
    obtain ⟨b, hb⟩ := List.length_eq_one_iff.mp hl
    have hb₀ : b = 0 := by
      have h₁ := List.head_dropWhile_not (fun b : UInt8 => decide (b ≠ 0)) (l := bs)
        (by rw [hb]; exact List.cons_ne_nil b [])
      simp only [hb, List.head_cons] at h₁
      simpa using h₁
    refine ⟨CString.ofBytes bs, ?_⟩
    rw [hb, hb₀] at hp
    exact hp

instance (bs : Bytes) : Decidable (OneNul bs) := decidable_of_iff _ oneNul_iff.symm

/-- The string that a scan from the start of a block finds; without a NUL in the block it runs on
into what lies behind. -/
def cstring (beyond : Bytes → CString) (bs : Bytes) : CString :=
  if h : 0 ∈ bs then CString.ofBytes bs else CString.append bs h (beyond bs)

theorem cstring_stored (beyond : Bytes → CString) (s : CString) : cstring beyond s.stored = s := by
  unfold cstring
  rw [dif_pos s.zero_mem_stored, CString.ofBytes_stored]

/-! ## Types and values -/

/-- The integer types of GObject, with `gboolean`. -/
inductive IntType
  | boolean
  | char
  | uchar
  | int
  | uint
  | long
  | ulong
  | int64
  | uint64
deriving DecidableEq, Repr

/-- The width of the C type; `glong` has 64 bits here. -/
def IntType.bits : IntType → ℕ
  | .boolean | .int | .uint => 32
  | .char | .uchar => 8
  | .long | .ulong | .int64 | .uint64 => 64

/-- A `GType`. `void` is `G_TYPE_NONE`, `object c` is a type that `g_type_is_a` takes for a
`G_TYPE_OBJECT`: a class derived from it, or an interface that requires it; and `other n` is any type
the formatter has no case for. -/
inductive GType
  | void
  | integer (t : IntType)
  | float
  | double
  | string
  | object (c : ℕ)
  | other (n : ℕ)
deriving DecidableEq, Repr

/-- A value that is not an object. A floating-point number is its bits; a string can be `NULL`. -/
inductive Plain
  | integer (t : IntType) (x : BitVec t.bits)
  | float (x : BitVec 32)
  | double (x : BitVec 64)
  | string (s : Option CString)
deriving DecidableEq, Repr

/-- A `GValue` that is set. What it holds of a type without a case does not matter. -/
inductive GValue (ω : Type)
  | plain (p : Plain)
  | object (c : ℕ) (o : Option ω)
  | void
  | other (n : ℕ)
deriving DecidableEq, Repr

def Plain.type : Plain → GType
  | .integer t _ => .integer t
  | .float _ => .float
  | .double _ => .double
  | .string _ => .string

/-- `G_VALUE_TYPE`. -/
def GValue.type {ω : Type} : GValue ω → GType
  | .plain p => p.type
  | .object c _ => .object c
  | .void => .void
  | .other n => .other n

/-- What `g_value_init` makes of a type. -/
def GValue.initial {ω : Type} : GType → GValue ω
  | .void => .void
  | .integer t => .plain (.integer t 0)
  | .float => .plain (.float 0)
  | .double => .plain (.double 0)
  | .string => .plain (.string none)
  | .object c => .object c none
  | .other n => .other n

theorem GValue.type_initial {ω : Type} (t : GType) : (GValue.initial t : GValue ω).type = t := by
  cases t <;> rfl

theorem GValue.initial_ne_object {ω : Type} (t : GType) (c : ℕ) (x : ω) :
    GValue.initial t ≠ .object c (some x) := by
  cases t <;> exact nofun

/-- `can_serialize_type`. -/
def canSerializeType : GType → Bool
  | .void => false
  | .object _ => true
  | .string => true
  | .integer _ => true
  | .double | .float => true
  | .other _ => false

/-- A value that `catalina_binary_formatter_write_value` has something to write for. -/
def GValue.Writable {ω : Type} : GValue ω → Prop
  | .plain _ => True
  | .object _ (some _) => True
  | _ => False

instance {ω : Type} (v : GValue ω) : Decidable v.Writable := by
  unfold GValue.Writable
  split <;> infer_instance

/-- `GParamSpec`. -/
structure ParamSpec where
  name : CString
  valueType : GType
deriving DecidableEq, Repr

/-! ## Objects -/

/-- An object made by `g_object_new` and the values its properties were set to, last one first. -/
inductive GObject
  | mk (c : ℕ) (fields : List (CString × GValue GObject))

namespace GObject

def cls : GObject → ℕ
  | mk c _ => c

def fields : GObject → List (CString × GValue GObject)
  | mk _ fields => fields

end GObject

/-- A class that there are objects of, a class that is derived from only, or an interface. -/
inductive TypeKind
  | concrete
  | abstract
  | interface
deriving DecidableEq, Repr

/-- The registered types. `fits c p v` is what the property `p` of an object of the class `c` holds
after it was set to `v`, by the `GParamSpec` and the setter of the class; `none` if the value is
refused. -/
structure TypeSystem where
  typeName : ℕ → CString
  typeFromName : CString → Option GType
  kind : ℕ → TypeKind
  isA : ℕ → ℕ → Bool
  listProperties : ℕ → List ParamSpec
  default : ℕ → ParamSpec → GValue GObject
  fits : ℕ → ParamSpec → GValue GObject → Option (GValue GObject)

namespace TypeSystem

variable (ts : TypeSystem)

/-- The type of objects with the given name: `g_type_from_name`, and `g_type_is_a` for
`G_TYPE_OBJECT`. -/
def objectFromName (name : CString) : Option ℕ :=
  match ts.typeFromName name with
  | some (.object c) => some c
  | _ => none

/-- `g_object_new`: an object, or `NULL` for an interface. For an abstract class it does not come
back, which is `none`. -/
def objectNew (c : ℕ) : Option (Option GObject) :=
  match ts.kind c with
  | .concrete => some (some (.mk c []))
  | .interface => some none
  -- g_type_create_instance calls g_error
  | .abstract => none

/-- `g_object_set_property`: a name that is no property and a value that does not fit are warned
about and change nothing. -/
def setProperty (o : GObject) (name : CString) (v : GValue GObject) : GObject :=
  match (ts.listProperties o.cls).find? (·.name = name) with
  | none => o
  | some p =>
    match ts.fits o.cls p v with
    | none => o
    | some v => .mk o.cls ((name, v) :: o.fields)

theorem objectNew_concrete {c : ℕ} (h : ts.kind c = .concrete) :
    ts.objectNew c = some (some (.mk c [])) := by
  rw [objectNew, h]

theorem objectNew_eq_some_iff {c : ℕ} {o : Option GObject} : ts.objectNew c = some o ↔
    ts.kind c = .concrete ∧ o = some (.mk c []) ∨ ts.kind c = .interface ∧ o = none := by
  unfold objectNew
  cases ts.kind c <;> simp [eq_comm]

/-- `g_object_get_property`. -/
def getProperty (o : GObject) (p : ParamSpec) : GValue GObject :=
  match o.fields.find? (·.1 = p.name) with
  | none => ts.default o.cls p
  | some f => f.2

theorem cls_setProperty (o : GObject) (name : CString) (v : GValue GObject) :
    (ts.setProperty o name v).cls = o.cls := by
  unfold setProperty
  split
  · rfl
  · split <;> rfl

end TypeSystem

/-- Objects with a class and properties. A property has a value of its own type, and an object in it
is of the property's class. -/
structure World (ts : TypeSystem) (ω : Type) where
  cls : ω → ℕ
  property : ω → ParamSpec → GValue ω
  typed : ∀ x p, (property x p).type = p.valueType
  instanceOf : ∀ x p c y, property x p = .object c (some y) → ts.isA (cls y) c = true

/-! ## The process -/

/-- What `strtod` and `strtof` make of a string: a number, whether `errno` is set, and how many
characters they look at. -/
structure Strto (w : ℕ) where
  value : BitVec w
  errno : Bool
  scanned : ℕ
deriving DecidableEq, Repr

/-- The process that runs the formatter; `glong` has 64 bits. `printDouble` and `printFloat` are
`g_strdup_printf` with `%0.8g` and `%g`, and `beyond` is what stands in memory behind a block that
was allocated for the given bytes. -/
structure Process where
  order : ByteOrder
  types : TypeSystem
  printDouble : BitVec 64 → CString
  printFloat : BitVec 32 → CString
  strtod : CString → Strto 64
  strtof : CString → Strto 32
  beyond : Bytes → CString
  strtod_scanned : ∀ s, (strtod s).scanned ≤ s.strlen + 1
  strtof_scanned : ∀ s, (strtof s).scanned ≤ s.strlen + 1

/-- The same process on a host of another byte order. -/
def Process.on (P : Process) (o : ByteOrder) : Process := { P with order := o }

/-! ## A small process -/

/-- The class `A`, the only one that is registered, has an int `p`, a string `q` and a reference `r` to
another object of its own. Other classes have the name `B`. -/
def sampleTypes : TypeSystem where
  typeName c := if c = 0 then ⟨[65], by decide⟩ else ⟨[66], by decide⟩
  typeFromName name := if name.chars = [65] then some (.object 0) else none
  kind _ := .concrete
  isA c d := c == d
  listProperties c :=
    if c = 0 then
      [⟨⟨[112], by decide⟩, .integer .int⟩, ⟨⟨[113], by decide⟩, .string⟩,
        ⟨⟨[114], by decide⟩, .object 0⟩]
    else []
  default _ p :=
    match p.valueType with
    | .integer t => .plain (.integer t 0)
    | .object c => .object c none
    | _ => .plain (.string none)
  fits _ p v := if v.type = p.valueType then some v else none

/-- Every number is printed as `0`. -/
def sampleProcess : Process where
  order := .little
  types := sampleTypes
  printDouble _ := ⟨[48], by decide⟩
  printFloat _ := ⟨[48], by decide⟩
  strtod _ := ⟨0, false, 1⟩
  strtof _ := ⟨0, false, 1⟩
  beyond _ := ⟨[], by decide⟩
  strtod_scanned s := Nat.le_add_left 1 s.strlen
  strtof_scanned s := Nat.le_add_left 1 s.strlen

/-! ## The tags -/

/-- The first byte of an encoding. -/
inductive Tag
  | boolean
  | int64
  | uint64
  | long
  | ulong
  | int
  | uint
  | short
  | ushort
  | char
  | uchar
  | double
  | float
  | string
  | object
deriving DecidableEq, Repr

/-- `BINARY_FORMATTER_TYPE_UNSIGNED`. -/
def unsigned : UInt8 := (1 : UInt8) <<< (7 : UInt8)

/-- The constants `BINARY_FORMATTER_TYPE_*`. -/
def Tag.id : Tag → UInt8
  | .boolean => 1
  | .int64 => 2
  | .uint64 => 2 ||| unsigned
  | .long => 3
  | .ulong => 3 ||| unsigned
  | .int => 4
  | .uint => 4 ||| unsigned
  | .short => 5
  | .ushort => 5 ||| unsigned
  | .char => 6
  | .uchar => 6 ||| unsigned
  | .double => 7
  | .float => 8
  | .string => 14
  | .object => 15

/-- The tags, as `catalina_binary_formatter_read_value` asks for them. -/
def Tag.all : List Tag :=
  [.boolean, .int64, .uint64, .long, .ulong, .int, .uint, .short, .ushort, .char, .uchar, .double,
    .float, .string, .object]

/-- The tag of a type byte. -/
def Tag.ofId (b : UInt8) : Option Tag := Tag.all.find? (·.id = b)

theorem Tag.ofId_id (t : Tag) : Tag.ofId t.id = some t := by
  cases t <;> decide

theorem Tag.id_injective {t t' : Tag} (h : t.id = t'.id) : t = t' := by
  have h₁ := Tag.ofId_id t
  rw [h, Tag.ofId_id] at h₁
  exact (Option.some.inj h₁).symm

theorem Tag.id_of_ofId {b : UInt8} {t : Tag} (h : Tag.ofId b = some t) : t.id = b := by
  simpa using List.find?_some h

end Catalina
