import Catalina.Formatter.Write

/-!
# Reading

The readers of `CatalinaBinaryFormatter`, as programs on the memory in which the buffer stands. The
first argument `lim` of a reader is the end of the region that its bytes should come from.

* `readWord`: the readers of integers are all of this form, and answer `none` for `FALSE`.
* `readString`, `readDouble`, `readFloat`: the latter two put the tag of a string into the buffer
  while they read it as one.
* `readProps`: the loop of `catalina_binary_formatter_read_object`, which goes on until it finds a
  zero byte, also if there is no object; a value that cannot be read aborts the process.
* `readObject`, `readValue`, `realDeserialize`.
-/

namespace Catalina

open Probe

/-! ## Numbers -/

/-- The reader of a word: `copied` bytes are copied into a variable of `size` bytes. -/
def readWord (o : ByteOrder) (tag : Tag) (size copied lim buffer length : ℕ) :
    Probe Stop (Option ℕ) := do
  if length ≠ 1 + copied then return none
  let b ← peekByte lim buffer
  if b ≠ tag.id then return none
  let bytes ← peek lim (buffer + 1) copied
  if size < copied then Probe.stop .outOfBounds
  return some (toBE o size (ofImage o bytes))

section Numbers

variable (o : ByteOrder) (h : Host) (lim buffer length : ℕ)

/-- A byte that is read as a `gchar`. -/
def gchar (w x : ℕ) : BitVec w := (BitVec.ofNat 8 x).signExtend w

def readBoolean : Probe Stop (Option (BitVec 32)) := do
  return (← readWord o .boolean 1 1 lim buffer length).map (gchar 32)

def readChar : Probe Stop (Option (BitVec 8)) := do
  return (← readWord o .char 1 1 lim buffer length).map (BitVec.ofNat 8)

def readUchar : Probe Stop (Option (BitVec 8)) := do
  return (← readWord o .uchar 1 1 lim buffer length).map (BitVec.ofNat 8)

def readShort : Probe Stop (Option (BitVec 16)) := do
  return (← readWord o .short 2 2 lim buffer length).map (BitVec.ofNat 16)

def readUshort : Probe Stop (Option (BitVec 16)) := do
  return (← readWord o .ushort 2 2 lim buffer length).map (BitVec.ofNat 16)

def readInt : Probe Stop (Option (BitVec 32)) := do
  return (← readWord o .int 4 4 lim buffer length).map (BitVec.ofNat 32)

def readUint : Probe Stop (Option (BitVec 32)) := do
  return (← readWord o .uint 4 4 lim buffer length).map (BitVec.ofNat 32)

/-- The bits of the `glong`. -/
def readLong : Probe Stop (Option ℕ) := readWord h.order .long h.long.bytes 8 lim buffer length

def readUlong : Probe Stop (Option ℕ) := readWord h.order .ulong h.long.bytes 8 lim buffer length

def readInt64 : Probe Stop (Option (BitVec 64)) := do
  return (← readWord o .int64 8 8 lim buffer length).map (BitVec.ofNat 64)

def readUint64 : Probe Stop (Option (BitVec 64)) := do
  return (← readWord o .uint64 8 8 lim buffer length).map (BitVec.ofNat 64)

end Numbers

/-! ## Strings -/

/-- What `catalina_binary_formatter_read_string` answers, and its two output variables. -/
structure StringRead where
  success : Bool
  value : Option Bytes := none
  length : ℕ := 0
deriving DecidableEq, Repr

def readString (o : ByteOrder) (lim buffer length : ℕ) : Probe Stop StringRead := do
  let b ← peekByte lim buffer
  if b ≠ Tag.string.id then return ⟨false, none, 0⟩
  let bytes ← peek lim (buffer + 1) 4
  let l := toBE o 4 (ofImage o bytes)
  check (l + 5 < 2 ^ 32)
  if guint (l + 5) ≠ length then return ⟨false, none, 0⟩
  let value ← peek lim (buffer + 5) l
  return ⟨true, allocated value, l⟩

/-- What the reader of a floating-point number answers; `value` is `none` where nothing was
assigned. -/
structure FloatRead (w : ℕ) where
  success : Bool
  value : Option (BitVec w) := none
  error : Option GError := none
deriving DecidableEq, Repr

variable (P : Process)

/-- The conversion of the string that was read; `error` is what is reported when `errno` is set. -/
def convertText {w : ℕ} (strto : CString → Strto w) (error : Option GError) (s : StringRead) :
    Probe Stop (FloatRead w) := do
  if !s.success then return ⟨false, none, none⟩
  match s.value with
  -- strtod (NULL, NULL)
  | none => do
    check false
    Probe.stop .outOfBounds
  | some text => do
    let d := strto (cstring P.beyond text)
    check (d.scanned ≤ text.length)
    return ⟨!d.errno, some d.value, if d.errno then error else none⟩

/-- The reader of a floating-point number that `strto` converts. -/
def readText {w : ℕ} (tag : Tag) (strto : CString → Strto w) (error : Option GError)
    (lim buffer length : ℕ) : Probe Stop (FloatRead w) := do
  poke lim buffer Tag.string.id
  let s ← readString P.order lim buffer length
  let r ← convertText P strto error s
  poke lim buffer tag.id
  return r

/-- The error of a double that does not fit. -/
def precisionError : GError :=
  ⟨.binaryFormatterBadData,
    "The precision of the double could not be represented on the current platform."⟩

def readDouble (lim buffer length : ℕ) : Probe Stop (FloatRead 64) :=
  readText P .double P.strtod (some precisionError) lim buffer length

def readFloat (lim buffer length : ℕ) : Probe Stop (FloatRead 32) :=
  readText P .float P.strtof none lim buffer length

/-! ## Values and objects -/

/-- What `catalina_binary_formatter_read_value` answers, with the caller's value (`none` as long as
it is not set) and error. -/
structure ReadResult where
  success : Bool
  value : Option (GValue GObject) := none
  error : Option GError := none

/-- What `catalina_binary_formatter_read_object` answers, with the caller's object. -/
structure ObjectRead where
  success : Bool
  object : Option GObject := none

/-- The value is set to what was read, and to zero if nothing was. -/
def setInteger {w : ℕ} (r : Option (BitVec w)) (f : BitVec w → Plain) : ReadResult :=
  ⟨r.isSome, some (.plain (f (r.getD 0))), none⟩

def setFloat {w : ℕ} (r : FloatRead w) (f : BitVec w → Plain) : ReadResult :=
  ⟨r.success, some (.plain (f (r.value.getD 0))), r.error⟩

/-- `g_value_set_boolean` holds `TRUE` for everything but `FALSE`. -/
def gboolean (v : BitVec 32) : BitVec 32 := if v = 0 then 0 else 1

/-- The branch of a tag in `catalina_binary_formatter_read_value`, given a reader for objects. -/
def readTag (readObject : ℕ → ℕ → ℕ → Probe Stop ObjectRead) (lim buffer length : ℕ) :
    Tag → Probe Stop ReadResult
  | .boolean => do
    return setInteger (← readBoolean P.order lim buffer length) fun v =>
      .integer .boolean (gboolean v)
  | .int64 => do
    return setInteger (← readInt64 P.order lim buffer length) (.integer .int64)
  | .uint64 => do
    return setInteger (← readUint64 P.order lim buffer length) (.integer .uint64)
  | .long => do
    return setInteger ((← readLong ⟨P.order, .eight⟩ lim buffer length).map (BitVec.ofNat 64))
      (.integer .long)
  | .ulong => do
    return setInteger ((← readUlong ⟨P.order, .eight⟩ lim buffer length).map (BitVec.ofNat 64))
      (.integer .ulong)
  | .int => do
    return setInteger (← readInt P.order lim buffer length) (.integer .int)
  | .uint => do
    return setInteger (← readUint P.order lim buffer length) (.integer .uint)
  | .short => do
    return setInteger (← readShort P.order lim buffer length) fun v =>
      .integer .int (v.signExtend 32)
  | .ushort => do
    return setInteger (← readUshort P.order lim buffer length) fun v =>
      .integer .int (v.zeroExtend 32)
  | .char => do
    return setInteger (← readChar P.order lim buffer length) (.integer .char)
  | .uchar => do
    return setInteger (← readUchar P.order lim buffer length) (.integer .uchar)
  | .double => do
    return setFloat (← readDouble P lim buffer length) .double
  | .float => do
    return setFloat (← readFloat P lim buffer length) .float
  | .string => do
    let s ← readString P.order lim buffer length
    match s.value with
    | none => return ⟨s.success, some (.plain (.string none)), none⟩
    | some v => do
      check (0 ∈ v)
      if (cstring P.beyond v).strlen + 1 = s.length then
        return ⟨s.success, some (.plain (.string (some (cstring P.beyond v)))), none⟩
      -- not a null terminated string
      return ⟨s.success, none, none⟩
  | .object => do
    let r ← readObject lim buffer length
    return ⟨r.success, r.object.map fun v => .object v.cls (some v), none⟩

/-- `catalina_binary_formatter_read_value`, given a reader for objects. -/
def readValueWith (readObject : ℕ → ℕ → ℕ → Probe Stop ObjectRead) (lim buffer length : ℕ) :
    Probe Stop ReadResult := do
  let typeId ← peekByte lim buffer
  match Tag.ofId typeId with
  | some tag => readTag P readObject lim buffer length tag
  | none => return ⟨false, none, none⟩

/-- The type of objects with the copied name, if there is one. -/
def lookupType (typeName : Bytes) : Probe Stop (Option ℕ) :=
  match allocated typeName with
  | none => return none
  | some name => do
    check (0 ∈ name)
    return P.types.objectFromName (cstring P.beyond name)

/-- `catalina_binary_formatter_read_object`, given the loop over the properties. The length of the
buffer is not looked at. -/
def readObjectWith (readProps : ℕ → ℕ → Option GObject → Probe Stop (Option GObject))
    (lim buffer _length : ℕ) : Probe Stop ObjectRead := do
  let b ← peekByte lim buffer
  if b ≠ Tag.object.id then return ⟨false, none⟩
  let typeNameLen ← peekByte lim (buffer + 1)
  let typeName ← peek lim (buffer + 2) typeNameLen.toNat
  match ← lookupType P typeName with
  | none => return ⟨false, none⟩
  | some c =>
    match P.types.objectNew c with
    | none => Probe.stop .aborted
    | some object => do
      let object ← readProps lim (buffer + 1 + 1 + typeNameLen.toNat) object
      return ⟨true, object⟩

/-- The loop over the properties of an object, which can be `NULL`. The fuel bounds the rounds of the
loop and the depth of the recursion. -/
def readProps : ℕ → ℕ → ℕ → Option GObject → Probe Stop (Option GObject)
  | 0, _, _, _ => Probe.stop .running
  | fuel + 1, lim, cursor, object => do
    let propNameLen ← peekByte lim cursor
    if propNameLen = 0 then return object
    let propName ← peek lim (cursor + 1) propNameLen.toNat
    let cursor := cursor + 1 + propNameLen.toNat
    let bytes ← peek lim cursor 4
    let propValueLen := toBE P.order 4 (ofImage P.order bytes)
    let cursor := cursor + 4
    let r ← readValueWith P (readObjectWith P (readProps fuel)) (min lim (cursor + propValueLen))
      cursor propValueLen
    if r.success then
      match object, r.value with
      | some o, some v => do
        check (0 ∈ propName)
        readProps fuel lim (cursor + propValueLen)
          (some (P.types.setProperty o (cstring P.beyond propName) v))
      -- g_object_set_property refuses NULL and a value that is not set
      | _, _ => readProps fuel lim (cursor + propValueLen) object
    else do
      -- g_debug prints the name, and g_error does not return
      check (0 ∈ propName)
      Probe.stop .aborted

def readObject (fuel : ℕ) : ℕ → ℕ → ℕ → Probe Stop ObjectRead :=
  readObjectWith P (readProps P fuel)

def readValue (fuel : ℕ) : ℕ → ℕ → ℕ → Probe Stop ReadResult :=
  readValueWith P (readObject P fuel)

/-- The error of a first byte that is not `1`. -/
def versionError (version : UInt8) : GError :=
  ⟨.binaryFormatterBadData,
    "Serialization version " ++ toString version.toNat ++ " is not supported"⟩

/-- `catalina_binary_formatter_real_deserialize` for a buffer of the given length at address `0`. -/
def realDeserialize (fuel bufferLength : ℕ) : Probe Stop ReadResult := do
  let version ← peekByte bufferLength 0
  if version ≠ 1 then return ⟨false, none, some (versionError version)⟩
  check (decide (2 ≤ bufferLength) && decide (bufferLength - 2 < 2 ^ 32))
  readValue P fuel bufferLength 2 (guintSub bufferLength 2)

end Catalina
