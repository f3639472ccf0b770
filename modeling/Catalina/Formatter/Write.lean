import Catalina.Formatter.Value

/-!
# Writing

The writers of `CatalinaBinaryFormatter`. Every writer answers a buffer, whose length is the
reported one, or `none` for `FALSE`; a write outside a buffer stops the run.

* `writeWord`, `writeByte`: the writers of numbers are all of these two forms.
* `writeString`, `writeDouble`, `writeFloat`.
* `collectChunks`, `copyChunks`: the two loops of `catalina_binary_formatter_write_object`. Its
  variable `total` is not initialized: `entry` says what it holds, for each call, which is named by
  the path of property numbers that leads to it.
* `writeObject`, `writeValue`: the recursion through the properties of objects.
* `realSerialize`: the interface method.
-/

namespace Catalina

/-- A block from `g_malloc0`. -/
def zeros (n : ℕ) : Bytes := List.replicate n 0

@[simp] theorem length_zeros (n : ℕ) : (zeros n).length = n := List.length_replicate

/-! ## Numbers -/

/-- The size of `glong`. -/
def LongSize.bytes : LongSize → ℕ
  | .four => 4
  | .eight => 8

/-- A tag and a word of `size` bytes, swapped to big-endian, in a buffer with room for `room`. -/
def writeWord (o : ByteOrder) (tag : Tag) (size room x : ℕ) : Bytes :=
  tag.id :: (image o size (toBE o size x) ++ zeros (room - size))

theorem writeWord_eq (o : ByteOrder) (tag : Tag) (size x : ℕ) :
    writeWord o tag size size x = tag.id :: beBytes size x := by
  rw [writeWord, image_toBE, Nat.sub_self]
  exact congrArg _ (List.append_nil _)

/-- A tag and a byte. -/
def writeByte (tag : Tag) (x : ℕ) : Bytes := [tag.id, UInt8.ofNat x]

def writeBoolean (x : BitVec 32) : Bytes := writeByte .boolean x.toNat

def writeChar (x : BitVec 8) : Bytes := writeByte .char x.toNat

def writeUchar (x : BitVec 8) : Bytes := writeByte .uchar x.toNat

def writeShort (o : ByteOrder) (x : BitVec 16) : Bytes := writeWord o .short 2 2 x.toNat

def writeUshort (o : ByteOrder) (x : BitVec 16) : Bytes := writeWord o .ushort 2 2 x.toNat

def writeInt (o : ByteOrder) (x : BitVec 32) : Bytes := writeWord o .int 4 4 x.toNat

def writeUint (o : ByteOrder) (x : BitVec 32) : Bytes := writeWord o .uint 4 4 x.toNat

/-- The `glong` is given by its bits. -/
def writeLong (h : Host) (x : ℕ) : Bytes := writeWord h.order .long h.long.bytes 8 x

def writeUlong (h : Host) (x : ℕ) : Bytes := writeWord h.order .ulong h.long.bytes 8 x

def writeInt64 (o : ByteOrder) (x : BitVec 64) : Bytes := writeWord o .int64 8 8 x.toNat

def writeUint64 (o : ByteOrder) (x : BitVec 64) : Bytes := writeWord o .uint64 8 8 x.toNat

/-- The writer for an integer type, on a host with 64-bit longs. -/
def writeInteger (o : ByteOrder) : (t : IntType) → BitVec t.bits → Bytes
  | .int, x => writeInt o x
  | .uint, x => writeUint o x
  | .boolean, x => writeBoolean x
  | .long, x => writeLong ⟨o, .eight⟩ x.toNat
  | .ulong, x => writeUlong ⟨o, .eight⟩ x.toNat
  | .int64, x => writeInt64 o x
  | .uint64, x => writeUint64 o x
  | .char, x => writeChar x
  | .uchar, x => writeUchar x

/-! ## Strings -/

/-- `catalina_binary_formatter_write_string` for a length of `-1`, as all its callers have it. -/
def writeString (o : ByteOrder) (value : Option CString) : Except Stop Bytes := do
  let length := match value with
    | some s => guint (s.strlen + 1)
    | none => 0
  let buf ← blitOrStop (zeros (guint (1 + 4 + length))) 0 [Tag.string.id]
  let buf ← match value with
    | some s => blitOrStop buf 5 (s.stored.take length)
    | none => .ok buf
  blitOrStop buf 1 (image o 4 (toBE o 4 length))

/-- A number as a text: the string that was printed, under another tag. -/
def writeText (o : ByteOrder) (tag : Tag) (text : CString) : Except Stop Bytes := do
  let buf ← writeString o (some text)
  blitOrStop buf 0 [tag.id]

variable (P : Process)

def writeDouble (x : BitVec 64) : Except Stop Bytes := writeText P.order .double (P.printDouble x)

def writeFloat (x : BitVec 32) : Except Stop Bytes := writeText P.order .float (P.printFloat x)

/-! ## Objects -/

/-- `Chunk`: a property that was written. -/
structure Chunk where
  key : CString
  keyLength : ℕ
  value : Bytes
deriving DecidableEq, Repr

section Objects

variable {ω : Type} (w : World P.types ω) (entry : List ℕ → ℕ)

/-- The loop over the properties: the chunks, last one first, and `total`. -/
def collectChunks (write : ℕ → GValue ω → Except Stop (Option Bytes)) (x : ω) :
    ℕ → List ParamSpec → List Chunk → ℕ → Except Stop (List Chunk × ℕ)
  | _, [], chunks, total => .ok (chunks, total)
  | i, p :: params, chunks, total =>
    if canSerializeType p.valueType then
      match write i (w.property x p) with
      | .error e => .error e
      -- the property is skipped
      | .ok none => collectChunks write x (i + 1) params chunks total
      | .ok (some value) =>
        let keyLength := guint (p.name.strlen + 1)
        collectChunks write x (i + 1) params (⟨p.name, keyLength, value⟩ :: chunks)
          (guint (total + (1 + keyLength + 4 + value.length)))
    else collectChunks write x (i + 1) params chunks total

/-- The loop that copies the chunks into the buffer. -/
def copyChunks (o : ByteOrder) : List Chunk → ℕ → Bytes → Except Stop Bytes
  | [], _, buf => .ok buf
  | c :: chunks, offset, buf => do
    let buf ← blitOrStop buf offset [UInt8.ofNat c.keyLength]
    let offset := guint (offset + 1)
    let buf ← blitOrStop buf offset (c.key.stored.take c.keyLength)
    let offset := guint (offset + c.keyLength)
    let buf ← blitOrStop buf offset (image o 4 (toBE o 4 c.value.length))
    let offset := guint (offset + 4)
    let buf ← blitOrStop buf offset c.value
    copyChunks o chunks (guint (offset + c.value.length)) buf

/-- `type_name_len`, which is a `guchar`. -/
def typeNameLen (typeName : CString) : ℕ := (typeName.strlen + 1) % 256

/-- The header: the tag, the length of the type's name and the name. -/
def objectHeader (typeName : CString) : Bytes :=
  Tag.object.id :: UInt8.ofNat (typeNameLen typeName) ::
    typeName.stored.take (typeNameLen typeName)

/-- `catalina_binary_formatter_write_object`, given what `total` holds on entry and a writer for the
values of its properties. -/
def writeObjectWith (write : ℕ → GValue ω → Except Stop (Option Bytes)) (total : ℕ) :
    Option ω → Except Stop (Option Bytes)
  | none => .ok none
  | some x => do
    let header := objectHeader (P.types.typeName (w.cls x))
    let r ← collectChunks P w write x 0 (P.types.listProperties (w.cls x)) []
      (guint (total + header.length))
    -- null sentinel
    let total := guint (r.2 + 1)
    let buf ← blitOrStop (zeros total) 0 header
    let buf ← copyChunks P.order r.1 header.length buf
    return some buf

/-- `catalina_binary_formatter_write_value`, given a writer for objects. -/
def writeValueWith (writeObject : Option ω → Except Stop (Option Bytes)) :
    GValue ω → Except Stop (Option Bytes)
  | .void => .ok none
  | .plain (.string s) => some <$> writeString P.order s
  | .plain (.integer t x) => .ok (some (writeInteger P.order t x))
  | .plain (.double x) => some <$> writeDouble P x
  | .plain (.float x) => some <$> writeFloat P x
  | .object _ x => writeObject x
  | .other _ => .ok none

/-- `catalina_binary_formatter_write_object`; the fuel bounds the depth of the recursion. -/
def writeObject : ℕ → List ℕ → Option ω → Except Stop (Option Bytes)
  | 0, _, _ => .error .running
  | fuel + 1, path, x =>
    writeObjectWith P w (fun i => writeValueWith P (writeObject fuel (i :: path))) (entry path) x

/-- `catalina_binary_formatter_write_value`. -/
def writeValue (fuel : ℕ) (path : List ℕ) (v : GValue ω) : Except Stop (Option Bytes) :=
  writeValueWith P (writeObject P w entry fuel path) v

/-- `catalina_binary_formatter_real_serialize`, which always answers `TRUE`. -/
def realSerialize (fuel : ℕ) (v : GValue ω) : Except Stop Bytes := do
  let r ← writeValue P w entry fuel [] v
  let tmp := r.getD []
  let buf ← blitOrStop (zeros (guint (2 + tmp.length))) 0 [1]
  let buf ← blitOrStop buf 1 [0]
  blitOrStop buf 2 tmp

end Objects

end Catalina
