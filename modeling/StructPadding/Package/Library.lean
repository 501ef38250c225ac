-- SUMMARY: What is known beforehand: predeclared types, and types and constants of the standard library.
import StructPadding.Machine
import StructPadding.Layout.Shape

/-!
# Library

The shapes of the predeclared types and of common types of the standard library on a given machine, and the
integer limits of its mathematics package.
-/

namespace StructPadding.Library

/-- The signed integer as wide as a word. -/
def int (m : Machine) : Shape := if m.wordSize = 8 then Scalar.int64 else Scalar.int32

/-- The unsigned integer as wide as a word. -/
def uint (m : Machine) : Shape := if m.wordSize = 8 then Scalar.uint64 else Scalar.uint32

/-- The predeclared types by name. -/
def predeclared (m : Machine) : List (String × Shape) :=
  [("bool", Scalar.bool), ("int8", Scalar.int8), ("int16", Scalar.int16), ("int32", Scalar.int32),
   ("rune", Scalar.int32), ("int64", Scalar.int64), ("uint8", Scalar.uint8), ("byte", Scalar.uint8),
   ("uint16", Scalar.uint16), ("uint32", Scalar.uint32), ("uint64", Scalar.uint64), ("int", int m),
   ("uint", uint m), ("uintptr", uint m), ("float32", Scalar.float32), ("float64", Scalar.float64),
   ("complex64", Scalar.complex64), ("complex128", Scalar.complex128), ("string", Scalar.string),
   ("error", Scalar.interface), ("any", Scalar.interface), ("comparable", Scalar.interface)]

def predeclared? (m : Machine) (name : String) : Option Shape := (predeclared m).lookup name

/-! ## Types of packages -/

/-- A field without a size, which only marks its struct. -/
def marker : Field := ⟨"_", .struct []⟩

def mutex : Shape := .struct [⟨"state", Scalar.int32⟩, ⟨"sema", Scalar.uint32⟩]

def atomic (value : Shape) : Shape := .struct [marker, ⟨"v", value⟩]

/-- Atomics of eight bytes, which have a second marker for their alignment. -/
def atomic64 (value : Shape) : Shape := .struct [marker, marker, ⟨"v", value⟩]

/-- Several types of one shape. -/
def alike (names : List String) (shape : Shape) : List (String × Shape) := names.map (·, shape)

/-- The known types of each package by import path. -/
def packages (m : Machine) : List (String × List (String × Shape)) :=
  [("unsafe", [("Pointer", Scalar.pointer)]),
   ("sync",
    [("Mutex", mutex),
     ("RWMutex", .struct [⟨"w", mutex⟩, ⟨"writerSem", Scalar.uint32⟩, ⟨"readerSem", Scalar.uint32⟩,
       ⟨"readerCount", atomic Scalar.int32⟩, ⟨"readerWait", atomic Scalar.int32⟩]),
     ("WaitGroup", .struct [marker, ⟨"state", atomic64 Scalar.uint64⟩, ⟨"sema", Scalar.uint32⟩]),
     ("Once", .struct [marker, ⟨"done", atomic Scalar.uint32⟩, ⟨"m", mutex⟩]),
     ("Pool", .struct [marker, ⟨"local", Scalar.pointer⟩, ⟨"localSize", uint m⟩, ⟨"victim", Scalar.pointer⟩,
       ⟨"victimSize", uint m⟩, ⟨"New", Scalar.func⟩]),
     ("Locker", Scalar.interface)]),
   ("sync/atomic",
    [("Int32", atomic Scalar.int32), ("Bool", atomic Scalar.uint32), ("Uint32", atomic Scalar.uint32),
     ("Int64", atomic64 Scalar.int64), ("Uint64", atomic64 Scalar.uint64), ("Uintptr", atomic (uint m)),
     ("Value", .struct [⟨"v", Scalar.interface⟩]),
     ("Pointer", .struct [⟨"_", .array Scalar.pointer 0⟩, marker, ⟨"v", Scalar.pointer⟩])]),
   ("time",
    [("Time", .struct [⟨"wall", Scalar.uint64⟩, ⟨"ext", Scalar.int64⟩, ⟨"loc", Scalar.pointer⟩]),
     ("Duration", Scalar.int64), ("Month", int m), ("Weekday", int m)]),
   ("context", [("Context", Scalar.interface), ("CancelFunc", Scalar.func)]),
   ("io",
    alike ["Reader", "Writer", "Closer", "Seeker", "ReaderAt", "WriterAt", "ReadWriter", "ReadCloser",
      "WriteCloser", "ReadWriteCloser"] Scalar.interface),
   ("net",
    alike ["IP", "IPMask", "HardwareAddr"] Scalar.slice ++
      alike ["Conn", "Listener", "Addr", "PacketConn"] Scalar.interface),
   ("bytes", [("Buffer", .struct [⟨"buf", Scalar.slice⟩, ⟨"off", int m⟩, ⟨"lastRead", Scalar.int8⟩])]),
   ("strings",
    [("Builder", .struct [⟨"addr", Scalar.pointer⟩, ⟨"buf", Scalar.slice⟩]),
     ("Reader", .struct [⟨"s", Scalar.string⟩, ⟨"i", Scalar.int64⟩, ⟨"prevRune", int m⟩])]),
   ("math/big", [("Int", .struct [⟨"neg", Scalar.bool⟩, ⟨"abs", Scalar.slice⟩])]),
   ("fmt", alike ["Stringer", "Formatter", "State"] Scalar.interface),
   ("reflect",
    [("Type", Scalar.interface), ("Kind", uint m),
     ("Value", .struct [⟨"typ_", Scalar.pointer⟩, ⟨"ptr", Scalar.pointer⟩, ⟨"flag", uint m⟩])]),
   ("net/http",
    alike ["Handler", "ResponseWriter", "RoundTripper"] Scalar.interface ++
      alike ["Header"] Scalar.map ++ alike ["HandlerFunc"] Scalar.func),
   ("os", [("FileMode", Scalar.uint32), ("Signal", Scalar.interface)]),
   ("io/fs", [("FileMode", Scalar.uint32), ("FileInfo", Scalar.interface), ("FS", Scalar.interface)]),
   ("encoding/json",
    [("RawMessage", Scalar.slice), ("Number", Scalar.string), ("Marshaler", Scalar.interface),
     ("Unmarshaler", Scalar.interface)])]

/-- The shape of a type exported by the package at an import path. -/
def type? (m : Machine) (path name : String) : Option Shape :=
  ((packages m).lookup path).bind (·.lookup name)

/-! ## Constants of packages -/

/-- The limits of the integer types. -/
def limits : List (String × Int) :=
  [("MaxInt8", 0x7f), ("MinInt8", -0x80), ("MaxInt16", 0x7fff), ("MinInt16", -0x8000),
   ("MaxInt32", 0x7fffffff), ("MinInt32", -0x80000000), ("MaxInt64", 0x7fffffffffffffff),
   ("MinInt64", -0x8000000000000000), ("MaxUint8", 0xff), ("MaxUint16", 0xffff), ("MaxUint32", 0xffffffff),
   ("MaxUint64", 0xffffffffffffffff)]

/-- The value of an integer constant exported by the package at an import path. -/
def const? (path name : String) : Option Int := if path = "math" then limits.lookup name else none

end StructPadding.Library
