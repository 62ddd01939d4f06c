import ApiCompiler.Table

/-!
# Known classes

The classes that declarations can name without declaring them: where they live, what they are
called, what they inherit from, and the public members that a class below them finds present. A few
of them can also be named as generic names, which are no classes and stand for one.
-/

set_option autoImplicit false

namespace ApiCompiler

/-- The known classes. -/
inductive Builtin where
  | object | int | bool | float | complex | str | bytes | bytearray | noneType | any | decimal
  | date | datetime | time | timedelta | uuid | list | tuple | set | frozenset | dict | deque
  | orderedDict | defaultDict | counter | awaitable | coroutine | asyncIterable | asyncIterator
  | asyncGenerator | hashable | sized | container | callable | iterable | iterator | generator
  | reversible | collection | sequence | mutableSequence | byteString | abstractSet | mutableSet
  | mapping | mutableMapping | mappingView | keysView | itemsView | valuesView | stream
  | binaryStream | textStream | baseStream | byteBuffer | textBuffer | future | task
  | concurrentFuture | typeToken | requestHandle
  deriving DecidableEq, Repr

namespace Builtin

/-- Every known class. -/
def all : List Builtin := [
  .object, .int, .bool, .float, .complex, .str, .bytes, .bytearray, .noneType, .any, .decimal,
  .date, .datetime, .time, .timedelta, .uuid, .list, .tuple, .set, .frozenset, .dict, .deque,
  .orderedDict, .defaultDict, .counter, .awaitable, .coroutine, .asyncIterable, .asyncIterator,
  .asyncGenerator, .hashable, .sized, .container, .callable, .iterable, .iterator, .generator,
  .reversible, .collection, .sequence, .mutableSequence, .byteString, .abstractSet, .mutableSet,
  .mapping, .mutableMapping, .mappingView, .keysView, .itemsView, .valuesView, .stream,
  .binaryStream, .textStream, .baseStream, .byteBuffer, .textBuffer, .future, .task,
  .concurrentFuture, .typeToken, .requestHandle]

def module : Builtin → String
  | .object | .int | .bool | .float | .complex | .str | .bytes | .bytearray | .noneType | .list
  | .tuple | .set | .frozenset | .dict => "builtins"
  | .any | .stream | .binaryStream | .textStream => "typing"
  | .decimal => "decimal"
  | .date | .datetime | .time | .timedelta => "datetime"
  | .uuid => "uuid"
  | .deque | .orderedDict | .defaultDict | .counter => "collections"
  | .awaitable | .coroutine | .asyncIterable | .asyncIterator | .asyncGenerator | .hashable
  | .sized | .container | .callable | .iterable | .iterator | .generator | .reversible
  | .collection | .sequence | .mutableSequence | .byteString | .abstractSet | .mutableSet
  | .mapping | .mutableMapping | .mappingView | .keysView | .itemsView | .valuesView =>
    "collections.abc"
  | .baseStream => "io"
  | .byteBuffer | .textBuffer => "_io"
  | .future | .task => "_asyncio"
  | .concurrentFuture => "concurrent.futures._base"
  | .typeToken | .requestHandle => "routespec.declarations.types"

/-- The name of a class in its module. -/
def qualname : Builtin → String
  | .object => "object"
  | .int => "int"
  | .bool => "bool"
  | .float => "float"
  | .complex => "complex"
  | .str => "str"
  | .bytes => "bytes"
  | .bytearray => "bytearray"
  | .noneType => "NoneType"
  | .any => "Any"
  | .decimal => "Decimal"
  | .date => "date"
  | .datetime => "datetime"
  | .time => "time"
  | .timedelta => "timedelta"
  | .uuid => "UUID"
  | .list => "list"
  | .tuple => "tuple"
  | .set => "set"
  | .frozenset => "frozenset"
  | .dict => "dict"
  | .deque => "deque"
  | .orderedDict => "OrderedDict"
  | .defaultDict => "defaultdict"
  | .counter => "Counter"
  | .awaitable => "Awaitable"
  | .coroutine => "Coroutine"
  | .asyncIterable => "AsyncIterable"
  | .asyncIterator => "AsyncIterator"
  | .asyncGenerator => "AsyncGenerator"
  | .hashable => "Hashable"
  | .sized => "Sized"
  | .container => "Container"
  | .callable => "Callable"
  | .iterable => "Iterable"
  | .iterator => "Iterator"
  | .generator => "Generator"
  | .reversible => "Reversible"
  | .collection => "Collection"
  | .sequence => "Sequence"
  | .mutableSequence => "MutableSequence"
  | .byteString => "ByteString"
  | .abstractSet => "Set"
  | .mutableSet => "MutableSet"
  | .mapping => "Mapping"
  | .mutableMapping => "MutableMapping"
  | .mappingView => "MappingView"
  | .keysView => "KeysView"
  | .itemsView => "ItemsView"
  | .valuesView => "ValuesView"
  | .stream => "IO"
  | .binaryStream => "BinaryIO"
  | .textStream => "TextIO"
  | .baseStream => "IOBase"
  | .byteBuffer => "BytesIO"
  | .textBuffer => "StringIO"
  | .future => "Future"
  | .task => "Task"
  | .concurrentFuture => "Future"
  | .typeToken => "TypeToken"
  | .requestHandle => "IncomingRequest"

/-- The name under which declarations refer to a class. -/
def name (c : Builtin) : String :=
  match c with
  | .stream => "typing.IO"
  | .binaryStream => "typing.BinaryIO"
  | .textStream => "typing.TextIO"
  | .baseStream => "io.IOBase"
  | .byteBuffer => "io.BytesIO"
  | .textBuffer => "io.StringIO"
  | .future => "asyncio.Future"
  | .task => "asyncio.Task"
  | .concurrentFuture => "concurrent.futures.Future"
  | c => if c.module = "collections.abc" then "abc." ++ c.qualname else c.qualname

/-- The text of a class: its name, behind its module unless that is the standard one. -/
def text (c : Builtin) : String :=
  if c.module = "builtins" then c.qualname else c.module ++ "." ++ c.qualname

/-- The classes that a class inherits from, nearest first, without `object`. -/
def above : Builtin → List Builtin
  | .bool => [.int]
  | .datetime => [.date]
  | .orderedDict => [.dict]
  | .defaultDict => [.dict]
  | .counter => [.dict]
  | .coroutine => [.awaitable]
  | .asyncIterator => [.asyncIterable]
  | .asyncGenerator => [.asyncIterator, .asyncIterable]
  | .iterator => [.iterable]
  | .generator => [.iterator, .iterable]
  | .reversible => [.iterable]
  | .collection => [.sized, .iterable, .container]
  | .sequence => [.reversible, .collection, .sized, .iterable, .container]
  | .mutableSequence => [.sequence, .reversible, .collection, .sized, .iterable, .container]
  | .byteString => [.sequence, .reversible, .collection, .sized, .iterable, .container]
  | .abstractSet => [.collection, .sized, .iterable, .container]
  | .mutableSet => [.abstractSet, .collection, .sized, .iterable, .container]
  | .mapping => [.collection, .sized, .iterable, .container]
  | .mutableMapping => [.mapping, .collection, .sized, .iterable, .container]
  | .mappingView => [.sized]
  | .keysView => [.mappingView, .abstractSet, .collection, .sized, .iterable, .container]
  | .itemsView => [.mappingView, .abstractSet, .collection, .sized, .iterable, .container]
  | .valuesView => [.mappingView, .collection, .sized, .iterable, .container]
  | .binaryStream => [.stream]
  | .textStream => [.stream]
  | .byteBuffer | .textBuffer => [.baseStream]
  | .task => [.future]
  | _ => []

/-- A class is, or inherits from, another one. -/
def isBelow (c d : Builtin) : Bool := c == d || c.above.contains d || d == .object

/-- The public functions of a class itself, in order of definition. -/
def functions : Builtin → List String
  | .counter => ["total", "most_common", "elements", "fromkeys", "update", "subtract", "copy"]
  | .coroutine => ["send", "throw", "close"]
  | .asyncGenerator => ["asend", "athrow", "aclose"]
  | .generator => ["send", "throw", "close"]
  | .sequence => ["index", "count"]
  | .mutableSequence => ["insert", "append", "clear", "reverse", "extend", "pop", "remove"]
  | .abstractSet => ["isdisjoint"]
  | .mutableSet => ["add", "discard", "remove", "pop", "clear"]
  | .mapping => ["get", "keys", "items", "values"]
  | .mutableMapping => ["pop", "popitem", "clear", "update", "setdefault"]
  | .stream => [
    "close", "fileno", "flush", "isatty", "read", "readable", "readline", "readlines", "seek",
    "seekable", "tell", "truncate", "writable", "write", "writelines"]
  | .binaryStream => ["write"]
  | .concurrentFuture => [
    "cancel", "cancelled", "running", "done", "add_done_callback", "result", "exception",
    "set_running_or_notify_cancel", "set_result", "set_exception"]
  | _ => []

/-- The public members of a class itself that are no functions. The streams include those of the
classes behind them that have no name here. -/
def fixtures : Builtin → List String
  | .int => [
    "as_integer_ratio", "bit_count", "bit_length", "conjugate", "denominator", "from_bytes", "imag",
    "numerator", "real", "to_bytes"]
  | .float => ["as_integer_ratio", "conjugate", "fromhex", "hex", "imag", "is_integer", "real"]
  | .complex => ["conjugate", "imag", "real"]
  | .str => [
    "capitalize", "casefold", "center", "count", "encode", "endswith", "expandtabs", "find",
    "format", "format_map", "index", "isalnum", "isalpha", "isascii", "isdecimal", "isdigit",
    "isidentifier", "islower", "isnumeric", "isprintable", "isspace", "istitle", "isupper", "join",
    "ljust", "lower", "lstrip", "maketrans", "partition", "removeprefix", "removesuffix", "replace",
    "rfind", "rindex", "rjust", "rpartition", "rsplit", "rstrip", "split", "splitlines",
    "startswith", "strip", "swapcase", "title", "translate", "upper", "zfill"]
  | .bytes => [
    "capitalize", "center", "count", "decode", "endswith", "expandtabs", "find", "fromhex", "hex",
    "index", "isalnum", "isalpha", "isascii", "isdigit", "islower", "isspace", "istitle", "isupper",
    "join", "ljust", "lower", "lstrip", "maketrans", "partition", "removeprefix", "removesuffix",
    "replace", "rfind", "rindex", "rjust", "rpartition", "rsplit", "rstrip", "split", "splitlines",
    "startswith", "strip", "swapcase", "title", "translate", "upper", "zfill"]
  | .bytearray => [
    "append", "capitalize", "center", "clear", "copy", "count", "decode", "endswith", "expandtabs",
    "extend", "find", "fromhex", "hex", "index", "insert", "isalnum", "isalpha", "isascii",
    "isdigit", "islower", "isspace", "istitle", "isupper", "join", "ljust", "lower", "lstrip",
    "maketrans", "partition", "pop", "remove", "removeprefix", "removesuffix", "replace", "reverse",
    "rfind", "rindex", "rjust", "rpartition", "rsplit", "rstrip", "split", "splitlines",
    "startswith", "strip", "swapcase", "title", "translate", "upper", "zfill"]
  | .decimal => [
    "adjusted", "as_integer_ratio", "as_tuple", "canonical", "compare", "compare_signal",
    "compare_total", "compare_total_mag", "conjugate", "copy_abs", "copy_negate", "copy_sign",
    "exp", "fma", "from_float", "imag", "is_canonical", "is_finite", "is_infinite", "is_nan",
    "is_normal", "is_qnan", "is_signed", "is_snan", "is_subnormal", "is_zero", "ln", "log10",
    "logb", "logical_and", "logical_invert", "logical_or", "logical_xor", "max", "max_mag", "min",
    "min_mag", "next_minus", "next_plus", "next_toward", "normalize", "number_class", "quantize",
    "radix", "real", "remainder_near", "rotate", "same_quantum", "scaleb", "shift", "sqrt",
    "to_eng_string", "to_integral", "to_integral_exact", "to_integral_value"]
  | .date => [
    "ctime", "day", "fromisocalendar", "fromisoformat", "fromordinal", "fromtimestamp",
    "isocalendar", "isoformat", "isoweekday", "max", "min", "month", "replace", "resolution",
    "strftime", "timetuple", "today", "toordinal", "weekday", "year"]
  | .datetime => [
    "astimezone", "combine", "ctime", "date", "dst", "fold", "fromisoformat", "fromtimestamp",
    "hour", "isoformat", "max", "microsecond", "min", "minute", "now", "replace", "resolution",
    "second", "strptime", "time", "timestamp", "timetuple", "timetz", "tzinfo", "tzname",
    "utcfromtimestamp", "utcnow", "utcoffset", "utctimetuple"]
  | .time => [
    "dst", "fold", "fromisoformat", "hour", "isoformat", "max", "microsecond", "min", "minute",
    "replace", "resolution", "second", "strftime", "tzinfo", "tzname", "utcoffset"]
  | .timedelta => ["days", "max", "microseconds", "min", "resolution", "seconds", "total_seconds"]
  | .uuid => [
    "bytes", "bytes_le", "clock_seq", "clock_seq_hi_variant", "clock_seq_low", "fields", "hex",
    "int", "is_safe", "node", "time", "time_hi_version", "time_low", "time_mid", "urn", "variant",
    "version"]
  | .list => [
    "append", "clear", "copy", "count", "extend", "index", "insert", "pop", "remove", "reverse",
    "sort"]
  | .tuple => ["count", "index"]
  | .set => [
    "add", "clear", "copy", "difference", "difference_update", "discard", "intersection",
    "intersection_update", "isdisjoint", "issubset", "issuperset", "pop", "remove",
    "symmetric_difference", "symmetric_difference_update", "union", "update"]
  | .frozenset => [
    "copy", "difference", "intersection", "isdisjoint", "issubset", "issuperset",
    "symmetric_difference", "union"]
  | .dict => [
    "clear", "copy", "fromkeys", "get", "items", "keys", "pop", "popitem", "setdefault", "update",
    "values"]
  | .deque => [
    "append", "appendleft", "clear", "copy", "count", "extend", "extendleft", "index", "insert",
    "maxlen", "pop", "popleft", "remove", "reverse", "rotate"]
  | .orderedDict => [
    "clear", "copy", "fromkeys", "items", "keys", "move_to_end", "pop", "popitem", "setdefault",
    "update", "values"]
  | .defaultDict => ["copy", "default_factory"]
  | .stream => ["closed", "mode", "name"]
  | .textStream => ["buffer", "encoding", "errors", "line_buffering", "newlines"]
  | .baseStream => [
    "close", "closed", "fileno", "flush", "isatty", "readable", "readline", "readlines", "seek",
    "seekable", "tell", "truncate", "writable", "writelines"]
  | .byteBuffer => [
    "close", "closed", "detach", "flush", "getbuffer", "getvalue", "isatty", "read", "read1",
    "readable", "readinto", "readinto1", "readline", "readlines", "seek", "seekable", "tell",
    "truncate", "writable", "write", "writelines"]
  | .textBuffer => [
    "close", "closed", "detach", "encoding", "errors", "getvalue", "line_buffering", "newlines",
    "read", "readable", "readline", "seek", "seekable", "tell", "truncate", "writable", "write"]
  | .future => [
    "add_done_callback", "cancel", "cancelled", "done", "exception", "get_loop",
    "remove_done_callback", "result", "set_exception", "set_result"]
  | .task => [
    "add_done_callback", "cancel", "cancelled", "cancelling", "done", "exception", "get_coro",
    "get_name", "get_stack", "print_stack", "remove_done_callback", "result", "set_exception",
    "set_name", "set_result", "uncancel"]
  | _ => []

/-- The public members of a class, those of the classes above it included. -/
def members (c : Builtin) : List String :=
  (c :: c.above).flatMap fun d => d.functions ++ d.fixtures

/-- Classes that take arguments in brackets. -/
def takesArguments : Builtin → Bool
  | .list | .tuple | .set | .frozenset | .dict | .deque | .orderedDict | .defaultDict | .counter
  | .future | .task | .concurrentFuture | .stream | .typeToken => true
  | .hashable | .sized | .callable => false
  | c => c.module == "collections.abc"

end Builtin

/-- Generic names: they take arguments, and each stands for a class. -/
inductive GenericName where
  | list | dict | set | frozenset | tuple | deque | sequence | iterable | mapping | awaitable
  | coroutine
  deriving DecidableEq, Repr

namespace GenericName

def all : List GenericName := [
  .list, .dict, .set, .frozenset, .tuple, .deque, .sequence, .iterable, .mapping, .awaitable,
  .coroutine]

def name : GenericName → String
  | .list => "List"
  | .dict => "Dict"
  | .set => "Set"
  | .frozenset => "FrozenSet"
  | .tuple => "Tuple"
  | .deque => "Deque"
  | .sequence => "Sequence"
  | .iterable => "Iterable"
  | .mapping => "Mapping"
  | .awaitable => "Awaitable"
  | .coroutine => "Coroutine"

def origin : GenericName → Builtin
  | .list => .list
  | .dict => .dict
  | .set => .set
  | .frozenset => .frozenset
  | .tuple => .tuple
  | .deque => .deque
  | .sequence => .sequence
  | .iterable => .iterable
  | .mapping => .mapping
  | .awaitable => .awaitable
  | .coroutine => .coroutine

/-- The number of arguments, where it is fixed. -/
def arity : GenericName → Option Nat
  | .tuple => none
  | .dict | .mapping => some 2
  | .coroutine => some 3
  | _ => some 1

end GenericName

end ApiCompiler
