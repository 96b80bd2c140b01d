import SkPqc.Wire.JsonParse
import SkPqc.Wire.Scan

/-!
# Exceptions and dynamically typed values

A Python call returns or raises: `Py`. An exception is its class, with the class's ancestors among
the ones that a handler here names, and its message. A message keeps the literal texts and the
values that an f-string interpolates; `Part.lib` stands for a text the standard library or a
third-party package writes, and `{exc}` splices in the message of the exception caught.

The limit of `json.loads` on nesting (`RecursionError`) is an argument where it is modelled. The limit on the
digits of an integer is not modelled, nor is running out of memory (`MemoryError`).
-/

namespace SkPqc

open Wire

/-! ### Exceptions -/

/-- The exception classes that the code raises, names in a handler, or meets from the packages it
calls. `foreign` is any other class derived directly from `Exception`. -/
inductive ExcClass where
  | exception
  | valueError
  | typeError
  | keyError
  | attributeError
  | overflowError
  | importError
  | unicodeEncodeError
  | unicodeDecodeError
  | jsonDecodeError
  | recursionError
  | binasciiError
  | structError
  | invalidTag
  | foreign (name : String)
  | pqKemError
  | pqKemUnavailable
  | pqKemFormatError
  | pqDmError
  | pqDmFormatError
  | downgradeDetected
  | pqRouteError
  | pqRouteFormatError
  | pqRouteOpenError
  | groupRatchetError
  | dmRatchetError
  | anonQueueError
  | anonQueueFormatError
  deriving DecidableEq

namespace ExcClass

/-- `cls.__mro__`, from the class itself up to `Exception`. -/
def mro : ExcClass → List ExcClass
  | exception => [exception]
  | unicodeEncodeError => [unicodeEncodeError, valueError, exception]
  | unicodeDecodeError => [unicodeDecodeError, valueError, exception]
  | jsonDecodeError => [jsonDecodeError, valueError, exception]
  | binasciiError => [binasciiError, valueError, exception]
  | pqKemUnavailable => [pqKemUnavailable, pqKemError, exception]
  | pqKemFormatError => [pqKemFormatError, pqKemError, valueError, exception]
  | pqDmFormatError => [pqDmFormatError, pqDmError, valueError, exception]
  | downgradeDetected => [downgradeDetected, pqDmError, exception]
  | pqRouteFormatError => [pqRouteFormatError, pqRouteError, valueError, exception]
  | pqRouteOpenError => [pqRouteOpenError, pqRouteError, exception]
  | anonQueueFormatError => [anonQueueFormatError, anonQueueError, valueError, exception]
  | c => [c, exception]

end ExcClass

/-- A piece of an exception's message. -/
inductive Part where
  | lit (s : String)
  | nat (n : Nat)
  | str (s : Str)
  /-- `{s!r}` -/
  | repr (s : Str)
  | lib
  deriving DecidableEq

structure Exc where
  cls : ExcClass
  msg : List Part
  deriving DecidableEq

/-- `isinstance(exc, cls)` -/
def Exc.isA (e : Exc) (c : ExcClass) : Bool := c ∈ e.cls.mro

theorem Exc.isA_exception (e : Exc) : e.isA .exception = true := by
  obtain ⟨c, msg⟩ := e
  cases c <;> simp [Exc.isA, ExcClass.mro]

theorem Exc.isA_self (e : Exc) : e.isA e.cls = true := by
  obtain ⟨c, msg⟩ := e
  cases c <;> simp [Exc.isA, ExcClass.mro]

/-- A Python call: a result or an exception. -/
abbrev Py := Except Exc

def raise {α : Type} (cls : ExcClass) (msg : List Part) : Py α := .error ⟨cls, msg⟩

/-- An exception that a library raises with a text of its own. -/
def raiseLib {α : Type} (cls : ExcClass) : Py α := raise cls [.lib]

def ofOption {α : Type} (cls : ExcClass) : Option α → Py α
  | some a => .ok a
  | none => raiseLib cls

/-- `try: x` with `except classes as exc: handler exc`. -/
def tryExcept {α : Type} (classes : List ExcClass) (x : Py α) (handler : Exc → Py α) : Py α :=
  match x with
  | .ok a => .ok a
  | .error e => if classes.any e.isA then handler e else .error e

@[simp] theorem ok_bind {α β : Type} (a : α) (f : α → Py β) : ((.ok a : Py α) >>= f) = f a := rfl

@[simp] theorem error_bind {α β : Type} (e : Exc) (f : α → Py β) : ((.error e : Py α) >>= f) = .error e := rfl

/-- A sequence of two calls returns exactly when both do. -/
theorem bind_eq_ok {α β : Type} {x : Py α} {f : α → Py β} {b : β} :
    x >>= f = .ok b ↔ ∃ a, x = .ok a ∧ f a = .ok b := by
  cases x with
  | ok a => simp
  | error e => simp

/-- A call after a check `if c: raise …` returns exactly when the check passes and the rest returns. -/
theorem guard_eq_ok {α : Type} {c : Prop} [Decidable c] {cls : ExcClass} {msg : List Part} {f : PUnit → Py α}
    {x : Py α} {a : α} : (if c then (raise cls msg : Py PUnit) >>= f else x) = .ok a ↔ ¬c ∧ x = .ok a := by
  by_cases h : c
  · simp [h, raise]
  · simp [h]

theorem ofOption_eq_ok {α : Type} {cls : ExcClass} {o : Option α} {a : α} :
    ofOption cls o = .ok a ↔ o = some a := by
  cases o <;> simp [ofOption, raiseLib, raise]

@[simp] theorem ofOption_some {α : Type} (cls : ExcClass) (a : α) : ofOption cls (some a) = .ok a := rfl

@[simp] theorem tryExcept_ok {α : Type} (classes : List ExcClass) (a : α) (handler : Exc → Py α) :
    tryExcept classes (.ok a) handler = .ok a := rfl

/-- `except Exception` catches everything. -/
@[simp] theorem tryExcept_exception {α : Type} (e : Exc) (handler : Exc → Py α) :
    tryExcept [.exception] (.error e) handler = handler e := by
  simp [tryExcept, Exc.isA_exception]

/-- Where the handler raises again, a call under `try` returns exactly when the bare call does. -/
theorem tryExcept_raise_eq_ok {α : Type} {classes : List ExcClass} {x : Py α} {cls : ExcClass}
    {msg : Exc → List Part} {a : α} :
    (tryExcept classes x fun exc => raise cls (msg exc)) = .ok a ↔ x = .ok a := by
  cases x with
  | ok b => simp
  | error e =>
    simp only [tryExcept]
    split <;> simp [raise]

/-- Where the handler returns a default, what is not the default comes from the call itself. -/
theorem tryExcept_default_eq_ok {α : Type} {x : Py α} {default a : α} (h : default ≠ a) :
    (tryExcept [.exception] x fun _ => .ok default) = .ok a ↔ x = .ok a := by
  cases x <;> simp [h]

theorem exists_tryExcept_default {α : Type} (x : Py α) (default : α) :
    ∃ a, (tryExcept [.exception] x fun _ => .ok default) = .ok a := by
  cases x with
  | ok a => exact ⟨a, rfl⟩
  | error e => exact ⟨default, tryExcept_exception e _⟩

/-! ### Values of any type -/

/-- The Python values that a function checks with `isinstance`. -/
inductive PyVal where
  | none
  | int (n : Int)
  | str (s : Str)
  | bytes (b : Bytes)
  | bytearray (b : Bytes)
  | list (items : List Int)
  deriving DecidableEq

namespace PyVal

/-- `type(value).__name__` -/
def typeName : PyVal → String
  | none => "NoneType"
  | int _ => "int"
  | str _ => "str"
  | bytes _ => "bytes"
  | bytearray _ => "bytearray"
  | list _ => "list"

/-- The contents of a value with `isinstance(value, (bytes, bytearray))`. -/
def data? : PyVal → Option Bytes
  | bytes b => some b
  | bytearray b => some b
  | _ => Option.none

@[simp] theorem data?_bytes (b : Bytes) : (bytes b).data? = some b := rfl

/-- `bytes(value)` -/
def toBytes : PyVal → Py Bytes
  | bytes b | bytearray b => .ok b
  | int n =>
    -- outside the sizes of an object, which has a header of 33 bytes
    if n < -2 ^ 63 ∨ 2 ^ 63 - 34 < n then raiseLib .overflowError
    else if n < 0 then raiseLib .valueError
    else .ok (List.replicate n.toNat 0)
  | list items =>
    if items.all fun n => 0 ≤ n && n < 256 then .ok (items.map fun n => UInt8.ofNat n.toNat)
    else raiseLib .valueError
  | str _ | none => raiseLib .typeError

theorem toBytes_of_data? {v : PyVal} {b : Bytes} (h : v.data? = some b) : v.toBytes = .ok b := by
  cases v with
  | bytes _ | bytearray _ =>
    cases h
    rfl
  | _ => cases h

theorem data?_of_toBytes {v : PyVal} {b : Bytes} (h : v.toBytes = .ok b) (hne : v.data? ≠ Option.none) :
    v.data? = some b := by
  obtain ⟨b', hb'⟩ := Option.ne_none_iff_exists'.mp hne
  have hsame := h.symm.trans (toBytes_of_data? hb')
  rw [hb', Except.ok.inj hsame]

end PyVal

instance : Coe Bytes PyVal := ⟨PyVal.bytes⟩

/-! ### Calls into the standard library -/

/-- `s.encode("utf-8")` -/
def strEncode (s : Str) : Py Bytes := ofOption .unicodeEncodeError (encodeUtf8 s)

/-- `b.decode("utf-8")` -/
def bytesDecode (b : Bytes) : Py Str := ofOption .unicodeDecodeError (decodeUtf8 b)

/-- `bytes.fromhex(value)` on a value that came out of JSON. -/
def bytesFromhex : Json → Py Bytes
  | .str s => ofOption .valueError (fromHex s)
  | _ => raiseLib .typeError

/-- `base64.b64decode(s)` -/
def b64decodeStr (s : Str) : Py Bytes :=
  if s.all isAscii then ofOption .binasciiError (b64decode s) else raiseLib .valueError

/-- `value.encode("utf-8")` on a value that came out of JSON. -/
def jsonEncode : Json → Py Bytes
  | .str s => strEncode s
  | _ => raiseLib .attributeError

/-- `value.get(key, default)` on a value that came out of JSON. -/
def jsonGet (value : Json) (key : Str) (default : Json) : Py Json :=
  match value with
  | .obj members => .ok ((lookup key members).getD default)
  | _ => raiseLib .attributeError

/-- `d[key]` -/
def getItem (key : Str) (d : List (Str × Json)) : Py Json := ofOption .keyError (lookup key d)

/-- A value of type `Optional[str]`. -/
def optional : Option Str → Json
  | none => .null
  | some s => .str s

/-- `bool(value)` -/
def truthy : Json → Bool
  | .null => false
  | .bool b => b
  | .int n => n ≠ 0
  | .float text => text ≠ str "0.0" && text ≠ str "-0.0"
  | .str s => s ≠ []
  | .arr items => !items.isEmpty
  | .obj members => !members.isEmpty

/-- `"".join(sorted(value))`: an array of strings, the characters of a string, or the keys of an
object. With anything else in the array, sorting or joining raises. -/
def sortedJoin : Json → Py Str
  | .arr items =>
    match allSome (items.map fun | .str s => some s | _ => none) with
    | some strs => .ok (sortStrs strs).flatten
    | none => raiseLib .typeError
  | .str s => .ok (sortStrs (s.map fun c => [c])).flatten
  | .obj members => .ok (sortStrs (members.map Prod.fst)).flatten
  | _ => raiseLib .typeError

theorem strEncode_of_scalar {s : Str} (h : Scalar s) : strEncode s = .ok (utf8 s) := by
  rw [strEncode, encodeUtf8_of_scalar h, ofOption_some]

theorem strEncode_eq_ok {s : Str} {b : Bytes} : strEncode s = .ok b ↔ Scalar s ∧ utf8 s = b := by
  rw [strEncode, ofOption_eq_ok, encodeUtf8_eq_some]

theorem jsonEncode_eq_ok {v : Json} {b : Bytes} : jsonEncode v = .ok b ↔ ∃ s, v = .str s ∧ Scalar s ∧ utf8 s = b := by
  cases v <;> simp [jsonEncode, strEncode_eq_ok, raiseLib, raise]

theorem bytesFromhex_eq_ok {v : Json} {b : Bytes} : bytesFromhex v = .ok b ↔ ∃ s, v = .str s ∧ fromHex s = some b := by
  cases v <;> simp [bytesFromhex, ofOption_eq_ok, raiseLib, raise]

theorem getItem_eq_ok {key : Str} {d : List (Str × Json)} {v : Json} : getItem key d = .ok v ↔ lookup key d = some v :=
  ofOption_eq_ok

theorem jsonGet_sortKeys {ms : List (Str × Json)} (hnodup : (ms.map Prod.fst).Nodup) (key : Str) (default : Json) :
    jsonGet (Json.sortKeys (.obj ms)) key default = .ok (((lookup key ms).map Json.sortKeys).getD default) := by
  rw [Json.sortKeys, jsonGet, Json.lookup_sortMembers hnodup]

theorem bytesDecode_eq_ok {b : Bytes} {s : Str} : bytesDecode b = .ok s ↔ Scalar s ∧ utf8 s = b := by
  rw [bytesDecode, ofOption_eq_ok, decodeUtf8_eq_some]

theorem b64decodeStr_b64Text (b : Bytes) : b64decodeStr (b64Text b) = .ok b := by
  have hdecode := b64decode_b64Text b
  have hascii : (b64Text b).all isAscii = true := by
    by_contra hnot
    rw [b64decode, encodeAscii, if_neg hnot] at hdecode
    cases hdecode
  rw [b64decodeStr, if_pos hascii, hdecode, ofOption_some]

end SkPqc
