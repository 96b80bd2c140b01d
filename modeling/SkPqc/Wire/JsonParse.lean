import SkPqc.Wire.Json

/-!
# `json.loads`

The parser of CPython's `json` module on a `str` and, after `detect_encoding`, on `bytes`. Numbers
with a fraction or an exponent, `NaN` and the infinities are floats; `floatText` gives the text that
`json.dumps` prints for the float a literal reads as, so nothing here computes with floats. The
parser runs on fuel; every second call consumes a character, so twice the length is enough.

Members of one key are kept as a `dict` keeps them (`dictOf`): the last value, at the first position.
-/

namespace Wire
namespace Json

/-! ### Strings -/

/-- The value of four hexadecimal digits. -/
def hex4 (a b c d : CodePoint) : Option Nat :=
  match hexVal a, hexVal b, hexVal c, hexVal d with
  | some w, some x, some y, some z => some (w * 4096 + x * 256 + y * 16 + z)
  | _, _, _, _ => none

/-- The character a one-letter escape stands for. -/
def unescape (c : CodePoint) : Option CodePoint :=
  if c = quote then some quote
  else if c = backslash then some backslash
  else if c = codePoint 0x2F then some (codePoint 0x2F)
  else if c = chr 'b' then some (codePoint 0x08)
  else if c = chr 'f' then some (codePoint 0x0C)
  else if c = chr 'n' then some (codePoint 0x0A)
  else if c = chr 'r' then some (codePoint 0x0D)
  else if c = chr 't' then some (codePoint 0x09)
  else none

/-- Put a character in front of a scanned string. -/
def push (c : CodePoint) : Option (Str × Str) → Option (Str × Str) :=
  Option.map fun p => (c :: p.1, p.2)

/-- `scanstring` after the opening quote: the string and what follows its closing quote. -/
def scanString : Str → Option (Str × Str)
  | [] => none
  | c :: rest =>
    if c = quote then some ([], rest)
    else if c.val < 0x20 then none
    else if c = backslash then
      match rest with
      | [] => none
      | e :: rest =>
        if e = chr 'u' then
          match rest with
          | h₁ :: h₂ :: h₃ :: h₄ :: rest =>
            match hex4 h₁ h₂ h₃ h₄ with
            | none => none
            | some n =>
              if isHighSurrogate n then
                match rest with
                | b :: u :: l₁ :: l₂ :: l₃ :: l₄ :: rest' =>
                  if b = backslash ∧ u = chr 'u' then
                    match hex4 l₁ l₂ l₃ l₄ with
                    | none => none
                    | some m =>
                      if isLowSurrogate m then push (joinSurrogates n m) (scanString rest')
                      else push (codePoint n) (scanString (b :: u :: l₁ :: l₂ :: l₃ :: l₄ :: rest'))
                  else push (codePoint n) (scanString (b :: u :: l₁ :: l₂ :: l₃ :: l₄ :: rest'))
                | rest => push (codePoint n) (scanString rest)
              else push (codePoint n) (scanString rest)
          | _ => none
        else
          match unescape e with
          | none => none
          | some c => push c (scanString rest)
    else push c (scanString rest)

/-! ### Numbers -/

def isDigit (c : CodePoint) : Bool := 0x30 ≤ c.val && c.val ≤ 0x39

/-- The digits at the front and what follows them. -/
def spanDigits (s : Str) : Str × Str := (s.takeWhile isDigit, s.dropWhile isDigit)

def natOfDigits (ds : Str) : Nat := ds.foldl (fun acc d => acc * 10 + (d.val - 0x30)) 0

/-- `(0|[1-9][0-9]*)` -/
def scanIntPart : Str → Option (Str × Str)
  | [] => none
  | d :: rest =>
    if d = codePoint 0x30 then some ([d], rest)
    else if isDigit d then some (spanDigits (d :: rest))
    else none

/-- `(\.[0-9]+)?` -/
def scanFrac : Str → Str × Str
  | p :: d :: rest =>
    if p = chr '.' ∧ isDigit d then
      let ds := spanDigits (d :: rest)
      (p :: ds.1, ds.2)
    else ([], p :: d :: rest)
  | s => ([], s)

/-- `([eE][-+]?[0-9]+)?` -/
def scanExp : Str → Str × Str
  | [] => ([], [])
  | e :: rest =>
    if e = chr 'e' ∨ e = chr 'E' then
      let signed := match rest with
        | s :: after => if s = chr '+' ∨ s = minus then ([s], after) else ([], rest)
        | [] => ([], [])
      let ds := spanDigits signed.2
      if ds.1 = [] then ([], e :: rest) else (e :: (signed.1 ++ ds.1), ds.2)
    else ([], e :: rest)

section Parser
variable (floatText : Str → Str)

/-- A number from its first character on. -/
def parseNumber (s : Str) : Option (Json × Str) :=
  let signed := match s with
    | c :: rest => if c = minus then ([c], rest) else ([], s)
    | [] => ([], [])
  match scanIntPart signed.2 with
  | none => none
  | some (ds, rest) =>
    let frac := scanFrac rest
    let exp := scanExp frac.2
    if frac.1 = [] ∧ exp.1 = [] then
      some (int (if signed.1 = [] then natOfDigits ds else -natOfDigits ds), rest)
    else some (float (floatText (signed.1 ++ ds ++ frac.1 ++ exp.1)), exp.2)

/-! ### Values -/

def isWs (c : CodePoint) : Bool := c.val = 0x20 || c.val = 0x09 || c.val = 0x0A || c.val = 0x0D

def skipWs (s : Str) : Str := s.dropWhile isWs

/-- `d[key] = value` -/
def dictSet (ms : List (Str × Json)) (key : Str) (value : Json) : List (Str × Json) :=
  if ms.any (fun m => m.1 = key) then ms.map fun m => if m.1 = key then (key, value) else m
  else ms ++ [(key, value)]

/-- The `dict` that a sequence of members builds: the last value of a key, at its first position. -/
def dictOf (ms : List (Str × Json)) : List (Str × Json) := ms.foldl (fun d m => dictSet d m.1 m.2) []

/-- The words that `json` reads as constants, `NaN` and the infinities among them. -/
def constants : List (Str × Json) :=
  [(Wire.str "null", null), (Wire.str "true", bool true), (Wire.str "false", bool false),
    (Wire.str "NaN", float (Wire.str "NaN")), (Wire.str "Infinity", float (Wire.str "Infinity")),
    (Wire.str "-Infinity", float (Wire.str "-Infinity"))]

/-- The constant at the front, if there is one. -/
def parseConstant (s : Str) : Option (Json × Str) :=
  (constants.find? fun c => c.1.isPrefixOf s).map fun c => (c.2, s.drop c.1.length)

mutual
/-- `scan_once`: the value at the front and what follows it. -/
def parseValue : (fuel : Nat) → Str → Option (Json × Str)
  | 0, _ => none
  | _ + 1, [] => none
  | fuel + 1, c :: rest =>
    if c = quote then (scanString rest).map fun p => (str p.1, p.2)
    else if c = lbrace then
      match skipWs rest with
      | [] => none
      | d :: after =>
        if d = rbrace then some (obj [], after)
        else (parseMembers fuel (d :: after)).map fun p => (obj (dictOf p.1), p.2)
    else if c = lbracket then
      match skipWs rest with
      | [] => none
      | d :: after =>
        if d = rbracket then some (arr [], after)
        else (parseItems fuel (d :: after)).map fun p => (arr p.1, p.2)
    else (parseConstant (c :: rest)).or (parseNumber floatText (c :: rest))
/-- The items of an array up to its closing bracket, from the first item on. -/
def parseItems : (fuel : Nat) → Str → Option (List Json × Str)
  | 0, _ => none
  | fuel + 1, s =>
    match parseValue fuel s with
    | none => none
    | some (v, rest) =>
      match skipWs rest with
      | [] => none
      | d :: after =>
        if d = rbracket then some ([v], after)
        else if d = comma then (parseItems fuel (skipWs after)).map fun p => (v :: p.1, p.2)
        else none
/-- The members of an object up to its closing brace, from the first key on. -/
def parseMembers : (fuel : Nat) → Str → Option (List (Str × Json) × Str)
  | 0, _ => none
  | _ + 1, [] => none
  | fuel + 1, q :: s =>
    if q = quote then
      match scanString s with
      | none => none
      | some (k, rest) =>
        match skipWs rest with
        | [] => none
        | d :: after =>
          if d = colon then
            match parseValue fuel (skipWs after) with
            | none => none
            | some (v, rest) =>
              match skipWs rest with
              | [] => none
              | d :: after =>
                if d = rbrace then some ([(k, v)], after)
                else if d = comma then
                  (parseMembers fuel (skipWs after)).map fun p => ((k, v) :: p.1, p.2)
                else none
          else none
    else none
end

/-- `JSONDecoder.decode(s)`, where `none` is `JSONDecodeError`. -/
def decode (s : Str) : Option Json :=
  match parseValue floatText (2 * s.length + 2) (skipWs s) with
  | none => none
  | some (v, rest) => if skipWs rest = [] then some v else none

/-- `json.loads(s)` on a `str`. -/
def loads (s : Str) : Option Json :=
  if s.head? = some (codePoint 0xFEFF) then none else decode floatText s

/-- `b.decode(detect_encoding(b), "surrogatepass")` -/
def decodeDetected (b : Bytes) : Option Str :=
  if [0x00, 0x00, 0xFE, 0xFF].isPrefixOf b then decodeUtf32 true (b.drop 4)
  else if [0xFF, 0xFE, 0x00, 0x00].isPrefixOf b then decodeUtf32 false (b.drop 4)
  else if [0xFE, 0xFF].isPrefixOf b then decodeUtf16 true (b.drop 2)
  else if [0xFF, 0xFE].isPrefixOf b then decodeUtf16 false (b.drop 2)
  else if [0xEF, 0xBB, 0xBF].isPrefixOf b then decodeUtf8Surrogatepass (b.drop 3)
  else
    match b with
    | b₀ :: b₁ :: b₂ :: b₃ :: _ =>
      if b₀ = 0 then (if b₁ = 0 then decodeUtf32 true b else decodeUtf16 true b)
      else if b₁ = 0 then (if b₂ = 0 ∧ b₃ = 0 then decodeUtf32 false b else decodeUtf16 false b)
      else decodeUtf8Surrogatepass b
    | [b₀, b₁] =>
      if b₀ = 0 then decodeUtf16 true b
      else if b₁ = 0 then decodeUtf16 false b
      else decodeUtf8Surrogatepass b
    | _ => decodeUtf8Surrogatepass b

/-- `json.loads(b)` on `bytes`. -/
def loadsBytes (b : Bytes) : Option Json := (decodeDetected b).bind (decode floatText)

end Parser

end Json
end Wire
