import Pjproject.Scanner
import Pjproject.Lib.Rounding

/-! The JSON elements of json.c, their writer and their parser. A text is written when the buffer takes all of it, and
parsing fails with a syntax error or with NULL, which are none. -/
namespace Pjproject.Json
open Multipart (Text ascii cur lf digits isDigit)
open Scan
open Lib.Rounding

/- The values of the types PJ_JSON_VAL_NULL to PJ_JSON_VAL_STRING; a float is a rational. -/
inductive Scalar where
  | null
  | bool (isTrue : Bool)
  | number (num : ℚ)
  | string (str : Text)
  deriving DecidableEq

inductive Kind where
  | array
  | obj
  deriving DecidableEq

/- An element without a name has an empty one. -/
inductive Elem where
  | leaf (name : Text) (value : Scalar)
  | list (name : Text) (kind : Kind) (children : List Elem)

def Elem.name : Elem → Text
  | .leaf name _ => name
  | .list name _ _ => name

def elemNull (name : Text) : Elem := .leaf name .null
def elemBool (name : Text) (val : Bool) : Elem := .leaf name (.bool val)
def elemNumber (name : Text) (val : ℚ) : Elem := .leaf name (.number val)
def elemString (name value : Text) : Elem := .leaf name (.string value)
def elemArray (name : Text) : Elem := .list name .array []
def elemObj (name : Text) : Elem := .list name .obj []

/- pj_json_elem_add; only an array or an object takes a child. -/
def elemAdd (el child : Elem) : Elem :=
  match el with
  | .leaf name value => .leaf name value
  | .list name kind children => .list name kind (children ++ [child])

def quote : UInt8 := 34
def comma : UInt8 := 44
def colon : UInt8 := 58
def dot : UInt8 := 46
def minus : UInt8 := 45

def Kind.begin : Kind → UInt8
  | .array => 91
  | .obj => 123

def Kind.end : Kind → UInt8
  | .array => 93
  | .obj => 125

section Write

def maxIndent : Nat := 100
def indentSize : Nat := 3
def nameMinLen : Nat := 20

def hexDigit (n : Nat) : UInt8 := if n < 10 then UInt8.ofNat (48 + n) else UInt8.ofNat (87 + n)

/- One character of write_string_escaped; its buffer only gathers what the writer is called with. A char is signed, so
from 128 on it is below 32. -/
def escapeChar (c : UInt8) : Text :=
  if c = quote then [backslash,quote]
  else if c = backslash then [backslash,backslash]
  else if c = 47 then [backslash,47]
  else if c = 8 then [backslash,98]
  else if c = 12 then [backslash,102]
  else if c = lf then [backslash,110]
  else if c = 13 then [backslash,114]
  else if c = 9 then [backslash,116]
  else if 32 ≤ c ∧ c < 127 then [c]
  else [backslash,117,48,48,hexDigit (c.toNat / 16),hexDigit (c.toNat % 16)]

def escape (s : Text) : Text := s.flatMap escapeChar

/- (int) of a float; beyond the range of an int it is the least one. -/
def toInt (num : ℚ) : ℤ :=
  let whole := if num < 0 then ⌈num⌉ else ⌊num⌋
  if -2 ^ 31 ≤ whole ∧ whole < 2 ^ 31 then whole else -2 ^ 31

/- "%d". -/
def printInt (z : ℤ) : Text := (if z < 0 then [minus] else []) ++ digits z.natAbs

/- "%f". -/
def printFloat (num : ℚ) : Text :=
  let micros := (roundEven (|num| * 1000000)).toNat
  let part := digits (micros % 1000000)
  (if num < 0 then [minus] else []) ++ digits (micros / 1000000) ++ [dot] ++ List.replicate (6 - part.length) 48 ++ part

/- At most 47 characters, which fit in num_buf. -/
def numberText (num : ℚ) : Text := if num = roundFloat (toInt num) then printInt (toInt num) else printFloat num

def scalarText : Scalar → Text
  | .null => ascii "null"
  | .bool true => ascii "true"
  | .bool false => ascii "false"
  | .number num => numberText num
  | .string str => [quote] ++ escape str ++ [quote]

/- Spaces of the buffer for the indentation, beyond which it must not be read. -/
def indentBuf (indent : Nat) : Option Text := if indent ≤ maxIndent then some (List.replicate indent 32) else none

/- The name of an element with its indentation; the children of an array are written with NO_NAME. -/
def nameText (indent : Nat) (noName : Bool) (name : Text) : Option Text :=
  if name = [] then some []
  else (indentBuf indent).map (fun spaces =>
    if noName then spaces
    else spaces ++ [quote] ++ escape name ++ [quote,colon,32] ++ List.replicate (nameMinLen - name.length) 32)

def childIndent (indent : Nat) : Nat := if indent < maxIndent then indent + indentSize else indent

def firstNamed (children : List Elem) : Bool :=
  match children with
  | [] => false
  | child :: _ => child.name ≠ []

mutual

def elemWrite (indent : Nat) (noName : Bool) : Elem → Option Text
  | .leaf name value => (nameText indent noName name).map (· ++ scalarText value)
  | .list name kind children => do
    let before ← nameText indent noName name
    let noName := decide (kind = .array)
    let body ←
      if firstNamed children then do
        let lines ← childrenWrite (childIndent indent) noName (ascii ",\n") (ascii "\n") children
        let spaces ← indentBuf indent
        some ([lf] ++ lines ++ spaces)
      else childrenWrite indent noName (ascii ", ") [] children
    some (before ++ [kind.begin,32] ++ body ++ [kind.end])

/- The loop of write_children, with what comes after a child and after the last one. -/
def childrenWrite (indent : Nat) (noName : Bool) (sep last : Text) : List Elem → Option Text
  | [] => some []
  | child :: children => do
    let text ← elemWrite indent noName child
    let rest ← childrenWrite indent noName sep last children
    some (text ++ (if children.isEmpty then last else sep) ++ rest)

end

/- pj_json_write into a buffer of a size. Each piece is compared with what is left of it, so all of them together. -/
def jsonWrite (size : Nat) (elem : Elem) : Option Text := do
  let text ← elemWrite 0 false elem
  if size ≤ text.length + 1 then none else some text

end Write

section Parse

def isFloat (c : UInt8) : Bool := c = dot || isDigit c

def isAlpha (c : UInt8) : Bool := (65 ≤ c && c ≤ 90) || (97 ≤ c && c ≤ 122)

/- pj_hex_digit_to_val. -/
def hexDigitToVal (c : UInt8) : UInt8 :=
  if c ≤ 57 then (c - 48) &&& 15 else if c ≤ 70 then (c - 65 + 10) &&& 15 else (c - 97 + 10) &&& 15

/- The unescaped characters of a string; of a \u only the last two digits are used. -/
def unescape : Text → Option Text
  | [] => some []
  | c :: s =>
    if c = backslash then
      match s with
      | 117 :: _ :: _ :: high :: low :: s => (unescape s).map ((hexDigitToVal high * 16 + hexDigitToVal low) :: ·)
      | 34 :: s => (unescape s).map (34 :: ·)
      | 92 :: s => (unescape s).map (92 :: ·)
      | 47 :: s => (unescape s).map (47 :: ·)
      | 98 :: s => (unescape s).map (8 :: ·)
      | 102 :: s => (unescape s).map (12 :: ·)
      | 110 :: s => (unescape s).map (10 :: ·)
      | 114 :: s => (unescape s).map (13 :: ·)
      | 116 :: s => (unescape s).map (9 :: ·)
      | _ => none
    else (unescape s).map (c :: ·)

def parseQuotedString (s : Text) : Option (Text × Text) := do
  let (token, s) ← getQuotes [quote] s
  let token := unquote token
  let output ← if token.contains backslash then unescape token else some token
  some (output, s)

/- pj_strtoul, in 64 bits; a token has no sign. -/
def strtoul (s : Text) : Nat := (s.takeWhile isDigit).foldl (fun value c => (value * 10 + (c.toNat - 48)) % 2 ^ 64) 0

def strtol (s : Text) : ℤ := if strtoul s < 2 ^ 63 then strtoul s else (strtoul s : ℤ) - 2 ^ 64

def fdiv : Nat → ℚ
  | 0 => 1
  | n + 1 => roundFloat (fdiv n * 10)

/- Beyond the range of a float the divisor is infinite. -/
def quotient (fpart divisor : ℚ) : ℚ := if 2 ^ 128 ≤ divisor then 0 else roundFloat (fpart / divisor)

def strtof (s : Text) : ℚ :=
  let whole := s.takeWhile (· ≠ dot)
  let val := if whole = [] then 0 else roundFloat (strtol whole)
  let part := (s.dropWhile (· ≠ dot)).tail
  if part = [] then val
  else
    let fpart := quotient (roundFloat (strtoul part)) (fdiv (part.takeWhile isDigit).length)
    roundFloat (if 0 ≤ val then val + fpart else val - fpart)

def parseNumber (s : Text) : Option (ℚ × Text) := do
  let (neg, s) ← if cur s = minus then (getChar s).map (fun (_, s) => (true, s)) else some (false, s)
  let (token, s) ← get isFloat s
  some (if neg then -strtof token else strtof token, s)

def parseWord (s : Text) : Option (Scalar × Text) := do
  if ← strcmp s (ascii "false") then (advance 5 true s).map (fun s => (.bool false, s))
  else if ← strcmp s (ascii "true") then (advance 4 true s).map (fun s => (.bool true, s))
  else if ← strcmp s (ascii "null") then (advance 4 true s).map (fun s => (.null, s))
  else none

/- The name, or a string without a name, as they stand between their quotes. -/
def parseName (s : Text) : Option (Text × Text × Text) :=
  if cur s = quote then do
    let (_, s) ← getChar s
    let (token, s) ← getUntil [quote] s
    let (_, s) ← getChar s
    if cur s = colon then
      let (_, s) ← getChar s
      some (token, [], s)
    else some ([], token, s)
  else some ([], [], s)

def skipCommas : Nat → Text → Text
  | 0, s => s
  | n + 1, s => if cur s = comma then skipCommas n (autoSkip s.tail) else s

mutual

/- parse_elem_throw. -/
def parseElem : Nat → Text → Option (Elem × Text)
  | 0, _ => none
  | fuel + 1, s => do
    let (name, value, s) ← parseName s
    if value ≠ [] then some (.leaf name (.string value), s)
    else if isFloat (cur s) ∨ cur s = minus then (parseNumber s).map (fun (num, s) => (.leaf name (.number num), s))
    else if cur s = quote then (parseQuotedString s).map (fun (str, s) => (.leaf name (.string str), s))
    else if isAlpha (cur s) then (parseWord s).map (fun (value, s) => (.leaf name value, s))
    else if cur s = Kind.begin .array then
      let (_, s) ← getChar s
      (parseChildren fuel (Kind.end .array) s).map (fun (children, s) => (.list name .array children, s))
    else if cur s = Kind.begin .obj then
      let (_, s) ← getChar s
      (parseChildren fuel (Kind.end .obj) s).map (fun (children, s) => (.list name .obj children, s))
    else none

/- The loop of parse_children, and the end quote. -/
def parseChildren : Nat → UInt8 → Text → Option (List Elem × Text)
  | 0, _, _ => none
  | fuel + 1, endQuote, s =>
    let s := if cur s = endQuote then s else skipCommas s.length s
    if cur s = endQuote then (getChar s).map (fun (_, s) => ([], s))
    else do
      let (child, s) ← parseElem fuel s
      let (children, s) ← parseChildren fuel endQuote s
      some (child :: children, s)

end

/- pj_json_parse with what it leaves of the text. -/
def jsonParse (fuel : Nat) (text : Text) : Option (Elem × Text) :=
  if text = [] then none else parseElem fuel (skipWhitespace text)

end Parse

end Pjproject.Json
