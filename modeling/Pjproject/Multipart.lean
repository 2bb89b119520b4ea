import Mathlib

/-! Multipart bodies of sip_multipart.c: printing, and parsing with the header parser of sip_parser.c and its scanner.
Buffers are shorter than 2^31 bytes, as the functions return an int. Of the headers of a parsed part only Content-Type
is kept, and the type of a part to be printed has no parameters. -/
namespace Pjproject.Multipart

abbrev Text := List UInt8

def ascii (s : String) : Text := s.toList.map (fun c => UInt8.ofNat c.toNat)

def cr : UInt8 := 13
def lf : UInt8 := 10
def dash : UInt8 := 45
def crlf : Text := [cr,lf]

def isSpace (c : UInt8) : Bool := c = 32 || c = 9
def isNewline (c : UInt8) : Bool := c = cr || c = lf

/- pj_isspace. -/
def isWhite (c : UInt8) : Bool := c = 32 || (9 ≤ c && c ≤ 13)

/- pjsip_TOKEN_SPEC, pjsip_DIGIT_SPEC and pjsip_NOT_NEWLINE; none of them matches zero. -/
def isDigit (c : UInt8) : Bool := 48 ≤ c && c ≤ 57

def isToken (c : UInt8) : Bool :=
  isDigit c || (65 ≤ c && c ≤ 90) || (97 ≤ c && c ≤ 122) || (ascii "-.!%*_`'~+").contains c

def notNewline (c : UInt8) : Bool := c ≠ 0 && !isNewline c

def lower (c : UInt8) : UInt8 := if 65 ≤ c && c ≤ 90 then c + 32 else c

structure MediaType where
  type : Text
  subtype : Text
  deriving DecidableEq

/- A header; ctype tells that its type is PJSIP_H_CONTENT_TYPE. -/
structure Hdr where
  ctype : Bool := false
  name : Text
  value : Text

structure Part where
  hdrs : List Hdr := []
  media : MediaType
  body : Text

/- A multipart body, and the content type that pjsip_multipart_create gives it. -/
structure Body where
  subtype : Text := ascii "mixed"
  boundary : Text
  parts : List Part

structure Ctype where
  subtype : Text
  boundary : Option Text

def Body.ctype (m : Body) : Ctype := ⟨m.subtype,some m.boundary⟩

section Print

/- pjsip_hdr_print_on. -/
def Hdr.text (h : Hdr) : Text := h.name ++ ascii ": " ++ h.value

def MediaType.text (media : MediaType) : Text := media.type ++ ascii "/" ++ media.subtype

def digits (n : Nat) : Text := (Nat.toDigits 10 n).map (fun c => UInt8.ofNat c.toNat)

/- The first five digits of a length, in a field of five. -/
def clenField (n : Nat) : Text :=
  let tmp := (digits n).take 5
  List.replicate (5 - tmp.length) 32 ++ tmp

def ctypeHdr (compact : Bool) : Text := if compact then ascii "c: " else ascii "Content-Type: "

/- The headers that are left to be printed, where left is the space in the buffer. -/
def printHdrs (left : Nat) : List Hdr → Option Text
  | [] => some []
  | h :: hdrs =>
    if left < h.name.length + h.value.length + 7 then none
    else (printHdrs (left - (h.text ++ crlf).length) hdrs).map (h.text ++ crlf ++ ·)

/- Content-Type and Content-Length, unless there is a Content-Type or the type is empty. -/
def Part.addsCtype (part : Part) : Bool := part.media.type ≠ [] && !part.hdrs.any Hdr.ctype

def Part.autoText (compact : Bool) (part : Part) : Text :=
  ctypeHdr compact ++ part.media.text ++ crlf ++ ascii "Content-Length: " ++ clenField part.body.length ++ crlf

def Part.printAuto (compact : Bool) (left : Nat) (part : Part) : Option Text :=
  if part.addsCtype then
    if left < 24 + part.media.type.length + part.media.subtype.length then none
    else if left - (ctypeHdr compact ++ part.media.text ++ crlf).length < 30 then none
    else some (part.autoText compact)
  else some []

def Part.print (boundary : Text) (compact : Bool) (left : Nat) (part : Part) : Option Text := do
  if left ≤ 2 * (boundary.length + 8) then none
  let delimiter := crlf ++ ascii "--" ++ boundary ++ crlf
  let hdrs ← printHdrs (left - delimiter.length) part.hdrs
  let auto ← part.printAuto compact (left - (delimiter ++ hdrs).length)
  let head := delimiter ++ hdrs ++ auto ++ crlf
  if left - head.length < part.body.length then none
  return head ++ part.body

def printParts (boundary : Text) (compact : Bool) (left : Nat) : List Part → Option Text
  | [] => if left < boundary.length + 8 then none else some (crlf ++ ascii "--" ++ boundary ++ ascii "--" ++ crlf)
  | part :: parts => do
    let text ← part.print boundary compact left
    return text ++ (← printParts boundary compact (left - text.length) parts)

/- multipart_print_body; it fails with -1, or PJ_EINVAL when there is no part. -/
def Body.print (m : Body) (compact : Bool) (size : Nat) : Option Text :=
  if m.parts.isEmpty then none else printParts m.boundary compact size m.parts

end Print

section Scanner

def cur (s : Text) : UInt8 := s.headD 0

/- The scanner stands before the rest of the buffer; so many bytes of it are beyond its end. -/
def isEof (beyond : Nat) (s : Text) : Bool := s.length ≤ beyond

def eat (c : UInt8) (s : Text) : Text := if s.head? = some c then s.tail else s

def eatNewline (s : Text) : Text := eat lf (eat cr s)

/- pj_scan_skip_whitespace with PJ_SCAN_AUTOSKIP_WS_HEADER. -/
def skipWhitespace (s : Text) : Text :=
  let s := s.dropWhile isSpace
  if isNewline (cur s) then
    let next := eatNewline s
    if isSpace (cur next) then next.dropWhile isSpace else s
  else s

/- A syntax error throws, and leaves the scanner where it is. -/
def scanGet (spec : UInt8 → Bool) (s : Text) : Except Text (Text × Text) :=
  if spec (cur s) then .ok (s.takeWhile spec, skipWhitespace (s.dropWhile spec)) else .error s

def scanGetChar (s : Text) : Except Text (UInt8 × Text) :=
  if cur s = 0 then .error s else .ok (cur s, skipWhitespace s.tail)

def scanGetNewline (s : Text) : Except Text Text := if isNewline (cur s) then .ok (eatNewline s) else .error s

def strchrLf : Text → Option Text
  | [] => none
  | c :: s => if c = lf then some s else if c = 0 then none else strchrLf s

def skipLine (beyond : Nat) (s : Text) : Text := (strchrLf s).getD (s.drop (s.length - beyond))

/- The lines after a syntax error, with the continuation of the header. -/
def skipLines (beyond : Nat) : Nat → Text → Text
  | 0, s => s
  | n + 1, s =>
    let s := skipLine beyond s
    if isSpace (cur s) then skipLines beyond n s else s

end Scanner

section Headers

abbrev Param := Text × Text

structure CtypeHdr where
  media : MediaType
  params : List Param

/- A header handler: it gets the bytes beyond the end, and returns the header when it is a Content-Type. -/
abbrev Handler := Nat → Text → Except Text (Option CtypeHdr × Text)

/- int_parse_param, and the handlers of other headers. -/
structure Parsers where
  param : Text → Except Text (Param × Text)
  other : Text → Option Handler

def parseHdrEnd (beyond : Nat) (s : Text) : Except Text Text :=
  if isEof beyond s then .ok s
  else if cur s = 38 then (scanGetChar s).map Prod.snd
  else scanGetNewline s

/- parse_hdr_generic_string; every round reads two fractions at least. -/
def genericString (beyond : Nat) : Nat → Text → Except Text Text
  | 0, s => parseHdrEnd beyond s
  | n + 1, s =>
    if notNewline (cur s) then do
      let (_, s) ← scanGet notNewline s
      if isEof beyond s || isNewline (cur s) then parseHdrEnd beyond s
      else
        let (_, s) ← scanGet notNewline s
        genericString beyond n s
    else parseHdrEnd beyond s

def mediaParams (parsers : Parsers) : Nat → Text → Except Text (List Param × Text)
  | 0, s => .ok ([], s)
  | n + 1, s =>
    if cur s = 59 then do
      let (param, s) ← parsers.param s
      let (params, s) ← mediaParams parsers n s
      return (param :: params, s)
    else .ok ([], s)

/- parse_hdr_content_type and parse_hdr_content_len. -/
def contentType (parsers : Parsers) : Handler := fun beyond s => do
  let (type, s) ← scanGet isToken s
  let (_, s) ← scanGetChar s
  let (subtype, s) ← scanGet isToken s
  let (params, s) ← mediaParams parsers s.length s
  let s ← parseHdrEnd beyond s
  return (some ⟨⟨type,subtype⟩,params⟩, s)

def contentLen : Handler := fun beyond s => do
  let (_, s) ← scanGet isDigit s
  let s ← parseHdrEnd beyond s
  return (none, s)

def Parsers.findHandler (parsers : Parsers) (hname : Text) : Option Handler :=
  let name := hname.map lower
  if 64 ≤ hname.length then none
  else if name = ascii "content-type" ∨ name = ascii "c" then some (contentType parsers)
  else if name = ascii "content-length" ∨ name = ascii "l" then some contentLen
  else parsers.other hname

def parseHeader (parsers : Parsers) : Handler := fun beyond s => do
  let (hname, s) ← scanGet isToken s
  let (c, s) ← scanGetChar s
  if c ≠ 58 then throw s
  match parsers.findHandler hname with
  | some func => func beyond s
  | none => return (none, ← genericString beyond (s.length + 1) s)

/- One header, with the recovery from a syntax error. -/
def nextHeader (parsers : Parsers) (beyond : Nat) (s : Text) : Option CtypeHdr × Text :=
  match parseHeader parsers beyond s with
  | .ok (hdr, s) => (hdr, s)
  | .error s => (none, if isEof beyond s then s else skipLines beyond (s.length + 1) s)

def headers (parsers : Parsers) (beyond : Nat) : Nat → Text → List CtypeHdr
  | 0, _ => []
  | n + 1, s =>
    let (hdr, s) := nextHeader parsers beyond s
    hdr.toList ++ if isEof beyond s || isNewline (cur s) then [] else headers parsers beyond n s

/- pjsip_parse_headers; every round reads the name of a header or skips a line. -/
def parseHeaders (parsers : Parsers) (beyond : Nat) (s : Text) : List CtypeHdr :=
  headers parsers beyond (s.length + 1) (skipWhitespace s)

end Headers

section Parse

structure ParsedPart where
  media : MediaType
  params : List Param := []
  body : Text
  deriving DecidableEq

/- The loop of parse_multipart_part that looks for an empty line, with what it has passed, last first. It returns the
header section and the body. -/
def emptyLine (passed : Text) : Text → Option Text × Text
  | [] => (none, [])
  | c :: rest =>
    if c ≠ lf then emptyLine (c :: passed) rest
    else if passed = [] ∨ passed = [cr] then (some [], rest)
    else if rest = [] then (some (c :: passed).reverse, [])
    else if passed.head? = some lf then (some passed.reverse, rest)
    else if passed.head? = some cr ∧ passed.tail.head? = some lf then (some passed.tail.reverse, rest)
    else emptyLine (c :: passed) rest

def defaultType (ctype : Ctype) : MediaType :=
  if ctype.subtype.map lower = ascii "digest" then ⟨ascii "message",ascii "rfc822"⟩ else ⟨ascii "text",ascii "plain"⟩

/- parse_multipart_part, where the part is followed by other bytes of the buffer. -/
def parsePart (parsers : Parsers) (ctype : Ctype) (part after : Text) : ParsedPart :=
  let (hdr, body) := emptyLine [] part
  let headerText := hdr.getD []
  let found :=
    if headerText = [] then none
    else (parseHeaders parsers (part.length + after.length - headerText.length) (part ++ after)).getLast?
  match found with
  | some hdr => ⟨hdr.media,hdr.params,body⟩
  | none => ⟨defaultType ctype,[],body⟩

/- strncmp with the length of the second string is zero. -/
def sameChars : Text → Text → Bool
  | _, [] => true
  | [], d :: _ => d = 0
  | c :: s, d :: substr => c = d && (c = 0 || sameChars s substr)

/- pj_strstr, which returns the string from the match on. -/
def strstr (s substr : Text) : Option Text :=
  if s.length < substr.length then none
  else if sameChars s substr then some s
  else
    match s with
    | [] => none
    | _ :: s => strstr s substr

def trimNewline (s : Text) : Text :=
  let s := if s.getLast? = some lf then s.dropLast else s
  if s.getLast? = some cr then s.dropLast else s

/- The loop of pjsip_multipart_parse after a delimiter; every round has one of its own. -/
def parseParts (parsers : Parsers) (ctype : Ctype) (delim : Text) : Nat → Text → Option (List ParsedPart)
  | 0, _ => none
  | n + 1, s =>
    if (ascii "--").isPrefixOf s then some []
    else
      let s := eat cr (s.dropWhile isSpace)
      if cur s ≠ lf then none
      else
        let start := s.tail
        match strstr start delim with
        | none => none
        | some next =>
          let part := trimNewline (start.take (start.length - next.length))
          (parseParts parsers ctype delim n (next.drop delim.length)).map
            (parsePart parsers ctype part (start.drop part.length) :: ·)

/- The boundary of the content type without its quotes, or the one of the first line that starts with two dashes. -/
def Ctype.boundaryOf (ctype : Ctype) : Text :=
  let boundary := ctype.boundary.getD []
  if 2 < boundary.length ∧ boundary.head? = some 34 then boundary.tail.dropLast else boundary

def findBoundary (prev : Option UInt8) : Text → Text
  | [] => []
  | c :: s =>
    if c = dash ∧ s.head? = some dash ∧ (prev = none ∨ prev = some lf) then s.tail.takeWhile (fun c => !isWhite c)
    else findBoundary (some c) s

/- There is no boundary when the two dashes are the end of the buffer; else it may be empty. -/
def dashesEnd (prev : Option UInt8) : Text → Bool
  | [] => true
  | c :: s =>
    if c = dash ∧ s.head? = some dash ∧ (prev = none ∨ prev = some lf) then s.tail.isEmpty else dashesEnd (some c) s

/- pjsip_multipart_parse. -/
def parse (parsers : Parsers) (buf : Text) (ctype : Ctype) : Option (List ParsedPart) :=
  if buf = [] then none
  else if ctype.boundaryOf = [] ∧ dashesEnd none buf then none
  else
    let boundary := if ctype.boundaryOf = [] then findBoundary none buf else ctype.boundaryOf
    let delim := ascii "--" ++ boundary
    (strstr buf delim).bind (fun first => parseParts parsers ctype delim (buf.length + 1) (first.drop delim.length))

end Parse

end Pjproject.Multipart
