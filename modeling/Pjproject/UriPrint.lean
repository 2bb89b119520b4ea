import Pjproject.SipUri
import Pjproject.Lib.BoundedPrint

/-! Printing a SIP URI into a buffer, as in sip_uri.c and print_util.h. All that is written is kept, with its offset from the
start of the buffer; endbuf is an offset as well. The assertion that a host is there is left out. -/
namespace Pjproject.Uri
open Lib.BoundedPrint

def ascii (s : String) : List UInt8 := s.toList.map fun c => UInt8.ofNat c.toNat

section Specs

def alnum (x : UInt8) : Bool := (0x30 ≤ x && x ≤ 0x39) || (0x41 ≤ x && x ≤ 0x5A) || (0x61 ≤ x && x ≤ 0x7A)

def unreservedEscaped : List UInt8 := ascii "-_.!~*'()" ++ ascii "%"

def userSpec (x : UInt8) : Bool := alnum x || (unreservedEscaped ++ ascii "&=+$,;?/").contains x

def userSpecLenient (x : UInt8) : Bool := userSpec x || (ascii "#").contains x

def passwdSpec (x : UInt8) : Bool := alnum x || (unreservedEscaped ++ ascii "&=+$,").contains x

def paramCharSpec (x : UInt8) : Bool := alnum x || (ascii "[]/:&+$" ++ unreservedEscaped).contains x

def hdrCharSpec (x : UInt8) : Bool := alnum x || (ascii "[]/?:+$" ++ unreservedEscaped).contains x

end Specs

structure EndptCfg where
  allowTxHashInUri : Bool
  allowPortInFromtoHdr : Bool

def hexDigits : List UInt8 := ascii "0123456789abcdef"

/- pj_val_to_hex_digit behind a percent sign. -/
def escapeOf (x : UInt8) : List UInt8 := [0x25,hexDigits.getD (x.toNat / 16) 0,hexDigits.getD (x.toNat % 16) 0]

/- The loop of pj_strncpy2_escape: what is left of the source. -/
def escapeLoop (unres : UInt8 → Bool) (dstEnd : Int) : List UInt8 → Cursor → List UInt8 × Cursor
  | [], dst => ([], dst)
  | x :: src, dst =>
    if dst.place = dstEnd then (x :: src, dst)
    else if unres x then escapeLoop unres dstEnd src (dst.put [x])
    else if dst.place < dstEnd - 2 then escapeLoop unres dstEnd src (dst.put (escapeOf x))
    else (x :: src, dst)

def strncpy2Escape (dst : Cursor) (src : List UInt8) (max : Int) (unres : UInt8 → Bool) : Int × Cursor :=
  if max < src.length then (-1, dst)
  else
    match escapeLoop unres (dst.place + max) src dst with
    | ([], last) => (last.place - dst.place, last)
    | (_ :: _, last) => (-1, last)

section Macros
variable (endbuf : Int)

def copyAdvanceCheck (str : List UInt8) : Step := fun c =>
  if endbuf - c.place ≤ str.length then .error c else .ok (c.put str)

def copyAdvanceCharCheck (chr : UInt8) : Step := fun c => if endbuf - c.place ≤ 1 then .error c else .ok (c.put [chr])

def copyAdvancePairCheck (str1 str2 : List UInt8) : Step := fun c =>
  if str2 ≠ [] then
    let printed := toInt (str1.length + toInt str2.length)
    if endbuf - c.place ≤ printed then .error c else .ok { c.put (str1 ++ str2) with place := c.place + printed }
  else .ok c

def copyAdvancePairQuote (str1 str2 : List UInt8) (quotebegin quoteend : UInt8) : Step := fun c =>
  let printed := toInt (str1.length + toInt str2.length + 2)
  if endbuf - c.place ≤ printed then .error c
  else
    let copied := c.put (str1 ++ quotebegin :: str2)
    .ok ⟨c.place + printed,copied.writes ++ [(c.place + printed - 1, quoteend)]⟩

def copyAdvancePairQuoteCond (str1 str2 : List UInt8) (quotebegin quoteend : UInt8) : Step :=
  if str2 ≠ [] ∧ str2.head? ≠ some quotebegin then copyAdvancePairQuote endbuf str1 str2 quotebegin quoteend
  else copyAdvancePairCheck endbuf str1 str2

def copyAdvanceEscape (str : List UInt8) (unres : UInt8 → Bool) : Step := fun c =>
  let (result, dst) := strncpy2Escape c str (endbuf - c.place) unres
  let printed := toInt result
  if printed < 0 then .error dst else .ok { dst with place := c.place + printed }

def copyAdvancePairEscape (str1 str2 : List UInt8) (unres : UInt8 → Bool) : Step := fun c =>
  if str2 ≠ [] then
    if endbuf - c.place ≤ str1.length + str2.length then .error c
    else
      let (result, dst) := strncpy2Escape (c.put str1) str2 (endbuf - c.place - str1.length) unres
      let printed := toInt result
      if printed < 0 then .error dst else .ok { dst with place := c.place + toInt (printed + str1.length) }
  else .ok c

/- pj_utoa of a number that was converted to unsigned long, without the terminator. -/
def utoa (val : Int) : List UInt8 := (Nat.toDigits 10 (val % 2 ^ 64).toNat).map fun c => UInt8.ofNat c.toNat

/- pj_utoa behind some text, where so much room is left: the port and the ttl. -/
def printNumber (room : Nat) (str : List UInt8) (val : Int) : Step := fun c =>
  if endbuf - c.place < room then .error c
  else
    let printed := c.put (str ++ utoa val)
    .ok { printed with writes := printed.writes ++ [(printed.place, 0)] }

def paramPrint (spec : UInt8 → Bool) (sep : UInt8) (p : Param) : Step := fun c => do
  let c ← copyAdvanceCharCheck endbuf sep c
  let c ← copyAdvanceEscape endbuf p.name spec c
  if p.value ≠ [] then
    let c ← copyAdvanceCharCheck endbuf 0x3D c
    if p.value.head? = some 0x22 then copyAdvanceCheck endbuf p.value c else copyAdvanceEscape endbuf p.value spec c
  else .ok c

def paramLoop (spec : UInt8 → Bool) : UInt8 → List Param → Step
  | _, [] => .ok
  | sep, p :: rest => fun c => do
    let c ← paramPrint endbuf spec sep p c
    paramLoop spec (if sep = 0x3F then 0x26 else sep) rest c

/- pjsip_param_print_on, with what its caller does with the result. -/
def paramPrintOn (paramList : List Param) (spec : UInt8 → Bool) (sep : UInt8) : Step := fun c => do
  let last ← paramLoop endbuf spec sep paramList c
  let printed := toInt (last.place - c.place)
  if printed < 0 then .error last else .ok { last with place := c.place + printed }

end Macros

section Url
variable (cfg : EndptCfg) (context : UriContext) (url : SipUri) (endbuf : Int)

def scheme : List UInt8 := if url.secure then ascii "sips" else ascii "sip"

def printScheme : Step := fun c => do
  let c ← copyAdvanceCheck endbuf (scheme url) c
  copyAdvanceCharCheck endbuf 0x3A c

def printUser : Step := fun c =>
  if url.user ≠ [] then do
    let c ← copyAdvanceEscape endbuf url.user (if cfg.allowTxHashInUri then userSpecLenient else userSpec) c
    let c ← printPasswd c
    copyAdvanceCharCheck endbuf 0x40 c
  else .ok c
where
  printPasswd : Step := fun c =>
    if url.passwd ≠ [] then do
      let c ← copyAdvanceCharCheck endbuf 0x3A c
      copyAdvanceEscape endbuf url.passwd passwdSpec c
    else .ok c

def printHost : Step :=
  if url.host.contains 0x3A then copyAdvancePairQuoteCond endbuf [] url.host 0x5B 0x5D else copyAdvanceCheck endbuf url.host

def portShown : Bool := url.port ≠ 0 ∧ (context ≠ .inFromtoHdr ∨ cfg.allowPortInFromtoHdr)

def printPort : Step := if portShown cfg context url then printNumber endbuf 10 (ascii ":") url.port else .ok

def printUserParam : Step := copyAdvancePairCheck endbuf (ascii ";user=") url.userParam

def printMethod : Step :=
  if context = .inOther then copyAdvancePairEscape endbuf (ascii ";method=") url.methodParam paramCharSpec else .ok

def printTransport : Step :=
  if context ≠ .inFromtoHdr then copyAdvancePairEscape endbuf (ascii ";transport=") url.transportParam paramCharSpec else .ok

def ttlShown : Bool := 0 ≤ url.ttlParam ∧ context ≠ .inFromtoHdr ∧ context ≠ .inRoutingHdr

def printTtl : Step := if ttlShown context url then printNumber endbuf 15 (ascii ";ttl=") url.ttlParam else .ok

def printMaddr : Step :=
  if context ≠ .inFromtoHdr ∧ url.maddrParam ≠ [] then
    if url.maddrParam.contains 0x3A then copyAdvancePairQuoteCond endbuf (ascii ";maddr=") url.maddrParam 0x5B 0x5D
    else copyAdvancePairEscape endbuf (ascii ";maddr=") url.maddrParam paramCharSpec
  else .ok

def printLr : Step := fun c =>
  if url.lrParam ≠ 0 ∧ context ≠ .inFromtoHdr ∧ context ≠ .inContactHdr then
    if endbuf - c.place < 3 then .error c else copyAdvanceCheck endbuf (ascii ";lr") c
  else .ok c

def printOther : Step := paramPrintOn endbuf url.otherParam paramCharSpec 0x3B

def printHeader : Step :=
  if context = .inContactHdr ∨ context = .inOther then paramPrintOn endbuf url.headerParam hdrCharSpec 0x3F else .ok

def printParts : Step := fun c => do
  let c ← printScheme url endbuf c
  let c ← printUser cfg url endbuf c
  let c ← printHost url endbuf c
  let c ← printPort cfg context url endbuf c
  let c ← printUserParam url endbuf c
  let c ← printMethod context url endbuf c
  let c ← printTransport context url endbuf c
  let c ← printTtl context url endbuf c
  let c ← printMaddr context url endbuf c
  let c ← printLr context url endbuf c
  let c ← printOther url endbuf c
  printHeader context url endbuf c

end Url

/- pjsip_url_print: what it returns and what it writes. -/
def urlPrint (cfg : EndptCfg) (context : UriContext) (url : SipUri) (size : Nat) : Int × List (Int × UInt8) :=
  match printParts cfg context url size ⟨0,[(0, 0)]⟩ with
  | .error c => (-1, c.writes)
  | .ok c => (c.place, c.writes ++ [(c.place, 0)])

example : urlPrint ⟨false,false⟩ .inOther { host := ascii "a", otherParam := [⟨ascii "x",[]⟩] } 8 =
    (7, [(0, 0),(0, 115),(1, 105),(2, 112),(3, 58),(4, 97),(5, 59),(6, 120),(7, 0)]) := by decide +kernel

end Pjproject.Uri
