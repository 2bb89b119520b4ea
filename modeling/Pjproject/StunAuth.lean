import Pjproject.StunDecode

/-! STUN authentication of pjnath/stun_auth.c: the verifiers of requests and of responses,
called without a place for a challenge. HMAC-SHA1 comes with the environment and MD5 is a
parameter; credential callbacks are functions of what they are given. -/
namespace Pjproject.Stun
open Lib.Bytes

inductive PasswdType where
  | plain
  | hashed
  deriving DecidableEq, Repr

structure StaticCred where
  realm : List UInt8
  username : List UInt8
  dataType : PasswdType
  data : List UInt8
  nonce : List UInt8

/- The callbacks of a dynamic credential, applied to its user data. -/
structure DynCred where
  getAuth : Except Status (List UInt8 × List UInt8)
  getPassword : Msg → Option (List UInt8) → List UInt8 → Option (PasswdType × List UInt8)
  verifyNonce : Option (Msg → Option (List UInt8) → List UInt8 → List UInt8 → Bool)

inductive AuthCred where
  | static (cred : StaticCred)
  | dynamic (cred : DynCred)

structure ReqCredInfo where
  realm : List UInt8
  username : List UInt8
  nonce : List UInt8
  authKey : List UInt8
  deriving DecidableEq

/- The status, *p_info, and the text that a challenge would carry. -/
structure AuthResult where
  status : Status
  info : ReqCredInfo
  errText : Option String

/- pj_stricmp compares with 0: equal lengths, and no difference up to a NUL. -/
def lower (c : UInt8) : UInt8 := if 65 ≤ c ∧ c ≤ 90 then c + 32 else c

def strnicmpZero : List UInt8 → List UInt8 → Bool
  | a :: left, b :: right => lower a == lower b && (a == 0 || strnicmpZero left right)
  | _, _ => true

def stricmpZero (left right : List UInt8) : Bool := left.length == right.length && strnicmpZero left right

def removeQuote (s : List UInt8) : List UInt8 :=
  let s := if s.head? = some 34 then s.tail else s
  if s.getLast? = some 34 then s.dropLast else s

def calcMd5Key (md5 : List UInt8 → List UInt8) (realm username passwd : List UInt8) : List UInt8 :=
  md5 (removeQuote username ++ [58] ++ removeQuote realm ++ [58] ++ passwd)

/- No realm is an empty one. -/
def createKey (md5 : List UInt8 → List UInt8) (realm username : List UInt8) (dataType : PasswdType)
    (data : List UInt8) : List UInt8 :=
  if realm ≠ [] ∧ dataType = .plain then calcMd5Key md5 realm username data else data

def findAttr (msg : Msg) (attrType : UInt16) : Option Attr := msg.attrs.find? (·.type == attrType)

def Attr.stringValue (a : Attr) : List UInt8 :=
  match a.body with
  | .string value => value
  | _ => []

def Attr.hmac (a : Attr) : Fin 20 → UInt8 :=
  match a.body with
  | .msgint hmac => hmac
  | _ => fun _ => 0

/- The loop that looks for MESSAGE-INTEGRITY: the attribute, amsgi_pos and
has_attr_beyond_mi. -/
def scanIntegrity : List Attr → Option Attr → Nat → Option Attr × Nat × Bool
  | [], amsgi, pos => (amsgi, pos, false)
  | a :: rest, amsgi, pos =>
    if a.type = attrMessageIntegrity then scanIntegrity rest (some a) pos
    else if amsgi.isSome then (amsgi, pos, true)
    else scanIntegrity rest none (pos + (pad4 a.length.toNat + 4))

/- The bytes the digest is computed over. -/
def integrityInput (pkt : Memory) (pos : Nat) (beyond : Bool) : List UInt8 :=
  (if beyond then slice pkt 0 2 ++ be16 (UInt16.ofNat (pos + 24)) ++ slice pkt 4 16 else slice pkt 0 20) ++
    slice pkt 20 pos

def AuthCred.getAuth : AuthCred → Except Status (List UInt8 × List UInt8)
  | .static cred => .ok (cred.realm, cred.nonce)
  | .dynamic cred => cred.getAuth

/- The user name and the key, if the user is known. -/
def AuthCred.select (md5 : List UInt8 → List UInt8) (msg : Msg) (realm auser : List UInt8)
    (arealm : Option (List UInt8)) : AuthCred → Option (List UInt8 × List UInt8)
  | .static cred =>
    if auser = cred.username then some (cred.username, createKey md5 realm auser cred.dataType cred.data) else none
  | .dynamic cred =>
    (cred.getPassword msg arealm auser).map fun password =>
      (auser, createKey md5 (arealm.getD []) auser password.1 password.2)

/- The requirements of long term and short term credentials. A short term credential with
a nonce is refused whether or not the request has one. -/
def checkTerms (realm nonce : List UInt8) : Option (List UInt8) → Option (List UInt8) → Option (Nat × String)
  | none, _ =>
    if realm ≠ [] then some (400, "Missing REALM")
    else if nonce ≠ [] then some (401, "NONCE required")
    else none
  | some arealm, anonce =>
    if realm ≠ [] then
      if anonce = none ∧ nonce ≠ [] then some (400, "Missing NONCE")
      else if stricmpZero arealm realm = false then some (401, "Invalid REALM")
      else none
    else none

def AuthCred.nonceOk (msg : Msg) (nonce : List UInt8) (arealm : Option (List UInt8)) (auser anonce : List UInt8) :
    AuthCred → Bool
  | .dynamic cred =>
    match cred.verifyNonce with
    | some verify => verify msg arealm auser anonce
    | none => true
  | .static _ => nonce = [] || anonce == nonce

def authenticateRequest (md5 : List UInt8 → List UInt8) (env : Env) (pkt : Memory) (pktLen : Nat) (msg : Msg)
    (cred : AuthCred) : AuthResult :=
  if pktLen = 0 then ⟨.einval,⟨[],[],[],[]⟩,none⟩
  else
    match cred.getAuth with
    | .error status => ⟨status,⟨[],[],[],[]⟩,none⟩
    | .ok (realm, nonce) =>
      let info : ReqCredInfo := ⟨realm,[],nonce,[]⟩
      match scanIntegrity msg.attrs none 0 with
      | (none, _, _) => ⟨.stunCode (if realm ≠ [] then 401 else 400),info,none⟩
      | (some amsgi, pos, beyond) =>
        match findAttr msg attrUsername with
        | none => ⟨.stunCode 400,info,some "Missing USERNAME"⟩
        | some auser =>
          let auser := auser.stringValue
          let arealm := (findAttr msg attrRealm).map Attr.stringValue
          if realm ≠ [] ∧ arealm = none then ⟨.stunCode 400,info,some "Missing REALM"⟩
          else
            match cred.select md5 msg realm auser arealm with
            | none => ⟨.stunCode 401,info,none⟩
            | some (username, key) =>
              let info := { info with username := username, authKey := key }
              let anonce := (findAttr msg attrNonce).map Attr.stringValue
              match checkTerms realm nonce arealm anonce with
              | some (code, text) => ⟨.stunCode code,info,some text⟩
              | none =>
                if anonce.any (fun anonce => !cred.nonceOk msg nonce arealm auser anonce) then
                  ⟨.stunCode 438,info,none⟩
                else if amsgi.hmac = env.hmacSha1 key (integrityInput pkt pos beyond) then ⟨.success,info,none⟩
                else ⟨.stunCode 401,info,some "MESSAGE-INTEGRITY mismatch"⟩

def authenticateResponse (env : Env) (pkt : Memory) (pktLen : Nat) (msg : Msg) (key : List UInt8) : Status :=
  if pktLen = 0 then .einval
  else
    match findAttr msg attrMessageIntegrity with
    | none => .stunCode 401
    | some _ =>
      if msg.hdr.length < 24 then .einstunmsglen
      else
        match scanIntegrity msg.attrs none 0 with
        | (none, _, _) => .stunCode 400
        | (some amsgi, pos, beyond) =>
          if amsgi.hmac = env.hmacSha1 key (integrityInput pkt pos beyond) then .success else .stunCode 401

end Pjproject.Stun
