import Pjproject.StunAuth
import Pjproject.StunRoundTrip

/-! The encoder and the verifiers of MESSAGE-INTEGRITY agree. The encoder hashes the packet
with the length it has at that point; the verifiers find that point again by walking over
the decoded attributes, and put the length back when something follows. -/
namespace Pjproject.Stun
open Lib.Bytes

/- The bytes that the verifiers count for these attributes. -/
def spanOf (attrs : List Attr) : Nat := (attrs.map fun a => pad4 a.length.toNat + 4).sum

theorem scanIntegrityAfter {a : Attr} (pos : Nat) {rest : List Attr}
    (other : ∀ b ∈ rest, b.type ≠ attrMessageIntegrity) :
    scanIntegrity rest (some a) pos = (some a, pos, !rest.isEmpty) := by
  cases rest with
  | nil => rfl
  | cons b => simp [scanIntegrity,other b List.mem_cons_self]

theorem scanIntegrityFound {pre rest : List Attr} {a : Attr} (integrity : a.type = attrMessageIntegrity)
    (before : ∀ b ∈ pre, b.type ≠ attrMessageIntegrity) (after : ∀ b ∈ rest, b.type ≠ attrMessageIntegrity) (pos : Nat) :
    scanIntegrity (pre ++ a :: rest) none pos = (some a, pos + spanOf pre, !rest.isEmpty) := by
  induction pre generalizing pos with
  | nil =>
    simp only [List.nil_append,scanIntegrity,if_pos integrity,spanOf,List.map_nil,List.sum_nil,Nat.add_zero]
    exact scanIntegrityAfter pos after
  | cons b pre ih =>
    have first := before b List.mem_cons_self
    simp only [List.cons_append,scanIntegrity,if_neg first,Option.isSome_none,Bool.false_eq_true,if_false]
    rw [ih fun c mem => before c (List.mem_cons_of_mem _ mem)]
    simp only [spanOf,List.map_cons,List.sum_cons,Nat.add_assoc]

theorem findAttrFound {msg : Msg} {pre rest : List Attr} {a : Attr} (attrs : msg.attrs = pre ++ a :: rest)
    (before : ∀ b ∈ pre, b.type ≠ a.type) : findAttr msg a.type = some a := by
  unfold findAttr
  rw [attrs,List.find?_append,List.find?_eq_none.mpr fun b mem => by simpa using before b mem]
  simp

theorem integrityInputHeader {pkt : Memory} {hdr : MsgHdr} (header : headerAt pkt = hdr) {pos : Nat} {beyond : Bool}
    (last : beyond = false → hdr.length = UInt16.ofNat (pos + 24)) : integrityInput pkt pos beyond =
      be16 hdr.type ++ (be16 (UInt16.ofNat (pos + 24)) ++ slice pkt 4 (16 + pos)) := by
  have type : slice pkt 0 2 = be16 hdr.type := by
    rw [← header]
    exact (be16Word _ _).symm
  cases beyond with
  | true =>
    simp only [integrityInput,if_true]
    rw [type,sliceAppend pkt 4 16 pos]
    simp only [List.append_assoc]
  | false =>
    simp only [integrityInput,Bool.false_eq_true,if_false]
    rw [show slice pkt 0 20 ++ slice pkt 20 pos = slice pkt 0 (20 + pos) from
      (by rw [sliceAppend,Nat.zero_add]),sliceHeader header,last rfl]

section Agreement
variable {env : Env} {msg : Msg} {key : Option (List UInt8)} {r : EncodeResult} {n : Nat} {pre : List Attr}
  {a : Attr} {afingerprint : Option Attr}

theorem spanOfSent {hdr : MsgHdr} {attrs decoded : List Attr} (small : bodySize attrs < 65536)
    (views : decoded.map Attr.view = attrs.map (sent env hdr)) : spanOf decoded = bodySize attrs := by
  induction attrs generalizing decoded with
  | nil => simp_all [spanOf,bodySize]
  | cons b attrs ih =>
    cases decoded with
    | nil => simp at views
    | cons d =>
      obtain ⟨first,rest⟩ := List.cons.inj views
      rw [bodySizeCons] at small ⊢
      have length : d.length = UInt16.ofNat (wireLength hdr b) := congrArg (fun v => v.2.1) first
      have size := wireLengthSize hdr b
      have head : pad4 d.length.toNat + 4 = attrSize b := by
        rw [length,wireLengthToNat hdr (by omega),size]
      rw [← ih (by omega) rest,← head]
      rfl

theorem Encoded.split (encoded : Encoded env msg key r n pre (some a) afingerprint) {decoded : Msg}
    (views : decoded.attrs.map Attr.view = (msg.attrs.map r.fill).map (sent env msg.hdr))
    (small : bodySize msg.attrs < 65536) :
    ∃ dpre d dpost, decoded.attrs = dpre ++ d :: dpost ∧ d.type = attrMessageIntegrity ∧
      d.hmac = (r.fill a).hmac ∧ spanOf dpre = bodySize pre ∧ dpost.isEmpty = afingerprint.isNone ∧
      (∀ b ∈ dpre, b.type ≠ attrMessageIntegrity) ∧ ∀ b ∈ dpost, b.type ≠ attrMessageIntegrity := by
  rw [encoded.shape,List.map_append,List.map_append,fillPre r encoded.plain] at views
  obtain ⟨dpre,rest,attrs,left,right⟩ := List.map_eq_append_iff.mp views
  simp only [Option.toList_some,List.singleton_append,List.map_cons] at right
  obtain ⟨d,dpost,rfl,first,last⟩ := List.map_eq_cons_iff.mp right
  have integrity : a.type = attrMessageIntegrity := encoded.integrity a rfl
  have type : d.type = attrMessageIntegrity := (congrArg (fun v => v.1) first).trans integrity
  have smallPre : bodySize pre < 65536 := by
    rw [encoded.shape,bodySizeAppend] at small
    omega
  refine ⟨dpre,d,dpost,attrs,type,?_,spanOfSent smallPre left,?_,?_,?_⟩
  · obtain ⟨created,hmac,fits,rfl⟩ := integrityBody integrity
    have body : d.body = arrives env msg.hdr (r.fill ⟨attrMessageIntegrity,created,.msgint hmac,fits⟩) :=
      congrArg (fun v => v.2.2) first
    simp only [Attr.hmac,body]
    rfl
  · cases afingerprint with
    | none => simpa using last
    | some =>
      cases dpost with
      | nil => simp at last
      | cons => rfl
  · intro b member same
    have view : b.view ∈ dpre.map Attr.view := List.mem_map_of_mem member
    rw [left] at view
    obtain ⟨c,old,same'⟩ := List.mem_map.mp view
    have plain := encoded.plain c old
    have typed : c.type = attrMessageIntegrity := (congrArg (fun v => v.1) same').trans same
    simp [stopsEncoding,typed] at plain
  · intro b member same
    have view : b.view ∈ dpost.map Attr.view := List.mem_map_of_mem member
    rw [last] at view
    simp only [List.mem_map,Option.mem_toList] at view
    obtain ⟨c,⟨f,old,rfl⟩,same'⟩ := view
    have typed : f.type = attrMessageIntegrity := (congrArg (fun v => v.1) same').trans same
    rw [encoded.fingerprint f old] at typed
    exact absurd typed (by decide)

theorem Encoded.verified (encoded : Encoded env msg key r n pre (some a) afingerprint) {decoded : Msg}
    (views : decoded.attrs.map Attr.view = (msg.attrs.map r.fill).map (sent env msg.hdr))
    (small : bodySize msg.attrs < 65536) :
    ∃ d k beyond, key = some k ∧ findAttr decoded attrMessageIntegrity = some d ∧
      scanIntegrity decoded.attrs none 0 = (some d, bodySize pre, beyond) ∧
      integrityInput r.encoding.mem (bodySize pre) beyond =
        be16 msg.hdr.type ++ (be16 (UInt16.ofNat (bodySize pre + 24)) ++ slice r.encoding.mem 4 (16 + bodySize pre)) ∧
      r.hmac = some (env.hmacSha1 k (integrityInput r.encoding.mem (bodySize pre) beyond)) ∧
      d.hmac = env.hmacSha1 k (integrityInput r.encoding.mem (bodySize pre) beyond) := by
  obtain ⟨dpre,d,dpost,attrs,type,hmac,span,empty,before,after⟩ := encoded.split views small
  obtain ⟨k,keyed,digest⟩ := encoded.digest rfl
  have found : findAttr decoded attrMessageIntegrity = some d := by
    rw [← type] at before ⊢
    exact findAttrFound attrs before
  have scanned := scanIntegrityFound type before after 0
  rw [← attrs,span,Nat.zero_add,empty] at scanned
  obtain ⟨created,old,fits,rfl⟩ := integrityBody (encoded.integrity a rfl)
  have field : (!afingerprint.isNone) = false →
      (headerAt r.encoding.mem).length = UInt16.ofNat (bodySize pre + 24) := by
    intro none
    have absent : afingerprint = Option.none := by simpa using none
    rw [encoded.packet.header]
    simp only
    rw [encoded.shape,bodySizeAppend,absent]
    rfl
  have input := integrityInputHeader rfl field
  simp only [encoded.packet.header] at input
  rw [← input] at digest
  refine ⟨d,k,!afingerprint.isNone,keyed,found,scanned,input,digest,?_⟩
  rw [hmac]
  simp only [Attr.hmac,EncodeResult.fill,EncodeResult.body,if_true,digest,Option.getD_some]

end Agreement

/- The credential knows the carried user, accepts the carried realm and nonce, and its key
for them is `key`. The nonce of a short term credential is left out: the verifier refuses
every request then. -/
def AuthCred.Yields (md5 : List UInt8 → List UInt8) (msg : Msg) (key : List UInt8) (cred : AuthCred) : Prop :=
  ∃ realm nonce auser, cred.getAuth = .ok (realm, nonce) ∧
    (findAttr msg attrUsername).map Attr.stringValue = some auser ∧
    (∃ username, cred.select md5 msg realm auser ((findAttr msg attrRealm).map Attr.stringValue) =
      some (username, key)) ∧
    (realm ≠ [] → ∃ arealm, (findAttr msg attrRealm).map Attr.stringValue = some arealm ∧
      stricmpZero arealm realm = true ∧ (nonce ≠ [] → findAttr msg attrNonce ≠ none)) ∧
    (realm = [] → findAttr msg attrRealm = none → nonce = []) ∧
    ∀ anonce, (findAttr msg attrNonce).map Attr.stringValue = some anonce →
      cred.nonceOk msg nonce ((findAttr msg attrRealm).map Attr.stringValue) auser anonce = true

theorem checkTermsPass {realm nonce : List UInt8} {arealm anonce : Option (List UInt8)}
    (long : realm ≠ [] → ∃ value, arealm = some value ∧ stricmpZero value realm = true ∧ (nonce ≠ [] → anonce ≠ none))
    (short : realm = [] → arealm = none → nonce = []) : checkTerms realm nonce arealm anonce = none := by
  by_cases term : realm = []
  · cases arealm with
    | none => simp [checkTerms,term,short term rfl]
    | some => simp [checkTerms,term]
  · obtain ⟨value,rfl,same,present⟩ := long term
    by_cases wanted : nonce = []
    · simp [checkTerms,term,same,wanted]
    · simp [checkTerms,term,same,present wanted]

theorem authenticateYields {md5 : List UInt8 → List UInt8} {env : Env} {pkt : Memory} {pktLen : Nat} {msg : Msg}
    {cred : AuthCred} {key : List UInt8} {amsgi : Attr} {pos : Nat} {beyond : Bool} (length : pktLen ≠ 0)
    (yields : cred.Yields md5 msg key) (scanned : scanIntegrity msg.attrs none 0 = (some amsgi, pos, beyond))
    (digest : amsgi.hmac = env.hmacSha1 key (integrityInput pkt pos beyond)) :
    (authenticateRequest md5 env pkt pktLen msg cred).status = .success ∧
    (authenticateRequest md5 env pkt pktLen msg cred).info.authKey = key := by
  obtain ⟨realm,nonce,auser,auth,user,⟨username,selected⟩,long,short,fresh⟩ := yields
  obtain ⟨attr,found,rfl⟩ := Option.map_eq_some_iff.mp user
  have terms : checkTerms realm nonce ((findAttr msg attrRealm).map Attr.stringValue)
      ((findAttr msg attrNonce).map Attr.stringValue) = none := by
    refine checkTermsPass (fun term => ?_) fun term absent => short term (by simpa using absent)
    obtain ⟨value,here,same,present⟩ := long term
    exact ⟨value,here,same,fun wanted absent => present wanted (by simpa using absent)⟩
  have hasRealm : ¬ (realm ≠ [] ∧ (findAttr msg attrRealm).map Attr.stringValue = none) := by
    rintro ⟨term,absent⟩
    obtain ⟨value,here,_⟩ := long term
    simp [here] at absent
  have accepted : ¬ ((findAttr msg attrNonce).map Attr.stringValue).any (fun anonce =>
      !cred.nonceOk msg nonce ((findAttr msg attrRealm).map Attr.stringValue) attr.stringValue anonce) = true := by
    cases carried : (findAttr msg attrNonce).map Attr.stringValue with
    | none => simp
    | some anonce => simp [fresh anonce carried]
  unfold authenticateRequest
  rw [if_neg length]
  simp only [auth,scanned,found,if_neg hasRealm,selected,terms,if_neg accepted,if_pos digest,and_self]

/- Both verifiers accept the packet under the key, and hash what the encoder hashed: the
packet up to MESSAGE-INTEGRITY, with the length up to its end. -/
structure Agreed (md5 : List UInt8 → List UInt8) (env : Env) (msg : Msg) (k : List UInt8) (r : EncodeResult) (n : Nat)
    (decoded : Msg) : Prop where
  response : authenticateResponse env r.encoding.mem n decoded k = .success
  request : ∀ cred : AuthCred, cred.Yields md5 decoded k →
    (authenticateRequest md5 env r.encoding.mem n decoded cred).status = .success ∧
    (authenticateRequest md5 env r.encoding.mem n decoded cred).info.authKey = k
  input : ∃ pre a post amsgi beyond, msg.attrs = pre ++ a :: post ∧ a.type = attrMessageIntegrity ∧
    scanIntegrity decoded.attrs none 0 = (some amsgi, bodySize pre, beyond) ∧
    integrityInput r.encoding.mem (bodySize pre) beyond =
      be16 msg.hdr.type ++ (be16 (UInt16.ofNat (bodySize pre + 24)) ++ slice r.encoding.mem 4 (16 + bodySize pre)) ∧
    r.hmac = some (env.hmacSha1 k (integrityInput r.encoding.mem (bodySize pre) beyond))

theorem integrityAgreement (md5 : List UInt8 → List UInt8) (env : Env) (msg : Msg) (buf : Memory) (bufSize : UInt64)
    (k : List UInt8) (n : Nat) (options : DecodeOptions)
    (integrity : ∃ a ∈ msg.attrs, a.type = attrMessageIntegrity) (tailed : Tailed msg.attrs)
    (accepted : ∀ a ∈ msg.attrs, Accepted a) (small : bodySize msg.attrs < 65536)
    (done : (stunMsgEncode env msg buf bufSize (some k)).msgLen = some n)
    (checkable : Checkable options msg (stunMsgEncode env msg buf bufSize (some k)).encoding.mem n) :
    ∃ decoded, (stunMsgDecode env (stunMsgEncode env msg buf bufSize (some k)).encoding.mem n options).result =
        .ok (decoded, n) ∧
      Agreed md5 env msg k (stunMsgEncode env msg buf bufSize (some k)) n decoded := by
  obtain ⟨pre,amsgint,afingerprint,encoded⟩ := encodePacket rfl done accepted small tailed
  obtain ⟨decoded,result,header,views⟩ := encoded.decode accepted small
  have length : n = 20 + bodySize msg.attrs := encoded.length
  cases amsgint with
  | none =>
    obtain ⟨a,member,typed⟩ := integrity
    rw [encoded.shape] at member
    rcases List.mem_append.mp member with early | late
    · have plain := encoded.plain a early
      simp [stopsEncoding,typed] at plain
    · have fingerprint := encoded.fingerprint a (by simpa using late)
      rw [typed] at fingerprint
      exact absurd fingerprint (by decide)
  | some a =>
    obtain ⟨d,k',beyond,keyed,found,scanned,input,stored,digest⟩ := encoded.verified views small
    cases keyed
    have long : ¬ decoded.hdr.length < 24 := by
      rw [header,UInt16.lt_iff_toNat_lt]
      simp only [UInt16.toNat_ofNat',UInt16.reduceToNat]
      have size : attrSize a = 24 := by
        obtain ⟨created,hmac,fits,rfl⟩ := integrityBody (encoded.integrity a rfl)
        rfl
      have total := congrArg bodySize encoded.shape
      rw [bodySizeAppend,bodySizeAppend] at total
      simp only [Option.toList_some,bodySizeCons,size] at total
      omega
    refine ⟨decoded,by rw [encoded.decodeResult accepted small checkable,result],?_,?_,?_⟩
    · unfold authenticateResponse
      rw [if_neg (by omega)]
      simp only [found,if_neg long,scanned,if_pos digest]
    · intro cred yields
      exact authenticateYields (by omega) yields scanned digest
    · exact ⟨pre,a,afingerprint.toList,d,beyond,encoded.shape,encoded.integrity a rfl,scanned,input,stored⟩

/- A request of the user "ab" with MESSAGE-INTEGRITY and FINGERPRINT, and a short term and a
long term credential of that user. -/
def userAttr : Attr := stringAttrCreate attrUsername [97,98] rfl
def realmAttr : Attr := stringAttrCreate attrRealm [112,106] rfl
def nonceAttr : Attr := stringAttrCreate attrNonce [110] rfl
def fingerprintAttr : Attr := uintAttrCreate attrFingerprint 0 fingerprintIsUint

def signedRequest (attrs : List Attr) (few : attrs.length ≤ stunMaxAttr) : Msg :=
  ⟨⟨0x0001,0,stunMagic,fun _ => 7⟩,attrs,few⟩

def longTermRequest : Msg :=
  signedRequest [userAttr,realmAttr,nonceAttr,msgintAttrCreate,fingerprintAttr] (by decide)

def encodeSigned (msg : Msg) : EncodeResult := stunMsgEncode plainEnv msg (fun _ => 0) 200 (some [49,50])

def plainMd5 : List UInt8 → List UInt8 := fun _ => [49,50]

def longTermCred : AuthCred := .static ⟨[80,74],[97,98],.plain,[120],[110]⟩

theorem longTermRequestAgrees :
    ∃ decoded, (stunMsgDecode plainEnv (encodeSigned longTermRequest).encoding.mem 76 datagram).result =
        .ok (decoded, 76) ∧ longTermCred.Yields plainMd5 decoded [49,50] ∧
      Agreed plainMd5 plainEnv longTermRequest [49,50] (encodeSigned longTermRequest) 76 decoded := by
  have accepted : ∀ a ∈ longTermRequest.attrs, Accepted a := by
    intro a mem
    simp only [longTermRequest,signedRequest,List.mem_cons,List.not_mem_nil,or_false] at mem
    rcases mem with rfl | rfl | rfl | rfl | rfl
    · exact ⟨by decide,trivial⟩
    · exact ⟨by decide,trivial⟩
    · exact ⟨by decide,trivial⟩
    · exact ⟨by decide,rfl⟩
    · exact ⟨by decide,trivial⟩
  have tailed : Tailed longTermRequest.attrs := .inr ⟨fingerprintAttr,rfl,rfl⟩
  obtain ⟨decoded,result,agreed⟩ :=
    integrityAgreement plainMd5 plainEnv longTermRequest (fun _ => 0) 200 [49,50] 76 datagram
      ⟨msgintAttrCreate,by simp [longTermRequest,signedRequest],rfl⟩ tailed accepted (by decide) (by decide)
      fun _ => ⟨by decide,.inr (.inr (.inl ⟨fingerprintAttr,by simp [longTermRequest,signedRequest],rfl⟩))⟩
  have carried : (stunMsgDecode plainEnv (encodeSigned longTermRequest).encoding.mem 76 datagram).result.toOption.map
      (fun pair => [attrUsername,attrRealm,attrNonce].map fun attrType =>
        (findAttr pair.1 attrType).map Attr.stringValue) = some [some [97,98],some [112,106],some [110]] := by
    decide
  refine ⟨decoded,result,?_,agreed⟩
  rw [show (stunMsgDecode plainEnv (encodeSigned longTermRequest).encoding.mem 76 datagram).result = _ from result]
    at carried
  simp only [Except.toOption,Option.map_some,List.map_cons,List.map_nil,Option.some.injEq,List.cons.injEq,
    and_true] at carried
  obtain ⟨user,realm,nonce⟩ := carried
  refine ⟨[80,74],[110],[97,98],rfl,user,⟨[97,98],by rw [realm]; rfl⟩,fun _ => ⟨[112,106],realm,
    by decide,fun _ absent => ?_⟩,fun empty => by simp at empty,fun anonce same => ?_⟩
  · simp [absent] at nonce
  · rw [nonce] at same
    cases same
    rw [realm]
    rfl

/- A message with an attribute of the unassigned type 0x0031 before MESSAGE-INTEGRITY, and a
short term credential with a nonce. -/
def unassignedSigned : Msg := signedRequest [unassignedAttr,userAttr,msgintAttrCreate] (by decide)

def shortTermSigned : Msg := signedRequest [userAttr,nonceAttr,msgintAttrCreate] (by decide)

def shortTermCred : AuthCred := .static ⟨[],[97,98],.plain,[49,50],[110]⟩

theorem signedNotVerified :
    (encodeSigned unassignedSigned).msgLen = some 60 ∧
    (stunMsgDecode plainEnv (encodeSigned unassignedSigned).encoding.mem 60 datagram).result.toOption.isNone ∧
    (encodeSigned shortTermSigned).msgLen = some 60 ∧
    (stunMsgDecode plainEnv (encodeSigned shortTermSigned).encoding.mem 60 datagram).result.toOption.map
      (fun pair => (authenticateRequest plainMd5 plainEnv (encodeSigned shortTermSigned).encoding.mem 60 pair.1
        shortTermCred).status) = some (.stunCode 401) := by
  decide

end Pjproject.Stun
