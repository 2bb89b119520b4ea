import Pjproject.StunRoundTrip

/-! What pj_stun_msg_encode makes of any message that it accepts: the header, the attributes it comes to one behind
the other, and how far it gets. The second loop passes over attributes that stand behind MESSAGE-INTEGRITY, and the
check on its position that follows looks at an index that is at the end by then. -/
namespace Pjproject.Stun
open Lib.Bytes

theorem encodeAttrReport {env : Env} {hdr : MsgHdr} {a : Attr} {len : Nat}
    (done : (encodeAttr env hdr a len).status = .success) :
    (encodeAttr env hdr a len).bytes.length ≤ attrSize a ∧ (encodeAttr env hdr a len).printed % 4 = 0 ∧
      (encodeAttr env hdr a len).printed ≤ attrSize a ∧
      ((encodeAttr env hdr a len).printed = attrSize a ↔ attrSize a < 2 ^ 32) := by
  obtain ⟨type,length,body,fits⟩ := a
  cases body with
  | sockaddr xorEd addr =>
    have size : sockaddrSize (if xorEd then xorAddr hdr addr else addr) = sockaddrSize addr := by
      split
      · exact sockaddrSizeXor hdr addr
      · rfl
    simp only [encodeAttr,encodeSockaddrAttr] at done ⊢
    simp only [attrSize,← size]
    generalize (if xorEd then xorAddr hdr addr else addr) = shown at done
    cases shown with
    | ipv4 port addr =>
      dsimp only at done ⊢
      rw [lengthChecked done]
      simp [sockaddrSize,be16Length]
    | ipv6 port addr =>
      dsimp only at done ⊢
      rw [lengthChecked done]
      simp [sockaddrSize,be16Length]
    | other => simp at done
  | empty =>
    simp only [encodeAttr,encodeEmptyAttr] at done ⊢
    rw [lengthChecked done]
    simp [attrSize,be16Length,attrHdrLen]
  | string =>
    simp only [encodeAttr,encodeStringAttr] at done ⊢
    rw [lengthChecked done]
    simp only [attrSize,List.length_append,be16Length,stringPadLength,attrHdrLen,u32,pad4]
    omega
  | uint =>
    simp only [encodeAttr,encodeUintAttr] at done ⊢
    rw [lengthChecked done]
    simp [attrSize,be16Length,be32Length]
  | uint64 hi lo =>
    simp only [encodeAttr,encodeUint64Attr] at done ⊢
    rw [lengthChecked done]
    simp [attrSize,be16Length,be32Length]
  | msgint =>
    simp only [encodeAttr,encodeMsgintAttr] at done ⊢
    rw [lengthChecked done]
    simp [attrSize,be16Length]
  | errcode =>
    simp only [encodeAttr,encodeErrcodeAttr] at done ⊢
    rw [lengthChecked done]
    simp only [attrSize,List.length_append,be16Length,attrHdrLen,u32,pad4,List.length_cons,List.length_nil]
    omega
  | unknown attrs =>
    have few : attrs.length ≤ 16 := fits.2
    simp only [encodeAttr,encodeUnknownAttr] at done ⊢
    rw [lengthChecked done]
    simp only [attrSize,List.length_append,be16Length,flatMapBe16Length,attrHdrLen,pad4]
    omega
  | binary =>
    simp only [encodeAttr,encodeBinaryAttr] at done ⊢
    split at done
    · simp at done
    · next known =>
      rw [if_neg known,lengthChecked done]
      simp only [attrSize,List.length_append,be16Length,attrHdrLen,u32,pad4]
      omega

theorem Written.keep {env : Env} {hdr : MsgHdr} {m m' : Memory} {pos : Nat} {a : Attr}
    (written : Written env hdr m pos a) (same : ∀ i, pos ≤ i → i < pos + attrSize a → m' i = m i) :
    Written env hdr m' pos a := by
  obtain ⟨len,done,holds⟩ := written
  have fits := (encodeAttrReport done).1
  exact ⟨len,done,holds.congr fun i low high => same i low (by omega)⟩

theorem Stored.keep {env : Env} {hdr : MsgHdr} {m m' : Memory} {attrs : List Attr} {pos : Nat}
    (stored : Stored env hdr m pos attrs) (same : ∀ i, pos ≤ i → i < pos + bodySize attrs → m' i = m i) :
    Stored env hdr m' pos attrs := by
  induction attrs generalizing pos with
  | nil => trivial
  | cons a attrs ih =>
    rw [bodySizeCons] at same
    exact ⟨stored.1.keep fun i low high => same i low (by omega),
      ih stored.2 fun i low high => same i (by omega) (by omega)⟩

/- No attribute is so large that its size wraps in 32 bits. -/
def Sized (attrs : List Attr) : Prop := ∀ a ∈ attrs, attrSize a < 2 ^ 32

theorem sizedAppend {attrs more : List Attr} : Sized (attrs ++ more) ↔ Sized attrs ∧ Sized more := by
  simp only [Sized,List.mem_append,or_imp,forall_and]

theorem sizedSingle {a : Attr} : Sized [a] ↔ attrSize a < 2 ^ 32 := by simp [Sized]

/- The encoder behind these attributes: it has got to the end of them if their sizes do not wrap. -/
structure Laid (env : Env) (hdr : MsgHdr) (length : UInt16) (attrs : List Attr) (e : Encoding) : Prop where
  header : headerAt e.mem = { hdr with length := length }
  start : stunMsgHdrLen ≤ e.pos
  aligned : e.pos % 4 = 0
  most : e.pos ≤ stunMsgHdrLen + bodySize attrs
  whole : e.pos = stunMsgHdrLen + bodySize attrs ↔ Sized attrs
  stored : Sized attrs → Stored env hdr e.mem stunMsgHdrLen attrs

section Laying
variable {env : Env} {hdr : MsgHdr} {length : UInt16} {attrs : List Attr} {e : Encoding}

theorem Laid.patch (laid : Laid env hdr length attrs e) (v : UInt16) : Laid env hdr v attrs (e.put 2 (be16 v)) where
  header := by simp only [Encoding.put,headerPatch,laid.header]
  start := laid.start
  aligned := laid.aligned
  most := laid.most
  whole := laid.whole
  stored sized := (laid.stored sized).keep fun i low _ => writeAfter (by
    simp only [stunMsgHdrLen] at low
    rw [be16Length]
    omega)

theorem Laid.call (laid : Laid env hdr length attrs e) {a : Attr} {e' : Encoding}
    (done : e.call (encodeAttr env hdr a) = (.success, e')) :
    Laid env hdr length (attrs ++ [a]) e' ∧ ∀ i, i < e.pos → e'.mem i = e.mem i := by
  have size : bodySize (attrs ++ [a]) = bodySize attrs + attrSize a := by simp [bodySize]
  have success : (encodeAttr env hdr a (u32 e.bufSize.toNat)).status = .success := by rw [← callStatus,done]
  obtain ⟨-,quarter,printed,equal⟩ := encodeAttrReport success
  rw [callSuccess success] at done
  obtain rfl := (Prod.mk.inj done).2
  obtain ⟨header,start,aligned,most,whole,stored⟩ := laid
  simp only [stunMsgHdrLen] at start most whole
  have before : ∀ i, i < e.pos →
      ((e.put e.pos (encodeAttr env hdr a (u32 e.bufSize.toNat)).bytes).advance
        (encodeAttr env hdr a (u32 e.bufSize.toNat)).printed).mem i = e.mem i := fun i low => writeBefore low
  refine ⟨⟨?_,?_,?_,?_,?_,?_⟩,before⟩
  · rw [headerCongr fun i low => before i (by omega),header]
  · simp only [Encoding.advance,Encoding.put,stunMsgHdrLen]
    omega
  · simp only [Encoding.advance,Encoding.put]
    omega
  · simp only [Encoding.advance,Encoding.put,size,stunMsgHdrLen]
    omega
  · simp only [Encoding.advance,Encoding.put,size,stunMsgHdrLen,sizedAppend,sizedSingle,← whole,← equal]
    omega
  · intro sized
    obtain ⟨old,new⟩ := sizedAppend.mp sized
    have pos : e.pos = stunMsgHdrLen + bodySize attrs := whole.mpr old
    rw [storedAppend,← pos]
    exact ⟨(stored old).keep fun i _ high => before i (by omega),⟨u32 e.bufSize.toNat,success,holdsWrite _ _ _⟩,
      trivial⟩

theorem encodeAttrsLaid (more : List Attr) (laid : Laid env hdr length attrs e) {e' : Encoding}
    {stopped : List Attr} (done : encodeAttrs env hdr more e = (.success, e', stopped)) :
    ∃ encoded, more = encoded ++ stopped ∧ (∀ a ∈ encoded, stopsEncoding a = false) ∧
      (∀ a ∈ stopped.head?, stopsEncoding a = true) ∧ Laid env hdr length (attrs ++ encoded) e' := by
  induction more generalizing attrs e with
  | nil =>
    cases done
    exact ⟨[],rfl,by simp,by simp,by simpa using laid⟩
  | cons a more ih =>
    unfold encodeAttrs at done
    split at done
    · next stops =>
      cases done
      exact ⟨[],rfl,by simp,by simpa using stops,by simpa using laid⟩
    · next goes =>
      cases found : e.call (encodeAttr env hdr a) with
      | mk status =>
        rw [found] at done
        cases status with
        | success =>
          obtain ⟨encoded,same,going,stop,last⟩ := ih (laid.call found).1 done
          refine ⟨a :: encoded,by rw [same]; rfl,?_,stop,by simpa using last⟩
          intro b mem
          rcases List.mem_cons.mp mem with rfl | later
          · simpa using goes
          · exact going b later
        | _ => simp at done

/- The FINGERPRINT that an encoding ends with. -/
structure Stamped (env : Env) (m : Memory) (n : Nat) : Prop where
  type : typeAt m (n - 8) = attrFingerprint
  length : lengthAt m (n - 8) = 4
  value : word32 (m (n - 8 + 4)) (m (n - 8 + 4 + 1)) (m (n - 8 + 4 + 2)) (m (n - 8 + 4 + 3)) =
    env.crc32 (slice m 0 (n - 8)) ^^^ stunXorFingerprint

theorem fingerprintCall {e e' : Encoding} {value : UInt32}
    (done : e.call (encodeUintAttr attrFingerprint value) = (.success, e')) :
    e'.pos = e.pos + 8 ∧ (∀ i, i < e.pos → e'.mem i = e.mem i) ∧
      Holds e'.mem e.pos (be16 attrFingerprint ++ (be16 4 ++ be32 value)) := by
  have success : (encodeUintAttr attrFingerprint value (u32 e.bufSize.toNat)).status = .success := by
    rw [← callStatus,done]
  have printed : encodeUintAttr attrFingerprint value (u32 e.bufSize.toNat) =
      ⟨.success,be16 attrFingerprint ++ (be16 4 ++ be32 value),8⟩ := by
    unfold encodeUintAttr at success ⊢
    exact lengthChecked success
  rw [callSuccess success,printed] at done
  obtain rfl := (Prod.mk.inj done).2
  exact ⟨rfl,fun i low => writeBefore low,holdsWrite _ _ _⟩

theorem encodeFingerprintLaid (laid : Laid env hdr (UInt16.ofNat (e.pos - stunMsgHdrLen)) attrs e)
    {afingerprint : Option Attr} (typed : ∀ f ∈ afingerprint, f.type = attrFingerprint)
    {hmac : Option (Fin 20 → UInt8)} {n : Nat} {r : EncodeResult}
    (result : encodeFingerprint env hmac e afingerprint = r) (done : r.msgLen = some n) :
    r.hmac = hmac ∧ n = r.encoding.pos ∧ n = e.pos + bodySize afingerprint.toList ∧
      Laid env hdr (UInt16.ofNat (n - stunMsgHdrLen)) (attrs ++ afingerprint.toList.map r.fill) r.encoding ∧
      (afingerprint.isSome → Stamped env r.encoding.mem n) := by
  cases afingerprint with
  | none =>
    subst result
    have same : e.pos = n := Option.some.inj done
    subst same
    exact ⟨rfl,rfl,rfl,by simpa [encodeFingerprint] using laid,by simp⟩
  | some a =>
    have size : bodySize [a] = 8 := (Nat.add_zero _).trans (fingerprintSize (typed a rfl))
    obtain ⟨type,created,body,fits⟩ := a
    obtain rfl : type = attrFingerprint := typed _ rfl
    cases body with
    | uint old =>
      have field : word16 (e.mem 2) (e.mem 3) = UInt16.ofNat (e.pos - stunMsgHdrLen) :=
        congrArg MsgHdr.length laid.header
      have patched := laid.patch (word16 (e.mem 2) (e.mem 3) + 8)
      simp only [encodeFingerprint] at result
      generalize patchDef : e.put 2 (be16 (word16 (e.mem 2) (e.mem 3) + 8)) = p at result patched
      have start : p.pos = e.pos := by rw [← patchDef]; rfl
      generalize crc : env.crc32 (slice p.mem 0 p.pos) ^^^ stunXorFingerprint = value at result
      cases found : p.call (encodeUintAttr attrFingerprint value) with
      | mk status next =>
        rw [found] at result
        cases status with
        | success =>
          subst result
          have length : next.pos = n := Option.some.inj done
          obtain ⟨moved,before,holds⟩ := fingerprintCall found
          have filled : EncodeResult.fill ⟨.success,next,hmac,some value,some next.pos⟩
              ⟨attrFingerprint,created,.uint old,fits⟩ = ⟨attrFingerprint,created,.uint value,fits⟩ := by
            simp [EncodeResult.fill,EncodeResult.body]
          obtain ⟨called,-⟩ := @Laid.call env hdr _ attrs p patched
            ⟨attrFingerprint,created,.uint value,fits⟩ next found
          have back : n - 8 = p.pos := by omega
          have long := laid.start
          simp only [stunMsgHdrLen] at long
          have word : UInt16.ofNat (n - stunMsgHdrLen) = word16 (e.mem 2) (e.mem 3) + 8 := by
            rw [field,show n - stunMsgHdrLen = (e.pos - stunMsgHdrLen) + 8 by simp only [stunMsgHdrLen]; omega,
              UInt16.ofNat_add]
            rfl
          refine ⟨rfl,length.symm,?_,?_,fun _ => ?_⟩
          · show n = e.pos + bodySize [_]
            rw [size]
            omega
          · show Laid env hdr _ (attrs ++ [EncodeResult.fill _ _]) next
            rw [filled,word]
            exact called
          · obtain ⟨type,rest⟩ := holdsAppend.mp holds
            obtain ⟨length,word⟩ := holdsAppend.mp rest
            refine ⟨?_,?_,?_⟩
            · rw [back]
              exact holdsBe16 type
            · rw [back]
              exact holdsBe16 length
            · rw [back,← sliceCongr fun i _ high => (before i (by omega)).symm,crc]
              exact holdsBe32 word
        | _ =>
          subst result
          simp at done
    | _ => simp [Body.fits,show findAttrDesc attrFingerprint = some .uint by decide] at fits

theorem encodeIntegrityLaid {msg : Msg} {key : Option (List UInt8)} {a : Attr}
    (laid : Laid env hdr (UInt16.ofNat (e.pos - stunMsgHdrLen + 24)) attrs e)
    (isIntegrity : a.type = attrMessageIntegrity) {afingerprint : Option Attr}
    (typed : ∀ f ∈ afingerprint, f.type = attrFingerprint) {n : Nat} {r : EncodeResult}
    (result : encodeIntegrity env msg key msg.attrs.length e afingerprint (some a) = r) (done : r.msgLen = some n) :
    n = r.encoding.pos ∧ n = e.pos + bodySize (a :: afingerprint.toList) ∧
      Laid env hdr (UInt16.ofNat (n - stunMsgHdrLen)) (attrs ++ (a :: afingerprint.toList).map r.fill) r.encoding ∧
      (afingerprint.isSome → Stamped env r.encoding.mem n) := by
  cases key with
  | none =>
    subst result
    simp [encodeIntegrity] at done
  | some key =>
    rw [encodeIntegrityEq] at result
    obtain ⟨created,old,fits,rfl⟩ := integrityBody isIntegrity
    generalize env.hmacSha1 key (slice e.mem 0 e.pos) = hmac at result
    cases found : e.call (encodeMsgintAttr attrMessageIntegrity created hmac) with
    | mk status next =>
      rw [found] at result
      cases status with
      | success =>
        obtain ⟨called,-⟩ := @Laid.call env hdr _ attrs e laid ⟨attrMessageIntegrity,created,.msgint hmac,fits⟩
          next found
        have moved : next.pos = e.pos + 24 := by
          have success : (encodeMsgintAttr attrMessageIntegrity created hmac (u32 e.bufSize.toNat)).status =
              .success := by rw [← callStatus,found]
          have printed : encodeMsgintAttr attrMessageIntegrity created hmac (u32 e.bufSize.toNat) =
              ⟨.success,be16 attrMessageIntegrity ++ (be16 created ++ List.ofFn hmac),24⟩ := by
            unfold encodeMsgintAttr at success ⊢
            exact lengthChecked success
          rw [callSuccess success,printed] at found
          obtain rfl := (Prod.mk.inj found).2
          rfl
        have start := laid.start
        rw [show e.pos - stunMsgHdrLen + 24 = next.pos - stunMsgHdrLen by rw [moved]; omega] at called
        obtain ⟨stored,length,size,last,stamped⟩ := encodeFingerprintLaid called typed result done
        have filled : r.fill ⟨attrMessageIntegrity,created,.msgint old,fits⟩ =
            ⟨attrMessageIntegrity,created,.msgint hmac,fits⟩ := by
          simp [EncodeResult.fill,EncodeResult.body,stored]
        refine ⟨length,?_,?_,stamped⟩
        · rw [size,moved,bodySizeCons,Nat.add_assoc]
          rfl
        · rw [List.map_cons,filled]
          simpa using last
      | _ =>
        subst result
        simp at done

end Laying

theorem scanRestShape {a : Attr} {rest : List Attr} {amsgint afingerprint : Option Attr}
    (found : scanRest (some a) none rest = .ok (amsgint, afingerprint)) :
    amsgint = some a ∧ (∀ f ∈ afingerprint, f.type = attrFingerprint) ∧
      ∃ middle, rest = middle ++ afingerprint.toList ∧ ∀ b ∈ middle, stopsEncoding b = false := by
  induction rest with
  | nil =>
    cases found
    exact ⟨rfl,by simp,[],rfl,by simp⟩
  | cons b rest ih =>
    simp only [scanRest,Option.isSome_none,Bool.false_eq_true,if_false,Option.isSome_some,if_true] at found
    split at found
    · cases found
    · next other =>
      split at found
      · next fingerprint =>
        -- behind a FINGERPRINT everything is refused
        cases rest with
        | nil =>
          cases found
          exact ⟨rfl,by simpa using fingerprint,[],rfl,by simp⟩
        | cons => simp [scanRest] at found
      · next plain =>
        obtain ⟨same,typed,middle,shape,going⟩ := ih found
        refine ⟨same,typed,b :: middle,by rw [shape]; rfl,fun c mem => ?_⟩
        rcases List.mem_cons.mp mem with rfl | later
        · simp [stopsEncoding,other,plain]
        · exact going c later

theorem scanStoppedShape {stopped : List Attr} {amsgint afingerprint : Option Attr}
    (stop : ∀ a ∈ stopped.head?, stopsEncoding a = true)
    (found : scanStopped stopped = .ok (amsgint, afingerprint)) :
    (∀ a ∈ amsgint, a.type = attrMessageIntegrity) ∧ (∀ f ∈ afingerprint, f.type = attrFingerprint) ∧
      ∃ middle, stopped = amsgint.toList ++ (middle ++ afingerprint.toList) ∧
        (∀ b ∈ middle, stopsEncoding b = false) ∧ (amsgint = none → middle = []) := by
  cases stopped with
  | nil =>
    cases found
    exact ⟨by simp,by simp,[],rfl,by simp,fun _ => rfl⟩
  | cons a rest =>
    by_cases integrity : a.type = attrMessageIntegrity
    · rw [scanStopped,if_pos integrity] at found
      obtain ⟨rfl,typed,middle,rfl,going⟩ := scanRestShape found
      exact ⟨by simpa using integrity,typed,middle,rfl,going,fun none_ => by cases none_⟩
    · have fingerprint : a.type = attrFingerprint := by
        have stops := stop a rfl
        simpa [stopsEncoding,integrity] using stops
      rw [scanStopped,if_neg integrity] at found
      cases rest with
      | nil =>
        cases found
        exact ⟨by simp,by simpa using fingerprint,[],rfl,by simp,fun _ => rfl⟩
      | cons => simp [scanRest] at found

/- What a successful call of the encoder has made, for any message. -/
structure Outline (env : Env) (msg : Msg) (r : EncodeResult) (n : Nat) (pre middle : List Attr)
    (amsgint afingerprint : Option Attr) : Prop where
  shape : msg.attrs = pre ++ (amsgint.toList ++ (middle ++ afingerprint.toList))
  plain : ∀ a ∈ pre, stopsEncoding a = false
  passed : ∀ a ∈ middle, stopsEncoding a = false
  unsigned : amsgint = none → middle = []
  integrity : ∀ a ∈ amsgint, a.type = attrMessageIntegrity
  fingerprint : ∀ f ∈ afingerprint, f.type = attrFingerprint
  length : n = r.encoding.pos
  packet : Laid env msg.hdr (UInt16.ofNat (n - stunMsgHdrLen))
    ((pre ++ (amsgint.toList ++ afingerprint.toList)).map r.fill) r.encoding
  stamped : afingerprint.isSome → Stamped env r.encoding.mem n

theorem encodeOutline {env : Env} {msg : Msg} {buf : Memory} {bufSize : UInt64} {key : Option (List UInt8)}
    {r : EncodeResult} {n : Nat} (result : stunMsgEncode env msg buf bufSize key = r) (done : r.msgLen = some n) :
    ∃ pre middle amsgint afingerprint, Outline env msg r n pre middle amsgint afingerprint := by
  rw [encodeEq] at result
  split at result
  · subst result
    simp at done
  split at result
  · subst result
    simp at done
  have first : Laid env msg.hdr 0 [] (afterHeader msg buf bufSize) :=
    ⟨headerWritten (holdsWrite buf 0 (putHeader msg.hdr)),Nat.le_refl 20,show 20 % 4 = 0 from rfl,Nat.le_refl 20,
      ⟨fun _ a mem => (List.not_mem_nil mem).elim,fun _ => rfl⟩,fun _ => trivial⟩
  unfold encodeRest at result
  cases found : encodeAttrs env msg.hdr msg.attrs (afterHeader msg buf bufSize) with
  | mk status rest =>
    obtain ⟨e,stopped⟩ := rest
    rw [found] at result
    cases status with
    | success =>
      obtain ⟨pre,shape,plain,stop,laid⟩ := encodeAttrsLaid msg.attrs first found
      rw [List.nil_append] at laid
      cases scanned : scanStopped stopped with
      | error =>
        simp only [scanned] at result
        subst result
        simp at done
      | ok pair =>
        obtain ⟨amsgint,afingerprint⟩ := pair
        obtain ⟨integrity,fingerprint,middle,rest,passed,unsigned⟩ := scanStoppedShape stop scanned
        simp only [scanned] at result
        rw [rest] at shape
        have patched := laid.patch (bodyLength amsgint e.pos)
        refine ⟨pre,middle,amsgint,afingerprint,?_⟩
        cases amsgint with
        | none =>
          obtain ⟨-,length,-,last,stamped⟩ := encodeFingerprintLaid patched fingerprint result done
          refine ⟨shape,plain,passed,unsigned,integrity,fingerprint,length,?_,stamped⟩
          simpa [fillPre r plain] using last
        | some a =>
          obtain ⟨length,-,last,stamped⟩ :=
            encodeIntegrityLaid patched (integrity a rfl) fingerprint result done
          refine ⟨shape,plain,passed,unsigned,integrity,fingerprint,length,?_,stamped⟩
          rw [List.map_append,fillPre r plain]
          exact last
    | _ =>
      subst result
      simp at done

/- The packet is the header and the encodings of all attributes, one behind the other. -/
structure Complete (env : Env) (msg : Msg) (r : EncodeResult) (n : Nat) : Prop where
  length : n = stunMsgHdrLen + bodySize msg.attrs
  stored : Stored env msg.hdr r.encoding.mem stunMsgHdrLen (msg.attrs.map r.fill)

theorem attrSizePositive (a : Attr) : 0 < attrSize a := by
  obtain ⟨type,length,body,fits⟩ := a
  cases body with
  | _ => simp only [attrSize]; omega

theorem bodySizeZero {attrs : List Attr} (zero : bodySize attrs = 0) : attrs = [] := by
  cases attrs with
  | nil => rfl
  | cons a =>
    have positive := attrSizePositive a
    rw [bodySizeCons] at zero
    omega

theorem sizedFill (r : EncodeResult) (attrs : List Attr) : Sized (attrs.map r.fill) ↔ Sized attrs := by
  simp only [Sized,List.mem_map,forall_exists_index,and_imp,forall_apply_eq_imp_iff₂,attrSizeFill]

theorem Outline.tailedIff {env : Env} {msg : Msg} {r : EncodeResult} {n : Nat} {pre middle : List Attr}
    {amsgint afingerprint : Option Attr} (outline : Outline env msg r n pre middle amsgint afingerprint) :
    Tailed msg.attrs ↔ middle = [] := by
  have before : ∀ a ∈ pre, a.type ≠ attrMessageIntegrity := by
    intro a mem integrity
    have goes := outline.plain a mem
    simp [stopsEncoding,integrity] at goes
  rw [outline.shape,tailedDrop before]
  have typed := outline.fingerprint
  have passed := outline.passed
  cases found : amsgint with
  | none =>
    rw [outline.unsigned found]
    refine ⟨fun _ => rfl,fun _ => ?_⟩
    cases afingerprint with
    | none => trivial
    | some f =>
      show Tailed [f]
      rw [Tailed,if_neg (by rw [typed f rfl]; decide)]
      trivial
  | some a =>
    show Tailed (a :: (middle ++ afingerprint.toList)) ↔ _
    rw [Tailed,if_pos (outline.integrity a found)]
    constructor
    · rintro (none_ | ⟨f,one,fingerprint⟩)
      · exact (List.append_eq_nil_iff.mp none_).1
      · cases middle with
        | nil => rfl
        | cons b =>
          have same : b = f := (List.cons.inj one).1
          have goes := passed b List.mem_cons_self
          rw [same] at goes
          simp [stopsEncoding,fingerprint] at goes
    · rintro rfl
      cases afingerprint with
      | none => exact .inl rfl
      | some f => exact .inr ⟨f,rfl,typed f rfl⟩

/- A packet that the encoder returns has all attributes of the message exactly if none but a FINGERPRINT stands
behind MESSAGE-INTEGRITY and none is so large that its size wraps. -/
theorem encodesEvery (env : Env) (msg : Msg) (buf : Memory) (bufSize : UInt64) (key : Option (List UInt8)) (n : Nat)
    (done : (stunMsgEncode env msg buf bufSize key).msgLen = some n) :
    Complete env msg (stunMsgEncode env msg buf bufSize key) n ↔ Tailed msg.attrs ∧ Sized msg.attrs := by
  obtain ⟨pre,middle,amsgint,afingerprint,outline⟩ := encodeOutline rfl done
  have packet := outline.packet
  generalize stunMsgEncode env msg buf bufSize key = r at outline packet
  have size : bodySize msg.attrs =
      bodySize (pre ++ (amsgint.toList ++ afingerprint.toList)) + bodySize middle := by
    rw [outline.shape]
    simp only [bodySizeAppend]
    omega
  have most := packet.most
  rw [bodySizeFill,← outline.length] at most
  rw [outline.tailedIff]
  constructor
  · rintro ⟨length,-⟩
    have none_ : middle = [] := bodySizeZero (by omega)
    refine ⟨none_,?_⟩
    have whole : Sized ((pre ++ (amsgint.toList ++ afingerprint.toList)).map r.fill) := by
      rw [← packet.whole,bodySizeFill,← outline.length]
      omega
    rw [sizedFill] at whole
    rw [outline.shape,none_]
    exact whole
  · rintro ⟨rfl,sized⟩
    have shape : msg.attrs = pre ++ (amsgint.toList ++ afingerprint.toList) := outline.shape
    rw [shape] at sized
    have whole := (sizedFill r _).mpr sized
    refine ⟨?_,?_⟩
    · rw [shape,outline.length,packet.whole.mpr whole,bodySizeFill]
    · rw [shape]
      exact packet.stored whole

theorem softwareRequestComplete :
    Complete plainEnv softwareRequest (stunMsgEncode plainEnv softwareRequest (fun _ => 255) 100 none) 36 := by
  refine (encodesEvery plainEnv softwareRequest (fun _ => 255) 100 none 36 (by decide +kernel)).mpr ⟨?_,?_⟩
  · simp [softwareRequest,Tailed,stringAttrCreate,uintAttrCreate,attrSoftware,attrFingerprint,
      attrMessageIntegrity]
  · intro a mem
    simp only [softwareRequest,List.mem_cons,List.not_mem_nil,or_false] at mem
    rcases mem with rfl | rfl <;> decide

/- A SOFTWARE that the application has added behind MESSAGE-INTEGRITY. -/
def softwareBehindIntegrity : Msg :=
  ⟨⟨0x0001,0,stunMagic,fun _ => 7⟩,[msgintAttrCreate,stringAttrCreate attrSoftware [112] softwareIsString],by decide⟩

theorem softwareDropped :
    (stunMsgEncode plainEnv softwareBehindIntegrity (fun _ => 0) 200 (some [49])).status = .success ∧
      (stunMsgEncode plainEnv softwareBehindIntegrity (fun _ => 0) 200 (some [49])).msgLen = some 44 ∧
      ¬ Complete plainEnv softwareBehindIntegrity
        (stunMsgEncode plainEnv softwareBehindIntegrity (fun _ => 0) 200 (some [49])) 44 := by
  refine ⟨by decide +kernel,by decide +kernel,fun complete => ?_⟩
  have length := complete.length
  exact absurd length (by decide)

end Pjproject.Stun
