import Pjproject.StunIntegrity

/-! What the authentication of a request depends on. Two packets with the same bytes up to
the end of MESSAGE-INTEGRITY decode to the same attributes up to there and give the same
digest; the user name, the realm and the nonce, however, are looked up in the whole message. -/
namespace Pjproject.Stun
open Lib.Bytes

section Reading
variable {p q : Memory} {pos n : Nat}

def SameBytes (p q : Memory) (pos n : Nat) : Prop := ∀ i, pos ≤ i → i < pos + n → q i = p i

variable {len i : Nat} {length : UInt16}

theorem SameBytes.slice (same : SameBytes p q pos n) {at' : Nat} (low : pos ≤ at') (high : at' + len ≤ pos + n) :
    Lib.Bytes.slice q at' len = Lib.Bytes.slice p at' len :=
  sliceCongr fun i below above => same i (by omega) (by omega)

theorem SameBytes.word16 (same : SameBytes p q pos n) (low : pos ≤ i) (high : i + 2 ≤ pos + n) :
    Lib.Bytes.word16 (q i) (q (i + 1)) = Lib.Bytes.word16 (p i) (p (i + 1)) := by
  rw [same i low (by omega),same (i + 1) (by omega) (by omega)]

theorem SameBytes.word32 (same : SameBytes p q pos n) (low : pos ≤ i) (high : i + 4 ≤ pos + n) :
    Lib.Bytes.word32 (q i) (q (i + 1)) (q (i + 2)) (q (i + 3)) =
      Lib.Bytes.word32 (p i) (p (i + 1)) (p (i + 2)) (p (i + 3)) := by
  rw [same i low (by omega),same (i + 1) (by omega) (by omega),same (i + 2) (by omega) (by omega),
    same (i + 3) (by omega) (by omega)]

theorem SameBytes.array (same : SameBytes p q pos n) (low : pos ≤ i) (high : i + len ≤ pos + n) :
    (fun k : Fin len => q (i + k)) = fun k : Fin len => p (i + k) :=
  funext fun k => same _ (by omega) (by omega)

theorem SameBytes.words (same : SameBytes p q pos n) (low : pos ≤ i) (high : i + 2 * len ≤ pos + n) :
    Lib.Bytes.words q i len = Lib.Bytes.words p i len := by
  induction len generalizing i with
  | zero => rfl
  | succ len ih =>
    simp only [Lib.Bytes.words]
    rw [same.word16 low (by omega),ih (by omega) (by omega)]

theorem decodeSockaddrCongr {addr : SockAddr} (same : SameBytes p q pos (length.toNat + 4))
    (done : (decodeSockaddr p pos length).result = .ok addr) : (decodeSockaddr q pos length).result = .ok addr := by
  unfold decodeSockaddr at done ⊢
  split at done
  · simp at done
  · rename_i sized
    have long : 8 ≤ length.toNat := by
      by_cases eight : length = 8
      · simp [eight]
      · by_cases twenty : length = 20
        · simp [twenty]
        · exact absurd ⟨eight,twenty⟩ sized
    rw [if_neg sized]
    simp only [readByteResult,attrHdrLen] at done ⊢
    rw [same _ (by omega) (by omega)]
    split at done
    · rename_i family
      rw [if_pos family]
      split at done
      · simp at done
      · rename_i eight
        have size : length.toNat = 8 := by
          simp only [ne_eq,Decidable.not_not] at eight
          simp [eight]
        rw [if_neg eight]
        simp only [read16Result,readArrayBind] at done ⊢
        rw [same.word16 (by omega) (by omega),same.array (by omega) (by omega)]
        exact done
    · rename_i other
      rw [if_neg other]
      split at done
      · rename_i family
        rw [if_pos family]
        split at done
        · simp at done
        · rename_i twenty
          have size : length.toNat = 20 := by
            simp only [ne_eq,Decidable.not_not] at twenty
            simp [twenty]
          rw [if_neg twenty]
          simp only [read16Result,readArrayBind] at done ⊢
          rw [same.word16 (by omega) (by omega),same.array (by omega) (by omega)]
          exact done
      · simp at done

theorem decodeAttrCongr {hdr hdr' : MsgHdr} {attrType : UInt16} {kind : AttrKind}
    {desc : findAttrDesc attrType = some kind} {attr : Attr} (tsxId : hdr'.tsxId = hdr.tsxId)
    (same : SameBytes p q pos (length.toNat + 4))
    (done : (decodeAttr hdr p pos attrType length kind desc).result = .ok attr) :
    (decodeAttr hdr' q pos attrType length kind desc).result = .ok attr := by
  cases kind with
  | sockaddr =>
    simp only [decodeAttr,decodeSockaddrAttr] at done ⊢
    cases found : (decodeSockaddr p pos length).result with
    | error => simp [bindError found] at done
    | ok =>
      rw [bindOk found] at done
      rw [bindOk (decodeSockaddrCongr same found)]
      exact done
  | xoredSockaddr =>
    simp only [decodeAttr,decodeXoredSockaddrAttr] at done ⊢
    cases found : (decodeSockaddr p pos length).result with
    | error => simp [bindError found] at done
    | ok =>
      rw [bindOk found] at done
      rw [bindOk (decodeSockaddrCongr same found)]
      simp only [xorAddrCongr tsxId]
      exact done
  | string =>
    simp only [decodeAttr,decodeStringAttr,readSliceResult,attrHdrLen] at done ⊢
    rw [same.slice (by omega) (by omega)]
    exact done
  | empty => exact done
  | uint =>
    simp only [decodeAttr,decodeUintAttr,read32Result] at done ⊢
    split at done
    · simp at done
    · rename_i four
      have size : length.toNat = 4 := by
        simp only [ne_eq,Decidable.not_not] at four
        simp [four]
      rw [if_neg four,same.word32 (by omega) (by omega)]
      exact done
  | uint64 =>
    simp only [decodeAttr,decodeUint64Attr] at done ⊢
    split at done
    · simp at done
    · rename_i eight
      have size : length.toNat = 8 := by
        simp only [ne_eq,Decidable.not_not] at eight
        simp [eight]
      rw [if_neg eight]
      simp only [read32Result] at done ⊢
      rw [same.word32 (by omega) (by omega),same.word32 (by omega) (by omega)]
      exact done
  | msgint =>
    simp only [decodeAttr,decodeMsgintAttr] at done ⊢
    split at done
    · simp at done
    · rename_i twenty
      have size : length.toNat = 20 := by
        simp only [ne_eq,Decidable.not_not] at twenty
        simp [twenty]
      rw [if_neg twenty]
      simp only [readArrayBind] at done ⊢
      rw [same.array (by omega) (by omega)]
      exact done
  | errcode =>
    simp only [decodeAttr,decodeErrcodeAttr,readByteResult] at done ⊢
    split at done
    · simp at done
    · rename_i long
      have size : 4 ≤ length.toNat := by
        simpa [UInt16.lt_iff_toNat_lt] using long
      rw [if_neg long]
      simp only [readSliceResult,attrHdrLen] at done ⊢
      rw [same.slice (by omega) (by omega),same _ (by omega) (by omega),same _ (by omega) (by omega)]
      exact done
  | unknown =>
    simp only [decodeAttr,decodeUnknownAttr] at done ⊢
    split at done
    · simp at done
    · rename_i few
      rw [dif_neg few]
      simp only [attrHdrLen,same.words (show pos ≤ pos + 4 by omega)
        (show pos + 4 + 2 * (length.toNat / 2) ≤ pos + (length.toNat + 4) by omega)]
      exact done
  | binary =>
    simp only [decodeAttr,decodeBinaryAttr,readSliceResult,attrHdrLen] at done ⊢
    simp only [same.slice (show pos ≤ pos + 4 by omega)
      (show pos + 4 + length.toNat ≤ pos + (length.toNat + 4) by omega)]
    exact done

theorem decodeGenericCongr {attrType : UInt16} {desc : findAttrDesc attrType = none} {attr : Attr}
    (same : SameBytes p q pos (length.toNat + 4))
    (done : (decodeGenericAttr p pos attrType length desc).result = .ok attr) :
    (decodeGenericAttr q pos attrType length desc).result = .ok attr := by
  simp only [decodeGenericAttr,readSliceResult,attrHdrLen] at done ⊢
  simp only [same.slice (show pos ≤ pos + 4 by omega)
    (show pos + 4 + length.toNat ≤ pos + (length.toNat + 4) by omega)]
  exact done

end Reading

variable {pdu : Memory} {attrType : UInt16} {attr a : Attr} {msgInt fingerprint : Bool} {next : Walk} {env : Env}
  {msg m : Msg} {pre post : List Attr} {md5 : List UInt8 → List UInt8} {hmacOk : List UInt8 → Bool}

theorem decodeAttrHeader {hdr : MsgHdr} {pos : Nat} {length : UInt16} {kind : AttrKind}
    {desc : findAttrDesc attrType = some kind}
    (done : (decodeAttr hdr pdu pos attrType length kind desc).result = .ok attr) :
    attr.type = attrType ∧ attr.length = length ∧ (kind = .msgint → length = 20) := by
  cases kind with
  | sockaddr =>
    simp only [decodeAttr,decodeSockaddrAttr] at done
    cases found : (decodeSockaddr pdu pos length).result with
    | error => simp [bindError found] at done
    | ok =>
      rw [bindOk found] at done
      cases done
      simp
  | xoredSockaddr =>
    simp only [decodeAttr,decodeXoredSockaddrAttr] at done
    cases found : (decodeSockaddr pdu pos length).result with
    | error => simp [bindError found] at done
    | ok =>
      rw [bindOk found] at done
      cases done
      simp
  | empty =>
    simp only [decodeAttr,decodeEmptyAttr] at done
    split at done
    · simp at done
    · cases done
      simp
  | uint =>
    simp only [decodeAttr,decodeUintAttr,read32Result] at done
    split at done
    · simp at done
    · cases done
      simp
  | uint64 =>
    simp only [decodeAttr,decodeUint64Attr] at done
    split at done
    · simp at done
    · cases done
      simp
  | msgint =>
    simp only [decodeAttr,decodeMsgintAttr] at done
    split at done
    · simp at done
    · rename_i twenty
      cases done
      simpa using twenty
  | errcode =>
    simp only [decodeAttr,decodeErrcodeAttr,readByteResult] at done
    split at done
    · simp at done
    · cases done
      simp
  | unknown =>
    simp only [decodeAttr,decodeUnknownAttr] at done
    split at done
    · simp at done
    · cases done
      simp
  | string =>
    cases done
    simp
  | binary =>
    cases done
    simp

theorem checkOrderInv {hasMsgInt hasFingerprint : Bool}
    (done : checkOrder attrType hasMsgInt hasFingerprint = .ok (msgInt, fingerprint)) :
    if attrType = attrMessageIntegrity then hasMsgInt = false ∧ msgInt = true else msgInt = hasMsgInt := by
  unfold checkOrder at done
  by_cases integrity : attrType = attrMessageIntegrity
  · have other : ¬ attrMessageIntegrity = attrFingerprint := by decide
    rw [if_pos integrity]
    subst integrity
    cases hasFingerprint <;> cases hasMsgInt <;> simp_all
  · rw [if_neg integrity]
    rw [if_neg fun both => integrity both.1] at done
    split at done
    · split at done
      · simp at done
      · cases done
        rfl
    · split at done
      · simp at done
      · cases done
        rfl

structure Round (pdu : Memory) (w next : Walk) (attr : Attr) : Prop where
  attrs : next.attrs = w.attrs ++ [attr]
  type : attr.type = typeAt pdu w.pos
  length : attr.length = lengthAt pdu w.pos
  sum : next.pos + next.remaining = w.pos + w.remaining
  size : pad4 attr.length.toNat + 4 ≤ w.remaining → next.pos = w.pos + (pad4 attr.length.toNat + 4)
  integrity : if attr.type = attrMessageIntegrity then
    attr.length = 20 ∧ w.hasMsgInt = false ∧ next.hasMsgInt = true else next.hasMsgInt = w.hasMsgInt

theorem addPos {w : Walk} {len : Nat} (done : (w.add len attr msgInt fingerprint).result = .ok next) :
    next.hasMsgInt = msgInt ∧ (len + 4 ≤ w.remaining → next.pos = w.pos + (len + 4)) := by
  unfold Walk.add at done
  split at done
  · cases done
    refine ⟨rfl,fun enough => ?_⟩
    simp only
    split <;> omega
  · simp at done

theorem walkStepRound {hdr : MsgHdr} {w : Walk}
    (done : (walkStep hdr pdu w).result = .ok next) : ∃ attr, Round pdu w next attr := by
  unfold walkStep at done
  simp only [read16Result] at done
  split at done
  · simp at done
  split at done
  · rename_i desc
    split at done
    · simp at done
    split at done
    · simp at done
    cases found : (decodeGenericAttr pdu w.pos (typeAt pdu w.pos) (lengthAt pdu w.pos) desc).result with
    | error => simp [bindError found] at done
    | ok attr =>
      rw [bindOk found] at done
      have length : attr.length = lengthAt pdu w.pos := by
        cases found
        simp [binaryAttrCreate,sliceLength]
      have type : attr.type = typeAt pdu w.pos := by
        cases found
        rfl
      obtain ⟨attrs,sum,_⟩ := addOk done
      obtain ⟨flag,pos⟩ := addPos done
      refine ⟨attr,attrs,type,length,sum,by rw [length]; exact pos,?_⟩
      rw [if_neg]
      · exact flag
      · intro integrity
        have known : findAttrDesc (typeAt pdu w.pos) = some .msgint := by
          rw [← type,integrity]
          decide
        rw [desc] at known
        simp at known
  · rename_i kind desc
    cases found : (decodeAttr hdr pdu w.pos (typeAt pdu w.pos) (lengthAt pdu w.pos) kind desc).result with
    | error => simp [bindError found] at done
    | ok attr =>
      rw [bindOk found] at done
      simp only at done
      obtain ⟨type,length,twenty⟩ := decodeAttrHeader found
      cases ordered : checkOrder (typeAt pdu w.pos) w.hasMsgInt w.hasFingerprint with
      | error => simp [ordered] at done
      | ok flags =>
        obtain ⟨msgInt,fingerprint⟩ := flags
        simp only [ordered] at done
        obtain ⟨attrs,sum,_⟩ := addOk done
        obtain ⟨flag,pos⟩ := addPos done
        have order := checkOrderInv ordered
        refine ⟨attr,attrs,type,length,sum,by rw [length]; exact pos,?_⟩
        rw [type,length,flag]
        split at order
        · rename_i integrity
          have kinds : some kind = some .msgint := by
            rw [← desc,show word16 (pdu w.pos) (pdu (w.pos + 1)) = attrMessageIntegrity from integrity]
            decide
          rw [if_pos integrity]
          exact ⟨twenty (Option.some.inj kinds),order⟩
        · rename_i other
          rw [if_neg other]
          exact order

structure SameWalk (w w' : Walk) : Prop where
  pos : w'.pos = w.pos
  attrs : w'.attrs = w.attrs
  hasMsgInt : w'.hasMsgInt = w.hasMsgInt
  hasFingerprint : w'.hasFingerprint = w.hasFingerprint

theorem firstWalkSame (hdr hdr' : MsgHdr) : SameWalk (firstWalk hdr) (firstWalk hdr') := ⟨rfl,rfl,rfl,rfl⟩

theorem SameWalk.add {w w' : Walk} (same : SameWalk w w') {len : Nat}
    (room : len + 4 ≤ w.remaining) (room' : len + 4 ≤ w'.remaining)
    (done : (w.add len attr msgInt fingerprint).result = .ok next) :
    ∃ next', (w'.add len attr msgInt fingerprint).result = .ok next' ∧ SameWalk next next' := by
  unfold Walk.add at done ⊢
  split at done
  · rename_i few
    rw [dif_pos (by rw [same.attrs]; exact few)]
    cases done
    refine ⟨_,rfl,?_,by simp only [same.attrs],rfl,rfl⟩
    simp only [same.pos]
    split <;> split <;> omega
  · simp at done

theorem walkStepCongr {hdr hdr' : MsgHdr} {p q : Memory} {w w' : Walk} (tsxId : hdr'.tsxId = hdr.tsxId)
    (same : SameWalk w w') (done : (walkStep hdr p w).result = .ok next)
    (bytes : SameBytes p q w.pos (pad4 (lengthAt p w.pos).toNat + 4))
    (room : pad4 (lengthAt p w.pos).toNat + 4 ≤ w.remaining)
    (room' : pad4 (lengthAt p w.pos).toNat + 4 ≤ w'.remaining) :
    ∃ next', (walkStep hdr' q w').result = .ok next' ∧ SameWalk next next' := by
  have inner : SameBytes p q w.pos ((lengthAt p w.pos).toNat + 4) := fun i low high =>
    bytes i low (by have := (pad4Le (lengthAt p w.pos).toNat).1; omega)
  unfold walkStep at done ⊢
  simp only [read16Result] at done ⊢
  rw [same.pos,bytes.word16 (by omega) (by omega),bytes.word16 (by omega) (by omega)]
  split at done
  · simp at done
  rw [if_neg (by unfold lengthAt at room'; omega)]
  split at done
  · rename_i desc
    split at done
    · simp at done
    split at done
    · simp at done
    rename_i optional few
    cases found : (decodeGenericAttr p w.pos (typeAt p w.pos) (lengthAt p w.pos) desc).result with
    | error => simp [bindError found] at done
    | ok =>
      rw [bindOk found] at done
      obtain ⟨next',added,sameNext⟩ := same.add room room' done
      refine ⟨next',?_,sameNext⟩
      rw [if_neg optional,if_neg (by rw [same.attrs]; exact few),bindOk (decodeGenericCongr inner found),
        same.hasMsgInt,same.hasFingerprint]
      exact added
  · rename_i kind desc
    cases found : (decodeAttr hdr p w.pos (typeAt p w.pos) (lengthAt p w.pos) kind desc).result with
    | error => simp [bindError found] at done
    | ok =>
      rw [bindOk found] at done
      simp only at done
      cases ordered : checkOrder (typeAt p w.pos) w.hasMsgInt w.hasFingerprint with
      | error => simp [ordered] at done
      | ok flags =>
        obtain ⟨msgInt,fingerprint⟩ := flags
        simp only [ordered] at done
        obtain ⟨next',added,sameNext⟩ := same.add room room' done
        refine ⟨next',?_,sameNext⟩
        rw [bindOk (decodeAttrCongr tsxId inner found)]
        simp only [same.hasMsgInt,same.hasFingerprint,ordered]
        exact added

section Runs
variable {hdr hdr' : MsgHdr} {p q : Memory} {w w' last : Walk}

theorem Visits.grows (visits : Visits hdr p w last) : ∃ more, last.attrs = w.attrs ++ more := by
  induction visits with
  | start => exact ⟨[],by simp⟩
  | step _ done _ ih =>
    obtain ⟨attr,round⟩ := walkStepRound done
    obtain ⟨more,attrs⟩ := ih
    exact ⟨attr :: more,by rw [attrs,round.attrs,List.append_assoc]; rfl⟩

def isIntegrity (a : Attr) : Bool := a.type == attrMessageIntegrity

theorem Visits.counted (visits : Visits hdr p w last) (count : w.attrs.countP isIntegrity = w.hasMsgInt.toNat) :
    last.attrs.countP isIntegrity = last.hasMsgInt.toNat := by
  induction visits with
  | start => exact count
  | step _ done _ ih =>
    obtain ⟨attr,round⟩ := walkStepRound done
    apply ih
    have integrity := round.integrity
    rw [round.attrs,List.countP_append,count]
    by_cases here : attr.type = attrMessageIntegrity
    · rw [if_pos here] at integrity
      simp [integrity,isIntegrity,here]
    · rw [if_neg here] at integrity
      simp [integrity,isIntegrity,here]

theorem Visits.integrityLengths (visits : Visits hdr p w last)
    (before : ∀ b ∈ w.attrs, b.type = attrMessageIntegrity → b.length = 20) :
    ∀ b ∈ last.attrs, b.type = attrMessageIntegrity → b.length = 20 := by
  induction visits with
  | start => exact before
  | step _ done _ ih =>
    obtain ⟨attr,round⟩ := walkStepRound done
    refine ih fun b mem typed => ?_
    rw [round.attrs,List.mem_append,List.mem_singleton] at mem
    rcases mem with old | rfl
    · exact before b old typed
    · have flags := round.integrity
      rw [if_pos typed] at flags
      exact flags.1

theorem Visits.sum (visits : Visits hdr p w last) : last.pos + last.remaining = w.pos + w.remaining := by
  induction visits with
  | start => rfl
  | step _ done _ ih =>
    obtain ⟨attr,round⟩ := walkStepRound done
    rw [ih,round.sum]

theorem Visits.join {mid : Walk} (first : Visits hdr p w mid) (second : Visits hdr p w last)
    (stop : last.remaining < 4) : Visits hdr p mid last := by
  induction first with
  | start => exact second
  | step more done _ ih =>
    cases second with
    | start => omega
    | step _ done' rest =>
      cases done.symm.trans done'
      exact ih rest

theorem Visits.shared (visits : Visits hdr p w last) (tsxId : hdr'.tsxId = hdr.tsxId) (same : SameWalk w w')
    {prot post : List Attr} (attrs : last.attrs = w.attrs ++ (prot ++ post))
    (bytes : SameBytes p q w.pos (spanOf prot)) (room : spanOf prot ≤ w.remaining)
    (room' : spanOf prot ≤ w'.remaining) :
    ∃ mid mid', Visits hdr p mid last ∧ Visits hdr' q w' mid' ∧ SameWalk mid mid' ∧
      mid.attrs = w.attrs ++ prot ∧ mid.pos = w.pos + spanOf prot := by
  induction visits generalizing w' prot with
  | start w =>
    have none : prot = [] ∧ post = [] := by
      have := congrArg List.length attrs
      simp only [List.length_append] at this
      exact ⟨List.length_eq_zero_iff.mp (by omega),List.length_eq_zero_iff.mp (by omega)⟩
    obtain ⟨rfl,rfl⟩ := none
    exact ⟨w,w',.start w,.start w',same,by simp,rfl⟩
  | step more done rest ih =>
    rename_i w next last
    cases prot with
    | nil => exact ⟨w,w',.step more done rest,.start w',same,by simp,rfl⟩
    | cons a prot =>
      obtain ⟨attr,round⟩ := walkStepRound done
      obtain ⟨later,grown⟩ := rest.grows
      rw [round.attrs,List.append_assoc] at grown
      have pair := List.append_cancel_left (attrs.symm.trans grown)
      simp only [List.cons_append,List.nil_append,List.cons.injEq] at pair
      obtain ⟨rfl,_⟩ := pair
      have span : spanOf (a :: prot) = pad4 a.length.toNat + 4 + spanOf prot := rfl
      rw [span] at bytes room room'
      have length : lengthAt p w.pos = a.length := round.length.symm
      have pos := round.size (by omega)
      have sum := round.sum
      obtain ⟨next',done',sameNext⟩ := walkStepCongr tsxId same done
        (fun i low high => bytes i low (by rw [length] at high; omega)) (by rw [length]; omega)
        (by rw [length]; omega)
      obtain ⟨attr',round'⟩ := walkStepRound done'
      have sum' := round'.sum
      rw [sameNext.pos,same.pos] at sum'
      have attrsNext : last.attrs = next.attrs ++ (prot ++ post) := by
        rw [attrs,round.attrs,List.append_assoc]
        rfl
      obtain ⟨mid,mid',after,before',sameMid,found,stop⟩ := ih sameNext attrsNext
        (fun i low high => bytes i (by omega) (by omega)) (by omega) (by omega)
      refine ⟨mid,mid',after,.step (by omega) done' before',sameMid,?_,by rw [stop,pos,span]; omega⟩
      rw [found,round.attrs,List.append_assoc]
      rfl

theorem Visits.stays {mid : Walk} (visits : Visits hdr p mid last) (attrs : last.attrs = mid.attrs) : last = mid := by
  cases visits with
  | start => rfl
  | step _ done rest =>
    obtain ⟨attr,round⟩ := walkStepRound done
    obtain ⟨more,grown⟩ := rest.grows
    rw [round.attrs,attrs] at grown
    have := congrArg List.length grown
    simp only [List.length_append,List.length_cons,List.length_nil] at this
    omega

end Runs

theorem decodeWalk {pduLen : Nat} {options : DecodeOptions} {parsed : Nat}
    (done : (stunMsgDecode env pdu pduLen options).result = .ok (msg, parsed)) :
    pduLen ≠ 0 ∧ msg.hdr = headerAt pdu ∧
    ∃ last, Visits (headerAt pdu) pdu (firstWalk (headerAt pdu)) last ∧ last.remaining = 0 ∧ last.attrs = msg.attrs := by
  have body : pduLen ≠ 0 ∧ (decodeBody pdu).result = .ok (msg, parsed) := by
    unfold stunMsgDecode at done
    split at done
    · simp at done
    · rename_i some
      refine ⟨some,?_⟩
      split at done
      · cases found : (stunMsgCheck env pdu pduLen options).result with
        | error => simp [bindError found] at done
        | ok =>
          rw [bindOk found] at done
          exact done
      · exact done
  refine ⟨body.1,?_⟩
  have done := body.2
  unfold decodeBody at done
  simp only [readSliceResult] at done
  cases found : (walkAttrs (headerAt pdu) pdu (headerAt pdu).length.toNat (firstWalk (headerAt pdu))).result with
  | error => simp [bindError found] at done
  | ok last =>
    rw [bindOk found] at done
    simp only at done
    split at done
    · simp at done
    · cases done
      exact ⟨rfl,last,walkAttrsVisits _ found,by omega,rfl⟩

theorem countOne (count : (pre ++ a :: post).countP isIntegrity ≤ 1) (integrity : a.type = attrMessageIntegrity) :
    (∀ b ∈ pre, b.type ≠ attrMessageIntegrity) ∧ ∀ b ∈ post, b.type ≠ attrMessageIntegrity := by
  have here : isIntegrity a = true := by simp [isIntegrity,integrity]
  rw [List.countP_append,List.countP_cons_of_pos here] at count
  have left : pre.countP isIntegrity = 0 := by omega
  have right : post.countP isIntegrity = 0 := by omega
  rw [List.countP_eq_zero] at left right
  exact ⟨fun b mem same => left b mem (by simp [isIntegrity,same]),
    fun b mem same => right b mem (by simp [isIntegrity,same])⟩

/- The packets agree up to the end of MESSAGE-INTEGRITY, the attribute `a`, and both contain
that much; the length field of the header is left out. -/
structure SameProtected (p q : Memory) (pre : List Attr) (a : Attr) : Prop where
  integrity : a.type = attrMessageIntegrity
  bytes : ∀ i, i < 20 + spanOf (pre ++ [a]) → i ≠ 2 → i ≠ 3 → q i = p i
  room : spanOf (pre ++ [a]) ≤ (headerAt p).length.toNat
  room' : spanOf (pre ++ [a]) ≤ (headerAt q).length.toNat

/- What a message has up to MESSAGE-INTEGRITY, and how the verifier sees it. -/
structure ProtectedPart (pdu : Memory) (msg : Msg) (pre : List Attr) (a : Attr) (post : List Attr) : Prop where
  attrs : msg.attrs = pre ++ a :: post
  before : ∀ b ∈ pre, b.type ≠ attrMessageIntegrity
  after : ∀ b ∈ post, b.type ≠ attrMessageIntegrity
  last : post = [] → (headerAt pdu).length.toNat = spanOf (pre ++ [a])

theorem protectedPart {hdr : MsgHdr} {mid last : Walk}
    (integrity : a.type = attrMessageIntegrity) (whole : Visits hdr pdu (firstWalk (headerAt pdu)) last)
    (stop : last.remaining = 0) (same : last.attrs = msg.attrs) (rest : Visits hdr pdu mid last)
    (found : mid.attrs = pre ++ [a]) (pos : mid.pos = 20 + spanOf (pre ++ [a]))
    (attrs : msg.attrs = pre ++ a :: post) : ProtectedPart pdu msg pre a post := by
  have count := whole.counted (by simp [firstWalk])
  rw [same,attrs] at count
  have once := countOne (count.trans_le (Bool.toNat_le _)) integrity
  refine ⟨attrs,once.1,once.2,fun none => ?_⟩
  have ended := rest.stays (by rw [found,same,attrs,none])
  have sum := whole.sum
  rw [ended] at sum stop
  simp only [firstWalk,stunMsgHdrLen] at sum
  omega

theorem decodeShared {p q : Memory} {pLen qLen : Nat} {pOptions qOptions : DecodeOptions} {mp mq : Msg}
    {np nq : Nat} (decodedP : (stunMsgDecode env p pLen pOptions).result = .ok (mp, np))
    (decodedQ : (stunMsgDecode env q qLen qOptions).result = .ok (mq, nq))
    (attrs : mp.attrs = pre ++ a :: post) (shared : SameProtected p q pre a) :
    ProtectedPart p mp pre a post ∧ ∃ post', ProtectedPart q mq pre a post' := by
  obtain ⟨_,_,last,whole,stop,same⟩ := decodeWalk decodedP
  obtain ⟨_,_,last',whole',stop',same'⟩ := decodeWalk decodedQ
  have tsxId : (headerAt q).tsxId = (headerAt p).tsxId :=
    funext fun i => shared.bytes _ (by omega) (by omega) (by omega)
  have bytes : SameBytes p q (firstWalk (headerAt p)).pos (spanOf (pre ++ [a])) := fun i low high => by
    simp only [firstWalk,stunMsgHdrLen] at low high
    exact shared.bytes i high (by omega) (by omega)
  have split : last.attrs = (firstWalk (headerAt p)).attrs ++ ((pre ++ [a]) ++ post) := by
    rw [same,attrs]
    simp [firstWalk]
  obtain ⟨mid,mid',rest,before',sameMid,found,pos⟩ :=
    whole.shared tsxId (firstWalkSame (headerAt p) (headerAt q)) split bytes shared.room shared.room'
  have rest' := before'.join whole' (by omega)
  obtain ⟨post',grown⟩ := rest'.grows
  have attrs' : mq.attrs = pre ++ a :: post' := by
    rw [← same',grown,sameMid.attrs,found]
    simp [firstWalk]
  refine ⟨protectedPart shared.integrity whole stop same rest found pos attrs,post',
    protectedPart shared.integrity whole' stop' same' rest' ?_ ?_ attrs'⟩
  · rw [sameMid.attrs]
    exact found
  · rw [sameMid.pos]
    exact pos

/- A callback may look at the header of the message, its length apart. -/
def AuthCred.HeaderOnly : AuthCred → Prop
  | .static _ => True
  | .dynamic cred => ∀ m m' : Msg, { m.hdr with length := 0 } = { m'.hdr with length := 0 } →
      cred.getPassword m = cred.getPassword m' ∧ cred.verifyNonce.map (· m) = cred.verifyNonce.map (· m')

def firstValue (attrs : List Attr) (attrType : UInt16) : Option (List UInt8) :=
  (attrs.find? (·.type == attrType)).map Attr.stringValue

/- The protected part has an attribute of that type, or the two packets say the same behind. -/
def SteersAlike (pre post post' : List Attr) (attrType : UInt16) : Prop :=
  (∃ b ∈ pre, b.type = attrType) ∨ firstValue post attrType = firstValue post' attrType

theorem steersAlikeIff {post' : List Attr} (other : a.type ≠ attrType) : SteersAlike pre post post' attrType ↔
      firstValue (pre ++ a :: post) attrType = firstValue (pre ++ a :: post') attrType := by
  have skip : (a.type == attrType) = false := beq_false_of_ne other
  unfold SteersAlike firstValue
  rw [List.find?_append,List.find?_append,List.find?_cons_of_neg (by simp [other]),
    List.find?_cons_of_neg (by simp [other])]
  cases found : pre.find? (·.type == attrType) with
  | none =>
    rw [List.find?_eq_none] at found
    simp only [Option.none_or]
    refine ⟨fun alike => ?_,.inr⟩
    rcases alike with ⟨b,mem,typed⟩ | same
    · exact absurd (found b mem) (by simp [typed])
    · exact same
  | some b =>
    simp only [Option.some_or,iff_true]
    have typed := List.find?_some found
    exact .inl ⟨b,List.mem_of_find?_eq_some found,by simpa using typed⟩

/- The verifier in terms of the values it looks up and of the digest it computes. -/
def verify (md5 : List UInt8 → List UInt8) (hmacOk : List UInt8 → Bool) (msg : Msg) (cred : AuthCred)
    (auser arealm anonce : Option (List UInt8)) : Status × ReqCredInfo :=
  match cred.getAuth with
  | .error status => (status, ⟨[],[],[],[]⟩)
  | .ok (realm, nonce) =>
    match auser with
    | none => (.stunCode 400, ⟨realm,[],nonce,[]⟩)
    | some auser =>
      if realm ≠ [] ∧ arealm = none then (.stunCode 400, ⟨realm,[],nonce,[]⟩)
      else
        match cred.select md5 msg realm auser arealm with
        | none => (.stunCode 401, ⟨realm,[],nonce,[]⟩)
        | some (username, key) =>
          match checkTerms realm nonce arealm anonce with
          | some (code, _) => (.stunCode code, ⟨realm,username,nonce,key⟩)
          | none =>
            if anonce.any (fun anonce => !cred.nonceOk msg nonce arealm auser anonce) then
              (.stunCode 438, ⟨realm,username,nonce,key⟩)
            else if hmacOk key then (.success, ⟨realm,username,nonce,key⟩)
            else (.stunCode 401, ⟨realm,username,nonce,key⟩)

theorem authenticateEq {pkt : Memory} {pktLen : Nat}
    (length : pktLen ≠ 0) (integrity : a.type = attrMessageIntegrity)
    (part : ProtectedPart pkt msg pre a post) (cred : AuthCred) :
    ((authenticateRequest md5 env pkt pktLen msg cred).status, (authenticateRequest md5 env pkt pktLen msg cred).info) =
      verify md5 (fun key => a.hmac = env.hmacSha1 key (integrityInput pkt (spanOf pre) (!post.isEmpty))) msg cred
        (firstValue msg.attrs attrUsername) (firstValue msg.attrs attrRealm) (firstValue msg.attrs attrNonce) := by
  have scanned := scanIntegrityFound integrity part.before part.after 0
  rw [← part.attrs,Nat.zero_add] at scanned
  unfold authenticateRequest verify
  rw [if_neg length]
  cases cred.getAuth with
  | error => rfl
  | ok auth =>
    obtain ⟨realm,nonce⟩ := auth
    simp only [scanned,firstValue,findAttr]
    cases msg.attrs.find? (·.type == attrUsername) with
    | none => rfl
    | some auser =>
      simp only [Option.map_some]
      by_cases missing : realm ≠ [] ∧ (msg.attrs.find? (·.type == attrRealm)).map Attr.stringValue = none
      · rw [if_pos missing]
        exact (if_pos missing).symm
      · rw [if_neg missing]
        refine Eq.trans ?_ (if_neg missing).symm
        generalize cred.select md5 msg realm auser.stringValue _ = selected
        cases selected with
        | none => rfl
        | some chosen =>
          obtain ⟨username,key⟩ := chosen
          simp only
          generalize checkTerms realm nonce _ _ = terms
          cases terms with
          | some => rfl
          | none =>
            simp only [decide_eq_true_eq]
            split
            · rfl
            · split <;> rfl

theorem verifyHeader {m' : Msg} {cred : AuthCred}
    (header : { m.hdr with length := 0 } = { m'.hdr with length := 0 }) (only : cred.HeaderOnly)
    (auser arealm anonce : Option (List UInt8)) :
    verify md5 hmacOk m cred auser arealm anonce = verify md5 hmacOk m' cred auser arealm anonce := by
  cases cred with
  | static => rfl
  | dynamic cred =>
    obtain ⟨password,nonce⟩ := only m m' header
    have fresh : ∀ n r u v, (AuthCred.dynamic cred).nonceOk m n r u v = (AuthCred.dynamic cred).nonceOk m' n r u v := by
      intro n r u v
      cases found : cred.verifyNonce with
      | none => simp [AuthCred.nonceOk,found]
      | some =>
        rw [found] at nonce
        simp only [Option.map_some,Option.some.injEq] at nonce
        simp [AuthCred.nonceOk,found,nonce]
    simp only [verify,AuthCred.select,password,fresh]

/- A dynamic credential that lets the lookups be seen. -/
def spyCred (password : Option (List UInt8) → Option (PasswdType × List UInt8)) (fresh : List UInt8 → Bool) : AuthCred :=
  .dynamic ⟨.ok ([], []),fun _ realm _ => password realm,some fun _ _ _ nonce => fresh nonce⟩

theorem spyVerify
    {password : Option (List UInt8) → Option (PasswdType × List UInt8)} {fresh : List UInt8 → Bool}
    {auser arealm anonce : Option (List UInt8)} :
    verify md5 hmacOk m (spyCred password fresh) auser arealm anonce =
      match auser, password arealm with
      | none, _ => (.stunCode 400, ⟨[],[],[],[]⟩)
      | some _, none => (.stunCode 401, ⟨[],[],[],[]⟩)
      | some auser, some (dataType, data) =>
        (if anonce.any (fun anonce => !fresh anonce) then .stunCode 438
          else if hmacOk (createKey md5 (arealm.getD []) auser dataType data) then .success else .stunCode 401,
          ⟨[],auser,[],createKey md5 (arealm.getD []) auser dataType data⟩) := by
  have terms : checkTerms [] [] arealm anonce = none := by
    cases arealm <;> simp [checkTerms]
  unfold verify spyCred
  simp only [AuthCred.getAuth,AuthCred.select,AuthCred.nonceOk,terms]
  cases auser with
  | none => rfl
  | some auser =>
    simp only [ne_eq,not_true_eq_false,false_and,if_false]
    cases password arealm with
    | none => rfl
    | some chosen =>
      simp only [Option.map_some]
      by_cases stale : anonce.any (fun anonce => !fresh anonce) = true
      · simp only [stale,if_true]
      · by_cases ok : hmacOk (createKey md5 (arealm.getD []) auser chosen.1 chosen.2) = true
        · simp [stale,ok]
        · simp [stale,ok]

theorem verifySameIff {m' : Msg}
    (header : { m.hdr with length := 0 } = { m'.hdr with length := 0 })
    {auser auser' arealm arealm' anonce anonce' : Option (List UInt8)} :
    (∀ cred : AuthCred, cred.HeaderOnly →
      verify md5 hmacOk m cred auser arealm anonce = verify md5 hmacOk m' cred auser' arealm' anonce') ↔
    auser = auser' ∧ (auser = none ∨ arealm = arealm' ∧ anonce = anonce') := by
  constructor
  · intro all
    have spy : ∀ password fresh, verify md5 hmacOk m (spyCred password fresh) auser arealm anonce =
        verify md5 hmacOk m' (spyCred password fresh) auser' arealm' anonce' := fun password fresh =>
      all _ fun _ _ _ => ⟨rfl,rfl⟩
    simp only [spyVerify] at spy
    -- a password that is refused tells whether there is a user, one that is given tells which
    have users : auser = auser' := by
      have refused := spy (fun _ => none) fun _ => true
      have given := spy (fun _ => some (.hashed, [])) fun _ => true
      cases auser with
      | none =>
        cases auser' with
        | none => rfl
        | some => simp at refused
      | some =>
        cases auser' with
        | none => simp at refused
        | some => simpa using congrArg (fun result => some result.2.username) given
    refine ⟨users,?_⟩
    subst users
    cases auser with
    | none => exact .inl rfl
    | some =>
      refine .inr ⟨?_,?_⟩
      · -- the realm comes back as the key
        have keys := congrArg (fun result => result.2.authKey)
          (spy (fun realm => some (.hashed, (realm.map (0 :: ·)).getD [])) fun _ => true)
        cases arealm with
        | none =>
          cases arealm' with
          | none => rfl
          | some => simp [createKey] at keys
        | some =>
          cases arealm' with
          | none => simp [createKey] at keys
          | some => simpa [createKey] using keys
      · -- a nonce is refused exactly when it is the one that is asked for
        have stale : ∀ wanted, (anonce = some wanted ↔ anonce' = some wanted) := by
          intro wanted
          have status := congrArg (fun result => decide (result.1 = .stunCode 438))
            (spy (fun _ => some (.hashed, [])) fun nonce => nonce != wanted)
          have seen : ∀ (value : Option (List UInt8)) (ok : Bool), (decide ((if value.any (fun nonce => !(nonce != wanted))
              then Status.stunCode 438 else if ok then .success else .stunCode 401) = .stunCode 438)) =
              decide (value = some wanted) := by
            intro value ok
            cases value with
            | none => cases ok <;> simp
            | some nonce => by_cases same : nonce = wanted <;> cases ok <;> simp [same]
          simp only [seen] at status
          simpa using status
        cases anonce with
        | none =>
          cases anonce' with
          | none => rfl
          | some nonce' => exact absurd ((stale nonce').mpr rfl) (by simp)
        | some nonce => exact ((stale nonce).mp rfl).symm
  · rintro ⟨rfl,rest⟩ cred only
    rcases rest with rfl | ⟨rfl,rfl⟩
    · unfold verify
      cases cred.getAuth with
      | error => rfl
      | ok => rfl
    · exact verifyHeader header only _ _ _

/- The verifier gives the same result and the same credential for both packets. -/
def SameOutcome (first second : AuthResult) : Prop := first.status = second.status ∧ first.info = second.info

def SameForEveryCred (md5 : List UInt8 → List UInt8) (env : Env) (p : Memory) (pLen : Nat) (mp : Msg) (q : Memory)
    (qLen : Nat) (mq : Msg) : Prop :=
  ∀ cred : AuthCred, cred.HeaderOnly →
    SameOutcome (authenticateRequest md5 env p pLen mp cred) (authenticateRequest md5 env q qLen mq cred)

theorem integrityLength {p : Memory} {pLen n : Nat} {options : DecodeOptions}
    (decoded : (stunMsgDecode env p pLen options).result = .ok (msg, n)) (member : a ∈ msg.attrs)
    (integrity : a.type = attrMessageIntegrity) : a.length = 20 := by
  obtain ⟨_,_,last,whole,_,same⟩ := decodeWalk decoded
  exact whole.integrityLengths (by simp [firstWalk]) a (by rw [same]; exact member) integrity

theorem integrityInputShared {p q : Memory} {mp mq : Msg} {post' : List Attr}
    (shared : SameProtected p q pre a) (twenty : a.length = 20) (part : ProtectedPart p mp pre a post)
    (part' : ProtectedPart q mq pre a post') :
    integrityInput q (spanOf pre) (!post'.isEmpty) = integrityInput p (spanOf pre) (!post.isEmpty) := by
  have span : spanOf (pre ++ [a]) = spanOf pre + 24 := by
    simp [spanOf,twenty,pad4]
  have bytes := shared.bytes
  rw [span] at bytes
  have field : ∀ (pdu : Memory) (rest : List Attr), (rest = [] → (headerAt pdu).length.toNat = spanOf (pre ++ [a])) →
      (!rest.isEmpty) = false → (headerAt pdu).length = UInt16.ofNat (spanOf pre + 24) := by
    intro pdu rest last empty
    rw [← span,← last (by simpa using empty),UInt16.ofNat_toNat]
  have type : (headerAt q).type = (headerAt p).type := by
    simp only [headerAt]
    rw [bytes 0 (by omega) (by omega) (by omega),bytes 1 (by omega) (by omega) (by omega)]
  rw [integrityInputHeader rfl (field p post part.last),integrityInputHeader rfl (field q post' part'.last),type,
    sliceCongr fun i low high => bytes i (by omega) (by omega) (by omega)]

theorem authenticationSameIff (md5 : List UInt8 → List UInt8) (env : Env) (p q : Memory) (pLen qLen : Nat)
    (pOptions qOptions : DecodeOptions) (mp mq : Msg) (np nq : Nat) (pre post : List Attr) (a : Attr)
    (decodedP : (stunMsgDecode env p pLen pOptions).result = .ok (mp, np))
    (decodedQ : (stunMsgDecode env q qLen qOptions).result = .ok (mq, nq))
    (attrs : mp.attrs = pre ++ a :: post) (shared : SameProtected p q pre a) :
    SameForEveryCred md5 env p pLen mp q qLen mq ↔
    SteersAlike pre post (mq.attrs.drop (pre.length + 1)) attrUsername ∧
      (firstValue mp.attrs attrUsername = none ∨
        SteersAlike pre post (mq.attrs.drop (pre.length + 1)) attrRealm ∧
        SteersAlike pre post (mq.attrs.drop (pre.length + 1)) attrNonce) := by
  obtain ⟨part,post',part'⟩ := decodeShared decodedP decodedQ attrs shared
  have rest : mq.attrs.drop (pre.length + 1) = post' := by
    rw [part'.attrs]
    simp
  have twenty : a.length = 20 := integrityLength decodedP (by rw [attrs]; simp) shared.integrity
  have input := integrityInputShared shared twenty part part'
  obtain ⟨lengthP,hdrP,_⟩ := decodeWalk decodedP
  obtain ⟨lengthQ,hdrQ,_⟩ := decodeWalk decodedQ
  have header : { mp.hdr with length := 0 } = { mq.hdr with length := 0 } := by
    have bytes : ∀ i, i < 20 → i ≠ 2 → i ≠ 3 → q i = p i := fun i low two three => shared.bytes i (by omega) two three
    have tsxId : (fun i : Fin 12 => q (8 + i)) = fun i : Fin 12 => p (8 + i) :=
      funext fun i => bytes _ (by omega) (by omega) (by omega)
    rw [hdrP,hdrQ]
    simp only [headerAt,tsxId,bytes 0 (by omega) (by omega) (by omega),bytes 1 (by omega) (by omega) (by omega),
      bytes 4 (by omega) (by omega) (by omega),bytes 5 (by omega) (by omega) (by omega),
      bytes 6 (by omega) (by omega) (by omega),bytes 7 (by omega) (by omega) (by omega)]
  have outcome : ∀ cred : AuthCred,
      SameOutcome (authenticateRequest md5 env p pLen mp cred) (authenticateRequest md5 env q qLen mq cred) ↔
      verify md5 (fun key => a.hmac = env.hmacSha1 key (integrityInput p (spanOf pre) (!post.isEmpty))) mp cred
          (firstValue mp.attrs attrUsername) (firstValue mp.attrs attrRealm) (firstValue mp.attrs attrNonce) =
        verify md5 (fun key => a.hmac = env.hmacSha1 key (integrityInput p (spanOf pre) (!post.isEmpty))) mq cred
          (firstValue mq.attrs attrUsername) (firstValue mq.attrs attrRealm) (firstValue mq.attrs attrNonce) := by
    intro cred
    rw [← authenticateEq lengthP shared.integrity part cred,← input,
      ← authenticateEq lengthQ shared.integrity part' cred,Prod.mk.injEq]
    rfl
  have lookup : ∀ attrType, attrMessageIntegrity ≠ attrType →
      (SteersAlike pre post post' attrType ↔ firstValue mp.attrs attrType = firstValue mq.attrs attrType) := by
    intro attrType other
    rw [attrs,part'.attrs]
    exact steersAlikeIff (by rw [shared.integrity]; exact other)
  rw [rest,lookup attrUsername (by decide),lookup attrRealm (by decide),lookup attrNonce (by decide),
    ← verifySameIff header]
  exact forall_congr' fun cred => imp_congr_right fun _ => outcome cred

/- A request with USERNAME "ab", REALM "pj" and MESSAGE-INTEGRITY, and the same request with
a NONCE "n" or a SOFTWARE "p" behind. -/
def realmRequest : Memory :=
  packet [0,1,0,40,0x21,0x12,0xA4,0x42,0,0,0,0,0,0,0,0,0,0,0,0,0,6,0,2,97,98,0,0,
    0,0x14,0,2,112,106,0,0,0,8,0,20]

def withBehind (bytes : List UInt8) : Memory := write (write realmRequest 2 [0,48]) 60 bytes

def nonceBehind : Memory := withBehind [0,0x15,0,1,110,0,0,0]

def softwareBehind : Memory := withBehind [0x80,0x22,0,1,112,0,0,0]

def realmRequestAttr : Attr := ⟨attrRealm,2,.string [112,106],realmIsString⟩
def userRequestAttr : Attr := ⟨attrUsername,2,.string [97,98],usernameIsString⟩
def nonceRequestAttr : Attr := ⟨attrNonce,1,.string [110],nonceIsString⟩
def digestAttr (pdu : Memory) : Attr := ⟨attrMessageIntegrity,20,.msgint fun i => pdu (36 + 4 + i),digestIsMsgint⟩

def realmRequestMsg : Msg :=
  ⟨⟨0x0001,40,stunMagic,fun i => realmRequest (8 + i)⟩,
    [userRequestAttr,realmRequestAttr,digestAttr realmRequest],by decide⟩

def behindMsg (pdu : Memory) (a : Attr) : Msg :=
  ⟨⟨0x0001,48,stunMagic,fun i => pdu (8 + i)⟩,[userRequestAttr,realmRequestAttr,digestAttr pdu,a],
    Nat.le_add_left 4 12⟩

def nonceBehindMsg : Msg := behindMsg nonceBehind nonceRequestAttr

def softwareBehindMsg : Msg := behindMsg softwareBehind ⟨attrSoftware,1,.string [112],softwareIsString⟩

theorem realmRequestDecoded :
    (stunMsgDecode plainEnv realmRequest 60 datagram).result = .ok (realmRequestMsg, 60) := by
  rfl

theorem nonceBehindDecoded :
    (stunMsgDecode plainEnv nonceBehind 68 datagram).result = .ok (nonceBehindMsg, 68) := by
  rfl

theorem softwareBehindDecoded :
    (stunMsgDecode plainEnv softwareBehind 68 datagram).result = .ok (softwareBehindMsg, 68) := by
  rfl

theorem nonceBehindShared :
    SameProtected realmRequest nonceBehind [userRequestAttr,realmRequestAttr] (digestAttr realmRequest) where
  integrity := rfl
  bytes := by decide
  room := by decide
  room' := by decide

theorem softwareBehindShared :
    SameProtected realmRequest softwareBehind [userRequestAttr,realmRequestAttr] (digestAttr realmRequest) where
  integrity := rfl
  bytes := by decide
  room := by decide
  room' := by decide

theorem softwareBehindSame :
    SameForEveryCred plainMd5 plainEnv realmRequest 60 realmRequestMsg softwareBehind 68 softwareBehindMsg :=
  (authenticationSameIff plainMd5 plainEnv realmRequest softwareBehind 60 68 datagram datagram realmRequestMsg
    softwareBehindMsg 60 68 _ [] _ realmRequestDecoded softwareBehindDecoded rfl softwareBehindShared).mpr
    ⟨.inl ⟨userRequestAttr,by simp,rfl⟩,.inr ⟨.inl ⟨realmRequestAttr,by simp,rfl⟩,.inr rfl⟩⟩

def strictCred : AuthCred := .static ⟨[112,106],[97,98],.plain,[120],[110]⟩

/- The request without a nonce is refused, and the same protected bytes are accepted with a
nonce put behind them. -/
theorem nonceBehindAccepted :
    ¬ ∀ (md5 : List UInt8 → List UInt8) (env : Env) (p q : Memory) (pLen qLen : Nat)
        (pOptions qOptions : DecodeOptions) (mp mq : Msg) (np nq : Nat) (pre post : List Attr) (a : Attr)
        (cred : AuthCred), (stunMsgDecode env p pLen pOptions).result = .ok (mp, np) →
      (stunMsgDecode env q qLen qOptions).result = .ok (mq, nq) → mp.attrs = pre ++ a :: post →
      SameProtected p q pre a → cred.HeaderOnly →
      SameOutcome (authenticateRequest md5 env p pLen mp cred) (authenticateRequest md5 env q qLen mq cred) := by
  intro all
  have same := (all plainMd5 plainEnv realmRequest nonceBehind 60 68 datagram datagram realmRequestMsg nonceBehindMsg
    60 68 _ [] _ strictCred realmRequestDecoded nonceBehindDecoded rfl nonceBehindShared trivial).1
  have refused : (authenticateRequest plainMd5 plainEnv realmRequest 60 realmRequestMsg strictCred).status =
    .stunCode 400 := by decide
  have granted : (authenticateRequest plainMd5 plainEnv nonceBehind 68 nonceBehindMsg strictCred).status =
    .success := by decide
  rw [refused,granted] at same
  exact absurd same (by decide)

end Pjproject.Stun
