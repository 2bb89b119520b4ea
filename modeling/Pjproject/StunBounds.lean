import Pjproject.StunDecode

/-! Where the STUN decoder reads. The walk compares the remaining bytes with the padded
value length alone, without the attribute's own header, and some decoders read before
they look at the length: the exact condition for staying inside the message is stated
attribute by attribute, over the attributes the walk arrives at. -/
namespace Pjproject.Stun
open Lib.Bytes

/- The header of the attribute at `pos`. -/
abbrev typeAt (pdu : Memory) (pos : Nat) : UInt16 := word16 (pdu pos) (pdu (pos + 1))
abbrev lengthAt (pdu : Memory) (pos : Nat) : UInt16 := word16 (pdu (pos + 2)) (pdu (pos + 2 + 1))

inductive Visits (hdr : MsgHdr) (pdu : Memory) : Walk → Walk → Prop where
  | start (w : Walk) : Visits hdr pdu w w
  | step {w next last : Walk} (more : 4 ≤ w.remaining) (done : (walkStep hdr pdu w).result = .ok next)
      (rest : Visits hdr pdu next last) : Visits hdr pdu w last

theorem Visits.stopped {hdr pdu w last} (visits : Visits hdr pdu w last) (few : w.remaining < 4) : last = w := by
  cases visits with
  | start => rfl
  | step => omega

theorem addOk {w next : Walk} {len : Nat} {attr : Attr} {msgInt fingerprint : Bool}
    (done : (w.add len attr msgInt fingerprint).result = .ok next) :
    next.attrs = w.attrs ++ [attr] ∧ next.pos + next.remaining = w.pos + w.remaining ∧
    (next.remaining = 0 ∨ next.remaining + (len + 4) = w.remaining) := by
  unfold Walk.add at done
  split at done
  · cases done
    refine ⟨rfl,?_⟩
    simp only
    split <;> omega
  · simp at done

theorem walkStepOk {hdr pdu w next} (done : (walkStep hdr pdu w).result = .ok next) : ∃ attr msgInt fingerprint,
      (w.add (pad4 (lengthAt pdu w.pos).toNat) attr msgInt fingerprint).result = .ok next ∧
      ((∃ desc, (decodeGenericAttr pdu w.pos (typeAt pdu w.pos) (lengthAt pdu w.pos) desc).result = .ok attr) ∨
        ∃ kind desc,
          (decodeAttr hdr pdu w.pos (typeAt pdu w.pos) (lengthAt pdu w.pos) kind desc).result = .ok attr) := by
  unfold walkStep at done
  simp only [read16Bind] at done
  split at done
  · simp at done
  split at done
  · rename_i desc
    split at done
    · simp at done
    split at done
    · simp at done
    cases found : (decodeGenericAttr pdu w.pos (typeAt pdu w.pos) (lengthAt pdu w.pos) desc).result with
    | error => simp [bindError found] at done
    | ok attr =>
      rw [bindOk found] at done
      exact ⟨attr,_,_,done,.inl ⟨desc,found⟩⟩
  · rename_i kind desc
    cases found : (decodeAttr hdr pdu w.pos (typeAt pdu w.pos) (lengthAt pdu w.pos) kind desc).result with
    | error => simp [bindError found] at done
    | ok attr =>
      rw [bindOk found] at done
      simp only at done
      split at done
      · simp at done
      · exact ⟨attr,_,_,done,.inr ⟨kind,desc,found⟩⟩

/- Where a walk that started behind the header of a message stands. -/
structure OnTrack (limit : Nat) (w : Walk) : Prop where
  sum : w.pos + w.remaining = limit
  aligned : w.remaining % 4 = 0

theorem OnTrack.next {limit hdr pdu w next} (track : OnTrack limit w)
    (done : (walkStep hdr pdu w).result = .ok next) :
    OnTrack limit next ∧ (4 ≤ w.remaining → next.remaining < w.remaining) := by
  obtain ⟨attr,_,_,added,_⟩ := walkStepOk done
  obtain ⟨_,sum,rest⟩ := addOk added
  have := track.sum
  have aligned := track.aligned
  refine ⟨⟨by omega,?_⟩,fun _ => by omega⟩
  rcases rest with zero | less
  · omega
  · unfold pad4 at less
    omega

theorem walkAttrsWithin {limit : Nat} {hdr pdu} (fuel : Nat) {w : Walk} (track : OnTrack limit w)
    (enough : w.remaining ≤ fuel) : (walkAttrs hdr pdu fuel w).Within limit .fault ↔
      ∀ last, Visits hdr pdu w last → 4 ≤ last.remaining → (walkStep hdr pdu last).Within limit .fault := by
  induction fuel generalizing w with
  | zero =>
    simp only [walkAttrs,pureWithin,true_iff]
    intro last visits more
    rw [visits.stopped (by omega)] at more
    omega
  | succ fuel ih =>
    unfold walkAttrs
    split
    · rename_i more
      rw [bindWithin]
      constructor
      · rintro ⟨here,later⟩ last visits room
        cases visits with
        | start => exact here
        | step _ done rest =>
          have next := track.next done
          exact (ih next.1 (by have := next.2 more; omega)).mp (later _ done) last rest room
      · intro all
        refine ⟨all w (.start w) more,fun next done => ?_⟩
        have track' := track.next done
        rw [ih track'.1 (by have := track'.2 more; omega)]
        exact fun last visits => all last (.step more done visits)
    · rename_i few
      simp only [pureWithin,true_iff]
      intro last visits more
      rw [visits.stopped (by omega)] at more
      omega

/- What the decoder of each kind needs to find between the attribute's first byte and the
end of the message, `room` bytes on. -/
def ValueFits (pdu : Memory) (pos room : Nat) (length : Nat) : AttrKind → Prop
  | .sockaddr | .xoredSockaddr =>
    (length = 8 ∧ pdu (pos + 5) = 1 ∨ length = 20 ∧ pdu (pos + 5) = 2) → 4 + length ≤ room
  | .string | .binary => 4 + length ≤ room
  | .empty => True
  | .uint => 8 ≤ room
  | .uint64 => length = 8 → 12 ≤ room
  | .msgint => length = 20 → 24 ≤ room
  | .errcode => 4 ≤ length ∧ 4 + length ≤ room
  | .unknown => length / 2 ≤ stunMaxAttr → 4 + 2 * (length / 2) ≤ room

variable {pdu : Memory} {pos limit pduLen : Nat} {length attrType : UInt16} {hdr : MsgHdr} {w : Walk} {env : Env}
  {options : DecodeOptions}

theorem decodeSockaddrWithin {room : Nat} (fits : pad4 length.toNat ≤ room) :
    (decodeSockaddr pdu pos length).Within (pos + room) .fault ↔
      ((length.toNat = 8 ∧ pdu (pos + 5) = 1 ∨ length.toNat = 20 ∧ pdu (pos + 5) = 2) →
        4 + length.toNat ≤ room) := by
  have least := (pad4Le length.toNat).1
  unfold decodeSockaddr
  by_cases eight : length = 8
  · subst eight
    have small : 8 ≤ room := by simpa using least.trans fits
    by_cases one : pdu (pos + 5) = 1
    · simp [attrHdrLen,one,Nat.add_assoc]
      omega
    · by_cases two : pdu (pos + 5) = 2 <;> simp [attrHdrLen,one,two,Nat.add_assoc] <;> omega
  by_cases twenty : length = 20
  · subst twenty
    have small : 20 ≤ room := by simpa using least.trans fits
    by_cases one : pdu (pos + 5) = 1
    · simp [attrHdrLen,one,Nat.add_assoc]
      omega
    · by_cases two : pdu (pos + 5) = 2 <;> simp [attrHdrLen,one,two,Nat.add_assoc] <;> omega
  · have notEight : length.toNat ≠ 8 := fun same => eight (UInt16.toNat_inj.mp same)
    have notTwenty : length.toNat ≠ 20 := fun same => twenty (UInt16.toNat_inj.mp same)
    simp [eight,twenty,notEight,notTwenty]

theorem decodeAttrWithin {room : Nat}
    (header : 4 ≤ room) (aligned : room % 4 = 0) (fits : pad4 length.toNat ≤ room) {kind : AttrKind}
    (desc : findAttrDesc attrType = some kind) :
    (decodeAttr hdr pdu pos attrType length kind desc).Within (pos + room) .fault ↔
      ValueFits pdu pos room length.toNat kind := by
  have least := (pad4Le length.toNat).1
  have nat : ∀ n : UInt16, length = n ↔ length.toNat = n.toNat := fun n => UInt16.toNat_inj.symm
  cases kind with
  | sockaddr =>
    simp only [decodeAttr,decodeSockaddrAttr,bindWithin,pureWithin,implies_true,and_true,ValueFits]
    exact decodeSockaddrWithin fits
  | xoredSockaddr =>
    simp only [decodeAttr,decodeXoredSockaddrAttr,bindWithin,pureWithin,implies_true,and_true,ValueFits]
    exact decodeSockaddrWithin fits
  | string =>
    simp only [decodeAttr,decodeStringAttr,readSliceWithin,pureWithin,and_true,ValueFits,attrHdrLen]
    omega
  | empty =>
    simp only [decodeAttr,decodeEmptyAttr,ValueFits,iff_true]
    split <;> simp
  | uint =>
    simp only [decodeAttr,decodeUintAttr,read32Within,ValueFits]
    split <;> simp <;> omega
  | uint64 =>
    simp only [decodeAttr,decodeUint64Attr,ValueFits,ne_eq,nat]
    split
    · rename_i other
      simpa using fun same : length.toNat = 8 => absurd same other
    · rename_i same
      simp only [UInt16.reduceToNat,Decidable.not_not] at same
      simp only [read32Within,pureWithin,same,forall_const,and_true]
      omega
  | msgint =>
    simp only [decodeAttr,decodeMsgintAttr,ValueFits,ne_eq,nat]
    split
    · rename_i other
      simpa using fun same : length.toNat = 20 => absurd same other
    · rename_i same
      simp only [UInt16.reduceToNat,Decidable.not_not] at same
      simp only [readArrayWithin,pureWithin,same,forall_const,and_true]
      omega
  | errcode =>
    simp only [decodeAttr,decodeErrcodeAttr,readByteWithin,ValueFits,UInt16.lt_iff_toNat_lt]
    split
    · rename_i short
      simp only [UInt16.reduceToNat] at short
      simp only [Reads.Within]
      constructor
      · rintro ⟨_,_,_,bad⟩
        exact absurd rfl bad
      · omega
    · rename_i long
      simp only [UInt16.reduceToNat,Nat.not_lt] at long
      simp only [readSliceWithin,pureWithin,and_true,attrHdrLen]
      omega
  | unknown =>
    simp only [decodeAttr,decodeUnknownAttr,ValueFits]
    by_cases many : length.toNat / 2 > stunMaxAttr
    · rw [dif_pos many,failWithin]
      simp
      omega
    · rw [dif_neg many,readWordsWithin]
      simp only [pureWithin,and_true,attrHdrLen]
      omega
  | binary =>
    simp only [decodeAttr,decodeBinaryAttr,readSliceWithin,pureWithin,and_true,ValueFits,attrHdrLen]
    omega

theorem decodeGenericWithin (desc : findAttrDesc attrType = none) :
    (decodeGenericAttr pdu pos attrType length desc).Within limit .fault ↔
      length.toNat = 0 ∨ pos + 4 + length.toNat ≤ limit := by
  simp [decodeGenericAttr,attrHdrLen]

/- The attribute the walk has arrived at is one that can be decoded, or refused, without
looking past the end of the message. -/
def AttrFits (pdu : Memory) (w : Walk) : Prop :=
  w.remaining < pad4 (lengthAt pdu w.pos).toNat ∨
    match findAttrDesc (typeAt pdu w.pos) with
    | none => typeAt pdu w.pos ≤ 0x7FFF ∨ stunMaxAttr ≤ w.attrs.length ∨
        4 + (lengthAt pdu w.pos).toNat ≤ w.remaining
    | some kind => ValueFits pdu w.pos w.remaining (lengthAt pdu w.pos).toNat kind

theorem addWithin {len : Nat} {attr : Attr} {msgInt fingerprint : Bool} :
    (w.add len attr msgInt fingerprint).Within limit .fault := by
  unfold Walk.add
  split <;> simp

theorem walkStepWithin (track : OnTrack limit w)
    (more : 4 ≤ w.remaining) : (walkStep hdr pdu w).Within limit .fault ↔ AttrFits pdu w := by
  have sum := track.sum
  have orders : ∀ t a b, checkOrder t a b ≠ .error .fault := by
    intro t a b
    unfold checkOrder
    split
    · split <;> simp
    · split
      · split <;> simp
      · split <;> simp
  unfold walkStep AttrFits typeAt lengthAt
  simp only [read16Within]
  have header : w.pos + 2 ≤ limit ∧ w.pos + 2 + 2 ≤ limit := by omega
  simp only [header,true_and]
  split
  · rename_i short
    simp [short]
  · rename_i long
    simp only [long,false_or]
    split
    · rename_i desc
      simp only [desc]
      split
      · rename_i mandatory
        simp [mandatory]
      · rename_i optional
        simp only [optional,false_or]
        split
        · rename_i full
          have many : stunMaxAttr ≤ w.attrs.length := full
          simp [many]
        · rename_i room
          have few : ¬ stunMaxAttr ≤ w.attrs.length := room
          rw [bindWithin,decodeGenericWithin]
          simp only [few,false_or,addWithin,implies_true,and_true]
          omega
    · rename_i kind desc
      simp only [desc]
      rw [bindWithin,← sum,decodeAttrWithin more track.aligned (Nat.not_lt.mp long) desc]
      refine and_iff_left ?_
      intro attr _
      split
      · rename_i status refused
        rw [failWithin]
        rintro rfl
        exact orders _ _ _ refused
      · exact addWithin

theorem firstWalkOnTrack (aligned : hdr.length.toNat % 4 = 0) :
    OnTrack (20 + hdr.length.toNat) (firstWalk hdr) := ⟨rfl,aligned⟩

theorem Visits.track {limit hdr pdu w last} (visits : Visits hdr pdu w last) (track : OnTrack limit w) :
    OnTrack limit last := by
  induction visits with
  | start => exact track
  | step _ done _ ih => exact ih (track.next done).1

theorem checkWithin : (stunMsgCheck env pdu pduLen options).Within (20 + (headerAt pdu).length.toNat) .fault := by
  have length : (headerAt pdu).length = word16 (pdu 2) (pdu (2 + 1)) := rfl
  rw [length]
  unfold stunMsgCheck
  split
  · simp
  · simp only [readByteWithin]
    refine ⟨by omega,?_⟩
    split
    · simp
    · simp only [read16Within]
      refine ⟨by omega,?_⟩
      split
      · simp
      · split
        · simp
        · simp only [read32Within]
          refine ⟨by omega,?_⟩
          split
          · simp only [read16Within]
            refine ⟨by omega,?_⟩
            split
            · simp only [read16Within,read32Within]
              refine ⟨by omega,by omega,?_⟩
              split
              · simp
              · rw [readSliceWithin]
                refine ⟨.inr (by omega),?_⟩
                split <;> simp
            · simp
          · simp

theorem checkAccepted (accepted : (stunMsgCheck env pdu pduLen options).result = .ok ()) :
    20 + (headerAt pdu).length.toNat ≤ pduLen ∧ (headerAt pdu).length.toNat % 4 = 0 := by
  unfold stunMsgCheck at accepted
  split at accepted
  · simp at accepted
  simp only [readByteBind] at accepted
  split at accepted
  · simp at accepted
  simp only [read16Bind] at accepted
  split at accepted
  · simp at accepted
  rename_i fits
  split at accepted
  · simp at accepted
  rename_i aligned
  have length : (headerAt pdu).length = word16 (pdu 2) (pdu (2 + 1)) := rfl
  rw [length]
  omega

/- The decoded value lies within its attribute's own length. -/
def Attr.valueWithin (a : Attr) : Prop :=
  match a.body with
  | .string value => value.length ≤ a.length.toNat
  | .errcode _ reason => 4 + reason.length ≤ a.length.toNat
  | .unknown attrs => 2 * attrs.length ≤ a.length.toNat
  | .binary _ data => data.length ≤ a.length.toNat
  | _ => True

/- Every read of the decoder is below the end of the message, the copy of a reason has a
length that is not negative, and every decoded value lies within its attribute. -/
def DecodesInside (env : Env) (pdu : Memory) (pduLen : Nat) (options : DecodeOptions) : Prop :=
  (stunMsgDecode env pdu pduLen options).reach ≤ 20 + (headerAt pdu).length.toNat ∧
  (stunMsgDecode env pdu pduLen options).result ≠ .error .fault ∧
  ∀ msg parsed, (stunMsgDecode env pdu pduLen options).result = .ok (msg, parsed) →
    ∀ a ∈ msg.attrs, a.valueWithin

theorem decodeAttrValueWithin {kind : AttrKind} {desc : findAttrDesc attrType = some kind} {attr : Attr}
    (done : (decodeAttr hdr pdu pos attrType length kind desc).result = .ok attr) : attr.valueWithin := by
  cases kind with
  | sockaddr =>
    simp only [decodeAttr,decodeSockaddrAttr] at done
    cases found : (decodeSockaddr pdu pos length).result with
    | error => simp [bindError found] at done
    | ok =>
      rw [bindOk found] at done
      cases done
      trivial
  | xoredSockaddr =>
    simp only [decodeAttr,decodeXoredSockaddrAttr] at done
    cases found : (decodeSockaddr pdu pos length).result with
    | error => simp [bindError found] at done
    | ok =>
      rw [bindOk found] at done
      cases done
      trivial
  | string =>
    cases done
    simp [Attr.valueWithin,sliceLength]
  | empty =>
    simp only [decodeAttr,decodeEmptyAttr] at done
    split at done
    · simp at done
    · cases done
      trivial
  | uint =>
    simp only [decodeAttr,decodeUintAttr,read32Bind] at done
    split at done
    · simp at done
    · cases done
      trivial
  | uint64 =>
    simp only [decodeAttr,decodeUint64Attr] at done
    split at done
    · simp at done
    · cases done
      trivial
  | msgint =>
    simp only [decodeAttr,decodeMsgintAttr] at done
    split at done
    · simp at done
    · cases done
      trivial
  | errcode =>
    simp only [decodeAttr,decodeErrcodeAttr,readByteBind] at done
    split at done
    · simp at done
    · rename_i long
      cases done
      simp only [UInt16.lt_iff_toNat_lt,UInt16.reduceToNat,Nat.not_lt] at long
      simp only [Attr.valueWithin,sliceLength]
      omega
  | unknown =>
    simp only [decodeAttr,decodeUnknownAttr] at done
    by_cases many : length.toNat / 2 > stunMaxAttr
    · simp [many] at done
    · rw [dif_neg many] at done
      cases done
      simp only [Attr.valueWithin,wordsLength]
      omega
  | binary =>
    cases done
    simp [Attr.valueWithin,sliceLength]

theorem Visits.values {hdr pdu w last} (visits : Visits hdr pdu w last)
    (values : ∀ a ∈ w.attrs, a.valueWithin) : ∀ a ∈ last.attrs, a.valueWithin := by
  induction visits with
  | start => exact values
  | step _ done _ ih =>
    refine ih fun a mem => ?_
    obtain ⟨attr,_,_,added,decoded⟩ := walkStepOk done
    rw [(addOk added).1,List.mem_append,List.mem_singleton] at mem
    rcases mem with old | rfl
    · exact values a old
    · rcases decoded with ⟨_,found⟩ | ⟨_,_,found⟩
      · cases found
        simp [Attr.valueWithin,binaryAttrCreate,sliceLength]
      · exact decodeAttrValueWithin found

theorem walkAttrsVisits {hdr pdu} (fuel : Nat) {last : Walk}
    (done : (walkAttrs hdr pdu fuel w).result = .ok last) : Visits hdr pdu w last := by
  induction fuel generalizing w with
  | zero =>
    cases done
    exact .start _
  | succ fuel ih =>
    unfold walkAttrs at done
    split at done
    · rename_i more
      cases found : (walkStep hdr pdu w).result with
      | error => simp [bindError found] at done
      | ok =>
        rw [bindOk found] at done
        exact .step more found (ih done)
    · cases done
      exact .start _

theorem decodeAccepted (accepted : (stunMsgCheck env pdu pduLen options).result = .ok ()) :
    (stunMsgDecode env pdu pduLen options).result = (decodeBody pdu).result ∧
    ∀ limit, 20 + (headerAt pdu).length.toNat ≤ limit →
      ((stunMsgDecode env pdu pduLen options).reach ≤ limit ↔ (decodeBody pdu).reach ≤ limit) := by
  have long := (checkAccepted accepted).1
  have nonempty : ¬ pduLen = 0 := by omega
  have check : (stunMsgCheck env pdu pduLen options).reach ≤ 20 + (headerAt pdu).length.toNat :=
    checkWithin.1
  unfold stunMsgDecode
  rw [if_neg nonempty]
  by_cases flag : options.checkPacket = true
  · simp only [flag,if_true]
    rw [bindOk accepted]
    refine ⟨rfl,fun limit high => ?_⟩
    simp only [Nat.max_le]
    exact ⟨fun both => both.2,fun inner => ⟨check.trans high,inner⟩⟩
  · simp only [flag]
    exact ⟨rfl,fun limit high => Iff.rfl⟩

theorem decodesInsideIff (env : Env) (pdu : Memory) (pduLen : Nat) (options : DecodeOptions)
    (accepted : (stunMsgCheck env pdu pduLen options).result = .ok ()) :
    DecodesInside env pdu pduLen options ↔
      ∀ w, Visits (headerAt pdu) pdu (firstWalk (headerAt pdu)) w → 4 ≤ w.remaining → AttrFits pdu w := by
  have aligned := (checkAccepted accepted).2
  have track := firstWalkOnTrack aligned
  obtain ⟨result,reach⟩ := decodeAccepted accepted
  have body : (decodeBody pdu).Within (20 + (headerAt pdu).length.toNat) .fault ↔
      (walkAttrs (headerAt pdu) pdu (headerAt pdu).length.toNat (firstWalk (headerAt pdu))).Within
        (20 + (headerAt pdu).length.toNat) .fault := by
    unfold decodeBody
    rw [readSliceWithin,bindWithin]
    simp only [stunMsgHdrLen]
    refine ⟨fun both => both.2.1,fun walk => ⟨.inr (by omega),walk,fun w _ => ?_⟩⟩
    split <;> simp
  have values : ∀ msg parsed, (decodeBody pdu).result = .ok (msg, parsed) → ∀ a ∈ msg.attrs, a.valueWithin := by
    intro msg parsed done
    unfold decodeBody at done
    simp only [readSliceBind] at done
    cases found : (walkAttrs (headerAt pdu) pdu (headerAt pdu).length.toNat (firstWalk (headerAt pdu))).result with
    | error => simp [bindError found] at done
    | ok =>
      rw [bindOk found] at done
      simp only at done
      split at done
      · simp at done
      · cases done
        exact (walkAttrsVisits _ found).values (by simp [firstWalk])
  unfold DecodesInside
  rw [result,reach _ (Nat.le_refl _)]
  constructor
  · rintro ⟨low,good,_⟩ w visits more
    exact (walkStepWithin (visits.track track) more).mp
      ((walkAttrsWithin _ track (Nat.le_refl _)).mp (body.mp ⟨low,good⟩) w visits more)
  · intro fits
    have walk := (walkAttrsWithin _ track (Nat.le_refl _)).mpr fun w visits more =>
      (walkStepWithin (visits.track track) more).mpr (fits w visits more)
    have inside := body.mpr walk
    exact ⟨inside.1,inside.2,values⟩

def packet (bytes : List UInt8) : Memory := fun i => bytes.getD i 0

def plainEnv : Env := ⟨fun _ _ _ => 0,fun _ => 0,0⟩

def datagram : DecodeOptions := ⟨true,true,false⟩

/- A Binding request with the USERNAME "ab", and one whose USERNAME claims the four bytes
that are left of the message for its value although its header has used them. -/
def usernameRequest : Memory :=
  packet [0,1,0,8,0x21,0x12,0xA4,0x42,0,0,0,0,0,0,0,0,0,0,0,0,0,6,0,2,97,98,0,0]

def overrunRequest : Memory :=
  packet [0,1,0,4,0x21,0x12,0xA4,0x42,0,0,0,0,0,0,0,0,0,0,0,0,0,6,0,4]

theorem usernameRequestInside : DecodesInside plainEnv usernameRequest 28 datagram := by
  refine (decodesInsideIff plainEnv usernameRequest 28 datagram (by decide)).mpr fun w visits more => ?_
  cases visits with
  | start =>
    have desc : findAttrDesc (typeAt usernameRequest (firstWalk (headerAt usernameRequest)).pos) = some .string := by
      decide
    refine .inr ?_
    simp only [desc,ValueFits]
    decide
  | step _ done rest =>
    obtain ⟨_,_,_,added,_⟩ := walkStepOk done
    have used : pad4 (lengthAt usernameRequest (firstWalk (headerAt usernameRequest)).pos).toNat = 4 ∧
        (firstWalk (headerAt usernameRequest)).remaining = 8 := by decide
    have left := (addOk added).2.2
    rw [rest.stopped (by omega)] at more
    omega

theorem overrunRequestOutside :
    ¬ ∀ (env : Env) (pdu : Memory) (pduLen : Nat) (options : DecodeOptions),
      (stunMsgCheck env pdu pduLen options).result = .ok () → DecodesInside env pdu pduLen options := by
  intro all
  have inside := (all plainEnv overrunRequest 24 datagram (by decide)).1
  exact absurd inside (by decide)

end Pjproject.Stun
