import Pjproject.StunBounds
import Pjproject.Lib.Local

/-! The STUN decoder looks at the packet only through what it reads: what stands behind the last byte that it reads does
not matter. -/
namespace Pjproject.Stun
open Lib.Bytes

theorem decodeSockaddrLocal (pos : Nat) (length : UInt16) : Local (fun pdu => decodeSockaddr pdu pos length) := by
  unfold decodeSockaddr
  refine iteLocal (constLocal _) (bindLocal (readByteLocal _) (fun family => ?_))
  refine iteLocal ?_ (iteLocal ?_ (constLocal _))
  · exact iteLocal (constLocal _)
      (bindLocal (read16Local _) (fun port => bindLocal (readArrayLocal _ _) (fun addr => constLocal _)))
  · exact iteLocal (constLocal _)
      (bindLocal (read16Local _) (fun port => bindLocal (readArrayLocal _ _) (fun addr => constLocal _)))

theorem decodeAttrLocal (hdr : MsgHdr) (pos : Nat) (attrType length : UInt16) (kind : AttrKind)
    (desc : findAttrDesc attrType = some kind) : Local (fun pdu => decodeAttr hdr pdu pos attrType length kind desc) := by
  cases kind with
  | sockaddr => exact bindLocal (decodeSockaddrLocal pos length) (fun addr => constLocal _)
  | xoredSockaddr => exact bindLocal (decodeSockaddrLocal pos length) (fun addr => constLocal _)
  | string => exact bindLocal (readSliceLocal _ _) (fun value => constLocal _)
  | empty => exact constLocal _
  | uint =>
    exact bindLocal (read32Local _) (fun value => iteLocal (constLocal _) (constLocal _))
  | uint64 =>
    exact iteLocal (constLocal _)
      (bindLocal (read32Local _) (fun hi => bindLocal (read32Local _) (fun lo => constLocal _)))
  | msgint => exact iteLocal (constLocal _) (bindLocal (readArrayLocal _ _) (fun hmac => constLocal _))
  | errcode =>
    exact bindLocal (readByteLocal _) (fun hundreds => bindLocal (readByteLocal _) (fun number =>
      iteLocal (constLocal _) (bindLocal (readSliceLocal _ _) (fun reason => constLocal _))))
  | unknown =>
    unfold decodeAttr decodeUnknownAttr
    by_cases many : length.toNat / 2 > stunMaxAttr
    · simp only [dif_pos many]
      exact constLocal _
    · simp only [dif_neg many]
      refine copiedWordsLocal _ _ (fun m m' values _ => ?_)
      simp only [values]
  | binary =>
    unfold decodeAttr decodeBinaryAttr
    refine copiedLocal _ _ (fun m m' bytes _ => ?_)
    simp only [sliceCongr bytes]

theorem decodeGenericLocal (pos : Nat) (attrType length : UInt16) (desc : findAttrDesc attrType = none) :
    Local (fun pdu => decodeGenericAttr pdu pos attrType length desc) := by
  unfold decodeGenericAttr
  refine copiedLocal _ _ (fun m m' bytes _ => ?_)
  simp only [sliceCongr bytes]

theorem walkStepLocal (hdr : MsgHdr) (w : Walk) : Local (fun pdu => walkStep hdr pdu w) := by
  unfold walkStep
  refine bindLocal (read16Local _) (fun attrType => bindLocal (read16Local _) (fun length => ?_))
  refine iteLocal (constLocal _) ?_
  split
  · rename_i desc
    refine iteLocal (constLocal _) (iteLocal (constLocal _) ?_)
    exact bindLocal (decodeGenericLocal _ _ _ desc) (fun attr => constLocal _)
  · rename_i kind desc
    exact bindLocal (decodeAttrLocal hdr _ _ _ kind desc) (fun attr => constLocal _)

theorem walkAttrsLocal (hdr : MsgHdr) (fuel : Nat) (w : Walk) : Local (fun pdu => walkAttrs hdr pdu fuel w) := by
  induction fuel generalizing w with
  | zero => exact constLocal _
  | succ fuel ih =>
    unfold walkAttrs
    exact iteLocal (bindLocal (walkStepLocal hdr w) (fun next => ih next)) (constLocal _)

theorem decodeBodyLocal : Local decodeBody := by
  unfold decodeBody
  refine copiedLocal _ _ (fun m m' bytes same => ?_)
  have header := headerCongr (fun i low => bytes i (Nat.zero_le i) (by unfold stunMsgHdrLen; omega))
  dsimp only
  rw [header]
  exact bindLocal (walkAttrsLocal (headerAt m) _ _) (fun w => iteLocal (constLocal _) (constLocal _)) m m' same

end Pjproject.Stun
