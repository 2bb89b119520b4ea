import Pjproject.SdpModel

/-! The answer takes over the payload types of the offer. -/
namespace Pjproject.SdpNeg
open Multipart (Text ascii)

section Model

/- pj_memcpy to the front of a text, which keeps its length. -/
def overwrite (buf new : Text) : Text := (new ++ buf.drop new.length).take buf.length

end Model

def ofCodec (ptAnswer : Text) (a : Attr) : Bool := Attr.isOf rtpmap ptAnswer a || Attr.isOf fmtp ptAnswer a

/- The attributes of the codecs: a value begins with its type, and a type that changes has at most one of each kind. -/
structure OwnAttrs (pairs : List (Text × Text)) (attr : List Attr) : Prop where
  begins : ∀ pair ∈ pairs, ∀ a ∈ attr, ofCodec pair.2 a = true → pair.2 <+: a.value
  once : ∀ pair ∈ pairs, pair.1 ≠ pair.2 → ∀ name ∈ [rtpmap,fmtp], attr.countP (Attr.isOf name pair.2) ≤ 1

section Renaming
variable {pair : Text × Text} {a : Attr} {attr : List Attr}

theorem OwnAttrs.tail {rest : List (Text × Text)} {attr kept found : List Attr}
    (own : OwnAttrs (pair :: rest) attr) (lines : attr.Perm (found ++ kept)) : OwnAttrs rest kept := by
  have inside : ∀ a ∈ kept, a ∈ attr := fun a mem => lines.mem_iff.mpr (List.mem_append_right found mem)
  constructor
  · intro later mem a kind
    exact own.begins later (List.mem_cons_of_mem pair mem) a (inside a kind)
  · intro later mem changes name kind
    have all := own.once later (List.mem_cons_of_mem pair mem) changes name kind
    rw [lines.countP_eq,List.countP_append] at all
    omega

theorem OwnAttrs.later {rest : List (Text × Text)}
    (own : OwnAttrs (pair :: rest) attr) : OwnAttrs rest attr :=
  own.tail (.refl ([] ++ attr))

end Renaming

end Pjproject.SdpNeg
