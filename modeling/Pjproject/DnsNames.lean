import Pjproject.DnsSync

/-! The size of a name and the copy of it: where get_name_len succeeds, get_name copies as many characters. -/
namespace Pjproject.DnsPacket
open Lib.Bytes

/- One iteration of either loop, and the call behind a pointer: the calls that are left, and the position read. -/
inductive Walks (pkt : Packet) : Nat × Nat → Nat × Nat → Prop where
  | label {hops p : Nat} (size : (pkt.mem p).toNat ≤ pkt.size) (inside : p + ((pkt.mem p).toNat + 1) < pkt.size) :
      Walks pkt (hops, p) (hops, p + ((pkt.mem p).toNat + 1))
  | pointer {hops p : Nat} (inside : (word16 (pkt.mem p) (pkt.mem (p + 1)) ^^^ 0xc000).toNat < pkt.size) :
      Walks pkt (hops + 1, p) (hops, (word16 (pkt.mem p) (pkt.mem (p + 1)) ^^^ 0xc000).toNat)

theorem walksEnd (pkt : Packet) : WellFounded fun later here => Walks pkt here later := by
  refine Subrelation.wf (r := InvImage (Prod.Lex (· < ·) (· < ·)) fun at_ : Nat × Nat => (at_.1, pkt.size - at_.2)) ?_
    (InvImage.wf _ (Prod.lex ⟨_,Nat.lt_wfRel.wf⟩ ⟨_,Nat.lt_wfRel.wf⟩).wf)
  intro later here walks
  cases walks with
  | label =>
    refine Prod.Lex.right _ ?_
    dsimp only
    omega
  | pointer => exact Prod.Lex.left _ _ (Nat.lt_succ_self _)

/- A name that is sized is copied with that size, behind what was copied before. -/
def Agrees (sized : Nat → Reads Status (Nat × Nat)) (copied : Nat → Name → Reads Status Name) : Prop :=
  ∀ start name len, (sized start).result = .ok len →
    ∃ out, (copied start name).result = .ok out ∧ out.length = name.length + len.2

variable {pkt : Packet}

theorem loopAgrees {sized : Nat → Reads Status (Nat × Nat)} {copied : Nat → Name → Reads Status Name}
    (agrees : Agrees sized copied) {p parsedLen nameLen : Nat} {len : Nat × Nat} (name : Name)
    (ok : (nameLenLoop pkt sized p parsedLen nameLen).result = .ok len) :
    ∃ out, (nameLoop pkt copied p name).result = .ok out ∧ out.length + nameLen = name.length + len.2 := by
  induction p, parsedLen, nameLen using nameLenLoop.induct pkt generalizing name with
  | case1 p parsedLen nameLen ih =>
    rw [nameLenLoop,readByteResult] at ok
    rw [nameLoop,readByteResult]
    split at ok
    · next zero =>
      rw [if_pos zero]
      cases ok
      exact ⟨name,rfl,Nat.add_comm _ _ ▸ rfl⟩
    · next nonzero =>
      rw [if_neg nonzero]
      split at ok
      · next pointer =>
        rw [if_pos pointer,read16Result]
        rw [read16Result] at ok
        dsimp only at ok ⊢
        split at ok
        · simp at ok
        · next inside =>
          rw [if_neg inside]
          obtain ⟨inner,found,done⟩ := bindResult ok
          obtain ⟨out,copy,length⟩ := agrees _ name inner found
          cases done
          exact ⟨out,copy,by dsimp only; omega⟩
      · next label =>
        rw [if_neg label]
        split at ok
        · simp at ok
        · next fits =>
          rw [if_neg fits,readSliceResult]
          dsimp only at ok ⊢
          rw [readByteResult] at ok ⊢
          split at ok
          · simp at ok
          · next inside =>
            rw [if_neg inside]
            obtain ⟨out,copy,length⟩ := ih _ _ inside
              (name ++ slice pkt.mem (p + 1) (pkt.mem p).toNat ++ if pkt.mem (p + ((pkt.mem p).toNat + 1)) ≠ 0 then [dot] else [])
              ok
            refine ⟨out,copy,?_⟩
            rw [List.length_append,List.length_append,sliceLength] at length
            split at length <;> simp only [List.length_singleton,List.length_nil] at length <;> omega

theorem hopsAgree (hops : Nat) : Agrees (getNameLen pkt hops) (getName pkt hops) := by
  induction hops with
  | zero =>
    intro start name len ok
    cases ok
  | succ hops ih =>
    intro start name len ok
    exact loopAgrees ih name ok

theorem loopBound {sized : Nat → Reads Status (Nat × Nat)} {most : Nat}
    (inner : ∀ start len, (sized start).result = .ok len → len.2 ≤ most) {p parsedLen nameLen : Nat} {len : Nat × Nat}
    (ok : (nameLenLoop pkt sized p parsedLen nameLen).result = .ok len) : len.2 ≤ nameLen + (pkt.size - p) + most := by
  induction p, parsedLen, nameLen using nameLenLoop.induct pkt with
  | case1 p parsedLen nameLen ih =>
    rw [nameLenLoop,readByteResult] at ok
    split at ok
    · cases ok
      dsimp only
      omega
    · split at ok
      · rw [read16Result] at ok
        dsimp only at ok
        split at ok
        · simp at ok
        · obtain ⟨found,is,done⟩ := bindResult ok
          have least := inner _ found is
          cases done
          dsimp only
          omega
      · split at ok
        · simp at ok
        · dsimp only at ok
          rw [readByteResult] at ok
          split at ok
          · simp at ok
          · next inside =>
            have rest := ih _ _ inside ok
            split at rest <;> omega

theorem nameLenBound (hops : Nat) {start : Nat} {len : Nat × Nat} (ok : (getNameLen pkt hops start).result = .ok len) :
    len.2 ≤ hops * pkt.size := by
  induction hops generalizing start len with
  | zero => cases ok
  | succ hops ih =>
    have bound := loopBound (fun start len found => ih found) ok
    rw [Nat.succ_mul]
    omega

/- Both functions end on every packet, and a name that get_name_len sizes is copied by get_name with exactly that size. -/
theorem nameSizeAgrees (pkt : Packet) :
    (WellFounded fun later here => Walks pkt here later) ∧
      ∀ (start : Nat) (len : Nat × Nat), (getNameLen pkt maxHops start).result = .ok len →
        len.2 ≤ maxHops * pkt.size ∧ ∃ name, (getName pkt maxHops start []).result = .ok name ∧ name.length = len.2 := by
  refine ⟨walksEnd pkt,fun start len ok => ⟨nameLenBound maxHops ok,?_⟩⟩
  obtain ⟨name,copy,length⟩ := hopsAgree maxHops start [] len ok
  exact ⟨name,copy,by rw [length,List.length_nil,Nat.zero_add]⟩

end Pjproject.DnsPacket
