import Pjproject.TurnShutdown

/-! The DESTROYING state of a TURN session: what leaves it or reports it twice before the session is destroyed. -/
namespace Pjproject.Turn
open Stun (Msg SockAddr findAttr)

def Session.notices (sess : Session) : Nat := sess.notified.count .destroying

/- DESTROYING was reported once when it is the state and never before. -/
def Session.Once (sess : Session) : Prop := sess.notices = if sess.state = .destroying then 1 else 0

/- A response after which on_allocate_success keeps the allocation. -/
def Session.granted (sess : Session) (method : Method) (msg : Msg) : Bool :=
  (findAttr msg attrLifetime).any (fun lifetime =>
    Attr.value lifetime ≠ 0 && !(decide (Attr.value lifetime < turnKeepAliveSec ∧ Attr.value lifetime ≤ 2)) &&
      sess.relayOk method ((findAttr msg attrXorRelayedAddr).map Attr.sockaddr))

variable {sess out : Session}

structure Quiet (sess out : Session) : Prop where
  state : out.state = sess.state
  notified : out.notified = sess.notified

theorem Quiet.trans {a b c : Session} (first : Quiet a b) (next : Quiet b c) : Quiet a c :=
  ⟨next.state.trans first.state,next.notified.trans first.notified⟩

theorem Quiet.once (quiet : Quiet sess out) (once : sess.Once) : out.Once := by
  unfold Session.Once Session.notices
  rw [quiet.state,quiet.notified]
  exact once

/- The session left DESTROYING or reported it again. -/
def Broken (sess out : Session) : Prop := out.state ≠ .destroying ∨ sess.notices < out.notices

/- A condition that tells whether the session stays as it is. -/
structure Decides (kept : Bool) (sess out : Session) : Prop where
  quiet : kept = true → Quiet sess out
  broken : kept = false → Broken sess out

theorem keeps {kept : Bool} (isKept : kept = true) (quiet : Quiet sess out) :
    Decides kept sess out := ⟨fun _ => quiet,fun other => absurd (isKept.symm.trans other) (by decide)⟩

theorem breaks {kept : Bool} (notKept : kept = false) (broken : Broken sess out) :
    Decides kept sess out := ⟨fun other => absurd (notKept.symm.trans other) (by decide),fun _ => broken⟩

/- From DESTROYING on, the state stays and DESTROYING has been reported once. -/
def Session.Final (sess : Session) (inputs : List Input) : Prop :=
  ∀ before after rest, inputs = before ++ after ++ rest → (sess.run before).state = .destroying →
    (sess.run (before ++ after)).state = .destroying ∧
      (sess.run (before ++ after)).notified.count .destroying = 1

end Pjproject.Turn
