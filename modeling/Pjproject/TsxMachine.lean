import Pjproject.TsxModel

/-! The transaction as a machine of its own: what a transaction is for, without timers, transports and sends.
Its moves are the changes of state a client or a server may make; the discipline of the states and the stored
response of a server are invariants of the moves. -/
namespace Pjproject.Tsx

structure Core where
  role : Role
  method : Method
  state : State
  stateHandler : Option Handler
  statusCode : Nat
  lastTx : Option TxData
  trail : List Transition
  missing : Bool

def Core.enter (c : Core) (state : State) (source : Source) : Core :=
  { c with
    state := state
    stateHandler := stateHandlers c.role state
    trail := ⟨c.state,state,source⟩ :: c.trail }

/- The moves. A response with a code under 100 is irregular: a server that sends one keeps no response. -/
inductive Move (irregular : Prop) (c : Core) : Core → Prop where
  | request (client : c.role = .uac) (null : c.state = .null) (tdata : TxData) :
      Move irregular c (Core.enter { c with lastTx := some tdata } .calling .txMsg)
  | accept (server : c.role = .uas) (null : c.state = .null) (source : Source) :
      Move irregular c (c.enter .trying source)
  | provisional (server : c.role = .uas) (open_ : c.state = .trying ∨ c.state = .proceeding) (tdata : TxData)
      (code : Nat) (cseq : Method) (msg : tdata.msg = .response code cseq) (early : inClass code 100 = true) :
      Move irregular c
        (Core.enter { c with statusCode := code, lastTx := some tdata } .proceeding .txMsg)
  | final (server : c.role = .uas) (open_ : c.state = .trying ∨ c.state = .proceeding) (tdata : TxData)
      (code : Nat) (cseq : Method) (msg : tdata.msg = .response code cseq) (late : 200 ≤ code) :
      Move irregular c (Core.enter { c with statusCode := code, lastTx := some tdata } .completed .txMsg)
  | odd (odd : irregular) (server : c.role = .uas) (open_ : c.state = .trying ∨ c.state = .proceeding)
      (code : Nat) (last : Option TxData) :
      Move irregular c { c with statusCode := code, lastTx := last }
  | oddTrying (odd : irregular) (server : c.role = .uas) (trying : c.state = .trying) :
      Move irregular c (c.enter .proceeding .txMsg)
  | record (client : c.role = .uac) (code : Nat) (last : Option TxData) :
      Move irregular c { c with statusCode := code, lastTx := last }
  | answered (client : c.role = .uac) (open_ : c.state = .calling ∨ c.state = .proceeding) (code : Nat)
      (source : Source) :
      Move irregular c (Core.enter { c with statusCode := code } .proceeding source)
  | completed (client : c.role = .uac) (open_ : c.state = .calling ∨ c.state = .proceeding) (code : Nat)
      (source : Source) :
      Move irregular c (Core.enter { c with statusCode := code } .completed source)
  | confirm (server : c.role = .uas) (invite : c.method = .invite) (done : c.state = .completed) :
      Move irregular c (c.enter .confirmed (.rxMsg (.request .ack)))
  | retire (live : c.state.num < State.terminated.num) (code : Nat) (last : Option TxData) (source : Source) :
      Move irregular c (Core.enter { c with statusCode := code, lastTx := last } .terminated source)
  | destroy (dead : c.state = .terminated) (source : Source) :
      Move irregular c (Core.enter { c with lastTx := none } .destroyed source)

/- A sequence of moves. -/
def Path (irregular : Prop) : Core → Core → Prop := Relation.ReflTransGen (Move irregular)

/- The changes of state so far lead from null to the present state and none goes back. -/
def Climbs : State → List Transition → Prop
  | s, [] => s = .null
  | s, t :: earlier => t.after = s ∧ t.before.num ≤ t.after.num ∧ Climbs t.before earlier

theorem Climbs.bounded {s : State} {trail : List Transition} (climbs : Climbs s trail) (t : Transition)
    (inside : t ∈ trail) : t.before.num ≤ s.num ∧ t.after.num ≤ s.num := by
  induction trail generalizing s with
  | nil => cases inside
  | cons u earlier ih =>
    obtain ⟨rfl,up,rest⟩ := climbs
    rcases List.mem_cons.mp inside with rfl | before
    · exact ⟨up,Nat.le_refl _⟩
    · obtain ⟨one,two⟩ := ih rest before
      exact ⟨Nat.le_trans one up,Nat.le_trans two up⟩

/- Confirmed is entered by the server of an INVITE alone, from completed, on an ACK. -/
def ConfirmedOnAck (c : Core) : Prop :=
  ∀ t ∈ c.trail, t.after = .confirmed →
    c.role = .uas ∧ c.method = .invite ∧ t.before = .completed ∧ t.source = .rxMsg (.request .ack)

structure Disciplined (c : Core) : Prop where
  climbs : Climbs c.state c.trail
  confirmed : ConfirmedOnAck c
  missing : c.missing = false

/- A server that has answered holds its last response, and its status code is that of the response. -/
def Answers (c : Core) : Prop :=
  c.role = .uas → c.state = .proceeding ∨ c.state = .completed →
    ∃ tdata code cseq, c.lastTx = some tdata ∧ tdata.msg = .response code cseq ∧ c.statusCode = code

/- Without irregular responses the response a live server holds is a regular one. -/
def Stored (irregular : Prop) (c : Core) : Prop :=
  ¬ irregular → c.role = .uas → c.state.num < State.terminated.num →
    ∀ tdata code cseq, c.lastTx = some tdata → tdata.msg = .response code cseq → 100 ≤ code

variable {c c' : Core} {irregular : Prop}

theorem Disciplined.enter (disciplined : Disciplined c) {s : State} (up : c.state.num ≤ s.num)
    (notConfirmed : s ≠ .confirmed) (source : Source) (code : Nat) (last : Option TxData) :
    Disciplined (Core.enter { c with statusCode := code, lastTx := last } s source) := by
  refine ⟨⟨rfl,up,disciplined.climbs⟩,?_,disciplined.missing⟩
  intro t inside after
  rcases List.mem_cons.mp inside with rfl | before
  · exact absurd after notConfirmed
  · exact disciplined.confirmed t before after

theorem moveUp (move : Move irregular c c') :
    c'.role = c.role ∧ c'.method = c.method ∧ c.state.num ≤ c'.state.num := by
  have two : ∀ {a b s : State}, a.num ≤ s.num → b.num ≤ s.num → c.state = a ∨ c.state = b →
      c.state.num ≤ s.num := by
    rintro a b s lower upper (same | same)
    · rw [same]
      exact lower
    · rw [same]
      exact upper
  have one : ∀ {a s : State}, a.num ≤ s.num → c.state = a → c.state.num ≤ s.num := fun lower same =>
    two lower lower (.inl same)
  cases move with
  | request client null => exact ⟨rfl,rfl,one (s := .calling) (by decide) null⟩
  | accept server null => exact ⟨rfl,rfl,one (s := .trying) (by decide) null⟩
  | provisional server open_ => exact ⟨rfl,rfl,two (s := .proceeding) (by decide) (by decide) open_⟩
  | final server open_ => exact ⟨rfl,rfl,two (s := .completed) (by decide) (by decide) open_⟩
  | odd => exact ⟨rfl,rfl,Nat.le_refl _⟩
  | oddTrying odd server trying => exact ⟨rfl,rfl,one (s := .proceeding) (by decide) trying⟩
  | record => exact ⟨rfl,rfl,Nat.le_refl _⟩
  | answered client open_ => exact ⟨rfl,rfl,two (s := .proceeding) (by decide) (by decide) open_⟩
  | completed client open_ => exact ⟨rfl,rfl,two (s := .completed) (by decide) (by decide) open_⟩
  | confirm server invite done => exact ⟨rfl,rfl,one (s := .confirmed) (by decide) done⟩
  | retire live => exact ⟨rfl,rfl,Nat.le_of_lt live⟩
  | destroy dead => exact ⟨rfl,rfl,one (s := .destroyed) (by decide) dead⟩

theorem moveDisciplined (move : Move irregular c c') (disciplined : Disciplined c) : Disciplined c' := by
  have up := (moveUp move).2.2
  cases move with
  | request => exact disciplined.enter (s := .calling) up (by decide) _ _ _
  | accept => exact disciplined.enter (s := .trying) up (by decide) _ _ _
  | provisional => exact disciplined.enter (s := .proceeding) up (by decide) _ _ _
  | final => exact disciplined.enter (s := .completed) up (by decide) _ _ _
  | odd => exact ⟨disciplined.climbs,disciplined.confirmed,disciplined.missing⟩
  | oddTrying => exact disciplined.enter (s := .proceeding) up (by decide) _ _ _
  | record => exact ⟨disciplined.climbs,disciplined.confirmed,disciplined.missing⟩
  | answered => exact disciplined.enter (s := .proceeding) up (by decide) _ _ _
  | completed => exact disciplined.enter (s := .completed) up (by decide) _ _ _
  | confirm server invite done =>
    refine ⟨⟨rfl,up,disciplined.climbs⟩,?_,disciplined.missing⟩
    intro t inside after
    rcases List.mem_cons.mp inside with rfl | before
    · exact ⟨server,invite,done,rfl⟩
    · exact disciplined.confirmed t before after
  | retire => exact disciplined.enter (s := .terminated) up (by decide) _ _ _
  | destroy => exact disciplined.enter (s := .destroyed) up (by decide) _ _ _

theorem moveAnswers (regular : ¬ irregular) (move : Move irregular c c') : Answers c' := by
  cases move with
  | request client => exact fun server => nomatch client.symm.trans server
  | accept => exact fun _ busy => by rcases busy with busy | busy <;> cases busy
  | provisional server open_ tdata code cseq msg => exact fun _ _ => ⟨tdata,code,cseq,rfl,msg,rfl⟩
  | final server open_ tdata code cseq msg => exact fun _ _ => ⟨tdata,code,cseq,rfl,msg,rfl⟩
  | odd odd => exact absurd odd regular
  | oddTrying odd => exact absurd odd regular
  | record client => exact fun server => nomatch client.symm.trans server
  | answered client => exact fun server => nomatch client.symm.trans server
  | completed client => exact fun server => nomatch client.symm.trans server
  | confirm => exact fun _ busy => by rcases busy with busy | busy <;> cases busy
  | retire => exact fun _ busy => by rcases busy with busy | busy <;> cases busy
  | destroy => exact fun _ busy => by rcases busy with busy | busy <;> cases busy

theorem moveStored (move : Move irregular c c') (stored : Stored irregular c) : Stored irregular c' := by
  have saved : ∀ {tdata : TxData} {code : Nat} {cseq : Method}, tdata.msg = .response code cseq → 100 ≤ code →
      ∀ tdata' code' cseq', some tdata = some tdata' → tdata'.msg = .response code' cseq' → 100 ≤ code' := by
    intro tdata code cseq msg enough tdata' code' cseq' same msg'
    cases same
    rw [msg] at msg'
    cases msg'
    exact enough
  have hundred : ∀ {code : Nat}, inClass code 100 = true → 100 ≤ code := by
    intro code early
    have quotient : code / 100 = 1 := by simpa [inClass] using early
    omega
  cases move with
  | request client => exact fun _ server => nomatch client.symm.trans server
  | accept server null => exact fun regular role _ => stored regular role (by rw [null]; decide)
  | provisional server open_ tdata code cseq msg early => exact fun _ _ _ => saved msg (hundred early)
  | final server open_ tdata code cseq msg late => exact fun _ _ _ => saved msg (Nat.le_trans (by decide) late)
  | odd odd => exact fun regular => absurd odd regular
  | oddTrying odd => exact fun regular => absurd odd regular
  | record client => exact fun _ server => nomatch client.symm.trans server
  | answered client => exact fun _ server => nomatch client.symm.trans server
  | completed client => exact fun _ server => nomatch client.symm.trans server
  | confirm server invite done => exact fun regular role _ => stored regular role (by rw [done]; decide)
  | retire => exact fun _ _ live => absurd live (Nat.lt_irrefl _)
  | destroy => exact fun _ _ live => absurd live (show ¬ State.destroyed.num < State.terminated.num by decide)

theorem pathUp (path : Path irregular c c') :
    c'.role = c.role ∧ c'.method = c.method ∧ c.state.num ≤ c'.state.num := by
  induction path with
  | refl => exact ⟨rfl,rfl,Nat.le_refl _⟩
  | tail _ move ih =>
    obtain ⟨role,method,up⟩ := moveUp move
    exact ⟨role.trans ih.1,method.trans ih.2.1,Nat.le_trans ih.2.2 up⟩

theorem pathDisciplined (path : Path irregular c c') (disciplined : Disciplined c) : Disciplined c' := by
  induction path with
  | refl => exact disciplined
  | tail _ move ih => exact moveDisciplined move ih

theorem pathAnswers (regular : ¬ irregular) (path : Path irregular c c') (answers : Answers c) : Answers c' := by
  induction path with
  | refl => exact answers
  | tail _ move => exact moveAnswers regular move

theorem pathStored (path : Path irregular c c') (stored : Stored irregular c) : Stored irregular c' := by
  induction path with
  | refl => exact stored
  | tail _ move ih => exact moveStored move ih

end Pjproject.Tsx
