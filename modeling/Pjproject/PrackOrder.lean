import Pjproject.PrackModel

/-! Reliable responses of one INVITE transaction: none is sent before the one in front of it was acknowledged, and the
other side acknowledges each once and in their order. -/
namespace Pjproject.Rel100

section Texts

theorem strtoulFromDigits (digits rest : List Char) (all : ∀ c ∈ digits, c.isDigit = true) (value : Nat)
    (stops : ∀ c ∈ rest.head?, c.isDigit = false) :
    strtoulFrom (UInt64.ofNat value) (digits ++ rest) = UInt64.ofNat (Nat.ofDigitChars 10 digits value) := by
  induction digits generalizing value with
  | nil =>
    rw [List.nil_append,Nat.ofDigitChars_nil]
    cases rest with
    | nil => rfl
    | cons c =>
      rw [strtoulFrom,if_neg]
      rw [stops c rfl]
      exact Bool.false_ne_true
  | cons c digits ih =>
    have isDigit := all c List.mem_cons_self
    rw [List.cons_append,strtoulFrom,if_pos isDigit,Nat.ofDigitChars_cons]
    rw [← ih (fun c member => all c (List.mem_cons_of_mem _ member))]
    congr 1
    rw [UInt64.ofNat_add,UInt64.ofNat_mul,UInt64.mul_comm]
    rfl

theorem printDigits (n : UInt32) : ∀ c ∈ printU n, c.isDigit = true :=
  fun _ member => Nat.isDigit_of_mem_toDigits (by decide) (by decide) member

theorem strtoulPrint (n : UInt32) : (strtoul (printU n)).toUInt32 = n := by
  have read := strtoulFromDigits (printU n) [] (printDigits n) 0 nofun
  rw [List.append_nil] at read
  have value : strtoul (printU n) = UInt64.ofNat n.toNat := by
    refine read.trans ?_
    rw [printU,Nat.ofDigitChars_ten_toDigits]
  rw [value]
  simp

theorem printTake (n : UInt32) (rest : List Char) :
    (printU n ++ ' ' :: rest).takeWhile Char.isDigit = printU n := by
  rw [List.takeWhile_append_of_pos (printDigits n),List.takeWhile_cons_of_neg (by decide),List.append_nil]

theorem printDrop (n : UInt32) (rest : List Char) :
    ((printU n ++ ' ' :: rest).dropWhile Char.isDigit).drop 1 = rest := by
  rw [List.dropWhile_append_of_pos (printDigits n),List.dropWhile_cons_of_neg (by decide),List.drop_one,
    List.tail_cons]

theorem parseRackPrint (rack : Rack) : parseRack rack.print = rack := by
  unfold parseRack Rack.print
  simp only [printTake,printDrop,strtoulPrint]

end Texts

/- The response that waits for its PRACK, as the actions of the UAS tell. -/
def await : Option Response → Action → Option Response
  | p, .sent r => if r.isReliable then some r else p
  | p, .resent _ => p
  | p, .matched r => if p = some r then none else p

def waiting (log : List Action) : Option Response := log.foldl await none

def Response.isSuccess (r : Response) : Bool := r.code / 100 = 2

/- No reliable response goes out while one waits, and no success while one with a body waits. -/
def Orderly (log : List Action) : Prop :=
  ∀ before r after, log = before ++ .sent r :: after →
    (r.isReliable = true → waiting before = none) ∧
      (r.isSuccess = true → ∀ q, waiting before = some q → q.body = false)

section Logs

variable {log : List Action}

theorem waitingAppend (log : List Action) (a : Action) : waiting (log ++ [a]) = await (waiting log) a := by
  rw [waiting,List.foldl_append]
  rfl

theorem orderlyAppend (orderly : Orderly log) {a : Action}
    (sent : ∀ r, a = .sent r → (r.isReliable = true → waiting log = none) ∧
      (r.isSuccess = true → ∀ q, waiting log = some q → q.body = false)) : Orderly (log ++ [a]) := by
  intro before r after same
  rcases List.eq_nil_or_concat after with rfl | ⟨front,last,rfl⟩
  · obtain ⟨rfl,only⟩ := List.append_inj' same rfl
    exact sent r (List.cons.inj only).1
  · rw [List.concat_eq_append,← List.cons_append,← List.append_assoc] at same
    exact orderly before r front (List.append_inj' same rfl).1

theorem orderlyResent (orderly : Orderly log) (r : Response) : Orderly (log ++ [.resent r]) :=
  orderlyAppend orderly (fun _ same => nomatch same)

theorem orderlyMatched (orderly : Orderly log) (r : Response) : Orderly (log ++ [.matched r]) :=
  orderlyAppend orderly (fun _ same => nomatch same)

theorem waitsOn (orderly : Orderly log) {early middle later : List Action} {r : Response}
    (whole : log = early ++ .sent r :: (middle ++ later)) (reliable : r.isReliable = true)
    (unmatched : Action.matched r ∉ middle) : waiting (early ++ .sent r :: middle) = some r := by
  induction middle using List.reverseRecOn generalizing later with
  | nil => rw [waitingAppend,await,if_pos reliable]
  | append_singleton front last ih =>
    have shorter : log = early ++ .sent r :: (front ++ (last :: later)) := by
      rw [whole,List.append_assoc]
      rfl
    have before := ih shorter (fun member => unmatched (List.mem_append_left _ member))
    rw [← List.cons_append,← List.append_assoc,waitingAppend,before]
    cases last with
    | resent => rfl
    | matched =>
      rw [await,if_neg]
      intro same
      obtain rfl := Option.some.inj same
      exact unmatched (List.mem_append_right _ List.mem_cons_self)
    | sent q =>
      rw [await]
      split
      · rename_i other
        have none := (orderly (early ++ .sent r :: front) q later (by rw [whole]; simp)).1 other
        rw [before] at none
        contradiction
      · rfl

end Logs

/- An entry of the queue: a success that has to wait, or a provisional response with its RSeq. -/
def TxData.Fits (tl : TxData) (cseq : UInt32) : Prop :=
  tl.tdata.isSuccess = true ∨
    (tl.tdata.isReliable = true ∧ tl.tdata.rseq = some (printU tl.rseq) ∧ tl.tdata.cseq = cseq)

/- The timer runs as long as there is something in the queue, which a provisional response leads. -/
structure Armed (u : UasState) : Prop where
  timer : u.retransmitTimer.isSome = true ↔ u.txDataList ≠ []
  count : u.txDataList ≠ [] → 1 ≤ u.retransmitCount
  entries : ∀ tl ∈ u.txDataList, tl.Fits u.cseq
  head : ∀ tl ∈ u.txDataList.head?, tl.tdata.isReliable = true

def Dialog.head (d : Dialog) : Option Response := (d.uasState.bind (fun u => u.txDataList.head?)).map TxData.tdata

/- While the INVITE can be answered, what waits for a PRACK is the head of the queue. -/
structure Tidy (d : Dialog) : Prop where
  armed : ∀ u, d.uasState = some u → Armed u
  orderly : Orderly d.log
  idle : d.state ≠ .early → d.state ≠ .confirmed → d.inviteTsx = none
  next : d.inviteTsx ≠ none → waiting d.log = d.head

def Dialog.timesOut (d : Dialog) : Bool :=
  d.uasState.any (fun u => u.retransmitTimer.isSome && decide (6 ≤ u.retransmitCount))

/- A session that is established has no answer left for a timeout. -/
def Dialog.endsTimeout (d : Dialog) (event : Local) : Bool :=
  decide (event ≠ .timer) || decide (d.state ≠ .confirmed) || !d.timesOut

section Steps

variable {d : Dialog} {u : UasState}

variable {r : Response} {tl : TxData} {rest : List TxData}

theorem reliableBelow (reliable : r.isReliable = true) : r.code < 200 ∧ r.isSuccess = false := by
  simp only [Response.isReliable,Bool.and_eq_true,decide_eq_true_eq] at reliable
  refine ⟨reliable.1.2,decide_eq_false ?_⟩
  omega

theorem successAbove (success : r.isSuccess = true) : 200 ≤ r.code ∧ r.code < 300 ∧ r.isReliable = false := by
  have hundreds : r.code / 100 = 2 := of_decide_eq_true success
  refine ⟨by omega,by omega,?_⟩
  cases reliable : r.isReliable with
  | false => rfl
  | true =>
    have below := (reliableBelow reliable).1
    omega

theorem armedEmpty (list : u.txDataList = []) (timer : u.retransmitTimer = none) : Armed u := by
  refine ⟨⟨fun some => ?_,fun some => absurd list some⟩,fun some => absurd list some,fun tl member => ?_,fun tl member => ?_⟩
  · rw [timer] at some
    contradiction
  · rw [list] at member
    contradiction
  · rw [list] at member
    contradiction

theorem armedCleared (u : UasState) : Armed u.cancelTimer.clearAllResponses := armedEmpty rfl rfl

theorem armedHead (list : u.txDataList = tl :: rest)
    (timer : u.retransmitTimer.isSome = true) (count : 1 ≤ u.retransmitCount) (entries : ∀ q ∈ tl :: rest, q.Fits u.cseq)
    (reliable : tl.tdata.isReliable = true) : Armed u := by
  refine ⟨⟨fun _ => ?_,fun _ => timer⟩,fun _ => count,list ▸ entries,fun q member => ?_⟩
  · rw [list]
    exact nofun
  · rw [list] at member
    obtain rfl := Option.some.inj member
    exact reliable

theorem Armed.queued (armed : Armed u) (more : u.txDataList ≠ []) (fits : tl.Fits u.cseq) (rseq : UInt32) :
    Armed { u with rseq := rseq, txDataList := u.txDataList ++ [tl] } := by
  obtain ⟨first,rest,list⟩ := List.exists_cons_of_ne_nil more
  have longer : u.txDataList ++ [tl] = first :: (rest ++ [tl]) := by
    rw [list,List.cons_append]
  refine armedHead longer (armed.timer.mpr more) (armed.count more) (fun q member => ?_) (armed.head first ?_)
  · rw [← longer] at member
    rcases List.mem_append.mp member with before | new
    · exact armed.entries q before
    · rw [List.mem_singleton.mp new]
      exact fits
  · rw [list]
    rfl

theorem answeredEnds (d : Dialog) (code : Nat) :
    (d.answered code).inviteTsx = none ∧ (d.answered code).log = d.log ∧ ((d.answered code).uasState = d.uasState ∨
        (d.answered code).uasState = d.uasState.map (fun u => u.cancelTimer.clearAllResponses)) := by
  unfold Dialog.answered
  cases d.state with
  | early =>
    dsimp only
    split
    · exact ⟨rfl,rfl,.inl rfl⟩
    · exact ⟨rfl,rfl,.inr rfl⟩
  | connecting => exact ⟨rfl,rfl,.inl rfl⟩
  | confirmed => exact ⟨rfl,rfl,.inl rfl⟩
  | disconnected => exact ⟨rfl,rfl,.inl rfl⟩

theorem sendMsgCases (d : Dialog) (r : Response) : (d.inviteTsx = none ∧ d.sendMsg r = d) ∨
      (d.inviteTsx ≠ none ∧ (d.sendMsg r).log = d.log ++ [.sent r] ∧
        ((r.code < 200 ∧ (d.sendMsg r).inviteTsx = d.inviteTsx ∧ (d.sendMsg r).state = d.state ∧
            (d.sendMsg r).uasState = d.uasState) ∨ (200 ≤ r.code ∧ (d.sendMsg r).inviteTsx = none ∧
            ((d.sendMsg r).uasState = d.uasState ∨
              (d.sendMsg r).uasState = d.uasState.map (fun u => u.cancelTimer.clearAllResponses))))) := by
  unfold Dialog.sendMsg
  split
  · rename_i none
    exact .inl ⟨none,rfl⟩
  · rename_i cseq here
    refine .inr ⟨by rw [here]; exact nofun,?_⟩
    dsimp only
    split
    · rename_i final
      obtain ⟨ends,log,state⟩ := answeredEnds { d with log := d.log ++ [.sent r] } r.code
      exact ⟨log,.inr ⟨final,ends,state⟩⟩
    · rename_i provisional
      exact ⟨rfl,.inl ⟨Nat.lt_of_not_le provisional,rfl,rfl,rfl⟩⟩

theorem armedMap (armed : ∀ u, d.uasState = some u → Armed u) {state : Option UasState}
    (same : state = d.uasState ∨ state = d.uasState.map (fun u => u.cancelTimer.clearAllResponses)) :
    ∀ u, state = some u → Armed u := by
  rcases same with rfl | rfl
  · exact armed
  · intro u here
    obtain ⟨old,_,rfl⟩ := Option.map_eq_some_iff.mp here
    exact armedCleared old

theorem sendFinalTidy (tidy : Tidy d) (final : 200 ≤ r.code)
    (success : d.inviteTsx ≠ none → r.isSuccess = true → ∀ q, waiting d.log = some q → q.body = false) :
    Tidy (d.sendMsg r) := by
  rcases sendMsgCases d r with ⟨_,same⟩ | ⟨open',log,provisional | ⟨_,ends,state⟩⟩
  · rw [same]
    exact tidy
  · have below := provisional.1
    omega
  · refine ⟨armedMap tidy.armed state,?_,fun _ _ => ends,fun some => absurd ends some⟩
    rw [log]
    refine orderlyAppend tidy.orderly (fun q same => ?_)
    obtain rfl := Action.sent.inj same
    refine ⟨fun reliable => ?_,success open'⟩
    have below := (reliableBelow reliable).1
    omega

theorem sendPlainTidy (tidy : Tidy d) (plain : r.code = 100) : Tidy (d.sendMsg r) := by
  have unreliable : r.isReliable = false := by
    unfold Response.isReliable
    rw [plain]
    rfl
  have provisional : r.isSuccess = false := by
    unfold Response.isSuccess
    rw [plain]
    rfl
  rcases sendMsgCases d r with ⟨_,same⟩ | ⟨open',log,⟨_,tsx,state,uas⟩ | ⟨final,_⟩⟩
  · rw [same]
    exact tidy
  · refine ⟨fun u here => tidy.armed u (uas ▸ here),?_,fun early confirmed => ?_,fun some => ?_⟩
    · rw [log]
      refine orderlyAppend tidy.orderly (fun q same => ?_)
      obtain rfl := Action.sent.inj same
      rw [unreliable,provisional]
      exact ⟨nofun,nofun⟩
    · rw [tsx]
      exact tidy.idle (state ▸ early) (state ▸ confirmed)
    · rw [log,waitingAppend,await,unreliable,Dialog.head,uas]
      exact tidy.next (tsx ▸ some)
  · omega

/- What on_retransmit starts from: a queue that is not empty, with its head not sent yet or waiting for a PRACK. -/
structure Ready (d : Dialog) (u : UasState) (tl : TxData) (rest : List TxData) : Prop where
  list : u.txDataList = tl :: rest
  entries : ∀ tl ∈ u.txDataList, tl.Fits u.cseq
  orderly : Orderly d.log
  idle : d.state ≠ .early → d.state ≠ .confirmed → d.inviteTsx = none
  first : u.retransmitCount = 0 → d.inviteTsx ≠ none → waiting d.log = none
  later : u.retransmitCount ≠ 0 → tl.tdata.isReliable = true ∧ (d.inviteTsx ≠ none → waiting d.log = some tl.tdata)

theorem rejectTidy (ready : Ready d u tl rest) (established : d.state ≠ .confirmed)
    {v : UasState} (empty : Armed v) : Tidy { d with uasState := some v }.rejectUnacknowledged := by
  have armed : ∀ w, some v = some w → Armed w := by
    intro w same
    rw [← Option.some.inj same]
    exact empty
  unfold Dialog.rejectUnacknowledged
  split
  · rename_i cseq _ invite
    generalize now : ({ d with uasState := some v } : Dialog) = e at invite ⊢
    have uas : e.uasState = some v := by rw [← now]
    have log : e.log = d.log := by rw [← now]
    generalize rejection : ({ code := 500, body := false, cseq := cseq } : Response) = r
    have final : 200 ≤ r.code ∧ r.isReliable = false ∧ r.isSuccess = false := by
      rw [← rejection]
      exact ⟨Nat.le_of_ble_eq_true rfl,rfl,by simp [Response.isSuccess]⟩
    rcases sendMsgCases e r with ⟨none,_⟩ | ⟨_,log',⟨below,_⟩ | ⟨_,ends,state⟩⟩
    · rw [none] at invite
      contradiction
    · omega
    · refine ⟨armedMap (uas ▸ armed) state,?_,fun _ _ => ends,fun some => absurd ends some⟩
      rw [log',log]
      refine orderlyAppend ready.orderly (fun q same => ?_)
      obtain rfl := Action.sent.inj same
      rw [final.2.1,final.2.2]
      exact ⟨nofun,nofun⟩
  · rename_i other
    refine ⟨armed,ready.orderly,ready.idle,fun some => ?_⟩
    refine absurd (ready.idle (fun early => ?_) established) some
    obtain ⟨cseq,invite⟩ := Option.ne_none_iff_exists'.mp some
    exact other cseq early invite

theorem sendHead (ready : Ready d u tl rest) (zero : u.retransmitCount = 0) : Orderly (d.sendMsg tl.tdata).log ∧
      ((d.sendMsg tl.tdata).state ≠ .early → (d.sendMsg tl.tdata).state ≠ .confirmed →
        (d.sendMsg tl.tdata).inviteTsx = none) ∧ ((d.sendMsg tl.tdata).inviteTsx ≠ none →
        tl.tdata.code < 200 ∧ (tl.tdata.isReliable = true → waiting (d.sendMsg tl.tdata).log = some tl.tdata)) := by
  rcases sendMsgCases d tl.tdata with ⟨none,same⟩ | ⟨open',log,later⟩
  · rw [same]
    exact ⟨ready.orderly,ready.idle,fun some => absurd none some⟩
  · have none := ready.first zero open'
    have orderly : Orderly (d.sendMsg tl.tdata).log := by
      rw [log]
      refine orderlyAppend ready.orderly (fun q same => ⟨fun _ => none,fun _ p here => ?_⟩)
      rw [none] at here
      contradiction
    rcases later with ⟨below,tsx,state,_⟩ | ⟨_,ends,_⟩
    · refine ⟨orderly,fun early confirmed => ?_,fun _ => ⟨below,fun reliable => ?_⟩⟩
      · rw [tsx]
        exact ready.idle (state ▸ early) (state ▸ confirmed)
      · rw [log,waitingAppend,await,if_pos reliable]
    · exact ⟨orderly,fun _ _ => ends,fun some => absurd ends some⟩

theorem resendHead (ready : Ready d u tl rest) (sent : u.retransmitCount ≠ 0) :
    Orderly (d.retransmitNoState tl.tdata).log ∧
      ((d.retransmitNoState tl.tdata).state ≠ .early → (d.retransmitNoState tl.tdata).state ≠ .confirmed →
        (d.retransmitNoState tl.tdata).inviteTsx = none) ∧
      ((d.retransmitNoState tl.tdata).inviteTsx ≠ none → waiting (d.retransmitNoState tl.tdata).log = some tl.tdata) := by
  unfold Dialog.retransmitNoState
  split
  · rename_i none
    exact ⟨ready.orderly,ready.idle,fun some => absurd none some⟩
  · refine ⟨orderlyResent ready.orderly tl.tdata,ready.idle,fun some => ?_⟩
    dsimp only
    rw [waitingAppend,await]
    exact (ready.later sent).2 some

theorem onRetransmitTidy (ready : Ready d u tl rest)
    (ends : 6 ≤ u.retransmitCount → d.state ≠ .confirmed) : Tidy (d.onRetransmit u) := by
  unfold Dialog.onRetransmit
  dsimp only
  split
  · rename_i expired
    exact rejectTidy ready (ends (by omega)) (armedEmpty rfl rfl)
  · rw [ready.list]
    dsimp only
    have fits := ready.entries tl (by rw [ready.list]; exact List.mem_cons_self)
    by_cases once : u.retransmitCount + 1 = 1
    · rw [if_pos once]
      obtain ⟨orderly,idle,next⟩ := sendHead ready (by omega)
      generalize d.sendMsg tl.tdata = e at orderly idle next ⊢
      split
      · rename_i final
        refine ⟨fun v same => ?_,orderly,idle,fun some => ?_⟩
        · rw [← Option.some.inj same]
          exact armedEmpty rfl rfl
        · have below := (next some).1
          omega
      · rename_i provisional
        have reliable : tl.tdata.isReliable = true := by
          rcases fits with success | ⟨reliable,_⟩
          · have above := (successAbove success).1
            omega
          · exact reliable
        refine ⟨fun v same => ?_,orderly,idle,fun some => (next some).2 reliable⟩
        rw [← Option.some.inj same]
        exact armedHead rfl rfl (Nat.le_add_left 1 _) (ready.list ▸ ready.entries) reliable
    · rw [if_neg once]
      have sent : u.retransmitCount ≠ 0 := by omega
      have reliable := (ready.later sent).1
      obtain ⟨orderly,idle,next⟩ := resendHead ready sent
      generalize d.retransmitNoState tl.tdata = e at orderly idle next ⊢
      have below := (reliableBelow reliable).1
      rw [if_neg (Nat.not_le_of_lt below)]
      refine ⟨fun v same => ?_,orderly,idle,fun some => next some⟩
      rw [← Option.some.inj same]
      exact armedHead rfl rfl (Nat.le_add_left 1 _) (ready.list ▸ ready.entries) reliable

theorem headOf (here : d.uasState = some u) : d.head = u.txDataList.head?.map TxData.tdata := by
  rw [Dialog.head,here,Option.bind_some]

theorem clearedTidy (tidy : Tidy d) (final : 200 ≤ r.code)
    (success : d.inviteTsx ≠ none → r.isSuccess = true → ∀ q, waiting d.log = some q → q.body = false) :
    Tidy ({ d with uasState := some u.cancelTimer.clearAllResponses }.sendMsg r) := by
  generalize now : ({ d with uasState := some u.cancelTimer.clearAllResponses } : Dialog) = e
  have log : e.log = d.log := by rw [← now]
  have tsx : e.inviteTsx = d.inviteTsx := by rw [← now]
  have state : e.state = d.state := by rw [← now]
  have armed : ∀ v, e.uasState = some v → Armed v := by
    intro v same
    rw [← now] at same
    rw [← Option.some.inj same]
    exact armedCleared u
  rcases sendMsgCases e r with ⟨none,same⟩ | ⟨open',log',⟨below,_⟩ | ⟨_,ends,cleared⟩⟩
  · rw [same]
    refine ⟨armed,log ▸ tidy.orderly,fun _ _ => none,fun some => absurd none some⟩
  · omega
  · refine ⟨armedMap armed cleared,?_,fun _ _ => ends,fun some => absurd ends some⟩
    rw [log',log]
    refine orderlyAppend tidy.orderly (fun q same => ?_)
    obtain rfl := Action.sent.inj same
    refine ⟨fun reliable => ?_,success (tsx ▸ open')⟩
    have below := (reliableBelow reliable).1
    omega

theorem txSuccessTidy (tidy : Tidy d) (success : r.isSuccess = true) : Tidy (d.txSuccess r) := by
  have final := (successAbove success).1
  unfold Dialog.txSuccess
  split
  · rename_i none
    refine sendFinalTidy tidy final (fun some _ q here => ?_)
    rw [tidy.next some,Dialog.head,none] at here
    contradiction
  · rename_i u here
    have armed := tidy.armed u here
    split
    · rename_i sdp
      -- the queue is not empty, so its head stays
      obtain ⟨tl,rest,list⟩ : ∃ tl rest, u.txDataList = tl :: rest := by
        cases list : u.txDataList with
        | nil =>
          rw [UasState.hasSdp,list] at sdp
          contradiction
        | cons tl rest => exact ⟨tl,rest,rfl⟩
      have some : u.txDataList ≠ [] := by
        rw [list]
        exact nofun
      refine ⟨fun v same => ?_,tidy.orderly,tidy.idle,fun open' => ?_⟩
      · rw [← Option.some.inj same]
        exact armed.queued some (.inl success) u.rseq
      · have same := tidy.next open'
        rw [headOf here,list] at same
        rw [Dialog.head,Option.bind_some,list]
        exact same
    · rename_i plain
      refine clearedTidy tidy final (fun open' _ q waits => ?_)
      rw [tidy.next open',headOf here] at waits
      obtain ⟨tl,first,rfl⟩ := Option.map_eq_some_iff.mp waits
      cases body : tl.tdata.body with
      | false => rfl
      | true => exact absurd (List.any_eq_true.mpr ⟨tl,List.mem_of_mem_head? first,body⟩) plain

theorem txFailureTidy (tidy : Tidy d) (final : 300 ≤ r.code) : Tidy (d.txFailure r) := by
  have above : 200 ≤ r.code := by omega
  have failure : r.isSuccess = true → ∀ q, waiting d.log = some q → q.body = false := by
    intro success
    have below := (successAbove success).2.1
    omega
  unfold Dialog.txFailure
  split
  · exact sendFinalTidy tidy above (fun _ => failure)
  · split
    · exact clearedTidy tidy above (fun _ => failure)
    · exact sendFinalTidy tidy above (fun _ => failure)

theorem uasOfArmed (tidy : Tidy d) (cseq : UInt32) (rand : Nat) :
    Armed (d.uasOf cseq rand) ∧ d.head = (d.uasOf cseq rand).txDataList.head?.map TxData.tdata := by
  unfold Dialog.uasOf
  cases here : d.uasState with
  | none =>
    refine ⟨armedEmpty rfl rfl,?_⟩
    rw [Dialog.head,here]
    rfl
  | some u => exact ⟨tidy.armed u here,headOf here⟩

theorem txProvisionalTidy (tidy : Tidy d) (code : 100 < r.code ∧ r.code < 200) (rand : Nat) :
    Tidy (d.txProvisional r rand).2 := by
  obtain ⟨armed,head⟩ := uasOfArmed tidy r.cseq rand
  unfold Dialog.txProvisional
  dsimp only
  generalize d.uasOf r.cseq rand = u at armed head
  split
  · refine ⟨fun v same => ?_,tidy.orderly,tidy.idle,fun open' => ?_⟩
    · rw [← Option.some.inj same]
      exact armed
    · rw [Dialog.head,Option.bind_some,← head]
      exact tidy.next open'
  · rename_i current
    have current : r.cseq = u.cseq := not_not.mp current
    generalize made : (⟨u.rseq,{ r with require := true, rseq := some (printU u.rseq) }⟩ : TxData) = tl
    have reliable : tl.tdata.isReliable = true := by
      rw [← made]
      unfold Response.isReliable
      simp only [decide_eq_true code.1,decide_eq_true code.2,Bool.and_self]
    have fits : tl.Fits u.cseq := by
      refine .inr ⟨reliable,?_⟩
      rw [← made]
      exact ⟨rfl,current⟩
    have entries : ∀ q ∈ u.txDataList ++ [tl], q.Fits u.cseq := by
      intro q member
      rcases List.mem_append.mp member with before | new
      · exact armed.entries q before
      · rw [List.mem_singleton.mp new]
        exact fits
    split
    · rename_i some
      obtain ⟨first,rest,list⟩ := List.exists_cons_of_ne_nil some
      refine ⟨fun v same => ?_,tidy.orderly,tidy.idle,fun open' => ?_⟩
      · rw [← Option.some.inj same]
        exact armed.queued some fits (u.rseq + 1)
      · have same := tidy.next open'
        rw [head,list] at same
        rw [Dialog.head,Option.bind_some,list]
        exact same
    · rename_i none
      have none : u.txDataList = [] := not_not.mp none
      have ready : Ready d { u with rseq := u.rseq + 1, txDataList := u.txDataList ++ [tl], retransmitCount := 0 } tl [] := by
        refine ⟨?_,entries,tidy.orderly,tidy.idle,fun _ open' => ?_,fun sent => absurd rfl sent⟩
        · dsimp only
          rw [none,List.nil_append]
        · rw [tidy.next open',head,none]
          rfl
      exact onRetransmitTidy ready nofun

theorem txResponseTidy (tidy : Tidy d) (code : 100 ≤ r.code) (rand : Nat) : Tidy (d.txResponse r rand).2 := by
  unfold Dialog.txResponse
  split
  · rename_i plain
    exact sendPlainTidy tidy plain
  · rename_i other
    dsimp only
    split
    · rename_i success
      exact txSuccessTidy tidy (decide_eq_true success)
    · split
      · rename_i final
        exact txFailureTidy tidy final
      · refine txProvisionalTidy tidy ⟨?_,?_⟩ rand
        · dsimp only
          omega
        · dsimp only
          omega

theorem onRxPrackTidy (tidy : Tidy d) (rack : Option (List Char)) : Tidy (d.onRxPrack rack).2 := by
  unfold Dialog.onRxPrack
  split
  · exact tidy
  · rename_i u here
    have armed := tidy.armed u here
    split
    · exact tidy
    · rename_i tl rest list
      split
      · exact tidy
      · split
        · dsimp only
          have orderly := orderlyMatched tidy.orderly tl.tdata
          have free : d.inviteTsx ≠ none → waiting (d.log ++ [.matched tl.tdata]) = none := by
            intro open'
            have same := tidy.next open'
            rw [headOf here,list,List.head?_cons,Option.map_some] at same
            rw [waitingAppend,same,await,if_pos rfl]
          have entries : ∀ q ∈ rest, q.Fits u.cseq := by
            intro q member
            exact armed.entries q (by rw [list]; exact List.mem_cons_of_mem _ member)
          split
          · rename_i none
            subst none
            refine ⟨fun v same => ?_,orderly,tidy.idle,fun open' => ?_⟩
            · rw [← Option.some.inj same]
              exact armedEmpty rfl rfl
            · exact free open'
          · rename_i more
            obtain ⟨next,later,list'⟩ := List.exists_cons_of_ne_nil more
            subst list'
            have ready : Ready
                { d with
                  uasState := some { u.cancelTimer with txDataList := next :: later, retransmitCount := 0 }
                  log := d.log ++ [.matched tl.tdata] }
                { u.cancelTimer with txDataList := next :: later, retransmitCount := 0 } next later :=
              ⟨rfl,entries,orderly,tidy.idle,fun _ => free,fun sent => absurd rfl sent⟩
            exact onRetransmitTidy ready nofun
        · exact tidy

end Steps

def Queued (cseq : UInt32) (d : Dialog) : Prop :=
  ∀ u, d.uasState = some u → ∀ tl ∈ u.txDataList, tl.tdata.cseq = cseq

/- What an operation adds: messages of one INVITE transaction. -/
structure Adds (cseq : UInt32) (d e : Dialog) : Prop where
  queued : Queued cseq e
  log : ∀ a ∈ e.log, a ∈ d.log ∨ ∃ r : Response, r.cseq = cseq ∧ (a = .sent r ∨ a = .resent r)
  invite : ∀ c, e.inviteTsx = some c → d.inviteTsx = some c

section Messages

variable {d e : Dialog} {cseq : UInt32}

theorem addsRefl (queued : Queued cseq d) : Adds cseq d d := ⟨queued,fun _ member => .inl member,fun _ same => same⟩

theorem Adds.trans {f : Dialog} (first : Adds cseq d e) (rest : Adds cseq e f) : Adds cseq d f := by
  refine ⟨rest.queued,fun a member => ?_,fun c same => first.invite c (rest.invite c same)⟩
  rcases rest.log a member with before | new
  · exact first.log a before
  · exact .inr new

theorem Adds.set (adds : Adds cseq d e) {u : UasState} (mine : ∀ tl ∈ u.txDataList, tl.tdata.cseq = cseq) :
    Adds cseq d { e with uasState := some u } := by
  refine ⟨fun v same => ?_,adds.log,adds.invite⟩
  rw [← Option.some.inj same]
  exact mine

theorem queuedMap (queued : Queued cseq d) {state : Option UasState}
    (same : state = d.uasState ∨ state = d.uasState.map (fun u => u.cancelTimer.clearAllResponses)) :
    ∀ u, state = some u → ∀ tl ∈ u.txDataList, tl.tdata.cseq = cseq := by
  rcases same with rfl | rfl
  · exact queued
  · intro u here
    obtain ⟨old,_,rfl⟩ := Option.map_eq_some_iff.mp here
    exact nofun

variable {r : Response}

theorem sendMsgAdds (queued : Queued cseq d) (mine : r.cseq = cseq) : Adds cseq d (d.sendMsg r) := by
  rcases sendMsgCases d r with ⟨_,same⟩ | ⟨_,log,later⟩
  · rw [same]
    exact addsRefl queued
  · have added : ∀ a ∈ (d.sendMsg r).log, a ∈ d.log ∨ ∃ r : Response, r.cseq = cseq ∧ (a = .sent r ∨ a = .resent r) := by
      intro a member
      rw [log] at member
      rcases List.mem_append.mp member with before | new
      · exact .inl before
      · exact .inr ⟨r,mine,.inl (List.mem_singleton.mp new)⟩
    rcases later with ⟨_,tsx,_,uas⟩ | ⟨_,ends,state⟩
    · exact ⟨fun u here => queued u (uas ▸ here),added,fun c same => tsx ▸ same⟩
    · refine ⟨queuedMap queued state,added,fun c same => ?_⟩
      rw [ends] at same
      contradiction

theorem retransmitAdds (queued : Queued cseq d) (mine : r.cseq = cseq) : Adds cseq d (d.retransmitNoState r) := by
  unfold Dialog.retransmitNoState
  split
  · exact ⟨queued,fun _ member => .inl member,fun _ same => same⟩
  · refine ⟨queued,fun a member => ?_,fun _ same => same⟩
    rcases List.mem_append.mp member with before | new
    · exact .inl before
    · exact .inr ⟨r,mine,.inr (List.mem_singleton.mp new)⟩

theorem rejectAdds (queued : Queued cseq d) (invite : ∀ c, d.inviteTsx = some c → c = cseq) :
    Adds cseq d d.rejectUnacknowledged := by
  unfold Dialog.rejectUnacknowledged
  split
  · rename_i c _ here
    exact sendMsgAdds queued (invite c here)
  · exact addsRefl queued

theorem onRetransmitAdds (queued : Queued cseq d) {u : UasState} (mine : ∀ tl ∈ u.txDataList, tl.tdata.cseq = cseq)
    (invite : ∀ c, d.inviteTsx = some c → c = cseq) : Adds cseq d (d.onRetransmit u) := by
  have cleared : ∀ tl ∈ ({ u with txDataList := [] } : UasState).txDataList, tl.tdata.cseq = cseq := nofun
  unfold Dialog.onRetransmit
  dsimp only
  split
  · have empty := (addsRefl queued).set (u := { u with
      txDataList := [], retransmitTimer := none, retransmitCount := u.retransmitCount + 1 }) cleared
    exact empty.trans (rejectAdds empty.queued invite)
  · split
    · exact (addsRefl queued).set mine
    · rename_i tl rest list
      have head : tl.tdata.cseq = cseq := mine tl (by rw [list]; exact List.mem_cons_self)
      have out : Adds cseq d (if u.retransmitCount + 1 = 1 then d.sendMsg tl.tdata else d.retransmitNoState tl.tdata) := by
        split
        · exact sendMsgAdds queued head
        · exact retransmitAdds queued head
      split
      · exact out.set cleared
      · exact out.set mine

theorem txSuccessAdds (queued : Queued cseq d) (mine : r.cseq = cseq) : Adds cseq d (d.txSuccess r) := by
  unfold Dialog.txSuccess
  split
  · exact sendMsgAdds queued mine
  · rename_i u here
    split
    · refine (addsRefl queued).set (fun tl member => ?_)
      rcases List.mem_append.mp member with before | new
      · exact queued u here tl before
      · rw [List.mem_singleton.mp new]
        exact mine
    · have empty := (addsRefl queued).set (u := u.cancelTimer.clearAllResponses) nofun
      exact empty.trans (sendMsgAdds empty.queued mine)

theorem txFailureAdds (queued : Queued cseq d) (mine : r.cseq = cseq) : Adds cseq d (d.txFailure r) := by
  unfold Dialog.txFailure
  split
  · exact sendMsgAdds queued mine
  · split
    · rename_i u _ _
      have empty := (addsRefl queued).set (u := u.cancelTimer.clearAllResponses) nofun
      exact empty.trans (sendMsgAdds empty.queued mine)
    · exact sendMsgAdds queued mine

theorem txProvisionalAdds (queued : Queued cseq d) (mine : r.cseq = cseq)
    (invite : ∀ c, d.inviteTsx = some c → c = cseq) (rand : Nat) : Adds cseq d (d.txProvisional r rand).2 := by
  have list : ∀ tl ∈ (d.uasOf r.cseq rand).txDataList, tl.tdata.cseq = cseq := by
    unfold Dialog.uasOf
    cases here : d.uasState with
    | none => exact nofun
    | some u => exact queued u here
  unfold Dialog.txProvisional
  dsimp only
  generalize d.uasOf r.cseq rand = u at list
  split
  · exact (addsRefl queued).set list
  · have longer : ∀ tl ∈ u.txDataList ++
        [⟨u.rseq,{ r with require := true, rseq := some (printU u.rseq) }⟩], tl.tdata.cseq = cseq := by
      intro tl member
      rcases List.mem_append.mp member with before | new
      · exact list tl before
      · rw [List.mem_singleton.mp new]
        exact mine
    split
    · exact (addsRefl queued).set longer
    · dsimp only
      refine onRetransmitAdds queued ?_ invite
      exact longer

theorem txResponseAdds (queued : Queued cseq d) (mine : r.cseq = cseq)
    (invite : ∀ c, d.inviteTsx = some c → c = cseq) (rand : Nat) : Adds cseq d (d.txResponse r rand).2 := by
  unfold Dialog.txResponse
  split
  · exact sendMsgAdds queued mine
  · dsimp only
    split
    · exact txSuccessAdds queued mine
    · split
      · exact txFailureAdds queued mine
      · exact txProvisionalAdds queued mine invite rand

theorem disconnectAdds (queued : Queued cseq d) : Adds cseq d d.disconnect :=
  ⟨queuedMap queued (.inr rfl),fun _ member => .inl member,nofun⟩

theorem ownAdds (queued : Queued cseq d) (invite : ∀ c, d.inviteTsx = some c → c = cseq) (event : Local) :
    Adds cseq d (d.own event) := by
  cases event with
  | answer code body rand =>
    unfold Dialog.own
    dsimp only
    split
    · exact addsRefl queued
    · rename_i c here
      split
      · exact txResponseAdds queued (invite c here) invite rand
      · exact addsRefl queued
  | timer =>
    unfold Dialog.own
    dsimp only
    split
    · exact addsRefl queued
    · rename_i u here
      split
      · exact onRetransmitAdds queued (queued u here) invite
      · exact addsRefl queued
  | rxAck =>
    unfold Dialog.own
    dsimp only
    split
    · exact ⟨queued,fun _ member => .inl member,fun _ same => same⟩
    · exact addsRefl queued
  | tsxError =>
    unfold Dialog.own
    dsimp only
    split
    · exact disconnectAdds queued
    · exact ⟨queued,fun _ member => .inl member,nofun⟩
  | ended => exact disconnectAdds queued

theorem onRxPrackAdds (queued : Queued cseq d) (invite : ∀ c, d.inviteTsx = some c → c = cseq)
    (armed : ∀ u, d.uasState = some u → Armed u) (rack : Rack) :
    ∃ e, Adds cseq e (d.onRxPrack (some rack.print)).2 ∧ (∀ c, e.inviteTsx = some c → d.inviteTsx = some c) ∧
      ∀ a ∈ e.log, a ∈ d.log ∨ ∃ r : Response, a = .matched r ∧ r.rseq = some (printU rack.rseq) ∧ r.cseq = rack.cseq := by
  have nothing : ∀ a ∈ d.log, a ∈ d.log ∨
      ∃ r : Response, a = .matched r ∧ r.rseq = some (printU rack.rseq) ∧ r.cseq = rack.cseq :=
    fun a member => .inl member
  unfold Dialog.onRxPrack
  split
  · exact ⟨d,addsRefl queued,fun _ same => same,nothing⟩
  · rename_i u here
    split
    · exact ⟨d,addsRefl queued,fun _ same => same,nothing⟩
    · rename_i tl rest list
      dsimp only
      split
      · rename_i named
        rw [parseRackPrint] at named
        have first : tl ∈ u.txDataList := by
          rw [list]
          exact List.mem_cons_self
        have later : ∀ q ∈ rest, q.tdata.cseq = cseq := by
          intro q member
          exact queued u here q (by rw [list]; exact List.mem_cons_of_mem _ member)
        have reliable := (armed u here).head tl (by rw [list]; rfl)
        refine ⟨{ d with
          uasState := some { u.cancelTimer with txDataList := rest, retransmitCount := 0 }
          log := d.log ++ [.matched tl.tdata] },?_,fun _ same => same,fun a member => ?_⟩
        · have start : Queued cseq { d with
              uasState := some { u.cancelTimer with txDataList := rest, retransmitCount := 0 }
              log := d.log ++ [.matched tl.tdata] } := by
            intro v same
            rw [← Option.some.inj same]
            exact later
          split
          · exact addsRefl start
          · dsimp only at start ⊢
            refine onRetransmitAdds start ?_ invite
            exact later
        · rcases List.mem_append.mp member with before | new
          · exact .inl before
          · refine .inr ⟨tl.tdata,List.mem_singleton.mp new,?_⟩
            rcases (armed u here).entries tl first with success | ⟨_,rseq,same⟩
            · rw [(successAbove success).2.2] at reliable
              contradiction
            · exact ⟨by rw [rseq,named.1],by rw [same,named.2]⟩
      · exact ⟨d,addsRefl queued,fun _ same => same,nothing⟩

end Messages

section Steps

variable {d : Dialog}

theorem disconnectTidy (tidy : Tidy d) : Tidy d.disconnect :=
  ⟨armedMap tidy.armed (.inr rfl),tidy.orderly,fun _ _ => rfl,fun some => absurd rfl some⟩

theorem ownTidy (tidy : Tidy d) {event : Local} (ends : d.endsTimeout event = true) : Tidy (d.own event) := by
  cases event with
  | answer code body rand =>
    unfold Dialog.own
    dsimp only
    split
    · exact tidy
    · split
      · rename_i valid
        exact txResponseTidy tidy valid rand
      · exact tidy
  | timer =>
    unfold Dialog.own
    dsimp only
    split
    · exact tidy
    · rename_i u here
      split
      · rename_i due
        have armed := tidy.armed u here
        have more := armed.timer.mp due
        obtain ⟨tl,rest,list⟩ := List.exists_cons_of_ne_nil more
        have count := armed.count more
        have ready : Ready d u tl rest := by
          refine ⟨list,armed.entries,tidy.orderly,tidy.idle,fun zero => ?_,fun _ => ⟨?_,fun open' => ?_⟩⟩
          · omega
          · exact armed.head tl (by rw [list]; rfl)
          · rw [tidy.next open',headOf here,list]
            rfl
        refine onRetransmitTidy ready (fun last established => ?_)
        have out : d.timesOut = true := by
          rw [Dialog.timesOut,here,Option.any_some,due,decide_eq_true last]
          rfl
        rw [Dialog.endsTimeout,out,established] at ends
        contradiction
      · exact tidy
  | rxAck =>
    unfold Dialog.own
    dsimp only
    split
    · rename_i connecting
      have none : d.inviteTsx = none := by
        refine tidy.idle ?_ ?_
        · rw [connecting]
          exact nofun
        · rw [connecting]
          exact nofun
      exact ⟨tidy.armed,tidy.orderly,fun _ _ => none,tidy.next⟩
    · exact tidy
  | tsxError =>
    unfold Dialog.own
    dsimp only
    split
    · exact disconnectTidy tidy
    · exact ⟨tidy.armed,tidy.orderly,fun _ _ => rfl,fun some => absurd rfl some⟩
  | ended => exact disconnectTidy tidy

end Steps

section Acknowledgements

theorem sameTagRefl (tag : List Char) : sameTag tag tag = true := decide_eq_true rfl

theorem findUpdate (tag : List Char) {f : UacState → UacState} (keeps : ∀ st, (f st).tag = st.tag)
    (list : List UacState) : findUacState tag (updateUacState tag f list) = (findUacState tag list).map f := by
  induction list with
  | nil => rfl
  | cons st rest ih =>
    unfold updateUacState
    split
    · rename_i same
      have same' : sameTag (f st).tag tag = true := by
        rw [keeps]
        exact same
      unfold findUacState
      rw [List.find?_cons_of_pos (by exact same'),List.find?_cons_of_pos (by exact same),Option.map_some]
    · rename_i other
      unfold findUacState at ih ⊢
      rw [List.find?_cons_of_neg (by exact other),List.find?_cons_of_neg (by exact other)]
      exact ih

/- The PRACK requests made for one INVITE: their RSeq grows, and the state of the call leg is at the last. -/
structure Counts (list : List UacState) (tag : List Char) (cseq : UInt32) (pracks : List Rack) : Prop where
  increasing : pracks.Pairwise (fun a b => a.rseq < b.rseq)
  last : pracks ≠ [] → ∃ st, findUacState tag list = some st ∧ st.cseq = cseq ∧ ∀ p ∈ pracks, p.rseq ≤ st.rseq

theorem legState {list : List UacState} {tag : List Char} {pracks : List Rack} {r : Response}
    (counts : Counts list tag r.cseq pracks) (rseq : UInt32) :
    ∃ st, findUacState tag (enterUacState list tag r.cseq rseq) = some st ∧ st.cseq = r.cseq ∧
      ∀ p ∈ pracks, p.rseq ≤ st.rseq := by
  have none : (∀ st, findUacState tag list = some st → st.cseq ≠ r.cseq) → pracks = [] := by
    intro other
    cases pracks with
    | nil => rfl
    | cons =>
      obtain ⟨st,found,same,_⟩ := counts.last nofun
      exact absurd same (other st found)
  unfold enterUacState
  cases found : findUacState tag list with
  | none =>
    refine ⟨_,List.find?_cons_of_pos (sameTagRefl tag),rfl,?_⟩
    rw [none (fun st here => by rw [found] at here; contradiction)]
    exact nofun
  | some st =>
    dsimp only
    split
    · rename_i other
      refine ⟨{ st with cseq := r.cseq, rseq := rseq - 1 },?_,rfl,?_⟩
      · refine (findUpdate tag ?_ list).trans ?_
        · exact fun _ => rfl
        · rw [found,Option.map_some]
      · rw [none (fun st' here => ?_)]
        · exact nofun
        · rw [found] at here
          obtain rfl := Option.some.inj here
          exact fun same => other same.symm
    · rename_i same
      have same : r.cseq = st.cseq := not_not.mp same
      refine ⟨st,found,same.symm,fun p member => ?_⟩
      obtain ⟨st',found',_,bound⟩ := counts.last (List.ne_nil_of_mem member)
      rw [found] at found'
      obtain rfl := Option.some.inj found'
      exact bound p member

theorem createPrackCounts {list : List UacState} {tag : List Char} {pracks : List Rack} {r : Response}
    (counts : Counts list tag r.cseq pracks) (created : Bool) :
    (∀ status uac, createPrack list tag r created = (.error status, uac) → Counts uac tag r.cseq pracks) ∧
      ∀ rack uac, createPrack list tag r created = (.ok rack, uac) → Counts uac tag r.cseq (pracks ++ [rack]) := by
  unfold createPrack
  cases r.rseq with
  | none =>
    dsimp only
    refine ⟨fun status uac same => ?_,fun rack uac same => ?_⟩
    · rw [← (Prod.mk.inj same).2]
      exact counts
    · exact nomatch (Prod.mk.inj same).1
  | some text =>
    dsimp only
    generalize (strtoul text).toUInt32 = rseq
    obtain ⟨st,found,same,bound⟩ := legState counts rseq
    generalize enterUacState list tag r.cseq rseq = list at found
    rw [found]
    dsimp only
    have kept : Counts list tag r.cseq pracks := ⟨counts.increasing,fun _ => ⟨st,found,same,bound⟩⟩
    split
    · refine ⟨fun status uac result => ?_,fun rack uac result => ?_⟩
      · rw [← (Prod.mk.inj result).2]
        exact kept
      · exact nomatch (Prod.mk.inj result).1
    · rename_i above
      split
      · refine ⟨fun status uac result => ?_,fun rack uac result => ?_⟩
        · rw [← (Prod.mk.inj result).2]
          exact kept
        · exact nomatch (Prod.mk.inj result).1
      · have later : findUacState tag (updateUacState tag (fun st => { st with rseq := rseq }) list) =
            some { st with rseq := rseq } := by
          refine (findUpdate tag ?_ list).trans ?_
          · exact fun _ => rfl
          · rw [found,Option.map_some]
        have below : ∀ p ∈ pracks, p.rseq < rseq :=
          fun p member => UInt32.lt_of_le_of_lt (bound p member) (UInt32.not_le.mp above)
        refine ⟨fun status uac result => ?_,fun rack uac result => ?_⟩
        · rw [← (Prod.mk.inj result).2]
          exact ⟨counts.increasing,
            fun _ => ⟨{ st with rseq := rseq },later,same,fun p member => UInt32.le_of_lt (below p member)⟩⟩
        · obtain ⟨made,rfl⟩ := Prod.mk.inj result
          have named : rack.rseq = rseq := by
            split at made
            · rw [← Except.ok.inj made]
            · exact nomatch made
          refine ⟨List.pairwise_append.mpr ⟨counts.increasing,List.pairwise_singleton _ _,?_⟩,fun _ => ?_⟩
          · intro p member q only
            rw [List.mem_singleton.mp only,named]
            exact below p member
          · refine ⟨{ st with rseq := rseq },later,same,fun p member => ?_⟩
            rcases List.mem_append.mp member with before | new
            · exact UInt32.le_of_lt (below p before)
            · rw [List.mem_singleton.mp new,named]
              exact UInt32.le_refl _

end Acknowledgements

/- What is kept on a link whose INVITE has this CSeq. -/
structure Linked (s : Link) (cseq : UInt32) : Prop where
  tidy : Tidy s.uas
  invite : ∀ c, s.uas.inviteTsx = some c → c = cseq
  queued : Queued cseq s.uas
  messages : ∀ a ∈ s.uas.log, ∀ r, a.message = some r → r.cseq = cseq
  matched : ∀ r, Action.matched r ∈ s.uas.log → ∃ p ∈ s.pracks, r.rseq = some (printU p.rseq) ∧ r.cseq = p.cseq
  counts : Counts s.uac s.tag cseq s.pracks

/- A reliable response goes out once every one before it was matched with a PRACK, and a success once those with a body
were; the PRACK requests are made in the order of RSeq. -/
structure Link.Reliable (s : Link) : Prop where
  ordered : ∀ early r middle q later, s.uas.log = early ++ .sent r :: (middle ++ .sent q :: later) →
    r.isReliable = true → q.isReliable = true → .matched r ∈ middle
  answered : ∀ early r middle q later, s.uas.log = early ++ .sent r :: (middle ++ .sent q :: later) →
    r.isReliable = true → r.body = true → q.isSuccess = true → .matched r ∈ middle
  matched : ∀ r, .matched r ∈ s.uas.log → ∃ p ∈ s.pracks, r.rseq = some (printU p.rseq) ∧ r.cseq = p.cseq
  once : s.pracks.Pairwise (fun a b => a.rseq < b.rseq)

/- No step is the last expiry of the timer in a session that is established. -/
def Link.ends (s : Link) : LinkEvent → Bool
  | .uas event => s.uas.endsTimeout event
  | _ => true

def Link.everyEvent (s : Link) : List LinkEvent → Bool
  | [] => true
  | event :: rest => s.ends event && (s.step event).everyEvent rest

section Links

variable {s : Link} {cseq : UInt32}

theorem addsMatched {d e : Dialog} (adds : Adds cseq d e) {r : Response} (member : .matched r ∈ e.log) :
    .matched r ∈ d.log := by
  rcases adds.log _ member with before | ⟨q,_,sent | resent⟩
  · exact before
  · exact nomatch sent
  · exact nomatch resent

theorem addsMessages {d e : Dialog} (adds : Adds cseq d e)
    (before : ∀ a ∈ d.log, ∀ r, a.message = some r → r.cseq = cseq) :
    ∀ a ∈ e.log, ∀ r, a.message = some r → r.cseq = cseq := by
  intro a member r same
  rcases adds.log a member with old | ⟨q,mine,rfl | rfl⟩
  · exact before a old r same
  · rw [← Option.some.inj same]
    exact mine
  · rw [← Option.some.inj same]
    exact mine

theorem Linked.uas (linked : Linked s cseq) {event : Local} (ends : s.uas.endsTimeout event = true) :
    Linked { s with uas := s.uas.step (.own event) } cseq := by
  unfold Dialog.step
  split
  · exact linked
  · have adds := ownAdds linked.queued linked.invite event
    exact ⟨ownTidy linked.tidy ends,fun c same => linked.invite c (adds.invite c same),adds.queued,
      addsMessages adds linked.messages,fun r member => linked.matched r (addsMatched adds member),linked.counts⟩

theorem Linked.toUas (linked : Linked s cseq) {rack : Rack} (member : rack ∈ s.pracks) :
    Linked { s with uas := s.uas.step (.rxPrack (some rack.print)) } cseq := by
  unfold Dialog.step
  split
  · exact linked
  · obtain ⟨e,adds,invite,log⟩ := onRxPrackAdds linked.queued linked.invite linked.tidy.armed rack
    refine ⟨onRxPrackTidy linked.tidy _,fun c same => linked.invite c (invite c (adds.invite c same)),adds.queued,
      addsMessages adds (fun a old r same => ?_),fun r old => ?_,linked.counts⟩
    · rcases log a old with before | ⟨q,rfl,_⟩
      · exact linked.messages a before r same
      · exact nomatch same
    · rcases log _ (addsMatched adds old) with before | ⟨q,same,rseq,mine⟩
      · exact linked.matched r before
      · obtain rfl := Action.matched.inj same
        exact ⟨rack,member,rseq,mine⟩

theorem Linked.toUac (linked : Linked s cseq) (i : Nat) (created : Bool) : Linked (s.step (.toUac i created)) cseq := by
  unfold Link.step
  dsimp only
  split
  · exact linked
  · rename_i r here
    obtain ⟨a,at',message⟩ := Option.bind_eq_some_iff.mp here
    obtain rfl := linked.messages a (List.mem_of_getElem? at') r message
    obtain ⟨refused,made⟩ := createPrackCounts linked.counts created
    split
    · split
      · rename_i rack uac result
        refine ⟨linked.tidy,linked.invite,linked.queued,linked.messages,fun q member => ?_,made rack uac result⟩
        obtain ⟨p,old,same⟩ := linked.matched q member
        exact ⟨p,List.mem_append_left _ old,same⟩
      · rename_i status uac result
        exact ⟨linked.tidy,linked.invite,linked.queued,linked.messages,linked.matched,refused status uac result⟩
    · exact linked

theorem Linked.step (linked : Linked s cseq) {event : LinkEvent} (ends : s.ends event = true) :
    Linked (s.step event) cseq := by
  cases event with
  | uas => exact linked.uas ends
  | toUac i created => exact linked.toUac i created
  | toUas i =>
    unfold Link.step
    dsimp only
    split
    · exact linked
    · rename_i rack here
      exact linked.toUas (List.mem_of_getElem? here)

theorem linkedRun (events : List LinkEvent) : ∀ {s : Link}, Linked s cseq → s.everyEvent events = true →
    Linked (s.run events) cseq := by
  induction events with
  | nil => exact fun linked _ => linked
  | cons event rest ih =>
    intro s linked ends
    rw [Link.everyEvent,Bool.and_eq_true] at ends
    exact ih (linked.step ends.1) ends.2

theorem Link.Fresh.linked (fresh : s.Fresh) : Linked s s.uas.remoteCSeq := by
  have empty : waiting s.uas.log = none := by
    rw [fresh.log]
    rfl
  refine ⟨⟨fun u here => ?_,?_,fun early confirmed => ?_,fun _ => ?_⟩,fun c same => ?_,fun u here => ?_,?_,?_,?_⟩
  · exact armedEmpty (fresh.uasState u here).1 (fresh.uasState u here).2
  · rw [fresh.log]
    intro before r after same
    exact absurd same.symm (by simp)
  · exact absurd fresh.state (not_or.mpr ⟨early,confirmed⟩)
  · rw [empty]
    unfold Dialog.head
    cases here : s.uas.uasState with
    | none => rfl
    | some u =>
      rw [Option.bind_some,(fresh.uasState u here).1]
      rfl
  · rw [fresh.inviteTsx] at same
    exact (Option.some.inj same).symm
  · rw [(fresh.uasState u here).1]
    exact nofun
  · rw [fresh.log]
    exact nofun
  · rw [fresh.log]
    exact nofun
  · refine ⟨?_,fun some => absurd fresh.pracks some⟩
    rw [fresh.pracks]
    exact List.Pairwise.nil

theorem Linked.reliable (linked : Linked s cseq) : s.Reliable := by
  have unmatched : ∀ early r middle q later, s.uas.log = early ++ .sent r :: (middle ++ .sent q :: later) →
      r.isReliable = true → .matched r ∉ middle → waiting (early ++ .sent r :: middle) = some r ∧
        s.uas.log = (early ++ .sent r :: middle) ++ .sent q :: later := by
    intro early r middle q later whole reliable missing
    refine ⟨waitsOn linked.tidy.orderly whole reliable missing,?_⟩
    rw [whole,List.append_assoc,List.cons_append]
  refine ⟨?_,?_,linked.matched,linked.counts.increasing⟩
  · intro early r middle q later whole reliable reliable'
    by_contra missing
    obtain ⟨waits,split⟩ := unmatched early r middle q later whole reliable missing
    have none := (linked.tidy.orderly _ q later split).1 reliable'
    rw [waits] at none
    contradiction
  · intro early r middle q later whole reliable body success
    by_contra missing
    obtain ⟨waits,split⟩ := unmatched early r middle q later whole reliable missing
    have plain := (linked.tidy.orderly _ q later split).2 success r waits
    rw [body] at plain
    contradiction

end Links

theorem reliableInOrder {s : Link} (fresh : s.Fresh) (events : List LinkEvent) (ends : s.everyEvent events = true) :
    (s.run events).Reliable := (linkedRun events fresh.linked ends).reliable

/- An INVITE, with 183 and an SDP body before the 200, and PRACK in between. -/
def firstInvite : Link := { uas := { inviteTsx := some 1, remoteCSeq := 1 }, tag := ['t'] }

theorem firstInviteReliable :
    (firstInvite.run [.uas (.answer 183 true 9),.uas (.answer 200 false 0),.uas .timer,.toUac 0 true,.toUac 1 true,
      .toUas 0]).Reliable := by
  have fresh : firstInvite.Fresh := ⟨.inl rfl,rfl,nofun,rfl,rfl⟩
  exact reliableInOrder fresh _ (by decide +kernel)

/- A re-INVITE: no PRACK comes for 183, the timeout has no effect, and 180 follows. -/
def againInvite : Link := { uas := { state := .confirmed, inviteTsx := some 2, remoteCSeq := 2 }, tag := ['t'] }

def againRinging (code : Nat) (body : Bool) (rseq : List Char) : Response :=
  { code := code, body := body, cseq := 2, rseq := some rseq, require := true }

theorem timeoutNotAnswered : ¬ ∀ s : Link, s.Fresh → ∀ events : List LinkEvent, (s.run events).Reliable := by
  intro claim
  have fresh : againInvite.Fresh := ⟨.inr rfl,rfl,nofun,rfl,rfl⟩
  have reliable := claim againInvite fresh
    (.uas (.answer 183 true 9) :: List.replicate 6 (.uas .timer) ++ [.uas (.answer 180 false 0)])
  have member := reliable.ordered [] (againRinging 183 true ['1','0'])
    (List.replicate 5 (.resent (againRinging 183 true ['1','0']))) (againRinging 180 false ['1','1']) []
    (by decide +kernel) (by decide) (by decide)
  exact absurd member (by decide)

end Pjproject.Rel100
