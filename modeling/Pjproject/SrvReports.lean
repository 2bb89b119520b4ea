import Pjproject.SrvEntries

/-! When the callback of a service resolution is called: what the counter of resolved hosts says while their queries are started
and answered. -/
namespace Pjproject.Srv

def Closed (target : Target) : Prop := target.qA ≠ .pending ∧ target.qAaaa ≠ .pending

instance (target : Target) : Decidable (Closed target) :=
  inferInstanceAs (Decidable (_ ∧ _))

/- Every target was counted once, and no query is outstanding. -/
structure Report (call : Call) : Prop where
  total : call.hostResolved = call.srv.length
  each : call.counted.Perm (List.range call.srv.length)
  ended : ∀ target ∈ call.srv, Closed target

structure Core (job : Job) : Prop where
  answered : job.qSrv = false
  counts : job.hostResolved = job.counted.length
  distinct : job.counted.Nodup
  inside : ∀ host ∈ job.counted, host < job.srv.length
  closed : ∀ (host : Nat) target, job.srv[host]? = some target → host ∈ job.counted → Closed target
  reports : ∀ call ∈ job.calls, Report call
  reported : job.calls.length = if job.hostResolved = job.srv.length then 1 else 0

variable {hosts : List Nat} {n host errCnt : Nat} {job job' : Job} {target : Target} {loop : Loop}

theorem countedBelow (distinct : hosts.Nodup) (inside : ∀ host ∈ hosts, host < n) : hosts.length ≤ n := by
  have within := (List.subperm_of_subset distinct fun host member => List.mem_range.mpr (inside host member)).length_le
  rwa [List.length_range] at within

theorem countedApart (distinct : hosts.Nodup) (inside : ∀ host ∈ hosts, host < n)
    (isHost : host < n) (fresh : host ∉ hosts) : hosts.length < n := by
  refine countedBelow (List.nodup_cons.mpr ⟨fresh,distinct⟩) fun other member => ?_
  rcases List.mem_cons.mp member with rfl | member
  · exact isHost
  · exact inside other member

theorem countedAll (distinct : hosts.Nodup) (inside : ∀ host ∈ hosts, host < n)
    (all : hosts.length = n) : hosts.Perm (List.range n) := by
  have within := List.subperm_of_subset distinct fun host member => List.mem_range.mpr (inside host member)
  refine within.perm_of_length_le ?_
  rw [List.length_range]
  exact Nat.le_of_eq all.symm

theorem checkFrame (job : Job) : job.checkResolved = { job with calls := job.checkResolved.calls } := by
  unfold Job.checkResolved
  split <;> rfl

/- A host gets other handles, or another address. -/
def Job.place (job : Job) (host : Nat) (target : Target) (lastError : Status) : Job :=
  { job with srv := job.srv.set host target, lastError }

theorem placeAt (job : Job) (isHost : host < job.srv.length) (target : Target) (lastError : Status) (i : Nat) :
    (job.place host target lastError).srv[i]? = if i = host then some target else job.srv[i]? := by
  unfold Job.place
  dsimp only
  rw [List.getElem?_set]
  by_cases same : host = i
  · rw [if_pos same,if_pos same.symm,if_pos (same ▸ isHost)]
  · rw [if_neg same,if_neg (Ne.symm same)]

theorem placeLength (job : Job) (host : Nat) (target : Target) (lastError : Status) :
    (job.place host target lastError).srv.length = job.srv.length :=
  List.length_set

theorem Core.notAll (core : Core job) (isHost : host < job.srv.length)
    (fresh : host ∉ job.counted) : job.hostResolved ≠ job.srv.length := by
  rw [core.counts]
  exact Nat.ne_of_lt (countedApart core.distinct core.inside isHost fresh)

theorem Core.place (core : Core job) (isHost : host < job.srv.length)
    (fresh : host ∉ job.counted) (target : Target) (lastError : Status) : Core (job.place host target lastError) := by
  constructor
  case answered => exact core.answered
  case counts => exact core.counts
  case distinct => exact core.distinct
  case inside => exact fun i counted => placeLength job host target lastError ▸ core.inside i counted
  case closed =>
    intro i other at_ counted
    rw [placeAt job isHost,if_neg (fun same : i = host => fresh (same ▸ counted))] at at_
    exact core.closed i other at_ counted
  case reports => exact core.reports
  case reported =>
    rw [placeLength]
    exact core.reported

theorem Core.settle (core : Core job) (isHost : host < job.srv.length)
    (fresh : host ∉ job.counted) (closed : Closed target) (lastError : Status) :
    Core ((job.place host target lastError).count host).checkResolved := by
  have placed := core.place isHost fresh target lastError
  have silent : job.calls = [] := by
    have none_ := core.reported
    rw [if_neg (core.notAll isHost fresh)] at none_
    exact List.length_eq_zero_iff.mp none_
  have member : ∀ i, i ∈ ((job.place host target lastError).count host).counted ↔ i ∈ job.counted ∨ i = host := by
    intro i
    change i ∈ job.counted ++ [host] ↔ _
    rw [List.mem_append,List.mem_singleton]
  have length : ((job.place host target lastError).count host).srv.length = job.srv.length :=
    placeLength job host target lastError
  have counts : ((job.place host target lastError).count host).hostResolved =
      ((job.place host target lastError).count host).counted.length := by
    change job.hostResolved + 1 = (job.counted ++ [host]).length
    rw [List.length_append,core.counts]
    rfl
  have distinct : ((job.place host target lastError).count host).counted.Nodup := by
    change (job.counted ++ [host]).Nodup
    rw [List.nodup_append]
    refine ⟨core.distinct,List.nodup_cons.mpr ⟨nofun,List.nodup_nil⟩,?_⟩
    intro a counted b single same
    rw [List.mem_singleton] at single
    exact fresh (single ▸ same ▸ counted)
  have inside : ∀ i ∈ ((job.place host target lastError).count host).counted,
      i < ((job.place host target lastError).count host).srv.length := by
    intro i counted
    rw [length]
    rcases (member i).mp counted with counted | rfl
    · exact core.inside i counted
    · exact isHost
  have closed' : ∀ (i : Nat) other, ((job.place host target lastError).count host).srv[i]? = some other →
      i ∈ ((job.place host target lastError).count host).counted → Closed other := by
    intro i other at_ counted
    change (job.place host target lastError).srv[i]? = some other at at_
    rcases (member i).mp counted with counted | rfl
    · exact placed.closed i other at_ counted
    · rw [placeAt job isHost,if_pos rfl] at at_
      cases at_
      exact closed
  unfold Job.checkResolved
  split
  · rename_i all
    constructor
    case answered => exact core.answered
    case counts => exact counts
    case distinct => exact distinct
    case inside => exact inside
    case closed => exact closed'
    case reports =>
      intro call called
      change call ∈ job.calls ++ [_] at called
      rw [silent,List.nil_append,List.mem_singleton] at called
      rw [called]
      refine ⟨all,countedAll distinct inside (counts.symm.trans all),?_⟩
      intro other inSrv
      obtain ⟨i,at_⟩ := List.mem_iff_getElem?.mp inSrv
      have isTarget := (List.getElem?_eq_some_iff.mp at_).1
      have each := countedAll distinct inside (counts.symm.trans all)
      exact closed' i other at_ (each.mem_iff.mpr (List.mem_range.mpr isTarget))
    case reported =>
      refine Eq.trans ?_ (if_pos all).symm
      change (job.calls ++ [_]).length = 1
      rw [silent]
      rfl
  · rename_i notAll
    constructor
    case answered => exact core.answered
    case counts => exact counts
    case distinct => exact distinct
    case inside => exact inside
    case closed => exact closed'
    case reports => exact core.reports
    case reported =>
      rw [if_neg notAll]
      exact List.length_eq_zero_iff.mpr silent

theorem uncheckedPlace (core : Core job) (isHost : host < job.srv.length)
    (fresh : host ∉ job.counted) (target : Target) (lastError : Status) :
    (job.place host target lastError).checkResolved = job.place host target lastError := by
  refine if_neg ?_
  rw [placeLength]
  exact core.notAll isHost fresh

theorem modifyPlaces (here : job.srv[host]? = some target)
    (change : Target → Target) : job.modify host change = job.place host (change target) job.lastError := by
  have isHost := (List.getElem?_eq_some_iff.mp here).1
  have same : job.srv.modify host change = job.srv.set host (change target) := by
    refine List.ext_getElem? fun i => ?_
    refine (targetModify job host change i).trans (Eq.trans ?_ (placeAt job isHost (change target) job.lastError i).symm)
    by_cases at_ : host = i
    · rw [if_pos at_,if_pos at_.symm,← at_,here]
      rfl
    · rw [if_neg at_,if_neg (Ne.symm at_)]
  unfold Job.modify Job.place
  rw [same]

theorem placeTwice (job : Job) (host : Nat) (one two : Target) (e f : Status) :
    (job.place host one e).place host two f = job.place host two f := by
  unfold Job.place
  dsimp only
  rw [List.set_set]

theorem hostCallbackPlaces (here : job.srv[host]? = some target) (aaaa : Bool)
    (ans : Answer) : ∃ new lastError, new.qA = (target.setHandle aaaa .null).qA ∧
      new.qAaaa = (target.setHandle aaaa .null).qAaaa ∧ job.hostCallback host aaaa ans =
        (if target.handle (!aaaa) = .null then (job.place host new lastError).count host
          else job.place host new lastError).checkResolved := by
  have isHost := (List.getElem?_eq_some_iff.mp here).1
  obtain ⟨new,lastError,qA,qAaaa,taken⟩ : ∃ new lastError, new.qA = (target.setHandle aaaa .null).qA ∧
      new.qAaaa = (target.setHandle aaaa .null).qAaaa ∧
      (job.setHandle host aaaa .null).takeOutcome host aaaa ans.outcome = job.place host new lastError := by
    have cleared : job.setHandle host aaaa .null = job.place host (target.setHandle aaaa .null) job.lastError :=
      modifyPlaces here _
    have there : (job.place host (target.setHandle aaaa .null) job.lastError).srv[host]? =
        some (target.setHandle aaaa .null) := by
      rw [placeAt job isHost,if_pos rfl]
    rw [cleared]
    cases ans.outcome with
    | error status => exact ⟨_,status,rfl,rfl,rfl⟩
    | ok found =>
      cases found with
      | none => exact ⟨_,_,rfl,rfl,rfl⟩
      | some record =>
        refine ⟨(target.setHandle aaaa .null).takeAnswer aaaa record,job.lastError,rfl,rfl,?_⟩
        exact (modifyPlaces there _).trans (placeTwice job host _ _ _ _)
  refine ⟨new,lastError,qA,qAaaa,?_⟩
  unfold Job.hostCallback
  rw [here]
  dsimp only
  rw [taken]

/- Between two hosts of the loop. Behind it hosts wait for an answer or are counted, and before it they are counted exactly when
their address is known. -/
def Waiting (target : Target) : Prop :=
  target.qA ≠ .dummy ∧ target.qAaaa ≠ .dummy ∧ (target.qA = .pending ∨ target.qAaaa = .pending)

structure Between (next errCnt : Nat) (job : Job) : Prop where
  core : Core job
  behind : ∀ (host : Nat) target, job.srv[host]? = some target → host ∉ job.counted → host < next → Waiting target
  ahead : ∀ (host : Nat) target, job.srv[host]? = some target → next ≤ host →
    Closed target ∧ (target.addr = [] ↔ host ∉ job.counted)
  errors : errCnt ≤ job.counted.countP (· < next)

/- In the loop, at the host whose queries are being started. -/
structure Current (option : Options) (aaaa : Bool) (target : Target) : Prop where
  qA : target.qA ≠ .dummy
  qAaaa : target.qAaaa ≠ .pending
  guarded : target.qA = .pending → target.qAaaa = .dummy
  first : aaaa = false → target.qA = .null ∧ (target.qAaaa = .null ↔ option.resolveAaaa = false)

structure InLoop (loop : Loop) (job : Job) : Prop where
  core : Core job
  behind : ∀ (host : Nat) target, job.srv[host]? = some target → host ∉ job.counted → host < loop.host → Waiting target
  current : ∃ target, job.srv[loop.host]? = some target ∧ Current job.option loop.aaaa target
  fresh : loop.host ∉ job.counted
  ahead : ∀ (host : Nat) target, job.srv[host]? = some target → loop.host < host →
    Closed target ∧ (target.addr = [] ↔ host ∉ job.counted)
  errors : loop.errCnt ≤ job.counted.countP (· < loop.host)

structure Waits (job : Job) : Prop where
  core : Core job
  behind : ∀ (host : Nat) target, job.srv[host]? = some target → host ∉ job.counted → Waiting target

def Running (job : Job) : Prop :=
  match job.loop with
  | none => Waits job
  | some loop => InLoop loop job

theorem Core.reloop (core : Core job) (loop : Option Loop) : Core { job with loop } :=
  ⟨core.answered,core.counts,core.distinct,core.inside,core.closed,core.reports,core.reported⟩

theorem Between.nextHost {next : Nat} (between : Between next errCnt job)
    (notAll : errCnt ≠ job.srv.length) (err : Status) : Running (job.nextHost next errCnt err) := by
  unfold Job.nextHost
  split
  · rename_i host found
    obtain ⟨unknown,range,before⟩ := List.find?_range'_eq_some.mp found
    obtain ⟨target,here,noAddr⟩ : ∃ target, job.srv[host]? = some target ∧ target.addr = [] := by
      cases here : job.srv[host]? with
      | none => simp [here] at unknown
      | some target => exact ⟨target,rfl,by simpa [here] using unknown⟩
    have isNext : next ≤ host := (List.mem_range'_1.mp range).1
    have isHost : host < job.srv.length := (List.getElem?_eq_some_iff.mp here).1
    have fresh : host ∉ job.counted := (between.ahead host target here isNext).2.mp noAddr
    rw [modifyPlaces here]
    change InLoop _ _
    have placed : ∀ {i : Nat} {other}, i ≠ host →
        (job.place host (target.prepare job.option) job.lastError).srv[i]? = some other → job.srv[i]? = some other := by
      intro i other apart at_
      rwa [placeAt job isHost,if_neg apart] at at_
    constructor
    case core => exact (between.core.place isHost fresh _ _).reloop _
    case behind =>
      intro i other at_ notCounted isBehind
      have was := placed (Nat.ne_of_lt isBehind) at_
      by_cases isPast : i < next
      · exact between.behind i other was notCounted isPast
      · -- skipped by the loop: its address is known
        have skipped := before i (Nat.not_lt.mp isPast) isBehind
        have empty := (between.ahead i other was (Nat.not_lt.mp isPast)).2.mpr notCounted
        simp [was,empty] at skipped
    case current =>
      refine ⟨_,(placeAt job isHost _ job.lastError host).trans (if_pos rfl),?_⟩
      constructor
      case qA => exact nofun
      case qAaaa =>
        unfold Target.prepare
        dsimp only
        split <;> nofun
      case guarded => exact nofun
      case first =>
        intro both
        refine ⟨rfl,?_⟩
        change (if _ then Handle.dummy else .null) = .null ↔ job.option.resolveAaaa = false
        rw [show job.option.aaaaOnly = false from both]
        cases job.option.resolveAaaa <;> decide
    case fresh => exact fresh
    case ahead =>
      intro i other at_ isAhead
      exact between.ahead i other (placed (Nat.ne_of_gt isAhead) at_) (Nat.le_of_lt (Nat.lt_of_le_of_lt isNext isAhead))
    case errors =>
      refine Nat.le_trans between.errors (List.countP_mono_left fun i _ isPast => ?_)
      exact decide_eq_true (Nat.lt_of_lt_of_le (of_decide_eq_true isPast) isNext)
  · rename_i absent
    rw [List.find?_eq_none] at absent
    dsimp only
    rw [if_neg notAll]
    change Waits _
    refine ⟨between.core.reloop none,?_⟩
    intro host target here notCounted
    by_cases isPast : host < next
    · exact between.behind host target here notCounted isPast
    · have isHost : host < job.srv.length := (List.getElem?_eq_some_iff.mp here).1
      have empty := (between.ahead host target here (Nat.not_lt.mp isPast)).2.mpr notCounted
      refine absurd ?_ (absent host (List.mem_range'_1.mpr ⟨Nat.not_lt.mp isPast,by omega⟩))
      have was : job.srv[host]? = some target := here
      simp [was,empty]

/- What may happen to a host that is not counted: it waits, or it is counted. -/
structure Moves (host : Nat) (job job' : Job) : Prop where
  core : Core job'
  others : ∀ i, i ≠ host → job'.srv[i]? = job.srv[i]?
  length : job'.srv.length = job.srv.length
  counted : ∀ i, i ≠ host → (i ∈ job'.counted ↔ i ∈ job.counted)
  waits : ∀ target, job'.srv[host]? = some target → host ∉ job'.counted → Waiting target
  loop : job'.loop = job.loop
  option : job'.option = job.option
  grows : ∀ p : Nat → Bool, job.counted.countP p ≤ job'.counted.countP p

theorem Core.placeMoves (core : Core job) (isHost : host < job.srv.length)
    (fresh : host ∉ job.counted) (waiting : Waiting target) (lastError : Status) :
    Moves host job (job.place host target lastError) := by
  constructor
  case core => exact core.place isHost fresh target lastError
  case others =>
    intro i apart
    rw [placeAt job isHost,if_neg apart]
  case length => exact placeLength job host target lastError
  case counted => exact fun _ _ => Iff.rfl
  case waits =>
    intro other at_ _
    rw [placeAt job isHost,if_pos rfl] at at_
    cases at_
    exact waiting
  case loop => rfl
  case option => rfl
  case grows => exact fun _ => Nat.le_refl _

theorem Core.settleMoves (core : Core job) (isHost : host < job.srv.length)
    (fresh : host ∉ job.counted) (closed : Closed target) (lastError : Status) :
    Moves host job ((job.place host target lastError).count host).checkResolved := by
  have settled := core.settle isHost fresh closed lastError
  rw [checkFrame] at settled ⊢
  constructor
  case core => exact settled
  case others =>
    intro i apart
    exact (placeAt job isHost target lastError i).trans (if_neg apart)
  case length => exact placeLength job host target lastError
  case counted =>
    intro i apart
    change i ∈ job.counted ++ [host] ↔ _
    rw [List.mem_append,List.mem_singleton]
    exact or_iff_left apart
  case waits =>
    intro other _ notCounted
    exact absurd (List.mem_append_right job.counted (List.mem_singleton.mpr rfl)) notCounted
  case loop => rfl
  case option => rfl
  case grows =>
    intro p
    change _ ≤ (job.counted ++ [host]).countP p
    rw [List.countP_append]
    exact Nat.le_add_right _ _

theorem InLoop.leave (inLoop : InLoop loop job) (moves : Moves loop.host job job')
    (errors : errCnt ≤ job'.counted.countP (· < loop.host + 1)) : Between (loop.host + 1) errCnt job' := by
  refine ⟨moves.core,?_,?_,errors⟩
  · intro host target at_ notCounted isPast
    by_cases same : host = loop.host
    · rw [same] at at_ notCounted
      exact moves.waits target at_ notCounted
    · rw [moves.others host same] at at_
      rw [moves.counted host same] at notCounted
      exact inLoop.behind host target at_ notCounted (by omega)
  · intro host target at_ isNext
    have apart : host ≠ loop.host := by omega
    rw [moves.others host apart] at at_
    rw [moves.counted host apart]
    exact inLoop.ahead host target at_ (by omega)

theorem InLoop.stayErrors (inLoop : InLoop loop job) (moves : Moves loop.host job job') :
    loop.errCnt ≤ job'.counted.countP (· < loop.host + 1) := by
  refine Nat.le_trans inLoop.errors (Nat.le_trans (moves.grows _) (List.countP_mono_left fun i _ isPast => ?_))
  exact decide_eq_true (Nat.lt_succ_of_lt (of_decide_eq_true isPast))

theorem InLoop.isHost (inLoop : InLoop loop job) : loop.host < job.srv.length := by
  obtain ⟨target,here,_⟩ := inLoop.current
  exact (List.getElem?_eq_some_iff.mp here).1

theorem InLoop.fewErrors (inLoop : InLoop loop job) : loop.errCnt < job.srv.length := by
  refine Nat.lt_of_le_of_lt (Nat.le_trans inLoop.errors List.countP_le_length) ?_
  exact countedApart inLoop.core.distinct inLoop.core.inside inLoop.isHost inLoop.fresh

theorem InLoop.onward (inLoop : InLoop loop job) (moves : Moves loop.host job job') :
    Running (job'.nextHost (loop.host + 1) loop.errCnt loop.err) := by
  refine (inLoop.leave moves (inLoop.stayErrors moves)).nextHost ?_ loop.err
  rw [moves.length]
  exact Nat.ne_of_lt inLoop.fewErrors

theorem InLoop.second (inLoop : InLoop loop job) (lastError : Status) (current : Current job.option true target) :
    Running { job.place loop.host target lastError with loop := some { loop with aaaa := true } } := by
  change InLoop _ _
  have isHost := inLoop.isHost
  constructor
  case core => exact (inLoop.core.place isHost inLoop.fresh target lastError).reloop _
  case behind =>
    intro host other at_ notCounted isBehind
    refine inLoop.behind host other ?_ notCounted isBehind
    exact ((placeAt job isHost target lastError host).trans (if_neg (Nat.ne_of_lt isBehind))).symm.trans at_
  case current => exact ⟨target,(placeAt job isHost target lastError loop.host).trans (if_pos rfl),current⟩
  case fresh => exact inLoop.fresh
  case ahead =>
    intro host other at_ isAhead
    refine inLoop.ahead host other ?_ isAhead
    exact ((placeAt job isHost target lastError host).trans (if_neg (Nat.ne_of_gt isAhead))).symm.trans at_
  case errors => exact inLoop.errors

theorem placeSelf (here : job.srv[host]? = some target) : job.place host target job.lastError = job := by
  have same : job.srv.set host target = job.srv := by
    refine List.ext_getElem? fun i => ?_
    refine (placeAt job (List.getElem?_eq_some_iff.mp here).1 target job.lastError i).trans ?_
    by_cases at_ : i = host
    · rw [if_pos at_,at_,here]
    · rw [if_neg at_]
  unfold Job.place
  rw [same]

theorem cancelledWaits (counts : job.hostResolved = job.counted.length) (distinct : job.counted.Nodup)
    (inside : ∀ host ∈ job.counted, host < job.srv.length) (all : job.hostResolved = job.srv.length)
    (silent : job.calls = []) (status : Status) : Waits (job.cancelQuery.callback status none) := by
  have length : job.cancelQuery.srv.length = job.srv.length := List.length_map _
  have closed : ∀ target ∈ job.cancelQuery.srv, Closed target := by
    intro target member
    obtain ⟨old,_,rfl⟩ := List.mem_map.mp member
    exact ⟨nofun,nofun⟩
  have each := countedAll distinct inside (counts.symm.trans all)
  constructor
  case core =>
    constructor
    case answered => rfl
    case counts => exact counts
    case distinct => exact distinct
    case inside => exact fun host counted => length ▸ inside host counted
    case closed => exact fun host target at_ _ => closed target (List.mem_of_getElem? at_)
    case reports =>
      intro call called
      change call ∈ job.calls ++ [_] at called
      rw [silent,List.nil_append,List.mem_singleton] at called
      rw [called]
      exact ⟨all.trans length.symm,length ▸ each,closed⟩
    case reported =>
      refine Eq.trans ?_ (if_pos (all.trans length.symm)).symm
      change (job.calls ++ [_]).length = 1
      rw [silent]
      rfl
  case behind =>
    intro host target at_ notCounted
    have isHost : host < job.cancelQuery.srv.length := (List.getElem?_eq_some_iff.mp at_).1
    rw [length] at isHost
    exact absurd (each.mem_iff.mpr (List.mem_range.mpr isHost)) notCounted

theorem nextHostOver {next : Nat} {err : Status} (past : job.srv.length ≤ next)
    (all : errCnt = job.srv.length) (isError : err ≠ success) :
    job.nextHost next errCnt err = { job with loop := none }.cancelQuery.callback err none := by
  have nobody : job.srv.length - next = 0 := Nat.sub_eq_zero_of_le past
  unfold Job.nextHost
  rw [nobody]
  change (if errCnt = job.srv.length then _ else _) = _
  rw [if_pos all]
  exact if_neg isError

theorem InLoop.failed (inLoop : InLoop loop job) (lastError : Status)
    {status : Status} (isError : status ≠ success)
    (careful : loop.errCnt + 1 = job.srv.length ∨ job.hostResolved + 1 < job.srv.length ∧ Closed target) :
    Running ((job.place loop.host target lastError).failed loop status) := by
  have isHost := inLoop.isHost
  have core := inLoop.core
  have errors := inLoop.errors
  have countedFew : job.counted.length < job.srv.length := countedApart core.distinct core.inside isHost inLoop.fresh
  have length : ((job.place loop.host target lastError).count loop.host).srv.length = job.srv.length :=
    placeLength job loop.host target lastError
  unfold Job.failed
  by_cases all : loop.errCnt + 1 = job.srv.length
  · -- every host has failed, and this was the last one
    have below : job.counted.countP (· < loop.host) ≤ loop.host := by
      rw [List.countP_eq_length_filter]
      refine countedBelow (core.distinct.filter _) fun i member => ?_
      exact of_decide_eq_true (List.mem_filter.mp member).2
    have atMost : job.counted.countP (· < loop.host) ≤ job.counted.length := List.countP_le_length
    have total : job.hostResolved + 1 = job.srv.length := by
      rw [core.counts]
      omega
    have silent : job.calls = [] := by
      have none_ := core.reported
      rw [if_neg (core.notAll isHost inLoop.fresh)] at none_
      exact List.length_eq_zero_iff.mp none_
    rw [nextHostOver (by omega) (all.trans length.symm) isError]
    change Waits _
    refine @cancelledWaits { (job.place loop.host target lastError).count loop.host with loop := none } ?_ ?_ ?_
      (total.trans length.symm) silent status
    · change job.hostResolved + 1 = (job.counted ++ [loop.host]).length
      rw [List.length_append,core.counts]
      rfl
    · change (job.counted ++ [loop.host]).Nodup
      rw [List.nodup_append_comm]
      exact List.nodup_cons.mpr ⟨inLoop.fresh,core.distinct⟩
    · intro host counted
      refine length.symm ▸ ?_
      rcases List.mem_append.mp counted with counted | single
      · exact core.inside host counted
      · rw [List.mem_singleton.mp single]
        exact isHost
  · obtain ⟨notLast,closed⟩ := careful.resolve_left all
    have moves := core.settleMoves isHost inLoop.fresh closed lastError
    have unchecked : ((job.place loop.host target lastError).count loop.host).checkResolved =
        (job.place loop.host target lastError).count loop.host := by
      refine if_neg ?_
      rw [length]
      exact Nat.ne_of_lt notLast
    rw [unchecked] at moves
    refine (inLoop.leave moves ?_).nextHost ?_ status
    · change _ ≤ (job.counted ++ [loop.host]).countP _
      rw [List.countP_append,List.countP_singleton,if_pos (decide_eq_true (Nat.lt_succ_self loop.host))]
      refine Nat.succ_le_succ (Nat.le_trans errors (List.countP_mono_left fun i _ isPast => ?_))
      exact decide_eq_true (Nat.lt_succ_of_lt (of_decide_eq_true isPast))
    · rw [length]
      exact all

theorem waitingAnswered (core : Core job)
    (here : job.srv[host]? = some target) (fresh : host ∉ job.counted) (waiting : Waiting target) {aaaa : Bool}
    (pending : target.handle aaaa = .pending) (ans : Answer) : Moves host job (job.hostCallback host aaaa ans) := by
  have isHost := (List.getElem?_eq_some_iff.mp here).1
  obtain ⟨new,lastError,qA,qAaaa,is⟩ := hostCallbackPlaces here aaaa ans
  obtain ⟨noDummyA,noDummyAaaa,_⟩ := waiting
  rw [is]
  split
  · rename_i completed
    refine core.settleMoves isHost fresh ?_ lastError
    cases aaaa
    · exact ⟨by rw [qA]; nofun,fun is => (nomatch completed.symm.trans (qAaaa.symm.trans is))⟩
    · exact ⟨fun is => (nomatch completed.symm.trans (qA.symm.trans is)),by rw [qAaaa]; nofun⟩
  · rename_i other
    rw [uncheckedPlace core isHost fresh]
    refine core.placeMoves isHost fresh ?_ lastError
    cases aaaa
    · have isPending : target.qAaaa = .pending := by
        cases is : target.qAaaa with
        | null => exact absurd is other
        | dummy => exact absurd is noDummyAaaa
        | pending => rfl
      exact ⟨by rw [qA]; nofun,by rw [qAaaa]; exact noDummyAaaa,.inr (qAaaa.trans isPending)⟩
    · have isPending : target.qA = .pending := by
        cases is : target.qA with
        | null => exact absurd is other
        | dummy => exact absurd is noDummyA
        | pending => rfl
      exact ⟨by rw [qA]; exact noDummyA,by rw [qAaaa]; nofun,.inl (qA.trans isPending)⟩

theorem Running.answer (running : Running job)
    (here : job.srv[host]? = some target) {aaaa : Bool} (pending : target.handle aaaa = .pending) (ans : Answer) :
    Running (job.hostCallback host aaaa ans) := by
  have open_ : ∀ {other : Target}, other.handle aaaa = .pending → ¬ Closed other := by
    rintro other is ⟨notA,notAaaa⟩
    cases aaaa
    · exact notA is
    · exact notAaaa is
  unfold Running at running
  cases isLoop : job.loop with
  | none =>
    rw [isLoop] at running
    have fresh : host ∉ job.counted := fun counted => open_ pending (running.core.closed host target here counted)
    have moves := waitingAnswered running.core here fresh (running.behind host target here fresh) pending ans
    unfold Running
    rw [moves.loop,isLoop]
    refine ⟨moves.core,?_⟩
    intro i other at_ notCounted
    by_cases same : i = host
    · rw [same] at at_ notCounted
      exact moves.waits other at_ notCounted
    · rw [moves.others i same] at at_
      rw [moves.counted i same] at notCounted
      exact running.behind i other at_ notCounted
  | some loop =>
    rw [isLoop] at running
    have fresh : host ∉ job.counted := fun counted => open_ pending (running.core.closed host target here counted)
    have notAhead : ¬ loop.host < host := fun isAhead => open_ pending (running.ahead host target here isAhead).1
    by_cases isCurrent : host = loop.host
    · -- the A query of the host whose AAAA query is next
      rw [isCurrent] at here
      obtain ⟨other,there,current⟩ := running.current
      cases here.symm.trans there
      have isA : aaaa = false := by
        cases aaaa with
        | false => rfl
        | true => exact absurd pending current.qAaaa
      subst isA
      have guarded : target.qAaaa = .dummy := current.guarded pending
      obtain ⟨new,lastError,qA,qAaaa,is⟩ := hostCallbackPlaces here false ans
      have notCompleted : target.handle (!false) ≠ .null := by
        intro completed
        cases guarded.symm.trans completed
      have inSecond : loop.aaaa = true := by
        cases phase : loop.aaaa with
        | true => rfl
        | false => cases (current.first phase).1.symm.trans pending
      rw [isCurrent,is,if_neg notCompleted,uncheckedPlace running.core running.isHost running.fresh]
      have same : job.place loop.host new lastError =
          { job.place loop.host new lastError with loop := some { loop with aaaa := true } } := by
        rw [← inSecond]
        change _ = { job.place loop.host new lastError with loop := some loop }
        rw [← isLoop]
        rfl
      rw [same]
      refine running.second lastError ⟨?_,?_,?_,by rintro ⟨⟩⟩
      · rw [qA]
        rintro ⟨⟩
      · rw [qAaaa]
        exact current.qAaaa
      · rw [qA]
        rintro ⟨⟩
    · have isBehind : host < loop.host := by omega
      have moves := waitingAnswered running.core here fresh (running.behind host target here fresh isBehind) pending ans
      unfold Running
      rw [moves.loop,isLoop]
      have apart : loop.host ≠ host := Ne.symm isCurrent
      constructor
      case core => exact moves.core
      case behind =>
        intro i other at_ notCounted isPast
        by_cases same : i = host
        · rw [same] at at_ notCounted
          exact moves.waits other at_ notCounted
        · rw [moves.others i same] at at_
          rw [moves.counted i same] at notCounted
          exact running.behind i other at_ notCounted isPast
      case current =>
        rw [moves.others loop.host apart,moves.option]
        exact running.current
      case fresh =>
        rw [moves.counted loop.host apart]
        exact running.fresh
      case ahead =>
        intro i other at_ isAhead
        have other_ : i ≠ host := by omega
        rw [moves.others i other_] at at_
        rw [moves.counted i other_]
        exact running.ahead i other at_ isAhead
      case errors => exact Nat.le_trans running.errors (moves.grows _)

/- start_query returns, in whatever way. -/

theorem setHandlePlaces (here : job.srv[host]? = some target) (aaaa : Bool)
    (handle : Handle) : job.setHandle host aaaa handle = job.place host (target.setHandle aaaa handle) job.lastError :=
  modifyPlaces here _

/- A host whose count fails nothing: it is not the last one to be counted unless all have failed, and has no A query outstanding. -/
def Careful (job : Job) : Step → Prop
  | .start loop outcome => outcome.fails = true → loop.errCnt + 1 = job.srv.length ∨
    job.hostResolved + 1 < job.srv.length ∧
      ∀ target, job.srv[loop.host]? = some target → target.qA ≠ .pending
  | _ => True

theorem InLoop.startPending (inLoop : InLoop loop job) :
    Running ((job.setHandle loop.host loop.aaaa .pending).started loop) := by
  obtain ⟨target,here,current⟩ := inLoop.current
  rw [setHandlePlaces here]
  unfold Job.started
  cases phase : loop.aaaa with
  | false =>
    obtain ⟨_,single⟩ := current.first phase
    cases both : job.option.resolveAaaa with
    | true =>
      have guarded : target.qAaaa = .dummy := by
        cases is : target.qAaaa with
        | null => cases both.symm.trans (single.mp is)
        | dummy => rfl
        | pending => exact absurd is current.qAaaa
      have chosen : (!false && (job.place loop.host (target.setHandle false .pending) job.lastError).option.resolveAaaa) =
          true := both
      rw [if_pos chosen]
      exact inLoop.second job.lastError ⟨by rintro ⟨⟩,current.qAaaa,fun _ => guarded,by rintro ⟨⟩⟩
    | false =>
      have chosen : ¬ (!false &&
          (job.place loop.host (target.setHandle false .pending) job.lastError).option.resolveAaaa) = true := by
        change ¬ job.option.resolveAaaa = true
        rw [both]
        rintro ⟨⟩
      rw [if_neg chosen]
      have waiting : Waiting (target.setHandle false .pending) :=
        ⟨by rintro ⟨⟩,by rw [show (target.setHandle false .pending).qAaaa = .null from single.mpr both]; rintro ⟨⟩,.inl rfl⟩
      exact inLoop.onward (inLoop.core.placeMoves inLoop.isHost inLoop.fresh waiting job.lastError)
  | true =>
    have waiting : Waiting (target.setHandle true .pending) := ⟨current.qA,by rintro ⟨⟩,.inr rfl⟩
    exact inLoop.onward (inLoop.core.placeMoves inLoop.isHost inLoop.fresh waiting job.lastError)

theorem InLoop.startCached (inLoop : InLoop loop job) (ans : Answer) :
    Running ((job.hostCallback loop.host loop.aaaa ans).started loop) := by
  obtain ⟨target,here,current⟩ := inLoop.current
  obtain ⟨new,lastError,qA,qAaaa,is⟩ := hostCallbackPlaces here loop.aaaa ans
  rw [is]
  unfold Job.started
  cases phase : loop.aaaa with
  | false =>
    rw [phase] at qA qAaaa
    obtain ⟨_,single⟩ := current.first phase
    split
    · rename_i completed
      have closed : Closed new :=
        ⟨by rw [qA]; rintro ⟨⟩,fun is => by cases completed.symm.trans (qAaaa.symm.trans is)⟩
      have moves := inLoop.core.settleMoves inLoop.isHost inLoop.fresh closed lastError
      have chosen : ¬ (!false &&
          ((job.place loop.host new lastError).count loop.host).checkResolved.option.resolveAaaa) = true := by
        rw [moves.option,single.mp completed]
        rintro ⟨⟩
      rw [if_neg chosen]
      exact inLoop.onward moves
    · rename_i other
      rw [uncheckedPlace inLoop.core inLoop.isHost inLoop.fresh]
      have both : job.option.resolveAaaa = true := by
        cases is : job.option.resolveAaaa with
        | true => rfl
        | false => exact absurd (single.mpr is) other
      have chosen : (!false && (job.place loop.host new lastError).option.resolveAaaa) = true := both
      rw [if_pos chosen]
      refine inLoop.second lastError ⟨?_,?_,?_,by rintro ⟨⟩⟩
      · rw [qA]
        rintro ⟨⟩
      · rw [qAaaa]
        exact current.qAaaa
      · rw [qA]
        rintro ⟨⟩
  | true =>
    rw [phase] at qA qAaaa
    split
    · rename_i completed
      have closed : Closed new :=
        ⟨fun is => (by cases completed.symm.trans (qA.symm.trans is)),by rw [qAaaa]; rintro ⟨⟩⟩
      exact inLoop.onward (inLoop.core.settleMoves inLoop.isHost inLoop.fresh closed lastError)
    · rename_i other
      rw [uncheckedPlace inLoop.core inLoop.isHost inLoop.fresh]
      have outstanding : target.qA = .pending := by
        cases is : target.qA with
        | null => exact absurd is other
        | dummy => exact absurd is current.qA
        | pending => rfl
      have waiting : Waiting new := ⟨by rw [qA]; exact current.qA,by rw [qAaaa]; rintro ⟨⟩,.inl (qA.trans outstanding)⟩
      exact inLoop.onward (inLoop.core.placeMoves inLoop.isHost inLoop.fresh waiting lastError)

theorem InLoop.start (inLoop : InLoop loop job) {outcome : Outcome} {name : List Char}
    (possible : outcome.possible name) (careful : Careful job (.start loop outcome)) :
    Running (job.startQuery loop outcome) := by
  obtain ⟨target,here,current⟩ := inLoop.current
  cases outcome with
  | refused status =>
    have failed := @InLoop.failed job target loop inLoop job.lastError status possible.1
      ((careful rfl).imp_right fun ⟨notLast,noA⟩ => ⟨notLast,noA target here,current.qAaaa⟩)
    rw [placeSelf here] at failed
    exact failed
  | notSent =>
    unfold Job.startQuery
    dsimp only
    rw [setHandlePlaces here]
    refine inLoop.failed job.lastError possible.1 ((careful rfl).imp_right fun ⟨notLast,noA⟩ => ⟨notLast,?_⟩)
    cases loop.aaaa
    · exact ⟨nofun,current.qAaaa⟩
    · exact ⟨noA target here,nofun⟩
  | cached ans => exact inLoop.startCached ans
  | pending => exact inLoop.startPending

/- The SRV query is answered. -/

theorem Built.core (built : Built job) (notAll : job.hostResolved ≠ job.srv.length) : Core job := by
  constructor
  case answered => exact built.answered
  case counts => exact built.counts
  case distinct => exact built.distinct
  case inside => exact built.inside
  case closed =>
    intro host target at_ _
    obtain ⟨_,qA,qAaaa⟩ := built.known host target at_
    exact ⟨by rw [qA]; nofun,by rw [qAaaa]; nofun⟩
  case reports => rw [built.silent]; nofun
  case reported => rw [built.silent,if_neg notAll]; rfl

theorem Built.fallback (built : Built job) : Built job.fallback := by
  unfold Job.fallback
  split
  · rename_i empty
    have none_ : job.counted = [] := by
      cases is : job.counted with
      | nil => rfl
      | cons host =>
        have isHost := built.inside host (by rw [is]; exact List.mem_cons_self)
        rw [empty.1] at isHost
        exact absurd isHost (Nat.not_lt_zero host)
    refine builtPlain ?_ none_ ?_ built.idle built.silent built.answered
    · intro target member
      rw [List.mem_singleton.mp member]
      exact ⟨rfl,rfl,rfl⟩
    · change job.hostResolved = 0
      rw [built.counts,none_]
      rfl
  · exact built

theorem Built.resolveHosts (built : Built job) : Running job.resolveHosts := by
  unfold Job.resolveHosts
  by_cases all : job.hostResolved = job.srv.length
  · rw [if_neg (not_not.mpr all)]
    unfold Job.checkResolved
    rw [if_pos all]
    have each := countedAll built.distinct built.inside (built.counts.symm.trans all)
    have closed : ∀ (host : Nat) target, job.srv[host]? = some target → Closed target := by
      intro host target at_
      obtain ⟨_,qA,qAaaa⟩ := built.known host target at_
      exact ⟨by rw [qA]; nofun,by rw [qAaaa]; nofun⟩
    have idle : job.finish.loop = none := built.idle
    unfold Running
    rw [idle]
    constructor
    case core =>
      constructor
      case answered => exact built.answered
      case counts => exact built.counts
      case distinct => exact built.distinct
      case inside => exact built.inside
      case closed => exact fun host target at_ _ => closed host target at_
      case reports =>
        intro call called
        change call ∈ job.calls ++ [_] at called
        rw [built.silent,List.nil_append,List.mem_singleton] at called
        rw [called]
        refine ⟨all,each,fun target member => ?_⟩
        obtain ⟨host,at_⟩ := List.mem_iff_getElem?.mp member
        exact closed host target at_
      case reported =>
        refine Eq.trans ?_ (if_pos all).symm
        change (job.calls ++ [_]).length = 1
        rw [built.silent]
        rfl
    case behind =>
      intro host target at_ notCounted
      have isHost : host < job.srv.length := (List.getElem?_eq_some_iff.mp at_).1
      exact absurd (each.mem_iff.mpr (List.mem_range.mpr isHost)) notCounted
  · rw [if_pos all]
    have core := built.core all
    refine Between.nextHost ⟨core,fun host _ _ _ isPast => absurd isPast (Nat.not_lt_zero host),?_,Nat.zero_le _⟩ ?_ success
    · intro host target at_ _
      obtain ⟨known,qA,qAaaa⟩ := built.known host target at_
      exact ⟨⟨by rw [qA]; nofun,by rw [qAaaa]; nofun⟩,known⟩
    · intro noTargets
      have few := countedBelow built.distinct built.inside
      rw [← noTargets,← built.counts] at few
      exact all (by omega)

/- Before the SRV query is answered. -/
structure Unanswered (job : Job) : Prop where
  srv : job.srv = []
  counted : job.counted = []
  hostResolved : job.hostResolved = 0
  idle : job.loop = none
  silent : job.calls = []

theorem Unanswered.failed (unanswered : Unanswered job) {status : Status} (isError : status ≠ success) :
    Running (job.onError status) := by
  have idle : (job.onError status).loop = none := by
    unfold Job.onError
    rw [if_neg isError]
    exact unanswered.idle
  unfold Running
  rw [idle]
  unfold Job.onError
  rw [if_neg isError]
  refine cancelledWaits ?_ ?_ ?_ ?_ unanswered.silent status
  · rw [unanswered.hostResolved,unanswered.counted]
    rfl
  · rw [unanswered.counted]
    exact List.nodup_nil
  · rw [unanswered.counted]
    nofun
  · rw [unanswered.hostResolved,unanswered.srv]
    rfl

theorem Unanswered.built (unanswered : Unanswered job) (answered : job.qSrv = false) : Built job :=
  builtPlain (by rw [unanswered.srv]; nofun) unanswered.counted unanswered.hostResolved unanswered.idle unanswered.silent
    answered

theorem Unanswered.answer (unanswered : Unanswered job) (inet : Inet) (rand : Nat → Nat) (status : Status)
    (pkt : SrvPacket) : Running (job.srvCallback inet rand status pkt) := by
  unfold Job.srvCallback
  dsimp only
  split
  · split
    · refine Unanswered.failed ⟨?_,?_,?_,?_,?_⟩ (by decide)
      · exact unanswered.srv
      · exact unanswered.counted
      · exact unanswered.hostResolved
      · exact unanswered.idle
      · exact unanswered.silent
    · have waits : Unanswered { job with qSrv := false } :=
        ⟨unanswered.srv,unanswered.counted,unanswered.hostResolved,unanswered.idle,unanswered.silent⟩
      split
      · exact (builtEntries waits.counted waits.hostResolved waits.idle waits.silent rfl inet rand pkt).fallback.resolveHosts
      · exact (waits.built rfl).fallback.resolveHosts
  · rename_i isError
    have waits : Unanswered { job with qSrv := false, lastError := status } :=
      ⟨unanswered.srv,unanswered.counted,unanswered.hostResolved,unanswered.idle,unanswered.silent⟩
    split
    · exact waits.failed isError
    · exact (waits.built rfl).fallback.resolveHosts

/- The runs of a resolution whose steps are all allowed. -/
inductive Reach (allowed : Job → Step → Prop) : Job → Prop where
  | new (option : Options) (domainPart : List Char) (defPort : UInt16) : Reach allowed (srvResolve option domainPart defPort)
  | next {job : Job} (reached : Reach allowed job) (step : Step) (possible : step.possible job)
      (isAllowed : allowed job step) : Reach allowed (job.step step)

theorem Reach.runs (reached : Reach Careful job) : job.qSrv = true ∧ Unanswered job ∨ Running job := by
  induction reached with
  | new => exact .inl ⟨rfl,rfl,rfl,rfl,rfl,rfl⟩
  | @next job _ step possible careful ih =>
    have answered : Running job → job.qSrv = false := by
      intro running
      unfold Running at running
      split at running
      · exact running.core.answered
      · exact running.core.answered
    rcases ih with ⟨unasked,unanswered⟩ | running
    · cases step with
      | srvAnswer inet rand status pkt => exact .inr (unanswered.answer inet rand status pkt)
      | start => cases unanswered.idle.symm.trans possible.1
      | answer =>
        obtain ⟨target,here,_⟩ := possible
        rw [unanswered.srv] at here
        cases here
    · refine .inr ?_
      cases step with
      | srvAnswer => cases (answered running).symm.trans possible
      | start =>
        unfold Running at running
        rw [possible.1] at running
        exact running.start possible.2 careful
      | answer host aaaa ans =>
        obtain ⟨target,here,pending⟩ := possible
        exact running.answer here pending ans

/- The SRV query and all that it led to have ended. -/
def Job.ended (job : Job) : Prop :=
  job.qSrv = false ∧ job.loop = none ∧ ∀ target ∈ job.srv, Closed target

/- The callback is called once all host queries have ended, and not again; every target has then been counted once. -/
theorem reportsOnce {job : Job} (reached : Reach Careful job) : job.calls.length ≤ 1 ∧
    (∀ call ∈ job.calls, call.hostResolved = call.srv.length ∧ call.counted.Perm (List.range call.srv.length) ∧
      ∀ target ∈ call.srv, Closed target) ∧
    (job.ended → job.calls.length = 1) := by
  rcases reached.runs with ⟨unasked,unanswered⟩ | running
  · rw [unanswered.silent]
    exact ⟨Nat.zero_le 1,by rintro _ ⟨⟩,fun ended => by cases ended.1.symm.trans unasked⟩
  · have core : Core job := by
      unfold Running at running
      split at running
      · exact running.core
      · exact running.core
    refine ⟨?_,fun call called => ?_,fun ended => ?_⟩
    · rw [core.reported]
      split
      · exact Nat.le_refl 1
      · exact Nat.zero_le 1
    · obtain ⟨total,each,closed⟩ := core.reports call called
      exact ⟨total,each,closed⟩
    · obtain ⟨_,idle,closed⟩ := ended
      unfold Running at running
      rw [idle] at running
      have all : ∀ host < job.srv.length, host ∈ job.counted := by
        intro host isHost
        by_contra notCounted
        obtain ⟨_,_,waits⟩ := running.behind host job.srv[host] (List.getElem?_eq_getElem isHost) notCounted
        obtain ⟨notA,notAaaa⟩ := closed job.srv[host] (List.getElem_mem isHost)
        exact waits.elim notA notAaaa
      have total : job.srv.length ≤ job.counted.length := by
        have within := List.subperm_of_subset List.nodup_range fun host member => all host (List.mem_range.mp member)
        have length := within.length_le
        rwa [List.length_range] at length
      rw [core.reported,if_pos (core.counts.trans (Nat.le_antisymm (countedBelow core.distinct core.inside) total))]

/- Two targets with A and AAAA queries: the AAAA query of the first is answered from the cache, the A query of the second cannot be
sent, and the A query of the first is answered last. -/
theorem twoTargetsReported : ∃ job, Reach Careful job ∧ job.ended ∧ job.calls.length ≤ 1 ∧
    (∀ call ∈ job.calls, call.hostResolved = call.srv.length ∧ call.counted.Perm (List.range call.srv.length) ∧
      ∀ target ∈ call.srv, Closed target) ∧
    (job.ended → job.calls.length = 1) := by
  let inet : Inet := ⟨fun _ => none,fun _ => none⟩
  let pkt : SrvPacket := ⟨false,[⟨['s'],.srv 2 0 5060 ['b']⟩,⟨['s'],.srv 1 0 5060 ['a']⟩],[]⟩
  have new : Reach Careful _ := .new (.normalize false false true false) ['d'] 5060
  have asked := new.next (.srvAnswer inet (fun _ => 0) 0 pkt) rfl trivial
  have first := asked.next (.start ⟨0,false,0,0⟩ .pending) ⟨by decide +kernel,by decide +kernel,by decide +kernel⟩ nofun
  have both := first.next (.start ⟨0,true,0,0⟩ (.cached ⟨0,1,.ok ⟨[],[.v6 [1]]⟩⟩)) ⟨by decide +kernel,by decide +kernel,by decide +kernel⟩ nofun
  have failed := both.next (.start ⟨1,false,0,0⟩ (.notSent 5)) ⟨by decide +kernel,by decide,by decide +kernel,by decide +kernel⟩
    (fun _ => .inr ⟨by decide +kernel,fun target here is => absurd
      (Option.map_eq_some_iff.mpr ⟨target,here,is⟩) (by decide +kernel)⟩)
  have answered := failed.next (.answer 0 false ⟨0,1,.ok ⟨[],[.v4 1]⟩⟩) (Option.map_eq_some_iff.mp (by decide +kernel)) trivial
  exact ⟨_,answered,⟨by decide +kernel,by decide +kernel,by decide +kernel⟩,reportsOnce answered⟩

/- A target whose address is in the response, and one with a name of 128 characters, for which no query is started: all has ended,
and nobody was told. -/
theorem neverReported : ∃ job, Reach (fun _ _ => True) job ∧ job.ended ∧ job.hostResolved = job.srv.length ∧
    job.calls = [] := by
  let inet : Inet := ⟨fun _ => none,fun _ => none⟩
  let long : List Char := List.replicate 63 'a' ++ '.' :: List.replicate 62 'b' ++ ['.','c']
  let pkt : SrvPacket :=
    ⟨false,[⟨['s'],.srv 1 0 5060 ['a']⟩,⟨['s'],.srv 2 0 5060 long⟩],[⟨['a'],.a 1⟩]⟩
  have new : Reach (fun _ _ => True) _ := .new (.normalize false false false false) ['d'] 5060
  have asked := new.next (.srvAnswer inet (fun _ => 0) 0 pkt) rfl trivial
  have refused := asked.next (.start ⟨1,false,0,0⟩ (.refused 70005)) ⟨by decide +kernel,by decide +kernel,by decide +kernel⟩ trivial
  exact ⟨_,refused,⟨by decide +kernel,by decide +kernel,by decide +kernel⟩,by decide +kernel,by decide +kernel⟩

end Pjproject.Srv
