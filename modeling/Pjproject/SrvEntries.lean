import Pjproject.SrvResolver

/-! What build_server_entries counts: each target once, and those targets whose address is known. -/
namespace Pjproject.Srv

/- Sorting and drawing move targets, and touch nothing of them but their sum. -/
def Plain (target : Target) : Prop := target.addr = [] ∧ target.qA = .null ∧ target.qAaaa = .null

def AllPlain (srv : List Target) : Prop := ∀ target ∈ srv, Plain target

theorem srvTargetsPlain (ans : List Rr) : AllPlain (srvTargets ans) := by
  intro target member
  obtain ⟨rr,_,is⟩ := List.mem_filterMap.mp (List.mem_of_mem_take member)
  unfold Rr.target at is
  split at is
  · split at is
    · cases is
    · split at is
      · cases is
      · cases is
        exact ⟨rfl,rfl,rfl⟩
  · cases is

variable {srv : List Target} {job : Job}

theorem AllPlain.swap (plain : AllPlain srv) (i j : Nat) : AllPlain (swapTargets srv i j) := by
  unfold swapTargets
  split
  · rename_i a b atI atJ
    intro target member
    rcases List.mem_or_eq_of_mem_set member with member | rfl
    · rcases List.mem_or_eq_of_mem_set member with member | rfl
      · exact plain target member
      · exact plain _ (List.mem_of_getElem? atJ)
    · exact plain _ (List.mem_of_getElem? atI)
  · exact plain

theorem AllPlain.orderByPriority (plain : AllPlain srv) : AllPlain (orderByPriority srv) := by
  unfold Srv.orderByPriority
  generalize List.range (srv.length - 1) = places
  induction places generalizing srv with
  | nil => exact plain
  | cons i places ih => exact ih (plain.swap i _)

theorem AllPlain.runningSums (plain : AllPlain srv) (sum : Nat) : AllPlain (runningSums sum srv) := by
  induction srv generalizing sum with
  | nil => exact plain
  | cons first rest ih =>
    intro target member
    rcases List.mem_cons.mp member with rfl | member
    · exact plain first List.mem_cons_self
    · exact ih (fun target inside => plain target (List.mem_cons_of_mem first inside)) _ target member

theorem AllPlain.elect (plain : AllPlain srv) (rand : Nat → Nat) (i : Nat) : AllPlain (elect rand srv i) := by
  have group : AllPlain ((srv.drop i).takeWhile fun target => target.priority = priorityAt srv i) := fun target member =>
    plain target (List.mem_of_mem_drop (List.takeWhile_subset _ member))
  have summed : AllPlain (srv.take i ++
      Srv.runningSums 0 ((srv.drop i).takeWhile fun target => target.priority = priorityAt srv i) ++
      srv.drop (i + ((srv.drop i).takeWhile fun target => target.priority = priorityAt srv i).length)) := by
    intro target member
    rcases List.mem_append.mp member with front | behind
    · rcases List.mem_append.mp front with before | inside
      · exact plain target (List.mem_of_mem_take before)
      · exact group.runningSums 0 target inside
    · exact plain target (List.mem_of_mem_drop behind)
  unfold Srv.elect
  dsimp only
  split
  · exact summed.swap i _
  · exact summed

theorem AllPlain.electAll (plain : AllPlain srv) (rand : Nat → Nat) : AllPlain (electAll rand srv) := by
  unfold Srv.electAll
  generalize List.range srv.length = places
  induction places generalizing srv with
  | nil => exact plain
  | cons i places ih => exact ih (plain.elect rand i)

/- A query that has not started on its hosts yet. -/
structure Built (job : Job) : Prop where
  counts : job.hostResolved = job.counted.length
  distinct : job.counted.Nodup
  inside : ∀ host ∈ job.counted, host < job.srv.length
  known : ∀ (host : Nat) target, job.srv[host]? = some target →
    (target.addr = [] ↔ host ∉ job.counted) ∧ target.qA = .null ∧ target.qAaaa = .null
  idle : job.loop = none
  silent : job.calls = []
  answered : job.qSrv = false

theorem builtPlain (plain : AllPlain job.srv) (none_ : job.counted = []) (zero : job.hostResolved = 0)
    (idle : job.loop = none) (silent : job.calls = []) (answered : job.qSrv = false) : Built job := by
  constructor
  case counts => rw [zero,none_]; rfl
  case distinct => rw [none_]; exact List.nodup_nil
  case inside => rw [none_]; nofun
  case known =>
    intro host target at_
    obtain ⟨empty,qA,qAaaa⟩ := plain target (List.mem_of_getElem? at_)
    rw [none_]
    exact ⟨iff_of_true empty nofun,qA,qAaaa⟩
  case idle => exact idle
  case silent => exact silent
  case answered => exact answered

theorem targetModify (job : Job) (host : Nat) (change : Target → Target) (i : Nat) :
    (job.modify host change).srv[i]? = if host = i then job.srv[i]?.map change else job.srv[i]? := by
  unfold Job.modify
  dsimp only
  rw [List.getElem?_modify]
  split
  · rfl
  · cases job.srv[i]? <;> rfl

theorem Built.addAddr (built : Built job) {host : Nat} {target : Target} (here : job.srv[host]? = some target)
    (ip : Ip) : Built (job.addAddr host target ip) := by
  have isHost : host < job.srv.length := (List.getElem?_eq_some_iff.mp here).1
  obtain ⟨known,_,_⟩ := built.known host target here
  have changed : ∀ (counted : List Nat), (host ∈ counted) → (∀ i, i ≠ host → (i ∈ counted ↔ i ∈ job.counted)) →
      ∀ (i : Nat) other, (job.modify host fun target => { target with addr := target.addr ++ [ip] }).srv[i]? = some other →
        (other.addr = [] ↔ i ∉ counted) ∧ other.qA = .null ∧ other.qAaaa = .null := by
    intro counted member others i other at_
    rw [targetModify] at at_
    split at at_
    · rename_i same
      rw [← same,here] at at_
      cases at_
      obtain ⟨_,qA,qAaaa⟩ := built.known host target here
      refine ⟨?_,qA,qAaaa⟩
      rw [← same]
      exact iff_of_false (List.append_ne_nil_of_right_ne_nil _ nofun) (not_not.mpr member)
    · rename_i apart
      obtain ⟨addr,handles⟩ := built.known i other at_
      exact ⟨by rw [addr,others i (Ne.symm apart)],handles⟩
  have size : ∀ j : Job, (j.modify host fun target => { target with addr := target.addr ++ [ip] }).srv.length = j.srv.length :=
    fun j => List.length_modify _ _ _
  unfold Job.addAddr
  dsimp only
  split
  · rename_i empty
    have fresh : host ∉ job.counted := known.mp (List.length_eq_zero_iff.mp empty)
    have member : ∀ i, i ∈ job.counted ++ [host] ↔ i ∈ job.counted ∨ i = host := by
      intro i
      rw [List.mem_append,List.mem_singleton]
    constructor
    case counts =>
      change job.hostResolved + 1 = (job.counted ++ [host]).length
      rw [List.length_append,built.counts]
      rfl
    case distinct =>
      change (job.counted ++ [host]).Nodup
      rw [List.nodup_append]
      refine ⟨built.distinct,List.nodup_cons.mpr ⟨nofun,List.nodup_nil⟩,?_⟩
      intro a counted b single same
      rw [List.mem_singleton] at single
      exact fresh (single ▸ same ▸ counted)
    case inside =>
      intro i counted
      refine (size _).symm ▸ ?_
      rcases (member i).mp counted with counted | rfl
      · exact built.inside i counted
      · exact isHost
    case known =>
      refine changed (job.counted ++ [host]) ((member host).mpr (.inr rfl)) fun i apart => ?_
      rw [member]
      exact or_iff_left apart
    case idle => exact built.idle
    case silent => exact built.silent
    case answered => exact built.answered
  · rename_i notEmpty
    have counted : host ∈ job.counted := by
      by_contra fresh
      exact notEmpty (List.length_eq_zero_iff.mpr (known.mpr fresh))
    constructor
    case counts => exact built.counts
    case distinct => exact built.distinct
    case inside => exact fun i counted => (size _).symm ▸ built.inside i counted
    case known => exact changed job.counted counted fun _ _ => Iff.rfl
    case idle => exact built.idle
    case silent => exact built.silent
    case answered => exact built.answered

theorem Built.addAdditional (built : Built job) (rr : Rr) : Built (job.addAdditional rr) := by
  unfold Job.addAdditional
  split
  · split
    · rename_i target here
      exact built.addAddr here _
    · exact built
  · exact built

theorem Built.addLiteral (built : Built job) (inet : Inet) (host : Nat) : Built (job.addLiteral inet host) := by
  unfold Job.addLiteral
  split
  · exact built
  · rename_i target here
    split
    · exact built
    · split
      · exact built.addAddr here _
      · exact built

theorem Built.fold {α : Type} {change : Job → α → Job} (keeps : ∀ {job}, Built job → ∀ x, Built (change job x))
    (built : Built job) (xs : List α) : Built (xs.foldl change job) := by
  induction xs generalizing job with
  | nil => exact built
  | cons x xs ih => exact ih (keeps built x)

theorem builtEntries (counted : job.counted = []) (zero : job.hostResolved = 0) (idle : job.loop = none)
    (silent : job.calls = []) (answered : job.qSrv = false) (inet : Inet) (rand : Nat → Nat) (pkt : SrvPacket) :
    Built (job.buildServerEntries inet rand pkt) := by
  have plain := srvTargetsPlain pkt.ans
  unfold Job.buildServerEntries
  dsimp only
  split
  · exact builtPlain plain counted zero idle silent answered
  · have ordered : Built { job with srv := electAll rand (orderByPriority (srvTargets pkt.ans)) } :=
      builtPlain (plain.orderByPriority.electAll rand) counted zero idle silent answered
    have additional := ordered.fold (fun built rr => built.addAdditional rr) pkt.arr
    exact additional.fold (fun built host => built.addLiteral inet host) _

end Pjproject.Srv
