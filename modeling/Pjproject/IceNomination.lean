import Pjproject.IceRoles
import Pjproject.Lib.SelectionSort

/-! Who nominated a pair. The flag of a check is set by the agent itself while it controls, and by a request with
USE-CANDIDATE; the role can change in between, and the flag goes into the valid list when the check succeeds. -/
namespace Pjproject.Ice

def Session.run (net : Network) (ice : Session) (inputs : List Input) : Session :=
  inputs.foldl (Session.step net) ice

/- Every step of a run meets a condition on the state before it. -/
def Session.everyStep (net : Network) (ok : Session → Input → Prop) : Session → List Input → Prop
  | _, [] => True
  | ice, input :: rest => ok ice input ∧ (ice.step net input).everyStep net ok rest

instance Session.decidableEveryStep (net : Network) (ok : Session → Input → Prop)
    [known : ∀ ice input, Decidable (ok ice input)] : ∀ ice inputs, Decidable (Session.everyStep net ok ice inputs)
  | _, [] => inferInstanceAs (Decidable True)
  | ice, input :: rest =>
    match known ice input, Session.decidableEveryStep net ok (ice.step net input) rest with
    | .isTrue head, .isTrue tail => .isTrue ⟨head,tail⟩
    | .isFalse head, _ => .isFalse (fun h => head h.1)
    | _, .isFalse tail => .isFalse (fun h => tail h.2)

/- The checks of new are checks of old: the remote candidates are the same and no flag is set. -/
def SamePairs (old new : List Check) : Prop :=
  ∀ c ∈ new, ∃ d ∈ old, d.rcand = c.rcand ∧ (c.nominated = true → d.nominated = true)

variable (list : List Check)

theorem samePairsRefl : SamePairs list list :=
  fun c member => ⟨c,member,rfl,id⟩

theorem samePairsBodies {old new : List Check} (bodies : new.map Check.body = old.map Check.body) : SamePairs old new := by
  intro c member
  have listed : c.body ∈ old.map Check.body := bodies ▸ List.mem_map_of_mem member
  obtain ⟨d,inside,same⟩ := List.mem_map.mp listed
  simp only [Check.body,Prod.mk.injEq] at same
  exact ⟨d,inside,same.2.1,fun flag => same.2.2.2.trans flag⟩

theorem memModify {α : Type} {list : List α} {i : Nat} {f : α → α} {x : α} (member : x ∈ list.modify i f) :
    x ∈ list ∨ ∃ y, list[i]? = some y ∧ x = f y := by
  obtain ⟨j,found⟩ := List.mem_iff_getElem?.mp member
  rw [List.getElem?_modify] at found
  split at found
  · rename_i here
    subst here
    obtain ⟨y,place,rfl⟩ := Option.map_eq_some_iff.mp found
    exact Or.inr ⟨y,place,rfl⟩
  · have found : list[j]? = some x := by simpa using found
    exact Or.inl (List.mem_of_getElem? found)

theorem samePairsModify (i : Nat) (f : Check → Check) (rcand : ∀ c, (f c).rcand = c.rcand)
    (nominated : ∀ c, (f c).nominated = c.nominated) : SamePairs list (list.modify i f) := by
  intro c member
  rcases memModify member with old | ⟨d,place,rfl⟩
  · exact ⟨c,old,rfl,id⟩
  · exact ⟨d,List.mem_of_getElem? place,(rcand d).symm,fun h => nominated d ▸ h⟩

theorem swapChecksExchange (i j : Nat) : swapChecks list i j = Lib.SelectionSort.exchange list i j := by
  unfold swapChecks Lib.SelectionSort.exchange
  cases list[i]? with
  | none => rfl
  | some =>
    cases list[j]? with
    | none => rfl
    | some => rfl

theorem swapChecksPerm (i j : Nat) : (swapChecks list i j).Perm list := by
  rw [swapChecksExchange]
  exact Lib.SelectionSort.exchangePerm list i j

theorem sortChecklistPerm (comp : List Comp) : (sortChecklist list comp).1.Perm list := by
  unfold sortChecklist
  generalize List.range (list.length - 1) = places
  induction places generalizing list comp with
  | nil => exact .refl list
  | cons i places ih =>
    rw [List.foldl_cons]
    dsimp only
    split
    · exact (ih _ _).trans (swapChecksPerm list _ _)
    · exact ih list comp

/- The candidates of the pairs are known, and in the controlled role every nominated pair was asked for. -/
structure Authorised (role : Role) (heard : List Addr) (ice : Session) : Prop where
  roleIs : ice.role = role
  heardIs : ice.nominations = heard
  placed : ∀ (i : Nat) (c : Cand), ice.rcand[i]? = some c → c.place = i
  checks : ∀ c ∈ ice.clist, c.rcand ∈ ice.rcand
  valid : ∀ c ∈ ice.validList, c.rcand ∈ ice.rcand
  early : ∀ e ∈ ice.earlyCheck, e.useCandidate = true → e.srcAddr ∈ heard
  asked : role = .controlled → ∀ c, c ∈ ice.clist ∨ c ∈ ice.validList → c.nominated = true → c.rcand.addr ∈ heard

section Authority

variable {role : Role} {heard : List Addr} {ice : Session}

theorem Authorised.samePlace (auth : Authorised role heard ice) {a b : Cand} (left : a ∈ ice.rcand)
    (right : b ∈ ice.rcand) (same : a.place = b.place) : a = b := by
  obtain ⟨i,here⟩ := List.mem_iff_getElem?.mp left
  obtain ⟨j,there⟩ := List.mem_iff_getElem?.mp right
  have i_eq := auth.placed i a here
  have j_eq := auth.placed j b there
  have places : i = j := by omega
  subst places
  exact Option.some.inj (here.symm.trans there)

theorem Authorised.same (auth : Authorised role heard ice) {out : Session} (roleSame : out.role = ice.role)
    (nominations : out.nominations = ice.nominations) (rcand : out.rcand = ice.rcand)
    (early : out.earlyCheck = ice.earlyCheck) (clist : SamePairs ice.clist out.clist)
    (validList : SamePairs ice.validList out.validList) : Authorised role heard out where
  roleIs := roleSame.trans auth.roleIs
  heardIs := nominations.trans auth.heardIs
  placed := rcand ▸ auth.placed
  checks := by
    intro c member
    obtain ⟨d,old,same,_⟩ := clist c member
    rw [rcand,← same]
    exact auth.checks d old
  valid := by
    intro c member
    obtain ⟨d,old,same,_⟩ := validList c member
    rw [rcand,← same]
    exact auth.valid d old
  early := early ▸ auth.early
  asked := by
    intro controlled c member nominated
    rcases member with inList | inValid
    · obtain ⟨d,old,same,flag⟩ := clist c inList
      rw [← same]
      exact auth.asked controlled d (Or.inl old) (flag nominated)
    · obtain ⟨d,old,same,flag⟩ := validList c inValid
      rw [← same]
      exact auth.asked controlled d (Or.inr old) (flag nominated)

theorem Authorised.works {out : Session} (auth : Authorised role heard ice) (works : Works ice out) :
    Authorised role heard out := by
  induction works with
  | @rest ice out same =>
    have clist : out.clist = ice.clist := (congrArg Session.clist same :)
    have validList : out.validList = ice.validList := (congrArg Session.validList same :)
    exact auth.same (congrArg Session.role same :) (congrArg Session.nominations same :) (congrArg Session.rcand same :)
      (congrArg Session.earlyCheck same :) (clist ▸ samePairsRefl _) (validList ▸ samePairsRefl _)
  | relist ice bodies => exact auth.same rfl rfl rfl rfl (samePairsBodies bodies) (samePairsRefl _)
  | @nominate ice i flag controlling =>
    by_cases controlled : role = .controlled
    · have silent : flag = false := by
        by_contra set
        have now := (controlling (by simpa using set)).symm.trans (auth.roleIs.trans controlled)
        contradiction
      refine auth.same rfl rfl rfl rfl (samePairsModify _ _ _ (fun _ => rfl) ?_) (samePairsRefl _)
      intro c
      simp [silent]
    · refine { auth with checks := ?_, asked := fun now => absurd now controlled }
      intro c member
      rcases memModify member with old | ⟨d,place,rfl⟩
      · exact auth.checks c old
      · exact auth.checks d (List.mem_of_getElem? place)
  | drop => exact auth.same rfl rfl rfl rfl (samePairsRefl _) (samePairsRefl _)
  | made => exact auth.same rfl rfl rfl rfl (samePairsRefl _) (samePairsRefl _)
  | sent => exact auth.same rfl rfl rfl rfl (samePairsRefl _) (samePairsRefl _)
  | learnLocal => exact auth.same rfl rfl rfl rfl (samePairsRefl _) (samePairsRefl _)
  | trans first next ihFirst ihNext => exact ihNext (ihFirst auth)

theorem Authorised.mappedCand (auth : Authorised role heard ice) (check : Check) (transportId : Nat) (mapped : Addr)
    (lcand : Cand) (out : Session) (known : ice.mappedCand check transportId mapped = some (lcand, out)) :
    Authorised role heard out ∧ out.rcand = ice.rcand := by
  unfold Session.mappedCand at known
  split at known
  · obtain ⟨_,rfl⟩ := Prod.mk.inj (Option.some.inj known)
    exact ⟨auth,rfl⟩
  · split at known
    · contradiction
    · obtain ⟨_,rfl⟩ := Prod.mk.inj (Option.some.inj known)
      exact ⟨auth.same rfl rfl rfl rfl (samePairsRefl _) (samePairsRefl _),rfl⟩

theorem Authorised.validEntries (auth : Authorised role heard ice) (check newCheck : Check) (place : Nat)
    (goes : ∀ v, ice.validList[place]? = some v → v.rcand.place = check.rcand.place)
    (rcand : newCheck.rcand = check.rcand) (nominated : newCheck.nominated = check.nominated)
    (known : check.rcand ∈ ice.rcand)
    (asked : role = .controlled → check.nominated = true → check.rcand.addr ∈ heard) :
    ∀ c ∈ (if place < ice.validList.length then
        ice.validList.modify place (fun v => { v with nominated := check.nominated })
      else ice.validList ++ [newCheck]),
      c.rcand ∈ ice.rcand ∧ (role = .controlled → c.nominated = true → c.rcand.addr ∈ heard) := by
  intro c member
  have old : ∀ c ∈ ice.validList, c.rcand ∈ ice.rcand ∧
      (role = .controlled → c.nominated = true → c.rcand.addr ∈ heard) :=
    fun c h => ⟨auth.valid c h,fun now => auth.asked now c (Or.inr h)⟩
  split at member
  · rcases memModify member with was | ⟨v,here,rfl⟩
    · exact old c was
    · have inside := auth.valid v (List.mem_of_getElem? here)
      have same := auth.samePlace inside known (goes v here)
      refine ⟨inside,?_⟩
      intro now flag
      exact same ▸ asked now flag
  · rcases List.mem_append.mp member with was | new
    · exact old c was
    · obtain rfl := List.mem_singleton.mp new
      rw [rcand,nominated]
      exact ⟨known,asked⟩

theorem validPlace (list : List Check) (lcand rcand : Cand) (v : Check)
    (here : list[list.findIdx (fun v => v.lcand.place = lcand.place ∧ v.rcand.place = rcand.place)]? = some v) :
    v.lcand.place = lcand.place ∧ v.rcand.place = rcand.place := by
  obtain ⟨within,rfl⟩ := List.getElem?_eq_some_iff.mp here
  have goes := List.findIdx_getElem (w := within)
  simpa using goes

theorem addValidOnly (ice : Session) (check : Check) (lcand : Cand) :
    ∃ validList comp, ice.addValid check lcand = { ice with validList := validList, comp := comp } ∧
      ∀ c ∈ validList,
        c ∈ (if ice.validList.findIdx (fun v => v.lcand.place = lcand.place ∧ v.rcand.place = check.rcand.place) <
            ice.validList.length then
          ice.validList.modify
            (ice.validList.findIdx (fun v => v.lcand.place = lcand.place ∧ v.rcand.place = check.rcand.place))
            (fun v => { v with nominated := check.nominated })
        else ice.validList ++
          [{ lcand := lcand, rcand := check.rcand, prio := calcCheckPrio ice.role lcand check.rcand
             state := .succeeded, nominated := check.nominated }]) :=
  ⟨_,_,rfl,fun _ h => (sortChecklistPerm _ _).subset h⟩

theorem Authorised.addValid (auth : Authorised role heard ice) (check : Check) (lcand : Cand)
    (known : check.rcand ∈ ice.rcand)
    (asked : role = .controlled → check.nominated = true → check.rcand.addr ∈ heard) :
    Authorised role heard (ice.addValid check lcand) := by
  have entries := auth.validEntries check
    { lcand := lcand, rcand := check.rcand, prio := calcCheckPrio ice.role lcand check.rcand, state := .succeeded
      nominated := check.nominated }
    (ice.validList.findIdx (fun v => v.lcand.place = lcand.place ∧ v.rcand.place = check.rcand.place))
    (fun v here => (validPlace ice.validList lcand check.rcand v here).2) rfl rfl known asked
  obtain ⟨validList,comp,added,listed⟩ := addValidOnly ice check lcand
  rw [added]
  refine { auth with valid := ?_, asked := ?_ }
  · exact fun c h => (entries c (listed c h)).1
  · intro now c member flag
    rcases member with inList | inValid
    · exact auth.asked now c (Or.inl inList) flag
    · exact (entries c (listed c inValid)).2 now flag

theorem Authorised.onSuccess (auth : Authorised role heard ice) (req : Request) (check : Check) (srcAddr : Addr)
    (mapped : Option Addr) (member : check ∈ ice.clist) :
    Authorised role heard (ice.onSuccess req check srcAddr mapped) := by
  unfold Session.onSuccess
  split
  · exact auth.works (finishCheckWorks ice _ _ _)
  · split
    · exact auth.works (finishCheckWorks ice _ _ _)
    · split
      · exact auth.works (finishCheckWorks ice _ _ _)
      · rename_i lcand out known
        obtain ⟨next,rcand⟩ := auth.mappedCand check req.transportId _ lcand out known
        refine Authorised.works (next.addValid check lcand ?_ ?_) (finishCheckWorks _ _ _ _)
        · rw [rcand]
          exact auth.checks check member
        · exact fun now => auth.asked now check (Or.inl member)

theorem Authorised.onStunRequestComplete (auth : Authorised role heard ice) (net : Network) (req : Request)
    (result : Completion) (peaceful : result ≠ .roleConflict) :
    Authorised role heard (ice.onStunRequestComplete net req result) := by
  unfold Session.onStunRequestComplete
  dsimp only
  have marked := auth.works (releasedWorks ice req)
  split
  · exact marked
  · rename_i check place
    cases result with
    | roleConflict => contradiction
    | failure => exact marked.works (finishCheckWorks _ _ _ _)
    | success srcAddr mapped => exact marked.onSuccess req check srcAddr mapped (List.mem_of_getElem? place)

theorem Authorised.remoteCand (auth : Authorised role heard ice) (rcheck : RxCheck) (rcand : Cand) (out : Session)
    (known : ice.remoteCand rcheck = some (rcand, out)) :
    Authorised role heard out ∧ rcand ∈ out.rcand ∧ rcand.addr = rcheck.srcAddr := by
  unfold Session.remoteCand at known
  split at known
  · rename_i found place
    obtain ⟨rfl,rfl⟩ := Prod.mk.inj (Option.some.inj known)
    have same := List.find?_some place
    exact ⟨auth,List.mem_of_find?_eq_some place,by simpa using same⟩
  · split at known
    · contradiction
    · obtain ⟨rfl,rfl⟩ := Prod.mk.inj (Option.some.inj known)
      refine ⟨{ auth with placed := ?_, checks := ?_, valid := ?_ },?_,rfl⟩
      · intro i c here
        rw [List.getElem?_append] at here
        split at here
        · exact auth.placed i c here
        · rename_i past
          have bound := (List.getElem?_eq_some_iff.mp here).1
          simp only [List.length_singleton] at bound
          have last : i = ice.rcand.length := by omega
          subst last
          simp only [Nat.sub_self,List.getElem?_cons_zero,Option.some.injEq] at here
          rw [← here]
      · exact fun c h => List.mem_append_left _ (auth.checks c h)
      · exact fun c h => List.mem_append_left _ (auth.valid c h)
      · exact List.mem_append_right _ (List.mem_singleton.mpr rfl)

theorem Authorised.nominateValid (auth : Authorised role heard ice) (c : Check) (known : c.rcand ∈ ice.rcand)
    (asked : c.rcand.addr ∈ heard) : Authorised role heard (ice.nominateValid c) := by
  unfold Session.nominateValid
  generalize List.range ice.validList.length = places
  induction places generalizing ice with
  | nil => exact auth
  | cons j rest ih =>
    rw [List.foldl_cons]
    split
    · exact ih auth known
    · rename_i v place
      split
      · rename_i goes
        refine ih ?_ known
        have same := auth.samePlace (auth.valid v (List.mem_of_getElem? place)) known goes.2
        refine { auth with valid := ?_, asked := ?_ }
        · intro d inValid
          rcases memModify inValid with old | ⟨w,at_,rfl⟩
          · exact auth.valid d old
          · exact auth.valid w (List.mem_of_getElem? at_)
        · intro controlled d at_ flag
          rcases at_ with inList | inValid
          · exact auth.asked controlled d (Or.inl inList) flag
          · rcases memModify inValid with old | ⟨w,here,rfl⟩
            · exact auth.asked controlled d (Or.inr old) flag
            · obtain rfl := Option.some.inj (place.symm.trans here)
              exact same ▸ asked
      · exact ih auth known

theorem Authorised.triggerCheck (auth : Authorised role heard ice) (net : Network) (i : Nat) (c : Check)
    (useCandidate : Bool) (known : c.rcand ∈ ice.rcand) (asked : useCandidate = true → c.rcand.addr ∈ heard) :
    Authorised role heard (ice.triggerCheck net i c useCandidate) := by
  unfold Session.triggerCheck
  split
  · exact auth.works (performCheckWorks ice net i _)
  · exact auth.works (performCheckWorks ice net i _)
  · exact auth
  · have nominated : Authorised role heard (if useCandidate then ice.nominateValid c else ice) := by
      split
      · exact auth.nominateValid c known (asked (by assumption))
      · exact auth
    exact nominated.works (onCheckCompleteWorks _ c)
  · exact auth

theorem Authorised.handleIncomingCheck (auth : Authorised role heard ice) (net : Network) (rcheck : RxCheck)
    (asked : rcheck.useCandidate = true → rcheck.srcAddr ∈ heard) :
    Authorised role heard (ice.handleIncomingCheck net rcheck) := by
  unfold Session.handleIncomingCheck
  split
  · exact auth
  · rename_i rcand out found
    obtain ⟨seen,known,addr⟩ := auth.remoteCand rcheck rcand out found
    split
    · exact seen
    · rename_i first listed
      dsimp only
      split
      · rename_i i place
        obtain ⟨within,goes,_⟩ := List.findIdx?_eq_some_iff_getElem.mp place
        simp only [decide_eq_true_eq] at goes
        have here : out.clist[i]? = some out.clist[i] := List.getElem?_eq_getElem within
        have same := seen.samePlace (seen.checks out.clist[i] (List.getElem_mem within)) known goes.2
        have marked : Authorised role heard
            (out.modifyCheck i (fun c => { c with nominated := rcheck.useCandidate || c.nominated })) := by
          refine { seen with checks := ?_, asked := ?_ }
          · intro c member
            rcases memModify member with old | ⟨d,at_,rfl⟩
            · exact seen.checks c old
            · exact seen.checks d (List.mem_of_getElem? at_)
          · intro now c member flag
            rcases member with inList | inValid
            · rcases memModify inList with old | ⟨d,at_,rfl⟩
              · exact seen.asked now c (Or.inl old) flag
              · obtain rfl := Option.some.inj (here.symm.trans at_)
                rcases Bool.or_eq_true_iff.mp flag with sent | was
                · rw [same,addr]
                  exact asked sent
                · exact seen.asked now out.clist[i] (Or.inl (List.getElem_mem within)) was
            · exact seen.asked now c (Or.inr inValid) flag
        split
        · exact marked
        · rename_i c now
          have pair : c.rcand = rcand := by
            have c_eq : c = { out.clist[i] with nominated := rcheck.useCandidate || out.clist[i].nominated } := by
              have value := now
              simp only [Session.modifyCheck,List.getElem?_modify,if_true,here] at value
              exact (Option.some.inj value).symm
            rw [c_eq]
            exact same
          refine marked.triggerCheck net i c rcheck.useCandidate ?_ ?_
          · rw [pair]
            exact known
          · intro sent
            rw [pair,addr]
            exact asked sent
      · split
        · have added : Authorised role heard { out with clist := out.clist ++
              [{ lcand := first.lcand, rcand := rcand, prio := calcCheckPrio out.role first.lcand rcand,
                 state := .waiting, nominated := rcheck.useCandidate }] } := by
            refine { seen with checks := ?_, asked := ?_ }
            · intro c member
              rcases List.mem_append.mp member with old | new
              · exact seen.checks c old
              · obtain rfl := List.mem_singleton.mp new
                exact known
            · intro now c member flag
              rcases member with inList | inValid
              · rcases List.mem_append.mp inList with old | new
                · exact seen.asked now c (Or.inl old) flag
                · obtain rfl := List.mem_singleton.mp new
                  rw [addr]
                  exact asked flag
              · exact seen.asked now c (Or.inr inValid) flag
          exact added.works (performCheckWorks _ net _ _)
        · exact seen

end Authority

/- The pairs of a new check list: their candidates are the remote ones, they are frozen and none is nominated. -/
structure Check.Plain (rcand : List Cand) (c : Check) : Prop where
  known : c.rcand ∈ rcand
  nominated : c.nominated = false
  frozen : c.state = .frozen

def Plain (rcand : List Cand) (list : List Check) : Prop := ∀ c ∈ list, c.Plain rcand

theorem pairUpPlain (role : Role) (rcand : List Cand) (pairs : List (Cand × Cand)) (made : List Check)
    (known : ∀ p ∈ pairs, p.2 ∈ rcand) (old : Plain rcand made) : Plain rcand (pairUp role pairs made).1 := by
  induction pairs generalizing made with
  | nil => exact old
  | cons pair rest ih =>
    have tail : ∀ p ∈ rest, p.2 ∈ rcand := fun p h => known p (List.mem_cons_of_mem _ h)
    unfold pairUp
    split
    · exact old
    · split
      · exact ih made tail old
      · refine ih _ tail ?_
        intro c member
        rcases List.mem_append.mp member with was | new
        · exact old c was
        · obtain rfl := List.mem_singleton.mp new
          exact ⟨known pair List.mem_cons_self,rfl,rfl⟩

theorem toBasePlain (lcand rcand : List Cand) (list : List Check) (old : Plain rcand list) :
    Plain rcand (toBase lcand list).1 := by
  induction list with
  | nil => exact old
  | cons c rest ih =>
    have tail := ih (fun d h => old d (List.mem_cons_of_mem _ h))
    have head := old c List.mem_cons_self
    unfold toBase
    split
    · split
      · exact old
      · intro d member
        rcases List.mem_cons.mp member with rfl | later
        · exact ⟨head.known,head.nominated,head.frozen⟩
        · exact tail d later
    · intro d member
      rcases List.mem_cons.mp member with rfl | later
      · exact head
      · exact tail d later

theorem pruneSubset (n : Nat) (list : List Check) : ∀ c ∈ prune n list, c ∈ list := by
  induction n generalizing list with
  | zero => exact fun _ h => h
  | succ n ih =>
    cases list with
    | nil => exact fun _ h => h
    | cons =>
      intro d member
      rcases List.mem_cons.mp member with rfl | later
      · exact List.mem_cons_self
      · exact List.mem_cons_of_mem _ (List.mem_of_mem_filter (ih _ d later))

theorem placedCands (kept : List Cand) (i : Nat) (c : Cand)
    (here : (kept.zipIdx.map (fun (c, i) => { c with place := i }))[i]? = some c) : c.place = i := by
  rw [List.getElem?_map,List.getElem?_zipIdx] at here
  obtain ⟨pair,found,rfl⟩ := Option.map_eq_some_iff.mp here
  obtain ⟨d,_,rfl⟩ := Option.map_eq_some_iff.mp found
  exact Nat.zero_add i

theorem createCheckListOnly (ice : Session) (remote : List Cand) :
    ice.createCheckList remote = ice ∨
    ∃ rcand clist comp, ice.createCheckList remote = { ice with rcand := rcand, clist := clist, comp := comp } ∧
      (∀ (i : Nat) (c : Cand), rcand[i]? = some c → c.place = i) ∧ Plain rcand clist := by
  unfold Session.createCheckList
  split
  · exact Or.inl rfl
  refine Or.inr ?_
  dsimp only
  generalize remote.filter _ = kept
  have placed := placedCands kept
  generalize kept.zipIdx.map _ = rcand at placed ⊢
  have made : Plain rcand (pairUp ice.role (ice.lcand.flatMap (fun l => rcand.map (fun r => (l, r)))) []).1 := by
    refine pairUpPlain ice.role rcand _ [] ?_ (fun _ h => absurd h List.not_mem_nil)
    intro p member
    obtain ⟨l,_,inner⟩ := List.mem_flatMap.mp member
    obtain ⟨r,known,rfl⟩ := List.mem_map.mp inner
    exact known
  generalize pairUp ice.role (ice.lcand.flatMap (fun l => rcand.map (fun r => (l, r)))) [] = pairs at made ⊢
  have based : Plain rcand (toBase ice.lcand (sortChecklist pairs.1 ice.comp).1).1 :=
    toBasePlain ice.lcand rcand _ (fun c h => made c ((sortChecklistPerm _ _).subset h))
  generalize toBase ice.lcand (sortChecklist pairs.1 ice.comp).1 = bases at based ⊢
  split
  · exact ⟨rcand,pairs.1,ice.comp,rfl,placed,made⟩
  · split
    · exact ⟨rcand,bases.1,ice.comp,rfl,placed,based⟩
    · exact ⟨rcand,_,_,rfl,placed,fun c h => based c (pruneSubset _ _ c h)⟩

section Authority

variable {role : Role} {heard : List Addr} {ice : Session}

theorem Authorised.fresh (auth : Authorised role heard ice) (empty : ice.rcand = []) {out : Session}
    (roleSame : out.role = ice.role) (nominations : out.nominations = ice.nominations)
    (early : out.earlyCheck = ice.earlyCheck) (validList : out.validList = ice.validList)
    (placed : ∀ (i : Nat) (c : Cand), out.rcand[i]? = some c → c.place = i) (plain : Plain out.rcand out.clist) :
    Authorised role heard out := by
  have none : ∀ c, c ∉ ice.validList := by
    intro c member
    have inside := auth.valid c member
    rw [empty] at inside
    contradiction
  refine ⟨roleSame.trans auth.roleIs,nominations.trans auth.heardIs,placed,fun c h => (plain c h).known,?_,?_,?_⟩
  · intro c member
    rw [validList] at member
    exact absurd member (none c)
  · rw [early]
    exact auth.early
  · intro _ c member flag
    rcases member with inList | inValid
    · rw [(plain c inList).nominated] at flag
      contradiction
    · rw [validList] at inValid
      exact absurd inValid (none c)

theorem Authorised.createCheckList (auth : Authorised role heard ice) (empty : ice.rcand = []) (remote : List Cand) :
    Authorised role heard (ice.createCheckList remote) := by
  rcases createCheckListOnly ice remote with none | ⟨rcand,clist,comp,made,placed,plain⟩
  · rw [none]
    exact auth
  · rw [made]
    exact auth.fresh empty rfl rfl rfl rfl placed plain

theorem Authorised.startCheck (auth : Authorised role heard ice) (net : Network) :
    Authorised role heard (ice.startCheck net) := by
  unfold Session.startCheck
  dsimp only
  have nominating : Authorised role heard (if ice.aggressive then { ice with isNominating := true } else ice) := by
    split
    · exact auth.same rfl rfl rfl rfl (samePairsRefl _) (samePairsRefl _)
    · exact auth
  generalize (if ice.aggressive then { ice with isNominating := true } else ice) = start at nominating ⊢
  have handled : ∀ (early : List RxCheck) (start : Session),
      (∀ e ∈ early, e.useCandidate = true → e.srcAddr ∈ heard) → Authorised role heard start →
      Authorised role heard (early.foldl (Session.handleIncomingCheck net) start) := by
    intro early
    induction early with
    | nil => exact fun _ _ h => h
    | cons e rest ih =>
      intro start asked now
      have head := now.handleIncomingCheck net e (asked e List.mem_cons_self)
      exact ih _ (fun d h => asked d (List.mem_cons_of_mem _ h)) head
  split
  · have thawed : Authorised role heard { start with clist := thaw 1 [] start.clist } :=
      nominating.works (.relist start (thawBody 1 [] start.clist))
    have done := handled start.earlyCheck _ nominating.early thawed
    exact { done with early := nofun }
  · exact nominating

theorem Authorised.self (auth : Authorised role heard ice) : Authorised ice.role ice.nominations ice := by
  obtain rfl := auth.roleIs
  obtain rfl := auth.heardIs
  exact auth

theorem Authorised.widen (auth : Authorised role heard ice) (more : List Addr) (wider : ∀ a ∈ heard, a ∈ more) :
    Authorised role more { ice with nominations := more } :=
  { auth with
    heardIs := rfl
    early := fun e h flag => wider _ (auth.early e h flag)
    asked := fun now c h flag => wider _ (auth.asked now c h flag) }

theorem changeRoleOnly (ice : Session) (newRole : Role) :
    ∃ changes, ice.changeRole newRole = { ice with role := newRole, roleChanges := changes } := by
  unfold Session.changeRole
  split
  · exact ⟨_,rfl⟩
  · rename_i same
    obtain rfl := Decidable.not_not.mp same
    exact ⟨ice.roleChanges,rfl⟩

theorem Authorised.changeRole (auth : Authorised role heard ice) (newRole : Role)
    (asked : newRole = .controlled → ∀ c, c ∈ ice.clist ∨ c ∈ ice.validList → c.nominated = true → c.rcand.addr ∈ heard) :
    Authorised newRole heard (ice.changeRole newRole) := by
  obtain ⟨changes,changed⟩ := changeRoleOnly ice newRole
  rw [changed]
  exact ⟨rfl,auth.heardIs,auth.placed,auth.checks,auth.valid,auth.early,asked⟩

end Authority

/- The inputs on which a session becomes the controlled one. -/
def Session.yields (ice : Session) : Input → Bool
  | .changeRole role => role = .controlled && ice.role ≠ .controlled
  | .request req _ =>
    match req.roleAttr with
    | some (.controlling, tie) => req.hasPriority && ice.role = .controlling && ice.tieBreaker < tie
    | _ => false
  | .complete tdata .roleConflict =>
    match ice.requests.find? (fun r => r.tdata = tdata) with
    | some req => req.roleAttr = .controlling && req.ckid < ice.clist.length && ice.role ≠ .controlled
    | none => false
  | _ => false

/- The address a request with USE-CANDIDATE comes from. -/
def Input.nominates : Input → List Addr
  | .request req answered => if answered && req.rcheck.useCandidate then [req.rcheck.srcAddr] else []
  | _ => []

/- When the session yields, no pair is nominated that the peer did not nominate. -/
def Session.yieldsClean (ice : Session) (input : Input) : Prop :=
  ice.yields input = true →
    ∀ c ∈ ice.clist ++ ice.validList, c.nominated = true → c.rcand.addr ∈ input.nominates ++ ice.nominations

instance (ice : Session) (input : Input) : Decidable (ice.yieldsClean input) :=
  inferInstanceAs (Decidable (ice.yields input = true →
    ∀ c ∈ ice.clist ++ ice.validList, c.nominated = true → c.rcand.addr ∈ input.nominates ++ ice.nominations))

section Steps

variable {ice : Session} (net : Network)

theorem repairCases (req : RxRequest) (answered : Bool) (repaired : Session) (priority : req.hasPriority = true)
    (known : ice.repairRole req.roleAttr = some repaired) :
    repaired = ice ∨ repaired = ice.changeRole .controlling ∨
    (repaired = ice.changeRole .controlled ∧ ice.yields (.request req answered) = true) := by
  unfold Session.repairRole at known
  split at known
  · rename_i tie attr
    split at known
    · split at known
      · refine Or.inr (Or.inr ⟨(Option.some.inj known).symm,?_⟩)
        simp_all [Session.yields]
      · contradiction
    · exact Or.inl (Option.some.inj known).symm
  · split at known
    · split at known
      · contradiction
      · exact Or.inr (Or.inl (Option.some.inj known).symm)
    · exact Or.inl (Option.some.inj known).symm
  · exact Or.inl (Option.some.inj known).symm

theorem repairAuthorised (auth : Authorised ice.role ice.nominations ice) (req : RxRequest) (answered : Bool)
    (clean : ice.yieldsClean (.request req answered)) (repaired : Session) (priority : req.hasPriority = true)
    (known : ice.repairRole req.roleAttr = some repaired) :
    Authorised repaired.role (Input.nominates (.request req answered) ++ ice.nominations)
      { repaired with nominations := Input.nominates (.request req answered) ++ ice.nominations } := by
  have wide := auth.widen (Input.nominates (.request req answered) ++ ice.nominations)
    (fun a h => List.mem_append_right _ h)
  rcases repairCases req answered repaired priority known with rfl | rfl | ⟨rfl,yields⟩
  · exact wide
  · obtain ⟨changes,changed⟩ := changeRoleOnly ice .controlling
    rw [changed]
    exact { wide with roleIs := rfl, asked := nofun }
  · obtain ⟨changes,changed⟩ := changeRoleOnly ice .controlled
    rw [changed]
    refine { wide with roleIs := rfl, asked := ?_ }
    intro _ c member flag
    exact clean yields c (List.mem_append.mpr member) flag

theorem requestAuthorised (auth : Authorised ice.role ice.nominations ice) (req : RxRequest) (answered : Bool)
    (clean : ice.yieldsClean (.request req answered)) :
    let out := (ice.onStunRxRequest net req answered).2
    Authorised out.role out.nominations out := by
  unfold Session.onStunRxRequest
  split
  · exact auth
  · rename_i some_
    have priority : req.hasPriority = true := by simpa using some_
    split
    · exact auth
    · rename_i repaired known
      have repair := repairAuthorised auth req answered clean repaired priority known
      have heard : repaired.nominations = ice.nominations := by
        rcases repairCases req answered repaired priority known with rfl | rfl | ⟨rfl,_⟩
        · rfl
        all_goals
          unfold Session.changeRole
          split <;> rfl
      split
      · rename_i refused
        have silent : answered = false := by simpa using refused
        subst silent
        have nothing : Input.nominates (.request req false) ++ ice.nominations = repaired.nominations := by
          simp [Input.nominates,heard]
        rw [nothing] at repair
        exact repair
      · rename_i accepted
        have accepted : answered = true := by simpa using accepted
        subst accepted
        dsimp only
        have noted : (if req.rcheck.useCandidate then
            { repaired with nominations := req.rcheck.srcAddr :: repaired.nominations } else repaired) =
            { repaired with nominations := Input.nominates (.request req true) ++ ice.nominations } := by
          rw [← heard]
          cases flag : req.rcheck.useCandidate <;> simp [Input.nominates,flag]
        rw [noted]
        have asked : req.rcheck.useCandidate = true →
            req.rcheck.srcAddr ∈ Input.nominates (.request req true) ++ ice.nominations := by
          intro flag
          simp [Input.nominates,flag]
        split
        · have early : ∀ e ∈ repaired.earlyCheck ++ [req.rcheck], e.useCandidate = true →
              e.srcAddr ∈ Input.nominates (.request req true) ++ ice.nominations := by
            intro e member flag
            rcases List.mem_append.mp member with old | new
            · exact repair.early e old flag
            · obtain rfl := List.mem_singleton.mp new
              exact asked flag
          exact ⟨rfl,rfl,repair.placed,repair.checks,repair.valid,early,repair.asked⟩
        · exact (repair.handleIncomingCheck net req.rcheck asked).self

theorem conflictAuthorised (auth : Authorised ice.role ice.nominations ice) (tdata : Nat) (req : Request)
    (clean : ice.yieldsClean (.complete tdata .roleConflict))
    (known : ice.requests.find? (fun r => r.tdata = tdata) = some req) :
    let out := ice.onStunRequestComplete net req .roleConflict
    Authorised out.role out.nominations out := by
  unfold Session.onStunRequestComplete
  dsimp only
  have marked := auth.works (releasedWorks ice req)
  split
  · exact marked.self
  · rename_i check place
    have within : req.ckid < ice.clist.length := by
      have bound := (List.getElem?_eq_some_iff.mp place).1
      simpa [Session.modifyCheck] using bound
    refine Authorised.self (Authorised.works (Authorised.changeRole marked _ ?_)
      ((checkSetStateWorks _ req.ckid .waiting 0).trans (performCheckWorks _ net _ _)))
    intro controlled c member flag
    by_cases now : ice.role = .controlled
    · exact marked.asked now c member flag
    · have attr : req.roleAttr = .controlling := by
        by_contra other
        rw [if_neg other] at controlled
        contradiction
      have yields : ice.yields (.complete tdata .roleConflict) = true := by
        simp only [Session.yields,known]
        simp [attr,within,now]
      rcases member with inList | inValid
      · obtain ⟨d,old,same,was⟩ := samePairsModify ice.clist req.ckid (fun c => { c with tdata := none })
          (fun _ => rfl) (fun _ => rfl) c inList
        rw [← same]
        exact clean yields d (List.mem_append_left _ old) (was flag)
      · exact clean yields c (List.mem_append_right _ inValid) flag

theorem stepAuthorised (auth : Authorised ice.role ice.nominations ice) (input : Input)
    (clean : ice.yieldsClean input) :
    let out := ice.step net input
    Authorised out.role out.nominations out := by
  unfold Session.step
  cases input with
  | createCheckList remote =>
    dsimp only
    split
    · rename_i empty
      exact (auth.createCheckList empty.1 remote).self
    · exact auth
  | startCheck =>
    dsimp only
    split
    · exact auth
    · exact (auth.startCheck net).self
  | periodic =>
    dsimp only
    split
    · exact (auth.works (startPeriodicCheckWorks ice net)).self
    · exact auth
  | timer => exact (auth.works (onTimerWorks ice)).self
  | complete tdata result =>
    dsimp only
    split
    · exact auth
    · rename_i req known
      by_cases conflict : result = .roleConflict
      · subst conflict
        exact conflictAuthorised net auth tdata req clean known
      · exact (auth.onStunRequestComplete net req result conflict).self
  | request req answered => exact requestAuthorised net auth req answered clean
  | changeRole role =>
    refine Authorised.self (auth.changeRole role ?_)
    intro controlled c member flag
    by_cases now : ice.role = .controlled
    · exact auth.asked now c member flag
    · have yields : ice.yields (.changeRole role) = true := by
        simp [Session.yields,controlled,now]
      exact clean yields c (List.mem_append.mpr member) flag

end Steps

theorem createdAuthorised (ice : Session) (created : Created ice) : Authorised ice.role ice.nominations ice := by
  refine ⟨rfl,rfl,?_,?_,?_,?_,?_⟩
  · simp [created.rcand]
  · simp [created.clist]
  · simp [created.validList]
  · simp [created.earlyCheck]
  · simp [created.clist,created.validList]

theorem runAuthorised (net : Network) (ice : Session) (inputs : List Input)
    (auth : Authorised ice.role ice.nominations ice) (clean : ice.everyStep net Session.yieldsClean inputs) :
    let out := ice.run net inputs
    Authorised out.role out.nominations out := by
  induction inputs generalizing ice with
  | nil => exact auth
  | cons input rest ih => exact ih (ice.step net input) (stepAuthorised net auth input clean.1) clean.2

/- Nomination authority over whole runs: as long as the session never yields with a pair nominated that the peer
did not nominate, a controlled session holds only pairs as nominated that USE-CANDIDATE was received for. -/
theorem nominatedByPeer (net : Network) (ice : Session) (created : Created ice) (inputs : List Input)
    (clean : ice.everyStep net Session.yieldsClean inputs) :
    let out := ice.run net inputs
    out.role = .controlled → ∀ c, c ∈ out.clist ∨ c ∈ out.validList → c.nominated = true →
      c.rcand.addr ∈ out.nominations :=
  (runAuthorised net ice inputs (createdAuthorised ice created) clean).asked

/- The session sends its nominating check, loses the conflict and completes with the pair it nominated itself. -/
def losesConflict : List Input :=
  [.createCheckList [hostCand 0 9],.startCheck,.periodic,.complete 0 .roleConflict,
    .complete 1 (.success ⟨false,9,4000⟩ (some ⟨false,7,4000⟩))]

theorem nominatedByItself :
    ¬ ∀ (net : Network) (ice : Session), Created ice → ∀ (inputs : List Input),
      let out := ice.run net inputs
      out.role = .controlled → ∀ c, c ∈ out.clist ∨ c ∈ out.validList → c.nominated = true →
        c.rcand.addr ∈ out.nominations := by
  intro claim
  have lost := claim (fun _ => .sent) (newSession .controlling 10 true [hostCand 0 7]) (newSessionCreated _ _ _ _)
    losesConflict
  revert lost
  generalize result : (newSession .controlling 10 true [hostCand 0 7]).run (fun _ => .sent) losesConflict = out
  have role : out.role = .controlled := by
    rw [← result]
    decide +kernel
  have valid : out.validList.any Check.nominated = true ∧ out.nominations = [] := by
    rw [← result]
    decide +kernel
  intro lost
  obtain ⟨c,member,nominated⟩ := List.any_eq_true.mp valid.1
  have asked := lost role c (Or.inr member) nominated
  rw [valid.2] at asked
  contradiction

/- A controlled session whose peer nominates the pair. -/
def peerNominates : List Input :=
  [.createCheckList [hostCand 0 9],.startCheck,
    .request ⟨⟨1,0,⟨false,9,4000⟩,true,1⟩,true,some (.controlling, 20)⟩ true]

theorem peerNominatesPair :
    let out := (newSession .controlled 10 true [hostCand 0 7]).run (fun _ => .sent) peerNominates
    out.clist.any Check.nominated = true ∧ ∀ c ∈ out.clist, c.nominated = true → c.rcand.addr ∈ out.nominations := by
  intro out
  refine ⟨by decide +kernel,?_⟩
  have asked := nominatedByPeer (fun _ => .sent) _ (newSessionCreated .controlled 10 true [hostCand 0 7]) peerNominates
    (by decide +kernel) (by decide +kernel)
  exact fun c member => asked c (Or.inl member)

end Pjproject.Ice
