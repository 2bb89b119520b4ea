import Pjproject.IceProgress

/-! How the check list comes about: candidates are paired, the pairs are sorted, a reflexive candidate gives way to its
base, and pairs that then say the same are pruned. -/
namespace Pjproject.Ice

open Lib.SelectionSort

/- What pj_ice_sess_create_check_list returns. -/
inductive CheckListStatus where
  | success | einval | etoomany | enotfound | enohostcand
  deriving DecidableEq, Repr

def Session.hasComp (ice : Session) (c : Cand) : Bool := c.compId ≠ 0 ∧ c.compId ≤ ice.comp.length

/- The remote candidates as they are saved; one for a component that does not exist is ignored. -/
def Session.saved (ice : Session) (remote : List Cand) : List Cand :=
  (remote.filter (fun c => c.compId ≠ 0 ∧ c.compId ≤ ice.comp.length)).zipIdx.map (fun (c, i) => { c with place := i })

def Session.candPairs (ice : Session) (remote : List Cand) : List (Cand × Cand) :=
  ice.lcand.flatMap (fun l => (ice.saved remote).map (fun r => (l, r)))

/- The branches of createCheckList, by what is returned from them. -/
def Session.checkListStatus (ice : Session) (remote : List Cand) : CheckListStatus :=
  if remote = [] then .einval
  else if maxCand < remote.length + ice.rcand.length then .etoomany
  else
    let (made, complete) := pairUp ice.role (ice.candPairs remote) []
    if ¬ complete then .etoomany
    else if made = [] then .enotfound
    else if (toBase ice.lcand (sortChecklist made ice.comp).1).2 then .success else .enohostcand

/- The local candidates are added, and no check list is made yet. -/
structure Gathered (ice : Session) : Prop where
  component : ∀ c ∈ ice.lcand, c.compId ≠ 0 ∧ c.compId ≤ ice.comp.length
  placed : ∀ (i : Nat) (c : Cand), ice.lcand[i]? = some c → c.place = i
  clist : ice.clist = []

theorem Gathered.addCand {ice : Session} (gathered : Gathered ice) (compId transportId : Nat) (type : CandType)
    (localPref : Nat) (foundation : List Char) (addr baseAddr : Addr) :
    Gathered (ice.addCand compId transportId type localPref foundation addr baseAddr) := by
  unfold Session.addCand
  split
  · exact gathered
  · next fits =>
    refine ⟨?_,?_,gathered.clist⟩
    · intro c member
      rcases List.mem_append.mp member with old | new
      · exact gathered.component c old
      · obtain rfl := List.mem_singleton.mp new
        dsimp only
        omega
    · intro i c here
      rcases Nat.lt_trichotomy i ice.lcand.length with before | rfl | after
      · rw [List.getElem?_append_left before] at here
        exact gathered.placed i c here
      · rw [List.getElem?_concat_length] at here
        cases here
        rfl
      · have inside := (List.getElem?_eq_some_iff.mp here).1
        rw [List.length_append,List.length_singleton] at inside
        omega

theorem newSessionGathered (role : Role) (tieBreaker : Nat) (comps : Nat) :
    Gathered { role, tieBreaker, comp := List.replicate comps {} } :=
  ⟨nofun,nofun,rfl⟩

/- Where the copy of a remote candidate stands: behind those in front of it that are not ignored. -/
def Session.copyOf (ice : Session) (remote : List Cand) (k : Nat) (r : Cand) : Cand :=
  { r with place := (remote.take k).countP ice.hasComp }

/- A server reflexive candidate is replaced by the first host candidate at its base address. -/
def Session.baseOf (ice : Session) (l : Cand) : Option Cand :=
  if l.type = .srflx then ice.lcand.find? (fun h => h.type = .host ∧ h.addr = l.baseAddr) else some l

/- A pair is in the list, or a pair of the same remote candidate and base stands for it. -/
structure StandsFor (ice : Session) (l r : Cand) (c : Check) : Prop where
  rcand : c.rcand = r
  base : ∃ b, ice.baseOf l = some b ∧ c.lcand.baseAddr = b.baseAddr ∧
    (c.lcand = b ∧ c.prio = calcCheckPrio ice.role l r ∨ calcCheckPrio ice.role l r ≤ c.prio)

structure Formed (ice : Session) (remote : List Cand) (clist : List Check) : Prop where
  sorted : clist.Pairwise (fun a b => b.prio ≤ a.prio)
  noReflexive : ∀ c ∈ clist, c.lcand.type ≠ .srflx
  distinct : clist.Pairwise (fun a b => ¬ (a.rcand = b.rcand ∧ a.lcand.baseAddr = b.lcand.baseAddr))
  represented : ∀ l ∈ ice.lcand, ∀ k r, remote[k]? = some r → l.compId = r.compId → l.addr.ipv6 = r.addr.ipv6 →
    ∃ c ∈ clist, StandsFor ice l (ice.copyOf remote k r) c

/- Sorting is a selection sort by priority. -/

variable (list : List Check) (n : Nat)

theorem prioHere {list : List Check} {j : Nat} {c : Check} (here : list[j]? = some c) : prioAt list j = c.prio := by
  simp [prioAt,here]

theorem highestGreatest (start : Nat) (within : start < list.length) : start ≤ highest list start ∧
      ∀ k c, start ≤ k → list[k]? = some c → c.prio ≤ prioAt list (highest list start) := by
  -- over the places up to n the best so far is at or behind the start, and none of them is better
  have rounds : ∀ n, n ≤ list.length →
      let best := (List.range n).foldl (fun best j =>
        if start < j ∧ prioAt list best < prioAt list j then j else best) start
      start ≤ best ∧ ∀ k c, start ≤ k → (k = start ∨ k < n) → list[k]? = some c → c.prio ≤ prioAt list best := by
    intro n
    induction n with
    | zero =>
      refine fun _ => ⟨Nat.le_refl start,?_⟩
      intro k c _ first here
      obtain rfl : k = start := by omega
      exact Nat.le_of_eq (prioHere here).symm
    | succ n ih =>
      intro room
      obtain ⟨behind,most⟩ := ih (by omega)
      rw [List.range_succ,List.foldl_append,List.foldl_cons,List.foldl_nil]
      generalize (List.range n).foldl (fun best j =>
        if start < j ∧ prioAt list best < prioAt list j then j else best) start = best at behind most
      dsimp only
      split
      · next better =>
        refine ⟨Nat.le_of_lt better.1,?_⟩
        intro k c from_ before here
        by_cases last : k = n
        · subst last
          exact Nat.le_of_eq (prioHere here).symm
        · exact Nat.le_of_lt (Nat.lt_of_le_of_lt (most k c from_ (by omega) here) better.2)
      · next worse =>
        refine ⟨behind,?_⟩
        intro k c from_ before here
        by_cases last : k = n
        · subst last
          by_cases first : k = start
          · exact most k c from_ (.inl first) here
          · rw [← prioHere here]
            exact Nat.not_lt.mp fun more => worse ⟨by omega,more⟩
        · exact most k c from_ (by omega) here
  obtain ⟨behind,most⟩ := rounds list.length (Nat.le_refl _)
  refine ⟨behind,fun k c from_ here => most k c from_ (.inr ?_) here⟩
  exact (List.getElem?_eq_some_iff.mp here).1

/- One round of sort_checklist. -/
def sortRound (sorting : List Check × List Comp) (i : Nat) : List Check × List Comp :=
  let j := highest sorting.1 i
  if j ≠ i then (swapChecks sorting.1 i j, sorting.2.map (Comp.swap i j)) else sorting

theorem sortChecklistRounds (comp : List Comp) :
    sortChecklist list comp = (List.range (list.length - 1)).foldl sortRound (list, comp) := rfl

theorem sortRoundSorts {sorting : List Check × List Comp} {i : Nat} (within : i < sorting.1.length)
    (front : Front Check.prio i sorting.1) :
    (sortRound sorting i).1.Perm sorting.1 ∧ Front Check.prio (i + 1) (sortRound sorting i).1 := by
  have inside := highestWithin sorting.1 i within
  obtain ⟨behind,most⟩ := highestGreatest sorting.1 i within
  have greatest : ∀ k y, i ≤ k → sorting.1[k]? = some y → y.prio ≤ sorting.1[highest sorting.1 i].prio := by
    intro k y from_ here
    rw [← prioHere (List.getElem?_eq_getElem inside)]
    exact most k y from_ here
  have next := front.round inside behind greatest
  unfold sortRound
  dsimp only
  split
  · rw [swapChecksExchange]
    exact ⟨exchangePerm sorting.1 i _,next⟩
  · next same =>
    rw [ne_eq,not_not] at same
    rw [same,exchangeSelf within] at next
    exact ⟨.refl _,next⟩

theorem sortChecklistSorts (comp : List Comp) :
    (sortChecklist list comp).1.Perm list ∧ (sortChecklist list comp).1.Pairwise (fun a b => b.prio ≤ a.prio) := by
  have rounds : ∀ n, n ≤ list.length - 1 →
      ((List.range n).foldl sortRound (list, comp)).1.Perm list ∧
        Front Check.prio n ((List.range n).foldl sortRound (list, comp)).1 := by
    intro n
    induction n with
    | zero => exact fun _ => ⟨.refl list,frontNone list⟩
    | succ n ih =>
      intro room
      obtain ⟨perm,front⟩ := ih (by omega)
      rw [List.range_succ,List.foldl_append,List.foldl_cons,List.foldl_nil]
      have within : n < ((List.range n).foldl sortRound (list, comp)).1.length := by
        rw [perm.length_eq]
        omega
      obtain ⟨perm',front'⟩ := sortRoundSorts within front
      exact ⟨perm'.trans perm,front'⟩
  obtain ⟨perm,front⟩ := rounds (list.length - 1) (Nat.le_refl _)
  rw [← sortChecklistRounds] at perm front
  refine ⟨perm,?_⟩
  rw [← perm.length_eq] at front
  exact front.sorted

/- Which pairs are made. -/

def pairable (p : Cand × Cand) : Bool := p.1.compId = p.2.compId ∧ p.1.addr.ipv6 = p.2.addr.ipv6

def pairCheck (role : Role) (p : Cand × Cand) : Check :=
  { lcand := p.1, rcand := p.2, prio := calcCheckPrio role p.1 p.2, state := .frozen }

theorem pairUpAll (role : Role) (pairs : List (Cand × Cand)) (made : List Check)
    (complete : (pairUp role pairs made).2 = true) :
    (pairUp role pairs made).1 = made ++ (pairs.filter pairable).map (pairCheck role) := by
  induction pairs generalizing made with
  | nil => simp [pairUp]
  | cons p rest ih =>
    unfold pairUp at complete ⊢
    split
    · next full =>
      rw [if_pos full] at complete
      contradiction
    · next room =>
      rw [if_neg room] at complete
      split
      · next unlike =>
        rw [if_pos unlike] at complete
        have skipped : pairable p = false := by
          simp only [pairable,decide_eq_false_iff_not]
          tauto
        rw [ih made complete,List.filter_cons_of_neg (by simp [skipped])]
      · next alike =>
        rw [if_neg alike] at complete
        have taken : pairable p = true := by
          simp only [pairable,decide_eq_true_eq]
          tauto
        rw [ih _ complete,List.filter_cons_of_pos taken,List.append_assoc]
        rfl

theorem filterAt {α : Type} (keep : α → Bool) (list : List α) (k : Nat) (x : α) (here : list[k]? = some x)
    (kept : keep x = true) : (list.filter keep)[(list.take k).countP keep]? = some x := by
  induction list generalizing k with
  | nil => simp at here
  | cons y rest ih =>
    cases k with
    | zero =>
      cases here
      rw [List.filter_cons_of_pos kept]
      rfl
    | succ k =>
      rw [List.getElem?_cons_succ] at here
      rw [List.take_succ_cons,List.countP_cons]
      cases first : keep y with
      | true =>
        rw [List.filter_cons_of_pos first,if_pos rfl,List.getElem?_cons_succ]
        exact ih k here
      | false =>
        rw [List.filter_cons_of_neg (by simp [first]),if_neg Bool.false_ne_true]
        exact ih k here

theorem copySaved {ice : Session} {remote : List Cand} {k : Nat} {r : Cand} (here : remote[k]? = some r)
    (kept : ice.hasComp r = true) : ice.copyOf remote k r ∈ ice.saved remote := by
  have place := filterAt ice.hasComp remote k r here kept
  unfold Session.saved Session.copyOf
  refine List.mem_iff_getElem?.mpr ⟨(remote.take k).countP ice.hasComp,?_⟩
  have copied : (remote.filter (fun c => c.compId ≠ 0 ∧ c.compId ≤ ice.comp.length)) = remote.filter ice.hasComp := rfl
  rw [copied,List.getElem?_map,List.getElem?_zipIdx,place]
  simp

def Known (ice : Session) (remote : List Cand) (list : List Check) : Prop :=
  ∀ c ∈ list, c.lcand ∈ ice.lcand ∧ c.rcand ∈ ice.saved remote

theorem pairsKnown (ice : Session) (remote : List Cand) :
    Known ice remote (((ice.candPairs remote).filter pairable).map (pairCheck ice.role)) := by
  intro c member
  obtain ⟨p,inside,rfl⟩ := List.mem_map.mp member
  obtain ⟨l,own,inner⟩ := List.mem_flatMap.mp (List.mem_filter.mp inside).1
  obtain ⟨r,saved,rfl⟩ := List.mem_map.mp inner
  exact ⟨own,saved⟩

/- Replacing reflexive candidates by their bases. -/

theorem toBaseAll (lcand : List Cand) (list : List Check) (ok : (toBase lcand list).2 = true) :
    List.Forall₂ (fun c d => ∃ b, d = { c with lcand := b } ∧
      (if c.lcand.type = .srflx then lcand.find? (fun h => h.type = .host ∧ h.addr = c.lcand.baseAddr)
        else some c.lcand) = some b) list (toBase lcand list).1 := by
  induction list with
  | nil => exact .nil
  | cons c rest ih =>
    unfold toBase at ok ⊢
    split
    · next reflexive =>
      rw [if_pos reflexive] at ok
      split
      · next none =>
        rw [none] at ok
        contradiction
      · next h found =>
        rw [found] at ok
        refine .cons ⟨h,rfl,?_⟩ (ih ok)
        rw [if_pos reflexive]
        exact found
    · next plain =>
      rw [if_neg plain] at ok
      refine .cons ⟨c.lcand,rfl,?_⟩ (ih ok)
      rw [if_neg plain]

/- Pruning keeps the first of the pairs that say the same. -/

theorem pruneSublist (list : List Check) : (prune n list).Sublist list := by
  induction n generalizing list with
  | zero => exact .refl list
  | succ n ih =>
    cases list with
    | nil => exact .refl []
    | cons c => exact ((ih _).trans List.filter_sublist).cons_cons c

theorem pruneDistinct (list : List Check) (enough : list.length ≤ n) :
    (prune n list).Pairwise (fun a b => redundant a b = false) := by
  induction n generalizing list with
  | zero =>
    rw [List.length_eq_zero_iff.mp (Nat.le_zero.mp enough)]
    exact .nil
  | succ n ih =>
    cases list with
    | nil => exact .nil
    | cons c rest =>
      have shorter : (rest.filter (fun d => !redundant c d)).length ≤ n :=
        (List.length_filter_le _ rest).trans (Nat.le_of_succ_le_succ enough)
      refine .cons ?_ (ih _ shorter)
      intro d later
      have kept := (List.mem_filter.mp ((pruneSublist n _).subset later)).2
      simpa using kept

theorem pruneStands (list : List Check) (sorted : list.Pairwise (fun a b => b.prio ≤ a.prio)) :
    ∀ d ∈ list, ∃ c ∈ prune n list, c = d ∨ redundant c d = true ∧ d.prio ≤ c.prio := by
  induction n generalizing list with
  | zero => exact fun d member => ⟨d,member,.inl rfl⟩
  | succ n ih =>
    cases list with
    | nil => exact nofun
    | cons c rest =>
      obtain ⟨first,others⟩ := List.pairwise_cons.mp sorted
      intro d member
      rcases List.mem_cons.mp member with rfl | later
      · exact ⟨d,List.mem_cons_self,.inl rfl⟩
      · cases same : redundant c d with
        | true => exact ⟨c,List.mem_cons_self,.inr ⟨same,first d later⟩⟩
        | false =>
          have left : d ∈ rest.filter (fun d => !redundant c d) := List.mem_filter.mpr ⟨later,congrArg (!·) same⟩
          obtain ⟨e,kept,stands⟩ := ih _ (others.sublist List.filter_sublist) d left
          exact ⟨e,List.mem_cons_of_mem _ kept,stands⟩

section Formation
variable {ice : Session} {remote : List Cand}

theorem toBaseMember {list : List Check} (ok : (toBase ice.lcand list).2 = true) {c : Check} (member : c ∈ list) :
    ∃ b, ice.baseOf c.lcand = some b ∧ { c with lcand := b } ∈ (toBase ice.lcand list).1 := by
  obtain ⟨i,inside,rfl⟩ := List.getElem_of_mem member
  have all := toBaseAll ice.lcand list ok
  have inside' : i < (toBase ice.lcand list).1.length := all.length_eq ▸ inside
  obtain ⟨b,same,base⟩ := all.get inside inside'
  refine ⟨b,base,?_⟩
  exact same ▸ List.getElem_mem inside'

theorem toBaseSource {list : List Check} (ok : (toBase ice.lcand list).2 = true) {d : Check}
    (member : d ∈ (toBase ice.lcand list).1) :
    ∃ c ∈ list, ∃ b, ice.baseOf c.lcand = some b ∧ d = { c with lcand := b } := by
  obtain ⟨i,inside',rfl⟩ := List.getElem_of_mem member
  have all := toBaseAll ice.lcand list ok
  have inside : i < list.length := all.length_eq ▸ inside'
  obtain ⟨b,same,base⟩ := all.get inside inside'
  exact ⟨list[i],List.getElem_mem inside,b,base,same⟩

theorem toBasePrios (lcand : List Cand) (list : List Check) :
    (toBase lcand list).1.map Check.prio = list.map Check.prio := by
  induction list with
  | nil => rfl
  | cons c rest ih =>
    unfold toBase
    split
    · split
      · rfl
      · exact congrArg (c.prio :: ·) ih
    · exact congrArg (c.prio :: ·) ih

theorem toBaseSorted {list : List Check} (lcand : List Cand) (sorted : list.Pairwise (fun a b => b.prio ≤ a.prio)) :
    (toBase lcand list).1.Pairwise (fun a b => b.prio ≤ a.prio) := by
  have keys : (list.map Check.prio).Pairwise (fun a b => b ≤ a) := List.pairwise_map.mpr sorted
  rw [← toBasePrios lcand] at keys
  exact List.pairwise_map.mp keys

theorem baseOfOwn {l b : Cand} (own : l ∈ ice.lcand) (base : ice.baseOf l = some b) :
    b ∈ ice.lcand ∧ b.type ≠ .srflx := by
  unfold Session.baseOf at base
  split at base
  · have host := List.find?_some base
    simp only [decide_eq_true_eq] at host
    refine ⟨List.mem_of_find?_eq_some base,?_⟩
    rw [host.1]
    decide
  · next plain =>
    cases base
    exact ⟨own,plain⟩

theorem sameCand {list : List Cand} (placed : ∀ (i : Nat) (c : Cand), list[i]? = some c → c.place = i) {a b : Cand}
    (left : a ∈ list) (right : b ∈ list) (same : a.place = b.place) : a = b := by
  obtain ⟨i,hereA⟩ := List.getElem?_of_mem left
  obtain ⟨j,hereB⟩ := List.getElem?_of_mem right
  have placeA := placed i a hereA
  have placeB := placed j b hereB
  obtain rfl : i = j := by omega
  exact Option.some.inj (hereA.symm.trans hereB)

theorem checkListCases (ok : ice.checkListStatus remote = .success) :
    let made := ((ice.candPairs remote).filter pairable).map (pairCheck ice.role)
    let sorted := (sortChecklist made ice.comp).1
    (toBase ice.lcand sorted).2 = true ∧
      (ice.createCheckList remote).clist = prune (toBase ice.lcand sorted).1.length (toBase ice.lcand sorted).1 := by
  unfold Session.checkListStatus at ok
  unfold Session.createCheckList
  split at ok
  · cases ok
  · next some =>
    split at ok
    · cases ok
    · next few =>
      rw [if_neg (by tauto)]
      have all := pairUpAll ice.role (ice.candPairs remote) []
      rw [List.nil_append] at all
      change (let (made, complete) := pairUp ice.role (ice.candPairs remote) []
        if ¬ complete then CheckListStatus.etoomany
        else if made = [] then .enotfound
        else if (toBase ice.lcand (sortChecklist made ice.comp).1).2 then .success else .enohostcand) = _ at ok
      change _ ∧ (let (made, complete) := pairUp ice.role (ice.candPairs remote) []
        if ¬ complete ∨ made = [] then { ice with rcand := ice.saved remote, clist := made }
        else
          let (based, ok) := toBase ice.lcand (sortChecklist made ice.comp).1
          if ¬ ok then { ice with rcand := ice.saved remote, clist := based }
          else
            { ice with
              rcand := ice.saved remote
              clist := prune based.length based
              comp := ice.comp.take _ } : Session).clist = _
      generalize pairUp ice.role (ice.candPairs remote) [] = pairing at all ok ⊢
      obtain ⟨made,complete⟩ := pairing
      dsimp only at all ok ⊢
      cases complete with
      | false => simp at ok
      | true =>
        obtain rfl := all rfl
        simp only [not_true_eq_false,if_false,false_or] at ok ⊢
        split at ok
        · cases ok
        · next pairs =>
          rw [if_neg pairs]
          split at ok
          · next based =>
            refine ⟨based,?_⟩
            rw [if_neg (not_not.mpr based)]
          · cases ok

theorem redundantBase {a b : Check} (placed : ∀ (i : Nat) (c : Cand), ice.lcand[i]? = some c → c.place = i)
    (ownA : a.lcand ∈ ice.lcand) (ownB : b.lcand ∈ ice.lcand) (same : redundant a b = true) :
    a.rcand.place = b.rcand.place ∧ a.lcand.baseAddr = b.lcand.baseAddr := by
  simp only [redundant,Bool.and_eq_true,Bool.or_eq_true,decide_eq_true_eq] at same
  refine ⟨same.1.symm,?_⟩
  rcases same.2 with one | base
  · rw [sameCand placed ownA ownB one]
  · exact base.symm

theorem checkListFormed (ice : Session) (gathered : Gathered ice) (remote : List Cand)
    (ok : ice.checkListStatus remote = .success) : Formed ice remote (ice.createCheckList remote).clist := by
  obtain ⟨based,clist⟩ := checkListCases ok
  rw [clist]
  generalize paired : ((ice.candPairs remote).filter pairable).map (pairCheck ice.role) = made at based
  obtain ⟨perm,sorted⟩ := sortChecklistSorts made ice.comp
  have known : ∀ d ∈ (toBase ice.lcand (sortChecklist made ice.comp).1).1,
      d.lcand ∈ ice.lcand ∧ d.lcand.type ≠ .srflx ∧ d.rcand ∈ ice.saved remote := by
    intro d member
    obtain ⟨c,inside,b,base,rfl⟩ := toBaseSource based member
    rw [perm.mem_iff,← paired] at inside
    obtain ⟨own,saved⟩ := pairsKnown ice remote c inside
    obtain ⟨ownBase,host⟩ := baseOfOwn own base
    exact ⟨ownBase,host,saved⟩
  generalize bases : (toBase ice.lcand (sortChecklist made ice.comp).1).1 = out at known
  have outSorted : out.Pairwise (fun a b => b.prio ≤ a.prio) := bases ▸ toBaseSorted ice.lcand sorted
  have inner := (pruneSublist out.length out).subset
  constructor
  case sorted => exact outSorted.sublist (pruneSublist _ _)
  case noReflexive => exact fun c member => (known c (inner member)).2.1
  case distinct =>
    refine (pruneDistinct out.length out (Nat.le_refl _)).imp ?_
    rintro a b apart ⟨rcand,base⟩
    simp [redundant,rcand,base] at apart
  case represented =>
    intro l own k r here comp family
    have kept : ice.hasComp r = true := by
      simp only [Session.hasComp,decide_eq_true_eq,← comp]
      exact gathered.component l own
    have saved := copySaved here kept
    -- the pair was made, went through the sort, and its substitute is in front of the pruning
    have made' : pairCheck ice.role (l, ice.copyOf remote k r) ∈ made := by
      rw [← paired]
      refine List.mem_map_of_mem (List.mem_filter.mpr ⟨?_,?_⟩)
      · exact List.mem_flatMap.mpr ⟨l,own,List.mem_map_of_mem saved⟩
      · simp only [pairable,decide_eq_true_eq]
        exact ⟨comp,family⟩
    obtain ⟨b,base,substitute⟩ := toBaseMember based (perm.mem_iff.mpr made')
    rw [bases] at substitute
    obtain ⟨c,left,stands⟩ := pruneStands out.length out outSorted _ substitute
    refine ⟨c,left,?_⟩
    rcases stands with rfl | ⟨same,more⟩
    · exact ⟨rfl,b,base,rfl,.inl ⟨rfl,rfl⟩⟩
    · obtain ⟨ownC,_,savedC⟩ := known c (inner left)
      obtain ⟨rcand,baseAddr⟩ := redundantBase gathered.placed ownC (known _ substitute).1 same
      exact ⟨sameCand (placedCands _) savedC saved rcand,b,base,baseAddr,.inr more⟩

end Formation

/- A host and a reflexive candidate on one base: the two pairs with a remote candidate become one. -/
def reflexiveSession : Session :=
  (({ role := .controlling, tieBreaker := 10, comp := [{}] } : Session).addCand 1 0 .host 65535 ['H'] ⟨false,7,4000⟩
    ⟨false,7,4000⟩).addCand 1 0 .srflx 65535 ['S'] ⟨false,99,4000⟩ ⟨false,7,4000⟩

theorem reflexiveFormed : reflexiveSession.checkListStatus [hostCand 0 9] = .success ∧
    (reflexiveSession.createCheckList [hostCand 0 9]).clist.length = 1 ∧
    Formed reflexiveSession [hostCand 0 9] (reflexiveSession.createCheckList [hostCand 0 9]).clist := by
  have gathered : Gathered reflexiveSession :=
    ((newSessionGathered .controlling 10 1).addCand 1 0 .host 65535 ['H'] _ _).addCand 1 0 .srflx 65535 ['S'] _ _
  have ok : reflexiveSession.checkListStatus [hostCand 0 9] = .success := by decide
  exact ⟨ok,by decide,checkListFormed reflexiveSession gathered [hostCand 0 9] ok⟩

end Pjproject.Ice
