import Pjproject.SrvEntries

/-! The order in which build_server_entries leaves its targets: each acceptable record once, by priority, with the one that is
drawn by weight in front of those behind it. -/
namespace Pjproject.Srv

/- What a record says about its target. Its running sum and its addresses are not from there. -/
def Target.record (target : Target) : List Char × UInt16 × Nat × Nat := (target.name, target.port, target.priority, target.weight)

section Swap
variable {srv : List Target} {i j : Nat}

theorem swapPerm (srv : List Target) (i j : Nat) : (swapTargets srv i j).Perm srv := by
  unfold swapTargets
  split
  next a b atI atJ =>
    obtain ⟨fitsI,isI⟩ := List.getElem?_eq_some_iff.mp atI
    obtain ⟨fitsJ,isJ⟩ := List.getElem?_eq_some_iff.mp atJ
    rw [← isI,← isJ]
    exact List.set_set_perm fitsI fitsJ
  next => exact .refl srv

theorem swapLength (srv : List Target) (i j : Nat) : (swapTargets srv i j).length = srv.length := (swapPerm srv i j).length_eq

theorem prioritySwap (fitsI : i < srv.length) (fitsJ : j < srv.length) (k : Nat) :
    priorityAt (swapTargets srv i j) k = if k = i then priorityAt srv j else if k = j then priorityAt srv i else priorityAt srv k := by
  unfold swapTargets priorityAt
  rw [List.getElem?_eq_getElem fitsI,List.getElem?_eq_getElem fitsJ]
  dsimp only
  rw [List.getElem?_set,List.getElem?_set,List.length_set]
  by_cases isJ : j = k
  · subst isJ
    rw [if_pos rfl,if_pos fitsJ]
    by_cases isI : j = i
    · subst isI
      rw [if_pos rfl]
    · rw [if_neg isI,if_pos rfl]
  · rw [if_neg isJ,if_neg (Ne.symm isJ)]
    by_cases isI : i = k
    · subst isI
      rw [if_pos rfl,if_pos fitsI,if_pos rfl]
    · rw [if_neg isI,if_neg (Ne.symm isI)]

end Swap

section Priority

/- The places below i hold the least priorities, in order. -/
def OrderedBelow (srv : List Target) (i : Nat) : Prop :=
  ∀ a b, a < i → a ≤ b → b < srv.length → priorityAt srv a ≤ priorityAt srv b

theorem leastOf (srv : List Target) (places : List Nat) (start : Nat) :
    let least := places.foldl (fun min j => if priorityAt srv j < priorityAt srv min then j else min) start
    (least = start ∨ least ∈ places) ∧ priorityAt srv least ≤ priorityAt srv start ∧
      ∀ j ∈ places, priorityAt srv least ≤ priorityAt srv j := by
  induction places generalizing start with
  | nil => exact ⟨.inl rfl,Nat.le_refl _,nofun⟩
  | cons j places ih =>
    rw [List.foldl_cons]
    by_cases closer : priorityAt srv j < priorityAt srv start
    · rw [if_pos closer]
      obtain ⟨among,less,all⟩ := ih j
      refine ⟨.inr (List.mem_cons.mpr among),by omega,fun k member => ?_⟩
      rcases List.mem_cons.mp member with rfl | member
      · exact less
      · exact all k member
    · rw [if_neg closer]
      obtain ⟨among,less,all⟩ := ih start
      refine ⟨among.imp id (List.mem_cons_of_mem j),less,fun k member => ?_⟩
      rcases List.mem_cons.mp member with rfl | member
      · omega
      · exact all k member

theorem leastPriorityIs {srv : List Target} {i : Nat} (fits : i < srv.length) :
    i ≤ leastPriority srv i ∧ leastPriority srv i < srv.length ∧
      ∀ j, i ≤ j → j < srv.length → priorityAt srv (leastPriority srv i) ≤ priorityAt srv j := by
  obtain ⟨among,less,all⟩ := leastOf srv (List.range' (i + 1) (srv.length - (i + 1))) i
  change leastPriority srv i = i ∨ leastPriority srv i ∈ _ at among
  change priorityAt srv (leastPriority srv i) ≤ _ at less
  change ∀ j ∈ _, priorityAt srv (leastPriority srv i) ≤ _ at all
  simp only [List.mem_range'_1] at among all
  refine ⟨by omega,by omega,fun j low high => ?_⟩
  by_cases here : j = i
  · rw [here]
    exact less
  · exact all j (by omega)

theorem orderStep {srv : List Target} {i : Nat} (fits : i < srv.length) (ordered : OrderedBelow srv i) :
    OrderedBelow (swapTargets srv i (leastPriority srv i)) (i + 1) := by
  obtain ⟨low,high,least⟩ := leastPriorityIs fits
  intro a b before after inside
  rw [swapLength] at inside
  rw [prioritySwap fits high,prioritySwap fits high]
  by_cases here : a = i
  · rw [if_pos here]
    split
    · exact Nat.le_refl _
    · split
      · exact least i (Nat.le_refl i) fits
      · exact least b (by omega) inside
  · rw [if_neg here,if_neg (by omega)]
    have below := fun b after inside => ordered a b (by omega) after inside
    split
    · exact below _ (by omega) high
    · split
      · exact below _ (by omega) fits
      · exact below _ after inside

theorem orderByPriorityOrders (srv : List Target) :
    (orderByPriority srv).Perm srv ∧ OrderedBelow (orderByPriority srv) (srv.length - 1) := by
  unfold orderByPriority
  have run : ∀ n, n ≤ srv.length - 1 →
      ((List.range n).foldl (fun srv i => swapTargets srv i (leastPriority srv i)) srv).Perm srv ∧
        OrderedBelow ((List.range n).foldl (fun srv i => swapTargets srv i (leastPriority srv i)) srv) n := by
    intro n
    induction n with
    | zero => exact fun _ => ⟨.refl srv,fun a b none => absurd none (Nat.not_lt_zero a)⟩
    | succ n ih =>
      intro most
      obtain ⟨perm,ordered⟩ := ih (by omega)
      rw [List.range_succ,List.foldl_append,List.foldl_cons,List.foldl_nil]
      exact ⟨(swapPerm _ _ _).trans perm,orderStep (by rw [perm.length_eq]; omega) ordered⟩
  exact run _ (Nat.le_refl _)

end Priority

section Election
variable {srv : List Target}

/- The entries that one is drawn from, with their running sums. -/
def group (srv : List Target) (i : Nat) : List Target :=
  (srv.drop i).takeWhile fun target => target.priority = priorityAt srv i

def drawn (rand : Nat → Nat) (srv : List Target) (i : Nat) : Nat :=
  (runningSums 0 (group srv i)).findIdx fun target =>
    rand i % (((group srv i).map Target.weight).sum + 1) ≤ target.sum

def summed (srv : List Target) (i : Nat) : List Target :=
  srv.take i ++ runningSums 0 (group srv i) ++ srv.drop (i + (group srv i).length)

variable (rand : Nat → Nat) (sum : Nat)

theorem electDraws (srv : List Target) (i : Nat) : elect rand srv i =
    if 1 < (group srv i).length then swapTargets (summed srv i) i (i + drawn rand srv i) else summed srv i := rfl

theorem sumsLength (targets : List Target) : (runningSums sum targets).length = targets.length := by
  induction targets generalizing sum with
  | nil => rfl
  | cons target rest ih => rw [runningSums,List.length_cons,List.length_cons,ih]

theorem sumsRecord (targets : List Target) : (runningSums sum targets).map Target.record = targets.map Target.record := by
  induction targets generalizing sum with
  | nil => rfl
  | cons target rest ih =>
    rw [runningSums,List.map_cons,List.map_cons,ih]
    rfl

theorem sumsReach {targets : List Target} (some : targets ≠ []) :
    ∃ target ∈ runningSums sum targets, target.sum = sum + (targets.map Target.weight).sum := by
  induction targets generalizing sum with
  | nil => exact absurd rfl some
  | cons first rest ih =>
    by_cases last : rest = []
    · subst last
      exact ⟨_,List.mem_cons_self,rfl⟩
    · obtain ⟨target,member,is⟩ := ih (sum + first.weight) last
      refine ⟨target,List.mem_cons_of_mem _ member,?_⟩
      rw [is,List.map_cons,List.sum_cons,Nat.add_assoc]

theorem drawFinds {i : Nat} (some : group srv i ≠ []) : drawn rand srv i < (group srv i).length := by
  obtain ⟨target,member,is⟩ := sumsReach 0 some
  unfold drawn
  rw [← sumsLength 0 (group srv i)]
  refine List.findIdx_lt_length_of_exists ⟨target,member,decide_eq_true ?_⟩
  have less : rand i % (((group srv i).map Target.weight).sum + 1) < _ := Nat.mod_lt (rand i) (Nat.succ_pos _)
  omega

theorem groupSplits (srv : List Target) (i : Nat) : srv = srv.take i ++ group srv i ++ srv.drop (i + (group srv i).length) := by
  have behind : srv.drop (i + (group srv i).length) = (srv.drop i).drop (group srv i).length := by rw [List.drop_drop]
  have rest : group srv i ++ (srv.drop i).drop (group srv i).length = srv.drop i := by
    obtain ⟨rest,is⟩ := List.takeWhile_prefix (l := srv.drop i) fun target => decide (target.priority = priorityAt srv i)
    change group srv i ++ rest = _ at is
    rw [← is,List.drop_left]
  rw [List.append_assoc,behind,rest,List.take_append_drop]

theorem summedRecord (srv : List Target) (i : Nat) : (summed srv i).map Target.record = srv.map Target.record := by
  have split := congrArg (List.map Target.record) (groupSplits srv i)
  rw [split]
  simp only [summed,List.map_append,sumsRecord]

theorem priorityOfRecord {srv srv' : List Target} (same : srv'.map Target.record = srv.map Target.record) (k : Nat) :
    priorityAt srv' k = priorityAt srv k := by
  have of : ∀ srv : List Target, priorityAt srv k = ((srv.map Target.record)[k]?.map fun record => record.2.2.1).getD 0 := by
    intro srv
    unfold priorityAt
    rw [List.getElem?_map]
    cases srv[k]? <;> rfl
  rw [of,of,same]

theorem groupPriority {i k : Nat} (inside : k < (group srv i).length) :
    i + k < srv.length ∧ priorityAt srv (i + k) = priorityAt srv i := by
  have split := groupSplits srv i
  have here : srv[i + k]? = (group srv i)[k]? := by
    by_cases fits : i ≤ srv.length
    · have length : (srv.take i).length = i := List.length_take_of_le fits
      have at_ : (srv.take i ++ (group srv i ++ srv.drop (i + (group srv i).length)))[i + k]? = (group srv i)[k]? := by
        rw [List.getElem?_append_right (by omega),length,Nat.add_sub_cancel_left,List.getElem?_append_left inside]
      rwa [← List.append_assoc,← split] at at_
    · unfold group at inside
      rw [List.drop_eq_nil_of_le (by omega)] at inside
      exact absurd inside (Nat.not_lt_zero k)
  rw [List.getElem?_eq_getElem inside] at here
  obtain ⟨fits,is⟩ := List.getElem?_eq_some_iff.mp here
  refine ⟨fits,?_⟩
  have alike : ∀ target ∈ group srv i, target.priority = priorityAt srv i := fun target member =>
    of_decide_eq_true (List.all_eq_true.mp List.all_takeWhile target member)
  rw [← alike _ (List.getElem_mem inside),priorityAt,here]
  rfl

theorem electKeeps (srv : List Target) (i : Nat) :
    ((elect rand srv i).map Target.record).Perm (srv.map Target.record) ∧
      ∀ k, priorityAt (elect rand srv i) k = priorityAt srv k := by
  have plain := priorityOfRecord (summedRecord srv i)
  have length : (summed srv i).length = srv.length := by
    have lengths := congrArg List.length (summedRecord srv i)
    rwa [List.length_map,List.length_map] at lengths
  rw [electDraws]
  split
  next several =>
    have some : group srv i ≠ [] := List.ne_nil_of_length_pos (by omega)
    obtain ⟨fits,same⟩ := groupPriority (drawFinds rand some)
    constructor
    · exact (summedRecord srv i) ▸ (swapPerm _ _ _).map Target.record
    · intro k
      rw [prioritySwap (by omega) (by omega),plain,plain,plain,same]
      split
      next here => rw [here]
      next =>
        split
        next there => rw [there,same]
        next => rfl
  next => exact ⟨summedRecord srv i ▸ .refl _,plain⟩

theorem electAllKeeps (srv : List Target) : ((electAll rand srv).map Target.record).Perm (srv.map Target.record) ∧
      ∀ k, priorityAt (electAll rand srv) k = priorityAt srv k := by
  unfold electAll
  generalize List.range srv.length = places
  induction places generalizing srv with
  | nil => exact ⟨.refl _,fun _ => rfl⟩
  | cons i places ih =>
    obtain ⟨perm,priority⟩ := electKeeps rand srv i
    obtain ⟨perm',priority'⟩ := ih (elect rand srv i)
    exact ⟨perm'.trans perm,fun k => (priority' k).trans (priority k)⟩

end Election

section Entries

/- The targets, in their order, before their addresses are known. -/
def entriesOf (rand : Nat → Nat) (ans : List Rr) : List Target := electAll rand (orderByPriority (srvTargets ans))

theorem entriesOrdered (rand : Nat → Nat) (ans : List Rr) :
    ((entriesOf rand ans).map Target.record).Perm ((srvTargets ans).map Target.record) ∧
      ((entriesOf rand ans).map Target.priority).Pairwise (· ≤ ·) := by
  obtain ⟨perm,ordered⟩ := orderByPriorityOrders (srvTargets ans)
  obtain ⟨perm',priority⟩ := electAllKeeps rand (orderByPriority (srvTargets ans))
  refine ⟨perm'.trans (perm.map Target.record),?_⟩
  have length : (entriesOf rand ans).length = (srvTargets ans).length := by
    have lengths := (perm'.trans (perm.map Target.record)).length_eq
    rwa [List.length_map,List.length_map] at lengths
  have at_ : ∀ k (fits : k < (entriesOf rand ans).length), ((entriesOf rand ans)[k]).priority =
      priorityAt (orderByPriority (srvTargets ans)) k := by
    intro k fits
    rw [← priority,priorityAt]
    change _ = ((entriesOf rand ans)[k]?.map Target.priority).getD 0
    rw [List.getElem?_eq_getElem fits]
    rfl
  rw [List.pairwise_iff_getElem]
  intro a b fitsA fitsB before
  rw [List.length_map] at fitsA fitsB
  rw [List.getElem_map,List.getElem_map,at_ a fitsA,at_ b fitsB]
  exact ordered a b (by omega) (Nat.le_of_lt before) (by rw [perm.length_eq]; omega)

end Entries

end Pjproject.Srv
