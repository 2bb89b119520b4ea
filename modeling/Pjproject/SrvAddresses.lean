import Pjproject.SrvOrder

/-! Which of the additional records build_server_entries gives to which target: of those that share a name, the first one takes
them until it is full. -/
namespace Pjproject.Srv

/- The addresses of a name that are wanted, in their order. -/
def wanted (option : Options) (arr : List Rr) (name : List Char) : List Ip :=
  arr.filterMap fun rr => if lowerName rr.name = lowerName name then rr.ip option else none

/- How many targets before place i have the name. -/
def rank (srv : List Target) (i : Nat) (name : List Char) : Nat := ((srv.take i).map fun target => lowerName target.name).count (lowerName name)

/- What a target has of the addresses of its name, behind those that fill the ones before it. -/
def share (ips : List Ip) (r : Nat) : List Ip := (ips.drop (addrMaxCount * r)).take addrMaxCount

section Share
variable {ips : List Ip} {r : Nat}

theorem shareLength (ips : List Ip) (r : Nat) : (share ips r).length = min addrMaxCount (ips.length - addrMaxCount * r) := by
  rw [share,List.length_take,List.length_drop]

theorem shareFull (ip : Ip) (full : addrMaxCount ≤ (share ips r).length) : share (ips ++ [ip]) r = share ips r := by
  rw [shareLength] at full
  have some : addrMaxCount = 8 := rfl
  unfold share
  rw [List.drop_append_of_le_length (by omega),List.take_append_of_le_length]
  rw [List.length_drop]
  omega

theorem shareNext (ip : Ip) (reached : addrMaxCount * r ≤ ips.length) (room : (share ips r).length < addrMaxCount) :
    share (ips ++ [ip]) r = share ips r ++ [ip] := by
  rw [shareLength] at room
  unfold share
  rw [List.drop_append_of_le_length reached,List.take_of_length_le,List.take_of_length_le]
  · rw [List.length_drop]
    omega
  · rw [List.length_append,List.length_drop,List.length_singleton]
    omega

theorem shareBeyond (short : ips.length ≤ addrMaxCount * r) : share ips r = [] := by
  unfold share
  rw [List.drop_eq_nil_of_le short,List.take_nil]

end Share

section Rank

theorem rankBefore (srv : List Target) {i r : Nat} {name : List Char} (is : rank srv i name = r + 1) :
    ∃ j target, j < i ∧ srv[j]? = some target ∧ lowerName target.name = lowerName name ∧ rank srv j name = r := by
  unfold rank at is
  induction i with
  | zero => cases is
  | succ i ih =>
    by_cases fits : i < srv.length
    · rw [List.take_add_one,List.getElem?_eq_getElem fits,Option.toList_some,List.map_append,List.count_append] at is
      by_cases same : lowerName srv[i].name = lowerName name
      · refine ⟨i,srv[i],Nat.lt_succ_self i,List.getElem?_eq_getElem fits,same,?_⟩
        rw [List.map_cons,List.map_nil,same,List.count_singleton_self] at is
        exact Nat.succ.inj is
      · rw [List.map_cons,List.map_nil,List.count_singleton,if_neg (by simpa using same)] at is
        obtain ⟨j,target,before,at_,alike,rank⟩ := ih is
        exact ⟨j,target,by omega,at_,alike,rank⟩
    · rw [List.take_of_length_le (by omega)] at is
      rw [List.take_of_length_le (by omega)] at ih
      obtain ⟨j,target,before,at_,alike,rank⟩ := ih is
      exact ⟨j,target,by omega,at_,alike,rank⟩

theorem rankMono (srv : List Target) {i j : Nat} (before : i ≤ j) (name : List Char) : rank srv i name ≤ rank srv j name := by
  unfold rank
  have front : srv.take i = (srv.take j).take i := by rw [List.take_take,Nat.min_eq_left before]
  rw [front]
  exact ((List.take_sublist i (srv.take j)).map _).count_le _

theorem rankBehind {srv : List Target} {i j : Nat} {target : Target} {name : List Char} (at_ : srv[i]? = some target)
    (same : lowerName target.name = lowerName name) (before : i < j) : rank srv i name < rank srv j name := by
  refine Nat.lt_of_lt_of_le ?_ (rankMono srv before name)
  obtain ⟨fits,is⟩ := List.getElem?_eq_some_iff.mp at_
  unfold rank
  rw [List.take_add_one,at_,Option.toList_some,List.map_append,List.count_append,List.map_cons,List.map_nil,same,
    List.count_singleton_self]
  exact Nat.lt_succ_self _

end Rank

section Additional
variable {option : Options} {srv : List Target} {arr : List Rr} {job : Job}

/- The targets are those of srv, with their share of the additional records that were read. -/
structure Filled (option : Options) (srv : List Target) (arr : List Rr) (job : Job) : Prop where
  option_ : job.option = option
  length : job.srv.length = srv.length
  at_ : ∀ (i : Nat) target, srv[i]? = some target →
    job.srv[i]? = some { target with addr := share (wanted option arr target.name) (rank srv i target.name) }

theorem addAddrSrv (job : Job) (host : Nat) (target : Target) (ip : Ip) :
    (job.addAddr host target ip).srv = (job.modify host fun target => { target with addr := target.addr ++ [ip] }).srv ∧
      (job.addAddr host target ip).option = job.option := by
  unfold Job.addAddr
  dsimp only
  split <;> exact ⟨rfl,rfl⟩

theorem wantedAlike {name other : List Char} (same : lowerName name = lowerName other) :
    wanted option arr name = wanted option arr other ∧ ∀ i, rank srv i name = rank srv i other := by
  unfold wanted rank
  rw [same]
  exact ⟨rfl,fun _ => rfl⟩

theorem wantedSnoc (option : Options) (arr : List Rr) (rr : Rr) (name : List Char) : wanted option (arr ++ [rr]) name =
    wanted option arr name ++ (if lowerName rr.name = lowerName name then rr.ip option else none).toList := by
  unfold wanted
  rw [List.filterMap_append]
  rfl

theorem filledKept (filled : Filled option srv arr job) (rr : Rr)
    (full : ∀ ip, rr.ip option = some ip → ∀ (i : Nat) target, srv[i]? = some target → lowerName rr.name = lowerName target.name →
      addrMaxCount ≤ (share (wanted option arr target.name) (rank srv i target.name)).length) :
    Filled option srv (arr ++ [rr]) job := by
  refine ⟨filled.option_,filled.length,fun i target here => ?_⟩
  rw [filled.at_ i target here,wantedSnoc]
  split
  next same =>
    cases found : rr.ip option with
    | none => rw [Option.toList_none,List.append_nil]
    | some ip => rw [Option.toList_some,shareFull ip (full ip found i target here same)]
  next => rw [Option.toList_none,List.append_nil]

theorem isForIs (filled : Filled option srv arr job) (rr : Rr) {i : Nat} {target : Target} (here : srv[i]? = some target) :
    job.srv[i]?.map rr.isFor = some (decide (lowerName rr.name = lowerName target.name ∧
      (share (wanted option arr target.name) (rank srv i target.name)).length < addrMaxCount)) := by
  rw [filled.at_ i target here]
  rfl

theorem filledAdditional (filled : Filled option srv arr job) (rr : Rr) :
    Filled option srv (arr ++ [rr]) (job.addAdditional rr) := by
  unfold Job.addAdditional
  rw [filled.option_]
  cases ipIs : rr.ip option with
  | none => exact filledKept filled rr fun ip found => by rw [ipIs] at found; cases found
  | some ip =>
    cases place : job.srv.findIdx? rr.isFor with
    | none =>
      refine filledKept filled rr fun ip' _ i target here same => ?_
      by_contra room
      have none := List.findIdx?_eq_none_iff.mp place
      have isFor := isForIs filled rr here
      rw [filled.at_ i target here,Option.map_some,Option.some.injEq] at isFor
      have taken := none _ (List.mem_of_getElem? (filled.at_ i target here))
      rw [isFor,decide_eq_false_iff_not] at taken
      exact taken ⟨same,Nat.lt_of_not_le room⟩
    | some host =>
      obtain ⟨fits,takes,before⟩ := List.findIdx?_eq_some_iff_getElem.mp place
      have atHost := List.getElem?_eq_getElem fits
      dsimp only
      rw [atHost]
      dsimp only
      obtain ⟨srvIs,optionIs⟩ := addAddrSrv job host job.srv[host] ip
      have fits' : host < srv.length := filled.length ▸ fits
      have hostHere := List.getElem?_eq_getElem fits'
      have isFor := isForIs filled rr hostHere
      rw [atHost,Option.map_some,Option.some.injEq,takes] at isFor
      obtain ⟨named,room⟩ := of_decide_eq_true isFor.symm
      -- every target of the name before the host is full
      have fullBefore : ∀ j other, j < host → srv[j]? = some other → lowerName rr.name = lowerName other.name →
          addrMaxCount ≤ (share (wanted option arr other.name) (rank srv j other.name)).length := by
        intro j other less here same
        have skipped := before j less
        have isFor := isForIs filled rr here
        rw [List.getElem?_eq_getElem (Nat.lt_trans less fits),Option.map_some,Option.some.injEq] at isFor
        by_contra short
        rw [isFor,decide_eq_true ⟨same,Nat.lt_of_not_le short⟩] at skipped
        exact skipped rfl
      have reached : addrMaxCount * rank srv host srv[host].name ≤ (wanted option arr srv[host].name).length := by
        cases rankIs : rank srv host srv[host].name with
        | zero => exact Nat.zero_le _
        | succ =>
          obtain ⟨j,other,less,here,same,rankOther⟩ := rankBefore srv rankIs
          have filledUp := fullBefore j other less here (named.trans same.symm)
          obtain ⟨ips,ranks⟩ := @wantedAlike option srv arr _ _ same
          rw [ips,ranks,rankOther,shareLength,show addrMaxCount = 8 from rfl] at filledUp
          rw [show addrMaxCount = 8 from rfl]
          omega
      refine ⟨optionIs.trans filled.option_,?_,fun i target here => ?_⟩
      · rw [srvIs]
        exact (List.length_modify _ _ _).trans filled.length
      · rw [srvIs,targetModify,filled.at_ i target here,wantedSnoc]
        by_cases atIt : host = i
        · subst atIt
          cases hostHere.symm.trans here
          rw [if_pos rfl,if_pos named,ipIs,Option.toList_some,shareNext ip reached room]
          rfl
        · rw [if_neg atIt]
          split
          next same =>
            rw [ipIs,Option.toList_some]
            rcases Nat.lt_or_gt_of_ne atIt with less | more
            · have alike : lowerName srv[host].name = lowerName target.name := named.symm.trans same
              obtain ⟨ips,ranks⟩ := @wantedAlike option srv arr _ _ alike
              have behind := rankBehind hostHere alike less
              have beyond : (wanted option arr target.name).length + 1 ≤ addrMaxCount * rank srv i target.name := by
                rw [ips,ranks,shareLength,show addrMaxCount = 8 from rfl] at room
                rw [show addrMaxCount = 8 from rfl]
                omega
              rw [shareBeyond (Nat.le_of_succ_le beyond),shareBeyond (by rwa [List.length_append,List.length_singleton])]
            · rw [shareFull ip (fullBefore i target more here same)]
          next => rw [Option.toList_none,List.append_nil]

theorem filledAll {arr' : List Rr} (filled : Filled option srv arr job) :
    Filled option srv (arr ++ arr') (arr'.foldl Job.addAdditional job) := by
  induction arr' generalizing arr job with
  | nil =>
    rw [List.append_nil]
    exact filled
  | cons rr rest ih =>
    have next := ih (filledAdditional filled rr)
    rwa [List.append_assoc] at next

end Additional

section Literal
variable {inet : Inet}

/- What a target without addresses has when its name is one. -/
def Target.orLiteral (target : Target) (inet : Inet) (option : Options) : Target :=
  if target.addr = [] then { target with addr := (target.literal inet option).toList } else target

theorem literalStep (inet : Inet) (job : Job) (host : Nat) :
    (job.addLiteral inet host).option = job.option ∧ ∀ i : Nat, (job.addLiteral inet host).srv[i]? =
      if host = i then job.srv[i]?.map (·.orLiteral inet job.option) else job.srv[i]? := by
  unfold Job.addLiteral
  cases atHost : job.srv[host]? with
  | none =>
    refine ⟨rfl,fun i => ?_⟩
    by_cases here : host = i
    · rw [if_pos here,← here,atHost]
      rfl
    · exact (if_neg here).symm
  | some target =>
    dsimp only
    have stays : target.orLiteral inet job.option = target →
        job.option = job.option ∧ ∀ i : Nat, job.srv[i]? =
          if host = i then job.srv[i]?.map (·.orLiteral inet job.option) else job.srv[i]? := by
      refine fun same => ⟨rfl,fun i => ?_⟩
      by_cases here : host = i
      · rw [if_pos here,← here,atHost,Option.map_some,same]
      · exact (if_neg here).symm
    split
    next some => exact stays (if_neg (List.ne_nil_of_length_pos (Nat.pos_of_ne_zero some)))
    next none =>
      have empty : target.addr = [] := List.length_eq_zero_iff.mp (not_not.mp none)
      cases literal : target.literal inet job.option with
      | none =>
        refine stays ?_
        rw [Target.orLiteral,if_pos empty,literal,Option.toList_none,← empty]
      | some ip =>
        obtain ⟨srvIs,optionIs⟩ := addAddrSrv job host target ip
        refine ⟨optionIs,fun i => ?_⟩
        dsimp only
        rw [srvIs,targetModify]
        split
        next here =>
          rw [← here,atHost,Option.map_some,Option.map_some,Target.orLiteral,if_pos empty,literal,Option.toList_some,empty]
          rfl
        next => rfl

theorem literalAll (inet : Inet) (job : Job) (n : Nat) : ((List.range n).foldl (Job.addLiteral inet) job).option = job.option ∧
    ∀ i : Nat, ((List.range n).foldl (Job.addLiteral inet) job).srv[i]? =
      if i < n then job.srv[i]?.map (·.orLiteral inet job.option) else job.srv[i]? := by
  induction n with
  | zero => exact ⟨rfl,fun i => (if_neg (Nat.not_lt_zero i)).symm⟩
  | succ n ih =>
    obtain ⟨option,at_⟩ := ih
    rw [List.range_succ,List.foldl_append,List.foldl_cons,List.foldl_nil]
    obtain ⟨option',at'⟩ := literalStep inet ((List.range n).foldl (Job.addLiteral inet) job) n
    refine ⟨option'.trans option,fun i => ?_⟩
    rw [at',at_,option]
    by_cases here : n = i
    · rw [if_pos here,if_neg (by omega),if_pos (by omega)]
    · rw [if_neg here]
      by_cases before : i < n
      · rw [if_pos before,if_pos (by omega)]
      · rw [if_neg before,if_neg (by omega)]

end Literal

section Entries
variable {job : Job} {inet : Inet} {rand : Nat → Nat} {pkt : SrvPacket}

theorem entriesPlain (rand : Nat → Nat) (ans : List Rr) : AllPlain (entriesOf rand ans) :=
  (srvTargetsPlain ans).orderByPriority.electAll rand

theorem builtEntry (job : Job) (inet : Inet) (rand : Nat → Nat) (pkt : SrvPacket) (i : Nat) :
    (job.buildServerEntries inet rand pkt).srv[i]? = (entriesOf rand pkt.ans)[i]?.map fun target =>
      ({ target with addr := share (wanted job.option pkt.arr target.name) (rank (entriesOf rand pkt.ans) i target.name) } :
        Target).orLiteral inet job.option := by
  unfold Job.buildServerEntries
  dsimp only
  split
  next none =>
    have empty : srvTargets pkt.ans = [] := List.length_eq_zero_iff.mp none
    have entries : entriesOf rand pkt.ans = [] := by
      unfold entriesOf
      rw [empty]
      rfl
    rw [empty,entries]
    rfl
  next some =>
    have start : Filled job.option (entriesOf rand pkt.ans) [] { job with srv := entriesOf rand pkt.ans } := by
      refine ⟨rfl,rfl,fun i target here => ?_⟩
      have plain : target.addr = [] := (entriesPlain rand pkt.ans target (List.mem_of_getElem? here)).1
      have nothing : share (wanted job.option [] target.name) (rank (entriesOf rand pkt.ans) i target.name) = [] :=
        shareBeyond (Nat.zero_le _)
      rw [nothing,← plain]
      exact here
    have filled : Filled job.option (entriesOf rand pkt.ans) ([] ++ pkt.arr) _ := filledAll start
    rw [List.nil_append] at filled
    change ((List.range (pkt.arr.foldl Job.addAdditional { job with srv := entriesOf rand pkt.ans }).srv.length).foldl
      (Job.addLiteral inet) (pkt.arr.foldl Job.addAdditional { job with srv := entriesOf rand pkt.ans })).srv[i]? = _
    rw [(literalAll inet _ _).2,filled.length,filled.option_]
    cases here : (entriesOf rand pkt.ans)[i]? with
    | none =>
      have past := List.getElem?_eq_none_iff.mp here
      rw [if_neg (Nat.not_lt.mpr past),List.getElem?_eq_none (by rw [filled.length]; exact past)]
      rfl
    | some target =>
      rw [if_pos (List.getElem?_eq_some_iff.mp here).1,filled.at_ i target here]
      rfl

/- What is asked of the entries: the first acceptable records, each once and by priority, a draw that finds its entry, and the
addresses of every name that has wanted ones. -/
structure RightEntries (job : Job) (inet : Inet) (rand : Nat → Nat) (pkt : SrvPacket) : Prop where
  kept : ((job.buildServerEntries inet rand pkt).srv.map Target.record).Perm
    (((pkt.ans.filterMap Rr.target).take srvMaxAddr).map Target.record)
  ordered : ((job.buildServerEntries inet rand pkt).srv.map Target.priority).Pairwise (· ≤ ·)
  finds : ∀ srv i, group srv i ≠ [] → drawn rand srv i < (group srv i).length
  addresses : ∀ target ∈ (job.buildServerEntries inet rand pkt).srv, wanted job.option pkt.arr target.name ≠ [] →
    target.addr = (wanted job.option pkt.arr target.name).take addrMaxCount

/- The first target of its name is served, and a later one only if it gets the same addresses by chance: from records behind
those that fill the targets before it, or because its name is that address. -/
def Served (job : Job) (inet : Inet) (pkt : SrvPacket) (srv : List Target) (i : Nat) (target : Target) : Prop :=
  let ips := wanted job.option pkt.arr target.name
  let r := rank srv i target.name
  r = 0 ∨ ips = [] ∨ (if ips.length ≤ addrMaxCount * r then target.literal inet job.option = ips.head? ∧ ips.length = 1
    else share ips r = ips.take addrMaxCount)

theorem servedIff (target : Target) (i : Nat) : Served job inet pkt (entriesOf rand pkt.ans) i target ↔
    (wanted job.option pkt.arr target.name ≠ [] →
      (({ target with addr := share (wanted job.option pkt.arr target.name) (rank (entriesOf rand pkt.ans) i target.name) } :
        Target).orLiteral inet job.option).addr = (wanted job.option pkt.arr target.name).take addrMaxCount) := by
  unfold Served
  dsimp only
  generalize wanted job.option pkt.arr target.name = ips
  generalize rank (entriesOf rand pkt.ans) i target.name = r
  have literal : ∀ addr, ({ target with addr } : Target).literal inet job.option = target.literal inet job.option := fun _ => rfl
  by_cases none : ips = []
  · exact iff_of_true (.inr (.inl none)) fun some => absurd none some
  · have more := List.length_pos_of_ne_nil none
    unfold Target.orLiteral
    dsimp only
    by_cases short : ips.length ≤ addrMaxCount * r
    · have later : r ≠ 0 := by
        rintro rfl
        omega
      rw [shareBeyond short,if_pos rfl,if_pos short]
      have single : (target.literal inet job.option = ips.head? ∧ ips.length = 1) ↔
          (target.literal inet job.option).toList = ips.take addrMaxCount := by
        cases ips with
        | nil => exact absurd rfl none
        | cons =>
          rw [List.head?_cons,show addrMaxCount = 7 + 1 from rfl,List.take_succ_cons,List.length_cons]
          cases target.literal inet job.option with
          | none => exact ⟨fun both => (nomatch both.1),fun no => (nomatch no)⟩
          | some => simp [List.take_eq_nil_iff]
      dsimp only
      rw [literal [],← single]
      exact ⟨fun cases _ => (cases.resolve_left later).resolve_left none,fun same => .inr (.inr (same none))⟩
    · have here : share ips r ≠ [] := by
        refine List.ne_nil_of_length_pos ?_
        rw [shareLength]
        exact Nat.lt_min.mpr ⟨by decide,by omega⟩
      rw [if_neg here,if_neg short]
      refine ⟨?_,fun same => .inr (.inr (same none))⟩
      rintro (rfl | empty | same) _
      · unfold share
        rw [Nat.mul_zero,List.drop_zero]
      · exact absurd empty none
      · exact same

/- Ordering, drawing and the first addresses are always right; the addresses of shared names are where they are served. -/
theorem entriesRight (job : Job) (inet : Inet) (rand : Nat → Nat) (pkt : SrvPacket) : RightEntries job inet rand pkt ↔
    ∀ (i : Nat) target, (entriesOf rand pkt.ans)[i]? = some target → Served job inet pkt (entriesOf rand pkt.ans) i target := by
  have entry := builtEntry job inet rand pkt
  have name : ∀ target : Target, (target.orLiteral inet job.option).record = target.record := by
    intro target
    unfold Target.orLiteral
    split <;> rfl
  have records : (job.buildServerEntries inet rand pkt).srv.map Target.record = (entriesOf rand pkt.ans).map Target.record := by
    refine List.ext_getElem? fun i => ?_
    rw [List.getElem?_map,List.getElem?_map,entry]
    cases (entriesOf rand pkt.ans)[i]? with
    | none => rfl
    | some => exact congrArg some (name _)
  have priorities : ∀ srv : List Target, srv.map Target.priority = (srv.map Target.record).map fun record => record.2.2.1 := by
    intro srv
    rw [List.map_map]
    rfl
  constructor
  · intro right i target here
    refine (servedIff _ i).mpr fun some => ?_
    have at_ := entry i
    rw [here,Option.map_some] at at_
    have served := right.addresses _ (List.mem_of_getElem? at_)
    have nameIs : (({ target with addr := share (wanted job.option pkt.arr target.name) (rank (entriesOf rand pkt.ans) i target.name) } :
        Target).orLiteral inet job.option).name = target.name := congrArg Prod.fst (name _)
    rw [nameIs] at served
    exact served some
  · intro served
    refine ⟨?_,?_,fun srv i => drawFinds rand,fun target member => ?_⟩
    · rw [records]
      exact (entriesOrdered rand pkt.ans).1
    · rw [priorities,records,← priorities]
      exact (entriesOrdered rand pkt.ans).2
    · obtain ⟨i,at_⟩ := List.getElem?_of_mem member
      rw [entry] at at_
      obtain ⟨before,here,rfl⟩ := Option.map_eq_some_iff.mp at_
      have nameIs : (({ before with addr := share (wanted job.option pkt.arr before.name) (rank (entriesOf rand pkt.ans) i before.name) } :
          Target).orLiteral inet job.option).name = before.name := congrArg Prod.fst (name _)
      rw [nameIs]
      exact (servedIff _ i).mp (served i before here)

/- Two services on one host: its address goes to the first entry alone. -/
def sharedTarget : SrvPacket :=
  ⟨false,[⟨['s'],.srv 1 0 5060 ['h']⟩,⟨['s'],.srv 2 0 5070 ['h']⟩],[⟨['h'],.a 1⟩]⟩

theorem sharedUnserved : ¬RightEntries { option := .normalize false false false false, domainPart := [], defPort := 0 }
    ⟨fun _ => none,fun _ => none⟩ (fun _ => 0) sharedTarget := by
  intro right
  exact absurd (right.addresses { name := ['h'], port := 5070, priority := 2 } (by decide +kernel) (by decide +kernel)) (by decide +kernel)

end Entries

end Pjproject.Srv
