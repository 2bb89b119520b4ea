import Pjproject.TimerInvariant

/-! Scheduling: an id leaves the free list, the arrays grow when they are nearly full,
and a copy of the entry rises to its place. Between the first and the last of these
steps the id belongs neither to the free list nor to the heap. -/
namespace Pjproject.Timer
open Time Lib.BinaryHeap Lib.FreeList

/- The heap while the id `x` is reserved for a node that is not stored yet. -/
structure Reserved (ht : TimerHeap) (x : Int) : Prop where
  placed : Placed (table ht) ht.curSize (Held ht)
  ordered : Ordered (slotValue ht) ht.curSize
  labelled : Labelled ht (Held ht)
  range : ∀ k, Held ht k → 1 ≤ k ∧ k < ht.maxSize
  free : ∃ chain, FreeIds ht (fun k => Held ht k ∨ k = x) chain ∧
    chain.length + ht.curSize + 2 = ht.maxSize
  fresh : ¬ Held ht x
  bounds : 1 ≤ x ∧ x < ht.maxSize
  room : ht.curSize + 2 ≤ ht.maxSize
  zero : ht.timerIds 0 < 0
  normal : ∀ k, Held ht k → Normal (nodeValue ht k)

variable {ht : TimerHeap} {pool : PoolReply} {x : Int} {expires : TimeVal}

theorem popFreelistReserved (inv : HeapInv ht) : Reserved (popFreelist ht).2 (popFreelist ht).1 := by
  obtain ⟨chain,free,count⟩ := inv.free
  have room := inv.room
  have nonempty : chain ≠ [] := by
    rintro rfl
    simp only [List.length_nil] at count
    omega
  obtain ⟨tail,rfl,walk⟩ := free.walk.head nonempty
  have first := (free.members ht.timerIdsFreelist).mp (by simp)
  have parts := List.nodup_cons.mp free.nodup
  refine ⟨inv.placed,inv.ordered,inv.labelled,inv.range,⟨tail,⟨walk,parts.2,?_⟩,?_⟩,first.2.2,
    ⟨first.1,first.2.1⟩,inv.room,inv.zero,inv.normal⟩
  · intro k
    have old := free.members k
    rw [List.mem_cons] at old
    constructor
    · intro mem
      obtain ⟨low,high,out⟩ := old.mp (.inr mem)
      refine ⟨low,high,?_⟩
      rintro (used | same)
      · exact out used
      · have equal : k = ht.timerIdsFreelist := same
        exact parts.1 (equal ▸ mem)
    · rintro ⟨low,high,out⟩
      rcases old.mpr ⟨low,high,fun used => out (.inl used)⟩ with same | mem
      · exact absurd (.inr same) out
      · exact mem
  · simp only [List.length_cons] at count
    simp only [popFreelist]
    omega

/- The pool answered all three requests of grow_heap. -/
def PoolReply.granted (pool : PoolReply) : Prop :=
  pool.heap = true ∧ pool.timerDups = true ∧ pool.timerIds = true

def grownHeap (ht : TimerHeap) : TimerHeap :=
  { ht with
    heap := fun i => if i < ht.curSize then ht.heap i else 0
    timerIds := fun i => if ht.maxSize ≤ i ∧ i < (ht.maxSize * 2 : Nat) then -(i + 1) else ht.timerIds i
    maxSize := ht.maxSize * 2 }

theorem growHeapGranted (granted : pool.granted) (ht : TimerHeap) :
    growHeap pool ht = (.success, grownHeap ht) := by
  obtain ⟨first,second,third⟩ := granted
  simp [growHeap,grownHeap,first,second,third]

theorem grownHeapHeld (ht : TimerHeap) (k : Int) : Held (grownHeap ht) k ↔ Held ht k := by
  constructor <;> rintro ⟨i,hi,found⟩ <;> refine ⟨i,hi,?_⟩
  · simpa only [grownHeap,if_pos (show i < ht.curSize from hi)] using found
  · simpa only [grownHeap,if_pos (show i < ht.curSize from hi)] using found

theorem grownHeapIds (ht : TimerHeap) {k : Int} (high : k < ht.maxSize) :
    (grownHeap ht).timerIds k = ht.timerIds k :=
  if_neg (by omega)

theorem grownHeapFree {used chain} (free : FreeIds ht used chain) (below : ∀ k, used k → k < ht.maxSize) :
    FreeIds (grownHeap ht) used
      (chain ++ (List.range ht.maxSize).map fun i : Nat => (ht.maxSize : Int) + (i : Int)) := by
  -- the new ids follow the old ones, where the old walk used to leave the table
  have last : ((grownHeap ht).maxSize : Int) = (ht.maxSize : Int) + (ht.maxSize : Nat) := by
    simp only [grownHeap]
    omega
  have more := Chain.range (nextFree (grownHeap ht)) ht.maxSize ht.maxSize (by
    intro y low high
    simp only [nextFree,grownHeap]
    rw [if_pos ⟨low,by omega⟩]
    omega)
  have member : ∀ k, (k ∈ (List.range ht.maxSize).map fun i : Nat => (ht.maxSize : Int) + (i : Int)) ↔
      ht.maxSize ≤ k ∧ k < (ht.maxSize : Int) + ht.maxSize := by
    intro k
    simp only [List.mem_map,List.mem_range]
    constructor
    · rintro ⟨i,hi,rfl⟩
      omega
    · rintro ⟨low,high⟩
      exact ⟨(k - ht.maxSize).toNat,by omega,by omega⟩
  refine ⟨?_,?_,?_⟩
  · rw [last]
    refine free.walk.extend (fun y mem => ?_) (fun mem => ?_) more
    · simp only [nextFree]
      rw [grownHeapIds ht ((free.members y).mp mem).2.1]
    · have := ((free.members _).mp mem).2.1
      omega
  · refine List.nodup_append.mpr ⟨free.nodup,?_,?_⟩
    · refine List.Nodup.map (fun a b same => ?_) List.nodup_range
      omega
    · intro k old l new same
      have := ((free.members k).mp old).2.1
      have := (member l).mp new
      omega
  · intro k
    rw [List.mem_append,free.members k,member k,last]
    constructor
    · rintro (⟨low,high,out⟩ | ⟨low,high⟩)
      · exact ⟨low,by omega,out⟩
      · exact ⟨by omega,high,fun hk => by have := below k hk; omega⟩
    · rintro ⟨low,high,out⟩
      by_cases old : k < ht.maxSize
      · exact .inl ⟨low,old,out⟩
      · exact .inr ⟨by omega,high⟩

theorem grownHeapReserved {x} (reserved : Reserved ht x) : Reserved (grownHeap ht) x := by
  have held := grownHeapHeld ht
  have slot : ∀ i, i < ht.curSize → (grownHeap ht).heap i = ht.heap i := fun i hi => if_pos hi
  have used : (fun k => Held (grownHeap ht) k ∨ k = x) = fun k => Held ht k ∨ k = x := by
    funext k
    rw [held]
  have room := reserved.room
  have bounds := reserved.bounds
  constructor
  · refine ⟨fun i hi => ?_,fun i hi => ⟨i,hi,rfl⟩,fun _ hk => hk⟩
    have inside := reserved.range _ (reserved.placed.sound i hi)
    simp only [table] at inside ⊢
    rw [slot i hi,grownHeapIds ht inside.2]
    exact reserved.placed.position i hi
  · refine reserved.ordered.congr fun i hi => ?_
    simp only [slotValue,slot i hi]
    rfl
  · intro k hk
    exact reserved.labelled k ((held k).mp hk)
  · intro k hk
    have := reserved.range k ((held k).mp hk)
    simp only [grownHeap]
    omega
  · obtain ⟨chain,free,count⟩ := reserved.free
    have below : ∀ k, (Held ht k ∨ k = x) → k < ht.maxSize := by
      rintro k (old | rfl)
      · exact (reserved.range k old).2
      · exact bounds.2
    refine ⟨_,used ▸ grownHeapFree free below,?_⟩
    · simp only [List.length_append,List.length_map,List.length_range,grownHeap]
      omega
  · exact fun mem => reserved.fresh ((held x).mp mem)
  · simp only [grownHeap]
    omega
  · simp only [grownHeap]
    omega
  · rw [grownHeapIds ht (by omega)]
    exact reserved.zero
  · intro k hk
    exact reserved.normal k ((held k).mp hk)

structure Inserted (ht ht' : TimerHeap) (x : Int) (copy : EntryDup) : Prop where
  inv : HeapInv ht'
  held : ∀ k, Held ht' k ↔ Held ht k ∨ k = x
  dups : ht'.timerDups = Function.update ht.timerDups x copy
  perPoll : ht'.maxEntriesPerPoll = ht.maxEntriesPerPoll

theorem insertCopyInserted (st : State) (e : EntryPtr)
    (reserved : Reserved st.ht x) (room : st.ht.curSize + 3 ≤ st.ht.maxSize)
    (label : (st.entries e).timerId = x) (normal : Normal expires) :
    Inserted st.ht (insertCopy st e expires).ht x ⟨st.entries e,e,expires,none⟩ := by
  let copy : EntryDup := ⟨st.entries e,e,expires,none⟩
  let start : TimerHeap := { st.ht with timerDups := Function.update st.ht.timerDups x copy }
  have shape : (insertCopy st e expires).ht =
      { reheapUp start.curSize start x start.curSize (heapParent start.curSize) with
        curSize := (reheapUp start.curSize start x start.curSize (heapParent start.curSize)).curSize + 1 } := by
    simp only [insertCopy,label]
    rfl
  let items : Int → Prop := fun k => Held st.ht k ∨ k = x
  have other : ∀ k, Held st.ht k → k ≠ x := by
    rintro k hk rfl
    exact reserved.fresh hk
  have labelled : Labelled start items := by
    intro k hk
    by_cases same : k = x
    · simp only [start,same,Function.update_self,copy,label]
    · simp only [start,Function.update_of_ne same]
      exact reserved.labelled k (hk.resolve_right same)
  have value : ∀ i, i < st.ht.curSize → slotValue start i = slotValue st.ht i := by
    intro i hi
    simp only [slotValue,nodeValue,start]
    rw [Function.update_of_ne (other _ ⟨i,hi,rfl⟩)]
  have moving : Moving items (st.ht.curSize + 1) start st.ht.curSize x :=
    ⟨reserved.placed.append reserved.fresh,(reserved.ordered.congr value).aroundEnd,labelled⟩
  have done := reheapUpSpec st.ht.curSize moving belowEnd (le_refl _)
  obtain ⟨chain,free,count⟩ := reserved.free
  have inside : ∀ k, items k → 1 ≤ k ∧ k < start.maxSize := by
    rintro k (old | rfl)
    · exact reserved.range k old
    · exact reserved.bounds
  have normals : ∀ k, items k → Normal (nodeValue start k) := by
    intro k hk
    by_cases same : k = x
    · simpa only [nodeValue,start,same,Function.update_self,copy] using normal
    · simp only [nodeValue,start,Function.update_of_ne same]
      exact reserved.normal k (hk.resolve_right same)
  obtain ⟨result,heldIff⟩ := done.inv labelled inside
    (show FreeIds start items chain from ⟨free.walk,free.nodup,free.members⟩) (by simp only [start]; omega) room reserved.zero normals
  have frame := done.framed
  have size : (reheapUp start.curSize start x start.curSize (heapParent start.curSize)).curSize + 1 =
      st.ht.curSize + 1 := by
    rw [show (reheapUp start.curSize start x start.curSize (heapParent start.curSize)).curSize =
      start.curSize from frame.curSize]
  rw [shape,size]
  exact ⟨result,heldIff,frame.dups,frame.perPoll⟩

theorem insertNodeGranted (granted : pool.granted) (st : State) (e : EntryPtr) (reserved : Reserved st.ht x)
    (label : (st.entries e).timerId = x) (normal : Normal expires) : (insertNode pool st e expires).1 = .success ∧
    Inserted st.ht (insertNode pool st e expires).2.ht x ⟨st.entries e,e,expires,none⟩ ∧
    (insertNode pool st e expires).2.entries = st.entries ∧ (insertNode pool st e expires).2.log = st.log := by
  have room := reserved.room
  unfold insertNode
  split
  · rw [growHeapGranted granted]
    refine ⟨rfl,?_,rfl,rfl⟩
    have done := insertCopyInserted { st with ht := grownHeap st.ht } e
      (grownHeapReserved reserved) (by simp only [grownHeap]; omega) label normal
    exact ⟨done.inv,fun k => by rw [done.held k,grownHeapHeld],done.dups,done.perPoll⟩
  · exact ⟨rfl,insertCopyInserted st e reserved (by omega) label normal,rfl,rfl⟩

/- Copies that agree in what the heap reads of them carry the same invariant. -/
structure SameCopies (ht ht' : TimerHeap) : Prop where
  rest : ht' = { ht with timerDups := ht'.timerDups }
  label : ∀ k, (ht'.timerDups k).dup.timerId = (ht.timerDups k).dup.timerId
  value : ∀ k, (ht'.timerDups k).timerValue = (ht.timerDups k).timerValue

theorem SameCopies.held {ht ht'} (same : SameCopies ht ht') (k : Int) : Held ht' k ↔ Held ht k := by
  rw [same.rest]; rfl

theorem SameCopies.inv {ht ht'} (same : SameCopies ht ht') (inv : HeapInv ht) : HeapInv ht' := by
  have held : Held ht' = Held ht := funext fun k => propext (same.held k)
  have node : ∀ k, nodeValue ht' k = nodeValue ht k := same.value
  have slot : slotValue ht' = slotValue ht := by
    funext i
    rw [slotValue,node,same.rest,slotValue]
  have sizes : ht'.curSize = ht.curSize ∧ ht'.maxSize = ht.maxSize := by
    rw [same.rest]
    exact ⟨rfl,rfl⟩
  have arrays : table ht' = table ht ∧ ht'.timerIds = ht.timerIds ∧
      ht'.timerIdsFreelist = ht.timerIdsFreelist := by
    rw [same.rest]
    exact ⟨rfl,rfl,rfl⟩
  obtain ⟨chain,free,count⟩ := inv.free
  constructor
  · rw [arrays.1,sizes.1,held]
    exact inv.placed
  · rw [slot,sizes.1]
    exact inv.ordered
  · intro k hk
    rw [same.label]
    exact inv.labelled k ((same.held k).mp hk)
  · rw [held,sizes.2]
    exact inv.range
  · refine ⟨chain,⟨?_,free.nodup,?_⟩,by rw [sizes.1,sizes.2]; exact count⟩
    · rw [sizes.2,arrays.2.2,show nextFree ht' = nextFree ht from
        funext fun k => by rw [nextFree,nextFree,arrays.2.1]]
      exact free.walk
    · rw [held,sizes.2]
      exact free.members
  · rw [sizes.1,sizes.2]
    exact inv.room
  · rw [arrays.2.1]
    exact inv.zero
  · intro k hk
    rw [node]
    exact inv.normal k ((same.held k).mp hk)

structure Scheduled (st st' : State) (e : EntryPtr) (expires : TimeVal) : Prop where
  inv : Inv st'
  idle : pendingExpiry st e = none
  pending : pendingExpiry st' = Function.update (pendingExpiry st) e (some expires)
  log : st'.log = st.log ++ [.scheduled e expires]
  perPoll : st'.ht.maxEntriesPerPoll = st.ht.maxEntriesPerPoll

theorem insertedLink {ht' : TimerHeap} {entries entries' : EntryPtr → Entry} {e : EntryPtr}
    (link : LinkInv ht entries) (positive : ∀ k, Held ht k → 1 ≤ k) (idle : (entries e).timerId < 1)
    (fresh : ¬ Held ht x) (held : ∀ k, Held ht' k ↔ Held ht k ∨ k = x)
    (old : ∀ k, k ≠ x → ht'.timerDups k = ht.timerDups k)
    (mine : (ht'.timerDups x).entry = e) (label : (entries' e).timerId = x)
    (content : (ht'.timerDups x).dup.cb = (entries' e).cb ∧
      (ht'.timerDups x).dup.userData = (entries' e).userData ∧ (entries' e).cb ≠ none)
    (others : ∀ d, d ≠ e → entries' d = entries d) : LinkInv ht' entries' := by
  have apart : ∀ k, Held ht k → (ht.timerDups k).entry ≠ e := by
    intro k hk same
    have owner := link.owner k hk
    rw [same] at owner
    have := positive k hk
    omega
  constructor
  · intro k hk
    by_cases same : k = x
    · rw [same,mine,label]
    · have before := ((held k).mp hk).resolve_right same
      rw [old k same,others _ (apart k before)]
      exact link.owner k before
  · intro k hk
    by_cases same : k = x
    · rw [same,mine]
      exact content
    · have before := ((held k).mp hk).resolve_right same
      rw [old k same,others _ (apart k before)]
      exact link.copied k before
  · intro d up
    by_cases same : d = e
    · rw [same,label]
      exact ⟨(held x).mpr (.inr rfl),mine⟩
    · rw [others d same] at up ⊢
      obtain ⟨before,owned⟩ := link.running d up
      have other : (entries d).timerId ≠ x := fun equal => fresh (equal ▸ before)
      rw [old _ other]
      exact ⟨(held _).mpr (.inl before),owned⟩

theorem scheduleEntryGranted (granted : pool.granted) {st : State} (inv : Inv st)
    {e : EntryPtr} (normal : Normal expires) :
    ∃ x st', scheduleEntry pool st e expires = (.success, st') ∧ ¬ Held st.ht x ∧ 1 ≤ x ∧
      Inserted st.ht st'.ht x ⟨{ st.entries e with timerId := x },e,expires,none⟩ ∧
      st'.entries = Function.update st.entries e { st.entries e with timerId := x } ∧
      st'.log = st.log := by
  have reserved := popFreelistReserved inv.heap
  have room := inv.heap.room
  let popped : State := { st with
    ht := (popFreelist st.ht).2
    entries := Function.update st.entries e { st.entries e with timerId := (popFreelist st.ht).1 } }
  have inserted := insertNodeGranted granted popped e reserved
    (by simp only [popped,Function.update_self]) normal
  refine ⟨(popFreelist st.ht).1,(insertNode pool popped e expires).2,?_,reserved.fresh,
    reserved.bounds.1,?_,inserted.2.2.1,inserted.2.2.2⟩
  · unfold scheduleEntry
    rw [if_pos (by omega)]
    exact Prod.ext inserted.1 rfl
  · have done := inserted.2.1
    simp only [popped,Function.update_self] at done
    exact ⟨done.inv,done.held,done.dups,done.perPoll⟩

theorem scheduleGranted {st : State} (inv : Inv st) {a : ScheduleArgs} (granted : a.pool.granted) :
    ((scheduleWGrpLock st a).1 ≠ .success ∧ (scheduleWGrpLock st a).2 = st) ∨
    ((scheduleWGrpLock st a).1 = .success ∧
      Scheduled st (scheduleWGrpLock st a).2 a.entry (timeValAdd a.tick.time a.delay)) := by
  unfold scheduleWGrpLock
  split
  · exact .inl ⟨by simp,rfl⟩
  rename_i callback
  simp only
  split
  · exact .inl ⟨by simp,rfl⟩
  rename_i stopped
  have idle : (st.entries a.entry).timerId < 1 := by
    simp only [timerEntryRunning,decide_eq_true_eq] at stopped
    omega
  generalize expiry : timeValAdd a.tick.time a.delay = expires
  have normal : Normal expires := by rw [← expiry]; exact normalizeNormal _
  obtain ⟨x,mid,result,fresh,positive,inserted,entries,log⟩ :=
    scheduleEntryGranted granted inv (e := a.entry) normal
  rw [result]
  refine .inr ⟨rfl,?_⟩
  have label : (mid.entries a.entry).timerId = x := by rw [entries,Function.update_self]
  have stored : mid.ht.timerDups x = ⟨{ st.entries a.entry with timerId := x },a.entry,expires,none⟩ := by
    rw [inserted.dups,Function.update_self]
  have others : ∀ d, d ≠ a.entry → mid.entries d = st.entries d := by
    intro d other
    rw [entries,Function.update_of_ne other]
  have olds : ∀ k, k ≠ x → mid.ht.timerDups k = st.ht.timerDups k := by
    intro k other
    rw [inserted.dups,Function.update_of_ne other]
  simp only [label,stored]
  -- the ids and the group lock that are set last are not read by the invariant
  constructor
  · constructor
    · refine SameCopies.inv ⟨rfl,fun k => ?_,fun k => ?_⟩ inserted.inv <;> by_cases same : k = x
      · simp only [same,Function.update_self,stored]
      · simp only [Function.update_of_ne same]
      · simp only [same,Function.update_self,stored]
      · simp only [Function.update_of_ne same]
    · refine insertedLink inv.link (fun k hk => (inv.heap.range k hk).1) idle fresh inserted.held
        (e := a.entry) ?_ ?_ ?_ ?_ ?_
      · intro k other
        simp only [Function.update_of_ne other]
        exact olds k other
      · simp only [Function.update_self]
      · simp only [Function.update_self]
      · simp only [Function.update_self,entries]
        exact ⟨trivial,trivial,callback⟩
      · intro d other
        simp only [Function.update_of_ne other]
        exact others d other
  · exact if_neg (by omega)
  · funext d
    by_cases mine : d = a.entry
    · simp only [mine,Function.update_self,pendingExpiry,nodeValue,if_pos positive]
    · simp only [Function.update_of_ne mine,pendingExpiry,others d mine]
      by_cases up : 1 ≤ (st.entries d).timerId
      · have other : (st.entries d).timerId ≠ x := fun same => fresh (same ▸ (inv.link.running d up).1)
        simp only [if_pos up,nodeValue,Function.update_of_ne other,olds _ other]
      · simp only [if_neg up]
  · simp only [log]
  · exact inserted.perPoll

end Pjproject.Timer
