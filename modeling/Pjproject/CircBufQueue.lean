import Pjproject.CircBuf

/-! The circular buffer refines a bounded queue: what lies between the start and the end is the queue, and what lies behind it, up to
the start again, is what the two write regions hold. -/
namespace Pjproject.CircBuffer
open Lib.Spans

structure Good (cb : CircBuf) : Prop where
  small : cb.capacity < 2 ^ 32
  inside : cb.start = 0 ∨ cb.start < cb.capacity
  fits : cb.len ≤ cb.capacity

section Arithmetic

theorem subSmall {a b : Nat} (less : b ≤ a) (small : a < 2 ^ 32) : sub32 a b = a - b := by
  unfold sub32
  rw [show a + (2 ^ 32 - b) = (a - b) + 2 ^ 32 from by omega,Nat.add_mod_right,Nat.mod_eq_of_lt (by omega)]

theorem addSmall {a b : Nat} (small : a + b < 2 ^ 32) : add32 a b = a + b := Nat.mod_eq_of_lt small

theorem copiedSmall {count : Nat} (small : count < 2 ^ 31) : copied count = count := by
  unfold copied
  rw [Nat.mod_eq_of_lt (by omega),Nat.mul_div_cancel _ Nat.two_pos]

end Arithmetic

variable {cb : CircBuf}

theorem contentsStraight (straight : cb.start + cb.len ≤ cb.capacity) : cb.contents = span cb.buf cb.start cb.len := by
  unfold CircBuf.contents CircBuf.getReadRegions
  rw [if_neg (by omega)]
  exact List.append_nil _

theorem contentsWrapped (good : Good cb) (wraps : cb.capacity ≤ cb.start + cb.len) :
    cb.contents = span cb.buf cb.start (cb.capacity - cb.start) ++ span cb.buf 0 (cb.start + cb.len - cb.capacity) := by
  obtain ⟨small,inside,fits⟩ := good
  rcases Nat.lt_or_eq_of_le wraps with more | ends
  · unfold CircBuf.contents CircBuf.getReadRegions
    rw [if_pos more,subSmall (by omega) (by omega),show cb.start + cb.len - cb.capacity = cb.len - (cb.capacity - cb.start) by omega]
    rfl
  · rw [contentsStraight (by omega),show cb.start + cb.len - cb.capacity = 0 by omega,spanNil,List.append_nil]
    congr 1
    omega

theorem contentsLength (good : Good cb) : cb.contents.length = cb.len := by
  rcases Nat.le_total (cb.start + cb.len) cb.capacity with straight | wraps
  · rw [contentsStraight straight,spanLength]
  · obtain ⟨small,inside,fits⟩ := id good
    rw [contentsWrapped good wraps,List.length_append,spanLength,spanLength]
    omega

theorem spareStraight (good : Good cb) (straight : cb.start + cb.len < cb.capacity) :
    cb.spare = span cb.buf (cb.start + cb.len) (cb.capacity - (cb.start + cb.len)) ++ span cb.buf 0 cb.start := by
  obtain ⟨small,inside,fits⟩ := good
  unfold CircBuf.spare CircBuf.getWriteRegions
  simp only [subSmall fits small,if_neg (Nat.not_le_of_lt straight)]
  split
  · rfl
  · rw [show cb.start = 0 by omega,spanNil,Nat.zero_add]
    rfl

theorem spareWrapped (good : Good cb) (wraps : cb.capacity ≤ cb.start + cb.len) :
    cb.spare = span cb.buf (cb.start + cb.len - cb.capacity) (cb.capacity - cb.len) := by
  obtain ⟨small,inside,fits⟩ := good
  unfold CircBuf.spare CircBuf.getWriteRegions
  simp only [subSmall fits small,if_pos wraps]
  rw [if_neg (by omega)]
  exact List.append_nil _

theorem spareLength (good : Good cb) : cb.spare.length = cb.capacity - cb.len := by
  obtain ⟨small,inside,fits⟩ := id good
  rcases Nat.lt_or_ge (cb.start + cb.len) cb.capacity with straight | wraps
  · rw [spareStraight good straight,List.length_append,spanLength,spanLength]
    omega
  · rw [spareWrapped good wraps,spanLength]

/- The ring from the start around to the start again. -/
def ring (cb : CircBuf) : List Sample := span cb.buf cb.start (cb.capacity - cb.start) ++ span cb.buf 0 cb.start

theorem ringSplits (good : Good cb) : cb.contents ++ cb.spare = ring cb := by
  obtain ⟨small,inside,fits⟩ := id good
  rcases Nat.lt_or_ge (cb.start + cb.len) cb.capacity with straight | wraps
  · rw [contentsStraight straight.le,spareStraight good straight,← List.append_assoc,← spanAppend,ring,
      show cb.len + (cb.capacity - (cb.start + cb.len)) = cb.capacity - cb.start by omega]
  · rw [contentsWrapped good wraps,spareWrapped good wraps,List.append_assoc,ring]
    have rest := spanAppend cb.buf 0 (cb.start + cb.len - cb.capacity) (cb.capacity - cb.len)
    rw [Nat.zero_add] at rest
    rw [← rest,show cb.start + cb.len - cb.capacity + (cb.capacity - cb.len) = cb.start by omega]

theorem contentsTake (good : Good cb) : cb.contents = (ring cb).take cb.len := by
  rw [← ringSplits good,List.take_left' (contentsLength good)]

theorem resetContents (cb : CircBuf) : cb.reset.contents = [] := by
  exact contentsStraight (Nat.zero_le cb.capacity : cb.reset.start + cb.reset.len ≤ cb.reset.capacity)

theorem resetGood (good : Good cb) : Good cb.reset := ⟨good.small,.inl rfl,Nat.zero_le _⟩

theorem lengthened (good : Good cb) {len : Nat} (fits : len ≤ cb.capacity) :
    Good { cb with len } ∧ CircBuf.contents { cb with len } = (cb.contents ++ cb.spare).take len := by
  have now : Good { cb with len } := ⟨good.small,good.inside,fits⟩
  refine ⟨now,?_⟩
  rw [contentsTake now,ringSplits good]
  rfl

theorem advReadGood (good : Good cb) (count : Nat) : Good (cb.advReadPtr count) := by
  obtain ⟨small,inside,fits⟩ := id good
  unfold CircBuf.advReadPtr
  split
  · exact resetGood good
  · refine ⟨small,.inr ?_,?_⟩ <;> dsimp only
    · split <;> omega
    · omega

theorem advReadCapacity (count : Nat) : (cb.advReadPtr count).capacity = cb.capacity := by
  unfold CircBuf.advReadPtr
  split <;> rfl

theorem advReadCells (count : Nat) : (cb.advReadPtr count).buf = cb.buf := by
  unfold CircBuf.advReadPtr
  split <;> rfl

theorem advReadContents (good : Good cb) (count : Nat) : (cb.advReadPtr count).contents = cb.contents.drop count := by
  have good' := advReadGood good count
  obtain ⟨small,inside,fits⟩ := id good
  by_cases all : cb.len ≤ count
  · rw [List.drop_of_length_le (by rw [contentsLength good]; exact all)]
    unfold CircBuf.advReadPtr
    rw [if_pos all,resetContents]
  · unfold CircBuf.advReadPtr at good' ⊢
    rw [if_neg all] at good' ⊢
    rcases Nat.lt_or_ge (cb.start + count) cb.capacity with before | past
    · simp only [if_neg (Nat.not_le_of_lt before)] at good' ⊢
      rcases Nat.le_total (cb.start + cb.len) cb.capacity with straight | wraps
      · rw [contentsStraight straight,contentsStraight (by dsimp only; omega),spanDrop _ _ (by omega)]
      · rw [contentsWrapped good wraps,contentsWrapped good' (by dsimp only; omega),
          List.drop_append_of_le_length (by rw [spanLength]; omega),spanDrop _ _ (by omega)]
        dsimp only
        rw [Nat.sub_sub,show cb.start + count + (cb.len - count) = cb.start + cb.len by omega]
    · simp only [if_pos past] at good' ⊢
      rw [contentsWrapped good (by omega),contentsStraight (by dsimp only; omega),List.drop_append,
        List.drop_of_length_le (by rw [spanLength]; omega),List.nil_append,spanLength,spanDrop _ _ (by omega)]
      dsimp only
      rw [Nat.zero_add,show count - (cb.capacity - cb.start) = cb.start + count - cb.capacity by omega,
        show cb.start + cb.len - cb.capacity - (cb.start + count - cb.capacity) = cb.len - count by omega]

variable {count i : Nat} {data : List Sample}

theorem advWriteIs (small : count + cb.len < 2 ^ 32) : cb.advWritePtr count =
      if count + cb.len ≤ cb.capacity then (.ok, { cb with len := cb.len + count }) else (.tooBig, cb) := by
  unfold CircBuf.advWritePtr
  rw [addSmall small,addSmall (by omega)]
  by_cases more : cb.capacity < count + cb.len
  · rw [if_pos more,if_neg (by omega)]
  · rw [if_neg more,if_pos (by omega)]

theorem writeRegions (good : Good cb) : cb.getWriteRegions = if cb.start + cb.len < cb.capacity ∧ 0 < cb.start then
      ⟨cb.start + cb.len,cb.capacity - (cb.start + cb.len),some 0,cb.start⟩
    else ⟨if cb.capacity ≤ cb.start + cb.len then cb.start + cb.len - cb.capacity else cb.start + cb.len,cb.capacity - cb.len,
      none,0⟩ := by
  obtain ⟨small,inside,fits⟩ := good
  unfold CircBuf.getWriteRegions
  simp only [subSmall fits small]
  by_cases wraps : cb.capacity ≤ cb.start + cb.len
  · rw [if_pos wraps,if_neg (by omega),if_neg (by omega)]
  · rw [if_neg wraps]
    by_cases turned : 0 < cb.start
    · rw [if_pos (by omega),if_pos ⟨by omega,turned⟩]
    · rw [if_neg (by omega),if_neg (by omega)]

/- What the cells hold once the samples are stored behind the contents. -/
structure Stored (cb : CircBuf) (data : List Sample) (buf : Nat → Sample) : Prop where
  appended : CircBuf.contents { cb with buf, len := cb.len + data.length } = cb.contents ++ data
  beyond : ∀ i, cb.capacity ≤ i → buf i = cb.buf i

theorem storedBehind (near : cb.start + cb.len + data.length ≤ cb.capacity) :
    Stored cb data (store cb.buf (cb.start + cb.len) data) := by
  refine ⟨?_,fun i high => storeOutside (by omega)⟩
  rw [contentsStraight (show cb.start + (cb.len + data.length) ≤ cb.capacity by omega),contentsStraight (by omega)]
  dsimp only
  rw [spanAppend,spanStored,spanApart (by omega)]

theorem storedAround (good : Good cb) (straight : cb.start + cb.len ≤ cb.capacity)
    (across : cb.capacity < cb.start + cb.len + data.length) (fits : cb.len + data.length ≤ cb.capacity) :
    Stored cb data (store (store cb.buf (cb.start + cb.len) (data.take (cb.capacity - (cb.start + cb.len)))) 0
      (data.drop (cb.capacity - (cb.start + cb.len)))) := by
  have front : (data.take (cb.capacity - (cb.start + cb.len))).length = cb.capacity - (cb.start + cb.len) := by
    rw [List.length_take]
    omega
  have back : (data.drop (cb.capacity - (cb.start + cb.len))).length = cb.start + cb.len + data.length - cb.capacity := by
    rw [List.length_drop]
    omega
  have good' : ∀ buf, Good { cb with buf, len := cb.len + data.length } := fun buf => ⟨good.small,good.inside,fits⟩
  refine ⟨?_,fun i high => ?_⟩
  · rw [contentsWrapped (good' _) (by dsimp only; omega),contentsStraight straight]
    dsimp only
    rw [spanApart (by omega),show cb.start + (cb.len + data.length) - cb.capacity = _ from
      (by omega : _ = cb.start + cb.len + data.length - cb.capacity).trans back.symm,spanStored,
      show cb.capacity - cb.start = cb.len + (cb.capacity - (cb.start + cb.len)) by omega,spanAppend,spanApart (by omega)]
    have stored := spanStored cb.buf (cb.start + cb.len) (data.take (cb.capacity - (cb.start + cb.len)))
    rw [front] at stored
    rw [stored,List.append_assoc,List.take_append_drop]
  · rw [storeOutside (by omega),storeOutside (by omega)]

theorem storedBefore (good : Good cb) (wraps : cb.capacity ≤ cb.start + cb.len)
    (fits : cb.len + data.length ≤ cb.capacity) : Stored cb data (store cb.buf (cb.start + cb.len - cb.capacity) data) := by
  obtain ⟨small,inside,_⟩ := id good
  have good' : Good { cb with buf := store cb.buf (cb.start + cb.len - cb.capacity) data, len := cb.len + data.length } :=
    ⟨small,inside,fits⟩
  refine ⟨?_,fun i high => storeOutside (by omega)⟩
  rw [contentsWrapped good' (by dsimp only; omega),contentsWrapped good wraps]
  dsimp only
  rw [spanApart (by omega),List.append_assoc,
    show cb.start + (cb.len + data.length) - cb.capacity = cb.start + cb.len - cb.capacity + data.length by omega,spanAppend,
    Nat.zero_add,spanStored,spanApart (by omega)]

theorem writeRefused (good : Good cb) (more : cb.capacity - cb.len < data.length) :
    cb.write data = (.tooBig, cb) := by
  unfold CircBuf.write
  rw [subSmall good.fits good.small,if_pos more]

theorem writeStores (good : Good cb) (fits : data.length ≤ cb.capacity - cb.len) (small : data.length < 2 ^ 31) :
    ∃ buf, cb.write data = (.ok, { cb with buf, len := cb.len + data.length }) ∧ Stored cb data buf := by
  obtain ⟨small',inside,fits'⟩ := id good
  have advanced (buf : Nat → Sample) : ({ cb with buf } : CircBuf).advWritePtr data.length =
      (.ok, { cb with buf, len := cb.len + data.length }) := by
    rw [advWriteIs (by dsimp only; omega),if_pos (by dsimp only; omega)]
  unfold CircBuf.write
  rw [subSmall fits' small',if_neg (by omega)]
  by_cases wraps : cb.capacity ≤ cb.start + cb.len
  · have before : cb.getWriteRegions = ⟨cb.start + cb.len - cb.capacity,cb.capacity - cb.len,none,0⟩ := by
      rw [writeRegions good,if_neg (by omega),if_pos wraps]
    simp only [before,advanced,if_pos fits,copiedSmall small,List.take_length]
    exact ⟨_,rfl,storedBefore good wraps (by omega)⟩
  · by_cases turned : 0 < cb.start
    · have around : cb.getWriteRegions = ⟨cb.start + cb.len,cb.capacity - (cb.start + cb.len),some 0,cb.start⟩ := by
        rw [writeRegions good,if_pos (by omega)]
      simp only [around,advanced,Option.getD_some]
      by_cases near : cb.start + cb.len + data.length ≤ cb.capacity
      · rw [if_pos (by omega),copiedSmall small,List.take_length]
        exact ⟨_,rfl,storedBehind near⟩
      · rw [if_neg (by omega),copiedSmall (by omega),copiedSmall (by omega),← List.length_drop,List.take_length]
        exact ⟨_,rfl,storedAround good (by omega) (by omega) (by omega)⟩
    · have behind : cb.getWriteRegions = ⟨cb.start + cb.len,cb.capacity - cb.len,none,0⟩ := by
        rw [writeRegions good,if_neg (by omega),if_neg wraps]
      simp only [behind,advanced,if_pos fits,copiedSmall small,List.take_length]
      exact ⟨_,rfl,storedBehind (by omega)⟩

theorem readRegionsWrapped (good : Good cb) (wraps : cb.capacity < cb.start + cb.len) :
    cb.getReadRegions = ⟨cb.start,cb.capacity - cb.start,some 0,cb.start + cb.len - cb.capacity⟩ := by
  obtain ⟨small,inside,fits⟩ := good
  unfold CircBuf.getReadRegions
  rw [if_pos wraps,subSmall (by omega) (by omega),show cb.len - (cb.capacity - cb.start) = cb.start + cb.len - cb.capacity by omega]

theorem readRegionsStraight (straight : cb.start + cb.len ≤ cb.capacity) : cb.getReadRegions = ⟨cb.start,cb.len,none,0⟩ := by
  unfold CircBuf.getReadRegions
  rw [if_neg (by omega)]

theorem readTakes (good : Good cb) (fits : count ≤ cb.len) (small : count < 2 ^ 31) :
    cb.read count = (.samples (cb.contents.take count), cb.advReadPtr count) := by
  unfold CircBuf.read
  rw [if_neg (by omega)]
  rcases Nat.lt_or_ge cb.capacity (cb.start + cb.len) with wraps | straight
  · rw [readRegionsWrapped good wraps,contentsWrapped good wraps.le,List.take_append,spanLength]
    dsimp only
    by_cases first : count ≤ cb.capacity - cb.start
    · rw [if_pos first,copiedSmall small,spanTake _ _ first,Nat.sub_eq_zero_of_le first,List.take_zero,List.append_nil]
    · rw [if_neg first,copiedSmall (by omega),copiedSmall (by omega),
        List.take_of_length_le (by rw [spanLength]; omega : (span cb.buf cb.start _).length ≤ count),spanTake _ _ (by omega)]
      rfl
  · rw [readRegionsStraight straight,contentsStraight straight,spanTake _ _ fits]
    dsimp only
    rw [if_pos fits,copiedSmall small]

theorem copyTakes (good : Good cb) {startIdx : Nat} (fits : count + startIdx ≤ cb.len) (small : count < 2 ^ 31) :
    cb.copy startIdx count = .samples ((cb.contents.drop startIdx).take count) := by
  obtain ⟨small',inside,fits'⟩ := id good
  unfold CircBuf.copy
  rw [addSmall (by omega),if_neg (by omega)]
  rcases Nat.lt_or_ge cb.capacity (cb.start + cb.len) with wraps | straight
  · rw [readRegionsWrapped good wraps,contentsWrapped good wraps.le,List.drop_append,spanLength]
    dsimp only
    by_cases first : startIdx < cb.capacity - cb.start
    · rw [if_pos first,Nat.sub_eq_zero_of_le first.le,List.drop_zero,spanDrop _ _ first.le,List.take_append,spanLength]
      by_cases within : count ≤ cb.capacity - cb.start - startIdx
      · rw [Nat.min_eq_right within,if_neg (by omega),copiedSmall small,spanTake _ _ within,Nat.sub_eq_zero_of_le within,
          List.take_zero]
      · rw [Nat.min_eq_left (by omega),if_pos (by omega),copiedSmall (by omega),copiedSmall (by omega),
          List.take_of_length_le (by rw [spanLength]; omega),spanTake _ _ (by omega)]
        rfl
    · rw [if_neg first,List.drop_of_length_le (by rw [spanLength]; omega),List.nil_append,spanDrop _ _ (by omega),
        spanTake _ _ (by omega),copiedSmall small,Option.getD_some,Nat.zero_add,Nat.zero_add]
  · rw [readRegionsStraight straight,contentsStraight straight,spanDrop _ _ (by omega),spanTake _ _ (by omega)]
    dsimp only
    by_cases first : startIdx < cb.len
    · rw [if_pos first,Nat.min_eq_right (by omega),if_neg (by omega),copiedSmall small,List.append_nil]
    · rw [if_neg first,show count = 0 by omega]
      rfl

section Rolling
variable {buf1 buf2 : Nat → Sample} {capacity reg1 reg1cnt : Nat}

theorem rolledOnce (buf buf3 : Nat → Sample) (gap reg2cnt : Nat) (top : reg1 + reg1cnt = capacity) (low : reg2cnt ≤ reg1 - gap)
    (room : gap ≤ reg1) (less : gap ≤ reg2cnt) (down : buf1 = store buf (reg1 - gap) (span buf reg1 reg1cnt))
    (behind : buf2 = store buf1 (reg1 + reg1cnt - gap) (span buf1 0 gap))
    (closed : buf3 = if gap < reg2cnt then store buf2 0 (span buf2 gap (reg2cnt - gap)) else buf2) :
    span buf3 (reg1 - gap) (reg1cnt + gap) ++ span buf3 0 (reg2cnt - gap) = span buf reg1 reg1cnt ++ span buf 0 reg2cnt ∧
      ∀ i, capacity ≤ i → buf3 i = buf i := by
  have below (p n : Nat) (low' : p + n ≤ reg2cnt) : span buf2 p n = span buf p n := by
    rw [behind,spanApart (by omega),down,spanApart (by omega)]
  have moved : span buf2 (reg1 - gap) (reg1cnt + gap) = span buf reg1 reg1cnt ++ span buf 0 gap := by
    rw [spanAppend,show reg1 - gap + reg1cnt = reg1 + reg1cnt - gap by omega]
    have second : span buf1 0 gap = span buf 0 gap := by rw [down,spanApart (by omega)]
    have kept := spanStored buf1 (reg1 + reg1cnt - gap) (span buf1 0 gap)
    rw [spanLength,← behind,second] at kept
    have first := spanStored buf (reg1 - gap) (span buf reg1 reg1cnt)
    rw [spanLength,← down] at first
    rw [kept,behind,spanApart (by omega),first]
  have outside (i : Nat) (high : capacity ≤ i) : buf2 i = buf i := by
    rw [behind,storeOutside (by rw [spanLength]; omega),down,storeOutside (by rw [spanLength]; omega)]
  by_cases more : gap < reg2cnt
  · rw [if_pos more,below gap _ (by omega)] at closed
    have rest := spanStored buf2 0 (span buf gap (reg2cnt - gap))
    rw [spanLength,← closed] at rest
    refine ⟨?_,fun i high => ?_⟩
    · have apart : span buf3 (reg1 - gap) (reg1cnt + gap) = span buf2 (reg1 - gap) (reg1cnt + gap) := by
        rw [closed,spanApart (by rw [spanLength]; omega)]
      have joined := spanAppend buf 0 gap (reg2cnt - gap)
      rw [Nat.zero_add,Nat.add_sub_cancel' less] at joined
      rw [apart,moved,rest,joined,List.append_assoc]
    · rw [closed,storeOutside (by rw [spanLength]; omega),outside i high]
  · rw [if_neg more] at closed
    obtain rfl : gap = reg2cnt := by omega
    rw [closed,Nat.sub_self,moved,spanNil,List.append_nil]
    exact ⟨rfl,outside⟩

theorem rolls (fuel gap : Nat) (buf : Nat → Sample) (reg1 reg1cnt reg2cnt : Nat) (top : reg1 + reg1cnt = capacity)
    (turned : reg1 = gap + reg2cnt) (positive : 0 < gap) (more : 0 < reg2cnt) (enough : reg2cnt ≤ fuel)
    (small : reg1cnt + reg2cnt < 2 ^ 31) :
    ∃ buf' low, CircBuf.rollLeft fuel buf reg1 reg1cnt reg2cnt gap = some (buf', low) ∧ low + (reg1cnt + reg2cnt) = capacity ∧
      span buf' low (reg1cnt + reg2cnt) = span buf reg1 reg1cnt ++ span buf 0 reg2cnt ∧ ∀ i, capacity ≤ i → buf' i = buf i := by
  induction fuel generalizing buf reg1 reg1cnt reg2cnt with
  | zero => omega
  | succ fuel ih =>
    unfold CircBuf.rollLeft
    by_cases fits : reg2cnt ≤ gap
    · have short : (if reg2cnt < gap then reg2cnt else gap) = reg2cnt := by split <;> omega
      simp only [short]
      rw [if_neg (by omega),if_neg (by omega),copiedSmall (by omega),copiedSmall (by omega)]
      obtain ⟨same,outside⟩ := rolledOnce buf (store _ _ _) reg2cnt reg2cnt top (by omega) (by omega) le_rfl rfl rfl
        (if_neg (Nat.lt_irrefl _)).symm
      rw [Nat.sub_self,spanNil,List.append_nil] at same
      exact ⟨_,_,rfl,by omega,same,outside⟩
    · have long : (if reg2cnt < gap then reg2cnt else gap) = gap := if_neg (by omega)
      simp only [long]
      rw [if_pos (by omega),if_pos (by omega),copiedSmall (by omega),copiedSmall (by omega),copiedSmall (by omega)]
      obtain ⟨same,outside⟩ := rolledOnce buf (store _ _ _) gap reg2cnt top (by omega) (by omega) (by omega) rfl rfl
        (if_pos (by omega)).symm
      obtain ⟨buf',low,ends,high,kept,beyond⟩ := ih (store _ _ _) (reg1 - gap) (reg1cnt + gap) (reg2cnt - gap)
        (by omega) (by omega) (by omega) (by omega) (by omega)
      rw [show reg1cnt + gap + (reg2cnt - gap) = reg1cnt + reg2cnt by omega] at high kept
      exact ⟨buf',low,ends,high,kept.trans same,fun i far => (beyond i far).trans (outside i far)⟩

end Rolling

theorem shiftedLeft (good : Good cb) (buf : Nat → Sample) (reg1 : Nat) (small : cb.len < 2 ^ 31) :
    Good (cb.shiftLeft buf reg1) ∧ (cb.shiftLeft buf reg1).contents = span buf reg1 cb.len ∧
      ∀ i, cb.capacity ≤ i → (cb.shiftLeft buf reg1).buf i = buf i := by
  obtain ⟨small',inside,fits⟩ := good
  refine ⟨⟨small',.inl rfl,fits⟩,?_,fun i high => ?_⟩
  · rw [contentsStraight (show 0 + cb.len ≤ cb.capacity by omega)]
    unfold CircBuf.shiftLeft
    rw [copiedSmall small]
    dsimp only
    split
    · have stored := spanStored buf 0 (span buf reg1 cb.len)
      rwa [spanLength] at stored
    · rename_i low
      rw [Decidable.not_not.mp low]
  · unfold CircBuf.shiftLeft
    rw [copiedSmall small]
    dsimp only
    split
    · exact storeOutside (by rw [spanLength]; omega)
    · rfl

theorem packs (good : Good cb) (small : cb.len < 2 ^ 31) :
    cb.packBuffer = (.tooBig, cb) ∧ cb.len = cb.capacity ∧ 0 < cb.start ∨
      ∃ cb', cb.packBuffer = (.ok, cb') ∧ Good cb' ∧ cb'.start = 0 ∧ cb'.capacity = cb.capacity ∧ cb'.contents = cb.contents ∧
        ∀ i, cb.capacity ≤ i → cb'.buf i = cb.buf i := by
  obtain ⟨small',inside,fits⟩ := id good
  unfold CircBuf.packBuffer
  rcases Nat.lt_or_ge cb.capacity (cb.start + cb.len) with wraps | straight
  · rw [readRegionsWrapped good wraps,subSmall fits small']
    dsimp only
    rw [if_pos (by omega)]
    by_cases full : cb.capacity - cb.len = 0
    · rw [if_pos full]
      exact .inl ⟨rfl,by omega,by omega⟩
    · rw [if_neg full]
      obtain ⟨buf,low,ends,high,kept,beyond⟩ := rolls (cb.start + cb.len - cb.capacity) (cb.capacity - cb.len) cb.buf cb.start
        (cb.capacity - cb.start) (cb.start + cb.len - cb.capacity) (by omega : _ = cb.capacity) (by omega) (by omega) (by omega) le_rfl
        (by omega)
      rw [show cb.capacity - cb.start + (cb.start + cb.len - cb.capacity) = cb.len by omega] at high kept
      obtain ⟨good',same,outside⟩ := shiftedLeft good buf low small
      rw [ends]
      exact .inr ⟨_,rfl,good',rfl,rfl,same.trans (kept.trans (contentsWrapped good wraps.le).symm),
        fun i far => (outside i far).trans (beyond i far)⟩
  · rw [readRegionsStraight straight]
    dsimp only
    rw [if_neg (by omega)]
    obtain ⟨good',same,outside⟩ := shiftedLeft good cb.buf cb.start small
    exact .inr ⟨_,rfl,good',rfl,rfl,same.trans (contentsStraight straight).symm,outside⟩

theorem stepGood (good : Good cb) (op : Op) (sound : Sound cb op) :
    Good (step cb op).2 ∧ (step cb op).2.capacity = cb.capacity := by
  cases op with
  | write data =>
    by_cases fits : data.length ≤ cb.capacity - cb.len
    · obtain ⟨buf,stores,_⟩ := writeStores good fits (sound fits)
      rw [step,stores]
      have room := good.fits
      exact ⟨⟨good.small,good.inside,by dsimp only; omega⟩,rfl⟩
    · rw [step,writeRefused good (by omega)]
      exact ⟨good,rfl⟩
  | read count =>
    by_cases fits : count ≤ cb.len
    · rw [step,readTakes good fits (sound fits)]
      exact ⟨advReadGood good count,advReadCapacity count⟩
    · rw [step,CircBuf.read,if_pos (by omega)]
      exact ⟨good,rfl⟩
  | copy | getReadRegions | getWriteRegions => exact ⟨good,rfl⟩
  | advReadPtr count => exact ⟨advReadGood good count,advReadCapacity count⟩
  | advWritePtr =>
    rw [step,advWriteIs sound]
    split
    · exact ⟨⟨good.small,good.inside,by dsimp only; omega⟩,rfl⟩
    · exact ⟨good,rfl⟩
  | setLen => exact ⟨(lengthened good sound).1,rfl⟩
  | packBuffer =>
    rw [step]
    rcases packs good sound with ⟨refused,_,_⟩ | ⟨cb',packed,good',_,same,_⟩
    · rw [refused]
      exact ⟨good,rfl⟩
    · rw [packed]
      exact ⟨good',same⟩
  | reset => exact ⟨resetGood good,rfl⟩

theorem stepFollows (good : Good cb) (op : Op) (sound : Sound cb op) :
    Follows cb.capacity (·.samples cb.buf) cb.spare cb.contents op (step cb op).1 (step cb op).2.contents := by
  have length := contentsLength good
  cases op with
  | write data =>
    rw [Follows,length]
    split
    · rename_i fits
      obtain ⟨buf,stores,stored⟩ := writeStores good fits (sound fits)
      rw [step,stores]
      exact ⟨rfl,stored.appended⟩
    · rw [step,writeRefused good (by omega)]
      exact ⟨rfl,rfl⟩
  | read count =>
    rw [Follows,length]
    split
    · rename_i fits
      rw [step,readTakes good fits (sound fits)]
      exact ⟨rfl,advReadContents good count⟩
    · rw [step,CircBuf.read,if_pos (by omega)]
      exact ⟨rfl,rfl⟩
  | copy startIdx count =>
    rw [Follows,length]
    refine ⟨rfl,?_⟩
    split
    · rename_i fits
      exact copyTakes good fits (sound.2 fits)
    · rw [step,CircBuf.copy,addSmall sound.1,if_pos (by omega)]
  | advReadPtr count => exact ⟨rfl,advReadContents good count⟩
  | advWritePtr count =>
    have fits := good.fits
    rw [Follows,length,step,advWriteIs sound]
    split
    · rw [if_pos (by omega)]
      have more : cb.len + count ≤ cb.capacity := by omega
      refine ⟨rfl,(lengthened good more).2.trans ?_⟩
      rw [← length,List.take_length_add_append]
    · rw [if_neg (by omega)]
      exact ⟨rfl,rfl⟩
  | setLen => exact ⟨rfl,(lengthened good sound).2⟩
  | getReadRegions => exact ⟨rfl,_,rfl,rfl⟩
  | getWriteRegions => exact ⟨rfl,_,rfl,rfl,by rw [length,spareLength good]⟩
  | packBuffer =>
    rw [Follows,step,length]
    rcases packs good sound with ⟨refused,full,_⟩ | ⟨cb',packed,_,_,_,same,_⟩
    · rw [refused]
      exact ⟨rfl,.inr ⟨rfl,full⟩⟩
    · rw [packed]
      exact ⟨same,.inl rfl⟩
  | reset => exact ⟨rfl,resetContents cb⟩

theorem stepRefused (good : Good cb) (op : Op) (sound : Sound cb op) (refused : (step cb op).1 = .tooBig) : (step cb op).2 = cb := by
  cases op with
  | write data =>
    by_cases fits : data.length ≤ cb.capacity - cb.len
    · obtain ⟨buf,stores,_⟩ := writeStores good fits (sound fits)
      rw [step,stores] at refused
      cases refused
    · rw [step,writeRefused good (by omega)]
  | read count =>
    by_cases fits : count ≤ cb.len
    · rw [step,readTakes good fits (sound fits)] at refused
      cases refused
    · rw [step,CircBuf.read,if_pos (by omega)]
  | advWritePtr =>
    rw [step,advWriteIs sound] at refused ⊢
    split at refused
    · cases refused
    · rw [if_neg (by assumption)]
  | packBuffer =>
    rw [step] at refused ⊢
    rcases packs good sound with ⟨same,_,_⟩ | ⟨cb',packed,_⟩
    · rw [same]
    · rw [packed] at refused
      cases refused
  | copy | getReadRegions | getWriteRegions => rfl
  | advReadPtr | setLen | reset => cases refused

theorem stepWithin (good : Good cb) (op : Op) (sound : Sound cb op) : ∀ i, cb.capacity ≤ i → (step cb op).2.buf i = cb.buf i := by
  intro i beyond
  cases op with
  | write data =>
    by_cases fits : data.length ≤ cb.capacity - cb.len
    · obtain ⟨buf,stores,stored⟩ := writeStores good fits (sound fits)
      rw [step,stores]
      exact stored.beyond i beyond
    · rw [step,writeRefused good (by omega)]
  | read count =>
    by_cases fits : count ≤ cb.len
    · rw [step,readTakes good fits (sound fits),advReadCells]
    · rw [step,CircBuf.read,if_pos (by omega)]
  | advReadPtr count => exact congrFun (advReadCells count) i
  | advWritePtr =>
    rw [step,advWriteIs sound]
    split <;> rfl
  | packBuffer =>
    rw [step]
    rcases packs good sound with ⟨refused,_,_⟩ | ⟨cb',packed,_,_,_,_,outside⟩
    · rw [refused]
    · rw [packed]
      exact outside i beyond
  | copy | getReadRegions | getWriteRegions | setLen | reset => rfl

theorem packedToLeft (good : Good cb) (small : cb.len < 2 ^ 31) (packed : cb.packBuffer.1 = .ok) :
    cb.packBuffer.2.getReadRegions = ⟨0,cb.len,none,0⟩ := by
  rcases packs good small with ⟨refused,_,_⟩ | ⟨cb',moved,good',left,_,same,_⟩
  · rw [refused] at packed
    cases packed
  · have length := congrArg List.length same
    rw [contentsLength good',contentsLength good] at length
    have fits := good'.fits
    rw [moved]
    dsimp only
    rw [readRegionsStraight (by omega),left,length]

theorem refusedAround (good : Good cb) (small : cb.len < 2 ^ 31) (refused : cb.packBuffer.1 = .tooBig) :
    cb.capacity < cb.start + cb.len := by
  rcases packs good small with ⟨_,full,later⟩ | ⟨cb',moved,_⟩
  · omega
  · rw [moved] at refused
    cases refused

theorem reachedGood {capacity : Nat} (small : capacity < 2 ^ 32) (reached : Reached capacity cb) :
    Good cb ∧ cb.capacity = capacity := by
  induction reached with
  | create => exact ⟨⟨small,.inl rfl,Nat.zero_le _⟩,rfl⟩
  | step _ op sound ih =>
    obtain ⟨good,same⟩ := stepGood ih.1 op sound
    exact ⟨good,same.trans ih.2⟩
  | put _ buf _ ih => exact ⟨⟨ih.1.small,ih.1.inside,ih.1.fits⟩,ih.2⟩

theorem coversOne {p n m : Nat} : (⟨p,n,none,m⟩ : Regions).covers i ↔ p ≤ i ∧ i < p + n := by
  simp only [Regions.covers,reduceCtorEq,false_and,exists_false,or_false]

theorem coversTwo {p n q m : Nat} : (⟨p,n,some q,m⟩ : Regions).covers i ↔ (p ≤ i ∧ i < p + n) ∨ (q ≤ i ∧ i < q + m) := by
  simp only [Regions.covers,Option.some.injEq,exists_eq_left']

theorem readCovers (good : Good cb) (covered : cb.getReadRegions.covers i) :
    cb.start ≤ i ∧ i < cb.start + cb.len ∧ i < cb.capacity ∨ i + cb.capacity < cb.start + cb.len := by
  obtain ⟨small,inside,fits⟩ := id good
  rcases Nat.lt_or_ge cb.capacity (cb.start + cb.len) with wraps | straight
  · rw [readRegionsWrapped good wraps,coversTwo] at covered
    omega
  · rw [readRegionsStraight straight,coversOne] at covered
    omega

theorem writeCovers (good : Good cb) (covered : cb.getWriteRegions.covers i) :
    cb.start + cb.len ≤ i ∧ i < cb.capacity ∨ cb.start + cb.len ≤ i + cb.capacity ∧ i < cb.start := by
  obtain ⟨small,inside,fits⟩ := id good
  rw [writeRegions good] at covered
  split at covered
  · rw [coversTwo] at covered
    omega
  · rw [coversOne] at covered
    split at covered <;> omega

theorem regionsApart (good : Good cb) (written : cb.getWriteRegions.covers i) :
    i < cb.capacity ∧ ¬cb.getReadRegions.covers i := by
  obtain ⟨small,inside,fits⟩ := id good
  have spare := writeCovers good written
  refine ⟨by omega,fun covered => ?_⟩
  have held := readCovers good covered
  omega

theorem samplesCongr (r : Regions) {buf buf' : Nat → Sample} (same : ∀ i, r.covers i → buf' i = buf i) :
    r.samples buf' = r.samples buf := by
  obtain ⟨p,n,second,m⟩ := r
  cases second with
  | none => exact congrArg (· ++ []) (spanCongr fun i low high => same i (coversOne.mpr ⟨low,high⟩))
  | some =>
    exact congrArg₂ (· ++ ·) (spanCongr fun i low high => same i (coversTwo.mpr (.inl ⟨low,high⟩)))
      (spanCongr fun i low high => same i (coversTwo.mpr (.inr ⟨low,high⟩)))

theorem putKeeps (good : Good cb) {buf : Nat → Sample} (spared : ∀ i, ¬cb.getWriteRegions.covers i → buf i = cb.buf i) :
    CircBuf.contents { cb with buf } = cb.contents :=
  samplesCongr cb.getReadRegions fun i covered => spared i fun written => (regionsApart good written).2 covered

theorem boundedQueue {capacity : Nat} (small : capacity < 2 ^ 32) {cb : CircBuf} (reached : Reached capacity cb) :
    cb.contents.length ≤ capacity ∧
      (∀ buf, (∀ i, ¬cb.getWriteRegions.covers i → buf i = cb.buf i) → CircBuf.contents { cb with buf } = cb.contents) ∧
      ∀ op, Sound cb op →
        Follows capacity (·.samples cb.buf) cb.spare cb.contents op (step cb op).1 (step cb op).2.contents ∧
        ((step cb op).1 = .tooBig → (step cb op).2 = cb) ∧
        (op = .packBuffer → ((step cb op).1 = .ok → (step cb op).2.getReadRegions = ⟨0,cb.len,none,0⟩) ∧
          ((step cb op).1 = .tooBig → capacity < cb.start + cb.len)) ∧
        ∀ i, capacity ≤ i → (step cb op).2.buf i = cb.buf i := by
  obtain ⟨good,rfl⟩ := reachedGood small reached
  refine ⟨(contentsLength good).trans_le good.fits,fun buf => putKeeps good,fun op sound =>
    ⟨stepFollows good op sound,stepRefused good op sound,?_,stepWithin good op sound⟩⟩
  rintro rfl
  exact ⟨packedToLeft good sound,refusedAround good sound⟩

/- Three samples in a buffer of four, around its end: they are packed. -/
def turned : CircBuf := (step (step (step (.create 4) (.write [1,2,3])).2 (.read 2)).2 (.write [4,5])).2

theorem turnedReached : Reached 4 turned :=
  .step (.step (.step .create _ (by decide)) _ (by decide)) _ (by decide)

theorem turnedPacked : turned.contents = [3,4,5] ∧ turned.getReadRegions = ⟨2,2,some 0,1⟩ ∧
    (step turned .packBuffer).1 = .ok ∧ (step turned .packBuffer).2.contents = [3,4,5] := by
  refine ⟨by decide,rfl,rfl,?_⟩
  exact ((boundedQueue (by decide) turnedReached).2.2 .packBuffer (by decide)).1.1

/- Two samples around the end of a full buffer stay there; a length above the capacity is taken; sums wrap around. -/
def full : CircBuf := (step (step (step (.create 2) (.write [1,2])).2 (.read 1)).2 (.write [3])).2

theorem fullNotPacked : Reached 2 full ∧ (step full .packBuffer).1 = .tooBig ∧
    (step full .packBuffer).2.getReadRegions = ⟨1,1,some 0,1⟩ ∧
    (step (.create 2) (.setLen 3)).2.contents.length = 3 ∧
    (step full (.advWritePtr (2 ^ 32 - 1))).1 = .ok ∧ (step full (.advWritePtr (2 ^ 32 - 1))).2.contents = [2] ∧
    (step (.create 2) (.copy (2 ^ 32 - 1) 1)).1 ≠ .tooBig :=
  ⟨.step (.step (.step .create _ (by decide)) _ (by decide)) _ (by decide),rfl,rfl,rfl,rfl,rfl,nofun⟩

end Pjproject.CircBuffer
