import Pjproject.SdpAnswer

/-! What it is for an answer to pair its formats with those of the offer, and which answered format each offered one
finds. -/
namespace Pjproject.SdpNeg
open Multipart (Text ascii lower)
open Lib.ExchangeSort (exchangeSort exchangeSortPerm exchangeSortOrdered)

section Purpose

/- The attributes of one format in their order. -/
def nth (attr : List Attr) (name fmt : Text) (n : Nat) : Option Attr := (attr.filter (Attr.isOf name fmt))[n]?

def channels (map : Rtpmap) : Text := if map.param = [] then ascii "1" else map.param.map lower

def sameCodec (offered answered : Rtpmap) : Prop :=
  offered.encName.map lower = answered.encName.map lower ∧ offered.clockRate = answered.clockRate ∧
    channels offered = channels answered

def sameMaps (offered answered : Option Attr) : Prop :=
  ∃ o a, offered.bind (fun attr => getRtpmap attr.value) = some o ∧
    answered.bind (fun attr => getRtpmap attr.value) = some a ∧ sameCodec o a

def Paired (offer answer : Media) (offered answered : Text) : Prop :=
  (ptNumber offered < 96 ∧ ptNumber answered = ptNumber offered) ∨
    sameMaps (findAttr offer.attr rtpmap offered) (findAttr answer.attr rtpmap answered)

/- What is left of an answer, beside what is left of the offer. -/
structure PairsUp (given offer answer : Media) : Prop where
  counts : offer.fmt.length = answer.fmt.length
  pairs : ∀ place ∈ offer.fmt.zip answer.fmt, Paired offer answer place.1 place.2
  order : answer.fmt.Sublist given.fmt

variable (customFmtMatch : Text → Option Attr → Option Attr → Bool)

def repeats (fmts : List Text) (fmt : Text) : Nat := fmts.countP fun other => ptNumber other = ptNumber fmt

/- The answered format that an offered one finds with attributes of its own: the formats of one number take those of
that number in turn. -/
def ownAnswer (offer answer : Media) (before : List Text) (fmt : Text) : Option Nat :=
  let n := repeats before fmt
  match findAnswer customFmtMatch (nth offer.attr rtpmap fmt n) (nth offer.attr fmtp fmt n) answer fmt with
  | some (.ok j) => if j < answer.fmt.length then some j else none
  | _ => none

def ownAnswers (offer answer : Media) : List Text → List Text → List Nat
  | _, [] => []
  | before, fmt :: rest =>
    (ownAnswer customFmtMatch offer answer before fmt).toList ++ ownAnswers offer answer (before ++ [fmt]) rest

/- The answered formats of a number that no offered format finds. -/
def leftOut (offer answer : Media) (fmt : Text) : Nat :=
  answer.fmt.zipIdx.countP fun other =>
    ptNumber other.1 = ptNumber fmt && !(ownAnswers customFmtMatch offer answer [] offer.fmt).contains other.2

/- No two offered formats find the same answered one, and a dynamic number is not offered again behind a format of it
that has an answer. -/
structure Separate (offer answer : Media) : Prop where
  distinct : (ownAnswers customFmtMatch offer answer [] offer.fmt).Nodup
  last : ∀ before fmt after, offer.fmt = before ++ fmt :: after → 96 ≤ ptNumber fmt →
    ownAnswer customFmtMatch offer answer before fmt ≠ none → ∀ other ∈ after, ptNumber other ≠ ptNumber fmt

/- The rtpmap of an answered format, behind those of the formats of its number that are left out, is of the codec that
it was found for. -/
structure SameCodecs (offer answer : Media) : Prop where
  codecs : ∀ before fmt after, offer.fmt = before ++ fmt :: after → 96 ≤ ptNumber fmt →
    ∀ j answered, ownAnswer customFmtMatch offer answer before fmt = some j → answer.fmt[j]? = some answered →
      sameMaps (nth offer.attr rtpmap fmt (repeats before fmt))
        (nth answer.attr rtpmap answered (leftOut customFmtMatch offer answer answered))

end Purpose

section Attributes

variable {attr : List Attr} {name fmt : Text}

theorem findAttrNth : findAttr attr name fmt = nth attr name fmt 0 := by
  rw [nth,← List.head?_eq_getElem?,List.head?_filter]
  rfl

theorem nthNumber {other : Text} (same : ptNumber fmt = ptNumber other) (n : Nat) :
    nth attr name fmt n = nth attr name other n := by
  have kind : Attr.isOf name fmt = Attr.isOf name other := by
    funext a
    simp only [Attr.isOf,same]
  unfold nth
  rw [kind]

theorem removeAttrNth (other : Text) (n : Nat) :
    nth (removeAttr attr name fmt) name other n = nth attr name other (repeats [fmt] other + n) := by
  cases found : findAttr attr name fmt with
  | none =>
    have absent : ∀ a ∈ attr, ¬Attr.isOf name fmt a = true := List.find?_eq_none.mp found
    rw [removeAttr,List.eraseP_of_forall_not absent]
    by_cases same : ptNumber fmt = ptNumber other
    · have empty : ∀ k, nth attr name other k = none := by
        intro k
        rw [← nthNumber same,nth,List.filter_eq_nil_iff.mpr absent]
        rfl
      rw [empty,empty]
    · simp [repeats,same]
  | some a =>
    obtain ⟨front,back,rfl,removed,kind,first⟩ := findAttrSplit found
    obtain ⟨named,number⟩ := isOfIff.mp kind
    rw [removed]
    by_cases same : ptNumber fmt = ptNumber other
    · have early : front.filter (Attr.isOf name fmt) = [] := List.filter_eq_nil_iff.mpr (by simpa using first)
      rw [← nthNumber same,← nthNumber same]
      simp [nth,early,kind,repeats,same,Nat.add_comm 1 n]
    · have other : Attr.isOf name other a = false := by simp [Attr.isOf,number,same]
      simp [nth,other,repeats,same]

theorem removeAttrOther {kept : Text} (differ : kept ≠ name) (other : Text) (n : Nat) :
    nth (removeAttr attr name fmt) kept other n = nth attr kept other n := by
  cases found : findAttr attr name fmt with
  | none =>
    have absent : ∀ a ∈ attr, ¬Attr.isOf name fmt a = true := List.find?_eq_none.mp found
    rw [removeAttr,List.eraseP_of_forall_not absent]
  | some a =>
    obtain ⟨front,back,rfl,removed,kind,first⟩ := findAttrSplit found
    have unlike : Attr.isOf kept other a = false := by simp [Attr.isOf,(isOfIff.mp kind).1,Ne.symm differ]
    rw [removed]
    simp [nth,unlike]

theorem fmtpDiffers : fmtp ≠ rtpmap := by decide

theorem dropFormatNth (kind : name ∈ [rtpmap,fmtp]) (other : Text) (n : Nat) :
    nth (dropFormat attr fmt) name other n = nth attr name other (repeats [fmt] other + n) := by
  unfold dropFormat
  rcases List.mem_pair.mp kind with rfl | rfl
  · rw [removeAttrOther fmtpDiffers.symm,removeAttrNth]
  · rw [removeAttrNth,removeAttrOther fmtpDiffers]

theorem directionNth {remote : List Attr} (kind : name ∈ [rtpmap,fmtp]) (n : Nat) :
    nth (updateMediaDirection remote attr) name fmt n = nth attr name fmt n := by
  have named : ∀ dir ∈ directions, dir ≠ name := by
    rcases List.mem_pair.mp kind with rfl | rfl
    · decide
    · decide
  have kept : nth (removeAllMediaDirections attr) name fmt n = nth attr name fmt n := by
    unfold nth removeAllMediaDirections
    rw [List.filter_filter]
    congr 1
    refine List.filter_congr fun a _ => ?_
    cases own : Attr.isOf name fmt a with
    | false => rfl
    | true =>
      have outside : a.name ∉ directions := fun mem => named a.name mem (isOfIff.mp own).1
      simpa using outside
  have added : ∀ a : Attr, a.name ∈ directions →
      nth (addAttr (removeAllMediaDirections attr) a) name fmt n = nth attr name fmt n := by
    intro a mem
    have unlike : Attr.isOf name fmt a = false := by simp [Attr.isOf,named a.name mem]
    rw [← kept]
    unfold addAttr
    split
    · simp [nth,unlike]
    · rfl
  unfold updateMediaDirection
  dsimp only
  split
  · rfl
  · cases newDir remote (mediaDir attr) with
    | inactive => exact added _ (by decide)
    | encoding => exact added _ (by decide)
    | decoding => exact added _ (by decide)
    | encodingDecoding => exact kept

end Attributes

section Matching

variable {customFmtMatch : Text → Option Attr → Option Attr → Bool} {answer : Media}

variable {fmts : List Text} {j : Nat}

theorem firstMatchBound {test : Text → Option Bool} (found : firstMatch test fmts = some j) : j ≤ fmts.length := by
  induction fmts generalizing j with
  | nil =>
    obtain rfl : 0 = j := by simpa [firstMatch] using found
    exact Nat.le_refl _
  | cons fmt rest ih =>
    unfold firstMatch at found
    split at found
    · contradiction
    · obtain rfl : 0 = j := by simpa using found
      exact Nat.zero_le _
    · obtain ⟨k,later,rfl⟩ := Option.map_eq_some_iff.mp found
      exact Nat.succ_le_succ (ih later)

theorem findAnswerBound {map fmtp : Option Attr} {fmt : Text}
    (found : findAnswer customFmtMatch map fmtp answer fmt = some (.ok j)) : j ≤ answer.fmt.length := by
  unfold findAnswer at found
  split at found
  · obtain ⟨k,first,same⟩ := Option.map_eq_some_iff.mp found
    obtain rfl : k = j := by simpa using same
    exact firstMatchBound first
  · split at found
    · simp at found
    · obtain ⟨offered,_,run⟩ := Option.bind_eq_some_iff.mp found
      obtain ⟨k,first,same⟩ := Option.map_eq_some_iff.mp run
      obtain rfl : k = j := by simpa using same
      exact firstMatchBound first

theorem firstMatchSame {fmt : Text}
    (found : firstMatch (fun other => some (decide (fmt = other))) fmts = some j) (inside : j < fmts.length) :
    fmts[j]? = some fmt := by
  induction fmts generalizing j with
  | nil => simp at inside
  | cons first rest ih =>
    unfold firstMatch at found
    split at found
    · contradiction
    · next same =>
      obtain rfl : 0 = j := by simpa using found
      have same : fmt = first := by simpa using same
      simp [same]
    · obtain ⟨k,later,rfl⟩ := Option.map_eq_some_iff.mp found
      rw [List.getElem?_cons_succ]
      exact ih later (by simpa using inside)

theorem findAnswerStatic {map fmtp : Option Attr} {fmt : Text} (static : ptNumber fmt < 96)
    (found : findAnswer customFmtMatch map fmtp answer fmt = some (.ok j)) (inside : j < answer.fmt.length) :
    answer.fmt[j]? = some fmt := by
  unfold findAnswer at found
  rw [if_pos static] at found
  obtain ⟨k,first,same⟩ := Option.map_eq_some_iff.mp found
  obtain rfl : k = j := by simpa using same
  exact firstMatchSame first inside

/- The offered formats with what each has found: the place of an answered one, or their number. -/
abbrev Rows := List (Text × Nat)

def unanswered (answer : Media) (rows : Rows) (fmt : Text) : Nat :=
  rows.countP fun row => ptNumber row.1 = ptNumber fmt && row.2 = answer.fmt.length

theorem unansweredAppend (front back : Rows) (fmt : Text) :
    unanswered answer (front ++ back) fmt = unanswered answer front fmt + unanswered answer back fmt :=
  List.countP_append

theorem unansweredCons (row : Text × Nat) (rows : Rows) (fmt : Text) :
    unanswered answer (row :: rows) fmt = unanswered answer [row] fmt + unanswered answer rows fmt :=
  unansweredAppend [row] rows fmt

def answered (answer : Media) (rows : Rows) : Rows := rows.filter fun row => row.2 != answer.fmt.length

def Finds (customFmtMatch : Text → Option Attr → Option Attr → Bool) (answer : Media) (attr : List Attr) (n : Nat)
    (row : Text × Nat) : Prop :=
  findAnswer customFmtMatch (nth attr rtpmap row.1 n) (nth attr fmtp row.1 n) answer row.1 = some (.ok row.2)

/- A run of the loop: a format looks at the attributes behind those that its unanswered predecessors took with them. -/
structure Matched (customFmtMatch : Text → Option Attr → Option Attr → Bool) (answer : Media) (fmts : List Text)
    (attr : List Attr) (rows : Rows) (left : List Attr) : Prop where
  formats : rows.map Prod.fst = fmts
  attributes : ∀ name ∈ [rtpmap,fmtp], ∀ fmt n,
    nth left name fmt n = nth attr name fmt (unanswered answer rows fmt + n)
  finds : ∀ before row after, rows = before ++ row :: after →
    Finds customFmtMatch answer attr (unanswered answer before row.1) row

theorem Matched.cons {attr next left : List Attr} {rows : Rows} {row : Text × Nat}
    (rest : Matched customFmtMatch answer fmts next rows left) (finds : Finds customFmtMatch answer attr 0 row)
    (moved : ∀ name ∈ [rtpmap,fmtp], ∀ fmt n,
      nth next name fmt n = nth attr name fmt (unanswered answer [row] fmt + n)) :
    Matched customFmtMatch answer (row.1 :: fmts) attr (row :: rows) left := by
  constructor
  · rw [List.map_cons,rest.formats]
  · intro name kind fmt n
    rw [rest.attributes name kind,moved name kind,unansweredCons row rows,Nat.add_assoc]
  · intro before other after whole
    cases before with
    | nil =>
      obtain ⟨rfl,rfl⟩ : row = other ∧ rows = after := by simpa using whole
      exact finds
    | cons head before =>
      obtain ⟨rfl,tail⟩ : row = head ∧ rows = before ++ other :: after := by simpa using whole
      have found := rest.finds before other after tail
      unfold Finds at found ⊢
      rw [unansweredCons row before,← moved rtpmap (by simp),← moved fmtp (by simp)]
      exact found

theorem matchLoopRuns {kept all : Rows} {attr left : List Attr}
    (run : matchLoop customFmtMatch answer fmts kept attr = some (.ok (all, left))) :
    ∃ rows, Matched customFmtMatch answer fmts attr rows left ∧ all = kept ++ answered answer rows := by
  induction fmts generalizing kept attr with
  | nil =>
    obtain ⟨rfl,rfl⟩ : kept = all ∧ attr = left := by simpa [matchLoop] using run
    refine ⟨[],⟨rfl,?_,by simp⟩,(List.append_nil _).symm⟩
    intro name _ fmt n
    simp [unanswered]
  | cons fmt rest ih =>
    unfold matchLoop at run
    split at run
    · contradiction
    · simp at run
    · next j found =>
      have finds : Finds customFmtMatch answer attr 0 (fmt, j) := by
        unfold Finds
        rw [← findAttrNth,← findAttrNth]
        exact found
      split at run
      · next missing =>
        obtain ⟨rows,matched,whole⟩ := ih run
        refine ⟨(fmt, j) :: rows,matched.cons finds ?_,?_⟩
        · intro name kind other n
          rw [dropFormatNth kind]
          simp [repeats,unanswered,missing]
        · simpa [answered,missing] using whole
      · next present =>
        obtain ⟨rows,matched,whole⟩ := ih run
        refine ⟨(fmt, j) :: rows,matched.cons finds ?_,?_⟩
        · intro name _ other n
          simp [unanswered,present]
        · simpa [answered,present] using whole

end Matching

section Own

variable {customFmtMatch : Text → Option Attr → Option Attr → Bool} {offer answer : Media} {rows : Rows}
  {left : List Attr}

/- In front of a dynamic format, none of its number has an answer. -/
def Early (answer : Media) (before : Rows) (row : Text × Nat) : Prop :=
  96 ≤ ptNumber row.1 → ∀ earlier ∈ before, ptNumber earlier.1 = ptNumber row.1 → earlier.2 = answer.fmt.length

def AllEarly (answer : Media) (rows : Rows) : Prop :=
  ∀ before row after, rows = before ++ row :: after → Early answer before row

variable {row : Text × Nat} {before : Rows}

theorem Matched.bound {fmts : List Text} {attr : List Attr}
    (matched : Matched customFmtMatch answer fmts attr rows left) (mem : row ∈ rows) :
    row.2 ≤ answer.fmt.length := by
  obtain ⟨before,after,whole⟩ := List.append_of_mem mem
  exact findAnswerBound (matched.finds before row after whole)

theorem repeatsUnanswered {fmt : Text}
    (none : ∀ earlier ∈ before, ptNumber earlier.1 = ptNumber fmt → earlier.2 = answer.fmt.length) :
    unanswered answer before fmt = repeats (before.map Prod.fst) fmt := by
  unfold unanswered repeats
  rw [List.countP_map]
  refine List.countP_congr fun row mem => ?_
  have free := none row mem
  simp only [Function.comp,Bool.and_eq_true,decide_eq_true_iff]
  exact ⟨And.left,fun same => ⟨same,free same⟩⟩

theorem findAnswerOther {fmt : Text} (static : ptNumber fmt < 96) (map map' own own' : Option Attr) :
    findAnswer customFmtMatch map own answer fmt = findAnswer customFmtMatch map' own' answer fmt := by
  unfold findAnswer
  rw [if_pos static,if_pos static]

theorem Matched.own (matched : Matched customFmtMatch answer offer.fmt offer.attr rows left) {after : Rows}
    (whole : rows = before ++ row :: after) (early : Early answer before row) :
    ownAnswer customFmtMatch offer answer (before.map Prod.fst) row.1 =
      if row.2 < answer.fmt.length then some row.2 else none := by
  have finds := matched.finds before row after whole
  have own : findAnswer customFmtMatch (nth offer.attr rtpmap row.1 (repeats (before.map Prod.fst) row.1))
      (nth offer.attr fmtp row.1 (repeats (before.map Prod.fst) row.1)) answer row.1 = some (.ok row.2) := by
    rcases Nat.lt_or_ge (ptNumber row.1) 96 with static | dynamic
    · exact (findAnswerOther static _ _ _ _).trans finds
    · rw [← repeatsUnanswered (early dynamic)]
      exact finds
  unfold ownAnswer
  simp only [own]

theorem answeredCons (row : Text × Nat) (bound : row.2 ≤ answer.fmt.length) (rest : Rows) :
    (answered answer (row :: rest)).map Prod.snd =
      (if row.2 < answer.fmt.length then some row.2 else none).toList ++ (answered answer rest).map Prod.snd := by
  unfold answered
  rcases Nat.lt_or_eq_of_le bound with inside | last
  · rw [if_pos inside,List.filter_cons_of_pos (by simpa using Nat.ne_of_lt inside)]
    rfl
  · rw [if_neg (by omega),List.filter_cons_of_neg (by simpa using last)]
    rfl

theorem Matched.owns (matched : Matched customFmtMatch answer offer.fmt offer.attr rows left)
    (early : AllEarly answer rows) {rest : Rows} (whole : rows = before ++ rest) :
    ownAnswers customFmtMatch offer answer (before.map Prod.fst) (rest.map Prod.fst) =
      (answered answer rest).map Prod.snd := by
  induction rest generalizing before with
  | nil => rfl
  | cons row rest ih =>
    have next := @ih (before ++ [row]) (by simpa using whole)
    rw [List.map_append] at next
    have bound : row.2 ≤ answer.fmt.length := matched.bound (by simp [whole])
    rw [answeredCons row bound,← next,← matched.own whole (early before row rest whole)]
    rfl

theorem Matched.ownsAll (matched : Matched customFmtMatch answer offer.fmt offer.attr rows left)
    (early : AllEarly answer rows) :
    ownAnswers customFmtMatch offer answer [] offer.fmt = (answered answer rows).map Prod.snd := by
  have owns := matched.owns early (List.nil_append rows).symm
  rw [matched.formats] at owns
  exact owns

theorem Separate.early (apart : Separate customFmtMatch offer answer)
    (matched : Matched customFmtMatch answer offer.fmt offer.attr rows left) : AllEarly answer rows := by
  intro before
  induction size : before.length using Nat.strong_induction_on generalizing before with
  | _ length ih =>
    intro row after whole dynamic earlier mem same
    obtain ⟨front,back,rfl⟩ := List.append_of_mem mem
    have split : rows = front ++ earlier :: (back ++ row :: after) := by simpa using whole
    have shorter : front.length < length := by
      rw [← size,List.length_append,List.length_cons]
      omega
    have own := matched.own split (ih _ shorter front rfl earlier _ split)
    by_contra found
    have inside : earlier.2 < answer.fmt.length :=
      Nat.lt_of_le_of_ne (matched.bound (by simp [split])) found
    rw [if_pos inside] at own
    have formats : offer.fmt = front.map Prod.fst ++ earlier.1 :: (back ++ row :: after).map Prod.fst := by
      rw [← matched.formats,split,List.map_append,List.map_cons]
    have later := apart.last _ _ _ formats (same ▸ dynamic) (by simp [own]) row.1 (by simp)
    exact later same.symm

theorem findAnswerNumber {fmt other : Text} (dynamic : 96 ≤ ptNumber fmt) (same : ptNumber other = ptNumber fmt)
    (map own : Option Attr) :
    findAnswer customFmtMatch map own answer other = findAnswer customFmtMatch map own answer fmt := by
  unfold findAnswer
  rw [same,if_neg (Nat.not_lt.mpr dynamic),if_neg (Nat.not_lt.mpr dynamic)]

theorem unansweredFound (found : row.2 ≠ answer.fmt.length) (fmt : Text) : unanswered answer [row] fmt = 0 := by
  simp [unanswered,found]

theorem unansweredOther {rows : Rows} {fmt : Text} (other : ∀ row ∈ rows, ptNumber row.1 ≠ ptNumber fmt) :
    unanswered answer rows fmt = 0 := by
  refine List.countP_eq_zero.mpr fun row mem => ?_
  simp [other row mem]

/- A dynamic format with an answer leaves its attributes to the next one of its number, which finds the same answer. -/
theorem Matched.again (matched : Matched customFmtMatch answer offer.fmt offer.attr rows left)
    {front between tail : Rows} {next : Text × Nat} (whole : rows = front ++ row :: (between ++ next :: tail))
    (dynamic : 96 ≤ ptNumber row.1) (found : row.2 ≠ answer.fmt.length) (same : ptNumber next.1 = ptNumber row.1)
    (others : ∀ other ∈ between, ptNumber other.1 ≠ ptNumber row.1) : next.2 = row.2 := by
  have first := matched.finds front row _ whole
  have second := matched.finds (front ++ row :: between) next tail (by simp [whole])
  have count : unanswered answer (front ++ row :: between) next.1 = unanswered answer front row.1 := by
    have number : unanswered answer (front ++ row :: between) next.1 =
        unanswered answer (front ++ row :: between) row.1 := by
      simp only [unanswered,same]
    rw [number,unansweredAppend,unansweredCons,unansweredFound found,unansweredOther others]
    rfl
  unfold Finds at first second
  rw [count,nthNumber same,nthNumber same,findAnswerNumber dynamic same,first] at second
  simpa using second.symm

theorem Matched.early (matched : Matched customFmtMatch answer offer.fmt offer.attr rows left)
    (distinct : ((answered answer rows).map Prod.snd).Nodup) : AllEarly answer rows := by
  intro before row after whole dynamic earlier mem same
  by_contra found
  obtain ⟨front,back,rfl⟩ := List.append_of_mem mem
  have split : rows = front ++ earlier :: (back ++ row :: after) := by simpa using whole
  -- The next format of the number, which need not be the given one.
  cases search : (back ++ row :: after).find? fun other => ptNumber other.1 = ptNumber earlier.1 with
  | none =>
    have absent := List.find?_eq_none.mp search row (by simp)
    simp [same] at absent
  | some next =>
    obtain ⟨number,between,tail,rest,others⟩ := List.find?_eq_some_iff_append.mp search
    have number : ptNumber next.1 = ptNumber earlier.1 := by simpa using number
    rw [rest] at split
    have twice := matched.again split (same ▸ dynamic) found number (by simpa using others)
    rw [split] at distinct
    simp [answered,found,twice,List.nodup_append] at distinct

theorem AllEarly.settled (early : AllEarly answer rows) {after : Rows}
    (whole : rows = before ++ row :: after) (dynamic : 96 ≤ ptNumber row.1) (found : row.2 ≠ answer.fmt.length) :
    unanswered answer rows row.1 = repeats (before.map Prod.fst) row.1 := by
  have later : ∀ other ∈ after, ptNumber other.1 ≠ ptNumber row.1 := by
    intro other mem same
    obtain ⟨between,tail,rfl⟩ := List.append_of_mem mem
    exact found (early (before ++ row :: between) other tail (by simpa using whole) (same ▸ dynamic) row (by simp)
      same.symm)
  rw [whole,unansweredAppend,unansweredCons,unansweredFound found,unansweredOther later]
  exact repeatsUnanswered (early before row after whole dynamic)

theorem Matched.separate (matched : Matched customFmtMatch answer offer.fmt offer.attr rows left)
    (distinct : ((answered answer rows).map Prod.snd).Nodup) : Separate customFmtMatch offer answer := by
  have early := matched.early distinct
  constructor
  · rw [matched.ownsAll early]
    exact distinct
  · intro before fmt after formats dynamic own other mem same
    rw [← matched.formats] at formats
    obtain ⟨front,back,whole,rfl,tail⟩ := List.map_eq_append_iff.mp formats
    obtain ⟨row,back,rfl,rfl,rfl⟩ := List.map_eq_cons_iff.mp tail
    obtain ⟨later,inside,rfl⟩ := List.mem_map.mp mem
    obtain ⟨between,rest,rfl⟩ := List.append_of_mem inside
    have last := early (front ++ row :: between) later rest (by simpa using whole) (same ▸ dynamic) row (by simp)
      same.symm
    rw [matched.own whole (early front row _ whole),if_neg (by omega)] at own
    exact own rfl

theorem separateIff (matched : Matched customFmtMatch answer offer.fmt offer.attr rows left) :
    Separate customFmtMatch offer answer ↔ ((answered answer rows).map Prod.snd).Nodup := by
  constructor
  · intro apart
    rw [← matched.ownsAll (apart.early matched)]
    exact apart.distinct
  · exact matched.separate

end Own

end Pjproject.SdpNeg
