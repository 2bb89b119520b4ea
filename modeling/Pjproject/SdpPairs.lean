import Pjproject.SdpMatching

/-! The formats of the offer in the order of the answer, and the answer without those that no offered one has found. -/
namespace Pjproject.SdpNeg
open Multipart (Text ascii)
open Lib.ExchangeSort (exchangeSort exchangeSortPerm exchangeSortOrdered)

section Trimming

/- The loop over the answered formats, told by the places that are still to be kept. -/
def pick : List Nat → Nat → List Text → List Attr → List Text × List Attr
  | _, _, [], attr => ([], attr)
  | prior, n, fmt :: rest, attr =>
    if prior.head? = some n then (fmt :: (pick prior.tail (n + 1) rest attr).1, (pick prior.tail (n + 1) rest attr).2)
    else pick prior (n + 1) rest (dropFormat attr fmt)

theorem trimLoopPicks (prior : List Nat) (i delCnt : Nat) (fmts : List Text) (attr : List Attr) :
    trimLoop prior i delCnt fmts attr = pick (prior.drop i) (i + delCnt) fmts attr := by
  induction fmts generalizing i delCnt attr with
  | nil => rfl
  | cons fmt rest ih =>
    unfold trimLoop pick
    rw [List.head?_drop,List.tail_drop]
    split
    · rw [ih,Nat.add_right_comm]
    · exact ih i (delCnt + 1) _

variable {prior : List Nat} {n : Nat} {fmts : List Text} {attr : List Attr}

theorem pickOrder : (pick prior n fmts attr).1.Sublist fmts := by
  induction fmts generalizing prior n attr with
  | nil => exact .slnil
  | cons fmt rest ih =>
    unfold pick
    split
    · exact ih.cons_cons fmt
    · exact ih.cons fmt

theorem pickFull (full : (pick prior n fmts attr).1.length = prior.length) :
    prior.Pairwise (· < ·) ∧ ∀ p ∈ prior, n ≤ p := by
  induction fmts generalizing prior n attr with
  | nil =>
    obtain rfl : prior = [] := List.length_eq_zero_iff.mp full.symm
    simp
  | cons fmt rest ih =>
    unfold pick at full
    split at full
    · next here =>
      obtain ⟨tail,rfl⟩ := List.head?_eq_some_iff.mp here
      obtain ⟨up,behind⟩ := ih (Nat.succ.inj full)
      exact ⟨List.pairwise_cons.mpr ⟨behind,up⟩,
        List.forall_mem_cons.mpr ⟨Nat.le_refl n,fun p mem => Nat.le_of_succ_le (behind p mem)⟩⟩
    · obtain ⟨up,behind⟩ := ih full
      exact ⟨up,fun p mem => Nat.le_of_succ_le (behind p mem)⟩

/- The places that are still to come, with the formats they are for. -/
structure Ahead (prior : List Nat) (n : Nat) (fmts : List Text) : Prop where
  up : prior.Pairwise (· < ·)
  bounds : ∀ p ∈ prior, n ≤ p ∧ p < n + fmts.length

theorem Ahead.keep {fmt : Text} (ahead : Ahead (n :: prior) n (fmt :: fmts)) : Ahead prior (n + 1) fmts := by
  obtain ⟨behind,up⟩ := List.pairwise_cons.mp ahead.up
  refine ⟨up,fun p mem => ?_⟩
  have bounds := ahead.bounds p (List.mem_cons_of_mem n mem)
  have later := behind p mem
  rw [List.length_cons] at bounds
  omega

theorem Ahead.skip {fmt : Text} (ahead : Ahead prior n (fmt :: fmts)) (other : prior.head? ≠ some n) :
    Ahead prior (n + 1) fmts ∧ n ∉ prior := by
  have later : ∀ p ∈ prior, n < p := by
    cases prior with
    | nil => simp
    | cons first =>
      have differs : first ≠ n := by simpa using other
      have least := ahead.bounds first (by simp)
      obtain ⟨behind,_⟩ := List.pairwise_cons.mp ahead.up
      refine List.forall_mem_cons.mpr ⟨by omega,fun p mem => ?_⟩
      have after := behind p mem
      omega
  refine ⟨⟨ahead.up,fun p mem => ?_⟩,fun mem => Nat.lt_irrefl n (later n mem)⟩
  have bounds := ahead.bounds p mem
  have after := later p mem
  rw [List.length_cons] at bounds
  omega

theorem aheadNil (ahead : Ahead prior n []) : prior = [] := by
  refine List.eq_nil_iff_forall_not_mem.mpr fun p mem => ?_
  have bounds := ahead.bounds p mem
  rw [List.length_nil] at bounds
  omega

theorem pickPlaces (ahead : Ahead prior n fmts) :
    List.Forall₂ (fun p fmt => (fmt, p) ∈ fmts.zipIdx n) prior (pick prior n fmts attr).1 := by
  induction fmts generalizing prior n attr with
  | nil =>
    rw [aheadNil ahead]
    exact .nil
  | cons fmt rest ih =>
    unfold pick
    simp only [List.zipIdx_cons]
    split
    · next here =>
      obtain ⟨tail,rfl⟩ := List.head?_eq_some_iff.mp here
      exact .cons (List.mem_cons_self) ((ih ahead.keep).imp fun _ _ mem => List.mem_cons_of_mem _ mem)
    · next other => exact (ih (ahead.skip other).1).imp fun _ _ mem => List.mem_cons_of_mem _ mem

def skipped (prior : List Nat) (n : Nat) (fmts : List Text) (fmt : Text) : Nat :=
  (fmts.zipIdx n).countP fun other => ptNumber other.1 = ptNumber fmt && !prior.contains other.2

theorem pickAttributes (ahead : Ahead prior n fmts) {name : Text} (kind : name ∈ [rtpmap,fmtp]) (fmt : Text)
    (k : Nat) : nth (pick prior n fmts attr).2 name fmt k = nth attr name fmt (skipped prior n fmts fmt + k) := by
  induction fmts generalizing prior n attr with
  | nil => simp [pick,skipped]
  | cons head rest ih =>
    unfold pick
    split
    · next here =>
      obtain ⟨tail,rfl⟩ := List.head?_eq_some_iff.mp here
      have same : skipped (n :: tail) n (head :: rest) fmt = skipped tail (n + 1) rest fmt := by
        unfold skipped
        rw [List.zipIdx_cons,List.countP_cons_of_neg (by simp)]
        refine List.countP_congr fun other mem => ?_
        have later := (List.mem_zipIdx mem).1
        have differs : other.2 ≠ n := by omega
        simp [differs]
      rw [same]
      exact ih ahead.keep
    · next other =>
      obtain ⟨next,absent⟩ := ahead.skip other
      have more : skipped prior n (head :: rest) fmt = repeats [head] fmt + skipped prior (n + 1) rest fmt := by
        unfold skipped repeats
        rw [List.zipIdx_cons,List.countP_cons,List.countP_cons,List.countP_nil,Nat.add_comm]
        simp [absent]
      rw [ih next,dropFormatNth kind,more,Nat.add_assoc]

end Trimming

section Pairing

variable {customFmtMatch : Text → Option Attr → Option Attr → Bool} {offer answer : Media} {rows : Rows}
  {left : List Attr}

theorem zipRows {given fmts : List Text}
    (places : List.Forall₂ (fun p fmt => given[p]? = some fmt) (rows.map Prod.snd) fmts)
    (property : Text → Text → Prop) : (∀ place ∈ (rows.map Prod.fst).zip fmts, property place.1 place.2) ↔
      ∀ row ∈ rows, ∀ fmt, given[row.2]? = some fmt → property row.1 fmt := by
  induction rows generalizing fmts with
  | nil => simp
  | cons row rest ih =>
    obtain ⟨fmt,others,here,later,rfl⟩ := List.forall₂_cons_left_iff.mp places
    simp only [List.map_cons,List.zip_cons_cons,List.forall_mem_cons,ih later,here,Option.some.injEq,forall_eq']

def sorted (answer : Media) (rows : Rows) : Rows := exchangeSort Prod.snd (answered answer rows)

def priors (answer : Media) (rows : Rows) : List Nat := (sorted answer rows).map Prod.snd

theorem priorsPerm : (priors answer rows).Perm ((answered answer rows).map Prod.snd) := (exchangeSortPerm _).map _

def leftOffer (offer answer : Media) (rows : Rows) (left : List Attr) : Media :=
  { offer with fmt := (sorted answer rows).map Prod.fst, attr := left }

def leftAnswer (answer : Media) (rows : Rows) : Media :=
  { answer with
    fmt := (pick (priors answer rows) 0 answer.fmt answer.attr).1
    attr := (pick (priors answer rows) 0 answer.fmt answer.attr).2 }

theorem processFormatsRuns {offerLeft answerLeft : Media}
    (run : processFormats customFmtMatch offer answer = some (.ok (offerLeft, answerLeft))) :
    ∃ rows left, Matched customFmtMatch answer offer.fmt offer.attr rows left ∧
      offerLeft = leftOffer offer answer rows left ∧ answerLeft = leftAnswer answer rows := by
  unfold processFormats at run
  split at run
  · contradiction
  · simp at run
  · next kept attr loop =>
    obtain ⟨rows,matched,rfl⟩ := matchLoopRuns loop
    split at run
    · simp at run
    · simp only [List.nil_append,trimLoopPicks,List.drop_zero,Nat.add_zero] at run
      obtain ⟨offerEnds,answerEnds⟩ := Prod.mk.inj (Except.ok.inj (Option.some.inj run))
      exact ⟨rows,attr,matched,offerEnds.symm,answerEnds.symm⟩

theorem answeredMem {row : Text × Nat} (mem : row ∈ answered answer rows) :
    row ∈ rows ∧ row.2 ≠ answer.fmt.length := by
  simpa [answered] using mem

theorem Matched.ahead (matched : Matched customFmtMatch answer offer.fmt offer.attr rows left)
    (distinct : ((answered answer rows).map Prod.snd).Nodup) : Ahead (priors answer rows) 0 answer.fmt := by
  constructor
  · have ordered : (priors answer rows).Pairwise (· ≤ ·) :=
      List.pairwise_map.mpr (exchangeSortOrdered (answered answer rows))
    have apart : (priors answer rows).Nodup := priorsPerm.nodup_iff.mpr distinct
    exact ordered.imp₂ (fun _ _ most differs => Nat.lt_of_le_of_ne most differs) apart
  · intro p mem
    obtain ⟨row,inside,rfl⟩ := List.mem_map.mp (priorsPerm.mem_iff.mp mem)
    obtain ⟨known,found⟩ := answeredMem inside
    have bound := matched.bound known
    omega

theorem Matched.counts (matched : Matched customFmtMatch answer offer.fmt offer.attr rows left) :
    (leftOffer offer answer rows left).fmt.length = (leftAnswer answer rows).fmt.length ↔
      ((answered answer rows).map Prod.snd).Nodup := by
  have length : (leftOffer offer answer rows left).fmt.length = (priors answer rows).length := by
    simp [leftOffer,priors]
  rw [length]
  constructor
  · intro same
    have up : (priors answer rows).Pairwise (· < ·) := (pickFull same.symm).1
    exact priorsPerm.nodup_iff.mp (up.imp fun less => Nat.ne_of_lt less)
  · intro distinct
    exact (pickPlaces (matched.ahead distinct)).length_eq

theorem Matched.skips (matched : Matched customFmtMatch answer offer.fmt offer.attr rows left)
    (early : AllEarly answer rows) (fmt : Text) :
    skipped (priors answer rows) 0 answer.fmt fmt = leftOut customFmtMatch offer answer fmt := by
  unfold skipped leftOut
  rw [matched.ownsAll early]
  refine List.countP_congr fun other _ => ?_
  have same := @priorsPerm answer rows
  simp [same.mem_iff]

theorem Matched.paired (matched : Matched customFmtMatch answer offer.fmt offer.attr rows left)
    (distinct : ((answered answer rows).map Prod.snd).Nodup) {before after : Rows} {row : Text × Nat}
    (whole : rows = before ++ row :: after) (dynamic : 96 ≤ ptNumber row.1) (found : row.2 ≠ answer.fmt.length)
    (fmt : Text) : Paired (leftOffer offer answer rows left) (leftAnswer answer rows) row.1 fmt ↔
      sameMaps (nth offer.attr rtpmap row.1 (repeats (before.map Prod.fst) row.1))
        (nth answer.attr rtpmap fmt (leftOut customFmtMatch offer answer fmt)) := by
  have early := matched.early distinct
  have offered : findAttr (leftOffer offer answer rows left).attr rtpmap row.1 =
      nth offer.attr rtpmap row.1 (repeats (before.map Prod.fst) row.1) := by
    rw [findAttrNth,← early.settled whole dynamic found]
    exact matched.attributes rtpmap (by simp) row.1 0
  have kept : findAttr (leftAnswer answer rows).attr rtpmap fmt =
      nth answer.attr rtpmap fmt (leftOut customFmtMatch offer answer fmt) := by
    rw [findAttrNth,← matched.skips early]
    exact pickAttributes (matched.ahead distinct) (by simp) fmt 0
  unfold Paired
  rw [offered,kept]
  exact or_iff_right fun static => Nat.not_lt.mpr dynamic static.1

theorem Matched.pairs (matched : Matched customFmtMatch answer offer.fmt offer.attr rows left)
    (distinct : ((answered answer rows).map Prod.snd).Nodup) :
    (∀ place ∈ (leftOffer offer answer rows left).fmt.zip (leftAnswer answer rows).fmt,
        Paired (leftOffer offer answer rows left) (leftAnswer answer rows) place.1 place.2) ↔
      SameCodecs customFmtMatch offer answer := by
  have early := matched.early distinct
  have places : List.Forall₂ (fun p fmt => answer.fmt[p]? = some fmt) (priors answer rows)
      (leftAnswer answer rows).fmt := (pickPlaces (matched.ahead distinct)).imp fun _ _ mem =>
    List.mk_mem_zipIdx_iff_getElem?.mp mem
  refine (zipRows places _).trans ⟨fun all => ⟨?_⟩,fun same row mem fmt there => ?_⟩
  · intro before fmt after formats dynamic j given own there
    rw [← matched.formats] at formats
    obtain ⟨front,back,whole,rfl,tail⟩ := List.map_eq_append_iff.mp formats
    obtain ⟨row,back,rfl,rfl,rfl⟩ := List.map_eq_cons_iff.mp tail
    rw [matched.own whole (early front row _ whole)] at own
    obtain ⟨inside,rfl⟩ : row.2 < answer.fmt.length ∧ row.2 = j := by simpa using own
    have found : row.2 ≠ answer.fmt.length := Nat.ne_of_lt inside
    have kept : row ∈ sorted answer rows :=
      (exchangeSortPerm _).mem_iff.mpr (List.mem_filter.mpr ⟨by simp [whole],by simpa using found⟩)
    exact (matched.paired distinct whole dynamic found given).mp (all row kept given there)
  · obtain ⟨known,found⟩ := answeredMem ((exchangeSortPerm _).mem_iff.mp mem)
    obtain ⟨before,after,whole⟩ := List.append_of_mem known
    have inside : row.2 < answer.fmt.length := Nat.lt_of_le_of_ne (matched.bound known) found
    rcases Nat.lt_or_ge (ptNumber row.1) 96 with static | dynamic
    · have itself := findAnswerStatic static (matched.finds before row after whole) inside
      obtain rfl : row.1 = fmt := Option.some.inj (itself.symm.trans there)
      exact .inl ⟨static,rfl⟩
    · have formats : offer.fmt = before.map Prod.fst ++ row.1 :: after.map Prod.fst := by
        rw [← matched.formats,whole,List.map_append,List.map_cons]
      have own := matched.own whole (early before row after whole)
      rw [if_pos inside] at own
      exact (matched.paired distinct whole dynamic found fmt).mpr
        (same.codecs _ _ _ formats dynamic row.2 fmt own there)

theorem formatsPairUp {offerLeft answerLeft : Media}
    (run : processFormats customFmtMatch offer answer = some (.ok (offerLeft, answerLeft))) :
    PairsUp answer offerLeft answerLeft ↔
      Separate customFmtMatch offer answer ∧ SameCodecs customFmtMatch offer answer := by
  obtain ⟨rows,left,matched,rfl,rfl⟩ := processFormatsRuns run
  rw [separateIff matched]
  constructor
  · intro up
    have distinct := matched.counts.mp up.counts
    exact ⟨distinct,(matched.pairs distinct).mp up.pairs⟩
  · rintro ⟨distinct,same⟩
    exact ⟨matched.counts.mpr distinct,(matched.pairs distinct).mpr same,pickOrder⟩

end Pairing

section Answer

variable {customFmtMatch : Text → Option Attr → Option Attr → Bool} {offer answer : Media}

def directed (offer answer : Media) : Media :=
  { offer with attr := updateMediaDirection answer.attr offer.attr }

theorem ownAnswerDirected (before : List Text) (fmt : Text) :
    ownAnswer customFmtMatch (directed offer answer) answer before fmt =
      ownAnswer customFmtMatch offer answer before fmt := by
  have map := @directionNth offer.attr rtpmap fmt answer.attr (by simp)
  have own := @directionNth offer.attr fmtp fmt answer.attr (by simp)
  simp only [ownAnswer,directed,map,own]

theorem ownAnswersDirected (before fmts : List Text) :
    ownAnswers customFmtMatch (directed offer answer) answer before fmts =
      ownAnswers customFmtMatch offer answer before fmts := by
  induction fmts generalizing before with
  | nil => rfl
  | cons fmt rest ih => rw [ownAnswers,ownAnswers,ih,ownAnswerDirected]

theorem leftOutDirected (fmt : Text) :
    leftOut customFmtMatch (directed offer answer) answer fmt = leftOut customFmtMatch offer answer fmt := by
  have same := @ownAnswersDirected customFmtMatch offer answer [] offer.fmt
  unfold leftOut
  rw [← same]
  rfl

theorem mapDirected (fmt : Text) (n : Nat) :
    nth (directed offer answer).attr rtpmap fmt n = nth offer.attr rtpmap fmt n :=
  directionNth (by simp) n

theorem separateDirected :
    Separate customFmtMatch (directed offer answer) answer ↔ Separate customFmtMatch offer answer := by
  constructor
  · rintro ⟨distinct,last⟩
    simp only [ownAnswersDirected,ownAnswerDirected] at distinct last
    exact ⟨distinct,last⟩
  · rintro ⟨distinct,last⟩
    constructor
    · rw [ownAnswersDirected]
      exact distinct
    · intro before fmt after formats dynamic own
      rw [ownAnswerDirected] at own
      exact last before fmt after formats dynamic own

theorem sameCodecsDirected :
    SameCodecs customFmtMatch (directed offer answer) answer ↔ SameCodecs customFmtMatch offer answer := by
  constructor
  · rintro ⟨codecs⟩
    simp only [ownAnswerDirected,leftOutDirected,mapDirected] at codecs
    exact ⟨codecs⟩
  · rintro ⟨codecs⟩
    constructor
    intro before fmt after formats dynamic j answered own there
    rw [ownAnswerDirected] at own
    rw [mapDirected,leftOutDirected]
    exact codecs before fmt after formats dynamic j answered own there

/- What is left of an offer and of its answer pairs up exactly when the offered formats are separate and their codecs
are the same. -/
theorem answerPairsUp {offerLeft answerLeft : Media} (offered : offer.port ≠ 0) (accepted : answer.port ≠ 0)
    (run : processMAnswer customFmtMatch offer answer false = some (.ok (offerLeft, answerLeft))) :
    PairsUp answer offerLeft answerLeft ↔
      Separate customFmtMatch offer answer ∧ SameCodecs customFmtMatch offer answer := by
  unfold processMAnswer at run
  rw [if_neg accepted,if_neg offered] at run
  split at run
  · simp at run
  · split at run
    · simp at run
    · have formats : processFormats customFmtMatch (directed offer answer) answer =
          some (.ok (offerLeft, answerLeft)) := run
      rw [formatsPairUp formats,separateDirected,sameCodecsDirected]

end Answer

section Lines

def voice (fmt : List String) (maps : List String) : Media where
  media := ascii "audio"
  port := 4000
  portCount := 0
  transport := ascii "RTP/AVP"
  fmt := fmt.map ascii
  conn := none
  bandw := []
  attr := maps.map fun map => ⟨rtpmap,ascii map⟩

def anyFmt : Text → Option Attr → Option Attr → Bool := fun _ _ _ => true

/- Of three offered formats the answer takes the second. -/
theorem alawAnswered : Separate anyFmt (voice ["0","8","96"] ["96 AMR/8000"]) (voice ["8"] []) ∧
    SameCodecs anyFmt (voice ["0","8","96"] ["96 AMR/8000"]) (voice ["8"] []) := by
  have run : processMAnswer anyFmt (voice ["0","8","96"] ["96 AMR/8000"]) (voice ["8"] []) false =
      some (.ok (voice ["8"] [], voice ["8"] [])) := by decide +kernel
  refine (answerPairsUp (by decide) (by decide) run).mp ⟨rfl,fun place mem => ?_,.refl _⟩
  have only : place = (ascii "8", ascii "8") := by simpa [voice] using mem
  rw [only]
  exact .inl ⟨by decide,rfl⟩

def amrOffer : Media := voice ["96","97"] ["96 AMR/8000","97 AMR/8000"]

def amrAnswer : Media := voice ["96"] ["96 AMR/8000"]

/- One answered format for two offered ones, which are both left. -/
theorem amrOfferedTwice : validate (sessionOf [amrOffer]) = .ok () ∧ validate (sessionOf [amrAnswer]) = .ok () ∧
    processMAnswer anyFmt amrOffer amrAnswer false = some (.ok (amrOffer, amrAnswer)) ∧
      ¬PairsUp amrAnswer amrOffer amrAnswer := by
  refine ⟨by decide +kernel,by decide +kernel,by decide +kernel,fun up => ?_⟩
  have counts := up.counts
  simp [amrOffer,amrAnswer,voice] at counts

end Lines

end Pjproject.SdpNeg
