import Pjproject.XmlParse

/-! The parse of an XML text ends unless it comes to a CDATA section whose first bracket begins no end of a section:
that loop looks for the next bracket from the bracket where it stands. Every other iteration moves on. -/
namespace Pjproject.Xml
open Multipart (Text ascii cur)
open Scan
open Lib.Progress

def toBracket (s : Text) : Text := s.dropWhile (fun c => !([bracket].contains c))

/- The scanner stands at no blank before an attribute, and in a section of the text at a bracket or at the end. -/
def Ready (s : Text) (t : State) : Prop :=
  match t.loop with
  | .attrs _ => isBlank (cur t.rest) = false
  | .cdata _ start => cdataOpen ++ start <:+ s ∧ t.rest = toBracket start
  | _ => True

/- A syntax error, a result, or a state in which the scanner has moved on. -/
def Moves (s : Text) (x : Option Parse) : Prop := ∀ t, x = some (.more t) → After s t.rest ∧ Ready s t

section Rules

variable {s u : Text}

theorem noneMoves : Moves s none := fun _ more => nomatch more

theorem doneMoves (r : Option Node) : Moves s (some (.done r)) := fun _ more => nomatch more

theorem moreMoves {t : State} (after : After s t.rest) (ready : Ready s t) : Moves s (some (.more t)) := by
  intro t' more
  cases more
  exact ⟨after,ready⟩

theorem bindMoves {α : Type} {x : Option α} {f : α → Option Parse} (each : ∀ a, x = some a → Moves s (f a)) :
    Moves s (x >>= f) := by
  cases x with
  | none => exact noneMoves
  | some a => exact each a rfl

theorem iteMoves {c : Prop} [Decidable c] {x y : Option Parse} (yes : c → Moves s x) (no : ¬ c → Moves s y) :
    Moves s (if c then x else y) := by
  by_cases holds : c
  · rw [if_pos holds]
    exact yes holds
  · rw [if_neg holds]
    exact no holds

theorem guardMoves {c : Prop} [Decidable c] {next : Unit → Option Parse} (ok : ¬ c → Moves s (next ())) :
    Moves s (if c then (none : Option Unit) >>= next else next ()) :=
  iteMoves (fun _ => noneMoves) ok

theorem Ready.weaken {t : State} (ready : Ready u t) (before : u <:+ s) : Ready s t := by
  obtain ⟨stack,loop,rest⟩ := t
  cases loop with
  | cdata => exact ⟨ready.1.trans before,ready.2⟩
  | _ => exact ready

theorem Moves.from {x : Option Parse} (before : u <:+ s) (moves : Moves u x) : Moves s x := by
  intro t more
  obtain ⟨after,ready⟩ := moves t more
  exact ⟨After.from before after,ready.weaken before⟩

end Rules

section Steps

variable {stack : List Node} {node : Node} {s : Text}

theorem parseNodeMoves : Moves s (parseNode stack s) := by
  unfold parseNode
  refine guardMoves (fun _ => iteMoves (fun _ => ?_) (fun _ => ?_))
  · exact bindMoves (fun t moved => moreMoves (advanceAfter Nat.two_pos moved) trivial)
  · refine bindMoves (fun same _ => iteMoves (fun _ => ?_) (fun _ => ?_))
    · exact bindMoves (fun t moved => moreMoves (advanceAfter Nat.two_pos moved) trivial)
    · refine bindMoves (fun (_, t) first => bindMoves (fun (name, u) read => ?_))
      obtain ⟨-,past,plain⟩ := getUntilSuffix read
      exact moreMoves ((getCharAfter first).1.then past) plain

theorem returnMoves {t : Text} (after : After s t) : Moves s (some (returnNode stack node t)) := by
  cases stack with
  | nil => exact doneMoves (some node)
  | cons => exact moreMoves after trivial

theorem closeNodeMoves : Moves s (closeNode stack node s) := by
  unfold closeNode
  refine bindMoves (fun (_, s₁) first => guardMoves (fun _ => ?_))
  refine bindMoves (fun (_, s₂) slashed => guardMoves (fun _ => ?_))
  refine bindMoves (fun (_, s₃) named => guardMoves (fun _ => ?_))
  refine bindMoves (fun (_, s₄) last => guardMoves (fun _ => returnMoves ?_))
  have begun : After s s₂ := (getCharAfter first).1.trans (getCharAfter slashed).1
  exact (begun.then (getUntilSuffix named).2.1).trans (getCharAfter last).1

theorem piMoves : Moves s (piStep stack s) := by
  unfold piStep
  refine bindMoves (fun (_, t) found => ?_)
  obtain ⟨-,past,-⟩ := getUntilSuffix found
  refine Moves.from past (iteMoves (fun _ => ?_) (fun _ => ?_))
  · exact bindMoves (fun u moved => parseNodeMoves.from (advanceAfter Nat.two_pos moved).1)
  · exact bindMoves (fun u moved => moreMoves (advanceAfter Nat.one_pos moved) trivial)

theorem commentMoves : Moves s (commentStep stack s) := by
  unfold commentStep
  refine bindMoves (fun (_, t) found => ?_)
  obtain ⟨-,past,-⟩ := getUntilSuffix found
  refine Moves.from past (bindMoves (fun same _ => iteMoves (fun _ => ?_) (fun _ => ?_)))
  · exact bindMoves (fun u moved => parseNodeMoves.from (advanceAfter Nat.one_pos moved).1)
  · exact bindMoves (fun u moved => moreMoves (advanceAfter Nat.one_pos moved) trivial)

theorem attributeStop {c : UInt8} (stopped : (ascii "=> \t\r\n").contains c = true) (plain : isBlank c = false)
    (inTag : c ≠ gt) : c = equals := by
  have listed : c ∈ [equals,gt,32,9,13,10] := List.contains_iff_mem.mp stopped
  simp only [List.mem_cons,List.not_mem_nil,or_false] at listed
  rcases listed with rfl | rfl | rfl | rfl | rfl | rfl
  · rfl
  · exact absurd rfl inTag
  · exact nomatch plain
  · exact nomatch plain
  · exact nomatch plain
  · exact nomatch plain

theorem attrsMoves (plain : isBlank (cur s) = false) : Moves s (attrsStep stack node s) := by
  unfold attrsStep
  refine iteMoves (fun inTag => ?_) (fun _ => iteMoves (fun _ => ?_) (fun _ => ?_))
  · refine bindMoves (fun (name, t) read => ?_)
    obtain ⟨-,past,plain'⟩ := getUntilSuffix read
    refine iteMoves (fun _ => ?_) (fun noValue => ?_)
    · refine bindMoves (fun (_, u) eq => bindMoves (fun (value, v) quoted => ?_))
      obtain ⟨after,plain''⟩ := getQuotesAfter quoted
      exact moreMoves (After.from past ((getCharAfter eq).1.trans after)) plain''
    · cases stopped : (ascii "=> \t\r\n").contains (cur s) with
      | false => exact moreMoves (getUntilAfter read stopped) plain'
      | true =>
        -- it stands at an equals sign then, and has not moved
        have more := (getUntilSuffix read).1
        rw [getUntilHere stopped plain more] at read
        obtain ⟨-,rfl⟩ := Prod.mk.inj (Option.some.inj read)
        exact absurd (attributeStop stopped plain inTag.1) noValue
  · refine bindMoves (fun (_, t) first => bindMoves (fun (_, u) last => guardMoves (fun _ => ?_)))
    exact returnMoves ((getCharAfter first).1.trans (getCharAfter last).1)
  · exact bindMoves (fun (_, t) first => guardMoves (fun _ => moreMoves (getCharAfter first).1 trivial))

theorem contentSuffix {node' : Node} {t : Text} (read : getContent node s = some (node', t)) : t <:+ s := by
  unfold getContent at read
  split at read
  · cases found : getUntil [lt] s with
    | none =>
      rw [found] at read
      exact nomatch read
    | some =>
      rw [found] at read
      obtain ⟨-,rfl⟩ := Prod.mk.inj (Option.some.inj read)
      exact (getUntilSuffix found).2.1
  · obtain ⟨-,rfl⟩ := Prod.mk.inj (Option.some.inj read)
    exact List.suffix_rfl

theorem cdataBegins {t : Text} (opened : atCdata t = some true) : t = cdataOpen ++ t.drop 9 := by
  unfold atCdata at opened
  split at opened
  · exact strcmpPrefix opened
  · exact nomatch opened

theorem toBracketStops {start t content : Text} (read : getUntil [bracket] start = some (content, t)) :
    t = toBracket start :=
  (getUntilStops (fun _ mem => (List.mem_singleton.mp mem) ▸ rfl) read).1

theorem nodesMoves : Moves s (nodesStep stack node s) := by
  unfold nodesStep
  refine iteMoves (fun _ => parseNodeMoves) (fun _ => bindMoves (fun (node', t) read => ?_))
  refine Moves.from (contentSuffix read) (bindMoves (fun opened begins => iteMoves (fun yes => ?_) (fun _ => ?_)))
  · refine bindMoves (fun start moved => bindMoves (fun (content, u) found => moreMoves ?_ ⟨?_,toBracketStops found⟩))
    · exact (advanceAfter (by decide) moved).then (getUntilSuffix found).2.1
    · rw [yes] at begins
      have same : start = t.drop 9 := by
        unfold advance at moved
        split at moved
        · exact nomatch moved
        · exact (Option.some.inj moved).symm
      have whole : t = cdataOpen ++ start := same ▸ cdataBegins begins
      exact whole ▸ List.suffix_rfl
  · exact closeNodeMoves

end Steps

/- The loop of a CDATA section stands at a bracket that does not begin the end of the section. -/
def Stalls (s : State) : Prop :=
  match s.loop with
  | .cdata _ _ => 3 ≤ s.rest.length ∧ s.rest.take 3 ≠ cdataClose
  | _ => False

section Machine

variable {msg : Text} {t : State}

theorem caughtMore {x : Option Parse} (more : caught x = .more t) : x = some (.more t) := by
  cases x with
  | none => exact nomatch more
  | some => exact congrArg some more

theorem stepMoves {s : State} (ready : Ready msg s) (live : ¬ Stalls s) (next : step s = .more t) :
    After s.rest t.rest ∧ Ready s.rest t := by
  obtain ⟨stack,loop,rest⟩ := s
  have moved := caughtMore next
  cases loop with
  | pi => exact piMoves t moved
  | comment => exact commentMoves t moved
  | attrs => exact attrsMoves ready t moved
  | nodes => exact nodesMoves t moved
  | cdata node start =>
    have moves : Moves rest (cdataStep stack node start rest) := by
      unfold cdataStep
      refine bindMoves (fun closed compared => iteMoves (fun _ => ?_) (fun no => ?_))
      · exact bindMoves (fun u end_ => closeNodeMoves.from (advanceAfter (by decide) end_).1)
      · rw [Bool.eq_false_iff.mpr no] at compared
        exact absurd (strcmpDiffers compared) live
    exact moves t moved

theorem bracketStops (start : Text) : toBracket start = [] ∨ cur (toBracket start) = bracket := by
  cases rest : toBracket start with
  | nil => exact Or.inl rfl
  | cons c =>
    have stopped := List.head?_dropWhile_not (fun c => !([bracket].contains c)) start
    unfold toBracket at rest
    rw [rest] at stopped
    have here : c = bracket := by simpa using stopped
    exact Or.inr here

theorem stepStays {s : State} (ready : Ready msg s) (stalls : Stalls s) : step s = .more s := by
  obtain ⟨stack,loop,rest⟩ := s
  cases loop with
  | cdata node start =>
    obtain ⟨enough,differs⟩ := stalls
    have enough : cdataClose.length ≤ rest.length := enough
    have more : rest ≠ [] := by
      rintro rfl
      exact absurd enough (by decide)
    have here : cur rest = bracket := by
      obtain ⟨-,same⟩ := ready
      have same : rest = toBracket start := same
      rcases bracketStops start with nil | bracketed
      · exact absurd (same.trans nil) more
      · rw [same]
        exact bracketed
    have compared : strcmp rest cdataClose = some false := by
      unfold strcmp
      rw [if_neg (Nat.not_lt.mpr enough)]
      exact congrArg some (beq_eq_false_iff_ne.mpr differs)
    have stays : getUntil [bracket] rest = some ([], rest) := by
      refine getUntilHere ?_ ?_ more
      · rw [here]
        rfl
      · rw [here]
        rfl
    have iteration : cdataStep stack node start rest = some (.more ⟨stack,.cdata node start,rest⟩) := by
      unfold cdataStep
      rw [compared,stays]
      rfl
    exact congrArg caught iteration
  | pi => exact stalls.elim
  | comment => exact stalls.elim
  | attrs => exact stalls.elim
  | nodes => exact stalls.elim

theorem startMoves (first : start msg = .more t) : After msg t.rest ∧ Ready msg t := by
  unfold start at first
  split at first
  · exact nomatch first
  · have before : skipWhitespace msg <:+ msg := skipIsDrop msg ▸ List.dropWhile_suffix _
    exact parseNodeMoves.from before t (caughtMore first)

theorem reachedReady (reached : Reaches step (start msg) t) : t.rest <:+ msg ∧ Ready msg t := by
  refine @reachesKeeps _ _ _ (fun u => u.rest <:+ msg ∧ Ready msg u) _ (fun s first => ?_)
    (fun s u held next => ?_) _ reached
  · obtain ⟨after,ready⟩ := startMoves first
    exact ⟨after.1,ready⟩
  · by_cases stalls : Stalls s
    · rw [stepStays held.2 stalls] at next
      cases next
      exact held
    · obtain ⟨after,ready⟩ := stepMoves held.2 stalls next
      exact ⟨after.1.trans held.1,ready.weaken held.1⟩

theorem stallStays (reached : Reaches step (start msg) t) (stalls : Stalls t) : step t = .more t :=
  stepStays (reachedReady reached).2 stalls

theorem liveMoves {u : State} (reached : Reaches step (start msg) t) (live : ¬ Stalls t) (next : step t = .more u) :
    After t.rest u.rest :=
  (stepMoves (reachedReady reached).2 live next).1

end Machine

/- Every iteration and every call moves the scanner on, or ends the parse. -/
def Advances (msg : Text) : Prop :=
  (∀ s, start msg = .more s → After msg s.rest) ∧
    ∀ s t, Reaches step (start msg) s → step s = .more t → After s.rest t.rest

section Results

variable {msg : Text}

theorem parseEnds (live : ∀ s, Reaches step (start msg) s → ¬ Stalls s) : ∃ r, parse msg = .done r := by
  unfold parse
  cases first : start msg with
  | done r => exact ⟨r,runDone _ r⟩
  | more s =>
    have drops : ∀ t u, Reaches step (.more s) t → step t = .more u → u.rest.length < t.rest.length := by
      intro t u reached next
      rw [← first] at reached
      exact (liveMoves reached (live t reached) next).2
    obtain ⟨r,ended⟩ := dropsEnd drops
    obtain ⟨extra,total⟩ := Nat.exists_eq_add_of_lt (startMoves first).1.2
    have steps : msg.length + 1 = s.rest.length + 1 + (extra + 1) := by omega
    exact ⟨r,by rw [steps,runAdd,ended,runDone]⟩

/- The parse ends and always moves on exactly when it comes to no section whose first bracket is not its end. -/
theorem parseTerminates (msg : Text) :
    (Ends step (start msg) ∧ Advances msg) ↔ ∀ s, Reaches step (start msg) s → ¬ Stalls s := by
  constructor
  · intro ⟨ends,_⟩ s reached stalls
    exact stuckBlocks reached (stallStays reached stalls) ends
  · intro live
    refine ⟨?_,fun s first => (startMoves first).1,fun s t reached next => liveMoves reached (live s reached) next⟩
    obtain ⟨r,ended⟩ := parseEnds live
    exact ⟨_,r,ended⟩

/- A bracket inside a section. -/
theorem bracketNeverEnds : ¬ (Ends step (start (ascii "<a><![CDATA[x]y]]></a>")) ∧
    Advances (ascii "<a><![CDATA[x]y]]></a>")) := by
  intro ⟨ends,_⟩
  have stuck : step ⟨[],.cdata ⟨ascii "a",[],[],ascii "x"⟩ (ascii "x]y]]></a>"),ascii "]y]]></a>"⟩ =
      .more ⟨[],.cdata ⟨ascii "a",[],[],ascii "x"⟩ (ascii "x]y]]></a>"),ascii "]y]]></a>"⟩ := rfl
  exact stuckBlocks ⟨2,rfl⟩ stuck ends

end Results

end Pjproject.Xml
