import Mathlib

/-! Printing into a buffer of a given size, step after step. A step refuses or writes its text and goes on behind it; most
steps ask for one byte more, which is left for the terminator, and a loose one does not. -/
namespace Pjproject.Lib.BoundedPrint

/- The place to write at, from the start of the buffer, and all that was written. -/
structure Cursor where
  place : Int
  writes : List (Int × UInt8)

abbrev Step := Cursor → Except Cursor Cursor

def Cursor.put (c : Cursor) : List UInt8 → Cursor
  | [] => c
  | b :: bytes => Cursor.put ⟨c.place + 1,c.writes ++ [(c.place, b)]⟩ bytes

def Cursor.Inside (c : Cursor) (size : Nat) : Prop := ∀ w ∈ c.writes, 0 ≤ w.1 ∧ w.1 < size

def toInt (n : Int) : Int := n.bmod (2 ^ 32)

def reached : Except Cursor Cursor → Cursor
  | .ok c => c
  | .error c => c

theorem toIntCases (n : Int) :
    toInt n = if n % 4294967296 < 2147483648 then n % 4294967296 else n % 4294967296 - 4294967296 := by rfl

variable {n start m total : Nat} {f g : Step} {loose : Bool} {p q onward : Prop}

theorem toIntSmall (small : n < 2 ^ 31) : toInt n = n := by
  rw [toIntCases]
  omega

theorem toIntLess (n : Nat) : toInt n ≤ n := by
  rw [toIntCases]
  omega

theorem toIntSame (same : toInt n = n) : n < 2 ^ 31 := by
  rw [toIntCases] at same
  omega

theorem toIntAdd (m n : Int) : toInt (m + toInt n) = toInt (m + n) := Int.add_bmod_bmod

variable {c c' : Cursor} {size : Nat}

theorem putPlace (c : Cursor) (bytes : List UInt8) : (c.put bytes).place = c.place + bytes.length := by
  induction bytes generalizing c with
  | nil => exact (Int.add_zero _).symm
  | cons b bytes ih =>
    rw [Cursor.put,ih,List.length_cons]
    push_cast
    omega

theorem putGrows (c : Cursor) (bytes : List UInt8) : c.writes ⊆ (c.put bytes).writes := by
  induction bytes generalizing c with
  | nil => exact fun _ member => member
  | cons b bytes ih => exact fun w member => ih _ (List.mem_append_left _ member)

theorem putAppend (c : Cursor) (first second : List UInt8) : c.put (first ++ second) = (c.put first).put second := by
  induction first generalizing c with
  | nil => rfl
  | cons b first ih => exact ih _

theorem putInside {bytes : List UInt8} (inside : c.Inside size) (start : 0 ≤ c.place) (fits : c.place + bytes.length ≤ size) :
    (c.put bytes).Inside size := by
  induction bytes generalizing c with
  | nil => exact inside
  | cons b bytes ih =>
    rw [List.length_cons] at fits
    push_cast at fits
    refine ih ?_ (by dsimp only; omega) (by dsimp only; omega)
    intro w member
    rcases List.mem_append.mp member with old | new
    · exact inside w old
    · rw [List.mem_singleton.mp new]
      dsimp only
      omega

theorem putOutside {bytes : List UInt8} (some : bytes ≠ []) (beyond : size < c.place + bytes.length) :
    ¬(c.put bytes).Inside size := by
  obtain ⟨front,last,rfl⟩ := List.eq_nil_or_concat bytes |>.resolve_left some
  intro inside
  rw [List.concat_eq_append,putAppend] at inside
  have at_end := inside ((c.put front).place, last) (List.mem_append_right _ List.mem_cons_self)
  rw [putPlace] at at_end
  rw [List.concat_eq_append,List.length_append,List.length_singleton] at beyond
  push_cast at beyond
  dsimp only at at_end
  omega

def Stops (size : Nat) (r : Except Cursor Cursor) : Prop := ∃ c, r = .error c ∧ c.Inside size

def Goes (size : Nat) (r : Except Cursor Cursor) (place : Nat) : Prop := ∃ c, r = .ok c ∧ c.place = place ∧ c.Inside size

/- How a step from a place on prints a text of some length. -/
structure Prints (size : Nat) (f : Step) (start n : Nat) (loose : Bool) : Prop where
  none : start ≤ size → n = 0 → ∀ c : Cursor, c.place = start → f c = .ok c
  fits : start + n < size → ∀ c : Cursor, c.place = start → c.Inside size → Goes size (f c) (start + n)
  fills : start + n = size → 0 < n → ∀ c : Cursor, c.place = start → c.Inside size →
    if loose then Goes size (f c) (start + n) else Stops size (f c)
  beyond : start ≤ size → size < start + n → ∀ c : Cursor, c.place = start → c.Inside size → Stops size (f c)

/- Whether the place behind a text is reached. -/
def Reaches (size start n : Nat) (loose : Bool) : Prop := start + n < size ∨ start + n = size ∧ (n = 0 ∨ loose)

theorem Prints.goes (prints : Prints size f start n loose)
    (reaches : Reaches size start n loose) (here : c.place = start) (inside : c.Inside size) : Goes size (f c) (start + n) := by
  rcases reaches with less | ⟨same,rfl | rfl⟩
  · exact prints.fits less c here inside
  · exact ⟨c,prints.none (Nat.le_of_eq same) rfl c here,here,inside⟩
  · rcases Nat.eq_zero_or_pos n with rfl | more
    · exact ⟨c,prints.none (Nat.le_of_eq same) rfl c here,here,inside⟩
    · exact prints.fills same more c here inside

theorem Prints.stops (prints : Prints size f start n loose) (within : start ≤ size)
    (fails : ¬Reaches size start n loose) (here : c.place = start) (inside : c.Inside size) : Stops size (f c) ∧ size ≤ start + n := by
  unfold Reaches at fails
  rcases Nat.lt_trichotomy (start + n) size with less | same | more
  · exact absurd (.inl less) fails
  · have some : 0 < n := by
      refine Nat.pos_of_ne_zero fun none => fails (.inr ⟨same,.inl none⟩)
    have strict : loose = false := by
      cases loose with
      | false => rfl
      | true => exact absurd (.inr ⟨same,.inr rfl⟩) fails
    have stops := prints.fills same some c here inside
    rw [strict] at stops
    exact ⟨stops,Nat.le_of_eq same.symm⟩
  · exact ⟨prints.beyond within more c here inside,Nat.le_of_lt more⟩

theorem Prints.seq {l k : Bool} (first : Prints size f start n l)
    (second : Reaches size start n l → Prints size g (start + n) m k) :
    Prints size (fun c => (f c).bind g) start (n + m) (if m = 0 then l else k) := by
  have onward : Reaches size start n l → ∀ c : Cursor, c.place = start → c.Inside size →
      ∃ c', (f c).bind g = g c' ∧ c'.place = (start + n : Nat) ∧ c'.Inside size := by
    intro reaches c here inside
    obtain ⟨c',same,place,inside'⟩ := first.goes reaches here inside
    exact ⟨c',by rw [same]; rfl,place,inside'⟩
  have refused : start ≤ size → ¬Reaches size start n l → ∀ c : Cursor, c.place = start → c.Inside size → Stops size ((f c).bind g) := by
    intro within fails c here inside
    obtain ⟨⟨c',same,inside'⟩,_⟩ := first.stops within fails here inside
    exact ⟨c',by rw [same]; rfl,inside'⟩
  refine ⟨?_,?_,?_,?_⟩
  · intro within none c here
    obtain ⟨rfl,rfl⟩ : n = 0 ∧ m = 0 := by omega
    have reaches : Reaches size start 0 l := by
      rcases Nat.lt_or_eq_of_le within with less | same
      · exact .inl less
      · exact .inr ⟨same,.inl rfl⟩
    rw [first.none within rfl c here]
    exact (second reaches).none within rfl c here
  · intro less c here inside
    have reaches : Reaches size start n l := .inl (by omega)
    obtain ⟨c',same,place,inside'⟩ := onward reaches c here inside
    rw [same,← Nat.add_assoc]
    exact (second reaches).fits (by omega) c' place inside'
  · intro same some c here inside
    by_cases reaches : Reaches size start n l
    · obtain ⟨c',goesOn,place,inside'⟩ := onward reaches c here inside
      rw [goesOn,← Nat.add_assoc]
      by_cases none : m = 0
      · subst none
        have stays := (second reaches).none (by omega) rfl c' place
        have loose : l = true := by
          rcases reaches with less | ⟨_,none | loose⟩
          · omega
          · omega
          · exact loose
        rw [if_pos rfl,loose,stays]
        exact ⟨c',rfl,place,inside'⟩
      · rw [if_neg none]
        exact (second reaches).fills (by omega) (Nat.pos_of_ne_zero none) c' place inside'
    · have last : m = 0 ∧ l = false := by
        unfold Reaches at reaches
        refine ⟨by omega,?_⟩
        cases l with
        | false => rfl
        | true => exact absurd (.inr ⟨by omega,.inr rfl⟩) reaches
      rw [if_pos last.1,last.2]
      exact refused (by omega) reaches c here inside
  · intro within more c here inside
    by_cases reaches : Reaches size start n l
    · obtain ⟨c',goesOn,place,inside'⟩ := onward reaches c here inside
      rw [goesOn]
      refine (second reaches).beyond ?_ (by omega) c' place inside'
      rcases reaches with less | ⟨same,_⟩ <;> omega
    · exact refused within reaches c here inside

theorem Prints.alike {n' : Nat} {l l' : Bool} (prints : Prints size f start n l) (length : n = n')
    (loose : l = l') : Prints size f start n' l' := by
  subst length loose
  exact prints

theorem skipPrints (size start : Nat) (loose : Bool) : Prints size .ok start 0 loose := by
  refine ⟨fun _ _ c _ => rfl,fun _ c here inside => ⟨c,rfl,here,inside⟩,?_,?_⟩
  · exact fun _ none => absurd none (Nat.lt_irrefl 0)
  · exact fun within more => absurd within (Nat.not_le.mpr more)

/- A step that asks for some room, whatever its text takes, and writes a terminator behind it. -/
structure Assumes (size : Nat) (f : Step) (start room n : Nat) : Prop where
  refuses : size < start + room → ∀ c : Cursor, c.place = start → c.Inside size → Stops size (f c)
  goes : start + room ≤ size → start + n < size → ∀ c : Cursor, c.place = start → c.Inside size → Goes size (f c) (start + n)
  leaves : start + room ≤ size → size ≤ start + n → ∀ c : Cursor, c.place = start → ¬(reached (f c)).Inside size

def Grows (f : Step) : Prop := ∀ c, c.writes ⊆ (reached (f c)).writes

/- Where a step goes on: behind its text, when all that it counts as a C int is counted right, or else too early. -/
def Advances (f : Step) (n : Nat) (counted : Prop) : Prop :=
  ∀ c c', f c = .ok c' → c'.place = c.place + n ∧ counted ∨ c'.place < c.place + n ∧ 2 ^ 31 ≤ n

structure Moves (f : Step) (n : Nat) (counted : Prop) : Prop where
  grows : Grows f
  advances : Advances f n counted

theorem skipMoves : Moves .ok 0 True := by
  refine ⟨fun _ _ member => member,fun c c' goes => ?_⟩
  cases goes
  exact .inl ⟨(Int.add_zero _).symm,trivial⟩

theorem Moves.imp (moves : Moves f n p) (weaker : p → q) : Moves f n q := by
  refine ⟨moves.grows,fun c c' goes => ?_⟩
  rcases moves.advances c c' goes with ⟨place,counted⟩ | short
  · exact .inl ⟨place,weaker counted⟩
  · exact .inr short

theorem Grows.seq (first : Grows f) (second : Grows g) : Grows fun c => (f c).bind g := by
  intro c w member
  have kept := first c member
  show w ∈ (reached ((f c).bind g)).writes
  cases result : f c with
  | error =>
    rw [result] at kept
    exact kept
  | ok c' =>
    rw [result] at kept
    exact second c' kept

theorem Advances.seq (first : Advances f n p) (second : Advances g m q) :
    Advances (fun c => (f c).bind g) (n + m) (p ∧ q) := by
  intro c c' goes
  change (f c).bind g = .ok c' at goes
  cases result : f c with
  | error =>
    rw [result] at goes
    cases goes
  | ok c'' =>
    rw [result] at goes
    push_cast
    rcases first c c'' result with ⟨place,counted⟩ | ⟨less,more⟩
    · rcases second c'' c' goes with ⟨place',counted'⟩ | ⟨less,more⟩
      · exact .inl ⟨by omega,counted,counted'⟩
      · exact .inr ⟨by omega,by omega⟩
    · rcases second c'' c' goes with ⟨place',_⟩ | ⟨less',_⟩
      · exact .inr ⟨by omega,by omega⟩
      · exact .inr ⟨by omega,by omega⟩

theorem Moves.seq (first : Moves f n p) (second : Moves g m q) : Moves (fun c => (f c).bind g) (n + m) (p ∧ q) :=
  ⟨first.grows.seq second.grows,first.advances.seq second.advances⟩

/- What a whole print must do: the length of the text where a terminator fits behind it, and nothing outside. -/
def Right (size total : Nat) : Except Cursor Cursor → Prop
  | .error c => c.Inside size ∧ size ≤ total
  | .ok c => c.Inside size ∧ c.place = total ∧ total < size

theorem Right.inside {r : Except Cursor Cursor} (right : Right size total r) : (reached r).Inside size := by
  cases r with
  | error => exact right.1
  | ok => exact right.1

theorem outsideWrong (grows : Grows g) (outside : ¬(reached (f c)).Inside size) :
    ¬Right size total ((f c).bind g) := by
  intro right
  refine outside fun w member => right.inside w ?_
  cases result : f c with
  | error =>
    rw [result] at member
    exact member
  | ok c' =>
    rw [result] at member
    exact grows c' member

theorem Prints.right (prints : Prints size f start n loose) (within : start ≤ size) (all : start + n ≤ total)
    (after : Reaches size start n loose → ∀ c : Cursor, c.place = (start + n : Nat) → c.Inside size →
      (Right size total (g c) ↔ onward)) (here : c.place = start) (inside : c.Inside size) :
    Right size total ((f c).bind g) ↔ (Reaches size start n loose → onward) := by
  by_cases reaches : Reaches size start n loose
  · obtain ⟨c',same,place,inside'⟩ := prints.goes reaches here inside
    rw [same]
    have rest := after reaches c' place inside'
    exact ⟨fun right _ => rest.mp right,fun onward => rest.mpr (onward reaches)⟩
  · obtain ⟨⟨c',same,inside'⟩,full⟩ := prints.stops within reaches here inside
    rw [same]
    exact ⟨fun _ also => absurd also reaches,fun _ => ⟨inside',Nat.le_trans full all⟩⟩

/- A length that is counted right as a C int, if the text ends in the buffer. -/
def Short (size start n : Nat) : Prop := start + n ≤ size → n < 2 ^ 31

/- A text that is counted as a C int, where the count lets it pass only if it fits. -/
def Passes (size start n : Nat) : Prop := toInt n < size - start → start + n < size

/- A step that checks its text by such a count and writes it whole. -/
structure Counts (size : Nat) (f : Step) (n : Nat) : Prop where
  some : 0 < n
  refuses : ∀ c, size - c.place ≤ toInt n → f c = .error c
  goes : ∀ c, toInt n < size - c.place → ∃ c', f c = .ok c' ∧ c'.place = c.place + toInt n ∧ c.writes ⊆ c'.writes ∧
    (n < 2 ^ 31 → c.Inside size → 0 ≤ c.place → c.place + n ≤ size → c'.Inside size) ∧
    (size + 1 < c.place + n → ¬c'.Inside size)

theorem Counts.grows (counts : Counts size f n) : Grows f := by
  intro c
  by_cases refused : size - c.place ≤ toInt n
  · rw [counts.refuses c refused]
    exact fun _ member => member
  · obtain ⟨c',same,_,grows,_⟩ := counts.goes c (Int.lt_of_not_ge refused)
    rw [same]
    exact grows

theorem toIntShort (n : Nat) : toInt n = n ∧ n < 2 ^ 31 ∨ toInt n < n ∧ 2 ^ 31 ≤ n := by
  rcases Nat.lt_or_ge n (2 ^ 31) with short | long
  · exact .inl ⟨toIntSmall short,short⟩
  · refine .inr ⟨?_,long⟩
    have less := toIntLess n
    have other : toInt n ≠ n := fun same => absurd (toIntSame same) (Nat.not_lt.mpr long)
    omega

theorem Counts.advances (counts : Counts size f n) : Advances f n (n < 2 ^ 31) := by
  intro c c' goesOn
  by_cases refused : size - c.place ≤ toInt n
  · rw [counts.refuses c refused] at goesOn
    cases goesOn
  · obtain ⟨c'',same,place,_⟩ := counts.goes c (Int.lt_of_not_ge refused)
    obtain rfl : c'' = c' := by
      rw [same] at goesOn
      cases goesOn
      rfl
    rw [place]
    rcases toIntShort n with ⟨same,short⟩ | ⟨less,long⟩
    · exact .inl ⟨by omega,short⟩
    · exact .inr ⟨by omega,long⟩

theorem Counts.moves (counts : Counts size f n) : Moves f n (n < 2 ^ 31) := ⟨counts.grows,counts.advances⟩

theorem Counts.right (counts : Counts size f n) (grows : Grows g)
    (bounded : Short (size + 1) start n) (all : start + n ≤ total)
    (after : start + n < size → ∀ c : Cursor, c.place = (start + n : Nat) → c.Inside size → (Right size total (g c) ↔ onward))
    (here : c.place = start) (inside : c.Inside size) :
    Right size total ((f c).bind g) ↔ Passes size start n ∧ (Reaches size start n false → onward) := by
  have strict : Reaches size start n false ↔ start + n < size := by
    refine ⟨?_,.inl⟩
    rintro (less | ⟨_,none | no⟩)
    · exact less
    · exact absurd none (Nat.ne_of_gt counts.some)
    · cases no
  rw [strict]
  by_cases refused : size - c.place ≤ toInt n
  · rw [counts.refuses c refused]
    rw [here] at refused
    have full : size ≤ start + n := by
      have less := toIntLess n
      omega
    exact ⟨fun _ => ⟨fun passes => absurd refused (Int.not_le.mpr passes),fun fits => absurd full (Nat.not_le.mpr fits)⟩,
      fun _ => ⟨inside,Nat.le_trans full all⟩⟩
  · obtain ⟨c',same,place,_,stays,leaves⟩ := counts.goes c (Int.lt_of_not_ge refused)
    rw [here] at refused
    rcases toIntShort n with ⟨exact',short⟩ | ⟨_,long⟩
    · have fits : start + n < size := by omega
      rw [same]
      have rest := after fits c' (by omega) (stays short inside (by omega) (by omega))
      exact ⟨fun right => ⟨fun _ => fits,fun _ => rest.mp right⟩,fun both => rest.mpr (both.2 fits)⟩
    · have beyond : ¬start + n ≤ size + 1 := fun fits => absurd (bounded fits) (Nat.not_lt.mpr long)
      have outside : ¬(reached (f c)).Inside size := by
        rw [same]
        exact leaves (by omega)
      refine ⟨fun right => absurd right (outsideWrong grows outside),fun both => ?_⟩
      have fits := both.1 (Int.lt_of_not_ge refused)
      omega

theorem Assumes.right {room : Nat} {shown : Bool}
    (assumes : shown = true → Assumes size f start room n) (skips : shown = false → f = .ok ∧ n = 0) (grows : Grows g)
    (after : (shown = true → start + room ≤ size ∧ start + n < size) → ∀ c : Cursor, c.place = (start + n : Nat) →
      c.Inside size → (Right size total (g c) ↔ onward)) (here : c.place = start) (inside : c.Inside size) :
    Right size total ((f c).bind g) ↔
      (shown = true → (start + room ≤ size → start + n < size) ∧ (size < start + room → size ≤ total)) ∧
        ((shown = true → start + room ≤ size) → onward) := by
  cases on : shown with
  | false =>
    obtain ⟨rfl,rfl⟩ := skips on
    have rest := after (fun also => nomatch on.symm.trans also) c here inside
    exact ⟨fun right => ⟨fun no => (nomatch no),fun _ => rest.mp right⟩,fun both => rest.mpr (both.2 fun no => nomatch no)⟩
  | true =>
    have assumes := assumes on
    by_cases roomy : start + room ≤ size
    · by_cases fits : start + n < size
      · obtain ⟨c',same,place,inside'⟩ := assumes.goes roomy fits c here inside
        rw [same]
        have rest := after (fun _ => ⟨roomy,fits⟩) c' place inside'
        exact ⟨fun right => ⟨fun _ => ⟨fun _ => fits,fun less => absurd roomy (Nat.not_le.mpr less)⟩,fun _ => rest.mp right⟩,
          fun both => rest.mpr (both.2 fun _ => roomy)⟩
      · have wrong : ¬Right size total ((f c).bind g) := outsideWrong grows (assumes.leaves roomy (Nat.le_of_not_lt fits) c here)
        exact ⟨fun right => absurd right wrong,fun both => absurd ((both.1 rfl).1 roomy) fits⟩
    · obtain ⟨c',same,inside'⟩ := assumes.refuses (Nat.lt_of_not_le roomy) c here inside
      rw [same]
      exact ⟨fun right => ⟨fun _ => ⟨fun also => absurd also roomy,fun _ => right.2⟩,fun room => absurd (room rfl) roomy⟩,
        fun both => ⟨inside',(both.1 rfl).2 (Nat.lt_of_not_le roomy)⟩⟩

/- A step whose length is given back as a C int. -/
def returned (f : Step) : Step := fun c =>
  (f c).bind fun last =>
    if toInt (last.place - c.place) < 0 then .error last else .ok { last with place := c.place + toInt (last.place - c.place) }

theorem Prints.returned (prints : Prints size f start n loose)
    (bounded : Short size start n) : Prints size (returned f) start n loose := by
  have counted : ∀ c : Cursor, c.place = start → start + n ≤ size → Goes size (f c) (start + n) →
      Goes size (BoundedPrint.returned f c) (start + n) := by
    rintro c here fits ⟨last,goes,place,inside⟩
    have short := bounded fits
    have length : toInt (last.place - c.place) = n := by
      rw [place,here,← toIntSmall short]
      congr 1
      omega
    unfold BoundedPrint.returned
    rw [goes]
    refine ⟨_,(if_neg ?_ : _ = _),?_,inside⟩
    · omega
    · dsimp only
      omega
  have stopped : ∀ c : Cursor, Stops size (f c) → Stops size (BoundedPrint.returned f c) := by
    rintro c ⟨last,stops,inside⟩
    unfold BoundedPrint.returned
    rw [stops]
    exact ⟨last,rfl,inside⟩
  refine ⟨?_,?_,?_,?_⟩
  · intro within none c here
    unfold BoundedPrint.returned
    rw [prints.none within none c here]
    show (if toInt (c.place - c.place) < 0 then _ else _) = _
    rw [Int.sub_self]
    refine (if_neg (by decide)).trans ?_
    exact congrArg (fun place => Except.ok (Cursor.mk place c.writes)) (Int.add_zero c.place)
  · intro less c here inside
    exact counted c here (Nat.le_of_lt less) (prints.fits less c here inside)
  · intro same more c here inside
    have fills := prints.fills same more c here inside
    cases loose with
    | true => exact counted c here (Nat.le_of_eq same) fills
    | false => exact stopped c fills
  · intro within more c here inside
    exact stopped c (prints.beyond within more c here inside)

theorem Grows.returned (grows : Grows f) : Grows (returned f) := by
  intro c w member
  have kept := grows c member
  unfold BoundedPrint.returned
  cases result : f c with
  | error =>
    rw [result] at kept
    exact kept
  | ok =>
    rw [result] at kept
    show w ∈ (reached (if _ then _ else _)).writes
    split <;> exact kept

theorem Advances.returned {counted : Prop} (advances : Advances f n counted) :
    Advances (returned f) n (n < 2 ^ 31) := by
  intro c c' goes
  unfold BoundedPrint.returned at goes
  cases result : f c with
  | error =>
    rw [result] at goes
    cases goes
  | ok last =>
    rw [result] at goes
    change (if toInt (last.place - c.place) < 0 then _ else _) = _ at goes
    split at goes
    · cases goes
    · cases goes
      dsimp only
      have most := toIntCases (last.place - c.place)
      rcases advances c last result with ⟨place,_⟩ | ⟨_,long⟩
      · rw [show last.place - c.place = n by omega]
        rcases toIntShort n with ⟨same,short⟩ | ⟨less,long⟩
        · exact .inl ⟨by omega,short⟩
        · exact .inr ⟨by omega,long⟩
      · exact .inr ⟨by omega,long⟩

theorem Moves.returned {counted : Prop} (moves : Moves f n counted) : Moves (returned f) n (n < 2 ^ 31) :=
  ⟨moves.grows.returned,moves.advances.returned⟩

end Pjproject.Lib.BoundedPrint
