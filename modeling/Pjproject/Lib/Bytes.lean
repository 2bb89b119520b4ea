import Mathlib

/-! Bytes in memory: big-endian words, blocks written into a buffer, and readers that
keep track of how far they have read. -/
namespace Pjproject.Lib.Bytes

abbrev Memory := Nat → UInt8

def be16 (v : UInt16) : List UInt8 := [UInt8.ofNat (v.toNat / 256),UInt8.ofNat v.toNat]

def be32 (v : UInt32) : List UInt8 :=
  [UInt8.ofNat (v.toNat / 2 ^ 24),UInt8.ofNat (v.toNat / 2 ^ 16),UInt8.ofNat (v.toNat / 2 ^ 8),
    UInt8.ofNat v.toNat]

def word16 (a b : UInt8) : UInt16 := UInt16.ofNat (a.toNat * 256 + b.toNat)

def word32 (a b c d : UInt8) : UInt32 :=
  UInt32.ofNat (((a.toNat * 256 + b.toNat) * 256 + c.toNat) * 256 + d.toNat)

/- The next multiple of four. -/
def pad4 (n : Nat) : Nat := (n + 3) / 4 * 4

def slice (m : Memory) : Nat → Nat → List UInt8
  | _, 0 => []
  | pos, n + 1 => m pos :: slice m (pos + 1) n

def write (m : Memory) (pos : Nat) (bytes : List UInt8) : Memory :=
  fun i => if pos ≤ i then bytes.getD (i - pos) (m i) else m i

/- The memory holds these bytes from `pos` on. -/
def Holds (m : Memory) : Nat → List UInt8 → Prop
  | _, [] => True
  | pos, b :: bytes => m pos = b ∧ Holds m (pos + 1) bytes

theorem be16Length (v : UInt16) : (be16 v).length = 2 := rfl
theorem be32Length (v : UInt32) : (be32 v).length = 4 := rfl

theorem word16Bytes (v : UInt16) : word16 (UInt8.ofNat (v.toNat / 256)) (UInt8.ofNat v.toNat) = v := by
  apply UInt16.toNat_inj.mp
  have bound := v.toNat_lt
  simp only [word16,UInt16.toNat_ofNat',UInt8.toNat_ofNat']
  omega

theorem word32Bytes (v : UInt32) : word32 (UInt8.ofNat (v.toNat / 2 ^ 24)) (UInt8.ofNat (v.toNat / 2 ^ 16))
      (UInt8.ofNat (v.toNat / 2 ^ 8)) (UInt8.ofNat v.toNat) = v := by
  apply UInt32.toNat_inj.mp
  have bound := v.toNat_lt
  simp only [word32,UInt32.toNat_ofNat',UInt8.toNat_ofNat']
  omega

theorem be16Word (a b : UInt8) : be16 (word16 a b) = [a,b] := by
  have first := a.toNat_lt
  have second := b.toNat_lt
  simp only [be16,word16,UInt16.toNat_ofNat',List.cons.injEq,and_true]
  constructor
  · apply UInt8.toNat_inj.mp
    rw [UInt8.toNat_ofNat']
    omega
  · apply UInt8.toNat_inj.mp
    rw [UInt8.toNat_ofNat']
    omega

theorem sliceLength (m : Memory) (pos n : Nat) : (slice m pos n).length = n := by
  induction n generalizing pos with
  | zero => rfl
  | succ n ih => simp [slice,ih]

variable {m : Memory} {pos : Nat} {bytes : List UInt8}

theorem sliceCongr {m' : Memory} {n : Nat} (same : ∀ i, pos ≤ i → i < pos + n → m' i = m i) :
    slice m' pos n = slice m pos n := by
  induction n generalizing pos with
  | zero => rfl
  | succ n ih =>
    simp only [slice]
    rw [same pos (by omega) (by omega),ih fun i low high => same i (by omega) (by omega)]

theorem sliceAppend (m : Memory) (pos a b : Nat) : slice m pos (a + b) = slice m pos a ++ slice m (pos + a) b := by
  induction a generalizing pos with
  | zero => simp [slice]
  | succ a ih =>
    rw [Nat.succ_add]
    simp only [slice,List.cons_append]
    rw [ih,show pos + 1 + a = pos + (a + 1) by omega]

theorem holdsSlice (holds : Holds m pos bytes) : slice m pos bytes.length = bytes := by
  induction bytes generalizing pos with
  | nil => rfl
  | cons b bytes ih =>
    obtain ⟨head,tail⟩ := holds
    simp only [List.length_cons,slice]
    rw [head,ih tail]

theorem holdsAppend {left right : List UInt8} :
    Holds m pos (left ++ right) ↔ Holds m pos left ∧ Holds m (pos + left.length) right := by
  induction left generalizing pos with
  | nil => simp [Holds]
  | cons b left ih =>
    simp only [List.cons_append,Holds,ih,List.length_cons]
    rw [show pos + 1 + left.length = pos + (left.length + 1) by omega,and_assoc]

theorem Holds.congr {m' : Memory} (holds : Holds m pos bytes)
    (same : ∀ i, pos ≤ i → i < pos + bytes.length → m' i = m i) : Holds m' pos bytes := by
  induction bytes generalizing pos with
  | nil => trivial
  | cons b bytes ih =>
    obtain ⟨head,tail⟩ := holds
    simp only [List.length_cons] at same
    exact ⟨by rw [same pos (by omega) (by omega),head],
      ih tail fun i low high => same i (by omega) (by omega)⟩

theorem writeBefore {i : Nat} (before : i < pos) :
    write m pos bytes i = m i := if_neg (by omega)

theorem writeAfter {i : Nat} (after : pos + bytes.length ≤ i) : write m pos bytes i = m i := by
  unfold write
  split
  · rw [List.getD_eq_default _ _ (by omega)]
  · rfl

theorem writeInside {k : Nat} (inside : k < bytes.length) : write m pos bytes (pos + k) = bytes[k] := by
  unfold write
  rw [if_pos (by omega),Nat.add_sub_cancel_left,List.getD_eq_getElem _ _ inside]

theorem holdsOfGet (get : ∀ k (inside : k < bytes.length), m (pos + k) = bytes[k]) : Holds m pos bytes := by
  induction bytes generalizing pos with
  | nil => trivial
  | cons b bytes ih =>
    refine ⟨get 0 (by simp),ih fun k inside => ?_⟩
    have next := get (k + 1) (by simpa using inside)
    rw [show pos + 1 + k = pos + (k + 1) by omega,next]
    simp

theorem holdsWrite (m : Memory) (pos : Nat) (bytes : List UInt8) : Holds (write m pos bytes) pos bytes :=
  holdsOfGet fun _ inside => writeInside inside

theorem holdsBe16 {v : UInt16} (holds : Holds m pos (be16 v)) : word16 (m pos) (m (pos + 1)) = v := by
  obtain ⟨first,second,_⟩ := holds
  rw [first,second]
  exact word16Bytes v

theorem holdsBe32 {v : UInt32} (holds : Holds m pos (be32 v)) :
    word32 (m pos) (m (pos + 1)) (m (pos + 2)) (m (pos + 3)) = v := by
  obtain ⟨first,second,third,fourth,_⟩ := holds
  rw [first,second,third,fourth]
  exact word32Bytes v

theorem holdsOfFn {n : Nat} {f : Fin n → UInt8} (holds : Holds m pos (List.ofFn f)) :
    (fun i : Fin n => m (pos + i)) = f := by
  funext i
  induction n generalizing pos with
  | zero => exact i.elim0
  | succ n ih =>
    rw [List.ofFn_succ] at holds
    obtain ⟨first,rest⟩ := holds
    refine Fin.cases ?_ (fun j => ?_) i
    · exact first
    · have next := ih rest j
      simp only [Fin.val_succ]
      rw [show pos + (j.val + 1) = pos + 1 + j.val by omega]
      exact next

theorem pad4Le (n : Nat) : n ≤ pad4 n ∧ pad4 n < n + 4 := by
  unfold pad4; omega

section Reading
variable {ε : Type}

/- A computation that reads memory and may fail. `reach` is one past the highest index
it has read. -/
structure Reads (ε α : Type) where
  reach : Nat
  result : Except ε α

def Reads.fail {α : Type} (e : ε) : Reads ε α := ⟨0,.error e⟩

def Reads.bind {α β : Type} (x : Reads ε α) (f : α → Reads ε β) : Reads ε β :=
  match x.result with
  | .ok a => ⟨max x.reach (f a).reach,(f a).result⟩
  | .error e => ⟨x.reach,.error e⟩

instance : Monad (Reads ε) where
  pure a := ⟨0,.ok a⟩
  bind := Reads.bind

def readByte (m : Memory) (pos : Nat) : Reads ε UInt8 := ⟨pos + 1,.ok (m pos)⟩

def read16 (m : Memory) (pos : Nat) : Reads ε UInt16 := ⟨pos + 2,.ok (word16 (m pos) (m (pos + 1)))⟩

def read32 (m : Memory) (pos : Nat) : Reads ε UInt32 :=
  ⟨pos + 4,.ok (word32 (m pos) (m (pos + 1)) (m (pos + 2)) (m (pos + 3)))⟩

/- A block copy. Copying nothing reads nothing. -/
def readSlice (m : Memory) (pos n : Nat) : Reads ε (List UInt8) :=
  ⟨if n = 0 then 0 else pos + n,.ok (slice m pos n)⟩

/- A block copy into an array of fixed size. -/
def readArray (m : Memory) (pos n : Nat) : Reads ε (Fin n → UInt8) := ⟨pos + n,.ok fun i => m (pos + i)⟩

def words (m : Memory) : Nat → Nat → List UInt16
  | _, 0 => []
  | pos, n + 1 => word16 (m pos) (m (pos + 1)) :: words m (pos + 2) n

def readWords (m : Memory) (pos n : Nat) : Reads ε (List UInt16) :=
  ⟨if n = 0 then 0 else pos + 2 * n,.ok (words m pos n)⟩

theorem wordsLength (m : Memory) (pos n : Nat) : (words m pos n).length = n := by
  induction n generalizing pos with
  | zero => rfl
  | succ n ih => simp [words,ih]

variable {m : Memory} {pos limit n : Nat} {bad : ε}

theorem holdsWords {values : List UInt16} (holds : Holds m pos (values.flatMap be16)) :
    words m pos values.length = values := by
  induction values generalizing pos with
  | nil => rfl
  | cons v values ih =>
    rw [List.flatMap_cons,holdsAppend] at holds
    have rest : Holds m (pos + 2) (values.flatMap be16) := holds.2
    simp only [List.length_cons,words]
    rw [holdsBe16 holds.1,ih rest]

@[simp] theorem pureReach {α : Type} (a : α) : (pure a : Reads ε α).reach = 0 := rfl
@[simp] theorem pureResult {α : Type} (a : α) : (pure a : Reads ε α).result = .ok a := rfl
@[simp] theorem failReach {α : Type} (e : ε) : (Reads.fail e : Reads ε α).reach = 0 := rfl
@[simp] theorem failResult {α : Type} (e : ε) : (Reads.fail e : Reads ε α).result = .error e := rfl

theorem bindOk {α β : Type} {x : Reads ε α} {a : α} (ok : x.result = .ok a) (f : α → Reads ε β) :
    x >>= f = ⟨max x.reach (f a).reach,(f a).result⟩ := by
  simp only [Bind.bind,Reads.bind,ok]

theorem bindError {α β : Type} {x : Reads ε α} {e : ε} (error : x.result = .error e) (f : α → Reads ε β) :
    x >>= f = ⟨x.reach,.error e⟩ := by
  simp only [Bind.bind,Reads.bind,error]

theorem readByteBind {β : Type} (m : Memory) (pos : Nat) (f : UInt8 → Reads ε β) :
    readByte m pos >>= f = ⟨max (pos + 1) (f (m pos)).reach,(f (m pos)).result⟩ := rfl

theorem read16Bind {β : Type} (m : Memory) (pos : Nat) (f : UInt16 → Reads ε β) :
    read16 m pos >>= f = ⟨max (pos + 2) (f (word16 (m pos) (m (pos + 1)))).reach,
      (f (word16 (m pos) (m (pos + 1)))).result⟩ := rfl

theorem read32Bind {β : Type} (m : Memory) (pos : Nat) (f : UInt32 → Reads ε β) :
    read32 m pos >>= f =
      ⟨max (pos + 4) (f (word32 (m pos) (m (pos + 1)) (m (pos + 2)) (m (pos + 3)))).reach,
        (f (word32 (m pos) (m (pos + 1)) (m (pos + 2)) (m (pos + 3)))).result⟩ := rfl

theorem readSliceBind {β : Type} (m : Memory) (pos n : Nat) (f : List UInt8 → Reads ε β) :
    readSlice m pos n >>= f = ⟨max (if n = 0 then 0 else pos + n) (f (slice m pos n)).reach,
      (f (slice m pos n)).result⟩ := rfl

theorem readArrayBind {β : Type} (m : Memory) (pos n : Nat) (f : (Fin n → UInt8) → Reads ε β) :
    readArray m pos n >>= f = ⟨max (pos + n) (f fun i => m (pos + i)).reach,
      (f fun i => m (pos + i)).result⟩ := rfl

theorem readByteResult {β : Type} (m : Memory) (pos : Nat) (f : UInt8 → Reads ε β) :
    (readByte m pos >>= f).result = (f (m pos)).result := rfl

theorem read16Result {β : Type} (m : Memory) (pos : Nat) (f : UInt16 → Reads ε β) :
    (read16 m pos >>= f).result = (f (word16 (m pos) (m (pos + 1)))).result := rfl

theorem read32Result {β : Type} (m : Memory) (pos : Nat) (f : UInt32 → Reads ε β) :
    (read32 m pos >>= f).result = (f (word32 (m pos) (m (pos + 1)) (m (pos + 2)) (m (pos + 3)))).result := rfl

theorem readSliceResult {β : Type} (m : Memory) (pos n : Nat) (f : List UInt8 → Reads ε β) :
    (readSlice m pos n >>= f).result = (f (slice m pos n)).result := rfl

/- The reads stay below `limit`, and the computation does not end in `bad`. -/
def Reads.Within {α : Type} (limit : Nat) (bad : ε) (x : Reads ε α) : Prop :=
  x.reach ≤ limit ∧ x.result ≠ .error bad

theorem bindWithin {α β : Type} {x : Reads ε α} {f : α → Reads ε β} : (x >>= f).Within limit bad ↔
      x.Within limit bad ∧ ∀ a, x.result = .ok a → (f a).Within limit bad := by
  cases found : x.result with
  | error =>
    rw [bindError found]
    simp [Reads.Within,found]
  | ok =>
    rw [bindOk found]
    simp only [Reads.Within,found,Nat.max_le,ne_eq,reduceCtorEq,not_false_eq_true,and_true,
      Except.ok.injEq,forall_eq']
    exact and_assoc

@[simp] theorem pureWithin {α : Type} (a : α) :
    (pure a : Reads ε α).Within limit bad := ⟨Nat.zero_le _,by simp⟩

@[simp] theorem failWithin {α : Type} {e : ε} : (Reads.fail e : Reads ε α).Within limit bad ↔ e ≠ bad := by
  simp [Reads.Within]

@[simp] theorem readByteWithin {β : Type} {f : UInt8 → Reads ε β} :
    (readByte m pos >>= f).Within limit bad ↔ pos + 1 ≤ limit ∧ (f (m pos)).Within limit bad := by
  rw [bindWithin]
  simp [Reads.Within,readByte]

@[simp] theorem read16Within {β : Type} {f : UInt16 → Reads ε β} : (read16 m pos >>= f).Within limit bad ↔
      pos + 2 ≤ limit ∧ (f (word16 (m pos) (m (pos + 1)))).Within limit bad := by
  rw [bindWithin]
  simp [Reads.Within,read16]

@[simp] theorem read32Within {β : Type} {f : UInt32 → Reads ε β} :
    (read32 m pos >>= f).Within limit bad ↔ pos + 4 ≤ limit ∧
      (f (word32 (m pos) (m (pos + 1)) (m (pos + 2)) (m (pos + 3)))).Within limit bad := by
  rw [bindWithin]
  simp [Reads.Within,read32]

@[simp] theorem readSliceWithin {β : Type} {f : List UInt8 → Reads ε β} :
    (readSlice m pos n >>= f).Within limit bad ↔
      (n = 0 ∨ pos + n ≤ limit) ∧ (f (slice m pos n)).Within limit bad := by
  rw [bindWithin]
  unfold readSlice Reads.Within
  split <;> simp_all

@[simp] theorem readArrayWithin {β : Type} {f : (Fin n → UInt8) → Reads ε β} :
    (readArray m pos n >>= f).Within limit bad ↔ pos + n ≤ limit ∧ (f fun i => m (pos + i)).Within limit bad := by
  rw [bindWithin]
  simp [Reads.Within,readArray]

@[simp] theorem readWordsWithin {β : Type} {f : List UInt16 → Reads ε β} :
    (readWords m pos n >>= f).Within limit bad ↔
      (n = 0 ∨ pos + 2 * n ≤ limit) ∧ (f (words m pos n)).Within limit bad := by
  rw [bindWithin]
  unfold readWords Reads.Within
  split <;> simp_all

end Reading

end Pjproject.Lib.Bytes
