import JarGraph.ClassFile.Description.Writing
import JarGraph.ClassFile.Marks
/-!
# Reading what was written

`Reads r bytes a` says that a reader takes exactly these bytes and
answers `a`, whatever follows them; `Notes` says the same of a read that
notes descriptors. Both go through every way in which readers are put
together, so that a reader of an item is read against the writer of that
item piece by piece, without a word on what comes after.
-/

namespace JarGraph.ClassFile

open Description

variable {α β ι : Type} {r : Reader α} {f : α → Reader β} {xs ys : Bytes} {a : α} {b : β}

/-! ## Numbers -/

@[simp] theorem length_bigEndian (width n : Nat) : (bigEndian width n).length = width := by
  induction width generalizing n with
  | zero => rfl
  | succ width ih => simp [bigEndian, ih]

@[simp] theorem length_bytes2 (n : UInt16) : (bytes2 n).length = 2 :=
  length_bigEndian 2 _

theorem bytes2_ofNat {n : Nat} (h : n < countLimit) : bytes2 (UInt16.ofNat n) = bigEndian 2 n := by
  rw [bytes2, UInt16.toNat_ofNat_of_lt' h]

/-- A row of look-ups that all succeed. -/
theorem mapM_cons_eq_some {f : ι → Option α} {x : ι} {items : List ι} {values : List α} :
    (x :: items).mapM f = some values ↔
      ∃ a more, f x = some a ∧ items.mapM f = some more ∧ a :: more = values := by
  simp [List.mapM_cons, Option.bind_eq_some_iff]

/-! ## Readers -/

/-- A reader takes exactly these bytes and answers with the value, whatever follows. -/
def Reads (r : Reader α) (bytes : Bytes) (a : α) : Prop :=
  ∀ rest, r (bytes ++ rest) = (.ok a, rest)

namespace Reads

theorem bind_apply (h : Reads r xs a) (f : α → Reader β) (rest : Bytes) :
    (r >>= f) (xs ++ rest) = f a rest := by
  change Reader.bind r f (xs ++ rest) = _
  rw [Reader.bind, h]

theorem pure (a : α) : Reads (Pure.pure a : Reader α) [] a :=
  fun _ => rfl

theorem bind (h : Reads r xs a) (h' : Reads (f a) ys b) : Reads (r >>= f) (xs ++ ys) b := by
  intro rest
  rw [List.append_assoc, h.bind_apply, h']

/-- A last piece, after which nothing is taken. -/
theorem last (h : Reads r xs a) (h' : Reads (f a) [] b) : Reads (r >>= f) xs b := by
  have := h.bind h'
  rwa [List.append_nil] at this

/-- A check on the way takes nothing. -/
theorem check {answer : Except Error α} (h : answer = .ok a) (h' : Reads (f a) xs b) :
    Reads (Reader.ofExcept answer >>= f) xs b := by
  intro rest
  have : Reads (Reader.ofExcept answer) [] a := fun _ => by rw [h]; rfl
  rw [← List.nil_append (xs ++ rest), this.bind_apply, h']

theorem ofExcept {answer : Except Error α} (h : answer = .ok a) :
    Reads (Reader.ofExcept answer) [] a :=
  fun _ => by rw [h]; rfl

/-- The check that no data is left passes at the end. -/
theorem atEnd_apply (g : Unit → Reader β) : (Reader.atEnd >>= g) [] = g () [] :=
  rfl

/-- What a reader answers on its bytes alone. -/
theorem answer (h : Reads r xs a) : (r xs).1 = .ok a := by
  rw [← List.append_nil xs, h]

theorem u1 (n : UInt8) : Reads Reader.u1 [n] n :=
  fun _ => rfl

/-- A byte at the front. -/
theorem byte {g : UInt8 → Reader β} (n : UInt8) (h : Reads (g n) xs b) :
    Reads (Reader.u1 >>= g) (n :: xs) b :=
  (u1 n).bind h

theorem u2 (n : UInt16) : Reads Reader.u2 (bytes2 n) n := by
  intro rest
  have hn : UInt16.ofNat ((UInt8.ofNat (n.toNat / 256)).toNat * 256 +
      (UInt8.ofNat n.toNat).toNat) = n := by
    apply UInt16.toNat_inj.1
    have := n.toNat_lt
    simp only [UInt8.toNat_ofNat', UInt16.toNat_ofNat']
    omega
  exact Prod.ext (congrArg Except.ok hn) rfl

theorem u4 (n : UInt32) : Reads Reader.u4 (bigEndian 4 n.toNat) n := by
  intro rest
  have hn : UInt32.ofNat ((((UInt8.ofNat (n.toNat / 256 / 256 / 256)).toNat * 256 +
      (UInt8.ofNat (n.toNat / 256 / 256)).toNat) * 256 + (UInt8.ofNat (n.toNat / 256)).toNat) * 256 +
      (UInt8.ofNat n.toNat).toNat) = n := by
    apply UInt32.toNat_inj.1
    have := n.toNat_lt
    simp only [UInt8.toNat_ofNat', UInt32.toNat_ofNat']
    omega
  exact Prod.ext (congrArg Except.ok hn) rfl

/-- A count that two bytes can hold. -/
theorem count {n : Nat} (h : n < countLimit) : Reads Reader.u2 (bigEndian 2 n) (UInt16.ofNat n) := by
  rw [← bytes2_ofNat h]
  exact u2 _

theorem take {n : Nat} (h : xs.length = n) : Reads (Reader.take n) xs xs := by
  have hsplit (rest : Bytes) : Reader.split? n (xs ++ rest) = some (xs, rest) := by
    induction xs generalizing n with
    | nil => subst h; rfl
    | cons x xs ih =>
      subst h
      simp [Reader.split?, ih rfl]
  intro rest
  rw [Reader.take, hsplit]

theorem skip {n : Nat} (h : xs.length = n) : Reads (Reader.skip n) xs () :=
  (take h).last (pure ())

/-- Items in a row are read as they were written, one after the other. -/
theorem times {item : Reader α} {write : ι → Bytes} {f : ι → Option α} {items : List ι}
    {values : List α} (hvalues : items.mapM f = some values)
    (h : ∀ x ∈ items, ∀ a, f x = some a → Reads item (write x) a) :
    Reads (Reader.times items.length item) (items.flatMap write) values := by
  induction items generalizing values with
  | nil =>
    obtain rfl : [] = values := by simpa using hvalues
    exact pure []
  | cons x items ih =>
    obtain ⟨a, more, ha, hmore, rfl⟩ := mapM_cons_eq_some.1 hvalues
    have hrest := ih hmore fun y hy => h y (List.mem_cons_of_mem _ hy)
    exact (h x List.mem_cons_self a ha).bind (hrest.last (pure _))

/-- A counted row is read as it was written, and reading goes on behind it. -/
theorem counted_apply {item : Reader α} {write : ι → Bytes} {g : ι → Option α} {items : List ι}
    {values : List α} (hlength : items.length < countLimit) (hvalues : items.mapM g = some values)
    (h : ∀ x ∈ items, ∀ a, g x = some a → Reads item (write x) a) (next : List α → Reader β)
    (rest : Bytes) :
    (do let count ← Reader.u2; let read ← Reader.times count.toNat item; next read : Reader β)
      (Description.counted write items ++ rest) = next values rest := by
  rw [Description.counted, List.append_assoc, (count hlength).bind_apply,
    UInt16.toNat_ofNat_of_lt' hlength, (times hvalues h).bind_apply]

theorem counted {item : Reader α} {write : ι → Bytes} {g : ι → Option α} {items : List ι}
    {values : List α} {next : List α → Reader β} (hlength : items.length < countLimit)
    (hvalues : items.mapM g = some values)
    (h : ∀ x ∈ items, ∀ a, g x = some a → Reads item (write x) a)
    (hnext : Reads (next values) [] b) :
    Reads (do let count ← Reader.u2; let read ← Reader.times count.toNat item; next read)
      (Description.counted write items) b :=
  fun rest => (counted_apply hlength hvalues h next rest).trans (hnext rest)

end Reads

/-! ## Reads that note descriptors -/

variable {n m : Noting} {found more : List String}

/-- A read takes exactly these bytes and notes these descriptors, whatever follows. -/
def Notes (n : Noting) (bytes : Bytes) (found : List String) : Prop :=
  ∀ rest, n (bytes ++ rest) = ⟨found, .ok (), rest⟩

namespace Notes

theorem done : Notes Noting.done [] [] :=
  fun _ => rfl

theorem note (descriptor : String) : Notes (Noting.note descriptor) [] [descriptor] :=
  fun _ => rfl

theorem andThen (h : Notes n xs found) (h' : Notes m ys more) :
    Notes (n.andThen m) (xs ++ ys) (found ++ more) := by
  intro rest
  rw [List.append_assoc]
  simp only [Noting.andThen, h (ys ++ rest), h' rest]

theorem reading {g : α → Noting} (h : Reads r xs a) (h' : Notes (g a) ys found) :
    Notes (Noting.reading r g) (xs ++ ys) found := by
  intro rest
  rw [List.append_assoc]
  simp only [Noting.reading, h (ys ++ rest), h' rest]

/-- A byte at the front. -/
theorem byte {g : UInt8 → Noting} (b : UInt8) (h : Notes (g b) xs found) :
    Notes (Noting.reading Reader.u1 g) (b :: xs) found :=
  reading (.u1 b) h

/-- A last item, after which nothing is taken. -/
theorem last {g : α → Noting} (h : Reads r xs a) (h' : Notes (g a) [] found) :
    Notes (Noting.reading r g) xs found := by
  have := reading h h'
  rwa [List.append_nil] at this

/-- Rows of what was noted, one for each item that was written. -/
theorem times {write : ι → Bytes} {f : ι → Option (List String)} {items : List ι}
    {rows : List (List String)} (hrows : items.mapM f = some rows)
    (h : ∀ x ∈ items, ∀ found, f x = some found → Notes n (write x) found) :
    Notes (Noting.times items.length n) (items.flatMap write) rows.flatten := by
  induction items generalizing rows with
  | nil =>
    obtain rfl : [] = rows := by simpa using hrows
    exact done
  | cons x items ih =>
    obtain ⟨found, more, hfound, hmore, rfl⟩ := mapM_cons_eq_some.1 hrows
    exact (h x List.mem_cons_self found hfound).andThen
      (ih hmore fun y hy => h y (List.mem_cons_of_mem _ hy))

theorem toReader (h : Notes n xs found) : Reads n.toReader xs found := by
  intro rest
  simp only [Noting.toReader, h rest]

end Notes

end JarGraph.ClassFile
