import JarGraph.ClassFile.Basic
import JarGraph.Proofs.ClassFile.Reads
/-!
# Where an item ends

A reader delimits its item when what it takes is fixed by the item
alone: the bytes taken are read the same way whatever follows them, and
every part of them that stops short is refused because its end is
missing, and for no other reason (`Delimits`). The property goes through
every way in which readers are put together, however look-ups in the
pool stand between the reads, since a look-up takes nothing and what was
looked up before the cut is what it was.

A class is delimited, and nothing may follow it (`parse_extent`).
-/

namespace JarGraph.ClassFile

open Description (bytes2 bigEndian counted)

variable {α β : Type} {r : Reader α} {s : Reader β} {f : α → Reader β} {xs ys data rest : Bytes}
  {a : α} {b : β}

/-! ## Parts that stop short -/

/-- Every part of the bytes that stops short of them is refused because its end is missing. -/
def NeedsAll (r : Reader α) (bytes : Bytes) : Prop :=
  ∀ front, front <+: bytes → front ≠ bytes → (r front).1 = .error .unexpectedEnd

/-- A reader takes exactly these bytes, and all of them. -/
structure Spans (r : Reader α) (bytes : Bytes) (a : α) : Prop where
  reads : Reads r bytes a
  needsAll : NeedsAll r bytes

/-- What a reader takes is delimited by what it reads. -/
def Delimits (r : Reader α) : Prop :=
  ∀ data a rest, r data = (.ok a, rest) → ∃ bytes, data = bytes ++ rest ∧ Spans r bytes a

/-- A reader of all of its data, which refuses parts that stop short and data that goes on. -/
def Exhausts (r : Reader α) : Prop :=
  ∀ data a rest, r data = (.ok a, rest) →
    NeedsAll r data ∧ ∀ more, more ≠ [] → (r (data ++ more)).1 = .error .trailingBytes

theorem needsAll_nil : NeedsAll r [] :=
  fun _ hfront hne => absurd (List.prefix_nil.1 hfront) hne

/-- Too few bytes are a part that stops short. -/
theorem needsAll_of_length (h : ∀ front : Bytes, front.length < xs.length →
    (r front).1 = .error .unexpectedEnd) : NeedsAll r xs := by
  intro front hfront hne
  have hlt : front.length < xs.length :=
    Nat.lt_of_le_of_ne hfront.length_le fun heq => hne (hfront.eq_of_length heq)
  exact h front hlt

theorem bind_apply_error {cause : Error} (h : (r data).1 = .error cause) :
    ((r >>= f) data).1 = .error cause := by
  change (Reader.bind r f data).1 = _
  unfold Reader.bind
  generalize r data = answer at h
  obtain ⟨outcome, rest⟩ := answer
  obtain rfl : outcome = .error cause := h
  rfl

/-- A read that answers has answered at each of its steps. -/
theorem bind_eq_ok (h : (r >>= f) data = (.ok b, rest)) :
    ∃ a more, r data = (.ok a, more) ∧ f a more = (.ok b, rest) := by
  change Reader.bind r f data = _ at h
  unfold Reader.bind at h
  cases hr : r data with
  | mk outcome more =>
    rw [hr] at h
    cases outcome with
    | error cause => exact absurd (congrArg Prod.fst h) (by simp)
    | ok a => exact ⟨a, more, rfl, h⟩

/-- A cut falls into the first item, or leaves it whole and falls into the second. -/
theorem NeedsAll.bind (h : Spans r xs a) (h' : NeedsAll (f a) ys) :
    NeedsAll (r >>= f) (xs ++ ys) := by
  intro front hfront hne
  by_cases hcut : front <+: xs ∧ front ≠ xs
  · exact bind_apply_error (h.needsAll front hcut.1 hcut.2)
  · obtain ⟨left, rfl⟩ : xs <+: front := by
      rcases List.prefix_or_prefix_of_prefix hfront (List.prefix_append xs ys) with hle | hle
      · have heq : front = xs := Decidable.not_not.1 fun hx => hcut ⟨hle, hx⟩
        exact heq ▸ List.prefix_rfl
      · exact hle
    have hleft : left <+: ys := (List.prefix_append_right_inj xs).1 hfront
    rw [h.reads.bind_apply]
    exact h' left hleft fun heq => hne (heq ▸ rfl)

/-! ## Readers that delimit -/

namespace Delimits

theorem pure (a : α) : Delimits (Pure.pure a : Reader α) := by
  intro data b rest h
  obtain ⟨rfl, rfl⟩ : a = b ∧ data = rest := by
    have hpair : ((Except.ok a : Except Error α), data) = (.ok b, rest) := h
    simpa using hpair
  exact ⟨[], rfl, Reads.pure a, needsAll_nil⟩

theorem fail (cause : Error) : Delimits (Reader.fail cause : Reader α) :=
  fun _ _ _ h => absurd (congrArg Prod.fst h) (by simp [Reader.fail])

/-- After a refusal nothing is read. -/
theorem fail_bind (cause : Error) (f : α → Reader β) : Delimits (Reader.fail cause >>= f) :=
  fun _ _ _ h => absurd (congrArg Prod.fst h) (by rw [bind_apply_error rfl]; simp)

/-- A look-up takes nothing. -/
theorem ofExcept (answer : Except Error α) : Delimits (Reader.ofExcept answer) := by
  intro data a rest h
  obtain ⟨ha, rfl⟩ : answer = .ok a ∧ data = rest := Prod.mk.inj h
  exact ⟨[], rfl, Reads.ofExcept ha, needsAll_nil⟩

/-- What is read inside given bytes takes nothing outside. -/
theorem within (part : Bytes) (item : Reader α) : Delimits (Reader.within part item) :=
  ofExcept (item part).1

theorem bind (h : Delimits r) (h' : ∀ a, Delimits (f a)) : Delimits (r >>= f) := by
  intro data b rest hdata
  obtain ⟨a, more, hr, hf⟩ := bind_eq_ok hdata
  obtain ⟨xs, rfl, hxs⟩ := h _ _ _ hr
  obtain ⟨ys, rfl, hys⟩ := h' a _ _ _ hf
  refine ⟨xs ++ ys, (List.append_assoc ..).symm, hxs.reads.bind hys.reads, ?_⟩
  exact NeedsAll.bind hxs hys.needsAll

theorem u1 : Delimits Reader.u1 := by
  intro data n rest h
  match data, h with
  | m :: more, h =>
    obtain ⟨rfl, rfl⟩ : m = n ∧ more = rest := by simpa [Reader.u1] using h
    refine ⟨[m], rfl, .u1 m, needsAll_of_length fun front hlt => ?_⟩
    obtain rfl : front = [] := List.length_eq_zero_iff.1 (Nat.lt_one_iff.1 hlt)
    rfl

/-- A number is taken as it is written. -/
theorem of_u2 {n : UInt16} (h : Reader.u2 data = (.ok n, rest)) : data = bytes2 n ++ rest := by
  match data, h with
  | x :: y :: more, h =>
    obtain ⟨hn, rfl⟩ := Prod.mk.inj h
    obtain rfl : UInt16.ofNat (x.toNat * 256 + y.toNat) = n := Except.ok.inj hn
    have hx := x.toNat_lt
    have hy := y.toNat_lt
    have hvalue : (UInt16.ofNat (x.toNat * 256 + y.toNat)).toNat = x.toNat * 256 + y.toNat :=
      UInt16.toNat_ofNat_of_lt' (show _ < 65536 by omega)
    have hhigh : UInt8.ofNat ((x.toNat * 256 + y.toNat) / 256) = x := by
      apply UInt8.toNat_inj.1
      rw [UInt8.toNat_ofNat']
      omega
    have hlow : UInt8.ofNat (x.toNat * 256 + y.toNat) = y := by
      apply UInt8.toNat_inj.1
      rw [UInt8.toNat_ofNat']
      omega
    simp only [bytes2, bigEndian, hvalue, hhigh, hlow, List.nil_append, List.cons_append]

theorem u2 : Delimits Reader.u2 := by
  intro data n rest h
  refine ⟨bytes2 n, of_u2 h, .u2 n, needsAll_of_length fun front hlt => ?_⟩
  rw [bytes2, length_bigEndian] at hlt
  rcases front with _ | ⟨x, _ | ⟨y, front⟩⟩
  · rfl
  · rfl
  · simp only [List.length_cons] at hlt
    omega

theorem u4 : Delimits Reader.u4 := by
  intro data n rest h
  match data, h with
  | x :: y :: z :: w :: more, h =>
    obtain ⟨hn, rfl⟩ := Prod.mk.inj h
    refine ⟨[x, y, z, w], rfl, fun _ => Prod.ext hn rfl, needsAll_of_length fun front hlt => ?_⟩
    match front, hlt with
    | [], _ | [_], _ | [_, _], _ | [_, _, _], _ => rfl

theorem of_split? {n : Nat} {taken : Bytes} (h : Reader.split? n data = some (taken, rest)) :
    data = taken ++ rest ∧ taken.length = n := by
  induction n generalizing data taken with
  | zero =>
    obtain ⟨rfl, rfl⟩ : [] = taken ∧ data = rest := by simpa [Reader.split?] using h
    exact ⟨rfl, rfl⟩
  | succ n ih =>
    cases data with
    | nil => cases h
    | cons x data =>
      obtain ⟨⟨halves, more⟩, hhalves, hpair⟩ := Option.map_eq_some_iff.1 h
      obtain ⟨rfl, rfl⟩ : x :: halves = taken ∧ more = rest := Prod.mk.inj hpair
      obtain ⟨rfl, hlength⟩ := ih hhalves
      exact ⟨rfl, congrArg Nat.succ hlength⟩

theorem take (n : Nat) : Delimits (Reader.take n) := by
  intro data a rest h
  unfold Reader.take at h
  cases hsplit : Reader.split? n data with
  | none => simp [hsplit] at h
  | some halves =>
    obtain ⟨taken, more⟩ := halves
    rw [hsplit] at h
    obtain ⟨rfl, rfl⟩ : taken = a ∧ more = rest := by simpa using h
    obtain ⟨rfl, hlength⟩ := of_split? hsplit
    refine ⟨taken, rfl, .take hlength, needsAll_of_length fun front hlt => ?_⟩
    unfold Reader.take
    cases hfront : Reader.split? n front with
    | none => rfl
    | some halves =>
      obtain ⟨first, second⟩ := halves
      obtain ⟨rfl, hfirst⟩ := of_split? hfront
      rw [List.length_append] at hlt
      omega

theorem skip (n : Nat) : Delimits (Reader.skip n) :=
  (take n).bind fun _ => pure ()

theorem times {item : Reader α} (h : Delimits item) (n : Nat) : Delimits (Reader.times n item) := by
  induction n with
  | zero => exact pure []
  | succ n ih => exact h.bind fun a => ih.bind fun more => pure (a :: more)

theorem fold {item : α → Reader α} (h : ∀ a, Delimits (item a)) (n : Nat) (a : α) :
    Delimits (Reader.fold n item a) := by
  induction n generalizing a with
  | zero => exact pure a
  | succ n ih => exact (h a).bind fun b => ih b

end Delimits

/-! ## How an item ends -/

/-- A reader delimits its item, and this ends with bytes that stand to the answer as `P` says. -/
def EndsWith (r : Reader α) (P : α → Bytes → Prop) : Prop :=
  ∀ data a rest, r data = (.ok a, rest) →
    ∃ front last, data = front ++ last ++ rest ∧ Spans r (front ++ last) a ∧ P a last

namespace EndsWith

variable {P : β → Bytes → Prop}

theorem delimits (h : EndsWith s P) : Delimits s := by
  intro data a rest hr
  obtain ⟨front, last, hdata, hspans, -⟩ := h _ _ _ hr
  exact ⟨front ++ last, hdata, hspans⟩

/-- How an item ends is how its last part does. -/
theorem bind (h : Delimits r) (h' : ∀ a, EndsWith (f a) P) : EndsWith (r >>= f) P := by
  intro data b rest hdata
  obtain ⟨a, more, hr, hf⟩ := bind_eq_ok hdata
  obtain ⟨xs, rfl, hxs⟩ := h _ _ _ hr
  obtain ⟨front, last, rfl, hys, hlast⟩ := h' a _ _ _ hf
  refine ⟨xs ++ front, last, by simp only [List.append_assoc], ?_, hlast⟩
  rw [List.append_assoc]
  exact ⟨hxs.reads.bind hys.reads, .bind hxs hys.needsAll⟩

theorem fail_bind (cause : Error) (f : α → Reader β) : EndsWith (Reader.fail cause >>= f) P :=
  fun _ _ _ h => absurd (congrArg Prod.fst h) (by rw [bind_apply_error rfl]; simp)

end EndsWith

/-! ## Tables of indices -/

section Tables

variable {look : UInt16 → Except Error α} {names : List α}

/-- A row of indices, each looked up as it is read. -/
theorem of_times_look {n : Nat}
    (h : Reader.times n (do let index ← Reader.u2; Reader.ofExcept (look index)) data =
      (.ok names, rest)) :
    ∃ indices : List UInt16, indices.length = n ∧ data = indices.flatMap bytes2 ++ rest ∧
      indices.mapM look = .ok names := by
  induction n generalizing data names with
  | zero =>
    obtain ⟨hnames, rfl⟩ := Prod.mk.inj h
    obtain rfl : [] = names := Except.ok.inj hnames
    exact ⟨[], rfl, rfl, rfl⟩
  | succ n ih =>
    obtain ⟨name, middle, hitem, hrest⟩ := bind_eq_ok h
    obtain ⟨index, middle', hindex, hlook⟩ := bind_eq_ok hitem
    obtain ⟨hname, rfl⟩ := Prod.mk.inj hlook
    obtain ⟨more, last, hmore, hlast⟩ := bind_eq_ok hrest
    obtain ⟨hnames, rfl⟩ := Prod.mk.inj hlast
    obtain rfl : name :: more = names := Except.ok.inj hnames
    obtain ⟨indices, hlength, rfl, hindices⟩ := ih hmore
    obtain rfl := Delimits.of_u2 hindex
    refine ⟨index :: indices, congrArg Nat.succ hlength, ?_, ?_⟩
    · rw [List.flatMap_cons, List.append_assoc]
    · simp only [List.mapM_cons, hname, hindices, bind, Except.bind, pure, Except.pure]

theorem delimits_times_look (look : UInt16 → Except Error α) (n : Nat) :
    Delimits (Reader.times n (do let index ← Reader.u2; Reader.ofExcept (look index))) :=
  (Delimits.u2.bind fun index => .ofExcept (look index)).times n

/-- A counted table of indices ends an item that ends with it. -/
theorem endsWith_table {g : List α → β} {P : β → Bytes → Prop}
    (h : ∀ (indices : List UInt16) names, indices.mapM look = .ok names →
      P (g names) (counted bytes2 indices)) :
    EndsWith (do
      let count ← Reader.u2
      let names ← Reader.times count.toNat do
        let index ← Reader.u2
        Reader.ofExcept (look index)
      return g names) P := by
  intro data b rest hdata
  have delimits : Delimits _ := Delimits.u2.bind fun count =>
    (delimits_times_look look count.toNat).bind fun names => .pure (g names)
  obtain ⟨bytes, htaken, hspans⟩ := delimits _ _ _ hdata
  obtain ⟨count, middle, hcount, hrest⟩ := bind_eq_ok hdata
  obtain ⟨names, last, hnames, hlast⟩ := bind_eq_ok hrest
  obtain ⟨hb, rfl⟩ := Prod.mk.inj hlast
  obtain rfl : g names = b := Except.ok.inj hb
  obtain ⟨indices, hlength, rfl, hindices⟩ := of_times_look hnames
  have hcounted : bytes = counted bytes2 indices := by
    have hmiddle := Delimits.of_u2 hcount
    rw [htaken, bytes2, ← hlength, ← List.append_assoc] at hmiddle
    exact List.append_cancel_right hmiddle
  refine ⟨[], bytes, htaken, hspans, ?_⟩
  rw [hcounted]
  exact h indices names hindices

end Tables

/-! ## The parts of a class -/

theorem delimits_readEntry : Delimits Pool.readEntry := by
  unfold Pool.readEntry
  refine Delimits.u1.bind fun tag => ?_
  split
  · refine Delimits.u2.bind fun length => (Delimits.take _).bind fun data => ?_
    exact (Delimits.ofExcept _).bind fun text => .pure _
  any_goals exact (Delimits.skip _).bind fun _ => .pure _
  any_goals exact Delimits.u2.bind fun _ => .pure _
  · exact Delimits.u2.bind fun _ => Delimits.u2.bind fun _ => .pure _
  · exact .fail _

/-- Entries in a row, by the steps of their reader: a wide entry counts for two. -/
theorem delimits_readEntries (declared : UInt16) (n : Nat) :
    Delimits (Pool.readEntries declared n) := by
  induction n using Nat.strongRecOn with
  | ind n ih =>
    cases n with
    | zero => exact .pure _
    | succ n =>
      have next : ∀ m < n + 1, ∀ g : List Constant → List Constant,
          Delimits (do let more ← Pool.readEntries declared m; return g more) :=
        fun m hm g => (ih m hm).bind fun more => .pure _
      rw [Pool.readEntries]
      refine delimits_readEntry.bind fun c => ?_
      split
      · cases n with
        | zero => exact .fail _
        | succ n => exact next n (by omega) _
      · exact next n (Nat.lt_succ_self n) _

theorem delimits_pool : Delimits Pool.read :=
  Delimits.u2.bind fun _ => (delimits_readEntries _ _).bind fun _ => .pure _

/-- The last bytes of a header are its table of interfaces. -/
def IsInterfaceTable (found : Header × Pool) (last : Bytes) : Prop :=
  ∃ indices, last = counted bytes2 indices ∧
    indices.mapM found.2.className = .ok found.1.interfaces

theorem endsWith_header : EndsWith Header.read IsInterfaceTable := by
  unfold Header.read
  refine .bind .u4 fun found => ?_
  split
  · exact .fail_bind _ _
  refine .bind .u2 fun minor => .bind .u2 fun major => .bind delimits_pool fun pool => ?_
  refine .bind .u2 fun access => .bind .u2 fun _ => .bind (.ofExcept _) fun name => ?_
  refine .bind .u2 fun _ => .bind (.ofExcept _) fun superclass => ?_
  exact endsWith_table fun indices names h => ⟨indices, rfl, h⟩

/-- The contents of an attribute are read inside their own length, so that the attribute ends there
whatever they hold. -/
theorem delimits_readOne (pool : Pool) (before : Attributes) :
    Delimits (Attributes.readOne pool before) := by
  refine Delimits.u2.bind fun _ => (Delimits.ofExcept _).bind fun _ => ?_
  exact Delimits.u4.bind fun _ => (Delimits.take _).bind fun _ => .within _ _

theorem delimits_attributes (pool : Pool) : Delimits (Attributes.read pool) :=
  Delimits.u2.bind fun _ => .fold (delimits_readOne pool) _ _

theorem delimits_member (pool : Pool) : Delimits (Member.read pool) := by
  refine Delimits.u2.bind fun _ => Delimits.u2.bind fun _ => (Delimits.ofExcept _).bind fun _ => ?_
  refine Delimits.u2.bind fun _ => (Delimits.ofExcept _).bind fun _ => ?_
  exact (delimits_attributes pool).bind fun _ => .pure _

/-! ## A class and nothing after it -/

namespace Exhausts

/-- The check for the end, and look-ups after it. -/
theorem atEnd {g : Unit → Reader β} : Exhausts (Reader.atEnd >>= g) := by
  intro data b rest h
  obtain ⟨_, _, hend, _⟩ := bind_eq_ok h
  obtain rfl : data = [] := by
    cases data with
    | nil => rfl
    | cons x data => simp [Reader.atEnd] at hend
  refine ⟨needsAll_nil, fun more hne => bind_apply_error ?_⟩
  simp [Reader.atEnd, hne]

theorem bind (h : Delimits r) (h' : ∀ a, Exhausts (f a)) : Exhausts (r >>= f) := by
  intro data b rest hdata
  obtain ⟨a, left, hr, hf⟩ := bind_eq_ok hdata
  obtain ⟨xs, rfl, hxs⟩ := h _ _ _ hr
  obtain ⟨hall, htrailing⟩ := h' a _ _ _ hf
  refine ⟨NeedsAll.bind hxs hall, fun more hne => ?_⟩
  rw [List.append_assoc, hxs.reads.bind_apply]
  exact htrailing more hne

end Exhausts

theorem exhausts_class : Exhausts Class.read := by
  refine .bind endsWith_header.delimits fun (header, pool) => ?_
  refine .bind .u2 fun _ => .bind (.times (delimits_member pool) _) fun _ => ?_
  refine .bind .u2 fun _ => .bind (.times (delimits_member pool) _) fun _ => ?_
  exact .bind (delimits_attributes pool) fun _ => .atEnd

/-- **A class fills its data exactly.** Where some data holds a class, no part of it that stops short
does, and the only complaint about such a part is that its end is missing; and where anything
follows the class, the only complaint is about that. -/
theorem parse_extent {c : Class} (decoded : Class.parse data = .ok c) :
    (∀ front, front <+: data → front ≠ data → Class.parse front = .error .unexpectedEnd) ∧
    ∀ more, more ≠ [] → Class.parse (data ++ more) = .error .trailingBytes := by
  have answer : Class.read data = (.ok c, (Class.read data).2) := Prod.ext decoded rfl
  exact exhausts_class data c _ answer

/-- The bytes of a class `A` with a wide constant, and with a signature that leaves a byte of its
attribute unread. -/
def spareByte : Bytes :=
  [0xCA, 0xFE, 0xBA, 0xBE, 0, 0, 0, 52, 0, 6,
    1, 0, 1, 65, 7, 0, 1, 5, 0, 0, 0, 0, 0, 0, 0, 0,
    1, 0, 9, 83, 105, 103, 110, 97, 116, 117, 114, 101,
    0, 33, 0, 2, 0, 0, 0, 0, 0, 0, 0, 0, 0, 1, 0, 5, 0, 0, 0, 3, 0, 1, 0xFF]

/-- The class of these bytes. -/
def spareByteClass : Class where
  header := ⟨0, 52, 33, "A", none, []⟩
  fields := []
  methods := []
  signature := some "A"
  marks := []
  innerClasses := []
  references := [.class "A"]

/-- The byte that nobody reads counts: without it the class is cut short. -/
theorem parse_extent_spareByte :
    Class.parse spareByte = .ok spareByteClass ∧
    (∀ front, front <+: spareByte → front ≠ spareByte →
      Class.parse front = .error .unexpectedEnd) ∧
    ∀ more, more ≠ [] → Class.parse (spareByte ++ more) = .error .trailingBytes :=
  ⟨rfl, parse_extent (c := spareByteClass) rfl⟩

end JarGraph.ClassFile
