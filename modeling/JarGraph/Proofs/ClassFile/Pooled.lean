import JarGraph.Proofs.Answer
import JarGraph.Proofs.ClassFile.Extent
/-!
# The classes that a class file names are in its pool

Wherever a class file names a class by a constant, for itself, what it
extends, an exception or an inner class, the constant is one of the pool,
so that the walk of the pool passes it as well (`mem_references`).
`Yields` carries this through the readers: whatever the data, what they
answer is as it says.
-/

namespace JarGraph.ClassFile

variable {α β : Type} {r : Reader α} {f : α → Reader β} {pool : Pool} {data : Bytes} {name : String}

/-! ## What readers answer -/

/-- Whatever a reader answers is as `P` says. -/
def Yields (r : Reader α) (P : α → Prop) : Prop :=
  ∀ data a rest, r data = (.ok a, rest) → P a

namespace Yields

variable {P P' : α → Prop} {Q : β → Prop} {n : Nat}

theorem pure {b : β} (h : Q b) : Yields (Pure.pure b : Reader β) Q := by
  intro data c rest hdata
  obtain rfl : b = c := Except.ok.inj (congrArg Prod.fst hdata)
  exact h

/-- What is answered in the end is up to the last step. -/
theorem after (h : ∀ a, Yields (f a) Q) : Yields (r >>= f) Q := by
  intro data b rest hdata
  obtain ⟨a, more, -, hrest⟩ := bind_eq_ok hdata
  exact h a more b rest hrest

/-- The last step may rely on what the first one answers. -/
theorem bind (hr : Yields r P) (h : ∀ a, P a → Yields (f a) Q) : Yields (r >>= f) Q := by
  intro data b rest hdata
  obtain ⟨a, more, hfirst, hrest⟩ := bind_eq_ok hdata
  exact h a (hr data a more hfirst) more b rest hrest

theorem mono (hr : Yields r P) (h : ∀ a, P a → P' a) : Yields r P' :=
  fun data a rest hdata => h a (hr data a rest hdata)

theorem ofExcept (answer : Except Error α) : Yields (Reader.ofExcept answer) (answer = .ok ·) :=
  fun _ _ _ hdata => congrArg Prod.fst hdata

theorem within {part : Bytes} (hr : Yields r P) : Yields (Reader.within part r) P := by
  intro data a rest hdata
  have hpart : (r part).1 = .ok a := congrArg Prod.fst hdata
  exact hr part a _ (Prod.ext hpart rfl)

theorem fail_bind (cause : Error) (f : α → Reader β) : Yields (Reader.fail cause >>= f) Q := by
  intro data b rest hdata
  obtain ⟨a, more, hfirst, -⟩ := bind_eq_ok hdata
  cases congrArg Prod.fst hfirst

/-- Items in a row are all as the item is. -/
theorem times (hr : Yields r P) : Yields (Reader.times n r) fun found => ∀ a ∈ found, P a := by
  induction n with
  | zero => exact .pure fun _ ha => nomatch ha
  | succ n ih =>
    exact .bind hr fun a ha => .bind ih fun more hmore =>
      .pure (List.forall_mem_cons.2 ⟨ha, hmore⟩)

/-- What every item keeps is so in the end if it is so before. -/
theorem fold {item : α → Reader α} (hitem : ∀ a, P a → Yields (item a) P) {a : α} (ha : P a) :
    Yields (Reader.fold n item a) P := by
  induction n generalizing a with
  | zero => exact .pure ha
  | succ n ih => exact .bind (hitem a ha) fun b hb => ih hb

end Yields

/-! ## The constants of a pool -/

namespace Pool

/-- A class constant of the pool has the name. -/
def HasClass (pool : Pool) (name : String) : Prop :=
  ∃ index, pool.className index = .ok name

theorem yields_className (pool : Pool) (index : UInt16) :
    Yields (Reader.ofExcept (pool.className index)) pool.HasClass :=
  (Yields.ofExcept _).mono fun _ h => ⟨index, h⟩

theorem yields_className? (pool : Pool) (index : UInt16) :
    Yields (Reader.ofExcept (pool.className? index))
      fun found => ∀ name ∈ found, pool.HasClass name := by
  refine (Yields.ofExcept _).mono fun found h name hname => ?_
  unfold className? at h
  split at h
  · obtain rfl := Except.ok.inj h
    cases hname
  · obtain ⟨text, htext, rfl⟩ := Answer.map_eq_ok.1 h
    obtain rfl := Option.some.inj hname
    exact ⟨index, htext⟩

theorem mem_of_entry {index : UInt16} {c : Constant} (h : pool.entry index = .ok c) :
    c ∈ pool.entries := by
  unfold entry at h
  split at h
  · cases h
  · split at h
    · rename_i found hfound
      obtain rfl := Except.ok.inj h
      exact List.mem_of_getElem? hfound
    · cases h

/-- The names of the pool have the name of each of its entries. -/
theorem mem_of_references_go {entries : List Constant} {found : List Reference}
    (h : references.go pool entries = .ok found) {c : Constant} (hc : c ∈ entries)
    {reference : Reference} (hreference : pool.reference? c = .ok (some reference)) :
    reference ∈ found := by
  induction entries generalizing found with
  | nil => cases hc
  | cons first entries ih =>
    obtain ⟨front, hfront, h⟩ := Answer.bind_eq_ok.1 h
    obtain ⟨more, hmore, h⟩ := Answer.bind_eq_ok.1 h
    obtain rfl := Except.ok.inj h
    rcases List.mem_cons.1 hc with rfl | hc
    · rw [hreference] at hfront
      obtain rfl := Except.ok.inj hfront
      exact List.mem_append_left _ List.mem_cons_self
    · exact List.mem_append_right _ (ih hmore hc)

theorem mem_references_of_hasClass {found : List Reference} (h : pool.references = .ok found)
    (hname : pool.HasClass name) : .class name ∈ found := by
  obtain ⟨index, hindex⟩ := hname
  obtain ⟨c, hentry, hclass⟩ := Answer.bind_eq_ok.1 hindex
  cases c with
  | classEntry text =>
    refine mem_of_references_go h (mem_of_entry hentry) ?_
    have htext : pool.utf8 text = .ok name := hclass
    rw [reference?, htext]
    rfl
  | utf8 | nameAndType | methodType | other => cases hclass

end Pool

/-! ## The parts of a class file -/

/-- The class constants that attributes name are those of a pool. -/
def Attributes.Pooled (pool : Pool) (a : Attributes) : Prop :=
  (∀ name ∈ a.exceptions, pool.HasClass name) ∧ ∀ name ∈ a.innerClasses, pool.HasClass name

theorem Attributes.yields_readInner (pool : Pool) :
    Yields (readInner pool) fun row => ∀ name ∈ row, pool.HasClass name := by
  refine .after fun inner => .after fun outer => .after fun _ => ?_
  refine .bind (pool.yields_className inner) fun name hname => ?_
  refine .bind (pool.yields_className? outer) fun around haround => .pure ?_
  exact List.forall_mem_cons.2 ⟨hname, fun name h => haround name (Option.mem_toList.1 h)⟩

theorem Attributes.yields_readContents (name : String) {before : Attributes}
    (h : before.Pooled pool) : Yields (readContents pool name before) (Pooled pool) := by
  unfold readContents
  split
  · exact .after fun index => .after fun text => .pure h
  split
  · refine .after fun count => .bind (.times (.after fun index => pool.yields_className index))
      fun names hnames => .pure ⟨?_, h.2⟩
    exact List.forall_mem_append.2 ⟨h.1, hnames⟩
  split
  · refine .after fun count => .bind (.times (yields_readInner pool)) fun rows hrows =>
      .pure ⟨h.1, List.forall_mem_append.2 ⟨h.2, fun name hname => ?_⟩⟩
    obtain ⟨row, hrow, hname⟩ := List.mem_flatten.1 hname
    exact hrows row hrow name hname
  split
  · exact .after fun found => .pure h
  · exact .pure h

theorem Attributes.yields_read (pool : Pool) : Yields (read pool) (Pooled pool) := by
  have hempty : empty.Pooled pool := ⟨List.forall_mem_nil _, List.forall_mem_nil _⟩
  refine .after fun count => .fold (fun before hbefore => ?_) hempty
  refine .after fun index => .after fun name => .after fun length => .after fun contents => ?_
  exact .within (yields_readContents name hbefore)

theorem Member.yields_read (pool : Pool) :
    Yields (Member.read pool) fun m => ∀ name ∈ m.exceptions, pool.HasClass name := by
  refine .after fun access => .after fun index => .after fun name => .after fun index => ?_
  refine .after fun descriptor => .bind (Attributes.yields_read pool) fun a ha => ?_
  exact .pure ha.1

/-- The class constants by which a header names the class itself and those that it extends. -/
def Header.constants (header : Header) : List String :=
  header.name :: header.superclass.toList ++ header.interfaces

theorem Header.yields_read :
    Yields Header.read fun found => ∀ name ∈ found.1.constants, found.2.HasClass name := by
  refine .after fun found => ?_
  split
  · exact .fail_bind _ _
  refine .after fun minor => .after fun major => .after fun pool => .after fun access => ?_
  refine .after fun index => .bind (pool.yields_className index) fun name hname => ?_
  refine .after fun index => .bind (pool.yields_className? index) fun superclass hsuper => ?_
  refine .after fun count => .bind (.times (.after fun index => pool.yields_className index))
    fun interfaces hinterfaces => .pure ?_
  refine List.forall_mem_append.2 ⟨List.forall_mem_cons.2 ⟨hname, fun name h => ?_⟩, hinterfaces⟩
  exact hsuper name (Option.mem_toList.1 h)

/-- The class constants by which a class file names classes. -/
def Class.constants (c : Class) : List String :=
  c.header.constants ++ (c.fields ++ c.methods).flatMap Member.exceptions ++ c.innerClasses

/-- **A class file names classes by constants of its pool.** -/
theorem Class.mem_references {c : Class} (h : Class.parse data = .ok c) :
    ∀ name ∈ c.constants, .class name ∈ c.references := by
  refine (?_ : Yields Class.read fun c => ∀ name ∈ c.constants, .class name ∈ c.references)
    data c (Class.read data).2 (Prod.ext h rfl)
  refine .bind Header.yields_read fun ⟨header, pool⟩ hheader => ?_
  refine .after fun count => .bind (.times (Member.yields_read pool)) fun fields hfields => ?_
  refine .after fun count => .bind (.times (Member.yields_read pool)) fun methods hmethods => ?_
  refine .bind (Attributes.yields_read pool) fun attributes hattributes => ?_
  refine .after fun _ => .bind (.ofExcept pool.references) fun references hreferences => .pure ?_
  have hmembers : ∀ name ∈ (fields ++ methods).flatMap Member.exceptions, pool.HasClass name := by
    intro name hname
    obtain ⟨m, hm, hname⟩ := List.mem_flatMap.1 hname
    exact List.forall_mem_append.2 ⟨hfields, hmethods⟩ m hm name hname
  intro name hname
  refine Pool.mem_references_of_hasClass hreferences ?_
  exact List.forall_mem_append.2 ⟨List.forall_mem_append.2 ⟨hheader, hmembers⟩, hattributes.2⟩
    name hname

theorem Class.name_mem_references {c : Class} (h : Class.parse data = .ok c) :
    .class c.name ∈ c.references := by
  refine mem_references h c.name (List.mem_append_left _ (List.mem_append_left _ ?_))
  exact List.mem_append_left _ List.mem_cons_self

end JarGraph.ClassFile
