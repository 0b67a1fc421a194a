import JarGraph.Signature.Basic
import Mathlib.Data.List.Basic
/-!
# The names of any signature

Whatever text the scanner reads to its end, the names that it finds are
not empty and hold none of the characters that end a name
(`isName_of_classNames`). The invariant is that the scanner keeps no such
character in what it holds of a name: one that is still being read, that
of a class whose type arguments may follow, and those of the classes whose
type arguments are open (`State.Clean`).
-/

namespace JarGraph.Signature

variable {owners : List (List Char)} {place : Place} {part : Part} {state next : State}
variable {name : List Char} {c : Char} {found : Option (List Char)} {names : List (List Char)}

/-- A row of characters that a name may hold. -/
def IsOpen (name : List Char) : Prop :=
  ∀ c ∈ name, endsName c = false

/-- A name that is not empty, and that nothing within it ends. -/
def IsName (name : List Char) : Prop :=
  name ≠ [] ∧ IsOpen name

/-- What has been read of a type holds open names only. -/
def Part.Clean : Part → Prop
  | .reference => True
  | .type => True
  | .variable => True
  | .name outer own => IsOpen outer ∧ IsOpen own
  | .class name => IsOpen name
  | .arguments name => IsOpen name

/-- What has been read of a signature holds open names only. -/
def State.Clean : State → Prop
  | .inType part owners _ => part.Clean ∧ ∀ owner ∈ owners, IsOpen owner
  | _ => True

/-! ## One character -/

theorem clean_afterType (howners : ∀ owner ∈ owners, IsOpen owner) :
    (afterType owners place).Clean := by
  cases owners with
  | nil => cases place <;> trivial
  | cons owner owners =>
    obtain ⟨howner, howners⟩ := List.forall_mem_cons.1 howners
    exact ⟨howner, howners⟩

theorem clean_openReference (howners : ∀ owner ∈ owners, IsOpen owner)
    (h : openReference owners place c = some next) : next.Clean := by
  unfold openReference at h
  split at h
  · obtain rfl := Option.some.inj h
    exact ⟨⟨List.forall_mem_nil _, List.forall_mem_nil _⟩, howners⟩
  split at h
  · obtain rfl := Option.some.inj h
    exact ⟨trivial, howners⟩
  split at h
  · obtain rfl := Option.some.inj h
    exact ⟨trivial, howners⟩
  · cases h

theorem clean_openType (howners : ∀ owner ∈ owners, IsOpen owner)
    (h : openType owners place c = some next) : next.Clean := by
  unfold openType at h
  split at h
  · obtain rfl := Option.some.inj h
    exact clean_afterType howners
  · exact clean_openReference howners h

theorem clean_afterClass (hname : IsOpen name) (howners : ∀ owner ∈ owners, IsOpen owner)
    (h : afterClass name owners place c = some next) : next.Clean := by
  unfold afterClass at h
  split at h
  · obtain rfl := Option.some.inj h
    exact clean_afterType howners
  split at h
  · obtain rfl := Option.some.inj h
    exact ⟨hname, howners⟩
  split at h
  · obtain rfl := Option.some.inj h
    have hjoint : IsOpen (name ++ ['$']) :=
      List.forall_mem_append.2 ⟨hname, List.forall_mem_singleton.2 rfl⟩
    exact ⟨⟨hjoint, List.forall_mem_nil _⟩, howners⟩
  · cases h

/-- What a step may come to: open names are kept, and one that is brought to an end is proper. -/
def Keeps (next : State) (found : Option (List Char)) : Prop :=
  next.Clean ∧ ∀ name ∈ found, IsName name

theorem keeps_none (h : next.Clean) : Keeps next none :=
  ⟨h, fun _ hname => nomatch hname⟩

/-- A step that brings no name to an end. -/
theorem keeps_of_map {after : Option State} (h : after.map (·, none) = some (next, found))
    (hafter : ∀ s, after = some s → s.Clean) : Keeps next found := by
  obtain ⟨s, hs, hpair⟩ := Option.map_eq_some_iff.1 h
  obtain ⟨rfl, rfl⟩ := Prod.mk.inj hpair
  exact keeps_none (hafter s hs)

theorem keeps_of_some {s : State} (h : some (s, none) = some (next, found)) (hs : s.Clean) :
    Keeps next found := by
  obtain ⟨rfl, rfl⟩ := Prod.mk.inj (Option.some.inj h)
  exact keeps_none hs

theorem keeps_stepType (hpart : part.Clean) (howners : ∀ owner ∈ owners, IsOpen owner)
    (h : stepType part owners place c = some (next, found)) : Keeps next found := by
  cases part with
  | reference => exact keeps_of_map h fun _ => clean_openReference howners
  | type => exact keeps_of_map h fun _ => clean_openType howners
  | «variable» =>
    refine keeps_of_some h ?_
    split
    · exact clean_afterType howners
    · exact ⟨trivial, howners⟩
  | name outer own =>
    rw [stepType] at h
    split at h
    · split at h
      · cases h
      · rename_i hown
        obtain ⟨s, hs, hpair⟩ := Option.map_eq_some_iff.1 h
        obtain ⟨rfl, rfl⟩ := Prod.mk.inj hpair
        have hfull : IsOpen (outer ++ own.reverse) :=
          List.forall_mem_append.2 ⟨hpart.1, fun d hd => hpart.2 d (List.mem_reverse.1 hd)⟩
        refine ⟨clean_afterClass hfull howners hs, fun name hname => ?_⟩
        obtain rfl := Option.some.inj hname
        refine ⟨fun hnil => hown ?_, hfull⟩
        exact List.reverse_eq_nil_iff.1 (List.append_eq_nil_iff.1 hnil).2
    · rename_i hc
      refine keeps_of_some h ⟨⟨hpart.1, ?_⟩, howners⟩
      exact List.forall_mem_cons.2 ⟨Bool.of_not_eq_true hc, hpart.2⟩
  | «class» name => exact keeps_of_map h fun _ => clean_afterClass hpart howners
  | arguments name =>
    have hall : ∀ owner ∈ name :: owners, IsOpen owner := List.forall_mem_cons.2 ⟨hpart, howners⟩
    rw [stepType] at h
    split at h
    · exact keeps_of_some h ⟨hpart, howners⟩
    split at h
    · exact keeps_of_some h ⟨hpart, howners⟩
    split at h
    · exact keeps_of_some h ⟨trivial, hall⟩
    · exact keeps_of_map h fun _ => clean_openReference hall

theorem clean_stepParameterStart (c : Char) : (stepParameterStart c).Clean := by
  unfold stepParameterStart
  split
  · trivial
  · split <;> trivial

theorem clean_stepBody (h : stepBody c = some next) : next.Clean := by
  unfold stepBody at h
  split at h
  · obtain rfl := Option.some.inj h
    trivial
  · exact clean_openReference (List.forall_mem_nil _) h

/-- **One character** keeps what is held of names open, and brings a proper name to an end, if
any. -/
theorem keeps_step (hstate : state.Clean) (h : step state c = some (next, found)) :
    Keeps next found := by
  have hnone : ∀ owner ∈ ([] : List (List Char)), IsOpen owner := List.forall_mem_nil _
  -- A bound starts with a type, without any class around it.
  have hbound : (State.inType .reference [] .bound).Clean := ⟨trivial, hnone⟩
  cases state with
  | start =>
    rw [step] at h
    split at h
    · exact keeps_of_some h trivial
    · exact keeps_of_map h fun _ => clean_stepBody
  | body => exact keeps_of_map h fun _ => clean_stepBody
  | parameterStart => exact keeps_of_some h (clean_stepParameterStart c)
  | parameterName =>
    refine keeps_of_some h ?_
    split <;> trivial
  | classBound =>
    rw [step] at h
    split at h
    · exact keeps_of_some h hbound
    · refine keeps_of_some h ?_
      cases hopen : openReference [] .bound c with
      | none => exact clean_stepParameterStart c
      | some s => exact clean_openReference hnone hopen
  | moreBounds =>
    rw [step] at h
    split at h
    · exact keeps_of_some h hbound
    · exact keeps_of_some h (clean_stepParameterStart c)
  | supertypes => exact keeps_of_map h fun _ => clean_openReference hnone
  | parameters =>
    rw [step] at h
    split at h
    · exact keeps_of_some h trivial
    · exact keeps_of_map h fun _ => clean_openType hnone
  | result =>
    rw [step] at h
    split at h
    · exact keeps_of_some h trivial
    · exact keeps_of_map h fun _ => clean_openType hnone
  | thrown =>
    rw [step] at h
    split at h
    · exact keeps_of_some h ⟨trivial, hnone⟩
    · cases h
  | inType part owners place => exact keeps_stepType hstate.1 hstate.2 h

/-! ## A whole signature -/

/-- **The names of the rest of a signature.** -/
theorem isName_of_scan {cs : List Char} (hstate : state.Clean) (h : scan state cs = some names) :
    ∀ name ∈ names, IsName name := by
  induction cs generalizing state names with
  | nil =>
    rw [scan] at h
    split at h
    · obtain rfl := Option.some.inj h
      exact List.forall_mem_nil _
    · cases h
  | cons c cs ih =>
    rw [scan] at h
    split at h
    · cases h
    · rename_i next found hstep
      obtain ⟨hnext, hfound⟩ := keeps_step hstate hstep
      obtain ⟨more, hmore, rfl⟩ := Option.map_eq_some_iff.1 h
      refine List.forall_mem_append.2 ⟨fun name hname => hfound name ?_, ih hnext hmore⟩
      exact Option.mem_toList.1 hname

/-- **Whatever signature is read to its end**, its names are proper names. -/
theorem isName_of_classNames {signature : String} {names : List String}
    (h : classNames signature = .ok names) : ∀ name ∈ names, IsName name.toList := by
  unfold classNames at h
  split at h
  · rename_i rows hscan
    obtain rfl := Except.ok.inj h
    intro name hname
    obtain ⟨row, hrow, rfl⟩ := List.mem_map.1 hname
    rw [String.toList_ofList]
    have hstart : State.start.Clean := trivial
    exact isName_of_scan hstart hscan row hrow
  · cases h

end JarGraph.Signature
