import JarGraph.ClassFile.Visit
/-!
# Visits that are broken off

A visitor may keep a state, and it may refuse an element. A visit hands it
the elements of the class one by one, and the first refusal ends it:
nothing more is handed out, and the refusal is what the visit answers
(`visit_refused`). A visit is followed by having it note what is handed out
(`noting`). As it passes the elements of one list, all loops over the parts
of a class are a single one, and the induction is on what the visitor
takes.
-/

namespace JarGraph.ClassFile

/-- A visitor with a state, which may refuse an element. What it did to its state stays. -/
abbrev Visitor (σ ε : Type) := Element → ExceptT ε (StateM σ) PUnit

namespace Visitor

variable {σ ε : Type} {visitor : Visitor σ ε} {s s' s'' : σ} {cause : ε}
variable {element : Element} {taken rest handed : List Element}

/-- The visitor takes some elements one after another, from one state to another. -/
inductive Takes (visitor : Visitor σ ε) : σ → List Element → σ → Prop
  | nil {s : σ} : Takes visitor s [] s
  | cons {s s' s'' : σ} {element : Element} {more : List Element}
      (first : (visitor element).run.run s = (.ok ⟨⟩, s')) (then_ : Takes visitor s' more s'') :
      Takes visitor s (element :: more) s''

/-- The same visitor, with a note of every element that it is handed, whether it takes it or not. -/
def noting (visitor : Visitor σ ε) : Visitor (σ × List Element) ε := fun element =>
  ExceptT.mk fun (s, handed) =>
    let (answer, s') := (visitor element).run.run s
    (answer, (s', handed ++ [element]))

theorem run_noting {answer : Except ε PUnit} (h : (visitor element).run.run s = (answer, s')) :
    (visitor.noting element).run.run (s, handed) = (answer, (s', handed ++ [element])) := by
  show (((visitor element).run.run s).1, (((visitor element).run.run s).2, _)) = _
  rw [h]

/-- A step that succeeds is followed by the others, from the state that it leaves. -/
theorem run_forM_of_ok (h : (visitor element).run.run s = (.ok ⟨⟩, s')) :
    ((element :: rest).forM visitor).run.run s = (rest.forM visitor).run.run s' := by
  have hbind : ((element :: rest).forM visitor).run.run s =
      (visitor element >>= fun _ => rest.forM visitor).run.run s := rfl
  rw [hbind, ExceptT.run_bind, StateT.run_bind, h]
  rfl

/-- A step that fails is the last one. -/
theorem run_forM_of_error (h : (visitor element).run.run s = (.error cause, s')) :
    ((element :: rest).forM visitor).run.run s = (.error cause, s') := by
  have hbind : ((element :: rest).forM visitor).run.run s =
      (visitor element >>= fun _ => rest.forM visitor).run.run s := rfl
  rw [hbind, ExceptT.run_bind, StateT.run_bind, h]
  rfl

/-- The notes change nothing about a visit. -/
theorem run_forM_of_noting {elements noted : List Element} {answer : Except ε PUnit}
    (h : (elements.forM visitor.noting).run.run (s, handed) = (answer, (s', noted))) :
    (elements.forM visitor).run.run s = (answer, s') := by
  induction elements generalizing s handed with
  | nil =>
    obtain ⟨rfl, hstate⟩ := Prod.mk.inj h
    obtain ⟨rfl, -⟩ := Prod.mk.inj hstate
    rfl
  | cons element elements ih =>
    rcases hfirst : (visitor element).run.run s with ⟨cause | _, between⟩
    · rw [run_forM_of_error (run_noting hfirst)] at h
      obtain ⟨rfl, hstate⟩ := Prod.mk.inj h
      obtain ⟨rfl, -⟩ := Prod.mk.inj hstate
      exact run_forM_of_error hfirst
    · rw [run_forM_of_ok (run_noting hfirst)] at h
      rw [run_forM_of_ok hfirst]
      exact ih h

/-- **What the visitor takes is noted**, and the visit goes on from where it left the visitor. -/
theorem Takes.run_forM_noting (h : visitor.Takes s taken s') :
    ((taken ++ rest).forM visitor.noting).run.run (s, handed) =
      (rest.forM visitor.noting).run.run (s', handed ++ taken) := by
  induction h generalizing handed with
  | nil => rw [List.nil_append, List.append_nil]
  | cons first _ ih =>
    rw [List.cons_append, run_forM_of_ok (run_noting first), ih, List.append_assoc]
    rfl

end Visitor

namespace Class

variable {σ ε : Type}

/-- The end of a class is handed out last, and only there. -/
theorem elements_eq_concat (c : Class) :
    ∃ before, c.elements = before ++ [.finish] ∧ .finish ∉ before := by
  refine ⟨_, rfl, ?_⟩
  have hreference : ∀ reference, Element.ofReference reference ≠ .finish := by
    rintro (name | text) <;> exact nofun
  simp [hreference]

/-- **A visitor that refuses an element ends the visit there.** Where it takes the elements before
the `k`th one and refuses that one, its refusal is the answer, and it was handed these elements, the
one that it refused, and nothing else. Where it takes all of them, the visit succeeds, and each was
handed to it once and in order, the end of the class last. -/
theorem visit_refused (c : Class) (visitor : Visitor σ ε) {k : Nat} {s s' : σ}
    (htakes : visitor.Takes s (c.elements.take k) s') :
    (∀ element cause s'', c.elements[k]? = some element →
      (visitor element).run.run s' = (.error cause, s'') →
        (c.visit visitor).run.run s = (.error cause, s'') ∧
          (c.visit visitor.noting).run.run (s, []) =
            (.error cause, (s'', c.elements.take (k + 1)))) ∧
    (c.elements.length ≤ k →
      (c.visit visitor).run.run s = (.ok ⟨⟩, s') ∧
        (c.visit visitor.noting).run.run (s, []) = (.ok ⟨⟩, (s', c.elements)) ∧
        ∃ before, c.elements = before ++ [.finish] ∧ .finish ∉ before) := by
  rw [visit_eq_forM, visit_eq_forM]
  constructor
  · intro element cause s'' hk hrefuses
    obtain ⟨hlength, helement⟩ := List.getElem?_eq_some_iff.1 hk
    have hcut : c.elements = c.elements.take k ++ element :: c.elements.drop (k + 1) := by
      rw [← helement, List.getElem_cons_drop, List.take_append_drop]
    have htake : c.elements.take (k + 1) = c.elements.take k ++ [element] := by
      rw [List.take_add_one, hk]
      rfl
    have hnoted := calc (c.elements.forM visitor.noting).run.run (s, [])
        = ((c.elements.take k ++ element :: c.elements.drop (k + 1)).forM
            visitor.noting).run.run (s, []) := by rw [← hcut]
      _ = ((element :: c.elements.drop (k + 1)).forM visitor.noting).run.run
            (s', c.elements.take k) := htakes.run_forM_noting
      _ = (.error cause, (s'', c.elements.take k ++ [element])) :=
        Visitor.run_forM_of_error (Visitor.run_noting hrefuses)
      _ = (.error cause, (s'', c.elements.take (k + 1))) := by rw [htake]
    exact ⟨Visitor.run_forM_of_noting hnoted, hnoted⟩
  · intro hlength
    rw [List.take_of_length_le hlength] at htakes
    have hall : ((c.elements ++ []).forM visitor.noting).run.run (s, []) =
        (.ok ⟨⟩, (s', [] ++ c.elements)) := htakes.run_forM_noting
    rw [List.append_nil, List.nil_append] at hall
    exact ⟨Visitor.run_forM_of_noting hall, hall, elements_eq_concat c⟩

/-- A class `A` that extends `B`, with two interfaces, two fields and a name in its pool. -/
def twoInterfaces : Class where
  header := ⟨0, 52, 33, "A", some "B", ["I", "J"]⟩
  fields := [⟨0, "f", "LA;", none, [], []⟩, ⟨0, "g", "I", none, [], []⟩]
  methods := []
  signature := none
  marks := []
  innerClasses := []
  references := [.class "A"]

/-- A visitor that counts the elements, and refuses the one of a number by saying which it was. -/
def refusing (number : Nat) : Visitor Nat Nat := fun _ =>
  ExceptT.mk fun count => (if count = number then .error count else .ok ⟨⟩, count + 1)

/-- The visit is broken off between the two interfaces, or not at all. -/
theorem visit_refused_interface :
    (twoInterfaces.visit (refusing 2).noting).run.run (0, []) =
        (.error 2, (3, [.thisClass "A", .superclass "B", .interface "I"])) ∧
      (twoInterfaces.visit (refusing 8).noting).run.run (0, []) =
        (.ok ⟨⟩, (8, twoInterfaces.elements)) := by
  have htakes : (refusing 2).Takes 0 (twoInterfaces.elements.take 2) 2 :=
    .cons rfl (.cons rfl .nil)
  have hall : (refusing 8).Takes 0 (twoInterfaces.elements.take 8) 8 :=
    .cons rfl (.cons rfl (.cons rfl (.cons rfl (.cons rfl (.cons rfl (.cons rfl
      (.cons rfl .nil)))))))
  exact ⟨((visit_refused twoInterfaces _ htakes).1 _ _ _ rfl rfl).2,
    ((visit_refused twoInterfaces _ hall).2 (by decide)).2.1⟩

end Class

end JarGraph.ClassFile
