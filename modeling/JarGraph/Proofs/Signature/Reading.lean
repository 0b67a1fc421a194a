import JarGraph.Signature.Grammar
import Mathlib.Data.List.Basic
/-!
# Reading signatures

The scanner reads the text of every signature of the grammar to its end
and finds the classes that the signature names, in order
(`classNames_text`). `Leads` says what a row of characters does to the
scanner, whatever comes after it: the state that it leads to and the
names that it brings. Each sort of the grammar gets one such statement,
under any row of classes whose type arguments are open, so that types
nest to any depth.
-/

namespace JarGraph.Signature

variable {s s' s'' : State} {cs cs' : List Char} {names names' : List (List Char)} {c : Char}
variable {owners : List (List Char)} {place : Place}

/-- From a state, some characters lead to another state and bring some names. -/
def Leads (s : State) (cs : List Char) (names : List (List Char)) (s' : State) : Prop :=
  ∀ rest, scan s (cs ++ rest) = (scan s' rest).map (names ++ ·)

namespace Leads

theorem refl (s : State) : Leads s [] [] s := by
  intro rest
  simp

theorem trans (h : Leads s cs names s') (h' : Leads s' cs' names' s'') :
    Leads s (cs ++ cs') (names ++ names') s'' := by
  intro rest
  rw [List.append_assoc, h, h', Option.map_map]
  simp [Function.comp_def]

/-- Characters before the first name. -/
theorem after (h : Leads s cs [] s') (h' : Leads s' cs' names s'') :
    Leads s (cs ++ cs') names s'' :=
  h.trans h'

/-- Characters after the last name. -/
theorem before (h : Leads s cs names s') (h' : Leads s' cs' [] s'') :
    Leads s (cs ++ cs') names s'' := by
  have := h.trans h'
  rwa [List.append_nil] at this

/-- One character, with the name that it brings to an end, if any. -/
theorem ofStep {found : Option (List Char)} (h : step s c = some (s', found)) :
    Leads s [c] found.toList s' := by
  intro rest
  rw [List.singleton_append, scan, h]

theorem single (h : step s c = some (s', none)) : Leads s [c] [] s' :=
  ofStep h

/-- One character that ends no name, and what comes after it. -/
theorem cons (h : step s c = some (s', none)) (h' : Leads s' cs names s'') :
    Leads s (c :: cs) names s'' :=
  (single h).after h'

/-- Two states that take the first character in the same way read the same. -/
theorem congr (h : step s c = step s' c) (h' : Leads s' (c :: cs) names s'') :
    Leads s (c :: cs) names s'' := by
  intro rest
  have := h' rest
  rw [List.cons_append, scan] at this ⊢
  rw [h, this]

/-- Characters that change nothing. -/
theorem stay (h : ∀ c ∈ cs, step s c = some (s, none)) : Leads s cs [] s := by
  induction cs with
  | nil => exact .refl s
  | cons c more ih =>
    exact .cons (h c List.mem_cons_self) (ih fun d hd => h d (List.mem_cons_of_mem _ hd))

/-- A row of parts, each of which leads back to where it started. -/
theorem flatMap {α : Type} {chars : α → List Char} {found : α → List (List Char)} {parts : List α}
    (h : ∀ a ∈ parts, Leads s (chars a) (found a) s) :
    Leads s (parts.flatMap chars) (parts.flatMap found) s := by
  induction parts with
  | nil => exact .refl s
  | cons a more ih =>
    rw [List.flatMap_cons, List.flatMap_cons]
    exact (h a List.mem_cons_self).trans (ih fun b hb => h b (List.mem_cons_of_mem _ hb))

end Leads

/-! ## Names -/

theorem Identifier.endsName_eq_false (name : Identifier) (hc : c ∈ name.chars) :
    endsName c = false := by
  have h := name.not_reserved c hc
  simp only [reserved, List.mem_cons, List.not_mem_nil, or_false, not_or] at h
  simp [endsName, h]

theorem Identifier.ne_semicolon (name : Identifier) (hc : c ∈ name.chars) : c ≠ ';' := by
  rintro rfl
  exact absurd (name.endsName_eq_false hc) (by decide)

theorem Identifier.ne_colon (name : Identifier) (hc : c ∈ name.chars) : c ≠ ':' := by
  rintro rfl
  exact absurd (name.not_reserved _ hc) (by decide)

theorem Identifier.ne_close (name : Identifier) (hc : c ∈ name.chars) : c ≠ '>' := by
  rintro rfl
  exact absurd (name.endsName_eq_false hc) (by decide)

/-- The characters of a name are kept, last first. -/
theorem leads_name (outer own : List Char) (h : ∀ c ∈ cs, endsName c = false) :
    Leads (.inType (.name outer own) owners place) cs []
      (.inType (.name outer (cs.reverse ++ own)) owners place) := by
  induction cs generalizing own with
  | nil => exact .refl _
  | cons c cs ih =>
    rw [List.reverse_cons, List.append_assoc]
    refine .cons ?_ (ih (c :: own) fun d hd => h d (List.mem_cons_of_mem _ hd))
    simp [step, stepType, h c List.mem_cons_self]

/-- At the end of a name the scanner stands as behind the class, and has found it. -/
theorem Leads.ofName {outer own : List Char} (hown : own ≠ []) (hc : endsName c = true)
    (h : Leads (.inType (.class (outer ++ own.reverse)) owners place) (c :: cs) names s') :
    Leads (.inType (.name outer own) owners place) (c :: cs)
      ((outer ++ own.reverse) :: names) s' := by
  intro rest
  have hclass := h rest
  rw [List.cons_append, scan] at hclass ⊢
  simp only [step, stepType, if_pos hc, if_neg hown] at hclass ⊢
  cases hafter : afterClass (outer ++ own.reverse) owners place c with
  | none =>
    rw [hafter] at hclass
    have hnone : scan s' rest = none := Option.map_eq_none_iff.1 hclass.symm
    rw [hnone]
    rfl
  | some next =>
    simp only [hafter, Option.map_some, Option.toList_none, Option.toList_some,
      List.nil_append, Option.map_id_fun', id] at hclass ⊢
    rw [hclass, Option.map_map]
    rfl

/-! ## Types -/

theorem ClassType.exists_cons (t : ClassType) : ∃ cs, t.chars = 'L' :: cs := by
  cases t
  exact ⟨_, rfl⟩

/-- A type that is not primitive starts with one of three characters. -/
theorem Reference.exists_cons (r : Reference) :
    ∃ c cs, r.chars = c :: cs ∧ (c = 'L' ∨ c = 'T' ∨ c = '[') := by
  cases r with
  | ofClass type =>
    obtain ⟨cs, h⟩ := type.exists_cons
    exact ⟨'L', cs, h, .inl rfl⟩
  | ofVariable name => exact ⟨'T', _, rfl, .inr (.inl rfl)⟩
  | ofArray element => exact ⟨'[', _, rfl, .inr (.inr rfl)⟩

/-- Where such a type may stand, it is read as where nothing else may. -/
theorem Leads.ofReference {r : Reference}
    (hs : ∀ c, c = 'L' ∨ c = 'T' ∨ c = '[' →
      step s c = (openReference owners place c).map (·, none))
    (h : Leads (.inType .reference owners place) r.chars names s') :
    Leads s r.chars names s' := by
  obtain ⟨c, cs, hr, hc⟩ := r.exists_cons
  rw [hr] at h ⊢
  refine .congr ?_ h
  exact hs c hc

theorem isPrimitive_letter (p : Descriptor.Primitive) : isPrimitive p.letter = true := by
  cases p <;> rfl

/-- Where any type may stand, it is read as where nothing else may. -/
theorem Leads.ofType {t : AnyType}
    (hs : ∀ c, isPrimitive c = true ∨ c = 'L' ∨ c = 'T' ∨ c = '[' →
      step s c = (openType owners place c).map (·, none))
    (h : Leads (.inType .type owners place) t.chars names s') :
    Leads s t.chars names s' := by
  cases t with
  | primitive p =>
    refine .congr ?_ h
    exact hs p.letter (.inl (isPrimitive_letter p))
  | reference r =>
    obtain ⟨c, cs, hr, hc⟩ := r.exists_cons
    rw [AnyType.chars, hr] at h ⊢
    refine .congr ?_ h
    exact hs c (.inr hc)

theorem Argument.chars_ne_nil (a : Argument) : a.chars ≠ [] := by
  cases a with
  | any | atMost | atLeast => exact List.cons_ne_nil _ _
  | exactly type =>
    obtain ⟨c, cs, hr, -⟩ := type.exists_cons
    rw [Argument.chars, hr]
    exact List.cons_ne_nil _ _

/-- What comes after the name of a class or after its type arguments. -/
theorem exists_endsName_inner (inner : List Segment) :
    ∃ c cs, Segment.innerChars inner ++ [';'] = c :: cs ∧ endsName c = true := by
  cases inner with
  | nil => exact ⟨';', [], rfl, rfl⟩
  | cons s more => exact ⟨'.', _, rfl, rfl⟩

theorem exists_endsName_bracketed {tail : List Char} (inside : List Char)
    (h : ∃ c cs, tail = c :: cs ∧ endsName c = true) :
    ∃ c cs, bracketed inside ++ tail = c :: cs ∧ endsName c = true := by
  unfold bracketed
  split
  · exact h
  · exact ⟨'<', _, rfl, rfl⟩

mutual

/-- **A class type is read to its end** and brings the classes that it names. -/
theorem ClassType.leads (t : ClassType) (owners : List (List Char)) (place : Place) :
    Leads (.inType .reference owners place) t.chars t.names (afterType owners place) := by
  match t with
  | .mk packages outermost inner =>
    have hpackages : ∀ c ∈ packages.flatMap fun p => p.chars ++ ['/'], endsName c = false := by
      intro c hc
      obtain ⟨p, -, hc⟩ := List.mem_flatMap.1 hc
      rcases List.mem_append.1 hc with hc | hc
      · exact p.endsName_eq_false hc
      · obtain rfl := List.mem_singleton.1 hc
        rfl
    have hstart : step (.inType .reference owners place) 'L' =
        some (.inType (.name [] []) owners place, none) := rfl
    have hinner := Segment.leads_inner inner
      (packages.flatMap (fun p => p.chars ++ ['/']) ++ outermost.ownName) owners place
    -- The packages and the name of the outermost class are one name to the scanner.
    have houtermost := Segment.leads outermost []
      ((packages.flatMap fun p => p.chars ++ ['/']).reverse ++ []) (exists_endsName_inner inner)
      (by simpa using hinner)
    have h := Leads.cons hstart ((leads_name [] [] hpackages).after houtermost)
    simpa [ClassType.chars, ClassType.names, List.append_assoc] using h

/-- The own name of a class and its type arguments, in front of what ends them. -/
theorem Segment.leads (segment : Segment) (outer own : List Char) {tail : List Char}
    {names : List (List Char)} {owners : List (List Char)} {place : Place} {s' : State}
    (htail : ∃ c cs, tail = c :: cs ∧ endsName c = true)
    (h : Leads (.inType (.class (outer ++ own.reverse ++ segment.ownName)) owners place)
      tail names s') :
    Leads (.inType (.name outer own) owners place) (segment.chars ++ tail)
      (segment.names (outer ++ own.reverse) ++ names) s' := by
  match segment, h with
  | .mk name arguments, h =>
    have hname : Leads (.inType (.name outer own) owners place) name.chars []
        (.inType (.name outer (name.chars.reverse ++ own)) owners place) :=
      leads_name outer own fun c hc => name.endsName_eq_false hc
    have hfull : outer ++ (name.chars.reverse ++ own).reverse =
        outer ++ own.reverse ++ name.chars := by simp
    have hown : name.chars.reverse ++ own ≠ [] := by simp [name.nonempty]
    have hrest := (Argument.leads_bracketed arguments (outer ++ own.reverse ++ name.chars)
      owners place).trans h
    obtain ⟨c, cs, heq, hc⟩ := exists_endsName_bracketed (Argument.allChars arguments) htail
    rw [heq, ← hfull] at hrest
    have := hname.after (.ofName hown hc hrest)
    rw [Segment.chars, Segment.names, List.append_assoc, heq]
    rwa [hfull] at this

/-- Inner classes up to the end of the type. -/
theorem Segment.leads_inner (inner : List Segment) (around : List Char)
    (owners : List (List Char)) (place : Place) :
    Leads (.inType (.class around) owners place) (Segment.innerChars inner ++ [';'])
      (Segment.innerNames around inner) (afterType owners place) := by
  match inner with
  | [] => exact .single rfl
  | segment :: more =>
    have hmore := Segment.leads_inner more (around ++ '$' :: segment.ownName) owners place
    have hsegment := Segment.leads segment (around ++ ['$']) [] (exists_endsName_inner more)
      (by simpa using hmore)
    have hdot : step (.inType (.class around) owners place) '.' =
        some (.inType (.name (around ++ ['$']) []) owners place, none) := rfl
    have := Leads.cons hdot hsegment
    simpa [Segment.innerChars, Segment.innerNames, List.append_assoc] using this

/-- Type arguments in their brackets, or none. -/
theorem Argument.leads_bracketed (arguments : List Argument) (name : List Char)
    (owners : List (List Char)) (place : Place) :
    Leads (.inType (.class name) owners place) (bracketed (Argument.allChars arguments))
      (Argument.allNames arguments) (.inType (.class name) owners place) := by
  match arguments with
  | [] => exact .refl _
  | a :: more =>
    have hne : Argument.allChars (a :: more) ≠ [] := by
      simp [Argument.allChars, a.chars_ne_nil]
    rw [bracketed, if_neg hne]
    have hall := (Argument.leads a name owners place).trans
      (Argument.leads_all more name owners place)
    exact .cons rfl (hall.before (.single rfl))

/-- Type arguments in a row. -/
theorem Argument.leads_all (arguments : List Argument) (name : List Char)
    (owners : List (List Char)) (place : Place) :
    Leads (.inType (.arguments name) owners place) (Argument.allChars arguments)
      (Argument.allNames arguments) (.inType (.arguments name) owners place) := by
  match arguments with
  | [] => exact .refl _
  | a :: more =>
    exact (Argument.leads a name owners place).trans (Argument.leads_all more name owners place)

/-- One type argument; inside it the class is one more owner. -/
theorem Argument.leads (a : Argument) (name : List Char) (owners : List (List Char))
    (place : Place) :
    Leads (.inType (.arguments name) owners place) a.chars a.names
      (.inType (.arguments name) owners place) := by
  match a with
  | .any => exact .single rfl
  | .exactly type =>
    refine .ofReference ?_ (Reference.leads type (name :: owners) place)
    rintro c (rfl | rfl | rfl) <;> rfl
  | .atMost type => exact .cons rfl (Reference.leads type (name :: owners) place)
  | .atLeast type => exact .cons rfl (Reference.leads type (name :: owners) place)

/-- A type that is not primitive. -/
theorem Reference.leads (r : Reference) (owners : List (List Char)) (place : Place) :
    Leads (.inType .reference owners place) r.chars r.names (afterType owners place) := by
  match r with
  | .ofClass type => exact ClassType.leads type owners place
  | .ofVariable name =>
    have hname : Leads (.inType .variable owners place) name.chars []
        (.inType .variable owners place) := .stay fun c hc => by
      simp [step, stepType, name.ne_semicolon hc]
    exact .cons rfl (hname.after (.single rfl))
  | .ofArray element => exact .cons rfl (AnyType.leads element owners place)

/-- A type. -/
theorem AnyType.leads (t : AnyType) (owners : List (List Char)) (place : Place) :
    Leads (.inType .type owners place) t.chars t.names (afterType owners place) := by
  match t with
  | .primitive p => exact .single (by simp [step, stepType, openType, isPrimitive_letter])
  | .reference r =>
    refine .ofReference ?_ (Reference.leads r owners place)
    rintro c (rfl | rfl | rfl) <;> rfl

end

/-! ## Type parameters -/

/-- The name of a type parameter, from where one may start up to its class bound. -/
theorem leads_parameterName (name : Identifier)
    (hs : ∀ c, c ≠ ':' → step s c = some (stepParameterStart c, none)) :
    Leads s (name.chars ++ [':']) [] .classBound := by
  obtain ⟨c, cs, hname⟩ := List.exists_cons_of_ne_nil name.nonempty
  have hc : c ∈ name.chars := by simp [hname]
  have hfirst : step s c = some (.parameterName, none) := by
    simp [hs c (name.ne_colon hc), stepParameterStart, name.ne_close hc, name.ne_colon hc]
  have hmore : Leads .parameterName cs [] .parameterName := .stay fun d hd => by
    have hd : d ∈ name.chars := by simp [hname, hd]
    simp [step, name.ne_colon hd]
  rw [hname]
  exact .cons hfirst (hmore.after (.single rfl))

/-- Bounds by interfaces in a row. -/
theorem leads_interfaceBounds (bounds : List Reference) :
    Leads .moreBounds (bounds.flatMap fun bound => ':' :: bound.chars)
      (bounds.flatMap Reference.names) .moreBounds :=
  .flatMap fun bound _ => .cons rfl (bound.leads [] .bound)

/-- The bounds of a type parameter. The one by a class may be left out only because there is
another one then. -/
theorem TypeParameter.leads_bounds (p : TypeParameter) :
    Leads .classBound
      (p.classBound.toList.flatMap Reference.chars
        ++ p.interfaceBounds.flatMap fun bound => ':' :: bound.chars)
      p.names .moreBounds := by
  rw [TypeParameter.names, TypeParameter.bounds, List.flatMap_append]
  cases hclass : p.classBound with
  | some bound =>
    have hbound : Leads .classBound bound.chars bound.names .moreBounds := by
      refine .ofReference ?_ (bound.leads [] .bound)
      rintro c (rfl | rfl | rfl) <;> rfl
    have h := hbound.trans (leads_interfaceBounds p.interfaceBounds)
    simpa using h
  | none =>
    cases hinterfaces : p.interfaceBounds with
    | nil => exact absurd p.bounded (by simp [hclass, hinterfaces])
    | cons bound more =>
      have hbound : Leads .classBound (':' :: bound.chars) bound.names .moreBounds :=
        .cons rfl (bound.leads [] .bound)
      exact hbound.trans (leads_interfaceBounds more)

/-- A type parameter, from where one may start. -/
theorem TypeParameter.leads (p : TypeParameter)
    (hs : ∀ c, c ≠ ':' → step s c = some (stepParameterStart c, none)) :
    Leads s p.chars p.names .moreBounds := by
  have h := (leads_parameterName p.name hs).after p.leads_bounds
  simpa [TypeParameter.chars] using h

/-- Type parameters in their brackets, if there are any, in front of the signature proper. -/
theorem leads_parameters (parameters : List TypeParameter) (hc : c ≠ '<')
    (h : Leads .body (c :: cs) names s') :
    Leads .start (bracketed (parameters.flatMap TypeParameter.chars) ++ c :: cs)
      (parameters.flatMap TypeParameter.names ++ names) s' := by
  cases parameters with
  | nil => exact .congr (by simp [step, hc]) h
  | cons p more =>
    have hne : (p :: more).flatMap TypeParameter.chars ≠ [] := by simp [TypeParameter.chars]
    have hfirst : Leads .parameterStart p.chars p.names .moreBounds := p.leads fun _ _ => rfl
    have hmore : Leads .moreBounds (more.flatMap TypeParameter.chars)
        (more.flatMap TypeParameter.names) .moreBounds :=
      .flatMap fun q _ => q.leads fun d hd => by simp [step, hd]
    have hclose : Leads .moreBounds ['>'] [] .body := .single rfl
    have hall := (hfirst.trans hmore).before hclose
    rw [bracketed, if_neg hne]
    exact Leads.trans (.cons rfl hall) h

/-! ## Signatures -/

/-- What a class extends, from where the signature proper starts. -/
theorem leads_supertypes (superclass : ClassType) (interfaces : List ClassType) :
    Leads .body (superclass.chars ++ interfaces.flatMap ClassType.chars)
      (superclass.names ++ interfaces.flatMap ClassType.names) .supertypes := by
  have hfirst : Leads .body superclass.chars superclass.names .supertypes := by
    refine .ofReference (r := .ofClass superclass) ?_ (superclass.leads [] .supertype)
    rintro c (rfl | rfl | rfl) <;> rfl
  have hmore : Leads .supertypes (interfaces.flatMap ClassType.chars)
      (interfaces.flatMap ClassType.names) .supertypes := by
    refine .flatMap fun t _ => .ofReference (r := .ofClass t) ?_ (t.leads [] .supertype)
    rintro c (rfl | rfl | rfl) <;> rfl
  exact hfirst.trans hmore

/-- The result of a method, which may be nothing. -/
theorem leads_result (result : Option AnyType) :
    Leads .result (result.elim ['V'] AnyType.chars) (result.elim [] AnyType.names) .thrown := by
  cases result with
  | none => exact .single rfl
  | some t =>
    refine .ofType ?_ (t.leads [] .result)
    intro c hc
    have hV : c ≠ 'V' := by
      rintro rfl
      exact absurd hc (by decide)
    simp [step, hV]

/-- The parameter types, the result and the thrown types of a method. -/
theorem leads_method (arguments : List AnyType) (result : Option AnyType) (thrown : List Thrown) :
    Leads .parameters
      (arguments.flatMap AnyType.chars ++ ')' :: (result.elim ['V'] AnyType.chars
        ++ thrown.flatMap fun t => '^' :: t.type.chars))
      (arguments.flatMap AnyType.names ++ (result.elim [] AnyType.names
        ++ thrown.flatMap fun t => t.type.names)) .thrown := by
  have harguments : Leads .parameters (arguments.flatMap AnyType.chars)
      (arguments.flatMap AnyType.names) .parameters := by
    refine .flatMap fun t _ => .ofType ?_ (t.leads [] .parameter)
    intro c hc
    have hclose : c ≠ ')' := by
      rintro rfl
      exact absurd hc (by decide)
    simp [step, hclose]
  have hthrown : Leads .thrown (thrown.flatMap fun t => '^' :: t.type.chars)
      (thrown.flatMap fun t => t.type.names) .thrown :=
    .flatMap fun t _ => .cons rfl (t.type.leads [] .thrown)
  exact harguments.trans (.cons rfl ((leads_result result).trans hthrown))

/-- A signature that leads to where it may end is read. -/
theorem Leads.scan_eq (h : Leads s cs names s') (hend : isComplete s' = true) :
    scan s cs = some names := by
  have := h []
  simpa [scan, hend] using this

/-- **The characters of a signature** are scanned to their end and bring the names of the tree. -/
theorem scan_chars (tree : Tree) : scan .start tree.chars = some tree.names := by
  cases tree with
  | ofClass parameters superclass interfaces =>
    obtain ⟨cs, hcs⟩ := superclass.exists_cons
    have hbody := leads_supertypes superclass interfaces
    rw [hcs, List.cons_append] at hbody
    have h := leads_parameters parameters (by decide) hbody
    simpa [Tree.chars, Tree.names, hcs] using h.scan_eq rfl
  | ofField type =>
    have h : Leads .start type.chars type.names .supertypes := by
      refine .ofReference ?_ (type.leads [] .supertype)
      rintro c (rfl | rfl | rfl) <;> rfl
    exact h.scan_eq rfl
  | ofMethod parameters arguments result thrown =>
    have hopen : step .body '(' = some (.parameters, none) := rfl
    have h := leads_parameters parameters (by decide)
      (.cons hopen (leads_method arguments result thrown))
    simpa [Tree.chars, Tree.names] using h.scan_eq rfl

/-- **Reading a signature finds its classes.** The text of every signature of the grammar, of a
class, a field or a method and nested to any depth, is read to its end, and what is found are the
classes that the signature names, in order. -/
theorem classNames_text (tree : Tree) : classNames tree.text = .ok tree.classNames := by
  rw [classNames, Tree.text, String.toList_ofList, scan_chars]
  rfl

end JarGraph.Signature
