import JarGraph.Proofs.Artifact.Sets
import JarGraph.Proofs.Ordered
/-!
# Two registrations of one file

A registration is refused if it says something else than what is recorded
of the file. Of two registrations it should not matter which one comes
first, and mostly it does not: what one of them refuses in the other it
refuses in either order, and what is recorded in the end is the same
(`register_in_either_order`). The exception is a set of dependencies that
is given and empty. On record it cannot be told from one that was not
given, so that another set takes its place, while it is refused itself
after another set (`exists_order_told`).
-/

namespace JarGraph.Artifact

/-- Two records say the same of the same file, however its paths are spelled. -/
structure Described.Alike (known other : Described) : Prop where
  file : known.file.same other.file = true
  coordinates : known.coordinates = other.coordinates
  dependencies : known.dependencies.sameElements other.dependencies = true

/-- What a registration says of a file: coordinates, and dependencies where they are given. -/
structure Registration where
  coordinates : Coordinates
  dependencies : Option (OrderedSet Path)

variable {first second : Registration} {file : Path}

/-- Recorded dependencies are filled in if there are none. -/
def filled (known : OrderedSet Path) (asked : Option (OrderedSet Path)) : OrderedSet Path :=
  if known.isEmpty then asked.getD known else known

namespace Registration

/-- The registrations contradict one another: in the coordinates, or in the dependencies, of which
the first gives some. -/
def Contradicts (first second : Registration) : Prop :=
  first.coordinates ≠ second.coordinates ∨
    ∃ known asked, first.dependencies = some known ∧ second.dependencies = some asked ∧
      known.isEmpty = false ∧ asked.sameElements known = false

/-- The registrations differ in nothing but that the first one says that the file has no
dependencies, and the second one gives some. -/
def DeniesOnly (first second : Registration) : Prop :=
  first.coordinates = second.coordinates ∧
    ∃ known asked, first.dependencies = some known ∧ second.dependencies = some asked ∧
      known.isEmpty = true ∧ asked.isEmpty = false

/-- The dependencies that both registrations leave on record. -/
def settled (first second : Registration) : OrderedSet Path :=
  filled (first.dependencies.getD .empty) second.dependencies

/-- What contradicts in the one order does so in the other, or is contradicted by a mere denial. -/
theorem Contradicts.swap (h : first.Contradicts second) :
    second.Contradicts first ∨ second.DeniesOnly first := by
  by_cases hcoordinates : second.coordinates = first.coordinates
  · obtain ⟨known, asked, hfirst, hsecond, hknown, hdiffer⟩ :=
      h.resolve_left fun hne => hne hcoordinates.symm
    cases hasked : asked.isEmpty with
    | true => exact .inr ⟨hcoordinates, asked, known, hsecond, hfirst, hasked, hknown⟩
    | false =>
      refine .inl (.inr ⟨asked, known, hsecond, hfirst, hasked, ?_⟩)
      rw [Bool.eq_false_iff] at hdiffer ⊢
      exact fun hsame => hdiffer (OrderedSet.sameElements_symm hsame)
  · exact .inl (.inl hcoordinates)

/-- A mere denial contradicts nothing that follows it. -/
theorem DeniesOnly.not_contradicts (h : first.DeniesOnly second) :
    ¬ first.Contradicts second := by
  obtain ⟨hcoordinates, known, -, hfirst, -, hknown, -⟩ := h
  rintro (hne | ⟨other, -, hother, -, hfull, -⟩)
  · exact hne hcoordinates
  · obtain rfl := Option.some.inj (hfirst.symm.trans hother)
    rw [hknown] at hfull
    cases hfull

/-- And it is contradicted by what went before it. -/
theorem DeniesOnly.contradicts (h : first.DeniesOnly second) : second.Contradicts first := by
  obtain ⟨-, known, asked, hfirst, hsecond, hknown, hasked⟩ := h
  refine .inr ⟨asked, known, hsecond, hfirst, hasked, ?_⟩
  rw [Bool.eq_false_iff] at hasked ⊢
  exact fun hsame => hasked
    (OrderedSet.isEmpty_of_sameElements (OrderedSet.sameElements_symm hsame) hknown)

theorem contradicts_iff_swap :
    (first.Contradicts second ↔ second.Contradicts first) ↔
      ¬ first.DeniesOnly second ∧ ¬ second.DeniesOnly first := by
  constructor
  · intro h
    exact ⟨fun hdenies => hdenies.not_contradicts (h.2 hdenies.contradicts),
      fun hdenies => hdenies.not_contradicts (h.1 hdenies.contradicts)⟩
  · rintro ⟨hfirst, hsecond⟩
    exact ⟨fun h => h.swap.resolve_right hsecond, fun h => h.swap.resolve_right hfirst⟩

/-- Dependencies that both registrations give are the same, if the first ones are not empty. -/
theorem sameElements_of_not_contradicts {known asked : OrderedSet Path}
    (h : ¬ first.Contradicts second) (hfirst : first.dependencies = some known)
    (hsecond : second.dependencies = some asked) (hknown : known.isEmpty = false) :
    asked.sameElements known = true := by
  rw [← Bool.not_eq_false]
  exact fun hdiffer => h (.inr ⟨known, asked, hfirst, hsecond, hknown, hdiffer⟩)

/-- What is left on record are the dependencies that either registration gives, if these do not
contradict one another in either order. -/
theorem settled_sameElements {asked : OrderedSet Path} (h : ¬ first.Contradicts second)
    (h' : ¬ second.Contradicts first)
    (hasked : first.dependencies = some asked ∨ second.dependencies = some asked) :
    (first.settled second).sameElements asked = true := by
  have hself := OrderedSet.sameElements_self asked
  unfold settled filled
  cases hfirst : first.dependencies with
  | none =>
    have hsecond := hasked.resolve_left (by simp [hfirst])
    rw [hsecond]
    exact hself
  | some known =>
    have hgiven : known = asked ∨ second.dependencies = some asked :=
      hasked.imp_left fun hsome => Option.some.inj (hfirst.symm.trans hsome)
    rw [Option.getD_some]
    cases hknown : known.isEmpty with
    | true =>
      -- Dependencies that take the place of none are none themselves, or were contradicted before.
      rw [if_pos rfl]
      cases hsecond : second.dependencies with
      | none =>
        obtain rfl := hgiven.resolve_right (by simp [hsecond])
        exact hself
      | some other =>
        rcases hgiven with rfl | hgiven
        · cases hother : other.isEmpty with
          | true => exact OrderedSet.sameElements_of_isEmpty hother hknown
          | false =>
            exact OrderedSet.sameElements_symm
              (sameElements_of_not_contradicts h' hsecond hfirst hother)
        · obtain rfl := Option.some.inj (hsecond.symm.trans hgiven)
          exact hself
    | false =>
      rw [if_neg Bool.false_ne_true]
      rcases hgiven with rfl | hgiven
      · exact hself
      · exact OrderedSet.sameElements_symm
          (sameElements_of_not_contradicts h hfirst hgiven hknown)

theorem settled_swap (h : ¬ first.Contradicts second) (h' : ¬ second.Contradicts first) :
    (first.settled second).sameElements (second.settled first) = true := by
  by_cases hgiven : ∃ asked, first.dependencies = some asked ∨ second.dependencies = some asked
  · obtain ⟨asked, hasked⟩ := hgiven
    exact OrderedSet.sameElements_trans (settled_sameElements h h' hasked)
      (OrderedSet.sameElements_symm (settled_sameElements h' h hasked.symm))
  · have hfirst : first.dependencies = none :=
      Option.eq_none_iff_forall_ne_some.2 fun asked hsome => hgiven ⟨asked, .inl hsome⟩
    have hsecond : second.dependencies = none :=
      Option.eq_none_iff_forall_ne_some.2 fun asked hsome => hgiven ⟨asked, .inr hsome⟩
    rw [settled, settled, hfirst, hsecond]
    exact OrderedSet.sameElements_self _

end Registration

namespace Registry

variable {r r₁ r₂ : Registry} {known known₁ known₂ : Described}

/-- Two registrations of a file, the second one after the first. -/
def registerBoth (r : Registry) (file : Path) (first second : Registration) :
    Except Error (Registry × Described) := do
  let (r, _) ← r.register file first.coordinates first.dependencies
  r.register file second.coordinates second.dependencies

/-- A file that is not known is recorded as it is said. -/
theorem register_of_unknown (h : r.get? file = none) (said : Registration) :
    ∃ r', r.register file said.coordinates said.dependencies =
        .ok (r', ⟨file, said.coordinates, said.dependencies.getD .empty⟩) ∧
      ∀ other, r'.get? other =
        if other.same file = true then
          some ⟨file, said.coordinates, said.dependencies.getD .empty⟩
        else r.get? other := by
  rw [register, h]
  exact ⟨_, rfl, fun other => get?_put r file other _⟩

/-- What is said of a file that is known has to agree with the record. -/
theorem register_of_known (h : r.get? file = some known) (said : Registration) :
    ((known.coordinates ≠ said.coordinates ∨
        dependenciesConflict known.dependencies said.dependencies = true) ∧
      r.register file said.coordinates said.dependencies = .error (.mismatch file)) ∨
    ¬ (known.coordinates ≠ said.coordinates ∨
        dependenciesConflict known.dependencies said.dependencies = true) ∧
      ∃ r', r.register file said.coordinates said.dependencies =
          .ok (r', { known with dependencies := filled known.dependencies said.dependencies }) ∧
        ∀ other, r'.get? other =
          if other.same file = true then
            some { known with dependencies := filled known.dependencies said.dependencies }
          else r.get? other := by
  have hrecord : (if known.dependencies.isEmpty then
        { known with dependencies := said.dependencies.getD known.dependencies } else known) =
      { known with dependencies := filled known.dependencies said.dependencies } := by
    unfold filled
    split <;> rfl
  rw [← decide_eq_true_eq (p := known.coordinates ≠ said.coordinates), ← Bool.or_eq_true, register,
    h]
  dsimp only
  rw [hrecord]
  split
  · rename_i hconflict
    exact .inl ⟨hconflict, rfl⟩
  · rename_i hconflict
    exact .inr ⟨hconflict, _, rfl, fun other => get?_put r file other _⟩

/-- What the second registration says is in conflict with what the first one has left on record. -/
theorem contradicts_iff :
    first.Contradicts second ↔ first.coordinates ≠ second.coordinates ∨
      dependenciesConflict (first.dependencies.getD .empty) second.dependencies = true := by
  refine or_congr_right ?_
  -- What was not given is on record as empty, and so is in conflict with nothing.
  cases first.dependencies <;> cases second.dependencies <;>
    simp [dependenciesConflict, OrderedSet.isEmpty]

/-- Of two registrations of a file that is not known, the second one is refused or leaves on record
what both say. -/
theorem registerBoth_cases (h : r.get? file = none) (first second : Registration) :
    (first.Contradicts second ∧ r.registerBoth file first second = .error (.mismatch file)) ∨
    (¬ first.Contradicts second ∧
      ∃ r', r.registerBoth file first second =
          .ok (r', ⟨file, first.coordinates, first.settled second⟩) ∧
        ∀ other, r'.get? other =
          if other.same file = true then
            some ⟨file, first.coordinates, first.settled second⟩
          else r.get? other) := by
  -- The second registration finds the record that the first one has made.
  obtain ⟨r₁, hfirst, hget₁⟩ := register_of_unknown h first
  have hknown := hget₁ file
  rw [if_pos (Path.same_self file)] at hknown
  have hboth : r.registerBoth file first second =
      r₁.register file second.coordinates second.dependencies := by
    rw [registerBoth, hfirst]
    rfl
  rw [hboth, contradicts_iff]
  refine (register_of_known hknown second).imp_right (And.imp_right ?_)
  rintro ⟨r₂, hsecond, hget₂⟩
  refine ⟨r₂, hsecond, fun other => (hget₂ other).trans ?_⟩
  split
  · rfl
  · rename_i hother
    rw [hget₁, if_neg hother]

/-- **Two registrations of a file that is not known** are refused in both orders or in none, but for
one pair: that the file has no dependencies can be said before some are given, and not afterwards.
Where both orders go through, they leave the same on record of every file, and of this one the
dependencies that either registration gives. -/
theorem register_in_either_order (h : r.get? file = none) (first second : Registration) :
    ((r.registerBoth file first second = .error (.mismatch file) ↔
        r.registerBoth file second first = .error (.mismatch file)) ↔
      ¬ first.DeniesOnly second ∧ ¬ second.DeniesOnly first) ∧
    (first.DeniesOnly second →
      (∃ answer, r.registerBoth file first second = .ok answer) ∧
        r.registerBoth file second first = .error (.mismatch file)) ∧
    ∀ r₁ known₁ r₂ known₂, r.registerBoth file first second = .ok (r₁, known₁) →
      r.registerBoth file second first = .ok (r₂, known₂) →
      known₁.Alike known₂ ∧ r₁.get? file = some known₁ ∧ r₂.get? file = some known₂ ∧
        (∀ other, Option.Rel Described.Alike (r₁.get? other) (r₂.get? other)) ∧
        ∀ asked, (first.dependencies = some asked ∨ second.dependencies = some asked) →
          known₁.dependencies.sameElements asked = true := by
  have hrefused : ∀ first second : Registration,
      r.registerBoth file first second = .error (.mismatch file) ↔ first.Contradicts second := by
    intro first second
    rcases registerBoth_cases h first second with ⟨hno, hboth⟩ | ⟨hyes, r', hboth, -⟩
    · exact iff_of_true hboth hno
    · rw [hboth]
      exact iff_of_false (fun h => nomatch h) hyes
  refine ⟨?_, fun hdenies => ⟨?_, (hrefused _ _).2 hdenies.contradicts⟩, ?_⟩
  · rw [hrefused, hrefused]
    exact Registration.contradicts_iff_swap
  · rcases registerBoth_cases h first second with ⟨hno, -⟩ | ⟨-, r', hboth, -⟩
    · exact absurd hno hdenies.not_contradicts
    · exact ⟨_, hboth⟩
  · intro r₁ known₁ r₂ known₂ hfirst hsecond
    rcases registerBoth_cases h first second with ⟨-, hboth⟩ | ⟨hyes, r', hboth, hget₁⟩
    · cases hboth.symm.trans hfirst
    rcases registerBoth_cases h second first with ⟨-, hboth'⟩ | ⟨hyes', r'', hboth', hget₂⟩
    · cases hboth'.symm.trans hsecond
    cases hboth.symm.trans hfirst
    cases hboth'.symm.trans hsecond
    have hcoordinates : first.coordinates = second.coordinates :=
      not_not.1 fun hne => hyes (.inl hne)
    have halike : Described.Alike ⟨file, first.coordinates, first.settled second⟩
        ⟨file, second.coordinates, second.settled first⟩ :=
      ⟨Path.same_self file, hcoordinates, Registration.settled_swap hyes hyes'⟩
    refine ⟨halike, ?_, ?_, fun other => ?_,
      fun asked => Registration.settled_sameElements hyes hyes'⟩
    · rw [hget₁, if_pos (Path.same_self file)]
    · rw [hget₂, if_pos (Path.same_self file)]
    · rw [hget₁, hget₂]
      split
      · exact .some halike
      · cases r.get? other with
        | none => exact .none
        | some known =>
          exact .some ⟨Path.same_self _, rfl, OrderedSet.sameElements_self _⟩

/-- Dependencies that are given once, before the coordinates alone or after them. -/
theorem register_in_either_order_filled :
    (Registry.empty none).get? ⟨"a.jar"⟩ = none ∧
      ∃ r₁ known₁ r₂ known₂,
        (Registry.empty none).registerBoth ⟨"a.jar"⟩ ⟨⟨"g", "a", "1", none⟩, none⟩
          ⟨⟨"g", "a", "1", none⟩, some (.ofList [⟨"x.jar"⟩])⟩ = .ok (r₁, known₁) ∧
        (Registry.empty none).registerBoth ⟨"a.jar"⟩
          ⟨⟨"g", "a", "1", none⟩, some (.ofList [⟨"x.jar"⟩])⟩ ⟨⟨"g", "a", "1", none⟩, none⟩ =
            .ok (r₂, known₂) ∧
        known₁.Alike known₂ ∧
        known₁.dependencies.sameElements (.ofList [⟨"x.jar"⟩]) = true := by
  have hunknown : (Registry.empty none).get? ⟨"a.jar"⟩ = none := rfl
  have hboth := (register_in_either_order hunknown ⟨⟨"g", "a", "1", none⟩, none⟩
    ⟨⟨"g", "a", "1", none⟩, some (.ofList [⟨"x.jar"⟩])⟩).2.2 _ _ _ _ rfl rfl
  exact ⟨hunknown, _, _, _, _, rfl, rfl, hboth.1, hboth.2.2.2.2 _ (.inr rfl)⟩

/-- That a file has no dependencies is overwritten by dependencies that are given afterwards, and
refused when it is said after them. -/
theorem exists_order_told :
    ∃ first second : Registration,
      (Registry.empty none).get? ⟨"a.jar"⟩ = none ∧
      (∃ answer, (Registry.empty none).registerBoth ⟨"a.jar"⟩ first second = .ok answer) ∧
      (Registry.empty none).registerBoth ⟨"a.jar"⟩ second first = .error (.mismatch ⟨"a.jar"⟩) :=
  ⟨⟨⟨"g", "a", "1", none⟩, some .empty⟩,
    ⟨⟨"g", "a", "1", none⟩, some (.ofList [⟨"x.jar"⟩])⟩, rfl, ⟨_, rfl⟩, rfl⟩

end Registry

end JarGraph.Artifact
