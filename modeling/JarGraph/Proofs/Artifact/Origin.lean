import JarGraph.Proofs.Artifact.Requests
import Mathlib.Data.List.Induction
/-!
# Where recorded coordinates come from

The coordinates that a registry has recorded of a file were given to it in
one of the requests, by the registry as it was when the request was made
and in the tree of this request (`exists_given`), unless the caller has
registered the file. A set of artifacts describes many files in a row, and
the registry changes from one to the next; but what it gives depends on its
repository and its hints alone, which no description changes.
-/

namespace JarGraph.Artifact.Registry

variable {fs tree : FileSystem} {file other source target : Path} {c : Coordinates}
variable {r r' r₁ : Registry} {known later : Described} {requests : List Request}

/-! ## What one request records -/

/-- Coordinates depend on the repository and the hints of a registry alone. -/
theorem coordinatesOf_congr (h : OnlyRecords r r') (fs : FileSystem) (file : Path) :
    r'.coordinatesOf fs file = r.coordinatesOf fs file := by
  unfold coordinatesOf hintFor hint?
  rw [h.hints, h.repository]

/-- What a registry has recorded of a file later on: what was recorded before, or coordinates that
it gave to the file in a tree. -/
def Gives (r : Registry) (tree : FileSystem) (file : Path) (r' : Registry) : Prop :=
  ∀ later, r'.get? file = some later →
    (∃ known, r.get? file = some known ∧ later.coordinates = known.coordinates) ∨
      ∃ other, file.same other = true ∧ r.coordinatesOf tree other = .ok later.coordinates

theorem gives_self (r : Registry) (tree : FileSystem) (file : Path) : r.Gives tree file r :=
  fun known hknown => .inl ⟨known, hknown, rfl⟩

/-- A file without a record is recorded with the coordinates that it has at this time. -/
theorem gives_describe (honly : OnlyRecords r r₁) (h : r.Gives tree file r₁)
    (hdescribe : r₁.describe tree other = .ok (r', known)) : r.Gives tree file r' := by
  rcases describe_cases hdescribe with ⟨rfl, -⟩ | ⟨hnone, -, -, -, rfl⟩
  · exact h
  · intro later hlater
    rw [get?_put] at hlater
    split at hlater
    · rename_i hsame
      obtain rfl := Option.some.inj hlater
      have hgiven := coordinatesOf_of_describe hnone hdescribe
      exact .inr ⟨other, hsame, (coordinatesOf_congr honly tree other).symm.trans hgiven⟩
    · exact h later hlater

theorem gives_addDependency (h : r.Gives tree file r₁) (source target : Path) :
    r.Gives tree file (addDependency r₁ source target) := by
  intro later hlater
  rw [get?_addDependency] at hlater
  split at hlater
  · rename_i hsame
    obtain ⟨known, hknown, rfl⟩ := Option.map_eq_some_iff.1 hlater
    exact h known (get?_congr r₁ hsame ▸ hknown)
  · exact h later hlater

theorem gives_artifactSet (r : Registry) (fs : FileSystem) (file : Path)
    (edges : DependencySet Path) (roots : List Path) :
    r.Gives fs file (r.artifactSet fs edges roots).1 := by
  refine (of_artifactSet (p := fun r₁ => OnlyRecords r r₁ ∧ r.Gives fs file r₁) ?_ ?_
    ⟨.refl r, gives_self r fs file⟩ edges roots).2
  · rintro r₁ other r' known ⟨honly, hgives⟩ hdescribe
    exact ⟨honly.trans (onlyRecords_describe hdescribe), gives_describe honly hgives hdescribe⟩
  · rintro r₁ source target ⟨honly, hgives⟩
    exact ⟨honly.trans (onlyRecords_addDependency _ _ _), gives_addDependency hgives _ _⟩

/-- A registration of another file does not touch the record of the file. -/
theorem get?_of_register {dependencies : Option (OrderedSet Path)} (h : file.same other = false)
    (hregister : r.register other c dependencies = .ok (r', known)) :
    r'.get? file = r.get? file := by
  obtain ⟨rfl, -⟩ := of_register hregister
  rw [get?_put, h]
  rfl

/-- A request that does not register the file leaves what is recorded of it, or gives it
coordinates. -/
theorem given_of_perform {request : Request} (hrequest : ¬ request.Registers file)
    (h : (request.perform r).1.get? file = some later) :
    (∃ known, r.get? file = some known ∧ later.coordinates = known.coordinates) ∨
      ∃ tree other, request.tree? = some tree ∧ file.same other = true ∧
        r.coordinatesOf tree other = .ok later.coordinates := by
  cases request with
  | addHint hint =>
    refine .inl ⟨later, ?_, rfl⟩
    rw [Request.perform] at h
    split at h
    · rename_i hadd
      obtain ⟨-, rfl⟩ := addHint_eq_ok.1 hadd
      exact h
    · exact h
  | describe fs other =>
    rw [Request.perform] at h
    split at h
    · rename_i hdescribe
      rcases gives_describe (.refl r) (gives_self r fs file) hdescribe later h with
        hbefore | ⟨other, hsame, hgiven⟩
      · exact .inl hbefore
      · exact .inr ⟨fs, other, rfl, hsame, hgiven⟩
    · exact .inl ⟨later, h, rfl⟩
  | register other c dependencies =>
    refine .inl ⟨later, ?_, rfl⟩
    rw [Request.perform] at h
    split at h
    · rename_i hregister
      rwa [get?_of_register (Bool.eq_false_iff.2 hrequest) hregister] at h
    · exact h
  | artifactSet fs edges roots =>
    rcases gives_artifactSet r fs file edges roots later h with hbefore | ⟨other, hsame, hgiven⟩
    · exact .inl hbefore
    · exact .inr ⟨fs, other, rfl, hsame, hgiven⟩

/-! ## What requests in a row record -/

theorem performAll_concat (r : Registry) (requests : List Request) (request : Request) :
    r.performAll (requests ++ [request]) = (request.perform (r.performAll requests)).1 := by
  rw [performAll, List.foldl_append]
  rfl

theorem repository_perform (r : Registry) (request : Request) :
    (request.perform r).1.repository = r.repository := by
  rcases perform_cases r request with ⟨hint, -, hadd⟩ | honly
  · exact (congrArg repository (addHint_eq_ok.1 hadd).2).symm
  · exact honly.repository

theorem repository_performAll (r : Registry) (requests : List Request) :
    (r.performAll requests).repository = r.repository :=
  of_performAll (p := fun between => between.repository = r.repository)
    (fun between request h => (repository_perform between request).trans h) rfl requests

/-- **What is recorded of a file was given in one of the requests**, by the registry as it was then,
in the tree of this request, and to a file of the same path. -/
theorem exists_given (hfresh : r.get? file = none)
    (hrequests : ∀ request ∈ requests, ¬ request.Registers file)
    (h : (r.performAll requests).get? file = some known) :
    ∃ before request tree other, before ++ [request] <+: requests ∧ request.tree? = some tree ∧
      file.same other = true ∧
      (r.performAll before).coordinatesOf tree other = .ok known.coordinates := by
  induction requests using List.reverseRecOn generalizing known with
  | nil => cases hfresh.symm.trans h
  | append_singleton requests request ih =>
    obtain ⟨hbefore, hlast⟩ := List.forall_mem_append.1 hrequests
    rw [performAll_concat] at h
    rcases given_of_perform (hlast request (List.mem_singleton_self request)) h with
      ⟨earlier, hearlier, hsame⟩ | ⟨tree, other, htree, hother, hgiven⟩
    · -- The record is older than the last request.
      obtain ⟨before, request', tree, other, hprefix, hgiven⟩ := ih hbefore hearlier
      rw [hsame]
      exact ⟨before, request', tree, other, hprefix.trans (List.prefix_append _ _), hgiven⟩
    · exact ⟨requests, request, tree, other, List.prefix_rfl, htree, hother, hgiven⟩

end JarGraph.Artifact.Registry
