import JarGraph.Proofs.FileSystem.Finding
import JarGraph.Proofs.Path.Below
import JarGraph.Proofs.PathFilter
import Mathlib.Data.List.Basic
/-!
# What a scan lists

A scan lists the files that its filter accepts, and the directories that
it could not read. Both lists go in the strict order of paths, and both
are told by rows of names alone: a row must go through no bookkeeping and
through directories that can be read, and the filter is asked about the
names of the row with slashes between them. Where every directory can be
read there are no errors, and each file counts.
-/

namespace JarGraph

namespace Path

variable {base : Path} {more : List String}

/-- The path of what lies below a directory, as it is told from there. -/
theorem relativeSlash_below (hbase : base.text.toList ≠ [])
    (hmore : ∀ name ∈ more, IsEntryName name) :
    (base.below more).relativeSlash base = String.intercalate "/" more := by
  have hcomponents := components_below hbase hmore
  obtain ⟨q, hq⟩ := exists_stripBase?.2 (startsWith_iff.2 ⟨_, hcomponents.symm⟩)
  have hrest : q.components = more.map .name := by
    have hstrip := components_of_stripBase? hq
    rw [hcomponents] at hstrip
    exact (List.append_cancel_left hstrip).symm
  rw [relativeSlash, relativeTo, hq, Option.getD_some, hrest, List.map_map, ← String.toList_inj,
    String.toList_ofList, String.toList_intercalate, Text.join_eq_intercalate]
  rfl

/-- A row of names ends in a file name. -/
theorem isNameless_intercalate (hne : more ≠ []) (hmore : ∀ name ∈ more, IsEntryName name) :
    Glob.isNameless (String.intercalate "/" more) = false := by
  obtain ⟨front, last, rfl⟩ := (List.eq_nil_or_concat more).resolve_left hne
  rw [List.concat_eq_append] at hmore ⊢
  obtain ⟨-, -, hup, hslash⟩ := hmore last (List.mem_append_right _ (List.mem_singleton_self last))
  -- Read backwards, the text is the last name, and then a slash or nothing.
  obtain ⟨rest, hrest, hstops⟩ : ∃ rest : List Char,
      (String.intercalate "/" (front ++ [last])).toList.reverse = last.toList.reverse ++ rest ∧
        rest.takeWhile (· != '/') = [] := by
    rw [String.toList_intercalate, List.map_append, List.map_singleton]
    refine (?_ : ∃ rest, (['/'].intercalate _).reverse = _ ∧ _)
    rw [← Text.join_eq_intercalate]
    by_cases hfront : front.map String.toList = []
    · rw [hfront]
      exact ⟨[], (List.append_nil _).symm, rfl⟩
    · rw [Text.join_concat hfront, List.reverse_append, List.reverse_cons, List.append_assoc]
      exact ⟨_, rfl, rfl⟩
  have htake : ∀ c ∈ last.toList.reverse, (c != '/') = true := by
    intro c hc
    rw [bne_iff_ne]
    rintro rfl
    exact hslash (List.mem_reverse.1 hc)
  rw [Glob.isNameless, hrest, List.takeWhile_append_of_pos htake, hstops, List.append_nil,
    beq_eq_false_iff_ne]
  intro hdots
  refine hup (String.toList_inj.1 ?_)
  rw [← List.reverse_reverse last.toList, hdots]
  rfl

end Path

/-! ## Rows that are open -/

/-- The directories that a row of names goes through can be read. -/
def IsReadable (directory : Path) (names : List String) : Prop :=
  ∀ above next, names = above ++ next → above ≠ [] → next ≠ [] →
    FileSystem.isLongPath (directory.below above) = false

variable {directory : Path} {name : String} {names : List String}

/-- There is no directory on the way to an entry. -/
theorem isReadable_singleton : IsReadable directory [name] := by
  intro above next hcut habove hnext
  have hlength := congrArg List.length hcut
  rw [List.length_append, List.length_singleton] at hlength
  have := List.length_pos_iff.2 habove
  have := List.length_pos_iff.2 hnext
  omega

theorem isReadable_cons (hnames : names ≠ []) :
    IsReadable directory (name :: names) ↔
      FileSystem.isLongPath (directory.child name) = false ∧
        IsReadable (directory.child name) names := by
  constructor
  · intro h
    refine ⟨h [name] names rfl (List.cons_ne_nil _ _) hnames, ?_⟩
    rintro above next rfl - hnext
    exact h (name :: above) next rfl (List.cons_ne_nil _ _) hnext
  · rintro ⟨hshort, h⟩ above next hcut habove hnext
    obtain ⟨first, above, rfl⟩ := List.exists_cons_of_ne_nil habove
    obtain ⟨rfl, rfl⟩ := List.cons.inj hcut
    by_cases hmore : above = []
    · rw [hmore]
      exact hshort
    · exact h above next rfl hmore hnext

/-- A row of names is open if none of them is skipped and the directories on it can be read. -/
theorem isOpen_iff {skipped : String → Bool} :
    IsOpen skipped directory names ↔
      names ≠ [] ∧ (∀ name ∈ names, skipped name = false) ∧ IsReadable directory names := by
  induction names generalizing directory with
  | nil => exact iff_of_false id fun h => h.1 rfl
  | cons name names ih =>
    by_cases hnames : names = []
    · subst hnames
      simp [IsOpen, isReadable_singleton]
    · have hopen : IsOpen skipped directory (name :: names) ↔ skipped name = false ∧
          FileSystem.isLongPath (directory.child name) = false ∧
            IsOpen skipped (directory.child name) names := by
        obtain ⟨next, names, rfl⟩ := List.exists_cons_of_ne_nil hnames
        exact .rfl
      rw [hopen, ih, isReadable_cons hnames, List.forall_mem_cons]
      simp only [ne_eq, hnames, List.cons_ne_nil, not_false_eq_true, true_and]
      tauto

namespace FileSystem

variable {fs : FileSystem} {base p : Path} {filter : PathFilter} {names : List String}
variable {includes excludes : List String}

/-! ## The lists of a scan -/

theorem mem_files_scan :
    p ∈ (fs.scan base filter).files ↔
      fs.Finds base p ∧ filter.accepts (p.relativeSlash base) = true := by
  rw [scan, List.mem_filter, List.mem_filterMap, Finds]
  refine and_congr_left fun _ => ?_
  constructor
  · rintro ⟨found, hfound, hpath⟩
    cases found with
    | error cause => cases hpath
    | ok f => exact ⟨f, hfound, Option.some.inj hpath⟩
  · rintro ⟨f, hf, rfl⟩
    exact ⟨_, hf, rfl⟩

theorem mem_errors_scan {e : ScanError} :
    e ∈ (fs.scan base filter).errors ↔
      .error e ∈ fs.findings base bookkeepingNames.contains := by
  rw [scan, List.mem_filterMap]
  constructor
  · rintro ⟨found, hfound, he⟩
    cases found with
    | ok f => cases he
    | error cause =>
      obtain rfl := Option.some.inj he
      exact hfound
  · exact fun he => ⟨_, he, rfl⟩

/-- What is taken from a scan with its path is in the order of paths. -/
theorem ascending_filterMap {α : Type} (hfs : fs.root.WellFormed) (take : Finding → Option α)
    (path : α → Path) (htake : ∀ found a, take found = some a → path a = found.path) :
    ((fs.findings base bookkeepingNames.contains).filterMap take).Pairwise
      fun a b => compare (path a) (path b) = .lt := by
  refine (ascending_findings hfs base bookkeepingNames.contains).filterMap take ?_
  intro first second hascends a ha b hb
  rw [htake first a ha, htake second b hb]
  exact hascends

theorem ascending_files_scan (hfs : fs.root.WellFormed) :
    (fs.scan base filter).files.Pairwise (compare · · = .lt) := by
  refine List.Pairwise.filter _ (ascending_filterMap hfs _ id fun found p hp => ?_)
  cases found with
  | error cause => cases hp
  | ok f => exact (Option.some.inj hp).symm

theorem ascending_errors_scan (hfs : fs.root.WellFormed) :
    (fs.scan base filter).errors.Pairwise (compare ·.path ·.path = .lt) := by
  refine ascending_filterMap hfs _ ScanError.path fun found e he => ?_
  cases found with
  | ok f => cases he
  | error cause => exact congrArg ScanError.path (Option.some.inj he).symm

/-! ## What is listed -/

/-- None of some names is that of a bookkeeping. -/
def IsKept (names : List String) : Prop :=
  ∀ name ∈ names, name ∉ bookkeepingNames

theorem isOpen_bookkeeping_iff {more : List String} :
    IsOpen bookkeepingNames.contains base more ↔
      more ≠ [] ∧ IsKept more ∧ IsReadable base more := by
  rw [isOpen_iff]
  simp only [IsKept, List.contains_eq_mem, decide_eq_false_iff_not]

/-- A row of names leads from a directory to a file, past no bookkeeping, and the patterns take
it. -/
def IsWanted (fs : FileSystem) (includes excludes names more : List String) : Prop :=
  (∃ content modified, fs.see (names ++ more) = some (.file content modified)) ∧ IsKept more ∧
    PathFilter.Takes includes excludes (String.intercalate "/" more)

section

variable (hfs : fs.root.WellFormed) (hstart : base.same standardInput = false)
variable (hroute : fs.route base = .ok names) (hsee : fs.see names = some .folder)

include hfs hstart hroute hsee

/-- **The files of a scan** are those that are wanted below directories that can be read. -/
theorem mem_files_iff (hfilter : PathFilter.ofPatterns includes excludes = .ok filter) :
    p ∈ (fs.scan base filter).files ↔
      ∃ more, fs.IsWanted includes excludes names more ∧ IsReadable base more ∧
        p = base.below more := by
  have haccepts : ∀ more content modified,
      fs.see (names ++ more) = some (.file content modified) → more ≠ [] →
      (filter.accepts ((base.below more).relativeSlash base) = true ↔
        PathFilter.Takes includes excludes (String.intercalate "/" more)) := by
    intro more content modified hfile hne
    have hmore : ∀ name ∈ more, IsEntryName name := fun name hname =>
      isEntryName_of_see hfs hfile name (List.mem_append_right _ hname)
    rw [Path.relativeSlash_below (ne_nil_of_route hroute) hmore]
    exact PathFilter.accepts_iff hfilter (Path.isNameless_intercalate hne hmore)
  rw [mem_files_scan, finds_iff hfs hstart hroute hsee]
  constructor
  · rintro ⟨⟨more, content, modified, hopen, hfile, rfl⟩, htaken⟩
    obtain ⟨hne, hkept, hreadable⟩ := isOpen_bookkeeping_iff.1 hopen
    exact ⟨more, ⟨⟨content, modified, hfile⟩, hkept,
      (haccepts more content modified hfile hne).1 htaken⟩, hreadable, rfl⟩
  · rintro ⟨more, ⟨⟨content, modified, hfile⟩, hkept, htaken⟩, hreadable, rfl⟩
    -- The base is no file itself, so that the row is not empty.
    have hne : more ≠ [] := by
      rintro rfl
      rw [List.append_nil, hsee] at hfile
      cases hfile
    exact ⟨⟨more, content, modified, isOpen_bookkeeping_iff.2 ⟨hne, hkept, hreadable⟩, hfile, rfl⟩,
      (haccepts more content modified hfile hne).2 htaken⟩

/-- **The errors of a scan** are the directories that it comes to and cannot read. -/
theorem mem_errors_iff {e : ScanError} :
    e ∈ (fs.scan base filter).errors ↔
      ∃ more, fs.see (names ++ more) = some .folder ∧ IsKept more ∧ IsReadable base more ∧
        isLongPath (base.below more) = true ∧ e = ⟨base.below more, .os .nameTooLong⟩ := by
  rw [mem_errors_scan, mem_findings_of_folder hfs hstart hroute hsee]
  constructor
  · rintro ⟨more, sight, hopen, hmore, hfound⟩
    cases sight with
    | file content modified => cases hfound
    | folder =>
      rw [Sight.finding?] at hfound
      split at hfound
      · rename_i hlong
        obtain ⟨-, hkept, hreadable⟩ := isOpen_bookkeeping_iff.1 hopen
        exact ⟨more, hmore, hkept, hreadable, hlong,
          (Except.error.inj (Option.some.inj hfound)).symm⟩
      · cases hfound
  · rintro ⟨more, hmore, hkept, hreadable, hlong, rfl⟩
    have hne : more ≠ [] := by
      rintro rfl
      have hshort := (route_eq_ok.1 hroute).1.short
      exact absurd (hshort.symm.trans hlong) Bool.false_ne_true
    exact ⟨more, .folder, isOpen_bookkeeping_iff.2 ⟨hne, hkept, hreadable⟩, hmore, if_pos hlong⟩

omit hfs hstart hroute hsee

theorem isReadable_of_short {more : List String} {sight : Sight}
    (hshort : ∀ above, fs.see (names ++ above) = some .folder →
      isLongPath (base.below above) = false)
    (hmore : fs.see (names ++ more) = some sight) : IsReadable base more := by
  rintro above next rfl - hnext
  refine hshort above (see_prefix_folder (names ++ above) hnext ?_)
  rw [List.append_assoc, hmore]
  rfl

end

/-- **A scan lists** the files that are wanted, each once and in the order of paths, but for those
behind directories whose paths are too long; the first such directory on every row is an error, and
where there is none, all files that are wanted are listed. -/
theorem scan_lists (hfs : fs.root.WellFormed) (hstart : base.same standardInput = false)
    (hroute : fs.route base = .ok names) (hsee : fs.see names = some .folder)
    (hfilter : PathFilter.ofPatterns includes excludes = .ok filter) :
    ((fs.scan base filter).files.Pairwise (compare · · = .lt) ∧
      ∀ p, p ∈ (fs.scan base filter).files ↔
        ∃ more, fs.IsWanted includes excludes names more ∧ IsReadable base more ∧
          p = base.below more) ∧
    ((fs.scan base filter).errors.Pairwise (compare ·.path ·.path = .lt) ∧
      ∀ e, e ∈ (fs.scan base filter).errors ↔
        ∃ more, fs.see (names ++ more) = some .folder ∧ IsKept more ∧ IsReadable base more ∧
          isLongPath (base.below more) = true ∧ e = ⟨base.below more, .os .nameTooLong⟩) ∧
    ((∀ more, fs.see (names ++ more) = some .folder → isLongPath (base.below more) = false) →
      (fs.scan base filter).errors = [] ∧
        ∀ p, p ∈ (fs.scan base filter).files ↔
          ∃ more, fs.IsWanted includes excludes names more ∧ p = base.below more) := by
  refine ⟨⟨ascending_files_scan hfs, fun p => mem_files_iff hfs hstart hroute hsee hfilter⟩,
    ⟨ascending_errors_scan hfs, fun e => mem_errors_iff hfs hstart hroute hsee⟩,
    fun hshort => ⟨List.eq_nil_iff_forall_not_mem.2 fun e he => ?_, fun p => ?_⟩⟩
  · obtain ⟨more, hfolder, -, -, hlong, -⟩ := (mem_errors_iff hfs hstart hroute hsee).1 he
    exact absurd ((hshort more hfolder).symm.trans hlong) Bool.false_ne_true
  · rw [mem_files_iff hfs hstart hroute hsee hfilter]
    refine exists_congr fun more => and_congr_right fun hwanted => ?_
    obtain ⟨content, modified, hfile⟩ := hwanted.1
    exact and_iff_right (isReadable_of_short hshort hfile)

/-- A tree in which bookkeeping, a directory and a file stand side by side, beside a directory that
is named like the standard input. -/
def sideBySide : FileSystem where
  root := .folder (.folder "-" (.file "x" [] 0 .nil) 0 (.folder "b" (.folder ".svn"
    (.file "x" [] 0 .nil) 0 (.folder "d" (.file "x" [] 0 .nil) 0 (.file "d-x" [] 0 .nil))) 0 .nil))
    0
  workingNames := []
  home := ⟨"/home"⟩
  clock := 1

/-- The filter without patterns. -/
def everything : PathFilter := ⟨none, []⟩

/-- What comes below `d` is listed before `d-x`, and bookkeeping is not. -/
theorem scan_lists_inner :
    sideBySide.scan ⟨"b"⟩ everything = ⟨[⟨"b/d/x"⟩, ⟨"b/d-x"⟩], []⟩ ∧
      (sideBySide.scan ⟨"b"⟩ everything).files.Pairwise (compare · · = .lt) ∧
      ⟨"b/d/x"⟩ ∈ (sideBySide.scan ⟨"b"⟩ everything).files := by
  have hfs : sideBySide.root.WellFormed := by decide
  have hstart : Path.same ⟨"b"⟩ standardInput = false := rfl
  have hroute : sideBySide.route ⟨"b"⟩ = .ok ["b"] := rfl
  have hsee : sideBySide.see ["b"] = some .folder := rfl
  have hfilter : PathFilter.ofPatterns [] [] = .ok everything := rfl
  obtain ⟨⟨hascends, hmem⟩, -⟩ := scan_lists hfs hstart hroute hsee hfilter
  refine ⟨by decide, hascends,
    (hmem _).2 ⟨["d", "x"], ⟨⟨[], 0, rfl⟩, ?_, .inl rfl, ?_⟩, ?_, rfl⟩⟩
  · show ∀ name ∈ ["d", "x"], name ∉ bookkeepingNames
    decide
  · rintro ⟨pattern, hpattern, -⟩
    cases hpattern
  · exact (isReadable_cons (List.cons_ne_nil _ _)).2 ⟨rfl, isReadable_singleton⟩

/-! ## Where a scan does not list -/

/-- A directory with slashes behind its name. -/
def padded (count : Nat) : Path :=
  ⟨"b" ++ String.ofList (List.replicate count '/')⟩

theorem toList_padded (count : Nat) :
    (padded count).text.toList = 'b' :: List.replicate count '/' := by
  rw [padded, String.toList_append, String.toList_ofList, String.toList_ofList]
  rfl

theorem utf8ByteSize_padded (count : Nat) : (padded count).text.utf8ByteSize = count + 1 := by
  have hslashes : (String.ofList (List.replicate count '/')).utf8ByteSize = count := by
    induction count with
    | zero => rfl
    | succ count ih =>
      have hcut : String.ofList (List.replicate (count + 1) '/') =
          "/" ++ String.ofList (List.replicate count '/') := by
        rw [← String.toList_inj, String.toList_append, String.toList_ofList, String.toList_ofList,
          String.toList_ofList]
        rfl
      have hone : "/".utf8ByteSize = 1 := rfl
      rw [hcut, String.utf8ByteSize_append, hone, ih, Nat.add_comm]
  have hone : "b".utf8ByteSize = 1 := rfl
  rw [padded, String.utf8ByteSize_append, hone, hslashes, Nat.add_comm]

/-- Slashes at the end are no components. -/
theorem components_padded (count : Nat) : (padded count).components = [.name "b"] := by
  have hpieces : (padded count).pieces = ['b'] :: List.replicate count [] := by
    rw [Path.pieces, toList_padded]
    cases count with
    | zero => rfl
    | succ count =>
      refine (Text.pieces_append '/' ['b'] (List.replicate count '/')).trans ?_
      have hslashes : Text.pieces '/' (List.replicate count '/') =
          List.replicate (count + 1) [] := by
        induction count with
        | zero => rfl
        | succ count ih =>
          refine (Text.pieces_append '/' [] (List.replicate count '/')).trans ?_
          rw [ih]
          rfl
      rw [hslashes]
      rfl
  have hname : Path.component? ['b'] = some (.name "b") := rfl
  rw [Path.components, Path.lead, hpieces, List.filterMap_cons_some hname,
    List.filterMap_replicate_of_none rfl]
  rfl

theorem route_padded {count : Nat} (hcount : count < 4095) :
    sideBySide.route (padded count) = .ok ["b"] := by
  refine route_eq_ok.2 ⟨⟨?_, ?_, ?_⟩, rfl, ?_, rfl⟩
  · rw [isLongPath, utf8ByteSize_padded, decide_eq_false_iff_not]
    omega
  · rw [holdsZero, toList_padded, List.any_cons, List.any_replicate]
    split <;> rfl
  · rw [← Bool.not_eq_true, String.isEmpty_iff, ← String.toList_eq_nil_iff, toList_padded]
    exact List.cons_ne_nil _ _
  · rw [components_padded]
    exact trace_eq_ok.1 rfl

theorem isLongPath_child_padded {count : Nat} (hcount : 4094 ≤ count) :
    isLongPath ((padded count).child "d") = true := by
  obtain ⟨before, hbefore⟩ : ∃ before, (padded count).text.toList = before ++ ['/'] := by
    obtain ⟨more, rfl⟩ := Nat.exists_eq_add_of_le' (Nat.le_trans (by decide : 1 ≤ 4094) hcount)
    exact ⟨'b' :: List.replicate more '/', by rw [toList_padded, List.replicate_succ']; rfl⟩
  have hchild : (padded count).child "d" = ⟨(padded count).text ++ "d"⟩ := by
    show Path.append (padded count) ⟨"d"⟩ = _
    rw [Path.append, if_neg (by decide), hbefore, List.getLast?_concat]
    rfl
  have hone : "d".utf8ByteSize = 1 := rfl
  rw [hchild, isLongPath, String.utf8ByteSize_append, utf8ByteSize_padded, hone,
    decide_eq_true_iff]
  omega

/-- A scan of the directory, written so long that the one in it cannot be read. -/
theorem scan_padded {count : Nat} (hlow : 4094 ≤ count) (hhigh : count < 4095) :
    sideBySide.scan (padded count) everything =
      ⟨[(padded count).child "d-x"], [⟨(padded count).child "d", .os .nameTooLong⟩]⟩ := by
  have hlong : isLongPath ((padded count).child "d") = true :=
    isLongPath_child_padded hlow
  have hstart : (padded count).same standardInput = false := by
    rw [Path.same, components_padded]
    rfl
  obtain ⟨inside, hinside, hat⟩ : ∃ inside, inside = Listing.folder ".svn" (.file "x" [] 0 .nil) 0
      (.folder "d" (.file "x" [] 0 .nil) 0 (.file "d-x" [] 0 .nil)) ∧
      sideBySide.root.at? ["b"] = some (.folder inside 0) := ⟨_, rfl, rfl⟩
  have hnode : sideBySide.node (padded count) =
      .ok (⟨["b"], some (.folder inside 0)⟩, .folder inside 0) :=
    node_eq_ok.2 ⟨route_padded hhigh, hat, rfl⟩
  have hsvn : bookkeepingNames.contains ".svn" = true := by decide
  have hd : bookkeepingNames.contains "d" = false := by decide
  have hdx : bookkeepingNames.contains "d-x" = false := by decide
  rw [scan, findings, hstart, if_neg Bool.false_ne_true, hnode]
  simp only [hinside, Listing.findings, hsvn, hd, hdx, hlong, if_true, Bool.false_eq_true, if_false]
  rfl

/-- **Behind a path that is too long** a file is not listed, and an error is; and below the path
that stands for the standard input nothing is. -/
theorem scan_misses :
    (sideBySide.route (padded 4094) = .ok ["b"] ∧
      sideBySide.IsWanted [] [] ["b"] ["d", "x"] ∧
      sideBySide.scan (padded 4094) everything =
        ⟨[(padded 4094).child "d-x"], [⟨(padded 4094).child "d", .os .nameTooLong⟩]⟩) ∧
    sideBySide.route standardInput = .ok ["-"] ∧ sideBySide.IsWanted [] [] ["-"] ["x"] ∧
      sideBySide.scan standardInput everything = ⟨[], []⟩ := by
  have htakes : ∀ path, PathFilter.Takes [] [] path :=
    fun path => ⟨.inl rfl, fun ⟨pattern, hpattern, _⟩ => nomatch hpattern⟩
  refine ⟨⟨route_padded (by decide), ⟨⟨[], 0, rfl⟩, ?_, htakes _⟩,
    scan_padded (by decide) (by decide)⟩, rfl,
    ⟨⟨[], 0, rfl⟩, ?_, htakes _⟩, rfl⟩
  · show ∀ name ∈ ["d", "x"], name ∉ bookkeepingNames
    decide
  · show ∀ name ∈ ["x"], name ∉ bookkeepingNames
    decide

end FileSystem

end JarGraph
