import JarGraph.Proofs.Answer
import JarGraph.Proofs.Glob.Reading
import JarGraph.Proofs.Text.Blank
import JarGraph.ProvidedClasses
/-!
# Patterns of packages

Whichever way a user asks for everything below a package, the pattern
stands for the classes whose names start with the package and a slash
(`stands_below`), and with a single star for those right in the package
(`stands_in`). A list of patterns supplies what some pattern of it matches
(`isMatch_addEach`), so that the order of the patterns does not count, and
what the virtual machine supplies by default is told package by package
(`exists_default`).
-/

namespace JarGraph.ProvidedClasses

variable {package ending pattern name s t : String} {patterns others : List String}
variable {provided : ProvidedClasses}

/-! ## Packages -/

/-- The name of a package as a pattern can hold it, with dots or with slashes between its segments:
nothing in it means something in a pattern, and no blank stands at its ends. -/
def IsPackage (package : String) : Prop :=
  package ≠ "" ∧ (∀ c ∈ package.toList, c ∉ Glob.metacharacters) ∧ Text.trimmed package = package

instance (package : String) : Decidable (IsPackage package) :=
  -- The characters are those of the name: without this instance all characters there are could be
  -- gone through.
  have : Decidable (∀ c ∈ package.toList, c ∉ Glob.metacharacters) := List.decidableBAll _ _
  inferInstanceAs (Decidable (_ ∧ _))

/-- The name of a package with slashes. -/
def slashForm (package : String) : String :=
  Text.replace '.' '/' package

/-- The name of a class in the package or in one below it. -/
def IsBelow (package name : String) : Prop :=
  (package ++ "/").toList <+: name.toList

/-- The name of a class in the package itself. -/
def IsIn (package name : String) : Prop :=
  ∃ simple, name = package ++ "/" ++ simple ∧ '/' ∉ simple.toList

/-- The endings that ask for everything below a package. -/
def endingsBelow : List String :=
  [".", "/", ".**", "/**", ".**.*", ".**/*", "/**.*", "/**/*"]

/-- The endings that ask for the classes of a package. -/
def endingsIn : List String :=
  [".*", "/*"]

theorem isBelow_iff : IsBelow package name ↔ ∃ more, name = package ++ "/" ++ more := by
  constructor
  · rintro ⟨more, hmore⟩
    refine ⟨String.ofList more, ?_⟩
    rw [← String.toList_inj, String.toList_append, String.toList_ofList, hmore]
  · rintro ⟨more, rfl⟩
    exact ⟨more.toList, (String.toList_append ..).symm⟩

/-! ## The slash form of a pattern -/

theorem replace_append (old new : Char) (s t : String) :
    Text.replace old new (s ++ t) = Text.replace old new s ++ Text.replace old new t := by
  rw [Text.replace, String.toList_append, List.map_append, String.ofList_append]
  rfl

theorem replace_eq_empty_iff {old new : Char} : Text.replace old new s = "" ↔ s = "" := by
  rw [Text.replace, ← String.toList_eq_nil_iff, String.toList_ofList, List.map_eq_nil_iff,
    String.toList_eq_nil_iff]

/-- The ending of a pattern is normalized by itself. -/
theorem normalize_append (hs : Text.trimmed s = s) (ht : Text.trimmed t = t) (hs' : s ≠ "")
    (ht' : t ≠ "") (separator : Char) :
    Glob.normalize separator (s ++ t) =
      Text.replace separator '/' s ++ Glob.normalize separator t := by
  have hne : (Text.replace separator '/' t).toList ≠ [] :=
    mt (fun h => replace_eq_empty_iff.1 (String.toList_eq_nil_iff.1 h)) ht'
  rw [Glob.normalize, Glob.normalize, Text.trimmed_append hs ht hs' ht', ht, replace_append]
  rw [String.toList_append, List.getLast?_append_of_ne_nil _ hne]
  split
  · exact String.append_assoc ..
  · rfl

theorem IsPackage.slashForm_ne (h : IsPackage package) : slashForm package ≠ "" :=
  mt replace_eq_empty_iff.1 h.1

theorem IsPackage.plain (h : IsPackage package) :
    ∀ c ∈ (slashForm package).toList, c ∉ Glob.metacharacters := by
  rw [slashForm, Text.replace, String.toList_ofList]
  intro c hc
  obtain ⟨d, hd, rfl⟩ := List.mem_map.1 hc
  split
  · decide
  · exact h.2.1 d hd

theorem normalize_endings :
    (∀ ending ∈ endingsBelow, Text.trimmed ending = ending ∧ ending ≠ "" ∧
      (Glob.normalize '.' ending = "/**" ∨ Glob.normalize '.' ending = "/**/*")) ∧
    ∀ ending ∈ endingsIn, Text.trimmed ending = ending ∧ ending ≠ "" ∧
      Glob.normalize '.' ending = "/*" := by
  decide

/-! ## One pattern -/

variable {named : String → Prop}

theorem compile_eq_ok {g : Glob}
    (h : Glob.parse false (ProvidedPattern.normalize pattern) = .ok g) :
    ProvidedPattern.compile pattern = .ok ⟨ProvidedPattern.normalize pattern, g⟩ := by
  have hcompile : Glob.compile '.' false pattern = .ok g := by
    unfold Glob.compile
    rw [ProvidedPattern.normalize] at h
    simp only [h]
  rw [ProvidedPattern.compile, hcompile]
  rfl

/-- The pattern can be read, and it matches just the classes named. -/
def Stands (pattern : String) (named : String → Prop) : Prop :=
  ∃ p, ProvidedPattern.compile pattern = .ok p ∧ ∀ name, p.glob.isMatch name = true ↔ named name

theorem Stands.exists_iff (h : Stands pattern named) (name : String) :
    (∃ p, ProvidedPattern.compile pattern = .ok p ∧ p.glob.isMatch name = true) ↔ named name := by
  obtain ⟨p, hp, hnamed⟩ := h
  simp only [hp, Except.ok.injEq, exists_eq_left', hnamed]

/-- **Everything below a package**, however it is asked for. -/
theorem stands_below (hpackage : IsPackage package) (hending : ending ∈ endingsBelow) :
    Stands (package ++ ending) (IsBelow (slashForm package)) := by
  obtain ⟨htrim, hne, hform⟩ := normalize_endings.1 ending hending
  obtain ⟨g, hparse, hmatch⟩ :=
    Glob.exists_parse_below hpackage.slashForm_ne hpackage.plain hform
  have hnormalize : ProvidedPattern.normalize (package ++ ending) =
      slashForm package ++ Glob.normalize '.' ending :=
    normalize_append hpackage.2.2 htrim hpackage.1 hne '.'
  exact ⟨_, compile_eq_ok (by rw [hnormalize, hparse]),
    fun name => (hmatch name).trans isBelow_iff.symm⟩

/-- **The classes of a package.** -/
theorem stands_in (hpackage : IsPackage package) (hending : ending ∈ endingsIn) :
    Stands (package ++ ending) (IsIn (slashForm package)) := by
  obtain ⟨htrim, hne, hform⟩ := normalize_endings.2 ending hending
  obtain ⟨g, hparse, hmatch⟩ := Glob.exists_parse_names hpackage.slashForm_ne hpackage.plain
  have hnormalize : ProvidedPattern.normalize (package ++ ending) = slashForm package ++ "/*" :=
    hform ▸ normalize_append hpackage.2.2 htrim hpackage.1 hne '.'
  exact ⟨_, compile_eq_ok (by rw [hnormalize, hparse]), hmatch⟩

/-- Adding the pattern works, and beside the classes supplied before it supplies just the classes
named. -/
def Adds (provided : ProvidedClasses) (pattern : String) (named : String → Prop) : Prop :=
  ∃ more, provided.add pattern = .ok more ∧
    ∀ name, more.isMatch name = true ↔ provided.isMatch name = true ∨ named name

theorem Stands.adds (h : Stands pattern named) (provided : ProvidedClasses) :
    Adds provided pattern named := by
  obtain ⟨p, hp, hnamed⟩ := h
  refine ⟨⟨provided.patterns ++ [p]⟩, by rw [add, hp]; rfl, fun name => ?_⟩
  rw [isMatch, List.any_append, Bool.or_eq_true, List.any_cons, List.any_nil, Bool.or_false,
    hnamed]
  rfl

/-! ## Lists of patterns -/

/-- The patterns with some more, each one added that can be read. -/
def addEach (provided : ProvidedClasses) (patterns : List String) : ProvidedClasses :=
  patterns.foldl (fun known pattern => (known.add pattern).toOption.getD known) provided

theorem patterns_addEach : (addEach provided patterns).patterns =
    provided.patterns ++ patterns.filterMap fun pattern =>
      (ProvidedPattern.compile pattern).toOption := by
  induction patterns generalizing provided with
  | nil => exact (List.append_nil _).symm
  | cons pattern patterns ih =>
    rw [addEach, List.foldl_cons, ← addEach, ih, add]
    cases hcompile : ProvidedPattern.compile pattern with
    | error cause =>
      rw [List.filterMap_cons_none (by rw [hcompile]; rfl)]
      rfl
    | ok p =>
      rw [List.filterMap_cons_some (by rw [hcompile]; rfl)]
      exact List.append_assoc _ [p] _

/-- **A list of patterns** supplies what some pattern of it matches. -/
theorem isMatch_addEach : (addEach provided patterns).isMatch name = true ↔
    provided.isMatch name = true ∨ ∃ pattern ∈ patterns, ∃ p,
      ProvidedPattern.compile pattern = .ok p ∧ p.glob.isMatch name = true := by
  rw [isMatch, patterns_addEach, List.any_append, Bool.or_eq_true, ← isMatch, List.any_eq_true]
  simp only [List.mem_filterMap, Answer.toOption_eq_some]
  grind

/-- A list of patterns is taken as a whole where each of them can be read. -/
theorem foldlM_add_eq_ok {more : ProvidedClasses} : patterns.foldlM add provided = .ok more ↔
    (∀ pattern ∈ patterns, ∃ p, ProvidedPattern.compile pattern = .ok p) ∧
      addEach provided patterns = more := by
  induction patterns generalizing provided with
  | nil => simp [addEach, pure, Except.pure]
  | cons pattern patterns ih =>
    rw [List.foldlM_cons, Answer.bind_eq_ok, List.forall_mem_cons]
    simp only [ih, add, Answer.map_eq_ok, addEach, List.foldl_cons]
    constructor
    · rintro ⟨_, ⟨p, hp, rfl⟩, hread, rfl⟩
      exact ⟨⟨⟨p, hp⟩, hread⟩, by rw [hp]; rfl⟩
    · rintro ⟨⟨⟨p, hp⟩, hread⟩, rfl⟩
      exact ⟨_, ⟨p, hp, rfl⟩, hread, by rw [hp]; rfl⟩

/-- The order of patterns does not count. -/
theorem isMatch_addEach_perm (h : patterns.Perm others) :
    (addEach provided patterns).isMatch name = (addEach provided others).isMatch name := by
  rw [Bool.eq_iff_iff, isMatch_addEach, isMatch_addEach]
  simp only [h.mem_iff]

theorem foldlM_add_perm {more : ProvidedClasses} (h : patterns.Perm others)
    (hmore : patterns.foldlM add provided = .ok more) :
    ∃ same, others.foldlM add provided = .ok same ∧
      ∀ name, same.isMatch name = more.isMatch name := by
  obtain ⟨hread, rfl⟩ := foldlM_add_eq_ok.1 hmore
  refine ⟨_, foldlM_add_eq_ok.2 ⟨fun pattern hpattern => ?_, rfl⟩, fun name => ?_⟩
  · exact hread pattern (h.mem_iff.2 hpattern)
  · exact (isMatch_addEach_perm h).symm

/-! ## The patterns of the virtual machine -/

/-- The packages that the virtual machine supplies with everything below them. -/
def machineTrees : List String :=
  ["java", "javax", "com/sun", "org/xml/sax", "org/w3c/dom"]

/-- The packages that the virtual machine supplies by themselves. -/
def machinePackages : List String :=
  ["org/ietf/jgss", "sunw/io", "sunw/util"]

theorem defaultMachinePatterns_eq : defaultMachinePatterns =
    machineTrees.map (· ++ "/**/*") ++ machinePackages.map (· ++ "/*") := by
  decide

/-- Both kinds of packages are written with slashes already. -/
theorem isPackage_machine : ∀ package ∈ machineTrees ++ machinePackages,
    IsPackage package ∧ slashForm package = package := by
  decide

/-- **The virtual machine** supplies what is below the packages of the one kind and in those of the
other. -/
theorem exists_default : ∃ provided, defaultMachinePatterns.foldlM add empty = .ok provided ∧
    ∀ name, provided.isMatch name = true ↔
      (∃ package ∈ machineTrees, IsBelow package name) ∨
        ∃ package ∈ machinePackages, IsIn package name := by
  have htrees : ∀ package ∈ machineTrees, Stands (package ++ "/**/*") (IsBelow package) := by
    intro package hmem
    obtain ⟨hpackage, hslash⟩ := isPackage_machine package (List.mem_append_left _ hmem)
    have hbelow : Stands (package ++ "/**/*") (IsBelow (slashForm package)) :=
      stands_below hpackage (by decide)
    rwa [hslash] at hbelow
  have hpackages : ∀ package ∈ machinePackages, Stands (package ++ "/*") (IsIn package) := by
    intro package hmem
    obtain ⟨hpackage, hslash⟩ := isPackage_machine package (List.mem_append_right _ hmem)
    have hin : Stands (package ++ "/*") (IsIn (slashForm package)) :=
      stands_in hpackage (by decide)
    rwa [hslash] at hin
  -- All patterns can be read, so that none is left out, and each stands for its package.
  refine ⟨_, foldlM_add_eq_ok.2 ⟨?_, rfl⟩, fun name => ?_⟩
  · rw [defaultMachinePatterns_eq]
    intro pattern hpattern
    rcases List.mem_append.1 hpattern with hpattern | hpattern
    · obtain ⟨package, hmem, rfl⟩ := List.mem_map.1 hpattern
      exact (htrees package hmem).imp fun _ h => h.1
    · obtain ⟨package, hmem, rfl⟩ := List.mem_map.1 hpattern
      exact (hpackages package hmem).imp fun _ h => h.1
  · have hempty : empty.isMatch name = false := rfl
    rw [isMatch_addEach, hempty, or_iff_right Bool.false_ne_true, defaultMachinePatterns_eq]
    simp only [List.mem_append, or_and_right, exists_or, List.mem_map, exists_exists_and_eq_and]
    refine or_congr ?_ ?_
    · exact exists_congr fun package => and_congr_right fun hmem =>
        (htrees package hmem).exists_iff name
    · exact exists_congr fun package => and_congr_right fun hmem =>
        (hpackages package hmem).exists_iff name

/-! ## What is supplied -/

/-- **What patterns of packages supply**: everything below a package, or the classes in it, beside
what was supplied before; by default what belongs to the packages of the virtual machine; and in any
order the same. -/
theorem supplies_packages :
    (∀ provided package ending, IsPackage package → ending ∈ endingsBelow →
      Adds provided (package ++ ending) (IsBelow (slashForm package))) ∧
    (∀ provided package ending, IsPackage package → ending ∈ endingsIn →
      Adds provided (package ++ ending) (IsIn (slashForm package))) ∧
    (∃ provided, defaultMachinePatterns.foldlM add empty = .ok provided ∧
      ∀ name, provided.isMatch name = true ↔
        (∃ package ∈ machineTrees, IsBelow package name) ∨
          ∃ package ∈ machinePackages, IsIn package name) ∧
    ∀ provided patterns others, patterns.Perm others →
      (∀ name, (addEach provided patterns).isMatch name =
        (addEach provided others).isMatch name) ∧
      ∀ more, patterns.foldlM add provided = .ok more →
        ∃ same, others.foldlM add provided = .ok same ∧
          ∀ name, same.isMatch name = more.isMatch name := by
  refine ⟨fun provided _ _ hpackage hending => (stands_below hpackage hending).adds provided,
    fun provided _ _ hpackage hending => (stands_in hpackage hending).adds provided,
    exists_default, fun provided patterns others hperm => ⟨fun name => ?_, fun more hmore => ?_⟩⟩
  · exact isMatch_addEach_perm hperm
  · exact foldlM_add_perm hperm hmore

/-- Written with dots, everything below a package is the same as with slashes. -/
theorem supplies_packages_dotted :
    Adds .empty ("org.apache" ++ ".") (IsBelow "org/apache") ∧
      Adds .empty ("org.apache" ++ ".*") (IsIn "org/apache") ∧
      IsBelow "org/apache" "org/apache/log4j/Logger" ∧
      ¬ IsIn "org/apache" "org/apache/log4j/Logger" := by
  have hslash : slashForm "org.apache" = "org/apache" := by decide
  refine ⟨hslash ▸ supplies_packages.1 _ _ _ (by decide) (by decide),
    hslash ▸ supplies_packages.2.1 _ _ _ (by decide) (by decide), ?_, ?_⟩
  · exact isBelow_iff.2 ⟨"log4j/Logger", by decide⟩
  · rintro ⟨simple, hname, hsimple⟩
    obtain rfl : "log4j/Logger" = simple := by
      rwa [show "org/apache/log4j/Logger" = "org/apache" ++ "/" ++ "log4j/Logger" by decide,
        String.append_right_inj] at hname
    exact hsimple (by decide)

end JarGraph.ProvidedClasses
