import JarGraph.Glob.Meaning
/-!
# Matching patterns

A pattern matches a name exactly if its tokens take the whole name
(`matchesBytes_iff`). Matching keeps a mark for every rest of the name;
`Tells` says of which rests the marks tell something. Each token turns
marks that tell of what follows it into marks that tell of itself
followed by that (`tells_marks`), so that the first mark in the end tells
of the whole row.
-/

namespace JarGraph.GlobToken

variable {P Q first second rest : Bytes → Prop} {name fixed : Bytes} {marks others : Marks}

/-! ## Parts one after the other -/

theorem followed_congr {first' rest' : Bytes → Prop} (hfirst : ∀ taken, first taken ↔ first' taken)
    (hrest : ∀ left, rest left ↔ rest' left) :
    Followed first rest name ↔ Followed first' rest' name := by
  simp only [Followed, hfirst, hrest]

theorem followed_nil : Followed (· = []) rest name ↔ rest name := by
  constructor
  · rintro ⟨taken, left, rfl, rfl, hrest⟩
    exact hrest
  · intro hrest
    exact ⟨[], name, rfl, rfl, hrest⟩

theorem followed_assoc :
    Followed first (Followed second rest) name ↔ Followed (Followed first second) rest name := by
  constructor
  · rintro ⟨taken, _, rfl, hfirst, more, left, rfl, hsecond, hrest⟩
    exact ⟨taken ++ more, left, (List.append_assoc ..).symm, ⟨taken, more, rfl, hfirst, hsecond⟩,
      hrest⟩
  · rintro ⟨_, left, rfl, ⟨taken, more, rfl, hfirst, hsecond⟩, hrest⟩
    exact ⟨taken, more ++ left, List.append_assoc .., hfirst, more, left, rfl, hsecond, hrest⟩

theorem followed_or :
    Followed (fun taken => first taken ∨ second taken) rest name ↔
      Followed first rest name ∨ Followed second rest name := by
  constructor
  · rintro ⟨taken, left, hname, hfirst | hsecond, hrest⟩
    · exact .inl ⟨taken, left, hname, hfirst, hrest⟩
    · exact .inr ⟨taken, left, hname, hsecond, hrest⟩
  · rintro (⟨taken, left, hname, hfirst, hrest⟩ | ⟨taken, left, hname, hsecond, hrest⟩)
    · exact ⟨taken, left, hname, .inl hfirst, hrest⟩
    · exact ⟨taken, left, hname, .inr hsecond, hrest⟩

/-- One byte of a kind, and then some bytes. -/
theorem followed_byte {fits : UInt8 → Prop} :
    Followed (fun taken => ∃ b, fits b ∧ taken = [b]) rest name ↔
      ∃ b left, name = b :: left ∧ fits b ∧ rest left := by
  constructor
  · rintro ⟨_, left, rfl, ⟨b, hb, rfl⟩, hrest⟩
    exact ⟨b, left, rfl, hb, hrest⟩
  · rintro ⟨b, left, rfl, hb, hrest⟩
    exact ⟨[b], left, rfl, ⟨b, hb, rfl⟩, hrest⟩

/-! ## Marks -/

/-- The marks tell for each rest of a name whether something holds of it. -/
inductive Tells (P : Bytes → Prop) : Bytes → Marks → Prop where
  | nil {mark : Bool} : (mark = true ↔ P []) → Tells P [] [mark]
  | cons {mark : Bool} {b : UInt8} {name : Bytes} {marks : Marks} :
    (mark = true ↔ P (b :: name)) → Tells P name marks → Tells P (b :: name) (mark :: marks)

namespace Tells

theorem whole (h : Tells P name marks) : marks.whole = true ↔ P name := by
  cases h with
  | nil hmark => exact hmark
  | cons hmark _ => exact hmark

theorem congr (h : Tells P name marks) (hiff : ∀ left, P left ↔ Q left) : Tells Q name marks := by
  induction h with
  | nil hmark => exact .nil (hmark.trans (hiff _))
  | cons hmark _ ih => exact .cons (hmark.trans (hiff _)) ih

theorem atEnd (name : Bytes) : Tells (· = []) name (Marks.atEnd name) := by
  induction name with
  | nil => exact .nil (by simp)
  | cons b name ih => exact .cons (by simp) ih

theorem cleared (h : Tells P name marks) : Tells (fun _ => False) name marks.cleared := by
  induction h with
  | nil => exact .nil (by simp)
  | cons _ _ ih => exact .cons (by simp) ih

theorem or (h : Tells P name marks) (h' : Tells Q name others) :
    Tells (fun left => P left ∨ Q left) name (marks.or others) := by
  induction h generalizing others with
  | nil hmark =>
    cases h' with
    | nil hother => exact .nil (by rw [Bool.or_eq_true, hmark, hother])
  | cons hmark _ ih =>
    cases h' with
    | cons hother hothers => exact .cons (by rw [Bool.or_eq_true, hmark, hother]) (ih hothers)

theorem byte (fits : UInt8 → Bool) (h : Tells P name marks) :
    Tells (Followed (fun taken => ∃ b, fits b = true ∧ taken = [b]) P) name
      (marks.afterByte fits name) := by
  induction h with
  | nil => exact .nil (by rw [followed_byte]; simp)
  | @cons mark b name marks hmark h ih =>
    have hstep : (Marks.afterByte fits (b :: name) (mark :: marks) : Marks) =
        (fits b && marks.whole) :: marks.afterByte fits name := by
      cases h <;> rfl
    rw [hstep]
    refine .cons ?_ ih
    rw [Bool.and_eq_true, h.whole, followed_byte]
    constructor
    · rintro ⟨hb, hP⟩
      exact ⟨b, name, rfl, hb, hP⟩
    · rintro ⟨b', left, hname, hb, hP⟩
      obtain ⟨rfl, rfl⟩ := List.cons.inj hname
      exact ⟨hb, hP⟩

theorem bytes (fixed : Bytes) (h : Tells P name marks) :
    Tells (Followed (· = fixed) P) name (marks.afterBytes fixed name) := by
  induction fixed with
  | nil => exact h.congr fun _ => followed_nil.symm
  | cons b fixed ih =>
    refine (ih.byte (· == b)).congr fun left =>
      followed_assoc.trans (followed_congr ?_ fun _ => .rfl)
    intro taken
    constructor
    · rintro ⟨_, _, rfl, ⟨b', hb, rfl⟩, rfl⟩
      rw [beq_iff_eq.1 hb]
      rfl
    · rintro rfl
      exact ⟨[b], fixed, rfl, ⟨b, beq_self_eq_true b, rfl⟩, rfl⟩

/-- One byte that can be taken more is one step of a run. -/
theorem run (h : Tells P name marks) :
    Tells (Followed (fun taken => slash ∉ taken) P) name (marks.afterRun name) := by
  induction h with
  | @nil mark hmark =>
    refine .nil (hmark.trans ?_)
    constructor
    · intro hP
      exact ⟨[], [], rfl, List.not_mem_nil, hP⟩
    · rintro ⟨taken, left, hname, -, hP⟩
      obtain ⟨-, rfl⟩ := List.append_eq_nil_iff.1 hname.symm
      exact hP
  | @cons mark b name marks hmark h ih =>
    refine .cons ?_ ih
    rw [Bool.or_eq_true, Bool.and_eq_true, hmark, ih.whole, bne_iff_ne]
    constructor
    · rintro (hP | ⟨hb, taken, left, rfl, hrun, hP⟩)
      · exact ⟨[], b :: name, rfl, List.not_mem_nil, hP⟩
      · exact ⟨b :: taken, left, rfl, by simp [hrun, Ne.symm hb], hP⟩
    · rintro ⟨taken, left, hname, hrun, hP⟩
      cases taken with
      | nil => exact .inl (hname ▸ hP)
      | cons b' taken =>
        obtain ⟨rfl, rfl⟩ := List.cons.inj hname
        obtain ⟨hb, hrun⟩ := not_or.1 (mt List.mem_cons.2 hrun)
        exact .inr ⟨Ne.symm hb, taken, left, rfl, hrun, hP⟩

theorem untilSlash (h : Tells P name marks) :
    Tells (Followed (fun taken => ∃ any, taken = any ++ [slash]) P) name
      (marks.afterSlash name) := by
  induction h with
  | nil =>
    refine .nil (iff_of_false Bool.false_ne_true ?_)
    rintro ⟨_, left, hname, ⟨any, rfl⟩, -⟩
    simp at hname
  | @cons mark b name marks hmark h ih =>
    refine .cons ?_ ih
    rw [Bool.or_eq_true, Bool.and_eq_true, beq_iff_eq, h.whole, ih.whole]
    constructor
    · rintro (⟨rfl, hP⟩ | ⟨_, left, rfl, ⟨any, rfl⟩, hP⟩)
      · exact ⟨[slash], name, rfl, ⟨[], rfl⟩, hP⟩
      · exact ⟨b :: any ++ [slash], left, rfl, ⟨b :: any, rfl⟩, hP⟩
    · rintro ⟨_, left, hname, ⟨any, rfl⟩, hP⟩
      cases any with
      | nil =>
        obtain ⟨rfl, rfl⟩ := List.cons.inj hname
        exact .inl ⟨rfl, hP⟩
      | cons b' any =>
        obtain ⟨rfl, rfl⟩ := List.cons.inj hname
        exact .inr ⟨any ++ [slash], left, rfl, ⟨any, rfl⟩, hP⟩

theorem any (h : Tells P name marks) :
    Tells (Followed (fun _ => True) P) name marks.afterAny := by
  induction h with
  | @nil mark hmark =>
    refine .nil ?_
    rw [Bool.or_eq_true, hmark]
    constructor
    · rintro (hP | hmore)
      · exact ⟨[], [], rfl, trivial, hP⟩
      · cases hmore
    · rintro ⟨taken, left, hname, -, hP⟩
      obtain ⟨-, rfl⟩ := List.append_eq_nil_iff.1 hname.symm
      exact .inl hP
  | @cons mark b name marks hmark h ih =>
    refine .cons ?_ ih
    rw [Bool.or_eq_true, hmark, ih.whole]
    constructor
    · rintro (hP | ⟨taken, left, rfl, -, hP⟩)
      · exact ⟨[], b :: name, rfl, trivial, hP⟩
      · exact ⟨b :: taken, left, rfl, trivial, hP⟩
    · rintro ⟨taken, left, hname, -, hP⟩
      cases taken with
      | nil => exact .inl (hname ▸ hP)
      | cons b' taken =>
        obtain ⟨rfl, rfl⟩ := List.cons.inj hname
        exact .inr ⟨taken, left, rfl, trivial, hP⟩

theorem components (h : Tells P name marks) :
    Tells (Followed (Takes leadingComponents) P) name (marks.afterComponents name) := by
  refine (h.or h.untilSlash).congr fun left => ?_
  rw [Takes, followed_or, followed_nil]

end Tells

/-! ## Tokens -/

mutual

/-- **A token** in front of what the marks tell of. -/
theorem tells_marks (t : GlobToken) {P : Bytes → Prop} {name : Bytes} {after : Marks}
    (h : Tells P name after) : Tells (Followed (Takes t) P) name (t.marks name after) := by
  cases t with
  | literal c => exact h.bytes _
  | anyByte =>
    refine (h.byte (· != slash)).congr fun left => followed_congr (fun taken => ?_) fun _ => .rfl
    simp only [Takes, bne_iff_ne]
  | run => exact h.run
  | leadingComponents => exact h.components
  | trailingComponents =>
    refine (h.any.byte (· == slash)).congr fun left =>
      followed_assoc.trans (followed_congr (fun taken => ?_) fun _ => .rfl)
    rw [followed_byte]
    simp [Takes]
  | innerComponents =>
    refine (h.components.byte (· == slash)).congr fun left =>
      followed_assoc.trans (followed_congr (fun taken => ?_) fun _ => .rfl)
    rw [followed_byte]
    simp only [beq_iff_eq, Takes]
    constructor
    · rintro ⟨_, _, rfl, rfl, rfl | ⟨any, rfl⟩⟩
      · exact .inl rfl
      · exact .inr ⟨any, rfl⟩
    · rintro (rfl | ⟨any, rfl⟩)
      · exact ⟨slash, [], rfl, rfl, .inl rfl⟩
      · exact ⟨slash, any ++ [slash], rfl, rfl, .inr ⟨any, rfl⟩⟩
  | set negated ranges => exact h.byte _
  | group branches =>
    rw [GlobToken.marks, Takes]
    split
    · exact h.congr fun _ => followed_nil.symm
    · exact tells_marksOfBranches branches h

/-- **A row of tokens** in front of what the marks tell of. -/
theorem tells_marksOfTokens (tokens : List GlobToken) {P : Bytes → Prop} {name : Bytes}
    {after : Marks} (h : Tells P name after) :
    Tells (Followed (TokensTake tokens) P) name (marksOfTokens tokens name after) := by
  cases tokens with
  | nil => exact h.congr fun _ => followed_nil.symm
  | cons t tokens =>
    exact (tells_marks t (tells_marksOfTokens tokens h)).congr fun _ => followed_assoc

/-- **A choice of branches** in front of what the marks tell of. -/
theorem tells_marksOfBranches (branches : List (List GlobToken)) {P : Bytes → Prop} {name : Bytes}
    {after : Marks} (h : Tells P name after) :
    Tells (Followed (BranchTakes branches) P) name (marksOfBranches branches name after) := by
  cases branches with
  | nil =>
    refine h.cleared.congr fun left => iff_of_false id ?_
    rintro ⟨_, _, -, hno, -⟩
    exact hno
  | cons tokens branches =>
    have hothers := tells_marksOfBranches branches h
    rw [marksOfBranches, BranchTakes]
    -- A branch that takes nothing is left out by the matcher, and by the meaning as well.
    by_cases hidle : allIdle tokens = true
    · rw [if_pos hidle]
      exact hothers.congr fun left => followed_congr (by simp [hidle]) fun _ => .rfl
    · have hfirst := tells_marksOfTokens tokens h
      rw [if_neg hidle]
      refine (hfirst.or hothers).congr fun left => followed_or.symm.trans ?_
      exact followed_congr (by simp [hidle]) fun _ => .rfl

end

end GlobToken

/-- **A pattern matches a name** if its tokens take the whole of it. One that is only a row of
leading components matches everything. -/
theorem Glob.matchesBytes_iff (g : Glob) (name : Bytes) :
    g.matchesBytes name = true ↔
      g.tokens = [.leadingComponents] ∨ GlobToken.TokensTake g.tokens name := by
  have htells := GlobToken.tells_marksOfTokens g.tokens (GlobToken.Tells.atEnd name)
  have hwhole : GlobToken.Followed (GlobToken.TokensTake g.tokens) (· = []) name ↔
      GlobToken.TokensTake g.tokens name := by
    constructor
    · rintro ⟨taken, _, rfl, htaken, rfl⟩
      rwa [List.append_nil]
    · intro htaken
      exact ⟨name, [], (List.append_nil name).symm, htaken, rfl⟩
  rw [← hwhole, ← htells.whole]
  unfold matchesBytes
  split
  · rename_i heq
    exact iff_of_true rfl (.inl heq)
  · rename_i hne
    exact ⟨.inr, fun h => h.resolve_left hne⟩

end JarGraph
