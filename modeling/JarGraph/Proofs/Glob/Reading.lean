import JarGraph.Glob.Parse
import JarGraph.Proofs.Glob.Matching
import JarGraph.Proofs.Text.Utf8
/-!
# Patterns that begin with a plain text

Where a backslash escapes nothing, a text without metacharacters is read
as the literals of its characters (`readFrom_plain`), and a pattern that
begins with literals matches the names that begin with their text and go
on with what the further tokens take (`isMatch_literals`). So the names
that start with a text and a slash are those that the text with `/**`
matches, and with `/**/*` as well: `everything_iff` and `everyName_iff`.
-/

namespace JarGraph

open GlobToken

variable {cs rest : List Char} {c : Char} {tokens more : List GlobToken} {taken : Bytes}

namespace Glob

/-- The characters that mean something in a pattern outside of sets and groups. -/
def metacharacters : List Char :=
  ['*', '?', '[', '\x7b', '\x7d']

/-! ## Reading -/

/-- The tokens of a text that stands for itself. -/
def literals (cs : List Char) : List GlobToken :=
  cs.map .literal

theorem readFrom_literal {previous : Option Char} (hc : c ∉ metacharacters) :
    readFrom false ⟨tokens, []⟩ none previous (c :: rest) =
      readFrom false ⟨.literal c :: tokens, []⟩ none (some c) rest := by
  simp only [metacharacters, List.mem_cons, List.not_mem_nil, or_false, not_or] at hc
  obtain ⟨hstar, hquestion, hset, hopen, hclose⟩ := hc
  by_cases hcomma : c = ','
  · rw [hcomma]
    rfl
  by_cases hbackslash : c = '\\'
  · rw [hbackslash]
    cases rest <;> rfl
  rw [readFrom.eq_def]
  simp only
  split <;> simp_all [Draft.push]

/-- **A plain text** is read as the literals of its characters. -/
theorem readFrom_plain {previous : Option Char} (h : ∀ c ∈ cs, c ∉ metacharacters) :
    readFrom false ⟨tokens, []⟩ none previous (cs ++ rest) =
      readFrom false ⟨(literals cs).reverse ++ tokens, []⟩ none (cs.getLast?.or previous) rest := by
  induction cs generalizing tokens previous with
  | nil => rfl
  | cons c cs ih =>
    obtain ⟨hc, hcs⟩ := List.forall_mem_cons.1 h
    rw [List.cons_append, readFrom_literal hc, ih hcs, literals, literals, List.map_cons,
      List.reverse_cons, List.append_assoc]
    cases cs with
    | nil => rfl
    | cons d cs => rfl

/-! ## Matching -/

theorem tokensTake_append :
    TokensTake (tokens ++ more) taken ↔ Followed (TokensTake tokens) (TokensTake more) taken := by
  induction tokens generalizing taken with
  | nil => exact followed_nil.symm
  | cons t tokens ih => exact (followed_congr (fun _ => .rfl) fun _ => ih).trans followed_assoc

theorem tokensTake_literals :
    TokensTake (literals cs) taken ↔ taken = Text.utf8Bytes (String.ofList cs) := by
  induction cs generalizing taken with
  | nil => exact .rfl
  | cons c cs ih =>
    have hcons : String.ofList (c :: cs) = String.singleton c ++ String.ofList cs := by
      rw [← String.toList_inj, String.toList_append, String.toList_ofList, String.toList_ofList,
        String.toList_singleton]
      rfl
    rw [hcons, Text.utf8Bytes_append]
    refine (followed_congr (fun _ => .rfl) fun _ => ih).trans ?_
    constructor
    · rintro ⟨_, _, rfl, rfl, rfl⟩
      rfl
    · rintro rfl
      exact ⟨_, _, rfl, rfl, rfl⟩

/-- **A pattern that begins with a text** matches what begins with it and goes on with what the
further tokens take. -/
theorem isMatch_literals (hcs : cs ≠ []) (name : String) :
    isMatch ⟨literals cs ++ tokens⟩ name = true ↔
      ∃ left, name = String.ofList cs ++ left ∧ TokensTake tokens (Text.utf8Bytes left) := by
  have hne : literals cs ++ tokens ≠ [.leadingComponents] := by
    obtain ⟨c, rest, rfl⟩ := List.exists_cons_of_ne_nil hcs
    exact fun h => nomatch (List.cons.inj h).1
  rw [isMatch, matchesBytes_iff, or_iff_right hne, tokensTake_append]
  constructor
  · rintro ⟨_, left, hname, htext, htaken⟩
    rw [tokensTake_literals.1 htext] at hname
    obtain ⟨more, rfl, rfl⟩ := Text.utf8Bytes_eq_append.1 hname
    exact ⟨more, rfl, htaken⟩
  · rintro ⟨left, rfl, htaken⟩
    exact ⟨_, _, Text.utf8Bytes_append _ _, tokensTake_literals.2 rfl, htaken⟩

theorem utf8Bytes_slash : Text.utf8Bytes "/" = [slash] := by
  decide

/-- Bytes that start with a slash are those of a text that does. -/
theorem utf8Bytes_eq_cons_slash {text : String} {any : Bytes} :
    Text.utf8Bytes text = slash :: any ↔
      ∃ more, text = "/" ++ more ∧ any = Text.utf8Bytes more := by
  rw [← Text.utf8Bytes_eq_append, utf8Bytes_slash, List.singleton_append]

/-- What follows a slash is a run, or more up to a last slash and then a run. -/
theorem tokensTake_innerRun :
    TokensTake [.innerComponents, .run] taken ↔ ∃ any, taken = slash :: any := by
  constructor
  · rintro ⟨_, left, rfl, rfl | ⟨any, rfl⟩, -⟩
    · exact ⟨left, rfl⟩
    · exact ⟨_, rfl⟩
  · rintro ⟨any, rfl⟩
    have hrun : ∀ run : Bytes, slash ∉ run → TokensTake [.run] run :=
      fun run hrun => ⟨run, [], (List.append_nil run).symm, hrun, rfl⟩
    -- The components end at the last slash, so that none is left to the run.
    by_cases hslash : slash ∈ any
    · obtain ⟨back, front, hany, hback⟩ :=
        List.eq_append_cons_of_mem (List.mem_reverse.2 hslash)
      have hcut : any = front.reverse ++ slash :: back.reverse := by
        rw [← List.reverse_reverse any, hany, List.reverse_append, List.reverse_cons,
          List.append_assoc, List.singleton_append]
      refine ⟨slash :: front.reverse ++ [slash], back.reverse, ?_, .inr ⟨_, rfl⟩, hrun _ ?_⟩
      · rw [hcut, List.append_assoc, List.singleton_append, List.cons_append]
      · exact mt List.mem_reverse.1 hback
    · exact ⟨[slash], any, rfl, .inl rfl, hrun any hslash⟩

theorem tokensTake_slashRun :
    TokensTake [.literal '/', .run] taken ↔ ∃ any, taken = slash :: any ∧ slash ∉ any := by
  have hslash : Text.utf8Bytes (String.singleton '/') = [slash] := utf8Bytes_slash
  constructor
  · rintro ⟨_, _, rfl, rfl, any, _, rfl, hany, rfl⟩
    exact ⟨any, by rw [hslash, List.append_nil, List.singleton_append], hany⟩
  · rintro ⟨any, rfl, hany⟩
    exact ⟨[slash], any, rfl, hslash.symm, any, [], (List.append_nil any).symm, hany, rfl⟩

/-! ## What stands below a text -/

variable {text ending : String}

/-- The tokens that an ending is read as behind any others. -/
def Ends (ending : String) (more : List GlobToken) : Prop :=
  ∀ tokens previous, readFrom false ⟨tokens, []⟩ none previous ending.toList =
    .ok (tokens.reverse ++ more)

theorem ends_everything : Ends "/**" [.trailingComponents] := by
  intro tokens previous
  exact congrArg Except.ok List.reverse_cons

theorem ends_everyName : Ends "/**/*" [.innerComponents, .run] := by
  intro tokens previous
  have hreverse : (GlobToken.run :: .innerComponents :: tokens).reverse =
      tokens.reverse ++ [.innerComponents, .run] := by
    rw [List.reverse_cons, List.reverse_cons, List.append_assoc, List.singleton_append]
  exact congrArg Except.ok hreverse

theorem ends_names : Ends "/*" [.literal '/', .run] := by
  intro tokens previous
  have hreverse : (GlobToken.run :: .literal '/' :: tokens).reverse =
      tokens.reverse ++ [.literal '/', .run] := by
    rw [List.reverse_cons, List.reverse_cons, List.append_assoc, List.singleton_append]
  exact congrArg Except.ok hreverse

/-- **A plain text with an ending** matches what begins with the text and goes on with what the
ending takes. -/
theorem exists_parse (hne : text ≠ "") (h : ∀ c ∈ text.toList, c ∉ metacharacters)
    (hends : Ends ending more) :
    ∃ g, parse false (text ++ ending) = .ok g ∧
      ∀ name, g.isMatch name = true ↔
        ∃ left, name = text ++ left ∧ TokensTake more (Text.utf8Bytes left) := by
  refine ⟨⟨literals text.toList ++ more⟩, ?_, fun name => ?_⟩
  · rw [parse, String.toList_append, readFrom_plain h, hends, List.append_nil, List.reverse_reverse]
    rfl
  · rw [isMatch_literals (mt String.toList_eq_nil_iff.1 hne), String.ofList_toList]

/-- What the tokens take that follow a text and a slash. -/
theorem exists_slash_iff {name : String} (fits : Bytes → Prop)
    (htake : ∀ taken, TokensTake more taken ↔ ∃ any, taken = slash :: any ∧ fits any) :
    (∃ left, name = text ++ left ∧ TokensTake more (Text.utf8Bytes left)) ↔
      ∃ left, name = text ++ "/" ++ left ∧ fits (Text.utf8Bytes left) := by
  constructor
  · rintro ⟨left, rfl, htaken⟩
    obtain ⟨any, hany, hfits⟩ := (htake _).1 htaken
    obtain ⟨below, rfl, rfl⟩ := utf8Bytes_eq_cons_slash.1 hany
    exact ⟨below, (String.append_assoc ..).symm, hfits⟩
  · rintro ⟨left, rfl, hfits⟩
    have hslash : Text.utf8Bytes ("/" ++ left) = slash :: Text.utf8Bytes left :=
      utf8Bytes_eq_cons_slash.2 ⟨left, rfl, rfl⟩
    exact ⟨"/" ++ left, String.append_assoc .., (htake _).2 ⟨_, hslash, hfits⟩⟩

/-- **Everything below a text**, however it is asked for. -/
theorem exists_parse_below (hne : text ≠ "") (h : ∀ c ∈ text.toList, c ∉ metacharacters)
    (hending : ending = "/**" ∨ ending = "/**/*") :
    ∃ g, parse false (text ++ ending) = .ok g ∧
      ∀ name, g.isMatch name = true ↔ ∃ left, name = text ++ "/" ++ left := by
  obtain ⟨more, hends, htake⟩ : ∃ more, Ends ending more ∧
      ∀ taken, TokensTake more taken ↔ ∃ any, taken = slash :: any := by
    rcases hending with rfl | rfl
    · refine ⟨_, ends_everything, fun taken => ?_⟩
      rw [TokensTake, TokensTake]
      constructor
      · rintro ⟨_, _, rfl, ⟨any, rfl⟩, rfl⟩
        exact ⟨any, List.append_nil _⟩
      · rintro ⟨any, rfl⟩
        exact ⟨_, [], (List.append_nil _).symm, ⟨any, rfl⟩, rfl⟩
    · exact ⟨_, ends_everyName, fun taken => tokensTake_innerRun⟩
  obtain ⟨g, hparse, hmatch⟩ := exists_parse hne h hends
  refine ⟨g, hparse, fun name => (hmatch name).trans ?_⟩
  simpa only [and_true] using exists_slash_iff (fun _ => True) (by simpa using htake)

/-- **The names right below a text.** -/
theorem exists_parse_names (hne : text ≠ "") (h : ∀ c ∈ text.toList, c ∉ metacharacters) :
    ∃ g, parse false (text ++ "/*") = .ok g ∧
      ∀ name, g.isMatch name = true ↔
        ∃ left, name = text ++ "/" ++ left ∧ '/' ∉ left.toList := by
  obtain ⟨g, hparse, hmatch⟩ := exists_parse hne h ends_names
  refine ⟨g, hparse, fun name => (hmatch name).trans ?_⟩
  rw [exists_slash_iff (slash ∉ ·) fun taken => tokensTake_slashRun]
  have hslash : ∀ left : String, slash ∉ Text.utf8Bytes left ↔ '/' ∉ left.toList :=
    fun left => not_congr (Text.ascii_mem_utf8Bytes (c := '/') (by decide))
  simp only [hslash]

end Glob

end JarGraph
