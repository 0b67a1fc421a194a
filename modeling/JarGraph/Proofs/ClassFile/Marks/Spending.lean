import JarGraph.ClassFile.Marks.Agenda
/-!
# What is read of annotations is paid for

Annotations and element values nest to any depth, and a class says itself
how many of them follow. What bounds a read is the data that is left: a
task that is taken up and does not fail takes at least one byte, and three
bytes for every descriptor that it notes (`takeUp_spends`). So an agenda
comes to its end (`runAgenda_eq`), whatever the counts say, and with what
the reader answers that has a bound on the depth: that bound is never what
stops it (`elementValueWithin_eq`).
-/

namespace JarGraph.ClassFile

open Noting Opened

variable {α β : Type} {pool : Pool} {data : Bytes} {first second item item' : Noting}
variable {depth n : Nat} {task : Task} {tasks waiting : List Task}

/-! ## Reads in a row -/

namespace Noting

/-- A read with notes in front of its own. -/
def prefixed (notes : List String) (b : Noted) : Noted :=
  ⟨notes ++ b.notes, b.outcome, b.rest⟩

theorem prefixed_append (notes more : List String) (b : Noted) :
    prefixed (notes ++ more) b = prefixed notes (prefixed more b) := by
  rw [prefixed, prefixed, prefixed, List.append_assoc]

theorem andThen_of_ok (h : (first data).outcome = .ok ()) (second : Noting) :
    andThen first second data = prefixed (first data).notes (second (first data).rest) := by
  rw [andThen, h]
  rfl

theorem andThen_of_error {cause : Error} (h : (first data).outcome = .error cause)
    (second : Noting) : andThen first second data = first data := by
  rw [andThen, h]

theorem done_andThen (item : Noting) : andThen done item = item :=
  rfl

theorem andThen_done (item : Noting) : andThen item done = item := by
  funext data
  cases h : (item data).outcome with
  | error cause => rw [andThen_of_error h]
  | ok => rw [andThen_of_ok h, prefixed, done, List.append_nil, ← h]

/-- Reads in a row may be bracketed either way. -/
theorem andThen_assoc (first second third : Noting) :
    andThen (andThen first second) third = andThen first (andThen second third) := by
  funext data
  cases hfirst : (first data).outcome with
  | error cause =>
    have hboth := andThen_of_error hfirst second
    rw [andThen_of_error (hboth ▸ hfirst), hboth, andThen_of_error hfirst]
  | ok =>
    have hboth := andThen_of_ok hfirst second
    rw [andThen_of_ok hfirst]
    cases hsecond : (second (first data).rest).outcome with
    | error cause =>
      have houtcome : (andThen first second data).outcome = .error cause := by
        rw [hboth]
        exact hsecond
      rw [andThen_of_error houtcome, hboth, andThen_of_error hsecond]
    | ok =>
      rw [andThen_of_ok (by rw [hboth]; exact hsecond), hboth, andThen_of_ok hsecond,
        ← prefixed_append]
      rfl

/-- What a read leaves is an end of its data. -/
def Advances (item : Noting) : Prop :=
  ∀ data, (item data).rest <:+ data

namespace Advances

theorem done : Advances done :=
  fun _ => List.suffix_rfl

theorem andThen (h : Advances first) (h' : Advances second) :
    Advances (Noting.andThen first second) := by
  intro data
  cases hfirst : (first data).outcome with
  | error cause =>
    rw [andThen_of_error hfirst]
    exact h data
  | ok =>
    rw [andThen_of_ok hfirst]
    exact (h' _).trans (h data)

theorem times (h : Advances item) (n : Nat) : Advances (Noting.times n item) := by
  induction n with
  | zero => exact done
  | succ n ih => exact h.andThen ih

end Advances

end Noting

/-! ## Readers of a fixed width -/

/-- A reader takes so many bytes, or fails and takes none. -/
def Reader.Spends (r : Reader α) (width : Nat) : Prop :=
  ∀ data, (∃ cause, r data = (.error cause, data)) ∨
    ∃ taken a rest, data = taken ++ rest ∧ taken.length = width ∧ r data = (.ok a, rest)

namespace Reader.Spends

theorem u1 : Spends Reader.u1 1 := by
  rintro (_ | ⟨a, rest⟩)
  · exact .inl ⟨_, rfl⟩
  · exact .inr ⟨[a], _, rest, rfl, rfl, rfl⟩

theorem u2 : Spends Reader.u2 2 := by
  rintro (_ | ⟨a, _ | ⟨b, rest⟩⟩)
  · exact .inl ⟨_, rfl⟩
  · exact .inl ⟨_, rfl⟩
  · exact .inr ⟨[a, b], _, rest, rfl, rfl, rfl⟩

theorem pure (a : α) : Spends (Reader.pure a) 0 :=
  fun data => .inr ⟨[], a, data, rfl, rfl, rfl⟩

theorem fail (cause : Error) : Spends (Reader.fail cause : Reader α) 0 :=
  fun _ => .inl ⟨cause, rfl⟩

/-- What is made of an item takes what the item takes. -/
theorem map {r : Reader α} {width : Nat} (h : Spends r width) (f : α → β) :
    Spends (r.bind fun a => .pure (f a)) width := by
  intro data
  rcases h data with ⟨cause, hr⟩ | ⟨taken, a, rest, hdata, hwidth, hr⟩
  · exact .inl ⟨cause, by rw [Reader.bind, hr]⟩
  · exact .inr ⟨taken, f a, rest, hdata, hwidth, by rw [Reader.bind, hr]; rfl⟩

theorem skip2 : Spends (Reader.skip 2) 2 := by
  rintro (_ | ⟨a, _ | ⟨b, rest⟩⟩)
  · exact .inl ⟨_, rfl⟩
  · exact .inl ⟨_, rfl⟩
  · exact .inr ⟨[a, b], _, rest, rfl, rfl, rfl⟩

end Reader.Spends

/-! ## The bound on the depth -/

theorem Reader.Spends.ofExcept (answer : Except Error α) : Spends (Reader.ofExcept answer) 0 := by
  intro data
  cases answer with
  | error cause => exact .inl ⟨cause, rfl⟩
  | ok a => exact .inr ⟨[], a, data, rfl, rfl, rfl⟩

theorem Noting.Advances.reading {r : Reader α} {width : Nat} (h : r.Spends width)
    {next : α → Noting} (hnext : ∀ a, Advances (next a)) : Advances (Noting.reading r next) := by
  intro data
  unfold Noting.reading
  rcases h data with ⟨cause, hr⟩ | ⟨taken, a, rest, rfl, -, hr⟩
  · simp only [hr, List.suffix_rfl]
  · rw [hr]
    exact (hnext a rest).trans (List.suffix_append taken rest)

theorem advances_noteIndex (pool : Pool) : Advances (noteIndex pool) :=
  .reading .u2 fun _ => .reading (.ofExcept _) fun _ _ => List.suffix_rfl

theorem advances_markWith (h : Advances item) : Advances (markWith pool item) :=
  (advances_noteIndex pool).andThen
    (.reading .u2 fun _ => .times (.reading .u2 fun _ => h) _)

theorem advances_elementValueWithin (pool : Pool) (depth : Nat) :
    Advances (elementValueWithin pool depth) := by
  have hskip : Advances (Noting.reading (Reader.skip 2) fun () => Noting.done) :=
    .reading .skip2 fun _ => .done
  induction depth with
  | zero => exact .reading (.fail _) fun _ => .done
  | succ depth ih =>
    refine .reading .u1 fun tag => ?_
    split
    all_goals first
      | exact hskip
      | exact (advances_noteIndex pool).andThen hskip
      | exact advances_noteIndex pool
      | exact advances_markWith ih
      | exact .reading .u2 fun _ => .times ih _
      | exact .reading (.fail _) fun _ => .done

/-- Two reads are the same on data that is no longer than a bound. -/
def AgreeUpTo (n : Nat) (item item' : Noting) : Prop :=
  ∀ data : Bytes, data.length ≤ n → item data = item' data

namespace AgreeUpTo

variable {second' : Noting}

theorem refl (item : Noting) : AgreeUpTo n item item :=
  fun _ _ => rfl

theorem andThen (hfirst : Advances first) (h : AgreeUpTo n second second') :
    AgreeUpTo n (Noting.andThen first second) (Noting.andThen first second') := by
  intro data hdata
  cases houtcome : (first data).outcome with
  | error cause => rw [andThen_of_error houtcome, andThen_of_error houtcome]
  | ok =>
    rw [andThen_of_ok houtcome, andThen_of_ok houtcome,
      h _ (Nat.le_trans (hfirst data).length_le hdata)]

theorem reading {r : Reader α} {width : Nat} (hr : r.Spends width) {next next' : α → Noting}
    (h : ∀ a, AgreeUpTo n (next a) (next' a)) :
    AgreeUpTo (n + width) (Noting.reading r next) (Noting.reading r next') := by
  intro data hdata
  unfold Noting.reading
  rcases hr data with ⟨cause, hanswer⟩ | ⟨taken, a, rest, rfl, hwidth, hanswer⟩
  · rw [hanswer]
  · rw [hanswer]
    rw [List.length_append] at hdata
    exact h a rest (by omega)

theorem mono {m : Nat} (hm : m ≤ n) (h : AgreeUpTo n item item') : AgreeUpTo m item item' :=
  fun data hdata => h data (Nat.le_trans hdata hm)

theorem times (hitem : Advances item) (h : AgreeUpTo n item item') (count : Nat) :
    AgreeUpTo n (Noting.times count item) (Noting.times count item') := by
  induction count with
  | zero => exact .refl _
  | succ count ih =>
    intro data hdata
    rw [Noting.times, Noting.times, andThen hitem ih data hdata, Noting.andThen, Noting.andThen,
      h data hdata]

/-- Annotations are read alike where the values in them are. -/
theorem markWith (hitem : Advances item) (h : AgreeUpTo n item item') :
    AgreeUpTo n (markWith pool item) (markWith pool item') := by
  refine .andThen (advances_noteIndex pool)
    (.mono (Nat.le_add_right n 2) (.reading .u2 fun _ => ?_))
  exact .times (.reading .u2 fun _ => hitem)
    (.mono (Nat.le_add_right n 2) (.reading .u2 fun _ => h)) _

end AgreeUpTo

/-- **The bound on the depth** does not show where the data is no longer: each level takes a
byte. -/
theorem agreeUpTo_elementValueWithin (hdepth : n ≤ depth) {depth' : Nat} (hdepth' : n ≤ depth') :
    AgreeUpTo n (elementValueWithin pool depth) (elementValueWithin pool depth') := by
  induction n generalizing depth depth' with
  | zero =>
    intro data hdata
    obtain rfl := List.length_eq_zero_iff.1 (Nat.le_zero.1 hdata)
    cases depth <;> cases depth' <;> rfl
  | succ n ih =>
    obtain ⟨depth, rfl⟩ := Nat.exists_eq_add_of_le' hdepth
    obtain ⟨depth', rfl⟩ := Nat.exists_eq_add_of_le' hdepth'
    have hagree : AgreeUpTo n (elementValueWithin pool (depth + n))
        (elementValueWithin pool (depth' + n)) := ih (by omega) (by omega)
    have hadvances := advances_elementValueWithin pool (depth + n)
    refine .reading .u1 fun tag => ?_
    split
    all_goals first
      | exact .refl _
      | exact hagree.markWith hadvances
      | exact .mono (Nat.le_add_right n 2) (.reading .u2 fun _ => hagree.times hadvances _)

/-- A value is read as without a bound by every bound from the length of its data on. -/
theorem elementValueWithin_eq (h : data.length ≤ depth) :
    elementValueWithin pool depth data = elementValue pool data :=
  agreeUpTo_elementValueWithin h (Nat.le_refl data.length) data (Nat.le_refl data.length)

/-! ## Tasks as reads -/

/-- The read of some tasks in a row. -/
def readAll (pool : Pool) : List Task → Noting
  | [] => done
  | task :: waiting => andThen (task.read pool) (readAll pool waiting)

theorem readAll_append (tasks waiting : List Task) :
    readAll pool (tasks ++ waiting) = andThen (readAll pool tasks) (readAll pool waiting) := by
  induction tasks with
  | nil => rfl
  | cons task tasks ih => rw [List.cons_append, readAll, readAll, andThen_assoc, ih]

theorem readAll_replicate (task : Task) (count : Nat) :
    readAll pool (List.replicate count task) = times count (task.read pool) := by
  induction count with
  | zero => rfl
  | succ count ih => rw [List.replicate_succ, readAll, ih, times]

/-- What was taken up is read on with all that has to follow. -/
def Opened.readOn (pool : Pool) (a : Opened) : Noted :=
  match a.outcome with
  | .error cause => ⟨a.notes, .error cause, a.rest⟩
  | .ok tasks => prefixed a.notes (readAll pool tasks a.rest)

theorem readOn_after (next : Reader (List Task)) :
    readOn pool ∘ after first next = andThen first (reading next (readAll pool)) := by
  funext data
  rw [Function.comp_apply]
  cases hfirst : (first data).outcome with
  | error cause =>
    rw [andThen_of_error hfirst]
    simp only [after, hfirst, readOn]
    rw [← hfirst]
  | ok =>
    rw [andThen_of_ok hfirst]
    rcases hnext : next (first data).rest with ⟨cause | tasks, rest⟩ <;>
      simp only [after, hfirst, hnext, readOn, reading, prefixed, List.append_nil]

theorem reading_pure (a : α) (next : α → Noting) : reading (.pure a) next = next a :=
  rfl

theorem reading_bind_pure (r : Reader α) (f : α → β) (next : β → Noting) :
    reading (r.bind fun a => .pure (f a)) next = reading r fun a => next (f a) := by
  funext data
  unfold reading
  rcases h : r data with ⟨cause | a, rest⟩ <;> simp only [Reader.bind, h, Reader.pure]

/-- Tasks of one sort, as many as an item says, read on. -/
theorem reading_repeated (r : Reader α) (count : α → Nat) :
    reading (r.bind fun a => repeated task (count a)) (readAll pool) =
      reading r fun a => times (count a) (task.read pool) := by
  simp only [repeated, reading_bind_pure, readAll_replicate]

theorem readAll_singleton (task : Task) : readAll pool [task] = task.read pool :=
  andThen_done _

/-- Without a bound, values are read as with one from the length of the data on. -/
theorem agreeUpTo_elementValue (pool : Pool) (n : Nat) :
    AgreeUpTo n (elementValueWithin pool n) (elementValue pool) :=
  fun _ hdata => elementValueWithin_eq hdata

/-- An annotation reads its values with no bound of its own. -/
theorem mark_eq : mark pool = markWith pool (elementValue pool) :=
  funext fun data => (agreeUpTo_elementValue pool data.length).markWith
    (advances_elementValueWithin pool data.length) data (Nat.le_refl data.length)

/-- The letters of the tags of constants. -/
def constantLetters : List Char :=
  ['B', 'C', 'D', 'F', 'I', 'J', 'S', 'Z', 's']

/-- A letter is the tag of a constant, or one of the four others, or no tag. -/
theorem letter_cases (letter : Char) :
    letter ∈ constantLetters ∨ letter = 'e' ∨ letter = 'c' ∨ letter = '@' ∨ letter = '[' ∨
      letter ∉ constantLetters ++ ['e', 'c', '@', '['] := by
  simp only [List.mem_append, List.mem_cons, List.not_mem_nil, or_false, not_or]
  grind

/-- What is read behind the tag of an element value. -/
theorem elementValue_eq :
    elementValue pool = reading Reader.u1 fun tag => readOn pool ∘ takeUpValue pool tag := by
  funext data
  obtain _ | ⟨tag, data⟩ := data
  · rfl
  have hagree := agreeUpTo_elementValue pool data.length
  have hadvances := advances_elementValueWithin pool data.length
  suffices h : AgreeUpTo (data.length + 1) (elementValueWithin pool (data.length + 1))
      (reading Reader.u1 fun tag => readOn pool ∘ takeUpValue pool tag) from
    h (tag :: data) (Nat.le_refl _)
  refine .reading .u1 fun tag => ?_
  unfold takeUpValue
  generalize Char.ofNat tag.toNat = letter
  rcases letter_cases letter with hconstant | henum | hliteral | hnested | harray | hnone
  · simp only [constantLetters, List.mem_cons, List.not_mem_nil, or_false] at hconstant
    have hskip : AgreeUpTo data.length (reading (Reader.skip 2) fun () => done)
        (readOn pool ∘ after done ((Reader.skip 2).bind fun () => .pure [])) := by
      rw [readOn_after, done_andThen, reading_bind_pure]
      exact .refl _
    rcases hconstant with rfl | rfl | rfl | rfl | rfl | rfl | rfl | rfl | rfl <;> exact hskip
  · simp only [henum]
    rw [readOn_after, reading_bind_pure]
    exact .refl _
  · simp only [hliteral]
    rw [readOn_after, reading_pure, readAll, andThen_done]
    exact .refl _
  · simp only [hnested]
    rw [readOn_after, reading_pure, readAll_singleton, done_andThen, Task.read, mark_eq]
    exact hagree.markWith hadvances
  · simp only [harray]
    rw [readOn_after, reading_repeated, done_andThen]
    exact .mono (Nat.le_add_right _ 2) (.reading .u2 fun _ => hagree.times hadvances _)
  · simp only [constantLetters, List.cons_append, List.nil_append, List.mem_cons,
      List.not_mem_nil, or_false, not_or] at hnone
    simp only [hnone, imp_self]
    rw [readOn_after, done_andThen]
    exact .refl _

/-- **A task** that is taken up and read on is the read that it stands for. -/
theorem read_eq (task : Task) : task.read pool = readOn pool ∘ task.takeUp pool := by
  cases task with
  | mark =>
    rw [Task.takeUp, readOn_after, reading_repeated, Task.read, mark_eq]
    rfl
  | value =>
    rw [Task.read, elementValue_eq]
    funext data
    obtain _ | ⟨tag, data⟩ := data <;> rfl
  | namedValue =>
    rw [Task.takeUp, readOn_after, reading_bind_pure, readAll_singleton, done_andThen]
    rfl
  | marks =>
    rw [Task.takeUp, readOn_after, reading_repeated, done_andThen]
    rfl
  | parameterMarks =>
    rw [Task.takeUp, readOn_after, reading_repeated, done_andThen]
    rfl

/-! ## What a task takes -/

/-- An index takes its two bytes if it is good, and notes one descriptor. -/
theorem noteIndex_cases (pool : Pool) (data : Bytes) :
    (∃ taken rest cause, data = taken ++ rest ∧ noteIndex pool data = ⟨[], .error cause, rest⟩) ∨
      ∃ taken rest descriptor, data = taken ++ rest ∧ taken.length = 2 ∧
        noteIndex pool data = ⟨[descriptor], .ok (), rest⟩ := by
  rcases Reader.Spends.u2 data with ⟨cause, hu2⟩ | ⟨taken, index, rest, hdata, hwidth, hu2⟩
  · exact .inl ⟨[], data, cause, rfl, by simp only [noteIndex, reading, hu2]⟩
  · cases hutf8 : pool.utf8 index with
    | error cause =>
      refine .inl ⟨taken, rest, cause, hdata, ?_⟩
      simp only [noteIndex, reading, hu2, Reader.ofExcept, hutf8]
    | ok descriptor =>
      refine .inr ⟨taken, rest, descriptor, hdata, hwidth, ?_⟩
      simp only [noteIndex, reading, hu2, Reader.ofExcept, hutf8, note]

/-- What is taken up notes at most `count` descriptors, each by the two bytes of an index, and takes
so many bytes if it does not fail. -/
def Opened.Spends (count width : Nat) (opening : Bytes → Opened) : Prop :=
  ∀ data, ∃ taken, data = taken ++ (opening data).rest ∧
    (opening data).notes.length ≤ count ∧ 3 * (opening data).notes.length ≤ taken.length + 1 ∧
    ∀ tasks, (opening data).outcome = .ok tasks → taken.length = width

theorem spends_after_done {next : Reader (List Task)} {width : Nat} (h : next.Spends width) :
    Opened.Spends 0 width (after done next) := by
  intro data
  rcases h data with ⟨cause, hnext⟩ | ⟨taken, tasks, rest, rfl, hwidth, hnext⟩
  · have hafter : after done next data = ⟨[], .error cause, data⟩ := by
      simp only [after, done, hnext]
    rw [hafter]
    exact ⟨[], rfl, Nat.le_refl 0, Nat.zero_le _, nofun⟩
  · have hafter : after done next (taken ++ rest) = ⟨[], .ok tasks, rest⟩ := by
      simp only [after, done, hnext]
    rw [hafter]
    exact ⟨taken, rfl, Nat.le_refl 0, Nat.zero_le _, fun _ _ => hwidth⟩

theorem spends_after_noteIndex {next : Reader (List Task)} {width : Nat} (h : next.Spends width) :
    Opened.Spends 1 (2 + width) (after (noteIndex pool) next) := by
  intro data
  rcases noteIndex_cases pool data with
    ⟨taken, rest, cause, hdata, hindex⟩ | ⟨taken, rest, descriptor, rfl, htwo, hindex⟩
  · have hafter : after (noteIndex pool) next data = ⟨[], .error cause, rest⟩ := by
      simp only [after, hindex]
    rw [hafter]
    exact ⟨taken, hdata, Nat.zero_le 1, Nat.zero_le _, nofun⟩
  rcases h rest with ⟨cause, hnext⟩ | ⟨more, tasks, rest, rfl, hwidth, hnext⟩
  · have hafter : after (noteIndex pool) next (taken ++ rest) =
        ⟨[descriptor], .error cause, rest⟩ := by
      simp only [after, hindex, hnext]
    rw [hafter]
    exact ⟨taken, rfl, Nat.le_refl 1, by rw [htwo]; exact Nat.le_refl 3, nofun⟩
  · have hafter : after (noteIndex pool) next (taken ++ (more ++ rest)) =
        ⟨[descriptor], .ok tasks, rest⟩ := by
      simp only [after, hindex, hnext]
    have hlength : (taken ++ more).length = 2 + width := by rw [List.length_append, htwo, hwidth]
    rw [hafter]
    refine ⟨taken ++ more, (List.append_assoc ..).symm, Nat.le_refl 1, ?_, fun _ _ => hlength⟩
    rw [hlength]
    show 3 * 1 ≤ 2 + width + 1
    omega

/-- What does not fail has paid for its descriptors where it takes three bytes for each. -/
theorem Opened.Spends.paid {count width : Nat} {opening : Bytes → Opened}
    (h : Opened.Spends count width opening) (hwidth : 0 < width) (hcount : 3 * count ≤ width)
    (data : Bytes) :
    ∃ taken, data = taken ++ (opening data).rest ∧
      3 * (opening data).notes.length ≤ taken.length + 1 ∧
      ∀ tasks, (opening data).outcome = .ok tasks →
        0 < taken.length ∧ 3 * (opening data).notes.length ≤ taken.length := by
  obtain ⟨taken, hdata, hnotes, hpaid, hok⟩ := h data
  refine ⟨taken, hdata, hpaid, fun tasks htasks => ?_⟩
  have hlength := hok tasks htasks
  omega

/-- What follows the tag of a value is two bytes at least where a descriptor is noted. -/
theorem takeUpValue_spends (pool : Pool) (tag : UInt8) (data : Bytes) :
    ∃ taken, data = taken ++ (takeUpValue pool tag data).rest ∧
      3 * (takeUpValue pool tag data).notes.length ≤ taken.length + 1 := by
  have hspends : ∃ count width, Opened.Spends count width (takeUpValue pool tag) := by
    unfold takeUpValue
    split
    all_goals first
      | exact ⟨_, _, spends_after_done (.map .skip2 _)⟩
      | exact ⟨_, _, spends_after_noteIndex (.map .skip2 _)⟩
      | exact ⟨_, _, spends_after_noteIndex (.pure _)⟩
      | exact ⟨_, _, spends_after_done (.pure _)⟩
      | exact ⟨_, _, spends_after_done (.map .u2 _)⟩
      | exact ⟨_, _, spends_after_done (.fail _)⟩
  obtain ⟨count, width, hspends⟩ := hspends
  obtain ⟨taken, hdata, -, hpaid, -⟩ := hspends data
  exact ⟨taken, hdata, hpaid⟩

/-- **A task** takes from the front of its data three bytes for each descriptor that it notes, or
one less where it fails, and at least one byte where other tasks follow. -/
theorem takeUp_spends (pool : Pool) (task : Task) (data : Bytes) :
    ∃ taken, data = taken ++ (task.takeUp pool data).rest ∧
      3 * (task.takeUp pool data).notes.length ≤ taken.length + 1 ∧
      ∀ tasks, (task.takeUp pool data).outcome = .ok tasks →
        0 < taken.length ∧ 3 * (task.takeUp pool data).notes.length ≤ taken.length := by
  cases task with
  | mark => exact (spends_after_noteIndex (.map .u2 _)).paid (by decide) (by decide) data
  | value =>
    -- The tag is the byte that a value is short of.
    obtain _ | ⟨tag, data⟩ := data
    · exact ⟨[], rfl, Nat.zero_le _, nofun⟩
    · obtain ⟨taken, hdata, hpaid⟩ := takeUpValue_spends pool tag data
      exact ⟨tag :: taken, congrArg (tag :: ·) hdata, Nat.le_succ_of_le hpaid,
        fun _ _ => ⟨Nat.succ_pos _, hpaid⟩⟩
  | namedValue => exact (spends_after_done (.map .u2 _)).paid (by decide) (by decide) data
  | marks => exact (spends_after_done (.map .u2 _)).paid (by decide) (by decide) data
  | parameterMarks => exact (spends_after_done (.map .u1 _)).paid (by decide) (by decide) data

/-! ## A run of an agenda -/

/-- A task that fails is the end of the read. -/
theorem readAll_cons_of_error {cause : Error}
    (h : (task.takeUp pool data).outcome = .error cause) (waiting : List Task) :
    readAll pool (task :: waiting) data =
      ⟨(task.takeUp pool data).notes, .error cause, (task.takeUp pool data).rest⟩ := by
  have hread : task.read pool data =
      ⟨(task.takeUp pool data).notes, .error cause, (task.takeUp pool data).rest⟩ := by
    rw [read_eq, Function.comp_apply, readOn, h]
  have houtcome : (task.read pool data).outcome = .error cause := by rw [hread]
  rw [readAll, andThen_of_error houtcome, hread]

/-- The tasks that have to follow a task are read before those that were waiting. -/
theorem readAll_cons_of_ok (h : (task.takeUp pool data).outcome = .ok tasks)
    (waiting : List Task) :
    readAll pool (task :: waiting) data =
      prefixed (task.takeUp pool data).notes
        (readAll pool (tasks ++ waiting) (task.takeUp pool data).rest) := by
  have hread : task.read pool data =
      prefixed (task.takeUp pool data).notes (readAll pool tasks (task.takeUp pool data).rest) := by
    rw [read_eq, Function.comp_apply, readOn, h]
  rw [readAll, readAll_append]
  generalize (task.takeUp pool data).rest = rest at *
  generalize (task.takeUp pool data).notes = notes at *
  cases htasks : (readAll pool tasks rest).outcome with
  | error cause =>
    have houtcome : (task.read pool data).outcome = .error cause := by
      rw [hread]
      exact htasks
    rw [andThen_of_error houtcome, andThen_of_error htasks, hread]
  | ok =>
    have houtcome : (task.read pool data).outcome = .ok () := by
      rw [hread]
      exact htasks
    rw [andThen_of_ok houtcome, andThen_of_ok htasks, hread, ← prefixed_append]
    rfl

/-- **An agenda** comes to its end, with the read that its tasks stand for. It takes up at most one
task more than it takes bytes, and notes at most a third of that number of descriptors. -/
theorem runAgenda_eq (pool : Pool) (tasks : List Task) (data : Bytes) :
    ∃ steps taken, runAgenda pool steps tasks data = some (readAll pool tasks data) ∧
      data = taken ++ (readAll pool tasks data).rest ∧ steps ≤ taken.length + 1 ∧
      3 * (readAll pool tasks data).notes.length ≤ taken.length + 1 := by
  -- Every task that others follow leaves less data.
  induction hlength : data.length using Nat.strongRecOn generalizing tasks data with
  | _ length ih =>
  obtain _ | ⟨task, waiting⟩ := tasks
  · exact ⟨0, [], rfl, rfl, Nat.zero_le _, Nat.zero_le _⟩
  obtain ⟨taken, hdata, hpaid, hok⟩ := takeUp_spends pool task data
  cases houtcome : (task.takeUp pool data).outcome with
  | error cause =>
    rw [readAll_cons_of_error houtcome]
    exact ⟨1, taken, by simp only [runAgenda, houtcome], hdata, Nat.le_add_left .., hpaid⟩
  | ok following =>
    obtain ⟨hpos, hnotes⟩ := hok following houtcome
    have hshorter : (task.takeUp pool data).rest.length < length := by
      rw [← hlength, congrArg List.length hdata, List.length_append]
      omega
    obtain ⟨steps, more, hrun, hrest, hsteps, hmore⟩ :=
      ih _ hshorter (following ++ waiting) (task.takeUp pool data).rest rfl
    rw [readAll_cons_of_ok houtcome]
    refine ⟨steps + 1, taken ++ more, ?_, ?_, ?_, ?_⟩
    · simp only [runAgenda, houtcome, hrun, Option.map_some, prefixed]
    · rw [List.append_assoc]
      exact hdata.trans (congrArg (taken ++ ·) hrest)
    · rw [List.length_append]
      omega
    · rw [prefixed, List.length_append, List.length_append]
      omega

/-- **Reading annotations**, for any data, start and pool, with no bound on how deep values are
nested: the read comes to its end. It stops between its start and the end of the data. The tasks it
has taken up, failed or not, are no more than the bytes it has taken and one, whatever the counts
in the data say; and three times the descriptors that it notes are no more than that either. -/
theorem read_within (pool : Pool) (task : Task) (bytes : Bytes) (start : Nat) :
    ∃ steps stop,
      runAgenda pool steps [task] (bytes.drop start) = some (task.read pool (bytes.drop start)) ∧
      (task.read pool (bytes.drop start)).rest = bytes.drop stop ∧
      start ≤ stop ∧ stop ≤ max start bytes.length ∧ steps ≤ stop - start + 1 ∧
      3 * (task.read pool (bytes.drop start)).notes.length ≤ stop - start + 1 := by
  obtain ⟨steps, taken, hrun, hdata, hsteps, hnotes⟩ := runAgenda_eq pool [task] (bytes.drop start)
  rw [readAll_singleton] at hrun hdata hnotes
  have hlength : taken.length ≤ bytes.length - start := by
    rw [← List.length_drop, congrArg List.length hdata, List.length_append]
    exact Nat.le_add_right ..
  refine ⟨steps, start + taken.length, hrun, ?_, Nat.le_add_right .., ?_, ?_, ?_⟩
  · rw [← List.drop_drop, congrArg (List.drop taken.length) hdata, List.drop_left]
  · omega
  · omega
  · omega

end JarGraph.ClassFile
