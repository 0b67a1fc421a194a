import JarGraph.Proofs.Signature.Reading
import JarGraph.Proofs.Text.Position
import JarGraph.Signature.Cursor
/-!
# Reading signatures by positions

The descent over byte positions answers with what the scan of characters
finds, or refuses what that refuses; it never stops at a wrong position and
never for want of rounds (`classNamesByPosition_eq`). `Follows` ties a
procedure to two states of the scan: from a cursor between two characters
it comes to one between two characters again, with the names that the scan
brings on the way. Inside a character the cursor only stands while a name
is passed, and a name ends at a mark of ASCII.
-/

namespace JarGraph.Signature

open Text Scanner

variable {text : String} {cs rest : List Char} {position k l : Nat} {c mark : Char}
variable {α : Type} {cursor next : Cursor} {s s' t : State} {p q : Scanner Unit}
variable {owners : List (List Char)} {place : Place} {data : Bytes} {b : UInt8}

/-- A position of a text between two characters, with what stands behind it. -/
def At (text : String) (position : Nat) (rest : List Char) : Prop :=
  ∃ before, text.toList = before ++ rest ∧ size before = position

namespace At

theorem start (text : String) : At text 0 text.toList :=
  ⟨[], rfl, rfl⟩

theorem append {part : List Char} (h : At text position (part ++ rest)) :
    At text (position + size part) rest := by
  obtain ⟨before, htext, rfl⟩ := h
  exact ⟨before ++ part, by rw [htext, List.append_assoc], size_append before part⟩

/-- The bytes from the position on. -/
theorem drop_encoded (h : At text position rest) :
    (encoded text.toList).drop position = encoded rest := by
  obtain ⟨before, htext, rfl⟩ := h
  rw [htext, encoded_append, ← length_encoded, List.drop_left]

theorem length_lt_limit (h : At text position rest) : rest.length < limit text := by
  obtain ⟨before, htext, -⟩ := h
  have hsize := length_le_size text.toList
  rw [htext, List.length_append] at hsize
  rw [limit, htext]
  omega

end At

/-! ## Steps of a scanner -/

theorem bind_of_ok {β : Type} {p : Scanner α} {f : α → Scanner β} {a : α}
    (h : p cursor = .ok (a, next)) :
    (p >>= f) cursor = f a next := by
  show Except.bind (p cursor) _ = _
  rw [h]
  rfl

theorem bind_of_error {β : Type} {p : Scanner α} {f : α → Scanner β}
    {stop : Stop ClassFile.Error} (h : p cursor = .error stop) :
    (p >>= f) cursor = .error stop := by
  show Except.bind (p cursor) _ = _
  rw [h]
  rfl

theorem peek_of_drop (h : (encoded text.toList).drop cursor.position = data) :
    peek text cursor = .ok (data.head?, cursor) := by
  rw [← h, List.head?_drop]
  rfl

theorem bump_of_drop (h : (encoded text.toList).drop cursor.position = b :: data) :
    bump text cursor = .ok (b, { cursor with position := cursor.position + 1 }) :=
  bind_of_ok (peek_of_drop h)

theorem bump_of_drop_nil (h : (encoded text.toList).drop cursor.position = []) :
    bump text cursor = .error (.refused (.badSignature text)) :=
  bind_of_ok (peek_of_drop h)

/-- What stands behind the byte at a position. -/
theorem drop_succ (h : (encoded text.toList).drop position = b :: data) :
    (encoded text.toList).drop (position + 1) = data := by
  rw [← List.drop_drop, h]
  rfl

/-- A procedure takes some characters, at least `k`, as the scan does between two states, or refuses
what the scan refuses. -/
def Follows (text : String) (p : Scanner Unit) (k : Nat) (s : State) (cs : List Char)
    (s' : State) : Prop :=
  ∀ cursor, At text cursor.position cs →
    (p cursor = .error (.refused (.badSignature text)) ∧ scan s cs = none) ∨
      ∃ next rest found, p cursor = .ok ((), next) ∧ At text next.position rest ∧
        rest.length + k ≤ cs.length ∧ next.names = cursor.names ++ found.map String.ofList ∧
        scan s cs = (scan s' rest).map (found ++ ·)

namespace Follows

theorem pure (h : scan s cs = scan s' cs) : Follows text (pure ()) 0 s cs s' := by
  intro cursor hat
  refine .inr ⟨cursor, cs, [], rfl, hat, Nat.le_refl _, (List.append_nil _).symm, ?_⟩
  rw [h]
  simp

theorem refuse (h : scan s cs = none) : Follows text (refuse text) k s cs s' :=
  fun _ _ => .inl ⟨rfl, h⟩

theorem congr (h : scan s cs = scan t cs) (ht : Follows text p k t cs s') :
    Follows text p k s cs s' := by
  intro cursor hat
  rw [h]
  exact ht cursor hat

theorem mono (h : Follows text p k s cs s') (hl : l ≤ k) : Follows text p l s cs s' := by
  intro cursor hat
  refine (h cursor hat).imp_right ?_
  rintro ⟨next, rest, found, hp, hnext, hlength, hrest⟩
  exact ⟨next, rest, found, hp, hnext, by omega, hrest⟩

/-- Two procedures in a row. -/
theorem bind (h : Follows text p k s cs t)
    (h' : ∀ rest, rest.length + k ≤ cs.length → Follows text q l t rest s') :
    Follows text (p >>= fun _ => q) (k + l) s cs s' := by
  intro cursor hat
  rcases h cursor hat with ⟨hp, hnone⟩ | ⟨next, rest, found, hp, hnext, hlength, hnames, hscan⟩
  · exact .inl ⟨bind_of_error hp, hnone⟩
  rcases h' rest hlength next hnext with
    ⟨hq, hnone⟩ | ⟨last, rest', more, hq, hlast, hlength', hnames', hscan'⟩
  · exact .inl ⟨(bind_of_ok hp).trans hq, by rw [hscan, hnone]; rfl⟩
  · refine .inr ⟨last, rest', found ++ more, (bind_of_ok hp).trans hq, hlast, by omega, ?_, ?_⟩
    · rw [hnames', hnames, List.map_append, List.append_assoc]
    · rw [hscan, hscan', Option.map_map]
      simp [Function.comp_def]

/-- The next byte, which is the first of the next character. -/
theorem peek {f : Option UInt8 → Scanner Unit} (h : Follows text (f (encoded cs).head?) k s cs s') :
    Follows text (peek text >>= f) k s cs s' := by
  intro cursor hat
  rw [bind_of_ok (peek_of_drop hat.drop_encoded)]
  exact h cursor hat

end Follows

/-- A character of ASCII is one byte. -/
theorem At.of_cons (hc : c.toNat < 0x80) (h : At text position (c :: rest)) :
    At text (position + 1) rest := by
  have hrest : At text (position + size [c]) rest := At.append h
  rwa [size_singleton hc] at hrest

theorem scan_cons (h : step s c = some (t, none)) (rest : List Char) :
    scan s (c :: rest) = scan t rest := by
  rw [scan, h]
  simp

namespace Follows

variable {f : UInt8 → Scanner Unit}

theorem bump_nil (h : scan s [] = none) : Follows text (bump text >>= f) k s [] s' :=
  fun _ hat => .inl ⟨bind_of_error (bump_of_drop_nil hat.drop_encoded), h⟩

/-- A mark that is taken. -/
theorem bump (hc : c.toNat < 0x80) (h : scan s (c :: rest) = scan t rest)
    (ht : Follows text (f c.toUInt8) k t rest s') :
    Follows text (bump text >>= f) (k + 1) s (c :: rest) s' := by
  intro cursor hat
  have hbytes : encoded (c :: rest) = c.toUInt8 :: encoded rest := by
    rw [encoded_cons, utf8EncodeChar_eq_singleton hc, List.singleton_append]
  rw [bind_of_ok (bump_of_drop (hat.drop_encoded.trans hbytes)), h]
  refine (ht _ (hat.of_cons hc)).imp_right ?_
  rintro ⟨next, rest', found, hf, hnext, hlength, hrest⟩
  exact ⟨next, rest', found, hf, hnext, Nat.succ_le_succ hlength, hrest⟩

/-- A byte that is taken and refused. -/
theorem bump_refused (h : scan s (c :: rest) = none)
    (hf : ∀ b ∈ String.utf8EncodeChar c, f b = Scanner.refuse text) :
    Follows text (Scanner.bump text >>= f) k s (c :: rest) s' := by
  intro cursor hat
  obtain ⟨b, hb, more, hbytes⟩ := exists_encoded_cons c rest
  rw [bind_of_ok (bump_of_drop (hat.drop_encoded.trans hbytes)), hf b hb]
  exact .inl ⟨rfl, h⟩

/-- A mark that is taken and given back. -/
theorem bump_back (hc : c.toNat < 0x80) (hf : f c.toUInt8 = back >>= fun _ => q)
    (h : Follows text q k s (c :: rest) s') :
    Follows text (Scanner.bump text >>= f) k s (c :: rest) s' := by
  intro cursor hat
  have hbytes : encoded (c :: rest) = c.toUInt8 :: encoded rest := by
    rw [encoded_cons, utf8EncodeChar_eq_singleton hc, List.singleton_append]
  have hback : back { cursor with position := cursor.position + 1 } = .ok ((), cursor) := rfl
  rw [bind_of_ok (bump_of_drop (hat.drop_encoded.trans hbytes)), hf, bind_of_ok hback]
  exact h cursor hat

/-- A mark that has to be there, and is. -/
theorem expect (hmark : mark.toNat < 0x80) (h : scan s (mark :: rest) = scan t rest) :
    Follows text (expect text mark) 1 s (mark :: rest) t := by
  refine .bump hmark h ?_
  rw [isOneOf_singleton_self hmark]
  exact .pure rfl

end Follows

/-! ## Loops -/

/-- A loop whose rounds lead back to its state, and what follows at its end. -/
theorem follows_whilePeek_bind {holds : Option UInt8 → Bool} {body : Scanner Unit} {rounds : Nat}
    (hrounds : cs.length < rounds)
    (hbody : ∀ rest, rest.length ≤ cs.length → holds (encoded rest).head? = true →
      Follows text body 1 s rest s)
    (hexit : ∀ rest, rest.length ≤ cs.length → holds (encoded rest).head? = false →
      Follows text q k s rest s') :
    Follows text (whilePeek text holds body rounds >>= fun _ => q) k s cs s' := by
  induction rounds generalizing cs with
  | zero => exact absurd hrounds (Nat.not_lt_zero _)
  | succ rounds ih =>
    rw [whilePeek, bind_assoc]
    refine .peek ?_
    cases hholds : holds (encoded cs).head? with
    | false =>
      rw [if_neg Bool.false_ne_true, pure_bind]
      exact hexit cs (Nat.le_refl _) hholds
    | true =>
      rw [if_pos rfl, bind_assoc]
      refine .mono (.bind (hbody cs (Nat.le_refl _) hholds) fun rest hrest => ?_)
        (Nat.le_add_left k 1)
      exact ih (by omega) (fun part hpart => hbody part (by omega))
        (fun part hpart => hexit part (by omega))

namespace Follows

variable {holds : Option UInt8 → Bool} {body : Scanner Unit}

theorem whilePeek_bind
    (hbody : ∀ rest, rest.length ≤ cs.length → holds (encoded rest).head? = true →
      Follows text body 1 s rest s)
    (hexit : ∀ rest, rest.length ≤ cs.length → holds (encoded rest).head? = false →
      Follows text q k s rest s') :
    Follows text (whilePeek text holds body (limit text) >>= fun _ => q) k s cs s' :=
  fun cursor hat => follows_whilePeek_bind hat.length_lt_limit hbody hexit cursor hat

/-- A loop with nothing behind it. -/
theorem whilePeek
    (hbody : ∀ rest, rest.length ≤ cs.length → holds (encoded rest).head? = true →
      Follows text body 1 s rest s)
    (hexit : ∀ rest, rest.length ≤ cs.length → holds (encoded rest).head? = false →
      scan s rest = scan s' rest) :
    Follows text (Scanner.whilePeek text holds body (limit text)) 0 s cs s' := by
  have h := whilePeek_bind hbody fun rest hrest hholds => .pure (hexit rest hrest hholds)
  rwa [bind_pure_unit] at h

end Follows

/-- Bytes that are no mark are passed. -/
theorem whilePeek_advance {marks : List Char} {rounds : Nat}
    (h : (encoded text.toList).drop cursor.position = data) (hrounds : data.length < rounds) :
    whilePeek text (fun next => next.isSome && !isAt marks next) advance rounds cursor =
      .ok ((), { cursor with
        position := cursor.position + (data.takeWhile fun b => !isOneOf marks b).length }) := by
  induction rounds generalizing cursor data with
  | zero => exact absurd hrounds (Nat.not_lt_zero _)
  | succ rounds ih =>
    rw [whilePeek, bind_of_ok (peek_of_drop h)]
    obtain _ | ⟨b, data⟩ := data
    · rfl
    have hholds : ((some b).isSome && !isAt marks (some b)) = !isOneOf marks b := rfl
    rw [List.head?_cons, hholds, List.takeWhile_cons]
    cases hb : isOneOf marks b with
    | true => rfl
    | false =>
      have hstep := @ih { cursor with position := cursor.position + 1 } data (drop_succ h)
        (Nat.lt_of_succ_lt_succ hrounds)
      rw [Bool.not_false, if_pos rfl, if_pos rfl, List.length_cons]
      have hadvance : advance cursor =
          .ok ((), { cursor with position := cursor.position + 1 }) := rfl
      rw [bind_of_ok hadvance, hstep, Nat.add_assoc, Nat.add_comm 1]

/-- Bytes up to a mark are taken, and the mark. -/
theorem bumpThrough_of_mem {front : Bytes} {rounds : Nat}
    (h : (encoded text.toList).drop cursor.position = front ++ b :: data)
    (hb : isOneOf [mark] b = true) (hfront : ∀ a ∈ front, isOneOf [mark] a = false)
    (hrounds : front.length < rounds) :
    bumpThrough text mark rounds cursor =
      .ok ((), { cursor with position := cursor.position + (front.length + 1) }) := by
  induction rounds generalizing cursor front with
  | zero => exact absurd hrounds (Nat.not_lt_zero _)
  | succ rounds ih =>
    rw [bumpThrough]
    obtain _ | ⟨a, front⟩ := front
    · rw [bind_of_ok (bump_of_drop h), if_pos hb]
      rfl
    · obtain ⟨ha, hmore⟩ := List.forall_mem_cons.1 hfront
      have hstep := @ih { cursor with position := cursor.position + 1 } front (drop_succ h) hmore
        (Nat.lt_of_succ_lt_succ hrounds)
      rw [bind_of_ok (bump_of_drop h), if_neg (Bool.eq_false_iff.1 ha), hstep, List.length_cons,
        Nat.add_assoc, Nat.add_comm 1]

/-- Without the mark the text ends too early. -/
theorem bumpThrough_of_not_mem {rounds : Nat}
    (h : (encoded text.toList).drop cursor.position = data)
    (hdata : ∀ a ∈ data, isOneOf [mark] a = false) (hrounds : data.length < rounds) :
    bumpThrough text mark rounds cursor = .error (.refused (.badSignature text)) := by
  induction rounds generalizing cursor data with
  | zero => exact absurd hrounds (Nat.not_lt_zero _)
  | succ rounds ih =>
    rw [bumpThrough]
    obtain _ | ⟨a, data⟩ := data
    · exact bind_of_error (bump_of_drop_nil h)
    · obtain ⟨ha, hmore⟩ := List.forall_mem_cons.1 hdata
      rw [bind_of_ok (bump_of_drop h), if_neg (Bool.eq_false_iff.1 ha)]
      exact ih (drop_succ h) hmore (Nat.lt_of_succ_lt_succ hrounds)

/-- The bytes of characters that are no mark are no mark. -/
theorem isOneOf_of_mem_encoded (hmark : mark.toNat < 0x80) (h : mark ∉ cs) :
    ∀ a ∈ encoded cs, isOneOf [mark] a = false := by
  intro a ha
  obtain ⟨c, hc, hmem⟩ := List.mem_flatMap.1 ha
  exact isOneOf_singleton_eq_false hmark hmem fun heq => h (heq ▸ hc)

theorem At.length_encoded_lt_limit (h : At text position cs) :
    (encoded cs).length < limit text := by
  obtain ⟨before, htext, -⟩ := h
  rw [length_encoded, limit, htext, size_append]
  omega

/-- Characters up to a mark are taken, and the mark. -/
theorem Follows.bumpThrough (hmark : mark.toNat < 0x80)
    (h : ∀ front rest, cs = front ++ mark :: rest → mark ∉ front → scan s cs = scan t rest)
    (hnone : mark ∉ cs → scan s cs = none) :
    Follows text (bumpThrough text mark (limit text)) 1 s cs t := by
  intro cursor hat
  have hlimit := hat.length_encoded_lt_limit
  by_cases hmem : mark ∈ cs
  · obtain ⟨front, rest, rfl, hfront⟩ := List.eq_append_cons_of_mem hmem
    have hbytes : encoded (front ++ mark :: rest) =
        encoded front ++ mark.toUInt8 :: encoded rest := by
      rw [encoded_append, encoded_cons, utf8EncodeChar_eq_singleton hmark, List.singleton_append]
    have hfits : (encoded front).length < limit text := by
      rw [hbytes, List.length_append] at hlimit
      omega
    have hbump := bumpThrough_of_mem (hat.drop_encoded.trans hbytes) (isOneOf_singleton_self hmark)
      (isOneOf_of_mem_encoded hmark hfront) hfits
    refine .inr ⟨_, rest, [], hbump, ?_, ?_, (List.append_nil _).symm, ?_⟩
    · show At text (cursor.position + ((encoded front).length + 1)) rest
      rw [length_encoded, ← Nat.add_assoc]
      exact (At.append hat).of_cons hmark
    · rw [List.length_append, List.length_cons]
      omega
    · rw [h front rest rfl hfront]
      simp
  · exact .inl ⟨bumpThrough_of_not_mem hat.drop_encoded (isOneOf_of_mem_encoded hmark hmem) hlimit,
      hnone hmem⟩

/-! ## Names -/

theorem endsName_eq (c : Char) : endsName c = decide (c ∈ nameEnds) :=
  List.contains_eq_mem c nameEnds

/-- The characters of a name are taken, and no more. -/
theorem takeWhile_name {own : List Char} (hown : ∀ c ∈ own, endsName c = false)
    (hrest : ∀ c ∈ rest.head?, endsName c = true) :
    (own ++ rest).takeWhile (fun c => !decide (c ∈ nameEnds)) = own := by
  have hpos : ∀ c ∈ own, (!decide (c ∈ nameEnds)) = true := fun c hc => by
    rw [← endsName_eq, hown c hc]
    rfl
  rw [List.takeWhile_append_of_pos hpos]
  obtain _ | ⟨c, rest⟩ := rest
  · exact List.append_nil own
  · rw [List.takeWhile_cons, ← endsName_eq, hrest c rfl]
    exact List.append_nil own

/-- A name is cut out between two characters, unless nothing stands before what ends it. -/
theorem identifier_of_at {own : List Char} (h : At text cursor.position (own ++ rest))
    (hown : ∀ c ∈ own, endsName c = false) (hrest : ∀ c ∈ rest.head?, endsName c = true) :
    identifier text cursor =
      if own = [] then .error (.refused (.badSignature text))
      else .ok (own, { cursor with position := cursor.position + size own }) := by
  have hmarks : AreAscii nameEnds := by decide
  have hpass : whilePeek text (fun next => next.isSome && !isAt nameEnds next) advance (limit text)
      cursor = .ok ((), { cursor with position := cursor.position + size own }) := by
    rw [whilePeek_advance h.drop_encoded h.length_encoded_lt_limit, takeWhile_encoded hmarks,
      takeWhile_name hown hrest, length_encoded]
  have hget : ∀ cursor : Cursor, (get : Scanner Cursor) cursor = .ok (cursor, cursor) :=
    fun _ => rfl
  unfold identifier
  rw [bind_of_ok (hget cursor), bind_of_ok hpass, bind_of_ok (hget _)]
  obtain ⟨before, htext, hposition⟩ := h
  by_cases hnil : own = []
  · have hsize : cursor.position + size [] = cursor.position := rfl
    rw [if_pos hnil, hnil]
    dsimp only
    rw [if_pos hsize]
    rfl
  · have hsize : cursor.position + size own ≠ cursor.position := by
      have := mt size_eq_zero.1 hnil
      omega
    rw [if_neg hnil]
    dsimp only
    rw [if_neg hsize, htext, ← hposition, slice_size]
    rfl

/-- Behind a name the scan stands as behind the class, and has found it. -/
theorem scan_name_end {outer own : List Char} (hown : own ≠ [])
    (hrest : ∀ c ∈ rest.head?, endsName c = true) :
    scan (.inType (.name outer own.reverse) owners place) rest =
      (scan (.inType (.class (outer ++ own)) owners place) rest).map ([outer ++ own] ++ ·) := by
  obtain _ | ⟨c, rest⟩ := rest
  · rfl
  have hreverse : own.reverse ≠ [] := mt List.reverse_eq_nil_iff.1 hown
  rw [scan, scan]
  simp only [step, stepType, if_pos (hrest c rfl), if_neg hreverse, List.reverse_reverse]
  cases afterClass (outer ++ own) owners place c with
  | none => rfl
  | some next => simp

/-- Where no name stands the scan refuses. -/
theorem scan_name_nil {outer : List Char} (hrest : ∀ c ∈ rest.head?, endsName c = true) :
    scan (.inType (.name outer []) owners place) rest = none := by
  obtain _ | ⟨c, rest⟩ := rest
  · rfl
  rw [scan]
  simp [step, stepType, hrest c rfl]

/-- A name and what ends it. -/
theorem exists_name (cs : List Char) :
    ∃ own rest, cs = own ++ rest ∧ (∀ c ∈ own, endsName c = false) ∧
      ∀ c ∈ rest.head?, endsName c = true := by
  induction cs with
  | nil => exact ⟨[], [], rfl, nofun, nofun⟩
  | cons c cs ih =>
    cases hc : endsName c with
    | true =>
      refine ⟨[], c :: cs, rfl, nofun, fun d hd => ?_⟩
      obtain rfl := Option.some.inj hd
      exact hc
    | false =>
      obtain ⟨own, rest, rfl, hown, hrest⟩ := ih
      exact ⟨c :: own, rest, rfl, List.forall_mem_cons.2 ⟨hc, hown⟩, hrest⟩

/-- The name of a class behind what stands before it, and what comes after it. -/
theorem Follows.className {outer : List Char} {f : List Char → Scanner Unit}
    (h : ∀ own rest, rest.length + 1 ≤ cs.length →
      Follows text (f (outer ++ own)) k (.inType (.class (outer ++ own)) owners place) rest s') :
    Follows text (className text outer >>= f) (k + 1) (.inType (.name outer []) owners place) cs
      s' := by
  intro cursor hat
  obtain ⟨own, rest, rfl, hown, hrest⟩ := exists_name cs
  have hidentifier := identifier_of_at hat hown hrest
  by_cases hnil : own = []
  · rw [if_pos hnil] at hidentifier
    refine .inl ⟨bind_of_error (bind_of_error hidentifier), ?_⟩
    rw [hnil]
    exact scan_name_nil hrest
  rw [if_neg hnil] at hidentifier
  have hclassName : Scanner.className text outer cursor = .ok (outer ++ own,
      ⟨cursor.position + size own, cursor.names ++ [String.ofList (outer ++ own)]⟩) :=
    bind_of_ok hidentifier
  have hscan : scan (.inType (.name outer []) owners place) (own ++ rest) =
      (scan (.inType (.class (outer ++ own)) owners place) rest).map ([outer ++ own] ++ ·) := by
    rw [leads_name outer [] hown rest, List.append_nil, scan_name_end hnil hrest, Option.map_map]
    rfl
  have hlength : rest.length + 1 ≤ (own ++ rest).length := by
    have := List.length_pos_iff.2 hnil
    rw [List.length_append]
    omega
  rw [bind_of_ok hclassName, hscan]
  have hfollows := h own rest hlength
    ⟨cursor.position + size own, cursor.names ++ [String.ofList (outer ++ own)]⟩ hat.append
  rcases hfollows with ⟨hf, hnone⟩ | ⟨next, last, found, hf, hnext, hk, hnames, hlast⟩
  · exact .inl ⟨hf, by rw [hnone]; rfl⟩
  · refine .inr ⟨next, last, (outer ++ own) :: found, hf, hnext, by omega, ?_, ?_⟩
    · rw [hnames, List.append_assoc]
      rfl
    · rw [hlast, Option.map_map]
      rfl

/-! ## Types -/

/-- A procedure reads types that are not primitive from texts that are shorter than a bound. -/
def ReadsTypes (text : String) (reference : Scanner Unit) (n : Nat) : Prop :=
  ∀ cs, cs.length < n → ∀ owners place,
    Follows text reference 1 (.inType .reference owners place) cs (afterType owners place)

variable {reference : Scanner Unit} {n : Nat} {name : List Char}

theorem scan_congr (h : step s c = step t c) (rest : List Char) :
    scan s (c :: rest) = scan t (c :: rest) := by
  rw [scan, scan, h]

theorem follows_typeSignature (hreference : ReadsTypes text reference n) (hcs : cs.length < n) :
    Follows text (typeSignature text reference) 1 (.inType .type owners place) cs
      (afterType owners place) := by
  have hmarks : AreAscii primitives := by decide
  refine .peek ?_
  by_cases h : isAt primitives (encoded cs).head? = true
  · obtain ⟨c, rest, rfl, hc⟩ := (isAt_encoded hmarks cs).1 h
    have hprimitive : isPrimitive c = true := List.contains_iff_mem.2 hc
    rw [if_pos h]
    refine .bump (hmarks c hc) (scan_cons ?_ rest) (.pure rfl)
    simp [step, stepType, openType, hprimitive]
  · rw [if_neg h]
    refine .congr ?_ (hreference cs hcs owners place)
    obtain _ | ⟨c, rest⟩ := cs
    · rfl
    · have hprimitive : ¬ isPrimitive c = true := fun hc =>
        h ((isAt_encoded hmarks _).2 ⟨c, rest, rfl, List.contains_iff_mem.1 hc⟩)
      refine scan_congr ?_ rest
      simp only [step, stepType, openType, if_neg hprimitive]

/-- One type argument of a class. -/
theorem follows_typeArgument (hreference : ReadsTypes text reference n) (hcs : cs.length < n)
    (hclose : isAt ['>'] (encoded cs).head? = false) :
    Follows text (typeArgument text reference) 1 (.inType (.arguments name) owners place) cs
      (.inType (.arguments name) owners place) := by
  refine .peek ?_
  by_cases hany : isAt ['*'] (encoded cs).head? = true
  · obtain ⟨rest, rfl⟩ := exists_cons_of_isAt (by decide) hany
    rw [if_pos hany]
    exact .bump (by decide) (scan_cons rfl rest) (.pure rfl)
  rw [if_neg hany]
  by_cases hbound : isAt ['+', '-'] (encoded cs).head? = true
  · obtain ⟨c, rest, rfl, hc⟩ := (isAt_encoded (by decide) cs).1 hbound
    have hstep : step (.inType (.arguments name) owners place) c =
        some (.inType .reference (name :: owners) place, none) := by
      simp only [List.mem_cons, List.not_mem_nil, or_false] at hc
      rcases hc with rfl | rfl <;> rfl
    rw [if_pos hbound]
    refine .mono (.bump ?_ (scan_cons hstep rest) (hreference rest ?_ _ _)) (Nat.le_add_left 1 1)
    · exact (by decide : AreAscii ['+', '-']) c hc
    · exact Nat.lt_of_succ_lt hcs
  rw [if_neg hbound]
  refine .congr ?_ (hreference cs hcs (name :: owners) place)
  obtain _ | ⟨c, rest⟩ := cs
  · rfl
  refine scan_congr ?_ rest
  rw [isAt_encoded_cons (by decide)] at hclose hany hbound
  simp only [decide_eq_true_eq, decide_eq_false_iff_not, List.mem_cons, List.not_mem_nil, or_false]
    at hclose hany hbound
  simp only [step, stepType, if_neg hclose, if_neg hany, if_neg hbound]

/-- Type arguments in their brackets stand behind a class, which they leave as it is. -/
theorem follows_typeArguments (hreference : ReadsTypes text reference n)
    (hcs : rest.length < n) :
    Follows text (typeArguments text reference) 1 (.inType (.class name) owners place)
      ('<' :: rest) (.inType (.class name) owners place) := by
  have hopen : Follows text (expect text '<') 1 (.inType (.class name) owners place)
      ('<' :: rest) (.inType (.arguments name) owners place) :=
    .expect (by decide) (scan_cons rfl rest)
  refine .mono (.bind hopen fun part hpart => ?_) (Nat.le_add_right 1 0)
  rw [List.length_cons] at hpart
  refine .whilePeek_bind (fun more hmore hholds => ?_) fun more _ hholds => ?_
  · exact follows_typeArgument hreference (by omega) (Bool.not_eq_true' _ ▸ hholds)
  · obtain ⟨last, rfl⟩ := exists_cons_of_isAt (by decide) (Bool.not_eq_false' _ ▸ hholds)
    exact .mono (.expect (by decide) (scan_cons rfl last)) (Nat.zero_le 1)

/-- What comes after the name of a class, up to the end of the type. -/
theorem follows_classRest (hreference : ReadsTypes text reference n) {rounds : Nat}
    (hrounds : cs.length < rounds) (hcs : cs.length ≤ n) :
    Follows text (classRest text reference rounds name) 1 (.inType (.class name) owners place) cs
      (afterType owners place) := by
  induction rounds generalizing cs name with
  | zero => exact absurd hrounds (Nat.not_lt_zero _)
  | succ rounds ih =>
    obtain _ | ⟨c, rest⟩ := cs
    · exact .bump_nil rfl
    rw [List.length_cons] at hrounds hcs
    by_cases hend : c = ';'
    · subst hend
      exact .mono (.bump (by decide) (scan_cons rfl rest) (.pure rfl)) (Nat.le_refl 1)
    by_cases hopen : c = '<'
    · subst hopen
      refine .bump_back (by decide) rfl ?_
      refine .mono (.bind (follows_typeArguments hreference hcs) fun part hpart => ?_)
        (Nat.le_add_right 1 1)
      rw [List.length_cons] at hpart
      exact ih (by omega) (by omega)
    by_cases hdot : c = '.'
    · subst hdot
      refine .mono (.bump (by decide) (scan_cons rfl rest) ?_) (Nat.le_add_left 1 1)
      refine .mono (.className fun own part hpart => ?_) (Nat.le_add_left 1 1)
      exact ih (by omega) (by omega)
    · refine .bump_refused ?_ fun b hb => ?_
      · rw [scan]
        simp [step, stepType, afterClass, hend, hopen, hdot]
      · rw [isOneOf_singleton_eq_false (by decide) hb hend,
          isOneOf_singleton_eq_false (by decide) hb hopen,
          isOneOf_singleton_eq_false (by decide) hb hdot]
        rfl

/-- A class type. -/
theorem follows_classType (hreference : ReadsTypes text reference n) (hcs : rest.length ≤ n) :
    Follows text (classType text reference) 1 (.inType .reference owners place) ('L' :: rest)
      (afterType owners place) := by
  have hletter : Follows text (expect text 'L') 1 (.inType .reference owners place) ('L' :: rest)
      (.inType (.name [] []) owners place) := .expect (by decide) (scan_cons rfl rest)
  refine .mono (.bind hletter fun part hpart => ?_) (Nat.le_add_right 1 1)
  rw [List.length_cons] at hpart
  refine .mono (.className fun own more hmore => ?_) (Nat.le_add_left 1 1)
  exact fun cursor hat =>
    follows_classRest hreference hat.length_lt_limit (by omega) cursor hat

/-- What is passed up to a mark, from a first character on. -/
theorem Follows.bumpThrough_of_stay {u : State} (hmark : mark.toNat < 0x80)
    (hfirst : ∀ c ∈ cs.head?, step s c = some (if c = mark then t else u, none))
    (hmore : ∀ c, step u c = some (if c = mark then t else u, none))
    (hs : scan s [] = none) (hu : scan u [] = none) :
    Follows text (Scanner.bumpThrough text mark (limit text)) 1 s cs t := by
  have hstay : ∀ front, mark ∉ front → ∀ rest, scan u (front ++ rest) = scan u rest := by
    intro front hfront rest
    have hleads : Leads u front [] u := .stay fun c hc => by
      have hne : c ≠ mark := fun heq => hfront (heq ▸ hc)
      rw [hmore c, if_neg hne]
    rw [hleads rest]
    simp
  refine .bumpThrough hmark (fun front rest hcs hfront => ?_) fun hnone => ?_
  · obtain _ | ⟨c, front⟩ := front
    · rw [List.nil_append] at hcs
      subst hcs
      exact scan_cons (by rw [hfirst mark rfl, if_pos rfl]) rest
    · obtain ⟨hc, hfront⟩ := not_or.1 (mt List.mem_cons.2 hfront)
      subst hcs
      have hstep := hfirst c rfl
      rw [if_neg (Ne.symm hc)] at hstep
      rw [List.cons_append, scan_cons hstep, hstay front hfront]
      exact scan_cons (by rw [hmore mark, if_pos rfl]) rest
  · obtain _ | ⟨c, rest⟩ := cs
    · exact hs
    · obtain ⟨hc, hrest⟩ := not_or.1 (mt List.mem_cons.2 hnone)
      have hstep := hfirst c rfl
      rw [if_neg (Ne.symm hc)] at hstep
      have hend := hstay rest hrest []
      rw [List.append_nil] at hend
      rw [scan_cons hstep, hend, hu]

/-- A type variable, from its letter on. -/
theorem follows_variable :
    Follows text (bumpThrough text ';' (limit text)) 1 (.inType .reference owners place)
      ('T' :: rest) (afterType owners place) := by
  have hname : ∀ c, step (.inType .variable owners place) c =
      some (if c = ';' then afterType owners place else .inType .variable owners place, none) :=
    fun _ => rfl
  refine .bumpThrough_of_stay (by decide) (fun c hc => ?_) hname rfl rfl
  obtain rfl := Option.some.inj hc
  rfl

/-- **Types that are not primitive** are read up to any depth that the text has room for. -/
theorem readsTypes_referenceTypeWithin (text : String) (depth : Nat) :
    ReadsTypes text (referenceTypeWithin text depth) depth := by
  induction depth with
  | zero => exact fun _ h => absurd h (Nat.not_lt_zero _)
  | succ depth ih =>
    intro cs hcs owners place
    refine .peek ?_
    obtain _ | ⟨c, rest⟩ := cs
    · exact .refuse rfl
    rw [List.length_cons] at hcs
    rw [isAt_encoded_cons (by decide), isAt_encoded_cons (by decide),
      isAt_encoded_cons (by decide)]
    by_cases hclass : c = 'L'
    · subst hclass
      rw [if_pos (by decide)]
      exact follows_classType ih (Nat.le_of_lt_succ (Nat.lt_of_succ_lt hcs))
    rw [if_neg (by simpa using hclass)]
    by_cases hvariable : c = 'T'
    · subst hvariable
      rw [if_pos (by decide)]
      exact follows_variable
    rw [if_neg (by simpa using hvariable)]
    by_cases harray : c = '['
    · subst harray
      rw [if_pos (by decide)]
      refine .mono (.bump (by decide) (scan_cons rfl rest) ?_) (Nat.le_add_left 1 1)
      exact follows_typeSignature ih (Nat.lt_of_succ_lt_succ hcs)
    · rw [if_neg (by simpa using harray)]
      refine .refuse ?_
      rw [scan]
      simp [step, stepType, openReference, hclass, hvariable, harray]

/-- A type that is not primitive is read from any text. -/
theorem follows_referenceType :
    Follows text (referenceType text) 1 (.inType .reference owners place) cs
      (afterType owners place) :=
  fun cursor hat => readsTypes_referenceTypeWithin text (limit text) cs hat.length_lt_limit owners
    place cursor hat

/-! ## Signatures -/

/-- A type behind a mark that leads to it. -/
theorem follows_markedType (hmark : mark.toNat < 0x80)
    (hstep : step s mark = some (.inType .reference [] place, none)) :
    Follows text (markedType text) 1 s (mark :: rest) (afterType [] place) :=
  .mono (.bump hmark (scan_cons hstep rest) follows_referenceType) (Nat.le_add_left 1 1)

/-- Bounds of a type parameter, up to where the next one may start. -/
theorem follows_bounds : Follows text
    (whilePeek text (isAt [':']) (markedType text) (limit text)) 0 .moreBounds cs
    .parameterStart := by
  refine .whilePeek (fun rest _ hholds => ?_) fun rest _ hholds => ?_
  · have hbound : Follows text (markedType text) 1 .moreBounds rest (afterType [] .bound) := by
      obtain ⟨more, rfl⟩ := exists_cons_of_isAt (by decide) hholds
      exact follows_markedType (by decide) rfl
    exact hbound
  · obtain _ | ⟨c, rest⟩ := rest
    · rfl
    rw [isAt_singleton_cons (by decide), decide_eq_false_iff_not] at hholds
    exact scan_congr (by simp only [step, if_neg hholds]) rest

/-- A type parameter, from where one may start to where the next one may. -/
theorem follows_typeParameter (hclose : isAt ['>'] (encoded cs).head? = false) :
    Follows text (typeParameter text) 1 .parameterStart cs .parameterStart := by
  have hmore : ∀ c, step .parameterName c =
      some (if c = ':' then .classBound else .parameterName, none) := fun _ => rfl
  have hname : Follows text (bumpThrough text ':' (limit text)) 1 .parameterStart cs
      .classBound := by
    refine .bumpThrough_of_stay (by decide) (fun c hc => ?_) hmore rfl rfl
    obtain ⟨rest, rfl⟩ := List.head?_eq_some_iff.1 hc
    rw [isAt_singleton_cons (by decide), decide_eq_false_iff_not] at hclose
    simp only [step, stepParameterStart, if_neg hclose]
  refine .mono (.bind hname fun rest _ => .peek ?_) (Nat.le_add_right 1 0)
  dsimp only
  by_cases hclass : isAt ['L', '[', 'T'] (encoded rest).head? = true
  · rw [if_pos hclass]
    have htype : Follows text (referenceType text) 1 .classBound rest (afterType [] .bound) := by
      refine .congr ?_ follows_referenceType
      obtain ⟨c, part, rfl, hc⟩ := (isAt_encoded (by decide) rest).1 hclass
      simp only [List.mem_cons, List.not_mem_nil, or_false] at hc
      rcases hc with rfl | rfl | rfl <;> exact scan_congr rfl part
    exact .mono (.bind htype fun _ _ => follows_bounds) (Nat.zero_le _)
  · rw [if_neg hclass]
    refine .congr ?_ follows_bounds
    obtain _ | ⟨c, part⟩ := rest
    · rfl
    rw [isAt_encoded_cons (by decide)] at hclass
    simp only [decide_eq_true_eq, List.mem_cons, List.not_mem_nil, or_false, not_or] at hclass
    obtain ⟨hobject, harray, hvariable⟩ := hclass
    refine scan_congr ?_ part
    simp [step, openReference, hobject, harray, hvariable]

/-- Type parameters in their brackets. -/
theorem follows_typeParameters :
    Follows text (typeParameters text) 1 .start ('<' :: rest) .body := by
  have hopen : Follows text (expect text '<') 1 .start ('<' :: rest) .parameterStart :=
    .expect (by decide) (scan_cons rfl rest)
  refine .mono (.bind hopen fun part _ => ?_) (Nat.le_add_right 1 0)
  refine .whilePeek_bind (fun more _ hholds => ?_) fun more _ hholds => ?_
  · exact follows_typeParameter (Bool.not_eq_true' _ ▸ hholds)
  · obtain ⟨last, rfl⟩ := exists_cons_of_isAt (by decide) (Bool.not_eq_false' _ ▸ hholds)
    exact .mono (.expect (by decide) (scan_cons rfl last)) (Nat.zero_le 1)

/-- Where any type may stand, one is read. -/
theorem follows_type (hnil : scan s [] = none)
    (hs : ∀ c ∈ cs.head?, step s c = (openType owners place c).map (·, none)) :
    Follows text (typeSignature text (referenceType text)) 1 s cs (afterType owners place) := by
  have htype : Follows text (typeSignature text (referenceType text)) 1
      (.inType .type owners place) cs (afterType owners place) := fun cursor hat =>
    follows_typeSignature (readsTypes_referenceTypeWithin text (limit text)) hat.length_lt_limit
      cursor hat
  refine .congr ?_ htype
  obtain _ | ⟨c, rest⟩ := cs
  · exact hnil
  · exact scan_congr (hs c rfl) rest

/-- The parameter types of a method in their parentheses. -/
theorem follows_parameters : Follows text (parameters text) 0 .body ('(' :: rest) .result := by
  refine .mono (.bump (by decide) (scan_cons rfl rest) ?_) (Nat.zero_le 1)
  refine .whilePeek_bind (fun part _ hholds => ?_) fun part _ hholds => ?_
  · have htype : Follows text (typeSignature text (referenceType text)) 1 .parameters part
        (afterType [] .parameter) := by
      refine follows_type rfl fun c hc => ?_
      obtain ⟨last, rfl⟩ := List.head?_eq_some_iff.1 hc
      rw [isAt_singleton_cons (by decide), Bool.not_eq_true', decide_eq_false_iff_not] at hholds
      simp only [step, if_neg hholds]
    exact htype
  · obtain ⟨last, rfl⟩ := exists_cons_of_isAt (by decide) (Bool.not_eq_false' _ ▸ hholds)
    exact .mono (.bump (by decide) (scan_cons rfl last) (.pure rfl)) (Nat.zero_le 1)

/-- The result of a method, which may be nothing. -/
theorem follows_result : Follows text (result text) 1 .result cs .thrown := by
  refine .peek ?_
  by_cases hvoid : isAt ['V'] (encoded cs).head? = true
  · obtain ⟨rest, rfl⟩ := exists_cons_of_isAt (by decide) hvoid
    rw [if_pos hvoid]
    exact .bump (by decide) (scan_cons rfl rest) (.pure rfl)
  · have htype : Follows text (typeSignature text (referenceType text)) 1 .result cs
        (afterType [] .result) := by
      refine follows_type rfl fun c hc => ?_
      obtain ⟨more, rfl⟩ := List.head?_eq_some_iff.1 hc
      rw [isAt_singleton_cons (by decide), decide_eq_true_iff] at hvoid
      simp only [step, if_neg hvoid]
    rw [if_neg hvoid]
    exact htype

/-- What has to be the end of the text is one where it is passed. -/
theorem atEnd_of_ok (h : (p >>= fun _ => atEnd text) cursor = .ok ((), next)) :
    peek text next = .ok (none, next) := by
  rcases hp : p cursor with stop | ⟨⟨⟩, last⟩
  · rw [bind_of_error hp] at h
    cases h
  rw [bind_of_ok hp] at h
  have hpeek : peek text last = .ok ((encoded text.toList)[last.position]?, last) := rfl
  cases hbyte : (encoded text.toList)[last.position]? with
  | none =>
    rw [hbyte] at hpeek
    have hend : atEnd text last = .ok ((), last) := bind_of_ok hpeek
    rw [hend] at h
    obtain rfl := (Prod.mk.inj (Except.ok.inj h)).2
    exact hpeek
  | some b =>
    rw [hbyte] at hpeek
    have hend : atEnd text last = .error (.refused (.badSignature text)) := bind_of_ok hpeek
    rw [hend] at h
    cases h

/-- A procedure answers for the rest of a text with the names that the scan finds in it, or refuses
what the scan refuses. -/
def Ends (text : String) (p : Scanner Unit) (s : State) (cs : List Char) : Prop :=
  ∀ cursor, At text cursor.position cs →
    (p cursor).map (fun done => done.2.names) =
      match scan s cs with
      | some found => .ok (cursor.names ++ found.map String.ofList)
      | none => .error (.refused (.badSignature text))

namespace Ends

theorem congr (h : scan s cs = scan t cs) (ht : Ends text p t cs) : Ends text p s cs := by
  intro cursor hat
  rw [h]
  exact ht cursor hat

theorem peek {f : Option UInt8 → Scanner Unit} (h : Ends text (f (encoded cs).head?) s cs) :
    Ends text (Scanner.peek text >>= f) s cs := by
  intro cursor hat
  rw [bind_of_ok (peek_of_drop hat.drop_encoded)]
  exact h cursor hat

theorem bind (h : Follows text p k s cs t) (h' : ∀ rest, Ends text q t rest) :
    Ends text (p >>= fun _ => q) s cs := by
  intro cursor hat
  rcases h cursor hat with ⟨hp, hnone⟩ | ⟨next, rest, found, hp, hnext, -, hnames, hscan⟩
  · rw [bind_of_error hp, hnone]
    rfl
  · rw [bind_of_ok hp, h' rest next hnext, hscan, hnames]
    cases scan t rest with
    | none => rfl
    | some more => simp

/-- A loop that has to come to the end of the text. -/
theorem whilePeek_atEnd {holds : Option UInt8 → Bool} {body : Scanner Unit}
    (hbody : ∀ rest, holds (encoded rest).head? = true → Follows text body 1 s rest s)
    (hend : scan s [] = some [])
    (hexit : ∀ c rest, holds (encoded (c :: rest)).head? = false → scan s (c :: rest) = none) :
    Ends text (whilePeek text holds body (limit text) >>= fun _ => atEnd text) s cs := by
  have hfollows : Follows text (whilePeek text holds body (limit text) >>= fun _ => atEnd text) 0 s
      cs s := by
    refine .whilePeek_bind (fun rest _ hholds => hbody rest hholds) fun rest _ hholds => .peek ?_
    obtain _ | ⟨c, rest⟩ := rest
    · exact .pure rfl
    · obtain ⟨b, -, more, hmore⟩ := exists_encoded_cons c rest
      rw [hmore]
      exact .refuse (hexit c rest hholds)
  intro cursor hat
  rcases hfollows cursor hat with ⟨hp, hnone⟩ | ⟨next, rest, found, hp, hnext, -, hnames, hscan⟩
  · rw [hp, hnone]
    rfl
  · have hrest : rest = [] := by
      have hlast := peek_of_drop hnext.drop_encoded
      have hdone := atEnd_of_ok hp
      rw [hdone] at hlast
      obtain _ | ⟨c, rest⟩ := rest
      · rfl
      · obtain ⟨b, -, more, hmore⟩ := exists_encoded_cons c rest
        rw [hmore] at hlast
        cases hlast
    rw [hp, hscan, hrest, hend]
    simp [Except.map, hnames]

end Ends

/-- The signature proper. -/
theorem ends_proper (cs : List Char) : Ends text (proper text) .body cs := by
  refine .peek ?_
  dsimp only
  by_cases hmethod : isAt ['('] (encoded cs).head? = true
  · obtain ⟨rest, rfl⟩ := exists_cons_of_isAt (by decide) hmethod
    rw [if_pos hmethod]
    refine .bind follows_parameters fun part => .bind follows_result fun more => ?_
    refine .whilePeek_atEnd (fun last hholds => ?_) rfl fun c last hholds => ?_
    · have hthrown : Follows text (markedType text) 1 .thrown last (afterType [] .thrown) := by
        obtain ⟨last, rfl⟩ := exists_cons_of_isAt (by decide) hholds
        exact follows_markedType (by decide) rfl
      exact hthrown
    · rw [isAt_singleton_cons (by decide), decide_eq_false_iff_not] at hholds
      rw [scan]
      simp only [step, if_neg hholds]
  rw [if_neg hmethod]
  obtain _ | ⟨c, rest⟩ := cs
  · exact fun _ _ => rfl
  have hsupertypes : scan .body (c :: rest) = scan .supertypes (c :: rest) := by
    rw [isAt_singleton_cons (by decide), decide_eq_true_iff] at hmethod
    refine scan_congr ?_ rest
    simp only [step, stepBody, if_neg hmethod]
  obtain ⟨b, -, more, hmore⟩ := exists_encoded_cons c rest
  rw [hmore, List.head?_cons, if_neg (by exact Bool.false_ne_true)]
  refine .congr hsupertypes (.whilePeek_atEnd (fun last hholds => ?_) rfl fun c last hholds => ?_)
  · have htype : Follows text (referenceType text) 1 (.inType .reference [] .supertype) last
        (afterType [] .supertype) := follows_referenceType
    obtain _ | ⟨c, last⟩ := last
    · cases hholds
    · exact .congr (scan_congr rfl last) htype
  · obtain ⟨b, -, more, hmore⟩ := exists_encoded_cons c last
    rw [hmore] at hholds
    cases hholds

/-- **Signatures by positions** have the class names that the scan of their characters finds, and
are refused where that refuses. -/
theorem classNamesByPosition_eq (signature : String) :
    classNamesByPosition signature = (classNames signature).mapError .refused := by
  have hends : Ends signature (Scanner.signature signature) .start signature.toList := by
    refine .peek ?_
    dsimp only
    by_cases hparameters : isAt ['<'] (encoded signature.toList).head? = true
    · obtain ⟨rest, hcs⟩ := exists_cons_of_isAt (by decide) hparameters
      rw [if_pos hparameters, hcs]
      exact .bind follows_typeParameters ends_proper
    · rw [if_neg hparameters]
      refine .congr ?_ (ends_proper _)
      cases hcs : signature.toList with
      | nil => rfl
      | cons c rest =>
        rw [hcs, isAt_singleton_cons (by decide), decide_eq_true_iff] at hparameters
        refine scan_congr ?_ rest
        simp only [step, if_neg hparameters]
  rw [classNamesByPosition, hends ⟨0, []⟩ (At.start signature), classNames]
  cases scan .start signature.toList with
  | none => rfl
  | some names => rfl

end JarGraph.Signature
