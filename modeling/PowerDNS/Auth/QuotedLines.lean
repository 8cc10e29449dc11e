import PowerDNS.Auth.ParsingEnds

/-!
# Comments and parentheses of zone files

`chopComment` and `findAndElide` look for an octet that is neither between quotes nor escaped. What a text leaves
behind is whether it ends between quotes and in a backslash that escapes (`quoting`). When nothing is found and the
line ends in such a backslash, the position is behind its end, and neither function does what it should
(`quoted_lines_iff`). A record in parentheses is read like the one line that its lines make, when quotes and escapes
do not go over their ends (`parentheses_joined`).
-/

namespace PowerDNS

namespace ZoneParserTNG

open List

/-! ### Quotes and escapes -/

/-- Whether the next octet is between quotes, and whether it is escaped. -/
def quoting : Bool × Bool → UInt8 → Bool × Bool
  | (inQuote, true), _ => (inQuote, false)
  | (inQuote, false), d => if d = 34 then (!inQuote, false) else (inQuote, d == backslash)

/-- No `c` that is neither between quotes nor escaped. -/
def Without (c : UInt8) (st : Bool × Bool) (s : Octets) : Prop :=
  ∀ before after, s = before ++ c :: after → before.foldl quoting st ≠ (false, false)

/-- The text leaves neither a quote nor an escape behind, and has no `c`. -/
def Closed (c : UInt8) (s : Octets) : Prop :=
  s.foldl quoting (false, false) = (false, false) ∧ Without c (false, false) s

/-- The line ends in a backslash that escapes, before a `c` is found. -/
def Dangles (c : UInt8) (s : Octets) : Prop := Without c (false, false) s ∧ (s.foldl quoting (false, false)).2 = true

variable {c d : UInt8} {st : Bool × Bool} {s t before after : Octets}

theorem without_cons : Without c st (d :: s) ↔ ¬(d = c ∧ st = (false, false)) ∧ Without c (quoting st d) s := by
  constructor
  · refine fun h => ⟨fun ⟨hd, hst⟩ => h [] s (by rw [hd]; rfl) hst, fun before after heq => ?_⟩
    exact h (d :: before) after (by rw [heq]; rfl)
  · rintro ⟨hfirst, hlater⟩ before after heq
    cases before with
    | nil => exact fun hst => hfirst ⟨(List.cons.inj heq).1, hst⟩
    | cons e before =>
      obtain ⟨rfl, hrest⟩ := List.cons.inj heq
      exact hlater before after hrest

theorem without_append (hs : Without c st s) (ht : Without c (s.foldl quoting st) t) : Without c st (s ++ t) := by
  induction s generalizing st with
  | nil => exact ht
  | cons d s ih =>
    obtain ⟨hfirst, hlater⟩ := without_cons.mp hs
    exact without_cons.mpr ⟨hfirst, ih hlater ht⟩

theorem Closed.append (hs : Closed c s) (ht : Closed c t) : Closed c (s ++ t) :=
  ⟨by rw [foldl_append, hs.1, ht.1], without_append hs.2 (by rw [hs.1]; exact ht.2)⟩

/-- The first `c`, or none. -/
theorem first_or_without (c : UInt8) (st : Bool × Bool) (s : Octets) :
    (∃ before after, s = before ++ c :: after ∧ before.foldl quoting st = (false, false) ∧
      Without c st before) ∨ Without c st s := by
  induction s generalizing st with
  | nil => exact .inr fun before after h => absurd h (by simp)
  | cons d s ih =>
    by_cases hfirst : d = c ∧ st = (false, false)
    · exact .inl ⟨[], s, by rw [hfirst.1]; rfl, hfirst.2, fun before after h => absurd h (by simp)⟩
    · rcases ih (quoting st d) with ⟨before, after, rfl, hfold, hbefore⟩ | hnone
      · exact .inl ⟨d :: before, after, rfl, hfold, without_cons.mpr ⟨hfirst, hbefore⟩⟩
      · exact .inr (without_cons.mpr ⟨hfirst, hnone⟩)

/-- The search goes over a text without a `c`. -/
theorem findUnquoted_without (h : Without c st s) (t : Octets) :
    findUnquoted c st.1 st.2 (s ++ t) =
      s.length + findUnquoted c (s.foldl quoting st).1 (s.foldl quoting st).2 t := by
  induction s generalizing st with
  | nil => exact (Nat.zero_add _).symm
  | cons d s ih =>
    obtain ⟨hfirst, hlater⟩ := without_cons.mp h
    have hrest := ih hlater
    rw [foldl_cons, length_cons, Nat.add_right_comm, Nat.add_comm, ← hrest, cons_append]
    obtain ⟨inQuote, escaped⟩ := st
    cases escaped with
    | true => rfl
    | false =>
      rw [findUnquoted]
      dsimp only [quoting]
      by_cases hback : d = backslash
      · rw [hback]
        rfl
      rw [if_neg hback, beq_false_of_ne hback]
      by_cases hquote : d = 34
      · rw [if_pos hquote, if_pos hquote]
      · rw [if_neg hquote, if_neg hquote, if_neg fun h => hfirst ⟨h.1, by rw [h.2]⟩]

theorem findUnquoted_first (hc : c ≠ backslash ∧ c ≠ 34)
    (hfold : before.foldl quoting (false, false) = (false, false)) (h : Without c (false, false) before) :
    findUnquoted c false false (before ++ c :: after) = before.length := by
  have hfind := findUnquoted_without h (c :: after)
  rw [hfold, findUnquoted, if_neg hc.1, if_neg hc.2, if_pos ⟨rfl, rfl⟩] at hfind
  exact hfind

theorem findUnquoted_none (h : Without c (false, false) s) :
    findUnquoted c false false s = s.length + (s.foldl quoting (false, false)).2.toNat := by
  have hfind := findUnquoted_without h []
  rw [append_nil] at hfind
  rw [hfind]
  cases (s.foldl quoting (false, false)).2 <;> rfl

/-! ### The two functions -/

/-- The line up to the first semicolon, or all of it. -/
def ChopsRight (line : Octets) : Prop :=
  (∃ before after, line = before ++ 59 :: after ∧ before.foldl quoting (false, false) = (false, false) ∧
    Without 59 (false, false) before ∧ chopComment line = before) ∨
  Without 59 (false, false) line ∧ chopComment line = line

/-- The line without its first `c`, or all of it. -/
def ElidesRight (c : UInt8) (line : Octets) : Prop :=
  (∃ before after, line = before ++ c :: after ∧ before.foldl quoting (false, false) = (false, false) ∧
    Without c (false, false) before ∧ findAndElide line c = some (true, before ++ after)) ∨
  Without c (false, false) line ∧ findAndElide line c = some (false, line)

theorem findAndElide_first (hc : c ≠ backslash ∧ c ≠ 34) (h : Closed c before) :
    findAndElide (before ++ c :: after) c = some (true, before ++ after) := by
  unfold findAndElide
  dsimp only
  rw [findUnquoted_first hc h.1 h.2, if_neg (by rw [length_append, length_cons]; omega),
    if_neg (by rw [length_append]; omega), eraseIdx_append_of_length_le le_rfl, Nat.sub_self, eraseIdx_cons_zero]

theorem chopComment_first (h : Closed 59 before) : chopComment (before ++ 59 :: after) = before := by
  unfold chopComment
  rw [findUnquoted_first (by decide) h.1 h.2]
  dsimp only
  rw [take_left' rfl, length_append, Nat.sub_eq_zero_of_le (Nat.le_add_right _ _)]
  exact append_nil before

theorem findAndElide_closed (h : Closed c s) : findAndElide s c = some (false, s) :=
  findAndElide_of_none (by rw [findUnquoted_none h.2, h.1]; rfl)

theorem chopComment_closed (h : Closed 59 s) : chopComment s = s :=
  chopComment_of_none (by rw [findUnquoted_none h.2, h.1]; rfl)

theorem chopsRight_iff (line : Octets) : ChopsRight line ↔ ¬Dangles 59 line := by
  rcases first_or_without 59 (false, false) line with ⟨before, after, rfl, hfold, hbefore⟩ | hnone
  · exact iff_of_true (.inl ⟨before, after, rfl, hfold, hbefore, chopComment_first ⟨hfold, hbefore⟩⟩)
      fun h => h.1 before after rfl hfold
  · have hfind := findUnquoted_none hnone
    unfold ChopsRight Dangles
    cases hescaped : (line.foldl quoting (false, false)).2 with
    | false =>
      rw [hescaped] at hfind
      exact iff_of_true (.inr ⟨hnone, chopComment_of_none hfind⟩) fun h => nomatch h.2
    | true =>
      refine iff_of_false ?_ fun h => h ⟨hnone, rfl⟩
      rintro (⟨before, after, rfl, hfold, -⟩ | ⟨-, hchop⟩)
      · exact hnone before after rfl hfold
      · have hlength := congrArg length hchop
        unfold chopComment at hlength
        rw [hfind, hescaped, length_append, length_take, length_replicate] at hlength
        change min (line.length + 1) _ + (line.length + 1 - _) = _ at hlength
        omega

theorem elidesRight_iff (hc : c ≠ backslash ∧ c ≠ 34) (line : Octets) :
    ElidesRight c line ↔ ¬Dangles c line := by
  rcases first_or_without c (false, false) line with ⟨before, after, rfl, hfold, hbefore⟩ | hnone
  · exact iff_of_true (.inl ⟨before, after, rfl, hfold, hbefore, findAndElide_first hc ⟨hfold, hbefore⟩⟩)
      fun h => h.1 before after rfl hfold
  · have hfind := findUnquoted_none hnone
    unfold ElidesRight Dangles
    cases hescaped : (line.foldl quoting (false, false)).2 with
    | false =>
      rw [hescaped] at hfind
      exact iff_of_true (.inr ⟨hnone, findAndElide_of_none hfind⟩) fun h => nomatch h.2
    | true =>
      refine iff_of_false ?_ fun h => h ⟨hnone, rfl⟩
      rintro (⟨before, after, rfl, hfold, -⟩ | ⟨-, helide⟩)
      · exact hnone before after rfl hfold
      · -- the position is behind the end, and `erase` throws
        simp [findAndElide, hfind, hescaped] at helide

example : chopComment [backslash] = [backslash, 0] ∧ findAndElide [backslash] 40 = none := by decide

/-! ### Records in parentheses -/

/-- These lines come next. -/
def Reads : List FileState → List Octets → Prop
  | _, [] => True
  | fs, line :: lines => ∃ fs', readLine fs = (some line, fs') ∧ Reads fs' lines

/-- A line of a record that goes on, without its comment and the white space around it. -/
def cleaned (line : Octets) : Octets := trim (chopComment (line.rdropWhile isSpace))

/-- Lines one behind the other. -/
def spread (lines : List Octets) : Octets := lines.flatMap fun line => 32 :: cleaned line

theorem closed_spread (hc : c ≠ 32) {lines : List Octets} (h : ∀ line ∈ lines, Closed c (cleaned line)) :
    Closed c (spread lines) := by
  induction lines with
  | nil => exact ⟨rfl, fun before after h => absurd h (by simp [spread])⟩
  | cons line lines ih =>
    have hfirst : Closed c (32 :: cleaned line) :=
      ⟨(h line mem_cons_self).1, without_cons.mpr ⟨fun h => hc h.1.symm, (h line mem_cons_self).2⟩⟩
    exact hfirst.append (ih fun line' h' => h line' (mem_cons_of_mem _ h'))

variable {lines : List Octets} {last : Octets}

theorem getLine_of_readLine {s : Parser} {line : Octets} {fs : List FileState}
    (h : readLine s.d_filestates = (some line, fs)) :
    getLine s = some { s with d_line := line, d_filestates := fs } := by
  unfold getLine
  rw [h]

theorem readOn_spread {s : Parser} (content : Octets) {turns : Nat} (hreads : Reads s.d_filestates (lines ++ [last]))
    (hturns : s.unread ≤ turns) (hlines : ∀ line ∈ lines, Closed 41 (cleaned line))
    (hlast : cleaned last = before ++ 41 :: after) (hbefore : Closed 41 before) :
    ∃ s', readOn turns s content = .ok (content ++ spread lines ++ 32 :: (before ++ after), s') := by
  induction lines generalizing s content turns with
  | nil =>
    obtain ⟨fs', hline, -⟩ := hreads
    have hget := getLine_of_readLine hline
    have hless := (getLine_spec hget).1
    obtain ⟨turns, rfl⟩ := Nat.exists_eq_add_one_of_ne_zero (show turns ≠ 0 by omega)
    rw [readOn, hget]
    dsimp only
    unfold cleaned at hlast
    rw [hlast, findAndElide_first (by decide) hbefore]
    dsimp only
    rw [if_pos rfl]
    exact ⟨_, by rw [spread, flatMap_nil, append_nil]⟩
  | cons line lines ih =>
    obtain ⟨fs', hline, hreads⟩ := hreads
    have hget := getLine_of_readLine hline
    have hless := (getLine_spec hget).1
    obtain ⟨turns, rfl⟩ := Nat.exists_eq_add_one_of_ne_zero (show turns ≠ 0 by omega)
    have hclosed := hlines line mem_cons_self
    unfold cleaned at hclosed
    rw [readOn, hget]
    dsimp only
    rw [findAndElide_closed hclosed]
    dsimp only
    rw [if_neg Bool.false_ne_true]
    obtain ⟨s', hread⟩ := @ih { s with d_line := cleaned line, d_filestates := fs' } (content ++ 32 :: cleaned line)
      turns hreads (Nat.le_of_lt_succ (hless.trans_le hturns)) fun l hl => hlines l (mem_cons_of_mem _ hl)
    refine ⟨s', hread.trans ?_⟩
    rw [spread, spread, flatMap_cons, append_assoc content, append_assoc]

theorem without_of_notMem (h : c ∉ s) : Without c st s :=
  fun before _ heq => absurd (heq ▸ mem_append_right before mem_cons_self) h

theorem foldl_spaces (h : ∀ d ∈ s, isSpace d = true) : s.foldl quoting (false, false) = (false, false) := by
  induction s with
  | nil => rfl
  | cons d s ih =>
    have hd := h d mem_cons_self
    have hquote : d ≠ 34 := fun heq => absurd (heq ▸ hd) (by decide)
    have hback : d ≠ backslash := fun heq => absurd (heq ▸ hd) (by decide)
    rw [foldl_cons, quoting, if_neg hquote, beq_false_of_ne hback]
    exact ih (forall_mem_cons.mp h).2

/-- What `chopComment` leaves has no comment, and `trim` adds none. -/
theorem without_trim_chopComment (line : Octets) : Without 59 (false, false) (trim (chopComment line)) := by
  have hchop : Without 59 (false, false) (chopComment line) := by
    rcases first_or_without 59 (false, false) line with ⟨before, after, rfl, hfold, hbefore⟩ | hnone
    · rwa [chopComment_first ⟨hfold, hbefore⟩]
    · unfold chopComment
      rw [findUnquoted_none hnone]
      dsimp only
      rw [take_of_length_le (Nat.le_add_right _ _)]
      exact without_append hnone (without_of_notMem fun h => absurd (eq_of_mem_replicate h) (by decide))
  have hdropped : Without 59 (false, false) ((chopComment line).dropWhile isSpace) := by
    intro before after heq hfold
    refine hchop ((chopComment line).takeWhile isSpace ++ before) after ?_ ?_
    · rw [append_assoc, ← heq, takeWhile_append_dropWhile]
    · rw [foldl_append, foldl_spaces fun d hd => mem_takeWhile_imp hd, hfold]
  obtain ⟨t, ht⟩ := rdropWhile_prefix isSpace ((chopComment line).dropWhile isSpace)
  exact fun before after heq => hdropped before (after ++ t) (by rw [← ht, ← trim, heq, append_assoc, cons_append])

theorem trim_ends (line : Octets) :
    (∀ d ∈ (trim line).head?, isSpace d = false) ∧ ∀ d ∈ (trim line).getLast?, isSpace d = false := by
  constructor
  · intro d hd
    obtain ⟨rest, hrest⟩ := head?_eq_some_iff.mp hd
    obtain ⟨t, ht⟩ := rdropWhile_prefix isSpace (line.dropWhile isSpace)
    have hnot := head?_dropWhile_not isSpace line
    unfold trim at hrest
    rw [← ht, hrest] at hnot
    exact hnot
  · intro d hd
    have hne : trim line ≠ [] := fun h => by rw [h] at hd; cases hd
    rw [getLast?_eq_some_getLast hne] at hd
    obtain rfl := Option.some.inj hd
    exact eq_false_of_ne_true (rdropWhile_last_not isSpace _ hne)

/-- **A record in parentheses is read like the line that its lines make.** -/
theorem parentheses_joined {s : Parser} {first open_ rest : Octets}
    (hreads : Reads s.d_filestates (lines ++ [last]))
    (hfirst : trim (chopComment first) = open_ ++ 40 :: rest) (hopen : Closed 40 open_)
    (hrest : Closed 41 (open_ ++ rest)) (hlines : ∀ line ∈ lines, Closed 41 (cleaned line))
    (hlast : cleaned last = before ++ 41 :: after) (hbefore : Closed 41 before)
    (hend : (cleaned last).foldl quoting (false, false) = (false, false)) :
    ∃ content s', readContent s first = .ok (content, s') ∧
      ∀ t, readContent t (trim (chopComment first) ++ spread lines ++ 32 :: cleaned last) = .ok (content, t) := by
  have hzone (text : Octets) : open_ ++ 40 :: text ≠ [64] := fun h =>
    absurd (mem_singleton.mp (h ▸ mem_append_right open_ mem_cons_self)) (by decide)
  obtain ⟨s', hread⟩ := readOn_spread (open_ ++ rest) hreads le_rfl hlines hlast hbefore
  refine ⟨open_ ++ rest ++ spread lines ++ 32 :: (before ++ after), s', ?_, fun t => ?_⟩
  · unfold readContent
    dsimp only
    rw [hfirst, if_neg (hzone rest), findAndElide_first (by decide) hopen]
    dsimp only
    rw [findAndElide_closed hrest]
    exact hread
  · have hfold : (trim (chopComment first)).foldl quoting (false, false) = (false, false) := by
      have hsame := hrest.1
      rw [foldl_append, hopen.1] at hsame
      rw [hfirst, foldl_append, hopen.1]
      exact hsame
    have hblank : Closed 59 (32 :: cleaned last) :=
      ⟨hend, without_cons.mpr ⟨by decide, without_trim_chopComment _⟩⟩
    have hall : Closed 59 (trim (chopComment first) ++ spread lines ++ 32 :: cleaned last) :=
      (Closed.append ⟨hfold, without_trim_chopComment _⟩
        (closed_spread (by decide) fun line hline => ⟨(hlines line hline).1, without_trim_chopComment _⟩)).append
        hblank
    have htrim : trim (trim (chopComment first) ++ spread lines ++ 32 :: cleaned last) =
        trim (chopComment first) ++ spread lines ++ 32 :: cleaned last := by
      have hne : cleaned last ≠ [] := by simp [hlast]
      have hne' : trim (chopComment first) ≠ [] := by simp [hfirst]
      refine trim_of_plain ?_ ?_
      · rw [append_assoc, head?_append_of_ne_nil _ hne']
        exact (trim_ends _).1
      · rw [getLast?_append_of_ne_nil _ (cons_ne_nil _ _), getLast?_cons_of_ne_nil hne]
        exact (trim_ends _).2
    have hclosed : Closed 41 (open_ ++ rest ++ spread lines ++ 32 :: before) :=
      (hrest.append (closed_spread (by decide) hlines)).append
        ⟨hbefore.1, without_cons.mpr ⟨by decide, hbefore.2⟩⟩
    unfold readContent
    dsimp only
    rw [chopComment_closed hall, htrim, hfirst, append_assoc, append_assoc, cons_append, if_neg (hzone _),
      findAndElide_first (by decide) hopen]
    dsimp only
    have helide : findAndElide (open_ ++ (rest ++ (spread lines ++ 32 :: cleaned last))) 41 =
        some (true, open_ ++ rest ++ spread lines ++ 32 :: before ++ after) := by
      rw [hlast, ← findAndElide_first (by decide) hclosed]
      simp only [append_assoc, cons_append]
    rw [helide]
    simp only [append_assoc, cons_append]

theorem two_lines_joined :
    ∃ content s', readContent { d_zonename := [], d_filestates := [⟨ascii "b ) ; end", [], 0⟩] }
        (ascii "( a ; first") = .ok (content, s') ∧
      ∀ t, readContent t (ascii "( a b )") = .ok (content, t) :=
  @parentheses_joined (ascii "b ") [] [] (ascii "b ) ; end") _ (ascii "( a ; first") [] (ascii " a")
    ⟨_, rfl, trivial⟩ (by decide) ⟨rfl, without_of_notMem (by decide)⟩ ⟨by decide, without_of_notMem (by decide)⟩
    (fun _ h => nomatch h) (by decide) ⟨by decide, without_of_notMem (by decide)⟩ (by decide)

end ZoneParserTNG

end PowerDNS
