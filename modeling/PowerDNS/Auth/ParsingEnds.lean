import Mathlib.Data.Prod.Lex
import PowerDNS.Auth.TemplateLines

/-!
# Reading a zone file comes to its end

What the parser reads comes from files, which get shorter, and from a template. A line of a template may be a
`$GENERATE` line again, but no line has more dollars than the template it is made from, and such a line uses one
up. What is left is the counter: with a step of zero, or when it comes round in front of the stop, it is never
behind the stop, and the lines go on for ever (`RangeEnds`). In `parsing_ends` all other ways to go on are
excluded; `endless_range` is a file of one line.
-/

namespace PowerDNS.ZoneParserTNG

open List

/-! ### The conditions -/

/-- The line that `get` reads next. -/
def nextLine (env : Surroundings) (s : Parser) : Option Parser :=
  match getTemplateLine env s with
  | some s => some s
  | none => getLine s

/-- `boost::trim_right_if(d_line, is_any_of(" \r\n\x1a"))`. -/
def Parser.trimmed (s : Parser) : Octets := s.d_line.rdropWhile fun c => c ∈ ([32, 13, newline, 26] : Octets)

/-- A counter that comes to be behind the stop. -/
def RangeEnds (counter stop step : UInt32) : Prop := ∃ k : ℕ, stop < counter + UInt32.ofNat k * step

/-- A line that includes no file, and starts no range that does not end. -/
def Harmless (s : Parser) : Prop :=
  s.trimmed.head? = some 36 → ∀ first second rest, vstringtok s.trimmed = first :: second :: rest →
    ¬pdnsIequals first.text (ascii "$INCLUDE") ∧
    (pdnsIequals first.text (ascii "$GENERATE") → rest ≠ [] →
      let range := scanRange second.text s.d_templatecounter 0 1
      RangeEnds range.1 range.2.1 range.2.2)

/-- What a turn leaves to go on with. -/
def Turn.next : Turn → Option Parser
  | .ended => none
  | .again s => some s
  | .got _ s => some s

/-- The states that a parser comes to. -/
inductive Reached (env : Surroundings) (s : Parser) : Parser → Prop
  | refl : Reached env s s
  | turn {s' rr t s''} : Reached env s s' → turn env s' rr = .ok t → t.next = some s'' → Reached env s s''

/-! ### Files -/

section Files

variable {env : Surroundings} {s s' : Parser} {text line rest content content' : Octets}

/-- The template and where it stands. -/
def Parser.template (s : Parser) : List Octets × UInt32 × UInt32 × UInt32 :=
  (s.d_templateparts, s.d_templatecounter, s.d_templatestop, s.d_templatestep)

theorem length_fgets (n : Nat) : (fgets n text).2.length ≤ text.length := by
  induction text generalizing n with
  | nil => cases n <;> exact le_refl _
  | cons c text ih =>
    cases n with
    | zero => exact le_refl _
    | succ n =>
      rw [fgets]
      split
      · exact Nat.le_succ _
      · exact (ih n).trans (Nat.le_succ _)

theorem length_fgets_lt {n : Nat} (hn : n ≠ 0) (ht : text ≠ []) : (fgets n text).2.length < text.length := by
  obtain ⟨n, rfl⟩ := Nat.exists_eq_succ_of_ne_zero hn
  obtain ⟨c, text, rfl⟩ := exists_cons_of_ne_nil ht
  rw [fgets]
  split
  · exact Nat.lt_succ_self _
  · exact Nat.lt_succ_of_le (length_fgets n)

theorem stringfgetsFrom_rest {turns : Nat} (h : stringfgetsFrom turns line text = some (content, rest)) :
    rest.length ≤ text.length ∧ (line = [] → rest.length < text.length) := by
  induction turns generalizing text line with
  | zero => cases h
  | succ turns ih =>
    rw [stringfgetsFrom] at h
    split at h
    next htext =>
      split at h
      next => cases h
      next hline =>
        obtain ⟨-, rfl⟩ := Prod.mk.inj (Option.some.inj h)
        exact ⟨Nat.zero_le _, fun hnil => absurd hnil hline⟩
    next htext =>
      have hless := @length_fgets_lt text 1023 (by decide) htext
      dsimp only at h
      split at h
      · obtain ⟨-, rfl⟩ := Prod.mk.inj (Option.some.inj h)
        exact ⟨hless.le, fun _ => hless⟩
      · have hrest := (ih h).1
        exact ⟨hrest.trans hless.le, fun _ => hrest.trans_lt hless⟩

/-- **A line takes something** from the files. -/
theorem getLine_spec (h : getLine s = some s') : s'.unread < s.unread ∧ s'.template = s.template := by
  have hread : ∀ (fs fs' : List FileState) (line : Octets), readLine fs = (some line, fs') →
      (fs'.map fun f => f.d_text.length + 1).sum < (fs.map fun f => f.d_text.length + 1).sum := by
    intro fs
    induction fs with
    | nil =>
      intro fs' line hline
      cases hline
    | cons f fs ih =>
      intro fs' line hline
      rw [readLine] at hline
      split at hline
      next rest hfgets =>
        obtain ⟨-, rfl⟩ := Prod.mk.inj hline
        have hless := (stringfgetsFrom_rest hfgets).2 rfl
        simp only [map_cons, sum_cons]
        omega
      next =>
        have hless := ih fs' line hline
        simp only [map_cons, sum_cons]
        omega
  unfold getLine at h
  split at h
  next => cases h
  next line fs hline =>
    obtain rfl := Option.some.inj h
    exact ⟨hread _ _ _ hline, rfl⟩

theorem readOn_spec {turns : Nat} (h : readOn turns s content = .ok (content', s')) :
    s'.unread ≤ s.unread ∧ s'.template = s.template := by
  induction turns generalizing s content with
  | zero =>
    obtain ⟨-, rfl⟩ := Prod.mk.inj (Except.ok.inj h)
    exact ⟨le_refl _, rfl⟩
  | succ turns ih =>
    rw [readOn] at h
    split at h
    next =>
      obtain ⟨-, rfl⟩ := Prod.mk.inj (Except.ok.inj h)
      exact ⟨Nat.zero_le _, rfl⟩
    next s₁ hline =>
      obtain ⟨hless, htemplate⟩ := getLine_spec hline
      split at h
      next => cases h
      next ended line _ =>
        split at h
        · obtain ⟨-, rfl⟩ := Prod.mk.inj (Except.ok.inj h)
          exact ⟨hless.le, htemplate⟩
        · obtain ⟨hle, hsame⟩ := ih h
          exact ⟨hle.trans hless.le, hsame.trans htemplate⟩

/-! ### Records and directives -/

theorem readContent_spec {tail : Octets} (h : readContent s tail = .ok (content, s')) :
    s'.unread ≤ s.unread ∧ s'.template = s.template := by
  unfold readContent at h
  dsimp only at h
  split at h
  next => cases h
  next =>
    obtain ⟨-, rfl⟩ := Prod.mk.inj (Except.ok.inj h)
    exact ⟨le_refl _, rfl⟩
  next =>
    split at h
    next => cases h
    next =>
      obtain ⟨-, rfl⟩ := Prod.mk.inj (Except.ok.inj h)
      exact ⟨le_refl _, rfl⟩
    next => exact readOn_spec h

theorem completeContent_spec {qtype : UInt16} (h : completeContent s qtype content = .ok (content', s')) :
    s'.unread = s.unread ∧ s'.template = s.template := by
  have hself : ∀ c, (Except.ok (c, s) : Except ZoneError (Octets × Parser)) = .ok (content', s') →
      s'.unread = s.unread ∧ s'.template = s.template := by
    intro c hc
    obtain ⟨-, rfl⟩ := Prod.mk.inj (Except.ok.inj hc)
    exact ⟨rfl, rfl⟩
  unfold completeContent at h
  split at h
  · split at h
    · exact hself _ h
    · exact hself _ h
  · split at h
    · exact hself _ h
    · split at h
      · split at h
        next mname rname parts _ =>
          cases htimes : soaTimes s parts with
          | error e =>
            rw [htimes] at h
            cases h
          | ok times =>
            rw [htimes] at h
            obtain ⟨-, rfl⟩ := Prod.mk.inj (Except.ok.inj h)
            split
            · split
              · exact ⟨rfl, rfl⟩
              · exact ⟨rfl, rfl⟩
            · exact ⟨rfl, rfl⟩
        next => exact hself _ h
      · exact hself _ h

theorem readRecord_spec {rr : TextRR} {q : Octets} {parts : List Part} {t : Turn}
    (h : readRecord env s rr q parts = .ok t) (ht : t.next = some s') :
    s'.unread ≤ s.unread ∧ s'.template = s.template := by
  unfold readRecord at h
  dsimp only at h
  split at h
  next => cases h
  next =>
    cases hfields : readFields env { s with d_prevqname := ownerName s.d_zonename q } { ttl := s.d_defaultttl }
        parts with
    | error e =>
      rw [hfields] at h
      cases h
    | ok fields =>
      rw [hfields] at h
      dsimp only [bind, Except.bind] at h
      split at h
      next => cases h
      next =>
        split at h
        next => cases h
        next read hread =>
          split at h
          next => cases h
          next completed hcompleted =>
            obtain rfl := Except.ok.inj h
            obtain rfl := Option.some.inj ht
            obtain ⟨hle, hsame⟩ := readContent_spec hread
            obtain ⟨heq, hsame'⟩ := completeContent_spec hcompleted
            exact ⟨heq.trans_le hle, hsame'.trans hsame⟩

end Files

/-! ### Dollars -/

section Dollars

variable {env : Surroundings} {n : UInt32}

/-- The dollars in some texts. -/
def dollars (texts : List Octets) : Nat := (texts.map (List.count 36)).sum

theorem dollar_notMem_decimal (k : Nat) : 36 ∉ decimal k := fun h => by
  have hdigit := decimal_digits k 36 h
  exact absurd hdigit.1 (by decide)

theorem dollar_notMem_digitsOf {base : Nat} {ten : UInt8} (hbase : 1 < base ∧ base ≤ 16) (hten : ten = 65 ∨ ten = 97)
    (k : Nat) : 36 ∉ digitsOf base ten k := by
  intro h
  unfold digitsOf at h
  split at h
  · exact absurd (mem_singleton.mp h) (by decide)
  · obtain ⟨d, hd, heq⟩ := mem_map.mp (mem_reverse.mp h)
    have hlt : d < 16 := (Nat.digits_lt_base hbase.1 hd).trans_le hbase.2
    rcases hten with rfl | rfl
    · interval_cases d <;> exact absurd heq (by decide)
    · interval_cases d <;> exact absurd heq (by decide)

theorem dollar_notMem_converted {radix : UInt8} {p : Octets × Octets} (h : converted radix n = some p) :
    36 ∉ p.1 ∧ 36 ∉ p.2 := by
  unfold converted at h
  split at h
  · injection h with h
    subst h
    generalize toInt32 n.toNat = i
    refine ⟨?_, dollar_notMem_decimal i.natAbs⟩
    dsimp only
    split
    · decide
    · exact not_mem_nil
  split at h
  · injection h with h
    subst h
    exact ⟨not_mem_nil, dollar_notMem_decimal _⟩
  split at h
  · injection h with h
    subst h
    exact ⟨not_mem_nil, dollar_notMem_digitsOf (by decide) (.inl rfl) _⟩
  split at h
  · injection h with h
    subst h
    exact ⟨not_mem_nil, dollar_notMem_digitsOf (by decide) (.inr rfl) _⟩
  split at h
  · injection h with h
    subst h
    exact ⟨not_mem_nil, dollar_notMem_digitsOf (by decide) (.inl rfl) _⟩
  cases h

/-- A number has no dollar in it; of other formats it is assumed that they print one at most. -/
theorem count_printed (hprintf : ∀ format k, (env.snprintf format k).count 36 ≤ 1) (width : Int) (radix : UInt8) :
    (printed env width radix n).count 36 ≤ 1 := by
  unfold printed
  split
  next => exact hprintf _ _
  next p hp =>
    have hconverted : converted radix n = some p := by
      split at hp
      · cases hp
      · exact hp
    obtain ⟨hsign, hdigits⟩ := dollar_notMem_converted hconverted
    have hblanks (k : Nat) : 36 ∉ List.replicate k (32 : UInt8) := fun h => by
      exact absurd (eq_of_mem_replicate h) (by decide)
    have hzeros (k : Nat) : 36 ∉ List.replicate k (48 : UInt8) := fun h => by
      exact absurd (eq_of_mem_replicate h) (by decide)
    have hnone : ∀ t : Octets, 36 ∉ t → (t.take 78).count 36 ≤ 1 := fun t ht => by
      rw [count_eq_zero_of_not_mem fun h => ht (mem_of_mem_take h)]
      exact Nat.zero_le 1
    refine hnone _ ?_
    split
    · simp only [mem_append, hsign, hdigits, hblanks, or_self, not_false_eq_true]
    · simp only [mem_append, hsign, hdigits, hzeros, or_self, not_false_eq_true]

/-- **What is put for a part** has no more dollars than the part. -/
theorem count_reading (hprintf : ∀ format k, (env.snprintf format k).count 36 ≤ 1) {part : Octets} {items : List Item}
    (h : Reading part items) : (items.flatMap (Item.expansion env n)).count 36 ≤ part.count 36 := by
  induction h with
  | nil => exact le_refl _
  | @plain c s items _ _ _ ih =>
    show ([c] ++ items.flatMap (Item.expansion env n)).count 36 ≤ ([c] ++ s).count 36
    rw [count_append, count_append]
    exact Nat.add_le_add_left ih _
  | @escaped c s items _ ih =>
    show ([c] ++ items.flatMap (Item.expansion env n)).count 36 ≤ ([backslash] ++ ([c] ++ s)).count 36
    rw [count_append, count_append, count_append]
    omega
  | @counter s items _ _ ih =>
    show (decimal n.toNat ++ items.flatMap (Item.expansion env n)).count 36 ≤ (36 :: s).count 36
    rw [count_append, count_eq_zero_of_not_mem (dollar_notMem_decimal _), count_cons_self]
    omega
  | @spec text s items _ _ ih =>
    have hone : ((Item.spec text).expansion env n).count 36 ≤ 1 := count_printed hprintf _ _
    show ((Item.spec text).expansion env n ++ items.flatMap (Item.expansion env n)).count 36 ≤
      (36 :: ([123] ++ (text ++ ([125] ++ s)))).count 36
    rw [count_append, count_cons_self, count_append, count_append, count_append]
    omega
  | openEscape => exact Nat.zero_le _
  | openSpec => exact Nat.zero_le _

theorem count_expandParts (hprintf : ∀ format k, (env.snprintf format k).count 36 ≤ 1) (parts : List Octets) :
    (expandParts env n parts).count 36 ≤ dollars parts := by
  have hpart (part : Octets) : (expandFrom env n .plain part).count 36 ≤ part.count 36 := by
    obtain ⟨items, hitems⟩ := exists_reading part
    rw [expandFrom_reading hitems]
    exact count_reading hprintf hitems
  unfold expandParts
  induction parts with
  | nil => exact le_refl _
  | cons part parts ih =>
    have hfirst := hpart part
    have hdollars : dollars (part :: parts) = part.count 36 + dollars parts := rfl
    cases parts with
    | nil =>
      exact hfirst.trans (Nat.le_add_right _ _)
    | cons part' parts =>
      have hjoin : joinWith 32 ((part :: part' :: parts).map (expandFrom env n .plain)) =
          expandFrom env n .plain part ++ 32 :: joinWith 32 ((part' :: parts).map (expandFrom env n .plain)) := rfl
      rw [hjoin, count_append, count_cons_of_ne (by decide), hdollars]
      exact Nat.add_le_add hfirst ih

theorem dollars_vstringtokFrom (cur tail line : Octets) :
    dollars ((vstringtokFrom cur tail line).map Part.text) ≤ cur.count 36 + line.count 36 := by
  have hcons (cur : Octets) (ps : List Octets) : dollars (cur :: ps) = cur.count 36 + dollars ps := rfl
  induction line generalizing cur tail with
  | nil =>
    rw [vstringtokFrom]
    split
    · exact Nat.zero_le _
    · exact le_refl _
  | cons c line ih =>
    have hline : ([c] ++ line).count 36 = [c].count 36 + line.count 36 := count_append
    rw [singleton_append] at hline
    rw [vstringtokFrom, hline]
    split
    · split
      · have hrest := ih [] []
        rw [count_nil] at hrest
        omega
      · have hrest := ih [] []
        rw [map_cons, hcons]
        rw [count_nil] at hrest
        dsimp only
        omega
    · have hrest := ih (cur ++ [c]) (if cur = [] then c :: line else tail)
      rw [count_append] at hrest
      omega

end Dollars

/-! ### Turns -/

section Turns

variable {env : Surroundings} {s s' : Parser} {rr : TextRR} {t : Turn}

/-- What a directive other than `$INCLUDE` does to what is read. -/
theorem command_spec {first : Part} {parts : List Part} (h : command env s first parts = .ok s')
    (hinclude : ¬pdnsIequals first.text (ascii "$INCLUDE")) :
    s'.unread = s.unread ∧ (s'.template = s.template ∨ ∃ second rest, parts = second :: rest ∧
      pdnsIequals first.text (ascii "$GENERATE") ∧ rest ≠ [] ∧
      s'.template = (rest.map Part.text, scanRange second.text s.d_templatecounter 0 1)) := by
  unfold command at h
  split at h
  next => cases h
  next second rest =>
    split at h
    · cases htime : timeOf s (second.text.rdropWhile (· = 59)) with
      | error e =>
        rw [htime] at h
        cases h
      | ok ttl =>
        rw [htime] at h
        obtain rfl := Except.ok.inj h
        exact ⟨rfl, .inl rfl⟩
    · split at h
      · obtain rfl := Except.ok.inj h
        exact ⟨rfl, .inl rfl⟩
      · split at h
        next hgenerate =>
          obtain rfl := Except.ok.inj h
          exact ⟨rfl, .inr ⟨second, rest, rfl, hgenerate.1, hgenerate.2, rfl⟩⟩
        next => cases h

/-- A template that a line has set up. -/
def Restarted (line : Octets) (s' : Parser) : Prop :=
  RangeEnds s'.d_templatecounter s'.d_templatestop s'.d_templatestep ∧ dollars s'.d_templateparts < line.count 36

/-- **What a harmless line does to what is read**: a template that it sets up has fewer dollars. -/
theorem readTurn_spec (hline : Harmless s) (h : readTurn env s rr = .ok t) (ht : t.next = some s') :
    s'.unread ≤ s.unread ∧ (s'.template = s.template ∨ Restarted s.d_line s') := by
  unfold readTurn at h
  dsimp only at h
  split at h
  next =>
    obtain rfl := Except.ok.inj h
    obtain rfl := Option.some.inj ht
    exact ⟨le_refl _, .inl rfl⟩
  next first parts htok =>
    split at h
    next =>
      obtain rfl := Except.ok.inj h
      obtain rfl := Option.some.inj ht
      exact ⟨le_refl _, .inl rfl⟩
    next =>
      split at h
      next hdollar =>
        cases hcommand : command env { s with d_line := s.trimmed } first parts with
        | error e =>
          unfold Parser.trimmed at hcommand
          rw [hcommand] at h
          cases h
        | ok s₁ =>
          have hcommand' := hcommand
          unfold Parser.trimmed at hcommand'
          rw [hcommand'] at h
          obtain rfl := Except.ok.inj h
          obtain rfl := Option.some.inj ht
          match parts with
          | [] => cases hcommand
          | second :: rest =>
            obtain ⟨hinclude, hrange⟩ := hline hdollar first second rest htok
            obtain ⟨hunread, htemplate⟩ := command_spec hcommand hinclude
            refine ⟨hunread.le, htemplate.imp_right ?_⟩
            rintro ⟨second', rest', hparts, hgenerate, hrest, htemplate⟩
            obtain ⟨rfl, rfl⟩ := List.cons.inj hparts
            obtain ⟨hpartsOf, hcounter⟩ := Prod.mk.inj htemplate
            refine ⟨?_, ?_⟩
            · have hends := hrange hgenerate hrest
              rw [show scanRange second.text s.d_templatecounter 0 1 = _ from hcounter.symm] at hends
              exact hends
            · -- the dollar that the line starts with is not in the template
              have hall := dollars_vstringtokFrom [] [] s.trimmed
              rw [show vstringtokFrom [] [] s.trimmed = _ from htok] at hall
              have hfirst : 1 ≤ first.text.count 36 := by
                obtain ⟨line, hcons⟩ := head?_eq_some_iff.mp (show s.trimmed.head? = some 36 from hdollar)
                obtain ⟨t, ts, hts⟩ := @vstringtok_cons line 36 (by decide)
                rw [← hcons, show vstringtok s.trimmed = _ from htok] at hts
                obtain ⟨rfl, -⟩ := List.cons.inj hts
                rw [count_cons_self]
                exact Nat.le_add_left 1 _
              have hsum : dollars ((first :: second :: rest).map Part.text) =
                  first.text.count 36 + (second.text.count 36 + dollars (rest.map Part.text)) := rfl
              have hshort : s.trimmed.count 36 ≤ s.d_line.count 36 :=
                ( rdropWhile_prefix _ s.d_line).sublist.count_le 36
              show dollars _ < s.d_line.count 36
              rw [show s₁.d_templateparts = rest.map Part.text from hpartsOf]
              rw [count_nil] at hall
              omega
      next =>
        split at h
        · exact (readRecord_spec h ht).imp_right .inl
        · exact (readRecord_spec h ht).imp_right .inl

theorem turn_eq (env : Surroundings) (s : Parser) (rr : TextRR) :
    turn env s rr = match nextLine env s with
      | some s => readTurn env s rr
      | none => .ok .ended := by
  unfold turn nextLine
  cases getTemplateLine env s with
  | some s => rfl
  | none => rfl

/-- What gets less with each turn: what is left of the files, the dollars of the template, and the lines it is
still to give. -/
def Parser.measure (s : Parser) (k : ℕ) : ℕ ×ₗ ℕ ×ₗ ℕ := toLex (s.unread, toLex (dollars s.d_templateparts, k))

theorem measure_lt {k k' : ℕ} (hunread : s'.unread ≤ s.unread)
    (h : s'.unread < s.unread ∨ dollars s'.d_templateparts < dollars s.d_templateparts ∨
      dollars s'.d_templateparts = dollars s.d_templateparts ∧ k' < k) : s'.measure k' < s.measure k := by
  unfold Parser.measure
  rw [Prod.Lex.toLex_lt_toLex, Prod.Lex.toLex_lt_toLex]
  rcases hunread.lt_or_eq with hlt | heq
  · exact .inl hlt
  · exact .inr ⟨heq, h.resolve_left heq.not_lt⟩

/-- The template gives at most `k` lines. -/
def EndsWithin (s : Parser) (k : ℕ) : Prop :=
  s.d_templateparts = [] ∨ s.d_templatestop < s.d_templatecounter + UInt32.ofNat k * s.d_templatestep

/-- **A turn makes what is read less.** -/
theorem turn_measure (hprintf : ∀ format k, (env.snprintf format k).count 36 ≤ 1) {k : ℕ} (hends : EndsWithin s k)
    (hline : ∀ s', nextLine env s = some s' → Harmless s') (h : turn env s rr = .ok t) (ht : t.next = some s') :
    ∃ k', EndsWithin s' k' ∧ s'.measure k' < s.measure k := by
  rw [turn_eq] at h
  cases hnext : nextLine env s with
  | none =>
    rw [hnext] at h
    obtain rfl := Except.ok.inj h
    cases ht
  | some s₁ =>
    rw [hnext] at h
    obtain ⟨hunread, hcases⟩ := readTurn_spec (hline s₁ hnext) h ht
    have hrestarted : Restarted s₁.d_line s' → ∃ k', EndsWithin s' k' := fun ⟨⟨k', hk'⟩, _⟩ => ⟨k', .inr hk'⟩
    unfold nextLine at hnext
    split at hnext
    next s₂ htemplate =>
      obtain rfl := Option.some.inj hnext
      unfold getTemplateLine at htemplate
      split at htemplate
      next => cases htemplate
      next hmore =>
        obtain rfl := Option.some.inj htemplate
        rw [not_or] at hmore
        have hstop := hends.resolve_left hmore.1
        rcases hcases with hsame | hnew
        · -- one line less
          obtain ⟨hparts, hsame⟩ := Prod.mk.inj hsame
          obtain ⟨hcounter, hsame⟩ := Prod.mk.inj hsame
          obtain ⟨hstop', hstep⟩ := Prod.mk.inj hsame
          obtain ⟨k, rfl⟩ : ∃ k', k = k' + 1 := by
            refine Nat.exists_eq_succ_of_ne_zero fun hzero => hmore.2 ?_
            subst hzero
            simpa using hstop
          refine ⟨k, .inr ?_, measure_lt hunread (.inr (.inr ⟨by rw [hparts], Nat.lt_succ_self k⟩))⟩
          rw [hcounter, hstop', hstep]
          rw [UInt32.ofNat_add, UInt32.add_mul] at hstop
          have hone : UInt32.ofNat 1 * s.d_templatestep = s.d_templatestep := UInt32.one_mul _
          rw [hone, UInt32.add_comm (UInt32.ofNat k * _), ← UInt32.add_assoc] at hstop
          exact hstop
        · obtain ⟨k', hk'⟩ := hrestarted hnew
          exact ⟨k', hk', measure_lt hunread (.inr (.inl
            (hnew.2.trans_le (count_expandParts hprintf s.d_templateparts))))⟩
    next htemplate =>
      obtain ⟨hless, hfile⟩ := getLine_spec hnext
      have hlt : s'.unread < s.unread := hunread.trans_lt hless
      rcases hcases with hsame | hnew
      · have hover : s.d_templateparts = [] ∨ s.d_templatestop < s.d_templatecounter := by
          unfold getTemplateLine at htemplate
          split at htemplate
          next hover => exact hover
          next => cases htemplate
        obtain ⟨hparts, hsame⟩ := Prod.mk.inj (hsame.trans hfile)
        obtain ⟨hcounter, hsame⟩ := Prod.mk.inj hsame
        obtain ⟨hstop, hstep⟩ := Prod.mk.inj hsame
        refine ⟨0, ?_, measure_lt hlt.le (.inl hlt)⟩
        unfold EndsWithin
        rw [hparts, hcounter, hstop]
        simpa using hover
      · obtain ⟨k', hk'⟩ := hrestarted hnew
        exact ⟨k', hk', measure_lt hlt.le (.inl hlt)⟩

/-- The run from a state on. -/
theorem readAll_ends (hprintf : ∀ format k, (env.snprintf format k).count 36 ≤ 1) {k : ℕ} (hends : EndsWithin s k)
    (hlines : ∀ s' s'', Reached env s s' → nextLine env s' = some s'' → Harmless s'') (rr : TextRR) :
    ∃ turns, (readAll env turns s rr).isSome := by
  induction hm : s.measure k using WellFoundedLT.induction generalizing s k rr with
  | ind m ih =>
    cases hturn : turn env s rr with
    | error e => exact ⟨1, by rw [readAll, hturn]; rfl⟩
    | ok t =>
      have hlater {s' : Parser} (ht : t.next = some s') (rr' : TextRR) :
          ∃ turns, (readAll env turns s' rr').isSome := by
        obtain ⟨k', hends', hless⟩ := turn_measure hprintf hends (fun s' => hlines s s' .refl) hturn ht
        refine ih _ (hm ▸ hless) hends' (fun s₁ s₂ hreached => hlines s₁ s₂ ?_) rr' rfl
        clear hlines ih
        induction hreached with
        | refl => exact .turn .refl hturn ht
        | turn _ hturn' ht' ihreached => exact .turn ihreached hturn' ht'
      cases t with
      | ended => exact ⟨1, by rw [readAll, hturn]; rfl⟩
      | again s' =>
        obtain ⟨turns, hturns⟩ := hlater rfl rr
        exact ⟨turns + 1, by rw [readAll, hturn]; exact hturns⟩
      | got rr' s' =>
        obtain ⟨turns, hturns⟩ := hlater rfl rr'
        refine ⟨turns + 1, ?_⟩
        rw [readAll, hturn]
        rw [Option.isSome_map]
        exact hturns

/-- **Reading a zone file comes to its end**, when no file is included and each range that is begun comes to be
behind its stop. -/
theorem parsing_ends {fname zname reldir : Octets} (hcreate : create env fname zname reldir = .ok s)
    (hprintf : ∀ format k, (env.snprintf format k).count 36 ≤ 1)
    (hlines : ∀ s' s'', Reached env s s' → nextLine env s' = some s'' → Harmless s'') (rr : TextRR) :
    ∃ turns, (readAll env turns s rr).isSome := by
  have hends : EndsWithin s 0 := by
    unfold create stackFile at hcreate
    split at hcreate
    next => cases hcreate
    next =>
      obtain rfl := Except.ok.inj hcreate
      exact .inl rfl
  exact readAll_ends hprintf hends hlines rr

end Turns

/-! ### Files of one line -/

/-- A file of one `$GENERATE` line with this range. -/
def rangeFile (range : String) : Surroundings :=
  { exampleTypes with file := fun _ => some (ascii "$GENERATE " ++ ascii range ++ ascii " a A 192.0.2.1\n") }

/-- The parser, with these counters of the template. -/
def rangeParser (read : Bool) (range : String) (counter stop step : UInt32) (line prevqname : String) : Parser where
  d_line := ascii line
  d_prevqname := ascii prevqname
  d_zonename := ascii "example.com."
  d_templatecounter := counter
  d_templatestop := stop
  d_templatestep := step
  d_templateparts := if read then [ascii "a", ascii "A", ascii "192.0.2.1"] else []
  d_filestates := if read then [{ d_text := [], d_filename := ascii "zone", d_lineno := 1 }]
    else [{ d_text := ascii "$GENERATE " ++ ascii range ++ ascii " a A 192.0.2.1\n", d_filename := ascii "zone" }]

def exampleRecord (rr : TextRR) : TextRR :=
  { rr with qname := ascii "a.example.com.", qtype := 1, ttl := 3600, content := ascii "192.0.2.1", d_place := .ANSWER }

/-- **A step of zero** gives the same record again and again. -/
theorem endless_range :
    ∃ s, create (rangeFile "1-2/0") (ascii "zone") (ascii "example.com") [] = .ok s ∧
      ¬∃ rr turns, (readAll (rangeFile "1-2/0") turns s rr).isSome := by
  refine ⟨rangeParser false "1-2/0" 0 0 0 "" "", rfl, ?_⟩
  have hfirst (rr : TextRR) : turn (rangeFile "1-2/0") (rangeParser false "1-2/0" 0 0 0 "" "") rr =
      .ok (.again (rangeParser true "1-2/0" 1 2 0 "$GENERATE 1-2/0 a A 192.0.2.1" "")) := rfl
  have hsecond (rr : TextRR) :
      turn (rangeFile "1-2/0") (rangeParser true "1-2/0" 1 2 0 "$GENERATE 1-2/0 a A 192.0.2.1" "") rr =
        .ok (.got (exampleRecord rr) (rangeParser true "1-2/0" 1 2 0 "a A 192.0.2.1" "a.example.com.")) := rfl
  have hagain (rr : TextRR) :
      turn (rangeFile "1-2/0") (rangeParser true "1-2/0" 1 2 0 "a A 192.0.2.1" "a.example.com.") rr =
        .ok (.got (exampleRecord rr) (rangeParser true "1-2/0" 1 2 0 "a A 192.0.2.1" "a.example.com.")) := rfl
  have hnone (turns : Nat) (rr : TextRR) :
      readAll (rangeFile "1-2/0") turns (rangeParser true "1-2/0" 1 2 0 "a A 192.0.2.1" "a.example.com.") rr = none := by
    induction turns generalizing rr with
    | zero => rfl
    | succ turns ih =>
      rw [readAll, hagain]
      dsimp only
      rw [ih]
      rfl
  rintro ⟨rr, turns, h⟩
  match turns with
  | 0 => cases h
  | 1 =>
    cases h
  | turns + 2 =>
    rw [readAll, hfirst] at h
    dsimp only at h
    rw [readAll, hsecond] at h
    dsimp only at h
    rw [hnone] at h
    cases h

/-- A range of one number gives one record. -/
theorem one_record : ∃ turns, (readAll (rangeFile "5-5") turns (rangeParser false "5-5" 0 0 0 "" "")
    { qname := [], qtype := 0, wildcardname := [], content := [], ttl := 0 }).isSome := by
  have hfirst (rr : TextRR) : turn (rangeFile "5-5") (rangeParser false "5-5" 0 0 0 "" "") rr =
      .ok (.again (rangeParser true "5-5" 5 5 1 "$GENERATE 5-5 a A 192.0.2.1" "")) := rfl
  have hsecond (rr : TextRR) :
      turn (rangeFile "5-5") (rangeParser true "5-5" 5 5 1 "$GENERATE 5-5 a A 192.0.2.1" "") rr =
        .ok (.got (exampleRecord rr) (rangeParser true "5-5" 6 5 1 "a A 192.0.2.1" "a.example.com.")) := rfl
  have hthird (rr : TextRR) :
      turn (rangeFile "5-5") (rangeParser true "5-5" 6 5 1 "a A 192.0.2.1" "a.example.com.") rr = .ok .ended := rfl
  have hreached (s : Parser) (h : Reached (rangeFile "5-5") (rangeParser false "5-5" 0 0 0 "" "") s) :
      s = rangeParser false "5-5" 0 0 0 "" "" ∨ s = rangeParser true "5-5" 5 5 1 "$GENERATE 5-5 a A 192.0.2.1" "" ∨
        s = rangeParser true "5-5" 6 5 1 "a A 192.0.2.1" "a.example.com." := by
    induction h with
    | refl => exact .inl rfl
    | turn _ hturn ht ih =>
      rcases ih with rfl | rfl | rfl
      · rw [hfirst] at hturn
        obtain rfl := Except.ok.inj hturn
        exact .inr (.inl (Option.some.inj ht).symm)
      · rw [hsecond] at hturn
        obtain rfl := Except.ok.inj hturn
        exact .inr (.inr (Option.some.inj ht).symm)
      · rw [hthird] at hturn
        obtain rfl := Except.ok.inj hturn
        cases ht
  have hprintf (format : Octets) (k : UInt32) : ((rangeFile "5-5").snprintf format k).count 36 ≤ 1 := Nat.zero_le 1
  refine @parsing_ends (rangeFile "5-5") _ (ascii "zone") (ascii "example.com") [] rfl hprintf ?_ _
  intro s s' hs hnext
  rcases hreached s hs with rfl | rfl | rfl
  · have hline : nextLine (rangeFile "5-5") (rangeParser false "5-5" 0 0 0 "" "") =
        some { rangeParser true "5-5" 0 0 0 "$GENERATE 5-5 a A 192.0.2.1\n" "" with d_templateparts := [] } := rfl
    rw [hline] at hnext
    obtain rfl := Option.some.inj hnext
    intro _ first second rest htok
    have htexts := congrArg (List.map Part.text) htok
    have hsplit : (vstringtok (Parser.trimmed { rangeParser true "5-5" 0 0 0 "$GENERATE 5-5 a A 192.0.2.1\n" "" with
        d_templateparts := [] })).map Part.text =
          [ascii "$GENERATE", ascii "5-5", ascii "a", ascii "A", ascii "192.0.2.1"] := rfl
    rw [hsplit, map_cons, map_cons] at htexts
    obtain ⟨hfirst', htexts⟩ := List.cons.inj htexts
    obtain ⟨hsecond', -⟩ := List.cons.inj htexts
    rw [← hfirst', ← hsecond']
    exact ⟨by decide, fun _ _ => ⟨1, by decide⟩⟩
  · have hline : nextLine (rangeFile "5-5") (rangeParser true "5-5" 5 5 1 "$GENERATE 5-5 a A 192.0.2.1" "") =
        some (rangeParser true "5-5" 6 5 1 "a A 192.0.2.1" "") := rfl
    obtain rfl := Option.some.inj hnext
    exact fun hdollar => absurd hdollar (by decide)
  · have hline : nextLine (rangeFile "5-5") (rangeParser true "5-5" 6 5 1 "a A 192.0.2.1" "a.example.com.") = none := rfl
    cases hnext

end PowerDNS.ZoneParserTNG
