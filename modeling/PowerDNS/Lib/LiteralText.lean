import PowerDNS.Lib.EscapedText

/-!
# Texts with literals in them

A reader of such a text takes what stands between two quotes `q` as the value of a literal, in which the
escape character `e` takes its meaning from the character behind it, and everything else as code. `read`
is that reader, one character at a time (`step`).

A writer puts such a text together from pieces: characters of its own, and places for values, texts and
numbers. `meaning` is what is to be read: texts are wanted inside of literals only, and come back as they
are. `read_render` says that this is what is read, when every text is escaped.

The other half is about texts that go wrong. A reader who is content with the beginning of a text has
read the beginning of what the whole text means (`read_append`), and two texts from the same pieces with
numbers that are told apart by their first characters never have meanings one of which begins with the
other (`meaning_prefix`).
-/

namespace LiteralText

open List Option

variable {α τ ν : Type*}

/-- What a reader makes of a text: code, and literals with their values. -/
inductive Sym (α : Type*)
  | code (c : α)
  | start
  | value (c : α)
  | stop
  deriving DecidableEq

/-- Where a reader stands: outside of a literal, in one, or behind an escape character in one. -/
inductive Mode
  | code
  | literal
  | escaped

/-- The character of a symbol. -/
def Sym.char? : Sym α → Option α
  | .code c => some c
  | .value c => some c
  | .start => none
  | .stop => none

/-- A piece of a text: a character, or the place of a text or a number. -/
inductive Piece (α τ ν : Type*)
  | char (c : α)
  | text (v : τ)
  | number (n : ν)

section Definitions

variable [DecidableEq α] (e q : α)

/-- One character. -/
def step : Mode → α → Mode × List (Sym α)
  | .code, c => if c = q then (.literal, [.start]) else (.code, [.code c])
  | .literal, c =>
    if c = q then (.code, [.stop]) else if c = e then (.escaped, []) else (.literal, [.value c])
  | .escaped, c => (.literal, [.value c])

/-- What is read. A text that ends inside of a literal is not understood. -/
def read : Mode → List α → Option (List (Sym α))
  | .code, [] => some []
  | .literal, [] => none
  | .escaped, [] => none
  | m, c :: t => (read (step e q m c).1 t).map ((step e q m c).2 ++ ·)

/-- A number, outside of a literal or in one. -/
def valueSyms : Mode → List α → Option (List (Sym α))
  | .code, v => some (v.map .code)
  | .literal, v => some (v.map .value)
  | .escaped, _ => none

variable (txt : τ → List α) (num : ν → List α)

/-- What is to be read, with the texts `txt v` and the numbers `num n`. -/
def meaning : Mode → List (Piece α τ ν) → Option (List (Sym α))
  | .code, [] => some []
  | .literal, [] => none
  | .escaped, [] => none
  | m, .char c :: ps => (meaning (step e q m c).1 ps).map ((step e q m c).2 ++ ·)
  | .literal, .text v :: ps => (meaning .literal ps).map ((txt v).map .value ++ ·)
  | .code, .text _ :: _ => none
  | .escaped, .text _ :: _ => none
  | m, .number n :: ps =>
    match valueSyms m (num n) with
    | none => none
    | some syms => (meaning m ps).map (syms ++ ·)

end Definitions

/-- The text, with what is written for texts and for numbers. -/
def render (txt : τ → List α) (num : ν → List α) (ps : List (Piece α τ ν)) : List α :=
  ps.flatMap fun
    | .char c => [c]
    | .text v => txt v
    | .number n => num n

section Reading

variable [DecidableEq α] {e q : α} {m : Mode} {c : α} {s : List (Sym α)}

theorem read_cons (m : Mode) (c : α) (t : List α) :
    read e q m (c :: t) = (read e q (step e q m c).1 t).map ((step e q m c).2 ++ ·) := by
  cases m <;> rfl

/-- **A text read to its end has no part in what comes behind it.** -/
theorem read_append {x : List α} (h : read e q m x = some s) (y : List α) :
    read e q m (x ++ y) = (read e q .code y).map (s ++ ·) := by
  induction x generalizing m s with
  | nil =>
    cases m with
    | code =>
      obtain rfl := some.inj h
      exact map_id'.symm
    | literal => cases h
    | escaped => cases h
  | cons c x ih =>
    rw [read_cons, map_eq_some_iff] at h
    obtain ⟨s', hs', rfl⟩ := h
    rw [cons_append, read_cons, ih hs', Option.map_map]
    refine congrArg (fun f => Option.map f (read e q .code y)) (funext fun r => ?_)
    exact (append_assoc _ s' r).symm

/-- There is something to read in a text that is not empty. -/
theorem read_ne_nil {y : List α} (hy : y ≠ []) (h : read e q .code y = some s) : s ≠ [] := by
  obtain ⟨c, t, rfl⟩ := exists_cons_of_ne_nil hy
  rw [read_cons, map_eq_some_iff] at h
  obtain ⟨r, -, rfl⟩ := h
  change (if c = q then (Mode.literal, [Sym.start]) else (.code, [.code c])).2 ++ r ≠ []
  split
  · exact cons_ne_nil _ _
  · exact cons_ne_nil _ _

variable {special : α → Prop} [DecidablePred special]

/-- An escaped text is read as it was. -/
theorem read_escapeWith (he : special e) (hq : special q) (hne : q ≠ e) (v t : List α) :
    read e q .literal (EscapedText.escapeWith e special v ++ t) =
      (read e q .literal t).map (v.map .value ++ ·) := by
  induction v with
  | nil => exact map_id'.symm
  | cons c v ih =>
    by_cases hc : special c
    · rw [EscapedText.escapeWith_cons_of_pos hc, cons_append, cons_append, read_cons, read_cons]
      have hstep : step e q .literal e = (.escaped, []) := (if_neg hne.symm).trans (if_pos rfl)
      rw [hstep]
      change ((read e q .literal _).map _).map _ = _
      rw [ih, Option.map_map, Option.map_map]
      rfl
    · have hstep : step e q .literal c = (.literal, [.value c]) :=
        (if_neg fun h => hc (by rwa [h])).trans (if_neg fun h => hc (by rwa [h]))
      rw [EscapedText.escapeWith_cons_of_neg hc, cons_append, read_cons, hstep]
      rw [ih, Option.map_map]
      rfl

/-- A value without a quote or an escape character is read as it is. -/
theorem read_valueSyms {v : List α} (hv : ∀ c ∈ v, c ≠ q ∧ c ≠ e) (h : valueSyms m v = some s)
    (t : List α) : read e q m (v ++ t) = (read e q m t).map (s ++ ·) := by
  induction v generalizing s with
  | nil =>
    cases m with
    | code =>
      obtain rfl := some.inj h
      exact map_id'.symm
    | literal =>
      obtain rfl := some.inj h
      exact map_id'.symm
    | escaped => cases h
  | cons c v ih =>
    obtain ⟨⟨hcq, hce⟩, hv⟩ := forall_mem_cons.mp hv
    cases m with
    | code =>
      obtain rfl := some.inj h
      have hstep : step e q .code c = (.code, [.code c]) := if_neg hcq
      rw [cons_append, read_cons, hstep]
      rw [ih hv rfl, Option.map_map]
      rfl
    | literal =>
      obtain rfl := some.inj h
      have hstep : step e q .literal c = (.literal, [.value c]) := (if_neg hcq).trans (if_neg hce)
      rw [cons_append, read_cons, hstep]
      rw [ih hv rfl, Option.map_map]
      rfl
    | escaped => cases h

end Reading

section Numbers

variable {m : Mode} {s s' : List (Sym α)}

theorem char_of_mem_valueSyms {v : List α} {d : α} {x : Sym α} (h : valueSyms m v = some s) (hx : x ∈ s)
    (hd : x.char? = some d) : d ∈ v := by
  cases m with
  | code =>
    obtain rfl := some.inj h
    obtain ⟨c, hc, rfl⟩ := mem_map.mp hx
    exact some.inj hd ▸ hc
  | literal =>
    obtain rfl := some.inj h
    obtain ⟨c, hc, rfl⟩ := mem_map.mp hx
    exact some.inj hd ▸ hc
  | escaped => cases h

theorem valueSyms_ne {a b : α} {v w : List α} {t t' : List (Sym α)} (hab : a ≠ b)
    (h : valueSyms m (a :: v) = some s) (h' : valueSyms m (b :: w) = some s') : s ++ t ≠ s' ++ t' := by
  cases m with
  | code =>
    obtain rfl := some.inj h
    obtain rfl := some.inj h'
    exact fun heq => hab (Sym.code.inj (List.cons.inj heq).1)
  | literal =>
    obtain rfl := some.inj h
    obtain rfl := some.inj h'
    exact fun heq => hab (Sym.value.inj (List.cons.inj heq).1)
  | escaped => cases h

end Numbers

section Meaning

variable [DecidableEq α] {e q : α} {txt txt' : τ → List α} {num num' : ν → List α} {m : Mode}
  {ps : List (Piece α τ ν)} {s s' r : List (Sym α)}

theorem meaning_char (m : Mode) (c : α) (ps : List (Piece α τ ν)) :
    meaning e q txt num m (.char c :: ps) =
      (meaning e q txt num (step e q m c).1 ps).map ((step e q m c).2 ++ ·) := by
  cases m <;> rfl

theorem meaning_number (m : Mode) (n : ν) (ps : List (Piece α τ ν)) :
    meaning e q txt num m (.number n :: ps) =
      (valueSyms m (num n)).bind fun syms => (meaning e q txt num m ps).map (syms ++ ·) := by
  cases m <;> rfl

/-- What the pieces of a text that means something are. -/
theorem meaning_cons {p : Piece α τ ν} (h : meaning e q txt num m (p :: ps) = some s) :
    (∃ c s', p = .char c ∧ meaning e q txt num (step e q m c).1 ps = some s' ∧
      s = (step e q m c).2 ++ s') ∨
    (∃ v s', p = .text v ∧ m = .literal ∧ meaning e q txt num .literal ps = some s' ∧
      s = (txt v).map .value ++ s') ∨
    (∃ n syms s', p = .number n ∧ valueSyms m (num n) = some syms ∧
      meaning e q txt num m ps = some s' ∧ s = syms ++ s') := by
  cases p with
  | char c =>
    rw [meaning_char, map_eq_some_iff] at h
    obtain ⟨s', hs', rfl⟩ := h
    exact .inl ⟨c, s', rfl, hs', rfl⟩
  | text v =>
    cases m with
    | code => cases h
    | literal =>
      change (meaning e q txt num .literal ps).map _ = _ at h
      rw [map_eq_some_iff] at h
      obtain ⟨s', hs', rfl⟩ := h
      exact .inr (.inl ⟨v, s', rfl, rfl, hs', rfl⟩)
    | escaped => cases h
  | number n =>
    rw [meaning_number, bind_eq_some_iff] at h
    obtain ⟨syms, hsyms, h⟩ := h
    rw [map_eq_some_iff] at h
    obtain ⟨s', hs', rfl⟩ := h
    exact .inr (.inr ⟨n, syms, s', rfl, hsyms, hs', rfl⟩)

/-- **What was meant is what is read**, when texts are escaped and numbers need no escape. -/
theorem read_render {special : α → Prop} [DecidablePred special] (he : special e) (hq : special q)
    (hne : q ≠ e) (hnum : ∀ n, .number n ∈ ps → ∀ c ∈ num n, c ≠ q ∧ c ≠ e)
    (h : meaning e q txt num m ps = some s) :
    read e q m (render (fun v => EscapedText.escapeWith e special (txt v)) num ps) = some s := by
  induction ps generalizing m s with
  | nil => cases m <;> exact h
  | cons p ps ih =>
    have hlater := fun n hn => hnum n (mem_cons_of_mem p hn)
    rcases meaning_cons h with ⟨c, s', rfl, hs', rfl⟩ | ⟨v, s', rfl, rfl, hs', rfl⟩ |
      ⟨n, syms, s', rfl, hsyms, hs', rfl⟩
    · change read e q m (c :: render _ num ps) = _
      rw [read_cons, ih hlater hs']
      rfl
    · change read e q .literal (EscapedText.escapeWith e special (txt v) ++ render _ num ps) = _
      rw [read_escapeWith he hq hne, ih hlater hs']
      rfl
    · change read e q m (num n ++ render _ num ps) = _
      rw [read_valueSyms (hnum n mem_cons_self) hsyms, ih hlater hs']
      rfl

/-- Whether a text means anything does not depend on the values. -/
theorem exists_meaning (h : meaning e q txt num m ps = some s) (txt' : τ → List α) (num' : ν → List α) :
    ∃ s', meaning e q txt' num' m ps = some s' := by
  induction ps generalizing m s with
  | nil => cases m <;> exact ⟨s, h⟩
  | cons p ps ih =>
    rcases meaning_cons h with ⟨c, s', rfl, hs', rfl⟩ | ⟨v, s', rfl, rfl, hs', rfl⟩ |
      ⟨n, syms, s', rfl, hsyms, hs', rfl⟩
    · obtain ⟨r, hr⟩ := ih hs'
      rw [meaning_char, hr]
      exact ⟨_, rfl⟩
    · obtain ⟨r, hr⟩ := ih hs'
      change ∃ s', (meaning e q txt' num' .literal ps).map _ = some s'
      rw [hr]
      exact ⟨_, rfl⟩
    · obtain ⟨r, hr⟩ := ih hs'
      rw [meaning_number, hr]
      cases m with
      | code => exact ⟨_, rfl⟩
      | literal => exact ⟨_, rfl⟩
      | escaped => cases hsyms

/-- Values that are the same where they stand give the same meaning. -/
theorem meaning_congr (htxt : ∀ v, .text v ∈ ps → txt v = txt' v)
    (hnum : ∀ n, .number n ∈ ps → num n = num' n) :
    meaning e q txt num m ps = meaning e q txt' num' m ps := by
  induction ps generalizing m with
  | nil => cases m <;> rfl
  | cons p ps ih =>
    have hlater := fun m => @ih m (fun v hv => htxt v (mem_cons_of_mem p hv))
      fun n hn => hnum n (mem_cons_of_mem p hn)
    cases p with
    | char c => rw [meaning_char, meaning_char, hlater]
    | text v =>
      cases m with
      | code => rfl
      | literal =>
        change (meaning e q txt num .literal ps).map _ = (meaning e q txt' num' .literal ps).map _
        rw [hlater, htxt v mem_cons_self]
      | escaped => rfl
    | number n => rw [meaning_number, meaning_number, hlater, hnum n mem_cons_self]

theorem char_of_mem_step {c d : α} {x : Sym α} (hx : x ∈ (step e q m c).2) (hd : x.char? = some d) :
    d = c := by
  have hcases : x = .code c ∨ x = .value c ∨ x = .start ∨ x = .stop := by
    cases m with
    | code =>
      change x ∈ (if c = q then (Mode.literal, [Sym.start]) else (.code, [.code c])).2 at hx
      split at hx
      · exact .inr (.inr (.inl (mem_singleton.mp hx)))
      · exact .inl (mem_singleton.mp hx)
    | literal =>
      change x ∈ (if c = q then (Mode.code, [Sym.stop])
        else if c = e then (.escaped, []) else (.literal, [.value c])).2 at hx
      split at hx
      · exact .inr (.inr (.inr (mem_singleton.mp hx)))
      · split at hx
        · cases hx
        · exact .inr (.inl (mem_singleton.mp hx))
    | escaped => exact .inr (.inl (mem_singleton.mp hx))
  rcases hcases with rfl | rfl | rfl | rfl
  · exact (some.inj hd).symm
  · exact (some.inj hd).symm
  · cases hd
  · cases hd

/-- Every character that is read comes from a piece. -/
theorem char_of_mem_meaning {d : α} {x : Sym α} (h : meaning e q txt num m ps = some s) (hx : x ∈ s)
    (hd : x.char? = some d) :
    .char d ∈ ps ∨ (∃ v, .text v ∈ ps ∧ d ∈ txt v) ∨ ∃ n, .number n ∈ ps ∧ d ∈ num n := by
  induction ps generalizing m s with
  | nil =>
    cases m with
    | code =>
      obtain rfl := some.inj h
      cases hx
    | literal => cases h
    | escaped => cases h
  | cons p ps ih =>
    have hlater : ∀ {m s'}, meaning e q txt num m ps = some s' → x ∈ s' →
        .char d ∈ p :: ps ∨ (∃ v, .text v ∈ p :: ps ∧ d ∈ txt v) ∨ ∃ n, .number n ∈ p :: ps ∧ d ∈ num n :=
      fun hs' hx => (ih hs' hx).imp (mem_cons_of_mem p) (Or.imp
        (fun hv => hv.imp fun _ => And.imp_left (mem_cons_of_mem p))
        fun hn => hn.imp fun _ => And.imp_left (mem_cons_of_mem p))
    rcases meaning_cons h with ⟨c, s', rfl, hs', rfl⟩ | ⟨v, s', rfl, rfl, hs', rfl⟩ |
      ⟨n, syms, s', rfl, hsyms, hs', rfl⟩
    · rcases mem_append.mp hx with hx | hx
      · exact .inl (char_of_mem_step hx hd ▸ mem_cons_self)
      · exact hlater hs' hx
    · rcases mem_append.mp hx with hx | hx
      · obtain ⟨c, hc, rfl⟩ := mem_map.mp hx
        exact .inr (.inl ⟨v, mem_cons_self, some.inj hd ▸ hc⟩)
      · exact hlater hs' hx
    · rcases mem_append.mp hx with hx | hx
      · exact .inr (.inr ⟨n, mem_cons_self, char_of_mem_valueSyms hsyms hx hd⟩)
      · exact hlater hs' hx

/-- Every character of a text is read. -/
theorem value_mem_meaning {v : τ} {d : α} (h : meaning e q txt num m ps = some s) (hv : .text v ∈ ps)
    (hd : d ∈ txt v) : .value d ∈ s := by
  induction ps generalizing m s with
  | nil => cases hv
  | cons p ps ih =>
    rcases meaning_cons h with ⟨c, s', rfl, hs', rfl⟩ | ⟨v', s', rfl, rfl, hs', rfl⟩ |
      ⟨n, syms, s', rfl, hsyms, hs', rfl⟩
    · rcases mem_cons.mp hv with heq | hv
      · cases heq
      · exact mem_append_right _ (ih hs' hv)
    · rcases mem_cons.mp hv with heq | hv
      · obtain rfl := Piece.text.inj heq
        exact mem_append_left _ (mem_map_of_mem hd)
      · exact mem_append_right _ (ih hs' hv)
    · rcases mem_cons.mp hv with heq | hv
      · cases heq
      · exact mem_append_right _ (ih hs' hv)

/-- **No meaning begins with another one** from the same pieces, when numbers that are different are so
in their first characters. The induction goes through the pieces: the first number that is different is
where the meanings part. -/
theorem meaning_prefix
    (hnum : ∀ n, .number n ∈ ps → num n = num' n ∨
      ∃ a v b w, num n = a :: v ∧ num' n = b :: w ∧ a ≠ b)
    (h : meaning e q txt num m ps = some s) (h' : meaning e q txt num' m ps = some (s ++ r)) :
    r = [] ∧ ∀ n, .number n ∈ ps → num n = num' n := by
  induction ps generalizing m s with
  | nil =>
    cases m with
    | code =>
      obtain rfl := some.inj h
      obtain rfl := some.inj h'
      exact ⟨rfl, fun n hn => absurd hn not_mem_nil⟩
    | literal => cases h
    | escaped => cases h
  | cons p ps ih =>
    have hlater := fun n hn => hnum n (mem_cons_of_mem p hn)
    rcases meaning_cons h with ⟨c, s₁, rfl, hs₁, rfl⟩ | ⟨v, s₁, rfl, rfl, hs₁, rfl⟩ |
      ⟨n, syms, s₁, rfl, hsyms, hs₁, rfl⟩
    · rw [meaning_char, map_eq_some_iff] at h'
      obtain ⟨s₂, hs₂, heq⟩ := h'
      rw [append_assoc] at heq
      obtain ⟨hr, hall⟩ := ih hlater hs₁ (hs₂.trans (congrArg some (append_cancel_left heq)))
      refine ⟨hr, fun n hn => hall n ?_⟩
      exact (mem_cons.mp hn).resolve_left fun hcase => by cases hcase
    · change (meaning e q txt num' .literal ps).map _ = _ at h'
      rw [map_eq_some_iff] at h'
      obtain ⟨s₂, hs₂, heq⟩ := h'
      rw [append_assoc] at heq
      obtain ⟨hr, hall⟩ := ih hlater hs₁ (hs₂.trans (congrArg some (append_cancel_left heq)))
      refine ⟨hr, fun n hn => hall n ?_⟩
      exact (mem_cons.mp hn).resolve_left fun hcase => by cases hcase
    · rw [meaning_number, bind_eq_some_iff] at h'
      obtain ⟨syms', hsyms', h'⟩ := h'
      rw [map_eq_some_iff] at h'
      obtain ⟨s₂, hs₂, heq⟩ := h'
      rw [append_assoc] at heq
      rcases hnum n mem_cons_self with hsame | ⟨a, v, b, w, hn, hn', hab⟩
      · rw [← hsame, hsyms] at hsyms'
        obtain rfl := some.inj hsyms'
        obtain ⟨hr, hall⟩ := ih hlater hs₁ (hs₂.trans (congrArg some (append_cancel_left heq)))
        refine ⟨hr, fun k hk => ?_⟩
        rcases mem_cons.mp hk with hk | hk
        · obtain rfl := Piece.number.inj hk
          exact hsame
        · exact hall k hk
      · rw [hn] at hsyms
        rw [hn'] at hsyms'
        exact absurd heq.symm (valueSyms_ne hab hsyms hsyms')

end Meaning

end LiteralText
