import Mathlib.Data.List.Lex
import PowerDNS.Base.Octets

/-!
# Names from their last label on

`labelReverse` writes the labels of a name in the opposite order: those of a name with dots with
blanks between them, and those of a name without dots with dots between them, so that on the names
of a zone it is its own inverse (`labelReverse_labelReverse`). It takes a text apart at every dot,
also at an escaped one, and it leaves a text of one token as it is.

`makeRelative` and `dotConcat` take the name of the zone away and put it behind again.
-/

namespace PowerDNS

open List

/-- The octet between the labels of a reversed name. -/
def blank : UInt8 := 32

/-! ### The code -/

/-- The loop of `stringtok`; `cur` is what the token that is being read has so far. -/
def stringtokOnLoop (delimiters : Octets) : Octets → Octets → List Octets
  | cur, [] => if cur = [] then [] else [cur]
  | cur, c :: s =>
    if c ∈ delimiters then
      if cur = [] then stringtokOnLoop delimiters [] s else cur :: stringtokOnLoop delimiters [] s
    else stringtokOnLoop delimiters (cur ++ [c]) s

/-- `stringtok`: the tokens between the delimiters. -/
def stringtokOn (s delimiters : Octets) : List Octets := stringtokOnLoop delimiters [] s

/-- The loop of `labelReverse` that appends. -/
def joinWith (sep : UInt8) : List Octets → Octets
  | [] => []
  | [l] => l
  | l :: ls => l ++ sep :: joinWith sep ls

/-- `stringtok(labels, qname, ". ")`. -/
def dotLabels (qname : Octets) : List Octets := stringtokOn qname [dot, blank]

/-- `labelReverse`. -/
def labelReverse (qname : Octets) : Octets :=
  if qname = [] then qname
  else if (dotLabels qname).length = 1 then qname
  else joinWith (if dot ∈ qname then blank else dot) (dotLabels qname).reverse

/-- `makeRelative`; the length is that of a `size_type`, so what is too short stays as it is. -/
def makeRelative (fqdn zone : Octets) : Octets :=
  if zone = [] then fqdn
  else if fqdn ≠ zone then
    if fqdn.length < zone.length + 1 then fqdn else fqdn.take (fqdn.length - zone.length - 1)
  else []

/-- `dotConcat`. -/
def dotConcat (a b : Octets) : Octets := if a = [] ∨ b = [] then a ++ b else a ++ dot :: b

/-! ### Tokens -/

section Tokens

variable {delimiters cur l s p : Octets} {c d : UInt8}

/-- A text may be taken apart at any delimiter. -/
theorem stringtokOnLoop_append (hd : d ∈ delimiters) (cur p s : Octets) :
    stringtokOnLoop delimiters cur (p ++ d :: s) =
      stringtokOnLoop delimiters cur p ++ stringtokOn s delimiters := by
  induction p generalizing cur with
  | nil =>
    show (if d ∈ delimiters then _ else _) = (if cur = [] then _ else _) ++ _
    rw [if_pos hd]
    by_cases hcur : cur = []
    · rw [if_pos hcur, if_pos hcur]
      rfl
    · rw [if_neg hcur, if_neg hcur]
      rfl
  | cons c p ih =>
    rw [cons_append, stringtokOnLoop, stringtokOnLoop]
    split
    · split
      · exact ih []
      · rw [ih, cons_append]
    · exact ih _

theorem stringtokOn_append (hd : d ∈ delimiters) (p s : Octets) :
    stringtokOn (p ++ d :: s) delimiters = stringtokOn p delimiters ++ stringtokOn s delimiters :=
  stringtokOnLoop_append hd [] p s

theorem stringtokOnLoop_token (hl : ∀ c ∈ l, c ∉ delimiters) (hne : cur ++ l ≠ []) :
    stringtokOnLoop delimiters cur l = [cur ++ l] := by
  induction l generalizing cur with
  | nil =>
    rw [append_nil] at hne ⊢
    rw [stringtokOnLoop, if_neg hne]
  | cons c l ih =>
    rw [stringtokOnLoop, if_neg (hl c mem_cons_self),
      ih (fun c' hc' => hl c' (mem_cons_of_mem c hc')) (by simp), append_assoc,
      singleton_append]

/-- A text without delimiters is one token. -/
theorem stringtokOn_token (hl : ∀ c ∈ l, c ∉ delimiters) (hne : l ≠ []) :
    stringtokOn l delimiters = [l] :=
  stringtokOnLoop_token hl hne

/-- A token is not empty, has no delimiter, and its octets are those of the text. -/
theorem mem_stringtokOnLoop (hcur : ∀ c ∈ cur, c ∉ delimiters)
    (hl : l ∈ stringtokOnLoop delimiters cur s) :
    l ≠ [] ∧ ∀ c ∈ l, c ∉ delimiters ∧ (c ∈ cur ∨ c ∈ s) := by
  induction s generalizing cur with
  | nil =>
    rw [stringtokOnLoop] at hl
    split at hl
    · cases hl
    · next hne =>
      obtain rfl := mem_singleton.mp hl
      exact ⟨hne, fun c hc => ⟨hcur c hc, .inl hc⟩⟩
  | cons d s ih =>
    have hnil : ∀ c ∈ ([] : Octets), c ∉ delimiters := fun c hc => absurd hc not_mem_nil
    have hlater : l ∈ stringtokOnLoop delimiters [] s →
        l ≠ [] ∧ ∀ c ∈ l, c ∉ delimiters ∧ (c ∈ cur ∨ c ∈ d :: s) := fun h =>
      ⟨(ih hnil h).1, fun c hc => ⟨((ih hnil h).2 c hc).1,
        .inr (mem_cons_of_mem d (((ih hnil h).2 c hc).2.resolve_left not_mem_nil))⟩⟩
    rw [stringtokOnLoop] at hl
    split at hl
    · split at hl
      · exact hlater hl
      · next hne =>
        rcases mem_cons.mp hl with rfl | hl
        · exact ⟨hne, fun c hc => ⟨hcur c hc, .inl hc⟩⟩
        · exact hlater hl
    · next hd =>
      have hcur' : ∀ c ∈ cur ++ [d], c ∉ delimiters := by
        intro c hc
        rcases mem_append.mp hc with hc | hc
        · exact hcur c hc
        · exact mem_singleton.mp hc ▸ hd
      refine ⟨(ih hcur' hl).1, fun c hc => ⟨((ih hcur' hl).2 c hc).1, ?_⟩⟩
      rcases ((ih hcur' hl).2 c hc).2 with h | h
      · rcases mem_append.mp h with h | h
        · exact .inl h
        · exact .inr (mem_singleton.mp h ▸ mem_cons_self)
      · exact .inr (mem_cons_of_mem d h)

theorem mem_stringtokOn (hl : l ∈ stringtokOn s delimiters) :
    l ≠ [] ∧ ∀ c ∈ l, c ∉ delimiters ∧ c ∈ s := by
  have hnil : ∀ c ∈ ([] : Octets), c ∉ delimiters := fun c hc => absurd hc not_mem_nil
  obtain ⟨hne, hall⟩ := mem_stringtokOnLoop hnil hl
  exact ⟨hne, fun c hc => ⟨(hall c hc).1, (hall c hc).2.resolve_left not_mem_nil⟩⟩

/-- A text that starts with no delimiter has a token. -/
theorem stringtokOn_ne_nil (hc : c ∉ delimiters) : stringtokOn (c :: s) delimiters ≠ [] := by
  have hloop : ∀ cur : Octets, cur ≠ [] → stringtokOnLoop delimiters cur s ≠ [] := by
    induction s with
    | nil =>
      intro cur hne
      rw [stringtokOnLoop, if_neg hne]
      exact cons_ne_nil _ _
    | cons d s ih =>
      intro cur hne
      rw [stringtokOnLoop, if_neg hne]
      split
      · exact cons_ne_nil _ _
      · exact ih _ (by simp)
  unfold stringtokOn
  rw [stringtokOnLoop, if_neg hc]
  exact hloop _ (by simp)

end Tokens

/-! ### Labels put together -/

section Join

variable {sep c : UInt8} {ls : List Octets}

theorem joinWith_cons_cons (sep : UInt8) (l m : Octets) (ls : List Octets) :
    joinWith sep (l :: m :: ls) = l ++ sep :: joinWith sep (m :: ls) := rfl

theorem mem_joinWith (h : c ∈ joinWith sep ls) : c = sep ∨ ∃ l ∈ ls, c ∈ l := by
  induction ls with
  | nil => cases h
  | cons l ls ih =>
    cases ls with
    | nil => exact .inr ⟨l, mem_cons_self, h⟩
    | cons m ls =>
      rw [joinWith_cons_cons, mem_append, mem_cons] at h
      rcases h with h | h | h
      · exact .inr ⟨l, mem_cons_self, h⟩
      · exact .inl h
      · exact (ih h).imp_right fun ⟨l', hl', hc⟩ => ⟨l', mem_cons_of_mem l hl', hc⟩

/-- There is a separator between two labels. -/
theorem sep_mem_joinWith (h : 2 ≤ ls.length) : sep ∈ joinWith sep ls := by
  match ls, h with
  | l :: m :: ls, _ => simp [joinWith_cons_cons]

theorem joinWith_ne_nil (hne : ls ≠ []) (hl : ∀ l ∈ ls, l ≠ []) : joinWith sep ls ≠ [] := by
  match ls, hne with
  | [l], _ => exact hl l mem_cons_self
  | l :: m :: ls, _ => simp [joinWith_cons_cons]

/-- Labels that are put together and taken apart again. -/
theorem stringtokOn_joinWith {delimiters : Octets} (hsep : sep ∈ delimiters)
    (hl : ∀ l ∈ ls, l ≠ [] ∧ ∀ c ∈ l, c ∉ delimiters) :
    stringtokOn (joinWith sep ls) delimiters = ls := by
  induction ls with
  | nil => rfl
  | cons l ls ih =>
    obtain ⟨hne, hfree⟩ := hl l mem_cons_self
    cases ls with
    | nil => exact stringtokOn_token hfree hne
    | cons m ls =>
      rw [joinWith_cons_cons, stringtokOn_append hsep, stringtokOn_token hfree hne,
        ih fun l' hl' => hl l' (mem_cons_of_mem l hl')]
      rfl

end Join

/-! ### Reversing -/

section Reverse

variable {t l : Octets}

theorem mem_dotLabels (hl : l ∈ dotLabels t) :
    l ≠ [] ∧ dot ∉ l ∧ blank ∉ l ∧ ∀ c ∈ l, c ∈ t := by
  obtain ⟨hne, hall⟩ := mem_stringtokOn hl
  exact ⟨hne, fun h => (hall dot h).1 (by simp), fun h => (hall blank h).1 (by simp),
    fun c hc => (hall c hc).2⟩

theorem not_delimiter_of_mem_dotLabels (hl : l ∈ dotLabels t) :
    l ≠ [] ∧ ∀ c ∈ l, c ∉ [dot, blank] :=
  ⟨(mem_stringtokOn hl).1, fun c hc => ((mem_stringtokOn hl).2 c hc).1⟩

/-- Labels put together with dots or blanks. -/
theorem dotLabels_joinWith {sep : UInt8} (hsep : sep ∈ [dot, blank]) {ls : List Octets}
    (hl : ∀ l ∈ ls, l ≠ [] ∧ ∀ c ∈ l, c ∉ [dot, blank]) : dotLabels (joinWith sep ls) = ls :=
  stringtokOn_joinWith hsep hl

theorem labelReverse_of_one (h : (dotLabels t).length = 1) : labelReverse t = t := by
  unfold labelReverse
  split
  · rfl
  · rfl

/-- A text without blanks that is not one token: its labels with blanks. -/
theorem labelReverse_of_many (hblank : blank ∉ t) (h : (dotLabels t).length ≠ 1) :
    labelReverse t = joinWith blank (dotLabels t).reverse := by
  by_cases hnil : t = []
  · rw [hnil]
    rfl
  · have hdot : dot ∈ t := by
      by_contra hdot
      have htoken : dotLabels t = [t] := stringtokOn_token (fun c hc hmem => by
        rcases mem_cons.mp hmem with rfl | hmem
        · exact hdot hc
        · exact hblank (mem_singleton.mp hmem ▸ hc)) hnil
      exact h (congrArg List.length htoken)
    unfold labelReverse
    rw [if_neg hnil, if_neg h, if_pos hdot]

/-- The labels of the reversed text. -/
theorem dotLabels_labelReverse (hblank : blank ∉ t) :
    dotLabels (labelReverse t) = (dotLabels t).reverse := by
  by_cases h : (dotLabels t).length = 1
  · obtain ⟨l, hl⟩ := length_eq_one_iff.mp h
    rw [labelReverse_of_one h, hl]
    rfl
  · rw [labelReverse_of_many hblank h]
    exact dotLabels_joinWith (by simp) fun l hl =>
      not_delimiter_of_mem_dotLabels (mem_reverse.mp hl)

/-- **Reversing twice** brings the labels back, with single dots between them. -/
theorem labelReverse_labelReverse (hblank : blank ∉ t) (h : (dotLabels t).length ≠ 1) :
    labelReverse (labelReverse t) = joinWith dot (dotLabels t) := by
  have hlabels := dotLabels_labelReverse hblank
  have hlength : (dotLabels (labelReverse t)).length ≠ 1 := by rwa [hlabels, length_reverse]
  have hdot : dot ∉ labelReverse t := by
    rw [labelReverse_of_many hblank h]
    intro hmem
    rcases mem_joinWith hmem with heq | ⟨l, hl, hmem⟩
    · exact absurd heq (by decide)
    · exact (mem_dotLabels (mem_reverse.mp hl)).2.1 hmem
  have hrev : ∀ y : Octets, dot ∉ y → (dotLabels y).length ≠ 1 →
      labelReverse y = joinWith dot (dotLabels y).reverse := by
    intro y hdot hlength
    by_cases hnil : y = []
    · rw [hnil]
      rfl
    · unfold labelReverse
      rw [if_neg hnil, if_neg hlength, if_neg hdot]
  rw [hrev _ hdot hlength, hlabels, reverse_reverse]

/-- Two labels or more between dots come out between blanks, and those between blanks between dots. -/
theorem labelReverse_joinWith {sep : UInt8} (hsep : sep ∈ [dot, blank]) {ls : List Octets}
    (hl : ∀ l ∈ ls, l ≠ [] ∧ ∀ c ∈ l, c ∉ [dot, blank]) (htwo : 2 ≤ ls.length) :
    labelReverse (joinWith sep ls) = joinWith (if sep = dot then blank else dot) ls.reverse := by
  have hlabels := dotLabels_joinWith hsep hl
  have hne : joinWith sep ls ≠ [] := joinWith_ne_nil (by rintro rfl; cases htwo) fun l h => (hl l h).1
  have hdot : dot ∈ joinWith sep ls ↔ sep = dot := by
    refine ⟨fun hmem => ?_, fun h => h ▸ sep_mem_joinWith htwo⟩
    rcases mem_joinWith hmem with h | ⟨l, hmem, hc⟩
    · exact h.symm
    · exact absurd (by simp) ((hl l hmem).2 dot hc)
  unfold labelReverse
  rw [if_neg hne, hlabels, if_neg (by omega)]
  simp only [hdot]

end Reverse

end PowerDNS
