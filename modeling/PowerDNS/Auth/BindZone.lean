import PowerDNS.Auth.Zone
import PowerDNS.Base.Serialize
import PowerDNS.Lib.SortedRange
import PowerDNS.Names.Reverse

/-!
# A zone of the Bind backend: `Bind2Backend::insert`, `loadConfig`

The records of a zone file are stored under their names relative to the zone, reversed by
`labelReverse`, in a vector in the order of these names. Then each record gets its flag `auth`: the
labels of its name are chopped off one after the other, and an NS record under what is left makes it
non-authoritative.

What is searched for has been reversed once more, so it is the relative name again, with dots, and
nothing is stored under such a name unless it is a single label. So only delegations directly below
the apex are found, under the last label (`searched_iff`). DS records are authoritative without a
search. `flags_iff` says for which zones that comes out right.
-/

namespace PowerDNS

open SortedRange List

namespace Bind2Backend

/-! ### The code -/

/-- `Bind2DNSRecord`. -/
structure Bind2DNSRecord where
  qname : Octets
  content : Octets
  ttl : UInt32
  qtype : UInt16
  priority : UInt16
  auth : Bool
  deriving DecidableEq

/-- What `insert` throws: "Trying to insert non-zone data", with the name, the type and the zone. -/
inductive InsertError
  | nonZoneData (name : Octets) (qtype : UInt16) (zone : Octets)
  deriving DecidableEq

/-- `canonic`. -/
def canonic (ret : Octets) : Octets :=
  if (toLower ret).getLast? = some dot then (toLower ret).dropLast else toLower ret

/-- The name below the zone, as `insert` cuts it; what is cut off is not looked at. -/
def relativeName (d_name qnameu : Octets) : Option Octets :=
  let qname := toLower (canonic qnameu)
  if d_name = [] then some qname
  else if qname = toLower d_name then some []
  else if d_name.length < qname.length then some (qname.take (qname.length - (d_name.length + 1)))
  else none

/-- A digit. -/
def isDigit (c : UInt8) : Bool := 48 ≤ c && c ≤ 57

/-- The content of an MX or SRV record without the number in front. -/
def withoutPrio (content : Octets) : Octets :=
  let rest := content.dropWhile isDigit
  (if rest = [] then content else rest).dropWhile isSpace

/-- `Bind2Backend::insert` up to the `push_back`; `auth` is set later. -/
def newRecord (d_name : Octets) (rr : TextRR) : Except InsertError Bind2DNSRecord :=
  match relativeName d_name rr.qname with
  | none => .error (.nonZoneData (toLower (canonic rr.qname)) rr.qtype d_name)
  | some qname =>
    let hasPrio := rr.qtype = QType.MX ∨ rr.qtype = QType.SRV
    let content := if hasPrio then withoutPrio rr.content else rr.content
    .ok {
      qname := labelReverse qname
      content :=
        if rr.qtype = QType.CNAME ∨ rr.qtype = QType.MX ∨ rr.qtype = QType.NS ∨ rr.qtype = QType.AFSDB
        then canonic content else content
      ttl := rr.ttl
      qtype := rr.qtype
      priority := if hasPrio then UInt16.ofInt (atoi rr.content) else rr.priority
      auth := false }

/-- The records of the zone file, one after the other. -/
def insertAll (d_name : Octets) : List TextRR → Except InsertError (List Bind2DNSRecord)
  | [] => .ok []
  | rr :: rrs => do
    let bdr ← newRecord d_name rr
    let records ← insertAll d_name rrs
    pure (bdr :: records)

/-- A text in the order of `std::string`, which compares octets as numbers. -/
def textKey (s : Octets) : List Nat := s.map UInt8.toNat

/-- The place of a record in the vector, as far as it is one of names. -/
def Bind2DNSRecord.place (bdr : Bind2DNSRecord) : List Nat := textKey bdr.qname

/-- Whether an NS record is stored under `sqname`. -/
def hasNS (records : List Bind2DNSRecord) (sqname : Octets) : Bool :=
  (equalRange Bind2DNSRecord.place records (textKey sqname)).any fun iter => iter.qtype == QType.NS

/-- The names that `do … while(chopOff(sqname))` goes through, the empty one left out; `turns` is a
bound on their number. -/
def searchedNames : Nat → Octets → List Octets
  | 0, _ => []
  | turns + 1, sqname =>
    if sqname = [] then []
    else sqname :: match chopOff sqname with
      | none => []
      | some rest => searchedNames turns rest

/-- The flag of a record. -/
def authOf (records : List Bind2DNSRecord) (bdr : Bind2DNSRecord) : Bool :=
  let sqname := labelReverse bdr.qname
  bdr.qtype == QType.DS || !(searchedNames sqname.length sqname).any (hasNS records)

/-- The loop over the records that sets their flags; it looks at names and types only. -/
def setAuth (records : List Bind2DNSRecord) : List Bind2DNSRecord :=
  records.map fun bdr => { bdr with auth := authOf records bdr }

/-- The zone after it was loaded: `sort` leaves the records in the order of their names, and those
with one name in some order. -/
inductive Loaded (d_name : Octets) (rrs : List TextRR) : List Bind2DNSRecord → Prop
  | intro {inserted sorted : List Bind2DNSRecord} (hinsert : insertAll d_name rrs = .ok inserted)
      (hperm : sorted.Perm inserted) (hsorted : Ascending Bind2DNSRecord.place sorted) :
      Loaded d_name rrs (setAuth sorted)

/-! ### What is searched for -/

/-- The name under which a delegation is found: the last label of the relative name, as a text. -/
def topName (relative : Octets) : Octets :=
  if (dotLabels relative).length = 1 then relative else (dotLabels relative).getLastD []

/-- A name relative to a zone, as the parser of zone files gives it: it has no white space, and does
not start with an empty label. -/
structure IsName (t : Octets) : Prop where
  no_blank : blank ∉ t
  head_ne : t.head? ≠ some dot

instance (t : Octets) : Decidable (IsName t) :=
  decidable_of_iff (blank ∉ t ∧ t.head? ≠ some dot) ⟨fun h => ⟨h.1, h.2⟩, fun h => ⟨h.1, h.2⟩⟩

section Searched

variable {t x : Octets}

theorem chopOff_eq_some {rest : Octets} (h : chopOff t = some rest) :
    rest = [] ∨ ∃ p, t = p ++ dot :: rest := by
  unfold chopOff at h
  split at h
  · cases h
  · obtain rfl := Option.some.inj h
    cases hdrop : t.dropWhile (· ≠ dot) with
    | nil => exact .inl rfl
    | cons c rest =>
      have hc : (t.dropWhile (· ≠ dot)).head? = some c := congrArg List.head? hdrop
      have hdot : c = dot := by
        have hnot := head?_dropWhile_not (fun c => decide (c ≠ dot)) t
        rw [hc] at hnot
        simpa using hnot
      refine .inr ⟨t.takeWhile (· ≠ dot), ?_⟩
      calc t = t.takeWhile (· ≠ dot) ++ t.dropWhile (· ≠ dot) :=
            takeWhile_append_dropWhile.symm
        _ = t.takeWhile (· ≠ dot) ++ dot :: rest := by rw [hdrop, hdot]

/-- What is searched for is the text itself, or comes behind a dot in it. -/
theorem mem_searchedNames {turns : Nat} (h : x ∈ searchedNames turns t) :
    x ≠ [] ∧ (x = t ∨ ∃ p, t = p ++ dot :: x) := by
  induction turns generalizing t with
  | zero => cases h
  | succ turns ih =>
    rw [searchedNames] at h
    split at h
    next => cases h
    next hne =>
      rcases mem_cons.mp h with rfl | h
      · exact ⟨hne, .inl rfl⟩
      · cases hchop : chopOff t with
        | none =>
          rw [hchop] at h
          cases h
        | some rest =>
          rw [hchop] at h
          obtain ⟨hx, hrest⟩ := ih h
          refine ⟨hx, .inr ?_⟩
          rcases chopOff_eq_some hchop with rfl | ⟨p, rfl⟩
          · cases turns <;> simp [searchedNames] at h
          · rcases hrest with rfl | ⟨p', rfl⟩
            · exact ⟨p, rfl⟩
            · exact ⟨p ++ dot :: p', by simp⟩

/-- The text itself is searched for. -/
theorem self_mem_searchedNames {turns : Nat} (hne : t ≠ []) : t ∈ searchedNames (turns + 1) t := by
  rw [searchedNames, if_neg hne]
  exact mem_cons_self

theorem chopOff_joinWith {l : Octets} {ls : List Octets} (hne : l ≠ []) (hdot : dot ∉ l) :
    chopOff (joinWith dot (l :: ls)) = some (joinWith dot ls) := by
  have heq : ∀ ls, joinWith dot ls = joinDots ls := by
    intro ls
    induction ls with
    | nil => rfl
    | cons l ls ih =>
      cases ls with
      | nil => rfl
      | cons m ls =>
        rw [joinWith_cons_cons, ih]
        rfl
  rw [heq, heq]
  exact chopOff_joinDots hne hdot

/-- Of a name with its labels apart, what is left when labels are chopped off is searched for. -/
theorem mem_searchedNames_joinWith {turns : Nat} {ls : List Octets}
    (hl : ∀ l ∈ ls, l ≠ [] ∧ dot ∉ l) (hturns : ls.length ≤ turns) :
    x ∈ searchedNames turns (joinWith dot ls) ↔ ∃ l ls', (l :: ls') <:+ ls ∧ x = joinWith dot (l :: ls') := by
  induction ls generalizing turns with
  | nil =>
    refine iff_of_false (fun h => ?_) ?_
    · cases turns <;> simp [searchedNames, joinWith] at h
    · rintro ⟨l, ls', hsuffix, -⟩
      exact absurd (suffix_nil.mp hsuffix) (cons_ne_nil _ _)
  | cons l ls ih =>
    obtain ⟨turns, rfl⟩ : ∃ n, turns = n + 1 :=
      Nat.exists_eq_succ_of_ne_zero (Nat.ne_of_gt (Nat.lt_of_lt_of_le (Nat.succ_pos _) hturns))
    have hne : joinWith dot (l :: ls) ≠ [] :=
      joinWith_ne_nil (cons_ne_nil _ _) fun l' hl' => (hl l' hl').1
    have hlater := ih (fun l' hl' => hl l' (mem_cons_of_mem l hl'))
      (Nat.le_of_succ_le_succ hturns)
    rw [searchedNames, if_neg hne,
      chopOff_joinWith (hl l mem_cons_self).1 (hl l mem_cons_self).2, mem_cons]
    rw [hlater]
    constructor
    · rintro (rfl | ⟨l', ls', hsuffix, rfl⟩)
      · exact ⟨l, ls, suffix_refl _, rfl⟩
      · exact ⟨l', ls', hsuffix.trans (suffix_cons l ls), rfl⟩
    · rintro ⟨l', ls', hsuffix, rfl⟩
      rcases suffix_cons_iff.mp hsuffix with heq | hsuffix
      · exact .inl (by rw [heq])
      · exact .inr ⟨l', ls', hsuffix, rfl⟩

/-- Under which name a text without blanks is stored, when that is one that is searched for. -/
theorem labelReverse_eq_iff {u : Octets} (hu : blank ∉ u) (hx : blank ∉ x) (hne : x ≠ []) :
    labelReverse u = x ↔ (dotLabels x).length = 1 ∧ u = x := by
  constructor
  · intro h
    by_cases hone : (dotLabels u).length = 1
    · rw [labelReverse_of_one hone] at h
      exact ⟨h ▸ hone, h⟩
    · rw [labelReverse_of_many hu hone] at h
      rcases Nat.lt_or_ge (dotLabels u).length 2 with hlt | hge
      · have hnil : dotLabels u = [] := length_eq_zero_iff.mp (by omega)
        rw [hnil] at h
        exact absurd h.symm hne
      · exact absurd (h ▸ sep_mem_joinWith (by rwa [length_reverse])) hx
  · rintro ⟨hone, rfl⟩
    exact labelReverse_of_one hone

/-- **What a search finds**: of the names that are stored only that of the last label. -/
theorem searched_iff (ht : IsName t) {u : Octets} (hu : blank ∉ u) :
    labelReverse u ∈ searchedNames (labelReverse (labelReverse t)).length
        (labelReverse (labelReverse t)) ↔ u ≠ [] ∧ u = topName t := by
  -- a name that is searched for has no blanks
  have hsearched : ∀ {y x : Octets} {turns : Nat}, blank ∉ y → x ∈ searchedNames turns y →
      blank ∉ x := by
    intro y x turns hy hx hmem
    rcases (mem_searchedNames hx).2 with rfl | ⟨p, rfl⟩
    · exact hy hmem
    · exact hy (mem_append_right p (mem_cons_of_mem dot hmem))
  by_cases hone : (dotLabels t).length = 1
  · have htop : topName t = t := if_pos hone
    have hne : t ≠ [] := by
      rintro rfl
      exact absurd hone (by decide)
    rw [labelReverse_of_one hone, labelReverse_of_one hone, htop]
    constructor
    · intro h
      obtain ⟨hx, hsplit⟩ := mem_searchedNames h
      obtain ⟨huone, hu'⟩ := (labelReverse_eq_iff hu (hsearched ht.no_blank h) hx).mp rfl
      rw [← hu'] at hsplit huone
      rcases hsplit with rfl | ⟨p, hp⟩
      · exact ⟨hne, rfl⟩
      · -- the one label would be in front of the dot and behind it
        have hlabels : dotLabels t = dotLabels p ++ dotLabels u := by
          rw [hp]
          exact stringtokOn_append (by simp) p u
        cases p with
        | nil => exact absurd (congrArg List.head? hp) ht.head_ne
        | cons c p =>
          have hc : c ∉ [dot, blank] := by
            intro hmem
            rcases mem_cons.mp hmem with rfl | hmem
            · exact ht.head_ne (congrArg List.head? hp)
            · refine ht.no_blank ?_
              rw [hp, ← mem_singleton.mp hmem]
              exact mem_cons_self
          have hpos := length_pos_of_ne_nil (stringtokOn_ne_nil (s := p) hc)
          have hlength := congrArg List.length hlabels
          rw [length_append, hone, huone] at hlength
          change 0 < (dotLabels (c :: p)).length at hpos
          omega
    · rintro ⟨-, rfl⟩
      obtain ⟨n, hn⟩ := Nat.exists_eq_succ_of_ne_zero (mt length_eq_zero_iff.mp hne)
      rw [labelReverse_of_one hone, hn]
      exact self_mem_searchedNames hne
  · have htop : topName t = (dotLabels t).getLastD [] := if_neg hone
    rw [labelReverse_labelReverse ht.no_blank hone, htop]
    have hl : ∀ l ∈ dotLabels t, l ≠ [] ∧ dot ∉ l := fun l hl =>
      ⟨(mem_dotLabels hl).1, (mem_dotLabels hl).2.1⟩
    have hturns : (dotLabels t).length ≤ (joinWith dot (dotLabels t)).length := by
      have hle : ∀ ls : List Octets, (∀ l ∈ ls, l ≠ []) → ls.length ≤ (joinWith dot ls).length := by
        intro ls
        induction ls with
        | nil => exact fun _ => le_rfl
        | cons l ls ih =>
          intro hne
          have hpos := length_pos_of_ne_nil (hne l mem_cons_self)
          have hlater := ih fun l' hl' => hne l' (mem_cons_of_mem l hl')
          cases ls with
          | nil => exact hpos
          | cons m ls =>
            rw [joinWith_cons_cons, length_append, length_cons (a := dot),
              length_cons (a := l)]
            omega
      exact hle _ fun l h => (hl l h).1
    rw [mem_searchedNames_joinWith hl hturns]
    constructor
    · rintro ⟨l, ls', hsuffix, hx⟩
      have hdelim : ∀ l' ∈ l :: ls', l' ≠ [] ∧ ∀ c ∈ l', c ∉ [dot, blank] := fun l' hl' =>
        not_delimiter_of_mem_dotLabels (hsuffix.subset hl')
      have hxne : joinWith dot (l :: ls') ≠ [] :=
        joinWith_ne_nil (cons_ne_nil _ _) fun l' hl' => (hdelim l' hl').1
      have hxblank : blank ∉ joinWith dot (l :: ls') := by
        intro hmem
        rcases mem_joinWith hmem with heq | ⟨l', hl', hmem⟩
        · exact absurd heq (by decide)
        · exact (hdelim l' hl').2 blank hmem (by simp)
      obtain ⟨huone, hu'⟩ := (labelReverse_eq_iff hu hxblank hxne).mp hx
      rw [dotLabels_joinWith (by simp) hdelim] at huone
      obtain rfl : ls' = [] := length_eq_zero_iff.mp (Nat.succ.inj huone)
      obtain ⟨pre, hpre⟩ := hsuffix
      refine ⟨hu' ▸ hxne, ?_⟩
      rw [hu', ← hpre, getLastD_eq_getLast?, getLast?_concat]
      rfl
    · rintro ⟨hne, hlast⟩
      have hlabels : dotLabels t ≠ [] := by
        intro hnil
        rw [hnil] at hlast
        exact hne hlast
      have hlast' : u = (dotLabels t).getLast hlabels := by
        rw [hlast, getLastD_eq_getLast?, getLast?_eq_some_getLast hlabels, Option.getD_some]
      have hmem : u ∈ dotLabels t := hlast' ▸ getLast_mem hlabels
      refine ⟨u, [], ⟨(dotLabels t).dropLast, ?_⟩, ?_⟩
      · rw [hlast']
        exact dropLast_append_getLast hlabels
      · refine labelReverse_of_one ?_
        have htoken := not_delimiter_of_mem_dotLabels hmem
        exact congrArg List.length (stringtokOn_token htoken.2 htoken.1)

end Searched

/-! ### The records of the file -/

section Records

variable {d_name : Octets} {rr : TextRR} {rrs : List TextRR} {bdr : Bind2DNSRecord}
  {inserted sorted zone : List Bind2DNSRecord}

theorem textKey_inj {a b : Octets} : textKey a = textKey b ↔ a = b :=
  (map_injective_iff.mpr fun _ _ => UInt8.toNat_inj.mp).eq_iff

theorem dnsTolower_eq_blank (c : UInt8) : dnsTolower c = blank ↔ c = blank := by
  simp only [dnsTolower, blank]
  grind

/-- Letter case and what is cut off at the end do not make a text less of a name. -/
theorem IsName.of_prefix {t t' : Octets} (h : IsName t) (hpre : t' <+: toLower t) : IsName t' := by
  have hlower : blank ∉ toLower t ∧ (toLower t).head? ≠ some dot := by
    constructor
    · intro hmem
      obtain ⟨c, hc, hblank⟩ := mem_map.mp hmem
      exact h.no_blank ((dnsTolower_eq_blank c).mp hblank ▸ hc)
    · unfold toLower
      rw [head?_map]
      intro hhead
      obtain ⟨c, hc, hdot⟩ := Option.map_eq_some_iff.mp hhead
      exact h.head_ne (hc.trans (congrArg some ((dnsTolower_eq_dot c).mp hdot)))
  refine ⟨fun hmem => hlower.1 (hpre.subset hmem), fun hhead => hlower.2 ?_⟩
  cases t' with
  | nil => cases hhead
  | cons c t' =>
    obtain ⟨rest, hrest⟩ := hpre
    rw [← hrest]
    exact hhead

theorem relativeName_isName {t qnameu : Octets} (h : IsName qnameu)
    (hrel : relativeName d_name qnameu = some t) : IsName t := by
  have hcanonic : toLower (canonic qnameu) <+: toLower qnameu := by
    unfold canonic
    split
    · have hdrop := ( dropLast_prefix (toLower qnameu)).map dnsTolower
      have htwice := toLower_toLower qnameu
      unfold toLower at hdrop htwice ⊢
      rwa [htwice] at hdrop
    · rw [toLower_toLower]
  unfold relativeName at hrel
  dsimp only at hrel
  split at hrel
  · exact h.of_prefix (Option.some.inj hrel ▸ hcanonic)
  · split at hrel
    · exact h.of_prefix (Option.some.inj hrel ▸ nil_prefix)
    · split at hrel
      · exact h.of_prefix (Option.some.inj hrel ▸ ( take_prefix _ _).trans hcanonic)
      · cases hrel

theorem newRecord_ok (h : newRecord d_name rr = .ok bdr) :
    ∃ t, relativeName d_name rr.qname = some t ∧ bdr.qname = labelReverse t ∧ bdr.qtype = rr.qtype := by
  unfold newRecord at h
  cases hrel : relativeName d_name rr.qname with
  | none =>
    rw [hrel] at h
    cases h
  | some t =>
    rw [hrel] at h
    obtain rfl := Except.ok.inj h
    exact ⟨t, rfl, rfl, rfl⟩

/-- What was inserted is what the records of the file are made into. -/
theorem insertAll_ok (h : insertAll d_name rrs = .ok inserted) :
    (∀ rr ∈ rrs, ∃ bdr ∈ inserted, newRecord d_name rr = .ok bdr) ∧
      ∀ bdr ∈ inserted, ∃ rr ∈ rrs, newRecord d_name rr = .ok bdr := by
  induction rrs generalizing inserted with
  | nil =>
    obtain rfl := Except.ok.inj h
    exact ⟨fun rr h => absurd h not_mem_nil, fun bdr h => absurd h not_mem_nil⟩
  | cons rr rrs ih =>
    unfold insertAll at h
    cases hnew : newRecord d_name rr with
    | error e =>
      rw [hnew] at h
      cases h
    | ok bdr =>
      rw [hnew] at h
      cases hlater : insertAll d_name rrs with
      | error e =>
        rw [hlater] at h
        cases h
      | ok records =>
        rw [hlater] at h
        obtain rfl := Except.ok.inj h
        obtain ⟨hall, hmem⟩ := ih hlater
        constructor
        · intro rr' hrr'
          rcases mem_cons.mp hrr' with rfl | hrr'
          · exact ⟨bdr, mem_cons_self, hnew⟩
          · obtain ⟨bdr', hbdr', heq⟩ := hall rr' hrr'
            exact ⟨bdr', mem_cons_of_mem bdr hbdr', heq⟩
        · intro bdr' hbdr'
          rcases mem_cons.mp hbdr' with rfl | hbdr'
          · exact ⟨rr, mem_cons_self, hnew⟩
          · obtain ⟨rr', hrr', heq⟩ := hmem bdr' hbdr'
            exact ⟨rr', mem_cons_of_mem rr hrr', heq⟩

theorem hasNS_iff (hsorted : Ascending Bind2DNSRecord.place sorted) (sqname : Octets) :
    hasNS sorted sqname = true ↔ ∃ bdr ∈ sorted, bdr.qname = sqname ∧ bdr.qtype = QType.NS := by
  unfold hasNS
  rw [any_eq_true]
  constructor
  · rintro ⟨bdr, hmem, hns⟩
    obtain ⟨hbdr, hplace⟩ := (mem_equalRange hsorted).mp hmem
    exact ⟨bdr, hbdr, textKey_inj.mp hplace, of_decide_eq_true hns⟩
  · rintro ⟨bdr, hbdr, rfl, hns⟩
    exact ⟨bdr, (mem_equalRange hsorted).mpr ⟨hbdr, rfl⟩, decide_eq_true hns⟩

/-- An NS record of the file stands under the last label of the name. -/
def NSAtTop (d_name : Octets) (rrs : List TextRR) (rr : TextRR) : Prop :=
  ∃ ns ∈ rrs, ns.qtype = QType.NS ∧ ∃ u ∈ relativeName d_name ns.qname,
    ∃ t ∈ relativeName d_name rr.qname, u ≠ [] ∧ u = topName t

instance (d_name : Octets) (rrs : List TextRR) (rr : TextRR) : Decidable (NSAtTop d_name rrs rr) :=
  inferInstanceAs (Decidable (∃ ns ∈ rrs, _ ∧ ∃ u ∈ relativeName d_name ns.qname,
    ∃ t ∈ relativeName d_name rr.qname, u ≠ [] ∧ u = topName t))

/-- **The flag that a record gets**, from the file. -/
theorem authOf_iff (hnames : ∀ rr ∈ rrs, IsName rr.qname)
    (hinsert : insertAll d_name rrs = .ok inserted) (hperm : sorted.Perm inserted)
    (hsorted : Ascending Bind2DNSRecord.place sorted) (hrr : rr ∈ rrs)
    (hnew : newRecord d_name rr = .ok bdr) :
    authOf sorted bdr = true ↔ rr.qtype = QType.DS ∨ ¬NSAtTop d_name rrs rr := by
  obtain ⟨t, hrel, hqname, hqtype⟩ := newRecord_ok hnew
  have ht : IsName t := relativeName_isName (hnames rr hrr) hrel
  have hfound : ((searchedNames (labelReverse (labelReverse t)).length
      (labelReverse (labelReverse t))).any (hasNS sorted)) = true ↔ NSAtTop d_name rrs rr := by
    rw [any_eq_true]
    constructor
    · rintro ⟨x, hx, hns⟩
      obtain ⟨bdr', hbdr', rfl, hns'⟩ := (hasNS_iff hsorted x).mp hns
      obtain ⟨ns, hmem, hnew'⟩ := (insertAll_ok hinsert).2 bdr' (hperm.mem_iff.mp hbdr')
      obtain ⟨u, hrel', hqname', hqtype'⟩ := newRecord_ok hnew'
      rw [hqname'] at hx
      have hu := relativeName_isName (hnames ns hmem) hrel'
      exact ⟨ns, hmem, hqtype' ▸ hns', u, hrel', t, hrel, (searched_iff ht hu.no_blank).mp hx⟩
    · rintro ⟨ns, hmem, hns, u, hrelu, t', hrel', htop⟩
      obtain rfl : t = t' := Option.some.inj (hrel.symm.trans hrel')
      obtain ⟨bdr', hbdr', hnew'⟩ := (insertAll_ok hinsert).1 ns hmem
      obtain ⟨u', hrelu', hqname', hqtype'⟩ := newRecord_ok hnew'
      obtain rfl : u = u' := Option.some.inj (hrelu.symm.trans hrelu')
      have hu := relativeName_isName (hnames ns hmem) hrelu
      exact ⟨labelReverse u, (searched_iff ht hu.no_blank).mpr htop, (hasNS_iff hsorted _).mpr
        ⟨bdr', hperm.mem_iff.mpr hbdr', hqname', hqtype'.trans hns⟩⟩
  unfold authOf
  rw [Bool.or_eq_true, hqname, hqtype, Bool.not_eq_true', ← Bool.not_eq_true, hfound]
  exact or_congr_left beq_iff_eq

/-! ### When the flags are right -/

/-- A delegation of the zone: an NS record of the zone that is not at the apex. -/
def IsCut (d_name : Octets) (ns : TextRR) : Prop :=
  ns.qtype = QType.NS ∧ AtOrBelow ns.qname d_name ∧ ¬AtOrBelow d_name ns.qname

instance (d_name : Octets) (ns : TextRR) : Decidable (IsCut d_name ns) :=
  inferInstanceAs (Decidable (_ ∧ _ ∧ ¬_))

/-- The owner of the record is a delegation or below one; for a DS record, below one. -/
def Delegated (d_name : Octets) (rrs : List TextRR) (rr : TextRR) : Prop :=
  ∃ ns ∈ rrs, IsCut d_name ns ∧ AtOrBelow rr.qname ns.qname ∧
    (rr.qtype = QType.DS → ¬AtOrBelow ns.qname rr.qname)

instance (d_name : Octets) (rrs : List TextRR) (rr : TextRR) : Decidable (Delegated d_name rrs rr) :=
  inferInstanceAs (Decidable (∃ ns ∈ rrs, IsCut d_name ns ∧ _))

/-- **The flags are right**: each record of the zone is authoritative unless it is delegated. -/
def FlagsRight (d_name : Octets) (rrs : List TextRR) (zone : List Bind2DNSRecord) : Prop :=
  ∀ rr ∈ rrs, AtOrBelow rr.qname d_name → ∀ bdr auth, newRecord d_name rr = .ok bdr →
    { bdr with auth := auth } ∈ zone → (auth = true ↔ ¬Delegated d_name rrs rr)

/-- **When the flags are right**: whenever there is a delegation at or above the owner of a record,
there is one under the last label of the owner's relative name, and the other way round; and no DS
record is below a delegation. -/
theorem flags_iff (hnames : ∀ rr ∈ rrs, IsName rr.qname) (hload : Loaded d_name rrs zone) :
    FlagsRight d_name rrs zone ↔ ∀ rr ∈ rrs, AtOrBelow rr.qname d_name →
      (rr.qtype = QType.DS → ¬Delegated d_name rrs rr) ∧
        (rr.qtype ≠ QType.DS → (Delegated d_name rrs rr ↔ NSAtTop d_name rrs rr)) := by
  cases hload with
  | @intro inserted sorted hinsert hperm hsorted =>
    -- the flag of each record is the one of `authOf`
    have hflag : ∀ rr ∈ rrs, ∀ bdr auth, newRecord d_name rr = .ok bdr →
        ({ bdr with auth := auth } ∈ setAuth sorted ↔
          bdr ∈ sorted ∧ auth = authOf sorted bdr) := by
      intro rr hrr bdr auth hnew
      have hfalse : ∀ bdr' ∈ sorted, bdr'.auth = false := by
        intro bdr' hbdr'
        obtain ⟨rr', -, hnew'⟩ := (insertAll_ok hinsert).2 bdr' (hperm.mem_iff.mp hbdr')
        unfold newRecord at hnew'
        split at hnew'
        · cases hnew'
        · rw [← Except.ok.inj hnew']
      have hbdr : bdr.auth = false := by
        obtain ⟨bdr', hbdr', hnew'⟩ := (insertAll_ok hinsert).1 rr hrr
        rw [Except.ok.inj (hnew.symm.trans hnew')]
        exact hfalse bdr' (hperm.mem_iff.mpr hbdr')
      unfold setAuth
      rw [mem_map]
      constructor
      · rintro ⟨bdr', hbdr', heq⟩
        have hsame : bdr' = bdr := by
          have hauth' := hfalse bdr' hbdr'
          cases bdr
          cases bdr'
          simp only [Bind2DNSRecord.mk.injEq] at heq hauth' hbdr ⊢
          exact ⟨heq.1, heq.2.1, heq.2.2.1, heq.2.2.2.1, heq.2.2.2.2.1, hauth'.trans hbdr.symm⟩
        subst hsame
        exact ⟨hbdr', (congrArg Bind2DNSRecord.auth heq).symm⟩
      · rintro ⟨hmem, rfl⟩
        exact ⟨bdr, hmem, rfl⟩
    refine forall_congr' fun rr => forall_congr' fun hrr => forall_congr' fun hzone => ?_
    obtain ⟨bdr, hmem, hnew⟩ := (insertAll_ok hinsert).1 rr hrr
    have hauth := authOf_iff hnames hinsert hperm hsorted hrr hnew
    constructor
    · intro hright
      have hiff := hright bdr (authOf sorted bdr) hnew
        ((hflag rr hrr bdr _ hnew).mpr ⟨hperm.mem_iff.mpr hmem, rfl⟩)
      rw [hauth] at hiff
      constructor
      · exact fun hds => hiff.mp (.inl hds)
      · intro hds
        rw [or_iff_right hds] at hiff
        exact (not_iff_not.mp hiff).symm
    · rintro ⟨hds, hother⟩ bdr' auth hnew' hmem'
      obtain rfl := Except.ok.inj (hnew.symm.trans hnew')
      obtain ⟨-, rfl⟩ := (hflag rr hrr bdr auth hnew).mp hmem'
      rw [hauth]
      by_cases htype : rr.qtype = QType.DS
      · exact iff_of_true (.inl htype) (hds htype)
      · rw [or_iff_right htype, hother htype]

end Records

/-! ### Two zones -/

/-- A record of a zone file. -/
def exampleRR (qname : String) (qtype : UInt16) (content : String) : TextRR where
  qtype := qtype
  qname := ascii qname
  wildcardname := []
  content := ascii content
  ttl := 3600

/-- A zone with a signed delegation directly below its apex. -/
def exampleFile : List TextRR :=
  [exampleRR "example.com." QType.NS "ns.example.com.", exampleRR "sub.example.com." QType.NS "ns.example.net.",
    exampleRR "sub.example.com." QType.DS "1 5 1 00", exampleRR "ns.sub.example.com." QType.A "192.0.2.1",
    exampleRR "ns.example.com." QType.A "192.0.2.2"]

/-- The zone that is loaded from the file. -/
def exampleZone : List Bind2DNSRecord :=
  [{ qname := [], content := ascii "ns.example.com", ttl := 3600, qtype := QType.NS, priority := 0
     auth := true },
    { qname := ascii "ns", content := ascii "192.0.2.2", ttl := 3600, qtype := QType.A, priority := 0
      auth := true },
    { qname := ascii "sub", content := ascii "ns.example.net", ttl := 3600, qtype := QType.NS
      priority := 0, auth := false },
    { qname := ascii "sub", content := ascii "1 5 1 00", ttl := 3600, qtype := QType.DS, priority := 0
      auth := true },
    { qname := ascii "sub ns", content := ascii "192.0.2.1", ttl := 3600, qtype := QType.A, priority := 0
      auth := false }]

theorem exampleZone_loaded : Loaded (ascii "example.com") exampleFile exampleZone := by
  have hinsert : insertAll (ascii "example.com") exampleFile =
      .ok [{ qname := [], content := ascii "ns.example.com", ttl := 3600, qtype := QType.NS
             priority := 0, auth := false },
        { qname := ascii "sub", content := ascii "ns.example.net", ttl := 3600, qtype := QType.NS
          priority := 0, auth := false },
        { qname := ascii "sub", content := ascii "1 5 1 00", ttl := 3600, qtype := QType.DS
          priority := 0, auth := false },
        { qname := ascii "sub ns", content := ascii "192.0.2.1", ttl := 3600, qtype := QType.A
          priority := 0, auth := false },
        { qname := ascii "ns", content := ascii "192.0.2.2", ttl := 3600, qtype := QType.A
          priority := 0, auth := false }] := by
    rfl
  have hload : Loaded (ascii "example.com") exampleFile
      (setAuth (exampleZone.map fun bdr => { bdr with auth := false })) :=
    .intro hinsert (by decide) (by decide)
  have hzone : setAuth (exampleZone.map fun bdr => { bdr with auth := false }) = exampleZone := by decide
  rwa [hzone] at hload

theorem exampleZone_flags : FlagsRight (ascii "example.com") exampleFile exampleZone :=
  (flags_iff (by decide) exampleZone_loaded).mpr (by decide)

/-- A zone with a delegation two labels below its apex. -/
def deepFile : List TextRR :=
  [exampleRR "example.com." QType.NS "ns.example.net.",
    exampleRR "dept.site.example.com." QType.NS "ns.example.net.",
    exampleRR "host.dept.site.example.com." QType.A "192.0.2.1"]

/-- The zone that is loaded from it. -/
def deepZone : List Bind2DNSRecord :=
  [{ qname := [], content := ascii "ns.example.net", ttl := 3600, qtype := QType.NS, priority := 0
     auth := true },
    { qname := ascii "site dept", content := ascii "ns.example.net", ttl := 3600, qtype := QType.NS
      priority := 0, auth := true },
    { qname := ascii "site dept host", content := ascii "192.0.2.1", ttl := 3600, qtype := QType.A
      priority := 0, auth := true }]

/-- **A delegation two labels below the apex** is not found: the host below it is taken for
authoritative. -/
theorem deep_delegation_missed :
    Loaded (ascii "example.com") deepFile deepZone ∧
      Delegated (ascii "example.com") deepFile (exampleRR "host.dept.site.example.com." QType.A "192.0.2.1") ∧
      ¬FlagsRight (ascii "example.com") deepFile deepZone := by
  have hinsert : insertAll (ascii "example.com") deepFile =
      .ok (deepZone.map fun bdr => { bdr with auth := false }) := by
    rfl
  have hload : Loaded (ascii "example.com") deepFile
      (setAuth (deepZone.map fun bdr => { bdr with auth := false })) :=
    .intro hinsert (List.Perm.refl _) (by decide)
  have hzone : setAuth (deepZone.map fun bdr => { bdr with auth := false }) = deepZone := by decide
  have hdelegated : Delegated (ascii "example.com") deepFile
      (exampleRR "host.dept.site.example.com." QType.A "192.0.2.1") := by decide
  refine ⟨hzone ▸ hload, hdelegated, fun hright => ?_⟩
  exact (hright (exampleRR "host.dept.site.example.com." QType.A "192.0.2.1") (by decide) (by decide)
    { qname := ascii "site dept host", content := ascii "192.0.2.1", ttl := 3600, qtype := QType.A
      priority := 0, auth := false } true rfl (by decide)).mp rfl hdelegated

end Bind2Backend

end PowerDNS
