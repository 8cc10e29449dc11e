import PowerDNS.Auth.BindCursor

/-!
# Names that `Bind2Backend::insert` stores

`insert` refuses an owner that is no longer than the name of the zone ("Trying to insert non-zone
data"), and cuts a longer one as long as the zone name and a dot are, whatever it ends in. So a name
of another zone is stored as well, without its last octets. `stores_or_refuses_iff` says which
owners are stored under what they are.
-/

namespace PowerDNS

open List

namespace Bind2Backend

/-! ### Names that are reversed twice -/

/-- One token, or tokens with a single dot, or a single blank, between any two of them. -/
def SingleSpaced (t : Octets) : Prop :=
  (dotLabels t).length = 1 ∨ t = joinWith dot (dotLabels t) ∨ t = joinWith blank (dotLabels t)

section Reversed

variable {t : Octets}

theorem labelReverse_joined {sep : UInt8} (hsep : sep ∈ [dot, blank]) (h : t = joinWith sep (dotLabels t)) :
    labelReverse (labelReverse t) = t := by
  have htoken : ∀ l ∈ dotLabels t, l ≠ [] ∧ ∀ c ∈ l, c ∉ [dot, blank] := fun l hl =>
    not_delimiter_of_mem_dotLabels hl
  rcases Nat.lt_or_ge 1 (dotLabels t).length with htwo | hone
  · have hfirst := labelReverse_joinWith hsep htoken htwo
    rw [← h] at hfirst
    rw [hfirst, labelReverse_joinWith (by split <;> simp) (by simpa using htoken)
      (by rwa [length_reverse]), reverse_reverse]
    have hback : (if (if sep = dot then blank else dot) = dot then blank else dot) = sep := by
      rcases mem_pair.mp hsep with rfl | rfl <;> decide
    rw [hback, ← h]
  · by_cases hlength : (dotLabels t).length = 1
    · rw [labelReverse_of_one hlength, labelReverse_of_one hlength]
    · have hnil : dotLabels t = [] := length_eq_zero_iff.mp (by omega)
      rw [hnil] at h
      subst h
      rfl

/-- **What comes back** when it is reversed twice. -/
theorem labelReverse_twice_iff : labelReverse (labelReverse t) = t ↔ SingleSpaced t := by
  constructor
  · intro h
    by_cases hone : (dotLabels t).length = 1
    · exact .inl hone
    by_cases hnil : t = []
    · exact .inr (.inl (hnil ▸ rfl))
    have hfirst : labelReverse t = joinWith (if dot ∈ t then blank else dot) (dotLabels t).reverse := by
      unfold labelReverse
      rw [if_neg hnil, if_neg hone]
    have htwo : 2 ≤ (dotLabels t).reverse.length := by
      rcases Nat.eq_zero_or_pos (dotLabels t).length with hzero | hpos
      · rw [hfirst, length_eq_zero_iff.mp hzero] at h
        exact absurd h.symm hnil
      · rw [length_reverse]
        omega
    have htoken : ∀ l ∈ (dotLabels t).reverse, l ≠ [] ∧ ∀ c ∈ l, c ∉ [dot, blank] := fun l hl =>
      not_delimiter_of_mem_dotLabels (mem_reverse.mp hl)
    rw [hfirst, labelReverse_joinWith (by split <;> simp) htoken htwo, reverse_reverse] at h
    right
    by_cases hdot : (if dot ∈ t then blank else dot) = dot
    · rw [if_pos hdot] at h
      exact .inr h.symm
    · rw [if_neg hdot] at h
      exact .inl h.symm
  · rintro (hone | hdots | hblanks)
    · rw [labelReverse_of_one hone, labelReverse_of_one hone]
    · exact labelReverse_joined (by simp) hdots
    · exact labelReverse_joined (by simp) hblanks

end Reversed

/-! ### Owners -/

section Owners

variable {d_name : Octets} {rr : TextRR}

/-- **Stored or refused**: what is stored, with the name of the zone behind it, is the owner that was
given, up to letter case. -/
def StoresOrRefuses (d_name : Octets) (rr : TextRR) : Prop :=
  ∀ bdr, newRecord d_name rr = .ok bdr → toLower (bdr.owner d_name) = toLower (canonic rr.qname)

/-- The owner is that of the zone, or too short to be taken for a name below it, or in front of the
name of the zone and a dot it has a text that is reversed without loss. -/
def OwnerFits (d_name owner : Octets) : Prop :=
  if d_name = [] then SingleSpaced owner
  else owner = toLower d_name ∨ owner.length ≤ d_name.length ∨
    ∃ t, t ≠ [] ∧ SingleSpaced t ∧ owner = t ++ dot :: toLower d_name

theorem forall_newRecord {P : Octets → Prop} : (∀ bdr, newRecord d_name rr = .ok bdr → P bdr.qname) ↔
    ∀ t, relativeName d_name rr.qname = some t → P (labelReverse t) := by
  unfold newRecord
  cases relativeName d_name rr.qname with
  | none => simp
  | some t => simp

theorem toLower_relative {t owner : Octets} (h : t <+: toLower owner) : toLower t = t := by
  obtain ⟨s, hs⟩ := h
  have htwice : toLower t ++ toLower s = t ++ s := by rw [← toLower_append, hs, toLower_toLower]
  exact (append_inj htwice (length_toLower t)).1

/-- What is stored is in lower case, and stays so when it is reversed. -/
theorem toLower_owner {t : Octets} (h : toLower t = t) :
    toLower (dotConcat (labelReverse (labelReverse t)) d_name) =
      dotConcat (labelReverse (labelReverse t)) (toLower d_name) := by
  rw [toLower_dotConcat, ← labelReverse_toLower, ← labelReverse_toLower, h]

/-- **Insert stores or refuses** exactly the owners that fit. -/
theorem stores_or_refuses_iff (d_name : Octets) (rr : TextRR) :
    StoresOrRefuses d_name rr ↔ OwnerFits d_name (toLower (canonic rr.qname)) := by
  unfold StoresOrRefuses Bind2DNSRecord.owner
  rw [@forall_newRecord d_name rr fun x => toLower (dotConcat (labelReverse x) d_name) = toLower (canonic rr.qname)]
  unfold relativeName OwnerFits
  generalize howner : toLower (canonic rr.qname) = owner
  have hlower : toLower owner = owner := howner ▸ toLower_toLower _
  by_cases hroot : d_name = []
  · subst hroot
    rw [if_pos rfl, if_pos rfl, ← labelReverse_twice_iff]
    simp only [Option.some.injEq, forall_eq']
    rw [toLower_owner hlower, dotConcat, if_pos (.inr (show toLower [] = [] from rfl))]
    exact Eq.congr_left (append_nil _)
  rw [if_neg hroot, if_neg hroot]
  by_cases hapex : owner = toLower d_name
  · rw [if_pos hapex]
    refine iff_of_true (fun t ht => ?_) (.inl hapex)
    obtain rfl := Option.some.inj ht
    exact hapex.symm
  rw [if_neg hapex, or_iff_right hapex]
  by_cases hshort : owner.length ≤ d_name.length
  · rw [if_neg (by omega)]
    exact iff_of_true (fun t ht => by cases ht) (.inl hshort)
  rw [if_pos (by omega), or_iff_right hshort]
  have hcut : ∀ t : Octets, owner = t ++ dot :: toLower d_name →
      owner.take (owner.length - (d_name.length + 1)) = t := by
    rintro t rfl
    exact take_left' (by simp)
  simp only [Option.some.injEq, forall_eq']
  generalize hu : owner.take (owner.length - (d_name.length + 1)) = u at hcut ⊢
  have hprefix : u <+: toLower owner := by
    rw [hlower, ← hu]
    exact take_prefix _ owner
  rw [toLower_owner (toLower_relative hprefix)]
  have hzone : toLower d_name ≠ [] := mt (toLower_eq_nil d_name).mp hroot
  constructor
  · intro h
    have hne : labelReverse (labelReverse u) ≠ [] := by
      intro hnil
      rw [hnil] at h
      exact hapex h.symm
    rw [dotConcat, if_neg (not_or.mpr ⟨hne, hzone⟩)] at h
    have hback := hcut _ h.symm
    rw [← hback] at h hne
    exact ⟨u, hne, labelReverse_twice_iff.mp hback.symm, h.symm⟩
  · rintro ⟨t, hne, hspaced, heq⟩
    rw [hcut t heq, labelReverse_twice_iff.mpr hspaced, dotConcat, if_neg (not_or.mpr ⟨hne, hzone⟩), heq]

/-- A name of another zone is stored without its end, and so becomes one of this zone. -/
theorem name_cut_short :
    (∃ bdr, newRecord (ascii "example.com") (exampleRR "www.elsewhere.net." QType.A "192.0.2.1") = .ok bdr ∧
      bdr.owner (ascii "example.com") = ascii "www.e.example.com") ∧
    ¬ StoresOrRefuses (ascii "example.com") (exampleRR "www.elsewhere.net." QType.A "192.0.2.1") := by
  refine ⟨⟨_, rfl, by decide⟩, fun h => ?_⟩
  exact absurd (h _ rfl) (by decide)

end Owners

end Bind2Backend

end PowerDNS
