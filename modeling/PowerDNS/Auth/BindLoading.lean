import Mathlib.Data.Prod.Lex
import PowerDNS.Auth.BindState

/-!
# Zone files that are read again: `loadConfig` and `queueReload`

Both read a zone file record by record, sort what they have, and raise `d_loaded`. When the file turns out
to be wrong, `queueReload` has lowered `d_loaded` before. `loadConfig` has not: it works on a copy of what
was known of the zone, `d_loaded` and all, and has put an empty vector in the place of the records. So a
zone that was served goes on to be served, with the records that came before the error, unsorted
(`failed_parse_is_safe` says when that does not happen). Then, the comparison of two records makes an SOA
record less than all others of its name, and the others less than it by their types, so that records of
types below SOA cannot be in order with it.

Only `loadConfig` works out which records are authoritative. What `queueReload` installs has in these flags
what `insert` left there (`reload_equals_load_iff`).
-/

namespace PowerDNS

open SortedRange GuardedRun List

namespace Bind2Backend

/-! ### Records that can be sorted -/

/-- No name has an SOA record and one of a type below. -/
def SOAFirst (l : List Bind2DNSRecord) : Prop :=
  ∀ a ∈ l, ∀ b ∈ l, a.qname = b.qname → a.qtype = QType.SOA → ¬ b.qtype < QType.SOA

instance (l : List Bind2DNSRecord) : Decidable (SOAFirst l) :=
  inferInstanceAs (Decidable (∀ a ∈ l, ∀ b ∈ l, a.qname = b.qname → a.qtype = QType.SOA → ¬ b.qtype < QType.SOA))

/-- The place of a type: SOA comes first. -/
def typePlace (qtype : UInt16) : Nat := if qtype = QType.SOA then 0 else qtype.toNat + 1

/-- The place of a record among those that can be sorted. -/
def Bind2DNSRecord.fullPlace (bdr : Bind2DNSRecord) :
    Lex (List Nat × Lex (Nat × Lex (List Nat × Nat))) :=
  toLex (bdr.place, toLex (typePlace bdr.qtype, toLex (textKey bdr.content, bdr.ttl.toNat)))

section Sorting

variable {l l' : List Bind2DNSRecord} {a b : Bind2DNSRecord}

theorem typePlace_inj {t t' : UInt16} : typePlace t = typePlace t' ↔ t = t' := by
  constructor
  · intro h
    unfold typePlace at h
    split at h
    · next ht =>
      split at h
      · next ht' => rw [ht, ht']
      · omega
    · split at h
      · omega
      · exact UInt16.toNat_inj.mp (Nat.succ_injective h)
  · rintro rfl
    rfl

theorem typePlace_lt {t t' : UInt16} (ht : t ≠ QType.SOA) (ht' : t' ≠ QType.SOA) :
    typePlace t < typePlace t' ↔ t < t' := by
  unfold typePlace
  rw [if_neg ht, if_neg ht', Nat.succ_lt_succ_iff]
  exact UInt16.lt_iff_toNat_lt.symm

/-- The order of types, where those below SOA do not meet it. -/
theorem typeLess_iff {t t' : UInt16} (h' : t' = QType.SOA → ¬ t < QType.SOA) (hne : t ≠ t') : (t = QType.SOA ∧ t' ≠ QType.SOA ∨ t < t') ↔ typePlace t < typePlace t' := by
  by_cases ht : t = QType.SOA
  · have ht' : t' ≠ QType.SOA := fun heq => hne (ht.trans heq.symm)
    refine iff_of_true (.inl ⟨ht, ht'⟩) ?_
    unfold typePlace
    rw [if_pos ht, if_neg ht']
    exact Nat.succ_pos _
  · by_cases ht' : t' = QType.SOA
    · refine iff_of_false ?_ ?_
      · rintro (⟨heq, -⟩ | hlt)
        · exact ht heq
        · exact h' ht' (ht' ▸ hlt)
      · unfold typePlace
        rw [if_pos ht']
        exact Nat.not_lt_zero _
    · rw [typePlace_lt ht ht', or_iff_right fun heq => ht heq.1]

/-- **Among records that can be sorted, less is less in place.** -/
theorem less_iff (hl : SOAFirst l) (ha : a ∈ l) (hb : b ∈ l) :
    a.less b = true ↔ a.fullPlace < b.fullPlace := by
  unfold Bind2DNSRecord.less Bind2DNSRecord.fullPlace
  rw [Prod.Lex.toLex_lt_toLex, Prod.Lex.toLex_lt_toLex, Prod.Lex.toLex_lt_toLex]
  dsimp only
  by_cases hlt : a.place < b.place
  · rw [if_pos hlt]
    exact iff_of_true rfl (.inl hlt)
  by_cases hgt : b.place < a.place
  · rw [if_neg hlt, if_pos hgt]
    refine iff_of_false Bool.false_ne_true ?_
    rintro (h | ⟨h, -⟩)
    · exact hlt h
    · exact absurd (h ▸ hgt) (lt_irrefl _)
  -- one name
  have hplace : a.place = b.place := le_antisymm (not_lt.mp hgt) (not_lt.mp hlt)
  have hname : a.qname = b.qname := textKey_inj.mp hplace
  rw [if_neg hlt, if_neg hgt, or_iff_right hlt, and_iff_right hplace]
  by_cases htype : a.qtype = b.qtype
  · rw [if_neg fun h => h.2 (htype ▸ h.1), if_neg (not_not.mpr htype), htype, or_iff_right (lt_irrefl _),
      and_iff_right rfl]
    by_cases hcontent : a.content = b.content
    · rw [if_neg (not_not.mpr hcontent), hcontent, or_iff_right (lt_irrefl _), and_iff_right rfl,
        decide_eq_true_iff]
      exact UInt32.lt_iff_toNat_lt
    · rw [if_pos hcontent, decide_eq_true_iff, or_iff_left fun h => hcontent (textKey_inj.mp h.1)]
  · have htypes := typeLess_iff (hl b hb a ha hname.symm) htype
    rw [or_iff_left fun h => htype (typePlace_inj.mp h.1), ← htypes]
    by_cases hsoa : a.qtype = QType.SOA ∧ b.qtype ≠ QType.SOA
    · rw [if_pos hsoa]
      exact iff_of_true rfl (.inl hsoa)
    · rw [if_neg hsoa, if_pos htype, decide_eq_true_iff, or_iff_right hsoa]

/-- What can be sorted will be. -/
theorem strictWeakOn_of_soaFirst (hl : SOAFirst l) : StrictWeakOn l where
  asymm a ha b hb h := by
    rw [less_iff hl ha hb] at h
    rw [← Bool.not_eq_true, less_iff hl hb ha]
    exact lt_asymm h
  neg_trans a ha c hc h b hb := by
    rw [less_iff hl ha hc] at h
    rw [less_iff hl ha hb, less_iff hl hb hc]
    exact (lt_or_ge a.fullPlace b.fullPlace).imp_right fun hba => hba.trans_lt h

/-- Flags have no part in the order. -/
theorem pairwise_of_bare (h : l.map Bind2DNSRecord.bare = l'.map Bind2DNSRecord.bare)
    (hl : l.Pairwise fun a b => b.less a = false) : l'.Pairwise fun a b => b.less a = false := by
  have hmap : ∀ l : List Bind2DNSRecord, (l.map Bind2DNSRecord.bare).Pairwise (fun a b => b.less a = false) ↔
      l.Pairwise fun a b => b.less a = false := fun l => pairwise_map
  rwa [← hmap, ← h, hmap]

theorem bare_setAuth (l : List Bind2DNSRecord) :
    (setAuth l).map Bind2DNSRecord.bare = l.map Bind2DNSRecord.bare := by
  unfold setAuth
  rw [map_map]
  rfl

end Sorting

/-! ### The records of a file -/

section Files

variable {d_name : Octets} {rrs : List TextRR} {strayAuth : Nat → Bool}

theorem newRecord_bare {rr : TextRR} {bdr : Bind2DNSRecord} (h : newRecord d_name rr = .ok bdr) :
    bdr.bare = bdr := by
  unfold newRecord at h
  cases hrel : relativeName d_name rr.qname with
  | none =>
    rw [hrel] at h
    cases h
  | some t =>
    rw [hrel] at h
    obtain rfl := Except.ok.inj h
    rfl

/-- A file that is read to its end gives its records, with stray flags. -/
theorem insertFile_eq (n : Nat) : (∃ inserted, insertAll d_name rrs = .ok inserted ∧
      (insertFile d_name strayAuth n rrs).2 = true ∧
      (insertFile d_name strayAuth n rrs).1.map Bind2DNSRecord.bare = inserted) ∨
    (∃ e, insertAll d_name rrs = .error e) ∧ (insertFile d_name strayAuth n rrs).2 = false := by
  induction rrs generalizing n with
  | nil => exact .inl ⟨[], rfl, rfl, rfl⟩
  | cons rr rrs ih =>
    rw [insertAll, insertFile]
    cases hnew : newRecord d_name rr with
    | error e => exact .inr ⟨⟨e, rfl⟩, rfl⟩
    | ok bdr =>
      rcases ih (n + 1) with ⟨inserted, hall, hend, hbare⟩ | ⟨⟨e, hall⟩, hend⟩
      · rw [hall]
        refine .inl ⟨bdr :: inserted, rfl, hend, ?_⟩
        change Bind2DNSRecord.bare _ :: _ = _
        rw [hbare]
        exact congrArg (· :: inserted) (newRecord_bare hnew)
      · rw [hall]
        exact .inr ⟨⟨e, rfl⟩, hend⟩

/-- **A whole zone**: the records of a file, all of them, in order. -/
def WholeZone (d_name : Octets) (rrs : List TextRR) (records : List Bind2DNSRecord) : Prop :=
  ∃ inserted, insertAll d_name rrs = .ok inserted ∧ (records.map Bind2DNSRecord.bare).Perm inserted ∧
    records.Pairwise fun a b => b.less a = false

/-- The file does not end in an exception, and all of its records are of the zone. -/
def Disk.Readable (disk : Disk) (filename origin : Octets) : Prop :=
  (disk.zoneFile filename origin).throws = false ∧
    ∃ inserted, Bind2Backend.insertAll origin (disk.zoneFile filename origin).records = .ok inserted

theorem insertAll_snd (disk : Disk) (filename origin : Octets) :
    (disk.insertAll origin filename origin).2 = true ↔ disk.Readable filename origin := by
  unfold Disk.insertAll Disk.Readable
  rw [Bool.and_eq_true, Bool.not_eq_true', and_comm]
  refine and_congr_right fun _ => ?_
  rcases @insertFile_eq origin (disk.zoneFile filename origin).records disk.strayAuth 0 with
    ⟨inserted, hall, hend, -⟩ | ⟨⟨e, hall⟩, hend⟩
  · exact iff_of_true hend ⟨inserted, hall⟩
  · refine iff_of_false (by rw [hend]; exact Bool.false_ne_true) ?_
    rintro ⟨inserted, hall'⟩
    rw [hall] at hall'
    cases hall'

theorem soaFirst_of_bare {l l' : List Bind2DNSRecord} (hbare : l.map Bind2DNSRecord.bare = l') (h : SOAFirst l') :
    SOAFirst l := by
  intro a ha b hb hname
  exact h a.bare (hbare ▸ mem_map_of_mem ha) b.bare (hbare ▸ mem_map_of_mem hb) hname

/-- What is read and sorted is a whole zone. -/
theorem wholeZone_sort {disk : Disk} {filename origin : Octets} (h : disk.Readable filename origin)
    (hfirst : ∀ inserted, Bind2Backend.insertAll origin (disk.zoneFile filename origin).records = .ok inserted →
      SOAFirst inserted) :
    WholeZone origin (disk.zoneFile filename origin).records
      (disk.sort.sort (disk.insertAll origin filename origin).1) := by
  obtain ⟨-, inserted, hall⟩ := h
  rcases @insertFile_eq origin (disk.zoneFile filename origin).records disk.strayAuth 0 with
    ⟨inserted', hall', -, hbare⟩ | ⟨⟨e, hall'⟩, -⟩
  · obtain rfl := Except.ok.inj (hall.symm.trans hall')
    have hperm := (disk.sort.perm (disk.insertAll origin filename origin).1).map Bind2DNSRecord.bare
    have horder := strictWeakOn_of_soaFirst (soaFirst_of_bare hbare (hfirst inserted hall))
    exact ⟨inserted, hall, hperm.trans (List.Perm.of_eq hbare), disk.sort.sorted _ horder⟩
  · rw [hall] at hall'
    cases hall'

theorem WholeZone.of_bare {records records' : List Bind2DNSRecord} (h : WholeZone d_name rrs records)
    (hbare : records.map Bind2DNSRecord.bare = records'.map Bind2DNSRecord.bare) :
    WholeZone d_name rrs records' := by
  obtain ⟨inserted, hall, hperm, hsorted⟩ := h
  exact ⟨inserted, hall, hbare ▸ hperm, pairwise_of_bare hbare hsorted⟩

end Files

/-! ### Failed parses -/

/-- Whether `loadConfig` reads the file of a zone. -/
def Disk.Parses (disk : Disk) (i : BindDomainInfo) (bbd : BB2DomainInfo) : Prop :=
  bbd.d_filename ≠ i.filename ∨ bbd.d_loaded = false ∨
    disk.current { bbd with d_name := i.name, d_filename := i.filename } = false

/-- **A zone file that is read at a good time**: when it cannot be read to its end, the zone was not loaded;
and when it can, its records can be sorted. -/
def Disk.WellTimed (disk : Disk) (filename origin : Octets) (loaded : Bool) : Prop :=
  (¬ disk.Readable filename origin → loaded = false) ∧
    ∀ inserted, Bind2Backend.insertAll origin (disk.zoneFile filename origin).records = .ok inserted →
      SOAFirst inserted

/-- All files that are read are read at a good time. `queueReload` lowers `d_loaded` itself. -/
def Op.WellTimed : Option Bind2 → Op → Prop
  | some b, .loadConfig disk domains => ∀ r ∈ rowsOf b.s_state b.domain_id domains,
    disk.Parses r.1 (startZone disk b.s_state r.1 r.2) →
      disk.WellTimed r.1.filename r.1.name (startZone disk b.s_state r.1 r.2).d_loaded
  | some b, .queueReload disk name => ∀ known bbd, b.s_state.name_id_map.find name = some known →
    b.s_state.zone known.2 = some bbd → disk.WellTimed bbd.d_filename bbd.d_name false
  | _, _ => True

/-- The disk that a step reads files from. -/
def Op.disk? : Op → Option Disk
  | .loadConfig disk _ => some disk
  | .queueReload disk _ => some disk
  | _ => none

/-- The zone has the records of its file, whole and in order, as one of the steps has read them. -/
def ReadBy (ops : List Op) (bbd : BB2DomainInfo) : Prop :=
  ∃ op ∈ ops, ∃ disk origin records, op.disk? = some disk ∧ toLower origin = toLower bbd.d_name ∧
    disk.Readable bbd.d_filename origin ∧ bbd.d_records = some records ∧
    WholeZone origin (disk.zoneFile bbd.d_filename origin).records records

/-- Every zone that is loaded has been read. -/
def Served (ops : List Op) (s : State) : Prop :=
  ∀ id bbd, s.zone id = some bbd → bbd.d_loaded = true → ReadBy ops bbd

section Loading

variable {disk : Disk} {i : BindDomainInfo} {bbd : BB2DomainInfo} {ops : List Op} {s : State} {id : Nat}

/-- What `loadConfig` makes of a zone: it is left alone, it is read, or reading it fails. -/
theorem readZone_cases (disk : Disk) (i : BindDomainInfo) (bbd : BB2DomainInfo) :
    (¬ disk.Parses i bbd ∧ readZone disk i bbd = { bbd with d_name := i.name, d_filename := i.filename }) ∨
    (disk.Parses i bbd ∧ disk.Readable i.filename i.name ∧ readZone disk i bbd =
      { bbd with
        d_name := i.name, d_filename := i.filename, d_loaded := true
        d_records := some (setAuth (disk.sort.sort (disk.insertAll i.name i.filename i.name).1)) }) ∨
    (disk.Parses i bbd ∧ ¬ disk.Readable i.filename i.name ∧ readZone disk i bbd =
      { bbd with
        d_name := i.name, d_filename := i.filename
        d_records := some (disk.insertAll i.name i.filename i.name).1 }) := by
  have hparses : (decide (bbd.d_filename ≠ i.filename) || !bbd.d_loaded ||
      !disk.current { bbd with d_name := i.name, d_filename := i.filename }) = true ↔ disk.Parses i bbd := by
    rw [Bool.or_eq_true, Bool.or_eq_true, decide_eq_true_iff, Bool.not_eq_true', Bool.not_eq_true', or_assoc]
    rfl
  unfold readZone
  by_cases h : disk.Parses i bbd
  · right
    rw [if_pos (hparses.mpr h)]
    by_cases hread : disk.Readable i.filename i.name
    · left
      rw [if_pos ((insertAll_snd disk i.filename i.name).mpr hread)]
      exact ⟨h, hread, rfl⟩
    · right
      rw [if_neg fun hend => hread ((insertAll_snd disk i.filename i.name).mp hend)]
      exact ⟨h, hread, rfl⟩
  · left
    refine ⟨h, ?_⟩
    rw [if_neg fun hp => h (hparses.mp hp)]

/-- A zone that starts out as loaded was known, under its name and its id. -/
theorem startZone_loaded (hs : Consistent s)
    (hid : ∀ known, s.name_id_map.find i.name = some known → known.2 = id)
    (h : (startZone disk s i id).d_loaded = true) :
    s.zone id = some (startZone disk s i id) ∧ toLower (startZone disk s i id).d_name = toLower i.name := by
  cases hfind : s.name_id_map.find i.name with
  | none =>
    unfold startZone at h
    rw [hfind] at h
    cases h
  | some known =>
    obtain ⟨bbd, hz, hn, -⟩ := hs.named i.name known.1 known.2 hfind
    have hstart : startZone disk s i id = bbd := by
      unfold startZone
      rw [hfind]
      dsimp only
      rw [hz]
      rfl
    rw [hstart, hn, ← hid known hfind]
    exact ⟨hz, NameIdMap.toLower_of_find (n := known.1) hfind⟩

theorem ReadBy.rename (h : ReadBy ops bbd) {bbd' : BB2DomainInfo} (hname : toLower bbd.d_name = toLower bbd'.d_name)
    (hfile : bbd'.d_filename = bbd.d_filename) (hrecords : bbd'.d_records = bbd.d_records) : ReadBy ops bbd' := by
  obtain ⟨op, hop, disk, origin, records, hdisk, horigin, hread, hrec, hwhole⟩ := h
  refine ⟨op, hop, disk, origin, records, hdisk, horigin.trans hname, ?_, hrecords.trans hrec, ?_⟩
  · rwa [hfile]
  · rwa [hfile]

/-- One zone behind a call of `loadConfig`. -/
theorem readBy_readZone {domains : List BindDomainInfo} (hop : Op.loadConfig disk domains ∈ ops)
    (hs : Consistent s) (hserved : Served ops s)
    (hid : ∀ known, s.name_id_map.find i.name = some known → known.2 = id)
    (htimed : disk.Parses i (startZone disk s i id) →
      disk.WellTimed i.filename i.name (startZone disk s i id).d_loaded)
    (hloaded : (readZone disk i (startZone disk s i id)).d_loaded = true) :
    ReadBy ops (readZone disk i (startZone disk s i id)) := by
  rcases readZone_cases disk i (startZone disk s i id) with
    ⟨hkept, heq⟩ | ⟨hparses, hread, heq⟩ | ⟨hparses, hread, heq⟩
  · -- nothing was read
    rw [heq] at hloaded ⊢
    obtain ⟨hz, hname⟩ := startZone_loaded hs hid hloaded
    have hfile : (startZone disk s i id).d_filename = i.filename := by
      by_contra hne
      exact hkept (.inl hne)
    exact (hserved id _ hz hloaded).rename hname hfile.symm rfl
  · rw [heq]
    have hwhole := wholeZone_sort hread (htimed hparses).2
    exact ⟨_, hop, disk, i.name, _, rfl, rfl, hread, rfl, hwhole.of_bare (bare_setAuth _).symm⟩
  · rw [heq] at hloaded
    have hnot := (htimed hparses).1 hread
    exact absurd (hloaded.symm.trans hnot) (by decide)

/-- What is said of a call of `loadConfig`: every zone comes from its own line of the configuration, its own
file and what was known of it; where the file cannot be read the zone is not loaded, or has the records it
had; and what is loaded has been read. -/
structure LoadsSafely (ops : List Op) (disk : Disk) (domains : List BindDomainInfo) (b b' : Bind2) : Prop where
  apart : ∀ id bbd, b'.s_state.zone id = some bbd →
    ∃ r ∈ rowsOf b.s_state b.domain_id domains, r.2 = id ∧
      bbd = readZone disk r.1 (startZone disk b.s_state r.1 id)
  failed : ∀ id bbd, b'.s_state.zone id = some bbd → ¬ disk.Readable bbd.d_filename bbd.d_name →
    bbd.d_loaded = false ∨ ∃ old, b.s_state.zone id = some old ∧ old.d_loaded = true ∧ ReadBy ops old ∧
      bbd.d_records = old.d_records
  served : Served ops b'.s_state

theorem loadsSafely {domains : List BindDomainInfo} {b b' : Bind2} (hop : Op.loadConfig disk domains ∈ ops)
    (hs : Consistent b.s_state) (hserved : Served ops b.s_state)
    (hone : OneToOne (rowsOf b.s_state b.domain_id domains))
    (htimed : Op.WellTimed (some b) (.loadConfig disk domains)) (hload : loadConfig disk domains b = some b') :
    LoadsSafely ops disk domains b b' := by
  obtain ⟨b'', hload', hstaged⟩ := @exists_loadConfig disk b hs domains hone
  obtain rfl := Option.some.inj (hload.symm.trans hload')
  refine ⟨hstaged.zone_row, fun id bbd hz hread => ?_, fun id bbd hz hloaded => ?_⟩
  · obtain ⟨r, hr, rfl, rfl⟩ := hstaged.zone_row id bbd hz
    rcases readZone_cases disk r.1 (startZone disk b.s_state r.1 r.2) with
      ⟨hkept, heq⟩ | ⟨-, hread', heq⟩ | ⟨hparses, hread', heq⟩
    · rw [heq]
      cases hloaded : (startZone disk b.s_state r.1 r.2).d_loaded with
      | false => exact .inl rfl
      | true =>
        obtain ⟨hold, -⟩ := startZone_loaded hs (mem_rowsOf hr) hloaded
        exact .inr ⟨_, hold, hloaded, hserved r.2 _ hold hloaded, rfl⟩
    · rw [heq] at hread
      exact absurd hread' hread
    · rw [heq]
      exact .inl ((htimed r hr hparses).1 hread')
  · obtain ⟨r, hr, rfl, rfl⟩ := hstaged.zone_row id bbd hz
    exact readBy_readZone hop hs hserved (mem_rowsOf hr) (htimed r hr) hloaded

theorem queueReload_served {b : Bind2} {name : Octets} (hop : Op.queueReload disk name ∈ ops)
    (hs : Consistent b.s_state) (hserved : Served ops b.s_state)
    (htimed : Op.WellTimed (some b) (.queueReload disk name)) :
    Served ops (queueReload disk name b).s_state := by
  cases hfind : b.s_state.name_id_map.find name with
  | none =>
    unfold queueReload
    rw [hfind]
    exact hserved
  | some known =>
    obtain ⟨bbd, hz, -, hid⟩ := hs.named name known.1 known.2 hfind
    rw [queueReload_eq hfind hz hid]
    intro id z hz' hloaded
    by_cases heq : id = known.2
    · subst heq
      rw [zone_setZone_same] at hz'
      obtain rfl := Option.some.inj hz'
      unfold reloadZone at hloaded ⊢
      by_cases hread : disk.Readable bbd.d_filename bbd.d_name
      · rw [if_pos ((insertAll_snd disk bbd.d_filename bbd.d_name).mpr hread)]
        have hwhole := wholeZone_sort hread (htimed known bbd hfind hz).2
        exact ⟨_, hop, disk, bbd.d_name, _, rfl, rfl, hread, rfl, hwhole⟩
      · rw [if_neg fun hend => hread ((insertAll_snd disk bbd.d_filename bbd.d_name).mp hend)] at hloaded
        cases hloaded
    · rw [zone_setZone_other heq] at hz'
      exact hserved id z hz' hloaded

/-- A program that runs, serves what it has read, and has maps that are inverse to each other. -/
def Serving (ops : List Op) (x : Option Bind2) : Prop :=
  ∃ b, x = some b ∧ Consistent b.s_state ∧ Served ops b.s_state

theorem step_serving (x : Option Bind2) (op : Op) (h : Serving ops x)
    (hok : (op.Safe x ∧ op.WellTimed x) ∧ op ∈ ops) : Serving ops (step x op) := by
  obtain ⟨b, rfl, hs, hserved⟩ := h
  obtain ⟨b', hstep, hs'⟩ := step_running (some b) op ⟨b, rfl, hs⟩ hok.1.1
  refine ⟨b', hstep, hs', ?_⟩
  cases op with
  | loadConfig disk domains => exact (loadsSafely hok.2 hs hserved hok.1.1 hok.1.2 hstep).served
  | queueReload disk name =>
    obtain rfl := Option.some.inj hstep
    exact queueReload_served hok.2 hs hserved hok.1.2
  | reload =>
    obtain rfl := Option.some.inj hstep
    intro id bbd hz hloaded
    rw [zone_reload] at hz
    obtain ⟨old, hold, rfl⟩ := Option.map_eq_some_iff.mp hz
    exact (hserved id old hold hloaded).rename rfl rfl rfl
  | createSlaveDomain disk domain filename =>
    obtain rfl := Option.some.inj hstep
    intro id bbd hz hloaded
    by_cases heq : id = newId b.s_state
    · -- a zone just made is not loaded
      subst heq
      change (b.s_state.setZone (newId b.s_state) _).zone (newId b.s_state) = some bbd at hz
      rw [zone_setZone_same, zone_newId hs] at hz
      obtain rfl := Option.some.inj hz
      cases hloaded
    · change (b.s_state.setZone (newId b.s_state) _).zone id = some bbd at hz
      rw [zone_setZone_other heq] at hz
      exact hserved id bbd hz hloaded

theorem init_serving (ops : List Op) : Serving ops (some Bind2.init) := by
  refine ⟨Bind2.init, rfl, empty_consistent, fun id bbd hz => ?_⟩
  cases hz

end Loading

/-- A zone that is read, and read again without a change; then the file is gone. -/
def timedRun : List Op :=
  [.loadConfig (exampleDisk 0) [exampleDomain "example.com"], .reload,
    .queueReload (exampleDisk 0) (ascii "example.com"),
    .loadConfig { exampleDisk 0 with zoneFile := fun _ _ => { records := [], throws := true } }
      [exampleDomain "example.com"]]

instance (disk : Disk) (i : BindDomainInfo) (bbd : BB2DomainInfo) : Decidable (disk.Parses i bbd) :=
  inferInstanceAs (Decidable (bbd.d_filename ≠ i.filename ∨ bbd.d_loaded = false ∨
    disk.current { bbd with d_name := i.name, d_filename := i.filename } = false))

instance (disk : Disk) (filename origin : Octets) : Decidable (disk.Readable filename origin) :=
  decidable_of_iff _ (insertAll_snd disk filename origin)

instance (disk : Disk) (filename origin : Octets) (loaded : Bool) :
    Decidable (disk.WellTimed filename origin loaded) :=
  match h : Bind2Backend.insertAll origin (disk.zoneFile filename origin).records with
  | .ok inserted =>
    decidable_of_iff ((¬ disk.Readable filename origin → loaded = false) ∧ SOAFirst inserted)
      (and_congr_right fun _ => ⟨fun hfirst inserted' heq => Except.ok.inj (h.symm.trans heq) ▸ hfirst,
        fun hall => hall inserted h⟩)
  | .error e =>
    decidable_of_iff (¬ disk.Readable filename origin → loaded = false)
      ⟨fun hread => ⟨hread, fun inserted heq => by cases h.symm.trans heq⟩, And.left⟩

instance : ∀ (x : Option Bind2) (op : Op), Decidable (op.WellTimed x)
  | none, _ => isTrue trivial
  | some b, .loadConfig disk domains =>
    inferInstanceAs (Decidable (∀ r ∈ rowsOf b.s_state b.domain_id domains,
      disk.Parses r.1 (startZone disk b.s_state r.1 r.2) →
        disk.WellTimed r.1.filename r.1.name (startZone disk b.s_state r.1 r.2).d_loaded))
  | some b, .queueReload disk name =>
    match h : b.s_state.name_id_map.find name with
    | none => isTrue fun known bbd hfind => by cases h.symm.trans hfind
    | some known =>
      match hz : b.s_state.zone known.2 with
      | none => isTrue fun known' bbd hfind hzone => by
          obtain rfl := Option.some.inj (h.symm.trans hfind)
          cases hz.symm.trans hzone
      | some bbd =>
        decidable_of_iff (disk.WellTimed bbd.d_filename bbd.d_name false)
          ⟨fun htimed known' bbd' hfind hzone => by
            obtain rfl := Option.some.inj (h.symm.trans hfind)
            obtain rfl := Option.some.inj (hz.symm.trans hzone)
            exact htimed, fun hall => hall known bbd h hz⟩
  | some _, .reload => isTrue trivial
  | some _, .createSlaveDomain _ _ _ => isTrue trivial

/-- A zone that is read, and then its file is found to end behind the first record. -/
def brokenRun : List Op :=
  [.loadConfig (exampleDisk 0) [exampleDomain "example.com"],
    .loadConfig { exampleDisk 0 with
      zoneFile := fun _ _ => { records := exampleFile.take 1, throws := true }, unchanged := fun _ => false }
      [exampleDomain "example.com"]]

theorem length_insertAll {d_name : Octets} {rrs : List TextRR} {inserted : List Bind2DNSRecord}
    (h : insertAll d_name rrs = .ok inserted) : inserted.length = rrs.length := by
  induction rrs generalizing inserted with
  | nil =>
    obtain rfl := Except.ok.inj h
    rfl
  | cons rr rrs ih =>
    rw [insertAll] at h
    cases hnew : newRecord d_name rr with
    | error e =>
      rw [hnew] at h
      cases h
    | ok bdr =>
      rw [hnew] at h
      cases hall : insertAll d_name rrs with
      | error e =>
        rw [hall] at h
        cases h
      | ok rest =>
        rw [hall] at h
        obtain rfl := Except.ok.inj h
        exact congrArg Nat.succ (ih hall)

/-- What is served of a zone. -/
def BB2DomainInfo.served (bbd : BB2DomainInfo) : Option (List Bind2DNSRecord) :=
  if bbd.d_loaded then bbd.d_records else none

section Again

variable {l l' : List Bind2DNSRecord} {a b : Bind2DNSRecord}

theorem hasNS_bare (l : List Bind2DNSRecord) (sqname : Octets) :
    hasNS (l.map Bind2DNSRecord.bare) sqname = hasNS l sqname := by
  unfold hasNS equalRange lowerBound
  rw [dropWhile_map, takeWhile_map, any_map]
  rfl

/-- Whether a record is authoritative does not depend on the flags there were. -/
theorem authOf_congr (hl : l.map Bind2DNSRecord.bare = l'.map Bind2DNSRecord.bare) (hab : a.bare = b.bare) :
    authOf l a = authOf l' b := by
  have hhas : hasNS l = hasNS l' := by
    funext sqname
    rw [← hasNS_bare l, hl, hasNS_bare]
  have hname : a.bare.qname = b.bare.qname := congrArg Bind2DNSRecord.qname hab
  have htype : a.bare.qtype = b.bare.qtype := congrArg Bind2DNSRecord.qtype hab
  change a.qname = b.qname at hname
  change a.qtype = b.qtype at htype
  unfold authOf
  rw [hhas, hname, htype]

/-- All flags are the one that was there. -/
theorem auth_insertFile {d_name : Octets} {rrs : List TextRR} {n : Nat} {flag : Bool} {bdr : Bind2DNSRecord}
    (h : bdr ∈ (insertFile d_name (fun _ => flag) n rrs).1) : bdr.auth = flag := by
  induction rrs generalizing n with
  | nil => cases h
  | cons rr rrs ih =>
    rw [insertFile] at h
    cases hnew : newRecord d_name rr with
    | error e =>
      rw [hnew] at h
      cases h
    | ok new =>
      rw [hnew] at h
      rcases mem_cons.mp h with rfl | h
      · rfl
      · exact ih h

variable {disk : Disk} {i : BindDomainInfo} {bbd : BB2DomainInfo}

/-- The same disk, with another flag in uninitialised records. -/
def Disk.withFlag (disk : Disk) (flag : Bool) : Disk := { disk with strayAuth := fun _ => flag }

theorem served_readZone (hparses : disk.Parses i bbd) : (readZone disk i bbd).served =
    if disk.Readable i.filename i.name then
      some (setAuth (disk.sort.sort (disk.insertAll i.name i.filename i.name).1))
    else if bbd.d_loaded then some (disk.insertAll i.name i.filename i.name).1 else none := by
  rcases readZone_cases disk i bbd with ⟨hkept, -⟩ | ⟨-, hread, heq⟩ | ⟨-, hread, heq⟩
  · exact absurd hparses hkept
  · rw [heq, if_pos hread]
    rfl
  · rw [heq, if_neg hread]
    rfl

theorem served_reloadZone (disk : Disk) (bbd : BB2DomainInfo) : (reloadZone disk bbd).served =
    if disk.Readable bbd.d_filename bbd.d_name then
      some (disk.sort.sort (disk.insertAll bbd.d_name bbd.d_filename bbd.d_name).1)
    else none := by
  unfold reloadZone
  by_cases hread : disk.Readable bbd.d_filename bbd.d_name
  · rw [if_pos ((insertAll_snd disk bbd.d_filename bbd.d_name).mpr hread), if_pos hread]
    rfl
  · rw [if_neg fun hend => hread ((insertAll_snd disk bbd.d_filename bbd.d_name).mp hend), if_neg hread]
    rfl

/-- Records that have the right flags whatever was in them are none. -/
theorem records_eq_nil {origin filename : Octets} (hread : disk.Readable filename origin)
    (h : ∀ flag, (disk.sort.sort ((disk.withFlag flag).insertAll origin filename origin).1) =
      setAuth (disk.sort.sort ((disk.withFlag flag).insertAll origin filename origin).1)) :
    (disk.zoneFile filename origin).records = [] := by
  obtain ⟨-, inserted, hall⟩ := hread
  have hbare : ∀ flag, ((disk.withFlag flag).insertAll origin filename origin).1.map Bind2DNSRecord.bare =
      inserted := by
    intro flag
    rcases @insertFile_eq origin (disk.zoneFile filename origin).records (fun _ => flag) 0 with
      ⟨inserted', hall', -, hbare⟩ | ⟨⟨e, hall'⟩, -⟩
    · obtain rfl := Except.ok.inj (hall.symm.trans hall')
      exact hbare
    · cases hall.symm.trans hall'
  have hflag : ∀ flag, ∀ bdr ∈ disk.sort.sort ((disk.withFlag flag).insertAll origin filename origin).1,
      authOf (disk.sort.sort ((disk.withFlag flag).insertAll origin filename origin).1) bdr = flag := by
    intro flag bdr hbdr
    -- the flag that was there, and the one that is worked out
    have hauth := auth_insertFile ((disk.sort.perm _).mem_iff.mp hbdr)
    have hset : ∀ x ∈ setAuth (disk.sort.sort ((disk.withFlag flag).insertAll origin filename origin).1),
        x.auth = authOf (disk.sort.sort ((disk.withFlag flag).insertAll origin filename origin).1) x := by
      intro x hx
      obtain ⟨y, -, rfl⟩ := mem_map.mp hx
      exact authOf_congr rfl rfl
    rw [← hset bdr (h flag ▸ hbdr), hauth]
  have hsame := disk.sort.sort_bare _ _ ((hbare true).trans (hbare false).symm)
  cases hl : disk.sort.sort ((disk.withFlag true).insertAll origin filename origin).1 with
  | nil =>
    have hperm := disk.sort.perm ((disk.withFlag true).insertAll origin filename origin).1
    rw [hl] at hperm
    have hnil := hbare true
    rw [hperm.nil_eq.symm] at hnil
    have hlength := length_insertAll hall
    rw [← hnil] at hlength
    exact length_eq_zero_iff.mp hlength.symm
  | cons bdr rest =>
    have hx : bdr ∈ disk.sort.sort ((disk.withFlag true).insertAll origin filename origin).1 :=
      hl ▸ mem_cons_self
    have hy : bdr.bare ∈ (disk.sort.sort ((disk.withFlag false).insertAll origin filename origin).1).map
        Bind2DNSRecord.bare := hsame ▸ mem_map_of_mem hx
    obtain ⟨bdr', hbdr', hbb⟩ := mem_map.mp hy
    have htrue := hflag true bdr hx
    rw [authOf_congr hsame hbb.symm, hflag false bdr' hbdr'] at htrue
    cases htrue

/-- The zone as it is served behind a step. -/
def servedAt (x : Option Bind2) (id : Nat) : Option (List Bind2DNSRecord) :=
  (x.bind fun b => b.s_state.zone id).bind BB2DomainInfo.served

/-- **When a reload installs what a load does.** For a known zone that is once in the configuration, with the
file it has, and whose file `loadConfig` reads: whatever is in uninitialised flags, both install the same,
if and only if the file has no records, or cannot be read and the zone was not loaded. -/
theorem reload_equals_load_iff {s : Bind2} (hs : Consistent s.s_state) {id : Nat}
    (hz : s.s_state.zone id = some bbd) {domains : List BindDomainInfo}
    (hone : OneToOne (rowsOf s.s_state s.domain_id domains))
    (hmem : ∃ r ∈ rowsOf s.s_state s.domain_id domains, r.2 = id)
    (honly : ∀ r ∈ rowsOf s.s_state s.domain_id domains, r.2 = id →
      s.s_state.name_id_map.find r.1.name ≠ none ∧ r.1.name = bbd.d_name ∧ r.1.filename = bbd.d_filename ∧
        disk.Parses r.1 bbd) :
    (∀ flag, servedAt (step (some s) (.queueReload (disk.withFlag flag) bbd.d_name)) id =
        servedAt (step (some s) (.loadConfig (disk.withFlag flag) domains)) id) ↔
      if disk.Readable bbd.d_filename bbd.d_name then
        (disk.zoneFile bbd.d_filename bbd.d_name).records = []
      else bbd.d_loaded = false := by
  obtain ⟨n, hfind⟩ := hs.reachable id bbd hz
  obtain ⟨bbd', hz', hn, hid⟩ := hs.named n n id hfind
  obtain rfl := Option.some.inj (hz.symm.trans hz')
  subst hn
  have hreload : ∀ flag, servedAt (step (some s) (.queueReload (disk.withFlag flag) bbd.d_name)) id =
      (reloadZone (disk.withFlag flag) bbd).served := by
    intro flag
    change ((queueReload (disk.withFlag flag) bbd.d_name s).s_state.zone id).bind _ = _
    rw [queueReload_eq hfind hz hid]
    exact congrArg (·.bind BB2DomainInfo.served) zone_setZone_same
  have hload : ∀ flag, ∃ i : BindDomainInfo, i.name = bbd.d_name ∧ i.filename = bbd.d_filename ∧
      disk.Parses i bbd ∧ servedAt (step (some s) (.loadConfig (disk.withFlag flag) domains)) id =
        (readZone (disk.withFlag flag) i bbd).served := by
    intro flag
    obtain ⟨b', hstep, hstaged⟩ := @exists_loadConfig (disk.withFlag flag) s hs domains hone
    obtain ⟨r, hr, rfl⟩ := hmem
    obtain ⟨z, hzone⟩ := hstaged.row_zone r hr
    obtain ⟨r', hr', hid', rfl⟩ := hstaged.zone_row r.2 z hzone
    obtain ⟨hknown, hname, hfile, hparses⟩ := honly r' hr' hid'
    have hstart : startZone (disk.withFlag flag) s.s_state r'.1 r.2 = bbd := by
      unfold startZone
      cases hfound : s.s_state.name_id_map.find r'.1.name with
      | none => exact absurd hfound hknown
      | some known =>
        have hknownId := mem_rowsOf hr' known hfound
        dsimp only
        rw [hknownId, hid', hz]
        rfl
    refine ⟨r'.1, hname, hfile, hparses, ?_⟩
    change ((loadConfig (disk.withFlag flag) domains s).bind _).bind _ = _
    rw [hstep, Option.bind_some, hzone, Option.bind_some, hstart]
  by_cases hread : disk.Readable bbd.d_filename bbd.d_name
  · rw [if_pos hread]
    -- both have read the file and sorted its records
    have hboth : ∀ flag, servedAt (step (some s) (.queueReload (disk.withFlag flag) bbd.d_name)) id =
          some (disk.sort.sort ((disk.withFlag flag).insertAll bbd.d_name bbd.d_filename bbd.d_name).1) ∧
        servedAt (step (some s) (.loadConfig (disk.withFlag flag) domains)) id =
          some (setAuth (disk.sort.sort
            ((disk.withFlag flag).insertAll bbd.d_name bbd.d_filename bbd.d_name).1)) := by
      intro flag
      obtain ⟨i, hname, hfile, hparses, hserved⟩ := hload flag
      have hread' : (disk.withFlag flag).Readable bbd.d_filename bbd.d_name := hread
      have hparses' : (disk.withFlag flag).Parses i bbd := hparses
      rw [hreload, served_reloadZone, if_pos hread', hserved, served_readZone hparses', hname, hfile,
        if_pos hread']
      exact ⟨rfl, rfl⟩
    constructor
    · intro h
      refine records_eq_nil hread fun flag => ?_
      obtain ⟨hleft, hright⟩ := hboth flag
      exact Option.some.inj (hleft.symm.trans ((h flag).trans hright))
    · intro hnil flag
      have hempty : ((disk.withFlag flag).insertAll bbd.d_name bbd.d_filename bbd.d_name).1 = [] := by
        change (insertFile bbd.d_name _ 0 (disk.zoneFile bbd.d_filename bbd.d_name).records).1 = []
        rw [hnil]
        rfl
      have hsorted : disk.sort.sort [] = [] := (disk.sort.perm []).eq_nil
      rw [(hboth flag).1, (hboth flag).2, hempty, hsorted]
      rfl
  · rw [if_neg hread]
    have hleft : ∀ flag, servedAt (step (some s) (.queueReload (disk.withFlag flag) bbd.d_name)) id = none := by
      intro flag
      have hread' : ¬ (disk.withFlag flag).Readable bbd.d_filename bbd.d_name := hread
      rw [hreload, served_reloadZone, if_neg hread']
    have hright : ∀ flag, (servedAt (step (some s) (.loadConfig (disk.withFlag flag) domains)) id = none ↔
        bbd.d_loaded = false) := by
      intro flag
      obtain ⟨i, hname, hfile, hparses, hserved⟩ := hload flag
      have hread' : ¬ (disk.withFlag flag).Readable bbd.d_filename bbd.d_name := hread
      have hparses' : (disk.withFlag flag).Parses i bbd := hparses
      rw [hserved, served_readZone hparses', hname, hfile, if_neg hread']
      cases bbd.d_loaded with
      | false => exact iff_of_true rfl rfl
      | true => exact iff_of_false (Option.some_ne_none _) (by decide)
    constructor
    · exact fun h => (hright true).mp ((h true).symm.trans (hleft true))
    · exact fun h flag => (hleft flag).trans ((hright flag).mpr h).symm

end Again

/-- A disk whose zone files are empty, and always look new. -/
def emptyDisk : Disk :=
  { exampleDisk 0 with zoneFile := fun _ _ => { records := [] }, unchanged := fun _ => false }

/-- An empty zone is the same when it is reloaded. -/
theorem empty_zone_reloads : ∃ s bbd, s.s_state.zone 1 = some bbd ∧ ∀ flag,
    servedAt (step (some s) (.queueReload (emptyDisk.withFlag flag) bbd.d_name)) 1 =
      servedAt (step (some s) (.loadConfig (emptyDisk.withFlag flag) [exampleDomain "example.com"])) 1 := by
  obtain ⟨s, hs, hconsistent⟩ := @loadConfig_consistent emptyDisk Bind2.init empty_consistent
    [exampleDomain "example.com"] (by decide)
  have hzone : ((loadConfig emptyDisk [exampleDomain "example.com"] Bind2.init).bind
      fun s => s.s_state.zone 1).isSome := by decide
  have hrows : (loadConfig emptyDisk [exampleDomain "example.com"] Bind2.init).all (fun s =>
      (s.s_state.zone 1).all fun bbd =>
        decide (OneToOne (rowsOf s.s_state s.domain_id [exampleDomain "example.com"]) ∧
          (∃ r ∈ rowsOf s.s_state s.domain_id [exampleDomain "example.com"], r.2 = 1) ∧
          ∀ r ∈ rowsOf s.s_state s.domain_id [exampleDomain "example.com"], r.2 = 1 →
            s.s_state.name_id_map.find r.1.name ≠ none ∧ r.1.name = bbd.d_name ∧
              r.1.filename = bbd.d_filename ∧ emptyDisk.Parses r.1 bbd)) = true := by decide
  rw [hs, Option.bind_some] at hzone
  obtain ⟨bbd, hz⟩ := Option.isSome_iff_exists.mp hzone
  rw [hs, Option.all_some, hz, Option.all_some] at hrows
  obtain ⟨hone, hmem, honly⟩ := of_decide_eq_true hrows
  refine ⟨s, bbd, hz, (reload_equals_load_iff hconsistent hz hone hmem honly).mpr ?_⟩
  rfl

/-- A zone with a delegation: behind a reload the name server record of the delegation has the flag that
happened to be there, behind a load it is not authoritative. -/
theorem reloaded_flags_differ :
    servedAt (run step (some Bind2.init) [.loadConfig (exampleDisk 0) [exampleDomain "example.com"],
        .queueReload ((exampleDisk 0).withFlag true) (ascii "example.com")]) 1 ≠
      servedAt (run step (some Bind2.init) [.loadConfig (exampleDisk 0) [exampleDomain "example.com"], .reload,
        .loadConfig ((exampleDisk 0).withFlag true) [exampleDomain "example.com"]]) 1 := by
  decide

end Bind2Backend

end PowerDNS
