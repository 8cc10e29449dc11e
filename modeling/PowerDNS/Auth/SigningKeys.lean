import PowerDNS.Base.Scan
import PowerDNS.Lib.Calendar
import PowerDNS.Packet.RecordClasses

/-!
# The keys of a zone

`DNSSECKeeper` keeps the keys of a zone as files. The name of a zone signing key says from when to when it is
valid: two calendar times, the first the beginning of a week (`getCurrentInception`), the second 14 days
later, and a key made as the next one is valid for the 14 days after these. `getZSKsFor` reads the names back
and marks a key as active when the time at hand lies strictly between the two, and `getDNSKEYFor` takes the
first active one, or ends the program.

`validity_keyName` says that the names are read as they were written. The keys that one call after the other
leaves behind then cover the time from the week of the first call to the end of the second key, but for a few
instants: `zsk_active_iff`.
-/

namespace PowerDNS

open List

/-! ### Keys -/

/-- What the RSA library says about its contexts: the exponent and the modulus, in their octets. -/
structure RSALibrary (K : Type) where
  E : K → Octets
  N : K → Octets

/-- `DNSSECPrivateKey`. -/
structure DNSSECPrivateKey (K : Type) where
  d_key : K
  d_algorithm : UInt8

/-- `makeDNSKEYFromRSAKey(rc, algorithm)`. -/
def makeDNSKEYFromRSAKey {K : Type} (rsa : RSALibrary K) (rc : K) (algorithm : UInt8) : DNSKEYContent :=
  let exponent := rsa.E rc
  let modulus := rsa.N rc
  let length := if exponent.length < 255 then [UInt8.ofNat exponent.length]
    else 0 :: be16 (UInt16.ofNat exponent.length)
  { d_flags := if 128 < modulus.length then 257 else 256
    d_protocol := 3
    d_algorithm := algorithm
    d_key := length ++ exponent ++ modulus }

/-- `getDNSKEY()`. -/
def DNSSECPrivateKey.getDNSKEY {K : Type} (rsa : RSALibrary K) (dpk : DNSSECPrivateKey K) : DNSKEYContent :=
  makeDNSKEYFromRSAKey rsa dpk.d_key dpk.d_algorithm

/-- The loop of `getTag`: octets at even places count 256 times. -/
def tagSum : Octets → Nat
  | [] => 0
  | [a] => 256 * a.toNat
  | a :: b :: key => 256 * a.toNat + b.toNat + tagSum key

/-- `getTag()`. -/
def DNSKEYContent.getTag (drc : DNSKEYContent) : UInt16 :=
  let ac := tagSum (((RecordContent.DNSKEY drc).serialize [] false).getD [])
  UInt16.ofNat (ac + ac / 65536 % 65536)

/-! ### File names -/

/-- `getCurrentInception()`: the week, as a number of seconds with 32 bits. -/
def getCurrentInception (now : Nat) : Nat :=
  let now := now % 2 ^ 32
  now - now % (7 * 86400)

/-- `%04d%02d%02d%02d%02d` of a broken-down time. -/
def stamp (ts : Calendar.Tm) : Octets :=
  zeroPadded 4 (1900 + ts.tm_year) ++ (zeroPadded 2 (ts.tm_mon + 1) ++ (zeroPadded 2 ts.tm_mday ++
    (zeroPadded 2 ts.tm_hour ++ zeroPadded 2 ts.tm_min)))

/-- The name of a file of `addZSKFor`, without its ending. -/
def keyName (inception end_ : Nat) (tag : UInt16) : Octets :=
  stamp (Calendar.gmtime inception) ++ 45 :: (stamp (Calendar.gmtime end_) ++ 46 :: decimal tag.toNat)

/-- The format with which `getZSKsFor` reads it. -/
def keyFormat : List Scan :=
  [.int 4, .int 2, .int 2, .int 2, .int 2, .literal 45, .int 4, .int 2, .int 2, .int 2, .int 2]

/-- The two times in the name of a file. What `sscanf` does not store stays zero. -/
def validity (fname : Octets) : Int × Int :=
  let fields := sscanf keyFormat fname
  let ts (n : Nat) : Calendar.Tm :=
    { tm_year := fields.getD n 0 - 1900
      tm_mon := fields.getD (n + 1) 0 - 1
      tm_mday := fields.getD (n + 2) 0
      tm_hour := fields.getD (n + 3) 0
      tm_min := fields.getD (n + 4) 0
      tm_sec := 0 }
  (Calendar.timegm (ts 0), Calendar.timegm (ts 5))

/-- `.isc`. -/
def isc : Octets := [46, 105, 115, 99]

/-- `ends_with(leaf, ".isc")`. -/
def isKeyFile (leaf : Octets) : Bool := isc.isSuffixOf leaf

/-! ### `DNSSECKeeper` -/

/-- The files of a directory that hold keys, in the order in which it is listed; a key is what is read from
its file. Public keys are written to files of another name, which are not read. -/
abbrev KeyFiles (K : Type) := List (Octets × K)

/-- Writes a file, in the place of one with the same name. -/
def KeyFiles.write {K : Type} (files : KeyFiles K) (leaf : Octets) (key : K) : KeyFiles K :=
  files.filter (fun file => file.1 != leaf) ++ [(leaf, key)]

/-- What is kept for a zone: the directories, if they exist, and whether there is a file `nsec3param`. -/
structure ZoneKeys (K : Type) where
  ksks : Option (KeyFiles K)
  zsks : Option (KeyFiles K)
  nsec3param : Bool
  deriving DecidableEq

/-- `KeyMetaData`. -/
structure KeyMetaData where
  beginValidity : Int
  endValidity : Int
  active : Bool
  fname : Octets

namespace ZoneKeys

variable {K : Type}

/-- The algorithm of keys that are read. -/
def algorithm (keys : ZoneKeys K) : UInt8 := if keys.nsec3param then 7 else 5

/-- `haveKSKFor(zone, dpk)`: the first key in the directory. -/
def haveKSKFor (keys : ZoneKeys K) : Option (DNSSECPrivateKey K) :=
  ((keys.ksks.getD []).find? fun file => isKeyFile file.1).map fun file => ⟨file.2, keys.algorithm⟩

/-- `addZSKFor(name, algorithm, next)` with the key that it makes. Where there is no directory, nothing is
written. -/
def addZSKFor (rsa : RSALibrary K) (keys : ZoneKeys K) (now : Nat) (key : K) (algorithm : UInt8) (next : Bool) :
    ZoneKeys K :=
  let drc := { makeDNSKEYFromRSAKey rsa key algorithm with d_flags := 256 }
  let inception := getCurrentInception now + if next then 14 * 86400 else 0
  let iscName := keyName inception (inception + 14 * 86400) drc.getTag
  { keys with zsks := keys.zsks.map fun files => files.write (iscName ++ isc) key }

/-- `deleteZSKFor(zname, fname)`. -/
def deleteZSKFor (keys : ZoneKeys K) (fname : Octets) : ZoneKeys K :=
  { keys with zsks := keys.zsks.map fun files => files.filter fun file => file.1 != fname }

/-- What `getZSKsFor` says about a file. -/
def metaData (now : Nat) (leaf : Octets) : KeyMetaData :=
  { beginValidity := (validity leaf).1
    endValidity := (validity leaf).2
    active := decide ((validity leaf).1 < now ∧ now < (validity leaf).2)
    fname := leaf }

/-- `getZSKsFor(zone)`: sorted by their times. Which of two keys with the same times comes first is left to
`sort`. -/
def getZSKsFor (keys : ZoneKeys K) (now : Nat) : List (DNSSECPrivateKey K × KeyMetaData) :=
  let zskset := ((keys.zsks.getD []).filter fun file => isKeyFile file.1).map fun file =>
    ((⟨file.2, keys.algorithm⟩ : DNSSECPrivateKey K), metaData now file.1)
  zskset.insertionSort fun a b => a.2.beginValidity < b.2.beginValidity ∨
    (a.2.beginValidity = b.2.beginValidity ∧ a.2.endValidity ≤ b.2.endValidity)

/-- `getDNSKEYFor(keyRepositoryDir, qname, withKSK, rc)`: the key for the zone and the context to sign with;
`none` stands for `exit(1)`. -/
def getDNSKEYFor (rsa : RSALibrary K) (keys : ZoneKeys K) (now : Nat) (withKSK : Bool) :
    Option (DNSKEYContent × K) :=
  let found := if withKSK then keys.haveKSKFor
    else ((keys.getZSKsFor now).find? fun value => value.2.active).map Prod.fst
  found.map fun dpk => (dpk.getDNSKEY rsa, dpk.d_key)

/-- The command `update-zone-keys`, with the keys that it makes. -/
def updateZoneKeys (rsa : RSALibrary K) (keys : ZoneKeys K) (now : Nat) (key nextKey : K) : ZoneKeys K :=
  match keys.haveKSKFor with
  | none => keys
  | some _ =>
    let zskset := keys.getZSKsFor now
    -- expired more than two days ago
    let old := zskset.filter fun value => value.2.endValidity < (now : Int) - 2 * 86400
    let kept := old.foldl (fun keys value => keys.deleteZSKFor value.2.fname) keys
    if 2 ≤ (zskset.filter fun value => value.2.active).length then kept
    else (kept.addZSKFor rsa now key 5 false).addZSKFor rsa now nextKey 5 true

end ZoneKeys

/-! ### A name is read as it was written -/

section Names

/-- The fields of a calendar time of the years with four digits. -/
theorem stamp_fields {t : Nat} (ht : t < 2 ^ 33) : ∃ year mon mday hour min : Nat,
    stamp (Calendar.gmtime t) = zeroPadded 4 year ++ (zeroPadded 2 mon ++ (zeroPadded 2 mday ++
      (zeroPadded 2 hour ++ zeroPadded 2 min))) ∧
    (year < 10 ^ 4 ∧ mon < 10 ^ 2 ∧ mday < 10 ^ 2 ∧ hour < 10 ^ 2 ∧ min < 10 ^ 2) ∧
    Calendar.gmtime t =
      ⟨(year : Int) - 1900, (mon : Int) - 1, mday, hour, min, (Calendar.gmtime t).tm_sec⟩ := by
  obtain ⟨year, mon, mday, hour, min, sec, ⟨hy, hm, hd, hh, hi, -⟩, hfields⟩ := Calendar.exists_fields ht
  refine ⟨year, mon, mday, hour, min, ?_, ⟨hy, hm, hd, hh, hi⟩, by rw [hfields]⟩
  have hyear : (1900 : Int) + ((year : Int) - 1900) = year := by omega
  have hmon : (mon : Int) - 1 + 1 = mon := by omega
  unfold stamp
  rw [hfields, hyear, hmon]

/-- A calendar time is read from its stamp. -/
theorem sscanf_stamp {t : Nat} (ht : t < 2 ^ 33) (format : List Scan) (rest : Octets) :
    sscanf (.int 4 :: .int 2 :: .int 2 :: .int 2 :: .int 2 :: format) (stamp (Calendar.gmtime t) ++ rest) =
      [(Calendar.gmtime t).tm_year + 1900, (Calendar.gmtime t).tm_mon + 1, (Calendar.gmtime t).tm_mday,
        (Calendar.gmtime t).tm_hour, (Calendar.gmtime t).tm_min] ++ sscanf format rest := by
  obtain ⟨year, mon, mday, hour, min, hstamp, ⟨hy, hm, hd, hh, hi⟩, hfields⟩ := stamp_fields ht
  have hyear : (year : Int) - 1900 + 1900 = year := by omega
  have hmon : (mon : Int) - 1 + 1 = mon := by omega
  rw [hstamp, hfields]
  simp only [append_assoc]
  rw [sscanf_int (by decide) hy, sscanf_int (by decide) hm, sscanf_int (by decide) hd,
    sscanf_int (by decide) hh, sscanf_int (by decide) hi, hyear, hmon]
  rfl

/-- **The name of a file says what it was made for**, when the times are whole minutes. -/
theorem validity_keyName {inception end_ : Nat} (hinception : inception < 2 ^ 33) (hend : end_ < 2 ^ 33)
    (hminute : inception % 60 = 0) (hminute' : end_ % 60 = 0) (tag : UInt16) :
    validity (keyName inception end_ tag ++ isc) = ((inception : Int), (end_ : Int)) := by
  have hfields : sscanf keyFormat (keyName inception end_ tag ++ isc) =
      [(Calendar.gmtime inception).tm_year + 1900, (Calendar.gmtime inception).tm_mon + 1,
        (Calendar.gmtime inception).tm_mday, (Calendar.gmtime inception).tm_hour,
        (Calendar.gmtime inception).tm_min, (Calendar.gmtime end_).tm_year + 1900,
        (Calendar.gmtime end_).tm_mon + 1, (Calendar.gmtime end_).tm_mday, (Calendar.gmtime end_).tm_hour,
        (Calendar.gmtime end_).tm_min] := by
    have hsplit : keyName inception end_ tag ++ isc = stamp (Calendar.gmtime inception) ++
        45 :: (stamp (Calendar.gmtime end_) ++ (46 :: decimal tag.toNat ++ isc)) := by
      unfold keyName
      simp only [append_assoc, cons_append]
    unfold keyFormat
    rw [hsplit, sscanf_stamp hinception, sscanf_literal, sscanf_stamp hend]
    rfl
  -- the seconds are not in the name, and they are zero
  have htime : ∀ t : Nat, t % 60 = 0 →
      Calendar.timegm ⟨(Calendar.gmtime t).tm_year + 1900 - 1900, (Calendar.gmtime t).tm_mon + 1 - 1,
        (Calendar.gmtime t).tm_mday, (Calendar.gmtime t).tm_hour, (Calendar.gmtime t).tm_min, 0⟩ = t := by
    intro t ht
    have hsec : (Calendar.gmtime t).tm_sec = 0 := by
      change ((t % 60 : Nat) : Int) = 0
      rw [ht]
      rfl
    have hwhole := Calendar.timegm_gmtime t
    generalize Calendar.gmtime t = ts at hsec hwhole ⊢
    obtain ⟨tm_year, tm_mon, tm_mday, tm_hour, tm_min, tm_sec⟩ := ts
    rw [← hwhole]
    dsimp only at hsec ⊢
    rw [hsec, Int.add_sub_cancel, Int.add_sub_cancel]
  unfold validity
  rw [hfields]
  exact Prod.ext (htime inception hminute) (htime end_ hminute')

theorem getCurrentInception_spec (now : Nat) : getCurrentInception now % 60 = 0 ∧
    getCurrentInception now < 2 ^ 32 ∧ getCurrentInception now ≤ now ∧
      (now < 2 ^ 32 → now < getCurrentInception now + 7 * 86400) ∧
        (2 ^ 32 ≤ now → getCurrentInception now + 2 ^ 32 ≤ now) := by
  unfold getCurrentInception
  dsimp only
  omega

theorem getCurrentInception_mono {t t' : Nat} (h : t ≤ t') (ht' : t' < 2 ^ 32) :
    getCurrentInception t ≤ getCurrentInception t' := by
  unfold getCurrentInception
  dsimp only
  omega

end Names

/-! ### What a run leaves of the keys -/

/-- What happens to the keys of a zone that has been secured. -/
inductive KeyOp (K : Type)
  | addZSKFor (key : K) (algorithm : UInt8) (next : Bool)
  | updateZoneKeys (key nextKey : K)
  | setNSEC3PARAM (present : Bool)

/-- What happens, and when. -/
structure TimedKeyOp (K : Type) where
  now : Nat
  op : KeyOp K

namespace ZoneKeys

variable {K : Type} {rsa : RSALibrary K} {keys : ZoneKeys K} {leaf : Octets}

/-- A step of a run. -/
def step (rsa : RSALibrary K) (keys : ZoneKeys K) (o : TimedKeyOp K) : ZoneKeys K :=
  match o.op with
  | .addZSKFor key algorithm next => keys.addZSKFor rsa o.now key algorithm next
  | .updateZoneKeys key nextKey => keys.updateZoneKeys rsa o.now key nextKey
  | .setNSEC3PARAM present => { keys with nsec3param := present }

/-- There is a file of this name in the directory. -/
def HasFile (keys : ZoneKeys K) (leaf : Octets) : Prop := ∃ files ∈ keys.zsks, ∃ file ∈ files, file.1 = leaf

/-- Some key is marked active. -/
def SomeActive (keys : ZoneKeys K) (now : Nat) : Prop := ∃ value ∈ keys.getZSKsFor now, value.2.active = true

instance (keys : ZoneKeys K) (now : Nat) : Decidable (keys.SomeActive now) :=
  inferInstanceAs (Decidable (∃ value ∈ keys.getZSKsFor now, value.2.active = true))

/-- The name says that the time at hand lies inside the validity. -/
def ActiveName (leaf : Octets) (now : Nat) : Prop :=
  isKeyFile leaf = true ∧ (validity leaf).1 < now ∧ now < (validity leaf).2

/-- The active keys are those whose names say so. -/
theorem someActive_iff {now : Nat} :
    keys.SomeActive now ↔ ∃ leaf, keys.HasFile leaf ∧ ActiveName leaf now := by
  unfold SomeActive getZSKsFor
  simp only [mem_insertionSort, mem_map, mem_filter]
  constructor
  · rintro ⟨_, ⟨file, ⟨hmem, hisc⟩, rfl⟩, hactive⟩
    cases hdir : keys.zsks with
    | none =>
      rw [hdir] at hmem
      cases hmem
    | some files =>
      rw [hdir] at hmem
      exact ⟨file.1, ⟨files, hdir, file, hmem, rfl⟩, hisc, of_decide_eq_true hactive⟩
  · rintro ⟨_, ⟨files, hdir, file, hmem, rfl⟩, hisc, hactive⟩
    refine ⟨_, ⟨file, ⟨?_, hisc⟩, rfl⟩, decide_eq_true hactive⟩
    rw [show keys.zsks = some files from hdir]
    exact hmem

/-- `getDNSKEYFor` ends the program when no key is active. -/
theorem getDNSKEYFor_eq_none_iff {now : Nat} :
    keys.getDNSKEYFor rsa now false = none ↔ ¬ keys.SomeActive now := by
  unfold getDNSKEYFor SomeActive
  simp

/-- Writing a file leaves all names there. -/
theorem mem_write {files : KeyFiles K} {leaf' : Octets} {key : K}
    (h : leaf = leaf' ∨ ∃ file ∈ files, file.1 = leaf) : ∃ file ∈ files.write leaf' key, file.1 = leaf := by
  by_cases hleaf : leaf = leaf'
  · exact ⟨(leaf', key), mem_append_right _ mem_cons_self, hleaf.symm⟩
  · obtain ⟨file, hfile, rfl⟩ := h.resolve_left hleaf
    exact ⟨file, mem_append_left _ (mem_filter.mpr ⟨hfile, by simpa using hleaf⟩), rfl⟩

theorem hasFile_addZSKFor {now : Nat} {key : K} {algorithm : UInt8} {next : Bool} (h : keys.HasFile leaf) :
    (keys.addZSKFor rsa now key algorithm next).HasFile leaf := by
  obtain ⟨files, hdir, hfile⟩ := h
  refine ⟨_, Option.mem_map_of_mem _ hdir, mem_write (.inr hfile)⟩

theorem hasFile_deleteZSKFor {fname : Octets} (h : keys.HasFile leaf) (hne : leaf ≠ fname) :
    (keys.deleteZSKFor fname).HasFile leaf := by
  obtain ⟨files, hdir, file, hfile, rfl⟩ := h
  exact ⟨_, Option.mem_map_of_mem _ hdir, file, mem_filter.mpr ⟨hfile, by simpa using hne⟩, rfl⟩

/-- A key that has not been expired for two days is not deleted. -/
theorem hasFile_step {o : TimedKeyOp K} (h : keys.HasFile leaf)
    (hvalid : (o.now : Int) - 2 * 86400 ≤ (validity leaf).2) : (step rsa keys o).HasFile leaf := by
  unfold step
  cases o.op with
  | addZSKFor key algorithm next => exact hasFile_addZSKFor h
  | setNSEC3PARAM present => exact h
  | updateZoneKeys key nextKey =>
    unfold updateZoneKeys
    cases keys.haveKSKFor with
    | none => exact h
    | some dpk =>
      dsimp only
      -- what is deleted is old
      have hkept : ∀ (old : List (DNSSECPrivateKey K × KeyMetaData)) (keys : ZoneKeys K),
          (∀ value ∈ old, leaf ≠ value.2.fname) → keys.HasFile leaf →
            (old.foldl (fun keys value => keys.deleteZSKFor value.2.fname) keys).HasFile leaf := by
        intro old
        induction old with
        | nil => exact fun _ _ h => h
        | cons value old ih =>
          intro keys hnames h
          obtain ⟨hvalue, hold⟩ := forall_mem_cons.mp hnames
          exact ih _ hold (hasFile_deleteZSKFor h hvalue)
      have hnames : ∀ value ∈ (keys.getZSKsFor o.now).filter
          fun value => decide (value.2.endValidity < (o.now : Int) - 2 * 86400), leaf ≠ value.2.fname := by
        intro value hvalue hleaf
        obtain ⟨hmem, hold⟩ := mem_filter.mp hvalue
        unfold getZSKsFor at hmem
        rw [mem_insertionSort, mem_map] at hmem
        obtain ⟨file, -, rfl⟩ := hmem
        rw [hleaf] at hvalid
        exact absurd (of_decide_eq_true hold) (Int.not_lt.mpr hvalid)
      have hall := hkept _ keys hnames h
      split
      next => exact hall
      next => exact hasFile_addZSKFor (hasFile_addZSKFor hall)

/-- The directory stays. -/
theorem zsks_step {o : TimedKeyOp K} (h : keys.zsks ≠ none) : (step rsa keys o).zsks ≠ none := by
  have hadd : ∀ (keys : ZoneKeys K) (now : Nat) (key : K) (algorithm : UInt8) (next : Bool),
      keys.zsks ≠ none → (keys.addZSKFor rsa now key algorithm next).zsks ≠ none := by
    intro keys now key algorithm next h
    exact mt Option.map_eq_none_iff.mp h
  unfold step
  cases o.op with
  | addZSKFor key algorithm next => exact hadd keys _ _ _ _ h
  | setNSEC3PARAM present => exact h
  | updateZoneKeys key nextKey =>
    unfold updateZoneKeys
    cases keys.haveKSKFor with
    | none => exact h
    | some dpk =>
      dsimp only
      have hkept : ∀ (old : List (DNSSECPrivateKey K × KeyMetaData)) (keys : ZoneKeys K), keys.zsks ≠ none →
          (old.foldl (fun keys value => keys.deleteZSKFor value.2.fname) keys).zsks ≠ none := by
        intro old
        induction old with
        | nil => exact fun _ h => h
        | cons value old ih => exact fun keys h => ih _ (mt Option.map_eq_none_iff.mp h)
      split
      next => exact hkept _ _ h
      next => exact hadd _ _ _ _ _ (hadd _ _ _ _ _ (hkept _ _ h))

/-- What a run before `now` does with a key that is not expired then. -/
theorem hasFile_run {ops : List (TimedKeyOp K)} {now : Nat} (h : keys.HasFile leaf)
    (htimes : ∀ o ∈ ops, o.now ≤ now) (hvalid : (now : Int) - 2 * 86400 ≤ (validity leaf).2) :
    (GuardedRun.run (step rsa) keys ops).HasFile leaf := by
  induction ops generalizing keys with
  | nil => exact h
  | cons o ops ih =>
    obtain ⟨ho, hops⟩ := forall_mem_cons.mp htimes
    exact ih (hasFile_step h (by omega)) hops

theorem zsks_run {ops : List (TimedKeyOp K)} (h : keys.zsks ≠ none) :
    (GuardedRun.run (step rsa) keys ops).zsks ≠ none := by
  induction ops generalizing keys with
  | nil => exact h
  | cons o ops ih => exact ih (zsks_step h)

/-- The time from which a key is valid. -/
def keyBegin (now : Nat) (next : Bool) : Nat := getCurrentInception now + if next then 14 * 86400 else 0

theorem keyBegin_first (now : Nat) : keyBegin now false = getCurrentInception now := by
  unfold keyBegin
  simp

theorem keyBegin_next (now : Nat) : keyBegin now true = getCurrentInception now + 14 * 86400 := by
  unfold keyBegin
  simp

/-- The name of the file that `addZSKFor` writes. -/
def zskName (rsa : RSALibrary K) (now : Nat) (key : K) (algorithm : UInt8) (next : Bool) : Octets :=
  let drc := { makeDNSKEYFromRSAKey rsa key algorithm with d_flags := 256 }
  keyName (keyBegin now next) (keyBegin now next + 14 * 86400) drc.getTag ++ isc

theorem hasFile_added (rsa : RSALibrary K) (h : keys.zsks ≠ none) (now : Nat) (key : K) (algorithm : UInt8)
    (next : Bool) :
    (keys.addZSKFor rsa now key algorithm next).HasFile (zskName rsa now key algorithm next) := by
  obtain ⟨files, hfiles⟩ := Option.ne_none_iff_exists'.mp h
  exact ⟨_, Option.mem_map_of_mem _ hfiles, mem_write (.inl rfl)⟩

theorem isKeyFile_zskName (rsa : RSALibrary K) (now : Nat) (key : K) (algorithm : UInt8) (next : Bool) :
    isKeyFile (zskName rsa now key algorithm next) = true :=
  isSuffixOf_iff_suffix.mpr (suffix_append _ _)

/-- The validity of a key that `addZSKFor` makes. -/
theorem validity_zskName (rsa : RSALibrary K) (now : Nat) (key : K) (algorithm : UInt8) (next : Bool) :
    validity (zskName rsa now key algorithm next) =
      (((keyBegin now next : Nat) : Int), ((keyBegin now next + 14 * 86400 : Nat) : Int)) := by
  obtain ⟨hminute, hlt, -, -, -⟩ := getCurrentInception_spec now
  have hbegin : keyBegin now next % 60 = 0 ∧ keyBegin now next < 2 ^ 32 + 14 * 86400 := by
    unfold keyBegin
    split <;> omega
  exact validity_keyName (by omega) (by omega) hbegin.1 (by omega) _

/-- When such a key is active. -/
theorem activeName_zskName (rsa : RSALibrary K) (t now : Nat) (key : K) (algorithm : UInt8) (next : Bool) :
    ActiveName (zskName rsa t key algorithm next) now ↔
      keyBegin t next < now ∧ now < keyBegin t next + 14 * 86400 := by
  unfold ActiveName
  rw [validity_zskName, isKeyFile_zskName]
  simp only [true_and]
  omega

section Covered

variable {t t' now : Nat} {key key' : K} {algorithm algorithm' : UInt8} {between after : List (TimedKeyOp K)}

/-- What two calls of `addZSKFor` and whatever happens between them and behind them leave of the keys. -/
def withBothKeys (rsa : RSALibrary K) (keys : ZoneKeys K) (t t' : Nat) (key key' : K)
    (algorithm algorithm' : UInt8) (between after : List (TimedKeyOp K)) : ZoneKeys K :=
  GuardedRun.run (step rsa) keys (⟨t, .addZSKFor key algorithm false⟩ :: between ++
    ⟨t', .addZSKFor key' algorithm' true⟩ :: after)

/-- **The instants without a key**: the beginning of the week of the first call, the time from the end of the
first key to the beginning of the second, and the end of the second. -/
def Uncovered (t t' now : Nat) : Prop :=
  now = getCurrentInception t ∨
    (getCurrentInception t + 14 * 86400 ≤ now ∧ now ≤ getCurrentInception t' + 14 * 86400) ∨
      now = getCurrentInception t' + 28 * 86400

/-- At any other time one of the two validities is the right one. -/
theorem covered_of_not_uncovered (hstart : getCurrentInception t ≤ now)
    (hend : now ≤ getCurrentInception t' + 28 * 86400) (h : ¬ Uncovered t t' now) :
    (getCurrentInception t < now ∧ now < getCurrentInception t + 14 * 86400) ∨
      (getCurrentInception t' + 14 * 86400 < now ∧ now < getCurrentInception t' + 14 * 86400 + 14 * 86400) := by
  unfold Uncovered at h
  omega

/-- A key stays there until it is expired. -/
theorem hasFile_withBothKeys (rsa : RSALibrary K) (hdir : keys.zsks ≠ none)
    (htimes : ∀ o ∈ between ++ after, o.now ≤ now) :
    (now ≤ keyBegin t false + 14 * 86400 →
      (withBothKeys rsa keys t t' key key' algorithm algorithm' between after).HasFile
        (zskName rsa t key algorithm false)) ∧
    (now ≤ keyBegin t' true + 14 * 86400 →
      (withBothKeys rsa keys t t' key key' algorithm algorithm' between after).HasFile
        (zskName rsa t' key' algorithm' true)) := by
  obtain ⟨hbetween, hafter⟩ := forall_mem_append.mp htimes
  have hkept : ∀ t key algorithm next, now ≤ keyBegin t next + 14 * 86400 →
      (now : Int) - 2 * 86400 ≤ (validity (zskName rsa t key algorithm next)).2 := by
    intro t key algorithm next h
    rw [validity_zskName]
    omega
  unfold withBothKeys
  rw [cons_append, GuardedRun.run_cons, GuardedRun.run_append, GuardedRun.run_cons]
  constructor
  · intro hvalid
    have hfirst := hasFile_added rsa hdir t key algorithm false
    exact hasFile_run (hasFile_addZSKFor (hasFile_run hfirst hbetween (hkept _ _ _ _ hvalid))) hafter
      (hkept _ _ _ _ hvalid)
  · intro hvalid
    have hzsks : (GuardedRun.run (step rsa) (step rsa keys ⟨t, .addZSKFor key algorithm false⟩) between).zsks ≠
        none := zsks_run (zsks_step hdir)
    exact hasFile_run (hasFile_added rsa hzsks t' key' algorithm' true) hafter (hkept _ _ _ _ hvalid)

/-- **When a zone has an active key**: at every time from the second call to the end of the second key, but for
the instants without a key, unless another key spans them. -/
theorem zsk_active_iff (rsa : RSALibrary K) (hdir : keys.zsks ≠ none) (ht : t ≤ t') (ht' : t' ≤ now)
    (htimes : ∀ o ∈ between ++ after, o.now ≤ now) (hend : now ≤ getCurrentInception t' + 28 * 86400) :
    ((withBothKeys rsa keys t t' key key' algorithm algorithm' between after).SomeActive now ∧
      (withBothKeys rsa keys t t' key key' algorithm algorithm' between after).getDNSKEYFor rsa now false ≠
        none) ↔
    ¬ Uncovered t t' now ∨ ∃ leaf,
      (withBothKeys rsa keys t t' key key' algorithm algorithm' between after).HasFile leaf ∧
        leaf ≠ zskName rsa t key algorithm false ∧ leaf ≠ zskName rsa t' key' algorithm' true ∧
          ActiveName leaf now := by
  obtain ⟨hfirst, hsecond⟩ := @hasFile_withBothKeys K keys t t' now key key' algorithm algorithm' between after rsa
    hdir htimes
  have hfirstActive := activeName_zskName rsa t now key algorithm false
  have hsecondActive := activeName_zskName rsa t' now key' algorithm' true
  rw [keyBegin_first] at hfirst hfirstActive
  rw [keyBegin_next] at hsecond hsecondActive
  -- later times are beyond the 32 bits, and the second key is long expired then
  obtain ⟨-, -, -, -, hwrap⟩ := getCurrentInception_spec t'
  have hmono := getCurrentInception_mono ht (show t' < 2 ^ 32 by omega)
  have hstart := (getCurrentInception_spec t).2.2.1
  rw [ne_eq, getDNSKEYFor_eq_none_iff, not_not, and_self_iff, someActive_iff]
  constructor
  · rintro ⟨leaf, hfile, hactive⟩
    by_cases h : leaf = zskName rsa t key algorithm false
    · rw [h, hfirstActive] at hactive
      refine .inl fun hun => ?_
      unfold Uncovered at hun
      omega
    by_cases h' : leaf = zskName rsa t' key' algorithm' true
    · rw [h', hsecondActive] at hactive
      refine .inl fun hun => ?_
      unfold Uncovered at hun
      omega
    exact .inr ⟨leaf, hfile, h, h', hactive⟩
  · rintro (hun | ⟨leaf, hfile, -, -, hactive⟩)
    · rcases covered_of_not_uncovered (Nat.le_trans hstart (Nat.le_trans ht ht')) hend hun with h | h
      · exact ⟨_, hfirst (Nat.le_of_lt h.2), hfirstActive.mpr h⟩
      · exact ⟨_, hsecond (Nat.le_of_lt h.2), hsecondActive.mpr h⟩
    · exact ⟨leaf, hfile, hactive⟩

/-- Contexts that are their exponents and moduli. -/
def plainRSA : RSALibrary (Octets × Octets) := ⟨Prod.fst, Prod.snd⟩

/-- A zone that has just been secured. -/
def securedKeys : ZoneKeys (Octets × Octets) := ⟨some [(isc, ([3], [35]))], some [], false⟩

/-- On 8 January 2010, a week after the calls, the first key is active. -/
theorem first_key_active :
    ((withBothKeys plainRSA securedKeys 1262304000 1262304001 ([3], [33]) ([3], [55]) 5 5 [] []).SomeActive
        1262908800 ∧
      (withBothKeys plainRSA securedKeys 1262304000 1262304001 ([3], [33]) ([3], [55]) 5 5 [] []).getDNSKEYFor
        plainRSA 1262908800 false ≠ none) ↔
    ¬ Uncovered 1262304000 1262304001 1262908800 ∨ ∃ leaf,
      (withBothKeys plainRSA securedKeys 1262304000 1262304001 ([3], [33]) ([3], [55]) 5 5 [] []).HasFile leaf ∧
        leaf ≠ zskName plainRSA 1262304000 ([3], [33]) 5 false ∧
          leaf ≠ zskName plainRSA 1262304001 ([3], [55]) 5 true ∧ ActiveName leaf 1262908800 :=
  zsk_active_iff plainRSA nofun (by decide) (by decide) (by decide) (by decide)

/-- **The hand-over**: both calls on 1 January 2010, and at midnight of 14 January, 13 days later, the first key
is no longer active and the second one not yet. A request for a key then ends the program. -/
theorem handover_without_key :
    (1262304000 ≤ 1263427200 ∧ 1263427200 ≤ getCurrentInception 1262304000 + 28 * 86400) ∧
    ¬ (withBothKeys plainRSA securedKeys 1262304000 1262304000 ([3], [33]) ([3], [55]) 5 5 [] []).SomeActive
      1263427200 ∧
    (withBothKeys plainRSA securedKeys 1262304000 1262304000 ([3], [33]) ([3], [55]) 5 5 [] []).getDNSKEYFor
      plainRSA 1263427200 false = none := by
  refine ⟨by decide, by decide, Option.isNone_iff_eq_none.mp (by decide)⟩

end Covered

end ZoneKeys

end PowerDNS
