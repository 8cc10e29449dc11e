import PowerDNS.Splitpipe.MD5Summer

/-!
# Stretches and volumes

What splitpipe writes are stretches: a size of two octets, a type, and so many octets. Here are the stretches
(`misc.hh`), the reads and writes that go on until all octets are there (`readn`, `writen`, which give the same
whatever the pieces), and what a session looks like: volumes that begin with stretches about the session, go on with
stretches of data, and end with a checksum and an end of the volume, or of the session.
-/

namespace PowerDNS

open List

/-! ### The code -/

/-- `stretchHeader::Types`. -/
inductive StretchType
  | SessionName | SessionUUID | VolumeNumber | VolumeEOF | Data | MD5Checksum | SHA1Checksum | SessionEOF | VolumeDate
  deriving DecidableEq

/-- The number of a type. -/
def StretchType.code : StretchType → UInt8
  | SessionName => 0
  | SessionUUID => 1
  | VolumeNumber => 2
  | VolumeEOF => 3
  | Data => 4
  | MD5Checksum => 5
  | SHA1Checksum => 6
  | SessionEOF => 7
  | VolumeDate => 8

/-- `htons`, as octets. -/
def htons (n : Nat) : Octets := [UInt8.ofNat (n / 256), UInt8.ofNat n]

/-- `htonl`, as octets. -/
def htonl (n : UInt32) : Octets := htons (n.toNat / 65536) ++ htons n.toNat

/-- A `stretchHeader`; the size is converted to 16 bits. -/
def stretchHeader (type : StretchType) (size : Nat) : Octets := htons size ++ [type.code]

/-- `appendStretch`. -/
def appendStretch (type : StretchType) (content stretches : Octets) : Octets :=
  stretches ++ stretchHeader type content.length ++ content

/-- The writes of `writen`, which take as many octets as the pieces say, none when they have to wait; what is behind
the pieces is taken at once. -/
def writePieces : List Nat → Octets → Octets → Octets
  | [], data, fd => fd ++ data
  | n :: pieces, data, fd => writePieces pieces (data.drop n) (fd ++ data.take n)

/-- `writen`: its result, and what has been written then. -/
def writen (pieces : List Nat) (data fd : Octets) : Nat × Octets := (data.length, writePieces pieces data fd)

/-- `readn`, which gives nothing at the end of the input: the octets, and what is left. -/
def readn : List Nat → Nat → Octets → Option (Octets × Octets)
  | [], size, fd => if size ≤ fd.length then some (fd.take size, fd.drop size) else none
  | n :: pieces, size, fd =>
    if size = 0 then some ([], fd)
    else if fd = [] then none
    else
      let ret := min n (min size fd.length)
      (readn pieces (size - ret) (fd.drop ret)).map fun got => (fd.take ret ++ got.1, got.2)

/-- All octets are written. -/
theorem writen_eq (pieces : List Nat) (data fd : Octets) : writen pieces data fd = (data.length, fd ++ data) := by
  have hpieces : writePieces pieces data fd = fd ++ data := by
    induction pieces generalizing data fd with
    | nil => rfl
    | cons n pieces ih =>
      unfold writePieces
      rw [ih, append_assoc, take_append_drop]
  rw [writen, hpieces]

/-- All octets are read. -/
theorem readn_eq (pieces : List Nat) (size : Nat) (fd : Octets) :
    readn pieces size fd = if size ≤ fd.length then some (fd.take size, fd.drop size) else none := by
  induction pieces generalizing size fd with
  | nil => rfl
  | cons n pieces ih =>
    unfold readn
    dsimp only
    rcases Nat.eq_zero_or_pos size with rfl | hsize
    · rw [if_pos rfl, if_pos (Nat.zero_le _), take_zero, drop_zero]
    rw [if_neg hsize.ne']
    by_cases hend : fd = []
    · rw [if_pos hend, if_neg (by rw [hend]; exact Nat.not_le.mpr hsize)]
    rw [if_neg hend, ih, length_drop]
    by_cases hle : size ≤ fd.length
    · rw [if_pos hle, if_pos (by omega), Option.map_some, drop_drop, ← take_add,
        show min n (min size fd.length) + (size - min n (min size fd.length)) = size by omega]
    · rw [if_neg hle, if_neg (by omega), Option.map_none]

theorem length_stretchHeader (type : StretchType) (size : Nat) : (stretchHeader type size).length = 3 := rfl

/-! ### Sessions -/

/-- What a session says about itself: `d_uuid`, `parameters.label`, and the time at which each volume was begun. -/
structure SplitSession where
  d_uuid : Octets
  label : Octets
  now : Nat → UInt32
  /-- `generateUUID`. -/
  length_uuid : d_uuid.length = 16

namespace SplitSession

variable (S : SplitSession)

/-- The stretches of `outputPerVolumeStretches`. -/
def perVolumeStretches (volumeNumber : Nat) : Octets :=
  let stretches := appendStretch .SessionUUID S.d_uuid []
  let stretches := appendStretch .VolumeDate (htonl (S.now volumeNumber)) stretches
  let stretches := if S.label ≠ [] then appendStretch .SessionName S.label stretches else stretches
  appendStretch .VolumeNumber (htons volumeNumber) stretches

/-- How long these stretches are, for any volume. -/
def perVolumeLength : Nat := 31 + if S.label = [] then 0 else 3 + S.label.length

theorem length_perVolumeStretches (n : Nat) : (S.perVolumeStretches n).length = S.perVolumeLength := by
  unfold perVolumeStretches perVolumeLength appendStretch
  dsimp only
  by_cases hlabel : S.label = []
  · rw [if_neg (not_not_intro hlabel), if_pos hlabel]
    simp only [length_append, length_stretchHeader, S.length_uuid]
    rfl
  · rw [if_pos hlabel, if_neg hlabel]
    simp only [length_append, length_stretchHeader, S.length_uuid]
    rw [show (htonl (S.now n)).length = 4 from rfl, show (htons n).length = 2 from rfl, length_nil]
    omega

end SplitSession

/-- Stretches of data. -/
def dataStretches (ds : List Octets) : Octets := ds.flatMap fun d => stretchHeader .Data d.length ++ d

/-- The end of a volume behind which the data so far are some octets. -/
def volumeEnd (data : Octets) (eof : StretchType) : Octets :=
  stretchHeader .MD5Checksum 16 ++ md5 data ++ stretchHeader eof 0

variable (S : SplitSession)

/-- A volume: its number, the data in front of it, its stretches of data, and how it ends. -/
def volumeOctets (n : Nat) (before : Octets) (ds : List Octets) (eof : StretchType) : Octets :=
  S.perVolumeStretches n ++ dataStretches ds ++ volumeEnd (before ++ ds.flatten) eof

/-- Volumes that are not the last. -/
def closedVolumes : Nat → Octets → List (List Octets) → List Octets
  | _, _, [] => []
  | n, before, ds :: L => volumeOctets S n before ds .VolumeEOF :: closedVolumes (n + 1) (before ++ ds.flatten) L

/-- The volumes of a session. -/
def sessionVolumes (L : List (List Octets)) (last : List Octets) : List Octets :=
  closedVolumes S 0 [] L ++ [volumeOctets S L.length L.flatten.flatten last .SessionEOF]

theorem closedVolumes_concat (n : Nat) (before : Octets) (L : List (List Octets)) (ds : List Octets) :
    closedVolumes S n before (L ++ [ds]) =
      closedVolumes S n before L ++ [volumeOctets S (n + L.length) (before ++ L.flatten.flatten) ds .VolumeEOF] := by
  induction L generalizing n before with
  | nil => rw [nil_append, flatten_nil, flatten_nil, append_nil]; rfl
  | cons ds' L ih =>
    rw [cons_append]
    unfold closedVolumes
    rw [ih, cons_append, length_cons, flatten_cons, flatten_append, append_assoc,
      Nat.add_assoc, Nat.add_comm 1]

theorem dataStretches_concat (ds : List Octets) (d : Octets) :
    dataStretches (ds ++ [d]) = dataStretches ds ++ (stretchHeader .Data d.length ++ d) := by
  rw [dataStretches, flatMap_append, flatMap_singleton]
  rfl

/-! ### Looking at a volume -/

/-- The types of the stretches in a volume. -/
def stretchTypes : Octets → List UInt8
  | hi :: lo :: type :: rest =>
    if rest.length < hi.toNat * 256 + lo.toNat then []
    else type :: stretchTypes (rest.drop (hi.toNat * 256 + lo.toNat))
  | _ => []
termination_by fd => fd.length
decreasing_by
  simp only [length_drop, length_cons]
  omega

theorem htons_toNat {n : Nat} (h : n < 65536) : (UInt8.ofNat (n / 256)).toNat * 256 + (UInt8.ofNat n).toNat = n := by
  rw [UInt8.toNat_ofNat', UInt8.toNat_ofNat']
  omega

theorem stretchTypes_append (type : StretchType) (content rest : Octets) (h : content.length < 65536) :
    stretchTypes (stretchHeader type content.length ++ content ++ rest) = type.code :: stretchTypes rest := by
  change stretchTypes (_ :: _ :: _ :: (content ++ rest)) = _
  rw [stretchTypes, htons_toNat h, if_neg (by rw [length_append]; omega), drop_left]

theorem stretchTypes_dataStretches {ds : List Octets} (rest : Octets) (h : ∀ d ∈ ds, d.length < 65536) :
    stretchTypes (dataStretches ds ++ rest) =
      List.replicate ds.length StretchType.Data.code ++ stretchTypes rest := by
  induction ds with
  | nil => rfl
  | cons d ds ih =>
    have hd := stretchTypes_append .Data d (dataStretches ds ++ rest) (h d mem_cons_self)
    rw [ih fun d' hd' => h d' (mem_cons_of_mem _ hd')] at hd
    rw [dataStretches, flatMap_cons, append_assoc]
    exact hd

/-- The types in front of the stretches of data. -/
def SplitSession.perVolumeTypes : List StretchType :=
  [.SessionUUID, .VolumeDate] ++ (if S.label ≠ [] then [.SessionName] else []) ++ [.VolumeNumber]

theorem stretchTypes_perVolumeStretches (n : Nat) (rest : Octets) (hlabel : S.label.length < 65536) :
    stretchTypes (S.perVolumeStretches n ++ rest) = S.perVolumeTypes.map StretchType.code ++ stretchTypes rest := by
  have huuid : S.d_uuid.length < 65536 := by
    rw [S.length_uuid]
    decide
  have hnumber := stretchTypes_append .VolumeNumber (htons n) rest (show 2 < 65536 by decide)
  have hdate (rest : Octets) := stretchTypes_append .VolumeDate (htonl (S.now n)) rest
    (show 4 < 65536 by decide)
  have hname (rest : Octets) := stretchTypes_append .SessionName _ rest hlabel
  simp only [append_assoc] at hnumber hdate hname
  unfold SplitSession.perVolumeStretches SplitSession.perVolumeTypes appendStretch
  split
  all_goals
    simp only [nil_append, append_assoc]
    rw [← append_assoc, stretchTypes_append _ _ _ huuid, hdate]
  · rw [hname, hnumber]
    rfl
  · rw [hnumber]
    rfl

/-- **The end of the session** is in the volume that ends with it, and in no other. -/
theorem sessionEOF_mem_iff {n : Nat} {before : Octets} {ds : List Octets} {eof : StretchType}
    (hlabel : S.label.length < 65536) (hsmall : ∀ d ∈ ds, d.length < 65536) :
    StretchType.SessionEOF.code ∈ stretchTypes (volumeOctets S n before ds eof) ↔ eof = .SessionEOF := by
  have hchecksum := stretchTypes_append .MD5Checksum (md5 (before ++ ds.flatten)) (stretchHeader eof 0)
    (show 16 < 65536 by decide)
  have heof : stretchTypes (stretchHeader eof 0) = [eof.code] := by
    have hend := stretchTypes_append eof [] [] (by decide)
    rwa [append_nil, append_nil, show stretchTypes [] = [] by unfold stretchTypes; rfl] at hend
  rw [volumeOctets, append_assoc, stretchTypes_perVolumeStretches S n _ hlabel,
    stretchTypes_dataStretches _ hsmall, volumeEnd]
  rw [heof, length_md5] at hchecksum
  rw [hchecksum]
  constructor
  · intro hmem
    rcases mem_append.mp hmem with hsession | hmem
    · obtain ⟨type, htype, hcode⟩ := mem_map.mp hsession
      unfold SplitSession.perVolumeTypes at htype
      split at htype
      · exact absurd hcode ((by decide : ∀ type ∈ [StretchType.SessionUUID, .VolumeDate] ++ [.SessionName] ++
          [.VolumeNumber], type.code ≠ StretchType.SessionEOF.code) type htype)
      · exact absurd hcode ((by decide : ∀ type ∈ [StretchType.SessionUUID, .VolumeDate] ++ [] ++ [.VolumeNumber],
          type.code ≠ StretchType.SessionEOF.code) type htype)
    rcases mem_append.mp hmem with hdata | hend
    · exact absurd (eq_of_mem_replicate hdata) (by decide)
    · rcases mem_cons.mp hend with hmd5 | hlast
      · exact absurd hmd5 (by decide)
      · have hcode := mem_singleton.mp hlast
        revert hcode
        cases eof <;> decide
  · rintro rfl
    exact mem_append_right _ (mem_append_right _ (mem_cons_of_mem _ (mem_singleton_self _)))

end PowerDNS
