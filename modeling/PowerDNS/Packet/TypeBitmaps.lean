import PowerDNS.Lib.OrderedUnique
import PowerDNS.Packet.RecordClasses

/-!
# Type bitmaps

NSEC and NSEC3 records have a set of types. `toPacket` writes one window of the bitmap, from the types below 255;
`make` reads one window, that of the types up to 255. `bitmaps_iff` says which sets come back.

`writeTypeBitmap` is what `toPacket` does with its buffer and its iterator held against their bounds: nothing is what
comes of a step out of the buffer or in front of the set. Within them it writes what `typeBitmap` has
(`writeTypeBitmap_eq`).
-/

namespace PowerDNS

open OrderedUnique List

/-! ### The code -/

/-- `less` of a set of types. -/
def typeLess (a b : UInt16) : Bool := decide (a < b)

instance : StrictWeakOrder typeLess where
  asymm := fun h => decide_eq_false (UInt16.lt_asymm (of_decide_eq_true h))
  neg_trans := by
    intro a c h b
    unfold typeLess at h ⊢
    simp only [decide_eq_true_eq, UInt16.lt_iff_toNat_lt] at h ⊢
    omega

/-- `set<uint16_t>`. -/
abbrev TypeSet := Table (id : UInt16 → UInt16) typeLess

/-- Sets the bit of a type; nothing when it is not in the buffer. -/
def setBit (res : Octets) (type : UInt16) : Option Octets :=
  if type.toNat / 8 < res.length then some (setTypeBit res type) else none

/-- The bitmap in `toPacket`; nothing when it steps out of the buffer, or in front of the set. -/
def writeTypeBitmap (d_set : List UInt16) : Option Octets := do
  let i := (d_set.takeWhile fun type => type < 255).length
  let res ← (d_set.take i).foldlM setBit (List.replicate 32 0)
  if d_set = [] then some [0, 0]
  -- `--i`
  else if i = 0 then none
  else
    let len := 1 + (d_set.getD (i - 1) 0).toNat / 8
    if res.length < len then none else some ([0, UInt8.ofNat len] ++ res.take len)

/-- The types of octet number `n`, in the order in which they are inserted. -/
def octetTypes (n : Nat) (val : UInt8) : List UInt16 :=
  (List.range 8).filterMap fun bit => if val.toNat.testBit bit then some (UInt16.ofNat (7 - bit + 8 * n)) else none

/-- The loops of `make`. -/
def bitmapTypes (octets : Octets) : TypeSet :=
  (octets.zipIdx.flatMap fun v => octetTypes v.2 v.1).foldl (fun d_set type => d_set.insert type) Table.empty

/-- `d_set` of an NSEC record that `make` has read, or what it throws. -/
def NSECTypes (bitmap : Octets) : Except String TypeSet :=
  match bitmapCheck "NSEC" bitmap with
  | some text => .error text
  | none => .ok (bitmapTypes (bitmap.drop 2))

/-- `d_set` of an NSEC3 record. -/
def NSEC3Types (bitmap : Octets) : Except String TypeSet :=
  if bitmap = [] then .ok Table.empty
  else
    match bitmapCheck "NSEC3" bitmap with
    | some text => .error text
    | none => .ok (bitmapTypes (bitmap.drop 2))

/-- **The types come back**: the writer stays within its bounds, and `make` has the same set for both records. -/
def ComesBack (d_set : TypeSet) : Prop :=
  ∃ bitmap, writeTypeBitmap d_set.items = some bitmap ∧ NSECTypes bitmap = .ok d_set ∧ NSEC3Types bitmap = .ok d_set

/-! ### Bits -/

/-- The bit of the type is set. -/
def HasType (octets : Octets) (type : UInt16) : Prop :=
  (octets.getD (type.toNat / 8) 0).toNat.testBit (7 - type.toNat % 8) = true

section Bits

variable {octets res : Octets} {type t : UInt16} {types : List UInt16}

theorem hasType_lt (h : HasType octets t) : t.toNat / 8 < octets.length := by
  by_contra hout
  unfold HasType at h
  rw [getD_eq_getElem?_getD, getElem?_eq_none (not_lt.mp hout), Option.getD_none,
    show (0 : UInt8).toNat = 0 from rfl, Nat.zero_testBit] at h
  cases h

theorem length_setTypeBit (res : Octets) (type : UInt16) : (setTypeBit res type).length = res.length :=
  length_set

theorem not_hasType_zero (t : UInt16) : ¬ HasType (List.replicate 32 0) t := by
  unfold HasType
  rw [getD_eq_getElem?_getD, getElem?_replicate]
  split
  · rw [Option.getD_some, show (0 : UInt8).toNat = 0 from rfl, Nat.zero_testBit]
    exact Bool.false_ne_true
  · rw [Option.getD_none, show (0 : UInt8).toNat = 0 from rfl, Nat.zero_testBit]
    exact Bool.false_ne_true

/-- The one bit is set, and the others are as they were. -/
theorem hasType_setTypeBit (hin : type.toNat / 8 < res.length) :
    HasType (setTypeBit res type) t ↔ t = type ∨ HasType res t := by
  have hbit : ∀ k < 8, ((1 : UInt8) <<< UInt8.ofNat k).toNat = 2 ^ k := by decide
  unfold HasType setTypeBit
  rw [getD_eq_getElem?_getD, getElem?_set]
  by_cases hsame : type.toNat / 8 = t.toNat / 8
  · rw [if_pos hsame, if_pos hin, Option.getD_some, UInt8.toNat_or, Nat.testBit_or, hbit _ (by omega),
      Nat.testBit_two_pow, ← hsame, Bool.or_eq_true, decide_eq_true_eq, or_comm]
    refine or_congr_left ?_
    rw [← UInt16.toNat_inj]
    omega
  · rw [if_neg hsame, ← getD_eq_getElem?_getD]
    refine (or_iff_right ?_).symm
    rintro rfl
    exact hsame rfl

theorem hasType_foldl (hin : ∀ type ∈ types, type.toNat / 8 < res.length) :
    HasType (types.foldl setTypeBit res) t ↔ t ∈ types ∨ HasType res t := by
  induction types generalizing res with
  | nil => simp
  | cons type types ih =>
    obtain ⟨htype, htypes⟩ := forall_mem_cons.mp hin
    rw [foldl_cons, ih (by rw [length_setTypeBit]; exact htypes), hasType_setTypeBit htype, mem_cons,
      or_left_comm, or_assoc]

theorem hasType_take {len : Nat} : HasType (octets.take len) t ↔ t.toNat / 8 < len ∧ HasType octets t := by
  constructor
  · intro h
    have hlt := hasType_lt h
    rw [length_take] at hlt
    refine ⟨lt_of_lt_of_le hlt (Nat.min_le_left _ _), ?_⟩
    unfold HasType at h ⊢
    rwa [getD_eq_getElem?_getD, getElem?_take_of_lt (lt_of_lt_of_le hlt (Nat.min_le_left _ _)),
      ← getD_eq_getElem?_getD] at h
  · rintro ⟨hlt, h⟩
    unfold HasType at h ⊢
    rwa [getD_eq_getElem?_getD, getElem?_take_of_lt hlt, ← getD_eq_getElem?_getD]

theorem same_types {a b : UInt16} (h : same typeLess (id a) (id b) = true) : a = b := by
  rw [same_iff] at h
  exact UInt16.le_antisymm (UInt16.not_lt.mp (of_decide_eq_false h.2)) (UInt16.not_lt.mp (of_decide_eq_false h.1))

theorem mem_foldl_insert {d_set : TypeSet} :
    t ∈ types.foldl (fun d_set type => d_set.insert type) d_set ↔ t ∈ types ∨ t ∈ d_set := by
  induction types generalizing d_set with
  | nil => simp
  | cons type types ih =>
    rw [foldl_cons, ih, Table.mem_insert_of_injective fun a b => same_types, mem_cons, or_left_comm,
      or_assoc]

/-- What `make` inserts. -/
theorem mem_bitmapTypes (hlen : octets.length ≤ 127) : t ∈ bitmapTypes octets ↔ HasType octets t := by
  have hnumber {n bit : Nat} (hn : n < 127) (hbit : bit < 8) :
      (UInt16.ofNat (7 - bit + 8 * n)).toNat = 7 - bit + 8 * n := by
    rw [UInt16.toNat_ofNat', Nat.mod_eq_of_lt (by omega)]
  unfold bitmapTypes octetTypes
  rw [mem_foldl_insert, or_iff_left (Table.not_mem_empty t), mem_flatMap]
  constructor
  · rintro ⟨⟨val, n⟩, hval, ht⟩
    have hget : octets[n]? = some val := mem_zipIdx_iff_getElem?.mp hval
    have hn := (List.getElem?_eq_some_iff.mp hget).1
    rw [mem_filterMap] at ht
    obtain ⟨bit, hbit, hset⟩ := ht
    rw [mem_range] at hbit
    split at hset
    next htest =>
      obtain rfl := Option.some.inj hset
      unfold HasType
      rw [hnumber (by omega) hbit, show (7 - bit + 8 * n) / 8 = n by omega,
        show 7 - (7 - bit + 8 * n) % 8 = bit by omega, getD_eq_getElem?_getD, hget]
      exact htest
    next => cases hset
  · intro h
    have hlt := hasType_lt h
    refine ⟨(octets.getD (t.toNat / 8) 0, t.toNat / 8), mem_zipIdx_iff_getElem?.mpr ?_, ?_⟩
    · dsimp only
      rw [getD_eq_getElem?_getD, getElem?_eq_getElem hlt, Option.getD_some]
    · rw [mem_filterMap]
      refine ⟨7 - t.toNat % 8, mem_range.mpr (by omega), ?_⟩
      refine (if_pos h).trans ?_
      rw [show 7 - (7 - t.toNat % 8) + 8 * (t.toNat / 8) = t.toNat by omega, UInt16.ofNat_toNat]

end Bits

/-! ### The set that comes back -/

section RoundTrip

variable {d_set : TypeSet} {t : UInt16}

/-- Sets are the same when their types are. -/
theorem typeSet_ext {s : TypeSet} (h : ∀ t, t ∈ s ↔ t ∈ d_set) : s = d_set := by
  have hlt (u : TypeSet) : u.items.Pairwise (· < ·) := u.ordered.imp of_decide_eq_true
  have hitems : s.items = d_set.items := (hlt s).eq_of_mem_iff (hlt d_set) h
  cases s
  cases d_set
  cases hitems
  rfl

/-- The types of the window. -/
def below (d_set : TypeSet) : List UInt16 := d_set.items.takeWhile fun type => type < 255

/-- The loop stops at the first type that is not in the window, and the others are greater. -/
theorem mem_below : t ∈ below d_set ↔ t ∈ d_set ∧ t < 255 := by
  unfold below
  rw [← Table.mem_items]
  have hordered := d_set.ordered
  generalize d_set.items = types at hordered ⊢
  induction hordered with
  | nil => simp
  | @cons type types hhead htail ih =>
    rw [takeWhile_cons]
    split
    next hlt =>
      rw [mem_cons, mem_cons, or_and_right]
      refine (or_congr_right ih).trans (or_congr_left (iff_self_and.mpr ?_))
      rintro rfl
      exact of_decide_eq_true hlt
    next hge =>
      refine iff_of_false not_mem_nil ?_
      rintro ⟨hmem, hlt⟩
      refine hge (decide_eq_true ?_)
      obtain rfl | hmem := mem_cons.mp hmem
      · exact hlt
      · exact UInt16.lt_trans (of_decide_eq_true (hhead t hmem)) hlt

/-- No type is greater than the last one. -/
theorem le_last {last : UInt16} (hlast : (below d_set).getLast? = some last) (ht : t ∈ below d_set) : t ≤ last := by
  have hordered : (below d_set).Pairwise fun a b => typeLess (id a) (id b) = true :=
    d_set.ordered.sublist (takeWhile_sublist _)
  obtain ⟨front, hfront⟩ := getLast?_eq_some_iff.mp hlast
  rw [hfront] at hordered ht
  rcases mem_append.mp ht with ht | ht
  · have hless := (pairwise_append.mp hordered).2.2 t ht last (mem_singleton.mpr rfl)
    exact UInt16.le_of_lt (of_decide_eq_true hless)
  · rw [mem_singleton.mp ht]
    exact UInt16.le_refl last

theorem below_lt : ∀ type ∈ below d_set, type.toNat / 8 < 32 := by
  intro type htype
  have hlt := UInt16.lt_iff_toNat_lt.mp (mem_below.mp htype).2
  change type.toNat < 255 at hlt
  omega

theorem typeBitmap_eq {last : UInt16} (hlast : (below d_set).getLast? = some last) : typeBitmap d_set.items =
    [0, UInt8.ofNat (1 + last.toNat / 8)] ++
      ((below d_set).foldl setTypeBit (List.replicate 32 0)).take (1 + last.toNat / 8) := by
  unfold typeBitmap
  dsimp only
  rw [show d_set.items.takeWhile (fun type => type < 255) = below d_set from rfl, hlast]

theorem length_foldl_setTypeBit (types : List UInt16) (res : Octets) :
    (types.foldl setTypeBit res).length = res.length := by
  induction types generalizing res with
  | nil => rfl
  | cons type types ih => rw [foldl_cons, ih, length_setTypeBit]

/-- The loop stays in the buffer. -/
theorem foldlM_setBit {types : List UInt16} {res : Octets} (hin : ∀ type ∈ types, type.toNat / 8 < res.length) :
    types.foldlM setBit res = some (types.foldl setTypeBit res) := by
  induction types generalizing res with
  | nil => rfl
  | cons type types ih =>
    obtain ⟨htype, htypes⟩ := forall_mem_cons.mp hin
    have hset : setBit res type = some (setTypeBit res type) := if_pos htype
    rw [foldlM_cons, hset, foldl_cons]
    exact ih (by rw [length_setTypeBit]; exact htypes)

/-- Within their bounds the loop and the iterator write `typeBitmap`. -/
theorem writeTypeBitmap_eq (hne : below d_set ≠ []) :
    writeTypeBitmap d_set.items = some (typeBitmap d_set.items) := by
  obtain ⟨last, hlast⟩ := Option.ne_none_iff_exists'.mp (mt getLast?_eq_none_iff.mp hne)
  have hfront : d_set.items.take (below d_set).length = below d_set :=
    (prefix_iff_eq_take.mp ( takeWhile_prefix _)).symm
  have hpos := length_pos_of_ne_nil hne
  -- `--i` is at the last of the types
  have hiter : d_set.items.getD ((below d_set).length - 1) 0 = last := by
    rw [getLast?_eq_getElem?] at hlast
    rw [getD_eq_getElem?_getD, ← getElem?_take_of_lt (Nat.sub_one_lt_of_lt hpos), hfront, hlast,
      Option.getD_some]
  have hitems : d_set.items ≠ [] := by
    intro hnil
    apply hne
    unfold below
    rw [hnil]
    rfl
  have hloop := @foldlM_setBit (below d_set) (List.replicate 32 0) below_lt
  have hlen : ((below d_set).foldl setTypeBit (List.replicate 32 0)).length = 32 := length_foldl_setTypeBit _ _
  have hin := below_lt last (mem_of_getLast? hlast)
  unfold writeTypeBitmap
  rw [show d_set.items.takeWhile (fun type => type < 255) = below d_set from rfl, typeBitmap_eq hlast, ← hiter]
  rw [← hiter] at hin
  dsimp only
  rw [hfront, hloop]
  change (if d_set.items = [] then _ else _) = _
  rw [if_neg hitems, if_neg (Nat.ne_of_gt hpos), if_neg (by rw [hlen]; omega)]

/-- Without a type below 255 the iterator steps in front of the set. -/
theorem writeTypeBitmap_none (hne : d_set.items ≠ []) (hnone : below d_set = []) :
    writeTypeBitmap d_set.items = none := by
  unfold writeTypeBitmap
  unfold below at hnone
  rw [hnone]
  exact if_neg hne

/-- The window that is written has the types of the set in it, and its last octet is that of the last of them. -/
theorem exists_typeBitmap (hne : below d_set ≠ []) : ∃ window : Octets,
    typeBitmap d_set.items = [0, UInt8.ofNat window.length] ++ window ∧ window.length ≤ 32 ∧
      (∀ t, HasType window t ↔ t ∈ below d_set) ∧ ∃ last ∈ below d_set, window.length = last.toNat / 8 + 1 := by
  obtain ⟨last, hlast⟩ := Option.ne_none_iff_exists'.mp (mt getLast?_eq_none_iff.mp hne)
  have hin := below_lt last (mem_of_getLast? hlast)
  have hlength : (((below d_set).foldl setTypeBit (List.replicate 32 0)).take (1 + last.toNat / 8)).length =
      1 + last.toNat / 8 := by
    rw [length_take, length_foldl_setTypeBit, length_replicate]
    omega
  refine ⟨_, ?_, ?_, fun t => ?_, last, mem_of_getLast? hlast, hlength.trans (Nat.add_comm _ _)⟩
  · rw [typeBitmap_eq hlast, hlength]
  · omega
  · rw [hasType_take, hasType_foldl below_lt, or_iff_left (not_hasType_zero t)]
    refine and_iff_right_of_imp fun ht => ?_
    have hle := UInt16.le_iff_toNat_le.mp (le_last hlast ht)
    omega

/-- One window is accepted, and read. -/
theorem types_window {window : Octets} (h : window.length ≤ 127) :
    NSECTypes ([0, UInt8.ofNat window.length] ++ window) = .ok (bitmapTypes window) ∧
      NSEC3Types ([0, UInt8.ofNat window.length] ++ window) = .ok (bitmapTypes window) := by
  have hcheck (name : String) : bitmapCheck name ([0, UInt8.ofNat window.length] ++ window) = none := by
    have hsmall : ∀ k ≤ 127, UInt8.ofNat k < 128 ∧ (UInt8.ofNat k).toNat = k := by decide
    obtain ⟨hsigned, htoNat⟩ := hsmall window.length h
    unfold bitmapCheck
    dsimp only [cons_append, nil_append]
    rw [if_pos hsigned, if_neg (not_not.mpr rfl), htoNat, if_neg (not_not.mpr ?_)]
    rw [length_cons, length_cons]
    omega
  constructor
  · unfold NSECTypes
    rw [hcheck]
    rfl
  · unfold NSEC3Types
    rw [hcheck]
    rfl

/-- **What is read** of a window that was written: its types. -/
theorem types_typeBitmap (hne : below d_set ≠ []) : ∃ s : TypeSet, (∀ t, t ∈ s ↔ t ∈ below d_set) ∧
    NSECTypes (typeBitmap d_set.items) = .ok s ∧ NSEC3Types (typeBitmap d_set.items) = .ok s := by
  obtain ⟨window, hwritten, hlength, htypes, -⟩ := exists_typeBitmap hne
  obtain ⟨hNSEC, hNSEC3⟩ := @types_window window (hlength.trans (by decide))
  rw [hwritten]
  exact ⟨_, fun t => (mem_bitmapTypes (hlength.trans (by decide))).trans (htypes t), hNSEC, hNSEC3⟩

theorem typeBitmap_nil (hnone : below d_set = []) : typeBitmap d_set.items = [0, 0] := by
  unfold typeBitmap
  unfold below at hnone
  rw [hnone]
  rfl

/-- **Bitmaps that are written as they were read**: one window without type 255, that does not end in zeros. -/
def PlainBitmap (bitmap : Octets) : Prop :=
  ∃ octets : Octets, bitmap = [0, UInt8.ofNat octets.length] ++ octets ∧ octets.length ≤ 32 ∧
    octets.getLast? ≠ some 0 ∧ ¬ HasType octets 255

section Plain

variable {a b : Octets}

/-- A bit of an octet is a type. -/
theorem hasType_ofNat {n i : Nat} (hn : n ≤ 127) (hi : i < 8) :
    HasType a (UInt16.ofNat (8 * n + (7 - i))) ↔ (a.getD n 0).toNat.testBit i = true := by
  have hnat : (UInt16.ofNat (8 * n + (7 - i))).toNat = 8 * n + (7 - i) := by
    rw [UInt16.toNat_ofNat', Nat.mod_eq_of_lt (by omega)]
  unfold HasType
  rw [hnat, show (8 * n + (7 - i)) / 8 = n by omega, show 7 - (8 * n + (7 - i)) % 8 = i by omega]

theorem exists_testBit {c : UInt8} (h : c ≠ 0) : ∃ i < 8, c.toNat.testBit i = true := by
  by_contra hnone
  push Not at hnone
  refine h (UInt8.toNat_inj.mp (Nat.eq_of_testBit_eq fun i => ?_))
  rw [show (0 : UInt8).toNat = 0 from rfl, Nat.zero_testBit]
  by_cases hi : i < 8
  · exact (Bool.not_eq_true _).mp (hnone i hi)
  · exact Nat.testBit_lt_two_pow (lt_of_lt_of_le c.toNat_lt (Nat.pow_le_pow_right (by decide) (by omega)))

/-- An octet in its place that is not zero has a type. -/
theorem exists_hasType {n : Nat} (hn : n ≤ 127) (h : a.getD n 0 ≠ 0) : ∃ t, HasType a t ∧ t.toNat / 8 = n := by
  obtain ⟨i, hi, hbit⟩ := exists_testBit h
  refine ⟨_, (hasType_ofNat hn hi).mpr hbit, ?_⟩
  rw [UInt16.toNat_ofNat', Nat.mod_eq_of_lt (by omega)]
  omega

theorem getD_last (h : a ≠ []) (hlast : a.getLast? ≠ some 0) : a.getD (a.length - 1) 0 ≠ 0 := by
  intro hzero
  apply hlast
  have hpos := length_pos_of_ne_nil h
  rw [getLast?_eq_getElem?, getElem?_eq_getElem (by omega)]
  rw [getD_eq_getElem?_getD, getElem?_eq_getElem (by omega), Option.getD_some] at hzero
  rw [hzero]

theorem length_le_of_types (ha : a.length ≤ 127) (hlast : a.getLast? ≠ some 0) (h : ∀ t, HasType a t → HasType b t) :
    a.length ≤ b.length := by
  by_cases hnil : a = []
  · rw [hnil]
    exact Nat.zero_le _
  · obtain ⟨t, ht, hplace⟩ := exists_hasType (by omega) (getD_last hnil hlast)
    have hlt := hasType_lt (h t ht)
    omega

/-- Windows that do not end in zeros are told apart by their types. -/
theorem octets_eq_of_types (ha : a.length ≤ 127) (hb : b.length ≤ 127) (hlasta : a.getLast? ≠ some 0)
    (hlastb : b.getLast? ≠ some 0) (h : ∀ t, HasType a t ↔ HasType b t) : a = b := by
  have hlength : a.length = b.length :=
    Nat.le_antisymm (length_le_of_types ha hlasta fun t => (h t).mp) (length_le_of_types hb hlastb fun t => (h t).mpr)
  refine ext_getElem hlength fun n hna hnb => ?_
  have hget {s : Octets} (hn : n < s.length) : s.getD n 0 = s[n] := by
    rw [getD_eq_getElem?_getD, getElem?_eq_getElem hn, Option.getD_some]
  refine UInt8.toNat_inj.mp (Nat.eq_of_testBit_eq fun i => ?_)
  by_cases hi : i < 8
  · have hbits := h (UInt16.ofNat (8 * n + (7 - i)))
    rw [hasType_ofNat (by omega) hi, hasType_ofNat (by omega) hi, hget hna, hget hnb] at hbits
    exact Bool.eq_iff_iff.mpr hbits
  · have hhigh (c : UInt8) : c.toNat.testBit i = false :=
      Nat.testBit_lt_two_pow (lt_of_lt_of_le c.toNat_lt (Nat.pow_le_pow_right (by decide) (by omega)))
    rw [hhigh, hhigh]

/-- What is accepted is one window. -/
theorem window_of_check {name : String} {bitmap : Octets} (hsize : bitmap.length ≤ 65535)
    (h : bitmapCheck name bitmap = none) :
    ∃ window : Octets, bitmap = [0, UInt8.ofNat window.length] ++ window ∧ window.length ≤ 127 := by
  match bitmap, hsize, h with
  | first :: len :: window, hsize, h =>
    have hlt := len.toNat_lt
    unfold bitmapCheck at h
    dsimp only at h
    rw [length_cons, length_cons] at hsize h
    split at h
    next => cases h
    next hzero =>
      rw [not_not] at hzero
      have hlength : window.length + 1 + 1 =
          (2 + if len < 128 then len.toNat else 2 ^ 32 - 256 + len.toNat) % 2 ^ 32 := by
        by_contra hne
        rw [if_pos hne] at h
        cases h
      split at hlength
      next hsigned =>
        have hless := UInt8.lt_iff_toNat_lt.mp hsigned
        change len.toNat < 128 at hless
        have hlen : window.length = len.toNat := by omega
        refine ⟨window, ?_, by omega⟩
        rw [hlen, UInt8.ofNat_toNat, hzero]
        rfl
      next =>
        -- an octet from 128 on is a length that no packet has
        omega

/-- **Which bitmaps are written as they were read.** -/
theorem plainBitmap_iff {window : Octets} (hsize : window.length ≤ 127) :
    typeBitmap (bitmapTypes window).items = [0, UInt8.ofNat window.length] ++ window ↔
      PlainBitmap ([0, UInt8.ofNat window.length] ++ window) := by
  have hmem (t : UInt16) : t ∈ bitmapTypes window ↔ HasType window t := mem_bitmapTypes hsize
  have hinj {octets : Octets} (h : [0, UInt8.ofNat window.length] ++ window =
      [0, UInt8.ofNat octets.length] ++ octets) : window = octets := append_inj_right h rfl
  by_cases hnone : below (bitmapTypes window) = []
  · rw [typeBitmap_nil hnone]
    constructor
    · intro h
      have hnil : window = [] := eq_nil_of_length_eq_zero (by
        have hlength := congrArg List.length h
        rw [length_append] at hlength
        simp only [length_cons, length_nil] at hlength
        omega)
      rw [hnil]
      exact ⟨[], rfl, Nat.zero_le _, (Option.some_ne_none 0).symm, fun h => absurd (hasType_lt h) (Nat.not_lt_zero _)⟩
    · rintro ⟨octets, hbitmap, hshort, hlast, hnot⟩
      obtain rfl := hinj hbitmap
      by_cases hnil : window = []
      · rw [hnil]
        rfl
      · -- the last octet would have a type below 255
        obtain ⟨t, ht, hplace⟩ := exists_hasType (by omega) (getD_last hnil hlast)
        have hne : t.toNat ≠ 255 := fun heq => hnot ((UInt16.toNat_inj.mp heq : t = 255) ▸ ht)
        have hbelow := mem_below.mpr ⟨(hmem t).mpr ht, UInt16.lt_iff_toNat_lt.mpr (show t.toNat < 255 by omega)⟩
        rw [hnone] at hbelow
        cases hbelow
  · obtain ⟨written, hwritten, hlength, htypes, last, hlast, hend⟩ := exists_typeBitmap hnone
    have hlastw : written.getLast? ≠ some 0 := by
      intro hzero
      have hbit := (htypes last).mpr hlast
      unfold HasType at hbit
      rw [getLast?_eq_getElem?, hend, Nat.add_sub_cancel] at hzero
      rw [getD_eq_getElem?_getD, hzero, Option.getD_some, show (0 : UInt8).toNat = 0 from rfl,
        Nat.zero_testBit] at hbit
      cases hbit
    rw [hwritten]
    constructor
    · intro h
      have hsame : written = window := append_inj_right h rfl
      rw [hsame] at hlength hlastw htypes
      refine ⟨window, rfl, hlength, hlastw, fun h255 => ?_⟩
      exact absurd (mem_below.mp ((htypes 255).mp h255)).2 (by decide)
    · rintro ⟨octets, hbitmap, hshort, hplain, hnot⟩
      obtain rfl := hinj hbitmap
      have hsame : written = window := by
        refine octets_eq_of_types (hlength.trans (by decide)) hsize hlastw hplain fun t => ?_
        rw [htypes, mem_below, hmem, and_iff_left_iff_imp]
        intro ht
        have hlt := hasType_lt ht
        have hne : t.toNat ≠ 255 := fun heq => hnot ((UInt16.toNat_inj.mp heq : t = 255) ▸ ht)
        exact UInt16.lt_iff_toNat_lt.mpr (show t.toNat < 255 by omega)
      rw [hsame]

section NSEC3

variable {d_set s : TypeSet} {t : UInt16} {bitmap : Octets}

/-- What an NSEC3 record has for a bitmap: nothing, or one window. -/
theorem window_of_NSEC3Types (hsize : bitmap.length ≤ 65535) (h : NSEC3Types bitmap = .ok s) :
    (bitmap = [] ∧ s = Table.empty) ∨
      ∃ window : Octets, bitmap = [0, UInt8.ofNat window.length] ++ window ∧ window.length ≤ 127 ∧
        s = bitmapTypes window := by
  unfold NSEC3Types at h
  split at h
  next hnil =>
    cases h
    exact .inl ⟨hnil, rfl⟩
  next =>
    cases hcheck : bitmapCheck "NSEC3" bitmap with
    | some text =>
      rw [hcheck] at h
      cases h
    | none =>
      rw [hcheck] at h
      obtain ⟨window, rfl, hwindow⟩ := window_of_check hsize hcheck
      cases h
      exact .inr ⟨window, rfl, hwindow, rfl⟩

/-- A type that was read is in a set that is written as these octets. -/
theorem mem_of_typeBitmap (hsize : bitmap.length ≤ 65535) (h : NSEC3Types bitmap = .ok s)
    (hwritten : typeBitmap d_set.items = bitmap) (ht : t ∈ s) : t ∈ d_set := by
  obtain ⟨-, rfl⟩ | ⟨window, rfl, hwindow, rfl⟩ := window_of_NSEC3Types hsize h
  · exact absurd ht (Table.not_mem_empty t)
  · rw [mem_bitmapTypes hwindow] at ht
    by_cases hnone : below d_set = []
    · rw [typeBitmap_nil hnone] at hwritten
      have hnil : [] = window := append_inj_right (show [0, 0] ++ [] = _ from hwritten) rfl
      rw [← hnil] at ht
      exact absurd (hasType_lt ht) (Nat.not_lt_zero _)
    · obtain ⟨written, hwritten', -, htypes, -⟩ := exists_typeBitmap hnone
      have hsame : written = window := append_inj_right (hwritten'.symm.trans hwritten) rfl
      rw [← hsame, htypes] at ht
      exact (mem_below.mp ht).1

/-- An NSEC3 record that was read without a bitmap is written with one. -/
theorem plainBitmap_NSEC3 (hsize : bitmap.length ≤ 65535) (h : NSEC3Types bitmap = .ok s) :
    typeBitmap s.items = bitmap ↔ PlainBitmap bitmap := by
  obtain ⟨rfl, rfl⟩ | ⟨window, rfl, hwindow, rfl⟩ := window_of_NSEC3Types hsize h
  · refine iff_of_false (fun h => nomatch h) ?_
    rintro ⟨octets, hnone, -⟩
    cases hnone
  · exact plainBitmap_iff hwindow

end NSEC3

end Plain

end RoundTrip

/-- **Type bitmaps.** A set that is not empty comes back, from both records, when all of its types are below 255. -/
theorem bitmaps_iff (d_set : TypeSet) (hne : d_set.items ≠ []) : ComesBack d_set ↔ ∀ type ∈ d_set, type < 255 := by
  by_cases hnone : below d_set = []
  · refine iff_of_false ?_ fun hall => ?_
    · rintro ⟨bitmap, hwritten, -⟩
      rw [writeTypeBitmap_none hne hnone] at hwritten
      cases hwritten
    · obtain ⟨type, htype⟩ := exists_mem_of_ne_nil _ hne
      have hbelow := mem_below.mpr ⟨htype, hall type htype⟩
      rw [hnone] at hbelow
      cases hbelow
  · obtain ⟨s, hs, hNSEC, hNSEC3⟩ := types_typeBitmap hnone
    constructor
    · rintro ⟨bitmap, hwritten, hread, -⟩ type htype
      rw [writeTypeBitmap_eq hnone] at hwritten
      cases hwritten
      cases hNSEC.symm.trans hread
      exact (mem_below.mp ((hs type).mp htype)).2
    · intro hall
      obtain rfl : s = d_set := typeSet_ext fun t => by
        rw [hs, mem_below]
        exact and_iff_left_of_imp (hall t)
      exact ⟨_, writeTypeBitmap_eq hnone, hNSEC, hNSEC3⟩

/-- NS, RRSIG and NSEC. -/
theorem bitmaps_of_a_delegation : ComesBack ⟨[2, 46, 47], by decide⟩ :=
  (bitmaps_iff ⟨[2, 46, 47], by decide⟩ (cons_ne_nil _ _)).mpr fun type htype => by
    simp only [← Table.mem_items, mem_cons, not_mem_nil, or_false] at htype
    obtain rfl | rfl | rfl := htype <;> decide

/-- Type 255 alone makes the writer step in front of the set, and with another type it is lost. -/
theorem type_255_lost : ¬ ComesBack ⟨[255], by decide⟩ ∧ ¬ ComesBack ⟨[1, 255], by decide⟩ := by
  constructor
  · rintro ⟨bitmap, hwritten, -⟩
    have hnone : writeTypeBitmap [255] = none := by decide
    cases hnone.symm.trans hwritten
  · rintro ⟨bitmap, hwritten, hread, -⟩
    have hsome : writeTypeBitmap [1, 255] = some [0, 1, 64] := by decide
    cases hsome.symm.trans hwritten
    have hitems := congrArg (Except.map Table.items) hread
    have hone : (NSECTypes [0, 1, 64]).map Table.items = .ok [1] := by decide
    cases hone.symm.trans hitems

end PowerDNS
