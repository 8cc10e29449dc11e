import PowerDNS.Lib.OrderedUnique
import PowerDNS.Recursor.SyncRes

/-!
# What a query waits for: `PacketID`

The recursor's threads wait for events under a `PacketID`: the remote, the type and the name
that were asked, the socket and the id. `operator<` puts these in order, and so decides which
event wakes whom; `PacketIDBirthdayCompare` looks at the question alone. The names are compared
without regard to letter case.

`same_less_iff` and `same_birthdayLess_iff` say what two keys have in common that are
equivalent under these comparisons. Only queries over UDP are modelled, so `sock` is null
throughout and its handle counts as 0.
-/

namespace PowerDNS

open OrderedUnique UInt8 UInt16 List

/-! ### Addresses -/

namespace ComboAddress

/-- `sin_family`: `AF_INET` or `AF_INET6`. -/
def sin_family (a : ComboAddress) : Nat := if a.addr.length = 4 then 2 else 10

/-- `sin_port` as the machine, which is little-endian, reads it. -/
def sin_port (a : ComboAddress) : Nat := 256 * (a.port.toNat % 256) + a.port.toNat / 256

/-- The octets of the address in the order of their weight: `s_addr` is little-endian as well,
`s6_addr` is compared by `memcmp`. -/
def significant (a : ComboAddress) : Octets := if a.addr.length = 4 then a.addr.reverse else a.addr

end ComboAddress

/-- Numbers in ascending order. -/
def natLess (a b : Nat) : Bool := decide (a < b)

/-- `uint16_t`s in ascending order. -/
def idLess (a b : UInt16) : Bool := decide (a < b)

/-- `ComboAddress::operator<`. -/
def ComboAddress.less (a b : ComboAddress) : Bool :=
  if natLess a.sin_family b.sin_family then true
  else if natLess b.sin_family a.sin_family then false
  else if natLess a.sin_port b.sin_port then true
  else if natLess b.sin_port a.sin_port then false
  else lexList (onPart natLess UInt8.toNat) a.significant b.significant

instance : StrictWeakOrder natLess where
  asymm := by
    intro a b h
    simp only [natLess, decide_eq_true_eq, decide_eq_false_iff_not] at h ⊢
    omega
  neg_trans := by
    intro a c h b
    simp only [natLess, decide_eq_true_eq] at h ⊢
    omega

theorem same_natLess {a b : Nat} : same natLess a b = true ↔ a = b := by
  rw [same_iff]
  simp only [natLess, decide_eq_false_iff_not]
  omega

theorem idLess_eq : idLess = onPart natLess UInt16.toNat := by
  funext a b
  simp [idLess, onPart, natLess, UInt16.lt_iff_toNat_lt]

instance : StrictWeakOrder idLess := by
  rw [idLess_eq]
  infer_instance

theorem same_idLess {a b : UInt16} : same idLess a b = true ↔ a = b := by
  exact same_natLess.trans UInt16.toNat_inj

namespace ComboAddress

theorem less_eq : less = lexThen (onPart natLess sin_family)
    (lexThen (onPart natLess sin_port)
      (onPart (lexList (onPart natLess UInt8.toNat)) significant)) := rfl

instance : StrictWeakOrder less := by
  rw [less_eq]
  infer_instance

/-- `operator<` and `operator==` agree. -/
theorem same_less {a b : ComboAddress} : same less a b = true ↔ a = b := by
  have hoctets : ∀ c d : UInt8, same (onPart natLess UInt8.toNat) c d = true ↔ id c = id d :=
    fun c d => same_natLess.trans UInt8.toNat_inj
  rw [less_eq, same_lexThen, same_lexThen]
  have hfamily : same (onPart natLess sin_family) a b = true ↔ a.sin_family = b.sin_family :=
    same_natLess
  have hport : same (onPart natLess sin_port) a b = true ↔ a.sin_port = b.sin_port :=
    same_natLess
  have haddr : same (onPart (lexList (onPart natLess UInt8.toNat)) significant) a b = true ↔
      a.significant = b.significant := by
    have hlist := @same_lexList _ _ _ id hoctets a.significant b.significant
    rwa [map_id, map_id] at hlist
  rw [hfamily, hport, haddr]
  constructor
  · rintro ⟨hf, hp, ha⟩
    have hlt := a.port.toNat_lt
    have hlt' := b.port.toNat_lt
    have hports : a.port = b.port := by
      unfold sin_port at hp
      exact UInt16.toNat_inj.mp (by omega)
    have haddrs : a.addr = b.addr := by
      unfold sin_family at hf
      unfold significant at ha
      split at hf
      next h4 =>
        split at hf
        next h4' =>
          rw [if_pos h4, if_pos h4'] at ha
          exact reverse_injective ha
        next => omega
      next h4 =>
        split at hf
        next => omega
        next h4' => rwa [if_neg h4, if_neg h4'] at ha
    cases a
    cases b
    congr
  · rintro rfl
    exact ⟨rfl, rfl, rfl⟩

end ComboAddress

/-! ### Names -/

/-- `char`s as `pdns_ilexicographical_compare` compares them. -/
def charLess (a b : UInt8) : Bool :=
  decide ((dnsTolower a).toInt8.toInt < (dnsTolower b).toInt8.toInt)

instance : StrictWeakOrder charLess where
  asymm := by
    intro a b h
    simp only [charLess, decide_eq_true_eq, decide_eq_false_iff_not] at h ⊢
    omega
  neg_trans := by
    intro a c h b
    simp only [charLess, decide_eq_true_eq] at h ⊢
    omega

theorem same_charLess (a b : UInt8) :
    same charLess a b = true ↔ dnsTolower a = dnsTolower b := by
  rw [same_iff]
  simp only [charLess, decide_eq_false_iff_not]
  constructor
  · intro h
    have hint : (dnsTolower a).toInt8.toInt = (dnsTolower b).toInt8.toInt := by omega
    have h8 := congrArg Int8.toUInt8 (Int8.toInt_inj.mp hint)
    rwa [toUInt8_toInt8, toUInt8_toInt8] at h8
  · intro h
    rw [h]
    omega

theorem pdnsIlexicographicalCompare_eq : pdnsIlexicographicalCompare = lexList charLess := by
  funext a b
  induction a generalizing b with
  | nil => cases b <;> rfl
  | cons x a ih =>
    cases b with
    | nil => rfl
    | cons y b =>
      rw [pdnsIlexicographicalCompare, lexList, ih]
      simp only [charLess, decide_eq_true_eq]
      split
      next hne =>
        by_cases hlt : (dnsTolower x).toInt8.toInt < (dnsTolower y).toInt8.toInt
        · rw [if_pos hlt, decide_eq_true_eq]
          omega
        · rw [if_neg hlt, if_pos (by omega), decide_eq_false_iff_not]
          omega
      next heq =>
        rw [if_neg (by omega), if_neg (by omega)]

instance : StrictWeakOrder pdnsIlexicographicalCompare := by
  rw [pdnsIlexicographicalCompare_eq]
  infer_instance

/-- Names are equivalent when they are equal but for letter case. -/
theorem same_pdnsIlexicographicalCompare {a b : Octets} :
    same pdnsIlexicographicalCompare a b = true ↔ toLower a = toLower b := by
  rw [pdnsIlexicographicalCompare_eq]
  exact same_lexList same_charLess

/-! ### `PacketID` -/

/-- `chain_t`, a `set<uint16_t>`. -/
abbrev Chain := Table (id : UInt16 → UInt16) idLess

/-- `PacketID`, as far as queries over UDP use it. -/
structure PacketID where
  id : UInt16
  remote : ComboAddress
  domain : Octets
  type : UInt16
  nearMisses : UInt32
  chain : Chain
  fd : Int

namespace PacketID

/-- `tie(remote, sock, type) < tie(b.remote, b.sock, b.type)`. -/
def tieLess (a b : PacketID) : Bool :=
  a.remote.less b.remote || (!b.remote.less a.remote && idLess a.type b.type)

/-- `PacketIDBirthdayCompare`. -/
def birthdayLess (a b : PacketID) : Bool :=
  if tieLess a b then true
  else if tieLess b a then false
  else pdnsIlexicographicalCompare a.domain b.domain

/-- `PacketID::operator<`. -/
def less (a b : PacketID) : Bool :=
  if tieLess a b then true
  else if tieLess b a then false
  else if pdnsIlexicographicalCompare a.domain b.domain then true
  else if pdnsIlexicographicalCompare b.domain a.domain then false
  else decide (a.fd < b.fd) || (!decide (b.fd < a.fd) && idLess a.id b.id)

theorem tieLess_eq : tieLess = lexThen (onPart ComboAddress.less remote) (onPart idLess type) := by
  funext a b
  unfold tieLess lexThen onPart
  cases a.remote.less b.remote <;> cases b.remote.less a.remote <;> rfl

theorem birthdayLess_eq :
    birthdayLess = lexThen tieLess (onPart pdnsIlexicographicalCompare domain) := rfl

/-- `tie(fd, id) < tie(b.fd, b.id)`. -/
theorem less_eq : less = lexThen birthdayLess
    (lexThen (fun a b => decide (a.fd < b.fd)) (onPart idLess id)) := by
  funext a b
  simp only [birthdayLess_eq, less, lexThen, onPart]
  cases tieLess a b <;> cases tieLess b a <;> simp only [if_true, Bool.false_eq_true, if_false]
  cases pdnsIlexicographicalCompare a.domain b.domain <;>
    cases pdnsIlexicographicalCompare b.domain a.domain <;>
  by_cases h : a.fd < b.fd <;> by_cases h' : b.fd < a.fd <;> simp [h, h']

instance : StrictWeakOrder tieLess := by
  rw [tieLess_eq]
  infer_instance

instance : StrictWeakOrder birthdayLess := by
  rw [birthdayLess_eq]
  infer_instance

instance fdOrder : StrictWeakOrder fun a b : PacketID => decide (a.fd < b.fd) where
  asymm := by
    intro a b h
    simp only [decide_eq_true_eq, decide_eq_false_iff_not] at h ⊢
    omega
  neg_trans := by
    intro a c h b
    simp only [decide_eq_true_eq] at h ⊢
    omega

instance : StrictWeakOrder less := by
  rw [less_eq]
  infer_instance

/-- The keys agree in what is never changed: all but `nearMisses` and `chain`. -/
structure Agree (a b : PacketID) : Prop where
  id : a.id = b.id
  remote : a.remote = b.remote
  domain : a.domain = b.domain
  type : a.type = b.type
  fd : a.fd = b.fd

theorem Agree.refl (a : PacketID) : Agree a a := ⟨rfl, rfl, rfl, rfl, rfl⟩

variable {a b : PacketID}

theorem Agree.symm (h : Agree a b) : Agree b a :=
  ⟨h.id.symm, h.remote.symm, h.domain.symm, h.type.symm, h.fd.symm⟩

theorem Agree.trans {a b c : PacketID} (h : Agree a b) (h' : Agree b c) : Agree a c :=
  ⟨h.id.trans h'.id, h.remote.trans h'.remote, h.domain.trans h'.domain, h.type.trans h'.type,
    h.fd.trans h'.fd⟩

/-- Keys are compared by what is never changed. -/
theorem less_congr {a a' b b' : PacketID} (ha : Agree a' a) (hb : Agree b' b) :
    less a' b' = less a b := by
  unfold less tieLess
  rw [ha.remote, ha.type, ha.domain, ha.fd, ha.id, hb.remote, hb.type, hb.domain, hb.fd, hb.id]

/-- The same question to the same remote. -/
def SameQuestion (a b : PacketID) : Prop :=
  a.remote = b.remote ∧ a.type = b.type ∧ toLower a.domain = toLower b.domain

/-- **What is equivalent under `PacketIDBirthdayCompare`** is the same question. -/
theorem same_birthdayLess_iff :
    same birthdayLess a b = true ↔ a.SameQuestion b := by
  rw [birthdayLess_eq, same_lexThen, tieLess_eq, same_lexThen]
  have hremote : same (onPart ComboAddress.less remote) a b = true ↔ a.remote = b.remote :=
    ComboAddress.same_less
  have htype : same (onPart idLess type) a b = true ↔ a.type = b.type := same_idLess
  have hdomain : same (onPart pdnsIlexicographicalCompare domain) a b = true ↔
      toLower a.domain = toLower b.domain := same_pdnsIlexicographicalCompare
  rw [hremote, htype, hdomain, and_assoc]
  rfl

/-- **What is equivalent under `operator<`** is the same question with the same socket and
id. -/
theorem same_less_iff :
    same less a b = true ↔ a.SameQuestion b ∧ a.fd = b.fd ∧ a.id = b.id := by
  rw [less_eq, same_lexThen, same_birthdayLess_iff, same_lexThen]
  have hfd : same (fun a b : PacketID => decide (a.fd < b.fd)) a b = true ↔ a.fd = b.fd := by
    rw [same_iff]
    simp only [decide_eq_false_iff_not]
    omega
  have hid : same (onPart idLess id) a b = true ↔ a.id = b.id := same_idLess
  rw [hfd, hid]

theorem SameQuestion.symm (h : a.SameQuestion b) : b.SameQuestion a :=
  ⟨h.1.symm, h.2.1.symm, h.2.2.symm⟩

theorem SameQuestion.trans {a b c : PacketID} (h : a.SameQuestion b) (h' : b.SameQuestion c) :
    a.SameQuestion c :=
  ⟨h.1.trans h'.1, h.2.1.trans h'.2.1, h.2.2.trans h'.2.2⟩

theorem Agree.sameQuestion (h : Agree a b) : a.SameQuestion b :=
  ⟨h.remote, h.type, by rw [h.domain]⟩

theorem Agree.same (h : Agree a b) : OrderedUnique.same less a b = true :=
  same_less_iff.mpr ⟨h.sameQuestion, h.fd, h.id⟩

end PacketID

end PowerDNS
